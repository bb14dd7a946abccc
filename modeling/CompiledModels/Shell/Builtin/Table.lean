import CompiledModels.Shell.Builtin.Place
import CompiledModels.Shell.Builtin.Process
import CompiledModels.Shell.Builtin.Variable
import CompiledModels.Shell.Condition
import CompiledModels.Shell.Format
import CompiledModels.Shell.Token

namespace CompiledModels.Shell.Builtin

open Eval
open Kernel (Run)

def condition (args : List String) : Eval Nat := do
  match ← lift (Run.look fun process k => Condition.holds k process args) with
  | .ok b => return if b then 0 else 1
  | .error e => fail e

def bracketed (args : List String) : Eval Nat :=
  if args.getLast? == some "]" then condition args.dropLast else fail "missing ]"

def echo (args : List String) : Eval Nat := do
  say (Format.echo args)
  return 0

def printf (args : List String) : Eval Nat := do
  match (← options "" args).rest with
  | [] => fail "usage: printf format [arg ...]"
  | format :: args =>
    let made := Format.apply Format.shellRules format args
    for c in made.complaints do complain c.2
    say (String.join made.output.reverse)
    match made.failure with
    | some message => fail message
    | none => return made.status

def hash (args : List String) : Eval Nat := do
  let o ← options "rv" args
  if o.has 'r' then modify fun s => { s with found := [] }
  else if o.rest.isEmpty then
    for (_, p) in (← get).found do say (p ++ "\n")
  return 0

def table : List (String × (List String → Eval Nat)) := [
  (":", fun _ => return 0), ("true", fun _ => return 0), ("false", fun _ => return 1),
  ("[", bracketed), ("alias", setAlias), ("bg", control), ("cd", changeDirectory),
  ("chdir", changeDirectory), ("echo", echo), ("export", exportNames), ("fg", control),
  ("getopts", getopts), ("hash", hash), ("jobs", jobs), ("kill", kill), ("local", localNames),
  ("printf", printf), ("pwd", printDirectory), ("read", read), ("readonly", fixNames),
  ("set", set), ("shift", shift), ("test", condition), ("times", times), ("trap", trap),
  ("ulimit", ulimit), ("umask", umask), ("unalias", unalias), ("unset", unsetNames),
  ("wait", wait)]

def steering : List String :=
  [".", "break", "command", "continue", "eval", "exec", "exit", "return", "type"]

def isBuiltin (name : String) : Bool :=
  table.any (·.1 = name) || steering.contains name

def isSpecial (name : String) : Bool := Parse.specialNames.contains name

def declaring : List String := ["alias", "export", "local", "readonly"]

end CompiledModels.Shell.Builtin
