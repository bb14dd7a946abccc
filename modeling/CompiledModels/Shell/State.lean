import CompiledModels.Kernel.Routine
import CompiledModels.Shell.Syntax

namespace CompiledModels.Shell

open Kernel (Run)

inductive Flow
  | exit
  | stop
  | failed
  | break (levels : Nat)
  | continue (levels : Nat)
  | return (explicit : Bool)
  deriving DecidableEq

structure Variable where
  name : String
  value : Option String
  exported : Bool := false
  fixed : Bool := false

structure Job where
  number : Nat
  processes : List (Nat × Option ExitStatus)
  background : Bool
  seen : Bool := false

namespace Job

def isDone (j : Job) : Bool := j.processes.all (·.2.isSome)

def outcome? (j : Job) : Option ExitStatus := (j.processes.getLast?).bind (·.2)

def leader (j : Job) : Nat := ((j.processes.getLast?).map (·.1)).getD 0

end Job

def optionNames : List (String × Char) := [
  ("errexit", 'e'), ("noglob", 'f'), ("ignoreeof", 'I'), ("interactive", 'i'), ("monitor", 'm'),
  ("noexec", 'n'), ("stdin", 's'), ("xtrace", 'x'), ("verbose", 'v'), ("vi", 'V'), ("emacs", 'E'),
  ("noclobber", 'C'), ("allexport", 'a'), ("notify", 'b'), ("nounset", 'u'), ("privileged", 'p'),
  ("nolog", '\x00'), ("debug", '\x01')]

structure Frame where
  bindings : List (String × Option Variable) := []
  options : Option (List Char) := none

structure State where
  bindings : List Variable
  functions : List (String × Command)
  aliases : List (String × String)
  arguments : List String
  name : String
  root : Nat
  status : Nat
  decided : Option Nat
  directory : String
  line : Nat
  reached : Nat
  command : Option String
  options : List Char
  loops : Nat
  frames : List Frame
  traps : List (Nat × String)
  jobs : List Job
  lastJob : Option Nat
  substituted : Nat
  written : List String
  unwritten : Bool
  nextOption : Nat
  letters : Option Nat
  found : List (String × String)

abbrev Eval (α : Type) : Type := ExceptT Flow (Run State) α

namespace Eval

def lift {α : Type} (r : Run State α) : Eval α := liftM r

def hasOption (c : Char) : Eval Bool := return (← get).options.contains c

def setStatus (n : Nat) : Eval Unit := modify fun s => { s with status := n }

def andThen {α : Type} (body : Eval α) (after : Eval Unit) : Eval α := do
  let r : Except Flow α ← (body.run : Run State _)
  after
  match r with
  | .ok a => return a
  | .error flow => throw flow

def say (text : String) : Eval Unit := modify fun s => { s with written := text :: s.written }

def flush : Eval Unit := do
  let text := String.join (← get).written.reverse
  if text.isEmpty then return ()
  modify fun s => { s with written := [] }
  match ← lift (Run.write 1 (Text.octetBytes text)) with
  | .ok () => pure ()
  | .error _ => modify fun s => { s with unwritten := true }

def tell (text : String) : Eval Unit := lift (Run.print 2 text)

def complain (message : String) : Eval Unit := do
  let s ← get
  let command := s.command.elim "" (· ++ ": ")
  tell (s.name ++ ": " ++ toString s.line ++ ": " ++ command ++ message ++ "\n")

def fail {α : Type} (message : String) : Eval α := do
  complain message
  setStatus 2
  throw .failed

def hang {α : Type} : Eval α := lift (Run.await fun _ _ => none)

def find? (name : String) : Eval (Option Variable) :=
  return (← get).bindings.find? (·.name = name)

def value? (name : String) : Eval (Option String) := return (← find? name).bind (·.value)

def valueOr (name other : String) : Eval String := return (← value? name).getD other

def putVariable (v : Variable) : Eval Unit :=
  modify fun s =>
    { s with bindings :=
               if s.bindings.any (·.name = v.name) then
                 s.bindings.map fun w => if w.name = v.name then v else w
               else v :: s.bindings
             nextOption :=
               if v.name = "OPTIND" then max 1 ((v.value.bind (·.toNat?)).getD 1) else s.nextOption
             letters := if v.name = "OPTIND" then none else s.letters
             found := if v.name = "PATH" then [] else s.found }

def update (name : String) (f : Variable → Variable) : Eval Unit := do
  match ← find? name with
  | some v => if v.fixed then fail (name ++ ": is read only") else putVariable (f v)
  | none => putVariable (f ⟨name, none, ← hasOption 'a', false⟩)

def assign (name value : String) : Eval Unit :=
  update name fun v => { v with value := some value }

def unset (name : String) : Eval Unit := do
  match ← find? name with
  | some v =>
    if v.fixed then fail (name ++ ": is read only")
    else modify fun s =>
      { s with bindings := s.bindings.filter (·.name ≠ name)
               found := if name = "PATH" then [] else s.found }
  | none => pure ()

def restore (f : Frame) : Eval Unit :=
  modify fun s =>
    { s with bindings := f.bindings.foldl (fun vs (name, v) =>
               v.toList ++ vs.filter (·.name ≠ name)) s.bindings
             options := f.options.getD s.options
             found := if f.bindings.any (·.1 = "PATH") then [] else s.found }

def errorWords : FileError → String
  | .os e => e.words
  | e => e.text

end Eval

def bucket (name : String) : Nat :=
  let codes := name.toList.map (·.toNat)
  (codes.foldl (· + ·) ((codes.head?.getD 0) * 16)) % 39

namespace State

def exported (s : State) : List (String × String) :=
  let all := s.bindings.reverse.filterMap fun v =>
    if v.exported then v.value.map (v.name, ·) else none
  all.mergeSort fun a b => bucket a.1 ≤ bucket b.1

def hasTraps (s : State) : Bool := s.traps.any (!·.2.isEmpty)

end State

end CompiledModels.Shell
