import CompiledModels.Shell.Eval

namespace CompiledModels.Shell

open Eval
open Kernel (Run)

namespace Session

def depth : Nat := 100000000

def defaultPath : String :=
  "/usr/local/sbin:/usr/local/bin:/usr/sbin:/usr/bin:/sbin:/bin"

def startVariables (given : List (String × String)) (parent : Nat) : List Variable :=
  let imported := (given.filter fun v => Builtin.isName v.1).foldl (fun vs v =>
    ⟨v.1, some v.2, true, false⟩ :: vs.filter (·.name ≠ v.1)) ([] : List Variable)
  let put (vs : List Variable) (name value : String) : List Variable :=
    if vs.any (·.name = name) then
      vs.map fun v => if v.name = name then { v with value := some value } else v
    else vs ++ [⟨name, some value, false, false⟩]
  let default (vs : List Variable) (name value : String) : List Variable :=
    if vs.any (·.name = name) then vs else put vs name value
  let vs := put imported "IFS" " \t\n"
  let vs := put vs "OPTIND" "1"
  let vs := put vs "PPID" (toString parent)
  let vs := default vs "PATH" defaultPath
  let vs := default vs "PS1" "# "
  let vs := default vs "PS2" "> "
  default vs "PS4" "+ "

def initial (name : String) : State :=
  { bindings := [], functions := [], aliases := [], arguments := [], name, root := 0, status := 0
    decided := none, directory := "/", line := 0, reached := 1, command := none, options := []
    loops := 0, frames := [], traps := [], jobs := [], lastJob := none, substituted := 0
    written := [], unwritten := false, nextOption := 1, letters := none, found := [] }

def prepare (given : List (String × String)) : Eval Unit := do
  let (number, parent) ← lift (Run.look fun process k =>
    (process, ((k.process? process).map (·.parent)).getD 0))
  modify fun s => { s with root := number, bindings := startVariables given parent }
  let physical ← Builtin.physicalDirectory
  let told ← valueOr "PWD" ""
  let isRight ← lift (Run.look fun process k =>
    told.startsWith "/" && (k.resolve process true told).toOption = some (k.directory process))
  let directory := if isRight then told else physical
  modify fun s => { s with directory }
  update "PWD" fun v => { v with value := some directory, exported := true }

def run (given : List (String × String)) (args : List String) : Eval Unit := do
  prepare given
  let w ← Builtin.switches true ⟨false, false, args⟩ (args.length + 1)
  let arguments (rest : List String) : Eval Unit :=
    modify fun s => { s with arguments := rest }
  let named (rest : List String) : Eval Unit := do
    match rest with
    | [] => pure ()
    | name :: rest =>
      modify fun s => { s with name }
      arguments rest
  match w.command, w.rest with
  | true, [] => fail "-c requires an argument"
  | true, text :: rest =>
    named rest
    runText { last := true } (sourceOf false text) depth
  | false, rest =>
    if rest.isEmpty || (← get).options.contains 's' then
      arguments rest
      if rest.isEmpty then
        modify fun s => { s with options := 's' :: s.options.filter (· != 's') }
      let bytes := ((← lift (Run.readAll 0)).toOption).getD []
      runText {} (sourceOf true (Text.octets bytes)) depth
    else
      let p := rest.head?.getD ""
      match ← readFile p with
      | .error e => fail ("cannot open " ++ p ++ ": " ++ openWords false e)
      | .ok bytes =>
        named rest
        runText {} (sourceOf true (Text.octets bytes)) depth

def routine (i : Kernel.Image) : Kernel.Routine :=
  concluded (run i.bindings i.arguments) depth (fun status _ => .ended (.code status))
    (initial i.name)

end Session

end CompiledModels.Shell
