import CompiledModels.Kernel.Permission
import CompiledModels.Shell.Builtin.Option

namespace CompiledModels.Shell.Builtin

open Eval
open Kernel (Run Permission.octal? Permission.octalText Permission.clauses? Permission.without)

def physicalDirectory : Eval String :=
  lift (Run.look fun process k => "/" ++ "/".intercalate ((k.directory process).map Text.toOctets))

def normalPath (dir p : String) : String :=
  let step (names : List String) (name : String) : List String :=
    if name.isEmpty || name == "." then names
    else if name == ".." then names.drop 1 else name :: names
  let start := if p.startsWith "/" then [] else (Path.segments dir).foldl step []
  let double := (p.startsWith "//" && !p.startsWith "///") ||
    (!p.startsWith "/" && dir.startsWith "//")
  let names := ((Path.segments p).foldl step start).reverse
  (if double then "//" else "/") ++ "/".intercalate names

def enter (physical : Bool) (dest : String) : Eval Bool := do
  let logical := normalPath (← get).directory dest
  let p := if physical then dest else logical
  let entered : Except FileError Unit ← lift (Run.tryChange fun process k => do
    let f ← k.facts process true p
    if !f.isDirectory then throw (.os .notDirectory)
    let l ← k.resolve process true p
    return k.updateProcess process fun p => { p with directory := l })
  match entered with
  | .error _ => return false
  | .ok () =>
    let before := (← get).directory
    let now ← if physical then physicalDirectory else pure logical
    let share (value : String) (v : Variable) : Variable :=
      { v with value := some value, exported := true }
    update "OLDPWD" (share before)
    modify fun s => { s with directory := now }
    update "PWD" (share now)
    return true

def isPlain (dest : String) : Bool :=
  dest.startsWith "/" || ["." , ".."].contains ((Path.segments dest).head?.getD "")

def changeDirectory (args : List String) : Eval Nat := do
  let o ← options "LP" args
  let physical := (o.given.getLast?).any (·.1 = 'P')
  let back := o.rest.head? == some "-"
  let dest ← match o.rest with
    | [] => valueOr "HOME" ""
    | a :: _ => if back then valueOr "OLDPWD" "" else pure a
  let shown : Eval Nat := do
    say ((← get).directory ++ "\n")
    return 0
  let direct (dest : String) : Eval Nat := do
    if ← enter physical dest then
      if back then shown else return 0
    else fail ("can't cd to " ++ dest)
  if isPlain dest then direct dest
  else
    let dest := if dest.isEmpty then "." else dest
    let places := (Text.splitAll (· == ':') (← valueOr "CDPATH" "").toList).map String.ofList
    let paths := places.map fun d => if d.isEmpty then dest else d ++ "/" ++ dest
    let found : Option String ← lift (Run.look fun process k =>
      paths.find? fun p => (k.facts process true p).toOption.any (·.isDirectory))
    match found with
    | none => direct dest
    | some p =>
      if ← enter physical p then
        if back || p != dest then shown else return 0
      else fail ("can't cd to " ++ dest)

def printDirectory (args : List String) : Eval Nat := do
  let o ← options "LP" args
  let physical := (o.given.getLast?).any (·.1 = 'P')
  let logical := (← get).directory
  let dir ← if physical then physicalDirectory else pure logical
  say (dir ++ "\n")
  return 0

def maskLetters (mask : Nat) : String :=
  let part (name : String) (shift : Nat) : String :=
    let bits := (Permission.without 0o777 mask) / shift % 8
    name ++ "=" ++ (if bits &&& 4 != 0 then "r" else "") ++ (if bits &&& 2 != 0 then "w" else "") ++
      (if bits &&& 1 != 0 then "x" else "")
  part "u" 0o100 ++ "," ++ part "g" 0o10 ++ "," ++ part "o" 1

def umask (args : List String) : Eval Nat := do
  let o ← options "S" args
  let mask : Nat ← lift (Run.look fun process k => ((k.process? process).map (·.mask)).getD 0)
  match o.rest with
  | [] =>
    if o.has 'S' then say (maskLetters mask ++ "\n")
    else
      let digits := Permission.octalText mask
      say (String.ofList (List.replicate (4 - digits.length) '0') ++ digits ++ "\n")
    return 0
  | a :: _ =>
    let new ←
      if a.toList.head?.any Char.isDigit then
        match Permission.octal? a with
        | some n => pure (n % 0o1000)
        | none => fail ("Illegal number: " ++ a)
      else match Permission.clauses? a with
        | some cs =>
          let kept := Permission.without 0o777 mask
          pure (Permission.without 0o777 (cs.foldl (Kernel.Permission.Clause.apply false 0) kept))
        | none => fail ("Illegal mode: " ++ a)
    lift (Run.change fun process k => k.updateProcess process fun p => { p with mask := new })
    return 0

def limits : List (String × Char × String) := [
  ("time(seconds)", 't', "unlimited"), ("file(blocks)", 'f', "unlimited"),
  ("data(kbytes)", 'd', "unlimited"), ("stack(kbytes)", 's', "8192"),
  ("coredump(blocks)", 'c', "0"), ("memory(kbytes)", 'm', "unlimited"),
  ("locked memory(kbytes)", 'l', "8192"), ("process", 'p', "unlimited"),
  ("nofiles", 'n', "1048576"), ("vmemory(kbytes)", 'v', "unlimited"), ("locks", 'w', "unlimited"),
  ("rtprio", 'r', "0")]

def ulimit (args : List String) : Eval Nat := do
  let o ← options "HSatfdscmlpnvwr" args
  if o.has 'a' then
    for (name, _, value) in limits do
      say (name ++ String.ofList (List.replicate (20 - name.length) ' ') ++ " " ++ value ++ "\n")
    return 0
  let letter := ((o.given.reverse.find? fun g => g.1 != 'H' && g.1 != 'S').map (·.1)).getD 'f'
  if o.rest.isEmpty then
    say (((limits.find? fun l => l.2.1 = letter).map (·.2.2)).getD "unlimited" ++ "\n")
  return 0

end CompiledModels.Shell.Builtin
