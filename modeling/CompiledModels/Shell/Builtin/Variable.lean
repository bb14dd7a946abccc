import CompiledModels.Shell.Builtin.Option

namespace CompiledModels.Shell.Builtin

open Eval
open Kernel (Run)

def showVariables (start : String) (shown : Variable → Bool) : Eval Unit := do
  let vs := ((← get).bindings.filter shown).mergeSort fun a b => !(b.name < a.name)
  for v in vs do
    let value := v.value.elim "" fun s => "=" ++ quote s
    say (start ++ v.name ++ value ++ "\n")

def mark (f : Variable → Variable) : List String → Eval Unit
  | [] => return ()
  | a :: rest => do
    let (name, value) := splitAssignment a
    match value, ← find? name with
    | none, some v => putVariable (f v)
    | _, _ =>
      checkName name
      update name fun v => f (value.elim v fun s => { v with value := some s })
    mark f rest

def exportNames (args : List String) : Eval Nat := do
  let o ← options "p" args
  if o.has 'p' || o.rest.isEmpty then showVariables "export " (·.exported)
  else mark (fun v => { v with exported := true }) o.rest
  return 0

def fixNames (args : List String) : Eval Nat := do
  let o ← options "p" args
  if o.has 'p' || o.rest.isEmpty then showVariables "readonly " (·.fixed)
  else mark (fun v => { v with fixed := true }) o.rest
  return 0

def hide (name : String) : Eval Unit := do
  let v ← find? name
  modify fun s =>
    { s with frames := match s.frames with
        | f :: fs => { f with bindings := (name, v) :: f.bindings } :: fs
        | [] => [] }

def localNames : List String → Eval Nat
  | [] => return 0
  | a :: rest => do
    if (← get).frames.isEmpty then fail "not in a function"
    if a == "-" then
      modify fun s =>
        { s with frames := match s.frames with
            | f :: fs => { f with options := some (f.options.getD s.options) } :: fs
            | [] => [] }
    else
      let (name, value) := splitAssignment a
      let before ← find? name
      if before.isNone then checkName name
      hide name
      match value with
      | some s => assign name s
      | none => if before.isNone then update name id
    localNames rest

def unsetNames (args : List String) : Eval Nat := do
  let o ← options "vf" args
  let functions := (o.given.getLast?).any (·.1 = 'f')
  for a in o.rest do
    if functions then
      modify fun s => { s with functions := s.functions.filter (·.1 ≠ a) }
    else
      checkName a
      unset a
  return 0

def setArguments (args : List String) : Eval Unit :=
  modify fun s => { s with arguments := args, nextOption := 1, letters := none }

def shift (args : List String) : Eval Nat := do
  let n ← match args with
    | a :: _ => number a
    | [] => pure 1
  let s ← get
  if s.arguments.length < n then fail "can't shift that many"
  setArguments (s.arguments.drop n)
  return 0

def switch (on : Bool) (c : Char) : Eval Unit := do
  if (optionNames.any fun o => o.2 = c) then
    modify fun s =>
      let others := s.options.filter (· ≠ c)
      { s with options := if on then c :: others else others }
  else fail ("Illegal option -" ++ c.toString)

def showOptions (table : Bool) : Eval Unit := do
  let s ← get
  if table then say "Current option settings\n"
  for (name, c) in optionNames do
    let on := s.options.contains c
    if table then
      let gap := String.ofList (List.replicate (16 - name.length) ' ')
      say (name ++ gap ++ (if on then "on" else "off") ++ "\n")
    else say ("set " ++ (if on then "-" else "+") ++ "o " ++ name ++ "\n")

def switchNamed (on : Bool) (name : String) : Eval Unit := do
  match optionNames.find? (·.1 = name) with
  | some (_, c) => switch on c
  | none => fail ("Illegal option -o " ++ name)

structure Switches where
  ended : Bool
  command : Bool
  rest : List String

def switchLetters (atStart on : Bool) (w : Switches) : List Char → Eval Switches
  | [] => return w
  | c :: cs => do
    if c == 'c' && atStart then switchLetters atStart on { w with command := true } cs
    else if c == 'l' && atStart then switchLetters atStart on w cs
    else if c == 'o' then
      match w.rest with
      | name :: rest =>
        switchNamed on name
        switchLetters atStart on { w with rest } cs
      | [] =>
        showOptions on
        switchLetters atStart on w cs
    else
      switch on c
      switchLetters atStart on w cs

def switches (atStart : Bool) (w : Switches) : Nat → Eval Switches
  | 0 => return w
  | fuel + 1 => do
    match w.rest with
    | [] => return w
    | a :: rest =>
      if a == "--" then return { w with ended := true, rest }
      else if a == "-" then
        if !atStart then
          modify fun s => { s with options := s.options.filter fun c => c != 'x' && c != 'v' }
        return { w with rest }
      else if a.startsWith "-" || a.startsWith "+" then
        let w ← switchLetters atStart (a.startsWith "-") { w with rest } (a.toList.drop 1)
        switches atStart w fuel
      else return w

def set (args : List String) : Eval Nat := do
  if args.isEmpty then showVariables "" (·.value.isSome)
  else
    let w ← switches false ⟨false, false, args⟩ (args.length + 1)
    if w.ended || !w.rest.isEmpty then setArguments w.rest
  return 0

def lineSegments (raw : Bool) : List Char → List Segment
  | [] => [⟨[], .separators⟩]
  | cs =>
    let rec go (current : List Char) : List Char → List Segment
      | [] => [⟨Item.ofText false (String.ofList current.reverse), .separators⟩]
      | '\\' :: c :: cs =>
        if raw then go (c :: '\\' :: current) cs
        else
          let start : Segment :=
            ⟨Item.ofText false (String.ofList current.reverse), .separators⟩
          if c == '\n' then start :: go [] cs
          else start :: ⟨[.char c true], .never⟩ :: go [] cs
      | ['\\'] => go (if raw then '\\' :: current else current) []
      | c :: cs => go (c :: current) cs
    go [] cs

def goesOn (cs : List Char) : Bool := (cs.reverse.takeWhile (· == '\\')).length % 2 = 1

def readLine (raw : Bool) : Nat → List Char → Eval (List Char × Bool)
  | 0, text => return (text, false)
  | fuel + 1, text => do
    match ← lift (Run.await fun process k => k.readLine process 0) with
    | .error _ => return (text, false)
    | .ok [] => return (text, false)
    | .ok bytes =>
      let cs := (Text.octets bytes).toList
      let ended := cs.getLast? == some '\n'
      let text := text ++ (if ended then cs.dropLast else cs).filter (· != '\x00')
      if !ended then readLine raw fuel text
      else if !raw && goesOn text then readLine raw fuel (text ++ ['\n'])
      else return (text, true)

def maxParts : Nat := 1000000

def assignFields : List String → List String → Eval Unit
  | [], _ => return ()
  | name :: names, fields => do
    checkName name
    assign name (fields.head?.getD "")
    assignFields names (fields.drop 1)

def read (args : List String) : Eval Nat := do
  let o ← options "p:r" args
  if o.rest.isEmpty then fail "arg count"
  let (line, ended) ← readLine (o.has 'r') maxParts []
  let segments := lineSegments (o.has 'r') line
  let fields := splitFields (← separators) (some o.rest.length) segments
  assignFields o.rest (fields.map fun f => plainText (quotedChars f))
  return if ended then 0 else 1

/-- Looks for an option in `args`, from the place that the state keeps. The answer is the letter,
if there is one, its text or none, a complaint, and where to go on. -/
structure Sought where
  letter : Char
  text : Option String
  complaint : Option String
  next : Nat
  letters : Option Nat
  done : Bool

def seek (spec : List Char) (args : List String) (next : Nat) (within : Option Nat) : Sought :=
  let word (i : Nat) : Option (List Char) := if i = 0 then none else (args[i - 1]?).map (·.toList)
  let current := within.bind fun off => (word (next - 1)).bind fun w =>
    if off < w.length && 1 < next then some (w.drop off, off) else none
  let silent := spec.head? == some ':'
  let spec := if silent then spec.drop 1 else spec
  let started : Option (List Char × Nat × Nat) :=
    match current with
    | some (cs, off) => some (cs, off, next)
    | none =>
      match word next with
      | some ('-' :: c :: cs) => if c == '-' && cs.isEmpty then none else some (c :: cs, 1, next + 1)
      | _ => none
  match started with
  | none =>
    let next := if word next = some ['-', '-'] then next + 1 else next
    ⟨'?', none, none, next, none, true⟩
  | some ([], _, next) => ⟨'?', none, none, next, none, true⟩
  | some (c :: cs, off, next) =>
    let place := some (off + 1)
    match takesText? spec c with
    | none =>
      if silent then ⟨'?', some c.toString, none, next, place, false⟩
      else ⟨'?', none, some ("Illegal option -" ++ c.toString), next, place, false⟩
    | some false => ⟨c, some "", none, next, place, false⟩
    | some true =>
      if !cs.isEmpty then ⟨c, some (String.ofList cs), none, next, none, false⟩
      else match word next with
        | some w => ⟨c, some (String.ofList w), none, next + 1, none, false⟩
        | none =>
          if silent then ⟨':', some c.toString, none, next, place, false⟩
          else ⟨'?', none, some ("No arg for -" ++ c.toString ++ " option"), next, place, false⟩

def getopts (args : List String) : Eval Nat := do
  match args with
  | spec :: name :: rest =>
    let s ← get
    let words := if rest.isEmpty then s.arguments else rest
    let beyond := s.nextOption > words.length + 1
    let found := seek spec.toList words (if beyond then 1 else s.nextOption)
      (if beyond then none else s.letters)
    match found.complaint with
    | some message => tell (message ++ "\n")
    | none => pure ()
    match found.text with
    | some text => assign "OPTARG" text
    | none => if !found.done then unset "OPTARG"
    assign "OPTIND" (toString found.next)
    checkName name
    assign name found.letter.toString
    modify fun s => { s with nextOption := found.next, letters := found.letters }
    return if found.done then 1 else 0
  | _ => fail "Usage: getopts optstring var [arg]"

def showAlias (a : String × String) : Eval Unit := say (a.1 ++ "=" ++ quote a.2 ++ "\n")

def setAlias (args : List String) : Eval Nat := do
  if args.isEmpty then
    let all := (← get).aliases.mergeSort fun a b => bucket a.1 ≤ bucket b.1
    for a in all do showAlias a
    return 0
  let mut status := 0
  for a in args do
    let value := (splitAssignment (a.drop 1).toString).2
    match value with
    | some text =>
      let name := String.ofList (a.toList.take (a.length - text.length - 1))
      modify fun s =>
        { s with aliases :=
            if s.aliases.any (·.1 = name) then
              s.aliases.map fun b => if b.1 = name then (name, text) else b
            else s.aliases ++ [(name, text)] }
    | none =>
      match (← get).aliases.find? (·.1 = a) with
      | some b => showAlias b
      | none =>
        tell ("alias: " ++ a ++ " not found\n")
        status := 1
  return status

def unalias (args : List String) : Eval Nat := do
  let o ← options "a" args
  if o.has 'a' then
    modify fun s => { s with aliases := [] }
    return 0
  let mut status := 0
  for a in o.rest do
    if (← get).aliases.any (·.1 = a) then
      modify fun s => { s with aliases := s.aliases.filter (·.1 ≠ a) }
    else
      tell ("unalias: " ++ a ++ " not found\n")
      status := 1
  return status

end CompiledModels.Shell.Builtin
