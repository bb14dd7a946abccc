import CompiledModels.Tool.Directory
import CompiledModels.Tool.EditScript
import CompiledModels.Tool.Launch

/-!
`sed`: a script is run for each line of the input.
-/

namespace CompiledModels.Tool

open Kernel (Run)
open Work

inductive RangeState
  | outside
  | inside (last : Option Nat)

inductive Queued
  | text (cs : List Char)
  | file (p : String)

structure EditOutput where
  descriptor : Nat
  missing : Bool := false

structure EditManner where
  script : EditScript
  quiet : Bool := false
  separate : Bool := false
  inPlace : Option String := none
  width : Nat := 70
  stop : Char := '\n'
  unbuffered : Bool := false
  posix : Bool := false

structure Editor where
  space : Line := ⟨[], true⟩
  held : Line := ⟨[], true⟩
  number : Nat := 0
  queue : List Queued := []
  replaced : Bool := false
  ranges : Array RangeState
  lastRegex : Option FlaggedRegex := none
  files : List String
  input : Option Reader := none
  name : String := "-"
  changed : Option (List String) := none
  missing : Bool := false
  outputs : Array EditOutput := #[]
  readers : List (String × Option Reader) := []
  status : Nat := 0

abbrev Editing := StateT Editor (Run Context)

namespace Editing

def work {α : Type} (w : Work α) : Editing α := liftM w

def complain (message : String) : Editing Unit := work do
  Run.print 2 ((← get).name ++ ": " ++ message ++ "\n")

def stopWith {α : Type} (status : Nat) (message : String) : Editing α := do
  complain message
  work (finish status)

def worsen (status : Nat) : Editing Unit :=
  modify fun s => { s with status := max s.status status }

variable (m : EditManner)

def emit (s : String) : Editing Unit := do
  match (← get).changed with
  | some parts => modify fun e => { e with changed := some (s :: parts) }
  | none =>
    work (put s)
    if m.unbuffered then work flush

def completeLine : Editing Unit := do
  if (← get).missing then
    emit m m.stop.toString
    modify fun e => { e with missing := false }

def emitText (s : String) : Editing Unit := do
  completeLine m
  emit m s

def emitLine (l : Line) : Editing Unit := do
  emitText m (l.full m.stop)
  if !l.ended then modify fun e => { e with missing := true }

def emitTo (file : Nat) (l : Line) : Editing Unit := do
  match (← get).outputs[file]? with
  | none => return ()
  | some o =>
    let s := (if o.missing then m.stop.toString else "") ++ l.full m.stop
    if o.descriptor = 1 then work (put s)
    else
      match ← work (Run.write o.descriptor (Text.octetBytes s)) with
      | .ok () => pure ()
      | .error failure => stopWith 4 ("couldn't flush <unknown>: " ++ words failure)
    modify fun e => { e with
      outputs := e.outputs.modify file fun o => { o with missing := !l.ended } }

def emitQueue : Editing Unit := do
  let queue := (← get).queue.reverse
  modify fun e => { e with queue := [] }
  queue.forM fun q => do
    completeLine m
    match q with
    | .text cs => emit m (String.ofList cs)
    | .file p =>
      match ← work (contents p) with
      | .ok s => emit m s
      | .error _ => return ()

def backupName (suffix p : String) : String :=
  let base := Name.base p
  let name := if suffix.contains '*' then suffix.replace "*" base else base ++ suffix
  if name.contains '/' then name
  else String.ofList (p.toList.take (p.length - base.length)) ++ name

def closeInput : Editing Unit := do
  let e ← get
  match e.input with
  | none => return ()
  | some r =>
    work (Work.closeInput r.descriptor)
    modify fun e => { e with input := none, changed := none }
    match e.changed with
    | none => return ()
    | some parts =>
      let p := e.name
      let front := String.ofList (p.toList.take (p.length - (Name.base p).length))
      let seed ← work (Run.look fun process k => k.files.nextNumber * 7919 + process + k.now)
      let fresh := front ++ "sed" ++ String.ofList (drawName 6 (seed * 2862933555777941757))
      let mode ← work do return ((← Run.facts true p).toOption.map (·.mode)).getD 0o644
      match ← work (Run.openFile fresh { Kernel.Mode.writing with onlyNew := true }) with
      | .error failure =>
        stopWith 4 ("couldn't open temporary file " ++ fresh ++ ": " ++ words failure)
      | .ok d =>
        work do
          let _ ← Run.write d (Text.octetBytes (String.join parts.reverse))
          Run.close d
          let _ ← Run.tryChange fun process k => k.setMode process mode fresh
        match m.inPlace with
        | some "" => pure ()
        | some suffix =>
          let _ ← work (Run.tryChange fun process k => k.rename process p (backupName suffix p))
        | none => pure ()
        let _ ← work (Run.tryChange fun process k => k.rename process fresh p)

def openNext : Editing Bool := do
  match (← get).files with
  | [] => return false
  | p :: files =>
    modify fun e => { e with files }
    if p == "-" && m.inPlace.isNone then
      modify fun e => { e with input := some { descriptor := 0 }, name := "-" }
      return true
    match ← work (Run.openFile p .reading) with
    | .error failure =>
      complain ("can't read " ++ p ++ ": " ++ words failure)
      worsen 2
      return true
    | .ok d =>
      let regular ← work do return ((← Run.facts true p).toOption.map (·.isFile)).getD false
      if m.inPlace.isSome && !regular then
        stopWith 4 ("couldn't edit " ++ p ++ ": not a regular file")
      modify fun e => { e with
        input := some { descriptor := d }, name := p
        changed := if m.inPlace.isSome then some [] else none }
      return true

def failReading {α : Type} (failure : FileError) : Editing α := do
  let name := (← get).name
  stopWith 4 ("read error on " ++ (if name == "-" then "stdin" else name) ++ ": " ++
    words failure)

def hasMore : Editing Bool := do
  match (← get).input with
  | none => return false
  | some r =>
    if !r.pending.isEmpty then return true
    else if r.atEnd then return false
    else
      match ← work (r.fill m.stop maxTurns) with
      | .error failure => failReading failure
      | .ok r =>
        modify fun e => { e with input := some r }
        return !r.pending.isEmpty

def isLast : Editing Bool := do
  let rec go : Nat → Editing Bool
    | 0 => return true
    | fuel + 1 => do
      if ← hasMore m then return false
      else if m.separate then return true
      else
        closeInput m
        if ← openNext m then go fuel else return true
  go ((← get).files.length + 2)

def readLine? : Editing (Option Line) := do
  emitQueue m
  modify fun e => { e with replaced := false }
  let rec go : Nat → Editing (Option Line)
    | 0 => return none
    | fuel + 1 => do
      match (← get).input with
      | none =>
        if (← get).files.isEmpty then return none
        if m.separate then
          if m.inPlace.isNone then completeLine m
          modify fun e => { e with
            number := 0
            missing := if m.inPlace.isSome then false else e.missing
            ranges := (e.ranges.mapIdx fun i _ =>
              match (m.script.commands[i]?).map (·.selection.first) with
              | some (some (Address.line 0)) => RangeState.inside none
              | _ => .outside) }
        let _ ← openNext m
        go fuel
      | some r =>
        match ← work (r.next? m.stop) with
        | .error failure => failReading failure
        | .ok (none, _) =>
          closeInput m
          go fuel
        | .ok (some l, r) =>
          modify fun e => { e with input := some r, number := e.number + 1 }
          return some l
  go (2 * (← get).files.length + 4)

def regexFor (r : Option FlaggedRegex) : Editing FlaggedRegex := do
  match r with
  | some r =>
    modify fun e => { e with lastRegex := some r }
    return r
  | none =>
    match (← get).lastRegex with
    | some r => return r
    | none => stopWith 1 (m.script.place ++ ": no previous regular expression")

def subjectOf (r : FlaggedRegex) (cs : List Char) : Regex.Subject :=
  { text := cs.toArray, folds := r.folds, hasLines := r.hasLines, exact := r.regex.hasAgain }

def isAt : Address → Editing Bool
  | Address.line n => return (← get).number = n
  | .step first width =>
    return first ≤ (← get).number && ((← get).number - first) % width = 0
  | .last => isLast m
  | .matching r => do
    let r ← regexFor m r
    return (r.regex.find? (subjectOf r (← get).space.text) 0).isSome

def setRange (index : Nat) (s : RangeState) : Editing Unit :=
  modify fun e => { e with ranges := e.ranges.modify index fun _ => s }

def startsRange (index : Nat) (first : Address) (stop : RangeEnd) : Editing Bool := do
  if !(← isAt m first) then return false
  let number := (← get).number
  let upTo (last : Nat) : Editing Bool := do
    if number < last then setRange index (.inside (some last))
    return true
  match stop with
  | .after count => upTo (number + count)
  | .multiple n => upTo (if n = 0 then 0 else (number / n + 1) * n)
  | .address (.line last) => upTo last
  | .address _ =>
    setRange index (.inside none)
    return true

def selects (index : Nat) (s : LineChoice) : Editing Bool := do
  let found ← match s.first, s.stop with
    | none, _ => pure true
    | some first, none => isAt m first
    | some first, some stop =>
      match (← get).ranges[index]? with
      | some (.inside (some last)) => do
        let number := (← get).number
        if last ≤ number then setRange index .outside
        pure (number ≤ last)
      | some (.inside none) => do
        match stop with
        | .address a => if ← isAt m a then setRange index .outside
        | _ => pure ()
        pure true
      | _ => startsRange m index first stop
  return found != s.negated

def outputOf (command : String) : Editing String := do
  let bindings := (← work context).bindings
  match ← work (imageOf bindings "sh" ["-c", command]) with
  | .error _ => return ""
  | .ok image => work do
    flush
    let (reading, writing) ← Run.act fun process k => k.makePipe process
    let child ← Run.fork do
      Run.change fun process k =>
        let k := ((k.duplicate process writing 1 false).toOption).getD k
        (k.close process writing).close process reading
      Run.become image
    Run.close writing
    let bytes ← Run.readAll reading
    Run.close reading
    let _ ← Run.waitFor child
    return Text.octets (bytes.toOption.getD [])

def inCase : Option LetterCase → List Char → List Char
  | some .upper, cs => cs.map Char.toUpper
  | some .lower, cs => cs.map Char.toLower
  | none, cs => cs

def cased (all first : Option LetterCase) : List Char → List Char
  | [] => []
  | c :: cs => (if first.isSome then inCase first [c] else inCase all [c]) ++ inCase all cs

def replacement (f : Regex.Found) (s : Regex.Subject) :
    Option LetterCase → List Piece → List Char
  | _, [] => []
  | carried, p :: rest =>
    let first := if p.first.isSome then p.first else carried
    let front := cased p.all first p.text
    let first := if p.text.isEmpty then first else none
    match p.group with
    | none => front ++ replacement f s none rest
    | some n =>
      let group := f.text s n
      if group.isEmpty then
        front ++ replacement f s (if p.first.isSome then first else none) rest
      else front ++ cased p.all first group ++ replacement f s none rest

/-- The text after a substitution, if there was one; `count` matches were seen before `place`, the
last of which ended at `behind`. -/
def substituted (r : FlaggedRegex) (x : Substitution) (s : Regex.Subject) (count place : Nat)
    (behind : Option Nat) : Nat → Bool × List Char
  | 0 => (false, [])
  | fuel + 1 =>
    let rest := (s.text.extract place s.text.size).toList
    if s.text.size < place then (false, [])
    else match r.regex.find? s place with
      | none => (false, rest)
      | some f =>
        let front := rest.take (f.start - place)
        let isEmpty := f.start = f.stop
        let skipped := if isEmpty then (s.text.extract f.stop (f.stop + 1)).toList else []
        let next := if isEmpty then f.stop + 1 else f.stop
        if isEmpty && behind = some f.start then
          let (done, more) := substituted r x s count next (some f.stop) fuel
          (done, front ++ skipped ++ more)
        else if count + 1 < x.start then
          let (done, more) := substituted r x s (count + 1) next (some f.stop) fuel
          (done, front ++ f.text s 0 ++ skipped ++ more)
        else
          let new := replacement f s none x.pieces
          if x.global then
            let (_, more) := substituted r x s (count + 1) next (some f.stop) fuel
            (true, front ++ new ++ skipped ++ more)
          else (true, front ++ new ++ (s.text.extract f.stop s.text.size).toList)

def substitute (x : Substitution) : Editing Unit := do
  let r ← regexFor m x.pattern
  let most := (x.pieces.filterMap (·.group)).foldl max 0
  if r.regex.groupCount < most then
    stopWith 1 (m.script.place ++ ": invalid reference \\" ++ toString most ++
      " on \x60s' command's RHS")
  let l := (← get).space
  let s := subjectOf r l.text
  let (done, text) := substituted r x s 0 0 none (s.text.size + 2)
  if !done then return ()
  modify fun e => { e with space := { l with text }, replaced := true }
  if x.runs then
    if x.printsBefore then emitLine m (← get).space
    let result := (← outputOf (String.ofList text)).toList
    let result := if result.getLast? == some m.stop then result.dropLast else result
    modify fun e => { e with space := { l with text := result } }
    if x.prints then emitLine m (← get).space
  else if x.printsBefore || x.prints then emitLine m (← get).space
  match x.file with
  | some n => emitTo m n (← get).space
  | none => return ()

def shown (c : Char) : String :=
  match c with
  | '\\' => "\\\\"
  | '\x07' => "\\a"
  | '\x08' => "\\b"
  | '\x0c' => "\\f"
  | '\n' => "\\n"
  | '\x0d' => "\\r"
  | '\t' => "\\t"
  | '\x0b' => "\\v"
  | c => if Quotation.isVisible c then c.toString else "\\" ++ Quotation.octal c

def brokenRows (width column : Nat) : List String → List String
  | [] => ["$\n"]
  | s :: rest =>
    if width != 0 && width - 1 < column + s.length then
      "\\\n" :: s :: brokenRows width s.length rest
    else s :: brokenRows width (column + s.length) rest

def splitLine (stop : Char) (cs : List Char) : List Char × Option (List Char) :=
  let first := cs.takeWhile (· != stop)
  (first, (cs.drop first.length).tail?)

inductive Turn
  | goOn
  | jump (target : Nat)
  | over (prints : Bool)
  | again
  | quit (status : Nat)

def setSpace (l : Line) : Editing Unit := modify fun e => { e with space := l }

def nextOf (p : String) : Editing (Option Line) := do
  let known := ((← get).readers.find? (·.1 = p)).map (·.2)
  let reader ← match known with
    | some r => pure r
    | none => do
      match ← work (openInput p) with
      | .ok d => pure (some { descriptor := d })
      | .error _ => pure none
  let setReader (r : Option Reader) : Editing Unit :=
    modify fun e => { e with readers := (p, r) :: e.readers.filter (·.1 ≠ p) }
  match reader with
  | none =>
    setReader none
    return none
  | some r =>
    match ← work (r.next? m.stop) with
    | .error _ => return none
    | .ok (l, r) =>
      setReader (some r)
      return l

def act (index : Nat) : Action → Editing Turn
  | .nothing => return .goOn
  | .block _ => return .goOn
  | .text .append cs => do
    modify fun e => { e with queue := .text cs :: e.queue }
    return .goOn
  | .text .insert cs => do
    emitText m (String.ofList cs)
    return .goOn
  | .text .change cs => do
    match (← get).ranges[index]? with
    | some (.inside _) => pure ()
    | _ => emitText m (String.ofList cs)
    return .over false
  | .jump .always target => return .jump target
  | .jump .replaced target => do
    if (← get).replaced then
      modify fun e => { e with replaced := false }
      return .jump target
    else return .goOn
  | .jump .notReplaced target => do
    if (← get).replaced then
      modify fun e => { e with replaced := false }
      return .goOn
    else return .jump target
  | .quit status prints => do
    if prints then
      if !m.quiet then emitLine m (← get).space
      emitQueue m
    return .quit status
  | .show width => do
    let rows := brokenRows (width.getD m.width) 0 ((← get).space.text.map shown)
    emitText m (String.join rows)
    return .goOn
  | .readFile p => do
    modify fun e => { e with queue := .file p :: e.queue }
    return .goOn
  | .readLine p => do
    match ← nextOf m p with
    | some l => modify fun e => { e with queue := .text (l.full m.stop).toList :: e.queue }
    | none => pure ()
    return .goOn
  | .write file => do
    emitTo m file (← get).space
    return .goOn
  | .writeLine file => do
    let l := (← get).space
    match splitLine m.stop l.text with
    | (first, some _) => emitTo m file ⟨first, true⟩
    | (_, none) => emitTo m file l
    return .goOn
  | .substitute s => do
    substitute m s
    return .goOn
  | .translate pairs => do
    let l := (← get).space
    let one (c : Char) : Char := ((pairs.find? (·.1 == c)).map (·.2)).getD c
    setSpace { l with text := l.text.map one }
    return .goOn
  | .run "" => do
    let l := (← get).space
    let result := (← outputOf (String.ofList l.text)).toList
    setSpace { l with
      text := if result.getLast? == some m.stop then result.dropLast else result }
    return .goOn
  | .run command => do
    emitText m (← outputOf command)
    return .goOn
  | .delete => return .over false
  | .deleteLine => do
    let l := (← get).space
    match splitLine m.stop l.text with
    | (_, some rest) =>
      setSpace { l with text := rest }
      return .again
    | (_, none) => return .over false
  | .print => do
    emitLine m (← get).space
    return .goOn
  | .printLine => do
    let l := (← get).space
    match splitLine m.stop l.text with
    | (first, some _) => emitLine m ⟨first, true⟩
    | (_, none) => emitLine m l
    return .goOn
  | .next => do
    if ← isLast m then return .over true
    if !m.quiet then emitLine m (← get).space
    match ← readLine? m with
    | some l =>
      setSpace l
      return .goOn
    | none => return .over false
  | .join => do
    if ← isLast m then return .over (!m.posix)
    match ← readLine? m with
    | some l =>
      let before := (← get).space.text
      setSpace { l with text := before ++ m.stop :: l.text }
      return .goOn
    | none => return .over false
  | .recall => do
    setSpace (← get).held
    return .goOn
  | .recallMore => do
    let e ← get
    setSpace { e.held with text := e.space.text ++ m.stop :: e.held.text }
    return .goOn
  | .keep => do
    modify fun e => { e with held := e.space }
    return .goOn
  | .keepMore => do
    modify fun e => { e with
      held := { e.space with text := e.held.text ++ m.stop :: e.space.text } }
    return .goOn
  | .exchange => do
    modify fun e => { e with space := e.held, held := e.space }
    return .goOn
  | .number => do
    emitText m (toString (← get).number ++ "\n")
    return .goOn
  | .clear => do
    setSpace { (← get).space with text := [] }
    return .goOn
  | .fileName => do
    emitText m ((← get).name ++ "\n")
    return .goOn

def runFrom (index : Nat) : Nat → Editing Turn
  | 0 => work hang
  | fuel + 1 => do
    match m.script.commands[index]? with
    | none => return .over true
    | some c =>
      let selected ← selects m index c.selection
      match c.action with
      | .block past => runFrom (if selected then index + 1 else past) fuel
      | a =>
        if !selected then runFrom (index + 1) fuel
        else match ← act m index a with
          | .goOn => runFrom (index + 1) fuel
          | .jump target =>
            work (Run.spend 0)
            runFrom target fuel
          | turn => return turn

def turns (isNew : Bool) : Nat → Editing Nat
  | 0 => work hang
  | fuel + 1 => do
    let ready ← if !isNew then pure true else do
      match ← readLine? m with
      | some l =>
        setSpace l
        pure true
      | none => pure false
    if !ready then return (← get).status
    match ← runFrom m 0 maxTurns with
    | .over prints =>
      if prints && !m.quiet then emitLine m (← get).space
      turns true fuel
    | .again =>
      emitQueue m
      turns false fuel
    | .quit status =>
      let worst := (← get).status
      return if worst = 0 then status else worst
    | _ => turns true fuel

def openOutput (p : String) : Editing Unit := do
  let d ← match p with
    | "/dev/stdout" => pure 1
    | "/dev/stderr" => pure 2
    | p => do
      match ← work (Run.openFile p .writing) with
      | .ok d => pure d
      | .error failure => stopWith 4 ("couldn't open file " ++ p ++ ": " ++ words failure)
  modify fun e => { e with outputs := e.outputs.push { descriptor := d } }

def leaveInput : Editing Unit := do
  match (← get).input with
  | some r =>
    if r.descriptor = 0 then
      work (Run.change fun process k =>
        match k.position? process 0 with
        | some n => ((k.seek process 0 (n - r.pending.length)).toOption).getD k
        | none => k)
    closeInput m
  | none => return ()

def edit : Editing Nat := do
  m.script.files.forM openOutput
  let status ← turns m true maxTurns
  leaveInput m
  return status

end Editing

def sedUsage (name : String) : String :=
  "Usage: " ++ name ++ " [OPTION]... \x7bscript-only-if-no-other-script\x7d [input-file]...\n\n" ++
  "  -n, --quiet, --silent\n" ++
  "                 suppress automatic printing of pattern space\n" ++
  "      --debug\n" ++
  "                 annotate program execution\n" ++
  "  -e script, --expression=script\n" ++
  "                 add the script to the commands to be executed\n" ++
  "  -f script-file, --file=script-file\n" ++
  "                 add the contents of script-file to the commands to be executed\n" ++
  "  --follow-symlinks\n" ++
  "                 follow symlinks when processing in place\n" ++
  "  -i[SUFFIX], --in-place[=SUFFIX]\n" ++
  "                 edit files in place (makes backup if SUFFIX supplied)\n" ++
  "  -l N, --line-length=N\n" ++
  "                 specify the desired line-wrap length for the \x60l' command\n" ++
  "  --posix\n" ++
  "                 disable all GNU extensions.\n" ++
  "  -E, -r, --regexp-extended\n" ++
  "                 use extended regular expressions in the script\n" ++
  "                 (for portability use POSIX -E).\n" ++
  "  -s, --separate\n" ++
  "                 consider files as separate rather than as a single,\n" ++
  "                 continuous long stream.\n" ++
  "      --sandbox\n" ++
  "                 operate in sandbox mode (disable e/r/w commands).\n" ++
  "  -u, --unbuffered\n" ++
  "                 load minimal amounts of data from the input files and flush\n" ++
  "                 the output buffers more often\n" ++
  "  -z, --null-data\n" ++
  "                 separate lines by NUL characters\n" ++
  "      --help     display this help and exit\n" ++
  "      --version  output version information and exit\n\n" ++
  "If no -e, --expression, -f, or --file option is given, then the first\n" ++
  "non-option argument is taken as the sed script to interpret.  All\n" ++
  "remaining arguments are names of input files; if no input files are\n" ++
  "specified, then the standard input is read.\n\n"

def sedOptions : Known :=
  .of "bsnrzuEe:f:l:i::" ("binary/b quiet/n silent/n expression=e file=f in-place?i " ++
    "line-length=l null-data/z zero-terminated/z posix/p regexp-extended/E separate/s sandbox/S " ++
    "unbuffered/u debug/d follow-symlinks/F help/h")

def scriptParts (given : List Given) : Work (List (ScriptSource × String)) := do
  let rec go (number : Nat) : List Given → Work (List (ScriptSource × String))
    | [] => return []
    | ⟨'e', some s⟩ :: rest => do return (.expression number, s) :: (← go (number + 1) rest)
    | ⟨'f', some p⟩ :: rest => do
      match ← contents p with
      | .error e =>
        complain ("couldn't open file " ++ p ++ ": " ++ words e)
        finish 4
      | .ok s => return (.file p, s) :: (← go number rest)
    | _ :: rest => go number rest
  go 1 given

def sed : Work Nat := do
  let o ← sedOptions.read
  if o.has 'h' then
    put (sedUsage (← get).name)
    return 0
  let parts ← scriptParts o.given
  let (parts, files) ← match parts, o.operands with
    | [], [] => pointToHelp
    | [], script :: files => pure ([(ScriptSource.expression 1, script)], files)
    | parts, files => pure (parts, files)
  let extended := o.has 'E' || o.has 'r'
  match EditScript.read extended (o.has 'S') parts with
  | .error (status, message) =>
    complain message
    finish status
  | .ok script =>
    let manner : EditManner := {
      script, quiet := script.quiet || o.has 'n', separate := o.has 's' || o.has 'i'
      inPlace := if o.has 'i' then some ((o.text? 'i').getD "") else none
      width := ((o.text? 'l').bind String.toNat?).getD 70
      stop := if o.has 'z' then '\x00' else '\n', unbuffered := o.has 'u'
      posix := o.has 'p' || (← setting? "POSIXLY_CORRECT").isSome }
    if manner.inPlace.isSome && files.isEmpty then
      complain "no input files"
      return 4
    let ranges := script.commands.map fun c =>
      match c.selection.first with
      | some (.line 0) => RangeState.inside none
      | _ => .outside
    let (status, _) ← (Editing.edit manner).run { ranges, files := orInput files }
    return status

def editors : List Program := [
  { name := "sed", usage := sedUsage, failure := "couldn't flush stdout", lossStatus := 4
    main := sed }]

end CompiledModels.Tool
