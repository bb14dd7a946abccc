import CompiledModels.Regex.Reader
import CompiledModels.Tool.Work

namespace CompiledModels.Tool

structure FlaggedRegex where
  regex : Regex
  folds : Bool
  hasLines : Bool

inductive Address
  | line (number : Nat)
  | step (first width : Nat)
  | last
  | matching (r : Option FlaggedRegex)

inductive RangeEnd
  | address (a : Address)
  | after (count : Nat)
  | multiple (n : Nat)

structure LineChoice where
  first : Option Address := none
  stop : Option RangeEnd := none
  negated : Bool := false

inductive LetterCase
  | upper
  | lower
  deriving DecidableEq

structure Piece where
  text : List Char
  group : Option Nat := none
  all : Option LetterCase := none
  first : Option LetterCase := none

structure Substitution where
  pattern : Option FlaggedRegex
  pieces : List Piece
  global : Bool := false
  start : Nat := 0
  printsBefore : Bool := false
  prints : Bool := false
  runs : Bool := false
  file : Option Nat := none

inductive Wording
  | append
  | insert
  | change
  deriving DecidableEq

inductive Jump
  | always
  | replaced
  | notReplaced

inductive Action
  | nothing
  | block (past : Nat)
  | text (w : Wording) (cs : List Char)
  | jump (condition : Jump) (target : Nat)
  | quit (status : Nat) (prints : Bool)
  | show (width : Option Nat)
  | readFile (p : String)
  | readLine (p : String)
  | write (file : Nat)
  | writeLine (file : Nat)
  | substitute (s : Substitution)
  | translate (pairs : List (Char × Char))
  | run (command : String)
  | delete
  | deleteLine
  | print
  | printLine
  | next
  | join
  | recall
  | recallMore
  | keep
  | keepMore
  | exchange
  | number
  | clear
  | fileName

structure EditCommand where
  selection : LineChoice
  action : Action

/-- A script that was read: its commands, the files that are written, and whether lines are only
printed when a command says so. -/
structure EditScript where
  commands : Array EditCommand
  files : List String
  quiet : Bool
  place : String

inductive ScriptSource
  | expression (number : Nat)
  | file (name : String)

structure ScriptReading where
  extended : Bool
  sandboxed : Bool
  source : ScriptSource := .expression 0
  rest : List Char := []
  used : Nat := 0
  line : Nat := 1
  commands : Array EditCommand := #[]
  blocks : List (Nat × String) := []
  labels : List (String × Nat) := []
  jumps : List (Nat × String) := []
  files : List String := []
  pending : Option (List Char) := none
  quiet : Bool := false

namespace ScriptReading

def place (r : ScriptReading) (known : Bool) : String :=
  match r.source with
  | .expression n =>
    "-e expression #" ++ toString n ++ ", char " ++ toString (if known then r.used else 0)
  | .file name => "file " ++ name ++ " line " ++ toString r.line

end ScriptReading

def escapedChar? (c : Char) : Option Char :=
  match c with
  | 'a' => some '\x07'
  | 'f' => some '\x0c'
  | 'n' => some '\n'
  | 'r' => some '\x0d'
  | 't' => some '\t'
  | 'v' => some '\x0b'
  | _ => none

def numberedChar? (letter : Char) (cs : List Char) : Option (Nat × Char) :=
  let read (base most : Nat) : Option (Nat × Char) :=
    let digits := (cs.take most).takeWhile fun c => (Text.hexValue? c).any (· < base)
    if digits.isEmpty then none
    else
      let n := digits.foldl (fun n c => n * base + (Text.hexValue? c).getD 0) 0
      some (digits.length, Char.ofNat (n % 256))
  match letter with
  | 'd' => read 10 3
  | 'o' => read 8 3
  | 'x' => read 16 2
  | _ => none

def decodeEscapes (kept : String) : Nat → List Char → List Char
  | 0, cs => cs
  | fuel + 1, '\\' :: c :: rest =>
    let plain (d : Char) : List Char := if kept.contains d then ['\\', d] else [d]
    match escapedChar? c with
    | some d => d :: decodeEscapes kept fuel rest
    | none =>
      match numberedChar? c rest with
      | some (count, d) => plain d ++ decodeEscapes kept fuel (rest.drop count)
      | none =>
        match c, rest with
        | 'c', d :: rest =>
          plain (Char.ofNat (d.toUpper.toNat ^^^ 0x40)) ++ decodeEscapes kept fuel rest
        | _, _ => '\\' :: c :: decodeEscapes kept fuel rest
  | fuel + 1, c :: rest => c :: decodeEscapes kept fuel rest
  | _, [] => []

def dropBackslashes : List Char → List Char
  | '\\' :: c :: rest => c :: dropBackslashes rest
  | c :: rest => c :: dropBackslashes rest
  | [] => []

def bracketText : Nat → List Char → Option (List Char × List Char)
  | 0, _ => none
  | fuel + 1, cs =>
    match cs with
    | ']' :: rest => some ([']'], rest)
    | '[' :: m :: rest =>
      if ":.=".contains m then
        let rec close : List Char → List Char → Option (List Char × List Char)
          | before, a :: b :: rest =>
            if a == m && b == ']' then some (before.reverse ++ [a, b], rest)
            else if a == '\n' then none
            else close (a :: before) (b :: rest)
          | _, _ => none
        match close [] rest with
        | none => none
        | some (inner, rest) =>
          (bracketText fuel rest).map fun (text, rest) => ('[' :: m :: inner ++ text, rest)
      else (bracketText fuel (m :: rest)).map fun (text, rest) => ('[' :: text, rest)
    | '\n' :: _ => none
    | c :: rest => (bracketText fuel rest).map fun (text, rest) => (c :: text, rest)
    | [] => none

def bracketFront : List Char → List Char
  | '^' :: ']' :: _ => ['^', ']']
  | '^' :: _ => ['^']
  | ']' :: _ => [']']
  | _ => []

abbrev Scripting := StateT ScriptReading (Except (Nat × String))

namespace Scripting

def fail {α : Type} (message : String) : Scripting α := do
  throw (1, (← get).place true ++ ": " ++ message)

def take? : Scripting (Option Char) := do
  let r ← get
  match r.rest with
  | [] => return none
  | c :: rest =>
    set { r with rest, used := r.used + 1, line := if c == '\n' then r.line + 1 else r.line }
    return some c

def giveBack (c : Option Char) : Scripting Unit :=
  match c with
  | none => return ()
  | some c => modify fun r =>
    { r with rest := c :: r.rest, used := r.used - 1, line := if c == '\n' then r.line - 1 else r.line }

def drop (count : Nat) : Scripting Unit :=
  modify fun r => { r with
    rest := r.rest.drop count, used := r.used + min count r.rest.length
    line := r.line + ((r.rest.take count).filter (· == '\n')).length }

def takeVisible? : Scripting (Option Char) := do
  drop ((← get).rest.takeWhile fun c => c == ' ' || c == '\t').length
  take?

def number : Scripting Nat := do
  let digits := (← get).rest.takeWhile Char.isDigit
  drop digits.length
  return (String.ofList digits).toNat?.getD 0

def numberBehindBlanks : Scripting Nat := do
  let c ← takeVisible?
  giveBack c
  number

def commandEnd : Scripting Unit := do
  match ← takeVisible? with
  | some '\x7d' => giveBack (some '\x7d')
  | some '#' => giveBack (some '#')
  | some c => if c != '\n' && c != ';' then fail "extra characters after command"
  | none => return ()

def delimited? (mark : Char) (isPattern : Bool) : Scripting (Option (List Char)) := do
  let rec go : Nat → List Char → Scripting (Option (List Char))
    | 0, _ => return none
    | fuel + 1, text => do
      match ← take? with
      | none => return none
      | some '\\' =>
        if mark == '\\' then return some text.reverse
        match ← take? with
        | none => return none
        | some c =>
          if c == mark && (isPattern || c != '&') then go fuel (c :: text)
          else if c == '\n' then go fuel (c :: text)
          else go fuel (c :: '\\' :: text)
      | some c =>
        if c == mark then return some text.reverse
        else if c == '\n' then
          giveBack (some c)
          return none
        else if c == '[' && isPattern then
          let rest := (← get).rest
          let front := bracketFront rest
          match bracketText (rest.length + 1) (rest.drop front.length) with
          | none =>
            drop (rest.takeWhile (· != '\n')).length
            return none
          | some (inner, after) =>
            drop (rest.length - after.length)
            go fuel (inner.reverse ++ front.reverse ++ '[' :: text)
        else go fuel (c :: text)
  go ((← get).rest.length + 1) []

def compile (cs : List Char) (folds hasLines : Bool) : Scripting (Option FlaggedRegex) := do
  if cs.isEmpty then
    if folds || hasLines then fail "cannot specify modifiers on empty regexp"
    return none
  match Regex.read ⟨(← get).extended, false⟩ (decodeEscapes "\\" cs.length cs) with
  | .error message => fail message
  | .ok (regex, _) => return some ⟨regex, folds, hasLines⟩

def address? (c : Option Char) : Scripting (Option Address) := do
  let pattern (mark : Char) : Scripting (Option Address) := do
    match ← delimited? mark true with
    | none => fail "unterminated address regex"
    | some cs =>
      let rec flags (folds hasLines : Bool) : Nat → Scripting (Bool × Bool)
        | 0 => return (folds, hasLines)
        | fuel + 1 => do
          match ← takeVisible? with
          | some 'I' => flags true hasLines fuel
          | some 'M' => flags folds true fuel
          | c =>
            giveBack c
            return (folds, hasLines)
      let (folds, hasLines) ← flags false false ((← get).rest.length + 1)
      return some (.matching (← compile cs folds hasLines))
  match c with
  | some '/' => pattern '/'
  | some '\\' =>
    match ← take? with
    | none => fail "unterminated address regex"
    | some mark => pattern mark
  | some '$' => return some .last
  | some c =>
    if c.isDigit then
      giveBack (some c)
      let n ← number
      match ← takeVisible? with
      | some '~' =>
        let width ← numberBehindBlanks
        return some (if width = 0 then .line n else .step n width)
      | c =>
        giveBack c
        return some (.line n)
    else return none
  | none => return none

def rangeEnd : Scripting RangeEnd := do
  match ← takeVisible? with
  | some '+' => return .after (← numberBehindBlanks)
  | some '~' => return .multiple (← numberBehindBlanks)
  | c =>
    match ← address? c with
    | some a => return .address a
    | none => fail "unexpected \x60,'"

def selection (c : Char) : Scripting (LineChoice × Option Char) := do
  if c == '+' || c == '~' then
    let _ ← numberBehindBlanks
    fail "invalid usage of +N or ~N as first address"
  let (s, c) ← do
    match ← address? (some c) with
    | none => pure (({} : LineChoice), some c)
    | some first =>
      let c ← takeVisible?
      let (stop, c) ← if c == some ',' then do
          let stop ← rangeEnd
          let c ← takeVisible?
          pure (some stop, c)
        else pure (none, c)
      match first, stop with
      | .line 0, some (.address (.matching _)) => pure ()
      | .line 0, _ => fail "invalid usage of line address 0"
      | _, _ => pure ()
      pure (({ first := some first, stop } : LineChoice), c)
  if c == some '!' then
    let c ← takeVisible?
    if c == some '!' then fail "multiple \x60!'s"
    return ({ s with negated := true }, c)
  else return (s, c)

def label : Scripting String := do
  let c ← takeVisible?
  giveBack c
  let name := (← get).rest.takeWhile fun c =>
    !(c == ' ' || ('\t' ≤ c && c ≤ '\x0d') || c == ';' || c == '\x7d')
  drop name.length
  return String.ofList name

def fileName : Scripting String := do
  let c ← takeVisible?
  giveBack c
  let name := (← get).rest.takeWhile (· != '\n')
  drop name.length
  if name.isEmpty then
    let _ ← take?
    fail "missing filename in r/R/w/W commands"
  let _ ← take?
  return String.ofList name

def outputFile : Scripting Nat := do
  let name ← fileName
  let files := (← get).files
  match files.findIdx? (· = name) with
  | some n => return n
  | none =>
    modify fun r => { r with files := files ++ [name] }
    return files.length

def forbidInSandbox : Scripting Unit := do
  if (← get).sandboxed then fail "e/r/w commands disabled in sandbox mode"

def textFrom (start : List Char) : Scripting (Option (List Char)) := do
  let rec go : Nat → List Char → Scripting (Option (List Char))
    | 0, text => return some text
    | fuel + 1, text => do
      match ← take? with
      | none => return some ('\n' :: text)
      | some '\n' => return some ('\n' :: text)
      | some '\\' =>
        match ← take? with
        | none =>
          modify fun r => { r with pending := some ('\n' :: text) }
          return none
        | some c => go fuel (c :: '\\' :: text)
      | some c => go fuel (c :: text)
  let text ← go ((← get).rest.length + 1) start
  return text.map fun text => dropBackslashes (decodeEscapes "\\" text.length text.reverse)

def text : Scripting (List Char) := do
  match ← takeVisible? with
  | none => fail "expected \\ after \x60a', \x60c' or \x60i'"
  | some '\\' =>
    let rest := (← get).rest
    if rest.isEmpty then
      modify fun r => { r with pending := some [] }
      return []
    let blanks := rest.takeWhile fun c => c == ' ' || c == '\t'
    if rest[blanks.length]? == some '\n' then drop (blanks.length + 1)
    return (← textFrom []).getD []
  | c =>
    giveBack c
    return (← textFrom []).getD []

def pieces : List Char → List Piece :=
  let rec go (before : List Char) (all first saved : Option LetterCase) : List Char → List Piece
    | [] => if before.isEmpty then [] else [{ text := before.reverse, all, first }]
    | '\\' :: c :: rest =>
      let piece : Piece := { text := before.reverse, all, first }
      -- A change of the first letter holds for one piece, another one from here on.
      if c.isDigit then
        { piece with group := some (c.toNat - 0x30) } :: go [] saved none saved rest
      else match c with
        | 'L' => piece :: go [] (some .lower) none (some .lower) rest
        | 'U' => piece :: go [] (some .upper) none (some .upper) rest
        | 'E' => piece :: go [] none none none rest
        | 'l' => piece :: go [] saved (some .lower) saved rest
        | 'u' => piece :: go [] saved (some .upper) saved rest
        | _ => { piece with text := piece.text ++ [c] } :: go [] saved none saved rest
    | '&' :: rest =>
      { text := before.reverse, all, first, group := some 0 } :: go [] saved none saved rest
    | c :: rest => go (c :: before) all first saved rest
  go [] none none none

def flags (s : Substitution) (folds hasLines : Bool) :
    Nat → Scripting (Substitution × Bool × Bool)
  | 0 => return (s, folds, hasLines)
  | fuel + 1 => do
    match ← take? with
    | none => return (s, folds, hasLines)
    | some c =>
      match c with
      | 'i' => flags s true hasLines fuel
      | 'I' => flags s true hasLines fuel
      | 'm' => flags s folds true fuel
      | 'M' => flags s folds true fuel
      | 'e' =>
        forbidInSandbox
        flags { s with runs := true } folds hasLines fuel
      | 'p' =>
        if s.prints || s.printsBefore then fail "multiple \x60p' options to \x60s' command"
        flags (if s.runs then { s with prints := true } else { s with printsBefore := true })
          folds hasLines fuel
      | 'g' =>
        if s.global then fail "multiple \x60g' options to \x60s' command"
        flags { s with global := true } folds hasLines fuel
      | 'w' =>
        forbidInSandbox
        return ({ s with file := some (← outputFile) }, folds, hasLines)
      | ' ' => flags s folds hasLines fuel
      | '\x7d' =>
        giveBack (some c)
        return (s, folds, hasLines)
      | '#' =>
        giveBack (some c)
        return (s, folds, hasLines)
      | '\n' => return (s, folds, hasLines)
      | ';' => return (s, folds, hasLines)
      | _ =>
        if c.isDigit then
          if s.start != 0 then fail "multiple number options to \x60s' command"
          giveBack (some c)
          let n ← number
          if n = 0 then fail "number option to \x60s' command may not be zero"
          flags { s with start := n } folds hasLines fuel
        else fail "unknown option to \x60s'"

def substitution : Scripting Action := do
  let unterminated := "unterminated \x60s' command"
  match ← take? with
  | none => fail unterminated
  | some mark =>
    match ← delimited? mark true with
    | none => fail unterminated
    | some pattern =>
      match ← delimited? mark false with
      | none => fail unterminated
      | some replacement =>
        let pieces := pieces (decodeEscapes "&\\" replacement.length replacement)
        let (s, folds, hasLines) ←
          flags { pattern := none, pieces } false false ((← get).rest.length + 1)
        let pattern ← compile pattern folds hasLines
        let most := (pieces.filterMap (·.group)).foldl max 0
        if pattern.any (·.regex.groupCount < most) then
          fail ("invalid reference \\" ++ toString most ++ " on \x60s' command's RHS")
        return .substitute { s with pattern }

def translated : List Char → List Char
  | '\\' :: c :: rest => (if c == 'n' then '\n' else c) :: translated rest
  | c :: rest => c :: translated rest
  | [] => []

def translation : Scripting Action := do
  let unterminated := "unterminated \x60y' command"
  match ← take? with
  | none => fail unterminated
  | some mark =>
    match ← delimited? mark false with
    | none => fail unterminated
    | some a =>
      match ← delimited? mark false with
      | none => fail unterminated
      | some b =>
        let a := translated (decodeEscapes "\\" a.length a)
        let b := translated (decodeEscapes "\\" b.length b)
        if a.length != b.length then fail "strings for \x60y' command are different lengths"
        commandEnd
        return .translate (a.zip b)

def argument : Scripting (Option Nat) := do
  let c ← takeVisible?
  giveBack c
  let n ← if c.any Char.isDigit then some <$> number else pure none
  commandEnd
  return n

def plain? (c : Char) : Option Action :=
  match c with
  | '=' => some .number
  | 'd' => some .delete
  | 'D' => some .deleteLine
  | 'F' => some .fileName
  | 'g' => some .recall
  | 'G' => some .recallMore
  | 'h' => some .keep
  | 'H' => some .keepMore
  | 'n' => some .next
  | 'N' => some .join
  | 'p' => some .print
  | 'P' => some .printLine
  | 'z' => some .clear
  | 'x' => some .exchange
  | _ => none

def newestVersion : Nat := 409

def versionOf (s : String) : Nat :=
  let parts := (s.splitOn ".").map fun t => t.toNat?.getD 0
  parts.getD 0 0 * 100 + parts.getD 1 0

def action (s : LineChoice) (index : Nat) (c : Char) : Scripting Action := do
  match plain? c with
  | some a =>
    commandEnd
    return a
  | none =>
  let jumpTo (j : Jump) : Scripting Action := do
    let name ← label
    modify fun r => { r with jumps := (index, name) :: r.jumps }
    return .jump j 0
  match c with
  | '\x7b' =>
    modify fun r => { r with blocks := (index, r.place false) :: r.blocks }
    return .block 0
  | '\x7d' =>
    match (← get).blocks with
    | [] => fail "unexpected \x60\x7d'"
    | (start, _) :: blocks =>
      if s.first.isSome then fail "\x7d doesn't want any addresses"
      commandEnd
      modify fun r => { r with
        blocks, commands := r.commands.modify start fun c =>
          { c with action := .block (index + 1) } }
      return .nothing
  | 'a' => return .text .append (← text)
  | 'i' => return .text .insert (← text)
  | 'c' => return .text .change (← text)
  | ':' =>
    if s.first.isSome then fail ": doesn't want any addresses"
    let name ← label
    if name.isEmpty then fail "\":\" lacks a label"
    modify fun r => { r with labels := r.labels ++ [(name, index)] }
    return .nothing
  | 'b' => jumpTo .always
  | 't' => jumpTo .replaced
  | 'T' => jumpTo .notReplaced
  | 'q' =>
    if s.stop.isSome then fail "command only uses one address"
    return .quit ((← argument).getD 0) true
  | 'Q' =>
    if s.stop.isSome then fail "command only uses one address"
    return .quit ((← argument).getD 0) false
  | 'l' => return .show (← argument)
  | 'L' =>
    let _ ← argument
    return .nothing
  | 'r' =>
    forbidInSandbox
    return .readFile (← fileName)
  | 'R' =>
    forbidInSandbox
    return .readLine (← fileName)
  | 'w' =>
    forbidInSandbox
    return .write (← outputFile)
  | 'W' =>
    forbidInSandbox
    return .writeLine (← outputFile)
  | 'e' =>
    forbidInSandbox
    let c ← takeVisible?
    giveBack c
    let command := (← get).rest.takeWhile (· != '\n')
    drop (command.length + 1)
    return .run (String.ofList command)
  | 's' => substitution
  | 'y' => translation
  | 'v' =>
    let version ← label
    if newestVersion < versionOf version then fail "expected newer version of sed"
    return .nothing
  | c => fail ("unknown command: \x60" ++ c.toString ++ "'")

def comment : Scripting Unit := do
  let r ← get
  let isFirst := r.used = 1 && r.commands.isEmpty && match r.source with
    | .expression n => n = 1
    | .file _ => true
  let cs := r.rest.takeWhile (· != '\n')
  if isFirst && cs == ['n'] then modify fun r => { r with quiet := true }
  drop (cs.length + 1)

def commands : Nat → Scripting Unit
  | 0 => return ()
  | fuel + 1 => do
    let skipped := (← get).rest.takeWhile fun c =>
      c == ';' || c == ' ' || ('\t' ≤ c && c ≤ '\x0d')
    drop skipped.length
    match ← take? with
    | none => return ()
    | some c =>
      let (s, c) ← selection c
      match c with
      | none => fail "missing command"
      | some '#' =>
        if s.first.isSome then fail "comments don't accept any addresses"
        comment
        commands fuel
      | some c =>
        let index := (← get).commands.size
        -- Its place is taken before what stands behind it is read.
        modify fun r => { r with commands := r.commands.push ⟨s, .nothing⟩ }
        let a ← action s index c
        modify fun r => { r with
          commands := r.commands.modify index fun _ => ⟨s, a⟩ }
        commands fuel

def setLastText (cs : List Char) : Scripting Unit :=
  modify fun r => { r with
    pending := none
    commands := r.commands.modify (r.commands.size - 1) fun c =>
      match c.action with
      | .text w _ => { c with action := .text w cs }
      | _ => c }

def part (source : ScriptSource) (cs : List Char) : Scripting Unit := do
  modify fun r => { r with source, rest := cs, used := 0, line := 1 }
  match (← get).pending with
  | some start =>
    modify fun r => { r with pending := none }
    match ← textFrom start with
    | some text => setLastText text
    | none => pure ()
  | none => pure ()
  commands (cs.length + 1)

def complete : Scripting EditScript := do
  match (← get).pending with
  | some text => setLastText text.reverse
  | none => pure ()
  let r ← get
  match r.blocks with
  | (_, place) :: _ => throw (1, place ++ ": unmatched \x60\x7b'")
  | [] => pure ()
  let targetOf (name : String) : Except (Nat × String) Nat :=
    if name.isEmpty then .ok r.commands.size
    else match r.labels.find? (·.1 = name) with
      | some (_, n) => .ok n
      | none => .error (4, "can't find label for jump to \x60" ++ name ++ "'")
  let commands ← r.jumps.reverse.foldlM (fun (cs : Array EditCommand) (i, name) => do
    let target ← targetOf name
    return cs.modify i fun c =>
      match c.action with
      | .jump j _ => { c with action := .jump j target }
      | _ => c) r.commands
  return { commands, files := r.files, quiet := r.quiet, place := r.place false }

end Scripting

def EditScript.read (extended sandboxed : Bool) (parts : List (ScriptSource × String)) :
    Except (Nat × String) EditScript := do
  let whole : Scripting EditScript := do
    parts.forM fun (source, s) => Scripting.part source s.toList
    Scripting.complete
  return (← whole.run { extended, sandboxed }).1

end CompiledModels.Tool
