import CompiledModels.Regex.Reader
import CompiledModels.Shell.Pattern
import CompiledModels.Tool.Directory

namespace CompiledModels.Tool

open Kernel (Run Facts)
open Work

inductive Fit
  | anywhere
  | words
  | lines
  deriving DecidableEq

structure Query where
  patterns : List Regex
  folds : Bool
  inverts : Bool
  fit : Fit

namespace Query

variable (q : Query)

def subject (text : Array Char) (r : Regex) : Regex.Subject :=
  { text, folds := q.folds, exact := r.hasAgain }

def wordAt? (s : Regex.Subject) (r : Regex) (place : Nat) : Option Nat :=
  if place != 0 && s.wordAt (place - 1) then none
  else
    let stops := (s.ways r ⟨place, []⟩).map (·.place)
    let longest := stops.foldl max place
    (stops.filter fun n => !s.wordAt n && (n != place || longest = place)).max?

def wordFrom? (s : Regex.Subject) (r : Regex) (place : Nat) : Nat → Option (Nat × Nat)
  | 0 => (wordAt? s r place).map fun n => (place, n)
  | count + 1 =>
    match wordAt? s r place with
    | some n => some (place, n)
    | none => wordFrom? s r (place + 1) count

def matchOf? (text : Array Char) (place : Nat) (r : Regex) : Option (Nat × Nat) :=
  let s := q.subject text r
  match q.fit with
  | .anywhere => (r.find? s place).map fun f => (f.start, f.stop)
  | .words => wordFrom? s r place (text.size - place)
  | .lines =>
    if place = 0 && (s.ways r ⟨0, []⟩).any (·.place = text.size) then some (0, text.size) else none

def match? (text : Array Char) (place : Nat) : Option (Nat × Nat) :=
  (q.patterns.filterMap (q.matchOf? text place)).foldl (fun best m =>
    match best with
    | none => some m
    | some b => if m.1 < b.1 || (m.1 = b.1 && b.2 < m.2) then some m else some b) none

def selects (text : Array Char) : Bool :=
  (q.patterns.any fun r => (q.matchOf? text 0 r).isSome) != q.inverts

def pieces (text : Array Char) : Nat → Nat → List (Nat × Nat)
  | 0, _ => []
  | fuel + 1, place =>
    if text.size < place then []
    else match q.match? text place with
      | none => []
      | some (a, b) => if a = b then pieces text fuel (a + 1) else (a, b) :: pieces text fuel b

end Query

inductive Opaqueness
  | reported
  | text
  | skipped
  deriving DecidableEq

structure Showing where
  names : Bool := false
  numbers : Bool := false
  places : Bool := false
  counts : Bool := false
  only : Bool := false
  quiet : Bool := false
  lists : Option Bool := none
  before : Option Nat := none
  after : Option Nat := none
  most : Option Nat := none
  gap : Option String := some "--"
  stop : Char := '\n'
  nullNames : Bool := false
  aligned : Bool := false
  label : String := "(standard input)"
  opaqueness : Opaqueness := .reported
  silent : Bool := false

namespace Showing

variable (v : Showing)

def hidesLines : Bool := v.counts || v.quiet || v.lists.isSome

def hasContext : Bool := v.before.isSome || v.after.isSome

end Showing

structure PlacedLine where
  text : List Char
  number : Nat
  place : Nat

structure Searching where
  name : String
  width : Nat := 0
  number : Nat := 0
  place : Nat := 0
  found : Nat := 0
  pending : Nat := 0
  skipped : List PlacedLine := []
  lastShown : Option Nat := none
  isOpaque : Bool := false
  used : Bool := false
  satisfied : Bool := false

namespace Searching

variable (q : Query) (v : Showing)

def front (s : Searching) (mark : String) (number place : Nat) : String :=
  let name := if v.names then s.name ++ (if v.nullNames then "\x00" else mark) else ""
  let count (shown : Bool) (n : Nat) : String :=
    if shown then Text.alignRight s.width (toString n) ++ mark else ""
  name ++ count v.numbers number ++ count v.places place ++
    (if v.aligned && (v.names || v.numbers || v.places) then "\t" else "")

def present (s : Searching) (mark : String) (l : PlacedLine) : Work Unit := do
  if v.only then
    if q.inverts || mark != ":" then return ()
    let text := l.text.toArray
    (q.pieces text (text.size + 1) 0).forM fun (a, b) =>
      put (front v s mark l.number (l.place + a) ++
        String.ofList ((l.text.drop a).take (b - a)) ++ v.stop.toString)
  else put (front v s mark l.number l.place ++ String.ofList l.text ++ v.stop.toString)

def presentFound (s : Searching) (l : PlacedLine) : Work Searching := do
  if v.hidesLines || s.isOpaque then return { s with used := true }
  let leads := s.skipped.reverse
  let first := (leads.head?.getD l).number
  if v.hasContext && s.used && s.lastShown != some (first - 1) then
    match v.gap with
    | some g => putLine g
    | none => pure ()
  leads.forM (present q v s "-")
  present q v s ":" l
  return { s with
    skipped := [], lastShown := some l.number, used := true, pending := v.after.getD 0 }

def isDone (s : Searching) : Bool :=
  (s.satisfied && s.pending = 0) ||
    (0 < s.found && !v.counts && (v.quiet || v.lists.isSome || s.isOpaque))

def next (s : Searching) (text : List Char) : Work Searching := do
  let l : PlacedLine := ⟨text, s.number + 1, s.place⟩
  let s := { s with number := s.number + 1, place := s.place + text.length + 1 }
  if !s.satisfied && q.selects text.toArray then
    let s ← presentFound q v s l
    let found := s.found + 1
    return { s with found, satisfied := v.most = some found }
  else if 0 < s.pending then
    present q v s "-" l
    return { s with pending := s.pending - 1, lastShown := some l.number }
  else
    return { s with skipped := (l :: s.skipped).take (v.before.getD 0) }

def forLines (s : Searching) : List Line → Work (Searching × List Line)
  | [] => return (s, [])
  | l :: rest => do
    let s ← next q v s l.text
    if isDone v s then return (s, rest) else forLines s rest

def read (d : Nat) (s : Searching) (start : List Char) :
    Nat → Work (Option FileError × Searching)
  | 0 => hang
  | turns + 1 => do
    match ← Run.read d Run.blockSize with
    | .error e => return (some e, s)
    | .ok [] =>
      if start.isEmpty then return (none, s) else return (none, ← next q v s start)
    | .ok bytes =>
      let cs := (Text.octets bytes).toList
      let isOpaque := s.isOpaque ||
        (v.opaqueness != .text && v.stop == '\n' && cs.contains '\x00')
      if isOpaque && v.opaqueness = .skipped then return (none, { s with found := 0 })
      let s := { s with isOpaque }
      let cs := if isOpaque then cs.map fun c => if c == '\x00' then '\n' else c else cs
      let lines := linesOf v.stop (start ++ cs)
      let last := (lines.getLast?.filter (!·.ended)).map (·.text)
      let (s, rest) ← forLines q v s (lines.filter (·.ended))
      if isDone v s then
        if d = 0 && s.satisfied then
          let left := (rest.foldl (fun n l => n + l.text.length + 1) 0) + (last.getD []).length
          Run.change fun process k =>
            match k.position? process d with
            | some n => ((k.seek process d (n - left)).toOption).getD k
            | none => k
        return (none, s)
      else read d s (last.getD []) turns

end Searching

structure Filters where
  included : List String
  excluded : List String
  excludedDirectories : List String

namespace Filters

def tails : List Char → List (List Char)
  | [] => []
  | c :: rest => if c == '/' then rest :: tails rest else tails rest

def covers (pattern path : String) : Bool :=
  (path.toList :: tails path.toList).any (Shell.wordMatches (Shell.patternOf pattern.toList))

def rejects (f : Filters) (path : String) : Bool :=
  f.excluded.any (covers · path) ||
    (!f.included.isEmpty && !f.included.any (covers · path))

def rejectsDirectory (f : Filters) (path : String) : Bool :=
  f.excludedDirectories.any (covers · path)

end Filters

inductive Descent
  | refused
  | skipped
  | taken (follow : Bool)
  deriving DecidableEq

def Descent.isTaken : Descent → Bool
  | .taken _ => true
  | _ => false

structure LineSearch where
  query : Query
  showing : Showing
  filters : Filters
  descent : Descent

structure Result where
  found : Bool := false
  failed : Bool := false
  used : Bool := false
  names : Bool := false

namespace LineSearch

variable (x : LineSearch)

def complainOf (r : Result) (p : String) (e : FileError) : Work Result := do
  if !x.showing.silent then complain (p ++ ": " ++ words e)
  return { r with failed := true }

def isOutput (d : Nat) : Work Bool :=
  Run.look fun process k =>
    match k.opened? process d, k.opened? process 1 with
    | some (_, a), some (_, b) =>
      match a.target with
      | .file _ => a.target = b.target
      | _ => false
    | _, _ => false

def open_ (r : Result) (name : String) (size : Option Nat) (d : Nat) : Work Result := do
  let v := { x.showing with names := r.names }
  if !v.quiet && v.lists.isNone && v.most != some 1 && (← isOutput d) then
    complain (name ++ ": input file is also the output")
    return { r with failed := true }
  let width := if !v.aligned then 0
    else (toString (size.elim (2 ^ 64 - 1) fun n => if v.numbers then n + 1 else n)).length
  let (failure, s) ← Searching.read x.query v d { name, width, used := r.used } [] maxTurns
  let r := { r with used := s.used, found := r.found || 0 < s.found }
  match failure with
  | some e => complainOf x r name e
  | none =>
    if v.quiet && 0 < s.found then finish 0
    let stop := if v.nullNames then "\x00" else "\n"
    if v.counts && v.lists.isNone && !v.quiet then
      let shown := if v.names then name ++ (if v.nullNames then "\x00" else ":") else ""
      putLine (shown ++ toString s.found)
    if v.lists == some (decide (0 < s.found)) then put (name ++ stop)
    if s.isOpaque && 0 < s.found && !v.hidesLines then complain (name ++ ": binary file matches")
    return r

def path (top : Bool) (r : Result) (p shown : String) : Nat → Work Result
  | 0 => return r
  | depth + 1 => do
    let follow := top || x.descent = .taken true
    match ← Run.facts follow p with
    | .error e => complainOf x r shown e
    | .ok f =>
      if f.isDirectory && x.descent != .refused then
        match x.descent with
        | .taken _ =>
          if x.filters.rejectsDirectory shown && !(top && shown == ".") then return r
          match ← Run.look fun process k => k.list process p with
          | .error e => complainOf x r shown e
          | .ok names =>
            let start := if shown.isEmpty || shown.endsWith "/" then shown else shown ++ "/"
            let base := if p.endsWith "/" then p else p ++ "/"
            names.foldlM (fun r name => path false r (base ++ name) (start ++ name) depth)
              { r with names := r.names || (top && x.showing.names) }
        | _ => return r
      else if !top && !f.isFile then return r
      else if x.filters.rejects shown then return r
      else
        match ← Run.openFile p .reading with
        | .error e => complainOf x r shown e
        | .ok d =>
          let r ← open_ x r shown (if f.isFile then some f.size else none) d
          closeInput d
          return r

end LineSearch

def grepOptions : Known :=
  .of "0123456789A:B:C:D:EFGHILPTUVXabcd:e:f:hiLlm:noqRrsuvwxyZz" ("basic-regexp/G " ++
    "extended-regexp/E fixed-regexp/F fixed-strings/F perl-regexp/P after-context=A " ++
    "before-context=B context=C byte-offset/b count/c devices=D directories=d file=f " ++
    "files-with-matches/l files-without-match/L ignore-case/i no-ignore-case/j initial-tab/T " ++
    "line-number/n line-regexp/x max-count=m no-filename/h with-filename/H no-messages/s null/Z " ++
    "null-data/z only-matching/o quiet/q silent/q recursive/r dereference-recursive/R regexp=e " ++
    "text/a binary/U invert-match/v word-regexp/w include=M exclude=N exclude-from=O " ++
    "exclude-dir=Q label=W line-buffered/u group-separator=S no-group-separator/K " ++
    "binary-files=k color?p colour?p")

def contextLength (s : String) : Work Nat := do
  match s.toNat? with
  | some n => return n
  | none => refuse (s ++ ": invalid context length argument")

namespace LineSearch

def patternTexts (o : Options) : Work (List String × List String) := do
  let rec files : List String → Work (List String)
    | [] => return []
    | p :: rest => do
      match ← contents p with
      | .error e => refuse (p ++ ": " ++ words e)
      | .ok s =>
        let lines := (linesOf '\n' s.toList).map fun l => String.ofList l.text
        return lines ++ (← files rest)
  if o.has 'e' || o.has 'f' then
    let given := (o.texts 'e').flatMap fun s => (s.splitOn "\n")
    return (given ++ (← files (o.texts 'f')), o.operands)
  else
    match o.operands with
    | s :: operands => return (s.splitOn "\n", operands)
    | [] => pointToHelp

def readPatterns (form : Char) (texts : List String) : Work (List Regex) := do
  let rec go : List String → Work (List Regex)
    | [] => return []
    | s :: rest => do
      if form == 'F' then return Regex.literal s.toList :: (← go rest)
      else
        let s := if form == 'P' then (s.replace "\\d" "[0-9]").replace "\\D" "[^0-9]" else s
        match Regex.read ⟨form != 'G', true⟩ s.toList with
        | .error message => refuse message
        | .ok (r, omitted) =>
          omitted.forM fun sign => complain ("warning: " ++ sign ++ " at start of expression")
          return r :: (← go rest)
  go texts

def descentOf (o : Options) : Work Descent := do
  match o.last? "rRd" with
  | some 'r' => return .taken false
  | some 'R' => return .taken true
  | some 'd' =>
    match o.text? 'd' with
    | some "read" => return .refused
    | some "recurse" => return .taken false
    | some "skip" => return .skipped
    | s =>
      complain ("invalid argument '" ++ s.getD "" ++ "' for '--directories'")
      tell "Valid arguments are:\n  - 'read'\n  - 'recurse'\n  - 'skip'\n"
      pointToHelp
  | _ => return .refused

def opaquenessOf (o : Options) : Work Opaqueness := do
  match o.last? "aIUk" with
  | some 'a' => return .text
  | some 'I' => return .skipped
  | some 'k' =>
    match o.text? 'k' with
    | some "binary" => return .reported
    | some "text" => return .text
    | some "without-match" => return .skipped
    | _ => refuse "unknown binary-files type"
  | _ => return .reported

def contextOf (o : Options) (c : Char) : Work (Option Nat) := do
  let digits := (o.given.filter (·.letter.isDigit)).map (·.letter)
  let default ← match o.text? 'C' with
    | some s => some <$> contextLength s
    | none => pure (String.ofList digits).toNat?
  match o.text? c with
  | some s => return some (← contextLength s)
  | none => return default

def mostOf (o : Options) : Work (Option Nat) := do
  match o.text? 'm' with
  | none => return none
  | some s =>
    match s.toInt? with
    | some n => return if n < 0 then none else some n.toNat
    | none => refuse "invalid max count"

def showingOf (o : Options) (several : Bool) : Work Showing := do
  let only := o.has 'o'
  let before ← contextOf o 'B'
  let after ← contextOf o 'A'
  return {
    names := match o.last? "hH" with
      | some c => c == 'H'
      | none => several
    numbers := o.has 'n', places := o.has 'b', counts := o.has 'c', only, quiet := o.has 'q'
    lists := (o.last? "lL").map (· == 'l')
    before := if only then before.map fun _ => 0 else before
    after := if only then after.map fun _ => 0 else after
    most := ← mostOf o
    gap := match o.last? "SK" with
      | some 'K' => none
      | some _ => o.text? 'S'
      | none => some "--"
    stop := if o.has 'z' then '\x00' else '\n', nullNames := o.has 'Z', aligned := o.has 'T'
    label := (o.text? 'W').getD "(standard input)"
    opaqueness := ← opaquenessOf o, silent := o.has 's' }

def run (x : LineSearch) (several : Bool) (operands : List String) : Work Nat := do
  let recursive := x.descent.isTaken
  let start : Result := { names := x.showing.names && (several || !recursive) }
  let one (r : Result) (p : String) : Work Result :=
    if p == "-" then open_ x r x.showing.label none 0
    else path x true r p p maxDepth
  let r ← if !operands.isEmpty then operands.foldlM one start
    else if recursive then path x true { start with names := x.showing.names } "." "" maxDepth
    else open_ x start x.showing.label none 0
  return if r.failed then 2 else if r.found then 0 else 1

end LineSearch

def grepWith (form : Char) : Work Nat := do
  let o ← grepOptions.read
  let (texts, operands) ← LineSearch.patternTexts o
  let patterns ← LineSearch.readPatterns ((o.last? "EFGP").getD form) texts
  let descent ← LineSearch.descentOf o
  let recursive := descent.isTaken
  let showing ← LineSearch.showingOf o (1 < operands.length || recursive)
  if showing.most = some 0 then return 1
  let fit : Fit := if o.has 'x' then .lines else if o.has 'w' then .words else .anywhere
  let query : Query :=
    { patterns, folds := (o.last? "iyj").any (· != 'j'), inverts := o.has 'v', fit }
  let filters : Filters := ⟨o.texts 'M', o.texts 'N', o.texts 'Q'⟩
  let named := 1 < operands.length || o.last? "hH" == some 'H'
  LineSearch.run { query, showing, filters, descent } named operands

def grepUsage : String := "Usage: grep [OPTION]... PATTERNS [FILE]...\n" ++ pointer "grep"

def lineFinders : List Program :=
  [("grep", 'G'), ("egrep", 'E'), ("fgrep", 'F')].map fun (name, form) =>
    { name, trouble := 2, usage := fun _ => grepUsage, main := grepWith form }

end CompiledModels.Tool
