import CompiledModels.Tool.Amount

namespace CompiledModels.Tool

open Kernel (Run)
open Work

structure Extent where
  count : Nat
  bytes : Bool := false
  other : Bool := false

def title (first : Bool) (p : String) : String :=
  (if first then "" else "\n") ++ "==> " ++ (if p == "-" then "standard input" else p) ++ " <==\n"

def named (p : String) : String := if p == "-" then "'standard input'" else Quotation.always p

def showParts (o : Options) (part : String → Nat → Work Unit) : Work Unit := do
  let files := orInput o.operands
  let titled := match o.last? "qv" with
    | some c => c == 'v'
    | none => 1 < files.length
  let rec go (first : Bool) : List String → Work Unit
    | [] => return ()
    | p :: rest => do
      match ← openInput p with
      | .error e =>
        fault ("cannot open " ++ named p ++ " for reading: " ++ words e)
        go first rest
      | .ok d =>
        if titled then put (title first p)
        part p d
        closeInput d
        go false rest
  go true files

def readFailure (p : String) : Option FileError → Work Unit
  | some e => fault ("error reading " ++ named p ++ ": " ++ words e)
  | none => return ()

namespace Extent

def front : Nat → List Char → Nat × Nat
  | 0, _ => (0, 0)
  | left, [] => (0, left)
  | left + 1, c :: cs =>
    let (n, left) := front (if c == '\n' then left else left + 1) cs
    (n + 1, left)

def dropLines (count : Nat) (stop : Char) (cs : List Char) : List Char × List Char :=
  let lines := linesOf stop cs
  let kept := lines.length - count
  let size := (lines.take kept).foldl (fun n l => n + l.text.length + (if l.ended then 1 else 0)) 0
  cs.splitAt size

def giveBack (d count : Nat) : Work Unit :=
  Run.change fun process k =>
    match k.position? process d with
    | some n => ((k.seek process d (n - count)).toOption).getD k
    | none => k

def blockSize : Nat := 8192

def copyLines (stop : Char) (d : Nat) : Nat → Nat → Work (Option FileError)
  | 0, _ => hang
  | _, 0 => return none
  | turns + 1, left => do
    match ← Run.read d blockSize with
    | .error e => return some e
    | .ok [] => return none
    | .ok bytes =>
      let cs := (Text.octets bytes).toList
      let marked := if stop == '\n' then cs
        else cs.map fun c => if c == stop then '\n' else if c == '\n' then ' ' else c
      let (n, left) := front left marked
      putChars (cs.take n)
      if left = 0 then
        giveBack d (cs.length - n)
        return none
      else copyLines stop d turns left

def copyBytes (d : Nat) : Nat → Nat → Work (Option FileError)
  | 0, _ => hang
  | _, 0 => return none
  | turns + 1, left => do
    match ← Run.read d (min left blockSize) with
    | .error e => return some e
    | .ok [] => return none
    | .ok bytes =>
      put (Text.octets bytes)
      copyBytes d turns (left - bytes.length)

def showStart (e : Extent) (stop : Char) (p : String) (d : Nat) : Work Unit := do
  if e.other then
    match ← Run.readAll d with
    | .error failure => readFailure p failure
    | .ok bytes =>
      let cs := (Text.octets bytes).toList
      putChars (if e.bytes then cs.take (cs.length - e.count) else (dropLines e.count stop cs).1)
  else
    let failure ← if e.bytes then copyBytes d maxTurns e.count
      else copyLines stop d maxTurns e.count
    readFailure p failure

def showEnd (e : Extent) (stop : Char) (p : String) (d : Nat) : Work Unit := do
  match ← Run.readAll d with
  | .error failure => readFailure p failure
  | .ok bytes =>
    let cs := (Text.octets bytes).toList
    let skipped := e.count - 1
    if e.other then
      if e.bytes then putChars (cs.drop skipped)
      else
        let (n, _) := if skipped = 0 then (0, 0) else front skipped
          (if stop == '\n' then cs else cs.map fun c =>
            if c == stop then '\n' else if c == '\n' then ' ' else c)
        putChars (cs.drop n)
    else if e.bytes then putChars (cs.drop (cs.length - e.count))
    else putChars (dropLines e.count stop cs).2

end Extent

def digitOption? (args : List String) : Option (String × List Char × List String) :=
  match args with
  | a :: rest =>
    match a.toList with
    | '-' :: c :: cs =>
      if c.isDigit then
        let digits := (c :: cs).takeWhile Char.isDigit
        some (String.ofList digits, (c :: cs).drop digits.length, rest)
      else none
    | _ => none
  | [] => none

def headOptions : Known :=
  .of "c:n:qvz0123456789" "bytes=c lines=n quiet/q silent/q verbose/v zero-terminated/z"

def lettersOfHead (number : String) (cs : List Char) : Work (List String) := do
  let known := "cbkmlqvz"
  match cs.find? (!known.contains ·) with
  | some c => misuse ("invalid trailing option -- " ++ c.toString)
  | none =>
    let bytes := cs.any fun c => "cbkm".contains c
    let unit := (cs.reverse.find? fun c => "bkm".contains c).elim "" (·.toString)
    return (if bytes then "-c" ++ number ++ unit else "-n" ++ number) ::
      (cs.filter fun c => "qvz".contains c).map fun c => "-" ++ c.toString

def head : Work Nat := do
  let args := (← get).arguments
  let args ← match digitOption? args with
    | some (number, letters, rest) => pure ((← lettersOfHead number letters) ++ rest)
    | none => pure args
  let o ← headOptions.readAll args
  match o.given.find? (·.letter.isDigit) with
  | some g => misuse ("invalid trailing option -- " ++ g.letter.toString)
  | none => pure ()
  let extent ← match o.given.reverse.find? fun g => g.letter == 'c' || g.letter == 'n' with
    | none => pure ({ count := 10 } : Extent)
    | some g =>
      let text := g.text.getD ""
      let other := text.startsWith "-"
      let bytes := g.letter == 'c'
      let what := if bytes then "invalid number of bytes" else "invalid number of lines"
      let count ← Amount.demand Amount.units what (if other then (text.drop 1).toString else text)
      pure { count, bytes, other }
  showParts o (extent.showStart (if o.has 'z' then '\x00' else '\n'))
  return (← get).status

def tailOptions : Known :=
  .of "c:n:fFqs:vz0123456789" ("bytes=c follow?f lines=n max-unchanged-stats=m pid=p quiet/q " ++
    "retry/r silent/q sleep-interval=s verbose/v zero-terminated/z")

def oldTail? (args : List String) : Option (List String) :=
  match args with
  | a :: rest =>
    match a.toList with
    | sign :: cs =>
      let digits := cs.takeWhile Char.isDigit
      let letters := cs.drop digits.length
      let count := if digits.isEmpty then "10" else String.ofList digits
      let letters' := letters.filter (· != 'f')
      let files := match rest with
        | "--" :: files => files
        | files => files
      let fits := (sign == '+' || sign == '-' && !digits.isEmpty) && files.length ≤ 1 &&
        (letters' == [] || letters' == ['c'] || letters' == ['l'] || letters' == ['b'])
      if fits then
        let start := if sign == '+' then "+" else ""
        let unit := if letters' == ['b'] then "b" else ""
        let option := if letters' == ['c'] || letters' == ['b'] then "-c" else "-n"
        some ((option ++ start ++ count ++ unit) ::
          (if letters.contains 'f' then ["-f"] else []) ++ rest)
      else none
    | [] => none
  | [] => none

def tail : Work Nat := do
  let args := (← get).arguments
  let o ← tailOptions.readAll ((oldTail? args).getD args)
  match o.given.find? (·.letter.isDigit) with
  | some g => refuse ("option used in invalid context -- " ++ g.letter.toString)
  | none => pure ()
  let extent ← match o.given.reverse.find? fun g => g.letter == 'c' || g.letter == 'n' with
    | none => pure ({ count := 10 } : Extent)
    | some g =>
      let text := g.text.getD ""
      let other := text.startsWith "+"
      let signed := other || text.startsWith "-"
      let bytes := g.letter == 'c'
      let what := if bytes then "invalid number of bytes" else "invalid number of lines"
      let count ← Amount.demand Amount.units what (if signed then (text.drop 1).toString else text)
      pure { count, bytes, other }
  showParts o (extent.showEnd (if o.has 'z' then '\x00' else '\n'))
  if o.has 'f' || o.has 'F' then
    flush
    if !(o.operands.isEmpty && o.has 'f') then hang
  return (← get).status

structure Counts where
  lines : Nat := 0
  words : Nat := 0
  bytes : Nat := 0
  width : Nat := 0

namespace Counts

def add (a b : Counts) : Counts :=
  ⟨a.lines + b.lines, a.words + b.words, a.bytes + b.bytes, max a.width b.width⟩

structure Counting where
  counts : Counts := {}
  inWord : Bool := false
  column : Nat := 0

def step (s : Counting) (c : Char) : Counting :=
  let counts := { s.counts with bytes := s.counts.bytes + 1 }
  let closed : Counts := { counts with words := counts.words + (if s.inWord then 1 else 0) }
  if c == '\n' || c == '\x0d' || c == '\x0c' then
    { counts := { closed with
        lines := counts.lines + (if c == '\n' then 1 else 0), width := max counts.width s.column } }
  else if c == '\t' then { counts := closed, column := s.column + (8 - s.column % 8) }
  else if c == ' ' then { counts := closed, column := s.column + 1 }
  else if c == '\x0b' then { counts := closed, column := s.column }
  else if Quotation.isVisible c then { counts, inWord := true, column := s.column + 1 }
  else { s with counts }

def finish (s : Counting) : Counts :=
  { s.counts with
    words := s.counts.words + (if s.inWord then 1 else 0), width := max s.counts.width s.column }

end Counts

def wcOptions : Known :=
  .of "clLmw" "bytes/c chars/m lines/l words/w files0-from=F max-line-length/L total=t"

def wc : Work Nat := do
  let o ← wcOptions.read
  let plain := !(o.has 'c' || o.has 'l' || o.has 'L' || o.has 'm' || o.has 'w')
  let columns := (if plain then "lwc" else "lwmcL").toList.filter fun c => plain || o.has c
  let files := o.operands
  let total := (o.text? 't').getD "auto"
  if ! ["auto", "always", "only", "never"].contains total then
    complain ("invalid argument " ++ Quotation.word total ++ " for " ++ Quotation.word "--total")
    tell "Valid arguments are:\n  - 'auto'\n  - 'always'\n  - 'only'\n  - 'never'\n"
    pointToHelp
  let facts ← Run.look fun process k => (orInput files).map fun p =>
    if p == "-" then
      match k.opened? process 0 with
      | some (_, s) => Except.ok (k.factsOfTarget s.target)
      | none => .error (.os .badDescriptor)
    else k.facts process true p
  let sizes := facts.filterMap (·.toOption)
  let width :=
    if total == "only" || facts.length = 1 && columns.length = 1 then 1
    else
      let sum := ((sizes.filter (·.isFile)).map (·.size)).foldl (· + ·) 0
      max (toString sum).length (if sizes.all (·.isFile) then 1 else 7)
  let row (c : Counts) (name : String) : Work Unit :=
    let value (column : Char) : Nat :=
      match column with
      | 'l' => c.lines
      | 'w' => c.words
      | 'L' => c.width
      | _ => c.bytes
    let cells := columns.map fun column => Text.alignRight width (toString (value column))
    put (" ".intercalate cells ++ (if name.isEmpty then "" else " " ++ name) ++ "\n")
  let rec go (sum : Counts) : List String → Work Counts
    | [] => return sum
    | p :: rest => do
      match ← openInput p with
      | .error e =>
        fault (Quotation.subject p ++ ": " ++ words e)
        go sum rest
      | .ok d =>
        let rec blocks (s : Counts.Counting) : Nat → Work (Option FileError × Counts)
          | 0 => hang
          | turns + 1 => do
            match ← Run.read d Run.blockSize with
            | .error e => return (some e, Counts.finish s)
            | .ok [] => return (none, Counts.finish s)
            | .ok bytes => blocks ((Text.octets bytes).foldl Counts.step s) turns
        let (failure, c) ← blocks {} maxTurns
        closeInput d
        match failure with
        | some e => fault (Quotation.subject p ++ ": " ++ words e)
        | none => pure ()
        if total != "only" then row c (if files.isEmpty then "" else Quotation.sparing p)
        go (sum.add c) rest
  let sum ← go {} (orInput files)
  if total == "always" || total == "only" || total == "auto" && 1 < files.length then
    row sum (if total == "only" then "" else "total")
  return (← get).status

def extents : List Program := [
  { name := "head", main := head }, { name := "tail", main := tail }, { name := "wc", main := wc }]

end CompiledModels.Tool
