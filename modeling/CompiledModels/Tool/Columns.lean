import CompiledModels.Tool.Amount

namespace CompiledModels.Tool

open Kernel (Run)
open Work

structure Selection where
  ranges : List (Nat × Option Nat)
  complement : Bool

namespace Selection

def merged : List (Nat × Option Nat) → List (Nat × Option Nat)
  | (a, b) :: rest =>
    match merged rest with
    | (c, d) :: more =>
      match b with
      | none => [(a, none)]
      | some e =>
        if c ≤ e then (a, d.map (max e)) :: more else (a, b) :: (c, d) :: more
    | [] => [(a, b)]
  | [] => []

def has (s : Selection) (n : Nat) : Bool :=
  (s.ranges.any fun r => r.1 ≤ n && r.2.all (n ≤ ·)) != s.complement

def starts (s : Selection) (n : Nat) : Bool :=
  s.has n && (n ≤ 1 || !s.has (n - 1) || !s.complement && s.ranges.any (·.1 = n))

variable (fields : Bool)

def fromOne : String :=
  (if fields then "fields" else "byte/character positions") ++ " are numbered from 1"

def number (cs : List Char) : Work Nat := do
  let s := String.ofList cs
  match s.toNat? with
  | some 0 => misuse (fromOne fields)
  | some n =>
    if Amount.limit - 1 ≤ n then
      misuse ((if fields then "field number " else "byte/character offset ") ++ Quotation.word s ++
        " is too large")
    else return n
  | none =>
    misuse ("invalid " ++ (if fields then "field value " else "byte/character position ") ++
      Quotation.word s)

def range (cs : List Char) : Work (Nat × Option Nat) := do
  let first := cs.takeWhile (· != '-')
  match cs.drop first.length with
  | [] =>
    if first.isEmpty then misuse (fromOne fields)
    let n ← number fields first
    return (n, some n)
  | _ :: second =>
    if second.contains '-' then
      misuse (if fields then "invalid field range" else "invalid byte or character range")
    if first.isEmpty && second.isEmpty then misuse "invalid range with no endpoint: -"
    let a ← if first.isEmpty then pure 1 else number fields first
    if second.isEmpty then return (a, none)
    let b ← number fields second
    if b < a then misuse "invalid decreasing range"
    return (a, some b)

def read (complement : Bool) (s : String) : Work Selection := do
  if s.isEmpty then
    misuse ("missing list of " ++ (if fields then "fields" else "byte/character positions"))
  let parts := Text.splitAll (fun c => c == ',' || c == ' ' || c == '\t') s.toList
  let ranges ← parts.mapM (range fields)
  return ⟨merged (ranges.mergeSort fun a b => a.1 ≤ b.1), complement⟩

end Selection

def cutOptions : Known :=
  .of "b:c:d:f:nsz" ("bytes=b characters=c fields=f delimiter=d only-delimited/s " ++
    "output-delimiter=o complement/C zero-terminated/z")

def cutFields (s : Selection) (delimiter : Char) (between : List Char) (only : Bool)
    (cs : List Char) : Option (List Char) :=
  if !cs.contains delimiter then
    (if only then none else some cs)
  else
    let chosen := ((Text.splitAll (· == delimiter) cs).zipIdx.filter fun f => s.has (f.2 + 1))
    some (between.intercalate (chosen.map (·.1)))

def cutBytes (s : Selection) (between : List Char) (cs : List Char) : List Char :=
  let chosen := cs.zipIdx.filter fun c => s.has (c.2 + 1)
  match chosen with
  | [] => []
  | c :: rest =>
    c.1 :: rest.flatMap fun c => (if s.starts (c.2 + 1) then between else []) ++ [c.1]

def cut : Work Nat := do
  let o ← cutOptions.read
  let lists := o.given.filter fun g => "bcf".contains g.letter
  match o.text? 'd' with
  | some d => if 1 < d.length then misuse "the delimiter must be a single character"
  | none => pure ()
  match lists with
  | [] => misuse "you must specify a list of bytes, characters, or fields"
  | g :: more =>
    if !more.isEmpty then misuse "only one list may be specified"
    let fields := g.letter == 'f'
    if !fields && o.has 'd' then
      misuse "an input delimiter may be specified only when operating on fields"
    if !fields && o.has 's' then
      misuse "suppressing non-delimited lines makes sense\n\tonly when operating on fields"
    let s ← Selection.read fields (o.has 'C') (g.text.getD "")
    let delimiter := match o.text? 'd' with
      | some d => d.toList.headD '\x00'
      | none => '\t'
    let between := match o.text? 'o' with
      | some t => if t.isEmpty then ['\x00'] else t.toList
      | none => if fields then [delimiter] else []
    let stop := if o.has 'z' then '\x00' else '\n'
    let line (cs : List Char) : Option (List Char) :=
      if fields then cutFields s delimiter between (o.has 's') cs else some (cutBytes s between cs)
    withFiles (fun p e => Quotation.subject p ++ ": " ++ e) (fun p d => do
      let failure ← forLines stop d fun l => do
        match line l.text with
        | some cs => putChars (cs ++ [stop])
        | none => pure ()
        return true
      match failure with
      | some e => fault (Quotation.subject p ++ ": " ++ words e)
      | none => pure ()) (orInput o.operands)
    return (← get).status

def delimiters : List Char → Option (List (List Char))
  | [] => some []
  | ['\\'] => none
  | '\\' :: c :: rest =>
    let one : List Char := match c with
      | '0' => []
      | 'n' => ['\n']
      | 't' => ['\t']
      | 'b' => ['\x08']
      | 'f' => ['\x0c']
      | 'r' => ['\x0d']
      | 'v' => ['\x0b']
      | c => [c]
    (delimiters rest).map (one :: ·)
  | c :: rest => (delimiters rest).map ([c] :: ·)

def rows (columns : List (List (List Char))) : List (List (Option (List Char))) :=
  let count := (columns.map (·.length)).foldl max 0
  (List.range count).map fun i => columns.map (·[i]?)

def interleave (ds : List (List Char)) : Nat → List (List Char) → List Char
  | _, [] => []
  | _, [cs] => cs
  | i, cs :: rest => cs ++ (ds[i % ds.length]?.getD []) ++ interleave ds (i + 1) rest

def paste : Work Nat := do
  let o ← (Known.of "d:sz" "delimiters=d serial/s zero-terminated/z").read
  let text := (o.text? 'd').getD "\t"
  let ds ← match delimiters text.toList with
    | some [] => pure [[]]
    | some ds => pure ds
    | none => refuse ("delimiter list ends with an unescaped backslash: " ++ text)
  let stop := if o.has 'z' then '\x00' else '\n'
  let files := orInput o.operands
  let lines (text : String) : List (List Char) := (linesOf stop text.toList).map (·.text)
  if o.has 's' then
    each (fun p => do
      match ← contents p with
      | .error e => fault (Quotation.subject p ++ ": " ++ words e)
      | .ok text => putChars (interleave ds 0 (lines text) ++ [stop])) files
  else
    let inputs := files.filter (· == "-")
    let input ← if inputs.isEmpty then pure [] else do
      match ← contents "-" with
      | .ok text => pure (lines text)
      | .error e => refuse ("-: " ++ words e)
    let share (n : Nat) : List (List Char) :=
      (input.zipIdx.filter fun l => l.2 % inputs.length = n).map (·.1)
    let rec columns (taken : Nat) : List String → Work (List (List (List Char)))
      | [] => return []
      | "-" :: rest => do return share taken :: (← columns (taken + 1) rest)
      | p :: rest => do
        match ← contents p with
        | .error e =>
          complain (Quotation.subject p ++ ": " ++ words e)
          finish 1
        | .ok text => return lines text :: (← columns taken rest)
    each (fun row =>
      putChars (interleave ds 0 (row.map (·.getD [])) ++ [stop])) (rows (← columns 0 files))
  return (← get).status

def moved (bytes : Bool) (column : Nat) (c : Char) : Nat :=
  if bytes then column + 1
  else if c == '\x08' then column - 1
  else if c == '\x0d' then 0
  else if c == '\t' then column + 8 - column % 8
  else column + 1

def foldLine (bytes spaces : Bool) (width : Nat) :
    Nat → List Char → Nat → List Char → List (List Char)
  | 0, line, _, cs => [line.reverse ++ cs]
  | _, line, _, [] => [line.reverse]
  | fuel + 1, line, column, c :: cs =>
    let next := moved bytes column c
    if next ≤ width || line.isEmpty then foldLine bytes spaces width fuel (c :: line) next cs
    else
      let tail := line.takeWhile fun c => c != ' ' && c != '\t'
      if spaces && tail.length < line.length then
        let start := (line.drop tail.length).reverse
        start :: foldLine bytes spaces width fuel tail
          (tail.reverse.foldl (moved bytes) 0) (c :: cs)
      else line.reverse :: foldLine bytes spaces width fuel [] 0 (c :: cs)

def withDigits (letter : String) (args : List String) : List String :=
  match digitsAt args with
  | some (before, digits, after) => before ++ (letter ++ digits) :: after
  | none => args
where
  digitsAt : List String → Option (List String × String × List String)
    | [] => none
    | a :: rest =>
      let cs := a.toList.drop 1
      if a.startsWith "-" && !cs.isEmpty && cs.all (fun c => c.isDigit || c == ',') then
        some ([], String.ofList cs, rest)
      else if a == "--" then none
      else (digitsAt rest).map fun (before, digits, after) => (a :: before, digits, after)

def changeLines (files : List String) (change : List Char → List Char) : Work Unit :=
  withFiles (fun p e => Quotation.subject p ++ ": " ++ e) (fun p d => do
    let failure ← forLines '\n' d fun l => do
      put ((⟨change l.text, l.ended⟩ : Line).full)
      return true
    match failure with
    | some e => fault (Quotation.subject p ++ ": " ++ words e)
    | none => pure ()) (orInput files)

def fold : Work Nat := do
  let o ← (Known.of "bsw:" "bytes/b spaces/s width=w").readAll
    (withDigits "-w" (← get).arguments)
  let width ← match o.text? 'w' with
    | none => pure 80
    | some s =>
      match s.toNat? with
      | some (n + 1) => pure (n + 1)
      | _ => refuse ("invalid number of columns: " ++ Quotation.word s)
  changeLines o.operands fun cs =>
    ['\n'].intercalate (foldLine (o.has 'b') (o.has 's') width (3 * cs.length + 3) [] 0 cs)
  return (← get).status

structure Tabs where
  stops : List Nat
  step : Option Nat

namespace Tabs

def next? (t : Tabs) (column : Nat) : Option Nat :=
  (t.stops.find? (column < ·)).or (t.step.map fun n => column + n - column % n)

def read (s : String) : Work Tabs := do
  let parts := (Text.splitAll (fun c => c == ',' || c == ' ') s.toList).filter (!·.isEmpty)
  let rec go (last : Nat) : List (List Char) → Work (List Nat × Option Nat)
    | [] => return ([], none)
    | cs :: rest => do
      let (every, cs) := match cs with
        | '/' :: cs => (true, cs)
        | cs => (false, cs)
      match (String.ofList cs).toNat? with
      | none =>
        refuse ("tab size contains invalid character(s): " ++
          Quotation.word (String.ofList (cs.dropWhile Char.isDigit)))
      | some 0 => if every then return ([], none) else refuse "tab size cannot be 0"
      | some n =>
        if every then return ([], some n)
        else if n ≤ last then refuse "tab sizes must be ascending"
        else
          let (more, step) ← go n rest
          return (n :: more, step)
  match ← go 0 parts with
  | ([], none) => return ⟨[], some 8⟩
  | ([n], none) => return ⟨[], some n⟩
  | (stops, step) => return ⟨stops, step⟩

end Tabs

def expandLine (t : Tabs) (initial : Bool) : Bool → Nat → List Char → List Char
  | _, _, [] => []
  | front, column, c :: cs =>
    if c == '\t' && (front || !initial) then
      let n := ((t.next? column).getD (column + 1)) - column
      List.replicate n ' ' ++ expandLine t initial front (column + n) cs
    else
      let column' := if c == '\x08' then column - 1
        else if c == '\t' then (t.next? column).getD (column + 1) else column + 1
      c :: expandLine t initial (front && (c == ' ' || c == '\t')) column' cs

def expand : Work Nat := do
  let o ← (Known.of "it:" "initial/i tabs=t").readAll (withDigits "-t" (← get).arguments)
  let t ← Tabs.read (",".intercalate (o.texts 't'))
  changeLines o.operands (expandLine t (o.has 'i') true 0)
  return (← get).status

/-- Puts tabs in the place of spaces. `blanks` are those that were collected, with the column where
they start; `single` says that they are one space that a tab does not replace. -/
def unexpandLine (t : Tabs) (all : Bool) : Bool → Nat → List Char → List Char → List Char
  | _, _, blanks, [] => blanks.reverse
  | front, column, blanks, c :: cs =>
    if (c == ' ' || c == '\t') && (front || all) then
      let stop := t.next? column
      match stop with
      | none => blanks.reverse ++ c :: cs
      | some stop =>
        let column' := if c == '\t' then stop else column + 1
        if column' = stop then
          if c == ' ' && blanks.isEmpty && !(cs.head?.any fun d => d == ' ' || d == '\t') then
            c :: unexpandLine t all front column' [] cs
          else '\t' :: unexpandLine t all front column' [] cs
        else unexpandLine t all front column' (c :: blanks) cs
    else
      let column' := if c == '\x08' then column - 1 else column + 1
      blanks.reverse ++ c :: unexpandLine t all false column' [] cs

def unexpand : Work Nat := do
  let o ← (Known.of "at:" "all/a first-only/F tabs=t").readAll
    (withDigits "-t" (← get).arguments)
  let t ← Tabs.read (",".intercalate (o.texts 't'))
  changeLines o.operands (unexpandLine t ((o.has 'a' || o.has 't') && !o.has 'F') true 0 [])
  return (← get).status

def columns : List Program := [
  { name := "cut", main := cut }, { name := "expand", main := expand },
  { name := "fold", main := fold }, { name := "paste", main := paste },
  { name := "unexpand", main := unexpand }]

end CompiledModels.Tool
