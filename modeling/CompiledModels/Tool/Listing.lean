import CompiledModels.Shell.Pattern
import CompiledModels.Tool.Attributes
import CompiledModels.Tool.Order

namespace CompiledModels.Tool

open Kernel (Facts Permission.lettersOf Permission.octalText Run)
open Work

def kindLetter (f : Facts) : Char :=
  match f.kind with
  | .file => '-'
  | .directory => 'd'
  | .link _ => 'l'
  | .pipe => 'p'
  | .device _ => 'c'

def modeLetters (f : Facts) : String := (kindLetter f).toString ++ Permission.lettersOf f.mode

def blocksOf (f : Facts) : Nat :=
  match f.kind with
  | .file => (f.size + 4095) / 4096 * 8
  | .directory => 8
  | _ => 0

def indexOf (f : Facts) : Nat :=
  match f.key with
  | some (.file n) => 131072 + n
  | some (.place l) => 262144 + l.foldl (fun n s => n * 31 + s.hash.toNat % 1000003) l.length % 999983
  | none => 1

def humanSize (n : Nat) : String :=
  let rec go : Nat → List Char → Nat → String
    | 0, _, size => toString size
    | _, [], size => toString size
    | fuel + 1, unit :: units, size =>
      let tenths := (n * 10 + size - 1) / size
      if tenths < 100 then toString (tenths / 10) ++ "." ++ toString (tenths % 10) ++ unit.toString
      else
        let whole := (n + size - 1) / size
        if whole < 1024 then toString whole ++ unit.toString else go fuel units (size * 1024)
  if n < 1024 then toString n else go 9 "KMGTPEZY".toList 1024

structure Entry where
  name : String
  facts : Facts
  behind : Option Facts

structure ListStyle where
  options : Options

namespace ListStyle

variable (s : ListStyle)

def has (c : Char) : Bool := s.options.has c

def sign (e : Entry) : String :=
  let classify := s.has 'F'
  let types := classify || s.has '\x02'
  let ofFacts (f : Facts) : String :=
    match f.kind with
    | .directory => "/"
    | .link _ => if types then "@" else ""
    | .pipe => if types then "|" else ""
    | .file => if classify && f.mode &&& 0o111 != 0 then "*" else ""
    | .device _ => ""
  if types || s.has 'p' then ofFacts e.facts else ""

def nameOf (name : String) : String :=
  let escaped (quote : Bool) : String :=
    String.join (name.toList.map fun c =>
      if c == '\\' then "\\\\"
      else if c == '"' && quote then "\\\""
      else if c == ' ' && !quote then "\\ "
      else if Quotation.isVisible c then c.toString else Quotation.escape c)
  match s.options.last? "QbN" with
  | some 'Q' => "\"" ++ escaped true ++ "\""
  | some 'b' => escaped false
  | _ =>
    if s.has 'q' then name.map fun c => if Quotation.isVisible c then c else '?' else name

def compare (a b : Entry) : Ordering :=
  let byName := Order.texts a.name.toList b.name.toList
  let ending (e : Entry) : String :=
    let cs := e.name.toList
    if cs.contains '.' then String.ofList (cs.reverse.takeWhile (· != '.')).reverse else ""
  let isDir (e : Entry) : Nat := if (e.behind.getD e.facts).isDirectory then 0 else 1
  let kind := s.options.given.reverse.find? fun g => "tSXvUf\x03".contains g.letter
  let o := match kind with
    | some ⟨'t', _⟩ => (Ord.compare b.facts.time a.facts.time).then byName
    | some ⟨'S', _⟩ => (Ord.compare b.facts.size a.facts.size).then byName
    | some ⟨'X', _⟩ => (Order.texts (ending a).toList (ending b).toList).then byName
    | some ⟨'v', _⟩ => (Order.versions a.name.toList b.name.toList).then byName
    | _ => byName
  let o := if s.has 'r' then o.swap else o
  if s.has '\x04' then (Ord.compare (isDir a) (isDir b)).then o else o

def isUnsorted : Bool :=
  match s.options.given.reverse.find? fun g => "tSXvUf".contains g.letter with
  | some ⟨c, _⟩ => c == 'U' || c == 'f'
  | none => false

def sort (es : List Entry) : List Entry :=
  if s.isUnsorted then (if s.has 'r' then es.reverse else es)
  else es.mergeSort fun a b => s.compare a b != .gt

def timeOf (now : Int) (f : Facts) : String :=
  let m := Moment.ofNanos f.time
  let recent := now - 15778476 * Moment.nanosPerSecond < f.time && f.time ≤ now
  match s.options.text? 'y' with
  | some "full-iso" => m.formatted "%Y-%m-%d %H:%M:%S.%N %z"
  | some "long-iso" => m.formatted "%Y-%m-%d %H:%M"
  | some "iso" => if recent then m.formatted "%m-%d %H:%M" else m.formatted "%Y-%m-%d "
  | some style =>
    if style.startsWith "+" then m.formatted (style.drop 1).toString
    else if recent then m.formatted "%b %e %H:%M" else m.formatted "%b %e  %Y"
  | none =>
    if s.has '\x05' then m.formatted "%Y-%m-%d %H:%M:%S.%N %z"
    else if recent then m.formatted "%b %e %H:%M" else m.formatted "%b %e  %Y"

def sizeText (n : Nat) : String := if s.has 'h' then humanSize n else toString n

def blocksText (n : Nat) : String :=
  if s.has 'h' then humanSize (n * 512) else toString ((n + 1) / 2)

def isLong : Bool := s.has 'l' || s.has 'n' || s.has 'g' || s.has 'o' || s.has '\x05'

def cells (now : Int) (e : Entry) : List (Bool × String) :=
  let f := e.facts
  let owner := if s.has 'n' then "0" else "root"
  let size := match f.kind with
    | .device _ => "1, 3"
    | _ => s.sizeText f.size
  (if s.has 'i' then [(true, toString (indexOf f))] else []) ++
    (if s.has 's' then [(true, s.blocksText (blocksOf f))] else []) ++
    [(false, modeLetters f), (true, toString f.names)] ++
    (if s.has 'g' then [] else [(false, owner)]) ++
    (if s.has 'o' || s.has 'G' then [] else [(false, owner)]) ++
    [(true, size), (false, s.timeOf now f)]

def longLines (now : Int) (es : List Entry) : List String :=
  let rows := es.map (s.cells now)
  let widths := (rows.headD []).zipIdx.map fun c =>
    (rows.map fun r => ((r[c.2]?).map (·.2.length)).getD 0).foldl max 0
  (rows.zip es).map fun (row, e) =>
    let texts := (row.zip widths).map fun ((right, t), w) =>
      if right then Text.alignRight w t else Text.alignLeft w t
    let behind := match e.facts.kind with
      | .link target =>
        let mark := match e.behind with
          | some f => if s.has 'F' then s.sign ⟨"", f, none⟩ else ""
          | none => ""
        " -> " ++ s.nameOf target ++ mark
      | _ => s.sign e
    " ".intercalate texts ++ " " ++ s.nameOf e.name ++ behind

def shortText (e : Entry) : String :=
  (if s.has 'i' then toString (indexOf e.facts) ++ " " else "") ++
    (if s.has 's' then s.blocksText (blocksOf e.facts) ++ " " else "") ++ s.nameOf e.name ++ s.sign e

def indent : Nat → Nat → Nat → String
  | 0, _, _ => ""
  | fuel + 1, a, b =>
    if b ≤ a then ""
    else if (a + 1) / 8 < b / 8 then "\t" ++ indent fuel (a + (8 - a % 8)) b
    else " " ++ indent fuel (a + 1) b

def inColumns (across : Bool) (width : Nat) (texts : List String) : List String :=
  let n := texts.length
  let widthsFor (columns : Nat) : List Nat :=
    let rows := (n + columns - 1) / columns
    (List.range columns).map fun c =>
      let members := texts.zipIdx.filter fun t =>
        if across then t.2 % columns = c else t.2 / rows = c
      (members.map (·.1.length)).foldl max 0 + 2
  let fits (columns : Nat) : Bool :=
    let ws := widthsFor columns
    ws.foldl (· + ·) 0 - 2 < width
  let columns := ((List.range n).reverse.map (· + 1)).find? fits |>.getD 1
  let ws := widthsFor columns
  let rows := (n + columns - 1) / columns
  (List.range rows).map fun r =>
    let row := (List.range columns).filterMap fun c =>
      texts[if across then r * columns + c else c * rows + r]?
    let (text, _, _) := row.zipIdx.foldl (fun (text, column, start) (t, c) =>
      (text ++ indent 400 column start ++ t, start + t.length, start + (ws[c]?).getD 0))
      ("", 0, 0)
    text

def showEntries (es : List Entry) : Work Unit := do
  let now ← Run.look fun _ k => k.clock
  let es := s.sort es
  if es.isEmpty then return ()
  let layout := (s.options.given.reverse.find? fun g => "1lCxm".contains g.letter).map (·.letter)
  let width := ((s.options.text? 'w').bind (·.toNat?)).getD 80
  if s.isLong && (layout.isNone || layout == some 'l' || layout == some '1') then
    each putLine (s.longLines now es)
  else match layout with
    | some 'm' => putLine (", ".intercalate (es.map s.shortText))
    | some 'C' => each putLine (inColumns false width (es.map s.shortText))
    | some 'x' => each putLine (inColumns true width (es.map s.shortText))
    | _ =>
      if s.has 's' || s.has 'i' then
        let width (f : Entry → String) : Nat := (es.map fun e => (f e).length).foldl max 0
        let iw := width fun e => toString (indexOf e.facts)
        let bw := width fun e => s.blocksText (blocksOf e.facts)
        each (fun e => putLine (
          (if s.has 'i' then Text.alignRight iw (toString (indexOf e.facts)) ++ " " else "") ++
          (if s.has 's' then Text.alignRight bw (s.blocksText (blocksOf e.facts)) ++ " " else "") ++
          s.nameOf e.name ++ s.sign e)) es
      else each (fun e => putLine (s.shortText e)) es

def isShown (name : String) : Bool :=
  let patterns := s.options.texts 'I'
  let matchesAny := patterns.any fun p =>
    Shell.wordMatches (Shell.patternOf p.toList) name.toList
  let hidden := name.startsWith "." && !(s.has 'a' || s.has 'A' || s.has 'f')
  !hidden && !matchesAny && !(s.has 'B' && name.endsWith "~")

def follows : Bool := s.has 'L'

def entry (name p : String) : Work (Except FileError Entry) := do
  match ← Run.facts s.follows p with
  | .error e => return .error e
  | .ok f =>
    let behind ← if f.isLink then facts? true p else pure none
    return .ok ⟨name, f, behind⟩

def showDirectory (titled : Bool) : Nat → Bool → String → Work Unit
  | 0, _, _ => return ()
  | depth + 1, first, p => do
    match ← Run.look fun process k => k.list process p with
    | .error e =>
      complain ("cannot open directory " ++ Quotation.always p ++ ": " ++ words e)
      setStatus 2
    | .ok names =>
      if titled then put ((if first then "" else "\n") ++ s.nameOf p ++ ":\n")
      let dots := if (s.has 'a' || s.has 'f') && !(s.options.last? "aA" == some 'A') then [".", ".."]
        else []
      let found ← (dots ++ names.filter s.isShown).mapM fun name => do
        match ← s.entry name (Path.joinText p name) with
        | .ok e => return some e
        | .error e =>
          fault ("cannot access " ++ Quotation.always (Path.joinText p name) ++ ": " ++ words e)
          return none
      let es := found.filterMap id
      if s.isLong || s.has 's' then
        putLine ("total " ++ s.blocksText ((es.map fun e => blocksOf e.facts).foldl (· + ·) 0))
      s.showEntries es
      if s.has 'R' then
        let below := (s.sort es).filter fun e =>
          e.facts.isDirectory && e.name != "." && e.name != ".."
        each (fun e => showDirectory titled depth false (Path.joinText p e.name)) below

end ListStyle

def lsOptions : Known :=
  .of "aAbBcCdDfFgGhHiIlkLmnNopqQrRsStT:uUvw:xXZ1I:"
    ("all/a escape/b directory/d dired/D full-time/\x05 group-directories-first/\x04 " ++
    "human-readable/h inode/i kibibytes/k numeric-uid-gid/n no-group/G hide-control-chars/q " ++
    "reverse/r size/s width=w almost-all/A ignore-backups/B classify?F file-type/\x02 si/e " ++
    "dereference-command-line/H ignore=I indicator-style=J dereference/L literal/N quote-name/Q " ++
    "quoting-style=K recursive/R format=M show-control-chars/O sort=W tabsize=T time=V " ++
    "time-style=y zero/Y color?E block-size=P context/Z author/9")

def plainOptions (o : Options) : Options :=
  let letterOf (g : Given) : List Given :=
    match g.letter, g.text with
    | 'W', some t => match t with
      | "time" => [⟨'t', none⟩]
      | "size" => [⟨'S', none⟩]
      | "extension" => [⟨'X', none⟩]
      | "version" => [⟨'v', none⟩]
      | "none" => [⟨'U', none⟩]
      | _ => []
    | 'M', some t => match t with
      | "long" => [⟨'l', none⟩]
      | "verbose" => [⟨'l', none⟩]
      | "commas" => [⟨'m', none⟩]
      | "single-column" => [⟨'1', none⟩]
      | "across" => [⟨'x', none⟩]
      | "vertical" => [⟨'C', none⟩]
      | _ => []
    | 'J', some t => match t with
      | "slash" => [⟨'p', none⟩]
      | "file-type" => [⟨'\x02', none⟩]
      | "classify" => [⟨'F', none⟩]
      | _ => []
    | _, _ => [g]
  { o with given := o.given.flatMap letterOf }

def ls : Work Nat := do
  let o := plainOptions (← lsOptions.read)
  let s : ListStyle := ⟨o⟩
  let operands := if o.operands.isEmpty then ["."] else o.operands
  let follows := s.follows || s.has 'H' || !(s.isLong || s.has 'd' || s.has 'F')
  let found ← operands.mapM fun p => do
    let followed ← Run.facts follows p
    let facts : Except FileError Facts ← match followed with
      | .ok f => pure (.ok f)
      | .error e => if s.follows then pure (.error e) else Run.facts false p
    match facts with
    | .ok f => return some ({ name := p, facts := f, behind := none } : Entry)
    | .error e =>
      complain ("cannot access " ++ Quotation.always p ++ ": " ++ words e)
      setStatus 2
      return none
  let es ← (found.filterMap id).mapM fun e => do
    if e.facts.isDirectory && !o.has 'd' then return e
    else
      match ← s.entry e.name e.name with
      | .ok e => return e
      | .error _ => return e
  let isListed (e : Entry) : Bool := e.facts.isDirectory && !o.has 'd'
  let files := es.filter (!isListed ·)
  let dirs := s.sort (es.filter isListed)
  s.showEntries files
  let titled := 1 < operands.length || o.has 'R'
  let rec go (first : Bool) : List Entry → Work Unit
    | [] => return ()
    | e :: rest => do
      s.showDirectory titled maxDepth first e.name
      go false rest
  go files.isEmpty dirs
  return (← get).status

def kindText (f : Facts) : String := kindWord f

def rawMode (f : Facts) : Nat :=
  let kind := match f.kind with
    | .file => 0o100000
    | .directory => 0o40000
    | .link _ => 0o120000
    | .pipe => 0o10000
    | .device _ => 0o20000
  kind + f.mode

def hexText (n : Nat) : String := String.ofList (Nat.toDigits 16 n)

def fileDirective? (p : String) (f : Facts) (c : Char) : Option String :=
  let m := Moment.ofNanos f.time
  let full := m.formatted "%Y-%m-%d %H:%M:%S.%N %z"
  match c with
  | 'a' => some (Permission.octalText f.mode)
  | 'A' => some (modeLetters f)
  | 'b' => some (toString (blocksOf f))
  | 'B' => some "512"
  | 'C' => some "?"
  | 'd' => some "65024"
  | 'D' => some "fe00"
  | 'f' => some (hexText (rawMode f))
  | 'F' => some (kindText f)
  | 'g' => some "0"
  | 'G' => some "root"
  | 'h' => some (toString f.names)
  | 'i' => some (toString (indexOf f))
  | 'm' => some "/"
  | 'n' => some p
  | 'N' => some (Quotation.always p ++ (match f.kind with
      | .link target => " -> " ++ Quotation.always target
      | _ => ""))
  | 'o' => some "4096"
  | 's' => some (toString f.size)
  | 'r' => some "0"
  | 'R' => some "0"
  | 't' => some "0"
  | 'T' => some "0"
  | 'u' => some "0"
  | 'U' => some "root"
  | 'w' => some "-"
  | 'W' => some "0"
  | 'x' => some full
  | 'X' => some (toString m.seconds)
  | 'y' => some full
  | 'Y' => some (toString m.seconds)
  | 'z' => some full
  | 'Z' => some (toString m.seconds)
  | _ => none

def describe (escapes : Bool) (p : String) (f : Facts) : Nat → List Char → String
  | 0, _ => ""
  | _, [] => ""
  | fuel + 1, '%' :: cs =>
    let flags := cs.takeWhile fun c => "-+ #0'".contains c
    let rest := cs.drop flags.length
    let digits := rest.takeWhile Char.isDigit
    let rest := rest.drop digits.length
    let precision := match rest with
      | '.' :: rest => some (rest.takeWhile Char.isDigit)
      | _ => none
    let rest := match precision with
      | some ds => rest.drop (ds.length + 1)
      | none => rest
    let width := ((String.ofList digits).toNat?).getD 0
    match rest with
    | '%' :: rest => "%" ++ describe escapes p f fuel rest
    | [] => "%"
    | c :: rest =>
      let (c, rest) := match c, rest with
        | 'H', c :: rest => (c, rest)
        | 'L', c :: rest => (c, rest)
        | c, rest => (c, rest)
      let text := (fileDirective? p f c).getD "?"
      let text := match precision with
        | some ds =>
          if "nNFAGU".contains c then (text.take ((String.ofList ds).toNat?.getD 0)).toString
          else if "XYZ".contains c && !ds.isEmpty then
            let places := (String.ofList ds).toNat?.getD 0
            let fraction := Moment.padded '0' 9 (Moment.ofNanos f.time).nanosecond
            text ++ (if places = 0 then "" else "." ++ (fraction.take places).toString)
          else if "XYZ".contains c then
            text ++ "." ++ Moment.padded '0' 9 (Moment.ofNanos f.time).nanosecond
          else text
        | none => text
      let isNumber := "abBdghiorsTtuWXYZ".contains c
      let text := if flags.contains '#' then
          (if c == 'a' then (if text.startsWith "0" then text else "0" ++ text)
           else if c == 'f' || c == 'D' then "0x" ++ text else text)
        else text
      let filled :=
        if flags.contains '-' then Text.alignLeft width text
        else if flags.contains '0' && isNumber then
          String.ofList (List.replicate (width - text.length) '0') ++ text
        else Text.alignRight width text
      filled ++ describe escapes p f fuel rest
  | fuel + 1, '\\' :: c :: cs =>
    if escapes then
      let plain := match c with
        | 'n' => "\n"
        | 't' => "\t"
        | 'a' => "\x07"
        | 'b' => "\x08"
        | 'f' => "\x0c"
        | 'r' => "\x0d"
        | 'v' => "\x0b"
        | '0' => "\x00"
        | c => c.toString
      plain ++ describe escapes p f fuel cs
    else "\\" ++ describe escapes p f fuel (c :: cs)
  | fuel + 1, c :: cs => c.toString ++ describe escapes p f fuel cs

def fullFormat (f : Facts) : String :=
  let device := match f.kind with
    | .device _ => "Device type: 1,3"
    | _ => ""
  "  File: %N\n  Size: %-10s\tBlocks: %-10b IO Block: %-6o %F\n" ++
    "Device: 254,0\tInode: %-11i Links: %-5h" ++ device ++ "\n" ++
    "Access: (" ++ modeDigits f.mode ++ "/%A)  Uid: (    0/    root)   Gid: (    0/    root)\n" ++
    "Access: %x\nModify: %y\nChange: %z\n Birth: %y\n"

def stat : Work Nat := do
  let o ← (Known.of "c:fLt" "dereference/L file-system/f format=c printf=p terse/t cached=C").read
  if o.operands.isEmpty then misuse "missing operand"
  let last := o.given.reverse.find? fun g => g.letter == 'c' || g.letter == 'p'
  each (fun p => do
    match ← Run.facts (o.has 'L' || p == "-") (if p == "-" then "/dev/stdin" else p) with
    | .error e => fault ("cannot statx " ++ Quotation.always p ++ ": " ++ words e)
    | .ok f =>
      match last with
      | some ⟨'c', some format⟩ => putLine (describe false p f (format.length + 1) format.toList)
      | some ⟨_, some format⟩ => put (describe true p f (format.length + 1) format.toList)
      | _ =>
        let format :=
          if o.has 't' then "%n %s %b %f %u %g %D %i %h %t %T %X %Y %Z %W %o\n" else fullFormat f
        let name := match f.kind with
          | .link target => p ++ " -> " ++ target
          | _ => p
        let format := "%n".intercalate (format.splitOn "%N")
        put (describe false name f (format.length + 1) format.toList)) o.operands
  return (← get).status

def listings : List Program := [
  { name := "ls", trouble := 2, main := ls }, { name := "dir", trouble := 2, main := ls },
  { name := "stat", main := stat }]

end CompiledModels.Tool
