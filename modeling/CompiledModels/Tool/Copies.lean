import CompiledModels.Tool.Amount
import CompiledModels.Tool.Paths

namespace CompiledModels.Tool

open Kernel (Run)
open Work

structure Copy where
  name : String
  descriptor : Nat

def writeCopies (bytes : Bytes) : List Copy → Work (List Copy)
  | [] => return []
  | c :: rest => do
    match ← Run.write c.descriptor bytes with
    | .ok () => return c :: (← writeCopies bytes rest)
    | .error e =>
      fault (c.name ++ ": " ++ words e)
      writeCopies bytes rest

def tee : Work Nat := do
  let o ← (Known.of "aip" "append/a ignore-interrupts/i output-error?p").read
  let mode := if o.has 'a' then Kernel.Mode.appending else Kernel.Mode.writing
  let rec openAll : List String → Work (List Copy)
    | [] => return []
    | p :: rest => do
      match ← Run.openFile p mode with
      | .ok d => return ⟨Quotation.subject p, d⟩ :: (← openAll rest)
      | .error e =>
        fault (Quotation.subject p ++ ": " ++ words e)
        openAll rest
  let copies := ⟨"'standard output'", 1⟩ :: (← openAll o.operands)
  let rec go (copies : List Copy) : Nat → Work Unit
    | 0 => hang
    | turns + 1 => do
      if copies.isEmpty then return ()
      match ← Run.read 0 Run.blockSize with
      | .error e => fault ("read error: " ++ words e)
      | .ok [] => return ()
      | .ok bytes => do go (← writeCopies bytes copies) turns
  go copies maxTurns
  return (← get).status

structure PartNames where
  stem : String
  digits : List Char
  width : Option Nat
  start : Nat := 0
  suffix : String := ""

namespace PartNames

variable (n : PartNames)

def written : Nat → Nat → List Char
  | 0, _ => []
  | width + 1, i =>
    written width (i / n.digits.length) ++ [n.digits.getD (i % n.digits.length) 'a']

/-- The characters behind the stem for a part, if there are enough of them. Without a width the
last digit in front says that more follow. -/
def ending (i : Nat) : Nat → Nat → Option (List Char)
  | 0, _ => none
  | fuel + 1, width =>
    let base := n.digits.length
    match n.width with
    | some width => if base ^ width ≤ i then none else some (n.written width i)
    | none =>
      let count := (base - 1) * base ^ (width - 1)
      if i < count then some (n.written width i)
      else (ending (i - count) fuel (width + 1)).map (n.digits.getLast?.toList ++ ·)

def name? (i : Nat) : Option String :=
  (n.ending (n.start + i) 20 2).map fun cs => n.stem ++ String.ofList cs ++ n.suffix

end PartNames

def inParts (size : Nat) : Nat → List Char → List (List Char)
  | 0, _ => []
  | _, [] => []
  | fuel + 1, cs => cs.take size :: inParts size fuel (cs.drop size)

def linesInParts (count : Nat) : Nat → List Line → List (List Char)
  | 0, _ => []
  | _, [] => []
  | fuel + 1, ls =>
    (ls.take count).flatMap (fun l => l.full.toList) :: linesInParts count fuel (ls.drop count)

def linesWithin (size : Nat) (open_ : List Char) : List Line → List (List Char)
  | [] => if open_.isEmpty then [] else [open_]
  | l :: rest =>
    let cs := l.full.toList
    if open_.length + cs.length ≤ size then linesWithin size (open_ ++ cs) rest
    else
      let before := if open_.isEmpty then [] else [open_]
      let pieces := inParts size (cs.length + 1) cs
      before ++ pieces.dropLast ++ linesWithin size (pieces.getLast?.getD []) rest

def evenParts (count : Nat) (cs : List Char) : List (List Char) :=
  let size := cs.length
  let small := size / count
  let more := size % count
  (List.range count).map fun i =>
    let start := i * small + min i more
    (cs.drop start).take (small + if i < more then 1 else 0)

def evenLines (count : Nat) (cs : List Char) : List (List Char) :=
  let size := max cs.length 1
  let lines := (linesOf '\n' cs).map fun l => l.full.toList
  let placed := (lines.foldl (fun (acc, place) l => (acc ++ [(place, l)], place + l.length))
    (([] : List (Nat × List Char)), 0)).1
  let small := size / count
  (List.range count).map fun i =>
    let inPart (place : Nat) : Bool := min (place / max small 1) (count - 1) = i
    (placed.filter fun (place, _) => inPart place).flatMap (·.2)

def split : Work Nat := do
  let o ← (Known.of "0123456789a:b:C:dl:n:t:ux" ("suffix-length=a additional-suffix=S bytes=b " ++
    "line-bytes=C numeric-suffixes?D hex-suffixes?X elide-empty-files/e filter=F lines=l number=n " ++
    "separator=t unbuffered/u verbose/v")).read
  let digits := String.ofList ((o.given.map (·.letter)).filter Char.isDigit)
  let ways := (o.given.filter fun g => "bCln".contains g.letter).length +
    if digits.isEmpty then 0 else 1
  if 1 < ways then misuse "cannot split in more than one way"
  match o.operands.drop 2 with
  | extra :: _ => misuse ("extra operand " ++ Quotation.always extra)
  | [] => pure ()
  let demanded (what s : String) : Work Nat := do
    match Amount.read Amount.units s with
    | .ok 0 => refuse ("invalid number of " ++ what ++ ": " ++ Quotation.word s)
    | .ok n => return n
    | .error _ => refuse ("invalid number of " ++ what ++ ": " ++ Quotation.word s)
  let input := o.operands.headD "-"
  let text : Work (List Char) := do
    match ← contents input with
    | .ok s => return s.toList
    | .error e =>
      refuse ("cannot open " ++ Quotation.always input ++ " for reading: " ++ words e)
  let (parts, chosen, chunks) ← match o.last? "bCln" with
    | some 'b' => do
      let n ← demanded "bytes" ((o.text? 'b').getD "")
      let cs ← text
      pure (inParts n (cs.length + 1) cs, none, none)
    | some 'C' => do
      let n ← demanded "bytes" ((o.text? 'C').getD "")
      pure (linesWithin n [] (linesOf '\n' (← text)), none, none)
    | some 'n' => do
      let pieces := ((o.text? 'n').getD "").splitOn "/"
      let (byLine, pieces) := if pieces.head? == some "l" then (true, pieces.drop 1)
        else (false, pieces)
      let count ← demanded "chunks" (pieces.getLast?.getD "")
      let chosen := if pieces.length = 2 then (pieces.headD "").toNat? else none
      let cs ← text
      pure (if byLine then evenLines count cs else evenParts count cs, chosen, some count)
    | _ => do
      let n ← match o.text? 'l' with
        | some s => demanded "lines" s
        | none => if digits.isEmpty then pure 1000 else demanded "lines" digits
      let lines := linesOf '\n' (← text)
      pure (linesInParts n (lines.length + 1) lines, none, none)
  match chosen with
  | some i =>
    putChars (parts.getD (i - 1) [])
    return 0
  | none =>
  let letters := match o.last? "dxDX" with
    | some 'd' => "0123456789"
    | some 'D' => "0123456789"
    | some _ => "0123456789abcdef"
    | none => "abcdefghijklmnopqrstuvwxyz"
  let given ← match o.text? 'a' with
    | none => pure none
    | some s =>
      match s.toNat? with
      | some 0 => pure none
      | some n => pure (some n)
      | none => refuse ("invalid suffix length: " ++ Quotation.word s)
  let width := given.or (chunks.map fun n =>
    max 2 (Nat.toDigits letters.length (n - 1)).length)
  let names : PartNames := {
    stem := (o.operands[1]?).getD "x", digits := letters.toList, width
    start := ((o.text? 'D').or (o.text? 'X')).elim 0 fun s => s.toNat?.getD 0
    suffix := (o.text? 'S').getD "" }
  let kept := if o.has 'e' then parts.filter (!·.isEmpty) else parts
  let rec write (i : Nat) : List (List Char) → Work Unit
    | [] => return ()
    | cs :: rest => do
      match names.name? i with
      | none => refuse "output file suffixes exhausted"
      | some p =>
        if o.has 'v' then putLine ("creating file " ++ Quotation.always p)
        match ← Run.openFile p .writing with
        | .error e => refuse (Quotation.subject p ++ ": " ++ words e)
        | .ok d =>
          let result ← Run.write d (Text.octetBytes (String.ofList cs))
          Run.close d
          match result with
          | .error e => refuse (Quotation.subject p ++ ": " ++ words e)
          | .ok () => write (i + 1) rest
  write 0 kept
  return 0

structure Blocks where
  input : Option String := none
  output : Option String := none
  readSize : Nat := 512
  writeSize : Nat := 512
  skip : Nat := 0
  seek : Nat := 0
  count : Option Nat := none
  conversions : List String := []
  inputFlags : List String := []
  outputFlags : List String := []
  status : String := ""

namespace Blocks

def amount (s : String) : Work Nat := do
  let parts := s.splitOn "x"
  let rec product : List String → Option Nat
    | [] => some 1
    | p :: rest =>
      match Amount.read "cwbkKmMgGtTPEZY" p, product rest with
      | .ok n, some m => some (n * m)
      | _, _ => none
  match product parts with
  | some n => return n
  | none => refuse ("invalid number: " ++ Quotation.word s)

def positive (s : String) : Work Nat := do
  let n ← amount s
  if n = 0 then refuse ("invalid number: " ++ Quotation.word s) else return n

def knownConversions : List String := [
  "notrunc", "sync", "noerror", "ucase", "lcase", "swab", "excl", "nocreat", "fsync", "fdatasync",
  "sparse", "ascii", "ebcdic", "ibm", "block", "unblock"]

def knownFlags : List String := [
  "append", "direct", "directory", "dsync", "sync", "fullblock", "nonblock", "noatime", "nocache",
  "noctty", "nofollow", "nolinks", "binary", "text", "count_bytes", "skip_bytes", "seek_bytes"]

def listed (known : List String) (what s : String) : Work (List String) := do
  let words := s.splitOn ","
  match words.find? (!known.contains ·) with
  | some w => misuse ("invalid " ++ what ++ ": " ++ Quotation.word w)
  | none => return words

def take (b : Blocks) (a : String) : Work Blocks := do
  let name := String.ofList (a.toList.takeWhile (· != '='))
  let value := (a.drop (name.length + 1)).toString
  if !a.contains '=' then misuse ("unrecognized operand " ++ Quotation.word a)
  match name with
  | "if" => return { b with input := some value }
  | "of" => return { b with output := some value }
  | "bs" => do
    let n ← positive value
    return { b with readSize := n, writeSize := n }
  | "ibs" => return { b with readSize := ← positive value }
  | "obs" => return { b with writeSize := ← positive value }
  | "skip" => return { b with skip := ← amount value }
  | "iseek" => return { b with skip := ← amount value }
  | "seek" => return { b with seek := ← amount value }
  | "oseek" => return { b with seek := ← amount value }
  | "count" => return { b with count := some (← amount value) }
  | "cbs" => do
    let _ ← positive value
    return b
  | "conv" => return { b with conversions := ← listed knownConversions "conversion" value }
  | "iflag" => return { b with inputFlags := ← listed knownFlags "input flag" value }
  | "oflag" => return { b with outputFlags := ← listed knownFlags "output flag" value }
  | "status" =>
    if ["none", "noxfer", "progress"].contains value then return { b with status := value }
    else misuse ("invalid status level: " ++ Quotation.word value)
  | _ => misuse ("unrecognized operand " ++ Quotation.word a)

def swapped : Bytes → Bytes
  | a :: b :: rest => b :: a :: swapped rest
  | bytes => bytes

def converted (b : Blocks) (bytes : Bytes) : Bytes :=
  let has (s : String) : Bool := b.conversions.contains s
  let letter (f : Char → Char) (x : UInt8) : UInt8 :=
    UInt8.ofNat (f (Char.ofNat x.toNat)).toNat
  let bytes := if has "swab" then swapped bytes else bytes
  if has "ucase" then bytes.map (letter Char.toUpper)
  else if has "lcase" then bytes.map (letter Char.toLower) else bytes

structure Tally where
  full : Nat := 0
  part : Nat := 0
  bytes : Nat := 0

def fill (d : Nat) (whole : Bool) : Nat → Nat → Work (Except FileError Bytes)
  | 0, _ => return .ok []
  | _, 0 => return .ok []
  | turns + 1, left => do
    match ← Run.read d left with
    | .error e => return .error e
    | .ok [] => return .ok []
    | .ok bytes =>
      if !whole then return .ok bytes
      match ← fill d whole turns (left - bytes.length) with
      | .error e => return .error e
      | .ok more => return .ok (bytes ++ more)

def copy (b : Blocks) (source dest : Nat) : Nat → Nat → Tally → Work (Option FileError × Tally)
  | 0, _, t => return (none, t)
  | fuel + 1, left, t => do
    let size := if b.inputFlags.contains "count_bytes" then min left b.readSize else b.readSize
    if left = 0 then return (none, t)
    match ← fill source (b.inputFlags.contains "fullblock") maxTurns size with
    | .error e => return (some e, t)
    | .ok [] => return (none, t)
    | .ok bytes =>
      let isFull := bytes.length = b.readSize
      let padded := if b.conversions.contains "sync" then
        bytes ++ List.replicate (b.readSize - bytes.length) 0 else bytes
      let out := b.converted padded
      match ← Run.write dest out with
      | .error e => return (some e, t)
      | .ok () =>
        let t := { full := if isFull then t.full + 1 else t.full
                   part := if isFull then t.part else t.part + 1
                   bytes := t.bytes + out.length }
        let used := if b.inputFlags.contains "count_bytes" then bytes.length else 1
        copy b source dest fuel (left - used) t

def short (base : Nat) (units : List String) (n : Nat) : String :=
  let rec go (n : Nat) (unit : Nat) : List String → String
    | [] => ""
    | u :: rest =>
      if n < base * unit || rest.isEmpty then
        let tenths := (n * 10 + unit / 2) / unit
        if tenths < 100 then toString (tenths / 10) ++ "." ++ toString (tenths % 10) ++ " " ++ u
        else toString ((n + unit / 2) / unit) ++ " " ++ u
      else go n (unit * base) rest
  go n base units

def report (b : Blocks) (t : Tally) (outFull outPart : Nat) : Work Unit := do
  if b.status == "none" then return ()
  tell (toString t.full ++ "+" ++ toString t.part ++ " records in\n" ++ toString outFull ++ "+" ++
    toString outPart ++ " records out\n")
  if b.status == "noxfer" then return ()
  let n := toString t.bytes ++ (if t.bytes = 1 then " byte" else " bytes")
  let size := if t.bytes < 1000 then ""
    else
      let metric := short 1000 ["kB", "MB", "GB", "TB"] t.bytes
      if t.bytes < 1024 then " (" ++ metric ++ ")"
      else " (" ++ metric ++ ", " ++ short 1024 ["KiB", "MiB", "GiB", "TiB"] t.bytes ++ ")"
  tell (n ++ size ++ " copied, 0.0001 s, " ++
    (if t.bytes < 100 then toString t.bytes ++ "0.0 kB/s" else "10.0 MB/s") ++ "\n")

def run (b : Blocks) : Work Nat := do
  let failed {α : Type} (p : String) (e : FileError) : Work α :=
    refuse ("failed to open " ++ Quotation.always p ++ ": " ++ words e)
  let source ← match b.input with
    | none => pure 0
    | some p =>
      match ← Run.openFile p .reading with
      | .ok d => pure d
      | .error e => failed p e
  let appends := b.outputFlags.contains "append"
  let keeps := b.conversions.contains "notrunc" || b.seek != 0
  let dest ← match b.output with
    | none => pure 1
    | some p =>
      let mode : Kernel.Mode := {
        writes := true, appends, creates := !b.conversions.contains "nocreat"
        truncates := !keeps, onlyNew := b.conversions.contains "excl" }
      match ← Run.openFile p mode with
      | .ok d => pure d
      | .error e => failed p e
  if b.skip != 0 then
    let count := if b.inputFlags.contains "skip_bytes" then b.skip else b.skip * b.readSize
    let seekable ← Run.look fun process k => (k.position? process source).isSome
    if seekable then
      Run.change fun process k =>
        let place := (k.position? process source).getD 0 + count
        ((k.seek process source place).toOption).getD k
    else
      let _ ← fill source true maxTurns count
  let start := if b.outputFlags.contains "seek_bytes" then b.seek else b.seek * b.writeSize
  if start != 0 then
    Run.change fun process k => ((k.seek process dest start).toOption).getD k
  let (failure, t) ← copy b source dest maxTurns (b.count.getD maxTurns) {}
  let (outFull, outPart) :=
    if b.readSize = b.writeSize then
      if b.conversions.contains "sync" then (t.full + t.part, 0) else (t.full, t.part)
    else (t.bytes / b.writeSize, if t.bytes % b.writeSize = 0 then 0 else 1)
  match failure with
  | some e =>
    let p := b.input.getD "standard input"
    complain ("error reading " ++ Quotation.always p ++ ": " ++ words e)
    report b t outFull outPart
    return 1
  | none =>
    report b t outFull outPart
    return 0

end Blocks

def dd : Work Nat := do
  let o ← (Known.of "" "").read
  let b ← o.operands.foldlM Blocks.take {}
  b.run

def copiers : List Program := [
  { name := "dd", main := dd }, { name := "split", main := split }, { name := "tee", main := tee }]

end CompiledModels.Tool
