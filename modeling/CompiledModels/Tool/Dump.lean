import CompiledModels.Tool.Amount

namespace CompiledModels.Tool

open Kernel (Run)
open Work

inductive DumpKind
  | names
  | chars
  | octal
  | signed
  | unsigned
  | hex
  deriving DecidableEq

structure DumpForm where
  kind : DumpKind
  size : Nat
  trailed : Bool := false

namespace DumpForm

def names : List String := [
  "nul", "soh", "stx", "etx", "eot", "enq", "ack", "bel", "bs", "ht", "nl", "vt", "ff", "cr", "so",
  "si", "dle", "dc1", "dc2", "dc3", "dc4", "nak", "syn", "etb", "can", "em", "sub", "esc", "fs",
  "gs", "rs", "us", "sp"]

variable (f : DumpForm)

def width : Nat :=
  let most := 256 ^ f.size
  match f.kind with
  | .names => 3
  | .chars => 3
  | .octal => (Nat.toDigits 8 (most - 1)).length
  | .unsigned => (Nat.toDigits 10 (most - 1)).length
  | .signed => (Nat.toDigits 10 (most / 2)).length + 1
  | .hex => 2 * f.size

def charText (n : Nat) : String :=
  let c := Char.ofNat n
  if n = 0 then "\\0"
  else match Quotation.letter? c with
    | some l => "\\" ++ l.toString
    | none => if Quotation.isVisible c then c.toString else Quotation.octal c

def nameText (n : Nat) : String :=
  let n := n % 128
  if n = 127 then "del" else names.getD n (Char.ofNat n).toString

def digits (base width n : Nat) : String :=
  let ds := Nat.toDigits base n
  String.ofList (List.replicate (width - ds.length) '0' ++ ds)

def text (bytes : List Nat) : String :=
  let n := bytes.foldr (fun b n => n * 256 + b) 0
  match f.kind with
  | .names => nameText n
  | .chars => charText n
  | .octal => digits 8 f.width n
  | .hex => digits 16 f.width n
  | .unsigned => toString n
  | .signed =>
    let most := 256 ^ f.size
    if n < most / 2 then toString n else "-" ++ toString (most - n)

end DumpForm

structure Dump where
  forms : List DumpForm
  address : Option (Nat × Nat)
  row : Nat
  all : Bool
  bigEndian : Bool

namespace Dump

variable (d : Dump)

def addressText (n : Nat) : String :=
  match d.address with
  | some (base, width) => DumpForm.digits base width n
  | none => ""

def groups (size : Nat) : Nat → List Nat → List (List Nat)
  | 0, _ => []
  | _, [] => []
  | fuel + 1, bytes =>
    let group := bytes.take size
    (group ++ List.replicate (size - group.length) 0) :: groups size fuel (bytes.drop size)

def rowWidth : Nat := (d.forms.map fun f => (f.width + 1) * (d.row / f.size)).foldl max 0

def rowText (f : DumpForm) (bytes : List Nat) : String :=
  let fields := d.row / f.size
  let pad := d.rowWidth - f.width * fields
  -- The blanks are spread over all fields.
  let before (i : Nat) : Nat := pad * (fields - i) / fields - pad * (fields - i - 1) / fields
  let groups := groups f.size bytes.length bytes
  let shown := groups.mapIdx fun i g =>
    Text.alignRight (before i + f.width) (f.text (if d.bigEndian then g.reverse else g))
  let trail :=
    if f.trailed then
      let missing := (List.range fields).drop groups.length
      let blanks := missing.foldl (fun n i => n + before i + f.width) 0
      String.ofList (List.replicate blanks ' ') ++ "  >" ++
        String.ofList (bytes.map fun b =>
          let c := Char.ofNat b
          if Quotation.isVisible c then c else '.') ++ "<"
    else ""
  String.join shown ++ trail

def rowLines (place : Nat) (bytes : List Nat) : String :=
  let front := d.addressText place
  let blank := String.ofList (List.replicate front.length ' ')
  String.join (d.forms.mapIdx fun i f =>
    (if i = 0 then front else blank) ++ d.rowText f bytes ++ "\n")

def showRows (previous : Option (List Nat)) (starred : Bool) (place : Nat) :
    Nat → List Nat → Work Nat
  | 0, _ => return place
  | _, [] => return place
  | fuel + 1, bytes => do
    let row := bytes.take d.row
    let next := place + row.length
    if !d.all && previous = some row && row.length = d.row then
      if !starred then putLine "*"
      showRows previous true next fuel (bytes.drop d.row)
    else
      put (d.rowLines place row)
      showRows (some row) false next fuel (bytes.drop d.row)

end Dump

namespace DumpForm

def readSize (word : String) (cs : List Char) : Work (Nat × List Char) := do
  match cs with
  | 'C' :: rest => return (1, rest)
  | 'S' :: rest => return (2, rest)
  | 'I' :: rest => return (4, rest)
  | 'L' :: rest => return (8, rest)
  | _ =>
    let digits := cs.takeWhile Char.isDigit
    if digits.isEmpty then return (4, cs)
    let n := (String.ofList digits).toNat?.getD 0
    if [1, 2, 4, 8].contains n then return (n, cs.drop digits.length)
    else
      complain ("invalid type string " ++ Quotation.word word ++
        ";\nthis system doesn't provide a " ++ toString n ++ "-byte integral type")
      finish 1

def read (word : String) : Nat → List Char → Work (List DumpForm)
  | 0, _ => return []
  | _, [] => return []
  | fuel + 1, c :: cs => do
    let complete (kind : DumpKind) (size : Nat) (rest : List Char) : Work (List DumpForm) := do
      match rest with
      | 'z' :: rest => return ⟨kind, size, true⟩ :: (← read word fuel rest)
      | _ => return ⟨kind, size, false⟩ :: (← read word fuel rest)
    let sized (kind : DumpKind) : Work (List DumpForm) := do
      let (size, rest) ← readSize word cs
      complete kind size rest
    match c with
    | 'a' => complete .names 1 cs
    | 'c' => complete .chars 1 cs
    | 'd' => sized .signed
    | 'o' => sized .octal
    | 'u' => sized .unsigned
    | 'x' => sized .hex
    | c =>
      refuse ("invalid character '" ++ c.toString ++ "' in type string " ++ Quotation.word word)

def ofLetter? (c : Char) : Option DumpForm :=
  match c with
  | 'a' => some ⟨.names, 1, false⟩
  | 'b' => some ⟨.octal, 1, false⟩
  | 'c' => some ⟨.chars, 1, false⟩
  | 'd' => some ⟨.unsigned, 2, false⟩
  | 'i' => some ⟨.signed, 4, false⟩
  | 'l' => some ⟨.signed, 8, false⟩
  | 'o' => some ⟨.octal, 2, false⟩
  | 's' => some ⟨.signed, 2, false⟩
  | 'x' => some ⟨.hex, 2, false⟩
  | 'B' => some ⟨.octal, 2, false⟩
  | 'D' => some ⟨.unsigned, 4, false⟩
  | 'h' => some ⟨.hex, 2, false⟩
  | 'H' => some ⟨.hex, 4, false⟩
  | 'I' => some ⟨.signed, 8, false⟩
  | 'L' => some ⟨.signed, 8, false⟩
  | 'O' => some ⟨.octal, 4, false⟩
  | 'X' => some ⟨.hex, 4, false⟩
  | _ => none

end DumpForm

def odOptions : Known :=
  .of "A:j:N:t:vw::abcdilosxBDhHILOX" ("skip-bytes=j address-radix=A read-bytes=N format=t " ++
    "output-duplicates/v width?w endian=E")

def odAmount (c : Char) (s : String) : Work Nat := do
  let cs := s.toList
  let fail {α : Type} : Work α := do
    let what := if cs.head?.any Char.isDigit then "invalid suffix in -" else "invalid -"
    refuse (what ++ c.toString ++ " argument " ++ Quotation.word s)
  match cs with
  | '0' :: 'x' :: digits =>
    match Text.hexNumber? digits with
    | some n => return n
    | none => fail
  | _ =>
    let digits := cs.takeWhile Char.isDigit
    if digits.isEmpty then fail
    let base := if digits.head? == some '0' then 8 else 10
    let n := digits.foldl (fun n d => n * base + (d.toNat - 0x30)) 0
    match Amount.factor? (cs.drop digits.length) with
    | some f => return n * f
    | none => fail

def odContents : List String → Work (List String)
  | [] => return []
  | p :: rest => do
    match ← contents p with
    | .ok s => return s :: (← odContents rest)
    | .error e =>
      fault (Quotation.subject p ++ ": " ++ words e)
      let rest ← odContents rest
      return if e = .os .isDirectory then "" :: rest else rest

def odFront (most : Nat) : List String → Work (List String)
  | [] => return []
  | p :: rest => do
    if most = 0 then return [""]
    match ← openInput p with
    | .error e =>
      fault (Quotation.subject p ++ ": " ++ words e)
      odFront most rest
    | .ok d =>
      let rec go (most : Nat) : Nat → Work (List String × Nat)
        | 0 => return ([], most)
        | turns + 1 => do
          if most = 0 then return ([], 0)
          match ← Run.read d (min most Run.blockSize) with
          | .error e =>
            fault (Quotation.subject p ++ ": " ++ words e)
            return ([], most)
          | .ok [] => return ([], most)
          | .ok bytes =>
            let (parts, most) ← go (most - bytes.length) turns
            return (Text.octets bytes :: parts, most)
      let (parts, most) ← go most 1000000
      closeInput d
      return "" :: parts ++ (← odFront most rest)

def commonWidth (forms : List DumpForm) : Nat := (forms.map (·.size)).foldl Nat.lcm 1

def od : Work Nat := do
  let o ← odOptions.read
  let address ← match o.text? 'A' with
    | none => pure (some (8, 7))
    | some "d" => pure (some (10, 7))
    | some "o" => pure (some (8, 7))
    | some "x" => pure (some (16, 6))
    | some "n" => pure none
    | some s => refuse ("invalid output address radix " ++ Quotation.word s ++
        "; it must be one character from [doxn]")
  let skip ← match o.text? 'j' with
    | some s => odAmount 'j' s
    | none => pure 0
  let most ← match o.text? 'N' with
    | some s => some <$> odAmount 'N' s
    | none => pure none
  let forms ← o.given.foldlM (fun forms g => do
    if g.letter == 't' then
      let word := g.text.getD ""
      return forms ++ (← DumpForm.read word (word.length + 1) word.toList)
    else return forms ++ (DumpForm.ofLetter? g.letter).toList) []
  let forms := if forms.isEmpty then [⟨.octal, 2, false⟩] else forms
  let common := commonWidth forms
  let row ← match (o.given.reverse.find? (·.letter = 'w')).map (·.text) with
    | none => pure (if common < 16 then common * (16 / common) else common)
    | some text => do
      let n ← match text with
        | some s => odAmount 'w' s
        | none => pure 32
      if n = 0 || n % common != 0 then
        complain ("warning: invalid width " ++ toString n ++ "; using " ++ toString common ++
          " instead")
        pure common
      else pure n
  let files := orInput o.operands
  let parts ← match most with
    | none => odContents files
    | some n => odFront (skip + n) files
  if parts.isEmpty then return (← get).status
  let bytes := (String.join parts).toList.map Char.toNat
  if bytes.length < skip then
    complain "cannot skip past end of combined input"
    return 1
  let d : Dump := { forms, address, row, all := o.has 'v', bigEndian := o.text? 'E' == some "big" }
  let shown := bytes.drop skip
  let place ← d.showRows none false skip (shown.length + 1) shown
  if address.isSome then putLine (d.addressText place)
  return (← get).status

def dumpers : List Program := [{ name := "od", main := od }]

end CompiledModels.Tool
