
namespace CompiledModels

abbrev Bytes := List UInt8

def Bytes.overwrite (old : Bytes) (position : Nat) (new : Bytes) : Bytes :=
  old.take position ++ List.replicate (position - old.length) 0 ++ new ++
    old.drop (position + new.length)

namespace Text

def encode (s : String) : Bytes :=
  s.toUTF8.data.toList

def decode? (bytes : Bytes) : Option String :=
  String.fromUTF8? ⟨bytes.toArray⟩

structure Lead where
  count : Nat
  low : UInt8
  high : UInt8

def Lead.ofByte? (b : UInt8) : Option Lead :=
  if b < 0x80 then some ⟨0, 0x80, 0xbf⟩
  else if b < 0xc2 then none
  else if b < 0xe0 then some ⟨1, 0x80, 0xbf⟩
  else if b = 0xe0 then some ⟨2, 0xa0, 0xbf⟩
  else if b = 0xed then some ⟨2, 0x80, 0x9f⟩
  else if b < 0xf0 then some ⟨2, 0x80, 0xbf⟩
  else if b = 0xf0 then some ⟨3, 0x90, 0xbf⟩
  else if b < 0xf4 then some ⟨3, 0x80, 0xbf⟩
  else if b = 0xf4 then some ⟨3, 0x80, 0x8f⟩
  else none

def Lead.bits (lead : Lead) (b : UInt8) : Nat :=
  match lead.count with
  | 0 => b.toNat
  | 1 => b.toNat % 0x20
  | 2 => b.toNat % 0x10
  | _ => b.toNat % 0x08

/-- Where the reader of a stream of bytes stands: between characters, or inside one, with the
bits so far and what may still follow. -/
inductive LossyState
  | between
  | inside (bits : Nat) (rest : Lead)

/-- Reads one byte: the characters that are complete after it, and the next state. A byte that
cannot continue a character closes it with U+FFFD and is read anew. -/
def LossyState.next (s : LossyState) (b : UInt8) : List Char × LossyState :=
  match s with
  | .between => fresh b
  | .inside bits lead =>
    if lead.low ≤ b && b ≤ lead.high then
      let bits := bits * 0x40 + b.toNat % 0x40
      if lead.count ≤ 1 then ([Char.ofNat bits], .between)
      else ([], .inside bits ⟨lead.count - 1, 0x80, 0xbf⟩)
    else
      let (cs, s) := fresh b
      ('\ufffd' :: cs, s)
where
  fresh (b : UInt8) : List Char × LossyState :=
    match Lead.ofByte? b with
    | none => (['\ufffd'], .between)
    | some lead =>
      if lead.count = 0 then ([Char.ofNat b.toNat], .between)
      else ([], .inside (lead.bits b) lead)

def decodeLossyFrom (s : LossyState) : Bytes → List Char
  | [] =>
    match s with
    | .between => []
    | .inside .. => ['\ufffd']
  | b :: bs =>
    let (cs, s) := s.next b
    cs ++ decodeLossyFrom s bs

def decodeLossy (bytes : Bytes) : String :=
  String.ofList (decodeLossyFrom .between bytes)

def octets (bytes : Bytes) : String := String.ofList (bytes.map fun b => Char.ofNat b.toNat)

def octetBytes (s : String) : Bytes := s.toList.map fun c => UInt8.ofNat c.toNat

def isAscii (s : String) : Bool := s.toList.all fun c => c.toNat < 0x80

def toOctets (s : String) : String := if isAscii s then s else octets (encode s)

def ofOctets (s : String) : String := if isAscii s then s else decodeLossy (octetBytes s)

def hexDigit (n : Nat) : Char :=
  Char.ofNat (if n < 10 then 0x30 + n else 0x57 + n)

def hexValue? (c : Char) : Option Nat :=
  if '0' ≤ c ∧ c ≤ '9' then some (c.toNat - 0x30)
  else if 'a' ≤ c ∧ c ≤ 'f' then some (c.toNat - 0x57)
  else if 'A' ≤ c ∧ c ≤ 'F' then some (c.toNat - 0x37)
  else none

def hexOfBytes (bytes : Bytes) : String :=
  String.ofList (bytes.flatMap fun b => [hexDigit (b.toNat / 16), hexDigit (b.toNat % 16)])

def hexDigits : Nat → Nat → List Char
  | 0, _ => []
  | count + 1, n => hexDigits count (n / 16) ++ [hexDigit (n % 16)]

def hexNumber? (cs : List Char) : Option Nat :=
  if cs.isEmpty then none
  else cs.foldl (fun acc c => acc.bind fun n => (hexValue? c).map (n * 16 + ·)) (some 0)

def bytesOfHex? : List Char → Option Bytes
  | [] => some []
  | a :: b :: cs => do
    let hi ← hexValue? a
    let lo ← hexValue? b
    let rest ← bytesOfHex? cs
    some (UInt8.ofNat (hi * 16 + lo) :: rest)
  | [_] => none

end Text

end CompiledModels
