import CompiledModels.Tool.Amount

namespace CompiledModels.Tool

open Work

structure Alphabet where
  chars : List Char
  bits : Nat
  bytes : Nat

namespace Alphabet

def base64 : Alphabet :=
  ⟨"ABCDEFGHIJKLMNOPQRSTUVWXYZabcdefghijklmnopqrstuvwxyz0123456789+/".toList, 6, 3⟩

def base32 : Alphabet := ⟨"ABCDEFGHIJKLMNOPQRSTUVWXYZ234567".toList, 5, 5⟩

variable (a : Alphabet)

def groupLength : Nat := a.bytes * 8 / a.bits

def encodeGroup (group : List Nat) : List Char :=
  let n := (group ++ List.replicate (a.bytes - group.length) 0).foldl (fun n b => n * 256 + b) 0
  let used := (group.length * 8 + a.bits - 1) / a.bits
  (List.range a.groupLength).map fun i =>
    if i < used then a.chars.getD (n / 2 ^ (a.bits * (a.groupLength - 1 - i)) % 2 ^ a.bits) '='
    else '='

def encode : Nat → List Nat → List Char
  | 0, _ => []
  | _, [] => []
  | fuel + 1, bytes => a.encodeGroup (bytes.take a.bytes) ++ encode fuel (bytes.drop a.bytes)

def decodeGroup (group : List Char) : List Nat × Bool :=
  let values := (group.takeWhile fun c => a.chars.contains c).map fun c =>
    (a.chars.findIdx? (· == c)).getD 0
  let rest := group.drop values.length
  let count := values.length * a.bits / 8
  let n := values.foldl (fun n v => n * 2 ^ a.bits + v) 0 / 2 ^ (values.length * a.bits % 8)
  let bytes := (List.range count).map fun i => n / 256 ^ (count - 1 - i) % 256
  let proper := group.length = a.groupLength && rest.all (· == '=') &&
    values.length = (count * 8 + a.bits - 1) / a.bits && 0 < count
  (bytes, proper)

def decode : Nat → List Char → List Nat × Bool
  | 0, _ => ([], true)
  | _, [] => ([], true)
  | fuel + 1, cs =>
    let (bytes, proper) := a.decodeGroup (cs.take a.groupLength)
    if !proper then (bytes, false)
    else
      let (more, proper) := decode fuel (cs.drop a.groupLength)
      (bytes ++ more, proper)

def rows (width : Nat) : Nat → List Char → List String
  | 0, _ => []
  | _, [] => []
  | fuel + 1, cs => String.ofList (cs.take width ++ ['\n']) :: rows width fuel (cs.drop width)

def main : Work Nat := do
  let o ← (Known.of "diw:" "decode/d ignore-garbage/i wrap=w").read
  let width ← match o.text? 'w' with
    | none => pure 76
    | some s =>
      match s.toNat? with
      | some n => pure n
      | none => refuse ("invalid wrap size: " ++ Quotation.word s)
  match o.operands with
  | _ :: extra :: _ => misuse ("extra operand " ++ Quotation.always extra)
  | _ => pure ()
  let p := o.operands.headD "-"
  match ← contents p with
  | .error e => refuse (Quotation.subject p ++ ": " ++ words e)
  | .ok s =>
    if o.has 'd' then
      let cs := s.toList.filter fun c =>
        c != '\n' && (!o.has 'i' || c == '=' || a.chars.contains c)
      let (bytes, proper) := a.decode cs.length cs
      putChars (bytes.map Char.ofNat)
      if !proper then refuse "invalid input"
    else
      let cs := a.encode s.length (s.toList.map Char.toNat)
      if width = 0 then putChars cs else each put (rows width cs.length cs)
    return 0

end Alphabet

def encoders : List Program := [
  { name := "base64", main := Alphabet.base64.main },
  { name := "base32", main := Alphabet.base32.main }]

end CompiledModels.Tool
