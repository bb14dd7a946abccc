import CompiledModels.Json.Value

/-!
Taking out of a value what should be there. Where something else or nothing is there, the answer
is the empty text, zero, false or the empty list.
-/

namespace CompiledModels.Json

def Number.toBinary64 : Number → Binary64
  | .natural n => .ofNat n.toNat
  | .negative n => (Binary64.ofNat (n.val + 1)).negate
  | .float x => x

namespace Value

def get (v : Value) (key : String) : Value := (v.field? key).getD .null

def given? (v : Value) (key : String) : Option Value :=
  match v.field? key with
  | some .null => none
  | other => other

def string? : Value → Option String
  | string s => some s
  | _ => none

def asText (v : Value) : String := v.string?.getD ""

def asNatural : Value → Nat
  | number (.natural n) => n.toNat
  | _ => 0

def asInteger : Value → Int
  | number (.natural n) => n.toNat
  | number (.negative n) => -(n.val + 1 : Int)
  | _ => 0

def asBool : Value → Bool
  | bool b => b
  | _ => false

def asItems : Value → List Value
  | list items => items
  | _ => []

def asTexts (v : Value) : List String := v.asItems.filterMap string?

def asFields : Value → List (String × Value)
  | object fields => fields
  | _ => []

def asBinary64 : Value → Binary64
  | number n => n.toBinary64
  | string "inf" => .positiveInfinity
  | string "-inf" => Binary64.positiveInfinity.negate
  | string "nan" => .quietNaN
  | string s => ⟨UInt64.ofNat ((Text.hexNumber? s.toList).getD 0)⟩
  | _ => .zero

def asBytes (v : Value) : Bytes :=
  match v.given? "hex" with
  | some digits => (Text.bytesOfHex? digits.asText.toList).getD []
  | none => Text.encode (v.get "text").asText

end Value

end CompiledModels.Json
