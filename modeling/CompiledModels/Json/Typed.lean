import CompiledModels.Json.Skip
import CompiledModels.Text.Quoted

/-!
Reading where a value of a certain type is expected: strings, bounded naturals and lists of
strings. A value of another type is read to its end and named in the failure, a list or an object
is named where it opens.
-/

namespace CompiledModels.Json

def Number.found : Number → Found
  | .natural n => .integer (toString n.toNat)
  | .negative n => .integer ("-" ++ toString (n.val + 1))
  | .float x => .float x.dataText

def wrongType (expected : String) (cs : List Char) : Failure :=
  let named (found : Found) (rest : List Char) : Failure := .at (.invalidType found expected) rest
  let word (found : Found) (rest : Except Failure (List Char)) : Failure :=
    match rest with
    | .ok rest => named found rest
    | .error f => f
  match cs with
  | [] => .next .endInValue []
  | 'n' :: cs => word .null (readWord ['u', 'l', 'l'] cs)
  | 't' :: cs => word (.bool true) (readWord ['r', 'u', 'e'] cs)
  | 'f' :: cs => word (.bool false) (readWord ['a', 'l', 's', 'e'] cs)
  | '"' :: cs =>
    match readString cs with
    | .ok (s, rest) => named (.string (Text.quote s)) rest
    | .error f => f
  | '[' :: _ => named .list cs
  | '{' :: _ => named .object cs
  | c :: _ =>
    if c = '-' ∨ c.isDigit then
      match readNumber cs with
      | .ok (n, rest) => named n.found rest
      | .error f => f
    else .next .expectedValue cs

def readText (cs : List Char) : Except Failure (String × List Char) :=
  match skipSpace cs with
  | '"' :: cs => readString cs
  | cs => .error (wrongType "a string" cs)

def readUnsigned (bits : Nat) (cs : List Char) : Except Failure (Nat × List Char) :=
  let expected := "u" ++ toString bits
  match skipSpace cs with
  | c :: cs =>
    if c = '-' ∨ c.isDigit then do
      match ← readNumber (c :: cs) with
      | (.natural n, rest) =>
        if n.toNat < 2 ^ bits then return (n.toNat, rest)
        else throw (.at (.invalidValue (.integer (toString n.toNat)) expected) rest)
      | (.negative n, rest) => throw (.at (.invalidValue (Number.negative n).found expected) rest)
      | (.float x, rest) => throw (.at (.invalidType (Number.float x).found expected) rest)
    else .error (wrongType expected (c :: cs))
  | [] => .error (wrongType expected [])

def readStrings (s : String) : Except Failure (List String) := do
  match skipSpace s.toList with
  | '[' :: cs =>
    let (names, cs) ← readItems readText (cs.length + 1) true cs
    readEnd cs
    return names
  | cs => throw (wrongType "a sequence" cs)

end CompiledModels.Json
