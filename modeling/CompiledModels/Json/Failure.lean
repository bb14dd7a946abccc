/-!
Why a data text cannot be read, and where: a failure counts the bytes that were not yet consumed,
from which its line and column in the whole text follow.
-/

namespace CompiledModels.Json

inductive Found
  | null
  | bool (b : Bool)
  | integer (digits : String)
  | float (digits : String)
  | string (quoted : String)
  | list
  | object

def Found.text : Found → String
  | .null => "null"
  | .bool b => "boolean \x60" ++ toString b ++ "\x60"
  | .integer digits => "integer \x60" ++ digits ++ "\x60"
  | .float digits => "floating point \x60" ++ digits ++ "\x60"
  | .string quoted => "string " ++ quoted
  | .list => "sequence"
  | .object => "map"

inductive Reason
  | endInValue
  | endInList
  | endInObject
  | endInString
  | expectedValue
  | expectedWord
  | expectedListEnd
  | expectedObjectEnd
  | expectedColon
  | keyNotString
  | trailingComma
  | trailingCharacters
  | tooDeep
  | controlCharacter
  | invalidEscape
  | loneSurrogate
  | endOfHexEscape
  | invalidNumber
  | numberOutOfRange
  | invalidType (found : Found) (expected : String)
  | invalidValue (found : Found) (expected : String)
  | invalidLength (found : Nat) (expected : String)
  | missingField (name : String)
  | duplicateField (name : String)

def Reason.text : Reason → String
  | .endInValue => "EOF while parsing a value"
  | .endInList => "EOF while parsing a list"
  | .endInObject => "EOF while parsing an object"
  | .endInString => "EOF while parsing a string"
  | .expectedValue => "expected value"
  | .expectedWord => "expected ident"
  | .expectedListEnd => "expected \x60,\x60 or \x60]\x60"
  | .expectedObjectEnd => "expected \x60,\x60 or \x60\x7d\x60"
  | .expectedColon => "expected \x60:\x60"
  | .keyNotString => "key must be a string"
  | .trailingComma => "trailing comma"
  | .trailingCharacters => "trailing characters"
  | .tooDeep => "recursion limit exceeded"
  | .controlCharacter => "control character (\\u0000-\\u001F) found while parsing a string"
  | .invalidEscape => "invalid escape"
  | .loneSurrogate => "lone leading surrogate in hex escape"
  | .endOfHexEscape => "unexpected end of hex escape"
  | .invalidNumber => "invalid number"
  | .numberOutOfRange => "number out of range"
  | .invalidType found expected => "invalid type: " ++ found.text ++ ", expected " ++ expected
  | .invalidValue found expected => "invalid value: " ++ found.text ++ ", expected " ++ expected
  | .invalidLength found expected =>
    "invalid length " ++ toString found ++ ", expected " ++ expected
  | .missingField name => "missing field \x60" ++ name ++ "\x60"
  | .duplicateField name => "duplicate field \x60" ++ name ++ "\x60"

structure Failure where
  reason : Reason
  left : Nat

def byteCount (cs : List Char) : Nat :=
  cs.foldl (fun n c => n + c.utf8Size) 0

def Failure.at (reason : Reason) (rest : List Char) : Failure := ⟨reason, byteCount rest⟩

def Failure.next (reason : Reason) (rest : List Char) : Failure := ⟨reason, byteCount rest - 1⟩

def position : Nat → List Char → Nat × Nat
  | i, cs => go i cs 1 0
where
  go (i : Nat) (cs : List Char) (line column : Nat) : Nat × Nat :=
    match cs with
    | [] => (line, column + i)
    | c :: cs =>
      if i < c.utf8Size then (line, column + i)
      else if c = '\n' then go (i - 1) cs (line + 1) 0
      else go (i - c.utf8Size) cs line (column + c.utf8Size)

def Failure.message (f : Failure) (whole : String) : String :=
  let cs := whole.toList
  let (line, column) := position (byteCount cs - f.left) cs
  f.reason.text ++ " at line " ++ toString line ++ " column " ++ toString column

end CompiledModels.Json
