import CompiledModels.Number.Layout
import CompiledModels.Text.Utf8

/-!
Values of data texts and their compact form. The fields of an object are kept in ascending order
of their keys, and a later field replaces an earlier one of the same key.
-/

namespace CompiledModels.Json

inductive Number
  | natural (n : UInt64)
  | negative (n : Fin (2 ^ 63))
  | float (x : Binary64)
  deriving DecidableEq

inductive Value
  | null
  | bool (b : Bool)
  | number (n : Number)
  | string (s : String)
  | list (items : List Value)
  | object (fields : List (String × Value))

instance : Inhabited Value := ⟨.null⟩

/-- Puts a field where its key belongs, in the place of a field of the same key if there is one.
Keys are compared by their characters, which is the order of their encoded bytes. -/
def insertField (key : String) (v : Value) : List (String × Value) → List (String × Value)
  | [] => [(key, v)]
  | (k, w) :: fields =>
    if key < k then (key, v) :: (k, w) :: fields
    else if key = k then (key, v) :: fields
    else (k, w) :: insertField key v fields

def Value.ofFields (fields : List (String × Value)) : Value :=
  .object (fields.foldl (fun acc f => insertField f.1 f.2 acc) [])

def lookup (key : String) (fields : List (String × Value)) : Option Value :=
  (fields.find? (·.1 = key)).map (·.2)

def Value.field? (v : Value) (key : String) : Option Value :=
  match v with
  | .object fields => lookup key fields
  | _ => none

def Number.text : Number → String
  | .natural n => toString n.toNat
  | .negative n => "-" ++ toString (n.val + 1)
  | .float x => x.dataText

/-- How `c` is written in a string: short escapes where there are any, `\u` and four digits for
the other controls, all else as it is. -/
def escapeChar (c : Char) : List Char :=
  match c with
  | '"' => ['\\', '"']
  | '\\' => ['\\', '\\']
  | '\x08' => ['\\', 'b']
  | '\x0c' => ['\\', 'f']
  | '\n' => ['\\', 'n']
  | '\r' => ['\\', 'r']
  | '\t' => ['\\', 't']
  | c =>
    if c.toNat < 0x20 then
      ['\\', 'u', '0', '0', if c.toNat < 0x10 then '0' else '1',
        Text.hexDigit (c.toNat % 0x10)]
    else [c]

def stringText (s : String) : List Char :=
  '"' :: s.toList.flatMap escapeChar ++ ['"']

mutual

def Value.chars : Value → List Char
  | .null => "null".toList
  | .bool true => "true".toList
  | .bool false => "false".toList
  | .number n => n.text.toList
  | .string s => stringText s
  | .list items => '[' :: itemsChars items
  | .object fields => '{' :: fieldsChars fields

def itemsChars : List Value → List Char
  | [] => [']']
  | [v] => v.chars ++ [']']
  | v :: vs => v.chars ++ ',' :: itemsChars vs

def fieldsChars : List (String × Value) → List Char
  | [] => ['}']
  | [(k, v)] => stringText k ++ ':' :: v.chars ++ ['}']
  | (k, v) :: fields => stringText k ++ ':' :: v.chars ++ ',' :: fieldsChars fields

end

def Value.text (v : Value) : String := String.ofList v.chars

end CompiledModels.Json
