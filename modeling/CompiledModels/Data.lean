import CompiledModels.ConfigError
import CompiledModels.Json.Reader

/-!
The data that a model is instantiated with: an object, and its compact text, in which it is
handed to modules.
-/

namespace CompiledModels

structure ModelData where
  fields : List (String × Json.Value)

namespace ModelData

def empty : ModelData := ⟨[]⟩

def isEmpty (d : ModelData) : Bool := d.fields.isEmpty

def text (d : ModelData) : String := (Json.Value.object d.fields).text

def get? (d : ModelData) (name : String) : Option Json.Value := Json.lookup name d.fields

def keys (d : ModelData) : List String := d.fields.map (·.1)

def ofValue : Json.Value → Except ConfigError ModelData
  | .object fields => .ok ⟨fields⟩
  | .null => .ok empty
  | .bool _ => .error (.dataNotObject "a boolean")
  | .number _ => .error (.dataNotObject "a number")
  | .string _ => .error (.dataNotObject "a string")
  | .list _ => .error (.dataNotObject "an array")

def ofText (s : String) : Except ConfigError ModelData :=
  match Json.read s with
  | .ok v => ofValue v
  | .error f => .error (.invalidData (f.message s))

end ModelData

end CompiledModels
