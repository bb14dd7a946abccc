import CompiledModels.Text.Quoted

/-!
What can be wrong with a name, a setting or data that a caller gave.
-/

namespace CompiledModels

inductive ConfigError
  | emptyName
  | invalidName (name : String)
  | notIdentity (key : String)
  | noHome
  | notInteger (variableName value : String)
  | notMilliseconds (variableName value : String)
  | notBoolean (variableName value : String)
  | invalidData (failure : String)
  | dataNotObject (kind : String)
  | stated (text : String)
  deriving DecidableEq

def ConfigError.text : ConfigError → String
  | .emptyName => "model name must not be empty"
  | .invalidName name =>
    "invalid model name " ++ Text.quote name ++
      ": only ASCII letters, digits, '_' and '-' are allowed"
  | .notIdentity key => "not a model identity: " ++ Text.quote key
  | .noHome => "could not determine home directory"
  | .notInteger var value => var ++ " must be an integer, got " ++ Text.quote value
  | .notMilliseconds var value =>
    var ++ " must be a number of milliseconds, got " ++ Text.quote value
  | .notBoolean var value => var ++ " must be a boolean, got " ++ Text.quote value
  | .invalidData failure => "invalid data JSON: " ++ failure
  | .dataNotObject kind => "model data must be a JSON object, got " ++ kind
  | .stated text => text

end CompiledModels
