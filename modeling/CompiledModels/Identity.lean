import CompiledModels.ConfigError

/-!
Identities of models: names that are safe as file names, and the keys under which entries are
kept.
-/

namespace CompiledModels

def isNameChar (c : Char) : Bool := c.isAlphanum || c == '_' || c == '-'

def IsSafeName (s : String) : Prop := s ≠ "" ∧ s.toList.all isNameChar = true

instance (s : String) : Decidable (IsSafeName s) :=
  inferInstanceAs (Decidable (_ ∧ _))

structure ModelIdentity where
  name : String
  safe : IsSafeName name
  deriving DecidableEq

namespace ModelIdentity

def modelNamespace : String := "model"

def ofName (s : String) : Except ConfigError ModelIdentity :=
  if h : IsSafeName s then .ok ⟨s, h⟩
  else if s = "" then .error .emptyName
  else .error (.invalidName s)

def splitAtSlash : List Char → Option (List Char × List Char)
  | [] => none
  | c :: cs =>
    if c = '/' then some ([], cs) else (splitAtSlash cs).map fun (a, b) => (c :: a, b)

def ofKey (k : String) : Except ConfigError ModelIdentity :=
  match splitAtSlash k.toList with
  | some (space, name) =>
    if String.ofList space = modelNamespace then ofName (String.ofList name)
    else .error (.notIdentity k)
  | none => .error (.notIdentity k)

def key (id : ModelIdentity) : String := modelNamespace ++ "/" ++ id.name

instance : ToString ModelIdentity := ⟨key⟩

/-- The name that the translator is given: an identifier, made of the name by writing `_` for
`-` and in front of a digit. -/
def translatorName (id : ModelIdentity) : String :=
  let cs := id.name.toList.map fun c => if c = '-' then '_' else c
  let cs := match cs with
    | c :: _ => if c.isDigit then '_' :: cs else cs
    | [] => cs
  String.ofList cs ++ "_model"

def before (a b : ModelIdentity) : Bool := a.name < b.name

def insertSorted (a : ModelIdentity) : List ModelIdentity → List ModelIdentity
  | [] => [a]
  | b :: bs => if b.before a then b :: insertSorted a bs else a :: b :: bs

def sort (ids : List ModelIdentity) : List ModelIdentity := ids.foldr insertSorted []

def dropRepeats : List ModelIdentity → List ModelIdentity
  | a :: b :: bs => if a = b then dropRepeats (b :: bs) else a :: dropRepeats (b :: bs)
  | ids => ids

end ModelIdentity

end CompiledModels
