import CompiledModels.Text.Blank

namespace CompiledModels

structure CharSet where
  negated : Bool
  ranges : List (Char × Char)
  deriving DecidableEq

namespace CharSet

def contains (s : CharSet) (c : Char) : Bool :=
  s.negated != s.ranges.any fun r => r.1 ≤ c && c ≤ r.2

def classes : List (String × List (Char × Char)) := [
  ("alpha", [('a', 'z'), ('A', 'Z')]), ("digit", [('0', '9')]),
  ("alnum", [('a', 'z'), ('A', 'Z'), ('0', '9')]), ("upper", [('A', 'Z')]),
  ("lower", [('a', 'z')]), ("space", [('\t', '\x0d'), (' ', ' ')]),
  ("blank", [('\t', '\t'), (' ', ' ')]),
  ("punct", [('!', '/'), (':', '@'), ('[', '\x60'), ('\x7b', '~')]),
  ("cntrl", [('\x00', '\x1f'), ('\x7f', '\x7f')]), ("graph", [('!', '~')]),
  ("print", [(' ', '~')]), ("xdigit", [('0', '9'), ('a', 'f'), ('A', 'F')])]

def class? (name : String) : Option (List (Char × Char)) :=
  (classes.find? (·.1 = name)).map (·.2)

def ofClass (name : String) : List (Char × Char) := (class? name).getD []

end CharSet

end CompiledModels
