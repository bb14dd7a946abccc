import CompiledModels.Text.Blank

/-!
Paths: a text that the user gave, and names that were joined to it. The text of a path keeps what
the user wrote; two paths are the same if their components are.
-/

namespace CompiledModels

inductive Component
  | root
  | here
  | up
  | name (s : String)
  deriving DecidableEq

/-- `base` followed by `tail`, whose members are plain names: not empty, no slash in them, and
neither `.` nor `..`. -/
structure Path where
  base : String
  tail : List String
  deriving DecidableEq

namespace Path

def ofText (s : String) : Path := ⟨s, []⟩

def join (p : Path) (name : String) : Path := ⟨p.base, p.tail ++ [name]⟩

def joinText (dir name : String) : String :=
  if dir.isEmpty || dir.endsWith "/" then dir ++ name else dir ++ "/" ++ name

def text (p : Path) : String := p.tail.foldl joinText p.base

def isAbsolute (p : Path) : Bool := p.base.startsWith "/"

def segments (s : String) : List String :=
  (Text.splitAll (· == '/') s.toList).map String.ofList

def componentOfSegment? (s : String) : Option Component :=
  if s = "" ∨ s = "." then none else if s = ".." then some .up else some (.name s)

def textComponents (s : String) : List Component :=
  let parts := segments s
  let first :=
    if s.startsWith "/" then [.root] else if parts.head? = some "." then [.here] else []
  first ++ parts.filterMap componentOfSegment?

def components (p : Path) : List Component :=
  textComponents p.base ++ p.tail.map .name

def same (p q : Path) : Bool := p.components = q.components

def fileName? (p : Path) : Option String :=
  match p.components.getLast? with
  | some (.name s) => some s
  | _ => none

/-- The part of a file name behind its last dot; a name that only starts with a dot has none. -/
def extensionOfName? (name : String) : Option String :=
  let parts := Text.splitAll (· == '.') name.toList
  let stem := parts.dropLast
  if stem.isEmpty ∨ stem = [[]] then none else (parts.getLast?).map String.ofList

def extension? (p : Path) : Option String := p.fileName?.bind extensionOfName?

def textParent? (s : String) : Option String :=
  let absolute := s.startsWith "/"
  let parts := (segments s).reverse.dropWhile fun s => s = "" ∨ s = "."
  match parts with
  | [] => if absolute ∨ s.isEmpty then none else some ""
  | _ :: rest =>
    let dir := "/".intercalate (rest.dropWhile (· = "")).reverse
    some (if dir.isEmpty ∧ absolute then "/" else dir)

def parent? (p : Path) : Option Path :=
  match p.tail with
  | [] => (textParent? p.base).map ofText
  | tail => some ⟨p.base, tail.dropLast⟩

def inDirectory (dir p : Path) : Path :=
  if p.isAbsolute then p
  else if p.base.isEmpty then ⟨dir.text, p.tail⟩
  else ⟨joinText dir.text p.base, p.tail⟩

end Path

end CompiledModels
