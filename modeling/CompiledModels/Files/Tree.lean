import CompiledModels.Files.Error
import CompiledModels.Files.Path
import CompiledModels.Text.Utf8

/-!
The file tree as a finite map from locations to nodes, and how a path is followed to a location
through directories and links.
-/

namespace CompiledModels.Files

abbrev Location := List String

structure Content where
  bytes : Bytes
  zeros : Nat := 0
  deriving DecidableEq

namespace Content

def empty : Content := ⟨[], 0⟩

def size (c : Content) : Nat := c.bytes.length + c.zeros

def all (c : Content) : Bytes := c.bytes ++ List.replicate c.zeros 0

/-- Puts `bytes` over what stands at `position`; a gap before it is filled with zeros. -/
def write (c : Content) (position : Nat) (bytes : Bytes) : Content :=
  ⟨Bytes.overwrite c.all position bytes, 0⟩

def resize (c : Content) (size : Nat) : Content :=
  if size ≤ c.bytes.length then ⟨c.bytes.take size, 0⟩ else ⟨c.bytes, size - c.bytes.length⟩

end Content

inductive Node
  | file (number : Nat) (content : Content) (executable : Bool)
  | directory
  | link (target : String)
  | other
  deriving DecidableEq

namespace Node

def isDirectory : Node → Bool
  | .directory => true
  | _ => false

def isFile : Node → Bool
  | .file .. => true
  | _ => false

def isLink : Node → Bool
  | .link _ => true
  | _ => false

end Node

structure DirectoryEntry where
  name : String
  isDirectory : Bool
  deriving DecidableEq

structure Tree where
  entries : List (Location × Node)
  nextNumber : Nat

namespace Tree

def empty : Tree := ⟨[], 0⟩

def get? (t : Tree) (l : Location) : Option Node :=
  if l = [] then some .directory else (t.entries.find? (·.1 = l)).map (·.2)

def erase (t : Tree) (l : Location) : Tree :=
  { t with entries := t.entries.filter (·.1 ≠ l) }

def insert (t : Tree) (l : Location) (n : Node) : Tree :=
  { t with entries := (t.entries.filter (·.1 ≠ l)) ++ [(l, n)] }

def insertFile (t : Tree) (l : Location) (c : Content) (executable : Bool) : Tree :=
  let t' := t.insert l (.file t.nextNumber c executable)
  { t' with nextNumber := t.nextNumber + 1 }

def setFile (t : Tree) (number : Nat) (c : Content) (executable : Bool) : Tree :=
  { t with entries := t.entries.map fun e => match e.2 with
      | .file n _ _ => if n = number then (e.1, .file n c executable) else e
      | _ => e }

def childName? (dir l : Location) : Option String :=
  match dir, l with
  | [], [name] => some name
  | d :: dir, s :: l => if d = s then childName? dir l else none
  | _, _ => none

def children (t : Tree) (dir : Location) : List DirectoryEntry :=
  t.entries.filterMap fun e => (childName? dir e.1).map fun name => ⟨name, e.2.isDirectory⟩

def move (t : Tree) (a b : Location) : Tree :=
  { t with entries := (t.entries.filter (·.1 ≠ b)).map fun e =>
      if a.isPrefixOf e.1 then (b ++ e.1.drop a.length, e.2) else e }

def maxNameLength : Nat := 255

inductive Descent
  | reached (l : Location)
  | through (dir : Location) (target : String) (rest : List String)
  | failed (e : Errno)

/-- Follows `segments` from the directory `dir`, up to the first link that has to be followed:
one before the last name, or also the last one if `follow`. -/
def descend (t : Tree) (follow : Bool) (dir : Location) : List String → Descent
  | [] => .reached dir
  | s :: rest =>
    if s = "" ∨ s = "." then descend t follow dir rest
    else if s = ".." then descend t follow dir.dropLast rest
    else if maxNameLength < s.utf8ByteSize then .failed .nameTooLong
    else
      let l := dir ++ [s]
      match t.get? l with
      | some .directory => descend t follow l rest
      | some (.link target) =>
        if rest = [] ∧ !follow then .reached l else .through dir target rest
      | some _ => if rest = [] then .reached l else .failed .notDirectory
      | none => if rest.all (fun s => s = "" ∨ s = ".") then .reached l else .failed .noEntry

def resolveFrom (t : Tree) (follow : Bool) : Nat → Location → List String → Except Errno Location
  | links, dir, segments =>
    match t.descend follow dir segments with
    | .reached l => .ok l
    | .failed e => .error e
    | .through dir target rest =>
      match links with
      | 0 => .error .tooManyLinks
      | links + 1 =>
        let start := if target.startsWith "/" then [] else dir
        resolveFrom t follow links start (Path.segments target ++ rest)

def maxLinks : Nat := 40

def maxPathLength : Nat := 4096

def demandsDirectory (p : Path) : Bool :=
  p.tail.isEmpty && ["", ".", ".."].contains ((Path.segments p.base).getLast?.getD "")

def resolve (t : Tree) (cwd : Location) (follow : Bool) (p : Path) : Except FileError Location :=
  if p.base.toList.any (· == '\x00') then .error .nulInName
  else if p.base.isEmpty ∧ p.tail.isEmpty then .error (.os .noEntry)
  else if maxPathLength ≤ p.text.utf8ByteSize then .error (.os .nameTooLong)
  else
    let follow := follow || demandsDirectory p
    let start := if p.isAbsolute then [] else cwd
    match t.resolveFrom follow maxLinks start (Path.segments p.base ++ p.tail) with
    | .error e => .error (.os e)
    | .ok l =>
      match t.get? l with
      | some .directory => .ok l
      | some _ => if demandsDirectory p then .error (.os .notDirectory) else .ok l
      | none => .ok l

end Tree

end CompiledModels.Files
