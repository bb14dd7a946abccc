import CompiledModels.Files.Tree

/-!
The single steps on a file tree. Each answers as the system does and leaves the tree unchanged
when it fails.
-/

namespace CompiledModels.Files.Tree

variable (t : Tree) (cwd : Location)

def stat (follow : Bool) (p : Path) : Except FileError Node := do
  let l ← t.resolve cwd follow p
  match t.get? l with
  | some n => return n
  | none => throw (.os .noEntry)

def list (p : Path) : Except FileError (List DirectoryEntry) := do
  let l ← t.resolve cwd true p
  match t.get? l with
  | some .directory => return t.children l
  | some _ => throw (.os .notDirectory)
  | none => throw (.os .noEntry)

def read (p : Path) : Except FileError Bytes := do
  match ← t.stat cwd true p with
  | .file _ c _ => return c.all
  | .directory => throw (.os .isDirectory)
  | _ => return []

def write (p : Path) (c : Content) : Except FileError Tree := do
  let l ← t.resolve cwd true p
  match t.get? l with
  | some (.file number _ executable) => return t.setFile number c executable
  | some .directory => throw (.os .isDirectory)
  | some _ => return t
  | none =>
    if demandsDirectory p then throw (.os .isDirectory)
    else return t.insertFile l c false

def makeDirectory (p : Path) : Except FileError Tree := do
  let l ← t.resolve cwd false p
  match t.get? l with
  | some _ => throw (.os .alreadyExists)
  | none => return t.insert l .directory

def removeFile (p : Path) : Except FileError Tree := do
  let l ← t.resolve cwd false p
  match t.get? l with
  | some .directory => throw (.os .isDirectory)
  | some _ => return t.erase l
  | none => throw (.os .noEntry)

def removeDirectory (p : Path) : Except FileError Tree := do
  let l ← t.resolve cwd false p
  match t.get? l with
  | some .directory =>
    if l = [] then throw (.os .busy)
    else if t.children l ≠ [] then throw (.os .notEmpty)
    else return t.erase l
  | some _ => throw (.os .notDirectory)
  | none => throw (.os .noEntry)

/-- Moves `a` to `b`, in the place of a file by a file or of an empty directory by a directory. Two
names of one file both stay. -/
def rename (a b : Path) : Except FileError Tree := do
  let la ← t.resolve cwd false a
  let lb ← t.resolve cwd false b
  match t.get? la with
  | none => throw (.os .noEntry)
  | some n =>
    if la = [] ∨ lb = [] then throw (.os .busy)
    else if la = lb then return t
    else if la.isPrefixOf lb then throw (.os .invalid)
    else if lb.isPrefixOf la then throw (.os .notEmpty)
    else match n, t.get? lb with
      | .directory, some .directory =>
        if t.children lb ≠ [] then throw (.os .notEmpty) else return t.move la lb
      | .directory, some _ => throw (.os .notDirectory)
      | _, some .directory => throw (.os .isDirectory)
      | .directory, none => return t.move la lb
      | .file number .., some (.file other ..) =>
        if number = other then return t else return t.move la lb
      | _, none => if demandsDirectory b then throw (.os .notDirectory) else return t.move la lb
      | _, some _ => return t.move la lb

/-- Copies the regular file `a` over the file `b`, with its permission to be executed. -/
def copy (a b : Path) : Except FileError Tree := do
  match ← t.stat cwd true a with
  | .file number c executable =>
    let lb ← t.resolve cwd true b
    match t.get? lb with
    | some (.file other _ _) =>
      let c := if number = other then .empty else c
      return t.setFile other c executable
    | some .directory => throw (.os .isDirectory)
    | some _ => return t
    | none =>
      if demandsDirectory b then throw (.os .isDirectory) else return t.insertFile lb c executable
  | _ => throw .notRegular

/-- Opens the file `p` to be locked, making it if it is missing; its number tells which file it
is. -/
def openOrCreate (p : Path) : Except FileError (Nat × Tree) := do
  let l ← t.resolve cwd true p
  match t.get? l with
  | some (.file number _ _) => return (number, t)
  | some .directory => throw (.os .isDirectory)
  | some _ => throw (.os .noEntry)
  | none =>
    if demandsDirectory p then throw (.os .isDirectory)
    else return (t.nextNumber, t.insertFile l Content.empty false)

def makeLink (target : String) (p : Path) : Except FileError Tree := do
  let l ← t.resolve cwd false p
  match t.get? l with
  | some _ => throw (.os .alreadyExists)
  | none => return t.insert l (.link target)

def makeName (a b : Path) : Except FileError Tree := do
  let la ← t.resolve cwd false a
  match t.get? la with
  | none => throw (.os .noEntry)
  | some .directory => throw (.os ⟨1⟩)
  | some n =>
    let lb ← t.resolve cwd false b
    match t.get? lb with
    | some _ => throw (.os .alreadyExists)
    | none => if demandsDirectory b then throw (.os .noEntry) else return t.insert lb n

def below (l : Location) : List (Location × Node) :=
  t.entries.filter fun e => l.isPrefixOf e.1

end CompiledModels.Files.Tree
