import CompiledModels.Machine.Program

/-!
Programs over files and directories: texts, whole directories, and temporary directories that are
removed however the work in them ends.
-/

namespace CompiledModels.Program

def isFile (p : Path) : Program Bool := do
  match ← perform (.stat p true) with
  | .ok n => return n.isFile
  | .error _ => return false

def isDirectory (p : Path) : Program Bool := do
  match ← perform (.stat p true) with
  | .ok n => return n.isDirectory
  | .error _ => return false

def pathExists (p : Path) : Program Bool := do
  match ← perform (.stat p true) with
  | .ok _ => return true
  | .error _ => return false

def readText (p : Path) : Program (Except FileError String) := do
  match ← perform (.read p) with
  | .error e => return .error e
  | .ok bytes =>
    match Text.decode? bytes with
    | some s => return .ok s
    | none => return .error .notText

def writeText (p : Path) (s : String) : Program (Except FileError Unit) :=
  perform (.write p (Text.encode s))

def maxNesting : Nat := Files.Tree.maxPathLength

def removeEach (remove : Files.DirectoryEntry → Program (Except FileError Unit)) :
    List Files.DirectoryEntry → Program (Except FileError Unit)
  | [] => return .ok ()
  | entry :: entries => do
    match ← remove entry with
    | .ok () => removeEach remove entries
    | .error e => if e.isMissing then removeEach remove entries else return .error e

def removeBelow : Nat → Path → Program (Except FileError Unit)
  | 0, _ => return .error (.os .nameTooLong)
  | nesting + 1, p => do
    match ← perform (.list p) with
    | .error e => return .error e
    | .ok entries =>
      let remove (entry : Files.DirectoryEntry) : Program (Except FileError Unit) :=
        if entry.isDirectory then removeBelow nesting (p.join entry.name)
        else perform (.removeFile (p.join entry.name))
      match ← removeEach remove entries with
      | .error e => return .error e
      | .ok () =>
        match ← perform (.removeDirectory p) with
        | .ok () => return .ok ()
        | .error e => if e.isMissing then return .ok () else return .error e

def removeAll (p : Path) : Program (Except FileError Unit) := do
  match ← perform (.stat p false) with
  | .error e => return .error e
  | .ok (.link _) => perform (.removeFile p)
  | .ok .directory => removeBelow maxNesting p
  | .ok _ => return .error (.os .notDirectory)

def makeOrKeep (p : Path) : Program (Except FileError Unit) := do
  match ← perform (.makeDirectory p) with
  | .ok () => return .ok ()
  | .error e =>
    if ← isDirectory p then return .ok () else return .error e

def createUpTo : Nat → Path → Program (Except FileError Unit)
  | 0, p => makeOrKeep p
  | count + 1, p => do
    if p.base.isEmpty ∧ p.tail.isEmpty then return .ok ()
    match ← perform (.makeDirectory p) with
    | .ok () => return .ok ()
    | .error e =>
      if e.isMissing then
        match p.parent? with
        | none => return .error e
        | some dir =>
          match ← createUpTo count dir with
          | .error e => return .error e
          | .ok () => makeOrKeep p
      else if ← isDirectory p then return .ok ()
      else return .error e

def createAll (p : Path) : Program (Except FileError Unit) :=
  createUpTo p.components.length p

def maxTries : Nat := 65536

/-- Makes a directory in `dir` with a name that starts with `start` and that nothing else has. -/
def makeFresh (start : String) (dir : Path) : Nat → Program (Except FileError Path)
  | 0 => return .error (.atPath (.os .alreadyExists) dir.text)
  | tries + 1 => do
    let p := dir.join (start ++ (← perform .drawSuffix))
    match ← perform (.makeDirectory p) with
    | .ok () => return .ok p
    | .error e =>
      if e = .os .alreadyExists then makeFresh start dir tries
      else return .error (.atPath e p.text)

def makeTemporary (start : String) (dir : Path) : Program (Except FileError Path) := do
  let e ← perform .environment
  makeFresh start (Path.inDirectory e.directory dir) maxTries

end CompiledModels.Program

namespace CompiledModels.Attempt

variable {ε α : Type}

def inTemporary (start : String) (dir : Path) (wrap : FileError → ε)
    (work : Path → Attempt ε α) : Attempt ε α := do
  let p ← of (Program.makeTemporary start dir) wrap
  (work p).andThen (do let _ ← Program.removeAll p)

end CompiledModels.Attempt
