import CompiledModels.Kernel.Signal

namespace CompiledModels.Kernel

structure Image where
  program : String
  name : String
  arguments : List String
  bindings : List (String × String)

inductive Routine
  | ended (status : ExitStatus)
  | act (step : Nat → Kernel → Option (Routine × Kernel))
  | fork (child : Routine) (next : Nat → Routine)
  | become (i : Image)

def Run (σ α : Type) : Type := (α → σ → Routine) → σ → Routine

namespace Run

variable {σ α β ε : Type}

instance : Monad (Run σ) where
  pure a := fun next s => next a s
  bind p f := fun next s => p (fun a s => f a next s) s

instance : MonadStateOf σ (Run σ) where
  get := fun next s => next s s
  set s := fun next _ => next () s
  modifyGet f := fun next s => let (a, s) := f s; next a s

def await (f : Nat → Kernel → Option (α × Kernel)) : Run σ α := fun next s =>
  .act fun process k => (f process k).map fun (a, k) => (next a s, k)

def act (f : Nat → Kernel → α × Kernel) : Run σ α := await fun process k => some (f process k)

def look (f : Nat → Kernel → α) : Run σ α := act fun process k => (f process k, k)

def change (f : Nat → Kernel → Kernel) : Run σ Unit := act fun process k => ((), f process k)

def attempt (f : Nat → Kernel → Except ε (α × Kernel)) : Run σ (Except ε α) :=
  act fun process k => match f process k with
    | .ok (a, k) => (.ok a, k)
    | .error e => (.error e, k)

def tryChange (f : Nat → Kernel → Except ε Kernel) : Run σ (Except ε Unit) :=
  attempt fun process k => (f process k).map ((), ·)

def leave (status : ExitStatus) : Run σ α := fun _ _ => .ended status

def become (i : Image) : Run σ α := fun _ _ => .become i

def fork (child : Run σ Nat) : Run σ Nat := fun next s =>
  .fork (child (fun status _ => .ended (.code status)) s) fun n => next n s

def processNumber : Run σ Nat := look fun process _ => process

def spend (nanos : Nat) : Run σ Unit := change fun process k => k.spend process nanos

def waitFor (child : Nat) : Run σ (Option ExitStatus) :=
  await fun _ k =>
    if k.isPresent child then (k.collect? child).map fun (status, k) => (some status, k)
    else some (none, k)

def openFile (p : String) (m : Mode) : Run σ (Except FileError Nat) := do
  match ← attempt fun process k => k.openFile process p m with
  | .error e => return .error e
  | .ok d =>
    await fun process k => if k.isConnected process d then some (.ok d, k) else none

def close (d : Nat) : Run σ Unit := change fun process k => k.close process d

def read (d count : Nat) : Run σ (Except FileError Bytes) :=
  await fun process k => k.read process d count

def blockSize : Nat := 65536

def readBlocks (d : Nat) : Nat → Run σ (Except FileError (List Bytes))
  | 0 => return .ok []
  | fuel + 1 => do
    match ← read d blockSize with
    | .error e => return .error e
    | .ok [] => return .ok []
    | .ok bytes =>
      match ← readBlocks d fuel with
      | .ok more => return .ok (bytes :: more)
      | .error e => return .error e

def maxBlocks : Nat := 4096

def readAll (d : Nat) : Run σ (Except FileError Bytes) := do
  return (← readBlocks d maxBlocks).map List.flatten

def writeSome (d : Nat) (bytes : Bytes) : Run σ (Except FileError Nat) := fun next s =>
  .act fun process k => (k.write process d bytes).map fun
    | (.error e, k) =>
      let ignores := ((k.process? process).map (·.ignored)).getD []
      if e = .os ⟨32⟩ && !ignores.contains 13 then (.ended (.signal 13), k)
      else (next (.error e) s, k)
    | (.ok n, k) => (next (.ok n) s, k)

def writeBlocks (d : Nat) : Nat → Bytes → Run σ (Except FileError Unit)
  | 0, _ => return .ok ()
  | fuel + 1, bytes => do
    if bytes.isEmpty then return .ok ()
    match ← writeSome d bytes with
    | .error e => return .error e
    | .ok n => if n < bytes.length then writeBlocks d fuel (bytes.drop n) else return .ok ()

def write (d : Nat) (bytes : Bytes) : Run σ (Except FileError Unit) :=
  writeBlocks d (bytes.length + 1) bytes

def print (d : Nat) (s : String) : Run σ Unit := do
  let _ ← write d (Text.octetBytes s)

def facts (follow : Bool) (p : String) : Run σ (Except FileError Facts) :=
  look fun process k => k.facts process follow p

def changeTree (f : Files.Location → Files.Tree → Except FileError Files.Tree) :
    Run σ (Except FileError Unit) :=
  tryChange fun process k => k.change (f (k.directory process))

end Run

end CompiledModels.Kernel
