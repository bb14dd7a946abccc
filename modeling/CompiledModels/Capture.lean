import CompiledModels.Machine.Program

/-!
Redirecting the diagnostics of this process, and of all it starts, into a scratch file. Only one
redirection is active at a time, and the stream is given back however it ends.
-/

namespace CompiledModels

/-- An active redirection: the scratch file's descriptor, and a descriptor for what the
diagnostics were before. -/
structure Capture where
  scratch : Nat
  saved : Nat

namespace Capture

open Program

def release (scratch : Nat) : Program Unit := do
  perform (.close scratch)
  perform .endRedirection

/-- Starts a redirection, unless the diagnostics cannot be redirected; then nothing has
changed. -/
def begin : Program (Except FileError Capture) := do
  perform .beginRedirection
  match ← perform (.flush Descriptors.diagnostics) with
  | .error e =>
    perform .endRedirection
    return .error e
  | .ok () =>
    match ← perform .openScratch with
    | .error e =>
      perform .endRedirection
      return .error e
    | .ok scratch =>
      match ← perform (.duplicate Descriptors.diagnostics) with
      | .error e =>
        release scratch
        return .error e
      | .ok saved =>
        match ← perform (.redirect scratch Descriptors.diagnostics) with
        | .error e =>
          perform (.close saved)
          release scratch
          return .error e
        | .ok () => return .ok ⟨scratch, saved⟩

def restore (c : Capture) : Program (Except FileError Unit) := do
  let r ← perform (.redirect c.saved Descriptors.diagnostics)
  perform (.close c.saved)
  return r

def drop (c : Capture) : Program Unit := do
  let _ ← c.restore
  release c.scratch

def readBack (c : Capture) : Program (Except FileError String) := do
  match ← c.restore with
  | .error e => return .error e
  | .ok () =>
    match ← perform (.rewind c.scratch) with
    | .error e => return .error e
    | .ok () =>
      match ← perform (.readToEnd c.scratch) with
      | .error e => return .error e
      | .ok bytes => return .ok (Text.decodeLossy bytes)

def finish (c : Capture) : Program (Except FileError String) := do
  let r ← c.readBack
  release c.scratch
  return r

end Capture

end CompiledModels
