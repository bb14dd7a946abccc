import CompiledModels.Config
import CompiledModels.Machine.Directories

/-!
Running the translator: source text in, the text for the compiler out, all before a deadline.
-/

namespace CompiledModels

structure Translation where
  code : String
  warnings : String

structure Translator where
  program : Path
  timeout : Duration
  scratchRoot : Option Path

namespace Translator

def fileName : String := "stanc"

/-- The translator's path: the one that a variable names, one beside this program, or else its
bare name, which is searched for when it is started. -/
def find : Program Path := do
  let e ← Program.perform .environment
  match Config.nonEmpty (e.get? "STANBIND_STANC") with
  | some p => return Path.ofText p
  | none =>
    match e.executable.bind Path.parent? with
    | none => return Path.ofText fileName
    | some dir =>
      if ← Program.isFile (dir.join fileName) then return dir.join fileName
      else return Path.ofText fileName

def ofConfig (c : Config) : Program Translator := do
  let program ← match c.translator with
    | some p => pure p
    | none => find
  return { program, timeout := c.timeout, scratchRoot := none }

def pollInterval : Duration := .ofMillis 5

/-- Looks at the child until it has ended or the deadline is reached, whichever is seen first. A
look comes before each comparison with the clock, so that an end that can be seen counts. -/
def waitFor (child deadline : Nat) : Nat → Program (Except FileError (Option ExitStatus))
  | 0 => return .ok none
  | looks + 1 => do
    match ← Program.perform (.poll child) with
    | .error e => return .error e
    | .ok (some status) => return .ok (some status)
    | .ok none =>
      if deadline ≤ (← Program.perform .now) then return .ok none
      else
        Program.perform (.sleep pollInterval)
        waitFor child deadline looks

/-- More looks than fit before the deadline, as each pause takes at least the interval. -/
def maxLooks (timeout : Duration) : Nat := timeout.nanos / pollInterval.nanos + 2

def reap (child : Nat) : Program Unit := do
  Program.perform (.kill child)
  let _ ← Program.perform (.await child)

def await (t : Translator) (id : ModelIdentity) (child : Nat) :
    Attempt TranslationError ExitStatus := do
  let now ← Program.perform .now
  match Instant.after? ⟨now⟩ t.timeout with
  | none => throw .noDeadline
  | some deadline =>
    match ← waitFor child deadline.nanos (maxLooks t.timeout) with
    | .ok (some status) => return status
    | .ok none =>
      reap child
      Program.perform (.emit (.translatorTimedOut id.key t.timeout))
      throw (.timedOut t.timeout)
    | .error e =>
      reap child
      throw (.io e)

def arguments (id : ModelIdentity) (file : Path) : List String :=
  ["--name", id.translatorName, "--warn-pedantic", "--print-cpp", file.text]

def translate (t : Translator) (source : String) (id : ModelIdentity) :
    Attempt TranslationError Translation := do
  let e ← Program.perform .environment
  let root := t.scratchRoot.getD e.temporaryDirectory
  Attempt.inTemporary "stanbind_" root .io fun scratch => do
    let file := scratch.join (id.name ++ ".stan")
    Attempt.of (Program.writeText file source) .io
    let child ← Attempt.of
      (Program.perform (.start ⟨t.program, arguments id file, .piped, .piped⟩))
      (.notStarted t.program)
    let status ← t.await id child
    let out := Text.decodeLossy (← Program.perform (.collectOut child))
    let err := Text.decodeLossy (← Program.perform (.collectErr child))
    if status.success then return ⟨Text.trim out, Text.trim err⟩
    else throw (.rejected (Text.trim err))

end Translator

end CompiledModels
