import CompiledModels.Capture
import CompiledModels.Compiler
import CompiledModels.Config
import CompiledModels.Digest
import CompiledModels.Glue
import CompiledModels.Identity
import CompiledModels.Machine.Directories

/-!
The names of module files, and building modules: the compiler is found, run over the translated
source and the layer that every module has, and all that it writes is recorded.
-/

namespace CompiledModels

namespace ModuleFile

def start : String := "stanbind_model_"

/-- The name of a module. The number of the build keeps a module from being mistaken for an
earlier one of the same model that is still in use. -/
def name (id : ModelIdentity) (buildNumber : String) : String :=
  start ++ id.name ++ "_" ++ buildNumber ++ "." ++ Compiler.moduleExtension

def isName (s : String) : Bool :=
  s.startsWith start && (Path.ofText s).extension? == some Compiler.moduleExtension

end ModuleFile

namespace Compiler

open Program

/-- Whether the compiler can be used: a path must lead to a file, and what is only a name must
answer when it is asked for its version. -/
def isAvailable (c : Compiler) : Program Bool := do
  let byPath : Bool := match c with
    | .custom p => 1 < p.components.length
    | _ => false
  if byPath then isFile c.executable
  else
    match ← perform (.start ⟨c.executable, ["--version"], .discarded, .discarded⟩) with
    | .error _ => return false
    | .ok child =>
      match ← perform (.await child) with
      | .ok status => return status.success
      | .error _ => return false

def firstAvailable : List Compiler → Program (Option Compiler)
  | [] => return none
  | c :: cs => do if ← c.isAvailable then return some c else firstAvailable cs

def find : Attempt BuildError Compiler := do
  match ← firstAvailable (preferred :: alternatives) with
  | some c => return c
  | none => throw ⟨.noCompiler preferred.executable.text, ""⟩

end Compiler

namespace Toolchain

def ofConfig (c : Config) : Toolchain :=
  { compiler := c.compiler, includeDirectories := c.includeDirectories, defines := c.defines
    compilerFlags := c.compilerFlags, linkArguments := c.linkArguments
    optimization := min c.optimization Compiler.maxOptimization }

def resolve (t : Toolchain) : Attempt BuildError Compiler :=
  match t.compiler with
  | some c => pure c
  | none => Compiler.find

end Toolchain

structure BuildOutput where
  file : Path
  diagnostics : String
  compiler : Compiler

structure Builder where
  toolchain : Toolchain
  debug : Bool

namespace Builder

open Program

def ofConfig (c : Config) : Builder := ⟨.ofConfig c, c.debug⟩

/-- Twelve digits that differ between builds: a digest of the source, the time and the process. -/
def buildNumber (source : String) (nanos processNumber : Nat) : String :=
  let message := Text.encode source ++ Md5.littleEndian 16 nanos ++
    Md5.littleEndian 4 processNumber
  Text.hexOfBytes ((Sha256.digest message).take 6)

def writeSources : List (Path × String) → Attempt BuildError Unit
  | [] => pure ()
  | (file, text) :: rest => do
    Attempt.of (writeText file text) fun e => ⟨.notWritten file e, ""⟩
    writeSources rest

def runToEnd (i : Invocation) : Program (Except FileError (Bytes × ExitStatus)) := do
  match ← perform (.start i) with
  | .error e => return .error e
  | .ok child =>
    let bytes ← perform (.collectOut child)
    match ← perform (.await child) with
    | .error e => return .error e
    | .ok status => return .ok (bytes, status)

def captured : Except FileError Capture → Program String
  | .error _ => return ""
  | .ok c => do
    match ← c.finish with
    | .ok text => return text
    | .error e =>
      perform (.emit (.captureUnread e))
      return ""

/-- Runs `work` while the diagnostics are redirected: its result and what they would have been.
Where they cannot be redirected, or are not to be, nothing is recorded. -/
def recorded {α : Type} (redirected : Bool) (work : Program α) : Program (α × String) := do
  let capture ← if redirected then Capture.begin else pure (.error (.os .badDescriptor))
  let a ← work
  return (a, ← captured capture)

def build (b : Builder) (source : String) (id : ModelIdentity) (target : Path) :
    Attempt BuildError BuildOutput := do
  let compiler ← b.toolchain.resolve
  let e ← perform .environment
  Attempt.inTemporary "stanbind_build_" e.temporaryDirectory (fun e => ⟨.noScratch e, ""⟩)
    fun scratch => do
      let model := scratch.join (id.name ++ ".cpp")
      let glue := scratch.join Glue.fileName
      writeSources [(model, source), (glue, Glue.source)]
      let nanos ← perform .now
      let file := target.join (ModuleFile.name id (buildNumber source nanos e.processNumber))
      let arguments := b.toolchain.arguments compiler [model, glue] file
      let (result, captured) ← recorded (!b.debug)
        (runToEnd ⟨compiler.executable, arguments, .piped, .inherited⟩)
      match result with
      | .error cause => throw ⟨.notRun compiler.executable cause, captured⟩
      | .ok (out, status) =>
        let diagnostics := Text.decodeLossy out ++ captured
        if !status.success then throw ⟨.badExit compiler.executable status, diagnostics⟩
        else if !(← isFile file) then throw ⟨.noModule file, diagnostics⟩
        else
          perform (.emit (.built id.key file))
          return ⟨file, diagnostics, compiler⟩

end Builder

end CompiledModels
