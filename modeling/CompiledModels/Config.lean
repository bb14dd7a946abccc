import CompiledModels.Compiler
import CompiledModels.Error
import CompiledModels.Number.Reading

/-!
The settings of an engine: where entries are kept, which tools are used and how. They are given
one by one or read from the variables of the environment.
-/

namespace CompiledModels

structure Config where
  cacheDirectory : Path
  translator : Option Path
  compiler : Option Compiler
  includeDirectories : List Path
  defines : List String
  compilerFlags : List String
  linkArguments : List String
  optimization : Nat
  timeout : Duration
  debug : Bool

namespace Config

def defaultTimeout : Duration := .ofMillis 1000

def withDirectory (cacheDirectory : Path) : Config :=
  { cacheDirectory, translator := none, compiler := none, includeDirectories := []
    defines := [], compilerFlags := [], linkArguments := []
    optimization := Compiler.defaultOptimization, timeout := defaultTimeout, debug := false }

def withOptimization (c : Config) (level : Nat) : Config :=
  { c with optimization := min level Compiler.maxOptimization }

def directoryInHome (home : String) : Path :=
  ((Path.ofText home).join ".stanbind").join "cache"

def readBoolean? (s : String) : Option Bool :=
  match String.ofList ((Text.trim s).toList.map Char.toLower) with
  | "1" | "true" | "yes" | "on" => some true
  | "" | "0" | "false" | "no" | "off" => some false
  | _ => none

def readPaths (s : String) : List Path :=
  let parts := (Text.splitAll (· == ':') s.toList).map String.ofList
  (parts.filter (· ≠ "")).map Path.ofText

def nonEmpty (v : Option String) : Option String := v.filter (· ≠ "")

def readSetting {α : Type} (v : Option String) (unset : α) (read : String → Option α)
    (error : String → ConfigError) : Except ConfigError α :=
  match v with
  | none => .ok unset
  | some s =>
    match read s with
    | some a => .ok a
    | none => .error (error s)

/-- The settings that variables ask for. Of several faults the first is reported: the cache
directory, the optimization, the timeout, the switch for debugging. -/
def ofVariables (get : String → Option String) (home : Option String) :
    Except ConfigError Config := do
  let cacheDirectory ← match nonEmpty (get "STANBIND_CACHE_DIR"), home with
    | some dir, _ => .ok (Path.ofText dir)
    | none, some home => .ok (directoryInHome home)
    | none, none => .error .noHome
  let level ← readSetting (get "STANBIND_OPT_LEVEL") Compiler.defaultOptimization
    (fun s => readNatural? 255 (Text.trim s)) (.notInteger "STANBIND_OPT_LEVEL")
  let timeout ← readSetting (get "STANBIND_TRANSLATE_TIMEOUT_MS") defaultTimeout
    (fun s => (readNatural? (2 ^ 64 - 1) (Text.trim s)).map Duration.ofMillis)
    (.notMilliseconds "STANBIND_TRANSLATE_TIMEOUT_MS")
  let debug ← readSetting (get "STANBIND_DEBUG") false readBoolean? (.notBoolean "STANBIND_DEBUG")
  return {
    cacheDirectory
    translator := (nonEmpty (get "STANBIND_STANC")).map Path.ofText
    compiler := (nonEmpty (get "STANBIND_CXX")).map Compiler.ofName
    includeDirectories := ((get "STANBIND_INCLUDE").map readPaths).getD []
    defines := []
    compilerFlags := ((get "STANBIND_CXXFLAGS").map Text.words).getD []
    linkArguments := ((get "STANBIND_LDFLAGS").map Text.words).getD []
    optimization := min level Compiler.maxOptimization
    timeout
    debug }

/-- The home directory of the user, as far as the variables tell; that of the system's first user
otherwise. -/
def home (e : Environment) : Option String :=
  some ((nonEmpty (e.get? "HOME")).getD "/root")

def ofEnvironment (e : Environment) : Except ConfigError Config :=
  ofVariables e.get? (home e)

end Config

end CompiledModels
