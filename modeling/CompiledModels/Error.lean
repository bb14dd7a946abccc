import CompiledModels.ConfigError
import CompiledModels.Duration
import CompiledModels.Identity
import CompiledModels.Process

/-!
The errors of every stage, from the translator to a call into a loaded module, and their texts.
-/

namespace CompiledModels

def abiVersion : Nat := 1

inductive TranslationError
  | rejected (diagnostics : String)
  | timedOut (timeout : Duration)
  | notStarted (program : Path) (cause : FileError)
  | io (cause : FileError)
  | noDeadline

namespace TranslationError

def text : TranslationError → String
  | .rejected diagnostics => diagnostics
  | .timedOut timeout => "translator timed out after " ++ toString timeout.millis ++ "ms"
  | .notStarted program cause => "failed to run translator " ++ program.text ++ ": " ++ cause.text
  | .io cause => "translator io error: " ++ cause.text
  | .noDeadline => "overflow when adding duration to instant"

def diagnostics? : TranslationError → Option String
  | .rejected diagnostics => some diagnostics
  | _ => none

end TranslationError

inductive BuildFailure
  | noCompiler (wanted : String)
  | noScratch (cause : FileError)
  | notWritten (file : Path) (cause : FileError)
  | notRun (compiler : Path) (cause : FileError)
  | badExit (compiler : Path) (status : ExitStatus)
  | noModule (file : Path)
  | stated (text : String)

def BuildFailure.text : BuildFailure → String
  | .noCompiler wanted => "no C++ compiler found; install " ++ wanted ++ " or set STANBIND_CXX"
  | .noScratch cause => "failed to create build directory: " ++ cause.text
  | .notWritten file cause => "failed to write " ++ file.text ++ ": " ++ cause.text
  | .notRun compiler cause => "failed to run " ++ compiler.text ++ ": " ++ cause.text
  | .badExit compiler status => compiler.text ++ " exited with " ++ status.text
  | .noModule file => "compiler produced no module at " ++ file.text
  | .stated text => text

structure BuildError where
  failure : BuildFailure
  output : String

def BuildError.text (e : BuildError) : String := "build failed: " ++ e.failure.text

inductive NotFoundError
  | entry (identity : String)
  | artifact (identity what : String)
  | module (identity reason : String)
  deriving DecidableEq

def NotFoundError.text : NotFoundError → String
  | .entry identity => "no cache entry for " ++ identity
  | .artifact identity what => "no " ++ what ++ " stored for " ++ identity
  | .module identity reason => "module for " ++ identity ++ " could not be loaded: " ++ reason

inductive CacheError
  | io (path : Path) (cause : FileError)
  | lock (identity : String) (cause : FileError)
  | manifest (failure : String)

def CacheError.text : CacheError → String
  | .io path cause => "cache io error at " ++ path.text ++ ": " ++ cause.text
  | .lock identity cause => "failed to lock cache entry " ++ identity ++ ": " ++ cause.text
  | .manifest failure => "invalid cache manifest: " ++ failure

inductive Error
  | translation (e : TranslationError)
  | build (e : BuildError)
  | notFound (e : NotFoundError)
  | cache (e : CacheError)
  | config (e : ConfigError)
  | io (e : FileError)

def Error.text : Error → String
  | .translation e => "translation failed: " ++ e.text
  | .build e => e.text
  | .notFound e => e.text
  | .cache e => e.text
  | .config e => "invalid configuration: " ++ e.text
  | .io e => "io error: " ++ e.text

inductive ModuleError
  | libraryLoad (text : String)
  | symbolNotFound (text : String)
  | incompatibleAbi (expected found : Nat)
  | raised (text : String)
  | invalidOutput (text : String)
  | invalidArgument (text : String)
  deriving DecidableEq

def ModuleError.text : ModuleError → String
  | .libraryLoad text => "failed to load library: " ++ text
  | .symbolNotFound text => "symbol not found: " ++ text
  | .incompatibleAbi expected found =>
    "incompatible module ABI: expected " ++ toString expected ++ ", found " ++ toString found ++
      " (model must be recompiled)"
  | .raised text => text
  | .invalidOutput text => "invalid module output: " ++ text
  | .invalidArgument text => "invalid argument: " ++ text

structure EvaluationError where
  identity : String
  operation : String
  message : String
  deriving DecidableEq

def EvaluationError.text (e : EvaluationError) : String :=
  e.operation ++ " failed for " ++ e.identity ++ ": " ++ e.message

inductive EvalError
  | notFound (e : NotFoundError)
  | evaluation (e : EvaluationError)
  deriving DecidableEq

def EvalError.text : EvalError → String
  | .notFound e => e.text
  | .evaluation e => e.text

end CompiledModels
