import CompiledModels.Cache
import CompiledModels.Number.Binary64

/-!
The engine: compiles models into the cache and evaluates them through loaded modules. Errors of
compiling are returned. Errors of evaluations are contained: the plain forms report them as
events and answer that there is no value.
-/

namespace CompiledModels

inductive Evaluation (α : Type)
  | value (a : α)
  | invalid

namespace Evaluation

variable {α : Type}

def value? : Evaluation α → Option α
  | value a => some a
  | invalid => none

def isInvalid : Evaluation α → Bool
  | value _ => false
  | invalid => true

def toNumber : Evaluation Binary64 → Binary64
  | value x => x
  | invalid => .positiveInfinity

end Evaluation

/-- The outcome of compiling: the texts that were recorded when the module was built. -/
structure Compiled where
  diagnostics : String
  warnings : String
  cached : Bool

structure Engine where
  config : Config
  cache : Cache
  translator : Translator
  builder : Builder
  registry : Nat

namespace Engine

open Program

def ofConfig (config : Config) : Program Engine := do
  let cache : Cache := ⟨config.cacheDirectory⟩
  let translator ← Translator.ofConfig config
  let registry ← perform .newRegistry
  return { config, cache, registry, builder := .ofConfig config
           translator := { translator with scratchRoot := some cache.stagingDirectory } }

def exists? (e : Engine) (id : ModelIdentity) : Program Bool := e.cache.exists? id

def admits (id : ModelIdentity) (source : String) (manifest : Except Error Manifest) :
    Program Bool := do
  match manifest with
  | .error _ => return true
  | .ok m =>
    if m.abi.toNat ≠ abiVersion then
      perform (.emit (.entryOfOtherAbi id.key m.abi.toNat))
      return false
    else
      if m.sourceDigest ≠ sourceDigest source then perform (.emit (.sourceDiffers id.key))
      return true

/-- What is recorded of an entry that can be used as it is: it has a module and its build output
can be read, and it is not for another version of the module interface. -/
def cached (e : Engine) (id : ModelIdentity) (source : String) : Program (Option Compiled) := do
  if !(← e.cache.exists? id) then return none
  match ← (e.cache.loadBuildOutput id).run with
  | .error cause =>
    perform (.emit (.entryIncomplete id.key cause))
    return none
  | .ok diagnostics =>
    let warnings := (← (e.cache.loadWarnings id).run).toOption.getD ""
    if ← admits id source (← (e.cache.loadManifest id).run) then
      perform (.emit (.ready id.key true))
      return some ⟨diagnostics, warnings, true⟩
    else return none

def rebuild (e : Engine) (id : ModelIdentity) (source : String) : Attempt Error Compiled := do
  let _ ← perform (.invalidate e.registry id.key)
  Attempt.of (e.cache.delete id).run .cache
  let entry ← e.cache.compileModel id source e.translator e.builder
  perform (.emit (.ready id.key false))
  return ⟨entry.buildOutput, entry.warnings, false⟩

/-- Makes sure that the cache has a module for `id`. It is looked for, and looked for again once
this caller holds the lock of `id`, before it is built. -/
def compile (e : Engine) (id : ModelIdentity) (source : String) : Attempt Error Compiled := do
  match ← e.cached id source with
  | some hit => return hit
  | none =>
    let file ← Attempt.of (e.cache.lock id).run .cache
    Attempt.andThen
      (do
        match ← e.cached id source with
        | some hit => return hit
        | none => e.rebuild id source)
      (Cache.unlock file)

def delete (e : Engine) (id : ModelIdentity) : Attempt Error Unit := do
  let _ ← perform (.invalidate e.registry id.key)
  Attempt.of (e.cache.delete id).run .cache

def unload (e : Engine) (id : ModelIdentity) : Program Bool :=
  perform (.invalidate e.registry id.key)

def module (e : Engine) (id : ModelIdentity) : Attempt NotFoundError LoadedModule := do
  match ← e.cache.modulePath id with
  | none => throw (.entry id.key)
  | some path =>
    Attempt.of (perform (.getOrLoad e.registry id.key path)) fun err => .module id.key err.text

def call (m : LoadedModule) (data : ModelData) (r : Request) :
    Program (Except ModuleError r.Answer) := do
  perform (.enter m)
  let answer ← perform (.ask m data r)
  perform (.leave m)
  return answer

def evaluate (e : Engine) (id : ModelIdentity) (data : ModelData) (r : Request) :
    Attempt EvalError r.Answer := do
  let m ← Attempt.of (e.module id).run .notFound
  Attempt.of (call m data r) fun err => .evaluation ⟨id.key, r.operation, err.text⟩

/-- Turns an error of an evaluation into an event: `none` if there is no module to ask. -/
def contain {α : Type} (result : Except EvalError α) : Program (Option (Evaluation α)) := do
  match result with
  | .ok a => return some (.value a)
  | .error (.evaluation err) =>
    perform (.emit (.evaluationFailed err))
    return some .invalid
  | .error (.notFound err) =>
    perform (.emit (.notAvailable err))
    return none

def evaluateContained (e : Engine) (id : ModelIdentity) (data : ModelData) (r : Request) :
    Program (Option (Evaluation r.Answer)) := do
  contain (← (e.evaluate id data r).run)

def value? (e : Engine) (id : ModelIdentity) (data : ModelData) (r : Request) :
    Program (Option r.Answer) := do
  return (← e.evaluateContained id data r).bind Evaluation.value?

def text (e : Engine) : Program String := do
  let loaded ← perform (.countModules e.registry)
  return "Runtime \x7b cache: " ++ Text.quote e.cache.root.text ++ ", translator: " ++
    Text.quote e.translator.program.text ++ ", loaded: " ++ toString loaded ++ " \x7d"

end Engine

end CompiledModels
