import CompiledModels.Engine

/-!
A named program bound to its data. It remembers how far compiling came; the entry and the loaded
module belong to the engine.
-/

namespace CompiledModels

def ModelData.ofFile (p : Path) : Attempt Error ModelData := do
  let text ← Attempt.of (Program.readText p) .io
  Attempt.ofExcept (ofText text) .config

inductive ModelState
  | uncompiled
  | compiling
  | ready
  | failed
  deriving DecidableEq

def ModelState.text : ModelState → String
  | .uncompiled => "Uncompiled"
  | .compiling => "Compiling"
  | .ready => "Ready"
  | .failed => "Failed"

structure Model where
  engine : Engine
  identity : ModelIdentity
  source : String
  data : ModelData
  parameterCount : Option Nat
  state : ModelState

namespace Model

def ofName (engine : Engine) (name source : String) (data : ModelData) :
    Except ConfigError Model := do
  let identity ← ModelIdentity.ofName name
  return { engine, identity, source, data, parameterCount := none, state := .uncompiled }

def compile (m : Model) : Program (Except Error Compiled × Model) := do
  let m := { m with state := .compiling }
  match ← (m.engine.compile m.identity m.source).run with
  | .ok compiled =>
    let count ← m.engine.value? m.identity m.data .parameterCount
    return (.ok compiled, { m with parameterCount := count, state := .ready })
  | .error e => return (.error e, { m with parameterCount := none, state := .failed })

def delete (m : Model) : Program (Except Error Unit × Model) := do
  match ← (m.engine.delete m.identity).run with
  | .ok () => return (.ok (), { m with parameterCount := none, state := .uncompiled })
  | .error e => return (.error e, m)

def exists? (m : Model) : Program Bool := m.engine.exists? m.identity

def evaluate (m : Model) (r : Request) : Attempt EvalError r.Answer :=
  m.engine.evaluate m.identity m.data r

def evaluateContained (m : Model) (r : Request) : Program (Option (Evaluation r.Answer)) :=
  m.engine.evaluateContained m.identity m.data r

end Model

end CompiledModels
