import CompiledModels.Data
import CompiledModels.Error

/-!
What a loaded model can be asked, and the answers. Every request comes with the data that the
model is instantiated with.
-/

namespace CompiledModels

inductive NameKind
  | parameters
  | constrained
  | unconstrained
  deriving DecidableEq

def NameKind.code : NameKind → Nat
  | .parameters => 0
  | .constrained => 1
  | .unconstrained => 2

inductive Request
  | parameterCount
  | parameterNames (kind : NameKind)
  | constrain (values : List Binary64) (transformed generated : Bool)
  | unconstrain (values : List Binary64)
  | logDensity (values : List Binary64) (jacobian : Bool)
  | gradient (values : List Binary64) (jacobian : Bool)
  deriving DecidableEq

namespace Request

abbrev Answer : Request → Type
  | parameterCount => Nat
  | parameterNames _ => List String
  | constrain .. => List Binary64
  | unconstrain _ => List Binary64
  | logDensity .. => Binary64
  | gradient .. => List Binary64

def operation : Request → String
  | parameterCount => "n_pars"
  | parameterNames _ => "param_names"
  | constrain .. => "constrain_pars"
  | unconstrain _ => "unconstrain_pars"
  | logDensity .. => "log_prob"
  | gradient .. => "log_prob_grad"

end Request

/-- How a module answers. Beside the answer it leaves a journal, a line for each thing that was
done inside it. -/
structure Services where
  reentrant : Bool
  answer : ModelData → (r : Request) → Except ModuleError r.Answer × List String

structure LoadedModule where
  number : Nat
  path : Path
  services : Services

def LoadedModule.text (m : LoadedModule) : String :=
  "LoadedModule \x7b path: " ++ Text.quote m.path.text ++ " \x7d"

structure Registry where
  modules : List (String × LoadedModule)

namespace Registry

def empty : Registry := ⟨[]⟩

def get? (r : Registry) (key : String) : Option LoadedModule :=
  (r.modules.find? (·.1 = key)).map (·.2)

def size (r : Registry) : Nat := r.modules.length

def erase (r : Registry) (key : String) : Registry :=
  ⟨r.modules.filter (·.1 ≠ key)⟩

def insert (r : Registry) (key : String) (m : LoadedModule) : Registry :=
  ⟨r.modules.filter (·.1 ≠ key) ++ [(key, m)]⟩

def current? (r : Registry) (key : String) (path : Path) : Option LoadedModule :=
  (r.get? key).filter (·.path.same path)

/-- The module under `key` that was loaded from `path`, and the table with it. Any other module
under `key` gives way to what `load` gives; where that fails the table stays as it is. -/
def getOrLoad (r : Registry) (key : String) (path : Path)
    (load : Unit → Except ModuleError LoadedModule) :
    Except ModuleError (LoadedModule × Registry) :=
  match r.current? key path with
  | some m => .ok (m, r)
  | none => do
    let m ← load ()
    return (m, r.insert key m)

end Registry

end CompiledModels
