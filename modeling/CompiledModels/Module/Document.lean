import CompiledModels.Files.Operations
import CompiledModels.Json.Access
import CompiledModels.Module.Services

/-!
Modules that are documents: an object describes a model with independent parameters, each of which
may be restricted to positive values and is then the square of its unconstrained value.
-/

namespace CompiledModels

structure Document where
  fields : List (String × Json.Value)

namespace Document

open Json (Value)

def field? (d : Document) (name : String) : Option Value := Json.lookup name d.fields

def texts (d : Document) (name : String) : List String :=
  (Value.object d.fields).get name |>.asTexts

def errorOf (v : Value) : ModuleError :=
  let text := (v.get "text").asText
  match (v.get "kind").asText with
  | "LibraryLoad" => .libraryLoad text
  | "SymbolNotFound" => .symbolNotFound text
  | "IncompatibleAbi" =>
    .incompatibleAbi (v.get "expected").asNatural (v.get "found").asNatural
  | "InvalidOutput" => .invalidOutput text
  | "InvalidArgument" => .invalidArgument text
  | _ => .raised text

structure Parameter where
  name : String
  positive : Bool

/-- The declared parameters, and one more for each of the first `N` natural numbers if the data
has an `N`. -/
def parameters (d : Document) (data : ModelData) : List Parameter :=
  let positive := d.texts "positive"
  let declared := (d.texts "params").map fun name => ⟨name, positive.contains name⟩
  let count := ((data.get? "N").map Value.asNatural).getD 0
  declared ++ (List.range count).map fun i => ⟨"x." ++ toString (i + 1), false⟩

def constrainOne (p : Parameter) (u : Float) : Float := if p.positive then u * u else u

def unconstrainFrom (place : Nat) : List (Parameter × Float) → Except ModuleError (List Float)
  | [] => .ok []
  | (p, c) :: rest =>
    if p.positive && c <= 0.0 then
      .error (.raised ("lb_free: value at " ++ toString place ++ " is not positive"))
    else do
      let values ← unconstrainFrom (place + 1) rest
      return (if p.positive then c.sqrt else c) :: values

def sum (xs : List Float) : Float := xs.foldl (· + ·) 0.0

def density (ps : List (Parameter × Float)) (jacobian : Bool) : Float :=
  let lp := ps.foldl (fun lp (p, u) =>
    let x := constrainOne p u
    lp - (0.5 * x) * x) 0.0
  if jacobian then ps.foldl (fun lp (p, u) => if p.positive then lp + u else lp) lp else lp

def gradientOne (jacobian : Bool) (p : Parameter) (u : Float) : Float :=
  let x := constrainOne p u
  if p.positive && jacobian then 1.0 - x else -x

def unconstrainedName (p : Parameter) : String := if p.positive then "u_" ++ p.name else p.name

def errorOf? (v : Value) : Option ModuleError :=
  match v with
  | .object _ => some (errorOf v)
  | _ => none

def raised? (d : Document) (operation : String) : Option ModuleError :=
  ((d.field? "raise").bind (·.field? operation)).bind errorOf?

def failure? (data : ModelData) : Option ModuleError :=
  match data.get? "fail" with
  | some (.bool true) =>
    some (.raised "normal_lpdf: Scale parameter is -1, but must be positive!")
  | some (.string s) => some (.raised s)
  | _ => none

def paired (ps : List Parameter) (values : List Binary64) :
    Except ModuleError (List (Parameter × Float)) :=
  if ps.length ≠ values.length then
    .error (.raised ("expected " ++ toString ps.length ++ " parameters, got " ++
      toString values.length))
  else .ok (ps.zip (values.map Binary64.toFloat))

def operation : Request → String
  | .constrain .. => "write_array"
  | .unconstrain _ => "unconstrain_array"
  | r => r.operation

def compute (ps : List Parameter) : (r : Request) → Except ModuleError r.Answer
  | .parameterCount => .ok ps.length
  | .parameterNames .parameters => .ok (ps.map (·.name))
  | .parameterNames .constrained => .ok (ps.map ("c_" ++ ·.name))
  | .parameterNames .unconstrained => .ok (ps.map unconstrainedName)
  | .constrain values transformed generated => do
    let pairs ← paired ps values
    let xs := pairs.map fun (p, u) => constrainOne p u
    let xs := if transformed then xs ++ [sum (pairs.map (·.2))] else xs
    let xs := if generated then xs ++ [(Binary64.ofNat ps.length).toFloat] else xs
    return xs.map Binary64.ofFloat
  | .unconstrain values => do
    let pairs ← paired ps values
    return (← unconstrainFrom 0 pairs).map Binary64.ofFloat
  | .logDensity values jacobian => do
    return Binary64.ofFloat (density (← paired ps values) jacobian)
  | .gradient values jacobian => do
    let pairs ← paired ps values
    return pairs.map fun (p, u) => Binary64.ofFloat (gradientOne jacobian p u)

def answer (d : Document) (data : ModelData) (r : Request) : Except ModuleError r.Answer :=
  match d.raised? (operation r) with
  | some e => .error e
  | none =>
    match failure? data with
    | some e => .error e
    | none => compute (d.parameters data) r

def services (d : Document) : Services :=
  { reentrant := ((d.field? "reentrant").map Value.asBool).getD false
    answer := fun data r => (d.answer data r, []) }

def ofBytes? (bytes : Bytes) : Option Document := do
  match (Json.read (← Text.decode? bytes)).toOption with
  | some (.object fields) => some ⟨fields⟩
  | _ => none

def load (files : Files.Tree) (cwd : Files.Location) (path : Path) :
    Except ModuleError Services :=
  match (files.read cwd path).toOption.bind ofBytes? with
  | none => .error (.libraryLoad "not a model document")
  | some d =>
    match (d.field? "load_error").bind errorOf? with
    | some e => .error e
    | none => .ok d.services

end Document

end CompiledModels
