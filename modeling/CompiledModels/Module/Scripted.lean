import CompiledModels.Json.Access
import CompiledModels.Module.Library

/-!
Libraries whose replies are given beforehand, one for each entry point, whatever they are asked.
-/

namespace CompiledModels

structure Script where
  abi : Nat
  parameterCount : Outcome (Option Nat)
  parameterNames : Outcome (Option Bytes)
  writeArray : Outcome (Option Buffer)
  unconstrainArray : Outcome (Option Buffer)
  logDensity : Outcome (Option Binary64)
  gradient : Outcome (Option Buffer)

namespace Script

open Json (Value)

def outcomeOf {α : Type} (v : Value) (output : Value → α) : Outcome (Option α) :=
  ⟨(v.get "status").asInteger, (v.given? "err").map Value.asBytes, (v.given? "out").map output⟩

def bufferOf (v out : Value) : Buffer :=
  let values := out.asItems.map Value.asBinary64
  ⟨values, ((v.given? "len").map Value.asNatural).getD values.length⟩

def ofValue (v : Value) : Script :=
  let reply {α : Type} (e : EntryPoint) (output : Value → α) : Outcome (Option α) :=
    outcomeOf (v.get e.name) output
  let buffer (e : EntryPoint) : Outcome (Option Buffer) := reply e (bufferOf (v.get e.name))
  { abi := ((reply .abiVersion Value.asNatural).output).getD abiVersion
    parameterCount := reply .parameterCount Value.asNatural
    parameterNames := reply .parameterNames Value.asBytes
    writeArray := buffer .writeArray
    unconstrainArray := buffer .unconstrainArray
    logDensity := reply .logDensity Value.asBinary64
    gradient := buffer .gradient }

def orElse {α : Type} (o : Outcome (Option α)) (a : α) : Outcome α :=
  ⟨o.status, o.error, o.output.getD a⟩

def library (s : Script) (entries : List EntryPoint) : Library :=
  { has := entries.contains, abi := s.abi
    parameterCount := fun _ => orElse s.parameterCount 0
    parameterNames := fun _ _ => s.parameterNames
    writeArray := fun _ _ _ _ => s.writeArray
    unconstrainArray := fun _ _ => s.unconstrainArray
    logDensity := fun _ _ _ => orElse s.logDensity .zero
    gradient := fun _ _ _ => s.gradient }

def load (s : Script) (files : Files.Tree) (cwd : Files.Location) (path : Path) :
    Except ModuleError Services := do
  (s.library (← LibraryFile.open files cwd path)).resolve path

end Script

end CompiledModels
