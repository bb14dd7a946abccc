import CompiledModels.Kernel.Signal
import CompiledModels.Shell.State

namespace CompiledModels.Shell

open Kernel (Run SignalName.description)

namespace Job

def note (dead : List (Nat × ExitStatus)) (j : Job) : Job :=
  { j with processes := j.processes.map fun p =>
      (p.1, p.2.or ((dead.find? (·.1 = p.1)).map (·.2))) }

def has (j : Job) (process : Nat) : Bool := j.processes.any (·.1 = process)

end Job

def statusOf : ExitStatus → Nat
  | .code n => n
  | .signal n => 128 + n

def deathNotice? : ExitStatus → Option String
  | .signal n => if n = 2 || n = 13 then none else some (SignalName.description n)
  | .code _ => none

namespace Eval

def makeJob (processes : List Nat) (background : Bool) : Eval Nat := do
  modify fun s => { s with jobs := s.jobs.filter fun j => !(j.isDone && j.seen) }
  let jobs := (← get).jobs
  let number := ((List.range (jobs.length + 1)).find? fun i =>
    !jobs.any (·.number = i + 1)).getD jobs.length + 1
  modify fun s => { s with jobs := ⟨number, processes.map (·, none), background, false⟩ :: s.jobs }
  return number

def job? (number : Nat) : Eval (Option Job) := return (← get).jobs.find? (·.number = number)

def updateJob (number : Nat) (f : Job → Job) : Eval Unit :=
  modify fun s =>
    { s with jobs := s.jobs.map fun j => if j.number = number then f j else j }

def removeJob (number : Nat) : Eval Unit :=
  modify fun s => { s with jobs := s.jobs.filter (·.number ≠ number) }

def noteEnds (awaited : Option Nat) (dead : List (Nat × ExitStatus)) : Eval Unit := do
  modify fun s => { s with jobs := s.jobs.map (·.note dead) }
  let jobs := (← get).jobs
  let job := awaited.bind fun n => jobs.find? (·.number = n)
  for (process, status) in dead do
    match deathNotice? status with
    | some notice => if job.any (·.has process) then tell (notice ++ "\n")
    | none => pure ()

def awaitEnds (interruptible : Bool) : Eval (List (Nat × ExitStatus) × Option Nat) :=
  lift (Run.await fun process k =>
    let (dead, k') := k.reap process
    if !dead.isEmpty then some ((dead, none), k')
    else if interruptible && !(k.pendingOf process).isEmpty then
      some (([], (k.pendingOf process).min?), k)
    else none)

def awaitJob (number : Nat) (interruptible : Bool) : Nat → Eval (Option Nat)
  | 0 => hang
  | fuel + 1 => do
    match ← job? number with
    | none => return none
    | some j =>
      if j.isDone then return none
      else
        let (dead, signal) ← awaitEnds interruptible
        noteEnds (some number) dead
        if signal.isSome then return signal else awaitJob number interruptible fuel

def maxEnds : Nat := 1000000

def finishJob (number : Nat) : Eval Nat := do
  let _ ← awaitJob number false maxEnds
  let status := ((← job? number).bind (·.outcome?)).elim 0 statusOf
  removeJob number
  return status

def jobNamed (text : String) : Eval Job := do
  let jobs := (← get).jobs
  let name := (text.drop 1).toString
  let current := name.isEmpty || name == "%" || name == "+"
  let found :=
    if current then jobs.head?
    else if name == "-" then (jobs.drop 1).head?
    else name.toNat?.bind fun n => jobs.find? (·.number = n)
  match found with
  | some j => return j
  | none => fail (if current then "No current job" else "No such job: " ++ text)

end Eval

end CompiledModels.Shell
