import CompiledModels.Kernel.Routine

namespace CompiledModels.Kernel

abbrev Loader := Image → Routine

def horizon : Nat := 600 * 1000000000

def startCost : Nat := 1000000

def forkCost : Nat := 100000

structure Schedule where
  kernel : Kernel
  routines : List (Nat × Routine)

namespace Schedule

variable (s : Schedule)

def readyAt (p : Process) : Nat := max p.time s.kernel.now

def order : List Process :=
  (s.kernel.processes.filter fun p => p.ended.isNone && !p.stopped).mergeSort fun a b =>
    s.readyAt a < s.readyAt b || (s.readyAt a = s.readyAt b && a.number ≤ b.number)

def replace (process : Nat) (r : Routine) (k : Kernel) : Schedule :=
  ⟨k, (process, r) :: s.routines.filter (·.1 ≠ process)⟩

def advance? (load : Loader) (p : Process) (time : Nat) : Option Schedule := do
  let (_, r) ← s.routines.find? (·.1 = p.number)
  let k := { s.kernel with now := time }.updateProcess p.number fun p => { p with time }
  match r with
  | .ended status =>
    return ⟨k.endProcess p.number status, s.routines.filter (·.1 ≠ p.number)⟩
  | .act step =>
    let (r, k) ← step p.number k
    return s.replace p.number r k
  | .fork child next =>
    let (n, k) := k.makeProcess p.number
    let k := (k.spend n forkCost).spend p.number (forkCost / 2)
    let s := s.replace p.number (next n) k
    return { s with routines := (n, child) :: s.routines }
  | .become i =>
    return s.replace p.number (load i) ((k.replaceProgram p.number).spend p.number startCost)

def step (load : Loader) : Option Schedule :=
  s.order.findSome? fun p =>
    let time := s.readyAt p
    if time ≤ horizon then s.advance? load p time else none

def run (load : Loader) : Nat → Schedule → Schedule
  | 0, s => s
  | fuel + 1, s =>
    match s.step load with
    | none => s
    | some s => run load fuel s

end Schedule

end CompiledModels.Kernel
