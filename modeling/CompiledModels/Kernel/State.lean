import CompiledModels.Files.Operations
import CompiledModels.Process
import CompiledModels.Text.Utf8

namespace CompiledModels

namespace Kernel

inductive Device
  | null
  | zero
  | full
  | random
  deriving DecidableEq

inductive Target
  | out
  | err
  | file (number : Nat)
  | directory (l : Files.Location)
  | pipe (number : Nat)
  | device (d : Device)
  deriving DecidableEq

structure Mode where
  reads : Bool := false
  writes : Bool := false
  appends : Bool := false
  creates : Bool := false
  truncates : Bool := false
  onlyNew : Bool := false

namespace Mode

def reading : Mode := { reads := true }

def writing : Mode := { writes := true, creates := true, truncates := true }

def appending : Mode := { writes := true, appends := true, creates := true }

end Mode

structure Stream where
  target : Target
  reads : Bool
  writes : Bool
  appends : Bool := false
  position : Nat := 0
  met : Bool := false
  shared : Bool := false

structure Descriptor where
  number : Nat
  stream : Nat
  transient : Bool := false
  deriving DecidableEq

structure Process where
  number : Nat
  parent : Nat
  time : Nat
  ended : Option ExitStatus := none
  stopped : Bool := false
  descriptors : List Descriptor
  directory : Files.Location
  mask : Nat
  ignored : List Nat := []
  caught : List Nat := []
  pending : List Nat := []

inductive Key
  | file (number : Nat)
  | place (l : Files.Location)
  deriving DecidableEq

structure Attributes where
  mode : Option Nat := none
  time : Option Int := none

end Kernel

structure Kernel where
  files : Files.Tree
  unnamed : List (Nat × Files.Content)
  scratch : Option Nat
  attributes : List (Kernel.Key × Kernel.Attributes)
  streams : List (Nat × Kernel.Stream)
  pipes : List (Nat × Bytes)
  namedPipes : List (Files.Location × Nat)
  processes : List Kernel.Process
  nextNumber : Nat
  nextProcess : Nat
  now : Nat
  effects : List (Nat × Effect)
  outEnd : Option Nat
  errEnd : Option Nat

namespace Kernel

variable (k : Kernel)

def process? (number : Nat) : Option Process := k.processes.find? (·.number = number)

def updateProcess (number : Nat) (f : Process → Process) : Kernel :=
  { k with processes := k.processes.map fun p => if p.number = number then f p else p }

def directory (process : Nat) : Files.Location := ((k.process? process).map (·.directory)).getD []

def record (e : Effect) : Kernel := { k with effects := (k.now, e) :: k.effects }

def stream? (number : Nat) : Option Stream := (k.streams.find? (·.1 = number)).map (·.2)

def descriptor? (process d : Nat) : Option Descriptor :=
  (k.process? process).bind fun p => p.descriptors.find? (·.number = d)

def opened? (process d : Nat) : Option (Nat × Stream) := do
  let e ← k.descriptor? process d
  let s ← k.stream? e.stream
  return (e.stream, s)

def updateStream (number : Nat) (f : Stream → Stream) : Kernel :=
  { k with streams := k.streams.map fun s => if s.1 = number then (s.1, f s.2) else s }

def heldStreams : List Nat :=
  k.processes.flatMap fun p => if p.ended.isSome then [] else p.descriptors.map (·.stream)

def sweep : Kernel :=
  let held := k.heldStreams
  let streams := k.streams.filter fun s => held.contains s.1
  let has (t : Target) : Bool := streams.any (·.2.target = t)
  let errTarget := (k.scratch.map Target.file).getD .err
  let ending (t : Target) (before : Option Nat) : Option Nat :=
    if before.isSome || has t then before else some k.now
  { k with streams
           pipes := k.pipes.filter fun p => has (.pipe p.1)
           namedPipes := k.namedPipes.filter fun p => has (.pipe p.2)
           unnamed := k.unnamed.filter fun f => has (.file f.1)
           outEnd := ending .out k.outEnd
           errEnd := ending errTarget k.errEnd }

def pipeHas (number : Nat) (reads : Bool) : Bool :=
  k.streams.any fun s =>
    s.2.target = .pipe number && (if reads then s.2.reads else s.2.writes)

def pipeCapacity : Nat := 65536

def pipeContent (number : Nat) : Bytes := ((k.pipes.find? (·.1 = number)).map (·.2)).getD []

def setPipe (number : Nat) (bytes : Bytes) : Kernel :=
  { k with pipes := k.pipes.map fun p => if p.1 = number then (number, bytes) else p }

end Kernel

end CompiledModels
