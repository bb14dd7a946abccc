import CompiledModels.Kernel.Schedule
import CompiledModels.Programs

/-!
Starting a program on a machine: the kernel that it runs on, and what the caller sees of it.
-/

namespace CompiledModels

open Kernel (Descriptor Stream Target Schedule)

namespace Start

def maxSteps : Nat := 4000000

/-- Puts together what is written to one stream at one instant without anything between. -/
def joinWrites : List (Duration × Effect) → List (Duration × Effect)
  | [] => []
  | (t, e) :: rest =>
    match e, joinWrites rest with
    | .out a, (u, .out b) :: more =>
      if t = u then (t, .out (a ++ b)) :: more else (t, e) :: (u, .out b) :: more
    | .err a, (u, .err b) :: more =>
      if t = u then (t, .err (a ++ b)) :: more else (t, e) :: (u, .err b) :: more
    | _, more => (t, e) :: more

def effectsOf (k : Kernel) : List (Duration × Effect) :=
  joinWrites (k.effects.reverse.map fun e => (⟨e.1⟩, e.2))

def activityOf (number : Nat) (k : Kernel) : Activity :=
  { effects := effectsOf k
    exit := do
      let p ← k.process? number
      let status ← p.ended
      return (⟨p.time⟩, status)
    outEnd := k.outEnd.map (⟨·⟩)
    errEnd := k.errEnd.map (⟨·⟩) }

/-- The file that diagnostics go to which the caller does not read, if there is one. -/
def scratchOf (files : Files.Tree) (i : Invocation) : Option Nat :=
  if i.err = .inherited then some files.nextNumber else none

def targets (scratch : Option Nat) (i : Invocation) : List Target :=
  let output := match i.out with
    | .discarded => Target.device .null
    | _ => .out
  let diagnostics := match i.err with
    | .piped => Target.err
    | .discarded => .device .null
    | .inherited => (scratch.map Target.file).getD .err
  [.device .null, output, diagnostics]

def mask : Nat := 0o022

def kernel (e : Environment) (files : Files.Tree) (i : Invocation) : Kernel :=
  let scratch := scratchOf files i
  let caller : Kernel.Process :=
    { number := e.processNumber, parent := 0, time := 0, descriptors := [], directory := e.location
      mask }
  let streams := (targets scratch i).zipIdx.map fun (target, n) =>
    (n, ({ target, reads := n = 0, writes := n != 0, shared := scratch.isSome && n = 2 } : Stream))
  let first := { caller with
    number := e.processNumber + 1, parent := e.processNumber
    descriptors := streams.map fun s => ⟨s.1, s.1, false⟩ }
  { files := { files with nextNumber := files.nextNumber + 1 }
    unnamed := scratch.toList.map (·, .empty)
    scratch, attributes := [(.place ["tmp"], { mode := some 0o1777 })], streams, pipes := []
    namedPipes := [], processes := [caller, first], nextNumber := streams.length
    nextProcess := e.processNumber + 2, now := 0, effects := [], outEnd := none, errEnd := none }

end Start

open Start in
/-- What a program does from its start to its end, if it can be started. A program that is given
by its name is looked for in the directories that the environment names. -/
def start (e : Environment) (files : Files.Tree) (i : Invocation) : Except FileError Activity := do
  let name := i.program.text
  if (name :: i.arguments).any (·.any (· == '\x00')) then throw .nulInArgument
  let k := kernel e files i
  let number := e.processNumber + 1
  let bindings := e.bindings.map fun v => (Text.toOctets v.1, Text.toOctets v.2)
  let image ← k.findProper number (Text.toOctets name) (i.arguments.map Text.toOctets) bindings
  let done := Schedule.run Programs.load maxSteps ⟨k, [(number, Programs.load image)]⟩
  return activityOf number done.kernel

end CompiledModels
