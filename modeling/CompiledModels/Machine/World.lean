import CompiledModels.Event
import CompiledModels.Files.Operations
import CompiledModels.Machine.Descriptors
import CompiledModels.Module.Services

/-!
The state that programs work on: files, time, started programs, descriptors, locks and loaded
modules; and the machine, which says what starting a program and loading a module does.
-/

namespace CompiledModels

structure Machine where
  start : Environment → Files.Tree → Invocation → Except FileError Activity
  load : Environment → Files.Tree → Path → Except ModuleError Services

/-- A started program: since when it runs, what it still is to do, what its pipes hold. -/
structure Child where
  number : Nat
  started : Nat
  invocation : Invocation
  activity : Activity
  outBytes : Bytes
  errBytes : Bytes
  killed : Option Nat

namespace Child

/-- Whether what a child does `d` after its start has happened by now. The dead do nothing. -/
def reached (c : Child) (now : Nat) (d : Duration) : Bool :=
  c.started + d.nanos ≤ c.killed.elim now (min now)

def status? (c : Child) (now : Nat) : Option ExitStatus :=
  match c.killed, c.activity.exit with
  | none, some (d, s) => if c.started + d.nanos ≤ now then some s else none
  | none, none => none
  | some t, some (d, s) =>
    if c.started + d.nanos ≤ t then some s else if t ≤ now then some (.signal 9) else none
  | some t, none => if t ≤ now then some (.signal 9) else none

def end? (c : Child) : Option Nat :=
  match c.killed, c.activity.exit with
  | none, e => e.map fun e => c.started + e.1.nanos
  | some t, e => some (e.elim t fun e => min t (c.started + e.1.nanos))

end Child

structure World where
  files : Files.Tree
  clock : Nat
  seed : Nat
  environment : Environment
  descriptors : Descriptors
  redirecting : Bool
  locked : List Nat
  children : List Child
  registries : List Registry
  busy : List Nat
  loads : Nat
  nextNumber : Nat
  events : List Event
  journal : List String

namespace World

def initial (files : Files.Tree) (environment : Environment) (clock : Nat) : World :=
  { files, clock, seed := clock, environment, descriptors := .initial, redirecting := false
    locked := [], children := [], registries := [], busy := [], loads := 0, nextNumber := 0
    events := [], journal := [] }

def directory (w : World) : Files.Location := w.environment.location

/-- Changes the file that the diagnostics of `c` are written to, if it has one from its caller. -/
def onDiagnostics (w : World) (c : Child) (change : OpenFile → OpenFile) : World :=
  match c.invocation.err with
  | .inherited =>
    { w with descriptors := w.descriptors.update Descriptors.diagnostics change }
  | _ => w

def applyEffect (w : World) (c : Child) (e : Effect) : Child × World :=
  match e with
  | .files change => (c, { w with files := change w.files })
  | .out bytes =>
    match c.invocation.out with
    | .piped => ({ c with outBytes := c.outBytes ++ bytes }, w)
    | .inherited =>
      (c, { w with descriptors := w.descriptors.write Descriptors.output bytes })
    | .discarded => (c, w)
  | .err bytes =>
    match c.invocation.err with
    | .piped => ({ c with errBytes := c.errBytes ++ bytes }, w)
    | .inherited =>
      (c, { w with descriptors := w.descriptors.write Descriptors.diagnostics bytes })
    | .discarded => (c, w)
  | .errAt place bytes => (c, w.onDiagnostics c (·.writeAt place bytes))
  | .errCut size => (c, w.onDiagnostics c (·.cut size))

def settleChild (w : World) (c : Child) : Child × World :=
  let due := c.activity.effects.takeWhile fun e => c.reached w.clock e.1
  let later := c.activity.effects.drop due.length
  let c := { c with activity := { c.activity with effects := later } }
  due.foldl (fun (c, w) e => applyEffect w c e.2) (c, w)

def settle (w : World) : World :=
  w.children.foldl (fun acc c =>
    let (c, acc) := settleChild acc c
    { acc with children := acc.children ++ [c] }) { w with children := [] }

def advanceTo (w : World) (t : Nat) : World :=
  settle { w with clock := max w.clock t }

def child? (w : World) (number : Nat) : Option Child :=
  w.children.find? (·.number = number)

def registry (w : World) (number : Nat) : Registry :=
  (w.registries[number]?).getD .empty

def setRegistry (w : World) (number : Nat) (r : Registry) : World :=
  { w with registries := w.registries.set number r }

def nameChars : List Char :=
  "ABCDEFGHIJKLMNOPQRSTUVWXYZabcdefghijklmnopqrstuvwxyz0123456789".toList

def drawSuffix (seed : Nat) : String × Nat :=
  let next := (seed * 6364136223846793005 + 1442695040888963407) % 2 ^ 64
  let draw (i : Nat) : Char := nameChars.getD (next / 2 ^ 8 / 62 ^ i % 62) 'A'
  (String.ofList ((List.range 6).map draw), next)

end World

end CompiledModels
