import CompiledModels.Machine.World

/-!
The steps that programs are made of, each with the type of its reply, and what a step does. A step
that would have to wait for something that only another program can give has no result.
-/

namespace CompiledModels

inductive Step
  | stat (p : Path) (follow : Bool)
  | list (p : Path)
  | read (p : Path)
  | write (p : Path) (bytes : Bytes)
  | makeDirectory (p : Path)
  | removeFile (p : Path)
  | removeDirectory (p : Path)
  | rename (source target : Path)
  | copy (source target : Path)
  | openLockFile (p : Path)
  | acquire (file : Nat)
  | release (file : Nat)
  | start (i : Invocation)
  | poll (child : Nat)
  | kill (child : Nat)
  | await (child : Nat)
  | collectOut (child : Nat)
  | collectErr (child : Nat)
  | now
  | sleep (d : Duration)
  | drawSuffix
  | environment
  | beginRedirection
  | endRedirection
  | flush (descriptor : Nat)
  | openScratch
  | duplicate (descriptor : Nat)
  | redirect (descriptor dest : Nat)
  | close (descriptor : Nat)
  | rewind (descriptor : Nat)
  | readToEnd (descriptor : Nat)
  | print (descriptor : Nat) (bytes : Bytes)
  | newRegistry
  | lookUp (registry : Nat) (key : String)
  | getOrLoad (registry : Nat) (key : String) (p : Path)
  | invalidate (registry : Nat) (key : String)
  | countModules (registry : Nat)
  | enter (m : LoadedModule)
  | ask (m : LoadedModule) (d : ModelData) (r : Request)
  | leave (m : LoadedModule)
  | emit (e : Event)

namespace Step

abbrev Reply : Step → Type
  | stat .. => Except FileError Files.Node
  | list _ => Except FileError (List Files.DirectoryEntry)
  | read _ => Except FileError Bytes
  | write .. => Except FileError Unit
  | makeDirectory _ => Except FileError Unit
  | removeFile _ => Except FileError Unit
  | removeDirectory _ => Except FileError Unit
  | rename .. => Except FileError Unit
  | copy .. => Except FileError Unit
  | openLockFile _ => Except FileError Nat
  | acquire _ => Except FileError Unit
  | release _ => Unit
  | start _ => Except FileError Nat
  | poll _ => Except FileError (Option ExitStatus)
  | kill _ => Unit
  | await _ => Except FileError ExitStatus
  | collectOut _ => Bytes
  | collectErr _ => Bytes
  | now => Nat
  | sleep _ => Unit
  | drawSuffix => String
  | environment => Environment
  | beginRedirection => Unit
  | endRedirection => Unit
  | flush _ => Except FileError Unit
  | openScratch => Except FileError Nat
  | duplicate _ => Except FileError Nat
  | redirect .. => Except FileError Unit
  | close _ => Unit
  | rewind _ => Except FileError Unit
  | readToEnd _ => Except FileError Bytes
  | print .. => Unit
  | newRegistry => Nat
  | lookUp .. => Option LoadedModule
  | getOrLoad .. => Except ModuleError LoadedModule
  | invalidate .. => Bool
  | countModules _ => Nat
  | enter _ => Unit
  | ask _ _ r => Except ModuleError r.Answer
  | leave _ => Unit
  | emit _ => Unit

def onFiles (w : World) (r : Except FileError Files.Tree) : Except FileError Unit × World :=
  match r with
  | .ok files => (.ok (), { w with files })
  | .error e => (.error e, w)

def onDescriptors {α : Type} (w : World) (r : Except Errno (α × Descriptors)) :
    Except FileError α × World :=
  match r with
  | .ok (a, descriptors) => (.ok a, { w with descriptors })
  | .error e => (.error (.os e), w)

def adopt (w : World) (i : Invocation) (a : Activity) : Nat × World :=
  let c : Child :=
    { number := w.nextNumber, started := w.clock, invocation := i, activity := a
      outBytes := [], errBytes := [], killed := none }
  (c.number, { w with children := w.children ++ [c], nextNumber := w.nextNumber + 1 }.settle)

def collect (w : World) (child : Nat) (instant : Activity → Option Duration)
    (bytes : Child → Bytes) : Option (Bytes × World) :=
  match w.child? child with
  | none => some ([], w)
  | some c =>
    (instant c.activity).map fun d =>
      let w := w.advanceTo (c.started + d.nanos)
      (((w.child? child).map bytes).getD [], w)

def loadInto (m : Machine) (w : World) (registry : Nat) (key : String) (p : Path) :
    Except ModuleError LoadedModule × World :=
  let r := w.registry registry
  let load (_ : Unit) : Except ModuleError LoadedModule := do
    return ⟨w.nextNumber, p, ← m.load w.environment w.files p⟩
  let w' :=
    if (r.current? key p).isSome then w
    else { w with loads := w.loads + 1, nextNumber := w.nextNumber + 1 }
  match r.getOrLoad key p load with
  | .ok (module, r) => (.ok module, w'.setRegistry registry r)
  | .error e => (.error e, w')

def exec (m : Machine) : (s : Step) → World → Option (s.Reply × World)
  | stat p follow, w => some (w.files.stat w.directory follow p, w)
  | list p, w => some (w.files.list w.directory p, w)
  | read p, w => some (w.files.read w.directory p, w)
  | write p bytes, w => some (onFiles w (w.files.write w.directory p ⟨bytes, 0⟩))
  | makeDirectory p, w => some (onFiles w (w.files.makeDirectory w.directory p))
  | removeFile p, w => some (onFiles w (w.files.removeFile w.directory p))
  | removeDirectory p, w => some (onFiles w (w.files.removeDirectory w.directory p))
  | rename a b, w => some (onFiles w (w.files.rename w.directory a b))
  | copy a b, w => some (onFiles w (w.files.copy w.directory a b))
  | openLockFile p, w =>
    match w.files.openOrCreate w.directory p with
    | .ok (number, files) => some (.ok number, { w with files })
    | .error e => some (.error e, w)
  | acquire file, w =>
    if file ∈ w.locked then none else some (.ok (), { w with locked := file :: w.locked })
  | release file, w => some ((), { w with locked := w.locked.filter (· ≠ file) })
  | start i, w =>
    match m.start w.environment w.files i with
    | .ok a => let (number, w) := adopt w i a; some (.ok number, w)
    | .error e => some (.error e, w)
  | poll child, w => some (.ok ((w.child? child).bind (·.status? w.clock)), w)
  | kill child, w =>
    some ((), { w with children := w.children.map fun c =>
      if c.number = child ∧ (c.status? w.clock).isNone then { c with killed := some w.clock }
      else c })
  | await child, w =>
    match w.child? child with
    | none => some (.error (.os ⟨10⟩), w)
    | some c =>
      c.end?.bind fun t =>
        let w := w.advanceTo t
        (c.status? w.clock).map fun s => (.ok s, w)
  | collectOut child, w => collect w child (·.outEnd) (·.outBytes)
  | collectErr child, w => collect w child (·.errEnd) (·.errBytes)
  | now, w => some (w.clock, w.advanceTo (w.clock + 1))
  | sleep d, w => some ((), w.advanceTo (w.clock + d.nanos))
  | drawSuffix, w =>
    let (s, seed) := World.drawSuffix w.seed
    some (s, { w with seed })
  | environment, w => some (w.environment, w)
  | beginRedirection, w =>
    if w.redirecting then none else some ((), { w with redirecting := true })
  | endRedirection, w => some ((), { w with redirecting := false })
  | flush _, w => some (.ok (), w)
  | openScratch, w =>
    let (d, descriptors) := w.descriptors.openScratch
    some (.ok d, { w with descriptors })
  | duplicate d, w => some (onDescriptors w (w.descriptors.duplicate d))
  | redirect d dest, w =>
    some (onDescriptors w ((w.descriptors.redirect d dest).map fun t => ((), t)))
  | close d, w => some ((), { w with descriptors := w.descriptors.close d })
  | rewind d, w => some (onDescriptors w ((w.descriptors.rewind d).map fun t => ((), t)))
  | readToEnd d, w => some (onDescriptors w (w.descriptors.readToEnd d))
  | print d bytes, w => some ((), { w with descriptors := w.descriptors.write d bytes })
  | newRegistry, w =>
    some (w.registries.length, { w with registries := w.registries ++ [.empty] })
  | lookUp registry key, w => some ((w.registry registry).get? key, w)
  | getOrLoad registry key p, w => some (loadInto m w registry key p)
  | invalidate registry key, w =>
    let r := w.registry registry
    some ((r.get? key).isSome, w.setRegistry registry (r.erase key))
  | countModules registry, w => some ((w.registry registry).size, w)
  | enter module, w =>
    if module.services.reentrant then some ((), w)
    else if module.number ∈ w.busy then none
    else some ((), { w with busy := module.number :: w.busy })
  | ask module d r, w =>
    let (result, lines) := module.services.answer d r
    some (result, { w with journal := w.journal ++ lines })
  | leave module, w =>
    if module.services.reentrant then some ((), w)
    else some ((), { w with busy := w.busy.filter (· ≠ module.number) })
  | emit e, w => some ((), { w with events := w.events ++ [e] })

end Step

end CompiledModels
