import CompiledModels.Kernel.Files

namespace CompiledModels.Kernel

variable (k : Kernel)

def freeDescriptor (process least : Nat) : Nat :=
  let used := ((k.process? process).map (·.descriptors)).getD []
  ((List.range (used.length + 1)).find? fun i =>
    !used.any fun d => d.number = least + i).elim least (least + ·)

def setDescriptor (process : Nat) (d : Descriptor) : Kernel :=
  k.updateProcess process fun p =>
    { p with descriptors := d :: p.descriptors.filter (·.number ≠ d.number) }

def close (process d : Nat) : Kernel :=
  (k.updateProcess process fun p =>
    { p with descriptors := p.descriptors.filter (·.number ≠ d) }).sweep

def install (process d stream : Nat) (transient : Bool) : Kernel :=
  (k.setDescriptor process ⟨d, stream, transient⟩).sweep

def duplicate (process d dest : Nat) (transient : Bool) : Except FileError Kernel :=
  match k.descriptor? process d with
  | some e => .ok (k.install process dest e.stream transient)
  | none => .error (.os .badDescriptor)

def openTarget (process : Nat) (t : Target) (m : Mode) : Nat × Kernel :=
  let d := k.freeDescriptor process 0
  let meets (s : Stream) : Bool :=
    s.target = t && ((m.reads && s.writes) || (m.writes && s.reads))
  let s : Stream :=
    { target := t, reads := m.reads, writes := m.writes, appends := m.appends
      met := k.streams.any fun s => meets s.2 }
  let others := k.streams.map fun s => (s.1, { s.2 with met := s.2.met || meets s.2 })
  let k' := { k with streams := (k.nextNumber, s) :: others, nextNumber := k.nextNumber + 1 }
  (d, k'.setDescriptor process ⟨d, k.nextNumber, false⟩)

def namedPipe (l : Files.Location) : Nat × Kernel :=
  match k.namedPipes.find? (·.1 = l) with
  | some p => (p.2, k)
  | none =>
    (k.nextNumber,
      { k with pipes := (k.nextNumber, []) :: k.pipes
               namedPipes := (l, k.nextNumber) :: k.namedPipes, nextNumber := k.nextNumber + 1 })

def openNode (process : Nat) (l : Files.Location) (n : Files.Node) (m : Mode) :
    Except FileError (Nat × Kernel) :=
  match n with
  | .file number .. =>
    let k := if m.truncates then k.edit number (.resize 0) else k
    .ok (k.openTarget process (.file number) m)
  | .directory =>
    if m.writes then .error (.os .isDirectory) else .ok (k.openTarget process (.directory l) m)
  | .link _ => .error (.os .tooManyLinks)
  | .other =>
    match deviceAt? l with
    | some d => .ok (k.openTarget process (.device d) m)
    | none =>
      if l.head? = some "dev" then .error (.os ⟨6⟩)
      else
        let (pipe, k) := k.namedPipe l
        .ok (k.openTarget process (.pipe pipe) m)

def reopen (process d : Nat) (m : Mode) : Except FileError (Nat × Kernel) :=
  match k.opened? process d with
  | none => .error (.os .noEntry)
  | some (_, s) =>
    match s.target with
    | .file number =>
      let k := if m.truncates then k.edit number (.resize 0) else k
      .ok (k.openTarget process (.file number) m)
    | .directory _ => if m.writes then .error (.os .isDirectory) else .ok (k.openTarget process s.target m)
    | t => .ok (k.openTarget process t m)

def openFile (process : Nat) (p : String) (m : Mode) : Except FileError (Nat × Kernel) :=
  match descriptorOfPath? p with
  | some d => k.reopen process d m
  | none => do
    let l ← k.resolve process (!m.onlyNew) p
    match k.files.get? l with
    | some n =>
      if m.onlyNew then throw (.os .alreadyExists) else k.openNode process l n m
    | none =>
      if !m.creates then throw (.os .noEntry)
      else if Files.Tree.demandsDirectory (path p) then throw (.os .isDirectory)
      else
        let (number, k) := k.makeFile process l
        return k.openTarget process (.file number) m

def isConnected (process d : Nat) : Bool :=
  match k.opened? process d with
  | some (_, s) =>
    match s.target with
    | .pipe _ => s.met || s.reads && s.writes
    | _ => true
  | none => true

def makePipe (process : Nat) : (Nat × Nat) × Kernel :=
  let n := k.nextNumber
  let k := { k with pipes := (n, []) :: k.pipes, nextNumber := n + 1 }
  let (r, k) := k.openTarget process (.pipe n) { reads := true }
  let (w, k) := k.openTarget process (.pipe n) { writes := true }
  ((r, w), k)

def slice (c : Files.Content) (position count : Nat) : Bytes :=
  let front := (c.bytes.drop position).take count
  let rest := min (count - front.length) (c.size - (position + front.length))
  if rest = 0 then front else front ++ List.replicate rest 0

def noise (seed count : Nat) : Bytes :=
  (List.range count).map fun i => UInt8.ofNat ((seed + i) * 2654435761 / 65536)

def read (process d count : Nat) : Option (Except FileError Bytes × Kernel) :=
  match k.opened? process d with
  | none => some (.error (.os .badDescriptor), k)
  | some (number, s) =>
    if !s.reads then some (.error (.os .badDescriptor), k)
    else match s.target with
      | .file n =>
        let bytes := slice (k.contentOf n) s.position count
        some (.ok bytes,
          k.updateStream number fun s => { s with position := s.position + bytes.length })
      | .directory _ => some (.error (.os .isDirectory), k)
      | .device .null => some (.ok [], k)
      | .device .random =>
        some (.ok (noise s.position count),
          k.updateStream number fun s => { s with position := s.position + count })
      | .device _ => some (.ok (List.replicate count 0), k)
      | .pipe n =>
        let bytes := k.pipeContent n
        if bytes.isEmpty then (if k.pipeHas n false then none else some (.ok [], k))
        else some (.ok (bytes.take count), k.setPipe n (bytes.drop count))
      | .out => some (.ok [], k)
      | .err => some (.ok [], k)

def readLine (process d : Nat) : Option (Except FileError Bytes × Kernel) :=
  match k.opened? process d with
  | none => some (.error (.os .badDescriptor), k)
  | some (_, s) =>
    let line (bytes : Bytes) : Nat := min bytes.length ((bytes.takeWhile (· != 10)).length + 1)
    match s.target with
    | .file n => k.read process d (line ((k.contentOf n).bytes.drop s.position))
    | .pipe n => k.read process d (line (k.pipeContent n))
    | _ => k.read process d 1

def write (process d : Nat) (bytes : Bytes) : Option (Except FileError Nat × Kernel) :=
  match k.opened? process d with
  | none => some (.error (.os .badDescriptor), k)
  | some (number, s) =>
    let count := bytes.length
    if !s.writes then some (.error (.os .badDescriptor), k)
    else match s.target with
      | .out => some (.ok count, k.record (.out bytes))
      | .err => some (.ok count, k.record (.err bytes))
      | .file n =>
        let place := if s.appends then (k.contentOf n).size else s.position
        let k := k.updateStream number fun s => { s with position := place + count }
        let e : Edit := .write place bytes
        some (.ok count, if s.shared then (k.editUnnamed n e).record (.err bytes) else k.edit n e)
      | .directory _ => some (.error (.os .badDescriptor), k)
      | .device .full => some (.error (.os ⟨28⟩), k)
      | .device _ => some (.ok count, k)
      | .pipe n =>
        if !k.pipeHas n true then some (.error (.os ⟨32⟩), k)
        else
          let before := k.pipeContent n
          let room := pipeCapacity - before.length
          if room = 0 then none
          else some (.ok (min count room), k.setPipe n (before ++ bytes.take room))

def seek (process d position : Nat) : Except FileError Kernel :=
  match k.opened? process d with
  | some (number, { target := .file _, .. }) =>
    .ok (k.updateStream number fun s => { s with position })
  | some _ => .error (.os ⟨29⟩)
  | none => .error (.os .badDescriptor)

def position? (process d : Nat) : Option Nat :=
  match k.opened? process d with
  | some (_, { target := .file _, position, .. }) => some position
  | _ => none

end CompiledModels.Kernel
