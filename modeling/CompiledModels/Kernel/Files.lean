import CompiledModels.Kernel.State

namespace CompiledModels

namespace Kernel

inductive Kind
  | file
  | directory
  | link (target : String)
  | pipe
  | device (d : Option Device)
  deriving DecidableEq

structure Facts where
  kind : Kind
  key : Option Key
  size : Nat
  mode : Nat
  time : Int
  names : Nat

namespace Facts

def isFile (f : Facts) : Bool := f.kind = .file

def isDirectory (f : Facts) : Bool := f.kind = .directory

def isDevice (f : Facts) : Bool :=
  match f.kind with
  | .device _ => true
  | _ => false

def isLink (f : Facts) : Bool :=
  match f.kind with
  | .link _ => true
  | _ => false

end Facts

def startOfTime : Nat := 1700000000000000000

variable (k : Kernel)

def clock : Int := (startOfTime + k.now : Nat)

def attributesOf (key : Key) : Attributes :=
  ((k.attributes.find? (·.1 = key)).map (·.2)).getD {}

def setAttributes (key : Key) (f : Attributes → Attributes) : Kernel :=
  { k with attributes :=
      (key, f (k.attributesOf key)) :: k.attributes.filter (·.1 ≠ key) }

def touch (key : Key) : Kernel := k.setAttributes key fun a => { a with time := some k.clock }

def descriptorOfPath? (p : String) : Option Nat :=
  let numbered (start : String) : Option Nat :=
    if p.startsWith start then (p.drop start.length).toString.toNat? else none
  match p with
  | "/dev/stdin" => some 0
  | "/dev/stdout" => some 1
  | "/dev/stderr" => some 2
  | _ => (numbered "/dev/fd/").or (numbered "/proc/self/fd/")

def deviceAt? (l : Files.Location) : Option Device :=
  match l with
  | ["dev", "null"] => some .null
  | ["dev", "zero"] => some .zero
  | ["dev", "full"] => some .full
  | ["dev", "random"] => some .random
  | ["dev", "urandom"] => some .random
  | _ => none

def path (p : String) : Path := Path.ofText (Text.ofOctets p)

def resolve (process : Nat) (follow : Bool) (p : String) : Except FileError Files.Location :=
  k.files.resolve (k.directory process) follow (path p)

def namesOf (number : Nat) : List Files.Location :=
  k.files.entries.filterMap fun e => match e.2 with
    | .file n _ _ => if n = number then some e.1 else none
    | _ => none

def contentOf (number : Nat) : Files.Content :=
  let named := k.files.entries.findSome? fun e => match e.2 with
    | .file n c _ => if n = number then some c else none
    | _ => none
  (named.or ((k.unnamed.find? (·.1 = number)).map (·.2))).getD .empty

def defaultMode (executable : Bool) : Nat := if executable then 0o755 else 0o644

def factsOfFile (number : Nat) (executable : Bool) : Facts :=
  let a := k.attributesOf (.file number)
  { kind := .file, key := some (.file number), size := (k.contentOf number).size
    mode := a.mode.getD (defaultMode executable), time := a.time.getD (startOfTime - 1000000000 : Nat)
    names := (k.namesOf number).length }

def factsOfNode (l : Files.Location) (n : Files.Node) : Facts :=
  let a := k.attributesOf (.place l)
  let time := a.time.getD (startOfTime - 1000000000 : Nat)
  match n with
  | .file number _ executable => k.factsOfFile number executable
  | .directory =>
    { kind := .directory, key := some (.place l), size := 4096, mode := a.mode.getD 0o755, time
      names := 2 + ((k.files.children l).filter (·.isDirectory)).length }
  | .link target =>
    { kind := .link (Text.toOctets target), key := some (.place l), size := target.utf8ByteSize
      mode := 0o777, time, names := 1 }
  | .other =>
    let kind := if l.head? = some "dev" then .device (deviceAt? l) else .pipe
    { kind, key := some (.place l), size := 0, time, names := 1
      mode := if kind = .pipe then a.mode.getD 0o644 else 0o666 }

def factsOfTarget (t : Target) : Facts :=
  match t with
  | .file number => k.factsOfFile number false
  | .directory l => k.factsOfNode l .directory
  | .device d =>
    { kind := .device (some d), key := none, size := 0, mode := 0o666, time := k.clock, names := 1 }
  | _ => { kind := .pipe, key := none, size := 0, mode := 0o600, time := k.clock, names := 1 }

def facts (process : Nat) (follow : Bool) (p : String) : Except FileError Facts := do
  match if follow then descriptorOfPath? p else none with
  | some d =>
    match k.opened? process d with
    | some (_, s) => return k.factsOfTarget s.target
    | none => throw (.os .noEntry)
  | none =>
    let l ← k.resolve process follow p
    match k.files.get? l with
    | some n => return k.factsOfNode l n
    | none => throw (.os .noEntry)

def list (process : Nat) (p : String) : Except FileError (List String) := do
  let entries ← k.files.list (k.directory process) (path p)
  return entries.map fun e => Text.toOctets e.name

def keepOpen (before : Files.Tree) : Kernel :=
  let old : Kernel := { k with files := before }
  let lost := k.streams.filterMap fun s => match s.2.target with
    | .file n =>
      if (k.namesOf n).isEmpty && !(old.namesOf n).isEmpty then some (n, old.contentOf n) else none
    | _ => none
  if lost.isEmpty then k
  else { k with unnamed := lost ++ k.unnamed.filter fun f => !lost.any (·.1 = f.1) }

def change (f : Files.Tree → Except FileError Files.Tree) : Except FileError Kernel := do
  let files ← f k.files
  let k' := ({ k with files }).record (.files fun t => (f t).toOption.getD t)
  return k'.keepOpen k.files

inductive Edit
  | write (place : Nat) (bytes : Bytes)
  | resize (size : Nat)

namespace Edit

def apply (c : Files.Content) : Edit → Files.Content
  | write place bytes => c.write place bytes
  | resize size => c.resize size

def toEffect : Edit → Effect
  | write place bytes => .errAt place bytes
  | resize size => .errCut size

end Edit

def editUnnamed (number : Nat) (e : Edit) : Kernel :=
  { k with unnamed := k.unnamed.map fun f => if f.1 = number then (f.1, e.apply f.2) else f }

def edit (number : Nat) (e : Edit) : Kernel :=
  let k := k.touch (.file number)
  match (k.namesOf number).head? with
  | some l =>
    let update (t : Files.Tree) : Files.Tree :=
      match t.get? l with
      | some (.file n c x) => t.setFile n (e.apply c) x
      | _ => t
    ({ k with files := update k.files }).record (.files update)
  | none =>
    let k := k.editUnnamed number e
    if k.scratch = some number then k.record e.toEffect else k

def maskedMode (process mode : Nat) : Nat :=
  mode &&& (0o7777 ^^^ (((k.process? process).map (·.mask)).getD 0))

def makeFile (process : Nat) (l : Files.Location) : Nat × Kernel :=
  let number := k.files.nextNumber
  let make (t : Files.Tree) : Files.Tree :=
    if (t.get? l).isSome then t else t.insertFile l .empty false
  let k := ({ k with files := make k.files }).record (.files make)
  let mode := k.maskedMode process 0o666
  let k := if mode = defaultMode false then k
    else k.setAttributes (.file number) fun a => { a with mode := some mode }
  (number, k.touch (.file number))

def setMode (process mode : Nat) (p : String) : Except FileError Kernel := do
  let l ← k.resolve process true p
  match k.files.get? l with
  | none => throw (.os .noEntry)
  | some (.file number ..) =>
    let executable := mode &&& 0o111 != 0
    let update (t : Files.Tree) : Files.Tree :=
      match t.get? l with
      | some (.file n c _) => t.setFile n c executable
      | _ => t
    let k := ({ k with files := update k.files }).record (.files update)
    return k.setAttributes (.file number) fun a => { a with mode := some mode }
  | some _ => return k.setAttributes (.place l) fun a => { a with mode := some mode }

def keyOf (process : Nat) (follow : Bool) (p : String) : Except FileError Key := do
  let l ← k.resolve process follow p
  match k.files.get? l with
  | none => throw (.os .noEntry)
  | some (.file number ..) => return .file number
  | some _ => return .place l

def forgetPlace (l : Files.Location) : Kernel :=
  { k with attributes := k.attributes.filter fun a => match a.1 with
      | .place m => !l.isPrefixOf m
      | .file _ => true }

def makeDirectory (process mode : Nat) (p : String) : Except FileError Kernel := do
  let l ← k.resolve process false p
  let k ← k.change fun t => t.makeDirectory (k.directory process) (path p)
  return (k.forgetPlace l).setAttributes (.place l) fun _ =>
    { mode := some (mode &&& 0o7777), time := some k.clock }

def makeLink (process : Nat) (target p : String) : Except FileError Kernel := do
  if target.isEmpty then throw (.os .noEntry)
  let l ← k.resolve process false p
  let k ← k.change fun t => t.makeLink (k.directory process) (Text.ofOctets target) (path p)
  return (k.forgetPlace l).touch (.place l)

def makeNamedPipe (process mode : Nat) (p : String) : Except FileError Kernel := do
  let l ← k.resolve process false p
  let k ← k.change fun t =>
    if (t.get? l).isSome then throw (.os .alreadyExists) else return t.insert l .other
  return (k.forgetPlace l).setAttributes (.place l) fun _ =>
    { mode := some mode, time := some k.clock }

def link (process : Nat) (follow : Bool) (a b : String) : Except FileError Kernel := do
  let cwd := k.directory process
  let la ← k.resolve process follow a
  let source : Path := Path.ofText ("/" ++ "/".intercalate la)
  k.change fun t => t.makeName cwd source (path b)

def remove (process : Nat) (directory : Bool) (p : String) : Except FileError Kernel := do
  let l ← k.resolve process false p
  let cwd := k.directory process
  let k ← k.change fun t =>
    if directory then t.removeDirectory cwd (path p) else t.removeFile cwd (path p)
  return k.forgetPlace l

def rename (process : Nat) (a b : String) : Except FileError Kernel := do
  let cwd := k.directory process
  let la ← k.resolve process false a
  let lb ← k.resolve process false b
  let k ← k.change fun t => t.rename cwd (path a) (path b)
  if la = lb then return k
  let k := k.forgetPlace lb
  return { k with attributes := k.attributes.map fun e => match e.1 with
      | .place m => if la.isPrefixOf m then (.place (lb ++ m.drop la.length), e.2) else e
      | .file _ => e }

end Kernel

end CompiledModels
