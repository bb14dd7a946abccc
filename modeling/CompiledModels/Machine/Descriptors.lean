import CompiledModels.Files.Error
import CompiledModels.Text.Utf8

/-!
The table of file descriptors of a process. Several descriptors may refer to one open file, and
then share its position.
-/

namespace CompiledModels

/-- A file or stream that is open: what it holds and where it is read and written next. -/
structure OpenFile where
  content : Bytes
  position : Nat

namespace OpenFile

def empty : OpenFile := ⟨[], 0⟩

def write (f : OpenFile) (bytes : Bytes) : OpenFile :=
  ⟨Bytes.overwrite f.content f.position bytes, f.position + bytes.length⟩

def writeAt (f : OpenFile) (place : Nat) (bytes : Bytes) : OpenFile :=
  { f with content := Bytes.overwrite f.content place bytes }

def cut (f : OpenFile) (size : Nat) : OpenFile := { f with content := f.content.take size }

end OpenFile

/-- Descriptors with the numbers of the files they refer to, and all files by their numbers. -/
structure Descriptors where
  table : List (Nat × Nat)
  files : List OpenFile

namespace Descriptors

def output : Nat := 1

def diagnostics : Nat := 2

def initial : Descriptors :=
  ⟨[(0, 0), (output, 1), (diagnostics, 2)], [.empty, .empty, .empty]⟩

def target? (t : Descriptors) (d : Nat) : Option Nat :=
  (t.table.find? (·.1 = d)).map (·.2)

def isFree (t : Descriptors) (d : Nat) : Bool := (t.target? d).isNone

def lowestFree (t : Descriptors) : Nat :=
  ((List.range (t.table.length + 1)).find? t.isFree).getD t.table.length

def set (t : Descriptors) (d file : Nat) : Descriptors :=
  { t with table := (t.table.filter (·.1 ≠ d)) ++ [(d, file)] }

def openScratch (t : Descriptors) : Nat × Descriptors :=
  let d := t.lowestFree
  (d, { (t.set d t.files.length) with files := t.files ++ [.empty] })

def duplicate (t : Descriptors) (d : Nat) : Except Errno (Nat × Descriptors) :=
  match t.target? d with
  | some file => .ok (t.lowestFree, t.set t.lowestFree file)
  | none => .error .badDescriptor

def redirect (t : Descriptors) (d dest : Nat) : Except Errno Descriptors :=
  match t.target? d with
  | some file => .ok (t.set dest file)
  | none => .error .badDescriptor

def close (t : Descriptors) (d : Nat) : Descriptors :=
  { t with table := t.table.filter (·.1 ≠ d) }

def update (t : Descriptors) (d : Nat) (f : OpenFile → OpenFile) : Descriptors :=
  match t.target? d with
  | some file => { t with files := t.files.modify file f }
  | none => t

def write (t : Descriptors) (d : Nat) (bytes : Bytes) : Descriptors :=
  t.update d (·.write bytes)

def rewind (t : Descriptors) (d : Nat) : Except Errno Descriptors :=
  if t.isFree d then .error .badDescriptor
  else .ok (t.update d fun f => { f with position := 0 })

def readToEnd (t : Descriptors) (d : Nat) : Except Errno (Bytes × Descriptors) :=
  match (t.target? d).bind (t.files[·]?) with
  | some f =>
    .ok (f.content.drop f.position,
      t.update d fun f => { f with position := max f.position f.content.length })
  | none => .error .badDescriptor

def contentOf (t : Descriptors) (file : Nat) : Bytes :=
  ((t.files[file]?).map (·.content)).getD []

end Descriptors

end CompiledModels
