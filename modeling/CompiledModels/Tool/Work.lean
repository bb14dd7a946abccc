import CompiledModels.Kernel.Execute

namespace CompiledModels.Tool

open Kernel (Run)

structure Context where
  name : String
  arguments : List String
  bindings : List (String × String)
  written : List String := []
  size : Nat := 0
  lost : Option FileError := none
  status : Nat := 0
  trouble : Nat := 1
  usage : String := ""
  failure : String := "write error"
  lossStatus : Nat := 1

abbrev Work (α : Type) : Type := Run Context α

def maxTurns : Nat := 1000000000

namespace Work

def context : Work Context := get

def hang {α : Type} : Work α := Run.await fun _ _ => none

def bufferSize : Nat := 4096

def flush : Work Unit := do
  let c ← get
  if c.written.isEmpty then return ()
  set { c with written := [], size := 0 }
  match ← Run.write 1 (Text.octetBytes (String.join c.written.reverse)) with
  | .ok () => pure ()
  | .error e => modify fun c => { c with lost := c.lost.or (some e) }

def put (s : String) : Work Unit := do
  modify fun c => { c with written := s :: c.written, size := c.size + s.length }
  if bufferSize ≤ (← get).size then flush

def putLine (s : String) : Work Unit := put (s ++ "\n")

def putChars (cs : List Char) : Work Unit := put (String.ofList cs)

def tell (s : String) : Work Unit := do
  flush
  Run.print 2 s

def complain (message : String) : Work Unit := do
  tell ((← get).name ++ ": " ++ message ++ "\n")

def words : FileError → String
  | .os e => e.words
  | e => e.text

def setStatus (n : Nat) : Work Unit := modify fun c => { c with status := n }

def fault (message : String) : Work Unit := do
  complain message
  modify fun c => { c with status := max c.status 1 }

def finish {α : Type} (status : Nat) : Work α := do
  flush
  let c ← get
  match c.lost with
  | some e =>
    complain (c.failure ++ ": " ++ words e)
    Run.leave (.code c.lossStatus)
  | none => Run.leave (.code status)

def refuse {α : Type} (message : String) : Work α := do
  complain message
  finish (← get).trouble

def pointToHelp {α : Type} : Work α := do
  let c ← get
  tell c.usage
  finish c.trouble

def misuse {α : Type} (message : String) : Work α := do
  complain message
  pointToHelp

def setting? (name : String) : Work (Option String) :=
  return ((← get).bindings.find? (·.1 = name)).map (·.2)

def each {α : Type} (body : α → Work Unit) : List α → Work Unit
  | [] => return ()
  | a :: rest => do
    body a
    each body rest

def openInput (p : String) : Work (Except FileError Nat) :=
  if p == "-" then return .ok 0 else Run.openFile p .reading

def closeInput (d : Nat) : Work Unit := if d = 0 then return () else Run.close d

def withFiles (message : String → String → String) (body : String → Nat → Work Unit) :
    List String → Work Unit :=
  each fun p => do
    match ← openInput p with
    | .error e => fault (message p (words e))
    | .ok d =>
      body p d
      closeInput d

def orInput (files : List String) : List String := if files.isEmpty then ["-"] else files

def inBlocks (d : Nat) (body : List Char → Work Bool) : Nat → Work (Option FileError)
  | 0 => hang
  | turns + 1 => do
    match ← Run.read d Run.blockSize with
    | .error e => return some e
    | .ok [] => return none
    | .ok bytes =>
      if ← body (Text.octets bytes).toList then inBlocks d body turns else return none

def contents (p : String) : Work (Except FileError String) := do
  match ← openInput p with
  | .error e => return .error e
  | .ok d =>
    let bytes ← Run.readAll d
    closeInput d
    match bytes with
    | .ok bytes => return .ok (Text.octets bytes)
    | .error e => return .error e

end Work

structure Reader where
  descriptor : Nat
  pending : List Char := []
  atEnd : Bool := false

structure Line where
  text : List Char
  ended : Bool

namespace Line

def full (l : Line) (stop : Char := '\n') : String :=
  String.ofList (if l.ended then l.text ++ [stop] else l.text)

end Line

namespace Reader

variable (stop : Char)

def fill (r : Reader) : Nat → Work (Except FileError Reader)
  | 0 => Work.hang
  | turns + 1 => do
    match ← Run.read r.descriptor Run.blockSize with
    | .error e => return .error e
    | .ok [] => return .ok { r with atEnd := true }
    | .ok bytes =>
      let new := (Text.octets bytes).toList
      let r := { r with pending := r.pending ++ new }
      if new.contains stop then return .ok r else fill r turns

def next? (r : Reader) : Work (Except FileError (Option Line × Reader)) := do
  let text := r.pending.takeWhile (· != stop)
  match r.pending.drop text.length with
  | _ :: rest =>
    Run.spend 0
    return .ok (some ⟨text, true⟩, { r with pending := rest })
  | [] =>
    match ← if r.atEnd then pure (.ok r) else fill stop r maxTurns with
    | .error e => return .error e
    | .ok r =>
      let text := r.pending.takeWhile (· != stop)
      match r.pending.drop text.length with
      | _ :: rest => return .ok (some ⟨text, true⟩, { r with pending := rest })
      | [] =>
        if text.isEmpty then return .ok (none, r)
        else return .ok (some ⟨text, false⟩, { r with pending := [] })

end Reader

namespace Reader

def forLines (stop : Char) (body : Line → Work Bool) : Nat → Reader → Work (Option FileError)
  | 0, _ => Work.hang
  | turns + 1, r => do
    match ← next? stop r with
    | .error e => return some e
    | .ok (none, _) => return none
    | .ok (some l, r) => if ← body l then forLines stop body turns r else return none

end Reader

def forLines (stop : Char) (d : Nat) (body : Line → Work Bool) : Work (Option FileError) :=
  Reader.forLines stop body maxTurns { descriptor := d }

def linesOf (stop : Char) (cs : List Char) : List Line :=
  let parts := Text.splitAll (· == stop) cs
  parts.dropLast.map (⟨·, true⟩) ++
    ((parts.getLast?.toList).filter (!·.isEmpty)).map (⟨·, false⟩)

def pointer (name : String) : String := "Try '" ++ name ++ " --help' for more information.\n"

structure Program where
  name : String
  trouble : Nat := 1
  usage : String → String := pointer
  failure : String := "write error"
  lossStatus : Nat := trouble
  main : Work Nat

def routine (p : Program) (i : Kernel.Image) : Kernel.Routine :=
  let whole : Work Unit := do
    let status ← p.main
    Work.finish status
  whole (fun _ _ => .ended (.code 0))
    { name := i.name, arguments := i.arguments, bindings := i.bindings
      trouble := p.trouble, usage := p.usage i.name, failure := p.failure
      lossStatus := p.lossStatus }

end CompiledModels.Tool
