import CompiledModels.Shell.Expand

/-!
Redirections: they are made one after the other, and undone when the command is done.
-/

namespace CompiledModels.Shell

open Kernel (Run)

inductive Prepared
  | file (descriptor : Nat) (mode : RedirectMode) (p : String)
  | same (descriptor : Nat) (source : Option Nat)
  | here (descriptor : Nat) (text : List Part)

namespace Prepared

def descriptor : Prepared → Nat
  | file d _ _ => d
  | same d _ => d
  | here d _ => d

end Prepared

structure Kept where
  descriptor : Nat
  copy : Option Nat

def RedirectMode.toMode : RedirectMode → Kernel.Mode
  | .read => .reading
  | .append => .appending
  | .both => { reads := true, writes := true, creates := true }
  | _ => .writing

namespace Eval

variable (substitute : Command → Eval String)

def prepare : List Redirection → Eval (List Prepared)
  | [] => return []
  | r :: rs => do
    let first : Prepared ← match r with
      | .here d text => pure (.here d text)
      | .named d .duplicate word =>
        let text ← wordText substitute .front word
        match text.toList with
        | ['-'] => pure (.same d none)
        | [c] =>
          if c.isDigit then pure (.same d (some (c.toNat - 0x30)))
          else
            modify fun s => { s with line := s.reached }
            fail "Syntax error: Bad fd number"
        | _ =>
          modify fun s => { s with line := s.reached }
          fail "Syntax error: Bad fd number"
      | .named d mode word => pure (.file d mode (← wordText substitute .front word))
    return first :: (← prepare rs)

def openWords (creating : Bool) (e : FileError) : String :=
  if e = .os .noEntry || e = .os .notDirectory then
    (if creating then "Directory nonexistent" else "No such file")
  else errorWords e

def carefulMode (p : String) : Eval (Except FileError Kernel.Mode) := do
  match ← lift (Run.facts true p) with
  | .error _ => return .ok { Kernel.Mode.writing with onlyNew := true }
  | .ok f => if f.isFile then return .error (.os .alreadyExists) else return .ok { writes := true }

def openFor (mode : RedirectMode) (p : String) : Eval (Except FileError Nat) := do
  let careful := mode = .write && (← hasOption 'C')
  let m ← if careful then carefulMode p else pure (.ok mode.toMode)
  match m with
  | .error e => return .error e
  | .ok m => return (← lift (Run.openFile p m))

def smallText : Nat := 4096

def openText (text : String) : Eval Nat := do
  let bytes := Text.octetBytes text
  let (r, w) ← lift (Run.act fun process k => k.makePipe process)
  if bytes.length ≤ smallText then
    let _ ← lift (Run.write w bytes)
  else
    let _ ← lift (Run.fork (do
      Run.close r
      let _ ← Run.write w bytes
      return 0))
  lift (Run.close w)
  return r

def keep (d : Nat) : Eval Kept := do
  let copy : Option Nat ← lift (Run.act fun process k =>
    match k.descriptor? process d with
    | none => (none, k)
    | some e =>
      let n := k.freeDescriptor process 10
      (some n, (k.install process n e.stream true).close process d))
  return ⟨d, copy⟩

def keepOnce (d : Nat) (kept : List Kept) : Eval (List Kept) := do
  if kept.any (·.descriptor = d) then return kept else return (← keep d) :: kept

def moveDescriptor (source d : Nat) : Eval Unit :=
  lift (Run.change fun process k =>
    match k.duplicate process source d false with
    | .ok k => k.close process source
    | .error _ => k)

def redirectOne (kept : List Kept) (r : Prepared) : Eval (Option String × List Kept) := do
  let install (source : Nat) : Eval (Option String × List Kept) := do
    let d := r.descriptor
    if source = d then
      return (none, if kept.any (·.descriptor = d) then kept else ⟨d, none⟩ :: kept)
    else
      let kept ← keepOnce d kept
      moveDescriptor source d
      return (none, kept)
  match r with
  | .file _ mode p =>
    match ← openFor mode p with
    | .error e =>
      let creating := mode != .read
      let verb := if creating then "cannot create " else "cannot open "
      return (some (verb ++ p ++ ": " ++ openWords creating e), kept)
    | .ok source => install source
  | .here _ text => install (← openText (← wordText substitute .nowhere text))
  | .same d none =>
    let kept ← keepOnce d kept
    lift (Run.close d)
    return (none, kept)
  | .same d (some source) =>
    if source = d then return (none, kept)
    else
      let kept ← keepOnce d kept
      match ← lift (Run.tryChange fun process k => k.duplicate process source d false) with
      | .ok () => return (none, kept)
      | .error e => return (some (toString source ++ ": " ++ errorWords e), kept)

def redirectAll (kept : List Kept) : List Prepared → Eval (Option String × List Kept)
  | [] => return (none, kept)
  | r :: rs => do
    match ← redirectOne substitute kept r with
    | (none, kept) => redirectAll kept rs
    | bad => return bad

def giveBack : List Kept → Eval Unit
  | [] => return ()
  | ⟨d, none⟩ :: rest => do
    lift (Run.close d)
    giveBack rest
  | ⟨d, some copy⟩ :: rest => do
    moveDescriptor copy d
    giveBack rest

def letStay : List Kept → Eval Unit
  | [] => return ()
  | ⟨_, none⟩ :: rest => letStay rest
  | ⟨_, some copy⟩ :: rest => do
    lift (Run.close copy)
    letStay rest

/-- Runs `body` with redirections; it is told where the diagnostics from before are. The answer says
whether the redirections could be made, or else a complaint was made. They stay behind `body` if
`lasting`. -/
def redirecting (rs : List Prepared) (lasting : Bool) (body : Nat → Eval Unit) : Eval Bool := do
  if rs.isEmpty then
    body 2
    return true
  let r : Except Flow (Option String × List Kept) ← ((redirectAll substitute [] rs).run : Run State _)
  match r with
  | .error flow => throw flow
  | .ok (some message, kept) =>
    complain message
    giveBack kept
    setStatus 2
    return false
  | .ok (none, kept) =>
    let before := ((kept.find? (·.descriptor = 2)).bind (·.copy)).getD 2
    andThen (body before) (if lasting then letStay kept else giveBack kept)
    return true

end Eval

end CompiledModels.Shell
