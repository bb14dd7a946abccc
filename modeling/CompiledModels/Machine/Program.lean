import CompiledModels.Machine.Step

/-!
Programs as trees of steps: after each step the reply decides how to go on. The same program can
be run alone, step by step beside others, or up to a point where it is cut off.
-/

namespace CompiledModels

inductive Program (α : Type) : Type
  | done (a : α)
  | step (s : Step) (next : s.Reply → Program α)

namespace Program

variable {α β : Type}

def bind (p : Program α) (f : α → Program β) : Program β :=
  match p with
  | done a => f a
  | step s next => step s fun r => (next r).bind f

instance : Monad Program where
  pure := done
  bind := bind

theorem bind_done (p : Program α) : p.bind done = p := by
  induction p with
  | done a => rfl
  | step s next ih => simp only [bind, ih]

theorem bind_assoc {γ : Type} (p : Program α) (f : α → Program β) (g : β → Program γ) :
    (p.bind f).bind g = p.bind fun a => (f a).bind g := by
  induction p with
  | done a => rfl
  | step s next ih => simp only [bind, ih]

instance : LawfulMonad Program :=
  .mk' Program (fun p => bind_done p) (fun _ _ => rfl) (fun p f g => bind_assoc p f g)

def perform (s : Step) : Program s.Reply := step s done

def run (m : Machine) : Program α → World → Option (α × World)
  | done a, w => some (a, w)
  | step s next, w =>
    match s.exec m w with
    | none => none
    | some (r, w) => run m (next r) w

end Program

abbrev Attempt (ε α : Type) := ExceptT ε Program α

namespace Attempt

variable {ε ε' α : Type}

def of (p : Program (Except ε' α)) (wrap : ε' → ε) : Attempt ε α :=
  ExceptT.mk do
    match ← p with
    | .ok a => return .ok a
    | .error e => return .error (wrap e)

def ofExcept (r : Except ε' α) (wrap : ε' → ε) : Attempt ε α :=
  ExceptT.mk (pure (match r with
    | .ok a => .ok a
    | .error e => .error (wrap e)))

def andThen (p : Attempt ε α) (after : Program Unit) : Attempt ε α :=
  ExceptT.mk do
    let r ← p.run
    after
    return r

end Attempt

end CompiledModels
