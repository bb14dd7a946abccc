import CompiledModels.Proofs.Steps

/-!
Machines on which any step on the files may fail.
-/

namespace CompiledModels

open Files

/-- How a step on the files may fail: with any error, and without having done anything; but what
was to be written or copied may have been so in part. -/
def Step.Fails (w : World) : (s : Step) → s.Reply → World → Prop
  | .stat .., r, w' | .list _, r, w' | .read _, r, w' | .makeDirectory _, r, w'
  | .removeFile _, r, w' | .removeDirectory _, r, w' | .rename .., r, w' => r.isOk = false ∧ w' = w
  | .write p bytes, r, w' => r.isOk = false ∧ (w' = w ∨ ∃ part, part <+: bytes ∧
      ∃ t, w.files.write w.directory p ⟨part, 0⟩ = .ok t ∧ w' = { w with files := t })
  | .copy _ p, r, w' => r.isOk = false ∧ (w' = w ∨
      ∃ c t, w.files.write w.directory p c = .ok t ∧ w' = { w with files := t })
  | _, _, _ => False

def Step.faulty (m : Machine) : Answers := fun w s r w' => answers m w s r w' ∨ Fails w s r w'

def Step.Denies (w : World) : (s : Step) → s.Reply → World → Prop
  | .openLockFile _, r, w' | .acquire _, r, w' => r.isOk = false ∧ w' = w
  | _, _, _ => False

def Step.Misses : (s : Step) → s.Reply → Prop
  | .stat .., r | .list _, r | .read _, r | .write .., r | .makeDirectory _, r | .removeFile _, r
  | .removeDirectory _, r | .rename .., r | .copy .., r | .openLockFile _, r | .acquire _, r =>
    ∃ e, r = .error e ∧ e.isMissing = true
  | _, _ => False

/-- The answers of a machine on which any step on the files or the locks may fail, but nothing that
is there is said to be missing. -/
def Step.flawed (m : Machine) : Answers := fun w s r w' =>
  answers m w s r w' ∨ (Fails w s r w' ∨ Denies w s r w') ∧ ¬s.Misses r

namespace Step

variable {m : Machine} {w w' : World} {p q : Path}

theorem flawed_of_answers {s : Step} {r : s.Reply} (h : answers m w s r w') : flawed m w s r w' :=
  .inl h

theorem answers_of_misses {s : Step} {r : s.Reply} (h : flawed m w s r w') (hr : s.Misses r) :
    answers m w s r w' := by
  rcases h with h | ⟨-, hn⟩
  · exact h
  · exact absurd hr hn

theorem faulty_of_flawed {s : Step} {r : s.Reply} (h : flawed m w s r w')
    (ho : ∀ p, s ≠ .openLockFile p) (ha : ∀ n, s ≠ .acquire n) : faulty m w s r w' := by
  rcases h with h | ⟨h | h, -⟩
  · exact .inl h
  · exact .inr h
  · cases s with
    | openLockFile p => exact absurd rfl (ho p)
    | acquire n => exact absurd rfl (ha n)
    | _ => exact h.elim

def Settles (w : World) (op : Except FileError Tree) (r : Except FileError Unit) (w' : World) :
    Prop :=
  (∃ e, r = .error e ∧ w' = w) ∨ (r = .ok () ∧ ∃ t, op = .ok t ∧ w' = { w with files := t })

theorem settles_of_onFiles {op : Except FileError Tree} {r : Except FileError Unit}
    (h : onFiles w op = (r, w')) : Settles w op r w' := by
  cases op with
  | ok t =>
    simp only [onFiles, Prod.mk.injEq] at h
    exact .inr ⟨h.1.symm, t, rfl, h.2.symm⟩
  | error e =>
    simp only [onFiles, Prod.mk.injEq] at h
    exact .inl ⟨e, h.1.symm, h.2.symm⟩

theorem eq_error_of_onFiles {op : Except FileError Tree} {e : FileError}
    (h : onFiles w op = (.error e, w')) : op = .error e := by
  cases op with
  | ok t => simp [onFiles] at h
  | error e' =>
    simp only [onFiles, Prod.mk.injEq, Except.error.injEq] at h
    exact congrArg _ h.1

theorem error_of_isOk {α ε : Type} {r : Except ε α} (h : r.isOk = false) : ∃ e, r = .error e := by
  cases r with
  | ok a => simp [Except.isOk, Except.toBool] at h
  | error e => exact ⟨e, rfl⟩

theorem settles_of_faulty {op : Except FileError Tree} {r : Except FileError Unit}
    (h : some (onFiles w op) = some (r, w') ∨ r.isOk = false ∧ w' = w) : Settles w op r w' := by
  rcases h with h | ⟨hr, hw⟩
  · exact settles_of_onFiles (Option.some.inj h)
  · obtain ⟨e, he⟩ := error_of_isOk hr
    exact .inl ⟨e, he, hw⟩

theorem reads_of_faulty {α : Type} {op r : Except FileError α}
    (h : some (op, w) = some (r, w') ∨ r.isOk = false ∧ w' = w) :
    w' = w ∧ ∀ a, r = .ok a → op = .ok a := by
  rcases h with h | ⟨hr, hw⟩
  · simp only [Option.some.injEq, Prod.mk.injEq] at h
    exact ⟨h.2.symm, fun a ha => h.1.trans ha⟩
  · obtain ⟨e, he⟩ := error_of_isOk hr
    exact ⟨hw, fun a ha => by simp [he] at ha⟩

namespace faulty

theorem stat {follow : Bool} {r : Except FileError Node}
    (h : faulty m w (.stat p follow) r w') :
    w' = w ∧ ∀ n, r = .ok n → w.files.stat w.directory follow p = .ok n :=
  reads_of_faulty h

theorem list {r : Except FileError (List DirectoryEntry)} (h : faulty m w (.list p) r w') :
    w' = w ∧ ∀ es, r = .ok es → w.files.list w.directory p = .ok es :=
  reads_of_faulty h

theorem makeDirectory {r : Except FileError Unit} (h : faulty m w (.makeDirectory p) r w') :
    Settles w (w.files.makeDirectory w.directory p) r w' :=
  settles_of_faulty h

theorem removeFile {r : Except FileError Unit} (h : faulty m w (.removeFile p) r w') :
    Settles w (w.files.removeFile w.directory p) r w' :=
  settles_of_faulty h

theorem removeDirectory {r : Except FileError Unit} (h : faulty m w (.removeDirectory p) r w') :
    Settles w (w.files.removeDirectory w.directory p) r w' :=
  settles_of_faulty h

theorem rename {r : Except FileError Unit} (h : faulty m w (.rename p q) r w') :
    Settles w (w.files.rename w.directory p q) r w' :=
  settles_of_faulty h

theorem write {bytes : Bytes} {r : Except FileError Unit} (h : faulty m w (.write p bytes) r w') :
    Settles w (w.files.write w.directory p ⟨bytes, 0⟩) r w' ∨
      ∃ e, r = .error e ∧ ∃ c t, w.files.write w.directory p c = .ok t ∧
        w' = { w with files := t } := by
  rcases h with h | ⟨hr, rfl | ⟨part, _, t, ht, rfl⟩⟩
  · exact .inl (settles_of_onFiles (Option.some.inj h))
  · obtain ⟨e, he⟩ := error_of_isOk hr
    exact .inl (.inl ⟨e, he, rfl⟩)
  · obtain ⟨e, he⟩ := error_of_isOk hr
    exact .inr ⟨e, he, _, t, ht, rfl⟩

theorem copy {r : Except FileError Unit} (h : faulty m w (.copy p q) r w') :
    Settles w (w.files.copy w.directory p q) r w' ∨
      ∃ e, r = .error e ∧ ∃ c t, w.files.write w.directory q c = .ok t ∧
        w' = { w with files := t } := by
  rcases h with h | ⟨hr, rfl | ⟨c, t, ht, rfl⟩⟩
  · exact .inl (settles_of_onFiles (Option.some.inj h))
  · obtain ⟨e, he⟩ := error_of_isOk hr
    exact .inl (.inl ⟨e, he, rfl⟩)
  · obtain ⟨e, he⟩ := error_of_isOk hr
    exact .inr ⟨e, he, c, t, ht, rfl⟩

theorem emit {e : Event} {r : Unit} (h : faulty m w (.emit e) r w') :
    w' = { w with events := w.events ++ [e] } := by
  simpa [faulty, answers, exec, Fails, eq_comm] using h

theorem environment {r : Environment} (h : faulty m w .environment r w') :
    r = w.environment ∧ w' = w := by
  simpa [faulty, answers, exec, Fails, eq_comm] using h

theorem drawSuffix {r : String} (h : faulty m w .drawSuffix r w') :
    r = (World.drawSuffix w.seed).1 ∧ ∃ seed, w' = { w with seed } := by
  simp only [faulty, answers, exec, Fails, or_false, Option.some.injEq, Prod.mk.injEq] at h
  exact ⟨h.1.symm, _, h.2.symm⟩

end faulty

end Step

end CompiledModels
