import CompiledModels.Proofs.DescriptorTable
import CompiledModels.Proofs.Habits
import Mathlib.Logic.Relation

/-!
A redirection of the diagnostics from its begin to its end, while others write diagnostics and steps
fail: what it takes, what it gives back, and what it reads.
-/

namespace CompiledModels

open Program

namespace Capture

/-- How a redirection that has begun is ended: read, or left without reading. -/
inductive Ending
  | finish
  | drop

inductive Ended
  | refused (e : FileError)
  | finished (r : Except FileError String)
  | dropped

/-- One redirection from its begin to its end. A thread that redirects several times is one caller
for each. -/
def session (ending : Ending) : Program Ended := do
  match ← begin with
  | .error e => return .refused e
  | .ok c =>
    match ending with
    | .finish => return .finished (← c.finish)
    | .drop =>
      c.drop
      return .dropped

end Capture

abbrev Log (ι : Type) := List (Option ι × Taken)

namespace Log

variable {ι : Type}

def redirected : Log ι → Bool
  | [] => false
  | (_, ⟨.beginRedirection, _⟩) :: _ => false
  | (_, ⟨.redirect _ _, r⟩) :: _ => r.isOk
  | _ :: log => redirected log

def written : Log ι → Bytes
  | [] => []
  | (_, ⟨.print _ bytes, _⟩) :: log => written log ++ bytes
  | _ :: log => written log

def Holds (log : Log ι) (i : ι) (bytes : Bytes) : Prop :=
  ∃ later scratch during saved earlier, log = later ++
      (some i, ⟨.redirect saved Descriptors.diagnostics, .ok ()⟩) ::
        (during ++ (some i, ⟨.redirect scratch Descriptors.diagnostics, .ok ()⟩) :: earlier) ∧
    (∀ t ∈ during, ∃ part, t = (none, ⟨.print Descriptors.diagnostics part, ()⟩)) ∧
    bytes = written during

def Tells (log : Log ι) (i : ι) (r : Except FileError String) : Prop :=
  ∀ text, r = .ok text → ∃ bytes, log.Holds i bytes ∧ text = Text.decodeLossy bytes

variable {log : Log ι} {i : ι}

theorem Holds.cons {bytes : Bytes} (h : log.Holds i bytes) (t : Option ι × Taken) :
    Log.Holds (t :: log) i bytes := by
  obtain ⟨later, scratch, during, saved, earlier, rfl, hduring⟩ := h
  exact ⟨t :: later, scratch, during, saved, earlier, rfl, hduring⟩

theorem Tells.cons {r : Except FileError String} (h : log.Tells i r) (t : Option ι × Taken) :
    Log.Tells (t :: log) i r := by
  intro text htext
  obtain ⟨bytes, hbytes, rfl⟩ := h text htext
  exact ⟨bytes, hbytes.cons t, rfl⟩

end Log

/-- The errors that a step of a redirection may be answered by: only the step that gives the
diagnostics back has none. -/
inductive Refuses {ι : Type} (log : Log ι) : (s : Step) → s.Reply → Prop
  | flush (d : Nat) (e : FileError) : Refuses log (.flush d) (.error e)
  | openScratch (e : FileError) : Refuses log .openScratch (.error e)
  | duplicate (d : Nat) (e : FileError) : Refuses log (.duplicate d) (.error e)
  | redirect (d dest : Nat) (e : FileError) (h : log.redirected = false) :
      Refuses log (.redirect d dest) (.error e)
  | rewind (d : Nat) (e : FileError) : Refuses log (.rewind d) (.error e)
  | readToEnd (d : Nat) (e : FileError) : Refuses log (.readToEnd d) (.error e)

structure Sight (ι : Type) where
  world : World
  log : Log ι

namespace Sight

variable {ι : Type}

def after (x : Sight ι) (i : ι) (s : Step) (r : s.Reply) (w : World) : Sight ι :=
  ⟨w, (some i, ⟨s, r⟩) :: x.log⟩

def print (x : Sight ι) (bytes : Bytes) : Sight ι :=
  ⟨{ x.world with descriptors := x.world.descriptors.write Descriptors.diagnostics bytes },
    (none, ⟨.print Descriptors.diagnostics bytes, ()⟩) :: x.log⟩

def Answers (m : Machine) (x : Sight ι) (s : Step) (r : s.Reply) (w : World) : Prop :=
  s.exec m x.world = some (r, w) ∨ Refuses x.log s r ∧ w = x.world

abbrev Written (x y : Sight ι) : Prop := Relation.ReflTransGen (fun x y => ∃ bytes, y = x.print bytes) x y

def Safe {α : Type} (m : Machine) (i : ι) (post : α → Sight ι → Prop) : Program α → Sight ι → Prop
  | .done a, x => post a x
  | .step s next, x => x.world.redirecting = true ∧ ∀ y, x.Written y → ∀ r w, y.Answers m s r w →
      Safe m i post (next r) (y.after i s r w)

abbrev Either {ε α : Type} (failed : Sight ι → Prop) (done : α → Sight ι → Prop) :
    Except ε α → Sight ι → Prop
  | .error _, x => failed x
  | .ok a, x => done a x

end Sight

namespace Sight.Safe

variable {ι α β : Type} {m : Machine} {i : ι} {p : Program α} {x y : Sight ι}
  {post post' : α → Sight ι → Prop}

theorem weaken (h : Safe m i post p x) (hp : ∀ a y, post a y → post' a y) : Safe m i post' p x := by
  induction p generalizing x with
  | done a => exact hp a x h
  | step s next ih => exact ⟨h.1, fun y hy r w hr => ih r (h.2 y hy r w hr)⟩

theorem next {f : α → Program β} {post : β → Sight ι → Prop} {Q : α → Sight ι → Prop}
    (h : Safe m i Q p x) (hf : ∀ a y, Q a y → Safe m i post (f a) y) :
    Safe m i post (p >>= f) x := by
  induction p generalizing x with
  | done a => exact hf a x h
  | step s next ih => exact ⟨h.1, fun y hy r w hr => ih r (h.2 y hy r w hr)⟩

theorem perform {s : Step} {post : s.Reply → Sight ι → Prop} {J : Sight ι → Prop} (hx : J x)
    (hprint : ∀ y bytes, J y → J (y.print bytes)) (htaken : ∀ y, J y → y.world.redirecting = true)
    (h : ∀ y, J y → ∀ r w, y.Answers m s r w → post r (y.after i s r w)) :
    Safe m i post (Program.perform s) x := by
  have hstays : ∀ y, x.Written y → J y := by
    intro y hy
    induction hy with
    | refl => exact hx
    | tail _ hz ih =>
      obtain ⟨bytes, rfl⟩ := hz
      exact hprint _ bytes ih
  exact ⟨htaken x hx, fun y hy r w hr => h y (hstays y hy) r w hr⟩

theorem print {s : Step} {next : s.Reply → Program α} (h : Safe m i post (.step s next) x)
    (bytes : Bytes) : Safe m i post (.step s next) (x.print bytes) :=
  ⟨h.1, fun y hy r w hr => h.2 y (.head ⟨bytes, rfl⟩ hy) r w hr⟩

end Sight.Safe

namespace Sight.Answers

variable {ι : Type} {m : Machine} {x : Sight ι} {w : World} {d dest : Nat}

theorem flush {r : Except FileError Unit} (h : x.Answers m (.flush d) r w) : w = x.world := by
  rcases h with h | ⟨-, rfl⟩
  · exact (Prod.mk.inj (Option.some.inj h)).2.symm
  · rfl

theorem openScratch {r : Except FileError Nat} (h : x.Answers m .openScratch r w) :
    (∃ e, r = .error e ∧ w = x.world) ∨ r = .ok x.world.descriptors.lowestFree ∧
      w = { x.world with descriptors := x.world.descriptors.openScratch.2 } := by
  rcases h with h | ⟨h, rfl⟩
  · obtain ⟨rfl, rfl⟩ := Prod.mk.inj (Option.some.inj h)
    exact .inr ⟨rfl, rfl⟩
  · cases h with
    | openScratch e => exact .inl ⟨e, rfl, rfl⟩

theorem duplicate {r : Except FileError Nat} (h : x.Answers m (.duplicate d) r w) :
    (∃ e, r = .error e ∧ w = x.world) ∨ ∃ file, x.world.descriptors.target? d = some file ∧
      r = .ok x.world.descriptors.lowestFree ∧ w = { x.world with
        descriptors := x.world.descriptors.set x.world.descriptors.lowestFree file } := by
  rcases h with h | ⟨h, rfl⟩
  · have h := Option.some.inj h
    unfold Descriptors.duplicate at h
    cases ht : x.world.descriptors.target? d with
    | none =>
      rw [ht] at h
      obtain ⟨rfl, rfl⟩ := Prod.mk.inj h
      exact .inl ⟨_, rfl, rfl⟩
    | some file =>
      rw [ht] at h
      obtain ⟨rfl, rfl⟩ := Prod.mk.inj h
      exact .inr ⟨file, rfl, rfl, rfl⟩
  · cases h with
    | duplicate d e => exact .inl ⟨e, rfl, rfl⟩

theorem redirect {r : Except FileError Unit} (h : x.Answers m (.redirect d dest) r w) :
    (∃ e, r = .error e ∧ w = x.world ∧
      (x.log.redirected = false ∨ x.world.descriptors.target? d = none)) ∨
    ∃ file, x.world.descriptors.target? d = some file ∧ r = .ok () ∧
      w = { x.world with descriptors := x.world.descriptors.set dest file } := by
  rcases h with h | ⟨h, rfl⟩
  · have h := Option.some.inj h
    unfold Descriptors.redirect at h
    cases ht : x.world.descriptors.target? d with
    | none =>
      rw [ht] at h
      obtain ⟨rfl, rfl⟩ := Prod.mk.inj h
      exact .inl ⟨_, rfl, rfl, .inr rfl⟩
    | some file =>
      rw [ht] at h
      obtain ⟨rfl, rfl⟩ := Prod.mk.inj h
      exact .inr ⟨file, rfl, rfl, rfl⟩
  · cases h with
    | redirect d dest e hlog => exact .inl ⟨e, rfl, rfl, .inl hlog⟩

theorem close {r : Unit} (h : x.Answers m (.close d) r w) :
    w = { x.world with descriptors := x.world.descriptors.close d } := by
  rcases h with h | ⟨h, -⟩
  · exact (Prod.mk.inj (Option.some.inj h)).2.symm
  · cases h

theorem endRedirection {r : Unit} (h : x.Answers m .endRedirection r w) :
    w = { x.world with redirecting := false } := by
  rcases h with h | ⟨h, -⟩
  · exact (Prod.mk.inj (Option.some.inj h)).2.symm
  · cases h

theorem rewind {r : Except FileError Unit} (h : x.Answers m (.rewind d) r w) :
    (∃ e, r = .error e ∧ w = x.world) ∨ r = .ok () ∧ w = { x.world with
      descriptors := x.world.descriptors.update d fun f => { f with position := 0 } } := by
  rcases h with h | ⟨h, rfl⟩
  · have h := Option.some.inj h
    unfold Descriptors.rewind at h
    split at h
    · obtain ⟨rfl, rfl⟩ := Prod.mk.inj h
      exact .inl ⟨_, rfl, rfl⟩
    · obtain ⟨rfl, rfl⟩ := Prod.mk.inj h
      exact .inr ⟨rfl, rfl⟩
  · cases h with
    | rewind d e => exact .inl ⟨e, rfl, rfl⟩

theorem readToEnd {r : Except FileError Bytes} (h : x.Answers m (.readToEnd d) r w) :
    (∃ e, r = .error e ∧ w = x.world) ∨
    ∃ file f, x.world.descriptors.target? d = some file ∧ x.world.descriptors.files[file]? = some f ∧
      r = .ok (f.content.drop f.position) ∧
      ∃ g, w = { x.world with descriptors := x.world.descriptors.update d g } := by
  rcases h with h | ⟨h, rfl⟩
  · have h := Option.some.inj h
    unfold Descriptors.readToEnd at h
    cases hf : (x.world.descriptors.target? d).bind (x.world.descriptors.files[·]?) with
    | none =>
      rw [hf] at h
      obtain ⟨rfl, rfl⟩ := Prod.mk.inj h
      exact .inl ⟨_, rfl, rfl⟩
    | some f =>
      rw [hf] at h
      obtain ⟨rfl, rfl⟩ := Prod.mk.inj h
      obtain ⟨file, ht, hfile⟩ := Option.bind_eq_some_iff.mp hf
      exact .inr ⟨file, f, ht, hfile, rfl, _, rfl⟩
  · cases h with
    | readToEnd d e => exact .inl ⟨e, rfl, rfl⟩

end Sight.Answers

namespace Sight

variable {ι : Type} (t₀ : Descriptors)

structure Clear (x : Sight ι) : Prop where
  free : x.world.redirecting = false
  table : x.world.descriptors.target? = t₀.target?
  bound : ∀ k file, t₀.target? k = some file → file < x.world.descriptors.files.length

structure Stage (T : Nat → Option Nat) (redirected : Bool) (x : Sight ι) : Prop where
  taken : x.world.redirecting = true
  table : x.world.descriptors.target? = T
  bound : ∀ k file, t₀.target? k = some file → file < x.world.descriptors.files.length
  redirected : x.log.redirected = redirected

structure Scratched (n : Nat) (P : OpenFile → Log ι → Prop) (T : Nat → Option Nat)
    (redirected : Bool) (x : Sight ι) : Prop extends Stage t₀ T redirected x where
  new : ∀ k file, t₀.target? k = some file → file < n
  file : ∃ f, x.world.descriptors.files[n]? = some f ∧ P f x.log

variable {t₀} {n d : Nat} {P : OpenFile → Log ι → Prop} {T : Nat → Option Nat} {b : Bool} {x : Sight ι}
  {m : Machine} {i : ι} {Q : Log ι → Prop}

theorem Clear.print (h : Clear t₀ x) (bytes : Bytes) : Clear t₀ (x.print bytes) :=
  ⟨h.free, (Descriptors.target?_update _).trans h.table, fun k file hk =>
    Nat.lt_of_lt_of_eq (h.bound k file hk) (Descriptors.length_update _).symm⟩

theorem Stage.print (h : Stage t₀ T b x) (bytes : Bytes) : Stage t₀ T b (x.print bytes) :=
  ⟨h.taken, (Descriptors.target?_update _).trans h.table, fun k file hk =>
    Nat.lt_of_lt_of_eq (h.bound k file hk) (Descriptors.length_update _).symm, h.redirected⟩

theorem Scratched.print (h : Scratched t₀ n P T b x) (hT : T Descriptors.diagnostics ≠ some n)
    (hP : ∀ f t, P f x.log → P f (t :: x.log)) (bytes : Bytes) :
    Scratched t₀ n P T b (x.print bytes) := by
  obtain ⟨f, hf, hPf⟩ := h.file
  have htarget : x.world.descriptors.target? Descriptors.diagnostics ≠ some n := by rwa [h.table]
  refine ⟨h.toStage.print bytes, h.new, f, ?_, hP f _ hPf⟩
  exact (Descriptors.files_update _ n).trans ((if_neg htarget).trans hf)

def Recorded (i : ι) (f : OpenFile) (log : Log ι) : Prop :=
  ∃ scratch during earlier, log =
      during ++ (some i, ⟨.redirect scratch Descriptors.diagnostics, .ok ()⟩) :: earlier ∧
    (∀ t ∈ during, ∃ part, t = (none, ⟨.print Descriptors.diagnostics part, ()⟩)) ∧
    f = ⟨Log.written during, (Log.written during).length⟩

theorem write_end (bytes part : Bytes) : OpenFile.write ⟨bytes, bytes.length⟩ part =
    ⟨bytes ++ part, (bytes ++ part).length⟩ := by
  simp [OpenFile.write, Bytes.overwrite]

structure Follows (i : ι) (P : OpenFile → Log ι → Prop) (Q : Bytes → Log ι → Prop) : Prop where
  print : ∀ {f log part}, P f log → P (f.write part) ((none, ⟨.print Descriptors.diagnostics part, ()⟩) :: log)
  back : ∀ {f log} {saved : Nat}, P f log →
    Q f.content ((some i, ⟨.redirect saved Descriptors.diagnostics, .ok ()⟩) :: log)
  cons : ∀ {bytes} {t : Option ι × Taken} {log}, Q bytes log → Q bytes (t :: log)

theorem recorded_follows (i : ι) : Follows i (Recorded i) fun bytes log => log.Holds i bytes where
  print := by
    rintro f log part ⟨scratch, during, earlier, rfl, hduring, rfl⟩
    refine ⟨scratch, (none, ⟨.print Descriptors.diagnostics part, ()⟩) :: during, earlier, rfl, ?_, ?_⟩
    · intro t ht
      rcases List.mem_cons.mp ht with rfl | ht
      · exact ⟨part, rfl⟩
      · exact hduring t ht
    · exact write_end _ _
  back := by
    rintro f log saved ⟨scratch, during, earlier, rfl, hduring, rfl⟩
    exact ⟨[], scratch, during, saved, earlier, rfl, hduring, rfl⟩
  cons h := h.cons _

theorem Scratched.record {Q : Bytes → Log ι → Prop} (hP : Follows i P Q) (h : Scratched t₀ n P T b x)
    (hT : T Descriptors.diagnostics = some n) (bytes : Bytes) :
    Scratched t₀ n P T b (x.print bytes) := by
  obtain ⟨f, hf, hPf⟩ := h.file
  have htarget : x.world.descriptors.target? Descriptors.diagnostics = some n := by rwa [h.table]
  refine ⟨h.toStage.print bytes, h.new, f.write bytes, ?_, hP.print hPf⟩
  refine (Descriptors.files_update _ n).trans ?_
  rw [if_pos htarget, hf, Option.map_some]

theorem perform_stage {s : Step} {post : s.Reply → Sight ι → Prop} (hx : Stage t₀ T b x)
    (h : ∀ y, Stage t₀ T b y → ∀ r w, y.Answers m s r w → post r (y.after i s r w)) :
    Safe m i post (perform s) x :=
  .perform hx (fun _ bytes hy => hy.print bytes) (fun _ hy => hy.taken) h

theorem perform_scratched {s : Step} {post : s.Reply → Sight ι → Prop} {original : Nat}
    (ho : t₀.target? Descriptors.diagnostics = some original)
    (hT : T Descriptors.diagnostics = t₀.target? Descriptors.diagnostics)
    (hP : ∀ f t log, P f log → P f (t :: log)) (hx : Scratched t₀ n P T b x)
    (h : ∀ y, Scratched t₀ n P T b y → ∀ r w, y.Answers m s r w → post r (y.after i s r w)) :
    Safe m i post (perform s) x := by
  refine .perform hx (fun y bytes hy => hy.print ?_ (fun f t => hP f t y.log) bytes)
    (fun _ hy => hy.taken) h
  intro heq
  have hnew := hy.new _ _ ho
  rw [hT, ho] at heq
  exact absurd hnew (by simp [Option.some.inj heq])

section Ends

variable (hcons : ∀ t log, Q log → Q (t :: log))
include hcons

theorem endRedirection_clear (hx : Stage t₀ t₀.target? b x) (hQ : Q x.log) :
    Safe m i (fun _ z => Clear t₀ z ∧ Q z.log) (perform .endRedirection) x := by
  refine Safe.perform (J := fun y => Stage t₀ t₀.target? b y ∧ Q y.log) ⟨hx, hQ⟩
    (fun y bytes hy => ⟨hy.1.print bytes, hcons _ _ hy.2⟩) (fun y hy => hy.1.taken) fun y hy r w hr => ?_
  obtain rfl := hr.endRedirection
  exact ⟨⟨rfl, hy.1.table, hy.1.bound⟩, hcons _ _ hy.2⟩

theorem release_clear (hx : Stage t₀ (Function.update t₀.target? d (some n)) b x)
    (hd : t₀.target? d = none) (hQ : Q x.log) :
    Safe m i (fun _ z => Clear t₀ z ∧ Q z.log) (Capture.release d) x := by
  have hclose : Safe m i (fun _ z => Stage t₀ t₀.target? b z ∧ Q z.log) (perform (.close d)) x := by
    refine Safe.perform (J := fun y => Stage t₀ (Function.update t₀.target? d (some n)) b y ∧ Q y.log)
      ⟨hx, hQ⟩ (fun y bytes hy => ⟨hy.1.print bytes, hcons _ _ hy.2⟩) (fun y hy => hy.1.taken)
      fun y hy r w hr => ?_
    obtain rfl := hr.close
    have htable : (y.world.descriptors.close d).target? = t₀.target? := by
      rw [Descriptors.target?_close, hy.1.table, Function.update_idem, ← hd, Function.update_eq_self]
    exact ⟨⟨hy.1.taken, htable, hy.1.bound, hy.1.redirected⟩, hcons _ _ hy.2⟩
  exact hclose.next fun _ y hy => endRedirection_clear hcons hy.1 hy.2

end Ends

structure Redirected (t₀ : Descriptors) (P : OpenFile → Log ι → Prop) (c : Capture) (x : Sight ι) :
    Prop where
  scratch : t₀.target? c.scratch = none
  saved : t₀.target? c.saved = none
  apart : c.saved ≠ c.scratch
  file : ∃ n, Scratched t₀ n P (Function.update (Function.update (Function.update
    t₀.target? c.scratch (some n)) c.saved (t₀.target? Descriptors.diagnostics))
      Descriptors.diagnostics (some n)) true x

abbrev Active (t₀ : Descriptors) (i : ι) (c : Capture) (x : Sight ι) : Prop :=
  Redirected t₀ (Recorded i) c x

structure Restored (t₀ : Descriptors) (c : Capture) (P : OpenFile → Log ι → Prop) (x : Sight ι) :
    Prop where
  scratch : t₀.target? c.scratch = none
  closing : ∃ n, Scratched t₀ n P (Function.update t₀.target? c.scratch (some n)) true x

theorem Restored.print {c : Capture} (h : Restored t₀ c P x) {original : Nat}
    (ho : t₀.target? Descriptors.diagnostics = some original)
    (hP : ∀ f t, P f x.log → P f (t :: x.log)) (bytes : Bytes) : Restored t₀ c P (x.print bytes) := by
  obtain ⟨n, hn⟩ := h.closing
  have hne : Descriptors.diagnostics ≠ c.scratch := by
    rintro heq
    rw [heq, h.scratch] at ho
    simp at ho
  refine ⟨h.scratch, n, hn.print ?_ hP bytes⟩
  rw [Function.update_of_ne hne, ho]
  exact fun heq => absurd (hn.new _ _ ho) (by simp [Option.some.inj heq])

section Begin

variable {original : Nat} (ho : t₀.target? Descriptors.diagnostics = some original)
include ho

theorem ne_diagnostics (hd : t₀.target? d = none) : Descriptors.diagnostics ≠ d := by
  rintro rfl
  rw [ho] at hd
  simp at hd

omit ho in
theorem update_back {v : Nat} {file : Option Nat} (hv : t₀.target? v = none) (hvd : v ≠ d) :
    Function.update (Function.update (Function.update t₀.target? d (some n)) v file) v none =
      Function.update t₀.target? d (some n) := by
  have hvalue : Function.update t₀.target? d (some n) v = none := by
    rw [Function.update_of_ne hvd, hv]
  rw [Function.update_idem, ← hvalue, Function.update_eq_self]

theorem turn_active (hd : t₀.target? d = none)
    (hx : Scratched t₀ n (fun f _ => f = .empty) (Function.update t₀.target? d (some n)) false x) :
    Safe m i (Either (Clear t₀) (Active t₀ i)) (do
        match ← perform (.duplicate Descriptors.diagnostics) with
        | .error e =>
          Capture.release d
          return .error e
        | .ok saved =>
          match ← perform (.redirect d Descriptors.diagnostics) with
          | .error e =>
            perform (.close saved)
            Capture.release d
            return .error e
          | .ok () => return (.ok ⟨d, saved⟩ : Except FileError Capture)) x := by
  have hne := ne_diagnostics ho hd
  have hduplicate : Safe m i (Either
      (Scratched t₀ n (fun f _ => f = .empty) (Function.update t₀.target? d (some n)) false)
      fun v z => t₀.target? v = none ∧ v ≠ d ∧ Scratched t₀ n (fun f _ => f = .empty)
        (Function.update (Function.update t₀.target? d (some n)) v
          (t₀.target? Descriptors.diagnostics)) false z)
      (perform (.duplicate Descriptors.diagnostics)) x := by
    refine perform_scratched ho (Function.update_of_ne hne _ _) (fun _ _ _ h => h) hx fun y hy r w hr => ?_
    rcases hr.duplicate with ⟨e, rfl, rfl⟩ | ⟨file, hfile, rfl, rfl⟩
    · exact ⟨⟨hy.taken, hy.table, hy.bound, hy.redirected⟩, hy.new, hy.file⟩
    · have hfree := Descriptors.target?_lowestFree (t := y.world.descriptors)
      have hv : y.world.descriptors.lowestFree ≠ d := by
        intro heq
        rw [hy.table, heq, Function.update_self] at hfree
        simp at hfree
      rw [hy.table, Function.update_of_ne hv] at hfree
      rw [hy.table, Function.update_of_ne hne] at hfile
      refine ⟨hfree, hv, ⟨⟨hy.taken, ?_, hy.bound, hy.redirected⟩, hy.new, hy.file⟩⟩
      exact Descriptors.target?_set.trans (by rw [hy.table, hfile])
  have hrelease {e : FileError} {y : Sight ι}
      (hy : Stage t₀ (Function.update t₀.target? d (some n)) false y) : Safe m i
        (Either (Clear t₀) (Active t₀ i)) (do
          Capture.release d
          return (.error e : Except FileError Capture)) y :=
    (release_clear (Q := fun _ => True) (fun _ _ _ => trivial) hy hd trivial).next fun _ z hz => hz.1
  refine hduplicate.next fun r y hy => ?_
  cases r with
  | error e => exact hrelease hy.toStage
  | ok v =>
    obtain ⟨hv, hvd, hy⟩ := hy
    have hnv := ne_diagnostics ho hv
    have htable : Function.update (Function.update t₀.target? d (some n)) v
        (t₀.target? Descriptors.diagnostics) Descriptors.diagnostics =
          t₀.target? Descriptors.diagnostics := by
      rw [Function.update_of_ne hnv, Function.update_of_ne hne]
    have hredirect : Safe m i (Either
        (Scratched t₀ n (fun f _ => f = .empty) (Function.update (Function.update
          t₀.target? d (some n)) v (t₀.target? Descriptors.diagnostics)) false)
        fun _ => Active t₀ i ⟨d, v⟩) (perform (.redirect d Descriptors.diagnostics)) y := by
      refine perform_scratched ho htable (fun _ _ _ h => h) hy fun z hz r w hr => ?_
      rcases hr.redirect with ⟨e, rfl, rfl, -⟩ | ⟨file, hfile, rfl, rfl⟩
      · exact ⟨⟨hz.taken, hz.table, hz.bound, rfl⟩, hz.new, hz.file⟩
      · obtain ⟨f, hf, rfl⟩ := hz.file
        rw [hz.table, Function.update_of_ne (Ne.symm hvd), Function.update_self] at hfile
        obtain rfl := Option.some.inj hfile
        refine ⟨hd, hv, hvd, n, ⟨⟨hz.taken, ?_, hz.bound, rfl⟩, hz.new, .empty, hf, d, [], z.log, rfl,
          by simp, rfl⟩⟩
        exact Descriptors.target?_set.trans (by rw [hz.table])
    refine hredirect.next fun r z hz => ?_
    cases r with
    | error e =>
      have hclose : Safe m i (fun _ u => Stage t₀ (Function.update t₀.target? d (some n)) false u)
          (perform (.close v)) z := by
        refine perform_scratched ho htable (fun _ _ _ h => h) hz fun u hu r w hr => ?_
        obtain rfl := hr.close
        refine ⟨hu.taken, Descriptors.target?_close.trans ?_, hu.bound, hu.redirected⟩
        rw [hu.table, update_back hv hvd]
      exact hclose.next fun _ u hu => hrelease hu
    | ok u => exact hz

theorem proceed_active (hx : Stage t₀ t₀.target? false x) : Safe m i
    (Either (Clear t₀) (Active t₀ i)) Capture.proceed x := by
  have hend {e : FileError} {y : Sight ι} (hy : Stage t₀ t₀.target? false y) : Safe m i
      (Either (Clear t₀) (Active t₀ i)) (do
        perform .endRedirection
        return (.error e : Except FileError Capture)) y :=
    (endRedirection_clear (Q := fun _ => True) (fun _ _ _ => trivial) hy trivial).next fun _ z hz => hz.1
  have hflush : Safe m i (fun _ z => Stage t₀ t₀.target? false z)
      (perform (.flush Descriptors.diagnostics)) x := by
    refine perform_stage hx fun y hy r w hr => ?_
    obtain rfl := hr.flush
    exact ⟨hy.taken, hy.table, hy.bound, hy.redirected⟩
  refine hflush.next fun r y hy => ?_
  cases r with
  | error e => exact hend hy
  | ok u =>
    have hopen : Safe m i (Either (Stage t₀ t₀.target? false) fun d z => t₀.target? d = none ∧
        ∃ n, Scratched t₀ n (fun f _ => f = .empty) (Function.update t₀.target? d (some n)) false z)
        (perform .openScratch) y := by
      refine perform_stage hy fun z hz r w hr => ?_
      rcases hr.openScratch with ⟨e, rfl, rfl⟩ | ⟨rfl, rfl⟩
      · exact ⟨hz.taken, hz.table, hz.bound, hz.redirected⟩
      · have hfree := Descriptors.target?_lowestFree (t := z.world.descriptors)
        refine ⟨by rwa [hz.table] at hfree, z.world.descriptors.files.length,
          ⟨⟨hz.taken, ?_, fun k file hk => ?_, hz.redirected⟩, hz.bound, .empty, ?_, rfl⟩⟩
        · exact Descriptors.target?_set.trans (by rw [hz.table])
        · have hlen := hz.bound k file hk
          simp only [Sight.after, Descriptors.openScratch, List.length_append, List.length_cons,
            List.length_nil]
          omega
        · simp [Sight.after, Descriptors.openScratch]
    refine hopen.next fun r z hz => ?_
    cases r with
    | error e => exact hend hz
    | ok d =>
      obtain ⟨hd, n, hn⟩ := hz
      exact turn_active ho hd hn

variable {Q : Bytes → Log ι → Prop} (hP : Follows i P Q)
include hP

theorem restore_restored {c : Capture} (hx : Redirected t₀ P c x) : Safe m i (fun r z => r = .ok () ∧
    Restored t₀ c (fun f log => Q f.content log) z) c.restore x := by
  obtain ⟨hd, hv, hvd, n, hn⟩ := hx
  have hne := ne_diagnostics ho hd
  have hnv := ne_diagnostics ho hv
  have htable : Function.update (Function.update t₀.target? c.scratch (some n)) c.saved
      (t₀.target? Descriptors.diagnostics) Descriptors.diagnostics = t₀.target? Descriptors.diagnostics := by
    rw [Function.update_of_ne hnv, Function.update_of_ne hne]
  have hredirect : Safe m i (fun r z => r = .ok () ∧
      Scratched t₀ n (fun f log => Q f.content log) (Function.update (Function.update
        t₀.target? c.scratch (some n)) c.saved (t₀.target? Descriptors.diagnostics)) true z)
      (perform (.redirect c.saved Descriptors.diagnostics)) x := by
    refine .perform hn (fun y bytes hy => hy.record hP (Function.update_self _ _ _) bytes)
      (fun y hy => hy.taken) fun y hy r w hr => ?_
    have hsaved : y.world.descriptors.target? c.saved = t₀.target? Descriptors.diagnostics := by
      rw [hy.table, Function.update_of_ne hnv.symm, Function.update_self]
    rcases hr.redirect with ⟨e, -, -, hlog | hnone⟩ | ⟨file, hfile, rfl, rfl⟩
    · simp [hy.redirected] at hlog
    · simp [hsaved, ho] at hnone
    · obtain ⟨f, hf, hPf⟩ := hy.file
      refine ⟨rfl, ⟨⟨hy.taken, ?_, hy.bound, rfl⟩, hy.new, f, hf, hP.back hPf⟩⟩
      rw [hsaved] at hfile
      have hfile := hfile.symm.trans htable.symm
      refine Descriptors.target?_set.trans ?_
      rw [hy.table, Function.update_idem]
      exact (congrArg _ hfile).trans (Function.update_eq_self _ _)
  refine hredirect.next fun r y hy => ?_
  obtain ⟨rfl, hy⟩ := hy
  have hclose : Safe m i (fun _ u => Restored t₀ c (fun f log => Q f.content log) u)
      (perform (.close c.saved)) y := by
    refine perform_scratched ho htable (fun f t log h => hP.cons h) hy fun u hu r w hr => ?_
    obtain rfl := hr.close
    obtain ⟨f, hf, hholds⟩ := hu.file
    refine ⟨hd, n, ⟨⟨hu.taken, Descriptors.target?_close.trans ?_, hu.bound, hu.redirected⟩, hu.new, f,
      hf, hP.cons hholds⟩⟩
    rw [hu.table, update_back hv hvd]
  exact hclose.next fun _ u hu => ⟨rfl, hu⟩

theorem readBack_reads {c : Capture} (hx : Redirected t₀ P c x) : Safe m i (fun r z =>
    Restored t₀ c (fun _ _ => True) z ∧
      ∀ text, r = .ok text → ∃ bytes, Q bytes z.log ∧ text = Text.decodeLossy bytes) c.readBack x := by
  refine (restore_restored ho hP hx).next fun r y hy => ?_
  obtain ⟨rfl, hd, n, hn⟩ := hy
  have hne := ne_diagnostics ho hd
  have htable := Function.update_of_ne hne (some n) t₀.target?
  have hopen {y : Sight ι} {P : OpenFile → Log ι → Prop}
      (hy : Scratched t₀ n P (Function.update t₀.target? c.scratch (some n)) true y) :
      Restored t₀ c (fun _ _ => True) y := by
    obtain ⟨f, hf, -⟩ := hy.file
    exact ⟨hd, n, hy.toStage, hy.new, f, hf, trivial⟩
  have hrewind : Safe m i (fun r z => ((∃ e, r = .error e) → Restored t₀ c (fun _ _ => True) z) ∧
      (r = .ok () → Scratched t₀ n (fun f log => Q f.content log ∧ f.position = 0)
        (Function.update t₀.target? c.scratch (some n)) true z)) (perform (.rewind c.scratch)) y := by
    refine perform_scratched ho htable (fun f t log h => hP.cons h) hn fun z hz r w hr => ?_
    obtain ⟨f, hf, hholds⟩ := hz.file
    rcases hr.rewind with ⟨e, rfl, rfl⟩ | ⟨rfl, rfl⟩
    · exact ⟨fun _ => ⟨hd, n, ⟨hz.taken, hz.table, hz.bound, hz.redirected⟩, hz.new, f, hf, trivial⟩,
        fun hok => by simp at hok⟩
    · have htarget : z.world.descriptors.target? c.scratch = some n := by
        rw [hz.table, Function.update_self]
      refine ⟨fun herr => by simp at herr, fun _ => ?_⟩
      refine ⟨⟨hz.taken, (Descriptors.target?_update _).trans hz.table, fun k file hk =>
        Nat.lt_of_lt_of_eq (hz.bound k file hk) (Descriptors.length_update _).symm, hz.redirected⟩,
        hz.new, { f with position := 0 }, ?_, hP.cons hholds, rfl⟩
      exact (Descriptors.files_update _ n).trans (by rw [if_pos htarget, hf]; rfl)
  refine hrewind.next fun r z hz => ?_
  cases r with
  | error e => exact ⟨hz.1 ⟨e, rfl⟩, fun text htext => by simp at htext⟩
  | ok u =>
    have hrewound := hz.2 rfl
    have hread : Safe m i (fun r u => Restored t₀ c (fun _ _ => True) u ∧
        ∀ bytes, r = .ok bytes → Q bytes u.log) (perform (.readToEnd c.scratch)) z := by
      refine perform_scratched ho htable (fun f t log h => ⟨hP.cons h.1, h.2⟩) hrewound
        fun u hu r w hr => ?_
      obtain ⟨f, hf, hholds, hposition⟩ := hu.file
      rcases hr.readToEnd with ⟨e, rfl, rfl⟩ | ⟨file, g, hfile, hg, rfl, k, rfl⟩
      · exact ⟨⟨hd, n, ⟨hu.taken, hu.table, hu.bound, hu.redirected⟩, hu.new, f, hf, trivial⟩,
          fun bytes hbytes => by simp at hbytes⟩
      · have htarget : u.world.descriptors.target? c.scratch = some n := by
          rw [hu.table, Function.update_self]
        obtain rfl := Option.some.inj (htarget.symm.trans hfile)
        obtain rfl := Option.some.inj (hf.symm.trans hg)
        refine ⟨⟨hd, n, ⟨hu.taken, (Descriptors.target?_update _).trans hu.table, fun k file hk =>
          Nat.lt_of_lt_of_eq (hu.bound k file hk) (Descriptors.length_update _).symm, hu.redirected⟩,
          hu.new, k f, ?_, trivial⟩, fun bytes hbytes => ?_⟩
        · exact (Descriptors.files_update _ n).trans (by rw [if_pos htarget, hf]; rfl)
        · rw [hposition, List.drop_zero] at hbytes
          exact Except.ok.inj hbytes ▸ hP.cons hholds
    refine hread.next fun r u hu => ?_
    cases r with
    | error e => exact ⟨hu.1, fun text htext => by simp at htext⟩
    | ok bytes => exact ⟨hu.1, fun text htext => ⟨bytes, hu.2 bytes rfl, (Except.ok.inj htext).symm⟩⟩

theorem finish_reads {c : Capture} (hx : Redirected t₀ P c x) : Safe m i (fun r z => Clear t₀ z ∧
    ∀ text, r = .ok text → ∃ bytes, Q bytes z.log ∧ text = Text.decodeLossy bytes) c.finish x := by
  refine (readBack_reads ho hP hx).next fun r y hy => ?_
  obtain ⟨⟨hd, n, hn⟩, htells⟩ := hy
  have hcons (t : Option ι × Taken) (log : Log ι)
      (h : ∀ text, r = .ok text → ∃ bytes, Q bytes log ∧ text = Text.decodeLossy bytes) :
      ∀ text, r = .ok text → ∃ bytes, Q bytes (t :: log) ∧ text = Text.decodeLossy bytes := by
    intro text htext
    obtain ⟨bytes, hbytes, rfl⟩ := h text htext
    exact ⟨bytes, hP.cons hbytes, rfl⟩
  exact (release_clear hcons hn.toStage hd htells).next fun _ z hz => hz

theorem drop_clear {c : Capture} (hx : Redirected t₀ P c x) :
    Safe m i (fun _ z => Clear t₀ z) c.drop x := by
  refine (restore_restored ho hP hx).next fun r y hy => ?_
  obtain ⟨-, hd, n, hn⟩ := hy
  exact (release_clear (Q := fun _ => True) (fun _ _ _ => trivial) hn.toStage hd trivial).weaken
    fun _ z hz => hz.1

end Begin

end Sight

namespace Capture

def conclude (ending : Ending) : Except FileError Capture → Program Ended
  | .error e => return .refused e
  | .ok c =>
    match ending with
    | .finish => return .finished (← c.finish)
    | .drop => do
      c.drop
      return .dropped

theorem session_eq (ending : Ending) :
    session ending = .step .beginRedirection fun _ => proceed >>= conclude ending := by
  have hbind (p : Program (Except FileError Capture)) (f g : Except FileError Capture → Program Ended)
      (h : ∀ r, f r = g r) : p >>= f = p >>= g := by rw [funext h]
  refine hbind begin _ _ fun r => ?_
  cases r <;> rfl

def Settled {ι : Type} (t₀ : Descriptors) (i : ι) (r : Ended) (x : Sight ι) : Prop :=
  Sight.Clear t₀ x ∧ ∀ read, r = .finished read → x.log.Tells i read

variable {ι : Type} {t₀ : Descriptors} {m : Machine} {i : ι} {x : Sight ι} {original : Nat}

theorem session_settled (ho : t₀.target? Descriptors.diagnostics = some original)
    (hx : Sight.Stage t₀ t₀.target? false x) (ending : Ending) :
    Sight.Safe m i (Settled t₀ i) (proceed >>= conclude ending) x := by
  refine (Sight.proceed_active ho hx).next fun r y hy => ?_
  cases r with
  | error e => exact ⟨hy, fun read hread => by simp at hread⟩
  | ok c =>
    cases ending with
    | finish =>
      refine (Sight.finish_reads ho (Sight.recorded_follows i) hy).next fun r z hz =>
        ⟨hz.1, fun read hread => ?_⟩
      obtain rfl := Ended.finished.inj hread
      exact hz.2
    | drop =>
      exact (Sight.drop_clear ho (Sight.recorded_follows i) hy).next fun _ z hz =>
        ⟨hz, fun read hread => by simp at hread⟩

end Capture

end CompiledModels
