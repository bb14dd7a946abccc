import CompiledModels.Engine
import CompiledModels.Proofs.Steps
import Mathlib.Logic.Function.Basic
import Mathlib.Logic.Relation

/-!
Calls of several processes on one file tree, interleaved step by step.
-/

namespace CompiledModels

open Files

def held : List Taken → List Nat
  | [] => []
  | t :: past =>
    match t.step with
    | .acquire n => n :: held past
    | .release n => (held past).filter (· ≠ n)
    | _ => held past

def Program.ended? {α : Type} : Program α → Option α
  | done a => some a
  | step _ _ => none

theorem Program.ended?_eq_some {α : Type} {p : Program α} {a : α} :
    p.ended? = some a ↔ p = .done a := by
  cases p with
  | done b => simp [ended?]
  | step s next => simp [ended?]

/-- Callers in several processes, whose calls end with a result in `ρ`. The files and the locks are
those of all of them, the rest of a world is that of one process. -/
structure Scene (ι ρ : Type) where
  files : Tree
  locked : List Nat
  worlds : Nat → World
  process : ι → Nat
  program : ι → Program ρ
  down : List Nat
  history : List (ι × Taken)

namespace Scene

variable {ι ρ : Type} {m : Machine} {S S' : Scene ι ρ} {i j : ι}

def world (S : Scene ι ρ) (p : Nat) : World := { S.worlds p with files := S.files, locked := S.locked }

def Alive (S : Scene ι ρ) (i : ι) : Prop := S.process i ∉ S.down

def put (S : Scene ι ρ) (p : Nat) (w : World) : Scene ι ρ :=
  { S with files := w.files, locked := w.locked, worlds := Function.update S.worlds p w }

@[simp] theorem put_locked (S : Scene ι ρ) (p : Nat) (w : World) : (S.put p w).locked = w.locked := rfl

@[simp] theorem put_world_self (S : Scene ι ρ) (p : Nat) (w : World) : (S.put p w).world p = w := by
  simp [put, world]

theorem put_world_ne (S : Scene ι ρ) {p q : Nat} (w : World) (h : q ≠ p) :
    (S.put p w).world q = { S.world q with files := w.files, locked := w.locked } := by
  simp [put, world, h]

structure Opens (S : Scene ι ρ) (program : ι → Program ρ) : Prop where
  program : ∀ i, S.program i = program i
  locked : S.locked = []
  down : S.down = []
  history : S.history = []

variable [DecidableEq ι]

def past (S : Scene ι ρ) (i : ι) : List Taken := (S.history.filter (·.1 = i)).map (·.2)

def moment (S : Scene ι ρ) (i : ι) : Moment := ⟨S.world (S.process i), S.past i⟩

def after (S : Scene ι ρ) (i : ι) (t : Taken) (q : Program ρ) (w : World) : Scene ι ρ :=
  { S.put (S.process i) w with
    program := Function.update S.program i q, history := (i, t) :: S.history }

/-- One move: a caller takes a step, or time goes by for the programs that a process has started,
or a process crashes, which gives back what its callers have locked. -/
inductive Moves (m : Machine) (S : Scene ι ρ) : Scene ι ρ → Prop
  | step {i : ι} {s : Step} {next : s.Reply → Program ρ} {r : s.Reply} {w : World}
      (hi : S.Alive i) (hp : S.program i = .step s next)
      (hr : s.exec m (S.world (S.process i)) = some (r, w)) : Moves m S (S.after i ⟨s, r⟩ (next r) w)
  | pass (p t : Nat) : Moves m S (S.put p ((S.world p).advanceTo t))
  | crash (p : Nat) {l : List Nat} (hl : ∀ n, n ∈ l ↔
      n ∈ S.locked ∧ ∀ i, S.Alive i → S.process i = p → n ∉ held (S.past i)) :
      Moves m S { S with locked := l, down := p :: S.down }

abbrev Reaches (m : Machine) (S S' : Scene ι ρ) : Prop := Relation.ReflTransGen (Moves m) S S'

def play (m : Machine) : List ι → Scene ι ρ → Option (Scene ι ρ)
  | [], S => some S
  | i :: order, S =>
    match S.program i with
    | .done _ => none
    | .step s next =>
      if S.process i ∈ S.down then none
      else match s.exec m (S.world (S.process i)) with
        | none => none
        | some (r, w) => play m order (S.after i ⟨s, r⟩ (next r) w)

theorem reaches_of_play {order : List ι} (h : S.play m order = some S') : S.Reaches m S' := by
  induction order generalizing S with
  | nil =>
    obtain rfl := Option.some.inj h
    exact .refl
  | cons i order ih =>
    simp only [play] at h
    split at h
    case h_1 => simp at h
    case h_2 s next hp =>
      split at h
      case isTrue => simp at h
      case isFalse hi =>
        split at h
        case h_1 => simp at h
        case h_2 r w hr => exact .head (.step hi hp hr) (ih h)

theorem exists_of_play (order : List ι) (P : Scene ι ρ → Bool)
    (h : (S.play m order).any P = true) : ∃ S', S.Reaches m S' ∧ P S' = true := by
  obtain ⟨S', hS, hP⟩ := (Option.any_eq_true _ _).mp h
  exact ⟨S', reaches_of_play hS, hP⟩

@[simp] theorem moment_past (S : Scene ι ρ) (i : ι) : (S.moment i).past = S.past i := rfl

@[simp] theorem after_past_self (S : Scene ι ρ) (i : ι) (t : Taken) (q : Program ρ)
    (w : World) : (S.after i t q w).past i = t :: S.past i := by
  simp [after, past]

theorem after_past_ne (S : Scene ι ρ) (t : Taken) (q : Program ρ) (w : World) (h : j ≠ i) :
    (S.after i t q w).past j = S.past j := by
  simp [after, past, Ne.symm h]

theorem after_world_eq (S : Scene ι ρ) (t : Taken) (q : Program ρ) (w : World) {p : Nat}
    (h : S.process i = p) : (S.after i t q w).world p = w := by
  subst h
  exact put_world_self S (S.process i) w

theorem after_moment_self (S : Scene ι ρ) (i : ι) (s : Step) (r : s.Reply) (q : Program ρ)
    (w : World) : (S.after i ⟨s, r⟩ q w).moment i = (S.moment i).after s r w := by
  rw [moment, after_past_self]
  exact congrArg (Moment.mk · _) (after_world_eq S ⟨s, r⟩ q w rfl)

@[simp] theorem after_program_self (S : Scene ι ρ) (i : ι) (t : Taken) (q : Program ρ)
    (w : World) : (S.after i t q w).program i = q := by simp [after]

theorem after_program_ne (S : Scene ι ρ) (t : Taken) (q : Program ρ) (w : World) (h : j ≠ i) :
    (S.after i t q w).program j = S.program j := by
  simp [after, h]

theorem reaches_of_steps {p q : Program ρ} {x y : Moment}
    (h : Program.Steps (Step.answers m) p x q y) (hp : S.program i = p) (hx : S.moment i = x)
    (hi : S.Alive i) : ∃ S' : Scene ι ρ, S.Reaches m S' ∧ (S'.program i = q ∧ S'.moment i = y) ∧
      (S'.process = S.process ∧ S'.down = S.down) ∧
      ∀ j ≠ i, S'.program j = S.program j ∧ S'.past j = S.past j := by
  induction h generalizing S with
  | refl p x => exact ⟨S, .refl, ⟨hp, hx⟩, ⟨rfl, rfl⟩, fun _ _ => ⟨rfl, rfl⟩⟩
  | @step s next x r w q y hr _ ih =>
    subst hx
    obtain ⟨S', hreach, hq, hsame, hothers⟩ := ih (S := S.after i ⟨s, r⟩ (next r) w) (by simp)
      (after_moment_self S i s r (next r) w) hi
    refine ⟨S', .head (.step hi hp hr) hreach, hq, hsame, fun j hj => ?_⟩
    obtain ⟨hprogram, hpast⟩ := hothers j hj
    exact ⟨hprogram.trans (after_program_ne S _ _ w hj), hpast.trans (after_past_ne S _ _ w hj)⟩

theorem Opens.ran {program : ι → Program ρ} (h : S.Opens program) (hr : S.Reaches m S') (i : ι) :
    (program i).Ran (S'.past i) (S'.program i) := by
  induction hr with
  | refl =>
    rw [show S.past i = [] by simp [past, h.history], h.program]
    exact .refl
  | tail _ hm ih =>
    cases hm with
    | @step j s next r w hj hp hr =>
      by_cases hi : i = j
      · subst hi
        rw [after_past_self, after_program_self]
        exact (hp ▸ ih).step r
      · rw [after_past_ne _ _ _ w hi, after_program_ne _ _ _ w hi]
        exact ih
    | pass p t => exact ih
    | crash p hl => exact ih

end Scene

/-- A call that changes a cache. A thread that makes several calls is one caller for each. -/
inductive Call
  | compile (e : Engine) (id : ModelIdentity) (source : String)
  | delete (e : Engine) (id : ModelIdentity)
  | clear (e : Engine)

namespace Call

inductive Result
  | compiled (r : Except Error Compiled)
  | deleted (r : Except Error Unit)
  | cleared (r : Except CacheError Unit)

def Result.compiled? : Result → Option Compiled
  | compiled r => r.toOption
  | _ => none

theorem Result.compiled?_eq_some {r : Result} {c : Compiled} :
    r.compiled? = some c ↔ r = .compiled (.ok c) := by
  cases r with
  | compiled r => cases r <;> simp [compiled?, Except.toOption]
  | _ => simp [compiled?]

def program : Call → Program Result
  | compile e id source => do return .compiled (← (e.compile id source).run)
  | delete e id => do return .deleted (← (e.delete id).run)
  | clear e => do return .cleared (← e.cache.clear.run)

end Call

end CompiledModels
