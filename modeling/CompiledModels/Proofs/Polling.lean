import CompiledModels.Proofs.Deadline
import CompiledModels.Proofs.Settings
import Mathlib.Order.Bounds.Defs
import Mathlib.Order.Nat

/-!
The loop that looks at a running translator, against any clock: the pauses between two looks may
last longer than they are asked to, and the translator may end before, at or after any of them.
Before the loop there has to be a deadline, which not every timeout has.
-/

namespace CompiledModels

def Program.played {α : Type} (answer : List Taken → (s : Step) → Option s.Reply) :
    Program α → List Taken → Option (α × List Taken)
  | .done a, past => some (a, past)
  | .step s next, past =>
    match answer past s with
    | none => none
    | some r => (next r).played answer (⟨s, r⟩ :: past)

namespace Program

variable {α β : Type} {answer : List Taken → (s : Step) → Option s.Reply} {past : List Taken}

theorem played_bind {p : Program α} {f : α → Program β} :
    (p >>= f).played answer past = (p.played answer past).bind fun o => (f o.1).played answer o.2 := by
  induction p generalizing past with
  | done a => rfl
  | step s next ih =>
    change (Program.step s fun r => next r >>= f).played answer past = _
    rw [played, played]
    cases answer past s with
    | none => rfl
    | some r => exact ih r

theorem played_perform {s : Step} {r : s.Reply} (h : answer past s = some r) :
    (perform s).played answer past = some (r, ⟨s, r⟩ :: past) := by
  simp only [perform, played, h]

theorem played_liftThen {ε : Type} {p : Program α} {f : α → Attempt ε β} :
    ((liftM p : Attempt ε α) >>= f).run.played answer past =
      (p.played answer past).bind fun o => (f o.1).run.played answer o.2 := by
  refine played_bind.trans ?_
  have hlift : (liftM p : Attempt ε α).run.played answer past =
      (p.played answer past).bind fun o => some (.ok o.1, o.2) := played_bind
  refine (congrArg (Option.bind · _) hlift).trans ?_
  rw [Option.bind_assoc]
  rfl

end Program

namespace Translator

def looksAt (child : Nat) (past : List Taken) : Nat :=
  past.countP fun t =>
    match t.step with
    | .poll n => n = child
    | _ => false

/-- The instants at which a child is looked at that one waits for from `start` on, its end, and what
becomes of it when it is killed. -/
structure Watch where
  start : Nat
  instant : Nat → Nat
  begun : start ≤ instant 0
  paused : ∀ k, instant k + pollInterval.nanos ≤ instant (k + 1)
  exit : Option (Nat × ExitStatus)
  killed : Except FileError ExitStatus

namespace Watch

variable (W : Watch) {child p k : Nat} {past : List Taken}

def status? (k : Nat) : Option ExitStatus :=
  (W.exit.filter fun e => e.1 ≤ W.instant k).map (·.2)

def now (child : Nat) (past : List Taken) : Nat :=
  if looksAt child past = 0 then W.start else W.instant (looksAt child past - 1)

/-- What is answered to one who waits for the child. No time passes between a look and the reading of
the clock that goes with it; a pause is over by the next look. -/
def answer (child : Nat) (past : List Taken) : (s : Step) → Option s.Reply
  | .poll n => if n = child then some (.ok (W.status? (looksAt child past))) else none
  | .now => some (W.now child past)
  | .sleep d =>
    if W.now child past + d.nanos ≤ W.instant (looksAt child past) then some () else none
  | .kill n => if n = child then some () else none
  | .await n => if n = child then some W.killed else none
  | .emit _ => some ()
  | _ => none

theorem instant_mono {i j : Nat} (h : i ≤ j) : W.instant i ≤ W.instant j := by
  induction h with
  | refl => exact le_refl _
  | step _ ih => exact ih.trans ((Nat.le_add_right _ _).trans (W.paused _))

theorem start_le_instant (k : Nat) : W.start + k * pollInterval.nanos ≤ W.instant k := by
  induction k with
  | zero => simpa using W.begun
  | succ k ih =>
    have h := W.paused k
    rw [Nat.succ_mul]
    omega

theorem status?_eq_some {s : ExitStatus} :
    W.status? k = some s ↔ ∃ e, W.exit = some (e, s) ∧ e ≤ W.instant k := by
  simp only [status?, Option.map_eq_some_iff, Option.filter_eq_some_iff, decide_eq_true_eq]
  constructor
  · rintro ⟨⟨e, s'⟩, ⟨he, hk⟩, rfl⟩
    exact ⟨e, he, hk⟩
  · rintro ⟨e, he, hk⟩
    exact ⟨(e, s), ⟨he, hk⟩, rfl⟩

theorem status?_eq_none :
    W.status? k = none ↔ ∀ e s, W.exit = some (e, s) → W.instant k < e := by
  rw [Option.eq_none_iff_forall_ne_some]
  constructor
  · intro h e s he
    by_contra hk
    exact h s (W.status?_eq_some.2 ⟨e, he, Nat.le_of_not_lt hk⟩)
  · intro h s hs
    obtain ⟨e, he, hk⟩ := W.status?_eq_some.1 hs
    exact absurd (h e s he) (Nat.not_lt_of_le hk)

theorem status?_mono {i j : Nat} {s : ExitStatus} (hij : i ≤ j) (h : W.status? i = some s) :
    W.status? j = some s := by
  obtain ⟨e, he, hi⟩ := W.status?_eq_some.1 h
  exact W.status?_eq_some.2 ⟨e, he, hi.trans (W.instant_mono hij)⟩

theorem last_look (timeout : Duration) :
    ∃ p < maxLooks timeout, IsLeast {i | W.start + timeout.nanos ≤ W.instant i} p := by
  have hex : ∃ i, W.start + timeout.nanos ≤ W.instant i := by
    refine ⟨timeout.nanos / pollInterval.nanos + 1, le_trans ?_ (W.start_le_instant _)⟩
    have hp : pollInterval.nanos = 5000000 := rfl
    rw [hp]
    omega
  refine ⟨Nat.find hex, ?_, Nat.find_spec hex, fun i hi => Nat.find_min' hex hi⟩
  apply Nat.lt_succ_of_le
  apply Nat.find_min' hex
  refine le_trans ?_ (W.start_le_instant _)
  have hp : pollInterval.nanos = 5000000 := rfl
  rw [hp]
  omega

theorem answer_poll : W.answer child past (.poll child) = some (.ok (W.status? (looksAt child past))) :=
  if_pos rfl

theorem now_of_looksAt (h : looksAt child past = k + 1) : W.now child past = W.instant k := by
  rw [now, h, if_neg k.succ_ne_zero, Nat.add_sub_cancel]

theorem looksAt_poll {r : Except FileError (Option ExitStatus)} :
    looksAt child (⟨.poll child, r⟩ :: past) = looksAt child past + 1 :=
  List.countP_cons_of_pos (decide_eq_true rfl)

theorem looksAt_now {r : Nat} : looksAt child (⟨.now, r⟩ :: past) = looksAt child past :=
  List.countP_cons_of_neg Bool.false_ne_true

theorem looksAt_sleep {d : Duration} {r : Unit} :
    looksAt child (⟨.sleep d, r⟩ :: past) = looksAt child past :=
  List.countP_cons_of_neg Bool.false_ne_true

theorem waitFor_played {deadline : Nat} (hp : IsLeast {i | deadline ≤ W.instant i} p) (looks : Nat)
    (hlate : looksAt child past ≤ p) (hlooks : p < looksAt child past + looks)
    (hseen : ∀ i < looksAt child past, W.status? i = none) :
    ∃ past', (waitFor child deadline looks).played (W.answer child) past =
        some (.ok (W.status? p), past') ∧
      ∃ k ≤ p, looksAt child past' = k + 1 ∧ W.status? k = W.status? p ∧
        (∀ i < k, W.status? i = none) ∧ (W.status? p = none → k = p) := by
  -- The induction is on the looks that are left; nothing was seen so far, and none was late.
  induction looks generalizing past with
  | zero => omega
  | succ looks ih =>
    rw [waitFor, Program.played_bind, Program.played_perform W.answer_poll, Option.bind_some]
    cases hstatus : W.status? (looksAt child past) with
    | some s =>
      have hs : W.status? p = some s := W.status?_mono hlate hstatus
      refine ⟨_, by rw [hs]; rfl, looksAt child past, hlate, looksAt_poll, hstatus.trans hs.symm,
        hseen, ?_⟩
      intro hnone
      rw [hs] at hnone
      cases hnone
    | none =>
      have hnow : W.answer child (⟨.poll child, .ok none⟩ :: past) .now =
          some (W.instant (looksAt child past)) := by
        rw [answer, W.now_of_looksAt looksAt_poll]
      simp only
      rw [Program.played_bind, Program.played_perform hnow, Option.bind_some]
      by_cases hover : deadline ≤ W.instant (looksAt child past)
      · have hk : looksAt child past = p := Nat.le_antisymm hlate (hp.2 hover)
        refine ⟨_, by rw [if_pos hover, ← hk, hstatus]; rfl, looksAt child past, hlate, ?_, by rw [hk],
          hseen, fun _ => hk⟩
        rw [looksAt_now, looksAt_poll]
      · have hne : looksAt child past ≠ p := by
          intro hk
          exact hover (hk ▸ hp.1)
        let past₁ : List Taken := ⟨.now, W.instant (looksAt child past)⟩ :: ⟨.poll child, .ok none⟩ :: past
        have hlooks₁ : looksAt child past₁ = looksAt child past + 1 := by
          rw [looksAt_now, looksAt_poll]
        have hsleep : W.answer child past₁ (.sleep pollInterval) = some () := by
          rw [answer, W.now_of_looksAt hlooks₁, hlooks₁]
          exact if_pos (W.paused _)
        let past₂ : List Taken := ⟨.sleep pollInterval, ()⟩ :: past₁
        have hlooks₂ : looksAt child past₂ = looksAt child past + 1 := by
          rw [looksAt_sleep, hlooks₁]
        have hseen₂ : ∀ i < looksAt child past₂, W.status? i = none := by
          intro i hi
          rw [hlooks₂] at hi
          rcases Nat.lt_succ_iff_lt_or_eq.1 hi with hi | rfl
          · exact hseen i hi
          · exact hstatus
        rw [if_neg hover, Program.played_bind, Program.played_perform hsleep, Option.bind_some]
        exact @ih past₂ (by omega) (by omega) hseen₂

theorem waitFor_over (timeout : Duration) (hnone : looksAt child past = 0) :
    ∃ p, IsLeast {i | W.start + timeout.nanos ≤ W.instant i} p ∧
      ∃ past', (waitFor child (W.start + timeout.nanos) (maxLooks timeout)).played (W.answer child) past =
          some (.ok (W.status? p), past') ∧
        ∃ k ≤ p, looksAt child past' = k + 1 ∧ (W.status? p = none → k = p) ∧
          ∀ s, W.status? p = some s → ∃ e, W.exit = some (e, s) ∧ IsLeast {i | e ≤ W.instant i} k := by
  obtain ⟨p, hmax, hp⟩ := W.last_look timeout
  obtain ⟨past', hplayed, k, hk, hlooks, hstatus, hbefore, hlast⟩ := W.waitFor_played hp
    (maxLooks timeout) (hnone ▸ Nat.zero_le p) (by omega) (by simp [hnone])
  refine ⟨p, hp, past', hplayed, k, hk, hlooks, hlast, fun s hs => ?_⟩
  obtain ⟨e, he, hek⟩ := W.status?_eq_some.1 (hstatus.trans hs)
  refine ⟨e, he, hek, fun i hi => ?_⟩
  by_contra hlt
  have hseen := W.status?_eq_some.2 ⟨e, he, hi⟩
  rw [hbefore i (Nat.lt_of_not_le hlt)] at hseen
  cases hseen

theorem played_reap : (reap child).played (W.answer child) past =
    some ((), ⟨.await child, W.killed⟩ :: ⟨.kill child, ()⟩ :: past) := by
  have hkill : W.answer child past (.kill child) = some () := if_pos rfl
  have hawait : W.answer child (⟨.kill child, ()⟩ :: past) (.await child) = some W.killed := if_pos rfl
  rw [reap, Program.played_bind, Program.played_perform hkill, Option.bind_some, Program.played_bind,
    Program.played_perform hawait]
  rfl

end Watch

theorem le_look_zero (start : Nat) : start ≤ look start 0 := by
  rw [look]
  omega

theorem look_paused (start k : Nat) : look start k + pollInterval.nanos ≤ look start (k + 1) := by
  rw [look_succ]
  omega

def Watch.punctual (start : Nat) (exit : Option (Nat × ExitStatus)) : Watch where
  start := start
  instant := look start
  begun := le_look_zero start
  paused := look_paused start
  exit := exit
  killed := .ok (.signal 9)

example : (((⟨Path.ofText "stanc", ⟨0⟩, none⟩ : Translator).await .small 7).run.played
    ((Watch.punctual 0 (some (1, .code 0))).answer 7) []).map (·.1.toOption) = some (some (.code 0)) := rfl

end Translator

section Limits

variable {m : Machine} {w : World} {t : Translator} {n now : Nat} {id : ModelIdentity}

theorem Instant.after?_eq_none {i : Instant} {d : Duration} :
    i.after? d = none ↔ last.nanos < i.nanos + d.nanos := by
  rw [after?, ite_eq_right_iff]
  constructor
  · intro h
    by_contra hle
    cases h (Nat.le_of_not_lt hle)
  · intro h hle
    exact absurd h (Nat.not_lt_of_le hle)

theorem Config.timeout_le {get : String → Option String} {home : Option String} {c : Config}
    (h : ofVariables get home = .ok c) : c.timeout.nanos ≤ (2 ^ 64 - 1) * 1000000 := by
  rcases ofVariables_cases get home with ⟨e, he, -⟩ | ⟨c', hc', -, hasked, -⟩
  · cases h.symm.trans he
  · obtain rfl := Except.ok.inj (h.symm.trans hc')
    rcases hasked.timeout with ⟨v, k, -, ⟨_, -, -, hk⟩, htime⟩ | ⟨-, htime⟩
    · rw [htime]
      exact Nat.mul_le_mul_right _ hk
    · rw [htime]
      decide

theorem Config.deadline_of_variables {get : String → Option String} {home : Option String} {c : Config}
    (h : ofVariables get home = .ok c) (hnow : now ≤ 2 ^ 62 * 1000000000) :
    Instant.after? ⟨now⟩ c.timeout ≠ none := by
  have htime := timeout_le h
  have hlast : Instant.last.nanos = 2 ^ 63 * 1000000000 - 1 := rfl
  rw [Ne, Instant.after?_eq_none, hlast]
  simp only
  omega

theorem Translator.await_undated (h : Instant.last.nanos < w.clock + t.timeout.nanos) :
    (t.await id n).run.run m w = some (.error .noDeadline, w.advanceTo (w.clock + 1)) := by
  have hnow : (Program.perform .now).run m w = some (w.clock, w.advanceTo (w.clock + 1)) := rfl
  have hnone : Instant.after? ⟨w.clock⟩ t.timeout = none := Instant.after?_eq_none.2 h
  rw [await, Attempt.run_liftThen, hnow, Option.bind_some]
  simp only [hnone]
  rfl

def Machine.endless : Machine where
  start _ _ _ := .ok ⟨[], none, none, none⟩
  load _ _ _ := .error (.libraryLoad "")

theorem Translator.endless_child_left :
    (((⟨Path.ofText "stanc", ⟨(2 ^ 64 - 1) * 1000000000 + 999999999⟩, none⟩ : Translator).translate "x"
        .small).run.run .endless .empty).map (fun o => (o.1 matches .error .noDeadline,
          o.2.children.map fun c => (c.killed, c.activity.exit))) =
      some (true, [(none, none)]) := by
  decide +kernel

end Limits

end CompiledModels
