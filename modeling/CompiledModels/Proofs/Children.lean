import CompiledModels.Machine.Step
import Mathlib.Data.List.Forall2

/-!
How started programs go on while time passes: each does the next things that it is to do, and what
it has written is in its pipes.
-/

namespace CompiledModels

def Effect.outBytes : Effect → Bytes
  | .out bytes => bytes
  | _ => []

def Effect.errBytes : Effect → Bytes
  | .err bytes => bytes
  | _ => []

def outOf (es : List (Duration × Effect)) : Bytes := es.flatMap (·.2.outBytes)

def errOf (es : List (Duration × Effect)) : Bytes := es.flatMap (·.2.errBytes)

namespace Child

structure Later (done : List (Duration × Effect)) (c c' : Child) : Prop where
  number : c'.number = c.number
  started : c'.started = c.started
  invocation : c'.invocation = c.invocation
  killed : c'.killed = c.killed
  exit : c'.activity.exit = c.activity.exit
  outEnd : c'.activity.outEnd = c.activity.outEnd
  errEnd : c'.activity.errEnd = c.activity.errEnd
  effects : c.activity.effects = done ++ c'.activity.effects
  out : c.invocation.out = .piped → c'.outBytes = c.outBytes ++ outOf done
  err : c.invocation.err = .piped → c'.errBytes = c.errBytes ++ errOf done

variable {c c' c'' : Child} {done done' : List (Duration × Effect)} {now : Nat}

theorem Later.refl (c : Child) : Later [] c c :=
  ⟨rfl, rfl, rfl, rfl, rfl, rfl, rfl, rfl, fun _ => (List.append_nil _).symm,
    fun _ => (List.append_nil _).symm⟩

theorem Later.trans (h : Later done c c') (h' : Later done' c' c'') :
    Later (done ++ done') c c'' where
  number := h'.number.trans h.number
  started := h'.started.trans h.started
  invocation := h'.invocation.trans h.invocation
  killed := h'.killed.trans h.killed
  exit := h'.exit.trans h.exit
  outEnd := h'.outEnd.trans h.outEnd
  errEnd := h'.errEnd.trans h.errEnd
  effects := by rw [h.effects, h'.effects, List.append_assoc]
  out hp := by
    rw [h'.out (by rw [h.invocation, hp]), h.out hp, List.append_assoc, outOf, outOf, outOf,
      List.flatMap_append]
  err hp := by
    rw [h'.err (by rw [h.invocation, hp]), h.err hp, List.append_assoc, errOf, errOf, errOf,
      List.flatMap_append]

theorem Later.status (h : Later done c c') (now : Nat) : c'.status? now = c.status? now := by
  simp only [status?, h.killed, h.exit, h.started]

theorem Later.end_eq (h : Later done c c') : c'.end? = c.end? := by
  simp only [end?, h.killed, h.exit, h.started]

def dead (now : Nat) (c : Child) : Child :=
  if (c.status? now).isNone then { c with killed := some now } else c

theorem dead_ended (now : Nat) (c : Child) (hk : c.killed = none) :
    ((c.dead now).status? now).isSome = true ∧ ∃ t ≤ now, (c.dead now).end? = some t := by
  rw [dead]
  split
  case isTrue h =>
    constructor
    · cases he : c.activity.exit with
      | none => simp [status?, he]
      | some e =>
        simp only [status?, he]
        split <;> simp
    · cases he : c.activity.exit with
      | none => exact ⟨now, Nat.le_refl _, by simp [end?, he]⟩
      | some e => exact ⟨_, Nat.min_le_left now (c.started + e.1.nanos), by simp [end?, he]⟩
  case isFalse h =>
    have hs : (c.status? now).isSome = true := by simpa [Option.isSome_iff_ne_none] using h
    refine ⟨hs, ?_⟩
    cases he : c.activity.exit with
    | none => simp [status?, hk, he] at hs
    | some e =>
      refine ⟨c.started + e.1.nanos, ?_, by simp [end?, hk, he]⟩
      by_contra hlt
      simp [status?, hk, he, hlt] at hs

def UpToDate (now : Nat) (c : Child) : Prop :=
  ∀ e ∈ c.activity.effects.head?, c.reached now e.1 = false

end Child

namespace World

variable {w w' w'' : World} {c c' : Child} {n : Nat}

structure Wrote (done : List (Duration × Effect)) (c c' : Child) : Prop where
  same : c' = { c with outBytes := c'.outBytes, errBytes := c'.errBytes }
  out : c.invocation.out = .piped → c'.outBytes = c.outBytes ++ outOf done
  err : c.invocation.err = .piped → c'.errBytes = c.errBytes ++ errOf done

def Worked (w w' : World) : Prop := ∃ files descriptors, w' = { w with files, descriptors }

theorem Worked.trans (h : w.Worked w') (h' : w'.Worked w'') : w.Worked w'' := by
  obtain ⟨f, d, rfl⟩ := h
  obtain ⟨f', d', rfl⟩ := h'
  exact ⟨f', d', rfl⟩

theorem wrote_nothing {d : Duration} {e : Effect} (ho : e.outBytes = []) (he : e.errBytes = []) :
    Wrote [(d, e)] c c :=
  ⟨rfl, fun _ => by simp [outOf, ho], fun _ => by simp [errOf, he]⟩

theorem worked_onDiagnostics (change : OpenFile → OpenFile) : w.Worked (w.onDiagnostics c change) := by
  rw [onDiagnostics]
  split <;> exact ⟨_, _, rfl⟩

theorem applyEffect_wrote (w : World) (c : Child) (e : Duration × Effect) :
    Wrote [e] c (w.applyEffect c e.2).1 ∧ w.Worked (w.applyEffect c e.2).2 := by
  obtain ⟨d, e⟩ := e
  cases e with
  | files change => exact ⟨wrote_nothing rfl rfl, _, _, rfl⟩
  | out bytes =>
    cases hc : c.invocation.out with
    | piped =>
      simp only [applyEffect, hc]
      exact ⟨⟨rfl, fun _ => by simp [outOf, Effect.outBytes], fun _ => by simp [errOf, Effect.errBytes]⟩,
        _, _, rfl⟩
    | inherited | discarded =>
      simp only [applyEffect, hc]
      exact ⟨⟨rfl, fun hp => by simp [hc] at hp, fun _ => by simp [errOf, Effect.errBytes]⟩, _, _, rfl⟩
  | err bytes =>
    cases hc : c.invocation.err with
    | piped =>
      simp only [applyEffect, hc]
      exact ⟨⟨rfl, fun _ => by simp [outOf, Effect.outBytes], fun _ => by simp [errOf, Effect.errBytes]⟩,
        _, _, rfl⟩
    | inherited | discarded =>
      simp only [applyEffect, hc]
      exact ⟨⟨rfl, fun _ => by simp [outOf, Effect.outBytes], fun hp => by simp [hc] at hp⟩, _, _, rfl⟩
  | errAt place bytes => exact ⟨wrote_nothing rfl rfl, worked_onDiagnostics _⟩
  | errCut size => exact ⟨wrote_nothing rfl rfl, worked_onDiagnostics _⟩

theorem applyEffects_wrote (es : List (Duration × Effect)) (w : World) (c : Child) :
    Wrote es c (es.foldl (fun (c, w) e => applyEffect w c e.2) (c, w)).1 ∧
      w.Worked (es.foldl (fun (c, w) e => applyEffect w c e.2) (c, w)).2 := by
  induction es generalizing w c with
  | nil => exact ⟨⟨rfl, fun _ => by simp [outOf], fun _ => by simp [errOf]⟩, _, _, rfl⟩
  | cons e es ih =>
    obtain ⟨hc, hw⟩ := applyEffect_wrote w c e
    obtain ⟨hc', hw'⟩ := ih (w.applyEffect c e.2).2 (w.applyEffect c e.2).1
    have hinv : (w.applyEffect c e.2).1.invocation = c.invocation := by rw [hc.same]
    refine ⟨⟨?_, fun hp => ?_, fun hp => ?_⟩, hw.trans hw'⟩
    · rw [List.foldl_cons, hc'.same, hc.same]
    · rw [List.foldl_cons, hc'.out (hinv ▸ hp), hc.out hp, List.append_assoc]
      simp [outOf]
    · rw [List.foldl_cons, hc'.err (hinv ▸ hp), hc.err hp, List.append_assoc]
      simp [errOf]

theorem drop_length_takeWhile {α : Type} (p : α → Bool) (l : List α) :
    l.drop (l.takeWhile p).length = l.dropWhile p := by
  induction l with
  | nil => rfl
  | cons a l ih =>
    by_cases h : p a
    · simp [h, ih]
    · simp [h]

theorem settleChild_eq (w : World) (c : Child) : w.settleChild c =
    (c.activity.effects.takeWhile fun e => c.reached w.clock e.1).foldl
      (fun (c, w) e => applyEffect w c e.2)
      ({ c with activity := { c.activity with
          effects := c.activity.effects.dropWhile fun e => c.reached w.clock e.1 } }, w) := by
  rw [settleChild]
  simp only [drop_length_takeWhile]

theorem settleChild_later (w : World) (c : Child) : (∃ done, c.Later done (w.settleChild c).1) ∧
    (w.settleChild c).1.UpToDate w.clock ∧ w.Worked (w.settleChild c).2 := by
  rw [settleChild_eq]
  obtain ⟨hc, hw⟩ := applyEffects_wrote
    (c.activity.effects.takeWhile fun e => c.reached w.clock e.1) w
    { c with activity := { c.activity with
        effects := c.activity.effects.dropWhile fun e => c.reached w.clock e.1 } }
  generalize List.foldl _ _ _ = r at hc hw
  obtain ⟨hsame, hout, herr⟩ := hc
  refine ⟨⟨_, ?_, ?_, ?_, ?_, ?_, ?_, ?_, ?_, hout, herr⟩, ?_, hw⟩
  case refine_8 =>
    rw [hsame]
    exact List.takeWhile_append_dropWhile.symm
  case refine_9 =>
    rw [hsame]
    intro e he
    have hhead := List.head?_dropWhile_not (fun e => c.reached w.clock e.1) c.activity.effects
    rw [Option.mem_def.1 he] at hhead
    simpa [Child.reached] using hhead
  all_goals rw [hsame]

def Settled (now : Nat) (c c' : Child) : Prop := (∃ done, c.Later done c') ∧ c'.UpToDate now

theorem settle_eq (w : World) : List.Forall₂ (Settled w.clock) w.children w.settle.children ∧
    ∃ files descriptors, w.settle = { w with files, descriptors, children := w.settle.children } := by
  have hfold : ∀ (cs : List Child) (acc : World), acc.clock = w.clock →
      ∃ cs' files descriptors, List.Forall₂ (Settled w.clock) cs cs' ∧
        cs.foldl (fun acc c => { (settleChild acc c).2 with
            children := (settleChild acc c).2.children ++ [(settleChild acc c).1] }) acc =
          { acc with files, descriptors, children := acc.children ++ cs' } := by
    intro cs
    induction cs with
    | nil => exact fun acc _ => ⟨[], _, _, .nil, by simp; rfl⟩
    | cons c cs ih =>
      intro acc hacc
      obtain ⟨hlater, hdate, files, descriptors, hw⟩ := settleChild_later acc c
      obtain ⟨cs', files', descriptors', hcs, heq⟩ := ih { (settleChild acc c).2 with
        children := (settleChild acc c).2.children ++ [(settleChild acc c).1] } (by rw [hw]; exact hacc)
      refine ⟨(settleChild acc c).1 :: cs', files', descriptors', .cons ⟨hlater, hacc ▸ hdate⟩ hcs, ?_⟩
      rw [List.foldl_cons, heq, hw]
      simp
  obtain ⟨cs', files, descriptors, hcs, heq⟩ := hfold w.children { w with children := [] } rfl
  have hsettle : w.settle = { w with files, descriptors, children := cs' } := heq
  rw [hsettle]
  exact ⟨hcs, files, descriptors, rfl⟩

theorem child?_settle (h : w.child? n = some c) : ∃ c', w.settle.child? n = some c' ∧ Settled w.clock c c' := by
  have hfind : ∀ {cs cs' : List Child}, List.Forall₂ (Settled w.clock) cs cs' →
      cs.find? (·.number = n) = some c → ∃ c', cs'.find? (·.number = n) = some c' ∧ Settled w.clock c c' := by
    intro cs cs' hcs
    induction hcs with
    | nil => simp
    | @cons d d' cs cs' hd hcs ih =>
      obtain ⟨⟨done, hlater⟩, hdate⟩ := hd
      intro hf
      rw [List.find?_cons] at hf ⊢
      rw [hlater.number]
      split at hf
      · obtain rfl := Option.some.inj hf
        exact ⟨d', rfl, ⟨done, hlater⟩, hdate⟩
      · exact ih hf
  exact hfind (settle_eq w).1 h

structure Passes (now : Nat) (w w' : World) : Prop where
  same : ∃ files descriptors, w' = { w with clock := now, files, descriptors, children := w'.children }
  child : ∀ n c, w.child? n = some c → ∃ c', w'.child? n = some c' ∧ Settled now c c'

theorem advanceTo_passes (w : World) (t : Nat) : w.Passes (max w.clock t) (w.advanceTo t) := by
  obtain ⟨-, files, descriptors, h⟩ := settle_eq { w with clock := max w.clock t }
  exact ⟨⟨files, descriptors, h⟩, fun n c hc => child?_settle hc⟩

theorem Passes.clock {now : Nat} (h : w.Passes now w') : w'.clock = now := by
  obtain ⟨files, descriptors, h⟩ := h.same
  rw [h]

theorem Passes.environment {now : Nat} (h : w.Passes now w') : w'.environment = w.environment := by
  obtain ⟨files, descriptors, h⟩ := h.same
  rw [h]

def Counted (w : World) : Prop := ∀ c ∈ w.children, c.number < w.nextNumber

def born (w : World) (i : Invocation) (a : Activity) : Child :=
  ⟨w.nextNumber, w.clock, i, a, [], [], none⟩

theorem adopt_child (hw : w.Counted) (i : Invocation) (a : Activity) : (Step.adopt w i a).1 = w.nextNumber ∧
    (Step.adopt w i a).2.clock = w.clock ∧ (Step.adopt w i a).2.environment = w.environment ∧
    ∃ c, (Step.adopt w i a).2.child? w.nextNumber = some c ∧ Settled w.clock (w.born i a) c := by
  obtain ⟨-, files, descriptors, hsettle⟩ := settle_eq
    { w with children := w.children ++ [w.born i a], nextNumber := w.nextNumber + 1 }
  have hadopt : (Step.adopt w i a).2 =
    { w with children := w.children ++ [w.born i a], nextNumber := w.nextNumber + 1 }.settle := rfl
  have hnone : w.children.find? (·.number = w.nextNumber) = none := by
    rw [List.find?_eq_none]
    intro c hc
    have hlt := hw c hc
    simp only [decide_eq_true_eq]
    omega
  refine ⟨rfl, by rw [hadopt, hsettle], by rw [hadopt, hsettle], child?_settle ?_⟩
  rw [child?, List.find?_append, hnone]
  simp [born]

def killing (w : World) (n : Nat) : World :=
  { w with children := w.children.map fun c =>
      if c.number = n ∧ (c.status? w.clock).isNone then { c with killed := some w.clock } else c }

theorem child?_killing (h : w.child? n = some c) :
    (w.killing n).child? n = some (c.dead w.clock) := by
  have hn : c.number = n := by simpa using List.find?_some h
  have hnumber : (fun c : Child => decide ((if c.number = n ∧ (c.status? w.clock).isNone then
      { c with killed := some w.clock } else c).number = n)) = fun c => decide (c.number = n) := by
    funext c
    split <;> rfl
  rw [child?, killing, List.find?_map, Function.comp_def, hnumber]
  rw [child?] at h
  rw [h, Option.map_some, Child.dead]
  simp only [hn, true_and]

end World

end CompiledModels
