import CompiledModels.Proofs.Deadline
import CompiledModels.Proofs.DescriptorTable
import Mathlib.Data.List.TakeWhile

/-!
What started programs write to the diagnostics of the process that has started them.
-/

namespace CompiledModels

open Descriptors (diagnostics)

def Effect.onFile : Effect → OpenFile → OpenFile
  | .err bytes, f => f.write bytes
  | .errAt place bytes, f => f.writeAt place bytes
  | .errCut size, f => f.cut size
  | _, f => f

def diagnose (es : List (Duration × Effect)) (f : OpenFile) : OpenFile :=
  es.foldl (fun f e => e.2.onFile f) f

theorem diagnose_append (es es' : List (Duration × Effect)) (f : OpenFile) :
    diagnose (es ++ es') f = diagnose es' (diagnose es f) := List.foldl_append

def Activity.over (a : Activity) : Nat :=
  max ((a.outEnd.map (·.nanos)).getD 0) ((a.exit.map (·.1.nanos)).getD 0)

def Activity.heard (a : Activity) : Bytes :=
  (diagnose (a.effects.takeWhile fun e => e.1.nanos ≤ a.over) .empty).content

namespace Child

def utters (c : Child) (es : List (Duration × Effect)) : OpenFile → OpenFile :=
  if c.invocation.err = .inherited then diagnose es else id

structure Mute (c : Child) : Prop where
  out : c.invocation.out ≠ .inherited
  err : c.invocation.err ≠ .inherited

variable {c c' : Child} {done : List (Duration × Effect)} {now now' : Nat} {d : Duration}

theorem Mute.utters (h : c.Mute) (es : List (Duration × Effect)) : c.utters es = id := if_neg h.err

theorem Later.mute (hl : c.Later done c') (h : c.Mute) : c'.Mute := by
  constructor
  · rw [hl.invocation]
    exact h.out
  · rw [hl.invocation]
    exact h.err

theorem Later.reached (hl : c.Later done c') (now : Nat) : c'.reached now = c.reached now := by
  funext d
  simp only [Child.reached, hl.started, hl.killed]

theorem reached_mono (hn : now ≤ now') (h : c.reached now d = true) : c.reached now' d = true := by
  simp only [Child.reached, decide_eq_true_eq] at h ⊢
  cases hk : c.killed with
  | none =>
    simp only [hk, Option.elim_none] at h ⊢
    omega
  | some t =>
    simp only [hk, Option.elim_some] at h ⊢
    omega

end Child

namespace World

variable {w w' : World} {c c₀ : Child} {t : Descriptors} {now : Nat}

theorem applyEffect_alike (w : World) (c : Child) (e : Effect) :
    w.descriptors.Alike (w.applyEffect c e).2.descriptors := by
  cases e with
  | files change => exact .refl _
  | out bytes =>
    simp only [applyEffect]
    split <;> first | exact .refl _ | exact Descriptors.alike_update _ _ _
  | err bytes =>
    simp only [applyEffect]
    split <;> first | exact .refl _ | exact Descriptors.alike_update _ _ _
  | errAt place bytes =>
    simp only [applyEffect, onDiagnostics]
    split <;> first | exact .refl _ | exact Descriptors.alike_update _ _ _
  | errCut size =>
    simp only [applyEffect, onDiagnostics]
    split <;> first | exact .refl _ | exact Descriptors.alike_update _ _ _

theorem applyEffect_utters (ho : c.invocation.out ≠ .inherited) (w : World) (e : Duration × Effect) :
    (w.applyEffect c e.2).2.descriptors = w.descriptors.update diagnostics (c.utters [e]) := by
  have hquiet (h : e.2.onFile = id) : c.utters [e] = id := by
    unfold Child.utters
    split
    · exact h
    · rfl
  obtain ⟨d, e⟩ := e
  cases e with
  | files change => rw [hquiet rfl, Descriptors.update_id, applyEffect]
  | out bytes =>
    rw [hquiet rfl, Descriptors.update_id]
    simp only [applyEffect]
    split <;> first | rfl | contradiction
  | err | errAt | errCut =>
    simp only [applyEffect, onDiagnostics, Child.utters]
    cases c.invocation.err with
    | inherited => rfl
    | piped | discarded => simp [Descriptors.update_id]

theorem applyEffects_descriptors (es : List (Duration × Effect)) (w : World) (c : Child) :
    w.descriptors.Alike (es.foldl (fun (c, w) e => applyEffect w c e.2) (c, w)).2.descriptors ∧
      (c.invocation.out ≠ .inherited →
        (es.foldl (fun (c, w) e => applyEffect w c e.2) (c, w)).2.descriptors =
          w.descriptors.update diagnostics (c.utters es)) := by
  induction es generalizing w c with
  | nil =>
    refine ⟨.refl _, fun _ => ?_⟩
    have hutters : c.utters [] = id := by
      unfold Child.utters
      split <;> rfl
    rw [hutters, Descriptors.update_id, List.foldl_nil]
  | cons e es ih =>
    obtain ⟨halike, hutters⟩ := ih (w.applyEffect c e.2).2 (w.applyEffect c e.2).1
    have hinv : (w.applyEffect c e.2).1.invocation = c.invocation := by
      rw [(applyEffect_wrote w c e).1.same]
    refine ⟨(applyEffect_alike w c e.2).trans halike, fun ho => ?_⟩
    rw [List.foldl_cons, hutters (hinv ▸ ho), applyEffect_utters ho, Descriptors.update_update]
    congr 1
    unfold Child.utters
    rw [hinv]
    split <;> rfl

abbrev due (c : Child) (now : Nat) : List (Duration × Effect) :=
  c.activity.effects.takeWhile fun e => c.reached now e.1

theorem settleChild_descriptors (w : World) (c : Child) :
    w.descriptors.Alike (w.settleChild c).2.descriptors ∧ (c.invocation.out ≠ .inherited →
      (w.settleChild c).2.descriptors = w.descriptors.update diagnostics (c.utters (due c w.clock))) := by
  rw [settleChild_eq]
  exact applyEffects_descriptors _ w _

theorem settleChild_due (w : World) (c : Child) : c.Later (due c w.clock) (w.settleChild c).1 := by
  obtain ⟨⟨done, hl⟩, -, -⟩ := settleChild_later w c
  have hrest : (w.settleChild c).1.activity.effects =
      c.activity.effects.dropWhile fun e => c.reached w.clock e.1 := by
    rw [settleChild_eq, (applyEffects_wrote _ w _).1.same]
  have hdone : due c w.clock = done := by
    refine (List.append_left_inj (w.settleChild c).1.activity.effects).1 ?_
    rw [← hl.effects, hrest]
    exact List.takeWhile_append_dropWhile
  exact hdone ▸ hl

theorem forall_settled {cs cs' : List Child} {P : Child → Prop} (h : List.Forall₂ (Settled now) cs cs')
    (hP : ∀ {c c' done}, c.Later done c' → P c → P c') (hcs : ∀ c ∈ cs, P c) : ∀ c ∈ cs', P c := by
  induction h with
  | nil => exact hcs
  | cons hc _ ih =>
    obtain ⟨⟨done, hl⟩, -⟩ := hc
    obtain ⟨hhead, htail⟩ := List.forall_mem_cons.1 hcs
    exact List.forall_mem_cons.2 ⟨hP hl hhead, ih htail⟩

theorem settle_descriptors (w : World) : w.descriptors.Alike w.settle.descriptors ∧
    ((∀ c ∈ w.children, c.Mute) → w.settle.descriptors = w.descriptors) := by
  have hfold : ∀ (cs : List Child) (acc : World),
      acc.descriptors.Alike (cs.foldl (fun acc c => { (settleChild acc c).2 with
        children := (settleChild acc c).2.children ++ [(settleChild acc c).1] }) acc).descriptors ∧
      ((∀ c ∈ cs, c.Mute) → (cs.foldl (fun acc c => { (settleChild acc c).2 with
        children := (settleChild acc c).2.children ++ [(settleChild acc c).1] }) acc).descriptors =
          acc.descriptors) := by
    intro cs
    induction cs with
    | nil => exact fun acc => ⟨.refl _, fun _ => rfl⟩
    | cons c cs ih =>
      intro acc
      obtain ⟨halike, hmute⟩ := ih { (settleChild acc c).2 with
        children := (settleChild acc c).2.children ++ [(settleChild acc c).1] }
      obtain ⟨halike', hutters⟩ := settleChild_descriptors acc c
      refine ⟨halike'.trans halike, fun h => ?_⟩
      obtain ⟨hc, hcs⟩ := List.forall_mem_cons.1 h
      rw [List.foldl_cons, hmute hcs]
      exact (hutters hc.out).trans (by rw [hc.utters, Descriptors.update_id])
  exact hfold w.children { w with children := [] }

theorem adopt_same (w : World) (i : Invocation) (a : Activity) : ∃ files descriptors children,
    (Step.adopt w i a).2 = { w with files, descriptors, children, nextNumber := w.nextNumber + 1 } := by
  obtain ⟨-, files, descriptors, hsettle⟩ := settle_eq
    { w with children := w.children ++ [w.born i a], nextNumber := w.nextNumber + 1 }
  exact ⟨files, descriptors, _, hsettle⟩

structure Speaking (t : Descriptors) (c : Child) (w : World) : Prop where
  children : ∃ others c', w.children = others ++ [c'] ∧
    (∀ d ∈ others, d.Mute ∧ d.number ≠ c.number) ∧ c.Later (due c w.clock) c'
  descriptors : w.descriptors = t.update diagnostics (c.utters (due c w.clock))

theorem utters_append (c : Child) (es es' : List (Duration × Effect)) :
    c.utters es' ∘ c.utters es = c.utters (es ++ es') := by
  unfold Child.utters
  split
  · funext f
    exact (diagnose_append es es' f).symm
  · rfl

theorem speaking_settle {others : List Child} {done : List (Duration × Effect)} {c' : Child}
    (hc : w.children = others ++ [c']) (ho : ∀ d ∈ others, d.Mute ∧ d.number ≠ c.number)
    (hl : c.Later done c') (hd : ∀ e ∈ done, c.reached w.clock e.1 = true)
    (hi : c.invocation.out ≠ .inherited)
    (ht : w.descriptors = t.update diagnostics (c.utters done)) : w.settle.Speaking t c := by
  have hsettle : w.settle = { (settleChild { w with children := others }.settle c').2 with
      children := (settleChild { w with children := others }.settle c').2.children ++
        [(settleChild { w with children := others }.settle c').1] } := by
    rw [settle, hc, List.foldl_append]
    rfl
  obtain ⟨hothers, files, descriptors, hacc⟩ := settle_eq { w with children := others }
  have hsame := (settle_descriptors { w with children := others }).2 fun d hd => (ho d hd).1
  have hclock : ({ w with children := others } : World).settle.clock = w.clock := by rw [hacc]
  obtain ⟨-, hutters⟩ := settleChild_descriptors { w with children := others }.settle c'
  obtain ⟨-, -, files', descriptors', hworked⟩ := settleChild_later { w with children := others }.settle c'
  have hlater := settleChild_due { w with children := others }.settle c'
  have hdue : done ++ due c' w.clock = due c w.clock := by
    rw [due, due, hl.effects, List.takeWhile_append_of_pos hd, hl.reached]
  rw [hclock] at hutters hlater
  have hclock' : w.settle.clock = w.clock := by
    rw [hsettle, hworked, hacc]
  constructor
  · refine ⟨_, (settleChild { w with children := others }.settle c').1, by rw [hsettle], ?_, ?_⟩
    · rw [hworked]
      exact forall_settled (P := fun d => d.Mute ∧ d.number ≠ c.number) hothers
        (fun hl hd => ⟨hl.mute hd.1, hl.number ▸ hd.2⟩) ho
    · rw [hclock', ← hdue]
      exact hl.trans hlater
  · rw [hclock', hsettle]
    refine (hutters (hl.invocation ▸ hi)).trans ?_
    have hc' : c'.utters (due c' w.clock) = c.utters (due c' w.clock) := by
      unfold Child.utters
      rw [hl.invocation]
    rw [hsame, hc']
    refine (congrArg (Descriptors.update · _ _) ht).trans ?_
    rw [Descriptors.update_update, utters_append, hdue]

theorem Speaking.advanceTo (h : w.Speaking t c) (hi : c.invocation.out ≠ .inherited) (now : Nat) :
    (w.advanceTo now).Speaking t c := by
  obtain ⟨⟨others, c', hc, ho, hl⟩, ht⟩ := h
  refine speaking_settle hc ho hl (fun e he => ?_) hi ht
  have hreached : c.reached w.clock e.1 = true :=
    List.mem_takeWhile_imp (p := fun e : Duration × Effect => c.reached w.clock e.1) he
  exact Child.reached_mono (Nat.le_max_left _ _) hreached

theorem advanceTo_alike (w : World) (now : Nat) : w.descriptors.Alike (w.advanceTo now).descriptors :=
  (settle_descriptors { w with clock := max w.clock now }).1

theorem adopt_speaking (hw : w.Counted) (hm : ∀ c ∈ w.children, c.Mute) {i : Invocation}
    (hi : i.out ≠ .inherited) (a : Activity) :
    (Step.adopt w i a).2.Speaking w.descriptors (w.born i a) := by
  have hutters : (w.born i a).utters [] = id := by
    unfold Child.utters
    split <;> rfl
  have hchildren : ({ w with children := w.children ++ [w.born i a], nextNumber := w.nextNumber + 1 } :
      World).children = w.children ++ [w.born i a] := rfl
  refine speaking_settle hchildren (fun d hd => ⟨hm d hd, ?_⟩) (.refl _) (by simp) hi ?_
  · exact Nat.ne_of_lt (hw d hd)
  · rw [hutters, Descriptors.update_id]

theorem adopt_alike (w : World) (i : Invocation) (a : Activity) :
    w.descriptors.Alike (Step.adopt w i a).2.descriptors :=
  (settle_descriptors { w with children := w.children ++ [w.born i a], nextNumber := w.nextNumber + 1 }).1

end World

end CompiledModels
