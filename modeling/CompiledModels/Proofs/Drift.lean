import CompiledModels.Machine.Step

/-!
What happens to the files while programs run, as long as each of them keeps to what is allowed.
-/

namespace CompiledModels

open Files

def Step.isIdle : Step → Bool
  | .write .. | .makeDirectory _ | .removeFile _ | .removeDirectory _ | .rename .. | .copy ..
  | .openLockFile _ | .acquire _ | .release _ => false
  | _ => true

structure Custom where
  sound : Tree → Prop
  may : Tree → Tree → Prop
  refl : ∀ {t}, sound t → may t t
  trans : ∀ {t t' t''}, may t t' → may t' t'' → may t t''
  keeps : ∀ {t t'}, sound t → may t t' → sound t'

namespace Custom

variable {K : Custom} {m : Machine} {s : Step} {w w' w'' : World} {c c' : Child}

def Tame (K : Custom) (a : Activity) : Prop :=
  ∀ e ∈ a.effects, ∀ change, e.2 = .files change → ∀ t, K.sound t → K.may t (change t)

/-- A process whose files are sound, and whose programs keep to what they may change. -/
structure Calm (K : Custom) (w : World) : Prop where
  sound : K.sound w.files
  tame : ∀ c ∈ w.children, K.Tame c.activity

structure Drifts (K : Custom) (w w' : World) : Prop where
  files : K.may w.files w'.files
  environment : w'.environment = w.environment
  locked : w'.locked = w.locked
  tame : ∀ c ∈ w'.children, K.Tame c.activity

theorem Drifts.calm (h : K.Drifts w w') (hw : K.Calm w) : K.Calm w' :=
  ⟨K.keeps hw.sound h.files, h.tame⟩

theorem Drifts.trans (h : K.Drifts w w') (h' : K.Drifts w' w'') : K.Drifts w w'' :=
  ⟨K.trans h.files h'.files, h'.environment.trans h.environment, h'.locked.trans h.locked, h'.tame⟩

theorem Drifts.of_eq (hw : K.Calm w) (hf : w'.files = w.files)
    (he : w'.environment = w.environment) (hl : w'.locked = w.locked)
    (hc : w'.children = w.children) : K.Drifts w w' :=
  ⟨by rw [hf]; exact K.refl hw.sound, he, hl, hc ▸ hw.tame⟩

theorem applyEffect_drifts {e : Effect} (hw : K.Calm w)
    (he : ∀ change, e = .files change → ∀ t, K.sound t → K.may t (change t)) :
    K.Drifts w (w.applyEffect c e).2 ∧ (w.applyEffect c e).1.activity = c.activity := by
  cases e with
  | files change =>
    exact ⟨⟨he change rfl _ hw.sound, rfl, rfl, hw.tame⟩, rfl⟩
  | out bytes =>
    unfold World.applyEffect
    dsimp only
    split <;> exact ⟨.of_eq hw rfl rfl rfl rfl, rfl⟩
  | err bytes =>
    unfold World.applyEffect
    dsimp only
    split <;> exact ⟨.of_eq hw rfl rfl rfl rfl, rfl⟩
  | errAt place bytes =>
    unfold World.applyEffect World.onDiagnostics
    dsimp only
    split <;> exact ⟨.of_eq hw rfl rfl rfl rfl, rfl⟩
  | errCut size =>
    unfold World.applyEffect World.onDiagnostics
    dsimp only
    split <;> exact ⟨.of_eq hw rfl rfl rfl rfl, rfl⟩

theorem applyEffects_drifts (es : List (Duration × Effect)) (hw : K.Calm w)
    (he : ∀ e ∈ es, ∀ change, e.2 = .files change → ∀ t, K.sound t → K.may t (change t)) :
    K.Drifts w (es.foldl (fun (c, w) e => World.applyEffect w c e.2) (c, w)).2 ∧
      (es.foldl (fun (c, w) e => World.applyEffect w c e.2) (c, w)).1.activity = c.activity := by
  induction es generalizing c w with
  | nil => exact ⟨.of_eq hw rfl rfl rfl rfl, rfl⟩
  | cons e es ih =>
    obtain ⟨hd, ha⟩ := applyEffect_drifts (c := c) hw (he e (by simp))
    obtain ⟨hd', ha'⟩ := ih (c := (w.applyEffect c e.2).1) (hd.calm hw) fun e h => he e (by simp [h])
    exact ⟨hd.trans hd', ha'.trans ha⟩

theorem settleChild_drifts (hw : K.Calm w) (hc : K.Tame c.activity) :
    K.Drifts w (w.settleChild c).2 ∧ K.Tame (w.settleChild c).1.activity := by
  let due := c.activity.effects.takeWhile fun e => c.reached w.clock e.1
  obtain ⟨hd, ha⟩ := applyEffects_drifts (c := { c with activity :=
    { c.activity with effects := c.activity.effects.drop due.length } }) due hw
    fun e he => hc e ((List.takeWhile_prefix _).subset he)
  refine ⟨hd, ?_⟩
  simp only [World.settleChild]
  rw [ha]
  exact fun e he => hc e (List.mem_of_mem_drop he)

theorem settle_drifts (hw : K.Calm w) : K.Drifts w w.settle := by
  suffices h : ∀ cs : List Child, (∀ c ∈ cs, K.Tame c.activity) → ∀ w', K.Calm w' →
      K.Drifts w' (cs.foldl (fun acc c =>
        let (c, acc) := World.settleChild acc c
        { acc with children := acc.children ++ [c] }) w') by
    have hcalm : K.Calm { w with children := [] } := ⟨hw.sound, by simp⟩
    have hd := h w.children hw.tame _ hcalm
    exact ⟨hd.files, hd.environment, hd.locked, hd.tame⟩
  intro cs hcs
  induction cs with
  | nil => exact fun w' hw' => .of_eq hw' rfl rfl rfl rfl
  | cons c cs ih =>
    intro w' hw'
    obtain ⟨hd, hc⟩ := settleChild_drifts hw' (hcs c (by simp))
    have hd' : K.Drifts w' { (w'.settleChild c).2 with
        children := (w'.settleChild c).2.children ++ [(w'.settleChild c).1] } := by
      refine ⟨hd.files, hd.environment, hd.locked, fun c' hc' => ?_⟩
      rcases List.mem_append.mp hc' with hc' | hc'
      · exact hd.tame c' hc'
      · rwa [List.mem_singleton.mp hc']
    exact hd'.trans (ih (fun c h => hcs c (by simp [h])) _ (hd'.calm hw'))

theorem advanceTo_drifts (hw : K.Calm w) (n : Nat) : K.Drifts w (w.advanceTo n) := by
  have h : K.Calm { w with clock := max w.clock n } := ⟨hw.sound, hw.tame⟩
  have hd := settle_drifts h
  exact ⟨hd.files, hd.environment, hd.locked, hd.tame⟩

theorem adopt_drifts {i : Invocation} {a : Activity} (hw : K.Calm w) (ha : K.Tame a) :
    K.Drifts w (Step.adopt w i a).2 := by
  let w₁ : World :=
    { w with
      children := w.children ++ [⟨w.nextNumber, w.clock, i, a, [], [], none⟩]
      nextNumber := w.nextNumber + 1 }
  have hcalm : K.Calm w₁ := by
    refine ⟨hw.sound, fun c hc => ?_⟩
    rcases List.mem_append.mp hc with hc | hc
    · exact hw.tame c hc
    · rwa [List.mem_singleton.mp hc]
  have hd := settle_drifts hcalm
  exact ⟨hd.files, hd.environment, hd.locked, hd.tame⟩

theorem collect_drifts {child : Nat} {instant : Activity → Option Duration} {bytes : Child → Bytes}
    {r : Bytes} (hw : K.Calm w) (h : Step.collect w child instant bytes = some (r, w')) :
    K.Drifts w w' := by
  unfold Step.collect at h
  split at h
  · simp only [Option.some.injEq, Prod.mk.injEq] at h
    exact h.2 ▸ .of_eq hw rfl rfl rfl rfl
  · simp only [Option.map_eq_some_iff, Prod.mk.injEq] at h
    obtain ⟨d, _, _, rfl⟩ := h
    exact advanceTo_drifts hw _

theorem onDescriptors_drifts {α : Type} {op : Except Errno (α × Descriptors)}
    {r : Except FileError α} (hw : K.Calm w) (h : Step.onDescriptors w op = (r, w')) :
    K.Drifts w w' := by
  unfold Step.onDescriptors at h
  split at h <;> simp only [Prod.mk.injEq] at h <;> exact h.2 ▸ .of_eq hw rfl rfl rfl rfl

theorem loadInto_drifts {registry : Nat} {key : String} {p : Path}
    {r : Except ModuleError LoadedModule} (hw : K.Calm w)
    (h : Step.loadInto m w registry key p = (r, w')) : K.Drifts w w' := by
  unfold Step.loadInto at h
  dsimp only at h
  split at h <;> simp only [Prod.mk.injEq] at h <;> obtain ⟨_, rfl⟩ := h <;>
    split <;> exact .of_eq hw rfl rfl rfl rfl

theorem kill_drifts {child : Nat} {r : Unit} (hw : K.Calm w)
    (h : (Step.kill child).exec m w = some (r, w')) : K.Drifts w w' := by
  obtain ⟨-, rfl⟩ := Prod.mk.inj (Option.some.inj h)
  refine ⟨K.refl hw.sound, rfl, rfl, fun c hc => ?_⟩
  obtain ⟨c', hc', rfl⟩ := List.mem_map.mp hc
  split <;> exact hw.tame c' hc'

theorem await_drifts {child : Nat} {r : Except FileError ExitStatus} (hw : K.Calm w)
    (h : (Step.await child).exec m w = some (r, w')) : K.Drifts w w' := by
  unfold Step.exec at h
  dsimp only at h
  split at h
  · simp only [Option.some.injEq, Prod.mk.injEq] at h
    exact h.2 ▸ .of_eq hw rfl rfl rfl rfl
  · simp only [Option.bind_eq_some_iff, Option.map_eq_some_iff, Prod.mk.injEq] at h
    obtain ⟨t, _, s, _, _, rfl⟩ := h
    exact advanceTo_drifts hw t

theorem start_drifts {i : Invocation} {r : Except FileError Nat} (hw : K.Calm w)
    (ha : ∀ a, m.start w.environment w.files i = .ok a → K.Tame a)
    (h : (Step.start i).exec m w = some (r, w')) : K.Drifts w w' := by
  unfold Step.exec at h
  dsimp only at h
  split at h <;> simp only [Option.some.injEq, Prod.mk.injEq] at h
  · exact h.2 ▸ adopt_drifts hw (ha _ ‹_›)
  · exact h.2 ▸ .of_eq hw rfl rfl rfl rfl

theorem idle_drifts {r : s.Reply} (hs : s.isIdle = true) (hw : K.Calm w)
    (ha : ∀ i a, s = .start i → m.start w.environment w.files i = .ok a → K.Tame a)
    (h : s.exec m w = some (r, w')) : K.Drifts w w' := by
  have hsame {α : Type} {a b : α} {w₁ : World} (h : some (a, w₁) = some (b, w'))
      (hd : K.Drifts w w₁) : K.Drifts w w' :=
    (Prod.mk.inj (Option.some.inj h)).2 ▸ hd
  cases s with
  | start i => exact start_drifts hw (fun a => ha i a rfl) h
  | kill child => exact kill_drifts hw h
  | await child => exact await_drifts hw h
  | collectOut child => exact collect_drifts hw h
  | collectErr child => exact collect_drifts hw h
  | now => exact hsame h (advanceTo_drifts hw _)
  | sleep d => exact hsame h (advanceTo_drifts hw _)
  | duplicate d => exact onDescriptors_drifts hw (Option.some.inj h)
  | redirect d dest => exact onDescriptors_drifts hw (Option.some.inj h)
  | rewind d => exact onDescriptors_drifts hw (Option.some.inj h)
  | readToEnd d => exact onDescriptors_drifts hw (Option.some.inj h)
  | getOrLoad registry key p => exact loadInto_drifts hw (Option.some.inj h)
  | beginRedirection =>
    simp only [Step.exec] at h
    split at h
    · simp at h
    · exact hsame h (.of_eq hw rfl rfl rfl rfl)
  | enter module =>
    simp only [Step.exec] at h
    split at h
    · exact hsame h (.of_eq hw rfl rfl rfl rfl)
    · split at h
      · simp at h
      · exact hsame h (.of_eq hw rfl rfl rfl rfl)
  | leave module =>
    simp only [Step.exec] at h
    split at h <;> exact hsame h (.of_eq hw rfl rfl rfl rfl)
  | write | makeDirectory | removeFile | removeDirectory | rename | copy | openLockFile | acquire
  | release => simp [Step.isIdle] at hs
  | _ => exact hsame h (.of_eq hw rfl rfl rfl rfl)

end Custom

end CompiledModels
