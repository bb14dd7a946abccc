import CompiledModels.Proofs.Courtesy

/-!
Calls of many threads on one engine that lead into loaded modules or drop them: which modules the
threads are in, and what the table of modules is after their steps.
-/

namespace CompiledModels

open Files Program

/-- A call on an engine that looks at a module, or drops it. -/
inductive Visit
  | evaluate (id : ModelIdentity) (data : ModelData) (r : Request)
  | evaluateContained (id : ModelIdentity) (data : ModelData) (r : Request)
  | unload (id : ModelIdentity)
  | delete (id : ModelIdentity)

namespace Visit

inductive Result
  | evaluated (r : Request) (answer : Except EvalError r.Answer)
  | contained (r : Request) (answer : Option (Evaluation r.Answer))
  | unloaded (had : Bool)
  | deleted (r : Except Error Unit)

def Result.isDeleted : Result → Bool
  | deleted r => r.isOk
  | _ => false

theorem Result.isDeleted_iff {r : Result} : r.isDeleted = true ↔ r = .deleted (.ok ()) := by
  cases r with
  | deleted r => cases r <;> simp [isDeleted, Except.isOk, Except.toBool]
  | _ => simp [isDeleted]

def program (e : Engine) : Visit → Program Result
  | evaluate id data r => do return .evaluated r (← (e.evaluate id data r).run)
  | evaluateContained id data r => do return .contained r (← e.evaluateContained id data r)
  | unload id => do return .unloaded (← e.unload id)
  | delete id => do return .deleted (← (e.delete id).run)

end Visit

def occupied : List Taken → List LoadedModule
  | [] => []
  | t :: past =>
    match t.step with
    | .enter m => m :: occupied past
    | .leave m => (occupied past).filter (·.number ≠ m.number)
    | _ => occupied past

namespace World

variable {m : Machine} {w w' w'' : World} {c : Child}

structure Spares (w w' : World) : Prop where
  busy : w'.busy = w.busy
  registries : w'.registries = w.registries

namespace Spares

theorem rfl : Spares w w := ⟨Eq.refl _, Eq.refl _⟩

theorem trans (h : Spares w w') (h' : Spares w' w'') : Spares w w'' :=
  ⟨h'.busy.trans h.busy, h'.registries.trans h.registries⟩

theorem registry (h : Spares w w') (n : Nat) : w'.registry n = w.registry n := by
  rw [World.registry, h.registries, World.registry]

end Spares

theorem applyEffect_spares (e : Effect) : Spares w (w.applyEffect c e).2 := by
  cases e <;> unfold applyEffect <;> (try unfold onDiagnostics) <;> dsimp only <;>
    (try split) <;> exact ⟨by rfl, by rfl⟩

theorem applyEffects_spares (es : List (Duration × Effect)) :
    Spares w (es.foldl (fun (c, w) e => applyEffect w c e.2) (c, w)).2 := by
  induction es generalizing c w with
  | nil => exact .rfl
  | cons e es ih => exact (applyEffect_spares e.2).trans ih

theorem settle_spares : Spares w w.settle := by
  suffices h : ∀ (cs : List Child) (w' : World), Spares w' (cs.foldl (fun acc c =>
      let (c, acc) := settleChild acc c
      { acc with children := acc.children ++ [c] }) w') by
    have hs := h w.children { w with children := [] }
    exact ⟨hs.busy, hs.registries⟩
  intro cs
  induction cs with
  | nil => exact fun _ => .rfl
  | cons c cs ih =>
    intro w'
    have hs : Spares w' (w'.settleChild c).2 := applyEffects_spares _
    have hc : Spares w' { (w'.settleChild c).2 with
        children := (w'.settleChild c).2.children ++ [(w'.settleChild c).1] } :=
      ⟨hs.busy, hs.registries⟩
    exact hc.trans (ih _)

theorem advanceTo_spares (t : Nat) : Spares w (w.advanceTo t) := by
  have hs := settle_spares (w := { w with clock := max w.clock t })
  exact ⟨hs.busy, hs.registries⟩

theorem adopt_spares (i : Invocation) (a : Activity) : Spares w (Step.adopt w i a).2 := by
  have hs := settle_spares (w := { w with
    children := w.children ++ [⟨w.nextNumber, w.clock, i, a, [], [], none⟩]
    nextNumber := w.nextNumber + 1 })
  exact ⟨hs.busy, hs.registries⟩

theorem collect_spares {child : Nat} {instant : Activity → Option Duration} {bytes : Child → Bytes}
    {r : Bytes} (h : Step.collect w child instant bytes = some (r, w')) : Spares w w' := by
  unfold Step.collect at h
  split at h
  · obtain ⟨-, rfl⟩ := Prod.mk.inj (Option.some.inj h)
    exact .rfl
  · obtain ⟨d, -, hd⟩ := Option.map_eq_some_iff.mp h
    obtain ⟨-, rfl⟩ := Prod.mk.inj hd
    exact advanceTo_spares _

theorem onFiles_spares {op : Except FileError Tree} {r : Except FileError Unit}
    (h : Step.onFiles w op = (r, w')) : Spares w w' := by
  rcases Step.settles_of_onFiles h with ⟨_, _, rfl⟩ | ⟨_, t, _, rfl⟩
  · exact .rfl
  · exact ⟨by rfl, by rfl⟩

theorem onDescriptors_spares {α : Type} {op : Except Errno (α × Descriptors)}
    {r : Except FileError α} (h : Step.onDescriptors w op = (r, w')) : Spares w w' := by
  unfold Step.onDescriptors at h
  split at h <;> obtain ⟨-, rfl⟩ := Prod.mk.inj h <;> exact ⟨by rfl, by rfl⟩

theorem exec_spares {s : Step} {r : s.Reply} (hs : s.isOutside = true)
    (h : s.exec m w = some (r, w')) : Spares w w' := by
  have hsame {α : Type} {a b : α} {w₁ : World} (h : some (a, w₁) = some (b, w'))
      (hd : Spares w w₁) : Spares w w' := (Prod.mk.inj (Option.some.inj h)).2 ▸ hd
  cases s with
  | write | makeDirectory | removeFile | removeDirectory | rename | copy =>
    exact onFiles_spares (Option.some.inj h)
  | duplicate | redirect | rewind | readToEnd => exact onDescriptors_spares (Option.some.inj h)
  | collectOut | collectErr => exact collect_spares h
  | now | sleep => exact hsame h (advanceTo_spares _)
  | openLockFile p =>
    simp only [Step.exec] at h
    split at h <;> exact hsame h ⟨by rfl, by rfl⟩
  | acquire n =>
    simp only [Step.exec] at h
    split at h
    · simp at h
    · exact hsame h ⟨by rfl, by rfl⟩
  | beginRedirection =>
    simp only [Step.exec] at h
    split at h
    · simp at h
    · exact hsame h ⟨by rfl, by rfl⟩
  | start i =>
    simp only [Step.exec] at h
    split at h
    · exact hsame h (adopt_spares _ _)
    · exact hsame h .rfl
  | await child =>
    simp only [Step.exec] at h
    split at h
    · exact hsame h .rfl
    · obtain ⟨t, -, ht⟩ := Option.bind_eq_some_iff.mp h
      obtain ⟨s, -, hs⟩ := Option.map_eq_some_iff.mp ht
      obtain ⟨-, rfl⟩ := Prod.mk.inj hs
      exact advanceTo_spares t
  | getOrLoad | invalidate | newRegistry | enter | leave => simp [Step.isOutside] at hs
  | _ => exact hsame h ⟨by rfl, by rfl⟩

end World

theorem Scene.advanceTo_spares {ι ρ : Type} {S : Scene ι ρ} (q p t : Nat) :
    World.Spares (S.world q) ((S.put p ((S.world p).advanceTo t)).world q) := by
  by_cases hp : q = p
  · subst hp
    rw [put_world_self]
    exact World.advanceTo_spares t
  · rw [put_world_ne S _ hp]
    exact ⟨rfl, rfl⟩

namespace Registry

variable {r : Registry} {key other : String} {a : LoadedModule} {p : Path}

theorem get?_erase : (r.erase key).get? other = if other = key then none else r.get? other := by
  simp only [get?, erase]
  split
  case isTrue h =>
    subst h
    rw [Tree.find?_filter_self]
    rfl
  case isFalse h => rw [Tree.find?_filter_ne h]

theorem get?_insert :
    (r.insert key a).get? other = if other = key then some a else r.get? other := by
  simp only [get?, insert, List.find?_append]
  split
  case isTrue h =>
    subst h
    rw [Tree.find?_filter_self]
    simp
  case isFalse h =>
    rw [Tree.find?_filter_ne h]
    simp [Ne.symm h]

theorem current?_eq_some (h : r.current? key p = some a) :
    r.get? key = some a ∧ a.path.same p = true := by
  rwa [current?, Option.filter_eq_some_iff] at h

end Registry

end CompiledModels
