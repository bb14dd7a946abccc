import CompiledModels.Proofs.Table

/-!
Calls into loaded modules that overlap in time: never two in one loaded module, if it lets in one
call at a time, but two in modules that were loaded from one file, if the first of them was dropped
in between.
-/

namespace CompiledModels

open Files

def Machine.Solo (m : Machine) : Prop :=
  ∀ env files p s, m.load env files p = .ok s → s.reentrant = false

structure Engine.Gated (e : Engine) (w : World) (taken : List Taken) : Prop where
  table : ∀ key a, (w.registry e.registry).get? key = some a → a.services.reentrant = false
  loaded : ∀ key q a, ⟨.getOrLoad e.registry key q, .ok a⟩ ∈ taken → a.services.reentrant = false

def Engine.Dropped (e : Engine) (taken : List Taken) (a : LoadedModule) : Prop :=
  ∃ later t earlier key, taken = later ++ t :: earlier ∧ t.Loads e.registry key a ∧
    ∃ u ∈ later, u.Drops e.registry key a

namespace Engine.Gated

variable {e : Engine} {m : Machine} {w w' : World} {taken past : List Taken} {s : Step} {r : s.Reply}

theorem same (h : e.Gated w taken) (hw : w'.registries = w.registries) : e.Gated w' taken := by
  refine ⟨fun key a ha => h.table key a ?_, h.loaded⟩
  rwa [World.registry, hw, ← World.registry] at ha

theorem pass (h : e.Gated w taken)
    (hreg : ∀ key a, (w'.registry e.registry).get? key = some a →
      (w.registry e.registry).get? key = some a)
    (hs : ∀ n key p, s ≠ .getOrLoad n key p) : e.Gated w' (⟨s, r⟩ :: taken) := by
  refine ⟨fun key a ha => h.table key a (hreg key a ha), fun key q a hmem => ?_⟩
  rcases List.mem_cons.mp hmem with heq | hmem
  · exact absurd (Taken.mk.inj heq).1.symm (hs _ _ _)
  · exact h.loaded key q a hmem

theorem step (hm : m.Solo) (h : e.Gated w taken) (hn : e.registry < w.registries.length)
    (hs : s.Admissible e past) (hr : s.exec m w = some (r, w')) : e.Gated w' (⟨s, r⟩ :: taken) := by
  have hpass (hw : w'.registries = w.registries) (hload : ∀ n key p, s ≠ .getOrLoad n key p) :
      e.Gated w' (⟨s, r⟩ :: taken) := by
    refine h.pass (fun key a ha => ?_) hload
    rwa [World.registry, hw, ← World.registry] at ha
  by_cases hout : s.isOutside = true
  · refine hpass (World.exec_spares hout hr).registries ?_
    rintro n key p rfl
    simp [Step.isOutside] at hout
  cases s
  case getOrLoad n key p =>
    obtain ⟨rfl, -⟩ := hs
    have hgiven {r' : Except ModuleError LoadedModule}
        (hr' : ∀ a, r' = .ok a → a.services.reentrant = false) (hreg : ∀ key a,
          (w'.registry e.registry).get? key = some a → a.services.reentrant = false) :
        e.Gated w' (⟨.getOrLoad e.registry key p, r'⟩ :: taken) := by
      refine ⟨hreg, fun key' q a hmem => ?_⟩
      rcases List.mem_cons.mp hmem with heq | hmem
      · exact hr' a (eq_of_heq (Taken.mk.inj heq).2.symm)
      · exact h.loaded key' q a hmem
    rcases (World.getOrLoad_exec hn hr).2 with ⟨a, hc, rfl, hreg⟩ | ⟨-, s, hl, rfl, hreg⟩ | ⟨err, rfl, hreg⟩
    · refine hgiven (fun b hb => ?_) fun key' b hb => h.table key' b (hreg _ ▸ hb)
      exact Except.ok.inj hb ▸ h.table key a (Registry.current?_eq_some hc).1
    · refine hgiven (fun b hb => Except.ok.inj hb ▸ hm _ _ _ _ hl) fun key' b hb => ?_
      rw [hreg, if_pos rfl, Registry.get?_insert] at hb
      split at hb
      · exact Option.some.inj hb ▸ hm _ _ _ _ hl
      · exact h.table key' b hb
    · exact hgiven (fun b hb => by simp at hb) fun key' b hb => h.table key' b (hreg _ ▸ hb)
  case invalidate n key =>
    obtain rfl : n = e.registry := hs
    refine h.pass (fun key' a ha => ?_) fun _ _ _ => Step.noConfusion
    rw [(World.invalidate_exec hn hr).2.2, if_pos rfl, Registry.get?_erase] at ha
    split at ha
    · simp at ha
    · exact ha
  case enter a => exact hpass (World.enter_exec hr).1 fun _ _ _ => Step.noConfusion
  case leave a => exact hpass (World.leave_exec hr).1 fun _ _ _ => Step.noConfusion
  case newRegistry => exact hs.elim
  all_goals simp [Step.isOutside] at hout

end Engine.Gated

namespace Scene

variable {ι : Type} [DecidableEq ι] {e : Engine} {m : Machine} {S S' : Scene ι Visit.Result}
  {visit : ι → Visit} {pid : Nat} {i j : ι} {a b : LoadedModule}

structure Inside (e : Engine) (pid : Nat) (S : Scene ι Visit.Result) : Prop where
  shut : ∀ i, ∀ a ∈ occupied (S.past i), a.number ∈ (S.world pid).busy
  loaded : ∀ i, ∀ a ∈ occupied (S.past i), ∃ key q, ⟨.getOrLoad e.registry key q, .ok a⟩ ∈ S.past i
  apart : ∀ i j, i ≠ j → ∀ a ∈ occupied (S.past i), ∀ b ∈ occupied (S.past j), a.number ≠ b.number

theorem Inside.after {t : Taken} {q : Program Visit.Result} {w : World} (h : S.Inside e pid)
    (hi : S.process i = pid)
    (hmine : ∀ a ∈ occupied (t :: S.past i), a.number ∈ w.busy ∧
      (∃ key q, ⟨.getOrLoad e.registry key q, .ok a⟩ ∈ S.past i) ∧
      ∀ j, j ≠ i → ∀ b ∈ occupied (S.past j), b.number ≠ a.number)
    (hothers : ∀ j, j ≠ i → ∀ b ∈ occupied (S.past j), b.number ∈ w.busy) :
    (S.after i t q w).Inside e pid := by
  have hworld : (S.after i t q w).world pid = w := after_world_eq S t q w hi
  refine ⟨fun k a ha => ?_, fun k a ha => ?_, fun k l hkl a ha b hb => ?_⟩
  · rw [hworld]
    by_cases hk : k = i
    · subst hk
      rw [after_past_self] at ha
      exact (hmine a ha).1
    · rw [after_past_ne S t q w hk] at ha
      exact hothers k hk a ha
  · by_cases hk : k = i
    · subst hk
      rw [after_past_self] at ha ⊢
      obtain ⟨key, p, hmem⟩ := (hmine a ha).2.1
      exact ⟨key, p, List.mem_cons_of_mem _ hmem⟩
    · rw [after_past_ne S t q w hk] at ha ⊢
      exact h.loaded k a ha
  · by_cases hk : k = i <;> by_cases hl : l = i
    · exact absurd (hk.trans hl.symm) hkl
    · subst hk
      rw [after_past_self] at ha
      rw [after_past_ne S t q w hl] at hb
      exact ((hmine a ha).2.2 l hl b hb).symm
    · subst hl
      rw [after_past_self] at hb
      rw [after_past_ne S t q w hk] at ha
      exact (hmine b hb).2.2 k hk a ha
    · rw [after_past_ne S t q w hk] at ha
      rw [after_past_ne S t q w hl] at hb
      exact h.apart k l hkl a ha b hb

theorem Inside.step {s : Step} {r : s.Reply} {q : Program Visit.Result} {w : World}
    (h : S.Inside e pid) (hg : e.Gated (S.world pid) S.taken)
    (hn : e.registry < (S.world pid).registries.length) (hi : S.process i = pid)
    (hs : s.Admissible e (S.past i)) (hr : s.exec m (S.world pid) = some (r, w)) :
    (S.after i ⟨s, r⟩ q w).Inside e pid := by
  have hstay (ho : occupied (⟨s, r⟩ :: S.past i) = occupied (S.past i))
      (hw : w.busy = (S.world pid).busy) : (S.after i ⟨s, r⟩ q w).Inside e pid := by
    refine h.after hi (fun a ha => ?_) fun j _ b hb => hw ▸ h.shut j b hb
    rw [ho] at ha
    exact ⟨hw ▸ h.shut i a ha, h.loaded i a ha, fun j hj b hb => h.apart j i hj b hb a ha⟩
  by_cases hout : s.isOutside = true
  · refine hstay ?_ (World.exec_spares hout hr).busy
    cases s <;> first | rfl | simp [Step.isOutside] at hout
  cases s
  case getOrLoad n key p =>
    obtain ⟨rfl, -⟩ := hs
    exact hstay rfl (World.getOrLoad_exec hn hr).1.1
  case invalidate n key =>
    obtain rfl : n = e.registry := hs
    exact hstay rfl (World.invalidate_exec hn hr).1.1
  case enter a =>
    obtain ⟨hnone, key, p, hload⟩ := hs
    obtain ⟨hfree, hbusy⟩ := (World.enter_exec hr).2 (hg.loaded key p a (mem_taken hload))
    refine h.after hi (fun b hb => ?_) fun j _ b hb => ?_
    · obtain rfl : b = a := by simpa [occupied, hnone] using hb
      refine ⟨by simp [hbusy], ⟨key, p, hload⟩, fun j _ c hc heq => hfree ?_⟩
      exact heq ▸ h.shut j c hc
    · exact hbusy ▸ List.mem_cons_of_mem _ (h.shut j b hb)
  case leave a =>
    have hin : a ∈ occupied (S.past i) := by simp [show occupied (S.past i) = [a] from hs]
    obtain ⟨key, p, hload⟩ := h.loaded i a hin
    have hbusy := (World.leave_exec hr).2 (hg.loaded key p a (mem_taken hload))
    refine h.after hi (fun b hb => ?_) fun j hj b hb => ?_
    · simp [occupied, show occupied (S.past i) = [a] from hs] at hb
    · rw [hbusy, List.mem_filter]
      exact ⟨h.shut j b hb, by simpa using h.apart j i hj b hb a hin⟩
  case newRegistry => exact hs.elim
  all_goals simp [Step.isOutside] at hout

theorem Inside.moves (hm : m.Solo) (h : S.Inside e pid) (hg : e.Gated (S.world pid) S.taken)
    (hv : S.Visiting e pid) (hS : S.Moves m S') :
    S'.Inside e pid ∧ e.Gated (S'.world pid) S'.taken := by
  cases hS with
  | @step i s next r w hi hp hr =>
    rw [hv.process] at hr
    have hs := (hv.admissible hp (r := r) (w := w)).1
    refine ⟨h.step hg hv.tabled.present (hv.process i) hs hr, ?_⟩
    rw [after_world_eq S _ _ w (hv.process i)]
    exact hg.step hm hv.tabled.present hs hr
  | pass p t =>
    have hspares := advanceTo_spares (S := S) pid p t
    refine ⟨⟨fun k a ha => ?_, h.loaded, h.apart⟩, hg.same hspares.registries⟩
    rw [hspares.busy]
    exact h.shut k a ha
  | crash p hl => exact ⟨⟨h.shut, h.loaded, h.apart⟩, hg.same rfl⟩

theorem Shares.inside (h : S.Shares e visit pid) (hm : m.Solo)
    (hg : ∀ key a, ((S.worlds pid).registry e.registry).get? key = some a →
      a.services.reentrant = false) (hr : S.Reaches m S') :
    S'.Inside e pid ∧ e.Gated (S'.world pid) S'.taken := by
  induction hr with
  | refl =>
    have hpast (i : ι) : S.past i = [] := by simp [past, h.opens.history]
    refine ⟨⟨fun i => ?_, fun i => ?_, fun i j _ => ?_⟩, ⟨hg, ?_⟩⟩
    · simp [hpast, occupied]
    · simp [hpast, occupied]
    · simp [hpast, occupied]
    · simp [taken, h.opens.history]
  | tail hr hS ih => exact ih.1.moves hm ih.2 (h.visiting hr) hS

/-- Callers are never in the same loaded module; and if two are in modules that were loaded from
the same path, then one of the modules was dropped from the table after it had been given out. -/
theorem visitors_apart (h : S.Shares e visit pid) (hm : m.Solo)
    (hg : ∀ key a, ((S.worlds pid).registry e.registry).get? key = some a →
      a.services.reentrant = false) (hr : S.Reaches m S') (hij : i ≠ j)
    (ha : a ∈ occupied (S'.past i)) (hb : b ∈ occupied (S'.past j)) :
    a.number ≠ b.number ∧
      (a.path.same b.path = true → e.Dropped S'.taken a ∨ e.Dropped S'.taken b) := by
  have hv := h.visiting hr
  obtain ⟨hin, -⟩ := h.inside hm hg hr
  have hne := hin.apart i j hij a ha b hb
  refine ⟨hne, fun hsame => ?_⟩
  obtain ⟨ka, p, hla⟩ := hin.loaded i a ha
  obtain ⟨kb, q, hlb⟩ := hin.loaded j b hb
  obtain ⟨hap, id, name, rfl, rfl⟩ := hv.tabled.loaded _ _ _ (mem_taken hla)
  obtain ⟨hbq, id', name', rfl, rfl⟩ := hv.tabled.loaded _ _ _ (mem_taken hlb)
  obtain rfl : id = id' := by
    rw [Path.same_iff] at hsame hap hbq
    exact Path.same_join_entry (Path.same_iff.mpr (hap.symm.trans (hsame.trans hbq)))
  obtain ⟨la, ea, hta⟩ := List.append_of_mem (mem_taken hla)
  obtain ⟨lb, eb, htb⟩ := List.append_of_mem (mem_taken hlb)
  rcases hv.tabled.kept _ _ _ _ a hta ⟨_, rfl⟩ with hka | hd
  · rcases hv.tabled.kept _ _ _ _ b htb ⟨_, rfl⟩ with hkb | hd
    · exact absurd (congrArg LoadedModule.number (Option.some.inj (hka.symm.trans hkb))) hne
    · exact .inr ⟨_, _, _, _, htb, ⟨_, rfl⟩, hd⟩
  · exact .inl ⟨_, _, _, _, hta, ⟨_, rfl⟩, hd⟩

end Scene

theorem Machine.loading_solo : Machine.loading.Solo := by
  intro env files p s hs
  simp only [Machine.loading] at hs
  split at hs
  · rw [← Except.ok.inj hs]
  · simp at hs

def Visit.evaluateTwice : Fin 3 → Visit
  | 1 => .unload .small
  | _ => .evaluate .small .empty .parameterCount

theorem Scene.evaluateTwice_meets : ∃ S : Scene (Fin 3) Visit.Result,
    (visited Visit.evaluateTwice).Reaches .loading S ∧ ∃ a ∈ occupied (S.past 0),
      ∃ b ∈ occupied (S.past 2), a.path.same b.path = true := by
  obtain ⟨S, hS, h⟩ := exists_of_play (m := .loading) (S := visited Visit.evaluateTwice)
    [0, 0, 0, 0, 1, 2, 2, 2, 2]
    (fun S => (occupied (S.past 0)).any fun a => (occupied (S.past 2)).any (a.path.same ·.path))
    (by decide +kernel)
  obtain ⟨a, ha, h⟩ := List.any_eq_true.mp h
  obtain ⟨b, hb, h⟩ := List.any_eq_true.mp h
  exact ⟨S, hS, a, ha, b, hb, h⟩

/-- Callers may be in modules that were loaded from one file at the same time. -/
theorem Scene.visitors_meet : ¬∀ S : Scene (Fin 3) Visit.Result,
    (visited Visit.evaluateTwice).Reaches .loading S → ∀ a ∈ occupied (S.past 0),
      ∀ b ∈ occupied (S.past 2), a.path.same b.path = false := by
  intro hnone
  obtain ⟨S, hS, a, ha, b, hb, hsame⟩ := evaluateTwice_meets
  simp [hnone S hS a ha b hb] at hsame

theorem Scene.visitors_apart_small : ∃ S : Scene (Fin 3) Visit.Result,
    (visited Visit.evaluateTwice).Reaches .loading S ∧ ∃ a ∈ occupied (S.past 0),
      ∃ b ∈ occupied (S.past 2), a.number ≠ b.number ∧
        (Engine.small.Dropped S.taken a ∨ Engine.small.Dropped S.taken b) := by
  obtain ⟨S, hS, a, ha, b, hb, hsame⟩ := evaluateTwice_meets
  have happart := visitors_apart (visited_shares Visit.evaluateTwice) Machine.loading_solo
    (fun _ _ h => by simp [visited, World.unloaded, World.registry, Engine.small, Registry.empty,
      Registry.get?] at h) hS (by decide : (0 : Fin 3) ≠ 2) ha hb
  exact ⟨S, hS, a, ha, b, hb, happart.1, happart.2 hsame⟩

end CompiledModels
