import CompiledModels.Proofs.Visits
import CompiledModels.Proofs.Site

/-!
The table of loaded modules while many threads visit modules: what it holds was given out last, and
after the last drop.
-/

namespace CompiledModels

open Files Program

def Step.Admissible (e : Engine) (past : List Taken) : Step → Prop
  | .getOrLoad n key p =>
    n = e.registry ∧ ∃ id name, key = ModelIdentity.key id ∧ p = (e.cache.entryDirectory id).join name
  | .enter a => occupied past = [] ∧ ∃ key p, ⟨.getOrLoad e.registry key p, .ok a⟩ ∈ past
  | .leave a => occupied past = [a]
  | .invalidate n _ => n = e.registry
  | .newRegistry => False
  | _ => True

def Step.Passing (e : Engine) : Step → Prop
  | .invalidate n _ => n = e.registry
  | s => s.isOutside = true

section Tracing

variable {e : Engine} {s : Step} {past : List Taken} {x : Moment} {α : Type} {p : Program α}
  {post : α → Prop} {os : List LoadedModule}

theorem occupied_passing {r : s.Reply} (h : s.Passing e) :
    occupied (⟨s, r⟩ :: past) = occupied past := by
  cases s <;> first | rfl | simp [Step.Passing, Step.isOutside] at h

theorem admissible_of_passing (h : s.Passing e) : s.Admissible e past := by
  cases s <;> first | exact trivial | exact h | simp [Step.Passing, Step.isOutside] at h

theorem passing_of_prompt (s : Step) (h : s.isPrompt = true) : s.Passing e := by
  cases s <;> first | rfl | simp [Step.isPrompt] at h

abbrev Rules.visiting (e : Engine) : Rules := .traced (fun _ _ => True) (Step.Admissible e)

theorem Program.Only.visiting (h : p.Only (fun _ _ => True) (Step.Passing e) post)
    (hx : occupied x.past = os) :
    (Rules.visiting e).Safe (fun a y => post a ∧ occupied y.past = os) p x := by
  refine h.safe (J := fun y => occupied y.past = os) hx (Rules.traced_stable (occupied · = os))
    fun y s r w hy hs hr => ?_
  exact ⟨hr, ⟨_, rfl, admissible_of_passing hs⟩, (occupied_passing hs).trans hy⟩

def Engine.Got (e : Engine) (o : Option LoadedModule) (past : List Taken) : Prop :=
  ∀ a, o = some a → ∃ key p, ⟨.getOrLoad e.registry key p, .ok a⟩ ∈ past

theorem module_visiting {id : ModelIdentity} (hx : occupied x.past = []) :
    (Rules.visiting e).Safe (fun r y => occupied y.past = [] ∧ e.Got r.toOption y.past)
      (e.module id).run x := by
  have hpath : (e.cache.modulePath id).Only (fun _ _ => True) (Step.Passing e)
      fun r => ∀ p, r = some p → ∃ name, p = (e.cache.entryDirectory id).join name :=
    modulePath_only fun s hs => passing_of_prompt s hs.isPrompt
  refine .liftThen (hpath.visiting hx) fun o y hy => ?_
  cases o with
  | none =>
    exact .done ⟨hy.2, fun a ha => by simp [Except.toOption] at ha⟩
      (Rules.traced_stable fun past => occupied past = [] ∧ e.Got none past)
  | some p =>
    obtain ⟨name, rfl⟩ := hy.1 p rfl
    refine .of (Rules.traced_perform (s := .getOrLoad _ _ _) (Q := fun r past =>
      occupied past = [] ∧ e.Got r.toOption past) ⟨rfl, id, name, rfl, rfl⟩ fun r _ => ⟨hy.2, ?_⟩)
      (fun a z hz => hz) fun err z hz => ⟨hz.1, fun a ha => by simp [Except.toOption] at ha⟩
    intro a ha
    cases r with
    | error err => simp [Except.toOption] at ha
    | ok b =>
      obtain rfl : b = a := Option.some.inj ha
      exact ⟨_, _, List.mem_cons_self⟩

theorem call_visiting {a : LoadedModule} {data : ModelData} {r : Request}
    (hx : occupied x.past = [] ∧ ∃ key p, ⟨.getOrLoad e.registry key p, .ok a⟩ ∈ x.past) :
    (Rules.visiting e).Safe (fun _ y => occupied y.past = []) (Engine.call a data r) x := by
  have henter : (Rules.visiting e).Safe (fun _ y => occupied y.past = [a]) (perform (.enter a)) x :=
    Rules.traced_perform (Q := fun _ past => occupied past = [a]) hx fun _ _ => by
      simp [occupied, hx.1]
  have hask : (perform (.ask a data r)).Only (fun _ _ => True) (Step.Passing e)
      fun _ => True := .perform rfl fun _ _ => trivial
  have hstable : (Rules.visiting e).Stable fun y => occupied y.past = [] :=
    Rules.traced_stable (occupied · = [])
  refine henter.next fun _ y hy => (hask.visiting hy).next fun answer z hz => ?_
  have hleave : (Rules.visiting e).Safe (fun _ u => occupied u.past = []) (perform (.leave a)) z :=
    Rules.traced_perform (Q := fun _ past => occupied past = []) hz.2 fun _ _ => by
      simp [occupied, hz.2]
  exact hleave.next fun _ u hu => .done hu hstable

theorem evaluate_visiting {id : ModelIdentity} {data : ModelData} {r : Request}
    (hx : occupied x.past = []) :
    (Rules.visiting e).Safe (fun _ y => occupied y.past = []) (e.evaluate id data r).run x := by
  refine .ofThen (module_visiting hx) (fun a y hy => ?_) fun _ _ hy => hy.1
  exact .of (call_visiting ⟨hy.1, hy.2 a rfl⟩) (fun _ _ h => h) fun _ _ h => h

theorem delete_passing {id : ModelIdentity} : (e.delete id).run.Only (fun _ _ => True)
    (Step.Passing e) fun _ => True := by
  have hremove : (removeAll (e.cache.entryDirectory id)).Only (fun _ _ => True)
      (Step.Passing e) fun _ => True :=
    removeAll_only (N := fun _ => True) passing_of_prompt (fun _ _ _ _ _ _ _ => trivial)
      fun _ _ => ⟨rfl, rfl⟩
  refine .liftThen (Q := fun _ => True) ⟨rfl, fun _ _ => trivial⟩ fun _ _ => ?_
  refine .of (Q := fun _ => True) (.liftThen hremove fun r _ => ?_) (fun _ _ => trivial) fun _ _ => trivial
  cases r with
  | ok _ => trivial
  | error err =>
    simp only
    split <;> trivial

theorem visit_visiting (v : Visit) (hx : occupied x.past = []) :
    (Rules.visiting e).Safe (fun _ _ => True) (v.program e) x := by
  have hend {r : Visit.Result} {y : Moment} :
      (Rules.visiting e).Safe (fun _ _ => True) (Pure.pure r) y := .pure fun _ _ => trivial
  cases v with
  | evaluate id data r => exact (evaluate_visiting hx).next fun _ _ _ => hend
  | evaluateContained id data r =>
    have hcontain (a : Except EvalError r.Answer) : (Engine.contain a).Only (fun _ _ => True)
        (Step.Passing e) fun _ => True := by
      cases a with
      | ok a => trivial
      | error err => cases err <;> exact ⟨rfl, fun _ _ => trivial⟩
    have hboth : (Rules.visiting e).Safe (fun _ y => occupied y.past = [])
        (e.evaluateContained id data r) x :=
      (evaluate_visiting hx).next fun a y hy => ((hcontain a).visiting hy).weaken fun _ _ h => h.2
    exact hboth.next fun _ _ _ => hend
  | unload id =>
    have hunload : (e.unload id).Only (fun _ _ => True) (Step.Passing e) fun _ => True :=
      ⟨rfl, fun _ _ => trivial⟩
    exact (hunload.visiting hx).next fun _ _ _ => hend
  | delete id => exact (delete_passing.visiting hx).next fun _ _ _ => hend

end Tracing

namespace Taken

def Loads (n : Nat) (key : String) (a : LoadedModule) (t : Taken) : Prop :=
  ∃ p, t = ⟨.getOrLoad n key p, .ok a⟩

def Drops (n : Nat) (key : String) (a : LoadedModule) (t : Taken) : Prop :=
  t.step = .invalidate n key ∨ ∃ p b, t = ⟨.getOrLoad n key p, .ok b⟩ ∧ b.path.same a.path = false

end Taken

namespace Path

variable {p q r : Path}

theorem same_iff : p.same q = true ↔ p.components = q.components := by
  simp [same]

theorem same_join_entry {c : Cache} {id id' : ModelIdentity} {name name' : String}
    (h : ((c.entryDirectory id).join name).same ((c.entryDirectory id').join name') = true) :
    id = id' := by
  rw [same_iff] at h
  simp only [Cache.entryDirectory, Cache.modelsDirectory, join, components, List.map_append,
    List.map_cons, List.map_nil, List.append_assoc, List.append_cancel_left_eq, List.cons_append,
    List.nil_append, List.cons.injEq, Component.name.injEq, true_and] at h
  exact ModelIdentity.eq_of_name h.1

end Path

namespace World

variable {m : Machine} {w w' : World} {n k : Nat} {key : String} {p : Path}

theorem registry_setRegistry (h : n < w.registries.length) (r : Registry) :
    (w.setRegistry n r).registry k = if k = n then r else w.registry k := by
  simp only [registry, setRegistry]
  split
  case isTrue hk =>
    subst hk
    simp [h]
  case isFalse hk => rw [List.getElem?_set_ne (Ne.symm hk)]

theorem getOrLoad_exec {r : Except ModuleError LoadedModule} (hn : n < w.registries.length)
    (h : (Step.getOrLoad n key p).exec m w = some (r, w')) :
    (w'.busy = w.busy ∧ w'.registries.length = w.registries.length) ∧
    ((∃ a, (w.registry n).current? key p = some a ∧ r = .ok a ∧ ∀ k, w'.registry k = w.registry k) ∨
      ((w.registry n).current? key p = none ∧ ∃ s, m.load w.environment w.files p = .ok s ∧
        r = .ok ⟨w.nextNumber, p, s⟩ ∧ ∀ k, w'.registry k =
          if k = n then (w.registry n).insert key ⟨w.nextNumber, p, s⟩ else w.registry k) ∨
      ∃ err, r = .error err ∧ ∀ k, w'.registry k = w.registry k) := by
  have h : Step.loadInto m w n key p = (r, w') := Option.some.inj h
  unfold Step.loadInto Registry.getOrLoad at h
  cases hc : (w.registry n).current? key p with
  | some a =>
    simp only [hc, Option.isSome_some, if_true] at h
    obtain ⟨rfl, rfl⟩ := Prod.mk.inj h
    refine ⟨⟨rfl, by simp [setRegistry]⟩, .inl ⟨a, rfl, rfl, fun k => ?_⟩⟩
    rw [registry_setRegistry hn]
    split
    · rw [‹k = n›]
    · rfl
  | none =>
    cases hl : m.load w.environment w.files p with
    | error err =>
      simp only [hc, hl, Bind.bind, Except.bind] at h
      obtain ⟨rfl, rfl⟩ := Prod.mk.inj h
      exact ⟨⟨rfl, rfl⟩, .inr (.inr ⟨err, rfl, fun _ => rfl⟩)⟩
    | ok s =>
      simp only [hc, hl, Bind.bind, Except.bind, pure, Except.pure] at h
      obtain ⟨rfl, rfl⟩ := Prod.mk.inj h
      exact ⟨⟨rfl, by simp [setRegistry]⟩,
        .inr (.inl ⟨rfl, s, rfl, rfl, fun k => registry_setRegistry (w := { w with
          loads := w.loads + 1, nextNumber := w.nextNumber + 1 }) hn _⟩)⟩

theorem invalidate_exec {r : Bool} (hn : n < w.registries.length)
    (h : (Step.invalidate n key).exec m w = some (r, w')) :
    (w'.busy = w.busy ∧ w'.registries.length = w.registries.length) ∧
    r = ((w.registry n).get? key).isSome ∧
    ∀ k, w'.registry k = if k = n then (w.registry n).erase key else w.registry k := by
  obtain ⟨rfl, rfl⟩ := Prod.mk.inj (Option.some.inj h)
  exact ⟨⟨rfl, by simp [setRegistry]⟩, rfl, fun k => registry_setRegistry hn _⟩

theorem enter_exec {a : LoadedModule} {r : Unit} (h : (Step.enter a).exec m w = some (r, w')) :
    w'.registries = w.registries ∧ (a.services.reentrant = false →
      a.number ∉ w.busy ∧ w'.busy = a.number :: w.busy) := by
  simp only [Step.exec] at h
  split at h
  case isTrue hre =>
    obtain ⟨-, rfl⟩ := Prod.mk.inj (Option.some.inj h)
    exact ⟨rfl, fun hno => by simp [hno] at hre⟩
  case isFalse =>
    split at h
    case isTrue => simp at h
    case isFalse hb =>
      obtain ⟨-, rfl⟩ := Prod.mk.inj (Option.some.inj h)
      exact ⟨rfl, fun _ => ⟨hb, rfl⟩⟩

theorem leave_exec {a : LoadedModule} {r : Unit} (h : (Step.leave a).exec m w = some (r, w')) :
    w'.registries = w.registries ∧
      (a.services.reentrant = false → w'.busy = w.busy.filter (· ≠ a.number)) := by
  simp only [Step.exec] at h
  split at h
  case isTrue hre =>
    obtain ⟨-, rfl⟩ := Prod.mk.inj (Option.some.inj h)
    exact ⟨rfl, fun hno => by simp [hno] at hre⟩
  case isFalse =>
    obtain ⟨-, rfl⟩ := Prod.mk.inj (Option.some.inj h)
    exact ⟨rfl, fun _ => rfl⟩

end World

structure Engine.Tabled (e : Engine) (w : World) (taken : List Taken) : Prop where
  present : e.registry < w.registries.length
  loaded : ∀ key q a, ⟨.getOrLoad e.registry key q, .ok a⟩ ∈ taken → a.path.same q = true ∧
    ∃ id name, key = ModelIdentity.key id ∧ q = (e.cache.entryDirectory id).join name
  kept : ∀ later t earlier key a, taken = later ++ t :: earlier → t.Loads e.registry key a →
    (w.registry e.registry).get? key = some a ∨ ∃ u ∈ later, u.Drops e.registry key a
  held : ∀ later t earlier key a, taken = later ++ t :: earlier →
    t.step = .invalidate e.registry key → (w.registry e.registry).get? key = some a →
      ∃ u ∈ later, u.Loads e.registry key a

namespace Engine.Tabled

variable {e : Engine} {m : Machine} {w w' : World} {taken past : List Taken} {s : Step} {r : s.Reply}
  {t : Taken} {a b : LoadedModule}

theorem same (h : e.Tabled w taken) (hw : w'.registries = w.registries) : e.Tabled w' taken := by
  have hreg : w'.registry e.registry = w.registry e.registry := by
    rw [World.registry, hw, World.registry]
  exact ⟨hw ▸ h.present, h.loaded, hreg ▸ h.kept, hreg ▸ h.held⟩

theorem after (h : e.Tabled w taken) (hlen : w'.registries.length = w.registries.length)
    (hloaded : ∀ key q a, t = ⟨.getOrLoad e.registry key q, .ok a⟩ → a.path.same q = true ∧
      ∃ id name, key = ModelIdentity.key id ∧ q = (e.cache.entryDirectory id).join name)
    (hnew : ∀ key a, t.Loads e.registry key a → (w'.registry e.registry).get? key = some a)
    (hold : ∀ key a, (w.registry e.registry).get? key = some a →
      (w'.registry e.registry).get? key = some a ∨ t.Drops e.registry key a)
    (hfrom : ∀ key a, (w'.registry e.registry).get? key = some a →
      (w.registry e.registry).get? key = some a ∨ t.Loads e.registry key a)
    (hgone : ∀ key, t.step = .invalidate e.registry key → (w'.registry e.registry).get? key = none) :
    e.Tabled w' (t :: taken) := by
  refine ⟨hlen ▸ h.present, fun key q a hmem => ?_, fun later u earlier key a hh hu => ?_,
    fun later u earlier key a hh hu ha => ?_⟩
  · rcases List.mem_cons.mp hmem with heq | hmem
    · exact hloaded key q a heq.symm
    · exact h.loaded key q a hmem
  · cases later with
    | nil =>
      obtain ⟨rfl, -⟩ := List.cons.inj hh
      exact .inl (hnew key a hu)
    | cons v later =>
      obtain ⟨rfl, hrest⟩ := List.cons.inj hh
      rcases h.kept later u earlier key a hrest hu with hk | ⟨v, hv, hd⟩
      · exact (hold key a hk).imp_right fun hd => ⟨_, List.mem_cons_self, hd⟩
      · exact .inr ⟨v, List.mem_cons_of_mem _ hv, hd⟩
  · cases later with
    | nil =>
      obtain ⟨rfl, -⟩ := List.cons.inj hh
      simp [hgone key hu] at ha
    | cons v later =>
      obtain ⟨rfl, hrest⟩ := List.cons.inj hh
      rcases hfrom key a ha with hw | hl
      · obtain ⟨v, hv, hl⟩ := h.held later u earlier key a hrest hu hw
        exact ⟨v, List.mem_cons_of_mem _ hv, hl⟩
      · exact ⟨_, List.mem_cons_self, hl⟩

theorem pass (h : e.Tabled w taken) (hlen : w'.registries.length = w.registries.length)
    (hreg : w'.registry e.registry = w.registry e.registry)
    (ht : ∀ key p a, t ≠ ⟨.getOrLoad e.registry key p, .ok a⟩)
    (hno : ∀ key, t.step ≠ .invalidate e.registry key) : e.Tabled w' (t :: taken) :=
  h.after hlen (fun key q a hq => absurd hq (ht key q a)) (fun key a ⟨p, hp⟩ => absurd hp (ht key p a))
    (fun _ _ ha => .inl (hreg ▸ ha)) (fun _ _ ha => .inl (hreg ▸ ha)) fun key hk => absurd hk (hno key)

theorem invalidate (h : e.Tabled w taken) {key : String} {r : Bool}
    (hr : (Step.invalidate e.registry key).exec m w = some (r, w')) :
    e.Tabled w' (⟨.invalidate e.registry key, r⟩ :: taken) := by
  obtain ⟨⟨-, hlen⟩, -, hreg⟩ := World.invalidate_exec h.present hr
  have hreg := hreg e.registry
  rw [if_pos rfl] at hreg
  have hother (key' : String) (p : Path) (b : LoadedModule) :
      (⟨.invalidate e.registry key, r⟩ : Taken) ≠ ⟨.getOrLoad e.registry key' p, .ok b⟩ :=
    fun heq => Step.noConfusion (Taken.mk.inj heq).1
  refine h.after hlen (fun _ _ _ hq => absurd hq (hother _ _ _))
    (fun key' b hb => absurd hb.choose_spec (hother _ _ _)) (fun key' b hb => ?_) (fun key' b hb => ?_)
    fun key' hk => ?_
  · rw [hreg, Registry.get?_erase]
    split
    case isTrue hk => exact .inr (.inl (hk ▸ rfl))
    case isFalse => exact .inl hb
  · rw [hreg, Registry.get?_erase] at hb
    split at hb
    · simp at hb
    · exact .inl hb
  · obtain ⟨-, rfl⟩ := Step.invalidate.inj hk
    rw [hreg, Registry.get?_erase, if_pos rfl]

theorem getOrLoad (h : e.Tabled w taken) {id : ModelIdentity} {name : String}
    {r : Except ModuleError LoadedModule}
    (hr : (Step.getOrLoad e.registry id.key ((e.cache.entryDirectory id).join name)).exec m w =
      some (r, w')) :
    e.Tabled w' (⟨.getOrLoad e.registry id.key ((e.cache.entryDirectory id).join name), r⟩ ::
      taken) := by
  obtain ⟨⟨-, hlen⟩, hcase⟩ := World.getOrLoad_exec h.present hr
  have hdest : ∀ key p q r', (⟨.getOrLoad e.registry id.key q, r⟩ : Taken) =
      ⟨.getOrLoad e.registry key p, r'⟩ → key = id.key ∧ p = q ∧ r' = r := by
    rintro key p q r' heq
    obtain ⟨hs, hr⟩ := Taken.mk.inj heq
    obtain ⟨-, rfl, rfl⟩ := Step.getOrLoad.inj hs
    exact ⟨rfl, rfl, (eq_of_heq hr).symm⟩
  rcases hcase with ⟨a, hc, rfl, hreg⟩ | ⟨hc, s, hl, rfl, hreg⟩ | ⟨err, rfl, hreg⟩
  · obtain ⟨hget, hsame⟩ := Registry.current?_eq_some hc
    refine h.after hlen (fun key q b heq => ?_) (fun key b hb => ?_) (fun key b hb => .inl (hreg _ ▸ hb))
      (fun key b hb => .inl (hreg _ ▸ hb)) fun _ => Step.noConfusion
    · obtain ⟨rfl, rfl, hab⟩ := hdest _ _ _ _ heq
      obtain rfl := Except.ok.inj hab
      exact ⟨hsame, id, name, rfl, rfl⟩
    · obtain ⟨p, hp⟩ := hb
      obtain ⟨rfl, -, hab⟩ := hdest _ _ _ _ hp
      rw [hreg, Except.ok.inj hab]
      exact hget
  · have hreg := hreg e.registry
    rw [if_pos rfl] at hreg
    refine h.after hlen (fun key q b heq => ?_) (fun key b hb => ?_) (fun key b hb => ?_)
      (fun key b hb => ?_) fun _ => Step.noConfusion
    · obtain ⟨rfl, rfl, hab⟩ := hdest _ _ _ _ heq
      obtain rfl := Except.ok.inj hab
      exact ⟨Path.same_iff.mpr rfl, id, name, rfl, rfl⟩
    · obtain ⟨p, hp⟩ := hb
      obtain ⟨rfl, -, hab⟩ := hdest _ _ _ _ hp
      rw [hreg, Registry.get?_insert, if_pos rfl, Except.ok.inj hab]
    · rw [hreg, Registry.get?_insert]
      split
      case isFalse => exact .inl hb
      case isTrue hk =>
        -- What was there under the key was loaded from another path.
        subst hk
        refine .inr (.inr ⟨_, _, rfl, ?_⟩)
        have hnot : ¬b.path.same ((e.cache.entryDirectory id).join name) = true := fun hsame => by
          simp [Registry.current?, hb, hsame] at hc
        rw [Path.same_iff] at hnot
        simpa [Path.same] using Ne.symm hnot
    · rw [hreg, Registry.get?_insert] at hb
      split at hb
      case isFalse => exact .inl hb
      case isTrue hk => exact .inr ⟨_, by rw [hk, Option.some.inj hb]⟩
  · refine h.pass hlen (hreg _) (fun key p a heq => ?_) fun _ => Step.noConfusion
    obtain ⟨-, -, hab⟩ := hdest _ _ _ _ heq
    simp at hab

theorem step (h : e.Tabled w taken) (hs : s.Admissible e past) (hr : s.exec m w = some (r, w')) :
    e.Tabled w' (⟨s, r⟩ :: taken) := by
  have hpass (hw : w'.registries = w.registries) (hload : ∀ n key p, s ≠ .getOrLoad n key p)
      (hno : ∀ n key, s ≠ .invalidate n key) : e.Tabled w' (⟨s, r⟩ :: taken) :=
    h.pass (congrArg List.length hw) (by rw [World.registry, hw, World.registry])
      (fun _ _ _ heq => hload _ _ _ (Taken.mk.inj heq).1) fun _ => hno _ _
  by_cases hout : s.isOutside = true
  · refine hpass (World.exec_spares hout hr).registries ?_ ?_
    · rintro n key p rfl
      simp [Step.isOutside] at hout
    · rintro n key rfl
      simp [Step.isOutside] at hout
  cases s
  case getOrLoad n key p =>
    obtain ⟨rfl, id, name, rfl, rfl⟩ := hs
    exact h.getOrLoad hr
  case invalidate n key =>
    obtain rfl : n = e.registry := hs
    exact h.invalidate hr
  case enter a =>
    exact hpass (World.enter_exec hr).1 (fun _ _ _ => Step.noConfusion) fun _ _ => Step.noConfusion
  case leave a =>
    exact hpass (World.leave_exec hr).1 (fun _ _ _ => Step.noConfusion) fun _ _ => Step.noConfusion
  case newRegistry => exact hs.elim
  all_goals simp [Step.isOutside] at hout

end Engine.Tabled

namespace Scene

variable {ι : Type} [DecidableEq ι] {e : Engine} {m : Machine} {S S' : Scene ι Visit.Result}
  {visit : ι → Visit} {pid : Nat} {i : ι}

def taken (S : Scene ι Visit.Result) : List Taken := S.history.map (·.2)

theorem mem_taken {t : Taken} (h : t ∈ S.past i) : t ∈ S.taken := by
  obtain ⟨u, hu, rfl⟩ := List.mem_map.mp h
  exact List.mem_map_of_mem (List.mem_of_mem_filter hu)

structure Visiting (e : Engine) (pid : Nat) (S : Scene ι Visit.Result) : Prop where
  process : ∀ i, S.process i = pid
  tabled : e.Tabled (S.world pid) S.taken
  safe : ∀ i, (Rules.visiting e).Safe (fun _ _ => True) (S.program i) (S.moment i)

theorem Visiting.admissible (h : S.Visiting e pid) {s : Step} {next : s.Reply → Program Visit.Result}
    (hp : S.program i = .step s next) {r : s.Reply} {w : World} :
    s.Admissible e (S.past i) ∧ (Rules.visiting e).Safe (fun _ _ => True) (next r)
      ((S.moment i).after s r w) := by
  have hsafe := h.safe i
  rw [hp, Rules.Safe.step_iff] at hsafe
  obtain ⟨⟨t, hpast, hs⟩, hnext⟩ := hsafe _ rfl r w trivial
  obtain rfl := (List.cons.inj hpast).1
  exact ⟨hs, hnext⟩

theorem Visiting.moves (h : S.Visiting e pid) (hS : S.Moves m S') : S'.Visiting e pid := by
  cases hS with
  | @step i s next r w hi hp hr =>
    rw [h.process] at hr
    obtain ⟨hs, hnext⟩ := h.admissible hp (r := r) (w := w)
    have htabled : e.Tabled ((S.after i ⟨s, r⟩ (next r) w).world pid) (⟨s, r⟩ :: S.taken) := by
      rw [after_world_eq S _ _ w (h.process i)]
      exact h.tabled.step hs hr
    refine ⟨h.process, htabled, fun k => ?_⟩
    by_cases hk : k = i
    · subst hk
      rw [after_program_self, after_moment_self]
      exact hnext
    · rw [after_program_ne S _ _ w hk]
      exact (h.safe k).later (after_past_ne S _ _ w hk)
  | pass p t =>
    exact ⟨h.process, h.tabled.same (advanceTo_spares pid p t).registries, fun k => (h.safe k).later rfl⟩
  | crash p hl => exact ⟨h.process, h.tabled.same rfl, fun k => (h.safe k).later rfl⟩

/-- Callers in one process, about to visit the modules of one engine. -/
structure Shares (e : Engine) (visit : ι → Visit) (pid : Nat) (S : Scene ι Visit.Result) : Prop where
  opens : S.Opens fun i => (visit i).program e
  process : ∀ i, S.process i = pid
  registry : e.registry < (S.worlds pid).registries.length

theorem Shares.visiting (h : S.Shares e visit pid) (hr : S.Reaches m S') : S'.Visiting e pid := by
  induction hr with
  | refl =>
    have hpast (i : ι) : S.past i = [] := by simp [past, h.opens.history]
    have htaken : S.taken = [] := by simp [taken, h.opens.history]
    refine ⟨h.process, ⟨h.registry, ?_, ?_, ?_⟩, fun i => ?_⟩
    · simp [htaken]
    · simp [htaken]
    · simp [htaken]
    · rw [h.opens.program]
      exact visit_visiting (visit i) (by simp [hpast, occupied])
  | tail _ hm ih => exact ih.moves hm

/-- After a call that removes a model there is a module of it in the table only if a caller has
loaded it after the call had dropped the one before. -/
theorem left_loaded_after_drop (h : S.Shares e visit pid) (hr : S.Reaches m S') {id : ModelIdentity}
    (hi : visit i = .delete id) {result : Visit.Result} (hdone : S'.program i = .done result)
    {a : LoadedModule} (ha : ((S'.world pid).registry e.registry).get? id.key = some a) :
    ∃ later t earlier, S'.taken = later ++ t :: earlier ∧ t ∈ S'.past i ∧
      t.step = .invalidate e.registry id.key ∧ ∃ u ∈ later, u.Loads e.registry id.key a := by
  have hran := h.opens.ran hr i
  rw [hdone, hi] at hran
  obtain ⟨t, ht, hs⟩ := Program.Ran.first hran
  obtain ⟨later, earlier, htaken⟩ := List.append_of_mem (mem_taken ht)
  exact ⟨later, t, earlier, htaken, ht, hs, (h.visiting hr).tabled.held _ _ _ _ a htaken hs ha⟩

end Scene

def Machine.loading : Machine where
  start _ _ _ := .error (.os .noEntry)
  load env files p :=
    match files.read env.location p with
    | .ok _ => .ok ⟨false, fun _ _ => (.error (.raised ""), [])⟩
    | .error _ => .error (.libraryLoad "")

def Engine.small : Engine :=
  ⟨.withDirectory (Site.path ["c"]), ⟨Site.path ["c"]⟩, ⟨Site.path ["stanc"], .ofMillis 1000, none⟩,
    .ofConfig (.withDirectory (Site.path ["c"])), 0⟩

def World.unloaded : World :=
  { World.initial ⟨[(["c"], .directory), (["c", ModelIdentity.modelNamespace], .directory),
      (["c", ModelIdentity.modelNamespace, "m"], .directory),
      (["c", ModelIdentity.modelNamespace, "m", "stanbind_model_m_1.so"], .file 0 ⟨[1], 0⟩ true)], 1⟩
      ⟨[], Site.path [], none, 1⟩ 0 with registries := [.empty] }

def Scene.visited {ι : Type} (visit : ι → Visit) : Scene ι Visit.Result :=
  ⟨World.unloaded.files, [], fun _ => .unloaded, fun _ => 0, fun i => (visit i).program .small, [], []⟩

theorem Scene.visited_shares {ι : Type} (visit : ι → Visit) :
    (Scene.visited visit).Shares .small visit 0 :=
  ⟨⟨fun _ => rfl, rfl, rfl, rfl⟩, fun _ => rfl, Nat.zero_lt_one⟩

def Visit.evaluateAndDelete : Bool → Visit
  | false => .evaluate .small .empty .parameterCount
  | true => .delete .small

theorem Scene.evaluateAndDelete_ends : ∃ S : Scene Bool Visit.Result,
    (visited Visit.evaluateAndDelete).Reaches .loading S ∧
      (∃ r, S.program false = .done r) ∧ S.program true = .done (.deleted (.ok ())) ∧
      ∃ a, ((S.world 0).registry Engine.small.registry).get? ModelIdentity.small.key = some a := by
  obtain ⟨S, hS, h⟩ := exists_of_play (m := .loading) (S := visited Visit.evaluateAndDelete)
    [false, false, true, false, true, true, true, true, false, false, false]
    (fun S => (S.program false).ended?.isSome &&
      (S.program true).ended?.any Visit.Result.isDeleted &&
      (((S.world 0).registry Engine.small.registry).get? ModelIdentity.small.key).isSome)
    (by decide +kernel)
  simp only [Bool.and_eq_true] at h
  obtain ⟨⟨h₀, h₁⟩, h₂⟩ := h
  obtain ⟨r, hr⟩ := Option.isSome_iff_exists.mp h₀
  obtain ⟨r', hr', hdeleted⟩ := (Option.any_eq_true _ _).mp h₁
  rw [Program.ended?_eq_some] at hr hr'
  rw [Visit.Result.isDeleted_iff] at hdeleted
  exact ⟨S, hS, ⟨r, hr⟩, hdeleted ▸ hr', Option.isSome_iff_exists.mp h₂⟩

/-- That a model was removed and all is done does not mean that no module of it is left. -/
theorem Scene.module_left_behind : ¬∀ S : Scene Bool Visit.Result,
    (visited Visit.evaluateAndDelete).Reaches .loading S → (∃ r, S.program false = .done r) →
      S.program true = .done (.deleted (.ok ())) →
      ((S.world 0).registry Engine.small.registry).get? ModelIdentity.small.key = none := by
  intro hnone
  obtain ⟨S, hS, h₀, h₁, a, ha⟩ := evaluateAndDelete_ends
  simp [hnone S hS h₀ h₁] at ha

theorem Scene.left_loaded_after_drop_small : ∃ S : Scene Bool Visit.Result,
    (visited Visit.evaluateAndDelete).Reaches .loading S ∧
      ∃ a later t earlier, S.taken = later ++ t :: earlier ∧ t ∈ S.past true ∧
        t.step = .invalidate Engine.small.registry ModelIdentity.small.key ∧
        ∃ u ∈ later, u.Loads Engine.small.registry ModelIdentity.small.key a := by
  obtain ⟨S, hS, -, h₁, a, ha⟩ := evaluateAndDelete_ends
  exact ⟨S, hS, a, left_loaded_after_drop (visited_shares _) hS (i := true) rfl h₁ ha⟩

end CompiledModels
