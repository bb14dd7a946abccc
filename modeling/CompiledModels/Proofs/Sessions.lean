import CompiledModels.Proofs.Compiling
import CompiledModels.Proofs.Containment

/-!
Calls of engines that share a cache, one after the other, while programs that were started run on:
what each call does to the entries.
-/

namespace CompiledModels

open Files Program

variable {α : Type} {m : Machine} {E : Estate} {env : Environment} {e : Engine} {c : Cache}
  {tools : Invocation → Prop} {id other : ModelIdentity} {source : String} {w w' w'' : World} {x y : Moment}

def Step.isVisit : Step → Bool
  | .stat .. | .list _ | .read _ | .getOrLoad .. | .invalidate .. | .enter _ | .ask .. | .leave _
  | .emit _ => true
  | _ => false

structure World.Beside (w w' : World) : Prop where
  files : w'.files = w.files
  environment : w'.environment = w.environment
  children : w'.children = w.children
  locked : w'.locked = w.locked

theorem World.Beside.trans (h : w.Beside w') (h' : w'.Beside w'') : w.Beside w'' :=
  ⟨h'.files.trans h.files, h'.environment.trans h.environment, h'.children.trans h.children,
    h'.locked.trans h.locked⟩

theorem Step.exec_isVisit {s : Step} {r : s.Reply} (hs : s.isVisit = true)
    (h : s.exec m w = some (r, w')) : w.Beside w' := by
  have hsame {α : Type} {a b : α} {w₁ : World} (h : some (a, w₁) = some (b, w')) (hw : w.Beside w₁) :
      w.Beside w' := (Prod.mk.inj (Option.some.inj h)).2 ▸ hw
  cases s with
  | getOrLoad n key p =>
    simp only [exec, loadInto] at h
    split at h
    · refine hsame h ?_
      split <;> exact ⟨rfl, rfl, rfl, rfl⟩
    · refine hsame h ?_
      split <;> exact ⟨rfl, rfl, rfl, rfl⟩
  | enter a =>
    simp only [exec] at h
    split at h
    · exact hsame h ⟨rfl, rfl, rfl, rfl⟩
    · split at h
      · simp at h
      · exact hsame h ⟨rfl, rfl, rfl, rfl⟩
  | leave a =>
    simp only [exec] at h
    split at h <;> exact hsame h ⟨rfl, rfl, rfl, rfl⟩
  | stat | list | read | invalidate | ask | emit => exact hsame h ⟨rfl, rfl, rfl, rfl⟩
  | _ => simp [isVisit] at hs

theorem Program.Only.beside {p : Program α} {post : α → Prop} {a : α}
    (hp : p.Only (fun _ _ => True) (·.isVisit = true) post) (h : p.run m w = some (a, w')) :
    w.Beside w' := by
  induction p generalizing w with
  | done b =>
    obtain ⟨-, rfl⟩ := Prod.mk.inj (Option.some.inj h)
    exact ⟨rfl, rfl, rfl, rfl⟩
  | step s next ih =>
    rw [Program.run] at h
    split at h
    · simp at h
    · rename_i r w₁ hr
      exact (Step.exec_isVisit hp.1 hr).trans (ih r (hp.2 r trivial) h)

theorem evaluate_visits {data : ModelData} {r : Request} : (e.evaluate id data r).run.Only
    (fun _ _ => True) (·.isVisit = true) fun _ => True := by
  have hlook (s : Step) (hs : s.LooksAt e.cache id) : s.isVisit = true := by
    cases s <;> first | rfl | exact hs.elim
  have hmodule : (e.module id).run.Only (fun _ _ => True) (·.isVisit = true) fun _ => True := by
    refine .liftThen (modulePath_only hlook) fun o _ => ?_
    cases o with
    | none => trivial
    | some p => exact .of (Q := fun _ => True) ⟨rfl, fun _ _ => trivial⟩ (fun _ _ => trivial) fun _ _ => trivial
  refine .ofThen (Q := fun _ => True) hmodule (fun a _ => ?_) fun _ _ => trivial
  exact .of (Q := fun _ => True) ⟨rfl, fun _ _ => ⟨rfl, fun _ _ => ⟨rfl, fun _ _ => trivial⟩⟩⟩ (fun _ _ => trivial)
    fun _ _ => trivial

def Visit.keeps : Visit → Bool
  | .delete _ => false
  | _ => true

theorem visit_visits {v : Visit} (hv : v.keeps = true) : (v.program e).Only (fun _ _ => True)
    (·.isVisit = true) fun _ => True := by
  cases v with
  | evaluate id data r => exact evaluate_visits.next fun _ _ => trivial
  | evaluateContained id data r =>
    have hcontained : (e.evaluateContained id data r).Only (fun _ _ => True) (·.isVisit = true)
        fun _ => True := evaluate_visits.next fun a _ => by
      cases a with
      | ok a => trivial
      | error err => cases err <;> exact ⟨rfl, fun _ _ => trivial⟩
    exact hcontained.next fun _ _ => trivial
  | unload id => exact ⟨rfl, fun _ _ => trivial⟩
  | delete id => simp [Visit.keeps] at hv

theorem Estate.Calm.beside (hw : E.Calm w) (h : w.Beside w') : E.Calm w' :=
  ⟨h.files ▸ hw.sound, h.children ▸ hw.tame⟩

theorem World.Hit.reached {diagnostics warnings : String} (h : w.Hit c id diagnostics warnings)
    (hS : E.cache.Serves w.environment c.root) (hw : E.Calm w) : Reached E.cache c id w := by
  obtain ⟨name, hname, -⟩ := h.module
  exact .of_mem_names hS.leads hw.sound.cache
    (fun rest => hw.sound.clean _ (.inl (List.prefix_append _ _))) hname

theorem World.Hit.kept {diagnostics warnings : String} (h : w.Hit c id diagnostics warnings)
    (hS : E.cache.Serves w.environment c.root) (hw : E.Calm w) (hw' : E.Calm w')
    (he : w'.environment = w.environment) (hs : w.files.Same w'.files (E.cache.entry id)) :
    w'.Hit c id diagnostics warnings := by
  have hr := h.reached hS hw
  exact h.same hr (hr.same hs hw'.sound.cache he) hs

theorem compile_hit {diagnostics warnings : String} (h : w.Hit e.cache id diagnostics warnings)
    (source : String) : ∃ events, (e.compile id source).run.run m w =
      some (.ok ⟨diagnostics, warnings, true⟩, w.noting events) := by
  obtain ⟨o, ⟨events, hrun⟩, ho⟩ := e.cached_notes (m := m) id source w
  obtain rfl := (ho ⟨diagnostics, warnings, true⟩).mpr ⟨h, rfl⟩
  obtain ⟨taken, hends⟩ := Program.Steps.of_run hrun []
  have hcompile : (e.compile id source).run.Ends (Step.answers m) ⟨w, []⟩
      (.ok ⟨diagnostics, warnings, true⟩) ⟨w.noting events, taken ++ []⟩ :=
    Ends.liftThen_iff.mpr ⟨_, _, hends, Ends.return_iff.mpr ⟨rfl, rfl⟩⟩
  exact ⟨events, Program.Steps.run_of hcompile⟩

theorem cached_hit {hit : Compiled}
    (h : (e.cached id source).Ends (Step.answers m) x (some hit) y) :
    x.world.Hit e.cache id hit.diagnostics hit.warnings := by
  obtain ⟨o, ⟨events, hrun⟩, ho⟩ := e.cached_notes (m := m) id source x.world
  obtain ⟨rfl, -⟩ := Prod.mk.inj (Option.some.inj (hrun.symm.trans (Program.Steps.run_of h)))
  exact ((ho hit).mp rfl).1

structure Engine.Deletes (e : Engine) (E : Estate) (id : ModelIdentity) (x : Moment) (r : Except Error Unit)
    (y : Moment) : Prop where
  alters : Alters (E.cache.entry id <+: ·) x y
  calm : E.Calm y.world
  registries : y.world.registries = (x.world.dropping e.registry id.key).registries
  busy : y.world.busy = x.world.busy
  fewer : ∀ l, y.files.get? l = x.files.get? l ∨ y.files.get? l = none
  gone : r = .ok () → y.files.Bare (E.cache.entry id)

theorem Engine.delete_deletes {act : Answers} (hact : ∀ w s r w', act w s r w' → Step.flawed m w s r w')
    (hm : E.Orderly m tools) (hS : E.cache.Serves x.world.environment e.cache.root) (hx : E.Calm x.world)
    {r : Except Error Unit} (h : (e.delete id).run.Ends act x r y) : e.Deletes E id x r y := by
  obtain ⟨b, z, hz, h⟩ := Ends.liftThen_iff.mp h
  obtain ⟨r', hr, rfl⟩ := Ends.of_iff.mp h
  obtain ⟨hw, halters⟩ := invalidate_ends hact hz
  have hfiles : z.files = x.files := by rw [Moment.files, hw]; rfl
  have hcalm : E.Calm z.world := hw ▸ ⟨hx.sound, hx.tame⟩
  obtain ⟨ha, hc, ⟨files, seed, events, hy⟩, hfewer, hgone⟩ := delete_ends hact hm hS hr hcalm halters.environment
  refine ⟨(halters.mono fun _ => False.elim).trans ha, hc, by rw [hy, hw], by rw [hy, hw]; rfl, fun l => ?_, fun hok => ?_⟩
  · rw [← hfiles]
    exact hfewer l
  · cases r' with
    | ok _ => exact (hgone rfl).1
    | error err => cases hok

/-- How the world goes on while the entry of `id` stays: by calls of engines that share the cache,
one after the other, and by what runs on between them. -/
inductive Goes (m : Machine) (E : Estate) (c : Cache) (id : ModelIdentity) (env : Environment) (w : World) :
    World → Prop
  | refl : Goes m E c id env w w
  | elapse {w₁ w₂ : World} (h : Goes m E c id env w w₁) (ht : E.Drifts w₁ w₂) : Goes m E c id env w w₂
  | compile {w₁ w₂ : World} {e : Engine} {other : ModelIdentity} {source : String}
      {r : Except Error Compiled} {tools : Invocation → Prop} (h : Goes m E c id env w w₁)
      (he : e.Settled E env) (hc : e.cache = c) (htools : ∀ i, e.Starts env i → tools i)
      (hm : E.Orderly m tools) (hr : (e.compile other source).run.run m w₁ = some (r, w₂)) :
      Goes m E c id env w w₂
  | delete {w₁ w₂ : World} {e : Engine} {other : ModelIdentity} {r : Except Error Unit}
      {tools : Invocation → Prop} (h : Goes m E c id env w w₁) (he : e.Settled E env) (ho : other ≠ id)
      (hm : E.Orderly m tools) (hr : (e.delete other).run.run m w₁ = some (r, w₂)) : Goes m E c id env w w₂
  | visit {w₁ w₂ : World} {e : Engine} {v : Visit} {r : Visit.Result} (h : Goes m E c id env w w₁)
      (hv : v.keeps = true) (hr : (v.program e).run m w₁ = some (r, w₂)) : Goes m E c id env w w₂

theorem Goes.hit {diagnostics warnings : String} (hS : E.cache.Serves env c.root) (hw : E.Calm w)
    (he : w.environment = env) (hit : w.Hit c id diagnostics warnings) (h : Goes m E c id env w w') :
    (E.Calm w' ∧ w'.environment = env) ∧ w'.Hit c id diagnostics warnings := by
  have hkept {w₁ w₂ : World} (ih : (E.Calm w₁ ∧ w₁.environment = env) ∧ w₁.Hit c id diagnostics warnings)
      (hc : E.Calm w₂) (henv : w₂.environment = w₁.environment)
      (hs : w₁.files.Same w₂.files (E.cache.entry id)) :
      (E.Calm w₂ ∧ w₂.environment = env) ∧ w₂.Hit c id diagnostics warnings := by
    obtain ⟨⟨hcalm, he₁⟩, hit⟩ := ih
    exact ⟨⟨hc, henv.trans he₁⟩, hit.kept (he₁ ▸ hS) hcalm hc henv hs⟩
  induction h with
  | refl => exact ⟨⟨hw, he⟩, hit⟩
  | elapse _ ht ih =>
    exact hkept ih (ht.calm ih.1.1) ht.environment fun rest => ht.files.kept _ (E.still_entry id rest).1
  | @compile _ _ e other source r tools _ hE hc htools hm hr ih =>
    subst hc
    by_cases ho : other = id
    · subst ho
      obtain ⟨events, hrun⟩ := compile_hit (m := m) ih.2 source
      obtain ⟨-, rfl⟩ := Prod.mk.inj (Option.some.inj (hrun.symm.trans hr))
      exact hkept ih ⟨ih.1.1.sound, ih.1.1.tame⟩ rfl fun _ => rfl
    · obtain ⟨taken, hends⟩ := Program.Steps.of_run hr []
      have houtcome := compile_outcome (fun _ _ _ _ => Step.flawed_of_answers) hm hE htools ih.1.2 ih.1.1
        (by simp [Arrived]) hends
      obtain ⟨hcalm, henv, hsame⟩ := houtcome.others ih.1.1
      exact hkept ih hcalm henv (hsame id (Ne.symm ho))
  | @delete _ _ e other r tools _ hE ho hm hr ih =>
    obtain ⟨taken, hends⟩ := Program.Steps.of_run hr []
    have hd := Engine.delete_deletes (fun _ _ _ _ => Step.flawed_of_answers) hm (ih.1.2 ▸ hE.serves) ih.1.1 hends
    exact hkept ih hd.calm hd.alters.environment fun rest => hd.alters.files _ (E.cache.entry_apart (Ne.symm ho) rest)
  | visit _ hv hr ih =>
    have hb := (visit_visits hv).beside hr
    exact hkept ih (ih.1.1.beside hb) hb.environment fun rest => by rw [hb.files]

end CompiledModels
