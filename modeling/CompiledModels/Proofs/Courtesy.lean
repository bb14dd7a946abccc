import CompiledModels.Proofs.Behaviour
import CompiledModels.Proofs.Scene

/-!
How callers lock: the lock is taken before a build and given back after it.
-/

namespace CompiledModels

open Files
open Program (perform)

theorem Attempt.run_of_bind {α β ε ε' : Type} (p : Program (Except ε α)) (wrap : ε → ε')
    (f : α → Attempt ε' β) : (Attempt.of p wrap >>= f).run = p >>= fun
      | .ok a => (f a).run
      | .error e => pure (.error (wrap e)) := by
  simp only [Attempt.of, ExceptT.run_bind, ExceptT.run_mk, bind_assoc]
  refine bind_congr fun r => ?_
  cases r <;> rfl

namespace Engine

def approach (e : Engine) (id : ModelIdentity) (source : String) :
    Program (Except (Except Error Compiled) Nat) := do
  match ← e.cached id source with
  | some hit => return .error (.ok hit)
  | none =>
    match ← (e.cache.lock id).run with
    | .error err => return .error (.error (.cache err))
    | .ok file =>
      match ← e.cached id source with
      | some hit =>
        Cache.unlock file
        return .error (.ok hit)
      | none =>
        let _ ← perform (.invalidate e.registry id.key)
        match ← (e.cache.delete id).run with
        | .error err =>
          Cache.unlock file
          return .error (.error (.cache err))
        | .ok () => return .ok file

def conclude (id : ModelIdentity) (file : Nat) :
    Except Error CompiledEntry → Program (Except Error Compiled)
  | .error err => do
    Cache.unlock file
    return .error err
  | .ok entry => do
    perform (.emit (.ready id.key false))
    Cache.unlock file
    return .ok ⟨entry.buildOutput, entry.warnings, false⟩

theorem compile_eq (e : Engine) (id : ModelIdentity) (source : String) :
    (e.compile id source).run = e.approach id source >>= fun
      | .error r => pure r
      | .ok file =>
        (e.cache.compileModel id source e.translator e.builder).run >>= conclude id file := by
  have hlift {α : Type} (p : Program α) (f : α → Attempt Error Compiled) :
      ((liftM p : Attempt Error α) >>= f).run = p >>= fun a => (f a).run := by
    show (ExceptT.lift p >>= f).run = _
    simp [ExceptT.run_bind, ExceptT.lift]
  simp only [compile, approach, rebuild, hlift, bind_assoc]
  refine bind_congr fun o => ?_
  cases o with
  | some hit => rfl
  | none =>
    simp only [Attempt.run_of_bind, bind_assoc]
    refine bind_congr fun r => ?_
    cases r with
    | error err => rfl
    | ok file =>
      simp only [Attempt.andThen, ExceptT.run_mk, hlift, bind_assoc]
      refine bind_congr fun o => ?_
      cases o with
      | some hit => rfl
      | none =>
        simp only [hlift, Attempt.run_of_bind, bind_assoc]
        refine bind_congr fun _ => bind_congr fun r => ?_
        cases r with
        | error err => rfl
        | ok _ =>
          simp only [ExceptT.run_bind, bind_assoc, pure_bind]
          refine bind_congr fun r => ?_
          cases r <;> rfl

end Engine

def Rules.traced (ok : ∀ s : Step, s.Reply → Prop) (P : List Taken → Step → Prop) : Rules where
  act _ s r _ := ok s r
  rely x y := y.past = x.past
  keep x y := ∃ t, y.past = t :: x.past ∧ P x.past t.step
  refl _ := rfl
  trans h h' := Eq.trans h' h

theorem Rules.traced_stable {ok : ∀ s : Step, s.Reply → Prop} {P : List Taken → Step → Prop}
    (Q : List Taken → Prop) : (Rules.traced ok P).Stable fun y => Q y.past := fun y z hz hy => by
  have hz : z.past = y.past := hz
  simpa only [hz] using hy

theorem Rules.traced_perform {ok : ∀ s : Step, s.Reply → Prop} {P : List Taken → Step → Prop}
    {s : Step} {x : Moment} {Q : s.Reply → List Taken → Prop} (hs : P x.past s)
    (hq : ∀ r, ok s r → Q r (⟨s, r⟩ :: x.past)) :
    (Rules.traced ok P).Safe (fun r y => Q r y.past) (perform s) x := by
  apply Rules.Safe.perform
  intro y hy r w hr
  have hy : y.past = x.past := hy
  refine ⟨⟨_, rfl, hy ▸ hs⟩, fun z hz => ?_⟩
  have hz : z.past = ⟨s, r⟩ :: y.past := hz
  simpa only [hz, hy] using hq r hr

theorem Rules.Safe.recalls {α : Type} {R : Rules} (hR : ∀ x y, R.rely x y → y.past = x.past) {p : Program α}
    {post : α → Moment → Prop} {x : Moment} {t : Taken} (ht : t ∈ x.past) (h : R.Safe post p x) :
    R.Safe (fun a y => t ∈ y.past ∧ post a y) p x := by
  induction p generalizing x with
  | done a => exact done_iff.2 fun y hy => ⟨hR x y hy ▸ ht, done_iff.1 h y hy⟩
  | step s next ih =>
    rw [step_iff] at h ⊢
    intro y hy r w hr
    obtain ⟨hkeep, hn⟩ := h y hy r w hr
    exact ⟨hkeep, ih r (List.mem_cons_of_mem _ (hR x y hy ▸ ht)) hn⟩

theorem Rules.Safe.ran {α : Type} {ok : ∀ s : Step, s.Reply → Prop} {P : List Taken → Step → Prop}
    {p q : Program α} {post : α → Moment → Prop} {w : World} {past past' : List Taken}
    (h : (Rules.traced ok P).Safe post p ⟨w, past⟩) (hr : p.Ran past' q)
    (hok : ∀ t ∈ past', ok t.step t.reply) : (Rules.traced ok P).Safe post q ⟨w, past' ++ past⟩ := by
  induction hr with
  | refl => exact h
  | @step past' s next _ r ih =>
    have hs := ih fun t ht => hok t (by simp [ht])
    exact (step_iff.1 hs _ rfl r w (hok ⟨s, r⟩ (by simp))).2

def Step.Courteous (E : Estate) (env : Environment) (tools : Invocation → Prop)
    (ids : ModelIdentity → Prop) (past : List Taken) : Step → Prop
  | .openLockFile p => ∃ id, ids id ∧ E.Spells env.location p (E.lock id)
  | .acquire n => held past = [] ∧ ∃ id p, ids id ∧ E.Spells env.location p (E.lock id) ∧
      ⟨.openLockFile p, .ok n⟩ ∈ past
  | .release n => n ∈ held past
  | .invalidate .. | .getOrLoad .. | .enter _ | .leave _ => True
  | s => s.Obeys E env tools

variable {E : Estate} {env : Environment} {tools : Invocation → Prop} {ids : ModelIdentity → Prop}
  {e : Engine} {id : ModelIdentity} {x : Moment} {past : List Taken} {s : Step} {ns : List Nat}
  {α : Type} {p : Program α} {source : String}

theorem courteous_of_obeys (h : s.Obeys E env tools) : s.Courteous E env tools ids past := by
  cases s <;> first | exact h | exact h.elim

theorem obeys_of_courteous (h : s.Courteous E env tools ids past) (ho : ∀ p, s ≠ .openLockFile p)
    (ha : ∀ n, s ≠ .acquire n) (hr : ∀ n, s ≠ .release n) (hi : s.isOutside = true) :
    s.Obeys E env tools := by
  cases s with
  | openLockFile p => exact absurd rfl (ho p)
  | acquire n => exact absurd rfl (ha n)
  | release n => exact absurd rfl (hr n)
  | invalidate | getOrLoad | enter | leave => simp [Step.isOutside] at hi
  | _ => exact h

theorem held_of_obeys {r : s.Reply} (h : s.Obeys E env tools) : held (⟨s, r⟩ :: past) = held past := by
  cases s <;> first | rfl | exact h.elim

def lockOf {ε : Type} : Except ε Nat → List Nat
  | .ok file => [file]
  | .error _ => []

abbrev Rules.courteous (E : Estate) (env : Environment) (tools : Invocation → Prop)
    (ids : ModelIdentity → Prop) : Rules :=
  .traced (Step.Credible env) (Step.Courteous E env tools ids)

theorem Program.Only.courteous {post : α → Prop} (h : Behaves E env tools post p)
    (hx : held x.past = ns) :
    (Rules.courteous E env tools ids).Safe (fun a y => post a ∧ held y.past = ns) p x := by
  refine h.safe (J := fun y => held y.past = ns) hx (Rules.traced_stable (held · = ns))
    fun y s r w hy hs hr => ?_
  exact ⟨hr, ⟨_, rfl, courteous_of_obeys hs⟩, (held_of_obeys hs).trans hy⟩

theorem Cache.lockFile_eq (c : Cache) (id : ModelIdentity) :
    c.lockFile id = c.root.joins [".locks", id.name ++ ".lock"] := by
  simp [lockFile, locksDirectory, Path.join, Path.joins]

theorem cached_courteous (hx : held x.past = ns) :
    (Rules.courteous E env tools ids).Safe (fun _ y => held y.past = ns) (e.cached id source) x :=
  ((cached_only fun s hs => obeys_prompt s hs.isPrompt).courteous hx).weaken fun _ _ h => h.2

theorem invalidate_courteous {n : Nat} {key : String} (hx : held x.past = ns) :
    (Rules.courteous E env tools ids).Safe (fun _ y => held y.past = ns) (perform (.invalidate n key)) x :=
  Rules.traced_perform (Q := fun _ past => held past = ns) trivial fun _ _ => hx

theorem unlock_courteous {file : Nat} (hx : held x.past = [file]) :
    (Rules.courteous E env tools ids).Safe (fun _ y => held y.past = []) (Cache.unlock file) x :=
  Rules.traced_perform (s := .release file) (Q := fun _ past => held past = []) (by simp [Step.Courteous, hx])
    fun _ _ => by simp [held, hx]

variable (hE : e.Settled E env)
include hE

theorem spells_lock : E.Spells env.location (e.cache.lockFile id) (E.lock id) := by
  rw [Cache.lockFile_eq]
  exact .cache hE.serves.leads (by simp) (List.forall_mem_cons.mpr ⟨by decide,
    List.forall_mem_singleton.mpr (id.plain_append ".lock")⟩)

theorem lock_courteous (hid : ids id) (hx : held x.past = []) :
    (Rules.courteous E env tools ids).Safe (fun r y => held y.past = lockOf r) (e.cache.lock id).run x := by
  refine .ofThen ((createAll_behaves hE.serves (by decide)).courteous hx) (fun _ y hy => ?_)
    fun _ _ h => h.2
  refine .ofThen (Rules.traced_perform (s := .openLockFile _) (Q := fun r past =>
    held past = [] ∧ ∀ n, r = .ok n →
    ⟨.openLockFile (e.cache.lockFile id), .ok n⟩ ∈ past) ⟨id, hid, spells_lock hE⟩ fun r _ => ?_)
    (fun n z hz => ?_) fun _ _ h => h.1
  · refine ⟨hy.2, ?_⟩
    rintro n rfl
    exact List.mem_cons_self
  · refine .ofThen (Rules.traced_perform (s := .acquire n) (Q := fun r past =>
      r = .ok () ∧ held past = [n])
      ⟨hz.1, id, _, hid, spells_lock hE, hz.2 n rfl⟩ fun r hr => ⟨hr, ?_⟩) (fun _ u hu => ?_)
      fun _ _ h => by simp at h
    · simp [held, hz.1]
    · exact .done hu.2 (Rules.traced_stable (held · = [n]))

theorem approach_courteous (hid : ids id) (hx : held x.past = []) :
    (Rules.courteous E env tools ids).Safe (fun r y => held y.past = lockOf r)
      (e.approach id source) x := by
  have hnone {r : Except Error Compiled} {y : Moment} (hy : held y.past = []) :
      (Rules.courteous E env tools ids).Safe (fun r y => held y.past = lockOf r)
        (Pure.pure (.error r)) y :=
    .done hy (Rules.traced_stable (held · = []))
  refine (cached_courteous hx).next fun o y hy => ?_
  cases o with
  | some hit => exact hnone hy
  | none =>
    refine (lock_courteous hE hid hy).next fun r z hz => ?_
    cases r with
    | error err => exact hnone hz
    | ok file =>
      refine (cached_courteous hz).next fun o u hu => ?_
      cases o with
      | some hit => exact (unlock_courteous hu).next fun _ _ h => hnone h
      | none =>
        refine (invalidate_courteous hu).next fun _ v hv => ?_
        refine ((delete_behaves hE.serves).courteous hv).next fun r o ho => ?_
        cases r with
        | error err => exact (unlock_courteous ho.2).next fun _ _ h => hnone h
        | ok _ => exact .done ho.2 (Rules.traced_stable (held · = [file]))

theorem compileModel_courteous (htools : ∀ i, e.Starts env i → tools i) (hx : held x.past = ns) :
    (Rules.courteous E env tools ids).Safe (fun _ y => held y.past = ns)
      (e.cache.compileModel id source e.translator e.builder).run x :=
  ((compileModel_behaves hE htools).courteous hx).weaken fun _ _ h => h.2

omit hE in
theorem conclude_courteous {file : Nat} (r : Except Error CompiledEntry) (hx : held x.past = [file]) :
    (Rules.courteous E env tools ids).Safe (fun _ y => held y.past = []) (Engine.conclude id file r) x := by
  have hdone {r : Except Error Compiled} {y : Moment} (hy : held y.past = []) :
      (Rules.courteous E env tools ids).Safe (fun _ y => held y.past = []) (Pure.pure r) y :=
    .done hy (Rules.traced_stable (held · = []))
  cases r with
  | error err => exact (unlock_courteous hx).next fun _ _ h => hdone h
  | ok entry =>
    refine ((quiet_only obeys_quiet rfl).courteous hx).next fun _ y hy => ?_
    exact (unlock_courteous hy.2).next fun _ _ h => hdone h

theorem compile_courteous (htools : ∀ i, e.Starts env i → tools i) (hid : ids id)
    (hx : held x.past = []) : (Rules.courteous E env tools ids).Safe (fun _ y => held y.past = [])
      (e.compile id source).run x := by
  rw [Engine.compile_eq]
  refine (approach_courteous hE hid hx).next fun r y hy => ?_
  cases r with
  | error r => exact .done hy (Rules.traced_stable (held · = []))
  | ok file => exact (compileModel_courteous hE htools hy).next fun r z hz => conclude_courteous r hz

end CompiledModels
