import CompiledModels.Proofs.Upkeep
import CompiledModels.Proofs.Lookups

/-!
Calls of many threads, in several processes, that compile, remove, drop and evaluate models of one
cache: the modules stay files, each entry has one at most, and only who publishes brings one.
-/

namespace CompiledModels

open Files Program
open Estate (Alike)

/-- A call of a thread on an engine. -/
inductive Errand
  | compile (e : Engine) (id : ModelIdentity) (source : String)
  | visit (e : Engine) (v : Visit)

namespace Errand

inductive Result
  | compiled (r : Except Error Compiled)
  | visited (r : Visit.Result)

def engine : Errand → Engine
  | compile e _ _ | visit e _ => e

def identity : Errand → ModelIdentity
  | compile _ id _ => id
  | visit _ v => v.identity

def Locks : Errand → ModelIdentity → Prop
  | compile _ id _, other => other = id
  | visit .., _ => False

def program : Errand → Program Result
  | compile e id source => do return .compiled (← (e.compile id source).run)
  | visit e v => do return .visited (← v.program e)

abbrev Trail (E : Estate) (env : Environment) (x : Errand) : List Taken → Draft → Prop :=
  Draft.Trail E x.engine.cache env (x.engine.Starts env) x.identity

end Errand

section Programs

variable {E : Estate} {env : Environment} {tools : Invocation → Prop} {e : Engine} {v : Visit} {x : Errand}
  {ids : ModelIdentity → Prop} {ns : List Nat} {α : Type} {p : Program α} {post : α → Prop} {y : Moment}

theorem Program.Only.believing {ok : ∀ s : Step, s.Reply → Prop} {P : Step → Prop}
    (h : p.Only (fun _ _ => True) P post) : p.Only ok P post := by
  induction p with
  | done a => exact h
  | step s next ih => exact ⟨h.1, fun r _ => ih r (h.2 r trivial)⟩

theorem compile_only {id : ModelIdentity} {source : String} {P : Step → Prop} (hE : e.Settled E env)
    (ho : ∀ s : Step, s.Obeys E env (e.Starts env) → P s) (hopen : ∀ p, P (.openLockFile p))
    (hacquire : ∀ n, P (.acquire n)) (hrelease : ∀ n, P (.release n)) (hdrop : ∀ n key, P (.invalidate n key)) :
    (e.compile id source).run.Only (Step.Credible env) P fun _ => True := by
  have hperform {s : Step} (hs : P s) : (perform s).Only (Step.Credible env) P fun _ => True :=
    .perform hs fun _ _ => trivial
  have hunlock {β : Type} {file : Nat} {a : β} : (Cache.unlock file >>= fun _ => Pure.pure a).Only
      (Step.Credible env) P fun _ => True := (hperform (hrelease file)).next fun _ _ => trivial
  have hcached : (e.cached id source).Only (Step.Credible env) P fun _ => True :=
    cached_only fun s hs => ho s (obeys_prompt s hs.isPrompt)
  have hlock : (e.cache.lock id).run.Only (Step.Credible env) P fun _ => True := by
    refine .ofThen ((createAll_behaves hE.serves (by decide)).mono ho) (fun _ _ => ?_) fun _ _ => trivial
    refine .ofThen (hperform (hopen _)) (fun _ _ => ?_) fun _ _ => trivial
    exact .ofThen (hperform (hacquire _)) (fun _ _ => trivial) fun _ _ => trivial
  have hdelete : (e.cache.delete id).run.Only (Step.Credible env) P fun _ => True :=
    (delete_behaves hE.serves).mono ho
  have hbuild : (e.cache.compileModel id source e.translator e.builder).run.Only (Step.Credible env) P
      fun _ => True := (compileModel_behaves hE fun _ h => h).mono ho
  rw [Engine.compile_eq]
  unfold Engine.approach
  generalize (e.cache.compileModel id source e.translator e.builder).run = build at hbuild
  generalize e.cached id source = cached at hcached
  generalize (e.cache.lock id).run = lock at hlock
  generalize (e.cache.delete id).run = delete at hdelete
  refine .next (Q := fun _ => True) (hcached.next fun o _ => ?_) fun r _ => ?_
  · cases o with
    | some hit => trivial
    | none =>
      refine hlock.next fun r _ => ?_
      cases r with
      | error err => trivial
      | ok file =>
        refine hcached.next fun o _ => ?_
        cases o with
        | some hit => exact hunlock
        | none =>
          refine (hperform (hdrop _ _)).next fun _ _ => hdelete.next fun r _ => ?_
          cases r with
          | error err => exact hunlock
          | ok _ => trivial
  · cases r with
    | error r => trivial
    | ok file =>
      refine hbuild.next fun r _ => ?_
      cases r with
      | error err => exact hunlock
      | ok entry => exact (hperform (ho (.emit _) trivial)).next fun _ _ => hunlock

theorem visit_only {P : Step → Prop} (hv : ∀ s : Step, s.isVisit = true → P s)
    (hd : ∀ id, (e.cache.delete id).run.Only (Step.Credible env) P fun _ => True) :
    (v.program e).Only (Step.Credible env) P fun _ => True := by
  by_cases hk : v.keeps = true
  · exact ((visit_visits hk).mono hv).believing
  · cases v with
    | delete id =>
      have hdelete : (e.delete id).run.Only (Step.Credible env) P fun _ => True :=
        .liftThen (Q := fun _ => True) ⟨hv _ rfl, fun _ _ => trivial⟩ fun _ _ =>
          .of (hd id) (fun _ _ => trivial) fun _ _ => trivial
      exact hdelete.next fun _ _ => trivial
    | _ => simp [Visit.keeps] at hk

theorem visit_idles (hS : E.cache.Serves env e.cache.root) : (v.program e).Only (Step.Credible env)
    (fun s => s.Minor E env tools ∨ s.isAside = true) fun _ => True := by
  refine visit_only (fun s hs => ?_) fun id => (delete_minor hS).mono fun _ => .inl
  cases s with
  | getOrLoad | invalidate | enter | leave => exact .inr rfl
  | stat | list | read | ask | emit => exact .inl trivial
  | _ => simp [Step.isVisit] at hs

def Step.Lockless (E : Estate) (env : Environment) (tools : Invocation → Prop) (ids : ModelIdentity → Prop)
    (s : Step) : Prop :=
  ∀ past, s.Courteous E env tools ids past ∧ ∀ r, held (⟨s, r⟩ :: past) = held past

theorem Program.Only.lockless (h : p.Only (Step.Credible env) (Step.Lockless E env tools ids) post)
    (hy : held y.past = ns) :
    (Rules.courteous E env tools ids).Safe (fun a z => post a ∧ held z.past = ns) p y := by
  refine h.safe (J := fun z => held z.past = ns) hy (Rules.traced_stable (held · = ns))
    fun z s r w hz hs hr => ?_
  exact ⟨hr, ⟨_, rfl, (hs z.past).1⟩, ((hs z.past).2 r).trans hz⟩

theorem visit_lockless (hS : E.cache.Serves env e.cache.root) :
    (v.program e).Only (Step.Credible env) (Step.Lockless E env tools ids) fun _ => True := by
  have hobeys {s : Step} (hs : s.Obeys E env tools) : s.Lockless E env tools ids :=
    fun _ => ⟨courteous_of_obeys hs, fun _ => held_of_obeys hs⟩
  refine visit_only (fun s hs => ?_) fun id => (delete_behaves hS).mono fun _ => hobeys
  cases s with
  | getOrLoad | invalidate | enter | leave => exact fun _ => ⟨trivial, fun _ => rfl⟩
  | stat | list | read | ask | emit => exact hobeys trivial
  | _ => simp [Step.isVisit] at hs

namespace Errand

variable (hE : x.engine.Settled E env)
include hE

theorem program_courteous (hy : held y.past = []) :
    (Rules.courteous E env (x.engine.Starts env) x.Locks).Safe (fun _ _ => True) x.program y := by
  have hend {r : Result} {z : Moment} : (Rules.courteous E env (x.engine.Starts env) x.Locks).Safe
      (fun _ _ => True) (Pure.pure r) z := .pure fun _ _ => trivial
  cases x with
  | compile e id source =>
    have hid : (compile e id source).Locks id := rfl
    exact (compile_courteous hE (fun _ h => h) hid hy).next fun _ _ _ => hend
  | visit e v => exact ((visit_lockless hE.serves).lockless hy).next fun _ _ _ => hend

theorem program_loads (hx : ∀ e v, x = .visit e v → v.isEvaluation = false) :
    x.program.Only (Step.Credible env) (fun s => ∀ n key p, s ≠ .getOrLoad n key p) fun _ => True := by
  have hobeys (s : Step) (hs : s.Obeys E env (x.engine.Starts env)) (n : Nat) (key : String) (p : Path) :
      s ≠ .getOrLoad n key p := by
    rintro rfl
    exact hs
  cases x with
  | compile e id source =>
    exact (compile_only hE hobeys (by simp) (by simp) (by simp) (by simp)).next fun _ _ => trivial
  | visit e v =>
    cases v with
    | unload id => exact ⟨by simp, fun _ _ => trivial⟩
    | delete id =>
      refine .next (Q := fun _ => True) (.next (Q := fun _ => True) ?_ fun _ _ => trivial) fun _ _ => trivial
      exact .liftThen (Q := fun _ => True) (.perform (by simp) fun _ _ => trivial) fun _ _ =>
        .of ((delete_behaves hE.serves).mono hobeys) (fun _ _ => trivial) fun _ _ => trivial
    | evaluate id data r => exact absurd (hx e _ rfl) (by simp [Visit.isEvaluation])
    | evaluateContained id data r => exact absurd (hx e _ rfl) (by simp [Visit.isEvaluation])

def Posted (E : Estate) (env : Environment) (x : Errand) (r : Result) (past : List Taken) : Prop :=
  ∃ d, x.Trail E env past d ∧
    ∀ out, r = .compiled (.ok out) → out.cached = false → ∃ s n, d = .posted s n

theorem program_drafting (hy : y.past = []) :
    (Rules.drafting E x.engine.cache env (x.engine.Starts env) x.identity).Safe
      (fun r z => x.Posted E env r z.past) x.program y := by
  cases x with
  | compile e id source =>
    refine (compile_drafting hE (fun _ h => h) hy).next fun r z hz => ?_
    obtain ⟨d, htrail, hd⟩ := hz
    refine .done ⟨d, htrail, fun out hout => ?_⟩ (Rules.drafting_stable fun past =>
      (compile e id source).Posted E env (.compiled r) past)
    exact hd out (Result.compiled.inj hout)
  | visit e v =>
    have hblank : (visit e v).Trail E env y.past .blank := hy ▸ .nil
    refine ((visit_idles hE.serves).idles rfl hblank).next fun r z hz => ?_
    exact .done ⟨_, hz.2, fun _ hout => nomatch hout⟩ (Rules.drafting_stable fun past =>
      (visit e v).Posted E env (.visited r) past)

end Errand

end Programs

/-- The callers work on the cache of an estate that is tidy, and the programs that they start keep to
what they may change. -/
structure Estate.Bears {ι : Type} (E : Estate) (m : Machine) (S : Scene ι Errand.Result) (errand : ι → Errand) :
    Prop where
  opens : S.Opens fun i => (errand i).program
  sound : E.Sound S.files
  tame : ∀ p, ∀ c ∈ (S.worlds p).children, E.Tame c.activity
  settled : ∀ i, (errand i).engine.Settled E (S.worlds (S.process i)).environment
  orderly : ∀ i, E.Orderly m ((errand i).engine.Starts (S.worlds (S.process i)).environment)
  tidy : E.Tidy S.files

namespace Scene

variable {ι : Type} [DecidableEq ι] {E : Estate} {m : Machine} {S S' : Scene ι Errand.Result} {i j : ι}
  {errand : ι → Errand} {env : Nat → Environment} {id : ModelIdentity}

abbrev Guarded (E : Estate) (errand : ι → Errand) (env : Nat → Environment) (S : Scene ι Errand.Result) : Prop :=
  S.Ordered E (fun i => (errand i).engine.Starts (env (S.process i))) (fun i => (errand i).Locks) env

structure Kept (E : Estate) (errand : ι → Errand) (env : Nat → Environment) (S : Scene ι Errand.Result) :
    Prop where
  tidy : E.Tidy S.files
  drafting : ∀ i, (Rules.drafting E (errand i).engine.cache (env (S.process i))
    ((errand i).engine.Starts (env (S.process i))) (errand i).identity).Safe
      (fun r y => (errand i).Posted E (env (S.process i)) r y.past) (S.program i) (S.moment i)
  trail : ∀ i, ∃ d, (errand i).Trail E (env (S.process i)) (S.past i) d
  holds : ∀ i, S.Alive i → ∀ d, (errand i).Trail E (env (S.process i)) (S.past i) d →
    d.Holds E (errand i).identity S.files

theorem stagedName_injective {id other : ModelIdentity} {s s' : String} (hs : s.length = 6)
    (hs' : s'.length = 6) (h : stagedName id s = stagedName other s') : id = other ∧ s = s' := by
  have hl := congrArg String.toList h
  simp only [stagedName, String.toList_append, List.append_assoc, List.append_cancel_left_eq] at hl
  have hlen : s.toList.length = s'.toList.length := by
    rw [String.length_toList, String.length_toList, hs, hs']
  rw [← List.append_assoc, ← List.append_assoc] at hl
  obtain ⟨hname, hs⟩ := List.append_inj' hl hlen
  exact ⟨ModelIdentity.eq_of_name (String.toList_inj.mp (List.append_cancel_right hname)),
    String.toList_inj.mp hs⟩

theorem Guarded.alone (h : S.Guarded E errand env) (hi : S.Alive i) (hj : S.Alive j)
    (hhi : held (S.past i) ≠ []) (hhj : held (S.past j) ≠ [])
    (hid : (errand i).identity = (errand j).identity) : i = j := by
  have hlocked {k : ι} (hk : S.Alive k) (hh : held (S.past k) ≠ []) :
      ∃ n ∈ held (S.past k), E.Numbers (errand k).identity n S.files := by
    obtain ⟨n, ns, hn⟩ := List.exists_cons_of_ne_nil hh
    obtain ⟨other, hlocks, hnum⟩ := h.locked.keyed k hk n (hn ▸ List.mem_cons_self)
    have hother : other = (errand k).identity := by
      generalize errand k = x at hlocks
      cases x with
      | compile => exact hlocks
      | visit => exact hlocks.elim
    exact ⟨n, hn ▸ List.mem_cons_self, hother ▸ hnum⟩
  obtain ⟨n, hn, hnum⟩ := hlocked hi hhi
  obtain ⟨n', hn', hnum'⟩ := hlocked hj hhj
  obtain rfl := (hid ▸ hnum).unique hnum'
  exact h.locked.exclusive i j hi hj n hn hn'

def Posts (E : Estate) (errand : ι → Errand) (env : Nat → Environment) (S : Scene ι Errand.Result) (i : ι)
    (id : ModelIdentity) (n : String) (t : Taken) : Prop :=
  (errand i).identity = id ∧ ∃ s, (errand i).Trail E (env (S.process i)) (S.past i) (.filled s n) ∧
    t = ⟨.rename ((errand i).engine.cache.stagedDirectory (env (S.process i)) id s)
      ((errand i).engine.cache.entryDirectory id), .ok ()⟩

structure Turns (E : Estate) (errand : ι → Errand) (env : Nat → Environment) (S S' : Scene ι Errand.Result) :
    Prop where
  entry : ∀ id, S.files.get? (E.cache.entry id) = none → S'.files.get? (E.cache.entry id) = none ∨
    ∃ i t, S'.history = (i, t) :: S.history ∧ (errand i).identity = id ∧
      t.Publishes (errand i).engine.cache id
  modules : ∀ id n, ModuleFile.isName n = true →
    Alike (S.files.get? (E.cache.entry id ++ [n])) (S'.files.get? (E.cache.entry id ++ [n])) ∨
    ∃ i t, S'.history = (i, t) :: S.history ∧ t.step.Disturbs E (env (S.process i)) id ∧
      (S'.files.get? (E.cache.entry id ++ [n]) ≠ none → S.Posts E errand env i id n t)

theorem Turns.of_wanes (h : E.Wanes (fun _ => False) (fun _ => False) S.files S'.files) :
    S.Turns E errand env S' :=
  ⟨fun id hg => .inl (h.entry id hg), fun id n hn => .inl ((h.modules id n hn).resolve_right fun hl => hl.1)⟩

theorem Kept.drifts {S' : Scene ι Errand.Result} (h : S.Kept E errand env)
    (hw : E.Wanes (fun _ => False) (fun _ => False) S.files S'.files)
    (hprocess : S'.process = S.process) (hprogram : S'.program = S.program) (hhistory : S'.history = S.history)
    (halive : ∀ i, S'.Alive i → S.Alive i) : S'.Kept E errand env := by
  have hpast (i : ι) : S'.past i = S.past i := by simp [past, hhistory]
  refine ⟨h.tidy.wanes hw, fun i => ?_, fun i => ?_, fun i hi d hd => ?_⟩
  · rw [hprocess, hprogram]
    exact (h.drafting i).later (hpast i)
  · rw [hprocess, hpast]
    exact h.trail i
  · rw [hprocess, hpast] at hd
    refine (h.holds i (halive i hi) d hd).alike (fun _ s _ n hn => ?_) fun s n hf => (hd.built (.inl hf)).1
    rw [stagedName_eq]
    exact (hw.staged _ n hn).resolve_right fun ho => ho.1

section Stepping

variable {s : Step} {next : s.Reply → Program Errand.Result} {r : s.Reply} {w : World}
  (hm : ∀ i, E.Orderly m ((errand i).engine.Starts (env (S.process i))))
  (hE : ∀ i, (errand i).engine.Settled E (env (S.process i)))
  (ho : S.Guarded E errand env) (h : S.Kept E errand env) (hi : S.Alive i) (hp : S.program i = .step s next)
  (hr : s.exec m (S.world (S.process i)) = some (r, w))
include hm hE ho h hi hp hr

theorem Kept.changes {d d' : Draft} (hd : (errand i).Trail E (env (S.process i)) (S.past i) d)
    (hg : Draft.Goes E (errand i).engine.cache (env (S.process i)) ((errand i).engine.Starts (env (S.process i)))
      (errand i).identity (S.past i) d ⟨s, r⟩ d') :
    d.Changes E (errand i).engine.cache (env (S.process i)) (errand i).identity (S.past i) ⟨s, r⟩ d'
      S.files w.files := by
  refine hg.changes (hm i) (hE i).serves (ho.calm.calm _) (ho.calm.environment _) h.tidy hd (h.holds i hi d hd)
    (fun p hs => ?_) hr
  subst hs
  have hsafe := ho.courteous i hi
  rw [hp, Rules.Safe.step_iff] at hsafe
  obtain ⟨⟨_, hpast, hs⟩, -⟩ := hsafe _ rfl r w (ho.reply hr)
  obtain rfl := (List.cons.inj hpast).1
  obtain ⟨id, -, hl⟩ := hs
  exact ⟨id, hl⟩

omit hm hE hp hr in
theorem Kept.holds_other {d d' e : Draft} {j : ι}
    (hd : (errand i).Trail E (env (S.process i)) (S.past i) d)
    (hc : d.Changes E (errand i).engine.cache (env (S.process i)) (errand i).identity (S.past i) ⟨s, r⟩ d'
      S.files w.files) (hj : S.Alive j) (hne : j ≠ i)
    (he : (errand j).Trail E (env (S.process j)) (S.past j) e) : e.Holds E (errand j).identity w.files := by
  refine (h.holds j hj e he).alike (fun hopen s' hs' n hn => ?_) fun s n hf => (he.built (.inl hf)).1
  rw [stagedName_eq]
  refine (hc.staged _ n hn).resolve_right fun hown => hne ?_
  obtain ⟨hheld, s'', hs'', hname⟩ := hown
  rw [← stagedName_eq] at hname
  obtain ⟨hid, -⟩ := stagedName_injective (he.length_suffix hs') (hd.length_suffix hs'') hname
  exact ho.alone hj hi (he.held_ne hopen) hheld hid

theorem Kept.step : (S.after i ⟨s, r⟩ (next r) w).Kept E errand env ∧
    S.Turns E errand env (S.after i ⟨s, r⟩ (next r) w) := by
  have hplausible : s.Plausible (env (S.process i)) r := ho.calm.environment (S.process i) ▸
    plausible_of_exec (ho.calm.calm _).sound.cache.wellFormed hr
  have hsafe := h.drafting i
  rw [hp, Rules.Safe.step_iff] at hsafe
  obtain ⟨⟨d', htrail⟩, hnext⟩ := hsafe _ rfl r w hplausible
  have hcons {e' : Draft} (he : (errand i).Trail E (env (S.process i)) (⟨s, r⟩ :: S.past i) e') :
      ∃ e, (errand i).Trail E (env (S.process i)) (S.past i) e ∧
        e.Changes E (errand i).engine.cache (env (S.process i)) (errand i).identity (S.past i) ⟨s, r⟩ e'
          S.files w.files := by
    cases he with
    | cons he hg => exact ⟨_, he, h.changes hm hE ho hi hp hr he hg⟩
  obtain ⟨d, hd, hc⟩ := hcons htrail
  refine ⟨⟨hc.tidy, fun k => ?_, fun k => ?_, fun k hk e he => ?_⟩, fun id hg => ?_, fun id n hn => ?_⟩
  · by_cases hki : k = i
    · subst hki
      rw [after_program_self, after_moment_self]
      exact hnext
    · rw [after_program_ne S _ _ w hki]
      exact (h.drafting k).later (after_past_ne S _ _ w hki)
  · by_cases hki : k = i
    · subst hki
      rw [after_past_self]
      exact ⟨d', htrail⟩
    · rw [after_past_ne S _ _ w hki]
      exact h.trail k
  · by_cases hki : k = i
    · subst hki
      rw [after_past_self] at he
      obtain ⟨_, -, hc⟩ := hcons he
      exact hc.holds
    · rw [after_past_ne S _ _ w hki] at he
      exact h.holds_other ho hi hd hc hk hki he
  · refine (hc.entry id hg).imp_right fun hpub => ?_
    obtain ⟨rfl, hpub⟩ := hpub
    exact ⟨i, _, rfl, rfl, hpub⟩
  · refine (hc.modules id n hn).imp_right fun hmod => ⟨i, _, rfl, hmod.1, fun hg => ?_⟩
    obtain ⟨rfl, s', rfl, ht⟩ := hmod.2 hg
    exact ⟨rfl, s', hd, ht⟩

end Stepping

theorem Kept.moves (hm : ∀ i, E.Orderly m ((errand i).engine.Starts (env (S.process i))))
    (hE : ∀ i, (errand i).engine.Settled E (env (S.process i))) (ho : S.Guarded E errand env)
    (h : S.Kept E errand env) (hS : S.Moves m S') : S'.Kept E errand env ∧ S.Turns E errand env S' := by
  cases hS with
  | step hi hp hr => exact h.step hm hE ho hi hp hr
  | pass p t =>
    have hw : E.Wanes (fun _ => False) (fun _ => False) S.files (S.put p ((S.world p).advanceTo t)).files :=
      .of_tinkers (Custom.advanceTo_drifts (ho.calm.calm p).custom t).files
    exact ⟨h.drifts hw rfl rfl rfl fun _ hi => hi, .of_wanes hw⟩
  | crash p hl =>
    refine ⟨h.drifts (.refl _) rfl rfl rfl fun i hi => ?_, .of_wanes (.refl _)⟩
    exact fun hd => hi (List.mem_cons_of_mem _ hd)

end Scene

end CompiledModels
