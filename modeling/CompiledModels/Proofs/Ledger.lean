import CompiledModels.Proofs.Deadline
import CompiledModels.Proofs.Failure
import CompiledModels.Proofs.Launches
import CompiledModels.Proofs.Shelf

/-!
Calls of engines that share a cache, one after the other, from an empty cache on. They answer as a
ledger would that has at most one built module for each model.
-/

namespace CompiledModels

open Files Program

/-- A call of an engine. -/
inductive Demand
  | compile (id : ModelIdentity) (source : String)
  | visit (v : Visit)

namespace Demand

inductive Result
  | compiled (r : Except Error Compiled)
  | visited (r : Visit.Result)

def program (e : Engine) : Demand → Program Result
  | compile id source => do return .compiled (← (e.compile id source).run)
  | visit v => do return .visited (← v.program e)

section Ends

variable {act : Answers} {e : Engine} {id : ModelIdentity} {x y : Moment}

theorem ends_compile {source : String} {r : Except Error Compiled}
    (h : (e.compile id source).run.Ends act x r y) :
    (program e (.compile id source)).Ends act x (.compiled r) y :=
  Ends.bind_iff.mpr ⟨_, _, h, Ends.pure_iff.mpr ⟨rfl, rfl⟩⟩

theorem ends_evaluate {data : ModelData} {r : Request} {a : Except EvalError r.Answer}
    (h : (e.evaluate id data r).run.Ends act x a y) :
    (program e (.visit (.evaluate id data r))).Ends act x (.visited (.evaluated r a)) y :=
  Ends.bind_iff.mpr ⟨_, _, Ends.bind_iff.mpr ⟨_, _, h, Ends.pure_iff.mpr ⟨rfl, rfl⟩⟩,
    Ends.pure_iff.mpr ⟨rfl, rfl⟩⟩

end Ends

end Demand

/-- A call that has come to its end, with its steps, the last one first, and the world after it. -/
structure Deed where
  engine : Engine
  use : Demand
  result : Demand.Result
  taken : List Taken
  world : World

/-- What was built from a source and is kept. -/
structure Built where
  source : String
  record : Record

abbrev Ledger := ModelIdentity → Option Built

abbrev Loader := Path → Bytes → Except ModuleError Services

namespace Ledger

def services (M : Ledger) (load : Loader) (c : Cache) (id : ModelIdentity) :
    Except NotFoundError Services :=
  match M id with
  | none => .error (.entry id.key)
  | some b => (load ((c.entryDirectory id).join b.record.name) b.record.content.all).mapError
      fun err => .module id.key err.text

def answer (M : Ledger) (load : Loader) (c : Cache) (id : ModelIdentity) (data : ModelData)
    (r : Request) : Except EvalError r.Answer :=
  match M.services load c id with
  | .error err => .error (.notFound err)
  | .ok s =>
    match (s.answer data r).1 with
    | .ok a => .ok a
    | .error err => .error (.evaluation ⟨id.key, r.operation, err.text⟩)

def Ready (M : Ledger) : Demand → Prop
  | .compile id _ => (M id).isSome = true
  | .visit _ => True

variable {M : Ledger} {load : Loader} {c : Cache} {id : ModelIdentity} {b : Built}

theorem services_none (h : M id = none) : M.services load c id = .error (.entry id.key) := by
  rw [services, h]

theorem services_some (h : M id = some b) : M.services load c id =
    (load ((c.entryDirectory id).join b.record.name) b.record.content.all).mapError
      fun err => .module id.key err.text := by
  rw [services, h]

/-- What a call of `e` answers that starts the programs `is`, and what is kept after it. -/
inductive Turn (load : Loader) (e : Engine) (is : List Invocation) (M : Ledger) :
    Demand → Demand.Result → Ledger → Prop
  | served {id : ModelIdentity} {source : String} {b : Built} (h : M id = some b) (hi : is = []) :
      Turn load e is M (.compile id source)
        (.compiled (.ok ⟨b.record.output, b.record.warnings, true⟩)) M
  | built {id : ModelIdentity} {b : Built} (h : M id = none) (hi : e.Builds id is) :
      Turn load e is M (.compile id b.source)
        (.compiled (.ok ⟨b.record.output, b.record.warnings, false⟩)) (Function.update M id (some b))
  | failed {id : ModelIdentity} {source : String} {err : Error} (h : M id = none)
      (hi : e.Launches id (.error err) is) :
      Turn load e is M (.compile id source) (.compiled (.error err)) M
  | deleted {id : ModelIdentity} {r : Except Error Unit} (h : r = .ok () ∨ M id = none) :
      Turn load e is M (.visit (.delete id)) (.visited (.deleted r)) (Function.update M id none)
  | unloaded {id : ModelIdentity} {had : Bool} :
      Turn load e is M (.visit (.unload id)) (.visited (.unloaded had)) M
  | evaluated {id : ModelIdentity} {data : ModelData} {r : Request} :
      Turn load e is M (.visit (.evaluate id data r))
        (.visited (.evaluated r (M.answer load e.cache id data r))) M
  | contained {id : ModelIdentity} {data : ModelData} {r : Request} :
      Turn load e is M (.visit (.evaluateContained id data r))
        (.visited (.contained r (CompiledModels.contained (M.answer load e.cache id data r)))) M

/-- What is kept after calls one after the other, the last one first, from nothing on. -/
inductive Accounts (load : Loader) : List Deed → Ledger → Prop
  | nil : Accounts load [] fun _ => none
  | cons {d : Deed} {past : List Deed} {M M' : Ledger} (h : Accounts load past M)
      (hd : Turn load d.engine (launched d.taken) M d.use d.result M') : Accounts load (d :: past) M'

end Ledger

def Fresh (E : Estate) (past : List Deed) (w w' : World) : Prop :=
  ∀ id name, ModuleFile.isName name = true → w.files.get? (E.cache.entry id ++ [name]) = none →
    w'.files.get? (E.cache.entry id ++ [name]) ≠ none →
    ∀ d ∈ past, d.world.files.get? (E.cache.entry id ++ [name]) = none

theorem Fresh.of_files {E : Estate} {past : List Deed} {w w' : World} (h : w'.files = w.files) :
    Fresh E past w w' := by
  intro id name _ hn hne
  rw [h] at hne
  exact absurd hn hne

/-- Calls of engines with the cache `c`, one after the other, from an empty cache on, while programs
that were started run on; and the world after them. -/
inductive Session (m : Machine) (E : Estate) (c : Cache) (env : Environment) :
    List Deed → World → Prop
  | start {w : World} (hw : E.Calm w) (he : w.environment = env) (hb : w.busy = [])
      (hr : ∀ n key, (w.registry n).get? key = none)
      (hempty : ∀ rest, rest ≠ [] → w.files.get? (E.cache.root ++ rest) = none) :
      Session m E c env [] w
  | elapse {past : List Deed} {w w' : World} (h : Session m E c env past w) (hd : E.Drifts w w')
      (hs : w.Spares w') : Session m E c env past w'
  | engine {past : List Deed} {n : Nat} {w w' : World} (h : Session m E c env past w)
      (hr : Step.newRegistry.exec m w = some (n, w')) : Session m E c env past w'
  | call {past : List Deed} {e : Engine} {use : Demand} {r : Demand.Result} {w : World} {y : Moment}
      (h : Session m E c env past w) (he : e.Settled E env) (hc : e.cache = c)
      (hn : e.registry < w.registries.length) (hm : E.Orderly m (e.Starts env))
      (hr : (use.program e).Ends (Step.answers m) ⟨w, []⟩ r y) (hnew : Fresh E past w y.world) :
      Session m E c env (⟨e, use, r, y.past, y.world⟩ :: past) y.world

def Machine.Loads (m : Machine) (env : Environment) (load : Loader) : Prop :=
  ∀ t p bytes, t.read env.location p = .ok bytes → m.load env t p = load p bytes

variable {m : Machine} {E : Estate} {c : Cache} {e : Engine} {env : Environment} {load : Loader}
  {tools : Invocation → Prop} {id : ModelIdentity} {source name : String} {past : List Deed}
  {M : Ledger} {w w' : World} {y : Moment} {a : LoadedModule}

structure Deed.Seen (E : Estate) (c : Cache) (load : Loader) (past : List Deed) (M : Ledger)
    (id : ModelIdentity) (a : LoadedModule) (name : String) : Prop where
  path : a.path = (c.entryDirectory id).join name
  seen : ∃ d ∈ past, d.world.files.get? (E.cache.entry id ++ [name]) ≠ none
  loaded : ∀ b, M id = some b → b.record.name = name →
    load a.path b.record.content.all = .ok a.services

structure Ledger.Balances (E : Estate) (c : Cache) (env : Environment) (load : Loader)
    (past : List Deed) (M : Ledger) (w : World) : Prop where
  calm : E.Calm w
  environment : w.environment = env
  busy : w.busy = []
  stocked : ∀ id b, M id = some b →
    Stocked E.cache c id b.record w ∧ b.record.manifest.abi.toNat = abiVersion
  absent : ∀ id, M id = none → w.files.get? (E.cache.entry id) = none
  handles : ∀ n id a, (w.registry n).get? id.key = some a →
    ∃ name, Deed.Seen E c load past M id a name

theorem Stocked.same {S : Site} {r : Record} (h : Stocked S c id r w)
    (hs : w.files.Same w'.files (S.entry id)) (hw : S.Stands w'.files)
    (he : w'.environment = w.environment) : Stocked S c id r w' :=
  ⟨h.toReached.same hs hw he, h.folder.congr hs, h.isName, h.files⟩

theorem Stocked.get?_module {S : Site} {r : Record} (h : Stocked S c id r w) :
    w.files.get? (S.entry id ++ [r.name]) ≠ none := by
  obtain ⟨number, hget⟩ := h.folder.files (r.name, r.content, r.executable) List.mem_cons_self
  simp [hget]

theorem Stocked.read_module {S : Site} {r : Record} (h : Stocked S c id r w) :
    w.files.read w.directory ((c.entryDirectory id).join r.name) = .ok r.content.all := by
  obtain ⟨number, hstat⟩ := h.stat_file (f := (r.name, r.content, r.executable)) List.mem_cons_self
  exact Tree.read_eq_ok.mpr ⟨_, hstat, by simp, rfl⟩

theorem Stocked.moduleFile {S : Site} {r : Record} (h : Stocked S e.cache id r w) :
    w.moduleFile e id = some ((e.cache.entryDirectory id).join r.name) := by
  rw [World.moduleFile, h.moduleNames]
  rfl

theorem Stocked.delete_run {S : Site} {r : Record} (h : Stocked S c id r w)
    (hS : S.Serves w.environment c.root) (hw : S.Stands w.files) :
    ∃ w', (c.delete id).run.run m w = some (.ok (), w') := by
  have hdir := h.folder.directory
  have hproper : IsProper id.name :=
    hw.wellFormed.proper_of_get? (l := S.entry id) (by simp [hdir]) id.name (by simp [Site.entry])
  rw [S.entry_eq] at hdir
  have hmodels : w.files.get? S.models = some .directory :=
    hw.wellFormed.get?_parent (s := id.name) (by simp [hdir])
  have hreach : S.Reaches c.root [ModelIdentity.modelNamespace, id.name] w.files := by
    intro rest hne
    rcases eq_or_ne rest [] with rfl | hrest
    · rw [List.append_nil, ← Cache.entryDirectory_eq]
      exact h.short
    · obtain ⟨f, hf, rfl⟩ := h.folder.only rest hrest hne
      rw [← Path.joins_join, ← Cache.entryDirectory_eq]
      exact h.files f.1 (r.names_eq ▸ List.mem_map_of_mem hf)
  obtain ⟨w', hrun, -⟩ := delete_succeeds (m := m) hS hw (.inr hmodels) ⟨hproper, h.short⟩
    (.inr h.folder.directory) hreach
  exact ⟨w', hrun⟩

theorem Path.eq_of_same_join {p : Path} {a b : String} (h : (p.join a).same (p.join b) = true) :
    a = b := by
  rw [same_iff] at h
  simpa [join, components] using h

def World.Retains (w w' : World) : Prop :=
  ∀ n key a, (w'.registry n).get? key = some a → (w.registry n).get? key = some a

theorem World.retains_dropping {n : Nat} {key : String}
    (h : w'.registries = (w.dropping n key).registries) : w.Retains w' := by
  intro k other a ha
  rw [World.registry, h, ← World.registry, World.get?_dropping] at ha
  split at ha
  · simp at ha
  · exact ha

namespace Ledger.Balances

theorem same (h : M.Balances E c env load past w) (hw : E.Calm w') (he : w'.environment = w.environment)
    (hb : w'.busy = w.busy) (hs : ∀ id, w.files.Same w'.files (E.cache.entry id))
    (hr : w.Retains w') :
    M.Balances E c env load past w' where
  calm := hw
  environment := he.trans h.environment
  busy := hb.trans h.busy
  stocked id b hM := ⟨(h.stocked id b hM).1.same (hs id) hw.sound.cache he, (h.stocked id b hM).2⟩
  absent id hM := by
    have hroot := hs id []
    rw [List.append_nil] at hroot
    exact hroot.trans (h.absent id hM)
  handles n id a ha := h.handles n id a (hr n id.key a ha)

end Ledger.Balances

theorem Deed.Seen.turn {past : List Deed} {other : ModelIdentity}
    (h : Seen E c load past M other a name) (d : Deed) (o : Option Built)
    (hid : other = id → ∀ b, o = some b → b.record.name = name →
      load a.path b.record.content.all = .ok a.services) :
    Seen E c load (d :: past) (Function.update M id o) other a name := by
  obtain ⟨d', hd, hseen⟩ := h.seen
  refine ⟨h.path, ⟨d', List.mem_cons_of_mem d hd, hseen⟩, fun b hb hname => ?_⟩
  by_cases heq : other = id
  · subst heq
    exact hid rfl b (by simpa using hb) hname
  · rw [Function.update_of_ne heq] at hb
    exact h.loaded b hb hname

theorem Ledger.Balances.turn (h : M.Balances E c env load past w) (d : Deed) (id : ModelIdentity)
    (o : Option Built)
    (hw : E.Calm w') (he : w'.environment = w.environment) (hb : w'.busy = w.busy)
    (hs : ∀ other ≠ id, w.files.Same w'.files (E.cache.entry other))
    (hstocked : ∀ b, o = some b →
      Stocked E.cache c id b.record w' ∧ b.record.manifest.abi.toNat = abiVersion)
    (habsent : o = none → w'.files.get? (E.cache.entry id) = none)
    (hr : ∀ n other a, (w'.registry n).get? (ModelIdentity.key other) = some a →
      (w.registry n).get? other.key = some a ∨
        other = id ∧ ∃ name, Deed.Seen E c load (d :: past) (Function.update M id o) id a name)
    (hold : ∀ a name, Deed.Seen E c load past M id a name → ∀ b, o = some b → b.record.name = name →
      load a.path b.record.content.all = .ok a.services) :
    Ledger.Balances E c env load (d :: past) (Function.update M id o) w' where
  calm := hw
  environment := he.trans h.environment
  busy := hb.trans h.busy
  stocked other b hM := by
    by_cases heq : other = id
    · subst heq
      exact hstocked b (by simpa using hM)
    · rw [Function.update_of_ne heq] at hM
      obtain ⟨hstocked, habi⟩ := h.stocked other b hM
      exact ⟨hstocked.same (hs other heq) hw.sound.cache he, habi⟩
  absent other hM := by
    by_cases heq : other = id
    · subst heq
      exact habsent (by simpa using hM)
    · rw [Function.update_of_ne heq] at hM
      have hroot := hs other heq []
      rw [List.append_nil] at hroot
      exact hroot.trans (h.absent other hM)
  handles n other a ha := by
    rcases hr n other a ha with hold' | ⟨rfl, hnew⟩
    · obtain ⟨name, hseen⟩ := h.handles n other a hold'
      refine ⟨name, hseen.turn d o fun heq => ?_⟩
      subst heq
      exact hold a name hseen
    · exact hnew

theorem Ledger.Balances.keep (h : M.Balances E c env load past w) (d : Deed) (id : ModelIdentity)
    (hw : E.Calm w') (he : w'.environment = w.environment) (hb : w'.busy = w.busy)
    (hs : ∀ id, w.files.Same w'.files (E.cache.entry id))
    (hr : ∀ n other a, (w'.registry n).get? (ModelIdentity.key other) = some a →
      (w.registry n).get? other.key = some a ∨
        other = id ∧ ∃ name, Deed.Seen E c load (d :: past) M id a name) :
    M.Balances E c env load (d :: past) w' := by
  have hsame : Function.update M id (M id) = M := Function.update_eq_self id M
  have hturn := h.turn d id (M id) hw he hb (fun other _ => hs other)
    (fun b hb => ⟨(h.stocked id b hb).1.same (hs id) hw.sound.cache he, (h.stocked id b hb).2⟩)
    (fun hn => by
      have hroot := hs id []
      rw [List.append_nil] at hroot
      exact hroot.trans (h.absent id hn))
    (by rwa [hsame]) fun a name hseen => hseen.loaded
  rwa [hsame] at hturn

section Calls

variable (h : M.Balances E c env load past w)

include h

theorem Ledger.Balances.serve {b : Built} {r : Except Error Compiled} (hb : M id = some b)
    (hc : e.cache = c) (hr : (e.compile id source).run.Ends (Step.answers m) ⟨w, []⟩ r y) :
    M.Turn load e (launched y.past) (.compile id source) (.compiled r) M ∧
      ∀ d : Deed, M.Balances E c env load (d :: past) y.world := by
  subst hc
  obtain ⟨hstocked, habi⟩ := h.stocked id b hb
  obtain ⟨events, hrun⟩ := compile_hit (m := m) (hstocked.hit habi) source
  obtain ⟨rfl, hy⟩ := Prod.mk.inj (Option.some.inj (hrun.symm.trans hr.run_of))
  refine ⟨.served hb (compile_launches hr), fun d => ?_⟩
  rw [← hy]
  exact h.keep d id ⟨h.calm.sound, h.calm.tame⟩ rfl rfl (fun _ _ => rfl) fun n other a ha => .inl ha

theorem Ledger.Balances.unload {n : Nat} {had : Bool}
    (hr : (perform (.invalidate n id.key)).Ends (Step.answers m) ⟨w, []⟩ had y) (d : Deed) :
    M.Balances E c env load (d :: past) y.world := by
  have hy := (invalidate_ends (fun _ _ _ _ => Step.flawed_of_answers) hr).1
  rw [hy]
  exact h.keep d id ⟨h.calm.sound, h.calm.tame⟩ rfl rfl (fun _ _ => rfl) fun k other a ha =>
    .inl (World.retains_dropping rfl k other.key a ha)

theorem Ledger.Balances.erase (hS : E.cache.Serves env c.root) (hm : E.Orderly m tools)
    (hc : e.cache = c) {r : Except Error Unit}
    (hr : (e.delete id).run.Ends (Step.answers m) ⟨w, []⟩ r y) :
    (r = .ok () ∨ M id = none) ∧
      ∀ d : Deed, Ledger.Balances E c env load (d :: past) (Function.update M id none) y.world := by
  subst hc
  have hd := Engine.delete_deletes (fun _ _ _ _ => Step.flawed_of_answers) hm (h.environment ▸ hS)
    h.calm hr
  have hsome : r = .ok () ∨ M id = none := by
    cases hb : M id with
    | none => exact .inr rfl
    | some b =>
      obtain ⟨b', z, hz, hends⟩ := Ends.liftThen_iff.mp hr
      obtain ⟨r', hr', rfl⟩ := Ends.of_iff.mp hends
      have hw := (invalidate_ends (fun _ _ _ _ => Step.flawed_of_answers) hz).1
      have hstocked : Stocked E.cache e.cache id b.record z.world :=
        (h.stocked id b hb).1.same (fun _ => by rw [hw]; rfl) (hw ▸ h.calm.sound.cache)
          (by rw [hw]; rfl)
      obtain ⟨w'', hrun⟩ := hstocked.delete_run (m := m) (by rw [hw]; exact h.environment ▸ hS)
        (hw ▸ h.calm.sound.cache)
      obtain ⟨rfl, -⟩ := Prod.mk.inj (Option.some.inj (hrun.symm.trans hr'.run_of))
      exact .inl rfl
  refine ⟨hsome, fun d => h.turn d id none hd.calm hd.alters.environment hd.busy
    (fun other hne rest => hd.alters.files _ (E.cache.entry_apart hne rest)) (by simp) (fun _ => ?_)
    (fun k other a ha => .inl (World.retains_dropping hd.registries k other.key a ha)) (by simp)⟩
  · rcases hsome with hok | hn
    · have hgone := hd.gone hok []
      rwa [List.append_nil] at hgone
    · rcases hd.fewer (E.cache.entry id) with hsame | hgone
      · exact hsame.trans (h.absent id hn)
      · exact hgone

theorem Ledger.Balances.build (hm : E.Orderly m (e.Starts env)) (hE : e.Settled E env)
    (hc : e.cache = c) (hb : M id = none) {r : Except Error Compiled}
    (hr : (e.compile id source).run.Ends (Step.answers m) ⟨w, []⟩ r y)
    (hnew : Fresh E past w y.world) :
    ∃ M', M.Turn load e (launched y.past) (.compile id source) (.compiled r) M' ∧
      ∀ d : Deed, M'.Balances E c env load (d :: past) y.world := by
  subst hc
  obtain rfl := h.environment
  have hlaunch := compile_launches hr
  have hout := compile_outcome (fun _ _ _ _ => Step.flawed_of_answers) hm hE (fun _ hi => hi)
    (x := ⟨w, []⟩) rfl h.calm (by simp [Arrived]) hr
  obtain ⟨hcalm, henv, hothers⟩ := hout.others h.calm
  have hbare : w.files.Bare (E.cache.entry id) := h.calm.sound.cache.wellFormed.bare (h.absent id hb)
  have hsame : Function.update M id none = M := by rw [← hb, Function.update_eq_self]
  have hfailed {err : Error} (hbusy : y.world.busy = w.busy)
      (hgone : y.files.get? (E.cache.entry id) = none) (hretains : w.Retains y.world)
      (hl : e.Launches id (.error err) (launched y.past)) :
      ∃ M', M.Turn load e (launched y.past) (.compile id source) (.compiled (.error err)) M' ∧
        ∀ d : Deed, M'.Balances E e.cache w.environment load (d :: past) y.world := by
    refine ⟨M, .failed hb hl, fun d => ?_⟩
    have hturn := h.turn d id none hcalm henv hbusy hothers (by simp) (fun _ => hgone)
      (fun n other a ha => .inl (hretains n other.key a ha)) (by simp)
    rwa [hsame] at hturn
  cases hout with
  | found hh _ _ =>
    have hreached := (compile_cached hm hE h.calm hr.run_of hh).reached hE.serves h.calm
    exact absurd hreached.directory (by simp [h.absent id hb])
  | refused hf ha hc haside =>
    obtain ⟨files, seed, events, hy⟩ := haside
    have hy : y.world = { w with files := files, seed := seed, events := events } := hy
    refine hfailed (by rw [hy]) ?_ (fun n key a ha => ?_) hlaunch
    · have hsame := ha.files _ (E.still_entry id []).2
      rw [List.append_nil] at hsame
      exact hsame.trans (h.absent id hb)
    · rw [hy] at ha
      exact ha
  | kept hf hrel hgone =>
    exact hfailed hrel.busy (hgone (h.absent id hb)) (World.retains_dropping hrel.registries) hlaunch
  | failed hp hf hrel hgone =>
    have hgone := hgone []
    rw [List.append_nil] at hgone
    exact hfailed hrel.busy hgone (World.retains_dropping hrel.registries) hlaunch
  | @built compiled _ hcached hrel hs =>
    obtain ⟨record, hout, hwarn, habi, hstocked⟩ := hs
    obtain ⟨diagnostics, warnings, cached⟩ := compiled
    obtain rfl : cached = false := hcached
    obtain rfl : record.output = diagnostics := hout
    obtain rfl : record.warnings = warnings := hwarn
    refine ⟨Function.update M id (some ⟨source, record⟩), ?_, fun d => ?_⟩
    · exact .built (b := ⟨source, record⟩) hb hlaunch
    · refine h.turn d id (some ⟨source, record⟩) hcalm henv hrel.busy hothers
        (fun b hb => ?_) (by simp)
        (fun n other a ha => .inl (World.retains_dropping hrel.registries n other.key a ha))
        fun a name hseen b hb hname => ?_
      · obtain rfl := Option.some.inj hb
        exact ⟨hstocked, habi⟩
      · obtain rfl := Option.some.inj hb
        subst hname
        obtain ⟨d', hd, hne⟩ := hseen.seen
        exact absurd (hnew id record.name hstocked.isName (hbare [record.name]) hstocked.get?_module
          d' hd) hne

theorem Ledger.Balances.moduleFile_none (hS : E.cache.Serves env c.root) (hc : e.cache = c)
    (hb : M id = none) : w.moduleFile e id = none := by
  subst hc
  obtain rfl := h.environment
  refine World.moduleFile_eq_none.mpr ?_
  rintro ⟨name, hname, -⟩
  have hreached : Reached E.cache e.cache id w := Reached.of_mem_names hS.leads h.calm.sound.cache
    (fun rest => h.calm.sound.clean _ (.inl (List.prefix_append _ rest))) hname
  simpa [h.absent id hb] using hreached.directory

theorem Ledger.Balances.services_eq (hS : E.cache.Serves env c.root) (hload : m.Loads env load)
    (hc : e.cache = c) : w.services m e id = M.services load c id := by
  cases hb : M id with
  | none => rw [Ledger.services_none hb, World.services_none (h.moduleFile_none hS hc hb)]
  | some b =>
    rw [Ledger.services_some hb]
    subst hc
    obtain rfl := h.environment
    obtain ⟨hstocked, -⟩ := h.stocked id b hb
    have hfile := hstocked.moduleFile
    cases hcur : (w.registry e.registry).current? id.key
        ((e.cache.entryDirectory id).join b.record.name) with
    | none => rw [World.services_load hfile hcur, hload w.files _ _ hstocked.read_module]
    | some a =>
      obtain ⟨hget, hpath⟩ := Registry.current?_eq_some hcur
      obtain ⟨name, hseen⟩ := h.handles e.registry id a hget
      have hname : name = b.record.name := Path.eq_of_same_join (hseen.path ▸ hpath)
      have hloaded := hseen.loaded b hb hname.symm
      rw [hseen.path, hname] at hloaded
      rw [World.services_held hfile hcur, hloaded]
      rfl

theorem Ledger.Balances.evaluate (hS : E.cache.Serves env c.root) (hload : m.Loads env load)
    (hc : e.cache = c) (hl : w.Loading m e id w') (hw : E.Calm w') {d : Deed} (hd : d.world = w') :
    M.Balances E c env load (d :: past) w' := by
  refine h.keep d id hw hl.environment hl.busy (fun _ _ => by rw [hl.files]) fun n other a ha => ?_
  by_cases hn : n = e.registry
  case neg => exact .inl (hl.tables n hn ▸ ha)
  subst hn
  by_cases hid : other = id
  case neg =>
    have hkey : other.key ≠ id.key := fun hkey => hid (ModelIdentity.key_injective hkey)
    exact .inl (hl.others other.key hkey ▸ ha)
  subst hid
  cases hp : w.pending m e other with
  | none => exact .inl (hl.kept hp ▸ ha)
  | some o =>
    obtain ⟨p, s⟩ := o
    obtain ⟨hfile, -, hs⟩ := World.pending_eq_some hp
    cases hb : M other with
    | none => simp [h.moduleFile_none hS hc hb] at hfile
    | some b =>
      subst hc
      obtain rfl := h.environment
      obtain ⟨hstocked, -⟩ := h.stocked other b hb
      obtain ⟨number, hnew⟩ := hl.loaded p s hp
      obtain rfl := Option.some.inj (hnew.symm.trans ha)
      obtain rfl := Option.some.inj (hstocked.moduleFile.symm.trans hfile)
      refine .inr ⟨rfl, b.record.name, rfl, ⟨d, List.mem_cons_self, ?_⟩, fun b' hb' _ => ?_⟩
      · rw [hd, hl.files]
        exact hstocked.get?_module
      · obtain rfl := Option.some.inj (hb.symm.trans hb')
        rw [← hload w.files _ _ hstocked.read_module, hs]

theorem Ledger.Balances.turns (hS : E.cache.Serves env c.root) (hload : m.Loads env load)
    (hm : E.Orderly m (e.Starts env)) (hE : e.Settled E env) (hc : e.cache = c)
    (hn : e.registry < w.registries.length) {use : Demand} {r : Demand.Result}
    (hr : (use.program e).Ends (Step.answers m) ⟨w, []⟩ r y) (hnew : Fresh E past w y.world) :
    ∃ M', M.Turn load e (launched y.past) use r M' ∧
      M'.Balances E c env load (⟨e, use, r, y.past, y.world⟩ :: past) y.world := by
  have hanswer (id : ModelIdentity) (data : ModelData) (r : Request) :
      w.answer m e id data r = M.answer load e.cache id data r := by
    rewrite [World.answer, Ledger.answer, h.services_eq hS hload hc, hc]
    rfl
  cases use with
  | compile id source =>
    obtain ⟨r', z, hends, hpure⟩ := Ends.bind_iff.mp hr
    obtain ⟨rfl, rfl⟩ := Ends.pure_iff.mp hpure
    cases hb : M id with
    | some b =>
      obtain ⟨hturn, hbalances⟩ := h.serve hb hc hends
      exact ⟨M, hturn, hbalances _⟩
    | none =>
      obtain ⟨M', hturn, hbalances⟩ := h.build hm hE hc hb hends hnew
      exact ⟨M', hturn, hbalances _⟩
  | visit v =>
    obtain ⟨v', z, hends, hpure⟩ := Ends.bind_iff.mp hr
    obtain ⟨rfl, rfl⟩ := Ends.pure_iff.mp hpure
    cases v with
    | evaluate id data r =>
      have hcalm := h.calm.beside ((visit_visits (v := .evaluate id data r) rfl).beside hends.run_of)
      obtain ⟨r', z, hends, hpure⟩ := Ends.bind_iff.mp hends
      obtain ⟨rfl, rfl⟩ := Ends.pure_iff.mp hpure
      obtain ⟨w', hrun, hl⟩ := Engine.evaluate_run (m := m) hn h.busy id data r
      obtain ⟨rfl, rfl⟩ := Prod.mk.inj (Option.some.inj (hrun.symm.trans hends.run_of))
      exact ⟨M, hanswer id data r ▸ .evaluated, h.evaluate hS hload hc hl hcalm rfl⟩
    | evaluateContained id data r =>
      have hcalm := h.calm.beside
        ((visit_visits (v := .evaluateContained id data r) rfl).beside hends.run_of)
      obtain ⟨r', z, hends, hpure⟩ := Ends.bind_iff.mp hends
      obtain ⟨rfl, rfl⟩ := Ends.pure_iff.mp hpure
      obtain ⟨w', hrun, hl⟩ := Engine.evaluateContained_run (m := m) hn h.busy id data r
      obtain ⟨rfl, rfl⟩ := Prod.mk.inj (Option.some.inj (hrun.symm.trans hends.run_of))
      exact ⟨M, hanswer id data r ▸ .contained, h.evaluate hS hload hc hl hcalm rfl⟩
    | unload id =>
      obtain ⟨had, z, hends, hpure⟩ := Ends.bind_iff.mp hends
      obtain ⟨rfl, rfl⟩ := Ends.pure_iff.mp hpure
      exact ⟨M, .unloaded, h.unload hends _⟩
    | delete id =>
      obtain ⟨r', z, hends, hpure⟩ := Ends.bind_iff.mp hends
      obtain ⟨rfl, rfl⟩ := Ends.pure_iff.mp hpure
      obtain ⟨hturn, hbalances⟩ := h.erase hS hm hc hends
      exact ⟨_, .deleted hturn, hbalances _⟩

theorem Ledger.Balances.ready_ends (hc : e.cache = c) (hn : e.registry < w.registries.length)
    {use : Demand} (hready : M.Ready use) :
    ∃ r y, (use.program e).Ends (Step.answers m) ⟨w, []⟩ r y := by
  have hrun {α β : Type} {p : Program α} {f : α → β} {a : α} {w' : World}
      (hp : p.run m w = some (a, w')) :
      ∃ b y, (p >>= fun a => pure (f a)).Ends (Step.answers m) ⟨w, []⟩ b y := by
    obtain ⟨taken, hends⟩ := Program.Steps.of_run hp []
    exact ⟨f a, _, Ends.bind_iff.mpr ⟨a, _, hends, Ends.pure_iff.mpr ⟨rfl, rfl⟩⟩⟩
  cases use with
  | compile id source =>
    obtain ⟨b, hb⟩ := Option.isSome_iff_exists.mp hready
    obtain ⟨hstocked, habi⟩ := h.stocked id b hb
    obtain ⟨events, hcompile⟩ := compile_hit (m := m) (e := e) (hc ▸ hstocked.hit habi) source
    exact hrun hcompile
  | visit v =>
    suffices hv : ∃ r y, (v.program e).Ends (Step.answers m) ⟨w, []⟩ r y by
      obtain ⟨r, y, hends⟩ := hv
      exact ⟨_, y, Ends.bind_iff.mpr ⟨r, y, hends, Ends.pure_iff.mpr ⟨rfl, rfl⟩⟩⟩
    cases v with
    | evaluate id data r =>
      obtain ⟨w', hevaluate, -⟩ := Engine.evaluate_run (m := m) hn h.busy id data r
      exact hrun hevaluate
    | evaluateContained id data r =>
      obtain ⟨w', hevaluate, -⟩ := Engine.evaluateContained_run (m := m) hn h.busy id data r
      exact hrun hevaluate
    | unload id => exact hrun rfl
    | delete id =>
      have hbrief : (e.cache.delete id).run.Only (fun _ _ => True) (·.isBrief = true) fun _ => True :=
        delete_brief
      obtain ⟨r, w', hbrief, -⟩ := hbrief.runs (m := m) (w.dropping e.registry id.key)
      let x : Moment := ⟨w.dropping e.registry id.key,
        [⟨.invalidate e.registry id.key, ((w.registry e.registry).get? id.key).isSome⟩]⟩
      obtain ⟨taken, hends⟩ := Program.Steps.of_run hbrief x.past
      have hdelete : (e.delete id).run.Ends (Step.answers m) ⟨w, []⟩ (r.mapError .cache)
          ⟨w', taken ++ x.past⟩ := Ends.liftThen_iff.mpr
        ⟨_, x, Ends.perform_iff.mpr ⟨_, rfl, rfl⟩, Ends.of_iff.mpr ⟨r, hends, rfl⟩⟩
      exact ⟨_, _, Ends.bind_iff.mpr ⟨_, _, hdelete, Ends.pure_iff.mpr ⟨rfl, rfl⟩⟩⟩

end Calls

theorem Session.balances (hS : E.cache.Serves env c.root) (hload : m.Loads env load)
    (h : Session m E c env past w) :
    ∃ M, Ledger.Accounts load past M ∧ M.Balances E c env load past w := by
  induction h with
  | start hw he hb hr hempty =>
    refine ⟨_, .nil, hw, he, hb, by simp, fun id _ => ?_, fun n id a ha => ?_⟩
    · exact hempty _ (by simp)
    · simp [hr] at ha
  | elapse _ hd hs ih =>
    obtain ⟨M, hM, hbalances⟩ := ih
    exact ⟨M, hM, hbalances.same (hd.calm hbalances.calm) hd.environment hs.busy
      (fun id rest => hd.files.kept _ (E.still_entry id rest).1)
      fun n key a ha => hs.registry n ▸ ha⟩
  | @engine past n w w' _ hr ih =>
    obtain ⟨M, hM, hbalances⟩ := ih
    obtain ⟨-, rfl⟩ := Prod.mk.inj (Option.some.inj hr)
    refine ⟨M, hM, hbalances.same ⟨hbalances.calm.sound, hbalances.calm.tame⟩ rfl rfl
      (fun _ _ => rfl) fun k key a ha => ?_⟩
    rw [World.registry, List.getElem?_append] at ha
    split at ha
    · exact ha
    · rw [List.getElem?_singleton] at ha
      split at ha <;> simp [Registry.get?, Registry.empty] at ha
  | call _ he hc hn hm hr hnew ih =>
    obtain ⟨M, hM, hbalances⟩ := ih
    obtain ⟨M', hturn, hbalances'⟩ := hbalances.turns hS hload hm he hc hn hr hnew
    exact ⟨M', .cons hM hturn, hbalances'⟩

theorem Machine.building_loads (env : Environment) :
    Machine.building.Loads env fun _ _ => .ok ⟨false, fun _ _ => (.error (.raised ""), [])⟩ := by
  intro t p bytes h
  simp [Machine.building, Machine.loading, h]

theorem World.bare_session :
    Session .building .small Engine.plain.cache World.bare.environment [] .bare := by
  refine .start World.bare_calm rfl rfl (fun n key => ?_) fun rest hr => ?_
  · rcases n with _ | n <;> rfl
  · exact World.bare_calm.sound.cache.wellFormed.get?_below_empty (by decide) hr

theorem Engine.plain_registers {w : World} (h : w.registries.length = 1) :
    Engine.plain.registry < w.registries.length := by
  rw [h]
  decide

end CompiledModels
