import CompiledModels.Proofs.Joining
import CompiledModels.Proofs.Launches
import CompiledModels.Proofs.Ledger

/-!
Of callers that compile the same model at the same time one builds it, and all get what it has built.
-/

namespace CompiledModels

open Files Program Estate

variable {ι α : Type} {m : Machine} {E : Estate} {e : ι → Engine} {source : ι → String}
  {id : ModelIdentity} {env : Nat → Environment}

def Program.Parts (ok : ∀ s : Step, s.Reply → Prop) : Program α → Prop
  | .done _ => True
  | .step s next => (∀ n, s = .release n → ∀ r, ∃ a, next r = .done a) ∧ ∀ r, ok s r → (next r).Parts ok

namespace Program.Parts

variable {β : Type} {ok : ∀ s : Step, s.Reply → Prop} {p : Program α} {f : α → Program β} {Q : α → Prop}

theorem next (h : p.Only ok (fun s => ∀ n, s ≠ .release n) Q) (hf : ∀ a, Q a → (f a).Parts ok) :
    (p >>= f).Parts ok := by
  induction p with
  | done a => exact hf a h
  | step s next ih => exact ⟨fun n hs => absurd hs (h.1 n), fun r hr => ih r (h.2 r hr)⟩

theorem unlock {n : Nat} {a : α} : (Cache.unlock n >>= fun _ => Pure.pure a).Parts ok :=
  ⟨fun _ _ _ => ⟨a, rfl⟩, fun _ _ => trivial⟩

end Program.Parts

theorem not_release_of_obeys {E : Estate} {env : Environment} {tools : Invocation → Prop} {s : Step}
    (h : s.Obeys E env tools) (n : Nat) : s ≠ .release n := by
  rintro rfl
  exact h

section Parting

variable {E : Estate} {env : Environment} {e : Engine} {source : String}

theorem Program.Only.parting {tools : Invocation → Prop} {p : Program α} {Q : α → Prop}
    (h : Behaves E env tools Q p) : p.Only (Step.Credible env) (fun s => ∀ n, s ≠ .release n) Q :=
  h.mono fun _ hs => not_release_of_obeys hs

theorem cached_parting : (e.cached id source).Only (Step.Credible env) (fun s => ∀ n, s ≠ .release n)
    fun _ => True :=
  cached_only fun s hs n h => by
    subst h
    exact hs

theorem compile_parts (hE : e.Settled E env) :
    ((e.compile id source).run >>= fun r => pure (Call.Result.compiled r)).Parts (Step.Credible env) := by
  have hperform {s : Step} (hs : ∀ n, s ≠ .release n) : (perform s).Only (Step.Credible env)
      (fun s => ∀ n, s ≠ .release n) fun _ => True := .perform hs fun _ _ => trivial
  have hlock : (e.cache.lock id).run.Only (Step.Credible env) (fun s => ∀ n, s ≠ .release n) fun _ => True := by
    have hcreate : Behaves E env (fun _ => False) (fun _ => True) (createAll e.cache.locksDirectory) :=
      createAll_behaves hE.serves (by decide)
    refine .ofThen hcreate.parting (fun _ _ => ?_) fun _ _ => trivial
    refine .ofThen (hperform (by simp)) (fun _ _ => ?_) fun _ _ => trivial
    exact .ofThen (hperform (by simp)) (fun _ _ => trivial) fun _ _ => trivial
  have hdelete : Behaves E env (fun _ => False) (fun _ => True) (e.cache.delete id).run :=
    delete_behaves hE.serves
  have hbuild : Behaves E env (e.Starts env) (fun _ => True)
      (e.cache.compileModel id source e.translator e.builder).run := compileModel_behaves hE fun _ h => h
  rw [Engine.compile_eq]
  generalize (e.cache.compileModel id source e.translator e.builder).run = p at hbuild
  rw [Engine.approach]
  simp only [LawfulMonad.bind_assoc]
  refine .next cached_parting fun o _ => ?_
  cases o with
  | some hit => trivial
  | none =>
    simp only [LawfulMonad.bind_assoc]
    refine .next hlock fun r _ => ?_
    cases r with
    | error err => trivial
    | ok n =>
      simp only [LawfulMonad.bind_assoc]
      refine .next cached_parting fun o _ => ?_
      cases o with
      | some hit => exact .unlock
      | none =>
        simp only [LawfulMonad.bind_assoc]
        refine .next (hperform (by simp)) fun _ _ => ?_
        refine .next hdelete.parting fun r _ => ?_
        cases r with
        | error err => exact .unlock
        | ok _ =>
          simp only [pure_bind, LawfulMonad.bind_assoc]
          refine .next hbuild.parting fun r _ => ?_
          cases r with
          | error err => exact .unlock
          | ok entry =>
            simp only [Engine.conclude, LawfulMonad.bind_assoc]
            exact .next (hperform (by simp)) fun _ _ => .unlock

end Parting

def Engine.Fails (e : Engine) (env : Environment) (id : ModelIdentity) (p : Program Call.Result) : Prop :=
  ∃ err s, p = .done (.compiled (.error err)) ∧
    err.OfTools ((Path.inDirectory env.directory e.cache.root).joins [".staging", "build_" ++ id.name ++ "_" ++ s])

namespace Estate

theorem not_loose_lockers (E : Estate) : ¬E.loose E.lockers := by
  rintro (⟨s, rest, _, h⟩ | ⟨⟨h, _⟩, _⟩)
  · simp [lockers] at h
  · exact h (List.prefix_append _ _)

theorem Whole.unique {t : Tree} {r r' : Record} (h : E.Whole id r t) (h' : E.Whole id r' t) :
    r'.output = r.output ∧ r'.warnings = r.warnings := by
  have hsame {s a a' : String} (ha : (s, a) ∈ r.texts) (ha' : (s, a') ∈ r'.texts) : a' = a := by
    obtain ⟨_, hget⟩ := h.folder.files _ (List.mem_cons_of_mem _ (List.mem_map_of_mem (f := textFile) ha))
    obtain ⟨_, hget'⟩ := h'.folder.files _ (List.mem_cons_of_mem _ (List.mem_map_of_mem (f := textFile) ha'))
    have hnode := Node.file.inj (Option.some.inj (hget'.symm.trans hget))
    have hbytes : Text.encode a' = Text.encode a := (Content.mk.inj hnode.2.1).1
    have hdecode := congrArg Text.decode? hbytes
    rwa [Text.decode_encode, Text.decode_encode, Option.some.injEq] at hdecode
  constructor
  · exact hsame (s := Cache.buildOutputFile) (by simp [Record.texts, Cache.texts])
      (by simp [Record.texts, Cache.texts])
  · exact hsame (s := Cache.warningsFile) (by simp [Record.texts, Cache.texts])
      (by simp [Record.texts, Cache.texts])

theorem Whole.abides {t t' : Tree} {r : Record} (h : E.Abides t t') (hr : E.Whole id r t) : E.Whole id r t' :=
  h.gains.whole hr

def Answered (E : Estate) (e : Engine) (env : Environment) (id : ModelIdentity) (r : Call.Result) (x : Moment) :
    Prop := ∃ a, r = .compiled a ∧ E.Ended e env id a x

end Estate

namespace Scene

variable {S S' : Scene ι Call.Result} {i j k : ι}

abbrev calls (e : ι → Engine) (source : ι → String) (id : ModelIdentity) : ι → Call :=
  fun i => .compile (e i) id (source i)

variable [DecidableEq ι]

structure Joined (m : Machine) (E : Estate) (e : ι → Engine) (source : ι → String) (id : ModelIdentity)
    (env : Nat → Environment) (S : Scene ι Call.Result) : Prop where
  ordered : S.Ordered E (fun i => (e i).Starts (env (S.process i))) (fun _ => (· = id)) env
  alive : S.down = []
  safe : ∀ i, (Rules.joint m E (env (S.process i)) id).Safe (E.Answered (e i) (env (S.process i)) id)
    (S.program i) (S.moment i)
  parts : ∀ i, (S.program i).Parts (Step.Credible (env (S.process i)))
  lockers : S.files.Spot E.lockers
  ajar : E.Ajar id S.files
  held : ∀ n ∈ S.locked, ∃ i, n ∈ held (S.past i)
  free : (∃ i, CompiledModels.held (S.past i) ≠ []) ∨ E.Vacant id S.files ∨ ∃ r, E.Whole id r S.files
  begun : ∀ i, Underway (S.past i) → CompiledModels.held (S.past i) ≠ [] ∨ ∃ r, E.Whole id r S.files
  unique : ∀ i j, Underway (S.past i) → Underway (S.past j) → i = j
  entry : S.files.get? (E.cache.entry id) = none ∨
    (∃ r, E.Whole id r S.files) ∧ ∃ i, Underway (S.past i)

namespace Joined

variable (h : S.Joined m E e source id env)
include h

theorem all_alive (i : ι) : S.Alive i := by simp [Alive, h.alive]

theorem numbers {n : Nat} (hn : n ∈ CompiledModels.held (S.past i)) : E.Numbers id n S.files := by
  obtain ⟨id', hid, hnum⟩ := h.ordered.locked.keyed i (h.all_alive i) n hn
  exact (show id' = id from hid) ▸ hnum

theorem holder_unique (hi : CompiledModels.held (S.past i) ≠ []) (hj : CompiledModels.held (S.past j) ≠ []) :
    i = j := by
  obtain ⟨n, hn⟩ := List.exists_mem_of_ne_nil _ hi
  obtain ⟨n', hn'⟩ := List.exists_mem_of_ne_nil _ hj
  obtain rfl := (h.numbers hn).unique (h.numbers hn')
  exact h.ordered.locked.exclusive i j (h.all_alive i) (h.all_alive j) n hn hn'

theorem vacant_of_acquire {n : Nat} {next : (Step.acquire n).Reply → Program Call.Result}
    (hp : S.program i = .step (.acquire n) next) (hn : n ∉ S.locked) :
    E.Vacant id S.files ∨ ∃ r, E.Whole id r S.files := by
  have hsafe := h.ordered.courteous i (h.all_alive i)
  rw [hp, Rules.Safe.step_iff] at hsafe
  obtain ⟨⟨_, hpast, hs⟩, -⟩ := hsafe _ rfl (.ok ()) (S.world 0) rfl
  obtain rfl := (List.cons.inj hpast).1
  obtain ⟨-, id', p, hid, hspells, ho⟩ := hs
  obtain rfl : id' = id := hid
  have hnum := h.ordered.locked.opened i (h.all_alive i) id' p n hspells ho
  refine h.free.resolve_left ?_
  rintro ⟨j, hj⟩
  obtain ⟨n', hn'⟩ := List.exists_mem_of_ne_nil _ hj
  obtain rfl := hnum.unique (h.numbers hn')
  exact hn (h.ordered.locked.locked j (h.all_alive j) n hn')

theorem alone (hj : Underway (S.past j)) (hi : CompiledModels.held (S.past i) ≠ [])
    (hnone : S.files.get? (E.cache.entry id) = none) : j = i := by
  rcases h.begun j hj with hheld | ⟨r, hr⟩
  · exact h.holder_unique hheld hi
  · exact absurd hnone hr.present

theorem act {s : Step} {next : s.Reply → Program Call.Result} {r : s.Reply} {w : World}
    (hp : S.program i = .step s next) (hr : s.exec m (S.world (S.process i)) = some (r, w)) :
    (Rules.joint m E (env (S.process i)) id).act (S.world (S.process i)) s r w := by
  refine ⟨hr, ⟨h.ordered.calm.calm _, h.ordered.calm.environment _⟩, ?_⟩
  rintro n rfl
  refine h.vacant_of_acquire hp ?_
  simp only [Step.exec] at hr
  split at hr
  · cases hr
  · assumption

end Joined

section Moving

variable {s : Step} {next : s.Reply → Program Call.Result} {r : s.Reply} {w : World}
  (hm : ∀ i, E.Orderly m ((e i).Starts (env (S.process i)))) (h : S.Joined m E e source id env)
  (hp : S.program i = .step s next) (hr : s.exec m (S.world (S.process i)) = some (r, w))
include hm h hp hr

theorem Joined.locking : E.Locking (env (S.process i)) (calls e source id i).Locks (S.past i)
    (S.world (S.process i)) w ⟨s, r⟩ :=
  h.ordered.locking hm (h.all_alive i) hp hr

theorem Joined.sound_after : E.Sound w.files :=
  ((h.locking hm hp hr).calm (h.ordered.calm.calm _)).1.sound

omit hm in
theorem Joined.keeps : E.Joins id (S.moment i) ((S.moment i).after s r w) ∧
    (Rules.joint m E (env (S.process i)) id).Safe (E.Answered (e i) (env (S.process i)) id) (next r)
      ((S.moment i).after s r w) := by
  have hsafe := h.safe i
  rw [hp, Rules.Safe.step_iff] at hsafe
  exact hsafe _ ((Rules.joint m E _ id).refl _) r w (h.act hp hr)

theorem Joined.unbars : E.Unbars id S.files w.files := by
  by_cases hheld : CompiledModels.held (S.past i) = []
  · exact ((h.keeps hp hr).1.approaches hheld).2
  obtain ⟨n, hn⟩ := List.exists_mem_of_ne_nil _ hheld
  have hafter := (h.locking hm hp hr).numbers (h.numbers hn)
  have hdirectory {t : Tree} (ht : t.WellFormed) (hnum : E.Numbers id n t) :
      t.get? E.lockers = some .directory := by
    obtain ⟨c, x, hget⟩ := hnum
    rw [lock_eq] at hget
    exact ht.get?_parent (by rw [hget]; simp)
  have hd := hdirectory (h.sound_after hm hp hr).cache.wellFormed hafter
  refine ⟨fun _ => .inr hd, fun _ => hd, fun _ target => ?_, fun _ node hnode => ?_⟩
  · simp [hd]
  · obtain ⟨c, x, hget⟩ := hafter
    obtain rfl := Option.some.inj (hget.symm.trans hnode)
    rfl

theorem Joined.beside (q : Program Call.Result) (hj : j ≠ i) :
    E.Beside id (S.moment j) ((S.after i ⟨s, r⟩ q w).moment j) := by
  have hsound := h.sound_after hm hp hr
  have hunbars := h.unbars hm hp hr
  have hkeep := (h.keeps hp hr).1
  have hpast : (S.after i ⟨s, r⟩ q w).past j = S.past j := after_past_ne S _ _ w hj
  have hcalm := h.ordered.calm.put (p := S.process i)
    ((h.locking hm hp hr).calm (h.ordered.calm.calm _)).1
    (((h.locking hm hp hr).calm (h.ordered.calm.calm _)).2.trans (h.ordered.calm.environment _))
  refine ⟨hpast, ?_, fun _ => hsound, fun _ => hsound.cache, hunbars, hkeep.gains,
    fun hheld => (hkeep.approaches ?_).1⟩
  · exact (hcalm.environment _).trans (h.ordered.calm.environment _).symm
  · by_contra hi
    exact hj (h.holder_unique hheld hi)

theorem Joined.whole_of_released (hdone : ¬(e i).Fails (env (S.process i)) id (next r))
    (hx : CompiledModels.held (S.past i) ≠ []) (hy : CompiledModels.held (⟨s, r⟩ :: S.past i) = []) :
    ∃ r, E.Whole id r w.files := by
  have hl := h.locking hm hp hr
  obtain ⟨n, rfl⟩ : ∃ n, s = .release n := by
    cases s with
    | release n => exact ⟨n, rfl⟩
    | acquire n => simp [CompiledModels.held] at hy
    | _ => exact absurd hy hx
  have hparts := h.parts i
  rw [hp] at hparts
  obtain ⟨a, ha⟩ := hparts.1 n rfl r
  have hend := (h.keeps hp hr).2
  rw [ha] at hend hdone
  rw [Rules.Safe.done_iff] at hend
  obtain ⟨a, rfl, hended⟩ := hend _ ((Rules.joint m E _ id).refl _)
  cases a with
  | error err =>
    obtain ⟨s, hs⟩ := hended.tools err rfl
    exact absurd ⟨err, s, rfl, hs⟩ hdone
  | ok c =>
    obtain ⟨r, hwhole, -⟩ := hended.whole c rfl
    exact ⟨r, hwhole⟩

omit hm in
theorem Joined.begun_or (hj : Underway ((S.after i ⟨s, r⟩ (next r) w).past j)) : Underway (S.past j) ∨
    j = i ∧ CompiledModels.held (S.past i) ≠ [] ∧ S.files.get? (E.cache.entry id) = none := by
  by_cases hji : j = i
  · subst hji
    rw [after_past_self] at hj
    exact ((h.keeps hp hr).1.begins hj).imp_right fun hb => ⟨rfl, hb⟩
  · rw [after_past_ne S _ _ w hji] at hj
    exact .inl hj

omit hm in
theorem Joined.whole_after {r' : Record} (hr' : E.Whole id r' S.files) : E.Whole id r' w.files :=
  (h.keeps hp hr).1.gains.whole hr'

omit hm in
theorem Joined.safe_after (hbeside : ∀ j ≠ i, E.Beside id (S.moment j) ((S.after i ⟨s, r⟩ (next r) w).moment j))
    (j : ι) : (Rules.joint m E (env (S.process j)) id).Safe (E.Answered (e j) (env (S.process j)) id)
      ((S.after i ⟨s, r⟩ (next r) w).program j) ((S.after i ⟨s, r⟩ (next r) w).moment j) := by
  by_cases hj : j = i
  · subst hj
    rw [after_program_self, after_moment_self]
    exact (h.keeps hp hr).2
  · rw [after_program_ne S _ _ w hj]
    exact (h.safe j).later (hbeside j hj)

omit hm in
theorem Joined.parts_after (j : ι) :
    ((S.after i ⟨s, r⟩ (next r) w).program j).Parts (Step.Credible (env (S.process j))) := by
  by_cases hj : j = i
  · subst hj
    rw [after_program_self]
    have hparts := h.parts j
    rw [hp] at hparts
    exact hparts.2 r (h.ordered.reply hr)
  · rw [after_program_ne S _ _ w hj]
    exact h.parts j

theorem Joined.held_after {n : Nat} (hn : n ∈ w.locked) :
    ∃ k, n ∈ CompiledModels.held ((S.after i ⟨s, r⟩ (next r) w).past k) := by
  have hself : (S.after i ⟨s, r⟩ (next r) w).past i = ⟨s, r⟩ :: S.past i := after_past_self S i _ _ w
  have hmem : n ∈ CompiledModels.held (⟨s, r⟩ :: S.past i) ∨
      n ∈ S.locked ∧ (n ∈ CompiledModels.held (S.past i) → n ∈ CompiledModels.held (⟨s, r⟩ :: S.past i)) := by
    cases h.locking hm hp hr with
    | other hu hh =>
      have hlocked : w.locked = S.locked := hu.locked
      exact .inr ⟨hlocked ▸ hn, fun hi => hh ▸ hi⟩
    | acquire n' _ hw hh =>
      rw [hw] at hn
      rcases List.mem_cons.mp hn with rfl | hn
      · exact .inl (hh ▸ List.mem_cons_self)
      · exact .inr ⟨hn, fun hi => hh ▸ List.mem_cons_of_mem _ hi⟩
    | release n' _ hw hh =>
      rw [hw] at hn
      obtain ⟨hn, hne⟩ := List.mem_filter.mp hn
      exact .inr ⟨hn, fun hi => hh ▸ List.mem_filter.mpr ⟨hi, hne⟩⟩
  rcases hmem with hmem | ⟨hn, hi⟩
  · exact ⟨i, hself ▸ hmem⟩
  · obtain ⟨k, hk⟩ := h.held n hn
    by_cases hki : k = i
    · subst hki
      exact ⟨k, hself ▸ hi hk⟩
    · exact ⟨k, (after_past_ne S _ _ w hki).symm ▸ hk⟩

theorem Joined.free_after (hdone : ¬(e i).Fails (env (S.process i)) id (next r)) :
    (∃ j, CompiledModels.held ((S.after i ⟨s, r⟩ (next r) w).past j) ≠ []) ∨ E.Vacant id w.files ∨
      ∃ r', E.Whole id r' w.files := by
  by_cases hsome : ∃ j, CompiledModels.held ((S.after i ⟨s, r⟩ (next r) w).past j) ≠ []
  · exact .inl hsome
  push Not at hsome
  by_cases hx : CompiledModels.held (S.past i) = []
  · have habides := ((h.keeps hp hr).1.approaches hx).1
    refine .inr ((h.free.resolve_left ?_).imp (Vacant.abides habides)
      (Exists.imp fun _ => h.whole_after hp hr))
    rintro ⟨j, hj⟩
    by_cases hji : j = i
    · exact hj (hji ▸ hx)
    · exact hj (after_past_ne S _ _ w hji ▸ hsome j)
  · have hi := hsome i
    rw [after_past_self] at hi
    exact .inr (.inr (h.whole_of_released hm hp hr hdone hx hi))

theorem Joined.begun_after (hdone : ¬(e i).Fails (env (S.process i)) id (next r))
    (hj : Underway ((S.after i ⟨s, r⟩ (next r) w).past j)) :
    CompiledModels.held ((S.after i ⟨s, r⟩ (next r) w).past j) ≠ [] ∨ ∃ r', E.Whole id r' w.files := by
  have hlast (hx : CompiledModels.held (S.past i) ≠ []) :
      CompiledModels.held ((S.after i ⟨s, r⟩ (next r) w).past i) ≠ [] ∨ ∃ r', E.Whole id r' w.files := by
    rw [after_past_self]
    by_cases hy : CompiledModels.held (⟨s, r⟩ :: S.past i) = []
    · exact .inr (h.whole_of_released hm hp hr hdone hx hy)
    · exact .inl hy
  rcases h.begun_or hp hr hj with hj | ⟨rfl, hx, -⟩
  · rcases h.begun j hj with hheld | ⟨r', hr'⟩
    · by_cases hji : j = i
      · subst hji
        exact hlast hheld
      · exact .inl ((after_past_ne S _ _ w hji).symm ▸ hheld)
    · exact .inr ⟨r', h.whole_after hp hr hr'⟩
  · exact hlast hx

omit hm in
theorem Joined.unique_after (hj : Underway ((S.after i ⟨s, r⟩ (next r) w).past j))
    (hk : Underway ((S.after i ⟨s, r⟩ (next r) w).past k)) : j = k := by
  rcases h.begun_or hp hr hj with hj' | ⟨hji, hx, hnone⟩ <;>
    rcases h.begun_or hp hr hk with hk' | ⟨hki, hx', hnone'⟩
  · exact h.unique j k hj' hk'
  · exact (h.alone hj' hx' hnone').trans hki.symm
  · exact hji.trans (h.alone hk' hx hnone).symm
  · exact hji.trans hki.symm

omit hm in
theorem Joined.entry_after : w.files.get? (E.cache.entry id) = none ∨
    (∃ r', E.Whole id r' w.files) ∧ ∃ k, Underway ((S.after i ⟨s, r⟩ (next r) w).past k) := by
  have hbegun {k : ι} (hk : Underway (S.past k)) : Underway ((S.after i ⟨s, r⟩ (next r) w).past k) := by
    by_cases hki : k = i
    · subst hki
      rw [after_past_self]
      exact hk.cons _
    · rwa [after_past_ne S _ _ w hki]
  have hkeep := (h.keeps hp hr).1
  by_cases hnone : w.files.get? (E.cache.entry id) = none
  · exact .inl hnone
  rcases h.entry with hbefore | ⟨⟨r', hr'⟩, k, hk⟩
  · rcases hkeep.gains with hsame | ⟨-, r', hr'⟩
    · have hroot := hsame []
      rw [List.append_nil] at hroot
      exact absurd (hroot.trans hbefore) hnone
    · exact .inr ⟨⟨r', hr'⟩, i, hbegun (hkeep.builds r' hbefore hr')⟩
  · exact .inr ⟨⟨r', h.whole_after hp hr hr'⟩, k, hbegun hk⟩

theorem Joined.step (hdone : ¬(e i).Fails (env (S.process i)) id (next r)) :
    (S.after i ⟨s, r⟩ (next r) w).Joined m E e source id env where
  ordered := h.ordered.step hm (h.all_alive i) hp hr
  alive := h.alive
  safe := h.safe_after hp hr fun _ hj => h.beside hm hp hr (next r) hj
  parts := h.parts_after hp hr
  lockers := (h.unbars hm hp hr).spot h.lockers
  ajar := (h.unbars hm hp hr).ajar h.ajar
  held _ hn := h.held_after hm hp hr hn
  free := h.free_after hm hp hr hdone
  begun _ hj := h.begun_after hm hp hr hdone hj
  unique _ _ hj hk := h.unique_after hp hr hj hk
  entry := h.entry_after hp hr

end Moving

theorem Joined.pass (hm : ∀ i, E.Orderly m ((e i).Starts (env (S.process i)))) (h : S.Joined m E e source id env)
    (p t : Nat) : (S.put p ((S.world p).advanceTo t)).Joined m E e source id env := by
  have hd : E.Drifts (S.world p) ((S.world p).advanceTo t) :=
    .of_custom (Custom.advanceTo_drifts (h.ordered.calm.calm p).custom t)
  have habides : E.Abides S.files ((S.world p).advanceTo t).files := hd.files.abides
  have hlocked : ((S.world p).advanceTo t).locked = S.locked := hd.locked
  have hordered := h.ordered.moves hm (.pass p t)
  have hunbars : E.Unbars id S.files ((S.world p).advanceTo t).files :=
    .of_get? (hd.files.kept _ E.not_loose_lockers) (hd.files.kept _ (E.not_loose_lock id))
  have hwhole {r : Record} (hr : E.Whole id r S.files) : E.Whole id r ((S.world p).advanceTo t).files :=
    hr.abides habides
  have hentry := habides.kept _ (E.still_entry id [])
  rw [List.append_nil] at hentry
  refine ⟨hordered, h.alive, fun j => (h.safe j).later ⟨rfl, ?_, fun _ => ?_, fun _ => ?_, hunbars, habides.gains,
    fun _ => habides⟩, h.parts, hunbars.spot h.lockers, hunbars.ajar h.ajar, fun n hn => h.held n ?_,
    h.free.imp_right (Or.imp (Vacant.abides habides) (Exists.imp fun _ => hwhole)),
    fun j hj => (h.begun j hj).imp_right (Exists.imp fun _ => hwhole), h.unique, ?_⟩
  · exact (hordered.calm.environment _).trans (h.ordered.calm.environment _).symm
  · exact (hordered.calm.calm 0).sound
  · exact (hordered.calm.calm 0).sound.cache
  · rwa [put_locked, hlocked] at hn
  · exact h.entry.imp hentry.trans (And.imp_left (Exists.imp fun _ => hwhole))

end Scene

namespace Estate

variable {S S' : Scene ι Call.Result} [DecidableEq ι]

/-- Callers that are about to compile the same model: there is no entry, and nothing is in the way of
making one. -/
structure Gathers (E : Estate) (e : ι → Engine) (id : ModelIdentity) (S : Scene ι Call.Result) : Prop where
  vacant : E.Vacant id S.files
  lockers : S.files.Spot E.lockers
  ajar : E.Ajar id S.files
  roomy : ∀ i, (e i).cache.Roomy (S.worlds (S.process i)).environment id

omit [DecidableEq ι] in
theorem Gathers.joined [DecidableEq ι] (h : E.Gathers e id S) (hS : E.Hosts m S (Scene.calls e source id)) :
    S.Joined m E e source id fun p => (S.worlds p).environment := by
  have hpast (i : ι) : S.past i = [] := by simp [Scene.past, hS.opens.history]
  have hnone {i : ι} : ¬Underway (S.past i) := by
    rintro ⟨t, ht, -⟩
    simp [hpast] at ht
  have hcomes (i : ι) : E.Comes (e i).cache (S.worlds (S.process i)).environment id (S.moment i) := by
    refine ⟨⟨hS.sound, rfl, h.lockers, h.ajar, .inl h.vacant.absent, ?_, hnone⟩, ?_⟩
    · rintro ⟨a, ha⟩
      simp [hpast] at ha
    · simp [hpast, held]
  refine ⟨(hS.ordered .refl).1, hS.opens.down, fun i => ?_, fun i => ?_, h.lockers, h.ajar, fun n hn => ?_, .inr (.inl h.vacant),
    fun i hi => absurd hi hnone, fun i _ hi => absurd hi hnone, .inl h.vacant.absent⟩
  · rw [hS.opens.program]
    refine (compile_joint (hS.settled i) (h.roomy i) (hS.orderly i) (hcomes i)).next fun r y hy => ?_
    exact .pure fun z hz => ⟨r, rfl, Ended.stable (m := m) y z hz hy⟩
  · rw [hS.opens.program]
    exact compile_parts (hS.settled i)
  · simp [hS.opens.locked] at hn

theorem Gathers.reaches (h : E.Gathers e id S) (hS : E.Hosts m S (Scene.calls e source id))
    (hr : S.Reaches m S') (hdown : S'.down = [])
    (hdone : ∀ i, ¬(e i).Fails (S.worlds (S.process i)).environment id (S'.program i)) :
    S'.Joined m E e source id fun p => (S.worlds p).environment := by
  induction hr with
  | refl => exact h.joined hS
  | @tail T T' hT hmoves ih =>
    have hprocess := (hS.ordered hT).2
    have hm (i : ι) : E.Orderly m ((e i).Starts (S.worlds (T.process i)).environment) :=
      hprocess ▸ hS.orderly i
    cases hmoves with
    | @step i s next r w hi hp hr =>
      have hdone' : ∀ j, ¬(e j).Fails (S.worlds (S.process j)).environment id (T.program j) := by
        intro j hj
        by_cases hji : j = i
        · obtain ⟨err, s, hend, -⟩ := hj
          rw [hji, hp] at hend
          cases hend
        · exact hdone j ((Scene.after_program_ne T _ _ w hji).symm ▸ hj)
      have hlast := hdone i
      rw [Scene.after_program_self] at hlast
      exact (ih hdown hdone').step hm hp hr (hprocess ▸ hlast)
    | pass p t => exact (ih hdown hdone).pass hm p t
    | crash p hl => cases hdown

end Estate

namespace Scene

variable {S S' : Scene ι Call.Result} {i j : ι}

def AtRest (S : Scene ι Call.Result) : Prop := ∀ i, (∃ a, S.program i = .done a) ∨
  ∃ n next, S.program i = .step (.acquire n) next ∧ n ∈ S.locked

variable [DecidableEq ι]

theorem Joined.done (h : S.Joined m E e source id env) (hrest : S.AtRest) (i : ι) :
    ∃ a, S.program i = .done a := by
  have hfree {j : ι} {n : Nat} (hn : n ∈ CompiledModels.held (S.past j)) : False := by
    rcases hrest j with ⟨a, ha⟩ | ⟨n', next, hp, -⟩
    · have hsafe := h.safe j
      rw [ha, Rules.Safe.done_iff] at hsafe
      obtain ⟨_, -, hended⟩ := hsafe _ ((Rules.joint m E _ id).refl _)
      have hheld := hended.held
      rw [moment_past] at hheld
      simp [hheld] at hn
    · have hsafe := h.ordered.courteous j (h.all_alive j)
      rw [hp, Rules.Safe.step_iff] at hsafe
      obtain ⟨⟨_, hpast, hs⟩, -⟩ := hsafe _ rfl (.ok ()) (S.world 0) rfl
      obtain rfl := (List.cons.inj hpast).1
      have hheld := hs.1
      rw [moment_past] at hheld
      simp [hheld] at hn
  rcases hrest i with hdone | ⟨n, next, -, hn⟩
  · exact hdone
  · obtain ⟨j, hj⟩ := h.held n hn
    exact (hfree hj).elim

def Answers (S : Scene ι Call.Result) (i : ι) (c : Compiled) : Prop := S.program i = .done (.compiled (.ok c))

omit [DecidableEq ι] in
theorem launches [DecidableEq ι] (hS : S.Opens fun i => (calls e source id i).program) (hr : S.Reaches m S')
    {c : Compiled} (hc : S'.Answers i c) : (e i).Launches id (.ok c) (launched (S'.past i)) := by
  have hran := hS.ran hr i
  rw [hc] at hran
  have hsafe : Rules.launching.Safe (fun r y => ∀ a, r = Call.Result.compiled a →
      (e i).Launches id a (launched y.past)) (calls e source id i).program ⟨S.world 0, []⟩ := by
    refine (compile_launching (x := ⟨S.world 0, []⟩) rfl).next fun r y hy => .pure fun z hz a ha => ?_
    obtain rfl := Call.Result.compiled.inj ha
    rw [show z.past = y.past from hz]
    exact hy
  have hdone := Rules.Safe.done_iff.1 (hsafe.ran hran fun _ _ => trivial) _ rfl (.ok c) rfl
  simpa using hdone

/-- What has come of callers that have compiled the same model: one has built it. -/
structure Single (e : ι → Engine) (id : ModelIdentity) (S : Scene ι Call.Result) (i : ι) (c : Compiled) :
    Prop where
  answers : S.Answers i c
  cached : c.cached = false
  builds : (e i).Builds id (launched (S.past i))
  others : ∀ j, j ≠ i → ∃ c', S.Answers j c' ∧ c'.cached = true ∧
    (c'.diagnostics = c.diagnostics ∧ c'.warnings = c.warnings) ∧ launched (S.past j) = []

theorem exists_single [Nonempty ι] (hS : E.Hosts m S (calls e source id)) (hg : E.Gathers e id S)
    (hr : S.Reaches m S') (hdown : S'.down = []) (hrest : S'.AtRest)
    (hdone : ∀ i, ¬(e i).Fails (S.worlds (S.process i)).environment id (S'.program i)) :
    ∃ i c, S'.Single e id i c := by
  have h := hg.reaches hS hr hdown hdone
  have hprocess := (hS.ordered hr).2
  have hend (i : ι) : ∃ c r, S'.Answers i c ∧ E.Whole id r S'.files ∧
      (c.diagnostics = r.output ∧ c.warnings = r.warnings) ∧ (c.cached = false ↔ Underway (S'.past i)) := by
    obtain ⟨a, ha⟩ := h.done hrest i
    have hsafe := h.safe i
    rw [ha, Rules.Safe.done_iff] at hsafe
    obtain ⟨a, rfl, hended⟩ := hsafe _ ((Rules.joint m E _ id).refl _)
    cases a with
    | error err =>
      obtain ⟨s, hs⟩ := hended.tools err rfl
      exact absurd ⟨err, s, ha, hprocess ▸ hs⟩ (hdone i)
    | ok c =>
      obtain ⟨r, hwhole, htexts, hcached⟩ := hended.whole c rfl
      exact ⟨c, r, ha, hwhole, htexts, hcached⟩
  obtain ⟨i₀⟩ := ‹Nonempty ι›
  obtain ⟨-, r₀, -, hr₀, -⟩ := hend i₀
  obtain ⟨-, i, hi⟩ := h.entry.resolve_left hr₀.present
  obtain ⟨c, r, hc, hwhole, htexts, hcached⟩ := hend i
  have hfalse := hcached.mpr hi
  have hbuilds := launches hS.opens hr hc
  rw [Engine.Launches, hfalse] at hbuilds
  refine ⟨i, c, hc, hfalse, by simpa using hbuilds, fun j hj => ?_⟩
  obtain ⟨c', r', hc', hwhole', htexts', hcached'⟩ := hend j
  have htrue : c'.cached = true := by
    cases hb : c'.cached with
    | true => rfl
    | false => exact absurd (h.unique j i (hcached'.mp hb) hi) hj
  have hnone := launches hS.opens hr hc'
  rw [Engine.Launches, htrue] at hnone
  obtain ⟨hout, hwarn⟩ := hwhole.unique hwhole'
  refine ⟨c', hc', htrue, ⟨?_, ?_⟩, by simpa using hnone⟩
  · rw [htexts'.1, htexts.1, hout]
  · rw [htexts'.2, htexts.2, hwarn]

end Scene

/-- However callers are interleaved at most one builds the module of an identity at a time. If all of them
compile the same model, with no entry at first and no failure of a tool, then one builds it and the others
answer what it has built. -/
theorem Scene.compiles_exclude_and_build_once {S S' : Scene ι Call.Result} [DecidableEq ι] {call : ι → Call}
    (hS : E.Hosts m S call) (hr : S.Reaches m S') :
    (∀ i j id, S'.Alive i → S'.Alive j → S'.Compiling call i id → S'.Compiling call j id → i = j) ∧
    ∀ (e : ι → Engine) (source : ι → String) (id : ModelIdentity), Nonempty ι → call = calls e source id →
      E.Gathers e id S → S'.down = [] → S'.AtRest →
      (∀ i, ¬(e i).Fails (S.worlds (S.process i)).environment id (S'.program i)) →
      ∃ i c, S'.Single e id i c := by
  refine ⟨fun i j id hi hj hci hcj => compiling_unique hS hr hi hj hci hcj, ?_⟩
  rintro e source id hne rfl hg hdown hrest hdone
  exact exists_single hS hg hr hdown hrest hdone

def Scene.twice : Scene Bool Call.Result :=
  ⟨World.bare.files, [], fun _ => .bare, fun _ => 0,
    fun i => (calls (fun _ => .plain) (fun i => if i then "other" else "") .small i).program, [], []⟩

theorem Scene.twice_hosts : Estate.small.Hosts .building twice
    (calls (fun _ => .plain) (fun i => if i then "other" else "") .small) :=
  ⟨⟨fun _ => rfl, rfl, rfl, rfl⟩, World.bare_calm.sound, fun _ => World.bare_calm.tame,
    fun _ => Engine.plain_settled, fun _ => Machine.building_orderly _⟩

theorem Scene.twice_gathers : Estate.small.Gathers (fun _ : Bool => .plain) .small twice := by
  have hnone {rest : Location} (hr : rest ≠ []) : World.bare.files.get? (["c"] ++ rest) = none :=
    World.bare_calm.sound.cache.wellFormed.get?_below_empty (by decide) hr
  have hlock : World.bare.files.get? (Estate.small.lock .small) = none := hnone (by simp)
  have hroomy : Engine.plain.cache.Roomy World.bare.environment .small :=
    ⟨by decide +kernel, by decide +kernel, by decide +kernel⟩
  refine ⟨⟨hnone (by simp), .inl (hnone (by simp)), .inl (hnone (by simp)), fun s => ⟨hnone (by simp),
    hnone (by simp)⟩⟩, .inl (hnone (by simp)), fun n hn => ?_, fun _ => hroomy⟩
  cases hlock.symm.trans hn

/-- One caller builds the model, the other finds it. -/
theorem Scene.twice_builds_once : ∃ S', twice.Reaches .building S' ∧ S'.down = [] ∧ S'.AtRest ∧
    ∃ i c, S'.Single (fun _ => .plain) .small i c := by
  obtain ⟨⟨r, y⟩, htrack, hok⟩ := (Option.any_eq_true _ _).mp
    (show ((Engine.plain.compile .small "").run.track .building ⟨.bare, []⟩).any (fun o =>
      o.1.toOption.isSome) = true by decide +kernel)
  obtain ⟨c, rfl⟩ : ∃ c, r = .ok c := by
    cases r with
    | ok c => exact ⟨c, rfl⟩
    | error err => simp [Except.toOption] at hok
  have hends := Ends.of_track htrack
  have hfirst : (Call.compile .plain .small "").program.Ends (Step.answers .building) ⟨.bare, []⟩
      (.compiled (.ok c)) y := Ends.bind_iff.mpr ⟨_, _, hends, .refl _ _⟩
  obtain ⟨S, hS, ⟨hfalse, hmoment⟩, ⟨hprocess, hdown⟩, hothers⟩ :=
    reaches_of_steps hfirst (S := twice) (i := false) rfl rfl (by simp [Alive, twice])
  obtain ⟨-, hit, -⟩ := compile_ok (Machine.building_orderly _) Engine.plain_settled (fun _ hi => hi)
    World.bare_calm hends.run_of
  obtain ⟨events, hrun⟩ := compile_hit (m := .building) hit "other"
  obtain ⟨taken, hends'⟩ := Program.Steps.of_run hrun []
  have hsecond : (Call.compile .plain .small "other").program.Ends (Step.answers .building) ⟨y.world, []⟩
      (.compiled (.ok ⟨c.diagnostics, c.warnings, true⟩)) _ := Ends.bind_iff.mpr ⟨_, _, hends', .refl _ _⟩
  have hx : S.moment true = ⟨y.world, []⟩ := by
    have hw : S.world (S.process false) = y.world := congrArg Moment.world hmoment
    have hp : S.past true = [] := (hothers true (by simp)).2
    rw [moment, hp, hprocess]
    rw [hprocess] at hw
    exact congrArg (Moment.mk · []) hw
  obtain ⟨S', hS', ⟨htrue, -⟩, ⟨-, hdown'⟩, hothers'⟩ :=
    reaches_of_steps hsecond (hothers true (by simp)).1 hx (by simp [Alive, hdown, twice])
  have hend (i : Bool) : ∃ c, S'.program i = .done (.compiled (.ok c)) := by
    cases i with
    | false => exact ⟨c, (hothers' false (by simp)).1.trans hfalse⟩
    | true => exact ⟨_, htrue⟩
  have hrest : S'.AtRest := fun i => .inl ⟨_, (hend i).choose_spec⟩
  have hreach : twice.Reaches .building S' := hS.trans hS'
  refine ⟨S', hreach, hdown'.trans hdown, hrest, (compiles_exclude_and_build_once twice_hosts hreach).2 _ _ _
    ⟨true⟩ rfl twice_gathers (hdown'.trans hdown) hrest fun i => ?_⟩
  rintro ⟨err, s, hfail, -⟩
  rw [(hend i).choose_spec] at hfail
  cases hfail

end CompiledModels
