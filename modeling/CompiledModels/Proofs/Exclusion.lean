import CompiledModels.Proofs.Courtesy

/-!
At most one caller builds the module of an identity at any time.
-/

namespace CompiledModels

open Files

namespace Call

def engine : Call → Engine
  | compile e _ _ | delete e _ | clear e => e

def Locks : Call → ModelIdentity → Prop
  | compile _ id _, other => other = id
  | _, _ => False

end Call

namespace Estate

variable {E : Estate} {m : Machine} {s : Step} {w w' : World} {env : Environment}
  {tools : Invocation → Prop} {ids : ModelIdentity → Prop} {past : List Taken}

def Numbers (E : Estate) (id : ModelIdentity) (n : Nat) (t : Tree) : Prop :=
  ∃ c x, t.get? (E.lock id) = some (.file n c x)

theorem Numbers.unique {t : Tree} {id : ModelIdentity} {n n' : Nat} (h : E.Numbers id n t)
    (h' : E.Numbers id n' t) : n = n' := by
  obtain ⟨c, x, h⟩ := h
  obtain ⟨c', x', h'⟩ := h'
  exact (Node.file.inj (Option.some.inj (h.symm.trans h'))).1

theorem Numbers.upholds {id : ModelIdentity} {n : Nat} (h : E.Upholds w w')
    (hn : E.Numbers id n w.files) : E.Numbers id n w'.files := by
  obtain ⟨c, x, hn⟩ := hn
  exact h.numbers id n c x hn

theorem openLockFile_upholds {p : Path} {l : Location} {r : Except FileError Nat} (hw : E.Calm w)
    (hl : E.Spells w.environment.location p l) (h : (Step.openLockFile p).exec m w = some (r, w')) :
    E.Upholds w w' ∧ ∀ n, r = .ok n → ∃ c x, w'.files.get? l = some (.file n c x) := by
  simp only [Step.exec] at h
  split at h
  case h_1 n t ht =>
    simp only [Option.some.injEq, Prod.mk.injEq] at h
    obtain ⟨rfl, rfl⟩ := h
    obtain ⟨hs, hg⟩ := openOrCreate_shifts hw.sound hl ht
    refine ⟨.shifts hw hs, ?_⟩
    rintro n ⟨⟩
    exact hg
  case h_2 e he =>
    simp only [Option.some.injEq, Prod.mk.injEq] at h
    obtain ⟨rfl, rfl⟩ := h
    exact ⟨.drifts hw (.of_eq hw rfl rfl rfl rfl), by simp⟩

inductive Locking (E : Estate) (env : Environment) (ids : ModelIdentity → Prop) (past : List Taken)
    (w w' : World) (t : Taken) : Prop
  | other (h : E.Upholds w w') (hh : held (t :: past) = held past)
  | acquire (n : Nat) (hn : n ∉ w.locked) (hw : w' = { w with locked := n :: w.locked })
      (hh : held (t :: past) = n :: held past) {id : ModelIdentity} {p : Path} (hid : ids id)
      (hp : E.Spells env.location p (E.lock id)) (ho : ⟨.openLockFile p, .ok n⟩ ∈ past)
  | release (n : Nat) (hn : n ∈ held past) (hw : w' = { w with locked := w.locked.filter (· ≠ n) })
      (hh : held (t :: past) = (held past).filter (· ≠ n))

theorem courteous_locking {r : s.Reply} (hm : E.Orderly m tools) (hw : E.Calm w)
    (he : w.environment = env) (hs : s.Courteous E env tools ids past)
    (h : s.exec m w = some (r, w')) : E.Locking env ids past w w' ⟨s, r⟩ := by
  cases s with
  | openLockFile p =>
    obtain ⟨id, _, hp⟩ := hs
    exact .other (openLockFile_upholds hw (he ▸ hp) h).1 rfl
  | acquire n =>
    obtain ⟨-, id, p, hid, hp, ho⟩ := hs
    simp only [Step.exec] at h
    split at h
    · simp at h
    · exact .acquire n ‹_› (Prod.mk.inj (Option.some.inj h)).2.symm rfl hid hp ho
  | release n => exact .release n hs (Prod.mk.inj (Option.some.inj h)).2.symm rfl
  | invalidate | getOrLoad | enter | leave =>
    exact .other (.drifts hw (idle_drifts rfl hw (by simp) h)) rfl
  | newRegistry => exact hs.elim
  | _ =>
    have hs := obeys_of_courteous hs (by simp) (by simp) (by simp) rfl
    exact .other (obeys_upholds hm hw he hs h) (held_of_obeys hs)

theorem Locking.numbers {id : ModelIdentity} {n : Nat} {t : Taken} (h : E.Locking env ids past w w' t)
    (hn : E.Numbers id n w.files) : E.Numbers id n w'.files := by
  cases h with
  | other h _ => exact hn.upholds h
  | acquire _ _ hw => exact hw ▸ hn
  | release _ _ hw => exact hw ▸ hn

theorem Locking.calm {t : Taken} (h : E.Locking env ids past w w' t) (hw : E.Calm w) :
    E.Calm w' ∧ w'.environment = w.environment := by
  cases h with
  | other h _ => exact ⟨h.calm, h.environment⟩
  | acquire _ _ he => exact he ▸ ⟨⟨hw.sound, hw.tame⟩, rfl⟩
  | release _ _ he => exact he ▸ ⟨⟨hw.sound, hw.tame⟩, rfl⟩

/-- The callers work on the cache of an estate, and the programs that they start keep to what they
may change. -/
structure Hosts {ι : Type} (E : Estate) (m : Machine) (S : Scene ι Call.Result) (call : ι → Call) :
    Prop where
  opens : S.Opens fun i => (call i).program
  sound : E.Sound S.files
  tame : ∀ p, ∀ c ∈ (S.worlds p).children, E.Tame c.activity
  settled : ∀ i, (call i).engine.Settled E (S.worlds (S.process i)).environment
  orderly : ∀ i, E.Orderly m ((call i).engine.Starts (S.worlds (S.process i)).environment)

end Estate

namespace Scene

variable {ι ρ : Type} [DecidableEq ι] {E : Estate} {m : Machine} {S S' : Scene ι ρ} {i j : ι}
  {tools : ι → Invocation → Prop} {ids : ι → ModelIdentity → Prop} {env : Nat → Environment}
  {id : ModelIdentity}

structure Calm (E : Estate) (env : Nat → Environment) (S : Scene ι ρ) : Prop where
  calm : ∀ p, E.Calm (S.world p)
  environment : ∀ p, (S.world p).environment = env p

omit [DecidableEq ι] in
theorem Calm.put {p : Nat} {w : World} (h : S.Calm E env) (hw : E.Calm w)
    (he : w.environment = env p) : (S.put p w).Calm E env := by
  refine ⟨fun q => ?_, fun q => ?_⟩ <;> by_cases hq : q = p
  · subst hq
    simpa using hw
  · rw [put_world_ne S w hq]
    exact ⟨hw.sound, (h.calm q).tame⟩
  · subst hq
    simpa using he
  · rw [put_world_ne S w hq]
    exact h.environment q

structure Locked (E : Estate) (ids : ι → ModelIdentity → Prop) (env : Nat → Environment)
    (S : Scene ι ρ) : Prop where
  opened : ∀ i, S.Alive i → ∀ id p n, E.Spells (env (S.process i)).location p (E.lock id) →
    ⟨.openLockFile p, .ok n⟩ ∈ S.past i → E.Numbers id n S.files
  keyed : ∀ i, S.Alive i → ∀ n ∈ held (S.past i), ∃ id, ids i id ∧ E.Numbers id n S.files
  exclusive : ∀ i j, S.Alive i → S.Alive j → ∀ n ∈ held (S.past i), n ∈ held (S.past j) → i = j
  locked : ∀ i, S.Alive i → ∀ n ∈ held (S.past i), n ∈ S.locked

structure Ordered (E : Estate) (tools : ι → Invocation → Prop) (ids : ι → ModelIdentity → Prop)
    (env : Nat → Environment) (S : Scene ι ρ) : Prop where
  calm : S.Calm E env
  locked : S.Locked E ids env
  credible : ∀ i, S.Alive i → ∀ t ∈ S.past i, t.step.Credible (env (S.process i)) t.reply
  courteous : ∀ i, S.Alive i → (Rules.courteous E (env (S.process i)) (tools i) (ids i)).Safe
    (fun _ _ => True) (S.program i) (S.moment i)

section Moving

variable {t : Taken} {q : Program ρ} {w : World} (h : S.Locked E ids env) (hi : S.Alive i)
  (hl : E.Locking (env (S.process i)) (ids i) (S.past i) (S.world (S.process i)) w t)
include h hi hl

theorem Locked.opened_after (ho : ∀ p n, t = ⟨.openLockFile p, .ok n⟩ → ∀ id,
      E.Spells (env (S.process i)).location p (E.lock id) → E.Numbers id n w.files) {k : ι}
    (hk : S.Alive k) {p : Path} {n : Nat} (hp : E.Spells (env (S.process k)).location p (E.lock id))
    (hn : ⟨.openLockFile p, .ok n⟩ ∈ (S.after i t q w).past k) : E.Numbers id n w.files := by
  by_cases he : k = i
  · subst he
    rw [after_past_self] at hn
    rcases List.mem_cons.mp hn with hn | hn
    · exact ho p n hn.symm id hp
    · exact hl.numbers (h.opened k hk id p n hp hn)
  · rw [after_past_ne S t q w he] at hn
    exact hl.numbers (h.opened k hk id p n hp hn)

theorem Locked.keyed_after {k : ι} (hk : S.Alive k) {n : Nat}
    (hn : n ∈ held ((S.after i t q w).past k)) :
    ∃ id, ids k id ∧ E.Numbers id n w.files := by
  have hold (hn : n ∈ held (S.past k)) : ∃ id, ids k id ∧ E.Numbers id n w.files := by
    obtain ⟨id, hid, hnum⟩ := h.keyed k hk n hn
    exact ⟨id, hid, hl.numbers hnum⟩
  by_cases he : k = i
  · subst he
    rw [after_past_self] at hn
    cases hl with
    | other _ hh => exact hold (hh ▸ hn)
    | release _ _ _ hh => exact hold (List.mem_of_mem_filter (hh ▸ hn))
    | acquire n' _ hw hh hid hp ho =>
      rw [hh] at hn
      rcases List.mem_cons.mp hn with rfl | hn
      · exact ⟨_, hid, hw ▸ h.opened k hk _ _ _ hp ho⟩
      · exact hold hn
  · rw [after_past_ne S t q w he] at hn
    exact hold hn

theorem Locked.others {k : ι} (hk : S.Alive k) (he : k ≠ i) {n : Nat} (hn : n ∈ held (S.past k)) :
    n ∈ w.locked ∧ n ∉ held (t :: S.past i) := by
  have hloc := h.locked k hk n hn
  have hout : n ∉ held (S.past i) := fun hn' => he (h.exclusive k i hk hi n hn hn')
  cases hl with
  | other hw hh => exact ⟨hw.locked ▸ hloc, hh ▸ hout⟩
  | acquire n' hn' hw hh =>
    rw [hw, hh]
    refine ⟨List.mem_cons_of_mem _ hloc, fun hm => ?_⟩
    rcases List.mem_cons.mp hm with rfl | hm
    · exact hn' hloc
    · exact hout hm
  | release n' hn' hw hh =>
    rw [hw, hh]
    refine ⟨List.mem_filter.mpr ⟨hloc, ?_⟩, fun hm => hout (List.mem_of_mem_filter hm)⟩
    rw [decide_eq_true_eq]
    rintro rfl
    exact hout hn'

theorem Locked.own {n : Nat} (hn : n ∈ held (t :: S.past i)) : n ∈ w.locked := by
  cases hl with
  | other hw hh => exact hw.locked ▸ h.locked i hi n (hh ▸ hn)
  | acquire n' _ hw hh =>
    rw [hw]
    rcases List.mem_cons.mp (hh ▸ hn) with rfl | hn
    · exact List.mem_cons_self
    · exact List.mem_cons_of_mem _ (h.locked i hi n hn)
  | release n' _ hw hh =>
    rw [hh, List.mem_filter] at hn
    rw [hw]
    exact List.mem_filter.mpr ⟨h.locked i hi n hn.1, hn.2⟩

theorem Locked.step (ho : ∀ p n, t = ⟨.openLockFile p, .ok n⟩ → ∀ id,
      E.Spells (env (S.process i)).location p (E.lock id) → E.Numbers id n w.files) :
    (S.after i t q w).Locked E ids env := by
  refine ⟨fun k hk id p n => h.opened_after hi hl ho hk, fun k hk n => h.keyed_after hi hl hk,
    fun j k hj hk n hn hn' => ?_, fun k hk n hn => ?_⟩
  · by_cases hji : j = i <;> by_cases hki : k = i
    · exact hji.trans hki.symm
    · subst hji
      rw [after_past_self] at hn
      rw [after_past_ne S t q w hki] at hn'
      exact absurd hn (h.others hi hl hk hki hn').2
    · subst hki
      rw [after_past_self] at hn'
      rw [after_past_ne S t q w hji] at hn
      exact absurd hn' (h.others hi hl hj hji hn).2
    · rw [after_past_ne S t q w hji] at hn
      rw [after_past_ne S t q w hki] at hn'
      exact h.exclusive j k hj hk n hn hn'
  · by_cases he : k = i
    · subst he
      rw [after_past_self] at hn
      exact h.own hi hl hn
    · rw [after_past_ne S t q w he] at hn
      exact (h.others hi hl hk he hn).1

end Moving

omit [DecidableEq ι] in
theorem Calm.drifts {p : Nat} {w : World} (h : S.Calm E env) (hd : E.Drifts (S.world p) w) :
    (S.put p w).Calm E env ∧ E.Upholds (S.world p) w := by
  have hu := Estate.Upholds.drifts (h.calm p) hd
  exact ⟨h.put hu.calm (hu.environment.trans (h.environment p)), hu⟩

section Stepping

variable {s : Step} {next : s.Reply → Program ρ} {r : s.Reply} {w : World}
  (hm : ∀ i, E.Orderly m (tools i)) (h : S.Ordered E tools ids env)
  (hi : S.Alive i) (hp : S.program i = .step s next) (hr : s.exec m (S.world (S.process i)) = some (r, w))
include h hr

theorem Ordered.reply : s.Credible (env (S.process i)) r :=
  h.calm.environment (S.process i) ▸ credible_of_exec (h.calm.calm _).sound.cache.wellFormed hr

include hm hi hp

theorem Ordered.locking :
    E.Locking (env (S.process i)) (ids i) (S.past i) (S.world (S.process i)) w ⟨s, r⟩ := by
  have hsafe := h.courteous i hi
  rw [hp, Rules.Safe.step_iff] at hsafe
  obtain ⟨⟨_, hpast, hs⟩, -⟩ := hsafe _ rfl r w (h.reply hr)
  obtain rfl := (List.cons.inj hpast).1
  exact Estate.courteous_locking (hm i) (h.calm.calm _) (h.calm.environment _) hs hr

theorem Ordered.step : (S.after i ⟨s, r⟩ (next r) w).Ordered E tools ids env := by
  have hcalm := h.calm.calm (S.process i)
  have henv := h.calm.environment (S.process i)
  have hcredible := h.reply hr
  have hl := h.locking hm hi hp hr
  have hsafe := h.courteous i hi
  rw [hp, Rules.Safe.step_iff] at hsafe
  obtain ⟨⟨_, hpast, hs⟩, hnext⟩ := hsafe _ rfl r w hcredible
  obtain rfl := (List.cons.inj hpast).1
  refine ⟨?_, h.locked.step hi hl ?_, fun k hk t ht => ?_, fun k hk => ?_⟩
  · have hput := h.calm.put (hl.calm hcalm).1 ((hl.calm hcalm).2.trans henv)
    exact ⟨hput.calm, hput.environment⟩
  · rintro p n ht id hspells
    obtain ⟨rfl, hr'⟩ := Taken.mk.inj ht
    exact (Estate.openLockFile_upholds hcalm (henv ▸ hspells) hr).2 n (eq_of_heq hr')
  · by_cases he : k = i
    · subst he
      rw [after_past_self] at ht
      rcases List.mem_cons.mp ht with rfl | ht
      · exact hcredible
      · exact h.credible k hk t ht
    · rw [after_past_ne S _ _ w he] at ht
      exact h.credible k hk t ht
  · by_cases he : k = i
    · subst he
      rw [after_program_self, after_moment_self]
      exact hnext
    · rw [after_program_ne S _ _ w he]
      refine (h.courteous k hk).later ?_
      exact after_past_ne S _ _ w he

end Stepping

theorem Ordered.moves (hm : ∀ i, E.Orderly m (tools i)) (h : S.Ordered E tools ids env)
    (hS : S.Moves m S') : S'.Ordered E tools ids env := by
  cases hS with
  | step hi hp hr => exact h.step hm hi hp hr
  | pass p t =>
    obtain ⟨hcalm, hu⟩ := h.calm.drifts (.of_custom (Custom.advanceTo_drifts (h.calm.calm p).custom t))
    refine ⟨hcalm, ⟨fun i hi id p' n hs ho => ?_, fun i hi n hn => ?_, h.locked.exclusive,
      fun i hi n hn => ?_⟩, h.credible, fun i hi => (h.courteous i hi).later rfl⟩
    · exact (h.locked.opened i hi id p' n hs ho).upholds hu
    · obtain ⟨id, hid, hnum⟩ := h.locked.keyed i hi n hn
      exact ⟨id, hid, hnum.upholds hu⟩
    · rw [put_locked, hu.locked]
      exact h.locked.locked i hi n hn
  | crash p hl =>
    have hold {i : ι} (hi : S.process i ∉ p :: S.down) : S.Alive i ∧ S.process i ≠ p := by
      simpa [Alive, and_comm] using hi
    refine ⟨⟨fun q => ⟨(h.calm.calm q).sound, (h.calm.calm q).tame⟩, h.calm.environment⟩,
      ⟨fun i hi => h.locked.opened i (hold hi).1, fun i hi => h.locked.keyed i (hold hi).1,
        fun i j hi hj => h.locked.exclusive i j (hold hi).1 (hold hj).1, fun i hi n hn => ?_⟩,
      fun i hi => h.credible i (hold hi).1, fun i hi => (h.courteous i (hold hi).1).later rfl⟩
    refine (hl n).mpr ⟨h.locked.locked i (hold hi).1 n hn, fun j hj hp hn' => (hold hi).2 ?_⟩
    rw [← h.locked.exclusive j i hj (hold hi).1 n hn' hn]
    exact hp

theorem Moves.process (h : S.Moves m S') : S'.process = S.process := by
  cases h <;> rfl

theorem Opens.ordered {program : ι → Program ρ} (h : S.Opens program) (hsound : E.Sound S.files)
    (htame : ∀ p, ∀ c ∈ (S.worlds p).children, E.Tame c.activity)
    (hprogram : ∀ i, (Rules.courteous E (S.worlds (S.process i)).environment (tools i) (ids i)).Safe
      (fun _ _ => True) (program i) (S.moment i)) :
    S.Ordered E tools ids fun p => (S.worlds p).environment := by
  have hpast (i : ι) : S.past i = [] := by simp [past, h.history]
  refine ⟨⟨fun p => ⟨hsound, htame p⟩, fun _ => rfl⟩, ⟨fun i _ id p n _ ho => ?_, fun i _ n hn => ?_,
    fun i j _ _ n hn => ?_, fun i _ n hn => ?_⟩, fun i _ t ht => ?_, fun i _ => ?_⟩
  · simp [hpast] at ho
  · simp [hpast, held] at hn
  · simp [hpast, held] at hn
  · simp [hpast, held] at hn
  · simp [hpast] at ht
  · rw [h.program]
    exact hprogram i

theorem Ordered.reaches (hm : ∀ i, E.Orderly m (tools i)) (h : S.Ordered E tools ids env)
    (hr : S.Reaches m S') : S'.Ordered E tools ids env ∧ S'.process = S.process := by
  induction hr with
  | refl => exact ⟨h, rfl⟩
  | tail _ hmove ih => exact ⟨ih.1.moves hm hmove, hmove.process.trans ih.2⟩

end Scene

namespace Call

variable {E : Estate} {env : Environment} {c : Call} {x : Moment}

theorem program_courteous (hE : c.engine.Settled E env) (hx : held x.past = []) :
    (Rules.courteous E env (c.engine.Starts env) c.Locks).Safe (fun _ _ => True) c.program x := by
  have hend {r : Result} {y : Moment} : (Rules.courteous E env (c.engine.Starts env) c.Locks).Safe
      (fun _ _ => True) (Pure.pure r) y := .pure fun _ _ => trivial
  cases c with
  | compile e id source =>
    have hid : (compile e id source).Locks id := rfl
    exact (compile_courteous hE (fun _ h => h) hid hx).next fun _ _ _ => hend
  | delete e id =>
    have hdelete (y : Moment) (hy : held y.past = []) :
        (Rules.courteous E env (e.Starts env) (delete e id).Locks).Safe (fun _ _ => True)
          (Attempt.of (e.cache.delete id).run Error.cache).run y :=
      .of ((delete_behaves hE.serves).courteous hy) (fun _ _ _ => trivial) fun _ _ _ => trivial
    refine Rules.Safe.next (Q := fun _ _ => True) ?_ fun _ _ _ => hend
    exact .liftThen (invalidate_courteous hx) fun _ y hy => hdelete y hy
  | clear e => exact ((clear_behaves hE.serves).courteous hx).next fun _ _ _ => hend

end Call

namespace Estate

variable {ι : Type} [DecidableEq ι] {E : Estate} {m : Machine} {S S' : Scene ι Call.Result}
  {call : ι → Call}

theorem Hosts.ordered (h : E.Hosts m S call) (hr : S.Reaches m S') :
    S'.Ordered E (fun i => (call i).engine.Starts (S.worlds (S.process i)).environment)
      (fun i => (call i).Locks) (fun p => (S.worlds p).environment) ∧ S'.process = S.process := by
  refine (h.opens.ordered h.sound h.tame fun i => ?_).reaches h.orderly hr
  exact Call.program_courteous (h.settled i) (by simp [Scene.past, h.opens.history, held])

end Estate

namespace Scene

variable {ι : Type} [DecidableEq ι] {E : Estate} {m : Machine} {S S' : Scene ι Call.Result}
  {i j : ι} {call : ι → Call} {tools : ι → Invocation → Prop} {env : Nat → Environment}
  {id : ModelIdentity}

/-- A caller is where it builds the module of an identity: in `compileModel`, called by `compile`. -/
def Compiling (S : Scene ι Call.Result) (call : ι → Call) (i : ι) (id : ModelIdentity) : Prop :=
  ∃ e source before during file rest, call i = .compile e id source ∧
    S.past i = during ++ before ∧ (e.approach id source).Ran before (.done (.ok file)) ∧
    (e.cache.compileModel id source e.translator e.builder).run.Ran during rest

theorem held_append {tools : Invocation → Prop} {env : Environment} {during before : List Taken}
    (h : ∀ t ∈ during, t.step.Obeys E env tools) : held (during ++ before) = held before := by
  induction during with
  | nil => rfl
  | cons t during ih =>
    rw [List.cons_append, held_of_obeys (h t (by simp)), ih fun t ht => h t (by simp [ht])]

theorem Compiling.held (h : S.Compiling call i id) (hi : S.Alive i)
    (hS : S.Ordered E tools (fun i => (call i).Locks) env)
    (hE : (call i).engine.Settled E (env (S.process i))) :
    ∃ n, CompiledModels.held (S.past i) = [n] ∧ E.Numbers id n S.files := by
  obtain ⟨e, source, before, during, file, rest, hcall, hpast, hbefore, hduring⟩ := h
  have hcredible := hS.credible i hi
  rw [hpast] at hcredible
  rw [hcall] at hE
  have hlock : CompiledModels.held before = [file] := by
    have hsafe : (Rules.courteous E (env (S.process i)) (e.Starts (env (S.process i))) (· = id)).Safe
        (fun r y => CompiledModels.held y.past = lockOf r) (e.approach id source) ⟨S.world 0, []⟩ :=
      approach_courteous hE rfl rfl
    have hdone := hsafe.ran hbefore fun t ht => hcredible t (by simp [ht])
    simpa [lockOf] using Rules.Safe.done_iff.1 hdone _ rfl
  have hobeys := ((compileModel_behaves hE fun _ h => h).ran hduring fun t ht =>
    hcredible t (by simp [ht])).2
  have hheld : CompiledModels.held (S.past i) = [file] := by
    rw [hpast, held_append hobeys, hlock]
  obtain ⟨id', hid, hnum⟩ := hS.locked.keyed i hi file (by simp [hheld])
  rw [hcall] at hid
  exact ⟨file, hheld, (show id' = id from hid) ▸ hnum⟩

theorem compiling_unique (h : E.Hosts m S call) (hr : S.Reaches m S') (hi : S'.Alive i)
    (hj : S'.Alive j) (hci : S'.Compiling call i id) (hcj : S'.Compiling call j id) : i = j := by
  obtain ⟨hS, hp⟩ := h.ordered hr
  obtain ⟨n, hn, hnum⟩ := hci.held hi hS (hp ▸ h.settled i)
  obtain ⟨n', hn', hnum'⟩ := hcj.held hj hS (hp ▸ h.settled j)
  obtain rfl := hnum.unique hnum'
  exact hS.locked.exclusive i j hi hj n (by simp [hn]) (by simp [hn'])

end Scene

end CompiledModels
