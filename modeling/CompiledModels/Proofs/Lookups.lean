import CompiledModels.Proofs.Failure
import CompiledModels.Proofs.Handles
import CompiledModels.Proofs.Ledger
import CompiledModels.Proofs.Sessions

/-!
How an evaluation finds the module that it asks: it lists the entry, looks at the names in it, and
asks the table for the one that it has found.
-/

namespace CompiledModels

open Files Program

def Visit.identity : Visit → ModelIdentity
  | evaluate id .. | evaluateContained id .. | unload id | delete id => id

def Visit.isEvaluation : Visit → Bool
  | .evaluate .. | .evaluateContained .. => true
  | _ => false

/-- What is left of an evaluation that has found no entry. -/
inductive Visit.Misses : Visit → Program Visit.Result → Prop
  | evaluate (id : ModelIdentity) (data : ModelData) (r : Request) :
      Misses (.evaluate id data r) (return .evaluated r (.error (.notFound (.entry id.key))))
  | contained (id : ModelIdentity) (data : ModelData) (r : Request) :
      Misses (.evaluateContained id data r) (do
        perform (.emit (.notAvailable (.entry id.key)))
        return .contained r none)

section Tracing

variable {ok : ∀ s : Step, s.Reply → Prop} {P : List Taken → Step → Prop} {α : Type} {p q : Program α}
  {post : α → Moment → Prop} {w : World} {base past later earlier : List Taken} {t : Taken}

theorem Rules.Safe.took (h : (Rules.traced ok P).Safe post p ⟨w, base⟩) (hr : p.Ran past q)
    (hok : ∀ t ∈ past, ok t.step t.reply) (hp : past = later ++ t :: earlier) : P (earlier ++ base) t.step := by
  induction hr generalizing later with
  | refl => simp at hp
  | @step past s next hr r ih =>
    have hpast : ∀ t ∈ past, ok t.step t.reply := fun t ht => hok t (by simp [ht])
    cases later with
    | nil =>
      obtain ⟨rfl, rfl⟩ := List.cons.inj hp
      obtain ⟨⟨_, hcons, hs⟩, -⟩ := step_iff.1 (h.ran hr hpast) _ rfl r w (hok ⟨s, r⟩ (by simp))
      obtain rfl := (List.cons.inj hcons).1
      exact hs
    | cons u later => exact ih hpast (List.cons.inj hp).2

end Tracing

namespace Engine

variable (e : Engine) (id : ModelIdentity)

def Listed (es : List DirectoryEntry) (past : List Taken) : Prop :=
  ∃ later, past = later ++ [⟨.list (e.cache.entryDirectory id), .ok es⟩]

def Saw (name : String) (file : Bool) (past : List Taken) : Prop :=
  ∃ r : Except FileError Node, ⟨.stat ((e.cache.entryDirectory id).join name) true, r⟩ ∈ past ∧
    r.toOption.any (·.isFile) = file

def Found (past : List Taken) (p : Path) : Prop :=
  ∃ es name, e.Listed id es past ∧ name ∈ es.map (·.name) ∧ ModuleFile.isName name = true ∧
    e.Saw id name true past ∧ p = (e.cache.entryDirectory id).join name

def Unfound (past : List Taken) : Prop :=
  (∃ err, ⟨.list (e.cache.entryDirectory id), .error err⟩ ∈ past) ∨
    ∃ es, e.Listed id es past ∧ ∀ name ∈ es.map (·.name), ModuleFile.isName name = true →
      e.Saw id name false past

def Located (past : List Taken) : Option Path → Prop
  | some p => e.Found id past p
  | none => e.Unfound id past

def Asked (past : List Taken) : Prop :=
  ∃ p r, ⟨.getOrLoad e.registry id.key p, r⟩ ∈ past

end Engine

def Step.Seeks (e : Engine) (id : ModelIdentity) (past : List Taken) : Step → Prop
  | .list p => past = [] ∧ p = e.cache.entryDirectory id
  | .stat .. | .emit _ => past ≠ []
  | .getOrLoad n key p => n = e.registry ∧ key = id.key ∧ e.Found id past p
  | .enter a | .leave a | .ask a .. => ∃ p, ⟨.getOrLoad e.registry id.key p, .ok a⟩ ∈ past
  | _ => False

abbrev Rules.seeking (e : Engine) (id : ModelIdentity) : Rules := .traced (fun _ _ => True) (Step.Seeks e id)

section Seeking

variable {e : Engine} {id : ModelIdentity} {x : Moment} {es : List DirectoryEntry} {past : List Taken} {t : Taken}

theorem Engine.Listed.cons (h : e.Listed id es past) : e.Listed id es (t :: past) := by
  obtain ⟨later, rfl⟩ := h
  exact ⟨t :: later, rfl⟩

theorem Engine.Listed.ne (h : e.Listed id es past) : past ≠ [] := by
  obtain ⟨later, rfl⟩ := h
  simp

theorem Engine.Saw.cons {name : String} {file : Bool} (h : e.Saw id name file past) :
    e.Saw id name file (t :: past) := by
  obtain ⟨r, hr, hf⟩ := h
  exact ⟨r, List.mem_cons_of_mem _ hr, hf⟩

theorem seeking_rely (x y : Moment) (h : (Rules.seeking e id).rely x y) : y.past = x.past := h

structure Engine.Sifted (e : Engine) (id : ModelIdentity) (es : List DirectoryEntry) (names found : List String)
    (past : List Taken) : Prop where
  listed : e.Listed id es past
  here : ∀ name ∈ found, name ∈ names ∧ e.Saw id name true past
  away : ∀ name ∈ names, name ∉ found → e.Saw id name false past

theorem isFile_seeks {name : String} (hx : e.Listed id es x.past) :
    (Rules.seeking e id).Safe (fun b y => e.Listed id es y.past ∧
      ∃ r : Except FileError Node, ⟨.stat ((e.cache.entryDirectory id).join name) true, r⟩ ∈ y.past ∧
        r.toOption.any (·.isFile) = b) (isFile ((e.cache.entryDirectory id).join name)) x := by
  refine (Rules.traced_perform (s := .stat ((e.cache.entryDirectory id).join name) true)
    (Q := fun r past => e.Listed id es past ∧ ⟨.stat ((e.cache.entryDirectory id).join name) true, r⟩ ∈ past)
    hx.ne fun r _ => ⟨hx.cons, List.mem_cons_self⟩).next fun r y hy => ?_
  have hdone (b : Bool) (hb : (r : Except FileError Node).toOption.any (·.isFile) = b) :
      (Rules.seeking e id).Safe (fun b y => e.Listed id es y.past ∧
        ∃ r : Except FileError Node, ⟨.stat ((e.cache.entryDirectory id).join name) true, r⟩ ∈ y.past ∧
          r.toOption.any (·.isFile) = b) (Pure.pure b) y :=
    .done ⟨hy.1, r, hy.2, hb⟩ (Rules.traced_stable fun past => e.Listed id es past ∧ e.Saw id name b past)
  cases r with
  | ok node => exact hdone _ rfl
  | error err => exact hdone _ rfl

theorem filesAmong_seeks {names : List String} (hx : e.Listed id es x.past) :
    (Rules.seeking e id).Safe (fun found y => e.Sifted id es names found y.past)
      (Cache.filesAmong (e.cache.entryDirectory id) names) x := by
  induction names generalizing x with
  | nil => exact .done ⟨hx, by simp, by simp⟩ (Rules.traced_stable fun past => e.Sifted id es [] [] past)
  | cons name names ih =>
    refine (isFile_seeks hx).next fun b y hy => ?_
    obtain ⟨hlisted, r, hr, hb⟩ := hy
    refine ((ih hlisted).recalls seeking_rely hr).next fun found z hz => ?_
    obtain ⟨hr, hz⟩ := hz
    have hsaw : e.Saw id name b z.past := ⟨r, hr, hb⟩
    refine .done ?_ (Rules.traced_stable fun past =>
      e.Sifted id es (name :: names) (if b = true then name :: found else found) past)
    cases b with
    | true =>
      refine ⟨hz.listed, fun n hn => ?_, fun n hn hout => ?_⟩
      · rcases List.mem_cons.mp hn with rfl | hn
        · exact ⟨List.mem_cons_self, hsaw⟩
        · exact ⟨List.mem_cons_of_mem _ (hz.here n hn).1, (hz.here n hn).2⟩
      · simp only [if_pos, List.mem_cons, not_or] at hout
        exact hz.away n ((List.mem_cons.mp hn).resolve_left hout.1) hout.2
    | false =>
      refine ⟨hz.listed, fun n hn => ?_, fun n hn hout => ?_⟩
      · exact ⟨List.mem_cons_of_mem _ (hz.here n hn).1, (hz.here n hn).2⟩
      · rcases List.mem_cons.mp hn with rfl | hn
        · exact hsaw
        · exact hz.away n hn hout

theorem Cache.mem_of_greatest? {names : List String} {name : String} (h : Cache.greatest? names = some name) :
    name ∈ names := by
  induction names generalizing name with
  | nil => simp [Cache.greatest?] at h
  | cons n names ih =>
    rw [Cache.greatest?] at h
    cases hg : Cache.greatest? names with
    | none =>
      rw [hg] at h
      simp_all
    | some other =>
      simp only [hg, Option.some.injEq] at h
      split at h
      · simp [h]
      · exact List.mem_cons_of_mem _ (h ▸ ih hg)

theorem modulePath_seeks (hx : x.past = []) :
    (Rules.seeking e id).Safe (fun o y => y.past ≠ [] ∧ e.Located id y.past o) (e.cache.modulePath id) x := by
  have hdone {o : Option Path} {y : Moment} (hne : y.past ≠ []) (hy : e.Located id y.past o) :
      (Rules.seeking e id).Safe (fun o y => y.past ≠ [] ∧ e.Located id y.past o) (Pure.pure o) y :=
    .done ⟨hne, hy⟩ (Rules.traced_stable fun past => past ≠ [] ∧ e.Located id past o)
  refine (Rules.traced_perform (s := .list (e.cache.entryDirectory id)) (Q := fun r past =>
    past = [⟨.list (e.cache.entryDirectory id), r⟩]) ⟨hx, rfl⟩ fun r _ => by rw [hx]).next fun r y hy => ?_
  cases r with
  | error err => exact hdone (by simp [hy]) (.inl ⟨err, by simp [hy]⟩)
  | ok es =>
    refine (filesAmong_seeks (show e.Listed id es y.past from ⟨[], hy⟩)).next fun found z hz => ?_
    refine hdone hz.listed.ne ?_
    cases hg : Cache.greatest? found with
    | some name =>
      obtain ⟨hmem, hsaw⟩ := hz.here name (Cache.mem_of_greatest? hg)
      obtain ⟨hmem, hname⟩ := List.mem_filter.mp hmem
      exact ⟨es, name, hz.listed, hmem, hname, hsaw, rfl⟩
    | none =>
      refine .inr ⟨es, hz.listed, fun name hmem hname => hz.away name (List.mem_filter.mpr ⟨hmem, hname⟩) ?_⟩
      have hempty := Cache.greatest?_isSome found
      rw [hg] at hempty
      simp [List.isEmpty_iff.mp (by simpa using hempty.symm)]

def Engine.Concluded (e : Engine) (id : ModelIdentity) (past : List Taken) : Prop :=
  past ≠ [] ∧ (e.Unfound id past ∨ e.Asked id past)

def Engine.Given (e : Engine) (id : ModelIdentity) (r : Except NotFoundError LoadedModule) (past : List Taken) :
    Prop :=
  ∀ a, r = .ok a → ∃ p, ⟨.getOrLoad e.registry id.key p, .ok a⟩ ∈ past

theorem module_seeks (hx : x.past = []) :
    (Rules.seeking e id).Safe (fun r y => e.Concluded id y.past ∧ e.Given id r y.past) (e.module id).run x := by
  refine .liftThen (modulePath_seeks hx) fun o y hy => ?_
  obtain ⟨hne, hy⟩ := hy
  cases o with
  | none =>
    exact .done ⟨⟨hne, .inl hy⟩, nofun⟩
      (Rules.traced_stable fun past => e.Concluded id past ∧ e.Given id (.error (.entry id.key)) past)
  | some p =>
    refine .of (Rules.traced_perform (s := .getOrLoad e.registry id.key p) (Q := fun r past =>
      past ≠ [] ∧ (⟨.getOrLoad e.registry id.key p, r⟩ : Taken) ∈ past) ⟨rfl, rfl, hy⟩ fun r _ =>
        ⟨by simp, List.mem_cons_self⟩) (fun a z hz => ⟨⟨hz.1, .inr ⟨p, _, hz.2⟩⟩, ?_⟩)
      fun err z hz => ⟨⟨hz.1, .inr ⟨p, _, hz.2⟩⟩, nofun⟩
    rintro _ ⟨⟩
    exact ⟨p, hz.2⟩

theorem Engine.Concluded.cons (h : e.Concluded id past) : e.Concluded id (t :: past) := by
  refine ⟨by simp, h.2.imp (fun hu => ?_) fun ha => ?_⟩
  · rcases hu with ⟨err, herr⟩ | ⟨es, hlisted, hsaw⟩
    · exact .inl ⟨err, List.mem_cons_of_mem _ herr⟩
    · exact .inr ⟨es, hlisted.cons, fun name hmem hname => (hsaw name hmem hname).cons⟩
  · obtain ⟨p, r, hr⟩ := ha
    exact ⟨p, r, List.mem_cons_of_mem _ hr⟩

theorem Program.Only.seeking {α : Type} {p : Program α} {post : α → Prop} {P : Step → Prop}
    {J : List Taken → Prop} (h : p.Only (fun _ _ => True) P post) (hx : J x.past)
    (hJ : ∀ past t, J past → J (t :: past)) (hP : ∀ s past, P s → J past → s.Seeks e id past) :
    (Rules.seeking e id).Safe (fun a y => post a ∧ J y.past) p x :=
  h.safe (J := fun y => J y.past) hx (Rules.traced_stable J) fun _ _ _ _ hy hs hr =>
    ⟨hr, ⟨_, rfl, hP _ _ hs hy⟩, hJ _ _ hy⟩

theorem evaluate_seeks {data : ModelData} {r : Request} (hx : x.past = []) :
    (Rules.seeking e id).Safe (fun _ y => e.Concluded id y.past) (e.evaluate id data r).run x := by
  refine .ofThen (module_seeks hx) (fun a y hy => ?_) fun _ _ hy => hy.1
  have hcall : (Engine.call a data r).Only (fun _ _ => True)
      (fun s => s = .enter a ∨ s = .ask a data r ∨ s = .leave a) fun _ => True :=
    ⟨.inl rfl, fun _ _ => ⟨.inr (.inl rfl), fun _ _ => ⟨.inr (.inr rfl), fun _ _ => trivial⟩⟩⟩
  have hsafe : (Rules.seeking e id).Safe (fun _ z => True ∧ e.Concluded id z.past ∧
      ∃ p, ⟨.getOrLoad e.registry id.key p, .ok a⟩ ∈ z.past) (Engine.call a data r) y := by
    refine hcall.seeking (J := fun past => e.Concluded id past ∧ ∃ p, ⟨.getOrLoad e.registry id.key p, .ok a⟩ ∈ past)
      ⟨hy.1, hy.2 a rfl⟩ (fun past t h => ⟨h.1.cons, ?_⟩) fun s past hs h => ?_
    · obtain ⟨p, hp⟩ := h.2
      exact ⟨p, List.mem_cons_of_mem _ hp⟩
    · rcases hs with rfl | rfl | rfl <;> exact h.2
  exact .of hsafe (fun _ _ h => h.2.1) fun _ _ h => h.2.1

theorem visit_seeks {v : Visit} (hv : v.isEvaluation = true) (hx : x.past = []) :
    (Rules.seeking e v.identity).Safe (fun _ y => e.Concluded v.identity y.past) (v.program e) x := by
  have hstable : (Rules.seeking e v.identity).Stable fun y => e.Concluded v.identity y.past :=
    Rules.traced_stable (e.Concluded v.identity)
  cases v with
  | evaluate id data r => exact (evaluate_seeks hx).next fun _ _ hy => .done hy hstable
  | evaluateContained id data r =>
    refine Rules.Safe.next (Q := fun _ y => e.Concluded id y.past) ?_ fun _ _ hy => .done hy hstable
    refine (evaluate_seeks hx).next fun a y hy => ?_
    have hcontain : (Engine.contain a).Only (fun _ _ => True) (fun s => ∃ event, s = .emit event)
        fun _ => True := by
      cases a with
      | ok a => trivial
      | error err => cases err <;> exact ⟨⟨_, rfl⟩, fun _ _ => trivial⟩
    refine (hcontain.seeking hy (fun _ _ h => h.cons) fun s past hs h => ?_).weaken fun _ _ h => h.2
    obtain ⟨event, rfl⟩ := hs
    exact h.1
  | _ => simp [Visit.isEvaluation] at hv

theorem visit_lists {v : Visit} (hv : v.isEvaluation = true) : ∃ next : Except FileError (List DirectoryEntry) →
    Program Visit.Result, v.program e = .step (.list (e.cache.entryDirectory v.identity)) next ∧
      ∀ err, v.Misses (next (.error err)) := by
  cases v with
  | evaluate id data r => exact ⟨_, rfl, fun _ => .evaluate id data r⟩
  | evaluateContained id data r => exact ⟨_, rfl, fun _ => .contained id data r⟩
  | _ => simp [Visit.isEvaluation] at hv

end Seeking

end CompiledModels

namespace CompiledModels

open Files

section Worlds

variable {m : Machine} {w w' : World} {s : Step} {n k : Nat} {key key' : String} {p : Path} {a b : LoadedModule}
  {r : Registry}

theorem World.get?_setRegistry (h : ((w.setRegistry n r).registry k).get? key = some a) :
    (k = n ∧ r.get? key = some a) ∨ (w.registry k).get? key = some a := by
  by_cases hn : n < w.registries.length
  · rw [registry_setRegistry hn] at h
    split at h
    case isTrue hk => exact .inl ⟨hk, h⟩
    case isFalse => exact .inr h
  · rw [setRegistry, List.set_eq_of_length_le (by omega)] at h
    exact .inr h

theorem getOrLoad_gives (h : (Step.getOrLoad n key p).exec m w = some (.ok a, w')) : a.path.same p = true ∧
    ((w.registry n).get? key = some a ∨ a.path = p ∧ m.load w.environment w.files a.path = .ok a.services) := by
  have h : Step.loadInto m w n key p = (.ok a, w') := Option.some.inj h
  cases hc : (w.registry n).current? key p with
  | some b =>
    rw [Step.loadInto_held hc] at h
    obtain rfl := Except.ok.inj (Prod.mk.inj h).1
    obtain ⟨hget, hsame⟩ := Registry.current?_eq_some hc
    exact ⟨hsame, .inl hget⟩
  | none =>
    cases hl : m.load w.environment w.files p with
    | ok services =>
      rw [Step.loadInto_loaded hc hl] at h
      obtain rfl := Except.ok.inj (Prod.mk.inj h).1
      exact ⟨Path.same_iff.mpr rfl, .inr ⟨rfl, hl⟩⟩
    | error err =>
      rw [Step.loadInto_failed hc hl] at h
      exact nomatch (Prod.mk.inj h).1

def Step.Loads (m : Machine) (w : World) (n : Nat) (key : String) (a : LoadedModule) (t : Taken) : Prop :=
  t = ⟨.getOrLoad n key a.path, .ok a⟩ ∧ m.load w.environment w.files a.path = .ok a.services

theorem loadInto_table {k : Nat} {key' : String} {p : Path} {r : Except ModuleError LoadedModule}
    (h : Step.loadInto m w k key' p = (r, w')) (ha : (w'.registry n).get? key = some a) :
    (w.registry n).get? key = some a ∨ Step.Loads m w n key a ⟨.getOrLoad k key' p, r⟩ := by
  cases hc : (w.registry k).current? key' p with
  | some b =>
    rw [Step.loadInto_held hc] at h
    obtain ⟨-, rfl⟩ := Prod.mk.inj h
    rcases World.get?_setRegistry ha with ⟨rfl, ha⟩ | ha
    · exact .inl ha
    · exact .inl ha
  | none =>
    cases hl : m.load w.environment w.files p with
    | ok services =>
      rw [Step.loadInto_loaded hc hl] at h
      obtain ⟨rfl, rfl⟩ := Prod.mk.inj h
      rcases World.get?_setRegistry ha with ⟨rfl, ha⟩ | ha
      · rw [Registry.get?_insert] at ha
        split at ha
        case isTrue hkey =>
          obtain rfl := Option.some.inj ha
          exact .inr ⟨by rw [hkey], hl⟩
        case isFalse => exact .inl ha
      · exact .inl ha
    | error err =>
      rw [Step.loadInto_failed hc hl] at h
      obtain ⟨-, rfl⟩ := Prod.mk.inj h
      exact .inl ha

theorem exec_table {r : s.Reply} (h : s.exec m w = some (r, w'))
    (ha : (w'.registry n).get? key = some a) :
    (w.registry n).get? key = some a ∨ Step.Loads m w n key a ⟨s, r⟩ := by
  by_cases hs : s.isOutside = true
  · exact .inl ((World.exec_spares hs h).registry n ▸ ha)
  · cases s with
    | getOrLoad k key' p => exact loadInto_table (Option.some.inj h) ha
    | invalidate k key' =>
      obtain ⟨-, rfl⟩ := Prod.mk.inj (Option.some.inj h)
      have hd : ((w.dropping k key').registry n).get? key = some a := ha
      rw [World.get?_dropping] at hd
      split at hd
      · simp at hd
      · exact .inl hd
    | newRegistry =>
      obtain ⟨-, rfl⟩ := Prod.mk.inj (Option.some.inj h)
      refine .inl ?_
      simp only [World.registry] at ha ⊢
      rcases Nat.lt_trichotomy n w.registries.length with hn | rfl | hn
      · rwa [List.getElem?_append_left hn] at ha
      · simp [Registry.empty, Registry.get?] at ha
      · rw [List.getElem?_eq_none (by simp; omega)] at ha
        simp [Registry.empty, Registry.get?] at ha
    | enter b => exact .inl (by rw [World.registry, ← (World.enter_exec h).1]; exact ha)
    | leave b => exact .inl (by rw [World.registry, ← (World.leave_exec h).1]; exact ha)
    | _ => exact absurd rfl hs

end Worlds

namespace Scene

variable {ι ρ : Type} [DecidableEq ι] {m : Machine} {S S' T T' : Scene ι ρ} {i : ι} {t : Taken}
  {later earlier : List (ι × Taken)}

/-- A caller takes a step. -/
inductive Takes (m : Machine) (S : Scene ι ρ) (i : ι) (t : Taken) : Scene ι ρ → Prop
  | mk {next : t.step.Reply → Program ρ} {w : World} (hi : S.Alive i) (hp : S.program i = .step t.step next)
      (hr : t.step.exec m (S.world (S.process i)) = some (t.reply, w)) :
      Takes m S i t (S.after i t (next t.reply) w)

theorem Takes.moves (h : S.Takes m i t S') : S.Moves m S' := by
  cases h with
  | mk hi hp hr => exact .step hi hp hr

theorem Takes.history (h : S.Takes m i t S') : S'.history = (i, t) :: S.history := by
  cases h
  rfl

theorem Takes.past (h : S.Takes m i t S') : S'.past i = t :: S.past i := by
  cases h
  exact after_past_self ..

theorem Takes.exec (h : S.Takes m i t S') : ∃ w, t.step.exec m (S.world (S.process i)) = some (t.reply, w) ∧
    S'.files = w.files := by
  cases h with
  | mk hi hp hr => exact ⟨_, hr, rfl⟩

theorem Takes.registry (h : S.Takes m i t S') (ht : t.step.isOutside = true) (p n : Nat) :
    (S'.worlds p).registry n = (S.worlds p).registry n := by
  cases h with
  | mk hi hprogram hr =>
    by_cases hp : p = S.process i
    · subst hp
      have hsame := (World.exec_spares ht hr).registry n
      simpa [after, put, world, World.registry] using hsame
    · simp [after, put, hp]

theorem Moves.taken (h : S.Moves m S') : S'.history = S.history ∨ ∃ i t, S.Takes m i t S' := by
  cases h with
  | @step i s next r w hi hp hr => exact .inr ⟨i, ⟨s, r⟩, .mk hi hp hr⟩
  | pass p t => exact .inl rfl
  | crash p hl => exact .inl rfl

theorem Reaches.history (h : S.Reaches m S') : ∃ later, S'.history = later ++ S.history := by
  induction h with
  | refl => exact ⟨[], rfl⟩
  | tail _ hm ih =>
    obtain ⟨later, ih⟩ := ih
    rcases hm.taken with h | ⟨i, t, h⟩
    · exact ⟨later, h.trans ih⟩
    · exact ⟨(i, t) :: later, by rw [h.history, ih, List.cons_append]⟩

theorem Reaches.took (h : S.Reaches m S') (hh : S'.history = later ++ (i, t) :: earlier)
    (hle : S.history.length ≤ earlier.length) :
    ∃ T T', S.Reaches m T ∧ T.history = earlier ∧ T.Takes m i t T' ∧ T'.Reaches m S' := by
  induction h generalizing later with
  | refl =>
    have hlen := congrArg List.length hh
    simp only [List.length_append, List.length_cons] at hlen
    omega
  | @tail U S' hU hm ih =>
    rcases hm.taken with hsame | ⟨j, u, hstep⟩
    · obtain ⟨T, T', hT, hearlier, htakes, hT'⟩ := ih (hsame.symm.trans hh)
      exact ⟨T, T', hT, hearlier, htakes, hT'.tail hm⟩
    · rw [hstep.history] at hh
      cases later with
      | nil =>
        obtain ⟨hit, hrest⟩ := List.cons.inj hh
        obtain ⟨rfl, rfl⟩ := Prod.mk.inj hit
        exact ⟨U, S', hU, hrest, hstep, .refl⟩
      | cons x later =>
        obtain ⟨T, T', hT, hearlier, htakes, hT'⟩ := ih (List.cons.inj hh).2
        exact ⟨T, T', hT, hearlier, htakes, hT'.tail hm⟩

theorem history_of_past {past before : List Taken} (h : S.past i = past ++ t :: before) :
    ∃ later earlier, S.history = later ++ (i, t) :: earlier ∧
      (earlier.filter (·.1 = i)).map (·.2) = before := by
  obtain ⟨_, rest, hf, -, hrest⟩ := List.map_eq_append_iff.mp h
  obtain ⟨⟨j, u⟩, rest', rfl, rfl, rfl⟩ := List.map_eq_cons_iff.mp hrest
  obtain ⟨later, rest, hh, -, hrest⟩ := List.filter_eq_append_iff.mp hf
  obtain ⟨skipped, earlier, rfl, -, hj, rfl⟩ := List.filter_eq_cons_iff.mp hrest
  obtain rfl : j = i := of_decide_eq_true hj
  exact ⟨later ++ skipped, earlier, by rw [hh, List.append_assoc], rfl⟩

def Fetched (m : Machine) (S S' : Scene ι ρ) (p n : Nat) (key : String) (a : LoadedModule) : Prop :=
  ∃ T T' i, S.Reaches m T ∧ T.Takes m i ⟨.getOrLoad n key a.path, .ok a⟩ T' ∧ T'.Reaches m S' ∧
    T.process i = p ∧ m.load (T.world p).environment T.files a.path = .ok a.services

theorem Fetched.on {p n : Nat} {key : String} {a : LoadedModule} (h : S.Fetched m T p n key a)
    (hr : T.Reaches m T') : S.Fetched m T' p n key a := by
  obtain ⟨U, U', i, hU, htakes, hU', hp, hl⟩ := h
  exact ⟨U, U', i, hU, htakes, hU'.trans hr, hp, hl⟩

theorem Reaches.fetched (h : S.Reaches m S') {p n : Nat} {key : String} {a : LoadedModule}
    (ha : ((S'.worlds p).registry n).get? key = some a) :
    ((S.worlds p).registry n).get? key = some a ∨ S.Fetched m S' p n key a := by
  induction h with
  | refl => exact .inl ha
  | @tail T T' hT hm ih =>
    have hold (ha : ((T.worlds p).registry n).get? key = some a) :
        ((S.worlds p).registry n).get? key = some a ∨ S.Fetched m T' p n key a :=
      (ih ha).imp_right fun h => h.on (.single hm)
    cases hm with
    | @step i s next r w hi hp hr =>
      by_cases hq : p = T.process i
      · subst hq
        have ha' : (w.registry n).get? key = some a := by simpa [after, put] using ha
        rcases exec_table hr ha' with ha | ⟨ht, hl⟩
        · exact hold ha
        · refine .inr ⟨T, _, i, hT, ht ▸ .mk hi hp hr, .refl, rfl, hl⟩
      · exact hold (by simpa [after, put, hq] using ha)
    | pass q t =>
      by_cases hq : p = q
      · subst hq
        have ha' : (((T.world p).advanceTo t).registry n).get? key = some a := by simpa [put] using ha
        rw [(World.advanceTo_spares t).registry] at ha'
        exact hold ha'
      · exact hold (by simpa [put, hq] using ha)
    | crash q hl => exact hold ha

theorem Reaches.process (h : S.Reaches m S') : S'.process = S.process := by
  induction h with
  | refl => rfl
  | tail _ hm ih => exact hm.process.trans ih

theorem Reaches.past_suffix (h : S.Reaches m S') (i : ι) : S.past i <:+ S'.past i := by
  obtain ⟨later, hh⟩ := h.history
  rw [past, past, hh, List.filter_append, List.map_append]
  exact List.suffix_append _ _

theorem Reaches.took_past (h : S.Reaches m S') (hS : S.past i = []) {past before : List Taken}
    (hp : S'.past i = past ++ t :: before) :
    ∃ T T', S.Reaches m T ∧ T.past i = before ∧ T.Takes m i t T' ∧ T'.Reaches m S' := by
  obtain ⟨later, earlier, hh, hbefore⟩ := history_of_past hp
  obtain ⟨more, hmore⟩ := h.history
  have hlen : S.history.length ≤ earlier.length := by
    have hnot : (i, t) ∉ S.history := fun hmem => by
      have hpast : t ∈ S.past i := List.mem_map.mpr ⟨(i, t), List.mem_filter.mpr ⟨hmem, by simp⟩, rfl⟩
      simp [hS] at hpast
    rcases List.append_eq_append_iff.mp (hmore.symm.trans hh) with ⟨x, rfl, hx⟩ | ⟨x, rfl, hx⟩
    · exact absurd (hx ▸ List.mem_append_right x List.mem_cons_self) hnot
    · cases x with
      | nil => exact absurd (List.nil_append S.history ▸ hx ▸ List.mem_cons_self) hnot
      | cons y x => simp [(List.cons.inj hx).2]
  obtain ⟨T, T', hT, hearlier, htakes, hT'⟩ := h.took hh hlen
  exact ⟨T, T', hT, by rw [Scene.past, hearlier, hbefore], htakes, hT'⟩

theorem Reaches.given (h : S.Reaches m S') (hS : S.past i = []) {n : Nat} {key : String} {p : Path}
    {a : LoadedModule} (hg : ⟨.getOrLoad n key p, .ok a⟩ ∈ S'.past i) : a.path.same p = true ∧
    (((S.worlds (S.process i)).registry n).get? key = some a ∨ S.Fetched m S' (S.process i) n key a) := by
  obtain ⟨past, before, hp⟩ := List.append_of_mem hg
  obtain ⟨T, T', hT, -, htakes, hT'⟩ := h.took_past hS hp
  have hprocess := hT.process
  have hmoves := htakes.moves
  cases htakes with
  | mk hi hprogram hr =>
    obtain ⟨hsame, hold | ⟨hpath, hl⟩⟩ := getOrLoad_gives hr
    · exact ⟨hsame, hprocess ▸ (hT.fetched hold).imp_right fun hf => hf.on (.head hmoves hT')⟩
    · refine ⟨hsame, .inr ⟨T, _, i, hT, ?_, hT', by rw [hprocess], ?_⟩⟩
      · rw [hpath]
        exact .mk hi hprogram hr
      · rw [← hprocess]
        exact hl

end Scene

end CompiledModels
