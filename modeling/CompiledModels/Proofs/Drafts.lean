import CompiledModels.Proofs.Stalls
import CompiledModels.Proofs.Rebuilding
import CompiledModels.Proofs.Visits

/-!
How far a caller is with an entry that it puts together, told from the steps that it has taken.
-/

namespace CompiledModels

open Files Program

inductive Draft
  | blank
  | opened (s : String)
  | filled (s name : String)
  | posted (s name : String)
  | dropped (s : String)

namespace Draft

def isOpen : Draft → Bool
  | opened _ | filled .. => true
  | _ => false

def suffix? : Draft → Option String
  | blank => none
  | opened s | filled s _ | posted s _ | dropped s => some s

def drop : Draft → Draft
  | opened s | filled s _ => dropped s
  | d => d

@[simp] theorem isOpen_drop (d : Draft) : d.drop.isOpen = false := by cases d <;> rfl

@[simp] theorem suffix?_drop (d : Draft) : d.drop.suffix? = d.suffix? := by cases d <;> rfl

end Draft

namespace Cache

variable (c : Cache) (env : Environment) (id : ModelIdentity)

def stagedDirectory (s : String) : Path :=
  (Path.inDirectory env.directory c.root).joins [".staging", stagedName id s]

def buildDirectory (s : String) : Path :=
  (Path.inDirectory env.directory c.root).joins [".staging", "build_" ++ id.name ++ "_" ++ s]

end Cache

namespace Taken

variable (c : Cache) (env : Environment) (id : ModelIdentity)

def Builds (n : String) (t : Taken) : Prop :=
  ∃ file, t = ⟨.emit (.built id.key file), ()⟩ ∧ file.fileName? = some n

def Brings (s n : String) (t : Taken) : Prop :=
  ∃ s', t = ⟨.rename ((c.buildDirectory env id s').join n) ((c.stagedDirectory env id s).join n), .ok ()⟩ ∨
    t = ⟨.copy ((c.buildDirectory env id s').join n) ((c.stagedDirectory env id s).join n), .ok ()⟩

def Publishes (t : Taken) : Prop := ∃ p, t = ⟨.rename p (c.entryDirectory id), .ok ()⟩

end Taken

inductive Taken.Unmade : Taken → Prop
  | rename (p q : Path) (e : FileError) : Unmade ⟨.rename p q, .error e⟩
  | copy (p q : Path) (e : FileError) : Unmade ⟨.copy p q, .error e⟩

def Step.isAside : Step → Bool
  | .openLockFile _ | .acquire _ | .release _ => true
  | .getOrLoad .. | .invalidate .. | .enter _ | .leave _ => true
  | _ => false

def Step.Clears (p : Path) (s : Step) : Prop :=
  s = .stat p false ∨ ∃ names, (∀ n ∈ names, IsPlain n) ∧
    (s = .removeFile (p.joins names) ∨ s = .removeDirectory (p.joins names))

def Step.Plausible (env : Environment) (s : Step) (r : s.Reply) : Prop :=
  s.Credible env r ∧ match s, r with
    | .drawSuffix, (r : String) => r.length = 6
    | _, _ => True

theorem length_drawSuffix (seed : Nat) : (World.drawSuffix seed).1.length = 6 := by
  simp [World.drawSuffix]

theorem plausible_of_exec {m : Machine} {w w' : World} {s : Step} {r : s.Reply}
    (hw : w.files.WellFormed) (h : s.exec m w = some (r, w')) : s.Plausible w.environment r := by
  refine ⟨credible_of_exec hw h, ?_⟩
  cases s with
  | drawSuffix =>
    obtain ⟨rfl, -⟩ := Prod.mk.inj (Option.some.inj h)
    exact length_drawSuffix w.seed
  | _ => trivial

section Trails

variable (E : Estate) (c : Cache) (env : Environment) (tools : Invocation → Prop) (id : ModelIdentity)

inductive Draft.Goes (past : List Taken) : Draft → Taken → Draft → Prop
  | minor {d : Draft} {t : Taken} (h : t.step.Minor E env tools) : Goes past d t d
  | aside {d : Draft} {t : Taken} (hd : d.isOpen = false) (h : t.step.isAside = true) : Goes past d t d
  | unmade {d : Draft} {t : Taken} (h : t.Unmade) : Goes past d t d
  | retires {d : Draft} (n : String) : Goes past d
      ⟨.rename (c.entryDirectory id) (c.root.joins [".staging", "retired_" ++ n]), .ok ()⟩ d
  | opens {s : String} (hs : s.length = 6) (hheld : held past ≠ []) :
      Goes past .blank ⟨.makeDirectory (c.stagedDirectory env id s), .ok ()⟩ (.opened s)
  | brings {s n : String} {t : Taken} (h : t.Brings c env id s n) (hn : ModuleFile.isName n = true)
      (hb : ∃ u ∈ past, u.Builds id n) : Goes past (.opened s) t (.filled s n)
  | posts {s n : String} :
      Goes past (.filled s n) ⟨.rename (c.stagedDirectory env id s) (c.entryDirectory id), .ok ()⟩ (.posted s n)
  | clears {d : Draft} {s : String} {t : Taken} (hd : d.suffix? = some s) (hheld : held past ≠ [])
      (h : t.step.Clears (c.stagedDirectory env id s)) : Goes past d t d.drop

inductive Draft.Trail : List Taken → Draft → Prop
  | nil : Trail [] .blank
  | cons {past : List Taken} {d d' : Draft} {t : Taken} (h : Trail past d)
      (ht : d.Goes E c env tools id past t d') : Trail (t :: past) d'

def Rules.drafting : Rules :=
  (traced (Step.Plausible env) fun _ _ => True).keeping fun _ y => ∃ d, Draft.Trail E c env tools id y.past d

end Trails

variable {E : Estate} {c : Cache} {env : Environment} {tools : Invocation → Prop} {id other : ModelIdentity}
  {past : List Taken} {d d' : Draft} {t : Taken} {s n : String} {ns : List Nat} {x y : Moment}
  {α ε ε' : Type} {e : Engine} {p : Path} {source : String}

theorem held_of_minor {s : Step} {r : s.Reply} (h : s.Minor E env tools) :
    held (⟨s, r⟩ :: past) = held past := by
  cases s <;> first | rfl | exact h.elim

theorem held_of_brings (h : t.Brings c env id s n) : held (t :: past) = held past := by
  obtain ⟨s', rfl | rfl⟩ := h <;> rfl

theorem held_of_unmade (h : t.Unmade) : held (t :: past) = held past := by
  cases h <;> rfl

theorem held_of_clears (h : t.step.Clears p) : held (t :: past) = held past := by
  obtain ⟨step, r⟩ := t
  rcases h with rfl | ⟨names, -, rfl | rfl⟩ <;> rfl

theorem not_publishes (hs : ∀ p q, t.step ≠ .rename p q) : ¬t.Publishes c other := by
  rintro ⟨p, rfl⟩
  exact hs _ _ rfl

namespace Draft.Trail

variable (h : Draft.Trail E c env tools id past d)
include h

theorem held_ne (hd : d.isOpen = true) : held past ≠ [] := by
  induction h with
  | nil => simp [isOpen] at hd
  | @cons past d d' t _ ht ih =>
    cases ht with
    | minor h => rw [held_of_minor h]; exact ih hd
    | aside hd' _ => simp [hd'] at hd
    | unmade h => rw [held_of_unmade h]; exact ih hd
    | retires n => exact ih hd
    | opens _ hheld => exact hheld
    | brings h _ _ => rw [held_of_brings h]; exact ih rfl
    | posts => simp [isOpen] at hd
    | clears => simp at hd

theorem length_suffix (hd : d.suffix? = some s) : s.length = 6 := by
  induction h with
  | nil => simp [suffix?] at hd
  | @cons past d d' t _ ht ih =>
    cases ht with
    | opens hs _ => exact Option.some.inj hd ▸ hs
    | brings | posts => exact ih hd
    | clears => exact ih (by simpa using hd)
    | _ => exact ih hd

theorem built (hd : d = .filled s n ∨ d = .posted s n) :
    ModuleFile.isName n = true ∧ ∃ u ∈ past, u.Builds id n := by
  induction h with
  | nil => simp at hd
  | @cons past d d' t _ ht ih =>
    have hlater (hd : d = .filled s n ∨ d = .posted s n) :
        ModuleFile.isName n = true ∧ ∃ u ∈ t :: past, u.Builds id n := by
      obtain ⟨hn, u, hu, hb⟩ := ih hd
      exact ⟨hn, u, List.mem_cons_of_mem _ hu, hb⟩
    cases ht with
    | opens => simp at hd
    | brings h hn hb =>
      obtain ⟨u, hu, hb⟩ := hb
      simp only [Draft.filled.injEq, reduceCtorEq, or_false] at hd
      obtain ⟨-, rfl⟩ := hd
      exact ⟨hn, u, List.mem_cons_of_mem _ hu, hb⟩
    | posts =>
      simp only [reduceCtorEq, Draft.posted.injEq, false_or] at hd
      exact hlater (.inl (by rw [hd.1, hd.2]))
    | clears =>
      refine hlater ?_
      cases d <;> simp_all [drop]
    | _ => exact hlater hd

theorem unposted (hd : ∀ s n, d ≠ .posted s n) : ∀ t ∈ past, ¬t.Publishes c other := by
  induction h with
  | nil => simp
  | @cons past d d' t _ ht ih =>
    have hboth (hd : ∀ s n, d ≠ .posted s n) (ht : ¬t.Publishes c other) :
        ∀ u ∈ t :: past, ¬u.Publishes c other := List.forall_mem_cons.mpr ⟨ht, ih hd⟩
    cases ht with
    | minor h =>
      refine hboth hd (not_publishes fun p q hq => ?_)
      rw [hq] at h
      exact h
    | aside _ h =>
      refine hboth hd (not_publishes fun p q hq => ?_)
      simp [hq, Step.isAside] at h
    | unmade h =>
      refine hboth hd ?_
      rintro ⟨p, rfl⟩
      cases h
    | retires n =>
      refine hboth hd ?_
      rintro ⟨p, hp⟩
      have hq := (Step.rename.inj (Taken.mk.inj hp).1).2
      simp [Cache.entryDirectory_eq, Path.joins, ModelIdentity.modelNamespace] at hq
    | opens => exact hboth (by simp) (not_publishes (by simp))
    | brings h =>
      refine hboth (by simp) ?_
      rintro ⟨p, rfl⟩
      obtain ⟨s', h | h⟩ := h
      · have hq := congrArg Path.tail (Step.rename.inj (Taken.mk.inj h).1).2
        simp [Cache.stagedDirectory, Cache.entryDirectory_eq, Path.join, Path.joins,
          Path.inDirectory_tail] at hq
      · exact Step.noConfusion (Taken.mk.inj h).1
    | posts => simp at hd
    | clears hs _ h =>
      refine hboth (fun s n hd' => ?_) (not_publishes fun p q hq => ?_)
      · subst hd'
        exact hd s n rfl
      · rw [hq] at h
        rcases h with h | ⟨_, _, h | h⟩ <;> exact Step.noConfusion h

theorem posted (hd : d = .posted s n) : ∃ later earlier,
    past = later ++ ⟨.rename (c.stagedDirectory env id s) (c.entryDirectory id), .ok ()⟩ :: earlier ∧
      Draft.Trail E c env tools id earlier (.filled s n) := by
  induction h with
  | nil => simp at hd
  | @cons past d d' t h ht ih =>
    have hlater (hd : d = .posted s n) : ∃ later earlier, t :: past =
        later ++ ⟨.rename (c.stagedDirectory env id s) (c.entryDirectory id), .ok ()⟩ :: earlier ∧
          Draft.Trail E c env tools id earlier (.filled s n) := by
      obtain ⟨later, earlier, hp, htrail⟩ := ih hd
      exact ⟨t :: later, earlier, by rw [hp, List.cons_append], htrail⟩
    cases ht with
    | opens | brings => simp at hd
    | posts =>
      obtain ⟨rfl, rfl⟩ := Draft.posted.inj hd
      exact ⟨[], past, rfl, h⟩
    | clears =>
      refine hlater ?_
      cases d <;> simp_all [drop]
    | _ => exact hlater hd

end Draft.Trail

def Draft.At (E : Estate) (c : Cache) (env : Environment) (tools : Invocation → Prop) (id : ModelIdentity)
    (d : Draft) (ns : List Nat) (past : List Taken) : Prop :=
  Draft.Trail E c env tools id past d ∧ held past = ns

namespace Rules

theorem drafting_rely (x y : Moment) (h : (drafting E c env tools id).rely x y) : y.past = x.past := h

theorem drafting_stable (Q : List Taken → Prop) :
    (drafting E c env tools id).Stable fun y => Q y.past := fun y z hz hy => by
  have hz : z.past = y.past := hz
  simpa only [hz] using hy

theorem drafting_perform {s : Step} {Q : s.Reply → List Taken → Prop}
    (h : ∀ r, s.Plausible env r → (∃ d, Draft.Trail E c env tools id (⟨s, r⟩ :: x.past) d) ∧
      Q r (⟨s, r⟩ :: x.past)) :
    (drafting E c env tools id).Safe (fun r y => Q r y.past) (perform s) x := by
  apply Rules.Safe.perform
  intro y hy r w hr
  have hy : y.past = x.past := hy
  obtain ⟨hd, hq⟩ := h r hr
  rw [← hy] at hd hq
  refine ⟨hd, fun z hz => ?_⟩
  have hz : z.past = ⟨s, r⟩ :: y.past := hz
  simpa only [hz] using hq

theorem Safe.together {P : List Taken → Step → Prop} {p : Program α} {post post' : α → Moment → Prop}
    (h : (drafting E c env tools id).Safe post p x) (h' : (traced (Step.Credible env) P).Safe post' p x) :
    (drafting E c env tools id).Safe (fun a y => post a y ∧ post' a y) p x := by
  induction p generalizing x with
  | done a => exact Safe.done_iff.2 fun y hy => ⟨Safe.done_iff.1 h y hy, Safe.done_iff.1 h' y hy⟩
  | step s next ih =>
    rw [Safe.step_iff] at h h' ⊢
    intro y hy r w hr
    exact ⟨(h y hy r w hr).1, ih r (h y hy r w hr).2 (h' y hy r w hr.1).2⟩

theorem Safe.inTemporary {R : Rules} {start : String} {dir : Path} {wrap : FileError → ε}
    {work : Path → Attempt ε α} {Q : Path → Moment → Prop} {post : Except ε α → Moment → Prop}
    (hmade : R.Safe (fun r y => match r with
      | .ok p => Q p y
      | .error e => post (.error (wrap e)) y) (makeTemporary start dir) x)
    (hwork : ∀ p y, Q p y → R.Safe (fun r z => R.Safe (fun _ u => post r u) (removeAll p) z) (work p).run y) :
    R.Safe post (Attempt.inTemporary start dir wrap work).run x := by
  refine .ofThen hmade (fun p y hy => ?_) fun _ _ h => h
  exact .andThen (hwork p y hy) fun r z hz => hz.settled.next fun _ u hu => .pure hu

end Rules

abbrev Minor {α : Type} (E : Estate) (env : Environment) (tools : Invocation → Prop) (post : α → Prop)
    (p : Program α) : Prop :=
  p.Only (Step.Credible env) (Step.Minor E env tools) post

theorem minor_quiet (s : Step) (hs : s.isQuiet = true) : s.Minor E env tools := by
  cases s <;> simp_all [Step.isQuiet, Step.isIdle, Step.Minor]

theorem minor_prompt (s : Step) (hs : s.isPrompt = true) : s.Minor E env tools :=
  minor_quiet s (Step.isQuiet_of_isPrompt hs)

theorem Program.Only.drafting {p : Program α} {post : α → Prop} (h : Minor E env tools post p)
    (hx : d.At E c env tools id ns x.past) :
    (Rules.drafting E c env tools id).Safe (fun a y => post a ∧ d.At E c env tools id ns y.past) p x := by
  refine h.safe (J := fun y => d.At E c env tools id ns y.past) hx (Rules.drafting_stable _)
    fun y s r w hy hs hr => ?_
  have htrail : Draft.Trail E c env tools id (⟨s, r⟩ :: y.past) d := .cons hy.1 (.minor hs)
  exact ⟨hr.1, ⟨d, htrail⟩, htrail, (held_of_minor hs).trans hy.2⟩

section Minor

variable (hS : E.cache.Serves env c.root)
include hS

theorem createAll_minor {n : String} (hn : IsPlain n) :
    Minor E env tools (fun _ => True) (createAll (c.root.join n)) := by
  refine createUpTo_only minor_prompt _ fun q hq => ?_
  rcases above_join hq with rfl | hq
  · exact .inl ⟨_, .cache hS.leads (by simp) (by simpa using hn), Estate.not_stall_top n⟩
  · exact .inr ⟨c.root, hS.held, hq⟩

theorem openStaging_minor : Minor E env tools
    (fun r => ∀ dir, r = .ok dir → dir = c.stagingDirectory) c.openStaging.run :=
  .ofThen (createAll_minor hS (by decide)) (fun _ _ dir h => (Except.ok.inj h).symm)
    fun _ _ _ h => by simp at h

omit hS in
theorem removal_minor {q : Path} (hq : E.cache.Leads env.location q) {a b : String} (ha : IsPlain a)
    (hb : IsPlain b) (hne : a = ".staging" → ∀ s, b ≠ "entry_" ++ s) {more : List String}
    (hm : ∀ s ∈ more, IsPlain s) :
    (Step.removeFile ((q.joins [a, b]).joins more)).Minor E env tools ∧
      (Step.removeDirectory ((q.joins [a, b]).joins more)).Minor E env tools := by
  have hl : ∃ l, E.Spells env.location ((q.joins [a, b]).joins more) l ∧
      ∀ n, ¬E.cache.stagedAt ("entry_" ++ n) <+: l := by
    rw [Path.joins_joins]
    refine ⟨_, .cache hq (by simp) (by simpa using ⟨ha, hb, hm⟩), ?_⟩
    rintro n ⟨rest, hr⟩
    simp only [Site.stagedAt, List.append_assoc, List.append_cancel_left_eq, List.cons_append,
      List.nil_append, List.cons.injEq] at hr
    exact hne hr.1.symm n hr.2.1.symm
  exact ⟨hl, hl⟩

omit hS in
theorem removeAll_minor {q : Path} (hq : E.cache.Leads env.location q) {a b : String} (ha : IsPlain a)
    (hb : IsPlain b) (hne : a = ".staging" → ∀ s, b ≠ "entry_" ++ s) :
    Minor E env tools (fun _ => True) (removeAll (q.joins [a, b])) :=
  removeAll_only minor_prompt plain_of_credible fun _ hm => removal_minor hq ha hb hne hm

omit hS in
theorem removeDirectory_minor {p : Path} (h : Minor E env tools (fun _ => True) (removeAll p)) :
    Minor E env tools (fun _ => True) (Cache.removeDirectory p).run := by
  refine .liftThen h fun r _ => ?_
  cases r with
  | ok _ => trivial
  | error e =>
    simp only
    split <;> trivial

theorem delete_minor : Minor E env tools (fun _ => True) (c.delete id).run := by
  refine removeDirectory_minor ?_
  rw [Cache.entryDirectory_eq]
  exact removeAll_minor hS.leads (by decide) id.isPlain fun h => by simp [ModelIdentity.modelNamespace] at h

omit hS in
theorem writeTexts_minor {q : Path} (texts : List (String × String))
    (h : ∀ text ∈ texts, ∃ l, E.Spells env.location (q.join text.1) l ∧ ¬E.Stall l) :
    Minor E env tools (fun _ => True) (Cache.writeTexts q texts).run := by
  induction texts with
  | nil => trivial
  | cons text texts ih =>
    exact .ofThen (Q := fun _ => True) (.perform (h text (by simp)) fun _ _ => trivial)
      (fun _ _ => ih fun text ht => h text (by simp [ht])) fun _ _ => trivial

omit hS in
theorem writeSources_minor (sources : List (Path × String))
    (h : ∀ source ∈ sources, ∃ l, E.Spells env.location source.1 l ∧ ¬E.Stall l) :
    Minor E env tools (fun _ => True) (Builder.writeSources sources).run := by
  induction sources with
  | nil => trivial
  | cons source sources ih =>
    exact .ofThen (Q := fun _ => True) (.perform (h source (by simp)) fun _ _ => trivial)
      (fun _ _ => ih fun source hs => h source (by simp [hs])) fun _ _ => trivial

end Minor

theorem Cache.stagingDirectory_join (c : Cache) (env : Environment) (n : String) :
    (Path.inDirectory env.directory c.stagingDirectory).join n =
      (Path.inDirectory env.directory c.root).joins [".staging", n] := by
  rw [Cache.stagingDirectory, Path.join_eq_joins (s := ".staging"), Path.inDirectory_joins, Path.joins_join]
  rfl

theorem fileName?_buildDirectory {s' : String} : ((c.buildDirectory env id s').join n).fileName? = some n := by
  rw [Cache.buildDirectory, Path.joins_join]
  exact Path.fileName?_joins _ [_, _] n

section Making

variable {D : String → Draft} {start : String} {dir : Path}
  (hmade : ∀ (s : String) past, s.length = 6 → d.At E c env tools id ns past → (D s).At E c env tools id ns
    (⟨.makeDirectory ((Path.inDirectory env.directory dir).join (start ++ s)), .ok ()⟩ :: past))
  (hfailed : ∀ (s : String) err past, d.At E c env tools id ns past → d.At E c env tools id ns
    (⟨.makeDirectory ((Path.inDirectory env.directory dir).join (start ++ s)), .error err⟩ :: past))
include hmade hfailed

theorem makeFresh_drafting (tries : Nat) (hx : d.At E c env tools id ns x.past) :
    (Rules.drafting E c env tools id).Safe (fun r y => match r with
      | .ok p => ∃ s, p = (Path.inDirectory env.directory dir).join (start ++ s) ∧
          (D s).At E c env tools id ns y.past
      | .error _ => d.At E c env tools id ns y.past)
      (makeFresh start (Path.inDirectory env.directory dir) tries) x := by
  induction tries generalizing x with
  | zero => exact .done hx (Rules.drafting_stable _)
  | succ tries ih =>
    have hdraw : (Rules.drafting E c env tools id).Safe (fun (s : String) y =>
        s.length = 6 ∧ d.At E c env tools id ns y.past) (perform .drawSuffix) x := by
      refine Rules.drafting_perform (s := .drawSuffix)
        (Q := fun (s : String) past => s.length = 6 ∧ d.At E c env tools id ns past) fun s hs => ?_
      have htrail : Draft.Trail E c env tools id (⟨.drawSuffix, s⟩ :: x.past) d := .cons hx.1 (.minor trivial)
      exact ⟨⟨d, htrail⟩, hs.2, htrail, hx.2⟩
    refine hdraw.next fun s y hy => ?_
    let p := (Path.inDirectory env.directory dir).join (start ++ s)
    refine (Rules.drafting_perform (s := .makeDirectory p) (Q := fun (r : Except FileError Unit) past =>
      (match r with | .ok _ => D s | .error _ => d).At E c env tools id ns past) fun r _ => ?_).next
      fun r z hz => ?_
    · cases r with
      | ok _ => exact ⟨⟨_, (hmade s _ hy.1 hy.2).1⟩, hmade s _ hy.1 hy.2⟩
      | error err => exact ⟨⟨_, (hfailed s err _ hy.2).1⟩, hfailed s err _ hy.2⟩
    · cases r with
      | ok _ => exact .done ⟨s, rfl, hz⟩ (Rules.drafting_stable fun past => ∃ s',
          (Path.inDirectory env.directory dir).join (start ++ s) =
            (Path.inDirectory env.directory dir).join (start ++ s') ∧ (D s').At E c env tools id ns past)
      | error err =>
        simp only
        split
        · exact ih hz
        · exact .done hz (Rules.drafting_stable _)

theorem makeTemporary_drafting (hx : d.At E c env tools id ns x.past) :
    (Rules.drafting E c env tools id).Safe (fun r y => match r with
      | .ok p => ∃ s, p = (Path.inDirectory env.directory dir).join (start ++ s) ∧
          (D s).At E c env tools id ns y.past
      | .error _ => d.At E c env tools id ns y.past) (makeTemporary start dir) x := by
  have henv : Minor E env tools (· = env) (perform .environment) := .perform trivial fun _ h => h
  refine (henv.drafting hx).next fun v y hy => ?_
  obtain ⟨rfl, hy⟩ := hy
  exact makeFresh_drafting hmade hfailed maxTries hy

end Making

theorem inTemporary_drafting {start : String} {dir : Path} {wrap : FileError → ε} {work : Path → Attempt ε α}
    {Q : Except ε α → List Taken → Prop} (hx : d.At E c env tools id ns x.past)
    (hmk : ∀ s, (Step.makeDirectory ((Path.inDirectory env.directory dir).join (start ++ s))).Minor E env tools)
    (hrm : ∀ s, Minor E env tools (fun _ => True)
      (removeAll ((Path.inDirectory env.directory dir).join (start ++ s))))
    (hwork : ∀ s y, d.At E c env tools id ns y.past → (Rules.drafting E c env tools id).Safe
      (fun r z => Q r z.past ∧ ∃ d' : Draft, d'.At E c env tools id ns z.past)
      (work ((Path.inDirectory env.directory dir).join (start ++ s))).run y)
    (herr : ∀ e past, d.At E c env tools id ns past → Q (.error (wrap e)) past)
    (hpost : ∀ r t past, t.step.Minor E env tools → Q r past → Q r (t :: past)) :
    (Rules.drafting E c env tools id).Safe (fun r y => Q r y.past) (Attempt.inTemporary start dir wrap work).run x := by
  refine .inTemporary (Q := fun p y => ∃ s, p = (Path.inDirectory env.directory dir).join (start ++ s) ∧
    d.At E c env tools id ns y.past) ?_ ?_
  · have hsame (s : String) (r : Except FileError Unit) (past : List Taken) (hp : d.At E c env tools id ns past) :
        d.At E c env tools id ns
          (⟨.makeDirectory ((Path.inDirectory env.directory dir).join (start ++ s)), r⟩ :: past) :=
      ⟨.cons hp.1 (.minor (hmk s)), hp.2⟩
    refine (makeTemporary_drafting (D := fun _ => d) (fun s past _ => hsame s (.ok ()) past)
      (fun s err => hsame s (.error err)) hx).weaken fun r y hy => ?_
    · cases r with
      | ok p => exact hy
      | error err => exact herr err _ hy
  · rintro p y ⟨s, rfl, hy⟩
    refine (hwork s y hy).weaken fun r z hz => ?_
    obtain ⟨hr, d', hd'⟩ := hz
    refine ((hrm s).safe (J := fun u => Q r u.past ∧ d'.At E c env tools id ns u.past) ⟨hr, hd'⟩
      (Rules.drafting_stable fun past => Q r past ∧ d'.At E c env tools id ns past)
      fun u s r' w hu hs hr' => ?_).weaken fun _ u hu => hu.2.1
    have htrail : Draft.Trail E c env tools id (⟨s, r'⟩ :: u.past) d' := .cons hu.2.1 (.minor hs)
    exact ⟨hr'.1, ⟨d', htrail⟩, hpost r ⟨s, r'⟩ _ hs hu.1, htrail, (held_of_minor hs).trans hu.2.2⟩

def Reports (c : Cache) (env : Environment) (id : ModelIdentity) (s : String)
    (r : Except BuildError BuildOutput) (past : List Taken) : Prop :=
  ∀ output, r = .ok output → ∃ n, output.file = (c.buildDirectory env id s).join n ∧
    ModuleFile.isName n = true ∧ ∃ u ∈ past, u.Builds id n

theorem Reports.error {err : BuildError} : Reports c env id s (.error err) past := fun _ h => by simp at h

theorem Reports.later {r : Except BuildError BuildOutput} (h : Reports c env id s r past) :
    Reports c env id s r (t :: past) := fun output ho =>
  have ⟨n, hf, hn, u, hu, hb⟩ := h output ho
  ⟨n, hf, hn, u, List.mem_cons_of_mem _ hu, hb⟩

section Engine

variable (hE : e.Settled E env) (htools : ∀ i, e.Starts env i → tools i)
include hE htools

theorem translate_minor : Minor E env tools (fun _ => True) (e.translator.translate source id).run := by
  rw [Translator.translate_eq]
  refine .liftThen (quiet_only minor_quiet rfl) fun v hv => ?_
  simp only [hE.scratchRoot, Option.getD_some]
  have hplain (s : String) : IsPlain ("stanbind_" ++ s) := plain_of_start (by decide) s
  have hentry (s s' : String) : "stanbind_" ++ s ≠ "entry_" ++ s' :=
    ne_of_head (by decide) (by decide) (by decide) s s'
  have hbuild (s s' : String) : "stanbind_" ++ s ≠ "build_" ++ s' :=
    ne_of_head (by decide) (by decide) (by decide) s s'
  refine inTemporary_only minor_prompt (fun s => ?_) (fun s names hn => ?_) (fun s => ?_) fun _ => trivial
  · rw [Cache.stagingDirectory_join]
    exact .inl ⟨_, .cache hE.serves.full (by simp) (by simpa using ⟨by decide, hplain s⟩),
      Estate.not_stall_staging _⟩
  · rw [Cache.stagingDirectory_join]
    exact removal_minor hE.serves.full (by decide) (hplain s) (fun _ => hentry s) hn
  · rw [Cache.stagingDirectory_join]
    have hfile : ((Path.inDirectory env.directory e.cache.root).joins [".staging", "stanbind_" ++ s]).join
        (id.name ++ ".stan") = (Path.inDirectory env.directory e.cache.root).joins
          [".staging", "stanbind_" ++ s, id.name ++ ".stan"] := Path.joins_join
    rw [hfile]
    refine .ofThen (Q := fun _ => True) (.perform ?_ fun _ _ => trivial) (fun _ _ => ?_) fun _ _ => trivial
    · refine ⟨_, .cache hE.serves.full (by simp) ?_, ?_⟩
      · exact List.forall_mem_cons.mpr ⟨by decide, List.forall_mem_cons.mpr ⟨hplain s,
          List.forall_mem_singleton.mpr (id.plain_append ".stan")⟩⟩
      · have h : ¬E.Stall (E.cache.stagedAt ("stanbind_" ++ s) ++ [id.name ++ ".stan"]) :=
          Estate.not_stall_elsewhere (hentry s) (hbuild s)
        simpa [Site.stagedAt] using h
    · exact transcribe_only minor_quiet (htools _ (.translator id s))

omit hE in
theorem compileFiles_drafting (compiler : Compiler) (source s s' : String) (processNumber : Nat)
    (hx : d.At E e.cache env tools id ns x.past) :
    (Rules.drafting E e.cache env tools id).Safe
      (fun r y => Reports e.cache env id s' r y.past ∧ d.At E e.cache env tools id ns y.past)
      (e.builder.compileFiles compiler source id processNumber
        [(Path.inDirectory env.directory env.temporaryDirectory).joins ["stanbind_build_" ++ s, id.name ++ ".cpp"],
          (Path.inDirectory env.directory env.temporaryDirectory).joins ["stanbind_build_" ++ s, Glue.fileName]]
        (e.cache.buildDirectory env id s')).run x := by
  have hdone {r : Except BuildError BuildOutput} {y : Moment}
      (hy : Reports e.cache env id s' r y.past ∧ d.At E e.cache env tools id ns y.past) :
      (Rules.drafting E e.cache env tools id).Safe
        (fun r y => Reports e.cache env id s' r y.past ∧ d.At E e.cache env tools id ns y.past)
        (Pure.pure r) y :=
    .done hy (Rules.drafting_stable fun past =>
      Reports e.cache env id s' r past ∧ d.At E e.cache env tools id ns past)
  refine .liftThen ((quiet_only minor_quiet rfl).drafting hx) fun nanos y hy => ?_
  have hstarts (number : String) : (Step.start ⟨compiler.executable, e.builder.toolchain.arguments compiler
      [(Path.inDirectory env.directory env.temporaryDirectory).joins ["stanbind_build_" ++ s, id.name ++ ".cpp"],
        (Path.inDirectory env.directory env.temporaryDirectory).joins ["stanbind_build_" ++ s, Glue.fileName]]
      ((e.cache.buildDirectory env id s').join (ModuleFile.name id number)), .piped, .inherited⟩).Minor E env
        tools := by
    rw [Cache.buildDirectory, Path.joins_join]
    exact htools _ (.compiler compiler id s s' number)
  refine .liftThen ((recorded_only minor_quiet (runToEnd_only minor_quiet (hstarts _))).drafting hy.2)
    fun r z hz => ?_
  obtain ⟨r, captured⟩ := r
  cases r with
  | error cause => exact hdone ⟨.error, hz.2⟩
  | ok out =>
    obtain ⟨out, status⟩ := out
    simp only
    split
    · exact hdone ⟨.error, hz.2⟩
    · refine .liftThen ((isFile_only (minor_quiet _ rfl)).drafting hz.2) fun b u hu => ?_
      split
      · exact hdone ⟨.error, hu.2⟩
      · let n := ModuleFile.name id (Builder.buildNumber source nanos processNumber)
        let file := (e.cache.buildDirectory env id s').join n
        refine .liftThen (Q := fun _ v => (⟨.emit (.built id.key file), ()⟩ : Taken) ∈ v.past ∧
          d.At E e.cache env tools id ns v.past) ?_ fun _ v hv => hdone ⟨fun output ho => ?_, hv.2⟩
        · refine Rules.drafting_perform (s := .emit _) (Q := fun _ past =>
            (⟨.emit (.built id.key file), ()⟩ : Taken) ∈ past ∧ d.At E e.cache env tools id ns past)
            fun _ _ => ?_
          have htrail : Draft.Trail E e.cache env tools id (⟨.emit (.built id.key file), ()⟩ :: u.past) d :=
            .cons hu.2.1 (.minor trivial)
          exact ⟨⟨d, htrail⟩, List.mem_cons_self, htrail, hu.2.2⟩
        · obtain rfl := Except.ok.inj ho
          exact ⟨n, rfl, ModuleFile.isName_name id _ _ _, _, hv.1, file, rfl, fileName?_buildDirectory⟩

theorem build_drafting {s' : String} (hx : d.At E e.cache env tools id ns x.past) :
    (Rules.drafting E e.cache env tools id).Safe
      (fun r y => Reports e.cache env id s' r y.past ∧ d.At E e.cache env tools id ns y.past)
      (e.builder.build source id (e.cache.buildDirectory env id s')).run x := by
  have hscratch (s : String) {names : List String} (hn : ∀ n ∈ names, IsPlain n) : ∃ l, E.Spells env.location
      (((Path.inDirectory env.directory env.temporaryDirectory).join ("stanbind_build_" ++ s)).joins names) l ∧
        E.scratch l := by
    obtain ⟨k, hk⟩ := hE.temp
    rw [Path.join_eq_joins, Path.joins_joins]
    exact ⟨_, .temp hk hn, k, s, names, by simp⟩
  rw [Builder.build_eq]
  refine .attempt ((find_only minor_quiet fun c => htools _ (.probe c)).drafting hx) (fun c y hy => ?_)
    fun err y hy => ⟨.error, hy.2⟩
  have hlook : Minor E env tools (Step.Credible env .environment) (perform .environment) :=
    quiet_only minor_quiet rfl
  refine .liftThen (hlook.drafting hy.2) fun v z hz => ?_
  obtain ⟨hv, hz⟩ := hz
  obtain rfl : v = env := hv
  refine inTemporary_drafting (d := d) (Q := fun r past => Reports e.cache v id s' r past ∧
    d.At E e.cache v tools id ns past) hz (fun s => ?_) (fun s => ?_) (fun s u hu => ?_)
    (fun _ _ hp => ⟨.error, hp⟩) fun r t past ht hp => ?_
  · obtain ⟨l, hl, hs⟩ := hscratch s (List.forall_mem_nil _)
    rw [Path.joins_nil] at hl
    exact .inl ⟨l, hl, Estate.not_stall_scratch hs⟩
  · refine removeAll_only minor_prompt plain_of_credible fun names hn => ?_
    obtain ⟨l, hl, hs⟩ := hscratch s hn
    have hminor : ∃ l, E.Spells v.location (((Path.inDirectory v.directory v.temporaryDirectory).join
        ("stanbind_build_" ++ s)).joins names) l ∧ ∀ n, ¬E.cache.stagedAt ("entry_" ++ n) <+: l := by
      refine ⟨l, hl, ?_⟩
      rintro n ⟨rest, rfl⟩
      exact Estate.scratch_ne hs _ (List.append_assoc ..)
    exact ⟨hminor, hminor⟩
  · have hwritten {n : String} (hn : IsPlain n) : ∃ l, E.Spells v.location
        (((Path.inDirectory v.directory v.temporaryDirectory).join ("stanbind_build_" ++ s)).join n) l ∧
          ¬E.Stall l := by
      obtain ⟨l, hl, hs⟩ := hscratch s (List.forall_mem_singleton.mpr hn)
      exact ⟨l, hl, Estate.not_stall_scratch hs⟩
    refine .attempt ((writeSources_minor (E := E) _ ?_).drafting hu) (fun _ o ho => ?_) fun _ _ hr => ?_
    · simp only [List.forall_mem_cons]
      exact ⟨hwritten (id.plain_append ".cpp"), hwritten (by decide), by simp⟩
    · have hfiles := (compileFiles_drafting htools c source s s' v.processNumber ho.2).weaken fun r y hy => (⟨hy, d, hy.2⟩ :
          (Reports e.cache v id s' r y.past ∧ d.At E e.cache v tools id ns y.past) ∧
            ∃ d' : Draft, d'.At E e.cache v tools id ns y.past)
      simpa [Path.join, Path.joins] using hfiles
    · exact ⟨⟨.error, hr.2⟩, d, hr.2⟩
  · exact ⟨hp.1.later, .cons hp.2.1 (.minor ht), (held_of_minor ht).trans hp.2.2⟩

omit hE htools in
theorem Draft.At.minor {s : Step} {r : s.Reply} (h : d.At E c env tools id ns past) (hs : s.Minor E env tools) :
    d.At E c env tools id ns (⟨s, r⟩ :: past) :=
  ⟨.cons h.1 (.minor hs), (held_of_minor hs).trans h.2⟩

omit hE htools in
theorem Draft.At.unmade (h : d.At E c env tools id ns past) (ht : t.Unmade) :
    d.At E c env tools id ns (t :: past) :=
  ⟨.cons h.1 (.unmade ht), (held_of_unmade ht).trans h.2⟩

omit hE htools in
theorem Draft.At.clears {s : Step} {r : s.Reply} {n : String} (h : d.At E c env tools id ns past)
    (hd : d.suffix? = some n) (hns : ns ≠ []) (hs : s.Clears (c.stagedDirectory env id n)) :
    d.drop.At E c env tools id ns (⟨s, r⟩ :: past) :=
  ⟨.cons h.1 (.clears hd (h.2 ▸ hns) hs), (held_of_clears hs).trans h.2⟩

omit hE htools in
theorem Draft.drop_drop (d : Draft) : d.drop.drop = d.drop := by cases d <;> rfl

section Store

variable (hS : E.cache.Serves env c.root) (hns : ns ≠ [])
omit hE htools

theorem removeAll_drafting {s : String} (hns : ns ≠ []) (hd : d.suffix? = some s)
    (hx : d.At E c env tools id ns x.past) :
    (Rules.drafting E c env tools id).Safe (fun _ y => d.drop.At E c env tools id ns y.past)
      (removeAll (c.stagedDirectory env id s)) x := by
  have hd' : d.drop.suffix? = some s := (Draft.suffix?_drop d).trans hd
  have honly {α : Type} {p : Program α} {y : Moment} (hy : d.drop.At E c env tools id ns y.past)
      (hp : p.Only (Step.Credible env) (fun step => step.Minor E env tools ∨
        step.Clears (c.stagedDirectory env id s)) fun _ => True) :
      (Rules.drafting E c env tools id).Safe (fun _ y => d.drop.At E c env tools id ns y.past) p y := by
    refine (hp.safe (J := fun y => d.drop.At E c env tools id ns y.past) hy (Rules.drafting_stable _)
      fun z step r w hz hs hr => ?_).weaken fun _ _ h => h.2
    have hnext : d.drop.At E c env tools id ns (⟨step, r⟩ :: z.past) := by
      rcases hs with hs | hs
      · exact hz.minor hs
      · exact Draft.drop_drop d ▸ hz.clears hd' hns hs
    exact ⟨hr.1, ⟨_, hnext.1⟩, hnext⟩
  have hclears {names : List String} (hn : ∀ n ∈ names, IsPlain n) :
      (Step.removeFile ((c.stagedDirectory env id s).joins names)).Clears (c.stagedDirectory env id s) ∧
        (Step.removeDirectory ((c.stagedDirectory env id s).joins names)).Clears (c.stagedDirectory env id s) :=
    ⟨.inr ⟨names, hn, .inl rfl⟩, .inr ⟨names, hn, .inr rfl⟩⟩
  refine (Rules.drafting_perform (s := .stat (c.stagedDirectory env id s) false)
    (Q := fun _ past => d.drop.At E c env tools id ns past) fun r _ => ?_).next fun r y hy => ?_
  · have hnext : d.drop.At E c env tools id ns (⟨.stat (c.stagedDirectory env id s) false, r⟩ :: x.past) :=
      hx.clears hd hns (.inl rfl)
    exact ⟨⟨_, hnext.1⟩, hnext⟩
  · refine honly hy ?_
    cases r with
    | error err => trivial
    | ok node =>
      cases node with
      | link target =>
        have h := (hclears (List.forall_mem_nil _)).1
        rw [Path.joins_nil] at h
        exact ⟨.inr h, fun _ _ => trivial⟩
      | directory =>
        have hbelow : (removeBelow maxNesting ((c.stagedDirectory env id s).joins [])).Only (Step.Credible env)
            (fun step => step.Minor E env tools ∨ step.Clears (c.stagedDirectory env id s)) fun _ => True :=
          removeBelow_only (fun step hs => .inl (minor_prompt step hs)) maxNesting plain_of_credible
            (List.forall_mem_nil _) fun names hn => ⟨.inr (hclears hn).1, .inr (hclears hn).2⟩
        rwa [Path.joins_nil] at hbelow
      | file => trivial
      | other => trivial

def Draft.brought (s n : String) : Except ε α → Draft
  | .ok _ => .filled s n
  | .error _ => .opened s

include hS in
theorem moveFile_drafting {s s' : String} (hn : ModuleFile.isName n = true) (hb : ∃ u ∈ x.past, u.Builds id n)
    (hx : (Draft.opened s).At E c env tools id ns x.past) :
    (Rules.drafting E c env tools id).Safe (fun r y => (Draft.brought s n r).At E c env tools id ns y.past)
      (Cache.moveFile ((c.buildDirectory env id s').join n) ((c.stagedDirectory env id s).join n)).run x := by
  let source := (c.buildDirectory env id s').join n
  let target := (c.stagedDirectory env id s).join n
  have hbrings {t : Taken} {past : List Taken} (ht : t.Brings c env id s n) (hb : ∃ u ∈ past, u.Builds id n)
      (hp : (Draft.opened s).At E c env tools id ns past) : (Draft.filled s n).At E c env tools id ns (t :: past) :=
    ⟨.cons hp.1 (.brings ht hn hb), (held_of_brings ht).trans hp.2⟩
  have hremove : Minor E env tools (fun _ => True) (perform (.removeFile source)) :=
    .perform (removal_minor hS.full (by decide) (Estate.plain_build id s') (fun _ s => by
      rw [String.append_assoc, String.append_assoc]
      exact ne_of_head (by decide) (by decide) (by decide) _ s)
      (List.forall_mem_singleton.mpr (ModuleFile.plain_of_isName hn))).1 fun _ _ => trivial
  obtain ⟨u, hu, hbuilds⟩ := hb
  refine .liftThen (Q := fun r y => (Draft.brought s n r).At E c env tools id ns y.past ∧ u ∈ y.past) ?_
    fun r y hy => ?_
  · refine Rules.drafting_perform (s := .rename source target) (Q := fun (r : Except FileError Unit) past =>
      (Draft.brought s n r).At E c env tools id ns past ∧ u ∈ past) fun r _ => ?_
    have hnext : (Draft.brought s n r).At E c env tools id ns (⟨.rename source target, r⟩ :: x.past) := by
      cases r with
      | ok _ => exact hbrings ⟨s', .inl rfl⟩ ⟨u, hu, hbuilds⟩ hx
      | error err => exact hx.unmade (.rename source target err)
    exact ⟨⟨_, hnext.1⟩, hnext, List.mem_cons_of_mem _ hu⟩
  · cases r with
    | ok _ => exact .done hy.1 (Rules.drafting_stable _)
    | error err =>
      refine .ofThen (Q := fun r y => (Draft.brought s n r).At E c env tools id ns y.past) ?_ (fun _ z hz => ?_)
        fun _ _ h => h
      · refine Rules.drafting_perform (s := .copy source target) (Q := fun (r : Except FileError Unit) past =>
          (Draft.brought s n r).At E c env tools id ns past) fun r _ => ?_
        have hnext : (Draft.brought s n r).At E c env tools id ns (⟨.copy source target, r⟩ :: y.past) := by
          cases r with
          | ok _ => exact hbrings ⟨s', .inr rfl⟩ ⟨u, hy.2, hbuilds⟩ hy.1
          | error err => exact hy.1.unmade (.copy source target err)
        exact ⟨⟨_, hnext.1⟩, hnext⟩
      · exact .liftThen (hremove.drafting hz) fun _ u hu => .done hu.2 (Rules.drafting_stable _)

include hS in
theorem retire_drafting (staged : Path) (hx : d.At E c env tools id ns x.past) :
    (Rules.drafting E c env tools id).Safe (fun _ y => d.At E c env tools id ns y.past) (c.retire id staged).run x := by
  have hdone {r : Except CacheError Unit} {y : Moment} (hy : d.At E c env tools id ns y.past) :
      (Rules.drafting E c env tools id).Safe (fun _ y => d.At E c env tools id ns y.past)
        (Pure.pure r : Program (Except CacheError Unit)) y := .done hy (Rules.drafting_stable _)
  refine .liftThen ((pathExists_only (minor_prompt _ rfl)).drafting hx) fun b y hy => ?_
  split
  case isFalse => exact hdone hy.2
  obtain ⟨name, hname⟩ : ∃ name, name = id.name ++ "_" ++ staged.fileName?.getD "entry" := ⟨_, rfl⟩
  have hb : c.stagingDirectory.join ("retired_" ++ id.name ++ "_" ++ staged.fileName?.getD "entry") =
      c.root.joins [".staging", "retired_" ++ name] := by
    simp [Cache.stagingDirectory, Path.join, Path.joins, hname, String.append_assoc]
  refine .ofThen (Q := fun _ y => d.At E c env tools id ns y.past) ?_ (fun _ z hz => ?_) fun _ _ h => h
  · refine Rules.drafting_perform (s := .rename _ _) (Q := fun _ past => d.At E c env tools id ns past)
      fun r _ => ?_
    have hnext : d.At E c env tools id ns (⟨.rename (c.entryDirectory id) (c.root.joins [".staging",
        "retired_" ++ name]), r⟩ :: y.past) := by
      cases r with
      | ok _ => exact ⟨.cons hy.2.1 (.retires name), hy.2.2⟩
      | error err => exact hy.2.unmade (.rename _ _ err)
    rw [← hb] at hnext
    exact ⟨⟨_, hnext.1⟩, hnext⟩
  · have hremove : Minor E env tools (fun _ => True) (removeAll (c.root.joins [".staging", "retired_" ++ name])) :=
      removeAll_minor hS.leads (by decide) (plain_of_start (by decide) _)
        fun _ s => ne_of_head (by decide) (by decide) (by decide) _ s
    rw [← hb] at hremove
    refine .liftThen (hremove.drafting hz) fun r u hu => ?_
    cases r with
    | ok _ => exact hdone hu.2
    | error err =>
      exact ((quiet_only minor_quiet rfl).drafting hu.2).next fun _ _ hv => hdone hv.2

def Draft.Ends (s n : String) (r : Except ε α) (d : Draft) : Prop :=
  d.suffix? = some s ∧ ∀ a, r = .ok a → d = .posted s n

include hS in
theorem assemble_drafting {s s' output warnings : String} {manifest : Manifest}
    (hn : ModuleFile.isName n = true) (hb : ∃ u ∈ x.past, u.Builds id n)
    (hx : (Draft.opened s).At E c env tools id ns x.past) :
    (Rules.drafting E c env tools id).Safe (fun r y => ∃ d : Draft, d.Ends s n r ∧ d.At E c env tools id ns y.past)
      (c.assemble id ((c.buildDirectory env id s').join n) output warnings manifest
        (c.stagedDirectory env id s)).run x := by
  have hfilled {ε α : Type} {err : ε} {y : Moment} (hy : (Draft.filled s n).At E c env tools id ns y.past) :
      ∃ d : Draft, d.Ends s n (.error err : Except ε α) ∧ d.At E c env tools id ns y.past :=
    ⟨_, ⟨rfl, by simp⟩, hy⟩
  rw [Cache.assemble, fileName?_buildDirectory]
  refine .attempt (moveFile_drafting hS hn hb hx) (fun _ y hy => ?_) fun err y hy => ⟨_, ⟨rfl, by simp⟩, hy⟩
  have hy : (Draft.filled s n).At E c env tools id ns y.past := hy
  have htexts : ∀ text ∈ Cache.texts output warnings manifest, ∃ l,
      E.Spells env.location ((c.stagedDirectory env id s).join text.1) l ∧ ¬E.Stall l := by
    intro text ht
    refine ⟨E.cache.stagedAt (stagedName id s) ++ [text.1], ?_, Estate.not_stall_other
      (ModuleFile.not_isName_of_mem_texts (List.mem_map_of_mem ht))⟩
    rw [Cache.stagedDirectory, Path.joins_join, Site.stagedAt, List.append_assoc]
    exact .cache hS.full (by simp) (List.forall_mem_cons.mpr ⟨by decide, List.forall_mem_cons.mpr
      ⟨plain_stagedName id s, List.forall_mem_singleton.mpr (Cache.plain_texts _ _ _ text ht)⟩⟩)
  refine .attempt ((writeTexts_minor _ htexts).drafting hy) (fun _ z hz => ?_) fun _ _ h => hfilled h.2
  refine .ofThen ((createAll_minor hS (by decide)).drafting hz.2) (fun _ u hu => ?_) fun _ _ h => hfilled h.2
  refine .attempt (retire_drafting hS _ hu.2) (fun _ v hv => ?_) fun _ _ h => hfilled h
  refine .ofThen (Q := fun r y => ∃ d : Draft, d.Ends s n r ∧ d.At E c env tools id ns y.past) ?_
    (fun _ w hw => ?_) fun _ w hw => ?_
  · refine Rules.drafting_perform (s := .rename (c.stagedDirectory env id s) (c.entryDirectory id))
      (Q := fun (r : Except FileError Unit) past => ∃ d : Draft, d.Ends s n r ∧ d.At E c env tools id ns past)
      fun r _ => ?_
    cases r with
    | ok _ =>
      have hnext : (Draft.posted s n).At E c env tools id ns
          (⟨.rename (c.stagedDirectory env id s) (c.entryDirectory id), .ok ()⟩ :: v.past) :=
        ⟨.cons hv.1 .posts, hv.2⟩
      exact ⟨⟨_, hnext.1⟩, _, ⟨rfl, fun _ _ => rfl⟩, hnext⟩
    | error err =>
      have hnext := hv.unmade (.rename (c.stagedDirectory env id s) (c.entryDirectory id) err)
      exact ⟨⟨_, hnext.1⟩, _, ⟨rfl, by simp⟩, hnext⟩
  · obtain ⟨d, ⟨hs, hd⟩, hat⟩ := hw
    exact .done ⟨d, ⟨hs, fun _ _ => hd _ rfl⟩, hat⟩ (Rules.drafting_stable fun past => ∃ d : Draft,
      d.Ends s n (Except.ok ((c.entryDirectory id).join n) : Except CacheError Path) ∧ d.At E c env tools id ns past)
  · obtain ⟨d, ⟨hs, -⟩, hat⟩ := hw
    exact ⟨d, ⟨hs, by simp⟩, hat⟩

def Draft.Closes (r : Except ε α) (d : Draft) : Prop :=
  d.isOpen = false ∧ ∀ a, r = .ok a → ∃ s n, d = .posted s n

include hS hns in
theorem store_drafting {s' output warnings : String} {manifest : Manifest}
    (hn : ModuleFile.isName n = true) (hb : ∃ u ∈ x.past, u.Builds id n)
    (hx : Draft.blank.At E c env tools id ns x.past) :
    (Rules.drafting E c env tools id).Safe (fun r y => ∃ d : Draft, d.Closes r ∧ d.At E c env tools id ns y.past)
      (c.store id ((c.buildDirectory env id s').join n) output warnings manifest).run x := by
  have hdir (s : String) : (Path.inDirectory env.directory c.stagingDirectory).join
      ("entry_" ++ id.name ++ "_" ++ s) = c.stagedDirectory env id s := c.stagingDirectory_join env _
  have hend (s : String) {d : Draft} {r : Except CacheError Path} {y : Moment} (hd : d.Ends s n r)
      (hy : d.At E c env tools id ns y.past) :
      (Rules.drafting E c env tools id).Safe (fun _ z => ∃ d : Draft, d.Closes r ∧ d.At E c env tools id ns z.past)
        (removeAll (c.stagedDirectory env id s)) y :=
    (removeAll_drafting hns hd.1 hy).weaken fun _ z hz =>
      ⟨d.drop, ⟨d.isOpen_drop, fun a ha => ⟨s, n, by rw [hd.2 a ha]; rfl⟩⟩, hz⟩
  have hmade (s : String) (past : List Taken) (hs : s.length = 6) (hy : Draft.blank.At E c env tools id ns past) :
      (Draft.opened s).At E c env tools id ns (⟨.makeDirectory (c.stagedDirectory env id s), .ok ()⟩ :: past) :=
    ⟨.cons hy.1 (.opens hs (hy.2 ▸ hns)), hy.2⟩
  have hfailed (s : String) (err : FileError) (past : List Taken) (hy : Draft.blank.At E c env tools id ns past) :
      Draft.blank.At E c env tools id ns (⟨.makeDirectory (c.stagedDirectory env id s), .error err⟩ :: past) := by
    refine hy.minor (.inl ⟨_, ?_, Estate.not_stall_staging (stagedName id s)⟩)
    exact .cache hS.full (by simp) (by simpa using ⟨by decide, plain_stagedName id s⟩)
  obtain ⟨u, hu, hbuilds⟩ := hb
  rw [Cache.store_eq]
  refine .attempt (((openStaging_minor hS).drafting hx).recalls Rules.drafting_rely hu) (fun dir y hy => ?_)
    fun _ _ hy => ⟨.blank, ⟨rfl, by simp⟩, hy.2.2⟩
  obtain ⟨hu, hr, hy⟩ := hy
  obtain rfl := hr dir rfl
  refine .inTemporary (Q := fun p z => u ∈ z.past ∧ ∃ s, p = c.stagedDirectory env id s ∧
    (Draft.opened s).At E c env tools id ns z.past)
    (((makeTemporary_drafting (D := .opened) (fun s past => (hdir s).symm ▸ hmade s past)
      (fun s err past => (hdir s).symm ▸ hfailed s err past) hy).recalls Rules.drafting_rely hu).weaken
      fun r z hz => ?_) fun p z hz => ?_
  · cases r with
    | ok p =>
      obtain ⟨hu, s, rfl, hat⟩ := hz
      exact ⟨hu, s, hdir s, hat⟩
    | error err => exact ⟨.blank, ⟨rfl, by simp⟩, hz.2⟩
  · obtain ⟨hu, s, rfl, hat⟩ := hz
    refine (assemble_drafting hS hn ⟨u, hu, hbuilds⟩ hat).weaken fun r v hv => ?_
    obtain ⟨d, hd, hv⟩ := hv
    exact hend s hd hv

end Store

omit hE htools in
theorem Draft.At.closes_error {err : ε} (h : Draft.blank.At E c env tools id ns past) :
    ∃ d : Draft, d.Closes (.error err : Except ε α) ∧ d.At E c env tools id ns past :=
  ⟨.blank, ⟨rfl, by simp⟩, h⟩

theorem construct_drafting {s' : String} (hns : ns ≠ []) (hx : Draft.blank.At E e.cache env tools id ns x.past) :
    (Rules.drafting E e.cache env tools id).Safe
      (fun r y => ∃ d : Draft, d.Closes r ∧ d.At E e.cache env tools id ns y.past)
      (e.cache.construct id source e.translator e.builder (e.cache.buildDirectory env id s')).run x := by
  refine .ofThen ((translate_minor hE htools).drafting hx) (fun translation y hy => ?_)
    fun _ _ hy => hy.2.closes_error
  refine .ofThen (build_drafting hE htools hy.2) (fun output z hz => ?_) fun _ _ hz => hz.2.closes_error
  obtain ⟨hreports, hz⟩ := hz
  obtain ⟨n, hfile, hn, u, hu, hb⟩ := hreports output rfl
  refine .liftThen (((quiet_only minor_quiet rfl).drafting hz).recalls Rules.drafting_rely hu) fun now v hv => ?_
  rw [hfile]
  refine .ofThen (store_drafting hE.serves hns hn ⟨u, hv.1, hb⟩ hv.2.2) (fun file o ho => ?_)
    fun _ _ ho => ?_
  · obtain ⟨d, hd, ho⟩ := ho
    refine .liftThen ((quiet_only (s := .emit _) minor_quiet rfl).drafting ho) fun _ o' ho' => ?_
    exact .done ⟨d, ⟨hd.1, fun _ _ => hd.2 file rfl⟩, ho'.2⟩ (Rules.drafting_stable fun past =>
      ∃ d : Draft, d.Closes _ ∧ d.At E e.cache env tools id ns past)
  · obtain ⟨d, hd, ho⟩ := ho
    exact ⟨d, ⟨hd.1, by simp⟩, ho⟩

theorem compileModel_drafting (hns : ns ≠ []) (hx : Draft.blank.At E e.cache env tools id ns x.past) :
    (Rules.drafting E e.cache env tools id).Safe
      (fun r y => ∃ d : Draft, d.Closes r ∧ d.At E e.cache env tools id ns y.past)
      (e.cache.compileModel id source e.translator e.builder).run x := by
  have hdir (s : String) : (Path.inDirectory env.directory e.cache.stagingDirectory).join
      ("build_" ++ id.name ++ "_" ++ s) = e.cache.buildDirectory env id s := e.cache.stagingDirectory_join env _
  rw [Cache.compileModel_eq]
  refine .ofThen ((openStaging_minor hE.serves).drafting hx) (fun dir y hy => ?_)
    fun _ _ hy => hy.2.closes_error
  obtain rfl := hy.1 dir rfl
  refine inTemporary_drafting (Q := fun r past => ∃ d : Draft, d.Closes r ∧
    d.At E e.cache env tools id ns past) hy.2 (fun s => ?_) (fun s => ?_) (fun s z hz => ?_)
    (fun _ _ hp => hp.closes_error) fun r t past ht hp => ?_
  · rw [hdir]
    refine .inl ⟨_, .cache hE.serves.full (by simp) ?_, Estate.not_stall_staging _⟩
    exact List.forall_mem_cons.mpr ⟨by decide, List.forall_mem_singleton.mpr (Estate.plain_build id s)⟩
  · rw [hdir]
    refine removeAll_minor hE.serves.full (by decide) (Estate.plain_build id s) fun _ s' => ?_
    rw [String.append_assoc, String.append_assoc]
    exact ne_of_head (by decide) (by decide) (by decide) _ _
  · rw [hdir]
    refine (construct_drafting hE htools hns hz).weaken fun r u hu => ⟨hu, ?_⟩
    obtain ⟨d, -, hu⟩ := hu
    exact ⟨d, hu⟩
  · obtain ⟨d, hd, hp⟩ := hp
    exact ⟨d, hd, hp.minor ht⟩

omit hE htools in
theorem Program.Only.idles {p : Program α} {post : α → Prop}
    (h : p.Only (Step.Credible env) (fun s => s.Minor E env tools ∨ s.isAside = true) post)
    (hd : d.isOpen = false) (hx : Draft.Trail E c env tools id x.past d) :
    (Rules.drafting E c env tools id).Safe (fun a y => post a ∧ Draft.Trail E c env tools id y.past d) p x := by
  refine h.safe (J := fun y => Draft.Trail E c env tools id y.past d) hx
    (Rules.drafting_stable fun past => Draft.Trail E c env tools id past d) fun y s r w hy hs hr => ?_
  have htrail : Draft.Trail E c env tools id (⟨s, r⟩ :: y.past) d :=
    .cons hy (hs.elim (fun hs => .minor hs) fun hs => .aside hd hs)
  exact ⟨hr.1, ⟨d, htrail⟩, htrail⟩

omit htools in
theorem approach_idles : (e.approach id source).Only (Step.Credible env)
    (fun s => s.Minor E env tools ∨ s.isAside = true) fun r => ∀ hit, r = .error (.ok hit) → hit.cached = true := by
  have hminor {α : Type} {p : Program α} {post : α → Prop} (h : Minor E env tools post p) :
      p.Only (Step.Credible env) (fun s => s.Minor E env tools ∨ s.isAside = true) post :=
    h.mono fun _ => .inl
  have haside {s : Step} (h : s.isAside = true) : (perform s).Only (Step.Credible env)
      (fun s => s.Minor E env tools ∨ s.isAside = true) fun _ => True := .perform (.inr h) fun _ _ => trivial
  have hcached : (e.cached id source).Only (Step.Credible env) (fun s => s.Minor E env tools ∨ s.isAside = true)
      fun o => ∀ hit, o = some hit → hit.cached = true :=
    hminor (cached_found fun s hs => minor_prompt s hs.isPrompt)
  have hlock : (e.cache.lock id).run.Only (Step.Credible env)
      (fun s => s.Minor E env tools ∨ s.isAside = true) fun _ => True :=
    .ofThen (hminor (createAll_minor hE.serves (by decide))) (fun _ _ => .ofThen (haside rfl)
      (fun _ _ => .ofThen (haside rfl) (fun _ _ => trivial) fun _ _ => trivial) fun _ _ => trivial)
      fun _ _ => trivial
  unfold Engine.approach
  refine hcached.next fun o ho => ?_
  cases o with
  | some hit =>
    rintro _ ⟨⟩
    exact ho hit rfl
  | none =>
    refine hlock.next fun r _ => ?_
    cases r with
    | error err => exact nofun
    | ok file =>
      refine hcached.next fun o ho => ?_
      cases o with
      | some hit =>
        refine (haside rfl).next fun _ _ => ?_
        rintro _ ⟨⟩
        exact ho hit rfl
      | none =>
        refine (haside rfl).next fun _ _ => (hminor (delete_minor hE.serves)).next fun r _ => ?_
        cases r with
        | error err => exact (haside rfl).next fun _ _ => nofun
        | ok _ => exact nofun

theorem compile_drafting (hx : x.past = []) :
    (Rules.drafting E e.cache env tools id).Safe (fun r y => ∃ d, Draft.Trail E e.cache env tools id y.past d ∧
      ∀ out, r = .ok out → out.cached = false → ∃ s n, d = .posted s n) (e.compile id source).run x := by
  have hblank : Draft.Trail E e.cache env tools id x.past .blank := hx ▸ .nil
  have hidle : (e.approach id source).Only (Step.Credible env)
      (fun s => s.Minor E env tools ∨ s.isAside = true) _ := approach_idles hE
  rw [Engine.compile_eq]
  have hcourteous : (Rules.courteous E env tools (· = id)).Safe (fun r y => held y.past = lockOf r)
      (e.approach id source) x := approach_courteous hE rfl (hx ▸ rfl)
  refine ((hidle.idles rfl hblank).together hcourteous).next fun r y hy => ?_
  obtain ⟨⟨hr, hy⟩, hheld⟩ := hy
  have hdone {d : Draft} {z : Moment} {r : Except Error Compiled}
      (hz : Draft.Trail E e.cache env tools id z.past d)
      (hd : ∀ out, r = .ok out → out.cached = false → ∃ s n, d = .posted s n) :
      (Rules.drafting E e.cache env tools id).Safe (fun r y => ∃ d,
        Draft.Trail E e.cache env tools id y.past d ∧ ∀ out, r = .ok out → out.cached = false →
          ∃ s n, d = .posted s n) (Pure.pure r) z :=
    .done ⟨d, hz, hd⟩ (Rules.drafting_stable fun past => ∃ d, Draft.Trail E e.cache env tools id past d ∧
      ∀ out, r = .ok out → out.cached = false → ∃ s n, d = .posted s n)
  cases r with
  | error r =>
    refine hdone hy fun out ho hcached => ?_
    simp [hr out (congrArg _ ho)] at hcached
  | ok file =>
    refine (compileModel_drafting hE htools (List.cons_ne_nil file []) ⟨hy, hheld⟩).next fun r z hz => ?_
    obtain ⟨d, hd, hz⟩ := hz
    have haside {s : Step} {r : s.Reply} {past : List Taken} (hs : s.isAside = true)
        (h : Draft.Trail E e.cache env tools id past d) :
        Draft.Trail E e.cache env tools id (⟨s, r⟩ :: past) d := .cons h (.aside hd.1 hs)
    have hunlock {r : Except Error Compiled} {u : Moment}
        (hr : ∀ out, r = .ok out → out.cached = false → ∃ s n, d = .posted s n)
        (hu : Draft.Trail E e.cache env tools id u.past d) :
        (Rules.drafting E e.cache env tools id).Safe (fun r y => ∃ d,
          Draft.Trail E e.cache env tools id y.past d ∧ ∀ out, r = .ok out → out.cached = false →
            ∃ s n, d = .posted s n) (Cache.unlock file >>= fun _ => Pure.pure r) u :=
      (Rules.drafting_perform (s := .release file) (Q := fun _ past => Draft.Trail E e.cache env tools id past d)
        fun _ _ => ⟨⟨d, haside rfl hu⟩, haside rfl hu⟩).next fun _ v hv => hdone hv hr
    cases r with
    | error err => exact hunlock (by simp) hz.1
    | ok entry =>
      refine ((quiet_only minor_quiet rfl).drafting hz).next fun _ u hu => ?_
      exact hunlock (fun _ _ _ => hd.2 entry rfl) hu.2.1

end Engine

end CompiledModels
