import CompiledModels.Proofs.Plots

/-!
A program beside others that keep out of its plot, and the same program alone: whatever the first one
does the second one can do as well, with the same replies.
-/

namespace CompiledModels

open Files Program

variable {α β ε ε' : Type}

/-- What comes to a process from elsewhere: time goes by, and random numbers and numbers of new files
are given to others. -/
def World.aside (w : World) (t seed number : Nat) : World :=
  let w := w.advanceTo t
  { w with seed, files := { w.files with nextNumber := max w.files.nextNumber number } }

theorem World.advanceTo_bare {w : World} (h : w.children = []) (t : Nat) :
    w.advanceTo t = { w with clock := max w.clock t } := by
  simp [advanceTo, settle, h]

theorem World.aside_bare {w : World} (h : w.children = []) (t seed number : Nat) :
    w.aside t seed number = { w with
      clock := max w.clock t, seed
      files := { w.files with nextNumber := max w.files.nextNumber number } } := by
  rw [aside, advanceTo_bare h]

/-- Some steps of a program that is alone. -/
inductive Strolls (m : Machine) : Program α → World → Program α → World → Prop
  | refl (p : Program α) (w : World) : Strolls m p w p w
  | step {s : Step} {next : s.Reply → Program α} {r : s.Reply} {w v w' : World} {q : Program α}
      (hr : s.exec m w = some (r, v)) (h : Strolls m (next r) v q w') : Strolls m (.step s next) w q w'
  | aside {p q : Program α} {w w' : World} (t seed number : Nat)
      (h : Strolls m p (w.aside t seed number) q w') : Strolls m p w q w'

theorem Strolls.bind {m : Machine} {p q : Program α} {w w' : World} (h : Strolls m p w q w')
    (f : α → Program β) : Strolls m (p >>= f) w (q >>= f) w' := by
  induction h with
  | refl p w => exact .refl _ _
  | step hr _ ih => exact .step hr ih
  | aside t seed number _ ih => exact .aside t seed number ih

namespace Plots

variable {ι : Type} {P : Plots ι} {i j : ι} {m : Machine} {env : Environment} {D D' : String → Prop}
  {ns : List Nat} {w w' v v' : World} {l : Location}

/-- A change of the world of caller `i` by the others, as far as it can see. -/
structure Leaves (P : Plots ι) (i : ι) (w v : World) : Prop where
  files : P.Spares i w.files v.files
  environment : v.environment = w.environment
  children : w.children = [] → v.children = []
  clock : w.clock ≤ v.clock
  locked : ∀ number c x, w.files.get? (P.lock i) = some (.file number c x) →
    (number ∈ v.locked ↔ number ∈ w.locked)
  fresh : (∀ n ∈ w.locked, n < w.files.nextNumber) → ∀ n ∈ v.locked, n < v.files.nextNumber

theorem Leaves.refl (w : World) : P.Leaves i w w :=
  ⟨.refl _, rfl, id, Nat.le_refl _, fun _ _ _ _ => Iff.rfl, id⟩

theorem Leaves.trans (h : P.Leaves i w v) {u : World} (h' : P.Leaves i v u) : P.Leaves i w u := by
  refine ⟨h.files.trans h'.files, h'.environment.trans h.environment, h'.children ∘ h.children,
    Nat.le_trans h.clock h'.clock, fun number c x hn => ?_, h'.fresh ∘ h.fresh⟩
  exact (h'.locked number c x ((h.files.get? (.inr rfl)).trans hn)).trans (h.locked number c x hn)

theorem Leaves.of_files (h : P.Spares i w.files v.files) (he : v.environment = w.environment)
    (hc : w.children = [] → v.children = []) (ht : w.clock ≤ v.clock) (hl : v.locked = w.locked) :
    P.Leaves i w v :=
  ⟨h, he, hc, ht, fun _ _ _ _ => by rw [hl], fun hf n hn => Nat.lt_of_lt_of_le (hf n (hl ▸ hn)) h.next⟩

/-- A change by caller `i` that is nothing to the others. -/
structure Mild (P : Plots ι) (i : ι) (w v : World) : Prop where
  children : w.children = [] → v.children = []
  others : ∀ j, j ≠ i → P.Leaves j w v

theorem Mild.refl (w : World) : P.Mild i w w := ⟨id, fun _ _ => .refl w⟩

/-- The worlds of a caller beside others and alone. It has made the directories in `D`, or found them,
and opened its lock as the numbers in `ns`. -/
structure At (P : Plots ι) (i : ι) (env : Environment) (D : String → Prop) (ns : List Nat)
    (w w' : World) : Prop where
  files : P.Mirrors i w.files w'.files
  environment : w.environment = env
  environment' : w'.environment = env
  children : w.children = []
  children' : w'.children = []
  clock : w'.clock ≤ w.clock
  next : w'.files.nextNumber ≤ w.files.nextNumber
  locked : ∀ number c x, w.files.get? (P.lock i) = some (.file number c x) →
    (number ∈ w'.locked ↔ number ∈ w.locked)
  fresh : ∀ n ∈ w.locked, n < w.files.nextNumber
  fresh' : ∀ n ∈ w'.locked, n < w'.files.nextNumber
  known : ∀ d, D d → P.shared (P.cache.root ++ [d]) ∧ w'.files.get? (P.cache.root ++ [d]) = some .directory
  held : ∀ n ∈ ns, ∃ c x, w.files.get? (P.lock i) = some (.file n c x)

/-- The time, the random numbers and the numbers of new files are the same. -/
structure Synced (w w' : World) : Prop where
  clock : w'.clock = w.clock
  seed : w'.seed = w.seed
  next : w'.files.nextNumber = w.files.nextNumber

namespace At

variable (h : P.At i env D ns w w')
include h

theorem weaken (hD : ∀ d, D' d → D d) : P.At i env D' ns w w' :=
  { h with known := fun d hd => h.known d (hD d hd) }

theorem drop {ns' : List Nat} (hn : ∀ n ∈ ns', n ∈ ns) : P.At i env D ns' w w' :=
  { h with held := fun n hn' => h.held n (hn n hn') }

theorem leaves (hv : P.Leaves i w v) : P.At i env D ns v w' := by
  have hget := hv.files.get? (.inr rfl)
  exact
    { h with
      files := h.files.spares hv.files
      environment := hv.environment.trans h.environment
      children := hv.children h.children
      clock := Nat.le_trans h.clock hv.clock
      next := Nat.le_trans h.next hv.files.next
      locked := fun number c x hn =>
        (h.locked number c x (hget.symm.trans hn)).trans (hv.locked number c x (hget.symm.trans hn)).symm
      fresh := hv.fresh h.fresh
      held := fun n hn => hget ▸ h.held n hn }

theorem sync : ∃ t seed number, P.At i env D ns w (w'.aside t seed number) ∧
    Synced w (w'.aside t seed number) := by
  have hn : max w'.files.nextNumber w.files.nextNumber = w.files.nextNumber := Nat.max_eq_right h.next
  have hc : max w'.clock w.clock = w.clock := Nat.max_eq_right h.clock
  refine ⟨w.clock, w.seed, w.files.nextNumber, ?_, ?_⟩
  · rw [World.aside_bare h.children', hn, hc]
    exact
      { files := { h.files with kempt' := h.files.kempt'.skip h.next }
        environment := h.environment
        environment' := h.environment'
        children := h.children
        children' := h.children'
        clock := Nat.le_refl _
        next := Nat.le_refl _
        locked := h.locked
        fresh := h.fresh
        fresh' := fun n hn => Nat.lt_of_lt_of_le (h.fresh' n hn) h.next
        known := h.known
        held := h.held }
  · rw [World.aside_bare h.children', hn, hc]
    exact ⟨rfl, rfl, rfl⟩

theorem directory : w.directory = env.location ∧ w'.directory = env.location :=
  ⟨congrArg Environment.location h.environment, congrArg Environment.location h.environment'⟩

/-- A change of the files. -/
theorem change (f : Tree → Location → Except FileError Tree)
    (hp : P.Paired i w.files w'.files (f w.files env.location) (f w'.files env.location))
    {r : Except FileError Unit} (hr : some (Step.onFiles w (f w.files w.directory)) = some (r, v)) :
    P.Mild i w v ∧
      ∃ v', some (Step.onFiles w' (f w'.files w'.directory)) = some (r, v') ∧ P.At i env D ns v v' ∧ True := by
  rw [← h.directory.1] at hp
  rw [h.directory.2, ← h.directory.1]
  have hr := Option.some.inj hr
  revert hp hr
  generalize f w.files w.directory = o
  generalize f w'.files w.directory = o'
  intro hp hr
  cases hp with
  | error e =>
    obtain ⟨rfl, rfl⟩ := Prod.mk.inj hr
    exact ⟨.refl w, w', rfl, h, trivial⟩
  | @ok t₁ t₁' ht ht' hpart hnext =>
    obtain ⟨rfl, rfl⟩ := Prod.mk.inj hr
    refine ⟨⟨id, fun j hj => .of_files (ht.spares hj) rfl id (Nat.le_refl _) rfl⟩, _, rfl, ?_, trivial⟩
    have hlock : t₁.get? (P.lock i) = w.files.get? (P.lock i) := ht.rest _ (P.unlocked i)
    exact
      { h with
        files := h.files.both ht ht' hpart
        next := Nat.le_of_eq hnext
        locked := fun number c x hl => h.locked number c x (hlock.symm.trans hl)
        fresh := fun n hl => Nat.lt_of_lt_of_le (h.fresh n hl) ht.next
        fresh' := fun n hl => Nat.lt_of_lt_of_le (h.fresh' n hl) ht'.next
        known := fun d hd => ⟨(h.known d hd).1, (ht'.common (h.known d hd).1).trans (h.known d hd).2⟩
        held := fun n hl => hlock ▸ h.held n hl }

end At

theorem aside_leaves (w : World) (hc : w.children = []) (t seed number : Nat) :
    P.Leaves i w (w.aside t seed number) := by
  rw [World.aside_bare hc]
  exact .of_files (spares_skip (Nat.le_max_left _ _)) rfl id (Nat.le_max_left _ _) rfl

/-- Whatever steps the first program takes beside others, it spares them, and the second one alone
comes along: where the first one is done, so is the second one, with the same result. -/
def Twin (P : Plots ι) (m : Machine) (i : ι) (post : α → World → World → Prop) :
    Program α → Program α → World → World → Prop
  | .done a, p', w, w' => p' = .done a ∧ ∀ v, P.Leaves i w v → post a v w'
  | .step s next, p', w, w' => ∀ v, P.Leaves i w v → ∀ r v₁, s.exec m v = some (r, v₁) →
      P.Mild i v v₁ ∧
        ∃ q' v', Strolls m p' w' q' v' ∧ Twin P m i post (next r) q' v₁ v'

namespace Twin

variable {post post' : α → World → World → Prop} {p p' : Program α}

theorem done_iff {a : α} : P.Twin m i post (.done a) p' w w' ↔
    p' = .done a ∧ ∀ v, P.Leaves i w v → post a v w' := Iff.rfl

theorem step_iff {s : Step} {next : s.Reply → Program α} : P.Twin m i post (.step s next) p' w w' ↔
    ∀ v, P.Leaves i w v → ∀ r v₁, s.exec m v = some (r, v₁) → P.Mild i v v₁ ∧
      ∃ q' v', Strolls m p' w' q' v' ∧ P.Twin m i post (next r) q' v₁ v' := Iff.rfl

theorem weaken (h : P.Twin m i post p p' w w') (hp : ∀ a v v', post a v v' → post' a v v') :
    P.Twin m i post' p p' w w' := by
  induction p generalizing p' w w' with
  | done a => exact ⟨h.1, fun v hv => hp a v w' (h.2 v hv)⟩
  | step s next ih =>
    intro v hv r v₁ hr
    obtain ⟨hspares, q', v', hq, ht⟩ := h v hv r v₁ hr
    exact ⟨hspares, q', v', hq, ih r ht⟩

theorem later (h : P.Twin m i post p p' w w') (hv : P.Leaves i w v) : P.Twin m i post p p' v w' := by
  cases p with
  | done a => exact ⟨h.1, fun u hu => h.2 u (hv.trans hu)⟩
  | step s next => exact fun u hu => h u (hv.trans hu)

theorem bind {f : α → Program β} {post : β → World → World → Prop}
    (h : P.Twin m i (fun a v v' => P.Twin m i post (f a) (f a) v v') p p' w w') :
    P.Twin m i post (p >>= f) (p' >>= f) w w' := by
  induction p generalizing p' w w' with
  | done a =>
    obtain ⟨rfl, h⟩ := h
    exact h w (.refl w)
  | step s next ih =>
    intro v hv r v₁ hr
    obtain ⟨hspares, q', v', hq, ht⟩ := h v hv r v₁ hr
    exact ⟨hspares, q' >>= f, v', hq.bind f, ih r ht⟩

theorem pure {post : α → World → World → Prop} {a : α} (h : ∀ v, P.Leaves i w v → post a v w') :
    P.Twin m i post (Pure.pure a : Program α) (Pure.pure a) w w' := ⟨rfl, h⟩

theorem attempt {x : Attempt ε α} {f : α → Attempt ε β} {post : Except ε β → World → World → Prop}
    (h : P.Twin m i (fun r v v' => (∀ a, r = .ok a → P.Twin m i post (f a).run (f a).run v v') ∧
      ∀ e, r = .error e → ∀ u, P.Leaves i v u → post (.error e) u v') x.run x.run w w') :
    P.Twin m i post (x >>= f).run (x >>= f).run w w' := by
  refine Twin.bind (h.weaken fun r v v' hr => ?_)
  cases r with
  | ok a => exact hr.1 a rfl
  | error e => exact ⟨rfl, hr.2 e rfl⟩

theorem of {p : Program (Except ε' α)} {wrap : ε' → ε} {post : Except ε α → World → World → Prop}
    (h : P.Twin m i (fun r v v' => ∀ u, P.Leaves i v u → post (r.mapError wrap) u v') p p w w') :
    P.Twin m i post (Attempt.of p wrap).run (Attempt.of p wrap).run w w' := by
  refine Twin.bind (h.weaken fun r v v' hr => ?_)
  cases r <;> exact ⟨rfl, hr⟩

theorem perform {s : Step} {post : s.Reply → World → World → Prop} (hx : P.At i env D ns w w')
    (h : ∀ v v', P.At i env D ns v v' → Synced v v' → ∀ r v₁, s.exec m v = some (r, v₁) →
      P.Mild i v v₁ ∧
        ∃ v₁', s.exec m v' = some (r, v₁') ∧ ∀ u, P.Leaves i v₁ u → post r u v₁') :
    P.Twin m i post (Program.perform s) (Program.perform s) w w' := by
  intro v hv r v₁ hr
  obtain ⟨t, seed, number, hy, hsync⟩ := (hx.leaves hv).sync
  obtain ⟨hspares, v₁', hr', hpost⟩ := h v _ hy hsync r v₁ hr
  exact ⟨hspares, .done r, v₁', .aside t seed number (.step hr' (.refl _ _)), rfl, hpost⟩

end Twin

-- what follows goes by the rules above, and opening the definition would run the programs
attribute [irreducible] Twin

/-- A path that leads to something of the caller's own, or to nothing. -/
def Reads (P : Plots ι) (i : ι) (env : Environment) (D : String → Prop) (p : Path) : Prop :=
  ∀ ns w w', P.At i env D ns w w' → ∀ follow, P.Looks i w.files w'.files env.location follow p

/-- As `Reads`, or the path is one that nothing can have. -/
def Views (P : Plots ι) (i : ι) (env : Environment) (D : String → Prop) (p : Path) : Prop :=
  ∀ ns w w', P.At i env D ns w w' → ∀ follow, P.Sees i w.files w'.files env.location follow p

/-- A path at which the caller can put something of its own. -/
def Writes (P : Plots ι) (i : ι) (env : Environment) (D : String → Prop) (p : Path) : Prop :=
  Tree.demandsDirectory p = false ∧
    ∀ ns w w', P.At i env D ns w w' → ∀ follow, P.Meets i w.files w'.files env.location follow p

theorem Writes.reads {p : Path} (h : P.Writes i env D p) : P.Reads i env D p :=
  fun ns w w' hx follow => .inl (h.2 ns w w' hx follow)

theorem Writes.mono {p : Path} (h : P.Writes i env D p) (hD : ∀ d, D d → D' d) : P.Writes i env D' p :=
  ⟨h.1, fun ns w w' hx follow => h.2 ns w w' (hx.weaken hD) follow⟩

theorem writes_below {q : Path} {d s : String} {names : List String} (hq : P.cache.Leads env.location q)
    (hd : D d) (hplain : IsPlain d) (hs : IsPlain s) (hn : ∀ s ∈ names, IsPlain s)
    (hp : P.plot i (P.cache.root ++ [d, s])) : P.Writes i env D (q.joins (d :: s :: names)) := by
  refine ⟨Tree.demandsDirectory_joins (by simp), fun ns w w' hx follow => ?_⟩
  obtain ⟨hshared, hknown⟩ := hx.known d hd
  refine hx.files.meets_below hq hshared hplain hn hp hs ?_
  exact (hx.files.common _ hshared).resolve_right fun hnone => by simp [hknown] at hnone

/-- A program that makes no difference to the others, nor they to it. -/
def Tame (P : Plots ι) (m : Machine) (i : ι) (env : Environment) (D : String → Prop) (Q : α → Prop)
    (p : Program α) : Prop :=
  ∀ ns w w', P.At i env D ns w w' →
    P.Twin m i (fun a v v' => P.At i env D ns v v' ∧ Q a) p p w w'

namespace Tame

variable {Q Q' : α → Prop} {p : Program α}

theorem pure {a : α} (h : Q a) : P.Tame m i env D Q (Pure.pure a : Program α) :=
  fun _ _ _ hx => .pure fun _ hv => ⟨hx.leaves hv, h⟩

theorem weaken (h : P.Tame m i env D Q p) (hq : ∀ a, Q a → Q' a) : P.Tame m i env D Q' p :=
  fun ns w w' hx => (h ns w w' hx).weaken fun a _ _ hy => ⟨hy.1, hq a hy.2⟩

theorem bind {Q : α → Prop} {Q' : β → Prop} {p : Program α} {f : α → Program β} (h : P.Tame m i env D Q p)
    (hf : ∀ a, Q a → P.Tame m i env D Q' (f a)) : P.Tame m i env D Q' (p >>= f) :=
  fun ns w w' hx => .bind ((h ns w w' hx).weaken fun a v v' hy => hf a hy.2 ns v v' hy.1)

theorem perform {s : Step} {Q : s.Reply → Prop}
    (h : ∀ ns w w', P.At i env D ns w w' → Synced w w' → ∀ r v, s.exec m w = some (r, v) →
      P.Mild i w v ∧
        ∃ v', s.exec m w' = some (r, v') ∧ P.At i env D ns v v' ∧ Q r) :
    P.Tame m i env D Q (Program.perform s) := by
  refine fun ns w w' hx => .perform hx fun v v' hy hsync r v₁ hr => ?_
  obtain ⟨hspares, v₁', hr', hz, hq⟩ := h ns v v' hy hsync r v₁ hr
  exact ⟨hspares, v₁', hr', fun u hu => ⟨hz.leaves hu, hq⟩⟩

theorem look {s : Step} {Q : s.Reply → Prop} {f : World → s.Reply}
    (hexec : ∀ w, s.exec m w = some (f w, w))
    (hsame : ∀ ns w w', P.At i env D ns w w' → f w' = f w ∧ Q (f w)) :
    P.Tame m i env D Q (Program.perform s) := by
  refine perform fun ns w w' hx _ r v hr => ?_
  obtain ⟨rfl, rfl⟩ : f w = r ∧ w = v := by simpa [hexec] using hr
  obtain ⟨heq, hq⟩ := hsame ns w w' hx
  exact ⟨.refl w, w', by rw [hexec, heq], hx, hq⟩

theorem congr_of_toOption {next : Except ε α → β} (he : ∀ e e', next (.error e) = next (.error e'))
    {r r' : Except ε α} (h : r'.toOption = r.toOption) : next r' = next r := by
  cases r with
  | ok a =>
    cases r' with
    | ok b => rw [Option.some.inj h]
    | error e => exact nomatch h
  | error e =>
    cases r' with
    | ok b => exact nomatch h
    | error e' => exact he e' e

theorem plain_of_list {t : Tree} {cwd : Location} {p : Path} {es : List DirectoryEntry} {e : DirectoryEntry}
    (ht : P.Kempt t) (h : t.list cwd p = .ok es) (he : e ∈ es) : IsPlain e.name := by
  obtain ⟨l, -, -, rfl⟩ := Tree.list_eq_ok.mp h
  obtain ⟨n, hn, -⟩ := ht.wellFormed.mem_children.mp he
  have hthere : t.get? (l ++ [e.name]) ≠ none := by simp [hn]
  exact (ht.wellFormed.proper_name hthere).1

/-- A look of which the program only takes what is the same for both. -/
theorem glance {s : Step} {Q : α → Prop} {f : World → s.Reply} {next : s.Reply → Program α}
    (hexec : ∀ w, s.exec m w = some (f w, w))
    (hsame : ∀ ns w w', P.At i env D ns w w' → next (f w') = next (f w) ∧ P.Tame m i env D Q (next (f w))) :
    P.Tame m i env D Q (.step s next) := by
  intro ns w w' hx
  refine Twin.step_iff.mpr fun v hv r v₁ hr => ?_
  obtain ⟨rfl, rfl⟩ : f v = r ∧ v = v₁ := by simpa [hexec] using hr
  have hy := hx.leaves hv
  obtain ⟨heq, htame⟩ := hsame ns v w' hy
  refine ⟨.refl v, next (f w'), w', .step (hexec w') (.refl _ _), ?_⟩
  rw [heq]
  exact htame ns v w' hy

theorem environment : P.Tame m i env D (· = env) (Program.perform .environment) :=
  look (s := .environment) (f := fun w => w.environment) (fun _ => rfl) fun _ _ _ hx =>
    ⟨hx.environment'.trans hx.environment.symm, hx.environment⟩

theorem drawSuffix : P.Tame m i env D (fun s => s.length = 6) (Program.perform .drawSuffix) := by
  refine perform fun ns w w' hx hsync r v hr => ?_
  have hexec (w : World) : Step.exec m .drawSuffix w =
      some ((World.drawSuffix w.seed).1, { w with seed := (World.drawSuffix w.seed).2 }) := rfl
  rw [hexec] at hr ⊢
  obtain ⟨rfl, rfl⟩ := Prod.mk.inj (Option.some.inj hr)
  rw [hsync.seed]
  generalize hdraw : World.drawSuffix w.seed = drawn
  have hlength : drawn.1.length = 6 := by simp [← hdraw, World.drawSuffix]
  exact ⟨⟨id, fun j _ => .of_files (.refl _) rfl id (Nat.le_refl _) rfl⟩, _, rfl, { hx with }, hlength⟩

theorem now : P.Tame m i env D (fun _ => True) (Program.perform .now) := by
  refine perform fun ns w w' hx hsync r v hr => ?_
  have hexec (w : World) (hc : w.children = []) : Step.exec m .now w =
      some (w.clock, { w with clock := max w.clock (w.clock + 1) }) := by
    rw [Step.exec, World.advanceTo_bare hc]
  rw [hexec w hx.children] at hr
  obtain ⟨rfl, rfl⟩ := Prod.mk.inj (Option.some.inj hr)
  rw [hexec w' hx.children', hsync.clock]
  exact ⟨⟨id, fun j _ => .of_files (.refl _) rfl id (Nat.le_max_left _ _) rfl⟩, _, rfl,
    { hx with clock := Nat.le_refl _ }, trivial⟩

theorem emit (e : Event) : P.Tame m i env D (fun _ => True) (Program.perform (.emit e)) := by
  refine perform fun ns w w' hx _ r v hr => ?_
  obtain ⟨rfl, rfl⟩ := Prod.mk.inj (Option.some.inj hr)
  exact ⟨⟨id, fun j _ => .of_files (.refl _) rfl id (Nat.le_refl _) rfl⟩, _, rfl, { hx with }, trivial⟩

section Files

variable {p q : Path}

theorem stat {follow : Bool} (hp : P.Reads i env D p) :
    P.Tame m i env D (fun _ => True) (Program.perform (.stat p follow)) := by
  refine look (f := fun w => w.files.stat w.directory follow p) (fun _ => rfl) fun ns w w' hx => ⟨?_, trivial⟩
  simp only [hx.directory]
  exact hx.files.stat (hp ns w w' hx follow)

theorem list (hp : P.Reads i env D p) :
    P.Tame m i env D (fun r => ∀ es, r = .ok es → ∀ e ∈ es, IsPlain e.name) (Program.perform (.list p)) := by
  refine look (f := fun w => w.files.list w.directory p) (fun _ => rfl) fun ns w w' hx => ⟨?_, ?_⟩
  · simp only [hx.directory]
    exact hx.files.list (hp ns w w' hx true)
  · exact fun es hes e he => plain_of_list hx.files.kempt hes he

theorem write (hp : P.Writes i env D p) (bytes : Bytes) :
    P.Tame m i env D (fun _ => True) (Program.perform (.write p bytes)) :=
  perform fun ns w w' hx hsync _ _ hr => hx.change (fun t cwd => t.write cwd p ⟨bytes, 0⟩)
    (hx.files.write hsync.next (hp.2 ns w w' hx true) hp.1) hr

theorem makeDirectory (hp : P.Writes i env D p) :
    P.Tame m i env D (fun _ => True) (Program.perform (.makeDirectory p)) :=
  perform fun ns w w' hx hsync _ _ hr => hx.change (fun t cwd => t.makeDirectory cwd p)
    (hx.files.makeDirectory hsync.next (hp.2 ns w w' hx false)) hr

theorem removeFile (hp : P.Reads i env D p) :
    P.Tame m i env D (fun _ => True) (Program.perform (.removeFile p)) :=
  perform fun ns w w' hx hsync _ _ hr => hx.change (fun t cwd => t.removeFile cwd p)
    (hx.files.removeFile hsync.next (hp ns w w' hx false)) hr

theorem removeDirectory (hp : P.Reads i env D p) :
    P.Tame m i env D (fun _ => True) (Program.perform (.removeDirectory p)) :=
  perform fun ns w w' hx hsync _ _ hr => hx.change (fun t cwd => t.removeDirectory cwd p)
    (hx.files.removeDirectory hsync.next (hp ns w w' hx false)) hr

theorem rename (hp : P.Writes i env D p) (hq : P.Writes i env D q) :
    P.Tame m i env D (fun _ => True) (Program.perform (.rename p q)) :=
  perform fun ns w w' hx hsync _ _ hr => hx.change (fun t cwd => t.rename cwd p q)
    (hx.files.rename hsync.next (hp.2 ns w w' hx false) (hq.2 ns w w' hx false) hq.1) hr

theorem copy (hp : P.Writes i env D p) (hq : P.Writes i env D q) :
    P.Tame m i env D (fun _ => True) (Program.perform (.copy p q)) :=
  perform fun ns w w' hx hsync _ _ hr => hx.change (fun t cwd => t.copy cwd p q)
    (hx.files.copy hsync.next (hp.2 ns w w' hx true) (hq.2 ns w w' hx true) hq.1) hr

end Files

section Programs

variable {p q : Path} {es : List DirectoryEntry}

theorem statThen {follow : Bool} {next : Except FileError Node → Program α} (hp : P.Views i env D p)
    (he : ∀ e e', next (.error e) = next (.error e')) (hnext : ∀ r, P.Tame m i env D Q (next r)) :
    P.Tame m i env D Q (.step (.stat p follow) next) := by
  refine glance (f := fun w => w.files.stat w.directory follow p) (fun _ => rfl) fun ns w w' hx =>
    ⟨congr_of_toOption he ?_, hnext _⟩
  simp only [hx.directory]
  exact hx.files.sees_stat (hp ns w w' hx follow)

theorem listThen {next : Except FileError (List DirectoryEntry) → Program α} (hp : P.Views i env D p)
    (he : ∀ e e', next (.error e) = next (.error e'))
    (hnext : ∀ r, (∀ es, r = .ok es → ∀ e ∈ es, IsPlain e.name) → P.Tame m i env D Q (next r)) :
    P.Tame m i env D Q (.step (.list p) next) := by
  refine glance (f := fun w => w.files.list w.directory p) (fun _ => rfl) fun ns w w' hx =>
    ⟨congr_of_toOption he ?_, hnext _ fun es hes e he => plain_of_list hx.files.kempt hes he⟩
  simp only [hx.directory]
  exact hx.files.sees_list (hp ns w w' hx true)

theorem isFile (hp : P.Views i env D p) : P.Tame m i env D (fun _ => True) (Program.isFile p) :=
  statThen hp (fun _ _ => rfl) fun r => by cases r <;> exact .pure trivial

theorem isDirectory (hp : P.Views i env D p) : P.Tame m i env D (fun _ => True) (Program.isDirectory p) :=
  statThen hp (fun _ _ => rfl) fun r => by cases r <;> exact .pure trivial

theorem pathExists (hp : P.Views i env D p) : P.Tame m i env D (fun _ => True) (Program.pathExists p) :=
  statThen hp (fun _ _ => rfl) fun r => by cases r <;> exact .pure trivial

theorem readThen {next : Except FileError Bytes → Program α} (hp : P.Views i env D p)
    (he : ∀ e e', next (.error e) = next (.error e')) (hnext : ∀ r, P.Tame m i env D Q (next r)) :
    P.Tame m i env D Q (.step (.read p) next) := by
  refine glance (f := fun w => w.files.read w.directory p) (fun _ => rfl) fun ns w w' hx =>
    ⟨congr_of_toOption he ?_, hnext _⟩
  simp only [hx.directory]
  exact hx.files.sees_read (hp ns w w' hx true)

theorem removeEach {remove : DirectoryEntry → Program (Except FileError Unit)}
    (h : ∀ e ∈ es, P.Tame m i env D (fun _ => True) (remove e)) :
    P.Tame m i env D (fun _ => True) (Program.removeEach remove es) := by
  induction es with
  | nil => exact .pure trivial
  | cons e es ih =>
    have hrest := ih fun e he => h e (by simp [he])
    refine (h e (by simp)).bind fun r _ => ?_
    cases r with
    | ok _ => exact hrest
    | error err =>
      simp only
      split
      · exact hrest
      · exact .pure trivial

theorem removeBelow (nesting : Nat)
    (hp : ∀ names : List String, (∀ s ∈ names, IsPlain s) → P.Reads i env D (p.joins names)) :
    P.Tame m i env D (fun _ => True) (Program.removeBelow nesting p) := by
  have hself : P.Reads i env D p := Path.joins_nil (p := p) ▸ hp [] (by simp)
  induction nesting generalizing p with
  | zero => exact .pure trivial
  | succ nesting ih =>
    refine (list hself).bind fun r hr => ?_
    cases r with
    | error e => exact .pure trivial
    | ok es =>
      have hentry (e : DirectoryEntry) (he : e ∈ es) (names : List String) (hn : ∀ s ∈ names, IsPlain s) :
          P.Reads i env D ((p.join e.name).joins names) := by
        rw [Path.join_eq_joins, Path.joins_joins]
        refine hp _ ?_
        simp only [List.singleton_append, List.mem_cons, forall_eq_or_imp]
        exact ⟨hr es rfl e he, hn⟩
      have hname (e : DirectoryEntry) (he : e ∈ es) : P.Reads i env D (p.join e.name) := by
        simpa [Path.joins_nil] using hentry e he [] (by simp)
      refine (removeEach fun e he => ?_).bind fun r _ => ?_
      · split
        · exact ih (hentry e he) (hname e he)
        · exact removeFile (hname e he)
      · cases r with
        | error e => exact .pure trivial
        | ok _ =>
          refine (removeDirectory hself).bind fun r _ => ?_
          cases r with
          | ok _ => exact .pure trivial
          | error e =>
            simp only
            split <;> exact .pure trivial

theorem removeAll (hp : ∀ names : List String, (∀ s ∈ names, IsPlain s) → P.Reads i env D (p.joins names)) :
    P.Tame m i env D (fun _ => True) (Program.removeAll p) := by
  have hself : P.Reads i env D p := Path.joins_nil (p := p) ▸ hp [] (by simp)
  refine (stat hself).bind fun r _ => ?_
  cases r with
  | error e => exact .pure trivial
  | ok n =>
    cases n with
    | link target => exact removeFile hself
    | directory => exact removeBelow _ hp
    | _ => exact .pure trivial

theorem makeFresh {start : String} {dir : Path} (tries : Nat)
    (h : ∀ s, s.length = 6 → P.Writes i env D (dir.join (start ++ s))) :
    P.Tame m i env D (fun r => ∀ p, r = .ok p → ∃ s, s.length = 6 ∧ p = dir.join (start ++ s))
      (Program.makeFresh start dir tries) := by
  induction tries with
  | zero => exact .pure nofun
  | succ tries ih =>
    refine drawSuffix.bind fun s hs => (makeDirectory (h s hs)).bind fun r _ => ?_
    cases r with
    | ok _ =>
      refine .pure fun p hp => ⟨s, hs, ?_⟩
      exact (Except.ok.inj hp).symm
    | error e =>
      simp only
      split
      · exact ih
      · exact .pure nofun

end Programs

section Attempts

variable {Q : α → Prop} {Q' : β → Prop}

theorem of {p : Program (Except ε' α)} {wrap : ε' → ε}
    (h : P.Tame m i env D (fun r => ∀ a, r = .ok a → Q a) p) :
    P.Tame m i env D (fun r => ∀ a, r = .ok a → Q a) (Attempt.of p wrap).run := by
  refine h.bind fun r hr => ?_
  cases r with
  | ok a => exact .pure fun b hb => hr b (by simpa using hb)
  | error e => exact .pure nofun

theorem attempt {x : Attempt ε α} {f : α → Attempt ε β}
    (h : P.Tame m i env D (fun r => ∀ a, r = .ok a → Q a) x.run)
    (hf : ∀ a, Q a → P.Tame m i env D (fun r => ∀ b, r = .ok b → Q' b) (f a).run) :
    P.Tame m i env D (fun r => ∀ b, r = .ok b → Q' b) (x >>= f).run := by
  refine Tame.bind h fun r hr => ?_
  cases r with
  | ok a => exact hf a (hr a rfl)
  | error e => exact .pure nofun

theorem lift {p : Program α} (h : P.Tame m i env D Q p) :
    P.Tame m i env D (fun r => ∀ a, r = .ok a → Q a) (liftM p : Attempt ε α).run :=
  h.bind fun _ ha => .pure fun _ hb => Except.ok.inj hb ▸ ha

theorem liftThen {p : Program α} {f : α → Attempt ε β} (h : P.Tame m i env D Q p)
    (hf : ∀ a, Q a → P.Tame m i env D (fun r => ∀ b, r = .ok b → Q' b) (f a).run) :
    P.Tame m i env D (fun r => ∀ b, r = .ok b → Q' b) ((liftM p : Attempt ε α) >>= f).run :=
  attempt h.lift hf

theorem done {a : α} (h : Q a) :
    P.Tame m i env D (fun r => ∀ b, r = .ok b → Q b) (Pure.pure a : Attempt ε α).run :=
  .pure fun _ hb => Except.ok.inj hb ▸ h

theorem fails {e : ε} : P.Tame m i env D (fun r => ∀ b, r = .ok b → Q b) (throw e : Attempt ε α).run :=
  .pure nofun

theorem ok {p : Program (Except ε α)} (h : P.Tame m i env D (fun _ => True) p) :
    P.Tame m i env D (fun r => ∀ a, r = .ok a → True) p := h.weaken fun _ _ _ _ => trivial

/-- A text that is wanted, whatever it is that may keep it from being read. -/
theorem wanted {p : Path} {e : ε} (hp : P.Views i env D p) :
    P.Tame m i env D (fun r => ∀ a, r = .ok a → True) (Attempt.of (Program.readText p) fun _ => e).run := by
  refine readThen hp (fun _ _ => rfl) fun r => ?_
  cases r with
  | error _ => exact .pure fun _ _ => trivial
  | ok bytes =>
    refine Tame.bind (Q := fun _ => True) ?_ fun r _ => by cases r <;> exact .pure fun _ _ => trivial
    simp only [Program.bind]
    split <;> exact .pure trivial

theorem inTemporary {start : String} {dir : Path} {wrap : FileError → ε} {work : Path → Attempt ε α}
    (h : ∀ s, s.length = 6 → ∀ names : List String, (∀ n ∈ names, IsPlain n) →
      P.Writes i env D (((Path.inDirectory env.directory dir).join (start ++ s)).joins names))
    (hwork : ∀ s, s.length = 6 → P.Tame m i env D (fun r => ∀ a, r = .ok a → Q a)
      (work ((Path.inDirectory env.directory dir).join (start ++ s))).run) :
    P.Tame m i env D (fun r => ∀ a, r = .ok a → Q a) (Attempt.inTemporary start dir wrap work).run := by
  refine attempt (Q := fun p => ∃ s, s.length = 6 ∧ p = (Path.inDirectory env.directory dir).join (start ++ s))
    (of ?_) ?_
  · refine environment.bind fun e he => ?_
    subst he
    exact makeFresh _ fun s hs => by simpa [Path.joins_nil] using h s hs [] (by simp)
  · rintro _ ⟨s, hs, rfl⟩
    refine (hwork s hs).bind fun r hr => Tame.bind (Q := fun _ => True) ?_ fun _ _ => .pure hr
    exact (removeAll fun names hn => (h s hs names hn).reads).bind fun _ _ => .pure trivial

end Attempts

end Tame

section Shared

variable {q : Path} {d : String} {follow : Bool} {t : Tree} (hq : P.cache.Leads env.location q)

theorem Kempt.room_shared (h : P.Kempt t) (hd : IsProper d) : t.Room (P.cache.root ++ [d]) :=
  ⟨P.cache.root, d, rfl, h.cache.root, hd⟩

section Short

variable (hl : P.shared (P.cache.root ++ [d])) (hd : IsProper d) (hshort : Tree.Short (q.join d))
include hq hl hd hshort

theorem Kempt.resolve_shared (h : P.Kempt t) :
    t.resolve env.location follow (q.join d) = .ok (P.cache.root ++ [d]) := by
  refine (hq t h.cache).resolve_joins_to h.wellFormed (by simp) (by simpa using hd) ?_ ?_ hshort
  · exact Tree.unlinked_singleton fun _ => (h.level _ hl).noLink
  · simpa using h.cache.root

theorem Kempt.makeDirectory_shared (h : P.Kempt t) : t.makeDirectory env.location (q.join d) =
    if t.get? (P.cache.root ++ [d]) = none then .ok (t.ensure (P.cache.root ++ [d]))
    else .error (.os .alreadyExists) := by
  rw [Tree.makeDirectory, h.resolve_shared hq hl hd hshort, Tree.ensure]
  cases hg : t.get? (P.cache.root ++ [d]) <;>
    simp [hg, Bind.bind, Except.bind, pure, Except.pure, throw, throwThe, MonadExceptOf.throw]

theorem Kempt.stat_shared (h : P.Kempt t) (hdir : t.get? (P.cache.root ++ [d]) ≠ none) :
    t.stat env.location true (q.join d) = .ok .directory := by
  rw [Tree.stat, h.resolve_shared hq hl hd hshort]
  simp [(h.level _ hl).resolve_left hdir, Bind.bind, Except.bind, pure, Except.pure]

/-- A program alone makes a directory that all of them make, or finds it. -/
theorem strolls_createAll (h : P.Kempt w.files) (he : w.environment = env) :
    Strolls m (createAll (q.join d)) w (.done (.ok ()))
      { w with files := w.files.ensure (P.cache.root ++ [d]) } := by
  have hdir : w.directory = env.location := congrArg Environment.location he
  have hcount : (q.join d).components.length = q.components.length + 1 := by
    simp [Path.components, Path.join, ← Nat.add_assoc]
  simp only [createAll, hcount, createUpTo]
  rw [if_neg (by simp [Path.join])]
  have hmake := h.makeDirectory_shared hq hl hd hshort
  split at hmake
  case isTrue hnone =>
    refine Strolls.step (s := .makeDirectory (q.join d)) (r := Except.ok ()) ?_ (.refl _ _)
    rw [Step.exec, hdir, hmake]
    rfl
  case isFalse hsome =>
    have hsame : w.files.ensure (P.cache.root ++ [d]) = w.files := if_neg hsome
    rw [hsame]
    refine Strolls.step (s := .makeDirectory (q.join d)) (r := Except.error (.os .alreadyExists)) (v := w) ?_
      (Strolls.step (s := .stat (q.join d) true) (r := Except.ok .directory) (v := w) ?_ (.refl _ _))
    · rw [Step.exec, hdir, hmake]
      rfl
    · rw [Step.exec, hdir, h.stat_shared hq hl hd hshort hsome]

omit hq hshort in
theorem At.ensure (h : P.At i env D ns w w') :
    (∀ j, P.Leaves j w { w with files := w.files.ensure (P.cache.root ++ [d]) }) ∧
      P.At i env (fun s => D s ∨ s = d) ns { w with files := w.files.ensure (P.cache.root ++ [d]) }
        { w' with files := w'.files.ensure (P.cache.root ++ [d]) } := by
  have hroom := h.files.kempt.room_shared hd
  have hroom' := h.files.kempt'.room_shared hd
  have hs (j : ι) := spares_ensure (i := j) h.files.kempt hl hroom
  have hs' := spares_ensure (i := i) h.files.kempt' hl hroom'
  have hlock := (hs i).get? (.inr rfl)
  refine ⟨fun j => .of_files (hs j) rfl id (Nat.le_refl _) rfl, ?_⟩
  exact
    { h with
      files := h.files.ensure hl hroom hroom'
      next := by simpa only [Tree.nextNumber_ensure] using h.next
      locked := fun number c x hn => h.locked number c x (hlock.symm.trans hn)
      fresh := fun n hn => Nat.lt_of_lt_of_le (h.fresh n hn) (hs i).next
      fresh' := fun n hn => Nat.lt_of_lt_of_le (h.fresh' n hn) hs'.next
      known := fun s hsd => by
        rw [Tree.get?_ensure (by simp) (h.files.kempt'.level _ hl)]
        rcases hsd with hsd | rfl
        · refine ⟨(h.known s hsd).1, ?_⟩
          split
          · rfl
          · exact (h.known s hsd).2
        · exact ⟨hl, if_pos rfl⟩
      held := fun n hn => hlock ▸ h.held n hn }

theorem twin_createAll (h : P.At i env D ns w w') :
    P.Twin m i (fun r v v' => P.At i env (fun s => D s ∨ s = d) ns v v' ∧ r = .ok ())
      (createAll (q.join d)) (createAll (q.join d)) w w' := by
  have halone := strolls_createAll (m := m) hq hl hd hshort h.files.kempt' h.environment'
  suffices htwin : ∀ p', Strolls m p' w' (.done (.ok ()))
      { w' with files := w'.files.ensure (P.cache.root ++ [d]) } →
      P.Twin m i (fun r v v' => P.At i env (fun s => D s ∨ s = d) ns v v' ∧ r = .ok ())
        (createAll (q.join d)) p' w w' from htwin _ halone
  intro p' halone
  have hcount : (q.join d).components.length = q.components.length + 1 := by
    simp [Path.components, Path.join, ← Nat.add_assoc]
  simp only [createAll, hcount, createUpTo]
  rw [if_neg (by simp [Path.join])]
  refine Twin.step_iff.mpr fun v hv r v₁ hr => ?_
  have hy := h.leaves hv
  obtain ⟨hspares, hat⟩ := hy.ensure hl hd
  have hmake := hy.files.kempt.makeDirectory_shared hq hl hd hshort
  rw [Step.exec, hy.directory.1, hmake] at hr
  split at hr
  case isTrue hnone =>
    obtain ⟨rfl, rfl⟩ := Prod.mk.inj (Option.some.inj hr)
    exact ⟨⟨id, fun j _ => hspares j⟩, _, _, halone, .pure fun u hu => ⟨hat.leaves hu, rfl⟩⟩
  case isFalse hsome =>
    obtain ⟨rfl, rfl⟩ := Prod.mk.inj (Option.some.inj hr)
    have hsame : v.files.ensure (P.cache.root ++ [d]) = v.files := if_neg hsome
    rw [hsame] at hat
    refine ⟨.refl v, _, _, halone, ?_⟩
    -- the directory of another is there, and the program looks at it once more
    refine Twin.step_iff.mpr fun u hu r u₁ hr => ?_
    have hz := hat.leaves hu
    have hdir : u.files.get? (P.cache.root ++ [d]) ≠ none := by
      rcases hu.files.common _ hl with he | ⟨hnone, -⟩
      · rwa [he]
      · exact absurd hnone hsome
    rw [Step.exec, hz.directory.1, hz.files.kempt.stat_shared hq hl hd hshort hdir] at hr
    obtain ⟨rfl, rfl⟩ := Prod.mk.inj (Option.some.inj hr)
    exact ⟨.refl u, _, _, .refl _ _, .pure fun u' hu' => ⟨hz.leaves hu', rfl⟩⟩

end Short

include hq

theorem tame_createAll_long (hlong : ¬Tree.Short (q.join d)) :
    P.Tame m i env D (fun r => ∃ e, r = .error e) (createAll (q.join d)) := by
  have hresolve {t : Tree} (h : P.Kempt t) (follow : Bool) :
      t.resolve env.location follow (q.join d) = .error (.os .nameTooLong) := by
    obtain ⟨links, heq⟩ := (hq t h.cache).resolve_eq
    rw [Path.join_eq_joins] at hlong ⊢
    rw [heq follow _ (by simp), if_pos (Nat.not_lt.mp hlong)]
  have hmeets : P.Writes i env D (q.join d) := by
    refine ⟨Tree.demandsDirectory_joins (by simp), fun ns w w' hx follow => ?_⟩
    have hlong := hresolve hx.files.kempt follow
    exact ⟨(hresolve hx.files.kempt' follow).trans hlong.symm, fun l hl => by simp [hlong] at hl⟩
  have hmake : P.Tame m i env D (· = .error (.os .nameTooLong)) (Program.perform (.makeDirectory (q.join d))) := by
    refine .perform fun ns w w' hx hsync r v hr => ?_
    obtain ⟨hspares, v', hr', hy, -⟩ := hx.change (fun t cwd => t.makeDirectory cwd (q.join d))
      (hx.files.makeDirectory hsync.next (hmeets.2 ns w w' hx false)) hr
    refine ⟨hspares, v', hr', hy, ?_⟩
    rw [Step.exec, hx.directory.1, Tree.makeDirectory, hresolve hx.files.kempt] at hr
    exact (Prod.mk.inj (Option.some.inj hr)).1.symm
  have hlook : P.Tame m i env D (· = .error (.os .nameTooLong)) (Program.perform (.stat (q.join d) true)) := by
    refine .look (f := fun w => w.files.stat w.directory true (q.join d)) (fun _ => rfl) fun ns w w' hx => ?_
    have hstat {t : Tree} (h : P.Kempt t) : t.stat env.location true (q.join d) = .error (.os .nameTooLong) := by
      rw [Tree.stat, hresolve h]
      rfl
    simp only [hx.directory]
    exact ⟨(hstat hx.files.kempt').trans (hstat hx.files.kempt).symm, hstat hx.files.kempt⟩
  have hcount : (q.join d).components.length = q.components.length + 1 := by
    simp [Path.components, Path.join, ← Nat.add_assoc]
  simp only [createAll, hcount, createUpTo]
  rw [if_neg (by simp [Path.join])]
  refine hmake.bind fun r hr => ?_
  subst hr
  refine Tame.bind (Q := (· = false)) (hlook.bind fun r hr => ?_) fun found hf => ?_
  · subst hr
    exact .pure rfl
  · subst hf
    exact .pure ⟨_, rfl⟩

/-- A program that makes the directory `d`, if it succeeds. -/
def Opens (P : Plots ι) (m : Machine) (i : ι) (env : Environment) (D : String → Prop) (d : String)
    (Q : α → Prop) (p : Program (Except ε α)) : Prop :=
  ∀ ns w w', P.At i env D ns w w' → P.Twin m i (fun r v v' => P.At i env D ns v v' ∧
    ∀ a, r = .ok a → P.At i env (fun s => D s ∨ s = d) ns v v' ∧ Q a) p p w w'

theorem opens_createAll (hl : P.shared (P.cache.root ++ [d])) (hd : IsProper d) :
    P.Opens m i env D d (fun _ => True) (createAll (q.join d)) := by
  intro ns w w' hx
  by_cases hshort : Tree.Short (q.join d)
  · refine (twin_createAll hq hl hd hshort hx).weaken ?_
    rintro r v v' ⟨hy, rfl⟩
    exact ⟨hy.weaken fun _ => .inl, fun _ _ => ⟨hy, trivial⟩⟩
  · refine (tame_createAll_long hq hshort ns w w' hx).weaken ?_
    rintro r v v' ⟨hy, e, rfl⟩
    exact ⟨hy, nofun⟩

omit hq in
theorem Opens.of {Q : α → Prop} {p : Program (Except ε' α)} (h : P.Opens m i env D d Q p) (wrap : ε' → ε) :
    P.Opens m i env D d Q (Attempt.of p wrap).run := by
  refine fun ns w w' hx => .bind ((h ns w w' hx).weaken fun r v v' hy => ?_)
  cases r with
  | ok a =>
    refine .pure fun u hu => ⟨hy.1.leaves hu, fun b hb => ?_⟩
    obtain rfl : a = b := by simpa using hb
    exact ⟨(hy.2 a rfl).1.leaves hu, (hy.2 a rfl).2⟩
  | error e => exact .pure fun u hu => ⟨hy.1.leaves hu, nofun⟩

omit hq in
theorem Opens.next {Q : α → Prop} {Q' : β → Prop} {x : Attempt ε α} {f : α → Attempt ε β}
    (h : P.Opens m i env D d Q x.run)
    (hf : ∀ a, Q a → P.Tame m i env (fun s => D s ∨ s = d) (fun r => ∀ b, r = .ok b → Q' b) (f a).run) :
    P.Tame m i env D (fun r => ∀ b, r = .ok b → Q' b) (x >>= f).run := by
  refine fun ns w w' hx => .bind ((h ns w w' hx).weaken fun r v v' hy => ?_)
  cases r with
  | ok a =>
    obtain ⟨hz, hq⟩ := hy.2 a rfl
    exact (hf a hq ns v v' hz).weaken fun b u u' hb => ⟨hb.1.weaken fun _ => .inl, hb.2⟩
  | error e => exact .pure fun u hu => ⟨hy.1.leaves hu, nofun⟩

end Shared

section Locks

variable {n : Nat} {c : Content} {x : Bool}

theorem Kempt.lock_ne {t : Tree} (h : P.Kempt t) (hn : t.get? (P.lock i) = some (.file n c x)) (hj : j ≠ i)
    {n' : Nat} {c' : Content} {x' : Bool} (hn' : t.get? (P.lock j) = some (.file n' c' x')) : n' ≠ n := by
  rintro rfl
  exact hj (P.apart (l := P.lock j) (.inr rfl) (.inr (h.single _ _ _ _ _ _ _ hn' hn)))

theorem twin_acquire (hn : n ∈ ns) (hx : P.At i env D ns w w') :
    P.Twin m i (fun _ v v' => P.At i env D ns v v') (Program.perform (.acquire n))
      (Program.perform (.acquire n)) w w' := by
  refine .perform hx fun v v' hy _ r v₁ hr => ?_
  obtain ⟨c, x, hlock⟩ := hy.held n hn
  have hlock' := (hy.files.get? (.inr rfl)).trans hlock
  simp only [Step.exec] at hr ⊢
  split at hr
  case isTrue => simp at hr
  case isFalse hfree =>
    obtain ⟨rfl, rfl⟩ := Prod.mk.inj (Option.some.inj hr)
    rw [if_neg (mt (hy.locked n c x hlock).mp hfree)]
    have hlt := hy.files.kempt.numbered _ _ _ _ hlock
    have hlt' := hy.files.kempt'.numbered _ _ _ _ hlock'
    have hat : P.At i env D ns { v with locked := n :: v.locked } { v' with locked := n :: v'.locked } :=
      { hy with
        locked := fun number c' x' hl => by
          simp only [List.mem_cons]
          exact or_congr Iff.rfl (hy.locked number c' x' hl)
        fresh := List.forall_mem_cons.mpr ⟨hlt, hy.fresh⟩
        fresh' := List.forall_mem_cons.mpr ⟨hlt', hy.fresh'⟩ }
    refine ⟨⟨id, fun j hj =>
      ⟨.refl _, rfl, id, Nat.le_refl _, fun number c' x' hl => ?_, fun hf => ?_⟩⟩, _, rfl,
      fun u hu => hat.leaves hu⟩
    · exact List.mem_cons.trans (or_iff_right (hy.files.kempt.lock_ne hlock hj hl))
    · exact List.forall_mem_cons.mpr ⟨hlt, hf⟩

theorem twin_release (hn : n ∈ ns) (hx : P.At i env D ns w w') :
    P.Twin m i (fun _ v v' => P.At i env D ns v v') (Program.perform (.release n))
      (Program.perform (.release n)) w w' := by
  refine .perform hx fun v v' hy _ r v₁ hr => ?_
  obtain ⟨c, x, hlock⟩ := hy.held n hn
  obtain ⟨rfl, rfl⟩ := Prod.mk.inj (Option.some.inj hr)
  have hat : P.At i env D ns { v with locked := v.locked.filter (· ≠ n) }
      { v' with locked := v'.locked.filter (· ≠ n) } :=
    { hy with
      locked := fun number c' x' hl => by
        simp only [List.mem_filter]
        exact and_congr (hy.locked number c' x' hl) Iff.rfl
      fresh := fun k hk => hy.fresh k (List.mem_of_mem_filter hk)
      fresh' := fun k hk => hy.fresh' k (List.mem_of_mem_filter hk) }
  refine ⟨⟨id, fun j hj =>
    ⟨.refl _, rfl, id, Nat.le_refl _, fun number c' x' hl => ?_, fun hf k hk => ?_⟩⟩, _, rfl,
    fun u hu => hat.leaves hu⟩
  · have hne := hy.files.kempt.lock_ne hlock hj hl
    simp [hne]
  · exact hf k (List.mem_of_mem_filter hk)

theorem At.insertLock (h : P.At i env D ns w w') (hsync : Synced w w') (hr : w.files.Room (P.lock i))
    (hr' : w'.files.Room (P.lock i)) (hnone : w.files.get? (P.lock i) = none) :
    P.Mild i w { w with files := w.files.insertFile (P.lock i) c x } ∧
      P.At i env D (w.files.nextNumber :: ns) { w with files := w.files.insertFile (P.lock i) c x }
        { w' with files := w'.files.insertFile (P.lock i) c x } := by
  have hlock (t : Tree) (ht : t.Room (P.lock i)) :
      (t.insertFile (P.lock i) c x).get? (P.lock i) = some (.file t.nextNumber c x) := by
    rw [Tree.get?_insertFile ht.ne_nil, if_pos rfl]
  have hnew : w.files.nextNumber ∉ w.locked := fun hn => Nat.lt_irrefl _ (h.fresh _ hn)
  have hnew' : w.files.nextNumber ∉ w'.locked := fun hn =>
    Nat.lt_irrefl _ (hsync.next ▸ h.fresh' _ hn)
  refine ⟨⟨id, fun j hj =>
    .of_files (spares_insertLock h.files.kempt hr hnone hj) rfl id (Nat.le_refl _) rfl⟩, ?_⟩
  exact
    { h with
      files := h.files.insertLock hsync.next hr hr' hnone
      next := Nat.succ_le_succ h.next
      locked := fun number c' x' hn => by
        rw [hlock _ hr, Option.some.injEq, Node.file.injEq] at hn
        exact hn.1 ▸ iff_of_false hnew' hnew
      fresh := fun n hn => Nat.lt_succ_of_lt (h.fresh n hn)
      fresh' := fun n hn => Nat.lt_succ_of_lt (h.fresh' n hn)
      known := fun d hd => by
        obtain ⟨hshared, hknown⟩ := h.known d hd
        have hne : P.cache.root ++ [d] ≠ P.lock i := fun he => P.common (i := i) (.inr rfl) (he ▸ hshared)
        refine ⟨hshared, ?_⟩
        rw [Tree.get?_insertFile hr.ne_nil, if_neg hne]
        exact hknown
      held := by
        refine List.forall_mem_cons.mpr ⟨⟨c, x, hlock _ hr⟩, fun n hn => ?_⟩
        obtain ⟨c', x', hn⟩ := h.held n hn
        simp [hnone] at hn }

/-- The lock of a caller is opened as the same file beside others and alone. -/
theorem twin_openLockFile {q : Path} {d s : String} (hq : P.cache.Leads env.location q) (hd : D d)
    (hlock : P.cache.root ++ [d, s] = P.lock i) (hplain : IsPlain d) (hs : IsPlain s)
    (hx : P.At i env D ns w w') :
    P.Twin m i (fun r v v' => P.At i env D (r.toOption.toList ++ ns) v v')
      (Program.perform (.openLockFile (q.joins [d, s]))) (Program.perform (.openLockFile (q.joins [d, s]))) w w' := by
  refine .perform hx fun v v' hy hsync r v₁ hr => ?_
  obtain ⟨hshared, hknown⟩ := hy.known d hd
  have hsame : v'.files.get? (P.cache.root ++ [d]) = v.files.get? (P.cache.root ++ [d]) :=
    (hy.files.common _ hshared).resolve_right fun hn => by simp [hknown] at hn
  have hbefore : ∀ pre, pre ≠ [] → pre <+: [d, s] → pre ≠ [d, s] → P.plot i (P.cache.root ++ pre) ∨
      v'.files.get? (P.cache.root ++ pre) = v.files.get? (P.cache.root ++ pre) ∧
        v.files.NoLink (P.cache.root ++ pre) := by
    intro pre hne hpre hnot
    obtain rfl : pre = [d] := by
      rcases List.prefix_concat_iff.mp (show pre <+: [d] ++ [s] from hpre) with rfl | hpre
      · exact absurd rfl hnot
      · exact (List.prefix_concat_iff.mp (show pre <+: [] ++ [d] from hpre)).resolve_right fun hnil =>
          hne (List.prefix_nil.mp hnil)
    exact .inr ⟨hsame, (hy.files.kempt.level _ hshared).noLink⟩
  obtain ⟨hresolve, hroom⟩ : v'.files.resolve env.location true (q.joins [d, s]) =
      v.files.resolve env.location true (q.joins [d, s]) ∧
      ∀ l, v.files.resolve env.location true (q.joins [d, s]) = .ok l →
        l = P.cache.root ++ [d, s] ∧ v.files.Room l ∧ v'.files.Room l :=
    hy.files.resolve_joins hy.files.kempt.cache hy.files.kempt'.cache hq (by simp) (by simp [hplain, hs])
      (.inr hlock) hbefore
  simp only [Step.exec, hy.directory] at hr ⊢
  rcases hy.files.openOrCreate (Tree.demandsDirectory_joins (by simp)) hresolve
      (fun l hl => (hroom l hl).1.trans hlock) with ⟨o, ho, ho', hheld⟩ | ⟨hr₀, hnone, ho, ho'⟩
  · rw [ho] at hr
    rw [ho']
    cases o with
    | error e =>
      obtain ⟨rfl, rfl⟩ := Prod.mk.inj (Option.some.inj hr)
      exact ⟨.refl v, v', rfl, fun u hu => hy.leaves hu⟩
    | ok n =>
      obtain ⟨rfl, rfl⟩ := Prod.mk.inj (Option.some.inj hr)
      refine ⟨.refl v, v', rfl, fun u hu => At.leaves ?_ hu⟩
      exact { hy with held := List.forall_mem_cons.mpr ⟨hheld n rfl, hy.held⟩ }
  · rw [ho] at hr
    rw [ho']
    obtain ⟨rfl, rfl⟩ := Prod.mk.inj (Option.some.inj hr)
    obtain ⟨-, hr₁, hr₂⟩ := hroom _ hr₀
    have hat := hy.insertLock (c := .empty) (x := false) hsync hr₁ hr₂ hnone
    exact ⟨hat.1, _, by rw [hsync.next], fun u hu => hat.2.leaves hu⟩

end Locks

end Plots

end CompiledModels
