import CompiledModels.Proofs.Site

/-!
Making directories, temporary ones among them.
-/

namespace CompiledModels

open Files Program

/-- What rules have to grant to programs that work in a directory: steps may fail, unless `F`;
others neither take the directory away nor change what a program has done. -/
structure Ground (R : Rules) (m : Machine) (S : Site) (F : Prop) : Prop where
  act : ∀ {w s r w'}, R.act w s r w' → Step.faulty m w s r w'
  sure : F → ∀ {w s r w'}, R.act w s r w' → Step.answers m w s r w'
  past : ∀ {x y}, R.rely x y → y.past = x.past
  environment : ∀ {x y}, R.rely x y → y.world.environment = x.world.environment
  stands : ∀ {x y}, R.rely x y → S.Stands x.files → S.Stands y.files

abbrev Unmoved : Moment → Moment → Prop := Within fun _ => False

structure Lasting (R : Rules) (P : Moment → Prop) : Prop where
  stable : R.Stable P
  unmoved : ∀ x y, Unmoved x y → P x → P y

theorem Adds.of_unmoved {Z : Location → Prop} {x y : Moment} (h : Unmoved x y) : Adds Z x y :=
  ⟨h.mono fun _ h => h.elim, fun l => .inl (h.files l not_false)⟩

variable {R : Rules} {m : Machine} {S : Site} {env : Environment} {p q : Path} {x y : Moment}
  {Z : Location → Prop} {α : Type} {P Q : Moment → Prop} {F : Prop}

theorem Ground.keeping (hR : Ground R m S F) (K : Moment → Moment → Prop) :
    Ground (R.keeping K) m S F :=
  ⟨hR.act, hR.sure, hR.past, hR.environment, hR.stands⟩

theorem apart_none : S.Apart fun _ => False := ⟨not_false, fun _ _ => not_false⟩

structure Standing (S : Site) (env : Environment) (x : Moment) : Prop where
  stands : S.Stands x.files
  environment : x.world.environment = env

theorem Standing.directory (hx : Standing S env x) : x.world.directory = env.location := by
  rw [World.directory, hx.environment]

theorem Standing.wellFormed (hx : Standing S env x) : x.files.WellFormed := hx.stands.wellFormed

theorem Standing.stable (hR : Ground R m S F) : R.Stable (Standing S env) := fun _ _ h hx =>
  ⟨hR.stands h hx.stands, (hR.environment h).trans hx.environment⟩

theorem Standing.changes (h : Changes Z x y) (hz : S.Apart Z) (hx : Standing S env x) :
    Standing S env y :=
  ⟨h.stands hz hx.stands, h.environment.trans hx.environment⟩

theorem Standing.within (h : Within Z x y) (hz : S.Apart Z) (hx : Standing S env x) :
    Standing S env y := hx.changes h.toChanges hz

namespace Lasting

theorem keeping (h : Lasting R P) (K : Moment → Moment → Prop) : Lasting (R.keeping K) P :=
  ⟨h.stable, h.unmoved⟩

theorem standing (hR : Ground R m S F) : Lasting R (Standing S env) :=
  ⟨Standing.stable hR, fun _ _ h hx => hx.within h apart_none⟩

theorem and (hP : Lasting R P) (hQ : Lasting R Q) : Lasting R fun x => P x ∧ Q x :=
  ⟨fun x y h hx => ⟨hP.stable x y h hx.1, hQ.stable x y h hx.2⟩,
    fun x y h hx => ⟨hP.unmoved x y h hx.1, hQ.unmoved x y h hx.2⟩⟩

theorem imp {A : Prop} (hP : Lasting R P) : Lasting R fun x => A → P x :=
  ⟨fun x y h hx ha => hP.stable x y h (hx ha), fun x y h hx ha => hP.unmoved x y h (hx ha)⟩

theorem const (A : Prop) : Lasting R fun _ => A := ⟨fun _ _ _ h => h, fun _ _ _ h => h⟩

theorem of_files {F : Tree → Prop} (hs : R.Stable fun x => F x.files)
    (hF : ∀ t t', (∀ l, t'.get? l = t.get? l) → F t → F t') : Lasting R fun x => F x.files :=
  ⟨hs, fun x y h hx => hF x.files y.files (fun l => h.files l not_false) hx⟩

theorem get? {l : Location} {n : Option Node} (hs : R.Stable fun x => x.files.get? l = n) :
    Lasting R fun x => x.files.get? l = n :=
  of_files (F := fun t => t.get? l = n) hs fun _ _ h ht => (h l).trans ht

theorem spot {l : Location} (hs : R.Stable fun x => x.files.Spot l) :
    Lasting R fun x => x.files.Spot l :=
  of_files (F := fun t => t.Spot l) hs fun _ _ h ht => by simpa only [Tree.Spot, h l] using ht

end Lasting

namespace Rules.Safe

theorem here {a : α} {post : α → Moment → Prop} (h : post a x) (hl : Lasting R (post a)) :
    R.Safe post (Pure.pure a : Program α) x := .done h hl.stable

theorem look (hk : R.Allows Unmoved) (hP : Lasting R P) (hx : P x) {s : Step}
    {post : s.Reply → Moment → Prop} (hn : ∀ r, ¬(Taken.mk s r).Moves)
    (hpost : ∀ r, Lasting R (post r))
    (hs : ∀ y r w, P y → R.act y.world s r w → w = y.world ∧ post r y) :
    R.Safe (fun r y => P y ∧ post r y) (Program.perform s) x := by
  apply Rules.Safe.perform
  intro y hy r w hr
  have hy' := hP.stable _ _ hy hx
  obtain ⟨rfl, hg⟩ := hs y r w hy' hr
  have hu : Unmoved y (y.after s r y.world) := .of_eq (hn r) rfl rfl
  have hl := hP.and (hpost r)
  exact ⟨hk _ _ hu, fun z hz => hl.stable _ _ hz (hl.unmoved _ _ hu ⟨hy', hg⟩)⟩

end Rules.Safe

theorem drawSuffix_drawn (hR : Ground R m S F) (hk : R.Allows Unmoved) (hP : Lasting R P) (hx : P x) :
    R.Safe (fun s y => P y ∧ ∃ seed, s = (World.drawSuffix seed).1) (Program.perform .drawSuffix) x := by
  refine Rules.Safe.perform (s := .drawSuffix) fun y hy r w hr => ?_
  obtain ⟨hs, seed, rfl⟩ := (hR.act hr).drawSuffix
  have hu : Unmoved y (y.after .drawSuffix r { y.world with seed }) := .of_eq (by rintro ⟨_, _, ⟨⟩⟩) rfl rfl
  refine ⟨hk _ _ hu, fun z hz => ⟨?_, _, hs⟩⟩
  exact hP.stable _ _ hz (hP.unmoved _ _ hu (hP.stable _ _ hy hx))

theorem emit_lasting (hR : Ground R m S F) (hk : R.Allows Unmoved) (hP : Lasting R P) (hx : P x)
    {e : Event} : R.Safe (fun _ y => P y) (Program.perform (.emit e)) x := by
  refine Rules.Safe.perform (s := .emit e) fun y hy r w hr => ?_
  obtain rfl := (hR.act hr).emit
  have hu : Unmoved y (y.after (.emit e) r { y.world with events := y.world.events ++ [e] }) :=
    .of_eq (by rintro ⟨_, _, ⟨⟩⟩) rfl rfl
  exact ⟨hk _ _ hu, fun z hz => hP.stable _ _ hz (hP.unmoved _ _ hu (hP.stable _ _ hy hx))⟩

theorem environment_eq (hR : Ground R m S F) (hk : R.Allows Unmoved) (hP : Lasting R P) (hx : P x)
    (hs : ∀ y, P y → y.world.environment = env) :
    R.Safe (fun e y => P y ∧ e = env) (Program.perform .environment) x := by
  refine Rules.Safe.look (s := .environment) hk hP hx (by rintro _ ⟨_, _, ⟨⟩⟩) (fun _ => .const _)
    fun y r w hy hr => ?_
  obtain ⟨hre, hw⟩ := (hR.act hr).environment
  exact ⟨hw, hre.trans (hs y hy)⟩

theorem stat_seen (hR : Ground R m S F) (hk : R.Allows Unmoved) (hP : Lasting R P) (hx : P x)
    {follow : Bool} {Q : Node → Moment → Prop} {T : Prop} (hQ : ∀ n, Lasting R (Q n))
    (h : ∀ y n, P y → y.files.stat y.world.directory follow p = .ok n → Q n y)
    (herr : F → ∀ y e, P y → y.files.stat y.world.directory follow p = .error e → T) :
    R.Safe (fun r y => P y ∧ (∀ n, r = .ok n → Q n y) ∧ ∀ e, r = .error e → F → T)
      (Program.perform (.stat p follow)) x := by
  refine Rules.Safe.look hk hP hx (by rintro _ ⟨_, _, ⟨⟩⟩) (fun r => ?_) fun y r w hy hr => ?_
  · refine .and ⟨fun y z hz hq n hn => ?_, fun y z hz hq n hn => ?_⟩ (.const _)
    · exact (hQ n).stable y z hz (hq n hn)
    · exact (hQ n).unmoved y z hz (hq n hn)
  · obtain ⟨hw, hs⟩ := (hR.act hr).stat
    refine ⟨hw, fun n hn => h y n hy (hs n hn), ?_⟩
    rintro e rfl hF
    exact herr hF y e hy (Prod.mk.inj (Option.some.inj (hR.sure hF hr))).1

theorem isDirectory_seen (hR : Ground R m S F) (hk : R.Allows Unmoved) (hP : Lasting R P) (hx : P x)
    {T : Prop} (hQ : Lasting R Q)
    (h : ∀ y, P y → y.files.stat y.world.directory true p = .ok .directory → Q y)
    (hnot : F → ∀ y, P y → y.files.stat y.world.directory true p ≠ .ok .directory → T) :
    R.Safe (fun b y => P y ∧ (b = true → Q y) ∧ (b = false → F → T)) (isDirectory p) x := by
  refine (stat_seen (Q := fun n y => (n.isDirectory = true → Q y) ∧ (n.isDirectory = false → F → T))
    hR hk hP hx (fun _ => hQ.imp.and (.const _)) (fun y n hy hn => ⟨fun hd => h y hy ?_, fun hd hF => ?_⟩)
    fun hF y e hy he => hnot hF y hy (by simp [he])).next fun r y hy => ?_
  · cases n <;> simp_all [Node.isDirectory]
  · refine hnot hF y hy fun he => ?_
    rw [hn, Except.ok.injEq] at he
    simp [he, Node.isDirectory] at hd
  · cases r with
    | error e => exact .here ⟨hy.1, by simp, fun _ => hy.2.2 e rfl⟩ (hP.and (hQ.imp.and (.const _)))
    | ok n => exact .here ⟨hy.1, hy.2.1 n rfl⟩ (hP.and (hQ.imp.and (.const _)))

section Above

variable (hR : Ground R m S F) (hk : R.Allows Unmoved) (hh : S.Held env.location p)
include hR hk hh

theorem makeDirectory_held (hq : Above p q) (hx : Standing S env x) :
    R.Safe (fun _ y => Standing S env y) (Program.perform (.makeDirectory q)) x := by
  apply Rules.Safe.perform
  intro y hy r w hr
  have hy' := Standing.stable hR _ _ hy hx
  rcases (hR.act hr).makeDirectory with ⟨e, rfl, rfl⟩ | ⟨rfl, t, ht, rfl⟩
  · refine ⟨hk _ _ (.of_eq (by rintro ⟨_, _, ⟨⟩⟩) rfl rfl), fun z hz => ?_⟩
    exact Standing.stable hR _ _ hz (hy'.within (.of_eq (by rintro ⟨_, _, ⟨⟩⟩) rfl rfl) apart_none)
  · obtain ⟨l, hl, hg, _⟩ := Tree.makeDirectory_eq_ok.mp ht
    rw [hy'.directory] at hl
    exact absurd hg (hh q hq _ hy'.stands l hl)

theorem makeOrKeep_held (hq : Above p q) (hx : Standing S env x) :
    R.Safe (fun _ y => Standing S env y) (makeOrKeep q) x := by
  have hl : Lasting R (Standing S env) := .standing hR
  refine (makeDirectory_held hR hk hh hq hx).next fun r y hy => ?_
  cases r with
  | ok _ => exact .here hy hl
  | error e =>
    refine (isDirectory_seen (T := True) hR hk hl hy (.const True) (fun _ _ _ => trivial)
      fun _ _ _ _ => trivial).next fun b z hz => ?_
    split <;> exact .here hz.1 hl

theorem createUpTo_held (n : Nat) (hq : Above p q) (hx : Standing S env x) :
    R.Safe (fun _ y => Standing S env y) (createUpTo n q) x := by
  have hl : Lasting R (Standing S env) := .standing hR
  induction n generalizing q x with
  | zero => exact makeOrKeep_held hR hk hh hq hx
  | succ n ih =>
    simp only [createUpTo]
    split
    case isTrue => exact .here hx hl
    refine (makeDirectory_held hR hk hh hq hx).next fun r y hy => ?_
    cases r with
    | ok _ => exact .here hy hl
    | error e =>
      simp only
      split
      · cases hp : q.parent? with
        | none => exact .here hy hl
        | some q' =>
          refine (ih (hq.parent hp) hy).next fun r z hz => ?_
          cases r with
          | error e => exact .here hz hl
          | ok _ => exact makeOrKeep_held hR hk hh hq hz
      · refine (isDirectory_seen (T := True) hR hk hl hy (.const True) (fun _ _ _ => trivial)
      fun _ _ _ _ => trivial).next fun b z hz => ?_
        split <;> exact .here hz.1 hl

end Above

def Private (R : Rules) (l : Location) : Prop :=
  ∀ x y, R.rely x y → ∀ rest, y.files.get? (l ++ rest) = x.files.get? (l ++ rest)

/-- A directory of the site that others do not take away, nor put anything else in its place. -/
structure Room (R : Rules) (l : Location) : Prop where
  spot : R.Stable (·.files.Spot l)
  directory : R.Stable (·.files.get? l = some .directory)
  link : R.Stable (·.files.NoLink l)

theorem Room.keeping {l : Location} (h : Room R l) (K : Moment → Moment → Prop) :
    Room (R.keeping K) l := ⟨h.spot, h.directory, h.link⟩

section Making

variable {d : String} (hR : Ground R m S F) (hk : R.Allows (Adds (· = S.root ++ [d])))
  (hp : S.Leads env.location p) (hd : IsPlain d) (hroom : Room R (S.root ++ [d]))
  (hfit : F → IsProper d ∧ Tree.Short (p.join d))
include hR hk hp hd hroom hfit

omit hR hk hd hroom in
theorem resolve_join (hF : F) (hx : Standing S env x) (hs : x.files.Spot (S.root ++ [d]))
    {follow : Bool} :
    x.files.resolve x.world.directory follow (p.join d) = .ok (S.root ++ [d]) := by
  rw [hx.directory, Path.join_eq_joins]
  refine (hp _ hx.stands).resolve_joins_to hx.wellFormed (by simp) (by simpa using (hfit hF).1)
    (Tree.unlinked_singleton fun _ => hs.noLink) ?_ (hfit hF).2
  simpa using hx.stands.root

theorem makeDirectory_join (hx : Standing S env x) (hs : x.files.Spot (S.root ++ [d])) :
    R.Safe (fun r y => (Standing S env y ∧ y.files.Spot (S.root ++ [d])) ∧
        (r = .ok () → y.files.get? (S.root ++ [d]) = some .directory) ∧
        (∀ e, r = .error e → F → e = .os .alreadyExists ∧
          y.files.get? (S.root ++ [d]) = some .directory))
      (Program.perform (.makeDirectory (p.join d))) x := by
  have hz : S.Apart (· = S.root ++ [d]) := Site.apart_below fun l hl => ⟨[d], by simp, hl⟩
  refine Rules.Safe.perform (s := .makeDirectory (p.join d)) fun y hy r w hr => ?_
  have hy' := Standing.stable hR _ _ hy hx
  have hspot := hroom.spot _ _ hy hs
  rcases (hR.act hr).makeDirectory with ⟨e, rfl, rfl⟩ | ⟨rfl, t, ht, rfl⟩
  · have hu : Unmoved y (y.after (.makeDirectory (p.join d)) (.error e) y.world) :=
      .of_eq (by rintro ⟨_, _, ⟨⟩⟩) rfl rfl
    refine ⟨hk _ _ (.of_unmoved hu), fun z hzr => ⟨⟨?_, hroom.spot _ _ hzr hspot⟩, by simp, ?_⟩⟩
    · exact Standing.stable hR _ _ hzr (hy'.within hu apart_none)
    · rintro e ⟨⟩ hF
      have herr := Step.eq_error_of_onFiles (Option.some.inj (hR.sure hF hr))
      have hres : y.files.resolve _ false (p.join d) = _ := resolve_join hp hfit hF hy' hspot
      rcases hspot with hnone | hsome
      · rw [Tree.makeDirectory_eq_ok.mpr ⟨_, hres, hnone, rfl⟩] at herr
        simp at herr
      · rw [Tree.makeDirectory_taken hres hsome, Except.error.injEq] at herr
        exact ⟨herr.symm, hroom.directory _ _ hzr hsome⟩
  · rw [hy'.directory, Path.join_eq_joins] at ht
    obtain ⟨hnone, hwf, _, hget⟩ := Tree.makeDirectory_joins (hp _ hy'.stands) hy'.wellFormed
      (by simp) (by simpa using hd) (Tree.unlinked_singleton (by simp)) ht
    have hw : Adds (· = S.root ++ [d]) y
        (y.after (.makeDirectory (p.join d)) (.ok ()) { y.world with files := t }) :=
      .of_tree (by rintro ⟨_, _, ⟨⟩⟩) hwf rfl hnone rfl hget
    have hmade : t.get? (S.root ++ [d]) = some .directory := by simp [hget]
    refine ⟨hk _ _ hw, fun z hzr => ⟨⟨?_, ?_⟩, fun _ => hroom.directory _ _ hzr hmade, by simp⟩⟩
    · exact Standing.stable hR _ _ hzr (hy'.within hw.toWithin hz)
    · exact hroom.spot _ _ hzr (.inr hmade)

theorem isDirectory_join (hx : Standing S env x) (hs : x.files.Spot (S.root ++ [d])) :
    R.Safe (fun b y => (Standing S env y ∧ y.files.Spot (S.root ++ [d])) ∧
      (b = true → y.files.get? (S.root ++ [d]) = some .directory) ∧
      (b = false → F → x.files.get? (S.root ++ [d]) ≠ some .directory)) (isDirectory (p.join d)) x := by
  have hl : Lasting R fun y => (Standing S env y ∧ y.files.Spot (S.root ++ [d])) ∧
      (x.files.get? (S.root ++ [d]) = some .directory → y.files.get? (S.root ++ [d]) = some .directory) :=
    ((Lasting.standing hR).and (.spot hroom.spot)).and (Lasting.get? hroom.directory).imp
  refine (isDirectory_seen hR (fun x y h => hk x y (.of_unmoved h)) hl ⟨⟨hx, hs⟩, id⟩
    (.get? hroom.directory) ?_ ?_).weaken fun b y hy => ⟨hy.1.1, hy.2⟩
  · rintro y ⟨⟨hy, hspot⟩, _⟩ hstat
    obtain ⟨l, hl, hg⟩ := Tree.stat_eq_ok.mp hstat
    rw [hy.directory, Path.join_eq_joins] at hl
    obtain ⟨rfl, _⟩ := (hp _ hy.stands).resolve_joins_ok (by simp) (by simpa using hd)
      (Tree.unlinked_singleton fun _ => hspot.noLink) hl
    exact hg
  · rintro hF y ⟨⟨hy, hspot⟩, hthere⟩ hstat hdir
    exact hstat (Tree.stat_eq_ok.mpr ⟨_, resolve_join hp hfit hF hy hspot, hthere hdir⟩)

abbrev Made (S : Site) (env : Environment) (F : Prop) (d : String) (r : Except FileError Unit)
    (y : Moment) : Prop :=
  (Standing S env y ∧ y.files.Spot (S.root ++ [d])) ∧
    (r = .ok () → y.files.get? (S.root ++ [d]) = some .directory) ∧ (∀ e, r = .error e → ¬F)

omit hk hp hd hfit in
theorem Made.lasting (r : Except FileError Unit) : Lasting R (Made S env F d r) :=
  ((Lasting.standing hR).and (.spot hroom.spot)).and
    ((Lasting.get? hroom.directory).imp.and (.const _))

theorem keep_join (e : FileError) (hx : Standing S env x) (hs : x.files.Spot (S.root ++ [d]))
    (hthere : F → x.files.get? (S.root ++ [d]) = some .directory) :
    R.Safe (Made S env F d) (do if ← isDirectory (p.join d) then return .ok () else return .error e) x := by
  refine (isDirectory_join hR hk hp hd hroom hfit hx hs).next fun b y hy => ?_
  cases b with
  | true => exact .here ⟨hy.1, fun _ => hy.2.1 rfl, by simp⟩ (Made.lasting hR hroom _)
  | false =>
    exact .here ⟨hy.1, by simp, fun _ _ hF => hy.2.2 rfl hF (hthere hF)⟩ (Made.lasting hR hroom _)

theorem makeOrKeep_join (hx : Standing S env x) (hs : x.files.Spot (S.root ++ [d])) :
    R.Safe (Made S env F d) (makeOrKeep (p.join d)) x := by
  refine (makeDirectory_join hR hk hp hd hroom hfit hx hs).next fun r y hy => ?_
  cases r with
  | ok _ => exact .here ⟨hy.1, hy.2.1, by simp⟩ (Made.lasting hR hroom _)
  | error e =>
    exact keep_join hR hk hp hd hroom hfit e hy.1.1 hy.1.2 fun hF => (hy.2.2 e rfl hF).2

theorem createAll_made (hh : S.Held env.location p) (hx : Standing S env x)
    (hs : x.files.Spot (S.root ++ [d])) :
    R.Safe (Made S env F d) (createAll (p.join d)) x := by
  have hcount : (p.join d).components.length = p.components.length + 1 := by
    simp [Path.components, Path.join, ← Nat.add_assoc]
  have hparent : (p.join d).parent? = some p := by
    simp only [Path.parent?, Path.join]
    cases h : p.tail ++ [d] with
    | nil => simp at h
    | cons a rest => simp [← h]
  simp only [createAll, hcount, createUpTo]
  split
  case isTrue h => simp [Path.join] at h
  refine (makeDirectory_join hR hk hp hd hroom hfit hx hs).next fun r y hy => ?_
  cases r with
  | ok _ => exact .here ⟨hy.1, hy.2.1, by simp⟩ (Made.lasting hR hroom _)
  | error e =>
    simp only
    split
    case isFalse => exact keep_join hR hk hp hd hroom hfit e hy.1.1 hy.1.2 fun hF => (hy.2.2 e rfl hF).2
    case isTrue hmissing =>
      have hnot : ¬F := by
        intro hF
        rw [(hy.2.2 e rfl hF).1] at hmissing
        exact absurd hmissing (by decide)
      rw [hparent]
      simp only
      have hup := createUpTo_held (R := R.keeping Unmoved) (hR.keeping _) (fun _ _ h => h) hh
        p.components.length .self hy.1.1
      refine (hup.keepInvariant (fun x y h => hk x y (.of_unmoved h)) hy.1.2 hroom.spot
        fun y z h => (Lasting.spot hroom.spot).unmoved y z h).next fun r z hz => ?_
      cases r with
      | error e => exact .here ⟨hz, by simp, fun _ _ => hnot⟩ (Made.lasting hR hroom _)
      | ok _ => exact makeOrKeep_join hR hk hp hd hroom hfit hz.1 hz.2

end Making

section Fresh

variable {a : String} {dir : List String} {M : String → Moment → Prop} (hR : Ground R m S F)
  (hk : R.Allows (Adds fun l => ∃ s, l = S.root ++ dir ++ [a ++ s]))
  (hq : S.Leads env.location q) (ha : ∀ s, IsPlain (a ++ s))
  (hdir : R.Stable (·.files.get? (S.root ++ dir) = some .directory))
  (hP : Lasting R P) (hM : ∀ s, R.Stable (M s))
  (hmade : ∀ s y z, P y → Adds (· = S.root ++ dir ++ [a ++ s]) y z →
    y.files.get? (S.root ++ dir ++ [a ++ s]) = none →
    z.files.Folder (S.root ++ dir ++ [a ++ s]) [] → M s z)
  (hnew : ∀ s, R.Stable (·.files.get? (S.root ++ dir ++ [a ++ s]) = none))
  (hfit : F → ∀ seed, IsProper (a ++ (World.drawSuffix seed).1) ∧
    Tree.Short (q.joins (dir ++ [a ++ (World.drawSuffix seed).1])))
include hR hk hq ha hdir hP hM hmade hnew hfit

theorem makeFresh_step {s : String} (hseed : ∃ seed, s = (World.drawSuffix seed).1)
    (hx : Standing S env x) (hpre : x.files.get? (S.root ++ dir) = some .directory) (hPx : P x)
    (hfree : F → x.files.get? (S.root ++ dir ++ [a ++ s]) = none) :
    R.Safe (fun r y => (Standing S env y ∧ y.files.get? (S.root ++ dir) = some .directory) ∧
        (r = .ok () → IsProper (a ++ s) ∧ M s y) ∧ (∀ e, r = .error e → P y ∧ ¬F))
      (Program.perform (.makeDirectory ((q.joins dir).join (a ++ s)))) x := by
  have hl : Lasting R fun y => Standing S env y ∧ y.files.get? (S.root ++ dir) = some .directory :=
    (Lasting.standing hR).and (.get? hdir)
  refine Rules.Safe.perform (s := .makeDirectory ((q.joins dir).join (a ++ s))) fun y hy r w hr => ?_
  obtain ⟨hy', hpre'⟩ := hl.stable _ _ hy ⟨hx, hpre⟩
  have hPy := hP.stable _ _ hy hPx
  have hwf := hy'.wellFormed
  have hunlinked : y.files.Unlinked false S.root (dir ++ [a ++ s]) :=
    (hwf.unlinked hpre').concat (by simp)
  have hproper : ∀ n ∈ dir, IsProper n := fun n hn =>
    hwf.proper_of_get? (l := S.root ++ dir) (by rw [hpre']; simp) n (by simp [hn])
  rcases (hR.act hr).makeDirectory with ⟨e, rfl, rfl⟩ | ⟨rfl, t, ht, rfl⟩
  · have hu : Unmoved y (y.after (.makeDirectory ((q.joins dir).join (a ++ s))) (.error e)
      y.world) := .of_eq (by rintro ⟨_, _, ⟨⟩⟩) rfl rfl
    refine ⟨hk _ _ (.of_unmoved hu), fun z hzr => ⟨?_, by simp, fun e _ => ⟨?_, fun hF => ?_⟩⟩⟩
    · exact hl.stable _ _ hzr (hl.unmoved _ _ hu ⟨hy', hpre'⟩)
    · exact hP.stable _ _ hzr (hP.unmoved _ _ hu hPy)
    · obtain ⟨seed, rfl⟩ := hseed
      have herr := Step.eq_error_of_onFiles (Option.some.inj (hR.sure hF hr))
      rw [hy'.directory, Path.joins_join] at herr
      have hres := (hq _ hy'.stands).resolve_joins_to hwf (by simp)
        (List.forall_mem_append.mpr ⟨hproper, by simpa using (hfit hF seed).1⟩) hunlinked
        (by simpa using hpre') (hfit hF seed).2
      have hnone := hnew _ _ _ hy (hfree hF)
      rw [List.append_assoc] at hnone
      rw [Tree.makeDirectory_eq_ok.mpr ⟨_, hres, hnone, rfl⟩] at herr
      simp at herr
  · rw [hy'.directory, Path.joins_join] at ht
    obtain ⟨hnone, hwf', hproper', hget⟩ := Tree.makeDirectory_joins (hq _ hy'.stands) hwf (by simp)
      (List.forall_mem_append.mpr ⟨fun n hn => (hproper n hn).1, by simpa using ha s⟩) hunlinked ht
    have hw : Adds (· = S.root ++ dir ++ [a ++ s]) y
        (y.after (.makeDirectory ((q.joins dir).join (a ++ s))) (.ok ())
          { y.world with files := t }) :=
      .of_tree (by rintro ⟨_, _, ⟨⟩⟩) hwf' (by simp) hnone rfl hget
    have hz : S.Apart (· = S.root ++ dir ++ [a ++ s]) :=
      Site.apart_below fun l hl => ⟨dir ++ [a ++ s], by simp, by simpa using hl⟩
    rw [← List.append_assoc] at hnone
    have hfolder : t.Folder (S.root ++ dir ++ [a ++ s]) [] := by
      refine ⟨by simp [hget], by simp, fun rest hr hn => absurd ?_ hn⟩
      rw [hget, if_neg (by simpa using hr)]
      exact hwf.get?_below (by rw [hnone]; simp) hr
    have hpre'' : t.get? (S.root ++ dir) = some .directory := by
      rw [hget, if_neg (by simp), hpre']
    refine ⟨hk _ _ (hw.mono fun _ h => ⟨s, h⟩), fun z hzr =>
      ⟨hl.stable _ _ hzr ⟨hy'.within hw.toWithin hz, hpre''⟩, fun _ => ?_, by simp⟩⟩
    exact ⟨hproper' _ (by simp), hM s _ _ hzr (hmade s _ _ hPy hw hnone hfolder)⟩

theorem makeFresh_fresh (tries : Nat) (hx : Standing S env x)
    (hpre : x.files.get? (S.root ++ dir) = some .directory) (hPx : P x)
    (hfree : F → ∀ s, x.files.get? (S.root ++ dir ++ [a ++ s]) = none) :
    R.Safe (fun r y => (Standing S env y ∧ y.files.get? (S.root ++ dir) = some .directory) ∧
        (∀ p, r = .ok p → ∃ seed s, s = (World.drawSuffix seed).1 ∧
          p = q.joins (dir ++ [a ++ s]) ∧ IsProper (a ++ s) ∧ M s y) ∧
        (∀ e, r = .error e → P y ∧ (F → tries = 0)))
      (makeFresh a (q.joins dir) tries) x := by
  have hl : Lasting R fun y => Standing S env y ∧ y.files.get? (S.root ++ dir) = some .directory :=
    (Lasting.standing hR).and (.get? hdir)
  have hfreed : Lasting R fun y => F → ∀ s, y.files.get? (S.root ++ dir ++ [a ++ s]) = none :=
    ⟨fun y z h hy hF s => hnew s y z h (hy hF s),
      fun y z h hy hF s => (h.files _ not_false).trans (hy hF s)⟩
  induction tries generalizing x with
  | zero =>
    exact .pure fun z hz => ⟨hl.stable _ _ hz ⟨hx, hpre⟩, by simp, fun _ _ =>
      ⟨hP.stable _ _ hz hPx, fun _ => rfl⟩⟩
  | succ tries ih =>
    simp only [makeFresh]
    refine (drawSuffix_drawn hR (fun x y h => hk x y (.of_unmoved h)) ((hl.and hP).and hfreed)
      ⟨⟨⟨hx, hpre⟩, hPx⟩, hfree⟩).next fun s y hy => ?_
    obtain ⟨⟨⟨⟨hst, hdy⟩, hPy⟩, hfy⟩, hseed⟩ := hy
    refine (makeFresh_step hR hk hq ha hdir hP hM hmade hnew hfit hseed hst hdy hPy
      fun hF => hfy hF s).settled.next fun r z hz => ?_
    cases r with
    | ok _ =>
      refine .pure fun u hu => ⟨(hz u hu).1, ?_, by simp⟩
      rintro p he
      simp only [Except.ok.injEq] at he
      obtain ⟨hp, hf⟩ := (hz u hu).2.1 rfl
      obtain ⟨seed, hseed⟩ := hseed
      exact ⟨seed, s, hseed, by rw [← he, Path.joins_join], hp, hf⟩
    | error e =>
      obtain ⟨hPz, hnot⟩ := (hz z (R.refl z)).2.2 e rfl
      simp only
      split
      · refine (ih (hz z (R.refl z)).1.1 (hz z (R.refl z)).1.2 hPz fun hF => absurd hF hnot).weaken ?_
        exact fun _ _ h => ⟨h.1, h.2.1, fun e he => ⟨(h.2.2 e he).1, fun hF => absurd hF hnot⟩⟩
      · exact .pure fun u hu => ⟨(hz u hu).1, by simp, fun _ _ =>
          ⟨hP.stable _ _ hu hPz, fun hF => absurd hF hnot⟩⟩

theorem makeTemporary_fresh {p : Path} (hp : q = Path.inDirectory env.directory p)
    (hx : Standing S env x) (hpre : x.files.get? (S.root ++ dir) = some .directory) (hPx : P x)
    (hfree : F → ∀ s, x.files.get? (S.root ++ dir ++ [a ++ s]) = none) :
    R.Safe (fun r y => (Standing S env y ∧ y.files.get? (S.root ++ dir) = some .directory) ∧
        (∀ p, r = .ok p → ∃ seed s, s = (World.drawSuffix seed).1 ∧
          p = q.joins (dir ++ [a ++ s]) ∧ IsProper (a ++ s) ∧ M s y) ∧
        (∀ e, r = .error e → P y ∧ ¬F))
      (makeTemporary a (p.joins dir)) x := by
  have hfreed : Lasting R fun y => F → ∀ s, y.files.get? (S.root ++ dir ++ [a ++ s]) = none :=
    ⟨fun y z h hy hF s => hnew s y z h (hy hF s),
      fun y z h hy hF s => (h.files _ not_false).trans (hy hF s)⟩
  refine (environment_eq hR (fun x y h => hk x y (.of_unmoved h))
    ((((Lasting.standing hR).and (.get? hdir)).and hP).and hfreed) ⟨⟨⟨hx, hpre⟩, hPx⟩, hfree⟩
    fun y hy => hy.1.1.1.environment).next ?_
  rintro e y ⟨⟨⟨⟨hy, hpre'⟩, hPy⟩, hfree'⟩, rfl⟩
  rw [Path.inDirectory_joins, ← hp]
  refine (makeFresh_fresh hR hk hq ha hdir hP hM hmade hnew hfit maxTries hy hpre' hPy hfree').weaken ?_
  refine fun r z h => ⟨h.1, h.2.1, fun e he => ⟨(h.2.2 e he).1, fun hF => ?_⟩⟩
  simpa [maxTries] using (h.2.2 e he).2 hF

end Fresh

theorem apart_under {top : List String} (ht : top ≠ []) : S.Apart (S.root ++ top <+: ·) :=
  Site.apart_below fun _ ⟨rest, h⟩ => ⟨top ++ rest, by simp [ht], by simpa using h.symm⟩

end CompiledModels
