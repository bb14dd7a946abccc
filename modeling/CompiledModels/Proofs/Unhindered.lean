import CompiledModels.Proofs.Rebuilding
import CompiledModels.Proofs.Shelf

/-!
Building a module where nothing is in the way: if it fails, then because of a tool.
-/

namespace CompiledModels

open Files Program Estate

variable {R : Rules} {m : Machine} {E : Estate} {env : Environment} {tools : Invocation → Prop}
  {e : Engine} {c : Cache} {id : ModelIdentity} {t : Tree} {S : Site} {α ε : Type} {x y : Moment}
  {p q : Path} {s name a : String} {dir : List String}

abbrev Rules.free (R : Rules) : Rules := R.keeping fun _ _ => True

namespace Rules.Safe

variable {post post' : α → Moment → Prop} {p : Program α}

theorem also (h : R.Safe post p x) (h' : R.free.Safe post' p x) :
    R.Safe (fun a y => post a y ∧ post' a y) p x := by
  induction p generalizing x with
  | done a => exact done_iff.2 fun y hy => ⟨done_iff.1 h y hy, done_iff.1 h' y hy⟩
  | step s next ih =>
    rw [step_iff] at h h' ⊢
    intro y hy r w hr
    exact ⟨(h y hy r w hr).1, ih r (h y hy r w hr).2 (h' y hy r w hr).2⟩

theorem always (h : ∀ a y, post a y) : R.free.Safe post p x := by
  induction p generalizing x with
  | done a => exact done_iff.2 fun y _ => h a y
  | step s next ih => exact step_iff.2 fun y _ r w _ => ⟨trivial, ih r⟩

theorem only {Q : α → Prop} (h : R.Safe post p x)
    (ho : p.Only (fun _ _ => True) (fun _ => True) Q) :
    R.Safe (fun a y => post a y ∧ Q a) p x := by
  induction p generalizing x with
  | done a => exact done_iff.2 fun y hy => ⟨done_iff.1 h y hy, ho⟩
  | step s next ih =>
    rw [step_iff] at h ⊢
    intro y hy r w hr
    exact ⟨(h y hy r w hr).1, ih r (h y hy r w hr).2 (ho.2 r trivial)⟩

end Rules.Safe

/-- The paths to the cache leave room for the names in it, and so does the name of the model. -/
structure Cache.Roomy (c : Cache) (env : Environment) (id : ModelIdentity) : Prop where
  root : c.root.text.utf8ByteSize ≤ 2000
  full : (Path.inDirectory env.directory c.root).text.utf8ByteSize ≤ 2000
  name : id.name.utf8ByteSize ≤ 242

theorem Cache.Roomy.proper (h : c.Roomy env id) : IsProper id.name :=
  ⟨id.isPlain, Nat.le_trans h.name (by decide)⟩

theorem Cache.Roomy.proper_staged (h : c.Roomy env id) (seed : Nat) :
    IsProper (stagedName id (World.drawSuffix seed).1) := by
  refine ⟨plain_stagedName id _, ?_⟩
  have hname := h.name
  rw [size_stagedName, Tree.maxNameLength]
  omega

theorem Cache.Roomy.proper_build (h : c.Roomy env id) (seed : Nat) :
    IsProper ("build_" ++ id.name ++ "_" ++ (World.drawSuffix seed).1) := by
  refine ⟨plain_build id _, ?_⟩
  have hname := h.name
  have h₁ : "build_".utf8ByteSize = 6 := by decide
  have h₂ : "_".utf8ByteSize = 1 := by decide
  simp only [String.utf8ByteSize_append, h₁, h₂, size_drawSuffix]
  rw [Tree.maxNameLength]
  omega

theorem Cache.Roomy.short_entry (h : c.Roomy env id) : Tree.Short (c.entryDirectory id) := by
  rw [Cache.entryDirectory_eq]
  exact short_joins h.root (by decide) h.proper.2

def Estate.Idle (E : Estate) (id : ModelIdentity) (t : Tree) : Prop :=
  ∀ s, t.get? (E.building id s) = none ∧ t.get? (E.cache.stagedAt (stagedName id s)) = none

section Temporary

variable {P : Moment → Prop} {M : String → Moment → Prop} {Q : Except ε α → Prop}
  {wrap : FileError → ε} {work : Path → Attempt ε α}

theorem inTemporary_unhindered (hR : Ground R m S True) (hq : S.Leads env.location q)
    (ha : ∀ s, IsPlain (a ++ s)) (hdir : R.Stable (·.files.get? (S.root ++ dir) = some .directory))
    (hP : Lasting R P) (hM : ∀ s, R.Stable (M s))
    (hmade : ∀ s y z, P y → Adds (· = S.root ++ dir ++ [a ++ s]) y z →
      y.files.get? (S.root ++ dir ++ [a ++ s]) = none →
      z.files.Folder (S.root ++ dir ++ [a ++ s]) [] → M s z)
    (hnew : ∀ s, R.Stable (·.files.get? (S.root ++ dir ++ [a ++ s]) = none))
    (hfit : ∀ seed, IsProper (a ++ (World.drawSuffix seed).1) ∧
      Tree.Short (q.joins (dir ++ [a ++ (World.drawSuffix seed).1])))
    (hp : q = Path.inDirectory env.directory p) (hx : Standing S env x)
    (hpre : x.files.get? (S.root ++ dir) = some .directory) (hPx : P x)
    (hfree : ∀ s, x.files.get? (S.root ++ dir ++ [a ++ s]) = none)
    (hwork : ∀ seed s y, s = (World.drawSuffix seed).1 → Standing S env y →
      y.files.get? (S.root ++ dir) = some .directory → M s y →
      R.free.Safe (fun r _ => Q r) (work (q.joins (dir ++ [a ++ s]))).run y) :
    R.free.Safe (fun r _ => Q r) (Attempt.inTemporary a (p.joins dir) wrap work).run x := by
  have hmake : R.free.Safe _ _ x := makeTemporary_fresh (hR.keeping _) (fun _ _ _ => trivial) hq ha
    hdir (hP.keeping _) hM hmade hnew (fun _ => hfit) hp hx hpre hPx fun _ => hfree
  refine .ofThen hmake (fun dir' y hy => ?_) fun e y hy => absurd trivial (hy.2.2 e rfl).2
  obtain ⟨seed, s, hs, rfl, -, hMs⟩ := hy.2.1 dir' rfl
  exact (hwork seed s y hs hy.1.1 hy.1.2 hMs).andThen fun r z hz => .always fun _ _ => hz

end Temporary

theorem moveFile_error {module target : Path} :
    (Cache.moveFile module target).run.Only (fun _ _ => True) (fun _ => True)
      fun r => ∀ err, r = .error err → ∃ cause, err = .io module cause := by
  have hany (s : Step) : (perform s).Only (fun _ _ => True) (fun _ => True) fun _ => True :=
    .perform trivial fun _ _ => trivial
  refine .liftThen (hany _) fun r _ => ?_
  cases r with
  | ok _ => exact fun err h => by cases h
  | error e =>
    refine .ofThen (hany _) (fun _ _ => ?_) fun e _ err h => ⟨e, (Except.error.inj h).symm⟩
    exact .liftThen (hany _) fun _ _ err h => by cases h

theorem Workplace.sure (hR : Workplace R E m env tools)
    (hact : ∀ {w s r w'}, R.act w s r w' → Step.answers m w s r w') : Ground R m E.cache True :=
  { hR.cache with sure := fun _ => hact }

section Store

variable {output warnings : String} {manifest : Manifest}
  (hS : E.cache.Serves env c.root) (hR : Workplace R E m env tools)
  (hact : ∀ {w s r w'}, R.act w s r w' → Step.answers m w s r w') (hroom : c.Roomy env id)

include hS hR in
theorem retire_absent {P : Moment → Prop} {n : String} (hP : Lasting R P)
    (hx : Waiting E.cache env (c.entryDirectory id) x) (hPx : P x)
    (habsent : x.files.get? (E.cache.entry id) = none) :
    R.free.Safe (fun r y => r = .ok () ∧ (Waiting E.cache env (c.entryDirectory id) y ∧
        y.files.get? (E.cache.entry id) = none) ∧ P y)
      (c.retire id ((Path.inDirectory env.directory c.root).joins [".staging", n])).run x := by
  have hsh := hR.sheltered id True
  have hlast := Retirable.lasting (F := False) (b := c.retiredPath id n) hsh ⟨n, rfl⟩
  have hexists := (entryExists_retirable (R := R.keeping Unmoved) (F := False) (A := True) (b := c.retiredPath id n)
    (s := retiredName id n) hS (hsh.keeping _) ⟨n, rfl⟩ False.elim (fun _ _ h => h) hx
    ⟨fun _ => habsent, False.elim, False.elim, False.elim⟩).widen (L := fun _ _ => True)
    (fun _ _ _ => trivial) hPx hP.stable hP.unmoved
  refine .liftThen hexists fun b y hy => ?_
  obtain ⟨⟨⟨hwait, hret⟩, hthere, -⟩, hPy⟩ := hy
  cases b with
  | true => exact absurd trivial (hthere rfl).1
  | false =>
    refine .pure fun z hz => ⟨rfl, ⟨Waiting.stable hsh y z hz hwait, ?_⟩, hP.stable y z hz hPy⟩
    exact (hlast.stable y z hz hret).absent trivial

theorem Estate.entry_absent_stable {E : Estate} (hR : Workplace R E m env tools) (id : ModelIdentity) :
    R.Stable (·.files.get? (E.cache.entry id) = none) := by
  have h := hR.stable (Steady.get? (n := none) (E.still_entry id []))
  rwa [List.append_nil] at h

include hS hR in
theorem moveModule_error_source {d : Parcel} {n : String} (hn : ModuleFile.isName name = true)
    (hd : d.name = name) (hgood : d.good = fun _ _ => True) (hname : ∃ s', n = stagedName id s')
    (hout : ¬E.cache.stagedAt n <+: E.building id s ++ [name])
    (hx : Started E.cache env (c.entryDirectory id) x) (hw : Working E.cache env [".staging", n] [] x)
    (hy : Yield (E.building id s) name x) (habsent : x.files.get? (E.cache.entry id) = none) :
    R.free.Safe (fun r y => (Started E.cache env (c.entryDirectory id) y ∧
          y.files.get? (E.cache.entry id) = none) ∧
        (r = .ok () → ∃ c' b, Working E.cache env [".staging", n] [(d.name, c', b)] y) ∧
        ∀ err, r = .error err → ∃ cause, err = .io ((Path.inDirectory env.directory c.root).joins
          [".staging", "build_" ++ id.name ++ "_" ++ s, name]) cause)
      (Cache.moveFile ((Path.inDirectory env.directory c.root).joins
        [".staging", "build_" ++ id.name ++ "_" ++ s, name])
        (((Path.inDirectory env.directory c.root).joins [".staging", n]).join d.name)).run x := by
  subst hd
  have hden := E.den_building id s
  have hplace : E.building id s <+: E.building id s ++ [d.name] := List.prefix_append _ _
  have hne : (Path.inDirectory env.directory c.root).joins
      [".staging", "build_" ++ id.name ++ "_" ++ s, d.name] ≠ c.entryDirectory id := by
    rw [Cache.entryDirectory_eq]
    intro h
    have htail := congrArg Path.tail h
    simp [Path.joins, Path.inDirectory_tail] at htail
  have hentry : ¬(E.cache.stagedAt n <+: E.cache.entry id ∨
      E.cache.entry id = E.building id s ++ [d.name]) := by
    rintro (h | h)
    · exact E.cache.not_staged_entry n [] (by simpa using h)
    · exact hden.apart _ (h ▸ hplace) (E.cache.entry_eq id ▸ List.prefix_append _ _)
  refine (((moveModule_working (F := False) (A := True) (hR.sheltered id True) hS.full
      (Path.inDirectory_tail _) hname (hgood ▸ Yield.source hR hS (ModuleFile.plain_of_isName hn))
      (hden.cache.mono fun _ hl => hl ▸ hplace) (fun h => hden.staging (h ▸ hplace)) (hden.apart _ hplace)
      hne (ModuleFile.plain_of_isName hn) False.elim False.elim hout False.elim hx hw hy).widen
    (L := fun _ _ => True) (fun _ _ _ => trivial) habsent (entry_absent_stable hR id)
    fun y z h hy => (h.files _ hentry).trans hy).only moveFile_error).weaken fun r y h => ?_
  obtain ⟨⟨⟨hst, -, hok, -⟩, hny⟩, herr⟩ := h
  refine ⟨⟨hst, hny⟩, fun hr => ?_, herr⟩
  obtain ⟨⟨c', b, -, hwy⟩, -⟩ := hok hr
  exact ⟨c', b, hwy⟩

include hS hR hact hroom

theorem createModels_unhindered {d : Parcel} {content : Content} {b : Bool} {n : String}
    (hname : ∃ s', n = stagedName id s') (hx : Started E.cache env (c.entryDirectory id) x)
    (hw : Packed E.cache env [".staging", n] p d content b x)
    (habsent : x.files.get? (E.cache.entry id) = none) :
    R.free.Safe (fun r y => r = .ok () ∧ (Waiting E.cache env (c.entryDirectory id) y ∧
        Packed E.cache env [".staging", n] p d content b y) ∧ y.files.get? (E.cache.entry id) = none)
      (createAll c.modelsDirectory) x := by
  have hmade := (createModels_waiting hS (hR.shelter (hR.sure hact) id True) hname
    (fun _ => short_join hroom.root (by decide)) hx hw).widen (L := fun _ _ => True)
    (fun _ _ _ => trivial) habsent (entry_absent_stable hR id) fun y z h hy =>
      (h.files _ fun hm => E.cache.not_entry_models id (hm ▸ List.prefix_refl _)).trans hy
  refine hmade.weaken fun r y hy => ?_
  obtain ⟨⟨⟨-, hpy⟩, hok, herr⟩, hny⟩ := hy
  cases r with
  | ok _ => exact ⟨rfl, ⟨hok rfl, hpy⟩, hny⟩
  | error err => exact absurd trivial (herr err rfl)

theorem replace_unhindered {d : Parcel} {content : Content} {b : Bool} {n : String} (file : Path)
    (hgood : d.good content b) (hname : ∃ s', n = stagedName id s') (hproper : IsProper n)
    (hx : Waiting E.cache env (c.entryDirectory id) x)
    (hw : Packed E.cache env [".staging", n]
      ((Path.inDirectory env.directory c.root).joins [".staging", n]) d content b x)
    (habsent : x.files.get? (E.cache.entry id) = none) :
    R.free.Safe (fun r _ => r = .ok file)
      (do
        c.retire id ((Path.inDirectory env.directory c.root).joins [".staging", n])
        Attempt.of (perform (.rename ((Path.inDirectory env.directory c.root).joins [".staging", n])
          (c.entryDirectory id))) (.io (c.entryDirectory id))
        return file : Attempt CacheError Path).run x := by
  have hR' : Sheltered R m E.cache id True True := hR.shelter (hR.sure hact) id True
  have hlast : Lasting R (Packed E.cache env [".staging", n]
      ((Path.inDirectory env.directory c.root).joins [".staging", n]) d content b) := by
    refine ⟨Packed.stable hR'.ground (staged_private hR' hname), fun y z h hy => ?_⟩
    obtain ⟨t, ht, -⟩ := h.taken
    exact hy.changes h.toChanges ht apart_none fun _ => not_false
  refine .attempt (retire_absent hS hR hlast hx hw habsent) (fun _ v hv => ?_)
    fun err v hv => by cases hv.1
  obtain ⟨-, ⟨hwait, hnv⟩, hpv⟩ := hv
  have hpublish := (publish_arrived (d := d) hS hR' hS.full hname hgood
    (fun _ => ⟨⟨hroom.proper, hroom.short_entry⟩, hproper, short_joins hroom.full (by decide) hproper.2⟩)
    (fun _ => hnv) hwait hpv).widen (L := fun _ _ => True) (J := fun _ => True) (fun _ _ _ => trivial)
      trivial (fun _ _ _ _ => trivial) fun _ _ _ _ => trivial
  exact .ofThen hpublish (fun _ o _ => .pure fun _ _ => rfl)
    fun err o ho => absurd trivial (ho.1.2.2.2 err rfl).2

theorem assemble_error_source {n : String} (hn : ModuleFile.isName name = true)
    (hname : ∃ s', n = stagedName id s') (hproper : IsProper n)
    (hout : ¬E.cache.stagedAt n <+: E.building id s ++ [name])
    (hx : Started E.cache env (c.entryDirectory id) x) (hw : Working E.cache env [".staging", n] [] x)
    (hy : Yield (E.building id s) name x) (habsent : x.files.get? (E.cache.entry id) = none) :
    R.free.Safe (fun r _ => ∀ err, r = .error err →
        ∃ cause, err = .io ((Path.inDirectory env.directory c.root).joins
          [".staging", "build_" ++ id.name ++ "_" ++ s, name]) cause)
      (c.assemble id ((Path.inDirectory env.directory c.root).joins
        [".staging", "build_" ++ id.name ++ "_" ++ s, name]) output warnings manifest
        ((Path.inDirectory env.directory c.root).joins [".staging", n])).run x := by
  let d : Parcel := ⟨name, fun _ _ => True, Cache.texts output warnings manifest⟩
  have hfile : ((Path.inDirectory env.directory c.root).joins
      [".staging", "build_" ++ id.name ++ "_" ++ s, name]).fileName? = some name :=
    Path.fileName?_joins _ [_, _] _
  have htexts : ∀ text ∈ d.texts, IsProper text.1 ∧ Tree.Short
      (((Path.inDirectory env.directory c.root).joins [".staging", n]).join text.1) := by
    intro text ht
    have hp : ∀ text ∈ Cache.texts output warnings manifest, IsProper text.1 := by
      simp only [Cache.texts, List.forall_mem_cons]
      decide
    exact ⟨hp text ht, short_joins_join hroom.full (by decide) hproper.2 (hp text ht).2⟩
  simp only [Cache.assemble, hfile]
  refine .attempt (moveModule_error_source (d := d) hS hR hn rfl rfl hname hout hx hw hy habsent)
    (fun _ y hy => ?_) fun err y hy err' h => hy.2.2 err' (by cases h; rfl)
  obtain ⟨⟨hsty, hny⟩, hok, -⟩ := hy
  obtain ⟨content, b, hwy⟩ := hok rfl
  have hwrite := (writeTexts_packed (d := d) (hR.shelter (hR.sure hact) id True) hS.full hname
      (Cache.plain_texts output warnings manifest) (ModuleFile.nodup_of_isName hn output warnings manifest)
      (fun _ => htexts) hsty hwy).widen (L := fun _ _ => True) (fun _ _ _ => trivial) hny
    (entry_absent_stable hR id) fun y z h hy =>
      (h.files _ fun hp => E.cache.not_staged_entry n [] (by simpa using hp)).trans hy
  refine .attempt hwrite (fun _ z hz => ?_) fun err z hz => absurd trivial (hz.1.2.2.2 err rfl)
  obtain ⟨⟨hstz, -, hok, -⟩, hnz⟩ := hz
  refine .ofThen (createModels_unhindered hS hR hact hroom hname hstz (hok rfl) hnz) (fun _ u hu => ?_)
    fun err u hu => by cases hu.1
  obtain ⟨-, ⟨hwait, hpacked⟩, hnu⟩ := hu
  exact (replace_unhindered (d := d) hS hR hact hroom _ trivial hname hproper hwait hpacked hnu).weaken
    fun r v hr err h => by cases hr.symm.trans h

theorem storeBuilt_error_source (hn : ModuleFile.isName name = true) (hx : Standing E.cache env x)
    (hs : x.files.Spot E.cache.staging) (hy : Yield (E.building id s) name x) (hc : E.Cradle c id x)
    (hfree : ∀ s', x.files.get? (E.cache.stagedAt (stagedName id s')) = none) :
    R.free.Safe (fun r _ => ∀ err, r = .error err →
        ∃ cause, err = .io ((Path.inDirectory env.directory c.root).joins
          [".staging", "build_" ++ id.name ++ "_" ++ s, name]) cause)
      (c.store id ((Path.inDirectory env.directory c.root).joins
        [".staging", "build_" ++ id.name ++ "_" ++ s, name]) output warnings manifest).run x := by
  have hg := hR.sure hact
  have hstill (n : String) : E.Still (E.cache.stagedAt n) := (E.den_staging n).still
  have hat (n : String) : E.cache.root ++ [".staging"] ++ [n] = E.cache.stagedAt n := by simp [Site.stagedAt]
  let J (y : Moment) : Prop := (Yield (E.building id s) name y ∧ E.Cradle c id y) ∧
    ∀ s', y.files.get? (E.cache.stagedAt (stagedName id s')) = none
  have hJs : E.Steady fun y => Yield (E.building id s) name y ∧ E.Cradle c id y :=
    Yield.steady.and Cradle.steady
  have hJ : E.Steady J := hJs.and fun y z h hy s' => Steady.get? (hstill _) y z h (hy s')
  have hopen := (openStaging_opened (R := R.keeping (Adds (· = E.cache.staging))) (hg.keeping _)
    (fun _ _ h => h) ((hR.room E.still_staging).keeping _) hS (fun _ => short_join hroom.root (by decide))
      hx hs : (R.keeping _).Safe _ _ _).widen (L := fun _ _ => True) (J := J) (fun _ _ _ => trivial)
    ⟨⟨hy, hc⟩, hfree⟩ (hR.stable hJ) fun y z h hy => by
      refine ⟨⟨⟨(h.files _ ?_).trans hy.1.1.directory, ?_⟩, hy.1.2.spares (fun rest => h.files _ ?_) h.taken⟩,
        fun s' => (h.files _ ?_).trans (hy.2 s')⟩
      · simp [building, Site.staging]
      · rw [h.files _ (by simp [building, Site.staging])]
        exact hy.1.1.file
      · simp [Site.models, Site.staging, ModelIdentity.modelNamespace]
      · simp [Site.stagedAt, Site.staging]
  rw [Cache.store_eq]
  refine .attempt hopen (fun dir y hy => ?_) fun err y hy => absurd trivial (hy.1.2.2 err rfl)
  obtain ⟨⟨⟨hsty, -⟩, hdir, -⟩, hJy⟩ := hy
  obtain ⟨rfl, hstaging⟩ := hdir dir rfl
  refine inTemporary_unhindered (S := E.cache) (P := J) (M := fun s' z => z.files.Folder (E.cache.stagedAt (stagedName id s')) [] ∧
      (Yield (E.building id s) name z ∧ E.Cradle c id z) ∧
      ¬E.cache.stagedAt (stagedName id s') <+: E.building id s ++ [name]) hg hS.full (plain_stagedName id)
    (hR.stable (Steady.get? E.still_staging)) (hR.lasting hJ) (fun s' => ?_) (fun s' z u hz h hnone hf => ?_)
    (fun s' => hR.stable (Steady.get? ?_)) (fun seed => ?_) rfl hsty hstaging hJy (fun s' => ?_)
    fun seed s' z hseed hstz hdz hM => ?_
  · exact fun y z h hy => ⟨hy.1.congr ((hR.sheltered id True).staged s' y z h), hR.stable hJs y z h hy.2.1, hy.2.2⟩
  · rw [hat] at h hnone hf
    have hout := hz.1.1.apart hnone
    refine ⟨hf, ⟨(Yield.source hR hS (ModuleFile.plain_of_isName hn)).adds h (.inr fun hp => ?_) hz.1.1,
      hz.1.2.spares (fun rest => h.files _ fun hp => ?_) h.taken⟩, hout⟩
    · exact hout (hp ▸ List.prefix_refl _)
    · simp [Site.models, Site.stagedAt, ModelIdentity.modelNamespace] at hp
  · rw [hat]
    exact hstill _
  · have hproper := hroom.proper_staged seed
    exact ⟨hproper, short_joins hroom.full (by decide) hproper.2⟩
  · rw [hat]
    exact hJy.2 s'
  · have hproper := hroom.proper_staged seed
    obtain ⟨hf, ⟨hyz, hcz⟩, hout⟩ := hM
    rw [hseed] at hf hout ⊢
    exact assemble_error_source hS hR hact hroom hn ⟨_, rfl⟩ hproper hout
      ⟨hstz, hdz, hcz.models, hcz.arrived⟩ ⟨hstz, hf⟩ hyz hcz.absent

end Store

theorem stagedName_ne_build (id : ModelIdentity) (s s' : String) :
    stagedName id s ≠ "build_" ++ id.name ++ "_" ++ s' := by
  intro h
  have hs := congrArg String.toList h
  simp only [stagedName, String.toList_append, List.append_assoc] at hs
  exact absurd (List.cons.inj hs).1 (by decide)

theorem stanbind_ne_staged (id : ModelIdentity) (s s' : String) : "stanbind_" ++ s ≠ stagedName id s' := by
  intro h
  have hs := congrArg String.toList h
  simp only [stagedName, String.toList_append, List.append_assoc] at hs
  exact absurd (List.cons.inj hs).1 (by decide)

namespace Estate

def Unstaged (E : Estate) (id : ModelIdentity) (x : Moment) : Prop :=
  ∀ s, x.files.get? (E.cache.stagedAt (stagedName id s)) = none

theorem Unstaged.steady : E.Steady (E.Unstaged id) := fun x y h hx s =>
  Steady.get? (E.den_staging _).still x y h (hx s)

theorem Unstaged.lasts {d : Location} (hd : ∀ s, ¬d <+: E.cache.stagedAt (stagedName id s)) :
    E.Lasts d (E.Unstaged id) :=
  ⟨Unstaged.steady, fun _ _ h hy s =>
    (h.files _ (not_or.mpr ⟨hd s, not_not.mpr (E.den_staging _).still⟩)).trans (hy s)⟩

theorem Lasts.and {d : Location} {P Q : Moment → Prop} (hP : E.Lasts d P) (hQ : E.Lasts d Q) :
    E.Lasts d fun x => P x ∧ Q x :=
  ⟨hP.steady.and hQ.steady, fun y z h hy => ⟨hP.inside y z h hy.1, hQ.inside y z h hy.2⟩⟩

end Estate

/-- The error is one of the translator or of the toolchain, or what these have built is gone. -/
inductive Error.OfTools (work : Path) : Error → Prop
  | translation (err : TranslationError) : OfTools work (.translation err)
  | build (err : BuildError) : OfTools work (.build err)
  | gone (name : String) (cause : FileError) : OfTools work (.cache (.io (work.join name) cause))

section Compile

variable (hE : e.Settled E env) (hR : Workplace R E m env tools)
  (hact : ∀ {w s r w'}, R.act w s r w' → Step.answers m w s r w') (hroom : e.cache.Roomy env id)
include hE hR hact hroom

theorem construct_error_ofTools {source s : String}
    (hx : E.Busy e.cache env False t (E.place id) [E.building id s] x) (ht : t.WellFormed)
    (hr : E.Ready e.cache id s x)
    (hfree : ∀ s', x.files.get? (E.cache.stagedAt (stagedName id s')) = none) :
    R.free.Safe (fun r _ => ∀ err, r = .error err →
        err.OfTools ((Path.inDirectory env.directory e.cache.root).joins
          [".staging", "build_" ++ id.name ++ "_" ++ s]))
      (e.cache.construct id source e.translator e.builder
        ((Path.inDirectory env.directory e.cache.root).joins
          [".staging", "build_" ++ id.name ++ "_" ++ s])).run x := by
  have hR' : Workplace R.free E m env tools := hR.keeping _
  have hk : R.free.Allows E.Spares := fun _ _ _ => trivial
  have htranslating (s' : String) : E.Lasts (E.translating s') fun y =>
      E.Ready e.cache id s y ∧ E.Unstaged id y := by
    refine Ready.lasts_translating.and (Unstaged.lasts fun s₀ hp => ?_)
    rw [translating_eq_stagedAt] at hp
    exact stanbind_ne_staged id s' s₀ (Site.stagedAt_eq hp)
  have hcompiling (k : Nat) (s' : String) : E.Lasts (E.compiling k s') fun y =>
      E.Ready e.cache id s y ∧ E.Unstaged id y := by
    refine Ready.lasts_compiling.and (Unstaged.lasts fun s₀ hp => ?_)
    exact scratch_ne (E.scratch_compiling k s' hp) [".staging", stagedName id s₀] rfl
  refine .ofThen (translate_busy hE hR' hk ht False.elim (fun s' => List.forall_mem_singleton.mpr
    (E.building_apart_translating id s s')) htranslating hx ⟨hr, hfree⟩) (fun translation y hy => ?_)
    fun err _ _ err' h => by cases h; exact .translation err
  refine .ofThen (build_busy hE hR' hk ht False.elim (fun k s' => List.forall_mem_singleton.mpr
    (E.building_apart_compiling id k s s')) hcompiling hy.1 hy.2) (fun output z hz => ?_)
    fun err _ _ err' h => by cases h; exact .build err
  obtain ⟨hfile, hz⟩ := hz
  obtain ⟨nanos, hfile⟩ := hfile output rfl
  refine .liftThen (hR'.quiet (quiet_only (fun _ => Step.isIdle_of_isQuiet) rfl) hk.rests
    (Busy.steady.and (Ready.steady.and Unstaged.steady)) hz) fun now u hu => ?_
  have hbusy := hu.2.1
  have hready := hu.2.2.1
  have hunstaged := hu.2.2.2
  rw [Path.joins_join] at hfile
  rw [hfile]
  refine .ofThen (storeBuilt_error_source hE.serves hR hact hroom (ModuleFile.isName_name id _ nanos env.processNumber)
    hbusy.cache (.inr hbusy.staging) hready.yield hready.cradle hunstaged) (fun file v _ => ?_)
    fun err v hv err' h => ?_
  · exact .liftThen (.always fun _ _ => trivial) fun _ _ _ => .pure fun _ _ err h => by cases h
  · obtain ⟨cause, rfl⟩ := hv err rfl
    cases h
    have hgone (w : Path) (n : String) : Error.OfTools w (.cache (.io (w.join n) cause)) := .gone n cause
    have hbuilt := hgone ((Path.inDirectory env.directory e.cache.root).joins
      [".staging", "build_" ++ id.name ++ "_" ++ s])
      (ModuleFile.name id (Builder.buildNumber translation.code nanos env.processNumber))
    rw [Path.joins_join] at hbuilt
    exact hbuilt

theorem compileModel_error_ofTools {source : String} (hx : Standing E.cache env x)
    (htemp : ∀ k, Standing (E.temp k) env x) (hs : x.files.Spot E.cache.staging) (hc : E.Cradle e.cache id x)
    (hidle : E.Idle id x.files) :
    R.free.Safe (fun r _ => ∀ err, r = .error err → ∃ s,
        err.OfTools ((Path.inDirectory env.directory e.cache.root).joins
          [".staging", "build_" ++ id.name ++ "_" ++ s]))
      (e.cache.compileModel id source e.translator e.builder).run x := by
  have hg := hR.sure hact
  have hat (s : String) : E.cache.root ++ [".staging"] ++ ["build_" ++ id.name ++ "_" ++ s] = E.building id s := rfl
  have ht : x.files.WellFormed := hx.wellFormed
  let J (y : Moment) : Prop := (E.Framed e.cache env False x.files (E.place id) y ∧ E.Cradle e.cache id y) ∧
    E.Unstaged id y ∧ ∀ s, y.files.get? (E.building id s) = none
  have hJs : E.Steady fun y => E.Unstaged id y ∧ ∀ s, y.files.get? (E.building id s) = none :=
    Unstaged.steady.and fun y z h hy s => Steady.get? (E.still_building id s) y z h (hy s)
  have hJ : E.Steady J := (Framed.steady.and Cradle.steady).and hJs
  have hopen := (openStaging_opened (R := R.keeping (Adds (· = E.cache.staging))) (hg.keeping _)
    (fun _ _ h => h) ((hR.room E.still_staging).keeping _) hE.serves
      (fun _ => short_join hroom.root (by decide)) hx hs : (R.keeping _).Safe _ _ _).widen
    (L := fun _ _ => True) (J := J) (fun _ _ _ => trivial)
    ⟨⟨⟨hx, htemp, fun _ _ _ _ _ => rfl⟩, hc⟩, fun s => (hidle s).2, fun s => (hidle s).1⟩ (hR.stable hJ)
    fun y z h hy => by
      refine ⟨⟨hy.1.1.opens h, hy.1.2.spares (fun rest => h.files _ ?_) h.taken⟩,
        fun s => (h.files _ ?_).trans (hy.2.1 s), fun s => (h.files _ ?_).trans (hy.2.2 s)⟩
      · simp [Site.models, Site.staging, ModelIdentity.modelNamespace]
      · simp [Site.stagedAt, Site.staging]
      · simp [building, Site.staging]
  rw [Cache.compileModel_eq]
  refine .ofThen hopen (fun dir y hy => ?_) fun err y hy => absurd trivial (hy.1.2.2 err rfl)
  obtain ⟨⟨⟨hsty, -⟩, hdir, -⟩, hJy⟩ := hy
  obtain ⟨rfl, hstaging⟩ := hdir dir rfl
  let P (z : Moment) : Prop := (E.Busy e.cache env False x.files (E.place id) [] z ∧ E.Cradle e.cache id z) ∧
    E.Unstaged id z
  have hP : E.Steady P := (Busy.steady.and Cradle.steady).and Unstaged.steady
  refine inTemporary_unhindered (S := E.cache) (P := P) (M := fun s z =>
      E.Busy e.cache env False x.files (E.place id) [E.building id s] z ∧ E.Ready e.cache id s z ∧
        E.Unstaged id z) hg hE.serves.full (plain_build id) (hR.stable (Steady.get? E.still_staging))
    (hR.lasting hP) (fun s => hR.stable ?_) (fun s z u hz h hnone hf => ?_)
    (fun s => hR.stable (Steady.get? (E.still_building id s))) (fun seed => ?_) rfl hsty hstaging
    ⟨⟨hJy.1.1.busy (fun _ => models_of_place) hstaging, hJy.1.2⟩, hJy.2.1⟩ hJy.2.2
    fun seed s z hseed hstz hdz hM => ?_
  · exact Busy.steady.and (Ready.steady.and Unstaged.steady)
  · refine ⟨hz.1.1.opens ht h (E.den_building id s) hnone (by simp), ⟨hf.directory,
      .of_folder (E.still_building id s) hf, hz.1.2.spares ((E.den_building id s).spares
        (h.toChanges.mono fun l hl => .inl (hl ▸ List.prefix_refl _))) h.taken⟩, fun s' => ?_⟩
    refine (h.files _ fun hl => stagedName_ne_build id s' s ?_).trans (hz.2 s')
    rw [hat, building_eq_stagedAt] at hl
    exact Site.stagedAt_eq (S := E.cache) (hl ▸ List.prefix_refl _)
  · have hproper := hroom.proper_build seed
    exact ⟨hproper, short_joins hroom.full (by decide) hproper.2⟩
  · exact (construct_error_ofTools hE hR hact hroom hM.1 ht hM.2.1 hM.2.2).weaken fun r _ h err hr => ⟨s, h err hr⟩

end Compile

end CompiledModels
