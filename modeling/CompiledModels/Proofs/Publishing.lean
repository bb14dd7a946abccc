import CompiledModels.Proofs.ModuleFile
import CompiledModels.Proofs.Retiring

/-!
Publishing an entry: it is put together in a directory of its own, which is then moved into the
place of the entry.
-/

namespace CompiledModels

open Files Program

variable {R : Rules} {m : Machine} {S : Site} {env : Environment} {p q : Path} {x y : Moment}
  {c : Cache} {id : ModelIdentity} {place : Location} {d : Parcel} {I : Moment → Prop} {F A : Prop}
  {n : String}

structure Started (S : Site) (env : Environment) (p : Path) (x : Moment) : Prop where
  standing : Standing S env x
  staging : x.files.get? S.staging = some .directory
  models : x.files.Spot S.models
  arrived : ¬Arrived p x.past

theorem Started.stable (hR : Sheltered R m S id F A) : R.Stable (Started S env p) := fun _ _ h hx =>
  ⟨Standing.stable hR.ground _ _ h hx.standing, hR.staging.directory _ _ h hx.staging,
    hR.models.spot _ _ h hx.models, hR.ground.past h ▸ hx.arrived⟩

theorem Started.changes {Z : Location → Prop} (h : Changes Z x y) (ha : ¬Arrived p y.past)
    (hz : S.Apart Z) (hs : ¬Z S.staging) (hm : ¬Z S.models) (hx : Started S env p x) :
    Started S env p y :=
  ⟨hx.standing.changes h hz, (h.files _ hs).trans hx.staging,
    by simpa only [Tree.Spot, h.files _ hm] using hx.models, ha⟩

theorem Started.within {Z : Location → Prop} (h : Within Z x y) (hz : S.Apart Z)
    (hs : ¬Z S.staging) (hm : ¬Z S.models) (hx : Started S env p x) : Started S env p y :=
  hx.changes h.toChanges (fun ha => hx.arrived (ha.of_within h)) hz hs hm

def Site.stagedAt (S : Site) (n : String) : Location := S.root ++ [".staging", n]

theorem Site.not_staged_staging (S : Site) (n : String) : ¬S.stagedAt n <+: S.staging := by
  rintro ⟨rest, h⟩
  simp [Site.staging, Site.stagedAt] at h

theorem Site.not_staged_models (S : Site) (n : String) : ¬S.stagedAt n <+: S.models := by
  rintro ⟨rest, h⟩
  simp [Site.models, Site.stagedAt] at h

theorem Site.not_staged_entry (S : Site) (n : String) (rest : List String) :
    ¬S.stagedAt n <+: S.entry id ++ rest := by
  rintro ⟨more, h⟩
  simp [Site.entry, Site.stagedAt, ModelIdentity.modelNamespace] at h

theorem Site.not_entry_staged (S : Site) (id : ModelIdentity) (n : String) (rest : List String) :
    ¬S.entry id <+: S.stagedAt n ++ rest := by
  rintro ⟨more, h⟩
  simp [Site.entry, Site.stagedAt, ModelIdentity.modelNamespace] at h

theorem Site.apart_staged_entry (S : Site) (n : String) (id : ModelIdentity) :
    S.Apart fun l => S.stagedAt n <+: l ∨ S.entry id <+: l := by
  refine Site.apart_below ?_
  rintro l (⟨rest, rfl⟩ | ⟨rest, rfl⟩)
  · exact ⟨[".staging", n] ++ rest, by simp, by simp [Site.stagedAt]⟩
  · exact ⟨[ModelIdentity.modelNamespace, id.name] ++ rest, by simp, by simp [Site.entry]⟩

def stagedName (id : ModelIdentity) (s : String) : String := "entry_" ++ id.name ++ "_" ++ s

theorem plain_stagedName (id : ModelIdentity) (s : String) : IsPlain (stagedName id s) := by
  rw [stagedName, String.append_assoc, String.append_assoc]
  exact plain_of_start (by decide) _

theorem retired_ne_staged (s s' : String) : "retired_" ++ s ≠ stagedName id s' := by
  intro h
  have hchars := congrArg String.toList h
  rw [stagedName, String.toList_append, String.append_assoc, String.append_assoc,
    String.toList_append, show "retired_".toList = 'r' :: "etired_".toList from rfl,
    show "entry_".toList = 'e' :: "ntry_".toList from rfl, List.cons_append, List.cons_append,
    List.cons.injEq] at hchars
  exact absurd hchars.1 (by decide)

theorem Site.retired_apart_staged (S : Site) (s s' : String) (rest : List String) :
    ¬S.retiredAt s <+: S.stagedAt (stagedName id s') ++ rest := by
  rintro ⟨more, h⟩
  simp only [Site.retiredAt, Site.stagedAt, List.append_assoc, List.append_cancel_left_eq,
    List.cons_append, List.cons.injEq, List.nil_append, true_and] at h
  exact retired_ne_staged s s' h.1

theorem Site.staged_apart_retired (S : Site) (s s' : String) (rest : List String) :
    ¬S.stagedAt (stagedName id s') <+: S.retiredAt s ++ rest := by
  rintro ⟨more, h⟩
  simp only [Site.retiredAt, Site.stagedAt, List.append_assoc, List.append_cancel_left_eq,
    List.cons_append, List.cons.injEq, List.nil_append, true_and] at h
  exact retired_ne_staged s s' h.1.symm

structure Packed (S : Site) (env : Environment) (dir : List String) (p : Path) (d : Parcel)
    (c : Content) (e : Bool) (x : Moment) : Prop where
  working : Working S env dir (entryFiles d.name c e d.texts) x
  written : Written p d.texts x

theorem Packed.stable {dir : List String} {c : Content} {e : Bool} (hR : Ground R m S F)
    (hpriv : Private R (S.root ++ dir)) : R.Stable (Packed S env dir p d c e) := fun _ _ h hx =>
  ⟨Working.stable hR hpriv _ _ h hx.working, Written.stable hR _ _ h hx.written⟩

theorem Packed.changes {Z : Location → Prop} {dir : List String} {c : Content} {e : Bool} {t : Taken}
    (h : Changes Z x y) (hpast : y.past = t :: x.past) (hz : S.Apart Z)
    (hd : ∀ rest, ¬Z (S.root ++ dir ++ rest)) (hx : Packed S env dir p d c e x) :
    Packed S env dir p d c e y :=
  ⟨hx.working.within h hz hd, hx.written.taken hpast⟩

def Stored (S : Site) (env : Environment) (p : Path) (name : String) (r : Except CacheError Path)
    (x : Moment) : Prop :=
  (Standing S env x ∧ x.files.Spot S.staging) ∧
    ((∃ file, r = .ok file) ↔ Arrived p x.past) ∧ ∀ file, r = .ok file → file = p.join name

theorem Stored.stable {name : String} {r : Except CacheError Path} (hR : Sheltered R m S id F A) :
    R.Stable (Stored S env p name r) := fun _ _ h hx =>
  ⟨⟨Standing.stable hR.ground _ _ h hx.1.1, hR.staging.spot _ _ h hx.1.2⟩,
    hR.ground.past h ▸ hx.2.1, hx.2.2⟩

theorem Stored.within {Z : Location → Prop} {name : String} {r : Except CacheError Path}
    (h : Within Z x y) (hz : S.Apart Z) (hs : ¬Z S.staging) (hx : Stored S env p name r x) :
    Stored S env p name r y := by
  refine ⟨⟨hx.1.1.within h hz, ?_⟩, hx.2.1.trans ⟨?_, (·.of_within h)⟩, hx.2.2⟩
  · simpa only [Tree.Spot, h.files _ hs] using hx.1.2
  · rintro ⟨a, ha⟩
    obtain ⟨s, hp, _⟩ := h.taken
    exact ⟨a, hp ▸ List.mem_cons_of_mem _ ha⟩

def Cache.assemble (c : Cache) (id : ModelIdentity) (module : Path) (output warnings : String)
    (manifest : Manifest) (staged : Path) : Attempt CacheError Path := do
  match module.fileName? with
  | none => throw (.io module .noFileName)
  | some name =>
    moveFile module (staged.join name)
    writeTexts staged (texts output warnings manifest)
    Attempt.of (createAll c.modelsDirectory) (.io c.modelsDirectory)
    c.retire id staged
    let entry := c.entryDirectory id
    Attempt.of (perform (.rename staged entry)) (.io entry)
    return entry.join name

theorem Cache.store_eq (c : Cache) (id : ModelIdentity) (module : Path) (output warnings : String)
    (manifest : Manifest) : c.store id module output warnings manifest = (do
      let staging ← c.openStaging
      Attempt.inTemporary ("entry_" ++ id.name ++ "_") staging (.io staging)
        (c.assemble id module output warnings manifest)) := rfl

def retiredName (id : ModelIdentity) (n : String) : String := id.name ++ "_" ++ n

def Cache.retiredPath (c : Cache) (id : ModelIdentity) (n : String) : Path :=
  c.root.joins [".staging", "retired_" ++ retiredName id n]

structure Pending (S : Site) (c : Cache) (id : ModelIdentity) (F A : Prop) (I : Moment → Prop)
    (x : Moment) : Prop where
  models : x.files.Spot S.models
  arrived : ¬Arrived (c.entryDirectory id) x.past
  source : I x
  retirable : ∀ seed, Retirable S id F A (c.retiredPath id (stagedName id (World.drawSuffix seed).1))
    (retiredName id (stagedName id (World.drawSuffix seed).1)) x.files

def Site.bench (S : Site) (id : ModelIdentity) (A : Prop) (place : Location) (n : String) :
    Location → Prop := fun l =>
  l = S.models ∨ S.stagedAt n <+: l ∨ (¬A ∧ S.retiredAt (retiredName id n) <+: l) ∨ l = place

structure Finished (S : Site) (env : Environment) (p : Path) (name : String) (id : ModelIdentity)
    (F : Prop) (place : Location) (n : String) (r : Except CacheError Path) (x : Moment) : Prop where
  stored : Stored S env p name r x
  staged : x.files.Bare (S.stagedAt n) ∨ x.files.get? (S.stagedAt n) = some .directory ∧ ¬F
  sure : F → (∃ file, r = .ok file) ∧ x.files.Bare (S.retiredAt (retiredName id n)) ∧
    x.files.get? place = none

/-- The names in an entry are short enough, in the directory `n` where it is put together and where
it is retired from there. -/
structure FitsAt (c : Cache) (q : Path) (id : ModelIdentity) (names : List String) (n : String) :
    Prop where
  staged : IsProper n ∧ Tree.Short (q.joins [".staging", n])
  files : ∀ s ∈ names, IsProper s ∧ Tree.Short ((q.joins [".staging", n]).join s)
  retired : IsProper ("retired_" ++ retiredName id n) ∧ Tree.Short (c.retiredPath id n)

structure Fits (c : Cache) (q : Path) (id : ModelIdentity) (names : List String) : Prop where
  staging : Tree.Short (c.root.join ".staging")
  models : Tree.Short (c.root.join ModelIdentity.modelNamespace)
  entry : IsProper id.name ∧ Tree.Short (c.entryDirectory id)
  builds : ∀ seed, FitsAt c q id names (stagedName id (World.drawSuffix seed).1)

theorem openStaging_opened (hR : Ground R m S F) (hk : R.Allows (Adds (· = S.staging)))
    (hroom : Room R S.staging) (hS : S.Serves env c.root)
    (hfit : F → Tree.Short (c.root.join ".staging")) (hx : Standing S env x)
    (hs : x.files.Spot S.staging) :
    R.Safe (fun r y => (Standing S env y ∧ y.files.Spot S.staging) ∧
        (∀ dir, r = .ok dir → dir = c.root.joins [".staging"] ∧
          y.files.get? S.staging = some .directory) ∧ ∀ e, r = .error e → ¬F)
      c.openStaging.run x := by
  refine .ofThen (createAll_made hR hk hS.leads (by decide) hroom
    (fun hF => ⟨by decide, hfit hF⟩) hS.held hx hs).settled
    (fun _ y hy => .pure fun z hz => ⟨(hy z hz).1, ?_, by simp⟩)
    fun e y hy => ⟨(hy y (R.refl y)).1, by simp, fun _ _ => (hy y (R.refl y)).2.2 e rfl⟩
  rintro dir ⟨⟩
  exact ⟨rfl, (hy z hz).2.1 rfl⟩

section Store

variable (hS : S.Serves env c.root) (hR : Sheltered R m S id F A)
  (hq : S.Leads env.location q) (htail : q.tail = c.root.tail) (hn : ∃ s, n = stagedName id s)

include hR hn in
theorem staged_private : Private R (S.stagedAt n) := by
  obtain ⟨s, rfl⟩ := hn
  exact hR.staged s

include hS hR hq hn

theorem publish_arrived {c' : Content} {e : Bool} (hgood : d.good c' e)
    (hfit : F → (IsProper id.name ∧ Tree.Short (c.entryDirectory id)) ∧
      IsProper n ∧ Tree.Short (q.joins [".staging", n]))
    (hnone : F → x.files.get? (S.entry id) = none)
    (hx : Waiting S env (c.entryDirectory id) x)
    (hw : Packed S env [".staging", n] (q.joins [".staging", n]) d c' e x) :
    (R.keeping (Publishing d (c.entryDirectory id) (S.entry id) (S.stagedAt n <+: ·))).Safe
      (fun r y => (Standing S env y ∧ y.files.get? S.staging = some .directory) ∧
        (r = .ok () ↔ Arrived (c.entryDirectory id) y.past) ∧
        (r = .ok () → y.files.Bare (S.stagedAt n)) ∧
        ∀ e, r = .error e → y.files.get? (S.stagedAt n) = some .directory ∧ ¬F)
      (Program.perform (.rename (q.joins [".staging", n]) (c.entryDirectory id))) x := by
  have hpriv := staged_private hR hn
  obtain ⟨s₀, rfl⟩ := hn
  apply Rules.Safe.perform
  intro y hy r w hr
  have hy' := Waiting.stable hR _ _ hy hx
  obtain ⟨hwy, hty⟩ := Packed.stable hR.ground hpriv _ _ hy hw
  have hny : F → y.files.get? (S.entry id) = none := fun hF => by
    have hroot := hR.entry (.inl hF) x y hy []
    rw [List.append_nil] at hroot
    exact hroot.trans (hnone hF)
  have hdir : y.files.get? (S.stagedAt (stagedName id s₀)) = some .directory := hwy.folder.directory
  rcases (hR.ground.act hr).rename with ⟨err, rfl, rfl⟩ | ⟨rfl, t, hren, rfl⟩
  · have hu : Unmoved y (y.after (.rename (q.joins [".staging", stagedName id s₀])
      (c.entryDirectory id)) (.error err) y.world) :=
      .of_eq (by rintro ⟨_, _, ⟨⟩⟩) rfl rfl
    refine ⟨.of_within hu fun _ h => h.elim, fun z hz => ?_⟩
    have hz' := (Waiting.lasting hR).stable _ _ hz ((Waiting.lasting hR).unmoved _ _ hu hy')
    refine ⟨⟨hz'.standing, hz'.staging⟩, by simpa using hz'.arrived, by simp, fun _ _ => ⟨?_, ?_⟩⟩
    · have hroot := hpriv _ _ hz []
      rw [List.append_nil] at hroot
      exact hroot.trans hdir
    · intro hF
      have herr := Step.eq_error_of_onFiles (Option.some.inj (hR.ground.sure hF hr))
      have hres : y.files.resolve _ false _ = _ := hy'.standing.resolve_pair hq hy'.staging
        (hfit hF).2.1 (hfit hF).2.2 (by simp)
      have hresb : y.files.resolve _ false _ = _ :=
        hy'.entry_resolves hS (hfit hF).1 (.inl (hny hF))
      have hm : y.files.Movable (S.stagedAt (stagedName id s₀)) (S.entry id) := by
        refine hy'.standing.wellFormed.movable (by simp [hdir]) (by simp [Site.stagedAt]) (hny hF) ?_
        simpa using S.not_staged_entry (stagedName id s₀) []
      have hdemands : Tree.demandsDirectory (c.entryDirectory id) = false := by
        rw [Cache.entryDirectory_eq]
        exact Tree.demandsDirectory_joins (by simp)
      rw [Tree.rename_free hres hresb hm (hny hF) hdemands] at herr
      simp at herr
  · have hat : S.staging ++ [stagedName id s₀] = S.stagedAt (stagedName id s₀) := by
      simp [Site.staging, Site.stagedAt]
    obtain ⟨hwf, hf, hempty, hgone, hsame⟩ := Tree.rename_folder hwy.standing.wellFormed hwy.folder
      (fun a ha => (hy'.resolve_staging hq (plain_stagedName id s₀) ha).1.trans hat)
      (fun b hb => hy'.resolve_entry hS hb)
      (by simp [Site.models, ModelIdentity.modelNamespace]) hren
    rw [← S.entry_eq] at hf hempty hsame
    have hc : Changes (fun k => S.stagedAt (stagedName id s₀) <+: k ∨ S.entry id <+: k) y
        (y.after (.rename (q.joins [".staging", stagedName id s₀])
          (c.entryDirectory id)) (.ok ()) { y.world with files := t }) := by
      refine ⟨fun l hl => ?_, fun _ => hwf, rfl⟩
      simp only [not_or] at hl
      exact hsame l hl.1 hl.2
    have hst : t.get? S.staging = some .directory := by
      rw [hsame _ (S.not_staged_staging _) (S.not_entry_staging id)]
      exact hy'.staging
    refine ⟨.publish _ rfl hy'.arrived hc hempty ⟨c', e, hgood, hf⟩ hty, fun z hz =>
      ⟨⟨?_, hR.staging.directory _ _ hz hst⟩, iff_of_true rfl ?_, fun _ rest => ?_, by simp⟩⟩
    · exact Standing.stable hR.ground _ _ hz (hy'.standing.changes hc (S.apart_staged_entry _ id))
    · rw [hR.ground.past hz]
      exact ⟨_, List.mem_cons_self⟩
    · exact (hpriv _ _ hz rest).trans (hgone rest)

omit hS in
theorem writeTexts_packed {c' : Content} {e : Bool}
    (htexts : ∀ text ∈ d.texts, IsPlain text.1) (hnames : (d.name :: d.texts.map (·.1)).Nodup)
    (hfit : F → ∀ text ∈ d.texts, IsProper text.1 ∧ Tree.Short ((q.joins [".staging", n]).join text.1))
    (hx : Started S env p x) (hw : Working S env [".staging", n] [(d.name, c', e)] x) :
    (R.keeping (Within (S.stagedAt n <+: ·))).Safe (fun r y => Started S env p y ∧
        Housed S env [".staging", n] y ∧
        (r = .ok () → Packed S env [".staging", n] (q.joins [".staging", n]) d c' e y) ∧
        ∀ e, r = .error e → ¬F)
      (Cache.writeTexts (q.joins [".staging", n]) d.texts).run x := by
  have hpriv := staged_private hR hn
  have hsafe := writeTexts_written (R := R.keeping (Within (S.root ++ [".staging", n] <+: ·)))
    (hR.ground.keeping _) (fun _ _ h => h) hq (by simp) hpriv htexts hfit
    (by simpa using hnames) hw (show Written _ [] x by simp [Written])
  refine (hsafe.withInvariant hx (Started.stable (hR.keeping _)) fun y z h hy => ?_).weaken
    fun r y h => ⟨h.2, h.1.1, fun hr => ⟨(h.1.2.1 hr).1, (h.1.2.1 hr).2⟩, h.1.2.2⟩
  exact hy.within h (apart_under (by simp)) (S.not_staged_staging _) (S.not_staged_models _)

omit hq in
theorem createModels_waiting {dir : Path} {c' : Content} {e : Bool}
    (hfit : F → Tree.Short (c.root.join ModelIdentity.modelNamespace)) (hx : Started S env p x)
    (hw : Packed S env [".staging", n] dir d c' e x) :
    (R.keeping (Adds (· = S.models))).Safe (fun r y => (Started S env p y ∧
        Packed S env [".staging", n] dir d c' e y) ∧ (r = .ok () → Waiting S env p y) ∧
        ∀ e, r = .error e → ¬F) (createAll c.modelsDirectory) x := by
  have hmade : (R.keeping _).Safe _ _ _ := createAll_made (R := R.keeping (Adds (· = S.models)))
    (hR.ground.keeping _) (fun _ _ h => h) hS.leads (show IsPlain ModelIdentity.modelNamespace by decide)
    (hR.models.keeping _) (fun hF => ⟨by decide, hfit hF⟩) hS.held hx.standing hx.models
  refine (hmade.withInvariant
    (J := fun y => (y.files.get? S.staging = some .directory ∧ ¬Arrived p y.past) ∧
      Packed S env [".staging", n] dir d c' e y) ⟨⟨hx.staging, hx.arrived⟩, hw⟩
    (fun y z h hy => ⟨⟨hR.staging.directory _ _ h hy.1.1, hR.ground.past h ▸ hy.1.2⟩,
      Packed.stable hR.ground (staged_private hR hn) _ _ h hy.2⟩) fun y z h hy => ?_).weaken
    fun r y hy => ⟨⟨⟨hy.1.1.1, hy.2.1.1, hy.1.1.2, hy.2.1.2⟩, hy.2.2⟩,
      fun hr => ⟨hy.1.1.1, hy.2.1.1, hy.1.2.1 hr, hy.2.1.2⟩, hy.1.2.2⟩
  obtain ⟨t, ht, -⟩ := h.taken
  refine ⟨⟨(h.files _ ?_).trans hy.1.1, fun ha => hy.1.2 (ha.of_within h.toWithin)⟩,
    hy.2.changes h.toChanges ht (Site.apart_below fun l hl => ⟨[_], by simp, hl⟩) fun rest hm => ?_⟩
  · simp [Site.staging, Site.models, ModelIdentity.modelNamespace]
  · exact S.not_staged_models n (hm ▸ List.prefix_append _ _)

variable (hsrc : Source R S env p place d.good I) (hz : S.Apart (· = place))
  (hps : place ≠ S.staging) (hpm : ¬S.models <+: place) (hpe : p ≠ c.entryDirectory id)
  (hplain : IsPlain d.name)
  (hthere : F → ∀ y, I y → Standing S env y → y.files.resolve env.location false p = .ok place ∧
    ∃ number c e, y.files.get? place = some (.file number c e))
  (hgone : F → R.Stable (·.files.get? place = none))
include hsrc hz hps hpm hpe hplain hthere hgone

omit hS in
include htail in
theorem moveModule_working (hout : ¬S.stagedAt n <+: place)
    (hfit : F → IsProper d.name ∧ Tree.Short ((q.joins [".staging", n]).join d.name))
    (hx : Started S env (c.entryDirectory id) x) (hw : Working S env [".staging", n] [] x)
    (hI : I x) :
    (R.keeping (Elsewhere (c.entryDirectory id) fun l => S.stagedAt n <+: l ∨ l = place)).Safe
      (fun r y => Started S env (c.entryDirectory id) y ∧ Housed S env [".staging", n] y ∧
        (r = .ok () → (∃ c' e, d.good c' e ∧ Working S env [".staging", n] [(d.name, c', e)] y) ∧
          (F → y.files.get? place = none)) ∧ ∀ e, r = .error e → ¬F)
      (Cache.moveFile p ((q.joins [".staging", n]).join d.name)).run x := by
  have hpriv := staged_private hR hn
  have hzone : S.Apart fun l => S.stagedAt n <+: l ∨ l = place := by
    have ha : S.Apart (S.stagedAt n <+: ·) := apart_under (by simp)
    exact ⟨not_or.mpr ⟨ha.1, hz.1⟩, fun e he => not_or.mpr ⟨ha.2 e he, hz.2 e he⟩⟩
  have htarget : ∀ s, (q.joins [".staging", n]).join s ≠ c.entryDirectory id := by
    intro s he
    have hlen := congrArg (fun p : Path => p.tail.length) he
    simp [Cache.entryDirectory_eq, Path.joins, Path.join, htail] at hlen
  have hns : ¬(S.stagedAt n <+: S.staging ∨ S.staging = place) :=
    not_or.mpr ⟨S.not_staged_staging _, Ne.symm hps⟩
  have hnm : ¬(S.stagedAt n <+: S.models ∨ S.models = place) :=
    not_or.mpr ⟨S.not_staged_models _, fun h => hpm (h ▸ List.prefix_refl _)⟩
  let K := Elsewhere (c.entryDirectory id) fun l => S.stagedAt n <+: l ∨ l = place
  have hsafe := moveFile_working (R := R.keeping K) (hR.ground.keeping K) hq hpriv
    (hsrc.keeping K) hout hzone (fun _ _ h => .of_within h) hplain hfit hthere hgone
    (fun _ _ h hp => ⟨h, _, hp, fun a he => htarget _ (Step.rename.inj (congrArg Taken.step he)).2,
      fun b he => hpe (Step.rename.inj (congrArg Taken.step he)).1⟩) hw hI
  refine (hsafe.withInvariant hx (Started.stable (hR.keeping K)) fun y z h hy => ?_).weaken
    fun r y h => ⟨h.2, h.1.1, h.1.2.1, h.1.2.2⟩
  exact hy.changes h.toChanges (h.arrived hy.arrived) hzone hns hnm

variable (hfit : F → Fits c q id (d.name :: d.texts.map (·.1)))
  (hat : F → FitsAt c q id (d.name :: d.texts.map (·.1)) n)
include hfit hat

omit hplain hthere hsrc hz hps hpe in
theorem replace_finished {c' : Content} {e : Bool} (hgood : d.good c' e)
    (houts : ¬S.stagedAt n <+: place) (hout : F → ¬S.retiredAt (retiredName id n) <+: place)
    (hx : Waiting S env (c.entryDirectory id) x)
    (hw : Packed S env [".staging", n] (q.joins [".staging", n]) d c' e x)
    (hr : Retirable S id F A (c.retiredPath id n) (retiredName id n) x.files)
    (hplace : F → x.files.get? place = none) :
    (R.keeping (Publishing d (c.entryDirectory id) (S.entry id) (S.bench id A place n))).Safe
      (Finished S env (c.entryDirectory id) d.name id F place n)
      (do
        c.retire id (q.joins [".staging", n])
        Attempt.of (perform (.rename (q.joins [".staging", n]) (c.entryDirectory id)))
          (.io (c.entryDirectory id))
        return (c.entryDirectory id).join d.name : Attempt CacheError Path).run x := by
  have hpriv := staged_private hR hn
  have hdir : F → Private R (S.retiredAt (retiredName id n)) := fun hF => hR.away hF n
  have hentry : ¬S.entry id <+: place := fun h => hpm (((S.entry_eq id).symm ▸ ⟨_, rfl⟩ :
    S.models <+: S.entry id).trans h)
  obtain ⟨s₀, rfl⟩ := hn
  let Zr (l : Location) : Prop := ¬A ∧ S.retiredAt (retiredName id (stagedName id s₀)) <+: l
  let P (y : Moment) : Prop := Packed S env [".staging", stagedName id s₀]
    (q.joins [".staging", stagedName id s₀]) d c' e y ∧ (F → y.files.get? place = none)
  have hP : R.Stable P := fun y z h hy =>
    ⟨Packed.stable hR.ground hpriv _ _ h hy.1, fun hF => hgone hF y z h (hy.2 hF)⟩
  have hretire : (R.keeping _).Safe _ _ _ := retire_waiting (R := R.keeping (Publishing d (c.entryDirectory id) (S.entry id) Zr))
    (b := c.retiredPath id (stagedName id s₀)) hS (hR.keeping _) rfl ⟨stagedName id s₀, rfl⟩
    (fun hF => ⟨(hfit hF).entry, (hat hF).retired⟩)
    (by rw [Path.fileName?_pair q ".staging" (stagedName id s₀), Option.getD_some, retiredName])
    (fun y z h => .of_within h fun _ h => h.elim) (fun hA y z h => h.mono fun l hl => ⟨hA, hl⟩) hx hr
  have hretired := hretire.widen (L := Publishing d (c.entryDirectory id) (S.entry id)
      (S.bench id A place (stagedName id s₀)))
    (fun y z h => h.mono fun l hl => .inr (.inr (.inl hl))) ⟨hw, hplace⟩ hP fun y z h hy => by
      obtain ⟨t, ht⟩ := h.past
      refine ⟨hy.1.changes h.changes ht ((S.apart_retired id).mono fun _ => Or.imp_left
        fun h => ⟨_, h.2⟩) fun rest => ?_, fun hF => ?_⟩
      · rintro (hp | hp)
        · exact S.retired_apart_staged _ s₀ rest hp.2
        · exact S.not_entry_staged id _ rest hp
      · exact (h.changes.files _ (not_or.mpr ⟨fun hp => hout hF hp.2, hentry⟩)).trans (hy.2 hF)
  refine .attempt hretired (fun _ y hy => ?_) fun e y hy => ?_
  · obtain ⟨⟨hwait, hsure, hbare⟩, hpacked, hplace'⟩ := hy
    have hpublish := (publish_arrived hS hR hq ⟨s₀, rfl⟩ hgood
        (fun hF => ⟨(hfit hF).entry, (hat hF).staged⟩) (fun hF => (hsure (.inl hF)).2) hwait
        hpacked).widen
      (L := Publishing d (c.entryDirectory id) (S.entry id) (S.bench id A place (stagedName id s₀)))
      (J := fun y => F → y.files.Bare (S.retiredAt (retiredName id (stagedName id s₀))) ∧
        y.files.get? place = none)
      (fun y z h => h.mono fun l hl => .inr (.inl hl)) (fun hF => ⟨hbare hF, hplace' hF⟩)
      (fun y z h hy hF => ⟨fun rest => (hdir hF y z h rest).trans ((hy hF).1 rest),
        hgone hF y z h (hy hF).2⟩)
      fun y z h hy hF => by
        refine ⟨fun rest => (h.changes.files _ ?_).trans ((hy hF).1 rest),
          (h.changes.files _ ?_).trans (hy hF).2⟩
        · refine not_or.mpr ⟨S.staged_apart_retired _ s₀ rest, fun hp => ?_⟩
          obtain ⟨more, hp⟩ := hp
          simp [Site.entry, Site.retiredAt, ModelIdentity.modelNamespace] at hp
        · exact not_or.mpr ⟨houts, hentry⟩
    refine .ofThen hpublish.settled (fun _ z hz => .pure fun u hu => ?_) fun e z hz => ?_
    · obtain ⟨⟨hst, harr, hbares, -⟩, hsure'⟩ := hz u hu
      refine ⟨⟨⟨hst.1, .inr hst.2⟩, iff_of_true ⟨_, rfl⟩ (harr.mp rfl), ?_⟩, .inl (hbares rfl),
        fun hF => ⟨⟨_, rfl⟩, hsure' hF⟩⟩
      rintro file ⟨⟩
      rfl
    · obtain ⟨⟨hst, harr, -, herr⟩, -⟩ := hz z (R.refl z)
      obtain ⟨hd, hnot⟩ := herr e rfl
      exact ⟨⟨⟨hst.1, .inr hst.2⟩, by simpa using harr, by simp⟩, .inr ⟨hd, hnot⟩,
        fun hF => absurd hF hnot⟩
  · obtain ⟨⟨hwait, hsure, -⟩, hpacked, -⟩ := hy
    have hnot : ¬F := fun hF => absurd (hsure (.inl hF)).1 (by simp)
    exact ⟨⟨⟨hwait.standing, .inr hwait.staging⟩, by simpa using hwait.arrived, by simp⟩,
      .inr ⟨hpacked.working.folder.directory, hnot⟩, fun hF => absurd hF hnot⟩

include htail in
theorem assemble_finished {output warnings : String} {manifest : Manifest}
    (hname : p.fileName? = some d.name) (htx : d.texts = Cache.texts output warnings manifest)
    (htexts : ∀ text ∈ d.texts, IsPlain text.1) (hnames : (d.name :: d.texts.map (·.1)).Nodup)
    (hout : ¬S.stagedAt n <+: place) (hx : Started S env (c.entryDirectory id) x)
    (hw : Working S env [".staging", n] [] x) (hI : I x)
    (hr : Retirable S id F A (c.retiredPath id n) (retiredName id n) x.files) :
    (R.keeping (Publishing d (c.entryDirectory id) (S.entry id) (S.bench id A place n))).Safe
      (Finished S env (c.entryDirectory id) d.name id F place n)
      (c.assemble id p output warnings manifest (q.joins [".staging", n])).run x := by
  have hpriv := staged_private hR hn
  have hrs := (Retirable.lasting (b := c.retiredPath id n) (A := A) hR ⟨n, rfl⟩).stable
  have hentry : ∀ rest, S.entry id ++ rest ≠ place := fun rest h =>
    hpm (h ▸ S.entry_eq id ▸ ⟨id.name :: rest, by simp⟩)
  have hretired : F → ∀ rest, S.retiredAt (retiredName id n) ++ rest ≠ place := by
    rintro hF rest rfl
    obtain ⟨-, number, c', e', hfile⟩ := hthere hF x hI hx.standing
    exact absurd (hfile.symm.trans (hr.free hF rest)) (by simp)
  have hstaged : ∀ rest, ¬S.stagedAt n <+: S.retiredAt (retiredName id n) ++ rest := by
    obtain ⟨s₀, rfl⟩ := hn
    exact S.staged_apart_retired _ s₀
  have hfail {r : Except CacheError Path} {y : Moment} (hr : ∃ e, r = .error e)
      (hy : Started S env (c.entryDirectory id) y) (hd : Housed S env [".staging", n] y)
      (hnot : ¬F) : Finished S env (c.entryDirectory id) d.name id F place n r y := by
    obtain ⟨e, rfl⟩ := hr
    exact ⟨⟨⟨hy.standing, .inr hy.staging⟩, by simpa using hy.arrived, by simp⟩,
      .inr ⟨hd.directory, hnot⟩, fun hF => absurd hF hnot⟩
  let K := Publishing d (c.entryDirectory id) (S.entry id) (S.bench id A place n)
  have hmove := (moveModule_working hR hq htail hn hsrc hz hps hpm hpe hplain hthere hgone hout
      (fun hF => (hat hF).files d.name (by simp)) hx hw hI).widen (L := K)
    (fun y z h => .other (h.mono fun l hl => hl.elim (.inr ∘ .inl) (.inr ∘ .inr ∘ .inr))) hr hrs
    fun y z h hy => hy.changes h.toChanges
      (fun rest => not_or.mpr ⟨S.not_staged_entry n rest, hentry rest⟩)
      fun hF rest => not_or.mpr ⟨hstaged rest, hretired hF rest⟩
  simp only [Cache.assemble, hname, ← htx]
  refine .attempt hmove (fun _ y hy => ?_) fun e y hy => hfail ⟨e, rfl⟩ hy.1.1 hy.1.2.1 (hy.1.2.2.2 e rfl)
  obtain ⟨⟨hsty, hdy, hok, -⟩, hry⟩ := hy
  obtain ⟨⟨c', e', hgood, hwy⟩, hplacey⟩ := hok rfl
  let J (y : Moment) : Prop := Retirable S id F A (c.retiredPath id n) (retiredName id n) y.files ∧
    (F → y.files.get? place = none)
  have hJ : R.Stable J := fun y z h hy => ⟨hrs y z h hy.1, fun hF => hgone hF y z h (hy.2 hF)⟩
  have hwrite := (writeTexts_packed hR hq hn htexts hnames (fun hF text ht => (hat hF).files text.1
      (by simp [List.mem_map_of_mem ht])) hsty hwy).widen (L := K)
    (fun y z h => .of_within h fun l hl => .inr (.inl hl)) (show J y from ⟨hry, hplacey⟩) hJ
    fun y z h hy => ⟨hy.1.changes h.toChanges (S.not_staged_entry n) fun _ => hstaged,
      fun hF => (h.files _ hout).trans (hy.2 hF)⟩
  refine .attempt hwrite (fun _ z hz' => ?_) fun e z hz' => hfail ⟨e, rfl⟩ hz'.1.1 hz'.1.2.1 (hz'.1.2.2.2 e rfl)
  obtain ⟨⟨hstz, hdz, hok, -⟩, hJz⟩ := hz'
  have hready := (createModels_waiting hS hR hn (fun hF => (hfit hF).models) hstz (hok rfl)).widen (L := K)
    (J := J) (fun y z h => .of_within h.toWithin fun l hl => .inl hl) hJz hJ fun y z h hy =>
      ⟨hy.1.changes h.toChanges (fun rest hm => S.not_entry_models id (hm ▸ List.prefix_append _ _))
        fun _ rest hm => by simp [Site.retiredAt, Site.models] at hm,
        fun hF => (h.files _ fun hm => hpm (hm ▸ List.prefix_refl _)).trans (hy.2 hF)⟩
  refine .ofThen hready (fun _ u hu => ?_) fun e u hu =>
    hfail ⟨_, rfl⟩ hu.1.1.1 hu.1.1.2.working.housed (hu.1.2.2 e rfl)
  exact replace_finished hS hR hq hn hpm hgone hfit hat hgood hout
    (fun hF h => h.elim (hretired hF)) (hu.1.2.1 rfl) hu.1.1.2 hu.2.1 hu.2.2

end Store

structure Cleared (S : Site) (q : Path) (id : ModelIdentity) (F : Prop) (place : Location) (n : String)
    (r : Except CacheError Path) (x : Moment) : Prop where
  name : ∃ s, n = stagedName id s
  staged : x.files.Bare (S.stagedAt n) ∨ Tripped F (q.joins [".staging", n]) x
  sure : F → (∃ file, r = .ok file) ∧ x.files.Bare (S.retiredAt (retiredName id n)) ∧
    x.files.get? place = none

theorem Pending.stable {good : Content → Bool → Prop} (hR : Sheltered R m S id F A)
    (hsrc : Source R S env p place good I) : R.Stable (Pending S c id F A I) := fun _ _ h hy =>
  ⟨hR.models.spot _ _ h hy.models, hR.ground.past h ▸ hy.arrived, hsrc.stable _ _ h hy.source,
    fun seed => (Retirable.lasting hR ⟨_, rfl⟩).stable _ _ h (hy.retirable seed)⟩

theorem Pending.adds {Z : Location → Prop} {good : Content → Bool → Prop}
    (hsrc : Source R S env p place good I) (h : Adds Z x y) (hp : ¬Z place) (hm : ¬Z S.models)
    (he : ∀ rest, ¬Z (S.entry id ++ rest)) (hr : ∀ s rest, ¬Z (S.retiredAt s ++ rest))
    (hx : Pending S c id F A I x) : Pending S c id F A I y :=
  ⟨by simpa only [Tree.Spot, h.files _ hm] using hx.models, fun ha => hx.arrived (ha.of_within h.toWithin),
    hsrc.adds h (.inr hp) hx.source, fun seed => (hx.retirable seed).changes h.toChanges he fun _ => hr _⟩

theorem Pending.lasting {good : Content → Bool → Prop} (hR : Sheltered R m S id F A)
    (hsrc : Source R S env p place good I) : Lasting R (Pending S c id F A I) :=
  ⟨Pending.stable hR hsrc, fun _ _ h hy => hy.adds hsrc (Z := fun _ => False) (.of_unmoved h)
    not_false not_false (fun _ => not_false) fun _ _ => not_false⟩

section Store

variable (hR : Sheltered R m S id F A) {J : String → Moment → Prop}

include hR in
theorem discard_cleared {n : String} {r : Except CacheError Path} {name : String} (hq : S.Leads env.location q)
    (hn : ∃ s, n = stagedName id s) (hout : ¬S.stagedAt n <+: place)
    (hgone : F → R.Stable (·.files.get? place = none))
    (hJ : ∀ n, R.Stable (J n))
    (hJk : ∀ n y z, Within (S.stagedAt n <+: ·) y z → J n y → J n z) (hx : J n x)
    (hf : Finished S env p name id F place n r x) :
    (R.keeping (Erases (S.stagedAt n))).Safe
      (fun _ y => Stored S env p name r y ∧ J n y ∧ Cleared S q id F place n r y)
      (removeAll (q.joins [".staging", n])) x := by
  have hpriv := staged_private hR hn
  have hstaged : ∀ rest, ¬S.stagedAt n <+: S.retiredAt (retiredName id n) ++ rest := by
    obtain ⟨s₀, rfl⟩ := hn
    exact S.staged_apart_retired _ s₀
  have hplain : ∀ s ∈ [".staging", n], IsPlain s := by
    obtain ⟨s₀, rfl⟩ := hn
    simp [plain_stagedName, show IsPlain ".staging" by decide]
  let T (y : Moment) : Prop := F → (∃ file, r = .ok file) ∧
    y.files.Bare (S.retiredAt (retiredName id n)) ∧ y.files.get? place = none
  have hT : R.Stable T := fun y z h hy hF =>
    ⟨(hy hF).1, fun rest => (hR.away hF n y z h rest).trans ((hy hF).2.1 rest),
      hgone hF y z h (hy hF).2.2⟩
  have hgo := removeAll_bare (G := True) hR.ground hq (by simp)
    (fun v w h hv => Tree.unlinked_pair.mpr (hR.staging.link v w h (Tree.unlinked_pair.mp hv)))
    (fun rest => hpriv.stable (fun o => ∀ target, o ≠ some (.link target)) rest) (fun _ => hpriv)
    hf.stored.1.1 hplain (Tree.unlinked_pair.mpr hf.stored.1.2.noLink) fun _ =>
      ⟨fun hF rest hr => absurd ((hf.staged.resolve_right fun h => h.2 hF) rest) hr,
        .inl (hf.staged.imp (fun h => h) fun h => ⟨_, h.1, .inl rfl⟩)⟩
  refine (hgo.widen (fun _ _ h => h) (J := fun y => Stored S env p name r y ∧ J n y ∧ T y)
    ⟨hf.stored, hx, hf.sure⟩
    (fun y z h hy => ⟨Stored.stable hR y z h hy.1, hJ n y z h hy.2.1, hT y z h hy.2.2⟩)
    fun y z h hy => ⟨hy.1.within h.within (apart_under (by simp)) (S.not_staged_staging n),
      hJk n y z h.within hy.2.1, fun hF => ⟨(hy.2.2 hF).1, h.bare (hy.2.2 hF).2.1, ?_⟩⟩).weaken ?_
  · exact (h.apart hout).trans (hy.2.2 hF).2.2
  · exact fun _ y hy => ⟨hy.2.1, hy.2.2.1, hn, (hy.1.2 trivial).imp_left fun h => h.2, hy.2.2.2⟩

variable {P : Moment → Prop} (hS : S.Serves env c.root)
  (hsrc : Source R S env p place d.good I) (hz : S.Apart (· = place))
  (hps : place ≠ S.staging) (hpm : ¬S.models <+: place) (hpe : p ≠ c.entryDirectory id)
  (hplain : IsPlain d.name)
  (hthere : F → ∀ y, I y → ∃ number c e, y.files.get? place = some (.file number c e))
  (haway : ∀ n y, I y → y.files.WellFormed → y.files.get? (S.stagedAt n) = none →
    ¬S.stagedAt n <+: place)
  (hleads : F → ∀ y, I y → Standing S env y → y.files.resolve env.location false p = .ok place)
  (hgone : F → R.Stable (·.files.get? place = none))
  (hfit : F → Fits c (Path.inDirectory env.directory c.root) id (d.name :: d.texts.map (·.1)))
  (hP : Lasting R P) (hPs : ∀ y z, Adds (· = S.staging) y z → P y → P z)
  (hJ : ∀ n, R.Stable (J n))
  (hmade : ∀ n y z, P y → Adds (· = S.stagedAt n) y z → y.files.get? (S.stagedAt n) = none → J n z)
  (hJk : ∀ n y z, Publishing d (c.entryDirectory id) (S.entry id) (S.bench id A place n) y z →
    J n y → J n z)

include hR in
theorem staged_none_stable (s : String) :
    R.Stable (·.files.get? (S.stagedAt (stagedName id s)) = none) := by
  have hst := (hR.staged s).stable (· = none) []
  rwa [List.append_nil] at hst

include hS hR hsrc hfit hP

include hps hPs in
theorem openStaging_pending (hx : Standing S env x) (hstaging : x.files.Spot S.staging)
    (hpend : Pending S c id F A I x) (hPx : P x)
    (hfree : F → ∀ s, x.files.get? (S.stagedAt (stagedName id s)) = none) :
    (R.keeping (Adds (· = S.staging))).Safe (fun r y =>
        ((Standing S env y ∧ y.files.Spot S.staging) ∧
          (∀ dir, r = .ok dir → dir = c.root.joins [".staging"] ∧
            y.files.get? S.staging = some .directory) ∧ ∀ e, r = .error e → ¬F) ∧
        (Pending S c id F A I y ∧ P y) ∧
          (F → ∀ s, y.files.get? (S.stagedAt (stagedName id s)) = none))
      c.openStaging.run x := by
  refine ((openStaging_opened (R := R.keeping (Adds (· = S.staging))) (hR.ground.keeping _)
    (fun _ _ h => h) (hR.staging.keeping _) hS (fun hF => (hfit hF).staging) hx hstaging :
      (R.keeping _).Safe _ _ _)).withInvariant ⟨⟨hpend, hPx⟩, hfree⟩
    (fun y z h hy => ⟨⟨Pending.stable hR hsrc y z h hy.1.1, hP.stable y z h hy.1.2⟩,
      fun hF s => staged_none_stable hR s y z h (hy.2 hF s)⟩) fun y z h hy => ?_
  refine ⟨⟨hy.1.1.adds hsrc h hps ?_ (fun rest hl => ?_) (fun s rest hl => ?_), hPs y z h hy.1.2⟩,
    fun hF s => (h.files _ fun hl => ?_).trans (hy.2 hF s)⟩
  · simp [Site.staging, Site.models, ModelIdentity.modelNamespace]
  · simp [Site.entry, Site.staging, ModelIdentity.modelNamespace] at hl
  · simp [Site.retiredAt, Site.staging] at hl
  · simp [Site.stagedAt, Site.staging] at hl

include haway hJ hmade

theorem makeTemporary_pending (hx : Standing S env x) (hstaging : x.files.get? S.staging = some .directory)
    (hpend : Pending S c id F A I x) (hPx : P x)
    (hfree : F → ∀ s, x.files.get? (S.stagedAt (stagedName id s)) = none) :
    (R.keeping (Adds fun l => ∃ s, l = S.stagedAt (stagedName id s))).Safe (fun r y =>
        (Standing S env y ∧ y.files.get? S.staging = some .directory) ∧
        (∀ dir, r = .ok dir → ∃ seed n, n = stagedName id (World.drawSuffix seed).1 ∧
          dir = (Path.inDirectory env.directory c.root).joins [".staging", n] ∧
          y.files.Folder (S.stagedAt n) [] ∧ J n y ∧ Pending S c id F A I y ∧
          ¬S.stagedAt n <+: place) ∧
        ∀ e, r = .error e → (Pending S c id F A I y ∧ P y) ∧ ¬F)
      (makeTemporary ("entry_" ++ id.name ++ "_") (c.root.joins [".staging"])) x := by
  have hat (n : String) : S.root ++ [".staging"] ++ [n] = S.stagedAt n := by simp [Site.stagedAt]
  have hlast : Lasting R fun y => Standing S env y ∧ Pending S c id F A I y ∧ P y :=
    (Lasting.standing hR.ground).and ((Pending.lasting hR hsrc).and hP)
  refine (makeTemporary_fresh (a := "entry_" ++ id.name ++ "_")
    (M := fun s y => y.files.Folder (S.stagedAt (stagedName id s)) [] ∧ J (stagedName id s) y ∧
      Pending S c id F A I y ∧ ¬S.stagedAt (stagedName id s) <+: place)
    (R := R.keeping (Adds fun l => ∃ s, l = S.stagedAt (stagedName id s)))
    (hR.ground.keeping _) (fun _ _ h => h.mono fun _ hl => hl.imp fun _ hs => hs.trans (hat _)) hS.full
    (plain_stagedName id) hR.staging.directory (hlast.keeping _)
    (fun s y z h hy => ⟨hy.1.congr (hR.staged s y z h), hJ _ y z h hy.2.1,
      Pending.stable hR hsrc y z h hy.2.2.1, hy.2.2.2⟩)
    (fun s y z hy h hnone hf => ?_) (fun s => by rw [hat]; exact staged_none_stable hR s)
    (fun hF seed => ((hfit hF).builds seed).staged) rfl hx hstaging ⟨hx, hpend, hPx⟩
    (fun hF s => by rw [hat]; exact hfree hF s)).weaken fun r y hy =>
      ⟨hy.1, fun dir hr => ?_, fun e hr => ⟨(hy.2.2 e hr).1.2, (hy.2.2 e hr).2⟩⟩
  · rw [hat] at h hnone hf
    have hout := haway _ y hy.2.1.source hy.1.wellFormed hnone
    refine ⟨hf, hmade _ y z hy.2.2 h hnone, hy.2.1.adds hsrc h (fun hl => ?_) (fun hl => ?_)
      (fun rest hl => ?_) (fun s' rest hl => ?_), hout⟩
    · exact hout (hl ▸ List.prefix_refl _)
    · simp [Site.stagedAt, Site.models] at hl
    · exact S.not_staged_entry _ rest ⟨[], (List.append_nil _).trans hl.symm⟩
    · exact S.staged_apart_retired s' s rest ⟨[], (List.append_nil _).trans hl.symm⟩
  · obtain ⟨seed, s, rfl, hdir, -, hM⟩ := hy.2.1 dir hr
    exact ⟨seed, _, rfl, hdir, hM⟩

include hz hps hpm hpe hplain hthere hleads hgone hPs hJk

theorem store_stored {output warnings : String} {manifest : Manifest}
    (hname : p.fileName? = some d.name) (htx : d.texts = Cache.texts output warnings manifest)
    (htexts : ∀ text ∈ d.texts, IsPlain text.1) (hnames : (d.name :: d.texts.map (·.1)).Nodup)
    (hx : Standing S env x) (hstaging : x.files.Spot S.staging) (hpend : Pending S c id F A I x)
    (hPx : P x) (hfree : F → ∀ s, x.files.get? (S.stagedAt (stagedName id s)) = none) :
    (R.keeping (Publishing d (c.entryDirectory id) (S.entry id)
        fun l => S.shed id l ∨ l = place)).Safe
      (fun r y => Stored S env (c.entryDirectory id) d.name r y ∧
        ((∃ e, r = .error e) ∧ P y ∧ ¬F ∨
          ∃ n, J n y ∧ Cleared S (Path.inDirectory env.directory c.root) id F place n r y))
      (c.store id p output warnings manifest).run x := by
  let K := Publishing d (c.entryDirectory id) (S.entry id) fun l => S.shed id l ∨ l = place
  have hopen := (openStaging_pending hR hS hsrc hps hfit hP hPs hx hstaging hpend hPx hfree).widen
    (L := K) (J := fun _ => True) (fun y z h => .of_within h.toWithin fun l hl => .inl (.inl hl))
    trivial (fun _ _ _ _ => trivial) fun _ _ _ _ => trivial
  rw [Cache.store_eq]
  refine .attempt hopen (fun dir y hy => ?_) fun e y hy => ?_
  case refine_2 =>
    obtain ⟨⟨⟨hst, -, herr⟩, ⟨hpend', hPy⟩, -⟩, -⟩ := hy
    exact ⟨⟨hst, by simpa using hpend'.arrived, by simp⟩, .inl ⟨⟨e, rfl⟩, hPy, herr e rfl⟩⟩
  obtain ⟨⟨⟨⟨hst, -⟩, hdir, -⟩, ⟨hpend', hPy⟩, hfree'⟩, -⟩ := hy
  obtain ⟨rfl, hstaged⟩ := hdir dir rfl
  have htemp := (makeTemporary_pending hR hS hsrc haway hfit hP hJ hmade hst hstaged hpend' hPy
    hfree').widen (L := K) (J := fun _ => True)
    (fun y z h => .of_within h.toWithin fun l hl => by
      obtain ⟨s, rfl⟩ := hl
      exact .inl (.inr (.inr (.inl ⟨s, List.prefix_refl _⟩))))
    trivial (fun _ _ _ _ => trivial) fun _ _ _ _ => trivial
  refine .ofThen htemp (fun t z hz' => ?_) fun e z hz' => ?_
  case refine_2 =>
    obtain ⟨⟨⟨hst, hd⟩, -, herr⟩, -⟩ := hz'
    obtain ⟨⟨hpend', hPz⟩, hnot⟩ := herr e rfl
    exact ⟨⟨⟨hst, .inr hd⟩, by simpa using hpend'.arrived, by simp⟩, .inl ⟨⟨_, rfl⟩, hPz, hnot⟩⟩
  obtain ⟨⟨⟨hst, hd⟩, hok, -⟩, -⟩ := hz'
  obtain ⟨seed, n, rfl, rfl, hf, hJz, hpz, hout⟩ := hok t rfl
  have hassemble := (assemble_finished hS hR hS.full (Path.inDirectory_tail _) ⟨_, rfl⟩ hsrc hz hps hpm
    hpe hplain (fun hF y hy hsy => ⟨hleads hF y hy hsy, hthere hF y hy⟩) hgone hfit
    (fun hF => (hfit hF).builds seed) hname htx htexts hnames hout
    ⟨hst, hd, hpz.models, hpz.arrived⟩ ⟨hst, hf⟩ hpz.source (hpz.retirable seed)).widen (L := K)
    (fun y z h => h.mono fun l hl => ?_) hJz (hJ _) (hJk _)
  · refine hassemble.andThen fun r u hu => ?_
    refine Rules.Safe.next ((discard_cleared hR hS.full ⟨_, rfl⟩ hout hgone hJ
      (fun n y z h hy => hJk n y z (.of_within h fun l hl => .inr (.inl hl)) hy) hu.2 hu.1).widen
      (L := K) (J := fun _ => True) (fun y z h => .of_within h.within fun l hl =>
        .inl (.inr (.inr (.inl ⟨_, hl⟩)))) trivial (fun _ _ _ _ => trivial)
      fun _ _ _ _ => trivial).settled fun _ v hv => .pure fun o ho => ?_
    obtain ⟨⟨hstored, hJo, hcleared⟩, -⟩ := hv o ho
    exact ⟨hstored, .inr ⟨_, hJo, hcleared⟩⟩
  · rcases hl with rfl | hl | ⟨-, hl⟩ | rfl
    · exact .inl (.inr (.inl rfl))
    · exact .inl (.inr (.inr (.inl ⟨_, hl⟩)))
    · exact .inl (.inr (.inr (.inr ⟨_, hl⟩)))
    · exact .inr rfl

end Store

end CompiledModels
