import CompiledModels.Proofs.Shelf

/-!
Calls of a cache one after the other: whatever was stored, removed and cleared, the cache answers
as a map from identities to what is kept.
-/

namespace CompiledModels

open Files Program

variable {S : Site} {c : Cache} {M : Shelf} {w w' : World} {m : Machine} {id : ModelIdentity}
  {r : Record}

/-- What the calls answer that only look at a cache which keeps `M`. They leave the world as it is. -/
structure Answered (m : Machine) (c : Cache) (M : Shelf) (w : World) : Prop where
  exists? : ∀ id, (c.exists? id).Sees m w (M id).isSome
  modulePath : ∀ id, (c.modulePath id).Sees m w
    ((M id).map fun r => (c.entryDirectory id).join r.name)
  content : ∀ id r, M id = some r →
    (perform (.read ((c.entryDirectory id).join r.name))).Sees m w (.ok r.content.all)
  buildOutput : ∀ id, (c.loadBuildOutput id).run.Sees m w
    ((M id).elim (.error (.entry id.key)) fun r => .ok r.output)
  warnings : ∀ id, (c.loadWarnings id).run.Sees m w
    ((M id).elim (.error (.entry id.key)) fun r => .ok r.warnings)
  manifest : ∀ id, (c.loadManifest id).run.Sees m w
    ((M id).elim (.error (.notFound (.entry id.key))) fun r => .ok r.manifest)
  identities : ∃ ids, c.identities.run.Sees m w (.ok ids) ∧ ids.Pairwise (·.name < ·.name) ∧
    ∀ id, id ∈ ids ↔ (M id).isSome = true

namespace Keeps

theorem list_models (h : Keeps S c M w) :
    w.files.resolve w.directory true c.modelsDirectory = .ok S.models := by
  have hu : w.files.Unlinked true S.root [ModelIdentity.modelNamespace] :=
    Tree.unlinked_singleton fun _ => h.models.noLink
  exact (h.serves.leads _ h.stands).resolve_joins_to h.stands.wellFormed (by simp)
    (by simpa using proper_models) hu (by simpa using h.stands.root) h.short

theorem identities_sees (h : Keeps S c M w) :
    ∃ ids, c.identities.run.Sees m w (.ok ids) ∧ ids.Pairwise (·.name < ·.name) ∧
      ∀ id, id ∈ ids ↔ (M id).isSome = true := by
  have hlist : (perform (.list c.modelsDirectory)).Sees m w
    (w.files.list w.directory c.modelsDirectory) := rfl
  rcases h.models with hn | hd
  · have herr : w.files.list w.directory c.modelsDirectory = .error (.os .noEntry) := by
      rw [Tree.list, h.list_models]
      simp only [Bind.bind, Except.bind, hn]
      rfl
    rw [herr] at hlist
    refine ⟨[], hlist.lift.attempt .pure, .nil, fun id => ?_⟩
    cases hr : M id with
    | none => simp
    | some r => exact absurd (hn.symm.trans (h.stocked hr).models) (by simp)
  · have hok : w.files.list w.directory c.modelsDirectory = .ok (w.files.children S.models) :=
      Tree.list_eq_ok.mpr ⟨_, h.list_models, hd, rfl⟩
    rw [hok] at hlist
    let names := (w.files.children S.models).map (·.name)
    have hmem (id : ModelIdentity) : id ∈ ((names.filter fun n =>
        w.isDirectory (c.modelsDirectory.join n)).filterMap Cache.identityOfName?) ↔
          (M id).isSome = true := by
      simp only [List.mem_filterMap, ModelIdentity.identityOfName_eq_some, exists_eq_right,
        List.mem_filter]
      have hdir : w.isDirectory (c.modelsDirectory.join id.name) = (M id).isSome :=
        h.isDirectory_entry id
      rw [hdir]
      refine and_iff_right_of_imp fun hs => ?_
      obtain ⟨r, hr⟩ := Option.isSome_iff_exists.mp hs
      have hget := (h.entry id r hr).1.directory
      rw [S.entry_eq] at hget
      exact List.mem_map.mpr ⟨⟨id.name, true⟩, h.stands.wellFormed.mem_children.mpr
        ⟨_, hget, rfl⟩, rfl⟩
    refine ⟨_, hlist.lift.attempt ((Cache.directoriesAmong_sees _ _).lift.attempt .pure),
      ModelIdentity.sort_ascending ?_, fun id => ModelIdentity.mem_sort.trans (hmem id)⟩
    refine (h.stands.wellFormed.nodup_children.filter _).filterMap fun a b id ha hb => ?_
    rw [Option.mem_def, ModelIdentity.identityOfName_eq_some] at ha hb
    rw [ha, hb]

theorem answered (h : Keeps S c M w) : Answered m c M w where
  exists? id := by
    have hsees := c.exists_sees id (m := m) (w := w)
    cases hr : M id with
    | none => rwa [h.moduleNames_none hr] at hsees
    | some r => rwa [(h.stocked hr).moduleNames] at hsees
  modulePath id := by
    have hsees := c.modulePath_sees id (m := m) (w := w)
    cases hr : M id with
    | none => rwa [h.moduleNames_none hr] at hsees
    | some r => rwa [(h.stocked hr).moduleNames] at hsees
  content id r hr := by
    obtain ⟨number, hstat⟩ := (h.stocked hr).stat_file (f := (r.name, r.content, r.executable))
      List.mem_cons_self
    have hread : w.files.read w.directory ((c.entryDirectory id).join r.name) = .ok r.content.all :=
      Tree.read_eq_ok.mpr ⟨_, hstat, by simp, rfl⟩
    rw [← hread]
    rfl
  buildOutput id := by
    have hsees := c.readArtifact_sees id (m := m) (w := w) Cache.buildOutputFile "build output"
    cases hr : M id with
    | none => rwa [h.artifact_none hr] at hsees
    | some r =>
      have ht : (Cache.buildOutputFile, r.output) ∈ r.texts := by simp [Record.texts, Cache.texts]
      rwa [(h.stocked hr).artifact ht] at hsees
  warnings id := by
    have hsees := c.readArtifact_sees id (m := m) (w := w) Cache.warningsFile "translator warnings"
    cases hr : M id with
    | none => rwa [h.artifact_none hr] at hsees
    | some r =>
      have ht : (Cache.warningsFile, r.warnings) ∈ r.texts := by simp [Record.texts, Cache.texts]
      rwa [(h.stocked hr).artifact ht] at hsees
  manifest id := by
    have hsees := c.loadManifest_sees id (m := m) (w := w)
    cases hr : M id with
    | none =>
      rw [World.manifest, h.artifact_none hr] at hsees
      exact hsees
    | some r =>
      have ht : (Cache.manifestFile, r.manifest.text) ∈ r.texts := by simp [Record.texts, Cache.texts]
      rw [World.manifest, (h.stocked hr).artifact ht] at hsees
      simp only [Manifest.ofText_text] at hsees
      exact hsees
  identities := h.identities_sees

end Keeps

structure Begun (S : Site) (c : Cache) (w : World) : Prop where
  serves : S.Serves w.environment c.root
  stands : S.Stands w.files
  short : Tree.Short c.modelsDirectory
  empty : ∀ rest, rest ≠ [] → w.files.get? (S.root ++ rest) = none

/-- What may happen between two calls: anything that leaves the entries and the way to them alone,
and puts nothing where an entry is put together or removed. -/
structure Elapses (S : Site) (w w' : World) : Prop where
  environment : w'.environment = w.environment
  stands : S.Stands w'.files
  models : w.files.Same w'.files S.models
  staging : w'.files.Spot S.staging
  staged : ∀ id s, w'.files.get? (S.stagedAt (stagedName id s)) = none
  retired : ∀ s, w'.files.get? (S.retiredAt s) = none

/-- A module that can be stored with `r` under `id`: a regular file at `place`. -/
structure Storable (S : Site) (c : Cache) (id : ModelIdentity) (module : Path) (r : Record)
    (place : Location) (w : World) : Prop where
  suits : r.Suits c w.environment id
  fileName : module.fileName? = some r.name
  leads : w.files.resolve w.directory false module = .ok place
  file : ∃ number, w.files.get? place = some (.file number r.content r.executable)
  outside : ¬S.models <+: place

def Clearable (S : Site) (c : Cache) (w : World) : Prop :=
  ∀ d ∈ [ModelIdentity.modelNamespace, ".staging"],
    Tree.Short (c.root.join d) ∧ S.Reaches c.root [d] w.files

abbrev Cache.storeRecord (c : Cache) (id : ModelIdentity) (module : Path) (r : Record) :
    Attempt CacheError Path := c.store id module r.output r.warnings r.manifest

/-- What a cache keeps after calls one after the other, from an empty directory on, and the world
after them. -/
inductive History (m : Machine) (S : Site) (c : Cache) : Shelf → World → Prop
  | start {w : World} (h : Begun S c w) : History m S c .empty w
  | elapse {M : Shelf} {w w' : World} (h : History m S c M w) (he : Elapses S w w') :
      History m S c M w'
  | store {M : Shelf} {w w' : World} {id : ModelIdentity} {module : Path} {r : Record}
      {place : Location} {result : Except CacheError Path} (h : History m S c M w)
      (hs : Storable S c id module r place w)
      (hr : (c.storeRecord id module r).run.run m w = some (result, w')) :
      History m S c (M.put id r) w'
  | delete {M : Shelf} {w w' : World} {id : ModelIdentity} {result : Except CacheError Unit}
      (h : History m S c M w) (hid : IsProper id.name ∧ Tree.Short (c.entryDirectory id))
      (hr : (c.delete id).run.run m w = some (result, w')) : History m S c (M.erase id) w'
  | clear {M : Shelf} {w w' : World} {result : Except CacheError Unit} (h : History m S c M w)
      (hc : Clearable S c w) (hr : c.clear.run.run m w = some (result, w')) :
      History m S c .empty w'

namespace Keeps

variable {module : Path} {place : Location}

theorem begun (h : Begun S c w) : Keeps S c .empty w where
  serves := h.serves
  stands := h.stands
  short := h.short
  models := .inl (h.empty _ (by simp))
  staging := .inl (h.empty _ (by simp))
  entry _ _ hr := by simp [Shelf.empty] at hr
  absent _ _ := h.empty _ (by simp)
  staged _ _ := h.empty _ (by simp)
  retired _ := h.empty _ (by simp)

theorem elapse (h : Keeps S c M w) (he : Elapses S w w') : Keeps S c M w' := by
  have hentry (id : ModelIdentity) : w.files.Same w'.files (S.entry id) := fun rest => by
    rw [S.entry_eq, List.append_assoc]
    exact he.models _
  have hat {l : Location} (hs : w.files.Same w'.files l) : w'.files.get? l = w.files.get? l := by
    simpa using hs []
  refine ⟨he.environment ▸ h.serves, he.stands, h.short, ?_, he.staging, fun id r hr => ?_,
    fun id hr => (hat (hentry id)).trans (h.absent id hr), he.staged, he.retired⟩
  · simpa only [Tree.Spot, hat he.models] using h.models
  · obtain ⟨hf, hs⟩ := h.entry id r hr
    exact ⟨hf.congr (hentry id), he.environment ▸ hs⟩

theorem spot (h : Keeps S c M w) (id : ModelIdentity) : w.files.Spot (S.entry id) := by
  cases hr : M id with
  | none => exact .inl (h.absent id hr)
  | some r => exact .inr (h.entry id r hr).1.directory

theorem prepared (h : Keeps S c M w) (hs : Storable S c id module r place w) :
    Prepared S c id r.names w := by
  refine ⟨hs.suits.store, h.staged id, fun s => h.retired _, h.spot id, fun seed rest hne => ?_⟩
  cases hr : M id with
  | none => exact absurd (h.stands.wellFormed.bare (h.absent id hr) rest) hne
  | some old =>
    obtain ⟨hf, hold⟩ := h.entry id old hr
    by_cases hrest : rest = []
    · subst hrest
      rw [Path.joins_nil]
      exact (hold.store.builds seed).retired.2
    · obtain ⟨f, hfile, rfl⟩ := hf.only rest hrest hne
      exact hold.retire seed f.1 (old.names_eq ▸ List.mem_map_of_mem hfile)

theorem place_ne (hs : Storable S c id module r place w) {l : Location} (hl : w.files.get? l = none) :
    l ≠ place := by
  rintro rfl
  obtain ⟨number, hfile⟩ := hs.file
  exact absurd (hl.symm.trans hfile) (by simp)

theorem store (h : Keeps S c M w) (hs : Storable S c id module r place w)
    (hr : Replaced S id place r.files w w') : Keeps S c (M.put id r) w' := by
  have hmodels : w'.files.get? S.models = some .directory := by
    have hd := hr.entry.directory
    rw [S.entry_eq] at hd
    exact hr.stands.wellFormed.get?_parent (by rw [hd]; simp)
  have hother {other : ModelIdentity} (hne : other ≠ id) : w.files.Same w'.files (S.entry other) := by
    intro rest
    refine hr.others _ ?_ ?_ ?_ (S.entry_apart hne rest)
    · simpa using S.entry_ne_staging other rest []
    · simp [Site.entry, Site.models]
    · rintro rfl
      exact hs.outside ⟨other.name :: rest, by simp [Site.models, Site.entry]⟩
  have hfree {n : String} (hn : w.files.get? (S.stagedAt n) = none) :
      w'.files.get? (S.stagedAt n) = none := by
    refine (hr.others _ ?_ ?_ (place_ne hs hn) ?_).trans hn
    · simp [Site.stagedAt, Site.staging]
    · simp [Site.stagedAt, Site.models]
    · simpa using S.not_entry_staged id n []
  refine ⟨hr.environment ▸ h.serves, hr.stands, h.short, .inr hmodels, hr.staging,
    fun other r' hr' => ?_, fun other hr' => ?_, fun other s => hfree (h.staged other s),
    fun s => hfree (h.retired s)⟩
  · by_cases hne : other = id
    · subst hne
      obtain rfl : r = r' := by simpa [Shelf.put] using hr'
      exact ⟨hr.entry, hr.environment ▸ hs.suits⟩
    · obtain ⟨hf, hsuits⟩ := h.entry other r' (by simpa [Shelf.put, hne] using hr')
      exact ⟨hf.congr (hother hne), hr.environment ▸ hsuits⟩
  · by_cases hne : other = id
    · simp [Shelf.put, hne] at hr'
    · have hsame := hother hne []
      rw [List.append_nil] at hsame
      exact hsame.trans (h.absent other (by simpa [Shelf.put, hne] using hr'))

theorem delete (h : Keeps S c M w) (he : Emptied S (S.entry id) w w') : Keeps S c (M.erase id) w' := by
  have hsame {l : Location} (hl : ¬S.entry id <+: l) : w'.files.get? l = w.files.get? l :=
    he.others l hl
  have hother {other : ModelIdentity} (hne : other ≠ id) : w.files.Same w'.files (S.entry other) :=
    fun rest => hsame (S.entry_apart hne rest)
  refine ⟨he.environment ▸ h.serves, he.stands, h.short, ?_, ?_, fun other r hr => ?_,
    fun other hr => ?_, fun other s => (hsame ?_).trans (h.staged other s),
    fun s => (hsame ?_).trans (h.retired s)⟩
  · simpa only [Tree.Spot, hsame (S.not_entry_models id)] using h.models
  · simpa only [Tree.Spot, hsame (S.not_entry_staging id)] using h.staging
  · by_cases hne : other = id
    · simp [Shelf.erase, hne] at hr
    · obtain ⟨hf, hsuits⟩ := h.entry other r (by simpa [Shelf.erase, hne] using hr)
      exact ⟨hf.congr (hother hne), he.environment ▸ hsuits⟩
  · by_cases hne : other = id
    · subst hne
      simpa using he.bare []
    · have hroot := hother hne []
      rw [List.append_nil] at hroot
      exact hroot.trans (h.absent other (by simpa [Shelf.erase, hne] using hr))
  · simpa using S.not_entry_staged id (stagedName other s) []
  · exact (by simpa using S.not_entry_staged id ("retired_" ++ s) [] :
      ¬S.entry id <+: S.stagedAt ("retired_" ++ s))

theorem clear (h : Keeps S c M w) {w₁ : World} (hm : Emptied S S.models w w₁)
    (hs : Emptied S S.staging w₁ w') : Keeps S c .empty w' := by
  have hmodels (rest : List String) : w'.files.get? (S.models ++ rest) = none := by
    have hne : ¬S.staging <+: S.models ++ rest := by
      rintro ⟨more, hmore⟩
      simp [Site.staging, Site.models, ModelIdentity.modelNamespace] at hmore
    exact (hs.others _ hne).trans (hm.bare rest)
  have hstaging (rest : List String) : w'.files.get? (S.staging ++ rest) = none := hs.bare rest
  refine ⟨hs.environment ▸ hm.environment ▸ h.serves, hs.stands, h.short,
    .inl (by simpa using hmodels []), .inl (by simpa using hstaging []), fun id r hr => ?_,
    fun id _ => S.entry_eq id ▸ hmodels [id.name], fun id s => ?_, fun s => ?_⟩
  · simp [Shelf.empty] at hr
  · simpa [Site.staging, Site.stagedAt] using hstaging [stagedName id s]
  · simpa [Site.staging, Site.retiredAt] using hstaging ["retired_" ++ s]

theorem store_runs (h : Keeps S c M w) (hs : Storable S c id module r place w) :
    ∃ w', (c.storeRecord id module r).run.run m w =
        some (.ok ((c.entryDirectory id).join r.name), w') ∧
      Replaced S id place r.files w w' := by
  have hpub : Publishable S c module r.name r.content r.executable w := by
    obtain ⟨number, hfile⟩ := hs.file
    exact ⟨h.serves, h.stands, h.staging, h.models, hs.fileName, hs.suits.isName, place, number,
      hs.leads, hfile, hs.outside⟩
  obtain ⟨number, hfile⟩ := hs.file
  exact store_succeeds hpub hs.leads hfile hs.outside (h.prepared hs)

theorem delete_runs (h : Keeps S c M w) (hid : IsProper id.name ∧ Tree.Short (c.entryDirectory id)) :
    ∃ w', (c.delete id).run.run m w = some (.ok (), w') ∧ Emptied S (S.entry id) w w' := by
  refine delete_succeeds h.serves h.stands h.models hid (h.spot id) fun rest hne => ?_
  cases hr : M id with
  | none => exact absurd (h.stands.wellFormed.bare (h.absent id hr) rest) hne
  | some r =>
    obtain ⟨hf, hsuits⟩ := h.entry id r hr
    by_cases hrest : rest = []
    · rw [hrest, List.append_nil, ← Cache.entryDirectory_eq]
      exact hid.2
    · obtain ⟨f, hfile, rfl⟩ := hf.only rest hrest hne
      have hshort := hsuits.read f.1 (r.names_eq ▸ List.mem_map_of_mem hfile)
      rwa [Cache.entryDirectory_eq, Path.joins_join] at hshort

theorem clear_runs (h : Keeps S c M w) (hc : Clearable S c w) :
    ∃ w₁ w', c.clear.run.run m w = some (.ok (), w') ∧ Emptied S S.models w w₁ ∧
      Emptied S S.staging w₁ w' := by
  obtain ⟨hshort, hreach⟩ := hc _ List.mem_cons_self
  obtain ⟨hshort', hreach'⟩ := hc ".staging" (by simp)
  obtain ⟨w₁, hrun, hm⟩ := removeTop_succeeds (m := m) h.serves h.stands proper_models hshort h.models
    hreach
  have hapart (rest : List String) : ¬S.models <+: S.staging ++ rest := by
    rintro ⟨more, hmore⟩
    simp [Site.staging, Site.models, ModelIdentity.modelNamespace] at hmore
  have hstaging (rest : List String) := hm.others _ (hapart rest)
  have hspot : w₁.files.Spot S.staging := by
    have hroot := hstaging []
    rw [List.append_nil] at hroot
    simpa only [Tree.Spot, hroot] using h.staging
  obtain ⟨w', hrun', hs⟩ := removeTop_succeeds (m := m) (hm.environment ▸ h.serves) hm.stands
    (d := ".staging") (by decide) hshort' hspot fun rest hne => hreach' rest (hstaging rest ▸ hne)
  refine ⟨w₁, w', ?_, hm, hs⟩
  show ((Cache.removeDirectory c.modelsDirectory).run >>= _).run m w = _
  rw [run_bind, show (Cache.removeDirectory c.modelsDirectory).run.run m w = _ from hrun]
  exact hrun'

end Keeps

theorem History.keeps (h : History m S c M w) : Keeps S c M w := by
  induction h with
  | start h => exact .begun h
  | elapse _ he ih => exact ih.elapse he
  | store _ hs hr ih =>
    obtain ⟨w', hrun, hw⟩ := ih.store_runs (m := m) hs
    obtain ⟨-, rfl⟩ := Prod.mk.inj (Option.some.inj (hr.symm.trans hrun))
    exact ih.store hs hw
  | delete _ hid hr ih =>
    obtain ⟨w', hrun, hw⟩ := ih.delete_runs (m := m) hid
    obtain ⟨-, rfl⟩ := Prod.mk.inj (Option.some.inj (hr.symm.trans hrun))
    exact ih.delete hw
  | clear _ hc hr ih =>
    obtain ⟨w₁, w', hrun, hm, hs⟩ := ih.clear_runs (m := m) hc
    obtain ⟨-, rfl⟩ := Prod.mk.inj (Option.some.inj (hr.symm.trans hrun))
    exact ih.clear hm hs

/-- After any calls a cache answers as the map that it keeps. Every further call comes to its end:
a call that stores answers with the path of the module in its entry, takes the module from where it
was, and leaves all other files among the builds as they were. -/
theorem cache_is_map (h : History m S c M w) :
    Answered m c M w ∧
    (∀ id module r place, Storable S c id module r place w → ∃ w',
      (c.storeRecord id module r).run.run m w =
        some (.ok ((c.entryDirectory id).join r.name), w') ∧
      w'.files.get? place = none ∧
      ∀ rest, rest ≠ [] → S.staging ++ rest ≠ place →
        w'.files.get? (S.staging ++ rest) = w.files.get? (S.staging ++ rest)) ∧
    (∀ id, IsProper id.name → Tree.Short (c.entryDirectory id) →
      ∃ w', (c.delete id).run.run m w = some (.ok (), w')) ∧
    (Clearable S c w → ∃ w', c.clear.run.run m w = some (.ok (), w')) := by
  have hk := h.keeps
  refine ⟨hk.answered, fun id module r place hs => ?_, fun id hn hid => ?_, fun hc => ?_⟩
  · obtain ⟨w', hrun, hr⟩ := hk.store_runs hs
    refine ⟨w', hrun, hr.source, fun rest hne hp => hr.others _ ?_ ?_ hp ?_⟩
    · simpa using hne
    · simp [Site.staging, Site.models, ModelIdentity.modelNamespace]
    · rintro ⟨more, hmore⟩
      exact S.entry_ne_staging id more rest hmore
  · obtain ⟨w', hrun, -⟩ := hk.delete_runs ⟨hn, hid⟩
    exact ⟨w', hrun⟩
  · obtain ⟨_, w', hrun, -⟩ := hk.clear_runs hc
    exact ⟨w', hrun⟩

def World.fresh : World :=
  .initial ⟨[(["c"], .directory), (["stanbind_model_m_1.so"], .file 1 ⟨[1, 2], 0⟩ true)], 2⟩
    ⟨[], Site.path [], none, 1⟩ 0

def Record.small : Record :=
  ⟨"stanbind_model_m_1.so", ⟨[1, 2], 0⟩, true, "built", "warned", .small⟩

theorem World.fresh_begun : Begun Site.top ⟨Site.path ["c"]⟩ World.fresh where
  serves := Site.serves_path Site.top _
  stands := ⟨⟨by decide, by decide, by decide, by decide⟩, rfl, by simp [Site.top]⟩
  short := by
    rw [Tree.Short]
    decide +kernel
  empty := by
    intro rest hne
    have hwf : World.fresh.files.WellFormed := ⟨by decide, by decide, by decide, by decide⟩
    by_contra hsome
    obtain ⟨s, rest, rfl⟩ := List.exists_cons_of_ne_nil hne
    have hchild : World.fresh.files.get? (["c"] ++ [s]) ≠ none := by
      by_cases hr : rest = []
      · subst hr
        exact hsome
      · have hbelow : World.fresh.files.get? (["c"] ++ [s] ++ rest) ≠ none := by
          simpa [Site.top] using hsome
        rw [hwf.get?_above hr hbelow]
        simp
    exact hchild (hwf.children_eq_nil.mp (by decide) s)

theorem Record.small_storable : Storable Site.top ⟨Site.path ["c"]⟩ .small
    (Site.path ["stanbind_model_m_1.so"]) .small ["stanbind_model_m_1.so"] World.fresh where
  suits := Record.small.suits_of_size (by decide +kernel) (by decide) (by decide)
    (by decide +kernel) (by decide +kernel)
  fileName := by decide +kernel
  leads := by decide +kernel
  file := ⟨1, rfl⟩
  outside := by decide

theorem cache_is_map_after_store : ∃ w, History .idle Site.top ⟨Site.path ["c"]⟩
    (Shelf.empty.put .small .small) w ∧
    Answered .idle ⟨Site.path ["c"]⟩ (Shelf.empty.put .small .small) w := by
  have hstart : History .idle Site.top ⟨Site.path ["c"]⟩ .empty World.fresh := .start World.fresh_begun
  obtain ⟨w, hrun, -⟩ := (cache_is_map hstart).2.1 _ _ _ _ Record.small_storable
  have hstored := History.store hstart Record.small_storable hrun
  exact ⟨w, hstored, (cache_is_map hstored).1⟩

end CompiledModels
