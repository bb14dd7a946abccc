import CompiledModels.Proofs.Building
import CompiledModels.Proofs.Publication

/-!
Building a module where there is no entry: in the end there is the whole entry or none, and nothing
else is left of the build, as far as the temporary directories could be removed.
-/

namespace CompiledModels

open Files Program

variable {R : Rules} {m : Machine} {E : Estate} {env : Environment} {tools : Invocation → Prop}
  {e : Engine} {c : Cache} {id : ModelIdentity} {G : Prop} {t : Tree} {Z : Location → Prop}
  {d work l : Location} {x y : Moment} {p : Path}

namespace Estate

def building (E : Estate) (id : ModelIdentity) (s : String) : Location :=
  E.cache.root ++ [".staging"] ++ ["build_" ++ id.name ++ "_" ++ s]

theorem plain_build (id : ModelIdentity) (s : String) : IsPlain ("build_" ++ id.name ++ "_" ++ s) := by
  rw [String.append_assoc, String.append_assoc]
  exact plain_of_start (by decide) _

structure Cradle (E : Estate) (c : Cache) (id : ModelIdentity) (x : Moment) : Prop where
  models : x.files.Spot E.cache.models
  absent : x.files.get? (E.cache.entry id) = none
  arrived : ¬Arrived (c.entryDirectory id) x.past

theorem Cradle.steady : E.Steady (E.Cradle c id) := by
  intro x y h hx
  have hmodels := h.files.kept _ (E.still_models [])
  have hentry := h.files.kept _ (E.still_entry id [])
  simp only [List.append_nil] at hmodels hentry
  exact ⟨by simpa only [Tree.Spot, hmodels] using hx.models, hentry.trans hx.absent,
    Steady.arrived x y h hx.arrived⟩

theorem Cradle.spares (h : E.Spares x y) (hp : ∃ s, y.past = s :: x.past ∧ ¬s.Moves)
    (hx : E.Cradle c id x) : E.Cradle c id y := by
  have hmodels := h []
  have hentry := h [id.name]
  rw [← Site.entry_eq] at hentry
  rw [List.append_nil] at hmodels
  refine ⟨by simpa only [Tree.Spot, hmodels] using hx.models, hentry.trans hx.absent, ?_⟩
  obtain ⟨s, hp, hs⟩ := hp
  rw [hp]
  exact fun ha => hx.arrived (ha.of_cons hs)

structure Yield (work : Location) (name : String) (x : Moment) : Prop where
  directory : x.files.get? work = some .directory
  file : x.files.get? (work ++ [name]) = none ∨
    ∃ number c b, x.files.get? (work ++ [name]) = some (.file number c b)

section Building

variable {s name : String}

theorem builds_building (E : Estate) (id : ModelIdentity) (s : String) {rest : List String}
    (hr : rest ≠ []) : E.builds (E.building id s ++ rest) :=
  ⟨id.name ++ "_" ++ s, rest, hr, by simp [building, String.append_assoc]⟩

theorem still_building (E : Estate) (id : ModelIdentity) (s : String) : E.Still (E.building id s) := by
  rw [building, List.append_assoc]
  exact (E.den_staging _).still

theorem Yield.steady : E.Steady (Yield (E.building id s) name) := by
  intro x y h hx
  refine ⟨(h.files.kept _ (E.still_building id s)).trans hx.directory, ?_⟩
  rcases h.files.builds _ (E.builds_building id s (List.cons_ne_nil name [])) with he | he
  · rw [he]
    exact hx.file
  · exact he

theorem Yield.source (hR : Workplace R E m env tools) (hS : E.cache.Serves env c.root)
    (hn : IsPlain name) : Source R E.cache env ((Path.inDirectory env.directory c.root).joins
      [".staging", "build_" ++ id.name ++ "_" ++ s, name]) (E.building id s ++ [name])
      (fun _ _ => True) (Yield (E.building id s) name) := by
  refine ⟨hR.stable Yield.steady, fun {Z x y} h hZ hx => ?_, fun {y} hI hy follow l n hl hnode => ?_⟩
  · refine ⟨(h.extends _ (by simp [hx.directory])).trans hx.directory, ?_⟩
    by_cases hnone : x.files.get? (E.building id s ++ [name]) = none
    · rw [h.files _ (hZ.resolve_left (not_not.mpr hnone))]
      exact hx.file
    · rw [h.extends _ hnone]
      exact hx.file
  · have hplain : ∀ s' ∈ [".staging", "build_" ++ id.name ++ "_" ++ s] ++ [name], IsPlain s' :=
      List.forall_mem_append.mpr ⟨List.forall_mem_cons.mpr ⟨by decide,
        List.forall_mem_singleton.mpr (plain_build id s)⟩, List.forall_mem_singleton.mpr hn⟩
    have hwork : E.cache.root ++ [".staging", "build_" ++ id.name ++ "_" ++ s] = E.building id s := by
      simp [building]
    have hunlinked : y.files.Unlinked follow E.cache.root
        ([".staging", "build_" ++ id.name ++ "_" ++ s] ++ [name]) := by
      refine (hy.wellFormed.unlinked (hwork ▸ hI.directory)).concat fun _ target => ?_
      rw [hwork]
      rcases hI.file with he | ⟨_, _, _, he⟩ <;> simp [he]
    obtain ⟨rfl, -⟩ := hS.full.resolve_ok hy.stands (by simp) hplain hunlinked hl
    rw [← List.append_assoc, hwork] at hnode ⊢
    refine ⟨rfl, ?_⟩
    rcases hI.file with he | ⟨number, c, b, he⟩
    · simp [he] at hnode
    · exact ⟨number, c, b, Option.some.inj (hnode.symm.trans he), trivial⟩

end Building

def place (E : Estate) (id : ModelIdentity) : Location → Prop := fun l =>
  l = E.cache.models ∨ E.cache.entry id <+: l

theorem models_of_place (h : E.place id l) : E.cache.models <+: l := by
  rcases h with rfl | h
  · exact List.prefix_refl _
  · exact (Site.entry_eq .. ▸ List.prefix_append _ _ : E.cache.models <+: E.cache.entry id).trans h

inductive Posting (E : Estate) (c : Cache) (id : ModelIdentity) (x y : Moment) : Prop
  | spares (h : E.Spares x y)
  | publishing {d : Parcel} {Z : Location → Prop} {output warnings : String} {manifest : Manifest}
      (hd : d.texts = Cache.texts output warnings manifest) (hn : ModuleFile.isName d.name = true)
      (hm : manifest.abi.toNat = abiVersion) (hZ : ∀ other rest, ¬Z (E.cache.entry other ++ rest))
      (h : Publishing d (c.entryDirectory id) (E.cache.entry id) Z x y)

structure Posted (E : Estate) (c : Cache) (id : ModelIdentity) (name output warnings : String)
    (manifest : Manifest) (file : Path) (x : Moment) : Prop where
  file : file = (c.entryDirectory id).join name
  isName : ModuleFile.isName name = true
  abi : manifest.abi.toNat = abiVersion
  folder : ∃ content b, x.files.Folder (E.cache.entry id)
    (entryFiles name content b (Cache.texts output warnings manifest))

end Estate

open Estate

section Store

variable {s name : String} {output warnings : String} {manifest : Manifest}

structure Estate.Shelving (E : Estate) (c : Cache) (env : Environment) (G : Prop) (t : Tree)
    (id : ModelIdentity) (s n : String) (x : Moment) : Prop where
  other : n ≠ "build_" ++ id.name ++ "_" ++ s
  busy : E.Busy c env G t (E.place id) [E.cache.stagedAt n, E.building id s] x
  directory : x.files.get? (E.building id s) = some .directory

theorem Estate.building_eq_stagedAt (E : Estate) (id : ModelIdentity) (s : String) :
    E.building id s = E.cache.stagedAt ("build_" ++ id.name ++ "_" ++ s) := by
  simp [building, Site.stagedAt]

theorem Site.stagedAt_prefix {S : Site} {n n' : String} {rest : List String}
    (h : S.stagedAt n <+: S.stagedAt n' ++ rest) : n = n' := by
  obtain ⟨more, h⟩ := h
  simp only [Site.stagedAt, List.append_assoc, List.append_cancel_left_eq, List.cons_append,
    List.nil_append, List.cons.injEq, true_and] at h
  exact h.1

theorem Site.stagedAt_eq {S : Site} {n n' : String} (h : S.stagedAt n <+: S.stagedAt n') : n = n' := by
  rw [← List.append_nil (S.stagedAt n')] at h
  exact stagedAt_prefix h

theorem Estate.Yield.apart {n : String} (h : Yield (E.building id s) name x)
    (hnone : x.files.get? (E.cache.stagedAt n) = none) :
    ¬E.cache.stagedAt n <+: E.building id s ++ [name] := by
  intro hp
  have hdir := h.directory
  rw [building_eq_stagedAt] at hp hdir
  rw [Site.stagedAt_prefix hp, hdir] at hnone
  cases hnone

theorem Estate.Shelving.steady {n : String} : E.Steady (E.Shelving c env G t id s n) :=
  fun x y h hx => ⟨hx.other, Busy.steady x y h hx.busy,
    (h.files.kept _ (E.still_building id s)).trans hx.directory⟩

theorem Estate.Shelving.step {n : String} {d : Parcel} (h : Publishing d p (E.cache.entry id)
    (E.cache.bench id True (E.building id s ++ [name]) n) x y) (hx : E.Shelving c env G t id s n x) :
    E.Shelving c env G t id s n y := by
  refine ⟨hx.other, hx.busy.changes (h.changes.mono ?_) h.past, (h.changes.files _ ?_).trans hx.directory⟩
  · rintro l ((hl | hl | ⟨hl, -⟩ | rfl) | hl)
    · exact .inr (.inl (.inl hl))
    · exact .inl ⟨_, List.mem_cons_self, hl⟩
    · exact absurd trivial hl
    · exact .inl ⟨_, List.mem_cons_of_mem _ List.mem_cons_self, List.prefix_append _ _⟩
    · exact .inr (.inl (.inr hl))
  · rw [building_eq_stagedAt]
    rintro ((hl | hl | ⟨hl, -⟩ | hl) | hl)
    · simp [Site.stagedAt, Site.models] at hl
    · exact hx.other (Site.stagedAt_eq hl)
    · exact hl trivial
    · simp at hl
    · exact E.cache.not_entry_staged id _ [] (by simpa using hl)

theorem Estate.shed_apart (E : Estate) (id : ModelIdentity) (s name : String) (other : ModelIdentity)
    (rest : List String) : ¬(E.cache.shed id (E.cache.entry other ++ rest) ∨
      E.cache.entry other ++ rest = E.building id s ++ [name]) := by
  rintro (h | h)
  · exact E.cache.not_shed_entry id other rest h
  · refine (E.den_staging ("build_" ++ id.name ++ "_" ++ s)).apart _ ?_
      (show E.cache.models <+: E.cache.entry other ++ rest from ?_)
    · rw [h, building_eq_stagedAt]
      exact List.prefix_append _ _
    · rw [Site.entry_eq, List.append_assoc]
      exact List.prefix_append _ _

theorem Estate.den_building (E : Estate) (id : ModelIdentity) (s : String) : E.Den (E.building id s) := by
  rw [building, List.append_assoc]
  exact E.den_staging _

theorem Estate.atomic_stable {d : Parcel} (hR : Workplace R E m env tools) :
    R.Stable (Atomic E.cache id d p t) := by
  intro y z h hy
  have hsame (other : ModelIdentity) : y.files.Same z.files (E.cache.entry other) := fun rest =>
    (hR.rests h).files.kept _ (E.still_entry other rest)
  refine ⟨fun ha hd rest => (hsame id rest).trans (hy.before ?_ ?_ rest), fun ha => ?_, fun ha => ?_,
    fun other hne rest => (hsame other rest).trans (hy.others other hne rest)⟩
  · exact hR.past h ▸ ha
  · exact hR.past h ▸ hd
  · exact (hy.between (hR.past h ▸ ha)).imp (fun hb rest => (hsame id rest).trans (hb rest))
      fun hb rest => (hsame id rest).trans (hb rest)
  · exact (hy.after (hR.past h ▸ ha)).congr (hsame id)

theorem Estate.Shelving.opens {n : String} (ht : t.WellFormed)
    (hx : E.Busy c env G t (E.place id) [E.building id s] x)
    (hd : x.files.get? (E.building id s) = some .directory) (h : Adds (· = E.cache.stagedAt n) x y)
    (hn : x.files.get? (E.cache.stagedAt n) = none) : E.Shelving c env G t id s n y := by
  have hne : n ≠ "build_" ++ id.name ++ "_" ++ s := by
    rintro rfl
    rw [← building_eq_stagedAt, hd] at hn
    simp at hn
  refine ⟨hne, hx.opens ht h (E.den_staging n) hn (List.forall_mem_singleton.mpr fun hp => ?_),
    (h.extends _ (by simp [hd])).trans hd⟩
  rw [building_eq_stagedAt] at hp
  exact hne (Site.stagedAt_eq hp).symm

theorem Adds.nothing (h : Adds (· = l) x y) (hl : x.files.get? l ≠ none) : Changes (fun _ => False) x y := by
  refine ⟨fun k _ => ?_, h.wellFormed, h.environment⟩
  by_cases hk : k = l
  · exact hk ▸ h.extends l hl
  · exact h.files k hk

theorem storeBuilt_posted (hS : E.cache.Serves env c.root) (hR : Workplace R E m env tools)
    (ht : t.WellFormed) (hk : R.Allows (E.Posting c id)) (hn : ModuleFile.isName name = true)
    (hm : manifest.abi.toNat = abiVersion)
    (hx : E.Busy c env G t (E.place id) [E.building id s] x) (hy : Yield (E.building id s) name x)
    (hc : E.Cradle c id x) :
    R.Safe (fun r y => (E.Busy c env G t (E.place id) [E.building id s] y ∧
        y.files.get? (E.building id s) = some .directory) ∧
        (∀ file, r = .ok file → E.Posted c id name output warnings manifest file y) ∧
        ∀ e, r = .error e → y.files.Bare (E.cache.entry id))
      (c.store id ((Path.inDirectory env.directory c.root).joins
        [".staging", "build_" ++ id.name ++ "_" ++ s, name]) output warnings manifest).run x := by
  let d : Parcel := ⟨name, fun _ _ => True, Cache.texts output warnings manifest⟩
  have hden := E.den_building id s
  have hplace : E.building id s <+: E.building id s ++ [name] := List.prefix_append _ _
  have hne : (Path.inDirectory env.directory c.root).joins
      [".staging", "build_" ++ id.name ++ "_" ++ s, name] ≠ c.entryDirectory id := by
    rw [Cache.entryDirectory_eq]
    intro h
    have htail := congrArg Path.tail h
    simp [Path.joins, Path.inDirectory_tail] at htail
  have hsafe : (R.keeping (Publishing d (c.entryDirectory id) (E.cache.entry id)
      fun l => E.cache.shed id l ∨ l = E.building id s ++ [name])).Safe _
      (c.store id _ output warnings manifest).run x :=
    store_stored (F := False) (A := True) (I := Yield (E.building id s) name)
      (P := fun y => E.Busy c env G t (E.place id) [E.building id s] y ∧
        y.files.get? (E.building id s) = some .directory)
      (J := fun n => E.Shelving c env G t id s n) (hR.sheltered id True) hS
      (Yield.source hR hS (ModuleFile.plain_of_isName hn)) (hden.cache.mono fun _ hl => hl ▸ hplace)
      (fun h => hden.staging (h ▸ hplace)) (hden.apart _ hplace) hne
      (ModuleFile.plain_of_isName hn) False.elim (fun n y hy _ hnone => hy.apart hnone) False.elim
      False.elim False.elim
      (hR.lasting (Busy.steady.and (Steady.get? (E.still_building id s))))
      (fun y z h hy => ⟨hy.1.changes ((h.nothing (by simp [hy.1.staging])).mono fun _ => False.elim)
        ⟨_, h.taken.choose_spec.1⟩, (h.extends _ (by simp [hy.2])).trans hy.2⟩)
      (fun n => hR.stable Shelving.steady) (fun n y z hy h hnone => .opens ht hy.1 hy.2 h hnone)
      (fun n y z h hy => hy.step h) (Path.fileName?_joins _ [_, _] _) rfl
      (Cache.plain_texts output warnings manifest) (ModuleFile.nodup_of_isName hn output warnings manifest)
      hx.cache (.inr hx.staging) ⟨hc.models, hc.arrived, hy, fun _ =>
        ⟨fun _ => hc.absent, False.elim, False.elim, False.elim⟩⟩ ⟨hx, hy.directory⟩ False.elim
  have hstart : Atomic E.cache id d (c.entryDirectory id) x.files x :=
    ⟨fun _ _ _ => rfl, fun _ => .inl fun _ => rfl, fun ha => absurd ha hc.arrived, fun _ _ _ => rfl⟩
  refine (hsafe.keepInvariant (fun y z h => hk y z (.publishing rfl hn hm (E.shed_apart id s name) h))
    hstart (atomic_stable hR) fun y z h hy => hy.step (E.shed_apart id s name) h).weaken fun r y hy => ?_
  obtain ⟨⟨⟨-, harrived, hfile⟩, hstage⟩, hatomic⟩ := hy
  refine ⟨?_, fun file hr => ?_, fun e hr => ?_⟩
  · rcases hstage with ⟨-, hP, -⟩ | ⟨n, hJ, hcleared⟩
    · exact hP
    · exact ⟨hJ.busy.closes (.staging n) fun _ => hcleared.staged, hJ.directory⟩
  · obtain ⟨content, b, -, hfolder⟩ := hatomic.after (harrived.mp ⟨file, hr⟩)
    exact ⟨hfile file hr, hn, hm, content, b, hfolder⟩
  · have hnot : ¬Arrived (c.entryDirectory id) y.past := fun ha => by
      obtain ⟨file, hok⟩ := harrived.mpr ha
      simp [hok] at hr
    rcases hatomic.between hnot with hsame | hbare
    · exact fun rest => (hsame rest).trans (hx.cache.wellFormed.bare hc.absent rest)
    · exact hbare

end Store

def Cache.construct (c : Cache) (id : ModelIdentity) (source : String) (translator : Translator)
    (builder : Builder) (work : Path) : Attempt Error CompiledEntry := do
  let translation ← Attempt.of (translator.translate source id).run .translation
  let output ← Attempt.of (builder.build translation.code id work).run .build
  let created := UInt64.ofNat (Duration.seconds ⟨← perform .now⟩)
  let manifest := Manifest.ofBuild id (output.file.fileName?.getD "") source
    output.compiler.executable.text created
  let file ← Attempt.of
    (c.store id output.file output.diagnostics translation.warnings manifest).run .cache
  perform (.emit (.compiled id.key))
  return ⟨file, output.diagnostics, translation.warnings, manifest⟩

theorem Cache.compileModel_eq (c : Cache) (id : ModelIdentity) (source : String)
    (translator : Translator) (builder : Builder) :
    c.compileModel id source translator builder = (do
      let staging ← Attempt.of c.openStaging.run .cache
      Attempt.inTemporary ("build_" ++ id.name ++ "_") staging (fun e => .cache (.io staging e))
        (c.construct id source translator builder)) := rfl

namespace Estate

structure Framed (E : Estate) (c : Cache) (env : Environment) (G : Prop) (t : Tree)
    (Z : Location → Prop) (x : Moment) : Prop where
  cache : Standing E.cache env x
  temp : ∀ k, Standing (E.temp k) env x
  spared : ∀ l, E.Still l → l ≠ E.cache.staging → ¬Z l → (E.scrap l → ¬Littered c env G x) →
    x.files.get? l = t.get? l

theorem Busy.framed (h : E.Busy c env G t Z [] x) : E.Framed c env G t Z x :=
  ⟨h.cache, h.temp, fun l hl hs hz => h.spared l hl hs hz (by simp)⟩

theorem Framed.busy (h : E.Framed c env G t Z x) (hz : ∀ l, Z l → E.cache.models <+: l)
    (hs : x.files.get? E.cache.staging = some .directory) : E.Busy c env G t Z [] x :=
  ⟨h.cache, h.temp, hs, by simp, hz, fun l hl hs hz _ => h.spared l hl hs hz, by simp⟩

theorem Framed.steady : E.Steady (E.Framed c env G t Z) := by
  intro x y h hx
  obtain ⟨taken, hp, -⟩ := h.past
  refine ⟨h.standing (fun _ hl => still_of_way (k := 0) (.inl hl)) hx.cache,
    fun k => h.standing (fun _ hl => still_of_way (.inr hl)) (hx.temp k), fun l hl hs hz hc => ?_⟩
  exact (h.files.kept l hl).trans
    (hx.spared l hl hs hz fun hl hx => hc hl (hx.later ⟨taken, hp⟩))

theorem Framed.opens (h : Adds (· = E.cache.staging) x y) (hx : E.Framed c env G t Z x) :
    E.Framed c env G t Z y := by
  have hway {k : Nat} {l : Location} (hl : E.cache.Way l ∨ (E.temp k).Way l) : l ≠ E.cache.staging := by
    rintro rfl
    rcases hl with hl | hl
    · exact cache_not_below hl (by simp) rfl
    · exact E.outside k _ hl (List.prefix_append _ _)
  obtain ⟨s, hp, -⟩ := h.taken
  refine ⟨hx.cache.changes h.toChanges (apart_of_way fun _ hl => hway (k := 0) (.inl hl)),
    fun k => (hx.temp k).changes h.toChanges (apart_of_way fun _ hl => hway (.inr hl)),
    fun l hl hs hz hc => ?_⟩
  exact (h.files l hs).trans (hx.spared l hl hs hz fun hl hx => hc hl (hx.later ⟨[s], hp⟩))

structure Rebuilt (E : Estate) (c : Cache) (id : ModelIdentity) (r : Except Error CompiledEntry)
    (x : Moment) : Prop where
  posted : ∀ entry, r = .ok entry →
    ∃ name, E.Posted c id name entry.buildOutput entry.warnings entry.manifest entry.file x
  bare : ∀ err, r = .error err → x.files.Bare (E.cache.entry id)

theorem Rebuilt.spares {r : Except Error CompiledEntry} (h : E.Spares x y) (hx : E.Rebuilt c id r x) :
    E.Rebuilt c id r y := by
  have hsame : x.files.Same y.files (E.cache.entry id) := fun rest => by
    rw [Site.entry_eq, List.append_assoc]
    exact h _
  refine ⟨fun entry hr => ?_, fun err hr rest => (hsame rest).trans (hx.bare err hr rest)⟩
  obtain ⟨name, hfile, hn, hm, content, b, hfolder⟩ := hx.posted entry hr
  exact ⟨name, hfile, hn, hm, content, b, hfolder.congr hsame⟩

structure Ready (E : Estate) (c : Cache) (id : ModelIdentity) (s : String) (x : Moment) : Prop where
  directory : x.files.get? (E.building id s) = some .directory
  built : E.Built (E.building id s) x
  cradle : E.Cradle c id x

theorem Ready.steady {s : String} : E.Steady (E.Ready c id s) := fun x y h hx =>
  ⟨(h.files.kept _ (E.still_building id s)).trans hx.directory, Built.steady x y h hx.built,
    Cradle.steady x y h hx.cradle⟩

theorem Ready.lasts {s : String} (hd : E.Den d) (hb : ∀ rest, ¬d <+: E.building id s ++ rest) :
    E.Lasts d (E.Ready c id s) := by
  refine ⟨Ready.steady, fun x y h hx => ⟨?_, ?_, ?_⟩⟩
  · refine (h.files _ (not_or.mpr ⟨fun hp => hb [] ?_, not_not.mpr (E.still_building id s)⟩)).trans hx.directory
    rwa [List.append_nil]
  · rintro l ⟨rest, rfl⟩ hl
    rcases h.builds _ (hb rest) with he | he
    · rw [he]
      exact hx.built _ (List.prefix_append _ _) hl
    · exact he
  · exact hx.cradle.spares (hd.spares h.toChanges) h.taken

theorem Ready.yield {s name : String} (h : E.Ready c id s x) : Yield (E.building id s) name x :=
  ⟨h.directory, h.built _ (List.prefix_append _ _) (E.builds_building id s (by simp))⟩

theorem translating_eq_stagedAt (E : Estate) (s : String) :
    E.translating s = E.cache.stagedAt ("stanbind_" ++ s) := by
  simp [translating, Site.stagedAt]

theorem stanbind_ne_build (id : ModelIdentity) (s s' : String) :
    "stanbind_" ++ s ≠ "build_" ++ id.name ++ "_" ++ s' := by
  intro h
  have hs := congrArg String.toList h
  simp only [String.toList_append, List.append_assoc] at hs
  exact absurd (List.cons.inj hs).1 (by decide)

theorem scratch_compiling (E : Estate) (k : Nat) (s : String) (h : E.compiling k s <+: l) :
    E.scratch l := ⟨k, s, by simpa [compiling] using h⟩

theorem translating_apart (E : Estate) (id : ModelIdentity) (s s' : String) (rest : List String) :
    ¬E.translating s' <+: E.building id s ++ rest := by
  rw [building_eq_stagedAt, translating_eq_stagedAt]
  exact fun hp => stanbind_ne_build id s' s (Site.stagedAt_prefix hp)

theorem compiling_apart (E : Estate) (id : ModelIdentity) (k : Nat) (s s' : String) (rest : List String) :
    ¬E.compiling k s' <+: E.building id s ++ rest := fun hp =>
  scratch_ne (E.scratch_compiling k s' hp) ([".staging", "build_" ++ id.name ++ "_" ++ s] ++ rest)
    (by simp [building])

theorem building_apart_translating (E : Estate) (id : ModelIdentity) (s s' : String) :
    ¬E.building id s <+: E.translating s' := by
  rw [building_eq_stagedAt, translating_eq_stagedAt]
  exact fun hp => stanbind_ne_build id s' s (Site.stagedAt_eq hp).symm

theorem building_apart_compiling (E : Estate) (id : ModelIdentity) (k : Nat) (s s' : String) :
    ¬E.building id s <+: E.compiling k s' := by
  rintro ⟨rest, hrest⟩
  refine scratch_ne (E.scratch_compiling k s' (List.prefix_refl _))
    ([".staging", "build_" ++ id.name ++ "_" ++ s] ++ rest) (hrest.symm.trans ?_)
  simp [building]

theorem Ready.lasts_translating {s s' : String} : E.Lasts (E.translating s') (E.Ready c id s) := by
  have hden : E.Den (E.translating s') := by simpa [translating] using E.den_staging ("stanbind_" ++ s')
  exact Ready.lasts hden (E.translating_apart id s s')

theorem Ready.lasts_compiling {k : Nat} {s s' : String} : E.Lasts (E.compiling k s') (E.Ready c id s) := by
  have hden : E.Den (E.compiling k s') := by simpa [compiling] using E.den_scratch k s'
  exact Ready.lasts hden (E.compiling_apart id k s s')

end Estate

section Compile

variable (hE : e.Settled E env) (hR : Workplace R E m env tools) (ht : t.WellFormed)
  (hk : R.Allows (E.Posting e.cache id)) (hpriv : G → ∀ l, Private R l)
include hE hR ht hk hpriv

theorem construct_rebuilt {source s : String}
    (hx : E.Busy e.cache env G t (E.place id) [E.building id s] x) (hr : E.Ready e.cache id s x) :
    R.Safe (fun r y => E.Busy e.cache env G t (E.place id) [E.building id s] y ∧
        y.files.get? (E.building id s) = some .directory ∧ E.Rebuilt e.cache id r y)
      (e.cache.construct id source e.translator e.builder
        ((Path.inDirectory env.directory e.cache.root).joins
          [".staging", "build_" ++ id.name ++ "_" ++ s])).run x := by
  have hspares : R.Allows E.Spares := fun y z h => hk y z (.spares h)
  have hsteady : E.Steady fun y => E.Busy e.cache env G t (E.place id) [E.building id s] y ∧
      E.Ready e.cache id s y := Busy.steady.and Ready.steady
  have hfail {err : Error} {y : Moment} (hy : E.Busy e.cache env G t (E.place id) [E.building id s] y ∧
      E.Ready e.cache id s y) : E.Busy e.cache env G t (E.place id) [E.building id s] y ∧
      y.files.get? (E.building id s) = some .directory ∧ E.Rebuilt e.cache id (.error err) y :=
    ⟨hy.1, hy.2.directory, by simp, fun _ _ => hy.1.cache.wellFormed.bare hy.2.cradle.absent⟩
  refine .ofThen (translate_busy hE hR hspares ht hpriv (fun s' => List.forall_mem_singleton.mpr
    (E.building_apart_translating id s s')) (fun _ => Ready.lasts_translating) hx hr)
    (fun translation y hy => ?_) fun err y hy => hfail hy
  refine .ofThen (build_busy hE hR hspares ht hpriv (fun k s' => List.forall_mem_singleton.mpr
    (E.building_apart_compiling id k s s')) (fun _ _ => Ready.lasts_compiling) hy.1 hy.2)
    (fun output y hy => ?_) fun err y hy => hfail hy.2
  obtain ⟨hfile, hy⟩ := hy
  obtain ⟨nanos, hfile⟩ := hfile output rfl
  refine .liftThen (hR.quiet (quiet_only (fun _ => Step.isIdle_of_isQuiet) rfl) hspares.rests hsteady hy)
    fun now z hz => ?_
  rw [Path.joins_join] at hfile
  rw [hfile]
  refine .ofThen (storeBuilt_posted hE.serves hR ht hk (ModuleFile.isName_name id _ nanos env.processNumber)
    rfl hz.2.1 hz.2.2.yield hz.2.2.cradle) (fun file u hu => ?_) fun err u hu =>
      ⟨hu.1.1, hu.1.2, by simp, fun _ _ => hu.2.2 err rfl⟩
  have hend (r : Except Error CompiledEntry) : E.Steady fun y =>
      E.Busy e.cache env G t (E.place id) [E.building id s] y ∧
      y.files.get? (E.building id s) = some .directory ∧ E.Rebuilt e.cache id r y :=
    Busy.steady.and ((Steady.get? (E.still_building id s)).and fun _ _ h hx => hx.spares h.spares)
  refine .liftThen (hR.quiet (quiet_only (fun _ => Step.isIdle_of_isQuiet) rfl) hspares.rests (hend _)
    ⟨hu.1.1, hu.1.2, ?_, by simp⟩) fun _ v hv => .done hv.2 (hR.stable (hend _))
  rintro entry ⟨⟩
  exact ⟨_, hu.2.1 file rfl⟩

theorem compileModel_rebuilt {source : String} (hx : E.Framed e.cache env G t (E.place id) x)
    (hs : x.files.Spot E.cache.staging) (hc : E.Cradle e.cache id x) :
    R.Safe (fun r y => E.Framed e.cache env G t (E.place id) y ∧ E.Rebuilt e.cache id r y)
      (e.cache.compileModel id source e.translator e.builder).run x := by
  have hspares : R.Allows E.Spares := fun y z h => hk y z (.spares h)
  have hopened {y z : Moment} (h : Adds (· = E.cache.staging) y z) : E.Spares y z := fun rest =>
    h.files _ (by simp [Site.models, Site.staging, ModelIdentity.modelNamespace])
  have hsteady : E.Steady fun y => E.Framed e.cache env G t (E.place id) y ∧ E.Cradle e.cache id y :=
    Framed.steady.and Cradle.steady
  have hopen := (openStaging_opened (R := R.keeping (Adds (· = E.cache.staging))) (hR.cache.keeping _)
    (fun _ _ h => h) ((hR.room E.still_staging).keeping _) hE.serves False.elim hx.cache hs :
      (R.keeping _).Safe _ _ _).keepInvariant (fun y z h => hspares y z (hopened h)) ⟨hx, hc⟩
    (hR.stable hsteady) fun y z h hy => ⟨hy.1.opens h, hy.2.spares (hopened h) h.taken⟩
  rw [Cache.compileModel_eq]
  refine .ofThen hopen (fun dir y hy => ?_) fun err y hy =>
    ⟨hy.2.1, by simp, fun _ _ => hy.2.1.cache.wellFormed.bare hy.2.2.absent⟩
  obtain ⟨⟨-, hdir, -⟩, hframed, hcradle⟩ := hy
  obtain ⟨rfl, hstaging⟩ := hdir dir rfl
  have hsafe : R.Safe (fun r z => (∃ err, r = .error (.cache (.io e.cache.stagingDirectory err))) ∧
      E.Busy e.cache env G t (E.place id) [] z ∧ E.Cradle e.cache id z ∨
      E.Busy e.cache env G t (E.place id) [] z ∧ E.Rebuilt e.cache id r z)
      (Attempt.inTemporary ("build_" ++ id.name ++ "_") (e.cache.root.joins [".staging"])
        (fun err => .cache (.io e.cache.stagingDirectory err))
        (e.cache.construct id source e.translator e.builder)).run y := by
    refine inTemporary_busy hR (nest_staging hE.serves (plain_build id)) hspares ht rfl hpriv (by simp)
      Cradle.steady (fun s z u h hz => hz.spares ?_ h.taken) (fun r z u h hz => hz.spares h.spares)
      (fun s r z u h hz => hz.spares ?_) (fun s z hz hd _ hb hcz => ?_)
      (hframed.busy (fun _ => models_of_place) hstaging) hcradle
    · exact (E.den_building id s).spares (h.toChanges.mono fun l hl => .inl (hl ▸ List.prefix_refl _))
    · exact (E.den_building id s).spares (h.within.toChanges.mono fun l hl => .inl hl)
    · exact construct_rebuilt hE hR ht hk hpriv hz ⟨hd, hb, hcz⟩
  refine hsafe.weaken fun r z hz => ?_
  rcases hz with ⟨⟨err, rfl⟩, hb, hcz⟩ | ⟨hb, hr⟩
  · exact ⟨hb.framed, by simp, fun _ _ => hb.cache.wellFormed.bare hcz.absent⟩
  · exact ⟨hb.framed, hr⟩

end Compile

end CompiledModels
