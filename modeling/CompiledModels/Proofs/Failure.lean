import CompiledModels.Proofs.Compiling
import CompiledModels.Proofs.Sessions
import CompiledModels.Proofs.Table

/-!
A compile that fails: it leaves no entry, no loaded module, no directory of its own and no lock
behind, and says what went wrong first.
-/

namespace CompiledModels

open Files Program

variable {m : Machine} {E : Estate} {e : Engine} {tools : Invocation → Prop} {id : ModelIdentity}
  {source : String} {w : World} {y : Moment} {err : Error}

theorem World.get?_dropping {n k : Nat} {key key' : String} :
    ((w.dropping n key).registry k).get? key' =
      if k = n ∧ key' = key then none else (w.registry k).get? key' := by
  by_cases hn : n < w.registries.length
  · rw [dropping, registry_setRegistry hn]
    by_cases hk : k = n
    · subst hk
      simp [Registry.get?_erase]
    · simp [hk]
  · have hsame : w.dropping n key = w := by
      simp only [dropping, setRegistry]
      rw [List.set_eq_of_length_le (by omega)]
    rw [hsame]
    split
    case isTrue h =>
      obtain ⟨rfl, rfl⟩ := h
      simp [World.registry, hn, Registry.empty, Registry.get?]
    case isFalse => rfl

/-- All is as it was in `w` before a compile of `id`, but that nothing is kept of `id`. -/
structure Engine.Undone (e : Engine) (E : Estate) (id : ModelIdentity) (w w' : World) : Prop where
  entry : w'.files.Bare (E.cache.entry id)
  handle : (w'.registry e.registry).get? id.key = none
  staging : ∀ n, w'.files.get? (E.cache.staging ++ [n]) = w.files.get? (E.cache.staging ++ [n])
  temporary : ∀ k n, ¬E.loose ((E.temp k).root ++ [n]) →
    w'.files.get? ((E.temp k).root ++ [n]) = w.files.get? ((E.temp k).root ++ [n])
  locked : w'.locked = w.locked
  free : ∀ n, E.Numbers id n w'.files → n ∉ w'.locked
  entries : ∀ other, other ≠ id → w.files.Same w'.files (E.cache.entry other)
  handles : ∀ k key, ¬(k = e.registry ∧ key = id.key) →
    (w'.registry k).get? key = (w.registry k).get? key

theorem Estate.temp_outside (E : Estate) (k : Nat) (n s : String) :
    ¬E.cache.root ++ [s] <+: (E.temp k).root ++ [n] := by
  intro h
  rcases List.prefix_concat_iff.mp h with h | h
  · have hroot : E.cache.root = (E.temp k).root := (List.append_inj' h rfl).1
    exact E.outside k _ (.inl rfl) (hroot ▸ List.prefix_refl _)
  · exact E.outside k _ (.inl rfl) ((List.prefix_append _ _).trans h)

theorem Engine.Releases.undone {R : List Registry} (hr : e.Releases E id R ⟨w, []⟩ y)
    (hR : R = (w.dropping e.registry id.key).registries) (hb : y.files.Bare (E.cache.entry id))
    (htidy : ¬Littered e.cache w.environment True y) : e.Undone E id w y.world := by
  have hregistry (k : Nat) : y.world.registry k = (w.dropping e.registry id.key).registry k := by
    simp only [World.registry, hr.registries, hR]
  refine ⟨hb, ?_, fun n => ?_, fun k n hn => ?_, hr.locked, hr.free, fun other hne rest => ?_,
    fun k key hk => ?_⟩
  · rw [hregistry, World.get?_dropping, if_pos ⟨rfl, rfl⟩]
  · have hden := E.den_staging n
    rw [List.append_cons, ← Site.staging] at hden
    refine hr.spared _ hden.still (by simp) (fun hp => hden.apart _ (List.prefix_refl _) (Estate.models_of_place hp))
      fun _ => htidy
  · refine hr.spared _ ⟨hn, E.temp_outside k n _⟩ (fun h => ?_)
      (fun hp => E.temp_outside k n _ (Estate.models_of_place hp)) fun _ => htidy
    exact E.temp_outside k n ".staging" (h ▸ List.prefix_refl _)
  · exact hr.others hne rest
  · rw [hregistry, World.get?_dropping, if_neg hk]

/-- A compile that fails leaves nothing behind, whatever step of it fails, as long as temporary
directories can be removed. Its error is that of the first stage that has failed. -/
theorem compile_failure (hm : E.Orderly m tools) (hE : e.Settled E w.environment)
    (htools : ∀ i, e.Starts w.environment i → tools i) (hw : E.Calm w)
    (htidy : ¬Littered e.cache w.environment True y)
    (h : (e.compile id source).run.Ends (Step.flawed m) ⟨w, []⟩ (.error err) y) :
    ∃ p, Engine.FailsFirst (Step.flawed m) e id source ⟨w, []⟩ y err p ∧
      (p = .missed → w.files.Same y.files E.cache.models ∧ y.world.registries = w.registries) ∧
      (p.isCleared = true → e.Undone E id w y.world) := by
  have houtcome := compile_outcome (fun _ _ _ _ hr => hr) hm hE htools rfl hw (by simp [Arrived]) h
  cases houtcome with
  | refused hf ha _ hr =>
    refine ⟨.missed, hf, fun _ => ⟨fun rest => ha.files _ ?_, ?_⟩,
      by simp [Engine.Progress.isCleared]⟩
    · exact (E.still_models rest).2
    · obtain ⟨_, _, _, hr⟩ := hr
      rw [hr]
  | kept hf hr _ => exact ⟨.locked, hf, by simp, by simp [Engine.Progress.isCleared]⟩
  | @failed _ p _ hp hf hr hb =>
    refine ⟨p, hf, ?_, fun _ => hr.undone rfl hb htidy⟩
    rintro rfl
    cases hp

def Estate.small : Estate where
  cache := Site.top
  temp _ := ⟨[], [], by simp, Site.top.solid⟩
  kept _ := False
  outside := by simp [Site.Way, Site.top]
  apart := by
    rintro k s l (h | ⟨k', h⟩)
    · obtain rfl : l = ["c"] := by simpa [Site.Way, Site.top] using h
      intro hp
      have hs := congrArg String.toList (List.cons_prefix_cons.mp hp).1
      simp only [String.toList_append] at hs
      exact absurd (List.cons.inj hs).1 (by decide)
    · obtain rfl : l = [] := by simpa [Site.Way] using h
      simp

def Engine.plain : Engine :=
  { Engine.small with translator := { Engine.small.translator with
      scratchRoot := some Engine.small.cache.stagingDirectory } }

def World.bare : World :=
  { World.initial ⟨[(["c"], .directory)], 0⟩ ⟨[("TMPDIR", "/")], Site.path [], none, 1⟩ 0 with
    registries := [.empty] }

theorem Estate.small_sound {t : Tree} (hwf : t.WellFormed) (hroot : t.get? ["c"] = some .directory)
    (hlink : ∀ e ∈ t.entries, e.2.isLink = false)
    (hnumber : ∀ e ∈ t.entries, ∀ number c x, e.2 = .file number c x → number < t.nextNumber) :
    Estate.small.Sound t := by
  have hmem {l : Location} {n : Node} (hl : t.get? l = some n) (hn : n ≠ .directory) :
      (l, n) ∈ t.entries := by
    refine (hwf.get?_iff ?_).mp hl
    rintro rfl
    exact hn (Option.some.inj hl).symm
  refine ⟨⟨hwf, hroot, by simp [Estate.small, Site.top]⟩, fun k => ⟨hwf, rfl, by simp [Estate.small]⟩,
    fun l _ target hl => ?_, fun l number c x hl => ?_⟩
  · have hfalse := hlink _ (hmem hl (by simp))
    simp [Node.isLink] at hfalse
  · exact hnumber _ (hmem hl (by simp)) number c x rfl

theorem World.bare_calm : Estate.small.Calm World.bare := by
  refine ⟨Estate.small_sound ⟨by decide, by decide, by decide, by decide⟩ rfl (by decide) ?_, ?_⟩
  · simp [World.bare, World.initial]
  · simp [World.bare, World.initial]

theorem Engine.plain_settled : Engine.plain.Settled Estate.small World.bare.environment where
  serves := Site.serves_path Site.top _
  temp := ⟨0, by
    have hpath : Path.inDirectory World.bare.environment.directory
        World.bare.environment.temporaryDirectory = Site.path [] := by decide +kernel
    rw [hpath]
    exact (Site.serves_path (Estate.small.temp 0) _).leads⟩
  scratchRoot := rfl

def isUntranslated {α : Type} : Except Error α → Bool
  | .error (.translation _) => true
  | _ => false

theorem isUntranslated_iff {α : Type} {r : Except Error α} :
    isUntranslated r = true ↔ ∃ cause, r = .error (.translation cause) := by
  cases r with
  | ok a => simp [isUntranslated]
  | error err => cases err <;> simp [isUntranslated]

theorem compile_failure_small : ∃ cause y,
    (Engine.plain.compile .small "").run.Ends (Step.flawed .idle) ⟨.bare, []⟩
        (.error (.translation cause)) y ∧
      Engine.plain.Undone .small .small .bare y.world := by
  let entry : Path := Engine.plain.cache.entryDirectory .small
  obtain ⟨⟨r, y⟩, htrack, h⟩ := (Option.any_eq_true _ _).mp
    (show ((Engine.plain.compile .small "").run.track .idle ⟨.bare, []⟩).any (fun o =>
      isUntranslated o.1 && o.2.past.all (fun t => t.stumble?.all (· = entry))) = true by decide +kernel)
  simp only [Bool.and_eq_true, List.all_eq_true] at h
  obtain ⟨hr, hpast⟩ := h
  obtain ⟨cause, rfl⟩ := isUntranslated_iff.mp hr
  have hends := (Ends.of_track htrack).mono fun _ _ _ _ h => Step.flawed_of_answers h
  have htidy : ¬Littered Engine.plain.cache World.bare.environment True y := by
    intro hlitter
    obtain ⟨p, t, hscrap, ht, hst⟩ := hlitter trivial
    obtain ⟨names, hnames⟩ := Taken.stumble?_of_stumbles hst
    have hp := hpast t ht
    rw [hnames] at hp
    have htail : (p.joins names).tail = ["c", ModelIdentity.modelNamespace, "m"] := by
      rw [of_decide_eq_true hp]
      decide
    cases hscrap with
    | staging n =>
      have hfull : (Path.inDirectory World.bare.environment.directory Engine.plain.cache.root).tail =
          ["c"] := by decide +kernel
      rw [Path.joins_joins, Path.joins, hfull] at htail
      simp [ModelIdentity.modelNamespace] at htail
    | temp s =>
      have hfull : (Path.inDirectory World.bare.environment.directory
          World.bare.environment.temporaryDirectory).tail = [] := by decide +kernel
      rw [Path.joins_joins, Path.joins, hfull] at htail
      have hs := congrArg String.toList (List.cons.inj htail).1
      simp only [String.toList_append] at hs
      exact absurd (List.cons.inj hs).1 (by decide)
  have horderly : Estate.small.Orderly .idle fun _ => True := fun _ _ _ _ _ _ h => by
    simp [Machine.idle] at h
  have h := compile_failure horderly Engine.plain_settled (fun _ _ => trivial) World.bare_calm htidy
    hends
  obtain ⟨p, ⟨u, z, -, hf, -⟩, -, hundone⟩ := h
  have hp : p.isCleared = true := by
    cases p with
    | missed =>
      obtain ⟨cause', -, herr⟩ := hf
      cases herr
    | locked =>
      obtain ⟨cause', -, herr⟩ := hf
      cases herr
    | _ => rfl
  exact ⟨cause, y, hends, hundone hp⟩

end CompiledModels

namespace CompiledModels

open Files Program

variable {m : Machine} {E : Estate} {e : Engine} {tools : Invocation → Prop} {id : ModelIdentity}
  {source : String} {w w' : World}

section Compile

variable (hm : E.Orderly m tools) (hE : e.Settled E w.environment)
  (htools : ∀ i, e.Starts w.environment i → tools i) (hw : E.Calm w)
include hm hE htools hw

omit htools in
theorem compile_cached {c : Compiled} (h : (e.compile id source).run.run m w = some (.ok c, w'))
    (hc : c.cached = true) : w.Hit e.cache id c.diagnostics c.warnings := by
  obtain ⟨taken, hends⟩ := Program.Steps.of_run h []
  generalize hr : (Except.ok c : Except Error Compiled) = r at hends
  cases Engine.compile_ending hends with
  | found hfound =>
    obtain rfl := Except.ok.inj hr
    exact cached_hit hfound
  | @foundLocked hit n y z u _ hmiss hlock hfound =>
    obtain rfl := Except.ok.inj hr
    have hact (w : World) (s : Step) (r : s.Reply) (w' : World) (h : Step.answers m w s r w') :
        Step.flawed m w s r w' := Step.flawed_of_answers h
    cases hmiss with
    | missed hmiss =>
      obtain ⟨hcy, events, hy⟩ := looks_calm hact hmiss hw
      have henv : y.world.environment = w.environment := by rw [hy]; rfl
      obtain ⟨halters, hcz, -⟩ := lock_ends hact hm hE.serves hlock hcy henv
      have hez : z.world.environment = w.environment := halters.environment.trans henv
      refine (cached_hit hfound).kept (hez ▸ hE.serves) hcz hw hez.symm fun rest => ?_
      have hfiles : y.files = w.files := by rw [Moment.files, hy]; rfl
      rw [← hfiles]
      exact (halters.files _ (E.still_entry id rest).2).symm
  | locked => cases hr
  | cleared => cases hr
  | @built r' =>
    cases r' with
    | error err => cases hr
    | ok entry =>
      obtain rfl := Except.ok.inj hr
      simp at hc

theorem compile_ok {c : Compiled} (h : (e.compile id source).run.run m w = some (.ok c, w')) :
    (E.Calm w' ∧ w'.environment = w.environment) ∧ w'.Hit e.cache id c.diagnostics c.warnings ∧
      (c.cached = false → ∃ r : Record, r.output = c.diagnostics ∧ r.warnings = c.warnings ∧
        w'.files.Folder (E.cache.entry id) r.files) := by
  obtain ⟨taken, hends⟩ := Program.Steps.of_run h []
  have houtcome := compile_outcome (fun _ _ _ _ => Step.flawed_of_answers) hm hE htools rfl hw
    (by simp [Arrived]) hends
  obtain ⟨hcalm, henv, -⟩ := houtcome.others hw
  refine ⟨⟨hcalm, henv⟩, ?_⟩
  cases houtcome with
  | found hh ha hr =>
    refine ⟨?_, fun hc => by simp [hh] at hc⟩
    exact (compile_cached hm hE hw h hh).kept hE.serves hw hcalm henv fun rest =>
      ha.files _ (E.still_entry id rest).2
  | built hc hr hs =>
    obtain ⟨r, hout, hwarn, habi, hstocked⟩ := hs
    refine ⟨?_, fun _ => ⟨r, hout, hwarn, hstocked.folder⟩⟩
    rw [← hout, ← hwarn]
    exact hstocked.hit habi

/-- A compile is served from the cache just if the entry can be used, and then does nothing. If not,
and it succeeds, the entry has been replaced as a whole. Any later compile answers the same texts and
does nothing, whatever goes on until then, as long as the entry is not deleted. -/
theorem compile_heals (id : ModelIdentity) (source : String) :
    (∀ diagnostics warnings, w.Hit e.cache id diagnostics warnings → ∃ events,
      (e.compile id source).run.run m w = some (.ok ⟨diagnostics, warnings, true⟩, w.noting events)) ∧
    ∀ c w', (e.compile id source).run.run m w = some (.ok c, w') →
      (c.cached = true ↔ ∃ diagnostics warnings, w.Hit e.cache id diagnostics warnings) ∧
      (c.cached = false → ∃ r : Record, r.output = c.diagnostics ∧ r.warnings = c.warnings ∧
        w'.files.Folder (E.cache.entry id) r.files) ∧
      ∀ w'', Goes m E e.cache id w.environment w' w'' → ∀ (e' : Engine) source', e'.cache = e.cache →
        ∃ events, (e'.compile id source').run.run m w'' =
          some (.ok ⟨c.diagnostics, c.warnings, true⟩, w''.noting events) := by
  refine ⟨fun diagnostics warnings hit => compile_hit hit source, fun c w' h => ?_⟩
  obtain ⟨⟨hcalm, henv⟩, hit, hbuilt⟩ := compile_ok hm hE htools hw h
  refine ⟨⟨fun hc => ⟨_, _, compile_cached hm hE hw h hc⟩, ?_⟩, hbuilt, fun w'' hgoes e' source' he => ?_⟩
  · rintro ⟨diagnostics, warnings, hit⟩
    obtain ⟨events, hrun⟩ := compile_hit (m := m) hit source
    obtain ⟨hok, -⟩ := Prod.mk.inj (Option.some.inj (h.symm.trans hrun))
    rw [Except.ok.inj hok]
  · have hlater := (hgoes.hit hE.serves hcalm henv hit).2
    rw [← he] at hlater
    exact compile_hit hlater source'

end Compile

/-- A world with an entry for `ModelIdentity.small` that has lost its manifest and the warnings. -/
def World.kept : World :=
  { World.initial ⟨[(["c"], .directory), (["c", ModelIdentity.modelNamespace], .directory),
      (["c", ModelIdentity.modelNamespace, "m"], .directory),
      (["c", ModelIdentity.modelNamespace, "m", "stanbind_model_m_1.so"], .file 0 ⟨[1], 0⟩ true),
      (["c", ModelIdentity.modelNamespace, "m", Cache.buildOutputFile],
        .file 1 ⟨Text.encode "built", 0⟩ false)], 2⟩ World.bare.environment 0 with registries := [.empty] }

theorem World.kept_calm : Estate.small.Calm World.kept := by
  refine ⟨Estate.small_sound ⟨by decide +kernel, by decide +kernel, by decide +kernel, by decide +kernel⟩
    (by decide +kernel) (by decide +kernel) ?_, ?_⟩
  · simp [World.kept, World.initial]
  · simp [World.kept, World.initial]

def World.damaged : World :=
  { World.kept with files := { World.kept.files with entries := World.kept.files.entries.dropLast } }

theorem World.damaged_calm : Estate.small.Calm World.damaged := by
  refine ⟨Estate.small_sound ⟨by decide +kernel, by decide +kernel, by decide +kernel, by decide +kernel⟩
    (by decide +kernel) (by decide +kernel) ?_, ?_⟩
  · simp [World.damaged, World.kept, World.initial]
  · simp [World.damaged, World.kept, World.initial]

def Files.Tree.withFile (dir : Location) (name : String) (t : Tree) : Tree :=
  if t.get? dir = some .directory ∧ t.get? (dir ++ [name]) = none then
    t.insertFile (dir ++ [name]) ⟨[1], 0⟩ true
  else t

def Machine.target? (argument : String) : Option (String × String) :=
  match Path.segments argument with
  | [_, "c", ".staging", dir, name] =>
    if "build_".toList <+: dir.toList ∧ IsProper name then some (dir, name) else none
  | _ => none

def Machine.building : Machine where
  start _ _ i := .ok ⟨(i.arguments.filterMap target?).map fun (dir, name) =>
      (⟨0⟩, .files (Files.Tree.withFile ["c", ".staging", dir] name)),
    some (⟨0⟩, .code 0), some ⟨0⟩, some ⟨0⟩⟩
  load := Machine.loading.load

theorem Estate.small_tinkers {dir name : String} {t : Tree} (hdir : "build_".toList <+: dir.toList)
    (hname : IsProper name) (ht : Estate.small.Sound t) :
    Estate.small.Tinkers t (t.withFile ["c", ".staging", dir] name) := by
  rw [Tree.withFile]
  split
  case isFalse => exact .refl ht.cache.wellFormed
  case isTrue h =>
    have hget := Tree.get?_insertFile (t := t) (l := ["c", ".staging", dir] ++ [name])
      (c := ⟨[1], 0⟩) (x := true) (by simp)
    have hbuilds : Estate.small.builds (["c", ".staging", dir] ++ [name]) := by
      obtain ⟨rest, hrest⟩ := hdir
      refine ⟨String.ofList rest, [name], by simp, ?_⟩
      have hdir : dir = "build_" ++ String.ofList rest := String.toList_injective (by simp [← hrest])
      simp [hdir, Estate.small, Site.top]
    refine ⟨fun l hl => ?_, ht.cache.wellFormed.insertFile h.1 hname h.2, fun l hl => ?_,
      fun hn => hn.insertFile (by simp)⟩
    · rw [hget, if_neg]
      rintro rfl
      exact hl (.inl hbuilds)
    · rw [hget]
      split
      · exact .inr (.inr ⟨_, _, _, rfl⟩)
      · exact .inl rfl

theorem Machine.building_orderly (tools : Invocation → Prop) : Estate.small.Orderly .building tools := by
  rintro i - env t a - ha effect he change hchange t' ht
  obtain rfl := Except.ok.inj ha
  obtain ⟨⟨dir, name⟩, hmem, rfl⟩ := List.mem_map.mp he
  obtain ⟨argument, -, htarget⟩ := List.mem_filterMap.mp hmem
  obtain rfl : Files.Tree.withFile ["c", ".staging", dir] name = change := Effect.files.inj hchange
  rw [Machine.target?] at htarget
  split at htarget
  · split at htarget
    · rename_i h
      obtain ⟨rfl, rfl⟩ := Prod.mk.inj (Option.some.inj htarget)
      exact Estate.small_tinkers h.1 h.2 ht
    · simp at htarget
  · simp at htarget

/-- One entry is used as it is; another is replaced, and then used. -/
theorem compile_heals_small :
    (∃ c w', (Engine.plain.compile .small "").run.run .idle .kept = some (.ok c, w') ∧ c.cached = true ∧
      ∃ events, (Engine.plain.compile .small "other").run.run .idle w' =
        some (.ok ⟨c.diagnostics, c.warnings, true⟩, w'.noting events)) ∧
    ∃ c w', (Engine.plain.compile .small "").run.run .building .damaged = some (.ok c, w') ∧
      c.cached = false ∧ (∃ r : Record, w'.files.Folder (Estate.small.cache.entry .small) r.files) ∧
      ∃ events, (Engine.plain.compile .small "other").run.run .building w' =
        some (.ok ⟨c.diagnostics, c.warnings, true⟩, w'.noting events) := by
  constructor
  · have horderly : Estate.small.Orderly .idle fun _ => True := fun _ _ _ _ _ _ h => by
      simp [Machine.idle] at h
    have hheals := compile_heals (w := World.kept) horderly Engine.plain_settled (fun _ _ => trivial)
      World.kept_calm .small ""
    have hhit : (((Engine.plain.cached .small "").run .idle .kept).any fun o => o.1.isSome) = true := by
      decide +kernel
    obtain ⟨o, ⟨events, hrun⟩, ho⟩ := Engine.plain.cached_notes (m := .idle) .small "" World.kept
    rw [hrun] at hhit
    obtain ⟨c, rfl⟩ := Option.isSome_iff_exists.mp hhit
    have hit := ((ho c).mp rfl).1
    obtain ⟨events', hcompile⟩ := hheals.1 _ _ hit
    obtain ⟨-, -, hlater⟩ := hheals.2 _ _ hcompile
    exact ⟨_, _, hcompile, rfl, hlater _ .refl _ "other" rfl⟩
  · have hheals := compile_heals (w := World.damaged) (Machine.building_orderly fun _ => True)
      Engine.plain_settled (fun _ _ => trivial) World.damaged_calm .small ""
    obtain ⟨⟨r, w'⟩, hrun, hr⟩ := (Option.any_eq_true _ _).mp
      (show ((Engine.plain.compile .small "").run.run .building .damaged).any (fun o =>
        o.1.toOption.any (!·.cached)) = true by decide +kernel)
    cases r with
    | error err => simp [Except.toOption] at hr
    | ok c =>
      have hfresh : c.cached = false := by simpa [Except.toOption] using hr
      obtain ⟨-, hreplaced, hlater⟩ := hheals.2 _ _ hrun
      obtain ⟨record, -, -, hfolder⟩ := hreplaced hfresh
      exact ⟨c, w', hrun, hfresh, ⟨record, hfolder⟩, hlater _ .refl _ "other" rfl⟩

end CompiledModels
