import CompiledModels.Proofs.Exclusion
import CompiledModels.Proofs.Unhindered

/-!
A caller among others that compile the same model: what it may find between two steps, and what its
own steps do to the entry and to the lock.
-/

namespace CompiledModels

open Files Program

variable {m : Machine} {E : Estate} {env : Environment} {tools : Invocation → Prop} {e : Engine}
  {c : Cache} {id : ModelIdentity} {t t' t'' : Tree} {x y z : Moment} {source : String} {r : Record}
  {α : Type}

def Underway (past : List Taken) : Prop := ∃ t ∈ past, ∃ n key, t.step = .invalidate n key

theorem Underway.cons {past : List Taken} (h : Underway past) (t : Taken) : Underway (t :: past) := by
  obtain ⟨t', ht, h⟩ := h
  exact ⟨t', List.mem_cons_of_mem _ ht, h⟩

theorem Underway.of_cons {past : List Taken} {t : Taken} (h : Underway (t :: past))
    (ht : ∀ n key, t.step ≠ .invalidate n key) : Underway past := by
  obtain ⟨t', hm, n, key, hs⟩ := h
  rcases List.mem_cons.mp hm with rfl | hm
  · exact absurd hs (ht n key)
  · exact ⟨t', hm, n, key, hs⟩

namespace Estate

structure Whole (E : Estate) (id : ModelIdentity) (r : Record) (t : Tree) : Prop where
  folder : t.Folder (E.cache.entry id) r.files
  isName : ModuleFile.isName r.name = true
  abi : r.manifest.abi.toNat = abiVersion

theorem Whole.congr (h : E.Whole id r t) (hs : t.Same t' (E.cache.entry id)) : E.Whole id r t' :=
  ⟨h.folder.congr hs, h.isName, h.abi⟩

theorem Whole.present (h : E.Whole id r t) : t.get? (E.cache.entry id) ≠ none := by
  simp [h.folder.directory]

def Gains (E : Estate) (id : ModelIdentity) (t t' : Tree) : Prop :=
  t.Same t' (E.cache.entry id) ∨ t.get? (E.cache.entry id) = none ∧ ∃ r, E.Whole id r t'

theorem Gains.whole (h : E.Gains id t t') (hr : E.Whole id r t) : E.Whole id r t' := by
  rcases h with h | ⟨hnone, -⟩
  · exact hr.congr h
  · exact absurd hnone hr.present

theorem Gains.trans (h : E.Gains id t t') (h' : E.Gains id t' t'') : E.Gains id t t'' := by
  rcases h with h | ⟨hnone, r, hr⟩
  · rcases h' with h' | ⟨hnone, hr⟩
    · exact .inl fun rest => (h' rest).trans (h rest)
    · have hroot := h []
      rw [List.append_nil] at hroot
      exact .inr ⟨hroot.symm.trans hnone, hr⟩
  · exact .inr ⟨hnone, r, h'.whole hr⟩

def Settling (E : Estate) (id : ModelIdentity) (t : Tree) : Prop :=
  t.get? (E.cache.entry id) = none ∨ ∃ r, E.Whole id r t

theorem Settling.gains (h : E.Gains id t t') (ht : E.Settling id t) : E.Settling id t' := by
  rcases ht with hnone | ⟨r, hr⟩
  · rcases h with h | ⟨-, hr⟩
    · have hroot := h []
      rw [List.append_nil] at hroot
      exact .inl (hroot.trans hnone)
    · exact .inr hr
  · exact .inr ⟨r, h.whole hr⟩

structure Vacant (E : Estate) (id : ModelIdentity) (t : Tree) : Prop where
  absent : t.get? (E.cache.entry id) = none
  models : t.Spot E.cache.models
  staging : t.Spot E.cache.staging
  idle : E.Idle id t

def Ajar (E : Estate) (id : ModelIdentity) (t : Tree) : Prop :=
  ∀ n, t.get? (E.lock id) = some n → n.isFile = true

def lockers (E : Estate) : Location := E.cache.root ++ [".locks"]

structure Unbars (E : Estate) (id : ModelIdentity) (t t' : Tree) : Prop where
  spot : t.Spot E.lockers → t'.Spot E.lockers
  directory : t.get? E.lockers = some .directory → t'.get? E.lockers = some .directory
  link : t.NoLink E.lockers → t'.NoLink E.lockers
  ajar : E.Ajar id t → E.Ajar id t'

theorem Unbars.refl (t : Tree) : E.Unbars id t t := ⟨fun h => h, fun h => h, fun h => h, fun h => h⟩

theorem Unbars.trans (h : E.Unbars id t t') (h' : E.Unbars id t' t'') : E.Unbars id t t'' :=
  ⟨h'.spot ∘ h.spot, h'.directory ∘ h.directory, h'.link ∘ h.link, h'.ajar ∘ h.ajar⟩

theorem Unbars.of_get? (hd : t'.get? E.lockers = t.get? E.lockers)
    (hl : t'.get? (E.lock id) = t.get? (E.lock id)) : E.Unbars id t t' :=
  ⟨fun h => by simpa only [Tree.Spot, hd] using h, hd.trans, fun h target => hd ▸ h target,
    fun h n hn => h n (hl ▸ hn)⟩

structure Beside (E : Estate) (id : ModelIdentity) (x y : Moment) : Prop where
  past : y.past = x.past
  environment : y.world.environment = x.world.environment
  sound : E.Sound x.files → E.Sound y.files
  stands : E.cache.Stands x.files → E.cache.Stands y.files
  unbars : E.Unbars id x.files y.files
  gains : E.Gains id x.files y.files
  abides : held x.past ≠ [] → E.Abides x.files y.files

structure Joins (E : Estate) (id : ModelIdentity) (x y : Moment) : Prop where
  gains : E.Gains id x.files y.files
  begins : Underway y.past → Underway x.past ∨ held x.past ≠ [] ∧ x.files.get? (E.cache.entry id) = none
  builds : ∀ r, x.files.get? (E.cache.entry id) = none → E.Whole id r y.files → Underway x.past
  approaches : held x.past = [] → E.Abides x.files y.files ∧ E.Unbars id x.files y.files

end Estate

def Rules.joint (m : Machine) (E : Estate) (env : Environment) (id : ModelIdentity) : Rules where
  act w s r w' := Step.answers m w s r w' ∧ (E.Calm w ∧ w.environment = env) ∧
    ∀ n, s = .acquire n → E.Vacant id w.files ∨ ∃ r, E.Whole id r w.files
  rely := E.Beside id
  keep := E.Joins id
  refl _ := ⟨rfl, rfl, fun h => h, fun h => h, .refl _, .inl fun _ => rfl, fun _ => .refl _⟩
  trans h h' := ⟨h'.past.trans h.past, h'.environment.trans h.environment, h'.sound ∘ h.sound,
    h'.stands ∘ h.stands, h.unbars.trans h'.unbars, h.gains.trans h'.gains, fun hh =>
      (h.abides hh).trans (h'.abides (h.past ▸ hh))⟩

namespace Program

theorem isFile_eq (p : Path) : isFile p = .step (.stat p true) fun r => .done (r.toOption.any (·.isFile)) := by
  show Program.step _ _ = _
  congr
  funext r
  cases r <;> rfl

theorem isDirectory_eq (p : Path) :
    isDirectory p = .step (.stat p true) fun r => .done (r.toOption.any (·.isDirectory)) := by
  show Program.step _ _ = _
  congr
  funext r
  cases r <;> rfl

def textOf : Except FileError Bytes → Except FileError String
  | .error e => .error e
  | .ok bytes => (Text.decode? bytes).elim (.error .notText) .ok

theorem readText_eq (p : Path) : readText p = .step (.read p) fun r => .done (textOf r) := by
  show Program.step _ _ = _
  congr
  funext r
  cases r with
  | error e => rfl
  | ok bytes =>
    simp only [textOf, Program.bind]
    cases Text.decode? bytes <;> rfl

end Program

section Looking

structure Unspoilt (R : Rules) (m : Machine) (c : Cache) (id : ModelIdentity) (P : Moment → Prop) : Prop where
  stable : R.Stable P
  act : ∀ {w s r w'}, R.act w s r w' → Step.answers m w s r w'
  look : ∀ x s r w, P x → s.LooksAt c id → s.exec m x.world = some (r, w) →
    R.keep x (x.after s r w) ∧ P (x.after s r w)

variable {R : Rules} {P : Moment → Prop} {p : Program α} {s : Step} {f : s.Reply → α} {a : α} {S : Site}

theorem Unspoilt.single (h : Unspoilt R m c id P) (hp : p = .step s fun r => .done (f r))
    (hs : s.LooksAt c id) (ha : ∀ y, P y → ∀ r w, s.exec m y.world = some (r, w) → f r = a) (hx : P x) :
    R.Safe (fun b y => b = a ∧ P y) p x := by
  rw [hp, Rules.Safe.step_iff]
  intro y hy r w hr
  have hPy := h.stable _ _ hy hx
  obtain ⟨hkeep, hPz⟩ := h.look y s r w hPy hs (h.act hr)
  exact ⟨hkeep, Rules.Safe.done_iff.2 fun z hz => ⟨ha y hPy r w (h.act hr), h.stable _ _ hz hPz⟩⟩

variable (h : Unspoilt R m c id P) (hP : ∀ y, P y → Stocked S c id r y.world)
include h hP

theorem isFile_stocked (hx : P x) : R.Safe (fun b y => b = true ∧ P y)
    (isFile ((c.entryDirectory id).join r.name)) x := by
  refine h.single (isFile_eq _) ⟨rfl, .inr ⟨_, rfl⟩⟩ (fun y hy r' w hr => ?_) hx
  obtain ⟨number, hstat⟩ := (hP y hy).stat_file (f := (r.name, r.content, r.executable)) List.mem_cons_self
  obtain rfl := (Prod.mk.inj (Option.some.inj hr)).1
  rw [hstat]
  rfl

theorem isDirectory_stocked (hx : P x) : R.Safe (fun b y => b = true ∧ P y)
    (isDirectory (c.entryDirectory id)) x := by
  refine h.single (isDirectory_eq _) ⟨rfl, .inl rfl⟩ (fun y hy r' w hr => ?_) hx
  obtain rfl := (Prod.mk.inj (Option.some.inj hr)).1
  exact (hP y hy).isDirectory

theorem readText_stocked {name t : String} (ht : (name, t) ∈ r.texts) (hx : P x) :
    R.Safe (fun b y => b = .ok t ∧ P y) (readText ((c.entryDirectory id).join name)) x := by
  refine h.single (readText_eq _) ⟨_, rfl⟩ (fun y hy r' w hr => ?_) hx
  obtain rfl := (Prod.mk.inj (Option.some.inj hr)).1
  exact (hP y hy).text_file ht

theorem readArtifact_stocked {name t what : String} (ht : (name, t) ∈ r.texts) (hx : P x) :
    R.Safe (fun b y => b = .ok t ∧ P y) (c.readArtifact id name what).run x := by
  refine .liftThen (isDirectory_stocked h hP hx) fun b y hy => ?_
  obtain ⟨rfl, hy⟩ := hy
  exact .of (readText_stocked h hP ht hy) (fun a z hz => ⟨congrArg _ (Except.ok.inj hz.1), hz.2⟩)
    fun err z hz => by cases hz.1

theorem loadManifest_stocked (hx : P x) :
    R.Safe (fun b y => b = .ok r.manifest ∧ P y) (c.loadManifest id).run x := by
  refine .ofThen (readArtifact_stocked h hP (t := r.manifest.text) ?_ hx) (fun text y hy => ?_)
    fun err y hy => by cases hy.1
  · simp [Record.texts, Cache.texts]
  · obtain ⟨htext, hy⟩ := hy
    obtain rfl := Except.ok.inj htext
    refine .pure fun z hz => ⟨?_, h.stable _ _ hz hy⟩
    rw [Manifest.ofText_text]

theorem exists_stocked (hx : P x) : R.Safe (fun b y => b = true ∧ P y) (c.exists? id) x := by
  have hlist : R.Safe (fun o y => (∃ es, o = .ok es ∧ (es.map (·.name)).filter ModuleFile.isName = [r.name]) ∧
      P y) (perform (.list (c.entryDirectory id))) x := by
    apply Rules.Safe.perform
    intro y hy o w hr
    have hPy := h.stable _ _ hy hx
    obtain ⟨hkeep, hPz⟩ := h.look y _ o w hPy rfl (h.act hr)
    refine ⟨hkeep, fun z hz => ⟨?_, h.stable _ _ hz hPz⟩⟩
    obtain rfl := (Prod.mk.inj (Option.some.inj (h.act hr))).1
    have hnames := (hP y hPy).isName_names
    rw [World.names, (hP y hPy).list] at hnames
    exact ⟨_, (hP y hPy).list, hnames⟩
  have hpath : R.Safe (fun o y => o.isSome = true ∧ P y) (c.modulePath id) x := by
    refine hlist.next fun o y hy => ?_
    obtain ⟨⟨es, rfl, hes⟩, hy⟩ := hy
    simp only [hes]
    have hfiles : R.Safe (fun names y => names = [r.name] ∧ P y)
        (Cache.filesAmong (c.entryDirectory id) [r.name]) y := by
      refine (isFile_stocked h hP hy).next fun b z hz => ?_
      obtain ⟨rfl, hz⟩ := hz
      exact .pure fun u hu => ⟨rfl, h.stable _ _ hu hz⟩
    refine hfiles.next fun names z hz => .pure fun u hu => ?_
    obtain ⟨rfl, hz⟩ := hz
    exact ⟨rfl, h.stable _ _ hu hz⟩
  exact hpath.next fun o y hy => .pure fun z hz => ⟨hy.1, h.stable _ _ hz hy.2⟩

end Looking

section Looking

variable {R : Rules} {P : Moment → Prop} {S : Site}

theorem admits_stocked (h : Unspoilt R m c id P)
    (habi : r.manifest.abi.toNat = abiVersion) (hx : P x) :
    R.Safe (fun b y => b = true ∧ P y) (Engine.admits id source (.ok r.manifest)) x := by
  have hend {y : Moment} (hy : P y) : R.Safe (fun b y => b = true ∧ P y) (pure true) y :=
    .pure fun z hz => ⟨rfl, h.stable _ _ hz hy⟩
  simp only [Engine.admits, habi, ne_eq, not_true_eq_false, if_false]
  split
  · refine (h.single (s := .emit _) (a := ()) rfl trivial (fun _ _ _ _ _ => rfl) hx).next fun _ y hy => ?_
    exact hend hy.2
  · exact hend hx

theorem cached_stocked (h : Unspoilt R m e.cache id P)
    (hP : ∀ y, P y → Stocked S e.cache id r y.world) (habi : r.manifest.abi.toNat = abiVersion) (hx : P x) :
    R.Safe (fun o y => o = some ⟨r.output, r.warnings, true⟩ ∧ P y) (e.cached id source) x := by
  refine (exists_stocked h hP hx).next fun b y hy => ?_
  obtain ⟨rfl, hy⟩ := hy
  refine (readArtifact_stocked h hP (t := r.output) ?_ hy).next fun o z hz => ?_
  · simp [Record.texts, Cache.texts]
  obtain ⟨rfl, hz⟩ := hz
  refine (readArtifact_stocked h hP (t := r.warnings) ?_ hz).next fun o u hu => ?_
  · simp [Record.texts, Cache.texts]
  obtain ⟨rfl, hu⟩ := hu
  refine (loadManifest_stocked h hP hu).next fun o v hv => ?_
  obtain ⟨rfl, hv⟩ := hv
  refine (admits_stocked h habi hv).next fun b u hu => ?_
  obtain ⟨rfl, hu⟩ := hu
  refine (h.single (s := .emit _) (a := ()) rfl trivial (fun _ _ _ _ _ => rfl) hu).next fun _ y hy => ?_
  exact .pure fun z hz => ⟨rfl, h.stable _ _ hz hy.2⟩

end Looking

namespace Estate

structure Near (E : Estate) (c : Cache) (env : Environment) (id : ModelIdentity) (x : Moment) : Prop where
  sound : E.Sound x.files
  environment : x.world.environment = env
  lockers : x.files.Spot E.lockers
  ajar : E.Ajar id x.files
  settling : E.Settling id x.files
  arrived : ¬Arrived (c.entryDirectory id) x.past
  fresh : ¬Underway x.past

theorem Near.standing (h : E.Near c env id x) : Standing E.cache env x := ⟨h.sound.cache, h.environment⟩

theorem Near.stable : (Rules.joint m E env id).Stable (E.Near c env id) := fun _ _ h hx =>
  ⟨h.sound hx.sound, h.environment.trans hx.environment, h.unbars.spot hx.lockers, h.unbars.ajar hx.ajar,
    hx.settling.gains h.gains, h.past ▸ hx.arrived, h.past ▸ hx.fresh⟩

theorem Whole.stable : (Rules.joint m E env id).Stable fun y => E.Whole id r y.files :=
  fun _ _ h hx => h.gains.whole hx

theorem lock_eq (E : Estate) (id : ModelIdentity) : E.lock id = E.lockers ++ [id.name ++ ".lock"] := by
  simp [lock, lockers]

theorem lock_ne_lockers (E : Estate) (id : ModelIdentity) : E.lock id ≠ E.lockers := by
  simp [lock, lockers]

theorem still_not_lockers {l : Location} (h : E.Still l) (rest : List String) : l ≠ E.lockers ++ rest := by
  rintro rfl
  exact h.2 (List.prefix_append _ _)

theorem Abides.gains (h : E.Abides t t') : E.Gains id t t' :=
  .inl fun rest => h.kept _ (E.still_entry id rest)

structure Nears (E : Estate) (id : ModelIdentity) (x y : Moment) : Prop where
  sound : E.Sound y.files
  environment : y.world.environment = x.world.environment
  abides : E.Abides x.files y.files
  unbars : E.Unbars id x.files y.files
  past : ∃ t, y.past = t :: x.past ∧ ¬t.Moves ∧ ∀ n key, t.step ≠ .invalidate n key

theorem Nears.begun (h : E.Nears id x y) (hy : Underway y.past) : Underway x.past := by
  obtain ⟨t, hp, -, ht⟩ := h.past
  rw [hp] at hy
  exact hy.of_cons ht

theorem Nears.joins (h : E.Nears id x y) : E.Joins id x y := by
  refine ⟨h.abides.gains, fun hy => .inl (h.begun hy), fun r hnone hr => ?_, fun _ => ⟨h.abides, h.unbars⟩⟩
  have hentry := h.abides.kept _ (E.still_entry id [])
  rw [List.append_nil] at hentry
  exact absurd (hentry.trans hnone) hr.present

theorem Near.nears (h : E.Nears id x y) (hx : E.Near c env id x) : E.Near c env id y := by
  obtain ⟨t, hp, ht, -⟩ := h.past
  refine ⟨h.sound, h.environment.trans hx.environment, h.unbars.spot hx.lockers, h.unbars.ajar hx.ajar,
    hx.settling.gains h.abides.gains, ?_, fun hy => hx.fresh (h.begun hy)⟩
  rw [hp]
  exact fun ha => hx.arrived (ha.of_cons ht)

theorem nears_makeDirectory {p : Path} {r : (Step.makeDirectory p).Reply} {w : World}
    (hs : E.Sound w.files) (hr : (Step.makeDirectory p).exec m x.world = some (r, w))
    (h : Adds (· = E.lockers) x (x.after (.makeDirectory p) r w)) :
    E.Nears id x (x.after (.makeDirectory p) r w) := by
  have hadded : w.files.get? E.lockers = x.files.get? E.lockers ∨ w.files.get? E.lockers = some .directory := by
    obtain ⟨-, -, rfl⟩ | ⟨-, t, ht, rfl⟩ := Step.settles_of_onFiles (Option.some.inj hr)
    · exact .inl rfl
    · obtain ⟨l, -, hnone, rfl⟩ := Tree.makeDirectory_eq_ok.mp ht
      have hl : l ≠ [] := by
        rintro rfl
        simp at hnone
      rw [Tree.get?_insert hl]
      split
      · exact .inr rfl
      · exact .inl rfl
  have hlock : w.files.get? (E.lock id) = x.files.get? (E.lock id) := h.files _ (E.lock_ne_lockers id)
  refine ⟨hs, h.environment, ⟨fun l hl => h.files l ?_, h.wellFormed, fun l hl => .inl (h.files l ?_)⟩,
    ⟨fun hspot => ?_, fun hd => ?_, h.noLink, fun ha n hn => ha n (hlock ▸ hn)⟩, _, rfl, ?_, by simp⟩
  · simpa using still_not_lockers hl []
  · rintro rfl
    obtain ⟨s, rest, -, hl⟩ := hl
    simp [lockers] at hl
  · rcases hadded with he | he
    · simpa only [Tree.Spot, Moment.files, Moment.after_world, he] using hspot
    · exact .inr he
  · exact hadded.elim (fun he => he.trans hd) fun he => he
  · rintro ⟨_, _, ⟨⟩⟩

structure Idles (E : Estate) (id : ModelIdentity) (x y : Moment) : Prop extends E.Nears id x y where
  files : y.files = x.files
  held : held y.past = held x.past

theorem idles_prompt {s : Step} {r : s.Reply} {w : World} (hx : E.Sound x.files) (hs : s.isPrompt = true)
    (hr : s.exec m x.world = some (r, w)) : E.Idles id x (x.after s r w) := by
  have hw : w.files = x.files ∧ w.environment = x.world.environment ∧ ¬(Taken.mk s r).Moves ∧
      (∀ n key, s ≠ .invalidate n key) ∧ held (⟨s, r⟩ :: x.past) = held x.past := by
    cases s with
    | stat | list | read | drawSuffix | environment | emit =>
      obtain rfl := (Prod.mk.inj (Option.some.inj hr)).2
      exact ⟨rfl, rfl, by rintro ⟨_, _, ⟨⟩⟩, fun _ _ => by simp, rfl⟩
    | _ => simp [Step.isPrompt] at hs
  obtain ⟨hf, he, hn, hi, hh⟩ := hw
  have hf : (x.after s r w).files = x.files := hf
  exact ⟨⟨hf ▸ hx, he, hf ▸ .refl _, hf ▸ .refl _, _, rfl, hn, hi⟩, hf, hh⟩

theorem unspoilt {P : Moment → Prop} (hP : (Rules.joint m E env id).Stable P)
    (hi : ∀ x y, E.Idles id x y → P x → P y) (hs : ∀ y, P y → E.Sound y.files) :
    Unspoilt (Rules.joint m E env id) m c id P := by
  refine ⟨hP, fun h => h.1, fun x s r w hx hl hr => ?_⟩
  have h : E.Idles id x (x.after s r w) := idles_prompt (hs x hx) hl.isPrompt hr
  exact ⟨h.joins, hi _ _ h hx⟩

end Estate

open Estate

theorem Engine.cached_eq (e : Engine) (id : ModelIdentity) (source : String) : ∃ next,
    e.cached id source = .step (.list (e.cache.entryDirectory id)) next ∧
      ∀ err, next (.error err) = .done none :=
  ⟨_, rfl, fun _ => rfl⟩

section Caller

variable (hE : e.Settled E env) (hroom : e.cache.Roomy env id)
include hE hroom

omit hroom in
theorem Estate.Near.list_error (hx : E.Near e.cache env id x) (hnone : x.files.get? (E.cache.entry id) = none) :
    ∃ err, x.files.list x.world.directory (e.cache.entryDirectory id) = .error err := by
  cases hl : x.files.list x.world.directory (e.cache.entryDirectory id) with
  | error err => exact ⟨err, rfl⟩
  | ok es =>
    obtain ⟨l, hl, hd, -⟩ := Tree.list_eq_ok.mp hl
    rw [hx.standing.directory, Cache.entryDirectory_eq] at hl
    obtain ⟨rfl, -⟩ := hE.serves.leads.resolve_ok hx.sound.cache (by simp)
      (by simp [id.isPlain, show IsPlain ModelIdentity.modelNamespace by decide])
      (fun pre _ _ _ => hx.sound.clean _ (.inl (List.prefix_append _ _))) hl
    exact absurd (hnone.symm.trans hd) (by simp)

theorem Estate.Near.stocked (hx : E.Near e.cache env id x) (hr : E.Whole id r x.files) :
    Stocked E.cache e.cache id r x.world := by
  refine .of_folder (hx.environment ▸ hE.serves.leads) hx.sound.cache hr.folder hr.isName hroom.short_entry
    fun s hs => ?_
  rw [← r.names_eq] at hs
  obtain ⟨f, hf, rfl⟩ := List.mem_map.mp hs
  obtain ⟨number, hget⟩ := hr.folder.files f hf
  have hproper : IsProper f.1 := hx.sound.cache.wellFormed.proper_of_get? (by rw [hget]; simp) f.1 (by simp)
  rw [Cache.entryDirectory_eq]
  exact short_joins_join hroom.root (by decide) hroom.proper.2 hproper.2

theorem cached_joint {P : Moment → Prop} (hP : (Rules.joint m E env id).Stable P)
    (hi : ∀ x y, E.Idles id x y → P x → P y) (hnear : ∀ y, P y → E.Near e.cache env id y) (hx : P x) :
    (Rules.joint m E env id).Safe (fun o y => P y ∧
        (o = none ∧ (∃ u, P u ∧ u.files.get? (E.cache.entry id) = none) ∨
          ∃ r, E.Whole id r y.files ∧ o = some ⟨r.output, r.warnings, true⟩))
      (e.cached id source) x := by
  obtain ⟨next, heq, hnext⟩ := e.cached_eq id source
  have hun : Unspoilt (Rules.joint m E env id) m e.cache id P :=
    unspoilt hP hi fun y hy => (hnear y hy).sound
  rw [heq, Rules.Safe.step_iff]
  intro y hy o w hr
  have hPy := hP _ _ hy hx
  obtain ⟨hkeep, hPz⟩ := hun.look y _ o w hPy rfl (hun.act hr)
  rcases (hnear y hPy).settling with hnone | ⟨r, hr'⟩
  · obtain ⟨err, herr⟩ := (hnear y hPy).list_error hE hnone
    obtain rfl : o = .error err := (Prod.mk.inj (Option.some.inj hr.1)).1.symm.trans herr
    rw [hnext]
    exact ⟨hkeep, Rules.Safe.done_iff.2 fun z hz => ⟨hP _ _ hz hPz, .inl ⟨rfl, y, hPy, hnone⟩⟩⟩
  · have hun' : Unspoilt (Rules.joint m E env id) m e.cache id fun y => P y ∧ E.Whole id r y.files :=
      unspoilt (fun u v h hu => ⟨hP u v h hu.1, Whole.stable u v h hu.2⟩)
        (fun u v h hu => ⟨hi u v h hu.1, by rw [h.files]; exact hu.2⟩) fun u hu => (hnear u hu.1).sound
    have hfound : (Rules.joint m E env id).Safe _ (e.cached id source) y := cached_stocked hun'
      (fun u hu => (hnear u hu.1).stocked hE hroom hu.2) hr'.abi ⟨hPy, hr'⟩
    rw [heq, Rules.Safe.step_iff] at hfound
    refine ⟨hkeep, (hfound y ((Rules.joint m E env id).refl y) o w hr).2.weaken fun a z hz => ?_⟩
    exact ⟨hz.2.1, .inr ⟨r, hz.2.2, hz.1⟩⟩

end Caller

theorem Rules.Safe.adapt {R R' : Rules} {p : Program α} {post : α → Moment → Prop}
    {ok : ∀ s : Step, s.Reply → Prop} {P : Step → Prop} {Q : α → Prop} {J : Moment → Prop}
    (h : R.Safe post p x) (hp : p.Only ok P Q) (hx : J x) (hJ : R'.Stable J)
    (hrely : ∀ y z, J y → R'.rely y z → R.rely y z)
    (hact : ∀ y s r w, J y → P s → R'.act y.world s r w → ok s r ∧ R.act y.world s r w)
    (hkeep : ∀ y s r w, J y → P s → R'.act y.world s r w → R.keep y (y.after s r w) →
      R'.keep y (y.after s r w) ∧ J (y.after s r w)) :
    R'.Safe (fun a y => post a y ∧ J y) p x := by
  induction p generalizing x with
  | done a => exact done_iff.2 fun y hy => ⟨done_iff.1 h y (hrely x y hx hy), hJ x y hy hx⟩
  | step s next ih =>
    rw [step_iff] at h ⊢
    intro y hy r w hr
    have hJy := hJ x y hy hx
    obtain ⟨hok, hr'⟩ := hact y s r w hJy hp.1 hr
    obtain ⟨hk, hn⟩ := h y (hrely x y hx hy) r w hr'
    obtain ⟨hk', hJz⟩ := hkeep y s r w hJy hp.1 hr hk
    exact ⟨hk', ih r hn (hp.2 r hok) hJz⟩

namespace Estate

theorem Vacant.abides (h : E.Abides t t') (ht : E.Vacant id t) : E.Vacant id t' := by
  have hentry := h.kept _ (E.still_entry id [])
  have hmodels := h.kept _ (E.still_models [])
  have hstaging := h.kept _ E.still_staging
  rw [List.append_nil] at hentry hmodels
  refine ⟨hentry.trans ht.absent, ?_, ?_, fun s => ⟨?_, ?_⟩⟩
  · simpa only [Tree.Spot, hmodels] using ht.models
  · simpa only [Tree.Spot, hstaging] using ht.staging
  · exact (h.kept _ (E.still_building id s)).trans (ht.idle s).1
  · exact (h.kept _ (E.den_staging _).still).trans (ht.idle s).2

structure Owns (E : Estate) (c : Cache) (env : Environment) (id : ModelIdentity) (n : Nat)
    (B : Tree → Prop) (x : Moment) : Prop extends E.Near c env id x where
  held : held x.past = [n]
  entry : B x.files

theorem Owns.stable {n : Nat} {B : Tree → Prop} (hB : ∀ t t', E.Abides t t' → B t → B t') :
    (Rules.joint m E env id).Stable (E.Owns c env id n B) := fun x y h hx =>
  ⟨Near.stable (m := m) x y h hx.toNear, h.past ▸ hx.held, hB _ _ (h.abides (by simp [hx.held])) hx.entry⟩

theorem Owns.idles {n : Nat} {B : Tree → Prop} (h : E.Idles id x y) (hx : E.Owns c env id n B x) :
    E.Owns c env id n B y :=
  ⟨hx.toNear.nears h.toNears, h.held.trans hx.held, h.files ▸ hx.entry⟩

structure Comes (E : Estate) (c : Cache) (env : Environment) (id : ModelIdentity) (x : Moment) : Prop
    extends E.Near c env id x where
  held : held x.past = []

theorem Comes.stable : (Rules.joint m E env id).Stable (E.Comes c env id) := fun x y h hx =>
  ⟨Near.stable (m := m) x y h hx.toNear, h.past ▸ hx.held⟩

theorem ground_joint : Ground (Rules.joint m E env id) m E.cache True :=
  ⟨fun h => .inl h.1, fun _ _ _ _ _ h => h.1, fun h => h.past, fun h => h.environment, fun h => h.stands⟩

theorem room_lockers : Room (Rules.joint m E env id) E.lockers :=
  ⟨fun _ _ h => h.unbars.spot, fun _ _ h => h.unbars.directory, fun _ _ h => h.unbars.link⟩

end Estate

section Locking

variable (hE : e.Settled E env) (hroom : e.cache.Roomy env id)
include hE hroom

theorem createLockers_joint (hx : E.Comes e.cache env id x) :
    (Rules.joint m E env id).Safe (fun r y => (r = .ok () ∧ y.files.get? E.lockers = some .directory) ∧
      E.Comes e.cache env id y) (createAll e.cache.locksDirectory) x := by
  let R : Rules := (Rules.joint m E env id).keeping (Adds (· = E.lockers))
  have hsafe : R.Safe (Made E.cache env True ".locks") (createAll e.cache.locksDirectory) x :=
    createAll_made (R := R) (ground_joint.keeping _) (fun _ _ h => h) hE.serves.leads (by decide)
      (room_lockers.keeping _) (fun _ => ⟨by decide, short_join hroom.root (by decide)⟩) hE.serves.held
      hx.standing hx.lockers
  have hmakes : (createAll e.cache.locksDirectory).Only (Step.Credible env)
      (fun s => s.isPrompt = true ∨ ∃ q, s = .makeDirectory q) fun _ => True :=
    createUpTo_only (fun _ h => .inl h) _ fun q _ => .inr ⟨q, rfl⟩
  have hbehaves : Behaves E env (fun _ => False) (fun _ => True) (createAll e.cache.locksDirectory) :=
    createAll_behaves hE.serves (by decide)
  have hm : E.Orderly m fun _ => False := fun _ h => h.elim
  refine (hsafe.adapt (hbehaves.and hmakes) hx (Comes.stable (m := m)) (fun _ _ _ h => h) (fun y s r w _ _ hr =>
    ⟨?_, hr⟩) fun y s r w hy hs hr hk => ?_).weaken fun r y hy => ?_
  · exact hr.2.1.2 ▸ credible_of_exec hr.2.1.1.sound.cache.wellFormed hr.1
  · have hu := obeys_upholds hm hr.2.1.1 hr.2.1.2 hs.1 hr.1
    have hn : E.Nears id y (y.after s r w) := by
      rcases hs.2 with hp | ⟨q, rfl⟩
      · exact (idles_prompt hy.sound hp hr.1).toNears
      · exact nears_makeDirectory hu.calm.sound hr.1 hk
    exact ⟨hn.joins, hy.toNear.nears hn, (held_of_obeys hs.1).trans hy.held⟩
  · obtain ⟨⟨-, hd, herr⟩, hy⟩ := hy
    cases r with
    | ok _ => exact ⟨⟨rfl, hd rfl⟩, hy⟩
    | error err => exact absurd trivial (herr err rfl)

theorem openLockFile_joint (hx : E.Comes e.cache env id x)
    (hd : x.files.get? E.lockers = some .directory) :
    (Rules.joint m E env id).Safe (fun r y => (∃ n, r = .ok n) ∧ E.Comes e.cache env id y)
      (perform (.openLockFile (e.cache.lockFile id))) x := by
  refine Rules.Safe.perform (s := .openLockFile _) fun y hy r w hr => ?_
  have hcalm := hr.2.1.1
  have hy' := Comes.stable (m := m) x y hy hx
  have hdir := hy.unbars.directory hd
  have hspells : E.Spells y.world.environment.location (e.cache.lockFile id) (E.lock id) :=
    hr.2.1.2 ▸ spells_lock hE
  obtain ⟨hu, hnumbers⟩ := openLockFile_upholds hcalm hspells hr.1
  have hproper : IsProper (id.name ++ ".lock") := by
    refine ⟨id.plain_append ".lock", ?_⟩
    have hname := hroom.name
    have hlock : ".lock".utf8ByteSize = 5 := by decide
    rw [String.utf8ByteSize_append, hlock, Tree.maxNameLength]
    omega
  have hpath := Cache.lockFile_eq e.cache id
  have hresolve : y.files.resolve y.world.directory true (e.cache.lockFile id) = .ok (E.lock id) := by
    rw [hpath, hy'.standing.directory]
    refine (hE.serves.leads _ hy'.sound.cache).resolve_joins_to hy'.sound.cache.wellFormed (by simp)
      ?_ (fun pre _ _ _ => hy'.sound.clean _ (.inl (List.prefix_append _ _))) hdir
      (short_joins hroom.root (by decide) hproper.2)
    exact List.forall_mem_cons.mpr ⟨by decide, List.forall_mem_singleton.mpr hproper⟩
  obtain ⟨n, t, hopen⟩ : ∃ n t, y.files.openOrCreate y.world.directory (e.cache.lockFile id) = .ok (n, t) := by
    cases hnode : y.files.get? (E.lock id) with
    | none =>
      refine ⟨_, _, Tree.openOrCreate_eq_ok.mpr ⟨_, hresolve, .inr ⟨hnode, ?_, rfl, rfl⟩⟩⟩
      rw [hpath]
      exact Tree.demandsDirectory_joins (by simp)
    | some node =>
      have hfile := hy'.ajar node hnode
      cases node with
      | file number c b =>
        exact ⟨_, _, Tree.openOrCreate_eq_ok.mpr ⟨_, hresolve, .inl ⟨c, b, hnode, rfl⟩⟩⟩
      | _ => simp [Node.isFile] at hfile
  have hexec := hr.1
  simp only [Step.answers, Step.exec, Moment.files] at hexec hopen
  rw [hopen] at hexec
  obtain ⟨rfl, rfl⟩ := Prod.mk.inj (Option.some.inj hexec)
  have hothers (l : Location) (hl : l ≠ E.lock id) : t.get? l = y.files.get? l := by
    obtain ⟨k, hk, ht⟩ := Tree.openOrCreate_eq_ok.mp hopen
    obtain rfl : E.lock id = k := Except.ok.inj (hresolve.symm.trans hk)
    rcases ht with ⟨-, -, -, rfl⟩ | ⟨-, -, -, rfl⟩
    · rfl
    · rw [Tree.get?_insertFile (by simp [lock]), if_neg hl]
  have hlockers := hothers _ (E.lock_ne_lockers id).symm
  have hn : E.Nears id y (y.after (.openLockFile (e.cache.lockFile id)) (.ok n) { y.world with files := t }) := by
    refine ⟨hu.calm.sound, hu.environment, ⟨fun l hl => hothers l ?_, fun _ => hu.calm.sound.cache.wellFormed,
      fun l hl => .inl (hothers l ?_)⟩, ⟨fun h => ?_, hlockers.trans, fun h target => ?_, fun _ node hnode => ?_⟩,
      _, rfl, ?_, by simp⟩
    · exact lock_eq E id ▸ still_not_lockers hl _
    · rintro rfl
      obtain ⟨s, rest, -, hl⟩ := hl
      simp [lock] at hl
    · simpa only [Tree.Spot, Moment.files, Moment.after_world, hlockers] using h
    · exact hlockers ▸ h target
    · obtain ⟨c, b, hfile⟩ := hnumbers n rfl
      obtain rfl := Option.some.inj (hfile.symm.trans hnode)
      rfl
    · rintro ⟨_, _, he⟩
      cases congrArg Taken.step he
  have hz : E.Comes e.cache env id (y.after (.openLockFile (e.cache.lockFile id)) (.ok n)
      { y.world with files := t }) := ⟨hy'.toNear.nears hn, hy'.held⟩
  exact ⟨hn.joins, fun z hz' => ⟨⟨n, rfl⟩, Comes.stable (m := m) _ _ hz' hz⟩⟩

omit hE hroom in
theorem acquire_joint {n : Nat} (hx : E.Comes c env id x) :
    (Rules.joint m E env id).Safe (fun r y => r = .ok () ∧
        (E.Owns c env id n (E.Vacant id) y ∨ ∃ r, E.Owns c env id n (E.Whole id r) y))
      (perform (.acquire n)) x := by
  refine Rules.Safe.perform (s := .acquire n) fun y hy r w hr => ?_
  have hy' := Comes.stable (m := m) x y hy hx
  have hexec := hr.1
  simp only [Step.answers, Step.exec] at hexec
  split at hexec
  · cases hexec
  obtain ⟨rfl, rfl⟩ := Prod.mk.inj (Option.some.inj hexec)
  have hn : E.Nears id y (y.after (.acquire n) (.ok ()) { y.world with locked := n :: y.world.locked }) := by
    refine ⟨hy'.sound, rfl, .refl _, .refl _, _, rfl, ?_, by simp⟩
    rintro ⟨_, _, he⟩
    cases congrArg Taken.step he
  have hheld : held (y.after (.acquire n) (.ok ()) { y.world with locked := n :: y.world.locked }).past = [n] := by
    simp [CompiledModels.held, hy'.held]
  refine ⟨hn.joins, fun z hz => ⟨rfl, ?_⟩⟩
  rcases hr.2.2 n rfl with hv | ⟨r, hr⟩
  · exact .inl (Owns.stable (m := m) (fun _ _ => Vacant.abides) _ z hz ⟨hy'.toNear.nears hn, hheld, hv⟩)
  · exact .inr ⟨r, Owns.stable (m := m) (fun _ _ h hr => h.gains.whole hr) _ z hz
      ⟨hy'.toNear.nears hn, hheld, hr⟩⟩

theorem lock_joint (hx : E.Comes e.cache env id x) :
    (Rules.joint m E env id).Safe (fun r y => ∃ n, r = .ok n ∧
        (E.Owns e.cache env id n (E.Vacant id) y ∨ ∃ r, E.Owns e.cache env id n (E.Whole id r) y))
      (e.cache.lock id).run x := by
  refine .ofThen (createLockers_joint hE hroom hx).settled (fun _ y hy => ?_) fun err y hy => ?_
  · obtain ⟨⟨-, hd⟩, hy⟩ := hy y ((Rules.joint m E env id).refl y)
    refine .ofThen (openLockFile_joint hE hroom hy hd) (fun n z hz => ?_) fun err z hz => ?_
    · refine .ofThen (acquire_joint hz.2).settled (fun _ u hu => .pure fun v hv => ⟨n, rfl, (hu v hv).2⟩)
        fun err u hu => ?_
      exact absurd (hu u ((Rules.joint m E env id).refl u)).1 (by simp)
    · simp at hz
  · exact absurd (hy y ((Rules.joint m E env id).refl y)).1.1 (by simp)

end Locking

def Rules.building (m : Machine) (E : Estate) (env : Environment) (tools : Invocation → Prop) (c : Cache)
    (id : ModelIdentity) : Rules where
  act w s r w' := Step.answers m w s r w' ∧ (E.Calm w ∧ w.environment = env) ∧ s.Obeys E env tools
  rely x y := E.Rests x y ∧ y.past = x.past
  keep := E.Posting c id
  refl x := ⟨⟨.refl _, rfl, [], rfl, by simp⟩, rfl⟩
  trans h h' := by
    obtain ⟨taken, hp, hn⟩ := h.1.past
    refine ⟨⟨h.1.files.trans h'.1.files, h'.1.environment.trans h.1.environment, taken, ?_, hn⟩,
      h'.2.trans h.2⟩
    exact h'.2.trans hp

theorem Workplace.building (hm : E.Orderly m tools) :
    Workplace (.building m E env tools c id) E m env tools :=
  ⟨fun h => .inl h.1, fun h => ⟨h.2.1.1, h.2.1.2, h.2.2⟩, hm, fun h => h.1, fun h => h.2⟩

namespace Estate

structure Begins (E : Estate) (env : Environment) (n : Nat) (x : Moment) : Prop where
  sound : E.Sound x.files
  environment : x.world.environment = env
  held : held x.past = [n]
  begun : Underway x.past

theorem Begins.beside {n : Nat} (h : E.Beside id x y) (hx : E.Begins env n x) : E.Begins env n y :=
  ⟨h.sound hx.sound, h.environment.trans hx.environment, h.past ▸ hx.held, h.past ▸ hx.begun⟩

theorem Begins.abides {n : Nat} (hx : E.Begins env n x) (h : E.Beside id x y) : E.Abides x.files y.files :=
  h.abides (by simp [hx.held])

theorem Begins.standing {n : Nat} (hx : E.Begins env n x) : Standing E.cache env x :=
  ⟨hx.sound.cache, hx.environment⟩

theorem Begins.joins {n : Nat} (hx : E.Begins env n x) (h : E.Gains id x.files y.files) : E.Joins id x y :=
  ⟨h, fun _ => .inl hx.begun, fun _ _ _ => hx.begun, fun hheld => by simp [hx.held] at hheld⟩

theorem Begins.obeys {n : Nat} {s : Step} {r : s.Reply} {w : World} (hm : E.Orderly m tools)
    (hx : E.Begins env n x) (hw : E.Calm x.world) (hs : s.Obeys E env tools)
    (hr : s.exec m x.world = some (r, w)) : E.Begins env n (x.after s r w) := by
  have hu := obeys_upholds hm hw hx.environment hs hr
  exact ⟨hu.calm.sound, hu.environment.trans hx.environment, (held_of_obeys hs).trans hx.held,
    Underway.cons hx.begun _⟩

structure Clears (E : Estate) (c : Cache) (env : Environment) (id : ModelIdentity) (n : Nat) (x : Moment) :
    Prop extends E.Begins env n x where
  vacant : E.Vacant id x.files
  arrived : ¬Arrived (c.entryDirectory id) x.past

theorem Clears.stable {n : Nat} : (Rules.joint m E env id).Stable (E.Clears c env id n) := fun _ _ h hx =>
  ⟨hx.toBegins.beside h, hx.vacant.abides (hx.toBegins.abides h), h.past ▸ hx.arrived⟩

structure Builds (E : Estate) (c : Cache) (env : Environment) (id : ModelIdentity) (n : Nat) (x : Moment) :
    Prop extends E.Begins env n x where
  entry : x.files.get? (E.cache.entry id) = none ∨
    (∃ r, E.Whole id r x.files) ∧ Arrived (c.entryDirectory id) x.past

theorem Builds.stable {n : Nat} : (Rules.joint m E env id).Stable (E.Builds c env id n) := fun _ _ h hx => by
  have habides := hx.toBegins.abides h
  have hentry := habides.kept _ (E.still_entry id [])
  rw [List.append_nil] at hentry
  refine ⟨hx.toBegins.beside h, ?_⟩
  rcases hx.entry with hnone | ⟨⟨r, hr⟩, ha⟩
  · exact .inl (hentry.trans hnone)
  · exact .inr ⟨⟨r, habides.gains.whole hr⟩, h.past ▸ ha⟩

theorem Posting.gains {n : Nat} (hx : E.Builds c env id n x) (hp : ∃ s, y.past = s :: x.past)
    (h : E.Posting c id x y) :
    E.Gains id x.files y.files ∧ (y.files.get? (E.cache.entry id) = none ∨
      (∃ r, E.Whole id r y.files) ∧ Arrived (c.entryDirectory id) y.past) := by
  have hmono (ha : Arrived (c.entryDirectory id) x.past) : Arrived (c.entryDirectory id) y.past := by
    obtain ⟨s, hp⟩ := hp
    obtain ⟨a, ha⟩ := ha
    exact ⟨a, hp ▸ List.mem_cons_of_mem _ ha⟩
  have hsame (hs : x.files.Same y.files (E.cache.entry id)) :
      E.Gains id x.files y.files ∧ (y.files.get? (E.cache.entry id) = none ∨
        (∃ r, E.Whole id r y.files) ∧ Arrived (c.entryDirectory id) y.past) := by
    refine ⟨.inl hs, ?_⟩
    rcases hx.entry with hnone | ⟨⟨r, hr⟩, ha⟩
    · have hroot := hs []
      rw [List.append_nil] at hroot
      exact .inl (hroot.trans hnone)
    · exact .inr ⟨⟨r, hr.congr hs⟩, hmono ha⟩
  have habsent (ha : ¬Arrived (c.entryDirectory id) x.past) : x.files.get? (E.cache.entry id) = none :=
    hx.entry.resolve_right fun h => ha h.2
  cases h with
  | spares h =>
    refine hsame fun rest => ?_
    rw [Site.entry_eq, List.append_assoc]
    exact h _
  | @publishing d _ output warnings manifest hd hn hm hZ h =>
    cases h with
    | other h => exact hsame fun rest => h.files _ (hZ id rest)
    | aside b _ _ ha _ hl =>
      refine hsame fun rest => ?_
      rcases hl with hl | hl
      · exact (hl rest).trans (hx.sound.cache.wellFormed.bare (habsent ha) rest).symm
      · rw [hl]
    | publish a hp ha _ _ hd' _ =>
      obtain ⟨content, b, -, hfolder⟩ := hd'
      have hwhole : E.Whole id ⟨d.name, content, b, output, warnings, manifest⟩ y.files :=
        ⟨by rwa [hd] at hfolder, hn, hm⟩
      exact ⟨.inr ⟨habsent ha, _, hwhole⟩, .inr ⟨⟨_, hwhole⟩, a, hp ▸ List.mem_cons_self⟩⟩

end Estate

structure Estate.Ended (E : Estate) (e : Engine) (env : Environment) (id : ModelIdentity)
    (r : Except Error Compiled) (x : Moment) : Prop where
  held : held x.past = []
  whole : ∀ c, r = .ok c → ∃ r, E.Whole id r x.files ∧ (c.diagnostics = r.output ∧ c.warnings = r.warnings) ∧
    (c.cached = false ↔ Underway x.past)
  tools : ∀ err, r = .error err → ∃ s, err.OfTools ((Path.inDirectory env.directory e.cache.root).joins
    [".staging", "build_" ++ id.name ++ "_" ++ s])

theorem Estate.Ended.stable {r : Except Error Compiled} :
    (Rules.joint m E env id).Stable (E.Ended e env id r) := fun _ _ h hx => by
  refine ⟨h.past ▸ hx.held, fun c hr => ?_, hx.tools⟩
  obtain ⟨r, hwhole, htexts, hcached⟩ := hx.whole c hr
  exact ⟨r, h.gains.whole hwhole, htexts, h.past ▸ hcached⟩

theorem unlock_joint {n : Nat} (hx : held x.past = [n]) :
    (Rules.joint m E env id).Safe (fun _ y => held y.past = [] ∧ (Underway y.past ↔ Underway x.past) ∧
      ∀ r, E.Whole id r x.files → E.Whole id r y.files) (Cache.unlock n) x := by
  refine Rules.Safe.perform (s := .release n) fun y hy r w hr => ?_
  obtain rfl := (Prod.mk.inj (Option.some.inj hr.1)).2
  have hbegun : Underway (⟨.release n, r⟩ :: y.past) ↔ Underway y.past :=
    ⟨fun h => h.of_cons (by simp), fun h => h.cons _⟩
  have hheld : held y.past = [n] := hy.past ▸ hx
  refine ⟨⟨.inl fun _ => rfl, fun h => .inl (hbegun.mp h), fun r hnone hr => absurd hnone hr.present,
    fun h => by simp [hheld] at h⟩, fun z hz => ⟨?_, ?_, fun r hr => hz.gains.whole (hy.gains.whole hr)⟩⟩
  · rw [hz.past]
    simp [held, hheld]
  · rw [hz.past, ← hy.past]
    exact hbegun

section Compile

variable (hE : e.Settled E env) (hroom : e.cache.Roomy env id)
include hE hroom

omit hE hroom in
theorem invalidate_joint {n k : Nat} {key : String} (hx : E.Owns c env id n (E.Vacant id) x) :
    (Rules.joint m E env id).Safe (fun _ y => E.Clears c env id n y) (perform (.invalidate k key)) x := by
  refine Rules.Safe.perform (s := .invalidate k key) fun y hy r w hr => ?_
  have hy' := Owns.stable (m := m) (fun _ _ => Vacant.abides) x y hy hx
  have hd := idle_drifts rfl hr.2.1.1 (by simp) hr.1
  have hu := Upholds.drifts hr.2.1.1 hd
  have habides : E.Abides y.files (y.after (.invalidate k key) r w).files := hd.files.abides
  refine ⟨⟨habides.gains, fun _ => .inr ⟨by simp [hy'.held], hy'.entry.absent⟩, fun r hnone hr => ?_,
    fun h => by simp [hy'.held] at h⟩, fun z hz => Clears.stable (m := m) _ z hz ⟨⟨hu.calm.sound,
      hu.environment.trans hy'.environment, hy'.held, ⟨_, List.mem_cons_self, k, key, rfl⟩⟩,
      hy'.entry.abides habides, ?_⟩⟩
  · exact absurd ((hy'.entry.abides habides).absent) hr.present
  · refine fun ha => hy'.arrived (ha.of_cons ?_)
    rintro ⟨_, _, he⟩
    cases congrArg Taken.step he

theorem delete_joint {n : Nat} (hx : E.Clears e.cache env id n x) :
    (Rules.joint m E env id).Safe (fun r y => r = .ok () ∧ E.Clears e.cache env id n y)
      (e.cache.delete id).run x := by
  have hstat : (Rules.joint m E env id).Safe (fun r y => r = .error (.os .noEntry) ∧ E.Clears e.cache env id n y)
      (perform (.stat (e.cache.entryDirectory id) false)) x := by
    refine Rules.Safe.perform (s := .stat _ false) fun y hy r w hr => ?_
    have hy' := Clears.stable (m := m) x y hy hx
    have hserves : E.cache.Serves y.world.environment e.cache.root := hy'.environment ▸ hE.serves
    have habsent := stat_absent hserves hy'.sound.cache hy'.vacant.models ⟨hroom.proper, hroom.short_entry⟩
      hy'.vacant.absent
    have hi : E.Idles id y (y.after (.stat (e.cache.entryDirectory id) false) r w) :=
      idles_prompt hy'.sound rfl hr.1
    obtain ⟨rfl, rfl⟩ := Prod.mk.inj (Option.some.inj hr.1)
    refine ⟨hi.joins, fun z hz => ⟨habsent, Clears.stable (m := m) _ z hz ⟨⟨hy'.sound, hy'.environment,
      hy'.held, hy'.begun.cons _⟩, hy'.vacant, ?_⟩⟩⟩
    refine fun ha => hy'.arrived (ha.of_cons ?_)
    rintro ⟨_, _, he⟩
    cases congrArg Taken.step he
  have hremove : (Rules.joint m E env id).Safe (fun r y => r = .error (.os .noEntry) ∧
      E.Clears e.cache env id n y) (removeAll (e.cache.entryDirectory id)) x := by
    refine hstat.next fun r y hy => ?_
    obtain ⟨rfl, hy⟩ := hy
    exact .pure fun z hz => ⟨rfl, Clears.stable (m := m) y z hz hy⟩
  refine .liftThen hremove fun r y hy => ?_
  obtain ⟨rfl, hy⟩ := hy
  exact .pure fun z hz => ⟨rfl, Clears.stable (m := m) y z hz hy⟩

variable (hm : E.Orderly m (e.Starts env))
include hm

theorem compileModel_joint {n : Nat} (source : String) (hx : E.Clears e.cache env id n x) :
    (Rules.joint m E env id).Safe (fun r y => E.Begins env n y ∧
        (∀ entry, r = .ok entry → ∃ r, E.Whole id r y.files ∧
          entry.buildOutput = r.output ∧ entry.warnings = r.warnings) ∧
        ∀ err, r = .error err → ∃ s, err.OfTools ((Path.inDirectory env.directory e.cache.root).joins
          [".staging", "build_" ++ id.name ++ "_" ++ s]))
      (e.cache.compileModel id source e.translator e.builder).run x := by
  let R : Rules := .building m E env (e.Starts env) e.cache id
  have hR : Workplace R E m env (e.Starts env) := .building hm
  have htemp (k : Nat) : Standing (E.temp k) env x := ⟨hx.sound.temp k, hx.environment⟩
  have hcradle : E.Cradle e.cache id x := ⟨hx.vacant.models, hx.vacant.absent, hx.arrived⟩
  let p : Program (Except Error CompiledEntry) := (e.cache.compileModel id source e.translator e.builder).run
  have honly : Behaves E env (e.Starts env) (fun _ => True) p := compileModel_behaves hE fun _ h => h
  have hsafe : R.Safe _ p x := compileModel_rebuilt (G := False) hE hR
    hx.sound.cache.wellFormed (fun _ _ h => h) False.elim ⟨hx.standing, htemp, fun _ _ _ _ _ => rfl⟩
    hx.vacant.staging hcradle
  have hsure : R.free.Safe _ p x := compileModel_error_ofTools hE hR (fun h => h.1) hroom hx.standing
    htemp hx.vacant.staging hcradle hx.vacant.idle
  -- What the program is made of matters no more.
  change (Rules.joint m E env id).Safe _ p x
  clear_value p
  refine ((hsafe.also hsure).adapt (J := E.Builds e.cache env id n) honly
    ⟨hx.toBegins, .inl hx.vacant.absent⟩ (Builds.stable (m := m))
    (fun y z hy h => ⟨⟨hy.toBegins.abides h, h.environment, [], h.past, by simp⟩, h.past⟩)
    (fun y s r w _ hs hr => ⟨hr.2.1.2 ▸ credible_of_exec hr.2.1.1.sound.cache.wellFormed hr.1,
      hr.1, hr.2.1, hs⟩) fun y s r w hy hs hr hk => ?_).weaken fun r y hy => ?_
  · obtain ⟨hgains, hentry⟩ := hk.gains hy ⟨_, rfl⟩
    exact ⟨hy.toBegins.joins hgains, hy.toBegins.obeys hm hr.2.1.1 hs hr.1, hentry⟩
  · obtain ⟨⟨⟨-, hrebuilt⟩, htools⟩, hy⟩ := hy
    refine ⟨hy.toBegins, fun entry hr => ?_, htools⟩
    obtain ⟨name, hposted⟩ := hrebuilt.posted entry hr
    obtain ⟨content, b, hfolder⟩ := hposted.folder
    exact ⟨⟨name, content, b, entry.buildOutput, entry.warnings, entry.manifest⟩,
      ⟨hfolder, hposted.isName, hposted.abi⟩, rfl, rfl⟩

omit hm in
theorem approach_joint (hx : E.Comes e.cache env id x) :
    (Rules.joint m E env id).Safe (fun r y => (∀ a, r = .error a → E.Ended e env id a y) ∧
        ∀ n, r = .ok n → E.Clears e.cache env id n y) (e.approach id source) x := by
  have hanswer {a : Except Error Compiled} {y : Moment} (hy : E.Ended e env id a y) :
      (Rules.joint m E env id).Safe (fun (r : Except (Except Error Compiled) Nat) y =>
        (∀ a, r = .error a → E.Ended e env id a y) ∧ ∀ n, r = .ok n → E.Clears e.cache env id n y)
        (pure (.error a)) y :=
    .pure fun z hz => ⟨fun _ h => Except.error.inj h ▸ Ended.stable (m := m) y z hz hy, by simp⟩
  have hhit {r : Record} {y : Moment} (hr : E.Whole id r y.files) (hh : held y.past = [])
      (hb : ¬Underway y.past) : E.Ended e env id (.ok ⟨r.output, r.warnings, true⟩) y := by
    refine ⟨hh, ?_, by simp⟩
    rintro c ⟨⟩
    exact ⟨r, hr, ⟨rfl, rfl⟩, by simpa using hb⟩
  refine (cached_joint hE hroom (Comes.stable (m := m)) (fun _ _ h hy => ⟨hy.toNear.nears h.toNears,
    h.held.trans hy.held⟩) (fun _ hy => hy.toNear) hx).next fun o y hy => ?_
  obtain ⟨hy, ⟨rfl, -⟩ | ⟨r, hr, rfl⟩⟩ := hy
  swap
  · exact hanswer (hhit hr hy.held hy.fresh)
  refine (lock_joint hE hroom hy).next fun o z hz => ?_
  obtain ⟨n, rfl, hz | ⟨r, hz⟩⟩ := hz
  · refine (cached_joint hE hroom (Owns.stable (m := m) fun _ _ => Vacant.abides)
      (fun _ _ h hu => Owns.idles h hu) (fun _ hu => hu.toNear) hz).next fun o u hu => ?_
    obtain ⟨hu, ⟨rfl, -⟩ | ⟨r, hr, rfl⟩⟩ := hu
    swap
    · exact absurd hu.entry.absent hr.present
    refine (invalidate_joint hu).next fun _ v hv => (delete_joint hE hroom hv).next fun r o ho => ?_
    obtain ⟨rfl, ho⟩ := ho
    refine .pure fun z hz => ⟨by simp, ?_⟩
    rintro n ⟨⟩
    exact Clears.stable (m := m) o z hz ho
  · refine (cached_joint hE hroom (Owns.stable (m := m) fun _ _ h hr => h.gains.whole hr)
      (fun _ _ h hu => Owns.idles h hu) (fun _ hu => hu.toNear) hz).next fun o u hu => ?_
    obtain ⟨hu, ⟨rfl, v, hv, hnone⟩ | ⟨r', hr', rfl⟩⟩ := hu
    · exact absurd hnone hv.entry.present
    · refine (unlock_joint hu.held).next fun _ v hv => ?_
      exact hanswer (hhit (hv.2.2 r' hr') hv.1 fun h => hu.fresh (hv.2.1.mp h))

omit hE hroom hm in
theorem conclude_joint {n : Nat} {r : Except Error CompiledEntry} (hx : E.Begins env n x)
    (hok : ∀ entry, r = .ok entry → ∃ r, E.Whole id r x.files ∧
      entry.buildOutput = r.output ∧ entry.warnings = r.warnings)
    (herr : ∀ err, r = .error err → ∃ s, err.OfTools ((Path.inDirectory env.directory e.cache.root).joins
      [".staging", "build_" ++ id.name ++ "_" ++ s])) :
    (Rules.joint m E env id).Safe (E.Ended e env id) (Engine.conclude id n r) x := by
  cases r with
  | error err =>
    refine (unlock_joint hx.held).next fun _ y hy => .pure fun z hz => ⟨hz.past ▸ hy.1, by simp, ?_⟩
    rintro err' ⟨⟩
    exact herr err rfl
  | ok entry =>
    obtain ⟨r, hr, htexts⟩ := hok entry rfl
    have hemit : (Rules.joint m E env id).Safe (fun _ y => E.Begins env n y ∧ E.Whole id r y.files)
        (perform (.emit (.ready id.key false))) x := by
      refine Rules.Safe.perform (s := .emit _) fun y hy a w ha => ?_
      have hy' := hx.beside hy
      have hi : E.Idles id y (y.after (.emit (.ready id.key false)) a w) := idles_prompt hy'.sound rfl ha.1
      refine ⟨hi.joins, fun z hz => ⟨.beside hz ⟨hi.sound, hi.environment.trans hy'.environment,
        hi.held.trans hy'.held, hy'.begun.cons _⟩, hz.gains.whole ?_⟩⟩
      exact hi.abides.gains.whole (hy.gains.whole hr)
    refine hemit.next fun _ y hy => (unlock_joint hy.1.held).next fun _ z hz => .pure fun u hu => ?_
    refine ⟨hu.past ▸ hz.1, ?_, by simp⟩
    rintro c ⟨⟩
    exact ⟨r, hu.gains.whole (hz.2.2 r hy.2), htexts, iff_of_true rfl (hu.past ▸ hz.2.1.mpr hy.1.begun)⟩

theorem compile_joint (hx : E.Comes e.cache env id x) :
    (Rules.joint m E env id).Safe (E.Ended e env id) (e.compile id source).run x := by
  have hbuild (n : Nat) (y : Moment) (hy : E.Clears e.cache env id n y) :=
    compileModel_joint hE hroom hm source hy
  rw [Engine.compile_eq]
  generalize (e.cache.compileModel id source e.translator e.builder).run = p at hbuild ⊢
  refine (approach_joint hE hroom hx).next fun r y hy => ?_
  cases r with
  | error r => exact .done (hy.1 r rfl) (Ended.stable (m := m))
  | ok n => exact (hbuild n y (hy.2 n rfl)).next fun r z hz => conclude_joint hz.1 hz.2.1 hz.2.2

end Compile

end CompiledModels
