import CompiledModels.Proofs.Alone
import CompiledModels.Proofs.Publishing

/-!
What is found at the place of an entry at any moment of publishing it.
-/

namespace CompiledModels

open Files Program

structure Atomic (S : Site) (id : ModelIdentity) (d : Parcel) (p : Path) (t : Tree) (x : Moment) :
    Prop where
  before : ¬Arrived p x.past → ¬Departed p x.past → t.Same x.files (S.entry id)
  between : ¬Arrived p x.past → t.Same x.files (S.entry id) ∨ x.files.Bare (S.entry id)
  after : Arrived p x.past → d.At (S.entry id) x.files
  others : ∀ other, other ≠ id → t.Same x.files (S.entry other)

variable {S : Site} {id : ModelIdentity} {d : Parcel} {p : Path} {t : Tree} {x y : Moment}
  {Z : Location → Prop}

theorem Site.entry_apart (S : Site) {other : ModelIdentity} (h : other ≠ id) (rest : List String) :
    ¬S.entry id <+: S.entry other ++ rest := by
  rintro ⟨more, he⟩
  simp only [Site.entry, List.append_assoc, List.append_cancel_left_eq, List.cons_append,
    List.nil_append, List.cons.injEq, true_and] at he
  exact h (ModelIdentity.eq_of_name he.1.symm)

theorem Parcel.At.congr {t' : Tree} {l : Location} (h : d.At l t) (hs : t.Same t' l) :
    d.At l t' := by
  obtain ⟨c, e, hgood, hf⟩ := h
  exact ⟨c, e, hgood, hf.congr hs⟩

theorem Atomic.step (hZ : ∀ other rest, ¬Z (S.entry other ++ rest))
    (h : Publishing d p (S.entry id) Z x y) (hx : Atomic S id d p t x) :
    Atomic S id d p t y := by
  have hothers : ∀ other, other ≠ id → t.Same y.files (S.entry other) := fun other hne rest =>
    (h.changes.files _ (not_or.mpr ⟨hZ other rest, S.entry_apart hne rest⟩)).trans
      (hx.others other hne rest)
  cases h with
  | other h =>
    have hsame : x.files.Same y.files (S.entry id) := fun rest => h.files _ (hZ id rest)
    obtain ⟨s, hp, ha, hb⟩ := h.taken
    have harrived : Arrived p y.past ↔ Arrived p x.past := by
      refine exists_congr fun a => ?_
      simp [hp, (ha a).symm]
    have hdeparted : Departed p y.past ↔ Departed p x.past := by
      refine exists_congr fun b => ?_
      simp [hp, (hb b).symm]
    refine ⟨fun ha hd rest => ?_, fun ha => ?_, fun ha => ?_, hothers⟩
    · exact (hsame rest).trans (hx.before (harrived.not.mp ha) (hdeparted.not.mp hd) rest)
    · rcases hx.between (harrived.not.mp ha) with hb | hb
      · exact .inl fun rest => (hsame rest).trans (hb rest)
      · exact .inr fun rest => (hsame rest).trans (hb rest)
    · exact (hx.after (harrived.mp ha)).congr hsame
  | aside b hb hp ha h hl =>
    have harrived : ¬Arrived p y.past := by
      rintro ⟨a, hm⟩
      rcases List.mem_cons.mp (hp ▸ hm) with he | hm
      · exact hb (Step.rename.inj (congrArg Taken.step he)).2.symm
      · exact ha ⟨a, hm⟩
    refine ⟨fun _ hd => absurd ⟨b, hp ▸ List.mem_cons_self⟩ hd, fun _ => ?_,
      fun h => absurd h harrived, hothers⟩
    rcases hl with hl | hl
    · exact .inr hl
    · rw [hl]
      exact hx.between ha
  | publish a hp ha h hl hd hw =>
    have harrived : Arrived p y.past := ⟨a, hp ▸ List.mem_cons_self⟩
    exact ⟨absurd harrived, absurd harrived, fun _ => hd, hothers⟩

/-- A world in which a module can be published: a regular file that is no part of an entry. -/
structure Publishable (S : Site) (c : Cache) (module : Path) (name : String) (content : Content)
    (executable : Bool) (w : World) : Prop where
  serves : S.Serves w.environment c.root
  stands : S.Stands w.files
  staging : w.files.Spot S.staging
  models : w.files.Spot S.models
  fileName : module.fileName? = some name
  isName : ModuleFile.isName name = true
  file : ∃ place number, w.files.resolve w.directory false module = .ok place ∧
    w.files.get? place = some (.file number content executable) ∧ ¬S.models <+: place

theorem Sheltered.alone {act : Answers} {m : Machine} {K : Moment → Moment → Prop} {F A : Prop}
    (hR : Ground (.alone act K) m S F) : Sheltered (.alone act K) m S id F A :=
  ⟨hR, .alone, .alone, fun _ => .alone, fun _ _ => Rules.alone_stable act K _, fun _ => .alone,
    fun _ _ => .alone⟩

/-- A path leads to a file, whether or not links are followed in the end. -/
structure Found (env : Environment) (p : Path) (place : Location) (n : Node) (x : Moment) : Prop where
  leads : ∀ follow, x.files.resolve env.location follow p = .ok place
  there : x.files.get? place = some n

theorem Source.found {R : Rules} {env : Environment} {place : Location} {number : Nat}
    {content : Content} {executable : Bool}
    (h : R.Stable (Found env p place (.file number content executable))) :
    Source R S env p place (fun c e => c = content ∧ e = executable)
      (Found env p place (.file number content executable)) := by
  refine ⟨h, fun {Z x y} h _ hx => ?_, ?_⟩
  · have hne : x.files.get? place ≠ none := by simp [hx.there]
    exact ⟨fun follow => Tree.resolve_extends h.extends (hx.leads follow) hne,
      (h.extends _ hne).trans hx.there⟩
  · intro y hy _ follow l n hl hn
    obtain rfl : l = place := Except.ok.inj (hl.symm.trans (hy.leads follow))
    exact ⟨rfl, number, content, executable, Option.some.inj (hn.symm.trans hy.there), rfl, rfl⟩

theorem Found.away {env : Environment} {place : Location} {n : Node}
    (h : Found env p place n x) (hw : x.files.WellFormed) {l : Location} (hl : x.files.get? l = none) :
    ¬l <+: place := by
  rintro ⟨rest, rfl⟩
  exact absurd (h.there.symm.trans (hw.bare hl rest)) (by simp)

theorem Site.not_shed_entry (S : Site) (id other : ModelIdentity) (rest : List String) :
    ¬S.shed id (S.entry other ++ rest) := by
  rintro (h | h | ⟨s, more, h⟩ | ⟨s, more, h⟩) <;>
    simp [Site.entry, Site.staging, Site.models, ModelIdentity.modelNamespace] at h

def parcel (name : String) (content : Content) (executable : Bool) (texts : List (String × String)) :
    Parcel := ⟨name, fun c e => c = content ∧ e = executable, texts⟩

def Beside (S : Site) (id : ModelIdentity) (place : Location) (t : Tree) (n : String) (x : Moment) :
    Prop :=
  ∀ l, l ≠ S.staging → ¬S.bench id False place n l → ¬S.entry id <+: l → x.files.get? l = t.get? l

section Publishable

variable {c : Cache} {module : Path} {name : String} {content : Content} {executable : Bool}
  {w : World} {place : Location} {number : Nat}

theorem Publishable.found (hl : w.files.resolve w.directory false module = .ok place)
    (hfile : w.files.get? place = some (.file number content executable)) :
    Found w.environment module place (.file number content executable) ⟨w, []⟩ := by
  have hdir : w.directory = w.environment.location := rfl
  refine ⟨fun follow => ?_, hfile⟩
  cases follow with
  | false => exact hdir ▸ hl
  | true => exact Tree.resolve_follow (hdir ▸ hl) fun target => by rw [hfile]; simp

theorem Publishable.place_ne (h : Publishable S c module name content executable w)
    (hfile : w.files.get? place = some (.file number content executable)) :
    S.Apart (· = place) ∧ place ≠ S.staging := by
  refine ⟨⟨?_, fun e he hp => ?_⟩, ?_⟩
  · rintro rfl
    simp [h.stands.root] at hfile
  · have hsolid := S.solid e he
    have hpin := h.stands.pins e he
    rw [hp, hfile, Option.some.injEq] at hpin
    simp [← hpin, Node.isFile] at hsolid
  · rintro rfl
    rcases h.staging with hn | hn <;> simp [hn] at hfile

theorem Publishable.module_ne (h : Publishable S c module name content executable w)
    (hl : w.files.resolve w.directory false module = .ok place) (hout : ¬S.models <+: place)
    (id : ModelIdentity) : module ≠ c.entryDirectory id := by
  rintro rfl
  rw [Cache.entryDirectory_eq] at hl
  obtain ⟨rfl, _⟩ := h.serves.leads.resolve_ok h.stands (by simp)
    (by simp [id.isPlain, show IsPlain ModelIdentity.modelNamespace by decide])
    (Tree.unlinked_pair.mpr h.models.noLink) hl
  exact hout (by simp [Site.models])

theorem Publishable.store_stored {m : Machine} {act : Answers} {F : Prop}
    (texts : List (String × String)) (h : Publishable S c module name content executable w)
    (hl : w.files.resolve w.directory false module = .ok place)
    (hfile : w.files.get? place = some (.file number content executable))
    (hout : ¬S.models <+: place) {output warnings : String} {manifest : Manifest}
    (htexts : texts = Cache.texts output warnings manifest)
    (hfit : F → Fits c (Path.inDirectory w.environment.directory c.root) id
      (name :: texts.map (·.1)))
    (hfree : F → ∀ s, w.files.get? (S.stagedAt (stagedName id s)) = none)
    (hr : ∀ seed, Retirable S id F False (c.retiredPath id (stagedName id (World.drawSuffix seed).1))
      (retiredName id (stagedName id (World.drawSuffix seed).1)) w.files)
    (hR : ∀ K, Ground (.alone act K) m S F) :
    (Rules.alone act (Publishing (parcel name content executable texts) (c.entryDirectory id)
      (S.entry id) fun l => S.shed id l ∨ l = place)).Safe
      (fun r y => Stored S w.environment (c.entryDirectory id) name r y ∧
        ((∃ e, r = .error e) ∧ (∀ l, l ≠ S.staging → y.files.get? l = w.files.get? l) ∧ ¬F ∨
          ∃ n, Beside S id place w.files n y ∧
            Cleared S (Path.inDirectory w.environment.directory c.root) id F place n r y))
      (c.store id module output warnings manifest).run ⟨w, []⟩ := by
  have hstay (K : Moment → Moment → Prop) (P : Moment → Prop) : (Rules.alone act K).Stable P :=
    Rules.alone_stable act K P
  have hnew : ¬Arrived (c.entryDirectory id) (⟨w, []⟩ : Moment).past := by simp [Arrived]
  obtain ⟨hapart, hstaging⟩ := h.place_ne hfile
  subst htexts
  refine CompiledModels.store_stored (d := parcel name content executable
      (Cache.texts output warnings manifest)) (R := .alone act fun _ _ => True) (A := False)
    (P := fun y => ∀ l, l ≠ S.staging → y.files.get? l = w.files.get? l)
    (J := Beside S id place w.files) (.alone (hR _)) h.serves
    (.found (hstay _ _)) hapart hstaging hout (h.module_ne hl hout id)
    (ModuleFile.plain_of_isName h.isName) (fun _ y hy => ⟨_, _, _, hy.there⟩)
    (fun _ y hy hw hn => hy.away hw hn) (fun _ y hy _ => hy.leads false) (fun _ => hstay _ _) hfit
    ⟨hstay _ _, fun y z hu hy l hls => (hu.files l not_false).trans (hy l hls)⟩
    (fun y z ha hy l hls => (ha.files l hls).trans (hy l hls)) (fun _ => hstay _ _)
    (fun n y z hy ha _ l hls hb _ => (ha.files l ?_).trans (hy l hls))
    (fun n y z hp hy l hls hb he => (hp.changes.files l (not_or.mpr ⟨hb, he⟩)).trans (hy l hls hb he))
    h.fileName rfl (Cache.plain_texts output warnings manifest)
    (ModuleFile.nodup_of_isName h.isName output warnings manifest) ⟨h.stands, rfl⟩ h.staging
    ⟨h.models, hnew, Publishable.found hl hfile, hr⟩ (fun _ _ => rfl) hfree
  rintro rfl
  exact hb (.inr (.inl (List.prefix_refl _)))

theorem Atomic.start {texts : List (String × String)} :
    Atomic S id (parcel name content executable texts) (c.entryDirectory id) w.files ⟨w, []⟩ := by
  refine ⟨fun _ _ _ => rfl, fun _ => .inl fun _ => rfl, fun ha => ?_, fun _ _ _ => rfl⟩
  obtain ⟨a, ha⟩ := ha
  simp at ha

theorem Atomic.publishing {texts : List (String × String)} (hout : ¬S.models <+: place)
    (h : Publishing (parcel name content executable texts) (c.entryDirectory id) (S.entry id)
      (fun l => S.shed id l ∨ l = place) x y)
    (hx : Atomic S id (parcel name content executable texts) (c.entryDirectory id) t x) :
    Atomic S id (parcel name content executable texts) (c.entryDirectory id) t y := by
  refine hx.step ?_ h
  rintro other rest (hz | rfl)
  · exact S.not_shed_entry id other rest hz
  · exact hout ⟨other.name :: rest, by simp [Site.models, Site.entry]⟩

theorem Atomic.folder {texts : List (String × String)}
    (hx : Atomic S id (parcel name content executable texts) p t x) (ha : Arrived p x.past) :
    x.files.Folder (S.entry id) (entryFiles name content executable texts) := by
  obtain ⟨_, _, ⟨rfl, rfl⟩, hf⟩ := hx.after ha
  exact hf

end Publishable

theorem store_atomic {m : Machine} {c : Cache} {module : Path} {name output warnings : String}
    {manifest : Manifest} {content : Content} {executable : Bool} {w : World} {y : Moment}
    {q : Program (Except CacheError Path)}
    (h : Publishable S c module name content executable w)
    (hs : Program.Steps (Step.faulty m) (c.store id module output warnings manifest).run ⟨w, []⟩ q y) :
    (w.files.Same y.files (S.entry id) ∨ y.files.Bare (S.entry id) ∨
      y.files.Folder (S.entry id)
        (entryFiles name content executable (Cache.texts output warnings manifest))) ∧
    (∀ file, q = .done (.ok file) → file = (c.entryDirectory id).join name ∧
      y.files.Folder (S.entry id)
        (entryFiles name content executable (Cache.texts output warnings manifest))) ∧
    (∀ e, q = .done (.error e) →
      (w.files.Same y.files (S.entry id) ∨ y.files.Bare (S.entry id)) ∧
      (¬Departed (c.entryDirectory id) y.past → w.files.Same y.files (S.entry id))) ∧
    ∀ other, other ≠ id → w.files.Same y.files (S.entry other) := by
  obtain ⟨place, number, hl, hfile, hout⟩ := h.file
  have hr (b : Path) (s : String) : Retirable S id False False b s w.files :=
    ⟨False.elim, False.elim, False.elim, False.elim⟩
  have hground (K : Moment → Moment → Prop) : Ground (.alone (Step.faulty m) K) m S False :=
    .alone (fun _ _ _ _ h => h) False.elim
  have hsafe := Publishable.store_stored (Cache.texts output warnings manifest) h hl hfile hout rfl
    False.elim False.elim (fun _ => hr _ _) hground
  have hy := hsafe.keeps hs Atomic.start fun u v hk hu => hu.publishing hout hk
  refine ⟨?_, ?_, ?_, hy.others⟩
  · by_cases ha : Arrived (c.entryDirectory id) y.past
    · exact .inr (.inr (hy.folder ha))
    · exact (hy.between ha).imp_right .inl
  · rintro file rfl
    have hpost := (hsafe.steps_done hs).1
    exact ⟨hpost.2.2 file rfl, hy.folder (hpost.2.1.mp ⟨file, rfl⟩)⟩
  · rintro e rfl
    have hpost := (hsafe.steps_done hs).1
    have ha : ¬Arrived (c.entryDirectory id) y.past := by simpa using hpost.2.1.not
    exact ⟨hy.between ha, hy.before ha⟩

def Machine.idle : Machine :=
  ⟨fun _ _ _ => .error (.os .noEntry), fun _ _ _ => .error (.libraryLoad "")⟩

def Manifest.small : Manifest := ⟨"model/m", "stanbind_model_m_1.so", "0", "g++", 0, 5⟩

/-- A world with the rest of an entry in the place of `ModelIdentity.small`, and with a module. -/
def World.small : World :=
  .initial ⟨[(["c"], .directory), (["c", ModelIdentity.modelNamespace], .directory),
    (["c", ModelIdentity.modelNamespace, "m"], .directory),
    (["c", ModelIdentity.modelNamespace, "m", Cache.warningsFile], .file 0 ⟨[7], 0⟩ false),
    (["stanbind_model_m_1.so"], .file 1 ⟨[1, 2], 0⟩ true)], 2⟩ ⟨[], Site.path [], none, 1⟩ 0

theorem World.small_publishable : Publishable Site.top ⟨Site.path ["c"]⟩
    (Site.path ["stanbind_model_m_1.so"]) "stanbind_model_m_1.so" ⟨[1, 2], 0⟩ true World.small where
  serves := Site.serves_path Site.top _
  stands := ⟨⟨by decide, by decide, by decide, by decide⟩, rfl, by simp [Site.top]⟩
  staging := .inl rfl
  models := .inr rfl
  fileName := by decide +kernel
  isName := by decide +kernel
  file := ⟨["stanbind_model_m_1.so"], 1, by decide +kernel, rfl, by decide⟩

theorem store_atomic_over_rest : ∃ file y,
    Program.Steps (Step.faulty .idle) (Cache.store ⟨Site.path ["c"]⟩ .small
      (Site.path ["stanbind_model_m_1.so"]) "built" "warned" .small).run ⟨.small, []⟩
      (.done (.ok file)) y ∧
    y.files.Folder (Site.top.entry .small) (entryFiles "stanbind_model_m_1.so" ⟨[1, 2], 0⟩ true
      (Cache.texts "built" "warned" .small)) := by
  obtain ⟨file, y, hs⟩ := Program.Steps.of_run_isOk (m := .idle) (w := .small)
    (p := (Cache.store ⟨Site.path ["c"]⟩ .small (Site.path ["stanbind_model_m_1.so"]) "built" "warned"
      .small).run) (by decide +kernel)
  have hs' := hs.mono fun _ _ _ _ h => show Step.faulty .idle _ _ _ _ from .inl h
  exact ⟨file, y, hs', ((store_atomic World.small_publishable hs').2.1 file rfl).2⟩

end CompiledModels
