import CompiledModels.Proofs.ModuleFile
import CompiledModels.Proofs.Store

/-!
What each step of publishing an entry may do to the place where the entry is, and how an entry that
is in the way is moved aside.
-/

namespace CompiledModels

open Files Program

def Arrived (p : Path) (past : List Taken) : Prop := ∃ a, ⟨.rename a p, .ok ()⟩ ∈ past

def Departed (p : Path) (past : List Taken) : Prop := ∃ b, ⟨.rename p b, .ok ()⟩ ∈ past

def entryFiles (name : String) (c : Content) (executable : Bool) (texts : List (String × String)) :
    List (String × Content × Bool) :=
  (name, c, executable) :: texts.map textFile

structure Parcel where
  name : String
  good : Content → Bool → Prop
  texts : List (String × String)

def Parcel.At (d : Parcel) (l : Location) (t : Tree) : Prop :=
  ∃ c e, d.good c e ∧ t.Folder l (entryFiles d.name c e d.texts)

structure Elsewhere (p : Path) (Z : Location → Prop) (x y : Moment) : Prop extends Changes Z x y where
  taken : ∃ s, y.past = s :: x.past ∧ (∀ a, s ≠ ⟨.rename a p, .ok ()⟩) ∧
    ∀ b, s ≠ ⟨.rename p b, .ok ()⟩

inductive Publishing (d : Parcel) (p : Path) (l : Location) (Z : Location → Prop) (x y : Moment) :
    Prop
  | other (h : Elsewhere p Z x y)
  | aside (b : Path) (hb : b ≠ p) (hp : y.past = ⟨.rename p b, .ok ()⟩ :: x.past)
      (ha : ¬Arrived p x.past)
      (h : Changes (fun k => Z k ∨ l <+: k) x y)
      (hl : (∀ rest, y.files.get? (l ++ rest) = none) ∨ y.files = x.files)
  | publish (a : Path) (hp : y.past = ⟨.rename a p, .ok ()⟩ :: x.past) (ha : ¬Arrived p x.past)
      (h : Changes (fun k => Z k ∨ l <+: k) x y)
      (hl : ∀ rest, rest ≠ [] → x.files.get? (l ++ rest) = none) (hd : d.At l y.files)
      (hw : Written a d.texts x)

theorem Elsewhere.of_within {p : Path} {Z : Location → Prop} {x y : Moment} (h : Within Z x y) :
    Elsewhere p Z x y := by
  obtain ⟨s, hs, hm⟩ := h.taken
  exact ⟨h.toChanges, s, hs, fun a he => hm ⟨a, p, he⟩, fun b he => hm ⟨p, b, he⟩⟩

theorem Elsewhere.mono {p : Path} {Z Z' : Location → Prop} {x y : Moment} (h : Elsewhere p Z x y)
    (hz : ∀ k, Z k → Z' k) : Elsewhere p Z' x y := ⟨h.toChanges.mono hz, h.taken⟩

theorem Elsewhere.arrived {p : Path} {Z : Location → Prop} {x y : Moment} (h : Elsewhere p Z x y)
    (hx : ¬Arrived p x.past) : ¬Arrived p y.past := by
  obtain ⟨s, hs, hto, -⟩ := h.taken
  rintro ⟨a, ha⟩
  rcases List.mem_cons.mp (hs ▸ ha) with he | ha
  · exact hto a he.symm
  · exact hx ⟨a, ha⟩

theorem Publishing.of_within {d : Parcel} {p : Path} {l : Location} {Z Z' : Location → Prop}
    {x y : Moment} (h : Within Z' x y) (hz : ∀ k, Z' k → Z k) : Publishing d p l Z x y :=
  .other (.of_within (h.mono hz))

def Site.shed (S : Site) (id : ModelIdentity) : Location → Prop := fun l =>
  l = S.staging ∨ l = S.models ∨
    (∃ s, S.root ++ [".staging", "entry_" ++ id.name ++ "_" ++ s] <+: l) ∨
    ∃ s, S.root ++ [".staging", "retired_" ++ s] <+: l

/-- What others leave to a caller that publishes an entry of `id`. They leave the entry alone if
no step fails, `F`, or if there was no entry to begin with, `A`. -/
structure Sheltered (R : Rules) (m : Machine) (S : Site) (id : ModelIdentity) (F A : Prop) :
    Prop where
  ground : Ground R m S F
  staging : Room R S.staging
  models : Room R S.models
  staged : ∀ s, Private R (S.root ++ [".staging", "entry_" ++ id.name ++ "_" ++ s])
  retired : ∀ s rest, R.Stable (·.files.NoLink (S.root ++ [".staging", "retired_" ++ s] ++ rest))
  entry : F ∨ A → Private R (S.entry id)
  away : F → ∀ s, Private R (S.root ++ [".staging", "retired_" ++ (id.name ++ "_" ++ s)])

theorem Sheltered.keeping {R : Rules} {m : Machine} {S : Site} {id : ModelIdentity} {F A : Prop}
    (h : Sheltered R m S id F A) (K : Moment → Moment → Prop) :
    Sheltered (R.keeping K) m S id F A :=
  ⟨h.ground.keeping K, h.staging.keeping K, h.models.keeping K, h.staged, h.retired, h.entry, h.away⟩

variable {R : Rules} {m : Machine} {S : Site} {env : Environment} {p q : Path} {x y : Moment}
  {c : Cache} {id : ModelIdentity} {place : Location} {d : Parcel} {I : Moment → Prop} {F A : Prop}

theorem Publishing.changes {Z : Location → Prop} {l : Location} (h : Publishing d p l Z x y) :
    Changes (fun k => Z k ∨ l <+: k) x y := by
  cases h with
  | other h => exact h.toChanges.mono fun _ => .inl
  | aside _ _ _ _ h _ => exact h
  | publish _ _ _ h _ _ _ => exact h

theorem Publishing.mono {Z Z' : Location → Prop} {l : Location} (h : Publishing d p l Z x y)
    (hz : ∀ k, Z k → Z' k) : Publishing d p l Z' x y := by
  have hz' : ∀ k, Z k ∨ l <+: k → Z' k ∨ l <+: k := fun k => Or.imp_left (hz k)
  cases h with
  | other h => exact .other (h.mono hz)
  | aside b hb hp ha h hl => exact .aside b hb hp ha (h.mono hz') hl
  | publish a hp ha h hl hd hw => exact .publish a hp ha (h.mono hz') hl hd hw

theorem Publishing.past {Z : Location → Prop} {l : Location} (h : Publishing d p l Z x y) :
    ∃ s, y.past = s :: x.past := by
  cases h with
  | other h =>
    obtain ⟨s, hs, _⟩ := h.taken
    exact ⟨s, hs⟩
  | aside _ _ hp => exact ⟨_, hp⟩
  | publish _ hp => exact ⟨_, hp⟩

structure Waiting (S : Site) (env : Environment) (p : Path) (x : Moment) : Prop where
  standing : Standing S env x
  staging : x.files.get? S.staging = some .directory
  models : x.files.get? S.models = some .directory
  arrived : ¬Arrived p x.past

theorem Arrived.of_cons {t : Taken} {past : List Taken} (h : Arrived p (t :: past)) (ht : ¬t.Moves) :
    Arrived p past := by
  obtain ⟨a, ha⟩ := h
  rcases List.mem_cons.mp ha with rfl | ha
  · exact absurd ⟨a, p, rfl⟩ ht
  · exact ⟨a, ha⟩

theorem Arrived.of_within {Z : Location → Prop} (h : Within Z x y) (hy : Arrived p y.past) :
    Arrived p x.past := by
  obtain ⟨s, hs, hm⟩ := h.taken
  rw [hs] at hy
  exact hy.of_cons hm

theorem Waiting.stable (hR : Sheltered R m S id F A) : R.Stable (Waiting S env p) := fun _ _ h hx =>
  ⟨Standing.stable hR.ground _ _ h hx.standing, hR.staging.directory _ _ h hx.staging,
    hR.models.directory _ _ h hx.models, hR.ground.past h ▸ hx.arrived⟩

theorem Waiting.within {Z : Location → Prop} (h : Within Z x y) (hz : S.Apart Z)
    (hs : ¬Z S.staging) (hm : ¬Z S.models) (hx : Waiting S env p x) : Waiting S env p y :=
  ⟨hx.standing.within h hz, (h.files _ hs).trans hx.staging, (h.files _ hm).trans hx.models,
    fun ha => hx.arrived (ha.of_within h)⟩

theorem Waiting.lasting (hR : Sheltered R m S id F A) : Lasting R (Waiting S env p) :=
  ⟨Waiting.stable hR, fun _ _ h hx => hx.within h apart_none not_false not_false⟩

def Site.retired (S : Site) : Location → Prop := fun l =>
  ∃ s, S.root ++ [".staging", "retired_" ++ s] <+: l

theorem Waiting.resolve_entry (hS : S.Serves env c.root) (hx : Waiting S env p x) {l : Location}
    (hl : x.files.resolve x.world.directory false (c.entryDirectory id) = .ok l) :
    l = S.models ++ [id.name] ∧ IsProper id.name ∧ x.files.get? S.models = some .directory := by
  rw [hx.standing.directory, Cache.entryDirectory_eq] at hl
  obtain ⟨rfl, _, hp, _⟩ := hS.leads.resolve_ok hx.standing.stands (by simp)
    (by simp [id.isPlain, show IsPlain ModelIdentity.modelNamespace by decide])
    (Tree.unlinked_pair.mpr (Tree.Spot.noLink (.inr hx.models))) hl
  exact ⟨by simp [Site.models], hp _ (by simp), hx.models⟩

theorem Waiting.resolve_staging (hq : S.Leads env.location q) (hx : Waiting S env p x) {s : String}
    (hs : IsPlain s) {l : Location}
    (hl : x.files.resolve x.world.directory false (q.joins [".staging", s]) = .ok l) :
    l = S.staging ++ [s] ∧ IsProper s ∧ x.files.get? S.staging = some .directory := by
  rw [hx.standing.directory] at hl
  obtain ⟨rfl, _, hp, _⟩ := hq.resolve_ok hx.standing.stands (by simp)
    (by simp [hs, show IsPlain ".staging" by decide])
    (Tree.unlinked_pair.mpr (Tree.Spot.noLink (.inr hx.staging))) hl
  exact ⟨by simp [Site.staging], hp _ (by simp), hx.staging⟩

theorem Site.entry_ne_staging (S : Site) (id : ModelIdentity) (rest rest' : List String) :
    S.entry id ++ rest ≠ S.staging ++ rest' := by
  simp [Site.entry, Site.staging, ModelIdentity.modelNamespace]

theorem Site.apart_retired (S : Site) (id : ModelIdentity) :
    S.Apart fun l => S.retired l ∨ S.entry id <+: l := by
  refine Site.apart_below ?_
  rintro l (⟨s, rest, rfl⟩ | ⟨rest, rfl⟩)
  · exact ⟨[".staging", "retired_" ++ s] ++ rest, by simp, by simp⟩
  · exact ⟨[ModelIdentity.modelNamespace, id.name] ++ rest, by simp, by simp [Site.entry]⟩

theorem Site.not_retired_staging (S : Site) : ¬S.retired S.staging := by
  rintro ⟨s, rest, h⟩
  simp [Site.staging] at h

theorem Site.not_retired_models (S : Site) : ¬S.retired S.models := by
  rintro ⟨s, rest, h⟩
  simp [Site.models] at h

theorem Site.not_entry_staging (S : Site) (id : ModelIdentity) : ¬S.entry id <+: S.staging := by
  rintro ⟨rest, h⟩
  exact S.entry_ne_staging id rest [] (by simpa using h)

theorem Site.not_entry_models (S : Site) (id : ModelIdentity) : ¬S.entry id <+: S.models := by
  rintro ⟨rest, h⟩
  simp [Site.entry, Site.models] at h

def Site.retiredAt (S : Site) (s : String) : Location := S.root ++ [".staging", "retired_" ++ s]

structure Retirable (S : Site) (id : ModelIdentity) (F A : Prop) (b : Path) (s : String)
    (t : Tree) : Prop where
  absent : A → t.get? (S.entry id) = none
  spot : F → t.Spot (S.entry id)
  free : F → t.Bare (S.retiredAt s)
  reaches : F → ∀ rest, t.get? (S.entry id ++ rest) ≠ none → Tree.Short (b.joins rest)

theorem Retirable.congr {b : Path} {s : String} {t t' : Tree} (h : Retirable S id F A b s t)
    (he : F ∨ A → t.Same t' (S.entry id)) (hb : F → t.Same t' (S.retiredAt s)) :
    Retirable S id F A b s t' := by
  have hroot (hFA : F ∨ A) : t'.get? (S.entry id) = t.get? (S.entry id) := by
    simpa using he hFA []
  refine ⟨fun hA => (hroot (.inr hA)).trans (h.absent hA), fun hF => ?_, fun hF rest => ?_,
    fun hF rest hr => h.reaches hF rest (by rwa [← he (.inl hF) rest])⟩
  · simpa only [Tree.Spot, hroot (.inl hF)] using h.spot hF
  · exact (hb hF rest).trans (h.free hF rest)

theorem Retirable.changes {b : Path} {s : String} {Z : Location → Prop} (h : Changes Z x y)
    (he : ∀ rest, ¬Z (S.entry id ++ rest)) (hb : F → ∀ rest, ¬Z (S.retiredAt s ++ rest))
    (hx : Retirable S id F A b s x.files) : Retirable S id F A b s y.files :=
  hx.congr (fun _ rest => h.files _ (he rest)) fun hF rest => h.files _ (hb hF rest)

section Retire

variable {s : String} {b : Path} (hS : S.Serves env c.root) (hR : Sheltered R m S id F A)
  (hb : b = c.root.joins [".staging", "retired_" ++ s]) (hs : ∃ s', s = id.name ++ "_" ++ s')
  (hfit : F → (IsProper id.name ∧ Tree.Short (c.entryDirectory id)) ∧
    IsProper ("retired_" ++ s) ∧ Tree.Short b)
  (hk : R.Allows (Publishing d (c.entryDirectory id) (S.entry id) (S.retiredAt s <+: ·)))

include hR hs in
theorem Retirable.lasting : Lasting R fun y => Retirable S id F A b s y.files := by
  obtain ⟨s', rfl⟩ := hs
  refine ⟨fun y z h hy => hy.congr (fun hFA => hR.entry hFA y z h) fun hF => hR.away hF s' y z h,
    fun y z h hy => hy.congr (fun _ rest => h.files _ not_false) fun _ rest => h.files _ not_false⟩

theorem Standing.resolve_pair {a s : String} {follow : Bool} (hq : S.Leads env.location q)
    (hx : Standing S env x) (hdir : x.files.get? (S.root ++ [a]) = some .directory)
    (hs : IsProper s) (hshort : Tree.Short (q.joins [a, s]))
    (hn : follow = true → x.files.NoLink (S.root ++ [a, s])) :
    x.files.resolve x.world.directory follow (q.joins [a, s]) = .ok (S.root ++ [a, s]) := by
  have ha : IsProper a :=
    hx.wellFormed.proper_of_get? (l := S.root ++ [a]) (by rw [hdir]; simp) a (by simp)
  have hunlinked : x.files.Unlinked follow S.root ([a] ++ [s]) :=
    (hx.wellFormed.unlinked hdir).concat fun hf => by simpa using hn hf
  rw [hx.directory]
  exact (hq _ hx.stands).resolve_joins_to hx.wellFormed (by simp) (by simp [ha, hs]) hunlinked
    hdir hshort

include hS in
theorem Waiting.entry_resolves {follow : Bool} (hfit : IsProper id.name ∧ Tree.Short (c.entryDirectory id))
    (hx : Waiting S env p x) (hn : x.files.Spot (S.entry id)) :
    x.files.resolve x.world.directory follow (c.entryDirectory id) = .ok (S.entry id) := by
  rw [Cache.entryDirectory_eq] at hfit ⊢
  exact hx.standing.resolve_pair hS.leads hx.models hfit.1 hfit.2 fun _ => hn.noLink

include hS in
theorem Waiting.no_entry (hx : Waiting S env p x) (hn : x.files.get? (S.entry id) = none)
    {follow : Bool} {n : Node} :
    x.files.stat x.world.directory follow (c.entryDirectory id) ≠ .ok n := by
  intro hstat
  obtain ⟨l, hl, hg⟩ := Tree.stat_eq_ok.mp hstat
  rw [hx.standing.directory, Cache.entryDirectory_eq] at hl
  have hunlinked : x.files.Unlinked follow S.root ([ModelIdentity.modelNamespace] ++ [id.name]) := by
    refine (hx.standing.wellFormed.unlinked hx.models).concat fun _ => ?_
    have hnl : x.files.NoLink (S.entry id) := Tree.Spot.noLink (.inl hn)
    simpa [Site.entry] using hnl
  obtain ⟨rfl, _⟩ := hS.leads.resolve_ok hx.standing.stands (by simp)
    (by simp [id.isPlain, show IsPlain ModelIdentity.modelNamespace by decide]) hunlinked hl
  exact absurd (hg.symm.trans hn) (by simp)

include hS hR hs hfit

theorem entryExists_retirable (hku : R.Allows Unmoved) (hx : Waiting S env (c.entryDirectory id) x)
    (hr : Retirable S id F A b s x.files) :
    R.Safe (fun e y => (Waiting S env (c.entryDirectory id) y ∧ Retirable S id F A b s y.files) ∧
        (e = true → ¬A ∧ (F → y.files.get? (S.entry id) = some .directory)) ∧
        (e = false → F → y.files.get? (S.entry id) = none))
      (pathExists (c.entryDirectory id)) x := by
  have hl : Lasting R fun y => Waiting S env (c.entryDirectory id) y ∧
      Retirable S id F A b s y.files := (Waiting.lasting hR).and (Retirable.lasting hR hs)
  have hsame : Lasting R fun y => F → y.files.get? (S.entry id) = x.files.get? (S.entry id) := by
    refine ⟨fun y z h hy hF => ?_, fun y z h hy hF => (h.files _ not_false).trans (hy hF)⟩
    have hroot := hR.entry (.inl hF) y z h []
    rw [List.append_nil] at hroot
    exact hroot.trans (hy hF)
  refine (stat_seen (T := x.files.get? (S.entry id) = none) hR.ground hku (hl.and hsame)
    ⟨⟨hx, hr⟩, fun _ => rfl⟩ (Q := fun n y => ¬A ∧ (F → x.files.get? (S.entry id) = some .directory))
    (fun _ => .const _) (fun y n hy hn => ⟨fun hA => ?_, fun hF => ?_⟩) fun hF y e hy he => ?_).next
      fun r y hy => ?_
  · exact hy.1.1.no_entry hS (hy.1.2.absent hA) hn
  · rw [← hy.2 hF]
    refine (hy.1.2.spot hF).resolve_left fun hnone => ?_
    exact hy.1.1.no_entry hS hnone hn
  · rw [← hy.2 hF]
    refine (hy.1.2.spot hF).resolve_right fun hdir => ?_
    have hres : y.files.resolve _ true _ = _ := hy.1.1.entry_resolves hS (hfit hF).1 (.inr hdir)
    rw [Tree.stat_eq_ok.mpr ⟨_, hres, hdir⟩] at he
    simp at he
  · have hlr := hl.and hsame
    cases r with
    | ok n =>
      refine .pure fun z hz => ?_
      have hz' := hlr.stable _ _ hz hy.1
      exact ⟨hz'.1, fun _ => ⟨(hy.2.1 n rfl).1, fun hF => (hz'.2 hF).trans ((hy.2.1 n rfl).2 hF)⟩,
        by simp⟩
    | error e =>
      refine .pure fun z hz => ?_
      have hz' := hlr.stable _ _ hz hy.1
      exact ⟨hz'.1, by simp, fun _ hF => (hz'.2 hF).trans (hy.2.2 e rfl hF)⟩

include hb hk

theorem renameEntry_retired (hx : Waiting S env (c.entryDirectory id) x)
    (hr : Retirable S id F A b s x.files)
    (hdir : F → x.files.get? (S.entry id) = some .directory) :
    R.Safe (fun r y => Waiting S env (c.entryDirectory id) y ∧ (F → r = .ok () ∧
        y.files.get? (S.entry id) = none ∧ y.files.get? (S.retiredAt s) = some .directory ∧
        ∀ rest, y.files.get? (S.retiredAt s ++ rest) ≠ none → Tree.Short (b.joins rest)))
      (Program.perform (.rename (c.entryDirectory id) b)) x := by
  obtain ⟨s', rfl⟩ := hs
  have hl := Retirable.lasting (b := b) (A := A) hR ⟨s', rfl⟩
  apply Rules.Safe.perform
  intro y hy r w hr'
  have hy' := Waiting.stable hR _ _ hy hx
  have hry := hl.stable _ _ hy hr
  have hdy : F → y.files.get? (S.entry id) = some .directory := fun hF => by
    have hroot := hR.entry (.inl hF) x y hy []
    rw [List.append_nil] at hroot
    exact hroot.trans (hdir hF)
  have hm (hF : F) : y.files.Movable (S.entry id) (S.retiredAt (id.name ++ "_" ++ s')) := by
    refine hy'.standing.wellFormed.movable (by simp [hdy hF]) (by simp [Site.entry])
      (by simpa using hry.free hF []) ?_
    rintro ⟨rest, h⟩
    simp [Site.entry, Site.retiredAt, ModelIdentity.modelNamespace] at h
  have hmoved (hF : F) : y.files.rename y.world.directory (c.entryDirectory id) b =
      .ok (y.files.move (S.entry id) (S.retiredAt (id.name ++ "_" ++ s'))) := by
    have hres : y.files.resolve _ false _ = _ := hy'.entry_resolves hS (hfit hF).1 (.inr (hdy hF))
    have hresb : y.files.resolve _ false _ = _ := hy'.standing.resolve_pair hS.leads hy'.staging
      (hfit hF).2.1 (hb ▸ (hfit hF).2.2) (by simp)
    rw [hb]
    exact Tree.rename_free hres hresb (hm hF) (by simpa using hry.free hF [])
      (Tree.demandsDirectory_joins (by simp))
  rcases (hR.ground.act hr').rename with ⟨e, rfl, rfl⟩ | ⟨rfl, t, hren, rfl⟩
  · have hu : Unmoved y (y.after (.rename (c.entryDirectory id) b) (.error e) y.world) :=
      .of_eq (by rintro ⟨_, _, ⟨⟩⟩) rfl rfl
    refine ⟨hk _ _ (.of_within hu fun _ h => h.elim), fun z hz => ⟨?_, fun hF => ?_⟩⟩
    · exact (Waiting.lasting hR).stable _ _ hz ((Waiting.lasting hR).unmoved _ _ hu hy')
    · have herr := Step.eq_error_of_onFiles (Option.some.inj (hR.ground.sure hF hr'))
      rw [hmoved hF] at herr
      simp at herr
  · have hplain : IsPlain ("retired_" ++ (id.name ++ "_" ++ s')) := plain_of_start (by decide) _
    have htree := Tree.rename_away hy'.standing.wellFormed
      (fun a ha => (hy'.resolve_entry hS ha).1.trans (S.entry_eq id).symm)
      (fun a ha => hy'.resolve_staging hS.leads hplain (hb ▸ ha))
      (by simpa using S.entry_ne_staging id [] ["retired_" ++ (id.name ++ "_" ++ s')]) hren
    have hc : Changes (fun k => S.retiredAt (id.name ++ "_" ++ s') <+: k ∨ S.entry id <+: k) y
        (y.after (.rename (c.entryDirectory id) b) (.ok ()) { y.world with files := t }) := by
      rcases htree with rfl | ⟨hwf, _, hsame⟩
      · exact ⟨fun _ _ => rfl, fun h => h, rfl⟩
      · refine ⟨fun l hl => ?_, fun _ => hwf, rfl⟩
        simp only [not_or] at hl
        refine hsame l hl.2 fun hp => hl.1 ?_
        simpa [Site.staging, Site.retiredAt] using hp
    have hne' : b ≠ c.entryDirectory id := by
      simp [hb, Cache.entryDirectory_eq, Path.joins, ModelIdentity.modelNamespace]
    have hzone : S.Apart fun k => S.retiredAt (id.name ++ "_" ++ s') <+: k ∨ S.entry id <+: k :=
      (S.apart_retired id).mono fun _ => Or.imp_left fun h => ⟨_, h⟩
    refine ⟨hk _ _ (.aside _ hne' rfl hy'.arrived hc ?_), fun z hz => ⟨?_, fun hF => ⟨rfl, ?_⟩⟩⟩
    · rcases htree with rfl | ⟨_, hnone, _⟩
      · exact .inr rfl
      · exact .inl hnone
    · refine Waiting.stable hR _ _ hz ⟨hy'.standing.changes hc hzone, ?_, ?_, ?_⟩
      · refine (hc.files _ (not_or.mpr ⟨fun h => S.not_retired_staging ⟨_, h⟩, ?_⟩)).trans hy'.staging
        exact S.not_entry_staging id
      · refine (hc.files _ (not_or.mpr ⟨fun h => S.not_retired_models ⟨_, h⟩, ?_⟩)).trans hy'.models
        exact S.not_entry_models id
      · rintro ⟨a, ha⟩
        rcases List.mem_cons.mp ha with he | ha
        · exact hne' (Step.rename.inj (congrArg Taken.step he)).2.symm
        · exact hy'.arrived ⟨a, ha⟩
    · obtain rfl : t = _ := Except.ok.inj (hren.symm.trans (hmoved hF))
      have hsource := Tree.get?_moved_source hy'.standing.wellFormed (hm hF)
      have htarget := Tree.get?_moved_target hy'.standing.wellFormed (hm hF)
      have hentry := (hR.entry (.inl hF) _ _ hz []).trans (hsource [])
      have haway := fun rest => (hR.away hF s' _ _ hz rest).trans (htarget rest)
      have hroot := (haway []).trans (by rw [List.append_nil, hdy hF])
      rw [List.append_nil] at hentry hroot
      exact ⟨hentry, hroot, fun rest hrest => hry.reaches hF rest (by rwa [← haway rest])⟩

theorem removeRetired_bare (hx : Waiting S env (c.entryDirectory id) x)
    (hdir : F → x.files.get? (S.entry id) = none ∧ x.files.get? (S.retiredAt s) = some .directory ∧
      ∀ rest, x.files.get? (S.retiredAt s ++ rest) ≠ none → Tree.Short (b.joins rest)) :
    R.Safe (fun r y => Waiting S env (c.entryDirectory id) y ∧ (F → r = .ok () ∧
        y.files.get? (S.entry id) = none ∧ y.files.Bare (S.retiredAt s))) (removeAll b) x := by
  obtain ⟨s', rfl⟩ := hs
  subst hb
  have hplain : IsPlain ("retired_" ++ (id.name ++ "_" ++ s')) := plain_of_start (by decide) _
  have hstay : R.Stable (·.files.Unlinked false S.root
      [".staging", "retired_" ++ (id.name ++ "_" ++ s')]) := fun y z h hy =>
    Tree.unlinked_pair.mpr (hR.staging.link y z h (Tree.unlinked_pair.mp hy))
  have hsafe := removeAll_bare (F := F) (G := F) hR.ground hS.leads (by simp) hstay (hR.retired _)
    (fun hF => hR.away hF s') hx.standing (by simp [hplain, show IsPlain ".staging" by decide])
    (Tree.unlinked_pair.mpr (Tree.Spot.noLink (.inr hx.staging))) fun hF =>
      ⟨fun _ rest hrest => by rw [← Path.joins_joins]; exact (hdir hF).2.2 rest hrest,
        .inl (.inr ⟨_, (hdir hF).2.1, .inl rfl⟩)⟩
  have hnone : R.Stable fun y => F → y.files.get? (S.entry id) = none := fun y z h hy hF => by
    have hroot := hR.entry (.inl hF) y z h []
    rw [List.append_nil] at hroot
    exact hroot.trans (hy hF)
  refine (hsafe.keepInvariant (J := fun y => Waiting S env (c.entryDirectory id) y ∧
      (F → y.files.get? (S.entry id) = none)) (fun y z h => hk y z (.of_within h.within fun _ h => h))
    ⟨hx, fun hF => (hdir hF).1⟩ (fun y z h hy => ⟨Waiting.stable hR y z h hy.1, hnone y z h hy.2⟩)
    fun y z h hy => ⟨?_, fun hF => (h.apart ?_).trans (hy.2 hF)⟩).weaken fun r y hy => ?_
  · refine hy.1.within h.within (apart_under (by simp)) (fun hp => ?_) fun hp => ?_
    · exact S.not_retired_staging ⟨_, hp⟩
    · exact S.not_retired_models ⟨_, hp⟩
  · rintro ⟨rest, hp⟩
    simp [Site.entry, ModelIdentity.modelNamespace] at hp
  · refine ⟨hy.2.1, fun hF => ?_⟩
    obtain ⟨hr, hbare⟩ := (hy.1.2 hF).resolve_right fun h => h.2 hF
    refine ⟨hr.resolve_right fun hn => ?_, hy.2.2 hF, hbare⟩
    exact absurd ((hdir hF).2.1.symm.trans hn) (by simp)

omit hk in
theorem retire_waiting {staged : Path} (hname : s = id.name ++ "_" ++ staged.fileName?.getD "entry")
    (hku : R.Allows Unmoved)
    (hk : ¬A → R.Allows (Publishing d (c.entryDirectory id) (S.entry id) (S.retiredAt s <+: ·)))
    (hx : Waiting S env (c.entryDirectory id) x) (hr : Retirable S id F A b s x.files) :
    R.Safe (fun r y => Waiting S env (c.entryDirectory id) y ∧
        (F ∨ A → r = .ok () ∧ y.files.get? (S.entry id) = none) ∧
        (F → y.files.Bare (S.retiredAt s)))
      (c.retire id staged).run x := by
  have hl : Lasting R (Waiting S env (c.entryDirectory id)) := Waiting.lasting hR
  have hb' : c.stagingDirectory.join ("retired_" ++ id.name ++ "_" ++
      staged.fileName?.getD "entry") = b := by
    simp [hb, hname, Cache.stagingDirectory, Path.join, Path.joins, String.append_assoc]
  subst hb'
  simp only [Cache.retire]
  refine .liftThen (entryExists_retirable hS hR hs hfit hku hx hr).settled fun e y hy => ?_
  obtain ⟨⟨hy', hry⟩, hyes, -⟩ := hy y (R.refl y)
  cases e with
  | false =>
    refine .pure fun z hz => ?_
    obtain ⟨⟨hz', hrz⟩, -, hno⟩ := hy z hz
    have hbare := hrz.free
    refine ⟨hz', ?_, hbare⟩
    rintro (hF | hA)
    · exact ⟨rfl, hno rfl hF⟩
    · exact ⟨rfl, hrz.absent hA⟩
  | true =>
    obtain ⟨hA, hdir⟩ := hyes rfl
    have hkr := hk hA
    have hpost {r : Except CacheError Unit} {y : Moment} (hF : F → r = .ok () ∧
        y.files.get? (S.entry id) = none ∧ y.files.Bare (S.retiredAt s)) :
        (F ∨ A → r = .ok () ∧ y.files.get? (S.entry id) = none) ∧
          (F → y.files.Bare (S.retiredAt s)) :=
      ⟨fun h => ⟨(hF (h.resolve_right hA)).1, (hF (h.resolve_right hA)).2.1⟩, fun h => (hF h).2.2⟩
    refine .ofThen (renameEntry_retired hS hR hb hs hfit hkr hy' hry hdir) (fun _ z hz => ?_)
      fun e z hz => ⟨hz.1, hpost fun hF => absurd (hz.2 hF).1 (by simp)⟩
    refine .liftThen (removeRetired_bare hS hR hb hs hfit hkr hz.1 fun hF => (hz.2 hF).2).settled
      fun r u hu => ?_
    cases r with
    | ok _ => exact .pure fun v hv => ⟨(hu v hv).1, hpost fun hF => ⟨rfl, ((hu v hv).2 hF).2⟩⟩
    | error e =>
      have hnot : ¬F := fun hF => absurd ((hu u (R.refl u)).2 hF).1 (by simp)
      refine .lift ((emit_lasting hR.ground hku hl (hu u (R.refl u)).1).weaken fun _ v hv => ?_)
      exact ⟨hv, hpost fun hF => absurd hF hnot⟩

end Retire

end CompiledModels
