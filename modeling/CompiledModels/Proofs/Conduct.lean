import CompiledModels.Engine
import CompiledModels.Proofs.Drift
import CompiledModels.Proofs.Files.Folder
import CompiledModels.Proofs.ModuleFile
import CompiledModels.Proofs.Site

/-!
The directory of a cache and those for temporary files beside it: what the programs that are
started may change there, at whatever instant they do so.
-/

namespace CompiledModels

open Files

def Site.Way (S : Site) (l : Location) : Prop := l = S.root ∨ ∃ e ∈ S.pins, l = e.1

/-- The directory of a cache and those for temporary files, which are no part of it. -/
structure Estate where
  cache : Site
  temp : Nat → Site
  kept : Location → Prop
  outside : ∀ k l, (temp k).Way l → ¬cache.root <+: l
  apart : ∀ k s l, (cache.Way l ∨ ∃ k', (temp k').Way l) →
    ¬(temp k).root ++ ["stanbind_build_" ++ s] <+: l

namespace Estate

variable {E : Estate} {t t' t'' : Tree} {l : Location}

def builds (E : Estate) : Location → Prop := fun l =>
  ∃ s rest, rest ≠ [] ∧ l = E.cache.root ++ [".staging", "build_" ++ s] ++ rest

def scratch (E : Estate) : Location → Prop := fun l =>
  ∃ k s, (E.temp k).root ++ ["stanbind_build_" ++ s] <+: l

def loose (E : Estate) : Location → Prop := fun l =>
  E.builds l ∨ ((¬E.cache.root <+: l ∧ ¬E.cache.Way l) ∧ ¬E.scratch l ∧ (∀ k, ¬(E.temp k).Way l) ∧ ¬E.kept l)

structure Sound (E : Estate) (t : Tree) : Prop where
  cache : E.cache.Stands t
  temp : ∀ k, (E.temp k).Stands t
  clean : ∀ l, E.cache.root <+: l ∨ E.scratch l → t.NoLink l
  numbered : t.Numbered

/-- A change that programs may make: where modules are built only files come and go. -/
structure Tinkers (E : Estate) (t t' : Tree) : Prop where
  kept : ∀ l, ¬E.loose l → t'.get? l = t.get? l
  wellFormed : t'.WellFormed
  builds : ∀ l, E.builds l → t'.get? l = t.get? l ∨ t'.get? l = none ∨
    ∃ number c x, t'.get? l = some (.file number c x)
  numbered : t.Numbered → t'.Numbered

theorem Tinkers.refl (h : t.WellFormed) : E.Tinkers t t :=
  ⟨fun _ _ => rfl, h, fun _ _ => .inl rfl, id⟩

theorem Tinkers.trans (h : E.Tinkers t t') (h' : E.Tinkers t' t'') : E.Tinkers t t'' := by
  refine ⟨fun l hl => (h'.kept l hl).trans (h.kept l hl), h'.wellFormed, fun l hl => ?_,
    h'.numbered ∘ h.numbered⟩
  rcases h'.builds l hl with he | he
  · rw [he]
    exact h.builds l hl
  · exact .inr he

theorem apart_of_way {S : Site} {Z : Location → Prop} (h : ∀ l, S.Way l → ¬Z l) : S.Apart Z :=
  ⟨h _ (.inl rfl), fun e he => h _ (.inr ⟨e, he, rfl⟩)⟩

theorem cache_not_below {l rest : Location} (h : E.cache.Way l) (hr : rest ≠ []) :
    l ≠ E.cache.root ++ rest := by
  rintro rfl
  rcases h with h | ⟨e, he, h⟩
  · exact hr (List.append_right_eq_self.mp h)
  · exact E.cache.outside e he (h ▸ List.prefix_append _ _)

theorem cache_apart_loose : E.cache.Apart E.loose := by
  refine apart_of_way fun l hl => ?_
  rintro (⟨s, rest, _, h⟩ | ⟨h, _⟩)
  · exact cache_not_below hl (by simp) (h.trans (List.append_assoc ..))
  · exact h.2 hl

theorem temp_apart_loose (k : Nat) : (E.temp k).Apart E.loose := by
  refine apart_of_way fun l hl => ?_
  rintro (⟨s, rest, _, rfl⟩ | ⟨_, _, h, _⟩)
  · exact E.outside k _ hl (by simp)
  · exact h k hl

theorem scratch_ne (h : E.scratch l) (rest : Location) : l ≠ E.cache.root ++ rest := by
  rintro rfl
  obtain ⟨k, s, hp⟩ := h
  rcases List.prefix_or_prefix_of_prefix hp (List.prefix_append _ _) with hc | hc
  · exact E.apart k s _ (.inl (.inl rfl)) hc
  · rcases List.prefix_concat_iff.mp hc with he | ht
    · exact E.apart k s _ (.inl (.inl rfl)) (he ▸ List.prefix_refl _)
    · exact E.outside k _ (.inl rfl) ht

theorem not_loose_of_scratch (h : E.scratch l) : ¬E.loose l := by
  rintro (⟨s, rest, _, hl⟩ | ⟨_, hs, _⟩)
  · exact scratch_ne h _ (hl.trans (List.append_assoc ..))
  · exact hs h

theorem Sound.tinkers (h : E.Sound t) (ht : E.Tinkers t t') : E.Sound t' := by
  refine ⟨h.cache.change ht.wellFormed cache_apart_loose ht.kept,
    fun k => (h.temp k).change ht.wellFormed (temp_apart_loose k) ht.kept, fun l hl target => ?_,
    ht.numbered h.numbered⟩
  by_cases hb : E.builds l
  · rcases ht.builds l hb with he | he | ⟨_, _, _, he⟩
    · exact he ▸ h.clean l hl target
    · simp [he]
    · simp [he]
  · have hn : ¬E.loose l := by
      rcases hl with hl | hl
      · rintro (hb' | ⟨hc, _⟩)
        · exact hb hb'
        · exact hc.1 hl
      · exact not_loose_of_scratch hl
    rw [ht.kept l hn]
    exact h.clean l hl target

def Tame (E : Estate) (a : Activity) : Prop :=
  ∀ e ∈ a.effects, ∀ change, e.2 = .files change → ∀ t, E.Sound t → E.Tinkers t (change t)

/-- A process that has the directories, and whose programs keep to what they may change. -/
structure Calm (E : Estate) (w : World) : Prop where
  sound : E.Sound w.files
  tame : ∀ c ∈ w.children, E.Tame c.activity

structure Drifts (E : Estate) (w w' : World) : Prop where
  files : E.Tinkers w.files w'.files
  environment : w'.environment = w.environment
  locked : w'.locked = w.locked
  tame : ∀ c ∈ w'.children, E.Tame c.activity

variable {w w' w'' : World}

theorem Drifts.calm (h : E.Drifts w w') (hw : E.Calm w) : E.Calm w' :=
  ⟨hw.sound.tinkers h.files, h.tame⟩

def custom (E : Estate) : Custom where
  sound := E.Sound
  may := E.Tinkers
  refl h := .refl h.cache.wellFormed
  trans h h' := h.trans h'
  keeps h ht := h.tinkers ht

theorem Calm.custom (hw : E.Calm w) : E.custom.Calm w := ⟨hw.sound, hw.tame⟩

theorem Drifts.of_eq (hw : E.Calm w) (hf : w'.files = w.files)
    (he : w'.environment = w.environment) (hl : w'.locked = w.locked)
    (hc : w'.children = w.children) : E.Drifts w w' :=
  ⟨by rw [hf]; exact .refl hw.sound.cache.wellFormed, he, hl, hc ▸ hw.tame⟩

theorem Drifts.of_custom (h : E.custom.Drifts w w') : E.Drifts w w' :=
  ⟨h.files, h.environment, h.locked, h.tame⟩

end Estate

end CompiledModels

namespace CompiledModels

open Files

namespace Estate

variable {E : Estate} {m : Machine} {s : Step} {w w' : World}
theorem idle_drifts {r : s.Reply} (hs : s.isIdle = true) (hw : E.Calm w)
    (ha : ∀ i a, s = .start i → m.start w.environment w.files i = .ok a → E.Tame a)
    (h : s.exec m w = some (r, w')) : E.Drifts w w' :=
  .of_custom (Custom.idle_drifts hs hw.custom ha h)

def lock (E : Estate) (id : ModelIdentity) : Location :=
  E.cache.root ++ [".locks", id.name ++ ".lock"]

def yard (E : Estate) : Location → Prop := fun l =>
  E.scratch l ∨ ∃ s rest, s ≠ ".locks" ∧ l = E.cache.root ++ s :: rest

inductive Spells (E : Estate) (cwd : Location) : Path → Location → Prop
  | cache {q : Path} {names : List String} (hq : E.cache.Leads cwd q) (hn : names ≠ [])
      (hp : ∀ s ∈ names, IsPlain s) : Spells E cwd (q.joins names) (E.cache.root ++ names)
  | temp {k : Nat} {q : Path} {s : String} {names : List String} (hq : (E.temp k).Leads cwd q)
      (hp : ∀ n ∈ names, IsPlain n) :
      Spells E cwd (q.joins (("stanbind_build_" ++ s) :: names))
        ((E.temp k).root ++ ("stanbind_build_" ++ s) :: names)

variable {t t' : Tree} {cwd l k : Location} {p q : Path} {follow : Bool}

theorem Spells.resolve (h : E.Spells cwd p l) (ht : E.Sound t)
    (hk : t.resolve cwd follow p = .ok k) :
    k = l ∧ ∃ dir s, l = dir ++ [s] ∧ t.get? dir = some .directory ∧ IsProper s := by
  have hsplit {root : Location} {names : List String} (hn : names ≠ [])
      (hd : t.get? (root ++ names.dropLast) = some .directory) (hp : ∀ s ∈ names, IsProper s) :
      ∃ dir s, root ++ names = dir ++ [s] ∧ t.get? dir = some .directory ∧ IsProper s :=
    ⟨root ++ names.dropLast, names.getLast hn, by
      rw [List.append_assoc, List.dropLast_append_getLast], hd, hp _ (List.getLast_mem hn)⟩
  cases h with
  | @cache q names hq hn hp =>
    have hl : t.Unlinked follow E.cache.root names := fun pre _ _ _ =>
      ht.clean _ (.inl (List.prefix_append _ _))
    obtain ⟨rfl, hd, hproper, _⟩ := hq.resolve_ok ht.cache hn hp hl hk
    exact ⟨rfl, hsplit hn hd hproper⟩
  | @temp i q s names hq hp =>
    have hl : t.Unlinked follow (E.temp i).root (("stanbind_build_" ++ s) :: names) := by
      rintro pre hne ⟨rest, hr⟩ _
      obtain ⟨a, pre, rfl⟩ := List.exists_cons_of_ne_nil hne
      simp only [List.cons_append, List.cons.injEq] at hr
      exact ht.clean _ (.inr ⟨i, s, pre, by simp [hr.1]⟩)
    have hplain : ∀ n ∈ ("stanbind_build_" ++ s) :: names, IsPlain n :=
      List.forall_mem_cons.mpr ⟨plain_of_start (by decide) s, hp⟩
    obtain ⟨rfl, hd, hproper, _⟩ := hq.resolve_ok (ht.temp i) (by simp) hplain hl hk
    exact ⟨rfl, hsplit (by simp) hd hproper⟩

def Alike (n n' : Option Node) : Prop :=
  n' = n ∨ ∃ number c x c' x', n = some (.file number c x) ∧ n' = some (.file number c' x')

structure Shifts (E : Estate) (t t' : Tree) : Prop where
  kept : ∀ l, ¬E.yard l → t.get? l ≠ none → Alike (t.get? l) (t'.get? l)
  wellFormed : t'.WellFormed
  clean : ∀ l, t'.NoLink l ∨ ∃ k, (E.yard k ∨ k = l) ∧ t'.get? l = t.get? k
  numbered : t.Numbered → t'.Numbered

theorem Alike.directory {n : Option Node} (h : Alike (some .directory) n) : n = some .directory := by
  rcases h with h | ⟨_, _, _, _, _, h, _⟩
  · exact h
  · simp at h

theorem Alike.solid {n : Option Node} {m : Node} (hm : m.isFile = false) (h : Alike (some m) n) :
    n = some m := by
  rcases h with h | ⟨_, _, _, _, _, h, _⟩
  · exact h
  · simp only [Option.some.injEq] at h
    simp [h, Node.isFile] at hm

theorem yard_append (h : E.yard l) (rest : Location) : E.yard (l ++ rest) := by
  rcases h with ⟨k, s, more, rfl⟩ | ⟨s, more, hs, rfl⟩
  · exact .inl ⟨k, s, more ++ rest, by simp⟩
  · exact .inr ⟨s, more ++ rest, hs, by simp⟩

theorem cache_apart_yard : E.cache.Apart E.yard := by
  refine apart_of_way fun l hl => ?_
  rintro (⟨k, s, h⟩ | ⟨s, rest, _, h⟩)
  · exact E.apart k s l (.inl hl) h
  · exact cache_not_below hl (by simp) h

theorem temp_apart_yard (k : Nat) : (E.temp k).Apart E.yard := by
  refine apart_of_way fun l hl => ?_
  rintro (⟨k', s, h⟩ | ⟨s, rest, _, rfl⟩)
  · exact E.apart k' s l (.inr ⟨k, hl⟩) h
  · exact E.outside k _ hl (List.prefix_append _ _)

theorem Stands.shifts {S : Site} (h : S.Stands t) (ht : E.Shifts t t') (hz : S.Apart E.yard) :
    S.Stands t' := by
  refine ⟨ht.wellFormed, ?_, fun e he => ?_⟩
  · have hr := ht.kept _ hz.1 (by simp [h.root])
    rw [h.root] at hr
    exact hr.directory
  · have hp := ht.kept _ (hz.2 e he) (by simp [h.pins e he])
    rw [h.pins e he] at hp
    exact hp.solid (S.solid e he)

theorem Sound.shifts (h : E.Sound t) (ht : E.Shifts t t') : E.Sound t' := by
  refine ⟨Stands.shifts h.cache ht cache_apart_yard, fun k => Stands.shifts (h.temp k) ht (temp_apart_yard k),
    fun l hl => ?_, ht.numbered h.numbered⟩
  rcases ht.clean l with hn | ⟨k, hk, he⟩
  · exact hn
  · have hk' : E.cache.root <+: k ∨ E.scratch k := by
      rcases hk with (hk | ⟨s, rest, _, rfl⟩) | rfl
      · exact .inr hk
      · exact .inl (List.prefix_append _ _)
      · exact hl
    exact fun target hg => h.clean k hk' target (he ▸ hg)

section Shifting

variable (hw : t.WellFormed)
include hw

theorem Shifts.refl : E.Shifts t t :=
  ⟨fun _ _ _ => .inl rfl, hw, fun l => .inr ⟨l, .inr rfl, rfl⟩, id⟩

omit hw in
theorem shifts_added {t' : Tree} {n : Node} (hw : t'.WellFormed) (hg : t.get? l = none)
    (hn : n.isLink = false) (hget : ∀ k, t'.get? k = if k = l then some n else t.get? k)
    (hnum : t.Numbered → t'.Numbered) : E.Shifts t t' := by
  refine ⟨fun k _ hk => .inl ?_, hw, fun k => ?_, hnum⟩
  · rw [hget, if_neg]
    rintro rfl
    exact hk hg
  · by_cases hk : k = l
    · refine .inl fun target ht => ?_
      rw [hget, if_pos hk, Option.some.injEq] at ht
      simp [ht, Node.isLink] at hn
    · exact .inr ⟨k, .inr rfl, by rw [hget, if_neg hk]⟩

theorem shifts_makeDirectory (hl : ∃ dir s, l = dir ++ [s] ∧ t.get? dir = some .directory ∧
      IsProper s) (hg : t.get? l = none) : E.Shifts t (t.insert l .directory) := by
  obtain ⟨dir, s, rfl, hd, hs⟩ := hl
  exact shifts_added (hw.insert hd hs hg) hg rfl (Tree.get?_insert (by simp)) fun h =>
    h.insert (by simp) rfl

theorem shifts_insertFile {c : Content} {x : Bool} (hl : ∃ dir s, l = dir ++ [s] ∧
      t.get? dir = some .directory ∧ IsProper s) (hg : t.get? l = none) :
    E.Shifts t (t.insertFile l c x) := by
  obtain ⟨dir, s, rfl, hd, hs⟩ := hl
  exact shifts_added (hw.insertFile hd hs hg) hg rfl (Tree.get?_insertFile (by simp)) fun h =>
    h.insertFile (by simp)

theorem shifts_setFile {number : Nat} {c : Content} {x : Bool} :
    E.Shifts t (t.setFile number c x) := by
  refine ⟨fun k _ hk => ?_, hw.setFile, fun k => ?_, fun h => h.setFile⟩
  · rw [Tree.get?_setFile]
    obtain ⟨n, hn⟩ := Option.ne_none_iff_exists'.mp hk
    rw [hn]
    cases n with
    | file number' c' x' =>
      by_cases he : number' = number
      · exact .inr ⟨number', c', x', c, x, rfl, by simp [Tree.rewritten, he]⟩
      · exact .inl (by simp [Tree.rewritten, he])
    | _ => exact .inl rfl
  · rw [Tree.get?_setFile]
    cases hn : t.get? k with
    | none => exact .inr ⟨k, .inr rfl, by simp [hn]⟩
    | some n =>
      cases n with
      | file number' c' x' =>
        refine .inl fun target ht => ?_
        rw [Tree.get?_setFile, hn] at ht
        simp only [Option.map_some, Tree.rewritten, Option.some.injEq] at ht
        split at ht <;> simp at ht
      | _ => exact .inr ⟨k, .inr rfl, by simp [hn, Tree.rewritten]⟩

theorem shifts_erase (hl : E.yard l) (hn : l ≠ [])
    (hb : ∀ rest, rest ≠ [] → t.get? (l ++ rest) = none) : E.Shifts t (t.erase l) := by
  have hget := Tree.get?_erase (t := t) hn
  refine ⟨fun k hk _ => .inl ?_, hw.erase hn hb, fun k => ?_, fun h => h.erase hn⟩
  · rw [hget, if_neg]
    rintro rfl
    exact hk hl
  · by_cases hk : k = l
    · exact .inl fun target => by rw [hget, if_pos hk]; simp
    · exact .inr ⟨k, .inr rfl, by rw [hget, if_neg hk]⟩

theorem shifts_move {a b : Location} (hm : t.Movable a b) (ha : E.yard a) (hb : E.yard b)
    (hl : ∃ dir s, b = dir ++ [s] ∧ t.get? dir = some .directory ∧ IsProper s) :
    E.Shifts t (t.move a b) := by
  obtain ⟨dir, s, rfl, hd, hs⟩ := hl
  refine ⟨fun k hk _ => .inl ?_, hw.moved hm hs hd, fun k => ?_, fun h => ?_⟩
  · refine Tree.get?_moved_other hw hm ?_ ?_
    · rintro ⟨rest, rfl⟩
      exact hk (yard_append ha rest)
    · rintro ⟨rest, rfl⟩
      exact hk (yard_append hb rest)
  · rw [Tree.get?_moved hw hm]
    split
    · exact .inr ⟨_, .inl (yard_append ha _), rfl⟩
    · split
      · exact .inl fun target => by rw [Tree.get?_moved hw hm, if_neg ‹_›, if_pos ‹_›]; simp
      · exact .inr ⟨k, .inr rfl, rfl⟩
  · refine h.congr rfl fun k number c x hk => ?_
    rw [Tree.get?_moved hw hm] at hk
    split at hk
    · exact ⟨_, c, x, hk⟩
    · split at hk
      · simp at hk
      · exact ⟨k, c, x, hk⟩

end Shifting

section Operations

variable (ht : E.Sound t) (hl : E.Spells cwd p l)
include ht hl

theorem write_shifts {c : Content} (h : t.write cwd p c = .ok t') : E.Shifts t t' := by
  obtain ⟨k, hk, h⟩ := Tree.write_eq_ok.mp h
  obtain ⟨rfl, hd⟩ := hl.resolve ht hk
  rcases h with ⟨_, _, _, _, rfl⟩ | ⟨_, _, _, _, rfl⟩ | ⟨hg, _, rfl⟩
  · exact shifts_setFile ht.cache.wellFormed
  · exact .refl ht.cache.wellFormed
  · exact shifts_insertFile ht.cache.wellFormed hd hg

theorem copy_shifts {q : Path} (h : t.copy cwd q p = .ok t') : E.Shifts t t' := by
  obtain ⟨_, _, _, _, k, hk, h⟩ := Tree.copy_eq_ok.mp h
  obtain ⟨rfl, hd⟩ := hl.resolve ht hk
  rcases h with ⟨_, _, _, _, rfl⟩ | ⟨_, _, _, _, rfl⟩ | ⟨hg, _, rfl⟩
  · exact shifts_setFile ht.cache.wellFormed
  · exact .refl ht.cache.wellFormed
  · exact shifts_insertFile ht.cache.wellFormed hd hg

theorem makeDirectory_shifts (h : t.makeDirectory cwd p = .ok t') : E.Shifts t t' := by
  obtain ⟨k, hk, hg, rfl⟩ := Tree.makeDirectory_eq_ok.mp h
  obtain ⟨rfl, hd⟩ := hl.resolve ht hk
  exact shifts_makeDirectory ht.cache.wellFormed hd hg

theorem openOrCreate_shifts {number : Nat} (h : t.openOrCreate cwd p = .ok (number, t')) :
    E.Shifts t t' ∧ ∃ c x, t'.get? l = some (.file number c x) := by
  obtain ⟨k, hk, h⟩ := Tree.openOrCreate_eq_ok.mp h
  obtain ⟨rfl, hd⟩ := hl.resolve ht hk
  rcases h with ⟨c, x, hg, rfl⟩ | ⟨hg, _, rfl, rfl⟩
  · exact ⟨.refl ht.cache.wellFormed, c, x, hg⟩
  · refine ⟨shifts_insertFile ht.cache.wellFormed hd hg, .empty, false, ?_⟩
    obtain ⟨dir, s, rfl, _⟩ := hd
    rw [Tree.get?_insertFile (by simp), if_pos rfl]

variable (hy : E.yard l)
include hy

theorem removeFile_shifts (h : t.removeFile cwd p = .ok t') : E.Shifts t t' := by
  obtain ⟨k, hk, n, hg, hn, rfl⟩ := Tree.removeFile_eq_ok.mp h
  obtain ⟨rfl, dir, s, rfl, _⟩ := hl.resolve ht hk
  refine shifts_erase ht.cache.wellFormed hy (by simp) fun rest hr =>
    ht.cache.wellFormed.get?_below ?_ hr
  rw [hg, ne_eq, Option.some.injEq]
  rintro rfl
  simp [Node.isDirectory] at hn

theorem removeDirectory_shifts (h : t.removeDirectory cwd p = .ok t') : E.Shifts t t' := by
  obtain ⟨k, hk, hg, hne, hc, rfl⟩ := Tree.removeDirectory_eq_ok.mp h
  obtain ⟨rfl, _⟩ := hl.resolve ht hk
  exact shifts_erase ht.cache.wellFormed hy hne fun rest hr =>
    ht.cache.wellFormed.get?_below_empty hc hr

theorem rename_shifts {q : Path} (hk : E.Spells cwd q k) (hyk : E.yard k)
    (h : t.rename cwd p q = .ok t') : E.Shifts t t' := by
  obtain ⟨a, b, ha, hb, h⟩ := Tree.rename_eq_ok h
  obtain ⟨rfl, _⟩ := hl.resolve ht ha
  obtain ⟨rfl, hd⟩ := hk.resolve ht hb
  rcases h with ⟨rfl, _⟩ | ⟨rfl, _⟩ | ⟨hm, rfl, _⟩
  · exact .refl ht.cache.wellFormed
  · exact .refl ht.cache.wellFormed
  · exact shifts_move ht.cache.wellFormed hm hy hyk hd

end Operations

end Estate

def Step.Obeys (E : Estate) (env : Environment) (tools : Invocation → Prop) : Step → Prop
  | .write p _ | .removeFile p | .removeDirectory p | .copy _ p =>
    ∃ l, E.Spells env.location p l ∧ E.yard l
  | .makeDirectory p => (∃ l, E.Spells env.location p l) ∨
    ∃ q, E.cache.Held env.location q ∧ Above q p
  | .rename p q => (∃ l, E.Spells env.location p l ∧ E.yard l) ∧
    ∃ k, E.Spells env.location q k ∧ E.yard k
  | .openLockFile _ | .acquire _ | .release _ => False
  | .getOrLoad .. | .invalidate .. | .newRegistry | .enter _ | .leave _ => False
  | .start i => tools i
  | _ => True

namespace Estate

def Orderly (E : Estate) (m : Machine) (tools : Invocation → Prop) : Prop :=
  ∀ i, tools i → ∀ env t a, E.Sound t → m.start env t i = .ok a → E.Tame a

structure Upholds (E : Estate) (w w' : World) : Prop where
  calm : E.Calm w'
  environment : w'.environment = w.environment
  locked : w'.locked = w.locked
  numbers : ∀ id number c x, w.files.get? (E.lock id) = some (.file number c x) →
    ∃ c' x', w'.files.get? (E.lock id) = some (.file number c' x')

variable {E : Estate} {m : Machine} {s : Step} {w w' : World} {env : Environment}
  {tools : Invocation → Prop}

theorem not_yard_lock (E : Estate) (id : ModelIdentity) : ¬E.yard (E.lock id) := by
  rintro (h | ⟨s, rest, hs, h⟩)
  · exact scratch_ne h _ rfl
  · simp only [lock, List.append_cancel_left_eq, List.cons.injEq] at h
    exact hs h.1.symm

theorem not_loose_lock (E : Estate) (id : ModelIdentity) : ¬E.loose (E.lock id) := by
  rintro (⟨s, rest, _, h⟩ | ⟨⟨h, _⟩, _⟩)
  · simp [lock] at h
  · exact h (List.prefix_append _ _)

theorem Upholds.drifts (hw : E.Calm w) (h : E.Drifts w w') : E.Upholds w w' :=
  ⟨h.calm hw, h.environment, h.locked, fun id _ _ _ hg =>
    ⟨_, _, (h.files.kept _ (E.not_loose_lock id)).trans hg⟩⟩

theorem Upholds.shifts {t : Tree} (hw : E.Calm w) (h : E.Shifts w.files t) :
    E.Upholds w { w with files := t } := by
  refine ⟨⟨hw.sound.shifts h, hw.tame⟩, rfl, rfl, fun id number c x hg => ?_⟩
  rcases h.kept _ (E.not_yard_lock id) (by simp [hg]) with he | ⟨_, _, _, c', x', he, he'⟩
  · exact ⟨c, x, he.trans hg⟩
  · rw [hg, Option.some.injEq, Node.file.injEq] at he
    exact ⟨c', x', he.1 ▸ he'⟩

theorem Upholds.trans {w'' : World} (h : E.Upholds w w') (h' : E.Upholds w' w'') :
    E.Upholds w w'' := by
  refine ⟨h'.calm, h'.environment.trans h.environment, h'.locked.trans h.locked,
    fun id number c x hg => ?_⟩
  obtain ⟨c', x', hg'⟩ := h.numbers id number c x hg
  exact h'.numbers id number c' x' hg'

theorem onFiles_upholds {op : Except FileError Tree} {r : Except FileError Unit} (hw : E.Calm w)
    (ht : ∀ t, op = .ok t → E.Shifts w.files t) (h : Step.onFiles w op = (r, w')) :
    E.Upholds w w' := by
  rcases Step.settles_of_onFiles h with ⟨_, _, rfl⟩ | ⟨_, t, hop, rfl⟩
  · exact .drifts hw (.of_eq hw rfl rfl rfl rfl)
  · exact .shifts hw (ht t hop)

theorem obeys_upholds {r : s.Reply} (hm : E.Orderly m tools) (hw : E.Calm w)
    (he : w.environment = env) (hs : s.Obeys E env tools) (h : s.exec m w = some (r, w')) :
    E.Upholds w w' := by
  subst he
  have hd : w.directory = w.environment.location := rfl
  cases s with
  | write p bytes =>
    obtain ⟨l, hl, _⟩ := hs
    exact onFiles_upholds hw (fun t ht => write_shifts hw.sound hl (hd ▸ ht)) (Option.some.inj h)
  | copy p q =>
    obtain ⟨l, hl, _⟩ := hs
    exact onFiles_upholds hw (fun t ht => copy_shifts hw.sound hl (hd ▸ ht)) (Option.some.inj h)
  | removeFile p =>
    obtain ⟨l, hl, hy⟩ := hs
    exact onFiles_upholds hw (fun t ht => removeFile_shifts hw.sound hl hy (hd ▸ ht)) (Option.some.inj h)
  | removeDirectory p =>
    obtain ⟨l, hl, hy⟩ := hs
    exact onFiles_upholds hw (fun t ht => removeDirectory_shifts hw.sound hl hy (hd ▸ ht))
      (Option.some.inj h)
  | rename p q =>
    obtain ⟨⟨l, hl, hy⟩, k, hk, hyk⟩ := hs
    exact onFiles_upholds hw (fun t ht => rename_shifts hw.sound hl hy hk hyk (hd ▸ ht))
      (Option.some.inj h)
  | makeDirectory p =>
    refine onFiles_upholds hw (fun t ht => ?_) (Option.some.inj h)
    rcases hs with ⟨l, hl⟩ | ⟨q, hq, hp⟩
    · exact makeDirectory_shifts hw.sound hl (hd ▸ ht)
    · obtain ⟨l, hr, hg, _⟩ := Tree.makeDirectory_eq_ok.mp ht
      exact absurd hg (hq p hp _ hw.sound.cache l (hd ▸ hr))
  | openLockFile p => exact hs.elim
  | acquire n => exact hs.elim
  | release n => exact hs.elim
  | start i =>
    exact .drifts hw (idle_drifts (s := .start i) rfl hw (fun j a hj ha => by
      obtain rfl := Step.start.inj hj
      exact hm i hs _ _ a hw.sound ha) h)
  | _ => exact .drifts hw (idle_drifts rfl hw (by simp) h)

end Estate

end CompiledModels
