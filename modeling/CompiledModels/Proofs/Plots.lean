import CompiledModels.Proofs.Files.Folder
import CompiledModels.Proofs.Site

/-!
A file tree that several callers share, each with a plot of its own: what a caller does in its plot
the others do not see, and two trees that a caller cannot tell apart stay so.
-/

namespace CompiledModels

namespace Files.Tree

variable {t t' t₁ : Tree} {K : Location → Prop} {l a b dir : Location} {n : Node} {s : String}

section Part

open scoped Classical

noncomputable def part (t : Tree) (K : Location → Prop) : List (Location × Node) :=
  t.entries.filter fun e => K e.1

theorem find?_part (hl : K l) : (t.part K).find? (·.1 = l) = t.entries.find? (·.1 = l) := by
  rw [part, List.find?_filter]
  congr 1
  funext e
  by_cases he : e.1 = l <;> simp [he, hl]

theorem get?_of_part (h : t'.part K = t.part K) (hl : K l) : t'.get? l = t.get? l := by
  by_cases hne : l = []
  · rw [hne, get?_nil, get?_nil]
  · rw [get?_of_ne hne, get?_of_ne hne, ← find?_part hl, ← find?_part hl, h]

theorem children_part (hdir : ∀ s, K (dir ++ [s])) :
    t.children dir = (t.part K).filterMap fun e =>
      (childName? dir e.1).map fun name => ⟨name, e.2.isDirectory⟩ := by
  rw [part, List.filterMap_filter, children]
  refine List.filterMap_congr fun e _ => ?_
  cases hc : childName? dir e.1 with
  | none => simp
  | some name =>
    have hk : K e.1 := childName?_eq_some_iff.mp hc ▸ hdir name
    simp [hk]

theorem part_erase : (t.erase l).part K = (t.part K).filter (·.1 ≠ l) := by
  simp only [part, erase, List.filter_filter, Bool.and_comm]

theorem part_erase_other (hl : ¬K l) : (t.erase l).part K = t.part K := by
  rw [part_erase]
  refine List.filter_eq_self.mpr fun e he => ?_
  have hk : K e.1 := by simpa using (List.mem_filter.mp he).2
  rw [decide_eq_true_eq]
  rintro rfl
  exact hl hk

theorem part_insert (hl : K l) : (t.insert l n).part K = (t.part K).filter (·.1 ≠ l) ++ [(l, n)] := by
  rw [← part_erase]
  simp [part, insert, erase, List.filter_append, hl]

theorem part_insert_other (hl : ¬K l) : (t.insert l n).part K = t.part K := by
  have hnil : [(l, n)].filter (fun e => decide (K e.1)) = [] := by simp [hl]
  rw [← part_erase_other (t := t) hl, part, insert, List.filter_append, hnil, List.append_nil]
  rfl

theorem part_setFile {number : Nat} {c : Content} {x : Bool} :
    (t.setFile number c x).part K = (t.part K).map fun e => (e.1, rewritten number c x e.2) := by
  have hentries : (t.setFile number c x).entries = t.entries.map fun e => (e.1, rewritten number c x e.2) := by
    simp only [setFile]
    refine List.map_congr_left fun e _ => ?_
    obtain ⟨k, m⟩ := e
    cases m <;> simp only [rewritten]
    split <;> rfl
  simp only [part, hentries, List.filter_map, Function.comp_def]

theorem part_move (ha : ∀ rest, K (a ++ rest)) (hb : ∀ rest, K (b ++ rest)) :
    (t.move a b).part K = ((t.part K).filter (·.1 ≠ b)).map fun e =>
      if a.isPrefixOf e.1 then (b ++ e.1.drop a.length, e.2) else e := by
  have hkey (e : Location × Node) :
      K (if a.isPrefixOf e.1 then (b ++ e.1.drop a.length, e.2) else e).1 ↔ K e.1 := by
    split
    case isTrue h =>
      obtain ⟨rest, he⟩ := List.isPrefixOf_iff_prefix.mp h
      exact iff_of_true (hb _) (he ▸ ha rest)
    case isFalse => rfl
  simp only [part, move, List.filter_map, List.filter_filter, Function.comp_def, hkey, Bool.and_comm]

theorem part_move_other (ha : ∀ rest, ¬K (a ++ rest)) (hb : ∀ rest, ¬K (b ++ rest)) :
    (t.move a b).part K = t.part K := by
  have hkey (e : Location × Node) :
      K (if a.isPrefixOf e.1 then (b ++ e.1.drop a.length, e.2) else e).1 ↔ K e.1 := by
    split
    case isTrue h =>
      obtain ⟨rest, he⟩ := List.isPrefixOf_iff_prefix.mp h
      exact iff_of_false (hb _) (he ▸ ha rest)
    case isFalse => rfl
  have hstay : ∀ e ∈ t.part K, (if a.isPrefixOf e.1 then (b ++ e.1.drop a.length, e.2) else e) = e := by
    intro e he
    split
    case isTrue h =>
      obtain ⟨rest, hr⟩ := List.isPrefixOf_iff_prefix.mp h
      have hk : K e.1 := by simpa using (List.mem_filter.mp he).2
      exact absurd hk (hr ▸ ha rest)
    case isFalse => rfl
  have hmoved : (t.move a b).part K = ((t.erase b).part K).map fun e =>
      if a.isPrefixOf e.1 then (b ++ e.1.drop a.length, e.2) else e := by
    simp only [part, move, erase, List.filter_map, Function.comp_def, hkey]
  rw [hmoved, part_erase_other (by simpa using hb [])]
  exact (List.map_congr_left hstay).trans (List.map_id _)

end Part

/-- No file has two names. -/
def Single (t : Tree) : Prop := ∀ k k' number c c' x x', t.get? k = some (.file number c x) →
  t.get? k' = some (.file number c' x') → k = k'

section Single

variable {number : Nat} {c c' : Content} {x x' : Bool}

theorem part_setFile_other (ht : t.WellFormed) (hs : t.Single) (hl : t.get? l = some (.file number c x))
    (hk : ¬K l) : (t.setFile number c' x').part K = t.part K := by
  rw [part_setFile]
  refine (List.map_congr_left fun e he => ?_).trans (List.map_id _)
  obtain ⟨hmem, hkey⟩ := List.mem_filter.mp he
  have hget := (ht.get?_iff (ht.nonempty _ hmem)).mpr hmem
  obtain ⟨k, m⟩ := e
  cases m with
  | file number' d y =>
    have hne : number' ≠ number := by
      rintro rfl
      obtain rfl := hs _ _ _ _ _ _ _ hget hl
      exact hk (by simpa using hkey)
    simp [rewritten, hne]
  | _ => simp [rewritten]

theorem Single.of_origin (hs : t.Single) (origin : Location → Location)
    (hinj : ∀ k k', t'.get? k ≠ none → t'.get? k' ≠ none → origin k = origin k' → k = k')
    (ho : ∀ k number c x, t'.get? k = some (.file number c x) →
      ∃ c x, t.get? (origin k) = some (.file number c x)) : t'.Single := by
  intro k k' number c c' x x' hk hk'
  obtain ⟨d, y, hd⟩ := ho k number c x hk
  obtain ⟨d', y', hd'⟩ := ho k' number c' x' hk'
  exact hinj k k' (by simp [hk]) (by simp [hk']) (hs _ _ _ _ _ _ _ hd hd')

theorem Single.insert (hs : t.Single) (hne : l ≠ []) (hn : n.isFile = false) : (t.insert l n).Single := by
  refine hs.of_origin id (fun _ _ _ _ h => h) fun k number c x hk => ?_
  rw [get?_insert hne] at hk
  split at hk
  · rw [Option.some.injEq] at hk
    simp [hk, Node.isFile] at hn
  · exact ⟨c, x, hk⟩

theorem Single.erase (hs : t.Single) (hne : l ≠ []) : (t.erase l).Single := by
  refine hs.of_origin id (fun _ _ _ _ h => h) fun k number c x hk => ?_
  rw [get?_erase hne] at hk
  split at hk
  · simp at hk
  · exact ⟨c, x, hk⟩

theorem Single.insertFile (hs : t.Single) (hn : t.Numbered) (hne : l ≠ []) :
    (t.insertFile l c x).Single := by
  intro k k' number d d' y y' hk hk'
  rw [get?_insertFile hne] at hk hk'
  split at hk <;> split at hk'
  case isTrue.isTrue h h' => exact h.trans h'.symm
  case isTrue.isFalse =>
    obtain ⟨rfl, -⟩ := Node.file.inj (Option.some.inj hk)
    exact absurd (hn _ _ _ _ hk') (Nat.lt_irrefl _)
  case isFalse.isTrue =>
    obtain ⟨rfl, -⟩ := Node.file.inj (Option.some.inj hk')
    exact absurd (hn _ _ _ _ hk) (Nat.lt_irrefl _)
  case isFalse.isFalse => exact hs _ _ _ _ _ _ _ hk hk'

theorem Single.setFile (hs : t.Single) : (t.setFile number c x).Single := by
  refine hs.of_origin id (fun _ _ _ _ h => h) fun k number' d y hk => ?_
  rw [get?_setFile, Option.map_eq_some_iff] at hk
  obtain ⟨m, hm, hk⟩ := hk
  cases m with
  | file other d' y' =>
    refine ⟨d', y', hm.trans ?_⟩
    simp only [rewritten] at hk
    split at hk <;> simp_all
  | _ => simp [rewritten] at hk

theorem Single.move (hs : t.Single) (ht : t.WellFormed) (hm : t.Movable a b) : (t.move a b).Single := by
  refine hs.of_origin (fun k => if b <+: k then a ++ k.drop b.length else k) (fun k k' hk hk' h => ?_)
    fun k number d y hk => ?_
  · rw [get?_moved ht hm] at hk hk'
    split at h <;> split at h
    case isTrue.isTrue hb hb' =>
      rw [← List.prefix_iff_eq_append.mp hb, ← List.prefix_iff_eq_append.mp hb', List.append_cancel_left h]
    case isTrue.isFalse hb hb' =>
      rw [if_neg hb', if_pos (h ▸ List.prefix_append _ _)] at hk'
      exact absurd rfl hk'
    case isFalse.isTrue hb hb' =>
      rw [if_neg hb, if_pos (h ▸ List.prefix_append _ _)] at hk
      exact absurd rfl hk
    case isFalse.isFalse => exact h
  · rw [get?_moved ht hm] at hk
    split at hk
    case isTrue hb => exact ⟨d, y, by rw [if_pos hb, hk]⟩
    case isFalse hb =>
      split at hk
      · simp at hk
      · exact ⟨d, y, by rw [if_neg hb, hk]⟩

theorem Numbered.move (hn : t.Numbered) (ht : t.WellFormed) (hm : t.Movable a b) : (t.move a b).Numbered := by
  refine hn.congr rfl fun k number d y hk => ?_
  rw [get?_moved ht hm] at hk
  split at hk
  · exact ⟨_, d, y, hk⟩
  · split at hk
    · simp at hk
    · exact ⟨_, d, y, hk⟩

end Single

/-- Makes a directory where there is nothing. -/
def ensure (t : Tree) (l : Location) : Tree := if t.get? l = none then t.insert l .directory else t

theorem nextNumber_ensure : (t.ensure l).nextNumber = t.nextNumber := by
  rw [ensure]
  split <;> rfl

theorem get?_ensure (hne : l ≠ []) (hl : t.Spot l) (k : Location) :
    (t.ensure l).get? k = if k = l then some .directory else t.get? k := by
  rw [ensure]
  split
  case isTrue => exact get?_insert hne k
  case isFalse hsome =>
    split
    case isTrue hk => exact hk ▸ hl.resolve_left hsome
    case isFalse => rfl

/-- A place in a directory, with a name that files can have. -/
def Room (t : Tree) (l : Location) : Prop := ∃ dir s, l = dir ++ [s] ∧ t.get? dir = some .directory ∧ IsProper s

theorem Room.ne_nil (h : t.Room l) : l ≠ [] := by
  obtain ⟨dir, s, rfl, -⟩ := h
  simp

end Files.Tree

open Files

/-- The directory of a cache that several callers share, and directories that modules come from. Each
caller has a plot of its own and a file for its lock, and all of them make the directories in
`shared`. -/
structure Plots (ι : Type) where
  cache : Site
  sources : Nat → Site
  shared : Location → Prop
  plot : ι → Location → Prop
  lock : ι → Location
  closed : ∀ {i l}, plot i l → ∀ rest, plot i (l ++ rest)
  apart : ∀ {i j l}, plot i l ∨ l = lock i → plot j l ∨ l = lock j → i = j
  unlocked : ∀ i, ¬plot i (lock i)
  common : ∀ {i l}, plot i l ∨ l = lock i → ¬shared l
  away : ∀ i, cache.Apart (fun l => plot i l ∨ l = lock i) ∧
    ∀ k, (sources k).Apart fun l => plot i l ∨ l = lock i
  level : cache.Apart shared ∧ ∀ k, (sources k).Apart shared

namespace Plots

variable {ι : Type} {P : Plots ι} {i j : ι} {t t' t₁ t₁' : Tree} {l a b dir : Location} {s : String}
  {c : Content} {x follow : Bool} {cwd : Location} {p q : Path} {number : Nat}

/-- What a caller goes by: all but what belongs to the others, and what all of them make. -/
def kept (P : Plots ι) (i : ι) (l : Location) : Prop :=
  ¬P.shared l ∧ ∀ j, j ≠ i → ¬(P.plot j l ∨ l = P.lock j)

theorem kept_of_own (h : P.plot i l ∨ l = P.lock i) : P.kept i l :=
  ⟨P.common h, fun _ hj hl => hj (P.apart hl h)⟩

theorem not_kept (h : P.plot i l ∨ l = P.lock i) (hj : j ≠ i) : ¬P.kept j l :=
  fun hk => hk.2 i (Ne.symm hj) h

theorem plot_ne_nil (h : P.plot i l) : l ≠ [] := by
  rintro rfl
  exact (P.away i).1.1 (.inl (by simpa using P.closed h P.cache.root))

structure Kempt (P : Plots ι) (t : Tree) : Prop where
  cache : P.cache.Stands t
  sources : ∀ k, (P.sources k).Stands t
  level : ∀ l, P.shared l → t.Spot l
  clean : ∀ i l, P.plot i l ∨ l = P.lock i → t.NoLink l
  numbered : t.Numbered
  single : t.Single

theorem Kempt.wellFormed (h : P.Kempt t) : t.WellFormed := h.cache.wellFormed

/-- A change that caller `i` can see nothing of, but that directories in `shared` may have come. -/
structure Spares (P : Plots ι) (i : ι) (t t₁ : Tree) : Prop where
  kempt : P.Kempt t → P.Kempt t₁
  part : t₁.part (P.kept i) = t.part (P.kept i)
  common : ∀ l, P.shared l → t₁.get? l = t.get? l ∨ t.get? l = none ∧ t₁.get? l = some .directory
  next : t.nextNumber ≤ t₁.nextNumber

theorem Spares.refl (t : Tree) : P.Spares i t t := ⟨id, rfl, fun _ _ => .inl rfl, Nat.le_refl _⟩

theorem Spares.trans {t₂ : Tree} (h : P.Spares i t t₁) (h' : P.Spares i t₁ t₂) : P.Spares i t t₂ := by
  refine ⟨h'.kempt ∘ h.kempt, h'.part.trans h.part, fun l hl => ?_, Nat.le_trans h.next h'.next⟩
  rcases h.common l hl with he | ⟨hnone, hd⟩
  · rw [← he]
    exact h'.common l hl
  · rcases h'.common l hl with he' | ⟨hnone', -⟩
    · exact .inr ⟨hnone, he'.trans hd⟩
    · simp [hd] at hnone'

theorem Spares.get? (h : P.Spares i t t₁) (hl : P.plot i l ∨ l = P.lock i) : t₁.get? l = t.get? l :=
  Tree.get?_of_part h.part (kept_of_own hl)

theorem Kempt.skip {n : Nat} (h : P.Kempt t) (hn : t.nextNumber ≤ n) : P.Kempt { t with nextNumber := n } := by
  have hw : Tree.WellFormed { t with nextNumber := n } :=
    ⟨h.wellFormed.nodup, h.wellFormed.nonempty, h.wellFormed.proper, h.wellFormed.parent⟩
  exact ⟨⟨hw, h.cache.root, h.cache.pins⟩, fun k => ⟨hw, (h.sources k).root, (h.sources k).pins⟩, h.level,
    h.clean, fun l number c x hl => Nat.lt_of_lt_of_le (h.numbered l number c x hl) hn, h.single⟩

theorem spares_skip {n : Nat} (hn : t.nextNumber ≤ n) : P.Spares i t { t with nextNumber := n } :=
  ⟨fun h => h.skip hn, rfl, fun _ _ => .inl rfl, hn⟩

/-- A change in the plot of caller `i` only. -/
structure Tends (P : Plots ι) (i : ι) (t t₁ : Tree) : Prop where
  kempt : P.Kempt t₁
  rest : ∀ l, ¬P.plot i l → t₁.get? l = t.get? l
  others : ∀ j, j ≠ i → t₁.part (P.kept j) = t.part (P.kept j)
  next : t.nextNumber ≤ t₁.nextNumber

theorem Tends.refl (h : P.Kempt t) : P.Tends i t t :=
  ⟨h, fun _ _ => rfl, fun _ _ => rfl, Nat.le_refl _⟩

theorem Tends.common (h : P.Tends i t t₁) (hl : P.shared l) : t₁.get? l = t.get? l :=
  h.rest l fun hp => P.common (.inl hp) hl

theorem Tends.spares (h : P.Tends i t t₁) (hj : j ≠ i) : P.Spares j t t₁ :=
  ⟨fun _ => h.kempt, h.others j hj, fun _ hl => .inl (h.common hl), h.next⟩

/-- Two trees that caller `i` cannot tell apart, the second one without what the others make. -/
structure Mirrors (P : Plots ι) (i : ι) (t t' : Tree) : Prop where
  kempt : P.Kempt t
  kempt' : P.Kempt t'
  part : t'.part (P.kept i) = t.part (P.kept i)
  common : ∀ l, P.shared l → t'.get? l = t.get? l ∨ t.get? l = some .directory ∧ t'.get? l = none

theorem Mirrors.refl (h : P.Kempt t) : P.Mirrors i t t := ⟨h, h, rfl, fun _ _ => .inl rfl⟩

theorem Mirrors.get? (h : P.Mirrors i t t') (hl : P.plot i l ∨ l = P.lock i) : t'.get? l = t.get? l :=
  Tree.get?_of_part h.part (kept_of_own hl)

theorem Mirrors.spares (h : P.Mirrors i t t') (hs : P.Spares i t t₁) : P.Mirrors i t₁ t' := by
  refine ⟨hs.kempt h.kempt, h.kempt', h.part.trans hs.part.symm, fun l hl => ?_⟩
  rcases hs.common l hl with he | ⟨hnone, hd⟩
  · rw [he]
    exact h.common l hl
  · rcases h.common l hl with he | ⟨hd', -⟩
    · exact .inr ⟨hd, he.trans hnone⟩
    · simp [hnone] at hd'

theorem Mirrors.both (h : P.Mirrors i t t') (ht : P.Tends i t t₁) (ht' : P.Tends i t' t₁')
    (hv : t₁'.part (P.kept i) = t₁.part (P.kept i)) : P.Mirrors i t₁ t₁' := by
  refine ⟨ht.kempt, ht'.kempt, hv, fun l hl => ?_⟩
  rw [ht.common hl, ht'.common hl]
  exact h.common l hl

theorem Tends.of_get? (h : P.Kempt t) (hw : t₁.WellFormed) (hget : ∀ l, ¬P.plot i l → t₁.get? l = t.get? l)
    (hothers : ∀ j, j ≠ i → t₁.part (P.kept j) = t.part (P.kept j))
    (hclean : ∀ l, P.plot i l → t₁.NoLink l) (hn : t₁.Numbered) (hs : t₁.Single)
    (hnext : t.nextNumber ≤ t₁.nextNumber) : P.Tends i t t₁ := by
  have hz (S : Site) (ha : S.Apart fun l => P.plot i l ∨ l = P.lock i) : S.Apart (P.plot i) :=
    ha.mono fun _ => .inl
  refine ⟨⟨h.cache.change hw (hz _ (P.away i).1) hget,
    fun k => (h.sources k).change hw (hz _ ((P.away i).2 k)) hget, fun l hl => ?_, fun j l hl => ?_, hn, hs⟩,
    hget, hothers, hnext⟩
  · rw [Tree.Spot, hget l fun hp => P.common (.inl hp) hl]
    exact h.level l hl
  · by_cases hp : P.plot i l
    · exact hclean l hp
    · exact fun target ht => h.clean j l hl target ((hget l hp).symm.trans ht)

/-- A place where a caller can put something: in its plot, and in a directory. -/
structure Ready (P : Plots ι) (i : ι) (t : Tree) (l : Location) : Prop where
  plot : P.plot i l
  room : t.Room l

section Changes

variable (h : P.Kempt t)
include h

theorem Kempt.noLink (hp : P.plot i l) : t.NoLink l := h.clean i l (.inl hp)

theorem tends_insert (hl : P.Ready i t l) (hnone : t.get? l = none) : P.Tends i t (t.insert l .directory) := by
  obtain ⟨hp, dir, s, rfl, hd, hs⟩ := hl
  have hne : dir ++ [s] ≠ [] := by simp
  refine .of_get? h (h.wellFormed.insert hd hs hnone) (fun k hk => ?_)
    (fun j hj => Tree.part_insert_other (not_kept (.inl hp) hj)) (fun k hk target ht => ?_)
    (h.numbered.insert hne rfl) (h.single.insert hne rfl) (Nat.le_refl _)
  · rw [Tree.get?_insert hne, if_neg]
    rintro rfl
    exact hk hp
  · rw [Tree.get?_insert hne] at ht
    split at ht
    · simp at ht
    · exact h.noLink hk target ht

theorem tends_insertFile (hl : P.Ready i t l) (hnone : t.get? l = none) :
    P.Tends i t (t.insertFile l c x) := by
  obtain ⟨hp, dir, s, rfl, hd, hs⟩ := hl
  have hne : dir ++ [s] ≠ [] := by simp
  refine .of_get? h (h.wellFormed.insertFile hd hs hnone) (fun k hk => ?_)
    (fun j hj => Tree.part_insert_other (not_kept (.inl hp) hj)) (fun k hk target ht => ?_)
    (h.numbered.insertFile hne) (h.single.insertFile h.numbered hne) (Nat.le_succ _)
  · rw [Tree.get?_insertFile hne, if_neg]
    rintro rfl
    exact hk hp
  · rw [Tree.get?_insertFile hne] at ht
    split at ht
    · simp at ht
    · exact h.noLink hk target ht

theorem tends_setFile {d : Content} {y : Bool} (hp : P.plot i l)
    (hl : t.get? l = some (.file number d y)) : P.Tends i t (t.setFile number c x) := by
  refine .of_get? h h.wellFormed.setFile (fun k hk => ?_)
    (fun j hj => Tree.part_setFile_other h.wellFormed h.single hl (not_kept (.inl hp) hj))
    (fun k hk target ht => ?_) h.numbered.setFile h.single.setFile (Nat.le_refl _)
  · rw [Tree.get?_setFile]
    cases hn : t.get? k with
    | none => rfl
    | some n =>
      cases n with
      | file other d' y' =>
        have hne : other ≠ number := by
          rintro rfl
          exact hk (h.single _ _ _ _ _ _ _ hl hn ▸ hp)
        simp [Tree.rewritten, hne]
      | _ => rfl
  · rw [Tree.get?_setFile, Option.map_eq_some_iff] at ht
    obtain ⟨n, hn, ht⟩ := ht
    cases n with
    | link target' => exact h.noLink hk target' hn
    | file other d' y' =>
      simp only [Tree.rewritten] at ht
      split at ht <;> simp at ht
    | _ => simp [Tree.rewritten] at ht

theorem tends_erase (hp : P.plot i l) (hn : ∀ rest, rest ≠ [] → t.get? (l ++ rest) = none) :
    P.Tends i t (t.erase l) := by
  have hne := plot_ne_nil hp
  refine .of_get? h (h.wellFormed.erase hne hn) (fun k hk => ?_)
    (fun j hj => Tree.part_erase_other (not_kept (.inl hp) hj)) (fun k hk target ht => ?_)
    (h.numbered.erase hne) (h.single.erase hne) (Nat.le_refl _)
  · rw [Tree.get?_erase hne, if_neg]
    rintro rfl
    exact hk hp
  · rw [Tree.get?_erase hne] at ht
    split at ht
    · simp at ht
    · exact h.noLink hk target ht

theorem tends_move (ha : P.plot i a) (hb : P.Ready i t b) (hm : t.Movable a b) :
    P.Tends i t (t.move a b) := by
  obtain ⟨hp, dir, s, rfl, hd, hs⟩ := hb
  refine .of_get? h (h.wellFormed.moved hm hs hd) (fun k hk => ?_)
    (fun j hj => Tree.part_move_other (fun rest => not_kept (.inl (P.closed ha rest)) hj)
      fun rest => not_kept (.inl (P.closed hp rest)) hj) (fun k hk target ht => ?_)
    (h.numbered.move h.wellFormed hm) (h.single.move h.wellFormed hm) (Nat.le_refl _)
  · refine Tree.get?_moved_other h.wellFormed hm ?_ ?_
    · rintro ⟨rest, rfl⟩
      exact hk (P.closed ha rest)
    · rintro ⟨rest, rfl⟩
      exact hk (P.closed hp rest)
  · rw [Tree.get?_moved h.wellFormed hm] at ht
    split at ht
    · exact h.noLink (P.closed ha _) target ht
    · split at ht
      · simp at ht
      · exact h.noLink hk target ht

end Changes

section Growth

variable {n : Node} (h : P.Kempt t)
include h

theorem Kempt.grow (hw : t₁.WellFormed) (hget : ∀ k, t₁.get? k = if k = l then some n else t.get? k)
    (ha : P.cache.Apart (· = l) ∧ ∀ k, (P.sources k).Apart (· = l)) (hl : P.shared l → n = .directory)
    (hlink : n.isLink = false) (hn : t₁.Numbered) (hs : t₁.Single) : P.Kempt t₁ := by
  have hother (k : Location) (hk : k ≠ l) : t₁.get? k = t.get? k := (hget k).trans (if_neg hk)
  refine ⟨h.cache.change hw ha.1 hother, fun k => (h.sources k).change hw (ha.2 k) hother, fun k hk => ?_,
    fun i k hk target ht => ?_, hn, hs⟩
  · by_cases he : k = l
    · subst he
      exact .inr ((hget k).trans (by rw [if_pos rfl, hl hk]))
    · rw [Tree.Spot, hother k he]
      exact h.level k hk
  · by_cases he : k = l
    · rw [hget, if_pos he, Option.some.injEq] at ht
      simp [ht, Node.isLink] at hlink
    · exact h.clean i k hk target ((hother k he).symm.trans ht)

theorem Kempt.ensure (hl : P.shared l) (hr : t.Room l) : P.Kempt (t.ensure l) := by
  rw [Tree.ensure]
  split
  case isTrue hnone =>
    obtain ⟨dir, s, rfl, hd, hs⟩ := hr
    have hne : dir ++ [s] ≠ [] := by simp
    have hz (S : Site) (ha : S.Apart P.shared) : S.Apart (· = dir ++ [s]) := ha.mono fun _ he => he ▸ hl
    exact h.grow (h.wellFormed.insert hd hs hnone) (Tree.get?_insert hne)
      ⟨hz _ P.level.1, fun k => hz _ (P.level.2 k)⟩ (fun _ => rfl) rfl (h.numbered.insert hne rfl)
      (h.single.insert hne rfl)
  case isFalse => exact h

theorem spares_ensure (hl : P.shared l) (hr : t.Room l) : P.Spares i t (t.ensure l) := by
  have hkempt := h.ensure hl hr
  rw [Tree.ensure] at hkempt ⊢
  split at hkempt
  case isFalse hsome =>
    rw [if_neg hsome]
    exact .refl t
  case isTrue hnone =>
    rw [if_pos hnone]
    refine ⟨fun _ => hkempt, Tree.part_insert_other fun hk => hk.1 hl, fun k _ => ?_, Nat.le_refl _⟩
    rw [Tree.get?_insert hr.ne_nil]
    split
    case isTrue hk => exact .inr ⟨hk ▸ hnone, rfl⟩
    case isFalse => exact .inl rfl

theorem Kempt.insertLock (hr : t.Room (P.lock i)) (hnone : t.get? (P.lock i) = none) :
    P.Kempt (t.insertFile (P.lock i) c x) := by
  have hown : P.plot i (P.lock i) ∨ P.lock i = P.lock i := .inr rfl
  obtain ⟨dir, s, he, hd, hs⟩ := hr
  have hne : P.lock i ≠ [] := by simp [he]
  have hz (S : Site) (ha : S.Apart fun l => P.plot i l ∨ l = P.lock i) : S.Apart (· = P.lock i) :=
    ha.mono fun _ => .inr
  refine h.grow ?_ (Tree.get?_insertFile hne) ⟨hz _ (P.away i).1, fun k => hz _ ((P.away i).2 k)⟩
    (fun hl => absurd hl (P.common hown)) rfl (h.numbered.insertFile hne) (h.single.insertFile h.numbered hne)
  rw [he] at hnone ⊢
  exact h.wellFormed.insertFile hd hs hnone

theorem spares_insertLock (hr : t.Room (P.lock i)) (hnone : t.get? (P.lock i) = none) (hj : j ≠ i) :
    P.Spares j t (t.insertFile (P.lock i) c x) := by
  have hkempt := h.insertLock (c := c) (x := x) hr hnone
  have hown : P.plot i (P.lock i) ∨ P.lock i = P.lock i := .inr rfl
  refine ⟨fun _ => hkempt, Tree.part_insert_other (not_kept hown hj), fun k hk => .inl ?_, Nat.le_succ _⟩
  rw [Tree.get?_insertFile hr.ne_nil, if_neg]
  rintro rfl
  exact P.common hown hk

end Growth

theorem Mirrors.ensure (h : P.Mirrors i t t') (hl : P.shared l) (hr : t.Room l) (hr' : t'.Room l) :
    P.Mirrors i (t.ensure l) (t'.ensure l) := by
  refine ⟨h.kempt.ensure hl hr, h.kempt'.ensure hl hr', ?_, fun k hk => ?_⟩
  · rw [(spares_ensure h.kempt' hl hr').part, (spares_ensure h.kempt hl hr).part, h.part]
  · rw [Tree.get?_ensure hr.ne_nil (h.kempt.level l hl), Tree.get?_ensure hr.ne_nil (h.kempt'.level l hl)]
    split
    · exact .inl rfl
    · exact h.common k hk

theorem Mirrors.insertLock (h : P.Mirrors i t t') (hn : t'.nextNumber = t.nextNumber)
    (hr : t.Room (P.lock i)) (hr' : t'.Room (P.lock i)) (hnone : t.get? (P.lock i) = none) :
    P.Mirrors i (t.insertFile (P.lock i) c x) (t'.insertFile (P.lock i) c x) := by
  have hown : P.plot i (P.lock i) ∨ P.lock i = P.lock i := .inr rfl
  refine ⟨h.kempt.insertLock hr hnone, h.kempt'.insertLock hr' ((h.get? hown).trans hnone), ?_, fun k hk => ?_⟩
  · have hpart (t : Tree) : (t.insertFile (P.lock i) c x).part (P.kept i) =
        (t.part (P.kept i)).filter (·.1 ≠ P.lock i) ++ [(P.lock i, .file t.nextNumber c x)] :=
      Tree.part_insert (kept_of_own hown)
    rw [hpart, hpart, h.part, hn]
  · have hkl : k ≠ P.lock i := by
      rintro rfl
      exact P.common hown hk
    rw [Tree.get?_insertFile hr.ne_nil, Tree.get?_insertFile hr.ne_nil, if_neg hkl, if_neg hkl]
    exact h.common k hk

/-- A path that leads both trees to one place in the plot of a caller, or neither. -/
structure Meets (P : Plots ι) (i : ι) (t t' : Tree) (cwd : Location) (follow : Bool) (p : Path) : Prop where
  same : t'.resolve cwd follow p = t.resolve cwd follow p
  ready : ∀ l, t.resolve cwd follow p = .ok l → P.Ready i t l ∧ P.Ready i t' l

/-- As `Meets`, or what the path leads to is in neither tree. -/
def Looks (P : Plots ι) (i : ι) (t t' : Tree) (cwd : Location) (follow : Bool) (p : Path) : Prop :=
  P.Meets i t t' cwd follow p ∨ t.Gone cwd follow p ∧ t'.Gone cwd follow p

/-- As `Looks`, or the path is no good for either tree. -/
def Sees (P : Plots ι) (i : ι) (t t' : Tree) (cwd : Location) (follow : Bool) (p : Path) : Prop :=
  P.Looks i t t' cwd follow p ∨
    (∃ e, t.resolve cwd follow p = .error e) ∧ ∃ e, t'.resolve cwd follow p = .error e

/-- The results of one change of two trees. -/
inductive Paired (P : Plots ι) (i : ι) (t t' : Tree) : Except FileError Tree → Except FileError Tree → Prop
  | error (e : FileError) : Paired P i t t' (.error e) (.error e)
  | ok {t₁ t₁' : Tree} (h : P.Tends i t t₁) (h' : P.Tends i t' t₁')
      (hv : t₁'.part (P.kept i) = t₁.part (P.kept i)) (hn : t₁'.nextNumber = t₁.nextNumber) :
      Paired P i t t' (.ok t₁) (.ok t₁')

section Paths

variable {S : Site} {names : List String} {d : String} (h : P.Mirrors i t t')
include h

theorem Mirrors.resolve_joins (hS : S.Stands t) (hS' : S.Stands t') (hq : S.Leads cwd q) (hne : names ≠ [])
    (hs : ∀ s ∈ names, IsPlain s) (hp : P.plot i (S.root ++ names) ∨ S.root ++ names = P.lock i)
    (hpre : ∀ pre, pre ≠ [] → pre <+: names → pre ≠ names → P.plot i (S.root ++ pre) ∨
      t'.get? (S.root ++ pre) = t.get? (S.root ++ pre) ∧ t.NoLink (S.root ++ pre)) :
    t'.resolve cwd follow (q.joins names) = t.resolve cwd follow (q.joins names) ∧
      ∀ l, t.resolve cwd follow (q.joins names) = .ok l → l = S.root ++ names ∧ t.Room l ∧ t'.Room l := by
  have hplace : ∀ pre, pre ≠ [] → pre <+: names →
      t'.get? (S.root ++ pre) = t.get? (S.root ++ pre) ∧ t.NoLink (S.root ++ pre) := by
    intro pre hpne hpn
    by_cases he : pre = names
    · exact he ▸ ⟨h.get? hp, h.kempt.clean i _ hp⟩
    · rcases hpre pre hpne hpn he with hplot | hboth
      · exact ⟨h.get? (.inl hplot), h.kempt.noLink hplot⟩
      · exact hboth
  have hu : t.Unlinked follow S.root names := fun pre hpne hpn _ => (hplace pre hpne hpn).2
  have hu' : t'.Unlinked follow S.root names := fun pre hpne hpn _ target ht =>
    (hplace pre hpne hpn).2 target ((hplace pre hpne hpn).1.symm.trans ht)
  have hsame := Tree.resolve_congr (hq t hS) (hq t' hS') hne hs hu fun pre hpne hpn => (hplace pre hpne hpn).1
  have hroom {t : Tree} {l : Location} (hS : S.Stands t) (hu : t.Unlinked follow S.root names)
      (hr : t.resolve cwd follow (q.joins names) = .ok l) : l = S.root ++ names ∧ t.Room l := by
    obtain ⟨rfl, hdir, hproper, -⟩ := hq.resolve_ok hS hne hs hu hr
    refine ⟨rfl, S.root ++ names.dropLast, names.getLast hne, ?_, hdir, hproper _ (List.getLast_mem hne)⟩
    rw [List.append_assoc, List.dropLast_append_getLast]
  refine ⟨hsame, fun l hl => ?_⟩
  obtain ⟨hl', hroom'⟩ := hroom hS hu hl
  exact ⟨hl', hroom', (hroom hS' hu' (hsame.trans hl)).2⟩

theorem Mirrors.meets_joins (hS : S.Stands t) (hS' : S.Stands t') (hq : S.Leads cwd q) (hne : names ≠ [])
    (hs : ∀ s ∈ names, IsPlain s) (hp : P.plot i (S.root ++ names))
    (hpre : ∀ pre, pre ≠ [] → pre <+: names → pre ≠ names → P.plot i (S.root ++ pre) ∨
      t'.get? (S.root ++ pre) = t.get? (S.root ++ pre) ∧ t.NoLink (S.root ++ pre)) :
    P.Meets i t t' cwd follow (q.joins names) := by
  obtain ⟨hsame, hroom⟩ := h.resolve_joins hS hS' hq hne hs (.inl hp) hpre
  refine ⟨hsame, fun l hl => ?_⟩
  obtain ⟨rfl, hr, hr'⟩ := hroom l hl
  exact ⟨⟨hp, hr⟩, hp, hr'⟩

variable (hq : P.cache.Leads cwd q) (hd : P.shared (P.cache.root ++ [d])) (hplain : IsPlain d)
  (hs : ∀ s ∈ names, IsPlain s) (hp : P.plot i (P.cache.root ++ [d, s]))
include hq hd hplain hs hp

theorem Mirrors.meets_below (hplain' : IsPlain s)
    (hknown : t'.get? (P.cache.root ++ [d]) = t.get? (P.cache.root ++ [d])) :
    P.Meets i t t' cwd follow (q.joins (d :: s :: names)) := by
  have hplot (rest : List String) : P.plot i (P.cache.root ++ d :: s :: rest) := by
    have hrest := P.closed hp rest
    rwa [List.append_assoc] at hrest
  refine h.meets_joins h.kempt.cache h.kempt'.cache hq (by simp) ?_ (hplot names) ?_
  · simp only [List.mem_cons, forall_eq_or_imp]
    exact ⟨hplain, hplain', hs⟩
  · intro pre hne hpre hnot
    match pre with
    | [d'] =>
      obtain rfl : d' = d := by simpa using hpre
      exact .inr ⟨hknown, (h.kempt.level _ hd).noLink⟩
    | d' :: s' :: pre =>
      obtain ⟨rfl, rfl, -⟩ : d' = d ∧ s' = s ∧ _ := by simpa using hpre
      exact .inl (hplot pre)

theorem Mirrors.looks_below (hproper : IsProper d) (hproper' : IsProper s) :
    P.Looks i t t' cwd follow (q.joins (d :: s :: names)) := by
  rcases h.common _ hd with hknown | ⟨hdir, hnone⟩
  · exact .inl (h.meets_below hq hd hplain hs hp hproper'.1 hknown)
  by_cases hshort : Tree.Short (q.joins (d :: s :: names))
  · have hnone' : t'.get? (P.cache.root ++ [d] ++ [s]) = none :=
      h.kempt'.wellFormed.get?_below (by simp [hnone]) (by simp)
    have hmissing : t.get? (P.cache.root ++ [d] ++ [s]) = none := by
      rw [← hnone', List.append_assoc]
      exact (h.get? (.inl hp)).symm
    refine .inr ⟨(hq t h.kempt.cache).gone (by simp) hshort hmissing fun links => ?_,
      (hq t' h.kempt'.cache).gone (by simp) hshort hnone fun links => Tree.resolveFrom_none hproper hnone⟩
    rw [Tree.resolveFrom_directory hproper hdir]
    exact Tree.resolveFrom_none hproper' hmissing
  · have hlong {t : Tree} (ht : t.Leads cwd q P.cache.root) :
        t.resolve cwd follow (q.joins (d :: s :: names)) = .error (.os .nameTooLong) := by
      obtain ⟨links, heq⟩ := ht.resolve_eq
      rw [heq follow _ (by simp), if_pos (Nat.not_lt.mp hshort)]
    have hlong' := hlong (hq t h.kempt.cache)
    exact .inl ⟨(hlong (hq t' h.kempt'.cache)).trans hlong'.symm, fun l hl => by simp [hlong'] at hl⟩

theorem Mirrors.sees_below (hproper : IsProper d) (hplain' : IsPlain s) :
    P.Sees i t t' cwd follow (q.joins (d :: s :: names)) := by
  by_cases hproper' : IsProper s
  · exact .inl (h.looks_below hq hd hplain hs hp hproper hproper')
  have hall : ∀ s' ∈ d :: s :: names, IsPlain s' := by
    simp only [List.mem_cons, forall_eq_or_imp]
    exact ⟨hplain, hplain', hs⟩
  have hbad {t : Tree} (ht : P.Kempt t) : ∃ e, t.resolve cwd follow (q.joins (d :: s :: names)) = .error e := by
    have hu : t.Unlinked follow P.cache.root (d :: s :: names) := by
      intro pre hne hpre _
      match pre with
      | [d'] =>
        obtain rfl : d' = d := by simpa using hpre
        exact (ht.level _ hd).noLink
      | d' :: s' :: pre =>
        obtain ⟨rfl, rfl, -⟩ : d' = d ∧ s' = s ∧ _ := by simpa using hpre
        have hrest := P.closed hp pre
        rw [List.append_assoc] at hrest
        exact ht.noLink hrest
    cases hr : t.resolve cwd follow (q.joins (d :: s :: names)) with
    | error e => exact ⟨e, rfl⟩
    | ok k => exact absurd ((hq.resolve_ok ht.cache (by simp) hall hu hr).2.2.1 s (by simp)) hproper'
  exact .inr ⟨hbad h.kempt, hbad h.kempt'⟩

end Paths

section Steps

variable (h : P.Mirrors i t t')
include h

theorem Mirrors.children (hl : P.plot i l) : t'.children l = t.children l := by
  have hk (s : String) : P.kept i (l ++ [s]) := kept_of_own (.inl (P.closed hl [s]))
  rw [Tree.children_part hk, Tree.children_part hk, h.part]

omit h in
theorem stat_gone (hg : t.Gone cwd follow p) : t.stat cwd follow p = .error (.os .noEntry) := by
  rcases hg with hg | ⟨l, hl, hg⟩
  · simp [Tree.stat, hg, bind, Except.bind]
  · simp [Tree.stat, hl, hg, bind, Except.bind, throw, throwThe, MonadExceptOf.throw]

theorem Mirrors.stat (hp : P.Looks i t t' cwd follow p) : t'.stat cwd follow p = t.stat cwd follow p := by
  rcases hp with hp | ⟨hg, hg'⟩
  · cases hr : t.resolve cwd follow p with
    | error e => simp only [Tree.stat, hp.same, hr, bind, Except.bind]
    | ok l => simp only [Tree.stat, hp.same, hr, bind, Except.bind, h.get? (.inl (hp.ready l hr).1.plot)]
  · rw [stat_gone hg, stat_gone hg']

theorem Mirrors.list (hp : P.Looks i t t' cwd true p) : t'.list cwd p = t.list cwd p := by
  have hgone {t : Tree} (hg : t.Gone cwd true p) : t.list cwd p = .error (.os .noEntry) := by
    rcases hg with hg | ⟨l, hl, hg⟩
    · simp [Tree.list, hg, bind, Except.bind]
    · simp [Tree.list, hl, hg, bind, Except.bind, throw, throwThe, MonadExceptOf.throw]
  rcases hp with hp | ⟨hg, hg'⟩
  · cases hr : t.resolve cwd true p with
    | error e => simp only [Tree.list, hp.same, hr, bind, Except.bind]
    | ok l =>
      have hl := (hp.ready l hr).1.plot
      simp only [Tree.list, hp.same, hr, bind, Except.bind, h.get? (.inl hl), h.children hl]
  · rw [hgone hg, hgone hg']

theorem Mirrors.read (hp : P.Looks i t t' cwd true p) : t'.read cwd p = t.read cwd p := by
  rw [Tree.read, Tree.read, h.stat hp]

theorem Mirrors.sees_stat (hp : P.Sees i t t' cwd follow p) :
    (t'.stat cwd follow p).toOption = (t.stat cwd follow p).toOption := by
  rcases hp with hp | ⟨⟨e, he⟩, e', he'⟩
  · rw [h.stat hp]
  · simp [Tree.stat, he, he', bind, Except.bind, Except.toOption]

theorem Mirrors.sees_list (hp : P.Sees i t t' cwd true p) :
    (t'.list cwd p).toOption = (t.list cwd p).toOption := by
  rcases hp with hp | ⟨⟨e, he⟩, e', he'⟩
  · rw [h.list hp]
  · simp [Tree.list, he, he', bind, Except.bind, Except.toOption]

theorem Mirrors.sees_read (hp : P.Sees i t t' cwd true p) :
    (t'.read cwd p).toOption = (t.read cwd p).toOption := by
  rcases hp with hp | ⟨⟨e, he⟩, e', he'⟩
  · rw [h.read hp]
  · simp [Tree.read, Tree.stat, he, he', bind, Except.bind, Except.toOption]

variable (hn : t'.nextNumber = t.nextNumber)
include hn

theorem Mirrors.unchanged : P.Paired i t t' (.ok t) (.ok t') := .ok (.refl h.kempt) (.refl h.kempt') h.part hn

theorem Mirrors.erase (hl : P.plot i l) (hbelow : ∀ rest, rest ≠ [] → t.get? (l ++ rest) = none) :
    P.Paired i t t' (.ok (t.erase l)) (.ok (t'.erase l)) := by
  have hbelow' : ∀ rest, rest ≠ [] → t'.get? (l ++ rest) = none := fun rest hr =>
    (h.get? (.inl (P.closed hl rest))).trans (hbelow rest hr)
  refine .ok (tends_erase h.kempt hl hbelow) (tends_erase h.kempt' hl hbelow') ?_ hn
  rw [Tree.part_erase, Tree.part_erase, h.part]

theorem Mirrors.makeDirectory (hp : P.Meets i t t' cwd false p) :
    P.Paired i t t' (t.makeDirectory cwd p) (t'.makeDirectory cwd p) := by
  cases hr : t.resolve cwd false p with
  | error e =>
    simp only [Tree.makeDirectory, hp.same, hr, bind, Except.bind]
    exact .error e
  | ok l =>
    obtain ⟨hl, hl'⟩ := hp.ready l hr
    have hget := h.get? (.inl hl.plot)
    simp only [Tree.makeDirectory, hp.same, hr, bind, Except.bind, hget]
    cases hg : t.get? l with
    | none =>
      refine .ok (tends_insert h.kempt hl hg) (tends_insert h.kempt' hl' (hget.trans hg)) ?_ hn
      rw [Tree.part_insert (kept_of_own (.inl hl.plot)), Tree.part_insert (kept_of_own (.inl hl.plot)), h.part]
    | some n => exact .error _

/-- What is written to a place in the plot, or copied there, comes to both trees. -/
theorem Mirrors.fill {y : Bool} {d : Nat → Content → Content} {z : Bool → Bool} (hl : P.Ready i t l)
    (hl' : P.Ready i t' l) : P.Paired i t t'
      (match t.get? l with
        | some (.file number c x) => .ok (t.setFile number (d number c) (z x))
        | some .directory => .error (.os .isDirectory)
        | some _ => .ok t
        | none => .ok (t.insertFile l c y))
      (match t.get? l with
        | some (.file number c x) => .ok (t'.setFile number (d number c) (z x))
        | some .directory => .error (.os .isDirectory)
        | some _ => .ok t'
        | none => .ok (t'.insertFile l c y)) := by
  have hget := h.get? (.inl hl.plot)
  have hk := kept_of_own (.inl hl.plot)
  cases hg : t.get? l with
  | none =>
    refine .ok (tends_insertFile h.kempt hl hg) (tends_insertFile h.kempt' hl' (hget.trans hg)) ?_ ?_
    · have hpart (t : Tree) : (t.insertFile l c y).part (P.kept i) =
          (t.part (P.kept i)).filter (·.1 ≠ l) ++ [(l, .file t.nextNumber c y)] := Tree.part_insert hk
      rw [hpart, hpart, h.part, hn]
    · exact congrArg (· + 1) hn
  | some n =>
    cases n with
    | directory => exact .error _
    | file number c x =>
      refine .ok (tends_setFile h.kempt hl.plot hg) (tends_setFile h.kempt' hl.plot (hget.trans hg)) ?_ hn
      rw [Tree.part_setFile, Tree.part_setFile, h.part]
    | _ => exact h.unchanged hn

theorem Mirrors.write (hp : P.Meets i t t' cwd true p) (hd : Tree.demandsDirectory p = false) :
    P.Paired i t t' (t.write cwd p c) (t'.write cwd p c) := by
  cases hr : t.resolve cwd true p with
  | error e =>
    simp only [Tree.write, hp.same, hr, bind, Except.bind]
    exact .error e
  | ok l =>
    obtain ⟨hl, hl'⟩ := hp.ready l hr
    simp only [Tree.write, hp.same, hr, bind, Except.bind, hd, h.get? (.inl hl.plot)]
    exact h.fill hn hl hl' (d := fun _ _ => c) (z := id)

theorem Mirrors.copy (hp : P.Meets i t t' cwd true p) (hq : P.Meets i t t' cwd true q)
    (hd : Tree.demandsDirectory q = false) : P.Paired i t t' (t.copy cwd p q) (t'.copy cwd p q) := by
  simp only [Tree.copy, h.stat (.inl hp), bind, Except.bind]
  cases hs : t.stat cwd true p with
  | error e => exact .error e
  | ok n =>
    cases n with
    | file number c x =>
      cases hr : t.resolve cwd true q with
      | error e =>
        simp only [hq.same, hr]
        exact .error e
      | ok b =>
        obtain ⟨hl, hl'⟩ := hq.ready b hr
        simp only [hq.same, hr, hd, h.get? (.inl hl.plot)]
        exact h.fill hn hl hl' (d := fun other _ => if number = other then .empty else c) (z := fun _ => x)
    | _ => exact .error _

theorem Mirrors.removeFile (hp : P.Looks i t t' cwd false p) :
    P.Paired i t t' (t.removeFile cwd p) (t'.removeFile cwd p) := by
  have hgone {t : Tree} (hg : t.Gone cwd false p) : t.removeFile cwd p = .error (.os .noEntry) := by
    rcases hg with hg | ⟨l, hl, hg⟩
    · simp [Tree.removeFile, hg, bind, Except.bind]
    · simp [Tree.removeFile, hl, hg, bind, Except.bind, throw, throwThe, MonadExceptOf.throw]
  rcases hp with hp | ⟨hg, hg'⟩
  · cases hr : t.resolve cwd false p with
    | error e =>
      simp only [Tree.removeFile, hp.same, hr, bind, Except.bind]
      exact .error e
    | ok l =>
      have hl := (hp.ready l hr).1.plot
      simp only [Tree.removeFile, hp.same, hr, bind, Except.bind, h.get? (.inl hl)]
      cases hg : t.get? l with
      | none => exact .error _
      | some n =>
        cases n with
        | directory => exact .error _
        | _ => exact h.erase hn hl fun rest hr => h.kempt.wellFormed.get?_below (by simp [hg]) hr
  · rw [hgone hg, hgone hg']
    exact .error _

theorem Mirrors.removeDirectory (hp : P.Looks i t t' cwd false p) :
    P.Paired i t t' (t.removeDirectory cwd p) (t'.removeDirectory cwd p) := by
  have hgone {t : Tree} (hg : t.Gone cwd false p) : t.removeDirectory cwd p = .error (.os .noEntry) := by
    rcases hg with hg | ⟨l, hl, hg⟩
    · simp [Tree.removeDirectory, hg, bind, Except.bind]
    · simp [Tree.removeDirectory, hl, hg, bind, Except.bind, throw, throwThe, MonadExceptOf.throw]
  rcases hp with hp | ⟨hg, hg'⟩
  · cases hr : t.resolve cwd false p with
    | error e =>
      simp only [Tree.removeDirectory, hp.same, hr, bind, Except.bind]
      exact .error e
    | ok l =>
      have hl := (hp.ready l hr).1.plot
      simp only [Tree.removeDirectory, hp.same, hr, bind, Except.bind, h.get? (.inl hl), h.children hl,
        if_neg (plot_ne_nil hl)]
      cases hg : t.get? l with
      | none => exact .error _
      | some n =>
        cases n with
        | directory =>
          simp only
          by_cases hchildren : t.children l = []
          · rw [if_neg (not_not.mpr hchildren), if_neg (not_not.mpr hchildren)]
            exact h.erase hn hl fun rest hr => h.kempt.wellFormed.get?_below_empty hchildren hr
          · rw [if_pos hchildren, if_pos hchildren]
            exact .error _
        | _ => exact .error _
  · rw [hgone hg, hgone hg']
    exact .error _

theorem Mirrors.move (ha : P.Ready i t a) (ha' : P.Ready i t' a) (hb : P.Ready i t b) (hb' : P.Ready i t' b)
    (hm : t.Movable a b) : P.Paired i t t' (.ok (t.move a b)) (.ok (t'.move a b)) := by
  have hm' : t'.Movable a b := by
    refine { hm with source := ?_, target := fun hd => ?_ }
    · rw [h.get? (.inl ha.plot)]
      exact hm.source
    · rw [h.get? (.inl ha.plot), h.children hb.plot]
      exact hm.target ((h.get? (.inl hb.plot)).symm.trans hd)
  refine .ok (tends_move h.kempt ha.plot hb hm) (tends_move h.kempt' ha'.plot hb' hm') ?_ hn
  have hpart (t : Tree) := Tree.part_move (t := t) (fun rest => kept_of_own (.inl (P.closed ha.plot rest)))
    fun rest => kept_of_own (.inl (P.closed hb.plot rest))
  rw [hpart, hpart, h.part]

theorem Mirrors.rename (hp : P.Meets i t t' cwd false p) (hq : P.Meets i t t' cwd false q)
    (hd : Tree.demandsDirectory q = false) : P.Paired i t t' (t.rename cwd p q) (t'.rename cwd p q) := by
  cases hra : t.resolve cwd false p with
  | error e =>
    simp only [Tree.rename, hp.same, hra, bind, Except.bind]
    exact .error e
  | ok a =>
    cases hrb : t.resolve cwd false q with
    | error e =>
      simp only [Tree.rename, hp.same, hra, hq.same, hrb, bind, Except.bind]
      exact .error e
    | ok b =>
      obtain ⟨ha, ha'⟩ := hp.ready a hra
      obtain ⟨hb, hb'⟩ := hq.ready b hrb
      simp only [Tree.rename, hp.same, hra, hq.same, hrb, bind, Except.bind, h.get? (.inl ha.plot),
        h.get? (.inl hb.plot), h.children hb.plot, hd, plot_ne_nil ha.plot, plot_ne_nil hb.plot, or_self,
        List.isPrefixOf_iff_prefix]
      cases hg : t.get? a with
      | none => exact .error _
      | some n =>
        simp only [↓reduceIte]
        by_cases hab : a = b
        · rw [if_pos hab, if_pos hab]
          exact h.unchanged hn
        rw [if_neg hab, if_neg hab]
        by_cases hpre : a <+: b
        · rw [if_pos hpre, if_pos hpre]
          exact .error _
        rw [if_neg hpre, if_neg hpre]
        by_cases hpre' : b <+: a
        · rw [if_pos hpre', if_pos hpre']
          exact .error _
        rw [if_neg hpre', if_neg hpre']
        have hmove (ht : t.get? b = some .directory → t.get? a = some .directory ∧ t.children b = []) :
            P.Paired i t t' (.ok (t.move a b)) (.ok (t'.move a b)) :=
          h.move hn ha ha' hb hb'
            ⟨by simp [hg], plot_ne_nil ha.plot, plot_ne_nil hb.plot, hpre, hpre', ht⟩
        have hmoves (hnot : t.get? b ≠ some .directory) := hmove fun ht => absurd ht hnot
        cases hb? : t.get? b with
        | none =>
          have hfree := hmoves (by simp [hb?])
          cases n <;> exact hfree
        | some n' =>
          cases n with
          | directory =>
            cases n' with
            | directory =>
              by_cases hchildren : t.children b = []
              · simp only [hchildren, ne_eq, not_true, ↓reduceIte]
                exact hmove fun _ => ⟨hg, hchildren⟩
              · simp only [hchildren, ne_eq, not_false_eq_true, ↓reduceIte]
                exact .error _
            | _ => exact .error _
          | file number c x =>
            cases n' with
            | directory => exact .error _
            | file other c' x' =>
              by_cases hsame : number = other
              · simp only [hsame, ↓reduceIte]
                exact h.unchanged hn
              · simp only [hsame, ↓reduceIte]
                exact hmoves (by simp [hb?])
            | _ => exact hmoves (by simp [hb?])
          | _ =>
            cases n' with
            | directory => exact .error _
            | _ => exact hmoves (by simp [hb?])

omit hn in
/-- A lock is opened as it is there, or not at all, or it is made. -/
theorem Mirrors.openOrCreate (hd : Tree.demandsDirectory p = false)
    (hsame : t'.resolve cwd true p = t.resolve cwd true p)
    (hroom : ∀ l, t.resolve cwd true p = .ok l → l = P.lock i) :
    (∃ o : Except FileError Nat, t.openOrCreate cwd p = o.map (·, t) ∧ t'.openOrCreate cwd p = o.map (·, t') ∧
      ∀ n, o = .ok n → ∃ c x, t.get? (P.lock i) = some (.file n c x)) ∨
    t.resolve cwd true p = .ok (P.lock i) ∧ t.get? (P.lock i) = none ∧
      t.openOrCreate cwd p = .ok (t.nextNumber, t.insertFile (P.lock i) .empty false) ∧
      t'.openOrCreate cwd p = .ok (t'.nextNumber, t'.insertFile (P.lock i) .empty false) := by
  have hget := h.get? (P := P) (l := P.lock i) (.inr rfl)
  cases hr : t.resolve cwd true p with
  | error e =>
    refine .inl ⟨.error e, ?_, ?_, by simp⟩
    · simp only [Tree.openOrCreate, hr, bind, Except.bind, Except.map]
    · simp only [Tree.openOrCreate, hsame, hr, bind, Except.bind, Except.map]
  | ok l =>
    obtain rfl := hroom l hr
    simp only [Tree.openOrCreate, hsame, hr, bind, Except.bind, hd, hget]
    cases hg : t.get? (P.lock i) with
    | none => exact .inr ⟨trivial, rfl, rfl, rfl⟩
    | some n =>
      cases n with
      | file number c x =>
        refine .inl ⟨.ok number, rfl, rfl, fun n hn => ⟨c, x, ?_⟩⟩
        rw [Except.ok.inj hn]
      | _ => exact .inl ⟨.error _, rfl, rfl, by simp⟩

end Steps

end Plots

end CompiledModels
