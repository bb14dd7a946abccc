import Mathlib.Data.List.Induction
import Mathlib.Data.List.Nodup
import CompiledModels.Files.Operations

/-!
What the changes of a file tree do to the nodes at its locations.
-/

namespace CompiledModels.Files

def IsPlain (s : String) : Prop := s ≠ "" ∧ s ≠ "." ∧ s ≠ ".."

def IsProper (s : String) : Prop := IsPlain s ∧ s.utf8ByteSize ≤ Tree.maxNameLength

instance (s : String) : Decidable (IsPlain s) :=
  inferInstanceAs (Decidable (_ ∧ _))

instance (s : String) : Decidable (IsProper s) :=
  inferInstanceAs (Decidable (_ ∧ _))

namespace Tree

/-- Every node has one entry, under a proper name and in a directory. -/
structure WellFormed (t : Tree) : Prop where
  nodup : (t.entries.map (·.1)).Nodup
  nonempty : ∀ e ∈ t.entries, e.1 ≠ []
  proper : ∀ e ∈ t.entries, ∀ s ∈ e.1, IsProper s
  parent : ∀ e ∈ t.entries, t.get? e.1.dropLast = some .directory

variable {t : Tree} {l l' dir a b : Location} {n : Node} {s : String}

@[simp] theorem get?_nil (t : Tree) : t.get? [] = some .directory := rfl

theorem get?_of_ne (hl : l ≠ []) : t.get? l = (t.entries.find? (·.1 = l)).map (·.2) := by
  simp only [get?, hl, ↓reduceIte]

theorem find?_eq_some_iff {α β : Type} [DecidableEq α] {es : List (α × β)} {l : α} {n : β}
    (h : (es.map (·.1)).Nodup) : (es.find? (·.1 = l)).map (·.2) = some n ↔ (l, n) ∈ es := by
  induction es with
  | nil => simp
  | cons e es ih =>
    obtain ⟨k, m⟩ := e
    simp only [List.map_cons, List.nodup_cons, List.mem_map, Prod.exists, exists_and_right,
      exists_eq_right, not_exists] at h
    by_cases hk : k = l
    · subst hk
      simp only [decide_true, List.find?_cons_of_pos, Option.map_some, Option.some.injEq,
        List.mem_cons, Prod.mk.injEq, true_and]
      constructor
      · exact fun hm => .inl hm.symm
      · rintro (hm | hm)
        · exact hm.symm
        · exact absurd hm (h.1 n)
    · simp only [hk, decide_false, Bool.false_eq_true, not_false_eq_true, List.find?_cons_of_neg,
        List.mem_cons, Prod.mk.injEq, Ne.symm hk, false_and, false_or]
      exact ih h.2

theorem WellFormed.get?_iff (h : t.WellFormed) (hl : l ≠ []) :
    t.get? l = some n ↔ (l, n) ∈ t.entries := by
  rw [get?_of_ne hl]
  exact find?_eq_some_iff h.nodup

theorem find?_filter_ne {α β : Type} [DecidableEq α] {es : List (α × β)} {k l : α} (hk : k ≠ l) :
    (es.filter (·.1 ≠ l)).find? (·.1 = k) = es.find? (·.1 = k) := by
  rw [List.find?_filter]
  congr 1
  funext e
  by_cases he : e.1 = k <;> simp [he, hk]

theorem find?_filter_self {α β : Type} [DecidableEq α] {es : List (α × β)} {l : α} :
    (es.filter (·.1 ≠ l)).find? (·.1 = l) = none := by
  rw [List.find?_eq_none]
  intro e he
  simpa using (List.mem_filter.mp he).2

theorem get?_insert (hl : l ≠ []) (k : Location) :
    (t.insert l n).get? k = if k = l then some n else t.get? k := by
  by_cases hk : k = []
  · subst hk
    simp [Ne.symm hl]
  rw [get?_of_ne hk, get?_of_ne hk, insert, List.find?_append]
  by_cases he : k = l
  · subst he
    rw [find?_filter_self]
    simp
  · rw [find?_filter_ne he]
    simp [he, Ne.symm he]

theorem get?_erase (hl : l ≠ []) (k : Location) :
    (t.erase l).get? k = if k = l then none else t.get? k := by
  by_cases hk : k = []
  · subst hk
    simp [Ne.symm hl]
  rw [get?_of_ne hk, get?_of_ne hk, erase]
  by_cases he : k = l
  · subst he
    rw [find?_filter_self]
    simp
  · rw [find?_filter_ne he]
    simp [he]

theorem get?_insertFile {c : Content} {x : Bool} (hl : l ≠ []) (k : Location) :
    (t.insertFile l c x).get? k =
      if k = l then some (.file t.nextNumber c x) else t.get? k := by
  rw [← get?_insert (t := t) (n := .file t.nextNumber c x) hl]
  rfl

def Spot (t : Tree) (l : Location) : Prop := t.get? l = none ∨ t.get? l = some .directory

def NoLink (t : Tree) (l : Location) : Prop := ∀ target, t.get? l ≠ some (.link target)

theorem Spot.noLink (h : t.Spot l) : t.NoLink l := by
  intro target
  rcases h with h | h <;> simp [h]

/-- A directory with certain files, given by name, content and permission, and nothing else. -/
structure Folder (t : Tree) (l : Location) (fs : List (String × Content × Bool)) : Prop where
  directory : t.get? l = some .directory
  files : ∀ f ∈ fs, ∃ number, t.get? (l ++ [f.1]) = some (.file number f.2.1 f.2.2)
  only : ∀ rest, rest ≠ [] → t.get? (l ++ rest) ≠ none → ∃ f ∈ fs, rest = [f.1]

theorem Folder.congr {t' : Tree} {fs : List (String × Content × Bool)} (h : t.Folder l fs)
    (hs : ∀ rest, t'.get? (l ++ rest) = t.get? (l ++ rest)) : t'.Folder l fs := by
  refine ⟨?_, fun f hf => ?_, fun rest hr hn => h.only rest hr (hs rest ▸ hn)⟩
  · have hd := hs []
    rw [List.append_nil] at hd
    rw [hd, h.directory]
  · rw [hs]
    exact h.files f hf

theorem Folder.add {t' : Tree} {fs : List (String × Content × Bool)} {c : Content} {x : Bool}
    (number : Nat) (h : t.Folder l fs) (hn : ∀ f ∈ fs, f.1 ≠ s)
    (ht : ∀ rest, t'.get? (l ++ rest) =
      if rest = [s] then some (.file number c x) else t.get? (l ++ rest)) :
    t'.Folder l (fs ++ [(s, c, x)]) := by
  refine ⟨?_, ?_, ?_⟩
  · have hd := ht []
    rw [List.append_nil, if_neg (by simp)] at hd
    rw [hd, h.directory]
  · simp only [List.mem_append, List.mem_singleton]
    rintro f (hf | rfl)
    · rw [ht, if_neg (by simpa using hn f hf)]
      exact h.files f hf
    · exact ⟨number, by rw [ht, if_pos rfl]⟩
  · intro rest hr hne
    rw [ht] at hne
    split at hne
    case isTrue he => exact ⟨(s, c, x), by simp, he⟩
    case isFalse =>
      obtain ⟨f, hf, he⟩ := h.only rest hr hne
      exact ⟨f, by simp [hf], he⟩

theorem Folder.absent {fs : List (String × Content × Bool)} (h : t.Folder l fs)
    (hn : ∀ f ∈ fs, f.1 ≠ s) : t.get? (l ++ [s]) = none := by
  by_contra hne
  obtain ⟨f, hf, he⟩ := h.only [s] (by simp) hne
  exact hn f hf (List.singleton_inj.mp he).symm

def rewritten (number : Nat) (c : Content) (x : Bool) : Node → Node
  | .file n d y => if n = number then .file n c x else .file n d y
  | n => n

theorem get?_setFile {number : Nat} {c : Content} {x : Bool} (k : Location) :
    (t.setFile number c x).get? k = (t.get? k).map (rewritten number c x) := by
  by_cases hk : k = []
  · subst hk
    rfl
  rw [get?_of_ne hk, get?_of_ne hk]
  have hs : (t.setFile number c x).entries =
      t.entries.map fun e => (e.1, rewritten number c x e.2) := by
    simp only [setFile]
    refine List.map_congr_left fun e _ => ?_
    obtain ⟨k, m⟩ := e
    cases m <;> simp only [rewritten]
    split <;> rfl
  rw [hs, List.find?_map, Option.map_map, Option.map_map]
  rfl

def Numbered (t : Tree) : Prop :=
  ∀ l number c x, t.get? l = some (.file number c x) → number < t.nextNumber

theorem Numbered.congr {t' : Tree} (h : t.Numbered) (hn : t'.nextNumber = t.nextNumber)
    (ht : ∀ l number c x, t'.get? l = some (.file number c x) →
      ∃ k c' x', t.get? k = some (.file number c' x')) : t'.Numbered := by
  intro l number c x hl
  obtain ⟨k, c', x', hk⟩ := ht l number c x hl
  exact hn ▸ h k number c' x' hk

theorem Numbered.insert {n : Node} (h : t.Numbered) (hl : l ≠ []) (hn : n.isFile = false) :
    (t.insert l n).Numbered := by
  refine h.congr rfl fun k number c x hk => ?_
  rw [get?_insert hl] at hk
  split at hk
  · rw [Option.some.injEq] at hk
    simp [hk, Node.isFile] at hn
  · exact ⟨k, c, x, hk⟩

theorem Numbered.insertFile {c : Content} {x : Bool} (h : t.Numbered) (hl : l ≠ []) :
    (t.insertFile l c x).Numbered := by
  intro k number c' x' hk
  rw [get?_insertFile hl] at hk
  split at hk
  · obtain ⟨rfl, -⟩ := Node.file.inj (Option.some.inj hk)
    exact Nat.lt_succ_self _
  · exact Nat.lt_succ_of_lt (h k number c' x' hk)

theorem Numbered.setFile {number : Nat} {c : Content} {x : Bool} (h : t.Numbered) :
    (t.setFile number c x).Numbered := by
  refine h.congr rfl fun k number' c' x' hk => ?_
  rw [get?_setFile, Option.map_eq_some_iff] at hk
  obtain ⟨n, hn, hk⟩ := hk
  cases n with
  | file number'' c'' x'' =>
    refine ⟨k, c'', x'', hn.trans ?_⟩
    simp only [rewritten] at hk
    split at hk <;> simp_all
  | _ => simp [rewritten] at hk

theorem Numbered.erase (h : t.Numbered) (hl : l ≠ []) : (t.erase l).Numbered := by
  refine h.congr rfl fun k number c x hk => ?_
  rw [get?_erase hl] at hk
  split at hk
  · simp at hk
  · exact ⟨k, c, x, hk⟩

theorem childName?_eq_some_iff : childName? dir l = some s ↔ l = dir ++ [s] := by
  induction dir generalizing l with
  | nil =>
    match l with
    | [] => simp [childName?]
    | [a] => simp [childName?]
    | a :: b :: l => simp [childName?]
  | cons d dir ih =>
    match l with
    | [] => simp [childName?]
    | a :: l =>
      simp only [childName?]
      by_cases hd : d = a
      · simp [hd, ih]
      · simp [hd, Ne.symm hd]

theorem WellFormed.mem_children (h : t.WellFormed) {e : DirectoryEntry} :
    e ∈ t.children dir ↔
      ∃ n, t.get? (dir ++ [e.name]) = some n ∧ n.isDirectory = e.isDirectory := by
  simp only [children, List.mem_filterMap, Option.map_eq_some_iff, childName?_eq_some_iff,
    h.get?_iff (List.append_ne_nil_of_right_ne_nil dir (List.cons_ne_nil e.name []))]
  constructor
  · rintro ⟨⟨k, n⟩, hm, name, rfl, rfl⟩
    exact ⟨n, hm, rfl⟩
  · rintro ⟨n, hm, hd⟩
    exact ⟨(dir ++ [e.name], n), hm, e.name, rfl, by rw [hd]⟩

theorem WellFormed.nodup_children (h : t.WellFormed) : ((t.children dir).map (·.name)).Nodup := by
  have hnames : (t.children dir).map (·.name) = (t.entries.map (·.1)).filterMap (childName? dir) := by
    rw [children, List.map_filterMap, List.filterMap_map]
    congr 1
    funext e
    cases hc : childName? dir e.1 <;> simp [hc]
  rw [hnames]
  refine h.nodup.filterMap fun a a' b hb hb' => ?_
  rw [Option.mem_def, childName?_eq_some_iff] at hb hb'
  rw [hb, hb']

theorem WellFormed.children_eq_nil (h : t.WellFormed) :
    t.children dir = [] ↔ ∀ s, t.get? (dir ++ [s]) = none := by
  rw [List.eq_nil_iff_forall_not_mem]
  constructor
  · intro hc s
    cases hn : t.get? (dir ++ [s]) with
    | none => rfl
    | some n => exact absurd (h.mem_children.mpr ⟨n, hn, rfl⟩) (hc ⟨s, n.isDirectory⟩)
  · intro hn e he
    obtain ⟨n, hs, _⟩ := h.mem_children.mp he
    simp [hn] at hs

theorem WellFormed.get?_parent (h : t.WellFormed) (hn : t.get? (dir ++ [s]) ≠ none) :
    t.get? dir = some .directory := by
  obtain ⟨n, hn⟩ := Option.ne_none_iff_exists'.mp hn
  rw [h.get?_iff (by simp)] at hn
  simpa using h.parent _ hn

theorem WellFormed.get?_above (h : t.WellFormed) {rest : Location} (hr : rest ≠ [])
    (hn : t.get? (dir ++ rest) ≠ none) : t.get? dir = some .directory := by
  induction rest using List.reverseRec with
  | nil => exact absurd rfl hr
  | append_singleton rest s ih =>
    rw [← List.append_assoc] at hn
    have hp := h.get?_parent hn
    by_cases he : rest = []
    · simpa [he] using hp
    · exact ih he (by simp [hp])

theorem WellFormed.proper_of_get? (h : t.WellFormed) (hn : t.get? l ≠ none) :
    ∀ s ∈ l, IsProper s := by
  by_cases hl : l = []
  · simp [hl]
  · obtain ⟨n, hn⟩ := Option.ne_none_iff_exists'.mp hn
    exact h.proper _ ((h.get?_iff hl).mp hn)

theorem WellFormed.get?_below (h : t.WellFormed) (hl : t.get? l ≠ some .directory)
    {rest : Location} (hr : rest ≠ []) : t.get? (l ++ rest) = none := by
  by_contra hn
  exact hl (h.get?_above hr hn)

theorem WellFormed.get?_below_empty (h : t.WellFormed) (hl : t.children l = [])
    {rest : Location} (hr : rest ≠ []) : t.get? (l ++ rest) = none := by
  obtain ⟨s, rest, rfl⟩ := List.exists_cons_of_ne_nil hr
  by_cases he : rest = []
  · rw [he, h.children_eq_nil.mp hl]
  · have hs : t.get? (l ++ [s]) ≠ some .directory := by simp [h.children_eq_nil.mp hl]
    simpa using h.get?_below hs he

def moved (a b k : Location) : Location := if a <+: k then b ++ k.drop a.length else k

theorem mem_move {k : Location} :
    (k, n) ∈ (t.move a b).entries ↔ ∃ k', (k', n) ∈ t.entries ∧ k' ≠ b ∧ moved a b k' = k := by
  simp only [move, moved, List.mem_map, List.mem_filter, List.isPrefixOf_iff_prefix]
  constructor
  · rintro ⟨⟨k', m⟩, ⟨hm, hb⟩, he⟩
    have hk : m = n := by split at he <;> exact (Prod.mk.injEq .. ▸ he).2
    subst hk
    refine ⟨k', hm, by simpa using hb, ?_⟩
    split at he <;> simp_all
  · rintro ⟨k', hm, hb, he⟩
    refine ⟨(k', n), ⟨hm, by simpa using hb⟩, ?_⟩
    split at he <;> simp_all

theorem moved_injective (h : t.WellFormed)
    (hn : ∀ rest, rest ≠ [] → t.get? (b ++ rest) = none) {k k' : Location} {m : Node}
    (hk : (k, n) ∈ t.entries) (hkb : k ≠ b) (hk' : (k', m) ∈ t.entries) (hkb' : k' ≠ b)
    (he : moved a b k = moved a b k') : k = k' := by
  have apart : ∀ {rest : Location} {k' : Location} {m : Node}, (k', m) ∈ t.entries → k' ≠ b →
      b ++ rest = k' → False := by
    rintro rest k' m hm hb rfl
    have hr : rest ≠ [] := by
      rintro rfl
      simp at hb
    have hs := (h.get?_iff (h.nonempty _ hm)).mpr hm
    simp [hn rest hr] at hs
  simp only [moved] at he
  split at he <;> split at he
  case isTrue.isTrue h₁ h₂ =>
    rw [← List.prefix_iff_eq_append.mp h₁, ← List.prefix_iff_eq_append.mp h₂,
      List.append_cancel_left he]
  case isTrue.isFalse => exact absurd he (apart hk' hkb')
  case isFalse.isTrue => exact absurd he.symm (apart hk hkb)
  case isFalse.isFalse => exact he

theorem nodup_move (h : t.WellFormed) (hn : ∀ rest, rest ≠ [] → t.get? (b ++ rest) = none) :
    ((t.move a b).entries.map (·.1)).Nodup := by
  have he : (t.move a b).entries.map (·.1) =
      ((t.entries.filter (·.1 ≠ b)).map (·.1)).map (moved a b) := by
    simp only [move, List.map_map]
    refine List.map_congr_left fun e _ => ?_
    simp only [Function.comp, moved, List.isPrefixOf_iff_prefix]
    split <;> rfl
  rw [he]
  refine List.Nodup.map_on ?_ (h.nodup.sublist (List.filter_sublist.map _))
  intro k hk k' hk' hm
  simp only [List.mem_map, List.mem_filter] at hk hk'
  obtain ⟨⟨k, n⟩, ⟨hk, hb⟩, rfl⟩ := hk
  obtain ⟨⟨k', n'⟩, ⟨hk', hb'⟩, rfl⟩ := hk'
  exact moved_injective h hn hk (by simpa using hb) hk' (by simpa using hb') hm

theorem get?_move (h : t.WellFormed) (ha : a ≠ []) (hb : b ≠ []) (hab : ¬a <+: b)
    (hn : ∀ rest, rest ≠ [] → t.get? (b ++ rest) = none) (k : Location) :
    (t.move a b).get? k =
      if b <+: k then t.get? (a ++ k.drop b.length) else if a <+: k then none else t.get? k := by
  by_cases hk : k = []
  · subst hk
    simp [ha, hb]
  refine Option.ext fun n => ?_
  rw [get?_of_ne hk, find?_eq_some_iff (nodup_move h hn), mem_move]
  by_cases hbk : b <+: k
  · obtain ⟨rest, rfl⟩ := hbk
    simp only [List.prefix_append, ↓reduceIte, List.drop_left]
    rw [h.get?_iff (List.append_ne_nil_of_left_ne_nil ha _)]
    constructor
    · rintro ⟨k', hm, hkb, he⟩
      simp only [moved] at he
      split at he
      case isTrue hp =>
        rwa [← List.append_cancel_left he, List.prefix_iff_eq_append.mp hp]
      case isFalse hp =>
        subst he
        have hs := (h.get?_iff (h.nonempty _ hm)).mpr hm
        rw [hn rest (by rintro rfl; simp at hkb)] at hs
        simp at hs
    · intro hm
      refine ⟨a ++ rest, hm, ?_, by simp [moved]⟩
      rintro rfl
      exact hab (List.prefix_append _ _)
  · simp only [hbk, ↓reduceIte]
    by_cases hak : a <+: k
    · simp only [hak, ↓reduceIte, reduceCtorEq, iff_false, not_exists, not_and]
      intro k' _ _ he
      simp only [moved] at he
      split at he
      · exact hbk (he ▸ List.prefix_append _ _)
      · exact absurd (he ▸ hak) ‹_›
    · simp only [hak, ↓reduceIte]
      rw [h.get?_iff hk]
      constructor
      · rintro ⟨k', hm, _, he⟩
        simp only [moved] at he
        split at he
        · exact absurd (he ▸ List.prefix_append _ _) hbk
        · exact he ▸ hm
      · intro hm
        refine ⟨k, hm, ?_, by simp [moved, hak]⟩
        rintro rfl
        exact hbk (List.prefix_refl _)

theorem wellFormed_of_get? (hd : (t.entries.map (·.1)).Nodup)
    (hne : ∀ l ∈ t.entries.map (·.1), l ≠ [])
    (hp : ∀ dir s, t.get? (dir ++ [s]) ≠ none → IsProper s ∧ t.get? dir = some .directory) :
    t.WellFormed := by
  have hg : ∀ e ∈ t.entries, t.get? e.1 = some e.2 := by
    intro e he
    rw [get?_of_ne (hne _ (List.mem_map_of_mem he))]
    exact (find?_eq_some_iff hd).mpr he
  have hall : ∀ l, t.get? l ≠ none → ∀ s ∈ l, IsProper s := by
    intro l
    induction l using List.reverseRec with
    | nil => simp
    | append_singleton l s ih =>
      intro hl k hk
      obtain ⟨hs, hl⟩ := hp l s hl
      rcases List.mem_append.mp hk with hk | hk
      · exact ih (by simp [hl]) k hk
      · rwa [List.mem_singleton.mp hk]
  refine ⟨hd, fun e he => hne _ (List.mem_map_of_mem he), ?_, ?_⟩
  · exact fun e he => hall e.1 (by simp [hg e he])
  · intro e he
    have h := List.dropLast_append_getLast (hne _ (List.mem_map_of_mem he))
    exact (hp _ (e.1.getLast (hne _ (List.mem_map_of_mem he))) (by simp [h, hg e he])).2

theorem WellFormed.proper_name (h : t.WellFormed) (hn : t.get? (dir ++ [s]) ≠ none) : IsProper s :=
  h.proper_of_get? hn s (by simp)

theorem WellFormed.insert (h : t.WellFormed) (hd : t.get? dir = some .directory)
    (hs : IsProper s) (hn : t.get? (dir ++ [s]) = none) : (t.insert (dir ++ [s]) n).WellFormed := by
  have hdir : dir ≠ dir ++ [s] := by simp
  apply wellFormed_of_get?
  · simp only [Tree.insert, List.map_append, List.map_cons, List.map_nil]
    refine List.nodup_append.mpr ⟨h.nodup.sublist (List.filter_sublist.map _), by simp, ?_⟩
    rintro k hk k' hk' rfl
    obtain ⟨e, he, rfl⟩ := List.mem_map.mp hk
    have := (List.mem_filter.mp he).2
    simp_all
  · simp only [Tree.insert, List.map_append, List.mem_append, List.map_cons, List.map_nil,
      List.mem_singleton]
    rintro l (hl | rfl)
    · obtain ⟨e, he, rfl⟩ := List.mem_map.mp hl
      exact h.nonempty _ (List.mem_filter.mp he).1
    · simp
  · intro dir' s'
    rw [get?_insert (by simp), get?_insert (by simp)]
    split
    case isTrue hk =>
      obtain ⟨rfl, he⟩ := List.append_inj' hk rfl
      intro _
      obtain rfl := List.singleton_inj.mp he
      simp [hs, hd]
    case isFalse hk =>
      intro hne
      have hp := h.get?_parent hne
      refine ⟨h.proper_name hne, ?_⟩
      rw [if_neg]
      · exact hp
      · rintro rfl
        simp [hn] at hp

theorem WellFormed.insertFile {c : Content} {x : Bool} (h : t.WellFormed)
    (hd : t.get? dir = some .directory) (hs : IsProper s) (hn : t.get? (dir ++ [s]) = none) :
    (t.insertFile (dir ++ [s]) c x).WellFormed := by
  obtain ⟨h₁, h₂, h₃, h₄⟩ := h.insert (n := .file t.nextNumber c x) hd hs hn
  exact ⟨h₁, h₂, h₃, h₄⟩

theorem WellFormed.erase (h : t.WellFormed) (hl : l ≠ [])
    (hn : ∀ rest, rest ≠ [] → t.get? (l ++ rest) = none) : (t.erase l).WellFormed := by
  apply wellFormed_of_get?
  · exact h.nodup.sublist (List.filter_sublist.map _)
  · intro k hk
    obtain ⟨e, he, rfl⟩ := List.mem_map.mp hk
    exact h.nonempty _ (List.mem_filter.mp he).1
  · intro dir s
    rw [get?_erase hl, get?_erase hl]
    split
    case isTrue => simp
    case isFalse hk =>
      intro hne
      refine ⟨h.proper_name hne, ?_⟩
      rw [if_neg]
      · exact h.get?_parent hne
      · rintro rfl
        exact hne (hn [s] (by simp))

theorem keys_setFile {number : Nat} {c : Content} {x : Bool} :
    (t.setFile number c x).entries.map (·.1) = t.entries.map (·.1) := by
  simp only [setFile, List.map_map]
  refine List.map_congr_left fun e _ => ?_
  simp only [Function.comp]
  split
  · split <;> rfl
  · rfl

theorem WellFormed.setFile {number : Nat} {c : Content} {x : Bool} (h : t.WellFormed) :
    (t.setFile number c x).WellFormed := by
  apply wellFormed_of_get?
  · rw [keys_setFile]
    exact h.nodup
  · rw [keys_setFile]
    intro k hk
    obtain ⟨e, he, rfl⟩ := List.mem_map.mp hk
    exact h.nonempty _ he
  · intro dir s
    simp only [get?_setFile, ne_eq, Option.map_eq_none_iff]
    intro hne
    simp [h.proper_name hne, h.get?_parent hne, rewritten]

theorem WellFormed.move (h : t.WellFormed) (ha : a ≠ []) (hd : t.get? dir = some .directory)
    (hs : IsProper s) (hab : ¬a <+: dir ++ [s])
    (hn : ∀ rest, rest ≠ [] → t.get? (dir ++ [s] ++ rest) = none) :
    (t.move a (dir ++ [s])).WellFormed := by
  have hb : dir ++ [s] ≠ [] := by simp
  apply wellFormed_of_get? (nodup_move h hn)
  · intro k hk
    obtain ⟨⟨k, n⟩, he, rfl⟩ := List.mem_map.mp hk
    obtain ⟨k', hm, _, rfl⟩ := mem_move.mp he
    simp only [moved]
    split
    · simp
    · exact h.nonempty _ hm
  · intro dir' s'
    rw [get?_move h ha hb hab hn, get?_move h ha hb hab hn]
    by_cases hk : dir ++ [s] <+: dir' ++ [s']
    · rcases List.prefix_concat_iff.mp hk with hk | ⟨rest, rfl⟩
      · obtain ⟨rfl, he⟩ := List.append_inj' hk rfl
        obtain rfl := List.singleton_inj.mp he
        have hda : ¬a <+: dir := fun hp => hab (hp.trans (List.prefix_append _ _))
        have hdb : ¬dir ++ [s] <+: dir := fun hp => by
          have hl := hp.length_le
          rw [List.length_append, List.length_singleton] at hl
          omega
        simp [hs, hd, hda, hdb]
      · have hdrop : (dir ++ [s] ++ rest ++ [s']).drop (dir ++ [s]).length = rest ++ [s'] := by
          rw [List.append_assoc, List.drop_left]
        rw [if_pos hk, if_pos (List.prefix_append _ _), hdrop, List.drop_left, ← List.append_assoc]
        exact fun hne => ⟨h.proper_name hne, h.get?_parent hne⟩
    · have hk' : ¬dir ++ [s] <+: dir' := fun hp => hk (hp.trans (List.prefix_append _ _))
      rw [if_neg hk, if_neg hk']
      split
      case isTrue => simp
      case isFalse hka =>
        intro hne
        have hka' : ¬a <+: dir' := fun hp => hka (hp.trans (List.prefix_append _ _))
        rw [if_neg hka']
        exact ⟨h.proper_name hne, h.get?_parent hne⟩

end Tree

end CompiledModels.Files
