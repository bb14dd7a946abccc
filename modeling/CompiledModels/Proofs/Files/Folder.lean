import CompiledModels.Proofs.Files.Operations

/-!
Directories that hold certain files: how files come into them, and how they are moved as a whole.
-/

namespace CompiledModels.Files.Tree

variable {t t' : Tree} {cwd dir a b k l : Location} {p q : Path} {s : String}
  {fs : List (String × Content × Bool)}

def Same (t t' : Tree) (l : Location) : Prop :=
  ∀ rest, t'.get? (l ++ rest) = t.get? (l ++ rest)

def Bare (t : Tree) (l : Location) : Prop := ∀ rest, t.get? (l ++ rest) = none

theorem WellFormed.bare (hw : t.WellFormed) (hl : t.get? l = none) : t.Bare l := by
  intro rest
  by_cases hr : rest = []
  · rw [hr, List.append_nil, hl]
  · exact hw.get?_below (by simp [hl]) hr

theorem get?_moved (hw : t.WellFormed) (hm : t.Movable a b) (k : Location) :
    (t.move a b).get? k =
      if b <+: k then t.get? (a ++ k.drop b.length) else if a <+: k then none else t.get? k :=
  get?_move hw hm.source_ne hm.target_ne hm.outside (hw.get?_below_target hm) k

theorem get?_moved_other (hw : t.WellFormed) (hm : t.Movable a b) (ha : ¬a <+: k) (hb : ¬b <+: k) :
    (t.move a b).get? k = t.get? k := by
  rw [get?_moved hw hm, if_neg hb, if_neg ha]

theorem get?_moved_target (hw : t.WellFormed) (hm : t.Movable a b) (rest : Location) :
    (t.move a b).get? (b ++ rest) = t.get? (a ++ rest) := by
  rw [get?_moved hw hm, if_pos (List.prefix_append _ _), List.drop_left]

theorem get?_moved_source (hw : t.WellFormed) (hm : t.Movable a b) (rest : Location) :
    (t.move a b).get? (a ++ rest) = none := by
  have hb : ¬b <+: a ++ rest := by
    intro hb
    rcases List.prefix_or_prefix_of_prefix hb (List.prefix_append a rest) with h | h
    · exact hm.apart h
    · exact hm.outside h
  rw [get?_moved hw hm, if_neg hb, if_pos (List.prefix_append _ _)]

theorem WellFormed.moved (hw : t.WellFormed) (hm : t.Movable a (dir ++ [s])) (hs : IsProper s)
    (hd : t.get? dir = some .directory) : (t.move a (dir ++ [s])).WellFormed :=
  hw.move hm.source_ne hd hs hm.outside (hw.get?_below_target hm)

theorem rename_into {good : Content → Bool → Prop} (hw : t.WellFormed) (hf : t.Folder dir [])
    (ha : ∀ a n, t.resolve cwd false p = .ok a → t.get? a = some n →
      a = k ∧ ∃ number c x, n = .file number c x ∧ good c x)
    (hb : ∀ b, t.resolve cwd false q = .ok b → b = dir ++ [s] ∧ IsProper s)
    (h : t.rename cwd p q = .ok t') :
    t'.WellFormed ∧ (∃ c x, good c x ∧ t'.Folder dir [(s, c, x)]) ∧
      (¬dir <+: k → t'.get? k = none) ∧ ∀ l, ¬(dir <+: l ∨ l = k) → t'.get? l = t.get? l := by
  obtain ⟨a, b, hra, hrb, h⟩ := rename_eq_ok h
  obtain ⟨rfl, hs⟩ := hb b hrb
  have hnone : t.get? (dir ++ [s]) = none := hf.absent (by simp)
  rcases h with ⟨_, rfl, hne⟩ | ⟨_, _, _, _, _, _, _, hg⟩ | ⟨hm, rfl, _⟩
  · exact absurd hnone hne
  · simp [hnone] at hg
  · obtain ⟨n, hn⟩ := Option.ne_none_iff_exists'.mp hm.source
    obtain ⟨rfl, number, c, x, rfl, hgood⟩ := ha a n hra hn
    have hbelow : ∀ rest, rest ≠ [] → t.get? (a ++ rest) = none :=
      fun rest hr => hw.get?_below (by simp [hn]) hr
    have hout : ¬dir <+: a := by
      rintro ⟨rest, rfl⟩
      by_cases hr : rest = []
      · simp [hr, hf.directory] at hn
      · obtain ⟨f, hmem, _⟩ := hf.only rest hr (by simp [hn])
        simp at hmem
    have hout' : ¬a <+: dir := by
      rintro ⟨rest, rfl⟩
      have hd := hf.directory
      by_cases hr : rest = []
      · simp [hr, hn] at hd
      · simp [hbelow rest hr] at hd
    have haway : (t.move a (dir ++ [s])).get? a = none := by
      simpa using get?_moved_source hw hm []
    refine ⟨hw.moved hm hs hf.directory, ⟨c, x, hgood, ?_⟩, fun _ => haway, fun l hl => ?_⟩
    · refine hf.add number (by simp) fun rest => ?_
      by_cases hr : [s] <+: rest
      · obtain ⟨more, rfl⟩ := hr
        rw [← List.append_assoc, get?_moved_target hw hm]
        by_cases hmore : more = []
        · simp [hmore, hn]
        · rw [hbelow more hmore, if_neg (by simpa using hmore), List.append_assoc]
          exact (hw.get?_below (l := dir ++ [s]) (by simp [hnone]) hmore ▸ by simp)
      · rw [if_neg (by rintro rfl; exact hr (List.prefix_refl _))]
        apply get?_moved_other hw hm
        · intro hp
          rcases List.prefix_or_prefix_of_prefix hp (List.prefix_append dir rest) with hp | hp
          · exact hout' hp
          · exact hout hp
        · rwa [List.prefix_append_right_inj]
    · simp only [not_or] at hl
      by_cases hp : a <+: l
      · obtain ⟨rest, rfl⟩ := hp
        rw [get?_moved_source hw hm, hbelow rest (by rintro rfl; exact hl.2 (by simp))]
      · exact get?_moved_other hw hm hp fun hb => hl.1 ((List.prefix_append _ _).trans hb)

theorem rename_folder (hw : t.WellFormed) (hf : t.Folder k fs)
    (ha : ∀ a, t.resolve cwd false p = .ok a → a = k)
    (hb : ∀ b, t.resolve cwd false q = .ok b → b = dir ++ [s] ∧ IsProper s ∧
      t.get? dir = some .directory)
    (hne : k ≠ dir ++ [s]) (h : t.rename cwd p q = .ok t') :
    t'.WellFormed ∧ t'.Folder (dir ++ [s]) fs ∧
      (∀ rest, rest ≠ [] → t.get? (dir ++ [s] ++ rest) = none) ∧
      (∀ rest, t'.get? (k ++ rest) = none) ∧
      ∀ l, ¬k <+: l → ¬dir ++ [s] <+: l → t'.get? l = t.get? l := by
  obtain ⟨a, b, hra, hrb, h⟩ := rename_eq_ok h
  obtain rfl := ha a hra
  obtain ⟨rfl, hs, hd⟩ := hb b hrb
  rcases h with ⟨_, he, _⟩ | ⟨_, number, c, x, _, _, hg, _⟩ | ⟨hm, rfl, _⟩
  · exact absurd he hne
  · simp [hf.directory] at hg
  · refine ⟨hw.moved hm hs hd, ?_, hw.get?_below_target hm, get?_moved_source hw hm,
      fun l hl hl' => get?_moved_other hw hm hl hl'⟩
    refine ⟨?_, fun f hmem => ?_, fun rest hr hn => ?_⟩
    · have := get?_moved_target hw hm []
      simpa [hf.directory] using this
    · rw [get?_moved_target hw hm]
      exact hf.files f hmem
    · rw [get?_moved_target hw hm] at hn
      exact hf.only rest hr hn

theorem rename_away (hw : t.WellFormed) (ha : ∀ a, t.resolve cwd false p = .ok a → a = k)
    (hb : ∀ b, t.resolve cwd false q = .ok b → b = dir ++ [s] ∧ IsProper s ∧
      t.get? dir = some .directory)
    (hne : k ≠ dir ++ [s]) (h : t.rename cwd p q = .ok t') :
    t' = t ∨ t'.WellFormed ∧ (∀ rest, t'.get? (k ++ rest) = none) ∧
      ∀ l, ¬k <+: l → ¬dir ++ [s] <+: l → t'.get? l = t.get? l := by
  obtain ⟨a, b, hra, hrb, h⟩ := rename_eq_ok h
  obtain rfl := ha a hra
  obtain ⟨rfl, hs, hd⟩ := hb b hrb
  rcases h with ⟨_, he, _⟩ | ⟨rfl, _⟩ | ⟨hm, rfl, _⟩
  · exact absurd he hne
  · exact .inl rfl
  · exact .inr ⟨hw.moved hm hs hd, get?_moved_source hw hm,
      fun l hl hl' => get?_moved_other hw hm hl hl'⟩

theorem Folder.insertFile {c : Content} {x : Bool} (h : t.Folder dir fs)
    (hn : ∀ f ∈ fs, f.1 ≠ s) : (t.insertFile (dir ++ [s]) c x).Folder dir (fs ++ [(s, c, x)]) := by
  refine h.add t.nextNumber hn fun rest => ?_
  rw [get?_insertFile (by simp)]
  simp

end CompiledModels.Files.Tree
