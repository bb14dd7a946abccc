import CompiledModels.Proofs.Files.Tree

/-!
Where paths lead: a directory that a path leads to stands for it when names are joined to it.
-/

namespace CompiledModels

namespace Path

def joins (p : Path) (names : List String) : Path := ⟨p.base, p.tail ++ names⟩

variable {p : Path} {names : List String} {s : String}

theorem joins_nil : p.joins [] = p := by simp [joins]

theorem join_eq_joins : p.join s = p.joins [s] := rfl

theorem fileName?_pair (p : Path) (s' s : String) : (p.joins [s', s]).fileName? = some s := by
  simp [fileName?, components, joins]

theorem joins_join : (p.joins names).join s = p.joins (names ++ [s]) := by
  simp [joins, join]

theorem joins_joins {more : List String} : (p.joins names).joins more = p.joins (names ++ more) := by
  simp [joins]

theorem length_le_size (p : Path) (h : ∀ s ∈ names, s ≠ "") :
    names.length ≤ (p.joins names).text.utf8ByteSize := by
  induction names using List.reverseRecOn with
  | nil => simp
  | append_singleton names s ih =>
    have hs : 0 < s.utf8ByteSize := by
      rw [Nat.pos_iff_ne_zero, ne_eq, String.utf8ByteSize_eq_zero_iff]
      exact h s (by simp)
    have hsize := ih fun s hs => h s (by simp [hs])
    have htext : (p.joins (names ++ [s])).text = joinText (p.joins names).text s := by
      simp [text, joins]
    rw [htext, joinText, List.length_append, List.length_singleton]
    split <;> simp only [String.utf8ByteSize_append] <;> omega

theorem size_join_le (p : Path) (s : String) :
    (p.join s).text.utf8ByteSize ≤ p.text.utf8ByteSize + 1 + s.utf8ByteSize := by
  have htext : (p.join s).text = joinText p.text s := by simp [text, join]
  have hslash : "/".utf8ByteSize = 1 := by decide
  rw [htext, joinText]
  split
  · rw [String.utf8ByteSize_append]
    omega
  · have hsize : (p.text ++ "/" ++ s).utf8ByteSize = p.text.utf8ByteSize + 1 + s.utf8ByteSize := by
      rw [String.utf8ByteSize_append, String.utf8ByteSize_append, hslash]
    exact Nat.le_of_eq hsize

theorem size_le_join (p : Path) (s : String) :
    p.text.utf8ByteSize + s.utf8ByteSize ≤ (p.join s).text.utf8ByteSize := by
  have htext : (p.join s).text = joinText p.text s := by simp [text, join]
  rw [htext, joinText]
  split <;> simp only [String.utf8ByteSize_append] <;> omega

theorem joinText_suffix {a b : String} (h : a.toList <:+ b.toList) (name : String) :
    (joinText a name).toList <:+ (joinText b name).toList := by
  by_cases ha : a = ""
  · subst ha
    have hempty : joinText "" name = name := by simp [joinText]
    rw [hempty, joinText]
    split <;> simp only [String.toList_append] <;> exact List.suffix_append _ _
  · have hne : a.toList ≠ [] := by simpa using ha
    have hb : b ≠ "" := by
      rintro rfl
      exact hne (List.suffix_nil.mp (by simpa using h))
    have hends (s : String) : s.endsWith "/" = true ↔ "/".toList <:+ s.toList := by
      rw [String.endsWith_eq_endsWith_toSlice, String.Slice.endsWith_string_iff]
      simp
    have hsame : b.endsWith "/" = a.endsWith "/" := by
      rw [Bool.eq_iff_iff, hends, hends]
      refine ⟨fun hs => ?_, fun hs => hs.trans h⟩
      exact List.suffix_of_suffix_length_le hs h (List.length_pos_iff.mpr hne)
    have hna : a.isEmpty = false := by simpa using ha
    have hnb : b.isEmpty = false := by simpa using hb
    rw [joinText, joinText, hna, hnb, hsame, Bool.false_or]
    split <;> simp only [String.toList_append, List.append_assoc, List.suffix_append_self_iff] <;> exact h

theorem text_suffix_inDirectory (dir : Path) : p.text.toList <:+ (inDirectory dir p).text.toList := by
  have hfold (tail : List String) {a b : String} (h : a.toList <:+ b.toList) :
      (tail.foldl joinText a).toList <:+ (tail.foldl joinText b).toList := by
    induction tail generalizing a b with
    | nil => exact h
    | cons s tail ih => exact ih (joinText_suffix h s)
  rw [inDirectory]
  split
  · exact List.suffix_refl _
  · split
    case isTrue hb =>
      apply hfold
      rw [String.isEmpty_iff.mp hb]
      exact List.nil_suffix
    case isFalse =>
      apply hfold
      rw [joinText]
      split <;> simp only [String.toList_append] <;> exact List.suffix_append _ _

theorem size_le_inDirectory (dir : Path) :
    p.text.utf8ByteSize ≤ (inDirectory dir p).text.utf8ByteSize := by
  obtain ⟨before, h⟩ := text_suffix_inDirectory (p := p) dir
  have htext : String.ofList before ++ p.text = (inDirectory dir p).text :=
    String.toList_inj.mp (by simpa using h)
  rw [← htext, String.utf8ByteSize_append]
  omega

theorem inDirectory_tail (dir : Path) : (inDirectory dir p).tail = p.tail := by
  simp only [inDirectory]
  split
  · rfl
  · split <;> rfl

theorem inDirectory_joins (dir : Path) :
    inDirectory dir (p.joins names) = (inDirectory dir p).joins names := by
  have ha : (p.joins names).isAbsolute = p.isAbsolute := rfl
  simp only [inDirectory, ha]
  split
  · rfl
  · by_cases hb : p.base.isEmpty <;> simp [joins, hb]

end Path

namespace Files.Tree

variable {t t' : Tree} {cwd dir l k : Location} {p : Path} {s : String} {n : Node} {follow : Bool}
  {links : Nat} {names rest : List String}

def Short (p : Path) : Prop := p.text.utf8ByteSize < maxPathLength

/-- `p` leads to the directory `l`: names that are joined to it are followed from there. -/
structure Leads (t : Tree) (cwd : Location) (p : Path) (l : Location) : Prop where
  directory : t.get? l = some .directory
  plain : p.base.toList.any (· == '\x00') = false
  follows : ∃ links, ∀ follow names, names ≠ [] →
    t.resolveFrom follow maxLinks (if p.isAbsolute then [] else cwd)
      (Path.segments p.base ++ p.tail ++ names) = t.resolveFrom follow links l names

theorem short_of_resolve (h : t.resolve cwd follow p = .ok l) : Short p := by
  refine Nat.lt_of_not_le fun hlen => ?_
  simp only [resolve, hlen, if_true] at h
  split at h
  · simp at h
  · split at h <;> simp at h

theorem resolveFrom_nil : t.resolveFrom follow links dir [] = .ok dir := by
  cases links <;> rfl

theorem resolveFrom_empty : t.resolveFrom follow links dir ("" :: rest) =
    t.resolveFrom follow links dir rest := by
  unfold resolveFrom
  simp [descend]

theorem descend_proper (hs : IsProper s) : t.descend follow dir (s :: rest) =
    match t.get? (dir ++ [s]) with
    | some .directory => descend t follow (dir ++ [s]) rest
    | some (.link target) =>
      if rest = [] ∧ !follow then .reached (dir ++ [s]) else .through dir target rest
    | some _ => if rest = [] then .reached (dir ++ [s]) else .failed .notDirectory
    | none =>
      if rest.all (fun s => s = "" ∨ s = ".") then .reached (dir ++ [s]) else .failed .noEntry := by
  obtain ⟨⟨h₁, h₂, h₃⟩, h₄⟩ := hs
  have hdot : ¬(s = "" ∨ s = ".") := by simp [h₁, h₂]
  exact (if_neg hdot).trans ((if_neg h₃).trans ((if_neg (Nat.not_lt.mpr h₄)).trans rfl))

theorem proper_of_resolveFrom (hs : IsPlain s)
    (h : t.resolveFrom follow links dir (s :: rest) = .ok k) : IsProper s := by
  refine ⟨hs, Nat.le_of_not_lt fun hlen => ?_⟩
  obtain ⟨h₁, h₂, h₃⟩ := hs
  have hd : t.descend follow dir (s :: rest) = .failed .nameTooLong := by
    simp only [descend, h₁, h₂, h₃, or_self, ↓reduceIte, hlen]
  unfold resolveFrom at h
  simp [hd] at h

theorem resolveFrom_directory (hs : IsProper s) (hd : t.get? (dir ++ [s]) = some .directory) :
    t.resolveFrom follow links dir (s :: rest) = t.resolveFrom follow links (dir ++ [s]) rest := by
  have h : t.descend follow dir (s :: rest) = t.descend follow (dir ++ [s]) rest := by
    rw [descend_proper hs, hd]
  unfold resolveFrom
  rw [h]

theorem resolveFrom_last (hs : IsProper s)
    (hl : follow = true → t.NoLink (dir ++ [s])) :
    t.resolveFrom follow links dir [s] = .ok (dir ++ [s]) := by
  have h : t.descend follow dir [s] = .reached (dir ++ [s]) := by
    rw [descend_proper hs]
    cases hn : t.get? (dir ++ [s]) with
    | none => simp
    | some n =>
      cases n with
      | directory => rfl
      | link target =>
        have hf : follow = false := by
          by_contra hf
          exact hl (by simpa using hf) target hn
        simp [hf]
      | file => simp
      | other => simp
  unfold resolveFrom
  rw [h]

theorem resolveFrom_directories (hs : ∀ s ∈ names, IsProper s)
    (hd : ∀ some, some <+: names → some ≠ [] → t.get? (dir ++ some) = .some .directory) :
    t.resolveFrom follow links dir (names ++ rest) =
      t.resolveFrom follow links (dir ++ names) rest := by
  induction names generalizing dir with
  | nil => simp
  | cons s names ih =>
    have hdir : t.get? (dir ++ [s]) = some .directory := hd [s] (by simp) (by simp)
    rw [List.cons_append, resolveFrom_directory (hs s (by simp)) hdir,
      ih (fun s h => hs s (by simp [h])), List.append_assoc, List.singleton_append]
    intro pre hp _
    rw [List.append_assoc, List.singleton_append]
    exact hd (s :: pre) (by simpa using hp) (by simp)

def Unlinked (t : Tree) (follow : Bool) (dir : Location) (names : List String) : Prop :=
  ∀ some, some ≠ [] → some <+: names → (some ≠ names ∨ follow = true) → t.NoLink (dir ++ some)

theorem unlinked_singleton (h : follow = true → t.NoLink (dir ++ [s])) :
    t.Unlinked follow dir [s] := by
  intro pre hne hp hf target
  obtain ⟨rest, hr⟩ := hp
  cases pre with
  | nil => exact absurd rfl hne
  | cons a pre =>
    simp only [List.cons_append, List.cons.injEq, List.append_eq_nil_iff] at hr
    obtain ⟨rfl, rfl, rfl⟩ := hr
    exact h (by simpa using hf) target

theorem unlinked_pair {s' : String} : t.Unlinked false dir [s, s'] ↔ t.NoLink (dir ++ [s]) := by
  constructor
  · exact fun h => h [s] (by simp) (by simp) (by simp)
  · rintro h pre hne ⟨rest, hp⟩ hf
    rcases pre with _ | ⟨a, _ | ⟨b, pre⟩⟩
    · exact absurd rfl hne
    · simp only [List.cons_append, List.cons.injEq] at hp
      rwa [hp.1]
    · simp only [List.cons_append, List.cons.injEq, List.append_eq_nil_iff] at hp
      simp [hp.1, hp.2.1, hp.2.2.1] at hf

theorem Unlinked.weaken (h : t.Unlinked true dir names) : t.Unlinked follow dir names :=
  fun pre hne hp _ => h pre hne hp (.inr rfl)

theorem Unlinked.through (h : t.Unlinked false dir names) (hn : t.NoLink (dir ++ names)) :
    t.Unlinked true dir names := by
  intro pre hne hp _
  by_cases he : pre = names
  · exact he ▸ hn
  · exact h pre hne hp (.inl he)

theorem Unlinked.concat (h : t.Unlinked true dir names)
    (hl : follow = true → t.NoLink (dir ++ names ++ [s])) :
    t.Unlinked follow dir (names ++ [s]) := by
  intro pre hne hp hf
  rcases List.prefix_concat_iff.mp hp with rfl | hp
  · rw [← List.append_assoc]
    exact hl (by simpa using hf)
  · exact h pre hne hp (.inr rfl)

theorem WellFormed.unlinked (h : t.WellFormed) (hd : t.get? (dir ++ names) = some .directory) :
    t.Unlinked true dir names := by
  rintro pre _ ⟨rest, rfl⟩ _ target hg
  by_cases hr : rest = []
  · simp [hr, hg] at hd
  · rw [← List.append_assoc] at hd
    rw [h.get?_above hr (by rw [hd]; simp)] at hg
    simp at hg

theorem Unlinked.tail (h : t.Unlinked follow dir (s :: names)) :
    t.Unlinked follow (dir ++ [s]) names := by
  intro pre hne hp hf target
  rw [List.append_assoc, List.singleton_append]
  exact h (s :: pre) (by simp) (by simpa using hp) (by simpa using hf) target

theorem resolveFrom_ok (hdir : t.get? dir = some .directory) (hne : names ≠ [])
    (hs : ∀ s ∈ names, IsPlain s) (hl : t.Unlinked follow dir names)
    (h : t.resolveFrom follow links dir names = .ok k) :
    k = dir ++ names ∧ t.get? (dir ++ names.dropLast) = some .directory ∧
      ∀ s ∈ names, IsProper s := by
  induction names generalizing dir with
  | nil => exact absurd rfl hne
  | cons s names ih =>
    have hp : IsProper s := proper_of_resolveFrom (hs s (by simp)) h
    by_cases hn : names = []
    · subst hn
      rw [resolveFrom_last hp fun hf => hl [s] (by simp) (by simp) (.inr hf)] at h
      simp only [Except.ok.injEq] at h
      simp [h, hdir, hp]
    · have hd : t.get? (dir ++ [s]) = some .directory := by
        by_contra hd
        unfold resolveFrom at h
        rw [descend_proper hp] at h
        cases hg : t.get? (dir ++ [s]) with
        | none =>
          obtain ⟨s', rest, rfl⟩ := List.exists_cons_of_ne_nil hn
          obtain ⟨h₁, h₂, _⟩ := hs s' (by simp)
          simp [hg, h₁, h₂] at h
        | some n =>
          cases n with
          | directory => exact hd hg
          | link target => exact hl [s] (by simp) (by simp) (.inl (by simp [Ne.symm hn])) target hg
          | file => simp [hg, hn] at h
          | other => simp [hg, hn] at h
      rw [resolveFrom_directory hp hd] at h
      obtain ⟨rfl, hpar, hall⟩ := ih hd hn (fun s h => hs s (by simp [h])) hl.tail h
      refine ⟨by simp, ?_, ?_⟩
      · rw [List.dropLast_cons_of_ne_nil hn]
        simpa using hpar
      · simpa [hp] using hall

theorem resolveFrom_missing (hw : t.WellFormed) (hs : ∀ s ∈ names, IsPlain s)
    (hl : t.Unlinked follow dir names)
    (h : t.resolveFrom follow links dir names = .error .noEntry) :
    t.get? (dir ++ names) = none ∧ ∀ pre, pre <+: names → pre ≠ [] → t.Spot (dir ++ pre) := by
  induction names generalizing dir with
  | nil => simp [resolveFrom_nil] at h
  | cons s names ih =>
    have hp : IsProper s := by
      refine ⟨hs s (by simp), ?_⟩
      by_contra hlong
      obtain ⟨h₁, h₂, h₃⟩ := hs s (by simp)
      unfold resolveFrom at h
      rw [descend, if_neg (by simp [h₁, h₂]), if_neg h₃, if_pos (Nat.lt_of_not_le hlong)] at h
      simp only [Except.error.injEq] at h
      exact absurd h (by decide)
    have hlast (hn : names = []) : t.resolveFrom follow links dir (s :: names) = .ok (dir ++ [s]) := by
      subst hn
      exact resolveFrom_last hp fun hf => hl [s] (by simp) (by simp) (.inr hf)
    have hn : names ≠ [] := fun hn => by simp [hlast hn] at h
    cases hg : t.get? (dir ++ [s]) with
    | none =>
      have hbelow (rest : List String) : t.get? (dir ++ s :: rest) = none := by
        by_cases hr : rest = []
        · rw [hr, hg]
        · simpa using hw.get?_below (l := dir ++ [s]) (by simp [hg]) hr
      refine ⟨hbelow names, fun pre hpre hne => ?_⟩
      obtain ⟨s', pre, rfl⟩ := List.exists_cons_of_ne_nil hne
      obtain ⟨rfl, -⟩ := List.cons_prefix_cons.mp hpre
      exact .inl (hbelow pre)
    | some n =>
      have hd : n = .directory := by
        unfold resolveFrom at h
        rw [descend_proper hp, hg] at h
        cases n with
        | directory => rfl
        | link target => exact absurd hg (hl [s] (by simp) (by simp) (.inl (by simp [Ne.symm hn])) target)
        | file | other =>
          simp only [hn, if_false, Except.error.injEq] at h
          exact absurd h (by decide)
      subst hd
      rw [resolveFrom_directory hp hg] at h
      obtain ⟨hnone, hpre⟩ := ih (fun s h => hs s (by simp [h])) hl.tail h
      refine ⟨by simpa using hnone, fun some hsome hne => ?_⟩
      obtain ⟨s', rest, rfl⟩ := List.exists_cons_of_ne_nil hne
      obtain ⟨rfl, hrest⟩ := List.cons_prefix_cons.mp hsome
      by_cases hr : rest = []
      · exact .inr (by rw [hr, hg])
      · simpa using hpre rest hrest hr

theorem resolveFrom_to (hw : t.WellFormed) (hne : names ≠ [])
    (hs : ∀ s ∈ names, IsProper s) (hl : t.Unlinked follow dir names)
    (hpar : t.get? (dir ++ names.dropLast) = some .directory) :
    t.resolveFrom follow links dir names = .ok (dir ++ names) := by
  obtain ⟨init, s, rfl⟩ := (List.eq_nil_or_concat' names).resolve_left hne
  rw [List.dropLast_concat] at hpar
  rw [resolveFrom_directories (fun s h => hs s (by simp [h])), resolveFrom_last (hs s (by simp))]
  · simp
  · intro hf target
    have := hl (init ++ [s]) (by simp) (List.prefix_refl _) (.inr hf) target
    simpa using this
  · rintro pre ⟨rest, rfl⟩ _
    by_cases hr : rest = []
    · simpa [hr] using hpar
    · rw [← List.append_assoc] at hpar
      exact hw.get?_above hr (by rw [hpar]; simp)

namespace Leads

theorem resolve_eq (h : t.Leads cwd p l) : ∃ links, ∀ follow names, names ≠ [] →
    t.resolve cwd follow (p.joins names) =
      if maxPathLength ≤ (p.joins names).text.utf8ByteSize then .error (.os .nameTooLong)
      else
        match t.resolveFrom follow links l names with
        | .error e => .error (.os e)
        | .ok k => .ok k := by
  obtain ⟨links, hf⟩ := h.follows
  refine ⟨links, fun follow names hn => ?_⟩
  have hbase : (p.joins names).base = p.base := rfl
  have htail : (p.joins names).tail = p.tail ++ names := rfl
  have habs : (p.joins names).isAbsolute = p.isAbsolute := rfl
  have hempty : (p.tail ++ names).isEmpty = false := by simp [hn]
  have hdem : demandsDirectory (p.joins names) = false := by simp [demandsDirectory, htail, hn]
  simp only [resolve, hbase, htail, habs, hdem, hempty, h.plain, Bool.or_false, Bool.false_eq_true,
    ↓reduceIte, and_false, ← List.append_assoc, hf follow names hn]
  split
  case isTrue => rfl
  case isFalse =>
    cases t.resolveFrom follow links l names with
    | error e => rfl
    | ok k =>
      cases hg : t.get? k with
      | none => simp [hg]
      | some n => cases n <;> simp [hg]

theorem resolve_joins (h : t.Leads cwd p l) : ∃ links, ∀ follow names k, names ≠ [] →
    (t.resolve cwd follow (p.joins names) = .ok k ↔
      Short (p.joins names) ∧ t.resolveFrom follow links l names = .ok k) := by
  obtain ⟨links, heq⟩ := h.resolve_eq
  refine ⟨links, fun follow names k hn => ?_⟩
  rw [heq follow names hn, Short]
  split
  case isTrue hlong => simp [Nat.not_lt.mpr hlong]
  case isFalse hshort =>
    rw [and_iff_right (Nat.lt_of_not_le hshort)]
    cases t.resolveFrom follow links l names <;> simp

theorem resolve_joins_missing {e : FileError} (h : t.Leads cwd p l) (hw : t.WellFormed)
    (hn : names ≠ []) (hs : ∀ s ∈ names, IsPlain s) (hl : t.Unlinked follow l names)
    (hk : t.resolve cwd follow (p.joins names) = .error e) (he : e.isMissing = true) :
    t.get? (l ++ names) = none ∧ ∀ pre, pre <+: names → pre ≠ [] → t.Spot (l ++ pre) := by
  obtain ⟨links, heq⟩ := h.resolve_eq
  rw [heq follow names hn] at hk
  split at hk
  case isTrue =>
    obtain rfl := Except.error.inj hk
    exact absurd he (by decide)
  case isFalse =>
    cases hr : t.resolveFrom follow links l names with
    | error e' =>
      simp only [hr, Except.error.injEq] at hk
      subst hk
      obtain rfl : e' = .noEntry := by simpa [FileError.isMissing] using he
      exact resolveFrom_missing hw hs hl hr
    | ok k => simp [hr] at hk

theorem resolve_joins_ok (h : t.Leads cwd p l) (hn : names ≠ []) (hs : ∀ s ∈ names, IsPlain s)
    (hl : t.Unlinked follow l names) (hk : t.resolve cwd follow (p.joins names) = .ok k) :
    k = l ++ names ∧ t.get? (l ++ names.dropLast) = some .directory ∧
      (∀ s ∈ names, IsProper s) ∧ Short (p.joins names) := by
  obtain ⟨links, hr⟩ := h.resolve_joins
  obtain ⟨hshort, hf⟩ := (hr follow names k hn).mp hk
  obtain ⟨hk, hd, hp⟩ := resolveFrom_ok h.directory hn hs hl hf
  exact ⟨hk, hd, hp, hshort⟩

theorem resolve_joins_to (h : t.Leads cwd p l) (hw : t.WellFormed) (hn : names ≠ [])
    (hs : ∀ s ∈ names, IsProper s) (hl : t.Unlinked follow l names)
    (hpar : t.get? (l ++ names.dropLast) = some .directory) (hshort : Short (p.joins names)) :
    t.resolve cwd follow (p.joins names) = .ok (l ++ names) := by
  obtain ⟨links, hr⟩ := h.resolve_joins
  exact (hr follow names _ hn).mpr ⟨hshort, resolveFrom_to hw hn hs hl hpar⟩

end Leads

theorem descend_follow (hr : ∀ l, t.descend false dir names = .reached l → t.NoLink l) :
    t.descend true dir names = t.descend false dir names := by
  induction names generalizing dir with
  | nil => rfl
  | cons s names ih =>
    simp only [descend] at hr ⊢
    by_cases h₁ : s = "" ∨ s = "."
    · simp only [if_pos h₁] at hr ⊢
      exact ih hr
    by_cases h₂ : s = ".."
    · simp only [if_neg h₁, if_pos h₂] at hr ⊢
      exact ih hr
    by_cases h₃ : maxNameLength < s.utf8ByteSize
    · simp only [if_neg h₁, if_neg h₂, if_pos h₃]
    simp only [if_neg h₁, if_neg h₂, if_neg h₃] at hr ⊢
    cases hn : t.get? (dir ++ [s]) with
    | none => rfl
    | some n =>
      cases n with
      | directory =>
        simp only [hn] at hr
        exact ih hr
      | link target =>
        by_cases he : names = []
        · simp only [hn, he, Bool.not_false, and_self, if_true] at hr
          exact absurd hn (hr _ rfl target)
        · simp [he]
      | _ => rfl

theorem resolveFrom_follow (hr : t.resolveFrom false links dir names = .ok l) (hl : t.NoLink l) :
    t.resolveFrom true links dir names = .ok l := by
  induction links generalizing dir names with
  | zero =>
    unfold resolveFrom at hr ⊢
    rwa [descend_follow fun k hk => by simp_all]
  | succ links ih =>
    unfold resolveFrom at hr ⊢
    rw [descend_follow fun k hk => by simp_all]
    cases hd : t.descend false dir names with
    | reached k => simpa only [hd] using hr
    | failed e => simp [hd] at hr
    | through d target rest =>
      simp only [hd] at hr
      exact ih hr

theorem resolve_follow (hr : t.resolve cwd false p = .ok l) (hl : t.NoLink l) :
    t.resolve cwd true p = .ok l := by
  simp only [resolve] at hr ⊢
  split at hr
  · simp at hr
  split at hr
  · simp at hr
  split at hr
  · simp at hr
  rename_i h₁ h₂ h₃
  rw [if_neg h₁, if_neg h₂, if_neg h₃]
  split at hr
  · simp at hr
  rename_i k hk
  have he : k = l := by
    split at hr <;> simp_all
    split at hr <;> simp_all
  subst he
  cases hd : demandsDirectory p with
  | true =>
    simp only [hd, Bool.or_true] at hk hr ⊢
    rw [hk]
    exact hr
  | false =>
    simp only [hd, Bool.or_false] at hk hr ⊢
    rw [resolveFrom_follow hk hl]
    exact hr

def Extends (t' t : Tree) : Prop := ∀ l, t.get? l ≠ none → t'.get? l = t.get? l

theorem descend_extends (h : t'.Extends t)
    (hr : ∀ l, t.descend follow dir names = .reached l → t.get? l ≠ none)
    (hf : ∀ e, t.descend follow dir names ≠ .failed e) :
    t'.descend follow dir names = t.descend follow dir names := by
  induction names generalizing dir with
  | nil => rfl
  | cons s names ih =>
    simp only [descend] at hr hf ⊢
    by_cases h₁ : s = "" ∨ s = "."
    · simp only [if_pos h₁] at hr hf ⊢
      exact ih hr hf
    by_cases h₂ : s = ".."
    · simp only [if_neg h₁, if_pos h₂] at hr hf ⊢
      exact ih hr hf
    by_cases h₃ : maxNameLength < s.utf8ByteSize
    · simp only [if_neg h₁, if_neg h₂, if_pos h₃]
    simp only [if_neg h₁, if_neg h₂, if_neg h₃] at hr hf ⊢
    cases hn : t.get? (dir ++ [s]) with
    | none =>
      simp only [hn] at hr hf
      split at hf
      · rw [if_pos ‹_›] at hr
        exact absurd hn (hr _ rfl)
      · exact absurd rfl (hf _)
    | some n =>
      rw [h _ (by simp [hn]), hn]
      rw [hn] at hr hf
      cases n with
      | directory => exact ih hr hf
      | _ => rfl

theorem resolveFrom_extends (h : t'.Extends t)
    (hr : t.resolveFrom follow links dir names = .ok l) (hl : t.get? l ≠ none) :
    t'.resolveFrom follow links dir names = .ok l := by
  induction links generalizing dir names with
  | zero =>
    unfold resolveFrom at hr ⊢
    rw [descend_extends h]
    · exact hr
    · intro k hk
      simp only [hk, Except.ok.injEq] at hr
      rwa [hr]
    · intro e he
      simp [he] at hr
  | succ links ih =>
    unfold resolveFrom at hr ⊢
    rw [descend_extends h]
    · cases hd : t.descend follow dir names with
      | through d target rest =>
        simp only [hd] at hr
        exact ih hr
      | reached k => simpa only [hd] using hr
      | failed e => simp [hd] at hr
    · intro k hk
      simp only [hk, Except.ok.injEq] at hr
      rwa [hr]
    · intro e he
      simp [he] at hr

theorem resolve_extends (h : t'.Extends t) (hr : t.resolve cwd follow p = .ok l)
    (hl : t.get? l ≠ none) : t'.resolve cwd follow p = .ok l := by
  simp only [resolve] at hr ⊢
  split at hr
  · simp at hr
  split at hr
  · simp at hr
  split at hr
  · simp at hr
  rename_i h₁ h₂ h₃
  rw [if_neg h₁, if_neg h₂, if_neg h₃]
  split at hr
  · simp at hr
  rename_i k hk
  have he : k = l := by
    split at hr <;> simp_all
    split at hr <;> simp_all
  subst he
  rw [resolveFrom_extends h hk hl]
  simp only [h _ hl]
  exact hr

section Congruence

variable {t t' : Tree} {cwd root dir l : Location} {names : List String} {follow : Bool} {q : Path} {s : String}

theorem descend_congr (hs : ∀ s ∈ names, IsPlain s) (hu : t.Unlinked follow dir names)
    (hc : ∀ pre, pre ≠ [] → pre <+: names → t'.get? (dir ++ pre) = t.get? (dir ++ pre)) :
    t'.descend follow dir names = t.descend follow dir names ∧
      ∀ d target rest, t.descend follow dir names ≠ .through d target rest := by
  induction names generalizing dir with
  | nil => exact ⟨rfl, by simp [descend]⟩
  | cons s names ih =>
    obtain ⟨h₁, h₂, h₃⟩ := hs s (by simp)
    by_cases hlong : maxNameLength < s.utf8ByteSize
    · simp [descend, h₁, h₂, h₃, hlong]
    have hp : IsProper s := ⟨hs s (by simp), Nat.le_of_not_lt hlong⟩
    have htail := ih (fun s h => hs s (by simp [h])) hu.tail fun pre hne hpre => by
      rw [List.append_assoc]
      exact hc (s :: pre) (by simp) (by simpa using hpre)
    rw [descend_proper hp, descend_proper hp, hc [s] (by simp) (by simp)]
    cases hn : t.get? (dir ++ [s]) with
    | none =>
      simp only
      split <;> simp
    | some n =>
      cases n with
      | directory => exact htail
      | link target =>
        by_cases hlast : names = [] ∧ (!follow) = true
        · simp [hlast.1, hlast.2]
        · refine absurd hn (hu [s] (by simp) (by simp) ?_ target)
          by_cases he : names = []
          · exact .inr (by simpa [he] using hlast)
          · exact .inl (by simp [Ne.symm he])
      | _ =>
        simp only
        split <;> simp

theorem resolve_congr (h : t.Leads cwd q root) (h' : t'.Leads cwd q root) (hn : names ≠ [])
    (hs : ∀ s ∈ names, IsPlain s) (hu : t.Unlinked follow root names)
    (hc : ∀ pre, pre ≠ [] → pre <+: names → t'.get? (root ++ pre) = t.get? (root ++ pre)) :
    t'.resolve cwd follow (q.joins names) = t.resolve cwd follow (q.joins names) := by
  obtain ⟨links, heq⟩ := h.resolve_eq
  obtain ⟨links', heq'⟩ := h'.resolve_eq
  obtain ⟨hdescend, hnot⟩ := descend_congr hs hu hc
  have hfrom : t'.resolveFrom follow links' root names = t.resolveFrom follow links root names := by
    unfold resolveFrom
    rw [hdescend]
    cases hd : t.descend follow root names with
    | reached k => rfl
    | failed e => rfl
    | through d target rest => exact absurd hd (hnot d target rest)
  rw [heq follow names hn, heq' follow names hn, hfrom]

/-- What is not there: either nothing has the name, or a directory before it is missing. -/
def Gone (t : Tree) (cwd : Location) (follow : Bool) (p : Path) : Prop :=
  t.resolve cwd follow p = .error (.os .noEntry) ∨ ∃ l, t.resolve cwd follow p = .ok l ∧ t.get? l = none

theorem resolveFrom_none {links : Nat} (hs : IsProper s) (hnone : t.get? (dir ++ [s]) = none) :
    t.resolveFrom follow links dir (s :: names) = .error .noEntry ∨
      t.resolveFrom follow links dir (s :: names) = .ok (dir ++ [s]) := by
  unfold resolveFrom
  simp only [descend_proper hs, hnone]
  by_cases hall : names.all (fun s => s = "" ∨ s = ".") = true
  · rw [if_pos hall]
    exact .inr rfl
  · rw [if_neg hall]
    exact .inl rfl

theorem Leads.gone (h : t.Leads cwd q root) (hn : names ≠ []) (hshort : Short (q.joins names))
    (hnone : t.get? l = none) (hr : ∀ links, t.resolveFrom follow links root names = .error .noEntry ∨
      t.resolveFrom follow links root names = .ok l) : t.Gone cwd follow (q.joins names) := by
  obtain ⟨links, heq⟩ := h.resolve_eq
  rw [Gone, heq follow names hn, if_neg (Nat.not_le.mpr hshort)]
  rcases hr links with hr | hr
  · exact .inl (by rw [hr])
  · exact .inr ⟨l, by rw [hr], hnone⟩

end Congruence

end Files.Tree

end CompiledModels
