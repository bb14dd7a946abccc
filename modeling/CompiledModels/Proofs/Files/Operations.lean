import CompiledModels.Proofs.Files.Resolve

/-!
When the steps on a file tree succeed, and what they make of the tree then.
-/

namespace CompiledModels.Files.Tree

variable {t t' : Tree} {cwd dir l k a b : Location} {p q : Path} {s : String} {n : Node}
  {follow : Bool} {c : Content} {α β ε : Type}

theorem bind_eq_ok {x : Except ε α} {f : α → Except ε β} {y : β} :
    (x >>= f) = .ok y ↔ ∃ v, x = .ok v ∧ f v = .ok y := by
  cases x <;> simp [bind, Except.bind]

theorem pure_eq_ok {x y : α} : (pure x : Except ε α) = .ok y ↔ y = x := by
  simp [pure, Except.pure, eq_comm]

theorem throw_eq_ok {e : ε} {y : α} : (throw e : Except ε α) = .ok y ↔ False := by
  simp [throw, throwThe, MonadExceptOf.throw]

theorem bind_eq_error {x : Except ε α} {f : α → Except ε β} {e : ε} :
    (x >>= f) = .error e ↔ x = .error e ∨ ∃ v, x = .ok v ∧ f v = .error e := by
  cases x <;> simp [bind, Except.bind]

theorem throw_eq_error {e e' : ε} : (throw e : Except ε α) = .error e' ↔ e = e' := by
  simp [throw, throwThe, MonadExceptOf.throw]

theorem stat_eq_ok : t.stat cwd follow p = .ok n ↔
    ∃ l, t.resolve cwd follow p = .ok l ∧ t.get? l = some n := by
  simp only [stat, bind_eq_ok]
  refine exists_congr fun l => and_congr_right fun _ => ?_
  split
  case h_1 m hm =>
    rw [pure_eq_ok, hm, Option.some.injEq]
    exact eq_comm
  case h_2 hm => simp [hm, throw_eq_ok]

theorem list_eq_ok {es : List DirectoryEntry} : t.list cwd p = .ok es ↔
    ∃ l, t.resolve cwd true p = .ok l ∧ t.get? l = some .directory ∧ es = t.children l := by
  simp only [list, bind_eq_ok]
  refine exists_congr fun l => and_congr_right fun _ => ?_
  split
  case h_1 hm => simp [hm, pure_eq_ok]
  case h_2 m hm hd => simp_all [throw_eq_ok]
  case h_3 hm => simp [hm, throw_eq_ok]

theorem read_eq_ok {bytes : Bytes} : t.read cwd p = .ok bytes ↔
    ∃ n, t.stat cwd true p = .ok n ∧ n ≠ .directory ∧
      bytes = match n with
        | .file _ c _ => c.all
        | _ => [] := by
  simp only [read, bind_eq_ok]
  refine exists_congr fun n => and_congr_right fun _ => ?_
  cases n <;> simp [pure_eq_ok, throw_eq_ok]

theorem write_eq_ok : t.write cwd p c = .ok t' ↔
    ∃ l, t.resolve cwd true p = .ok l ∧
      ((∃ number c' x, t.get? l = some (.file number c' x) ∧ t' = t.setFile number c x) ∨
        (∃ n, t.get? l = some n ∧ n.isDirectory = false ∧ n.isFile = false ∧ t' = t) ∨
        (t.get? l = none ∧ demandsDirectory p = false ∧ t' = t.insertFile l c false)) := by
  simp only [write, bind_eq_ok]
  refine exists_congr fun l => and_congr_right fun _ => ?_
  cases hn : t.get? l with
  | none =>
    cases hd : demandsDirectory p <;>
      simp [pure_eq_ok, throw_eq_ok]
  | some n =>
    cases n <;> simp [pure_eq_ok, throw_eq_ok, Node.isDirectory, Node.isFile, -Bool.exists_bool]

theorem makeDirectory_eq_ok : t.makeDirectory cwd p = .ok t' ↔
    ∃ l, t.resolve cwd false p = .ok l ∧ t.get? l = none ∧ t' = t.insert l .directory := by
  simp only [makeDirectory, bind_eq_ok]
  refine exists_congr fun l => and_congr_right fun _ => ?_
  cases t.get? l <;> simp [pure_eq_ok, throw_eq_ok]

theorem makeDirectory_taken (hr : t.resolve cwd false p = .ok l) (hg : t.get? l = some n) :
    t.makeDirectory cwd p = .error (.os .alreadyExists) := by
  simp [makeDirectory, hr, hg, bind, Except.bind, throw, throwThe, MonadExceptOf.throw]

theorem removeFile_eq_ok : t.removeFile cwd p = .ok t' ↔
    ∃ l, t.resolve cwd false p = .ok l ∧ ∃ n, t.get? l = some n ∧ n.isDirectory = false ∧
      t' = t.erase l := by
  simp only [removeFile, bind_eq_ok]
  refine exists_congr fun l => and_congr_right fun _ => ?_
  cases hn : t.get? l with
  | none => simp [throw_eq_ok]
  | some n =>
    cases n <;> simp [pure_eq_ok, throw_eq_ok, Node.isDirectory]

theorem removeDirectory_eq_ok : t.removeDirectory cwd p = .ok t' ↔
    ∃ l, t.resolve cwd false p = .ok l ∧ t.get? l = some .directory ∧ l ≠ [] ∧
      t.children l = [] ∧ t' = t.erase l := by
  simp only [removeDirectory, bind_eq_ok]
  refine exists_congr fun l => and_congr_right fun _ => ?_
  cases hn : t.get? l with
  | none => simp [throw_eq_ok]
  | some n =>
    cases n with
    | directory =>
      by_cases hl : l = [] <;> by_cases hc : t.children l = [] <;>
        simp [hl, hc, pure_eq_ok, throw_eq_ok]
    | _ => simp [throw_eq_ok]

theorem copy_eq_ok : t.copy cwd p q = .ok t' ↔
    ∃ number c x, t.stat cwd true p = .ok (.file number c x) ∧
      ∃ l, t.resolve cwd true q = .ok l ∧
        ((∃ other c' x', t.get? l = some (.file other c' x') ∧
            t' = t.setFile other (if number = other then .empty else c) x) ∨
          (∃ n, t.get? l = some n ∧ n.isDirectory = false ∧ n.isFile = false ∧ t' = t) ∨
          (t.get? l = none ∧ demandsDirectory q = false ∧ t' = t.insertFile l c x)) := by
  simp only [copy, bind_eq_ok]
  constructor
  · rintro ⟨n, hn, h⟩
    cases n with
    | file number c x =>
      refine ⟨number, c, x, hn, ?_⟩
      simp only [bind_eq_ok] at h
      obtain ⟨l, hl, h⟩ := h
      refine ⟨l, hl, ?_⟩
      cases hm : t.get? l with
      | none =>
        cases hd : demandsDirectory q <;>
          simp_all [pure_eq_ok, throw_eq_ok]
      | some m =>
        cases m <;> simp_all [pure_eq_ok, throw_eq_ok,
          Node.isDirectory, Node.isFile]
    | _ => simp [throw_eq_ok] at h
  · rintro ⟨number, c, x, hs, l, hl, h⟩
    refine ⟨_, hs, ?_⟩
    simp only [bind_eq_ok]
    refine ⟨l, hl, ?_⟩
    rcases h with ⟨other, c', x', hm, rfl⟩ | ⟨m, hm, hd, hf, rfl⟩ | ⟨hm, hd, rfl⟩
    · simp [hm, pure_eq_ok]
    · cases m <;> simp_all [pure_eq_ok, Node.isDirectory, Node.isFile]
    · simp [hm, hd, pure_eq_ok]

theorem openOrCreate_eq_ok {number : Nat} : t.openOrCreate cwd p = .ok (number, t') ↔
    ∃ l, t.resolve cwd true p = .ok l ∧
      ((∃ c x, t.get? l = some (.file number c x) ∧ t' = t) ∨
        (t.get? l = none ∧ demandsDirectory p = false ∧ number = t.nextNumber ∧
          t' = t.insertFile l .empty false)) := by
  simp only [openOrCreate, bind_eq_ok]
  refine exists_congr fun l => and_congr_right fun _ => ?_
  cases hn : t.get? l with
  | none =>
    cases hd : demandsDirectory p <;>
      simp [pure_eq_ok, throw_eq_ok]
  | some n =>
    cases n with
    | file m c x =>
      simp only [pure_eq_ok, Prod.mk.injEq, Option.some.injEq, Node.file.injEq, reduceCtorEq,
        false_and, or_false]
      constructor
      · rintro ⟨rfl, rfl⟩
        exact ⟨c, x, ⟨rfl, rfl, rfl⟩, rfl⟩
      · rintro ⟨_, _, ⟨rfl, _, _⟩, rfl⟩
        exact ⟨rfl, rfl⟩
    | _ => simp [throw_eq_ok]

structure Movable (t : Tree) (a b : Location) : Prop where
  source : t.get? a ≠ none
  source_ne : a ≠ []
  target_ne : b ≠ []
  outside : ¬a <+: b
  apart : ¬b <+: a
  target : t.get? b = some .directory → t.get? a = some .directory ∧ t.children b = []

theorem WellFormed.get?_below_target (hw : t.WellFormed) (hm : t.Movable a b) (rest : Location)
    (hr : rest ≠ []) : t.get? (b ++ rest) = none := by
  by_cases hd : t.get? b = some .directory
  · exact hw.get?_below_empty (hm.target hd).2 hr
  · exact hw.get?_below hd hr

theorem WellFormed.movable (hw : t.WellFormed) (ha : t.get? a ≠ none) (hne : a ≠ [])
    (hb : t.get? b = none) (hab : ¬a <+: b) : t.Movable a b := by
  refine ⟨ha, hne, ?_, hab, ?_, fun hd => absurd (hb.symm.trans hd) (by simp)⟩
  · rintro rfl
    simp at hb
  · rintro ⟨rest, rfl⟩
    by_cases hr : rest = []
    · rw [hr, List.append_nil] at ha
      exact ha hb
    · exact ha (hw.get?_below (by simp [hb]) hr)

theorem rename_eq_ok (h : t.rename cwd p q = .ok t') :
    ∃ a b, t.resolve cwd false p = .ok a ∧ t.resolve cwd false q = .ok b ∧
      (t' = t ∧ a = b ∧ t.get? a ≠ none ∨
        t' = t ∧ (∃ number c x c' x', t.get? a = some (.file number c x) ∧
          t.get? b = some (.file number c' x')) ∨
        t.Movable a b ∧ t' = t.move a b ∧
          (t.get? a = some .directory → t.get? b = none ∨ t.get? b = some .directory)) := by
  simp only [rename, bind_eq_ok] at h
  obtain ⟨a, ha, b, hb, h⟩ := h
  refine ⟨a, b, ha, hb, ?_⟩
  cases hn : t.get? a with
  | none => simp [hn, throw_eq_ok] at h
  | some n =>
    simp only [hn] at h
    split at h
    case isTrue => simp [throw_eq_ok] at h
    split at h
    case isTrue => simp_all [pure_eq_ok]
    split at h
    case isTrue => simp [throw_eq_ok] at h
    split at h
    case isTrue => simp [throw_eq_ok] at h
    rename_i h₁ h₂ h₃ h₄
    simp only [List.isPrefixOf_iff_prefix] at h₃ h₄
    simp only [not_or] at h₁
    have hm (ht : t.get? b = some .directory → t.get? a = some .directory ∧ t.children b = []) :
        t.Movable a b := ⟨by simp [hn], h₁.1, h₁.2, h₃, h₄, ht⟩
    split at h <;> simp_all [pure_eq_ok, throw_eq_ok]
    all_goals split at h <;> simp_all [pure_eq_ok, throw_eq_ok]

theorem demandsDirectory_joins {names : List String} (hn : names ≠ []) :
    demandsDirectory (p.joins names) = false := by
  simp [demandsDirectory, Path.joins, hn]

theorem rename_free (ha : t.resolve cwd false p = .ok a) (hb : t.resolve cwd false q = .ok b)
    (hm : t.Movable a b) (hn : t.get? b = none) (hd : demandsDirectory q = false) :
    t.rename cwd p q = .ok (t.move a b) := by
  obtain ⟨n, hg⟩ := Option.ne_none_iff_exists'.mp hm.source
  have hne : a ≠ b := by
    rintro rfl
    exact hm.source hn
  have hout : a.isPrefixOf b = false := by
    simpa [List.isPrefixOf_iff_prefix] using (Bool.eq_false_iff.mpr fun h =>
      hm.outside (List.isPrefixOf_iff_prefix.mp h))
  have hapart : b.isPrefixOf a = false := Bool.eq_false_iff.mpr fun h =>
    hm.apart (List.isPrefixOf_iff_prefix.mp h)
  simp only [rename, bind_eq_ok]
  refine ⟨a, ha, b, hb, ?_⟩
  simp only [hg, hm.source_ne, hm.target_ne, or_self, if_false, hne, hout, hapart, Bool.false_eq_true,
    hn, hd]
  cases n <;> rfl

namespace WellFormed

variable {names : List String}

theorem insert_joins (hw : t.WellFormed) (hn : names ≠ []) (hs : ∀ s ∈ names, IsProper s)
    (hpar : t.get? (dir ++ names.dropLast) = some .directory) (hg : t.get? (dir ++ names) = none) :
    (t.insert (dir ++ names) n).WellFormed := by
  obtain ⟨init, s, rfl⟩ := (List.eq_nil_or_concat' names).resolve_left hn
  rw [List.dropLast_concat] at hpar
  rw [← List.append_assoc] at hg ⊢
  exact hw.insert hpar (hs s (by simp)) hg

theorem insertFile_joins {x : Bool} (hw : t.WellFormed) (hn : names ≠ [])
    (hs : ∀ s ∈ names, IsProper s) (hpar : t.get? (dir ++ names.dropLast) = some .directory)
    (hg : t.get? (dir ++ names) = none) : (t.insertFile (dir ++ names) c x).WellFormed := by
  obtain ⟨h₁, h₂, h₃, h₄⟩ := hw.insert_joins (n := .file t.nextNumber c x) hn hs hpar hg
  exact ⟨h₁, h₂, h₃, h₄⟩

end WellFormed

section Joins

variable {names : List String}

section Missing

variable {e : FileError} (he : e.isMissing = true)
include he

omit he in
theorem stat_missing (h : t.stat cwd follow p = .error e) :
    t.resolve cwd follow p = .error e ∨ ∃ k, t.resolve cwd follow p = .ok k ∧ t.get? k = none := by
  rcases bind_eq_error.mp h with h | ⟨k, hr, h⟩
  · exact .inl h
  · cases hg : t.get? k with
    | none => exact .inr ⟨k, hr, hg⟩
    | some n => simp [hg, pure, Except.pure] at h

theorem list_missing (h : t.list cwd p = .error e) :
    t.resolve cwd true p = .error e ∨ ∃ k, t.resolve cwd true p = .ok k ∧ t.get? k = none := by
  rcases bind_eq_error.mp h with h | ⟨k, hr, h⟩
  · exact .inl h
  · cases hg : t.get? k with
    | none => exact .inr ⟨k, hr, hg⟩
    | some n =>
      cases n with
      | directory => simp [hg, pure, Except.pure] at h
      | _ =>
        simp only [hg, throw_eq_error] at h
        exact absurd he (h ▸ by decide)

theorem removeDirectory_missing (h : t.removeDirectory cwd p = .error e) :
    t.resolve cwd false p = .error e ∨ ∃ k, t.resolve cwd false p = .ok k ∧ t.get? k = none := by
  rcases bind_eq_error.mp h with h | ⟨k, hr, h⟩
  · exact .inl h
  · cases hg : t.get? k with
    | none => exact .inr ⟨k, hr, hg⟩
    | some n =>
      cases n with
      | directory =>
        simp only [hg] at h
        split at h
        · exact absurd he (throw_eq_error.mp h ▸ by decide)
        · split at h
          · exact absurd he (throw_eq_error.mp h ▸ by decide)
          · simp [pure, Except.pure] at h
      | _ =>
        simp only [hg, throw_eq_error] at h
        exact absurd he (h ▸ by decide)

theorem removeFile_missing (h : t.removeFile cwd p = .error e) :
    t.resolve cwd false p = .error e ∨ ∃ k, t.resolve cwd false p = .ok k ∧ t.get? k = none := by
  rcases bind_eq_error.mp h with h | ⟨k, hr, h⟩
  · exact .inl h
  · cases hg : t.get? k with
    | none => exact .inr ⟨k, hr, hg⟩
    | some n =>
      cases n with
      | directory =>
        simp only [hg, throw_eq_error] at h
        exact absurd he (h ▸ by decide)
      | _ => simp [hg, pure, Except.pure] at h

theorem joins_missing (h : t.Leads cwd p dir) (hw : t.WellFormed) (hn : names ≠ [])
    (hs : ∀ s ∈ names, IsPlain s) (hl : t.Unlinked follow dir names)
    (hk : t.resolve cwd follow (p.joins names) = .error e ∨
      ∃ k, t.resolve cwd follow (p.joins names) = .ok k ∧ t.get? k = none) :
    t.get? (dir ++ names) = none ∧ ∀ pre, pre <+: names → pre ≠ [] → t.Spot (dir ++ pre) := by
  rcases hk with hk | ⟨k, hk, hg⟩
  · exact h.resolve_joins_missing hw hn hs hl hk he
  · obtain ⟨rfl, hpar, -⟩ := h.resolve_joins_ok hn hs hl hk
    refine ⟨hg, fun pre hpre hne => ?_⟩
    rcases List.prefix_concat_iff.mp ((List.dropLast_append_getLast hn).symm ▸ hpre) with rfl | hpre
    · rw [List.dropLast_append_getLast hn]
      exact .inl hg
    · obtain ⟨rest, hrest⟩ := hpre
      by_cases hr : rest = []
      · rw [hr, List.append_nil] at hrest
        exact .inr (hrest ▸ hpar)
      · have hbelow : t.get? (dir ++ pre ++ rest) ≠ none := by rw [List.append_assoc, hrest, hpar]; simp
        exact .inr (hw.get?_above hr hbelow)

end Missing

theorem makeDirectory_joins (h : t.Leads cwd p dir) (hw : t.WellFormed) (hn : names ≠ [])
    (hs : ∀ s ∈ names, IsPlain s) (hl : t.Unlinked false dir names)
    (ht : t.makeDirectory cwd (p.joins names) = .ok t') :
    t.get? (dir ++ names) = none ∧ t'.WellFormed ∧ (∀ s ∈ names, IsProper s) ∧
      ∀ k, t'.get? k = if k = dir ++ names then some .directory else t.get? k := by
  obtain ⟨l, hr, hg, rfl⟩ := makeDirectory_eq_ok.mp ht
  obtain ⟨rfl, hpar, hp, _⟩ := h.resolve_joins_ok hn hs hl hr
  exact ⟨hg, hw.insert_joins hn hp hpar hg, hp, get?_insert (by simp [hn])⟩

theorem removeFile_joins (h : t.Leads cwd p dir) (hw : t.WellFormed) (hn : names ≠ [])
    (hs : ∀ s ∈ names, IsPlain s) (hl : t.Unlinked false dir names)
    (ht : t.removeFile cwd (p.joins names) = .ok t') :
    (∃ n, t.get? (dir ++ names) = some n ∧ n.isDirectory = false) ∧ t'.WellFormed ∧
      ∀ k, t'.get? k = if k = dir ++ names then none else t.get? k := by
  obtain ⟨l, hr, n, hg, hd, rfl⟩ := removeFile_eq_ok.mp ht
  obtain ⟨rfl, hpar, hp, _⟩ := h.resolve_joins_ok hn hs hl hr
  refine ⟨⟨n, hg, hd⟩, hw.erase (by simp [hn]) (fun rest hrest => ?_), get?_erase (by simp [hn])⟩
  refine hw.get?_below ?_ hrest
  rintro he
  simp only [hg, Option.some.injEq] at he
  simp [he, Node.isDirectory] at hd

theorem removeDirectory_joins (h : t.Leads cwd p dir) (hw : t.WellFormed) (hn : names ≠ [])
    (hs : ∀ s ∈ names, IsPlain s) (hl : t.Unlinked false dir names)
    (ht : t.removeDirectory cwd (p.joins names) = .ok t') :
    t.get? (dir ++ names) = some .directory ∧ t'.WellFormed ∧
      ∀ k, t'.get? k = if k = dir ++ names then none else t.get? k := by
  obtain ⟨l, hr, hg, hne, hc, rfl⟩ := removeDirectory_eq_ok.mp ht
  obtain ⟨rfl, hpar, hp, _⟩ := h.resolve_joins_ok hn hs hl hr
  exact ⟨hg, hw.erase hne fun rest hrest => hw.get?_below_empty hc hrest, get?_erase hne⟩

theorem write_joins (h : t.Leads cwd p dir) (hw : t.WellFormed) (hn : names ≠ [])
    (hs : ∀ s ∈ names, IsPlain s) (hl : t.Unlinked true dir names)
    (hg : t.get? (dir ++ names) = none) (ht : t.write cwd (p.joins names) c = .ok t') :
    t'.WellFormed ∧ ∀ k, t'.get? k =
      if k = dir ++ names then some (.file t.nextNumber c false) else t.get? k := by
  obtain ⟨l, hr, hc⟩ := write_eq_ok.mp ht
  obtain ⟨rfl, hpar, hp, _⟩ := h.resolve_joins_ok hn hs hl hr
  rcases hc with ⟨number, c', x, hf, _⟩ | ⟨n, hf, _⟩ | ⟨_, _, rfl⟩
  · simp [hg] at hf
  · simp [hg] at hf
  · exact ⟨hw.insertFile_joins hn hp hpar hg, get?_insertFile (by simp [hn])⟩

end Joins

end CompiledModels.Files.Tree
