import CompiledModels.Machine.Descriptors
import CompiledModels.Proofs.Files.Tree
import Mathlib.Data.List.Perm.Subperm
import Mathlib.Logic.Function.Basic

/-!
The table of descriptors as a function from descriptors to files, and what each step makes of it.
-/

namespace CompiledModels.Descriptors

variable {t t' : Descriptors} {d file : Nat}

theorem target?_close : (t.close d).target? = Function.update t.target? d none := by
  funext k
  by_cases h : k = d
  · subst h
    rw [Function.update_self, target?, close, Files.Tree.find?_filter_self]
    rfl
  · rw [Function.update_of_ne h, target?, close, Files.Tree.find?_filter_ne h]
    rfl

theorem target?_set : (t.set d file).target? = Function.update t.target? d (some file) := by
  funext k
  by_cases h : k = d
  · subst h
    rw [Function.update_self, target?, set, List.find?_append, Files.Tree.find?_filter_self]
    simp
  · rw [Function.update_of_ne h, target?, set, List.find?_append, Files.Tree.find?_filter_ne h]
    simp [target?, Ne.symm h]

theorem target?_update (f : OpenFile → OpenFile) : (t.update d f).target? = t.target? := by
  unfold update
  cases t.target? d <;> rfl

theorem length_update (f : OpenFile → OpenFile) : (t.update d f).files.length = t.files.length := by
  unfold update
  cases t.target? d <;> simp

theorem files_update (f : OpenFile → OpenFile) (n : Nat) : (t.update d f).files[n]? =
    if t.target? d = some n then (t.files[n]?).map f else t.files[n]? := by
  unfold update
  cases h : t.target? d with
  | none => simp
  | some k =>
    simp only [List.getElem?_modify, Option.some.injEq]
    split <;> simp

theorem update_id : t.update d id = t := by
  unfold update
  cases h : t.target? d <;> simp

theorem update_update (f g : OpenFile → OpenFile) : (t.update d f).update d g = t.update d (g ∘ f) := by
  rw [update, target?_update, update, update]
  cases h : t.target? d with
  | none => rfl
  | some file => simp [List.modify_modify_eq]

structure Alike (t t' : Descriptors) : Prop where
  table : t'.target? = t.target?
  length : t'.files.length = t.files.length

theorem Alike.refl (t : Descriptors) : t.Alike t := ⟨rfl, rfl⟩

theorem Alike.trans {t'' : Descriptors} (h : t.Alike t') (h' : t'.Alike t'') : t.Alike t'' :=
  ⟨h'.table.trans h.table, h'.length.trans h.length⟩

theorem alike_update (t : Descriptors) (d : Nat) (f : OpenFile → OpenFile) : t.Alike (t.update d f) :=
  ⟨target?_update f, length_update f⟩

theorem mem_keys (h : t.isFree d = false) : d ∈ t.table.map (·.1) := by
  have hsome : (t.table.find? (·.1 = d)).isSome = true := by
    simpa only [isFree, target?, Option.isNone_map, Option.isNone_eq_false_iff] using h
  obtain ⟨e, he⟩ := Option.isSome_iff_exists.mp hsome
  have hkey : e.1 = d := by simpa using List.find?_some he
  exact List.mem_map.mpr ⟨e, List.mem_of_find?_eq_some he, hkey⟩

theorem target?_lowestFree : t.target? t.lowestFree = none := by
  have hfree : ∃ d ∈ List.range (t.table.length + 1), t.isFree d = true := by
    by_contra hall
    have hsub : List.range (t.table.length + 1) ⊆ t.table.map (·.1) := by
      intro d hd
      apply mem_keys
      rw [← Bool.not_eq_true]
      exact fun hf => hall ⟨d, hd, hf⟩
    have hlen := (List.subperm_of_subset List.nodup_range hsub).length_le
    rw [List.length_range, List.length_map] at hlen
    omega
  obtain ⟨d, hd, hfree⟩ := hfree
  have hsome : ((List.range (t.table.length + 1)).find? t.isFree).isSome = true :=
    List.find?_isSome.mpr ⟨d, hd, hfree⟩
  obtain ⟨k, hk⟩ := Option.isSome_iff_exists.mp hsome
  have hkfree := List.find?_some hk
  rw [lowestFree, hk]
  simpa [isFree] using hkfree

end CompiledModels.Descriptors
