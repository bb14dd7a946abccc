import CompiledModels.Proofs.Json.Values

/-!
What a text means: two texts mean the same if they differ only in white space, in how characters
are written, in the order of fields, and in fields that a later one of the same key replaces. Then
the same is kept of both.
-/

namespace CompiledModels.Json

inductive Value.Whole : Value → Prop
  | null : Whole .null
  | bool (b : Bool) : Whole (.bool b)
  | natural (n : UInt64) : Whole (.number (.natural n))
  | negative (n : Fin (2 ^ 63)) : Whole (.number (.negative n))
  | string (s : String) : Whole (.string s)
  | list {vs : List Value} (h : ∀ v ∈ vs, v.Whole) : Whole (.list vs)
  | object {fields : List (String × Value)} (h : ∀ f ∈ fields, f.2.Whole) : Whole (.object fields)

abbrev Ascending (fields : List (String × Value)) : Prop := fields.Pairwise (·.1 < ·.1)

inductive Value.Ordered : Value → Prop
  | null : Ordered .null
  | bool (b : Bool) : Ordered (.bool b)
  | number (n : Number) : Ordered (.number n)
  | string (s : String) : Ordered (.string s)
  | list {vs : List Value} (h : ∀ v ∈ vs, v.Ordered) : Ordered (.list vs)
  | object {fields : List (String × Value)} (ha : Ascending fields)
      (h : ∀ f ∈ fields, f.2.Ordered) : Ordered (.object fields)

/-- Two values as they stand in texts mean the same: objects are compared by the last field of each
key. -/
inductive Same : Value → Value → Prop
  | null : Same .null .null
  | bool (b : Bool) : Same (.bool b) (.bool b)
  | number (n : Number) : Same (.number n) (.number n)
  | string (s : String) : Same (.string s) (.string s)
  | list (vs : List (Value × Value)) (h : ∀ v ∈ vs, Same v.1 v.2) :
      Same (.list (vs.map (·.1))) (.list (vs.map (·.2)))
  | object {fields fields' : List (String × Value)}
      (hkeys : ∀ k, (lookup k fields.reverse).isSome = (lookup k fields'.reverse).isSome)
      (h : ∀ k v v', lookup k fields.reverse = some v → lookup k fields'.reverse = some v' →
        Same v v') : Same (.object fields) (.object fields')

variable {fields fields' acc : List (String × Value)} {f g : String × Value} {k key : String}
  {v : Value}

theorem lookup_nil (k : String) : lookup k [] = none := rfl

theorem lookup_cons : lookup k ((key, v) :: fields) = if key = k then some v else lookup k fields := by
  by_cases h : key = k
  · simp [lookup, h]
  · simp [lookup, h]

theorem lookup_append : lookup k (fields ++ fields') = (lookup k fields).or (lookup k fields') := by
  simp only [lookup, List.find?_append]
  cases fields.find? (·.1 = k) <;> rfl

theorem lookup_map {f : Value → Value} :
    lookup k (fields.map fun p => (p.1, f p.2)) = (lookup k fields).map f := by
  induction fields with
  | nil => rfl
  | cons p fields ih =>
    have hcons : lookup k (p :: fields) = if p.1 = k then some p.2 else lookup k fields := lookup_cons
    rw [List.map_cons, lookup_cons, ih, hcons]
    split <;> rfl

theorem lookup_insertField :
    lookup k (insertField key v fields) = if key = k then some v else lookup k fields := by
  induction fields with
  | nil => simp [insertField, lookup_cons, lookup_nil]
  | cons f fields ih =>
    obtain ⟨key', w⟩ := f
    rw [insertField]
    split
    · rw [lookup_cons]
    · split
      · rename_i heq
        subst heq
        rw [lookup_cons, lookup_cons]
        split <;> rfl
      · rename_i hne
        rw [lookup_cons, lookup_cons, ih]
        by_cases hk : key = k
        · subst hk
          simp [Ne.symm hne]
        · simp [hk]

theorem lookup_foldl : lookup k (fields.foldl (fun acc f => insertField f.1 f.2 acc) acc) =
    (lookup k fields.reverse).or (lookup k acc) := by
  induction fields generalizing acc with
  | nil => rfl
  | cons f fields ih =>
    rw [List.foldl_cons, ih, lookup_insertField, List.reverse_cons, lookup_append, lookup_cons]
    cases lookup k fields.reverse with
    | some w => rfl
    | none => by_cases hk : f.1 = k <;> simp [hk, lookup_nil]

theorem lt_of_not_lt {a b : String} (h : ¬a < b) (hne : a ≠ b) : b < a := by
  apply Classical.byContradiction
  intro hba
  exact hne (String.le_antisymm (String.not_lt.mp hba) (String.not_lt.mp h))

theorem insertField_mem {f : String × Value} (h : f ∈ insertField key v fields) :
    f = (key, v) ∨ f ∈ fields := by
  induction fields with
  | nil => simpa [insertField] using h
  | cons g fields ih =>
    rw [insertField] at h
    split at h
    · exact List.mem_cons.mp h
    · split at h
      · rcases List.mem_cons.mp h with rfl | h
        · exact .inl rfl
        · exact .inr (List.mem_cons_of_mem _ h)
      · rcases List.mem_cons.mp h with rfl | h
        · exact .inr List.mem_cons_self
        · exact (ih h).imp_right (List.mem_cons_of_mem _)

theorem insertField_ascending (h : Ascending fields) : Ascending (insertField key v fields) := by
  induction fields with
  | nil => exact List.pairwise_singleton _ _
  | cons f fields ih =>
    obtain ⟨hf, hfields⟩ := List.pairwise_cons.mp h
    rw [insertField]
    split
    · rename_i hlt
      refine List.pairwise_cons.mpr ⟨fun g hg => ?_, h⟩
      rcases List.mem_cons.mp hg with rfl | hg
      · exact hlt
      · exact String.lt_trans hlt (hf g hg)
    · split
      · rename_i heq
        refine List.pairwise_cons.mpr ⟨fun g hg => ?_, hfields⟩
        exact heq ▸ hf g hg
      · rename_i hlt hne
        refine List.pairwise_cons.mpr ⟨fun g hg => ?_, ih hfields⟩
        rcases insertField_mem hg with rfl | hg
        · exact lt_of_not_lt hlt hne
        · exact hf g hg

theorem foldl_ascending (h : Ascending acc) :
    Ascending (fields.foldl (fun acc f => insertField f.1 f.2 acc) acc) := by
  induction fields generalizing acc with
  | nil => exact h
  | cons f fields ih => exact ih (insertField_ascending h)

theorem insertField_last (h : ∀ f ∈ fields, f.1 < key) :
    insertField key v fields = fields ++ [(key, v)] := by
  induction fields with
  | nil => rfl
  | cons f fields ih =>
    have hf := h f List.mem_cons_self
    have hne : key ≠ f.1 := fun he => String.lt_irrefl _ (he ▸ hf)
    rw [insertField, if_neg (fun hlt => String.lt_irrefl _ (String.lt_trans hf hlt)), if_neg hne,
      ih fun g hg => h g (List.mem_cons_of_mem _ hg), List.cons_append]

theorem foldl_insertField (h : Ascending (acc ++ fields)) :
    fields.foldl (fun acc f => insertField f.1 f.2 acc) acc = acc ++ fields := by
  induction fields generalizing acc with
  | nil => simp
  | cons f fields ih =>
    have happ : acc ++ f :: fields = (acc ++ [(f.1, f.2)]) ++ fields := by simp
    have hlast : ∀ g ∈ acc, g.1 < f.1 := fun g hg =>
      (List.pairwise_append.mp h).2.2 g hg f List.mem_cons_self
    rw [happ] at h ⊢
    rw [List.foldl_cons, insertField_last hlast, ih h]

theorem lookup_eq_none (h : ∀ f ∈ fields, k < f.1) : lookup k fields = none := by
  induction fields with
  | nil => rfl
  | cons f fields ih =>
    have hne : f.1 ≠ k := fun he => String.lt_irrefl _ (he ▸ h f List.mem_cons_self)
    rw [lookup_cons, if_neg hne]
    exact ih fun g hg => h g (List.mem_cons_of_mem _ hg)

theorem head_le (h : Ascending (g :: fields'))
    (hl : ∀ k, lookup k (f :: fields) = lookup k (g :: fields')) : ¬f.1 < g.1 := by
  intro hlt
  have hnone : lookup f.1 (g :: fields') = none := lookup_eq_none fun e he => by
    rcases List.mem_cons.mp he with rfl | he
    · exact hlt
    · exact String.lt_trans hlt ((List.pairwise_cons.mp h).1 e he)
  rw [← hl, lookup_cons, if_pos rfl] at hnone
  cases hnone

theorem ascending_ext (h : Ascending fields) (h' : Ascending fields')
    (hl : ∀ k, lookup k fields = lookup k fields') : fields = fields' := by
  induction fields generalizing fields' with
  | nil =>
    cases fields' with
    | nil => rfl
    | cons g fields' =>
      have hg := hl g.1
      rw [lookup_nil, lookup_cons, if_pos rfl] at hg
      cases hg
  | cons f fields ih =>
    cases fields' with
    | nil =>
      have hf := hl f.1
      rw [lookup_nil, lookup_cons, if_pos rfl] at hf
      cases hf
    | cons g fields' =>
      have hkey : f.1 = g.1 := Decidable.byContradiction fun hne =>
        head_le h (fun k => (hl k).symm) (lt_of_not_lt (head_le h' hl) hne)
      have hvalue : f.2 = g.2 := by
        have hf := hl f.1
        rw [lookup_cons, if_pos rfl, lookup_cons, if_pos hkey.symm] at hf
        exact Option.some.inj hf
      obtain ⟨hfirst, hfields⟩ := List.pairwise_cons.mp h
      obtain ⟨hfirst', hfields'⟩ := List.pairwise_cons.mp h'
      have htail (k : String) : lookup k fields = lookup k fields' := by
        by_cases hk : f.1 = k
        · subst hk
          rw [lookup_eq_none hfirst, lookup_eq_none fun e he => hkey ▸ hfirst' e he]
        · have hboth := hl k
          rwa [lookup_cons, if_neg hk, lookup_cons, if_neg (hkey ▸ hk)] at hboth
      rw [ih hfields hfields' htail, Prod.ext hkey hvalue]

theorem Same.settle {v w : Value} (h : Same v w) : v.settle = w.settle := by
  induction h with
  | null | bool | number | string => rfl
  | list vs h ih =>
    rw [Value.settle_list, Value.settle_list, List.map_map, List.map_map]
    exact congrArg Value.list (List.map_congr_left ih)
  | @object fields fields' hkeys h ih =>
    rw [Value.settle_object, Value.settle_object]
    refine congrArg Value.object ?_
    refine ascending_ext (foldl_ascending .nil) (foldl_ascending .nil) fun k => ?_
    rw [lookup_foldl, lookup_foldl, ← List.map_reverse, ← List.map_reverse, lookup_map, lookup_map]
    have hk := hkeys k
    have hv := ih k
    cases hfirst : lookup k fields.reverse with
    | none =>
      rw [hfirst] at hk
      have hnone : lookup k fields'.reverse = none := by simpa using hk.symm
      rw [hnone]
    | some v =>
      rw [hfirst] at hk
      obtain ⟨w, hw⟩ := Option.isSome_iff_exists.mp hk.symm
      rw [hw, Option.map_some, Option.map_some, hv v w hfirst hw]

theorem Value.Ordered.settle {v : Value} (h : v.Ordered) : v.settle = v := by
  induction h with
  | null | bool | number | string => rfl
  | @list vs h ih =>
    rw [Value.settle_list, List.map_congr_left ih, List.map_id']
  | @object fields ha h ih =>
    have hmap : fields.map (fun f => (f.1, f.2.settle)) = fields := by
      have hid : ∀ f ∈ fields, (f.1, f.2.settle) = id f := fun f hf => Prod.ext rfl (ih f hf)
      rw [List.map_congr_left hid, List.map_id]
    rw [Value.settle_object, hmap, Value.ofFields, foldl_insertField (by simpa using ha),
      List.nil_append]

theorem itemsChars_eq (vs : List Value) : itemsChars vs = commas (vs.map Value.chars) ++ [']'] := by
  induction vs with
  | nil => rfl
  | cons v vs ih =>
    cases vs with
    | nil => rfl
    | cons w vs =>
      rw [itemsChars, ih]
      · simp [commas]
      · simp

def memberOf (f : String × Value) : Member :=
  ⟨[], f.1.toList.flatMap escapeChar, [], f.2.chars, f.1⟩

theorem memberOf_proper (f : String × Value) : (memberOf f).Proper :=
  ⟨Spaces.nil, Writes.escaped _, Spaces.nil⟩

theorem memberOf_chars (f : String × Value) :
    (memberOf f).chars = stringText f.1 ++ ':' :: f.2.chars := by
  simp [memberOf, Member.chars, stringText]

theorem fieldsChars_eq (fields : List (String × Value)) :
    fieldsChars fields = commas (fields.map fun f => (memberOf f).chars) ++ ['}'] := by
  induction fields with
  | nil => rfl
  | cons f fields ih =>
    cases fields with
    | nil => simp [fieldsChars, memberOf_chars, commas]
    | cons g fields =>
      rw [fieldsChars, ih]
      · simp [commas, memberOf_chars]
      · simp

theorem toList_toString (n : Nat) : (toString n).toList = Nat.toDigits 10 n := by
  rw [Nat.toString_eq_ofList_toDigits, String.toList_ofList]

theorem Value.Whole.spells {v : Value} (h : v.Whole) : Spells v.chars v := by
  induction h with
  | null => exact .null
  | bool b =>
    cases b with
    | true => exact .true
    | false => exact .false
  | natural n =>
    have htext : (Value.number (.natural n)).chars = Nat.toDigits 10 n.toNat := 
      toList_toString n.toNat
    exact htext ▸ .natural n
  | negative n =>
    have htext : (Value.number (.negative n)).chars = '-' :: Nat.toDigits 10 (n + 1) := by
      show ("-" ++ toString (n.val + 1)).toList = _
      rw [String.toList_append, toList_toString]
      rfl
    exact htext ▸ .negative n
  | string s => exact .string (Writes.escaped s.toList)
  | @list vs h ih =>
    have hspells := Spells.list Spaces.nil (vs.map fun v => (v.chars, v)) (List.forall_mem_map.mpr ih)
    have htext : (Value.list vs).chars = listChars [] (vs.map Value.chars) := by
      show '[' :: itemsChars vs = _
      rw [itemsChars_eq]
      rfl
    have hvalues : (vs.map fun v => (v.chars, v)).map (·.2) = vs := by
      rw [List.map_map]
      exact List.map_id vs
    rw [List.map_map, hvalues] at hspells
    rw [htext]
    exact hspells
  | @object fields h ih =>
    have hspells := Spells.object Spaces.nil (fields.map fun f => (memberOf f, f.2))
      (List.forall_mem_map.mpr fun f _ => memberOf_proper f) (List.forall_mem_map.mpr ih)
    have htext : (Value.object fields).chars =
        objectChars [] (fields.map fun f => (memberOf f).chars) := by
      show '\x7b' :: fieldsChars fields = _
      rw [fieldsChars_eq]
      rfl
    have hfields : (fields.map fun f => (memberOf f, f.2)).map (fun f => (f.1.key, f.2)) = fields := by
      rw [List.map_map]
      exact List.map_id fields
    rw [List.map_map, hfields] at hspells
    rw [htext]
    exact hspells

end CompiledModels.Json
