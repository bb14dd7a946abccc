import CompiledModels.Proofs.Json.Reading

/-!
Values as they stand in a text, and what is kept of them: an object keeps the last field of each
key, in the order of the keys.
-/

namespace CompiledModels.Json

mutual

def Value.depth : Value → Nat
  | .list items => itemsDepth items + 1
  | .object fields => fieldsDepth fields + 1
  | _ => 0

def itemsDepth : List Value → Nat
  | [] => 0
  | v :: vs => max v.depth (itemsDepth vs)

def fieldsDepth : List (String × Value) → Nat
  | [] => 0
  | (_, v) :: fields => max v.depth (fieldsDepth fields)

end

mutual

def Value.settle : Value → Value
  | .list items => .list (settleItems items)
  | .object fields => .ofFields (settleFields fields)
  | v => v

def settleItems : List Value → List Value
  | [] => []
  | v :: vs => v.settle :: settleItems vs

def settleFields : List (String × Value) → List (String × Value)
  | [] => []
  | (k, v) :: fields => (k, v.settle) :: settleFields fields

end

theorem itemsDepth_le {vs : List Value} {n : Nat} : itemsDepth vs ≤ n ↔ ∀ v ∈ vs, v.depth ≤ n := by
  induction vs with
  | nil => simp [itemsDepth]
  | cons v vs ih => rw [itemsDepth, Nat.max_le, List.forall_mem_cons, ih]

theorem fieldsDepth_le {fields : List (String × Value)} {n : Nat} :
    fieldsDepth fields ≤ n ↔ ∀ f ∈ fields, f.2.depth ≤ n := by
  induction fields with
  | nil => simp [fieldsDepth]
  | cons f fields ih => rw [fieldsDepth, Nat.max_le, List.forall_mem_cons, ih]

theorem settleItems_eq (vs : List Value) : settleItems vs = vs.map Value.settle := by
  induction vs with
  | nil => rfl
  | cons v vs ih => rw [settleItems, ih, List.map_cons]

theorem settleFields_eq (fields : List (String × Value)) :
    settleFields fields = fields.map fun f => (f.1, f.2.settle) := by
  induction fields with
  | nil => rfl
  | cons f fields ih => rw [settleFields, ih, List.map_cons]

theorem Value.depth_list_le {vs : List Value} {n : Nat} :
    (Value.list vs).depth ≤ n + 1 ↔ ∀ v ∈ vs, v.depth ≤ n := by
  rw [Value.depth, Nat.add_le_add_iff_right, itemsDepth_le]

theorem Value.depth_object_le {fields : List (String × Value)} {n : Nat} :
    (Value.object fields).depth ≤ n + 1 ↔ ∀ f ∈ fields, f.2.depth ≤ n := by
  rw [Value.depth, Nat.add_le_add_iff_right, fieldsDepth_le]

theorem Value.settle_list (vs : List Value) : (Value.list vs).settle = .list (vs.map Value.settle) := by
  rw [Value.settle, settleItems_eq]

theorem Value.settle_object (fields : List (String × Value)) :
    (Value.object fields).settle = .ofFields (fields.map fun f => (f.1, f.2.settle)) := by
  rw [Value.settle, settleFields_eq]

variable {t ws rest : List Char} {v w : Value} {n : Nat}

theorem isSpace_digit {d : Char} (hd : d.isDigit = true) :
    isSpace d = false ∧ d ≠ ',' ∧ d ≠ ']' ∧ d ≠ '}' := by
  have hspace : isSpace d = false := by
    simp only [isSpace, Bool.or_eq_false_iff, beq_eq_false_iff_ne]
    exact ⟨⟨⟨digit_ne hd (by decide), digit_ne hd (by decide)⟩, digit_ne hd (by decide)⟩,
      digit_ne hd (by decide)⟩
  exact ⟨hspace, digit_ne hd (by decide), digit_ne hd (by decide), digit_ne hd (by decide)⟩

theorem starts_number {x : Number} {left : List Char} (h : readNumber t = .ok (x, left)) :
    ∃ c cs, t = c :: cs ∧ (c = '-' ∨ c.isDigit = true) := by
  cases t with
  | nil => simp [readNumber, readMagnitude] at h
  | cons c cs =>
    refine ⟨c, cs, rfl, ?_⟩
    by_cases hminus : c = '-'
    · exact .inl hminus
    · refine .inr (Decidable.byContradiction fun hc => ?_)
      have hzero : c ≠ '0' := by
        rintro rfl
        exact hc rfl
      rw [readNumber, readMagnitude] at h
      · simp [hc] at h
      · exact hzero
      · intro cs' h'
        exact hminus (List.cons.inj h').1

theorem Starts.of_number {x : Number} {left : List Char} (h : readNumber t = .ok (x, left)) :
    Starts t := by
  obtain ⟨c, cs, rfl, rfl | hc⟩ := starts_number h
  · exact .of_head (by decide) ⟨by decide, by decide, by decide⟩
  · exact .of_head (isSpace_digit hc).1 (isSpace_digit hc).2

theorem Spells.starts (h : Spells t v) : Starts t := by
  induction h with
  | null | true | false | string | list | object =>
    exact .of_head (by decide) ⟨by decide, by decide, by decide⟩
  | natural n => exact .of_number (readNumber_natural n)
  | negative n => exact .of_number (readNumber_negative n)
  | float h => exact .of_number h
  | before hc h ih => exact ih.before hc
  | after hc h ih => exact ih.after _

theorem readValue_skipSpace (n : Nat) (cs : List Char) :
    readValue n (skipSpace cs) = readValue n cs := by
  rw [readValue, readValue, skipSpace_skipSpace]

theorem readValue_number {x : Number} (h : readNumber t = .ok (x, [])) (hr : EndsNumber rest) :
    readValue n (t ++ rest) = .ok (.number x, rest) := by
  have hread := readNumber_append hr h
  obtain ⟨c, cs, rfl, hc⟩ := starts_number h
  rw [List.cons_append] at hread ⊢
  have hne : ∀ d : Char, d.isDigit = false → d ≠ '-' → c ≠ d := by
    rintro d hd hminus rfl
    rcases hc with hc | hc
    · exact hminus hc
    · rw [hd] at hc
      exact absurd hc (by decide)
  have hspace : isSpace c = false := by
    rcases hc with rfl | hc
    · rfl
    · exact (isSpace_digit hc).1
  rw [readValue, skipSpace_cons hspace]
  split
  · rename_i heq
    cases heq
  · rename_i heq
    exact absurd (List.cons.inj heq).1 (hne 'n' rfl (by decide))
  · rename_i heq
    exact absurd (List.cons.inj heq).1 (hne 't' rfl (by decide))
  · rename_i heq
    exact absurd (List.cons.inj heq).1 (hne 'f' rfl (by decide))
  · rename_i heq
    exact absurd (List.cons.inj heq).1 (hne '"' rfl (by decide))
  · rename_i heq
    exact absurd (List.cons.inj heq).1 (hne '[' rfl (by decide))
  · rename_i heq
    exact absurd (List.cons.inj heq).1 (hne '{' rfl (by decide))
  · rename_i heq
    obtain ⟨rfl, rfl⟩ := List.cons.inj heq
    rw [if_pos hc, hread]
    rfl

theorem readValue_list (n : Nat) (cs : List Char) : readValue (n + 1) ('[' :: cs) = (do
    let (vs, cs) ← readItems (readValue n) (cs.length + 1) true cs
    return (.list vs, cs)) := by
  rw [readValue]
  rfl

theorem readValue_object (n : Nat) (cs : List Char) : readValue (n + 1) ('\x7b' :: cs) = (do
    let (fields, cs) ← readFields (readValue n) (cs.length + 1) true cs
    return (.ofFields fields, cs)) := by
  rw [readValue]
  rfl

theorem length_le_commas (ts : List (List Char)) (h : ∀ t ∈ ts, t ≠ []) :
    ts.length ≤ (commas ts).length := by
  induction ts with
  | nil => exact Nat.le_refl _
  | cons t ts ih =>
    have ht := List.length_pos_iff.mpr (h t List.mem_cons_self)
    have hts := ih fun u hu => h u (List.mem_cons_of_mem _ hu)
    cases ts with
    | nil => exact ht
    | cons u ts =>
      have hc : commas (t :: u :: ts) = t ++ ',' :: commas (u :: ts) := rfl
      rw [hc, List.length_append, List.length_cons, List.length_cons (a := ',')]
      omega

theorem Starts.ne_nil (h : Starts t) : t ≠ [] := by
  obtain ⟨ws, c, left, -, rfl, -⟩ := h
  simp

theorem Reads.of_eq {item : List Char → Except Failure (Value × List Char)}
    (h : ∀ rest, EndsNumber rest → item (t ++ rest) = .ok (v, rest)) (hd : v.depth = 0) :
    Reads item t (v.depth ≤ n) v :=
  ⟨[], Spaces.nil, fun rest hr => .of_true (by omega) (h rest hr)⟩

theorem Spells.reads (h : Spells t v) (n : Nat) :
    Reads (readValue n) t (v.depth ≤ n) v.settle := by
  induction h generalizing n with
  | null | true | false =>
    refine .of_eq (fun rest _ => ?_) rfl
    rw [readValue]
    rfl
  | natural x => exact .of_eq (fun rest hr => readValue_number (readNumber_natural x) hr) rfl
  | negative x => exact .of_eq (fun rest hr => readValue_number (readNumber_negative x) hr) rfl
  | float h => exact .of_eq (fun rest hr => readValue_number h hr) rfl
  | @string t s h =>
    refine .of_eq (fun rest _ => ?_) rfl
    have hread := readString_writes h rest
    have happ : '"' :: (t ++ ['"']) ++ rest = '"' :: (t ++ '"' :: rest) := by simp
    rw [happ, readValue, skipSpace_cons (by decide)]
    simp only [hread, bind, Except.bind]
    rfl
  | @list ws hws items hi ih =>
    refine ⟨[], Spaces.nil, fun rest hr => ?_⟩
    have happ : listChars ws (items.map (·.1)) ++ rest =
        '[' :: (ws ++ (commas (items.map (·.1)) ++ ']' :: rest)) := by simp [listChars]
    rw [happ, Value.settle_list, List.map_map]
    cases n with
    | zero => exact .of_false (by simp [Value.depth]) (by rw [readValue]; rfl)
    | succ n =>
      have hlen := length_le_commas (items.map (·.1)) fun t ht => by
        obtain ⟨i, hmem, rfl⟩ := List.mem_map.mp ht
        exact (hi i hmem).starts.ne_nil
      rw [List.length_map] at hlen
      have hfuel : items.length < (ws ++ (commas (items.map (·.1)) ++ ']' :: rest)).length + 1 := by
        simp only [List.length_append, List.length_cons]
        omega
      have hitems := readItems_commas (readValue_skipSpace n) (·.1)
        (fun i hmem => ⟨(hi i hmem).starts, ih i hmem n⟩) hws rest hfuel
      have hdepth : (Value.list (items.map (·.2))).depth ≤ n + 1 ↔ ∀ i ∈ items, i.2.depth ≤ n :=
        Value.depth_list_le.trans List.forall_mem_map
      rw [readValue_list]
      exact hitems.map.congr hdepth.symm
  | @object ws hws fields hm hv ih =>
    refine ⟨[], Spaces.nil, fun rest hr => ?_⟩
    have happ : objectChars ws (fields.map (·.1.chars)) ++ rest =
        '\x7b' :: (ws ++ (commas (fields.map (·.1.chars)) ++ '\x7d' :: rest)) := by simp [objectChars]
    rw [happ, Value.settle_object, List.map_map]
    cases n with
    | zero => exact .of_false (by simp [Value.depth]) (by rw [readValue]; rfl)
    | succ n =>
      have hlen := length_le_commas (fields.map (·.1.chars)) fun t ht => by
        obtain ⟨f, -, rfl⟩ := List.mem_map.mp ht
        simp [Member.chars]
      rw [List.length_map] at hlen
      have hfuel : fields.length < (ws ++ (commas (fields.map (·.1.chars)) ++ '\x7d' :: rest)).length + 1 := by
        simp only [List.length_append, List.length_cons]
        omega
      have hfields := readFields_commas (·.1) (fun f hmem => ⟨hm f hmem, ih f hmem n⟩) hws rest hfuel
      have hdepth : (Value.object (fields.map fun f => (f.1.key, f.2))).depth ≤ n + 1 ↔
          ∀ f ∈ fields, f.2.depth ≤ n := Value.depth_object_le.trans List.forall_mem_map
      rw [readValue_object]
      exact hfields.map.congr hdepth.symm
  | @before c cs v hc h ih =>
    obtain ⟨ws, hws, hread⟩ := ih n
    refine ⟨ws, hws, fun rest hr => ?_⟩
    have hskip : readValue n (c :: cs ++ rest) = readValue n (cs ++ rest) := by
      rw [← readValue_skipSpace, ← readValue_skipSpace n (cs ++ rest)]
      simp [skipSpace, hc]
    rw [hskip]
    exact hread rest hr
  | @after c cs v hc h ih =>
    obtain ⟨ws, hws, hread⟩ := ih n
    have hspaces : Spaces [c] := by simpa [Spaces] using hc
    refine ⟨ws ++ [c], hws.append hspaces, fun rest hr => ?_⟩
    have h := hread ([c] ++ rest) (hr.spaces hspaces)
    simpa using h

theorem readEnd_spaces (h : Spaces ws) : readEnd ws = .ok () := by
  have hskip := skipSpace_append h []
  rw [List.append_nil] at hskip
  rw [readEnd, hskip]
  rfl

theorem Spells.read {s : String} (h : Spells s.toList v) :
    Yields (read s) (v.depth ≤ maxDepth) v.settle := by
  obtain ⟨ws, hws, hread⟩ := h.reads maxDepth
  have hread := hread [] trivial
  rw [List.append_nil, List.append_nil] at hread
  rw [Json.read]
  refine (hread.bind (q := True) (a := v.settle) (.of_true trivial ?_)).congr (and_iff_left trivial)
  simp only [readEnd_spaces hws]
  rfl

end CompiledModels.Json
