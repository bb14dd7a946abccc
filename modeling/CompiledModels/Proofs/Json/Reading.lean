import CompiledModels.Proofs.Json.Tokens

/-!
A text that spells a value is read as that value, with its objects put in order, unless more lists
and objects are open at once than the reader allows; then it is not read at all.
-/

namespace CompiledModels.Json

variable {ι α β : Type} {t cs rest ws left close : List Char} {c : Char} {n fuel : Nat}

theorem Spaces.nil : Spaces [] := by simp [Spaces]

theorem Spaces.append (h : Spaces ws) (h' : Spaces cs) : Spaces (ws ++ cs) := by
  intro c hc
  exact (List.mem_append.mp hc).elim (h c) (h' c)

theorem skipSpace_append (h : Spaces ws) (cs : List Char) :
    skipSpace (ws ++ cs) = skipSpace cs := by
  rw [skipSpace, List.dropWhile_append_of_pos h]
  rfl

theorem skipSpace_cons (hc : isSpace c = false) (cs : List Char) :
    skipSpace (c :: cs) = c :: cs := by
  simp [skipSpace, hc]

theorem skipSpace_skipSpace (cs : List Char) : skipSpace (skipSpace cs) = skipSpace cs := by
  induction cs with
  | nil => rfl
  | cons c cs ih =>
    cases hc : isSpace c with
    | true => simpa [skipSpace, hc] using ih
    | false => rw [skipSpace_cons hc, skipSpace_cons hc]

theorem EndsNumber.spaces (h : Spaces ws) (hr : EndsNumber rest) : EndsNumber (ws ++ rest) := by
  cases ws with
  | nil => exact hr
  | cons c ws =>
    have hc := h c List.mem_cons_self
    simp only [isSpace, Bool.or_eq_true, beq_iff_eq] at hc
    rcases hc with ((rfl | rfl) | rfl) | rfl <;> exact ⟨by decide, by decide, by decide, by decide⟩

def Starts (t : List Char) : Prop :=
  ∃ ws c left, Spaces ws ∧ t = ws ++ c :: left ∧ isSpace c = false ∧ c ≠ ',' ∧ c ≠ ']' ∧ c ≠ '}'

theorem Starts.of_head (hc : isSpace c = false) (h : c ≠ ',' ∧ c ≠ ']' ∧ c ≠ '}') :
    Starts (c :: cs) := ⟨[], c, cs, Spaces.nil, rfl, hc, h⟩

theorem Starts.before (hc : isSpace c = true) (h : Starts t) : Starts (c :: t) := by
  obtain ⟨ws, d, left, hws, rfl, hd⟩ := h
  refine ⟨c :: ws, d, left, fun b hb => ?_, rfl, hd⟩
  rcases List.mem_cons.mp hb with rfl | hb
  · exact hc
  · exact hws b hb

theorem Starts.after (c : Char) (h : Starts t) : Starts (t ++ [c]) := by
  obtain ⟨ws, d, left, hws, rfl, hd⟩ := h
  exact ⟨ws, d, left ++ [c], hws, by simp, hd⟩

theorem Starts.skipSpace (h : Starts t) (rest : List Char) :
    ∃ c left, skipSpace (t ++ rest) = c :: left ∧ c ≠ ',' ∧ c ≠ ']' ∧ c ≠ '}' := by
  obtain ⟨ws, c, left, hws, rfl, hc, h⟩ := h
  refine ⟨c, left ++ rest, ?_, h⟩
  rw [List.append_assoc, skipSpace_append hws, List.cons_append, skipSpace_cons hc]

def Yields (x : Except Failure β) (p : Prop) (b : β) : Prop :=
  p ∧ x = .ok b ∨ ¬p ∧ ∃ e, x = .error e

namespace Yields

variable {x : Except Failure β} {p q : Prop} {b b' : β}

theorem of_true (hp : p) (hx : x = .ok b) : Yields x p b := .inl ⟨hp, hx⟩

theorem of_false (hp : ¬p) {e : Failure} (hx : x = .error e) : Yields x p b := .inr ⟨hp, e, hx⟩

theorem eq_ok (h : Yields x p b) (hp : p) : x = .ok b := by
  rcases h with ⟨-, hx⟩ | ⟨hn, -⟩
  · exact hx
  · exact absurd hp hn

theorem of_eq_ok (h : Yields x p b) (hx : x = .ok b') : p ∧ b' = b := by
  rcases h with ⟨hp, hx'⟩ | ⟨-, e, hx'⟩
  · rw [hx', Except.ok.injEq] at hx
    exact ⟨hp, hx.symm⟩
  · rw [hx'] at hx
    simp at hx

theorem congr (h : Yields x p b) (hp : p ↔ q) : Yields x q b := by
  rcases h with ⟨h, hx⟩ | ⟨h, hx⟩
  · exact .inl ⟨hp.mp h, hx⟩
  · exact .inr ⟨fun hq => h (hp.mpr hq), hx⟩

theorem bind {f : β → Except Failure α} {a : α} (h : Yields x p b) (hf : Yields (f b) q a) :
    Yields (x >>= f) (p ∧ q) a := by
  rcases h with ⟨hp, rfl⟩ | ⟨hp, e, rfl⟩
  · exact hf.congr ⟨fun hq => ⟨hp, hq⟩, fun h => h.2⟩
  · exact .of_false (fun h => hp h.1) (e := e) rfl

theorem map {f : β → α} (h : Yields x p b) : Yields (x >>= fun b => pure (f b)) p (f b) := by
  rcases h with ⟨hp, rfl⟩ | ⟨hp, e, rfl⟩
  · exact .of_true hp rfl
  · exact .of_false hp (e := e) rfl

end Yields

def Reads (item : List Char → Except Failure (α × List Char)) (t : List Char) (p : Prop) (a : α) :
    Prop :=
  ∃ ws, Spaces ws ∧ ∀ rest, EndsNumber rest → Yields (item (t ++ rest)) p (a, ws ++ rest)

def follow (close : List Char) : List (List Char) → List Char
  | [] => close
  | t :: ts => ',' :: (t ++ follow close ts)

theorem commas_append (t : List Char) (ts : List (List Char)) (close : List Char) :
    commas (t :: ts) ++ close = t ++ follow close ts := by
  induction ts generalizing t with
  | nil => rfl
  | cons u ts ih =>
    have h : commas (t :: u :: ts) = t ++ ',' :: commas (u :: ts) := rfl
    rw [h, List.append_assoc, List.cons_append, ih u, follow]

theorem EndsNumber.follow (h : EndsNumber close) (ts : List (List Char)) :
    EndsNumber (follow close ts) := by
  cases ts with
  | nil => exact h
  | cons t ts => exact ⟨by decide, by decide, by decide, by decide⟩

theorem endsNumber_of_mem (hc : c ∈ [',', ']', '}', ':']) (rest : List Char) :
    EndsNumber (c :: rest) := by
  simp only [List.mem_cons, List.not_mem_nil, or_false] at hc
  rcases hc with rfl | rfl | rfl | rfl <;> exact ⟨by decide, by decide, by decide, by decide⟩

section Items

variable {item : List Char → Except Failure (α × List Char)}

theorem readItems_end {first : Bool} (h : skipSpace cs = ']' :: left) :
    readItems item (fuel + 1) first cs = .ok ([], left) := by
  simp only [readItems, h]

theorem readItems_first (h : skipSpace cs = c :: left) (hc : c ≠ ',' ∧ c ≠ ']') :
    readItems item (fuel + 1) true cs = (do
      let (v, cs) ← item (c :: left)
      let (vs, cs) ← readItems item fuel false cs
      return (v :: vs, cs)) := by
  simp only [readItems, h]
  split
  · simp_all
  · simp_all
  · simp_all
  · simp_all

theorem readItems_comma {cs' : List Char} (h : skipSpace cs = ',' :: cs')
    (h' : skipSpace cs' = c :: left) (hc : c ≠ ']') :
    readItems item (fuel + 1) false cs = (do
      let (v, cs) ← item (c :: left)
      let (vs, cs) ← readItems item fuel false cs
      return (v :: vs, cs)) := by
  simp only [readItems, h, h']
  split
  · simp_all
  · simp_all

variable (hspace : ∀ cs, item (skipSpace cs) = item cs) (text : ι → List Char) {value : ι → α}
  {p : ι → Prop}
include hspace

theorem readItems_follow {items : List ι} (h : ∀ i ∈ items, Starts (text i) ∧
    Reads item (text i) (p i) (value i)) (hws : Spaces ws) (rest : List Char)
    (hf : items.length < fuel) :
    Yields (readItems item fuel false (ws ++ follow (']' :: rest) (items.map text)))
      (∀ i ∈ items, p i) (items.map value, rest) := by
  induction items generalizing ws fuel with
  | nil =>
    obtain ⟨fuel, rfl⟩ := Nat.exists_eq_add_one_of_ne_zero (Nat.ne_zero_of_lt hf)
    refine .of_true (by simp) (readItems_end ?_)
    rw [skipSpace_append hws]
    rfl
  | cons i items ih =>
    obtain ⟨fuel, rfl⟩ := Nat.exists_eq_add_one_of_ne_zero (Nat.ne_zero_of_lt hf)
    obtain ⟨hstart, ws', hws', hread⟩ := h i List.mem_cons_self
    obtain ⟨c, left, hskip, -, hc, -⟩ :=
      hstart.skipSpace (follow (']' :: rest) (items.map text))
    have hcomma : skipSpace (ws ++ follow (']' :: rest) ((i :: items).map text)) =
        ',' :: (text i ++ follow (']' :: rest) (items.map text)) := by
      rw [skipSpace_append hws]
      rfl
    have hends : EndsNumber (follow (']' :: rest) (items.map text)) :=
      (endsNumber_of_mem (by simp) rest).follow _
    have hlen : items.length < fuel := by simpa using hf
    have hnext := ih (fun j hj => h j (List.mem_cons_of_mem _ hj)) hws' hlen
    rw [readItems_comma hcomma hskip hc, ← hskip, hspace]
    exact ((hread _ hends).bind hnext.map).congr (by simp)

theorem readItems_commas {items : List ι} (h : ∀ i ∈ items, Starts (text i) ∧
    Reads item (text i) (p i) (value i)) (hws : Spaces ws) (rest : List Char)
    (hf : items.length < fuel) :
    Yields (readItems item fuel true (ws ++ (commas (items.map text) ++ ']' :: rest)))
      (∀ i ∈ items, p i) (items.map value, rest) := by
  obtain ⟨fuel, rfl⟩ := Nat.exists_eq_add_one_of_ne_zero (Nat.ne_zero_of_lt hf)
  cases items with
  | nil =>
    refine .of_true (by simp) (readItems_end ?_)
    rw [skipSpace_append hws]
    rfl
  | cons i items =>
    obtain ⟨hstart, ws', hws', hread⟩ := h i List.mem_cons_self
    obtain ⟨c, left, hskip, hcomma, hclose, -⟩ :=
      hstart.skipSpace (follow (']' :: rest) (items.map text))
    have hends : EndsNumber (follow (']' :: rest) (items.map text)) :=
      (endsNumber_of_mem (by simp) rest).follow _
    have hlen : items.length < fuel := by simpa using hf
    have hnext := readItems_follow hspace text (fun j hj => h j (List.mem_cons_of_mem _ hj)) hws' rest hlen
    rw [List.map_cons, commas_append, readItems_first ((skipSpace_append hws _).trans hskip)
      ⟨hcomma, hclose⟩, ← hskip, hspace]
    exact ((hread _ hends).bind hnext.map).congr (by simp)

end Items

section Fields

theorem readColon_of (h : skipSpace cs = ':' :: left) : readColon cs = .ok left := by
  simp only [readColon, h]

theorem readKey_end (first : Bool) (h : skipSpace cs = '}' :: left) :
    readKey first cs = .ok (none, left) := by
  simp only [readKey, h]

variable {f : Member} (hf : f.Proper)
include hf

theorem Member.Proper.skipSpace_chars (rest : List Char) :
    skipSpace (f.chars ++ rest) =
      '"' :: (f.keyText ++ '"' :: (f.between ++ ':' :: (f.text ++ rest))) := by
  have happ : f.chars ++ rest = f.before ++
      '"' :: (f.keyText ++ '"' :: (f.between ++ ':' :: (f.text ++ rest))) := by
    simp [Member.chars]
  rw [happ, skipSpace_append hf.before]
  rfl

theorem readKey_first (hws : Spaces ws) (rest : List Char) :
    readKey true (ws ++ (f.chars ++ rest)) = .ok (some f.key, f.between ++ ':' :: (f.text ++ rest)) := by
  have hread := readString_writes hf.keyText (f.between ++ ':' :: (f.text ++ rest))
  simp only [readKey, (skipSpace_append hws _).trans (hf.skipSpace_chars rest), hread, bind,
    Except.bind]
  rfl

theorem readKey_follow (hws : Spaces ws) (ts : List (List Char)) (close : List Char) :
    readKey false (ws ++ follow close (f.chars :: ts)) =
      .ok (some f.key, f.between ++ ':' :: (f.text ++ follow close ts)) := by
  have hcomma : skipSpace (ws ++ follow close (f.chars :: ts)) =
      ',' :: (f.chars ++ follow close ts) := by
    rw [skipSpace_append hws]
    rfl
  have hread := readString_writes hf.keyText (f.between ++ ':' :: (f.text ++ follow close ts))
  simp only [readKey, hcomma, hf.skipSpace_chars, hread, bind, Except.bind]
  rfl

theorem readColon_between (rest : List Char) :
    readColon (f.between ++ ':' :: rest) = .ok rest := by
  apply readColon_of
  rw [skipSpace_append hf.between]
  rfl

end Fields

section Members

variable {item : List Char → Except Failure (α × List Char)} (field : ι → Member) {value : ι → α}
  {p : ι → Prop}

theorem readFields_next {first : Bool} {k : String} {cs' cs'' : List Char}
    (hkey : readKey first cs = .ok (some k, cs')) (hcolon : readColon cs' = .ok cs'') :
    readFields item (fuel + 1) first cs = (do
      let (v, cs) ← item cs''
      let (fields, cs) ← readFields item fuel false cs
      return ((k, v) :: fields, cs)) := by
  simp only [readFields, hkey, bind, Except.bind, hcolon]

theorem readFields_follow {items : List ι} (h : ∀ i ∈ items, (field i).Proper ∧
    Reads item (field i).text (p i) (value i)) (hws : Spaces ws) (rest : List Char)
    (hf : items.length < fuel) :
    Yields (readFields item fuel false (ws ++ follow ('}' :: rest) (items.map fun i => (field i).chars)))
      (∀ i ∈ items, p i) (items.map fun i => ((field i).key, value i), rest) := by
  induction items generalizing ws fuel with
  | nil =>
    obtain ⟨fuel, rfl⟩ := Nat.exists_eq_add_one_of_ne_zero (Nat.ne_zero_of_lt hf)
    have hkey : readKey false (ws ++ '}' :: rest) = .ok (none, rest) :=
      readKey_end false (skipSpace_append hws _)
    refine .of_true (by simp) ?_
    simp only [readFields, List.map_nil, follow, hkey, bind, Except.bind]
    rfl
  | cons i items ih =>
    obtain ⟨fuel, rfl⟩ := Nat.exists_eq_add_one_of_ne_zero (Nat.ne_zero_of_lt hf)
    obtain ⟨hproper, ws', hws', hread⟩ := h i List.mem_cons_self
    have hkey := readKey_follow hproper hws (items.map fun i => (field i).chars) ('}' :: rest)
    have hends : EndsNumber (follow ('}' :: rest) (items.map fun i => (field i).chars)) :=
      (endsNumber_of_mem (by simp) rest).follow _
    have hlen : items.length < fuel := by simpa using hf
    have hnext := ih (fun j hj => h j (List.mem_cons_of_mem _ hj)) hws' hlen
    rw [List.map_cons, readFields_next hkey (readColon_between hproper _)]
    exact ((hread _ hends).bind hnext.map).congr (by simp)

theorem readFields_commas {items : List ι} (h : ∀ i ∈ items, (field i).Proper ∧
    Reads item (field i).text (p i) (value i)) (hws : Spaces ws) (rest : List Char)
    (hf : items.length < fuel) :
    Yields (readFields item fuel true
        (ws ++ (commas (items.map fun i => (field i).chars) ++ '}' :: rest)))
      (∀ i ∈ items, p i) (items.map fun i => ((field i).key, value i), rest) := by
  obtain ⟨fuel, rfl⟩ := Nat.exists_eq_add_one_of_ne_zero (Nat.ne_zero_of_lt hf)
  cases items with
  | nil =>
    have hkey : readKey true (ws ++ '}' :: rest) = .ok (none, rest) :=
      readKey_end true (skipSpace_append hws _)
    refine .of_true (by simp) ?_
    simp only [readFields, List.map_nil, commas, List.nil_append, hkey, bind, Except.bind]
    rfl
  | cons i items =>
    obtain ⟨hproper, ws', hws', hread⟩ := h i List.mem_cons_self
    have hkey := readKey_first hproper hws (follow ('}' :: rest) (items.map fun i => (field i).chars))
    have hends : EndsNumber (follow ('}' :: rest) (items.map fun i => (field i).chars)) :=
      (endsNumber_of_mem (by simp) rest).follow _
    have hlen : items.length < fuel := by simpa using hf
    have hnext := readFields_follow field (fun j hj => h j (List.mem_cons_of_mem _ hj)) hws' rest hlen
    rw [List.map_cons, commas_append, readFields_next hkey (readColon_between hproper _)]
    exact ((hread _ hends).bind hnext.map).congr (by simp)

end Members

end CompiledModels.Json
