import CompiledModels.Proofs.Json.Values

/-!
A text that has the form of a value is passed over to its end, however many lists and objects are
open in it.
-/

namespace CompiledModels.Json

variable {t cs rest ws left : List Char} {c : Char} {frame : Frame} {outer : List Frame}
  {fuel : Nat}

def Frame.closing : Frame → Char
  | .list => ']'
  | .object => '}'

def skipNext (fuel : Nat) (frame : Frame) (outer : List Frame) (cs : List Char) :
    Except Failure (List Char) := do
  skipOpen fuel (frame :: outer) .value (← skipItem frame cs)

theorem skipOpen_value_skipSpace (fuel : Nat) (frames : List Frame) (cs : List Char) :
    skipOpen (fuel + 1) frames .value (skipSpace cs) = skipOpen (fuel + 1) frames .value cs := by
  simp only [skipOpen, skipSpace_skipSpace]

example : skipOpen 2 [] .value [' ', '"', '"'] = skipOpen 2 [] .value ['"', '"'] := by cbv

theorem skipNext_skipSpace (fuel : Nat) (frame : Frame) (outer : List Frame) (cs : List Char) :
    skipNext (fuel + 1) frame outer (skipSpace cs) = skipNext (fuel + 1) frame outer cs := by
  cases frame with
  | list => exact skipOpen_value_skipSpace fuel (.list :: outer) cs
  | object => simp only [skipNext, skipItem, skipKey, skipSpace_skipSpace]

theorem skipOpen_close {afterItem : Bool} (h : skipSpace cs = frame.closing :: left) :
    skipOpen (fuel + 1) (frame :: outer) (.inside afterItem) cs =
      skipOpen fuel outer (.inside true) left := by
  cases frame <;> simp only [skipOpen, h, Frame.closing]

theorem skipOpen_comma (h : skipSpace cs = ',' :: left) :
    skipOpen (fuel + 1) (frame :: outer) (.inside true) cs = skipNext fuel frame outer left := by
  cases frame <;> simp only [skipOpen, h, skipNext, if_true]

theorem skipOpen_first (h : skipSpace cs = c :: left) (hc : c ≠ ',' ∧ c ≠ ']' ∧ c ≠ '}') :
    skipOpen (fuel + 1) (frame :: outer) (.inside false) cs =
      skipNext fuel frame outer (c :: left) := by
  obtain ⟨hcomma, hlist, hobject⟩ := hc
  cases frame <;> simp [skipOpen, h, skipNext, hcomma, hlist, hobject]

def Passes (frame : Frame) (t : List Char) : Prop :=
  Starts t ∧ ∃ ws k, Spaces ws ∧ k + 2 ≤ 2 * t.length ∧ ∀ fuel outer rest, EndsNumber rest →
    skipNext (fuel + k + 1) frame outer (t ++ rest) =
      skipOpen fuel (frame :: outer) (.inside true) (ws ++ rest)

theorem EndsNumber.closing (frame : Frame) (rest : List Char) :
    EndsNumber (frame.closing :: rest) := by
  cases frame <;> exact ⟨by decide, by decide, by decide, by decide⟩

theorem skipSpace_closing (hws : Spaces ws) (frame : Frame) (rest : List Char) :
    skipSpace (ws ++ frame.closing :: rest) = frame.closing :: rest := by
  rw [skipSpace_append hws]
  cases frame <;> rfl

theorem skipOpen_follow {ts : List (List Char)} (h : ∀ t ∈ ts, Passes frame t) :
    ∃ k ≤ 2 * ts.flatten.length, ∀ fuel outer ws rest, Spaces ws →
      skipOpen (fuel + k + 1) (frame :: outer) (.inside true)
        (ws ++ follow (frame.closing :: rest) ts) = skipOpen fuel outer (.inside true) rest := by
  induction ts with
  | nil =>
    exact ⟨0, by simp, fun fuel outer ws rest hws => skipOpen_close (skipSpace_closing hws frame rest)⟩
  | cons t ts ih =>
    obtain ⟨k, hk, hskip⟩ := ih fun u hu => h u (List.mem_cons_of_mem _ hu)
    obtain ⟨-, ws', i, hws', hi, hitem⟩ := h t List.mem_cons_self
    refine ⟨i + 2 + k, ?_, fun fuel outer ws rest hws => ?_⟩
    · rw [List.flatten_cons, List.length_append]
      omega
    have hcomma : skipSpace (ws ++ follow (frame.closing :: rest) (t :: ts)) =
        ',' :: (t ++ follow (frame.closing :: rest) ts) := by
      rw [skipSpace_append hws]
      rfl
    have hfuel : fuel + (i + 2 + k) + 1 = fuel + k + 1 + i + 1 + 1 := by omega
    rw [hfuel, skipOpen_comma hcomma, hitem _ _ _ ((EndsNumber.closing frame rest).follow ts)]
    exact hskip fuel outer ws' rest hws'

theorem skipOpen_commas {ts : List (List Char)} (h : ∀ t ∈ ts, Passes frame t) :
    ∃ k ≤ 2 * ts.flatten.length, ∀ fuel outer ws rest, Spaces ws →
      skipOpen (fuel + k + 1) (frame :: outer) (.inside false)
        (ws ++ (commas ts ++ frame.closing :: rest)) = skipOpen fuel outer (.inside true) rest := by
  cases ts with
  | nil =>
    exact ⟨0, by simp, fun fuel outer ws rest hws => skipOpen_close (skipSpace_closing hws frame rest)⟩
  | cons t ts =>
    obtain ⟨k, hk, hskip⟩ := skipOpen_follow fun u hu => h u (List.mem_cons_of_mem _ hu)
    obtain ⟨hstart, ws', i, hws', hi, hitem⟩ := h t List.mem_cons_self
    refine ⟨i + 2 + k, ?_, fun fuel outer ws rest hws => ?_⟩
    · rw [List.flatten_cons, List.length_append]
      omega
    obtain ⟨c, left, hhead, hc⟩ := hstart.skipSpace (follow (frame.closing :: rest) ts)
    have hfuel : fuel + (i + 2 + k) + 1 = fuel + k + 1 + i + 1 + 1 := by omega
    rw [hfuel, commas_append, skipOpen_first ((skipSpace_append hws _).trans hhead) hc, ← hhead,
      skipNext_skipSpace, hitem _ _ _ ((EndsNumber.closing frame rest).follow ts)]
    exact hskip fuel outer ws' rest hws'

theorem flatten_le_commas (ts : List (List Char)) :
    ts.flatten.length ≤ (commas ts).length := by
  induction ts with
  | nil => exact Nat.le_refl _
  | cons t ts ih =>
    cases ts with
    | nil => simp [commas]
    | cons u ts =>
      have hc : commas (t :: u :: ts) = t ++ ',' :: commas (u :: ts) := rfl
      rw [hc, List.flatten_cons, List.length_append, List.length_append, List.length_cons]
      omega

theorem NumberText.Proper.whole_head {n : NumberText} (hn : n.Proper) :
    ∃ c cs, n.whole = c :: cs ∧ c.isDigit = true := by
  rcases hn.whole with h | ⟨h, -⟩
  · exact ⟨'0', [], h, rfl⟩
  · obtain ⟨c, cs, hc⟩ := List.exists_cons_of_ne_nil h.1
    exact ⟨c, cs, hc, h.2 c (hc ▸ List.mem_cons_self)⟩

theorem skipOpen_digit {frames : List Frame} (hc : c.isDigit = true)
    (h : skipMagnitude (c :: cs) = .ok rest) :
    skipOpen (fuel + 1) frames .value (c :: cs) = skipOpen fuel frames (.inside true) rest := by
  have hne : ∀ d : Char, d.isDigit = false → c ≠ d := fun d hd => digit_ne hc hd
  rw [skipOpen, skipSpace_cons (isSpace_digit hc).1]
  split
  · rename_i heq
    cases heq
  · rename_i heq
    exact absurd (List.cons.inj heq).1 (hne 'n' rfl)
  · rename_i heq
    exact absurd (List.cons.inj heq).1 (hne 't' rfl)
  · rename_i heq
    exact absurd (List.cons.inj heq).1 (hne 'f' rfl)
  · rename_i heq
    exact absurd (List.cons.inj heq).1 (hne '-' rfl)
  · rename_i heq
    exact absurd (List.cons.inj heq).1 (hne '"' rfl)
  · rename_i heq
    exact absurd (List.cons.inj heq).1 (hne '[' rfl)
  · rename_i heq
    exact absurd (List.cons.inj heq).1 (hne '{' rfl)
  · rename_i heq
    obtain ⟨rfl, rfl⟩ := List.cons.inj heq
    rw [if_pos hc, h]
    rfl

theorem NumberText.Proper.head {n : NumberText} (hn : n.Proper) :
    ∃ c cs, n.chars = c :: cs ∧ (c = '-' ∨ c.isDigit = true) := by
  obtain ⟨c, cs, hc, hd⟩ := hn.whole_head
  rcases hn.sign with h | h
  · exact ⟨c, _, by rw [NumberText.chars, h, hc]; rfl, .inr hd⟩
  · exact ⟨'-', _, by rw [NumberText.chars, h]; rfl, .inl rfl⟩

theorem Formed.starts (h : Formed t) : Starts t := by
  induction h with
  | null | true | false | string | list | object =>
    exact .of_head (by decide) ⟨by decide, by decide, by decide⟩
  | number hn =>
    obtain ⟨c, cs, hcs, rfl | hc⟩ := hn.head
    · exact hcs ▸ .of_head (by decide) ⟨by decide, by decide, by decide⟩
    · exact hcs ▸ .of_head (isSpace_digit hc).1 (isSpace_digit hc).2
  | before hc h ih => exact ih.before hc
  | after hc h ih => exact ih.after _

theorem skipKey_member {f : Member}
    (hf : Spaces f.before ∧ Quotable f.keyText ∧ Spaces f.between) (rest : List Char) :
    skipKey (f.chars ++ rest) = .ok (f.text ++ rest) := by
  obtain ⟨hbefore, hkey, hbetween⟩ := hf
  have happ : f.chars ++ rest = f.before ++
      '"' :: (f.keyText ++ '"' :: (f.between ++ ':' :: (f.text ++ rest))) := by
    simp [Member.chars]
  have hskip : skipSpace (f.chars ++ rest) =
      '"' :: (f.keyText ++ '"' :: (f.between ++ ':' :: (f.text ++ rest))) := by
    rw [happ, skipSpace_append hbefore]
    rfl
  have hstring := skipString_quotable hkey (f.between ++ ':' :: (f.text ++ rest))
    ((f.keyText ++ '"' :: (f.between ++ ':' :: (f.text ++ rest))).length + 1)
    (by rw [List.length_append]; omega)
  have hcolon : readColon (f.between ++ ':' :: (f.text ++ rest)) = .ok (f.text ++ rest) := by
    apply readColon_of
    rw [skipSpace_append hbetween]
    rfl
  simp only [skipKey, hskip, hstring, bind, Except.bind, hcolon]

theorem Member.starts {f : Member} (hf : Spaces f.before) : Starts f.chars :=
  ⟨f.before, '"', _, hf, rfl, rfl, by decide, by decide, by decide⟩

theorem Formed.skips (h : Formed t) : ∃ ws k, Spaces ws ∧ k + 2 ≤ 2 * t.length ∧
    ∀ fuel frames rest, EndsNumber rest → skipOpen (fuel + k + 1) frames .value (t ++ rest) =
      skipOpen fuel frames (.inside Bool.true) (ws ++ rest) := by
  induction h with
  | null | true | false =>
    refine ⟨[], 0, Spaces.nil, by decide, fun fuel frames rest _ => ?_⟩
    rw [skipOpen]
    rfl
  | @number n hn =>
    refine ⟨[], 0, Spaces.nil, ?_, fun fuel frames rest hr => ?_⟩
    · obtain ⟨c, cs, hcs, -⟩ := hn.head
      rw [hcs, List.length_cons]
      omega
    · have hskip := skipMagnitude_text hn hr
      have happ : n.chars ++ rest = n.sign ++ (n.whole ++ (n.fraction ++ (n.exponent ++ rest))) := by
        simp [NumberText.chars]
      rw [happ]
      rcases hn.sign with h | h
      · obtain ⟨c, cs, hcs, hc⟩ := hn.whole_head
        rw [hcs, List.cons_append] at hskip
        rw [h, List.nil_append, hcs, List.cons_append]
        exact skipOpen_digit hc hskip
      · rw [h, List.cons_append, List.nil_append, skipOpen, skipSpace_cons (by decide)]
        simp only [hskip, bind, Except.bind]
        rfl
  | @string t ht =>
    refine ⟨[], 0, Spaces.nil, by simp only [List.length_cons]; omega, fun fuel frames rest _ => ?_⟩
    have happ : '"' :: (t ++ ['"']) ++ rest = '"' :: (t ++ '"' :: rest) := by simp
    have hskip := skipString_quotable ht rest ((t ++ '"' :: rest).length + 1)
      (by rw [List.length_append]; omega)
    rw [happ, skipOpen, skipSpace_cons (by decide)]
    simp only [hskip, bind, Except.bind]
    rfl
  | @list ws hws items hi ih =>
    have hpasses : ∀ t ∈ items, Passes .list t := fun t ht => ⟨(hi t ht).starts, by
      obtain ⟨ws, k, hws, hk, hskip⟩ := ih t ht
      exact ⟨ws, k, hws, hk, fun fuel outer rest hr => hskip fuel (.list :: outer) rest hr⟩⟩
    obtain ⟨k, hk, hskip⟩ := skipOpen_commas hpasses
    have hsum := flatten_le_commas items
    refine ⟨[], k + 1, Spaces.nil, ?_, fun fuel frames rest hr => ?_⟩
    · simp only [listChars, List.length_cons, List.length_append]
      omega
    · have happ : listChars ws items ++ rest = '[' :: (ws ++ (commas items ++ ']' :: rest)) := by
        simp [listChars]
      rw [happ, skipOpen, skipSpace_cons (by decide)]
      exact hskip fuel frames ws rest hws
  | @object ws hws members hb hv ih =>
    have hpasses : ∀ t ∈ members.map (·.chars), Passes .object t := by
      intro t ht
      obtain ⟨f, hf, rfl⟩ := List.mem_map.mp ht
      obtain ⟨ws, k, hws, hk, hskip⟩ := ih f hf
      refine ⟨Member.starts (hb f hf).1, ws, k, hws, ?_, fun fuel outer rest hr => ?_⟩
      · simp only [Member.chars, List.length_append, List.length_cons]
        omega
      · simp only [skipNext, skipItem, skipKey_member (hb f hf), bind, Except.bind]
        exact hskip fuel (.object :: outer) rest hr
    obtain ⟨k, hk, hskip⟩ := skipOpen_commas hpasses
    have hsum := flatten_le_commas (members.map (·.chars))
    refine ⟨[], k + 1, Spaces.nil, ?_, fun fuel frames rest hr => ?_⟩
    · simp only [objectChars, List.length_cons, List.length_append]
      omega
    · have happ : objectChars ws (members.map (·.chars)) ++ rest =
          '\x7b' :: (ws ++ (commas (members.map (·.chars)) ++ '\x7d' :: rest)) := by
        simp [objectChars]
      rw [happ, skipOpen, skipSpace_cons (by decide)]
      exact hskip fuel frames ws rest hws
  | @before c cs hc h ih =>
    obtain ⟨ws, k, hws, hk, hskip⟩ := ih
    refine ⟨ws, k, hws, by rw [List.length_cons]; omega, fun fuel frames rest hr => ?_⟩
    have hspace : skipSpace (c :: cs ++ rest) = skipSpace (cs ++ rest) := by
      simp [skipSpace, hc]
    rw [← skipOpen_value_skipSpace, hspace, skipOpen_value_skipSpace]
    exact hskip fuel frames rest hr
  | @after c cs hc h ih =>
    obtain ⟨ws, k, hws, hk, hskip⟩ := ih
    have hspaces : Spaces [c] := by simpa [Spaces] using hc
    refine ⟨ws ++ [c], k, hws.append hspaces, ?_, fun fuel frames rest hr => ?_⟩
    · rw [List.length_append]
      omega
    · have hnext := hskip fuel frames ([c] ++ rest) (hr.spaces hspaces)
      simpa using hnext

theorem Formed.skipValue (h : Formed t) :
    ∃ ws, Spaces ws ∧ ∀ rest, EndsNumber rest → skipValue (t ++ rest) = .ok (ws ++ rest) := by
  obtain ⟨ws, k, hws, hk, hskip⟩ := h.skips
  refine ⟨ws, hws, fun rest hr => ?_⟩
  obtain ⟨fuel, hfuel⟩ : ∃ fuel, 2 * (t ++ rest).length + 2 = fuel + 1 + k + 1 := by
    refine ⟨2 * (t ++ rest).length - k, ?_⟩
    rw [List.length_append]
    omega
  rw [Json.skipValue, hfuel, hskip _ _ _ hr]
  rfl

end CompiledModels.Json
