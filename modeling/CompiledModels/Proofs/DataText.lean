import CompiledModels.Data
import CompiledModels.Proofs.Json.Meaning

/-!
The data of a model and its text: the text says all that the data holds, and texts that mean the
same give the same data.
-/

namespace CompiledModels

open Json

variable {d e : ModelData} {s : String} {v : Value}

namespace ModelData

/-- Data without floats, in order, and not too deep for a reader. -/
structure Exact (d : ModelData) : Prop where
  whole : (Value.object d.fields).Whole
  ordered : (Value.object d.fields).Ordered
  depth : (Value.object d.fields).depth ≤ maxDepth

theorem ofText_spells (h : Spells s.toList v) (hv : v.depth ≤ maxDepth) :
    ofText s = ofValue v.settle := by
  rw [ofText, h.read.eq_ok hv]

theorem eq_ofValue_of_spells (h : Spells s.toList v) (hs : ofText s = .ok d) :
    ofValue v.settle = .ok d := by
  cases hr : read s with
  | error f => simp [ofText, hr] at hs
  | ok w =>
    obtain ⟨-, rfl⟩ := h.read.of_eq_ok hr
    simpa [ofText, hr] using hs

theorem Exact.ofText_text (h : d.Exact) : ofText d.text = .ok d := by
  have hspells : Spells d.text.toList (.object d.fields) := by
    rw [text, Value.text, String.toList_ofList]
    exact h.whole.spells
  rw [ofText_spells hspells h.depth, h.ordered.settle]
  rfl

theorem Exact.eq_iff (h : d.Exact) (h' : e.Exact) : d = e ↔ d.text = e.text := by
  constructor
  · rintro rfl
    rfl
  · intro ht
    have hd := h.ofText_text
    rw [ht, h'.ofText_text] at hd
    exact (Except.ok.inj hd).symm

theorem eq_of_same {t : String} {w : Value} (hs : Spells s.toList v) (ht : Spells t.toList w)
    (hvw : Same v w) (hd : ofText s = .ok d) (he : ofText t = .ok e) : d = e := by
  have hv := eq_ofValue_of_spells hs hd
  have hw := eq_ofValue_of_spells ht he
  rw [hvw.settle, hw] at hv
  exact (Except.ok.inj hv).symm

/-- Data without floats survives the way through its text, is known by it, and does not depend on
which of the texts that mean the same it was read from. -/
theorem survives_text : (∀ d : ModelData, d.Exact → ofText d.text = .ok d) ∧
    (∀ d e : ModelData, d.Exact → e.Exact → (d = e ↔ d.text = e.text)) ∧
    ∀ (s t : String) (v w : Value) (d e : ModelData), Spells s.toList v → Spells t.toList w →
      Same v w → ofText s = .ok d → ofText t = .ok e → d.text = e.text :=
  ⟨fun _ => Exact.ofText_text, fun _ _ => Exact.eq_iff, fun _ _ _ _ _ _ hs ht hvw hd he =>
    congrArg text (eq_of_same hs ht hvw hd he)⟩

def small : ModelData :=
  ⟨[("a", .string "é\n"), ("b", .list [.number (.natural 1), .number (.negative 1)])]⟩

theorem small_exact : small.Exact := by
  have hb : ∀ v ∈ [Value.number (.natural 1), .number (.negative 1)], v.Whole := by
    intro v hv
    simp only [List.mem_cons, List.not_mem_nil, or_false] at hv
    rcases hv with rfl | rfl
    · exact .natural 1
    · exact .negative 1
  have ho : ∀ v ∈ [Value.number (.natural 1), .number (.negative 1)], v.Ordered := by
    intro v hv
    simp only [List.mem_cons, List.not_mem_nil, or_false] at hv
    rcases hv with rfl | rfl <;> exact .number _
  refine ⟨.object fun f hf => ?_, .object (by decide) fun f hf => ?_, by decide⟩
  · simp only [small, List.mem_cons, List.not_mem_nil, or_false] at hf
    rcases hf with rfl | rfl
    · exact .string _
    · exact .list hb
  · simp only [small, List.mem_cons, List.not_mem_nil, or_false] at hf
    rcases hf with rfl | rfl
    · exact .string _
    · exact .list ho

def half : Binary64 := .ofFloat (Float.ofScientific 5 false 0 / powerOfTen 1)

def looseText : String := "\x7b \"b\" : [1, -2],\"a\":0.5 , \"\\u0061\":\"\\u00e9\\n\"\x7d"

def looseFields : List (Member × Value) :=
  [(⟨[], ['b'], [' '], " [1, -2]".toList, "b"⟩,
      .list [.number (.natural 1), .number (.negative 1)]),
    (⟨[], ['a'], [], "0.5 ".toList, "a"⟩, .number (.float half)),
    (⟨[' '], "\\u0061".toList, [], "\"\\u00e9\\n\"".toList, "a"⟩, .string "é\n")]

theorem looseText_spells :
    Spells looseText.toList (.object (looseFields.map fun f => (f.1.key, f.2))) := by
  have hchars : looseText.toList = objectChars [' '] (looseFields.map (·.1.chars)) := by decide
  have hplain (c : Char) (h : IsPlain c) : Writes [c] [c] := .plain h .nil
  have hitems : Spells " [1, -2]".toList (.list [.number (.natural 1), .number (.negative 1)]) := by
    refine .before rfl (.list Spaces.nil
      [(['1'], .number (.natural 1)), ([' ', '-', '2'], .number (.negative 1))] fun i hi => ?_)
    simp only [List.mem_cons, List.not_mem_nil, or_false] at hi
    rcases hi with rfl | rfl
    · exact .natural 1
    · exact .before rfl (.negative 1)
  have hhalf : Spells "0.5 ".toList (.number (.float half)) := 
    have hnumber : Spells ['0', '.', '5'] (.number (.float half)) := .float rfl
    hnumber.after rfl
  have hstring : Spells "\"\\u00e9\\n\"".toList (.string "é\n") :=
    have hwrites : Writes "\\u00e9\\n".toList "é\n".toList :=
      .unit (⟨rfl, by decide⟩ : IsUnit ['0', '0', 'e', '9'] 0xe9) (by decide) (.short (by decide) .nil)
    .string hwrites
  rw [hchars]
  refine .object (by simp [Spaces, isSpace]) looseFields (fun f hf => ?_) fun f hf => ?_
  · simp only [looseFields, List.mem_cons, List.not_mem_nil, or_false] at hf
    rcases hf with rfl | rfl | rfl
    · exact ⟨Spaces.nil, hplain 'b' ⟨by decide, by decide, by decide⟩, by simp [Spaces, isSpace]⟩
    · exact ⟨Spaces.nil, hplain 'a' ⟨by decide, by decide, by decide⟩, Spaces.nil⟩
    · exact ⟨by simp [Spaces, isSpace], .unit (⟨rfl, by decide⟩ : IsUnit ['0', '0', '6', '1'] 0x61)
        (by decide) .nil, Spaces.nil⟩
  · simp only [looseFields, List.mem_cons, List.not_mem_nil, or_false] at hf
    rcases hf with rfl | rfl | rfl
    · exact hitems
    · exact hhalf
    · exact hstring

theorem looseText_same :
    Same (.object small.fields) (.object (looseFields.map fun f => (f.1.key, f.2))) := by
  have hlookup (k : String) : lookup k small.fields.reverse =
      lookup k (looseFields.map fun f => (f.1.key, f.2)).reverse := by
    simp only [small, looseFields, List.map_cons, List.map_nil, List.reverse_cons, List.reverse_nil,
      List.nil_append, List.cons_append, lookup_cons, lookup_nil]
    by_cases ha : "a" = k
    · subst ha
      simp
    · simp [ha]
  refine .object (fun k => by rw [hlookup]) fun k v w hv hw => ?_
  rw [← hlookup, hv] at hw
  obtain rfl := Option.some.inj hw
  simp only [small, List.reverse_cons, List.reverse_nil, List.nil_append, List.cons_append,
    lookup_cons, lookup_nil] at hv
  split at hv
  · obtain rfl := Option.some.inj hv
    refine .list [(.number (.natural 1), .number (.natural 1)),
      (.number (.negative 1), .number (.negative 1))] fun v hv => ?_
    simp only [List.mem_cons, List.not_mem_nil, or_false] at hv
    rcases hv with rfl | rfl <;> exact .number _
  · split at hv
    · obtain rfl := Option.some.inj hv
      exact .string _
    · cases hv

theorem survives_text_small : small.Exact ∧ ofText small.text = .ok small ∧
    Spells looseText.toList (.object (looseFields.map fun f => (f.1.key, f.2))) ∧
    ∃ d, ofText looseText = .ok d ∧ d.text = small.text := by
  obtain ⟨hread, -, hsame⟩ := survives_text
  have hsmall := hread small small_exact
  have hspells : Spells small.text.toList (.object small.fields) := by
    rw [text, Value.text, String.toList_ofList]
    exact small_exact.whole.spells
  have hloose := ofText_spells looseText_spells (by decide)
  exact ⟨small_exact, hsmall, looseText_spells, _, hloose,
    (hsame _ _ _ _ _ _ hspells looseText_spells looseText_same hsmall hloose).symm⟩

end ModelData

end CompiledModels
