import CompiledModels.Data
import CompiledModels.Module.Library
import CompiledModels.Proofs.Json.Tokens
import CompiledModels.Text.Utf8
import Mathlib.Tactic.Common

/-!
The bytes of a text: which of them are zero, and that they are read back as the text.
-/

namespace CompiledModels.Text

variable {s : String} {c : Char} {n : Nat}

theorem encode_eq (s : String) : encode s = s.toList.flatMap String.utf8EncodeChar := by
  rw [encode, String.toUTF8, ← String.utf8Encode_toList, List.utf8Encode, List.data_toByteArray]

theorem toNat_ofNat (h : n < 256) : (UInt8.ofNat n).toNat = n := by
  rw [UInt8.toNat_ofNat']
  exact Nat.mod_eq_of_lt h

theorem zero_notMem_utf8EncodeChar (hc : c ≠ '\x00') : 0 ∉ String.utf8EncodeChar c := by
  have hv : c.val.toNat ≠ 0 := fun h => hc (Char.ext (UInt32.toNat_inj.1 h))
  have hne {n : Nat} (h0 : n ≠ 0) (h : n < 256) : 0 ≠ UInt8.ofNat n := by
    intro he
    have hn := congrArg UInt8.toNat he
    rw [toNat_ofNat h] at hn
    exact h0 hn.symm
  rw [String.utf8EncodeChar.eq_1]
  split_ifs <;> simp only [List.mem_cons, List.not_mem_nil, or_false, not_or]
  · exact hne hv (by omega)
  · exact ⟨hne (by omega) (by omega), hne (by omega) (by omega)⟩
  · exact ⟨hne (by omega) (by omega), hne (by omega) (by omega), hne (by omega) (by omega)⟩
  · exact ⟨hne (by omega) (by omega), hne (by omega) (by omega), hne (by omega) (by omega),
      hne (by omega) (by omega)⟩

theorem zero_notMem_encode (h : '\x00' ∉ s.toList) : 0 ∉ encode s := by
  rw [encode_eq, List.mem_flatMap]
  rintro ⟨c, hc, h0⟩
  exact zero_notMem_utf8EncodeChar (fun he => h (he ▸ hc)) h0

theorem takeWhile_encode (h : '\x00' ∉ s.toList) (rest : Bytes) :
    (encode s ++ 0 :: rest).takeWhile (· ≠ 0) = encode s := by
  rw [List.takeWhile_append_of_pos]
  · simp
  · intro b hb
    simpa using fun h0 : b = 0 => zero_notMem_encode h (h0 ▸ hb)

theorem Lead.ofByte?_ofNat (h : n < 256) : Lead.ofByte? (UInt8.ofNat n) =
    if n < 0x80 then some ⟨0, 0x80, 0xbf⟩
    else if n < 0xc2 then none
    else if n < 0xe0 then some ⟨1, 0x80, 0xbf⟩
    else if n = 0xe0 then some ⟨2, 0xa0, 0xbf⟩
    else if n = 0xed then some ⟨2, 0x80, 0x9f⟩
    else if n < 0xf0 then some ⟨2, 0x80, 0xbf⟩
    else if n = 0xf0 then some ⟨3, 0x90, 0xbf⟩
    else if n < 0xf4 then some ⟨3, 0x80, 0xbf⟩
    else if n = 0xf4 then some ⟨3, 0x80, 0x8f⟩
    else none := by
  simp only [Lead.ofByte?, UInt8.lt_iff_toNat_lt, ← UInt8.toNat_inj, toNat_ofNat h, UInt8.toNat_ofNat]

variable {bits v : Nat} {low high : UInt8} {lead : Lead} {count : Nat}

theorem decodeLossyFrom_first (h : Lead.ofByte? (UInt8.ofNat n) = some lead)
    (hl : lead.count ≠ 0) (bs : Bytes) : decodeLossyFrom .between (UInt8.ofNat n :: bs) =
      decodeLossyFrom (.inside (lead.bits (UInt8.ofNat n)) lead) bs := by
  simp only [decodeLossyFrom, LossyState.next, LossyState.next.fresh, h, if_neg hl,
    List.nil_append]

theorem next_inside (bits : Nat) (lead : Lead) (h : n < 256) (hl : lead.low.toNat ≤ n) (hh : n ≤ lead.high.toNat) :
    (LossyState.inside bits lead).next (UInt8.ofNat n) =
      if lead.count ≤ 1 then ([Char.ofNat (bits * 0x40 + n % 0x40)], .between)
      else ([], .inside (bits * 0x40 + n % 0x40) ⟨lead.count - 1, 0x80, 0xbf⟩) := by
  have hin : (lead.low ≤ UInt8.ofNat n && UInt8.ofNat n ≤ lead.high) = true := by
    simp only [Bool.and_eq_true, decide_eq_true_eq, UInt8.le_iff_toNat_le, toNat_ofNat h]
    exact ⟨hl, hh⟩
  rw [LossyState.next, if_pos hin, toNat_ofNat h]

theorem decodeLossyFrom_inner (h : n < 256) (hl : low.toNat ≤ n) (hh : n ≤ high.toNat)
    (bs : Bytes) : decodeLossyFrom (.inside bits ⟨count + 2, low, high⟩) (UInt8.ofNat n :: bs) =
      decodeLossyFrom (.inside (bits * 0x40 + n % 0x40) ⟨count + 1, 0x80, 0xbf⟩) bs := by
  have hnext := next_inside bits ⟨count + 2, low, high⟩ h hl hh
  simp only [decodeLossyFrom, hnext, if_neg (show ¬count + 2 ≤ 1 by omega),
    List.nil_append, Nat.add_succ_sub_one]

theorem decodeLossyFrom_last (h : n < 256) (hl : low.toNat ≤ n) (hh : n ≤ high.toNat)
    (bs : Bytes) : decodeLossyFrom (.inside bits ⟨1, low, high⟩) (UInt8.ofNat n :: bs) =
      Char.ofNat (bits * 0x40 + n % 0x40) :: decodeLossyFrom .between bs := by
  have hnext := next_inside bits ⟨1, low, high⟩ h hl hh
  simp only [decodeLossyFrom, hnext, Nat.le_refl, if_true, List.cons_append,
    List.nil_append]

theorem lead_three (h : 0x7ff < v) (h' : v ≤ 0xffff) (hv : v < 0xd800 ∨ 0xdfff < v) :
    ∃ low high, Lead.ofByte? (UInt8.ofNat (v / 4096 % 16 + 224)) = some ⟨2, low, high⟩ ∧
      low.toNat ≤ v / 64 % 64 + 128 ∧ v / 64 % 64 + 128 ≤ high.toNat := by
  rw [Lead.ofByte?_ofNat (by omega), if_neg (by omega), if_neg (by omega), if_neg (by omega)]
  split_ifs with h1 h2 h3
  · exact ⟨_, _, rfl, show 0xa0 ≤ _ by omega, show _ ≤ 0xbf by omega⟩
  · exact ⟨_, _, rfl, show 0x80 ≤ _ by omega, show _ ≤ 0x9f by omega⟩
  · exact ⟨_, _, rfl, show 0x80 ≤ _ by omega, show _ ≤ 0xbf by omega⟩
  all_goals omega

theorem lead_four (h : 0xffff < v) (h' : v < 0x110000) :
    ∃ low high, Lead.ofByte? (UInt8.ofNat (v / 262144 % 8 + 240)) = some ⟨3, low, high⟩ ∧
      low.toNat ≤ v / 4096 % 64 + 128 ∧ v / 4096 % 64 + 128 ≤ high.toNat := by
  rw [Lead.ofByte?_ofNat (by omega), if_neg (by omega), if_neg (by omega), if_neg (by omega),
    if_neg (by omega), if_neg (by omega), if_neg (by omega)]
  split_ifs with h1 h2 h3
  · exact ⟨_, _, rfl, show 0x90 ≤ _ by omega, show _ ≤ 0xbf by omega⟩
  · exact ⟨_, _, rfl, show 0x80 ≤ _ by omega, show _ ≤ 0xbf by omega⟩
  · exact ⟨_, _, rfl, show 0x80 ≤ _ by omega, show _ ≤ 0x8f by omega⟩
  · omega

theorem decodeLossyFrom_char (c : Char) (bs : Bytes) :
    decodeLossyFrom .between (String.utf8EncodeChar c ++ bs) = c :: decodeLossyFrom .between bs := by
  have hc : Char.ofNat c.val.toNat = c := Char.ofNat_toNat c
  have hvalid : c.val.toNat < 0xd800 ∨ 0xdfff < c.val.toNat ∧ c.val.toNat < 0x110000 := c.valid
  rw [String.utf8EncodeChar.eq_1]
  generalize c.val.toNat = v at hc hvalid
  have hlast : (0x80 : UInt8).toNat ≤ v % 64 + 128 ∧ v % 64 + 128 ≤ (0xbf : UInt8).toNat :=
    ⟨show 0x80 ≤ _ by omega, show _ ≤ 0xbf by omega⟩
  have hinner : (0x80 : UInt8).toNat ≤ v / 64 % 64 + 128 ∧
      v / 64 % 64 + 128 ≤ (0xbf : UInt8).toNat :=
    ⟨show 0x80 ≤ _ by omega, show _ ≤ 0xbf by omega⟩
  split_ifs with h1 h2 h3
  · have hl : Lead.ofByte? (UInt8.ofNat v) = some ⟨0, 0x80, 0xbf⟩ := by
      rw [Lead.ofByte?_ofNat (by omega), if_pos (by omega)]
    simp only [List.cons_append, List.nil_append, decodeLossyFrom, LossyState.next,
      LossyState.next.fresh, hl, if_true, toNat_ofNat (show v < 256 by omega), hc]
  · have hl : Lead.ofByte? (UInt8.ofNat (v / 64 % 32 + 192)) = some ⟨1, 0x80, 0xbf⟩ := by
      rw [Lead.ofByte?_ofNat (by omega), if_neg (by omega), if_neg (by omega), if_pos (by omega)]
    rw [List.cons_append, List.cons_append, List.nil_append,
      decodeLossyFrom_first hl (by decide), decodeLossyFrom_last (by omega) hlast.1 hlast.2]
    have hv : (v / 64 % 32 + 192) % 32 * 64 + (v % 64 + 128) % 64 = v := by omega
    simp only [Lead.bits, toNat_ofNat (show v / 64 % 32 + 192 < 256 by omega), hv, hc]
  · obtain ⟨low, high, hl, hlow, hhigh⟩ := lead_three (by omega) h3 (by omega)
    rw [List.cons_append, List.cons_append, List.cons_append, List.nil_append,
      decodeLossyFrom_first hl (Nat.succ_ne_zero _), decodeLossyFrom_inner (by omega) hlow hhigh,
      decodeLossyFrom_last (by omega) hlast.1 hlast.2]
    have hv : ((v / 4096 % 16 + 224) % 16 * 64 + (v / 64 % 64 + 128) % 64) * 64 +
        (v % 64 + 128) % 64 = v := by omega
    simp only [Lead.bits, toNat_ofNat (show v / 4096 % 16 + 224 < 256 by omega), hv, hc]
  · obtain ⟨low, high, hl, hlow, hhigh⟩ := lead_four (v := v) (by omega) (by omega)
    rw [List.cons_append, List.cons_append, List.cons_append, List.cons_append, List.nil_append,
      decodeLossyFrom_first hl (Nat.succ_ne_zero _), decodeLossyFrom_inner (by omega) hlow hhigh,
      decodeLossyFrom_inner (by omega) hinner.1 hinner.2,
      decodeLossyFrom_last (by omega) hlast.1 hlast.2]
    have hv : (((v / 262144 % 8 + 240) % 8 * 64 + (v / 4096 % 64 + 128) % 64) * 64 +
        (v / 64 % 64 + 128) % 64) * 64 + (v % 64 + 128) % 64 = v := by omega
    simp only [Lead.bits, toNat_ofNat (show v / 262144 % 8 + 240 < 256 by omega), hv, hc]

theorem decodeLossy_encode (s : String) : decodeLossy (encode s) = s := by
  have hchars : ∀ cs : List Char,
      decodeLossyFrom .between (cs.flatMap String.utf8EncodeChar) = cs := by
    intro cs
    induction cs with
    | nil => rfl
    | cons c cs ih => rw [List.flatMap_cons, decodeLossyFrom_char, ih]
  rw [decodeLossy, encode_eq, hchars, String.ofList_toList]

end CompiledModels.Text

namespace CompiledModels

open Json

def Printable (cs : List Char) : Prop := ∀ c ∈ cs, 0x20 ≤ c.toNat

instance (cs : List Char) : Decidable (Printable cs) :=
  List.decidableBAll (fun c : Char => 0x20 ≤ c.toNat) cs

namespace Printable

variable {c : Char} {cs ds : List Char}

theorem cons (hc : 0x20 ≤ c.toNat) (h : Printable cs) : Printable (c :: cs) :=
  List.forall_mem_cons.2 ⟨hc, h⟩

theorem append (h : Printable cs) (h' : Printable ds) : Printable (cs ++ ds) :=
  List.forall_mem_append.2 ⟨h, h'⟩

theorem sublist (h : Printable cs) (hs : ds.Sublist cs) : Printable ds :=
  fun c hc => h c (hs.mem hc)

theorem toDigits (n : Nat) : Printable (Nat.toDigits 10 n) := by
  intro c hc
  have hd := isDigit_toDigits hc
  simp only [Char.isDigit, Bool.and_eq_true, decide_eq_true_eq, ge_iff_le,
    UInt32.le_iff_toNat_le] at hd
  exact Nat.le_trans (by decide) hd.1

theorem nat (n : Nat) : Printable (toString n).toList := by
  change Printable (String.ofList (Nat.toDigits 10 n)).toList
  rw [String.toList_ofList]
  exact toDigits n

theorem zeros (n : Nat) : Printable (String.ofList (List.replicate n '0')).toList := by
  rw [String.toList_ofList]
  intro c hc
  rw [(List.mem_replicate.1 hc).2]
  decide

end Printable

theorem Decimal.printable_positional (d : Decimal) (places : Nat) :
    Printable (d.positional places).toList := by
  have hpoint {whole fraction : String} (hw : Printable whole.toList)
      (hf : Printable fraction.toList) :
      Printable (if fraction.isEmpty then whole else whole ++ "." ++ fraction).toList := by
    split
    · exact hw
    · rw [String.toList_append, String.toList_append]
      exact (hw.append (by decide)).append hf
  rw [positional]
  split
  · refine hpoint (.nat _) ?_
    rw [String.toList_append]
    exact .append (by decide) (.zeros _)
  · refine hpoint (.nat _) ?_
    rw [String.toList_append, String.toList_append]
    exact ((Printable.zeros _).append (.nat _)).append (.zeros _)

theorem Decimal.printable_scientific (d : Decimal) : Printable d.scientific.toList := by
  have hdigits := Printable.toDigits d.digits
  have hfirst : Printable (String.ofList ((Nat.toDigits 10 d.digits).take 1)).toList := by
    rw [String.toList_ofList]
    exact hdigits.sublist (List.take_sublist _ _)
  have hdrop : Printable (String.ofList ((Nat.toDigits 10 d.digits).drop 1)).toList := by
    rw [String.toList_ofList]
    exact hdigits.sublist (List.drop_sublist _ _)
  have hrest : Printable (if ((Nat.toDigits 10 d.digits).drop 1).isEmpty then "" else
      "." ++ String.ofList ((Nat.toDigits 10 d.digits).drop 1)).toList := by
    split
    · decide
    · rw [String.toList_append]
      exact .append (by decide) hdrop
  have hsign : Printable (if d.leading < 0 then "-" else "+").toList := by
    split <;> decide
  simp only [scientific, String.toList_append]
  exact (((hfirst.append hrest).append (by decide)).append hsign).append (.nat _)

theorem Binary64.printable_dataText (x : Binary64) : Printable x.dataText.toList := by
  have hsign : Printable (if x.isNegative then "-" else "").toList := by
    split <;> decide
  rw [dataText]
  split
  · decide
  · simp only
    split
    · rw [String.toList_append]
      exact hsign.append (Decimal.printable_positional _ _)
    · rw [String.toList_append]
      exact hsign.append (Decimal.printable_scientific _)

namespace Json

theorem Number.printable_text (n : Number) : Printable n.text.toList := by
  cases n with
  | natural n => exact .nat _
  | negative n =>
    rw [Number.text, String.toList_append]
    exact .append (by decide) (.nat _)
  | float x => exact x.printable_dataText

theorem printable_hexDigit : ∀ n < 0x10, 0x20 ≤ (Text.hexDigit n).toNat := by decide

theorem printable_escapeChar (c : Char) : Printable (escapeChar c) := by
  unfold escapeChar
  split
  case h_8 =>
    split
    · have hhigh : Printable [if c.toNat < 0x10 then '0' else '1'] := by
        split <;> decide
      have hlow : Printable [Text.hexDigit (c.toNat % 0x10)] :=
        .cons (printable_hexDigit _ (Nat.mod_lt _ (by decide))) (by decide)
      have hstart : Printable ['\\', 'u', '0', '0'] := by decide
      exact hstart.append (hhigh.append hlow)
    · exact .cons (by omega) (by decide)
  all_goals decide

theorem printable_stringText (s : String) : Printable (stringText s) := by
  have hchars : Printable (s.toList.flatMap escapeChar) := by
    intro c hc
    obtain ⟨d, -, hd⟩ := List.mem_flatMap.1 hc
    exact printable_escapeChar d c hd
  exact .cons (by decide) (hchars.append (by decide))

theorem printable_chars (v : Value) : Printable v.chars := by
  -- The induction goes along the writer: values, the fields of an object and the items of a list
  -- are printed by turns.
  apply Value.chars.induct (fun v => Printable v.chars) (fun fields => Printable (fieldsChars fields))
    (fun items => Printable (itemsChars items))
  case case1 => decide
  case case2 => decide
  case case3 => decide
  case case4 => exact fun n => n.printable_text
  case case5 => exact fun s => printable_stringText s
  case case6 => exact fun items ih => .cons (by decide) ih
  case case7 => exact fun fields ih => .cons (by decide) ih
  case case8 => decide
  case case9 => exact fun v ihv => ihv.append (by decide)
  case case10 =>
    intro v vs hvs ihv ihs
    rw [itemsChars]
    · exact ihv.append (.cons (by decide) ihs)
    · exact hvs
  case case11 => decide
  case case12 =>
    intro k v ihv
    exact ((printable_stringText k).append (.cons (by decide) ihv)).append (by decide)
  case case13 =>
    intro k v fields hfields ihv ihs
    rw [fieldsChars]
    · exact ((printable_stringText k).append (.cons (by decide) ihv)).append
        (.cons (by decide) ihs)
    · exact hfields

end Json

namespace Library

variable {α β : Type} (l : Library)

def Blameless {α : Type} (a : Except ModuleError α) : Prop :=
  ∀ message, a ≠ .error (.invalidArgument message)

theorem blameless_checked (o : Outcome α) {take : α → Traced β}
    (h : ∀ a, Blameless (take a).1) : Blameless (checked o take).1 := by
  intro message
  rw [checked]
  split
  · exact h _ message
  · split <;> simp

theorem blameless_takeValues (b : Option Buffer) : Blameless (takeValues b).1 := by
  cases b <;> simp [Blameless, takeValues]

theorem blameless_takeNames (b : Option Bytes) : Blameless (takeNames b).1 := by
  intro message
  cases b with
  | none => simp [takeNames]
  | some bytes =>
    rw [takeNames]
    split <;> simp

theorem blameless_request (text : String) (r : Request) : Blameless (l.request text r).2.1 := by
  cases r with
  | parameterCount => exact blameless_checked _ fun n => by simp [Blameless]
  | parameterNames kind => exact blameless_checked _ blameless_takeNames
  | constrain values transformed generated => exact blameless_checked _ blameless_takeValues
  | unconstrain values => exact blameless_checked _ blameless_takeValues
  | logDensity values jacobian => exact blameless_checked _ fun x => by simp [Blameless]
  | gradient values jacobian => exact blameless_checked _ blameless_takeValues

end Library

namespace ModelData

variable (d : ModelData)

theorem printable_text : Printable d.text.toList := by
  rw [text, Value.text, String.toList_ofList]
  exact printable_chars _

theorem zero_notMem_text : '\x00' ∉ d.text.toList := by
  intro h
  exact absurd (d.printable_text _ h) (by decide)

theorem answer_eq (l : Library) (r : Request) : l.answer d r =
    ((l.request d.text r).2.1,
      ((l.request d.text r).1 :: (l.request d.text r).2.2).map LibraryCall.text) := by
  have hany : d.text.any (· == '\x00') = false := by
    change d.text.contains (· == '\x00') = false
    rw [String.contains_bool_eq, List.any_eq_false]
    intro c hc h0
    exact d.zero_notMem_text (beq_iff_eq.1 h0 ▸ hc)
  rw [Library.answer]
  simp only [hany, Bool.false_eq_true, if_false]

/-- Data texts have no control characters: no operation of a library refuses them, and the string
that ends at the first zero byte is the whole text. -/
theorem text_crosses (d : ModelData) : Printable d.text.toList ∧
    (∀ rest : Bytes, (Text.encode d.text ++ 0 :: rest).takeWhile (· ≠ 0) = Text.encode d.text ∧
      Library.stringText (Text.encode d.text ++ 0 :: rest) = d.text) ∧
    ∀ (l : Library) (r : Request), l.services.answer d r =
        ((l.request d.text r).2.1,
          ((l.request d.text r).1 :: (l.request d.text r).2.2).map LibraryCall.text) ∧
      ∀ message, (l.services.answer d r).1 ≠ .error (.invalidArgument message) := by
  refine ⟨d.printable_text, fun rest => ?_, fun l r => ⟨d.answer_eq l r, ?_⟩⟩
  · have hread := Text.takeWhile_encode d.zero_notMem_text rest
    refine ⟨hread, ?_⟩
    rw [Library.stringText, hread, Text.decodeLossy_encode]
  · change Library.Blameless (l.answer d r).1
    rw [d.answer_eq l r]
    exact l.blameless_request d.text r

end ModelData

end CompiledModels
