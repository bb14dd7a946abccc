import CompiledModels.Number.Layout
import Mathlib.Algebra.Order.Field.Rat
import Mathlib.Algebra.Order.Ring.Abs
import Mathlib.Tactic.Linarith
import Mathlib.Tactic.NormNum

/-!
Sizes as people read them: what a text tells is nearest to the count of bytes, and a greater count
is never told as a smaller size.
-/

namespace CompiledModels

/-- A size as a text tells it: a number, and how many bytes its unit holds. -/
structure ToldSize where
  number : ℚ
  unit : Nat

namespace ToldSize

def bytes (s : ToldSize) : ℚ := s.number * s.unit

def readNumber? (cs : List Char) : Option ℚ :=
  let whole : ℚ := (Nat.ofDigitChars 10 (cs.takeWhile Char.isDigit) 0 : Nat)
  match cs.dropWhile Char.isDigit with
  | [] => some whole
  | '.' :: ds =>
    if ds.all Char.isDigit then
      some (whole + (Nat.ofDigitChars 10 ds 0 : Nat) / (10 ^ ds.length : Nat))
    else none
  | _ => none

def readUnit? : String → Option Nat
  | "bytes" => some 1
  | "KB" => some 1024
  | "MB" => some (1024 ^ 2)
  | "GB" => some (1024 ^ 3)
  | _ => none

def read? (s : String) : Option ToldSize :=
  match s.toList.dropWhile (· ≠ ' ') with
  | ' ' :: unit => do
    return ⟨← readNumber? (s.toList.takeWhile (· ≠ ' ')), ← readUnit? (String.ofList unit)⟩
  | _ => none

end ToldSize

section Rounding

variable {n n' d k : Nat}

theorem roundHalfEven_near (hd : 0 < d) :
    2 * n ≤ 2 * (roundHalfEven n d * d) + d ∧ 2 * (roundHalfEven n d * d) ≤ 2 * n + d ∧
    (2 * n = 2 * (roundHalfEven n d * d) + d ∨ 2 * (roundHalfEven n d * d) = 2 * n + d →
      Even (roundHalfEven n d)) := by
  have hn : n / d * d + n % d = n := Nat.div_add_mod' n d
  have hr : n % d < d := Nat.mod_lt n hd
  have hnext : (n / d + 1) * d = n / d * d + d := Nat.succ_mul _ _
  simp only [roundHalfEven]
  split
  · exact ⟨by omega, by omega, by omega⟩
  · split
    · rw [hnext]
      exact ⟨by omega, by omega, by omega⟩
    · split
      case isTrue heven => exact ⟨by omega, by omega, fun _ => Nat.even_iff.mpr heven⟩
      case isFalse hodd =>
        rw [hnext]
        exact ⟨by omega, by omega, fun _ => Nat.even_iff.mpr (by omega)⟩

theorem roundHalfEven_mul (k : Nat) (hd : 0 < d) : roundHalfEven (k * d) d = k := by
  simp [roundHalfEven, Nat.mul_div_cancel k hd, hd]

theorem roundHalfEven_mono (hd : 0 < d) (h : n ≤ n') : roundHalfEven n d ≤ roundHalfEven n' d := by
  obtain ⟨hlow, hhigh, heven⟩ := roundHalfEven_near (n := n) hd
  obtain ⟨hlow', hhigh', heven'⟩ := roundHalfEven_near (n := n') hd
  by_contra hlt
  have hstep : (roundHalfEven n' d + 1) * d ≤ roundHalfEven n d * d :=
    Nat.mul_le_mul_right d (by omega)
  rw [Nat.succ_mul] at hstep
  -- Both are a half away from one number between them, so they would be even neighbours.
  have hnext : roundHalfEven n d * d = (roundHalfEven n' d + 1) * d := by
    rw [Nat.succ_mul]
    omega
  have heq := Nat.eq_of_mul_eq_mul_right hd hnext
  have h₁ := Nat.even_iff.mp (heven (by rw [heq, Nat.succ_mul]; omega))
  have h₂ := Nat.even_iff.mp (heven' (by rw [heq, Nat.succ_mul] at hhigh; omega))
  omega

theorem nearestBinary64_exact (hn : n < 2 ^ 53) : nearestBinary64 n = n := by
  have hlog : n.log2 - 52 = 0 := by
    by_cases h0 : n = 0
    · simp [h0]
    · have := (Nat.log2_lt h0).mpr hn
      omega
  have hone := roundHalfEven_mul n Nat.one_pos
  rw [Nat.mul_one] at hone
  simp [nearestBinary64, hlog, hone]

end Rounding

section Text

theorem takeWhile_digits {cs : List Char} (h : ∀ c ∈ cs, c.isDigit = true) (rest : List Char)
    (hr : ∀ c ∈ rest.head?, c.isDigit = false) :
    (cs ++ rest).takeWhile Char.isDigit = cs ∧ (cs ++ rest).dropWhile Char.isDigit = rest := by
  rw [List.takeWhile_append_of_pos h, List.dropWhile_append_of_pos h]
  cases rest with
  | nil => simp
  | cons c rest => simp [hr c (by simp)]

theorem digits_toString (n : Nat) : (∀ c ∈ (toString n).toList, c.isDigit = true) ∧
    Nat.ofDigitChars 10 (toString n).toList 0 = n := by
  rw [Nat.toString_eq_ofList_toDigits, String.toList_ofList]
  exact ⟨fun c hc => Nat.isDigit_of_mem_toDigits (by decide) (by decide) hc, Nat.ofDigitChars_ten_toDigits⟩

theorem digits_places {r : Nat} (hr : r < 100) :
    let ds := ((if r < 10 then "0" else "") ++ toString r).toList
    ds.all Char.isDigit = true ∧ ds.length = 2 ∧ Nat.ofDigitChars 10 ds 0 = r := by
  revert r
  decide

namespace ToldSize

theorem readNumber?_toString (n : Nat) : readNumber? (toString n).toList = some (n : ℚ) := by
  obtain ⟨hdigits, hvalue⟩ := digits_toString n
  obtain ⟨htake, hdrop⟩ := takeWhile_digits hdigits [] (by simp)
  rw [List.append_nil] at htake hdrop
  simp only [readNumber?, htake, hdrop, hvalue]

theorem readNumber?_twoPlaces (h : Nat) : readNumber? (twoPlaces h).toList = some (h / 100 : ℚ) := by
  obtain ⟨hdigits, hvalue⟩ := digits_toString (h / 100)
  obtain ⟨hall, hlength, hplaces⟩ := digits_places (Nat.mod_lt h (show 0 < 100 by decide))
  have htext : (twoPlaces h).toList = (toString (h / 100)).toList ++
      '.' :: ((if h % 100 < 10 then "0" else "") ++ toString (h % 100)).toList := by
    simp [twoPlaces]
  obtain ⟨htake, hdrop⟩ := takeWhile_digits hdigits
    ('.' :: ((if h % 100 < 10 then "0" else "") ++ toString (h % 100)).toList) (by simp)
  have hsplit : ((h / 100 * 100 + h % 100 : Nat) : ℚ) = h := by rw [Nat.div_add_mod']
  push_cast at hsplit
  simp only [readNumber?, htext, htake, hdrop, hall, hlength, hplaces, hvalue, if_true,
    Option.some.injEq]
  norm_num
  linarith

theorem read?_append {number unit : String} {q : ℚ} {u : Nat}
    (hs : ∀ c ∈ number.toList, c ≠ ' ') (hq : readNumber? number.toList = some q)
    (hu : readUnit? unit = some u) : read? (number ++ " " ++ unit) = some ⟨q, u⟩ := by
  have hs' : ∀ c ∈ number.toList, decide (c ≠ ' ') = true := by simpa using hs
  have htext : (number ++ " " ++ unit).toList = number.toList ++ ' ' :: unit.toList := by simp
  have htake : (number ++ " " ++ unit).toList.takeWhile (· ≠ ' ') = number.toList := by
    rw [htext, List.takeWhile_append_of_pos hs']
    simp
  have hdrop : (number ++ " " ++ unit).toList.dropWhile (· ≠ ' ') = ' ' :: unit.toList := by
    rw [htext, List.dropWhile_append_of_pos hs']
    simp
  simp only [read?, htake, hdrop, hq, String.ofList_toList, hu]
  rfl

end ToldSize

end Text

theorem SizeUnit.find_all (n : Nat) :
    (n < 1024 ∧ all.find? (·.bytes ≤ n) = none) ∨
    ∃ u ∈ all, all.find? (·.bytes ≤ n) = some u ∧ u.bytes ≤ n ∧ (n < 1024 * u.bytes ∨ u.bytes = 1024 ^ 3) := by
  by_cases hgb : 1024 ^ 3 ≤ n
  · exact .inr ⟨⟨"GB", 1024 ^ 3⟩, by simp [all], by simp [all]; omega, hgb, .inr rfl⟩
  by_cases hmb : 1024 ^ 2 ≤ n
  · exact .inr ⟨⟨"MB", 1024 ^ 2⟩, by simp [all], by simp [all]; omega, hmb, .inl (by simpa using hgb)⟩
  by_cases hkb : 1024 ≤ n
  · exact .inr ⟨⟨"KB", 1024⟩, by simp [all], by simp [all]; omega, hkb, .inl (by simpa using hmb)⟩
  · exact .inl ⟨by omega, by simp [all]; omega⟩

theorem SizeUnit.mem_all : ∀ u ∈ all, u.bytes ∈ [1, 1024, 1024 ^ 2, 1024 ^ 3] ∧
    1024 ≤ u.bytes ∧ u.bytes ≤ 1024 ^ 3 ∧ ToldSize.readUnit? u.name = some u.bytes := by
  decide

theorem SizeUnit.le_of_lt : ∀ u ∈ all, ∀ v ∈ all, u.bytes < v.bytes → 1024 * u.bytes ≤ v.bytes := by
  decide

namespace ToldSize

def rounded (n unit : Nat) : ToldSize := ⟨roundHalfEven (n * 100) unit / 100, unit⟩

inductive Of (n : Nat) : ToldSize → Prop
  | plain (h : n < 1024) : Of n ⟨n, 1⟩
  | rounded {u : SizeUnit} (hu : u ∈ SizeUnit.all) (hle : u.bytes ≤ n)
      (hlt : n < 1024 * u.bytes ∨ u.bytes = 1024 ^ 3) : Of n (rounded n u.bytes)

variable {n a b : Nat} {s s' : ToldSize}

theorem twoPlaces_ne_space (h : Nat) : ∀ c ∈ (twoPlaces h).toList, c ≠ ' ' := by
  rintro c hc rfl
  have hdigit (n : Nat) : ' ' ∉ (toString n).toList := fun hm => by
    simpa using (digits_toString n).1 ' ' hm
  simp only [twoPlaces, String.toList_append, List.mem_append] at hc
  rcases hc with ((hc | hc) | hc) | hc
  · exact hdigit _ hc
  · revert hc
    decide
  · split at hc <;> revert hc <;> decide
  · exact hdigit _ hc

theorem read?_formatSize (hn : n < 2 ^ 53) : ∃ s, read? (formatSize n) = some s ∧ Of n s := by
  rcases SizeUnit.find_all n with ⟨hlt, hnone⟩ | ⟨u, hu, hsome, hle, hlt⟩
  · refine ⟨_, ?_, .plain hlt⟩
    have hspace : ∀ c ∈ (toString n).toList, c ≠ ' ' := fun c hc h => by
      simpa [h] using (digits_toString n).1 c hc
    have htext : formatSize n = toString n ++ " " ++ "bytes" := by
      rw [String.append_assoc, formatSize, hnone]
      rfl
    rw [htext]
    exact read?_append hspace (readNumber?_toString n) rfl
  · refine ⟨_, ?_, .rounded hu hle hlt⟩
    obtain ⟨-, -, -, hunit⟩ := SizeUnit.mem_all u hu
    rw [formatSize, hsome]
    simp only [nearestBinary64_exact hn]
    exact read?_append (twoPlaces_ne_space _) (readNumber?_twoPlaces _) hunit

/-- The text tells `n` bytes: at most five thousandths of its unit away, and a half of the last
place goes to the even neighbour. -/
structure Tells (s : ToldSize) (n : Nat) : Prop where
  unit : s.unit ∈ [1, 1024, 1024 ^ 2, 1024 ^ 3]
  near : |s.bytes - n| ≤ 5 / 1000 * s.unit
  tie : |s.bytes - n| = 5 / 1000 * s.unit → ∃ k : Nat, Even k ∧ s.number = k / 100

theorem tells_of (h : Of n s) : s.Tells n := by
  cases h with
  | plain h =>
    refine ⟨by simp, ?_, ?_⟩
    all_goals norm_num [bytes]
  | @rounded u hu hle hlt =>
    obtain ⟨hmem, hbig, -⟩ := SizeUnit.mem_all u hu
    obtain ⟨hlow, hhigh, heven⟩ := roundHalfEven_near (n := n * 100) (d := u.bytes) (by omega)
    have hlow' : (2 * (n * 100) : ℚ) ≤
      2 * (roundHalfEven (n * 100) u.bytes * u.bytes) + u.bytes := mod_cast hlow
    have hhigh' : 2 * (roundHalfEven (n * 100) u.bytes * u.bytes) ≤
      (2 * (n * 100) + u.bytes : ℚ) := mod_cast hhigh
    have hbytes : (rounded n u.bytes).bytes = roundHalfEven (n * 100) u.bytes * u.bytes / 100 :=
      div_mul_eq_mul_div _ _ _
    refine ⟨hmem, ?_, fun htie => ⟨_, heven ?_, rfl⟩⟩
    · rw [hbytes, rounded, abs_le]
      constructor <;> linarith
    · rw [hbytes, rounded, abs_eq (by positivity)] at htie
      rcases htie with h | h
      · right
        have : (2 * (roundHalfEven (n * 100) u.bytes * u.bytes) : ℚ) = 2 * (n * 100) + u.bytes := by linarith
        exact mod_cast this
      · left
        have : (2 * (n * 100) : ℚ) = 2 * (roundHalfEven (n * 100) u.bytes * u.bytes) + u.bytes := by linarith
        exact mod_cast this

theorem le_rounded {u : Nat} (hu : 0 < u) (h : u ≤ n) : (u : ℚ) ≤ (rounded n u).bytes := by
  have hmono := roundHalfEven_mono hu (Nat.mul_le_mul_right 100 h)
  rw [Nat.mul_comm u, roundHalfEven_mul _ hu] at hmono
  have hmul : (100 * u : ℚ) ≤ roundHalfEven (n * 100) u * u := mod_cast Nat.mul_le_mul_right u hmono
  rw [bytes, rounded]
  linarith

theorem rounded_le {u : Nat} (hu : 0 < u) (h : n ≤ 1024 * u) : (rounded n u).bytes ≤ 1024 * u := by
  have hmono := roundHalfEven_mono hu (Nat.mul_le_mul_right 100 h)
  rw [Nat.mul_right_comm, roundHalfEven_mul _ hu] at hmono
  have hmul : (roundHalfEven (n * 100) u * u : ℚ) ≤ 1024 * 100 * u :=
    mod_cast Nat.mul_le_mul_right u hmono
  rw [bytes, rounded]
  linarith

theorem rounded_mono {u : Nat} (hu : 0 < u) (h : a ≤ b) : (rounded a u).bytes ≤ (rounded b u).bytes := by
  have hmono := roundHalfEven_mono hu (Nat.mul_le_mul_right 100 h)
  have hmul : (roundHalfEven (a * 100) u * u : ℚ) ≤ roundHalfEven (b * 100) u * u :=
    mod_cast Nat.mul_le_mul_right u hmono
  rw [bytes, rounded, bytes, rounded]
  linarith

theorem bytes_le_of (ha : Of a s) (hb : Of b s') (h : a ≤ b) : s.bytes ≤ s'.bytes := by
  cases ha with
  | plain ha =>
    have hs : bytes ⟨a, 1⟩ = a := by simp [bytes]
    cases hb with
    | plain hb => simpa [bytes] using h
    | @rounded v hv hle hlt =>
      obtain ⟨-, hbig, -⟩ := SizeUnit.mem_all v hv
      calc bytes ⟨a, 1⟩ = a := hs
        _ ≤ v.bytes := mod_cast (show a ≤ v.bytes by omega)
        _ ≤ _ := le_rounded (by omega) hle
  | @rounded u hu hle hlt =>
    obtain ⟨-, hbig, hgreatest, -⟩ := SizeUnit.mem_all u hu
    cases hb with
    | plain hb => omega
    | @rounded v hv hle' hlt' =>
      obtain ⟨-, hbig', hgreatest', -⟩ := SizeUnit.mem_all v hv
      rcases lt_trichotomy u.bytes v.bytes with hlt'' | heq | hgt
      · have hnext := SizeUnit.le_of_lt u hu v hv hlt''
        calc (rounded a u.bytes).bytes ≤ 1024 * u.bytes := rounded_le (by omega) (by omega)
          _ ≤ v.bytes := mod_cast hnext
          _ ≤ _ := le_rounded (by omega) hle'
      · rw [← heq]
        exact rounded_mono (by omega) h
      · have hnext := SizeUnit.le_of_lt v hv u hu hgt
        omega

end ToldSize

/-- What the text of a size tells is as near to the count as two places allow, and the order of
the counts is kept, also where the unit changes. -/
theorem formatSize_tells {a b : Nat} (h : a ≤ b) (hb : b < 2 ^ 53) :
    ∃ s t, ToldSize.read? (formatSize a) = some s ∧ ToldSize.read? (formatSize b) = some t ∧
      s.Tells a ∧ t.Tells b ∧ s.bytes ≤ t.bytes := by
  obtain ⟨s, hs, ha⟩ := ToldSize.read?_formatSize (h.trans_lt hb)
  obtain ⟨t, ht, hb⟩ := ToldSize.read?_formatSize hb
  exact ⟨s, t, hs, ht, ToldSize.tells_of ha, ToldSize.tells_of hb, ToldSize.bytes_le_of ha hb h⟩

/-- Just below a megabyte, where the rounding reaches the next unit. -/
theorem formatSize_tells_at_megabyte : ∃ s t,
    ToldSize.read? (formatSize 1048575) = some s ∧ ToldSize.read? (formatSize 1048576) = some t ∧
      s.Tells 1048575 ∧ t.Tells 1048576 ∧ s.bytes ≤ t.bytes :=
  formatSize_tells (by decide) (by decide)

end CompiledModels
