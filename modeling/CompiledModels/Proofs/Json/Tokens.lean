import CompiledModels.Json.Reader
import CompiledModels.Json.Skip

/-!
The grammar of data texts: which characters spell which value, and which are well formed whatever
they stand for.
-/

namespace CompiledModels.Json

def Spaces (cs : List Char) : Prop := ∀ c ∈ cs, isSpace c = true

def shortEscapes : List (Char × Char) :=
  [('"', '"'), ('\\', '\\'), ('/', '/'), ('b', '\x08'), ('f', '\x0c'), ('n', '\n'), ('r', '\r'),
    ('t', '\t')]

def IsPlain (c : Char) : Prop := 0x20 ≤ c.toNat ∧ c ≠ '"' ∧ c ≠ '\\'

def IsUnit (ds : List Char) (n : Nat) : Prop := ds.length = 4 ∧ Text.hexNumber? ds = some n

inductive Writes : List Char → List Char → Prop
  | nil : Writes [] []
  | plain {c : Char} {t s : List Char} (hc : IsPlain c) (ht : Writes t s) : Writes (c :: t) (c :: s)
  | short {l c : Char} {t s : List Char} (hc : (l, c) ∈ shortEscapes) (ht : Writes t s) :
      Writes ('\\' :: l :: t) (c :: s)
  | unit {ds : List Char} {n : Nat} {t s : List Char} (hd : IsUnit ds n)
      (hn : n < 0xd800 ∨ 0xdfff < n) (ht : Writes t s) :
      Writes ('\\' :: 'u' :: (ds ++ t)) (Char.ofNat n :: s)
  | pair {hs ls : List Char} {high low : Nat} {t s : List Char} (hh : IsUnit hs high)
      (hl : IsUnit ls low) (hhigh : 0xd800 ≤ high ∧ high ≤ 0xdbff)
      (hlow : 0xdc00 ≤ low ∧ low ≤ 0xdfff) (ht : Writes t s) :
      Writes ('\\' :: 'u' :: (hs ++ '\\' :: 'u' :: (ls ++ t)))
        (Char.ofNat (0x10000 + (high - 0xd800) * 0x400 + (low - 0xdc00)) :: s)

inductive Quotable : List Char → Prop
  | nil : Quotable []
  | plain {c : Char} {t : List Char} (hc : IsPlain c) (ht : Quotable t) : Quotable (c :: t)
  | short {l c : Char} {t : List Char} (hc : (l, c) ∈ shortEscapes) (ht : Quotable t) :
      Quotable ('\\' :: l :: t)
  | unit {ds : List Char} {n : Nat} {t : List Char} (hd : IsUnit ds n) (ht : Quotable t) :
      Quotable ('\\' :: 'u' :: (ds ++ t))

def commas : List (List Char) → List Char
  | [] => []
  | [t] => t
  | t :: ts => t ++ ',' :: commas ts

/-- A field of an object as it stands in a text. -/
structure Member where
  before : List Char
  keyText : List Char
  between : List Char
  text : List Char
  key : String

namespace Member

variable (f : Member)

def chars : List Char := f.before ++ '"' :: (f.keyText ++ '"' :: (f.between ++ ':' :: f.text))

structure Proper : Prop where
  before : Spaces f.before
  keyText : Writes f.keyText f.key.toList
  between : Spaces f.between

end Member

def listChars (ws : List Char) (items : List (List Char)) : List Char :=
  '[' :: (ws ++ (commas items ++ [']']))

def objectChars (ws : List Char) (members : List (List Char)) : List Char :=
  '\x7b' :: (ws ++ (commas members ++ ['\x7d']))

/-- The characters spell the value, with the fields of its objects as they stand in the text:
in any order, and any number of one key. A number that is not a whole one of the range of words is
the float that is read from it. White space may stand around every value. -/
inductive Spells : List Char → Value → Prop
  | null : Spells "null".toList .null
  | true : Spells "true".toList (.bool .true)
  | false : Spells "false".toList (.bool .false)
  | natural (n : UInt64) : Spells (Nat.toDigits 10 n.toNat) (.number (.natural n))
  | negative (n : Fin (2 ^ 63)) : Spells ('-' :: Nat.toDigits 10 (n + 1)) (.number (.negative n))
  | float {cs : List Char} {x : Binary64} (h : readNumber cs = .ok (.float x, [])) :
      Spells cs (.number (.float x))
  | string {t : List Char} {s : String} (h : Writes t s.toList) :
      Spells ('"' :: (t ++ ['"'])) (.string s)
  | list {ws : List Char} (hws : Spaces ws) (items : List (List Char × Value))
      (hi : ∀ i ∈ items, Spells i.1 i.2) :
      Spells (listChars ws (items.map (·.1))) (.list (items.map (·.2)))
  | object {ws : List Char} (hws : Spaces ws) (fields : List (Member × Value))
      (hm : ∀ f ∈ fields, f.1.Proper) (hv : ∀ f ∈ fields, Spells f.1.text f.2) :
      Spells (objectChars ws (fields.map (·.1.chars))) (.object (fields.map fun f => (f.1.key, f.2)))
  | before {c : Char} {cs : List Char} {v : Value} (hc : isSpace c = .true) (h : Spells cs v) :
      Spells (c :: cs) v
  | after {c : Char} {cs : List Char} {v : Value} (hc : isSpace c = .true) (h : Spells cs v) :
      Spells (cs ++ [c]) v

def IsDigits (ds : List Char) : Prop := ds ≠ [] ∧ ∀ d ∈ ds, d.isDigit = true

structure NumberText where
  sign : List Char
  whole : List Char
  fraction : List Char
  exponent : List Char

namespace NumberText

variable (n : NumberText)

def chars : List Char := n.sign ++ (n.whole ++ (n.fraction ++ n.exponent))

structure Proper : Prop where
  sign : n.sign = [] ∨ n.sign = ['-']
  whole : n.whole = ['0'] ∨ IsDigits n.whole ∧ n.whole.head? ≠ some '0'
  fraction : n.fraction = [] ∨ ∃ ds, IsDigits ds ∧ n.fraction = '.' :: ds
  exponent : n.exponent = [] ∨ ∃ e ∈ ['e', 'E'], ∃ sign ∈ [[], ['+'], ['-']], ∃ ds, IsDigits ds ∧
    n.exponent = e :: (sign ++ ds)

end NumberText

inductive Formed : List Char → Prop
  | null : Formed "null".toList
  | true : Formed "true".toList
  | false : Formed "false".toList
  | number {n : NumberText} (hn : n.Proper) : Formed n.chars
  | string {t : List Char} (ht : Quotable t) : Formed ('"' :: (t ++ ['"']))
  | list {ws : List Char} (hws : Spaces ws) (items : List (List Char)) (hi : ∀ i ∈ items, Formed i) :
      Formed (listChars ws items)
  | object {ws : List Char} (hws : Spaces ws) (members : List Member)
      (hb : ∀ f ∈ members, Spaces f.before ∧ Quotable f.keyText ∧ Spaces f.between)
      (hv : ∀ f ∈ members, Formed f.text) : Formed (objectChars ws (members.map (·.chars)))
  | before {c : Char} {cs : List Char} (hc : isSpace c = .true) (h : Formed cs) : Formed (c :: cs)
  | after {c : Char} {cs : List Char} (hc : isSpace c = .true) (h : Formed cs) : Formed (cs ++ [c])

end CompiledModels.Json

namespace CompiledModels.Json

variable {t s cs rest ds : List Char} {c : Char} {n : Nat}

theorem foldl_utf8Size (cs : List Char) (n : Nat) :
    cs.foldl (fun n c => n + c.utf8Size) n = n + byteCount cs := by
  induction cs generalizing n with
  | nil => rfl
  | cons c cs ih =>
    have h := ih (0 + c.utf8Size)
    rw [byteCount, List.foldl_cons, List.foldl_cons, h, ih]
    omega

theorem length_le_byteCount (cs : List Char) : cs.length ≤ byteCount cs := by
  induction cs with
  | nil => exact Nat.le_refl _
  | cons c cs ih =>
    have hc := c.utf8Size_pos
    rw [byteCount, List.foldl_cons, foldl_utf8Size, List.length_cons]
    omega

theorem readHex4_unit (h : IsUnit ds n) (rest : List Char) :
    readHex4 (ds ++ rest) = .ok (n, rest) := by
  obtain ⟨hlen, hn⟩ := h
  have hcount : ¬byteCount (ds ++ rest) < 4 := by
    have hle := length_le_byteCount (ds ++ rest)
    rw [List.length_append, hlen] at hle
    omega
  have htake : (ds ++ rest).take 4 = ds := hlen ▸ List.take_left
  have hdrop : (ds ++ rest).drop 4 = rest := hlen ▸ List.drop_left
  rw [readHex4, if_neg hcount, htake, hdrop, hn]

theorem readUnits_unit (h : IsUnit ds n) (hn : n < 0xd800 ∨ 0xdfff < n) (rest : List Char) :
    readUnits (ds ++ rest) = .ok (Char.ofNat n, rest) := by
  have hlow : ¬(0xdc00 ≤ n ∧ n ≤ 0xdfff) := by omega
  have hhigh : n < 0xd800 ∨ 0xdbff < n := by omega
  simp only [readUnits, readHex4_unit h, bind, Except.bind, if_neg hlow, if_pos hhigh]
  rfl

theorem readUnits_pair {hs ls : List Char} {high low : Nat} (hh : IsUnit hs high)
    (hl : IsUnit ls low) (hhigh : 0xd800 ≤ high ∧ high ≤ 0xdbff)
    (hlow : 0xdc00 ≤ low ∧ low ≤ 0xdfff) (rest : List Char) :
    readUnits (hs ++ '\\' :: 'u' :: (ls ++ rest)) =
      .ok (Char.ofNat (0x10000 + (high - 0xd800) * 0x400 + (low - 0xdc00)), rest) := by
  have hlone : ¬(0xdc00 ≤ high ∧ high ≤ 0xdfff) := by omega
  have hsingle : ¬(high < 0xd800 ∨ 0xdbff < high) := by omega
  have hsecond : ¬(low < 0xdc00 ∨ 0xdfff < low) := by omega
  simp only [readUnits, readHex4_unit hh, readHex4_unit hl, bind, Except.bind, if_neg hlone,
    if_neg hsingle, if_neg hsecond]
  rfl

theorem simpleEscape_short {l : Char} (h : (l, c) ∈ shortEscapes) :
    l ≠ 'u' ∧ simpleEscape? l = some c := by
  simp only [shortEscapes, List.mem_cons, Prod.mk.injEq, List.not_mem_nil, or_false] at h
  rcases h with ⟨rfl, rfl⟩ | ⟨rfl, rfl⟩ | ⟨rfl, rfl⟩ | ⟨rfl, rfl⟩ | ⟨rfl, rfl⟩ | ⟨rfl, rfl⟩ |
    ⟨rfl, rfl⟩ | ⟨rfl, rfl⟩
  all_goals exact ⟨by decide, rfl⟩

theorem readEscape_short {l : Char} (h : (l, c) ∈ shortEscapes) (rest : List Char) :
    readEscape (l :: rest) = .ok (c, rest) := by
  obtain ⟨hu, hl⟩ := simpleEscape_short h
  rw [readEscape]
  · rw [hl]
  · exact hu

theorem readChars_plain (hc : IsPlain c) (fuel : Nat) (cs : List Char) :
    readChars (fuel + 1) (c :: cs) = (readChars fuel cs).map fun r => (c :: r.1, r.2) := by
  obtain ⟨h, hq, hb⟩ := hc
  rw [readChars]
  · rw [if_neg (by omega)]
    cases readChars fuel cs <;> rfl
  · exact hq
  · exact hb

theorem readChars_escape (h : readEscape cs = .ok (c, rest)) (fuel : Nat) :
    readChars (fuel + 1) ('\\' :: cs) = (readChars fuel rest).map fun r => (c :: r.1, r.2) := by
  simp only [readChars, h, bind, Except.bind]
  cases readChars fuel rest <;> rfl

theorem readChars_writes (h : Writes t s) (rest : List Char) :
    ∀ fuel > s.length, readChars fuel (t ++ '"' :: rest) = .ok (s, rest) := by
  induction h with
  | nil =>
    rintro (_ | fuel) hf
    · simp at hf
    · rfl
  | plain hc ht ih =>
    rintro (_ | fuel) hf
    · simp at hf
    · rw [List.cons_append, readChars_plain hc, ih fuel (by simpa using hf)]
      rfl
  | short hc ht ih =>
    rintro (_ | fuel) hf
    · simp at hf
    · rw [List.cons_append, List.cons_append, readChars_escape (readEscape_short hc _),
        ih fuel (by simpa using hf)]
      rfl
  | @unit ds n t s hd hn ht ih =>
    rintro (_ | fuel) hf
    · simp at hf
    · have hread : readEscape ('u' :: (ds ++ (t ++ '"' :: rest))) = _ := readUnits_unit hd hn _
      rw [List.cons_append, List.cons_append, List.append_assoc, readChars_escape hread,
        ih fuel (by simpa using hf)]
      rfl
  | @pair hs ls high low t s hh hl hhigh hlow ht ih =>
    rintro (_ | fuel) hf
    · simp at hf
    · have hread : readEscape ('u' :: (hs ++ '\\' :: 'u' :: (ls ++ (t ++ '"' :: rest)))) = _ :=
        readUnits_pair hh hl hhigh hlow _
      have happ : '\\' :: 'u' :: (hs ++ '\\' :: 'u' :: (ls ++ t)) ++ '"' :: rest =
          '\\' :: 'u' :: (hs ++ '\\' :: 'u' :: (ls ++ (t ++ '"' :: rest))) := by simp
      rw [happ, readChars_escape hread, ih fuel (by simpa using hf)]
      rfl

theorem Writes.length_le (h : Writes t s) : s.length ≤ t.length := by
  induction h with
  | nil => exact Nat.le_refl _
  | plain hc ht ih => exact Nat.succ_le_succ ih
  | short hc ht ih => exact Nat.le_succ_of_le (Nat.succ_le_succ ih)
  | unit hd hn ht ih =>
    simp only [List.length_cons, List.length_append]
    omega
  | pair hh hl hhigh hlow ht ih =>
    simp only [List.length_cons, List.length_append]
    omega

theorem readString_writes {s : String} (h : Writes t s.toList) (rest : List Char) :
    readString (t ++ '"' :: rest) = .ok (s, rest) := by
  have hlen := h.length_le
  rw [readString, readChars_writes h rest]
  · simp [bind, Except.bind, pure, Except.pure]
  · rw [List.length_append, List.length_cons]
    omega

theorem isUnit_control : ∀ n < 0x20, IsUnit ['0', '0', if n < 0x10 then '0' else '1',
    Text.hexDigit (n % 0x10)] n := by
  have h : ∀ n < 0x20, Text.hexNumber? ['0', '0', if n < 0x10 then '0' else '1',
    Text.hexDigit (n % 0x10)] = some n := by decide
  exact fun n hn => ⟨rfl, h n hn⟩

theorem Writes.escapeChar (c : Char) (h : Writes t s) : Writes (escapeChar c ++ t) (c :: s) := by
  unfold Json.escapeChar
  split
  case h_8 hq hb _ _ _ _ _ =>
    split
    · rename_i hc
      have hunit := isUnit_control c.toNat hc
      have hwrites := Writes.unit hunit (.inl (by omega)) h
      rwa [Char.ofNat_toNat] at hwrites
    · exact .plain ⟨by omega, hq, hb⟩ h
  all_goals exact .short (by decide) h

theorem Writes.escaped (s : List Char) : Writes (s.flatMap Json.escapeChar) s := by
  induction s with
  | nil => exact .nil
  | cons c s ih => exact ih.escapeChar c

theorem skipString_plain (hc : IsPlain c) (fuel : Nat) (cs : List Char) :
    skipString (fuel + 1) (c :: cs) = skipString fuel cs := by
  obtain ⟨h, hq, hb⟩ := hc
  rw [skipString]
  · exact if_neg (by omega)
  · exact hq
  · exact hb

theorem skipString_quotable (h : Quotable t) (rest : List Char) :
    ∀ fuel > t.length, skipString fuel (t ++ '"' :: rest) = .ok rest := by
  induction h with
  | nil =>
    rintro (_ | fuel) hf
    · simp at hf
    · rfl
  | plain hc ht ih =>
    rintro (_ | fuel) hf
    · simp at hf
    · rw [List.cons_append, skipString_plain hc, ih fuel (by simpa using hf)]
  | @short l c t hc ht ih =>
    rintro (_ | fuel) hf
    · simp at hf
    · have hlen : fuel > t.length := by
        simp only [List.length_cons] at hf
        omega
      obtain ⟨hu, hl⟩ := simpleEscape_short hc
      rw [List.cons_append, List.cons_append, skipString]
      · rw [hl, ih fuel hlen]
        rfl
      · exact hu
  | @unit ds n t hd ht ih =>
    rintro (_ | fuel) hf
    · simp at hf
    · have hlen : fuel > t.length := by
        simp only [List.length_cons, List.length_append] at hf
        omega
      have hread := readHex4_unit hd (t ++ '"' :: rest)
      simp only [List.cons_append, List.append_assoc, skipString, hread, bind, Except.bind]
      exact ih fuel hlen

def EndsNumber : List Char → Prop
  | [] => True
  | c :: _ => c.isDigit = false ∧ c ≠ '.' ∧ c ≠ 'e' ∧ c ≠ 'E'

def StartsNoDigit : List Char → Prop
  | [] => True
  | c :: _ => c.isDigit = false

theorem EndsNumber.startsNoDigit (h : EndsNumber rest) : StartsNoDigit rest := by
  cases rest with
  | nil => trivial
  | cons c rest => exact h.1

theorem takeDigits_append (hr : StartsNoDigit rest) {sig sig' count : Nat} {full : Bool}
    {left : List Char} (h : takeDigits sig cs = (sig', count, full, left)) :
    takeDigits sig (cs ++ rest) = (sig', count, full, left ++ rest) := by
  induction cs generalizing sig sig' count full left with
  | nil =>
    simp only [takeDigits, Prod.mk.injEq] at h
    obtain ⟨rfl, rfl, rfl, rfl⟩ := h
    cases rest with
    | nil => rfl
    | cons c rest =>
      have hc : c.isDigit = false := hr
      simp [takeDigits, hc]
  | cons c cs ih =>
    rw [List.cons_append, takeDigits]
    rw [takeDigits] at h
    split at h
    · rename_i hc
      rw [if_pos hc]
      simp only at h ⊢
      split at h
      · rename_i hlt
        rw [if_pos hlt]
        rcases htake : takeDigits (sig * 10 + (c.toNat - 0x30)) cs with ⟨sig', count', full', left'⟩
        rw [htake] at h
        simp only [Prod.mk.injEq] at h
        obtain ⟨rfl, rfl, rfl, rfl⟩ := h
        simp only [ih htake]
      · rename_i hlt
        rw [if_neg hlt]
        simp only [Prod.mk.injEq] at h ⊢
        obtain ⟨rfl, rfl, rfl, rfl⟩ := h
        simp
    · rename_i hc
      rw [if_neg hc]
      simp only [Prod.mk.injEq] at h ⊢
      obtain ⟨rfl, rfl, rfl, rfl⟩ := h
      simp

theorem takeExponent_append (hr : StartsNoDigit rest) {e n : Nat} {left : List Char}
    (h : takeExponent e cs = (some n, left)) :
    takeExponent e (cs ++ rest) = (some n, left ++ rest) := by
  induction cs generalizing e with
  | nil =>
    simp only [takeExponent, Prod.mk.injEq, Option.some.injEq] at h
    obtain ⟨rfl, rfl⟩ := h
    cases rest with
    | nil => rfl
    | cons c rest =>
      have hc : c.isDigit = false := hr
      simp [takeExponent, hc]
  | cons c cs ih =>
    rw [List.cons_append, takeExponent]
    rw [takeExponent] at h
    split at h
    · rename_i hc
      rw [if_pos hc]
      simp only at h ⊢
      split at h
      · rename_i hlt
        rw [if_pos hlt]
        exact ih h
      · simp at h
    · rename_i hc
      rw [if_neg hc]
      simp only [Prod.mk.injEq, Option.some.injEq] at h ⊢
      obtain ⟨rfl, rfl⟩ := h
      simp

theorem dropWhile_append (hr : StartsNoDigit rest) (cs : List Char) :
    (cs ++ rest).dropWhile Char.isDigit = cs.dropWhile Char.isDigit ++ rest := by
  induction cs with
  | nil =>
    cases rest with
    | nil => rfl
    | cons c rest =>
      have hc : c.isDigit = false := hr
      simp [hc]
  | cons c cs ih =>
    by_cases hc : c.isDigit = true
    · simp [hc, ih]
    · simp [hc]

theorem takeWhile_append (hr : StartsNoDigit rest) (cs : List Char) :
    (cs ++ rest).takeWhile Char.isDigit = cs.takeWhile Char.isDigit := by
  induction cs with
  | nil =>
    cases rest with
    | nil => rfl
    | cons c rest =>
      have hc : c.isDigit = false := hr
      simp [hc]
  | cons c cs ih =>
    by_cases hc : c.isDigit = true
    · simp [hc, ih]
    · simp [hc]

section Reading

variable {negative : Bool} {sig : Nat} {e : Int} {x : Number}

theorem floatOfParts_append (rest : List Char) {left : List Char} (h : floatOfParts negative sig e left = .ok (x, [])) :
    left = [] ∧ floatOfParts negative sig e rest = .ok (x, rest) := by
  unfold floatOfParts at h ⊢
  split at h
  · simp only [Except.ok.injEq, Prod.mk.injEq] at h
    obtain ⟨rfl, rfl⟩ := h
    exact ⟨rfl, rfl⟩
  · simp at h

def readPower (negative : Bool) (sig : Nat) (e : Int) (down : Bool) (cs : List Char) :
    Except Failure (Number × List Char) :=
  match cs with
  | [] => .error (.at .endInValue [])
  | c :: cs =>
    if !c.isDigit then .error (.next .invalidNumber (c :: cs))
    else match takeExponent (c.toNat - 0x30) cs with
      | (some n, cs) => floatOfParts negative sig (if down then e - n else e + n) cs
      | (none, cs) =>
        if sig ≠ 0 ∧ !down then .error (.at .numberOutOfRange cs)
        else
          let zero := Binary64.zero
          .ok (.float (if negative then zero.negate else zero), cs.dropWhile Char.isDigit)

def exponentSign : List Char → Bool × List Char
  | '+' :: cs => (false, cs)
  | '-' :: cs => (true, cs)
  | cs => (false, cs)

theorem readExponent_eq : readExponent negative sig e cs =
    readPower negative sig e (exponentSign cs).1 (exponentSign cs).2 := rfl

theorem exponentSign_append (hcs : cs ≠ []) : exponentSign (cs ++ rest) =
    ((exponentSign cs).1, (exponentSign cs).2 ++ rest) := by
  cases cs with
  | nil => exact absurd rfl hcs
  | cons c cs =>
    by_cases hplus : c = '+'
    · subst hplus
      rfl
    · by_cases hminus : c = '-'
      · subst hminus
        rfl
      · simp [exponentSign, hplus, hminus]

theorem takeExponent_none_append {n : Nat} {left : List Char}
    (h : takeExponent n cs = (none, left)) :
    takeExponent n (cs ++ rest) = (none, left ++ rest) := by
  induction cs generalizing n with
  | nil => simp [takeExponent] at h
  | cons c cs ih =>
    rw [takeExponent] at h
    rw [List.cons_append, takeExponent]
    split at h
    · rename_i hc
      rw [if_pos hc]
      simp only at h ⊢
      split at h
      · rename_i hlt
        rw [if_pos hlt]
        exact ih h
      · rename_i hlt
        rw [if_neg hlt]
        simp only [Prod.mk.injEq, true_and] at h ⊢
        rw [h]
    · simp at h

theorem readPower_append {down : Bool} (hr : EndsNumber rest)
    (h : readPower negative sig e down cs = .ok (x, [])) :
    readPower negative sig e down (cs ++ rest) = .ok (x, rest) := by
  cases cs with
  | nil => simp [readPower] at h
  | cons c cs =>
    unfold readPower at h ⊢
    rw [List.cons_append]
    simp only at h ⊢
    split at h
    · simp at h
    · rw [if_neg ‹_›]
      split at h
      · rename_i n left htake
        obtain ⟨rfl, hfloat⟩ := floatOfParts_append rest h
        rw [takeExponent_append hr.startsNoDigit htake]
        exact hfloat
      · rename_i left htake
        rw [takeExponent_none_append htake]
        simp only
        split at h
        · simp at h
        · rw [if_neg ‹_›, dropWhile_append hr.startsNoDigit]
          simp only [Except.ok.injEq, Prod.mk.injEq] at h ⊢
          exact ⟨h.1, by rw [h.2, List.nil_append]⟩

theorem readExponent_append (hr : EndsNumber rest)
    (h : readExponent negative sig e cs = .ok (x, [])) :
    readExponent negative sig e (cs ++ rest) = .ok (x, rest) := by
  have hcs : cs ≠ [] := by
    rintro rfl
    simp [readExponent] at h
  rw [readExponent_eq] at h ⊢
  rw [exponentSign_append hcs]
  exact readPower_append hr h

theorem readFraction_append (hr : EndsNumber rest)
    (h : readFraction negative sig e cs = .ok (x, [])) :
    readFraction negative sig e (cs ++ rest) = .ok (x, rest) := by
  unfold readFraction at h ⊢
  rcases htake : takeDigits sig cs with ⟨sig', count, full, left⟩
  rw [htake] at h
  rw [takeDigits_append hr.startsNoDigit htake]
  simp only at h ⊢
  split at h
  · simp at h
  · rw [if_neg ‹_›, dropWhile_append hr.startsNoDigit]
    split at h
    · rename_i c cs' hdrop
      rw [hdrop, List.cons_append]
      simp only
      split at h
      · rw [if_pos ‹_›]
        exact readExponent_append hr h
      · exact absurd (floatOfParts_append [] h).1 (by simp)
    · rename_i hdrop
      rw [hdrop, List.nil_append]
      have hfloat := (floatOfParts_append rest h).2
      cases rest with
      | nil => exact hfloat
      | cons c rest =>
        obtain ⟨-, -, he, hE⟩ := hr
        simp only [he, hE, or_self, if_false]
        exact hfloat

theorem readRest_end {extra : Option Nat}
    (h : ∀ c left, cs = c :: left → c ≠ '.' ∧ c ≠ 'e' ∧ c ≠ 'E') :
    readRest negative sig extra cs = match extra with
      | none => .ok (wholeNumber negative sig, cs)
      | some n => floatOfParts negative sig n cs := by
  unfold readRest
  split
  · exact absurd rfl (h _ _ rfl).1
  · exact absurd rfl (h _ _ rfl).2.1
  · exact absurd rfl (h _ _ rfl).2.2
  · cases extra <;> rfl

theorem EndsNumber.head (hr : EndsNumber rest) :
    ∀ c left, rest = c :: left → c ≠ '.' ∧ c ≠ 'e' ∧ c ≠ 'E' := by
  rintro c left rfl
  exact hr.2

theorem readRest_append {extra : Option Nat} (hr : EndsNumber rest)
    (h : readRest negative sig extra cs = .ok (x, [])) :
    readRest negative sig extra (cs ++ rest) = .ok (x, rest) := by
  cases cs with
  | nil =>
    rw [readRest_end (by simp)] at h
    rw [List.nil_append, readRest_end hr.head]
    cases extra with
    | none =>
      simp only [Except.ok.injEq, Prod.mk.injEq, and_true] at h ⊢
      exact h
    | some n => exact (floatOfParts_append rest h).2
  | cons c cs =>
    by_cases hdot : c = '.'
    · subst hdot
      exact readFraction_append hr h
    by_cases he : c = 'e'
    · subst he
      exact readExponent_append hr h
    by_cases hE : c = 'E'
    · subst hE
      exact readExponent_append hr h
    -- nothing else is read to its end
    have hhead : ∀ d left, c :: cs = d :: left → d ≠ '.' ∧ d ≠ 'e' ∧ d ≠ 'E' := by
      rintro d left hd
      obtain ⟨rfl, -⟩ := List.cons.inj hd
      exact ⟨hdot, he, hE⟩
    rw [readRest_end hhead] at h
    cases extra with
    | none => simp at h
    | some n => simpa using (floatOfParts_append [] h).1

theorem readMagnitude_append (hr : EndsNumber rest)
    (h : readMagnitude negative cs = .ok (x, [])) :
    readMagnitude negative (cs ++ rest) = .ok (x, rest) := by
  cases cs with
  | nil => simp [readMagnitude] at h
  | cons c cs =>
    rw [List.cons_append]
    by_cases h0 : c = '0'
    · subst h0
      cases cs with
      | nil =>
        have hzero : readRest negative 0 none [] = .ok (x, []) := h
        have hrest := readRest_append hr hzero
        cases rest with
        | nil => exact h
        | cons c rest =>
          have hc : c.isDigit = false := hr.1
          simpa [readMagnitude, hc] using hrest
      | cons c cs =>
        rw [readMagnitude] at h
        rw [List.cons_append, readMagnitude]
        split at h
        · simp at h
        · rw [if_neg ‹_›]
          exact readRest_append hr h
    · rw [readMagnitude] at h ⊢
      · split at h
        · simp at h
        · rw [if_neg ‹_›]
          rcases htake : takeDigits (c.toNat - 0x30) cs with ⟨sig, count, full, left⟩
          rw [htake] at h
          rw [takeDigits_append hr.startsNoDigit htake]
          simp only at h ⊢
          split at h
          · rw [if_pos ‹_›, dropWhile_append hr.startsNoDigit, takeWhile_append hr.startsNoDigit]
            exact readRest_append hr h
          · rw [if_neg ‹_›]
            exact readRest_append hr h
      all_goals exact h0

theorem readNumber_append (hr : EndsNumber rest) (h : readNumber cs = .ok (x, [])) :
    readNumber (cs ++ rest) = .ok (x, rest) := by
  cases cs with
  | nil => simp [readNumber, readMagnitude] at h
  | cons c cs =>
    rw [List.cons_append]
    by_cases hminus : c = '-'
    · subst hminus
      exact readMagnitude_append hr h
    · rw [readNumber] at h ⊢
      · exact readMagnitude_append hr h
      all_goals
        intro cs' h'
        exact hminus (List.cons.inj h').1

theorem takeDigits_digits (ds : List Char) (hd : ∀ d ∈ ds, d.isDigit = true) (sig : Nat)
    (h : Nat.ofDigitChars 10 ds sig < 2 ^ 64) :
    takeDigits sig ds = (Nat.ofDigitChars 10 ds sig, ds.length, false, []) := by
  induction ds generalizing sig with
  | nil => simp [takeDigits]
  | cons d ds ih =>
    have hstep : sig * 10 + (d.toNat - 0x30) = 10 * sig + (d.toNat - '0'.toNat) := by
      rw [Nat.mul_comm]
      rfl
    rw [Nat.ofDigitChars_cons] at h ⊢
    have hle : 10 * sig + (d.toNat - '0'.toNat) ≤
        Nat.ofDigitChars 10 ds (10 * sig + (d.toNat - '0'.toNat)) := by
      have hpow : 0 < 10 ^ ds.length := Nat.pow_pos (by decide)
      rw [Nat.ofDigitChars_eq_ofDigitChars_zero]
      exact Nat.le_trans (Nat.le_mul_of_pos_left _ hpow) (Nat.le_add_right _ _)
    have hlt := Nat.lt_of_le_of_lt hle h
    rw [takeDigits, if_pos (hd d (by simp)), hstep]
    simp only [if_pos hlt, ih (fun d hd' => hd d (by simp [hd'])) _ h, List.length_cons]

theorem toDigits_cons {n : Nat} (hn : n ≠ 0) :
    ∃ d ds, Nat.toDigits 10 n = d :: ds ∧ d ≠ '0' := by
  induction n using Nat.strongRecOn with
  | _ n ih =>
    by_cases h : n < 10
    · refine ⟨n.digitChar, [], Nat.toDigits_of_lt_base h, ?_⟩
      have hd : ∀ k < 10, k ≠ 0 → Nat.digitChar k ≠ '0' := by decide
      exact hd n h hn
    · obtain ⟨d, ds, hds, hd⟩ := ih (n / 10) (by omega) (by omega)
      exact ⟨d, ds ++ [(n % 10).digitChar], by
        rw [Nat.toDigits_of_base_le (by decide) (by omega), hds, List.cons_append], hd⟩

theorem isDigit_toDigits {d : Char} (h : d ∈ Nat.toDigits 10 n) : d.isDigit = true :=
  Nat.isDigit_of_mem_toDigits (by decide) (by decide) h

theorem readMagnitude_toDigits (negative : Bool) (hn : n < 2 ^ 64) :
    readMagnitude negative (Nat.toDigits 10 n) = .ok (wholeNumber negative n, []) := by
  by_cases h0 : n = 0
  · subst h0
    rfl
  · obtain ⟨d, ds, hds, hd0⟩ := toDigits_cons h0
    have hdigit : ∀ c ∈ d :: ds, c.isDigit = true := fun c hc => isDigit_toDigits (hds ▸ hc)
    have hvalue : Nat.ofDigitChars 10 (d :: ds) 0 = n := hds ▸ Nat.ofDigitChars_ten_toDigits
    have hfirst : 10 * 0 + (d.toNat - '0'.toNat) = d.toNat - 0x30 := by
      rw [Nat.mul_zero, Nat.zero_add]
      rfl
    rw [Nat.ofDigitChars_cons, hfirst] at hvalue
    have htake := takeDigits_digits ds (fun c hc => hdigit c (List.mem_cons_of_mem _ hc))
      (d.toNat - 0x30) (hvalue.symm ▸ hn)
    rw [hvalue] at htake
    rw [hds, readMagnitude]
    · simp only [hdigit d List.mem_cons_self, Bool.not_true, Bool.false_eq_true, if_false, htake]
      rfl
    · exact hd0

theorem digit_ne {d c : Char} (hd : d.isDigit = true) (hc : c.isDigit = false) : d ≠ c := by
  rintro rfl
  rw [hd] at hc
  exact absurd hc (by decide)

theorem toDigits_head (n : Nat) : ∃ d ds, Nat.toDigits 10 n = d :: ds ∧ d.isDigit = true := by
  cases hds : Nat.toDigits 10 n with
  | nil => exact absurd hds Nat.toDigits_ne_nil
  | cons d ds => exact ⟨d, ds, rfl, isDigit_toDigits (hds ▸ List.mem_cons_self)⟩

theorem readNumber_natural (n : UInt64) :
    readNumber (Nat.toDigits 10 n.toNat) = .ok (.natural n, []) := by
  have hread := readMagnitude_toDigits false n.toNat_lt
  have hwhole : wholeNumber false n.toNat = .natural n := by simp [wholeNumber]
  obtain ⟨d, ds, hds, hd⟩ := toDigits_head n.toNat
  rw [hwhole, hds] at hread
  rw [hds, readNumber]
  · exact hread
  · intro cs h
    exact digit_ne hd (by decide) (List.cons.inj h).1

theorem readNumber_negative (n : Fin (2 ^ 63)) :
    readNumber ('-' :: Nat.toDigits 10 (n + 1)) = .ok (.negative n, []) := by
  have hn := n.isLt
  have hwhole : wholeNumber true (n.val + 1) = .negative n := by
    have hpos : 0 < n.val + 1 ∧ n.val + 1 ≤ 2 ^ 63 := by omega
    rw [wholeNumber, if_neg (by decide), dif_pos hpos]
    rfl
  exact hwhole ▸ readMagnitude_toDigits true (by omega)

end Reading

theorem dropWhile_digits (hd : ∀ d ∈ ds, d.isDigit = true) (hr : StartsNoDigit rest) :
    (ds ++ rest).dropWhile Char.isDigit = rest := by
  rw [List.dropWhile_append_of_pos hd]
  cases rest with
  | nil => rfl
  | cons c rest =>
    have hc : c.isDigit = false := hr
    simp [hc]

theorem skipExponent_digits {sign : List Char} (hs : sign ∈ [[], ['+'], ['-']]) (hd : IsDigits ds)
    (hr : StartsNoDigit rest) : skipExponent (sign ++ (ds ++ rest)) = .ok rest := by
  obtain ⟨hne, hdigit⟩ := hd
  obtain ⟨d, ds, rfl⟩ := List.exists_cons_of_ne_nil hne
  have hfirst : d.isDigit = true := hdigit d List.mem_cons_self
  have hrest := dropWhile_digits (fun c hc => hdigit c (List.mem_cons_of_mem _ hc)) hr
  have hplus : d ≠ '+' := digit_ne hfirst (by decide)
  have hminus : d ≠ '-' := digit_ne hfirst (by decide)
  simp only [List.mem_cons, List.not_mem_nil, or_false] at hs
  rcases hs with rfl | rfl | rfl
  · simp [skipExponent, hplus, hminus, hfirst, hrest]
  · simp [skipExponent, hfirst, hrest]
  · simp [skipExponent, hfirst, hrest]

inductive Tail (rest : List Char) : List Char → Prop
  | none : Tail rest rest
  | exponent {e : Char} (he : e ∈ ['e', 'E']) {sign ds : List Char} (hs : sign ∈ [[], ['+'], ['-']])
      (hd : IsDigits ds) : Tail rest (e :: (sign ++ (ds ++ rest)))

theorem Tail.startsNoDigit (hr : EndsNumber rest) (h : Tail rest cs) : StartsNoDigit cs := by
  cases h with
  | none => exact hr.startsNoDigit
  | exponent he hs hd =>
    simp only [List.mem_cons, List.not_mem_nil, or_false] at he
    rcases he with rfl | rfl <;> rfl

theorem skipFraction_digits (hd : IsDigits ds) (hr : EndsNumber rest) (h : Tail rest cs) :
    skipFraction (ds ++ cs) = .ok rest := by
  have hdrop := dropWhile_digits hd.2 (h.startsNoDigit hr)
  obtain ⟨d, ds, rfl⟩ := List.exists_cons_of_ne_nil hd.1
  have hfirst : d.isDigit = true := hd.2 d List.mem_cons_self
  rw [List.cons_append] at hdrop ⊢
  simp only [skipFraction, hfirst, Bool.not_true, Bool.false_eq_true, if_false, hdrop]
  cases h with
  | none =>
    split
    · exact absurd rfl (hr.head _ _ rfl).2.1
    · exact absurd rfl (hr.head _ _ rfl).2.2
    · rfl
  | exponent he hs hd =>
    simp only [List.mem_cons, List.not_mem_nil, or_false] at he
    rcases he with rfl | rfl
    · exact skipExponent_digits hs hd hr.startsNoDigit
    · exact skipExponent_digits hs hd hr.startsNoDigit

theorem skipNumberRest_tail (hr : EndsNumber rest) (h : Tail rest cs) :
    skipNumberRest cs = .ok rest := by
  cases h with
  | none =>
    unfold skipNumberRest
    split
    · exact absurd rfl (hr.head _ _ rfl).1
    · exact absurd rfl (hr.head _ _ rfl).2.1
    · exact absurd rfl (hr.head _ _ rfl).2.2
    · rfl
  | exponent he hs hd =>
    simp only [List.mem_cons, List.not_mem_nil, or_false] at he
    rcases he with rfl | rfl
    · exact skipExponent_digits hs hd hr.startsNoDigit
    · exact skipExponent_digits hs hd hr.startsNoDigit

theorem NumberText.Proper.tail {n : NumberText} (hn : n.Proper) (rest : List Char) :
    Tail rest (n.exponent ++ rest) := by
  rcases hn.exponent with h | ⟨e, he, sign, hs, ds, hd, h⟩
  · rw [h]
    exact .none
  · rw [h, List.cons_append, List.append_assoc]
    exact .exponent he hs hd

theorem skipMagnitude_text {n : NumberText} (hn : n.Proper) (hr : EndsNumber rest) :
    skipMagnitude (n.whole ++ (n.fraction ++ (n.exponent ++ rest))) = .ok rest := by
  have htail := hn.tail rest
  have hafter : skipNumberRest (n.fraction ++ (n.exponent ++ rest)) = .ok rest ∧
      StartsNoDigit (n.fraction ++ (n.exponent ++ rest)) := by
    rcases hn.fraction with h | ⟨ds, hd, h⟩
    · rw [h, List.nil_append]
      exact ⟨skipNumberRest_tail hr htail, htail.startsNoDigit hr⟩
    · rw [h, List.cons_append]
      exact ⟨skipFraction_digits hd hr htail, rfl⟩
  obtain ⟨hskip, hstart⟩ := hafter
  generalize n.fraction ++ (n.exponent ++ rest) = cs at hskip hstart ⊢
  rcases hn.whole with h | ⟨hd, h0⟩
  · rw [h, List.cons_append, List.nil_append]
    cases cs with
    | nil => exact hskip
    | cons c cs =>
      have hc : c.isDigit = false := hstart
      rw [skipMagnitude, if_neg (by simp [hc])]
      exact hskip
  · have hdrop := dropWhile_digits hd.2 hstart
    obtain ⟨d, ds, hds⟩ := List.exists_cons_of_ne_nil hd.1
    have hfirst : d.isDigit = true := hd.2 d (hds ▸ List.mem_cons_self)
    rw [hds, List.cons_append] at hdrop ⊢
    rw [List.dropWhile_cons_of_pos hfirst] at hdrop
    rw [skipMagnitude]
    · rw [if_pos hfirst, hdrop, hskip]
    · rintro rfl
      simp [hds] at h0

end CompiledModels.Json
