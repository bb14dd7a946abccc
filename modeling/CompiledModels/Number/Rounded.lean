import CompiledModels.Number.Power

namespace CompiledModels

def roundDiv (num den : Nat) : Nat :=
  let q := num / den
  let r := 2 * (num % den)
  if r < den then q else if den < r then q + 1 else if q % 2 = 0 then q else q + 1

inductive Magnitude
  | ratio (num den : Nat)
  | infinite
  | undefined
  deriving DecidableEq

structure Rounded where
  negative : Bool
  magnitude : Magnitude
  deriving DecidableEq

namespace Rounded

/-- The precision of a kind of numbers: the digits of the mantissa, and the least and the greatest
exponent of its last digit. -/
structure Precision where
  digits : Nat
  least : Int
  most : Int

def double : Precision := ⟨53, -1074, 971⟩

def extended : Precision := ⟨64, -16445, 16320⟩

def scaled (num den : Nat) (e : Int) : Nat :=
  if 0 ≤ e then roundDiv num (den * 2 ^ e.toNat) else roundDiv (num * 2 ^ (-e).toNat) den

def ofRatio (p : Precision) (num den : Nat) : Magnitude :=
  if num = 0 then .ratio 0 1
  else
    let size : Int := (Nat.log2 num : Int) - (Nat.log2 den : Int)
    let e := size - p.digits
    let e := if 2 ^ p.digits ≤ scaled num den e then e + 1 else e
    let e := if 2 ^ p.digits ≤ scaled num den e then e + 1 else e
    let e := max e p.least
    let m := scaled num den e
    let (m, e) := if 2 ^ p.digits ≤ m then (m / 2, e + 1) else (m, e)
    if p.most < e then .infinite
    else if 0 ≤ e then .ratio (m * 2 ^ e.toNat) 1 else .ratio m (2 ^ (-e).toNat)

def digitOf (c : Char) : Nat :=
  if c.isDigit then c.toNat - 0x30 else (c.toLower.toNat - 0x61) + 10

def isHexDigit (c : Char) : Bool := c.isDigit || ('a' ≤ c.toLower && c.toLower ≤ 'f')

def exponent? (cs : List Char) : Option (Int × List Char) :=
  let (negative, cs) := match cs with
    | '-' :: cs => (true, cs)
    | '+' :: cs => (false, cs)
    | cs => (false, cs)
  let digits := cs.takeWhile Char.isDigit
  if digits.isEmpty then none
  else
    let n : Int := min ((String.ofList digits).toNat?.getD 0) 100000
    some (if negative then -n else n, cs.drop digits.length)

/-- The digits of a number in a base, with a point among them: their value without the point, how
many stand behind it, and the rest. -/
def digitsOf? (isDigit : Char → Bool) (base : Nat) (cs : List Char) :
    Option (Nat × Nat × List Char) :=
  let whole := cs.takeWhile isDigit
  let rest := cs.drop whole.length
  let (fraction, rest) := match rest with
    | '.' :: more =>
      let f := more.takeWhile isDigit
      if whole.isEmpty && f.isEmpty then ([], rest) else (f, more.drop f.length)
    | _ => ([], rest)
  if whole.isEmpty && fraction.isEmpty then none
  else
    some ((whole ++ fraction).foldl (fun n c => n * base + digitOf c) 0, fraction.length, rest)

def startsWithWord (word : String) (cs : List Char) : Bool :=
  word.toList.isPrefixOf (cs.map Char.toLower)

def magnitude? (p : Precision) (cs : List Char) : Option (Magnitude × List Char) :=
  if startsWithWord "infinity" cs then some (.infinite, cs.drop 8)
  else if startsWithWord "inf" cs then some (.infinite, cs.drop 3)
  else if startsWithWord "nan" cs then some (.undefined, cs.drop 3)
  else
    let hexadecimal := match cs with
      | '0' :: x :: cs => if x == 'x' || x == 'X' then digitsOf? isHexDigit 16 cs else none
      | _ => none
    match hexadecimal with
    | some (n, places, rest) =>
      let (e, rest) := match rest with
        | c :: more =>
          if c == 'p' || c == 'P' then (exponent? more).getD (0, rest) else (0, rest)
        | [] => (0, rest)
      let e := e - 4 * places
      some (if 0 ≤ e then ofRatio p (n * 2 ^ e.toNat) 1 else ofRatio p n (2 ^ (-e).toNat), rest)
    | none =>
      (digitsOf? Char.isDigit 10 cs).map fun (n, places, rest) =>
        let (e, rest) := match rest with
          | c :: more =>
            if c == 'e' || c == 'E' then (exponent? more).getD (0, rest) else (0, rest)
          | [] => (0, rest)
        let e := e - places
        (if n = 0 then .ratio 0 1
          else if 20000 < e then .infinite
          else if 0 ≤ e then ofRatio p (n * 10 ^ e.toNat) 1
          else if e < -20000 then .ratio 0 1
          else ofRatio p n (10 ^ (-e).toNat), rest)

def read (p : Precision) (cs : List Char) : Rounded × List Char :=
  let start := cs.dropWhile fun c => c == ' ' || ('\t' ≤ c && c ≤ '\x0d')
  let (negative, start) := match start with
    | '-' :: cs => (true, cs)
    | '+' :: cs => (false, cs)
    | cs => (false, cs)
  match magnitude? p start with
  | some (m, rest) => (⟨negative, m⟩, rest)
  | none => (⟨false, .ratio 0 1⟩, cs)

def zeros (n : Nat) : String := String.ofList (List.replicate n '0')

def withPoint (places : Nat) (point : Bool) (n : Nat) : String :=
  let digits := toString n
  let digits := zeros (places + 1 - digits.length) ++ digits
  let whole := (digits.take (digits.length - places)).toString
  let fraction := (digits.drop (digits.length - places)).toString
  whole ++ (if places = 0 && !point then "" else "." ++ fraction)

def fixed (places : Nat) (point : Bool) (num den : Nat) : String :=
  withPoint places point (roundDiv (num * 10 ^ places) den)

def leading (count num den : Nat) : Int × Nat :=
  let guess : Int := ((toString num).length : Int) - ((toString den).length : Int)
  let digitsAt (x : Int) : Nat :=
    let shift := (count : Int) - 1 - x
    if 0 ≤ shift then roundDiv (num * 10 ^ shift.toNat) den
    else roundDiv num (den * 10 ^ (-shift).toNat)
  let exact (x : Int) : Bool :=
    if 0 ≤ x then den * 10 ^ x.toNat ≤ num else den ≤ num * 10 ^ (-x).toNat
  let x := if exact guess then guess else guess - 1
  let n := digitsAt x
  if 10 ^ count ≤ n then (x + 1, n / 10) else (x, n)

def exponentText (letter : Char) (x : Int) : String :=
  let digits := toString x.natAbs
  letter.toString ++ (if x < 0 then "-" else "+") ++ zeros (2 - digits.length) ++ digits

def scientific (letter : Char) (places : Nat) (point : Bool) (num den : Nat) : String :=
  if num = 0 then withPoint places point 0 ++ exponentText letter 0
  else
    let (x, n) := leading (places + 1) num den
    withPoint places point n ++ exponentText letter x

def stripped (s : String) : String :=
  if s.contains '.' then
    let cs := s.toList.reverse.dropWhile (· == '0')
    String.ofList ((if cs.head? == some '.' then cs.drop 1 else cs).reverse)
  else s

def general (letter : Char) (count : Nat) (point : Bool) (num den : Nat) : String :=
  let count := max count 1
  let x : Int := if num = 0 then 0 else (leading count num den).1
  if -4 ≤ x && x < count then
    let s := fixed ((count : Int) - 1 - x).toNat point num den
    if point then s else stripped s
  else
    let s := scientific letter (count - 1) point num den
    if point then s
    else
      let mantissa := s.toList.takeWhile (· != letter)
      stripped (String.ofList mantissa) ++ String.ofList (s.toList.drop mantissa.length)

def hexadecimal (p : Precision) (lead : Nat) (num den : Nat) : String :=
  if num = 0 then "0x0p+0"
  else
    let size : Int := (Nat.log2 num : Int) - (Nat.log2 den : Int)
    let below := if 0 ≤ size then num < den * 2 ^ size.toNat else num * 2 ^ (-size).toNat < den
    let x := if below then size - 1 else size
    let e := x - (p.digits - 1 : Nat)
    let m := scaled num den e
    let places := (p.digits - lead + 3) / 4
    let m := m * 2 ^ (4 * places - (p.digits - lead))
    let front := m / 16 ^ places
    let digits := String.ofList (Nat.toDigits 16 (m % 16 ^ places))
    let digits := zeros (places - digits.length) ++ digits
    let digits := String.ofList (digits.toList.reverse.dropWhile (· == '0')).reverse
    let x := x - (lead - 1 : Nat)
    "0x" ++ String.ofList (Nat.toDigits 16 front) ++ (if digits.isEmpty then "" else "." ++ digits) ++
      "p" ++ (if x < 0 then "-" else "+") ++ toString x.natAbs

end Rounded

end CompiledModels
