import CompiledModels.Number.Binary64

namespace CompiledModels

def digitValue (c : Char) : Nat := c.toNat - 0x30

def digitsValue (cs : List Char) : Nat := cs.foldl (fun n c => n * 10 + digitValue c) 0

def readNatural? (limit : Nat) (s : String) : Option Nat :=
  let digits := match s.toList with
    | '+' :: cs => cs
    | cs => cs
  if digits.isEmpty || !digits.all Char.isDigit then none
  else
    let n := digitsValue digits
    if n ≤ limit then some n else none

namespace Binary64

/-- The number nearest to `digits * 10 ^ exponent`. Exponents so far out that the result is
certainly infinite or zero are not raised. -/
def ofDecimal (negative : Bool) (digits : Nat) (exponent : Int) : Binary64 :=
  let x : Binary64 :=
    if digits = 0 then zero
    else
      let leading := exponent + (Nat.toDigits 10 digits).length
      if 400 < leading then positiveInfinity
      else if leading < -400 then zero
      else ofFloat (Float.ofScientific digits (exponent < 0) exponent.natAbs)
  if negative then x.negate else x

def readExponent? : List Char → Option Int
  | [] => some 0
  | c :: cs =>
    if c ≠ 'e' ∧ c ≠ 'E' then none
    else
      let (negative, digits) := match cs with
        | '-' :: ds => (true, ds)
        | '+' :: ds => (false, ds)
        | ds => (false, ds)
      if digits.isEmpty || !digits.all Char.isDigit then none
      else
        let n : Int := digitsValue digits
        some (if negative then -n else n)

def readUnsigned? (negative : Bool) (cs : List Char) : Option Binary64 := do
  let whole := cs.takeWhile Char.isDigit
  let rest := cs.dropWhile Char.isDigit
  let (fraction, rest) := match rest with
    | '.' :: ds => (ds.takeWhile Char.isDigit, ds.dropWhile Char.isDigit)
    | ds => ([], ds)
  if whole.isEmpty && fraction.isEmpty then none
  else
    let e ← readExponent? rest
    some (ofDecimal negative (digitsValue (whole ++ fraction)) (e - fraction.length))

def read? (s : String) : Option Binary64 :=
  let (negative, cs) := match s.toList with
    | '-' :: cs => (true, cs)
    | '+' :: cs => (false, cs)
    | cs => (false, cs)
  let special (x : Binary64) : Option Binary64 := some (if negative then x.negate else x)
  match String.ofList (cs.map Char.toLower) with
  | "inf" | "infinity" => special positiveInfinity
  | "nan" => special quietNaN
  | _ => readUnsigned? negative cs

end Binary64

end CompiledModels
