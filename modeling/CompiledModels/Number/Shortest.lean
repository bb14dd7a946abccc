import CompiledModels.Number.Binary64

namespace CompiledModels

structure Decimal where
  digits : Nat
  exponent : Int
  deriving DecidableEq

namespace Decimal

def width (n : Nat) : Nat := (Nat.toDigits 10 n).length

def dropZeros : Nat → Decimal → Decimal
  | 0, d => d
  | fuel + 1, d =>
    if d.digits ≠ 0 ∧ d.digits % 10 = 0 then dropZeros fuel ⟨d.digits / 10, d.exponent + 1⟩ else d

def trimmed (d : Decimal) : Decimal := dropZeros (width d.digits) d

def leading (d : Decimal) : Int := d.exponent + width d.digits - 1

end Decimal

structure RoundingInterval where
  value : Nat
  low : Nat
  high : Nat
  denominator : Nat
  closed : Bool

namespace RoundingInterval

def ofMagnitude (x : Binary64.Magnitude) : RoundingInterval :=
  let m := x.significand
  let up := 2 ^ x.exponent.toNat
  let below := if m = 2 ^ 52 ∧ x.exponent ≠ -1074 then 1 else 2
  { value := 4 * m * up, low := (4 * m - below) * up, high := (4 * m + 2) * up
    denominator := 4 * 2 ^ (-x.exponent).toNat, closed := m % 2 = 0 }

def contains (i : RoundingInterval) (n : Nat) (k : Int) : Bool :=
  let point := n * 10 ^ k.toNat * i.denominator
  let scale := 10 ^ (-k).toNat
  if i.closed then i.low * scale ≤ point && point ≤ i.high * scale
  else i.low * scale < point && point < i.high * scale

def floorAt (i : RoundingInterval) (k : Int) : Nat :=
  i.value * 10 ^ (-k).toNat / (i.denominator * 10 ^ k.toNat)

def lowerIsNearer (i : RoundingInterval) (n : Nat) (k : Int) : Bool :=
  let twice := 2 * i.value * 10 ^ (-k).toNat
  let middle := (2 * n + 1) * 10 ^ k.toNat * i.denominator
  twice < middle || (twice == middle && n % 2 == 0)

def neighbour? (i : RoundingInterval) (k : Int) : Option Nat :=
  let n := i.floorAt k
  match i.contains n k, i.contains (n + 1) k with
  | true, true => some (if i.lowerIsNearer n k then n else n + 1)
  | true, false => some n
  | false, true => some (n + 1)
  | false, false => none

def leading (i : RoundingInterval) : Int :=
  (Decimal.width (i.value * 10 ^ 400 / i.denominator) : Int) - 401

def search (i : RoundingInterval) : Nat → Int → Decimal
  | 0, k => ⟨i.floorAt k, k⟩
  | tries + 1, k =>
    match i.neighbour? k with
    | some n => ⟨n, k⟩
    | none => search i tries (k - 1)

end RoundingInterval

def Binary64.shortest (x : Binary64) : Decimal :=
  if x.magnitude.significand = 0 then ⟨0, 0⟩
  else
    let i := RoundingInterval.ofMagnitude x.magnitude
    (i.search 17 i.leading).trimmed

end CompiledModels
