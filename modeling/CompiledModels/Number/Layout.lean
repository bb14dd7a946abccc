import CompiledModels.Number.Shortest

namespace CompiledModels

def Decimal.positional (d : Decimal) (places : Nat) : String :=
  let point (whole fraction : String) : String :=
    let fraction := fraction ++ String.ofList (List.replicate (places - fraction.length) '0')
    if fraction.isEmpty then whole else whole ++ "." ++ fraction
  if 0 ≤ d.exponent then point (toString (d.digits * 10 ^ d.exponent.toNat)) ""
  else
    let below := (-d.exponent).toNat
    let fraction := toString (d.digits % 10 ^ below)
    let zeros := String.ofList (List.replicate (below - fraction.length) '0')
    point (toString (d.digits / 10 ^ below)) (zeros ++ fraction)

def Decimal.scientific (d : Decimal) : String :=
  let digits := Nat.toDigits 10 d.digits
  let rest := digits.drop 1
  let mantissa := String.ofList (digits.take 1) ++
    (if rest.isEmpty then "" else "." ++ String.ofList rest)
  let sign := if d.leading < 0 then "-" else "+"
  mantissa ++ "e" ++ sign ++ toString d.leading.natAbs

namespace Binary64

def plain (x : Binary64) : String :=
  if x.isNaN then "NaN"
  else
    let sign := if x.isNegative then "-" else ""
    if x.isInfinite then sign ++ "inf" else sign ++ x.shortest.positional 0

/-- The form of a number in a data text: positional with at least one decimal when the first
digit stands between `10 ^ -5` and `10 ^ 15`, scientific otherwise. There is no form for numbers
that are not finite; `null` stands for them. -/
def dataText (x : Binary64) : String :=
  if x.isNaN || x.isInfinite then "null"
  else
    let d := x.shortest
    let sign := if x.isNegative then "-" else ""
    if d.digits = 0 || (-5 ≤ d.leading && d.leading < 16) then sign ++ d.positional 1
    else sign ++ d.scientific

end Binary64

def roundHalfEven (n d : Nat) : Nat :=
  let q := n / d
  let twice := 2 * (n % d)
  if twice < d then q else if d < twice then q + 1 else if q % 2 = 0 then q else q + 1

def twoPlaces (hundredths : Nat) : String :=
  let rest := hundredths % 100
  toString (hundredths / 100) ++ "." ++ (if rest < 10 then "0" else "") ++ toString rest

def nearestBinary64 (n : Nat) : Nat :=
  let unit := 2 ^ (n.log2 - 52)
  roundHalfEven n unit * unit

structure SizeUnit where
  name : String
  bytes : Nat

def SizeUnit.all : List SizeUnit :=
  [⟨"GB", 1024 ^ 3⟩, ⟨"MB", 1024 ^ 2⟩, ⟨"KB", 1024⟩]

def formatSize (bytes : Nat) : String :=
  match SizeUnit.all.find? (·.bytes ≤ bytes) with
  | some u => twoPlaces (roundHalfEven (nearestBinary64 bytes * 100) u.bytes) ++ " " ++ u.name
  | none => toString bytes ++ " bytes"

end CompiledModels
