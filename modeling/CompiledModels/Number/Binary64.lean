import CompiledModels.Number.Power

/-!
Binary64 floating-point numbers as their 64 bits. Arithmetic goes through `Float`; the bits stay
visible, so that a NaN keeps its sign and payload where it is only passed on.
-/

namespace CompiledModels

structure Binary64 where
  bits : UInt64
  deriving DecidableEq

namespace Binary64

def ofFloat (x : Float) : Binary64 := ⟨x.toBits⟩

def toFloat (x : Binary64) : Float := Float.ofBits x.bits

def isNegative (x : Binary64) : Bool := x.bits >>> 63 == 1

def exponentField (x : Binary64) : Nat := (x.bits.toNat / 2 ^ 52) % 2 ^ 11

def fractionField (x : Binary64) : Nat := x.bits.toNat % 2 ^ 52

def isNaN (x : Binary64) : Bool := x.exponentField == 2047 && x.fractionField != 0

def isInfinite (x : Binary64) : Bool := x.exponentField == 2047 && x.fractionField == 0

def positiveInfinity : Binary64 := ⟨0x7ff0000000000000⟩

def zero : Binary64 := ⟨0⟩

def quietNaN : Binary64 := ⟨0x7ff8000000000000⟩

def ofNat (n : Nat) : Binary64 := ofFloat (Float.ofScientific n false 0)

structure Magnitude where
  significand : Nat
  exponent : Int

def magnitude (x : Binary64) : Magnitude :=
  if x.exponentField = 0 then ⟨x.fractionField, -1074⟩
  else ⟨2 ^ 52 + x.fractionField, (x.exponentField : Int) - 1075⟩

def negate (x : Binary64) : Binary64 := ⟨x.bits ^^^ 0x8000000000000000⟩

end Binary64

end CompiledModels
