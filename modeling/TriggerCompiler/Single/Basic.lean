import TriggerCompiler.Single.Rounding

/-!
Single-precision numbers. A number is its 32 bits, so that two numbers are the same exactly when
their bits are: the two zeros differ. Numbers come from integers, rounded once, or from decimal
fractions, rounded to double precision first and then to single precision.
-/

namespace TriggerCompiler

/-- A single-precision number: a sign bit, eight bits of exponent, 23 bits of fraction. -/
structure Single where
  bits : UInt32
  deriving DecidableEq, Inhabited

namespace Single

/-- The number with the given sign and magnitude. -/
def ofMagnitude (negative : Bool) (magnitude : Magnitude) : Single :=
  let sign : Nat := if negative then 1 <<< 31 else 0
  let rest : Nat :=
    match magnitude with
    | .infinite => 255 <<< 23
    | .finite significand exponent =>
      if significand < 1 <<< 23 then significand
      else (exponent + 150).toNat <<< 23 + (significand - (1 <<< 23))
  ⟨UInt32.ofNat (sign + rest)⟩

/-- Whether the sign bit is set. -/
def isNegative (x : Single) : Bool := x.bits.toNat ≥ 1 <<< 31

/-- The eight exponent bits. -/
def exponentField (x : Single) : Nat := (x.bits.toNat >>> 23) % 256

/-- The 23 fraction bits. -/
def fractionField (x : Single) : Nat := x.bits.toNat % (1 <<< 23)

/-- The magnitude that the bits stand for. -/
def magnitude (x : Single) : Magnitude :=
  if x.exponentField = 255 then .infinite
  else if x.exponentField = 0 then .finite x.fractionField (-149)
  else .finite (1 <<< 23 + x.fractionField) ((x.exponentField : Int) - 150)

/-- The number nearest to an integer. -/
def ofInt (n : Int) : Single :=
  ofMagnitude (n < 0) (BinaryFormat.single.nearest n.natAbs 1)

/-- The number for a decimal fraction already rounded to double precision. -/
def ofDouble (negative : Bool) (double : Magnitude) : Single :=
  ofMagnitude negative (BinaryFormat.single.nearestMagnitude double)

/-- Zero, with the sign bit clear. -/
def zero : Single := ⟨0⟩

/-- Whether the number is greater than zero. -/
def isPositive (x : Single) : Bool :=
  0 < x.bits.toNat && x.bits.toNat ≤ 255 <<< 23

end Single

end TriggerCompiler
