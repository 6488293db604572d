/-!
Rounding an exact fraction to a binary floating-point format: to the nearest number of the format,
and at a tie to the one whose significand is even. Products and quotients in a format are the exact
ones, rounded once. All arithmetic is on natural numbers.
-/

namespace TriggerCompiler

/-- A binary floating-point format. A finite number of it is `significand * 2 ^ exponent` with a
significand below `2 ^ precision` and an exponent between the two bounds. -/
structure BinaryFormat where
  precision : Nat
  leastExponent : Int
  greatestExponent : Int

/-- A magnitude of a binary format. -/
inductive Magnitude where
  | finite (significand : Nat) (exponent : Int)
  | infinite
  deriving DecidableEq

/-- The quotient rounded to the nearest natural number, a half to the even neighbour. -/
def roundHalfEven (num den : Nat) : Nat :=
  let quotient := num / den
  let rest := 2 * (num % den)
  if rest < den then quotient
  else if den < rest then quotient + 1
  else quotient + quotient % 2

/-- The greatest `k` with `2 ^ k ≤ num / den`, for a positive fraction. -/
def floorLog2 (num den : Nat) : Int :=
  let guess : Int := (num.log2 : Int) - (den.log2 : Int)
  let reached :=
    if guess ≥ 0 then den <<< guess.toNat ≤ num else den ≤ num <<< (-guess).toNat
  if reached then guess else guess - 1

namespace BinaryFormat

/-- Single precision: 24 bits of significand. -/
def single : BinaryFormat := ⟨24, -149, 104⟩

/-- Double precision: 53 bits of significand. -/
def double : BinaryFormat := ⟨53, -1074, 971⟩

/-- The magnitude of the format nearest to `num / den`. -/
def nearest (format : BinaryFormat) (num den : Nat) : Magnitude :=
  if num = 0 then .finite 0 format.leastExponent
  else
    let wanted := floorLog2 num den - (format.precision - 1 : Nat)
    let exponent := max wanted format.leastExponent
    let significand :=
      if exponent ≥ 0 then roundHalfEven num (den <<< exponent.toNat)
      else roundHalfEven (num <<< (-exponent).toNat) den
    let (significand, exponent) :=
      if significand = 1 <<< format.precision then (significand / 2, exponent + 1)
      else (significand, exponent)
    if exponent > format.greatestExponent then .infinite else .finite significand exponent

/-- The magnitude of the format nearest to `num / den * 2 ^ exponent`. -/
def nearestScaled (format : BinaryFormat) (num den : Nat) (exponent : Int) : Magnitude :=
  format.nearest (num <<< exponent.toNat) (den <<< (-exponent).toNat)

/-- The magnitude of the format nearest to a magnitude of another format. -/
def nearestMagnitude (format : BinaryFormat) : Magnitude → Magnitude
  | .infinite => .infinite
  | .finite significand exponent => format.nearestScaled significand 1 exponent

/-- The product of two magnitudes, rounded to the format. -/
def product (format : BinaryFormat) : Magnitude → Magnitude → Magnitude
  | .finite a i, .finite b j => format.nearestScaled (a * b) 1 (i + j)
  | _, _ => .infinite

/-- The quotient of two magnitudes, rounded to the format. The divisor is neither zero nor
infinite. -/
def quotient (format : BinaryFormat) : Magnitude → Magnitude → Magnitude
  | .finite a i, .finite b j => format.nearestScaled a b (i - j)
  | _, _ => .infinite

end BinaryFormat

end TriggerCompiler
