import TriggerCompiler.Single.Basic

/-!
Decimal text of single-precision numbers. The digits are the fewest that read back as the same
number, and of the shortest decimals the one nearest to it, a tie going up. The choice is made in
exact natural-number arithmetic. Two layouts use the digits: the plain one is always positional,
the marked one keeps a fraction on whole numbers and changes to an exponent for the very large and
the very small.
-/

namespace TriggerCompiler

/-- The decimal `digits * 10 ^ exponent`. -/
structure Decimal where
  digits : Nat
  exponent : Int
  deriving DecidableEq

namespace Decimal

/-- Number of decimal digits of a natural number. -/
def digitCount (n : Nat) : Nat := (Nat.toDigits 10 n).length

/-- The fraction `num * 2 ^ e / 10 ^ u` as numerator and denominator, whatever the signs of the two
exponents. -/
def scaled (num : Nat) (e u : Int) : Nat × Nat :=
  ((num * Nat.pow 10 (-u).toNat) <<< e.toNat, Nat.pow 10 u.toNat <<< (-e).toNat)

/-- The exponent `k` of the leading decimal digit: `10 ^ k ≤ num / den < 10 ^ (k + 1)`, for a
positive fraction. -/
def leadingExponent (num den : Nat) : Int :=
  if den ≤ num then (digitCount (num / den) - 1 : Nat)
  else -(digitCount ((den + num - 1) / num - 1) : Int)

/-- Drops the trailing zeros of the digits, at most `fuel` of them. -/
def stripZeros : Nat → Decimal → Decimal
  | 0, d => d
  | fuel + 1, d =>
    if d.digits ≠ 0 ∧ d.digits % 10 = 0 then stripZeros fuel ⟨d.digits / 10, d.exponent + 1⟩ else d

/-- The reals that round to a number, as multiples of a quarter of its last place. -/
structure Interval where
  low : Nat
  high : Nat
  closed : Bool

/-- Whether `d * 10 ^ u` lies in the interval, whose unit is `2 ^ e`. -/
def Interval.contains (i : Interval) (e u : Int) (d : Nat) : Bool :=
  let (lowNum, lowDen) := scaled i.low e u
  let (highNum, highDen) := scaled i.high e u
  if i.closed then lowNum ≤ d * lowDen && d * highDen ≤ highNum
  else lowNum < d * lowDen && d * highDen < highNum

/-- The decimal with last place `10 ^ u` inside the interval that is nearest to
`value * 2 ^ e`, a tie going up; none if the two neighbours of the value lie outside. -/
def onGrid (i : Interval) (value : Nat) (e u : Int) : Option Nat :=
  let (num, den) := scaled value e u
  let below := num / den
  let nearerBelow := 2 * (num % den) < den
  match i.contains e u below, i.contains e u (below + 1) with
  | true, true => some (if nearerBelow then below else below + 1)
  | true, false => some below
  | false, true => some (below + 1)
  | false, false => none

/-- The fewest digits that read back as the single-precision magnitude
`significand * 2 ^ exponent`. A power of two has its lower neighbour half as far away. -/
def shortest (significand : Nat) (exponent : Int) : Decimal :=
  let value := 4 * significand
  let e := exponent - 2
  let interval : Interval :=
    ⟨if significand = 1 <<< 23 then value - 1 else value - 2, value + 2, significand % 2 = 0⟩
  let (num, den) := scaled value e 0
  let leading := leadingExponent num den
  let found := (List.range 10).findSome? fun (more : Nat) =>
    let u := leading - (more : Int)
    (onGrid interval value e u).map fun d => stripZeros 10 ⟨d, u⟩
  found.getD ⟨0, 0⟩

/-- The digits as characters. -/
def characters (d : Decimal) : List Char := Nat.toDigits 10 d.digits

/-- Positional layout, with `.0` after a whole number if `markWhole`. -/
def positional (markWhole : Bool) (d : Decimal) : List Char :=
  let digits := d.characters
  if d.exponent ≥ 0 then
    digits ++ List.replicate d.exponent.toNat '0' ++ (if markWhole then ['.', '0'] else [])
  else
    let places := (-d.exponent).toNat
    if places < digits.length then
      digits.take (digits.length - places) ++ '.' :: digits.drop (digits.length - places)
    else ['0', '.'] ++ List.replicate (places - digits.length) '0' ++ digits

/-- Layout with one digit before the point and an exponent. -/
def scientific (d : Decimal) : List Char :=
  let digits := d.characters
  let power := d.exponent + (digits.length : Int) - 1
  let tail := digits.drop 1
  digits.take 1 ++ (if tail.isEmpty then [] else '.' :: tail) ++ 'e' :: (toString power).toList

/-- The exponent of the leading digit. -/
def leadingPlace (d : Decimal) : Int := d.exponent + (digitCount d.digits : Int) - 1

end Decimal

namespace Single

/-- The sign and the layout of the shortest digits; an infinite number is written `inf`. -/
def layout (finite : Decimal → List Char) (x : Single) : String :=
  let body :=
    match x.magnitude with
    | .infinite => ['i', 'n', 'f']
    | .finite 0 _ => finite ⟨0, 0⟩
    | .finite significand exponent => finite (Decimal.shortest significand exponent)
  String.ofList (if x.isNegative then '-' :: body else body)

/-- The plain text: positional, whole numbers without a point. -/
def text (x : Single) : String := x.layout (Decimal.positional false)

/-- The marked text: whole numbers keep `.0`, and numbers outside `10 ^ -4` to `10 ^ 16` are
written with an exponent. -/
def markedText (x : Single) : String :=
  x.layout fun d =>
    if d.digits ≠ 0 && (d.leadingPlace < -4 || d.leadingPlace ≥ 16) then d.scientific
    else d.positional true

end Single

end TriggerCompiler
