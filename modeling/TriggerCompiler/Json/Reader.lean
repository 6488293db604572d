import TriggerCompiler.Json.Basic
import TriggerCompiler.Single.Rounding

/-!
Reading JSON text. The reader takes the whole text or nothing: a text with anything after its value,
a raw control character or half of a surrogate pair in a string, a fraction beyond double precision,
or more than 127 nested arrays and objects is not accepted.
-/

namespace TriggerCompiler

namespace JsonNumber

/-- The power of ten, rounded to double precision. -/
def powerOfTen (exponent : Nat) : Magnitude := BinaryFormat.double.nearest (Nat.pow 10 exponent) 1

/-- The double-precision magnitude that `digits * 10 ^ exponent` is read as. The digits and the power
of ten are rounded first, and then their product or quotient, so that it need not be the nearest one.
Powers beyond `10 ^ 308` are out of reach: a small number is divided by `10 ^ 308` first and is zero
if that does not suffice, and a large one is infinite. -/
def doubleMagnitude (digits : Nat) (exponent : Int) : Magnitude :=
  let double := BinaryFormat.double
  let whole := double.nearest digits 1
  if digits = 0 ∨ exponent < -616 then .finite 0 (-1074)
  else if exponent > 308 then .infinite
  else if exponent ≥ 0 then double.product whole (powerOfTen exponent.toNat)
  else if exponent ≥ -308 then double.quotient whole (powerOfTen (-exponent).toNat)
  else double.quotient (double.quotient whole (powerOfTen 308)) (powerOfTen (-exponent - 308).toNat)

end JsonNumber

namespace Json

/-- A reader of something at the front of a text gives it with the rest. -/
abbrev Reader (α : Type) := List Char → Option (α × List Char)

namespace Reader

/-- The text without the blanks in front. -/
def skipBlanks (cs : List Char) : List Char :=
  cs.dropWhile fun c => c = ' ' || c = '\n' || c = '\t' || c = '\r'

/-- The value of decimal digits. -/
def digitsValue (digits : List Char) : Nat :=
  digits.foldl (fun n c => 10 * n + (c.toNat - '0'.toNat)) 0

/-- The digits in front, at least one. -/
def digits : Reader (List Char) := fun cs =>
  let front := cs.takeWhile Char.isDigit
  if front.isEmpty then none else some (front, cs.dropWhile Char.isDigit)

/-- The fraction part in front, empty if there is no point. -/
def fractionPart : Reader (List Char)
  | '.' :: cs => digits cs
  | cs => some ([], cs)

/-- The exponent part in front, if there is one. -/
def exponentPart : Reader (Option Int)
  | 'e' :: cs | 'E' :: cs =>
    match cs with
    | '+' :: cs => (digits cs).map fun (ds, cs) => (some (digitsValue ds : Int), cs)
    | '-' :: cs => (digits cs).map fun (ds, cs) => (some (-(digitsValue ds : Int)), cs)
    | cs => (digits cs).map fun (ds, cs) => (some (digitsValue ds : Int), cs)
  | cs => some (none, cs)

/-- The number `n` followed by as many of the digits as fit in 64 bits, and the digits left over. -/
def leadingDigits : Nat → List Char → Nat × List Char
  | n, [] => (n, [])
  | n, c :: cs =>
    let next := 10 * n + (c.toNat - '0'.toNat)
    if next < UInt64.size then leadingDigits next cs else (n, c :: cs)

/-- A number without its sign. An integer too long for 64 bits, and the integer minus zero, are
fractions. A fraction keeps the digits in front that fit in 64 bits. -/
def magnitude (negative : Bool) : Reader JsonNumber := fun cs => do
  let (whole, cs) ← digits cs
  guard (whole.length = 1 ∨ whole.head? ≠ some '0')
  let (fraction, cs) ← fractionPart cs
  let (exponent, cs) ← exponentPart cs
  let n := digitsValue whole
  let fits := if negative then 0 < n ∧ Int64.minValue.toInt ≤ -(n : Int) else n < UInt64.size
  if fraction.isEmpty ∧ exponent = none ∧ fits then
    return (.integer (if negative then -(n : Int) else n), cs)
  let (kept, wholeRest) := leadingDigits 0 whole
  let (kept, fractionRest) := leadingDigits kept fraction
  let exponent := exponent.getD 0 + wholeRest.length + fractionRest.length - fraction.length
  guard (JsonNumber.doubleMagnitude kept exponent ≠ .infinite)
  return (.fraction negative kept exponent, cs)

/-- A number. -/
def number : Reader JsonNumber
  | '-' :: cs => magnitude true cs
  | cs => magnitude false cs

/-- The value of a hexadecimal digit. -/
def hexDigit (c : Char) : Option Nat :=
  if c.isDigit then some (c.toNat - '0'.toNat)
  else if 'a' ≤ c ∧ c ≤ 'f' then some (c.toNat - 'a'.toNat + 10)
  else if 'A' ≤ c ∧ c ≤ 'F' then some (c.toNat - 'A'.toNat + 10)
  else none

/-- Four hexadecimal digits. -/
def hexUnit : Reader Nat
  | a :: b :: c :: d :: cs => do
    let a ← hexDigit a
    let b ← hexDigit b
    let c ← hexDigit c
    let d ← hexDigit d
    return (((a * 16 + b) * 16 + c) * 16 + d, cs)
  | _ => none

/-- The character of an escape after `\u`: one unit, or a high and a low surrogate. -/
def unicodeEscape : Reader Char := fun cs => do
  let (unit, cs) ← hexUnit cs
  if 0xD800 ≤ unit ∧ unit < 0xDC00 then
    match cs with
    | '\\' :: 'u' :: cs =>
      let (low, cs) ← hexUnit cs
      guard (0xDC00 ≤ low ∧ low < 0xE000)
      return (Char.ofNat (0x10000 + (unit - 0xD800) * 0x400 + (low - 0xDC00)), cs)
    | _ => none
  else
    guard (unit < 0xDC00 ∨ 0xE000 ≤ unit)
    return (Char.ofNat unit, cs)

/-- The character of an escape after the backslash. -/
def escape : Reader Char
  | '"' :: cs => some ('"', cs)
  | '\\' :: cs => some ('\\', cs)
  | '/' :: cs => some ('/', cs)
  | 'b' :: cs => some ('\x08', cs)
  | 'f' :: cs => some ('\x0c', cs)
  | 'n' :: cs => some ('\n', cs)
  | 'r' :: cs => some ('\r', cs)
  | 't' :: cs => some ('\t', cs)
  | 'u' :: cs => unicodeEscape cs
  | _ => none

/-- The rest of a string after its opening quote. The fuel bounds the number of characters. -/
def stringTail : Nat → List Char → Reader String
  | 0, _, _ => none
  | _ + 1, acc, '"' :: cs => some (String.ofList acc.reverse, cs)
  | fuel + 1, acc, '\\' :: cs => do
    let (c, cs) ← escape cs
    stringTail fuel (c :: acc) cs
  | fuel + 1, acc, c :: cs => if c.toNat < 0x20 then none else stringTail fuel (c :: acc) cs
  | _ + 1, _, [] => none

/-- The members with one more; an earlier one of the same key is replaced. -/
def putMember (members : List (String × Json)) (key : String) (value : Json) :
    List (String × Json) :=
  if members.any (·.1 = key) then
    members.map fun m => if m.1 = key then (key, value) else m
  else members ++ [(key, value)]

mutual

/-- A value, with `depth` levels of nesting left. The fuel bounds the number of calls. -/
def value : Nat → Nat → Reader Json
  | 0, _, _ => none
  | fuel + 1, depth, cs =>
    match skipBlanks cs with
    | 'n' :: 'u' :: 'l' :: 'l' :: cs => some (.null, cs)
    | 't' :: 'r' :: 'u' :: 'e' :: cs => some (.bool true, cs)
    | 'f' :: 'a' :: 'l' :: 's' :: 'e' :: cs => some (.bool false, cs)
    | '"' :: cs => (stringTail (cs.length + 1) [] cs).map fun (s, cs) => (.string s, cs)
    | '[' :: cs =>
      match depth with
      | 0 => none
      | depth + 1 =>
        match skipBlanks cs with
        | ']' :: cs => some (.array [], cs)
        | cs => items fuel depth [] cs
    | '\x7b' :: cs =>
      match depth with
      | 0 => none
      | depth + 1 =>
        match skipBlanks cs with
        | '\x7d' :: cs => some (.object [], cs)
        | cs => members fuel depth [] cs
    | cs => (number cs).map fun (n, cs) => (.number n, cs)

/-- The items of an array up to its closing bracket, after those already read. -/
def items : Nat → Nat → List Json → Reader Json
  | 0, _, _, _ => none
  | fuel + 1, depth, acc, cs => do
    let (item, cs) ← value fuel depth cs
    match skipBlanks cs with
    | ',' :: cs => items fuel depth (item :: acc) cs
    | ']' :: cs => some (.array (item :: acc).reverse, cs)
    | _ => none

/-- The members of an object up to its closing brace, after those already read. -/
def members : Nat → Nat → List (String × Json) → Reader Json
  | 0, _, _, _ => none
  | fuel + 1, depth, acc, cs =>
    match skipBlanks cs with
    | '"' :: cs => do
      let (key, cs) ← stringTail (cs.length + 1) [] cs
      match skipBlanks cs with
      | ':' :: cs =>
        let (item, cs) ← value fuel depth cs
        let acc := putMember acc key item
        match skipBlanks cs with
        | ',' :: cs => members fuel depth acc cs
        | '\x7d' :: cs => some (.object acc, cs)
        | _ => none
      | _ => none
    | _ => none

end

end Reader

/-- The value that a text stands for, if it is one. -/
def parse (text : String) : Option Json := do
  let cs := text.toList
  let (value, rest) ← Reader.value (2 * cs.length + 2) 127 cs
  guard (Reader.skipBlanks rest).isEmpty
  return value

end Json

end TriggerCompiler
