/-!
JSON values. A number keeps the difference between an integer and a decimal fraction, because a
trigger document accepts only the former where it wants a whole number, and a fraction keeps its
sign, because negative zero is a number of its own. An object has each key once, in the order of
its first occurrence.
-/

namespace TriggerCompiler

/-- A JSON number as it was written. -/
inductive JsonNumber where
  /-- Digits only. -/
  | integer (value : Int)
  /-- The fraction `digits * 10 ^ exponent`, with its sign. -/
  | fraction (negative : Bool) (digits : Nat) (exponent : Int)
  deriving DecidableEq

/-- A JSON value. -/
inductive Json where
  | null
  | bool (value : Bool)
  | number (value : JsonNumber)
  | string (value : String)
  | array (items : List Json)
  | object (members : List (String × Json))

namespace Json

/-- An integer. -/
def int (n : Int) : Json := .number (.integer n)

/-- A natural number. -/
def nat (n : Nat) : Json := .int n

/-- The encoded value, or `null`. -/
def optional {α : Type} (encode : α → Json) : Option α → Json
  | none => .null
  | some a => encode a

/-- The array of the encoded items. -/
def list {α : Type} (encode : α → Json) (items : List α) : Json := .array (items.map encode)

/-- The truth value. -/
def bool? : Json → Option Bool
  | .bool b => some b
  | _ => none

/-- The integer. -/
def int? : Json → Option Int
  | .number (.integer n) => some n
  | _ => none

/-- The integer, if it is not negative and below `2 ^ 64`. -/
def nat? (j : Json) : Option Nat := do
  let n ← j.int?
  guard (0 ≤ n ∧ n < UInt64.size)
  return n.toNat

/-- The text. -/
def string? : Json → Option String
  | .string s => some s
  | _ => none

/-- The items of an array. -/
def array? : Json → Option (List Json)
  | .array items => some items
  | _ => none

/-- The members of an object. -/
def object? : Json → Option (List (String × Json))
  | .object members => some members
  | _ => none

/-- The value under a key of an object. -/
def member? (j : Json) (key : String) : Option Json := do
  let members ← j.object?
  members.lookup key

/-- The decoded value under a key that has to be there. -/
def required {α : Type} (decode : Json → Option α) (j : Json) (key : String) : Option α := do
  let value ← j.member? key
  decode value

/-- The decoded value under a key; a missing one is the default, `null` is no value. -/
def withDefault {α : Type} (decode : Json → Option α) (default : α) (j : Json) (key : String) :
    Option α :=
  match j.member? key with
  | none => some default
  | some value => decode value

/-- The decoded value, where `null` stands for none. -/
def nullable {α : Type} (decode : Json → Option α) : Json → Option (Option α)
  | .null => some none
  | value => (decode value).map some

/-- The decoded value under a key, where a missing one and `null` both stand for none. -/
def optionalMember {α : Type} (decode : Json → Option α) (j : Json) (key : String) :
    Option (Option α) :=
  withDefault (nullable decode) none j key

/-- The decoded items of an array; one that cannot be decoded spoils the array. -/
def list? {α : Type} (decode : Json → Option α) (j : Json) : Option (List α) := do
  let items ← j.array?
  items.mapM decode

/-- The decoded items under a key; a missing array is empty. -/
def listMember {α : Type} (decode : Json → Option α) (j : Json) (key : String) :
    Option (List α) :=
  withDefault (list? decode) [] j key

end Json

end TriggerCompiler
