import TriggerCompiler.Json.Basic
import TriggerCompiler.Text.Quoted

/-!
Writing JSON text: compact, members in the order of the object, text beyond ASCII as it is.
-/

namespace TriggerCompiler.Json

namespace Writer

/-- How a JSON string writes one character. -/
def escaped (c : Char) : List Char :=
  if c = '"' then ['\\', '"']
  else if c = '\\' then ['\\', '\\']
  else if c.toNat < 0x20 then
    let digits := Text.hex c.toNat
    ['\\', 'u'] ++ List.replicate (4 - digits.length) '0' ++ digits
  else [c]

/-- A string with its quotes. -/
def string (s : String) : String :=
  String.ofList ('"' :: s.toList.flatMap escaped ++ ['"'])

/-- A number. -/
def number : JsonNumber → String
  | .integer n => toString n
  | .fraction negative digits exponent =>
    (if negative then "-" else "") ++ toString digits ++ "e" ++ toString exponent

mutual

/-- The text of a value after the text already written. -/
def value (acc : String) : Json → String
  | .null => acc ++ "null"
  | .bool b => acc ++ (if b then "true" else "false")
  | .number n => acc ++ number n
  | .string s => acc ++ string s
  | .array [] => acc ++ "[]"
  | .array (item :: rest) => items (value (acc.push '[') item) rest
  | .object [] => (acc.push '\x7b').push '\x7d'
  | .object (m :: rest) =>
    members (member (acc.push '\x7b') m) rest

/-- The text of the further items of an array and its end. -/
def items (acc : String) : List Json → String
  | [] => acc.push ']'
  | item :: rest => items (value (acc.push ',') item) rest

/-- The text of one member. -/
def member (acc : String) : String × Json → String
  | (key, v) => value ((acc ++ string key).push ':') v

/-- The text of the further members of an object and its end. -/
def members (acc : String) : List (String × Json) → String
  | [] => acc.push '\x7d'
  | m :: rest => members (member (acc.push ',') m) rest

end

end Writer

/-- The JSON text of a value. -/
def render (j : Json) : String := Writer.value "" j

end TriggerCompiler.Json
