import TriggerCompiler.Text.Unprintable

/-!
Quoted text, as program listings and run-time faults show it. A quoted text stands between double
quotes; a quote and a backslash inside it get a backslash, four controls have a letter of their own,
and every other character that cannot be shown is written by its code point.
-/

namespace TriggerCompiler.Text

/-- A natural number in lower-case hexadecimal, without leading zeros. -/
def hex (n : Nat) : List Char := Nat.toDigits 16 n

/-- How a quoted text writes one character. -/
def escaped (c : Char) : List Char :=
  match c with
  | '\x00' => ['\\', '0']
  | '\t' => ['\\', 't']
  | '\r' => ['\\', 'r']
  | '\n' => ['\\', 'n']
  | '"' => ['\\', '"']
  | '\\' => ['\\', '\\']
  | c => if isUnprintable c then ['\\', 'u', '\x7b'] ++ hex c.toNat ++ ['\x7d'] else [c]

/-- The text between double quotes, with what it cannot show escaped. -/
def quoted (s : String) : String :=
  String.ofList ('"' :: s.toList.flatMap escaped ++ ['"'])

end TriggerCompiler.Text
