import TriggerCompiler.Text.Quoted

/-!
Columns of fixed width: texts filled up with blanks, and addresses in eight hexadecimal digits.
-/

namespace TriggerCompiler.Text

/-- As many copies of a character as a text of `size` characters lacks to be `width` wide. -/
def filling (fill : Char) (width size : Nat) : String :=
  String.ofList (List.replicate (width - size) fill)

/-- The text with blanks after it, at least `width` wide. -/
def padRight (width : Nat) (s : String) : String := s ++ filling ' ' width s.length

/-- The text with blanks before it, at least `width` wide. -/
def padLeft (width : Nat) (s : String) : String := filling ' ' width s.length ++ s

/-- The number in lower-case hexadecimal after `0x`, without leading zeros. -/
def hexNumber (n : Nat) : String := "0x" ++ String.ofList (hex n)

/-- The number as `0x` and at least eight lower-case hexadecimal digits. -/
def hexWord (n : Nat) : String :=
  let digits := String.ofList (hex n)
  "0x" ++ filling '0' 8 digits.length ++ digits

/-- The number as `0x` and at least eight upper-case hexadecimal digits. -/
def upperHexWord (n : Nat) : String :=
  let digits := String.ofList ((hex n).map Char.toUpper)
  "0x" ++ filling '0' 8 digits.length ++ digits

end TriggerCompiler.Text
