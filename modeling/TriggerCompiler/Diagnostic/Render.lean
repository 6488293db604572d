import TriggerCompiler.Diagnostic.Basic

/-!
Reports as text for a terminal, with or without colours. Each diagnostic shows its code, an icon for
its severity with the place and the message, and the advice. Blanks at the end of a line are
dropped; the further lines of a message stand behind a bar, those of an advice below its first one.
-/

namespace TriggerCompiler

namespace Severity

/-- The icon of a severity. -/
def icon : Severity → String
  | error => "×"
  | warning => "⚠"
  | info => "☞"

/-- The colour code of a severity. -/
def colour : Severity → String
  | error => "31"
  | warning => "33"
  | info => "36"

end Severity

/-- The text in a colour, if colours are on. -/
def paint (coloured : Bool) (colour text : String) : String :=
  if coloured then "\x1b[" ++ colour ++ "m" ++ text ++ "\x1b[0m" else text

/-- The text without the blanks at its end. -/
def trimEnd (text : String) : String :=
  String.ofList (text.toList.reverse.dropWhile (· = ' ')).reverse

/-- The lines of a text, the first one behind `first` and each further one behind `rest`. -/
def indented (first rest text : String) : String :=
  let lines := (text.splitOn "\n").map trimEnd
  first ++ ("\n" ++ rest).intercalate lines ++ "\n"

namespace Diagnostic

/-- The message after its place. -/
def located (d : Diagnostic) : String :=
  match d.coordinate with
  | some c => c.text ++ ": " ++ d.message
  | none => d.message

/-- The text of a diagnostic. -/
def render (coloured : Bool) (d : Diagnostic) : String :=
  let paint := paint coloured
  let mark (icon : String) : String := "  " ++ paint d.severity.colour icon ++ " "
  let code := match d.code with
    | some code => paint d.severity.colour code ++ "\n\n"
    | none => ""
  let help := match d.help with
    | some help => indented (paint "36" "  help: ") "        " help
    | none => ""
  code ++ indented (mark d.severity.icon) (mark "│") d.located ++ help

/-- The text of diagnostics, one after the other. -/
def renderAll (coloured : Bool) (ds : List Diagnostic) : String :=
  String.join (ds.map (render coloured))

end Diagnostic

/-- The text of a report. -/
def Report.render (coloured : Bool) : Report → String
  | .api message => "API error: " ++ message ++ "\n"
  | r => Diagnostic.renderAll coloured r.diagnostics

end TriggerCompiler
