import TriggerCompiler.Diagnostic.ErrorKind

/-!
Places in a document, the errors and warnings found there, and the reports that callers get. A
failed compile is reported as a list of diagnostics, the errors first; but if one of the errors is
the compiler's own, that error alone is reported.
-/

namespace TriggerCompiler

/-- A place in a trigger or an action group. -/
structure Coordinate where
  /-- The position of the event, or of the action in its group. -/
  event : Nat
  /-- The position in the body; none for the entry of the event. -/
  action : Option Nat
  /-- The id of the action at the place. -/
  construct : String
  deriving DecidableEq, Inhabited

namespace Coordinate

/-- The entry of an event. -/
def entry (event : Nat) (construct : String) : Coordinate := ⟨event, none, construct⟩

/-- An action of an event's body. -/
def inBody (event action : Nat) (construct : String) : Coordinate := ⟨event, some action, construct⟩

/-- The wording. -/
def text (c : Coordinate) : String :=
  match c.action with
  | some action =>
    "event " ++ toString c.event ++ ", action " ++ toString action ++ " (" ++ c.construct ++ ")"
  | none => "event " ++ toString c.event ++ " entry (" ++ c.construct ++ ")"

end Coordinate

/-- An error with the place at fault, if one is. -/
structure CompileError where
  kind : ErrorKind
  coordinate : Option Coordinate := none
  deriving DecidableEq

/-- Something suspicious that does not stop the compile. -/
structure Warning where
  message : String
  coordinate : Option Coordinate := none
  deriving DecidableEq

namespace Warning

/-- The wording, after the place if there is one. -/
def text (w : Warning) : String :=
  match w.coordinate with
  | some c => c.text ++ ": " ++ w.message
  | none => w.message

end Warning

/-- How serious a diagnostic is. -/
inductive Severity where
  | error
  | warning
  | info
  deriving DecidableEq, Inhabited

namespace Severity

/-- The name of a severity. -/
def name : Severity → String
  | error => "error"
  | warning => "warning"
  | info => "info"

/-- The severity of a name. -/
def ofName? (s : String) : Option Severity := [error, warning, info].find? (·.name = s)

end Severity

/-- A message for the author of a document. -/
structure Diagnostic where
  severity : Severity
  message : String
  coordinate : Option Coordinate := none
  help : Option String := none
  code : Option String := none
  deriving DecidableEq

/-- The diagnostic of an error. -/
def CompileError.diagnostic (e : CompileError) : Diagnostic where
  severity := .error
  message := e.kind.message
  coordinate := e.coordinate
  help := e.kind.help
  code := some e.kind.code

/-- The diagnostic of a warning. -/
def Warning.diagnostic (w : Warning) : Diagnostic where
  severity := .warning
  message := w.message
  coordinate := w.coordinate

/-- What a failed compile leaves: its errors and the warnings so far. -/
structure Failure where
  errors : List CompileError
  warnings : List Warning
  deriving DecidableEq

/-- What a caller is told when a request fails. -/
inductive Report where
  /-- The request itself was wrong. -/
  | api (message : String)
  /-- The document is invalid. -/
  | compilation (diagnostics : List Diagnostic)
  /-- The compiler broke one of its own rules. -/
  | internal (diagnostic : Diagnostic)
  deriving DecidableEq

namespace Report

/-- The diagnostics of a report. -/
def diagnostics : Report → List Diagnostic
  | api _ => []
  | compilation ds => ds
  | internal d => [d]

/-- The wording of a report as a whole. -/
def message : Report → String
  | api message => "API error: " ++ message
  | compilation ds =>
    let errors := (ds.filter (·.severity = .error)).length
    "Compilation failed with " ++ toString errors ++ " error(s)"
  | internal d => "Internal compiler error: " ++ d.message

end Report

/-- The report of a failure. -/
def Failure.report (f : Failure) : Report :=
  match f.errors.find? (·.kind.isInternal) with
  | some e => .internal e.diagnostic
  | none => .compilation (f.errors.map CompileError.diagnostic ++ f.warnings.map Warning.diagnostic)

end TriggerCompiler
