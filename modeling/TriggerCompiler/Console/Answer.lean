import TriggerCompiler.Console.Lookup
import TriggerCompiler.Console.Session
import TriggerCompiler.Console.Workbench
import TriggerCompiler.Json.Writer

/-!
The console: one request a line, one answer a line, both in JSON. Every answer depends on its line
only.
-/

namespace TriggerCompiler.Console

/-- Answers a request by its operation. -/
def answer? (j : Json) : Option Json := do
  match ← j.required Json.string? "op" with
  | "engine" => Session.answer? j
  | "program" => programAnswer? j
  | "scopes" => scopesAnswer? j
  | "types" => typesAnswer? j
  | "externs" => signatureAnswer? j
  | "errors" => errorsAnswer? j
  | "decode" => decodeAnswer? j
  | _ => none

/-- Answers a line. -/
def answerLine (line : String) : String :=
  (((Json.parse line).bind answer?).getD badInput).render

end TriggerCompiler.Console
