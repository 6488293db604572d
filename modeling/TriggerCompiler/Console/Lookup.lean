import TriggerCompiler.Console.Decode
import TriggerCompiler.Console.Encode

/-!
Requests that need no session: how types and values relate, signatures of host calls, the form of
errors, and documents read and written back.
-/

namespace TriggerCompiler.Console

/-- Answers how types and values relate. -/
def typesAnswer? (j : Json) : Option Json := do
  let types ← j.required (Json.list? ValueType.ofJson?) "types"
  let values ← j.required (Json.list? Value.ofJson?) "values"
  let describe (v : Value) : Json :=
    .array [value v, .string v.text,
      .optional (fun (t : ValueType) => .string t.machineName) v.naturalType]
  return .object [
    ("types", .list (fun t => .array [.string t.machineName, .bool t.isValueType]) types),
    ("handlers", .list (fun t => .string (handlerName t.machineName)) types),
    ("accepts", .list (fun t => .list (fun u => .bool (t.accepts u)) types) types),
    ("values", .list describe values),
    ("fits", .list (fun v => .list (fun t => .bool (v.fits t)) types) values),
    ("equal", .list (fun v => .list (fun w => .bool (v = w)) values) values)]

/-- The signature that a request names. -/
def signature? (c : Call) : Option String := do
  match c.name with
  | "signature" =>
    return HostCall.signature (← c.text 0) (← c.text 1) (← (c.argument 2).list? Json.string?)
      (← c.text 3)
  | "binary_operator" => return HostCall.binaryOperator (← c.type 0) (← c.text 1) (← c.type 2)
  | "inequality" => return HostCall.inequality (← c.type 0)
  | "int_operator" => return HostCall.intOperator (← c.text 0)
  | "int_comparison" => return HostCall.intComparison (← c.text 0)
  | "object_equals" => return HostCall.objectEquals
  | "boolean_negation" => return HostCall.booleanNegation
  | "send_custom_event" => return HostCall.sendCustomEvent
  | "send_custom_network_event" => return HostCall.sendCustomNetworkEvent
  | "send_custom_event_delayed_seconds" => return HostCall.sendCustomEventDelayed
  | "request_serialization" => return HostCall.requestSerialization
  | "is_owner" => return HostCall.isOwner
  | "is_master" => return HostCall.isMaster
  | "debug_log" => return HostCall.debugLog
  | _ => none

/-- Answers the signature of a host call. -/
def signatureAnswer? (j : Json) : Option Json := do
  let name ← j.required Json.string? "fn"
  let arguments ← j.required Json.array? "args"
  return .string (← signature? ⟨name, arguments⟩)

/-- Reads a diagnostic. -/
def diagnostic? (j : Json) : Option Diagnostic := do
  match j with
  | .array [severity, message, place, help, code] =>
    return {
      severity := ← Severity.ofName? (← severity.string?)
      message := ← message.string?
      coordinate := ← coordinate? place
      help := ← help.nullable Json.string?
      code := ← code.nullable Json.string? }
  | _ => none

/-- Reads an error. -/
def error? (j : Json) : Option CompileError := do
  match j with
  | .array [kind, place] => return ⟨← errorKind? kind, ← coordinate? place⟩
  | _ => none

/-- Reads a warning. -/
def warning? (j : Json) : Option Warning := do
  match j with
  | .array [message, place] => return ⟨← message.string?, ← coordinate? place⟩
  | _ => none

/-- Answers what a failed request or compile is reported as. -/
def errorsAnswer? (j : Json) : Option Json := do
  if let some message := j.member? "api" then
    let r := Report.api (← message.string?)
    return .object (reportMembers r ++ [("rendered", .string (r.render false))])
  if let some list := j.member? "diagnostics" then
    let ds ← list.list? diagnostic?
    return .object [("diagnostics", .list diagnostic ds),
      ("rendered", .string (Diagnostic.renderAll false ds)),
      ("colored", .string (Diagnostic.renderAll true ds))]
  let errors ← j.required (Json.list? error?) "errors"
  let warnings ← j.required (Json.list? warning?) "warnings"
  let render ← j.withDefault Json.bool? false "render"
  let r := Failure.report ⟨errors, warnings⟩
  let rendered := if render then
      [("rendered", Json.string (r.render false)), ("colored", .string (r.render true))]
    else []
  return .object (reportMembers r ++
    [("kinds", .list (fun e => errorKind e.kind) errors),
      ("warnings", .list (fun w => .string w.text) warnings)] ++ rendered)

/-- Reads a document and writes it back. -/
def decodeAnswer? (j : Json) : Option Json := do
  let type ← j.required Json.string? "type"
  let document ← j.member? "value"
  match type with
  | "TriggerDefinition" => (Trigger.ofJson? document).map Trigger.toJson
  | "ActionGroupDefinition" => (ActionGroup.ofJson? document).map ActionGroup.toJson
  | "ActionInstance" => (Action.ofJson? document).map Action.toJson
  | "InputBinding" => (Binding.ofJson? document).map Binding.toJson
  | "ValueType" => (ValueType.ofJson? document).map ValueType.toJson
  | "ConstValue" => (Value.ofJson? document).map Value.toJson
  | _ => none

end TriggerCompiler.Console
