import TriggerCompiler.HostCall
import TriggerCompiler.Registry.Basic

/-!
The built-in registry: every construct, the standard event types, and a few common host calls.
-/

namespace TriggerCompiler

/-- The parameters of a construct. -/
def Construct.parameters : Construct → List Parameter
  | passIfTrue | failIfFalse => [.input "value" .boolean]
  | forLoop =>
    [.input "start" .int32, .input "end" .int32, .input "step" .int32,
      { Parameter.output "index" .int32 with onMissing := .placeholder }]
  | setVariable => [.anyInput "value", .anyOutput "target"]
  | localVariable => [.anyInput "value", .anyOutput "local"]
  | _ => []

/-- The definition of a construct. -/
def Construct.definition (c : Construct) : ActionDef where
  id := c.name
  parameters := c.parameters
  kind := .construct c

namespace Registry

/-- An event type whose exported method the machine names. -/
def namedEvent (id method : String) (parameters : List EventParameter) : EventType where
  id := id
  method := .named method
  parameters := parameters

/-- The standard event types. -/
def builtinEvents : List EventType :=
  [namedEvent "Start" "_start" [],
    namedEvent "Interact" "_interact" [],
    namedEvent "Update" "_update" [],
    namedEvent "OnPlayerJoined" "_onPlayerJoined" [⟨"player", "onPlayerJoinedPlayer", .player⟩],
    namedEvent "OnPlayerLeft" "_onPlayerLeft" [⟨"player", "onPlayerLeftPlayer", .player⟩],
    { id := "Custom", method := .fromInput, entryParameters := [.input "name" .string] },
    { id := "OnVariableChanged", method := .variableHandler,
      entryParameters := [.anyInput "variable"] }]

/-- An action that is one host call. -/
def hostAction (id signature : String) (parameters : List Parameter) : ActionDef where
  id := id
  parameters := parameters
  kind := .host signature none

/-- An operator on two integers. -/
def intAction (id signature : String) (result : ValueType) : ActionDef :=
  hostAction id signature [.input "a" .int32, .input "b" .int32, .output "result" result]

/-- The common host calls. -/
def builtinCalls : List ActionDef :=
  [hostAction "Log" HostCall.debugLog [.anyInput "message"],
    intAction "IntAdd" (HostCall.intOperator "Addition") .int32,
    intAction "IntSubtract" (HostCall.intOperator "Subtraction") .int32,
    intAction "IntMultiply" (HostCall.intOperator "Multiplication") .int32,
    intAction "IntLessThan" (HostCall.intComparison "LessThan") .boolean,
    intAction "IntGreaterThan" (HostCall.intComparison "GreaterThan") .boolean,
    intAction "IntEquals" (HostCall.intComparison "Equality") .boolean,
    hostAction "Not" HostCall.booleanNegation
      [.input "value" .boolean, .output "result" .boolean],
    { id := "SetActive", parameters := [.input "active" .boolean], manyTargets := true,
      kind := .host HostCall.setActive (some .gameObject) }]

/-- The registry with everything built in. -/
def builtin : Registry :=
  let actions := Construct.all.map Construct.definition ++ builtinCalls
  builtinEvents.foldl addEvent (actions.foldl addAction {})

end Registry

end TriggerCompiler
