import TriggerCompiler.Json.Reader
import TriggerCompiler.Trigger.Basic

/-!
Trigger documents as JSON. A choice without data is its name as a text, a choice with data an object
with the name as its only key; a record is an object, or an array of its fields in order. Fields
that a document may leave out have their default. The data of a choice is never such an array.
Written documents have every field, and numbers of single precision are written as text.
-/

namespace TriggerCompiler

namespace Json

/-- The name of a choice and its data. -/
def choice? : Json → Option (String × Option Json)
  | .string name => some (name, none)
  | .object [(name, data)] => some (name, some data)
  | _ => none

/-- Whether a choice comes without data. -/
def isBare : Option Json → Bool
  | none | some .null => true
  | some _ => false

/-- The choice without data that a value names. -/
def bareChoice? {α : Type} (choices : List (String × α)) (j : Json) : Option α := do
  let (name, data) ← j.choice?
  guard (isBare data)
  choices.lookup name

/-- The value as an object with the given fields: an array gives them in order. -/
def record? (fields : List String) : Json → Option Json
  | .object members => some (.object members)
  | .array items =>
    if items.length ≤ fields.length then some (.object (fields.zip items)) else none
  | _ => none

/-- The single-precision number. -/
def single? : Json → Option Single
  | .number (.integer n) => some (Single.ofInt n)
  | .number (.fraction negative digits exponent) =>
    some (Single.ofDouble negative (JsonNumber.doubleMagnitude digits exponent))
  | _ => none

/-- A single-precision number as text; an infinite one is `null`. -/
def single (x : Single) : Json :=
  if x.magnitude = .infinite then .null else .string x.text

/-- A choice with data. -/
def choice (name : String) (data : Json) : Json := .object [(name, data)]

end Json

namespace SyncMode

/-- The modes by name. -/
def names : List (String × SyncMode) :=
  [("None", none), ("Synced", synced), ("Linear", linear), ("Smooth", smooth)]

/-- The name of a mode. -/
def name : SyncMode → String
  | none => "None"
  | synced => "Synced"
  | linear => "Linear"
  | smooth => "Smooth"

end SyncMode

namespace Gate

/-- The gates by name. -/
def names : List (String × Gate) := [("Anyone", anyone), ("Owner", owner), ("Master", master)]

/-- The name of a gate. -/
def name : Gate → String
  | anyone => "Anyone"
  | owner => "Owner"
  | master => "Master"

end Gate

namespace Broadcast

/-- The broadcasts by name. -/
def names : List (String × Broadcast) := [("Local", here), ("All", all), ("Owner", owner)]

/-- The name of a broadcast. -/
def name : Broadcast → String
  | here => "Local"
  | all => "All"
  | owner => "Owner"

end Broadcast

namespace Direction

/-- The directions by name. -/
def names : List (String × Direction) := [("In", into), ("Out", out), ("InOut", both)]

/-- The name of a direction. -/
def name : Direction → String
  | into => "In"
  | out => "Out"
  | both => "InOut"

end Direction

namespace MissingPolicy

/-- The policies by name. -/
def names : List (String × MissingPolicy) :=
  [("Reject", reject), ("Placeholder", placeholder)]

/-- The name of a policy. -/
def name : MissingPolicy → String
  | reject => "Reject"
  | placeholder => "Placeholder"

end MissingPolicy

namespace ValueType

/-- The types without a name of their own. -/
def names : List (String × ValueType) :=
  [("Boolean", boolean), ("Int32", int32), ("UInt32", uint32), ("Single", single),
    ("String", string), ("Object", object)]

/-- Reads a type. -/
def ofJson? (j : Json) : Option ValueType := do
  let (name, data) ← j.choice?
  if name = "Reference" then
    let data ← data
    return reference (← data.string?)
  Json.bareChoice? names j

/-- Writes a type. -/
def toJson : ValueType → Json
  | boolean => .string "Boolean"
  | int32 => .string "Int32"
  | uint32 => .string "UInt32"
  | single => .string "Single"
  | string => .string "String"
  | object => .string "Object"
  | reference name => .choice "Reference" (.string name)

end ValueType

namespace Value

/-- Reads a value; addresses are never part of a document. -/
def ofJson? (j : Json) : Option Value := do
  let (name, data) ← j.choice?
  if name = "Null" then
    guard (Json.isBare data)
    return null
  let data ← data
  match name with
  | "Boolean" => return boolean (← data.bool?)
  | "Int32" =>
    let n ← data.int?
    guard (Int32.minValue.toInt ≤ n ∧ n ≤ Int32.maxValue.toInt)
    return int32 (Int32.ofInt n)
  | "UInt32" =>
    let n ← data.int?
    guard (0 ≤ n ∧ n < UInt32.size)
    return uint32 (UInt32.ofNat n.toNat)
  | "Single" => return single (← data.single?)
  | "String" => return string (← data.string?)
  | _ => none

/-- Writes a value. -/
def toJson : Value → Json
  | null => .string "Null"
  | boolean b => .choice "Boolean" (.bool b)
  | int32 n => .choice "Int32" (.int n.toInt)
  | uint32 n => .choice "UInt32" (.nat n.toNat)
  | single x => .choice "Single" (.single x)
  | string s => .choice "String" (.string s)
  | address target => .choice "Address" (.string target.text)

end Value

namespace VariableDecl

/-- The fields of a variable, in order. -/
def fields : List String := ["id", "name", "ty", "sync", "default", "change_callback"]

/-- Reads a variable. -/
def ofJson? (j : Json) : Option VariableDecl := do
  let j ← j.record? fields
  return {
    id := ← j.required Json.string? "id"
    name := ← j.required Json.string? "name"
    type := ← j.required ValueType.ofJson? "ty"
    sync := ← j.withDefault (Json.bareChoice? SyncMode.names) .none "sync"
    initial := ← j.optionalMember Value.ofJson? "default"
    notifies := ← j.withDefault Json.bool? false "change_callback" }

/-- Writes a variable. -/
def toJson (v : VariableDecl) : Json :=
  .object [("id", .string v.id), ("name", .string v.name), ("ty", v.type.toJson),
    ("sync", .string v.sync.name), ("default", .optional Value.toJson v.initial),
    ("change_callback", .bool v.notifies)]

end VariableDecl

namespace VariableRef

/-- Reads a reference to a variable. -/
def ofJson? (j : Json) : Option VariableRef := do
  let (name, data) ← j.choice?
  match name with
  | "User" => return user (← (← data).string?)
  | "Local" => return localVar (← (← data).string?)
  | "EventInput" => return eventInput (← (← data).string?)
  | "ConditionResult" => if Json.isBare data then some conditionResult else none
  | "This" => if Json.isBare data then some this else none
  | _ => none

/-- Writes a reference to a variable. -/
def toJson : VariableRef → Json
  | user id => .choice "User" (.string id)
  | localVar id => .choice "Local" (.string id)
  | eventInput name => .choice "EventInput" (.string name)
  | conditionResult => .string "ConditionResult"
  | this => .string "This"

end VariableRef

namespace Binding

/-- Reads a binding. -/
def ofJson? (j : Json) : Option Binding := do
  let (name, data) ← j.choice?
  match name with
  | "Unbound" => if Json.isBare data then some unbound else none
  | "Constant" => return constant (← Value.ofJson? (← data))
  | "Variable" => return var (← VariableRef.ofJson? (← data))
  | "NewLocal" =>
    let data ← data
    return newLocal (← data.required Json.string? "id") (← data.required Json.string? "name")
  | _ => none

/-- Writes a binding. -/
def toJson : Binding → Json
  | unbound => .string "Unbound"
  | constant value => .choice "Constant" value.toJson
  | var ref => .choice "Variable" ref.toJson
  | newLocal id name =>
    .choice "NewLocal" (.object [("id", .string id), ("name", .string name)])

end Binding

namespace Action

/-- Reads an action. -/
def ofJson? (j : Json) : Option Action := do
  let j ← j.record? ["action", "group", "inputs", "multi_inputs"]
  return {
    id := ← j.required Json.string? "action"
    group := ← j.optionalMember Json.string? "group"
    inputs := ← j.listMember Binding.ofJson? "inputs"
    targets := ← j.listMember Binding.ofJson? "multi_inputs" }

/-- Writes an action. -/
def toJson (a : Action) : Json :=
  .object [("action", .string a.id), ("group", .optional .string a.group),
    ("inputs", .list Binding.toJson a.inputs), ("multi_inputs", .list Binding.toJson a.targets)]

end Action

namespace EventOptions

/-- Reads the options of an event. -/
def ofJson? (j : Json) : Option EventOptions := do
  let j ← j.record? ["gate", "broadcast", "delay_seconds"]
  return {
    gate := ← j.withDefault (Json.bareChoice? Gate.names) .anyone "gate"
    broadcast := ← j.withDefault (Json.bareChoice? Broadcast.names) .here "broadcast"
    delay := ← j.withDefault Json.single? Single.zero "delay_seconds" }

/-- Writes the options of an event. -/
def toJson (o : EventOptions) : Json :=
  .object [("gate", .string o.gate.name), ("broadcast", .string o.broadcast.name),
    ("delay_seconds", .single o.delay)]

end EventOptions

namespace Event

/-- Reads an event. -/
def ofJson? (j : Json) : Option Event := do
  let j ← j.record? ["name", "entry", "actions", "options"]
  return {
    name := ← j.required Json.string? "name"
    entry := ← j.required Action.ofJson? "entry"
    actions := ← j.listMember Action.ofJson? "actions"
    options := ← j.withDefault EventOptions.ofJson? {} "options" }

/-- Writes an event. -/
def toJson (e : Event) : Json :=
  .object [("name", .string e.name), ("entry", e.entry.toJson),
    ("actions", .list Action.toJson e.actions), ("options", e.options.toJson)]

end Event

namespace Trigger

/-- Reads a trigger. -/
def ofJson? (j : Json) : Option Trigger := do
  let j ← j.record? ["variables", "events"]
  return {
    declarations := ← j.listMember VariableDecl.ofJson? "variables"
    events := ← j.listMember Event.ofJson? "events" }

/-- Writes a trigger. -/
def toJson (t : Trigger) : Json :=
  .object [("variables", .list VariableDecl.toJson t.declarations),
    ("events", .list Event.toJson t.events)]

end Trigger

namespace Parameter

/-- Reads a parameter. -/
def ofJson? (j : Json) : Option Parameter := do
  let j ← j.record? ["name", "ty", "direction", "on_missing"]
  return {
    name := ← j.required Json.string? "name"
    type := ← j.optionalMember ValueType.ofJson? "ty"
    direction := ← j.withDefault (Json.bareChoice? Direction.names) .into "direction"
    onMissing := ← j.withDefault (Json.bareChoice? MissingPolicy.names) .reject "on_missing" }

/-- Writes a parameter. -/
def toJson (p : Parameter) : Json :=
  .object [("name", .string p.name), ("ty", .optional ValueType.toJson p.type),
    ("direction", .string p.direction.name), ("on_missing", .string p.onMissing.name)]

end Parameter

namespace GroupAction

/-- Reads an action of a group. -/
def ofJson? (j : Json) : Option GroupAction := do
  let j ← j.record? ["name", "event_type", "parameters", "actions"]
  return {
    name := ← j.required Json.string? "name"
    eventType := ← j.optionalMember Json.string? "event_type"
    parameters := ← j.listMember Parameter.ofJson? "parameters"
    actions := ← j.listMember Action.ofJson? "actions" }

/-- Writes an action of a group. -/
def toJson (a : GroupAction) : Json :=
  .object [("name", .string a.name), ("event_type", .optional .string a.eventType),
    ("parameters", .list Parameter.toJson a.parameters),
    ("actions", .list Action.toJson a.actions)]

end GroupAction

namespace ActionGroup

/-- Reads a group. -/
def ofJson? (j : Json) : Option ActionGroup := do
  let j ← j.record? ["guid", "name", "variables", "actions"]
  return {
    guid := ← j.required Json.string? "guid"
    name := ← j.required Json.string? "name"
    declarations := ← j.listMember VariableDecl.ofJson? "variables"
    actions := ← j.listMember GroupAction.ofJson? "actions" }

/-- Writes a group. -/
def toJson (g : ActionGroup) : Json :=
  .object [("guid", .string g.guid), ("name", .string g.name),
    ("variables", .list VariableDecl.toJson g.declarations),
    ("actions", .list GroupAction.toJson g.actions)]

end ActionGroup

end TriggerCompiler
