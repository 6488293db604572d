import TriggerCompiler.Diagnostic.Render
import TriggerCompiler.Engine
import TriggerCompiler.Machine
import TriggerCompiler.Script.Bench
import TriggerCompiler.Trigger.Document

/-!
The JSON forms in which the console answers: values, slots, methods, programs, diagnostics, reports
and notes.
-/

namespace TriggerCompiler.Console

/-- The answer to a request that is not understood. -/
def badInput : Json := .object [("error", .string "BadInput")]

/-- A value: its kind and its content. -/
def value : Value → Json
  | .null => .array [.string "Null"]
  | .boolean b => .array [.string "Boolean", .bool b]
  | .int32 n => .array [.string "Int32", .int n.toInt]
  | .uint32 n => .array [.string "UInt32", .nat n.toNat]
  | .single x => .array [.string "Single", .string x.text]
  | .string s => .array [.string "String", .string s]
  | .address target => .array [.string "Address", .string target.text]

/-- A place in a document. -/
def coordinate (c : Coordinate) : Json :=
  .object [("event", .nat c.event), ("action", .optional .nat c.action),
    ("construct", .string c.construct)]

/-- The members of a slot. -/
def slotMembers (s : Slot) : List (String × Json) :=
  [("name", .string s.name), ("ty", .string s.type.machineName), ("kind", .string s.kind.name),
    ("sync", .string s.sync.name), ("exported", .bool s.exported),
    ("value", .optional value s.initial), ("previous", .optional .nat s.shadow),
    ("change_callback", .bool s.notifies), ("special", .bool s.isThis)]

/-- What follows a method. -/
def epilogue : Epilogue → Json
  | .halt => .string "halt"
  | .indirect slot => .nat slot

/-- A method with its address. -/
def method (m : Method) (address : Option Nat) : Json :=
  .object [("name", .string m.name), ("kind", .string m.kind.name),
    ("exported", .bool m.isExported), ("epilogue", epilogue m.epilogue),
    ("serialize", .bool m.serializes), ("body", .list .nat m.body.toList),
    ("address", .optional .nat address)]

/-- The members of a program. -/
def programMembers (p : Program) : List (String × Json) :=
  [("listing", .list .string p.listingLines),
    ("variables", .list (fun s => .object (slotMembers s)) p.slots.slots.toList),
    ("methods", .list (fun m => method m (p.methodAddress? m.name)) p.methods.toList),
    ("exported", .list .string p.exported), ("size", .nat p.size),
    ("temps", .array [.nat p.slots.temporaryCount, .nat p.slots.freeCount]),
    ("linked", .bool p.linked)]

/-- A warning. -/
def warning (w : Warning) : Json :=
  .object [("text", .string w.text), ("coordinate", .optional coordinate w.coordinate)]

/-- A diagnostic. -/
def diagnostic (d : Diagnostic) : Json :=
  .object [("severity", .string d.severity.name), ("message", .string d.message),
    ("coordinate", .optional coordinate d.coordinate), ("help", .optional .string d.help),
    ("code", .optional .string d.code)]

/-- The name of a report's kind. -/
def reportKind : Report → String
  | .api _ => "Api"
  | .compilation _ => "Compilation"
  | .internal _ => "Internal"

/-- The members of a report. -/
def reportMembers (r : Report) : List (String × Json) :=
  [("error", .string (reportKind r)), ("message", .string r.message),
    ("diagnostics", .list diagnostic r.diagnostics)]

/-- A report. -/
def report (r : Report) : Json := .object (reportMembers r)

/-- What a cause of failure says beside its wording. -/
def errorDetail : ErrorKind → Json
  | .duplicateName _ existing => .optional (fun k => .string k.name) existing
  | .unknownAction _ group => .optional .string group
  | _ => .null

/-- A cause of failure. -/
def errorKind (k : ErrorKind) : Json :=
  .object [("error", .string k.code), ("message", .string k.message), ("fatal", .bool k.isFatal),
    ("detail", errorDetail k)]

/-- A note of a script. -/
def note (n : Note) : Json :=
  let argument (a : String × SlotId × String) : Json :=
    .array [.string a.1, .nat a.2.1, .string a.2.2]
  .object [("tag", .string n.tag), ("method", .string n.method),
    ("coordinate", .string n.coordinate), ("depth", .nat n.depth),
    ("parent", .optional .nat n.parent), ("loop", .optional .nat n.loop),
    ("condition", .optional .nat n.condition),
    ("frames", .list (.optional .string) n.frames), ("prefix", .string n.groupPrefix),
    ("args", .optional (.list argument) n.arguments), ("multi", .optional .nat n.targetCount)]

/-- A reference to a constant slot. -/
def reference (r : SymbolReference) : Json :=
  .array [.nat r.slot, .string r.name, .nat r.event, .optional .nat r.action,
    .string r.parameter]

/-- A compiled trigger. -/
def compiledTrigger (t : CompiledTrigger) : Json :=
  .object (programMembers t.program ++
    [("ok", .bool true), ("warnings", .list warning t.warnings),
      ("references", .list reference t.references), ("notes", .list note t.notes)])

/-- Names with slots. -/
def namedSlot (s : String × SlotId) : Json := .array [.string s.1, .nat s.2]

/-- An entry of a compiled group. -/
def groupEntry (e : GroupEntry) : Json :=
  .object [("name", .string e.name), ("method", .string e.method),
    ("parameters", .list (fun (p, slot) => .array [p.toJson, .nat slot]) e.parameters),
    ("return_var", .nat e.returnSlot), ("event_type", .optional .string e.eventType),
    ("event_vars", .list namedSlot e.eventSlots)]

/-- A compiled group. -/
def compiledGroup (g : CompiledGroup) (notes : List Note) : Json :=
  .object (programMembers g.program ++
    [("ok", .bool true), ("guid", .string g.guid), ("name", .string g.name),
      ("warnings", .list warning g.warnings), ("notes", .list note notes),
      ("entries", .list groupEntry g.entries)])

/-- What the registry knows about an action. -/
def actionDef (d : ActionDef) : Json :=
  let construct (c : Construct) : Json :=
    .array [.string c.name, .bool c.opensBlock, .bool c.affectsBlocks, .bool c.isLoop]
  let flow (p : Parameter) : Json := .array [.bool p.direction.reads, .bool p.direction.writes]
  .object [("id", .string d.id), ("kind", .string d.kind.text),
    ("multi_input", .bool d.manyTargets), ("affects_scope", .bool d.affectsBlocks),
    ("construct", .optional construct d.construct?),
    ("parameters", .list Parameter.toJson d.parameters),
    ("reads_writes", .list flow d.parameters)]

/-- How an event's method gets its name. -/
def eventMethod : EventMethod → Json
  | .named name => .choice "Named" (.string name)
  | .fromInput => .string "FromInput"
  | .variableHandler => .string "VariableHandler"

/-- What the registry knows about an event type, and the slot of the parameter asked for. -/
def eventType (e : EventType) (asked : Option String) : Json :=
  let parameter (p : EventParameter) : Json :=
    .array [.string p.name, .string p.slot, .string p.type.machineName]
  let slot := (asked.bind e.parameter?).map (·.slot)
  .object [("id", .string e.id), ("method", eventMethod e.method),
    ("entry_parameters", .list Parameter.toJson e.entryParameters),
    ("parameters", .list parameter e.parameters), ("parameter", .optional .string slot)]

/-- What an operation on a program answers. -/
def reply : Reply → Json
  | .nothing => .null
  | .number n => .optional .nat n
  | .counts size temporaries free =>
    .array [.nat size, .bool (size = 0), .nat temporaries, .nat free]
  | .slot id s =>
    .object (slotMembers s ++ [("id", .string (slotText id)), ("synced", .bool s.isSynced)])
  | .method m => .optional (fun (m, address) => method m address) m
  | .texts lines => .list .string lines
  | .instr id i address =>
    .object [("id", .string (instrText id)), ("debug", .string i.text), ("size", .nat i.size),
      ("control_flow", .bool i.isControlFlow), ("label_target", .optional .nat i.labelTarget),
      ("address", .optional .nat address)]
  | .size bytes linked => .array [.nat bytes, .bool linked]

/-- Pairs of names in the order of the first ones. -/
def renamed (pairs : List (String × String)) : Json :=
  .list (fun (a, b) => .array [.string a, .string b])
    (pairs.mergeSort fun a b => a.1 < b.1 || (a.1 = b.1 && (a.2 < b.2 || a.2 = b.2)))

/-- An entry of a merged group. -/
def mergedEntry (e : MergedEntry) : Json :=
  .object [("action", .string e.action), ("method", .string e.method),
    ("parameters", .list (fun (p, slot) => namedSlot (p.name, slot)) e.parameters),
    ("return_var", .nat e.returnSlot), ("event_vars", .list namedSlot e.eventSlots)]

/-- The names that a merge gave. -/
def mergeTable (t : MergeTable) : Json :=
  .object [("prefix", .string t.namePrefix), ("methods", renamed t.methods),
    ("variables", renamed t.slots), ("entries", .list mergedEntry t.entries)]

/-- A run-time fault. -/
def fault (f : Fault) : Json :=
  .object [("error", .string "panic"), ("message", .string f.message)]

end TriggerCompiler.Console
