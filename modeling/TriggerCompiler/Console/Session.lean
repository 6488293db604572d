import TriggerCompiler.Console.Decode
import TriggerCompiler.Console.Encode

/-!
A session with one engine: actions, events and groups are registered, documents are compiled, and
the last compiled trigger is run and looked at, step by step. A step that is not understood changes
nothing.
-/

namespace TriggerCompiler.Console

/-- A session. -/
structure Session where
  engine : Engine := {}
  /-- The last compiled trigger; a failed compile forgets it. -/
  last : Option CompiledTrigger := none
  lastReport : Option Report := none
  /-- The compiled groups by the key they were stored under. -/
  groups : List (String × CompiledGroup) := []

/-- A step of a run. -/
inductive RunStep where
  | set (name : String) (value : Value)
  | get (name : String)
  | owner (is : Bool)
  | master (is : Bool)
  | call (method : String)

namespace RunStep

/-- Reads a step of a run. -/
def ofJson? (j : Json) : Option RunStep := do
  let c ← Call.ofJson? j
  match c.name with
  | "set" => return .set (← c.text 0) (← Value.ofJson? (c.argument 1))
  | "get" => return .get (← c.text 0)
  | "owner" => return .owner (← c.bool 0)
  | "master" => return .master (← c.bool 0)
  | "call" => return .call (← c.text 0)
  | _ => none

end RunStep

/-- What a call did, and how it failed if it did. -/
def callAnswer (failed : Option Fault) (e : Effects) : Json :=
  .object [("failed", .optional fault failed), ("log", .list value e.log.toList),
    ("custom", .list .string e.customEvents.toList),
    ("network", .list (fun (target, name) => .array [.int target.toInt, .string name])
      e.networkEvents.toList),
    ("delayed", .list (fun (name, delay) => .array [.string name, .string delay.text])
      e.delayedEvents.toList),
    ("serializations", .nat e.serializations)]

/-- Runs steps on a machine; a call that fails is the last one. -/
def runSteps : List RunStep → Machine → List Json
  | [], _ => []
  | step :: rest, m =>
    match step with
    | .set name v =>
      match m.write name v with
      | .ok m => .null :: runSteps rest m
      | .error f => fault f :: runSteps rest m
    | .get name =>
      match m.read name with
      | .ok v => value v :: runSteps rest m
      | .error f => fault f :: runSteps rest m
    | .owner is => .null :: runSteps rest { m with isOwner := is }
    | .master is => .null :: runSteps rest { m with isMaster := is }
    | .call method =>
      match Run.method method { m with effects := {} } with
      | .ok () m => callAnswer none m.effects :: runSteps rest m
      | .error f m => [callAnswer (some f) m.effects]

/-- A step of a session. -/
inductive Command where
  | action (d : ActionDef)
  | event (e : EventType)
  | compileGroup (g : ActionGroup) (key : String)
  | registerGroup (key : String) (unchecked : Bool)
  | compile (t : Trigger) (options : Option CompileOptions)
  | referencesTo (name : String)
  | run (steps : List RunStep)
  | lookupAction (id : String) (group : Option String)
  | lookupEvent (id : String) (parameter : Option String)
  | lookupGroup (guid : String) (entry : Option String)
  | engineOptions
  | renderError (coloured : Bool)
  | renderWarnings (coloured : Bool)

namespace Command

/-- Reads a step of a session. -/
def ofJson? (j : Json) : Option Command := do
  let name ← j.required Json.string? "do"
  match name with
  | "action" =>
    let kind ← j.required actionKind? "kind"
    let manyTargets ← j.withDefault Json.bool? false "multi_input"
    return .action {
      id := ← j.required Json.string? "id"
      parameters := ← j.listMember Parameter.ofJson? "parameters"
      manyTargets := match kind with
        | .script _ => false
        | _ => manyTargets
      kind }
  | "event" =>
    return .event {
      id := ← j.required Json.string? "id"
      method := ← j.required eventMethod? "method"
      entryParameters := ← j.listMember Parameter.ofJson? "entry_parameters"
      parameters := ← j.listMember eventParameter? "parameters" }
  | "compile_group" =>
    return .compileGroup (← j.required ActionGroup.ofJson? "group")
      (← j.required Json.string? "as")
  | "register_group" =>
    return .registerGroup (← j.required Json.string? "as")
      (← j.withDefault Json.bool? false "unchecked")
  | "compile" =>
    return .compile (← j.required Trigger.ofJson? "trigger")
      (← j.withDefault (fun o => (options? o).map some) none "options")
  | "references_to" => return .referencesTo (← j.required Json.string? "name")
  | "run" => return .run (← j.required (Json.list? RunStep.ofJson?) "steps")
  | "lookup_action" =>
    return .lookupAction (← j.required Json.string? "id") (← j.optionalMember Json.string? "group")
  | "lookup_event" =>
    return .lookupEvent (← j.required Json.string? "id")
      (← j.optionalMember Json.string? "parameter")
  | "lookup_group" =>
    return .lookupGroup (← j.required Json.string? "guid")
      (← j.optionalMember Json.string? "entry")
  | "engine_options" => return .engineOptions
  | "render_error" => return .renderError (← j.withDefault Json.bool? false "color")
  | "render_warnings" => return .renderWarnings (← j.withDefault Json.bool? false "color")
  | _ => none

end Command

namespace Session

/-- The session with another registry. -/
def withRegistry (s : Session) (f : Registry → Registry) : Session :=
  { s with engine := { s.engine with registry := f s.engine.registry } }

/-- Compiles a trigger. -/
def compile (s : Session) (t : Trigger) (options : Option CompileOptions) : Json × Session :=
  match s.engine.compileWith (options.getD s.engine.options) t with
  | .ok compiled => (compiledTrigger compiled, { s with last := some compiled })
  | .error r => (report r, { s with last := none, lastReport := some r })

/-- Compiles a group and stores it. -/
def compileGroup (s : Session) (g : ActionGroup) (key : String) : Json × Session :=
  match s.engine.compileActionGroup g with
  | .ok (group, notes) =>
    (compiledGroup group notes, { s with groups := (key, group) :: s.groups })
  | .error r => (report r, { s with lastReport := some r })

/-- Registers a stored group. -/
def registerGroup (s : Session) (key : String) (unchecked : Bool) : Json × Session :=
  let ok : Json := .object [("ok", .bool true)]
  match s.groups.lookup key with
  | none => (badInput, s)
  | some group =>
    if unchecked then (ok, s.withRegistry (·.addGroup group))
    else
      match s.engine.registerGroup group with
      | .ok engine => (ok, { s with engine })
      | .error r => (report r, { s with lastReport := some r })

/-- What the registry knows about a group, and the return slot of the entry asked for. -/
def lookupGroup (s : Session) (guid : String) (entry : Option String) : Json :=
  match s.engine.registry.group? guid with
  | none => .null
  | some g =>
    let slot := (entry.bind g.entry?).map (·.returnSlot)
    .object [("guid", .string g.guid), ("name", .string g.name),
      ("entries", .list (fun e => .string e.name) g.entries), ("entry", .optional .nat slot)]

/-- Carries out a step. -/
def run (s : Session) : Command → Json × Session
  | .action d =>
    let s := s.withRegistry (·.addAction d)
    (actionDef d, s)
  | .event e => (.object [("ok", .bool true)], s.withRegistry (·.addEvent e))
  | .compileGroup g key => s.compileGroup g key
  | .registerGroup key unchecked => s.registerGroup key unchecked
  | .compile t options => s.compile t options
  | .referencesTo name =>
    match s.last with
    | none => (badInput, s)
    | some t => (.list reference (t.referencesTo name), s)
  | .run steps =>
    match s.last with
    | none => (badInput, s)
    | some t => (.array (runSteps steps (Machine.ofProgram t.program)), s)
  | .lookupAction id group =>
    match s.engine.registry.findAction id group with
    | .ok d => (actionDef d, s)
    | .error k => (errorKind k, s)
  | .lookupEvent id parameter =>
    match s.engine.registry.findEvent id with
    | .ok e => (eventType e parameter, s)
    | .error k => (errorKind k, s)
  | .lookupGroup guid entry => (s.lookupGroup guid entry, s)
  | .engineOptions =>
    let o := s.engine.options
    (.array [.bool o.autoSerialize, .string o.groupPrefix, .bool o.warnUnused], s)
  | .renderError coloured =>
    match s.lastReport with
    | none => (badInput, s)
    | some r => (.string (r.render coloured), s)
  | .renderWarnings coloured =>
    match s.last with
    | none => (badInput, s)
    | some t =>
      (.string (Diagnostic.renderAll coloured (t.warnings.map Warning.diagnostic)), s)

/-- Carries out steps. -/
def runAll : List Json → Session → List Json
  | [], _ => []
  | j :: rest, s =>
    match Command.ofJson? j with
    | none => badInput :: runAll rest s
    | some command =>
      let (answer, s) := s.run command
      answer :: runAll rest s

/-- Answers a request for a session. -/
def answer? (j : Json) : Option Json := do
  let options ← j.withDefault options? {} "options"
  let empty ← j.withDefault Json.bool? false "empty_registry"
  let steps ← j.required Json.array? "steps"
  let registry : Registry := if empty then {} else .builtin
  return .array (runAll steps { engine := { registry, options } })

end Session

end TriggerCompiler.Console
