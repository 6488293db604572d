import TriggerCompiler.Group
import TriggerCompiler.Script

/-!
The registry: what the compiler knows about actions, event types and compiled action groups. An
action is known by its id and, if it comes from a group, by the group's GUID.
-/

namespace TriggerCompiler

/-- How an action is lowered. -/
inductive ActionKind where
  | construct (c : Construct)
  /-- A call into the host; on an object of the given type, if there is one. -/
  | host (signature : String) (onType : Option ValueType)
  | script (s : Script)
  /-- An action of a registered group. -/
  | group (guid action : String)
  deriving DecidableEq

namespace ActionKind

/-- The kind as text. -/
def text : ActionKind → String
  | construct c => "Builtin(" ++ c.name ++ ")"
  | host signature _ => "Extern(" ++ signature ++ ")"
  | script _ => "Custom(..)"
  | group guid action => "GroupAction(" ++ guid ++ "::" ++ action ++ ")"

end ActionKind

/-- What the compiler knows about an action. -/
structure ActionDef where
  id : String
  parameters : List Parameter := []
  /-- Whether the action can be made on many targets. -/
  manyTargets : Bool := false
  kind : ActionKind
  deriving DecidableEq

namespace ActionDef

/-- The construct that the action is. -/
def construct? (d : ActionDef) : Option Construct :=
  match d.kind with
  | .construct c => some c
  | _ => none

/-- Whether the action opens or closes a block. -/
def affectsBlocks (d : ActionDef) : Bool :=
  match d.kind with
  | .construct c => c.affectsBlocks
  | .script s => s.opensBlock
  | _ => false

end ActionDef

/-- How the exported method of an event gets its name. -/
inductive EventMethod where
  /-- The machine fixes it. -/
  | named (name : String)
  /-- It is the entry's constant input. -/
  | fromInput
  /-- It is the handler of the variable that the entry names. -/
  | variableHandler
  deriving DecidableEq

/-- An input that the machine provides before an event starts. -/
structure EventParameter where
  name : String
  /-- The name of the slot that the machine writes. -/
  slot : String
  type : ValueType
  deriving DecidableEq

/-- What the compiler knows about a type of events. -/
structure EventType where
  id : String
  method : EventMethod
  /-- The inputs of the entry itself. -/
  entryParameters : List Parameter := []
  parameters : List EventParameter := []
  deriving DecidableEq

namespace EventType

/-- The first parameter with a name. -/
def parameter? (e : EventType) (name : String) : Option EventParameter :=
  e.parameters.find? (·.name = name)

end EventType

/-- The actions, event types and groups that the compiler knows, the last registered first. -/
structure Registry where
  actions : List ((String × Option String) × ActionDef) := []
  events : List (String × EventType) := []
  groups : List (String × CompiledGroup) := []

namespace Registry

/-- Registers an action outside of any group; an earlier one with its id is replaced. -/
def addAction (r : Registry) (d : ActionDef) : Registry :=
  { r with actions := ((d.id, none), d) :: r.actions }

/-- Registers an event type; an earlier one with its id is replaced. -/
def addEvent (r : Registry) (e : EventType) : Registry :=
  { r with events := (e.id, e) :: r.events }

/-- The definition of a group's action. -/
def groupActionDef (guid : String) (e : GroupEntry) : ActionDef where
  id := e.name
  parameters := e.parameters.map (·.1)
  kind := .group guid e.name

/-- Registers a compiled group and its actions. Actions that an earlier group of the same GUID had,
and this one has not, stay known. -/
def addGroup (r : Registry) (g : CompiledGroup) : Registry :=
  let actions := g.entries.foldl
    (fun actions e => ((e.name, some g.guid), groupActionDef g.guid e) :: actions) r.actions
  { r with actions, groups := (g.guid, g) :: r.groups }

/-- The definition of an action. -/
def findAction (r : Registry) (id : String) (group : Option String) : Except ErrorKind ActionDef :=
  match r.actions.lookup (id, group) with
  | some d => .ok d
  | none => .error (.unknownAction id group)

/-- The event type with an id. -/
def findEvent (r : Registry) (id : String) : Except ErrorKind EventType :=
  match r.events.lookup id with
  | some e => .ok e
  | none => .error (.unknownAction id none)

/-- The compiled group with a GUID. -/
def group? (r : Registry) (guid : String) : Option CompiledGroup := r.groups.lookup guid

end Registry

end TriggerCompiler
