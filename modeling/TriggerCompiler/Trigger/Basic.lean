import TriggerCompiler.Value

/-!
The documents that an editor hands to the compiler: triggers, made of variables and events, and
action groups, made of variables and actions that other documents can call. Nothing about them is
checked here; the compiler checks arity, bindings and types and reports against the place at fault.
-/

namespace TriggerCompiler

/-- How a variable is kept in step between players. -/
inductive SyncMode where
  | none
  | synced
  | linear
  | smooth
  deriving DecidableEq, Inhabited

/-- A variable of a trigger or an action group. -/
structure VariableDecl where
  /-- The editor's id, by which bindings refer to the variable. -/
  id : String
  name : String
  type : ValueType
  sync : SyncMode := .none
  initial : Option Value := none
  /-- Whether a write that changes the value runs the variable's handler. -/
  notifies : Bool := false
  deriving DecidableEq

/-- A variable that an action reads or writes. -/
inductive VariableRef where
  /-- A variable of the document, by the editor's id. -/
  | user (id : String)
  /-- A local that an earlier action declared. -/
  | localVar (id : String)
  /-- An input of the enclosing event. -/
  | eventInput (name : String)
  /-- The result of the nearest enclosing condition. -/
  | conditionResult
  /-- The object that runs the program. -/
  | this
  deriving DecidableEq

/-- What an action's input is fed with. -/
inductive Binding where
  | unbound
  | constant (value : Value)
  | var (ref : VariableRef)
  /-- A fresh local for an output, visible until the enclosing block closes. -/
  | newLocal (id name : String)
  deriving DecidableEq

/-- One use of an action. -/
structure Action where
  /-- The registered id of the action. -/
  id : String
  /-- The action group that it comes from, if any. -/
  group : Option String := none
  inputs : List Binding := []
  /-- The objects that a call on many targets is made on. -/
  targets : List Binding := []
  deriving DecidableEq

/-- Who may run an event. -/
inductive Gate where
  | anyone
  | owner
  | master
  deriving DecidableEq, Inhabited

/-- Where an event's body runs. -/
inductive Broadcast where
  | here
  | all
  | owner
  deriving DecidableEq, Inhabited

/-- How an event is gated, sent on and delayed. -/
structure EventOptions where
  gate : Gate := .anyone
  broadcast : Broadcast := .here
  delay : Single := Single.zero
  deriving DecidableEq

/-- An event of a trigger: what starts it, and the actions that it runs. -/
structure Event where
  name : String
  entry : Action
  actions : List Action := []
  options : EventOptions := {}
  deriving DecidableEq

/-- A complete trigger. -/
structure Trigger where
  declarations : List VariableDecl := []
  events : List Event := []
  deriving DecidableEq

/-- The flow of data through a parameter. -/
inductive Direction where
  | into
  | out
  | both
  deriving DecidableEq, Inhabited

namespace Direction

/-- Whether the action reads the parameter. -/
def reads : Direction → Bool
  | into | both => true
  | out => false

/-- Whether the action writes the parameter. -/
def writes : Direction → Bool
  | out | both => true
  | into => false

end Direction

/-- What happens when a parameter is left unbound. -/
inductive MissingPolicy where
  /-- The action is rejected. -/
  | reject
  /-- A fresh temporary takes the place. -/
  | placeholder
  deriving DecidableEq, Inhabited

/-- A parameter of an action. -/
structure Parameter where
  name : String
  /-- The type; none takes any. -/
  type : Option ValueType := none
  direction : Direction := .into
  onMissing : MissingPolicy := .reject
  deriving DecidableEq, Inhabited

namespace Parameter

/-- A typed parameter that is read. -/
def input (name : String) (type : ValueType) : Parameter := { name, type := some type }

/-- A typed parameter that is written. -/
def output (name : String) (type : ValueType) : Parameter :=
  { name, type := some type, direction := .out }

/-- A parameter of any type that is read. -/
def anyInput (name : String) : Parameter := { name }

/-- A parameter of any type that is written. -/
def anyOutput (name : String) : Parameter := { name, direction := .out }

end Parameter

/-- An action that a group offers. -/
structure GroupAction where
  name : String
  /-- The event type whose inputs the action reads, if any. -/
  eventType : Option String := none
  parameters : List Parameter := []
  actions : List Action := []
  deriving DecidableEq

/-- A bundle of actions that is compiled once and merged into every program that uses it. -/
structure ActionGroup where
  guid : String
  name : String
  declarations : List VariableDecl := []
  actions : List GroupAction := []
  deriving DecidableEq

end TriggerCompiler
