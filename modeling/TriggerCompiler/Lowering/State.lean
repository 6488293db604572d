import TriggerCompiler.HostCall
import TriggerCompiler.Program.Merge
import TriggerCompiler.Program.Link
import TriggerCompiler.Registry.Basic
import TriggerCompiler.Scope

/-!
The state of a compile and the computations that change it. A computation that fails keeps the
changes it made: the compiler goes on after some errors.
-/

namespace TriggerCompiler

/-- What a compile is given beside the document. -/
structure Environment where
  registry : Registry
  options : CompileOptions := {}

/-- The place of a constant input, by which a host can find its slot. -/
structure SymbolReference where
  slot : SlotId
  name : String
  event : Nat
  action : Option Nat
  parameter : String
  deriving DecidableEq

/-- An action with its definition found and its inputs bound to slots. -/
structure BoundAction where
  definition : ActionDef
  /-- One slot for each parameter. -/
  inputs : List SlotId
  targets : List SlotId
  coordinate : Coordinate

/-- What a script saw when it made a note. -/
structure Note where
  tag : String
  method : String
  coordinate : String
  depth : Nat
  parent : Option Nat
  loop : Option Nat
  condition : Option Nat
  frames : List (Option String)
  groupPrefix : String
  /-- The parameters with their slots and the types of these; none where a block closes. -/
  arguments : Option (List (String × SlotId × String))
  targetCount : Option Nat
  deriving DecidableEq

/-- The state of a compile. -/
structure LowerState where
  program : Program := {}
  scopes : ScopeStack := {}
  /-- The errors about single actions so far. -/
  errors : Array CompileError := #[]
  warnings : Array Warning := #[]
  references : Array SymbolReference := #[]
  /-- The slots that some action refers to. -/
  used : List SlotId := []
  /-- The groups merged so far, by GUID. -/
  merges : List (String × MergeTable) := []
  mergeCount : Nat := 0
  /-- The inputs of the event. -/
  eventInputs : List (String × SlotId) := []
  /-- The locals in sight. -/
  locals : List (String × SlotId) := []
  /-- The method that instructions go to. -/
  method : MethodId := 0
  event : Nat := 0
  coordinate : Coordinate := .entry 0 ""
  /-- The placeholders to return when the action is done. -/
  pending : Array SlotId := #[]
  registers : Registers := {}
  notes : Array Note := #[]

/-- A computation of the compiler. -/
abbrev Lower := EStateM CompileError LowerState

namespace Lower

/-- Fails at the current place. -/
def fail {α : Type} (kind : ErrorKind) : Lower α := do
  throw { kind, coordinate := some (← get).coordinate }

/-- Raises the error of an outcome at the current place. -/
def raise {α : Type} : Except ErrorKind α → Lower α
  | .ok a => pure a
  | .error kind => fail kind

/-- Raises the error of an outcome at a given place, or at none. -/
def raiseAt {α : Type} (coordinate : Option Coordinate) : Except ErrorKind α → Lower α
  | .ok a => pure a
  | .error kind => throw { kind, coordinate }

/-- Warns about something, at a given place or at none. -/
def warnAt (coordinate : Option Coordinate) (message : String) : Lower Unit :=
  modify fun s => { s with warnings := s.warnings.push { message, coordinate } }

/-- Warns about something at the current place. -/
def warn (message : String) : Lower Unit := do warnAt (some (← get).coordinate) message

/-- Starts an event: its locals and inputs are yet to come. -/
def beginEvent (event : Nat) (entry : String) : Lower Unit :=
  modify fun s =>
    { s with event, coordinate := .entry event entry, locals := [], eventInputs := [] }

/-- Moves to an action of the event's body. -/
def beginAction (action : Nat) (id : String) : Lower Unit :=
  modify fun s => { s with coordinate := .inBody s.event action id }

/-! ## The program -/

/-- Changes the program. -/
def onProgram {α : Type} (f : Program → α × Program) : Lower α :=
  modifyGet fun s =>
    let (a, program) := f s.program
    (a, { s with program })

/-- Changes the slot table. -/
def onSlots {α : Type} (f : SlotTable → α × SlotTable) : Lower α :=
  onProgram fun p =>
    let (a, slots) := f p.slots
    (a, { p with slots })

/-- The outcome of a change of the program, which is not changed by a failure. -/
def tryProgram {α : Type} (f : Program → Except ErrorKind (α × Program)) :
    Lower (Except ErrorKind α) :=
  onProgram fun p =>
    match f p with
    | .ok (a, p) => (.ok a, p)
    | .error kind => (.error kind, p)

/-- The outcome of a change of the slot table, which is not changed by a failure. -/
def trySlots {α : Type} (f : SlotTable → Except ErrorKind (α × SlotTable)) :
    Lower (Except ErrorKind α) :=
  onSlots fun t =>
    match f t with
    | .ok (a, t) => (.ok a, t)
    | .error kind => (.error kind, t)

/-- The slot at a position. -/
def slot (id : SlotId) : Lower Slot := do return (← get).program.slots.get id

/-- A temporary of the type. -/
def temporary (type : ValueType) : Lower SlotId := onSlots (·.requestTemporary type)

/-- Returns a temporary. -/
def release (id : SlotId) : Lower Unit := onSlots fun t => ((), t.release id)

/-- The slot of a constant. -/
def constant (type : ValueType) (value : Value) : Lower SlotId := onSlots (·.constant type value)

/-- The slot of the object that runs the program. -/
def this : Lower SlotId := onSlots (·.thisSlot)

/-- Lets instructions go to another method from now on. -/
def enterMethod (method : MethodId) : Lower Unit := modify fun s => { s with method }

/-! ## Instructions of the current method -/

/-- Adds an instruction. -/
def emit (i : Instr) : Lower Unit := do
  let method := (← get).method
  let _ ← onProgram (·.emit method i)

/-- A label that is not placed yet. -/
def newLabel : Lower InstrId := onProgram (·.newLabel)

/-- Places a label. -/
def place (label : InstrId) : Lower Unit := do
  let method := (← get).method
  onProgram fun p => ((), p.place method label)

/-- Copies one slot into another. -/
def copy (source target : SlotId) : Lower Unit := do
  emit (.push source)
  emit (.push target)
  emit .copy

/-- Jumps if a slot holds false. -/
def jumpIfFalse (condition : SlotId) (target : InstrId) : Lower Unit := do
  emit (.push condition)
  emit (.jumpIfFalse target)

/-- Calls the host. -/
def callHost (signature : String) (arguments : List SlotId) : Lower Unit := do
  arguments.forM fun slot => emit (.push slot)
  emit (.host signature)

/-- Calls a method of the program: the return address goes into a slot, from which the method takes
it when it ends. -/
def callMethod (name : String) (returnSlot : SlotId) : Lower Unit := do
  let back ← newLabel
  let address ← constant .uint32 (.address (.instruction back))
  copy address returnSlot
  emit (.jumpMethod name)
  place back

/-- Runs an exported method through the host. -/
def sendCustomEvent (name : String) : Lower Unit := do
  let this ← this
  let name ← constant .string (.string name)
  callHost HostCall.sendCustomEvent [this, name]

/-- Inserts an instruction before the label that ends the method. -/
def insertBeforeLabel (label : InstrId) (i : Instr) : Lower InstrId := do
  let method := (← get).method
  raise (← tryProgram (·.insertBeforeLabel method (some label) i))

/-! ## Open blocks -/

/-- The index at which a block is reported missing that has no index. -/
def noIndex : Nat := UInt64.size - 1

/-- Changes the open blocks. -/
def onScopes (f : ScopeStack → ScopeStack) : Lower Unit :=
  modify fun s => { s with scopes := f s.scopes }

/-- The open block at an index. -/
def frameAt (index : Nat) : Lower Frame := do
  match (← get).scopes.frame? index with
  | some f => return f
  | none => fail (.broken (.noFrame index))

/-- The index of the innermost block. -/
def currentIndex : Lower Nat := do
  let depth := (← get).scopes.depth
  if depth = 0 then fail (.broken (.noFrame 0)) else return depth - 1

/-- The index of the block around the innermost one. -/
def parentIndex : Lower Nat := do
  match (← get).scopes.parentIndex? with
  | some index => return index
  | none => fail (.broken (.noFrame noIndex))

/-- Changes the innermost block. -/
def modifyCurrent (f : Frame → Frame) : Lower Unit := do
  let index ← currentIndex
  onScopes (·.modify index f)

/-- Changes the block around the innermost one. -/
def modifyParent (f : Frame → Frame) : Lower Unit := do
  let index ← parentIndex
  onScopes (·.modify index f)

/-- The label of the end of an open block, made when it is first asked for. -/
def frameEnd (index : Nat) : Lower InstrId := do
  match (← frameAt index).endLabel with
  | some label => return label
  | none =>
    let label ← newLabel
    onScopes (·.modify index fun f => { f with endLabel := some label })
    return label

/-- The label of the start of an open block, made when it is first asked for. -/
def frameStart (index : Nat) : Lower InstrId := do
  match (← frameAt index).startLabel with
  | some label => return label
  | none =>
    let label ← newLabel
    onScopes (·.modify index fun f => { f with startLabel := some label })
    return label

/-- The label of the end of a block that has been popped, and the block with it. -/
def closedEnd (f : Frame) : Lower (InstrId × Frame) := do
  match f.endLabel with
  | some label => return (label, f)
  | none =>
    let label ← newLabel
    return (label, { f with endLabel := some label })

/-- The label of the start of a block that has been popped, and the block with it. -/
def closedStart (f : Frame) : Lower (InstrId × Frame) := do
  match f.startLabel with
  | some label => return (label, f)
  | none =>
    let label ← newLabel
    return (label, { f with startLabel := some label })

/-- Pops the innermost block. -/
def popFrame : Lower Frame := do
  match (← get).scopes.pop? with
  | some (f, scopes) =>
    modify fun s => { s with scopes }
    return f
  | none => fail (.broken .emptyScopes)

/-- Ends a block that has been popped: its temporaries are returned, its locals go out of sight, and
the block around it remembers it. -/
def finishFrame (f : Frame) : Lower Unit := do
  f.owned.forM release
  modify fun s => { s with locals := s.locals.filter fun (id, _) => id ∉ f.localIds }
  onScopes (·.modifyCurrent fun parent =>
    { parent with previous := f.construct?, lastClosed := some f.closed })

/-! ## Locals and placeholders -/

/-- Declares a local in the innermost block. -/
def declareLocal (id : String) (type : ValueType) : Lower SlotId := do
  if ((← get).locals.lookup id).isSome then fail (.duplicateName id none)
  let slot ← temporary type
  modifyCurrent fun f => { f.own slot with localIds := f.localIds ++ [id] }
  modify fun s => { s with locals := (id, slot) :: s.locals }
  return slot

/-- The array with the element at a position gone and the last one in its place. -/
def swapRemove {α : Type} (xs : Array α) (index : Nat) : Array α :=
  match xs.back? with
  | some last => (xs.modify index fun _ => last).pop
  | none => xs

/-- Keeps a placeholder until the innermost block closes. -/
def keepInScope (slot : SlotId) : Lower Unit := do
  match (← get).pending.findIdx? (· = slot) with
  | some index =>
    modify fun s => { s with pending := swapRemove s.pending index }
    modifyCurrent (·.own slot)
  | none => return

/-- Returns the placeholders, the last one first. -/
def releasePending : Lower Unit := do
  (← get).pending.toList.reverse.forM release
  modify fun s => { s with pending := #[] }

/-! ## Writes -/

/-- What follows a write: the method has to send a synced variable, and a watched variable whose
value has changed runs its handler and becomes what the handler knows. -/
def afterWrite (id : SlotId) : Lower Unit := do
  let written ← slot id
  if written.isSynced then
    let method := (← get).method
    onProgram fun p => ((), p.modifyMethod method fun m => { m with serializes := true })
  match written.notifies, written.shadow with
  | true, some shadow =>
    let changed ← temporary .boolean
    if written.type.isValueType then
      callHost (HostCall.inequality written.type) [id, shadow, changed]
    else
      callHost HostCall.objectEquals [id, shadow, changed]
      callHost HostCall.booleanNegation [changed, changed]
    let skip ← newLabel
    jumpIfFalse changed skip
    sendCustomEvent (handlerName written.name)
    copy id shadow
    place skip
    release changed
  | _, _ => return

end Lower

end TriggerCompiler
