import TriggerCompiler.Lowering.Body

/-!
Assembling events. An event is a chain of methods that ends in the one that holds its body: the
exported method checks the gate and hands over to a network method if the event is broadcast, and
that to a delayed method if it is delayed. Events that share an exported name get a method each, and
the exported method calls them in the order of the trigger.
-/

namespace TriggerCompiler

/-- An event whose entry has been looked up. -/
structure PlannedEvent where
  index : Nat
  event : Event
  type : EventType
  /-- The name of the exported method. -/
  exported : String
  /-- The variable whose changes the event handles. -/
  watched : Option SlotId

namespace Lower

/-- The watched variable of an entry and the name of its handler. -/
def watchedVariable (e : Event) : Lower (SlotId × String) := do
  match e.entry.inputs with
  | .var (.user id) :: _ =>
    let slotId ← raise ((← get).program.slots.findUser id)
    let watched ← slot slotId
    if !watched.notifies then
      fail (.wrongType "variable" "a variable with a change callback" watched.name)
    modify fun s => { s with used := slotId :: s.used }
    return (slotId, handlerName watched.name)
  | _ => fail (.unbound "variable")

/-- Looks up the type of an event and the name of its exported method. -/
def planEvent (env : Environment) (index : Nat) (e : Event) : Lower PlannedEvent := do
  beginEvent index e.entry.id
  let type ← raise (env.registry.findEvent e.entry.id)
  let expected := type.entryParameters.length
  if e.entry.inputs.length ≠ expected then fail (.wrongArity expected e.entry.inputs.length)
  match type.method with
  | .named name => return { index, event := e, type, exported := name, watched := none }
  | .fromInput =>
    match e.entry.inputs with
    | .constant (.string name) :: _ =>
      if name.isEmpty then fail (.unbound "name")
      return { index, event := e, type, exported := name, watched := none }
    | _ => fail (.unbound "name")
  | .variableHandler =>
    let (watched, exported) ← watchedVariable e
    return { index, event := e, type, exported, watched := some watched }

/-- Plans events from a position on. An event whose entry is badly bound is left out. -/
def planEvents (env : Environment) : Nat → List Event → Lower (List PlannedEvent)
  | _, [] => pure []
  | index, e :: rest => do
    match ← attempt (planEvent env index e) with
    | .ok plan => return plan :: (← planEvents env (index + 1) rest)
    | .error err =>
      if err.kind.isFatal then throw err
      modify fun s => { s with errors := s.errors.push err }
      planEvents env (index + 1) rest

/-- Leaves a method if the slot holds false, and returns the slot. -/
def leaveUnless (method : MethodId) (allowed : SlotId) : Lower Unit := do
  let label ← onProgram (·.endLabel method)
  jumpIfFalse allowed label
  release allowed

/-- Leaves the method unless the gate lets the player pass. -/
def checkGate (gate : Gate) (method : MethodId) : Lower Unit := do
  match gate with
  | .anyone => return
  | .owner =>
    let allowed ← temporary .boolean
    let this ← this
    callHost HostCall.isOwner [this, allowed]
    leaveUnless method allowed
  | .master =>
    let allowed ← temporary .boolean
    callHost HostCall.isMaster [allowed]
    leaveUnless method allowed

/-- The exported name without its leading underscores. -/
def stem (exported : String) : String :=
  String.ofList (exported.toList.dropWhile (· = '_'))

/-- Adds a method at the current place. -/
def addMethod (name : String) (kind : MethodKind) : Lower MethodId := do
  raise (← tryProgram (·.addMethod name kind))

/-- Hands the event over to a network method, which becomes the current one. -/
def sendOverNetwork (plan : PlannedEvent) (broadcast : Broadcast) : Lower Unit := do
  let name := "event" ++ toString plan.index ++ stem plan.exported
  let network ← addMethod name .entry
  let this ← this
  let target ← constant HostCall.networkEventTarget
    (.int32 (if broadcast = .owner then 1 else 0))
  let callee ← constant .string (.string name)
  callHost HostCall.sendCustomNetworkEvent [this, target, callee]
  enterMethod network

/-- Hands the event over to a delayed method, which becomes the current one. -/
def sendDelayed (plan : PlannedEvent) (delay : Single) : Lower Unit := do
  let name := "_event" ++ toString plan.index ++ stem plan.exported ++ "Delayed"
  let delayed ← addMethod name .entry
  let this ← this
  let callee ← constant .string (.string name)
  let delay ← constant .single (.single delay)
  let timing ← constant HostCall.eventTiming (.int32 0)
  callHost HostCall.sendCustomEventDelayed [this, callee, delay, timing]
  enterMethod delayed

/-- Makes an event input known. -/
def addEventInput (name : String) (slot : SlotId) : Lower Unit :=
  modify fun s => { s with eventInputs := (name, slot) :: s.eventInputs }

/-- Assembles an event whose first method is the given one. -/
def assembleEvent (env : Environment) (plan : PlannedEvent) (method : MethodId) : Lower Unit := do
  let options := plan.event.options
  beginEvent plan.index plan.event.entry.id
  enterMethod method
  checkGate options.gate method
  let forwarded := options.broadcast ≠ .here || options.delay.isPositive
  if forwarded && !plan.type.parameters.isEmpty then
    warn ("event '" ++ plan.event.name
      ++ "' forwards its body to another method; its event inputs are not carried over")
  if options.broadcast ≠ .here then sendOverNetwork plan options.broadcast
  if options.delay.isPositive then sendDelayed plan options.delay
  plan.type.parameters.forM fun p => do
    let slot ← raise (← trySlots (·.reserved p.slot p.type))
    addEventInput p.name slot
  match plan.watched with
  | some watched =>
    match (← slot watched).shadow with
    | some shadow => addEventInput "previous" shadow
    | none => pure ()
  | none => pure ()
  lowerBody env plan.event.actions

/-- Assembles an event that shares its exported name with others. -/
def assembleShared (env : Environment) (exported : MethodId) (plan : PlannedEvent) :
    Lower Unit := do
  let name := "__event" ++ toString plan.index ++ plan.exported
  beginEvent plan.index plan.event.entry.id
  let method ← addMethod name .internal
  let returnSlot ← raise (← trySlots (·.declare (name ++ "__return") .uint32 .reserved))
  onProgram fun p => ((), p.setEpilogue method (.indirect returnSlot))
  enterMethod exported
  callMethod name returnSlot
  assembleEvent env plan method

/-- Assembles the events of one exported name. -/
def assembleName (env : Environment) (name : String) (plans : List PlannedEvent) : Lower Unit := do
  let exported ← addMethod name .entry
  match plans with
  | [only] => assembleEvent env only exported
  | plans => plans.forM (assembleShared env exported)

/-- Gives every watched variable without a handler an empty one. -/
def addMissingHandlers (declarations : List VariableDecl) : Lower Unit :=
  declarations.forM fun v => do
    let handler := handlerName v.name
    if v.notifies && ((← get).program.findMethod? handler).isNone then
      let _ ← raiseAt none (← tryProgram (·.addMethod handler .entry))
      warnAt none ("variable '" ++ v.name
        ++ "' has a change callback but no handler event; generated an empty '" ++ handler ++ "'")

/-- Warns about variables that nothing uses. -/
def warnUnused (declarations : List VariableDecl) : Lower Unit :=
  declarations.forM fun v => do
    let s ← get
    match s.program.slots.findUser v.id with
    | .ok slot =>
      if slot ∉ s.used then warnAt none ("variable '" ++ v.name ++ "' is never used")
    | .error _ => pure ()

/-- Declares a variable of the document. -/
def declareUser (v : VariableDecl) : Lower Unit := do
  let outcome ← onSlots (·.declareUser v)
  let _ ← raiseAt none outcome

/-- Assembles a trigger. -/
def assembleTrigger (env : Environment) (t : Trigger) : Lower Unit := do
  t.declarations.forM declareUser
  let plans ← planEvents env 0 t.events
  let names := (plans.map (·.exported)).eraseDups
  names.forM fun name => assembleName env name (plans.filter (·.exported = name))
  addMissingHandlers t.declarations
  if env.options.warnUnused then warnUnused t.declarations

end Lower

end TriggerCompiler
