import TriggerCompiler.Assembly.Event

/-!
Assembling action groups. Every action becomes a method that is entered by calls only; its
parameters are slots named after the action and the parameter, and it returns to the address that
the caller left.
-/

namespace TriggerCompiler.Lower

/-- Declares a variable of a group, whose changes cannot be watched. -/
def declareGroupVariable (v : VariableDecl) : Lower Unit := do
  if v.notifies then
    warnAt none ("change callbacks are not supported on action group variable '" ++ v.name ++ "'")
  declareUser { v with notifies := false }

/-- Declares the slot of a parameter, which the body sees as a local. -/
def declareParameter (action : String) (place : Coordinate) (p : Parameter) :
    Lower (Parameter × SlotId) := do
  match p.type with
  | none =>
    throw { kind := .wrongType p.name "a declared type" "any", coordinate := some place }
  | some type =>
    let outcome ← trySlots (·.declare (action ++ "_" ++ p.name) type .user)
    let slot ← raiseAt (some place) outcome
    modify fun s => { s with locals := (p.name, slot) :: s.locals }
    return (p, slot)

/-- Declares the slots of the inputs of an event type. -/
def declareEventInputs (env : Environment) (place : Coordinate) (eventType : Option String) :
    Lower (List (String × SlotId)) := do
  match eventType with
  | none => return []
  | some id =>
    let type ← raiseAt (some place) (env.registry.findEvent id)
    type.parameters.mapM fun p => do
      let slot ← raiseAt (some place) (← trySlots (·.reserved p.slot p.type))
      addEventInput p.name slot
      return (p.name, slot)

/-- Assembles an action of a group. -/
def assembleGroupAction (env : Environment) (index : Nat) (a : GroupAction) :
    Lower GroupEntry := do
  beginEvent index a.name
  let place := Coordinate.entry index a.name
  let method ← raiseAt (some place) (← tryProgram (·.addMethod a.name .internal))
  let returnSlot ← raiseAt (some place)
    (← trySlots (·.declare (a.name ++ "__return") .uint32 .reserved))
  onProgram fun p => ((), p.setEpilogue method (.indirect returnSlot))
  let parameters ← a.parameters.mapM (declareParameter a.name place)
  let eventSlots ← declareEventInputs env place a.eventType
  enterMethod method
  lowerBody env a.actions
  let entry : GroupEntry :=
    { name := a.name, method := a.name, parameters, returnSlot, eventType := a.eventType,
      eventSlots }
  return entry

/-- Assembles actions of a group from a position on. -/
def assembleGroupActions (env : Environment) : Nat → List GroupAction → Lower (List GroupEntry)
  | _, [] => pure []
  | index, a :: rest => do
    let entry ← assembleGroupAction env index a
    return entry :: (← assembleGroupActions env (index + 1) rest)

/-- Assembles a group. -/
def assembleGroup (env : Environment) (g : ActionGroup) : Lower (List GroupEntry) := do
  g.declarations.forM declareGroupVariable
  assembleGroupActions env 0 g.actions

end TriggerCompiler.Lower
