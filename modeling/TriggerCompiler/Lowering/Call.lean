import TriggerCompiler.Lowering.Binding

/-!
Assignments and calls: into the host, once or once per target, and into action groups, which are
merged into the program when they are first called.
-/

namespace TriggerCompiler.Lower

/-- Assigns a value to a variable that can hold its type. -/
def setVariable (a : BoundAction) : Lower Unit := do
  let value ← a.input 0
  let target ← a.input 1
  let valueType := (← slot value).type
  let targetType := (← slot target).type
  if !targetType.accepts valueType then
    fail (.wrongType "value" targetType.machineName valueType.machineName)
  copy value target
  afterWrite target

/-- Gives a local its first value. -/
def localVariable (a : BoundAction) : Lower Unit := do
  let value ← a.input 0
  let target ← a.input 1
  copy value target
  afterWrite target

/-- The targets of a host call. A call on many targets without any is made on the running object,
unless it is a call on a value type. -/
def hostTargets (onType : Option ValueType) (a : BoundAction) : Lower (List SlotId) := do
  match onType with
  | none => return []
  | some type =>
    if !a.definition.manyTargets then return []
    else if a.targets.isEmpty && !type.isValueType then return [← this]
    else return a.targets

/-- Calls the host, once for each target, and then tends to what the call wrote. -/
def hostCall (signature : String) (onType : Option ValueType) (a : BoundAction) : Lower Unit := do
  let targets ← hostTargets onType a
  if targets.isEmpty then callHost signature a.inputs
  else targets.forM fun target => callHost signature (target :: a.inputs)
  a.arguments.forM fun (p, slot) => if p.direction.writes then afterWrite slot else pure ()

/-- The merged form of a group, merged now if it was not before. -/
def mergedGroup (env : Environment) (guid action : String) : Lower MergeTable := do
  let s ← get
  match s.merges.lookup guid with
  | some table => return table
  | none =>
    match env.registry.group? guid with
    | none => fail (.unknownAction action (some guid))
    | some group =>
      let namePrefix := env.options.groupPrefix ++ toString s.mergeCount ++ "_"
      modify fun s => { s with mergeCount := s.mergeCount + 1 }
      let outcome ← onProgram (·.merge group namePrefix)
      let table ← raise outcome
      modify fun s => { s with merges := (guid, table) :: s.merges }
      return table

/-- The merged entry of a group's action. -/
def mergedEntry (env : Environment) (guid action : String) : Lower MergedEntry := do
  let table ← mergedGroup env guid action
  match table.entry? action with
  | some entry => return entry
  | none => fail (.unknownAction action (some guid))

/-- Calls a group's action: arguments and event inputs are copied into its slots, and what it wrote
is copied back. -/
def groupCall (env : Environment) (guid action : String) (a : BoundAction) : Lower Unit := do
  let entry ← mergedEntry env guid action
  let arguments := entry.parameters.zip a.inputs
  arguments.forM fun ((p, slot), argument) =>
    if p.direction.reads then copy argument slot else pure ()
  entry.eventSlots.forM fun (input, slot) => do
    match (← get).eventInputs.lookup input with
    | some source => copy source slot
    | none =>
      warn ("'" ++ action ++ "' reads event input '" ++ input
        ++ "', which this event does not provide")
  callMethod entry.method entry.returnSlot
  arguments.forM fun ((p, slot), argument) =>
    if p.direction.writes then do
      copy slot argument
      afterWrite argument
    else pure ()

end TriggerCompiler.Lower
