import TriggerCompiler.Lowering.State

/-!
Binding the inputs of an action to slots. A constant gets a slot of its own and leaves a reference
to its place; a variable is looked up; an output can declare a fresh local. Types are checked on the
way: what is read has to fit the parameter, and what is written has to take the parameter's type.
-/

namespace TriggerCompiler.Lower

/-- The slot that was found, or the complaint that a variable is not defined. -/
def found (id : String) : Option SlotId → Lower SlotId
  | some slot => pure slot
  | none => fail (.undefinedVariable id)

/-- The nearest enclosing condition with the slot of its result. -/
def conditionResult? : Lower (Option (Nat × SlotId)) := do
  let scopes := (← get).scopes
  return do
    let index ← scopes.nearestCondition?
    let frame ← scopes.frame? index
    let result ← frame.conditionResult
    return (index, result)

/-- The slot of a variable, which counts as used from now on. -/
def resolve (ref : VariableRef) : Lower SlotId := do
  let s ← get
  let slot ← match ref with
    | .user id => raise (s.program.slots.findUser id)
    | .localVar id => found id (s.locals.lookup id)
    | .eventInput name => found name (s.eventInputs.lookup name)
    | .conditionResult => do found "ConditionResult" ((← conditionResult?).map (·.2))
    | .this => this
  modify fun s => { s with used := slot :: s.used }
  return slot

/-- What stands for an input that is not bound. -/
def placeholder (p : Parameter) : Lower SlotId := do
  match p.onMissing with
  | .reject => fail (.unbound p.name)
  | .placeholder =>
    let slot ← temporary (p.type.getD .object)
    modify fun s => { s with pending := s.pending.push slot }
    return slot

/-- Fails because types do not match. -/
def mismatch {α : Type} (p : Parameter) (expected found : ValueType) : Lower α :=
  fail (.wrongType p.name expected.machineName found.machineName)

/-- The slot of a constant input, with a reference to its place. -/
def bindConstant (p : Parameter) (type : ValueType) (value : Value) : Lower SlotId := do
  let slot ← constant type value
  modify fun s =>
    let reference : SymbolReference :=
      { slot
        name := (s.program.slots.get slot).name
        event := s.coordinate.event
        action := s.coordinate.action
        parameter := p.name }
    { s with references := s.references.push reference }
  return slot

/-- Binds an input that the action reads. One that it also writes has to have the very type. -/
def bindRead (b : Binding) (p : Parameter) : Lower SlotId := do
  match b with
  | .unbound => placeholder p
  | .constant value =>
    match p.type with
    | some type =>
      if value.fits type then bindConstant p type value
      else mismatch p type value.typeOrObject
    | none => bindConstant p value.typeOrObject value
  | .var ref =>
    let id ← resolve ref
    match p.type with
    | none => return id
    | some type =>
      let actual := (← slot id).type
      let fits := if p.direction = .both then type = actual else type.accepts actual
      if fits then return id else mismatch p type actual
  | .newLocal id _ => fail (.undefinedVariable id)

/-- Binds an output that the action writes. A fresh local without a declared type has the inferred
one. -/
def bindWrite (b : Binding) (p : Parameter) (inferred : Option ValueType) : Lower SlotId := do
  match b with
  | .unbound => placeholder p
  | .constant value => mismatch p (p.type.getD .object) value.typeOrObject
  | .var .this => fail (.wrongType p.name "a writable variable" "this")
  | .var ref =>
    let id ← resolve ref
    match p.type with
    | none => return id
    | some type =>
      let actual := (← slot id).type
      if actual.accepts type then return id else mismatch p actual type
  | .newLocal id _ => declareLocal id ((p.type.or inferred).getD .object)

/-- Binds inputs in the order of the parameters. The type of the first one that is read is the
inferred type of the locals after it. -/
def bindInputs : List (Parameter × Binding) → Option ValueType → Lower (List SlotId)
  | [], _ => pure []
  | (p, b) :: rest, inferred => do
    let id ← if p.direction = .out then bindWrite b p inferred else bindRead b p
    let inferred ←
      if inferred.isNone && p.direction.reads then pure (some (← slot id).type) else pure inferred
    return id :: (← bindInputs rest inferred)

/-- Checks the number of inputs of an action and binds them. -/
def bindAction (d : ActionDef) (a : Action) : Lower BoundAction := do
  let expected := d.parameters.length
  if a.inputs.length ≠ expected then fail (.wrongArity expected a.inputs.length)
  if !d.manyTargets && !a.targets.isEmpty then
    fail (.wrongArity expected (expected + a.targets.length))
  let inputs ← bindInputs (d.parameters.zip a.inputs) none
  let targets ← match d.kind with
    | .host _ (some type) => a.targets.mapM fun b => bindRead b (.input "target" type)
    | _ => pure []
  return { definition := d, inputs, targets, coordinate := (← get).coordinate }

end TriggerCompiler.Lower

namespace TriggerCompiler.BoundAction

/-- The slot of an input. -/
def input (a : BoundAction) (index : Nat) : Lower SlotId :=
  match a.inputs[index]? with
  | some slot => pure slot
  | none =>
    throw
      { kind := .broken (.noInput a.definition.id index), coordinate := some a.coordinate }

/-- The parameters with their slots. -/
def arguments (a : BoundAction) : List (Parameter × SlotId) := a.definition.parameters.zip a.inputs

end TriggerCompiler.BoundAction
