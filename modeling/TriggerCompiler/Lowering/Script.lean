import TriggerCompiler.Lowering.Binding
import TriggerCompiler.Script.Bench

/-!
Running scripts as custom actions. The registers are those of the whole compile.
-/

namespace TriggerCompiler

/-- What a script can see beside the state of the compile: the action that it lowers, or the block
that it closes. -/
structure Scene where
  action : Option BoundAction := none
  closed : Option Frame := none

namespace Lower

/-- Fails because a script asks for something that there is not. -/
def unusable {α : Type} (name : String) : Lower α :=
  fail (.broken (.stated ("script has no '" ++ name ++ "'")))

/-- Runs a computation on the program and the registers. -/
def onBench {α : Type} (x : BenchM α) : Lower α := do
  let s ← get
  let bench : Bench :=
    { program := s.program, registers := s.registers, current := some s.method }
  match x bench with
  | .ok a bench =>
    set { s with program := bench.program, registers := bench.registers }
    return a
  | .error e bench =>
    set { s with program := bench.program, registers := bench.registers }
    match e with
    | .failed kind => fail kind
    | .unusable name => unusable name

/-- The slot in a register. -/
def slotIn (register : String) : Lower SlotId := onBench (Bench.slotIn register)

/-- The instruction in a register. -/
def instrIn (register : String) : Lower InstrId := onBench (Bench.instrIn register)

/-- Stores a slot. -/
def keepSlot (register : String) (slot : SlotId) : Lower Unit := do
  let _ ← onBench (Bench.keepSlot register slot)

/-- Stores an instruction. -/
def keepInstr (register : String) (id : InstrId) : Lower Unit := do
  let _ ← onBench (Bench.keepInstr register id)

/-- The index of the block that an operation is about. -/
def frameIndex : FrameRef → Lower Nat
  | .top => do
    let depth := (← get).scopes.depth
    return if depth = 0 then noIndex else depth - 1
  | .index n => pure n

/-- Notes down what the script sees. -/
def note (env : Environment) (scene : Scene) (tag : String) : Lower Unit :=
  modify fun s =>
    let slotType (id : SlotId) := (s.program.slots.get id).type.machineName
    let taken : Note :=
      { tag
        method := (s.program.method s.method).name
        coordinate := s.coordinate.text
        depth := s.scopes.depth
        parent := s.scopes.parentIndex?
        loop := s.scopes.nearestLoop?
        condition := s.scopes.nearestCondition?
        frames := s.scopes.frames.map fun f => f.construct?.map Construct.name
        groupPrefix := env.options.groupPrefix
        arguments := scene.action.map fun a =>
          a.arguments.map fun (p, slot) => (p.name, slot, slotType slot)
        targetCount := scene.action.map (·.targets.length) }
    { s with notes := s.notes.push taken }

/-- Runs an operation on the block that is being closed. -/
def onClosed (scene : Scene) (register : String)
    (f : Frame → Lower (InstrId × Frame)) : Lower Scene := do
  match scene.closed with
  | none => unusable "closed block"
  | some frame =>
    let (label, frame) ← f frame
    keepInstr register label
    return { scene with closed := some frame }

/-- Runs an operation of a script. -/
def scriptOp (env : Environment) (scene : Scene) (op : ScriptOp) : Lower Scene := do
  match op with
  | .closedEnd r => onClosed scene r closedEnd
  | .closedStart r => onClosed scene r closedStart
  | op =>
    match op with
    | .closedEnd _ | .closedStart _ => pure ()
    | .program op => let _ ← onBench (Bench.run op)
    | .input r index =>
      match scene.action with
      | some a => keepSlot r (← a.input index)
      | none => unusable "action"
    | .push v => emit (.push (← slotIn v))
    | .copy source target =>
      let source ← slotIn source
      let target ← slotIn target
      copy source target
    | .jumpIfFalse v l =>
      let condition ← slotIn v
      let target ← instrIn l
      jumpIfFalse condition target
    | .callHost signature slots => callHost signature (← slots.mapM slotIn)
    | .callMethod name v => callMethod name (← slotIn v)
    | .sendCustomEvent name => sendCustomEvent name
    | .this r => keepSlot r (← this)
    | .afterWrite v => afterWrite (← slotIn v)
    | .declareLocal r id type => keepSlot r (← declareLocal id type)
    | .keepInScope v => keepInScope (← slotIn v)
    | .own v =>
      let slot ← slotIn v
      modifyCurrent (·.own slot)
    | .frameEnd r frame => keepInstr r (← frameEnd (← frameIndex frame))
    | .frameStart r frame => keepInstr r (← frameStart (← frameIndex frame))
    | .setLoop isLoop => modifyCurrent fun f => { f with isLoop }
    | .setConditionResult v =>
      let conditionResult ← match v with
        | some v => some <$> slotIn v
        | none => pure none
      modifyCurrent fun f => { f with conditionResult }
    | .parentPrevious construct => modifyParent fun f => { f with previous := construct }
    | .currentPrevious construct => modifyCurrent fun f => { f with previous := construct }
    | .dropClosedEnd =>
      modifyCurrent fun f =>
        { f with lastClosed := f.lastClosed.map fun closed => { closed with endLabel := none } }
    | .pushScope none => onScopes (·.push Frame.root)
    | .pushScope (some c) =>
      let coordinate := (← get).coordinate
      onScopes (·.push (Frame.openedBy (.construct c) coordinate))
    | .popScope => let _ ← popFrame
    | .resolve r ref => keepSlot r (← resolve ref)
    | .bindRead r b p => keepSlot r (← bindRead b p)
    | .bindWrite r b p inferred => keepSlot r (← bindWrite b p inferred)
    | .warn message => warn message
    | .fail kind located => if located then fail kind else throw { kind }
    | .enterMethod name =>
      match (← get).program.findMethod? name with
      | some method => enterMethod method
      | none => unusable name
    | .note tag => note env scene tag
    return scene

/-- Runs the operations of a script. -/
def script (env : Environment) (ops : List ScriptOp) (scene : Scene) : Lower Scene :=
  ops.foldlM (scriptOp env) scene

end Lower

end TriggerCompiler
