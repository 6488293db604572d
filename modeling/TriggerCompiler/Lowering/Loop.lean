import TriggerCompiler.Lowering.Branch

/-!
Loops. A tested loop marks its start, and its end puts a jump back in front of the end label of its
condition body, which has to come last. A counting loop copies its bound and its step once, tests
the index upwards or downwards by the sign of the step, and adds the step between two passes.
-/

namespace TriggerCompiler.Lower

/-- Opens a tested loop. -/
def openWhile : Lower Unit := do
  let start ← frameStart (← currentIndex)
  place start

/-- Closes a tested loop. -/
def closeWhile (f : Frame) : Lower Frame := do
  requireConditionBody .whileLoop f
  let bodyEnd? := match f.previous, f.lastClosed with
    | some .conditionBody, some closed => closed.endLabel
    | _, _ => none
  match bodyEnd? with
  | none => failAtFrame f (.misplaced .conditionBodyNotLast)
  | some bodyEnd =>
    let (start, f) ← closedStart f
    let _ ← insertBeforeLabel bodyEnd (.jump start)
    placeEnd f

/-- Checks the step of a counting loop, which must not be missing or zero for sure. A wrong number
of inputs is left to the binding. -/
def checkStep (d : ActionDef) (a : Action) : Lower Unit := do
  if a.inputs.length = d.parameters.length then
    match a.inputs[2]? with
    | some .unbound => fail (.badLoop .stepUnbound)
    | some (.constant (.int32 0)) => fail (.badLoop .stepZero)
    | _ => return

/-- Opens a counting loop. -/
def openFor (a : BoundAction) : Lower Unit := do
  let start ← a.input 0
  let bound ← a.input 1
  let step ← a.input 2
  let index ← a.input 3
  let frame ← currentIndex
  keepInScope index
  let stepValue ← temporary .int32
  let boundValue ← temporary .int32
  let upwards ← temporary .boolean
  modifyCurrent fun f => ((f.own stepValue).own boundValue).own upwards
  copy start index
  afterWrite index
  copy bound boundValue
  copy step stepValue
  let nought ← constant .int32 (.int32 0)
  callHost (HostCall.intComparison "GreaterThanOrEqual") [stepValue, nought, upwards]
  let check ← newLabel
  emit (.jump check)
  let again ← frameStart frame
  place again
  callHost (HostCall.intOperator "Addition") [index, stepValue, index]
  afterWrite index
  place check
  let inside ← temporary .boolean
  let downwards ← newLabel
  let test ← newLabel
  jumpIfFalse upwards downwards
  callHost (HostCall.intComparison "LessThan") [index, boundValue, inside]
  emit (.jump test)
  place downwards
  callHost (HostCall.intComparison "GreaterThan") [index, boundValue, inside]
  place test
  let leave ← frameEnd frame
  jumpIfFalse inside leave
  release inside

/-- Closes a counting loop. -/
def closeFor (f : Frame) : Lower Frame := do
  let (start, f) ← closedStart f
  emit (.jump start)
  placeEnd f

/-- The index of the innermost loop. -/
def enclosingLoop (c : Construct) : Lower Nat := do
  match (← get).scopes.nearestLoop? with
  | some index => return index
  | none => fail (.notInLoop c)

/-- Leaves the innermost loop. -/
def breakLoop : Lower Unit := do
  let label ← frameEnd (← enclosingLoop .breakLoop)
  emit (.jump label)

/-- Starts the next pass of the innermost loop. -/
def continueLoop : Lower Unit := do
  let label ← frameStart (← enclosingLoop .continueLoop)
  emit (.jump label)

/-- Ends the event. -/
def returnEvent : Lower Unit := do
  let method := (← get).method
  let label ← onProgram (·.endLabel method)
  emit (.jump label)

end TriggerCompiler.Lower
