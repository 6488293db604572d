import TriggerCompiler.Lowering.Binding

/-!
Branches and conditions.

A condition evaluates its checks into one truth value, which starts as false. Every check stores the
value that it tests, and a check that decides the outcome jumps to the end of the condition, where
the result is pushed. The condition body takes it from the stack and is skipped if it is false.

A chain of branches is lowered branch by branch. Each further branch puts a jump to its own end in
front of the end label of the branch before, and lets all earlier jumps out of the chain go there
too, so in the end they all go to the end of the last branch.
-/

namespace TriggerCompiler.Lower

/-- Fails at the place where a block was opened, or at the current place. -/
def failAtFrame {α : Type} (f : Frame) (kind : ErrorKind) : Lower α := do
  throw { kind, coordinate := f.coordinate.or (some (← get).coordinate) }

/-- Places the label of the end of a block that has been popped. -/
def placeEnd (f : Frame) : Lower Frame := do
  let (label, f) ← closedEnd f
  place label
  return f

/-- Checks that a block had a condition and its body. -/
def requireConditionBody (c : Construct) (f : Frame) : Lower Unit := do
  if !f.sawConditionBody then failAtFrame f (.misplaced (.needsConditionBody c))

/-- Closes a tested branch. -/
def closeTestedBranch (c : Construct) (f : Frame) : Lower Frame := do
  requireConditionBody c f
  placeEnd f

/-- Closes a plain block; its end is marked only if something jumps there. -/
def closePlainBlock (f : Frame) : Lower Frame :=
  if f.endLabel.isSome then placeEnd f else pure f

/-- The branch that a further branch of a chain continues. -/
def previousBranch (c : Construct) : Lower ClosedBlock := do
  let parent ← frameAt (← parentIndex)
  match parent.previous, parent.lastClosed with
  | some .ifBranch, some closed | some .elseIf, some closed => return closed
  | _, _ => fail (.misplaced (.mustFollow c "If or ElseIf"))

/-- Hooks a further branch onto the chain. -/
def continueChain (c : Construct) : Lower Unit := do
  let previous ← previousBranch c
  match previous.endLabel with
  | none => fail (.broken (.noEndLabel c))
  | some previousEnd =>
    let chainEnd ← frameEnd (← currentIndex)
    previous.chainJumps.forM fun id => onProgram fun p => ((), p.setInstr id (.jump chainEnd))
    let skip ← insertBeforeLabel previousEnd (.jump chainEnd)
    modifyCurrent fun f => { f with chainJumps := previous.chainJumps ++ [skip] }

/-- Opens a condition. -/
def openCondition : Lower Unit := do
  let parent ← frameAt (← parentIndex)
  modifyParent fun f => { f with sawCondition := true }
  if !((parent.construct?.map Construct.takesCondition).getD false) then
    fail (.misplaced (.outsideBranch .condition))
  if parent.sawCondition then fail (.misplaced .secondCondition)
  let result ← temporary .boolean
  let label ← newLabel
  modifyCurrent fun f =>
    { f.own result with conditionResult := some result, endLabel := some label }
  let no ← constant .boolean (.boolean false)
  copy no result

/-- Closes a condition and pushes its result. -/
def closeCondition (f : Frame) : Lower Frame := do
  let f ← placeEnd f
  match f.conditionResult with
  | some result => emit (.push result)
  | none => pure ()
  return f

/-- The nearest enclosing condition with the slot of its result. -/
def enclosingCondition (c : Construct) : Lower (Nat × SlotId) := do
  match ← conditionResult? with
  | some found => return found
  | none => fail (.misplaced (.outsideCondition c))

/-- A check that ends the condition if the value is false. -/
def failIfFalse (a : BoundAction) : Lower Unit := do
  let value ← a.input 0
  let (index, result) ← enclosingCondition .failIfFalse
  let label ← frameEnd index
  copy value result
  jumpIfFalse value label

/-- A check that ends the condition if the value is true. -/
def passIfTrue (a : BoundAction) : Lower Unit := do
  let value ← a.input 0
  let (index, result) ← enclosingCondition .passIfTrue
  let label ← frameEnd index
  copy value result
  let negated ← temporary .boolean
  callHost HostCall.booleanNegation [value, negated]
  jumpIfFalse negated label
  release negated

/-- The last two instructions of a method as text. -/
def tailText (tail : List Instr) : String :=
  let item (i : Option Instr) := match i with
    | some i => "Some(" ++ i.text ++ ")"
    | none => "None"
  "[" ++ item tail[0]? ++ ", " ++ item tail[1]? ++ "]"

/-- Opens a condition body: it directly follows the condition, whose result is on the stack. -/
def openConditionBody : Lower Unit := do
  let index ← parentIndex
  let parent ← frameAt index
  if parent.previous ≠ some .condition then
    fail (.misplaced (.mustFollow .conditionBody Construct.condition.name))
  if !((parent.construct?.map Construct.takesCondition).getD false) then
    fail (.misplaced (.outsideBranch .conditionBody))
  let s ← get
  match s.program.tail s.method 2 with
  | [.nop, .push _] =>
    let label ← frameEnd index
    emit (.jumpIfFalse label)
    modifyParent fun f => { f with sawConditionBody := true }
  | tail => fail (.broken (.noConditionResult (tailText tail)))

end TriggerCompiler.Lower
