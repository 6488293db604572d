import TriggerCompiler.Lowering.Call
import TriggerCompiler.Lowering.Loop
import TriggerCompiler.Lowering.Script

/-!
Lowering the body of an event: every action is looked up, bound and lowered by its kind. An error
about the bindings of an action that neither opens nor closes a block is kept, and the action is
skipped; any other error ends the compile.
-/

namespace TriggerCompiler.Lower

/-- Runs a computation and gives its outcome. -/
def attempt {α : Type} (x : Lower α) : Lower (Except CompileError α) := fun s =>
  match x s with
  | .ok a s => .ok (.ok a) s
  | .error e s => .ok (.error e) s

/-- Lowers a construct whose frame, if it opens a block, is already open. -/
def lowerConstruct (c : Construct) (a : BoundAction) : Lower Unit :=
  match c with
  | .ifBranch | .block | .blockEnd => pure ()
  | .elseIf | .elseBranch => continueChain c
  | .condition => openCondition
  | .conditionBody => openConditionBody
  | .passIfTrue => passIfTrue a
  | .failIfFalse => failIfFalse a
  | .whileLoop => openWhile
  | .forLoop => openFor a
  | .breakLoop => breakLoop
  | .continueLoop => continueLoop
  | .returnEvent => returnEvent
  | .setVariable => setVariable a
  | .localVariable => localVariable a

/-- Closes the block of a construct and gives its frame with the labels it has now. -/
def closeConstruct (c : Construct) (f : Frame) : Lower Frame :=
  match c with
  | .ifBranch | .elseIf => closeTestedBranch c f
  | .elseBranch | .conditionBody => placeEnd f
  | .condition => closeCondition f
  | .whileLoop => closeWhile f
  | .forLoop => closeFor f
  | .block | .blockEnd => closePlainBlock f
  | _ => pure f

/-- Closes the block of an opener. -/
def closeOpener (env : Environment) (f : Frame) : Lower Frame := do
  match f.opener with
  | some (.construct c) => closeConstruct c f
  | some (.script s) =>
    let scene ← script env s.close { closed := some f }
    return scene.closed.getD f
  | none => return f

/-- Closes the innermost block; the outermost one is not closed by an action. -/
def closeBlock (env : Environment) : Lower Unit := do
  if (← get).scopes.depth ≤ 1 then fail (.misplaced .nothingOpen)
  let f ← popFrame
  match ← attempt (closeOpener env f) with
  | .ok f => finishFrame f
  | .error e =>
    finishFrame f
    throw e

/-- Opens a block if the opener does. -/
def openBlock (opener : Opener) (opens : Bool) (a : BoundAction) : Lower Unit := do
  if opens then onScopes (·.push (Frame.openedBy opener a.coordinate))

/-- Lowers an action whose inputs are bound. -/
def lowerBound (env : Environment) (a : BoundAction) : Lower Unit := do
  match a.definition.kind with
  | .construct c =>
    openBlock (.construct c) c.opensBlock a
    lowerConstruct c a
  | .script s =>
    openBlock (.script s) s.opensBlock a
    let _ ← script env s.lower { action := some a }
  | .host signature onType => hostCall signature onType a
  | .group guid action => groupCall env guid action a

/-- Lowers an action by its definition. -/
def lowerDefinition (env : Environment) (d : ActionDef) (a : Action) : Lower Unit := do
  match d.construct? with
  | some .blockEnd => closeBlock env
  | c =>
    if c = some .forLoop then checkStep d a
    lowerBound env (← bindAction d a)

/-- Lowers the action at a position of the body. -/
def lowerAction (env : Environment) (index : Nat) (a : Action) : Lower Unit := do
  beginAction index a.id
  let d ← raise (env.registry.findAction a.id a.group)
  let outcome ← attempt (lowerDefinition env d a)
  releasePending
  match outcome with
  | .ok () => pure ()
  | .error e =>
    if e.kind.isFatal || d.affectsBlocks then throw e
    modify fun s => { s with errors := s.errors.push e }
  if !d.affectsBlocks then
    onScopes (·.modifyCurrent fun f => { f with previous := d.construct? })

/-- Lowers actions from a position of the body on. -/
def lowerActions (env : Environment) : Nat → List Action → Lower Unit
  | _, [] => pure ()
  | index, a :: rest => do
    lowerAction env index a
    lowerActions env (index + 1) rest

/-- Lowers actions as the body of the current method, in a block of their own. -/
def lowerBody (env : Environment) (actions : List Action) : Lower Unit := do
  onScopes (·.push Frame.root)
  lowerActions env 0 actions
  let s ← get
  if s.scopes.depth > 1 then
    let f := s.scopes.current?.getD Frame.root
    failAtFrame f (.misplaced (.neverClosed ((f.opener.map Opener.text).getD "")))
  finishFrame (← popFrame)

end TriggerCompiler.Lower
