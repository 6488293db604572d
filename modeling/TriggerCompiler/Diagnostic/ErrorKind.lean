import TriggerCompiler.Construct
import TriggerCompiler.Slot

/-!
Why a document does not compile. Each cause is a value; its wording, its code and the advice that
goes with it are functions of the value. Four causes concern the bindings of one action only: the
compiler skips the action and looks for more. Every other cause ends the compile.
-/

namespace TriggerCompiler

/-- Why a block or a construct is not where it may be. -/
inductive Misplacement where
  /-- The block of the opener is still open at the end. -/
  | neverClosed (opener : String)
  | nothingOpen
  | mustFollow (construct : Construct) (expected : String)
  | needsConditionBody (construct : Construct)
  | conditionBodyNotLast
  | outsideBranch (construct : Construct)
  | secondCondition
  | outsideCondition (construct : Construct)
  /-- A reason given by a custom action. -/
  | stated (message : String)
  deriving DecidableEq

/-- The wording of a misplacement. -/
def Misplacement.message : Misplacement → String
  | neverClosed opener => opener ++ " is never closed by a BlockEnd"
  | nothingOpen => "BlockEnd without an open block"
  | mustFollow construct expected => construct.name ++ " must follow " ++ expected
  | needsConditionBody construct =>
    construct.name ++ " needs a Condition followed by a ConditionBody"
  | conditionBodyNotLast => "While must end with its ConditionBody"
  | outsideBranch construct => construct.name ++ " must be inside If, ElseIf or While"
  | secondCondition => "a block takes exactly one Condition"
  | outsideCondition construct => construct.name ++ " must be inside a Condition"
  | stated message => message

/-- How lowering broke a rule that it relies on. -/
inductive Breach where
  | noFrame (index : Nat)
  | emptyScopes
  | noTrailingLabel (method : String)
  | noEndLabel (construct : Construct)
  /-- A condition body does not find what the condition leaves behind; the last two instructions
  of the method are given as text. -/
  | noConditionResult (tail : String)
  | noInput (action : String) (index : Nat)
  | placedTwice (id : InstrId)
  | unplacedTarget (id : InstrId) (method : String) (target : InstrId)
  | unplacedAddress (id : InstrId)
  /-- A reason given by a custom action. -/
  | stated (message : String)
  deriving DecidableEq

/-- The wording of a breach. -/
def Breach.message : Breach → String
  | noFrame index => "no scope frame at depth " ++ toString index
  | emptyScopes => "Cannot pop from empty scope stack"
  | noTrailingLabel method => "expected method '" ++ method ++ "' to end with a label"
  | noEndLabel construct => construct.name ++ " branch closed without an end label"
  | noConditionResult tail =>
    "ConditionBody expects the condition's end label and result push, found " ++ tail
  | noInput action index => action ++ " has no input " ++ toString index
  | placedTwice id => "instruction " ++ instrText id ++ " is placed twice"
  | unplacedTarget id method target =>
    instrText id ++ " in method '" ++ method ++ "' jumps to label " ++ instrText target
      ++ ", which was never placed"
  | unplacedAddress id => "address of " ++ instrText id ++ " taken but never placed"
  | stated message => message

/-- What is wrong with the parameters of a counting loop. -/
inductive LoopFault where
  | stepUnbound
  | stepZero
  /-- A reason given by a custom action. -/
  | stated (message : String)
  deriving DecidableEq

/-- The wording of a loop fault. -/
def LoopFault.message : LoopFault → String
  | stepUnbound => "step is not bound"
  | stepZero => "step is zero"
  | stated message => message

/-- Why a document does not compile. -/
inductive ErrorKind where
  | misplaced (reason : Misplacement)
  | notInLoop (construct : Construct)
  | undefinedVariable (id : String)
  /-- A name is taken; the kind of the slot that has it, if a slot does. -/
  | duplicateName (name : String) (existing : Option SlotKind)
  | unknownAction (id : String) (group : Option String)
  | missingMethod (name : String)
  | broken (breach : Breach)
  | badLoop (fault : LoopFault)
  | unbound (parameter : String)
  | wrongArity (expected found : Nat)
  | wrongType (parameter expected found : String)
  | nameCollision (name : String)
  deriving DecidableEq

namespace ErrorKind

/-- The wording. -/
def message : ErrorKind → String
  | misplaced reason => "misplaced block: " ++ reason.message
  | notInLoop construct => construct.name ++ " is not inside a loop"
  | undefinedVariable id => "undefined variable '" ++ id ++ "'"
  | duplicateName name _ => "name '" ++ name ++ "' is already declared"
  | unknownAction id _ => "unknown action '" ++ id ++ "'"
  | missingMethod name => "no method named '" ++ name ++ "' to jump to"
  | broken breach => "internal compiler error: " ++ breach.message
  | badLoop fault => "invalid loop parameter: " ++ fault.message
  | unbound parameter => "parameter '" ++ parameter ++ "' is not bound"
  | wrongArity expected found =>
    "expected " ++ toString expected ++ " inputs, found " ++ toString found
  | wrongType parameter expected found =>
    "parameter '" ++ parameter ++ "' expects " ++ expected ++ ", found " ++ found
  | nameCollision name => "'" ++ name ++ "' collides with an existing name after merging"

/-- The stable code. -/
def code : ErrorKind → String
  | misplaced _ => "E001"
  | notInLoop _ => "E002"
  | undefinedVariable _ => "E003"
  | duplicateName _ _ => "E004"
  | unknownAction _ _ => "E005"
  | missingMethod _ => "E006"
  | broken _ => "E007"
  | badLoop _ => "E008"
  | unbound _ => "E009"
  | wrongArity _ _ => "E010"
  | wrongType _ _ _ => "E011"
  | nameCollision _ => "E012"

/-- Whether the compile ends here. An error about one action's bindings does not end it. -/
def isFatal : ErrorKind → Bool
  | unbound _ | wrongArity _ _ | wrongType _ _ _ | undefinedVariable _ => false
  | _ => true

/-- Whether the compiler, and not the document, is at fault. -/
def isInternal : ErrorKind → Bool
  | broken _ => true
  | _ => false

/-- Advice on how to mend the document. -/
def help : ErrorKind → Option String
  | misplaced _ => some "every block needs exactly one matching BlockEnd"
  | notInLoop _ => some "Break and Continue must be inside a While or For block"
  | badLoop _ => some "bind the step to a non-zero value"
  | broken _ => some "this is a bug in the compiler or in a custom action"
  | _ => none

end ErrorKind

end TriggerCompiler
