/-!
The constructs that the compiler lowers itself: blocks, branches, loops, conditions and assignments.
-/

namespace TriggerCompiler

/-- A built-in construct. -/
inductive Construct where
  | ifBranch
  | elseIf
  | elseBranch
  | condition
  | conditionBody
  | passIfTrue
  | failIfFalse
  | whileLoop
  | forLoop
  | breakLoop
  | continueLoop
  | returnEvent
  | block
  | blockEnd
  | setVariable
  | localVariable
  deriving DecidableEq, Inhabited

namespace Construct

/-- Every construct. -/
def all : List Construct :=
  [ifBranch, elseIf, elseBranch, condition, conditionBody, passIfTrue, failIfFalse, whileLoop,
    forLoop, breakLoop, continueLoop, returnEvent, block, blockEnd, setVariable, localVariable]

/-- The id under which actions use the construct. -/
def name : Construct → String
  | ifBranch => "If"
  | elseIf => "ElseIf"
  | elseBranch => "Else"
  | condition => "Condition"
  | conditionBody => "ConditionBody"
  | passIfTrue => "PassIfTrue"
  | failIfFalse => "FailIfFalse"
  | whileLoop => "While"
  | forLoop => "For"
  | breakLoop => "Break"
  | continueLoop => "Continue"
  | returnEvent => "Return"
  | block => "Block"
  | blockEnd => "BlockEnd"
  | setVariable => "SetVariable"
  | localVariable => "LocalVariable"

/-- The construct of a name. -/
def ofName? (s : String) : Option Construct := all.find? (·.name = s)

/-- Whether the construct opens a block that a later block end closes. -/
def opensBlock : Construct → Bool
  | ifBranch | elseIf | elseBranch | condition | conditionBody | whileLoop | forLoop | block => true
  | _ => false

/-- Whether the construct opens or closes a block. -/
def affectsBlocks (c : Construct) : Bool := c.opensBlock || c = blockEnd

/-- Whether the construct is a loop, which a break leaves and a continue restarts. -/
def isLoop : Construct → Bool
  | whileLoop | forLoop => true
  | _ => false

/-- Whether the construct is steered by a condition: the two tested branches and the tested loop. -/
def takesCondition : Construct → Bool
  | ifBranch | elseIf | whileLoop => true
  | _ => false

end Construct

end TriggerCompiler
