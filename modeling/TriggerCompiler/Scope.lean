import TriggerCompiler.Script

/-!
The stack of open blocks. Every construct that opens a block pushes a frame, and the end of the
block pops it; the outermost frame belongs to the body of the event and has no opener. A frame
carries the labels of its block, which are made only when something jumps to them.
-/

namespace TriggerCompiler

/-- What opened a block. -/
inductive Opener where
  | construct (c : Construct)
  | script (s : Script)
  deriving DecidableEq

namespace Opener

/-- The built-in construct that opened the block. -/
def construct? : Opener → Option Construct
  | construct c => some c
  | script _ => none

/-- The name of the opener. -/
def text : Opener → String
  | construct c => c.name
  | script _ => "Custom"

end Opener

/-- What is kept of the block that closed last, for the sibling that follows it. -/
structure ClosedBlock where
  construct : Option Construct := none
  endLabel : Option InstrId := none
  /-- The jumps out of a chain of branches that go to the end of its last branch. -/
  chainJumps : List InstrId := []
  sawConditionBody : Bool := false
  deriving DecidableEq, Inhabited

/-- An open block. -/
structure Frame where
  opener : Option Opener := none
  startLabel : Option InstrId := none
  endLabel : Option InstrId := none
  isLoop : Bool := false
  /-- The temporaries that are returned when the block closes. -/
  owned : List SlotId := []
  /-- The ids of the locals that the block declares. -/
  localIds : List String := []
  /-- The slot of a condition's result. -/
  conditionResult : Option SlotId := none
  /-- The construct of the previous action of the block; none at its start and after an action that
  is no construct. -/
  previous : Option Construct := none
  lastClosed : Option ClosedBlock := none
  /-- The jumps out of the chain of branches that the block continues. -/
  chainJumps : List InstrId := []
  sawCondition : Bool := false
  sawConditionBody : Bool := false
  /-- Where the block was opened. -/
  coordinate : Option Coordinate := none
  deriving DecidableEq, Inhabited

namespace Frame

/-- The frame of an event's body. -/
def root : Frame := {}

/-- The built-in construct that opened the block. -/
def construct? (f : Frame) : Option Construct := f.opener.bind Opener.construct?

/-- The frame of a block. -/
def openedBy (opener : Opener) (coordinate : Coordinate) : Frame where
  opener := some opener
  isLoop := (opener.construct?.map Construct.isLoop).getD false
  coordinate := some coordinate

/-- The frame with one more temporary to return. -/
def own (f : Frame) (slot : SlotId) : Frame := { f with owned := f.owned ++ [slot] }

/-- What is kept of the block once it is closed. -/
def closed (f : Frame) : ClosedBlock where
  construct := f.construct?
  endLabel := f.endLabel
  chainJumps := f.chainJumps
  sawConditionBody := f.sawConditionBody

end Frame

/-- The open blocks, the innermost first. A block's index counts from the outermost one. -/
structure ScopeStack where
  frames : List Frame := []
  deriving DecidableEq, Inhabited

namespace ScopeStack

/-- The number of open blocks. -/
def depth (s : ScopeStack) : Nat := s.frames.length

/-- Opens a block. -/
def push (s : ScopeStack) (f : Frame) : ScopeStack := ⟨f :: s.frames⟩

/-- Closes the innermost block. -/
def pop? (s : ScopeStack) : Option (Frame × ScopeStack) :=
  match s.frames with
  | [] => none
  | f :: rest => some (f, ⟨rest⟩)

/-- The innermost block. -/
def current? (s : ScopeStack) : Option Frame := s.frames.head?

/-- The block at an index. -/
def frame? (s : ScopeStack) (index : Nat) : Option Frame :=
  if index < s.depth then s.frames[s.depth - 1 - index]? else none

/-- Changes the block at an index. -/
def modify (s : ScopeStack) (index : Nat) (f : Frame → Frame) : ScopeStack :=
  if index < s.depth then ⟨s.frames.modify (s.depth - 1 - index) f⟩ else s

/-- Changes the innermost block. -/
def modifyCurrent (s : ScopeStack) (f : Frame → Frame) : ScopeStack := ⟨s.frames.modify 0 f⟩

/-- The index of the block around the innermost one. -/
def parentIndex? (s : ScopeStack) : Option Nat :=
  if 2 ≤ s.depth then some (s.depth - 2) else none

/-- The index of the innermost block that passes a test. -/
def nearest? (s : ScopeStack) (test : Frame → Bool) : Option Nat :=
  (s.frames.findIdx? test).map (s.depth - 1 - ·)

/-- The index of the innermost loop. -/
def nearestLoop? (s : ScopeStack) : Option Nat := s.nearest? (·.isLoop)

/-- The index of the innermost condition. -/
def nearestCondition? (s : ScopeStack) : Option Nat :=
  s.nearest? fun f => f.construct? = some .condition

end ScopeStack

end TriggerCompiler
