import TriggerCompiler.Trigger.Basic

/-!
Slots: the cells of a program's flat store. Every value that a program touches lives in a slot.
-/

namespace TriggerCompiler

/-- A slot is known by its position in the table of its program. -/
abbrev SlotId := Nat

/-- The text of a slot's position. -/
def slotText (id : SlotId) : String := "%" ++ toString id

/-- What a slot is kept for. -/
inductive SlotKind where
  /-- A variable of the document. -/
  | user
  /-- A constant. -/
  | constant
  /-- A temporary of the compiler, drawn from a pool. -/
  | temporary
  /-- A slot with a fixed role: the running object, a shadow, a return address, an event input. -/
  | reserved
  deriving DecidableEq, Inhabited

namespace SlotKind

/-- The short name of a kind. -/
def name : SlotKind → String
  | user => "user"
  | constant => "const"
  | temporary => "temp"
  | reserved => "reserved"

/-- The kind of a short name. -/
def ofName? (s : String) : Option SlotKind :=
  [user, constant, temporary, reserved].find? (·.name = s)

end SlotKind

/-- A slot of a program. -/
structure Slot where
  name : String
  type : ValueType
  kind : SlotKind
  sync : SyncMode := .none
  /-- Whether the host sees the slot. -/
  exported : Bool := false
  /-- The content at the start; a constant always has one. -/
  initial : Option Value := none
  /-- The slot that keeps the value of which the change handler knows. -/
  shadow : Option SlotId := none
  /-- Whether a write that changes the value runs the change handler. -/
  notifies : Bool := false
  /-- Whether the slot holds the object that runs the program. -/
  isThis : Bool := false
  deriving DecidableEq, Inhabited

namespace Slot

/-- Whether the slot is kept in step between players. -/
def isSynced (s : Slot) : Bool := s.sync ≠ .none

end Slot

/-- The exported method that runs when the named variable changes. -/
def handlerName (name : String) : String := "_onVarChange_" ++ name

end TriggerCompiler
