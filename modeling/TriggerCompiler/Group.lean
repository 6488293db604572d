import TriggerCompiler.Diagnostic.Basic
import TriggerCompiler.Program.Basic

/-!
Compiled action groups: an unlinked program with one method per action, and for each action the
slots through which a caller hands over arguments and its return address.
-/

namespace TriggerCompiler

/-- An action of a compiled group. -/
structure GroupEntry where
  name : String
  method : String
  /-- The parameters with the slots in which their values are passed. -/
  parameters : List (Parameter × SlotId)
  /-- The slot of the caller's return address. -/
  returnSlot : SlotId
  eventType : Option String
  /-- The event inputs that the action reads, with the slots that they are copied into. -/
  eventSlots : List (String × SlotId)
  deriving DecidableEq

/-- A compiled action group. -/
structure CompiledGroup where
  guid : String
  name : String
  program : Program
  entries : List GroupEntry
  warnings : List Warning

namespace CompiledGroup

/-- The entry of an action. -/
def entry? (g : CompiledGroup) (name : String) : Option GroupEntry :=
  g.entries.find? (·.name = name)

end CompiledGroup

end TriggerCompiler
