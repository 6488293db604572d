import TriggerCompiler.Slot

/-!
Instructions of the target machine: a stack machine over a flat store of slots. Operands are slots
pushed on the stack; a copy and a host call consume them. A label is an instruction that does
nothing and takes no space: jumps name it by its position in the arena, so it can be made before the
place that it marks is known.
-/

namespace TriggerCompiler

/-- The address that stops the machine. -/
def haltAddress : UInt32 := 0xFFFFFFFC

/-- An instruction. -/
inductive Instr where
  /-- Does nothing; a label. -/
  | nop
  /-- Pushes a slot. -/
  | push (slot : SlotId)
  /-- Pops a destination and then a source, and copies the content. -/
  | copy
  /-- Calls the host on the pushed slots, results included. -/
  | host (signature : String)
  /-- Goes on at a label. -/
  | jump (target : InstrId)
  /-- Stops. -/
  | halt
  /-- Pops a truth value and goes on at a label if it is false. -/
  | jumpIfFalse (target : InstrId)
  /-- Goes on at the address that a slot holds. -/
  | jumpIndirect (slot : SlotId)
  /-- Goes on at the start of a method. -/
  | jumpMethod (name : String)
  deriving DecidableEq, Inhabited

namespace Instr

/-- The encoded size. -/
def size : Instr → Nat
  | nop => 0
  | copy => 4
  | _ => 8

/-- Whether the instruction may go on elsewhere. -/
def isControlFlow : Instr → Bool
  | jump _ | halt | jumpIfFalse _ | jumpIndirect _ | jumpMethod _ => true
  | nop | push _ | copy | host _ => false

/-- The label that the instruction may go on at. -/
def labelTarget : Instr → Option InstrId
  | jump target | jumpIfFalse target => some target
  | _ => none

/-- A mnemonic in its column, and the operand. -/
def column (mnemonic operand : String) : String := Text.padRight 14 mnemonic ++ " " ++ operand

/-- The instruction as text. -/
def text : Instr → String
  | nop => "Nop"
  | push slot => column "Push" (slotText slot)
  | copy => "Copy"
  | host signature => column "Extern" (Text.quoted signature)
  | jump target => column "Jump" (instrText target)
  | halt => column "Jump" (Text.upperHexWord haltAddress.toNat)
  | jumpIfFalse target => column "JumpIfFalse" (instrText target)
  | jumpIndirect slot => column "JumpIndirect" (slotText slot)
  | jumpMethod name => column "JumpLabel" name

end Instr

end TriggerCompiler
