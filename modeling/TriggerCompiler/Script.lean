import TriggerCompiler.Diagnostic.Basic
import TriggerCompiler.Program.Basic

/-!
Scripts: custom actions as data. A script is a list of operations on the program that is being
compiled and on the compiler's own state. Slots and instructions that an operation makes are kept in
named registers for later operations.
-/

namespace TriggerCompiler

/-- A literal of a script: a value, or an address of something in a register or of a method. -/
inductive ScriptValue where
  | literal (value : Value)
  | instruction (register : String)
  | method (name : String)
  deriving DecidableEq

/-- An instruction whose operands are registers. -/
inductive ScriptInstr where
  | nop
  | push (slot : String)
  | copy
  | host (signature : String)
  | jump (label : String)
  | halt
  | jumpIfFalse (label : String)
  | jumpIndirect (slot : String)
  | jumpMethod (name : String)
  deriving DecidableEq

/-- An operation on a program. A register comes first if the operation stores into one. -/
inductive ProgramOp where
  | declare (register name : String) (type : ValueType) (kind : SlotKind)
  | declareUser (register : String) (decl : VariableDecl)
  | findUser (register id : String)
  | findName (register name : String)
  | temporary (register : String) (type : ValueType)
  | release (slot : String)
  | constant (register : String) (type : ValueType) (value : ScriptValue)
  | this (register : String)
  | reserved (register name : String) (type : ValueType)
  | counts
  | slot (slot : String)
  | addMethod (name : String) (kind : MethodKind)
  | method (name : String)
  | epilogue (method : String) (slot : Option String)
  | methodAddress (name : String)
  | exported
  | emit (register method : String) (instr : ScriptInstr)
  | label (register : String)
  | emitLabel (register method : String)
  | endLabel (register method : String)
  | jump (register method label : String)
  | insertBefore (register method : String) (label : Option String) (instr : ScriptInstr)
  | place (method label : String)
  | tail (method : String) (count : Nat)
  | body (method : String)
  | instr (label : String)
  | size
  | listing
  deriving DecidableEq

/-- Which open block an operation is about. -/
inductive FrameRef where
  | top
  | index (n : Nat)
  deriving DecidableEq

/-- An operation of a custom action. -/
inductive ScriptOp where
  | program (op : ProgramOp)
  | input (register : String) (index : Nat)
  | push (slot : String)
  | copy (source target : String)
  | jumpIfFalse (slot label : String)
  | callHost (signature : String) (slots : List String)
  | callMethod (name slot : String)
  | sendCustomEvent (name : String)
  | this (register : String)
  | afterWrite (slot : String)
  | declareLocal (register id : String) (type : ValueType)
  | keepInScope (slot : String)
  | own (slot : String)
  | frameEnd (register : String) (frame : FrameRef)
  | frameStart (register : String) (frame : FrameRef)
  | closedEnd (register : String)
  | closedStart (register : String)
  | setLoop (isLoop : Bool)
  | setConditionResult (slot : Option String)
  | parentPrevious (construct : Option Construct)
  | currentPrevious (construct : Option Construct)
  | dropClosedEnd
  | pushScope (construct : Option Construct)
  | popScope
  | resolve (register : String) (ref : VariableRef)
  | bindRead (register : String) (binding : Binding) (parameter : Parameter)
  | bindWrite (register : String) (binding : Binding) (parameter : Parameter)
      (inferred : Option ValueType)
  | warn (message : String)
  | fail (kind : ErrorKind) (located : Bool)
  | enterMethod (name : String)
  | note (tag : String)
  deriving DecidableEq

/-- A custom action: what it does, and if it opens a block, what the end of the block does. -/
structure Script where
  opensBlock : Bool := false
  lower : List ScriptOp
  close : List ScriptOp := []
  deriving DecidableEq

/-- The registers of scripts. -/
structure Registers where
  slots : List (String × SlotId) := []
  instrs : List (String × InstrId) := []
  deriving DecidableEq, Inhabited

end TriggerCompiler
