import TriggerCompiler.Program.Listing
import TriggerCompiler.Script

/-!
Running program operations. An operation that fails keeps what it changed before, and its register
keeps its old content.
-/

namespace TriggerCompiler

/-- A program with registers. -/
structure Bench where
  program : Program := {}
  registers : Registers := {}
  /-- The method that the name `.` stands for. -/
  current : Option MethodId := none

/-- Why an operation was not carried out. -/
inductive BenchError where
  /-- It names a register or a method that there is not. -/
  | unusable (name : String)
  | failed (kind : ErrorKind)
  deriving DecidableEq

/-- What an operation answers. -/
inductive Reply where
  | nothing
  | number (n : Option Nat)
  | counts (size temporaries free : Nat)
  | slot (id : SlotId) (slot : Slot)
  | method (m : Option (Method × Option Nat))
  | texts (lines : List String)
  | instr (id : InstrId) (i : Instr) (address : Option Nat)
  | size (bytes : Nat) (linked : Bool)
  deriving DecidableEq

/-- A computation on a bench whose changes stay when it fails. -/
abbrev BenchM := EStateM BenchError Bench

namespace Bench

/-- The content of a table, or the complaint that there is none. -/
def usable {α : Type} (name : String) : Option α → BenchM α
  | some a => pure a
  | none => throw (.unusable name)

/-- The slot in a register. -/
def slotIn (register : String) : BenchM SlotId := do
  usable register ((← get).registers.slots.lookup register)

/-- The instruction in a register. -/
def instrIn (register : String) : BenchM InstrId := do
  usable register ((← get).registers.instrs.lookup register)

/-- The method with a name, where a point stands for the current one. -/
def methodNamed (name : String) : BenchM MethodId := do
  let b ← get
  usable name (if name = "." then b.current else b.program.findMethod? name)

/-- Stores a slot and answers its position. -/
def keepSlot (register : String) (id : SlotId) : BenchM Reply := do
  modify fun b =>
    { b with registers := { b.registers with slots := (register, id) :: b.registers.slots } }
  return .number (some id)

/-- Stores an instruction and answers its position. -/
def keepInstr (register : String) (id : InstrId) : BenchM Reply := do
  modify fun b =>
    { b with registers := { b.registers with instrs := (register, id) :: b.registers.instrs } }
  return .number (some id)

/-- Changes the slot table. -/
def onSlots {α : Type} (f : SlotTable → α × SlotTable) : BenchM α :=
  modifyGet fun b =>
    let (a, slots) := f b.program.slots
    (a, { b with program := { b.program with slots } })

/-- Changes the program. -/
def onProgram {α : Type} (f : Program → α × Program) : BenchM α :=
  modifyGet fun b =>
    let (a, program) := f b.program
    (a, { b with program })

/-- Raises the error of an outcome. -/
def raise {α : Type} : Except ErrorKind α → BenchM α
  | .ok a => pure a
  | .error kind => throw (.failed kind)

/-- Changes the slot table, unless that fails. -/
def trySlots {α : Type} (f : SlotTable → Except ErrorKind (α × SlotTable)) : BenchM α := do
  let (a, slots) ← raise (f (← get).program.slots)
  modify fun b => { b with program := { b.program with slots } }
  return a

/-- Changes the program, unless that fails. -/
def tryProgram {α : Type} (f : Program → Except ErrorKind (α × Program)) : BenchM α := do
  let (a, program) ← raise (f (← get).program)
  modify fun b => { b with program }
  return a

/-- The value of a script's literal. -/
def valueOf : ScriptValue → BenchM Value
  | .literal v => pure v
  | .instruction register => return .address (.instruction (← instrIn register))
  | .method name => pure (.address (.method name))

/-- The instruction with the content of its registers. -/
def instrOf : ScriptInstr → BenchM Instr
  | .nop => pure .nop
  | .push slot => return .push (← slotIn slot)
  | .copy => pure .copy
  | .host signature => pure (.host signature)
  | .jump label => return .jump (← instrIn label)
  | .halt => pure .halt
  | .jumpIfFalse label => return .jumpIfFalse (← instrIn label)
  | .jumpIndirect slot => return .jumpIndirect (← slotIn slot)
  | .jumpMethod name => pure (.jumpMethod name)

/-- Runs an operation. -/
def run : ProgramOp → BenchM Reply
  | .declare r name type kind => do keepSlot r (← trySlots (·.declare name type kind))
  | .declareUser r decl => do
    let outcome ← onSlots (·.declareUser decl)
    keepSlot r (← raise outcome)
  | .findUser r id => do keepSlot r (← raise ((← get).program.slots.findUser id))
  | .findName r name => do
    match (← get).program.slots.findName? name with
    | some id => keepSlot r id
    | none => return .number none
  | .temporary r type => do keepSlot r (← onSlots (·.requestTemporary type))
  | .release v => do
    let id ← slotIn v
    onSlots fun t => ((), t.release id)
    return .nothing
  | .constant r type value => do
    let value ← valueOf value
    keepSlot r (← onSlots (·.constant type value))
  | .this r => do keepSlot r (← onSlots (·.thisSlot))
  | .reserved r name type => do keepSlot r (← trySlots (·.reserved name type))
  | .counts => do
    let t := (← get).program.slots
    return .counts t.size t.temporaryCount t.freeCount
  | .slot v => do
    let id ← slotIn v
    return .slot id ((← get).program.slots.get id)
  | .addMethod name kind => do
    return .number (some (← tryProgram (·.addMethod name kind)))
  | .method name => do
    let p := (← get).program
    return .method ((p.methodNamed? name).map fun m => (m, p.methodAddress? name))
  | .epilogue m slot => do
    let id ← methodNamed m
    let epilogue ← match slot with
      | some v => Epilogue.indirect <$> slotIn v
      | none => pure .halt
    onProgram fun p => ((), p.setEpilogue id epilogue)
    return .nothing
  | .methodAddress name => do return .number ((← get).program.methodAddress? name)
  | .exported => do return .texts (← get).program.exported
  | .emit r m i => do
    let id ← methodNamed m
    let i ← instrOf i
    keepInstr r (← onProgram (·.emit id i))
  | .label r => do keepInstr r (← onProgram (·.newLabel))
  | .emitLabel r m => do
    let id ← methodNamed m
    keepInstr r (← onProgram (·.emit id .nop))
  | .endLabel r m => do
    let id ← methodNamed m
    keepInstr r (← onProgram (·.endLabel id))
  | .jump r m l => do
    let id ← methodNamed m
    let target ← instrIn l
    keepInstr r (← onProgram (·.emit id (.jump target)))
  | .insertBefore r m l i => do
    let id ← methodNamed m
    let label ← match l with
      | some l => some <$> instrIn l
      | none => pure none
    let i ← instrOf i
    keepInstr r (← tryProgram (·.insertBeforeLabel id label i))
  | .place m l => do
    let id ← methodNamed m
    let label ← instrIn l
    onProgram fun p => ((), p.place id label)
    return .nothing
  | .tail m n => do
    let id ← methodNamed m
    return .texts (((← get).program.tail id n).map Instr.text)
  | .body m => do
    let id ← methodNamed m
    return .texts (((← get).program.body id).map fun (id, i) => instrText id ++ " " ++ i.text)
  | .instr l => do
    let id ← instrIn l
    let p := (← get).program
    return .instr id (p.instr id) (p.address? id)
  | .size => do
    let p := (← get).program
    return .size p.size p.linked
  | .listing => do return .texts (← get).program.listingLines

end Bench

end TriggerCompiler
