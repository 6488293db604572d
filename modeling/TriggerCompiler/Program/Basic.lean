import TriggerCompiler.Instr
import TriggerCompiler.SlotTable

/-!
Programs under construction: a slot table, an arena of instructions, and methods whose bodies list
positions of the arena. A label is made first and placed in a body later; nothing has an address
until the program is linked.
-/

namespace TriggerCompiler

/-- A method is known by its position in its program. -/
abbrev MethodId := Nat

/-- How a method can be entered. -/
inductive MethodKind where
  /-- Only by a call from the program itself. -/
  | internal
  /-- Also by the host: at once, over the network or after a delay. -/
  | entry
  deriving DecidableEq, Inhabited

namespace MethodKind

/-- The short name of a kind. -/
def name : MethodKind → String
  | internal => "sync"
  | entry => "entry"

/-- The kind of a short name. -/
def ofName? (s : String) : Option MethodKind := [internal, entry].find? (·.name = s)

end MethodKind

/-- What follows the last instruction of a method. -/
inductive Epilogue where
  | halt
  /-- The caller goes on, at the address in the slot. -/
  | indirect (slot : SlotId)
  deriving DecidableEq, Inhabited

/-- A named sequence of instructions. -/
structure Method where
  name : String
  kind : MethodKind
  epilogue : Epilogue := .halt
  body : Array InstrId := #[]
  /-- The label of the method's end, made when something first jumps there. -/
  endLabel : Option InstrId := none
  /-- Whether the method writes a synced slot. -/
  serializes : Bool := false
  deriving DecidableEq, Inhabited

namespace Method

/-- Whether the host may start the method. -/
def isExported (m : Method) : Bool := m.kind = .entry

end Method

/-- A program. -/
structure Program where
  slots : SlotTable := {}
  instrs : Array Instr := #[]
  methods : Array Method := #[]
  /-- The address of each instruction, known once the program is linked; an instruction that no body
  holds has none. -/
  addresses : Array (Option Nat) := #[]
  linked : Bool := false
  deriving Inhabited

namespace Program

/-- The method at a position. -/
def method (p : Program) (id : MethodId) : Method := p.methods.getD id default

/-- The position of the method with a name. -/
def findMethod? (p : Program) (name : String) : Option MethodId :=
  p.methods.findIdx? (·.name = name)

/-- The method with a name. -/
def methodNamed? (p : Program) (name : String) : Option Method :=
  (p.findMethod? name).map p.method

/-- Adds an empty method, unless its name is taken. -/
def addMethod (p : Program) (name : String) (kind : MethodKind) :
    Except ErrorKind (MethodId × Program) :=
  if (p.findMethod? name).isSome then .error (.duplicateName name none)
  else .ok (p.methods.size, { p with methods := p.methods.push { name, kind } })

/-- Changes the method at a position. -/
def modifyMethod (p : Program) (id : MethodId) (f : Method → Method) : Program :=
  { p with methods := p.methods.modify id f }

/-- Sets what follows the last instruction of a method. -/
def setEpilogue (p : Program) (id : MethodId) (epilogue : Epilogue) : Program :=
  p.modifyMethod id fun m => { m with epilogue }

/-- The names of the methods that the host may start. -/
def exported (p : Program) : List String :=
  (p.methods.toList.filter Method.isExported).map (·.name)

/-- The instruction at a position. -/
def instr (p : Program) (id : InstrId) : Instr := p.instrs.getD id default

/-- Replaces the instruction at a position. -/
def setInstr (p : Program) (id : InstrId) (i : Instr) : Program :=
  { p with instrs := p.instrs.modify id fun _ => i }

/-- The body of a method with its instructions. -/
def body (p : Program) (id : MethodId) : List (InstrId × Instr) :=
  (p.method id).body.toList.map fun i => (i, p.instr i)

/-- Adds an instruction to the arena only. -/
def alloc (p : Program) (i : Instr) : InstrId × Program :=
  (p.instrs.size, { p with instrs := p.instrs.push i })

/-- Adds an instruction to the end of a method. -/
def emit (p : Program) (id : MethodId) (i : Instr) : InstrId × Program :=
  let (index, p) := p.alloc i
  (index, p.modifyMethod id fun m => { m with body := m.body.push index })

/-- Makes a label that no body holds yet. -/
def newLabel (p : Program) : InstrId × Program := p.alloc .nop

/-- Puts a label at the end of a method. -/
def place (p : Program) (id : MethodId) (label : InstrId) : Program :=
  p.modifyMethod id fun m => { m with body := m.body.push label }

/-- The last `n` instructions of a method, in order. -/
def tail (p : Program) (id : MethodId) (n : Nat) : List Instr :=
  let body := (p.method id).body.toList
  (body.drop (body.length - n)).map p.instr

/-- Whether a body ends with the given label, or with any label if none is given. -/
def endsWithLabel (p : Program) (id : MethodId) (label : Option InstrId) : Bool :=
  match (p.method id).body.back?, label with
  | some last, some label => last = label
  | some last, none => p.instr last = .nop
  | none, _ => false

/-- Adds an instruction right before the label that ends a method. -/
def insertBeforeLabel (p : Program) (id : MethodId) (label : Option InstrId) (i : Instr) :
    Except ErrorKind (InstrId × Program) :=
  if p.endsWithLabel id label then
    let (index, p) := p.alloc i
    .ok (index, p.modifyMethod id fun m =>
      { m with body := m.body.pop.push index ++ m.body.back?.toArray })
  else .error (.broken (.noTrailingLabel (p.method id).name))

/-- The label of a method's end, made when it is first asked for. -/
def endLabel (p : Program) (id : MethodId) : InstrId × Program :=
  match (p.method id).endLabel with
  | some label => (label, p)
  | none =>
    let (label, p) := p.newLabel
    (label, p.modifyMethod id fun m => { m with endLabel := some label })

/-- The address of an instruction, once it has one. -/
def address? (p : Program) (id : InstrId) : Option Nat := (p.addresses[id]?).join

/-- The address of a method's first instruction, once it has one. -/
def methodAddress? (p : Program) (name : String) : Option Nat := do
  let m ← p.methodNamed? name
  let first ← m.body[0]?
  p.address? first

/-- The positions that the bodies hold, method by method. -/
def placed (p : Program) : List InstrId := p.methods.toList.flatMap (·.body.toList)

/-- The encoded size of all bodies. -/
def size (p : Program) : Nat := p.placed.foldr (fun id n => (p.instr id).size + n) 0

end Program

end TriggerCompiler
