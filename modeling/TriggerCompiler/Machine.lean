import TriggerCompiler.HostCall
import TriggerCompiler.Program.Basic

/-!
The reference machine for linked programs. It runs one exported method until it halts: a push puts a
slot on the stack, a copy and a host call take their slots from it, and jumps go to addresses. Only
the host calls that the compiler and the built-in actions make are known; any other is a fault, and
so is a value of the wrong kind. A run that takes too many steps is given up.
-/

namespace TriggerCompiler

/-- Why a run failed. -/
inductive Fault where
  | noVariable (name : String)
  | noMethod (name : String)
  | notHalted (method : String)
  | pastCode (address : Nat)
  | stackUnderflow
  | fewArguments (wanted : Nat)
  | notBoolean (found : Value)
  | notAddress (found : Value)
  | notInt (found : Value)
  | notString (found : Value)
  | notDelay (found : Value)
  | overflow (operation : String)
  | unknownCall (signature : String)
  /-- The machine holds an instruction or a label without an address. -/
  | unlinked
  deriving DecidableEq

/-- The greatest number of instructions that a run may take. -/
def stepLimit : Nat := 100000

/-- The wording of a fault. -/
def Fault.message : Fault → String
  | noVariable name => "no variable '" ++ name ++ "'"
  | noMethod name => "no method '" ++ name ++ "'"
  | notHalted method => "'" ++ method ++ "' did not halt within " ++ toString stepLimit ++ " steps"
  | pastCode address => "address " ++ Text.hexNumber address ++ " is past the code"
  | stackUnderflow => "stack underflow"
  | fewArguments wanted => "extern needs " ++ toString wanted ++ " arguments"
  | notBoolean found => "JumpIfFalse on " ++ found.tagged
  | notAddress found => "JumpIndirect through " ++ found.tagged
  | notInt found => "expected an Int32, found " ++ found.tagged
  | notString found => "expected a String, found " ++ found.tagged
  | notDelay found => "expected a Single delay, found " ++ found.tagged
  | overflow operation => "attempt to " ++ operation ++ " with overflow"
  | unknownCall signature => "extern '" ++ signature ++ "' is not modelled"
  | unlinked => "program must be linked"

/-- What a run did to the world. -/
structure Effects where
  log : Array Value := #[]
  customEvents : Array String := #[]
  networkEvents : Array (Int32 × String) := #[]
  delayedEvents : Array (String × Single) := #[]
  serializations : Nat := 0
  deriving DecidableEq

/-- A machine with a program. -/
structure Machine where
  program : Program
  /-- The instructions of all bodies with their addresses, method by method. -/
  code : Array (Nat × Instr)
  heap : Array Value
  stack : List SlotId := []
  effects : Effects := {}
  isOwner : Bool := true
  isMaster : Bool := true

/-- A computation of the machine. -/
abbrev Run := EStateM Fault Machine

namespace Machine

/-- The machine at the start of a program. -/
def ofProgram (p : Program) : Machine where
  program := p
  code := (p.placed.map fun id => ((p.address? id).getD 0, p.instr id)).toArray
  heap := p.slots.slots.map fun slot => slot.initial.getD .null

/-- The value in the slot with a name. -/
def read (m : Machine) (name : String) : Except Fault Value :=
  match m.program.slots.findName? name with
  | some id => .ok (m.heap.getD id .null)
  | none => .error (.noVariable name)

/-- Puts a value into the slot with a name. -/
def write (m : Machine) (name : String) (value : Value) : Except Fault Machine :=
  match m.program.slots.findName? name with
  | some id => .ok { m with heap := m.heap.modify id fun _ => value }
  | none => .error (.noVariable name)

end Machine

namespace Run

/-- The value of a slot. -/
def load (slot : SlotId) : Run Value := do return (← get).heap.getD slot .null

/-- Puts a value into a slot. -/
def store (slot : SlotId) (value : Value) : Run Unit :=
  modify fun m => { m with heap := m.heap.modify slot fun _ => value }

/-- Takes the top of the stack. -/
def pop : Run SlotId := do
  match (← get).stack with
  | [] => throw .stackUnderflow
  | top :: rest =>
    modify fun m => { m with stack := rest }
    return top

/-- Takes the arguments of a host call, in the order in which they were pushed. -/
def arguments (count : Nat) : Run (List SlotId) := do
  let stack := (← get).stack
  if stack.length < count then throw (.fewArguments count)
  modify fun m => { m with stack := stack.drop count }
  return (stack.take count).reverse

/-- The integer in a slot. -/
def loadInt (slot : SlotId) : Run Int32 := do
  match ← load slot with
  | .int32 n => return n
  | other => throw (.notInt other)

/-- The text in a slot. -/
def loadString (slot : SlotId) : Run String := do
  match ← load slot with
  | .string s => return s
  | other => throw (.notString other)

/-- The delay in a slot. -/
def loadDelay (slot : SlotId) : Run Single := do
  match ← load slot with
  | .single x => return x
  | other => throw (.notDelay other)

/-- Changes the effects. -/
def effect (f : Effects → Effects) : Run Unit :=
  modify fun m => { m with effects := f m.effects }

/-- The first position of the code at or after an address. -/
def locate (address : Nat) : Run Nat := do
  match (← get).code.findIdx? fun entry => address ≤ entry.1 with
  | some position => return position
  | none => throw (.pastCode address)

/-- An operator on integers, with the name that an overflow is reported under. -/
structure IntOperator where
  name : String
  verb : String
  apply : Int → Int → Int

/-- The operators on integers that the machine knows. -/
def intOperators : List IntOperator :=
  [⟨"Addition", "add", (· + ·)⟩, ⟨"Subtraction", "subtract", (· - ·)⟩,
    ⟨"Multiplication", "multiply", (· * ·)⟩]

/-- The comparisons of integers that the machine knows. -/
def intComparisons : List (String × (Int → Int → Bool)) :=
  [("LessThan", fun a b => a < b), ("GreaterThan", fun a b => a > b),
    ("GreaterThanOrEqual", fun a b => a ≥ b), ("Equality", fun a b => a = b),
    ("Inequality", fun a b => a ≠ b)]

/-- The integer, if it has 32 bits. -/
def checked (verb : String) (n : Int) : Run Int32 :=
  if Int32.minValue.toInt ≤ n ∧ n ≤ Int32.maxValue.toInt then pure (Int32.ofInt n)
  else throw (.overflow verb)

/-- Whether characters occur in a text one after the other. -/
def occursIn (part : List Char) : List Char → Bool
  | [] => part.isEmpty
  | c :: rest => part.isPrefixOf (c :: rest) || occursIn part rest

/-- Whether a signature asks if two values differ. -/
def isInequality (signature : String) : Bool :=
  occursIn ".__op_Inequality__".toList signature.toList

/-- Calls that compute on integers. -/
def intCall (signature : String) : Option (Run Unit) :=
  let operator := intOperators.find? fun op => signature = HostCall.intOperator op.name
  let comparison := intComparisons.find? fun c => signature = HostCall.intComparison c.1
  match operator, comparison with
  | some op, _ => some do
    match ← arguments 3 with
    | [a, b, result] =>
      let n := op.apply (← loadInt a).toInt (← loadInt b).toInt
      store result (.int32 (← checked op.verb n))
    | _ => return
  | none, some (_, test) => some do
    match ← arguments 3 with
    | [a, b, result] =>
      store result (.boolean (test (← loadInt a).toInt (← loadInt b).toInt))
    | _ => return
  | none, none => none

/-- Stores whether a relation holds between the values of the first two arguments. -/
def relationCall (relation : Value → Value → Bool) : Run Unit := do
  match ← arguments 3 with
  | [a, b, result] => store result (.boolean (relation (← load a) (← load b)))
  | _ => return

/-- Stores the negation of a truth value; anything but true counts as false. -/
def negationCall : Run Unit := do
  match ← arguments 2 with
  | [a, result] => store result (.boolean ((← load a) ≠ .boolean true))
  | _ => return

/-- Runs a call into the host. -/
def call (signature : String) : Run Unit := do
  match intCall signature with
  | some run => run
  | none =>
    if signature = HostCall.booleanNegation then negationCall
    else if signature = HostCall.objectEquals then relationCall fun a b => a = b
    else if isInequality signature then relationCall fun a b => a ≠ b
    else if signature = HostCall.debugLog then
      match ← arguments 1 with
      | [a] =>
        let value ← load a
        effect fun e => { e with log := e.log.push value }
      | _ => return
    else if signature = HostCall.sendCustomEvent then
      match ← arguments 2 with
      | [_, name] =>
        let name ← loadString name
        effect fun e => { e with customEvents := e.customEvents.push name }
      | _ => return
    else if signature = HostCall.sendCustomNetworkEvent then
      match ← arguments 3 with
      | [_, target, name] =>
        let target ← loadInt target
        let name ← loadString name
        effect fun e => { e with networkEvents := e.networkEvents.push (target, name) }
      | _ => return
    else if signature = HostCall.sendCustomEventDelayed then
      match ← arguments 4 with
      | [_, name, delay, _] =>
        let delay ← loadDelay delay
        let name ← loadString name
        effect fun e => { e with delayedEvents := e.delayedEvents.push (name, delay) }
      | _ => return
    else if signature = HostCall.requestSerialization then
      let _ ← arguments 1
      effect fun e => { e with serializations := e.serializations + 1 }
    else if signature = HostCall.isOwner then
      match ← arguments 2 with
      | [_, result] => store result (.boolean (← get).isOwner)
      | _ => return
    else if signature = HostCall.isMaster then
      match ← arguments 1 with
      | [result] => store result (.boolean (← get).isMaster)
      | _ => return
    else throw (.unknownCall signature)

/-- The position of a label. -/
def locateLabel (label : InstrId) : Run Nat := do
  match (← get).program.address? label with
  | some address => locate address
  | none => throw .unlinked

/-- Runs the instruction at a position and gives the next position, none if the machine halts. -/
def step (position : Nat) : Run (Option Nat) := do
  match (← get).code[position]? with
  | none => throw .unlinked
  | some (_, i) =>
    match i with
    | .nop => return some (position + 1)
    | .push slot =>
      modify fun m => { m with stack := slot :: m.stack }
      return some (position + 1)
    | .copy =>
      let target ← pop
      let source ← pop
      store target (← load source)
      return some (position + 1)
    | .host signature =>
      call signature
      return some (position + 1)
    | .halt => return none
    | .jump label => return some (← locateLabel label)
    | .jumpIfFalse label =>
      match ← load (← pop) with
      | .boolean false => return some (← locateLabel label)
      | .boolean true => return some (position + 1)
      | other => throw (.notBoolean other)
    | .jumpIndirect slot =>
      match ← load slot with
      | .uint32 address =>
        if address = haltAddress then return none else return some (← locate address.toNat)
      | other => throw (.notAddress other)
    | .jumpMethod name =>
      match (← get).program.methodAddress? name with
      | some address => return some (← locate address)
      | none => throw .unlinked

/-- Runs from a position on until the machine halts, for at most the given number of steps. -/
def steps (method : String) : Nat → Nat → Run Unit
  | 0, _ => throw (.notHalted method)
  | fuel + 1, position => do
    match ← step position with
    | none => return
    | some next => steps method fuel next

/-- Runs an exported method until it halts. -/
def method (name : String) : Run Unit := do
  match (← get).program.methodAddress? name with
  | none => throw (.noMethod name)
  | some address => steps name stepLimit (← locate address)

end Run

end TriggerCompiler
