import TriggerCompiler.HostCall
import TriggerCompiler.Program.Basic

/-!
Linking a program. Every method gets its end label, a request to send the synced variables if it
writes one, and its epilogue; then the instructions get their addresses in the order of the bodies,
and the constants that stand for an address get its number.
-/

namespace TriggerCompiler

/-- Choices for a compile. -/
structure CompileOptions where
  /-- Whether a method that writes a synced variable ends with a request to send it. -/
  autoSerialize : Bool := true
  /-- The start of the names of merged action groups. -/
  groupPrefix : String := "__grp"
  /-- Whether to warn about variables that nothing uses. -/
  warnUnused : Bool := true
  deriving DecidableEq, Inhabited

namespace Program

/-- Adds what follows the last instruction of a method's body. -/
def finishMethod (options : CompileOptions) (p : Program) (id : MethodId) : Program :=
  let p := match (p.method id).endLabel with
    | some label => p.place id label
    | none => p
  let p :=
    if options.autoSerialize && (p.method id).serializes then
      let (this, slots) := p.slots.thisSlot
      let (_, p) := { p with slots }.emit id (.push this)
      (p.emit id (.host HostCall.requestSerialization)).2
    else p
  match (p.method id).epilogue with
  | .halt => (p.emit id .halt).2
  | .indirect slot => (p.emit id (.jumpIndirect slot)).2

/-- Finishes every method, in order. -/
def finishMethods (options : CompileOptions) (p : Program) : Program :=
  (List.range p.methods.size).foldl (finishMethod options) p

/-- Gives addresses to a list of positions, one after the other from `next` on. A position that
comes up twice is an error. -/
def layOut (p : Program) : List InstrId → Nat → Array (Option Nat) →
    Except ErrorKind (Array (Option Nat))
  | [], _, addresses => .ok addresses
  | id :: rest, next, addresses =>
    if ((addresses[id]?).join).isSome then .error (.broken (.placedTwice id))
    else layOut p rest (next + (p.instr id).size) (addresses.modify id fun _ => some next)

/-- Gives every instruction in a body its address. -/
def assignAddresses (p : Program) : Except ErrorKind Program := do
  let addresses ← p.layOut p.placed 0 (Array.replicate p.instrs.size none)
  return { p with addresses }

/-- Checks that an instruction goes on at a placed label or at a method that there is. -/
def checkInstr (p : Program) (method : String) (id : InstrId) : Except ErrorKind Unit :=
  match p.instr id with
  | .jump target | .jumpIfFalse target =>
    if (p.address? target).isSome then .ok ()
    else .error (.broken (.unplacedTarget id method target))
  | .jumpMethod name =>
    if (p.findMethod? name).isSome then .ok () else .error (.missingMethod name)
  | _ => .ok ()

/-- Checks every instruction in a body. -/
def checkTargets (p : Program) : Except ErrorKind Unit :=
  p.methods.toList.forM fun m => m.body.toList.forM fun id => p.checkInstr m.name id

/-- The number of an address. -/
def resolveAddress (p : Program) : Address → Except ErrorKind Nat
  | .instruction id =>
    match p.address? id with
    | some n => .ok n
    | none => .error (.broken (.unplacedAddress id))
  | .method name =>
    match p.methodAddress? name with
    | some n => .ok n
    | none => .error (.missingMethod name)

/-- The slot with a number in place of an address. -/
def resolveSlot (p : Program) (slot : Slot) : Except ErrorKind Slot :=
  match slot.initial with
  | some (.address target) => do
    let n ← p.resolveAddress target
    return { slot with initial := some (.uint32 (UInt32.ofNat n)) }
  | _ => .ok slot

/-- Puts numbers in place of the addresses that slots hold. -/
def resolveSlots (p : Program) : Except ErrorKind Program := do
  let slots ← p.slots.slots.toList.mapM p.resolveSlot
  return { p with slots := { p.slots with slots := slots.toArray } }

/-- Links a program. -/
def link (options : CompileOptions) (p : Program) : Except ErrorKind Program :=
  if p.linked then .ok p
  else do
    let p ← (p.finishMethods options).assignAddresses
    p.checkTargets
    let p ← p.resolveSlots
    return { p with linked := true }

end Program

end TriggerCompiler
