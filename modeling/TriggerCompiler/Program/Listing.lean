import TriggerCompiler.Program.Basic

/-!
The listing of a program: its slots, then its methods instruction by instruction. Labels that some
instruction jumps to are numbered in the order of their positions.
-/

namespace TriggerCompiler.Program

/-- The line of a slot. -/
def slotLine (id : SlotId) (slot : Slot) : String :=
  let value := match slot.initial with
    | some v => " = " ++ v.text
    | none => ""
  "    " ++ slotText id ++ " " ++ Text.padRight 8 slot.kind.name ++ " " ++ slot.name ++ ": "
    ++ slot.type.machineName ++ value

/-- The lines of the slot table. -/
def slotLines (p : Program) : List String :=
  if p.slots.size = 0 then ["  variables: []"]
  else
    ["  variables: ["] ++ (p.slots.slots.toList.mapIdx slotLine) ++ ["  ]"]

/-- The labels that the bodies jump to, in the order of their positions. -/
def jumpTargets (p : Program) : List InstrId :=
  ((p.placed.filterMap fun id => (p.instr id).labelTarget).mergeSort).eraseReps

/-- The name of a label, if some instruction jumps to it. -/
def labelName? (targets : List InstrId) (id : InstrId) : Option String :=
  (targets.findIdx? (· = id)).map fun index => "L" ++ toString index

/-- The line of an instruction in a body. -/
def instrLine (p : Program) (targets : List InstrId) (id : InstrId) : String :=
  let label := match labelName? targets id with
    | some name => name ++ ":"
    | none => ""
  let address := match p.address? id with
    | some a => Text.hexWord a
    | none => instrText id
  let target (t : InstrId) := (labelName? targets t).getD (instrText t)
  let text := match p.instr id with
    | .jump t => Instr.column "Jump" (target t)
    | .jumpIfFalse t => Instr.column "JumpIfFalse" (target t)
    | i => i.text
  "    " ++ address ++ " " ++ Text.padLeft 5 label ++ "  " ++ text

/-- The lines of a method. -/
def methodLines (p : Program) (targets : List InstrId) (m : Method) : List String :=
  ("  method " ++ m.name ++ " (" ++ m.kind.name ++ "):")
    :: m.body.toList.map (p.instrLine targets)

/-- The listing as one text. -/
def listing (p : Program) : String :=
  let lines := ["Program \x7b"] ++ p.slotLines
    ++ p.methods.toList.flatMap (p.methodLines p.jumpTargets) ++ ["\x7d"]
  "\n".intercalate lines

/-- The lines of the listing. A name with a line break in it takes more than one line. -/
def listingLines (p : Program) : List String := p.listing.splitOn "\n"

end TriggerCompiler.Program
