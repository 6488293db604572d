import TriggerCompiler.Group

/-!
Merging a compiled action group into a program. A copy of the group's program is added under a name
space of its own: every method and slot name gets a prefix, positions of instructions shift by the
size of the arena, and the slot of the running object becomes the program's own. What was added
before a name turned out to be taken stays.
-/

namespace TriggerCompiler

/-- An action of a merged group, in names and slots of the program it was merged into. -/
structure MergedEntry where
  action : String
  method : String
  parameters : List (Parameter × SlotId)
  returnSlot : SlotId
  eventSlots : List (String × SlotId)
  deriving DecidableEq

/-- The names that a merge gave. -/
structure MergeTable where
  namePrefix : String
  methods : List (String × String)
  slots : List (String × String)
  entries : List MergedEntry
  deriving DecidableEq

namespace MergeTable

/-- The merged entry of an action. -/
def entry? (t : MergeTable) (action : String) : Option MergedEntry :=
  t.entries.find? (·.action = action)

end MergeTable

/-- How a merge renames what the group's program refers to. -/
structure Renaming where
  namePrefix : String
  /-- The methods of the group's program. -/
  methods : List String
  /-- The shift of instruction positions. -/
  offset : Nat
  /-- The new slot of each slot. -/
  slots : Array SlotId := #[]

namespace Renaming

/-- The new name of a method; one that the group does not have keeps its name. -/
def method (r : Renaming) (name : String) : String :=
  if name ∈ r.methods then r.namePrefix ++ name else name

/-- The new position of a slot. -/
def slot (r : Renaming) (id : SlotId) : SlotId := r.slots.getD id 0

/-- The new position of an instruction. -/
def instrId (r : Renaming) (id : InstrId) : InstrId := id + r.offset

/-- The renamed value. -/
def value (r : Renaming) : Value → Value
  | .address (.instruction id) => .address (.instruction (r.instrId id))
  | .address (.method name) => .address (.method (r.method name))
  | v => v

/-- The renamed instruction. -/
def instr (r : Renaming) : Instr → Instr
  | .push slot => .push (r.slot slot)
  | .jumpIndirect slot => .jumpIndirect (r.slot slot)
  | .jump target => .jump (r.instrId target)
  | .jumpIfFalse target => .jumpIfFalse (r.instrId target)
  | .jumpMethod name => .jumpMethod (r.method name)
  | i => i

/-- The renamed epilogue. -/
def epilogue (r : Renaming) : Epilogue → Epilogue
  | .halt => .halt
  | .indirect slot => .indirect (r.slot slot)

/-- The renamed method. -/
def methodDef (r : Renaming) (m : Method) : Method :=
  { m with
    name := r.namePrefix ++ m.name
    body := m.body.map r.instrId
    endLabel := m.endLabel.map r.instrId
    epilogue := r.epilogue m.epilogue }

/-- The renamed entry. -/
def entry (r : Renaming) (e : GroupEntry) : MergedEntry where
  action := e.name
  method := r.namePrefix ++ e.method
  parameters := e.parameters.map fun (p, slot) => (p, r.slot slot)
  returnSlot := r.slot e.returnSlot
  eventSlots := e.eventSlots.map fun (name, slot) => (name, r.slot slot)

end Renaming

namespace Program

/-- Adds renamed copies of slots; the slot of the running object is the program's own. The shadow of
a slot is still that of the group. -/
def mergeSlots : List Slot → Renaming → Program → Except ErrorKind Renaming × Program
  | [], r, host => (.ok r, host)
  | slot :: rest, r, host =>
    if slot.isThis then
      let (id, slots) := host.slots.thisSlot
      mergeSlots rest { r with slots := r.slots.push id } { host with slots }
    else
      let renamed :=
        { slot with name := r.namePrefix ++ slot.name, initial := slot.initial.map r.value }
      match host.slots.insert renamed with
      | .error _ => (.error (.nameCollision renamed.name), host)
      | .ok (id, slots) =>
        mergeSlots rest { r with slots := r.slots.push id } { host with slots }

/-- Makes the shadows of merged slots the merged ones. -/
def renameShadows (r : Renaming) (host : Program) : Program :=
  let rename (s : Slot) : Slot :=
    if s.isThis then s else { s with shadow := s.shadow.map r.slot }
  { host with slots := r.slots.foldl (fun slots id => slots.modify id rename) host.slots }

/-- Adds renamed copies of methods. -/
def mergeMethods (r : Renaming) : List Method → Program → Except ErrorKind Unit × Program
  | [], host => (.ok (), host)
  | m :: rest, host =>
    let renamed := r.methodDef m
    if (host.findMethod? renamed.name).isSome then (.error (.nameCollision renamed.name), host)
    else mergeMethods r rest { host with methods := host.methods.push renamed }

/-- Adds a copy of a group's program under a prefix. -/
def merge (host : Program) (group : CompiledGroup) (namePrefix : String) :
    Except ErrorKind MergeTable × Program :=
  let sub := group.program
  let methods := sub.methods.toList.map (·.name)
  let r : Renaming := { namePrefix, methods, offset := host.instrs.size }
  match mergeSlots sub.slots.slots.toList r host with
  | (.error e, host) => (.error e, host)
  | (.ok r, host) =>
    let host := renameShadows r host
    let host := { host with instrs := host.instrs ++ sub.instrs.map r.instr }
    match mergeMethods r sub.methods.toList host with
    | (.error e, host) => (.error e, host)
    | (.ok (), host) =>
      let named := sub.slots.slots.toList.filter (!·.isThis)
      let table : MergeTable :=
        { namePrefix
          methods := methods.map fun name => (name, namePrefix ++ name)
          slots := named.map fun slot => (slot.name, namePrefix ++ slot.name)
          entries := group.entries.map r.entry }
      (.ok table, host)

end Program

end TriggerCompiler
