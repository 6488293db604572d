import TriggerCompiler.Diagnostic.ErrorKind

/-!
The slot table of a program: variables of the document, constants that equal literals share, pooled
temporaries, and slots with a fixed role. Names are unique in a table. A generated name that is
already taken is replaced by the next one of its pattern; the search tries one name more than the
table has slots, so it always finds one.
-/

namespace TriggerCompiler

/-- The slots of a program with the indexes that find them again. -/
structure SlotTable where
  slots : Array Slot := #[]
  /-- The slots of the document's variables, by the editor's id. -/
  userIds : List (String × SlotId) := []
  /-- The constants made here, by type and value. -/
  constants : List ((ValueType × Value) × SlotId) := []
  /-- The temporaries that nobody holds, the last returned first. -/
  free : List (ValueType × SlotId) := []
  /-- The slot of the object that runs the program, once there is one. -/
  this : Option SlotId := none
  /-- How many names for temporaries were tried. -/
  temporaryCount : Nat := 0
  deriving Inhabited

/-- The first number from `start` on whose candidate is not taken, of at most `fuel` tried. -/
def firstFree (taken : String → Bool) (candidate : Nat → String) : Nat → Nat → Nat
  | 0, start => start
  | fuel + 1, start =>
    if taken (candidate start) then firstFree taken candidate fuel (start + 1) else start

namespace SlotTable

/-- The number of slots. -/
def size (t : SlotTable) : Nat := t.slots.size

/-- The slot at a position. -/
def get (t : SlotTable) (id : SlotId) : Slot := t.slots.getD id default

/-- The position of the slot with a name. -/
def findName? (t : SlotTable) (name : String) : Option SlotId :=
  t.slots.findIdx? (·.name = name)

/-- Whether a slot has the name. -/
def isTaken (t : SlotTable) (name : String) : Bool := t.slots.any (·.name = name)

/-- Adds a slot at the end, without looking at its name. -/
def push (t : SlotTable) (slot : Slot) : SlotId × SlotTable :=
  let id := t.slots.size
  (id, { t with slots := t.slots.push slot, this := if slot.isThis then some id else t.this })

/-- Adds a slot at the end, unless its name is taken. -/
def insert (t : SlotTable) (slot : Slot) : Except ErrorKind (SlotId × SlotTable) :=
  match t.findName? slot.name with
  | some existing => .error (.duplicateName slot.name (some (t.get existing).kind))
  | none => .ok (t.push slot)

/-- Adds a plain slot. -/
def declare (t : SlotTable) (name : String) (type : ValueType) (kind : SlotKind) :
    Except ErrorKind (SlotId × SlotTable) :=
  t.insert { name, type, kind }

/-- Changes the slot at a position. -/
def modify (t : SlotTable) (id : SlotId) (f : Slot → Slot) : SlotTable :=
  { t with slots := t.slots.modify id f }

/-- The slot of a document's variable. -/
def userSlot (v : VariableDecl) : Slot where
  name := v.name
  type := v.type
  kind := .user
  sync := v.sync
  exported := true
  initial := v.initial
  notifies := v.notifies

/-- The slot that keeps the last value of which a variable's handler knows. -/
def shadowSlot (v : VariableDecl) : Slot where
  name := "__prev_" ++ v.name
  type := v.type
  kind := .reserved
  initial := v.initial

/-- Adds a variable of the document, and its shadow if its changes are watched. When the shadow's
name is taken the variable's slot stays, but its id does not lead to it. -/
def declareUser (t : SlotTable) (v : VariableDecl) : Except ErrorKind SlotId × SlotTable :=
  if (t.userIds.lookup v.id).isSome then
    (.error (.duplicateName v.name (some .user)), t)
  else
    match t.insert (userSlot v) with
    | .error e => (.error e, t)
    | .ok (id, t) =>
      if v.notifies then
        match t.insert (shadowSlot v) with
        | .error e => (.error e, t)
        | .ok (shadow, t) =>
          let t := t.modify id fun s => { s with shadow := some shadow }
          (.ok id, { t with userIds := (v.id, id) :: t.userIds })
      else (.ok id, { t with userIds := (v.id, id) :: t.userIds })

/-- The slot of a document's variable, by the editor's id. -/
def findUser (t : SlotTable) (id : String) : Except ErrorKind SlotId :=
  match t.userIds.lookup id with
  | some slot => .ok slot
  | none => .error (.undefinedVariable id)

/-- The name of a temporary. -/
def temporaryName (type : ValueType) (index : Nat) : String :=
  "__temp_" ++ toString index ++ "_" ++ type.machineName

/-- Takes a temporary of the type out of the pool, the last returned one first. -/
def takeFree (type : ValueType) :
    List (ValueType × SlotId) → Option (SlotId × List (ValueType × SlotId))
  | [] => none
  | (t, id) :: rest =>
    if t = type then some (id, rest)
    else (takeFree type rest).map fun (found, rest) => (found, (t, id) :: rest)

/-- Hands out a temporary: a returned one of the type if there is one, else a new one. -/
def requestTemporary (t : SlotTable) (type : ValueType) : SlotId × SlotTable :=
  match takeFree type t.free with
  | some (id, free) => (id, { t with free })
  | none =>
    let index := firstFree t.isTaken (temporaryName type) (t.size + 1) t.temporaryCount
    let t := { t with temporaryCount := index + 1 }
    t.push { name := temporaryName type index, type, kind := .temporary }

/-- Returns a temporary to the pool; a slot of another kind is left alone. -/
def release (t : SlotTable) (id : SlotId) : SlotTable :=
  let slot := t.get id
  if slot.kind = .temporary then { t with free := (slot.type, id) :: t.free } else t

/-- The name of a constant. -/
def constantName (type : ValueType) (index : Nat) : String :=
  "__const_" ++ toString index ++ "_" ++ type.machineName

/-- The slot of a constant, made when it is first asked for. -/
def constant (t : SlotTable) (type : ValueType) (value : Value) : SlotId × SlotTable :=
  match t.constants.lookup (type, value) with
  | some id => (id, t)
  | none =>
    let index := firstFree t.isTaken (constantName type) (t.size + 1) t.constants.length
    let slot : Slot :=
      { name := constantName type index, type, kind := .constant, initial := some value }
    let (id, t) := t.push slot
    (id, { t with constants := ((type, value), id) :: t.constants })

/-- The name of the running object's slot. -/
def thisName : Nat → String
  | 0 => "__this"
  | index => "__this_" ++ toString index

/-- The slot of the object that runs the program, made when it is first asked for. -/
def thisSlot (t : SlotTable) : SlotId × SlotTable :=
  match t.this with
  | some id => (id, t)
  | none =>
    let index := firstFree t.isTaken thisName (t.size + 1) 0
    t.push { name := thisName index, type := .gameObject, kind := .reserved, isThis := true }

/-- A slot with a fixed role and name, shared by all that ask for it with the same type. -/
def reserved (t : SlotTable) (name : String) (type : ValueType) :
    Except ErrorKind (SlotId × SlotTable) :=
  match t.findName? name with
  | some id =>
    let slot := t.get id
    if slot.kind = .reserved ∧ slot.type = type then .ok (id, t)
    else .error (.duplicateName name (some slot.kind))
  | none => t.declare name type .reserved

/-- How many temporaries nobody holds. -/
def freeCount (t : SlotTable) : Nat := t.free.length

end SlotTable

end TriggerCompiler
