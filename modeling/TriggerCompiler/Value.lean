import TriggerCompiler.Single.Text
import TriggerCompiler.Text.Column

/-!
Value types and values of the target machine. A type is known by the name that the machine uses for
it; the four types that are compared by value are called value types, every other one holds
references. Values compare by their bits, so equal literals can share one slot.
-/

namespace TriggerCompiler

/-- The declared type of a slot or of an action's parameter. -/
inductive ValueType where
  | boolean
  | int32
  | uint32
  | single
  | string
  /-- The root of the reference types. -/
  | object
  /-- Any other reference type, by its machine name. -/
  | reference (name : String)
  deriving DecidableEq, Inhabited

namespace ValueType

/-- The name that slot declarations and host call signatures use. -/
def machineName : ValueType → String
  | boolean => "SystemBoolean"
  | int32 => "SystemInt32"
  | uint32 => "SystemUInt32"
  | single => "SystemSingle"
  | string => "SystemString"
  | object => "SystemObject"
  | reference name => name

/-- Whether values of the type are compared by value; all others go through object equality. -/
def isValueType : ValueType → Bool
  | boolean | int32 | uint32 | single => true
  | string | object | reference _ => false

/-- Whether a value of type `found` can stand where `wanted` is expected: the root type takes every
reference. -/
def accepts (wanted found : ValueType) : Bool :=
  wanted = found || (wanted = object && !found.isValueType)

/-- The type of the object that runs the program. -/
def gameObject : ValueType := reference "UnityEngineGameObject"

/-- The type of a player. -/
def player : ValueType := reference "VRCSDKBaseVRCPlayerApi"

end ValueType

/-- An instruction is known by its position in the arena of its program. -/
abbrev InstrId := Nat

/-- The text of an instruction's position. -/
def instrText (id : InstrId) : String := "#" ++ toString id

/-- Something whose address is fixed only when the program is linked. -/
inductive Address where
  | instruction (id : InstrId)
  | method (name : String)
  deriving DecidableEq

namespace Address

/-- The text of an address: a position or a method's name. -/
def text : Address → String
  | instruction id => instrText id
  | method name => name

end Address

/-- What a slot can hold. -/
inductive Value where
  | null
  | boolean (b : Bool)
  | int32 (n : Int32)
  | uint32 (n : UInt32)
  | single (x : Single)
  | string (s : String)
  | address (target : Address)
  deriving DecidableEq, Inhabited

namespace Value

/-- Whether the value can be the initial content of a slot of the type. -/
def fits (v : Value) (type : ValueType) : Bool :=
  match v with
  | null => !type.isValueType
  | boolean _ => type = .boolean
  | int32 _ => type = .int32
  | uint32 _ | address _ => type = .uint32
  | single _ => type = .single
  | string _ => type = .string || type = .object

/-- The type that the value has of its own; `null` has none. -/
def naturalType : Value → Option ValueType
  | null => none
  | boolean _ => some .boolean
  | int32 _ => some .int32
  | uint32 _ | address _ => some .uint32
  | single _ => some .single
  | string _ => some .string

/-- The natural type, or the root type where there is none. -/
def typeOrObject (v : Value) : ValueType := v.naturalType.getD .object

/-- The text of a truth value. -/
def booleanText (b : Bool) : String := if b then "true" else "false"

/-- The value as a program listing shows it. -/
def text : Value → String
  | null => "null"
  | boolean b => booleanText b
  | int32 n => toString n.toInt
  | uint32 n => Text.upperHexWord n.toNat
  | single x => x.text
  | string s => Text.quoted s
  | address target => "&" ++ target.text

/-- The value with the name of its kind, as a run-time fault shows it. -/
def tagged : Value → String
  | null => "Null"
  | boolean b => "Boolean(" ++ booleanText b ++ ")"
  | int32 n => "Int32(" ++ toString n.toInt ++ ")"
  | uint32 n => "UInt32(" ++ toString n.toNat ++ ")"
  | single x => "Single(" ++ x.markedText ++ ")"
  | string s => "String(" ++ Text.quoted s ++ ")"
  | address (.instruction id) => "Address(Instruction(InstrId(" ++ toString id ++ ")))"
  | address (.method name) => "Address(Method(" ++ Text.quoted name ++ "))"

end Value

end TriggerCompiler
