import TriggerCompiler.Engine
import TriggerCompiler.Trigger.Document

/-!
The JSON forms in which the console is asked: causes of failure, places, options, and the
operations of scripts. An operation is an array of its name and its arguments; an argument that is
missing counts as `null`.
-/

namespace TriggerCompiler.Console

/-- An operation as its name and its arguments. -/
structure Call where
  name : String
  arguments : List Json

namespace Call

/-- Reads an operation. -/
def ofJson? (j : Json) : Option Call := do
  match ← j.array? with
  | name :: arguments => return ⟨← name.string?, arguments⟩
  | [] => none

/-- The argument at a position. -/
def argument (c : Call) (index : Nat) : Json := c.arguments.getD index .null

/-- The text at a position. -/
def text (c : Call) (index : Nat) : Option String := (c.argument index).string?

/-- The text at a position, if there is one. -/
def text? (c : Call) (index : Nat) : Option (Option String) :=
  Json.nullable Json.string? (c.argument index)

/-- The natural number at a position. -/
def nat (c : Call) (index : Nat) : Option Nat := (c.argument index).nat?

/-- The truth value at a position. -/
def bool (c : Call) (index : Nat) : Option Bool := (c.argument index).bool?

/-- The type at a position. -/
def type (c : Call) (index : Nat) : Option ValueType := ValueType.ofJson? (c.argument index)

/-- The construct at a position. -/
def construct (c : Call) (index : Nat) : Option Construct := do
  Construct.ofName? (← c.text index)

/-- The construct at a position, if there is one. -/
def construct? (c : Call) (index : Nat) : Option (Option Construct) := do
  match ← c.text? index with
  | none => return none
  | some name => return some (← Construct.ofName? name)

end Call

/-- Reads a cause of failure. -/
def errorKind? (j : Json) : Option ErrorKind := do
  let c ← Call.ofJson? j
  match c.name with
  | "StructuralSequence" => return .misplaced (.stated (← c.text 0))
  | "NotInLoop" => return .notInLoop (← c.construct 0)
  | "UndefinedVariable" => return .undefinedVariable (← c.text 0)
  | "DuplicateName" =>
    let existing ← match ← c.text? 1 with
      | none => some none
      | some kind => (SlotKind.ofName? kind).map some
    return .duplicateName (← c.text 0) existing
  | "UnknownAction" => return .unknownAction (← c.text 0) (← c.text? 1)
  | "MissingJumpLabel" => return .missingMethod (← c.text 0)
  | "LoweringInvariant" => return .broken (.stated (← c.text 0))
  | "InvalidLoopParameter" => return .badLoop (.stated (← c.text 0))
  | "MissingBinding" => return .unbound (← c.text 0)
  | "ArityMismatch" => return .wrongArity (← c.nat 0) (← c.nat 1)
  | "TypeMismatch" => return .wrongType (← c.text 0) (← c.text 1) (← c.text 2)
  | "NameCollision" => return .nameCollision (← c.text 0)
  | _ => none

/-- Reads a place. -/
def coordinate? (j : Json) : Option (Option Coordinate) := do
  match j with
  | .null => return none
  | .array [event, construct] => return some (.entry (← event.nat?) (← construct.string?))
  | .array [event, action, construct] =>
    return some (.inBody (← event.nat?) (← action.nat?) (← construct.string?))
  | _ => none

/-- Reads options; those that are missing have their default. -/
def options? (j : Json) : Option CompileOptions := do
  let _ ← j.object?
  return {
    autoSerialize := ← j.withDefault Json.bool? true "auto_request_serialization"
    groupPrefix := ← j.withDefault Json.string? "__grp" "group_prefix"
    warnUnused := ← j.withDefault Json.bool? true "warn_on_unused_variables" }

/-- Reads a literal of a script. -/
def scriptValue? (j : Json) : Option ScriptValue := do
  match j with
  | .object [("Address", target)] =>
    match ← target.choice? with
    | ("Instruction", some register) => return .instruction (← register.string?)
    | ("Method", some name) => return .method (← name.string?)
    | _ => none
  | j => return .literal (← Value.ofJson? j)

/-- Reads an instruction of a script. -/
def scriptInstr? (j : Json) : Option ScriptInstr := do
  let c ← Call.ofJson? j
  match c.name with
  | "Nop" => return .nop
  | "Push" => return .push (← c.text 0)
  | "Copy" => return .copy
  | "Extern" => return .host (← c.text 0)
  | "Jump" => return .jump (← c.text 0)
  | "Halt" => return .halt
  | "JumpIfFalse" => return .jumpIfFalse (← c.text 0)
  | "JumpIndirect" => return .jumpIndirect (← c.text 0)
  | "JumpLabel" => return .jumpMethod (← c.text 0)
  | _ => none

/-- Reads an operation on a program. -/
def programOp? (c : Call) : Option ProgramOp := do
  match c.name with
  | "declare" =>
    return .declare (← c.text 0) (← c.text 1) (← c.type 2) (← SlotKind.ofName? (← c.text 3))
  | "declare_user" => return .declareUser (← c.text 0) (← VariableDecl.ofJson? (c.argument 1))
  | "lookup_user" => return .findUser (← c.text 0) (← c.text 1)
  | "lookup_name" => return .findName (← c.text 0) (← c.text 1)
  | "temp" => return .temporary (← c.text 0) (← c.type 1)
  | "release" => return .release (← c.text 0)
  | "const" => return .constant (← c.text 0) (← c.type 1) (← scriptValue? (c.argument 2))
  | "special" => return .this (← c.text 0)
  | "reserved" => return .reserved (← c.text 0) (← c.text 1) (← c.type 2)
  | "counts" => return .counts
  | "var" => return .slot (← c.text 0)
  | "add_method" => return .addMethod (← c.text 0) (← MethodKind.ofName? (← c.text 1))
  | "method" => return .method (← c.text 0)
  | "epilogue" => return .epilogue (← c.text 0) (← c.text? 1)
  | "method_address" => return .methodAddress (← c.text 0)
  | "exported" => return .exported
  | "emit" => return .emit (← c.text 0) (← c.text 1) (← scriptInstr? (c.argument 2))
  | "label" => return .label (← c.text 0)
  | "emit_label" => return .emitLabel (← c.text 0) (← c.text 1)
  | "end_label" => return .endLabel (← c.text 0) (← c.text 1)
  | "jump" => return .jump (← c.text 0) (← c.text 1) (← c.text 2)
  | "insert_before" =>
    return .insertBefore (← c.text 0) (← c.text 1) (← c.text? 2) (← scriptInstr? (c.argument 3))
  | "place" => return .place (← c.text 0) (← c.text 1)
  | "tail" => return .tail (← c.text 0) (← c.nat 1)
  | "body" => return .body (← c.text 0)
  | "instr" => return .instr (← c.text 0)
  | "size" => return .size
  | "listing" => return .listing
  | _ => none

/-- Reads which open block is meant. -/
def frameRef? (j : Json) : Option FrameRef :=
  match j with
  | .string "top" => some .top
  | j => j.nat?.map .index

/-- Reads an operation of a script. -/
def scriptOp? (j : Json) : Option ScriptOp := do
  let c ← Call.ofJson? j
  match c.name with
  | "input" => return .input (← c.text 0) (← c.nat 1)
  | "push" => return .push (← c.text 0)
  | "copy" => return .copy (← c.text 0) (← c.text 1)
  | "jump_if_false" => return .jumpIfFalse (← c.text 0) (← c.text 1)
  | "call_extern" => return .callHost (← c.text 0) (← (c.argument 1).list? Json.string?)
  | "call_method" => return .callMethod (← c.text 0) (← c.text 1)
  | "send_custom_event" => return .sendCustomEvent (← c.text 0)
  | "this" => return .this (← c.text 0)
  | "after_write" => return .afterWrite (← c.text 0)
  | "declare_local" => return .declareLocal (← c.text 0) (← c.text 1) (← c.type 2)
  | "keep_in_scope" => return .keepInScope (← c.text 0)
  | "own" => return .own (← c.text 0)
  | "frame_end" => return .frameEnd (← c.text 0) (← frameRef? (c.argument 1))
  | "frame_start" => return .frameStart (← c.text 0) (← frameRef? (c.argument 1))
  | "end_of" => return .closedEnd (← c.text 0)
  | "start_of" => return .closedStart (← c.text 0)
  | "set_loop" => return .setLoop (← c.bool 0)
  | "set_condition_result" => return .setConditionResult (← c.text? 0)
  | "parent_prev" => return .parentPrevious (← c.construct? 0)
  | "current_prev" => return .currentPrevious (← c.construct? 0)
  | "drop_closed_end" => return .dropClosedEnd
  | "push_scope" => return .pushScope (← c.construct? 0)
  | "pop_scope" => return .popScope
  | "resolve" => return .resolve (← c.text 0) (← VariableRef.ofJson? (c.argument 1))
  | "bind_read" =>
    return .bindRead (← c.text 0) (← Binding.ofJson? (c.argument 1))
      (← Parameter.ofJson? (c.argument 2))
  | "bind_write" =>
    return .bindWrite (← c.text 0) (← Binding.ofJson? (c.argument 1))
      (← Parameter.ofJson? (c.argument 2)) (← Json.nullable ValueType.ofJson? (c.argument 3))
  | "warn" => return .warn (← c.text 0)
  | "fail" => return .fail (← errorKind? (c.argument 0)) (← c.bool 1)
  | "enter_method" => return .enterMethod (← c.text 0)
  | "note" => return .note (← c.text 0)
  | _ => return .program (← programOp? c)

/-- Reads a script. -/
def script? (j : Json) : Option (List ScriptOp) := j.list? scriptOp?

/-- Reads the kind of an action. -/
def actionKind? (j : Json) : Option ActionKind := do
  match ← j.choice? with
  | ("Builtin", some name) => return .construct (← Construct.ofName? (← name.string?))
  | ("Extern", some call) =>
    return .host (← call.required Json.string? "signature")
      (← call.optionalMember ValueType.ofJson? "instance")
  | ("GroupAction", some entry) =>
    return .group (← entry.required Json.string? "group") (← entry.required Json.string? "action")
  | ("Custom", some custom) =>
    return .script {
      opensBlock := ← custom.withDefault Json.bool? false "opens_scope"
      lower := ← custom.required script? "lower"
      close := ← custom.withDefault script? [] "close" }
  | _ => none

/-- Reads how an event's method gets its name. -/
def eventMethod? (j : Json) : Option EventMethod := do
  match ← j.choice? with
  | ("Named", some name) => return .named (← name.string?)
  | ("FromInput", none) => return .fromInput
  | ("VariableHandler", none) => return .variableHandler
  | _ => none

/-- Reads a parameter of an event. -/
def eventParameter? (j : Json) : Option EventParameter := do
  match j with
  | .array [name, slot, type] =>
    return ⟨← name.string?, ← slot.string?, ← ValueType.ofJson? type⟩
  | _ => none

end TriggerCompiler.Console
