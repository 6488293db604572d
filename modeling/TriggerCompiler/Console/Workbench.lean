import TriggerCompiler.Console.Decode
import TriggerCompiler.Console.Encode

/-!
Requests about the parts of the compiler by themselves: a program that is put together operation by
operation, and a stack of open blocks.
-/

namespace TriggerCompiler.Console

/-! ## Programs -/

/-- An operation on a program, or the merge of one of the given groups. -/
inductive WorkOp where
  | program (op : ProgramOp)
  | merge (group : Nat) (namePrefix : String)

/-- Reads an operation. -/
def workOp? (j : Json) : Option WorkOp := do
  let c ← Call.ofJson? j
  if c.name = "merge" then return .merge (← c.nat 0) (← c.text 1)
  return .program (← programOp? c)

/-- Compiles groups one after the other, each registered before the next; one with the GUID of an
earlier one takes its place. -/
def compileGroups : List ActionGroup → Engine → Except Report (List CompiledGroup)
  | [], _ => .ok []
  | g :: rest, engine => do
    let (group, _) ← engine.compileActionGroup g
    let engine := { engine with registry := engine.registry.addGroup group }
    return group :: (← compileGroups rest engine)

/-- Carries out an operation. -/
def workStep (groups : List CompiledGroup) : WorkOp → BenchM Json
  | .program op => return reply (← Bench.run op)
  | .merge index namePrefix => do
    let group ← Bench.usable (toString index) groups[index]?
    let outcome ← Bench.onProgram (·.merge group namePrefix)
    return mergeTable (← Bench.raise outcome)

/-- Carries out operations; none if one of them cannot be carried out at all. -/
def workSteps (groups : List CompiledGroup) : List WorkOp → Bench → Option (List Json)
  | [], bench => some [.object (programMembers bench.program)]
  | op :: rest, bench =>
    match workStep groups op bench with
    | .ok answer bench => (workSteps groups rest bench).map (answer :: ·)
    | .error (.failed kind) bench => (workSteps groups rest bench).map (errorKind kind :: ·)
    | .error (.unusable _) _ => none

/-- Answers a request about a program. The operations are read once the groups are compiled, so that
a group that fails is reported whatever the operations are. -/
def programAnswer? (j : Json) : Option Json := do
  let groups ← j.listMember ActionGroup.ofJson? "groups"
  match compileGroups groups {} with
  | .error r => return report r
  | .ok groups =>
    let ops ← j.required (Json.list? workOp?) "ops"
    return .array (← workSteps groups ops {})

/-! ## Open blocks -/

/-- An operation on a stack of blocks. -/
inductive ScopeOp where
  | push (opener : Option Opener)
  | pop
  | get (index : Nat)
  | endLabel
  | startLabel
  | chain
  | own
  | body
  | loop

/-- Reads what opens a block. -/
def opener? : Option String → Option (Option Opener)
  | none => some none
  | some "Custom" => some (some (.script { lower := [] }))
  | some name => (Construct.ofName? name).map fun c => some (.construct c)

/-- Reads an operation on a stack of blocks. -/
def scopeOp? (j : Json) : Option ScopeOp := do
  let c ← Call.ofJson? j
  match c.name with
  | "push" => return .push (← opener? (← c.text? 0))
  | "pop" => return .pop
  | "get" => return .get (← c.nat 0)
  | "end" => return .endLabel
  | "start" => return .startLabel
  | "chain" => return .chain
  | "own" => return .own
  | "body" => return .body
  | "loop" => return .loop
  | _ => none

/-- A stack of blocks with the program that its labels and temporaries come from. -/
structure ScopeBench where
  scopes : ScopeStack := {}
  program : Program := {}

namespace ScopeBench

/-- Changes the innermost block by what a new label gives it. -/
def withLabel (b : ScopeBench) (f : InstrId → Frame → Frame) : ScopeBench :=
  let (label, program) := b.program.newLabel
  { program, scopes := b.scopes.modifyCurrent (f label) }

/-- Changes the innermost block by what a new temporary gives it. -/
def withTemporary (b : ScopeBench) (f : SlotId → Frame → Frame) : ScopeBench :=
  let (slot, slots) := b.program.slots.requestTemporary .int32
  { program := { b.program with slots }, scopes := b.scopes.modifyCurrent (f slot) }

/-- What a closed block leaves, as an answer. -/
def closed (f : Frame) : Json :=
  let c := f.closed
  .object [("opener", .optional (fun o => .string o.text) f.opener),
    ("coordinate", .optional (fun c => .string c.text) f.coordinate),
    ("closed", .object [("construct", .optional (fun c => .string c.name) c.construct),
      ("end", .optional .nat c.endLabel), ("chain_jumps", .list .nat c.chainJumps),
      ("saw_condition_body", .bool c.sawConditionBody)])]

/-- Changes the innermost block, if there is one. -/
def change (b : ScopeBench) (f : ScopeBench → ScopeBench) : Json × ScopeBench :=
  if b.scopes.current?.isSome then (.bool true, f b) else (.null, b)

/-- Carries out the operation at a position of the request. -/
def step (b : ScopeBench) (position : Nat) : ScopeOp → Json × ScopeBench
  | .push none => (.null, { b with scopes := b.scopes.push Frame.root })
  | .push (some opener) =>
    let frame := Frame.openedBy opener (.inBody 0 position opener.text)
    (.null, { b with scopes := b.scopes.push frame })
  | .pop =>
    match b.scopes.pop? with
    | some (f, scopes) => (closed f, { b with scopes })
    | none =>
      (.object [("error", .string "EmptyStack"),
        ("message", .string Breach.emptyScopes.message)], b)
  | .get index =>
    let construct := (b.scopes.frame? index).bind Frame.construct?
    (.optional (fun c => .string c.name) construct, b)
  | .endLabel => b.change (·.withLabel fun l f => { f with endLabel := some l })
  | .startLabel => b.change (·.withLabel fun l f => { f with startLabel := some l })
  | .chain => b.change (·.withLabel fun l f => { f with chainJumps := f.chainJumps ++ [l] })
  | .own => b.change (·.withTemporary fun s f => f.own s)
  | .body =>
    b.change fun b =>
      { b with scopes := b.scopes.modifyCurrent fun f => { f with sawConditionBody := true } }
  | .loop =>
    b.change fun b =>
      { b with scopes := b.scopes.modifyCurrent fun f => { f with isLoop := true } }

/-- The stack after an operation, with the operation's result. -/
def view (b : ScopeBench) (result : Json) : Json :=
  let frame (f : Frame) : Json :=
    .array [.optional (fun c => .string c.name) f.construct?, .bool f.isLoop,
      .optional .nat f.startLabel, .optional .nat f.endLabel, .list .nat f.owned]
  .object [("result", result), ("depth", .nat b.scopes.depth),
    ("empty", .bool (b.scopes.depth = 0)), ("parent", .optional .nat b.scopes.parentIndex?),
    ("loop", .optional .nat b.scopes.nearestLoop?),
    ("condition", .optional .nat b.scopes.nearestCondition?),
    ("frames", .list frame b.scopes.frames)]

/-- Carries out operations from a position of the request on. -/
def steps : Nat → List ScopeOp → ScopeBench → List Json
  | _, [], _ => []
  | position, op :: rest, b =>
    let (result, b) := b.step position op
    b.view result :: steps (position + 1) rest b

end ScopeBench

/-- Answers a request about open blocks. -/
def scopesAnswer? (j : Json) : Option Json := do
  let ops ← j.required (Json.list? scopeOp?) "ops"
  return .array (ScopeBench.steps 0 ops {})

end TriggerCompiler.Console
