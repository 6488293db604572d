import Mathlib
import TriggerCompiler.Assembly.Group
import TriggerCompiler.Proofs.TableHistory

/-!
# What a compile can do to its state

Whatever the registry holds and whatever the document asks for, also where a computation fails or a
custom action runs, the state of a compile changes by a few kinds of edits only. Every computation of
the compiler is shown once to be a sequence of edits; what holds of a whole compile then follows from
what one edit does.
-/

namespace TriggerCompiler

open Relation (ReflTransGen)

/-! ## Beside the program -/

namespace Lower

section

variable {α : Type} {R : LowerState → LowerState → Prop} {id : SlotId} {name : String} {index : Nat}
  {kind : ErrorKind} {m : MethodId}

/-- The relation is not about what stands beside the program, the errors and the merges. -/
class Lax (R : LowerState → LowerState → Prop) : Prop where
  beside : ∀ {s t : LowerState}, t.program = s.program → t.errors = s.errors → t.merges = s.merges →
    t.mergeCount = s.mergeCount → R s t

variable [Lax R]

instance (scopes : LowerState → ScopeStack) (warnings : LowerState → Array Warning)
    (references : LowerState → Array SymbolReference) (used : LowerState → List SlotId)
    (inputs locals : LowerState → List (String × SlotId)) (method : LowerState → MethodId)
    (event : LowerState → Nat) (coordinate : LowerState → Coordinate)
    (pending : LowerState → Array SlotId) (registers : LowerState → Registers)
    (notes : LowerState → Array Note) :
    KeepsTo R (modify fun s => { s with
      scopes := scopes s, warnings := warnings s, references := references s, used := used s,
      eventInputs := inputs s, locals := locals s, method := method s, event := event s,
      coordinate := coordinate s, pending := pending s, registers := registers s,
      notes := notes s } : Lower PUnit) :=
  ⟨fun _ => Lax.beside rfl rfl rfl rfl⟩

variable [IsPreorder LowerState R]

instance : KeepsTo R (fail kind : Lower α) := by unfold fail; infer_instance
instance (x : Except ErrorKind α) : KeepsTo R (raise x) := by
  cases x <;> (unfold raise; infer_instance)
instance (q : Option Coordinate) (x : Except ErrorKind α) : KeepsTo R (raiseAt q x) := by
  cases x <;> (unfold raiseAt; infer_instance)
instance (q : Option Coordinate) : KeepsTo R (warnAt q name) := by unfold warnAt; infer_instance
instance : KeepsTo R (warn name) := by unfold warn; infer_instance
instance : KeepsTo R (beginEvent index name) := by unfold beginEvent; infer_instance
instance : KeepsTo R (beginAction index name) := by unfold beginAction; infer_instance
instance : KeepsTo R (slot id) := by unfold slot; infer_instance
instance : KeepsTo R (enterMethod m) := by unfold enterMethod; infer_instance
instance : KeepsTo R (addEventInput name id) := by unfold addEventInput; infer_instance
instance (l : List VariableDecl) : KeepsTo R (warnUnused l) :=
  .forM (fun _ => .bind inferInstance fun _ => by split <;> infer_instance) l

end

end Lower

/-! ## Edits of a program -/

/-- An edit of a program: its table serves a request, a method is added, or only code is changed. -/
inductive Program.Edit (p : Program) : Program → Prop where
  | table (q : SlotTable.Request) : Edit p { p with slots := (p.slots.serve q).2 }
  | method {name : String} {kind : MethodKind} (fresh : name ∉ p.names) :
      Edit p { p with methods := p.methods.push { name, kind } }
  | code {p' : Program} (slots : p'.slots = p.slots) (names : p'.names = p.names) : Edit p p'

namespace Program.Edit

variable {p : Program} {id : MethodId}

lemma modifyMethod {f : Method → Method} (hf : ∀ m, (f m).name = m.name) :
    p.Edit (p.modifyMethod id f) :=
  .code rfl (names_modifyMethod hf)

lemma emit (i : Instr) : p.Edit (p.emit id i).2 :=
  .code rfl (names_modifyMethod (p := (p.alloc i).2) fun _ => rfl)

lemma endLabel : p.Edit (p.endLabel id).2 := by
  unfold Program.endLabel
  split
  · exact .code rfl rfl
  · exact .code rfl (names_modifyMethod (p := p.newLabel.2) fun _ => rfl)

lemma addMethod {name : String} {kind : MethodKind} {x : MethodId × Program}
    (h : p.addMethod name kind = .ok x) : p.Edit x.2 := by
  unfold Program.addMethod at h
  split_ifs at h with hname
  obtain rfl := Except.ok.inj h
  exact .method fun hmem => hname ((findMethod?_isSome_iff p name).mpr hmem)

lemma insertBeforeLabel {label : Option InstrId} {i : Instr} {x : InstrId × Program}
    (h : p.insertBeforeLabel id label i = .ok x) : p.Edit x.2 := by
  unfold Program.insertBeforeLabel at h
  split_ifs at h
  obtain rfl := Except.ok.inj h
  exact .code rfl (names_modifyMethod (p := (p.alloc i).2) fun _ => rfl)

end Program.Edit

/-! ## Edits of a state -/

/-- What stands before the names that the merge of a number brings. -/
def Environment.stem (env : Environment) (number : Nat) : String :=
  env.options.groupPrefix ++ toString number ++ "_"

/-- The state after a group was merged, or its merge failed. -/
def LowerState.afterMerge (env : Environment) (guid : String) (group : CompiledGroup)
    (s : LowerState) : LowerState :=
  let merged := s.program.merge group (env.stem s.mergeCount)
  { s with
    program := merged.2
    mergeCount := s.mergeCount + 1
    merges := (merged.1.toOption.map (guid, ·)).toList ++ s.merges }

/-- An edit of the state: the program is edited, a group is merged that was not merged before, or
something beside the program and the merges is changed, and no error gets lost. -/
inductive LowerState.Edit (env : Environment) (s : LowerState) : LowerState → Prop where
  | program {p : Program} (edit : s.program.Edit p) : Edit env s { s with program := p }
  | merge {guid : String} {group : CompiledGroup} (unknown : s.merges.lookup guid = none)
      (found : env.registry.group? guid = some group) : Edit env s (s.afterMerge env guid group)
  | rest {t : LowerState} (program : t.program = s.program)
      (errors : s.errors.toList <+: t.errors.toList) (merges : t.merges = s.merges)
      (mergeCount : t.mergeCount = s.mergeCount) : Edit env s t

/-- A sequence of edits. -/
abbrev LowerState.Edits (env : Environment) : LowerState → LowerState → Prop :=
  ReflTransGen (LowerState.Edit env)

/-- The bench of a script edits only the program. -/
abbrev Bench.Edits (b c : Bench) : Prop := ReflTransGen Program.Edit b.program c.program

instance (env : Environment) : IsPreorder LowerState (LowerState.Edits env) where

instance : IsPreorder Bench Bench.Edits where
  refl _ := .refl
  trans _ _ _ := .trans

namespace Bench

variable {α : Type} {name : String} {type : ValueType} {id : MethodId} {i : Instr}

/-- The computation of a script's bench is a sequence of edits, also if it fails. -/
abbrev Tame (x : BenchM α) : Prop := KeepsTo Bench.Edits x

instance (registers : Bench → Registers) (current : Bench → Option MethodId) :
    Tame (modify fun b => { b with registers := registers b, current := current b }) :=
  ⟨fun _ => .refl⟩

lemma tame_onProgram {g : Program → α × Program} (h : ∀ p : Program, p.Edit (g p).2) :
    Tame (onProgram g) :=
  ⟨fun b => .single (h b.program)⟩

lemma tame_onSlots {g : SlotTable → α × SlotTable}
    (h : ∀ t : SlotTable, ∃ q, (g t).2 = (t.serve q).2) : Tame (onSlots g) where
  run b := by
    obtain ⟨q, hq⟩ := h b.program.slots
    have hedit : b.program.Edit { b.program with slots := (g b.program.slots).2 } := by
      rw [hq]
      exact .table q
    exact .single hedit

lemma tame_tryProgram {g : Program → Except ErrorKind (α × Program)}
    (h : ∀ (p : Program) x, g p = .ok x → p.Edit x.2) : Tame (tryProgram g) where
  run b := by
    have hb := h b.program
    unfold tryProgram
    simp only [Bind.bind, EStateM.bind, MonadState.get, getThe, MonadStateOf.get, EStateM.get]
    cases hg : g b.program with
    | ok x => exact .single (hb x hg)
    | error kind => exact .refl

lemma tame_trySlots {g : SlotTable → Except ErrorKind (SlotId × SlotTable)}
    (h : ∀ t : SlotTable, ∃ q, t.unlessFails (g t) = t.serve q) : Tame (trySlots g) where
  run b := by
    obtain ⟨q, hq⟩ := h b.program.slots
    have hedit : b.program.Edit { b.program with slots := (b.program.slots.serve q).2 } := .table q
    rw [← hq] at hedit
    unfold trySlots
    simp only [Bind.bind, EStateM.bind, MonadState.get, getThe, MonadStateOf.get, EStateM.get]
    cases hg : g b.program.slots with
    | ok x =>
      rw [hg] at hedit
      exact .single hedit
    | error kind => exact .refl

instance (x : Option α) : Tame (usable name x) := by cases x <;> (unfold usable; infer_instance)
instance : Tame (slotIn name) := by unfold slotIn; infer_instance
instance : Tame (instrIn name) := by unfold instrIn; infer_instance
instance : Tame (methodNamed name) := by unfold methodNamed; infer_instance
instance : Tame (keepSlot name id) := by unfold keepSlot; infer_instance
instance : Tame (keepInstr name id) := by unfold keepInstr; infer_instance
instance (x : Except ErrorKind α) : Tame (raise x) := by
  cases x <;> (unfold raise; infer_instance)
instance (v : ScriptValue) : Tame (valueOf v) := by cases v <;> (unfold valueOf; infer_instance)
instance (i : ScriptInstr) : Tame (instrOf i) := by cases i <;> (unfold instrOf; infer_instance)

/-- Every operation of a script on the program is a sequence of edits. -/
instance (op : ProgramOp) : Tame (run op) := by
  cases op with
  | declare r name type k =>
    have := tame_trySlots fun _ => ⟨.declare name type k, rfl⟩
    unfold run; infer_instance
  | declareUser r v =>
    have := tame_onSlots (g := (·.declareUser v)) fun _ => ⟨.user v, rfl⟩
    unfold run; infer_instance
  | findName r name => exact .bind inferInstance fun _ => by split <;> infer_instance
  | temporary r type =>
    have := tame_onSlots (g := (·.requestTemporary type)) fun _ => ⟨.temporary type, rfl⟩
    unfold run; infer_instance
  | release v =>
    have : ∀ id, Tame (onSlots fun t => ((), t.release id)) :=
      fun id => tame_onSlots fun _ => ⟨.release id, rfl⟩
    unfold run; infer_instance
  | constant r type v =>
    have : ∀ v, Tame (onSlots (·.constant type v)) :=
      fun v => tame_onSlots fun _ => ⟨.constant type v, rfl⟩
    unfold run; infer_instance
  | this r =>
    have := tame_onSlots (g := (·.thisSlot)) fun _ => ⟨.this, rfl⟩
    unfold run; infer_instance
  | reserved r name type =>
    have := tame_trySlots (g := (·.reserved name type)) fun _ => ⟨.reserved name type, rfl⟩
    unfold run; infer_instance
  | addMethod name k =>
    have := tame_tryProgram (g := (·.addMethod name k)) fun _ _ => .addMethod
    unfold run; infer_instance
  | epilogue m v =>
    have : ∀ m e, Tame (onProgram fun p => ((), p.setEpilogue m e)) :=
      fun _ _ => tame_onProgram fun _ => .modifyMethod fun _ => rfl
    cases v <;> (unfold run; infer_instance)
  | emit | emitLabel | jump =>
    have : ∀ m i, Tame (onProgram (·.emit m i)) := fun _ i => tame_onProgram fun _ => .emit i
    unfold run; infer_instance
  | label =>
    have : Tame (onProgram (·.newLabel)) := tame_onProgram fun _ => .code rfl rfl
    unfold run; infer_instance
  | endLabel =>
    have : ∀ m, Tame (onProgram (·.endLabel m)) := fun _ => tame_onProgram fun _ => .endLabel
    unfold run; infer_instance
  | insertBefore r m l i =>
    have : ∀ m x i, Tame (tryProgram (·.insertBeforeLabel m x i)) :=
      fun _ _ _ => tame_tryProgram fun _ _ => .insertBeforeLabel
    cases l <;> (unfold run; infer_instance)
  | place =>
    have : ∀ m l, Tame (onProgram fun p => ((), p.place m l)) :=
      fun _ _ => tame_onProgram fun _ => .modifyMethod fun _ => rfl
    unfold run; infer_instance
  | _ => unfold run; infer_instance

end Bench

namespace Lower

variable {α : Type} {env : Environment} {id : SlotId} {i : Instr} {l : InstrId} {name : String}
  {type : ValueType} {p : Parameter} {b : Binding} {a : BoundAction} {f : Frame} {c : Construct}
  {index : Nat} {kind : ErrorKind} {m : MethodId}

/-- The computation is a sequence of edits, also if it fails. -/
abbrev Tame (env : Environment) (x : Lower α) : Prop := KeepsTo (LowerState.Edits env) x

instance : Lax (LowerState.Edits env) :=
  ⟨fun program errors merges count => .single (.rest program (errors ▸ List.prefix_rfl) merges count)⟩

/-! ## The program and its table -/

lemma tame_onProgram {g : Program → α × Program} (h : ∀ p : Program, p.Edit (g p).2) :
    Tame env (onProgram g) :=
  ⟨fun s => .single (.program (h s.program))⟩

lemma tame_onSlots {g : SlotTable → α × SlotTable}
    (h : ∀ t : SlotTable, ∃ q, (g t).2 = (t.serve q).2) : Tame env (onSlots g) := by
  refine tame_onProgram fun p => ?_
  obtain ⟨q, hq⟩ := h p.slots
  dsimp only
  rw [hq]
  exact .table q

lemma tame_tryProgram {g : Program → Except ErrorKind (α × Program)}
    (h : ∀ (p : Program) x, g p = .ok x → p.Edit x.2) : Tame env (tryProgram g) := by
  refine tame_onProgram fun p => ?_
  cases hg : g p with
  | ok x => exact h p x hg
  | error kind => exact .code rfl rfl

lemma tame_trySlots {g : SlotTable → Except ErrorKind (SlotId × SlotTable)}
    (h : ∀ t : SlotTable, ∃ q, t.unlessFails (g t) = t.serve q) : Tame env (trySlots g) := by
  refine tame_onSlots fun t => ?_
  obtain ⟨q, hq⟩ := h t
  refine ⟨q, ?_⟩
  rw [← hq]
  cases g t <;> rfl

instance : Tame env (temporary type) := tame_onSlots fun _ => ⟨.temporary type, rfl⟩
instance : Tame env (release id) := tame_onSlots fun _ => ⟨.release id, rfl⟩
instance (v : Value) : Tame env (constant type v) := tame_onSlots fun _ => ⟨.constant type v, rfl⟩
instance : Tame env this := tame_onSlots fun _ => ⟨.this, rfl⟩
instance (v : VariableDecl) : Tame env (onSlots (·.declareUser v)) :=
  tame_onSlots fun _ => ⟨.user v, rfl⟩
instance (k : SlotKind) : Tame env (trySlots (·.declare name type k)) :=
  tame_trySlots fun _ => ⟨.declare name type k, rfl⟩
instance : Tame env (trySlots (·.reserved name type)) :=
  tame_trySlots fun _ => ⟨.reserved name type, rfl⟩
instance (k : MethodKind) : Tame env (tryProgram (·.addMethod name k)) :=
  tame_tryProgram fun _ _ => .addMethod
instance : Tame env (onProgram (·.emit m i)) := tame_onProgram fun _ => .emit i
instance : Tame env (onProgram (·.endLabel m)) := tame_onProgram fun _ => .endLabel
instance (e : Epilogue) : Tame env (onProgram fun p => ((), p.setEpilogue m e)) :=
  tame_onProgram fun _ => .modifyMethod fun _ => rfl
instance : Tame env (onProgram fun p => ((), p.setInstr l i)) :=
  tame_onProgram fun _ => .code rfl rfl
instance : Tame env (onProgram fun p => ((), p.place m l)) :=
  tame_onProgram fun _ => .modifyMethod fun _ => rfl
instance : Tame env (onProgram fun p => ((), p.modifyMethod m ({ · with serializes := true }))) :=
  tame_onProgram fun _ => .modifyMethod fun _ => rfl
instance (x : Option InstrId) : Tame env (tryProgram (·.insertBeforeLabel m x i)) :=
  tame_tryProgram fun _ _ => .insertBeforeLabel

/-! ## Instructions -/

instance : Tame env (emit i) := by unfold emit; infer_instance
instance : Tame env newLabel := tame_onProgram fun _ => .code rfl rfl
instance : Tame env (place l) := by unfold place; infer_instance
instance (x y : SlotId) : Tame env (copy x y) := by unfold copy; infer_instance
instance : Tame env (jumpIfFalse id l) := by unfold jumpIfFalse; infer_instance
instance (ids : List SlotId) : Tame env (callHost name ids) := by unfold callHost; infer_instance
instance : Tame env (callMethod name id) := by unfold callMethod; infer_instance
instance : Tame env (sendCustomEvent name) := by unfold sendCustomEvent; infer_instance
instance : Tame env (insertBeforeLabel l i) := by unfold insertBeforeLabel; infer_instance
instance : Tame env (afterWrite id) := by
  unfold afterWrite
  repeat' first | infer_instance | split | refine .bind inferInstance fun _ => ?_

/-! ## Blocks -/

instance (g : ScopeStack → ScopeStack) : Tame env (onScopes g) := by unfold onScopes; infer_instance
instance : Tame env (frameAt index) := .bind inferInstance fun _ => by split <;> infer_instance
instance : Tame env currentIndex := by unfold currentIndex; infer_instance
instance : Tame env parentIndex := .bind inferInstance fun _ => by split <;> infer_instance
instance (g : Frame → Frame) : Tame env (modifyCurrent g) := by unfold modifyCurrent; infer_instance
instance (g : Frame → Frame) : Tame env (modifyParent g) := by unfold modifyParent; infer_instance
instance : Tame env (frameEnd index) := .bind inferInstance fun _ => by split <;> infer_instance
instance : Tame env (frameStart index) := .bind inferInstance fun _ => by split <;> infer_instance
instance : Tame env (closedEnd f) := by unfold closedEnd; split <;> infer_instance
instance : Tame env (closedStart f) := by unfold closedStart; split <;> infer_instance
instance : Tame env popFrame := .bind inferInstance fun _ => by split <;> infer_instance
instance : Tame env (finishFrame f) := by unfold finishFrame; infer_instance
instance : Tame env (declareLocal name type) := .bind inferInstance fun _ => by
  dsimp only
  infer_instance
instance : Tame env (keepInScope id) := .bind inferInstance fun _ => by split <;> infer_instance
instance : Tame env releasePending := by unfold releasePending; infer_instance

/-! ## Bindings -/

instance (x : Option SlotId) : Tame env (found name x) := by unfold found; split <;> infer_instance
instance : Tame env conditionResult? := by unfold conditionResult?; infer_instance
instance (r : VariableRef) : Tame env (resolve r) := by
  unfold resolve
  repeat' first | infer_instance | split
instance : Tame env (placeholder p) := by unfold placeholder; split <;> infer_instance
instance (x y : ValueType) : Tame env (mismatch p x y : Lower α) := by
  unfold mismatch; infer_instance
instance (v : Value) : Tame env (bindConstant p type v) := by unfold bindConstant; infer_instance
instance : Tame env (bindRead b p) := by
  unfold bindRead
  repeat' first | infer_instance | split
instance (x : Option ValueType) : Tame env (bindWrite b p x) := by
  unfold bindWrite
  repeat' first | infer_instance | split
instance (l : List (Parameter × Binding)) (x : Option ValueType) : Tame env (bindInputs l x) := by
  induction l generalizing x with
  | nil => unfold bindInputs; infer_instance
  | cons e l ih => unfold bindInputs; infer_instance
instance (d : ActionDef) (a : Action) : Tame env (bindAction d a) := by
  unfold bindAction
  repeat' first | infer_instance | split
instance : Tame env (a.input index) := by unfold BoundAction.input; split <;> infer_instance

/-! ## Constructs -/

instance : Tame env (failAtFrame f kind : Lower α) := by unfold failAtFrame; infer_instance
instance : Tame env (placeEnd f) := by unfold placeEnd; infer_instance
instance : Tame env (requireConditionBody c f) := by unfold requireConditionBody; infer_instance
instance : Tame env (closeTestedBranch c f) := by unfold closeTestedBranch; infer_instance
instance : Tame env (closePlainBlock f) := by unfold closePlainBlock; infer_instance
instance : Tame env (previousBranch c) :=
  .bind inferInstance fun _ => .bind inferInstance fun _ => by split <;> infer_instance
instance : Tame env (continueChain c) := .bind inferInstance fun _ => by split <;> infer_instance
instance : Tame env openCondition := by
  unfold openCondition
  repeat' first | infer_instance | split | refine .bind inferInstance fun _ => ?_
instance : Tame env (closeCondition f) := .bind inferInstance fun _ => by
  split <;> infer_instance
instance : Tame env (enclosingCondition c) := .bind inferInstance fun _ => by split <;> infer_instance
instance : Tame env (failIfFalse a) := by unfold failIfFalse; infer_instance
instance : Tame env (passIfTrue a) := by unfold passIfTrue; infer_instance
instance : Tame env openConditionBody := by
  unfold openConditionBody
  repeat' first | infer_instance | split | refine .bind inferInstance fun _ => ?_
instance : Tame env openWhile := by unfold openWhile; infer_instance
instance : Tame env (closeWhile f) := by
  unfold closeWhile
  repeat' first | infer_instance | split | refine .bind inferInstance fun _ => ?_ | dsimp only
instance (d : ActionDef) (a : Action) : Tame env (checkStep d a) := by
  unfold checkStep
  repeat' first | infer_instance | split
instance : Tame env (openFor a) := by
  unfold openFor
  repeat' first | infer_instance | refine .bind inferInstance fun _ => ?_
instance : Tame env (closeFor f) := by unfold closeFor; infer_instance
instance : Tame env (enclosingLoop c) := .bind inferInstance fun _ => by split <;> infer_instance
instance : Tame env breakLoop := by unfold breakLoop; infer_instance
instance : Tame env continueLoop := by unfold continueLoop; infer_instance
instance : Tame env returnEvent := by unfold returnEvent; infer_instance
instance : Tame env (setVariable a) := by unfold setVariable; infer_instance
instance : Tame env (localVariable a) := by unfold localVariable; infer_instance

/-! ## Calls -/

instance (o : Option ValueType) : Tame env (hostTargets o a) := by
  unfold hostTargets
  split <;> infer_instance
instance (o : Option ValueType) : Tame env (hostCall name o a) := by unfold hostCall; infer_instance

/-- A group that was merged is known; one that was not is merged now, if there is one. -/
lemma mergedGroup_cases (env : Environment) (guid action : String) (s : LowerState) :
    (∃ table, s.merges.lookup guid = some table ∧ mergedGroup env guid action s = .ok table s) ∨
    (env.registry.group? guid = none ∧ mergedGroup env guid action s =
      .error ⟨.unknownAction action (some guid), some s.coordinate⟩ s) ∨
    ∃ group, s.merges.lookup guid = none ∧ env.registry.group? guid = some group ∧
      mergedGroup env guid action s =
        match (s.program.merge group (env.stem s.mergeCount)).1 with
        | .ok table => .ok table (s.afterMerge env guid group)
        | .error kind => .error ⟨kind, some s.coordinate⟩ (s.afterMerge env guid group) := by
  unfold mergedGroup LowerState.afterMerge Environment.stem
  rw [bind_of_ok (get_apply s)]
  cases hs : s.merges.lookup guid with
  | some table => exact .inl ⟨table, rfl, rfl⟩
  | none =>
    cases hgroup : env.registry.group? guid with
    | none => exact .inr (.inl ⟨rfl, rfl⟩)
    | some group =>
      refine .inr (.inr ⟨group, rfl, rfl, ?_⟩)
      dsimp only
      rw [bind_of_ok (modify_apply _ s)]
      unfold onProgram
      rw [bind_of_ok (modifyGet_apply _ _)]
      cases (s.program.merge group _).1 <;> rfl

instance (guid action : String) : Tame env (mergedGroup env guid action) where
  run s := by
    obtain ⟨table, -, h⟩ | ⟨-, h⟩ | ⟨group, hs, hgroup, h⟩ := mergedGroup_cases env guid action s
    · rw [h]
      exact .refl
    · rw [h]
      exact .refl
    · rw [h]
      have hedit : s.Edit env (s.afterMerge env guid group) := .merge hs hgroup
      cases (s.program.merge group _).1 <;> exact .single hedit

instance (guid action : String) : Tame env (mergedEntry env guid action) :=
  .bind inferInstance fun _ => by split <;> infer_instance
instance (guid action : String) : Tame env (groupCall env guid action a) := by
  unfold groupCall
  refine .bind inferInstance fun _ => .bind inferInstance fun _ => .bind ?_ fun _ => inferInstance
  exact .forM (fun _ => .bind inferInstance fun _ => by split <;> infer_instance) _

/-! ## Custom actions -/

instance {x : BenchM α} [hx : Bench.Tame x] : Tame env (onBench x) where
  run s := by
    have hrun := hx.run { program := s.program, registers := s.registers, current := some s.method }
    have hedits : ∀ {p q : Program}, Relation.ReflTransGen Program.Edit p q → ∀ s : LowerState,
        s.program = p → ∀ registers, s.Edits env { s with program := q, registers } := by
      intro p q h s hp registers
      induction h with
      | refl => exact .single (.rest hp.symm List.prefix_rfl rfl rfl)
      | tail _ hedit ih =>
        exact ih.tail (.program hedit)
    unfold onBench
    simp only [Bind.bind, EStateM.bind, get_apply]
    cases h : x { program := s.program, registers := s.registers, current := some s.method } with
    | ok a b =>
      rw [h] at hrun
      exact hedits hrun s rfl b.registers
    | error e b =>
      rw [h] at hrun
      cases e <;> exact hedits hrun s rfl b.registers

instance : Tame env (unusable name : Lower α) := by unfold unusable; infer_instance
instance : Tame env (slotIn name) := by unfold slotIn; infer_instance
instance : Tame env (instrIn name) := by unfold instrIn; infer_instance
instance : Tame env (keepSlot name id) := by unfold keepSlot; infer_instance
instance : Tame env (keepInstr name l) := by unfold keepInstr; infer_instance
instance (r : FrameRef) : Tame env (frameIndex r) := by cases r <;> (unfold frameIndex; infer_instance)
instance (e : Environment) (x : Scene) : Tame env (note e x name) := by unfold note; infer_instance
instance (x : Scene) (g : Frame → Lower (InstrId × Frame)) [∀ f, Tame env (g f)] :
    Tame env (onClosed x name g) := by
  unfold onClosed
  split <;> infer_instance

instance (x : Scene) (op : ScriptOp) : Tame env (scriptOp env x op) := by
  unfold scriptOp
  repeat' first | infer_instance | split | refine .bind ?_ fun _ => ?_

instance (ops : List ScriptOp) (x : Scene) : Tame env (script env ops x) := by
  unfold script; infer_instance

/-! ## Bodies -/

instance (e : CompileError) : Tame env (modify fun s => { s with errors := s.errors.push e }) :=
  ⟨fun s => .single (.rest rfl (by simp [modify_apply, finalState]) rfl rfl)⟩

instance {x : Lower α} [hx : Tame env x] : Tame env (attempt x) where
  run s := by
    have h := hx.run s
    unfold attempt
    split <;> rename_i heq <;> rw [heq] at h <;> exact h

instance : Tame env (lowerConstruct c a) := by cases c <;> (unfold lowerConstruct; infer_instance)
instance : Tame env (closeConstruct c f) := by cases c <;> (unfold closeConstruct; infer_instance)
instance : Tame env (closeOpener env f) := by unfold closeOpener; split <;> infer_instance
instance : Tame env (closeBlock env) := by
  unfold closeBlock
  repeat' first | infer_instance | split | refine .bind inferInstance fun _ => ?_
instance (o : Opener) (x : Bool) : Tame env (openBlock o x a) := by unfold openBlock; infer_instance
instance : Tame env (lowerBound env a) := by unfold lowerBound; split <;> infer_instance
instance (d : ActionDef) (a : Action) : Tame env (lowerDefinition env d a) := by
  unfold lowerDefinition
  repeat' first | infer_instance | split
instance (a : Action) : Tame env (lowerAction env index a) := by
  unfold lowerAction
  repeat' first | infer_instance | split | refine .bind inferInstance fun _ => ?_
instance (l : List Action) : Tame env (lowerActions env index l) := by
  induction l generalizing index with
  | nil => unfold lowerActions; infer_instance
  | cons a l ih => unfold lowerActions; infer_instance
instance (l : List Action) : Tame env (lowerBody env l) := by
  unfold lowerBody
  infer_instance

/-! ## Documents -/

instance (e : Event) : Tame env (watchedVariable e) := by
  unfold watchedVariable
  split <;> infer_instance
instance (e : Event) : Tame env (planEvent env index e) := by
  unfold planEvent
  repeat' first | infer_instance | split | refine .bind inferInstance fun _ => ?_
instance (l : List Event) : Tame env (planEvents env index l) := by
  induction l generalizing index with
  | nil => unfold planEvents; infer_instance
  | cons e l ih =>
    unfold planEvents
    exact .bind inferInstance fun _ => by split <;> infer_instance
instance : Tame env (leaveUnless m id) := by unfold leaveUnless; infer_instance
instance (g : Gate) : Tame env (checkGate g m) := by cases g <;> (unfold checkGate; infer_instance)
instance (k : MethodKind) : Tame env (addMethod name k) := by unfold addMethod; infer_instance
instance (e : PlannedEvent) (x : Broadcast) : Tame env (sendOverNetwork e x) := by
  unfold sendOverNetwork; infer_instance
instance (e : PlannedEvent) (x : Single) : Tame env (sendDelayed e x) := by
  unfold sendDelayed; infer_instance
instance (e : PlannedEvent) : Tame env (assembleEvent env e m) := by
  unfold assembleEvent
  repeat' first | infer_instance | split | refine .bind inferInstance fun _ => ?_ | dsimp only
instance (e : PlannedEvent) : Tame env (assembleShared env m e) := by
  unfold assembleShared
  repeat' first | infer_instance | refine .bind inferInstance fun _ => ?_
instance (l : List PlannedEvent) : Tame env (assembleName env name l) :=
  .bind inferInstance fun _ => by split <;> infer_instance
instance (l : List VariableDecl) : Tame env (addMissingHandlers l) := by
  unfold addMissingHandlers; infer_instance
instance (v : VariableDecl) : Tame env (declareUser v) := by unfold declareUser; infer_instance
instance (t : Trigger) : Tame env (assembleTrigger env t) := by
  unfold assembleTrigger; infer_instance
instance (v : VariableDecl) : Tame env (declareGroupVariable v) := by
  unfold declareGroupVariable; infer_instance
instance (q : Coordinate) : Tame env (declareParameter name q p) := by
  unfold declareParameter
  split <;> infer_instance
instance (q : Coordinate) (o : Option String) : Tame env (declareEventInputs env q o) := by
  unfold declareEventInputs
  split <;> infer_instance
instance (a : GroupAction) : Tame env (assembleGroupAction env index a) := by
  unfold assembleGroupAction
  repeat' first | infer_instance | refine .bind inferInstance fun _ => ?_
instance (l : List GroupAction) : Tame env (assembleGroupActions env index l) := by
  induction l generalizing index with
  | nil => unfold assembleGroupActions; infer_instance
  | cons a l ih => unfold assembleGroupActions; infer_instance
instance (g : ActionGroup) : Tame env (assembleGroup env g) := by
  unfold assembleGroup; infer_instance

end Lower

end TriggerCompiler
