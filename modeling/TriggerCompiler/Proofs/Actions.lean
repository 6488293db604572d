import Mathlib
import TriggerCompiler.Proofs.Closing
import TriggerCompiler.Registry.Builtin

/-!
# One action

Whether an action may stand where it stands depends only on the shapes of the open blocks: their
constructs, what came last in each of them, and whether a condition and its body were seen. An action
that stands where it may adds the lines that belong to it; any other fails, and the error says that a
construct is out of place.
-/

namespace TriggerCompiler

variable {c : Construct}

/-! ## Shapes -/

/-- What decides which actions a block takes. -/
structure Shape where
  construct : Option Construct := none
  previous : Option Construct := none
  sawCondition : Bool := false
  sawConditionBody : Bool := false
  deriving DecidableEq

namespace Shape

/-- Whether a condition can steer the block. -/
def takesCondition (x : Shape) : Bool := (x.construct.map Construct.takesCondition).getD false

/-- Whether the block is a loop. -/
def isLoop (x : Shape) : Bool := (x.construct.map Construct.isLoop).getD false

/-- Whether the block may be closed: one that a condition steers has a condition body, which comes
last if it is a loop. -/
def isComplete (x : Shape) : Bool :=
  (!x.takesCondition || x.sawConditionBody) &&
    (x.construct ≠ some .whileLoop || x.previous = some .conditionBody)

/-- Whether a construct may stand where these blocks are open, the innermost first. -/
def admits : Construct → List Shape → Bool
  | .elseIf, x :: _ | .elseBranch, x :: _ =>
    x.previous = some .ifBranch || x.previous = some .elseIf
  | .condition, x :: _ => x.takesCondition && !x.sawCondition
  | .conditionBody, x :: _ => x.previous = some .condition && x.takesCondition
  | .passIfTrue, stack | .failIfFalse, stack => stack.any (·.construct = some .condition)
  | .breakLoop, stack | .continueLoop, stack => stack.any isLoop
  | .blockEnd, x :: _ :: _ => x.isComplete
  | .blockEnd, _ => false
  | _, _ => true

lemma admits_chain (hc : c = .elseIf ∨ c = .elseBranch) (x : Shape) (rest : List Shape) :
    admits c (x :: rest) = true ↔ x.previous = some .ifBranch ∨ x.previous = some .elseIf := by
  rcases hc with rfl | rfl
  all_goals
    unfold admits
    rw [Bool.or_eq_true, decide_eq_true_iff, decide_eq_true_iff]

lemma admits_condition (x : Shape) (rest : List Shape) :
    admits .condition (x :: rest) = true ↔ x.takesCondition = true ∧ x.sawCondition = false := by
  unfold admits
  rw [Bool.and_eq_true, Bool.not_eq_true']

lemma admits_conditionBody (x : Shape) (rest : List Shape) :
    admits .conditionBody (x :: rest) = true ↔
      x.previous = some .condition ∧ x.takesCondition = true := by
  unfold admits
  rw [Bool.and_eq_true, decide_eq_true_iff]

/-- The block around one that opens. -/
def around : Construct → Shape → Shape
  | .condition, x => { x with sawCondition := true }
  | .conditionBody, x => { x with sawConditionBody := true }
  | _, x => x

/-- The shapes after an action that was admitted; none stands for an action that is no construct. -/
def follow : Option Construct → List Shape → List Shape
  | some .blockEnd, g :: f :: rest => { f with previous := g.construct } :: rest
  | some c, f :: rest =>
    if c.opensBlock then { construct := some c } :: around c f :: rest
    else { f with previous := some c } :: rest
  | none, f :: rest => { f with previous := none } :: rest
  | _, [] => []

end Shape

/-- The shape of an open block. -/
def Frame.shape (f : Frame) : Shape where
  construct := f.construct?
  previous := f.previous
  sawCondition := f.sawCondition
  sawConditionBody := f.sawConditionBody

/-- The shapes of the open blocks. -/
def ScopeStack.shapes (s : ScopeStack) : List Shape := s.frames.map Frame.shape

namespace Frame

lemma takesCondition_shape (f : Frame) : f.shape.takesCondition = f.takesCondition := rfl

lemma isLoop_shape {f : Frame} {p : Program} (h : f.Sound p) : f.shape.isLoop = f.isLoop :=
  h.isLoop.symm

lemma isComplete_shape (f : Frame) : f.shape.isComplete = true ↔ f.Complete := by
  unfold Shape.isComplete Complete
  rw [takesCondition_shape, Bool.and_eq_true, Bool.or_eq_true, Bool.or_eq_true, Bool.not_eq_true',
    decide_eq_true_iff, decide_eq_true_iff, ← Bool.not_eq_true, ← imp_iff_not_or,
    ← imp_iff_not_or]
  rfl

lemma Fills.shape {f g : Frame} (h : f.Fills g) : g.shape = f.shape := by
  rw [h.same]
  rfl

end Frame

/-! ## The lines of statements -/

/-- The labels outside of the code of some items that it jumps to: the end and the start of the
innermost loop, the end of the nearest condition, the end of the innermost block, and the end of the
method. -/
structure Exits where
  leave : InstrId
  again : InstrId
  decided : InstrId
  miss : InstrId
  ending : InstrId

/-- The labels are those that the open blocks and the method have, as far as they have them. -/
structure Exits.Agrees (x : Exits) (s : LowerState) : Prop where
  leave : ∀ f l, s.scopes.frames.find? (·.isLoop) = some f → f.endLabel = some l → x.leave = l
  again : ∀ f l, s.scopes.frames.find? (·.isLoop) = some f → f.startLabel = some l → x.again = l
  decided : ∀ f l, s.scopes.frames.find? (·.construct? = some .condition) = some f →
    f.endLabel = some l → x.decided = l
  miss : ∀ f l, s.scopes.frames.head? = some f → f.endLabel = some l → x.miss = l
  ending : ∀ l, (s.program.method s.method).endLabel = some l → x.ending = l

namespace Lower

variable {s t : LowerState} {f g : Frame} {rest : List Frame} {r : BoundAction}

/-- The lines of a construct that neither opens nor closes a block. -/
def StatementLines (e : Setting) (temps : List SlotId) (x : Exits) (result : Option SlotId)
    (c : Construct) (inputs : List SlotId) (code : List Line) : Prop :=
  match c, inputs with
  | .passIfTrue, [value] => ∃ r negated, result = some r ∧ e.slots.Spare temps negated ∧
      code = copyLines value r ++ callLines HostCall.booleanNegation [value, negated] ++
        branchLines negated x.decided
  | .failIfFalse, [value] => ∃ r, result = some r ∧
      code = copyLines value r ++ branchLines value x.decided
  | .breakLoop, [] => code = [.code (.jump x.leave)]
  | .continueLoop, [] => code = [.code (.jump x.again)]
  | .returnEvent, [] => code = [.code (.jump x.ending)]
  | .setVariable, [value, target] | .localVariable, [value, target] =>
    AssignLines e temps value target code
  | _, _ => False

/-- The error is that a construct is out of place. -/
def IsStructural (e : CompileError) : Prop :=
  (∃ reason, e.kind = .misplaced reason) ∨ ∃ c, e.kind = .notInLoop c

lemma IsMisplaced.isStructural {e : CompileError} (h : IsMisplaced e) : IsStructural e := .inl h

/-- A construct is refused because of where it stands, and nothing else is reported. -/
structure Refused (s : LowerState) (c : Construct) (e : CompileError) (t : LowerState) : Prop where
  error : IsStructural e
  errors : t.errors = s.errors
  shapes : Shape.admits c s.scopes.shapes = false

lemma find?_of_split {l₁ l₂ : List Frame} {p : Frame → Bool}
    (hbefore : ∀ g ∈ l₁, p g = false) (hg : p g = true) : (l₁ ++ g :: l₂).find? p = some g := by
  rw [List.find?_append, List.find?_eq_none.mpr fun x hx => by simp [hbefore x hx]]
  simp [hg]

/-- The end of the nearest condition. -/
lemma agrees_decided {x : Exits} {l₁ l₂ : List Frame} {l : InstrId}
    (h : x.Agrees t) (hframes : t.scopes.frames = l₁ ++ g :: l₂)
    (hbefore : ∀ k ∈ l₁, k.construct? ≠ some .condition) (hg : g.construct? = some .condition)
    (hl : g.endLabel = some l) : x.decided = l := by
  refine h.decided g l ?_ hl
  rw [hframes]
  exact find?_of_split (by simpa using hbefore) (by simpa using hg)

lemma any_loop_shapes (hs : s.Sound) :
    s.scopes.shapes.any Shape.isLoop = s.scopes.frames.any (·.isLoop) := by
  unfold ScopeStack.shapes
  rw [List.any_map, Bool.eq_iff_iff, List.any_eq_true, List.any_eq_true]
  refine exists_congr fun f => and_congr_right fun hf => ?_
  rw [← Frame.isLoop_shape (hs.frames f hf)]
  rfl

lemma any_condition_shapes (s : LowerState) :
    s.scopes.shapes.any (·.construct = some .condition) =
      s.scopes.frames.any (·.construct? = some .condition) := by
  unfold ScopeStack.shapes
  rw [List.any_map]
  rfl

/-- An assignment adds its lines. -/
lemma assign_ensures (hs : s.Sound) {value target : SlotId} (hv : value < s.program.slots.size)
    (ht : target < s.program.slots.size) {E : CompileError → LowerState → Prop} :
    Ensures s (copy value target >>= fun _ => afterWrite target)
      (fun _ t => ∃ code, Emits s code t ∧
        AssignLines t.setting s.site.temps value target code) E := by
  obtain ⟨code, t, hrun, hemits, -, hlines⟩ := assign_emits hs hv ht
  exact Ensures.of_ok hrun ⟨code, hemits, hlines⟩

lemma setVariable_ensures (hs : s.Sound) {value target : SlotId} (hr : r.inputs = [value, target])
    (hv : value < s.program.slots.size) (ht : target < s.program.slots.size) :
    Ensures s (setVariable r)
      (fun _ t => ∃ code, Emits s code t ∧
        AssignLines t.setting s.site.temps value target code)
      fun e t => t = s ∧ e.kind.isFatal = false ∧
        (s.program.slots.get target).type.accepts (s.program.slots.get value).type = false := by
  unfold setVariable
  refine Ensures.step (a := value) (input_apply (by simp [hr])) ?_
  refine Ensures.step (a := target) (input_apply (by simp [hr])) ?_
  refine Ensures.step rfl (Ensures.step rfl ?_)
  exact Ensures.check (fun h => ⟨rfl, rfl, by simpa using h⟩) fun _ => assign_ensures hs hv ht

/-- A statement construct stands where it may, or it fails; an assignment can also fail because of a
type. -/
lemma lowerStatement_ensures (hs : s.Sound) (hopens : c.opensBlock = false) (hend : c ≠ .blockEnd)
    (hlength : r.inputs.length = c.parameters.length)
    (hin : ∀ id ∈ r.inputs, id < s.program.slots.size) :
    Ensures s (lowerConstruct c r)
      (fun _ t => Shape.admits c s.scopes.shapes = true ∧ ∃ code, Emits s code t ∧
        ∀ x : Exits, x.Agrees t →
          StatementLines t.setting s.site.temps x s.scopes.result? c r.inputs code)
      fun e t => Refused s c e t ∨ (t = s ∧ c = .setVariable ∧ e.kind.isFatal = false) := by
  cases c with
  | passIfTrue =>
    obtain ⟨value, hr⟩ := List.length_eq_one_iff.mp hlength
    refine (passIfTrue_ensures hs value (by simp [hr])
      (hin value (by simp [hr]))).mono ?_ ?_
    · rintro ⟨⟩ t ⟨l₁, f, l₂, result, l, negated, hsplit, hbefore, hf, hresult, hframes, hspare,
        hemits⟩
      refine ⟨?_, _, hemits, fun x hx => ?_⟩
      · show s.scopes.shapes.any _ = true
        rw [any_condition_shapes, hsplit]
        simp [hf]
      · obtain rfl := agrees_decided (g := f.withEnd l) hx hframes hbefore hf rfl
        rw [hr, result?_of_split hsplit hbefore hf, hresult]
        exact ⟨result, negated, rfl, hspare, rfl⟩
    · rintro e t ⟨herrors, hkind, hall⟩
      refine .inl ⟨.inl ⟨_, hkind⟩, herrors, ?_⟩
      show s.scopes.shapes.any _ = false
      rw [any_condition_shapes]
      simpa using hall
  | failIfFalse =>
    obtain ⟨value, hr⟩ := List.length_eq_one_iff.mp hlength
    refine (failIfFalse_ensures hs value (by simp [hr])
      (hin value (by simp [hr]))).mono ?_ ?_
    · rintro ⟨⟩ t ⟨l₁, f, l₂, result, l, hsplit, hbefore, hf, hresult, hframes, hemits⟩
      refine ⟨?_, _, hemits, fun x hx => ?_⟩
      · show s.scopes.shapes.any _ = true
        rw [any_condition_shapes, hsplit]
        simp [hf]
      · obtain rfl := agrees_decided (g := f.withEnd l) hx hframes hbefore hf rfl
        rw [hr, result?_of_split hsplit hbefore hf, hresult]
        exact ⟨result, rfl, rfl⟩
    · rintro e t ⟨herrors, hkind, hall⟩
      refine .inl ⟨.inl ⟨_, hkind⟩, herrors, ?_⟩
      show s.scopes.shapes.any _ = false
      rw [any_condition_shapes]
      simpa using hall
  | breakLoop =>
    have hr : r.inputs = [] := List.length_eq_zero_iff.mp hlength
    refine (breakLoop_ensures hs).mono ?_ ?_
    · rintro ⟨⟩ t ⟨l₁, f, l₂, l, hsplit, hbefore, hf, hframes, hemits⟩
      refine ⟨?_, _, hemits, fun x hx => ?_⟩
      · show s.scopes.shapes.any _ = true
        rw [any_loop_shapes hs, hsplit]
        simp [hf]
      · have hnear : t.scopes.frames.find? (·.isLoop) = some (f.withEnd l) := by
          rw [hframes]
          exact find?_of_split hbefore hf
        obtain rfl := hx.leave _ _ hnear rfl
        rw [hr]
        rfl
    · rintro e t ⟨herrors, hkind, hall⟩
      refine .inl ⟨.inr ⟨_, hkind⟩, herrors, ?_⟩
      show s.scopes.shapes.any _ = false
      rw [any_loop_shapes hs]
      simpa using hall
  | continueLoop =>
    have hr : r.inputs = [] := List.length_eq_zero_iff.mp hlength
    refine (continueLoop_ensures hs).mono ?_ ?_
    · rintro ⟨⟩ t ⟨l₁, f, l₂, l, hsplit, hbefore, hf, hl, hframes, hemits⟩
      refine ⟨?_, _, hemits, fun x hx => ?_⟩
      · show s.scopes.shapes.any _ = true
        rw [any_loop_shapes hs, hsplit]
        simp [hf]
      · have hnear : t.scopes.frames.find? (·.isLoop) = some f := by
          rw [hframes, hsplit]
          exact find?_of_split hbefore hf
        obtain rfl := hx.again _ _ hnear hl
        rw [hr]
        rfl
    · rintro e t ⟨herrors, hkind, hall⟩
      refine .inl ⟨.inr ⟨_, hkind⟩, herrors, ?_⟩
      show s.scopes.shapes.any _ = false
      rw [any_loop_shapes hs]
      simpa using hall
  | returnEvent =>
    have hr : r.inputs = [] := List.length_eq_zero_iff.mp hlength
    obtain ⟨l, t, hrun, hemits, -, hl⟩ := returnEvent_emits hs
    refine Ensures.of_ok hrun ⟨rfl, _, hemits, fun x hx => ?_⟩
    obtain rfl := hx.ending l hl
    rw [hr]
    rfl
  | setVariable =>
    obtain ⟨value, target, hr⟩ := List.length_eq_two.mp hlength
    refine (setVariable_ensures hs hr (hin value (by simp [hr]))
      (hin target (by simp [hr]))).mono ?_ ?_
    · rintro ⟨⟩ t ⟨code, hemits, hlines⟩
      refine ⟨rfl, code, hemits, fun x _ => ?_⟩
      rw [hr]
      exact hlines
    · exact fun e t h => .inr ⟨h.1, rfl, h.2.1⟩
  | localVariable =>
    obtain ⟨value, target, hr⟩ := List.length_eq_two.mp hlength
    obtain ⟨code, t, hrun, hemits, -, hlines⟩ := assign_emits hs (hin value (by simp [hr]))
      (hin target (by simp [hr]))
    have hvalue : r.inputs[0]? = some value := by simp [hr]
    have htarget : r.inputs[1]? = some target := by simp [hr]
    have hall : localVariable r s = .ok ⟨⟩ t := by
      unfold localVariable
      refine (bind_of_ok (input_apply hvalue) _).trans ?_
      exact (bind_of_ok (input_apply htarget) _).trans hrun
    refine Ensures.of_ok hall ⟨rfl, code, hemits, fun x _ => ?_⟩
    rw [hr]
    exact hlines
  | blockEnd => exact absurd rfl hend
  | _ => cases hopens

/-! ## Openers -/

/-- What opening the block of a construct inside a given block does. -/
def OpensBlock (s : LowerState) (f : Frame) (c : Construct) (r : BoundAction) (t : LowerState) :
    Prop :=
  let g := Frame.fresh c r.coordinate
  match c, r.inputs with
  | .ifBranch, _ | .block, _ => Opens s [] g f t
  | .elseIf, _ | .elseBranch, _ =>
    ∃ closed l skip, f.lastClosed = some closed ∧ Chains s closed g l skip t
  | .condition, _ => ∃ result l no, t.program.slots.IsConstant .boolean (.boolean false) no ∧
      Opens s (copyLines no result) (conditionFrame r.coordinate result l) f.seeCondition t
  | .conditionBody, _ => ∃ l, (∀ l', f.endLabel = some l' → l' = l) ∧
      Opens s [.code (.jumpIfFalse l)] g (f.withEnd l).seeConditionBody t
  | .whileLoop, _ => ∃ l, Opens s [.label l] (g.withStart l) f t
  | .forLoop, [start, bound, step, index] => ∃ code x again leave kept,
      LoopLines t.setting (x.upwards :: x.bound :: x.step :: s.site.temps) start bound step
        index x again leave code ∧
      (kept ++ t.pending.toList).Perm s.pending.toList ∧
      (kept = if index ∈ s.pending then [index] else []) ∧
      Opens s code (loopFrame r.coordinate (kept ++ x.toList) again leave) f t
  | _, _ => False

/-- An opener stands where it may, or it fails. -/
lemma lowerOpener_ensures (hs : s.Sound) (hf : s.scopes.frames = f :: rest)
    (hfollows : f.Follows s.program s.method) (hopens : c.opensBlock = true)
    (hlength : r.inputs.length = c.parameters.length)
    (hin : ∀ id ∈ r.inputs, id < s.program.slots.size) :
    Ensures (opened s c r.coordinate) (lowerConstruct c r)
      (fun _ t => Shape.admits c s.scopes.shapes = true ∧ t.Sound ∧ OpensBlock s f c r t)
      (Refused s c) := by
  have hshapes : s.scopes.shapes = f.shape :: rest.map Frame.shape := by
    simp [ScopeStack.shapes, hf]
  have hplain : ∀ c : Construct, c.opensBlock = true → c.isLoop = false → c ≠ .condition →
      (opened s c r.coordinate).Sound := fun c hopens hloop hcond =>
    (opens_plain hs hf c r.coordinate).sound hs (Frame.sound_fresh hopens hloop hcond _ _)
      (hs.frames f (by simp [hf]))
  have hchain : ∀ c : Construct, c = .elseIf ∨ c = .elseBranch →
      Ensures (opened s c r.coordinate) (continueChain c)
        (fun _ t => Shape.admits c s.scopes.shapes = true ∧ t.Sound ∧ OpensBlock s f c r t)
        (Refused s c) := by
    intro c hc
    have hadmits := Shape.admits_chain hc f.shape (rest.map Frame.shape)
    rw [← hshapes] at hadmits
    obtain ⟨hopens, hloop, hcond⟩ : c.opensBlock = true ∧ c.isLoop = false ∧ c ≠ .condition := by
      rcases hc with rfl | rfl <;> decide
    refine (continueChain_ensures hs hf hfollows hopens hloop hcond r.coordinate).mono ?_ ?_
    · rintro ⟨⟩ t ⟨hprev, hsound, hchains⟩
      refine ⟨hadmits.mpr hprev, hsound, ?_⟩
      rcases hc with rfl | rfl
      all_goals exact hchains
    · rintro e t ⟨herrors, he, hprev⟩
      exact ⟨he.isStructural, herrors, Bool.eq_false_iff.mpr fun h => hprev (hadmits.mp h)⟩
  cases c with
  | ifBranch | block =>
    exact Ensures.of_ok rfl ⟨rfl, hplain _ rfl rfl (by decide), opens_plain hs hf _ r.coordinate⟩
  | elseIf => exact hchain _ (.inl rfl)
  | elseBranch => exact hchain _ (.inr rfl)
  | condition =>
    have hadmits := Shape.admits_condition f.shape (rest.map Frame.shape)
    rw [← hshapes] at hadmits
    refine (openCondition_ensures hs hf r.coordinate).mono ?_ ?_
    · rintro ⟨⟩ t ⟨hcond, hsound, hopened⟩
      exact ⟨hadmits.mpr hcond, hsound, hopened⟩
    · rintro e t ⟨herrors, he, hcond⟩
      exact ⟨he.isStructural, herrors, Bool.eq_false_iff.mpr fun h => hcond (hadmits.mp h)⟩
  | conditionBody =>
    have hadmits := Shape.admits_conditionBody f.shape (rest.map Frame.shape)
    rw [← hshapes] at hadmits
    refine (openConditionBody_ensures hs hf hfollows r.coordinate).mono ?_ ?_
    · rintro ⟨⟩ t ⟨hcond, hsound, hopened⟩
      exact ⟨hadmits.mpr hcond, hsound, hopened⟩
    · rintro e t ⟨herrors, he, hcond⟩
      exact ⟨he.isStructural, herrors, Bool.eq_false_iff.mpr fun h => hcond (hadmits.mp h)⟩
  | whileLoop =>
    obtain ⟨l, t, hrun, hsound, hopened⟩ := openWhile_opens hs hf r.coordinate
    exact Ensures.of_ok hrun ⟨rfl, hsound, l, hopened⟩
  | forLoop =>
    obtain ⟨start, bound, step, index, hr⟩ : ∃ start bound step index,
        r.inputs = [start, bound, step, index] := by
      match h : r.inputs, hlength with
      | [start, bound, step, index], _ => exact ⟨start, bound, step, index, rfl⟩
    obtain ⟨code, x, again, leave, kept, t, hrun, hsound, hlines, hperm, hkept, hopened⟩ :=
      openFor_opens hs hf hr hin r.coordinate
    refine Ensures.of_ok hrun ⟨rfl, hsound, ?_⟩
    unfold OpensBlock
    rw [hr]
    exact ⟨code, x, again, leave, kept, hlines, hperm, hkept, hopened⟩
  | _ => cases hopens

lemma OpensBlock.works (h : OpensBlock s f c r t) : s.site.Works s.method t.site := by
  unfold OpensBlock at h
  dsimp only at h
  split at h
  · exact h.adds.toWorks
  · exact h.adds.toWorks
  · obtain ⟨closed, l, skip, -, h⟩ := h
    exact h.works
  · obtain ⟨closed, l, skip, -, h⟩ := h
    exact h.works
  · obtain ⟨result, l, no, -, h⟩ := h
    exact h.adds.toWorks
  · obtain ⟨l, -, h⟩ := h
    exact h.adds.toWorks
  · obtain ⟨l, h⟩ := h
    exact h.adds.toWorks
  · obtain ⟨code, x, again, leave, kept, -, -, -, h⟩ := h
    exact h.adds.toWorks
  · exact h.elim

/-- What is common to all blocks that open. -/
lemma OpensBlock.frames (h : OpensBlock s f c r t) (hf : s.scopes.frames = f :: rest) :
    ∃ g f', t.scopes.frames = g :: f' :: rest ∧ g.opener = some (.construct c) ∧
      g.shape = { construct := some c } ∧ f'.shape = Shape.around c f.shape ∧
      f'.opener = f.opener ∧
      t = { s.build t.program t.scopes.frames with pending := t.pending } := by
  have hopens : ∀ (code : List Line) (g f' : Frame), Opens s code g f' t →
      t.scopes.frames = g :: f' :: rest := by
    intro code g f' h
    obtain ⟨_, _, hf', hframes⟩ := h.frames
    rw [hf] at hf'
    obtain ⟨rfl, rfl⟩ := List.cons.inj hf'
    exact hframes
  have hchains : ∀ (closed : ClosedBlock) (g : Frame) (l skip : InstrId),
      Chains s closed g l skip t →
      t = { s.build t.program t.scopes.frames with pending := t.pending } := by
    intro closed g l skip h
    have hpending : t.pending = s.pending := by
      rw [h.state]
      rfl
    rw [hpending]
    exact h.state
  unfold OpensBlock at h
  dsimp only at h
  split at h
  · exact ⟨_, _, hopens _ _ _ h, rfl, rfl, rfl, rfl, h.state⟩
  · exact ⟨_, _, hopens _ _ _ h, rfl, rfl, rfl, rfl, h.state⟩
  · obtain ⟨closed, l, skip, -, h⟩ := h
    exact ⟨_, _, h.frames.trans (congrArg (List.cons _) hf), rfl, rfl, rfl, rfl,
      hchains _ _ _ _ h⟩
  · obtain ⟨closed, l, skip, -, h⟩ := h
    exact ⟨_, _, h.frames.trans (congrArg (List.cons _) hf), rfl, rfl, rfl, rfl,
      hchains _ _ _ _ h⟩
  · obtain ⟨result, l, no, -, h⟩ := h
    exact ⟨_, _, hopens _ _ _ h, rfl, rfl, rfl, rfl, h.state⟩
  · obtain ⟨l, -, h⟩ := h
    exact ⟨_, _, hopens _ _ _ h, rfl, rfl, rfl, rfl, h.state⟩
  · obtain ⟨l, h⟩ := h
    exact ⟨_, _, hopens _ _ _ h, rfl, rfl, rfl, rfl, h.state⟩
  · obtain ⟨code, x, again, leave, kept, -, -, -, h⟩ := h
    exact ⟨_, _, hopens _ _ _ h, rfl, rfl, rfl, rfl, h.state⟩
  · exact h.elim

end Lower

end TriggerCompiler
