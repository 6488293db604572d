import Mathlib
import TriggerCompiler.Proofs.Emission

/-!
# Open blocks

While a body is lowered the labels that wait for their place are the ends of open blocks, and the
temporaries in use are those that open blocks own and those that the current action has asked for. So
every state of a compile is a building site. A state is sound if its site is, and if what the open
blocks, the locals and the merged groups refer to is there.
-/

namespace TriggerCompiler

variable {f : Frame} {b : Site} {s : LowerState}

/-! ## The stack of blocks -/

namespace ScopeStack

lemma depth_append (l₁ : List Frame) (f : Frame) (l₂ : List Frame) :
    (⟨l₁ ++ f :: l₂⟩ : ScopeStack).depth = l₁.length + 1 + l₂.length := by
  simp only [depth, List.length_append, List.length_cons]
  omega

/-- A block is found by the number of blocks around it. -/
lemma frame?_append (l₁ : List Frame) (f : Frame) (l₂ : List Frame) :
    (⟨l₁ ++ f :: l₂⟩ : ScopeStack).frame? l₂.length = some f := by
  have hdepth := depth_append l₁ f l₂
  unfold frame?
  rw [if_pos (by omega), show (⟨l₁ ++ f :: l₂⟩ : ScopeStack).depth - 1 - l₂.length = l₁.length by
    omega]
  simp

lemma modify_append (l₁ : List Frame) (f : Frame) (l₂ : List Frame) (g : Frame → Frame) :
    (⟨l₁ ++ f :: l₂⟩ : ScopeStack).modify l₂.length g = ⟨l₁ ++ g f :: l₂⟩ := by
  have hdepth := depth_append l₁ f l₂
  unfold modify
  rw [if_pos (by omega), show (⟨l₁ ++ f :: l₂⟩ : ScopeStack).depth - 1 - l₂.length = l₁.length by
    omega]
  simp [List.modify_eq_take_cons_drop]

/-- The nearest block that passes a test splits the stack. -/
lemma nearest?_cases (s : ScopeStack) (test : Frame → Bool) :
    (s.nearest? test = none ∧ ∀ f ∈ s.frames, test f = false) ∨
    ∃ l₁ f l₂, s.frames = l₁ ++ f :: l₂ ∧ (∀ g ∈ l₁, test g = false) ∧ test f = true ∧
      s.nearest? test = some l₂.length := by
  unfold nearest?
  cases h : s.frames.findIdx? test with
  | none => exact .inl ⟨rfl, by simpa [List.findIdx?_eq_none_iff] using h⟩
  | some i =>
    obtain ⟨hi, htest, hbefore⟩ := List.findIdx?_eq_some_iff_getElem.mp h
    refine .inr ⟨s.frames.take i, s.frames[i], s.frames.drop (i + 1), ?_, ?_, htest, ?_⟩
    · rw [← List.drop_eq_getElem_cons hi, List.take_append_drop]
    · intro g hg
      obtain ⟨j, hj, rfl⟩ := List.mem_iff_getElem.mp hg
      rw [List.length_take] at hj
      rw [List.getElem_take]
      simpa using hbefore j (hj.trans_le (min_le_left _ _))
    · simp only [depth, Option.map_some, List.length_drop, Option.some.injEq]
      omega

/-- The labels of the ends of open blocks. -/
def endLabels (s : ScopeStack) : List InstrId := s.frames.filterMap (·.endLabel)

/-- The temporaries that open blocks own. -/
def owned (s : ScopeStack) : List SlotId := s.frames.flatMap (·.owned)

end ScopeStack

/-! ## Sound states -/

/-- An open block is that of the body or of a construct, and has the labels and slots that its
construct needs. -/
structure Frame.Sound (f : Frame) (p : Program) : Prop where
  opener : f.opener = none ∨ ∃ c : Construct, f.opener = some (.construct c) ∧ c.opensBlock = true
  isLoop : f.isLoop = (f.construct?.map Construct.isLoop).getD false
  condition : f.construct? = some .condition → f.endLabel.isSome = true
  root : f.construct? = none → f.endLabel = none
  isResult : f.conditionResult.isSome = true ↔ f.construct? = some .condition
  result : ∀ r, f.conditionResult = some r → r < p.slots.size
  result_owned : ∀ r, f.conditionResult = some r → r ∈ f.owned
  start : f.isLoop = true → f.startLabel.isSome = true
  start_placed : ∀ l, f.startLabel = some l → l ∈ p.placed
  chain : ∀ id ∈ f.chainJumps, p.IsJump id
  closed_chain : ∀ c, f.lastClosed = some c → ∀ id ∈ c.chainJumps, p.IsJump id

/-- A loop is a construct. -/
lemma Frame.Sound.construct_of_loop {p : Program} (h : f.Sound p) (hloop : f.isLoop = true) :
    f.construct?.isSome = true := by
  rw [h.isLoop] at hloop
  cases hc : f.construct? with
  | none =>
    rw [hc] at hloop
    cases hloop
  | some c => rfl

lemma Frame.Sound.works {a : Site} {m : MethodId} (h : f.Sound a.program) (hw : a.Works m b) :
    f.Sound b.program :=
  { h with
    result := fun r hr => (h.result r hr).trans_le hw.grows.slots.size_le
    start_placed := fun l hl => hw.placed l (h.start_placed l hl)
    chain := fun id hid => hw.jump id (h.chain id hid)
    closed_chain := fun c hc id hid => hw.jump id (h.closed_chain c hc id hid) }

/-- The names and slots of a merged entry are those of the program. -/
structure MergedEntry.Sound (e : MergedEntry) (p : Program) : Prop where
  method : e.method ∈ p.names
  parameters : ∀ x ∈ e.parameters, x.2 < p.slots.size
  returnSlot : e.returnSlot < p.slots.size
  eventSlots : ∀ x ∈ e.eventSlots, x.2 < p.slots.size

lemma MergedEntry.Sound.grows {e : MergedEntry} {a : Site} (h : e.Sound a.program) (hg : a.Grows b) :
    e.Sound b.program :=
  ⟨hg.names _ h.method, fun x hx => (h.parameters x hx).trans_le hg.slots.size_le,
    h.returnSlot.trans_le hg.slots.size_le,
    fun x hx => (h.eventSlots x hx).trans_le hg.slots.size_le⟩

namespace Frame

/-- The block with a label for its end. -/
def withEnd (f : Frame) (l : InstrId) : Frame := { f with endLabel := some l }

@[simp] lemma withEnd_endLabel (f : Frame) (l : InstrId) : (f.withEnd l).endLabel = some l := rfl

@[simp] lemma withEnd_owned (f : Frame) (l : InstrId) : (f.withEnd l).owned = f.owned := rfl

lemma withEnd_self {l : InstrId} (h : f.endLabel = some l) : f.withEnd l = f := by
  unfold withEnd
  rw [← h]

end Frame

namespace LowerState

/-- The state with another program and other open blocks. -/
def build (s : LowerState) (p : Program) (frames : List Frame) : LowerState :=
  { s with program := p, scopes := ⟨frames⟩ }

@[simp] lemma build_program (s : LowerState) (p : Program) (frames : List Frame) :
    (s.build p frames).program = p := rfl

@[simp] lemma build_frames (s : LowerState) (p : Program) (frames : List Frame) :
    (s.build p frames).scopes.frames = frames := rfl

@[simp] lemma build_method (s : LowerState) (p : Program) (frames : List Frame) :
    (s.build p frames).method = s.method := rfl

@[simp] lemma build_build (s : LowerState) (p q : Program) (frames frames' : List Frame) :
    (s.build p frames).build q frames' = s.build q frames' := rfl

/-- The building site of a state. -/
def site (s : LowerState) : Site :=
  ⟨s.program, s.scopes.endLabels, s.scopes.owned ++ s.pending.toList⟩

/-- A state whose site is sound and which refers to nothing that is not there. -/
structure Sound (s : LowerState) : Prop where
  site : s.site.Sound
  method_lt : s.method < s.program.methods.size
  frames : ∀ f ∈ s.scopes.frames, f.Sound s.program
  locals : ∀ e ∈ s.locals, s.program.slots.HasKind [.temporary, .user] e.2
  inputs : ∀ e ∈ s.eventInputs, s.program.slots.HasKind [.reserved] e.2
  merges : ∀ e ∈ s.merges, ∀ x ∈ e.2.entries, x.Sound s.program

lemma Sound.ready (h : s.Sound) : s.site.Ready s.method := ⟨h.site, h.method_lt⟩

/-- Work on the current body keeps the open blocks sound. -/
lemma Sound.frame_works {t : LowerState} (hs : s.Sound) (hw : s.site.Works s.method t.site)
    (hf : f ∈ s.scopes.frames) : f.Sound t.program :=
  (hs.frames f hf).works hw

/-- A state after work on the current body is sound if its open blocks and its locals are. -/
lemma Sound.of_works {t : LowerState} (hs : s.Sound) (hw : s.site.Works s.method t.site)
    (hmethod : t.method = s.method) (hframes : ∀ f ∈ t.scopes.frames, f.Sound t.program)
    (hlocals : ∀ e ∈ t.locals, e ∈ s.locals ∨ e.2 ∈ t.site.temps)
    (hinputs : t.eventInputs = s.eventInputs) (hmerges : t.merges = s.merges) : t.Sound := by
  refine ⟨hw.sound, ?_, hframes, fun e he => ?_, fun e he => ?_, fun e he x hx => ?_⟩
  · rw [hmethod]
    exact hw.methods ▸ hs.method_lt
  · rcases hlocals e he with he | he
    · exact (hs.locals e he).within hw.grows.slots
    · obtain ⟨hlt, hkind⟩ := hw.sound.pool.used e.2 he
      exact ⟨hlt, hkind ▸ List.mem_cons_self⟩
  · rw [hinputs] at he
    exact (hs.inputs e he).within hw.grows.slots
  · rw [hmerges] at he
    exact (hs.merges e he x hx).grows hw.grows

end LowerState

namespace Lower

variable {α : Type} {g : Frame} {l₁ l₂ rest : List Frame} {x : Lower α}

/-- A computation that yields code and keeps labels and temporaries leaves the site it yields. -/
lemma site_on (h : s.site.Keeps b) : (s.on b).site = b := by
  unfold LowerState.site LowerState.on
  dsimp only
  rw [show s.scopes.endLabels = b.labels from h.labels.symm,
    show s.scopes.owned ++ s.pending.toList = b.temps from h.temps.symm]

/-! ## Looking at blocks -/

lemma currentIndex_apply (hf : s.scopes.frames = f :: rest) :
    currentIndex s = .ok rest.length s := by
  have hdepth : s.scopes.depth = rest.length + 1 := by simp [ScopeStack.depth, hf]
  unfold currentIndex
  rw [bind_of_ok (get_apply s), hdepth]
  rfl

lemma parentIndex_apply (hf : s.scopes.frames = f :: g :: rest) :
    parentIndex s = .ok rest.length s := by
  have hdepth : s.scopes.depth = rest.length + 2 := by simp [ScopeStack.depth, hf]
  have hparent : s.scopes.parentIndex? = some rest.length := by
    simp [ScopeStack.parentIndex?, hdepth]
  unfold parentIndex
  rw [bind_of_ok (get_apply s), hparent]
  rfl

lemma frameAt_apply (l₁ : List Frame) (hf : s.scopes.frames = l₁ ++ f :: l₂) :
    frameAt l₂.length s = .ok f s := by
  have hframe : s.scopes.frame? l₂.length = some f := by
    rw [show s.scopes = ⟨l₁ ++ f :: l₂⟩ from congrArg ScopeStack.mk hf]
    exact ScopeStack.frame?_append l₁ f l₂
  unfold frameAt
  rw [bind_of_ok (get_apply s), hframe]
  rfl

lemma onScopes_modify_apply (l₁ : List Frame) (hf : s.scopes.frames = l₁ ++ f :: l₂)
    (g : Frame → Frame) :
    onScopes (·.modify l₂.length g) s = .ok ⟨⟩ (s.build s.program (l₁ ++ g f :: l₂)) := by
  have hmodify : s.scopes.modify l₂.length g = ⟨l₁ ++ g f :: l₂⟩ := by
    rw [show s.scopes = ⟨l₁ ++ f :: l₂⟩ from congrArg ScopeStack.mk hf]
    exact ScopeStack.modify_append l₁ f l₂ g
  unfold onScopes LowerState.build
  rw [modify_apply, ← hmodify]

lemma modifyCurrent_apply (hf : s.scopes.frames = f :: rest) (g : Frame → Frame) :
    modifyCurrent g s = .ok ⟨⟩ (s.build s.program (g f :: rest)) := by
  unfold modifyCurrent
  rw [bind_of_ok (currentIndex_apply hf)]
  exact onScopes_modify_apply [] hf g

lemma modifyParent_apply (hf : s.scopes.frames = f :: g :: rest) (k : Frame → Frame) :
    modifyParent k s = .ok ⟨⟩ (s.build s.program (f :: k g :: rest)) := by
  unfold modifyParent
  rw [bind_of_ok (parentIndex_apply hf)]
  exact onScopes_modify_apply [f] hf k

lemma popFrame_apply (hf : s.scopes.frames = f :: rest) :
    popFrame s = .ok f (s.build s.program rest) := by
  have hpop : s.scopes.pop? = some (f, ⟨rest⟩) := by simp [ScopeStack.pop?, hf]
  unfold popFrame
  rw [bind_of_ok (get_apply s), hpop]
  rfl

/-! ## Labels of blocks -/

/-- The label of the end of an open block is the one it has, or a new one. -/
lemma frameEnd_apply (hs : s.site.Sound) (hf : s.scopes.frames = l₁ ++ f :: l₂) :
    ∃ l p, frameEnd l₂.length s = .ok l (s.build p (l₁ ++ f.withEnd l :: l₂)) ∧
      s.site.Adds s.method [] (s.build p (l₁ ++ f.withEnd l :: l₂)).site ∧
      ∀ l', f.endLabel = some l' → l' = l := by
  unfold frameEnd
  rw [bind_of_ok (frameAt_apply _ hf)]
  cases hl : f.endLabel with
  | some l =>
    refine ⟨l, s.program, ?_, ?_, fun l' hl' => (Option.some.inj hl').symm⟩
    · rw [Frame.withEnd_self hl, ← hf]
      rfl
    · rw [Frame.withEnd_self hl, ← hf]
      exact Site.Adds.refl hs
  | none =>
    refine ⟨s.program.instrs.size, s.program.newLabel.2, ?_, ?_, by simp⟩
    · have hnew : newLabel s = .ok s.program.instrs.size
          (s.build s.program.newLabel.2 s.scopes.frames) := rfl
      refine (bind_of_ok hnew _).trans ?_
      exact bind_of_ok (onScopes_modify_apply _
        (s := s.build s.program.newLabel.2 s.scopes.frames) hf _) _
    · refine hs.adds_newLabel.of_perm (b := s.site.newLabel) ?_ ?_
      · simp only [ScopeStack.endLabels, Site.newLabel, LowerState.site, LowerState.build_frames,
          hf, List.filterMap_append, List.filterMap_cons, hl, Frame.withEnd_endLabel]
        exact List.perm_middle
      · simp [ScopeStack.owned, Site.newLabel, LowerState.site, hf, LowerState.build]

end Lower

end TriggerCompiler
