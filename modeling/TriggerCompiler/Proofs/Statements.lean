import Mathlib
import TriggerCompiler.Proofs.Binding

/-!
# Actions that neither open nor close a block

Such an action adds lines to the body, and all it does to the open blocks is to ask for the label of
an end. For each of them it is said which lines it adds, and when it fails.
-/

namespace TriggerCompiler

variable {l₂ : List Frame} {r : BoundAction}

/-- The block is the same, but may have got a label for its end. -/
structure Frame.Fills (f g : Frame) : Prop where
  same : g = { f with endLabel := g.endLabel }
  ending : ∀ l, f.endLabel = some l → g.endLabel = some l
  root : f.construct? = none → g.endLabel = f.endLabel

namespace Frame.Fills

variable {f g k : Frame}

lemma refl (f : Frame) : f.Fills f := ⟨rfl, fun _ hl => hl, fun _ => rfl⟩

lemma construct? (h : f.Fills g) : g.construct? = f.construct? := by
  rw [h.same]
  rfl

lemma trans (h : f.Fills g) (h' : g.Fills k) : f.Fills k := by
  refine ⟨?_, fun l hl => h'.ending l (h.ending l hl), fun hf => ?_⟩
  · rw [h'.same, h.same]
  · rw [h'.root (h.construct?.trans hf), h.root hf]

lemma withEnd {l : InstrId} (hf : f.construct?.isSome = true)
    (h : ∀ l', f.endLabel = some l' → l' = l) : f.Fills (f.withEnd l) := by
  refine ⟨rfl, fun l' hl => by rw [h l' hl, withEnd_endLabel], fun hnone => ?_⟩
  rw [hnone] at hf
  cases hf

lemma sound (h : f.Fills g) {p : Program} (hf : f.Sound p) : g.Sound p := by
  have hcond : g.construct? = some .condition → g.endLabel.isSome = true := by
    intro hg
    rw [h.construct?] at hg
    obtain ⟨l, hl⟩ := Option.isSome_iff_exists.mp (hf.condition hg)
    rw [h.ending l hl]
    rfl
  have hroot : g.construct? = none → g.endLabel = none := by
    intro hg
    rw [h.construct?] at hg
    rw [h.root hg, hf.root hg]
  rw [h.same] at hcond hroot ⊢
  exact { hf with condition := hcond, root := hroot }

/-- Whole stacks of blocks that may have got labels for their ends. -/
lemma stack_trans {l₁ l₃ : List Frame} (h : List.Forall₂ Fills l₁ l₂)
    (h' : List.Forall₂ Fills l₂ l₃) : List.Forall₂ Fills l₁ l₃ := by
  induction h generalizing l₃ with
  | nil => exact h'
  | cons hfg _ ih =>
    obtain ⟨k, l, hgk, hl, rfl⟩ := List.forall₂_cons_left_iff.mp h'
    exact .cons (hfg.trans hgk) (ih hl)

lemma stack_refl (l : List Frame) : List.Forall₂ Fills l l :=
  List.forall₂_same.mpr fun f _ => refl f

/-- One block of a stack has got a label for its end. -/
lemma stack_withEnd {l₁ : List Frame} {l : InstrId} (hf : f.construct?.isSome = true)
    (h : ∀ l', f.endLabel = some l' → l' = l) :
    List.Forall₂ Fills (l₁ ++ f :: l₂) (l₁ ++ f.withEnd l :: l₂) :=
  List.rel_append (stack_refl l₁) (.cons (withEnd hf h) (stack_refl l₂))

end Frame.Fills

namespace Lower

variable {α : Type} {s s' s'' : LowerState} {code code' : List Line} {x : Lower α}

/-- From one state to the other lines were added, and no block was opened or closed. -/
structure Emits (s : LowerState) (code : List Line) (s' : LowerState) : Prop where
  state : s' = s.build s'.program s'.scopes.frames
  adds : s.site.Adds s.method code s'.site
  frames : List.Forall₂ Frame.Fills s.scopes.frames s'.scopes.frames

namespace Emits

lemma method (h : Emits s code s') : s'.method = s.method := by
  rw [h.state]
  rfl

lemma trans (h : Emits s code s') (h' : Emits s' code' s'') (hs : s.Sound) :
    Emits s (code ++ code') s'' := by
  refine ⟨?_, ?_, ?_⟩
  · rw [h'.state, h.state]
    rfl
  · have hadds := h'.adds
    rw [h.method] at hadds
    exact h.adds.trans hadds hs.method_lt
  · exact Frame.Fills.stack_trans h.frames h'.frames

lemma sound (h : Emits s code s') (hs : s.Sound) : s'.Sound := by
  have hstate := h.state
  refine hs.of_works h.adds.toWorks h.method (fun g hg => ?_) (fun e he => .inl ?_) ?_ ?_
  · obtain ⟨i, hi, rfl⟩ := List.mem_iff_getElem.mp hg
    have hi' : i < s.scopes.frames.length := h.frames.length_eq ▸ hi
    exact (h.frames.get hi' hi).sound (hs.frame_works h.adds.toWorks (List.getElem_mem hi'))
  · rw [hstate] at he
    exact he
  · rw [hstate]
    rfl
  · rw [hstate]
    rfl

end Emits

/-- A computation that yields lines and keeps labels and temporaries emits these lines. -/
lemma Yields.emits {P : α → List Line → Site → Prop} (h : Yields s s.site x P)
    (hP : ∀ r code b, P r code b → s.site.Keeps b) :
    ∃ r code b, x s = .ok r (s.on b) ∧ Emits s code (s.on b) ∧ (s.on b).site = b ∧ P r code b := by
  obtain ⟨r, code, b, hx, hadds, hpost⟩ := h
  have hsite := site_on (hP r code b hpost)
  refine ⟨r, code, b, hx, ⟨rfl, ?_, ?_⟩, hsite, hpost⟩
  · rw [hsite]
    exact hadds
  · exact Frame.Fills.stack_refl _

/-- Asking for the label of the end of an open block. -/
lemma frameEnd_emits (l₁ : List Frame) {f : Frame} (hs : s.Sound)
    (hf : s.scopes.frames = l₁ ++ f :: l₂) (hc : f.construct?.isSome = true) :
    ∃ l s', frameEnd l₂.length s = .ok l s' ∧ Emits s [] s' ∧
      s'.scopes.frames = l₁ ++ f.withEnd l :: l₂ ∧ s'.pending = s.pending ∧
      s'.site.temps = s.site.temps ∧ s'.site.Target l := by
  obtain ⟨l, p, hrun, hadds, hl⟩ := frameEnd_apply hs.site hf
  refine ⟨l, _, hrun, ⟨rfl, hadds, ?_⟩, rfl, rfl, ?_, .inr (List.mem_append_right _ ?_)⟩
  · rw [hf]
    exact Frame.Fills.stack_withEnd hc hl
  · simp [LowerState.site, ScopeStack.owned, hf, LowerState.build]
  · simp [LowerState.site, ScopeStack.endLabels]

/-! ## Jumps -/

lemma enclosingLoop_ensures (s : LowerState) (c : Construct) :
    Ensures s (enclosingLoop c)
      (fun index s' => s' = s ∧ ∃ l₁ f l₂, s.scopes.frames = l₁ ++ f :: l₂ ∧
        (∀ g ∈ l₁, g.isLoop = false) ∧ f.isLoop = true ∧ index = l₂.length)
      fun e s' => s' = s ∧ e.kind = .notInLoop c ∧ ∀ f ∈ s.scopes.frames, f.isLoop = false := by
  obtain ⟨hnone, hall⟩ | ⟨l₁, f, l₂, hsplit, hbefore, hloop, hnear⟩ :=
    s.scopes.nearest?_cases (·.isLoop)
  · have hrun : enclosingLoop c s = .error ⟨.notInLoop c, some s.coordinate⟩ s := by
      unfold enclosingLoop
      rw [bind_of_ok (get_apply s), ScopeStack.nearestLoop?, hnone]
      rfl
    exact Ensures.of_error hrun ⟨rfl, rfl, hall⟩
  · have hrun : enclosingLoop c s = .ok l₂.length s := by
      unfold enclosingLoop
      rw [bind_of_ok (get_apply s), ScopeStack.nearestLoop?, hnear]
      rfl
    exact Ensures.of_ok hrun ⟨rfl, l₁, f, l₂, hsplit, hbefore, hloop, rfl⟩

/-- A break jumps to the end of the innermost loop. -/
lemma breakLoop_ensures (hs : s.Sound) :
    Ensures s breakLoop
      (fun _ s' => ∃ l₁ f l₂ l, s.scopes.frames = l₁ ++ f :: l₂ ∧ (∀ g ∈ l₁, g.isLoop = false) ∧
        f.isLoop = true ∧ s'.scopes.frames = l₁ ++ f.withEnd l :: l₂ ∧
        Emits s [.code (.jump l)] s')
      fun e t => t.errors = s.errors ∧ e.kind = .notInLoop .breakLoop ∧
        ∀ f ∈ s.scopes.frames, f.isLoop = false := by
  refine Ensures.bind (E := fun e t => t.errors = s.errors ∧ e.kind = .notInLoop .breakLoop ∧
    ∀ f ∈ s.scopes.frames, f.isLoop = false)
    ((enclosingLoop_ensures s _).mono (fun _ _ h => h) fun _ _ h => ⟨h.1 ▸ rfl, h.2⟩) ?_
  rintro _ s - ⟨rfl, l₁, f, l₂, hsplit, hbefore, hloop, rfl⟩
  have hconstruct := (hs.frames f (by simp [hsplit])).construct_of_loop hloop
  obtain ⟨l, s₁, hrun, hemits, hframes, -, -, htarget⟩ := frameEnd_emits _ hs hsplit hconstruct
  have hs₁ := hemits.sound hs
  obtain ⟨_, _, b, hrun', hemits', -, rfl, -⟩ :=
    (jump_yields hs₁.ready htarget).emits fun _ _ _ h => h.2
  refine Ensures.of_ok ((bind_of_ok hrun _).trans hrun')
    ⟨l₁, f, l₂, l, hsplit, hbefore, hloop, hframes, ?_⟩
  exact hemits.trans hemits' hs

/-- A continue jumps to the start of the innermost loop. -/
lemma continueLoop_ensures (hs : s.Sound) :
    Ensures s continueLoop
      (fun _ s' => ∃ l₁ f l₂ l, s.scopes.frames = l₁ ++ f :: l₂ ∧ (∀ g ∈ l₁, g.isLoop = false) ∧
        f.isLoop = true ∧ f.startLabel = some l ∧ s'.scopes.frames = s.scopes.frames ∧
        Emits s [.code (.jump l)] s')
      fun e t => t.errors = s.errors ∧ e.kind = .notInLoop .continueLoop ∧
        ∀ f ∈ s.scopes.frames, f.isLoop = false := by
  refine Ensures.bind (E := fun e t => t.errors = s.errors ∧ e.kind = .notInLoop .continueLoop ∧
    ∀ f ∈ s.scopes.frames, f.isLoop = false)
    ((enclosingLoop_ensures s _).mono (fun _ _ h => h) fun _ _ h => ⟨h.1 ▸ rfl, h.2⟩) ?_
  rintro _ s - ⟨rfl, l₁, f, l₂, hsplit, hbefore, hloop, rfl⟩
  have hf := hs.frames f (by simp [hsplit])
  obtain ⟨l, hl⟩ := Option.isSome_iff_exists.mp (hf.start hloop)
  have hrun : frameStart l₂.length s = .ok l s := by
    unfold frameStart
    rw [bind_of_ok (frameAt_apply _ hsplit), hl]
    rfl
  obtain ⟨_, _, b, hrun', hemits', -, rfl, -⟩ :=
    (jump_yields hs.ready (.inl (hf.start_placed l hl))).emits fun _ _ _ h => h.2
  exact Ensures.of_ok ((bind_of_ok hrun _).trans hrun')
    ⟨l₁, f, l₂, l, hsplit, hbefore, hloop, hl, rfl, hemits'⟩

/-- A return jumps to the end of the method. -/
lemma returnEvent_emits (hs : s.Sound) :
    ∃ l s', returnEvent s = .ok ⟨⟩ s' ∧ Emits s [.code (.jump l)] s' ∧
      s'.scopes.frames = s.scopes.frames ∧
      (s'.program.method s'.method).endLabel = some l := by
  have hyields : Yields s s.site returnEvent fun _ code b =>
      ∃ l, code = [.code (.jump l)] ∧ s.site.Keeps b ∧
        (b.program.method s.method).endLabel = some l := by
    refine get_yields (Yields.bind hs.ready (endLabel_yields hs.ready) ?_)
    rintro l _ b hadds hb ⟨rfl, hkeep, hl⟩
    have htarget : b.Target l := .inr (List.mem_append_left _ (List.mem_filterMap.mpr
      ⟨_, Program.method_mem hb.method_lt, hl⟩))
    refine (jump_yields hb htarget).mono ?_
    rintro ⟨⟩ _ c hadds' ⟨rfl, hkeep'⟩
    exact ⟨l, rfl, hkeep.trans hkeep', hadds'.ending l hl⟩
  obtain ⟨_, _, b, hrun, hemits, -, l, rfl, -, hl⟩ := hyields.emits fun _ _ _ ⟨_, _, h, _⟩ => h
  exact ⟨l, _, hrun, hemits, rfl, hl⟩

/-! ## Checks of a condition -/

lemma enclosingCondition_ensures (hs : s.Sound) (c : Construct) :
    Ensures s (enclosingCondition c)
      (fun r s' => s' = s ∧ ∃ l₁ f l₂, s.scopes.frames = l₁ ++ f :: l₂ ∧
        (∀ g ∈ l₁, g.construct? ≠ some .condition) ∧ f.construct? = some .condition ∧
        f.conditionResult = some r.2 ∧ r.1 = l₂.length)
      fun e t => t.errors = s.errors ∧ e.kind = .misplaced (.outsideCondition c) ∧
        ∀ f ∈ s.scopes.frames, f.construct? ≠ some .condition := by
  obtain ⟨hnone, hall⟩ | ⟨l₁, f, l₂, r, hsplit, hbefore, hf, hr, hfound⟩ :=
    conditionResult?_apply hs
  · have hrun : enclosingCondition c s =
        .error ⟨.misplaced (.outsideCondition c), some s.coordinate⟩ s :=
      bind_of_ok hnone _
    exact Ensures.of_error hrun ⟨rfl, rfl, hall⟩
  · have hrun : enclosingCondition c s = .ok (l₂.length, r) s := bind_of_ok hfound _
    exact Ensures.of_ok hrun ⟨rfl, l₁, f, l₂, hsplit, hbefore, hf, hr, rfl⟩

lemma input_apply {i : Nat} {id : SlotId} (h : r.inputs[i]? = some id) :
    r.input i s = .ok id s := by
  unfold BoundAction.input
  rw [h]
  rfl

section

variable (hs : s.Sound) (value : SlotId) (hr : r.inputs[0]? = some value)
  (hv : value < s.program.slots.size)
include hs value hr hv

/-- A check that ends the nearest condition if the value is false. -/
lemma failIfFalse_ensures :
    Ensures s (failIfFalse r)
      (fun _ s' => ∃ l₁ f l₂ result l, s.scopes.frames = l₁ ++ f :: l₂ ∧
        (∀ g ∈ l₁, g.construct? ≠ some .condition) ∧ f.construct? = some .condition ∧
        f.conditionResult = some result ∧ s'.scopes.frames = l₁ ++ f.withEnd l :: l₂ ∧
        Emits s (copyLines value result ++ branchLines value l) s')
      fun e t => t.errors = s.errors ∧ e.kind = .misplaced (.outsideCondition .failIfFalse) ∧
        ∀ f ∈ s.scopes.frames, f.construct? ≠ some .condition := by
  refine Ensures.step (input_apply hr) ?_
  refine Ensures.bind (enclosingCondition_ensures hs _) ?_
  rintro ⟨_, result⟩ s - ⟨rfl, l₁, f, l₂, hsplit, hbefore, hf, hresult, rfl⟩
  obtain ⟨l, s₁, hrun, hemits, hframes, -, -, htarget⟩ :=
    frameEnd_emits _ hs hsplit (by simp [hf])
  have hs₁ := hemits.sound hs
  have hsize := hemits.adds.grows.slots.size_le
  have hresult' := (hs.frames f (by simp [hsplit])).result result hresult
  have hyields : Yields s₁ s₁.site (copy value result >>= fun _ => jumpIfFalse value l)
      fun _ code b => code = copyLines value result ++ branchLines value l ∧ s₁.site.Keeps b := by
    refine Yields.bind hs₁.ready (copy_yields hs₁.ready (hv.trans_le hsize)
      (hresult'.trans_le hsize)) ?_
    rintro ⟨⟩ _ b hadds hb ⟨rfl, hkeep⟩
    refine (jumpIfFalse_yields hb (hv.trans_le (hsize.trans hadds.grows.slots.size_le))
      (hadds.grows.target l htarget)).mono ?_
    rintro ⟨⟩ _ c - ⟨rfl, hkeep'⟩
    exact ⟨rfl, hkeep.trans hkeep'⟩
  obtain ⟨_, _, b, hrun', hemits', -, rfl, -⟩ := hyields.emits fun _ _ _ h => h.2
  refine Ensures.of_ok ((bind_of_ok hrun _).trans hrun')
    ⟨l₁, f, l₂, result, l, hsplit, hbefore, hf, hresult, hframes, ?_⟩
  exact hemits.trans hemits' hs

/-- A check that ends the nearest condition if the value is true. -/
lemma passIfTrue_ensures :
    Ensures s (passIfTrue r)
      (fun _ s' => ∃ l₁ f l₂ result l negated, s.scopes.frames = l₁ ++ f :: l₂ ∧
        (∀ g ∈ l₁, g.construct? ≠ some .condition) ∧ f.construct? = some .condition ∧
        f.conditionResult = some result ∧ s'.scopes.frames = l₁ ++ f.withEnd l :: l₂ ∧
        s'.program.slots.Spare s.site.temps negated ∧
        Emits s (copyLines value result ++ callLines HostCall.booleanNegation [value, negated] ++
          branchLines negated l) s')
      fun e t => t.errors = s.errors ∧ e.kind = .misplaced (.outsideCondition .passIfTrue) ∧
        ∀ f ∈ s.scopes.frames, f.construct? ≠ some .condition := by
  refine Ensures.step (input_apply hr) ?_
  refine Ensures.bind (enclosingCondition_ensures hs _) ?_
  rintro ⟨_, result⟩ s - ⟨rfl, l₁, f, l₂, hsplit, hbefore, hf, hresult, rfl⟩
  obtain ⟨l, s₁, hrun, hemits, hframes, -, htemps, htarget⟩ :=
    frameEnd_emits _ hs hsplit (by simp [hf])
  have hs₁ := hemits.sound hs
  have hsize := hemits.adds.grows.slots.size_le
  have hresult' := (hs.frames f (by simp [hsplit])).result result hresult
  have hyields : Yields s₁ s₁.site (do
        copy value result
        let negated ← temporary .boolean
        callHost HostCall.booleanNegation [value, negated]
        jumpIfFalse negated l
        release negated) fun _ code b => (∃ negated, b.program.slots.Spare s₁.site.temps negated ∧
          code = copyLines value result ++ callLines HostCall.booleanNegation [value, negated] ++
            branchLines negated l) ∧ s₁.site.Keeps b := by
    refine Yields.bind hs₁.ready (copy_yields hs₁.ready (hv.trans_le hsize)
      (hresult'.trans_le hsize)) ?_
    rintro ⟨⟩ _ b hb hb' ⟨rfl, hkeep⟩
    refine Yields.bind hb' (temporary_yields hb' .boolean) ?_
    rintro negated _ c hc hc' ⟨rfl, hlabels, htemps', -, hspare⟩
    rw [hkeep.temps] at hspare
    have hvc : value < c.program.slots.size :=
      hv.trans_le ((hsize.trans hb.grows.slots.size_le).trans hc.grows.slots.size_le)
    refine Yields.bind hc' (callHost_yields hc' _ [value, negated] (by simp [hvc, hspare.lt])) ?_
    rintro ⟨⟩ _ d hd hd' ⟨rfl, hkeep₁⟩
    refine Yields.bind hd' (jumpIfFalse_yields hd' (hspare.lt.trans_le hd.grows.slots.size_le)
      (hd.grows.target l (hc.grows.target l (hb.grows.target l htarget)))) ?_
    rintro ⟨⟩ _ e he he' ⟨rfl, hkeep₂⟩
    have hkeep₃ := hkeep₁.trans hkeep₂
    have hheld : negated ∈ e.temps := by simp [hkeep₃.temps, htemps']
    refine (release_yields he' hheld).mono ?_
    rintro ⟨⟩ _ g hg ⟨rfl, hlabels', htemps''⟩
    have hgrow := (hd.grows.slots.trans he.grows.slots).trans hg.grows.slots
    refine ⟨⟨negated, hspare.within hgrow, by simp⟩, ?_, ?_⟩
    · rw [hlabels', hkeep₃.labels, hlabels, hkeep.labels]
    · rw [htemps'', hkeep₃.temps, htemps', List.erase_cons_head, hkeep.temps]
  obtain ⟨_, _, b, hrun', hemits', -, ⟨negated, hspare, rfl⟩, -⟩ :=
    hyields.emits fun _ _ _ h => h.2
  refine Ensures.of_ok ((bind_of_ok hrun _).trans hrun')
    ⟨l₁, f, l₂, result, l, negated, hsplit, hbefore, hf, hresult, hframes, htemps ▸ hspare, ?_⟩
  exact hemits.trans hemits' hs

end

/-! ## Assignments and host calls -/

/-- The lines of an assignment. -/
def AssignLines (e : Setting) (temps : List SlotId) (value target : SlotId)
    (code : List Line) : Prop :=
  ∃ write, WriteLines e temps target write ∧ code = copyLines value target ++ write

lemma assign_emits (hs : s.Sound) {value target : SlotId} (hv : value < s.program.slots.size)
    (ht : target < s.program.slots.size) :
    ∃ code s', (copy value target >>= fun _ => afterWrite target) s = .ok ⟨⟩ s' ∧
      Emits s code s' ∧ s'.scopes.frames = s.scopes.frames ∧
      AssignLines s'.setting s.site.temps value target code := by
  have hyields : Yields s s.site (copy value target >>= fun _ => afterWrite target)
      fun _ code b => AssignLines (b.program.setting s.method) s.site.temps value target code ∧
        s.site.Keeps b := by
    refine Yields.bind hs.ready (copy_yields hs.ready hv ht) ?_
    rintro ⟨⟩ _ b hadds hb ⟨rfl, hkeep⟩
    refine (afterWrite_yields hb (ht.trans_le hadds.grows.slots.size_le)).mono ?_
    rintro ⟨⟩ write c - ⟨hwrite, hkeep'⟩
    rw [hkeep.temps] at hwrite
    exact ⟨⟨write, hwrite, rfl⟩, hkeep.trans hkeep'⟩
  obtain ⟨_, code, b, hrun, hemits, -, hcode, -⟩ := hyields.emits fun _ _ _ h => h.2
  exact ⟨code, _, hrun, hemits, rfl, hcode⟩

/-- The lines after a call, for one of its arguments. -/
def OutputLines (temps : List SlotId) (e : Setting) (x : Parameter × SlotId)
    (code : List Line) : Prop :=
  if x.1.direction.writes then x.2 < e.slots.size ∧ WriteLines e temps x.2 code else code = []

lemma OutputLines.within {temps : List SlotId} {e e' : Setting} {x : Parameter × SlotId}
    (hw : e.Within e') (h : OutputLines temps e x code) : OutputLines temps e' x code := by
  unfold OutputLines at h ⊢
  split_ifs at h ⊢
  · exact ⟨h.1.trans_le hw.slots.size_le, h.2.within hw h.1⟩
  · exact h

/-- The lines that make a call, once or once for each target. -/
def callsLines (signature : String) (targets inputs : List SlotId) : List Line :=
  if targets.isEmpty then callLines signature inputs
  else targets.flatMap fun target => callLines signature (target :: inputs)

/-- The lines of an action that is a host call. -/
def HostLines (e : Setting) (temps : List SlotId) (signature : String)
    (targets : List SlotId) (r : BoundAction) (code : List Line) : Prop :=
  ∃ writes, List.Forall₂ (OutputLines temps e) r.arguments writes ∧
    code = callsLines signature targets r.inputs ++ writes.flatten

/-- The targets of a host call. -/
def CallTargets (t : SlotTable) (onType : Option ValueType) (r : BoundAction)
    (targets : List SlotId) : Prop :=
  match onType with
  | none => targets = []
  | some type =>
    if r.definition.manyTargets = true then
      if (r.targets.isEmpty && !type.isValueType) = true then ∃ self, t.IsThis self ∧ targets = [self]
      else targets = r.targets
    else targets = []

lemma CallTargets.within {t u : SlotTable} {onType : Option ValueType} {targets : List SlotId}
    (h : CallTargets t onType r targets) (hw : t.Within u) :
    CallTargets u onType r targets := by
  unfold CallTargets at h ⊢
  cases onType with
  | none => exact h
  | some type =>
    dsimp only at h ⊢
    split_ifs at h ⊢
    · obtain ⟨self, hself, rfl⟩ := h
      exact ⟨self, hself.within hw, rfl⟩
    · exact h
    · exact h

lemma hostTargets_yields {a : Site} (ha : a.Ready s.method) (onType : Option ValueType)
    (ht : ∀ t ∈ r.targets, t < a.program.slots.size) :
    Yields s a (hostTargets onType r) fun targets code b => code = [] ∧ a.Keeps b ∧
      (∀ t ∈ targets, t < b.program.slots.size) ∧
        CallTargets b.program.slots onType r targets := by
  unfold hostTargets CallTargets
  cases onType with
  | none => exact Yields.pure ha ⟨rfl, Site.Keeps.refl a, by simp, rfl⟩
  | some type =>
    dsimp only
    cases r.definition.manyTargets with
    | false => exact Yields.pure ha ⟨rfl, Site.Keeps.refl a, by simp, rfl⟩
    | true =>
      cases (r.targets.isEmpty && !type.isValueType) with
      | false => exact Yields.pure ha ⟨rfl, Site.Keeps.refl a, ht, rfl⟩
      | true =>
        refine Yields.bind ha (this_yields ha) ?_
        rintro id _ b - hb ⟨rfl, hkeep, hid⟩
        exact Yields.pure hb ⟨rfl, hkeep, by simpa using hid.lt, id, hid, rfl⟩

lemma calls_yields {a : Site} (ha : a.Ready s.method) (signature : String)
    {targets inputs : List SlotId} (ht : ∀ t ∈ targets, t < a.program.slots.size)
    (hi : ∀ id ∈ inputs, id < a.program.slots.size) :
    Yields s a (if targets.isEmpty then callHost signature inputs
      else targets.forM fun target => callHost signature (target :: inputs)) fun _ code b =>
        code = callsLines signature targets inputs ∧ a.Keeps b := by
  unfold callsLines
  split_ifs
  · exact callHost_yields ha signature inputs hi
  · refine (Yields.forM (R := fun _ target code => code = callLines signature (target :: inputs))
      (fun _ _ _ _ _ h => h) ha fun target htarget b hb hg _ =>
        callHost_yields hb signature (target :: inputs) ?_).mono ?_
    · rintro id (_ | ⟨_, hid⟩)
      · exact (ht target htarget).trans_le hg.slots.size_le
      · exact (hi id hid).trans_le hg.slots.size_le
    · rintro ⟨⟩ _ b - ⟨⟨codes, hcodes, rfl⟩, hkeep⟩
      refine ⟨?_, hkeep⟩
      rw [List.flatMap_def]
      congr 1
      exact (List.forall₂_eq_eq_eq ▸ (List.forall₂_map_left_iff.mpr
        (hcodes.imp fun _ _ h => h.symm)) : _ = codes).symm

lemma hostCall_emits (hs : s.Sound) (signature : String) (onType : Option ValueType)
    (hi : ∀ id ∈ r.inputs, id < s.program.slots.size)
    (ht : ∀ t ∈ r.targets, t < s.program.slots.size) :
    ∃ code targets s', hostCall signature onType r s = .ok ⟨⟩ s' ∧ Emits s code s' ∧
      s'.scopes.frames = s.scopes.frames ∧ CallTargets s'.program.slots onType r targets ∧
      HostLines s'.setting s.site.temps signature targets r code := by
  have hyields : Yields s s.site (hostCall signature onType r) fun _ code b =>
      (∃ targets, CallTargets b.program.slots onType r targets ∧
        HostLines (b.program.setting s.method) s.site.temps signature targets r code) ∧ s.site.Keeps b := by
    refine Yields.bind hs.ready (hostTargets_yields hs.ready onType ht) ?_
    rintro targets _ b hb hb' ⟨rfl, hkeep, htargets, hnone⟩
    have hib : ∀ id ∈ r.inputs, id < b.program.slots.size :=
      fun id hid => (hi id hid).trans_le hb.grows.slots.size_le
    have hcalls := calls_yields hb' signature htargets hib
    extract_lets tail
    have htail : ∀ (c : Site) (calls : List Line), c.Ready s.method → b.Grows c → b.Keeps c →
        calls = callsLines signature targets r.inputs →
        Yields s c (tail ()) fun _ code d => (∃ targets, CallTargets d.program.slots onType r targets ∧
          HostLines (d.program.setting s.method) s.site.temps signature targets r (calls ++ code)) ∧
          s.site.Keeps d := by
      intro c calls hc hg hkc hcalls
      refine (Yields.forM (R := OutputLines s.site.temps) (fun _ _ _ _ hw h => h.within hw) hc
        fun x hx d hd hgd hkd => ?_).mono ?_
      · obtain ⟨p, slot⟩ := x
        have hlt : slot < d.program.slots.size :=
          (hib slot (List.of_mem_zip hx).2).trans_le (hg.slots.size_le.trans hgd.slots.size_le)
        unfold OutputLines
        dsimp only
        split_ifs
        · refine (afterWrite_yields hd hlt).mono ?_
          rintro ⟨⟩ write e hadds ⟨hwrite, hke⟩
          rw [hkd.temps, hkc.temps, hkeep.temps] at hwrite
          exact ⟨⟨hlt.trans_le hadds.grows.slots.size_le, hwrite⟩, hke⟩
        · exact Yields.pure hd ⟨rfl, Site.Keeps.refl d⟩
      · rintro ⟨⟩ _ d hd ⟨⟨writes, hwrites, rfl⟩, hkd⟩
        exact ⟨⟨targets, hnone.within (hg.slots.trans hd.grows.slots), writes, hwrites,
          by rw [hcalls]⟩, (hkeep.trans hkc).trans hkd⟩
    split_ifs at hcalls ⊢
    all_goals
      refine Yields.bind hb' hcalls ?_
      rintro ⟨⟩ _ c hc hc' ⟨rfl, hkc⟩
      exact htail c _ hc' hc.grows hkc rfl
  obtain ⟨_, code, b, hrun, hemits, -, ⟨targets, hnone, hcode⟩, -⟩ :=
    hyields.emits fun _ _ _ h => h.2
  exact ⟨code, targets, _, hrun, hemits, rfl, hnone, hcode⟩

end Lower

end TriggerCompiler
