import Mathlib
import TriggerCompiler.Proofs.Opening

/-!
# Counting loops

A counting loop keeps its step and its bound in temporaries, and whether it counts upwards. Between
two passes the step is added to the index; before each pass the index is tested against the bound,
one way or the other.
-/

namespace TriggerCompiler.Lower

variable {s : LowerState} {a : Site} {f g : Frame} {rest : List Frame} {coordinate : Coordinate}
  {index bound step : SlotId}

/-! ## The index -/

/-- An element that makes room for the last one, with all that is left then. -/
lemma modify_dropLast_perm {α : Type} (ys : List α) (last v : α) (i : Nat)
    (hv : (ys ++ [last])[i]? = some v) :
    (v :: ((ys ++ [last]).modify i fun _ => last).dropLast).Perm (ys ++ [last]) := by
  induction ys generalizing i with
  | nil =>
    cases i with
    | zero => simpa using hv.symm
    | succ i => simp at hv
  | cons y ys ih =>
    cases i with
    | zero =>
      obtain rfl : y = v := by simpa using hv
      rw [List.cons_append, List.modify_zero_cons, ← List.cons_append, List.dropLast_concat]
      exact (List.perm_append_singleton last ys).symm.cons y
    | succ i =>
      have hv' : (ys ++ [last])[i]? = some v := by simpa using hv
      have hne : ((ys ++ [last]).modify i fun _ => last) ≠ [] := by simp
      rw [List.cons_append, List.modify_succ_cons, List.dropLast_cons_of_ne_nil hne]
      exact (List.Perm.swap _ _ _).trans ((ih i hv').cons y)

lemma swapRemove_perm {α : Type} {xs : Array α} {i : Nat} {v : α} (hv : xs[i]? = some v) :
    (v :: (swapRemove xs i).toList).Perm xs.toList := by
  unfold swapRemove
  cases hlast : xs.back? with
  | none =>
    rw [Array.back?_eq_none_iff] at hlast
    simp [hlast] at hv
  | some last =>
    have hxs : xs.toList.dropLast ++ [last] = xs.toList :=
      List.dropLast_append_getLast? last (by rw [Array.getLast?_toList]; exact hlast)
    have hperm := modify_dropLast_perm xs.toList.dropLast last v i
      (by rw [hxs, Array.getElem?_toList]; exact hv)
    rw [hxs] at hperm
    simpa using hperm

/-- A placeholder for the index stays until the loop is closed; any other index is not kept. -/
lemma keepInScope_apply (hf : s.scopes.frames = g :: rest) (index : SlotId) :
    ∃ kept pending, keepInScope index s = .ok ⟨⟩
        { s.build s.program ({ g with owned := g.owned ++ kept } :: rest) with pending } ∧
      (kept ++ pending.toList).Perm s.pending.toList ∧
      kept = if index ∈ s.pending then [index] else [] := by
  unfold keepInScope
  rw [bind_of_ok (get_apply s)]
  cases h : s.pending.findIdx? (· = index) with
  | none =>
    have hmem : index ∉ s.pending := by
      intro hmem
      have := Array.findIdx?_eq_none_iff.mp h index hmem
      simp at this
    refine ⟨[], s.pending, ?_, List.Perm.refl _, (if_neg hmem).symm⟩
    rw [List.append_nil, ← hf]
    rfl
  | some i =>
    obtain ⟨hi, hat, -⟩ := Array.findIdx?_eq_some_iff_getElem.mp h
    have hat' : s.pending[i]? = some index := by
      rw [Array.getElem?_eq_getElem hi]
      simpa using hat
    refine ⟨[index], swapRemove s.pending i, ?_, swapRemove_perm hat', ?_⟩
    · exact modifyCurrent_apply (s := { s with pending := swapRemove s.pending i }) hf _
    · rw [if_pos (Array.mem_of_getElem? hat')]

/-! ## The test -/

/-- The lines that test the index of a counting loop against its bound and leave the loop if it has
passed it. -/
def TestLines (t : SlotTable) (temps : List SlotId) (index bound upwards : SlotId)
    (leave : InstrId) (code : List Line) : Prop :=
  ∃ inside downwards test, t.Spare temps inside ∧
    code = branchLines upwards downwards ++
      callLines (HostCall.intComparison "LessThan") [index, bound, inside] ++
      [.code (.jump test), .label downwards] ++
      callLines (HostCall.intComparison "GreaterThan") [index, bound, inside] ++
      [.label test] ++ branchLines inside leave

lemma test_builds (ha : a.Ready s.method) (hf : s.scopes.frames = g :: rest)
    (hnone : g.endLabel = none) {upwards : SlotId} (hindex : index < a.program.slots.size)
    (hbound : bound < a.program.slots.size) (hup : upwards < a.program.slots.size) :
    Builds s a (do
      let inside ← temporary .boolean
      let downwards ← newLabel
      let test ← newLabel
      jumpIfFalse upwards downwards
      callHost (HostCall.intComparison "LessThan") [index, bound, inside]
      emit (.jump test)
      place downwards
      callHost (HostCall.intComparison "GreaterThan") [index, bound, inside]
      place test
      let leave ← frameEnd rest.length
      jumpIfFalse inside leave
      release inside) fun _ code b t => ∃ leave,
        TestLines b.program.slots a.temps index bound upwards leave code ∧
        b.labels = leave :: a.labels ∧ b.temps = a.temps ∧
        t = s.build s.program (g.withEnd leave :: rest) := by
  refine Builds.yields_bind ha (temporary_yields ha .boolean) ?_
  rintro inside _ b hb hb' ⟨rfl, hlabels, htemps, -, hspare⟩
  refine Builds.yields_bind hb' (newLabel_yields hb') ?_
  rintro downwards _ c hc hc' ⟨rfl, hlabels₁, htemps₁⟩
  refine Builds.yields_bind hc' (newLabel_yields hc') ?_
  rintro test _ d hd hd' ⟨rfl, hlabels₂, htemps₂⟩
  have hgrow := (hb.grows.trans hc.grows).trans hd.grows
  have hdown : d.Target downwards := .inr (List.mem_append_right _ (by simp [hlabels₂, hlabels₁]))
  have htest : d.Target test := .inr (List.mem_append_right _ (by simp [hlabels₂]))
  have hne : test ≠ downwards := by
    have hnodup := (List.nodup_append.mp hd'.sound.promised_nodup).2.1
    rw [hlabels₂, hlabels₁] at hnodup
    simp only [List.nodup_cons, List.mem_cons, not_or] at hnodup
    exact hnodup.1.1
  have hspare := hspare.within (hc.grows.slots.trans hd.grows.slots)
  have hargs : ∀ id ∈ [index, bound, inside], id < d.program.slots.size := by
    simp only [List.mem_cons, List.not_mem_nil, or_false, forall_eq_or_imp, forall_eq]
    exact ⟨hindex.trans_le hgrow.slots.size_le, hbound.trans_le hgrow.slots.size_le, hspare.lt⟩
  refine Builds.yields_bind hd'
    (jumpIfFalse_yields hd' (hup.trans_le hgrow.slots.size_le) hdown) ?_
  rintro ⟨⟩ _ e he he' ⟨rfl, hkeep⟩
  refine Builds.yields_bind he' (callHost_yields he' _ _ fun id hid =>
    (hargs id hid).trans_le he.grows.slots.size_le) ?_
  rintro ⟨⟩ _ e₁ he₁ he₁' ⟨rfl, hkeep₁⟩
  have hgrow₁ := he.grows.trans he₁.grows
  refine Builds.yields_bind he₁' (jump_yields he₁' (hgrow₁.target test htest)) ?_
  rintro ⟨⟩ _ e₂ he₂ he₂' ⟨rfl, hkeep₂⟩
  have hgrow₂ := hgrow₁.trans he₂.grows
  have hkeep₃ := (hkeep.trans hkeep₁).trans hkeep₂
  have hwait : downwards ∈ e₂.labels := by simp [hkeep₃.labels, hlabels₂, hlabels₁]
  refine Builds.yields_bind he₂' (place_yields he₂' hwait) ?_
  rintro ⟨⟩ _ e₃ he₃ he₃' ⟨rfl, hlabels₃, htemps₃, -⟩
  rw [hkeep₃.labels, hlabels₂, hlabels₁, List.erase_cons_tail (by simpa using hne),
    List.erase_cons_head] at hlabels₃
  have hgrow₃ := hgrow₂.trans he₃.grows
  refine Builds.yields_bind he₃' (callHost_yields he₃' _ _ fun id hid =>
    (hargs id hid).trans_le hgrow₃.slots.size_le) ?_
  rintro ⟨⟩ _ e₄ he₄ he₄' ⟨rfl, hkeep₄⟩
  have hwait' : test ∈ e₄.labels := by simp [hkeep₄.labels, hlabels₃]
  refine Builds.yields_bind he₄' (place_yields he₄' hwait') ?_
  rintro ⟨⟩ _ e₅ he₅ he₅' ⟨rfl, hlabels₅, htemps₅, -⟩
  rw [hkeep₄.labels, hlabels₃, List.erase_cons_head] at hlabels₅
  refine Builds.bind he₅' (frameEnd_builds [] he₅' hf hnone) ?_
  rintro leave _ _ _ - he₆ he₆' ⟨rfl, hleave, rfl, rfl⟩
  have hgrow₆ := ((hgrow₃.trans he₄.grows).trans he₅.grows).trans he₆.grows
  have htarget : e₅.newLabel.Target leave :=
    .inr (List.mem_append_right _ (hleave ▸ List.mem_cons_self))
  refine Builds.yields_bind he₆' (jumpIfFalse_yields he₆'
    (hspare.lt.trans_le hgrow₆.slots.size_le) htarget) ?_
  rintro ⟨⟩ _ e₇ he₇ he₇' ⟨rfl, hkeep₇⟩
  have htemps₇ : e₇.temps = inside :: a.temps := by
    rw [hkeep₇.temps, show e₅.newLabel.temps = e₅.temps from rfl, htemps₅, hkeep₄.temps, htemps₃,
      hkeep₃.temps, htemps₂, htemps₁, htemps]
  have hheld : inside ∈ e₇.temps := by simp [htemps₇]
  refine (Builds.of_yields (release_yields he₇' hheld)).mono ?_
  rintro ⟨⟩ _ e₈ _ he₈ ⟨rfl, rfl, hlabels₈, htemps₈⟩
  refine ⟨leave, ⟨inside, downwards, test, ?_, by simp⟩, ?_, ?_, rfl⟩
  · exact hspare.within ((hgrow₆.trans he₇.grows).trans he₈.grows).slots
  · rw [hlabels₈, hkeep₇.labels, show e₅.newLabel.labels = e₅.program.instrs.size :: e₅.labels
      from rfl, hlabels₅, hlabels, hleave]
  · rw [htemps₈, htemps₇, List.erase_cons_head]

/-! ## The step -/

/-- The lines between two passes: the step is added to the index, and the index is tested. The first
pass enters at the test. -/
def StepLines (e : Setting) (temps : List SlotId) (index step bound upwards : SlotId)
    (again check leave : InstrId) (code : List Line) : Prop :=
  ∃ write test, WriteLines e temps index write ∧
    TestLines e.slots temps index bound upwards leave test ∧
    code = [.label again] ++ callLines (HostCall.intOperator "Addition") [index, step, index] ++
      write ++ [.label check] ++ test

lemma step_builds (ha : a.Ready s.method) (hf : s.scopes.frames = g :: rest)
    (hstart : g.startLabel = none) (hend : g.endLabel = none) {upwards : SlotId}
    (hindex : index < a.program.slots.size) (hstep : step < a.program.slots.size)
    (hbound : bound < a.program.slots.size) (hup : upwards < a.program.slots.size) {check : InstrId}
    {labels : List InstrId} (hcheck : a.labels = check :: labels) :
    Builds s a (do
      let again ← frameStart rest.length
      place again
      callHost (HostCall.intOperator "Addition") [index, step, index]
      afterWrite index
      place check
      let inside ← temporary .boolean
      let downwards ← newLabel
      let test ← newLabel
      jumpIfFalse upwards downwards
      callHost (HostCall.intComparison "LessThan") [index, bound, inside]
      emit (.jump test)
      place downwards
      callHost (HostCall.intComparison "GreaterThan") [index, bound, inside]
      place test
      let leave ← frameEnd rest.length
      jumpIfFalse inside leave
      release inside) fun _ code b t => ∃ again leave,
        StepLines (b.program.setting s.method) a.temps index step bound upwards again check leave code ∧
        b.labels = leave :: labels ∧ b.temps = a.temps ∧ again ∈ b.program.placed ∧
        t = s.build s.program ((g.withStart again).withEnd leave :: rest) := by
  refine Builds.bind ha (frameStart_builds ha hf hstart) ?_
  rintro again _ b _ - hb hb' ⟨rfl, hlabels, htemps, rfl⟩
  refine Builds.yields_bind hb' (place_yields hb' (l := again) (by simp [hlabels])) ?_
  rintro ⟨⟩ _ c hc hc' ⟨rfl, hlabels₁, htemps₁, hplaced⟩
  rw [hlabels, hcheck, List.erase_cons_head] at hlabels₁
  have hgrow := hb.grows.trans hc.grows
  refine Builds.yields_bind hc' (callHost_yields hc' _ [index, step, index] ?_) ?_
  · simp [hindex.trans_le hgrow.slots.size_le, hstep.trans_le hgrow.slots.size_le]
  rintro ⟨⟩ _ d hd hd' ⟨rfl, hkeep⟩
  have hgrow₁ := hgrow.trans hd.grows
  refine Builds.yields_bind hd'
    (afterWrite_yields hd' (hindex.trans_le hgrow₁.slots.size_le)) ?_
  rintro ⟨⟩ write e he he' ⟨hwrite, hkeep₁⟩
  have hkeep₂ := hkeep.trans hkeep₁
  have hwait : check ∈ e.labels := by simp [hkeep₂.labels, hlabels₁]
  refine Builds.yields_bind he' (place_yields he' hwait) ?_
  rintro ⟨⟩ _ e₁ he₁ he₁' ⟨rfl, hlabels₂, htemps₂, -⟩
  rw [hkeep₂.labels, hlabels₁, List.erase_cons_head] at hlabels₂
  have htemps₃ : e₁.temps = a.temps := by rw [htemps₂, hkeep₂.temps, htemps₁, htemps]
  have hgrow₂ := (hgrow₁.trans he.grows).trans he₁.grows
  have hsize := hgrow₂.slots.size_le
  refine (test_builds (s := s.build s.program (g.withStart again :: rest)) he₁' rfl hend
    (hindex.trans_le hsize) (hbound.trans_le hsize) (hup.trans_le hsize)).mono ?_
  rintro ⟨⟩ code e₂ _ he₂ ⟨leave, htest, hlabels₄, htemps₄, rfl⟩
  refine ⟨again, leave, ⟨write, code, ?_, htemps₃ ▸ htest, by simp⟩, ?_, ?_, ?_, rfl⟩
  · rw [hkeep.temps, htemps₁, htemps] at hwrite
    exact hwrite.within (he₁.toWorks.trans he₂.toWorks).setting
      (hindex.trans_le (hgrow₁.trans he.grows).slots.size_le)
  · rw [hlabels₄, hlabels₂]
  · rw [htemps₄, htemps₃]
  · exact he₂.placed _ (he₁.placed _ (he.placed _ (hd.placed _ hplaced)))

/-! ## The loop -/

/-- The temporaries of a counting loop. -/
structure LoopSlots where
  step : SlotId
  bound : SlotId
  upwards : SlotId

/-- The temporaries of the loop, in the order in which they are taken. -/
def LoopSlots.toList (c : LoopSlots) : List SlotId := [c.step, c.bound, c.upwards]

/-- The lines in front of the items of a counting loop. -/
def LoopLines (e : Setting) (temps : List SlotId) (start bound step index : SlotId)
    (c : LoopSlots) (again leave : InstrId) (code : List Line) : Prop :=
  ∃ write nought check next, WriteLines e temps index write ∧
    e.slots.IsConstant .int32 (.int32 0) nought ∧
    StepLines e temps index c.step c.bound c.upwards again check leave next ∧
    code = copyLines start index ++ write ++ copyLines bound c.bound ++ copyLines step c.step ++
      callLines (HostCall.intComparison "GreaterThanOrEqual") [c.step, nought, c.upwards] ++
      [.code (.jump check)] ++ next

/-- The frame of a counting loop. -/
def loopFrame (coordinate : Coordinate) (owned : List SlotId) (again leave : InstrId) : Frame :=
  { Frame.fresh .forLoop coordinate with
    startLabel := some again, endLabel := some leave, owned }

lemma openFor_builds (ha : a.Ready s.method)
    (hf : s.scopes.frames = .fresh .forLoop coordinate :: rest) {r : BoundAction} {start : SlotId}
    (hr : r.inputs = [start, bound, step, index]) (hin : ∀ id ∈ r.inputs, id < a.program.slots.size) :
    Builds s a (openFor r) fun _ code b t => ∃ c again leave kept pending,
      LoopLines (b.program.setting s.method) (c.upwards :: c.bound :: c.step :: a.temps) start bound step index c
        again leave code ∧
      b.labels = leave :: a.labels ∧ b.temps = c.upwards :: c.bound :: c.step :: a.temps ∧
      again ∈ b.program.placed ∧ (kept ++ pending.toList).Perm s.pending.toList ∧
      (kept = if index ∈ s.pending then [index] else []) ∧
      t = { s.build s.program (loopFrame coordinate (kept ++ c.toList) again leave :: rest) with
        pending } := by
  rw [hr] at hin
  simp only [List.mem_cons, List.not_mem_nil, or_false, forall_eq_or_imp, forall_eq] at hin
  obtain ⟨hstart, hbound, hstep, hindex⟩ := hin
  unfold openFor
  refine Builds.ok_bind ha (input_apply (s := s.on a) (show _ = some start by simp [hr])) rfl ?_
  refine Builds.ok_bind ha (input_apply (s := s.on a) (show _ = some bound by simp [hr])) rfl ?_
  refine Builds.ok_bind ha (input_apply (s := s.on a) (show _ = some step by simp [hr])) rfl ?_
  refine Builds.ok_bind ha (input_apply (s := s.on a) (show _ = some index by simp [hr])) rfl ?_
  refine Builds.ok_bind ha (currentIndex_apply (s := s.on a) hf) rfl ?_
  obtain ⟨kept, pending, hkeep, hperm, hkept⟩ := keepInScope_apply (s := s.on a) hf index
  set s₁ : LowerState := { s.build s.program
    ({ Frame.fresh .forLoop coordinate with owned := kept } :: rest) with pending } with hs₁
  refine Builds.ok_bind ha (t := s₁) hkeep rfl ?_
  have ha₁ : a.Ready s₁.method := ha
  refine Builds.yields_bind ha₁ (temporary_yields ha₁ .int32) ?_
  rintro stepValue _ b hb hb' ⟨rfl, hlabels, htemps, -, -⟩
  refine Builds.yields_bind hb' (temporary_yields hb' .int32) ?_
  rintro boundValue _ b₁ hb₁ hb₁' ⟨rfl, hlabels₁, htemps₁, -, -⟩
  refine Builds.yields_bind hb₁' (temporary_yields hb₁' .boolean) ?_
  rintro upwards _ b₂ hb₂ hb₂' ⟨rfl, hlabels₂, htemps₂, -, -⟩
  rw [htemps₁, htemps] at htemps₂
  rw [hlabels₁, hlabels] at hlabels₂
  set c : LoopSlots := ⟨stepValue, boundValue, upwards⟩ with hc
  set s₂ : LowerState := { s.build s.program
    ({ Frame.fresh .forLoop coordinate with owned := kept ++ c.toList } :: rest) with pending }
    with hs₂
  refine Builds.ok_bind hb₂' (t := s₂) (r := ⟨⟩) ?_ rfl ?_
  · refine (modifyCurrent_apply (s := s₁.on b₂) rfl _).trans ?_
    simp [hs₁, hs₂, Frame.own, LoopSlots.toList, hc, LowerState.build, LowerState.on]
  have hb₂'' : b₂.Ready s₂.method := hb₂'
  have hgrow := (hb.grows.trans hb₁.grows).trans hb₂.grows
  have hsize := hgrow.slots.size_le
  have hheld : ∀ id ∈ [upwards, boundValue, stepValue], id < b₂.program.slots.size := by
    intro id hid
    refine (hb₂'.sound.pool.used id ?_).1
    rw [htemps₂]
    exact List.mem_append_left a.temps hid
  simp only [List.mem_cons, List.not_mem_nil, or_false, forall_eq_or_imp, forall_eq] at hheld
  obtain ⟨hupValue, hboundValue, hstepValue⟩ := hheld
  refine Builds.yields_bind hb₂'' (copy_yields hb₂'' (hstart.trans_le hsize)
    (hindex.trans_le hsize)) ?_
  rintro ⟨⟩ _ d hd hd' ⟨rfl, hkeep₁⟩
  have hindex' := hindex.trans_le (hsize.trans hd.grows.slots.size_le)
  refine Builds.yields_bind hd' (afterWrite_yields hd' hindex') ?_
  rintro ⟨⟩ write d₁ hd₁ hd₁' ⟨hwrite, hkeep₂⟩
  have hgrow₁ := hd.grows.trans hd₁.grows
  have hsize₁ := hgrow₁.slots.size_le
  refine Builds.yields_bind hd₁' (copy_yields hd₁' (hbound.trans_le (hsize.trans hsize₁))
    (hboundValue.trans_le hsize₁)) ?_
  rintro ⟨⟩ _ d₂ hd₂ hd₂' ⟨rfl, hkeep₃⟩
  have hgrow₂ := hgrow₁.trans hd₂.grows
  have hsize₂ := hgrow₂.slots.size_le
  refine Builds.yields_bind hd₂' (copy_yields hd₂' (hstep.trans_le (hsize.trans hsize₂))
    (hstepValue.trans_le hsize₂)) ?_
  rintro ⟨⟩ _ d₃ hd₃ hd₃' ⟨rfl, hkeep₄⟩
  refine Builds.yields_bind hd₃' (constant_yields hd₃' (by simp)) ?_
  rintro nought _ d₄ hd₄ hd₄' ⟨rfl, hkeep₅, hnought⟩
  have hgrow₄ := (hgrow₂.trans hd₃.grows).trans hd₄.grows
  have hsize₄ := hgrow₄.slots.size_le
  refine Builds.yields_bind hd₄' (callHost_yields hd₄' _ [stepValue, nought, upwards] ?_) ?_
  · simp [hstepValue.trans_le hsize₄, hnought.lt, hupValue.trans_le hsize₄]
  rintro ⟨⟩ _ d₅ hd₅ hd₅' ⟨rfl, hkeep₆⟩
  have hkeep₇ := ((((hkeep₁.trans hkeep₂).trans hkeep₃).trans hkeep₄).trans hkeep₅).trans hkeep₆
  refine Builds.yields_bind hd₅' (newLabel_yields hd₅') ?_
  rintro check _ d₆ hd₆ hd₆' ⟨rfl, hlabels₆, htemps₆⟩
  have hcheck : d₆.Target check := .inr (List.mem_append_right _ (by simp [hlabels₆]))
  refine Builds.yields_bind hd₆' (jump_yields hd₆' hcheck) ?_
  rintro ⟨⟩ _ d₇ hd₇ hd₇' ⟨rfl, hkeep₈⟩
  have hlabels₇ : d₇.labels = check :: a.labels := by
    rw [hkeep₈.labels, hlabels₆, hkeep₇.labels, hlabels₂]
  have htemps₇ : d₇.temps = upwards :: boundValue :: stepValue :: a.temps := by
    rw [hkeep₈.temps, htemps₆, hkeep₇.temps, htemps₂]
  have hgrow₇ := ((hgrow₄.trans hd₅.grows).trans hd₆.grows).trans hd₇.grows
  have hsize₇ := hgrow₇.slots.size_le
  refine (step_builds hd₇' rfl rfl rfl (hindex.trans_le (hsize.trans hsize₇))
    (hstepValue.trans_le hsize₇) (hboundValue.trans_le hsize₇) (hupValue.trans_le hsize₇)
    hlabels₇).mono ?_
  rintro ⟨⟩ next e _ he ⟨again, leave, hnext, hlabels₈, htemps₈, hplaced, rfl⟩
  refine ⟨c, again, leave, kept, pending, ⟨write, nought, check, next, ?_, ?_, ?_, by simp [hc]⟩,
    hlabels₈, htemps₈.trans htemps₇, hplaced, hperm, hkept, rfl⟩
  · rw [hkeep₁.temps, htemps₂] at hwrite
    refine hwrite.within ?_ (hindex.trans_le (hsize.trans hsize₁))
    exact ((((((hd₂.toWorks.trans hd₃.toWorks).trans hd₄.toWorks).trans hd₅.toWorks).trans
      hd₆.toWorks).trans hd₇.toWorks).trans he.toWorks).setting
  · exact hnought.within (((hd₅.grows.trans hd₆.grows).trans hd₇.grows).trans he.grows).slots
  · exact htemps₇ ▸ hnext

/-- A counting loop opens whatever its inputs are. -/
lemma openFor_opens (hs : s.Sound) (hf : s.scopes.frames = f :: rest) {r : BoundAction}
    {start : SlotId} (hr : r.inputs = [start, bound, step, index])
    (hin : ∀ id ∈ r.inputs, id < s.program.slots.size) (coordinate : Coordinate) :
    ∃ code c again leave kept t, openFor r (opened s .forLoop coordinate) = .ok ⟨⟩ t ∧ t.Sound ∧
      LoopLines t.setting (c.upwards :: c.bound :: c.step :: s.site.temps) start bound step
        index c again leave code ∧
      (kept ++ t.pending.toList).Perm s.pending.toList ∧
      (kept = if index ∈ s.pending then [index] else []) ∧
      Opens s code (loopFrame coordinate (kept ++ c.toList) again leave) f t := by
  obtain ⟨_, code, b, _, hrun, -, hadds, c, again, leave, kept, pending, hcode, hlabels, htemps,
    hplaced, hperm, hkept, rfl⟩ := openFor_builds (s := opened s .forLoop coordinate) (a := s.site)
      hs.ready rfl hr hin
  set t := LowerState.on _ b with ht
  have hopens : Opens s code (loopFrame coordinate (kept ++ c.toList) again leave) f t := by
    refine ⟨rfl, hadds.of_perm (b := b) ?_ ?_, f, rest, hf, congrArg (List.cons _) hf⟩
    · rw [hlabels]
      simp [ht, LowerState.site, LowerState.on, LowerState.build, ScopeStack.endLabels,
        loopFrame, opened]
    · rw [htemps, List.perm_iff_count]
      intro x
      have hcount := hperm.count_eq x
      simp only [List.count_append] at hcount
      simp only [ht, LowerState.site, LowerState.on, LowerState.build, ScopeStack.owned, loopFrame,
        opened, LoopSlots.toList, List.flatMap_cons, List.count_append, List.count_cons,
        List.count_nil] at hcount ⊢
      omega
  refine ⟨code, c, again, leave, kept, t, hrun, hopens.sound hs ?_ ?_, hcode, hperm, hkept, hopens⟩
  · exact Frame.sound_loop rfl (by decide) coordinate hplaced _ _
  · exact (hs.frames f (by simp [hf])).works hadds.toWorks

end TriggerCompiler.Lower
