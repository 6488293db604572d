import Mathlib
import TriggerCompiler.Proofs.Statements

/-!
# Actions that open a block

An action that opens a block pushes a frame and adds the lines in front of the block. What it needs
of the block around it decides whether it succeeds.
-/

namespace TriggerCompiler

variable {p : Program} {c : Construct} {l : InstrId}

namespace Frame

/-- The block with a label for its start. -/
def withStart (f : Frame) (l : InstrId) : Frame := { f with startLabel := some l }

/-- Whether a condition can steer the block. -/
def takesCondition (f : Frame) : Bool := (f.construct?.map Construct.takesCondition).getD false

/-- The block once it has a condition. -/
def seeCondition (f : Frame) : Frame := { f with sawCondition := true }

/-- The block once it has a condition body. -/
def seeConditionBody (f : Frame) : Frame := { f with sawConditionBody := true }

lemma Sound.seeCondition {f : Frame} (h : f.Sound p) : f.seeCondition.Sound p :=
  { h with }

lemma Sound.seeConditionBody {f : Frame} (h : f.Sound p) : f.seeConditionBody.Sound p :=
  { h with }

/-- The frame of a construct that has just opened a block. -/
def fresh (c : Construct) (coordinate : Coordinate) : Frame :=
  openedBy (.construct c) coordinate

lemma sound_fresh (hopens : c.opensBlock = true) (hloop : c.isLoop = false) (hcond : c ≠ .condition)
    (coordinate : Coordinate) (p : Program) :
    (fresh c coordinate).Sound p where
  opener := .inr ⟨c, rfl, hopens⟩
  isLoop := rfl
  condition h := absurd (Option.some.inj h) hcond
  root h := by cases h
  isResult := ⟨fun h => (by cases h), fun h => absurd (Option.some.inj h) hcond⟩
  result r hr := by cases hr
  result_owned r hr := by cases hr
  start h := absurd (show c.isLoop = true from h) (by simp [hloop])
  start_placed l hl := by cases hl
  chain id hid := by cases hid
  closed_chain c hc := by cases hc

/-- The frame of a loop whose start has its place. -/
lemma sound_loop (hopens : c.opensBlock = true) (hcond : c ≠ .condition) (coordinate : Coordinate)
    (hl : l ∈ p.placed) (ending : Option InstrId) (owned : List SlotId) :
    ({ fresh c coordinate with startLabel := some l, endLabel := ending, owned } : Frame).Sound p where
  opener := .inr ⟨c, rfl, hopens⟩
  isLoop := rfl
  condition h := absurd (Option.some.inj h) hcond
  root h := by cases h
  isResult := ⟨fun h => (by cases h), fun h => absurd (Option.some.inj h) hcond⟩
  result r hr := by cases hr
  result_owned r hr := by cases hr
  start _ := rfl
  start_placed l' hl' := Option.some.inj hl' ▸ hl
  chain id hid := by cases hid
  closed_chain c hc := by cases hc

/-- What the last action of a block has left at the end of the body: a condition leaves its end
label and the push of its result, and a block that a later action can refer to leaves its end
label. -/
structure Follows (f : Frame) (p : Program) (m : MethodId) : Prop where
  condition : f.previous = some .condition → ∃ slot, p.tail m 2 = [.nop, .push slot]
  closed : ∀ c ∈ [Construct.ifBranch, .elseIf, .conditionBody], f.previous = some c →
    ∃ closed l before, f.lastClosed = some closed ∧ closed.endLabel = some l ∧
      (p.method m).body.toList = before ++ [l]

end Frame

namespace Lower

variable {α β : Type} {s t : LowerState} {a b : Site} {x : Lower α} {f g : Frame}
  {rest : List Frame} {coordinate : Coordinate}

/-! ## Computations that add lines and change open blocks -/

/-- The computation succeeds and adds lines to the current method; it may change other things than
the program, which leaves the given state. -/
def Builds (s : LowerState) (a : Site) (x : Lower α)
    (P : α → List Line → Site → LowerState → Prop) : Prop :=
  ∃ r code b t, x (s.on a) = .ok r (t.on b) ∧ t.method = s.method ∧ a.Adds s.method code b ∧
    P r code b t

namespace Builds

variable {P Q : α → List Line → Site → LowerState → Prop}

lemma of_yields {P : α → List Line → Site → Prop} (h : Yields s a x P) :
    Builds s a x fun r code b t => t = s ∧ P r code b := by
  obtain ⟨r, code, b, hx, hadds, hP⟩ := h
  exact ⟨r, code, b, s, hx, rfl, hadds, rfl, hP⟩

/-- A computation that changes no program. -/
lemma of_ok {r : α} (ha : a.Sound) (hx : x (s.on a) = .ok r (t.on a)) (ht : t.method = s.method)
    (hP : P r [] a t) : Builds s a x P :=
  ⟨r, [], a, t, hx, ht, Site.Adds.refl ha, hP⟩

lemma mono (h : Builds s a x P)
    (hPQ : ∀ r code b t, a.Adds s.method code b → P r code b t → Q r code b t) :
    Builds s a x Q := by
  obtain ⟨r, code, b, t, hx, ht, hadds, hP⟩ := h
  exact ⟨r, code, b, t, hx, ht, hadds, hPQ r code b t hadds hP⟩

lemma bind {k : α → Lower β} {R : β → List Line → Site → LowerState → Prop}
    (ha : a.Ready s.method) (hx : Builds s a x P)
    (hk : ∀ r code b t, t.method = s.method → a.Adds s.method code b → b.Ready t.method →
      P r code b t → Builds t b (k r) fun r' code' c u => R r' (code ++ code') c u) :
    Builds s a (x >>= k) R := by
  obtain ⟨r, code, b, t, hx, ht, hadds, hP⟩ := hx
  obtain ⟨r', code', c, u, hk, hu, hadds', hR⟩ :=
    hk r code b t ht hadds (ht ▸ hadds.ready ha) hP
  rw [ht] at hadds'
  exact ⟨r', code ++ code', c, u, (bind_of_ok hx k).trans hk, hu.trans ht,
    hadds.trans hadds' ha.method_lt, hR⟩

/-- A sequence whose first part yields lines. -/
lemma yields_bind {k : α → Lower β} {P : α → List Line → Site → Prop}
    {R : β → List Line → Site → LowerState → Prop} (ha : a.Ready s.method)
    (hx : Yields s a x P)
    (hk : ∀ r code b, a.Adds s.method code b → b.Ready s.method → P r code b →
      Builds s b (k r) fun r' code' c u => R r' (code ++ code') c u) :
    Builds s a (x >>= k) R := by
  refine bind ha (of_yields hx) ?_
  rintro r code b _ - hadds hb ⟨rfl, hP⟩
  exact hk r code b hadds hb hP

/-- A sequence whose first part changes no program. -/
lemma ok_bind {k : α → Lower β} {R : β → List Line → Site → LowerState → Prop} {r : α}
    (ha : a.Ready s.method) (hx : x (s.on a) = .ok r (t.on a)) (ht : t.method = s.method)
    (hk : Builds t a (k r) R) : Builds s a (x >>= k) R := by
  refine bind ha (of_ok (P := fun r' code b u => r' = r ∧ code = [] ∧ b = a ∧ u = t) ha.sound hx ht
    ⟨rfl, rfl, rfl, rfl⟩) ?_
  rintro _ _ _ _ - - - ⟨rfl, rfl, rfl, rfl⟩
  exact hk

end Builds

/-! ## Blocks that open -/

/-- From one state to the other a block was opened in front of which lines were added; the block
around it may have changed. -/
structure Opens (s : LowerState) (code : List Line) (g f' : Frame) (t : LowerState) : Prop where
  state : t = { s.build t.program t.scopes.frames with pending := t.pending }
  adds : s.site.Adds s.method code t.site
  frames : ∃ f rest, s.scopes.frames = f :: rest ∧ t.scopes.frames = g :: f' :: rest

namespace Opens

variable {code : List Line} {f' : Frame}

lemma method (h : Opens s code g f' t) : t.method = s.method := by
  rw [h.state]
  rfl

lemma sound (h : Opens s code g f' t) (hs : s.Sound) (hg : g.Sound t.program)
    (hf' : f'.Sound t.program) : t.Sound := by
  have hstate := h.state
  obtain ⟨f, rest, hf, hframes⟩ := h.frames
  refine hs.of_works h.adds.toWorks h.method (fun k hk => ?_) (fun e he => .inl ?_) ?_ ?_
  · rw [hframes] at hk
    rcases List.mem_cons.mp hk with rfl | hk
    · exact hg
    rcases List.mem_cons.mp hk with rfl | hk
    · exact hf'
    · exact hs.frame_works h.adds.toWorks (by simp [hf, hk])
  · rw [hstate] at he
    exact he
  · rw [hstate]
    rfl
  · rw [hstate]
    rfl

end Opens

/-- The state in which a block has just been opened. -/
def opened (s : LowerState) (c : Construct) (coordinate : Coordinate) : LowerState :=
  s.build s.program (.fresh c coordinate :: s.scopes.frames)

lemma openBlock_apply (c : Construct) (r : BoundAction) :
    openBlock (.construct c) true r s = .ok ⟨⟩ (opened s c r.coordinate) := rfl

/-- A plain block needs nothing. -/
lemma opens_plain (hs : s.Sound) (hf : s.scopes.frames = f :: rest) (c : Construct)
    (coordinate : Coordinate) :
    Opens s [] (.fresh c coordinate) f (opened s c coordinate) :=
  ⟨rfl, Site.Adds.refl hs.site, f, rest, hf, congrArg (List.cons _) hf⟩

/-! ## Tested loops -/

lemma frameStart_builds (ha : a.Ready s.method) (hf : s.scopes.frames = g :: rest)
    (hnone : g.startLabel = none) :
    Builds s a (frameStart rest.length) fun l code b t => code = [] ∧ b.labels = l :: a.labels ∧
      b.temps = a.temps ∧ t = s.build s.program (g.withStart l :: rest) := by
  refine ⟨a.program.instrs.size, _, a.newLabel,
    s.build s.program (g.withStart a.program.instrs.size :: rest), ?_, rfl,
    ha.sound.adds_newLabel, rfl, rfl, rfl, rfl⟩
  unfold frameStart
  refine (bind_of_ok (frameAt_apply (s := s.on a) [] hf) _).trans ?_
  rw [hnone]
  have hnew : newLabel (s.on a) = .ok a.program.instrs.size (s.on a.newLabel) := rfl
  refine (bind_of_ok hnew _).trans ?_
  exact bind_of_ok (onScopes_modify_apply (s := s.on a.newLabel) [] hf _) _

lemma frameEnd_builds (l₁ : List Frame) {l₂ : List Frame} (ha : a.Ready s.method)
    (hf : s.scopes.frames = l₁ ++ g :: l₂) (hnone : g.endLabel = none) :
    Builds s a (frameEnd l₂.length) fun l code b t => code = [] ∧ l = a.program.instrs.size ∧
      b = a.newLabel ∧ t = s.build s.program (l₁ ++ g.withEnd l :: l₂) := by
  refine ⟨a.program.instrs.size, _, a.newLabel,
    s.build s.program (l₁ ++ g.withEnd a.program.instrs.size :: l₂), ?_, rfl,
    ha.sound.adds_newLabel, rfl, rfl, rfl, rfl⟩
  unfold frameEnd
  refine (bind_of_ok (frameAt_apply (s := s.on a) _ hf) _).trans ?_
  rw [hnone]
  have hnew : newLabel (s.on a) = .ok a.program.instrs.size (s.on a.newLabel) := rfl
  refine (bind_of_ok hnew _).trans ?_
  exact bind_of_ok (onScopes_modify_apply (s := s.on a.newLabel) _ hf _) _

lemma openWhile_builds (ha : a.Ready s.method) (hf : s.scopes.frames = g :: rest)
    (hnone : g.startLabel = none) :
    Builds s a openWhile fun _ code b t => ∃ l, code = [.label l] ∧ a.Keeps b ∧
      l ∈ b.program.placed ∧ t = s.build s.program (g.withStart l :: rest) := by
  refine Builds.ok_bind ha (currentIndex_apply (s := s.on a) hf) rfl ?_
  refine Builds.bind ha (frameStart_builds ha hf hnone) ?_
  rintro l _ b _ - hadds hb ⟨rfl, hlabels, htemps, rfl⟩
  refine (Builds.of_yields (place_yields hb (l := l) (by simp [hlabels]))).mono ?_
  rintro ⟨⟩ _ c _ - ⟨rfl, rfl, hlabels', htemps', hplaced⟩
  refine ⟨l, rfl, ⟨?_, htemps'.trans htemps⟩, hplaced, rfl⟩
  rw [hlabels', hlabels, List.erase_cons_head]

lemma openWhile_opens (hs : s.Sound) (hf : s.scopes.frames = f :: rest)
    (coordinate : Coordinate) :
    ∃ l t, openWhile (opened s .whileLoop coordinate) = .ok ⟨⟩ t ∧ t.Sound ∧
      Opens s [.label l] ((Frame.fresh .whileLoop coordinate).withStart l) f t := by
  obtain ⟨_, _, b, _, hrun, -, hadds, l, rfl, hkeep, hplaced, rfl⟩ :=
    openWhile_builds (s := opened s .whileLoop coordinate) (a := s.site) hs.ready rfl rfl
  have hopens : Opens s [.label l] ((Frame.fresh .whileLoop coordinate).withStart l) f
      (((opened s .whileLoop coordinate).build s.program
        ((Frame.fresh .whileLoop coordinate).withStart l :: s.scopes.frames)).on b) := by
    refine ⟨rfl, ?_, f, rest, hf, ?_⟩
    · exact (site_on hkeep) ▸ hadds
    · exact congrArg (List.cons _) hf
  refine ⟨l, _, hrun, hopens.sound hs ?_ ?_, hopens⟩
  · exact Frame.sound_loop rfl (by decide) coordinate hplaced none []
  · exact (hs.frames f (by simp [hf])).works hadds.toWorks

/-! ## Conditions -/

/-- The frame of a condition. -/
def conditionFrame (coordinate : Coordinate) (result : SlotId) (l : InstrId) : Frame :=
  { Frame.fresh .condition coordinate with
    owned := [result], conditionResult := some result, endLabel := some l }

lemma conditionFrame_sound (coordinate : Coordinate) {result : SlotId} (l : InstrId)
    (h : result < p.slots.size) : (conditionFrame coordinate result l).Sound p where
  opener := .inr ⟨_, rfl, rfl⟩
  isLoop := rfl
  condition _ := rfl
  root h := by cases h
  isResult := ⟨fun _ => rfl, fun _ => rfl⟩
  result r hr := Option.some.inj hr ▸ h
  result_owned r hr := Option.some.inj hr ▸ List.mem_singleton_self _
  start h := by cases h
  start_placed l hl := by cases hl
  chain id hid := by cases hid
  closed_chain c hc := by cases hc

/-- The lines in front of a condition's checks: the result starts as false. -/
lemma startCondition_builds (ha : a.Ready s.method)
    (hf : s.scopes.frames = .fresh .condition coordinate :: rest) :
    Builds s a (do
      let result ← temporary .boolean
      let label ← newLabel
      modifyCurrent fun f =>
        { f.own result with conditionResult := some result, endLabel := some label }
      let no ← constant .boolean (.boolean false)
      copy no result) fun _ code b t => ∃ result l no,
        b.program.slots.IsConstant .boolean (.boolean false) no ∧ code = copyLines no result ∧
        b.labels = l :: a.labels ∧ b.temps = result :: a.temps ∧
        t = s.build s.program (conditionFrame coordinate result l :: rest) := by
  refine Builds.yields_bind ha (temporary_yields ha .boolean) ?_
  rintro result _ b hb hb' ⟨rfl, hlabels, htemps, -, -⟩
  refine Builds.yields_bind hb' (newLabel_yields hb') ?_
  rintro l _ c hc hc' ⟨rfl, hlabels', htemps'⟩
  refine Builds.ok_bind hc' (t := s.build s.program (conditionFrame coordinate result l :: rest))
    (modifyCurrent_apply (s := s.on c) hf _) rfl ?_
  have hc'' : c.Ready (s.build s.program (conditionFrame coordinate result l :: rest)).method := hc'
  refine Builds.yields_bind hc'' (constant_yields hc'' (by simp)) ?_
  rintro no _ d hd hd' ⟨rfl, hkeep, hno⟩
  have hresult : result < d.program.slots.size :=
    (hd'.sound.pool.used result (by simp [hkeep.temps, htemps', htemps])).1
  refine (Builds.of_yields (copy_yields hd' hno.lt hresult)).mono ?_
  rintro ⟨⟩ _ e _ he ⟨rfl, rfl, hkeep'⟩
  refine ⟨result, l, no, hno.within he.grows.slots, rfl, ?_, ?_, rfl⟩
  · rw [hkeep'.labels, hkeep.labels, hlabels', hlabels]
  · rw [hkeep'.temps, hkeep.temps, htemps', htemps]

/-- The error is that a construct is not where it may be. -/
def IsMisplaced (e : CompileError) : Prop := ∃ reason, e.kind = .misplaced reason

/-- A condition opens directly inside a block that it can steer and that has none yet. -/
lemma openCondition_ensures (hs : s.Sound) (hf : s.scopes.frames = f :: rest)
    (coordinate : Coordinate) :
    Ensures (opened s .condition coordinate) openCondition
      (fun _ t => (f.takesCondition = true ∧ f.sawCondition = false) ∧ t.Sound ∧
        ∃ result l no, t.program.slots.IsConstant .boolean (.boolean false) no ∧
          Opens s (copyLines no result) (conditionFrame coordinate result l) f.seeCondition t)
      fun e t => t.errors = s.errors ∧ IsMisplaced e ∧
        ¬ (f.takesCondition = true ∧ f.sawCondition = false) := by
  have hframes : (opened s .condition coordinate).scopes.frames =
      .fresh .condition coordinate :: f :: rest := congrArg (List.cons _) hf
  unfold openCondition
  refine Ensures.step (parentIndex_apply hframes) ?_
  refine Ensures.step (frameAt_apply [_] hframes) ?_
  refine Ensures.step (t := s.build s.program (.fresh .condition coordinate :: f.seeCondition :: rest))
    (modifyParent_apply hframes _) ?_
  extract_lets start second
  refine Ensures.check (fun htakes => ⟨rfl, ⟨_, rfl⟩, fun h => ?_⟩) fun htakes => ?_
  · rw [show (f.construct?.map Construct.takesCondition).getD false = true from h.1] at htakes
    cases htakes
  unfold second
  refine Ensures.check (fun hsaw => ⟨rfl, ⟨_, rfl⟩, fun h => ?_⟩) fun hsaw => ?_
  · rw [h.2] at hsaw
    cases hsaw
  have hcond : f.takesCondition = true ∧ f.sawCondition = false :=
    ⟨by simpa [Frame.takesCondition] using htakes, by simpa using hsaw⟩
  obtain ⟨_, _, b, _, hrun, -, hadds, result, l, no, hno, rfl, hlabels, htemps, rfl⟩ :=
    startCondition_builds (s := s.build s.program
      (.fresh .condition coordinate :: f.seeCondition :: rest)) (a := s.site) hs.ready rfl
  refine Ensures.of_ok hrun ?_
  set t := LowerState.on _ b with ht
  have hopens : Opens s (copyLines no result) (conditionFrame coordinate result l)
      f.seeCondition t := by
    refine ⟨rfl, hadds.of_perm (b := b) ?_ ?_, f, rest, hf, rfl⟩
    · rw [hlabels]
      simp [ht, LowerState.site, LowerState.on, LowerState.build, ScopeStack.endLabels,
        conditionFrame, hf, List.filterMap_cons, Frame.seeCondition]
    · rw [htemps]
      simp [ht, LowerState.site, LowerState.on, LowerState.build, ScopeStack.owned,
        conditionFrame, hf, Frame.seeCondition]
  have hresult : result < t.program.slots.size :=
    (hadds.sound.pool.used result (by simp [htemps])).1
  have hfsound : f.Sound t.program := (hs.frames f (by simp [hf])).works hadds.toWorks
  exact ⟨hcond, hopens.sound hs (conditionFrame_sound _ _ hresult) hfsound.seeCondition, result, l,
    no, hno, hopens⟩

/-! ## Condition bodies -/

/-- A condition body opens right after the condition of a block that it can steer. -/
lemma openConditionBody_ensures (hs : s.Sound) (hf : s.scopes.frames = f :: rest)
    (hfollows : f.Follows s.program s.method) (coordinate : Coordinate) :
    Ensures (opened s .conditionBody coordinate) openConditionBody
      (fun _ t => (f.previous = some .condition ∧ f.takesCondition = true) ∧ t.Sound ∧
        ∃ l, (∀ l', f.endLabel = some l' → l' = l) ∧
          Opens s [.code (.jumpIfFalse l)] (.fresh .conditionBody coordinate)
            (f.withEnd l).seeConditionBody t)
      fun e t => t.errors = s.errors ∧ IsMisplaced e ∧
        ¬ (f.previous = some .condition ∧ f.takesCondition = true) := by
  have hs₁ : (opened s .conditionBody coordinate).Sound := (opens_plain hs hf _ _).sound hs
    (Frame.sound_fresh rfl rfl (by decide) _ _) (hs.frames f (by simp [hf]))
  have hframes : (opened s .conditionBody coordinate).scopes.frames =
      .fresh .conditionBody coordinate :: f :: rest := congrArg (List.cons _) hf
  unfold openConditionBody
  refine Ensures.step (parentIndex_apply hframes) ?_
  refine Ensures.step (frameAt_apply [_] hframes) ?_
  extract_lets start second
  refine Ensures.check (fun hprev => ⟨rfl, ⟨_, rfl⟩, fun h => hprev h.1⟩) fun hprev => ?_
  unfold second
  refine Ensures.check (fun htakes => ⟨rfl, ⟨_, rfl⟩, fun h => ?_⟩) fun htakes => ?_
  · rw [show (f.construct?.map Construct.takesCondition).getD false = true from h.2] at htakes
    cases htakes
  have hcond : f.previous = some .condition ∧ f.takesCondition = true :=
    ⟨not_not.mp hprev, by simpa [Frame.takesCondition] using htakes⟩
  obtain ⟨slot, htail⟩ := hfollows.condition hcond.1
  have hsteered : f.construct?.isSome = true := by
    cases hc : f.construct? with
    | none => simp [Frame.takesCondition, hc] at hcond
    | some c => rfl
  obtain ⟨l, s₂, hend, hemits, hframes₂, -, -, htarget⟩ :=
    frameEnd_emits [_] hs₁ hframes hsteered
  have hs₂ := hemits.sound hs₁
  obtain ⟨_, _, b, hjump, hemits', -, rfl, -⟩ := (emit_yields hs₂.ready (i := .jumpIfFalse l)
    ⟨by simp [Instr.operands], by simpa [Instr.labelTarget] using htarget, by simp⟩
    (by simp)).emits fun _ _ _ h => h.2
  have hboth := hemits.trans hemits' hs₁
  have hl : ∀ l', f.endLabel = some l' → l' = l := by
    intro l' hl'
    have hfills := hemits.frames
    rw [hframes, hframes₂] at hfills
    obtain ⟨-, hfills⟩ := List.forall₂_cons.mp hfills
    have hend' := (List.forall₂_cons.mp hfills).1.ending l' hl'
    exact (Option.some.inj hend').symm
  have hrun : start () (opened s .conditionBody coordinate) = .ok ⟨⟩ ((s₂.on b).build b.program
      (.fresh .conditionBody coordinate :: (f.withEnd l).seeConditionBody :: rest)) := by
    unfold start
    rw [bind_of_ok (get_apply _)]
    rw [show (opened s .conditionBody coordinate).program.tail
      (opened s .conditionBody coordinate).method 2 = [.nop, .push slot] from htail]
    dsimp only
    refine (bind_of_ok hend _).trans ?_
    refine (bind_of_ok hjump _).trans ?_
    exact modifyParent_apply (s := s₂.on b) hframes₂ _
  refine Ensures.of_ok hrun ?_
  set t := (s₂.on b).build b.program
    (.fresh .conditionBody coordinate :: (f.withEnd l).seeConditionBody :: rest) with ht
  have hsite : t.site = (s₂.on b).site := by
    unfold LowerState.site ScopeStack.endLabels ScopeStack.owned
    rw [show (s₂.on b).scopes.frames = _ from hframes₂]
    simp [ht, LowerState.build, Frame.seeConditionBody, Frame.withEnd, LowerState.on,
      List.filterMap_cons]
  have hopens : Opens s [.code (.jumpIfFalse l)] (.fresh .conditionBody coordinate)
      (f.withEnd l).seeConditionBody t := by
    refine ⟨?_, ?_, f, rest, hf, rfl⟩
    · rw [ht, hemits.state]
      rfl
    · rw [hsite]
      exact hboth.adds
  have hkept : f.Sound t.site.program :=
    (hs.frames f (by simp [hf])).works hopens.adds.toWorks
  have hfsound : (f.withEnd l).Sound t.program := (Frame.Fills.withEnd hsteered hl).sound hkept
  exact ⟨hcond, hopens.sound hs (Frame.sound_fresh rfl rfl (by decide) _ _)
    hfsound.seeConditionBody, l, hl, hopens⟩

/-! ## Further branches of a chain -/

/-- The jumps out of the chain so far go to its new end. -/
lemma redirects_apply {m : MethodId} (ha : a.Sound) {ids : List InstrId}
    (hids : ∀ id ∈ ids, a.program.IsJump id) (hl : a.Target l) :
    ∃ b, (ids.forM fun id => onProgram fun p => ((), p.setInstr id (.jump l))) (s.on a) =
        .ok ⟨⟩ (s.on b) ∧ a.Works m b ∧ a.Keeps b ∧
      b.program.instrs.size = a.program.instrs.size ∧ b.program.methods = a.program.methods ∧
      ∀ id, b.program.instr id = if id ∈ ids then .jump l else a.program.instr id := by
  induction ids generalizing a with
  | nil => exact ⟨a, rfl, Site.Works.refl ha, Site.Keeps.refl a, rfl, rfl, by simp⟩
  | cons id ids ih =>
    have hid := hids id List.mem_cons_self
    have hworks := ha.works_redirect (m := m) hid hl
    obtain ⟨b, hrun, hb, hkeep, hsize, hmethods, hinstr⟩ :=
      ih hworks.sound (fun x hx => hworks.jump x (hids x (List.mem_cons_of_mem _ hx)))
        (hworks.grows.target l hl)
    refine ⟨b, hrun, hworks.trans hb, ⟨hkeep.labels, hkeep.temps⟩, ?_, hmethods, ?_⟩
    · rw [hsize]
      simp [Site.redirect, Program.setInstr]
    · intro x
      rw [hinstr, Site.instr_redirect hid]
      by_cases hx : x ∈ ids
      · simp [hx]
      · by_cases hxid : x = id <;> simp [hx, hxid]

/-- An instruction goes before the label that ends the body. -/
lemma insertBeforeLabel_apply {before : List InstrId}
    (hbody : (a.program.method s.method).body.toList = before ++ [l]) (i : Instr) :
    insertBeforeLabel l i (s.on a) =
      .ok a.program.instrs.size (s.on (a.insert s.method i)) := by
  have hback : (a.program.method s.method).body.back? = some l := by
    rw [← Array.getLast?_toList, hbody]
    simp
  have hends : a.program.endsWithLabel s.method (some l) = true := by
    simp [Program.endsWithLabel, hback]
  have hinsert : a.program.insertBeforeLabel s.method (some l) i =
      .ok (a.program.instrs.size, (a.insert s.method i).program) := by
    unfold Program.insertBeforeLabel
    rw [if_pos hends]
    rfl
  have htry := tryProgram_of_ok (s := s.on a)
    (f := fun p => p.insertBeforeLabel s.method (some l) i) hinsert
  exact (bind_of_ok (get_apply _) _).trans ((bind_of_ok htry _).trans rfl)

/-- The block of a further branch was opened: the jumps out of the chain go to its end, and one more
stands before the end label of the branch before. -/
structure Chains (s : LowerState) (closed : ClosedBlock) (g : Frame) (l skip : InstrId)
    (t : LowerState) : Prop where
  state : t = s.build t.program t.scopes.frames
  works : s.site.Works s.method t.site
  frames : t.scopes.frames =
    { g with endLabel := some l, chainJumps := closed.chainJumps ++ [skip] } :: s.scopes.frames
  body : ∃ before last, closed.endLabel = some last ∧
    (s.program.method s.method).body.toList = before ++ [last] ∧
    (t.program.method s.method).body.toList = before ++ [skip, last]
  instr : ∀ id < s.program.instrs.size, t.program.instr id =
    if id ∈ closed.chainJumps then .jump l else s.program.instr id
  skip_jump : t.program.instr skip = .jump l
  skip_ge : s.program.instrs.size ≤ skip

lemma continueChain_ensures (hs : s.Sound) (hf : s.scopes.frames = f :: rest)
    (hfollows : f.Follows s.program s.method) (hopens : c.opensBlock = true)
    (hloop : c.isLoop = false) (hcond : c ≠ .condition) (coordinate : Coordinate) :
    Ensures (opened s c coordinate) (continueChain c)
      (fun _ t => (f.previous = some .ifBranch ∨ f.previous = some .elseIf) ∧ t.Sound ∧
        ∃ closed l skip, f.lastClosed = some closed ∧
          Chains s closed (.fresh c coordinate) l skip t)
      fun e t => t.errors = s.errors ∧ IsMisplaced e ∧
        ¬ (f.previous = some .ifBranch ∨ f.previous = some .elseIf) := by
  have hframes : (opened s c coordinate).scopes.frames =
      .fresh c coordinate :: f :: rest := congrArg (List.cons _) hf
  by_cases hprev : f.previous = some .ifBranch ∨ f.previous = some .elseIf
  · obtain ⟨closed, last, before, hclosed, hlast, hbody⟩ : ∃ closed l before,
        f.lastClosed = some closed ∧ closed.endLabel = some l ∧
          (s.program.method s.method).body.toList = before ++ [l] := by
      rcases hprev with h | h
      · exact hfollows.closed _ (by simp) h
      · exact hfollows.closed _ (by simp) h
    have hready : s.site.Ready (opened s c coordinate).method := hs.ready
    obtain ⟨_, _, b₁, _, hend, -, hadds, rfl, rfl, rfl, rfl⟩ := frameEnd_builds [] hready
      hframes rfl
    set l := s.site.program.instrs.size with hl
    set t₁ := (opened s c coordinate).build (opened s c coordinate).program
      ([] ++ (Frame.fresh c coordinate).withEnd l :: f :: rest) with ht₁
    have htarget : s.site.newLabel.Target l :=
      .inr (List.mem_append_right _ List.mem_cons_self)
    obtain ⟨b₂, hredirect, hworks₂, hkeep₂, hsize₂, hmethods₂, hinstr₂⟩ :=
      redirects_apply (s := t₁) (m := s.method) (a := s.site.newLabel) hadds.sound
        (l := l) (fun id hid => hadds.jump id
          ((hs.frames f (by simp [hf])).closed_chain closed hclosed id hid)) htarget
    have hbody₂ : (b₂.program.method t₁.method).body.toList = before ++ [last] := by
      unfold Program.method at hbody ⊢
      rw [hmethods₂]
      exact hbody
    have hm₂ : s.method < b₂.program.methods.size := by
      rw [hmethods₂]
      exact hs.method_lt
    have hworks₃ := hworks₂.sound.works_insert hm₂ hbody₂
      (accepts_jump (hworks₂.grows.target l htarget))
    set b₃ := b₂.insert s.method (.jump l) with hb₃
    set skip := b₂.program.instrs.size with hskip
    have hrun : continueChain c (opened s c coordinate) = .ok ⟨⟩ ((t₁.on b₃).build b₃.program
        ({ Frame.fresh c coordinate with
          endLabel := some l, chainJumps := closed.chainJumps ++ [skip] } :: f :: rest)) := by
      have hbranch : previousBranch c (opened s c coordinate) =
          .ok closed (opened s c coordinate) := by
        unfold previousBranch
        refine (bind_of_ok (parentIndex_apply hframes) _).trans ?_
        refine (bind_of_ok (frameAt_apply [_] hframes) _).trans ?_
        rw [hclosed]
        rcases hprev with h | h
        all_goals
          rw [h]
          rfl
      unfold continueChain
      refine (bind_of_ok hbranch _).trans ?_
      rw [hlast]
      refine (bind_of_ok (currentIndex_apply hframes) _).trans ?_
      refine (bind_of_ok hend _).trans ?_
      refine (bind_of_ok hredirect _).trans ?_
      refine (bind_of_ok (insertBeforeLabel_apply (s := t₁) hbody₂ _) _).trans ?_
      exact modifyCurrent_apply (s := t₁.on b₃) rfl _
    refine Ensures.of_ok hrun ⟨hprev, ?_⟩
    set t := (t₁.on b₃).build b₃.program ({ Frame.fresh c coordinate with
      endLabel := some l, chainJumps := closed.chainJumps ++ [skip] } :: f :: rest) with ht
    have hwork : s.site.Works s.method t.site := by
      refine ((hadds.toWorks.trans hworks₂).trans hworks₃).of_perm (b := b₃) ?_ ?_
      · rw [show b₃.labels = l :: s.site.labels from hkeep₂.labels]
        simp [ht, LowerState.build, LowerState.site, ScopeStack.endLabels, hf]
      · rw [show b₃.temps = s.site.temps from hkeep₂.temps]
        simp [ht, ht₁, LowerState.build, LowerState.site, ScopeStack.owned, hf, LowerState.on,
          opened, Frame.fresh, Frame.openedBy]
    have hsize : skip = s.program.instrs.size + 1 := by
      rw [hsize₂]
      simp [Site.newLabel, Program.newLabel, Program.alloc, LowerState.site]
    have hskip' : t.program.instr skip = .jump l := by
      rw [show t.program = b₃.program from rfl, hb₃, Site.instr_insert, if_pos hskip]
    have hchains : Chains s closed (.fresh c coordinate) l skip t := by
      refine ⟨rfl, hwork, by rw [hf]; rfl, ⟨before, last, hlast, hbody, ?_⟩, ?_, hskip',
        by omega⟩
      · exact Site.body_insert hm₂ hbody₂ _
      · intro id hid
        have hne : id ≠ skip := by
          rw [hsize]
          exact (Nat.lt_succ_of_lt hid).ne
        rw [show t.program = b₃.program from rfl, hb₃, Site.instr_insert, if_neg hne, hinstr₂]
        congr 1
        exact Program.instr_alloc_of_lt _ hid
    have hjumps : ∀ id ∈ closed.chainJumps ++ [skip], t.program.IsJump id := by
      intro id hid
      rcases List.mem_append.mp hid with hid | hid
      · exact hwork.jump id ((hs.frames f (by simp [hf])).closed_chain closed hclosed id hid)
      · exact ⟨l, List.mem_singleton.mp hid ▸ hskip'⟩
    refine ⟨hs.of_works hwork rfl (fun k hk => ?_) (fun e he => .inl he) rfl rfl, closed, l, skip,
      hclosed, hchains⟩
    rcases List.mem_cons.mp hk with rfl | hk
    · exact { Frame.sound_fresh hopens hloop hcond coordinate t.program with
        condition := fun h => absurd (Option.some.inj h) hcond
        root := fun h => by cases h
        chain := hjumps }
    · have hkept := hs.frame_works hwork (hf ▸ hk)
      exact hkept
  · have hrun : continueChain c (opened s c coordinate) =
        .error ⟨.misplaced (.mustFollow c "If or ElseIf"), some s.coordinate⟩
          (opened s c coordinate) := by
      unfold continueChain previousBranch
      refine bind_of_error ((bind_of_ok (parentIndex_apply hframes) _).trans ?_) _
      refine (bind_of_ok (frameAt_apply [_] hframes) _).trans ?_
      rcases h : f.previous with _ | c'
      · rfl
      · rw [h] at hprev
        cases c' with
        | ifBranch => exact absurd (.inl rfl) hprev
        | elseIf => exact absurd (.inr rfl) hprev
        | _ => rfl
    exact Ensures.of_error hrun ⟨rfl, ⟨_, rfl⟩, hprev⟩

end Lower

end TriggerCompiler
