import Mathlib
import TriggerCompiler.Proofs.Counting

/-!
# The end of a block

The end of a block pops its frame, adds the lines that its construct needs, gives back what the block
owned, and leaves a note of it in the block around. The end of a tested loop also puts the jump back
to its start in front of the label that ends its condition body.
-/

namespace TriggerCompiler

variable {labels : List InstrId} {c : Construct}

namespace Frame

/-- The block after one inside it was closed. -/
def after (f g : Frame) : Frame :=
  { f with previous := g.construct?, lastClosed := some g.closed }

lemma Sound.after {f g : Frame} {p : Program} (hf : f.Sound p) (hg : g.Sound p) :
    (f.after g).Sound p :=
  { hf with
    closed_chain := fun _ hc id hid => hg.chain id (by rw [← Option.some.inj hc] at hid; exact hid) }

/-- A block that may be closed: one that a condition steers has a condition body, which comes last
if it is a loop. -/
def Complete (g : Frame) : Prop :=
  (g.takesCondition = true → g.sawConditionBody = true) ∧
    (g.construct? = some .whileLoop → g.previous = some .conditionBody)

/-- The lines that end a block. -/
def closeLines (g : Frame) : List Line :=
  match g.construct? with
  | some .forLoop => g.startLabel.toList.map (.code <| .jump ·) ++ g.endLabel.toList.map .label
  | some .condition =>
    g.endLabel.toList.map .label ++ g.conditionResult.toList.map (.code <| .push ·)
  | _ => g.endLabel.toList.map .label

end Frame

/-- The state after a block was closed: its locals are out of sight, and the block around it has a
note of it. -/
def LowerState.finish (s : LowerState) (g : Frame) : LowerState :=
  { s with
    locals := s.locals.filter fun (id, _) => id ∉ g.localIds
    scopes := s.scopes.modifyCurrent (·.after g) }

namespace Lower

variable {s t : LowerState} {a b : Site} {f g : Frame} {rest : List Frame}

/-! ## What a block gives back -/

lemma releases_yields {ids others : List SlotId} (ha : a.Ready s.method)
    (h : a.temps.Perm (ids ++ others)) :
    Yields s a (ids.forM release) fun _ code b =>
      code = [] ∧ b.labels = a.labels ∧ b.temps.Perm others := by
  induction ids generalizing a with
  | nil => exact Yields.pure ha ⟨rfl, rfl, h⟩
  | cons id ids ih =>
    have hid : id ∈ a.temps := h.mem_iff.mpr List.mem_cons_self
    refine Yields.bind ha (release_yields ha hid) ?_
    rintro ⟨⟩ _ b - hb ⟨rfl, hlabels, htemps⟩
    refine (ih hb ?_).mono ?_
    · rw [htemps]
      exact (h.erase id).trans (by rw [List.cons_append, List.erase_cons_head])
    · rintro ⟨⟩ _ c - ⟨rfl, hlabels', htemps'⟩
      exact ⟨rfl, hlabels'.trans hlabels, htemps'⟩

lemma finishFrame_builds {others : List SlotId} (ha : a.Ready s.method)
    (h : a.temps.Perm (g.owned ++ others)) :
    Builds s a (finishFrame g) fun _ code b t =>
      code = [] ∧ b.labels = a.labels ∧ b.temps.Perm others ∧ t = s.finish g := by
  refine Builds.yields_bind ha (releases_yields ha h) ?_
  rintro ⟨⟩ _ b - hb ⟨rfl, hlabels, htemps⟩
  exact Builds.of_ok (t := s.finish g) hb.sound rfl rfl ⟨rfl, hlabels, htemps, rfl⟩

/-! ## What a construct adds at its end -/

lemma placeEnd_yields (ha : a.Ready s.method) (hconstruct : g.construct?.isSome = true)
    (hl : a.labels.Perm (g.endLabel.toList ++ labels)) :
    Yields s a (placeEnd g) fun g' code b => ∃ l, g' = g.withEnd l ∧ g.Fills g' ∧
      code = [.label l] ∧ b.labels.Perm labels ∧ b.temps = a.temps := by
  have hplace : ∀ (b : Site) (l : InstrId), b.Ready s.method → b.labels.Perm (l :: labels) →
      (∀ l', g.endLabel = some l' → l' = l) → b.temps = a.temps →
      Yields s b (place l >>= fun _ => pure (g.withEnd l)) fun g' code c => ∃ l, g' = g.withEnd l ∧
        g.Fills g' ∧ code = [.label l] ∧ c.labels.Perm labels ∧ c.temps = a.temps := by
    intro b l hb hlabels hself htemps
    refine Yields.bind hb (place_yields hb (hlabels.mem_iff.mpr List.mem_cons_self)) ?_
    rintro ⟨⟩ _ c - hc ⟨rfl, hlabels', htemps', -⟩
    refine Yields.pure hc ⟨l, rfl, Frame.Fills.withEnd hconstruct hself, rfl, ?_, htemps'.trans htemps⟩
    rw [hlabels']
    exact (hlabels.erase l).trans (by rw [List.erase_cons_head])
  unfold placeEnd closedEnd
  cases h : g.endLabel with
  | some l =>
    have hself : g = g.withEnd l := (Frame.withEnd_self h).symm
    rw [h] at hl
    have hrest := hplace a l ha hl (fun l' hl' => by rw [h] at hl'; exact (Option.some.inj hl').symm) rfl
    rw [← hself] at hrest
    exact hrest
  | none =>
    rw [h] at hl
    refine Yields.bind ha (P := fun r code b => ∃ l, r = (l, g.withEnd l) ∧ code = [] ∧
      b.labels = l :: a.labels ∧ b.temps = a.temps) ?_ ?_
    · refine Yields.bind ha (newLabel_yields ha) ?_
      rintro l _ b - hb ⟨rfl, hlabels, htemps⟩
      exact Yields.pure hb ⟨l, rfl, rfl, hlabels, htemps⟩
    · rintro _ _ b - hb ⟨l, rfl, rfl, hlabels, htemps⟩
      exact hplace b l hb (hlabels ▸ hl.cons l) (by simp [h]) htemps

lemma requireConditionBody_apply (c : Construct) (h : g.sawConditionBody = true) :
    requireConditionBody c g s = .ok ⟨⟩ s := by
  unfold requireConditionBody
  rw [h]
  rfl

lemma closedStart_apply {l : InstrId} (h : g.startLabel = some l) :
    closedStart g s = .ok (l, g) s := by
  unfold closedStart
  rw [h]
  rfl

/-- The end of a complete block that is no tested loop. -/
lemma closeConstruct_yields (ha : a.Ready s.method)
    (hl : a.labels.Perm (g.endLabel.toList ++ labels)) (hg : g.Sound a.program)
    (hc : g.construct? = some c) (hopens : c.opensBlock = true) (hwhile : c ≠ .whileLoop)
    (hcomplete : g.Complete) :
    Yields s a (closeConstruct c g) fun g' code b => g.Fills g' ∧ code = g'.closeLines ∧
      (c ≠ .block → g'.endLabel.isSome = true) ∧ b.labels.Perm labels ∧ b.temps = a.temps := by
  -- the cases whose only line is the label
  have hplain : g.construct? ≠ some .forLoop → g.construct? ≠ some .condition →
      Yields s a (placeEnd g) fun g' code b => g.Fills g' ∧ code = g'.closeLines ∧
        (c ≠ .block → g'.endLabel.isSome = true) ∧ b.labels.Perm labels ∧ b.temps = a.temps := by
    intro hfor hcond
    refine (placeEnd_yields ha (by simp [hc]) hl).mono ?_
    rintro g' _ b - ⟨l, rfl, hfills, rfl, hlabels, htemps⟩
    refine ⟨hfills, ?_, fun _ => rfl, hlabels, htemps⟩
    unfold Frame.closeLines
    rw [hfills.construct?]
    split
    · exact absurd ‹_› hfor
    · exact absurd ‹_› hcond
    · rfl
  cases c with
  | ifBranch | elseIf =>
    have hsaw : g.sawConditionBody = true :=
      hcomplete.1 (by simp [Frame.takesCondition, hc, Construct.takesCondition])
    obtain ⟨r, code, b, hrun, hrest⟩ := hplain (by simp [hc]) (by simp [hc])
    exact ⟨r, code, b, (bind_of_ok (requireConditionBody_apply _ hsaw) _).trans hrun, hrest⟩
  | elseBranch | conditionBody => exact hplain (by simp [hc]) (by simp [hc])
  | condition =>
    obtain ⟨r, hr⟩ := Option.isSome_iff_exists.mp (hg.isResult.mpr hc)
    refine Yields.bind ha (placeEnd_yields ha (by simp [hc]) hl) ?_
    rintro _ _ b hb hb' ⟨l, rfl, hfills, rfl, hlabels, htemps⟩
    rw [show (g.withEnd l).conditionResult = some r from hr]
    have hlt : r < b.program.slots.size :=
      (hg.result r hr).trans_le hb.grows.slots.size_le
    refine Yields.bind hb' (push_yields hb' hlt) ?_
    rintro ⟨⟩ _ d - hd ⟨rfl, hkeep⟩
    refine Yields.pure hd ⟨hfills, ?_, fun _ => rfl, ?_, ?_⟩
    · unfold Frame.closeLines
      rw [hfills.construct?, hc]
      simp [Frame.withEnd, hr]
    · rw [hkeep.labels]
      exact hlabels
    · rw [hkeep.temps, htemps]
  | forLoop =>
    obtain ⟨l, hstart⟩ := Option.isSome_iff_exists.mp
      (hg.start (by rw [hg.isLoop, hc]; rfl))
    have htarget : a.Target l := .inl (hg.start_placed l hstart)
    have hyields : Yields s a (emit (.jump l) >>= fun _ => placeEnd g) fun g' code b =>
        g.Fills g' ∧ code = g'.closeLines ∧ (Construct.forLoop ≠ .block →
          g'.endLabel.isSome = true) ∧ b.labels.Perm labels ∧ b.temps = a.temps := by
      refine Yields.bind ha (jump_yields ha htarget) ?_
      rintro ⟨⟩ _ b - hb ⟨rfl, hkeep⟩
      refine (placeEnd_yields hb (by simp [hc]) (hkeep.labels.symm ▸ hl)).mono ?_
      rintro _ _ d - ⟨l', rfl, hfills, rfl, hlabels, htemps⟩
      refine ⟨hfills, ?_, fun _ => rfl, hlabels, htemps.trans hkeep.temps⟩
      unfold Frame.closeLines
      rw [hfills.construct?, hc]
      simp [Frame.withEnd, hstart]
    obtain ⟨r, code, b, hrun, hrest⟩ := hyields
    exact ⟨r, code, b, (bind_of_ok (closedStart_apply hstart) _).trans hrun, hrest⟩
  | block =>
    unfold closeConstruct closePlainBlock
    cases hend : g.endLabel with
    | some l => exact hplain (by simp [hc]) (by simp [hc])
    | none =>
      refine Yields.pure ha ⟨Frame.Fills.refl g, ?_, by simp, by simpa [hend] using hl, rfl⟩
      unfold Frame.closeLines
      rw [hc, hend]
      rfl
  | whileLoop => exact absurd rfl hwhile
  | _ => cases hopens

/-- The end of a block that is not complete. -/
lemma closeConstruct_error (hc : g.construct? = some c) (hcomplete : ¬ g.Complete) :
    ∃ e, closeConstruct c g s = .error e s ∧ IsMisplaced e := by
  have htakes : g.takesCondition = c.takesCondition := by simp [Frame.takesCondition, hc]
  have hrequire : g.sawConditionBody = false → requireConditionBody c g s =
      .error ⟨.misplaced (.needsConditionBody c), g.coordinate.or (some s.coordinate)⟩ s := by
    intro h
    unfold requireConditionBody
    rw [h]
    rfl
  cases hsaw : g.sawConditionBody with
  | false =>
    cases c with
    | ifBranch | elseIf | whileLoop =>
      exact ⟨_, bind_of_error (hrequire hsaw) _, _, rfl⟩
    | _ =>
      refine absurd ⟨fun h => ?_, fun h => ?_⟩ hcomplete
      · rw [htakes] at h
        cases h
      · rw [hc] at h
        cases h
  | true =>
    obtain ⟨hwhile, hprev⟩ : g.construct? = some .whileLoop ∧
        g.previous ≠ some .conditionBody := by
      by_contra hno
      refine hcomplete ⟨fun _ => hsaw, fun h => ?_⟩
      by_contra hprev
      exact hno ⟨h, hprev⟩
    obtain rfl : c = .whileLoop := by simpa [hwhile] using hc.symm
    have hrun : closeWhile g s =
        .error ⟨.misplaced .conditionBodyNotLast, g.coordinate.or (some s.coordinate)⟩ s := by
      unfold closeWhile
      refine (bind_of_ok (requireConditionBody_apply _ hsaw) _).trans ?_
      split
      · exact absurd ‹_› hprev
      · rfl
    exact ⟨_, hrun, _, rfl⟩

/-- What the end of a tested loop does to the body: a jump to the start of the loop comes before the
label that ended it, and the label of the loop's end comes after. -/
structure Reenters (m : MethodId) (a : Site) (start l : InstrId) (b : Site) : Prop
    extends Site.Works m a b where
  arena : ∀ id < a.program.instrs.size, b.program.instr id = a.program.instr id
  body : ∃ before last back, (a.program.method m).body.toList = before ++ [last] ∧
    (b.program.method m).body.toList = before ++ [back, last, l] ∧
    a.program.instrs.size ≤ back ∧ b.program.instr back = .jump start ∧ b.program.instr l = .nop ∧
    (a.program.instrs.size ≤ l ∨ l ∈ a.labels)

/-- Work that adds no lines comes on top. -/
lemma Reenters.adds_nil {m : MethodId} {c : Site} {start l : InstrId}
    (h : Reenters m a start l b) (h' : b.Adds m [] c) (hm : m < a.program.methods.size) :
    Reenters m a start l c := by
  obtain ⟨before, last, back, hbody, hbody', hge, hback, hnop, hl⟩ := h.body
  obtain ⟨new, hnew, hnil, -⟩ := h'.body
  obtain rfl : new = [] := List.map_eq_nil_iff.mp hnil
  rw [List.append_nil, hbody'] at hnew
  have hlt : ∀ id ∈ [back, last, l], id < b.program.instrs.size := by
    intro id hid
    refine h.sound.body_lt (h.methods ▸ hm) ?_
    rw [hbody']
    exact List.mem_append_right _ hid
  refine ⟨h.toWorks.trans h'.toWorks, fun id hid => ?_, before, last, back, hbody, hnew, hge, ?_,
    ?_, hl⟩
  · rw [h'.arena id (hid.trans_le h.size_le), h.arena id hid]
  · rw [h'.arena back (hlt back (by simp)), hback]
  · rw [h'.arena l (hlt l (by simp)), hnop]

lemma closeWhile_apply (ha : a.Ready s.method) (hl : a.labels.Perm (g.endLabel.toList ++ labels))
    (hg : g.Sound a.program) (hc : g.construct? = some .whileLoop) (hcomplete : g.Complete)
    (hfollows : g.Follows a.program s.method) :
    ∃ start l b, closeWhile g (s.on a) = .ok (g.withEnd l) (s.on b) ∧ g.Fills (g.withEnd l) ∧
      g.startLabel = some start ∧ Reenters s.method a start l b ∧ b.labels.Perm labels ∧
      b.temps = a.temps := by
  have hsaw : g.sawConditionBody = true :=
    hcomplete.1 (by simp [Frame.takesCondition, hc, Construct.takesCondition])
  have hprev := hcomplete.2 hc
  obtain ⟨start, hstart⟩ := Option.isSome_iff_exists.mp
    (hg.start (by rw [hg.isLoop, hc]; rfl))
  obtain ⟨closed, last, before, hclosed, hlast, hbody⟩ := hfollows.closed _ (by simp) hprev
  have hworks := ha.sound.works_insert ha.method_lt hbody
    (accepts_jump (.inl (hg.start_placed start hstart)))
  have hready := hworks.ready ha
  obtain ⟨_, _, b, hend, hadds, l, rfl, hfills, rfl, hlabels, htemps⟩ :=
    placeEnd_yields (g := g) hready (by simp [hc]) hl
  refine ⟨start, l, b, ?_, hfills, hstart, ⟨hworks.trans hadds.toWorks, ?_, ?_⟩, hlabels, htemps⟩
  · unfold closeWhile
    refine (bind_of_ok (requireConditionBody_apply _ hsaw) _).trans ?_
    rw [hprev, hclosed]
    dsimp only
    rw [hlast]
    refine (bind_of_ok (closedStart_apply hstart) _).trans ?_
    refine (bind_of_ok (insertBeforeLabel_apply hbody _) _).trans ?_
    exact hend
  · intro id hid
    rw [hadds.arena id (hid.trans_le hworks.size_le), Site.instr_insert, if_neg hid.ne]
  · obtain ⟨new, hnew, hline, hin⟩ := hadds.body
    obtain ⟨x, rfl, hx⟩ := List.map_eq_singleton_iff.mp hline
    rw [Site.body_insert ha.method_lt hbody] at hnew
    obtain ⟨hnop, rfl⟩ := Program.line_eq_label.mp hx
    refine ⟨before, last, a.program.instrs.size, hbody, by simpa using hnew, le_rfl, ?_, hnop, ?_⟩
    · rw [hadds.arena, Site.instr_insert, if_pos rfl]
      have hsize : (a.insert s.method (.jump start)).program.instrs.size =
          a.program.instrs.size + 1 := by
        simp [Site.insert, Program.alloc, Program.modifyMethod]
      exact hsize ▸ Nat.lt_succ_self _
    · exact (hin x (by simp)).imp (hworks.size_le.trans ·) id

/-! ## Closing a block -/

/-- From one state to the other the innermost block was closed. -/
structure Closes (s : LowerState) (g f : Frame) (rest : List Frame) (t : LowerState) : Prop where
  state : t = { s.build t.program (f.after g :: rest) with
    locals := s.locals.filter fun (id, _) => id ∉ g.localIds }
  works : s.site.Works s.method t.site
  lines : g.construct? ≠ some .whileLoop → s.site.Adds s.method g.closeLines t.site
  reenters : g.construct? = some .whileLoop → ∃ start l, g.startLabel = some start ∧
    g.endLabel = some l ∧ Reenters s.method s.site start l t.site
  ending : g.construct? ≠ some .block → g.endLabel.isSome = true

/-- The state in which the innermost block has just been popped. -/
def popped (s : LowerState) (f : Frame) (rest : List Frame) : LowerState :=
  s.build s.program (f :: rest)

lemma finishFrame_apply {g' : Frame} (hs : s.Sound) (hf : s.scopes.frames = g :: f :: rest)
    (hfills : g.Fills g') (hworks : s.site.Works s.method b)
    (hlabels : b.labels.Perm (⟨f :: rest⟩ : ScopeStack).endLabels)
    (htemps : b.temps = s.site.temps) :
    ∃ t, finishFrame g' ((popped s f rest).on b) = .ok ⟨⟩ t ∧ t.Sound ∧
      t = { s.build t.program (f.after g' :: rest) with
        locals := s.locals.filter fun (id, _) => id ∉ g'.localIds } ∧
      b.Adds s.method [] t.site := by
  have howned : b.temps.Perm
      (g'.owned ++ ((⟨f :: rest⟩ : ScopeStack).owned ++ s.pending.toList)) := by
    rw [htemps, hfills.same]
    simp [LowerState.site, ScopeStack.owned, hf]
  obtain ⟨_, _, c, _, hrun, -, hadds, rfl, hlabels', htemps', rfl⟩ :=
    finishFrame_builds (s := popped s f rest) (hworks.ready hs.ready) howned
  set t := ((popped s f rest).finish g').on c with ht
  have hadds' : b.Adds s.method [] t.site := by
    refine hadds.of_perm (b := c) ?_ ?_
    · rw [hlabels']
      exact hlabels.symm
    · exact htemps'.symm
  have hwork := hworks.trans hadds'.toWorks
  have hgf : ∀ k ∈ g :: f :: rest, k.Sound t.program := fun k hk => hs.frame_works hwork (hf ▸ hk)
  refine ⟨t, hrun, hs.of_works hwork rfl (fun k hk => ?_) (fun e he => .inl ?_) rfl rfl, rfl, hadds'⟩
  · rcases List.mem_cons.mp hk with rfl | hk
    · exact (hgf f (by simp)).after (hfills.sound (hgf g (by simp)))
    · exact hgf k (by simp [hk])
  · exact (List.mem_filter.mp he).1

lemma endLabels_cons (g : Frame) (frames : List Frame) :
    (⟨g :: frames⟩ : ScopeStack).endLabels =
      g.endLabel.toList ++ (⟨frames⟩ : ScopeStack).endLabels := by
  unfold ScopeStack.endLabels
  cases h : g.endLabel <;> simp [h]

section

variable (env : Environment) (hs : s.Sound) (hf : s.scopes.frames = g :: f :: rest)
  (hc : g.opener = some (.construct c)) (hfollows : g.Follows s.program s.method)
include env hs hf hc hfollows

/-- A complete block can be closed. -/
lemma closeOpener_closes (hcomplete : g.Complete) :
    ∃ g' t u, closeOpener env g (popped s f rest) = .ok g' u ∧ finishFrame g' u = .ok ⟨⟩ t ∧
      g.Fills g' ∧ t.Sound ∧ Closes s g' f rest t := by
  have hg := hs.frames g (by simp [hf])
  have hconstruct : g.construct? = some c := by simp [Frame.construct?, hc, Opener.construct?]
  have hopens : c.opensBlock = true := by
    rcases hg.opener with h | ⟨c', h, hopens⟩
    · rw [hc] at h
      cases h
    · rw [hc] at h
      cases h
      exact hopens
  have hlabels : s.site.labels.Perm
      (g.endLabel.toList ++ (⟨f :: rest⟩ : ScopeStack).endLabels) := by
    rw [← endLabels_cons, ← hf]
    exact List.Perm.refl _
  have hrun : ∀ u r, closeConstruct c g ((popped s f rest).on s.site) = .ok r u →
      closeOpener env g (popped s f rest) = .ok r u := by
    intro u r h
    unfold closeOpener
    rw [hc]
    exact h
  by_cases hwhile : c = .whileLoop
  · subst hwhile
    obtain ⟨start, l, b, hclose, hfills, hstart, hreenters, hlabels', htemps⟩ :=
      closeWhile_apply (s := popped s f rest) hs.ready hlabels hg hconstruct hcomplete hfollows
    obtain ⟨t, hfinish, hsound, hstate, hadds⟩ :=
      finishFrame_apply hs hf hfills hreenters.toWorks hlabels' htemps
    refine ⟨_, t, _, hrun _ _ hclose, hfinish, hfills, hsound, hstate,
      hreenters.toWorks.trans hadds.toWorks, fun h => absurd hconstruct h, fun _ => ?_, fun _ => rfl⟩
    exact ⟨start, l, hstart, rfl, hreenters.adds_nil hadds hs.method_lt⟩
  · obtain ⟨g', _, b, hclose, hadds, hfills, rfl, hend, hlabels', htemps⟩ :=
      closeConstruct_yields (s := popped s f rest) hs.ready hlabels hg hconstruct hopens hwhile
        hcomplete
    obtain ⟨t, hfinish, hsound, hstate, hadds'⟩ :=
      finishFrame_apply hs hf hfills hadds.toWorks hlabels' htemps
    have hall : s.site.Adds s.method g'.closeLines t.site := by
      have htrans := hadds.trans hadds' hs.method_lt
      rwa [List.append_nil] at htrans
    have hconstruct' : g'.construct? = some c := hfills.construct?.trans hconstruct
    refine ⟨g', t, _, hrun _ _ hclose, hfinish, hfills, hsound, hstate, hall.toWorks,
      fun _ => hall, fun h => ?_, fun h => hend ?_⟩
    · rw [hconstruct'] at h
      exact absurd (Option.some.inj h) hwhile
    · rintro rfl
      exact h hconstruct'

/-- The innermost block can be closed if and only if it is complete. -/
lemma closeBlock_ensures :
    Ensures s (closeBlock env)
      (fun _ t => g.Complete ∧ t.Sound ∧ ∃ g', g.Fills g' ∧ Closes s g' f rest t)
      fun e t => t.errors = s.errors ∧ IsMisplaced e ∧ ¬ g.Complete := by
  have hdepth : ¬ s.scopes.depth ≤ 1 := by simp [ScopeStack.depth, hf]
  unfold closeBlock
  refine Ensures.step (get_apply s) ?_
  extract_lets close
  refine Ensures.check (fun h => absurd h hdepth) fun _ => ?_
  by_cases hcomplete : g.Complete
  · obtain ⟨g', t, u, hclose, hfinish, hfills, hsound, hcloses⟩ :=
      closeOpener_closes env hs hf hc hfollows hcomplete
    have hrun : close () s = .ok ⟨⟩ t := by
      unfold close
      refine (bind_of_ok (popFrame_apply hf) _).trans ?_
      have hattempt : attempt (closeOpener env g) (popped s f rest) = .ok (.ok g') u := by
        unfold attempt
        rw [hclose]
      exact (bind_of_ok hattempt _).trans hfinish
    exact Ensures.of_ok hrun ⟨hcomplete, hsound, g', hfills, hcloses⟩
  · have hconstruct : g.construct? = some c := by simp [Frame.construct?, hc, Opener.construct?]
    obtain ⟨e, herror, he⟩ := closeConstruct_error (s := popped s f rest) hconstruct hcomplete
    have howned : s.site.temps.Perm
        (g.owned ++ ((⟨f :: rest⟩ : ScopeStack).owned ++ s.pending.toList)) := by
      simp [LowerState.site, ScopeStack.owned, hf]
    obtain ⟨_, _, b, _, hfinish, -, -, -, -, -, rfl⟩ :=
      finishFrame_builds (s := popped s f rest) hs.ready howned
    have hrun : close () s = .error e (((popped s f rest).finish g).on b) := by
      unfold close
      refine (bind_of_ok (popFrame_apply hf) _).trans ?_
      have hattempt : attempt (closeOpener env g) (popped s f rest) =
          .ok (.error e) (popped s f rest) := by
        unfold attempt closeOpener
        rw [hc]
        dsimp only
        rw [herror]
      exact (bind_of_ok hattempt _).trans ((bind_of_ok hfinish _).trans rfl)
    exact Ensures.of_error hrun ⟨rfl, he, hcomplete⟩

end

/-- What a closed block leaves at the end of the body is as the block around it says. -/
lemma Closes.follows (h : Closes s g f rest t) (hg : g.Sound t.program) :
    (f.after g).Follows t.program t.method := by
  have hmethod : t.method = s.method := by
    rw [h.state]
    rfl
  rw [hmethod]
  constructor
  · intro hprev
    have hcond : g.construct? = some .condition := hprev
    have hadds := h.lines (by rw [hcond]; decide)
    obtain ⟨l, hl⟩ := Option.isSome_iff_exists.mp (h.ending (by rw [hcond]; decide))
    obtain ⟨r, hr⟩ := Option.isSome_iff_exists.mp (hg.isResult.mpr hcond)
    obtain ⟨new, hbody, hnew, -⟩ := hadds.body
    rw [show g.closeLines = [.label l, .code (.push r)] by
      simp [Frame.closeLines, hcond, hl, hr]] at hnew
    obtain ⟨x, y, rfl⟩ : ∃ x y, new = [x, y] :=
      List.length_eq_two.mp (by simpa using congrArg List.length hnew)
    simp only [List.map_cons, List.map_nil, List.cons.injEq, and_true, Program.line_eq_label,
      Program.line_eq_code] at hnew
    refine ⟨r, ?_⟩
    unfold Program.tail
    dsimp only
    rw [show (t.program.method s.method).body.toList = _ from hbody]
    simpa using ⟨hnew.1.1, hnew.2.1⟩
  · intro c hc hprev
    have hconstruct : g.construct? = some c := hprev
    obtain ⟨hwhile, hblock, hlines⟩ : c ≠ .whileLoop ∧ c ≠ .block ∧
        g.closeLines = g.endLabel.toList.map .label := by
      simp only [List.mem_cons, List.not_mem_nil, or_false] at hc
      rcases hc with rfl | rfl | rfl <;> simp [Frame.closeLines, hconstruct]
    obtain ⟨l, hl⟩ := Option.isSome_iff_exists.mp
      (h.ending (by rw [hconstruct]; simpa using hblock))
    obtain ⟨new, hbody, hnew, -⟩ := (h.lines (by rw [hconstruct]; simpa using hwhile)).body
    rw [hlines, hl] at hnew
    obtain ⟨x, rfl, hx⟩ := List.map_eq_singleton_iff.mp hnew
    obtain ⟨-, rfl⟩ := Program.line_eq_label.mp hx
    exact ⟨g.closed, x, _, rfl, hl, hbody⟩

end Lower

end TriggerCompiler
