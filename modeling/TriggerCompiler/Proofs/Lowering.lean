import Mathlib
import TriggerCompiler.Proofs.Actions
import TriggerCompiler.Proofs.Groups

/-!
# Actions in a row

Between two actions of a body the state is settled: nothing waits to be given back, and what the
innermost block remembers of the last action is what stands at the end of the code. An action is
lowered by its definition and leaves a settled state, or the compile ends.
-/

namespace TriggerCompiler

variable {m : MethodId} {env : Environment} {index : Nat}

/-- A state between two actions of a body. -/
structure LowerState.Settled (s : LowerState) : Prop where
  sound : s.Sound
  pending : s.pending = #[]
  follows : ∃ f rest, s.scopes.frames = f :: rest ∧ f.Follows s.program s.method
  openers : ∃ inner : List Opener, s.scopes.frames.map (·.opener) = inner.map some ++ [none]

/-- What the last action of a block left at the end of the body is still there if no lines were
added. -/
lemma Frame.Follows.adds_nil {f g : Frame} {a b : Site} (h : f.Follows a.program m) (ha : a.Sound)
    (hm : m < a.program.methods.size) (hadds : a.Adds m [] b) (hprev : g.previous = f.previous)
    (hlast : g.lastClosed = f.lastClosed) : g.Follows b.program m := by
  obtain ⟨new, hbody, hnew, -⟩ := hadds.body
  obtain rfl : new = [] := List.map_eq_nil_iff.mp hnew
  rw [List.append_nil] at hbody
  constructor
  · intro hg
    obtain ⟨slot, htail⟩ := h.condition (hprev ▸ hg)
    refine ⟨slot, ?_⟩
    rw [← htail]
    unfold Program.tail
    dsimp only
    rw [hbody]
    refine List.map_congr_left fun id hid => hadds.arena id ?_
    exact ha.body_lt hm (List.mem_of_mem_drop hid)
  · intro c hc hg
    rw [hbody, hlast]
    exact h.closed c hc (hprev ▸ hg)

/-- What the program of one state has, that of a later one has too. -/
structure LowerState.Evolves (s t : LowerState) : Prop where
  grows : s.site.Grows t.site
  methods_le : s.program.methods.size ≤ t.program.methods.size

namespace LowerState.Evolves

variable {s t u : LowerState}

lemma trans (h : s.Evolves t) (h' : t.Evolves u) : s.Evolves u :=
  ⟨h.grows.trans h'.grows, h.methods_le.trans h'.methods_le⟩

lemma of_works (h : s.site.Works m t.site) : s.Evolves t :=
  ⟨h.grows, h.methods.ge⟩

end LowerState.Evolves

/-- An action that the compiler lowers itself: a construct as it is built in, a host call, or an
action of a group. -/
def ActionDef.IsPlain (d : ActionDef) : Prop :=
  match d.kind with
  | .construct c => d.parameters = c.parameters
  | .host _ _ | .group _ _ => True
  | .script _ => False

lemma ActionDef.kind_of_construct? {d : ActionDef} {c : Construct} (h : d.construct? = some c) :
    d.kind = .construct c := by
  unfold construct? at h
  split at h
  · rename_i hkind
    rw [hkind, Option.some.inj h]
  · cases h

namespace Lower

variable {s t u : LowerState} {f g : Frame} {rest : List Frame} {d : ActionDef} {a : Action}

/-! ## What is given back -/

/-- Giving placeholders back cannot fail. -/
lemma releases_apply (ids : List SlotId) (s : LowerState) :
    ∃ p, (ids.forM release) s = .ok ⟨⟩ { s with program := p } := by
  induction ids generalizing s with
  | nil => exact ⟨s.program, rfl⟩
  | cons id ids ih =>
    obtain ⟨p, hp⟩ := ih { s with program :=
      { s.program with slots := s.program.slots.release id } }
    exact ⟨p, (bind_of_ok rfl _).trans hp⟩

lemma releasePending_apply (s : LowerState) :
    ∃ p, releasePending s = .ok ⟨⟩ { s with program := p, pending := #[] } := by
  obtain ⟨p, hp⟩ := releases_apply s.pending.toList.reverse s
  exact ⟨p, (bind_of_ok hp _).trans rfl⟩

lemma releasePending_adds (hs : s.Sound) :
    ∃ p, releasePending s = .ok ⟨⟩ { s with program := p, pending := #[] } ∧
      s.site.Adds s.method [] (LowerState.site { s with program := p, pending := #[] }) := by
  have hperm : s.site.temps.Perm (s.pending.toList.reverse ++ s.scopes.owned) :=
    List.perm_append_comm.trans ((List.reverse_perm _).symm.append_right _)
  obtain ⟨_, _, b, hrun, hadds, rfl, hlabels, htemps⟩ := releases_yields hs.ready hperm
  refine ⟨b.program, (bind_of_ok hrun _).trans rfl, hadds.of_perm (b := b) ?_ ?_⟩
  · rw [hlabels]
    exact List.Perm.refl _
  · simpa [LowerState.site] using htemps.symm

/-! ## The end of a block -/

/-- Whether a block can be closed depends on its shape. -/
lemma closeBlock_settled (env : Environment) (hs : s.Settled) :
    Ensures s (closeBlock env)
      (fun _ t => Shape.admits .blockEnd s.scopes.shapes = true ∧ t.Sound ∧
        ∃ g g' f rest, s.scopes.frames = g :: f :: rest ∧ g.Fills g' ∧ Closes s g' f rest t)
      (Refused s .blockEnd) := by
  obtain ⟨g, rest, hf, hfollows⟩ := hs.follows
  cases rest with
  | nil =>
    have hdepth : s.scopes.depth ≤ 1 := by simp [ScopeStack.depth, hf]
    have hrun : closeBlock env s = .error ⟨.misplaced .nothingOpen, some s.coordinate⟩ s := by
      unfold closeBlock
      rw [bind_of_ok (get_apply s), if_pos hdepth]
      rfl
    refine Ensures.of_error hrun ⟨.inl ⟨_, rfl⟩, rfl, ?_⟩
    simp [ScopeStack.shapes, hf, Shape.admits]
  | cons f rest =>
    have hsound := hs.sound.frames g (by simp [hf])
    obtain ⟨c, hc⟩ : ∃ c, g.opener = some (.construct c) := by
      rcases hsound.opener with h | ⟨c, h, -⟩
      · obtain ⟨inner, hinner⟩ := hs.openers
        rw [hf, List.map_cons, h] at hinner
        cases inner <;> simp at hinner
      · exact ⟨c, h⟩
    have hadmits : Shape.admits .blockEnd s.scopes.shapes = g.shape.isComplete := by
      unfold ScopeStack.shapes
      rw [hf]
      rfl
    rw [hadmits]
    refine (closeBlock_ensures env hs.sound hf hc hfollows).mono ?_ ?_
    · rintro ⟨⟩ t ⟨hcomplete, hsound, g', hfills, hcloses⟩
      exact ⟨g.isComplete_shape.mpr hcomplete, hsound, g, g', f, rest, hf, hfills, hcloses⟩
    · rintro e t ⟨herrors, he, hcomplete⟩
      exact ⟨he.isStructural, herrors, hadmits ▸
        Bool.eq_false_iff.mpr fun h => hcomplete (g.isComplete_shape.mp h)⟩

/-! ## Definitions -/

/-- The step of a counting loop is checked before anything is bound. -/
lemma checkStep_ensures (d : ActionDef) (a : Action) (s : LowerState) :
    Ensures s (checkStep d a) (fun _ t => t = s)
      fun e t => t = s ∧ ∃ fault, e.kind = .badLoop fault := by
  unfold checkStep
  split_ifs
  · split
    · exact Ensures.of_error rfl ⟨rfl, _, rfl⟩
    · exact Ensures.of_error rfl ⟨rfl, _, rfl⟩
    · exact Ensures.of_ok rfl rfl
  · exact Ensures.of_ok rfl rfl

/-- An action that does not end a block is bound and then lowered. -/
lemma lowerDefinition_ensures {P : PUnit → LowerState → Prop} {E : CompileError → LowerState → Prop}
    (hd : d.construct? ≠ some .blockEnd)
    (hstep : d.construct? = some .forLoop → ∀ e u, checkStep d a s = .error e u → E e u)
    (h : Ensures s (bindAction d a >>= lowerBound env) P E) :
    Ensures s (lowerDefinition env d a) P E := by
  unfold lowerDefinition
  split
  · exact absurd ‹_› hd
  · split_ifs with hfor
    · have hcheck : Ensures s (checkStep d a) (fun _ t => t = s) E := by
        have hx := checkStep_ensures d a s
        unfold Ensures at hx ⊢
        cases hrun : checkStep d a s with
        | ok r u =>
          rw [hrun] at hx
          exact hx
        | error e u => exact hstep hfor e u hrun
      refine Ensures.bind hcheck ?_
      rintro ⟨⟩ _ - rfl
      exact h
    · exact h

lemma Prepares.shapes (h : Prepares s t) : t.scopes.shapes = s.scopes.shapes := by
  obtain ⟨f, rest, new, hf, hf', -⟩ := h.locals
  unfold ScopeStack.shapes
  rw [hf, hf']
  rfl

lemma Prepares.errors (h : Prepares s t) : t.errors = s.errors := by
  obtain ⟨p, frames, references, used, locals, pending, rfl⟩ := h.state
  rfl

/-- The action is bound in the one state, which leaves the other. -/
structure BoundFrom (d : ActionDef) (a : Action) (s : LowerState) (r : BoundAction)
    (t : LowerState) : Prop extends Bound d a t r where
  run : bindAction d a s = .ok r t

/-- What the lowering of an action has done when it succeeds. -/
inductive Lowered (env : Environment) (d : ActionDef) (a : Action) (s t : LowerState) : Prop where
  | statement {c : Construct} {r : BoundAction} {s₁ : LowerState} {code : List Line}
      (kind : d.kind = .construct c) (plain : c.opensBlock = false) (noEnd : c ≠ .blockEnd)
      (prepares : Prepares s s₁) (bound : BoundFrom d a s r s₁) (emits : Emits s₁ code t)
      (lines : ∀ x : Exits, x.Agrees t →
        StatementLines t.setting s₁.site.temps x s₁.scopes.result? c r.inputs code)
  | call {signature : String} {onType : Option ValueType} {r : BoundAction} {s₁ : LowerState}
      {code : List Line} {targets : List SlotId} (kind : d.kind = .host signature onType)
      (prepares : Prepares s s₁) (bound : BoundFrom d a s r s₁) (emits : Emits s₁ code t)
      (chosen : CallTargets t.program.slots onType r targets)
      (lines : HostLines t.setting s₁.site.temps signature targets r code)
  | group {guid action : String} {r : BoundAction} {s₁ : LowerState}
      (kind : d.kind = .group guid action) (prepares : Prepares s s₁) (bound : BoundFrom d a s r s₁)
      (calls : CallsGroup env guid action r s₁ t)
  | opener {c : Construct} {r : BoundAction} {s₁ : LowerState} {f : Frame} {rest : List Frame}
      (kind : d.kind = .construct c) (opens : c.opensBlock = true) (prepares : Prepares s s₁)
      (bound : BoundFrom d a s r s₁) (frames : s₁.scopes.frames = f :: rest)
      (block : OpensBlock s₁ f c r t)
  | closer {g g' f : Frame} {rest : List Frame} (kind : d.kind = .construct .blockEnd)
      (frames : s.scopes.frames = g :: f :: rest) (fills : g.Fills g') (closes : Closes s g' f rest t)

/-- The bindings of an action are wrong, or its types do not fit if it is an assignment. -/
def Unbindable (d : ActionDef) (a : Action) (s : LowerState) (e : CompileError) (t : LowerState) :
    Prop :=
  bindAction d a s = .error e t ∨ d.construct? = some .setVariable ∧
    ∃ r, bindAction d a s = .ok r t ∧ setVariable r t = .error e t

/-- Why the lowering of an action has failed: its bindings are wrong, which leaves the code as it
was, the step of a loop is, it stands where it may not, or its group cannot be called. -/
inductive Failed (d : ActionDef) (a : Action) (s : LowerState) (e : CompileError)
    (t : LowerState) : Prop where
  | binding (error : IsBindingError e) (prepares : Prepares s t) (cause : Unbindable d a s e t)
  | step (loop : d.construct? = some .forLoop) (cause : checkStep d a s = .error e t)
      (same : t = s) (error : ∃ fault, e.kind = .badLoop fault)
  | place {c : Construct} (construct : d.construct? = some c) (refused : Refused s c e t)
  | group {guid action : String} (kind : d.kind = .group guid action) (error : IsGroupError e)
      (errors : t.errors = s.errors)

/-- Lowering that fails reports nothing by itself. -/
lemma Failed.errors {e : CompileError} (h : Failed d a s e t) : t.errors = s.errors := by
  cases h with
  | binding error prepares cause => exact prepares.errors
  | step loop cause same error => rw [same]
  | place construct refused => exact refused.errors
  | group kind error errors => exact errors

/-- The lowering of an action. -/
lemma lowerDefinition_lowered (henv : SoundGroups env.registry) (hs : s.Settled)
    (hd : ActionDef.IsPlain d) (hplain : ∀ b ∈ a.inputs ++ a.targets, b.holdsAddress = false) :
    Ensures s (lowerDefinition env d a)
      (fun _ t => t.Sound ∧ (∀ c, d.construct? = some c → Shape.admits c s.scopes.shapes = true) ∧
        Lowered env d a s t)
      (Failed d a s) := by
  obtain ⟨f, rest, hf, hfollows⟩ := hs.follows
  by_cases hend : d.construct? = some .blockEnd
  · have hrun : lowerDefinition env d a = closeBlock env := by
      unfold lowerDefinition
      rw [hend]
    have hkind := ActionDef.kind_of_construct? hend
    rw [hrun]
    refine (closeBlock_settled env hs).mono ?_ ?_
    · rintro ⟨⟩ t ⟨hadmits, hsound, g, g', f, rest, hf, hfills, hcloses⟩
      refine ⟨hsound, fun c hc => ?_, .closer hkind hf hfills hcloses⟩
      rw [hend] at hc
      exact Option.some.inj hc ▸ hadmits
    · exact fun e t hrefused => .place hend hrefused
  refine lowerDefinition_ensures hend (fun hfor e u hrun => ?_) ?_
  · obtain ⟨hsame, herror⟩ := (checkStep_ensures d a s).error hrun
    exact .step hfor hrun hsame herror
  -- the bindings come first, whatever the action is
  have hbinds := bindAction_binds hs.sound hf d a hplain
  have hbind : Ensures s (bindAction d a) (fun r u => Prepares s u ∧ BoundFrom d a s r u)
      (Failed d a s) := by
    cases hrun : bindAction d a s with
    | ok r u =>
      obtain ⟨hprep, hbound⟩ := Ensures.ok hbinds hrun
      exact Ensures.of_ok hrun ⟨hprep, hbound, hrun⟩
    | error e u =>
      obtain ⟨hprep, herror⟩ := Ensures.error hbinds hrun
      exact Ensures.of_error hrun (.binding herror hprep (.inl hrun))
  refine Ensures.bind hbind ?_
  rintro r s₁ - ⟨hprep, hbound⟩
  have hs₁ := hprep.sound hs.sound
  have hshapes := hprep.shapes
  obtain ⟨f, rest, new, hf, hf₁, -⟩ := hprep.locals
  have hin := hbound.input_lt hs₁
  have hlength := hbound.input_length
  unfold lowerBound
  rw [hbound.definition]
  unfold ActionDef.IsPlain at hd
  cases hkind : d.kind with
  | construct c =>
    have hconstruct : d.construct? = some c := by simp [ActionDef.construct?, hkind]
    rw [hkind] at hd
    rw [show d.parameters = c.parameters from hd] at hlength
    have hfails : ∀ e t, Refused s₁ c e t → Failed d a s e t := fun e t h =>
      .place hconstruct ⟨h.error, h.errors.trans hprep.errors, hshapes ▸ h.shapes⟩
    have hadmits : Shape.admits c s₁.scopes.shapes = true →
        ∀ c', d.construct? = some c' → Shape.admits c' s.scopes.shapes = true := by
      intro h c' hc'
      rw [hconstruct] at hc'
      exact Option.some.inj hc' ▸ hshapes ▸ h
    cases hopens : c.opensBlock with
    | true =>
      have hfollows₁ : (f.declare new).Follows s₁.program s₁.method := by
        obtain ⟨f', rest', hf', hfollows⟩ := hs.follows
        obtain ⟨rfl, rfl⟩ := List.cons.inj (hf.symm.trans hf')
        rw [hprep.method]
        exact Frame.Follows.adds_nil (f := f) (a := s.site) (b := s₁.site) hfollows hs.sound.site
          hs.sound.method_lt hprep.adds rfl rfl
      dsimp only
      rw [hopens]
      refine Ensures.step (openBlock_apply c r) ?_
      refine (lowerOpener_ensures hs₁ hf₁ hfollows₁ hopens hlength hin).mono ?_ hfails
      rintro ⟨⟩ t ⟨haccepts, hsound, hblock⟩
      exact ⟨hsound, hadmits haccepts, .opener hkind hopens hprep hbound hf₁ hblock⟩
    | false =>
      have hnoEnd : c ≠ .blockEnd := fun h => hend (h ▸ hconstruct)
      dsimp only
      rw [hopens]
      have hstatement := lowerStatement_ensures hs₁ hopens hnoEnd hlength hin
      cases hrun : lowerConstruct c r s₁ with
      | ok _ t =>
        obtain ⟨haccepts, code, hemits, hlines⟩ := hstatement.ok hrun
        exact Ensures.of_ok hrun ⟨hemits.sound hs₁, hadmits haccepts,
          .statement hkind hopens hnoEnd hprep hbound hemits hlines⟩
      | error e t =>
        refine Ensures.of_error hrun ?_
        rcases hstatement.error hrun with h | ⟨rfl, rfl, he⟩
        · exact hfails e t h
        · exact .binding (.inl he) hprep (.inr ⟨hconstruct, r, hbound.run, hrun⟩)
  | host signature onType =>
    obtain ⟨code, targets, t, hrun, hemits, -, hnone, hlines⟩ :=
      hostCall_emits hs₁ signature onType hin (hbound.target_lt hs₁)
    refine Ensures.of_ok hrun ⟨hemits.sound hs₁, fun c hc => ?_,
      .call hkind hprep hbound hemits hnone hlines⟩
    simp [ActionDef.construct?, hkind] at hc
  | script x =>
    rw [hkind] at hd
    exact hd.elim
  | group guid action =>
    have hconstruct : d.construct? = none := by simp [ActionDef.construct?, hkind]
    refine (groupCall_ensures hs₁ henv guid action hin).mono ?_ ?_
    · rintro ⟨⟩ t hcalls
      refine ⟨hcalls.expands.sound, fun c hc => ?_, .group hkind hprep hbound hcalls⟩
      rw [hconstruct] at hc
      cases hc
    · rintro e t ⟨he, herrors⟩
      exact .group hkind he (herrors.trans hprep.errors)

/-! ## One action of a body -/

/-- The state at an action of the body. -/
def atAction (s : LowerState) (index : Nat) (id : String) : LowerState :=
  { s with coordinate := .inBody s.event index id }

/-- The innermost block remembers the action, unless that opened or closed a block. -/
def remember (d : ActionDef) (scopes : ScopeStack) : ScopeStack :=
  if d.affectsBlocks then scopes
  else scopes.modifyCurrent fun f => { f with previous := d.construct? }

/-- After an action the placeholders are given back, and the innermost block remembers it. -/
structure Settles (u : LowerState) (d : ActionDef) (t : LowerState) : Prop where
  state : t = { u with program := t.program, scopes := remember d u.scopes, pending := #[] }
  adds : u.site.Adds u.method [] t.site

lemma site_remember (d : ActionDef) (u : LowerState) :
    LowerState.site { u with scopes := remember d u.scopes } = u.site := by
  unfold LowerState.site remember
  split_ifs
  · rfl
  · have hframes : (u.scopes.modifyCurrent fun f =>
        { f with previous := d.construct? }).frames =
        u.scopes.frames.modify 0 fun f => { f with previous := d.construct? } := rfl
    unfold ScopeStack.endLabels ScopeStack.owned
    dsimp only
    rw [hframes]
    cases u.scopes.frames with
    | nil => rfl
    | cons f rest => rfl

/-- Running an action of a body up to its lowering. -/
lemma lowerAction_eq (hd : env.registry.findAction a.id a.group = .ok d) :
    lowerAction env index a s = (do
      let outcome ← attempt (lowerDefinition env d a)
      releasePending
      match outcome with
      | .ok () => pure ()
      | .error e =>
        if e.kind.isFatal || d.affectsBlocks then throw e
        modify fun s => { s with errors := s.errors.push e }
      if !d.affectsBlocks then
        onScopes (·.modifyCurrent fun f => { f with previous := d.construct? })
      : Lower Unit) (atAction s index a.id) := by
  unfold lowerAction
  refine (@bind_of_ok _ _ _ _ _ (atAction s index a.id) _ _ rfl _).trans ?_
  rw [hd]
  exact bind_of_ok rfl _

lemma remember_apply (d : ActionDef) (u : LowerState) :
    (if !d.affectsBlocks then
      onScopes (·.modifyCurrent fun f => { f with previous := d.construct? })
      else pure ⟨⟩) u = .ok ⟨⟩ { u with scopes := remember d u.scopes } := by
  unfold remember
  cases d.affectsBlocks <;> rfl

/-- An action whose lowering succeeds. -/
lemma lowerAction_of_ok (hd : env.registry.findAction a.id a.group = .ok d)
    (hrun : lowerDefinition env d a (atAction s index a.id) = .ok ⟨⟩ u) (hu : u.Sound) :
    ∃ t, lowerAction env index a s = .ok ⟨⟩ t ∧ Settles u d t := by
  obtain ⟨p, hrelease, hadds⟩ := releasePending_adds hu
  set v : LowerState := { u with program := p, pending := #[] } with hv
  refine ⟨{ v with scopes := remember d v.scopes }, ?_, rfl, ?_⟩
  · rw [lowerAction_eq hd]
    have hattempt : attempt (lowerDefinition env d a) (atAction s index a.id) = .ok (.ok ⟨⟩) u := by
      unfold attempt
      rw [hrun]
    refine (bind_of_ok hattempt _).trans ?_
    refine (bind_of_ok hrelease _).trans ?_
    exact remember_apply d v
  · rw [site_remember d v]
    exact hadds

/-- An action whose lowering fails ends the compile or is skipped. -/
lemma lowerAction_of_error {e : CompileError} (hd : env.registry.findAction a.id a.group = .ok d)
    (hrun : lowerDefinition env d a (atAction s index a.id) = .error e u) :
    ((e.kind.isFatal || d.affectsBlocks) = true → ∃ t, lowerAction env index a s = .error e t ∧
        t.errors = u.errors) ∧
      ((e.kind.isFatal || d.affectsBlocks) = false → u.Sound → ∃ t,
        lowerAction env index a s = .ok ⟨⟩ t ∧
          Settles { u with errors := u.errors.push e } d t) := by
  have hattempt : attempt (lowerDefinition env d a) (atAction s index a.id) =
      .ok (.error e) u := by
    unfold attempt
    rw [hrun]
  rw [lowerAction_eq hd]
  constructor
  · intro hfatal
    obtain ⟨p, hrelease⟩ := releasePending_apply u
    refine ⟨{ u with program := p, pending := #[] },
      (bind_of_ok hattempt _).trans ((bind_of_ok hrelease _).trans ?_), rfl⟩
    dsimp only
    rw [if_pos hfatal]
    rfl
  · intro hfatal hu
    obtain ⟨p, hrelease, hadds⟩ := releasePending_adds hu
    set v : LowerState := { u with program := p, errors := u.errors.push e, pending := #[] } with hv
    refine ⟨{ v with scopes := remember d v.scopes }, ?_, rfl, ?_⟩
    · refine (bind_of_ok hattempt _).trans ((bind_of_ok hrelease _).trans ?_)
      dsimp only
      rw [if_neg (by simp [hfatal])]
      refine (@bind_of_ok _ _ _ _ _ v _ _ rfl _).trans ?_
      exact remember_apply d v
    · rw [site_remember d v]
      exact hadds

/-! ## Settled states -/

/-- What opened the open blocks. -/
def openers (s : LowerState) : List (Option Opener) := s.scopes.frames.map (·.opener)

lemma settled_atAction (hs : s.Settled) (index : Nat) (id : String) :
    (atAction s index id).Settled where
  sound := { hs.sound with }
  pending := hs.pending
  follows := hs.follows
  openers := hs.openers

lemma Emits.shapes {code : List Line} (h : Emits s code t) :
    t.scopes.shapes = s.scopes.shapes := by
  unfold ScopeStack.shapes
  refine (List.forall₂_eq_eq_eq ▸ List.forall₂_map_right_iff.mpr
    (List.forall₂_map_left_iff.mpr (h.frames.imp fun _ _ h => h.shape.symm)) : _ = _).symm

lemma Emits.openers {code : List Line} (h : Emits s code t) : openers t = openers s := by
  unfold Lower.openers
  refine (List.forall₂_eq_eq_eq ▸ List.forall₂_map_right_iff.mpr
    (List.forall₂_map_left_iff.mpr (h.frames.imp fun f g h => ?_)) : _ = _).symm
  rw [h.same]

lemma Prepares.openers (h : Prepares s t) : openers t = openers s := by
  obtain ⟨f, rest, new, hf, hf', -⟩ := h.locals
  unfold Lower.openers
  rw [hf, hf']
  rfl

/-- A block whose last action left nothing that a later one refers to. -/
lemma follows_of_previous {p : Program} (h : ∀ c, f.previous = some c → c.opensBlock = false) :
    f.Follows p m := by
  constructor
  · intro hprev
    cases h _ hprev
  · intro c hc hprev
    have hopens := h c hprev
    simp only [List.mem_cons, List.not_mem_nil, or_false] at hc
    rcases hc with rfl | rfl | rfl <;> cases hopens

namespace Settles

section

variable (h : Settles u d t)
include h

lemma method : t.method = u.method := by
  rw [h.state]

lemma errors : t.errors = u.errors := by
  rw [h.state]

lemma frames_eq (hf : u.scopes.frames = f :: rest) :
    t.scopes.frames =
      (if d.affectsBlocks then f else { f with previous := d.construct? }) :: rest := by
  rw [h.state]
  show (remember d u.scopes).frames = _
  unfold remember
  split_ifs
  · exact hf
  · show u.scopes.frames.modify 0 _ = _
    rw [hf]
    rfl

lemma sound (hu : u.Sound) : t.Sound := by
  have hstate := h.state
  have hworks := h.adds.toWorks
  refine hu.of_works hworks h.method (fun k hk => ?_) (fun e he => .inl ?_) ?_ ?_
  · cases hf : u.scopes.frames with
    | nil =>
      have hframes : t.scopes.frames = [] := by
        rw [hstate]
        show (remember d u.scopes).frames = _
        unfold remember
        split_ifs
        · exact hf
        · show u.scopes.frames.modify 0 _ = _
          rw [hf]
          rfl
      rw [hframes] at hk
      cases hk
    | cons f rest =>
      rw [h.frames_eq hf] at hk
      rcases List.mem_cons.mp hk with rfl | hk
      · have hkept := hu.frame_works hworks (f := f) (by simp [hf])
        split_ifs
        · exact hkept
        · exact { hkept with }
      · exact hu.frame_works hworks (by simp [hf, hk])
  · rw [hstate] at he
    exact he
  · rw [hstate]
  · rw [hstate]

/-- After an action that neither opens nor closes a block. -/
lemma settled_statement (hu : u.Sound) (hs : s.Settled) (hd : d.affectsBlocks = false)
    (hshapes : u.scopes.shapes = s.scopes.shapes) (hopeners : openers u = openers s) :
    t.Settled ∧ t.scopes.shapes = Shape.follow d.construct? s.scopes.shapes := by
  obtain ⟨f, rest, hf, -⟩ := hs.follows
  obtain ⟨f', rest', hf'⟩ : ∃ f' rest', u.scopes.frames = f' :: rest' := by
    unfold ScopeStack.shapes at hshapes
    rw [hf] at hshapes
    obtain ⟨f', rest', hf', -⟩ := List.map_eq_cons_iff.mp hshapes
    exact ⟨f', rest', hf'⟩
  have hframes := h.frames_eq hf'
  rw [if_neg (by simp [hd])] at hframes
  -- such an action is a statement construct or no construct at all
  have hplain : ∀ c, d.construct? = some c → c.opensBlock = false ∧ c ≠ .blockEnd := by
    intro c hc
    unfold ActionDef.construct? at hc
    split at hc
    · rename_i hkind
      obtain rfl := Option.some.inj hc
      simpa [ActionDef.affectsBlocks, hkind, Construct.affectsBlocks] using hd
    · cases hc
  refine ⟨⟨h.sound hu, by rw [h.state], ⟨_, _, hframes, follows_of_previous fun c hc =>
    (hplain c hc).1⟩, ?_⟩, ?_⟩
  · have hmap : t.scopes.frames.map (·.opener) = Lower.openers u := by
      unfold Lower.openers
      rw [hframes, hf']
      rfl
    rw [hmap, hopeners]
    exact hs.openers
  · rw [← hshapes]
    unfold ScopeStack.shapes
    rw [hframes, hf']
    cases hc : d.construct? with
    | none => rfl
    | some c =>
      obtain ⟨hopens, hend⟩ := hplain c hc
      cases c with
      | blockEnd => exact absurd rfl hend
      | passIfTrue | failIfFalse | breakLoop | continueLoop | returnEvent | setVariable
        | localVariable => rfl
      | _ => cases hopens

end

end Settles

/-- After an action that opens a block. -/
lemma OpensBlock.settled {c : Construct} {r : BoundAction} (h : OpensBlock s f c r u)
    (ht : Settles u d t) (hu : u.Sound) (hf : s.scopes.frames = f :: rest)
    (hkind : d.kind = .construct c) (hopens : c.opensBlock = true)
    (hopeners : ∃ inner : List Opener, openers s = inner.map some ++ [none]) :
    t.Settled ∧ t.scopes.shapes = Shape.follow d.construct? s.scopes.shapes := by
  obtain ⟨g, f', hframes, hopener, hshape, hshape', hopener', -⟩ := h.frames hf
  have haffects : d.affectsBlocks = true := by
    simp [ActionDef.affectsBlocks, hkind, Construct.affectsBlocks, hopens]
  have hframes' := ht.frames_eq hframes
  rw [if_pos haffects] at hframes'
  refine ⟨⟨ht.sound hu, by rw [ht.state], ⟨_, _, hframes', follows_of_previous fun c' hc' => ?_⟩,
    ?_⟩, ?_⟩
  · rw [show g.previous = none from congrArg Shape.previous hshape] at hc'
    cases hc'
  · obtain ⟨inner, hinner⟩ := hopeners
    refine ⟨.construct c :: inner, ?_⟩
    unfold Lower.openers at hinner
    rw [hf, List.map_cons] at hinner
    rw [hframes', List.map_cons, List.map_cons, hopener, hopener', hinner]
    rfl
  · have hconstruct : d.construct? = some c := by simp [ActionDef.construct?, hkind]
    unfold ScopeStack.shapes
    rw [hframes', hf, hconstruct, List.map_cons, List.map_cons, List.map_cons, hshape, hshape']
    cases c with
    | ifBranch | elseIf | elseBranch | condition | conditionBody | whileLoop | forLoop | block => rfl
    | _ => cases hopens

/-- After the end of a block. -/
lemma Closes.settled {g' : Frame} (h : Closes s g' f rest u) (ht : Settles u d t) (hu : u.Sound)
    (hs : s.Settled) (hf : s.scopes.frames = g :: f :: rest) (hfills : g.Fills g')
    (hkind : d.kind = .construct .blockEnd) :
    t.Settled ∧ t.scopes.shapes = Shape.follow d.construct? s.scopes.shapes := by
  have haffects : d.affectsBlocks = true := by
    simp [ActionDef.affectsBlocks, hkind, Construct.affectsBlocks]
  have hframes : u.scopes.frames = f.after g' :: rest := by
    rw [h.state]
    rfl
  have hframes' := ht.frames_eq hframes
  rw [if_pos haffects] at hframes'
  have hg : g'.Sound u.program :=
    hfills.sound (hs.sound.frame_works h.works (by simp [hf]))
  have hfollows := h.follows hg
  refine ⟨⟨ht.sound hu, by rw [ht.state], ⟨_, _, hframes', ?_⟩, ?_⟩, ?_⟩
  · rw [ht.method]
    exact Frame.Follows.adds_nil (f := f.after g') (a := u.site) (b := t.site) hfollows hu.site
      hu.method_lt ht.adds rfl rfl
  · obtain ⟨inner, hinner⟩ := hs.openers
    rw [hf] at hinner
    cases inner with
    | nil => simp at hinner
    | cons o inner =>
      refine ⟨inner, ?_⟩
      rw [hframes']
      exact (List.cons.inj hinner).2
  · have hconstruct : d.construct? = some .blockEnd := by simp [ActionDef.construct?, hkind]
    unfold ScopeStack.shapes
    rw [hframes', hf, hconstruct]
    show { f.shape with previous := g'.construct? } :: _ = _
    rw [hfills.construct?]
    rfl

/-- A lowered action leaves a settled state, and the shapes of the open blocks are as said. -/
lemma Lowered.settled (h : Lowered env d a s u) (ht : Settles u d t) (hs : s.Settled) (hu : u.Sound) :
    t.Settled ∧ t.scopes.shapes = Shape.follow d.construct? s.scopes.shapes := by
  cases h with
  | statement kind plain noEnd prepares bound emits lines =>
    refine ht.settled_statement hu hs ?_ ?_ ?_
    · simp [ActionDef.affectsBlocks, kind, Construct.affectsBlocks, plain, noEnd]
    · rw [emits.shapes, prepares.shapes]
    · rw [emits.openers, prepares.openers]
  | call kind prepares bound emits chosen lines =>
    refine ht.settled_statement hu hs ?_ ?_ ?_
    · simp [ActionDef.affectsBlocks, kind]
    · rw [emits.shapes, prepares.shapes]
    · rw [emits.openers, prepares.openers]
  | group kind prepares bound calls =>
    have expands := calls.expands
    refine ht.settled_statement hu hs ?_ ?_ ?_
    · simp [ActionDef.affectsBlocks, kind]
    · rw [← prepares.shapes, expands.scopes]
    · rw [← prepares.openers]
      unfold openers
      rw [expands.scopes]
  | opener kind opens prepares bound frames block =>
    rw [← prepares.shapes]
    exact block.settled ht hu frames kind opens (by rw [prepares.openers]; exact hs.openers)
  | closer kind frames fills closes => exact closes.settled ht hu hs frames fills kind

/-- Lowering an action that succeeds reports nothing. -/
lemma Lowered.errors (h : Lowered env d a s u) : u.errors = s.errors := by
  cases h with
  | statement kind plain noEnd prepares bound emits lines =>
    have herrors := prepares.errors
    rw [emits.state]
    exact herrors
  | call kind prepares bound emits chosen lines =>
    have herrors := prepares.errors
    rw [emits.state]
    exact herrors
  | group kind prepares bound calls => exact calls.expands.errors.trans prepares.errors
  | opener kind opens prepares bound frames block =>
    obtain ⟨g, f', -, -, -, -, -, hstate⟩ := block.frames frames
    have herrors := prepares.errors
    rw [hstate]
    exact herrors
  | closer kind frames fills closes =>
    rw [closes.state]
    rfl

lemma Lowered.evolves (h : Lowered env d a s u) : s.Evolves u := by
  cases h with
  | statement kind plain noEnd prepares bound emits lines =>
    exact (LowerState.Evolves.of_works prepares.adds.toWorks).trans
      (LowerState.Evolves.of_works emits.adds.toWorks)
  | call kind prepares bound emits chosen lines =>
    exact (LowerState.Evolves.of_works prepares.adds.toWorks).trans
      (LowerState.Evolves.of_works emits.adds.toWorks)
  | group kind prepares bound calls =>
    have expands := calls.expands
    exact (LowerState.Evolves.of_works prepares.adds.toWorks).trans
      ⟨expands.grows, expands.methods_le⟩
  | opener kind opens prepares bound frames block =>
    exact (LowerState.Evolves.of_works prepares.adds.toWorks).trans
      (LowerState.Evolves.of_works block.works)
  | closer kind frames fills closes => exact LowerState.Evolves.of_works closes.works

/-- An action is skipped: the state `u` in which the binding of its inputs failed is left with the
error noted. -/
structure Skipped (d : ActionDef) (a : Action) (s : LowerState) (e : CompileError)
    (u t : LowerState) : Prop where
  plain : d.affectsBlocks = false
  cause : Unbindable d a s e u
  prepares : Prepares s u
  settles : Settles { u with errors := u.errors.push e } d t
  errors : t.errors = s.errors.push e

/-- An action of a body is lowered or skipped, or it ends the compile. -/
lemma lowerAction_ensures (hd : env.registry.findAction a.id a.group = .ok d)
    (henv : SoundGroups env.registry) (hs : s.Settled) (hplain : d.IsPlain)
    (hinputs : ∀ b ∈ a.inputs ++ a.targets, b.holdsAddress = false) :
    Ensures s (lowerAction env index a)
      (fun _ t => t.Settled ∧ s.Evolves t ∧
        t.scopes.shapes = Shape.follow d.construct? s.scopes.shapes ∧
        ((∃ u, Lowered env d a (atAction s index a.id) u ∧ u.Sound ∧ Settles u d t ∧
            t.errors = s.errors ∧
            ∀ c, d.construct? = some c → Shape.admits c s.scopes.shapes = true) ∨
          ∃ e u, Failed d a (atAction s index a.id) e u ∧
            Skipped d a (atAction s index a.id) e u t ∧ e.kind.isFatal = false))
      fun e t => t.errors = s.errors ∧ ∃ u, Failed d a (atAction s index a.id) e u := by
  have hs' := settled_atAction hs index a.id
  have hdef := lowerDefinition_lowered henv hs' hplain hinputs
  cases hrun : lowerDefinition env d a (atAction s index a.id) with
  | ok r u =>
    obtain ⟨hu, hadmits, hlowered⟩ := hdef.ok hrun
    obtain ⟨t, haction, hsettles⟩ := lowerAction_of_ok hd hrun hu
    obtain ⟨hsettled, hshapes⟩ := hlowered.settled hsettles hs' hu
    have hevolves := hlowered.evolves.trans (LowerState.Evolves.of_works hsettles.adds.toWorks)
    refine Ensures.of_ok haction ⟨hsettled, ⟨hevolves.grows, hevolves.methods_le⟩, hshapes, .inl
      ⟨u, hlowered, hu, hsettles, ?_, hadmits⟩⟩
    rw [hsettles.errors, hlowered.errors]
    rfl
  | error e u =>
    have hfailed := hdef.error hrun
    obtain ⟨hthrow, hskip⟩ := lowerAction_of_error hd hrun
    cases hfatal : (e.kind.isFatal || d.affectsBlocks) with
    | true =>
      obtain ⟨t, haction, herrors⟩ := hthrow hfatal
      exact Ensures.of_error haction ⟨herrors.trans hfailed.errors, u, hfailed⟩
    | false =>
      obtain ⟨hkind, haffects⟩ := Bool.or_eq_false_iff.mp hfatal
      obtain ⟨hprep, hcause⟩ : Prepares (atAction s index a.id) u ∧
          Unbindable d a (atAction s index a.id) e u := by
        cases hfailed with
        | binding error prepares cause => exact ⟨prepares, cause⟩
        | step loop cause same error =>
          obtain ⟨fault, herror⟩ := error
          rw [herror] at hkind
          cases hkind
        | place construct refused =>
          rcases refused.error with ⟨reason, herror⟩ | ⟨c, herror⟩
          all_goals
            rw [herror] at hkind
            cases hkind
        | group kind error errors =>
          rcases error with ⟨id, group, herror⟩ | ⟨name, herror⟩
          all_goals
            rw [herror] at hkind
            cases hkind
      have hu := hprep.sound hs'.sound
      obtain ⟨t, haction, hsettles⟩ := hskip hfatal hu
      obtain ⟨hsettled, hshapes⟩ := hsettles.settled_statement { hu with } hs' haffects
        hprep.shapes hprep.openers
      have hevolves := (LowerState.Evolves.of_works hprep.adds.toWorks).trans
        (LowerState.Evolves.of_works hsettles.adds.toWorks)
      refine Ensures.of_ok haction ⟨hsettled, ⟨hevolves.grows, hevolves.methods_le⟩, hshapes, .inr
        ⟨e, u, hfailed, ⟨haffects, hcause, hprep, hsettles, ?_⟩, hkind⟩⟩
      rw [hsettles.errors]
      obtain ⟨p, frames, references, used, locals, pending, rfl⟩ := hprep.state
      rfl

/-! ## Bodies -/

/-- The state in which the body's own block has just been opened. -/
def rooted (s : LowerState) : LowerState := s.build s.program (Frame.root :: s.scopes.frames)

lemma settled_rooted (hs : s.Sound) (hf : s.scopes.frames = []) (hp : s.pending = #[]) :
    (rooted s).Settled where
  sound := by
    have hroot : Frame.root.Sound s.program :=
      { opener := .inl rfl
        isLoop := rfl
        condition := fun h => by cases h
        root := fun _ => rfl
        isResult := ⟨fun h => (by cases h), fun h => (by cases h)⟩
        result := fun r hr => by cases hr
        result_owned := fun r hr => by cases hr
        start := fun h => by cases h
        start_placed := fun l hl => by cases hl
        chain := fun id hid => by cases hid
        closed_chain := fun c hc => by cases hc }
    refine ⟨hs.site, hs.method_lt, fun f h => ?_, hs.locals, hs.inputs, hs.merges⟩
    rw [rooted, LowerState.build_frames, hf] at h
    exact List.mem_singleton.mp h ▸ hroot
  pending := hp
  follows := ⟨Frame.root, _, rfl, follows_of_previous fun c hc => by cases hc⟩
  openers := by
    refine ⟨[], ?_⟩
    rw [rooted, LowerState.build_frames, hf]
    rfl

/-- The body of a method ends with its own block as the only one that is open. -/
structure Ends (u t : LowerState) : Prop where
  state : ∃ f, u.scopes.frames = [f] ∧ t = { u.build t.program [] with
    locals := u.locals.filter fun (id, _) => id ∉ f.localIds }
  adds : u.site.Adds u.method [] t.site
  sound : t.Sound

lemma lowerBody_ensures {l : List Action} {P : LowerState → Prop}
    {E : CompileError → LowerState → Prop}
    (h : Ensures (rooted s) (lowerActions env 0 l) (fun _ u => u.Settled ∧ P u) E) :
    Ensures s (lowerBody env l) (fun _ t => ∃ u, u.Settled ∧ P u ∧ Ends u t)
      fun e t => E e t ∨ (IsStructural e ∧ P t ∧ 1 < t.scopes.depth) := by
  refine Ensures.step (t := rooted s) rfl ?_
  refine Ensures.bind (h.mono (fun _ _ h => h) fun _ _ h => .inl h) ?_
  rintro ⟨⟩ u - ⟨hu, hP⟩
  refine Ensures.step (get_apply u) ?_
  obtain ⟨f, rest, hf, -⟩ := hu.follows
  split_ifs with hdepth
  · exact Ensures.of_error rfl (.inr ⟨.inl ⟨_, rfl⟩, hP, hdepth⟩)
  · obtain rfl : rest = [] := by
      refine List.length_eq_zero_iff.mp ?_
      simp only [ScopeStack.depth, hf, List.length_cons] at hdepth
      omega
    have howned : u.site.temps.Perm (f.owned ++ []) := by
      simp [LowerState.site, ScopeStack.owned, hf, hu.pending]
    have hend : f.endLabel = none := by
      obtain ⟨inner, hinner⟩ := hu.openers
      rw [hf] at hinner
      have hnone : f.opener = none := by
        cases inner with
        | nil => exact (List.cons.inj hinner).1
        | cons o inner => simp at hinner
      exact (hu.sound.frames f (by simp [hf])).root (by simp [Frame.construct?, hnone])
    obtain ⟨_, _, b, _, hfinish, -, hadds, rfl, hlabels, htemps, rfl⟩ :=
      finishFrame_builds (s := u.build u.program []) hu.sound.ready howned
    set t := ((u.build u.program []).finish f).on b with ht
    have hadds' : u.site.Adds u.method [] t.site := by
      refine hadds.of_perm (b := b) ?_ ?_
      · rw [hlabels]
        simp [LowerState.site, ScopeStack.endLabels, hf, hend, ht, LowerState.on,
          LowerState.finish, LowerState.build, ScopeStack.modifyCurrent]
      · rw [List.perm_nil.mp htemps]
        simp [ScopeStack.owned, ht, LowerState.on, LowerState.finish, LowerState.build,
          ScopeStack.modifyCurrent, hu.pending]
    refine Ensures.of_ok ((bind_of_ok (popFrame_apply hf) _).trans hfinish) ⟨u, hu, hP,
      ⟨f, hf, rfl⟩, hadds', ?_⟩
    refine hu.sound.of_works hadds'.toWorks rfl (fun k hk => ?_) (fun e he => .inl ?_) rfl rfl
    · cases hk
    · exact (List.mem_filter.mp he).1

end Lower

end TriggerCompiler
