import Mathlib
import TriggerCompiler.Proofs.BoundActions
import TriggerCompiler.Proofs.Temporaries

/-!
# The scope of locals

A local is in sight from the action that declares it to the end of the block in which that action
stands; what an opener declares belongs to the block around the one that it opens. The compiler keeps
a flat list of the locals in sight and a list of ids in every open block. Here the flat list is shown
to be the locals of the open blocks, one block after the other, and every action to do to it what it
does to the blocks.

Main statement: `locals_are_lexically_scoped`.
-/

namespace TriggerCompiler

variable {d : ActionDef} {before : List Action}

/-- Whether the action opens a block. -/
def Action.opensBlock (a : Action) : Bool := a.construct?.any Construct.opensBlock

/-- Whether a block with `n` blocks open inside of it is still open after the actions. -/
def staysOpen : Nat → List Action → Bool
  | _, [] => true
  | n, a :: rest =>
    if a.construct? = some .blockEnd then
      match n with
      | 0 => false
      | n + 1 => staysOpen n rest
    else staysOpen (if a.opensBlock then n + 1 else n) rest

/-- The locals of the open blocks after an action that declares new ones. -/
def nextBlocks (a : Action) (new : List (String × SlotId)) :
    List (List (String × SlotId)) → List (List (String × SlotId))
  | [] => []
  | b :: blocks =>
    if a.construct? = some .blockEnd then blocks
    else if a.opensBlock then [] :: (new.reverse ++ b) :: blocks
    else (new.reverse ++ b) :: blocks

lemma nextBlocks_statement {a : Action} (hconstruct : a.construct? = d.construct?)
    (h : d.affectsBlocks = false) (new b : List (String × SlotId))
    (blocks : List (List (String × SlotId))) :
    a.construct? ≠ some .blockEnd ∧ nextBlocks a new (b :: blocks) = (new.reverse ++ b) :: blocks := by
  have hend : a.construct? ≠ some .blockEnd := fun hend => by
    rw [hconstruct] at hend
    simp [ActionDef.affectsBlocks, ActionDef.kind_of_construct? hend, Construct.affectsBlocks] at h
  have hopens : a.opensBlock = false := by
    unfold Action.opensBlock
    cases hc : a.construct? with
    | none => rfl
    | some c =>
      rw [hconstruct] at hc
      simp [ActionDef.affectsBlocks, ActionDef.kind_of_construct? hc, Construct.affectsBlocks] at h
      exact h.1
  simp [nextBlocks, hend, hopens]

lemma nextBlocks_opener {a : Action} {c : Construct} (hconstruct : a.construct? = some c)
    (h : c.opensBlock = true) (new b : List (String × SlotId))
    (blocks : List (List (String × SlotId))) :
    a.construct? ≠ some .blockEnd ∧
      nextBlocks a new (b :: blocks) = [] :: (new.reverse ++ b) :: blocks := by
  have hend : a.construct? ≠ some .blockEnd := fun hend => by
    rw [Option.some.inj (hconstruct.symm.trans hend)] at h
    cases h
  have hopens : a.opensBlock = true := by simp [Action.opensBlock, hconstruct, h]
  simp [nextBlocks, hend, hopens]

/-- The local stands in one of the blocks, which have `n` blocks open inside of them, and that block is
still open after the actions. -/
def Lasts (x : String × SlotId) (l : List Action) : Nat → List (List (String × SlotId)) → Prop
  | _, [] => False
  | n, b :: blocks => (x ∈ b ∧ staysOpen n l = true) ∨ Lasts x l (n + 1) blocks

section Lasts

variable {x : String × SlotId} {a : Action} {l : List Action} {new : List (String × SlotId)}

lemma lasts_nil (n : Nat) (blocks : List (List (String × SlotId))) :
    Lasts x [] n blocks ↔ x ∈ blocks.flatten := by
  induction blocks generalizing n with
  | nil => simp [Lasts]
  | cons b blocks ih => simp [Lasts, staysOpen, ih]

/-- An action that changes the number of open blocks changes the depth at which the others stand. -/
lemma lasts_shift {n m : Nat} (h : ∀ k, staysOpen (n + k) (a :: l) = staysOpen (m + k) l)
    (blocks : List (List (String × SlotId))) : Lasts x (a :: l) n blocks ↔ Lasts x l m blocks := by
  induction blocks generalizing n m with
  | nil => rfl
  | cons b blocks ih =>
    have hnext : ∀ k, staysOpen (n + 1 + k) (a :: l) = staysOpen (m + 1 + k) l := fun k => by
      simpa only [Nat.add_assoc, Nat.add_comm 1 k] using h (k + 1)
    simp only [Lasts, ih hnext, show staysOpen n (a :: l) = staysOpen m l from h 0]

/-- What an action does to the locals of the open blocks. -/
lemma lasts_nextBlocks {blocks : List (List (String × SlotId))} (hblocks : blocks ≠ [])
    (hend : a.construct? = some .blockEnd → new = []) :
    Lasts x l 0 (nextBlocks a new blocks) ↔
      Lasts x (a :: l) 0 blocks ∨ (x ∈ new ∧ staysOpen 0 (a :: l) = true) := by
  obtain ⟨b, blocks, rfl⟩ := List.exists_cons_of_ne_nil hblocks
  unfold nextBlocks
  split_ifs with hclose hopens
  · have hshift : Lasts x (a :: l) 1 blocks ↔ Lasts x l 0 blocks :=
      lasts_shift (fun k => by simp [staysOpen, hclose, Nat.add_comm 1 k]) blocks
    simp [Lasts, hshift, hend hclose, staysOpen, hclose]
  · have hshift : Lasts x (a :: l) 1 blocks ↔ Lasts x l 2 blocks :=
      lasts_shift (fun k => by
        simp only [staysOpen, if_neg hclose, if_pos hopens]
        congr 1
        omega) blocks
    simp only [Lasts, hshift, staysOpen, if_neg hclose, if_pos hopens, List.mem_append,
      List.mem_reverse, List.not_mem_nil, false_and, false_or]
    tauto
  · have hshift : Lasts x (a :: l) 1 blocks ↔ Lasts x l 1 blocks :=
      lasts_shift (fun k => by simp [staysOpen, hclose, hopens]) blocks
    simp only [Lasts, hshift, staysOpen, if_neg hclose, if_neg hopens, List.mem_append,
      List.mem_reverse]
    tauto

end Lasts

/-- The locals in sight are those of the open blocks, the innermost first, and then those that were
there before the body. No two have the same id. -/
structure LowerState.Stacks (base : List (String × SlotId)) (blocks : List (List (String × SlotId)))
    (s : LowerState) : Prop where
  locals : s.locals = blocks.flatten ++ base
  ids : s.scopes.frames.map (·.localIds.reverse) = blocks.map (·.map Prod.fst)
  nodup : (s.locals.map Prod.fst).Nodup

/-- There is a block for every frame, so there is one. -/
lemma LowerState.Stacks.ne_nil {base : List (String × SlotId)}
    {blocks : List (List (String × SlotId))} {s : LowerState} (h : s.Stacks base blocks)
    (hs : s.Settled) : blocks ≠ [] := by
  obtain ⟨f, rest, hf, -⟩ := hs.follows
  rintro rfl
  have hids := h.ids
  rw [hf] at hids
  cases hids

/-- The locals of the first block are those with its ids. -/
lemma filter_ids {b rest : List (String × SlotId)} {ids : List String}
    (hids : ids.reverse = b.map Prod.fst) (h : ((b ++ rest).map Prod.fst).Nodup) :
    (b ++ rest).filter (fun (id, _) => id ∉ ids) = rest := by
  rw [List.map_append] at h
  have hdisjoint := (List.nodup_append'.mp h).2.2
  have hmem : ∀ id, id ∈ ids ↔ id ∈ b.map Prod.fst := fun id => by rw [← hids, List.mem_reverse]
  have hgone : b.filter (fun (id, _) => id ∉ ids) = [] := by
    rw [List.filter_eq_nil_iff]
    intro x hx
    simpa using (hmem x.1).mpr (List.mem_map_of_mem hx)
  have hstay : rest.filter (fun (id, _) => id ∉ ids) = rest := by
    rw [List.filter_eq_self]
    intro x hx
    have hnot : x.1 ∉ ids := fun hid => hdisjoint ((hmem x.1).mp hid) (List.mem_map_of_mem hx)
    simpa using hnot
  rw [List.filter_append, hgone, hstay, List.nil_append]

namespace Lower

variable {s t u : LowerState} {env : Environment} {a : Action} {r : BoundAction}
  {base b new : List (String × SlotId)} {blocks : List (List (String × SlotId))} {f g : Frame}
  {rest : List Frame}

/-! ## What happens to the blocks -/

/-- The blocks declare the same locals as before. -/
lemma stacks_of_frames (hs : s.Stacks base blocks) (hlocals : t.locals = s.locals)
    (hids : t.scopes.frames.map (·.localIds) = s.scopes.frames.map (·.localIds)) :
    t.Stacks base blocks where
  locals := hlocals.trans hs.locals
  ids := by
    have hreverse := congrArg (List.map List.reverse) hids
    simp only [List.map_map] at hreverse
    exact hreverse.trans hs.ids
  nodup := hlocals ▸ hs.nodup

lemma Prepares.stacks (h : Prepares s t) (hs : s.Stacks base (b :: blocks))
    (hnew : t.locals = new.reverse ++ s.locals) : t.Stacks base ((new.reverse ++ b) :: blocks) := by
  obtain ⟨f, rest, new', hf, hf', hlocals, -, -⟩ := h.locals
  obtain rfl : new' = new := List.reverse_injective (List.append_cancel_right (hlocals.symm.trans hnew))
  refine ⟨?_, ?_, h.nodup_locals hs.nodup⟩
  · rw [hlocals, hs.locals]
    simp
  · have hids := hs.ids
    rw [hf, List.map_cons, List.map_cons] at hids
    obtain ⟨hhead, htail⟩ := List.cons.inj hids
    rw [hf', List.map_cons, List.map_cons, htail]
    simp [Frame.declare, hhead]

lemma Emits.stacks {code : List Line} (h : Emits s code t) (hs : s.Stacks base blocks) :
    t.Stacks base blocks := by
  refine stacks_of_frames hs (by rw [h.state]; rfl) ?_
  have hfills : ∀ {l l' : List Frame}, List.Forall₂ Frame.Fills l l' →
      l'.map (·.localIds) = l.map (·.localIds) := by
    intro l l' hl
    induction hl with
    | nil => rfl
    | @cons f g l l' hfg _ ih =>
      have hsame : g.localIds = f.localIds := by rw [hfg.same]
      rw [List.map_cons, List.map_cons, hsame, ih]
  exact hfills h.frames

lemma OpensBlock.stacks {c : Construct} (h : OpensBlock s f c r t)
    (hf : s.scopes.frames = f :: rest) (hs : s.Stacks base blocks) : t.Stacks base ([] :: blocks) := by
  obtain ⟨g, f', hframes, hg, hf', -⟩ := h.localIds hf
  obtain ⟨-, -, -, -, -, -, -, hstate⟩ := h.frames hf
  have hlocals : t.locals = s.locals := by rw [hstate]; rfl
  refine ⟨by rw [hlocals, hs.locals]; rfl, ?_, hlocals ▸ hs.nodup⟩
  have hids := hs.ids
  rw [hf, List.map_cons] at hids
  rw [hframes, List.map_cons, List.map_cons, hf', hids, hg]
  rfl

lemma Closes.stacks {g' : Frame} (h : Closes s g' f rest t) (hf : s.scopes.frames = g :: f :: rest)
    (hfills : g.Fills g') (hs : s.Stacks base (b :: blocks)) : t.Stacks base blocks := by
  have hids := hs.ids
  rw [hf, List.map_cons, List.map_cons] at hids
  obtain ⟨hhead, htail⟩ := List.cons.inj hids
  have hsame : g'.localIds = g.localIds := by rw [hfills.same]
  have hlocals : t.locals = blocks.flatten ++ base := by
    have hsplit : s.locals = b ++ (blocks.flatten ++ base) := by simp [hs.locals]
    have hfilter : t.locals = s.locals.filter fun (id, _) => id ∉ g'.localIds := by rw [h.state]
    rw [hfilter, hsplit, hsame]
    exact filter_ids hhead (hsplit ▸ hs.nodup)
  refine ⟨hlocals, ?_, ?_⟩
  · rw [h.state]
    exact htail
  · have hsub : t.locals.Sublist s.locals := by
      rw [hlocals, hs.locals]
      simp
    exact hs.nodup.sublist (hsub.map Prod.fst)

lemma Settles.stacks (h : Settles u d t) (hu : u.Stacks base blocks) : t.Stacks base blocks := by
  refine stacks_of_frames hu (by rw [h.state]) ?_
  rw [h.state]
  unfold remember ScopeStack.modifyCurrent
  split_ifs
  · rfl
  · cases u.scopes.frames <;> simp

/-! ## Which locals an action declares -/

/-- An assignment whose types do not fit declares no local: a fresh one would have the type of the
value. -/
lemma declaredLocals_of_mistyped {e : CompileError} (hs : s.Sound) (hf : s.scopes.frames = f :: rest)
    (hd : d.IsPlain) (hassigns : d.construct? = some .setVariable)
    (hplain : ∀ b ∈ a.inputs ++ a.targets, b.holdsAddress = false)
    (hbind : bindAction d a s = .ok r u) (hfails : setVariable r u = .error e u) :
    declaredLocals a.inputs r.inputs = [] := by
  have hkind := ActionDef.kind_of_construct? hassigns
  have hparameters : d.parameters = [.anyInput "value", .anyOutput "target"] := by
    unfold ActionDef.IsPlain at hd
    rw [hkind] at hd
    exact hd
  obtain ⟨harity, u', hinputs, htargets, -⟩ := bindAction_ok hbind
  obtain rfl : u' = u := by
    unfold targetInputs at htargets
    rw [hkind] at htargets
    exact (EStateM.Result.ok.inj htargets).2
  obtain ⟨b₁, b₂, hab⟩ := List.length_eq_two.mp (harity.trans (by rw [hparameters]; rfl))
  rw [hparameters, hab] at hinputs
  change bindInputs [(_, b₁), (_, b₂)] none s = _ at hinputs
  obtain ⟨id₁, t₁, more, hfirst, hids, hrest⟩ := bindInputs_ok hinputs
  obtain ⟨id₂, t₃, more', hsecond, rfl, hend⟩ := bindInputs_ok hrest
  obtain ⟨rfl, rfl⟩ := EStateM.Result.ok.inj hend
  have hlocal₁ : b₁.local? = none :=
    ((bindInput_notes _ b₁ none s).ok hfirst).2 (by decide)
  rw [hab, hids]
  suffices hlocal₂ : b₂.local? = none by simp [declaredLocals, hlocal₁, hlocal₂]
  cases b₂ with
  | newLocal name shown =>
    have hb₁ : b₁.holdsAddress = false := hplain b₁ (by simp [hab])
    obtain ⟨hprep₁, hdenotes⟩ := Ensures.ok (bindRead_binds hs hf _ hb₁) hfirst
    have ht₁ := hprep₁.sound hs
    obtain ⟨g, rest', new, -, hg, -⟩ := hprep₁.locals
    obtain ⟨hprep₂, hfresh, htype⟩ := Ensures.ok (declareLocal_binds ht₁ hg name shown _) hsecond
    have hu := hprep₂.sound ht₁
    obtain ⟨-, -, haccepts⟩ := (setVariable_ensures hu hids
      ((hdenotes.prepares hprep₂).lt hu) (hfresh.lt hu)).error hfails
    have hsame : (t₃.program.slots.get id₂).type = (t₁.program.slots.get id₁).type := htype
    have hvalue : t₃.program.slots.get id₁ = t₁.program.slots.get id₁ :=
      hprep₂.adds.grows.slots.get_eq (hdenotes.lt ht₁)
    rw [hsame, hvalue] at haccepts
    simp [ValueType.accepts] at haccepts
  | unbound | constant | var => rfl

end Lower

/-- Among the built-in actions an output is the last parameter, and there is none where there are
targets. -/
lemma Registry.outputs_last {id : String} {group : Option String}
    (h : builtin.findAction id group = .ok d) :
    (∀ p ∈ d.parameters.dropLast, p.direction ≠ .out) ∧
      ((∃ signature type, d.kind = .host signature (some type)) →
        ∀ p ∈ d.parameters, p.direction ≠ .out) := by
  obtain ⟨-, -, ⟨c, rfl⟩ | hd⟩ := findAction_builtin h
  · refine ⟨?_, fun ⟨signature, type, hkind⟩ => by cases hkind⟩
    cases c <;> decide
  · unfold builtinCalls at hd
    simp only [List.mem_cons, List.not_mem_nil, or_false] at hd
    rcases hd with rfl | rfl | rfl | rfl | rfl | rfl | rfl | rfl | rfl
    case inr.inr.inr.inr.inr.inr.inr.inr => exact ⟨by decide, fun _ => by decide⟩
    all_goals exact ⟨by decide, fun ⟨signature, type, hkind⟩ => by cases hkind⟩

namespace Lower

variable {s t u : LowerState} {env : Environment} {a : Action} {index : Nat}
  {base : List (String × SlotId)} {blocks : List (List (String × SlotId))} {x : String × SlotId}

/-- The action at a position of the body is accepted, and it declares the local. -/
def Introduces (env : Environment) (s : LowerState) (index : Nat) (a : Action)
    (x : String × SlotId) : Prop :=
  ∃ d r t u, env.registry.findAction a.id a.group = .ok d ∧
    bindAction d a (atAction s index a.id) = .ok r u ∧ x ∈ declaredLocals a.inputs r.inputs ∧
    lowerAction env index a s = .ok ⟨⟩ t ∧ t.errors = s.errors

lemma introduces_iff {r : BoundAction} (hfound : env.registry.findAction a.id a.group = .ok d)
    (hbind : bindAction d a (atAction s index a.id) = .ok r u)
    (h : lowerAction env index a s = .ok ⟨⟩ t) (herrors : t.errors = s.errors) :
    Introduces env s index a x ↔ x ∈ declaredLocals a.inputs r.inputs := by
  refine ⟨?_, fun hx => ⟨d, r, t, u, hfound, hbind, hx, h, herrors⟩⟩
  rintro ⟨d', r', t', u', hfound', hbind', hx, -⟩
  obtain rfl := Except.ok.inj (hfound.symm.trans hfound')
  obtain ⟨rfl, -⟩ := EStateM.Result.ok.inj (hbind.symm.trans hbind')
  exact hx

lemma not_introduces (h : lowerAction env index a s = .ok ⟨⟩ t) {e : CompileError}
    (herrors : t.errors = s.errors.push e) : ¬Introduces env s index a x := by
  rintro ⟨d, r, t', u, -, -, -, h', herrors'⟩
  obtain ⟨-, rfl⟩ := EStateM.Result.ok.inj (h.symm.trans h')
  exact absurd (congrArg Array.size (herrors.symm.trans herrors')) (by simp)

/-- An action changes the locals of the open blocks by what it declares. -/
lemma lowerAction_stacks (hregistry : env.registry = .builtin) (hs : s.Settled)
    (hstacks : s.Stacks base blocks) (ha : a.NoAddress) (h : lowerAction env index a s = .ok ⟨⟩ t) :
    t.Settled ∧ ∃ new, t.Stacks base (nextBlocks a new blocks) ∧
      (a.construct? = some .blockEnd → new = []) ∧ ∀ x, x ∈ new ↔ Introduces env s index a x := by
  cases hfound : env.registry.findAction a.id a.group with
  | error kind =>
    unfold lowerAction at h
    rw [hfound] at h
    cases h
  | ok d =>
    have hbuiltin := hregistry ▸ hfound
    have hd : d.IsPlain := Registry.isPlain_of_mem (Registry.findAction_eq_ok hbuiltin)
    have hconstruct := Registry.construct?_of_findAction hbuiltin
    have hstart : (atAction s index a.id).Stacks base blocks := { hstacks with }
    obtain ⟨b, blocks, rfl⟩ := List.exists_cons_of_ne_nil (hstacks.ne_nil hs)
    have hgroups : SoundGroups env.registry := hregistry ▸ Registry.soundGroups_builtin
    obtain ⟨hsettled, -, -, houtcome⟩ := (lowerAction_ensures hfound hgroups hs hd ha).ok h
    refine ⟨hsettled, ?_⟩
    rcases houtcome with ⟨u, hlowered, -, hsettles, herrors, -⟩ | ⟨e, u, -, hskipped, -⟩
    · -- a line that is added changes no block
      have hadds : ∀ {r : BoundAction} {s₁ : LowerState} {code : List Line},
          Prepares (atAction s index a.id) s₁ → bindAction d a (atAction s index a.id) = .ok r s₁ →
          Emits s₁ code u → d.affectsBlocks = false →
          ∃ new, t.Stacks base (nextBlocks a new (b :: blocks)) ∧
            (a.construct? = some .blockEnd → new = []) ∧ ∀ x, x ∈ new ↔ Introduces env s index a x := by
        intro r s₁ code hprep hbind hemits hplain
        obtain ⟨hend, hnext⟩ :=
          nextBlocks_statement hconstruct hplain (declaredLocals a.inputs r.inputs) b blocks
        refine ⟨_, ?_, fun hclose => absurd hclose hend,
          fun x => (introduces_iff hfound hbind h herrors).symm⟩
        rw [hnext]
        exact hsettles.stacks (hemits.stacks (hprep.stacks hstart (bindAction_locals hbind)))
      cases hlowered with
      | statement kind plain noEnd prepares bound emits _ =>
        refine hadds prepares bound.run emits ?_
        simp [ActionDef.affectsBlocks, kind, Construct.affectsBlocks, plain, noEnd]
      | call kind prepares bound emits _ _ =>
        exact hadds prepares bound.run emits (by simp [ActionDef.affectsBlocks, kind])
      | group kind _ _ _ => exact absurd kind (Registry.kind_ne_group hbuiltin _ _)
      | @opener c r s₁ f rest kind opens prepares bound frames block =>
        obtain ⟨hend, hnext⟩ := nextBlocks_opener
          (hconstruct.trans (by simp [ActionDef.construct?, kind])) opens
          (declaredLocals a.inputs r.inputs) b blocks
        refine ⟨_, ?_, fun hclose => absurd hclose hend,
          fun x => (introduces_iff hfound bound.run h herrors).symm⟩
        rw [hnext]
        exact hsettles.stacks
          (OpensBlock.stacks block frames (prepares.stacks hstart (bindAction_locals bound.run)))
      | closer kind frames fills closes =>
        refine ⟨[], ?_, fun _ => rfl, fun x => ⟨by simp, ?_⟩⟩
        · rw [nextBlocks, if_pos (hconstruct.trans (by simp [ActionDef.construct?, kind]))]
          exact hsettles.stacks (closes.stacks frames fills hstart)
        · rintro ⟨d', r, t', u, hfound', hbind, hx, -⟩
          obtain rfl := Except.ok.inj (hfound.symm.trans hfound')
          obtain ⟨harity, -⟩ := bindAction_ok hbind
          unfold ActionDef.IsPlain at hd
          rw [kind] at hd
          rw [show d.parameters = [] from hd] at harity
          rw [List.length_eq_zero_iff.mp harity] at hx
          simp [declaredLocals] at hx
    · -- what is skipped has declared nothing
      refine ⟨[], ?_, fun _ => rfl, fun x => by simp [not_introduces h hskipped.errors]⟩
      have hlocals : u.locals = ([] : List (String × SlotId)).reverse ++
          (atAction s index a.id).locals := by
        rcases hskipped.cause with hbind | ⟨hassigns, r, hbind, hfails⟩
        · obtain ⟨hlast, htargets⟩ := Registry.outputs_last hbuiltin
          exact bindAction_locals_of_error hlast htargets hbind
        · have hs' := settled_atAction hs index a.id
          obtain ⟨f, rest, hf, -⟩ := hs'.follows
          rw [bindAction_locals hbind, declaredLocals_of_mistyped hs'.sound hf hd hassigns ha hbind hfails]
      rw [(nextBlocks_statement hconstruct hskipped.plain [] b blocks).2]
      exact hskipped.settles.stacks (stacks_of_frames (hskipped.prepares.stacks hstart hlocals) rfl rfl)

/-! ## Bodies -/

/-- From the state in which the body starts, lowering gets past these actions. -/
def Passes (env : Environment) (u : LowerState) (before : List Action) (s : LowerState) : Prop :=
  (do
    onScopes (·.push Frame.root)
    lowerActions env 0 before) u = .ok ⟨⟩ s

/-- One of the actions was accepted and declared the local in a block that is still open after the
last one. The block that the action itself opens is not the one it declares in. -/
def InSight (env : Environment) (u : LowerState) (before : List Action) (x : String × SlotId) :
    Prop :=
  ∃ earlier a later s, before = earlier ++ a :: later ∧ Passes env u earlier s ∧
    Introduces env s earlier.length a x ∧ staysOpen 0 (a :: later) = true

lemma lowerActions_append (env : Environment) (l l' : List Action) (index : Nat) :
    lowerActions env index (l ++ l') = (do
      lowerActions env index l
      lowerActions env (index + l.length) l') := by
  induction l generalizing index with
  | nil => simp [lowerActions]
  | cons a l ih =>
    rw [List.cons_append, lowerActions, lowerActions, ih, bind_assoc, List.length_cons,
      Nat.add_right_comm, Nat.add_assoc]

lemma Passes.snoc (h : Passes env u (before ++ [a]) t) :
    ∃ s, Passes env u before s ∧ lowerAction env before.length a s = .ok ⟨⟩ t := by
  unfold Passes at h ⊢
  rw [lowerActions_append] at h
  obtain ⟨⟨⟩, v, hpush, h⟩ := bind_eq_ok.mp h
  obtain ⟨⟨⟩, s, hbefore, h⟩ := bind_eq_ok.mp h
  obtain ⟨⟨⟩, t', haction, hnil⟩ := bind_eq_ok.mp h
  cases hnil
  exact ⟨s, bind_eq_ok.mpr ⟨⟨⟩, v, hpush, hbefore⟩, by simpa using haction⟩

/-- Where a body starts, its one block has no locals of its own. -/
lemma stacks_rooted (hu : u.Idle) (hlocals : u.locals = base) (hnodup : (base.map Prod.fst).Nodup) :
    (rooted u).Stacks base [[]] where
  locals := hlocals
  ids := by simp [rooted, LowerState.build, hu.frames, Frame.root]
  nodup := by
    rw [show (rooted u).locals = base from hlocals]
    exact hnodup

/-- After every action the locals of the open blocks are those in sight. -/
lemma Passes.stacks (hregistry : env.registry = .builtin) (hstart : (rooted u).Settled)
    (hbase : (rooted u).Stacks base [[]]) (hbefore : ∀ a ∈ before, a.NoAddress)
    (h : Passes env u before s) : s.Settled ∧ ∃ blocks, s.Stacks base blocks ∧
      ∀ x l, Lasts x l 0 blocks ↔ ∃ earlier a later r, before = earlier ++ a :: later ∧
        Passes env u earlier r ∧ Introduces env r earlier.length a x ∧
        staysOpen 0 (a :: later ++ l) = true := by
  induction before using List.reverseRecOn generalizing s with
  | nil =>
    obtain ⟨-, rfl⟩ := EStateM.Result.ok.inj h
    exact ⟨hstart, [[]], hbase, fun x l => by simp [Lasts]⟩
  | append_singleton before a ih =>
    obtain ⟨s', h', haction⟩ := h.snoc
    obtain ⟨hs', blocks, hstacks, hin⟩ := ih (fun b hb => hbefore b (by simp [hb])) h'
    obtain ⟨hs, new, hnext, hend, hnew⟩ :=
      lowerAction_stacks hregistry hs' hstacks (hbefore a (by simp)) haction
    refine ⟨hs, nextBlocks a new blocks, hnext, fun x l => ?_⟩
    rw [lasts_nextBlocks (hstacks.ne_nil hs') hend, hin, hnew]
    constructor
    · rintro (⟨earlier, b, later, r, rfl, hr, hintroduces, hopen⟩ | ⟨hintroduces, hopen⟩)
      · exact ⟨earlier, b, later ++ [a], r, by simp, hr, hintroduces, by simpa using hopen⟩
      · exact ⟨before, a, [], s', rfl, h', hintroduces, hopen⟩
    · rintro ⟨earlier, b, later, r, hsplit, hr, hintroduces, hopen⟩
      rcases List.eq_nil_or_concat' later with rfl | ⟨later', y, rfl⟩
      · obtain ⟨rfl, hab⟩ := List.append_inj' hsplit rfl
        obtain rfl := List.singleton_injective hab
        obtain ⟨-, rfl⟩ := EStateM.Result.ok.inj (h'.symm.trans hr)
        exact .inr ⟨hintroduces, hopen⟩
      · rw [← List.cons_append, ← List.append_assoc] at hsplit
        obtain ⟨rfl, hab⟩ := List.append_inj' hsplit rfl
        obtain rfl := List.singleton_injective hab
        exact .inl ⟨earlier, b, later', r, rfl, hr, hintroduces, by simpa using hopen⟩

/-! ## Main statement -/

/-- Where an action of the body is bound, exactly the locals of the base and those in sight can be
referred to, each with its slot, and no local with one of their ids can be declared. -/
structure LexicallyScoped (env : Environment) (base : List (String × SlotId)) (u : LowerState)
    (before : List Action) (s : LowerState) : Prop where
  resolves : ∀ id slot, (∃ t, resolve (.localVar id) s = .ok slot t) ↔
    (id, slot) ∈ base ∨ InSight env u before (id, slot)
  taken : ∀ id slot type, (id, slot) ∈ base ∨ InSight env u before (id, slot) →
    declareLocal id type s = .error ⟨.duplicateName id none, some s.coordinate⟩ s
  free : ∀ id type, (∀ slot, (id, slot) ∉ base ∧ ¬InSight env u before (id, slot)) →
    ∃ slot t, declareLocal id type s = .ok slot t

lemma Passes.lexicallyScoped (hregistry : env.registry = .builtin) (hstart : (rooted u).Settled)
    {given : List (String × SlotId)} (hbase : (rooted u).Stacks given [[]])
    (hgiven : ∀ x, x ∈ given ↔ x ∈ base) (hbefore : ∀ a ∈ before, a.NoAddress)
    (h : Passes env u before s) (name : String) :
    LexicallyScoped env base u before (atAction s before.length name) := by
  obtain ⟨hs, blocks, hstacks, hin⟩ := h.stacks hregistry hstart hbase hbefore
  have hsight : ∀ x, x ∈ s.locals ↔ x ∈ base ∨ InSight env u before x := by
    intro x
    have hopen := hin x []
    simp only [lasts_nil, List.append_nil] at hopen
    rw [hstacks.locals, List.mem_append, hopen, hgiven, or_comm]
    rfl
  have hlookup : ∀ id slot, s.locals.lookup id = some slot ↔
      (id, slot) ∈ base ∨ InSight env u before (id, slot) := fun id slot => by
    rw [← hsight]
    exact ⟨mem_of_lookup, lookup_of_nodup hstacks.nodup⟩
  have hlocals : (atAction s before.length name).locals = s.locals := rfl
  refine ⟨fun id slot => ?_, fun id slot type hslot => ?_, fun id type hnone => ?_⟩
  · rw [← hlookup]
    unfold resolve
    simp only [bind_of_ok (get_apply _), hlocals]
    cases s.locals.lookup id with
    | none => exact ⟨fun ⟨_, ht⟩ => (by cases ht), fun h => (by cases h)⟩
    | some other =>
      refine ⟨fun ⟨t, ht⟩ => ?_, fun h => ?_⟩
      · obtain ⟨rfl, -⟩ := EStateM.Result.ok.inj ht
        rfl
      · obtain rfl := Option.some.inj h
        exact ⟨_, rfl⟩
  · unfold declareLocal
    rw [bind_of_ok (get_apply _), hlocals, (hlookup id slot).mpr hslot]
    rfl
  · have hnew : s.locals.lookup id = none := by
      cases hfound : s.locals.lookup id with
      | none => rfl
      | some slot =>
        rcases (hlookup id slot).mp hfound with hslot | hslot
        · exact absurd hslot (hnone slot).1
        · exact absurd hslot (hnone slot).2
    have hs' := settled_atAction hs before.length name
    obtain ⟨f, rest, hf, -⟩ := hs'.follows
    obtain ⟨slot, code, site, hslot, -⟩ := temporary_yields hs'.sound.ready type
    unfold declareLocal
    rw [bind_of_ok (get_apply _), hlocals, hnew]
    exact ⟨slot, _, (bind_of_ok hslot _).trans
      (bind_of_ok (modifyCurrent_apply (s := (atAction s before.length name).on site) hf _) _)⟩

/-- The compile of a group comes to the body of an action: its variables are declared, and the actions
before this one are assembled. -/
inductive ReachesAction (env : Environment) (g : ActionGroup) (a : GroupAction) (e : GroupEntry)
    (s : LowerState) : Prop where
  | intro {before after : List GroupAction} {entries : List GroupEntry} {s₀ s₁ : LowerState}
      (actions : g.actions = before ++ a :: after)
      (declares : g.declarations.forM declareGroupVariable {} = .ok ⟨⟩ s₀)
      (assembled : assembleGroupActions env 0 before s₀ = .ok entries s₁)
      (opened : openAction env before.length a s₁ = .ok e s)

/-- Locals are lexically scoped. Wherever lowering gets in the body of an event, the locals that can be
referred to are those that an accepted action before declared in a block that is still open, each with
the slot it got there; and no other local with the id of one of these can be declared. In the body of
an action of a group its parameters are in sight as well. -/
theorem locals_are_lexically_scoped (options : CompileOptions) :
    (∀ (t : Trigger) (actions before after : List Action) (u s : LowerState) (name : String),
      t.NoAddress → ReachesBody ⟨.builtin, options⟩ t actions u → actions = before ++ after →
      Passes ⟨.builtin, options⟩ u before s →
      LexicallyScoped ⟨.builtin, options⟩ [] u before (atAction s before.length name)) ∧
    ∀ (g : ActionGroup) (a : GroupAction) (e : GroupEntry) (before after : List Action)
      (u s : LowerState) (name : String), g.NoAddress → ReachesAction ⟨.builtin, options⟩ g a e u →
      a.actions = before ++ after → Passes ⟨.builtin, options⟩ u before s →
      e.parameters.map Prod.fst = a.parameters ∧
      LexicallyScoped ⟨.builtin, options⟩ (e.parameters.map fun x => (x.1.name, x.2)) u before
        (atAction s before.length name) := by
  have henv : Environment.Sound ⟨.builtin, options⟩ := Registry.Standard.builtin.sound options
  constructor
  · rintro t _ before after u s name ht hreaches rfl hpasses
    have hstarts := hreaches.starts henv Registry.Standard.builtin.namesTemporaries ht
    refine hpasses.lexicallyScoped rfl ?_ ?_ (fun _ => Iff.rfl)
      (fun a ha => hstarts.actions a (by simp [ha])) name
    · exact settled_rooted (hstarts.idle.sound hstarts.method_lt) hstarts.idle.frames
        hstarts.idle.pending
    · exact stacks_rooted hstarts.idle hstarts.locals (by simp)
  · rintro g a e before after u s name hg hreaches hactions hpasses
    obtain ⟨hmem, declares, assembled, opened⟩ := hreaches
    rename_i earlier later entries s₀ s₁
    obtain ⟨hs₀, -⟩ := (declareGroup_ensures hg).ok declares
    have hearlier : Goes _ g.agenda s₀ _ _ := assembleGroupActions_goes henv (l := earlier)
      (fun b hb => Agenda.admits_group hg (by simp [hmem, hb])) hs₀ 0
    obtain ⟨hs₁, -⟩ := Ensures.ok hearlier assembled
    have ha := Agenda.admits_group hg (a := a) (by simp [hmem])
    have hopen : Goes ⟨.builtin, options⟩ g.agenda s₁ _ _ := openAction_goes earlier.length ha hs₁
    obtain ⟨hu, -, -, hmethod, hlocals, hparameters, hnodup⟩ := Ensures.ok hopen opened
    refine ⟨hparameters, hpasses.lexicallyScoped rfl ?_ (stacks_rooted hu hlocals ?_)
      (fun _ => List.mem_reverse) (fun b hb => (ha.actions b (by simp [hactions, hb])).2) name⟩
    · exact settled_rooted (hu.sound hmethod) hu.frames hu.pending
    · rw [List.map_reverse, List.nodup_reverse, List.map_map]
      rw [← hparameters, List.map_map] at hnodup
      exact hnodup

/-- A loop declares its index outside of its block, and its body another local inside; after the loop
only the index is in sight. In a group's action with one parameter this is what is in sight. -/
theorem locals_are_lexically_scoped_after_loop :
    (∃ u s slot, LexicallyScoped ⟨.builtin, {}⟩ [] u
      [{ id := "For", inputs := [.constant (.int32 0), .constant (.int32 3), .constant (.int32 1),
          .newLocal "i" "i"] },
        { id := "LocalVariable", inputs := [.var (.localVar "i"), .newLocal "y" "y"] },
        { id := "BlockEnd" }] (atAction s 3 "Log") ∧ s.locals = [("i", slot)]) ∧
    ∃ u slot, LexicallyScoped ⟨.builtin, {}⟩ [("p", slot)] u [] (atAction (rooted u) 0 "Log") := by
  set env : Environment := ⟨.builtin, {}⟩
  obtain ⟨hevent, haction⟩ := locals_are_lexically_scoped {}
  constructor
  · set body : List Action := [_, _, _] with hbody
    set t : Trigger := { events := [{ name := "start", entry := { id := "Start" }, actions := body }] }
      with ht
    have hwalk : ((outcome? (planEvents env 0 t.events {})).any fun r₁ =>
        r₁.1.head?.any fun plan =>
          (outcome? (addMethod plan.exported .entry r₁.2)).any fun r₂ =>
            (outcome? (openEvent plan r₂.1 r₂.2)).any fun r₃ =>
              (outcome? ((do
                onScopes (·.push Frame.root)
                lowerActions env 0 body : Lower Unit) r₃.2)).any fun r₄ =>
                  decide (r₁.1.length = 1 ∧ plan.event.actions = body ∧
                    r₄.2.locals.map Prod.fst = ["i"])) = true := by
      decide +kernel
    obtain ⟨plans, s₁, hplans, hwalk⟩ := exists_outcome_of_any hwalk
    obtain ⟨plan, hhead, hwalk⟩ := (Option.any_eq_true _ _).mp hwalk
    obtain ⟨method, s₂, hadded, hwalk⟩ := exists_outcome_of_any hwalk
    obtain ⟨⟨⟩, u, hopened, hwalk⟩ := exists_outcome_of_any hwalk
    obtain ⟨⟨⟩, s, hrun, hwalk⟩ := exists_outcome_of_any hwalk
    obtain ⟨hlength, hactions, hlocals⟩ := of_decide_eq_true hwalk
    obtain ⟨plan, rfl⟩ := List.length_eq_one_iff.mp hlength
    obtain rfl := Option.some.inj hhead
    have hname : ReachesName env t plan.exported [plan] s₁ :=
      .intro rfl hplans (show _ = [] ++ plan.exported :: [] from rfl) (by simp) rfl
    obtain ⟨⟨name, slot⟩, hlocal, hfst⟩ := List.map_eq_singleton_iff.mp hlocals
    refine ⟨u, s, slot, hevent t body body [] u s "Log" ⟨by simp [ht], ?_⟩ ?_ (by simp) hrun, ?_⟩
    · simp [ht, hbody, Action.NoAddress, Binding.holdsAddress]
    · rw [← hactions]
      exact .alone hname hadded hopened
    · rw [hlocal, ← hfst]
  · set a : GroupAction := { name := "a", parameters := [.input "p" .int32], actions := [] }
    have hwalk : ((outcome? (openAction env 0 a {})).any fun r =>
        decide (r.1.parameters.map Prod.fst = [.input "p" .int32])) = true := by
      decide +kernel
    obtain ⟨e, u, hopened, hwalk⟩ := exists_outcome_of_any hwalk
    obtain ⟨⟨p, slot⟩, hparameters, hfst⟩ := List.map_eq_singleton_iff.mp (of_decide_eq_true hwalk)
    obtain rfl : p = .input "p" .int32 := hfst
    have hreaches : ReachesAction env { guid := "g", name := "g", actions := [a] } a e u :=
      ⟨show [a] = [] ++ a :: [] from rfl, rfl, rfl, hopened⟩
    obtain ⟨-, hscoped⟩ := haction _ a e [] [] u (rooted u) "Log" ⟨by simp, by simp [a]⟩ hreaches rfl rfl
    rw [hparameters] at hscoped
    exact ⟨u, slot, hscoped⟩

end Lower

end TriggerCompiler
