import Mathlib
import TriggerCompiler.Proofs.Lowering

/-!
# What binding notes down

An action is bound before it is lowered. Binding asks for slots, and it notes two things for later: a
fresh local comes into sight, and a constant leaves a reference to its place. Here it is said of each
input what is noted, and of an action what it has declared, so that what is noted can be followed over
a body.
-/

namespace TriggerCompiler

variable {inputs : List (Parameter × Binding)} {inferred : Option ValueType} {ids : List SlotId}

/-- The id of the local that a binding declares. -/
def Binding.local? : Binding → Option String
  | .newLocal id _ => some id
  | _ => none

/-- The locals that some bindings declare, with the slots that they were bound to. -/
def declaredLocals (bindings : List Binding) (slots : List SlotId) : List (String × SlotId) :=
  (bindings.zip slots).filterMap fun (b, slot) => b.local?.map (·, slot)

namespace Lower

variable {s t u : LowerState} {p : Parameter} {b : Binding} {id : SlotId} {e : CompileError}
  {d : ActionDef} {a : Action} {r : BoundAction}

/-! ## One input -/

/-- From one state to the other slots were asked for, and nothing was noted. -/
def Asks (s t : LowerState) : Prop :=
  ∃ program used pending, t = { s with program, used, pending }

lemma Asks.refl (s : LowerState) : Asks s s := ⟨_, _, _, rfl⟩

lemma Asks.locals (h : Asks s t) : t.locals = s.locals := by
  obtain ⟨program, used, pending, rfl⟩ := h
  rfl

/-- The reference that a constant input leaves. -/
def reference (s : LowerState) (p : Parameter) (table : SlotTable) (slot : SlotId) :
    SymbolReference where
  slot := slot
  name := (table.get slot).name
  event := s.coordinate.event
  action := s.coordinate.action
  parameter := p.name

/-- What is noted of an input that is bound: a local, or a reference to a constant. -/
def Notes (s : LowerState) (p : Parameter) (b : Binding) (id : SlotId) (t : LowerState) : Prop :=
  match b with
  | .newLocal name _ => ∃ program scopes, t = { s with
      program, scopes, locals := (name, id) :: s.locals }
  | .constant value => ∃ table, t = { s with
      program := { s.program with slots := table }
      references := s.references.push (reference s p table id) } ∧
      s.program.slots.constant (p.type.getD value.typeOrObject) value = (id, table)
  | _ => Asks s t

/-- What is looked up is noted by nobody. -/
lemma resolve_asks (ref : VariableRef) (s : LowerState) :
    Ensures s (resolve ref) (fun _ t => Asks s t) fun _ t => t = s := by
  have huse : ∀ (x : Lower SlotId), Ensures s x (fun _ t => Asks s t) (fun _ t => t = s) →
      Ensures s (x >>= fun slot => do
        modify fun s => { s with used := slot :: s.used }
        return slot) (fun _ t => Asks s t) fun _ t => t = s := by
    intro x hx
    refine Ensures.bind hx ?_
    rintro id t - ⟨program, used, pending, rfl⟩
    exact Ensures.of_ok rfl ⟨program, id :: used, pending, rfl⟩
  have hfound : ∀ (name : String) (o : Option SlotId),
      Ensures s (found name o) (fun _ t => Asks s t) fun _ t => t = s := by
    intro name o
    cases o with
    | some id => exact Ensures.of_ok rfl (.refl s)
    | none => exact Ensures.of_error rfl rfl
  refine Ensures.step rfl ?_
  cases ref with
  | user name =>
    refine huse _ ?_
    cases s.program.slots.findUser name with
    | ok id => exact Ensures.of_ok rfl (.refl s)
    | error kind => exact Ensures.of_error rfl rfl
  | localVar name => exact huse _ (hfound _ _)
  | eventInput name => exact huse _ (hfound _ _)
  | conditionResult =>
    refine huse (conditionResult? >>= fun o => found "ConditionResult" (o.map (·.2))) ?_
    exact Ensures.step rfl (hfound _ _)
  | this => exact huse _ (Ensures.of_ok rfl ⟨_, _, _, rfl⟩)

lemma placeholder_asks (p : Parameter) (s : LowerState) :
    Ensures s (placeholder p) (fun _ t => Asks s t) fun _ t => t = s := by
  unfold placeholder
  split
  · exact Ensures.of_error rfl rfl
  · exact Ensures.of_ok rfl ⟨_, _, _, rfl⟩

/-- Checking the type of a slot changes nothing. -/
lemma checkType_asks (hst : Asks s t) {p : Parameter} {test : Slot → Prop}
    {dec : ∀ x, Decidable (test x)} {expected actual : Slot → ValueType} :
    Ensures t (slot id >>= fun x => @ite _ (test x) (dec x) (Pure.pure id)
      (mismatch p (expected x) (actual x))) (fun _ t => Asks s t) fun _ t => Asks s t := by
  refine Ensures.step rfl ?_
  split_ifs
  · exact Ensures.of_ok rfl hst
  · exact Ensures.of_error rfl hst

lemma bindConstant_notes (p : Parameter) (value : Value) (s : LowerState) :
    Ensures s (bindConstant p (p.type.getD value.typeOrObject) value)
      (fun id t => Notes s p (.constant value) id t) fun _ t => Asks s t :=
  Ensures.of_ok rfl ⟨_, rfl, rfl⟩

lemma bindRead_notes (b : Binding) (p : Parameter) (s : LowerState) :
    Ensures s (bindRead b p) (fun id t => Notes s p b id t ∧ b.local? = none)
      fun _ t => Asks s t := by
  have hsame : ∀ _ t, t = s → Asks s t := fun (_ : CompileError) t ht => ht ▸ .refl s
  unfold bindRead
  cases b with
  | unbound => exact (placeholder_asks p s).mono (fun _ _ h => ⟨h, rfl⟩) hsame
  | constant value =>
    cases htype : p.type with
    | none =>
      have hnotes := bindConstant_notes p value s
      rw [htype] at hnotes
      exact hnotes.mono (fun _ _ h => ⟨h, rfl⟩) fun _ _ h => h
    | some type =>
      dsimp only
      split_ifs
      · have hnotes := bindConstant_notes p value s
        rw [htype] at hnotes
        exact hnotes.mono (fun _ _ h => ⟨h, rfl⟩) fun _ _ h => h
      · exact Ensures.of_error rfl (.refl s)
  | var ref =>
    refine Ensures.bind ((resolve_asks ref s).mono (fun _ _ h => h) hsame) ?_
    intro id t _ hst
    cases p.type with
    | none => exact Ensures.of_ok rfl ⟨hst, rfl⟩
    | some type => exact (checkType_asks hst).mono (fun _ _ h => ⟨h, rfl⟩) fun _ _ h => h
  | newLocal name shown => exact Ensures.of_error rfl (.refl s)

/-- A local that is declared comes into sight. -/
lemma declareLocal_notes (name shown : String) (type : ValueType) (p : Parameter) (s : LowerState) :
    Ensures s (declareLocal name type) (fun id t => Notes s p (.newLocal name shown) id t)
      fun _ t => Asks s t := by
  unfold declareLocal
  refine Ensures.step rfl ?_
  refine Ensures.check (fun _ => .refl s) fun _ => ?_
  refine Ensures.bind (P := fun _ t => Asks s t) (Ensures.of_ok rfl ⟨_, _, _, rfl⟩) ?_
  rintro id t ht hst
  have hpending : t = { s with program := t.program } := by
    obtain ⟨-, rfl⟩ := EStateM.Result.ok.inj ht
    rfl
  cases hframes : t.scopes.frames with
  | nil =>
    have hindex : currentIndex t =
        .error { kind := .broken (.noFrame 0), coordinate := some t.coordinate } t := by
      refine (bind_of_ok (get_apply t) _).trans ?_
      rw [if_pos (by simp [ScopeStack.depth, hframes])]
      rfl
    exact Ensures.of_error (bind_of_error (bind_of_error hindex _) _) hst
  | cons f rest =>
    refine Ensures.bind (P := fun _ u => ∃ frames, u = t.build t.program frames)
      (Ensures.of_ok (modifyCurrent_apply hframes _) ⟨_, rfl⟩) ?_
    rintro ⟨⟩ _ - ⟨frames, rfl⟩
    refine Ensures.of_ok rfl ⟨t.program, ⟨frames⟩, ?_⟩
    rw [hpending]
    rfl

lemma bindWrite_notes (b : Binding) (p : Parameter) (inferred : Option ValueType) (s : LowerState) :
    Ensures s (bindWrite b p inferred) (fun id t => Notes s p b id t) fun _ t => Asks s t := by
  have hsame : ∀ _ t, t = s → Asks s t := fun (_ : CompileError) t ht => ht ▸ .refl s
  unfold bindWrite
  cases b with
  | unbound => exact (placeholder_asks p s).mono (fun _ _ h => h) hsame
  | constant value => exact Ensures.of_error rfl (.refl s)
  | var ref =>
    cases ref with
    | this => exact Ensures.of_error rfl (.refl s)
    | _ =>
      refine Ensures.bind ((resolve_asks _ s).mono (fun _ _ h => h) hsame) ?_
      intro id t _ hst
      cases p.type with
      | none => exact Ensures.of_ok rfl hst
      | some type => exact checkType_asks hst
  | newLocal name shown => exact declareLocal_notes name shown _ p s

lemma bindInput_notes (p : Parameter) (b : Binding) (inferred : Option ValueType) (s : LowerState) :
    Ensures s (bindInput p b inferred)
      (fun id t => Notes s p b id t ∧ (p.direction ≠ .out → b.local? = none)) fun _ t => Asks s t := by
  unfold bindInput
  split_ifs with hout
  · exact (bindWrite_notes b p inferred s).mono (fun _ _ h => ⟨h, fun hne => absurd hout hne⟩)
      fun _ _ h => h
  · exact (bindRead_notes b p s).mono (fun _ _ h => ⟨h.1, fun _ => h.2⟩) fun _ _ h => h

/-! ## All inputs -/

lemma Notes.locals (h : Notes s p b id t) : t.locals = (b.local?.map (·, id)).toList ++ s.locals := by
  cases b with
  | newLocal name shown =>
    obtain ⟨program, scopes, rfl⟩ := h
    rfl
  | constant value =>
    obtain ⟨table, rfl, -⟩ := h
    rfl
  | unbound | var => exact Asks.locals h

lemma bindInputs_ok (h : bindInputs ((p, b) :: inputs) inferred s = .ok ids t) :
    ∃ id u more, bindInput p b inferred s = .ok id u ∧ ids = id :: more ∧
      bindInputs inputs (inferNext inferred p u.program.slots id) u = .ok more t := by
  rw [bindInputs_cons] at h
  obtain ⟨id, u, hfirst, h⟩ := bind_eq_ok.mp h
  obtain ⟨more, v, hmore, h⟩ := bind_eq_ok.mp h
  obtain ⟨rfl, rfl⟩ := EStateM.Result.ok.inj h
  exact ⟨id, u, more, hfirst, rfl, hmore⟩

/-- The locals that the inputs declare come into sight, one after the other. Only outputs declare. -/
lemma bindInputs_locals (h : bindInputs inputs inferred s = .ok ids t) :
    t.locals = (declaredLocals (inputs.map Prod.snd) ids).reverse ++ s.locals ∧
      ∀ x ∈ inputs, x.1.direction ≠ .out → x.2.local? = none := by
  induction inputs generalizing s inferred ids with
  | nil =>
    obtain ⟨rfl, rfl⟩ := EStateM.Result.ok.inj h
    exact ⟨rfl, by simp⟩
  | cons x inputs ih =>
    obtain ⟨p, b⟩ := x
    obtain ⟨id, u, more, hfirst, rfl, hmore⟩ := bindInputs_ok h
    obtain ⟨hnoted, hlocal⟩ := (bindInput_notes p b inferred s).ok hfirst
    obtain ⟨hlocals, hothers⟩ := ih hmore
    refine ⟨?_, List.forall_mem_cons.mpr ⟨hlocal, hothers⟩⟩
    rw [hlocals, hnoted.locals]
    cases hb : b.local? <;> simp [declaredLocals, hb]

/-- If only the last input can be an output, binding that fails has declared no local. -/
lemma bindInputs_locals_of_error (h : bindInputs inputs inferred s = .error e t)
    (hout : ∀ x ∈ inputs.dropLast, x.1.direction ≠ .out) : t.locals = s.locals := by
  induction inputs generalizing s inferred with
  | nil => cases h
  | cons x inputs ih =>
    obtain ⟨p, b⟩ := x
    have hnotes := bindInput_notes p b inferred s
    rw [bindInputs_cons] at h
    rcases bind_eq_error.mp h with hfirst | ⟨id, u, hfirst, h⟩
    · exact Asks.locals (hnotes.error hfirst)
    rcases bind_eq_error.mp h with hmore | ⟨more, v, hmore, h⟩
    · obtain ⟨hnoted, hlocal⟩ := hnotes.ok hfirst
      cases inputs with
      | nil => cases hmore
      | cons y inputs =>
        have hnone : b.local? = none := hlocal (hout (p, b) (by simp))
        rw [ih hmore fun x hx => hout x (List.mem_cons_of_mem _ hx), hnoted.locals, hnone]
        rfl
    · cases h

/-- Inputs that are read declare nothing. -/
lemma declaredLocals_of_reads (h : bindInputs inputs inferred s = .ok ids t)
    (hread : ∀ x ∈ inputs, x.1.direction ≠ .out) :
    declaredLocals (inputs.map Prod.snd) ids = [] ∧ t.locals = s.locals := by
  obtain ⟨hlocals, hnone⟩ := bindInputs_locals h
  have hnew : declaredLocals (inputs.map Prod.snd) ids = [] := by
    refine List.filterMap_eq_nil_iff.mpr fun x hx => ?_
    have hx : x.1 ∈ inputs.map Prod.snd := (List.of_mem_zip hx).1
    obtain ⟨y, hy, hb⟩ := List.mem_map.mp hx
    simp [← hb, hnone y hy (hread y hy)]
  rw [hnew] at hlocals
  exact ⟨hnew, hlocals⟩

/-! ## Binding an action -/

/-- What it takes to bind an action. -/
lemma bindAction_ok (h : bindAction d a s = .ok r t) :
    a.inputs.length = d.parameters.length ∧ ∃ u,
      bindInputs (d.parameters.zip a.inputs) none s = .ok r.inputs u ∧
      bindInputs (targetInputs d a) none u = .ok r.targets t ∧
      (a.targets ≠ [] → d.manyTargets = true) := by
  rw [bindAction_eq] at h
  split_ifs at h with harity hmany
  · cases h
  · cases h
  obtain ⟨inputs, u, hinputs, h⟩ := bind_eq_ok.mp h
  obtain ⟨targets, v, htargets, h⟩ := bind_eq_ok.mp h
  obtain ⟨rfl, rfl⟩ := EStateM.Result.ok.inj h
  refine ⟨not_not.mp harity, u, hinputs, htargets, fun hne => ?_⟩
  by_contra hone
  exact hmany (by simp [hone, hne])

/-- Where the binding of an action fails. -/
lemma bindAction_error (h : bindAction d a s = .error e t) :
    t = s ∨ a.inputs.length = d.parameters.length ∧
      (bindInputs (d.parameters.zip a.inputs) none s = .error e t ∨
        ∃ inputs u, bindInputs (d.parameters.zip a.inputs) none s = .ok inputs u ∧
          bindInputs (targetInputs d a) none u = .error e t) := by
  rw [bindAction_eq] at h
  split_ifs at h with harity
  · exact .inl (EStateM.Result.error.inj h).2.symm
  · exact .inl (EStateM.Result.error.inj h).2.symm
  · refine .inr ⟨not_not.mp harity, ?_⟩
    rcases bind_eq_error.mp h with hinputs | ⟨inputs, u, hinputs, h⟩
    · exact .inl hinputs
    · rcases bind_eq_error.mp h with htargets | ⟨targets, v, htargets, h⟩
      · exact .inr ⟨inputs, u, hinputs, htargets⟩
      · cases h

lemma bindAction_locals (h : bindAction d a s = .ok r t) :
    t.locals = (declaredLocals a.inputs r.inputs).reverse ++ s.locals := by
  obtain ⟨harity, u, hinputs, htargets, -⟩ := bindAction_ok h
  rw [(declaredLocals_of_reads htargets fun x hx => (mem_targetInputs hx).2.1).2,
    (bindInputs_locals hinputs).1, List.map_snd_zip harity.le]

/-- If outputs come last, and there are none where there are targets, an action that cannot be bound
has declared no local. -/
lemma bindAction_locals_of_error (hlast : ∀ p ∈ d.parameters.dropLast, p.direction ≠ .out)
    (htargets : (∃ signature type, d.kind = .host signature (some type)) →
      ∀ p ∈ d.parameters, p.direction ≠ .out)
    (h : bindAction d a s = .error e t) : t.locals = s.locals := by
  rcases bindAction_error h with rfl | ⟨harity, hinputs | ⟨ids, u, hinputs, htarget⟩⟩
  · rfl
  · refine bindInputs_locals_of_error hinputs fun x hx => hlast x.1 ?_
    rw [← List.map_fst_zip harity.ge, ← List.map_dropLast]
    exact List.mem_map_of_mem hx
  · have hread : ∀ x ∈ targetInputs d a, x.1.direction ≠ .out := fun x hx => (mem_targetInputs hx).2.1
    rw [bindInputs_locals_of_error htarget fun x hx => hread x (List.mem_of_mem_dropLast hx)]
    obtain ⟨y, hy⟩ : ∃ y, y ∈ targetInputs d a := List.exists_mem_of_ne_nil _ fun hnil => by
      rw [hnil] at htarget
      cases htarget
    exact (declaredLocals_of_reads hinputs fun x hx =>
      htargets (mem_targetInputs hy).2.2 x.1 (List.of_mem_zip hx).1).2

end Lower

end TriggerCompiler
