import Mathlib
import TriggerCompiler.Proofs.Events

/-!
# Assembling groups

The actions of a group are methods that are called. What a caller has to know of one is its entry:
the slots it leaves the arguments in, the slot for the address to return to, and the slots of the
event inputs. An entry is right in the state in which its body starts, and every step of the rest of
the compile keeps it right.
-/

namespace TriggerCompiler

variable {a : GroupAction} {name : String} {slot : SlotId} {g : ActionGroup}

namespace Lower

variable {s t u : LowerState} {env : Environment} {agenda : Agenda}

/-! ## Callees stay -/

lemma Lowered.callee {d : ActionDef} {a : Action} (h : Lowered env d a s t)
    (hc : s.program.Callee name slot) : t.program.Callee name slot := by
  cases h with
  | statement _ _ _ prepares _ emits _ =>
    exact emits.adds.toWorks.callee (prepares.adds.toWorks.callee hc)
  | call _ prepares _ emits _ _ => exact emits.adds.toWorks.callee (prepares.adds.toWorks.callee hc)
  | group _ prepares _ calls =>
    obtain ⟨merges, -, -, -, -, speaks, -⟩ := calls
    refine speaks.adds.toWorks.callee ?_
    have hc' := prepares.adds.toWorks.callee hc
    cases merges with
    | before => exact hc'
    | @now _ _ host _ _ merged _ =>
      obtain ⟨m, hm, hname⟩ := hc'
      refine ⟨m, (?_ : m ∈ host.methods.toList), hname⟩
      rw [merged.methods, Array.toList_append]
      exact List.mem_append_left _ hm
  | opener _ _ prepares _ _ block => exact block.works.callee (prepares.adds.toWorks.callee hc)
  | closer _ _ _ closes => exact closes.works.callee hc

/-- A step keeps every method that is called. -/
lemma Step.keeps_callee (h : Step env agenda s t) (hc : s.program.Callee name slot) :
    t.program.Callee name slot := by
  cases h with
  | turn | previous | input | parameter | opens => exact hc
  | entry | callee =>
    obtain ⟨m, hm, hname⟩ := hc
    exact ⟨m, by simpa using .inl (by simpa using hm), hname⟩
  | preamble _ _ emits _ => exact emits.adds.toWorks.callee hc
  | action _ _ _ _ lowered _ settles _ _ => exact settles.adds.toWorks.callee (lowered.callee hc)
  | closes _ ends => exact ends.adds.toWorks.callee hc

lemma Steps.keeps_callee (h : Steps env agenda s t) (hc : s.program.Callee name slot) :
    t.program.Callee name slot := by
  induction h with
  | refl => exact hc
  | tail _ hstep ih => exact hstep.keeps_callee ih

/-! ## Variables and parameters -/

lemma declareGroupVariables_ensures (vs : List VariableDecl) {decls : List VariableDecl}
    (h : s.program.slots.Declares decls) :
    Ensures s (vs.forM declareGroupVariable)
      (fun _ t => t.program.slots.Declares (decls ++ vs.map ({ · with notifies := false })) ∧
        ∃ warnings, t = { s with program := { s.program with slots := t.program.slots }, warnings })
      fun e t => (∃ name kind, e.kind = .duplicateName name kind) ∧ t.errors = s.errors := by
  induction vs generalizing decls s with
  | nil =>
    refine Ensures.of_ok rfl ⟨?_, _, rfl⟩
    simpa using h
  | cons v vs ih =>
    have hone : Ensures s (declareGroupVariable v)
        (fun _ t => t.program.slots.Declares (decls ++ [{ v with notifies := false }]) ∧
          ∃ warnings, t = { s with
            program := { s.program with slots := t.program.slots }, warnings })
        fun e t => (∃ name kind, e.kind = .duplicateName name kind) ∧ t.errors = s.errors := by
      unfold declareGroupVariable
      dsimp only
      split_ifs
      · refine Ensures.bind (Ensures.of_ok rfl (P := fun _ t => ∃ warnings,
          t = { s with warnings }) ⟨_, rfl⟩) ?_
        rintro ⟨⟩ _ - ⟨warnings, rfl⟩
        exact (declareUser_ensures (s := { s with warnings }) _ h).mono
          (fun _ t ⟨ht, hstate⟩ => ⟨ht, warnings, hstate⟩) fun _ _ he => he
      · exact (declareUser_ensures _ h).mono (fun _ t ⟨ht, hstate⟩ => ⟨ht, _, hstate⟩)
          fun _ _ he => he
    refine Ensures.bind hone ?_
    rintro ⟨⟩ t - ⟨ht, warnings, hstate⟩
    refine (ih ht).mono ?_ ?_
    · rintro ⟨⟩ u ⟨hu, warnings', hstate'⟩
      refine ⟨by simpa using hu, warnings', hstate'.trans ?_⟩
      rw [hstate]
    · rintro e u ⟨he, herrors⟩
      refine ⟨he, herrors.trans ?_⟩
      rw [hstate]

section

variable (hs : s.Idle) (place : Coordinate)
include hs place

/-- A parameter is declared, or its name is taken, or it has no type. -/
lemma declareParameter_goes {action : String} {p : Parameter}
    (hp : agenda.declares (action ++ "_" ++ p.name)) :
    Goes env agenda s (declareParameter action place p) fun r t =>
      r.1 = p ∧ t.locals = (p.name, r.2) :: s.locals ∧
        (t.program.slots.get r.2).isSynced = false ∧
        (t.program.slots.get r.2).name = action ++ "_" ++ p.name ∧
        ∀ id < s.program.slots.size, (s.program.slots.get id).name ≠ action ++ "_" ++ p.name := by
  unfold declareParameter
  split
  · exact Goes.of_error rfl (.of_kind rfl (by simp) (by simp)) rfl
  · rename_i type _
    cases hdeclare : s.program.slots.declare (action ++ "_" ++ p.name) type .user with
    | error kind =>
      obtain ⟨n, other, rfl⟩ := SlotTable.insert_eq_error hdeclare
      exact Goes.of_error ((bind_of_ok (trySlots_of_error hdeclare) _).trans rfl)
        (.of_duplicate ⟨_, _, rfl⟩) rfl
    | ok result =>
      obtain ⟨slot, table⟩ := result
      have hgains := SlotTable.declare_gains hdeclare
      have hfresh := SlotTable.findName?_eq_none (SlotTable.insert_eq_ok hdeclare).1
      have hget : table.get slot =
          { name := action ++ "_" ++ p.name, type := type, kind := .user } := by
        obtain ⟨-, rfl, rfl⟩ := SlotTable.insert_eq_ok hdeclare
        rw [SlotTable.get_push_self]
      have hkind : table.HasKind [.temporary, .user] slot := ⟨hgains.lt, by simp [hget]⟩
      have hslot : trySlots (·.declare (action ++ "_" ++ p.name) type .user) s =
          .ok (.ok slot) { s with program := { s.program with slots := table } } :=
        trySlots_of_ok hdeclare
      refine Goes.of_step ((bind_of_ok hslot _).trans rfl) (.parameter hs hp hdeclare) ?_
        hgains.within le_rfl rfl
        ⟨rfl, rfl, congrArg Slot.isSynced hget, congrArg Slot.name hget,
          fun id hid => hfresh _ (List.mem_of_getElem? (SlotTable.slots_getElem? hid))⟩
      refine { idle_gains hs hgains with locals := fun e he => ?_ }
      rcases List.mem_cons.mp he with rfl | he
      · exact hkind
      · exact (hs.locals e he).within hgains.within

lemma declareParameters_goes {action : String} {parameters : List Parameter}
    (hparameters : ∀ p ∈ parameters, agenda.declares (action ++ "_" ++ p.name)) :
    Goes env agenda s (parameters.mapM (declareParameter action place)) fun r t =>
      (∀ x ∈ r, (t.program.slots.get x.2).isSynced = false) ∧
        t.locals = (r.map fun x => (x.1.name, x.2)).reverse ++ s.locals ∧
        r.map Prod.fst = parameters ∧ (parameters.map (·.name)).Nodup ∧
        ∀ p ∈ parameters, ∀ id < s.program.slots.size,
          (s.program.slots.get id).name ≠ action ++ "_" ++ p.name := by
  induction parameters generalizing s with
  | nil => exact Goes.pure hs ⟨by simp, rfl, rfl, by simp, by simp⟩
  | cons p parameters ih =>
    rw [List.mapM_cons]
    refine Goes.bind (declareParameter_goes hs place (hparameters p List.mem_cons_self)) ?_
    rintro ⟨q, slot⟩ t ht hct ⟨hq, hlocals, hsync, hname, hfresh⟩
    obtain rfl : q = p := hq
    refine Goes.bind (ih ht fun x hx => hparameters x (List.mem_cons_of_mem _ hx)) ?_
    rintro r u hu hc ⟨hr, hlocals', hnames, hnodup, hfresh'⟩
    have hslot : slot < t.program.slots.size :=
      (ht.locals (q.name, slot) (hlocals ▸ List.mem_cons_self)).1
    refine Goes.pure hu ⟨?_, by simp [hlocals', hlocals], by simp [hnames], ?_, ?_⟩
    · rintro x (_ | ⟨_, hx⟩)
      · rwa [hc.slots.get_eq hslot]
      · exact hr x hx
    · rw [List.map_cons, List.nodup_cons, List.mem_map]
      refine ⟨?_, hnodup⟩
      rintro ⟨x, hx, hxq⟩
      exact hfresh' x hx slot hslot (hxq ▸ hname)
    · rintro x (_ | ⟨_, hx⟩) id hid
      · exact hfresh id hid
      · rw [← hct.slots.get_eq hid]
        exact hfresh' x hx id (hid.trans_le hct.slots.size_le)

lemma declareInputs_goes {id : String} {type : EventType} (htype : (id, type) ∈ env.registry.events)
    (l : List EventParameter) (hl : ∀ p ∈ l, p ∈ type.parameters) :
    Goes env agenda s (l.mapM fun p => do
      let slot ← raiseAt (some place) (← trySlots (·.reserved p.slot p.type))
      addEventInput p.name slot
      return (p.name, slot)) fun r t =>
        (∀ x ∈ r, x ∈ t.eventInputs) ∧ t.locals = s.locals ∧ s.eventInputs ⊆ t.eventInputs := by
  induction l generalizing s with
  | nil => exact Goes.pure hs ⟨by simp, rfl, List.Subset.refl _⟩
  | cons p l ih =>
    rw [List.mapM_cons]
    have hassoc : (do
          let slot ← raiseAt (some place) (← trySlots (·.reserved p.slot p.type))
          addEventInput p.name slot
          return (p.name, slot) : Lower (String × SlotId)) = (do
        let slot ← (do
          let slot ← trySlots (·.reserved p.slot p.type) >>= raiseAt (some place)
          addEventInput p.name slot
          return slot)
        return (p.name, slot)) := by
      simp only [bind_assoc, pure_bind]
    rw [hassoc]
    have hone : Goes env agenda s (do
        let slot ← (do
          let slot ← trySlots (·.reserved p.slot p.type) >>= raiseAt (some place)
          addEventInput p.name slot
          return slot)
        return (p.name, slot)) fun x t => t.locals = s.locals ∧
          t.eventInputs = x :: s.eventInputs := by
      refine Goes.bind (reserveInput_goes (raiseAt (some place)) (fun _ _ => rfl)
        (fun _ _ => ⟨some place, rfl⟩) hs htype (hl p List.mem_cons_self)) ?_
      exact fun slot t ht _ h => Goes.pure ht ⟨h.1.locals, h.2⟩
    refine Goes.bind hone ?_
    rintro x t ht - ⟨hlocals, hinputs⟩
    refine Goes.bind (ih ht fun q hq => hl q (List.mem_cons_of_mem _ hq)) ?_
    rintro r u hu - ⟨hr, hlocals', hsub⟩
    refine Goes.pure hu ⟨?_, hlocals'.trans hlocals, fun y hy => hsub ?_⟩
    · rintro y (_ | ⟨_, hy⟩)
      · exact hsub (hinputs ▸ List.mem_cons_self)
      · exact hr y hy
    · exact hinputs ▸ List.mem_cons_of_mem _ hy

lemma declareEventInputs_goes (eventType : Option String) :
    Goes env agenda s (declareEventInputs env place eventType) fun r t =>
      (∀ x ∈ r, x ∈ t.eventInputs) ∧ t.locals = s.locals := by
  unfold declareEventInputs
  cases eventType with
  | none => exact Goes.pure hs ⟨by simp, rfl⟩
  | some id =>
    dsimp only
    rcases findEvent_cases env.registry id with ⟨type, hmem, hfound⟩ | hfound
    · rw [hfound]
      refine Goes.bind (P := fun r t => r = type ∧ t = s)
        (Goes.of_ok rfl hs (Course.refl s) ⟨rfl, rfl⟩) ?_
      rintro _ _ - - ⟨rfl, rfl⟩
      exact (declareInputs_goes hs place hmem _ fun _ h => h).mono
        fun _ _ _ _ h => ⟨h.1, h.2.1⟩
    · rw [hfound]
      exact Goes.of_error rfl (.of_kind rfl (by simp) (by simp)) rfl

end

/-! ## Actions -/

/-- In the state in which its body starts, the entry has the method, the locals and the event inputs
of the body. -/
structure Entered (env : Environment) (agenda : Agenda) (s : LowerState) (e : GroupEntry) :
    Prop where
  idle : s.Idle
  callee : ∃ r, r.program.Callee e.method e.returnSlot ∧ Course env agenda r s
  returnSlot : e.returnSlot < s.program.slots.size
  parameters : ∀ x ∈ e.parameters, (x.1.name, x.2) ∈ s.locals
  unsynced : ∀ x ∈ e.parameters, (s.program.slots.get x.2).isSynced = false
  eventSlots : ∀ x ∈ e.eventSlots, x ∈ s.eventInputs

lemma Entered.calleeAfter {e : GroupEntry} (h : Entered env agenda s e) (hc : Course env agenda s t)
    (ht : t.errors = #[]) : t.program.Callee e.method e.returnSlot := by
  obtain ⟨r, hcallee, hr⟩ := h.callee
  exact Steps.keeps_callee ((hr.trans hc).steps ht).2 hcallee

lemma Entered.sound {e : GroupEntry} (h : Entered env agenda s e) (hc : Course env agenda s t)
    (ht : t.errors = #[]) : e.Sound t.program where
  method := (h.calleeAfter hc ht).mem_names
  parameters x hx := ((h.idle.locals _ (h.parameters x hx)).within hc.slots).1
  returnSlot := h.returnSlot.trans_le hc.slots.size_le
  eventSlots x hx := ((h.idle.inputs _ (h.eventSlots x hx)).within hc.slots).1

/-- What a compile may do for an action of a group. -/
structure Agenda.Admits (agenda : Agenda) (a : GroupAction) : Prop where
  actions : ∀ x ∈ a.actions, agenda.acts x ∧ x.NoAddress
  adds : agenda.adds a.name .internal
  declares : ∀ p ∈ a.parameters, agenda.declares (a.name ++ "_" ++ p.name)

/-- Makes the method of a group's action with its slots, and turns to it. -/
def openAction (env : Environment) (index : Nat) (a : GroupAction) : Lower GroupEntry := do
  beginEvent index a.name
  let place := Coordinate.entry index a.name
  let method ← raiseAt (some place) (← tryProgram (·.addMethod a.name .internal))
  let returnSlot ← raiseAt (some place)
    (← trySlots (·.declare (a.name ++ "__return") .uint32 .reserved))
  onProgram fun p => ((), p.setEpilogue method (.indirect returnSlot))
  let parameters ← a.parameters.mapM (declareParameter a.name place)
  let eventSlots ← declareEventInputs env place a.eventType
  enterMethod method
  return { name := a.name, method := a.name, parameters, returnSlot, eventType := a.eventType,
           eventSlots }

lemma assembleGroupAction_eq (env : Environment) (index : Nat) (a : GroupAction) :
    assembleGroupAction env index a = (do
      let entry ← openAction env index a
      lowerBody env a.actions
      return entry) := by
  unfold assembleGroupAction openAction
  simp only [bind_assoc, pure_bind]

lemma openAction_goes (index : Nat) (ha : agenda.Admits a) (hs : s.Idle) :
    Goes env agenda s (openAction env index a) fun e t =>
      Entered env agenda t e ∧ t.method < t.program.methods.size ∧
        t.locals = (e.parameters.map fun x => (x.1.name, x.2)).reverse ∧
        e.parameters.map Prod.fst = a.parameters ∧ (a.parameters.map (·.name)).Nodup := by
  unfold openAction
  refine Goes.bind (beginEvent_goes hs index a.name) ?_
  rintro ⟨⟩ s₁ hs₁ hc₁ hstart
  have hcallee : Goes env agenda s₁ _ _ := callee_goes (raiseAt (some (.entry index a.name)))
    (raiseAt (some (.entry index a.name))) a.name
    (k := fun method returnSlot => do
      let parameters ← a.parameters.mapM (declareParameter a.name (.entry index a.name))
      let eventSlots ← declareEventInputs env (.entry index a.name) a.eventType
      enterMethod method
      return ({ name := a.name, method := a.name, parameters, returnSlot, eventType := a.eventType,
                eventSlots } : GroupEntry))
    (R := fun e t => Entered env agenda t e ∧ t.method < t.program.methods.size ∧
      t.locals = (e.parameters.map fun x => (x.1.name, x.2)).reverse ∧
      e.parameters.map Prod.fst = a.parameters ∧ (a.parameters.map (·.name)).Nodup)
    (fun _ _ => rfl) (fun _ _ => ⟨_, rfl⟩) (fun _ _ => rfl) (fun _ _ => ⟨_, rfl⟩) hs₁ ha.adds ?_
  · simp only [bind_assoc] at hcallee
    exact hcallee
  · rintro slot s₂ hs₂ hc₂ hslot hcallee hown ⟨table, hadded⟩
    refine Goes.bind (declareParameters_goes hs₂ _ ha.declares) ?_
    rintro parameters s₃ hs₃ hc₃ ⟨hsync, hlocals₃, hnames, hnodup, -⟩
    refine Goes.bind (declareEventInputs_goes hs₃ _ _) ?_
    rintro inputs s₄ hs₄ hc₄ ⟨hinputs, hlocals⟩
    have hown₄ := (hc₃.trans hc₄).endures.owns hown
    refine Goes.bind (enterMethod_goes hs₄ hown₄) ?_
    rintro ⟨⟩ s₅ hs₅ hc₅ hstate
    have hmethod : s₅.method < s₅.program.methods.size := by
      rw [hstate]
      exact hown₄.lt
    have hlocals₅ : s₅.locals = (parameters.map fun x => (x.1.name, x.2)).reverse := by
      have hnone : s₂.locals = [] := by
        rw [hadded, hstart]
      have hsame : s₅.locals = s₄.locals := by rw [hstate]
      rw [hsame, hlocals, hlocals₃, hnone, List.append_nil]
    have hmem : ∀ x ∈ parameters, (x.1.name, x.2) ∈ s₅.locals := fun x hx => by
      rw [hlocals₅, List.mem_reverse]
      exact List.mem_map_of_mem hx
    refine Goes.pure hs₅ ⟨?_, hmethod, hlocals₅, hnames, hnodup⟩
    refine ⟨hs₅, ⟨s₂, hcallee, hc₃.trans (hc₄.trans hc₅)⟩, ?_, hmem, fun x hx => ?_, fun x hx => ?_⟩
    · exact hslot.trans_le (hc₃.trans (hc₄.trans hc₅)).slots.size_le
    · have hlocal : (x.1.name, x.2) ∈ s₃.locals := by
        rw [hlocals₃, List.mem_append, List.mem_reverse]
        exact .inl (List.mem_map_of_mem hx)
      rw [(hc₄.trans hc₅).slots.get_eq (hs₃.locals _ hlocal).1]
      exact hsync x hx
    · rw [hstate]
      exact hinputs x hx

lemma assembleGroupAction_goes (henv : env.Sound) (index : Nat) (ha : agenda.Admits a) (hs : s.Idle) :
    Goes env agenda s (assembleGroupAction env index a) fun e t =>
      ∃ u, Entered env agenda u e ∧ Course env agenda s u ∧ Course env agenda u t := by
  rw [assembleGroupAction_eq]
  refine Goes.bind (openAction_goes index ha hs) ?_
  rintro e u hu hc ⟨hentered, hmethod, -⟩
  refine Goes.bind (lowerBody_goes henv ha.actions hu hmethod) ?_
  rintro ⟨⟩ t ht hc' -
  exact Goes.pure ht ⟨u, hentered, hc, hc'⟩

lemma assembleGroupActions_goes (henv : env.Sound) {l : List GroupAction}
    (hl : ∀ a ∈ l, agenda.Admits a) (hs : s.Idle) (index : Nat) :
    Goes env agenda s (assembleGroupActions env index l) fun r t =>
      ∀ e ∈ r, ∃ u, Entered env agenda u e ∧ Course env agenda s u ∧ Course env agenda u t := by
  induction l generalizing s index with
  | nil => exact Goes.pure hs (by simp)
  | cons a l ih =>
    refine Goes.bind (assembleGroupAction_goes henv index (hl a List.mem_cons_self) hs) ?_
    rintro e t ht hc ⟨u, hu, hsu, hut⟩
    refine Goes.bind (ih (fun b hb => hl b (List.mem_cons_of_mem _ hb)) ht (index + 1)) ?_
    rintro r v hv hc' hr
    refine Goes.pure hv ?_
    rintro x (_ | ⟨_, hx⟩)
    · exact ⟨u, hu, hsu, hut.trans hc'⟩
    · obtain ⟨w, hw, htw, hwv⟩ := hr x hx
      exact ⟨w, hw, hc.trans htw, hwv⟩

/-- The variables of a group as they are declared. -/
def groupVariables (g : ActionGroup) : List VariableDecl :=
  g.declarations.map ({ · with notifies := false })

lemma Agenda.admits_group (hg : g.NoAddress) (ha : a ∈ g.actions) : g.agenda.Admits a where
  actions x hx := ⟨⟨a, ha, hx⟩, hg.actions a ha x hx⟩
  adds := ⟨rfl, a, ha, rfl⟩
  declares p hp := ⟨a, ha, p, hp, rfl⟩

/-- The variables of a group are declared, or the name of one is taken. -/
lemma declareGroup_ensures (hg : g.NoAddress) :
    Ensures {} (g.declarations.forM declareGroupVariable)
      (fun _ s => s.Idle ∧ s.program.slots.Declares (groupVariables g) ∧
        ∃ warnings, s = declared s.program.slots warnings) AllOrdinary := by
  refine (declareGroupVariables_ensures g.declarations SlotTable.declares_empty).mono ?_
    fun e s ⟨he, herrors⟩ => ⟨.of_duplicate he, by simp [herrors]⟩
  rintro ⟨⟩ s ⟨hdeclares, warnings, hstate⟩
  have hstart : s = declared s.program.slots warnings := hstate
  have hplain : ∀ v ∈ groupVariables g, ∀ x, v.initial ≠ some (.address x) := by
    intro v hv
    obtain ⟨w, hw, rfl⟩ := List.mem_map.mp hv
    exact hg.initial w hw
  refine ⟨?_, hdeclares, warnings, hstart⟩
  rw [hstart]
  exact idle_declared hdeclares hplain warnings

/-- Assembling a group takes a course from its variables on, and through the start of the body of
every entry. -/
lemma assembleGroup_ensures (henv : env.Sound) (hg : g.NoAddress) :
    Ensures {} (assembleGroup env g) (fun r s => s.Idle ∧ ∃ table warnings,
        table.Declares (groupVariables g) ∧ (declared table warnings).Idle ∧
        Course env g.agenda (declared table warnings) s ∧
        ∀ e ∈ r, ∃ u, Entered env g.agenda u e ∧ Course env g.agenda (declared table warnings) u ∧
          Course env g.agenda u s)
      AllOrdinary := by
  refine Ensures.bind (declareGroup_ensures hg) ?_
  rintro ⟨⟩ s₀ - ⟨hidle, hdeclares, warnings, hstart⟩
  have herrors : s₀.errors = #[] := by
    rw [hstart]
    rfl
  have hgoes : Goes env g.agenda s₀ _ _ := assembleGroupActions_goes henv
    (fun a ha => Agenda.admits_group hg ha) hidle 0
  refine Ensures.mono hgoes ?_ fun e s he => he.allOrdinary herrors
  rintro r s ⟨hs, hcourse, hr⟩
  rw [hstart] at hcourse hr
  exact ⟨hs, _, warnings, hdeclares, hstart ▸ hidle, hcourse, hr⟩

end Lower

end TriggerCompiler
