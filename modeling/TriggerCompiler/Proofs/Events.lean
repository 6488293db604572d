import Mathlib
import TriggerCompiler.Proofs.Wrappers

/-!
# Assembling events

Every part of a compile that comes between two bodies, and every body, is a course of steps.
-/

namespace TriggerCompiler

variable {index : Nat} {plan : PlannedEvent} {table : SlotTable}

/-- An environment whose groups are sound and in which no action is a script or a construct with
other parameters than its own. -/
structure Environment.Sound (env : Environment) : Prop where
  groups : Lower.SoundGroups env.registry
  plain : ∀ id group d, env.registry.findAction id group = .ok d → d.IsPlain

/-- The exported name of an event of a trigger: its type names it, or takes it from the entry, or it is
that of the handler of a variable. -/
inductive Event.Exports (r : Registry) (t : Trigger) (e : Event) : String → Prop where
  | named {type : EventType} {name : String} (found : r.findEvent e.entry.id = .ok type)
      (method : type.method = .named name) : Exports r t e name
  | input {type : EventType} {name : String} {rest : List Binding}
      (found : r.findEvent e.entry.id = .ok type) (method : type.method = .fromInput)
      (inputs : e.entry.inputs = .constant (.string name) :: rest) : Exports r t e name
  | handler {type : EventType} {v : VariableDecl} {rest : List Binding}
      (found : r.findEvent e.entry.id = .ok type) (method : type.method = .variableHandler)
      (inputs : e.entry.inputs = .var (.user v.id) :: rest) (declared : v ∈ t.declarations)
      (watched : v.notifies = true) : Exports r t e (handlerName v.name)

lemma Event.Exports.unique {r : Registry} {t : Trigger} {e : Event} {a b : String}
    (ht : (t.declarations.map (·.id)).Nodup) (ha : e.Exports r t a) (hb : e.Exports r t b) : a = b := by
  cases ha with
  | named found method =>
    cases hb with
    | named found' method' =>
      obtain rfl := Except.ok.inj (found.symm.trans found')
      exact EventMethod.named.inj (method.symm.trans method')
    | input found' method' | handler found' method' =>
      obtain rfl := Except.ok.inj (found.symm.trans found')
      cases method.symm.trans method'
  | input found method inputs =>
    cases hb with
    | named found' method' | handler found' method' =>
      obtain rfl := Except.ok.inj (found.symm.trans found')
      cases method.symm.trans method'
    | input found' method' inputs' =>
      cases inputs.symm.trans inputs'
      rfl
  | @handler _ v _ found method inputs declared watched =>
    cases hb with
    | named found' method' | input found' method' =>
      obtain rfl := Except.ok.inj (found.symm.trans found')
      cases method.symm.trans method'
    | @handler _ w _ found' method' inputs' declared' watched' =>
      have hid : v.id = w.id := by
        have hboth := inputs.symm.trans inputs'
        simp only [List.cons.injEq, Binding.var.injEq, VariableRef.user.injEq] at hboth
        exact hboth.1
      rw [List.inj_on_of_nodup_map ht declared declared' hid]

/-- The methods that are added for a trigger: those of its events, and the handlers of its watched
variables. -/
inductive Trigger.Adds (r : Registry) (t : Trigger) : String → MethodKind → Prop where
  | event {plan : PlannedEvent} {name : String} {kind : MethodKind}
      (mem : (plan.event, plan.index) ∈ t.events.zipIdx)
      (exports : plan.event.Exports r t plan.exported) (adds : plan.Adds name kind) :
      Adds r t name kind
  | handler {v : VariableDecl} (declared : v ∈ t.declarations) (watched : v.notifies = true) :
      Adds r t (handlerName v.name) .entry

namespace Lower

variable {s t u : LowerState} {env : Environment} {agenda : Agenda}

/-! ## Bodies -/

lemma lowerAction_course (henv : env.Sound) {a : Action} (ha : agenda.acts a) (hplain : a.NoAddress)
    (hs : s.Settled) :
    Ensures s (lowerAction env index a) (fun _ t => t.Settled ∧ Course env agenda s t) (Fault s) := by
  cases hfound : env.registry.findAction a.id a.group with
  | error kind =>
    have hkind : ∃ id group, kind = .unknownAction id group := by
      unfold Registry.findAction at hfound
      split at hfound
      · cases hfound
      · exact ⟨_, _, (Except.error.inj hfound).symm⟩
    obtain ⟨id, group, rfl⟩ := hkind
    have hrun : lowerAction env index a s = .error
        ⟨.unknownAction id group, some (.inBody s.event index a.id)⟩ (atAction s index a.id) := by
      unfold lowerAction
      rw [hfound]
      rfl
    exact Ensures.of_error hrun (Fault.of_errors (.of_kind rfl (by simp) (by simp)) rfl)
  | ok d =>
    refine (lowerAction_ensures hfound henv.groups hs (henv.plain _ _ _ hfound) hplain).mono ?_ ?_
    · rintro ⟨⟩ t ⟨ht, hevolves, hshapes, ⟨u, hlowered, hu, hsettles, herrors, hadmits⟩ |
        ⟨e, u, hfailed, hskipped, -⟩⟩
      · exact ⟨ht, Course.of_step (.action hs ha hfound hadmits hlowered hu hsettles ht hshapes)
          hevolves.grows.slots hevolves.methods_le herrors⟩
      · refine ⟨ht, hevolves.grows.slots, hevolves.methods_le, .single (.skips hs ha hskipped ht),
          fun h => ?_, fun x hx => ?_⟩
        · rw [hskipped.errors] at h
          exact absurd h (by simp)
        · rw [hskipped.errors] at hx
          rcases Array.mem_push.mp hx with hx | rfl
          · exact .inl hx
          · exact .inr (.of_failed hfailed)
    · rintro e t ⟨herrors, u, hfailed⟩
      exact Fault.of_errors (.of_failed hfailed) herrors

lemma lowerActions_course (henv : env.Sound) {l : List Action}
    (hl : ∀ a ∈ l, agenda.acts a ∧ a.NoAddress) (hs : s.Settled) (index : Nat) :
    Ensures s (lowerActions env index l) (fun _ t => t.Settled ∧ Course env agenda s t) (Fault s) := by
  induction l generalizing s index with
  | nil => exact Ensures.of_ok rfl ⟨hs, Course.refl s⟩
  | cons a l ih =>
    obtain ⟨ha, hplain⟩ := hl a List.mem_cons_self
    rw [lowerActions]
    refine Ensures.bind (lowerAction_course henv ha hplain hs) ?_
    rintro ⟨⟩ t - ⟨ht, hcourse⟩
    refine (ih (fun b hb => hl b (List.mem_cons_of_mem _ hb)) ht _).mono ?_ ?_
    · rintro _ u ⟨hu, hcourse'⟩
      exact ⟨hu, hcourse.trans hcourse'⟩
    · exact fun e u he => hcourse.fault he

/-- A body is lowered by steps. -/
lemma lowerBody_goes (henv : env.Sound) {l : List Action} (hl : ∀ a ∈ l, agenda.acts a ∧ a.NoAddress)
    (hs : s.Idle) (hm : s.method < s.program.methods.size) :
    Goes env agenda s (lowerBody env l) fun _ _ => True := by
  have hroot : Course env agenda s (rooted s) :=
    Course.of_step (.opens hs hm) (SlotTable.Within.refl _) le_rfl rfl
  have hbody := lowerBody_ensures (P := fun u => Course env agenda (rooted s) u)
    (lowerActions_course henv hl (settled_rooted (hs.sound hm) hs.frames hs.pending) 0)
  refine Ensures.mono hbody ?_ ?_
  · rintro ⟨⟩ t ⟨u, hu, hcourse, hends⟩
    obtain ⟨f, hf, hstate⟩ := hends.state
    have hclose : Course env agenda u t := by
      refine Course.of_step (.closes hu hends) hends.adds.grows.slots hends.adds.methods.ge ?_
      rw [hstate]
      rfl
    have hall := (hroot.trans hcourse).trans hclose
    refine ⟨.of_sound hends.sound ?_ ?_ (hall.endures.named hs.named), hall, trivial⟩
    · rw [hstate]
      rfl
    · rw [hstate]
      exact hu.pending
  · rintro e t (hfault | ⟨hstructural, hcourse, -⟩)
    · exact hroot.fault hfault
    · exact hroot.fault ⟨.of_structural hstructural, hcourse.errors⟩

/-! ## Events -/

/-- A method that the host starts does not return to a caller. -/
lemma halts_push (s : LowerState) (name : String) :
    (({ s.program with methods := s.program.methods.push { name, kind := .entry } } : Program).method
      s.program.methods.size).epilogue = .halt := by
  rw [Program.method_push_self rfl]

section

variable (henv : env.Sound) (hs : s.Idle) (hplan : Planned env agenda s.program.slots plan)
include henv hs hplan

lemma assembleEvent_goes {method : MethodId} (hm : s.Owns method) :
    Goes env agenda s (assembleEvent env plan method) fun _ _ => True := by
  rw [assembleEvent_eq]
  exact Goes.bind (openEvent_goes hs hplan hm) fun _ t ht _ hstart =>
    lowerBody_goes henv hplan.actions ht hstart.lt

lemma assembleShared_goes {exported : MethodId} (hm : s.Owns exported)
    (hhalts : (s.program.method exported).epilogue = .halt) :
    Goes env agenda s (assembleShared env exported plan) fun _ _ => True := by
  rw [assembleShared_eq]
  exact Goes.bind (openShared_goes hs hm hhalts (hplan.adds _ _ .shared)) fun method t ht hc hopened =>
    assembleEvent_goes henv ht (hplan.within hc.slots) hopened.owns

end

/-- A name that is planned may be given to an entry. -/
lemma adds_of_mem_names {plans : List PlannedEvent}
    (hplans : ∀ plan ∈ plans, Planned env agenda table plan) {name : String}
    (hname : name ∈ (plans.map (·.exported)).eraseDups) : agenda.adds name .entry := by
  obtain ⟨plan, hplan, rfl⟩ := List.mem_map.mp (List.mem_eraseDups.mp hname)
  exact (hplans plan hplan).adds _ _ .exported

section

variable (henv : env.Sound) {plans : List PlannedEvent} (hs : s.Idle)
  (hplans : ∀ plan ∈ plans, Planned env agenda s.program.slots plan)
include henv hs hplans

lemma assembleShared_forM_goes {exported : MethodId} (hm : s.Owns exported)
    (hhalts : (s.program.method exported).epilogue = .halt) :
    Goes env agenda s (plans.forM (assembleShared env exported)) fun _ _ => True :=
  Goes.forM hs fun plan hplan _ hu hc => assembleShared_goes henv hu
    ((hplans plan hplan).within hc.slots) (hc.endures.owns hm)
    ((hc.endures.epilogue _ hm.lt).trans hhalts)

lemma assembleName_goes {name : String} (hadds : agenda.adds name .entry) :
    Goes env agenda s (assembleName env name plans) fun _ _ => True := by
  refine Goes.bind (addMethod_goes hs hadds) ?_
  rintro _ t ht hcourse ⟨rfl, rfl, hown⟩
  split
  · exact assembleEvent_goes henv ht (hplans _ List.mem_cons_self) hown
  · exact assembleShared_forM_goes henv ht hplans hown (halts_push _ _)

lemma assembleNames_goes {names : List String} (hnames : names ⊆ (plans.map (·.exported)).eraseDups) :
    Goes env agenda s (names.forM fun name =>
      assembleName env name (plans.filter (·.exported = name))) fun _ _ => True :=
  Goes.forM hs fun _ hname _ hu hc => assembleName_goes henv hu (fun plan hplan =>
    (hplans plan (List.mem_filter.mp hplan).1).within hc.slots)
    (adds_of_mem_names hplans (hnames hname))

end

/-! ## Planning -/

/-- A complaint about the document. -/
def Complains (s : LowerState) (err : CompileError) (t : LowerState) : Prop :=
  t = s ∧ err.Ordinary

lemma fail_complains {α β : Type} {kind : ErrorKind} {k : α → Lower β} {P : β → LowerState → Prop}
    (hbroken : ∀ breach, kind ≠ .broken breach) (hmethod : ∀ name, kind ≠ .missingMethod name) :
    Ensures s (fail kind >>= k) P (Complains s) :=
  Ensures.of_error rfl ⟨rfl, .of_kind rfl hbroken hmethod⟩

lemma raise_complains {α β : Type} {outcome : Except ErrorKind α} {k : α → Lower β}
    {P : β → LowerState → Prop}
    (herror : ∀ kind, outcome = .error kind →
      (∀ breach, kind ≠ .broken breach) ∧ ∀ name, kind ≠ .missingMethod name)
    (hok : ∀ a, outcome = .ok a → Ensures s (k a) P (Complains s)) :
    Ensures s (raise outcome >>= k) P (Complains s) := by
  cases outcome with
  | error kind => exact fail_complains (herror kind rfl).1 (herror kind rfl).2
  | ok a => exact hok a rfl

lemma findEvent_cases (r : Registry) (id : String) :
    (∃ type, (id, type) ∈ r.events ∧ r.findEvent id = .ok type) ∨
      r.findEvent id = .error (.unknownAction id none) := by
  unfold Registry.findEvent
  cases hlookup : r.events.lookup id with
  | some type => exact .inl ⟨type, mem_of_lookup hlookup, rfl⟩
  | none => exact .inr rfl

end Lower

lemma SlotTable.Declares.of_findUser {decls : List VariableDecl} (h : table.Declares decls)
    {id : String} {slot : SlotId} (hfound : table.findUser id = .ok slot) :
    ∃ v ∈ decls, v.id = id ∧ table.IsVariable v slot := by
  unfold SlotTable.findUser at hfound
  split at hfound
  · rename_i slot' hlookup
    obtain rfl := Except.ok.inj hfound
    obtain ⟨v, hv, rfl⟩ := h.users _ (mem_of_lookup hlookup)
    obtain ⟨slot, hlookup', hvariable⟩ := h.isVariable v hv
    exact ⟨v, hv, rfl, Option.some.inj (hlookup'.symm.trans hlookup) ▸ hvariable⟩
  · cases hfound

namespace Lower

lemma watchedVariable_ensures {t : Trigger}
    (htable : s.program.slots.Declares t.declarations) (e : Event) :
    Ensures s (watchedVariable e)
      (fun r u => (∃ used, u = { s with used }) ∧ r.1 < s.program.slots.size ∧
        ∃ v rest, e.entry.inputs = .var (.user v.id) :: rest ∧ v ∈ t.declarations ∧
          v.notifies = true ∧ r.2 = handlerName v.name) (Complains s) := by
  unfold watchedVariable
  split
  · rename_i id rest hinputs
    refine Ensures.step (get_apply s) ?_
    refine raise_complains (fun kind hkind => ?_) fun slotId hslot => ?_
    · unfold SlotTable.findUser at hkind
      split at hkind
      · cases hkind
      · obtain rfl := Except.error.inj hkind
        exact ⟨by simp, by simp⟩
    · obtain ⟨v, hv, rfl, hvariable⟩ := htable.of_findUser hslot
      obtain ⟨shadow, hget, -⟩ := hvariable.get
      refine Ensures.step rfl ?_
      rw [hget]
      split_ifs with hnotifies
      · exact fail_complains (by simp) (by simp)
      · refine Ensures.of_ok rfl ⟨⟨_, rfl⟩, hvariable.lt, v, rest, hinputs, hv, ?_, rfl⟩
        simpa [SlotTable.userSlot] using hnotifies
  · exact Ensures.of_error rfl ⟨rfl, .of_kind rfl (by simp) (by simp)⟩

/-- What is known of an event that was looked up. -/
structure Found (env : Environment) (t : Trigger) (table : SlotTable) (index : Nat) (e : Event)
    (plan : PlannedEvent) : Prop where
  event : plan.event = e
  index : plan.index = index
  type : ∃ id, (id, plan.type) ∈ env.registry.events
  watched : ∀ id, plan.watched = some id → id < table.size
  exports : e.Exports env.registry t plan.exported

/-- Planning an event turns to its entry, whether or not it succeeds. -/
lemma planEvent_ensures (env : Environment) {t : Trigger}
    (htable : s.program.slots.Declares t.declarations) (index : Nat) (e : Event) :
    Ensures s (planEvent env index e)
      (fun plan u => Turns s u ∧ Found env t s.program.slots index e plan)
      fun err u => Turns s u ∧ err.Ordinary := by
  set s₁ : LowerState := { s with
    event := index, coordinate := .entry index e.entry.id, locals := [], eventInputs := [] } with hs₁
  have hturn : ∀ used, Turns s { s₁ with used } := fun used =>
    ⟨_, _, _, _, _, [], [], by simp, by simp, .inl rfl, rfl⟩
  unfold planEvent
  refine Ensures.step (t := s₁) rfl ?_
  refine Ensures.mono (P := fun plan u =>
    (∃ used, u = { s₁ with used }) ∧ Found env t s.program.slots index e plan) (E := Complains s₁) ?_
    (fun _ _ ⟨⟨used, hu⟩, hplan⟩ => ⟨hu ▸ hturn used, hplan⟩)
    fun err u ⟨hu, herr⟩ => ⟨hu ▸ hturn s₁.used, herr⟩
  refine raise_complains (fun kind hkind => ?_) fun type htype => ?_
  · rcases findEvent_cases env.registry e.entry.id with ⟨type, -, h⟩ | h
    · cases hkind.symm.trans h
    · obtain rfl := Except.error.inj (hkind.symm.trans h)
      exact ⟨by simp, by simp⟩
  have hmem : ∃ id, (id, type) ∈ env.registry.events := by
    rcases findEvent_cases env.registry e.entry.id with ⟨type', hmem, h⟩ | h
    · exact ⟨_, Except.ok.inj (htype.symm.trans h) ▸ hmem⟩
    · cases htype.symm.trans h
  dsimp only
  split_ifs
  · exact fail_complains (by simp) (by simp)
  split
  · rename_i name hmethod
    exact Ensures.of_ok rfl ⟨⟨_, rfl⟩, rfl, rfl, hmem, by simp, .named htype hmethod⟩
  · rename_i hmethod
    split
    · rename_i name rest hinputs
      split_ifs
      · exact fail_complains (by simp) (by simp)
      · exact Ensures.of_ok rfl ⟨⟨_, rfl⟩, rfl, rfl, hmem, by simp, .input htype hmethod hinputs⟩
    · exact Ensures.of_error rfl ⟨rfl, .of_kind rfl (by simp) (by simp)⟩
  · rename_i hmethod
    refine Ensures.bind (watchedVariable_ensures (s := s₁) htable e) ?_
    rintro ⟨watched, exported⟩ u - ⟨⟨used, rfl⟩, hlt, v, rest, hinputs, hv, hnotifies, rfl⟩
    refine Ensures.of_ok rfl ⟨⟨used, rfl⟩, rfl, rfl, hmem, fun id hid => ?_,
      .handler htype hmethod hinputs hv hnotifies⟩
    exact Option.some.inj hid ▸ hlt

/-- What a compile may do for the events of a trigger. -/
structure Agenda.Covers (agenda : Agenda) (env : Environment) (t : Trigger) (e : Event) (index : Nat) :
    Prop where
  actions : ∀ a ∈ e.actions, agenda.acts a ∧ a.NoAddress
  adds : ∀ plan : PlannedEvent, plan.event = e → plan.index = index →
    e.Exports env.registry t plan.exported → ∀ name kind, plan.Adds name kind → agenda.adds name kind

lemma Found.planned {t : Trigger} {e : Event} (h : Found env t table index e plan)
    (hcovers : agenda.Covers env t e index) :
    Planned env agenda table plan where
  type := h.type
  watched := h.watched
  actions := h.event ▸ hcovers.actions
  adds := hcovers.adds plan h.event h.index h.exports

lemma planEvents_goes {t : Trigger} {events : List Event} (hs : s.Idle)
    (htable : s.program.slots.Declares t.declarations)
    (he : ∀ x ∈ events.zipIdx index, agenda.Covers env t x.1 x.2) :
    Goes env agenda s (planEvents env index events) fun plans u =>
      ∀ plan ∈ plans, Planned env agenda u.program.slots plan := by
  induction events generalizing s index with
  | nil => exact Goes.pure hs (by simp)
  | cons e events ih =>
    have hfirst : agenda.Covers env t e index := he (e, index) (by simp)
    have hrest : ∀ x ∈ events.zipIdx (index + 1), agenda.Covers env t x.1 x.2 := fun x hx =>
      he x (by simp [List.zipIdx_cons, hx])
    have hplan := planEvent_ensures env htable index e
    rw [planEvents]
    cases hrun : planEvent env index e s with
    | ok plan t =>
      obtain ⟨hturn, hfound⟩ := hplan.ok hrun
      have hattempt : attempt (planEvent env index e) s = .ok (.ok plan) t := by
        unfold attempt
        rw [hrun]
      refine Goes.bind (P := fun r u => r = .ok plan ∧ u = t) (Goes.of_turn hs hattempt hturn
        ⟨rfl, rfl⟩) ?_
      rintro _ u hu hcu ⟨rfl, rfl⟩
      refine Goes.bind (ih hu (hturn.program ▸ htable) hrest) ?_
      intro plans v hv hcv hplans
      refine Goes.pure hv ?_
      rintro x (_ | ⟨_, hx⟩)
      · exact (hfound.planned hfirst).within (hcu.slots.trans hcv.slots)
      · exact hplans x hx
    | error err t =>
      obtain ⟨hturn, hordinary⟩ := hplan.error hrun
      have hattempt : attempt (planEvent env index e) s = .ok (.error err) t := by
        unfold attempt
        rw [hrun]
      refine Goes.bind (P := fun r u => r = .error err ∧ u = t) (Goes.of_turn hs hattempt hturn
        ⟨rfl, rfl⟩) ?_
      rintro _ u hu - ⟨rfl, rfl⟩
      dsimp only
      split_ifs
      · exact Goes.of_error rfl hordinary rfl
      · refine Goes.bind (P := fun _ v => v.program = u.program) ?_ fun _ v hv _ hprogram =>
          ih hv (hprogram ▸ hturn.program ▸ htable) hrest
        refine Goes.of_ok rfl { hu with } ⟨SlotTable.Within.refl _, le_rfl,
          .single (.omits hu err), fun h => ?_, fun x hx => ?_⟩ rfl
        · exact absurd h (by simp)
        · rcases Array.mem_push.mp hx with hx | rfl
          · exact .inl hx
          · exact .inr hordinary

/-! ## Triggers -/

lemma addMissingHandlers_goes (hs : s.Idle) {declarations : List VariableDecl}
    (hadds : ∀ v ∈ declarations, v.notifies = true → agenda.adds (handlerName v.name) .entry) :
    Goes env agenda s (addMissingHandlers declarations) fun _ _ => True := by
  refine Goes.forM hs fun v hv t ht _ => ?_
  refine Goes.bind (P := fun r u => r = t ∧ u = t) (Goes.of_ok rfl ht (Course.refl t) ⟨rfl, rfl⟩) ?_
  rintro _ _ - - ⟨rfl, rfl⟩
  split_ifs with hmissing
  · have hnotifies : v.notifies = true := (Bool.and_eq_true _ _ ▸ hmissing).1
    have hmethod : Goes env agenda _ _ _ := raise_method_goes (raiseAt none)
      (handlerName v.name) (fun _ _ => rfl) (fun _ t => ⟨none, rfl⟩) ht (hadds v hv hnotifies)
    have h := Goes.bind (R := fun _ _ => True) hmethod fun _ u hu _ _ =>
      (warnAt_goes hu none ("variable '" ++ v.name
        ++ "' has a change callback but no handler event; generated an empty '"
        ++ handlerName v.name ++ "'")).mono fun _ _ _ _ _ => trivial
    rw [bind_assoc] at h
    exact h
  · exact Goes.pure ht trivial

lemma warnUnused_goes (hs : s.Idle) (declarations : List VariableDecl) :
    Goes env agenda s (warnUnused declarations) fun _ _ => True := by
  refine Goes.forM hs fun v _ t ht _ => ?_
  refine Goes.bind (P := fun r u => r = t ∧ u = t) (Goes.of_ok rfl ht (Course.refl t) ⟨rfl, rfl⟩) ?_
  rintro _ _ - - ⟨rfl, rfl⟩
  split
  · split_ifs
    · exact Goes.pure ht trivial
    · exact (warnAt_goes ht _ _).mono fun _ _ _ _ _ => trivial
  · exact Goes.pure ht trivial

/-- The state in which the variables have just been declared. -/
def declared (table : SlotTable) (warnings : Array Warning) : LowerState :=
  { program := { slots := table }, warnings }

lemma idle_declared {decls : List VariableDecl} (h : table.Declares decls)
    (hplain : ∀ v ∈ decls, ∀ x, v.initial ≠ some (.address x)) (warnings : Array Warning) :
    (declared table warnings).Idle where
  site :=
    { table := h.sound
      pool := ⟨by simp [declared, h.free, LowerState.site, ScopeStack.owned], by
        simp [declared, LowerState.site, ScopeStack.owned]⟩
      placed_lt := by simp [declared, LowerState.site, Program.placed]
      placed_nodup := by simp [declared, LowerState.site, Program.placed]
      promised_nodup := by
        simp [declared, LowerState.site, Site.promised, Program.endLabels, ScopeStack.endLabels]
      waiting := by
        simp [declared, LowerState.site, Site.promised, Program.endLabels, ScopeStack.endLabels]
      accepts := by simp [declared, LowerState.site, Program.placed]
      epilogue := by simp [declared, LowerState.site]
      address := fun id hid x hx => by
        obtain ⟨v, hv, hinitial⟩ := h.initial _ (List.mem_of_getElem? (SlotTable.slots_getElem? hid))
        exact absurd (hinitial.symm.trans hx) (hplain v hv x)
      unlinked := rfl }
  frames := rfl
  pending := rfl
  locals := by simp [declared]
  inputs := by simp [declared]
  merges := by simp [declared]
  named := by simp [LowerState.Merged, declared]

/-- A compile ends in a state that is idle, after a course from the declared variables on. -/
def Assembled (env : Environment) (agenda : Agenda) (decls : List VariableDecl)
    (s : LowerState) : Prop :=
  s.Idle ∧ ∃ table warnings, table.Declares decls ∧ (declared table warnings).Idle ∧
    Course env agenda (declared table warnings) s

/-- Neither the last error nor one that was kept lies with the compiler. -/
def AllOrdinary (e : CompileError) (s : LowerState) : Prop :=
  e.Ordinary ∧ ∀ x ∈ s.errors, x.Ordinary

lemma Fault.allOrdinary {e : CompileError} (h : Fault s e t) (hs : s.errors = #[]) :
    AllOrdinary e t := by
  refine ⟨h.ordinary, fun x hx => ?_⟩
  rcases h.errors x hx with hx | hx
  · rw [hs] at hx
    cases Array.not_mem_empty x hx
  · exact hx

end Lower

/-- No value and no binding of the trigger is an address; such values do not occur in documents. -/
structure Trigger.NoAddress (t : Trigger) : Prop where
  initial : ∀ v ∈ t.declarations, ∀ x, v.initial ≠ some (.address x)
  actions : ∀ e ∈ t.events, ∀ a ∈ e.actions, a.NoAddress

/-- No value and no binding of the group is an address; such values do not occur in documents. -/
structure ActionGroup.NoAddress (g : ActionGroup) : Prop where
  initial : ∀ v ∈ g.declarations, ∀ x, v.initial ≠ some (.address x)
  actions : ∀ x ∈ g.actions, ∀ a ∈ x.actions, a.NoAddress

/-- The actions of a trigger. -/
def Trigger.Has (t : Trigger) (a : Action) : Prop := ∃ e ∈ t.events, a ∈ e.actions

/-- What the compile of a trigger has to do. -/
def Trigger.agenda (r : Registry) (t : Trigger) : Lower.Agenda where
  acts := t.Has
  adds := t.Adds r
  declares _ := False

/-- The actions of a group. -/
def ActionGroup.Has (g : ActionGroup) (a : Action) : Prop := ∃ x ∈ g.actions, a ∈ x.actions

/-- What the compile of a group has to do. -/
def ActionGroup.agenda (g : ActionGroup) : Lower.Agenda where
  acts := g.Has
  adds name kind := kind = .internal ∧ ∃ x ∈ g.actions, x.name = name
  declares name := ∃ x ∈ g.actions, ∃ p ∈ x.parameters, name = x.name ++ "_" ++ p.name

namespace Lower

variable {s t u : LowerState} {env : Environment} {agenda : Agenda}

lemma Agenda.covers_trigger {t : Trigger} (ht : t.NoAddress) {x : Event × Nat}
    (hx : x ∈ t.events.zipIdx) : (t.agenda env.registry).Covers env t x.1 x.2 where
  actions a ha :=
    have hmem : x.1 ∈ t.events := List.fst_mem_of_mem_zipIdx hx
    ⟨⟨x.1, hmem, ha⟩, ht.actions x.1 hmem a ha⟩
  adds plan hevent hindex hexports _ _ hadds :=
    .event (by rw [hevent, hindex]; exact hx) (hevent ▸ hexports) hadds

/-- The compile of a trigger starts with its variables. -/
lemma declareUsers_idle {t : Trigger} (ht : t.NoAddress)
    (hrun : t.declarations.forM declareUser {} = .ok ⟨⟩ s) :
    s = declared s.program.slots #[] ∧ s.program.slots.Declares t.declarations ∧ s.Idle := by
  obtain ⟨hdeclares, hstate⟩ :=
    (declareUsers_ensures t.declarations SlotTable.declares_empty).ok hrun
  have hstart : s = declared s.program.slots #[] := hstate
  refine ⟨hstart, hdeclares, ?_⟩
  rw [hstart]
  exact idle_declared hdeclares ht.initial #[]

/-- Assembling a trigger takes a course from its variables on. -/
lemma assembleTrigger_ensures (henv : env.Sound) {t : Trigger} (ht : t.NoAddress) :
    Ensures {} (assembleTrigger env t)
      (fun _ s => Assembled env (t.agenda env.registry) t.declarations s) AllOrdinary := by
  refine Ensures.bind ((declareUsers_ensures t.declarations SlotTable.declares_empty).mono
    (fun _ _ h => h) fun e s ⟨he, herrors⟩ => ⟨.of_duplicate he, by simp [herrors]⟩) ?_
  rintro ⟨⟩ s₀ hrun -
  obtain ⟨hstart, hdeclares, hidle⟩ := declareUsers_idle ht hrun
  have hgoes : Goes env (t.agenda env.registry) s₀ (do
      let plans ← planEvents env 0 t.events
      let names := (plans.map (·.exported)).eraseDups
      names.forM fun name => assembleName env name (plans.filter (·.exported = name))
      addMissingHandlers t.declarations
      if env.options.warnUnused then warnUnused t.declarations) fun _ _ => True := by
    refine Goes.bind (planEvents_goes hidle hdeclares fun x hx => Agenda.covers_trigger ht hx) ?_
    rintro plans s₁ hs₁ - hplans
    refine Goes.bind (assembleNames_goes henv hs₁ hplans (List.Subset.refl _)) ?_
    rintro ⟨⟩ s₂ hs₂ - -
    refine Goes.bind (addMissingHandlers_goes hs₂ fun v hv => .handler hv) ?_
    rintro ⟨⟩ s₃ hs₃ - -
    split_ifs
    · exact warnUnused_goes hs₃ _
    · exact Goes.pure hs₃ trivial
  have herrors : s₀.errors = #[] := by
    rw [hstart]
    rfl
  refine Ensures.mono hgoes ?_ fun e s he => he.allOrdinary herrors
  rintro ⟨⟩ s ⟨hs, hcourse, -⟩
  exact ⟨hs, s₀.program.slots, #[], hdeclares, hstart ▸ hidle, hstart ▸ hcourse⟩

end Lower

end TriggerCompiler
