import Mathlib
import TriggerCompiler.Proofs.Assembly

/-!
# What comes before a body

An event is a chain of methods. The first one checks the gate of the event and hands over to a
network method if the event is broadcast, and that to a delayed method if it is delayed; the last one
holds the body. Here every part of an event's assembly that comes before its body is described by the
lines it adds and by the methods it leaves alone.

Main statements: `openEvent_goes` for the chain, `openShared_goes` for the call of an event's method by
the method of its exported name.
-/

namespace TriggerCompiler

variable {code : List Line} {table : SlotTable} {a : Site} {plan : PlannedEvent}

/-- An action whose bindings hold no address: such values do not occur in documents. -/
def Action.NoAddress (a : Action) : Prop := ∀ b ∈ a.inputs ++ a.targets, b.holdsAddress = false

/-- What a gate asks the host, and how many arguments that takes besides the answer. -/
def Gate.question? : Gate → Option (String × Nat)
  | .anyone => none
  | .owner => some (HostCall.isOwner, 1)
  | .master => some (HostCall.isMaster, 0)

/-- A hand-over of an event: the method in which it goes on, and the call that starts that method with
the constants it is given. -/
structure Relay where
  name : String
  signature : String
  constants : List (ValueType × Value)

/-- The lines of a hand-over. -/
def Relay.Lines (x : Relay) (t : SlotTable) (code : List Line) : Prop :=
  ∃ self arguments, t.IsThis self ∧
    List.Forall₂ (fun c id => t.IsConstant c.1 c.2 id) x.constants arguments ∧
    code = Lower.callLines x.signature (self :: arguments)

lemma Relay.Lines.within {x : Relay} {t u : SlotTable} (h : x.Lines t code) (hw : t.Within u) :
    x.Lines u code := by
  obtain ⟨self, arguments, hself, harguments, rfl⟩ := h
  exact ⟨self, arguments, hself.within hw, harguments.imp fun _ _ h => h.within hw, rfl⟩

/-- The calls that hand an event over, with the number of their constants. One of these is the name of
the method. -/
structure Relay.Known (x : Relay) : Prop where
  call : (x.signature, x.constants.length) ∈
    [(HostCall.sendCustomNetworkEvent, 2), (HostCall.sendCustomEventDelayed, 3)]
  plain : ∀ c ∈ x.constants, ∀ a, c.2 ≠ .address a
  named : ∃ i, (x.signature, i + 1) ∈ HostCall.sends ∧ x.constants[i]? = some (.string, .string x.name)

/-- The hand-over of an event that is broadcast. -/
def PlannedEvent.overNetwork (plan : PlannedEvent) (broadcast : Broadcast) :
    Relay where
  name := "event" ++ toString plan.index ++ Lower.stem plan.exported
  signature := HostCall.sendCustomNetworkEvent
  constants := [(HostCall.networkEventTarget, .int32 (if broadcast = .owner then 1 else 0)),
    (.string, .string ("event" ++ toString plan.index ++ Lower.stem plan.exported))]

/-- The hand-over of an event that is delayed. -/
def PlannedEvent.afterDelay (plan : PlannedEvent) (delay : Single) : Relay where
  name := "_event" ++ toString plan.index ++ Lower.stem plan.exported ++ "Delayed"
  signature := HostCall.sendCustomEventDelayed
  constants :=
    [(.string, .string ("_event" ++ toString plan.index ++ Lower.stem plan.exported ++ "Delayed")),
      (.single, .single delay), (HostCall.eventTiming, .int32 0)]

/-- The name of the method of an event that shares its exported name. -/
def PlannedEvent.ownName (plan : PlannedEvent) : String :=
  "__event" ++ toString plan.index ++ plan.exported

lemma PlannedEvent.known_overNetwork (plan : PlannedEvent) (broadcast : Broadcast) :
    (plan.overNetwork broadcast).Known :=
  ⟨by simp [overNetwork], by simp [overNetwork], 1, by simp [overNetwork, HostCall.sends], rfl⟩

lemma PlannedEvent.known_afterDelay (plan : PlannedEvent) (delay : Single) :
    (plan.afterDelay delay).Known :=
  ⟨by simp [afterDelay], by simp [afterDelay], 0, by simp [afterDelay, HostCall.sends], rfl⟩

/-- How an event comes to its network method, if it is broadcast. -/
def PlannedEvent.network? (plan : PlannedEvent) : Option Relay :=
  if plan.event.options.broadcast ≠ .here then some (plan.overNetwork plan.event.options.broadcast)
  else none

/-- How an event comes to its delayed method, if it is delayed. -/
def PlannedEvent.delay? (plan : PlannedEvent) : Option Relay :=
  if plan.event.options.delay.isPositive then some (plan.afterDelay plan.event.options.delay)
  else none

/-- The methods that are added for an event. -/
inductive PlannedEvent.Adds (plan : PlannedEvent) : String → MethodKind → Prop where
  | exported : Adds plan plan.exported .entry
  | network {x : Relay} (sent : plan.network? = some x) : Adds plan x.name .entry
  | delayed {x : Relay} (sent : plan.delay? = some x) : Adds plan x.name .entry
  | shared : Adds plan plan.ownName .internal

namespace Program

variable {p q : Program} {k k' : MethodId} {before before' : List Line} {relay : Option Relay}

/-- How an event comes from one method to the next. A method that hands over holds what came before
and the call, and the next one starts empty; without a hand-over the event stays where it is. -/
def Relays (p : Program) (relay : Option Relay) (k : MethodId) (before : List Line) (k' : MethodId)
    (before' : List Line) : Prop :=
  match relay with
  | none => k' = k ∧ before' = before
  | some x => k < k' ∧ before' = [] ∧ (p.method k').name = x.name ∧ (p.method k').kind = .entry ∧
      (p.method k').epilogue = .halt ∧ ∃ code, x.Lines p.slots code ∧ p.lines k = before ++ code

section

variable (h : p.Relays relay k before k' before')
include h

lemma Relays.le : k ≤ k' := by
  cases relay with
  | none => exact h.1.ge
  | some x => exact h.1.le

/-- The hand-over stays as it is if the first method does. -/
lemma Relays.mono (hslots : p.slots.Within q.slots) (hk : k < k' → q.lines k = p.lines k)
    (hk' : p.SameHead k' q) : q.Relays relay k before k' before' := by
  cases relay with
  | none => exact h
  | some x =>
    obtain ⟨hlt, hbefore, hname, hkind, hepilogue, code, hlines, hbody⟩ := h
    exact ⟨hlt, hbefore, hk'.name.trans hname, hk'.kind.trans hkind, hk'.epilogue.trans hepilogue,
      code, hlines.within hslots, (hk hlt).trans hbody⟩

/-- The hand-over stays as it is while a method is filled that is not before the next one. -/
lemma Relays.leaves {j : MethodId} (hk' : k' < p.methods.size) (hj : k' ≤ j) (hl : p.Leaves j q) :
    q.Relays relay k before k' before' :=
  h.mono hl.slots (fun hlt => (hl.spares k (hlt.trans hk') (hlt.trans_le hj).ne).lines)
    (hl.sameHead hk')

end

/-- Methods and slots that are added leave the methods that there are alone. -/
lemma stays_push (p : Program) (x : Method) (hw : p.slots.Within table) :
    p.Stays { p with slots := table, methods := p.methods.push x } :=
  ⟨hw, by simp, le_rfl, fun _ hj => .of_instr (method_push rfl hj) fun _ _ => rfl⟩

lemma stays_slots (hw : p.slots.Within table) : p.Stays { p with slots := table } :=
  ⟨hw, le_rfl, le_rfl, fun _ _ => ⟨rfl, rfl⟩⟩

end Program

namespace Lower

variable {s t u : LowerState} {env : Environment} {agenda : Agenda}

/-! ## Gates and hand-overs -/

/-- Lines before a body are added. -/
lemma preamble_goes {α : Type} {x : Lower α} {P : α → List Line → Site → Prop} (hs : s.Idle)
    (hm : s.method < s.program.methods.size) (h : Yields s s.site x P)
    (hP : ∀ r code b, P r code b → s.site.Keeps b)
    (hlines : ∀ r code b, P r code b → s.site.Adds s.method code b →
      code = [] ∧ b = s.site ∨ Preamble (s.on b) code) :
    Goes env agenda s x fun r t => ∃ code b, t = s.on b ∧ P r code b ∧
      s.program.Lengthens s.method code b.program := by
  obtain ⟨r, code, b, hrun, hadds, hr⟩ := h
  have hrun₀ : x s = .ok r (s.on b) := hrun
  have hextends : s.program.Lengthens s.method code b.program := by
    refine hadds.extension hs.site hm ?_
    rw [hs.site_eq]
  rcases hlines r code b hr hadds with ⟨rfl, rfl⟩ | hpreamble
  · exact Goes.of_ok hrun₀ hs (Course.refl s) ⟨_, _, rfl, hr, hextends⟩
  · have hkeeps := hP _ _ _ hr
    have hemits : Emits s code (s.on b) :=
      ⟨rfl, (site_on hkeeps).symm ▸ hadds, Frame.Fills.stack_refl _⟩
    have hstep : Step env agenda s (s.on b) := .preamble hs hm hemits hpreamble
    refine Goes.of_step hrun₀ hstep ?_ hadds.grows.slots hadds.methods.ge rfl
      ⟨_, _, rfl, hr, hextends⟩
    exact .of_sound (hemits.sound (hs.sound hm)) hs.frames hs.pending (hstep.endures.named hs.named)

lemma leaveUnless_yields (ha : a.Ready s.method) {allowed : SlotId} (hallowed : allowed ∈ a.temps) :
    Yields s a (leaveUnless s.method allowed) fun _ code b =>
      ∃ l, (b.program.method s.method).endLabel = some l ∧ code = branchLines allowed l ∧
        b.labels = a.labels ∧ b.temps = a.temps.erase allowed := by
  refine Yields.bind ha (endLabel_yields ha) ?_
  rintro l _ b hadds hb ⟨rfl, hkeep, hl⟩
  have htarget : b.Target l := by
    refine .inr (List.mem_append_left _ (List.mem_filterMap.mpr ⟨_, ?_, hl⟩))
    exact Program.method_mem hb.method_lt
  have hlt := (hb.sound.pool.used allowed (hkeep.temps ▸ hallowed)).1
  refine Yields.bind hb (jumpIfFalse_yields hb hlt htarget) ?_
  rintro ⟨⟩ _ c hadds' hc ⟨rfl, hkeep'⟩
  refine (release_yields hc (hkeep'.temps ▸ hkeep.temps ▸ hallowed)).mono ?_
  rintro ⟨⟩ _ d hadds'' ⟨rfl, hlabels, htemps⟩
  refine ⟨l, hadds''.ending l (hadds'.ending l hl), by simp, ?_, ?_⟩
  · rw [hlabels, hkeep'.labels, hkeep.labels]
  · rw [htemps, hkeep'.temps, hkeep.temps]

/-- The lines of a gate's check. -/
def GateLines (gate : Gate) (p : Program) (m : MethodId) (temps : List SlotId) (code : List Line) :
    Prop :=
  match gate.question? with
  | none => code = []
  | some (signature, arity) => ∃ self allowed l, self.length = arity ∧
      (∀ x ∈ self, p.slots.IsThis x) ∧ p.slots.Spare temps allowed ∧
      (p.method m).endLabel = some l ∧
      code = callLines signature (self ++ [allowed]) ++ branchLines allowed l

lemma checkGate_yields (ha : a.Ready s.method) (gate : Gate) :
    Yields s a (checkGate gate s.method) fun _ code b => a.Keeps b ∧
      GateLines gate b.program s.method a.temps code ∧ (gate = .anyone → b = a) := by
  -- once the arguments are there, the call and the jump are the same for all gates
  have hcheck : ∀ (signature : String) (self : List SlotId) (allowed : SlotId) (b : Site),
      b.Ready s.method → a.Grows b → b.labels = a.labels → b.temps = allowed :: a.temps →
      b.program.slots.Spare a.temps allowed → gate.question? = some (signature, self.length) →
      (∀ x ∈ self, b.program.slots.IsThis x) →
      Yields s b (do
        callHost signature (self ++ [allowed])
        leaveUnless s.method allowed) fun _ code c => a.Keeps c ∧
          GateLines gate c.program s.method a.temps code := by
    intro signature self allowed b hb hg hlabels htemps hspare hknown hthis
    refine Yields.bind hb (callHost_yields hb signature (self ++ [allowed]) fun x hx => ?_) ?_
    · rcases List.mem_append.mp hx with hx | hx
      · exact (hthis x hx).lt
      · exact List.mem_singleton.mp hx ▸ hspare.lt
    rintro ⟨⟩ _ c hadds hc ⟨rfl, hkeep⟩
    have hmem : allowed ∈ c.temps := by
      rw [hkeep.temps, htemps]
      exact List.mem_cons_self
    refine (leaveUnless_yields hc hmem).mono ?_
    rintro ⟨⟩ _ d hadds' ⟨l, hl, rfl, hlabels', htemps'⟩
    have hw := (hadds.grows.trans hadds'.grows).slots
    refine ⟨⟨?_, ?_⟩, ?_⟩
    · rw [hlabels', hkeep.labels, hlabels]
    · rw [htemps', hkeep.temps, htemps, List.erase_cons_head]
    · unfold GateLines
      rw [hknown]
      exact ⟨self, allowed, l, rfl, fun x hx => (hthis x hx).within hw, hspare.within hw, hl, rfl⟩
  unfold checkGate
  cases gate with
  | anyone => exact Yields.pure ha ⟨Site.Keeps.refl a, rfl, fun _ => rfl⟩
  | owner =>
    refine Yields.bind ha (temporary_yields ha .boolean) ?_
    rintro allowed _ b hadds hb ⟨rfl, hlabels, htemps, -, hspare⟩
    refine Yields.bind hb (this_yields hb) ?_
    rintro self _ c hadds' hc ⟨rfl, hkeep, hself⟩
    refine (hcheck HostCall.isOwner [self] allowed c hc (hadds.grows.trans hadds'.grows)
      (hkeep.labels.trans hlabels) (hkeep.temps.trans htemps) (hspare.within hadds'.grows.slots)
      rfl (by simpa using hself)).mono ?_
    exact fun _ _ _ _ h => ⟨h.1, by simpa using h.2, fun h => (by cases h)⟩
  | master =>
    refine Yields.bind ha (temporary_yields ha .boolean) ?_
    rintro allowed _ b hadds hb ⟨rfl, hlabels, htemps, -, hspare⟩
    refine (hcheck HostCall.isMaster [] allowed b hb hadds.grows hlabels htemps hspare
      rfl (by simp)).mono ?_
    exact fun _ _ _ _ h => ⟨h.1, by simpa using h.2, fun h => (by cases h)⟩

lemma checkGate_goes (hs : s.Idle) (hm : s.method < s.program.methods.size) (gate : Gate) :
    Goes env agenda s (checkGate gate s.method) fun _ t => t = { s with program := t.program } ∧
      ∃ code, GateLines gate t.program s.method [] code ∧
        s.program.Lengthens s.method code t.program := by
  have htemps : s.site.temps = [] := by rw [hs.site_eq]
  refine (preamble_goes hs hm (checkGate_yields (hs.sound hm).ready gate) (fun _ _ _ h => h.1)
    ?_).mono ?_
  · rintro - code b ⟨-, hlines, hsame⟩ -
    rw [htemps] at hlines
    cases gate with
    | anyone => exact .inl ⟨hlines, hsame rfl⟩
    | owner =>
      obtain ⟨self, allowed, l, hlength, hthis, hspare, hl, rfl⟩ := hlines
      exact .inr (.gate (by simp [hlength]) hthis hspare hl)
    | master =>
      obtain ⟨self, allowed, l, hlength, hthis, hspare, hl, rfl⟩ := hlines
      exact .inr (.gate (by simp [hlength]) hthis hspare hl)
  · rintro ⟨⟩ _ - - ⟨code, b, rfl, ⟨-, hlines, -⟩, hextends⟩
    exact ⟨rfl, code, htemps ▸ hlines, hextends⟩

lemma constants_yields (ha : a.Ready s.method) (l : List (ValueType × Value))
    (hplain : ∀ c ∈ l, ∀ x, c.2 ≠ .address x) :
    Yields s a (l.mapM fun c => constant c.1 c.2) fun ids code b => code = [] ∧ a.Keeps b ∧
      List.Forall₂ (fun c id => b.program.slots.IsConstant c.1 c.2 id) l ids := by
  induction l generalizing a with
  | nil => exact Yields.pure ha ⟨rfl, Site.Keeps.refl a, .nil⟩
  | cons c l ih =>
    rw [List.mapM_cons]
    refine Yields.bind ha (constant_yields ha fun x hx =>
      absurd hx (hplain c List.mem_cons_self x)) ?_
    rintro id _ d hadds hd ⟨rfl, hkeep, hid⟩
    refine Yields.bind hd (ih hd fun x hx => hplain x (List.mem_cons_of_mem _ hx)) ?_
    rintro ids _ e hadds' he ⟨rfl, hkeep', hids⟩
    exact Yields.pure he ⟨rfl, hkeep.trans hkeep', .cons (hid.within hadds'.grows.slots) hids⟩

/-- A call with constants that hands the event over. -/
lemma send_yields (ha : a.Ready s.method) {x : Relay} (hx : x.Known) :
    Yields s a (do
      let self ← this
      let arguments ← x.constants.mapM fun c => constant c.1 c.2
      callHost x.signature (self :: arguments)) fun _ code b =>
        a.Keeps b ∧ x.Lines b.program.slots code := by
  refine Yields.bind ha (this_yields ha) ?_
  rintro self _ b hadds hb ⟨rfl, hkeep, hself⟩
  refine Yields.bind hb (constants_yields hb x.constants hx.plain) ?_
  rintro arguments _ c hadds' hc ⟨rfl, hkeep', harguments⟩
  have hself' := hself.within hadds'.grows.slots
  refine (callHost_yields hc x.signature (self :: arguments) ?_).mono ?_
  · rintro y (_ | ⟨_, hy⟩)
    · exact hself'.lt
    · obtain ⟨i, hi, rfl⟩ := List.mem_iff_getElem.mp hy
      exact (harguments.get (harguments.length_eq ▸ hi) hi).lt
  · rintro ⟨⟩ _ d hadds'' ⟨rfl, hkeep''⟩
    have hw := hadds''.grows.slots
    exact ⟨(hkeep.trans hkeep').trans hkeep'', self, arguments, hself'.within hw,
      harguments.imp fun _ _ h => h.within hw, rfl⟩

/-- From one state to the other the event was handed over: the current method ends with the call, and
the new method, which is still empty, is the current one. -/
structure HandsOver (s : LowerState) (x : Relay) (t : LowerState) : Prop where
  state : t = { s with program := t.program, method := t.method }
  next : t.method = s.program.methods.size
  lt : t.method < t.program.methods.size
  method : t.program.method t.method = { name := x.name, kind := .entry }
  lines : ∃ code, x.Lines t.program.slots code ∧ s.program.Lengthens s.method code t.program

section

variable (hs : s.Idle) (hm : s.method < s.program.methods.size)
include hs hm

/-- The event goes on in a method of its own, which is started by a call with constants. -/
lemma handOver_goes {x : Relay} (hx : x.Known) (hadds : agenda.adds x.name .entry) :
    Goes env agenda s (do
      let next ← addMethod x.name .entry
      let self ← this
      let arguments ← x.constants.mapM fun c => constant c.1 c.2
      callHost x.signature (self :: arguments)
      enterMethod next) fun _ t => HandsOver s x t := by
  refine Goes.bind (addMethod_goes hs hadds) ?_
  rintro _ t ht - ⟨rfl, rfl, hown⟩
  have hmt := hm.trans hown.lt
  have hassoc : (do
      let self ← this
      let arguments ← x.constants.mapM fun c => constant c.1 c.2
      callHost x.signature (self :: arguments)
      enterMethod s.program.methods.size : Lower Unit) = ((do
        let self ← this
        let arguments ← x.constants.mapM fun c => constant c.1 c.2
        callHost x.signature (self :: arguments)) >>= fun _ =>
          enterMethod s.program.methods.size) := by
    simp only [bind_assoc]
  rw [hassoc]
  refine Goes.bind (preamble_goes ht hmt (send_yields (ht.sound hmt).ready hx)
    (fun _ _ _ h => h.1) ?_) ?_
  · rintro - code b ⟨-, self, arguments, hself, harguments, rfl⟩ hwork
    refine .inr (.send (harguments.length_eq ▸ hx.call) hself (fun y hy => ?_) ?_)
    · obtain ⟨i, hi, rfl⟩ := List.mem_iff_getElem.mp hy
      have hi' : i < x.constants.length := harguments.length_eq ▸ hi
      exact ⟨_, _, harguments.get hi' hi, hx.plain _ (List.getElem_mem hi')⟩
    · obtain ⟨i, hsends, hname⟩ := hx.named
      obtain ⟨hi, hget⟩ := List.getElem?_eq_some_iff.mp hname
      have hi' : i < arguments.length := harguments.length_eq ▸ hi
      have hconstant := harguments.get hi hi'
      rw [List.get_eq_getElem, hget] at hconstant
      exact ⟨i + 1, _, x.name, hsends, List.getElem?_eq_getElem hi', hconstant,
        hwork.toWorks.hasEntry ⟨{ name := x.name, kind := .entry }, by simp [LowerState.site], rfl, rfl⟩⟩
  · rintro ⟨⟩ _ hu hcourse ⟨code, b, rfl, ⟨-, hlines⟩, hextends⟩
    have hown' := hcourse.endures.owns hown
    refine (enterMethod_goes hu hown').mono ?_
    rintro ⟨⟩ _ - - rfl
    refine ⟨rfl, rfl, hown'.lt, ?_, code, hlines, ?_⟩
    · exact (hextends.spares _ hown.lt hm.ne').method.trans (Program.method_push_self rfl)
    · exact ((s.program.stays_push _ (SlotTable.Within.refl _)).lengthens hm).trans hextends

lemma sendOverNetwork_goes (plan : PlannedEvent) (broadcast : Broadcast)
    (hadds : agenda.adds (plan.overNetwork broadcast).name .entry) :
    Goes env agenda s (sendOverNetwork plan broadcast) fun _ t =>
      HandsOver s (plan.overNetwork broadcast) t := by
  have h : Goes env agenda s _ _ := handOver_goes hs hm
    (plan.known_overNetwork broadcast) hadds
  simpa only [sendOverNetwork, PlannedEvent.overNetwork, List.mapM_cons, List.mapM_nil, bind_assoc,
    pure_bind] using h

lemma sendDelayed_goes (plan : PlannedEvent) (delay : Single)
    (hadds : agenda.adds (plan.afterDelay delay).name .entry) :
    Goes env agenda s (sendDelayed plan delay) fun _ t => HandsOver s (plan.afterDelay delay) t := by
  have h : Goes env agenda s _ _ := handOver_goes hs hm
    (plan.known_afterDelay delay) hadds
  simpa only [sendDelayed, PlannedEvent.afterDelay, List.mapM_cons, List.mapM_nil, bind_assoc,
    pure_bind] using h

end

/-! ## Event inputs -/

lemma reserved_hasKind {t u : SlotTable} {name : String} {type : ValueType} {id : SlotId}
    (h : t.reserved name type = .ok (id, u)) :
    u.HasKind [.reserved] id ∧ (u.get id).type = type := by
  have hlt := (SlotTable.reserved_gains h).lt
  unfold SlotTable.reserved at h
  split at h
  · dsimp only at h
    split_ifs at h with hkind
    obtain ⟨rfl, rfl⟩ := Prod.mk.inj (Except.ok.inj h)
    exact ⟨⟨hlt, hkind.1 ▸ List.mem_cons_self⟩, hkind.2⟩
  · obtain ⟨-, rfl, rfl⟩ := SlotTable.insert_eq_ok h
    rw [SlotTable.get_push_self]
    refine ⟨⟨hlt, ?_⟩, rfl⟩
    rw [SlotTable.get_push_self]
    exact List.mem_cons_self

/-- More slots. -/
lemma idle_gains {id : SlotId} (hs : s.Idle) (h : s.program.slots.Gains id table) :
    LowerState.Idle { s with program := { s.program with slots := table } } :=
  hs.on (hs.site_empty.gains h)
    ⟨h.within, fun _ ht => ht, fun _ hn => hn⟩

/-- From one state to the other event inputs were added, maybe with slots for them. -/
structure AddsInputs (s t : LowerState) : Prop where
  slots : s.program.slots.Within t.program.slots
  state : t = { s with
    program := { s.program with slots := t.program.slots }, eventInputs := t.eventInputs }

namespace AddsInputs

lemma refl (s : LowerState) : AddsInputs s s := ⟨SlotTable.Within.refl _, rfl⟩

lemma trans (h : AddsInputs s t) (h' : AddsInputs t u) : AddsInputs s u := by
  refine ⟨h.slots.trans h'.slots, ?_⟩
  rw [h'.state, h.state]

lemma method (h : AddsInputs s t) : t.method = s.method := by rw [h.state]

lemma locals (h : AddsInputs s t) : t.locals = s.locals := by rw [h.state]

lemma stays (h : AddsInputs s t) : s.program.Stays t.program := by
  have hprogram : t.program = { s.program with slots := t.program.slots } := by rw [h.state]
  rw [hprogram]
  exact Program.stays_slots h.slots

end AddsInputs

lemma reserveInput_goes (raised : Except ErrorKind SlotId → Lower SlotId)
    (hok : ∀ m t, raised (.ok m) t = .ok m t)
    (herror : ∀ kind t, ∃ coordinate, raised (.error kind) t = .error ⟨kind, coordinate⟩ t)
    {id : String} {type : EventType} {p : EventParameter} (hs : s.Idle)
    (htype : (id, type) ∈ env.registry.events) (hp : p ∈ type.parameters) :
    Goes env agenda s (do
      let slot ← trySlots (·.reserved p.slot p.type) >>= raised
      addEventInput p.name slot
      return slot) fun slot t => AddsInputs s t ∧
        t.eventInputs = (p.name, slot) :: s.eventInputs := by
  cases hreserved : s.program.slots.reserved p.slot p.type with
  | error kind =>
    obtain ⟨n, other, rfl⟩ := SlotTable.reserved_eq_error hreserved
    obtain ⟨coordinate, he⟩ := herror (.duplicateName n other) s
    exact Goes.of_error
      (bind_of_error ((bind_of_ok (trySlots_of_error hreserved) _).trans he) _)
      (.of_duplicate ⟨_, _, rfl⟩) rfl
  | ok result =>
    obtain ⟨slot, table⟩ := result
    have hgains := SlotTable.reserved_gains hreserved
    obtain ⟨hkind, -⟩ := reserved_hasKind hreserved
    have hslot : (trySlots (·.reserved p.slot p.type) >>= raised) s =
        .ok slot { s with program := { s.program with slots := table } } :=
      (bind_of_ok (trySlots_of_ok hreserved) _).trans (hok _ _)
    refine Goes.of_step ((bind_of_ok hslot _).trans rfl) (.input hs htype hp hreserved) ?_
      hgains.within le_rfl rfl ⟨⟨hgains.within, rfl⟩, rfl⟩
    refine { idle_gains hs hgains with inputs := fun e he => ?_ }
    rcases List.mem_cons.mp he with rfl | he
    · exact hkind
    · exact (hs.inputs e he).within hgains.within

lemma eventInputs_goes {id : String} {type : EventType} (hs : s.Idle)
    (htype : (id, type) ∈ env.registry.events) :
    Goes env agenda s (type.parameters.forM fun p => do
      let slot ← raise (← trySlots (·.reserved p.slot p.type))
      addEventInput p.name slot) fun _ t => AddsInputs s t := by
  have hone : ∀ (t : LowerState) (p : EventParameter), p ∈ type.parameters → t.Idle →
      Goes env agenda t (do
        let slot ← raise (← trySlots (·.reserved p.slot p.type))
        addEventInput p.name slot) fun _ u => AddsInputs t u := by
    intro t p hp ht
    have hassoc : (do
        let slot ← raise (← trySlots (·.reserved p.slot p.type))
        addEventInput p.name slot : Lower Unit) = ((do
          let slot ← trySlots (·.reserved p.slot p.type) >>= raise
          addEventInput p.name slot
          return slot) >>= fun _ => Pure.pure ()) := by
      simp only [bind_assoc, pure_bind, bind_pure_unit]
    rw [hassoc]
    refine Goes.bind (reserveInput_goes raise (fun _ _ => rfl)
      (fun _ t => ⟨some t.coordinate, rfl⟩) ht htype hp) ?_
    exact fun _ u hu _ h => Goes.pure hu h.1
  have hall : ∀ (l : List EventParameter), (∀ p ∈ l, p ∈ type.parameters) → ∀ t : LowerState,
      t.Idle → Goes env agenda t (l.forM fun p => do
        let slot ← raise (← trySlots (·.reserved p.slot p.type))
        addEventInput p.name slot) fun _ u => AddsInputs t u := by
    intro l
    induction l with
    | nil => exact fun _ t ht => Goes.pure ht (.refl t)
    | cons p l ih =>
      intro hl t ht
      refine Goes.bind (hone t p (hl p List.mem_cons_self) ht) fun _ u hu _ hkept => ?_
      refine (ih (fun q hq => hl q (List.mem_cons_of_mem _ hq)) u hu).mono ?_
      exact fun _ _ _ _ h => hkept.trans h
  exact hall _ (fun _ h => h) s hs

/-- The value that the handler of a watched variable knows. -/
lemma watched_goes (hs : s.Idle) (watched : Option SlotId)
    (hw : ∀ id, watched = some id → id < s.program.slots.size) :
    Goes env agenda s (match watched with
      | some watched => do
        match (← slot watched).shadow with
        | some shadow => addEventInput "previous" shadow
        | none => Pure.pure ()
      | none => Pure.pure ()) fun _ t => AddsInputs s t := by
  cases watched with
  | none => exact Goes.pure hs (.refl s)
  | some id =>
    have hlt := hw id rfl
    dsimp only
    have hrun : ∀ k : Slot → Lower Unit, (slot id >>= k) s = k (s.program.slots.get id) s :=
      fun k => rfl
    unfold Goes Ensures
    rw [hrun]
    cases hshadow : (s.program.slots.get id).shadow with
    | none => exact ⟨hs, Course.refl s, .refl s⟩
    | some shadow =>
      obtain ⟨hslt, hkind, -⟩ := hs.site.table.shadow id hlt shadow hshadow
      refine ⟨{ hs with inputs := fun e he => ?_ },
        Course.of_step (.previous hs hlt hshadow) (SlotTable.Within.refl _) le_rfl rfl,
        SlotTable.Within.refl _, rfl⟩
      rcases List.mem_cons.mp he with rfl | he
      · exact ⟨hslt, hkind ▸ List.mem_cons_self⟩
      · exact hs.inputs e he

/-! ## The chain of an event -/

/-- What is known of a planned event. -/
structure Planned (env : Environment) (agenda : Agenda) (t : SlotTable) (plan : PlannedEvent) :
    Prop where
  type : ∃ id, (id, plan.type) ∈ env.registry.events
  watched : ∀ id, plan.watched = some id → id < t.size
  actions : ∀ a ∈ plan.event.actions, agenda.acts a ∧ a.NoAddress
  adds : ∀ name kind, plan.Adds name kind → agenda.adds name kind

lemma Planned.within {t u : SlotTable} (h : Planned env agenda t plan) (hw : t.Within u) :
    Planned env agenda u plan :=
  { h with watched := fun id hid => (h.watched id hid).trans_le hw.size_le }

/-- The part of an event's assembly that comes before its body. -/
def openEvent (plan : PlannedEvent) (method : MethodId) : Lower Unit := do
  let options := plan.event.options
  beginEvent plan.index plan.event.entry.id
  enterMethod method
  checkGate options.gate method
  let forwarded := options.broadcast ≠ .here || options.delay.isPositive
  if forwarded && !plan.type.parameters.isEmpty then
    warn ("event '" ++ plan.event.name
      ++ "' forwards its body to another method; its event inputs are not carried over")
  if options.broadcast ≠ .here then sendOverNetwork plan options.broadcast
  if options.delay.isPositive then sendDelayed plan options.delay
  plan.type.parameters.forM fun p => do
    let slot ← raise (← trySlots (·.reserved p.slot p.type))
    addEventInput p.name slot
  match plan.watched with
  | some watched =>
    match (← slot watched).shadow with
    | some shadow => addEventInput "previous" shadow
    | none => pure ()
  | none => pure ()

lemma assembleEvent_eq (env : Environment) (plan : PlannedEvent) (method : MethodId) :
    assembleEvent env plan method =
      openEvent plan method >>= fun _ => lowerBody env plan.event.actions := by
  unfold assembleEvent openEvent
  cases plan.watched with
  | none =>
    dsimp only
    split_ifs
    all_goals simp only [bind_assoc, pure_bind]
  | some watched =>
    have hshadow : ∀ x : Slot, (match x.shadow with
        | some shadow => do
          addEventInput "previous" shadow
          lowerBody env plan.event.actions
        | none => lowerBody env plan.event.actions) =
        ((match x.shadow with
        | some shadow => addEventInput "previous" shadow
        | none => pure ()) >>= fun _ => lowerBody env plan.event.actions) := by
      intro x
      cases x.shadow <;> rfl
    dsimp only
    split_ifs
    all_goals
      simp only [bind_assoc, ← hshadow]
      try rfl

/-- From one state to the other the event was handed over if that was called for. -/
structure Hops (s : LowerState) (relay : Option Relay) (t : LowerState) : Prop where
  lt : t.method < t.program.methods.size
  locals : t.locals = s.locals
  place : t.method = s.method ∨ s.program.methods.size ≤ t.method
  leaves : s.program.Leaves s.method t.program
  relays : t.program.Relays relay s.method (s.program.lines s.method) t.method
    (t.program.lines t.method)

lemma HandsOver.hops {x : Relay} (h : HandsOver s x t) (hm : s.method < s.program.methods.size) :
    Hops s (some x) t := by
  obtain ⟨code, hlines, hextends⟩ := h.lines
  refine ⟨h.lt, by rw [h.state], .inr h.next.ge, hextends.toLeaves, h.next ▸ hm, ?_, ?_, ?_, ?_, code,
    hlines, hextends.lines⟩
  · unfold Program.lines
    rw [h.method]
    rfl
  all_goals rw [h.method]

/-- The event goes on after a hand-over, or where it is. -/
lemma hop_goes {α : Type} {c : Prop} [Decidable c] {x : Lower Unit} {f : Unit → Lower α}
    {y : Relay} {P : α → LowerState → Prop} (relay : Option Relay)
    (hrelay : relay = if c then some y else none) (hs : s.Idle)
    (hm : s.method < s.program.methods.size)
    (hx : relay = some y → Goes env agenda s x fun _ t => HandsOver s y t)
    (hf : ∀ t, t.Idle → Course env agenda s t → Hops s relay t → Goes env agenda t (f ()) P) :
    Goes env agenda s (if c then x >>= f else f ()) P := by
  split_ifs with hc
  · rw [if_pos hc] at hrelay
    refine Goes.bind (hx hrelay) ?_
    rintro ⟨⟩ t ht hcourse hover
    exact hf t ht hcourse (hrelay ▸ hover.hops hm)
  · refine hf s hs (Course.refl s) ⟨hm, rfl, .inl rfl, ((Program.Stays.refl _).lengthens hm).toLeaves, ?_⟩
    rw [hrelay, if_neg hc]
    exact ⟨rfl, rfl⟩

/-- While an event is assembled in the given method and in new ones, the other methods are left
alone. -/
structure Underway (s : LowerState) (k : MethodId) (t : LowerState) : Prop where
  lt : t.method < t.program.methods.size
  locals : t.locals = []
  place : t.method = k ∨ s.program.methods.size ≤ t.method
  leaves : s.program.Leaves k t.program

namespace Underway

variable {k : MethodId}

lemma first_lt (h : Underway s k t) (hk : k < s.program.methods.size) : k < t.program.methods.size :=
  hk.trans_le h.leaves.size_le

lemma start (hk : k < s.program.methods.size) (hprogram : t.program = s.program)
    (hmethod : t.method = k) (hlocals : t.locals = []) : Underway s k t := by
  refine ⟨?_, hlocals, .inl hmethod, ?_⟩
  all_goals rw [hprogram]
  · exact hmethod ▸ hk
  · exact ((Program.Stays.refl _).lengthens hk).toLeaves

section

variable (h : Underway s k t) (hk : k < s.program.methods.size)
include h hk

/-- More lines in the current method, after which that may be another one that is new. -/
lemma leaves_current (hl : t.program.Leaves t.method u.program)
    (hlt : u.method < u.program.methods.size) (hlocals : u.locals = t.locals)
    (hplace : u.method = t.method ∨ t.program.methods.size ≤ u.method) : Underway s k u := by
  refine ⟨hlt, hlocals.trans h.locals, ?_, h.leaves.trans_new hl hk h.place⟩
  rcases hplace with hplace | hplace
  · rw [hplace]
    exact h.place
  · exact .inr (h.leaves.size_le.trans hplace)

lemma hops {relay : Option Relay} (hh : Hops t relay u) : Underway s k u :=
  h.leaves_current hk hh.leaves hh.lt hh.locals hh.place

lemma addsInputs (hi : AddsInputs t u) : Underway s k u := by
  refine h.leaves_current hk (hi.stays.lengthens h.lt).toLeaves ?_ hi.locals (.inl hi.method)
  rw [hi.method]
  exact h.lt.trans_le hi.stays.size_le

end

end Underway

/-- From one state to the other the chain of an event's methods was opened up to the one that is to
hold the body. -/
structure OpensEvent (s : LowerState) (plan : PlannedEvent) (k : MethodId) (t : LowerState) : Prop
    extends Underway s k t where
  wraps : ∃ gate middle between, GateLines plan.event.options.gate t.program k [] gate ∧
    t.program.Relays plan.network? k (s.program.lines k ++ gate) middle between ∧
    middle < t.program.methods.size ∧
    t.program.Relays plan.delay? middle between t.method (t.program.lines t.method)

/-- A gate's check stays as it is while the end of its method does. -/
lemma GateLines.mono {gate : Gate} {p q : Program} {k : MethodId} (h : GateLines gate p k [] code)
    (hslots : p.slots.Within q.slots) (hk : p.SameHead k q) : GateLines gate q k [] code := by
  unfold GateLines at h ⊢
  split at h
  · exact h
  · obtain ⟨self, allowed, l, hlength, hthis, hspare, hl, rfl⟩ := h
    exact ⟨self, allowed, l, hlength, fun x hx => (hthis x hx).within hslots, hspare.within hslots,
      hk.ending l hl, rfl⟩

/-- The chain is opened, and the body starts in its last method, without locals. -/
lemma openEvent_goes (hs : s.Idle) (hplan : Planned env agenda s.program.slots plan)
    {method : MethodId} (hm : s.Owns method) :
    Goes env agenda s (openEvent plan method) fun _ t => OpensEvent s plan method t := by
  unfold openEvent
  extract_lets options forwarded inputs delayed network
  have hk := hm.lt
  have hnetwork : ∀ (t : LowerState) (gate : List Line), t.Idle →
      Underway s method t → t.method = method → Planned env agenda t.program.slots plan →
      GateLines options.gate t.program method [] gate →
      t.program.lines method = s.program.lines method ++ gate →
      Goes env agenda t (network ()) fun _ u => OpensEvent s plan method u := by
    intro t gate ht hway hmethod hplan hgate hlines
    refine hop_goes plan.network? rfl ht hway.lt (fun hsent => sendOverNetwork_goes ht
      hway.lt plan _ (hplan.adds _ _ (.network hsent))) fun u hu hc hhop => ?_
    have hplan' := hplan.within hc.slots
    refine hop_goes plan.delay? rfl hu hhop.lt (fun hsent => sendDelayed_goes hu hhop.lt
      plan _ (hplan'.adds _ _ (.delayed hsent))) fun v hv hc' hhop' => ?_
    -- inputs are added in the last method of the chain
    obtain ⟨id, htype⟩ := hplan.type
    refine Goes.bind (eventInputs_goes hv htype) ?_
    rintro ⟨⟩ w hw hcourse hadds
    refine (watched_goes hw plan.watched (hplan'.within (hc'.slots.trans hcourse.slots)).watched).mono ?_
    rintro ⟨⟩ z - - hadds'
    have hall := hadds.trans hadds'
    have hstays := hall.stays
    have hway' := (hway.hops hk hhop).hops hk hhop'
    have hlast := hstays.spares _ hway'.lt
    have hlater : u.program.Leaves u.method z.program :=
      hhop'.leaves.trans_new (hstays.lengthens hway'.lt).toLeaves hhop.lt hhop'.place
    have hfirst : t.program.Leaves t.method z.program :=
      hhop.leaves.trans_new hlater hway.lt hhop.place
    refine ⟨hway'.addsInputs hk hall, gate, u.method, u.program.lines u.method,
      hgate.mono hfirst.slots (hfirst.sameHead (hway.first_lt hk)), ?_,
      hhop.lt.trans_le hlater.size_le, ?_⟩
    · rw [← hlines, ← hmethod]
      exact hhop.relays.leaves hhop.lt le_rfl hlater
    · rw [hall.method, hlast.lines]
      exact hhop'.relays.mono hall.slots (fun hlt => (hstays.spares _ (hlt.trans hway'.lt)).lines)
        hlast.sameHead
  refine Goes.bind (beginEvent_goes hs _ _) ?_
  rintro ⟨⟩ s₁ hs₁ - rfl
  refine Goes.bind (enterMethod_goes hs₁ ⟨hm.lt, hm.unmerged⟩) ?_
  rintro ⟨⟩ s₂ hs₂ - hstate₂
  have hmethod₂ : s₂.method = method := by rw [hstate₂]
  have hprogram₂ : s₂.program = s.program := by rw [hstate₂]
  have hway₂ : Underway s method s₂ := .start hk hprogram₂ hmethod₂ (by rw [hstate₂])
  have hcheck : Goes env agenda s₂ _ _ := checkGate_goes hs₂ hway₂.lt options.gate
  rw [hmethod₂] at hcheck
  refine Goes.bind hcheck ?_
  rintro ⟨⟩ s₃ hs₃ hc₃ ⟨hstate₃, gate, hgate, hextends⟩
  have hmethod : s₃.method = method := by rw [hstate₃]
  have hlines : s₃.program.lines method = s.program.lines method ++ gate := by
    rw [hextends.lines, hprogram₂]
  have hway : Underway s method s₃ := by
    refine hway₂.leaves_current hk (hmethod₂.symm ▸ hextends.toLeaves) ?_ (by rw [hstate₃])
      (.inl (hmethod.trans hmethod₂.symm))
    rw [hmethod]
    exact (hprogram₂ ▸ hk).trans_le hextends.size_le
  have hplan₃ := (hprogram₂ ▸ hplan).within hc₃.slots
  split_ifs
  · refine Goes.bind (warn_goes hs₃ _) ?_
    rintro ⟨⟩ s₄ hs₄ - ⟨warnings, rfl⟩
    exact hnetwork _ gate hs₄ { hway with } hmethod hplan₃ hgate hlines
  · exact hnetwork s₃ gate hs₃ hway hmethod hplan₃ hgate hlines

/-! ## The call of an event's method -/

/-- A call of a method that returns through a slot. -/
lemma callMethod_goes (hs : s.Idle) (hm : s.method < s.program.methods.size)
    (hhalts : (s.program.method s.method).epilogue = .halt) {name : String}
    {slot : SlotId} (hslot : slot < s.program.slots.size) (hcallee : s.program.Callee name slot) :
    Goes env agenda s (callMethod name slot) fun _ t => t = { s with program := t.program } ∧
      ∃ code, MethodLines t.program.slots name slot code ∧
        s.program.Lengthens s.method code t.program := by
  refine (preamble_goes hs hm (callMethod_yields (hs.sound hm).ready hcallee.mem_names hslot)
    (fun _ _ _ h => h.2) ?_).mono ?_
  · rintro - code b ⟨hlines, -⟩ hadds
    exact .inr (.call hlines (Site.Works.callee hadds.toWorks hcallee) (hadds.epilogue.trans hhalts))
  · rintro ⟨⟩ _ - - ⟨code, b, rfl, ⟨hlines, -⟩, hextends⟩
    exact ⟨rfl, code, hlines, hextends⟩

/-- Adds the method of an event that shares its exported name, and lets the exported method call
it. -/
def openShared (exported : MethodId) (plan : PlannedEvent) : Lower MethodId := do
  let name := "__event" ++ toString plan.index ++ plan.exported
  beginEvent plan.index plan.event.entry.id
  let method ← addMethod name .internal
  let returnSlot ← raise (← trySlots (·.declare (name ++ "__return") .uint32 .reserved))
  onProgram fun p => ((), p.setEpilogue method (.indirect returnSlot))
  enterMethod exported
  callMethod name returnSlot
  return method

lemma assembleShared_eq (env : Environment) (exported : MethodId) (plan : PlannedEvent) :
    assembleShared env exported plan =
      openShared exported plan >>= fun method => assembleEvent env plan method := by
  unfold assembleShared openShared
  simp only [bind_assoc, pure_bind]

/-- From one state to the other the method of an event was added, which is still empty, and the method
of the exported name ends with a call of it. -/
structure OpensShared (s : LowerState) (exported : MethodId) (plan : PlannedEvent) (method : MethodId)
    (t : LowerState) : Prop where
  owns : t.Owns method
  new : method = s.program.methods.size
  call : ∃ slot code, t.program.method method =
      { name := plan.ownName, kind := .internal, epilogue := .indirect slot } ∧
    MethodLines t.program.slots plan.ownName slot code ∧
    s.program.Lengthens exported code t.program

lemma openShared_goes (hs : s.Idle) {exported : MethodId} (hm : s.Owns exported)
    (hhalts : (s.program.method exported).epilogue = .halt)
    (hadds : agenda.adds plan.ownName .internal) :
    Goes env agenda s (openShared exported plan) fun method t =>
      OpensShared s exported plan method t := by
  unfold openShared
  extract_lets name
  refine Goes.bind (beginEvent_goes hs _ _) ?_
  rintro ⟨⟩ s₁ hs₁ - rfl
  have h : Goes env agenda _ _ _ := callee_goes
    (R := fun method t => OpensShared s exported plan method t) raise raise name
    (k := fun method slot => do
      enterMethod exported
      callMethod name slot
      return method)
    (fun _ _ => rfl) (fun _ t => ⟨some t.coordinate, rfl⟩) (fun _ _ => rfl)
    (fun _ t => ⟨some t.coordinate, rfl⟩) hs₁ hadds ?_
  · simpa only [bind_assoc, addMethod] using h
  · rintro slot s₂ hs₂ hc₂ hslot hcallee hown ⟨table, hs₂_eq⟩
    have hm₂ := hc₂.endures.owns (k := exported) ⟨hm.lt, hm.unmerged⟩
    have hpush : s.program.Lengthens exported [] s₂.program := by
      rw [hs₂_eq]
      refine (s.program.stays_push _ ?_).lengthens hm.lt
      have hslots := hc₂.slots
      rw [hs₂_eq] at hslots
      exact hslots
    have hnew : s₂.program.method s.program.methods.size =
        { name := plan.ownName, kind := .internal, epilogue := .indirect slot } := by
      rw [hs₂_eq]
      exact Program.method_push_self rfl
    refine Goes.bind (enterMethod_goes hs₂ hm₂) ?_
    rintro ⟨⟩ s₃ hs₃ hc₃ rfl
    refine Goes.bind (callMethod_goes hs₃ hm₂.lt ?_ hslot hcallee) ?_
    · exact (hc₂.endures.epilogue exported hm.lt).trans hhalts
    · rintro ⟨⟩ s₄ hs₄ hc₄ ⟨-, code, hlines, hextends⟩
      refine Goes.pure hs₄ ⟨(hc₃.trans hc₄).endures.owns hown, rfl, slot, code, ?_, hlines,
        hpush.trans hextends⟩
      exact (hextends.spares _ hown.lt hm.lt.ne').method.trans hnew

end Lower

end TriggerCompiler
