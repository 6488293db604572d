import Mathlib
import TriggerCompiler.Proofs.CallsReturn
import TriggerCompiler.Proofs.EventMethods
import TriggerCompiler.Proofs.Stretches

/-!
# Runs through the methods of events

What the machine does at the check of a gate, at a hand-over and at the end of a method. These lines have
no loops, so that a run takes no more steps there than there are lines. The check of a gate writes
nothing but a temporary; a hand-over sends one event, and it writes nothing at all.
-/

namespace TriggerCompiler

variable {self result slot : SlotId} {name : String} {position : Nat}

open Program Lower

/-- Whether the gate lets the player of the machine pass. -/
def Gate.opens : Gate → Machine → Bool
  | .anyone, _ => true
  | .owner, m => m.isOwner
  | .master, m => m.isMaster

/-- A method is started for a network target. -/
def Effects.broadcast (target : Int32) (name : String) (e : Effects) : Effects :=
  { e with networkEvents := e.networkEvents.push (target, name) }

/-- A method is started after a delay. -/
def Effects.schedule (name : String) (delay : Single) (e : Effects) : Effects :=
  { e with delayedEvents := e.delayedEvents.push (name, delay) }

/-- The sending of variables is asked for a number of times. -/
def Effects.request (n : Nat) (e : Effects) : Effects :=
  { e with serializations := e.serializations + n }

/-- The machine with other effects. -/
def Machine.affect (f : Effects → Effects) (m : Machine) : Machine :=
  { m with effects := f m.effects }

/-! ## Calls into the host -/

namespace Run

variable {m : Machine} {rest : List SlotId}

lemma call_isOwner (h : m.stack = result :: self :: rest) :
    call HostCall.isOwner m = .ok () (stored (popped m rest) result (.boolean m.isOwner)) := by
  have hint : intCall HostCall.isOwner = none := Option.not_isSome_iff_eq_none.mp (by decide)
  have hstack : m.stack = [self, result].reverse ++ rest := h
  unfold call
  rw [hint]
  rw [if_neg (by decide), if_neg (by decide), if_neg (by decide), if_neg (by decide),
    if_neg (by decide), if_neg (by decide), if_neg (by decide), if_neg (by decide), if_pos rfl]
  exact bind_of_ok (arguments_apply hstack) _

lemma call_isMaster (h : m.stack = result :: rest) :
    call HostCall.isMaster m = .ok () (stored (popped m rest) result (.boolean m.isMaster)) := by
  have hint : intCall HostCall.isMaster = none := Option.not_isSome_iff_eq_none.mp (by decide)
  have hstack : m.stack = [result].reverse ++ rest := h
  unfold call
  rw [hint]
  rw [if_neg (by decide), if_neg (by decide), if_neg (by decide), if_neg (by decide),
    if_neg (by decide), if_neg (by decide), if_neg (by decide), if_neg (by decide),
    if_neg (by decide), if_pos rfl]
  exact bind_of_ok (arguments_apply hstack) _

/-- What a gate asks is answered as the gate has it. -/
lemma call_question {gate : Gate} {signature : String} {arity : Nat}
    (hquestion : gate.question? = some (signature, arity)) {self : List SlotId}
    (hself : self.length = arity) (h : m.stack = (self ++ [result]).reverse ++ rest) :
    call signature m = .ok () (stored (popped m rest) result (.boolean (gate.opens m))) := by
  cases gate with
  | anyone => cases hquestion
  | owner =>
    obtain ⟨rfl, rfl⟩ := Prod.mk.inj (Option.some.inj hquestion)
    obtain ⟨x, rfl⟩ := List.length_eq_one_iff.mp hself
    exact call_isOwner h
  | master =>
    obtain ⟨rfl, rfl⟩ := Prod.mk.inj (Option.some.inj hquestion)
    obtain rfl := List.length_eq_zero_iff.mp hself
    exact call_isMaster h

lemma loadInt_apply {n : Int32} (h : m.heap.getD slot .null = .int32 n) :
    loadInt slot m = .ok n m := by
  simp only [loadInt, load_bind]
  rw [h]
  rfl

lemma loadString_apply {s : String} (h : m.heap.getD slot .null = .string s) :
    loadString slot m = .ok s m := by
  simp only [loadString, load_bind]
  rw [h]
  rfl

lemma loadDelay_apply {x : Single} (h : m.heap.getD slot .null = .single x) :
    loadDelay slot m = .ok x m := by
  simp only [loadDelay, load_bind]
  rw [h]
  rfl

set_option maxRecDepth 2048 in
lemma call_sendCustomNetworkEvent {target text : SlotId} {n : Int32}
    (h : m.stack = [self, target, text].reverse ++ rest)
    (htarget : m.heap.getD target .null = .int32 n) (htext : m.heap.getD text .null = .string name) :
    call HostCall.sendCustomNetworkEvent m = .ok () ((popped m rest).affect (.broadcast n name)) := by
  have hint : intCall HostCall.sendCustomNetworkEvent = none :=
    Option.not_isSome_iff_eq_none.mp (by decide)
  have hload : loadInt target (popped m rest) = .ok n (popped m rest) := loadInt_apply htarget
  have hload' : loadString text (popped m rest) = .ok name (popped m rest) := loadString_apply htext
  unfold call
  rw [hint]
  rw [if_neg (by decide), if_neg (by decide), if_neg (by decide), if_neg (by decide),
    if_neg (by decide), if_pos rfl]
  exact (bind_of_ok (arguments_apply h) _).trans
    ((bind_of_ok hload _).trans (bind_of_ok hload' _))

set_option maxRecDepth 2048 in
lemma call_sendCustomEventDelayed {text delay timing : SlotId} {x : Single}
    (h : m.stack = [self, text, delay, timing].reverse ++ rest)
    (hdelay : m.heap.getD delay .null = .single x) (htext : m.heap.getD text .null = .string name) :
    call HostCall.sendCustomEventDelayed m = .ok () ((popped m rest).affect (.schedule name x)) := by
  have hint : intCall HostCall.sendCustomEventDelayed = none :=
    Option.not_isSome_iff_eq_none.mp (by decide)
  have hload : loadDelay delay (popped m rest) = .ok x (popped m rest) := loadDelay_apply hdelay
  have hload' : loadString text (popped m rest) = .ok name (popped m rest) := loadString_apply htext
  unfold call
  rw [hint]
  rw [if_neg (by decide), if_neg (by decide), if_neg (by decide), if_neg (by decide),
    if_neg (by decide), if_neg (by decide), if_pos rfl]
  exact (bind_of_ok (arguments_apply h) _).trans
    ((bind_of_ok hload _).trans (bind_of_ok hload' _))

lemma call_requestSerialization (h : m.stack = [self].reverse ++ rest) :
    call HostCall.requestSerialization m = .ok () ((popped m rest).affect (.request 1)) := by
  have hint : intCall HostCall.requestSerialization = none :=
    Option.not_isSome_iff_eq_none.mp (by decide)
  unfold call
  rw [hint]
  rw [if_neg (by decide), if_neg (by decide), if_neg (by decide), if_neg (by decide),
    if_neg (by decide), if_neg (by decide), if_neg (by decide), if_pos rfl]
  exact bind_of_ok (arguments_apply h) _

end Run

/-! ## What a run changes -/

/-- From one machine to the other the effects have changed as the function says, and of what the slots
hold only temporaries. -/
structure Machine.Acts (q : Program) (f : Effects → Effects) (m m' : Machine) : Prop where
  effects : m'.effects = f m.effects
  heap : ∀ id, (q.slots.get id).kind ≠ .temporary → m'.heap.getD id .null = m.heap.getD id .null

namespace Machine.Acts

variable {q : Program} {f g : Effects → Effects} {m m' m'' : Machine}

lemma refl (q : Program) (m : Machine) : Acts q id m m := ⟨rfl, fun _ _ => rfl⟩

lemma trans (h : Acts q f m m') (h' : Acts q g m' m'') : Acts q (g ∘ f) m m'' :=
  ⟨by rw [h'.effects, h.effects]; rfl, fun id hid => (h'.heap id hid).trans (h.heap id hid)⟩

lemma affect (q : Program) (f : Effects → Effects) (m : Machine) : Acts q f m (m.affect f) :=
  ⟨rfl, fun _ _ => rfl⟩

lemma stored (hslot : (q.slots.get slot).kind = .temporary) (value : Value) :
    Acts q id m (Run.stored m slot value) := by
  refine ⟨rfl, fun id hid => ?_⟩
  simp only [Run.stored, Machine.getD_modify]
  refine if_neg ?_
  rintro ⟨rfl, -⟩
  exact hid hslot

end Machine.Acts

namespace Program

variable {R : Rules} {options : CompileOptions} {p f q : Program} {k : MethodId} {m m' : Machine}
  {gate : Gate} {code rest before after : List Line} {base : List SlotId} {I : Machine → Prop}

/-- A constant of the program is in its slot, as long as code writes only what it may. -/
lemma Ready.constant (h : Ready R f q) (hstrict : R.strict) (hm : m.Intact R f q) {type : ValueType}
    {value : Value} (hplain : ∀ x, value ≠ .address x) {id : SlotId}
    (hid : f.slots.IsConstant type value id) : m.heap.getD id .null = value := by
  have hlt : id < q.slots.size := h.slots ▸ hid.lt
  rw [hm.fixed hstrict id hlt fun hno => hno.kind hid.kind,
    h.slot_of_ne hlt fun x hx => hplain x (Option.some.inj (hid.initial.symm.trans hx)), hid.initial]
  rfl

lemma Ready.kind_eq (h : Ready R f q) {id : SlotId} (hid : id < f.slots.size) :
    (q.slots.get id).kind = (f.slots.get id).kind := by
  obtain ⟨initial, hslot⟩ := h.slot_eq (h.slots.symm ▸ hid)
  rw [hslot]

/-! ## Gates -/

lemma opens_popped (gate : Gate) (m : Machine) (stack : List SlotId) :
    gate.opens (Run.popped m stack) = gate.opens m := by
  cases gate <;> rfl

/-- The check of a gate comes to its branch, with the answer in a temporary. -/
lemma Ready.climbs_question (h : Ready R f q) (hm : m.Intact R f q) {signature : String}
    {arity : Nat} (hquestion : gate.question? = some (signature, arity)) {self : List SlotId}
    {allowed : SlotId} (hself : self.length = arity) (hspare : f.slots.Spare [] allowed)
    (hstretch : q.Stretch k before (callLines signature (self ++ [allowed])) after)
    (hposition : position = q.start k + before.length) (hI : ∀ m', m.Acts q id m' → I m') :
    ∃ m', Run.Climbs I position (position + (arity + 2)) (position, m) (position + (arity + 2), m') ∧
      m.Acts q id m' ∧ m'.Holds q ∧ m'.heap.getD allowed .null = .boolean (gate.opens m) := by
  have hcall := Run.call_question (m := Run.popped m ((self ++ [allowed]).reverse ++ m.stack))
    hquestion hself rfl
  have hlt : allowed < m.heap.size := by
    rw [hm.size, h.slots]
    exact hspare.lt
  have hacts : m.Acts q id (Run.stored m allowed (.boolean (gate.opens m))) := by
    refine .stored ?_ _
    rw [h.kind_eq hspare.lt]
    exact hspare.kind
  rw [opens_popped] at hcall
  have hclimbs := Run.climbs_call h.laid hm.holds hstretch hposition hcall
    (fun stack => hI _ ⟨rfl, fun _ _ => rfl⟩) (hI _ hacts)
  rw [List.length_append, hself] at hclimbs
  exact ⟨_, hclimbs, hacts, ⟨hm.holds.program, hm.holds.code⟩,
    (Machine.getD_modify _ _ _ _).trans (if_pos ⟨rfl, hlt⟩)⟩

/-- A gate that is open is passed. -/
lemma Ready.climbs_gate (h : Ready R f q) (hm : m.Intact R f q) (hgate : GateLines gate f k [] code)
    (hstretch : q.Stretch k before code after) (hposition : position = q.start k + before.length)
    (hopen : gate.opens m = true) (hI : ∀ m', m.Acts q id m' → I m') :
    ∃ m', Run.Climbs I position (position + code.length) (position, m) (position + code.length, m') ∧
      m.Acts q id m' := by
  unfold GateLines at hgate
  split at hgate
  · subst hgate
    exact ⟨m, Run.Climbs.refl _, .refl q m⟩
  · rename_i signature arity hquestion
    obtain ⟨self, allowed, l, hself, -, hspare, -, rfl⟩ := hgate
    obtain ⟨m₁, hcall, hacts, hholds, hvalue⟩ :=
      h.climbs_question hm hquestion hself hspare hstretch.left hposition hI
    rw [hopen] at hvalue
    have hposition' : position + (arity + 2) =
        q.start k + (before ++ callLines signature (self ++ [allowed])).length := by
      simp [callLines, hself, hposition]
      omega
    obtain ⟨hpush, hbranch⟩ :=
      Run.next_branch h.laid hholds hstretch.right hposition' (.inl ⟨hvalue, rfl⟩)
        fun stack => hI _ ⟨hacts.effects, hacts.heap⟩
    have hlength : position + (callLines signature (self ++ [allowed]) ++ branchLines allowed l).length =
        position + (arity + 2) + 2 := by
      simp [callLines, branchLines, hself]
      omega
    rw [hlength]
    refine ⟨m₁, ?_, hacts⟩
    exact (hcall.mono le_rfl (by omega)).trans ((hpush.mono (by omega) (by omega)).trans
      (Run.Climbs.single hbranch (by simp; omega) (by simp) le_rfl (hI _ hacts)))

/-- Labels are passed. -/
lemma climbs_nops {i j : Nat} (hij : i ≤ j) (hI : I m)
    (hnop : ∀ n, i ≤ n → n < j → ∃ a, m.code[n]? = some (a, .nop)) : Run.Climbs I i j (i, m) (j, m) := by
  induction j, hij using Nat.le_induction with
  | base => exact Run.Climbs.refl _
  | succ j hij ih =>
    obtain ⟨a, hcode⟩ := hnop j hij (Nat.lt_succ_self j)
    exact ((ih fun n hn hlt => hnop n hn (hlt.trans (Nat.lt_succ_self j))).mono le_rfl
      (Nat.le_succ j)).trans (Run.Climbs.single (Run.step_nop hcode) hij (Nat.lt_succ_self j)
        le_rfl hI)

/-- A gate that is closed leads to the end label of the method. -/
lemma Ready.climbs_closed (h : Ready R f q) (hm : m.Intact R f q)
    (hgate : GateLines gate f k [] code) (hstretch : q.Stretch k before code after)
    (hposition : position = q.start k + before.length) (hclosed : gate.opens m = false)
    {l : InstrId} (hl : (f.method k).endLabel = some l) {ahead behind : List Line} {j : Nat}
    (hat : q.At k ahead (.label l) behind j) (hj : position + code.length ≤ j)
    (hI : ∀ m', m.Acts q id m' → I m') :
    ∃ m', Run.Climbs I position j (position, m) (j, m') ∧ m.Acts q id m' ∧ m'.Holds q := by
  unfold GateLines at hgate
  split at hgate
  · rename_i hquestion
    cases gate <;> cases hquestion
    cases hclosed
  · rename_i signature arity hquestion
    obtain ⟨self, allowed, l', hself, -, hspare, hl', rfl⟩ := hgate
    obtain rfl : l' = l := Option.some.inj (hl'.symm.trans hl)
    obtain ⟨m₁, hcall, hacts, hholds, hvalue⟩ :=
      h.climbs_question hm hquestion hself hspare hstretch.left hposition hI
    rw [hclosed] at hvalue
    have hposition' : position + (arity + 2) =
        q.start k + (before ++ callLines signature (self ++ [allowed])).length := by
      simp [callLines, hself, hposition]
      omega
    -- the machine comes to the first of the labels that stand there
    obtain ⟨id, hid, hline⟩ := hat.placed
    obtain ⟨-, rfl⟩ := line_eq_label.mp hline
    obtain ⟨i, -, -, -, hlocate, -, hij, hnop⟩ := hholds.locate_label h.laid h.ended hat
    have hlocate' : Run.locateLabel id m₁ = .ok i m₁ := by
      simp only [Run.locateLabel, Run.get_bind, hholds.program, h.laid _ _ hid]
      exact hlocate
    obtain ⟨hpush, hbranch⟩ :=
      Run.next_branch h.laid hholds hstretch.right hposition' (.inr ⟨hvalue, hlocate'⟩)
        fun stack => hI _ ⟨hacts.effects, hacts.heap⟩
    have hlength : position + (callLines signature (self ++ [allowed]) ++ branchLines allowed id).length =
        position + (arity + 2) + 2 := by
      simp [callLines, branchLines, hself]
      omega
    rw [hlength] at hj
    -- which is none of the lines of the check
    have hi : position + (arity + 2) + 1 < i := by
      by_contra hle
      have hplace : q.At k _ (.code (.jumpIfFalse id)) _ _ :=
        (show q.Stretch k _ ([.code (.push allowed)] ++ .code (.jumpIfFalse id) :: []) after from
          hstretch.right).place
      obtain ⟨a, hcode⟩ := hholds.code_at h.laid hplace
      rw [← hposition'] at hcode
      obtain ⟨a', hcode'⟩ := hnop (position + (arity + 2) + 1) (by omega) (by omega)
      simp [hcode'] at hcode
      cases hcode.2
    refine ⟨m₁, ?_, hacts, hholds⟩
    exact (hcall.mono le_rfl (by omega)).trans ((hpush.mono (by omega) (by omega)).trans
      ((Run.Climbs.single hbranch (by simp; omega) hi (by simp; omega) (hI _ hacts)).trans
        ((climbs_nops hij (hI _ hacts) hnop).mono (by omega) le_rfl)))

/-! ## Hand-overs -/

/-- A hand-over passes its call, if that succeeds with the constants. -/
lemma Ready.climbs_relay (h : Ready R f q) (hm : m.Intact R f q) {x : Relay}
    (hlines : x.Lines f.slots code) (hstretch : q.Stretch k before code after)
    (hposition : position = q.start k + before.length) (hcall : ∀ self arguments,
      List.Forall₂ (fun c id => f.slots.IsConstant c.1 c.2 id) x.constants arguments →
      Run.call x.signature (Run.popped m ((self :: arguments).reverse ++ m.stack)) = .ok () m')
    (hI : ∀ stack, I (Run.popped m stack)) (hI' : I m') :
    Run.Climbs I position (position + code.length) (position, m) (position + code.length, m') := by
  obtain ⟨self, arguments, -, harguments, rfl⟩ := hlines
  have hclimbs := Run.climbs_call h.laid hm.holds hstretch hposition (hcall self arguments harguments)
    hI hI'
  have hlength : (callLines x.signature (self :: arguments)).length = (self :: arguments).length + 1 := by
    simp [callLines]
  rw [hlength]
  exact hclimbs

lemma Ready.climbs_network (h : Ready R f q) (hstrict : R.strict) (hm : m.Intact R f q)
    {plan : PlannedEvent} {broadcast : Broadcast}
    (hlines : (plan.overNetwork broadcast).Lines f.slots code)
    (hstretch : q.Stretch k before code after) (hposition : position = q.start k + before.length) :
    Run.Climbs (fun _ => True) position (position + code.length) (position, m) (position + code.length,
      m.affect (.broadcast (if broadcast = .owner then 1 else 0) (plan.overNetwork broadcast).name)) := by
  refine h.climbs_relay hm hlines hstretch hposition ?_ (fun _ => trivial) trivial
  rintro self _ (_ | ⟨htarget, _ | ⟨htext, _ | _⟩⟩)
  exact Run.call_sendCustomNetworkEvent rfl (h.constant hstrict hm (by simp) htarget)
    (h.constant hstrict hm (by simp) htext)

lemma Ready.climbs_delayed (h : Ready R f q) (hstrict : R.strict) (hm : m.Intact R f q)
    {plan : PlannedEvent} {delay : Single} (hlines : (plan.afterDelay delay).Lines f.slots code)
    (hstretch : q.Stretch k before code after) (hposition : position = q.start k + before.length) :
    Run.Climbs (fun _ => True) position (position + code.length) (position, m) (position + code.length,
      m.affect (.schedule (plan.afterDelay delay).name delay)) := by
  refine h.climbs_relay hm hlines hstretch hposition ?_ (fun _ => trivial) trivial
  rintro self _ (_ | ⟨htext, _ | ⟨hdelay, _ | ⟨htiming, _ | _⟩⟩⟩)
  exact Run.call_sendCustomEventDelayed rfl (h.constant hstrict hm (by simp) hdelay)
    (h.constant hstrict hm (by simp) htext)

/-! ## Ends of methods -/

/-- The second program is linked from the first, which is in order. -/
structure Ships (options : CompileOptions) (p q : Program) : Prop where
  site : (⟨p, [], []⟩ : Site).Sound
  ready : Ready (Rules.builtin True) (p.finishMethods options) q
  layered : q.Layered
  size : q.size < 2 ^ 32

namespace Ships

variable (h : Ships options p q)

include h

lemma finished : p.Finished options (p.finishMethods options) :=
  finishMethods_finished options h.site

lemma slots : p.slots.Within (p.finishMethods options).slots := h.finished.slots

lemma size_methods : q.methods.size = p.methods.size := by
  rw [h.ready.methods]
  exact h.finished.size

section

variable (hk : k < p.methods.size)
include hk

/-- A method is linked with what it had, and with the lines of its end. -/
lemma method_eq :
    ∃ new : List InstrId, q.method k = { p.method k with body := (p.method k).body ++ new.toArray } := by
  obtain ⟨new, -, hmethod, -⟩ := h.finished.finished k hk
  exact ⟨new, (h.ready.method k).trans hmethod⟩

lemma lines_eq :
    ∃ sync, SyncLines (options.autoSerialize && (p.method k).serializes)
      (p.finishMethods options).slots sync ∧
      q.lines k = p.lines k ++ ((p.method k).endLabel.toList.map .label ++ sync ++
        [.code (Epilogue.instr (p.method k).epilogue)]) := by
  obtain ⟨sync, hsync, hlines⟩ := h.finished.lines_eq hk
  exact ⟨sync, hsync, (h.ready.lines k).trans hlines⟩

/-- A method is found by its name. -/
lemma findMethod? (hname : (p.method k).name = name) : q.findMethod? name = some k := by
  have hk' : k < q.methods.size := h.size_methods ▸ hk
  have hsome : (q.findMethod? name).isSome = true := by
    obtain ⟨new, hmethod⟩ := h.method_eq hk
    rw [Program.findMethod?, Array.findIdx?_isSome, Array.any_eq_true']
    refine ⟨q.method k, Array.mem_toList_iff.mp (method_mem hk'), ?_⟩
    simp [hmethod, hname]
  obtain ⟨j, hj⟩ := Option.isSome_iff_exists.mp hsome
  have hjk : j = k := by
    refine eq_of_name h.layered.names (lt_of_findMethod? hj) hk' ?_
    obtain ⟨new, hmethod⟩ := h.method_eq hk
    rw [name_of_findMethod? hj, hmethod]
    exact hname.symm
  rw [hj, hjk]

/-- What stands behind the last line of a method. -/
lemma start_succ : q.start (k + 1) = q.start k + (q.lines k).length := by
  rw [Program.start_succ (h.size_methods ▸ hk)]
  simp [Program.lines]

/-- Lines that stand in the method before it is finished. -/
lemma stretch (hlines : p.lines k = before ++ (code ++ after)) :
    ∃ rest, q.Stretch k before code rest := by
  obtain ⟨sync, -, hq⟩ := h.lines_eq hk
  generalize _ ++ sync ++ _ = rest at hq
  refine ⟨after ++ rest, h.size_methods ▸ hk, ?_⟩
  rw [hq, hlines]
  simp only [List.append_assoc]

end

/-- From the end of its body a method comes to its last line. It asks that variables be sent if it is
marked. -/
lemma climbs_end (hm : m.Holds q) (hk : k < p.methods.size) (hI : ∀ stack, I (Run.popped m stack))
    (hI' : I (m.affect
      (.request (if options.autoSerialize && (p.method k).serializes then 1 else 0)))) :
    Run.Climbs I (q.start k + (p.lines k).length) (q.start (k + 1))
      (q.start k + (p.lines k).length, m) (q.start (k + 1) - 1,
        m.affect (.request (if options.autoSerialize && (p.method k).serializes then 1 else 0))) := by
  have hlaid := h.ready.laid
  have hend := h.start_succ hk
  obtain ⟨sync, hsync, hlines⟩ := h.lines_eq hk
  have hall : q.Stretch k (p.lines k) ((p.method k).endLabel.toList.map .label ++ sync)
      [.code (Epilogue.instr (p.method k).epilogue)] := ⟨h.size_methods ▸ hk, hlines⟩
  have hlength := congrArg List.length hlines
  simp only [List.length_append, List.length_map, List.length_singleton] at hlength
  set n := (p.method k).endLabel.toList.length with hn
  set position := q.start k + (p.lines k).length with hposition
  -- the end label, if there is one
  have hlabel : Run.Climbs I position (position + n) (position, m) (position + n, m) := by
    apply climbs_nops (Nat.le_add_right _ _) (hI m.stack)
    intro i hi hlt
    cases hl : (p.method k).endLabel with
    | none => simp [hn, hl] at hlt; omega
    | some l =>
      simp only [hl, Option.toList_some, List.map_cons, List.map_nil, List.singleton_append] at hall
      obtain ⟨a, hcode⟩ := hm.code_at hlaid hall.first
      obtain rfl : i = position := by
        simp [hn, hl] at hlt
        omega
      exact ⟨a, hcode⟩
  unfold SyncLines at hsync
  split_ifs at hsync hI' ⊢ with hmarked
  · obtain ⟨self, -, rfl⟩ := hsync
    have hposition' : position + n =
        q.start k + (p.lines k ++ (p.method k).endLabel.toList.map Line.label).length := by
      simp [hn, hposition]
      omega
    have hrequest : Run.call HostCall.requestSerialization (Run.popped m ([self].reverse ++ m.stack)) =
        .ok () (m.affect (.request 1)) := Run.call_requestSerialization rfl
    have hcall := Run.climbs_call hlaid hm hall.right hposition' hrequest hI hI'
    have hlast : q.start (k + 1) - 1 = position + n + ([self].length + 1) := by
      simp [callLines] at hlength ⊢
      omega
    rw [hlast]
    exact (hlabel.mono le_rfl (by omega)).trans (hcall.mono (by omega) (by omega))
  · subst hsync
    have hlast : q.start (k + 1) - 1 = position + n := by
      simp at hlength
      omega
    rw [hlast]
    exact hlabel.mono le_rfl (by omega)

/-- The last line of a method that halts. -/
lemma step_last (hm : m.Holds q) (hk : k < p.methods.size) (hhalt : (p.method k).epilogue = .halt) :
    Run.step (q.start (k + 1) - 1) m = .ok none m := by
  obtain ⟨sync, -, hlines⟩ := h.lines_eq hk
  rw [hhalt, ← List.append_assoc] at hlines
  have hat : q.At k _ (.code .halt) [] (q.start (k + 1) - 1) := ⟨h.size_methods ▸ hk, hlines, by
    rw [h.start_succ hk, hlines]
    simp
    omega⟩
  obtain ⟨a, hcode⟩ := hm.code_at h.ready.laid hat
  exact Run.step_halt hcode

end Ships

end Program

end TriggerCompiler
