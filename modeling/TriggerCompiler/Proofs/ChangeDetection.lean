import Mathlib
import TriggerCompiler.Proofs.GrownRegistry
import TriggerCompiler.Proofs.Stretches

/-!
# Changes of watched variables

A write of a watched variable is followed by lines that compare it with its shadow. If the two differ, the
name of the variable's handler is sent as an event and the shadow takes the value; if not, these lines are
passed with nothing done. The other way round, such an event is sent only by these lines, and a run comes to
them only from the write. Main statement: `writes_are_detected`.
-/

namespace TriggerCompiler

variable {a result id : SlotId}

open Program Lower

namespace Run

variable {m m' : Machine} {rest : List SlotId}

/-! ## The calls of the comparison -/

lemma call_objectEquals {b : SlotId} (h : m.stack = result :: b :: a :: rest) :
    call HostCall.objectEquals m = .ok () (stored (popped m rest) result
      (.boolean (m.heap.getD a .null = m.heap.getD b .null))) := by
  have hcall : call HostCall.objectEquals = relationCall fun a b => a = b := by
    have hint : intCall HostCall.objectEquals = none :=
      Option.not_isSome_iff_eq_none.mp (by decide)
    unfold call
    rw [hint]
    exact (if_neg (by decide)).trans (if_pos rfl)
  have hstack : m.stack = [a, b, result].reverse ++ rest := h
  rw [hcall]
  exact relationCall_apply hstack rfl _

lemma call_booleanNegation (h : m.stack = result :: a :: rest) :
    call HostCall.booleanNegation m = .ok () (stored (popped m rest) result
      (.boolean (m.heap.getD a .null ≠ .boolean true))) := by
  have hcall : call HostCall.booleanNegation = negationCall := by
    have hint : intCall HostCall.booleanNegation = none :=
      Option.not_isSome_iff_eq_none.mp (by decide)
    unfold call
    rw [hint]
    exact if_pos rfl
  have hstack : m.stack = [a, result].reverse ++ rest := h
  rw [hcall]
  exact negationCall_apply hstack rfl

lemma call_sendCustomEvent {self text : SlotId} {name : String} (h : m.stack = text :: self :: rest)
    (htext : m.heap.getD text .null = .string name) :
    call HostCall.sendCustomEvent m = .ok () { popped m rest with
      effects := { m.effects with customEvents := m.effects.customEvents.push name } } := by
  have hint : intCall HostCall.sendCustomEvent = none :=
    Option.not_isSome_iff_eq_none.mp (by decide)
  have hstack : m.stack = [self, text].reverse ++ rest := h
  have hload : loadString text (popped m rest) = .ok name (popped m rest) := by
    simp only [loadString, load_bind]
    rw [show (popped m rest).heap.getD text .null = _ from htext]
    rfl
  unfold call
  rw [hint]
  rw [if_neg (by decide), if_neg (by decide), if_neg (by decide), if_neg (by decide), if_pos rfl]
  exact (bind_of_ok (arguments_apply hstack) _).trans (bind_of_ok hload _)

/-- The comparison of a value type, in a run that does not fail. -/
lemma call_inequality {type : ValueType} (htype : type.isValueType = true) {b : SlotId}
    (h : m.stack = result :: b :: a :: rest) (hok : call (HostCall.inequality type) m = .ok () m') :
    m' = stored (popped m rest) result
      (.boolean (m.heap.getD a .null ≠ m.heap.getD b .null)) := by
  have hstack : m.stack = [a, b, result].reverse ++ rest := h
  -- the types other than integers are compared as they are
  have hrelation : call (HostCall.inequality type) = relationCall (fun a b => a ≠ b) →
      m' = stored (popped m rest) result
        (.boolean (m.heap.getD a .null ≠ m.heap.getD b .null)) := by
    intro hcall
    rw [hcall, relationCall_apply hstack rfl] at hok
    exact (EStateM.Result.ok.inj hok).2.symm
  cases type with
  | int32 =>
    have hcall : call (HostCall.inequality .int32) m = (do
        let x ← loadInt a
        let y ← loadInt b
        store result (.boolean (decide (x.toInt ≠ y.toInt)))) (popped m rest) := by
      change (arguments 3 >>= _) m = _
      exact bind_of_ok (arguments_apply hstack) _
    rw [hcall] at hok
    obtain ⟨x, m₂, hx, hok⟩ := bind_eq_ok.mp hok
    obtain ⟨hvalue, rfl⟩ := loadInt_eq_ok hx
    obtain ⟨y, m₃, hy, hok⟩ := bind_eq_ok.mp hok
    obtain ⟨hvalue', rfl⟩ := loadInt_eq_ok hy
    have hsame : (x.toInt ≠ y.toInt) ↔ (m.heap.getD a .null ≠ m.heap.getD b .null) := by
      rw [show m.heap.getD a .null = .int32 x from hvalue,
        show m.heap.getD b .null = .int32 y from hvalue', Ne, Ne, Value.int32.injEq, Int32.toInt_inj]
    rw [← (EStateM.Result.ok.inj hok).2, ← decide_eq_decide.mpr hsame]
    rfl
  | boolean | uint32 | single => exact hrelation rfl
  | _ => cases htype

/-! ## The lines of the comparison -/

lemma stored_stored (m : Machine) (id : SlotId) (v w : Value) :
    stored (stored m id v) id w = stored m id w := by
  unfold stored
  congr 1
  apply Array.ext
  · simp
  · intro i hi hi'
    simp only [Array.getElem_modify]
    split_ifs
    all_goals rfl

/-- The lines that compare a variable with its shadow, in a run that does not fail. -/
lemma passes_change {q : Program} {k : MethodId} {before after : List Line} {position : Nat}
    (hq : q.Laid) (hm : m.Holds q) {type : ValueType} {shadow changed : SlotId}
    (h : q.Stretch k before (changeLines type id shadow changed) after)
    (hposition : position = q.start k + before.length) (hlt : changed < m.heap.size)
    (hok : ∀ c, Reaches (position, m) c → ∃ next m₁, step c.1 c.2 = .ok next m₁) :
    Passes position (position + (changeLines type id shadow changed).length) (position, m)
      (position + (changeLines type id shadow changed).length,
        stored m changed (.boolean (m.heap.getD id .null ≠ m.heap.getD shadow .null))) := by
  unfold changeLines at h ⊢
  by_cases htype : type.isValueType = true
  · rw [if_pos htype] at h ⊢
    obtain ⟨m', hcall, hpasses⟩ := passes_call_of_ok hq hm h hposition hok
    obtain rfl := call_inequality htype rfl hcall
    exact hpasses
  · rw [if_neg htype] at h ⊢
    have hequals := passes_call hq hm h.left hposition (call_objectEquals rfl)
    set m₁ := stored m changed (.boolean (m.heap.getD id .null = m.heap.getD shadow .null)) with hm₁
    have hposition' : position + 4 = q.start k +
        (before ++ callLines HostCall.objectEquals [id, shadow, changed]).length := by
      simp [callLines, hposition]
      omega
    have hnegation := passes_call (m := m₁) hq ⟨hm.program, hm.code⟩ h.right hposition'
      (call_booleanNegation rfl)
    have hvalue : m₁.heap.getD changed .null =
        .boolean (m.heap.getD id .null = m.heap.getD shadow .null) := by
      rw [hm₁, stored, Machine.getD_modify, if_pos ⟨rfl, hlt⟩]
    have hresult : stored m₁ changed (.boolean (m₁.heap.getD changed .null ≠ .boolean true)) =
        stored m changed (.boolean (m.heap.getD id .null ≠ m.heap.getD shadow .null)) := by
      rw [hvalue, hm₁, stored_stored]
      simp
    have hnegation' : Passes (position + 4) (position + 7) (position + 4, m₁) (position + 7,
        stored m₁ changed (.boolean (m₁.heap.getD changed .null ≠ .boolean true))) := hnegation
    rw [hresult] at hnegation'
    exact (hequals.mono le_rfl (by simp [callLines])).trans
      (hnegation'.mono (by omega) (by simp [callLines]))

end Run

namespace Watch

variable {R : Rules} {f q : Program} {k : MethodId} {before after : List Line} {position : Nat}
  {m : Machine} {w : Watch}

/-- The slots of a watch have different uses. -/
lemma Fits.slots_ne (h : Ready R f q) (hw : w.Fits (f.terms R.free k (f.Label k))) :
    w.changed ≠ w.id ∧ w.changed ≠ w.shadow ∧ w.changed ≠ w.text ∧ w.shadow ≠ w.id := by
  have hid : f.Clean w.id := hw.clean _ (by simp)
  have hkind := hw.watched.1.kind
  have htemporary := hw.watched.1.changed
  have hreserved := (h.sound.shadow w.id hid.lt w.shadow hw.watched.1.shadow).2.1
  have hconstant := hw.watched.1.text.kind
  refine ⟨fun hsame => ?_, fun hsame => ?_, fun hsame => ?_, fun hsame => ?_⟩
  · rw [hsame, hkind] at htemporary
    cases htemporary
  · rw [hsame, hreserved] at htemporary
    cases htemporary
  · rw [hsame, hconstant] at htemporary
    cases htemporary
  · rw [hsame, hkind] at hreserved
    cases hreserved

/-- The text of an event is the name of the variable's handler, as long as nothing writes constants. -/
lemma Fits.text_eq (h : Ready R f q) (hstrict : R.strict) (hm : m.Intact R f q)
    (hw : w.Fits (f.terms R.free k (f.Label k))) :
    m.heap.getD w.text .null = .string (handlerName (f.slots.get w.id).name) := by
  have htext := hw.watched.1.text
  have hlt : w.text < q.slots.size := h.slots ▸ htext.lt
  rw [hm.fixed hstrict w.text hlt fun hno => hno.kind htext.kind,
    h.slot_of_ne hlt (by simp [htext.initial]), htext.initial]
  rfl

lemma check_eq (w : Watch) : ∃ rest, w.check = .code (.push w.id) :: rest := by
  unfold check changeLines
  split_ifs <;> exact ⟨_, rfl⟩

lemma label_not_mem_check (w : Watch) (l : InstrId) : .label l ∉ w.check := by
  unfold check changeLines
  split_ifs <;> simp [callLines, branchLines, pushLines]

lemma length_lines (w : Watch) :
    w.lines.length = (changeLines w.type w.id w.shadow w.changed).length + 9 := by
  simp [lines, branchLines, callLines, copyLines]

/-- The machine finds the label at the end of the lines, and it goes on from there. -/
lemma passes_skip (hq : q.Laid) (hm : m.Holds q) (hstretch : q.Stretch k before w.lines after)
    (hposition : position + 1 = q.start k + before.length + w.lines.length) :
    Run.locateLabel w.skip m = .ok position m ∧
      Run.Passes position (position + 1) (position, m) (position + 1, m) := by
  have hsplit : w.lines = (w.check ++ [.code (.host HostCall.sendCustomEvent)] ++
      pushLines [w.id, w.shadow]) ++ [.code .copy] ++ [.label w.skip] := by
    simp [lines_eq, keep, copyLines, pushLines]
  have hat : q.At k (before ++ (w.check ++ [.code (.host HostCall.sendCustomEvent)] ++
      pushLines [w.id, w.shadow]) ++ [.code .copy]) (.label w.skip) after position := by
    refine ⟨hstretch.lt, by simpa [hsplit] using hstretch.lines, ?_⟩
    have hlength := congrArg List.length hsplit
    simp only [List.length_append, List.length_singleton] at hlength ⊢
    omega
  obtain ⟨id, hid, hline⟩ := hat.placed
  obtain ⟨-, rfl⟩ := line_eq_label.mp hline
  obtain ⟨a, hcode⟩ := hm.code_at hq hat
  constructor
  · simp only [Run.locateLabel, Run.get_bind, hm.program, hq _ _ hid]
    exact hm.locate_behind hq hat (by simp)
  · exact Run.Passes.single (Run.step_nop hcode) le_rfl (by omega)

/-- A run that passes lines which check a variable. The event is sent once if the variable does not have
the value of its shadow, and otherwise not at all. Then the shadow has the value of the variable. -/
structure Detects (w : Watch) (event : String) (y z : Nat × Machine) : Prop where
  passes : Run.Passes y.1 (y.1 + w.lines.length) y z
  position : z.1 = y.1 + w.lines.length
  events : z.2.effects.customEvents = y.2.effects.customEvents ++
    if y.2.heap.getD w.id .null ≠ y.2.heap.getD w.shadow .null then #[event] else #[]
  value : z.2.heap.getD w.id .null = y.2.heap.getD w.id .null
  shadow : z.2.heap.getD w.shadow .null = y.2.heap.getD w.id .null

/-- In a run that does not fail, the lines check the variable. -/
lemma Fits.detects (h : Ready R f q) (hstrict : R.strict) (hm : m.Intact R f q)
    (hw : w.Fits (f.terms R.free k (f.Label k))) (hstretch : q.Stretch k before w.lines after)
    (hposition : position = q.start k + before.length)
    (hok : ∀ c, Run.Reaches (position, m) c → ∃ next m₁, Run.step c.1 c.2 = .ok next m₁) :
    ∃ z, w.Detects (handlerName (f.slots.get w.id).name) (position, m) z := by
  obtain ⟨hid, hshadow, htext, hne⟩ := hw.slots_ne h
  have hlt : ∀ x ∈ [w.shadow, w.changed], x < m.heap.size := by
    intro x hx
    have hclean : f.Clean x := hw.clean x (by simp at hx ⊢; tauto)
    rw [hm.size, h.slots]
    exact hclean.lt
  have hlength := w.length_lines
  set n := (changeLines w.type w.id w.shadow w.changed).length with hn
  have hparts := hstretch
  unfold lines at hparts
  -- the comparison
  have hchange := Run.passes_change h.laid hm.holds hparts.left.left.left.left hposition
    (hlt _ (by simp)) hok
  rw [← hn] at hchange
  set m₁ := Run.stored m w.changed (.boolean (m.heap.getD w.id .null ≠ m.heap.getD w.shadow .null))
    with hm₁
  have hholds : m₁.Holds q := ⟨hm.holds.program, hm.holds.code⟩
  have hchanged : m₁.heap.getD w.changed .null =
      .boolean (m.heap.getD w.id .null ≠ m.heap.getD w.shadow .null) := by
    rw [hm₁, Run.stored, Machine.getD_modify, if_pos ⟨rfl, hlt _ (by simp)⟩]
  have hother : ∀ x, w.changed ≠ x → m₁.heap.getD x .null = m.heap.getD x .null := by
    intro x hx
    rw [hm₁, Run.stored, Machine.getD_modify, if_neg fun hsame => hx hsame.1]
  have hposition₁ : position + n = q.start k + (before ++
      changeLines w.type w.id w.shadow w.changed).length := by
    rw [List.length_append]
    omega
  have hend : position + n + 8 + 1 = q.start k + before.length + w.lines.length := by omega
  have hbranch : ∀ i, _ → Run.Passes (position + n) (position + n + 2) (position + n, m₁) (i, m₁) :=
    fun i => Run.passes_branch h.laid hholds hparts.left.left.left.right hposition₁
  by_cases hsame : m.heap.getD w.id .null = m.heap.getD w.shadow .null
  · -- nothing has changed
    obtain ⟨hlocate, hskip⟩ := passes_skip h.laid hholds hstretch hend
    refine ⟨(position + w.lines.length, m₁), ?_, rfl, ?_, hother _ hid,
      (hother _ hshadow).trans hsame.symm⟩
    · have hjump := hbranch _ (.inr ⟨by rw [hchanged, decide_eq_false (not_not.mpr hsame)], hlocate⟩)
      rw [hlength]
      apply (hchange.mono le_rfl (by omega)).trans
      apply (hjump.mono (by omega) (by omega)).trans
      exact hskip.mono (by omega) (by omega)
    · rw [if_neg (not_not.mpr hsame), Array.append_empty]
      rfl
  · -- the event is sent, and the shadow takes the value
    have hjump := hbranch _ (.inl ⟨by rw [hchanged, decide_eq_true hsame], rfl⟩)
    have hposition₂ : position + n + 2 = q.start k + (before ++
        (changeLines w.type w.id w.shadow w.changed ++ branchLines w.changed w.skip)).length := by
      simp only [List.length_append, ← hn, branchLines, List.length_cons, List.length_nil]
      omega
    have hsend := Run.passes_call h.laid hholds hparts.left.left.right hposition₂
      (Run.call_sendCustomEvent rfl ((hother _ htext).trans (hw.text_eq h hstrict hm)))
    set m₂ : Machine := { m₁ with effects := { m₁.effects with
      customEvents := m₁.effects.customEvents.push (handlerName (f.slots.get w.id).name) } } with hm₂
    have hholds₂ : m₂.Holds q := ⟨hholds.program, hholds.code⟩
    have hposition₃ : position + n + 5 = q.start k + (before ++
        (changeLines w.type w.id w.shadow w.changed ++ branchLines w.changed w.skip ++
          callLines HostCall.sendCustomEvent [w.self, w.text])).length := by
      simp only [List.length_append, ← hn, branchLines, callLines, List.length_cons, List.length_nil,
        List.length_map]
      omega
    have hcopy := Run.passes_copy h.laid hholds₂ hparts.left.right hposition₃
    set m₃ := Run.stored m₂ w.shadow (m₂.heap.getD w.id .null) with hm₃
    have hskip := (passes_skip (m := m₃) h.laid ⟨hholds.program, hholds.code⟩ hstretch hend).2
    have hvalue : m₂.heap.getD w.id .null = m.heap.getD w.id .null := hother _ hid
    refine ⟨(position + w.lines.length, m₃), ?_, rfl, ?_, ?_, ?_⟩
    · rw [hlength]
      apply (hchange.mono le_rfl (by omega)).trans
      apply (hjump.mono (by omega) (by omega)).trans
      apply (hsend.mono (by omega) (by simp; omega)).trans
      apply (hcopy.mono (by omega) (by omega)).trans
      exact hskip.mono (by omega) (by omega)
    · rw [if_pos hsame, ← Array.push_eq_append]
      rfl
    · change m₃.heap.getD w.id .null = _
      rw [hm₃, Run.stored, Machine.getD_modify, if_neg fun hno => hne hno.1]
      exact hvalue
    · have hbound : w.shadow < m₂.heap.size := by
        rw [hm₂, hm₁, Run.stored, Array.size_modify]
        exact hlt _ (by simp)
      change m₃.heap.getD w.shadow .null = _
      rw [hm₃, Run.stored, Machine.getD_modify, if_pos ⟨rfl, hbound⟩]
      exact hvalue

end Watch

/-! ## Writes -/

/-- The machine is about to write the slot. -/
def Run.WritesTo (id : SlotId) (x : Nat × Machine) : Prop :=
  x.2.stack.head? = some id ∧ ∃ a i, x.2.code[x.1]? = some (a, i) ∧ i.Writes

/-- The lines that check the variable stand right behind the position. -/
def Program.Follows (q : Program) (w : Watch) (position : Nat) : Prop :=
  ∃ k before i after, q.At k before (.code i) (w.lines ++ after) position

namespace Moves

variable {R : Rules} {f q : Program} {k : MethodId} {before after : List Line} {x : Line}
  {position : Nat} {m m' : Machine} {base : List SlotId} {next : Option Nat}
  (hmoves : Moves R f q k before x after position m base next m')

include hmoves

lemma next_of_writes (hwrites : x.instr.Writes) : next = some (position + 1) := by
  cases hmoves.goes with
  | on after_eq falls => rfl
  | @label l l' before' after' i target place =>
    match x, hwrites, target with
    | .code .copy, _, target => cases target
    | .code (.host _), _, target => cases target
  | enter line found =>
    rw [line] at hwrites
    exact hwrites.elim
  | back line value number place =>
    rw [line] at hwrites
    exact hwrites.elim
  | halt line =>
    rw [line] at hwrites
    exact hwrites.elim

section

variable (hm : m.Holds q) (hq : q.Laid) (hat : q.At k before x after position)
  (hstack : m.stack = held before ++ base)
include hm hq hat hstack

lemma writesTo (hchanges : m'.heap.getD id .null ≠ m.heap.getD id .null) :
    Run.WritesTo id (position, m) := by
  by_cases hwrites : x.instr.Writes
  · obtain ⟨target, value, htarget, hheap, -⟩ := hmoves.writes hwrites
    obtain ⟨a, hcode⟩ := hm.code_at hq hat
    obtain rfl : target = id := by
      by_contra hne
      apply hchanges
      rw [hheap, Machine.getD_modify, if_neg fun hsame => hne hsame.1]
    refine ⟨?_, a, _, hcode, hwrites⟩
    rw [hstack, List.head?_append, htarget]
    rfl
  · exact absurd (by rw [hmoves.keeps hwrites]) hchanges

/-- A machine that is about to write a slot makes one of the writes that its line can make. -/
lemma stores_of_writesTo (h : Run.WritesTo id (position, m)) :
    x.instr.Writes ∧ ∃ value, m'.heap = m.heap.modify id (fun _ => value) ∧
      Stores R f q k after id value := by
  obtain ⟨htop, a, i, hcode, hi⟩ := h
  obtain ⟨a', hcode'⟩ := hm.code_at hq hat
  obtain rfl : i = x.instr := (Prod.mk.inj (Option.some.inj (hcode.symm.trans hcode'))).2
  obtain ⟨target, value, htarget, hheap, hstores⟩ := hmoves.writes hi
  obtain rfl : target = id := by
    rw [hstack, List.head?_append, htarget] at htop
    exact Option.some.inj htop
  exact ⟨hi, value, hheap, hstores⟩

end

end Moves

namespace Program.OnWay

variable {R : Rules} {f q : Program} {base : List SlotId} {x y : Nat × Machine} {shadow : SlotId}

/-- A write of a watched variable is followed by the lines that check it. -/
lemma detects (hx : OnWay R f q base x) (h : Ready R f q) (hR : R.Takes) (hsize : q.size < 2 ^ 32)
    (hstrict : R.strict) (hkind : (f.slots.get id).kind = .user)
    (hnotifies : (f.slots.get id).notifies = true)
    (hshadow : (f.slots.get id).shadow = some shadow) (hwrites : Run.WritesTo id x)
    (hnext : Run.Next x y)
    (hok : ∀ c, Run.Reaches y c → ∃ next m₁, Run.step c.1 c.2 = .ok next m₁) :
    y.2.effects.customEvents = x.2.effects.customEvents ∧
      y.2.heap.getD shadow .null = x.2.heap.getD shadow .null ∧
      ∃ w z, w.id = id ∧ w.shadow = shadow ∧ q.Follows w x.1 ∧ y.1 = x.1 + 1 ∧
        w.Detects (handlerName (f.slots.get id).name) y z := by
  obtain ⟨k, before, l, after, hat, hstack, hmoves⟩ := hx.moves h hR hnext
  obtain ⟨hi, value, hheap, hstores⟩ :=
    hmoves.stores_of_writesTo hx.intact.holds h.laid hat hstack hwrites
  have hy : y.1 = x.1 + 1 := Option.some.inj (hmoves.next_of_writes hi)
  cases hstores with
  | plain clean isPlain sends =>
    rcases (isPlain hstrict).quiet with hno | hno
    · exact absurd (hnotifies.symm.trans hno) (by simp)
    · exact absurd (hshadow.symm.trans hno) (by simp)
  | @address name slot back rest n callee after_eq number =>
    obtain ⟨method, hmethod, -, hepilogue⟩ := callee
    have hreserved := (h.tidy.returns _ ⟨method, hmethod, hepilogue⟩).kind
    exact absurd (hkind.symm.trans hreserved) (by simp)
  | @watched w rest value fits after_eq =>
    obtain rfl : w.shadow = shadow :=
      Option.some.inj (fits.watched.1.shadow.symm.trans hshadow)
    obtain ⟨-, -, -, hne⟩ := fits.slots_ne h
    subst after_eq
    have hstretch : q.Stretch k (before ++ [l]) w.lines rest := ⟨hat.lt, by simp [hat.lines]⟩
    have hposition : y.1 = q.start k + (before ++ [l]).length := by
      rw [hy, hat.position, List.length_append]
      rfl
    obtain ⟨z, hz⟩ := fits.detects h hstrict (hx.next h hR hsize hnext).intact hstretch hposition hok
    refine ⟨hmoves.events ?_, ?_, w, z, rfl, rfl, ?_, hy, hz⟩
    · rintro rfl
      obtain ⟨count, hcount⟩ := hi
      cases Run.takes_sendCustomEvent.symm.trans hcount
    · rw [hheap, Machine.getD_modify, if_neg fun hsame => hne hsame.1.symm]
    · match l, hi, hat with
      | .code i, _, hat => exact ⟨k, before, i, rest, hat⟩

/-- An event is sent only by the lines that check a watched variable, after a write of it. -/
lemma told (h : Ready R f q) (hR : R.Takes) (hsize : q.size < 2 ^ 32) (hstrict : R.strict)
    {c₀ : Nat × Machine} {k₀ : MethodId} {x₀ : Line} {after₀ : List Line}
    (hc₀ : OnWay R f q base c₀) (hstart : q.At k₀ [] x₀ after₀ c₀.1) (hx : Run.Reaches c₀ x)
    (hnext : Run.Next x y) (hevents : y.2.effects.customEvents ≠ x.2.effects.customEvents) :
    ∃ w, f.Watched w ∧ w.id < f.slots.size ∧
      y.2.effects.customEvents =
        x.2.effects.customEvents.push (handlerName (f.slots.get w.id).name) ∧
      ∃ x' y', Run.Reaches c₀ x' ∧ Run.WritesTo w.id x' ∧ Run.Next x' y' ∧ q.Follows w x'.1 ∧
        y'.1 = x'.1 + 1 ∧ Run.Passes y'.1 (y'.1 + w.lines.length) y' y := by
  have honway := hc₀.reaches h hR hsize hx
  obtain ⟨k, before, l, after, hat, hstack, hmoves⟩ := honway.moves h hR hnext
  obtain rfl : l = .code (.host HostCall.sendCustomEvent) := by
    by_contra hne
    exact hevents (hmoves.events hne)
  rcases h.proper hat with ⟨flags, hcalls, -⟩ | ⟨-, w, hw, hheld, ⟨code, hwrote, rfl⟩, rest, rfl⟩
  · exact absurd rfl (hR _ _ hcalls.1).1
  have hclean : f.Clean w.id := hw.clean _ (by simp)
  refine ⟨w, hw.watched.1, hclean.lt, ?_, ?_⟩
  · -- the text of the event is the name of the handler
    obtain ⟨a, hcode⟩ := honway.intact.holds.code_at h.laid hat
    rw [hheld] at hstack
    have hcall := Run.call_sendCustomEvent hstack (hw.text_eq h hstrict honway.intact)
    have hstep := (Run.step_host hcode).trans (bind_of_ok hcall _)
    rw [← (EStateM.Result.ok.inj (hstep.symm.trans hnext)).2]
  · -- the run has gone through the check, and before that it has written the variable
    obtain ⟨y', hy', hposition, hpasses⟩ := hc₀.through h hR hsize hstart w.check
      w.label_not_mem_check hx hat (by simp)
    obtain ⟨before', i, rfl, htop, hi⟩ := hwrote
    obtain ⟨check, hcheck⟩ := w.check_eq
    have haty' : q.At k (before' ++ [.code i]) (.code (.push w.id))
        (check ++ .code (.host HostCall.sendCustomEvent) :: (w.keep ++ rest)) y'.1 :=
      ⟨hat.lt, by rw [hat.lines, hcheck]; simp, hposition⟩
    obtain ⟨x', hx', hnext', hatx'⟩ := hc₀.prev h hR hsize hstart hy' haty' (by simp)
    have hlines : (.code (.push w.id) :: (check ++ .code (.host HostCall.sendCustomEvent) ::
        (w.keep ++ rest))) = w.lines ++ rest := by
      rw [w.lines_eq, hcheck]
      simp
    rw [hlines] at hatx'
    have hbehind : y'.1 = x'.1 + 1 := by
      rw [hposition, hatx'.position, List.length_append]
      rfl
    have honway' := hc₀.reaches h hR hsize hx'
    obtain ⟨a, hcode⟩ := honway'.intact.holds.code_at h.laid hatx'
    have hwrites : i.Writes := by
      rcases hi with rfl | ⟨signature, flags, rfl, hcalls, -, hflag⟩
      · trivial
      · rcases (hR signature flags hcalls).2 with hnone | htakes
        · have hfails := (Run.step_host hcode).trans (bind_of_error (Run.call_of_takes_none hnone) _)
          cases hfails.symm.trans hnext'
        · rw [hflag, decide_eq_true rfl] at htakes
          exact ⟨_, htakes⟩
    refine ⟨x', y', hx', ⟨?_, a, i, hcode, hwrites⟩, hnext', ⟨k, before', i, rest, hatx'⟩, hbehind, ?_⟩
    · obtain ⟨k', before'', l, after', hat', hstack'⟩ := honway'.stands
      obtain ⟨-, rfl, -⟩ := hatx'.unique hat'
      rw [hstack', List.head?_append, htop]
      rfl
    · have hlength : x.1 + 1 ≤ y'.1 + w.lines.length := by
        rw [hat.position, hposition, w.lines_eq]
        simp only [List.length_append, List.length_cons]
        omega
      have hle : y'.1 ≤ x.1 := by
        rw [hat.position, hposition]
        simp only [List.length_append]
        omega
      apply (hpasses.mono le_rfl (by omega)).trans
      exact Run.Passes.single hnext hle (by omega)

end Program.OnWay

/-! ## The variables of a document -/

namespace Program

variable {R : Rules} {f q : Program} {decls : List VariableDecl} {v : VariableDecl}

/-- Two watched slots with one name are the same. -/
lemma Declares.eq_of_name (h : f.Declares decls) {id' : SlotId} (hid : id < f.slots.size)
    (hid' : id' < f.slots.size) (hshadow : (f.slots.get id).shadow ≠ none)
    (hshadow' : (f.slots.get id').shadow ≠ none)
    (hname : (f.slots.get id).name = (f.slots.get id').name) : id = id' := by
  obtain ⟨table, hdeclares, henlarges⟩ := h
  have hlt : ∀ id < f.slots.size, (f.slots.get id).shadow ≠ none → id < table.size := by
    intro id hid hshadow
    by_contra hge
    exact hshadow (henlarges.shadow id (Nat.le_of_not_lt hge) hid)
  apply hdeclares.eq_of_name (hlt id hid hshadow) (hlt id' hid' hshadow')
  rwa [henlarges.slots.get_eq (hlt id hid hshadow), henlarges.slots.get_eq (hlt id' hid' hshadow')]
    at hname

/-- The linked program finds a variable of the document by its name. -/
lemma Declares.findName? (hf : f.Declares decls) (h : Ready R f q) (hv : v ∈ decls) :
    ∃ id, q.slots.findName? v.name = some id ∧ f.slots.IsVariable v id := by
  obtain ⟨table, hdeclares, henlarges⟩ := hf
  obtain ⟨id, -, hvariable⟩ := hdeclares.isVariable v hv
  have hnames : ∀ j < table.size, j < q.slots.size ∧ (q.slots.get j).name = (table.get j).name := by
    intro j hj
    have hlt : j < q.slots.size := h.slots ▸ hj.trans_le henlarges.slots.size_le
    obtain ⟨initial, hslot⟩ := h.slot_eq hlt
    rw [hslot, henlarges.slots.get_eq hj]
    exact ⟨hlt, rfl⟩
  have hget : ∀ j (hj : j < q.slots.slots.size), q.slots.slots[j].name = (q.slots.get j).name := by
    intro j hj
    simp [SlotTable.get, hj]
  obtain ⟨shadow, hslot, -⟩ := hvariable.get
  obtain ⟨hlt, hname⟩ := hnames id hvariable.lt
  refine ⟨id, Array.findIdx?_eq_some_iff_getElem.mpr ⟨hlt, ?_, fun j hj => ?_⟩,
    hvariable.within henlarges.slots⟩
  · refine decide_eq_true ((hget id hlt).trans (hname.trans ?_))
    rw [hslot]
    rfl
  · have hj' : j < table.size := hj.trans hvariable.lt
    obtain ⟨hlt', hname'⟩ := hnames j hj'
    intro hsame
    have hsame' : (q.slots.get j).name = v.name := (hget j hlt').symm.trans (of_decide_eq_true hsame)
    refine hj.ne (hdeclares.eq_of_name hj' hvariable.lt ?_)
    rw [← hname', hsame', hslot]
    rfl

end Program

/-- A run of a method detects the changes of a variable. Each write is followed by lines that check
the variable, and these lines alone send the event, once for each write of a value that the shadow does
not have. -/
structure Run.DetectsChanges (q : Program) (name : String) (m : Machine) (event : String)
    (id shadow : SlotId) : Prop where
  written : ∀ x y, Visits name m x → Next x y →
    y.2.heap.getD id .null ≠ x.2.heap.getD id .null → WritesTo id x
  detected : ∀ x y, Visits name m x → Next x y → WritesTo id x →
    y.2.effects.customEvents = x.2.effects.customEvents ∧
      y.2.heap.getD shadow .null = x.2.heap.getD shadow .null ∧
      ∃ w z, w.id = id ∧ w.shadow = shadow ∧ q.Follows w x.1 ∧ y.1 = x.1 + 1 ∧ w.Detects event y z
  sent : ∀ x y, Visits name m x → Next x y →
    y.2.effects.customEvents.count event ≠ x.2.effects.customEvents.count event →
      ∃ w x' y', w.id = id ∧ Visits name m x' ∧ WritesTo id x' ∧ Next x' y' ∧ q.Follows w x'.1 ∧
        y'.1 = x'.1 + 1 ∧ Passes y'.1 (y'.1 + w.lines.length) y' y

/-- In a compiled trigger, a run of a method that does not fail detects the changes of each variable
that has a handler, whichever action writes it. The groups that it uses may read or write each of their
parameters, but not both. -/
theorem writes_are_detected {r : Registry}
    (hr : r.Grown fun g => ∀ a ∈ g.actions, ∀ p ∈ a.parameters, p.direction ≠ .both)
    (options : CompileOptions) {t : Trigger} (ht : t.NoAddress) {c : CompiledTrigger}
    (h : compileTrigger ⟨r, options⟩ t = .ok c) (hsize : c.program.size < 2 ^ 32) {m m' : Machine}
    (hm : m.Session c.program) {name : String} (hrun : Run.method name m = .ok () m')
    {v : VariableDecl} (hv : v ∈ t.declarations) (hnotifies : v.notifies = true) :
    ∃ id shadow, c.program.slots.findName? v.name = some id ∧
      (c.program.slots.get id).shadow = some shadow ∧
      Run.DetectsChanges c.program name m (handlerName v.name) id shadow := by
  obtain ⟨f, hready, hdeclares⟩ := compileTrigger_ready hr (fun _ : True => fun g hg => hg) ht h
  obtain ⟨id, hfound, hvariable⟩ := hdeclares.findName? hready hv
  obtain ⟨hintact, -⟩ := hm.intact hready Rules.builtin_takes hsize
  obtain ⟨none | shadow, hslot, hsome, -⟩ := hvariable.get
  · simp [hnotifies] at hsome
  have hshadow : (f.slots.get id).shadow = some shadow := by rw [hslot]
  have hname : (f.slots.get id).name = v.name := by rw [hslot]; rfl
  have honway : ∀ {x}, Run.Visits name m x → OnWay (Rules.builtin True) f c.program m.stack x := by
    intro x hx
    obtain ⟨k, hk⟩ := hintact.findMethod?_of_visits hx
    exact (OnWay.start hintact hready hk).reaches hready Rules.builtin_takes hsize
      ((hintact.visits_iff hready hk).mp hx)
  refine ⟨id, shadow, hfound, ?_, ?_, ?_, ?_⟩
  · obtain ⟨initial, hsame⟩ := hready.slot_eq (hready.slots.symm ▸ hvariable.lt)
    rw [hsame]
    exact hshadow
  · intro x y hx hnext hchanges
    obtain ⟨k, before, l, after, hat, hstack, hmoves⟩ :=
      (honway hx).moves hready Rules.builtin_takes hnext
    exact hmoves.writesTo (honway hx).intact.holds hready.laid hat hstack hchanges
  · intro x y hx hnext hwrites
    rw [← hname]
    apply (honway hx).detects hready Rules.builtin_takes hsize trivial _ _ hshadow hwrites hnext
    · intro d hd
      exact Run.step_of_visits hrun (hx.trans (.head hnext hd))
    · rw [hslot]
      rfl
    · rw [hslot]
      exact hnotifies
  · intro x y hx hnext hcount
    obtain ⟨k, hk⟩ := hintact.findMethod?_of_visits hx
    obtain ⟨-, x₀, after₀, hstart⟩ :=
      hintact.holds.locate_start hready.laid hready.ended (lt_of_findMethod? hk)
    obtain ⟨w, hw, hlt, hevents, x', y', hx', hwrites, hnext', hfollows, hbehind, hpasses⟩ :=
      OnWay.told hready Rules.builtin_takes hsize trivial (OnWay.start hintact hready hk) hstart
        ((hintact.visits_iff hready hk).mp hx) hnext (fun hsame => hcount (by rw [hsame]))
    -- the event is that of the variable, so it is the variable that was written
    obtain rfl : w.id = id := by
      apply hdeclares.eq_of_name hlt hvariable.lt
      · simp [hw.shadow]
      · simp [hshadow]
      · by_contra hne
        apply hcount
        rw [hevents, Array.count_push_of_ne]
        simpa [handlerName, hname] using hne
    exact ⟨w, x', y', rfl, (hintact.visits_iff hready hk).mpr hx', hwrites, hnext', hfollows,
      hbehind, hpasses⟩

/-- Of four writes, the two that change the variable are told. -/
theorem writes_are_detected_twice :
    ∃ c m' id shadow, compileTrigger ⟨Registry.builtin, {}⟩
        { declarations := [{ id := "x", name := "x", type := .int32, initial := some (.int32 0),
                             notifies := true }]
          events := [{ name := "start", entry := { id := "Start" },
                       actions := [
                         { id := "SetVariable", inputs := [.constant (.int32 0), .var (.user "x")] },
                         { id := "SetVariable", inputs := [.constant (.int32 5), .var (.user "x")] },
                         { id := "SetVariable", inputs := [.constant (.int32 5), .var (.user "x")] },
                         { id := "IntAdd", inputs := [.var (.user "x"), .constant (.int32 1),
                           .var (.user "x")] }] }] } = .ok c ∧
      Run.method "_start" (Machine.ofProgram c.program) = .ok () m' ∧
      m'.effects.customEvents = #["_onVarChange_x", "_onVarChange_x"] ∧
      Run.DetectsChanges c.program "_start" (Machine.ofProgram c.program) "_onVarChange_x" id shadow := by
  set t : Trigger := { declarations := [_], events := [_] } with ht
  have hruns : ((compileTrigger ⟨Registry.builtin, {}⟩ t).toOption.any fun c =>
      (outcome? (Run.method "_start" (Machine.ofProgram c.program))).any fun r =>
        decide (c.program.size < 2 ^ 32 ∧
          r.2.effects.customEvents = #["_onVarChange_x", "_onVarChange_x"])) = true := by
    decide +kernel
  obtain ⟨c, hc, hruns⟩ := exists_ok_of_any hruns
  obtain ⟨⟨⟩, m', hrun, hruns⟩ := exists_outcome_of_any hruns
  obtain ⟨hsize, hevents⟩ := of_decide_eq_true hruns
  obtain ⟨id, shadow, -, -, hdetects⟩ := writes_are_detected .builtin {} (t := t)
    ⟨by simp [ht], by simp [ht, Action.NoAddress, Binding.holdsAddress]⟩ hc hsize .load hrun
    List.mem_cons_self rfl
  exact ⟨c, m', id, shadow, hc, hrun, hevents, hdetects⟩

end TriggerCompiler
