import Mathlib
import TriggerCompiler.Proofs.Execution
import TriggerCompiler.Proofs.Linked

/-!
# Runs of linked code

What a machine does at a line of orderly code, and what it keeps. The lines in front of the machine's
position say what is on its stack, above what was there before. What code may not write is as linking
left it, and a slot that a method returns through holds the address of a label right behind a call.
Main statements: `Program.Ready.step_moves` says what a step can do, and `Program.Ready.reaches` that
all of this holds wherever a run comes to.
-/

namespace TriggerCompiler

variable {l : InstrId} {slot : SlotId} {k : MethodId}

open Program

/-- The machine knows the calls of the rules, or it knows that it does not know them. A call writes its
last argument if the rules say so, and none of them tells of a change. -/
def Rules.Takes (R : Rules) : Prop :=
  ∀ signature flags, R.calls signature flags → signature ≠ HostCall.sendCustomEvent ∧
    (Run.takes signature = none ∨
      Run.takes signature = some (flags.length, decide (flags.getLast? = some true)))

namespace Program

variable {q : Program} {position : Nat}

lemma offset_le_size (q : Program) (j : Nat) : q.offset j ≤ q.size := by
  rw [size_eq_offset]
  by_cases hj : j ≤ q.placed.length
  · exact offset_le hj
  · unfold offset
    rw [List.take_of_length_le (by omega), List.take_length]

/-- The number is the address of a label right behind a call. -/
def Behind (q : Program) (n : UInt32) : Prop :=
  ∃ k before name back after position,
    q.At k (before ++ [.code (.jumpMethod name)]) (.label back) after position ∧
      n.toNat = q.offset position ∧ n ≠ haltAddress

end Program

/-- The machine runs the program, and it holds what code may not write as linking left it. -/
structure Machine.Intact (R : Rules) (f q : Program) (m : Machine) : Prop where
  holds : m.Holds q
  size : m.heap.size = q.slots.size
  address : ∀ id l, f.slots.IsConstant .uint32 (.address (.instruction l)) id →
    ∃ n, q.address? l = some n ∧ m.heap.getD id .null = .uint32 (UInt32.ofNat n)
  returns : ∀ slot, f.Returns slot → ∀ n, m.heap.getD slot .null = .uint32 n → q.Behind n
  fixed : R.strict → ∀ id < q.slots.size, ¬ f.Writable id →
    m.heap.getD id .null = (q.slots.get id).initial.getD .null

namespace Machine.Intact

variable {R : Rules} {f q : Program} {m m' : Machine} {target : SlotId} {value : Value}

section

variable (h : m.Intact R f q) (holds : m'.Holds q)
include h holds

/-- A write of a slot that code may use and write. -/
lemma write (heap : m'.heap = m.heap.modify target fun _ => value) (hclean : f.Clean target)
    (hwritable : R.strict → f.Writable target) : m'.Intact R f q where
  holds := holds
  size := by
    rw [heap, Array.size_modify]
    exact h.size
  address id l hid := by
    have hne : target ≠ id := by
      rintro rfl
      exact hclean.address _ hid.initial
    rw [heap, Machine.getD_modify, if_neg fun hsame => hne hsame.1]
    exact h.address id l hid
  returns slot hslot := by
    have hne : target ≠ slot := by
      rintro rfl
      exact hclean.returns hslot
    rw [heap, Machine.getD_modify, if_neg fun hsame => hne hsame.1]
    exact h.returns slot hslot
  fixed hstrict id hid hno := by
    have hne : target ≠ id := by
      rintro rfl
      exact hno (hwritable hstrict)
    rw [heap, Machine.getD_modify, if_neg fun hsame => hne hsame.1]
    exact h.fixed hstrict id hid hno

/-- A write of the slot that a method returns through. -/
lemma enter {n : UInt32} (heap : m'.heap = m.heap.modify target fun _ => .uint32 n)
    (hreturns : f.Returns target) (htidy : f.Tidy) (hn : q.Behind n) : m'.Intact R f q where
  holds := holds
  size := by
    rw [heap, Array.size_modify]
    exact h.size
  address id l hid := by
    have hne : target ≠ id := by
      rintro rfl
      have hnone := (htidy.returns _ hreturns).initial
      rw [hid.initial] at hnone
      cases hnone
    rw [heap, Machine.getD_modify, if_neg fun hsame => hne hsame.1]
    exact h.address id l hid
  returns slot hslot n' hn' := by
    rw [heap, Machine.getD_modify] at hn'
    split_ifs at hn' with hsame
    · obtain rfl := Value.uint32.inj hn'
      exact hn
    · exact h.returns slot hslot n' hn'
  fixed hstrict id hid hno := by
    have hne : target ≠ id := by
      rintro rfl
      obtain ⟨-, hkind, -, hthis, -⟩ := htidy.returns _ hreturns
      exact hno ⟨by simp [hkind], hthis⟩
    rw [heap, Machine.getD_modify, if_neg fun hsame => hne hsame.1]
    exact h.fixed hstrict id hid hno

/-- What does not change the heap. -/
lemma same (heap : m'.heap = m.heap) : m'.Intact R f q :=
  ⟨holds, heap ▸ h.size, heap ▸ h.address, heap ▸ h.returns, heap ▸ h.fixed⟩

end

end Machine.Intact

/-! ## What a step can do -/

/-- The instruction writes the slot on top of the stack. -/
def Instr.Writes : Instr → Prop
  | .copy => True
  | .host signature => ∃ count, Run.takes signature = some (count, true)
  | _ => False

/-- How many times the instruction asks that synchronized variables be sent. -/
def Instr.requests : Instr → Nat
  | .host signature => Run.requests signature
  | _ => 0

/-- The instruction goes on to the next one, if it does not jump. -/
def Instr.GoesOn : Instr → Prop
  | .jump _ | .halt | .jumpIndirect _ | .jumpMethod _ => False
  | _ => True

lemma Instr.isControlFlow_of_labelTarget {i : Instr} (h : i.labelTarget = some l) :
    i.isControlFlow = true := by
  cases i with
  | jump | jumpIfFalse => rfl
  | _ => cases h

section

variable (R : Rules) (f q : Program) (k : MethodId) (before : List Line) (x : Line)
  (after : List Line) (position : Nat) (m : Machine)

/-- A write that a line can make, given the lines that come after it. -/
inductive Stores : SlotId → Value → Prop where
  | plain {target : SlotId} {value : Value} (clean : f.Clean target)
      (isPlain : R.strict → f.Plain target) (sends : f.Sends k target) : Stores target value
  | watched {w : Watch} {rest : List Line} {value : Value}
      (fits : w.Fits (f.terms R.free k (f.Label k))) (after_eq : after = w.lines ++ rest) :
      Stores w.id value
  | address {name : String} {slot : SlotId} {back : InstrId} {rest : List Line} {n : Nat}
      (callee : f.Callee name slot)
      (after_eq : after = .code (.jumpMethod name) :: .label back :: rest)
      (number : q.address? back = some n) : Stores slot (.uint32 (UInt32.ofNat n))

/-- Where a line can go on to. -/
inductive Goes : Option Nat → Prop where
  | on {y : Line} {rest : List Line} (after_eq : after = y :: rest) (falls : x.instr.GoesOn) :
      Goes (some (position + 1))
  | label {l l' : InstrId} {before' after' : List Line} {i : Nat}
      (target : x.instr.labelTarget = some l) (place : q.At k before' (.label l') after' i) :
      Goes (some i)
  | enter {name : String} {k' : MethodId} (line : x = .code (.jumpMethod name))
      (found : q.findMethod? name = some k') : Goes (some (q.start k'))
  | back {slot : SlotId} {n : UInt32} {k' : MethodId} {before' after' : List Line} {name : String}
      {l : InstrId} {i : Nat} (line : x = .code (.jumpIndirect slot))
      (held : m.heap.getD slot .null = .uint32 n) (number : n.toNat = q.offset i)
      (place : q.At k' (before' ++ [.code (.jumpMethod name)]) (.label l) after' i) : Goes (some i)
  | halt (line : x = .code .halt) : Goes none

/-- What a step at a line can do. -/
structure Moves (base : List SlotId) (next : Option Nat) (m' : Machine) : Prop where
  holds : m'.Holds q
  stack : m'.stack = x.instr.leaves (held before) ++ base
  keeps : ¬ x.instr.Writes → m'.heap = m.heap
  writes : x.instr.Writes → ∃ target value, (held before).head? = some target ∧
    m'.heap = m.heap.modify target (fun _ => value) ∧ Stores R f q k after target value
  events : x ≠ .code (.host HostCall.sendCustomEvent) →
    m'.effects.customEvents = m.effects.customEvents
  requests : m'.effects.serializations = m.effects.serializations + x.instr.requests
  goes : Goes q k x after position m next

end

namespace Program.Ready

variable {R : Rules} {f q : Program} {before after : List Line} {x : Line} {position : Nat}
  {m m' : Machine} {base : List SlotId} {next : Option Nat}

section

variable (h : Ready R f q)

include h

/-- A line that goes on is not the last one. -/
lemma after_eq (hat : q.At k before x after position) (hx : x.instr.GoesOn) :
    ∃ y rest, after = y :: rest := by
  cases after with
  | cons y rest => exact ⟨y, rest, rfl⟩
  | nil =>
    obtain ⟨body, hlines⟩ := h.ends k (h.methods ▸ hat.lt)
    rw [← h.lines, hat.lines] at hlines
    obtain ⟨-, hlast⟩ := List.append_inj' hlines rfl
    obtain rfl := (List.cons.inj hlast).1
    cases hepilogue : (f.method k).epilogue with
    | halt =>
      rw [hepilogue] at hx
      exact hx.elim
    | indirect slot =>
      rw [hepilogue] at hx
      exact hx.elim

/-- The end of its method stands behind a label. -/
lemma offset_label (hat : q.At k before (.label l) after position) :
    q.offset position + 8 ≤ q.size := by
  obtain ⟨body, hlines⟩ := h.ends k (h.methods ▸ hat.lt)
  rw [← h.lines] at hlines
  have hlast : q.At k body (.code (Epilogue.instr (f.method k).epilogue)) []
      (q.start k + body.length) := ⟨hat.lt, hlines, rfl⟩
  obtain ⟨id, hid, hline⟩ := hlast.placed
  have hsize : (q.instr id).size = 8 := by
    rw [← instr_line, hline]
    cases (f.method k).epilogue with
    | halt => rfl
    | indirect slot => rfl
  have hle : before.length ≤ body.length := by
    have hlength := congrArg List.length (hat.lines.symm.trans hlines)
    simp only [List.length_append, List.length_cons, List.length_nil] at hlength
    omega
  have hoffset : q.offset position ≤ q.offset (q.start k + body.length) := by
    apply offset_le
    rw [hat.position]
    omega
  have hend := offset_le_size q (q.start k + body.length + 1)
  rw [offset_succ hid, hsize] at hend
  omega

/-- What jumps or ends leaves nothing of the method's own on the stack. -/
lemma leaves_eq_nil (hat : q.At k before x after position) (hx : x.instr.isControlFlow = true) :
    x.instr.leaves (held before) = [] := by
  have hproper := h.proper hat
  cases x with
  | label l => cases hx
  | code i =>
    cases i with
    | jump l => exact hproper.2
    | jumpIfFalse l => rfl
    | jumpIndirect slot => exact hproper.1
    | jumpMethod name => exact hproper.1
    | halt => exact hproper.1
    | _ => cases hx

/-- A jump within a method comes to a label there. -/
lemma locateLabel (hm : m.Holds q) (hk : k < q.methods.size) (hl : f.Label k l) :
    ∃ i before' l' after', Run.locateLabel l m = .ok i m ∧
      q.At k before' (.label l') after' i := by
  obtain ⟨before₁, after₁, position₁, hat, haddress⟩ := h.label hk hl
  obtain ⟨i, before', l', after', hlocate, hat', -⟩ := hm.locate_label h.laid h.ended hat
  refine ⟨i, before', l', after', ?_, hat'⟩
  simp only [Run.locateLabel, Run.get_bind, hm.program, haddress]
  exact hlocate

/-- A call comes to the first line of the method. -/
lemma locate_callee (hm : m.Holds q) {name : String} (hc : f.Callee name slot) :
    ∃ k' address, q.findMethod? name = some k' ∧ q.methodAddress? name = some address ∧
      Run.locate address m = .ok (q.start k') m := by
  obtain ⟨y, hy, rfl, -⟩ := hc
  rw [← h.methods] at hy
  have hsome : (q.findMethod? y.name).isSome = true := by
    unfold findMethod?
    rw [Array.findIdx?_isSome, Array.any_eq_true']
    exact ⟨y, Array.mem_toList_iff.mp hy, by simp⟩
  obtain ⟨k', hk'⟩ := Option.isSome_iff_exists.mp hsome
  exact ⟨k', _, hk', methodAddress?_eq h.laid h.ended hk',
    (hm.locate_start h.laid h.ended (lt_of_findMethod? hk')).1⟩

end

/-- The step does what it can do at the line, or it fails because of a value. -/
def Proceeds (R : Rules) (f q : Program) (k : MethodId) (before : List Line) (x : Line)
    (after : List Line) (position : Nat) (m : Machine) (base : List SlotId) : Prop :=
  (∃ next m', Run.step position m = .ok next m' ∧
    Moves R f q k before x after position m base next m') ∨
  ∃ e m', Run.step position m = .error e m' ∧ e.OfValues

section

variable (h : Ready R f q) (hm : m.Intact R f q)

include h hm

lemma proceeds_label (hat : q.At k before (.label l) after position)
    (hstack : m.stack = held before ++ base) :
    Proceeds R f q k before (.label l) after position m base := by
  obtain ⟨a, hcode⟩ := hm.holds.code_at h.laid hat
  obtain ⟨y, rest, rfl⟩ := h.after_eq hat trivial
  exact .inl ⟨_, _, Run.step_nop hcode, hm.holds, hstack, fun _ => rfl, fun hno => hno.elim,
    fun _ => rfl, rfl, .on rfl trivial⟩

lemma proceeds_push (hat : q.At k before (.code (.push slot)) after position)
    (hstack : m.stack = held before ++ base) :
    Proceeds R f q k before (.code (.push slot)) after position m base := by
  obtain ⟨a, hcode⟩ := hm.holds.code_at h.laid hat
  obtain ⟨y, rest, rfl⟩ := h.after_eq hat trivial
  refine .inl ⟨_, _, Run.step_push hcode, ⟨hm.holds.program, hm.holds.code⟩, ?_, fun _ => rfl,
    fun hno => hno.elim, fun _ => rfl, rfl, .on rfl trivial⟩
  simp [Run.popped, hstack, Line.instr, Instr.leaves]

/-- A copy writes a slot that code may write, a watched variable that is followed by its check, or the
address that a called method returns to. -/
lemma proceeds_copy (hat : q.At k before (.code .copy) after position)
    (hstack : m.stack = held before ++ base) :
    Proceeds R f q k before (.code .copy) after position m base := by
  obtain ⟨a, hcode⟩ := hm.holds.code_at h.laid hat
  obtain ⟨y, rest, hafter⟩ := h.after_eq hat trivial
  obtain ⟨target, source, hheld, hcases⟩ := h.proper hat
  rw [hheld] at hstack
  refine .inl ⟨_, _, Run.step_copy hcode hstack, ⟨hm.holds.program, hm.holds.code⟩, rfl,
    fun hno => absurd trivial hno, fun _ => ⟨target, _, by rw [hheld]; rfl, rfl, ?_⟩, fun _ => rfl, rfl,
    .on hafter trivial⟩
  rcases hcases with ⟨-, hclean, hplain, hsends⟩ | ⟨name, back, rest', hsource, hcallee, hafter'⟩ |
    ⟨-, w, rest', hw, rfl, hafter'⟩
  · exact .plain hclean hplain hsends
  · obtain ⟨n, hn, hvalue⟩ := hm.address source back hsource
    rw [hvalue]
    exact .address hcallee.1 hafter' hn
  · exact .watched hw hafter'

/-- A call into the host takes its arguments, and it writes at most the last one. -/
lemma proceeds_host (hR : R.Takes) {signature : String}
    (hat : q.At k before (.code (.host signature)) after position)
    (hstack : m.stack = held before ++ base) :
    Proceeds R f q k before (.code (.host signature)) after position m base := by
  obtain ⟨a, hcode⟩ := hm.holds.code_at h.laid hat
  obtain ⟨y, rest, hafter⟩ := h.after_eq hat trivial
  have hstack' : m.stack = (held before).reverse.reverse ++ base := by
    rw [List.reverse_reverse]
    exact hstack
  have hstep := Run.step_host hcode
  -- a known call that succeeds has done what `Called` says
  have hcalled : ∀ {writes : Bool} (_ : Run.takes signature = some ((held before).length, writes))
      (_ : writes = true → ∀ target value, (held before).head? = some target →
        Stores R f q k after target value),
      Proceeds R f q k before (.code (.host signature)) after position m base := by
    intro writes htakes hstores
    rw [← List.length_reverse] at htakes
    rcases Run.call_safe hstack' htakes with ⟨m', hcall, hdone⟩ | ⟨e, m', hcall, hvalues⟩
    · rw [bind_of_ok hcall] at hstep
      refine .inl ⟨_, _, hstep, ⟨hdone.program.trans hm.holds.program,
        hdone.code.trans hm.holds.code⟩, hdone.stack, ?_, ?_, ?_, hdone.requests, .on hafter trivial⟩
      · intro hno
        cases writes with
        | false => exact hdone.heap rfl
        | true => exact absurd ⟨_, htakes⟩ hno
      · intro ⟨count, hcount⟩
        obtain rfl : writes = true := (Prod.mk.inj (Option.some.inj (htakes.symm.trans hcount))).2
        obtain ⟨target, value, htarget, hheap⟩ := hdone.result rfl
        rw [List.getLast?_reverse] at htarget
        exact ⟨target, value, htarget, hheap, hstores rfl target value htarget⟩
      · intro hne
        apply hdone.events
        rintro rfl
        exact hne rfl
    · rw [bind_of_error hcall] at hstep
      exact .inr ⟨e, m', hstep, hvalues⟩
  rcases h.proper hat with ⟨flags, hcalls, hlength, hclean, hwritable⟩ | ⟨rfl, w, -, hheld, -⟩
  · obtain ⟨-, hnone | htakes⟩ := hR signature flags hcalls.1
    · rw [bind_of_error (Run.call_of_takes_none hnone)] at hstep
      exact .inr ⟨_, _, hstep, by simp, by simp⟩
    · rw [hlength] at htakes
      apply hcalled htakes
      intro hwrites target value htarget
      have hflag : flags.getLast? = some true := of_decide_eq_true hwrites
      have hpair : (target, true) ∈ (held before).reverse.zip flags := by
        rw [← List.getLast?_reverse] at htarget
        obtain ⟨xs, hxs⟩ := List.getLast?_eq_some_iff.mp htarget
        obtain ⟨ys, hys⟩ := List.getLast?_eq_some_iff.mp hflag
        have hsame : xs.length = ys.length := by
          have hxs' := congrArg List.length hxs
          have hys' := congrArg List.length hys
          simp only [List.length_reverse, List.length_append, List.length_singleton] at hxs' hys'
          omega
        rw [hxs, hys, List.zip_append hsame]
        simp
      rcases hwritable _ hpair rfl with ⟨hplain, hsends⟩ | ⟨w, rest', hw, htarget', -, hafter'⟩
      · exact .plain (hclean target (List.mem_of_mem_head? htarget)) hplain hsends
      · obtain rfl : target = w.id := htarget'
        exact .watched hw hafter'
  · have htakes := Run.takes_sendCustomEvent
    rw [← show (held before).length = 2 by rw [hheld]; rfl] at htakes
    apply hcalled htakes
    intro hwrites
    cases hwrites

lemma proceeds_jump (hat : q.At k before (.code (.jump l)) after position)
    (hstack : m.stack = held before ++ base) :
    Proceeds R f q k before (.code (.jump l)) after position m base := by
  obtain ⟨a, hcode⟩ := hm.holds.code_at h.laid hat
  obtain ⟨hl, -⟩ := h.proper hat
  obtain ⟨i, before', l', after', hlocate, hat'⟩ := h.locateLabel hm.holds hat.lt hl
  have hstep := (Run.step_jump hcode).trans (Run.some_map_of_ok hlocate)
  exact .inl ⟨_, _, hstep, hm.holds, hstack, fun _ => rfl, fun hno => hno.elim, fun _ => rfl,
    rfl, .label rfl hat'⟩

lemma proceeds_jumpIfFalse (hat : q.At k before (.code (.jumpIfFalse l)) after position)
    (hstack : m.stack = held before ++ base) :
    Proceeds R f q k before (.code (.jumpIfFalse l)) after position m base := by
  obtain ⟨a, hcode⟩ := hm.holds.code_at h.laid hat
  obtain ⟨y, rest, hafter⟩ := h.after_eq hat trivial
  obtain ⟨hl, c, hheld, -⟩ := h.proper hat
  rw [hheld] at hstack
  have hstep := Run.step_jumpIfFalse hcode hstack
  have hholds : (Run.popped m base).Holds q := ⟨hm.holds.program, hm.holds.code⟩
  cases hc : m.heap.getD c .null with
  | boolean b =>
    rw [hc] at hstep
    cases b with
    | true =>
      exact .inl ⟨_, _, hstep, hholds, rfl, fun _ => rfl, fun hno => hno.elim, fun _ => rfl,
        rfl, .on hafter trivial⟩
    | false =>
      obtain ⟨i, before', l', after', hlocate, hat'⟩ := h.locateLabel hholds hat.lt hl
      exact .inl ⟨_, _, hstep.trans (Run.some_map_of_ok hlocate), hholds, rfl,
        fun _ => rfl, fun hno => hno.elim, fun _ => rfl, rfl, .label rfl hat'⟩
  | _ =>
    rw [hc] at hstep
    exact .inr ⟨_, _, hstep, by simp, by simp⟩

lemma proceeds_jumpMethod {name : String}
    (hat : q.At k before (.code (.jumpMethod name)) after position)
    (hstack : m.stack = held before ++ base) :
    Proceeds R f q k before (.code (.jumpMethod name)) after position m base := by
  obtain ⟨a, hcode⟩ := hm.holds.code_at h.laid hat
  obtain ⟨-, code, address, slot, back, rest, -, hcallee, -, -⟩ := h.proper hat
  obtain ⟨k', n, hfound, hn, hlocate⟩ := h.locate_callee hm.holds hcallee.1
  have hstep := Run.step_jumpMethod hcode
  rw [hm.holds.program, hn] at hstep
  exact .inl ⟨_, _, hstep.trans (Run.some_map_of_ok hlocate), hm.holds, hstack,
    fun _ => rfl, fun hno => hno.elim, fun _ => rfl, rfl, .enter rfl hfound⟩

/-- A return goes to the label that the slot holds the address of. No label stands in front of it, so
the machine finds that very label. -/
lemma proceeds_jumpIndirect (hat : q.At k before (.code (.jumpIndirect slot)) after position)
    (hstack : m.stack = held before ++ base) :
    Proceeds R f q k before (.code (.jumpIndirect slot)) after position m base := by
  obtain ⟨a, hcode⟩ := hm.holds.code_at h.laid hat
  have hstep := Run.step_jumpIndirect hcode
  have hreturns : f.Returns slot := by
    obtain ⟨-, rfl⟩ := h.proper hat
    obtain ⟨body, hlines⟩ := h.ends k (h.methods ▸ hat.lt)
    rw [← h.lines, hat.lines] at hlines
    obtain ⟨-, hlast⟩ := List.append_inj' hlines rfl
    refine ⟨f.method k, method_mem (h.methods ▸ hat.lt), ?_⟩
    cases hepilogue : (f.method k).epilogue with
    | halt =>
      rw [hepilogue] at hlast
      cases hlast
    | indirect slot' =>
      rw [hepilogue] at hlast
      cases hlast
      rfl
  cases hv : m.heap.getD slot .null with
  | uint32 n =>
    obtain ⟨k', before', name, back, after', i, hat', hnumber, hne⟩ := hm.returns slot hreturns n hv
    have hlocate : Run.locate n.toNat m = .ok i m := by
      rw [hnumber]
      exact hm.holds.locate_behind h.laid hat' (by simp)
    rw [hv] at hstep
    simp only [if_neg hne] at hstep
    exact .inl ⟨_, _, hstep.trans (Run.some_map_of_ok hlocate), hm.holds, hstack,
      fun _ => rfl, fun hno => hno.elim, fun _ => rfl, rfl, .back rfl hv hnumber hat'⟩
  | _ =>
    rw [hv] at hstep
    exact .inr ⟨_, _, hstep, by simp, by simp⟩

/-- What a step at a line of the code can do. -/
lemma step_moves (hR : R.Takes) (hat : q.At k before x after position)
    (hstack : m.stack = held before ++ base) : Proceeds R f q k before x after position m base := by
  match x, hat with
  | .label l, hat => exact h.proceeds_label hm hat hstack
  | .code .nop, hat =>
    obtain ⟨id, -, hline⟩ := hat.placed
    have hnop : q.instr id = .nop := by
      rw [← instr_line, hline]
      rfl
    rw [line_eq_label.mpr ⟨hnop, rfl⟩] at hline
    cases hline
  | .code (.push slot), hat => exact h.proceeds_push hm hat hstack
  | .code .copy, hat => exact h.proceeds_copy hm hat hstack
  | .code (.host signature), hat => exact h.proceeds_host hm hR hat hstack
  | .code (.jump l), hat => exact h.proceeds_jump hm hat hstack
  | .code (.jumpIfFalse l), hat => exact h.proceeds_jumpIfFalse hm hat hstack
  | .code (.jumpIndirect slot), hat => exact h.proceeds_jumpIndirect hm hat hstack
  | .code (.jumpMethod name), hat => exact h.proceeds_jumpMethod hm hat hstack
  | .code .halt, hat =>
    obtain ⟨a, hcode⟩ := hm.holds.code_at h.laid hat
    exact .inl ⟨_, _, Run.step_halt hcode, hm.holds, hstack, fun _ => rfl, fun hno => hno.elim,
      fun _ => rfl, rfl, .halt rfl⟩

end

end Program.Ready

/-! ## Machines along a run -/

/-- The machine stands at a line of the code. What the lines before it have pushed is on the stack, above
what was there when the run began. -/
def Program.Stands (q : Program) (base : List SlotId) (c : Nat × Machine) : Prop :=
  ∃ k before x after, q.At k before x after c.1 ∧ c.2.stack = held before ++ base

namespace Moves

variable {R : Rules} {f q : Program} {before after : List Line} {x : Line} {position : Nat}
  {m m' : Machine} {base : List SlotId} {next : Option Nat}
  (hmoves : Moves R f q k before x after position m base next m') (h : Ready R f q)
  (hat : q.At k before x after position)

include hmoves h hat

lemma intact (hsize : q.size < 2 ^ 32) (hm : m.Intact R f q) : m'.Intact R f q := by
  by_cases hwrites : x.instr.Writes
  swap
  · exact hm.same hmoves.holds (hmoves.keeps hwrites)
  obtain ⟨target, value, -, hheap, hstores⟩ := hmoves.writes hwrites
  cases hstores with
  | plain clean isPlain sends =>
    exact hm.write hmoves.holds hheap clean fun hstrict => (isPlain hstrict).writable
  | @watched w rest value fits after_eq =>
    have hclean : f.Clean w.id := fits.clean _ (by simp)
    refine hm.write hmoves.holds hheap hclean fun _ => ⟨?_, ?_⟩
    · rw [fits.watched.1.kind]
      simp
    · by_contra hthis
      have hkind := h.sound.this_kind w.id hclean.lt (by simpa using hthis)
      rw [fits.watched.1.kind] at hkind
      cases hkind
  | @address name slot back rest n callee after_eq number =>
    rw [after_eq] at hat
    have hback := hat.next.next
    obtain ⟨y, hy, -, hepilogue⟩ := callee
    obtain ⟨id, hid, hline⟩ := hback.placed
    obtain ⟨-, rfl⟩ := line_eq_label.mp hline
    obtain rfl : q.offset (position + 1 + 1) = n :=
      Option.some.inj ((h.laid _ _ hid).symm.trans number)
    have hlt := h.offset_label hback
    have hnat : (UInt32.ofNat (q.offset (position + 1 + 1))).toNat = q.offset (position + 1 + 1) := by
      rw [UInt32.toNat_ofNat']
      exact Nat.mod_eq_of_lt (by omega)
    refine hm.enter hmoves.holds hheap ⟨y, hy, hepilogue⟩ h.tidy
      ⟨k, _, name, id, rest, _, hback, hnat, fun hhalt => ?_⟩
    rw [hhalt] at hnat
    have hvalue : haltAddress.toNat = 4294967292 := rfl
    omega

lemma stands {position' : Nat} (hnext : next = some position') : q.Stands base (position', m') := by
  subst hnext
  have hstack := hmoves.stack
  cases hmoves.goes with
  | @on y rest after_eq falls =>
    rw [after_eq] at hat
    exact ⟨_, _, _, _, hat.next, by rw [held_concat]; exact hstack⟩
  | @label l l' before' after' i target place =>
    rw [h.leaves_eq_nil hat (Instr.isControlFlow_of_labelTarget target)] at hstack
    exact ⟨_, _, _, _, place, by rw [h.proper place]; exact hstack⟩
  | @enter name k' line found =>
    rw [h.leaves_eq_nil hat (by rw [line]; rfl)] at hstack
    obtain ⟨-, y, rest, hat'⟩ :=
      hmoves.holds.locate_start h.laid h.ended (lt_of_findMethod? found)
    exact ⟨_, _, _, _, hat', hstack⟩
  | @back slot n k' before' after' name l i line value number place =>
    rw [h.leaves_eq_nil hat (by rw [line]; rfl)] at hstack
    exact ⟨_, _, _, _, place, by rw [h.proper place]; exact hstack⟩

lemma stack_of_halt (hnext : next = none) : m'.stack = base := by
  subst hnext
  have hstack := hmoves.stack
  cases hmoves.goes with
  | halt line =>
    rw [h.leaves_eq_nil hat (by rw [line]; rfl)] at hstack
    exact hstack

end Moves

/-- A machine in the middle of a run: it is intact, and it stands at a line of the code. -/
structure Program.OnWay (R : Rules) (f q : Program) (base : List SlotId) (c : Nat × Machine) :
    Prop where
  intact : c.2.Intact R f q
  stands : q.Stands base c

namespace Program.OnWay

variable {R : Rules} {f q : Program} {base : List SlotId} {c d : Nat × Machine} {m m' : Machine}
  {name : String}

section

variable (hc : OnWay R f q base c) (h : Ready R f q) (hR : R.Takes)

include hc h hR

/-- What a step does is what it can do at its line. -/
lemma moves {next : Option Nat} (hstep : Run.step c.1 c.2 = .ok next m') :
    ∃ k before x after, q.At k before x after c.1 ∧ c.2.stack = held before ++ base ∧
      Moves R f q k before x after c.1 c.2 base next m' := by
  obtain ⟨k, before, x, after, hat, hstack⟩ := hc.stands
  rcases h.step_moves hc.intact hR hat hstack with ⟨next', m₁, hok, hmoves⟩ | ⟨e, m₁, herror, -⟩
  · obtain ⟨rfl, rfl⟩ := EStateM.Result.ok.inj (hok.symm.trans hstep)
    exact ⟨k, before, x, after, hat, hstack, hmoves⟩
  · cases herror.symm.trans hstep

lemma next (hsize : q.size < 2 ^ 32) (hstep : Run.Next c d) : OnWay R f q base d := by
  obtain ⟨k, before, x, after, hat, -, hmoves⟩ := hc.moves h hR hstep
  exact ⟨hmoves.intact h hat hsize hc.intact, hmoves.stands h hat rfl⟩

lemma reaches (hsize : q.size < 2 ^ 32) (hcd : Run.Reaches c d) : OnWay R f q base d := by
  induction hcd with
  | refl => exact hc
  | tail _ hstep ih => exact ih.next h hR hsize hstep

lemma halts (hsize : q.size < 2 ^ 32) (hstep : Run.step c.1 c.2 = .ok none m') :
    m'.Intact R f q ∧ m'.stack = base := by
  obtain ⟨k, before, x, after, hat, -, hmoves⟩ := hc.moves h hR hstep
  exact ⟨hmoves.intact h hat hsize hc.intact, hmoves.stack_of_halt h hat rfl⟩

lemma fails {e : Fault} (hstep : Run.step c.1 c.2 = .error e m') : e.OfValues := by
  obtain ⟨k, before, x, after, hat, hstack⟩ := hc.stands
  rcases h.step_moves hc.intact hR hat hstack with ⟨next, m₁, hok, -⟩ | ⟨e', m₁, herror, hvalues⟩
  · cases hok.symm.trans hstep
  · obtain ⟨rfl, rfl⟩ := EStateM.Result.error.inj (herror.symm.trans hstep)
    exact hvalues

end

/-- A run begins at the first line of its method. -/
lemma start (hm : m.Intact R f q) (h : Ready R f q) (hk : q.findMethod? name = some k) :
    OnWay R f q m.stack (q.start k, m) := by
  obtain ⟨-, x, after, hat⟩ := hm.holds.locate_start h.laid h.ended (lt_of_findMethod? hk)
  exact ⟨hm, k, [], x, after, hat, rfl⟩

end Program.OnWay

namespace Machine.Intact

variable {R : Rules} {f q : Program} {m m' : Machine} {name : String}

section

variable (hm : m.Intact R f q)
include hm

/-- The steps of a run of a method. -/
lemma method_eq (h : Ready R f q) (hk : q.findMethod? name = some k) :
    Run.method name m = Run.steps name stepLimit (q.start k) m := by
  simp only [Run.method, Run.get_bind, hm.holds.program, methodAddress?_eq h.laid h.ended hk]
  exact bind_of_ok (hm.holds.locate_start h.laid h.ended (lt_of_findMethod? hk)).1 _

/-- A method that the program does not have cannot be run. -/
lemma method_of_none (hk : q.findMethod? name = none) :
    Run.method name m = .error (.noMethod name) m := by
  have hnone : q.methodAddress? name = none := by
    unfold methodAddress? methodNamed?
    rw [hk]
    rfl
  simp only [Run.method, Run.get_bind, hm.holds.program, hnone]
  rfl

/-- A run of a method begins at the first line of the method. -/
lemma visits_iff (h : Ready R f q) (hk : q.findMethod? name = some k) {c : Nat × Machine} :
    Run.Visits name m c ↔ Run.Reaches (q.start k, m) c := by
  have haddress : m.program.methodAddress? name = some (q.offset (q.start k)) := by
    rw [hm.holds.program]
    exact methodAddress?_eq h.laid h.ended hk
  obtain ⟨hstart, -⟩ := hm.holds.locate_start h.laid h.ended (lt_of_findMethod? hk)
  constructor
  · intro ⟨address, position, haddress', hlocate, hreaches⟩
    obtain rfl := Option.some.inj (haddress.symm.trans haddress')
    obtain ⟨rfl, -⟩ := EStateM.Result.ok.inj (hstart.symm.trans hlocate)
    exact hreaches
  · intro hreaches
    exact ⟨_, _, haddress, hstart, hreaches⟩

lemma findMethod?_of_visits {c : Nat × Machine} (hc : Run.Visits name m c) :
    ∃ k, q.findMethod? name = some k := by
  obtain ⟨address, -, haddress, -⟩ := hc
  rw [hm.holds.program] at haddress
  cases hk : q.findMethod? name with
  | some k => exact ⟨k, rfl⟩
  | none =>
    unfold methodAddress? methodNamed? at haddress
    rw [hk] at haddress
    cases haddress

/-- A run of a method that ends well leaves the machine intact and its stack as it was. -/
lemma method_ok (h : Ready R f q) (hR : R.Takes) (hsize : q.size < 2 ^ 32)
    (hrun : Run.method name m = .ok () m') : m'.Intact R f q ∧ m'.stack = m.stack := by
  cases hk : q.findMethod? name with
  | none =>
    rw [hm.method_of_none hk] at hrun
    cases hrun
  | some k =>
    rw [hm.method_eq h hk] at hrun
    obtain ⟨c, hreaches, hlast⟩ := Run.reaches_of_steps_ok hrun
    exact ((OnWay.start hm h hk).reaches h hR hsize hreaches).halts h hR hsize hlast

/-- A run of a method that fails does so because of a value, or it takes too long. -/
lemma method_error (h : Ready R f q) (hR : R.Takes) (hsize : q.size < 2 ^ 32) {e : Fault}
    (hrun : Run.method name m = .error e m') : e.OfValues := by
  cases hk : q.findMethod? name with
  | none =>
    rw [hm.method_of_none hk] at hrun
    obtain ⟨rfl, -⟩ := EStateM.Result.error.inj hrun
    exact ⟨by simp, by simp⟩
  | some k =>
    rw [hm.method_eq h hk] at hrun
    rcases Run.reaches_of_steps_error hrun with rfl | ⟨c, hreaches, hlast⟩
    · exact ⟨by simp, by simp⟩
    · exact ((OnWay.start hm h hk).reaches h hR hsize hreaches).fails h hR hlast

end

/-- A machine at the start of its program. -/
lemma ofProgram (h : Ready R f q) : (Machine.ofProgram q).Intact R f q := by
  have hheap : ∀ id < q.slots.size, (Machine.ofProgram q).heap.getD id .null =
      (q.slots.get id).initial.getD .null := by
    intro id hid
    have hslot := SlotTable.slots_getElem? hid
    rw [Array.getElem?_toList] at hslot
    simp [Machine.ofProgram, Array.getD_eq_getD_getElem?, hslot]
  refine ⟨⟨rfl, rfl⟩, by simp [Machine.ofProgram, SlotTable.size], ?_, ?_, fun _ id hid _ => hheap id hid⟩
  · intro id l hconstant
    have hid : id < q.slots.size := h.slots ▸ hconstant.lt
    have hslot := h.resolved id hid
    unfold resolveSlot at hslot
    rw [hconstant.initial] at hslot
    cases hl : q.address? l with
    | none =>
      simp only [resolveAddress, hl] at hslot
      cases hslot
    | some n =>
      simp only [resolveAddress, hl] at hslot
      refine ⟨n, rfl, ?_⟩
      rw [hheap id hid, ← Except.ok.inj hslot]
      rfl
  · intro slot hslot n hn
    obtain ⟨hlt, -, -, -, hnone⟩ := h.tidy.returns slot hslot
    have hid : slot < q.slots.size := h.slots ▸ hlt
    rw [hheap slot hid, h.slot_of_ne hid (by simp [hnone]), hnone] at hn
    cases hn

end Machine.Intact

/-! ## Sessions -/

/-- A slot that may be set from outside: it is no constant, it does not hold the running object, and no
method returns through it. -/
structure Program.Settable (q : Program) (id : SlotId) : Prop where
  kind : (q.slots.get id).kind ≠ .constant
  isThis : (q.slots.get id).isThis = false
  returns : ¬ q.Returns id

/-- A machine that a program was loaded into, that was run and whose slots were set in any order. -/
inductive Machine.Session (q : Program) : Machine → Prop where
  | load : Session q (Machine.ofProgram q)
  | world {m : Machine} (session : Session q m) (isOwner isMaster : Bool) :
      Session q { m with isOwner, isMaster }
  | set {m m' : Machine} {name : String} {value : Value} {id : SlotId} (session : Session q m)
      (found : q.slots.findName? name = some id) (settable : q.Settable id)
      (written : m.write name value = .ok m') : Session q m'
  | run {m m' : Machine} {name : String} (session : Session q m)
      (done : Run.method name m = .ok () m') : Session q m'

namespace Machine.Session

variable {R : Rules} {f q : Program} {m : Machine}

lemma intact (hm : m.Session q) (h : Ready R f q) (hR : R.Takes) (hsize : q.size < 2 ^ 32) :
    m.Intact R f q ∧ m.stack = [] := by
  induction hm with
  | load => exact ⟨Intact.ofProgram h, rfl⟩
  | world session isOwner isMaster ih => exact ⟨ih.1.same ⟨ih.1.holds.program, ih.1.holds.code⟩ rfl, ih.2⟩
  | @set m m' name value id session found settable written ih =>
    have hid : id < q.slots.size := (Array.findIdx?_eq_some_iff_getElem.mp found).1
    simp only [Machine.write, ih.1.holds.program, found] at written
    obtain rfl := Except.ok.inj written
    obtain ⟨initial, hslot⟩ := h.slot_eq hid
    obtain ⟨hkind, hthis, hreturns⟩ := settable
    rw [hslot] at hkind hthis
    have hreturns' : ¬ f.Returns id := by
      unfold Program.Returns at hreturns ⊢
      rwa [← h.methods]
    have hclean : f.Clean id := h.tidy.clean (h.slots ▸ hid) hkind hreturns'
    exact ⟨ih.1.write ⟨rfl, ih.1.holds.code⟩ rfl hclean fun _ => ⟨hkind, hthis⟩, ih.2⟩
  | run session done ih =>
    obtain ⟨hintact, hstack⟩ := ih.1.method_ok h hR hsize done
    exact ⟨hintact, hstack.trans ih.2⟩

end Machine.Session

end TriggerCompiler
