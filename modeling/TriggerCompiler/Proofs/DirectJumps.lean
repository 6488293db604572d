import Mathlib
import TriggerCompiler.Proofs.ExactLinking
import TriggerCompiler.Proofs.Execution

/-!
# Jumps by address and jumps to instructions

The machine jumps to addresses, and several instructions can have one address, since labels take no
space. Main statement: the machine finds a placed instruction at its address, or a label in the same
method from which nothing but labels leads to it. So a run does what an execution does that jumps to
the instructions themselves, whichever instruction is meant by an address.

The two executions are compared step by step. Where they are at different positions, the machine is
some labels behind the direct execution, with the same stack, store and effects, and it catches up
before it does anything else.
-/

namespace TriggerCompiler

variable {x y : Nat × Machine} {i j position : Nat}

namespace Run

variable {α : Type} {m m' : Machine} {slot : SlotId}

/-! ## What no step changes -/

/-- The program and its code are the same. -/
def SameCode (m n : Machine) : Prop := n.program = m.program ∧ n.code = m.code

instance : IsPreorder Machine SameCode where
  refl _ := ⟨rfl, rfl⟩
  trans _ _ _ h h' := ⟨h'.1.trans h.1, h'.2.trans h.2⟩

/-- The computation leaves the program and its code alone. -/
abbrev Keeps (x : Run α) : Prop := KeepsTo SameCode x

instance (heap : Machine → Array Value) (stack : Machine → List SlotId)
    (effects : Machine → Effects) : Keeps (modify fun m =>
      { m with heap := heap m, stack := stack m, effects := effects m }) :=
  ⟨fun _ => ⟨rfl, rfl⟩⟩

instance : Keeps (load slot) := by unfold load; infer_instance
instance (v : Value) : Keeps (store slot v) := by unfold store; infer_instance
instance (f : Effects → Effects) : Keeps (effect f) := by unfold effect; infer_instance
instance : Keeps pop := .bind inferInstance fun _ => by split <;> infer_instance
instance : Keeps (arguments i) := by unfold arguments; infer_instance
instance : Keeps (loadInt slot) := .bind inferInstance fun _ => by split <;> infer_instance
instance : Keeps (loadString slot) := .bind inferInstance fun _ => by split <;> infer_instance
instance : Keeps (loadDelay slot) := .bind inferInstance fun _ => by split <;> infer_instance
instance (verb : String) (n : Int) : Keeps (checked verb n) := by unfold checked; infer_instance

lemma keeps_intCall {signature : String} {run : Run Unit} (h : intCall signature = some run) :
    Keeps run := by
  unfold intCall at h
  dsimp only at h
  split at h
  · obtain rfl := Option.some.inj h
    exact .bind inferInstance fun _ => by split <;> infer_instance
  · obtain rfl := Option.some.inj h
    exact .bind inferInstance fun _ => by split <;> infer_instance
  · cases h

instance (r : Value → Value → Bool) : Keeps (relationCall r) :=
  .bind inferInstance fun _ => by split <;> infer_instance
instance : Keeps negationCall := .bind inferInstance fun _ => by split <;> infer_instance

instance (signature : String) : Keeps (call signature) := by
  unfold call
  split
  · exact keeps_intCall ‹_›
  · repeat' first | infer_instance | split | refine .bind inferInstance fun _ => ?_

instance : Keeps (locate i) := .bind inferInstance fun _ => by split <;> infer_instance
instance (l : InstrId) : Keeps (locateLabel l) := .bind inferInstance fun _ => by
  split <;> infer_instance

/-- No step changes the program or its code. -/
instance : Keeps (step position) := by
  unfold step
  repeat' first | infer_instance | split | refine .bind inferInstance fun _ => ?_

/-! ## Executions that know the instructions -/

/-- The machine is at an instruction. -/
def Sees (x : Nat × Machine) (i : Instr) : Prop := ∃ a, x.2.code[x.1]? = some (a, i)

lemma Sees.unique {i j : Instr} (h : Sees x i) (h' : Sees x j) : i = j := by
  obtain ⟨a, ha⟩ := h
  obtain ⟨b, hb⟩ := h'
  exact (Prod.mk.inj (Option.some.inj (ha.symm.trans hb))).2

/-- One step of an execution that jumps to instructions: to the label itself, to the first
instruction of the method, and from an address to any instruction that has it. -/
inductive Direct : Nat × Machine → Nat × Machine → Prop where
  | jump {position target : Nat} {m : Machine} {l : InstrId} (sees : Sees (position, m) (.jump l))
      (goal : m.program.placed[target]? = some l) : Direct (position, m) (target, m)
  | jumpIfFalse {position target : Nat} {m : Machine} {l : InstrId} {c : SlotId} {rest : List SlotId}
      (sees : Sees (position, m) (.jumpIfFalse l)) (stack : m.stack = c :: rest)
      (value : m.heap.getD c .null = .boolean false) (goal : m.program.placed[target]? = some l) :
      Direct (position, m) (target, popped m rest)
  | jumpMethod {position target : Nat} {m : Machine} {name : String} {callee : Method}
      {first : InstrId} (sees : Sees (position, m) (.jumpMethod name))
      (found : m.program.methodNamed? name = some callee) (body : callee.body[0]? = some first)
      (goal : m.program.placed[target]? = some first) : Direct (position, m) (target, m)
  | jumpIndirect {position target : Nat} {m : Machine} {slot : SlotId} {n : UInt32} {id : InstrId}
      (sees : Sees (position, m) (.jumpIndirect slot)) (value : m.heap.getD slot .null = .uint32 n)
      (goes : n ≠ haltAddress) (goal : m.program.placed[target]? = some id)
      (address : m.program.address? id = some n.toNat) : Direct (position, m) (target, m)
  /-- An instruction that is no jump, or a condition that holds. -/
  | next {position : Nat} {m m' : Machine} {i : Instr} (sees : Sees (position, m) i)
      (stays : i.isControlFlow = false ∨ ∃ l c rest, i = .jumpIfFalse l ∧ m.stack = c :: rest ∧
        m.heap.getD c .null = .boolean true)
      (next : Next (position, m) (position + 1, m')) : Direct (position, m) (position + 1, m')

/-- If the machine is about to jump through an address, then it is that of an instruction. -/
def Resolved (x : Nat × Machine) : Prop :=
  ∀ slot n, Sees x (.jumpIndirect slot) → x.2.heap.getD slot .null = .uint32 n →
    n = haltAddress ∨ ∃ id ∈ x.2.program.placed, x.2.program.address? id = some n.toNat

/-- An execution, with the positions of all that it ran apart from labels. -/
inductive Traces (step : Nat × Machine → Nat × Machine → Prop) (x : Nat × Machine) :
    List Nat → Nat × Machine → Prop where
  | refl : Traces step x [] x
  | label {trace : List Nat} {y z : Nat × Machine} (before : Traces step x trace y)
      (sees : Sees y .nop) (next : step y z) : Traces step x trace z
  | work {trace : List Nat} {y z : Nat × Machine} (before : Traces step x trace y)
      (sees : ¬ Sees y .nop) (next : step y z) : Traces step x (trace ++ [y.1]) z

lemma Traces.reaches {trace : List Nat} (h : Traces Next x trace y) : Reaches x y := by
  induction h with
  | refl => exact .refl
  | label _ _ next ih => exact ih.tail next
  | work _ _ next ih => exact ih.tail next

/-- Nothing but labels stands from one position to another. -/
structure Trails (m : Machine) (i j : Nat) : Prop where
  le : i ≤ j
  labels : ∀ n, i ≤ n → n < j → Sees (n, m) .nop

lemma Trails.refl (m : Machine) (i : Nat) : Trails m i i :=
  ⟨le_rfl, fun _ hn hlt => absurd hlt (Nat.not_lt.mpr hn)⟩

/-- What is not a label is not behind anything. -/
lemma Trails.eq (h : Trails m i j) (hno : ¬ Sees (i, m) .nop) : i = j := by
  by_contra hne
  exact hno (h.labels i le_rfl (lt_of_le_of_ne h.le hne))

/-- The machine catches up. -/
lemma Trails.traces {trace : List Nat} (h : Trails m i j) (hx : Traces Next x trace (i, m)) :
    Traces Next x trace (j, m) := by
  obtain ⟨n, rfl⟩ := Nat.exists_eq_add_of_le h.le
  induction n with
  | zero => exact hx
  | succ n ih =>
    have hsees := h.labels (i + n) (by omega) (by omega)
    have hbefore : Trails m i (i + n) := ⟨by omega, fun k hk hlt => h.labels k hk (by omega)⟩
    refine .label (ih hbefore) hsees ?_
    obtain ⟨a, ha⟩ := hsees
    exact step_nop ha

end Run

/-! ## Linked programs -/

namespace Program

variable {q : Program}

/-- The program came out of a link, and what went in placed nothing that was not in its arena. -/
def Linked (q : Program) : Prop :=
  ∃ (p : Program) (options : CompileOptions), p.linked = false ∧
    (∀ id ∈ p.placed ++ p.endLabels, id < p.instrs.size) ∧ p.link options = .ok q

lemma Linked.laid (h : q.Linked) : q.Laid ∧ q.Ended ∧ ∀ id, id ∉ q.placed → q.address? id = none := by
  obtain ⟨p, options, hunlinked, hlt, hlink⟩ := h
  have hlinks := (links_of_link hunlinked hlt hlink).2
  exact ⟨hlinks.address, (finishMethods_closes options p).ended.congr hlinks.methods hlinks.instrs,
    hlinks.unplaced⟩

/-- Every position is in a method. -/
lemma exists_method_of_lt (hj : j < q.placed.length) :
    ∃ k < q.methods.size, q.start k ≤ j ∧ j < q.start (k + 1) := by
  have hall : q.start q.methods.size = q.placed.length := by
    unfold start placed
    rw [List.take_of_length_le (by simp)]
  have hex : ∃ k, j < q.start (k + 1) := by
    refine ⟨q.methods.size, ?_⟩
    have hle := start_le (p := q) (Nat.le_succ q.methods.size)
    rw [Nat.succ_eq_add_one] at hle
    omega
  classical
  have hleast := Nat.find_spec hex
  set k := Nat.find hex with hk
  have hlow : q.start k ≤ j := by
    cases hk' : k with
    | zero => simp [start]
    | succ k' => exact Nat.le_of_not_lt fun hlt => Nat.find_min hex (m := k') (by omega) hlt
  refine ⟨k, ?_, hlow, hleast⟩
  by_contra hge
  have hle := start_le (p := q) (Nat.le_of_not_lt hge)
  omega

end Program

namespace Machine.Holds

open Program Run

variable {q : Program} {m m' : Machine} {id : InstrId}

/-- The machine finds an instruction at its address, or labels of the same method in front of it. -/
lemma locate_placed (h : m.Holds q) (hlaid : q.Laid) (hended : q.Ended) (hj : q.placed[j]? = some id) :
    ∃ i k, Run.locate (q.offset j) m = .ok i m ∧ Trails m i j ∧
      k < q.methods.size ∧ q.start k ≤ i ∧ j < q.start (k + 1) := by
  have hlt := (List.getElem?_eq_some_iff.mp hj).1
  obtain ⟨i, hle, hsame, hlocate⟩ := h.locate hlaid hlt
  obtain ⟨k, hk, hlow, hhigh⟩ := exists_method_of_lt hlt
  have hnop : ∀ n, i ≤ n → n < j → ∀ x, q.placed[n]? = some x → q.instr x = .nop :=
    fun n hn hnj x hx => instr_of_offset_eq hsame hn hnj hx
  refine ⟨i, k, hlocate, ⟨hle, fun n hn hnj => ?_⟩, hk, ?_, hhigh⟩
  · have hn' : n < q.placed.length := hnj.trans hlt
    have hcode := h.getElem? hlaid (List.getElem?_eq_getElem hn')
    rw [hnop n hn hnj _ (List.getElem?_eq_getElem hn')] at hcode
    exact ⟨_, hcode⟩
  · -- in front of the method stands the last instruction of another, which is no label
    by_contra hlt'
    obtain ⟨n, hn⟩ : ∃ n, q.start k = n + 1 := ⟨q.start k - 1, by omega⟩
    have hn' : n < q.placed.length := by omega
    refine instr_before_start hended hk.le hn (List.getElem?_eq_getElem hn') ?_
    exact hnop n (by omega) (by omega) _ (List.getElem?_eq_getElem hn')

lemma congr (h : m.Holds q) (hp : m'.program = m.program) (hc : m'.code = m.code) : m'.Holds q :=
  ⟨hp.trans h.program, hc.trans h.code⟩

lemma next (h : x.2.Holds q) (hnext : Next x y) : y.2.Holds q := by
  obtain ⟨hp, hc⟩ := KeepsTo.of_ok (R := SameCode) hnext
  exact h.congr hp hc

lemma reaches (h : x.2.Holds q) (hxy : Reaches x y) : y.2.Holds q := by
  induction hxy with
  | refl => exact h
  | tail _ hnext ih => exact ih.next hnext

end Machine.Holds

namespace Run

open Program

variable {q : Program} {m m' : Machine} {d : Nat × Machine} {trace : List Nat}

/-- A direct step is a step of the machine that stops at most some labels earlier. -/
lemma Direct.next_of_holds {target : Nat} (h : Direct (position, m) (target, m')) (hm : m.Holds q)
    (hlaid : q.Laid) (hended : q.Ended) :
    ∃ i, Next (position, m) (i, m') ∧ Trails m' i target := by
  have haim : ∀ {n : Machine} {id : InstrId}, n.Holds q → q.placed[target]? = some id →
      q.address? id = some (q.offset target) ∧
        ∃ i, locate (q.offset target) n = .ok i n ∧ Trails n i target := by
    intro n id hn hid
    obtain ⟨i, k, hlocate, htrails, -⟩ := hn.locate_placed hlaid hended hid
    exact ⟨hlaid _ _ hid, i, hlocate, htrails⟩
  cases h with
  | @jump _ _ _ l sees goal =>
    obtain ⟨a, hcode⟩ := sees
    rw [hm.program] at goal
    obtain ⟨haddress, i, hlocate, htrails⟩ := haim hm goal
    refine ⟨i, (step_jump hcode).trans (some_map_of_ok ?_), htrails⟩
    simp only [locateLabel, get_bind, hm.program, haddress]
    exact hlocate
  | @jumpIfFalse _ _ _ l c rest sees stack value goal =>
    obtain ⟨a, hcode⟩ := sees
    rw [hm.program] at goal
    have hpopped : (popped m rest).Holds q := hm.congr rfl rfl
    obtain ⟨haddress, i, hlocate, htrails⟩ := haim hpopped goal
    refine ⟨i, (step_jumpIfFalse hcode stack).trans ?_, htrails⟩
    rw [value]
    apply some_map_of_ok
    simp only [locateLabel, get_bind, hpopped.program, haddress]
    exact hlocate
  | @jumpMethod _ _ _ name callee first sees found body goal =>
    obtain ⟨a, hcode⟩ := sees
    rw [hm.program] at goal found
    obtain ⟨haddress, i, hlocate, htrails⟩ := haim hm goal
    refine ⟨i, (step_jumpMethod hcode).trans ?_, htrails⟩
    have hmethod : q.methodAddress? name = some (q.offset target) := by
      simp [methodAddress?, found, body, haddress]
    rw [hm.program, hmethod]
    exact some_map_of_ok hlocate
  | @jumpIndirect _ _ _ slot n id sees value goes goal address =>
    obtain ⟨a, hcode⟩ := sees
    rw [hm.program] at goal address
    obtain ⟨haddress, i, hlocate, htrails⟩ := haim hm goal
    refine ⟨i, (step_jumpIndirect hcode).trans ?_, htrails⟩
    rw [value]
    dsimp only
    rw [if_neg goes, Option.some.inj (address.symm.trans haddress)]
    exact some_map_of_ok hlocate
  | next sees stays next => exact ⟨_, next, .refl _ _⟩

lemma some_map_eq_ok {f : Run Nat} {next : Nat} (h : (some <$> f) m = .ok (some next) m') :
    f m = .ok next m' := by
  cases hf : f m with
  | ok a m₁ =>
    rw [some_map_of_ok hf] at h
    obtain ⟨hnext, rfl⟩ := EStateM.Result.ok.inj h
    rw [Option.some.inj hnext]
  | error e m₁ =>
    simp only [Functor.map, EStateM.map, hf] at h
    cases h

lemma locateLabel_eq_ok {l : InstrId} {next : Nat} (h : locateLabel l m = .ok next m') :
    ∃ a, m.program.address? l = some a ∧ locate a m = .ok next m' := by
  simp only [locateLabel, get_bind] at h
  cases ha : m.program.address? l with
  | none =>
    rw [ha] at h
    cases h
  | some a =>
    rw [ha] at h
    exact ⟨a, rfl, h⟩

lemma Next.sees (h : Next x y) : ∃ i, Sees x i := by
  cases hcode : x.2.code[x.1]? with
  | none =>
    simp only [Next, step, get_bind, hcode] at h
    cases h
  | some entry => exact ⟨entry.2, entry.1, hcode⟩

/-- What is no jump goes on at the next position. -/
lemma next_of_isControlFlow {i : Instr} {next : Nat} (hsees : Sees (position, m) i)
    (hi : i.isControlFlow = false) (h : Next (position, m) (next, m')) : next = position + 1 := by
  obtain ⟨a, hcode⟩ := hsees
  have hlast : ∀ {n : Machine}, (pure (some (position + 1)) : Run (Option Nat)) n = .ok (some next) m' →
      next = position + 1 := fun hn => (Option.some.inj (EStateM.Result.ok.inj hn).1).symm
  simp only [Next, step, get_bind, hcode] at h
  cases i with
  | nop => exact hlast h
  | push slot =>
    obtain ⟨_, _, -, h⟩ := bind_eq_ok.mp h
    exact hlast h
  | copy =>
    obtain ⟨_, _, -, h⟩ := bind_eq_ok.mp h
    obtain ⟨_, _, -, h⟩ := bind_eq_ok.mp h
    obtain ⟨_, _, -, h⟩ := bind_eq_ok.mp h
    obtain ⟨_, _, -, h⟩ := bind_eq_ok.mp h
    exact hlast h
  | host signature =>
    obtain ⟨_, _, -, h⟩ := bind_eq_ok.mp h
    exact hlast h
  | _ => cases hi

/-- A step of the machine is a direct step that goes on at most some labels later. -/
lemma Next.direct {next : Nat} (h : Next (position, m) (next, m')) (hm : m.Holds q) (hq : q.Linked)
    (hresolved : Resolved (position, m)) :
    ∃ target, Direct (position, m) (target, m') ∧ Trails m' next target := by
  obtain ⟨hlaid, hended, hunplaced⟩ := hq.laid
  -- what has an address has its place, and the machine stops there or some labels earlier
  have haim : ∀ {n n' : Machine} {id : InstrId} {a : Nat}, n.Holds q → q.address? id = some a →
      locate a n = .ok next n' → n' = n ∧ ∃ target, q.placed[target]? = some id ∧
        Trails n next target := by
    intro n n' id a hn ha hlocate
    have hmem : id ∈ q.placed := by
      by_contra hno
      rw [hunplaced id hno] at ha
      cases ha
    obtain ⟨target, htarget⟩ := List.mem_iff_getElem?.mp hmem
    obtain rfl := Option.some.inj (ha.symm.trans (hlaid _ _ htarget))
    obtain ⟨i, k, hi, htrails, -⟩ := hn.locate_placed hlaid hended htarget
    obtain ⟨rfl, rfl⟩ := EStateM.Result.ok.inj (hi.symm.trans hlocate)
    exact ⟨rfl, target, htarget, htrails⟩
  obtain ⟨i, hsees⟩ := h.sees
  have ⟨a, hcode⟩ := hsees
  cases i with
  | nop | push slot | copy | host signature =>
    obtain rfl := next_of_isControlFlow hsees rfl h
    exact ⟨position + 1, .next hsees (.inl rfl) h, .refl _ _⟩
  | halt => cases (step_halt hcode).symm.trans h
  | jump l =>
    obtain ⟨b, hb, hlocate⟩ := locateLabel_eq_ok (some_map_eq_ok ((step_jump hcode).symm.trans h))
    rw [hm.program] at hb
    obtain ⟨rfl, target, htarget, htrails⟩ := haim hm hb hlocate
    exact ⟨target, .jump hsees (by rw [hm.program]; exact htarget), htrails⟩
  | jumpIfFalse l =>
    cases hstack : m.stack with
    | nil =>
      have hpop : pop m = .error .stackUnderflow m := by
        simp only [pop, get_bind, hstack]
        rfl
      simp only [Next, step, get_bind, hcode] at h
      rw [bind_of_error hpop] at h
      cases h
    | cons c rest =>
      have hstep := (step_jumpIfFalse hcode hstack).symm.trans h
      have hpopped : (popped m rest).Holds q := hm.congr rfl rfl
      cases hvalue : m.heap.getD c .null with
      | boolean b =>
        rw [hvalue] at hstep
        cases b with
        | false =>
          obtain ⟨b, hb, hlocate⟩ := locateLabel_eq_ok (some_map_eq_ok hstep)
          rw [hpopped.program] at hb
          obtain ⟨rfl, target, htarget, htrails⟩ := haim hpopped hb hlocate
          exact ⟨target, .jumpIfFalse hsees hstack hvalue (by rw [hm.program]; exact htarget),
            htrails⟩
        | true =>
          obtain ⟨hnext, rfl⟩ := EStateM.Result.ok.inj hstep
          obtain rfl := Option.some.inj hnext
          exact ⟨position + 1, .next hsees (.inr ⟨l, c, rest, rfl, hstack, hvalue⟩) h,
            .refl _ _⟩
      | _ =>
        rw [hvalue] at hstep
        cases hstep
  | jumpIndirect slot =>
    have hstep := (step_jumpIndirect hcode).symm.trans h
    cases hvalue : m.heap.getD slot .null with
    | uint32 n =>
      rw [hvalue] at hstep
      dsimp only at hstep
      split_ifs at hstep with hhalt
      · cases hstep
      obtain ⟨id, hid, haddress⟩ := (hresolved slot n hsees hvalue).resolve_left hhalt
      have haddress' := haddress
      rw [hm.program] at haddress'
      obtain ⟨rfl, target, htarget, htrails⟩ := haim hm haddress' (some_map_eq_ok hstep)
      exact ⟨target, .jumpIndirect hsees hvalue hhalt (by rw [hm.program]; exact htarget) haddress,
        htrails⟩
    | _ =>
      rw [hvalue] at hstep
      cases hstep
  | jumpMethod name =>
    have hstep := (step_jumpMethod hcode).symm.trans h
    cases haddress : m.program.methodAddress? name with
    | none =>
      rw [haddress] at hstep
      cases hstep
    | some b =>
      rw [haddress] at hstep
      obtain ⟨callee, hcallee, hrest⟩ := Option.bind_eq_some_iff.mp haddress
      obtain ⟨first, hfirst, hb⟩ := Option.bind_eq_some_iff.mp hrest
      rw [hm.program] at hb
      obtain ⟨rfl, target, htarget, htrails⟩ := haim hm hb (some_map_eq_ok hstep)
      exact ⟨target, .jumpMethod hsees hcallee hfirst (by rw [hm.program]; exact htarget), htrails⟩

/-! ## Whole executions -/

/-- The machine catches up with a direct execution, and then it takes the step that this takes. -/
lemma Direct.traces (h : Direct y d) (hbefore : Traces Next x trace (i, y.2))
    (htrails : Trails y.2 i y.1) (hx : x.2.Holds q) (hlaid : q.Laid) (hended : q.Ended) :
    Traces Next x trace y ∧ ∃ j, Next y (j, d.2) ∧ Trails d.2 j d.1 := by
  have hy : Traces Next x trace y := htrails.traces hbefore
  exact ⟨hy, h.next_of_holds (hx.reaches hy.reaches) hlaid hended⟩

/-- A direct execution is one of the machine. -/
lemma Traces.next_of_direct (h : Traces Direct x trace d) (hx : x.2.Holds q) (hlaid : q.Laid)
    (hended : q.Ended) : ∃ i, Traces Next x trace (i, d.2) ∧ Trails d.2 i d.1 := by
  induction h with
  | refl => exact ⟨x.1, .refl, .refl _ _⟩
  | label _ sees next ih =>
    obtain ⟨i, hbefore, htrails⟩ := ih
    obtain ⟨hy, j, hnext, htrails'⟩ := next.traces hbefore htrails hx hlaid hended
    exact ⟨j, .label hy sees hnext, htrails'⟩
  | work _ sees next ih =>
    obtain ⟨i, hbefore, htrails⟩ := ih
    obtain ⟨hy, j, hnext, htrails'⟩ := next.traces hbefore htrails hx hlaid hended
    exact ⟨j, .work hy sees hnext, htrails'⟩

/-- A run of the machine is a direct execution, if every address that it jumps through is that of an
instruction. -/
lemma Traces.direct_of_next (h : Traces Next x trace y) (hx : x.2.Holds q) (hq : q.Linked)
    (hresolved : ∀ z, Reaches x z → Resolved z) :
    ∃ j, Traces Direct x trace (j, y.2) ∧ Trails y.2 y.1 j := by
  induction h with
  | refl => exact ⟨x.1, .refl, .refl _ _⟩
  | @label _ y z before sees next ih =>
    obtain ⟨j, hdirect, htrails⟩ := ih
    have hy := before.reaches
    rcases Nat.eq_or_lt_of_le htrails.le with rfl | hlt
    · obtain ⟨target, hstep, htrails'⟩ := Next.direct next (hx.reaches hy) hq (hresolved y hy)
      exact ⟨target, .label hdirect sees hstep, htrails'⟩
    · -- the direct execution is already behind this label
      obtain ⟨a, hcode⟩ := sees
      obtain ⟨hz, hm⟩ := EStateM.Result.ok.inj ((step_nop hcode).symm.trans next)
      obtain ⟨position, m⟩ := z
      obtain rfl : y.2 = m := hm
      obtain rfl : y.1 + 1 = position := Option.some.inj hz
      exact ⟨j, hdirect, hlt, fun n hn => htrails.labels n (Nat.le_of_succ_le hn)⟩
  | @work _ y z before sees next ih =>
    obtain ⟨j, hdirect, htrails⟩ := ih
    have hy := before.reaches
    obtain rfl := htrails.eq sees
    obtain ⟨target, hstep, htrails'⟩ := Next.direct next (hx.reaches hy) hq (hresolved y hy)
    exact ⟨target, .work hdirect sees hstep, htrails'⟩

/-- Where the run stops, by halting or by a fault, is not in front of a label. -/
lemma not_sees_nop {r : EStateM.Result Fault Machine (Option Nat)} (h : step y.1 y.2 = r)
    (hr : ∀ next m, r ≠ .ok (some next) m) : ¬ Sees y .nop := by
  rintro ⟨a, hcode⟩
  exact hr _ _ (h.symm.trans (step_nop hcode))

end Run

namespace Program

open Run

/-- In a machine with a linked program, the address of a placed instruction leads to the instruction
or to labels of its method in front of it. Every direct execution is one of the machine, and the other
way round if the machine jumps through resolved addresses only: the same instructions run at the same
positions, apart from labels, up to the same machine. Both halt or fail alike. -/
theorem addresses_lead_to_instructions {q : Program} (hq : q.Linked) {m : Machine} (hm : m.Holds q) :
    (∀ (j : Nat) (id : InstrId), q.placed[j]? = some id →
      ∃ a i k, q.address? id = some a ∧ m.code[j]? = some (a, q.instr id) ∧
        locate a m = .ok i m ∧ Trails m i j ∧
        k < q.methods.size ∧ q.start k ≤ i ∧ j < q.start (k + 1)) ∧
    (∀ (position : Nat) (trace : List Nat) (d : Nat × Machine), Traces Direct (position, m) trace d →
      ∃ i, Traces Next (position, m) trace (i, d.2) ∧ Trails d.2 i d.1) ∧
    (∀ (position : Nat), (∀ z, Reaches (position, m) z → Resolved z) →
      (∀ (trace : List Nat) (y : Nat × Machine), Traces Next (position, m) trace y →
        ∃ j, Traces Direct (position, m) trace (j, y.2) ∧ Trails y.2 y.1 j) ∧
      ∀ (trace : List Nat) (r : EStateM.Result Fault Machine (Option Nat)),
        (∀ next n, r ≠ .ok (some next) n) →
        ((∃ y, Traces Next (position, m) trace y ∧ step y.1 y.2 = r) ↔
          ∃ d, Traces Direct (position, m) trace d ∧ step d.1 d.2 = r)) := by
  obtain ⟨hlaid, hended, -⟩ := hq.laid
  refine ⟨fun j id hj => ?_, fun position trace d hd => hd.next_of_direct hm hlaid hended,
    fun position hresolved => ⟨fun trace y hy => hy.direct_of_next hm hq hresolved,
      fun trace r hr => ⟨?_, ?_⟩⟩⟩
  · obtain ⟨i, k, hlocate, htrails, hk⟩ := hm.locate_placed hlaid hended hj
    exact ⟨q.offset j, i, k, hlaid j id hj, hm.getElem? hlaid hj, hlocate, htrails, hk⟩
  · rintro ⟨y, hy, hstep⟩
    obtain ⟨j, hdirect, htrails⟩ := hy.direct_of_next hm hq hresolved
    obtain rfl := htrails.eq (not_sees_nop hstep hr)
    exact ⟨y, hdirect, hstep⟩
  · rintro ⟨d, hd, hstep⟩
    obtain ⟨i, hnext, htrails⟩ := hd.next_of_direct hm hlaid hended
    exact ⟨d, htrails.traces hnext, hstep⟩

/-- A method that goes on through an address, at the second of two labels. -/
theorem addresses_lead_to_instructions_of_return : ∃ (q : Program) (m : Machine), q.Linked ∧ m.Holds q ∧
    (∀ z, Reaches (0, m) z → Resolved z) ∧ locate 8 m = .ok 1 m ∧ Trails m 1 2 ∧
    ∃ d, Traces Direct (0, m) [0] d ∧ step d.1 d.2 = .ok none m := by
  let p : Program :=
    { slots := (({} : SlotTable).constant .uint32 (.address (.instruction 2))).2
      instrs := #[.jumpIndirect 0, .nop, .nop]
      methods := #[{ name := "_start", kind := .entry, body := #[0, 1, 2] }] }
  have hlink : ((p.link {}).toOption.any fun q =>
      decide ((Machine.ofProgram q).code =
          #[(0, .jumpIndirect 0), (8, .nop), (8, .nop), (8, .halt)] ∧
        (Machine.ofProgram q).heap.getD 0 .null = .uint32 8 ∧ q.placed[2]? = some 2 ∧
          q.address? 2 = some 8)) = true := by
    decide +kernel
  obtain ⟨q, hq, hlink⟩ := exists_ok_of_any hlink
  obtain ⟨hcode, hheap, hplaced, haddress⟩ := of_decide_eq_true hlink
  generalize hm' : Machine.ofProgram q = m at hcode hheap
  have hlinked : q.Linked := ⟨p, {}, rfl, by decide, hq⟩
  have hm : m.Holds q := ⟨by rw [← hm']; rfl, by rw [hm']⟩
  obtain ⟨haddresses, -, hruns⟩ := addresses_lead_to_instructions hlinked hm
  have hlocate : locate 8 m = .ok 1 m := by
    have hfind : Array.findIdx? (fun entry : Nat × Instr => decide (8 ≤ entry.1))
        #[(0, .jumpIndirect 0), (8, .nop), (8, .nop), (8, .halt)] = some 1 := by decide +kernel
    simp only [locate, get_bind, hcode, hfind]
    rfl
  have hjump : Next (0, m) (1, m) := by
    have hfirst : m.code[0]? = some (0, .jumpIndirect 0) := by simp [hcode]
    refine (step_jumpIndirect hfirst).trans ?_
    rw [hheap]
    exact some_map_of_ok hlocate
  have hlabel : Next (1, m) (2, m) := step_nop (a := 8) (by simp [hcode])
  have hlabel' : Next (2, m) (3, m) := step_nop (a := 8) (by simp [hcode])
  have hhalt : step 3 m = .ok none m := step_halt (a := 8) (by simp [hcode])
  have hsees : ∀ {position : Nat} {i : Instr}, Sees (position, m) i →
      (i = .jumpIndirect 0 ∧ position = 0) ∨ (i = .nop ∧ (position = 1 ∨ position = 2)) ∨
        (i = .halt ∧ position = 3) := by
    rintro position i ⟨a, ha⟩
    rw [hcode] at ha
    rcases position with _ | _ | _ | _ | position
    all_goals simp at ha
    all_goals simp [← ha.2]
  have hsame : ∀ z, Reaches (0, m) z → z.2 = m := by
    intro z hz
    induction hz with
    | refl => rfl
    | @tail y z _ hnext ih =>
      obtain ⟨position, n⟩ := y
      obtain rfl : n = m := ih
      obtain ⟨i, hi⟩ := hnext.sees
      obtain ⟨-, rfl⟩ | ⟨-, rfl | rfl⟩ | ⟨-, rfl⟩ := hsees hi
      · exact (EStateM.Result.ok.inj (hnext.symm.trans hjump)).2
      · exact (EStateM.Result.ok.inj (hnext.symm.trans hlabel)).2
      · exact (EStateM.Result.ok.inj (hnext.symm.trans hlabel')).2
      · cases hnext.symm.trans hhalt
  have hresolved : ∀ z, Reaches (0, m) z → Resolved z := by
    rintro ⟨position, n⟩ hz slot value hsees' hvalue
    obtain rfl : n = m := hsame _ hz
    obtain ⟨hslot, -⟩ | ⟨hno, -⟩ | ⟨hno, -⟩ := hsees hsees'
    · obtain rfl := Instr.jumpIndirect.inj hslot
      obtain rfl := Value.uint32.inj (hvalue.symm.trans hheap)
      refine .inr ⟨2, ?_, ?_⟩
      · rw [hm.program]
        exact List.mem_of_getElem? hplaced
      · rw [hm.program]
        exact haddress
    · cases hno
    · cases hno
  obtain ⟨a, i, k, ha, -, hi, htrails, -⟩ := haddresses 2 2 hplaced
  obtain rfl := Option.some.inj (haddress.symm.trans ha)
  obtain ⟨rfl, -⟩ := EStateM.Result.ok.inj (hi.symm.trans hlocate)
  refine ⟨q, m, hlinked, hm, hresolved, hlocate, htrails, ?_⟩
  apply ((hruns 0 hresolved).2 [0] (.ok none m) (by simp)).mp
  have hwork : Traces Next (0, m) [0] (1, m) :=
    .work .refl (fun h => by simpa using hsees h) hjump
  have hbehind := hwork.label ⟨8, by simp [hcode]⟩ hlabel
  exact ⟨(3, m), hbehind.label ⟨8, by simp [hcode]⟩ hlabel', hhalt⟩

end Program

end TriggerCompiler
