import Mathlib
import TriggerCompiler.Proofs.CallGraph
import TriggerCompiler.Proofs.DirectJumps

/-!
# Calls and returns

A call copies the address of the label behind it into the return slot of the method that it enters, and
the method leaves by a jump through that slot. There is no stack of return addresses, so that a slot
must not be written again before the method has returned. It is not: the methods of a chain of calls
are different, and they have different return slots. Main statement: in every run, a method that was
entered by a call goes on at the label behind that call.
-/

namespace TriggerCompiler

variable {slot : SlotId} {name : String}

open Program

/-! ## The calls of a run -/

namespace Run

variable {x y z : Nat × Machine} {done pending : List Nat}

/-- A run comes to a position. The calls that have returned are listed in that order, and those that have
not with the last one first, by the positions that they were made at. -/
inductive Nests (x : Nat × Machine) : List Nat → List Nat → Nat × Machine → Prop where
  | start : Nests x [] [] x
  | call {done pending : List Nat} {y z : Nat × Machine} {name : String}
      (before : Nests x done pending y) (sees : Sees y (.jumpMethod name)) (next : Next y z) :
      Nests x done (y.1 :: pending) z
  | back {done pending : List Nat} {y z : Nat × Machine} {slot : SlotId}
      (before : Nests x done pending y) (sees : Sees y (.jumpIndirect slot)) (next : Next y z) :
      Nests x (done ++ pending.take 1) pending.tail z
  | other {done pending : List Nat} {y z : Nat × Machine} {i : Instr}
      (before : Nests x done pending y) (sees : Sees y i) (noCall : ∀ name, i ≠ .jumpMethod name)
      (noReturn : ∀ slot, i ≠ .jumpIndirect slot) (next : Next y z) : Nests x done pending z

lemma Nests.exists_next (h : Nests x done pending y) (hnext : Next y z) :
    ∃ done' pending', Nests x done' pending' z := by
  obtain ⟨i, hi⟩ := hnext.sees
  by_cases hcall : ∃ name, i = .jumpMethod name
  · obtain ⟨name, rfl⟩ := hcall
    exact ⟨_, _, h.call hi hnext⟩
  by_cases hback : ∃ slot, i = .jumpIndirect slot
  · obtain ⟨slot, rfl⟩ := hback
    exact ⟨_, _, h.back hi hnext⟩
  · push Not at hcall hback
    exact ⟨_, _, h.other hi hcall hback hnext⟩

/-- All that a run comes to is covered. -/
lemma reaches_iff_nests : Reaches x y ↔ ∃ done pending, Nests x done pending y := by
  constructor
  · intro h
    induction h with
    | refl => exact ⟨_, _, .start⟩
    | tail _ hnext ih =>
      obtain ⟨done, pending, h⟩ := ih
      exact h.exists_next hnext
  · rintro ⟨done, pending, h⟩
    induction h with
    | start => exact .refl
    | call _ _ next ih => exact ih.tail next
    | back _ _ next ih => exact ih.tail next
    | other _ _ _ _ next ih => exact ih.tail next

end Run

/-! ## Calls that have not returned -/

namespace Program

variable {q : Program} {k j : MethodId} {site : Nat}

lemma name_of_findMethod? (h : q.findMethod? name = some k) : (q.method k).name = name := by
  obtain ⟨hlt, hname, -⟩ := Array.findIdx?_eq_some_iff_getElem.mp h
  simpa [method, Array.getD_eq_getD_getElem?, hlt] using hname

/-- The name stands for a method that returns, and where it returns to is the position behind the
site. -/
structure Enters (q : Program) (m : Machine) (site : Nat) (name : String) (k : MethodId)
    (slot : SlotId) : Prop where
  found : q.findMethod? name = some k
  epilogue : (q.method k).epilogue = .indirect slot
  held : m.heap.getD slot .null = .uint32 (UInt32.ofNat (q.offset (site + 1)))

/-- The methods that calls have entered and that have not returned, down to the one at hand, hold the
addresses behind the calls. What is known of the method at the bottom is a parameter. -/
inductive Awaits (q : Program) (bottom : MethodId → Prop) (m : Machine) :
    List Nat → MethodId → Prop where
  | nil {k : MethodId} (holds : bottom k) : Awaits q bottom m [] k
  | cons {site : Nat} {pending : List Nat} {k k' : MethodId} {before after : List Line}
      {name : String} {back : InstrId} {slot : SlotId} (rest : Awaits q bottom m pending k)
      (place : q.At k before (.code (.jumpMethod name)) (.label back :: after) site)
      (enters : q.Enters m site name k' slot) : Awaits q bottom m (site :: pending) k'

lemma At.invokes {before after : List Line}
    (h : q.At k before (.code (.jumpMethod name)) after site) : q.Invokes k name := by
  unfold Invokes
  rw [h.lines]
  simp

lemma Enters.called {m : Machine} (h : q.Enters m site name j slot) (hk : k < q.methods.size)
    (hcall : q.Invokes k name) :
    q.Called (q.method j).name (q.method k).name :=
  ⟨k, hk, rfl, (name_of_findMethod? h.found).symm ▸ hcall⟩

/-- Only the return slots of the methods on the way up matter. -/
lemma Awaits.mono {bottom : MethodId → Prop} {m m' : Machine} {pending : List Nat}
    (h : q.Awaits bottom m pending k)
    (hheap : ∀ j < q.methods.size, ∀ slot, (q.method j).epilogue = .indirect slot →
      Relation.ReflTransGen q.Called (q.method k).name (q.method j).name →
        m'.heap.getD slot .null = m.heap.getD slot .null) : q.Awaits bottom m' pending k := by
  induction h with
  | nil hbottom => exact .nil hbottom
  | @cons site pending k k' before after name back slot rest place enters ih =>
    have hk' := lt_of_findMethod? enters.found
    refine .cons (ih fun j hj slot' hslot' hup => ?_) place
      ⟨enters.found, enters.epilogue, (hheap k' hk' slot enters.epilogue .refl).trans enters.held⟩
    exact hheap j hj slot' hslot' (hup.head (enters.called place.lt place.invokes))

end Program

/-! ## Steps -/

/-- A line of a method in its place. -/
structure Spot where
  method : MethodId
  before : List Line
  line : Line
  after : List Line
  position : Nat

/-- A machine in the middle of a run, with the calls that have not returned. If it is at a call, then the
method that is called has its return address. -/
structure Program.Nested (R : Rules) (f q : Program) (base : List SlotId) (bottom : MethodId → Prop)
    (pending : List Nat) (a : Spot) (c : Nat × Machine) : Prop where
  intact : c.2.Intact R f q
  position : c.1 = a.position
  place : q.At a.method a.before a.line a.after a.position
  stack : c.2.stack = held a.before ++ base
  awaits : q.Awaits bottom c.2 pending a.method
  ready : ∀ name, a.line = .code (.jumpMethod name) →
    ∃ k slot, q.Enters c.2 a.position name k slot

/-- Where a step leads. -/
inductive Program.Shift (q : Program) (pending : List Nat) (a : Spot) : List Nat → Spot → Prop where
  | on {y : Line} {rest : List Line} (after_eq : a.after = y :: rest) (falls : a.line.instr.GoesOn) :
      Shift q pending a pending ⟨a.method, a.before ++ [a.line], y, rest, a.position + 1⟩
  | label {l l' : InstrId} {before after : List Line} {i : Nat}
      (target : a.line.instr.labelTarget = some l) :
      Shift q pending a pending ⟨a.method, before, .label l', after, i⟩
  | enter {name : String} {k : MethodId} {y : Line} {rest : List Line}
      (line : a.line = .code (.jumpMethod name)) (found : q.findMethod? name = some k) :
      Shift q pending a (a.position :: pending) ⟨k, [], y, rest, q.start k⟩
  | back {slot : SlotId} {site : Nat} {sites : List Nat} {k : MethodId} {before after : List Line}
      {name : String} {l : InstrId} (line : a.line = .code (.jumpIndirect slot))
      (pending_eq : pending = site :: sites) (found : q.findMethod? name = some a.method) :
      Shift q pending a sites
        ⟨k, before ++ [.code (.jumpMethod name)], .label l, after, site + 1⟩
  /-- The method that the run began with is left by a return. -/
  | leave {slot : SlotId} {k : MethodId} {before after : List Line} {l : InstrId} {i : Nat}
      (line : a.line = .code (.jumpIndirect slot)) (pending_eq : pending = []) :
      Shift q pending a [] ⟨k, before, .label l, after, i⟩

section

variable {R : Rules} {f q : Program} {base : List SlotId} {bottom : MethodId → Prop}
  {pending : List Nat} {a : Spot} {c d : Nat × Machine} {k : MethodId} {before after : List Line}
  {x : Line} {position : Nat} {m m' : Machine} {next : Option Nat}

/-- The method of a name that returns through a slot is the one that is found. -/
lemma Program.Ready.entered (h : Ready R f q) (hq : q.Layered) (hcallee : f.Callee name slot) :
    ∃ k, q.findMethod? name = some k ∧ (q.method k).epilogue = .indirect slot := by
  obtain ⟨y, hy, rfl, hslot⟩ := hcallee
  obtain ⟨j, hj, rfl⟩ := exists_method_of_mem hy
  rw [← h.method] at hslot ⊢
  rw [← h.methods] at hj
  have hsome : (q.findMethod? (q.method j).name).isSome = true :=
    (q.findMethod?_isSome_iff _).mpr (List.mem_map_of_mem (method_mem hj))
  obtain ⟨k, hk⟩ := Option.isSome_iff_exists.mp hsome
  obtain rfl := eq_of_name hq.names (lt_of_findMethod? hk) hj (name_of_findMethod? hk)
  exact ⟨k, hk, hslot⟩

lemma Program.Ready.returns (h : Ready R f q) {j : MethodId} (hj : j < q.methods.size)
    (hslot : (q.method j).epilogue = .indirect slot) : f.Returns slot :=
  ⟨f.method j, method_mem (h.methods ▸ hj), h.method j ▸ hslot⟩

section

variable (hmoves : Moves R f q k before x after position m base next m') (h : Ready R f q)
  (hq : q.Layered)
include hmoves h hq

/-- A step leaves the return slots of the methods on the way up alone. -/
lemma Moves.awaits (hat : q.At k before x after position) (hawaits : q.Awaits bottom m pending k) :
    q.Awaits bottom m' pending k := by
  refine hawaits.mono fun j hj slot hslot hup => ?_
  by_cases hwrites : x.instr.Writes
  swap
  · rw [hmoves.keeps hwrites]
  obtain ⟨target, value, -, hheap, hstores⟩ := hmoves.writes hwrites
  rw [hheap, Machine.getD_modify, if_neg]
  rintro ⟨rfl, -⟩
  cases hstores with
  | plain clean _ => exact clean.returns (h.returns hj hslot)
  | watched fits _ => exact (fits.clean _ (by simp)).returns (h.returns hj hslot)
  | @address name _ back rest n callee after_eq number =>
    -- the method that is called next is on the way up, so that calls go round in a circle
    obtain ⟨k', hk', hslot'⟩ := h.entered hq callee
    obtain rfl := hq.returns j hj k' (lt_of_findMethod? hk') _ hslot hslot'
    have hcalled : q.Called (q.method j).name (q.method k).name := by
      rw [after_eq] at hat
      exact ⟨k, hat.lt, rfl, (name_of_findMethod? hk').symm ▸ hat.next.invokes⟩
    exact (WellFounded.irrefl hq.calls.transGen).irrefl _ (Relation.TransGen.head' hcalled hup)

/-- Right before a call, the address behind it is put into the return slot. -/
lemma Moves.enters (hm : m.Intact R f q) {rest : List Line}
    (hat : q.At k before x (.code (.jumpMethod name) :: rest) position)
    (hafter : after = .code (.jumpMethod name) :: rest) :
    ∃ k' slot, q.Enters m' (position + 1) name k' slot := by
  obtain ⟨-, code, address, slot, back, rest', -, hcallee, hbefore, hrest⟩ := h.proper hat.next
  have hsplit : before ++ [x] = (code ++ pushLines [address, slot]) ++ [.code .copy] := by
    rw [hbefore]
    simp [Lower.copyLines, pushLines]
  obtain ⟨rfl, hx⟩ := List.append_inj' hsplit rfl
  obtain rfl := (List.cons.inj hx).1
  obtain ⟨target, value, htarget, hheap, hstores⟩ := hmoves.writes trivial
  obtain rfl : slot = target := by
    rw [held_pushLines] at htarget
    exact Option.some.inj htarget
  obtain ⟨y, hy, hyname, hyslot⟩ := hcallee.1
  have hreturns : f.Returns slot := ⟨y, hy, hyslot⟩
  cases hstores with
  | plain clean _ => exact absurd hreturns clean.returns
  | watched fits _ => exact absurd hreturns (fits.clean _ (by simp)).returns
  | @address name' _ back' rest'' n callee after_eq number =>
    obtain ⟨k', hk', hslot'⟩ := h.entered hq hcallee.1
    refine ⟨k', slot, hk', hslot', ?_⟩
    rw [hafter] at after_eq
    obtain ⟨-, rfl⟩ := List.cons.inj after_eq
    obtain ⟨id, hid, hline⟩ := hat.next.next.placed
    obtain ⟨-, rfl⟩ := line_eq_label.mp hline
    obtain rfl : q.offset (position + 1 + 1) = n :=
      Option.some.inj ((h.laid _ _ hid).symm.trans number)
    have hlt : slot < m.heap.size := by
      rw [hm.size, h.slots]
      exact (h.tidy.returns slot hreturns).lt
    rw [hheap, Machine.getD_modify, if_pos ⟨rfl, hlt⟩]

end

namespace Program.Nested

section

variable (hc : Nested R f q base bottom pending a c) (h : Ready R f q)
include hc h

/-- The machine is at the instruction of its line. -/
lemma sees : Run.Sees c a.line.instr := by
  obtain ⟨n, hn⟩ := hc.intact.holds.code_at h.laid hc.place
  exact ⟨n, hc.position ▸ hn⟩

lemma line_of_sees {i : Instr} (hi : Run.Sees c i) (hne : i ≠ .nop) : a.line = .code i := by
  have hline := (hc.sees h).unique hi
  cases hx : a.line with
  | label l =>
    rw [hx] at hline
    exact absurd hline.symm hne
  | code i' =>
    rw [hx] at hline
    exact congrArg Line.code hline

/-- A method is left at its last line, and the last line is how its epilogue says. -/
lemma line_of_leaving (hafter : a.after = []) :
    a.line = .code (Epilogue.instr (q.method a.method).epilogue) := by
  obtain ⟨body, hlines⟩ := h.ends a.method (h.methods ▸ hc.place.lt)
  rw [← h.lines, hc.place.lines, hafter, ← h.method] at hlines
  exact (List.cons.inj (List.append_inj' hlines rfl).2).1

lemma epilogue_of_return (hline : a.line = .code (.jumpIndirect slot)) :
    a.after = [] ∧ (q.method a.method).epilogue = .indirect slot := by
  have hproper := h.proper hc.place
  rw [hline] at hproper
  have hlast := hc.line_of_leaving h hproper.2
  rw [hline] at hlast
  refine ⟨hproper.2, ?_⟩
  cases hepilogue : (q.method a.method).epilogue with
  | halt =>
    rw [hepilogue] at hlast
    cases hlast
  | indirect slot' =>
    rw [hepilogue] at hlast
    cases hlast
    rfl

/-- A call enters the method. -/
lemma step_call (hline : a.line = .code (.jumpMethod name)) :
    ∃ k slot, q.Enters c.2 a.position name k slot ∧ Run.Next c (q.start k, c.2) := by
  obtain ⟨k, slot, henters⟩ := hc.ready name hline
  refine ⟨k, slot, henters, ?_⟩
  obtain ⟨n, hcode⟩ := hc.sees h
  rw [hline] at hcode
  have hstep := Run.step_jumpMethod hcode
  rw [hc.intact.holds.program, methodAddress?_eq h.laid h.ended henters.found] at hstep
  refine hstep.trans (Run.some_map_of_ok ?_)
  exact (hc.intact.holds.locate_start h.laid h.ended (lt_of_findMethod? henters.found)).1

end

/-- A return from a call goes to the label behind it. -/
lemma step_return {site : Nat} {sites : List Nat}
    (hc : Nested R f q base bottom (site :: sites) a c) (h : Ready R f q) (hsize : q.size < 2 ^ 32)
    (hline : a.line = .code (.jumpIndirect slot)) :
    Run.Next c (site + 1, c.2) := by
  obtain ⟨-, hepilogue⟩ := hc.epilogue_of_return h hline
  cases hc.awaits with
  | @cons _ _ k _ before after name back slot' rest place enters =>
    obtain rfl := Epilogue.indirect.inj (hepilogue.symm.trans enters.epilogue)
    have hback := place.next
    have hlt := h.offset_label hback
    have hnat : (UInt32.ofNat (q.offset (site + 1))).toNat = q.offset (site + 1) := by
      rw [UInt32.toNat_ofNat']
      exact Nat.mod_eq_of_lt (by omega)
    have hne : UInt32.ofNat (q.offset (site + 1)) ≠ haltAddress := fun hhalt => by
      rw [hhalt] at hnat
      have hvalue : haltAddress.toNat = 4294967292 := rfl
      omega
    obtain ⟨n, hcode⟩ := hc.sees h
    rw [hline] at hcode
    have hstep := Run.step_jumpIndirect hcode
    rw [enters.held] at hstep
    simp only [if_neg hne] at hstep
    refine hstep.trans (Run.some_map_of_ok ?_)
    rw [hnat]
    exact hc.intact.holds.locate_behind h.laid hback (by simp)

section

variable (hc : Nested R f q base bottom pending a c) (h : Ready R f q) (hR : R.Takes)
include hc h hR

/-- What a step does is what it can do at the line. -/
lemma moves (hstep : Run.step c.1 c.2 = .ok next m') :
    Moves R f q a.method a.before a.line a.after a.position c.2 base next m' := by
  rw [hc.position] at hstep
  rcases h.step_moves hc.intact hR hc.place hc.stack with ⟨next', m₁, hok, hmoves⟩ | ⟨e, m₁, herror, -⟩
  · obtain ⟨rfl, rfl⟩ := EStateM.Result.ok.inj (hok.symm.trans hstep)
    exact hmoves
  · cases herror.symm.trans hstep

/-- What a step keeps, and where it leads. -/
lemma shift (hq : q.Layered) (hsize : q.size < 2 ^ 32)
    (hbottom : ∀ k slot, bottom k → (q.method k).epilogue = .indirect slot → ∀ k', bottom k')
    (hnext : Run.Next c d) :
    ∃ pending' b, q.Shift pending a pending' b ∧ Nested R f q base bottom pending' b d := by
  obtain ⟨hintact, -, hat, -, hawaits, hready⟩ := id hc
  have hmoves := hc.moves h hR hnext
  have hintact' := hmoves.intact h hat hsize hintact
  have hawaits' := hmoves.awaits h hq hat hawaits
  have hstack' := hmoves.stack
  have hgoes := hmoves.goes
  generalize hd : some d.1 = next at hgoes
  cases hgoes with
  | @on y rest after_eq falls =>
    rw [after_eq] at hat
    refine ⟨_, _, .on after_eq falls, hintact', Option.some.inj hd, hat.next, ?_, hawaits', ?_⟩
    · rw [held_concat]
      exact hstack'
    · rintro name rfl
      exact hmoves.enters h hq hintact hat after_eq
  | @label l l' before' after' i target place =>
    rw [h.leaves_eq_nil hat (Instr.isControlFlow_of_labelTarget target)] at hstack'
    refine ⟨_, _, .label target, hintact', Option.some.inj hd, place, ?_, hawaits', ?_⟩
    · rw [h.proper place]
      exact hstack'
    · intro name hname
      cases hname
  | @enter name k' line found =>
    rw [h.leaves_eq_nil hat (by rw [line]; rfl)] at hstack'
    obtain ⟨-, y, rest, hfirst⟩ :=
      hmoves.holds.locate_start h.laid h.ended (lt_of_findMethod? found)
    obtain ⟨k, slot, henters⟩ := hready name line
    obtain rfl : k' = k := Option.some.inj (found.symm.trans henters.found)
    rw [line] at hat
    obtain ⟨-, code, address, slot', back, rest', -, -, -, hafter⟩ := h.proper hat
    rw [hafter] at hat
    have hheap : d.2.heap = c.2.heap := hmoves.keeps (by rw [line]; exact not_false)
    refine ⟨_, _, .enter line found, hintact', Option.some.inj hd, hfirst, hstack', ?_, ?_⟩
    · exact .cons hawaits' hat ⟨henters.found, henters.epilogue, hheap ▸ henters.held⟩
    · rintro name' rfl
      obtain ⟨-, code, address, slot', back, rest', -, -, hbefore, -⟩ := h.proper hfirst
      simp [Lower.copyLines] at hbefore
  | @back slot n k' before' after' name l i line value number place =>
    rw [h.leaves_eq_nil hat (by rw [line]; rfl)] at hstack'
    have hheap : d.2.heap = c.2.heap := hmoves.keeps (by rw [line]; exact not_false)
    cases hpending : pending with
    | nil =>
      subst hpending
      obtain ⟨-, hepilogue⟩ := hc.epilogue_of_return h line
      cases hawaits with
      | nil holds =>
        refine ⟨_, _, .leave line rfl, hintact', Option.some.inj hd, place, ?_,
          .nil (hbottom _ slot holds hepilogue k'), ?_⟩
        · rw [h.proper place]
          exact hstack'
        · intro name' hname'
          cases hname'
    | cons site sites =>
      subst hpending
      have hback := hc.step_return h hsize line
      obtain ⟨hd', -⟩ := EStateM.Result.ok.inj (Eq.trans (Eq.symm hback) hnext)
      cases hawaits' with
      | @cons _ _ k _ before after name back slot' rest place' enters =>
        have hplace := place'.next
        refine ⟨_, _, .back line rfl enters.found, hintact', (Option.some.inj hd').symm, hplace,
          ?_, rest, ?_⟩
        · rw [h.proper hplace]
          exact hstack'
        · intro name' hname'
          cases hname'
  | halt line => cases hd

end

/-- A run begins with no calls. -/
lemma start (hm : m.Intact R f q) (h : Ready R f q) (hk : q.findMethod? name = some k)
    (hbottom : bottom k) :
    ∃ a, Nested R f q m.stack bottom [] a (q.start k, m) := by
  obtain ⟨-, x, after, hat⟩ := hm.holds.locate_start h.laid h.ended (lt_of_findMethod? hk)
  refine ⟨⟨k, [], x, after, q.start k⟩, hm, rfl, hat, rfl, .nil hbottom, ?_⟩
  rintro name rfl
  obtain ⟨-, code, address, slot, back, rest, -, -, hbefore, -⟩ := h.proper hat
  simp [Lower.copyLines] at hbefore

end Program.Nested

/-- The calls that return when the instruction is executed. -/
def Instr.returning (i : Instr) (pending : List Nat) : List Nat :=
  match i with
  | .jumpIndirect _ => pending.take 1
  | _ => []

lemma Instr.returning_of_ne {i : Instr} (h : ∀ slot, i ≠ .jumpIndirect slot) (pending : List Nat) :
    i.returning pending = [] := by
  cases i with
  | jumpIndirect slot => exact absurd rfl (h slot)
  | _ => rfl

/-- A step at a call adds to the calls that have not returned, and a return ends the last of them. -/
lemma Program.Shift.pending_cases {pending' : List Nat} {b : Spot} (h : q.Shift pending a pending' b) :
    (∃ name, a.line.instr = .jumpMethod name ∧ pending' = a.position :: pending) ∨
    (∃ slot, a.line.instr = .jumpIndirect slot ∧ pending' = pending.tail) ∨
    (∀ name, a.line.instr ≠ .jumpMethod name) ∧ (∀ slot, a.line.instr ≠ .jumpIndirect slot) ∧
      pending' = pending := by
  cases h with
  | on after_eq falls =>
    refine .inr (.inr ⟨fun name hname => ?_, fun slot hslot => ?_, rfl⟩)
    · rw [hname] at falls
      exact falls
    · rw [hslot] at falls
      exact falls
  | label target =>
    refine .inr (.inr ⟨fun name hname => ?_, fun slot hslot => ?_, rfl⟩)
    · rw [hname] at target
      cases target
    · rw [hslot] at target
      cases target
  | enter line found =>
    rw [line]
    exact .inl ⟨_, rfl, rfl⟩
  | back line pending_eq found =>
    rw [line, pending_eq]
    exact .inr (.inl ⟨_, rfl, rfl⟩)
  | leave line pending_eq =>
    rw [line, pending_eq]
    exact .inr (.inl ⟨_, rfl, rfl⟩)

/-- Wherever a run comes to, the calls that have not returned have their return addresses, and what holds
at the start of the run and is kept by every step holds there. -/
lemma Run.Nests.keeps {done : List Nat} {B : MethodId → Prop}
    {P : List Nat → List Nat → Spot → Nat × Machine → Prop} (hm : m.Intact R f q) (h : Ready R f q)
    (hR : R.Takes) (hq : q.Layered) (hsize : q.size < 2 ^ 32) (hk : q.findMethod? name = some k)
    (hstart : B k) (hbottom : ∀ k slot, B k → (q.method k).epilogue = .indirect slot → ∀ k', B k')
    (holds : ∀ a, Nested R f q m.stack B [] a (q.start k, m) → P [] [] a (q.start k, m))
    (hstep : ∀ {done pending pending' a b c d}, Nested R f q m.stack B pending a c →
      Nested R f q m.stack B pending' b d → q.Shift pending a pending' b → Next c d →
        P done pending a c → P (done ++ a.line.instr.returning pending) pending' b d)
    (hc : Nests (q.start k, m) done pending c) :
    ∃ a, Nested R f q m.stack B pending a c ∧ P done pending a c := by
  induction hc with
  | start =>
    obtain ⟨a, ha⟩ := Nested.start hm h hk hstart
    exact ⟨a, ha, holds a ha⟩
  | call _ sees next ih =>
    obtain ⟨a, ha, hP⟩ := ih
    obtain ⟨pending', b, hshift, hb⟩ := ha.shift h hR hq hsize hbottom next
    have hP' := hstep ha hb hshift next hP
    have hline := (ha.sees h).unique sees
    rw [hline, Instr.returning_of_ne (by simp), List.append_nil] at hP'
    obtain ⟨-, -, rfl⟩ | ⟨slot, hslot, -⟩ | ⟨hno, -⟩ := hshift.pending_cases
    · exact ⟨b, ha.position ▸ hb, ha.position ▸ hP'⟩
    · cases hline.symm.trans hslot
    · exact absurd hline (hno _)
  | back _ sees next ih =>
    obtain ⟨a, ha, hP⟩ := ih
    obtain ⟨pending', b, hshift, hb⟩ := ha.shift h hR hq hsize hbottom next
    have hP' := hstep ha hb hshift next hP
    have hline := (ha.sees h).unique sees
    rw [hline] at hP'
    obtain ⟨name, hname, -⟩ | ⟨-, -, rfl⟩ | ⟨-, hno, -⟩ := hshift.pending_cases
    · cases hline.symm.trans hname
    · exact ⟨b, hb, hP'⟩
    · exact absurd hline (hno _)
  | @other _ _ _ _ i _ sees noCall noReturn next ih =>
    obtain ⟨a, ha, hP⟩ := ih
    obtain ⟨pending', b, hshift, hb⟩ := ha.shift h hR hq hsize hbottom next
    have hP' := hstep ha hb hshift next hP
    have hline := (ha.sees h).unique sees
    rw [hline, Instr.returning_of_ne noReturn, List.append_nil] at hP'
    obtain ⟨name, hname, -⟩ | ⟨slot, hslot, -⟩ | ⟨-, -, rfl⟩ := hshift.pending_cases
    · exact absurd (hline.symm.trans hname) (noCall name)
    · exact absurd (hline.symm.trans hslot) (noReturn slot)
    · exact ⟨b, hb, hP'⟩

lemma Run.Nests.nested {done : List Nat} {B : MethodId → Prop} (hm : m.Intact R f q)
    (h : Ready R f q) (hR : R.Takes) (hq : q.Layered) (hsize : q.size < 2 ^ 32)
    (hk : q.findMethod? name = some k) (hstart : B k)
    (hbottom : ∀ k slot, B k → (q.method k).epilogue = .indirect slot → ∀ k', B k')
    (hc : Nests (q.start k, m) done pending c) :
    ∃ a, Nested R f q m.stack B pending a c := by
  obtain ⟨a, ha, -⟩ := hc.keeps (P := fun _ _ _ _ => True) hm h hR hq hsize hk hstart hbottom
    (fun _ _ => trivial) fun _ _ _ _ _ => trivial
  exact ⟨a, ha⟩

end

/-! ## Runs of compiled triggers -/

/-- The machine is in a method that the call at the site has entered. The method is left by its last
instruction only, and from there the machine goes on at the label behind the site. -/
structure Run.Invoked (q : Program) (site : Nat) (y : Nat × Machine) (name : String) (k : MethodId)
    (slot : SlotId) : Prop where
  call : Sees (site, y.2) (.jumpMethod name)
  label : Sees (site + 1, y.2) .nop
  found : q.findMethod? name = some k
  epilogue : (q.method k).epilogue = .indirect slot
  inside : q.start k ≤ y.1 ∧ y.1 < q.start (k + 1)
  stays : y.1 + 1 < q.start (k + 1) → ¬ Sees y .halt ∧ ∀ slot', ¬ Sees y (.jumpIndirect slot')
  returns : y.1 + 1 = q.start (k + 1) → Sees y (.jumpIndirect slot) ∧ Next y (site + 1, y.2)

section

variable {R : Rules} {f q : Program} {base : List SlotId} {bottom : MethodId → Prop} {a : Spot}
  {c : Nat × Machine}

/-- The last line of a method. -/
lemma Program.At.succ_eq_iff {k : MethodId} {before after : List Line} {x : Line} {position : Nat}
    (h : q.At k before x after position) : position + 1 = q.start (k + 1) ↔ after = [] := by
  have hlength := congrArg List.length h.lines
  unfold Program.lines at hlength
  simp only [List.length_map, List.length_append, List.length_cons] at hlength
  rw [start_succ h.lt, h.position, ← List.length_eq_zero_iff]
  omega

lemma Program.Nested.invoked {site : Nat} {sites : List Nat}
    (hc : Nested R f q base bottom (site :: sites) a c) (h : Ready R f q) (hsize : q.size < 2 ^ 32) :
    ∃ name k slot, Run.Invoked q site c name k slot := by
  have hawaits := hc.awaits
  generalize hk : a.method = k at hawaits
  cases hawaits with
  | @cons _ _ k₀ _ before after name back slot rest place enters =>
    have hat := hc.place
    rw [hk] at hat
    refine ⟨name, k, slot, ?_, ?_, enters.found, enters.epilogue, ?_, fun hlt => ?_, fun hlast => ?_⟩
    · exact hc.intact.holds.code_at h.laid place
    · exact hc.intact.holds.code_at h.laid place.next
    · rw [hc.position]
      exact ⟨by rw [hat.position]; exact Nat.le_add_right _ _, hat.lt_start_succ⟩
    · rw [hc.position] at hlt
      have hafter : a.after ≠ [] := fun hnil => absurd (hat.succ_eq_iff.mpr hnil) hlt.ne
      have hproper := h.proper hat
      refine ⟨fun hsees => hafter ?_, fun slot' hsees => hafter ?_⟩
      · rw [hc.line_of_sees h hsees (by simp)] at hproper
        exact hproper.2
      · exact (hc.epilogue_of_return h (hc.line_of_sees h hsees (by simp))).1
    · rw [hc.position] at hlast
      have hline := hc.line_of_leaving h (hat.succ_eq_iff.mp hlast)
      rw [hk, enters.epilogue] at hline
      refine ⟨?_, hc.step_return h hsize hline⟩
      have hsees := hc.sees h
      rw [hline] at hsees
      exact hsees

end

/-- In every run of a method of a compiled trigger, a call enters a method that returns. As long as calls
have not returned, the machine is in the method that the last of them has entered, and it leaves the
method for the label behind that call. A method that does not return to a caller is never left by a
return. -/
theorem calls_return_behind_their_sites {r : Registry} (hr : r.Grown fun _ => True)
    (options : CompileOptions) {t : Trigger} (ht : t.NoAddress) {c : CompiledTrigger}
    (h : compileTrigger ⟨r, options⟩ t = .ok c) (hsize : c.program.size < 2 ^ 32) {m : Machine}
    (hm : m.Session c.program) {name : String} {k : MethodId}
    (hk : c.program.findMethod? name = some k) :
    (∀ y, Run.Visits name m y ↔
      ∃ done pending, Run.Nests (c.program.start k, m) done pending y) ∧
    ∀ done pending y, Run.Nests (c.program.start k, m) done pending y →
      (∀ name', Run.Sees y (.jumpMethod name') → ∃ k' slot,
        c.program.findMethod? name' = some k' ∧ (c.program.method k').epilogue = .indirect slot ∧
          Run.Next y (c.program.start k', y.2)) ∧
      (∀ site sites, pending = site :: sites →
        ∃ name' k' slot, Run.Invoked c.program site y name' k' slot) ∧
      (pending = [] → (c.program.method k).epilogue = .halt →
        ∀ slot, ¬ Run.Sees y (.jumpIndirect slot)) := by
  obtain ⟨f, hready, -⟩ := compileTrigger_ready hr (fun hno : False => hno.elim) ht h
  have hlayered := compileTrigger_layered hr ht h
  obtain ⟨hintact, -⟩ := hm.intact hready Rules.builtin_takes hsize
  refine ⟨fun y => (hintact.visits_iff hready hk).trans Run.reaches_iff_nests,
    fun done pending y hy => ?_⟩
  -- if the method that the run began with does not return, then no method at the bottom does
  set bottom : MethodId → Prop := fun j =>
    (c.program.method k).epilogue = .halt → (c.program.method j).epilogue = .halt with hbottom
  obtain ⟨a, ha⟩ := hy.nested (B := bottom) hintact hready Rules.builtin_takes hlayered hsize hk
    (fun h => h) fun j slot hj hslot k' hhalt => by
      rw [hj hhalt] at hslot
      cases hslot
  refine ⟨fun name' hsees => ?_, ?_, ?_⟩
  · obtain ⟨k', slot, henters, hnext⟩ :=
      ha.step_call hready (ha.line_of_sees hready hsees (by simp))
    exact ⟨k', slot, henters.found, henters.epilogue, hnext⟩
  · rintro site sites rfl
    exact ha.invoked hready hsize
  · rintro rfl hhalt slot hsees
    obtain ⟨-, hepilogue⟩ :=
      ha.epilogue_of_return hready (ha.line_of_sees hready hsees (by simp))
    cases ha.awaits with
    | nil holds =>
      rw [holds hhalt] at hepilogue
      cases hepilogue

/-- An event that calls an action of a group, which calls an action of another group. Each goes on where
it left off. -/
theorem calls_return_behind_their_sites_nested :
    ∃ (r : Registry) (c : CompiledTrigger) (k : MethodId) (m' : Machine), r.Grown (fun _ => True) ∧
      compileTrigger ⟨r, {}⟩
        { events := [{ name := "start", entry := { id := "Start" },
                       actions := [{ id := "outer", group := some "a" },
                                   { id := "Log", inputs := [.constant (.int32 3)] }] }] } = .ok c ∧
      c.program.findMethod? "_start" = some k ∧
      Run.method "_start" (Machine.ofProgram c.program) = .ok () m' ∧
      m'.effects.log = #[.int32 1, .int32 2, .int32 3] ∧
      ∀ done pending y, Run.Nests (c.program.start k, Machine.ofProgram c.program) done pending y →
        ∀ site sites, pending = site :: sites →
          ∃ name' k' slot, Run.Invoked c.program site y name' k' slot := by
  set inner : ActionGroup :=
    { guid := "b", name := "B",
      actions := [{ name := "inner", actions := [{ id := "Log", inputs := [.constant (.int32 1)] }] }] }
    with hinner
  set outer : ActionGroup :=
    { guid := "a", name := "A",
      actions := [{ name := "outer",
                    actions := [{ id := "inner", group := some "b" },
                                { id := "Log", inputs := [.constant (.int32 2)] }] }] }
    with houter
  set t : Trigger := { events := [_] } with ht
  have hruns : ((compileGroup ⟨Registry.builtin, {}⟩ inner).toOption.any fun b =>
      (compileGroup ⟨Registry.builtin.addGroup b.1, {}⟩ outer).toOption.any fun a =>
        (compileTrigger ⟨(Registry.builtin.addGroup b.1).addGroup a.1, {}⟩ t).toOption.any fun c =>
          (outcome? (Run.method "_start" (Machine.ofProgram c.program))).any fun r =>
            decide (c.program.size < 2 ^ 32 ∧ (c.program.findMethod? "_start").isSome = true ∧
              r.2.effects.log = #[.int32 1, .int32 2, .int32 3])) = true := by
    decide +kernel
  obtain ⟨b, hb, hruns⟩ := exists_ok_of_any hruns
  obtain ⟨a, ha, hruns⟩ := exists_ok_of_any hruns
  obtain ⟨c, hc, hruns⟩ := exists_ok_of_any hruns
  obtain ⟨⟨⟩, m', hrun, hruns⟩ := exists_outcome_of_any hruns
  obtain ⟨hsize, hsome, hlog⟩ := of_decide_eq_true hruns
  obtain ⟨k, hk⟩ := Option.isSome_iff_exists.mp hsome
  have hgrown : ((Registry.builtin.addGroup b.1).addGroup a.1).Grown fun _ => True := by
    have hone : (Registry.builtin.addGroup b.1).Grown fun _ => True :=
      .group .builtin ⟨by simp [hinner], by simp [hinner, Action.NoAddress, Binding.holdsAddress]⟩
        trivial hb .builtin
    exact .group hone ⟨by simp [houter], by simp [houter, Action.NoAddress, Binding.holdsAddress]⟩
      trivial ha hone
  have hcalls := (calls_return_behind_their_sites hgrown {} (t := t)
    ⟨by simp [ht], by simp [ht, Action.NoAddress, Binding.holdsAddress]⟩ hc hsize .load hk).2
  exact ⟨_, c, k, m', hgrown, hc, hk, hrun, hlog, fun done pending y hy =>
    (hcalls done pending y hy).2.1⟩

end TriggerCompiler
