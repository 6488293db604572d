import Mathlib
import TriggerCompiler.Proofs.Linked

/-!
# What linking does to any program

The operations on programs can be used in any order, and not every program that they make can be
linked. Main statement: linking succeeds exactly if no position is placed twice and nothing that the
program refers to is missing, and then every body, every address and every slot is what it should be.

The proof has two halves. Finishing the methods is a fold, and each of its steps is an equation, so
that the positions in the finished bodies are those of the program, the labels of the ends and all
new positions. The checks that follow succeed exactly if they succeed for each member of a list.
-/

namespace TriggerCompiler

variable {i : Instr} {options : CompileOptions} {ms : List MethodId}

namespace Program

variable {p q f : Program} {m k : MethodId} {id l : InstrId}

/-! ## Programs under construction -/

/-- The instruction goes on at no position but those that the arena has. -/
def Knows (p : Program) (i : Instr) : Prop := ∀ t, i.labelTarget = some t → t < p.instrs.size

/-- The slots hold the address of no position but those that the arena has. -/
def KnowsSlots (p : Program) (table : SlotTable) : Prop :=
  ∀ x ∈ table.slots.toList, ∀ l, x.initial = some (.address (.instruction l)) → l < p.instrs.size

/-- A program that the operations on programs and on their slot tables make, in any order. Positions
are those that the program has handed out. -/
inductive Built : Program → Prop where
  | empty : Built {}
  /-- Operations on the slots leave all else alone, and little is asked of the table they leave. -/
  | slots {p : Program} {table : SlotTable} (built : Built p) (knows : p.KnowsSlots table) :
      Built { p with slots := table }
  | addMethod {p q : Program} {name : String} {kind : MethodKind} {m : MethodId} (built : Built p)
      (added : p.addMethod name kind = .ok (m, q)) : Built q
  | setEpilogue {p : Program} (built : Built p) (m : MethodId) (epilogue : Epilogue) :
      Built (p.setEpilogue m epilogue)
  | serialize {p : Program} (built : Built p) (m : MethodId) :
      Built (p.modifyMethod m fun x => { x with serializes := true })
  | emit {p : Program} {i : Instr} (built : Built p) (m : MethodId) (knows : p.Knows i) :
      Built (p.emit m i).2
  | newLabel {p : Program} (built : Built p) : Built p.newLabel.2
  /-- A position is placed, be it for the second time. -/
  | place {p : Program} {l : InstrId} (built : Built p) (m : MethodId) (known : l < p.instrs.size) :
      Built (p.place m l)
  | endLabel {p : Program} (built : Built p) (m : MethodId) : Built (p.endLabel m).2
  | insertBefore {p q : Program} {m : MethodId} {label : Option InstrId} {i : Instr} {id : InstrId}
      (built : Built p) (knows : p.Knows i)
      (inserted : p.insertBeforeLabel m label i = .ok (id, q)) : Built q
  | retarget {p : Program} {id target : InstrId} (built : Built p) (jumps : p.IsJump id)
      (known : target < p.instrs.size) : Built (p.setInstr id (.jump target))

/-- What all operations keep: a program refers to no position but those of its arena. -/
structure Grounded (p : Program) : Prop extends Rooted p where
  knows : ∀ id, p.Knows (p.instr id)
  slots : p.KnowsSlots p.slots

namespace Grounded

section

variable (h : p.Grounded)
include h

lemma alloc (hi : p.Knows i) : (p.alloc i).2.Grounded := by
  have hsize : (p.alloc i).2.instrs.size = p.instrs.size + 1 := by simp [Program.alloc]
  refine ⟨⟨h.unlinked, fun id hid => ?_, fun l hl => ?_⟩, fun id t ht => ?_, fun x hx l hl => ?_⟩
  all_goals rw [hsize]
  · exact Nat.lt_succ_of_lt (h.placed_lt id hid)
  · obtain ⟨hlt, hnop⟩ := h.ending l hl
    exact ⟨Nat.lt_succ_of_lt hlt, (instr_alloc_of_lt i hlt).trans hnop⟩
  · rw [instr_alloc] at ht
    split_ifs at ht
    · exact Nat.lt_succ_of_lt (hi t ht)
    · exact Nat.lt_succ_of_lt (h.knows id t ht)
  · exact Nat.lt_succ_of_lt (h.slots x hx l hl)

/-- A method is changed, and what is new in its body and at its end is in the arena. -/
lemma modifyMethod {g : Method → Method}
    (hbody : ∀ x, ∀ id ∈ (g x).body.toList, id ∈ x.body.toList ∨ id < p.instrs.size)
    (hend : ∀ x l, (g x).endLabel = some l →
      x.endLabel = some l ∨ l < p.instrs.size ∧ p.instr l = .nop) :
    (p.modifyMethod m g).Grounded where
  unlinked := h.unlinked
  placed_lt id hid := by
    obtain ⟨x, hx, hid⟩ := List.mem_flatMap.mp hid
    obtain ⟨y, hy, rfl | rfl⟩ := mem_modifyMethod hx
    · exact h.placed_lt id (List.mem_flatMap.mpr ⟨x, hy, hid⟩)
    · refine (hbody y id hid).elim (fun hid => ?_) fun hlt => hlt
      exact h.placed_lt id (List.mem_flatMap.mpr ⟨y, hy, hid⟩)
  ending l hl := by
    obtain ⟨x, hx, hl⟩ := List.mem_filterMap.mp hl
    obtain ⟨y, hy, rfl | rfl⟩ := mem_modifyMethod hx
    · exact h.ending l (List.mem_filterMap.mpr ⟨x, hy, hl⟩)
    · refine (hend y l hl).elim (fun hl => ?_) fun hnew => hnew
      exact h.ending l (List.mem_filterMap.mpr ⟨y, hy, hl⟩)
  knows := h.knows
  slots := h.slots

lemma emit (m : MethodId) (hi : p.Knows i) : (p.emit m i).2.Grounded := by
  refine (h.alloc hi).modifyMethod (fun x id hid => ?_) fun x l hl => .inl hl
  simp only [Array.toList_push, List.mem_append, List.mem_singleton] at hid
  refine hid.imp (fun hid => hid) ?_
  rintro rfl
  simp [Program.alloc]

lemma place (hl : l < p.instrs.size) : (p.place m l).Grounded := by
  refine h.modifyMethod (fun x id hid => ?_) fun x l hl => .inl hl
  simp only [Array.toList_push, List.mem_append, List.mem_singleton] at hid
  exact hid.imp (fun hid => hid) fun hsame => by rwa [hsame]

lemma newLabel : p.newLabel.2.Grounded :=
  h.alloc fun t ht => by cases ht

lemma endLabel (m : MethodId) : (p.endLabel m).2.Grounded := by
  unfold Program.endLabel
  split
  · exact h
  · refine h.newLabel.modifyMethod (fun x id hid => .inl hid) fun x l hl => .inr ?_
    obtain rfl : p.instrs.size = l := Option.some.inj hl
    exact ⟨by simp [Program.newLabel, Program.alloc], (instr_alloc p .nop _).trans (if_pos rfl)⟩

lemma insertBefore {label : Option InstrId} (hi : p.Knows i)
    (hinsert : p.insertBeforeLabel m label i = .ok (id, q)) : q.Grounded := by
  unfold insertBeforeLabel at hinsert
  split_ifs at hinsert
  obtain ⟨-, rfl⟩ := Prod.mk.inj (Except.ok.inj hinsert)
  refine (h.alloc hi).modifyMethod (fun x id hid => ?_) fun x l hl => .inl hl
  simp only [Array.toList_append, Array.toList_push, Array.toList_pop, List.mem_append,
    List.mem_singleton, Option.toList_toArray] at hid
  rcases hid with (hid | rfl) | hid
  · exact .inl (List.mem_of_mem_dropLast hid)
  · exact .inr (by simp [Program.alloc])
  · refine .inl ?_
    rw [Option.mem_toList, Array.back?_eq_getElem?] at hid
    exact Array.mem_toList_iff.mpr (Array.mem_of_getElem? hid)

lemma retarget (hjump : p.IsJump id) {target : InstrId} (hlt : target < p.instrs.size) :
    (p.setInstr id (.jump target)).Grounded := by
  have hsize : (p.setInstr id (.jump target)).instrs.size = p.instrs.size := by
    simp [setInstr]
  have hinstr := instr_setInstr p id (.jump target)
  refine ⟨⟨h.unlinked, fun x hx => ?_, fun l hl => ?_⟩, fun x t ht => ?_, fun x hx l hl => ?_⟩
  all_goals rw [hsize]
  · exact h.placed_lt x hx
  · obtain ⟨hltl, hnop⟩ := h.ending l hl
    refine ⟨hltl, ?_⟩
    rw [hinstr, if_neg, hnop]
    rintro ⟨rfl, -⟩
    obtain ⟨x, hx⟩ := hjump
    rw [hnop] at hx
    cases hx
  · rw [hinstr] at ht
    split_ifs at ht
    · exact Option.some.inj ht ▸ hlt
    · exact h.knows x t ht
  · exact h.slots x hx l hl

end

end Grounded

lemma Built.grounded (h : p.Built) : p.Grounded := by
  induction h with
  | empty =>
    refine ⟨⟨rfl, by simp [placed], by simp [endLabels]⟩, fun id t ht => ?_, by simp [KnowsSlots]⟩
    rw [instr_eq_nop_of_le (Nat.zero_le id)] at ht
    cases ht
  | slots _ knows ih => exact ⟨⟨ih.unlinked, ih.placed_lt, ih.ending⟩, ih.knows, knows⟩
  | addMethod _ added ih =>
    unfold Program.addMethod at added
    split_ifs at added
    obtain ⟨-, rfl⟩ := Prod.mk.inj (Except.ok.inj added)
    exact ⟨⟨ih.unlinked, fun id hid => ih.placed_lt id (by simpa [placed] using hid),
      fun l hl => ih.ending l (by simpa [endLabels] using hl)⟩, ih.knows, ih.slots⟩
  | setEpilogue _ _ _ ih => exact ih.modifyMethod (fun _ _ hid => .inl hid) fun _ _ hl => .inl hl
  | serialize _ _ ih => exact ih.modifyMethod (fun _ _ hid => .inl hid) fun _ _ hl => .inl hl
  | emit _ m knows ih => exact ih.emit m knows
  | newLabel _ ih => exact ih.newLabel
  | place _ _ known ih => exact ih.place known
  | endLabel _ m ih => exact ih.endLabel m
  | insertBefore _ knows inserted ih => exact ih.insertBefore knows inserted
  | retarget _ jumps known ih => exact ih.retarget jumps known

lemma this_thisSlot (t : SlotTable) : t.thisSlot.2.this = some t.thisSlot.1 := by
  cases h : t.this with
  | some id => simp [SlotTable.thisSlot, h]
  | none => simp [SlotTable.thisSlot, SlotTable.push, h]

/-- A program is complete once its methods are finished exactly if it was consistent before. -/
lemma Closes.complete_iff (h : p.Closes options (List.range p.methods.size) q) (hp : p.Grounded) :
    q.Complete ↔ p.Consistent := by
  refine ⟨fun hq => ?_, h.complete hp.toRooted⟩
  obtain ⟨hslots, -⟩ := h.slots_get
  have hold : ∀ l < p.instrs.size, l ∈ q.placed → l ∈ p.placed ++ p.endLabels := fun l hl hmem =>
    (h.mem_placed.mp hmem).resolve_right fun hnew => absurd hl (Nat.not_lt.mpr hnew.1)
  have harena : ∀ id ∈ p.placed, id ∈ q.placed ∧ q.instr id = p.instr id := fun id hid =>
    ⟨h.mem_placed.mpr (.inl (List.mem_append_left _ hid)), h.arena id (hp.placed_lt id hid)⟩
  refine ⟨(h.nodup_iff hp.toRooted).mp hq.placed_nodup, fun id hid t ht => ?_,
    fun id hid name hname => ?_, fun x hx l hl => ?_, fun x hx name hname => ?_⟩
  · obtain ⟨hidq, hinstr⟩ := harena id hid
    exact hold t (hp.knows id t ht) (hq.target id hidq t (hinstr ▸ ht))
  · obtain ⟨hidq, hinstr⟩ := harena id hid
    exact h.names ▸ hq.call id hidq name (hinstr ▸ hname)
  · exact hold l (hp.slots x hx l hl) (hq.address x (hslots hx) _ hl)
  · exact h.refers_method.mp (hq.address x (hslots hx) _ hname)

/-! ## Checks that succeed -/

/-- Addresses are given out only if no position comes up twice. -/
lemma nodup_of_layOut {ids : List InstrId} {next : Nat} {addresses result : Array (Option Nat)}
    (h : f.layOut ids next addresses = .ok result) (hlt : ∀ id ∈ ids, id < addresses.size) :
    ids.Nodup ∧ ∀ id ∈ ids, (addresses[id]?).join = none := by
  induction ids generalizing next addresses with
  | nil => simp
  | cons x ids ih =>
    unfold layOut at h
    split_ifs at h with hx
    have hxlt := hlt x List.mem_cons_self
    obtain ⟨hnodup, hfree⟩ := ih h fun id hid => by
      simpa using hlt id (List.mem_cons_of_mem _ hid)
    have hnot : x ∉ ids := fun hin => by
      have hnone := hfree x hin
      rw [Array.getElem?_modify, if_pos rfl, Array.getElem?_eq_getElem hxlt] at hnone
      cases hnone
    refine ⟨List.nodup_cons.mpr ⟨hnot, hnodup⟩, List.forall_mem_cons.mpr ⟨by simpa using hx, ?_⟩⟩
    intro id hid
    have hne : x ≠ id := fun hxid => hnot (hxid ▸ hid)
    simpa [Array.getElem?_modify, hne] using hfree id hid

/-- The steps of a link that succeeds. -/
lemma link_eq_ok (hunlinked : p.linked = false) (h : p.link options = .ok q) :
    ∃ addresses slots, (p.finishMethods options).layOut (p.finishMethods options).placed 0
        (Array.replicate (p.finishMethods options).instrs.size none) = .ok addresses ∧
      ({ p.finishMethods options with addresses } : Program).checkTargets = .ok () ∧
      (p.finishMethods options).slots.slots.toList.mapM
        ({ p.finishMethods options with addresses } : Program).resolveSlot = .ok slots ∧
      q = { p.finishMethods options with
        addresses
        slots := { (p.finishMethods options).slots with slots := slots.toArray }
        linked := true } := by
  unfold link assignAddresses resolveSlots at h
  rw [hunlinked, if_neg (by simp)] at h
  obtain ⟨g, hg, h⟩ := bind_ok_iff.mp h
  obtain ⟨addresses, hlayout, hg⟩ := bind_ok_iff.mp hg
  obtain rfl := Except.ok.inj hg
  obtain ⟨⟨⟩, htargets, h⟩ := bind_ok_iff.mp h
  obtain ⟨g, hg, h⟩ := bind_ok_iff.mp h
  obtain ⟨slots, hslots, hg⟩ := bind_ok_iff.mp hg
  obtain rfl := Except.ok.inj hg
  exact ⟨addresses, slots, hlayout, htargets, hslots, (Except.ok.inj h).symm⟩

/-- A link that succeeds has found nothing twice and nothing missing. -/
lemma complete_of_link (hunlinked : p.linked = false)
    (hlt : ∀ id ∈ (p.finishMethods options).placed, id < (p.finishMethods options).instrs.size)
    (h : p.link options = .ok q) : (p.finishMethods options).Complete := by
  obtain ⟨addresses, slots, hlayout, htargets, hslots, -⟩ := link_eq_ok hunlinked h
  set f := p.finishMethods options
  set g : Program := { f with addresses }
  have hnodup := (nodup_of_layOut hlayout fun id hid => by simpa using hlt id hid).1
  obtain ⟨result, hresult, houts, -⟩ := f.layOut_eq_ok hnodup 0
    (Array.replicate f.instrs.size none) fun id hid => by simp [hlt id hid]
  obtain rfl := Except.ok.inj (hlayout.symm.trans hresult)
  have hplaced : ∀ id n, g.address? id = some n → id ∈ f.placed := by
    intro id n hn
    by_contra hnot
    change (addresses[id]?).join = some n at hn
    rw [houts id hnot, Array.getElem?_replicate] at hn
    split_ifs at hn <;> cases hn
  have hcheck : ∀ id ∈ f.placed, (∀ t, (f.instr id).labelTarget = some t → t ∈ f.placed) ∧
      ∀ name, f.instr id = .jumpMethod name → name ∈ f.names := by
    intro id hid
    obtain ⟨x, hx, hmem⟩ := List.mem_flatMap.mp hid
    obtain ⟨htarget, hcall⟩ := checkInstr_eq_ok.mp
      (forM_eq_ok_iff.mp (forM_eq_ok_iff.mp htargets x hx) id hmem)
    refine ⟨fun t ht => ?_, fun name hname => ?_⟩
    · obtain ⟨n, hn⟩ := Option.isSome_iff_exists.mp (htarget t ht)
      exact hplaced t n hn
    · exact (f.findMethod?_isSome_iff name).mp (hcall name hname)
  refine ⟨hlt, hnodup, fun id hid => (hcheck id hid).1, fun id hid => (hcheck id hid).2,
    fun x hx target htarget => ?_⟩
  obtain ⟨y, hy⟩ := mapM_eq_ok_iff.mp ⟨slots, hslots⟩ x hx
  simp only [resolveSlot, htarget] at hy
  obtain ⟨n, hn, -⟩ := bind_ok_iff.mp hy
  rw [resolveAddress_eq_ok] at hn
  cases target with
  | instruction l => exact hplaced l n hn
  | method name =>
    obtain ⟨x, hx, hbody⟩ := Option.bind_eq_some_iff.mp hn
    obtain ⟨first, hfirst, -⟩ := Option.bind_eq_some_iff.mp hbody
    exact ⟨x, hx, (Array.getElem?_eq_some_iff.mp hfirst).1⟩

/-! ## Linked programs -/

lemma Ended.congr (h : f.Ended) (hmethods : q.methods = f.methods) (hinstrs : q.instrs = f.instrs) :
    q.Ended := by
  have hlines : ∀ k, q.lines k = f.lines k := fun k => by
    unfold lines line instr method
    rw [hmethods, hinstrs]
  intro k hk
  rw [hlines]
  exact h k (hmethods ▸ hk)

/-- The last instruction of a finished method is that which leaves it. -/
lemma Closes.ended (h : p.Closes options (List.range p.methods.size) q) : q.Ended := by
  intro k hk
  obtain ⟨new, hmethod, hnew⟩ := h.method k (List.mem_range.mpr (h.size ▸ hk))
  obtain ⟨before, last, rfl, -, hlast⟩ := List.map_eq_append_iff.mp hnew
  obtain ⟨id, rfl, hid⟩ := List.map_eq_singleton_iff.mp hlast
  have hne : Epilogue.instr (p.method k).epilogue ≠ .nop := by
    cases (p.method k).epilogue <;> simp [Epilogue.instr]
  have hline : q.line id = .code (Epilogue.instr (p.method k).epilogue) :=
    line_eq_code.mpr ⟨hid, hne⟩
  refine ⟨((p.method k).body.toList ++ ((p.method k).endLabel.toList ++ before)).map q.line, _, ?_,
    hne⟩
  unfold lines
  rw [hmethod, ← hline]
  simp

/-- What linking makes of a program. -/
structure ExactlyLinked (options : CompileOptions) (p q : Program) : Prop where
  linked : q.linked = true
  size : q.methods.size = p.methods.size
  arena : ∀ id < p.instrs.size, q.instr id = p.instr id
  /-- A body is what it was, then the label of its end if it has one, then its end. -/
  body : ∀ k < p.methods.size, ∃ new : List InstrId,
    q.method k = { p.method k with
      body := (p.method k).body ++ ((p.method k).endLabel.toList ++ new).toArray } ∧
    new.map q.instr = closing options p.slots.thisSlot.1 (p.method k)
  /-- The address of a position is the size of all that stands before it. -/
  address : ∀ j id, q.placed[j]? = some id →
    q.address? id = some ((q.placed.take j).map fun x => (q.instr x).size).sum
  unplaced : ∀ id, id ∉ q.placed → q.address? id = none
  first : ∀ x, p.methods[0]? = some x → q.methodAddress? x.name = some 0
  last : ∀ id, q.placed.getLast? = some id →
    ∃ a, q.address? id = some a ∧ a + (q.instr id).size = q.size
  /-- An address that a slot held has become its number. -/
  resolved : ∀ id < p.slots.size, ∀ target, (p.slots.get id).initial = some (.address target) →
    ∃ n : UInt32, q.addressOf? target = some n.toNat ∧
      q.slots.get id = { p.slots.get id with initial := some (.uint32 n) }
  /-- A slot that held no address is what it was. -/
  kept : ∀ id < p.slots.size, (∀ target, (p.slots.get id).initial ≠ some (.address target)) →
    q.slots.get id = p.slots.get id
  /-- There is no new slot but that of the running object. -/
  added : ∀ id, p.slots.size ≤ id → id < q.slots.size →
    id = p.slots.thisSlot.1 ∧ (q.slots.get id).isThis = true
  /-- The running object has its slot if some method asks for it. -/
  self : ∀ k < p.methods.size, (options.autoSerialize && (p.method k).serializes) = true →
    q.slots.size = p.slots.thisSlot.2.size ∧ q.slots.this = some p.slots.thisSlot.1

/-- The number of an address is at most the size of the code. -/
lemma addressOf?_le (hlaid : q.Laid) (hunplaced : ∀ id, id ∉ q.placed → q.address? id = none)
    {target : Address} {n : Nat} (h : q.addressOf? target = some n) : n ≤ q.size := by
  have hid : ∃ id, q.address? id = some n := by
    cases target with
    | instruction l => exact ⟨l, h⟩
    | method name =>
      obtain ⟨x, -, hx⟩ := Option.bind_eq_some_iff.mp h
      obtain ⟨first, -, hfirst⟩ := Option.bind_eq_some_iff.mp hx
      exact ⟨first, hfirst⟩
  obtain ⟨id, hid⟩ := hid
  have hmem : id ∈ q.placed := by
    by_contra hnot
    rw [hunplaced id hnot] at hid
    cases hid
  obtain ⟨j, hj⟩ := List.mem_iff_getElem?.mp hmem
  obtain rfl : n = q.offset j := Option.some.inj (hid.symm.trans (hlaid j id hj))
  have hlt := (List.getElem?_eq_some_iff.mp hj).1
  rw [size_eq_offset]
  exact offset_le hlt.le

lemma Links.exactly (h : p.Links options q) (hlinked : q.linked = true)
    (hthis : q.slots.this = (p.finishMethods options).slots.this) (hsize : q.size < 2 ^ 32) :
    p.ExactlyLinked options q := by
  have hcloses := finishMethods_closes options p
  have hinstr : ∀ id, q.instr id = (p.finishMethods options).instr id := fun id => by
    unfold instr
    rw [h.instrs]
  have hmethod : ∀ k, q.method k = (p.finishMethods options).method k := fun k => by
    unfold method
    rw [h.methods]
  have hlaid : q.Laid := h.address
  have hended : q.Ended := hcloses.ended.congr h.methods h.instrs
  obtain ⟨-, -, hold, hle, hadded⟩ := hcloses.slots_get
  have hslot : ∀ id < p.slots.size, q.resolveSlot (p.slots.get id) = .ok (q.slots.get id) :=
    fun id hid => hold id hid ▸ h.resolved (h.size_slots ▸ hid.trans_le hle)
  refine
    { linked := hlinked, size := h.methods ▸ hcloses.size, arena := fun id hid => ?_,
      body := fun k hk => ?_, address := h.address, unplaced := h.unplaced, first := fun x hx => ?_,
      last := fun id hid => ?_, resolved := fun id hid target htarget => ?_,
      kept := fun id hid hno => ?_, added := fun id hge hlt => ?_, self := fun k hk hflag => ?_ }
  · rw [hinstr, hcloses.arena id hid]
  · obtain ⟨new, hnew, hcode⟩ := hcloses.method k (List.mem_range.mpr hk)
    refine ⟨new, (hmethod k).trans hnew, ?_⟩
    rw [← hcode]
    exact List.map_congr_left fun id _ => hinstr id
  · obtain ⟨hpos, rfl⟩ := Array.getElem?_eq_some_iff.mp hx
    obtain ⟨new, hnew, -⟩ := hcloses.method 0 (List.mem_range.mpr hpos)
    have hpos' : 0 < q.methods.size := by
      rw [h.methods, hcloses.size]
      exact hpos
    have hname : q.methods[0].name = p.methods[0].name := by
      have hname : (q.method 0).name = (p.method 0).name := by rw [hmethod, hnew]
      simpa [method, hpos, hpos'] using hname
    have hfound : q.findMethod? p.methods[0].name = some 0 :=
      Array.findIdx?_eq_some_iff_getElem.mpr ⟨hpos', by simpa using hname, by simp⟩
    rw [methodAddress?_eq hlaid hended hfound]
    rfl
  · obtain ⟨ids, hids⟩ := List.getLast?_eq_some_iff.mp hid
    have hj : q.placed[ids.length]? = some id := by simp [hids]
    refine ⟨_, h.address _ _ hj, ?_⟩
    rw [size_eq_offset]
    have hlength : q.placed.length = ids.length + 1 := by simp [hids]
    rw [hlength, offset_succ hj]
    rfl
  · have hres := hslot id hid
    simp only [resolveSlot, htarget] at hres
    obtain ⟨n, hn, hres⟩ := bind_ok_iff.mp hres
    rw [resolveAddress_eq_ok] at hn
    have hlt : n < 2 ^ 32 := (addressOf?_le hlaid h.unplaced hn).trans_lt hsize
    refine ⟨UInt32.ofNat n, ?_, (Except.ok.inj hres).symm⟩
    rw [hn, UInt32.toNat_ofNat_of_lt' hlt]
  · have hres := hslot id hid
    unfold resolveSlot at hres
    split at hres
    · rename_i target htarget
      exact absurd htarget (hno target)
    · exact (Except.ok.inj hres).symm
  · rw [h.size_slots] at hlt
    obtain ⟨hself, hmark, -⟩ := hadded id hge hlt
    obtain ⟨initial, hinitial⟩ := h.slot_eq (h.size_slots ▸ hlt)
    rw [hinitial]
    exact ⟨hself, hmark⟩
  · have hslots := hcloses.requests k (List.mem_range.mpr hk) hflag
    rw [h.size_slots, hthis, hslots]
    exact ⟨rfl, this_thisSlot _⟩

/-- What comes out of a link, if all that was placed was in the arena. -/
lemma links_of_link (hunlinked : p.linked = false)
    (hlt : ∀ id ∈ p.placed ++ p.endLabels, id < p.instrs.size) (h : p.link options = .ok q) :
    (p.finishMethods options).Complete ∧ p.Links options q := by
  have hcloses := finishMethods_closes options p
  have hcomplete : (p.finishMethods options).Complete := by
    refine complete_of_link hunlinked (fun id hid => ?_) h
    rcases hcloses.mem_placed.mp hid with hold | hnew
    · exact (hlt id hold).trans_le hcloses.size_le
    · exact hnew.2
  obtain ⟨q', hq', hlinks⟩ := hcomplete.link hunlinked
  obtain rfl := Except.ok.inj (h.symm.trans hq')
  exact ⟨hcomplete, hlinks⟩

/-- Linking a program, however it was built, succeeds exactly if no position is placed twice and
nothing that the program refers to is missing. The linked program is exactly what it should be, if its
code is small enough for addresses of 32 bits. -/
theorem linking_is_exact (h : p.Built) (options : CompileOptions) :
    ((∃ q, p.link options = .ok q) ↔ p.Consistent) ∧
      ∀ q, p.link options = .ok q → q.size < 2 ^ 32 → p.ExactlyLinked options q := by
  have hp := h.grounded
  have hlt : ∀ id ∈ p.placed ++ p.endLabels, id < p.instrs.size := fun id hid => hp.lt hid
  rw [← (finishMethods_closes options p).complete_iff hp]
  refine ⟨⟨fun ⟨q, hq⟩ => (links_of_link hp.unlinked hlt hq).1, fun hc => ?_⟩, fun q hq hsize => ?_⟩
  · obtain ⟨q, hq, -⟩ := hc.link hp.unlinked
    exact ⟨q, hq⟩
  · have hlinks := (links_of_link hp.unlinked hlt hq).2
    obtain ⟨addresses, slots, -, -, -, rfl⟩ := link_eq_ok hp.unlinked hq
    exact hlinks.exactly rfl rfl hsize

/-- A method that starts with a label, jumps to its end and writes a synced slot, next to a constant
that holds the address of the label. -/
theorem linking_is_exact_of_jump : ∃ p q : Program, p.Built ∧ p.link {} = .ok q ∧
    p.Consistent ∧ p.ExactlyLinked {} q := by
  have hadded : ({} : Program).addMethod "_start" .entry =
      .ok (0, { methods := #[{ name := "_start", kind := .entry }] }) := by
    simp [Program.addMethod, findMethod?]
  have hlabel := (Built.empty.addMethod hadded).newLabel
  have hplaced := hlabel.place 0 (l := 0) (by decide)
  have hjump := (hplaced.endLabel 0).emit 0 (i := .jump 1) fun t ht => by
    obtain rfl := Option.some.inj ht
    decide
  let table := (({} : SlotTable).constant .uint32 (.address (.instruction 0))).2
  have haddress : ∀ x ∈ table.slots.toList, ∀ l, x.initial = some (.address (.instruction l)) → l = 0 := by
    intro x hx l hl
    have hx' : x.initial = some (.address (.instruction 0)) := by
      rw [List.mem_singleton.mp hx]
    simpa using hl.symm.trans hx'
  have hbuilt := (hjump.serialize 0).slots fun x (hx : x ∈ table.slots.toList) l hl => by
    obtain rfl := haddress x hx l hl
    decide
  generalize hp : ({ Program.modifyMethod _ _ _ with slots := _ } : Program) = p at hbuilt
  have hlink : ((p.link {}).toOption.any fun q => decide (q.size < 2 ^ 32)) = true := by
    subst hp
    decide +kernel
  obtain ⟨q, hq, hsize⟩ := exists_ok_of_any hlink
  obtain ⟨hiff, hexact⟩ := linking_is_exact hbuilt {}
  exact ⟨p, q, hbuilt, hq, hiff.mp ⟨q, hq⟩, hexact q hq (of_decide_eq_true hsize)⟩

end Program

end TriggerCompiler
