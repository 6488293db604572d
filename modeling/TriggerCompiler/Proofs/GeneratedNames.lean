import Mathlib
import TriggerCompiler.Proofs.TableHistory

/-!
# The search for generated names

A table that needs a slot of its own tries one name after the other until one is free. The loop has no
bound: that it ends lies in the names that it tries, which are all different, while the table holds
finitely many. So it tries at most one name more than the table has slots, whatever these are called.

Main statement: `generated_names_are_found`.
-/

namespace TriggerCompiler

/-! ## Loops without a bound -/

/-- The loop over a step ends with a result, after so many rounds. -/
inductive Ends {σ ρ : Type} (step : σ → σ ⊕ ρ) : σ → Nat → ρ → Prop where
  | done {s : σ} {r : ρ} (last : step s = .inr r) : Ends step s 1 r
  | again {s s' : σ} {n : Nat} {r : ρ} (more : step s = .inl s') (rest : Ends step s' n r) :
      Ends step s (n + 1) r

/-- A loop that goes on exactly at the taken names ends at the first free one. -/
lemma Ends.of_firstFree {ρ : Type} {step : Nat → Nat ⊕ ρ} {taken : String → Bool}
    {candidate : Nat → String} {result : Nat → ρ}
    (hdone : ∀ i, taken (candidate i) = false → step i = .inr (result i))
    (hagain : ∀ i, taken (candidate i) = true → step i = .inl (i + 1)) {fuel start : Nat}
    (hfree : taken (candidate (firstFree taken candidate fuel start)) = false) :
    ∃ n, Ends step start (n + 1) (result (firstFree taken candidate fuel start)) ∧
      ∀ i < n, taken (candidate (start + i)) = true := by
  induction fuel generalizing start with
  | zero => exact ⟨0, .done (hdone start hfree), by simp⟩
  | succ fuel ih =>
    rw [firstFree] at hfree ⊢
    split_ifs at hfree ⊢ with htaken
    · obtain ⟨n, hends, hall⟩ := ih hfree
      refine ⟨n + 1, .again (hagain start htaken) hends, fun i hi => ?_⟩
      obtain _ | i := i
      · exact htaken
      · rw [← Nat.add_assoc, Nat.add_right_comm]
        exact hall i (Nat.lt_of_succ_lt_succ hi)
    · exact ⟨0, .done (hdone start hfree), by simp⟩

namespace SlotTable

/-- A search for a slot with a generated name. -/
structure Search where
  /-- The slot that is already there. -/
  known : Option (SlotId × SlotTable)
  /-- The table into which the slot with a number is inserted. -/
  table : Nat → SlotTable
  slot : Nat → Slot
  /-- What is noted about the slot that was found. -/
  note : SlotId → SlotTable → SlotTable := fun _ u => u

/-- One round of a search: a name that is taken leads to the next one. -/
def Search.round (s : Search) (index : Nat) : Nat ⊕ (SlotId × SlotTable) :=
  match s.known with
  | some found => .inr found
  | none =>
    match (s.table index).insert (s.slot index) with
    | .ok (id, u) => .inr (id, s.note id u)
    | .error _ => .inl (index + 1)

/-- What a search ends with if the name with the number is free. -/
def Search.found (s : Search) (index : Nat) : SlotId × SlotTable :=
  let (id, u) := (s.table index).push (s.slot index)
  (id, s.note id u)

/-- The search for a temporary, in which every name that is tried counts. -/
def temporarySearch (t : SlotTable) (type : ValueType) : Search where
  known := (takeFree type t.free).map fun (id, free) => (id, { t with free })
  table index := { t with temporaryCount := index + 1 }
  slot index := { name := temporaryName type index, type, kind := .temporary }

/-- The search for the slot of a constant. -/
def constantSearch (t : SlotTable) (type : ValueType) (value : Value) : Search where
  known := (t.constants.lookup (type, value)).map (·, t)
  table _ := t
  slot index := { name := constantName type index, type, kind := .constant, initial := some value }
  note id u := { u with constants := ((type, value), id) :: u.constants }

/-- The search for the slot of the running object. -/
def thisSearch (t : SlotTable) : Search where
  known := t.this.map (·, t)
  table _ := t
  slot index :=
    { name := thisName index, type := .gameObject, kind := .reserved, isThis := true }

variable {t u : SlotTable} {id : SlotId} {slot : Slot}

namespace Search

variable {s : Search}

lemma ends_known {found : SlotId × SlotTable} (h : s.known = some found) (start : Nat) :
    ∃ n ≤ t.size + 1, Ends s.round start n found :=
  ⟨1, by omega, .done (by unfold round; rw [h])⟩

/-- A search among different names tries at most one name more than the table has slots. -/
lemma ends (t : SlotTable) (hnone : s.known = none) (htable : ∀ i, (s.table i).slots = t.slots)
    {candidate : Nat → String} (hname : ∀ i, (s.slot i).name = candidate i)
    (hinj : Function.Injective candidate) (start : Nat) :
    ∃ n ≤ t.size + 1,
      Ends s.round start n (s.found (firstFree t.isTaken candidate (t.size + 1) start)) := by
  have htaken : ∀ i, (s.table i).isTaken (s.slot i).name = t.isTaken (candidate i) := fun i => by
    rw [isTaken, htable, hname]
    rfl
  have hdone : ∀ i, t.isTaken (candidate i) = false → s.round i = .inr (s.found i) := by
    intro i hi
    unfold round
    rw [hnone, insert_of_free ((htaken i).trans hi)]
    rfl
  have hagain : ∀ i, t.isTaken (candidate i) = true → s.round i = .inl (i + 1) := by
    intro i hi
    obtain ⟨e, he⟩ := insert_of_taken ((htaken i).trans hi)
    unfold round
    rw [hnone, he]
  have hnames : ∀ n, t.isTaken n = true → n ∈ t.names := fun n => (t.isTaken_iff n).mp
  have hlt : t.names.length < t.size + 1 := by simp [names, size]
  obtain ⟨n, hends, hall⟩ :=
    Ends.of_firstFree hdone hagain (firstFree_free hinj t.names hnames hlt start)
  have hle := length_le_of_taken hinj t.names hnames hall
  exact ⟨n + 1, Nat.succ_le_succ (Nat.le_of_lt_succ (hle.trans_lt hlt)), hends⟩

end Search

lemma ends_temporary (t : SlotTable) (type : ValueType) : ∃ n ≤ t.size + 1,
    Ends (t.temporarySearch type).round t.temporaryCount n (t.requestTemporary type) := by
  unfold requestTemporary
  cases hpool : takeFree type t.free with
  | some e => exact Search.ends_known (by simp [temporarySearch, hpool]) _
  | none =>
    exact Search.ends t (by simp [temporarySearch, hpool]) (fun _ => rfl) (fun _ => rfl)
      (temporaryName_injective type) t.temporaryCount

lemma ends_constant (t : SlotTable) (type : ValueType) (value : Value) : ∃ n ≤ t.size + 1,
    Ends (t.constantSearch type value).round t.constants.length n (t.constant type value) := by
  unfold SlotTable.constant
  cases hknown : t.constants.lookup (type, value) with
  | some id => exact Search.ends_known (by simp [constantSearch, hknown]) _
  | none =>
    exact Search.ends t (by simp [constantSearch, hknown]) (fun _ => rfl) (fun _ => rfl)
      (constantName_injective type) t.constants.length

lemma ends_this (t : SlotTable) : ∃ n ≤ t.size + 1, Ends t.thisSearch.round 0 n t.thisSlot := by
  unfold thisSlot
  cases hknown : t.this with
  | some id => exact Search.ends_known (by simp [thisSearch, hknown]) _
  | none =>
    exact Search.ends t (by simp [thisSearch, hknown]) (fun _ => rfl) (fun _ => rfl)
      thisName_injective 0

/-! ## The tables that there can be -/

/-- A table that was built from the empty one. Slots of any kind are inserted, by a document or by a
merge, and of a slot that is there all but the name may be changed. -/
inductive Built : SlotTable → Prop where
  | empty : Built {}
  | insert {t u : SlotTable} {slot : Slot} {id : SlotId} (built : Built t)
      (inserted : t.insert slot = .ok (id, u)) : Built u
  | change {t : SlotTable} {f : Slot → Slot} (id : SlotId) (built : Built t)
      (name : ∀ slot, (f slot).name = slot.name) : Built (t.modify id f)
  | users {t : SlotTable} (userIds : List (String × SlotId)) (built : Built t) :
      Built { t with userIds }
  | temporary {t : SlotTable} (type : ValueType) (built : Built t) :
      Built (t.requestTemporary type).2
  | release {t : SlotTable} {id : SlotId} (built : Built t) (lt : id < t.size) :
      Built (t.release id)
  | constant {t : SlotTable} (type : ValueType) (value : Value) (built : Built t) :
      Built (t.constant type value).2
  | this {t : SlotTable} (built : Built t) : Built t.thisSlot.2

/-- What the table keeps for later are slots that it has. -/
structure InRange (t : SlotTable) : Prop where
  free : ∀ e ∈ t.free, e.2 < t.size
  constants : ∀ e ∈ t.constants, e.2 < t.size
  this : ∀ id ∈ t.this, id < t.size

lemma InRange.push (h : t.InRange) (slot : Slot) : (t.push slot).2.InRange where
  free e he := (h.free e he).trans_le (within_push t slot).size_le
  constants e he := (h.constants e he).trans_le (within_push t slot).size_le
  this id hid := by
    have hid : id ∈ if slot.isThis then some t.size else t.this := hid
    rw [size_push]
    split_ifs at hid
    · obtain rfl := Option.mem_some_iff.mp hid
      exact Nat.lt_succ_self _
    · exact Nat.lt_succ_of_lt (h.this id hid)

lemma Built.inRange (h : t.Built) : t.InRange := by
  induction h with
  | empty => exact ⟨by simp, by simp, by simp⟩
  | insert _ hinsert ih =>
    obtain ⟨-, -, rfl⟩ := insert_eq_ok hinsert
    exact ih.push _
  | change id _ _ ih =>
    refine ⟨?_, ?_, ?_⟩ <;> simp only [size_modify]
    exacts [ih.free, ih.constants, ih.this]
  | users _ _ ih => exact { ih with }
  | @temporary t type _ ih =>
    obtain ⟨id, rest, htake, hreq⟩ | ⟨-, count, hreq⟩ := requestTemporary_cases t type
    · rw [hreq]
      have hperm := takeFree_perm htake
      exact { ih with free := fun e he => ih.free e (hperm.mem_iff.mpr (List.mem_cons_of_mem _ he)) }
    · rw [hreq]
      exact InRange.push (t := { t with temporaryCount := count }) { ih with } _
  | @release t id _ hlt ih =>
    unfold SlotTable.release
    dsimp only
    split_ifs
    · refine { ih with free := fun e he => ?_ }
      rcases List.mem_cons.mp he with rfl | he
      · exact hlt
      · exact ih.free e he
    · exact ih
  | @constant t type value _ ih =>
    unfold SlotTable.constant
    cases t.constants.lookup (type, value) with
    | some id => exact ih
    | none =>
      refine { ih.push _ with constants := fun e he => ?_ }
      rcases List.mem_cons.mp he with rfl | he
      · exact Nat.lt_of_lt_of_eq (Nat.lt_succ_self _) (size_push t _).symm
      · exact (ih.push _).constants e he
  | @this t _ ih =>
    unfold thisSlot
    cases t.this with
    | some id => exact ih
    | none => exact ih.push _

/-! ## What a search leaves -/

/-- The result of a request: a slot of the table, which has at most this slot more than before. -/
structure Serves (t : SlotTable) (found : SlotId × SlotTable) : Prop where
  lt : found.1 < found.2.size
  slots : found.2.slots = t.slots ∨ ∃ slot : Slot, slot.name ∉ t.names ∧
    found.2.slots = t.slots.push slot ∧ found.1 = t.size

lemma requestTemporary_serves (h : t.InRange) (type : ValueType) :
    t.Serves (t.requestTemporary type) := by
  obtain ⟨id, rest, htake, hreq⟩ | ⟨-, count, hreq⟩ := requestTemporary_cases t type
  · rw [hreq]
    exact ⟨h.free _ ((takeFree_perm htake).mem_iff.mpr List.mem_cons_self), .inl rfl⟩
  · rw [hreq]
    exact ⟨by simp [push, size],
      .inr ⟨_, t.firstFree_not_mem (temporaryName_injective type) _, rfl, rfl⟩⟩

lemma constant_serves (h : t.InRange) (type : ValueType) (value : Value) :
    t.Serves (t.constant type value) := by
  unfold SlotTable.constant
  cases hknown : t.constants.lookup (type, value) with
  | some id => exact ⟨h.constants _ (mem_of_lookup hknown), .inl rfl⟩
  | none =>
    exact ⟨by simp [push, size],
      .inr ⟨_, t.firstFree_not_mem (constantName_injective type) _, rfl, rfl⟩⟩

lemma thisSlot_serves (h : t.InRange) : t.Serves t.thisSlot := by
  unfold thisSlot
  cases hknown : t.this with
  | some id => exact ⟨h.this id hknown, .inl rfl⟩
  | none =>
    exact ⟨by simp [push, size], .inr ⟨_, t.firstFree_not_mem thisName_injective _, rfl, rfl⟩⟩

end SlotTable

open SlotTable in
/-- Whatever the slots of a table are called, a request for a temporary, a constant or the running
object ends: the search without a bound comes to the slot that is handed out, after at most one round
more than there are slots. The slot is one of the table, which has got at most this slot, under a name
that was free, and is otherwise as it was. -/
theorem generated_names_are_found {t : SlotTable} (h : t.Built) (type : ValueType) (value : Value) :
    ((∃ n ≤ t.size + 1,
        Ends (t.temporarySearch type).round t.temporaryCount n (t.requestTemporary type)) ∧
      t.Serves (t.requestTemporary type)) ∧
    ((∃ n ≤ t.size + 1,
        Ends (t.constantSearch type value).round t.constants.length n (t.constant type value)) ∧
      t.Serves (t.constant type value)) ∧
    (∃ n ≤ t.size + 1, Ends t.thisSearch.round 0 n t.thisSlot) ∧ t.Serves t.thisSlot :=
  ⟨⟨t.ends_temporary type, requestTemporary_serves h.inRange type⟩,
    ⟨t.ends_constant type value, constant_serves h.inRange type value⟩,
    t.ends_this, thisSlot_serves h.inRange⟩

open SlotTable in
/-- Variables with the first two names of the running object leave it the third. -/
theorem generated_names_are_found_past_imitations :
    let slot (name : String) : Slot := { name, type := .int32, kind := .user }
    let t := (((({} : SlotTable).push (slot "__this")).2).push (slot "__this_1")).2
    t.thisSlot.2.names = ["__this", "__this_1", "__this_2"] ∧
      (∃ n ≤ t.size + 1, Ends t.thisSearch.round 0 n t.thisSlot) ∧ t.Serves t.thisSlot :=
  ⟨by decide +kernel, (generated_names_are_found (.insert (.insert .empty (insert_of_free (by decide +kernel)))
    (insert_of_free (by decide +kernel))) .int32 .null).2.2⟩

end TriggerCompiler
