import Mathlib
import TriggerCompiler.Program.Merge
import TriggerCompiler.Proofs.Code
import TriggerCompiler.Proofs.Slots

/-!
# Merging

A merge adds to a program a renamed copy of another one. Every slot of the copied program lands on a
slot of its own, behind those that were there; only the slot of the running object is shared. The
instructions and methods are those of the copied program with every position and name renamed.
-/

namespace TriggerCompiler

variable {x : Slot} {k : Nat} {id : SlotId} {t : SlotTable}

/-- An element of a list with one more at its end. -/
lemma getElem?_concat {α : Type} {l : List α} {x y : α} (h : (l ++ [x])[k]? = some y) :
    (k < l.length ∧ l[k]? = some y) ∨ (k = l.length ∧ y = x) := by
  rcases Nat.lt_trichotomy k l.length with hk | rfl | hk
  · rw [List.getElem?_append_left hk] at h
    exact .inl ⟨hk, h⟩
  · rw [List.getElem?_concat_length] at h
    exact .inr ⟨rfl, (Option.some.inj h).symm⟩
  · rw [List.getElem?_eq_none (by simpa using hk)] at h
    cases h

/-- An element at a single position is there once. -/
lemma count_eq_one {α : Type} [DecidableEq α] {l : List α} {a : α} (h : l[k]? = some a)
    (hunique : ∀ j, l[j]? = some a → j = k) : l.count a = 1 := by
  induction l generalizing k with
  | nil => simp at h
  | cons b l ih =>
    cases k with
    | zero =>
      obtain rfl : b = a := Option.some.inj h
      have hmem : b ∉ l := fun hmem => by
        obtain ⟨j, hj⟩ := List.mem_iff_getElem?.mp hmem
        cases hunique (j + 1) hj
      rw [List.count_cons_self, List.count_eq_zero_of_not_mem hmem]
    | succ k =>
      have hne : b ≠ a := fun heq => by cases hunique 0 (congrArg some heq)
      rw [List.count_cons_of_ne hne]
      exact ih h fun j hj => Nat.succ.inj (hunique (j + 1) hj)

namespace Renaming

/-- The copy of a slot as it is first added, with the shadow that it had. -/
def bareCopy (r : Renaming) (x : Slot) : Slot :=
  { x with name := r.namePrefix ++ x.name, initial := x.initial.map r.value }

/-- The copy of a slot. -/
def copy (r : Renaming) (x : Slot) : Slot := { r.bareCopy x with shadow := x.shadow.map r.slot }

/-- The renaming with one slot more. -/
def push (r : Renaming) (id : SlotId) : Renaming := { r with slots := r.slots.push id }

lemma slot_push (r : Renaming) (id : SlotId) (k : SlotId) :
    (r.push id).slot k = if k = r.slots.size then id else r.slot k := by
  unfold push slot
  simp only [Array.getD_eq_getD_getElem?, Array.getElem?_push]
  split_ifs <;> rfl

lemma slot_push_of_lt {r : Renaming} {k : SlotId} (id : SlotId) (h : k < r.slots.size) :
    (r.push id).slot k = r.slot k := by
  rw [slot_push, if_neg h.ne]

lemma slot_push_self (r : Renaming) (id : SlotId) : (r.push id).slot r.slots.size = id := by
  rw [slot_push, if_pos rfl]

/-! ## Slots -/

/-- The slots of a list land in a table that has grown from another one: each on a copy of its own
that is new, and the slot of the running object on the table's own. -/
structure Lands (r : Renaming) (copy : Slot → Slot) (l : List Slot) (t u : SlotTable) : Prop where
  within : t.Within u
  constants : u.constants = t.constants
  free : u.free = t.free
  size : r.slots.size = l.length
  this : ∀ k x, l[k]? = some x → x.isThis = true → u.this = some (r.slot k)
  fresh : ∀ k x, l[k]? = some x → x.isThis = false →
    t.size ≤ r.slot k ∧ r.slot k < u.size ∧ u.get (r.slot k) = copy x
  injective : ∀ j k x y, l[j]? = some x → l[k]? = some y → x.isThis = false → y.isThis = false →
    r.slot j = r.slot k → j = k
  new : ∀ id, t.size ≤ id → id < u.size →
    (∃ k x, l[k]? = some x ∧ x.isThis = false ∧ r.slot k = id) ∨ (t.this = none ∧ u.this = some id)
  this_keeps : ∀ id, t.this = some id → u.this = some id
  this_new : ∀ id, t.this = none → u.this = some id → t.size ≤ id ∧ id < u.size ∧
    ∃ name, u.get id = { name, type := .gameObject, kind := .reserved, isThis := true }

namespace Lands

variable {r : Renaming} {copy : Slot → Slot} {l : List Slot} {u : SlotTable}

lemma nil (h : r.slots = #[]) : r.Lands copy [] t t where
  within := SlotTable.Within.refl t
  constants := rfl
  free := rfl
  size := by rw [h]; rfl
  this := by simp
  fresh := by simp
  injective := by simp
  new id hge hlt := absurd hlt (Nat.not_lt.mpr hge)
  this_keeps _ h := h
  this_new id hnone hsome := by
    rw [hnone] at hsome
    cases hsome

/-- One slot more lands. -/
lemma snoc (h : r.Lands copy l t u) {v : SlotTable} (within : u.Within v)
    (constants : v.constants = u.constants) (free : v.free = u.free)
    (keeps : ∀ i, u.this = some i → v.this = some i) (this : x.isThis = true → v.this = some id)
    (fresh : x.isThis = false → u.size ≤ id ∧ id < v.size ∧ v.get id = copy x)
    (new : ∀ i, u.size ≤ i → i < v.size →
      (x.isThis = false ∧ id = i) ∨ (u.this = none ∧ v.this = some i))
    (this_new : ∀ i, u.this = none → v.this = some i → u.size ≤ i ∧ i < v.size ∧
      ∃ name, v.get i = { name, type := .gameObject, kind := .reserved, isThis := true }) :
    (r.push id).Lands copy (l ++ [x]) t v where
  within := h.within.trans within
  constants := constants.trans h.constants
  free := free.trans h.free
  size := by simp [push, h.size]
  this k y hy hthis := by
    rcases getElem?_concat hy with ⟨hk, hy⟩ | ⟨rfl, rfl⟩
    · rw [slot_push_of_lt _ (h.size ▸ hk)]
      exact keeps _ (h.this k y hy hthis)
    · rw [← h.size, slot_push_self]
      exact this hthis
  fresh k y hy hthis := by
    rcases getElem?_concat hy with ⟨hk, hy⟩ | ⟨rfl, rfl⟩
    · rw [slot_push_of_lt _ (h.size ▸ hk)]
      obtain ⟨hge, hlt, hget⟩ := h.fresh k y hy hthis
      exact ⟨hge, hlt.trans_le within.size_le, (within.get_eq hlt).trans hget⟩
    · rw [← h.size, slot_push_self]
      obtain ⟨hge, hlt, hget⟩ := fresh hthis
      exact ⟨h.within.size_le.trans hge, hlt, hget⟩
  injective j k y z hy hz hyThis hzThis heq := by
    -- an earlier copy lies in the table to which the last one was added
    have hearly : ∀ j y, l[j]? = some y → y.isThis = false → (r.push id).slot j = r.slot j ∧
        (x.isThis = false → r.slot j ≠ id) := by
      intro j y hy hyThis
      have hj : j < l.length := (List.getElem?_eq_some_iff.mp hy).1
      refine ⟨slot_push_of_lt _ (h.size ▸ hj), fun hx heq => ?_⟩
      exact absurd (h.fresh j y hy hyThis).2.1 (Nat.not_lt.mpr (heq ▸ (fresh hx).1))
    have hlast : (r.push id).slot l.length = id := h.size ▸ slot_push_self r id
    rcases getElem?_concat hy with ⟨-, hj⟩ | ⟨rfl, rfl⟩ <;>
      rcases getElem?_concat hz with ⟨-, hk⟩ | ⟨rfl, hxz⟩
    · rw [(hearly j y hj hyThis).1, (hearly k z hk hzThis).1] at heq
      exact h.injective j k y z hj hk hyThis hzThis heq
    · rw [(hearly j y hj hyThis).1, hlast] at heq
      exact absurd heq ((hearly j y hj hyThis).2 (hxz ▸ hzThis))
    · rw [(hearly k z hk hzThis).1, hlast] at heq
      exact absurd heq.symm ((hearly k z hk hzThis).2 hyThis)
    · rfl
  new i hge hlt := by
    by_cases hi : i < u.size
    · rcases h.new i hge hi with ⟨k, y, hy, hthis, hslot⟩ | ⟨hnone, hsome⟩
      · have hk : k < l.length := (List.getElem?_eq_some_iff.mp hy).1
        refine .inl ⟨k, y, ?_, hthis, ?_⟩
        · rw [List.getElem?_append_left hk]
          exact hy
        · rw [slot_push_of_lt _ (h.size ▸ hk)]
          exact hslot
      · exact .inr ⟨hnone, keeps i hsome⟩
    · rcases new i (Nat.le_of_not_lt hi) hlt with ⟨hthis, rfl⟩ | ⟨hnone, hsome⟩
      · refine .inl ⟨l.length, x, by simp, hthis, ?_⟩
        rw [← h.size, slot_push_self]
      · refine .inr ⟨?_, hsome⟩
        cases hthis : t.this with
        | none => rfl
        | some j =>
          rw [h.this_keeps j hthis] at hnone
          cases hnone
  this_keeps i hi := keeps i (h.this_keeps i hi)
  this_new i hnone hsome := by
    cases hthis : u.this with
    | none =>
      obtain ⟨hge, hlt, hget⟩ := this_new i hthis hsome
      exact ⟨h.within.size_le.trans hge, hlt, hget⟩
    | some j =>
      obtain rfl : j = i := Option.some.inj ((keeps j hthis).symm.trans hsome)
      obtain ⟨hge, hlt, name, hget⟩ := h.this_new j hnone hthis
      exact ⟨hge, hlt.trans_le within.size_le, name, (within.get_eq hlt).trans hget⟩

/-- The slot of the running object is asked for. -/
lemma push_this (h : r.Lands copy l t u) (hx : x.isThis = true) :
    (r.push u.thisSlot.1).Lands copy (l ++ [x]) t u.thisSlot.2 := by
  have hcopy : ∀ {P : Prop}, x.isThis = false → P := fun hno => by
    rw [hx] at hno
    cases hno
  unfold SlotTable.thisSlot
  cases hthis : u.this with
  | some id =>
    exact h.snoc (SlotTable.Within.refl u) rfl rfl (fun _ hi => hi) (fun _ => hthis)
      (fun hno => hcopy hno) (fun i hge hlt => absurd hlt (Nat.not_lt.mpr hge))
      fun i hnone => by
        rw [hthis] at hnone
        cases hnone
  | none =>
    refine h.snoc (SlotTable.within_push _ _) rfl rfl (fun i hi => ?_) (fun _ => rfl)
      (fun hno => hcopy hno) (fun i hge hlt => .inr ⟨hthis, ?_⟩) fun i _ hi => ?_
    · rw [hthis] at hi
      cases hi
    · rw [SlotTable.size_push] at hlt
      exact congrArg some (Nat.le_antisymm hge (Nat.le_of_lt_succ hlt))
    · obtain rfl : u.size = i := Option.some.inj hi
      rw [SlotTable.size_push, SlotTable.get_push_self]
      exact ⟨le_rfl, Nat.lt_succ_self _, _, rfl⟩

/-- A copy is added. -/
lemma push_copy (h : r.Lands copy l t u) (hx : x.isThis = false)
    (hcopy : (copy x).isThis = false) :
    (r.push u.size).Lands copy (l ++ [x]) t (u.push (copy x)).2 := by
  have hthis : (u.push (copy x)).2.this = u.this := by
    unfold SlotTable.push
    rw [hcopy]
    rfl
  refine h.snoc (SlotTable.within_push _ _) rfl rfl (fun i hi => hthis.trans hi) (fun hyes => ?_)
    (fun _ => ⟨le_rfl, ?_, SlotTable.get_push_self _ _⟩) (fun i hge hlt => .inl ⟨hx, ?_⟩)
    fun i hnone hi => ?_
  · rw [hx] at hyes
    cases hyes
  · rw [SlotTable.size_push]
    exact Nat.lt_succ_self _
  · rw [SlotTable.size_push] at hlt
    exact Nat.le_antisymm hge (Nat.le_of_lt_succ hlt)
  · rw [hthis, hnone] at hi
    cases hi

end Lands

end Renaming

namespace Program

variable {host host' : Program} {r r' : Renaming} {l : List Slot}

/-- Adding copies of slots changes nothing but the table. -/
lemma mergeSlots_lands {done : List Slot} (hland : r.Lands r.bareCopy done t host.slots)
    (h : mergeSlots l r host = (.ok r', host')) :
    r'.Lands r.bareCopy (done ++ l) t host'.slots ∧ (∃ slots, r' = { r with slots }) ∧
      ∃ slots, host' = { host with slots } := by
  induction l generalizing r host done with
  | nil =>
    obtain ⟨hr, rfl⟩ := Prod.mk.inj h
    obtain rfl := Except.ok.inj hr
    rw [List.append_nil]
    exact ⟨hland, ⟨_, rfl⟩, _, rfl⟩
  | cons x l ih =>
    rw [mergeSlots] at h
    have hstep : ∀ (id : SlotId) (slots : SlotTable),
        (r.push id).Lands r.bareCopy (done ++ [x]) t slots →
        mergeSlots l (r.push id) { host with slots } = (.ok r', host') →
        r'.Lands r.bareCopy (done ++ x :: l) t host'.slots ∧ (∃ slots, r' = { r with slots }) ∧
          ∃ slots, host' = { host with slots } := by
      intro id slots hland' h'
      have hcopy : (r.push id).bareCopy = r.bareCopy := rfl
      rw [← hcopy] at hland' ⊢
      obtain ⟨hland'', ⟨slots', hr⟩, slots'', hhost⟩ := ih hland' h'
      rw [List.append_assoc] at hland''
      exact ⟨hland'', ⟨slots', hr⟩, slots'', hhost⟩
    split_ifs at h with hx
    · exact hstep _ _ (hland.push_this hx) h
    · have hno := Bool.not_eq_true _ ▸ hx
      dsimp only at h
      split at h
      · cases (Prod.mk.inj h).1
      · rename_i id slots hinsert
        unfold SlotTable.insert at hinsert
        split at hinsert
        · cases hinsert
        · obtain ⟨rfl, rfl⟩ := Prod.mk.inj (Except.ok.inj hinsert)
          exact hstep _ _ (hland.push_copy hno hno) h

end Program

/-! ## Shadows -/

namespace SlotTable

variable {f : Slot → Slot}

lemma get_modify (i : SlotId) (f : Slot → Slot) (h : id < t.size) :
    (t.modify i f).get id = if i = id then f (t.get id) else t.get id := by
  unfold SlotTable.get modify
  simp only [Array.getD_eq_getD_getElem?, Array.getElem?_modify, Array.getElem?_eq_getElem h]
  split_ifs <;> rfl

@[simp] lemma size_modify (t : SlotTable) (i : SlotId) (f : Slot → Slot) :
    (t.modify i f).size = t.size := by
  simp [modify, size]

lemma within_of_get {u : SlotTable} (hsize : t.size ≤ u.size)
    (hget : ∀ id < t.size, u.get id = t.get id) (huser : u.userIds = t.userIds)
    (hconstants : u.constants = t.constants) : t.Within u := by
  refine ⟨List.prefix_iff_getElem?.mpr fun i hi => ?_, huser, fun _ _ h => hconstants ▸ h⟩
  have hi' : i < t.size := by simpa [size] using hi
  have h := hget i hi'
  unfold SlotTable.get at h
  rw [Array.getD_eq_getD_getElem?, Array.getD_eq_getD_getElem?,
    Array.getElem?_eq_getElem (hi'.trans_le hsize), Array.getElem?_eq_getElem hi'] at h
  rw [Array.getElem?_toList, Array.getElem?_eq_getElem (hi'.trans_le hsize)]
  exact congrArg some h

lemma slots_getElem? (h : id < t.size) : t.slots.toList[id]? = some (t.get id) := by
  unfold SlotTable.get
  rw [Array.getElem?_toList, Array.getD_eq_getD_getElem?, Array.getElem?_eq_getElem h]
  rfl

lemma get_of_getElem? (h : t.slots.toList[id]? = some x) : id < t.size ∧ t.get id = x := by
  have hlt : id < t.size := by simpa [size] using (List.getElem?_eq_some_iff.mp h).1
  exact ⟨hlt, Option.some.inj ((slots_getElem? hlt).symm.trans h)⟩

/-- What the table takes for the slot of the running object is that slot. -/
def Owns (t : SlotTable) : Prop := ∀ id, t.this = some id → id < t.size ∧ (t.get id).isThis = true

/-- The table with the slots of a list changed, one after the other. -/
def modifyAll (f : Slot → Slot) (ids : List SlotId) (t : SlotTable) : SlotTable :=
  ids.foldl (fun t i => t.modify i f) t

@[simp] lemma size_modifyAll (ids : List SlotId) (t : SlotTable) :
    (modifyAll f ids t).size = t.size := by
  induction ids generalizing t with
  | nil => rfl
  | cons i ids ih => exact (ih _).trans (size_modify t i f)

lemma modifyAll_eq (f : Slot → Slot) (ids : List SlotId) (t : SlotTable) :
    ∃ slots, modifyAll f ids t = { t with slots } := by
  induction ids generalizing t with
  | nil => exact ⟨_, rfl⟩
  | cons i ids ih => exact ih (t.modify i f)

/-- A slot is changed as often as it is in the list. -/
lemma get_modifyAll (ids : List SlotId) (h : id < t.size) :
    (modifyAll f ids t).get id = f^[ids.count id] (t.get id) := by
  induction ids generalizing t with
  | nil => rfl
  | cons i ids ih =>
    have hstep : modifyAll f (i :: ids) t = modifyAll f ids (t.modify i f) := rfl
    rw [hstep, ih (by rwa [size_modify]), get_modify i f h, List.count_cons]
    by_cases hi : i = id
    · simp [hi]
    · simp [hi]

end SlotTable

namespace Renaming

variable {r : Renaming} {l : List Slot} {u : SlotTable}

/-- A slot gets the renamed shadow, unless it is that of the running object. -/
def shade (r : Renaming) (x : Slot) : Slot :=
  if x.isThis then x else { x with shadow := x.shadow.map r.slot }

namespace Lands

lemma slots_getElem? {copy : Slot → Slot} (h : r.Lands copy l t u) (hx : l[k]? = some x) :
    r.slots.toList[k]? = some (r.slot k) := by
  have hk : k < r.slots.size := h.size ▸ (List.getElem?_eq_some_iff.mp hx).1
  rw [Array.getElem?_toList, Array.getElem?_eq_getElem hk]
  unfold slot
  rw [Array.getD_eq_getD_getElem?, Array.getElem?_eq_getElem hk]
  rfl

/-- Where the slots have landed is where one of them has. -/
lemma exists_of_mem {copy : Slot → Slot} (h : r.Lands copy l t u) (hid : id ∈ r.slots.toList) :
    ∃ k x, l[k]? = some x ∧ r.slot k = id := by
  obtain ⟨k, hk⟩ := List.mem_iff_getElem?.mp hid
  have hlt : k < l.length := by
    have := (List.getElem?_eq_some_iff.mp hk).1
    rw [Array.length_toList, h.size] at this
    exact this
  have hx := List.getElem?_eq_getElem hlt
  exact ⟨k, _, hx, Option.some.inj ((h.slots_getElem? hx).symm.trans hk)⟩

/-- The slot of the running object is known as that in the larger table too. -/
lemma owns {copy : Slot → Slot} (h : r.Lands copy l t u) (howns : t.Owns) : u.Owns := by
  intro id hid
  cases ht : t.this with
  | none =>
    obtain ⟨-, hlt, name, hname⟩ := h.this_new id ht hid
    rw [hname]
    exact ⟨hlt, rfl⟩
  | some j =>
    obtain rfl : j = id := Option.some.inj ((h.this_keeps j ht).symm.trans hid)
    obtain ⟨hlt, hj⟩ := howns j ht
    rw [h.within.get_eq hlt]
    exact ⟨hlt.trans_le h.within.size_le, hj⟩

/-- A copy and the slot of the running object are two slots, so a position of the table at which a
copy stands is taken once. -/
lemma count_slot {copy : Slot → Slot} (h : r.Lands copy l t u) (howns : t.Owns)
    (hcopy : ∀ x, (copy x).isThis = x.isThis) (hx : l[k]? = some x) (hno : x.isThis = false) :
    r.slots.toList.count (r.slot k) = 1 := by
  refine count_eq_one (h.slots_getElem? hx) fun j hj => ?_
  have hlt : j < l.length := by
    have := (List.getElem?_eq_some_iff.mp hj).1
    rwa [Array.length_toList, h.size] at this
  have hy := List.getElem?_eq_getElem hlt
  have heq : r.slot j = r.slot k := Option.some.inj ((h.slots_getElem? hy).symm.trans hj)
  cases hthis : l[j].isThis with
  | false => exact h.injective j k _ _ hy hx hthis hno heq
  | true =>
    have hown := (h.owns howns _ (heq ▸ h.this j _ hy hthis)).2
    rw [(h.fresh k x hx hno).2.2, hcopy, hno] at hown
    cases hown

/-- The copies get the copied shadows, and nothing else changes. -/
lemma shade (h : r.Lands r.bareCopy l t u) (howns : t.Owns) :
    r.Lands r.copy l t (SlotTable.modifyAll r.shade r.slots.toList u) := by
  set v := SlotTable.modifyAll r.shade r.slots.toList u with hv
  have hsize : v.size = u.size := SlotTable.size_modifyAll _ _
  obtain ⟨slots, hslots⟩ := SlotTable.modifyAll_eq r.shade r.slots.toList u
  rw [← hv] at hslots
  have hthis : v.this = u.this := by rw [hslots]
  have hget : ∀ id < u.size, v.get id = r.shade^[r.slots.toList.count id] (u.get id) :=
    fun id hid => SlotTable.get_modifyAll _ hid
  -- the slot of the running object stays, however often it comes up
  have hthis_get : ∀ id, u.this = some id → v.get id = u.get id := by
    intro id hid
    obtain ⟨hlt, hyes⟩ := h.owns howns id hid
    have hfixed : r.shade (u.get id) = u.get id := if_pos hyes
    rw [hget id hlt]
    exact Function.iterate_fixed hfixed _
  have hold : ∀ id < t.size, v.get id = t.get id := by
    intro id hid
    have hid' := hid.trans_le h.within.size_le
    rw [← h.within.get_eq hid]
    by_cases hmem : id ∈ r.slots.toList
    · obtain ⟨k, x, hx, rfl⟩ := h.exists_of_mem hmem
      refine hthis_get _ (h.this k x hx ?_)
      by_contra hno
      exact absurd hid (Nat.not_lt.mpr (h.fresh k x hx (Bool.not_eq_true _ ▸ hno)).1)
    · rw [hget id hid', List.count_eq_zero_of_not_mem hmem]
      rfl
  refine ⟨SlotTable.within_of_get (hsize ▸ h.within.size_le) hold ?_ ?_, ?_, ?_, h.size, ?_, ?_,
    h.injective, ?_, ?_, ?_⟩
  · rw [hslots]
    exact h.within.userIds
  · rw [hslots]
    exact h.constants
  · rw [hslots]
    exact h.constants
  · rw [hslots]
    exact h.free
  · exact fun k x hx hyes => hthis.trans (h.this k x hx hyes)
  · intro k x hx hno
    obtain ⟨hge, hlt, hcopy⟩ := h.fresh k x hx hno
    refine ⟨hge, hsize ▸ hlt, ?_⟩
    rw [hget _ hlt, h.count_slot howns (fun _ => rfl) hx hno, hcopy]
    exact if_neg (by simpa [bareCopy] using hno)
  · exact fun id hge hlt => hthis ▸ h.new id hge (hsize ▸ hlt)
  · exact fun id hid => hthis.trans (h.this_keeps id hid)
  · intro id hnone hid
    rw [hthis] at hid
    obtain ⟨hge, hlt, name, hname⟩ := h.this_new id hnone hid
    exact ⟨hge, hsize ▸ hlt, name, (hthis_get id hid).trans hname⟩

end Lands

end Renaming

/-! ## Programs -/

namespace Program

variable {host host' sub : Program} {r : Renaming}

lemma findMethod?_isSome_iff (p : Program) (name : String) :
    (p.findMethod? name).isSome = true ↔ name ∈ p.names := by
  unfold findMethod? names
  rw [← Option.ne_none_iff_isSome, Ne, Array.findIdx?_eq_none_iff]
  simp

/-- Adding renamed methods changes nothing else, and their names are new. -/
lemma mergeMethods_eq {l : List Method} (h : mergeMethods r l host = (.ok (), host')) :
    host' = { host with methods := host.methods ++ (l.map r.methodDef).toArray } ∧
      (∀ x ∈ l, r.namePrefix ++ x.name ∉ host.names) ∧ (l.map (·.name)).Nodup := by
  induction l generalizing host with
  | nil =>
    obtain ⟨-, rfl⟩ := Prod.mk.inj h
    simp
  | cons x l ih =>
    rw [mergeMethods] at h
    split_ifs at h with hname
    · cases (Prod.mk.inj h).1
    rw [findMethod?_isSome_iff] at hname
    obtain ⟨rfl, hfresh, hnodup⟩ := ih h
    simp only [names, Array.toList_push, List.map_append, List.map_cons, List.map_nil,
      List.mem_append, List.mem_singleton, not_or] at hfresh
    refine ⟨by simp, fun y hy => ?_, ?_⟩
    · rcases List.mem_cons.mp hy with rfl | hy
      · exact hname
      · exact (hfresh y hy).1
    · refine List.nodup_cons.mpr ⟨fun hmem => ?_, hnodup⟩
      obtain ⟨y, hy, heq⟩ := List.mem_map.mp hmem
      exact (hfresh y hy).2 (congrArg (r.namePrefix ++ ·) heq)

/-- A program into which a renamed copy of another one has been merged. -/
structure Merged (host sub : Program) (r : Renaming) (host' : Program) : Prop where
  names : r.methods = sub.names
  offset : r.offset = host.instrs.size
  slots : r.Lands r.copy sub.slots.slots.toList host.slots host'.slots
  instrs : host'.instrs = host.instrs ++ sub.instrs.map r.instr
  methods : host'.methods = host.methods ++ sub.methods.map r.methodDef
  fresh : ∀ x ∈ sub.methods.toList, r.namePrefix ++ x.name ∉ host.names
  distinct : sub.names.Nodup
  linked : host'.linked = host.linked

/-- A merge that succeeds has added a renamed copy. -/
lemma merge_merged {group : CompiledGroup} {namePrefix : String} {table : MergeTable}
    (howns : host.slots.Owns) (h : host.merge group namePrefix = (.ok table, host')) :
    ∃ r : Renaming, r.namePrefix = namePrefix ∧ Merged host group.program r host' ∧
      table.entries = group.entries.map r.entry ∧
      table.methods = group.program.names.map fun name => (name, r.namePrefix ++ name) := by
  unfold merge at h
  dsimp only at h
  split at h
  · cases (Prod.mk.inj h).1
  · rename_i r host₁ hslots
    split at h
    · cases (Prod.mk.inj h).1
    · rename_i host₂ hmethods
      obtain ⟨htable, rfl⟩ := Prod.mk.inj h
      obtain rfl := Except.ok.inj htable
      obtain ⟨hland, ⟨slots, rfl⟩, slots', rfl⟩ := mergeSlots_lands (Renaming.Lands.nil rfl) hslots
      obtain ⟨rfl, hfresh, hnodup⟩ := mergeMethods_eq hmethods
      refine ⟨_, rfl, ⟨rfl, rfl, ?_, ?_, ?_, hfresh, hnodup, rfl⟩, rfl, rfl⟩
      · have hshaded := Renaming.Lands.shade (r := ⟨namePrefix, _, _, slots⟩) hland howns
        unfold SlotTable.modifyAll at hshaded
        rw [Array.foldl_toList] at hshaded
        exact hshaded
      · rfl
      · show host.methods ++ _ = host.methods ++ _
        rw [← List.map_toArray, Array.toArray_toList]

/-- A merge fails only because a name is taken. -/
lemma merge_error {group : CompiledGroup} {namePrefix : String} {kind : ErrorKind}
    (h : host.merge group namePrefix = (.error kind, host')) :
    ∃ name, kind = .nameCollision name := by
  have hslots : ∀ (l : List Slot) (r : Renaming) (p p' : Program),
      mergeSlots l r p = (.error kind, p') → ∃ name, kind = .nameCollision name := by
    intro l
    induction l with
    | nil =>
      intro r p p' h
      cases (Prod.mk.inj h).1
    | cons x l ih =>
      intro r p p' h
      rw [mergeSlots] at h
      split_ifs at h
      · exact ih _ _ _ h
      · dsimp only at h
        split at h
        · exact ⟨_, (Except.error.inj (Prod.mk.inj h).1).symm⟩
        · exact ih _ _ _ h
  have hmethods : ∀ (r : Renaming) (l : List Method) (p p' : Program),
      mergeMethods r l p = (.error kind, p') → ∃ name, kind = .nameCollision name := by
    intro r l
    induction l with
    | nil =>
      intro p p' h
      cases (Prod.mk.inj h).1
    | cons x l ih =>
      intro p p' h
      rw [mergeMethods] at h
      split_ifs at h
      · exact ⟨_, (Except.error.inj (Prod.mk.inj h).1).symm⟩
      · exact ih _ _ h
  unfold merge at h
  dsimp only at h
  split at h
  · rename_i e host₁ hrun
    obtain rfl := Except.error.inj (Prod.mk.inj h).1
    exact hslots _ _ _ _ hrun
  · split at h
    · rename_i e host₂ hrun
      obtain rfl := Except.error.inj (Prod.mk.inj h).1
      exact hmethods _ _ _ _ hrun
    · cases (Prod.mk.inj h).1

end Program

/-! ## Renamed instructions -/

namespace Renaming

variable {r : Renaming}

lemma instrId_injective (r : Renaming) : Function.Injective r.instrId :=
  fun _ _ h => Nat.add_right_cancel h

lemma operands_instr (r : Renaming) (i : Instr) : (r.instr i).operands = i.operands.map r.slot := by
  cases i <;> rfl

lemma labelTarget_instr (r : Renaming) (i : Instr) :
    (r.instr i).labelTarget = i.labelTarget.map r.instrId := by
  cases i <;> rfl

/-- Only a call of a method is renamed to one. -/
lemma instr_eq_jumpMethod {i : Instr} {name : String} (h : r.instr i = .jumpMethod name) :
    ∃ name', i = .jumpMethod name' ∧ r.method name' = name := by
  cases i with
  | jumpMethod name' => exact ⟨name', rfl, Instr.jumpMethod.inj h⟩
  | _ => cases h

lemma epilogue_eq_indirect {e : Epilogue} {slot : SlotId} (h : r.epilogue e = .indirect slot) :
    ∃ slot', e = .indirect slot' ∧ r.slot slot' = slot := by
  cases e with
  | halt => cases h
  | indirect slot' => exact ⟨slot', rfl, Epilogue.indirect.inj h⟩

/-- Only an address is renamed to an address. -/
lemma value_eq_address {v : Value} {x : Address} (h : r.value v = .address x) :
    (∃ l, v = .address (.instruction l) ∧ x = .instruction (r.instrId l)) ∨
      ∃ name, v = .address (.method name) ∧ x = .method (r.method name) := by
  unfold value at h
  split at h
  · exact .inl ⟨_, rfl, (Value.address.inj h).symm⟩
  · exact .inr ⟨_, rfl, (Value.address.inj h).symm⟩
  · rename_i hinstruction hmethod
    subst h
    cases x with
    | instruction l => exact absurd rfl (hinstruction l)
    | method name => exact absurd rfl (hmethod name)

end Renaming

namespace Program.Merged

variable {host sub host' : Program} {r : Renaming}

section

variable (h : Merged host sub r host')
include h

lemma size_instrs : host'.instrs.size = host.instrs.size + sub.instrs.size := by
  rw [h.instrs, Array.size_append, Array.size_map]

lemma instr_host {id : InstrId} (hid : id < host.instrs.size) : host'.instr id = host.instr id := by
  unfold Program.instr
  rw [h.instrs, Array.getD_eq_getD_getElem?, Array.getD_eq_getD_getElem?,
    Array.getElem?_append_left hid]

/-- The instruction at a position of the copied program is at the renamed position. -/
lemma instr_sub (k : InstrId) : host'.instr (r.instrId k) = r.instr (sub.instr k) := by
  unfold Program.instr Renaming.instrId
  rw [h.instrs, h.offset, Array.getD_eq_getD_getElem?, Array.getD_eq_getD_getElem?,
    Array.getElem?_append_right (Nat.le_add_left _ _), Nat.add_sub_cancel, Array.getElem?_map]
  cases sub.instrs[k]? <;> rfl

lemma method_host {k : MethodId} (hk : k < host.methods.size) : host'.method k = host.method k := by
  simp [Program.method, h.methods, Array.getD_eq_getD_getElem?, Array.getElem?_append_left hk]

lemma method_sub {k : MethodId} (hk : k < sub.methods.size) :
    host'.method (host.methods.size + k) = r.methodDef (sub.method k) := by
  simp [Program.method, h.methods, Array.getD_eq_getD_getElem?, hk]

lemma size_methods : host'.methods.size = host.methods.size + sub.methods.size := by
  simp [h.methods]

lemma placed : host'.placed = host.placed ++ sub.placed.map r.instrId := by
  unfold Program.placed
  rw [h.methods, Array.toList_append, List.flatMap_append, Array.toList_map, List.flatMap_map,
    List.map_flatMap]
  simp [Renaming.methodDef]

lemma endLabels : host'.endLabels = host.endLabels ++ sub.endLabels.map r.instrId := by
  unfold Program.endLabels
  rw [h.methods, Array.toList_append, List.filterMap_append, Array.toList_map, List.filterMap_map,
    List.map_filterMap]
  rfl

lemma names_eq : host'.names = host.names ++ sub.names.map (r.namePrefix ++ ·) := by
  unfold Program.names
  rw [h.methods, Array.toList_append, List.map_append, Array.toList_map, List.map_map, List.map_map]
  rfl

/-- A method of the copied program is known under its new name. -/
lemma method_mem {name : String} (hname : name ∈ sub.names) : r.method name ∈ host'.names := by
  unfold Renaming.method
  rw [if_pos (h.names ▸ hname), h.names_eq]
  exact List.mem_append_right _ (List.mem_map_of_mem hname)

/-- A slot of the copied program is a slot. -/
lemma slot_lt (howns : host.slots.Owns) (hid : id < sub.slots.size) :
    r.slot id < host'.slots.size := by
  have hx := SlotTable.slots_getElem? hid
  cases hthis : (sub.slots.get id).isThis with
  | true => exact (h.slots.owns howns _ (h.slots.this id _ hx hthis)).1
  | false => exact (h.slots.fresh id _ hx hthis).2.1

end

end Program.Merged

end TriggerCompiler
