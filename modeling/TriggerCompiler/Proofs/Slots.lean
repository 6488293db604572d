import Mathlib
import TriggerCompiler.SlotTable

/-!
# Slot tables

A table only grows: what is known about a slot stays true. A sound table finds again what it has
handed out, and the temporaries that nobody holds are kept apart from those in use.
-/

namespace TriggerCompiler

variable {type : ValueType}

/-- What a look-up finds is in the list. -/
lemma mem_of_lookup {α β : Type} [BEq α] [LawfulBEq α] {l : List (α × β)} {k : α} {b : β}
    (h : l.lookup k = some b) : (k, b) ∈ l := by
  obtain ⟨l₁, l₂, rfl, -⟩ := List.lookup_eq_some_iff.mp h
  simp

namespace SlotTable

variable {t u v : SlotTable} {id : SlotId} {slot : Slot} {temps : List SlotId}

/-! ## Growth -/

/-- A table is within another that has the same slots and maybe more. -/
structure Within (t u : SlotTable) : Prop where
  slots : t.slots.toList <+: u.slots.toList
  userIds : u.userIds = t.userIds
  constants : ∀ key id, t.constants.lookup key = some id → u.constants.lookup key = some id

lemma Within.refl (t : SlotTable) : t.Within t := ⟨List.prefix_rfl, rfl, fun _ _ h => h⟩

lemma Within.trans (h : t.Within u) (h' : u.Within v) : t.Within v :=
  ⟨h.slots.trans h'.slots, h'.userIds.trans h.userIds,
    fun key id hid => h'.constants key id (h.constants key id hid)⟩

lemma Within.size_le (h : t.Within u) : t.size ≤ u.size := by
  simpa [size] using h.slots.length_le

lemma Within.get_eq (h : t.Within u) (hid : id < t.size) : u.get id = t.get id := by
  obtain ⟨rest, hrest⟩ := h.slots
  have hid' : id < t.slots.toList.length := by simpa [size] using hid
  unfold SlotTable.get
  rw [Array.getD_eq_getD_getElem?, Array.getD_eq_getD_getElem?, ← Array.getElem?_toList,
    ← Array.getElem?_toList, ← hrest, List.getElem?_append_left hid']

/-- The slot is there and of one of the kinds. -/
def HasKind (t : SlotTable) (kinds : List SlotKind) (id : SlotId) : Prop :=
  id < t.size ∧ (t.get id).kind ∈ kinds

lemma HasKind.within {kinds : List SlotKind} (h : t.HasKind kinds id) (hw : t.Within u) :
    u.HasKind kinds id :=
  ⟨h.1.trans_le hw.size_le, (hw.get_eq h.1).symm ▸ h.2⟩

/-! ## Adding a slot -/

@[simp] lemma size_push (t : SlotTable) (slot : Slot) : (t.push slot).2.size = t.size + 1 := by
  simp [push, size]

lemma push_fst (t : SlotTable) (slot : Slot) : (t.push slot).1 = t.size := rfl

lemma get_push (t : SlotTable) (slot : Slot) (id : SlotId) :
    (t.push slot).2.get id = if id = t.size then slot else t.get id := by
  unfold SlotTable.get push size
  simp only [Array.getD_eq_getD_getElem?, Array.getElem?_push]
  split_ifs <;> rfl

lemma get_push_self (t : SlotTable) (slot : Slot) : (t.push slot).2.get t.size = slot := by
  rw [get_push, if_pos rfl]

lemma get_push_of_lt (slot : Slot) (h : id < t.size) : (t.push slot).2.get id = t.get id := by
  rw [get_push, if_neg h.ne]

lemma within_push (t : SlotTable) (slot : Slot) : t.Within (t.push slot).2 :=
  ⟨by simp [push], rfl, fun _ _ h => h⟩

/-- A slot as the compiler makes it: no variable, an address only if it is a constant, the running
object only if it has its type, and a temporary with the name of one. -/
structure Made (slot : Slot) : Prop where
  kind : slot.kind ≠ .user
  address : ∀ x, slot.initial = some (.address x) → slot.kind = .constant
  this : slot.isThis = true → slot.type = .gameObject
  temporary : slot.kind = .temporary → ∃ index, slot.name = temporaryName slot.type index

/-- The slots that the second table has on top were made by the compiler. -/
def Makes (t u : SlotTable) : Prop := ∀ id, t.size ≤ id → id < u.size → Made (u.get id)

lemma Makes.of_size (h : u.size ≤ t.size) : t.Makes u := fun _ hge hlt =>
  absurd (hlt.trans_le h) (Nat.not_lt.mpr hge)

lemma Makes.trans (h : t.Makes u) (h' : u.Makes v) (hw : u.Within v) : t.Makes v := by
  intro id hge hlt
  by_cases hid : id < u.size
  · rw [hw.get_eq hid]
    exact h id hge hid
  · exact h' id (Nat.le_of_not_lt hid) hlt

lemma makes_push (h : Made slot) : t.Makes (t.push slot).2 := by
  intro id hge hlt
  rw [size_push] at hlt
  rw [le_antisymm (Nat.le_of_lt_succ hlt) hge, get_push_self]
  exact h

/-! ## Sound tables -/

/-- A table finds again what it has handed out, and only variables of the document are watched or
synced. -/
structure Sound (t : SlotTable) : Prop where
  user : ∀ e ∈ t.userIds, e.2 < t.size ∧ (t.get e.2).kind = .user
  constant : ∀ e ∈ t.constants, e.2 < t.size ∧ (t.get e.2).kind = .constant ∧
    (t.get e.2).type = e.1.1 ∧ (t.get e.2).initial = some e.1.2
  free : ∀ e ∈ t.free, e.2 < t.size ∧ (t.get e.2).kind = .temporary ∧ (t.get e.2).type = e.1
  this : ∀ id, t.this = some id ↔ id < t.size ∧ (t.get id).isThis = true
  this_kind : ∀ id < t.size, (t.get id).isThis = true → (t.get id).kind = .reserved
  plain : ∀ id < t.size, (t.get id).kind ≠ .user →
    (t.get id).notifies = false ∧ (t.get id).shadow = none ∧ (t.get id).sync = .none
  shadow : ∀ id < t.size, ∀ sh, (t.get id).shadow = some sh →
    sh < t.size ∧ (t.get sh).kind = .reserved ∧ (t.get sh).isThis = false

/-- Temporaries in use are temporaries, no two of them are the same, and none is in the pool. -/
structure Pool (t : SlotTable) (temps : List SlotId) : Prop where
  nodup : (t.free.map Prod.snd ++ temps).Nodup
  used : ∀ id ∈ temps, id < t.size ∧ (t.get id).kind = .temporary

/-- A slot that a sound table can take without a look at its pools. -/
structure Fresh (t : SlotTable) (slot : Slot) : Prop where
  this_kind : slot.isThis = true → slot.kind = .reserved ∧ t.this = none
  plain : slot.kind ≠ .user → slot.notifies = false ∧ slot.shadow = none ∧ slot.sync = .none
  shadow : ∀ sh, slot.shadow = some sh →
    sh < t.size ∧ (t.get sh).kind = .reserved ∧ (t.get sh).isThis = false

lemma Sound.push (h : t.Sound) (hs : Fresh t slot) : (t.push slot).2.Sound where
  user e he := by
    obtain ⟨hlt, hkind⟩ := h.user e he
    rw [get_push_of_lt _ hlt, size_push]
    exact ⟨Nat.lt_succ_of_lt hlt, hkind⟩
  constant e he := by
    obtain ⟨hlt, hrest⟩ := h.constant e he
    rw [get_push_of_lt _ hlt, size_push]
    exact ⟨Nat.lt_succ_of_lt hlt, hrest⟩
  free e he := by
    obtain ⟨hlt, hrest⟩ := h.free e he
    rw [get_push_of_lt _ hlt, size_push]
    exact ⟨Nat.lt_succ_of_lt hlt, hrest⟩
  this id := by
    rw [size_push, get_push]
    have hthis : (t.push slot).2.this = if slot.isThis then some t.size else t.this := rfl
    rw [hthis]
    by_cases hslot : slot.isThis = true
    · have hnone := (hs.this_kind hslot).2
      rw [if_pos hslot]
      constructor
      · rintro ⟨rfl⟩
        exact ⟨Nat.lt_succ_self _, by rw [if_pos rfl]; exact hslot⟩
      · rintro ⟨hlt, hid⟩
        by_cases heq : id = t.size
        · rw [heq]
        · rw [if_neg heq] at hid
          have := (h.this id).mpr ⟨lt_of_le_of_ne (Nat.le_of_lt_succ hlt) heq, hid⟩
          rw [hnone] at this
          cases this
    · rw [if_neg hslot, h.this id]
      by_cases heq : id = t.size
      · subst heq
        rw [if_pos rfl]
        exact ⟨fun hlt => absurd hlt.1 (lt_irrefl _), fun hid => absurd hid.2 hslot⟩
      · rw [if_neg heq]
        exact ⟨fun hid => ⟨Nat.lt_succ_of_lt hid.1, hid.2⟩,
          fun hid => ⟨lt_of_le_of_ne (Nat.le_of_lt_succ hid.1) heq, hid.2⟩⟩
  this_kind id hid hthis := by
    rw [get_push] at hthis ⊢
    by_cases heq : id = t.size
    · rw [if_pos heq] at hthis ⊢
      exact (hs.this_kind hthis).1
    · rw [if_neg heq] at hthis ⊢
      rw [size_push] at hid
      exact h.this_kind id (lt_of_le_of_ne (Nat.le_of_lt_succ hid) heq) hthis
  plain id hid hkind := by
    rw [get_push] at hkind ⊢
    by_cases heq : id = t.size
    · rw [if_pos heq] at hkind ⊢
      exact hs.plain hkind
    · rw [if_neg heq] at hkind ⊢
      rw [size_push] at hid
      exact h.plain id (lt_of_le_of_ne (Nat.le_of_lt_succ hid) heq) hkind
  shadow id hid sh hsh := by
    have key : sh < t.size ∧ (t.get sh).kind = .reserved ∧ (t.get sh).isThis = false := by
      rw [get_push] at hsh
      by_cases heq : id = t.size
      · rw [if_pos heq] at hsh
        exact hs.shadow sh hsh
      · rw [if_neg heq] at hsh
        rw [size_push] at hid
        exact h.shadow id (lt_of_le_of_ne (Nat.le_of_lt_succ hid) heq) sh hsh
    rw [size_push, get_push_of_lt _ key.1]
    exact ⟨Nat.lt_succ_of_lt key.1, key.2⟩

lemma Pool.push (h : t.Pool temps) (slot : Slot) : (t.push slot).2.Pool temps where
  nodup := h.nodup
  used id hid := by
    obtain ⟨hlt, hkind⟩ := h.used id hid
    rw [size_push, get_push_of_lt _ hlt]
    exact ⟨Nat.lt_succ_of_lt hlt, hkind⟩

/-! ## Temporaries -/

/-- A slot taken out of the pool was there, and the others stay. -/
lemma takeFree_perm {free rest : List (ValueType × SlotId)}
    (h : takeFree type free = some (id, rest)) : free.Perm ((type, id) :: rest) := by
  induction free generalizing rest with
  | nil => simp [takeFree] at h
  | cons e free ih =>
    obtain ⟨type', id'⟩ := e
    rw [takeFree] at h
    split_ifs at h with htype
    · obtain ⟨rfl, rfl⟩ := Prod.mk.inj (Option.some.inj h)
      rw [htype]
    · obtain ⟨⟨found, rest'⟩, hfound, hrest⟩ := Option.map_eq_some_iff.mp h
      obtain ⟨rfl, rfl⟩ := Prod.mk.inj hrest
      exact ((ih hfound).cons _).trans (List.Perm.swap _ _ _)

/-- The slot of a new temporary. -/
def temporarySlot (t : SlotTable) (type : ValueType) : Slot where
  name := temporaryName type
    (firstFree t.isTaken (temporaryName type) (t.size + 1) t.temporaryCount)
  type := type
  kind := .temporary

/-- A temporary is one that nobody held, or a new slot. -/
lemma requestTemporary_cases (t : SlotTable) (type : ValueType) :
    (∃ id rest, takeFree type t.free = some (id, rest) ∧
      t.requestTemporary type = (id, { t with free := rest })) ∨
    (takeFree type t.free = none ∧ ∃ count, t.requestTemporary type =
      ({ t with temporaryCount := count } : SlotTable).push (t.temporarySlot type)) := by
  unfold requestTemporary
  cases h : takeFree type t.free with
  | none => exact .inr ⟨rfl, _, rfl⟩
  | some e => exact .inl ⟨e.1, e.2, rfl, rfl⟩

/-- What a request for a temporary gives. -/
structure Taken (t : SlotTable) (type : ValueType) (temps : List SlotId) (id : SlotId)
    (u : SlotTable) : Prop where
  sound : u.Sound
  pool : u.Pool (id :: temps)
  within : t.Within u
  lt : id < u.size
  kind : (u.get id).kind = .temporary
  type_eq : (u.get id).type = type
  not_mem : id ∉ temps
  new : ∀ x < u.size, t.size ≤ x → (u.get x).initial = none

/-- A temporary that is none of those in use. -/
structure Spare (t : SlotTable) (temps : List SlotId) (id : SlotId) : Prop where
  lt : id < t.size
  kind : (t.get id).kind = .temporary
  not_mem : id ∉ temps

lemma Spare.within {id : SlotId} (h : t.Spare temps id) (hw : t.Within u) : u.Spare temps id :=
  ⟨h.lt.trans_le hw.size_le, hw.get_eq h.lt ▸ h.kind, h.not_mem⟩

lemma Taken.spare {id : SlotId} (h : Taken t type temps id u) : u.Spare temps id :=
  ⟨h.lt, h.kind, h.not_mem⟩

lemma requestTemporary_taken (h : t.Sound) (hp : t.Pool temps) (type : ValueType) :
    Taken t type temps (t.requestTemporary type).1 (t.requestTemporary type).2 := by
  obtain ⟨id, rest, htake, hreq⟩ | ⟨-, count, hreq⟩ := requestTemporary_cases t type
  · have hperm := takeFree_perm htake
    have hmem : (type, id) ∈ t.free := hperm.mem_iff.mpr List.mem_cons_self
    obtain ⟨hlt, hkind, htype⟩ := h.free _ hmem
    have hnodup : (id :: (rest.map Prod.snd ++ temps)).Nodup :=
      (((hperm.map Prod.snd).append_right temps).nodup_iff).mp hp.nodup
    rw [hreq]
    refine ⟨?_, ?_, ⟨List.prefix_rfl, rfl, fun _ _ h => h⟩, hlt, hkind, htype, fun hid => ?_,
      fun x hx hge => absurd hx (Nat.not_lt.mpr hge)⟩
    · exact { h with free := fun e he => h.free e (hperm.mem_iff.mpr (List.mem_cons_of_mem _ he)) }
    · refine ⟨(List.perm_middle.nodup_iff).mpr hnodup, fun x hx => ?_⟩
      rcases List.mem_cons.mp hx with rfl | hx
      · exact ⟨hlt, hkind⟩
      · exact hp.used x hx
    · exact (List.nodup_cons.mp hnodup).1 (List.mem_append_right _ hid)
  · have hfresh : Fresh ({ t with temporaryCount := count } : SlotTable) (t.temporarySlot type) :=
      ⟨by simp [temporarySlot], by simp [temporarySlot], by simp [temporarySlot]⟩
    have hsound : ({ t with temporaryCount := count } : SlotTable).Sound := { h with }
    have hpool : ({ t with temporaryCount := count } : SlotTable).Pool temps := { hp with }
    have hnew : ∀ x ∈ t.free.map Prod.snd ++ temps, x < t.size := by
      intro x hx
      rcases List.mem_append.mp hx with hx | hx
      · obtain ⟨e, he, rfl⟩ := List.mem_map.mp hx
        exact (h.free e he).1
      · exact (hp.used x hx).1
    have hget := get_push_self ({ t with temporaryCount := count } : SlotTable)
      (t.temporarySlot type)
    rw [hreq]
    refine ⟨hsound.push hfresh, ⟨?_, ?_⟩, ⟨by simp [push], rfl, fun _ _ h => h⟩, ?_, ?_, ?_,
      fun hid => ?_, fun x hx hge => ?_⟩
    · refine (List.perm_middle.nodup_iff).mpr (List.nodup_cons.mpr ⟨fun hmem => ?_, hp.nodup⟩)
      exact lt_irrefl _ (hnew _ hmem)
    · intro x hx
      rcases List.mem_cons.mp hx with rfl | hx
      · exact ⟨by rw [size_push]; exact Nat.lt_succ_self _, by rw [push_fst, hget]; rfl⟩
      · exact (hpool.push _).used x hx
    · rw [size_push]
      exact Nat.lt_succ_self _
    · rw [push_fst, hget]
      rfl
    · rw [push_fst, hget]
      rfl
    · exact lt_irrefl _ (hnew _ (List.mem_append_right _ hid))
    · rw [size_push] at hx
      rw [le_antisymm (Nat.le_of_lt_succ hx) hge]
      exact congrArg Slot.initial hget

lemma requestTemporary_makes (t : SlotTable) (type : ValueType) :
    t.Makes (t.requestTemporary type).2 := by
  obtain ⟨id, rest, -, hreq⟩ | ⟨-, count, hreq⟩ := requestTemporary_cases t type
  · rw [hreq]
    exact Makes.of_size le_rfl
  · rw [hreq]
    exact makes_push (t := { t with temporaryCount := count })
      ⟨by simp [temporarySlot], by simp [temporarySlot], by simp [temporarySlot],
        fun _ => ⟨_, rfl⟩⟩

lemma release_makes (t : SlotTable) (id : SlotId) : t.Makes (t.release id) := by
  unfold release
  dsimp only
  split_ifs
  all_goals exact Makes.of_size le_rfl

lemma within_release (t : SlotTable) (id : SlotId) : t.Within (t.release id) := by
  unfold release
  dsimp only
  split_ifs
  · exact ⟨List.prefix_rfl, rfl, fun _ _ h => h⟩
  · exact Within.refl t

/-- A temporary that goes back to the pool is not in use any more. -/
lemma release_sound (h : t.Sound) (hp : t.Pool (id :: temps)) :
    (t.release id).Sound ∧ (t.release id).Pool temps := by
  obtain ⟨hlt, hkind⟩ := hp.used id List.mem_cons_self
  have hrel : t.release id = { t with free := ((t.get id).type, id) :: t.free } := by
    unfold release
    rw [if_pos hkind]
  rw [hrel]
  refine ⟨{ h with free := fun e he => ?_ }, ⟨?_, ?_⟩⟩
  · rcases List.mem_cons.mp he with rfl | he
    · exact ⟨hlt, hkind, rfl⟩
    · exact h.free e he
  · exact (List.perm_middle.nodup_iff).mp hp.nodup
  · exact fun x hx => hp.used x (List.mem_cons_of_mem _ hx)

/-! ## Accounts of temporaries -/

/-- The temporaries that the second table has in its pool or in use are those of the first table and
those that are new in it. -/
def Accounts (t : SlotTable) (temps : List SlotId) (u : SlotTable) (used : List SlotId) : Prop :=
  ∀ x, x ∈ u.free.map Prod.snd ++ used ↔ x ∈ t.free.map Prod.snd ++ temps ∨
    (t.size ≤ x ∧ x < u.size ∧ (u.get x).kind = .temporary)

/-- No slot is new, and none is lost. -/
lemma Accounts.of_perm {used : List SlotId} (hsize : u.size ≤ t.size)
    (h : (u.free.map Prod.snd ++ used).Perm (t.free.map Prod.snd ++ temps)) :
    t.Accounts temps u used := by
  intro x
  rw [h.mem_iff]
  refine ⟨.inl, fun hx => hx.elim id ?_⟩
  rintro ⟨hge, hlt, -⟩
  exact absurd hlt (Nat.not_lt.mpr (hsize.trans hge))

lemma Accounts.refl (t : SlotTable) (temps : List SlotId) : t.Accounts temps t temps :=
  .of_perm le_rfl (List.Perm.refl _)

lemma Accounts.trans {used kept : List SlotId} (h : t.Accounts temps u used)
    (h' : u.Accounts used v kept) (hw : t.Within u) (hw' : u.Within v) : t.Accounts temps v kept := by
  intro x
  rw [h' x, h x]
  constructor
  · rintro ((hx | ⟨hge, hlt, hkind⟩) | ⟨hge, hlt, hkind⟩)
    · exact .inl hx
    · exact .inr ⟨hge, hlt.trans_le hw'.size_le, (hw'.get_eq hlt).symm ▸ hkind⟩
    · exact .inr ⟨hw.size_le.trans hge, hlt, hkind⟩
  · rintro (hx | ⟨hge, hlt, hkind⟩)
    · exact .inl (.inl hx)
    · by_cases hxu : x < u.size
      · exact .inl (.inr ⟨hge, hxu, hw'.get_eq hxu ▸ hkind⟩)
      · exact .inr ⟨Nat.le_of_not_lt hxu, hlt, hkind⟩

/-- A new slot is a temporary in use, or no temporary at all. -/
lemma accounts_push (t : SlotTable) (slot : Slot) (temps : List SlotId) :
    t.Accounts temps (t.push slot).2
      (if slot.kind = .temporary then t.size :: temps else temps) := by
  intro x
  have hfree : (t.push slot).2.free = t.free := rfl
  have hnew : (t.size ≤ x ∧ x < (t.push slot).2.size ∧ ((t.push slot).2.get x).kind = .temporary) ↔
      x = t.size ∧ slot.kind = .temporary := by
    rw [size_push, get_push]
    constructor
    · rintro ⟨hge, hlt, hkind⟩
      have hx : x = t.size := le_antisymm (Nat.le_of_lt_succ hlt) hge
      rw [if_pos hx] at hkind
      exact ⟨hx, hkind⟩
    · rintro ⟨rfl, hkind⟩
      exact ⟨le_rfl, Nat.lt_succ_self _, by rw [if_pos rfl]; exact hkind⟩
  rw [hnew, hfree]
  split_ifs with hkind
  · simp only [List.mem_append, List.mem_cons, hkind, and_true]
    tauto
  · simp [hkind]

lemma requestTemporary_accounts (t : SlotTable) (type : ValueType) (temps : List SlotId) :
    t.Accounts temps (t.requestTemporary type).2 ((t.requestTemporary type).1 :: temps) := by
  obtain ⟨id, rest, htake, hreq⟩ | ⟨-, count, hreq⟩ := requestTemporary_cases t type
  · rw [hreq]
    refine .of_perm le_rfl (List.perm_middle.trans ?_)
    exact (((takeFree_perm htake).map Prod.snd).append_right temps).symm
  · rw [hreq]
    exact accounts_push { t with temporaryCount := count } (t.temporarySlot type) temps

lemma release_accounts (hkind : (t.get id).kind = .temporary) (hid : id ∈ temps) :
    t.Accounts temps (t.release id) (temps.erase id) := by
  have hrel : t.release id = { t with free := ((t.get id).type, id) :: t.free } := by
    unfold release
    rw [if_pos hkind]
  rw [hrel]
  refine .of_perm le_rfl (List.Perm.trans ?_ ((List.perm_cons_erase hid).symm.append_left _))
  exact List.perm_middle.symm

/-! ## Constants and the running object -/

/-- The slot is that of a constant. -/
structure IsConstant (t : SlotTable) (type : ValueType) (value : Value) (id : SlotId) : Prop where
  lt : id < t.size
  kind : (t.get id).kind = .constant
  type_eq : (t.get id).type = type
  initial : (t.get id).initial = some value

lemma IsConstant.within {value : Value} (h : t.IsConstant type value id) (hw : t.Within u) :
    u.IsConstant type value id := by
  have hget := hw.get_eq h.lt
  exact ⟨h.lt.trans_le hw.size_le, hget ▸ h.kind, hget ▸ h.type_eq, hget ▸ h.initial⟩

/-- What a request for a constant gives. -/
structure Fixed (t : SlotTable) (type : ValueType) (value : Value) (temps : List SlotId)
    (id : SlotId) (u : SlotTable) : Prop where
  sound : u.Sound
  pool : u.Pool temps
  within : t.Within u
  isConstant : u.IsConstant type value id
  new : ∀ x < u.size, t.size ≤ x → (u.get x).initial = some value

lemma constant_fixed (h : t.Sound) (hp : t.Pool temps) (type : ValueType) (value : Value) :
    Fixed t type value temps (t.constant type value).1 (t.constant type value).2 := by
  unfold SlotTable.constant
  cases hlookup : t.constants.lookup (type, value) with
  | some id =>
    obtain ⟨hlt, hkind, htype, hinit⟩ := h.constant _ (mem_of_lookup hlookup)
    exact ⟨h, hp, Within.refl t, ⟨hlt, hkind, htype, hinit⟩,
      fun x hx hge => absurd hx (Nat.not_lt.mpr hge)⟩
  | none =>
    set slot : Slot :=
      { name := constantName type
          (firstFree t.isTaken (constantName type) (t.size + 1) t.constants.length)
        type, kind := .constant, initial := some value } with hslot
    have hpush : (t.push slot).2.Sound := h.push ⟨by simp [hslot], by simp [hslot], by simp [hslot]⟩
    have hget := get_push_self t slot
    have hsize : t.size < (t.push slot).2.size := by
      rw [size_push]
      exact Nat.lt_succ_self _
    refine ⟨{ hpush with constant := fun e he => ?_ }, ?_, ?_, ⟨hsize, ?_, ?_, ?_⟩,
      fun x hx hge => ?_⟩
    · rcases List.mem_cons.mp he with rfl | he
      · exact ⟨hsize, congrArg Slot.kind hget, congrArg Slot.type hget,
          congrArg Slot.initial hget⟩
      · exact hpush.constant e he
    · exact { hp.push slot with }
    · refine ⟨(within_push t slot).slots, rfl, fun key id hid => ?_⟩
      have hne : key ≠ (type, value) := fun h => by simp [h, hlookup] at hid
      rw [List.lookup_cons, beq_false_of_ne hne]
      exact hid
    · exact congrArg Slot.kind hget
    · exact congrArg Slot.type hget
    · exact congrArg Slot.initial hget
    · have hx : x < (t.push slot).2.size := hx
      rw [size_push] at hx
      rw [le_antisymm (Nat.le_of_lt_succ hx) hge]
      exact congrArg Slot.initial hget

lemma constant_makes (t : SlotTable) (type : ValueType) (value : Value) :
    t.Makes (t.constant type value).2 := by
  unfold SlotTable.constant
  cases t.constants.lookup (type, value) with
  | some id => exact Makes.of_size le_rfl
  | none =>
    intro id hge hlt
    exact makes_push (t := t) ⟨by simp, by simp, by simp, by simp⟩ id hge hlt

lemma constant_accounts (t : SlotTable) (type : ValueType) (value : Value) (temps : List SlotId) :
    t.Accounts temps (t.constant type value).2 temps := by
  unfold SlotTable.constant
  cases t.constants.lookup (type, value) with
  | some id => exact Accounts.refl t temps
  | none =>
    exact accounts_push t { name := constantName type (firstFree t.isTaken (constantName type)
      (t.size + 1) t.constants.length), type, kind := .constant, initial := some value } temps

/-- The slot is that of the running object. -/
structure IsThis (t : SlotTable) (id : SlotId) : Prop where
  lt : id < t.size
  isThis : (t.get id).isThis = true

lemma IsThis.within (h : t.IsThis id) (hw : t.Within u) : u.IsThis id :=
  ⟨h.lt.trans_le hw.size_le, by rw [hw.get_eq h.lt]; exact h.isThis⟩

/-- What a request for the running object's slot gives. -/
structure Own (t : SlotTable) (temps : List SlotId) (id : SlotId) (u : SlotTable) : Prop where
  sound : u.Sound
  pool : u.Pool temps
  within : t.Within u
  isThis : u.IsThis id
  new : ∀ x < u.size, t.size ≤ x → (u.get x).initial = none

lemma thisSlot_own (h : t.Sound) (hp : t.Pool temps) :
    Own t temps t.thisSlot.1 t.thisSlot.2 := by
  unfold thisSlot
  cases hthis : t.this with
  | some id =>
    obtain ⟨hlt, hid⟩ := (h.this id).mp hthis
    exact ⟨h, hp, Within.refl t, ⟨hlt, hid⟩,
      fun x hx hge => absurd hx (Nat.not_lt.mpr hge)⟩
  | none =>
    refine ⟨h.push ⟨fun _ => ⟨rfl, hthis⟩, by simp, by simp⟩, hp.push _, within_push t _,
      ⟨?_, ?_⟩, fun x hx hge => ?_⟩
    · rw [size_push]
      exact Nat.lt_succ_self _
    · exact congrArg Slot.isThis (get_push_self t _)
    · rw [size_push] at hx
      rw [le_antisymm (Nat.le_of_lt_succ hx) hge]
      exact congrArg Slot.initial (get_push_self t _)

lemma thisSlot_makes (t : SlotTable) : t.Makes t.thisSlot.2 := by
  unfold thisSlot
  cases t.this with
  | some id => exact Makes.of_size le_rfl
  | none => exact makes_push ⟨by simp, by simp, by simp, by simp⟩

lemma thisSlot_accounts (t : SlotTable) (temps : List SlotId) :
    t.Accounts temps t.thisSlot.2 temps := by
  unfold thisSlot
  cases t.this with
  | some id => exact Accounts.refl t temps
  | none => exact accounts_push t _ temps

end SlotTable

end TriggerCompiler
