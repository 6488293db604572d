import Mathlib
import TriggerCompiler.Assembly.Event
import TriggerCompiler.Proofs.Merging
import TriggerCompiler.Proofs.Methods

/-!
# The variables of a document

A compile starts with the variables that the document declares. Each gets a slot of its own, and a
watched one a second slot for the value that its handler knows. No two of these slots share a name.
-/

namespace TriggerCompiler

variable {shadow : SlotId} {decls : List VariableDecl}

namespace SlotTable

variable {t u : SlotTable} {id x : SlotId} {v : VariableDecl}

/-! ## Shadows -/

/-- A variable gets a shadow. -/
def withShadow (t : SlotTable) (id shadow : SlotId) : SlotTable :=
  t.modify id fun s => { s with shadow := some shadow }

@[simp] lemma size_withShadow (t : SlotTable) (id shadow : SlotId) :
    (t.withShadow id shadow).size = t.size := size_modify _ _ _

lemma get_withShadow_of_ne (hx : x < t.size) (hne : x ≠ id) :
    (t.withShadow id shadow).get x = t.get x := by
  unfold withShadow
  rw [get_modify _ _ hx, if_neg (Ne.symm hne)]

lemma get_withShadow_self (hid : id < t.size) :
    (t.withShadow id shadow).get id = { t.get id with shadow := some shadow } := by
  unfold withShadow
  rw [get_modify _ _ hid, if_pos rfl]

/-- But for the shadow a slot stays as it was. -/
lemma get_withShadow (id shadow : SlotId) (hx : x < t.size) :
    ∃ sh, (t.withShadow id shadow).get x = { t.get x with shadow := sh } ∧
      (x ≠ id → sh = (t.get x).shadow) ∧ (x = id → sh = some shadow) := by
  by_cases hne : x = id
  · subst hne
    exact ⟨_, get_withShadow_self hx, fun h => absurd rfl h, fun _ => rfl⟩
  · exact ⟨_, (get_withShadow_of_ne hx hne).trans rfl, fun _ => rfl, fun h => absurd h hne⟩

lemma Sound.withShadow (h : t.Sound) (hkind : (t.get id).kind = .user) (hshadow : shadow < t.size)
    (hreserved : (t.get shadow).kind = .reserved) (hthis : (t.get shadow).isThis = false) :
    (t.withShadow id shadow).Sound where
  user e he := by
    obtain ⟨hlt, huser⟩ := h.user e he
    obtain ⟨sh, hget, -⟩ := get_withShadow id shadow hlt
    rw [size_withShadow, hget]
    exact ⟨hlt, huser⟩
  constant e he := by
    obtain ⟨hlt, hrest⟩ := h.constant e he
    obtain ⟨sh, hget, -⟩ := get_withShadow id shadow hlt
    rw [size_withShadow, hget]
    exact ⟨hlt, hrest⟩
  free e he := by
    obtain ⟨hlt, hrest⟩ := h.free e he
    obtain ⟨sh, hget, -⟩ := get_withShadow id shadow hlt
    rw [size_withShadow, hget]
    exact ⟨hlt, hrest⟩
  this x := by
    have hx : (t.withShadow id shadow).this = t.this := rfl
    rw [hx, h.this x, size_withShadow]
    refine and_congr_right fun hlt => ?_
    obtain ⟨sh, hget, -⟩ := get_withShadow id shadow hlt
    rw [hget]
  this_kind x hx := by
    rw [size_withShadow] at hx
    obtain ⟨sh, hget, -⟩ := get_withShadow id shadow hx
    rw [hget]
    exact h.this_kind x hx
  plain x hx hne := by
    rw [size_withShadow] at hx
    obtain ⟨sh, hget, hother, -⟩ := get_withShadow id shadow hx
    rw [hget] at hne ⊢
    rw [hother fun hxid => hne (hxid ▸ hkind)]
    exact h.plain x hx hne
  shadow x hx sh hsh := by
    rw [size_withShadow] at hx
    obtain ⟨sh', hget, hother, hself⟩ := get_withShadow id shadow hx
    rw [hget] at hsh
    have key : sh < t.size ∧ (t.get sh).kind = .reserved ∧ (t.get sh).isThis = false := by
      by_cases hxid : x = id
      · rw [hself hxid] at hsh
        obtain rfl := Option.some.inj hsh
        exact ⟨hshadow, hreserved, hthis⟩
      · rw [hother hxid] at hsh
        exact h.shadow x hx sh hsh
    obtain ⟨sh'', hget', -⟩ := get_withShadow id shadow key.1
    rw [size_withShadow, hget']
    exact key

/-! ## One variable -/

/-- The slot is that of a variable, which has a shadow if it is watched. -/
structure IsVariable (t : SlotTable) (v : VariableDecl) (id : SlotId) : Prop where
  lt : id < t.size
  get : ∃ shadow, t.get id = { userSlot v with shadow := shadow } ∧ shadow.isSome = v.notifies ∧
    ∀ sh, shadow = some sh → sh < t.size ∧ t.get sh = shadowSlot v

lemma IsVariable.within (h : t.IsVariable v id) (hw : t.Within u) : u.IsVariable v id := by
  obtain ⟨shadow, hget, hsome, hshadow⟩ := h.get
  refine ⟨h.lt.trans_le hw.size_le, shadow, (hw.get_eq h.lt).trans hget, hsome, fun sh hsh => ?_⟩
  obtain ⟨hlt, hget⟩ := hshadow sh hsh
  exact ⟨hlt.trans_le hw.size_le, (hw.get_eq hlt).trans hget⟩

/-- The table with the slots of a variable. -/
def withVariable (t : SlotTable) (v : VariableDecl) : SlotTable :=
  if v.notifies then ((t.push (userSlot v)).2.push (shadowSlot v)).2.withShadow t.size (t.size + 1)
  else (t.push (userSlot v)).2

/-- The slots that a variable adds. -/
def variableSlots (t : SlotTable) (v : VariableDecl) : List Slot :=
  if v.notifies then [{ userSlot v with shadow := some (t.size + 1) }, shadowSlot v] else [userSlot v]

lemma slots_withVariable (t : SlotTable) (v : VariableDecl) :
    (t.withVariable v).slots.toList = t.slots.toList ++ t.variableSlots v := by
  unfold withVariable variableSlots
  split_ifs
  · simp only [withShadow, modify, push, Array.toList_modify, Array.toList_push, List.append_assoc]
    rw [List.modify_eq_take_drop]
    simp [size]
  · simp [push]

lemma userIds_withVariable (t : SlotTable) (v : VariableDecl) :
    (t.withVariable v).userIds = t.userIds := by
  unfold withVariable
  split_ifs <;> rfl

lemma free_withVariable (t : SlotTable) (v : VariableDecl) :
    (t.withVariable v).free = t.free := by
  unfold withVariable
  split_ifs <;> rfl

lemma constants_withVariable (t : SlotTable) (v : VariableDecl) :
    (t.withVariable v).constants = t.constants := by
  unfold withVariable
  split_ifs <;> rfl

lemma within_withVariable (t : SlotTable) (v : VariableDecl) : t.Within (t.withVariable v) :=
  ⟨⟨_, (slots_withVariable t v).symm⟩, userIds_withVariable t v, fun key id h => by
    rwa [constants_withVariable]⟩

lemma get_withVariable_of_ge {k : Nat} {slot : Slot} (h : (t.variableSlots v)[k]? = some slot) :
    t.size + k < (t.withVariable v).size ∧ (t.withVariable v).get (t.size + k) = slot := by
  refine get_of_getElem? ?_
  rw [slots_withVariable, List.getElem?_append_right (by simp [size])]
  simpa [size] using h

lemma isVariable_withVariable (t : SlotTable) (v : VariableDecl) :
    (t.withVariable v).IsVariable v t.size := by
  by_cases hn : v.notifies = true
  · have hslots : t.variableSlots v =
        [{ userSlot v with shadow := some (t.size + 1) }, shadowSlot v] := if_pos hn
    obtain ⟨hlt, hget⟩ := get_withVariable_of_ge (t := t) (v := v) (k := 0) (by rw [hslots]; rfl)
    refine ⟨hlt, _, hget, hn.symm, fun sh hsh => ?_⟩
    obtain rfl := Option.some.inj hsh
    exact get_withVariable_of_ge (k := 1) (by rw [hslots]; rfl)
  · have hslots : t.variableSlots v = [userSlot v] := if_neg hn
    obtain ⟨hlt, hget⟩ := get_withVariable_of_ge (t := t) (v := v) (k := 0) (by rw [hslots]; rfl)
    exact ⟨hlt, none, hget, by simp [hn], by simp⟩

lemma Sound.withVariable (h : t.Sound) (v : VariableDecl) : (t.withVariable v).Sound := by
  have huser : (t.push (userSlot v)).2.Sound :=
    h.push ⟨by simp [userSlot], by simp [userSlot], by simp [userSlot]⟩
  unfold SlotTable.withVariable
  split_ifs
  · have hlt : t.size < (t.push (userSlot v)).2.size := by
      rw [size_push]
      exact Nat.lt_succ_self _
    have hself := get_push_self (t.push (userSlot v)).2 (shadowSlot v)
    rw [size_push] at hself
    refine (huser.push ⟨by simp [shadowSlot], by simp [shadowSlot], by simp [shadowSlot]⟩).withShadow
      ?_ ?_ ?_ ?_
    · rw [get_push_of_lt _ hlt, get_push_self]
      rfl
    · rw [size_push, size_push]
      exact Nat.lt_succ_self _
    · rw [hself]
      rfl
    · rw [hself]
      rfl
  · exact huser

/-- A variable whose id and names are new gets its slots; any other is a duplicate. One of which only
the shadow's name is taken leaves its slot behind. -/
lemma declareUser_cases (t : SlotTable) (v : VariableDecl) :
    (t.declareUser v = (.ok t.size, { t.withVariable v with
        userIds := (v.id, t.size) :: (t.withVariable v).userIds }) ∧
      t.userIds.lookup v.id = none ∧ t.findName? v.name = none ∧
      (v.notifies = true → (t.push (userSlot v)).2.findName? ("__prev_" ++ v.name) = none)) ∨
    ∃ name kind u, t.declareUser v = (.error (.duplicateName name kind), u) ∧
      (u = t ∨ u = (t.push (userSlot v)).2 ∧ v.notifies = true ∧ t.findName? v.name = none) := by
  unfold declareUser
  by_cases hid : (t.userIds.lookup v.id).isSome = true
  · rw [if_pos hid]
    exact .inr ⟨_, _, _, rfl, .inl rfl⟩
  rw [if_neg hid]
  have hnew : t.userIds.lookup v.id = none := Option.not_isSome_iff_eq_none.mp hid
  cases hinsert : t.insert (userSlot v) with
  | error kind =>
    obtain ⟨name, other, rfl⟩ := insert_eq_error hinsert
    exact .inr ⟨_, _, _, rfl, .inl rfl⟩
  | ok e =>
    obtain ⟨slot, u⟩ := e
    obtain ⟨hname, rfl, rfl⟩ := insert_eq_ok hinsert
    dsimp only
    by_cases hn : v.notifies = true
    · cases hshadow : (t.push (userSlot v)).2.insert (shadowSlot v) with
      | error kind =>
        obtain ⟨name, other, rfl⟩ := insert_eq_error hshadow
        rw [if_pos hn]
        exact .inr ⟨_, _, _, rfl, .inr ⟨rfl, hn, hname⟩⟩
      | ok e =>
        obtain ⟨shadow, u⟩ := e
        obtain ⟨hname', rfl, rfl⟩ := insert_eq_ok hshadow
        refine .inl ⟨?_, hnew, hname, fun _ => hname'⟩
        unfold withVariable
        rw [if_pos hn, if_pos hn, size_push]
        rfl
    · refine .inl ⟨?_, hnew, hname, fun h => absurd h hn⟩
      unfold withVariable
      rw [if_neg hn, if_neg hn]

/-! ## All variables -/

/-- The table after the declarations of a document. -/
structure Declares (t : SlotTable) (decls : List VariableDecl) : Prop where
  sound : t.Sound
  free : t.free = []
  ids : (decls.map (·.id)).Nodup
  names : (t.slots.toList.map (·.name)).Nodup
  isVariable : ∀ v ∈ decls, ∃ id, t.userIds.lookup v.id = some id ∧ t.IsVariable v id
  users : ∀ e ∈ t.userIds, ∃ v ∈ decls, v.id = e.1
  initial : ∀ x ∈ t.slots.toList, ∃ v ∈ decls, x.initial = v.initial
  isThis : ∀ x ∈ t.slots.toList, x.isThis = false
  kinds : ∀ x ∈ t.slots.toList, x.kind ≠ .temporary
  shadows : ∀ x ∈ t.slots.toList, x.shadow ≠ none → ∃ v ∈ decls, v.notifies = true ∧ x.name = v.name

lemma Declares.eq_of_name (h : t.Declares decls) {id id' : SlotId} (hid : id < t.size)
    (hid' : id' < t.size) (hname : (t.get id).name = (t.get id').name) :
    id = id' := by
  have hget := congrArg (Option.map (·.name)) (slots_getElem? hid)
  have hget' := congrArg (Option.map (·.name)) (slots_getElem? hid')
  rw [← List.getElem?_map] at hget hget'
  apply (List.getElem?_inj _ h.names).mp
  · rw [hget, hget']
    exact congrArg some hname
  · simpa [size] using hid

lemma declares_empty : Declares {} [] where
  sound := Site.sound_empty.table
  free := rfl
  ids := List.nodup_nil
  names := List.nodup_nil
  isVariable := by simp
  users := by simp
  initial := by simp
  isThis := by simp
  kinds := by simp
  shadows := by simp

lemma findName?_eq_none {name : String} (h : t.findName? name = none) :
    ∀ x ∈ t.slots.toList, x.name ≠ name := by
  intro x hx heq
  have h := Array.findIdx?_eq_none_iff.mp h x (Array.mem_toList_iff.mp hx)
  simp [heq] at h

/-- The names of the slots that a variable adds are new, and not the same. -/
lemma nodup_names_withVariable (h : (t.slots.toList.map (·.name)).Nodup)
    (hname : t.findName? v.name = none)
    (hshadow : v.notifies = true → (t.push (userSlot v)).2.findName? ("__prev_" ++ v.name) = none) :
    ((t.withVariable v).slots.toList.map (·.name)).Nodup := by
  have hnew := findName?_eq_none hname
  rw [slots_withVariable, List.map_append]
  unfold variableSlots
  split_ifs with hn
  · have hnew' := findName?_eq_none (hshadow hn)
    refine List.nodup_append'.mpr ⟨h, ?_, ?_⟩
    · have hne := hnew' (userSlot v) (by simp [push])
      simpa [userSlot, shadowSlot] using hne
    · intro n hn hn'
      obtain ⟨x, hx, rfl⟩ := List.mem_map.mp hn
      simp only [List.map_cons, List.map_nil, List.mem_cons, List.not_mem_nil, or_false] at hn'
      rcases hn' with hn' | hn'
      · exact hnew x hx hn'
      · exact hnew' x (by simp [push, Array.mem_toList_iff.mp hx]) hn'
  · refine List.nodup_append'.mpr ⟨h, List.nodup_singleton _, ?_⟩
    intro n hn hn'
    obtain ⟨x, hx, rfl⟩ := List.mem_map.mp hn
    exact hnew x hx (List.mem_singleton.mp hn')

lemma of_mem_variableSlots {slot : Slot} (h : slot ∈ t.variableSlots v) :
    slot.initial = v.initial ∧ slot.isThis = false ∧ slot.kind ≠ .temporary ∧
      (slot.shadow ≠ none → v.notifies = true ∧ slot.name = v.name) := by
  unfold variableSlots at h
  split_ifs at h with hn
  · simp only [List.mem_cons, List.not_mem_nil, or_false] at h
    rcases h with rfl | rfl
    · exact ⟨rfl, rfl, by simp [userSlot], fun _ => ⟨hn, rfl⟩⟩
    · exact ⟨rfl, rfl, by simp [shadowSlot], fun hsh => absurd rfl hsh⟩
  · rw [List.mem_singleton.mp h]
    exact ⟨rfl, rfl, by simp [userSlot], fun hsh => absurd rfl hsh⟩

lemma Declares.declareUser (h : t.Declares decls) (hrun : t.declareUser v = (.ok id, u)) :
    u.Declares (decls ++ [v]) := by
  obtain ⟨hok, hlookup, hname, hshadow⟩ | ⟨name, kind, w, herror, -⟩ := declareUser_cases t v
  · obtain ⟨-, rfl⟩ := Prod.mk.inj (hok.symm.trans hrun)
    have hfresh : ∀ d ∈ decls, d.id ≠ v.id := by
      intro d hd heq
      obtain ⟨slot, hslot, -⟩ := h.isVariable d hd
      rw [heq, hlookup] at hslot
      cases hslot
    have hself := isVariable_withVariable t v
    refine ⟨{ h.sound.withVariable v with user := fun e he => ?_ }, (free_withVariable t v).trans h.free,
      ?_, nodup_names_withVariable h.names hname hshadow, fun d hd => ?_, fun e he => ?_,
      fun x hx => ?_, fun x hx => ?_, fun x hx => ?_, fun x hx hsh => ?_⟩
    · rcases List.mem_cons.mp he with rfl | he
      · obtain ⟨shadow, hget, -⟩ := hself.get
        exact ⟨hself.lt, (congrArg Slot.kind hget).trans rfl⟩
      · exact (h.sound.withVariable v).user e he
    · rw [List.map_append]
      refine List.nodup_append'.mpr ⟨h.ids, List.nodup_singleton _, ?_⟩
      intro n hn hn'
      obtain ⟨d, hd, rfl⟩ := List.mem_map.mp hn
      exact hfresh d hd (List.mem_singleton.mp hn')
    · rcases List.mem_append.mp hd with hd | hd
      · obtain ⟨slot, hslot, hvar⟩ := h.isVariable d hd
        refine ⟨slot, ?_, { hvar.within (within_withVariable t v) with }⟩
        rw [List.lookup_cons, beq_eq_false_iff_ne.mpr (hfresh d hd), userIds_withVariable]
        exact hslot
      · obtain rfl := List.mem_singleton.mp hd
        exact ⟨t.size, by simp, { hself with }⟩
    · rw [userIds_withVariable] at he
      rcases List.mem_cons.mp he with rfl | he
      · exact ⟨v, by simp, rfl⟩
      · obtain ⟨d, hd, hid⟩ := h.users e he
        exact ⟨d, List.mem_append_left _ hd, hid⟩
    · rw [slots_withVariable] at hx
      rcases List.mem_append.mp hx with hx | hx
      · obtain ⟨d, hd, hinitial⟩ := h.initial x hx
        exact ⟨d, List.mem_append_left _ hd, hinitial⟩
      · exact ⟨v, by simp, (of_mem_variableSlots hx).1⟩
    · rw [slots_withVariable] at hx
      exact (List.mem_append.mp hx).elim (h.isThis x) fun hx => (of_mem_variableSlots hx).2.1
    · rw [slots_withVariable] at hx
      exact (List.mem_append.mp hx).elim (h.kinds x) fun hx => (of_mem_variableSlots hx).2.2.1
    · rw [slots_withVariable] at hx
      rcases List.mem_append.mp hx with hx | hx
      · obtain ⟨d, hd, hnotifies⟩ := h.shadows x hx hsh
        exact ⟨d, List.mem_append_left _ hd, hnotifies⟩
      · exact ⟨v, by simp, (of_mem_variableSlots hx).2.2.2 hsh⟩
  · rw [herror] at hrun
    cases (Prod.mk.inj hrun).1

end SlotTable

namespace Lower

/-- A variable is declared, or it is a duplicate. -/
lemma declareUser_ensures (v : VariableDecl) {s : LowerState} (h : s.program.slots.Declares decls) :
    Ensures s (declareUser v)
      (fun _ t => t.program.slots.Declares (decls ++ [v]) ∧
        t = { s with program := { s.program with slots := t.program.slots } })
      fun e t => (∃ name kind, e.kind = .duplicateName name kind) ∧ t.errors = s.errors := by
  cases hv : s.program.slots.declareUser v with
  | mk outcome u =>
    have hrun : (onSlots (·.declareUser v)) s =
        .ok outcome { s with program := { s.program with slots := u } } := by
      unfold onSlots onProgram
      rw [modifyGet_apply]
      simp only [hv]
    cases outcome with
    | error kind =>
      obtain ⟨hok, -⟩ | ⟨name, k, w, herror, -⟩ := s.program.slots.declareUser_cases v
      · cases (Prod.mk.inj (hok.symm.trans hv)).1
      · obtain ⟨hkind, -⟩ := Prod.mk.inj (herror.symm.trans hv)
        obtain rfl := Except.error.inj hkind
        exact Ensures.of_error ((bind_of_ok hrun _).trans rfl) ⟨⟨_, _, rfl⟩, rfl⟩
    | ok id =>
      exact Ensures.of_ok ((bind_of_ok hrun _).trans rfl) ⟨h.declareUser hv, rfl⟩

/-- The variables are declared one after the other, or one is a duplicate. -/
lemma declareUsers_ensures (vs : List VariableDecl) {s : LowerState}
    (h : s.program.slots.Declares decls) :
    Ensures s (vs.forM declareUser)
      (fun _ t => t.program.slots.Declares (decls ++ vs) ∧
        t = { s with program := { s.program with slots := t.program.slots } })
      fun e t => (∃ name kind, e.kind = .duplicateName name kind) ∧ t.errors = s.errors := by
  induction vs generalizing decls s with
  | nil =>
    refine Ensures.of_ok rfl ⟨?_, rfl⟩
    rw [List.append_nil]
    exact h
  | cons v vs ih =>
    refine Ensures.bind (declareUser_ensures v h) ?_
    rintro ⟨⟩ t - ⟨ht, hstate⟩
    refine (ih ht).mono ?_ ?_
    · rintro ⟨⟩ u ⟨hu, hstate'⟩
      rw [List.append_assoc] at hu
      refine ⟨hu, hstate'.trans ?_⟩
      rw [hstate]
    · rintro e u ⟨he, herrors⟩
      refine ⟨he, herrors.trans ?_⟩
      rw [hstate]

end Lower

end TriggerCompiler
