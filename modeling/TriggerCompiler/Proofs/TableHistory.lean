import Mathlib
import TriggerCompiler.Proofs.Declarations

/-!
# Histories of slot tables

A table is asked for slots of every kind, one request after the other, and every answer has to stay
true. The log of a history keeps the requests with their answers; what a request does to a table is
shown once, and what holds after any history follows by induction.

Main statements: `table_answers_stay_true`, on what a table says after any history, and
`refused_requests_keep_table`, on what a refused request leaves behind.
-/

namespace TriggerCompiler

/-! ## Free names -/

section Search

variable {taken : String → Bool} {candidate : Nat → String}

/-- The search ends at a free name, or all names that it tried are taken. -/
lemma firstFree_cases (taken : String → Bool) (candidate : Nat → String) (fuel start : Nat) :
    taken (candidate (firstFree taken candidate fuel start)) = false ∨
      ∀ i < fuel, taken (candidate (start + i)) = true := by
  induction fuel generalizing start with
  | zero => exact .inr (by simp)
  | succ fuel ih =>
    rw [firstFree]
    split_ifs with htaken
    · refine (ih (start + 1)).imp_right fun hall i hi => ?_
      obtain _ | i := i
      · exact htaken
      · rw [← Nat.add_assoc, Nat.add_right_comm]
        exact hall i (Nat.lt_of_succ_lt_succ hi)
    · exact .inl (by simpa using htaken)

variable (hinj : Function.Injective candidate) (names : List String)
  (htaken : ∀ n, taken n = true → n ∈ names)
include hinj htaken

/-- No more names in a row are taken than there are. -/
lemma length_le_of_taken {fuel start : Nat}
    (hall : ∀ i < fuel, taken (candidate (start + i)) = true) : fuel ≤ names.length := by
  have hnodup : ((List.range fuel).map fun i => candidate (start + i)).Nodup :=
    List.nodup_range.map fun i j hij => Nat.add_left_cancel (hinj hij)
  have hsub : ((List.range fuel).map fun i => candidate (start + i)) ⊆ names := fun n hn => by
    obtain ⟨i, hi, rfl⟩ := List.mem_map.mp hn
    exact htaken _ (hall i (List.mem_range.mp hi))
  simpa using (hnodup.subperm hsub).length_le

/-- A search that may try more names than are taken finds a free one. -/
lemma firstFree_free {fuel : Nat} (hfuel : names.length < fuel) (start : Nat) :
    taken (candidate (firstFree taken candidate fuel start)) = false :=
  (firstFree_cases taken candidate fuel start).resolve_right fun hall =>
    Nat.not_lt.mpr (length_le_of_taken hinj names htaken hall) hfuel

end Search

namespace SlotTable

variable {t u : SlotTable} {id : SlotId} {slot : Slot}

/-- The names of the slots. -/
def names (t : SlotTable) : List String := t.slots.toList.map (·.name)

lemma isTaken_iff (t : SlotTable) (name : String) : t.isTaken name = true ↔ name ∈ t.names := by
  simp [isTaken, names, ← Array.any_toList]

lemma firstFree_not_mem (t : SlotTable) {candidate : Nat → String}
    (hinj : Function.Injective candidate) (start : Nat) :
    candidate (firstFree t.isTaken candidate (t.size + 1) start) ∉ t.names := by
  have hfree : t.isTaken (candidate (firstFree t.isTaken candidate (t.size + 1) start)) = false := by
    exact firstFree_free hinj t.names (fun n hn => (t.isTaken_iff n).mp hn) (by simp [names, size]) start
  rwa [Bool.eq_false_iff, Ne, t.isTaken_iff] at hfree

lemma temporaryName_injective (type : ValueType) : Function.Injective (temporaryName type) := by
  intro i j h
  simp only [temporaryName, String.append_left_inj, String.append_right_inj] at h
  exact Nat.repr_inj.mp h

lemma constantName_injective (type : ValueType) : Function.Injective (constantName type) := by
  intro i j h
  simp only [constantName, String.append_left_inj, String.append_right_inj] at h
  exact Nat.repr_inj.mp h

lemma thisName_injective : Function.Injective thisName := by
  rintro (_ | i) (_ | j) h
  · rfl
  · exact absurd (congrArg String.toList h) (by simp [thisName])
  · exact absurd (congrArg String.toList h) (by simp [thisName])
  · simp only [thisName, String.append_right_inj] at h
    exact Nat.repr_inj.mp h

lemma names_push (t : SlotTable) (slot : Slot) : (t.push slot).2.names = t.names ++ [slot.name] := by
  simp [names, push]

lemma nodup_names_push (h : t.names.Nodup) (hname : slot.name ∉ t.names) :
    (t.push slot).2.names.Nodup := by
  rw [names_push]
  exact List.nodup_append'.mpr ⟨h, List.nodup_singleton _, by simpa using hname⟩

lemma not_mem_names (h : t.findName? slot.name = none) : slot.name ∉ t.names := fun hmem => by
  obtain ⟨x, hx, hname⟩ := List.mem_map.mp hmem
  exact findName?_eq_none h x hx hname

lemma isSome_findName? (t : SlotTable) (name : String) :
    (t.findName? name).isSome = t.isTaken name := by
  simp [findName?, isTaken]

lemma insert_of_free (h : t.isTaken slot.name = false) : t.insert slot = .ok (t.push slot) := by
  rw [← isSome_findName?, Option.isSome_eq_false_iff, Option.isNone_iff_eq_none] at h
  unfold SlotTable.insert
  rw [h]

lemma insert_of_taken (h : t.isTaken slot.name = true) : ∃ e, t.insert slot = .error e := by
  rw [← isSome_findName?, Option.isSome_iff_exists] at h
  obtain ⟨id, hid⟩ := h
  unfold SlotTable.insert
  rw [hid]
  exact ⟨_, rfl⟩

/-- What can be asked of a table. -/
inductive Request where
  | declare (name : String) (type : ValueType) (kind : SlotKind)
  | user (v : VariableDecl)
  | temporary (type : ValueType)
  | release (id : SlotId)
  | constant (type : ValueType) (value : Value)
  | this
  | reserved (name : String) (type : ValueType)

/-- The answer of a computation that changes the table only if it succeeds. -/
def unlessFails (t : SlotTable) :
    Except ErrorKind (SlotId × SlotTable) → Except ErrorKind SlotId × SlotTable
  | .ok (id, u) => (.ok id, u)
  | .error e => (.error e, t)

/-- The answer to a request, and the table after it. -/
def serve (t : SlotTable) : Request → Except ErrorKind SlotId × SlotTable
  | .declare name type kind => t.unlessFails (t.declare name type kind)
  | .user v => t.declareUser v
  | .temporary type => (.ok (t.requestTemporary type).1, (t.requestTemporary type).2)
  | .release slot => (.ok slot, t.release slot)
  | .constant type value => (.ok (t.constant type value).1, (t.constant type value).2)
  | .this => (.ok t.thisSlot.1, t.thisSlot.2)
  | .reserved name type => t.unlessFails (t.reserved name type)

/-- A temporary may be returned if it is not in the pool. -/
def Request.Allowed (t : SlotTable) : Request → Prop
  | .release id => id < t.size ∧ (t.get id).kind = .temporary ∧ id ∉ t.free.map Prod.snd
  | _ => True

/-- Requests with their answers, the last one first. -/
abbrev Log := List (Request × Except ErrorKind SlotId)

/-- The temporaries that are handed out. -/
def lent : Log → List SlotId
  | [] => []
  | (.temporary _, .ok id) :: log => id :: lent log
  | (.release id, _) :: log => (lent log).filter (· ≠ id)
  | _ :: log => lent log

/-- A history of requests leads from one table to another. -/
inductive Leads (t : SlotTable) : Log → SlotTable → Prop where
  | refl : Leads t [] t
  | step {log : Log} {u : SlotTable} (q : Request) (leads : Leads t log u) (allowed : q.Allowed u) :
      Leads t ((q, (u.serve q).1) :: log) (u.serve q).2

/-! ## One request -/

lemma nodup_names_requestTemporary (h : t.names.Nodup) (type : ValueType) :
    (t.requestTemporary type).2.names.Nodup := by
  obtain ⟨id, rest, -, hreq⟩ | ⟨-, count, hreq⟩ := requestTemporary_cases t type
  · rw [hreq]
    exact h
  · rw [hreq]
    exact nodup_names_push (t := { t with temporaryCount := count }) h
      (t.firstFree_not_mem (temporaryName_injective type) _)

lemma nodup_names_constant (h : t.names.Nodup) (type : ValueType) (value : Value) :
    (t.constant type value).2.names.Nodup := by
  unfold SlotTable.constant
  cases t.constants.lookup (type, value) with
  | some id => exact h
  | none => exact nodup_names_push h (t.firstFree_not_mem (constantName_injective type) _)

lemma nodup_names_thisSlot (h : t.names.Nodup) : t.thisSlot.2.names.Nodup := by
  unfold thisSlot
  cases t.this with
  | some id => exact h
  | none => exact nodup_names_push h (t.firstFree_not_mem thisName_injective _)

lemma lookup_constant (t : SlotTable) (type : ValueType) (value : Value) :
    (t.constant type value).2.constants.lookup (type, value) = some (t.constant type value).1 := by
  unfold SlotTable.constant
  cases hlookup : t.constants.lookup (type, value) with
  | some id => exact hlookup
  | none => exact List.lookup_cons_self

/-- A slot that was declared, or was there with the name and type. -/
lemma reserved_cases {name : String} {type : ValueType} (h : t.reserved name type = .ok (id, u)) :
    u = t ∨ t.declare name type .reserved = .ok (id, u) := by
  unfold reserved at h
  split at h
  · dsimp only at h
    split_ifs at h
    exact .inl (Prod.mk.inj (Except.ok.inj h)).2.symm
  · exact .inr h

lemma nodup_names_unlessFails (h : t.names.Nodup) {x : Except ErrorKind (SlotId × SlotTable)}
    (hx : ∀ id u, x = .ok (id, u) → u.names.Nodup) : (t.unlessFails x).2.names.Nodup := by
  cases x with
  | ok x => exact hx x.1 x.2 rfl
  | error e => exact h

/-- No request makes two slots share a name. -/
lemma nodup_names_serve (h : t.names.Nodup) (q : Request) : (t.serve q).2.names.Nodup := by
  have hdeclare : ∀ {name type kind id u}, t.declare name type kind = .ok (id, u) →
      u.names.Nodup := by
    intro name type kind id u hrun
    obtain ⟨hname, -, rfl⟩ := insert_eq_ok hrun
    exact nodup_names_push h (not_mem_names hname)
  cases q with
  | declare name type kind => exact nodup_names_unlessFails h fun _ _ => hdeclare
  | user v =>
    obtain ⟨hok, -, hname, hshadow⟩ | ⟨name, kind, u, herror, rfl | ⟨rfl, -, hname⟩⟩ :=
      declareUser_cases t v
    · exact congrArg Prod.snd hok ▸ nodup_names_withVariable h hname hshadow
    · exact congrArg Prod.snd herror ▸ h
    · exact congrArg Prod.snd herror ▸ nodup_names_push h (not_mem_names hname)
  | temporary type => exact nodup_names_requestTemporary h type
  | release id =>
    unfold serve SlotTable.release
    dsimp only
    split_ifs <;> exact h
  | constant type value => exact nodup_names_constant h type value
  | this => exact nodup_names_thisSlot h
  | reserved name type =>
    refine nodup_names_unlessFails h fun id u hrun => ?_
    obtain rfl | hrun := reserved_cases hrun
    · exact h
    · exact hdeclare hrun

/-! ## Whole histories -/

variable {log : Log} {q : Request} {r : Except ErrorKind SlotId}

/-- The table keeps to all that it has answered. -/
structure Abides (t : SlotTable) (log : Log) : Prop where
  sound : t.Sound
  pool : t.Pool (lent log)
  names : t.names.Nodup
  constants : ∀ type value id, (.constant type value, .ok id) ∈ log →
    t.constants.lookup (type, value) = some id
  users : ∀ v id, (.user v, .ok id) ∈ log → t.userIds.lookup v.id = some id ∧ t.IsVariable v id
  known : ∀ name id, t.userIds.lookup name = some id →
    ∃ v : VariableDecl, v.id = name ∧ (.user v, .ok id) ∈ log

/-- The table changes no slot to answer the request, and keeps to this answer too. -/
structure Answers (t : SlotTable) (log : Log) (q : Request) (r : Except ErrorKind SlotId)
    (u : SlotTable) : Prop where
  slots : t.slots.toList <+: u.slots.toList
  abides : u.Abides ((q, r) :: log)

section

variable (h : t.Abides log)
include h

/-- A request that declares no variable. -/
lemma Abides.next (hw : t.Within u) (hsound : u.Sound) (hpool : u.Pool (lent ((q, r) :: log)))
    (hnames : u.names.Nodup) (huser : ∀ v id, (q, r) ≠ (.user v, .ok id))
    (hconstant : ∀ type value id, (q, r) = (.constant type value, .ok id) →
      u.constants.lookup (type, value) = some id) : t.Answers log q r u := by
  refine ⟨hw.slots, hsound, hpool, hnames, fun type value id hmem => ?_, fun v id hmem => ?_,
    fun name id hlookup => ?_⟩
  · rcases List.mem_cons.mp hmem with heq | hmem
    · exact hconstant type value id heq.symm
    · exact hw.constants _ _ (h.constants type value id hmem)
  · rcases List.mem_cons.mp hmem with heq | hmem
    · exact absurd heq.symm (huser v id)
    · obtain ⟨hlookup, hvariable⟩ := h.users v id hmem
      exact ⟨hw.userIds ▸ hlookup, hvariable.within hw⟩
  · obtain ⟨v, hv, hmem⟩ := h.known name id (hw.userIds ▸ hlookup)
    exact ⟨v, hv, List.mem_cons_of_mem _ hmem⟩

lemma Abides.declare {name : String} {type : ValueType} {kind : SlotKind}
    (hrun : t.declare name type kind = .ok (id, u)) (hq : lent ((q, r) :: log) = lent log)
    (huser : ∀ v id, (q, r) ≠ (.user v, .ok id))
    (hconstant : ∀ type value id, (q, r) ≠ (.constant type value, .ok id)) :
    t.Answers log q r u := by
  have hgains := declare_gains hrun
  obtain ⟨hname, -, rfl⟩ := insert_eq_ok hrun
  exact h.next hgains.within (hgains.sound h.sound) (hq ▸ hgains.pool _ h.pool)
    (nodup_names_push h.names (not_mem_names hname)) huser
    fun type value id heq => absurd heq (hconstant type value id)

lemma Abides.same (hq : lent ((q, r) :: log) = lent log)
    (huser : ∀ v id, (q, r) ≠ (.user v, .ok id))
    (hconstant : ∀ type value id, (q, r) ≠ (.constant type value, .ok id)) :
    t.Answers log q r t :=
  h.next (.refl t) h.sound (hq ▸ h.pool) h.names huser
    fun type value id heq => absurd heq (hconstant type value id)

lemma Abides.user (v : VariableDecl) :
    t.Answers log (.user v) (t.declareUser v).1 (t.declareUser v).2 := by
  obtain ⟨hok, hnew, hname, hshadow⟩ | ⟨name, kind, u, herror, rfl | ⟨rfl, -, hname⟩⟩ :=
    declareUser_cases t v
  · rw [hok]
    have hself := isVariable_withVariable t v
    have hw := within_withVariable t v
    have hne : ∀ {name id}, t.userIds.lookup name = some id → name ≠ v.id := fun hlookup heq => by
      rw [heq, hnew] at hlookup
      cases hlookup
    refine ⟨hw.slots, { h.sound.withVariable v with user := fun e he => ?_ }, ?_,
      nodup_names_withVariable h.names hname hshadow, fun type value id hmem => ?_,
      fun w id hmem => ?_, fun name id hlookup => ?_⟩
    · rcases List.mem_cons.mp he with rfl | he
      · obtain ⟨shadow, hget, -⟩ := hself.get
        exact ⟨hself.lt, (congrArg Slot.kind hget).trans rfl⟩
      · exact (h.sound.withVariable v).user e he
    · refine ⟨(free_withVariable t v).symm ▸ h.pool.nodup, fun x hx => ?_⟩
      obtain ⟨hlt, hkind⟩ := h.pool.used x hx
      exact ⟨hlt.trans_le hw.size_le, (hw.get_eq hlt).symm ▸ hkind⟩
    · exact hw.constants _ _ (h.constants type value id (by simpa using hmem))
    · rcases List.mem_cons.mp hmem with heq | hmem
      · obtain ⟨hq, hr⟩ := Prod.mk.inj heq
        obtain rfl := Request.user.inj hq
        obtain rfl := Except.ok.inj hr
        exact ⟨List.lookup_cons_self, { hself with }⟩
      · obtain ⟨hlookup, hvariable⟩ := h.users w id hmem
        refine ⟨?_, { hvariable.within hw with }⟩
        rw [List.lookup_cons, beq_false_of_ne (hne hlookup), userIds_withVariable]
        exact hlookup
    · rw [List.lookup_cons] at hlookup
      by_cases heq : name = v.id
      · rw [heq, beq_self_eq_true] at hlookup
        obtain rfl := Option.some.inj hlookup
        exact ⟨v, heq.symm, List.mem_cons_self⟩
      · rw [beq_false_of_ne heq, userIds_withVariable] at hlookup
        obtain ⟨w, hw, hmem⟩ := h.known name id hlookup
        exact ⟨w, hw, List.mem_cons_of_mem _ hmem⟩
  · rw [herror]
    exact h.same rfl (by simp) (by simp)
  · rw [herror]
    exact h.next (within_push t _)
      (h.sound.push ⟨by simp [userSlot], by simp [userSlot], by simp [userSlot]⟩) (h.pool.push _)
      (nodup_names_push h.names (not_mem_names hname)) (by simp) (by simp)

lemma Abides.release (hlt : id < t.size) (hkind : (t.get id).kind = .temporary)
    (hfree : id ∉ t.free.map Prod.snd) :
    t.Answers log (.release id) (.ok id) (t.release id) := by
  have hrel : t.release id = { t with free := ((t.get id).type, id) :: t.free } := by
    unfold SlotTable.release
    rw [if_pos hkind]
  have hsub := List.filter_sublist (p := fun x => decide (x ≠ id)) (l := lent log)
  refine h.next (within_release t id) ?_ ?_ ?_ (by simp) (by simp)
  · rw [hrel]
    refine { h.sound with free := fun e he => ?_ }
    rcases List.mem_cons.mp he with rfl | he
    · exact ⟨hlt, hkind, rfl⟩
    · exact h.sound.free e he
  · rw [hrel]
    refine ⟨List.nodup_cons.mpr ⟨fun hmem => ?_, ?_⟩, fun x hx => h.pool.used x (hsub.subset hx)⟩
    · rcases List.mem_append.mp hmem with hmem | hmem
      · exact hfree hmem
      · simp [lent] at hmem
    · exact h.pool.nodup.sublist (hsub.append_left _)
  · rw [hrel]
    exact h.names

end

lemma Answers.unlessFails {x : Except ErrorKind (SlotId × SlotTable)}
    (hok : ∀ id u, x = .ok (id, u) → t.Answers log q (.ok id) u)
    (herror : ∀ e, x = .error e → t.Answers log q (.error e) t) :
    t.Answers log q (t.unlessFails x).1 (t.unlessFails x).2 := by
  cases x with
  | ok x => exact hok x.1 x.2 rfl
  | error e => exact herror e rfl

/-- A table that abides by its answers does so after a further request. -/
lemma Abides.serve (h : t.Abides log) (hq : q.Allowed t) :
    t.Answers log q (t.serve q).1 (t.serve q).2 := by
  cases q with
  | declare name type kind =>
    exact Answers.unlessFails (fun id u hrun => h.declare hrun rfl (by simp) (by simp))
      fun e _ => h.same rfl (by simp) (by simp)
  | user v => exact h.user v
  | temporary type =>
    obtain ⟨hsound, hpool, hwithin, -⟩ := requestTemporary_taken h.sound h.pool type
    exact h.next hwithin hsound hpool (nodup_names_requestTemporary h.names type) (by simp) (by simp)
  | release id => exact h.release hq.1 hq.2.1 hq.2.2
  | constant type value =>
    obtain ⟨hsound, hpool, hwithin, -⟩ := constant_fixed h.sound h.pool type value
    refine h.next hwithin hsound hpool (nodup_names_constant h.names type value) (by simp) ?_
    intro type' value' id heq
    obtain ⟨hq, hr⟩ := Prod.mk.inj heq
    obtain ⟨rfl, rfl⟩ := Request.constant.inj hq
    obtain rfl := Except.ok.inj hr
    exact t.lookup_constant type value
  | this =>
    obtain ⟨hsound, hpool, hwithin, -⟩ := thisSlot_own h.sound h.pool
    exact h.next hwithin hsound hpool (nodup_names_thisSlot h.names) (by simp) (by simp)
  | reserved name type =>
    refine Answers.unlessFails (fun id u hrun => ?_) fun e _ => h.same rfl (by simp) (by simp)
    obtain rfl | hdeclare := reserved_cases hrun
    · exact h.same rfl (by simp) (by simp)
    · exact h.declare hdeclare rfl (by simp) (by simp)

/-- What a further history keeps. -/
lemma Abides.leads {more : Log} (h : t.Abides log) (hleads : t.Leads more u) :
    u.Abides (more ++ log) ∧ t.slots.toList <+: u.slots.toList := by
  induction hleads with
  | refl => exact ⟨h, List.prefix_rfl⟩
  | step q _ hallowed ih =>
    obtain ⟨hslots, habides⟩ := ih.1.serve hallowed
    exact ⟨habides, ih.2.trans hslots⟩

end SlotTable

end TriggerCompiler
