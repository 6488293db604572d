import Mathlib
import TriggerCompiler.Proofs.Lowering

/-!
# Adding methods and slots

Between two bodies no block is open and nothing is in use. Then methods can be added, slots declared,
and a method can be told where to go on; a sound site stays sound.
-/

namespace TriggerCompiler

variable {name : String} {type : ValueType}

namespace Site

variable {a b : Site}

/-- The empty program is a sound site. -/
lemma sound_empty : (⟨{}, [], []⟩ : Site).Sound where
  table :=
    { user := by simp
      constant := by simp
      free := by simp
      this := by simp [SlotTable.size]
      this_kind := by simp [SlotTable.size]
      plain := by simp [SlotTable.size]
      shadow := by simp [SlotTable.size] }
  pool := ⟨by simp, by simp⟩
  placed_lt := by simp [Program.placed]
  placed_nodup := by simp [Program.placed]
  promised_nodup := by simp [promised, Program.endLabels]
  waiting := by simp [promised, Program.endLabels]
  accepts := by simp [Program.placed]
  epilogue := by simp
  address := by simp [SlotTable.size]
  unlinked := rfl

/-- The site with an empty method more. -/
def addMethod (a : Site) (name : String) (kind : MethodKind) : Site :=
  { a with program := { a.program with methods := a.program.methods.push { name, kind } } }

lemma grows_addMethod (a : Site) (name : String) (kind : MethodKind) :
    a.Grows (a.addMethod name kind) where
  slots := SlotTable.Within.refl _
  target t ht := by
    refine ht.imp (fun ht => ?_) fun ht => ?_
    · simpa [addMethod, Program.placed] using ht
    · simpa [addMethod, promised, Program.endLabels] using ht
  names n hn := by
    simp only [addMethod, Program.names, Array.toList_push, List.map_append, List.mem_append]
    exact .inl hn

lemma Sound.addMethod (h : a.Sound) (name : String) (kind : MethodKind) :
    (a.addMethod name kind).Sound := by
  have hplaced : (a.addMethod name kind).program.placed = a.program.placed := by
    simp [Site.addMethod, Program.placed]
  have hpromised : (a.addMethod name kind).promised = a.promised := by
    simp [Site.addMethod, promised, Program.endLabels]
  refine h.extend [] (grows_addMethod a name kind) h.table h.pool le_rfl (fun _ _ => rfl)
    (by rw [hplaced]; rfl) List.nodup_nil (by simp) (by rw [hpromised]; exact h.promised_nodup)
    (fun l hl => ⟨List.not_mem_nil, .inl (hpromised ▸ hl)⟩) ?_
    (fun id hid hge => absurd hid (Nat.not_lt.mpr hge)) rfl
  intro x hx slot hslot
  simp only [Site.addMethod, Array.toList_push, List.mem_append, List.mem_singleton] at hx
  rcases hx with hx | rfl
  · exact h.epilogue x hx slot hslot
  · cases hslot

/-- The site with another epilogue for a method. -/
def setEpilogue (a : Site) (m : MethodId) (e : Epilogue) : Site :=
  { a with program := a.program.setEpilogue m e }

lemma grows_setEpilogue (a : Site) (m : MethodId) (e : Epilogue) : a.Grows (a.setEpilogue m e) where
  slots := SlotTable.Within.refl _
  target t ht := by
    have hplaced : (a.setEpilogue m e).program.placed = a.program.placed :=
      Program.placed_modifyMethod_of_body fun _ => rfl
    have hends : (a.setEpilogue m e).program.endLabels = a.program.endLabels :=
      Program.endLabels_modifyMethod fun _ => rfl
    unfold Target promised at ht ⊢
    rw [hplaced, hends]
    exact ht
  names n hn := by
    have hnames : (a.setEpilogue m e).program.names = a.program.names :=
      Program.names_modifyMethod fun _ => rfl
    rw [hnames]
    exact hn

lemma Sound.setEpilogue (h : a.Sound) (m : MethodId) {slot : SlotId}
    (hslot : slot < a.program.slots.size) : (a.setEpilogue m (.indirect slot)).Sound := by
  have hplaced : (a.setEpilogue m (.indirect slot)).program.placed = a.program.placed :=
    Program.placed_modifyMethod_of_body fun _ => rfl
  have hpromised : (a.setEpilogue m (.indirect slot)).promised = a.promised := by
    unfold promised
    congr 1
    exact Program.endLabels_modifyMethod fun _ => rfl
  refine h.extend [] (grows_setEpilogue a m _) h.table h.pool le_rfl (fun _ _ => rfl)
    (by rw [hplaced]; rfl) List.nodup_nil (by simp) (by rw [hpromised]; exact h.promised_nodup)
    (fun l hl => ⟨List.not_mem_nil, .inl (hpromised ▸ hl)⟩) ?_
    (fun id hid hge => absurd hid (Nat.not_lt.mpr hge)) rfl
  intro x hx other hother
  obtain ⟨y, hy, rfl | rfl⟩ := Program.mem_modifyMethod hx
  · exact h.epilogue _ hy other hother
  · obtain rfl := Epilogue.indirect.inj hother
    exact hslot

end Site

/-! ## Declared slots -/

namespace SlotTable

variable {t u : SlotTable} {id : SlotId} {slot : Slot} {kind : ErrorKind}

lemma insert_eq_ok (h : t.insert slot = .ok (id, u)) :
    t.findName? slot.name = none ∧ id = t.size ∧ u = (t.push slot).2 := by
  unfold SlotTable.insert at h
  split at h
  · cases h
  · obtain ⟨rfl, rfl⟩ := Prod.mk.inj (Except.ok.inj h)
    exact ⟨‹_›, rfl, rfl⟩

lemma insert_eq_error (h : t.insert slot = .error kind) :
    ∃ name other, kind = .duplicateName name other := by
  unfold SlotTable.insert at h
  split at h
  · exact ⟨_, _, (Except.error.inj h).symm⟩
  · cases h

/-- What is known of a table with one plain slot more, or none. -/
structure Gains (t : SlotTable) (id : SlotId) (u : SlotTable) : Prop where
  within : t.Within u
  sound : t.Sound → u.Sound
  pool : ∀ temps, t.Pool temps → u.Pool temps
  lt : id < u.size
  new : ∀ x < u.size, t.size ≤ x → (u.get x).initial = none

lemma declare_gains {k : SlotKind} (h : t.declare name type k = .ok (id, u)) : t.Gains id u := by
  obtain ⟨-, rfl, rfl⟩ := insert_eq_ok h
  refine ⟨within_push _ _, fun ht => ht.push ⟨by simp, by simp, by simp⟩,
    fun temps hp => hp.push _, ?_, fun x hx hge => ?_⟩
  · rw [size_push]
    exact Nat.lt_succ_self _
  · rw [size_push] at hx
    rw [le_antisymm (Nat.le_of_lt_succ hx) hge, get_push_self]

lemma reserved_gains (h : t.reserved name type = .ok (id, u)) : t.Gains id u := by
  unfold reserved at h
  split at h
  · rename_i existing hname
    dsimp only at h
    split_ifs at h
    obtain ⟨rfl, rfl⟩ := Prod.mk.inj (Except.ok.inj h)
    refine ⟨Within.refl _, fun ht => ht, fun _ hp => hp, ?_,
      fun x hx hge => absurd hx (Nat.not_lt.mpr hge)⟩
    obtain ⟨hlt, -⟩ := Array.findIdx?_eq_some_iff_getElem.mp hname
    exact hlt
  · exact declare_gains h

lemma reserved_eq_error (h : t.reserved name type = .error kind) :
    ∃ name other, kind = .duplicateName name other := by
  unfold reserved at h
  split at h
  · dsimp only at h
    split_ifs at h
    exact ⟨_, _, (Except.error.inj h).symm⟩
  · exact insert_eq_error h

end SlotTable

lemma Site.Sound.gains {a : Site} {t : SlotTable} {id : SlotId} (h : a.Sound)
    (ht : a.program.slots.Gains id t) :
    (⟨{ a.program with slots := t }, a.labels, a.temps⟩ : Site).Sound := by
  refine h.withSlots ht.within (ht.sound h.table) (ht.pool _ h.pool) fun x hx hge y hy => ?_
  rw [ht.new x hx hge] at hy
  cases hy

end TriggerCompiler
