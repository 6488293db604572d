import Mathlib
import TriggerCompiler.Proofs.Code
import TriggerCompiler.Proofs.Slots

/-!
# Building sites

While a method is built, some labels have been promised as targets of jumps but wait for their
place, and some temporaries are in use. A site is a program with these two lists. It is sound if
every jump goes to a place that there is or that is promised, every operand is a slot, and the
temporaries in use are kept apart. The steps that code is built from keep a site sound, and each adds
known lines to the body of one method and changes nothing else.
-/

namespace TriggerCompiler

/-- A program under construction with the labels that wait for their place and the temporaries that
are in use. -/
structure Site where
  program : Program
  labels : List InstrId
  temps : List SlotId

namespace Site

variable {a b c : Site} {m : MethodId} {i : Instr} {l : InstrId} {id : SlotId}

/-- The labels that have been promised: those of the methods' ends, and those of open blocks. -/
def promised (a : Site) : List InstrId := a.program.endLabels ++ a.labels

/-- A place that jumps may go to. -/
def Target (a : Site) (t : InstrId) : Prop := t ∈ a.program.placed ∨ t ∈ a.promised

/-- What an instruction needs to be part of a body. -/
structure Accepts (a : Site) (i : Instr) : Prop where
  operands : ∀ slot ∈ i.operands, slot < a.program.slots.size
  target : ∀ t, i.labelTarget = some t → a.Target t
  call : ∀ name, i = .jumpMethod name → name ∈ a.program.names

/-- Bodies hold instructions of the arena, each once; labels that wait are labels that no body
holds; and everything that a body refers to is there or promised. -/
structure Sound (a : Site) : Prop where
  table : a.program.slots.Sound
  pool : a.program.slots.Pool a.temps
  placed_lt : ∀ id ∈ a.program.placed, id < a.program.instrs.size
  placed_nodup : a.program.placed.Nodup
  promised_nodup : a.promised.Nodup
  waiting : ∀ l ∈ a.promised,
    l < a.program.instrs.size ∧ a.program.instr l = .nop ∧ l ∉ a.program.placed
  accepts : ∀ id ∈ a.program.placed, a.Accepts (a.program.instr id)
  epilogue : ∀ x ∈ a.program.methods.toList, ∀ slot, x.epilogue = .indirect slot →
    slot < a.program.slots.size
  address : ∀ id < a.program.slots.size, ∀ x,
    (a.program.slots.get id).initial = some (.address x) → ∃ l, x = .instruction l ∧ a.Target l
  unlinked : a.program.linked = false

lemma Sound.body_lt (h : a.Sound) (hm : m < a.program.methods.size)
    (hl : l ∈ (a.program.method m).body.toList) : l < a.program.instrs.size :=
  h.placed_lt l (Program.mem_placed_of_mem_body hm hl)

/-! ## Elementary steps -/

/-- Adds an instruction to a body. -/
def emit (a : Site) (m : MethodId) (i : Instr) : Site :=
  { a with program := (a.program.emit m i).2 }

/-- Makes a label. -/
def newLabel (a : Site) : Site :=
  { a with program := a.program.newLabel.2, labels := a.program.instrs.size :: a.labels }

/-- Gives a label its place at the end of a body. -/
def place (a : Site) (m : MethodId) (l : InstrId) : Site :=
  { a with program := a.program.place m l, labels := a.labels.erase l }

/-- Takes a temporary. -/
def temporary (a : Site) (type : ValueType) : Site where
  program := { a.program with slots := (a.program.slots.requestTemporary type).2 }
  labels := a.labels
  temps := (a.program.slots.requestTemporary type).1 :: a.temps

/-- Returns a temporary. -/
def release (a : Site) (id : SlotId) : Site where
  program := { a.program with slots := a.program.slots.release id }
  labels := a.labels
  temps := a.temps.erase id

/-- Asks for a constant. -/
def constant (a : Site) (type : ValueType) (value : Value) : Site :=
  { a with program := { a.program with slots := (a.program.slots.constant type value).2 } }

/-- Asks for the slot of the running object. -/
def this (a : Site) : Site :=
  { a with program := { a.program with slots := a.program.slots.thisSlot.2 } }

/-- Notes that a method writes a synced slot. -/
def serialize (a : Site) (m : MethodId) : Site :=
  { a with program := a.program.modifyMethod m fun x => { x with serializes := true } }

/-- Asks for the label of a method's end. -/
def methodEnd (a : Site) (m : MethodId) : Site :=
  { a with program := (a.program.endLabel m).2 }

/-! ## What stays as a site grows -/

/-- What one site has, a later one has too. -/
structure Grows (a b : Site) : Prop where
  slots : a.program.slots.Within b.program.slots
  target : ∀ t, a.Target t → b.Target t
  names : ∀ name ∈ a.program.names, name ∈ b.program.names

lemma Grows.refl (a : Site) : a.Grows a :=
  ⟨SlotTable.Within.refl _, fun _ h => h, fun _ h => h⟩

lemma Grows.trans (h : a.Grows b) (h' : b.Grows c) : a.Grows c :=
  ⟨h.slots.trans h'.slots, fun t ht => h'.target t (h.target t ht),
    fun name hn => h'.names name (h.names name hn)⟩

lemma Accepts.grow (h : a.Accepts i) (hg : a.Grows b) : b.Accepts i :=
  ⟨fun slot hs => (h.operands slot hs).trans_le hg.slots.size_le,
    fun t ht => hg.target t (h.target t ht), fun name hn => hg.names name (h.call name hn)⟩

/-- A larger site is sound if all that is new in it is. -/
lemma Sound.extend (h : a.Sound) (new : List InstrId) (hg : a.Grows b)
    (table : b.program.slots.Sound) (pool : b.program.slots.Pool b.temps)
    (size_le : a.program.instrs.size ≤ b.program.instrs.size)
    (arena : ∀ id < a.program.instrs.size, b.program.instr id = a.program.instr id)
    (placed : b.program.placed.Perm (new ++ a.program.placed)) (new_nodup : new.Nodup)
    (new_ok : ∀ id ∈ new, id < b.program.instrs.size ∧ id ∉ a.program.placed ∧
      b.Accepts (b.program.instr id))
    (promised_nodup : b.promised.Nodup)
    (waiting : ∀ l ∈ b.promised, l ∉ new ∧ (l ∈ a.promised ∨
      a.program.instrs.size ≤ l ∧ l < b.program.instrs.size ∧ b.program.instr l = .nop))
    (epilogue : ∀ x ∈ b.program.methods.toList, ∀ slot, x.epilogue = .indirect slot →
      slot < b.program.slots.size)
    (address : ∀ id < b.program.slots.size, a.program.slots.size ≤ id → ∀ x,
      (b.program.slots.get id).initial = some (.address x) → ∃ l, x = .instruction l ∧ b.Target l)
    (unlinked : b.program.linked = a.program.linked) : b.Sound where
  table := table
  pool := pool
  placed_lt id hid := by
    rcases List.mem_append.mp (placed.mem_iff.mp hid) with hid | hid
    · exact (new_ok id hid).1
    · exact (h.placed_lt id hid).trans_le size_le
  placed_nodup := by
    refine placed.nodup_iff.mpr (List.nodup_append'.mpr ⟨new_nodup, h.placed_nodup, ?_⟩)
    exact fun id hid hid' => (new_ok id hid).2.1 hid'
  promised_nodup := promised_nodup
  waiting l hl := by
    obtain ⟨hnew, hl | ⟨hge, hlt, hnop⟩⟩ := waiting l hl
    · obtain ⟨hlt, hnop, hplaced⟩ := h.waiting l hl
      refine ⟨hlt.trans_le size_le, (arena l hlt).trans hnop, fun hmem => ?_⟩
      exact (List.mem_append.mp (placed.mem_iff.mp hmem)).elim hnew hplaced
    · refine ⟨hlt, hnop, fun hmem => ?_⟩
      rcases List.mem_append.mp (placed.mem_iff.mp hmem) with hmem | hmem
      · exact hnew hmem
      · exact absurd (h.placed_lt l hmem) (Nat.not_lt.mpr hge)
  accepts id hid := by
    rcases List.mem_append.mp (placed.mem_iff.mp hid) with hid | hid
    · exact (new_ok id hid).2.2
    · rw [arena id (h.placed_lt id hid)]
      exact (h.accepts id hid).grow hg
  epilogue := epilogue
  address id hid x hx := by
    by_cases hlt : id < a.program.slots.size
    · rw [hg.slots.get_eq hlt] at hx
      obtain ⟨l, rfl, hl⟩ := h.address id hlt x hx
      exact ⟨l, rfl, hg.target l hl⟩
    · exact address id hid (Nat.le_of_not_lt hlt) x hx
  unlinked := unlinked.trans h.unlinked

/-! ## Instructions and labels -/

/-- Epilogues stay in range when methods change in other ways. -/
lemma Sound.epilogue_modifyMethod (h : a.Sound) {f : Method → Method}
    (hf : ∀ x, (f x).epilogue = x.epilogue) {p : Program} (hp : p.methods = a.program.methods) :
    ∀ x ∈ (p.modifyMethod m f).methods.toList, ∀ slot, x.epilogue = .indirect slot →
      slot < a.program.slots.size := by
  intro x hx slot hslot
  obtain ⟨y, hy, hxy⟩ := Program.mem_modifyMethod hx
  rw [hp] at hy
  refine h.epilogue y hy slot ?_
  rcases hxy with rfl | rfl
  · exact hslot
  · rwa [hf] at hslot

lemma placed_emit (hm : m < a.program.methods.size) (i : Instr) :
    (a.emit m i).program.placed.Perm ([a.program.instrs.size] ++ a.program.placed) := by
  refine Program.placed_modifyMethod (p := (a.program.alloc i).2) hm ?_
  simp [List.perm_append_singleton]

lemma promised_emit (a : Site) (m : MethodId) (i : Instr) : (a.emit m i).promised = a.promised := by
  unfold promised
  congr 1
  exact Program.endLabels_modifyMethod fun _ => rfl

lemma instr_emit (a : Site) (m : MethodId) (i : Instr) (id : InstrId) :
    (a.emit m i).program.instr id =
      if id = a.program.instrs.size then i else a.program.instr id :=
  Program.instr_alloc _ _ _

lemma grows_emit (hm : m < a.program.methods.size) (i : Instr) : a.Grows (a.emit m i) where
  slots := SlotTable.Within.refl _
  target t ht := by
    refine ht.imp (fun ht => ?_) fun ht => by rw [promised_emit]; exact ht
    exact (placed_emit hm i).mem_iff.mpr (List.mem_append_right _ ht)
  names name hn := by
    have := Program.names_modifyMethod (p := (a.program.alloc i).2) (m := m)
      (f := fun x => { x with body := x.body.push a.program.instrs.size }) fun _ => rfl
    exact this ▸ hn

lemma Sound.emit (h : a.Sound) (hm : m < a.program.methods.size) (hi : a.Accepts i) :
    (a.emit m i).Sound := by
  have hg := grows_emit hm i
  have hsize : (a.emit m i).program.instrs.size = a.program.instrs.size + 1 := by
    simp [Site.emit, Program.emit, Program.alloc, Program.modifyMethod]
  refine h.extend _ hg h.table h.pool (by omega) ?_ (placed_emit hm i) (List.nodup_singleton _) ?_
    (by rw [promised_emit]; exact h.promised_nodup) ?_ ?_ ?_ rfl
  · intro id hid
    rw [instr_emit, if_neg hid.ne]
  · intro id hid
    rw [List.mem_singleton.mp hid, instr_emit, if_pos rfl]
    refine ⟨?_, fun hmem => lt_irrefl _ (h.placed_lt _ hmem), hi.grow hg⟩
    rw [hsize]
    exact Nat.lt_succ_self _
  · intro l hl
    rw [promised_emit] at hl
    refine ⟨fun hmem => ?_, .inl hl⟩
    rw [List.mem_singleton.mp hmem] at hl
    exact lt_irrefl _ (h.waiting _ hl).1
  · exact h.epilogue_modifyMethod (p := (a.program.alloc i).2)
      (f := fun x => { x with body := x.body.push _ }) (fun _ => rfl) rfl
  · exact fun id hid hge => absurd hid (Nat.not_lt.mpr hge)

lemma grows_newLabel (a : Site) : a.Grows a.newLabel :=
  ⟨SlotTable.Within.refl _,
    fun _ ht => ht.imp id fun ht => List.mem_append.mpr
      ((List.mem_append.mp ht).imp id (List.mem_cons_of_mem _)), fun _ hn => hn⟩

lemma Sound.newLabel (h : a.Sound) : a.newLabel.Sound := by
  have hsize : a.newLabel.program.instrs.size = a.program.instrs.size + 1 := by
    simp [Site.newLabel, Program.newLabel, Program.alloc]
  have hperm : a.newLabel.promised.Perm (a.program.instrs.size :: a.promised) :=
    List.perm_middle
  refine h.extend [] (grows_newLabel a) h.table h.pool (by omega) ?_ (List.Perm.refl _)
    List.nodup_nil (by simp) ?_ ?_ h.epilogue ?_ rfl
  · exact fun id hid => Program.instr_alloc_of_lt _ hid
  · refine hperm.nodup_iff.mpr (List.nodup_cons.mpr ⟨fun hmem => ?_, h.promised_nodup⟩)
    exact lt_irrefl _ (h.waiting _ hmem).1
  · intro l hl
    refine ⟨List.not_mem_nil, ?_⟩
    rcases List.mem_cons.mp (hperm.mem_iff.mp hl) with rfl | hl
    · refine .inr ⟨le_rfl, ?_, (Program.instr_alloc _ _ _).trans (if_pos rfl)⟩
      rw [hsize]
      exact Nat.lt_succ_self _
    · exact .inl hl
  · exact fun id hid hge => absurd hid (Nat.not_lt.mpr hge)

lemma placed_place (hm : m < a.program.methods.size) (l : InstrId) :
    (a.place m l).program.placed.Perm ([l] ++ a.program.placed) := by
  refine Program.placed_modifyMethod hm ?_
  simp [List.perm_append_singleton]

/-- A label that gets its place is promised no longer. -/
lemma promised_place (hl : l ∈ a.labels) : a.promised.Perm (l :: (a.place m l).promised) := by
  have hends : (a.place m l).program.endLabels = a.program.endLabels :=
    Program.endLabels_modifyMethod fun _ => rfl
  unfold promised
  rw [hends]
  exact ((List.perm_cons_erase hl).append_left _).trans List.perm_middle

lemma grows_place (hm : m < a.program.methods.size) (hl : l ∈ a.labels) :
    a.Grows (a.place m l) where
  slots := SlotTable.Within.refl _
  target t ht := by
    have hplaced := placed_place hm l
    rcases ht with ht | ht
    · exact .inl (hplaced.mem_iff.mpr (List.mem_append_right _ ht))
    · rcases List.mem_cons.mp ((promised_place hl).mem_iff.mp ht) with rfl | ht
      · exact .inl (hplaced.mem_iff.mpr (by simp))
      · exact .inr ht
  names name hn := by
    have := Program.names_modifyMethod (p := a.program) (m := m)
      (f := fun x => { x with body := x.body.push l }) fun _ => rfl
    exact this ▸ hn

lemma Sound.place (h : a.Sound) (hm : m < a.program.methods.size) (hl : l ∈ a.labels) :
    (a.place m l).Sound := by
  have hperm := promised_place (m := m) hl
  obtain ⟨hlt, hnop, hplaced⟩ := h.waiting l (hperm.mem_iff.mpr List.mem_cons_self)
  have hnodup := List.nodup_cons.mp (hperm.nodup_iff.mp h.promised_nodup)
  refine h.extend _ (grows_place hm hl) h.table h.pool le_rfl (fun _ _ => rfl) (placed_place hm l)
    (List.nodup_singleton _) ?_ hnodup.2 ?_ ?_ ?_ rfl
  · intro id hid
    rw [List.mem_singleton.mp hid]
    refine ⟨hlt, hplaced, ?_⟩
    have hinstr : (a.place m l).program.instr l = .nop := hnop
    rw [hinstr]
    exact ⟨by simp [Instr.operands], by simp [Instr.labelTarget], by simp⟩
  · intro l' hl'
    refine ⟨fun hmem => hnodup.1 (List.mem_singleton.mp hmem ▸ hl'), .inl ?_⟩
    exact hperm.mem_iff.mpr (List.mem_cons_of_mem _ hl')
  · exact h.epilogue_modifyMethod (f := fun x => { x with body := x.body.push l }) (fun _ => rfl) rfl
  · exact fun id hid hge => absurd hid (Nat.not_lt.mpr hge)

lemma serializes_serialize (hm : m < a.program.methods.size) :
    ((a.serialize m).program.method m).serializes = true := by
  unfold serialize
  rw [Program.method_modifyMethod, if_pos ⟨rfl, hm⟩]

lemma grows_serialize (a : Site) (m : MethodId) : a.Grows (a.serialize m) where
  slots := SlotTable.Within.refl _
  target t ht := by
    have hplaced : (a.serialize m).program.placed = a.program.placed :=
      Program.placed_modifyMethod_of_body fun _ => rfl
    have hends : (a.serialize m).program.endLabels = a.program.endLabels :=
      Program.endLabels_modifyMethod fun _ => rfl
    unfold Target promised at ht ⊢
    rw [hplaced, hends]
    exact ht
  names name hn := by
    have := Program.names_modifyMethod (p := a.program) (m := m)
      (f := fun x => { x with serializes := true }) fun _ => rfl
    exact this ▸ hn

/-- A label of a method's end that is there stays; else it is a new one. -/
lemma methodEnd_cases (a : Site) (m : MethodId) :
    (∃ l, (a.program.method m).endLabel = some l ∧ a.program.endLabel m = (l, a.program)) ∨
    ((a.program.method m).endLabel = none ∧ a.program.endLabel m = (a.program.instrs.size,
      (a.program.alloc .nop).2.modifyMethod m fun x =>
        { x with endLabel := some a.program.instrs.size })) := by
  unfold Program.endLabel
  cases h : (a.program.method m).endLabel with
  | some l => exact .inl ⟨l, rfl, rfl⟩
  | none => exact .inr ⟨rfl, rfl⟩

lemma placed_methodEnd (a : Site) (m : MethodId) :
    (a.methodEnd m).program.placed = a.program.placed := by
  unfold methodEnd
  obtain ⟨l, -, heq⟩ | ⟨-, heq⟩ := methodEnd_cases a m
  · rw [heq]
  · rw [heq]
    exact Program.placed_modifyMethod_of_body fun _ => rfl

lemma names_methodEnd (a : Site) (m : MethodId) :
    (a.methodEnd m).program.names = a.program.names := by
  unfold methodEnd
  obtain ⟨l, -, heq⟩ | ⟨-, heq⟩ := methodEnd_cases a m
  · rw [heq]
  · rw [heq]
    exact Program.names_modifyMethod fun _ => rfl

lemma promised_methodEnd (hm : m < a.program.methods.size)
    (hnone : (a.program.method m).endLabel = none) :
    (a.methodEnd m).promised.Perm (a.program.instrs.size :: a.promised) := by
  have hperm := Program.endLabels_modifyMethod_of_none (p := (a.program.alloc .nop).2) hm hnone
    a.program.instrs.size
  have hsite : (a.methodEnd m).program = (a.program.alloc .nop).2.modifyMethod m fun x =>
      { x with endLabel := some a.program.instrs.size } := by
    unfold methodEnd Program.endLabel
    rw [hnone]
    rfl
  unfold promised
  rw [hsite]
  exact hperm.append_right _

lemma grows_methodEnd (hm : m < a.program.methods.size) : a.Grows (a.methodEnd m) := by
  obtain ⟨l, -, heq⟩ | ⟨hnone, heq⟩ := methodEnd_cases a m
  · have hsite : a.methodEnd m = a := by
      unfold methodEnd
      rw [heq]
    rw [hsite]
    exact Grows.refl a
  · have hperm := promised_methodEnd hm hnone
    have hsite : (a.methodEnd m).program = (a.program.alloc .nop).2.modifyMethod m fun x =>
        { x with endLabel := some a.program.instrs.size } := congrArg Prod.snd heq
    refine ⟨?_, fun t ht => ?_, fun name hn => ?_⟩
    · rw [hsite]
      exact SlotTable.Within.refl _
    · refine ht.imp (fun ht => ?_) fun ht => hperm.mem_iff.mpr (List.mem_cons_of_mem _ ht)
      rwa [placed_methodEnd]
    · rwa [names_methodEnd]

lemma Sound.methodEnd (h : a.Sound) (hm : m < a.program.methods.size) :
    (a.methodEnd m).Sound := by
  obtain ⟨l, -, heq⟩ | ⟨hnone, heq⟩ := methodEnd_cases a m
  · have hsite : a.methodEnd m = a := by
      unfold Site.methodEnd
      rw [heq]
    rwa [hsite]
  · have hperm := promised_methodEnd hm hnone
    have hsite : a.methodEnd m = ⟨(a.program.alloc .nop).2.modifyMethod m fun x =>
        { x with endLabel := some a.program.instrs.size }, a.labels, a.temps⟩ := by
      unfold Site.methodEnd
      rw [heq]
    have hsize : (a.methodEnd m).program.instrs.size = a.program.instrs.size + 1 := by
      rw [hsite]
      simp [Program.alloc, Program.modifyMethod]
    refine h.extend [] (grows_methodEnd hm) ?_ ?_ (by omega) ?_ ?_ List.nodup_nil (by simp) ?_ ?_ ?_
      ?_ ?_
    · rw [hsite]
      exact h.table
    · rw [hsite]
      exact h.pool
    · intro id hid
      rw [hsite]
      exact Program.instr_alloc_of_lt _ hid
    · rw [placed_methodEnd]
      exact List.Perm.refl _
    · refine hperm.nodup_iff.mpr (List.nodup_cons.mpr ⟨fun hmem => ?_, h.promised_nodup⟩)
      exact lt_irrefl _ (h.waiting _ hmem).1
    · intro l hl
      refine ⟨List.not_mem_nil, ?_⟩
      rcases List.mem_cons.mp (hperm.mem_iff.mp hl) with rfl | hl
      · refine .inr ⟨le_rfl, ?_, ?_⟩
        · rw [hsize]
          exact Nat.lt_succ_self _
        · rw [hsite]
          exact (Program.instr_alloc _ _ _).trans (if_pos rfl)
      · exact .inl hl
    · rw [hsite]
      exact h.epilogue_modifyMethod (p := (a.program.alloc .nop).2)
        (f := fun x => { x with endLabel := some _ }) (fun _ => rfl) rfl
    · rw [hsite]
      exact fun id hid hge => absurd hid (Nat.not_lt.mpr hge)
    · rw [hsite]
      rfl

/-! ## Slots -/

section

variable (h : a.Sound)
include h

/-- Another table for a site: it holds the old slots, and what is new in it refers to nothing that
is not there. -/
lemma Sound.withSlots {t : SlotTable} {temps : List SlotId} (hw : a.program.slots.Within t)
    (table : t.Sound) (pool : t.Pool temps)
    (address : ∀ id < t.size, a.program.slots.size ≤ id → ∀ x,
      (t.get id).initial = some (.address x) → ∃ l, x = .instruction l ∧ a.Target l) :
    (⟨{ a.program with slots := t }, a.labels, temps⟩ : Site).Sound :=
  h.extend [] ⟨hw, fun _ ht => ht, fun _ hn => hn⟩ table pool le_rfl (fun _ _ => rfl)
    (List.Perm.refl _) List.nodup_nil (by simp) h.promised_nodup
    (fun _ hl => ⟨List.not_mem_nil, .inl hl⟩)
    (fun x hx slot hslot => (h.epilogue x hx slot hslot).trans_le hw.size_le) address rfl

lemma Sound.temporary (type : ValueType) : (a.temporary type).Sound := by
  have ht := SlotTable.requestTemporary_taken h.table h.pool type
  refine h.withSlots ht.within ht.sound ht.pool fun id hid hge x hx => ?_
  rw [ht.new id hid hge] at hx
  cases hx

lemma Sound.release (hid : id ∈ a.temps) : (a.release id).Sound := by
  have hpool : a.program.slots.Pool (id :: a.temps.erase id) := by
    have hperm := List.perm_cons_erase hid
    exact ⟨(hperm.append_left _).nodup_iff.mp h.pool.nodup,
      fun x hx => h.pool.used x (hperm.mem_iff.mpr hx)⟩
  obtain ⟨table, pool⟩ := SlotTable.release_sound h.table hpool
  refine h.withSlots (SlotTable.within_release _ id) table pool fun x hx hge => ?_
  have hsize : (a.program.slots.release id).size = a.program.slots.size := by
    unfold SlotTable.release SlotTable.size
    dsimp only
    split_ifs <;> rfl
  rw [hsize] at hx
  exact absurd hx (Nat.not_lt.mpr hge)

lemma Sound.constant {type : ValueType} {value : Value}
    (hv : ∀ x, value = .address x → ∃ l, x = .instruction l ∧ a.Target l) :
    (a.constant type value).Sound := by
  have hc := SlotTable.constant_fixed h.table h.pool type value
  refine h.withSlots hc.within hc.sound hc.pool fun id hid hge x hx => ?_
  rw [hc.new id hid hge] at hx
  exact hv x (Option.some.inj hx)

lemma Sound.this : a.this.Sound := by
  have ht := SlotTable.thisSlot_own h.table h.pool
  refine h.withSlots ht.within ht.sound ht.pool fun id hid hge x hx => ?_
  rw [ht.new id hid hge] at hx
  cases hx

lemma Sound.serialize (m : MethodId) : (a.serialize m).Sound := by
  have hplaced : (a.serialize m).program.placed = a.program.placed :=
    Program.placed_modifyMethod_of_body fun _ => rfl
  have hpromised : (a.serialize m).promised = a.promised := by
    unfold promised
    congr 1
    exact Program.endLabels_modifyMethod fun _ => rfl
  refine h.extend [] (grows_serialize a m) h.table h.pool le_rfl (fun _ _ => rfl)
    (by rw [hplaced]; rfl) List.nodup_nil (by simp) (by rw [hpromised]; exact h.promised_nodup)
    (fun l hl => ⟨List.not_mem_nil, .inl (hpromised ▸ hl)⟩) ?_ ?_ rfl
  · exact h.epilogue_modifyMethod (f := fun x => { x with serializes := true }) (fun _ => rfl) rfl
  · exact fun id hid hge => absurd hid (Nat.not_lt.mpr hge)

/-- The order of the lists does not matter. -/
lemma Sound.of_perm {labels : List InstrId} {temps : List SlotId} (hl : labels.Perm a.labels)
    (ht : temps.Perm a.temps) :
    (⟨a.program, labels, temps⟩ : Site).Sound := by
  have hp : (⟨a.program, labels, temps⟩ : Site).promised.Perm a.promised := hl.append_left _
  have htarget : ∀ t, (⟨a.program, labels, temps⟩ : Site).Target t ↔ a.Target t :=
    fun t => or_congr Iff.rfl hp.mem_iff
  refine ⟨h.table, ⟨?_, ?_⟩, h.placed_lt, h.placed_nodup, hp.nodup_iff.mpr h.promised_nodup, ?_, ?_,
    h.epilogue, ?_, h.unlinked⟩
  · exact ((ht.append_left _).nodup_iff).mpr h.pool.nodup
  · exact fun id hid => h.pool.used id (ht.mem_iff.mp hid)
  · exact fun l hl => h.waiting l (hp.mem_iff.mp hl)
  · intro id hid
    obtain ⟨operands, target, call⟩ := h.accepts id hid
    exact ⟨operands, fun t ht => (htarget t).mpr (target t ht), call⟩
  · intro id hid x hx
    obtain ⟨l, hl, ht⟩ := h.address id hid x hx
    exact ⟨l, hl, (htarget l).mpr ht⟩

end

end Site

end TriggerCompiler
