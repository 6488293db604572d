import Mathlib
import TriggerCompiler.Program.Basic

/-!
# What building a program does to its code

A body is read as a list of lines: a label marks a place, and every other line is an instruction.
The operations on a program under construction are described by what they do to the arena, to the
methods and to the lines of a body.
-/

namespace TriggerCompiler

variable {x : Method} {f : Method → Method}

/-- The slots that an instruction names. -/
def Instr.operands : Instr → List SlotId
  | .push slot | .jumpIndirect slot => [slot]
  | _ => []

/-- A line of a body: a place that jumps name, or an instruction. -/
inductive Line where
  | label (id : InstrId)
  | code (i : Instr)
  deriving DecidableEq

namespace Program

variable {p : Program} {m k : MethodId} {id l : InstrId} {i : Instr}

/-- The line of an instruction of the arena. -/
def line (p : Program) (id : InstrId) : Line :=
  if p.instr id = .nop then .label id else .code (p.instr id)

/-- The lines of a body. -/
def lines (p : Program) (m : MethodId) : List Line := (p.method m).body.toList.map p.line

/-- The names of the methods. -/
def names (p : Program) : List String := p.methods.toList.map (·.name)

/-- The labels of the ends of the methods. -/
def endLabels (p : Program) : List InstrId := p.methods.toList.filterMap (·.endLabel)

/-! ## The arena -/

lemma instr_alloc (p : Program) (i : Instr) (id : InstrId) :
    (p.alloc i).2.instr id = if id = p.instrs.size then i else p.instr id := by
  unfold Program.alloc Program.instr
  simp only [Array.getD_eq_getD_getElem?, Array.getElem?_push]
  split_ifs <;> rfl

lemma instr_alloc_of_lt (i : Instr) (h : id < p.instrs.size) :
    (p.alloc i).2.instr id = p.instr id := by
  rw [instr_alloc, if_neg h.ne]

lemma instr_setInstr (p : Program) (id : InstrId) (i : Instr) (k : InstrId) :
    (p.setInstr id i).instr k = if k = id ∧ id < p.instrs.size then i else p.instr k := by
  unfold Program.setInstr Program.instr
  simp only [Array.getD_eq_getD_getElem?, Array.getElem?_modify]
  by_cases hk : k = id
  · subst hk
    by_cases hlt : k < p.instrs.size <;> simp [hlt]
  · simp [hk, Ne.symm hk]

lemma instr_eq_nop_of_le (h : p.instrs.size ≤ id) : p.instr id = .nop := by
  unfold Program.instr
  rw [Array.getD_eq_getD_getElem?, Array.getElem?_eq_none h]
  rfl

lemma method_of_le (h : p.methods.size ≤ m) : p.method m = default := by
  unfold Program.method
  rw [Array.getD_eq_getD_getElem?, Array.getElem?_eq_none h]
  rfl

/-- The instruction is a jump. -/
def IsJump (p : Program) (id : InstrId) : Prop := ∃ l, p.instr id = .jump l

lemma IsJump.lt (h : p.IsJump id) : id < p.instrs.size := by
  obtain ⟨l, hl⟩ := h
  by_contra hge
  rw [instr_eq_nop_of_le (Nat.le_of_not_lt hge)] at hl
  cases hl

lemma line_eq_label {l : InstrId} : p.line id = .label l ↔ p.instr id = .nop ∧ id = l := by
  unfold line
  split_ifs with h <;> simp [h]

lemma line_eq_code {i : Instr} : p.line id = .code i ↔ p.instr id = i ∧ i ≠ .nop := by
  unfold line
  split_ifs with h
  · simp only [h, false_iff, not_and, ne_eq, not_not]
    exact fun h' => h'.symm
  · simp only [Line.code.injEq]
    exact ⟨fun h' => ⟨h', h' ▸ h⟩, fun h' => h'.1⟩

/-- Lines hang on the arena only. -/
lemma line_congr {p p' : Program} (h : p'.instr id = p.instr id) : p'.line id = p.line id := by
  unfold line
  rw [h]

/-! ## The methods -/

lemma method_modifyMethod (p : Program) (m : MethodId) (f : Method → Method) (k : MethodId) :
    (p.modifyMethod m f).method k =
      if k = m ∧ m < p.methods.size then f (p.method m) else p.method k := by
  unfold Program.modifyMethod Program.method
  simp only [Array.getD_eq_getD_getElem?, Array.getElem?_modify]
  by_cases hk : k = m
  · subst hk
    by_cases hlt : k < p.methods.size <;> simp [hlt]
  · simp [hk, Ne.symm hk]

lemma method_modifyMethod_self (f : Method → Method) (h : m < p.methods.size) :
    (p.modifyMethod m f).method m = f (p.method m) := by
  rw [method_modifyMethod, if_pos ⟨rfl, h⟩]

lemma method_modifyMethod_of_ne (f : Method → Method) (h : k ≠ m) :
    (p.modifyMethod m f).method k = p.method k := by
  rw [method_modifyMethod, if_neg (fun hk => h hk.1)]

@[simp] lemma size_modifyMethod (f : Method → Method) :
    (p.modifyMethod m f).methods.size = p.methods.size := by
  simp [modifyMethod]

lemma method_mem (h : m < p.methods.size) : p.method m ∈ p.methods.toList := by
  have hm : p.method m = p.methods[m] := by simp [Program.method, h]
  rw [hm]
  simp

lemma exists_method_of_mem (h : x ∈ p.methods.toList) :
    ∃ m, m < p.methods.size ∧ p.method m = x := by
  obtain ⟨m, hm, rfl⟩ := List.mem_iff_getElem.mp h
  refine ⟨m, by simpa using hm, ?_⟩
  simp [Program.method, show m < p.methods.size by simpa using hm]

lemma method_push {q : Program} (hq : q.methods = p.methods.push x) (hk : k < p.methods.size) :
    q.method k = p.method k := by
  simp [method, hq, Array.getD_eq_getD_getElem?, Array.getElem?_push, hk.ne]

lemma method_push_self {q : Program} (hq : q.methods = p.methods.push x) :
    q.method p.methods.size = x := by
  simp [method, hq, Array.getD_eq_getD_getElem?]

/-- A method of a changed program is an old one or a changed one. -/
lemma mem_modifyMethod (h : x ∈ (p.modifyMethod m f).methods.toList) :
    ∃ y ∈ p.methods.toList, x = y ∨ x = f y := by
  obtain ⟨k, hk, rfl⟩ := exists_method_of_mem h
  rw [size_modifyMethod] at hk
  rw [method_modifyMethod]
  split_ifs with hkm
  · exact ⟨p.method m, method_mem hkm.2, .inr rfl⟩
  · exact ⟨p.method k, method_mem hk, .inl rfl⟩

/-- The names do not change with the bodies. -/
lemma names_modifyMethod (hf : ∀ x, (f x).name = x.name) :
    (p.modifyMethod m f).names = p.names := by
  unfold names modifyMethod
  simp only [Array.toList_modify]
  generalize p.methods.toList = l
  induction l generalizing m with
  | nil => simp
  | cons x l ih => cases m <;> simp [hf, ih]

lemma endLabels_modifyMethod (hf : ∀ x, (f x).endLabel = x.endLabel) :
    (p.modifyMethod m f).endLabels = p.endLabels := by
  unfold endLabels modifyMethod
  simp only [Array.toList_modify]
  generalize p.methods.toList = l
  induction l generalizing m with
  | nil => simp
  | cons x l ih => cases m <;> simp [hf, ih, List.filterMap_cons]

/-- A method that gets an end label adds it to those that there are. -/
lemma endLabels_modifyMethod_of_none (hm : m < p.methods.size)
    (hnone : (p.method m).endLabel = none) (l : InstrId) :
    (p.modifyMethod m fun x => { x with endLabel := some l }).endLabels.Perm
      (l :: p.endLabels) := by
  unfold endLabels modifyMethod
  unfold Program.method at hnone
  simp only [Array.toList_modify]
  simp only [Array.getD_eq_getD_getElem?, ← Array.getElem?_toList] at hnone
  rw [← Array.length_toList] at hm
  generalize p.methods.toList = xs at hm hnone
  induction xs generalizing m with
  | nil => simp at hm
  | cons x xs ih =>
    cases m with
    | zero =>
      have hx : x.endLabel = none := by simpa using hnone
      simp [hx]
    | succ m =>
      have h := ih (m := m) (by simpa using hm) (by simpa using hnone)
      simp only [List.modify_succ_cons, List.filterMap_cons]
      cases x.endLabel with
      | none => exact h
      | some l' => exact (h.cons l').trans (List.Perm.swap _ _ _)

/-- A method that gets more in its body adds that to what the bodies hold. -/
lemma placed_modifyMethod {more : List InstrId} (hm : m < p.methods.size)
    (hf : (f (p.method m)).body.toList.Perm (more ++ (p.method m).body.toList)) :
    (p.modifyMethod m f).placed.Perm (more ++ p.placed) := by
  unfold placed modifyMethod
  unfold Program.method at hf
  simp only [Array.toList_modify]
  simp only [Array.getD_eq_getD_getElem?, ← Array.getElem?_toList] at hf
  rw [← Array.length_toList] at hm
  generalize p.methods.toList = l at hm hf
  induction l generalizing m with
  | nil => simp at hm
  | cons x l ih =>
    cases m with
    | zero =>
      simp only [List.modify_zero_cons, List.flatMap_cons, ← List.append_assoc]
      exact List.Perm.append_right _ (by simpa using hf)
    | succ m =>
      simp only [List.modify_succ_cons, List.flatMap_cons]
      have h := ih (m := m) (by simpa using hm) (by simpa using hf)
      exact (List.Perm.append_left _ h).trans (List.perm_append_comm_assoc _ _ _)

/-- Only the bodies matter to what they hold. -/
lemma placed_modifyMethod_of_body (hf : ∀ x, (f x).body = x.body) :
    (p.modifyMethod m f).placed = p.placed := by
  unfold placed modifyMethod
  simp only [Array.toList_modify]
  generalize p.methods.toList = l
  induction l generalizing m with
  | nil => simp
  | cons x l ih => cases m <;> simp [hf, ih]

lemma mem_placed_of_mem_body (hm : m < p.methods.size) (h : id ∈ (p.method m).body.toList) :
    id ∈ p.placed :=
  List.mem_flatMap.mpr ⟨p.method m, method_mem hm, h⟩

lemma lt_of_findMethod? {name : String} (h : p.findMethod? name = some k) : k < p.methods.size :=
  (Array.findIdx?_eq_some_iff_getElem.mp h).1

end Program

end TriggerCompiler
