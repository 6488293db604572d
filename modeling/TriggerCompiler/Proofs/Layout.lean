import Mathlib
import TriggerCompiler.Machine
import TriggerCompiler.Proofs.Code

/-!
# Where code stands

The machine holds the bodies of all methods one after the other, and the address of an instruction is
the size of what stands before it. A label has no size, so a jump to an address goes to the first of
the labels that stand there. Main statements: the machine finds an instruction at its address if the
one before it is no label, and otherwise it finds a label from which it comes there.
-/

namespace TriggerCompiler

variable {before after : List Line}

/-- The instruction of a line; a label stands for no operation. -/
def Line.instr : Line → Instr
  | .label _ => .nop
  | .code i => i

namespace Program

variable {p q : Program} {k : MethodId} {i j : Nat} {id : InstrId}

lemma instr_line (p : Program) (id : InstrId) : (p.line id).instr = p.instr id := by
  unfold Program.line
  split_ifs with h
  · exact h.symm
  · rfl

/-! ## Positions -/

/-- The number of instructions in front of a method. -/
def start (p : Program) (k : MethodId) : Nat :=
  ((p.methods.toList.take k).flatMap (·.body.toList)).length

lemma placed_eq (hk : k < p.methods.size) :
    p.placed = (p.methods.toList.take k).flatMap (·.body.toList) ++ ((p.method k).body.toList ++
      (p.methods.toList.drop (k + 1)).flatMap (·.body.toList)) := by
  have hget : p.methods.toList[k]? = some (p.method k) := by
    simp [Program.method, Array.getD_eq_getD_getElem?, hk]
  have hsplit : p.methods.toList =
      p.methods.toList.take k ++ p.method k :: p.methods.toList.drop (k + 1) := by
    obtain ⟨hlt, hk'⟩ := List.getElem?_eq_some_iff.mp hget
    rw [← hk', List.cons_getElem_drop_succ, List.take_append_drop]
  unfold placed
  rw [hsplit, List.flatMap_append, List.flatMap_cons, ← hsplit]

lemma placed_start (hk : k < p.methods.size) {o : Nat}
    (ho : (p.method k).body.toList[o]? = some id) : p.placed[p.start k + o]? = some id := by
  have hlt := (List.getElem?_eq_some_iff.mp ho).1
  rw [placed_eq hk, start, List.getElem?_append_right (by omega), Nat.add_sub_cancel_left,
    List.getElem?_append_left hlt, ho]

lemma start_succ (hk : k < p.methods.size) :
    p.start (k + 1) = p.start k + (p.method k).body.toList.length := by
  have hget : p.methods.toList[k]? = some (p.method k) := by
    simp [Program.method, Array.getD_eq_getD_getElem?, hk]
  unfold start
  rw [List.take_add_one, hget]
  simp

lemma start_le {k' : MethodId} (h : k ≤ k') : p.start k ≤ p.start k' := by
  have hsplit : p.methods.toList.take k' =
      p.methods.toList.take k ++ (p.methods.toList.take k').drop k := by
    have hparts := List.take_append_drop k (p.methods.toList.take k')
    rw [List.take_take, Nat.min_eq_left h] at hparts
    exact hparts.symm
  unfold start
  rw [hsplit, List.flatMap_append, List.length_append]
  omega

/-- A line of a method in its place, and the position of its instruction. -/
structure At (p : Program) (k : MethodId) (before : List Line) (x : Line) (after : List Line)
    (position : Nat) : Prop where
  lt : k < p.methods.size
  lines : p.lines k = before ++ x :: after
  position : position = p.start k + before.length

namespace At

variable {x y : Line} {position : Nat}

lemma next (h : p.At k before x (y :: after) position) :
    p.At k (before ++ [x]) y after (position + 1) where
  lt := h.lt
  lines := by simp [h.lines]
  position := by
    rw [h.position, List.length_append]
    rfl

lemma prev (h : p.At k (before ++ [x]) y after position) :
    ∃ n, position = n + 1 ∧ p.At k before x (y :: after) n := by
  have hposition := h.position
  rw [List.length_append, List.length_singleton] at hposition
  exact ⟨p.start k + before.length, by omega, h.lt, by simp [h.lines], rfl⟩

lemma placed (h : p.At k before x after position) :
    ∃ id, p.placed[position]? = some id ∧ p.line id = x := by
  have hx : (p.lines k)[before.length]? = some x := by simp [h.lines]
  unfold Program.lines at hx
  rw [List.getElem?_map] at hx
  obtain ⟨id, hid, hline⟩ := Option.map_eq_some_iff.mp hx
  exact ⟨id, h.position ▸ placed_start h.lt hid, hline⟩

lemma of_lt (hk : k < p.methods.size) {o : Nat} (ho : o < (p.lines k).length) :
    p.At k ((p.lines k).take o) (p.lines k)[o] ((p.lines k).drop (o + 1)) (p.start k + o) where
  lt := hk
  lines := by rw [List.cons_getElem_drop_succ, List.take_append_drop]
  position := by
    rw [List.length_take]
    omega

lemma lt_start_succ (h : p.At k before x after position) : position < p.start (k + 1) := by
  have hlength := congrArg List.length h.lines
  unfold Program.lines at hlength
  simp only [List.length_map, List.length_append, List.length_cons] at hlength
  rw [start_succ h.lt, h.position]
  omega

/-- There is one line at a position. -/
lemma unique {k' : MethodId} {before' after' : List Line} {x' : Line}
    (h : p.At k before x after position) (h' : p.At k' before' x' after' position) :
    k = k' ∧ before = before' ∧ x = x' ∧ after = after' := by
  have hposition := h.position
  have hposition' := h'.position
  have hlt := h.lt_start_succ
  have hlt' := h'.lt_start_succ
  obtain rfl : k = k' := by
    rcases Nat.lt_trichotomy k k' with hkk | hkk | hkk
    · have hle := start_le (p := p) (Nat.succ_le_of_lt hkk)
      rw [Nat.succ_eq_add_one] at hle
      omega
    · exact hkk
    · have hle := start_le (p := p) (Nat.succ_le_of_lt hkk)
      rw [Nat.succ_eq_add_one] at hle
      omega
  have hlength : before.length = before'.length := by omega
  obtain ⟨hbefore, hrest⟩ := List.append_inj (h.lines.symm.trans h'.lines) hlength
  exact ⟨rfl, hbefore, List.cons.inj hrest⟩

end At

/-! ## Addresses -/

/-- The size of what stands in front of a position. -/
def offset (p : Program) (j : Nat) : Nat := ((p.placed.take j).map fun id => (p.instr id).size).sum

lemma size_eq_offset (p : Program) : p.size = p.offset p.placed.length := by
  unfold size offset
  rw [List.take_length, List.sum_eq_foldr, List.foldr_map]

lemma offset_succ (h : p.placed[j]? = some id) : p.offset (j + 1) = p.offset j + (p.instr id).size := by
  unfold offset
  rw [List.take_add_one, h]
  simp

lemma offset_le_succ (p : Program) (j : Nat) : p.offset j ≤ p.offset (j + 1) := by
  cases h : p.placed[j]? with
  | some id =>
    rw [offset_succ h]
    omega
  | none =>
    unfold offset
    rw [List.take_add_one, h]
    simp

lemma offset_le (h : i ≤ j) : p.offset i ≤ p.offset j := by
  induction h with
  | refl => exact le_rfl
  | step _ ih => exact ih.trans (offset_le_succ p _)

lemma size_eq_zero {x : Instr} (h : x.size = 0) : x = .nop := by
  cases x with
  | nop => rfl
  | _ => cases h

/-- Only labels stand between two positions with one address. -/
lemma instr_of_offset_eq (h : p.offset i = p.offset j) {n : Nat} (hi : i ≤ n) (hj : n < j)
    (hn : p.placed[n]? = some id) : p.instr id = .nop := by
  have hlow := offset_le (p := p) hi
  have hhigh := offset_le (p := p) (Nat.succ_le_of_lt hj)
  rw [Nat.succ_eq_add_one, offset_succ hn] at hhigh
  apply size_eq_zero
  omega

/-- Behind an instruction with a size addresses are greater. -/
lemma offset_lt (h : p.placed[j]? = some id) (hid : p.instr id ≠ .nop) (hi : i ≤ j) :
    p.offset i < p.offset (j + 1) := by
  have hpos : (p.instr id).size ≠ 0 := fun hzero => hid (size_eq_zero hzero)
  have hle := offset_le (p := p) hi
  rw [offset_succ h]
  omega

/-- Each instruction that a body holds has the size of what stands before it as its address. -/
def Laid (p : Program) : Prop :=
  ∀ j id, p.placed[j]? = some id → p.address? id = some (p.offset j)

/-- Every method ends with an instruction that is no label. -/
def Ended (p : Program) : Prop :=
  ∀ k < p.methods.size, ∃ body x, p.lines k = body ++ [.code x] ∧ x ≠ .nop

/-- No label stands right before a method. -/
lemma instr_before_start (h : p.Ended) (hk : k ≤ p.methods.size) {n : Nat}
    (hn : p.start k = n + 1) (hid : p.placed[n]? = some id) : p.instr id ≠ .nop := by
  cases k with
  | zero => simp [start] at hn
  | succ k =>
    have hlt : k < p.methods.size := hk
    obtain ⟨body, x, hlines, hx⟩ := h k hlt
    have hlength : (p.method k).body.toList.length = body.length + 1 := by
      have := congrArg List.length hlines
      simpa [lines] using this
    have hlast : p.At k body (.code x) [] n :=
      ⟨hlt, hlines, by rw [start_succ hlt] at hn; omega⟩
    obtain ⟨id', hid', hline⟩ := hlast.placed
    obtain rfl : id' = id := Option.some.inj (hid'.symm.trans hid)
    rw [← instr_line, hline]
    exact hx

/-- The address of a method is that of its first instruction. -/
lemma methodAddress?_eq (h : p.Laid) (hended : p.Ended) {name : String}
    (hk : p.findMethod? name = some k) : p.methodAddress? name = some (p.offset (p.start k)) := by
  have hlt := lt_of_findMethod? hk
  obtain ⟨body, x, hlines, -⟩ := hended k hlt
  have hlength : 0 < (p.method k).body.toList.length := by
    have hlength := congrArg List.length hlines
    unfold lines at hlength
    simp only [List.length_map, List.length_append, List.length_singleton] at hlength
    omega
  obtain ⟨id, hid⟩ : ∃ id, (p.method k).body.toList[0]? = some id :=
    ⟨_, List.getElem?_eq_getElem hlength⟩
  have haddress := h _ _ (placed_start hlt hid)
  rw [Array.getElem?_toList] at hid
  unfold methodAddress? methodNamed?
  rw [hk]
  simpa [hid] using haddress

end Program

/-- The machine runs the program. -/
structure Machine.Holds (q : Program) (m : Machine) : Prop where
  program : m.program = q
  code : m.code = (Machine.ofProgram q).code

namespace Machine.Holds

open Program

variable {q : Program} {m : Machine} {k : MethodId} {j : Nat} {id : InstrId}

lemma getElem? (h : m.Holds q) (hq : q.Laid) (hj : q.placed[j]? = some id) :
    m.code[j]? = some (q.offset j, q.instr id) := by
  rw [h.code, ofProgram]
  simp [hj, hq j id hj]

/-- The machine has the instruction of a line at the position of the line. -/
lemma code_at (h : m.Holds q) (hq : q.Laid) {x : Line} (hat : q.At k before x after j) :
    ∃ a, m.code[j]? = some (a, x.instr) := by
  obtain ⟨id, hid, rfl⟩ := hat.placed
  rw [instr_line]
  exact ⟨_, h.getElem? hq hid⟩

lemma size (h : m.Holds q) : m.code.size = q.placed.length := by
  rw [h.code, ofProgram]
  simp

section

variable (h : m.Holds q) (hq : q.Laid)
include h hq

/-- A jump to the address of a position goes to the first position with that address. -/
lemma locate (hj : j < q.placed.length) :
    ∃ i ≤ j, q.offset i = q.offset j ∧ Run.locate (q.offset j) m = .ok i m := by
  have haddress : ∀ (n : Nat) (hn : n < m.code.size), m.code[n].1 = q.offset n := by
    intro n hn
    have hn' : n < q.placed.length := h.size ▸ hn
    have hget := h.getElem? hq (List.getElem?_eq_getElem hn')
    rw [Array.getElem?_eq_getElem hn] at hget
    rw [Option.some.inj hget]
  have hsome : (m.code.findIdx? fun entry => decide (q.offset j ≤ entry.1)).isSome = true := by
    have hj' : j < m.code.size := h.size.symm ▸ hj
    rw [Array.findIdx?_isSome, Array.any_eq_true]
    refine ⟨j, hj', ?_⟩
    rw [haddress j hj']
    simp
  obtain ⟨i, hi⟩ := Option.isSome_iff_exists.mp hsome
  obtain ⟨hlt, hfound, hfirst⟩ := Array.findIdx?_eq_some_iff_getElem.mp hi
  rw [haddress i hlt, decide_eq_true_eq] at hfound
  have hle : i ≤ j := by
    by_contra hgt
    have hno := hfirst j (by omega)
    rw [haddress j (by omega)] at hno
    simp at hno
  refine ⟨i, hle, le_antisymm (offset_le hle) hfound, ?_⟩
  simp only [Run.locate, bind, EStateM.bind, get, getThe, MonadStateOf.get, EStateM.get, hi]
  rfl

/-- The machine finds a position at its address if no label stands right before it. -/
lemma locate_self (hj : j < q.placed.length)
    (hbefore : ∀ n, j = n + 1 → ∀ id, q.placed[n]? = some id → q.instr id ≠ .nop) :
    Run.locate (q.offset j) m = .ok j m := by
  obtain ⟨i, hle, hsame, hlocate⟩ := h.locate hq hj
  obtain rfl : i = j := by
    by_contra hne
    obtain ⟨n, rfl⟩ : ∃ n, j = n + 1 := ⟨j - 1, by omega⟩
    have hn : n < q.placed.length := by omega
    have hlt := offset_lt (List.getElem?_eq_getElem hn)
      (hbefore n rfl _ (List.getElem?_eq_getElem hn)) (show i ≤ n by omega)
    omega
  exact hlocate

/-- The machine finds a line at its address if it stands behind one that is no label. -/
lemma locate_behind {i : Instr} {x : Line} (hat : q.At k (before ++ [.code i]) x after j)
    (hi : i ≠ .nop) :
    Run.locate (q.offset j) m = .ok j m := by
  obtain ⟨id, hid, -⟩ := hat.placed
  apply h.locate_self hq (List.getElem?_eq_some_iff.mp hid).1
  intro n hn id' hid'
  obtain ⟨n', hn', hprev⟩ := hat.prev
  obtain rfl : n = n' := by omega
  obtain ⟨id₁, hid₁, hline⟩ := hprev.placed
  obtain rfl := Option.some.inj (hid₁.symm.trans hid')
  rw [← instr_line, hline]
  exact hi

/-- The machine finds a method at the address of its first instruction. -/
lemma locate_start (hended : q.Ended) (hk : k < q.methods.size) :
    Run.locate (q.offset (q.start k)) m = .ok (q.start k) m ∧
      ∃ x after, q.At k [] x after (q.start k) := by
  obtain ⟨body, x, hlines, -⟩ := hended k hk
  have hpos : 0 < (q.lines k).length := by simp [hlines]
  have hat := At.of_lt hk hpos
  obtain ⟨id, hid, -⟩ := hat.placed
  refine ⟨h.locate_self hq (List.getElem?_eq_some_iff.mp hid).1 ?_, _, _, by simpa using hat⟩
  intro n hn id' hid'
  exact instr_before_start hended hk.le hn hid'

/-- The machine finds a label at its address, or another label right before it from which it comes
there. -/
lemma locate_label (hended : q.Ended) {l : InstrId} (hat : q.At k before (.label l) after j) :
    ∃ i before' l' after', Run.locate (q.offset j) m = .ok i m ∧
      q.At k before' (.label l') after' i ∧ i ≤ j ∧
      ∀ n, i ≤ n → n < j → ∃ a, m.code[n]? = some (a, .nop) := by
  obtain ⟨idj, hidj, -⟩ := hat.placed
  have hj := (List.getElem?_eq_some_iff.mp hidj).1
  obtain ⟨i, hle, hsame, hlocate⟩ := h.locate hq hj
  have hposition := hat.position
  have hstart : q.start k ≤ i := by
    by_contra hlt
    obtain ⟨n, hn⟩ : ∃ n, q.start k = n + 1 := ⟨q.start k - 1, by omega⟩
    have hn' : n < q.placed.length := by omega
    apply instr_before_start hended hat.lt.le hn (List.getElem?_eq_getElem hn')
    exact instr_of_offset_eq hsame (by omega) (by omega) (List.getElem?_eq_getElem hn')
  obtain ⟨o, rfl⟩ := Nat.exists_eq_add_of_le hstart
  have hlength : before.length < (q.lines k).length := by simp [hat.lines]
  have hat' := At.of_lt hat.lt (show o < (q.lines k).length by omega)
  have hnop : ∀ n, q.start k + o ≤ n → n < j → ∀ id, q.placed[n]? = some id → q.instr id = .nop :=
    fun n hn hnj id hid => instr_of_offset_eq hsame hn hnj hid
  obtain ⟨l', hl'⟩ : ∃ l', (q.lines k)[o] = .label l' := by
    by_cases ho : o = before.length
    · refine ⟨l, ?_⟩
      simp [hat.lines, ho]
    · obtain ⟨id, hid, hline⟩ := hat'.placed
      have hid' := hnop _ le_rfl (by omega) id hid
      exact ⟨id, hline ▸ line_eq_label.mpr ⟨hid', rfl⟩⟩
  rw [hl'] at hat'
  refine ⟨_, _, l', _, hlocate, hat', hle, ?_⟩
  intro n hn hnj
  have hn' : n < q.placed.length := by omega
  have hcode := h.getElem? hq (List.getElem?_eq_getElem hn')
  rw [hnop n hn hnj _ (List.getElem?_eq_getElem hn')] at hcode
  exact ⟨_, hcode⟩

end

end Machine.Holds

end TriggerCompiler
