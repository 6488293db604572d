import Mathlib
import TriggerCompiler.Lowering.Body
import TriggerCompiler.Proofs.Outcomes

/-!
# Running computations of the compiler

Every computation is a function of the state of the compile, and its outcome carries the state also
when it fails. The lemmas here run the elementary computations, so that a computation made of them
can be run step by step.
-/

namespace TriggerCompiler.Lower

variable {α β : Type} {s s' : LowerState} {e : CompileError} {kind : ErrorKind}

/-- A change of the program that can be made. -/
lemma tryProgram_of_ok {f : Program → Except ErrorKind (α × Program)} {a : α} {p : Program}
    (h : f s.program = .ok (a, p)) : tryProgram f s = .ok (.ok a) { s with program := p } := by
  unfold tryProgram onProgram
  rw [modifyGet_apply]
  simp only [h]

/-- A change of the program that cannot be made leaves it as it was. -/
lemma tryProgram_of_error {f : Program → Except ErrorKind (α × Program)}
    (h : f s.program = .error kind) : tryProgram f s = .ok (.error kind) s := by
  unfold tryProgram onProgram
  rw [modifyGet_apply]
  simp only [h]

/-- A change of the slot table that can be made. -/
lemma trySlots_of_ok {f : SlotTable → Except ErrorKind (α × SlotTable)} {a : α} {t : SlotTable}
    (h : f s.program.slots = .ok (a, t)) :
    trySlots f s = .ok (.ok a) { s with program := { s.program with slots := t } } := by
  unfold trySlots onSlots onProgram
  rw [modifyGet_apply]
  simp only [h]

/-- A change of the slot table that cannot be made leaves it as it was. -/
lemma trySlots_of_error {f : SlotTable → Except ErrorKind (α × SlotTable)}
    (h : f s.program.slots = .error kind) : trySlots f s = .ok (.error kind) s := by
  unfold trySlots onSlots onProgram
  rw [modifyGet_apply]
  simp only [h]

/-! ## What a computation ensures -/

/-- If the computation succeeds its result and the state it leaves are as said first; if it fails,
the error and the state are as said second. -/
def Ensures (s : LowerState) (x : Lower α) (P : α → LowerState → Prop)
    (E : CompileError → LowerState → Prop) : Prop :=
  match x s with
  | .ok a s' => P a s'
  | .error e s' => E e s'

namespace Ensures

variable {x : Lower α} {P Q : α → LowerState → Prop} {E F : CompileError → LowerState → Prop}

lemma of_ok {a : α} (h : x s = .ok a s') (hP : P a s') : Ensures s x P E := by
  unfold Ensures
  rw [h]
  exact hP

lemma of_error (h : x s = .error e s') (hE : E e s') : Ensures s x P E := by
  unfold Ensures
  rw [h]
  exact hE

lemma ok {a : α} (h : Ensures s x P E) (hx : x s = .ok a s') : P a s' := by
  unfold Ensures at h
  rwa [hx] at h

lemma error (h : Ensures s x P E) (hx : x s = .error e s') : E e s' := by
  unfold Ensures at h
  rwa [hx] at h

lemma mono (h : Ensures s x P E) (hP : ∀ a s', P a s' → Q a s')
    (hE : ∀ e s', E e s' → F e s') : Ensures s x Q F := by
  unfold Ensures at h ⊢
  cases hx : x s with
  | ok a s' =>
    rw [hx] at h
    exact hP a s' h
  | error e s' =>
    rw [hx] at h
    exact hE e s' h

/-- A sequence ensures what its second part does, and fails as either part does. -/
lemma bind {f : α → Lower β} {R : β → LowerState → Prop} (hx : Ensures s x P E)
    (hf : ∀ a s', x s = .ok a s' → P a s' → Ensures s' (f a) R E) : Ensures s (x >>= f) R E := by
  unfold Ensures at hx ⊢
  rw [bind_apply]
  cases h : x s with
  | ok a s' =>
    rw [h] at hx
    exact hf a s' h hx
  | error e s' =>
    rw [h] at hx
    exact hx

/-- A sequence whose first part is known to succeed. -/
lemma step {t : LowerState} {f : α → Lower β} {R : β → LowerState → Prop} {a : α}
    (hx : x s = .ok a t) (hf : Ensures t (f a) R E) : Ensures s (x >>= f) R E := by
  unfold Ensures
  rw [bind_of_ok hx]
  exact hf

/-- A check that has to be passed before the rest is run. -/
lemma check {c : Prop} [Decidable c] {next : Unit → Lower α}
    (hfail : c → E { kind, coordinate := some s.coordinate } s)
    (hnext : ¬ c → Ensures s (next ()) P E) :
    Ensures s (if c then Lower.fail kind >>= next else next ()) P E := by
  by_cases hc : c
  · rw [if_pos hc]
    exact of_error rfl (hfail hc)
  · rw [if_neg hc]
    exact hnext hc

end Ensures

end TriggerCompiler.Lower
