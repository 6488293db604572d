import Mathlib

/-!
# Computations with a state

The outcome of a computation carries the state also when the computation fails. The lemmas here hold
of the computations of the compiler and of the machine alike: they run sequences step by step, and
say what all of a computation keeps to if each of its parts does.
-/

namespace TriggerCompiler

variable {ε σ α β ι : Type} {s s' : σ} {e : ε}

/-! ## Sequences -/

/-- A sequence runs its first part and goes on only if that succeeds. -/
lemma bind_apply (x : EStateM ε σ α) (f : α → EStateM ε σ β) (s : σ) :
    (x >>= f) s = match x s with
      | .ok a s' => f a s'
      | .error e s' => .error e s' := by
  cases h : x s <;> simp [bind, EStateM.bind, h]

/-- A sequence whose first part succeeds. -/
lemma bind_of_ok {x : EStateM ε σ α} {a : α} (h : x s = .ok a s') (f : α → EStateM ε σ β) :
    (x >>= f) s = f a s' := by
  rw [bind_apply, h]

/-- A sequence whose first part fails. -/
lemma bind_of_error {x : EStateM ε σ α} (h : x s = .error e s') (f : α → EStateM ε σ β) :
    (x >>= f) s = .error e s' := by
  rw [bind_apply, h]

/-- What it takes for a sequence to succeed. -/
lemma bind_eq_ok {x : EStateM ε σ α} {f : α → EStateM ε σ β} {b : β} {s'' : σ} :
    (x >>= f) s = .ok b s'' ↔ ∃ a s', x s = .ok a s' ∧ f a s' = .ok b s'' := by
  rw [bind_apply]
  cases x s <;> simp

/-- What it takes for a sequence to fail. -/
lemma bind_eq_error {x : EStateM ε σ α} {f : α → EStateM ε σ β} {s'' : σ} :
    (x >>= f) s = .error e s'' ↔
      x s = .error e s'' ∨ ∃ a s', x s = .ok a s' ∧ f a s' = .error e s'' := by
  rw [bind_apply]
  cases x s <;> simp

@[simp] lemma pure_apply (a : α) (s : σ) : (pure a : EStateM ε σ α) s = .ok a s := rfl

@[simp] lemma get_apply (s : σ) : (get : EStateM ε σ σ) s = .ok s s := rfl

@[simp] lemma modify_apply (f : σ → σ) (s : σ) :
    (modify f : EStateM ε σ PUnit) s = .ok ⟨⟩ (f s) := rfl

@[simp] lemma modifyGet_apply (f : σ → α × σ) (s : σ) :
    (modifyGet f : EStateM ε σ α) s = .ok (f s).1 (f s).2 := rfl

@[simp] lemma throw_apply (e : ε) (s : σ) :
    (throw e : EStateM ε σ α) s = .error e s := rfl

/-! ## Outcomes that pass a test -/

lemma exists_ok_of_any {x : Except ε α} {test : α → Bool} (h : x.toOption.any test = true) :
    ∃ a, x = .ok a ∧ test a = true := by
  cases x with
  | error e => cases h
  | ok a => exact ⟨a, rfl, h⟩

/-- What a computation with a state ends with, unless it fails. -/
def outcome? : EStateM.Result ε σ α → Option (α × σ)
  | .ok a s => some (a, s)
  | .error _ _ => none

lemma exists_outcome_of_any {x : EStateM.Result ε σ α} {test : α × σ → Bool}
    (h : (outcome? x).any test = true) : ∃ a s, x = .ok a s ∧ test (a, s) = true := by
  cases x with
  | error e s => cases h
  | ok a s => exact ⟨a, s, rfl, h⟩

/-! ## Computations that keep to a relation -/

/-- The state in which a computation ends, or fails. -/
def finalState : EStateM.Result ε σ α → σ
  | .ok _ s => s
  | .error _ s => s

/-- The states before and after the computation are related, also if it fails. -/
class KeepsTo (R : σ → σ → Prop) (x : EStateM ε σ α) : Prop where
  run : ∀ s, R s (finalState (x s))

variable {R : σ → σ → Prop}

lemma KeepsTo.of_ok {x : EStateM ε σ α} {a : α} (hx : x s = .ok a s') [h : KeepsTo R x] : R s s' := by
  have hrun := h.run s
  rwa [hx] at hrun

variable [IsPreorder σ R]

instance (a : α) : KeepsTo R (pure a : EStateM ε σ α) := ⟨fun s => refl_of R s⟩

instance (e : ε) : KeepsTo R (throw e : EStateM ε σ α) := ⟨fun s => refl_of R s⟩

instance : KeepsTo R (get : EStateM ε σ σ) := ⟨fun s => refl_of R s⟩

lemma KeepsTo.bind {x : EStateM ε σ α} {f : α → EStateM ε σ β} (hx : KeepsTo R x)
    (hf : ∀ a, KeepsTo R (f a)) : KeepsTo R (x >>= f) where
  run s := by
    have h := hx.run s
    rw [bind_apply]
    cases hrun : x s with
    | ok a t =>
      rw [hrun] at h
      exact trans_of R h ((hf a).run t)
    | error e t =>
      rw [hrun] at h
      exact h

instance {x : EStateM ε σ α} {f : α → EStateM ε σ β} [hx : KeepsTo R x]
    [hf : ∀ a, KeepsTo R (f a)] : KeepsTo R (x >>= f) := .bind hx hf

instance {x : EStateM ε σ α} {f : α → β} [KeepsTo R x] : KeepsTo R (f <$> x) := by
  rw [map_eq_pure_bind]
  infer_instance

instance {c : Prop} [Decidable c] {x y : EStateM ε σ α} [KeepsTo R x] [KeepsTo R y] :
    KeepsTo R (if c then x else y) := by
  split <;> infer_instance

lemma KeepsTo.forM {f : ι → EStateM ε σ PUnit} (hf : ∀ i, KeepsTo R (f i)) (l : List ι) :
    KeepsTo R (l.forM f) := by
  induction l with
  | nil => exact inferInstanceAs (KeepsTo R (pure _))
  | cons i l ih => exact .bind (hf i) fun _ => ih

instance {f : ι → EStateM ε σ PUnit} [hf : ∀ i, KeepsTo R (f i)] (l : List ι) :
    KeepsTo R (l.forM f) := .forM hf l

instance {f : ι → EStateM ε σ α} [∀ i, KeepsTo R (f i)] (l : List ι) :
    KeepsTo R (l.mapM f) := by
  induction l with
  | nil =>
    rw [List.mapM_nil]
    infer_instance
  | cons i l ih =>
    rw [List.mapM_cons]
    infer_instance

instance {f : α → ι → EStateM ε σ α} [∀ a i, KeepsTo R (f a i)] (l : List ι) (a : α) :
    KeepsTo R (l.foldlM f a) := by
  induction l generalizing a with
  | nil => exact inferInstanceAs (KeepsTo R (pure _))
  | cons i l ih => exact .bind inferInstance ih

end TriggerCompiler
