import Mathlib
import TriggerCompiler.Proofs.Runs

/-!
# Stretches of code

What the machine does on a stretch of lines without jumps into it. Forwards, a copy, a call and a branch
are each passed in one go, with the machine that comes out. Backwards, a run comes to a line that is no
label only from the line before it, so it has gone through all lines of a stretch without labels.
-/

namespace TriggerCompiler

variable {signature : String} {slots : List SlotId}

open Program Lower

namespace Program

variable {q : Program} {k : MethodId}

/-- Lines of a method that stand together. -/
structure Stretch (q : Program) (k : MethodId) (before code after : List Line) : Prop where
  lt : k < q.methods.size
  lines : q.lines k = before ++ (code ++ after)

namespace Stretch

variable {before code code' after : List Line} {xs ys : List Line} {x : Line}

lemma left (h : q.Stretch k before (code ++ code') after) : q.Stretch k before code (code' ++ after) :=
  ⟨h.lt, by simpa using h.lines⟩

lemma right (h : q.Stretch k before (code ++ code') after) : q.Stretch k (before ++ code) code' after :=
  ⟨h.lt, by simpa using h.lines⟩

lemma place (h : q.Stretch k before (xs ++ x :: ys) after) :
    q.At k (before ++ xs) x (ys ++ after) (q.start k + before.length + xs.length) :=
  ⟨h.lt, by simpa using h.lines, by simp [Nat.add_assoc]⟩

lemma first (h : q.Stretch k before (x :: code) after) :
    q.At k before x (code ++ after) (q.start k + before.length) :=
  ⟨h.lt, by simpa using h.lines, rfl⟩

end Stretch

end Program

namespace Run

/-! ## Forwards -/

section

variable {q : Program} {k : MethodId} {before code after : List Line} {m m' : Machine}
  {position : Nat} {I : Machine → Prop} (hq : q.Laid) (hm : m.Holds q)

include hq hm

lemma climbs_push (slots : List SlotId) (h : q.Stretch k before (pushLines slots) after)
    (hposition : position = q.start k + before.length) (hI : ∀ stack, I (popped m stack)) :
    Climbs I position (position + slots.length) (position, m)
      (position + slots.length, popped m (slots.reverse ++ m.stack)) := by
  induction slots generalizing before m position with
  | nil => exact Climbs.refl _
  | cons slot slots ih =>
    have hsplit : pushLines (slot :: slots) = [.code (.push slot)] ++ pushLines slots := rfl
    rw [hsplit] at h
    obtain ⟨a, hcode⟩ := hm.code_at hq h.left.first
    rw [← hposition] at hcode
    have hstep : Next (position, m) (position + 1, popped m (slot :: m.stack)) := step_push hcode
    have hposition' : position + 1 = q.start k + (before ++ [Line.code (.push slot)]).length := by
      simp [hposition, Nat.add_assoc]
    have hrest := ih (m := popped m (slot :: m.stack)) ⟨hm.program, hm.code⟩ h.right hposition'
      fun stack => hI stack
    have hlength : position + (slot :: slots).length = position + 1 + slots.length := by
      rw [List.length_cons]
      omega
    have hstack : popped m ((slot :: slots).reverse ++ m.stack) =
        popped (popped m (slot :: m.stack)) (slots.reverse ++ (slot :: m.stack)) := by
      simp [popped]
    rw [hlength, hstack]
    apply (Climbs.single hstep le_rfl (by simp) (by simp) (hI _)).trans
    exact hrest.mono (by omega) le_rfl

/-- The instruction behind pushes. -/
lemma code_behind (slots : List SlotId) {i : Instr}
    (h : q.Stretch k before (pushLines slots ++ [.code i]) after)
    (hposition : position = q.start k + before.length) (stack : List SlotId) :
    ∃ a, (popped m stack).code[position + slots.length]? = some (a, i) := by
  obtain ⟨a, hcode⟩ := Machine.Holds.code_at (m := popped m stack) ⟨hm.program, hm.code⟩ hq h.right.first
  have hplace : q.start k + (before ++ pushLines slots).length = position + slots.length := by
    simp [pushLines, hposition]
    omega
  exact ⟨a, hplace ▸ hcode⟩

lemma climbs_copy {source target : SlotId} (h : q.Stretch k before (copyLines source target) after)
    (hposition : position = q.start k + before.length) (hI : ∀ stack, I (popped m stack))
    (hI' : I (stored m target (m.heap.getD source .null))) :
    Climbs I position (position + 3) (position, m)
      (position + 3, stored m target (m.heap.getD source .null)) := by
  have hpush := climbs_push hq hm [source, target] (Stretch.left h) hposition hI
  obtain ⟨a, hcode⟩ := code_behind hq hm [source, target] h hposition (target :: source :: m.stack)
  have hstep : Next (position + 2, popped m (target :: source :: m.stack))
      (position + 3, stored m target (m.heap.getD source .null)) := step_copy hcode rfl
  exact (hpush.mono le_rfl (by simp)).trans (Climbs.single hstep (by simp) (by simp) le_rfl hI')

lemma climbs_call (h : q.Stretch k before (callLines signature slots) after)
    (hposition : position = q.start k + before.length)
    (hcall : call signature (popped m (slots.reverse ++ m.stack)) = .ok () m')
    (hI : ∀ stack, I (popped m stack)) (hI' : I m') :
    Climbs I position (position + (slots.length + 1)) (position, m)
      (position + (slots.length + 1), m') := by
  rw [callLines_eq] at h
  have hpush := climbs_push hq hm slots h.left hposition hI
  obtain ⟨a, hcode⟩ := code_behind hq hm slots h hposition (slots.reverse ++ m.stack)
  have hstep : Next (position + slots.length, popped m (slots.reverse ++ m.stack))
      (position + (slots.length + 1), m') := (step_host hcode).trans (bind_of_ok hcall _)
  exact (hpush.mono le_rfl (by omega)).trans (Climbs.single hstep (by simp) (by simp) le_rfl hI')

/-- A branch pushes its condition, and goes on where that says. -/
lemma next_branch {condition : SlotId} {l : InstrId} {i : Nat}
    (h : q.Stretch k before (branchLines condition l) after)
    (hposition : position = q.start k + before.length)
    (hgoes : m.heap.getD condition .null = .boolean true ∧ i = position + 2 ∨
      m.heap.getD condition .null = .boolean false ∧ locateLabel l m = .ok i m)
    (hI : ∀ stack, I (popped m stack)) :
    Climbs I position (position + 1) (position, m) (position + 1, popped m (condition :: m.stack)) ∧
      Next (position + 1, popped m (condition :: m.stack)) (i, m) := by
  refine ⟨climbs_push hq hm [condition] (Stretch.left h) hposition hI, ?_⟩
  set m₁ := popped m (condition :: m.stack) with hm₁
  obtain ⟨a, hcode⟩ := code_behind hq hm [condition] h hposition (condition :: m.stack)
  have hjump := step_jumpIfFalse hcode (show m₁.stack = condition :: m.stack from rfl)
  rcases hgoes with ⟨hvalue, rfl⟩ | ⟨hvalue, hlocate⟩
  · rw [show m₁.heap.getD condition .null = _ from hvalue] at hjump
    exact hjump
  · rw [show m₁.heap.getD condition .null = _ from hvalue] at hjump
    exact hjump.trans (some_map_of_ok hlocate)

lemma passes_push (slots : List SlotId) (h : q.Stretch k before (pushLines slots) after)
    (hposition : position = q.start k + before.length) :
    Passes position (position + slots.length) (position, m)
      (position + slots.length, popped m (slots.reverse ++ m.stack)) :=
  (climbs_push (I := fun _ => True) hq hm slots h hposition fun _ => trivial).passes

lemma passes_copy {source target : SlotId} (h : q.Stretch k before (copyLines source target) after)
    (hposition : position = q.start k + before.length) :
    Passes position (position + 3) (position, m)
      (position + 3, stored m target (m.heap.getD source .null)) :=
  (climbs_copy (I := fun _ => True) hq hm h hposition (fun _ => trivial) trivial).passes

lemma passes_call (h : q.Stretch k before (callLines signature slots) after)
    (hposition : position = q.start k + before.length)
    (hcall : call signature (popped m (slots.reverse ++ m.stack)) = .ok () m') :
    Passes position (position + (slots.length + 1)) (position, m)
      (position + (slots.length + 1), m') :=
  (climbs_call (I := fun _ => True) hq hm h hposition hcall (fun _ => trivial) trivial).passes

lemma passes_branch {condition : SlotId} {l : InstrId} {i : Nat}
    (h : q.Stretch k before (branchLines condition l) after)
    (hposition : position = q.start k + before.length)
    (hgoes : m.heap.getD condition .null = .boolean true ∧ i = position + 2 ∨
      m.heap.getD condition .null = .boolean false ∧ locateLabel l m = .ok i m) :
    Passes position (position + 2) (position, m) (i, m) := by
  obtain ⟨hpush, hstep⟩ := next_branch (I := fun _ => True) hq hm h hposition hgoes fun _ => trivial
  exact (hpush.passes.mono le_rfl (by simp)).trans (Passes.single hstep (by simp) (by simp))

/-- A call in a run that does not fail. -/
lemma passes_call_of_ok (h : q.Stretch k before (callLines signature slots) after)
    (hposition : position = q.start k + before.length)
    (hok : ∀ c, Reaches (position, m) c → ∃ next m₁, step c.1 c.2 = .ok next m₁) :
    ∃ m', call signature (popped m (slots.reverse ++ m.stack)) = .ok () m' ∧
      Passes position (position + (slots.length + 1)) (position, m)
        (position + (slots.length + 1), m') := by
  have hpush := passes_push hq hm slots (callLines_eq _ _ ▸ h).left hposition
  obtain ⟨a, hcode⟩ :=
    code_behind hq hm slots (callLines_eq _ _ ▸ h) hposition (slots.reverse ++ m.stack)
  obtain ⟨next, m₁, hstep⟩ := hok _ hpush.reaches
  cases hcall : call signature (popped m (slots.reverse ++ m.stack)) with
  | ok u m' => exact ⟨m', rfl, passes_call hq hm h hposition hcall⟩
  | error e m' =>
    rw [step_host hcode, bind_of_error hcall] at hstep
    cases hstep

end

end Run

/-! ## Backwards -/

namespace Program.OnWay

variable {R : Rules} {f q : Program} {base : List SlotId} {c₀ c : Nat × Machine} {k₀ k : MethodId}
  {x₀ x y : Line} {after₀ before after : List Line} (h : Ready R f q) (hR : R.Takes)
  (hsize : q.size < 2 ^ 32) (hc₀ : OnWay R f q base c₀) (hstart : q.At k₀ [] x₀ after₀ c₀.1)

include h hR hsize hc₀ hstart

/-- A run that began at the start of a method comes to a line that is no label from the line before. -/
lemma prev (hreaches : Run.Reaches c₀ c) (hat : q.At k (before ++ [y]) x after c.1)
    (hx : ∀ l, x ≠ .label l) :
    ∃ c', Run.Reaches c₀ c' ∧ Run.Next c' c ∧ q.At k before y (x :: after) c'.1 := by
  rcases Relation.ReflTransGen.cases_tail hreaches with rfl | ⟨c', hc', hstep⟩
  · obtain ⟨-, hno, -⟩ := hstart.unique hat
    simp at hno
  have honway := hc₀.reaches h hR hsize hc'
  obtain ⟨k', before', x', after', hat', -, hmoves⟩ := honway.moves h hR hstep
  refine ⟨c', hc', hstep, ?_⟩
  generalize hnext : some c.1 = next at hmoves
  cases hmoves.goes with
  | @on y' rest after_eq falls =>
    rw [after_eq] at hat'
    have hsame : c.1 = c'.1 + 1 := Option.some.inj hnext
    obtain ⟨rfl, hbefore, rfl, rfl⟩ := hat'.next.unique (hsame ▸ hat)
    obtain ⟨rfl, hlast⟩ := List.append_inj' hbefore rfl
    obtain rfl := (List.cons.inj hlast).1
    exact hat'
  | @label l l' before' after' i target place =>
    obtain ⟨-, -, hlabel, -⟩ := (Option.some.inj hnext ▸ place).unique hat
    exact absurd hlabel.symm (hx l')
  | @enter name k'' line found =>
    obtain ⟨-, y', rest, hat''⟩ :=
      hmoves.holds.locate_start h.laid h.ended (lt_of_findMethod? found)
    obtain ⟨-, hno, -⟩ := (Option.some.inj hnext ▸ hat'').unique hat
    simp at hno
  | @back slot n k'' before'' after'' name l i line value number place =>
    obtain ⟨-, -, hlabel, -⟩ := (Option.some.inj hnext ▸ place).unique hat
    exact absurd hlabel.symm (hx l)
  | halt line => cases hnext

/-- It has gone through all lines of a stretch without labels. -/
lemma through (code : List Line) (hcode : ∀ l, .label l ∉ code) (hreaches : Run.Reaches c₀ c)
    (hat : q.At k (before ++ code) x after c.1) (hx : ∀ l, x ≠ .label l) :
    ∃ c', Run.Reaches c₀ c' ∧ c'.1 = q.start k + before.length ∧ Run.Passes c'.1 c.1 c' c := by
  induction code using List.reverseRecOn generalizing c x after with
  | nil =>
    refine ⟨c, hreaches, ?_, Run.Passes.refl c⟩
    simpa using hat.position
  | append_singleton code y ih =>
    rw [← List.append_assoc] at hat
    obtain ⟨c₁, hc₁, hstep, hat₁⟩ := prev h hR hsize hc₀ hstart hreaches hat hx
    have hy : ∀ l, y ≠ .label l := by
      rintro l rfl
      exact hcode l (by simp)
    obtain ⟨c', hc', hposition, hpasses⟩ :=
      ih (fun l hl => hcode l (List.mem_append_left _ hl)) hc₁ hat₁ hy
    have hbehind : c₁.1 + 1 = c.1 := by
      have := hat.position
      have := hat₁.position
      simp only [List.length_append, List.length_singleton] at *
      omega
    have hle : c'.1 ≤ c₁.1 := by
      have := hat₁.position
      simp only [List.length_append] at this
      omega
    refine ⟨c', hc', hposition, ?_⟩
    apply (hpasses.mono le_rfl (by omega)).trans
    exact Run.Passes.single hstep hle (by omega)

end Program.OnWay

end TriggerCompiler
