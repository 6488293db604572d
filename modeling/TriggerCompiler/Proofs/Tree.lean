import Mathlib
import TriggerCompiler.Proofs.Actions

/-!
# Block trees

A list of actions in which every opener has its block end is the flat form of a tree. The shapes of
the open blocks are a machine that reads such a list; here it is shown that the lists it accepts are
those of trees, and that what it remembers of a block says which items the block has had so far.
-/

namespace TriggerCompiler

variable {stack final : List Shape}

/-- The construct that an action uses. -/
def Action.construct? (a : Action) : Option Construct :=
  if a.group.isNone then Construct.ofName? a.id else none

/-- The items of a block: single actions, and blocks with the actions that open and close them. -/
inductive BlockTree where
  | done
  | act (action : Action) (next : BlockTree)
  | block (opener : Action) (inner : BlockTree) (closer : Action) (next : BlockTree)

namespace BlockTree

/-- The actions of a tree in a row. -/
def flatten : BlockTree → List Action
  | done => []
  | act a next => a :: next.flatten
  | block opener inner closer next => opener :: (inner.flatten ++ closer :: next.flatten)

/-- The constructs of the items, without those inside of blocks. -/
def items : BlockTree → List (Option Construct)
  | done => []
  | act a next => a.construct? :: next.items
  | block opener _ _ next => opener.construct? :: next.items

/-- Blocks are opened by openers and closed by block ends, and single actions are neither. -/
def Nested : BlockTree → Prop
  | done => True
  | act a next => (∀ c, a.construct? = some c → c.affectsBlocks = false) ∧ next.Nested
  | block opener inner closer next =>
    (∃ c, opener.construct? = some c ∧ c.opensBlock = true) ∧ inner.Nested ∧
      closer.construct? = some .blockEnd ∧ next.Nested

end BlockTree

namespace Shape

/-! ## Reading a list of actions -/

/-- Whether an action may stand where these blocks are open. -/
def accepts : Option Construct → List Shape → Bool
  | some c, stack => admits c stack
  | none, _ => true

/-- The shapes after a list of actions, if each may stand where it stands. -/
def run : List (Option Construct) → List Shape → Option (List Shape)
  | [], stack => some stack
  | c :: rest, stack => if accepts c stack then run rest (follow c stack) else none

lemma run_append (l l' : List (Option Construct)) (stack : List Shape) :
    run (l ++ l') stack = (run l stack).bind (run l') := by
  induction l generalizing stack with
  | nil => rfl
  | cons c l ih =>
    rw [List.cons_append, run, run]
    split_ifs
    · exact ih _
    · rfl

lemma run_cons_eq_some {c : Option Construct} {l : List (Option Construct)}
    (h : run (c :: l) stack = some final) :
    accepts c stack = true ∧ run l (follow c stack) = some final := by
  rw [run] at h
  split_ifs at h with hc
  exact ⟨hc, h⟩

/-! ## The number of open blocks -/

lemma length_follow_of_opens {c : Construct} (h : c.opensBlock = true) (hstack : stack ≠ []) :
    (follow (some c) stack).length = stack.length + 1 := by
  obtain ⟨x, rest, rfl⟩ := List.exists_cons_of_ne_nil hstack
  cases c with
  | blockEnd => cases h
  | _ => simp_all [follow]

lemma length_follow_of_plain {c : Option Construct} (h : ∀ k, c = some k → k.affectsBlocks = false)
    (hstack : stack ≠ []) :
    (follow c stack).length = stack.length := by
  obtain ⟨x, rest, rfl⟩ := List.exists_cons_of_ne_nil hstack
  cases c with
  | none => rfl
  | some k =>
    have hk := h k rfl
    cases k with
    | blockEnd => cases hk
    | _ => simp_all [follow, Construct.affectsBlocks]

/-- A block end is accepted if there is a block to close. -/
lemma length_follow_blockEnd (h : accepts (some .blockEnd) stack = true) :
    (follow (some .blockEnd) stack).length + 1 = stack.length ∧
      follow (some .blockEnd) stack ≠ [] := by
  match stack, h with
  | _ :: _ :: _, _ => exact ⟨rfl, by simp [follow]⟩

lemma ne_nil_of_length_eq {l l' : List Shape} (h : l'.length = l.length) (hl : l ≠ []) :
    l' ≠ [] := by
  intro h'
  rw [h'] at h
  exact hl (List.length_eq_zero_iff.mp h.symm)

end Shape

namespace BlockTree

open Shape

/-- The items of a block leave as many blocks open as they find. -/
lemma length_run_flatten {t : BlockTree} (ht : t.Nested) (hstack : stack ≠ [])
    (hrun : run (t.flatten.map Action.construct?) stack = some final) :
    final.length = stack.length := by
  induction t generalizing stack final with
  | done =>
    obtain rfl : stack = final := Option.some.inj hrun
    rfl
  | act a next ih =>
    obtain ⟨ha, hnext⟩ := ht
    obtain ⟨-, hrun⟩ := run_cons_eq_some hrun
    have hlength := length_follow_of_plain ha hstack
    rw [ih hnext (ne_nil_of_length_eq hlength hstack) hrun, hlength]
  | block opener inner closer next ihInner ihNext =>
    obtain ⟨⟨c, hc, hopens⟩, hinner, hcloser, hnext⟩ := ht
    rw [flatten, List.map_cons, hc] at hrun
    obtain ⟨-, hrun⟩ := run_cons_eq_some hrun
    have hlength := length_follow_of_opens hopens hstack
    rw [List.map_append, run_append, Option.bind_eq_some_iff] at hrun
    obtain ⟨middle, hmiddle, hrun⟩ := hrun
    have hlength' := ihInner hinner (List.ne_nil_of_length_pos (by omega)) hmiddle
    rw [List.map_cons, hcloser] at hrun
    obtain ⟨hclose, hrun⟩ := run_cons_eq_some hrun
    obtain ⟨hlength'', hne⟩ := length_follow_blockEnd hclose
    rw [ihNext hnext hne hrun]
    omega

/-! ## Lists as trees -/

/-- Every reading of the list leaves a block open. -/
def LeavesOpen (l : List Action) : Prop :=
  ∀ stack final, stack ≠ [] → run (l.map Action.construct?) stack = some final →
    stack.length < final.length

/-- A list of actions starts with the items of a block, and these go on to the end of the list or to
a block end; or else a block is never closed. -/
lemma exists_parse (n : Nat) : ∀ l : List Action, l.length ≤ n →
    (∃ (t : BlockTree) (rest : List Action), t.Nested ∧ l = t.flatten ++ rest ∧
      (rest = [] ∨ ∃ c rest', rest = c :: rest' ∧ c.construct? = some .blockEnd)) ∨
    LeavesOpen l := by
  induction n with
  | zero =>
    intro l hl
    obtain rfl : l = [] := List.length_eq_zero_iff.mp (Nat.le_zero.mp hl)
    exact .inl ⟨.done, [], trivial, rfl, .inl rfl⟩
  | succ n ih =>
    intro l hl
    cases l with
    | nil => exact .inl ⟨.done, [], trivial, rfl, .inl rfl⟩
    | cons a l =>
      have hl' : l.length ≤ n := Nat.le_of_succ_le_succ hl
      by_cases hend : a.construct? = some .blockEnd
      · exact .inl ⟨.done, a :: l, trivial, rfl, .inr ⟨a, l, rfl, hend⟩⟩
      by_cases hopens : ∃ c, a.construct? = some c ∧ c.opensBlock = true
      · obtain ⟨c, hc, hopens⟩ := hopens
        have hopen : ∀ stack final, stack ≠ [] →
            run ((a :: l).map Action.construct?) stack = some final →
            (follow (some c) stack).length = stack.length + 1 ∧
              run (l.map Action.construct?) (follow (some c) stack) = some final := by
          intro stack final hstack hrun
          rw [List.map_cons, hc] at hrun
          exact ⟨length_follow_of_opens hopens hstack, (run_cons_eq_some hrun).2⟩
        rcases ih l hl' with ⟨inner, rest, hinner, rfl, hrest⟩ | hleaves
        · rcases hrest with rfl | ⟨closer, rest', rfl, hcloser⟩
          · -- the block goes on to the end of the list
            refine .inr fun stack final hstack hrun => ?_
            obtain ⟨hlength, hrun⟩ := hopen stack final hstack hrun
            rw [List.append_nil] at hrun
            rw [length_run_flatten hinner (List.ne_nil_of_length_pos (by omega)) hrun]
            omega
          · have hshort : rest'.length ≤ n := by
              rw [List.length_append, List.length_cons] at hl'
              omega
            rcases ih rest' hshort with ⟨next, rest, hnext, rfl, hrest⟩ | hleaves
            · refine .inl ⟨.block a inner closer next, rest,
                ⟨⟨c, hc, hopens⟩, hinner, hcloser, hnext⟩, ?_, hrest⟩
              simp [flatten]
            · refine .inr fun stack final hstack hrun => ?_
              obtain ⟨hlength, hrun⟩ := hopen stack final hstack hrun
              rw [List.map_append, run_append, Option.bind_eq_some_iff] at hrun
              obtain ⟨middle, hmiddle, hrun⟩ := hrun
              have hlength' := length_run_flatten hinner
                (List.ne_nil_of_length_pos (by omega)) hmiddle
              rw [List.map_cons, hcloser] at hrun
              obtain ⟨hclose, hrun⟩ := run_cons_eq_some hrun
              obtain ⟨hlength'', hne⟩ := length_follow_blockEnd hclose
              have hlt := hleaves _ final hne hrun
              omega
        · refine .inr fun stack final hstack hrun => ?_
          obtain ⟨hlength, hrun⟩ := hopen stack final hstack hrun
          have hlt := hleaves _ final (List.ne_nil_of_length_pos (by omega)) hrun
          omega
      · have hplain : ∀ c, a.construct? = some c → c.affectsBlocks = false := by
          intro c hc
          unfold Construct.affectsBlocks
          rw [Bool.or_eq_false_iff]
          refine ⟨Bool.eq_false_iff.mpr fun h => hopens ⟨c, hc, h⟩, ?_⟩
          exact decide_eq_false fun h => hend (h ▸ hc)
        rcases ih l hl' with ⟨t, rest, ht, rfl, hrest⟩ | hleaves
        · exact .inl ⟨.act a t, rest, ⟨hplain, ht⟩, rfl, hrest⟩
        · refine .inr fun stack final hstack hrun => ?_
          rw [List.map_cons] at hrun
          obtain ⟨-, hrun⟩ := run_cons_eq_some hrun
          have hlength := length_follow_of_plain hplain hstack
          have hlt := hleaves _ final (ne_nil_of_length_eq hlength hstack) hrun
          omega

/-- A list that is read from one open block to one open block is that of a tree. -/
lemma exists_of_run {l : List Action} {x : Shape}
    (hrun : run (l.map Action.construct?) [x] = some final) (hfinal : final.length ≤ 1) :
    ∃ t : BlockTree, t.Nested ∧ t.flatten = l := by
  rcases exists_parse l.length l le_rfl with ⟨t, rest, ht, rfl, hrest⟩ | hleaves
  · rcases hrest with rfl | ⟨c, rest, rfl, hc⟩
    · exact ⟨t, ht, (List.append_nil _).symm⟩
    · -- the block end would close the outermost block
      rw [List.map_append, run_append, Option.bind_eq_some_iff] at hrun
      obtain ⟨middle, hmiddle, hrun⟩ := hrun
      have hlength := length_run_flatten ht (by simp) hmiddle
      rw [List.map_cons, hc] at hrun
      obtain ⟨hlength', hne⟩ := length_follow_blockEnd (run_cons_eq_some hrun).1
      rw [hlength] at hlength'
      exact absurd (List.length_eq_zero_iff.mp (by simpa using hlength')) hne
  · have hlt := hleaves [x] final (by simp) hrun
    rw [List.length_singleton] at hlt
    omega

end BlockTree

end TriggerCompiler
