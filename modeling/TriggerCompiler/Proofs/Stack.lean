import Mathlib
import TriggerCompiler.Proofs.Layout
import TriggerCompiler.Proofs.Phrases

/-!
# The stack along code

The slots that are on the stack in front of a line can be read off the lines before it: a push adds its
slot, and what an instruction takes is gone after it. So what holds of a line in its place, with the
lines before it and those after it, is a rule about code. Phrases keep the rule that each instruction
finds on the stack just what it takes. The rule also says what belongs together: the copy of a return
address stands in front of its call, and a write of a watched variable in front of the lines that tell
of the change.
-/

namespace TriggerCompiler

variable {code : List Line}

open Lower

/-- What is on the stack after an instruction. A push adds its slot, the instructions that use the
stack take all that is on it, and the others leave it as it is. -/
def Instr.leaves (held : List SlotId) : Instr → List SlotId
  | .push slot => slot :: held
  | .copy | .jumpIfFalse _ | .host _ => []
  | _ => held

/-- What is on the stack after lines that start with nothing on it, the last pushed slot first. -/
def held (code : List Line) : List SlotId := code.foldl (fun s x => x.instr.leaves s) []

lemma held_concat (code : List Line) (x : Line) :
    held (code ++ [x]) = x.instr.leaves (held code) := by
  unfold held
  rw [List.foldl_append]
  rfl

/-- The lines that push slots. -/
def pushLines (slots : List SlotId) : List Line := slots.map fun slot => .code (.push slot)

lemma callLines_eq (signature : String) (slots : List SlotId) :
    callLines signature slots = pushLines slots ++ [.code (.host signature)] := rfl

lemma held_pushLines (code : List Line) (slots : List SlotId) :
    held (code ++ pushLines slots) = slots.reverse ++ held code := by
  induction slots generalizing code with
  | nil => simp [pushLines]
  | cons slot slots ih =>
    have hsplit : code ++ pushLines (slot :: slots) =
        (code ++ [.code (.push slot)]) ++ pushLines slots := by simp [pushLines]
    rw [hsplit, ih, held_concat]
    simp [Line.instr, Instr.leaves]

/-! ## Rules along code -/

/-- The rule holds of each line of the code, given what stands before it and what comes after. -/
structure Along (rule : List Line → Line → List Line → Prop) (before code after : List Line) :
    Prop where
  each : ∀ xs x ys, code = xs ++ x :: ys → rule (before ++ xs) x (ys ++ after)

namespace Along

variable {rule rule' : List Line → Line → List Line → Prop} {before code' after : List Line}

lemma nil : Along rule before [] after := ⟨by simp⟩

lemma single {x : Line} (h : rule before x after) : Along rule before [x] after := by
  constructor
  intro xs y ys hsplit
  obtain ⟨rfl, rfl, rfl⟩ : xs = [] ∧ y = x ∧ ys = [] := by
    cases xs with
    | nil => simpa [eq_comm] using hsplit
    | cons z xs => simp at hsplit
  simpa using h

lemma append (h : Along rule before code (code' ++ after))
    (h' : Along rule (before ++ code) code' after) : Along rule before (code ++ code') after := by
  constructor
  intro xs x ys hsplit
  rcases List.append_eq_append_iff.mp hsplit with ⟨zs, rfl, hrest⟩ | ⟨zs, rfl, hrest⟩
  · rw [← List.append_assoc]
    exact h'.each zs x ys hrest
  · cases zs with
    | nil =>
      have hx := h'.each [] x ys hrest.symm
      simpa using hx
    | cons z zs =>
      obtain ⟨rfl, rfl⟩ := List.cons_eq_cons.mp hrest
      have hx := h.each xs x zs rfl
      rwa [← List.append_assoc] at hx

/-- Slots are pushed, and an instruction takes them. -/
lemma pushes (slots : List SlotId) {x : Line}
    (hpush : ∀ before slot after, rule before (.code (.push slot)) after)
    (h : rule (before ++ pushLines slots) x after) :
    Along rule before (pushLines slots ++ [x]) after := by
  apply append
  · constructor
    intro xs y ys hsplit
    have hy : y ∈ pushLines slots := by simp [hsplit]
    obtain ⟨slot, -, rfl⟩ := List.mem_map.mp hy
    apply hpush
  · exact single h

end Along

/-! ## Phrases -/

/-- The lines end with a write of the slot: a copy to it, or a call whose last argument it is. -/
def Terms.Wrote (v : Terms) (id : SlotId) (code : List Line) : Prop :=
  ∃ before i, code = before ++ [.code i] ∧ (held before).head? = some id ∧
    (i = .copy ∨ ∃ signature flags, i = .host signature ∧ v.calls signature flags ∧
      flags.length = (held before).length ∧ flags.getLast? = some true)

namespace Watch

/-- The lines in front of the call that tells of the change. -/
def check (w : Watch) : List Line :=
  changeLines w.type w.id w.shadow w.changed ++ branchLines w.changed w.skip ++
    pushLines [w.self, w.text]

/-- The lines after the call that tells of the change. -/
def keep (w : Watch) : List Line := copyLines w.id w.shadow ++ [.label w.skip]

lemma lines_eq (w : Watch) :
    w.lines = w.check ++ .code (.host HostCall.sendCustomEvent) :: w.keep := by
  simp [lines, check, keep, callLines_eq]

/-- A place where the change of the variable is told: the variable was written, and what stands between
is the check whether it has changed. -/
structure Tells (v : Terms) (w : Watch) (before after : List Line) : Prop where
  before : ∃ code, v.Wrote w.id code ∧ before = code ++ w.check
  after : ∃ code, after = w.keep ++ code

end Watch

/-- What a line of a phrase finds in its place: the instruction takes all that is on the stack, it may
use the slots that it finds there, and what belongs to it stands around it. -/
def Terms.Proper (v : Terms) (before : List Line) (x : Line) (after : List Line) : Prop :=
  match x with
  | .code (.push _) => True
  | .code .copy => ∃ target source, held before = [target, source] ∧
      (v.clean source ∧ v.clean target ∧ v.writable target ∨
        (∃ name back rest, v.addresses source back ∧ v.callee name target ∧
          after = .code (.jumpMethod name) :: .label back :: rest) ∨
        v.clean source ∧ ∃ (w : Watch) (rest : List Line), w.Fits v ∧ target = w.id ∧ after = w.lines ++ rest)
  | .code (.host signature) =>
    (∃ flags, v.Allows signature (held before).reverse flags ∧ flags.length = (held before).length ∧
      (∀ y ∈ held before, v.clean y) ∧
      ∀ y ∈ (held before).reverse.zip flags, y.2 = true → v.writable y.1 ∨
        ∃ (w : Watch) (rest : List Line), w.Fits v ∧ y.1 = w.id ∧ (held before).head? = some w.id ∧
          after = w.lines ++ rest) ∨
    signature = HostCall.sendCustomEvent ∧ ∃ w : Watch, w.Fits v ∧
      held before = [w.text, w.self] ∧ w.Tells v before after
  | .code (.jumpIfFalse l) => v.target l ∧ ∃ c, held before = [c] ∧ v.clean c
  | .code (.jump l) => v.target l ∧ held before = []
  | .code (.jumpMethod name) => held before = [] ∧ ∃ code address slot back rest,
      v.addresses address back ∧ v.callee name slot ∧ before = code ++ copyLines address slot ∧
        after = .label back :: rest
  | .code .halt | .code (.jumpIndirect _) => held before = [] ∧ after = []
  | .label _ | .code .nop => held before = []

section

variable {v : Terms} {before after : List Line} (hbefore : held before = [])

include hbefore

lemma along_label (l : InstrId) : Along v.Proper before [.label l] after := Along.single hbefore

lemma along_copy {source target : SlotId} (hs : v.clean source) (ht : v.clean target)
    (hw : v.writable target) : Along v.Proper before (copyLines source target) after := by
  apply Along.pushes [source, target]
  · intros
    trivial
  · refine ⟨target, source, ?_, .inl ⟨hs, ht, hw⟩⟩
    rw [held_pushLines, hbefore]
    rfl

lemma along_branch {condition : SlotId} {l : InstrId} (hc : v.clean condition) (hl : v.target l) :
    Along v.Proper before (branchLines condition l) after := by
  apply Along.pushes [condition]
  · intros
    trivial
  · refine ⟨hl, condition, ?_, hc⟩
    rw [held_pushLines, hbefore]
    rfl

/-- A call that is known, with arguments that may be used and results that may be written or are
those of a watched variable. -/
lemma along_call {signature : String} {slots : List SlotId} {flags : List Bool}
    (hcalls : v.Allows signature slots flags) (hlength : flags.length = slots.length)
    (hclean : ∀ x ∈ slots, v.clean x)
    (hwritable : ∀ x ∈ slots.zip flags, x.2 = true → v.writable x.1 ∨
      ∃ (w : Watch) (rest : List Line), w.Fits v ∧ x.1 = w.id ∧ slots.getLast? = some w.id ∧ after = w.lines ++ rest) :
    Along v.Proper before (callLines signature slots) after := by
  apply Along.pushes slots
  · intros
    trivial
  · have hheld : held (before ++ pushLines slots) = slots.reverse := by
      rw [held_pushLines, hbefore, List.append_nil]
    refine .inl ⟨flags, ?_, ?_, ?_, ?_⟩
    all_goals rw [hheld]
    · rwa [List.reverse_reverse]
    · simpa using hlength
    · intro x hx
      exact hclean x (List.mem_reverse.mp hx)
    · simpa using hwritable

lemma along_operator {signature : String} {a b c : SlotId}
    (hcalls : v.calls signature [false, false, true]) (hsilent : ¬ HostCall.Sends signature)
    (ha : v.clean a) (hb : v.clean b) (hc : v.clean c) (hw : v.writable c) :
    Along v.Proper before (callLines signature [a, b, c]) after := by
  apply along_call hbefore (Terms.allows_of_silent hcalls hsilent _) rfl
  · simpa using ⟨ha, hb, hc⟩
  · simpa using .inl hw

end

lemma held_callLines (code : List Line) (signature : String) (slots : List SlotId) :
    held (code ++ callLines signature slots) = [] := by
  rw [callLines_eq, ← List.append_assoc, held_concat]
  rfl

lemma held_copyLines (code : List Line) (source target : SlotId) :
    held (code ++ copyLines source target) = [] := by
  have hsplit : copyLines source target = pushLines [source, target] ++ [.code .copy] := rfl
  rw [hsplit, ← List.append_assoc, held_concat]
  rfl

lemma held_branchLines (code : List Line) (condition : SlotId) (l : InstrId) :
    held (code ++ branchLines condition l) = [] := by
  have hsplit : branchLines condition l = pushLines [condition] ++ [.code (.jumpIfFalse l)] := rfl
  rw [hsplit, ← List.append_assoc, held_concat]
  rfl

namespace Watch

variable {v : Terms} {w : Watch} {before after : List Line}

lemma held_changeLines (before : List Line) (type : ValueType) (id shadow changed : SlotId) :
    held (before ++ changeLines type id shadow changed) = [] := by
  unfold changeLines
  split_ifs
  · exact held_callLines _ _ _
  · rw [← List.append_assoc]
    exact held_callLines _ _ _

/-- The lines that tell of a change, after a write of the variable. -/
lemma Fits.along (h : w.Fits v) (hbefore : held before = []) (hwrote : v.Wrote w.id before) :
    Along v.Proper before w.lines after := by
  have hclean := h.clean
  simp only [List.mem_cons, List.not_mem_nil, or_false, forall_eq_or_imp, forall_eq] at hclean
  obtain ⟨hid, hshadow, hchanged, hself, htext⟩ := hclean
  have hshadow' : v.writable w.shadow := h.writable _ (by simp)
  have hchanged' : v.writable w.changed := h.writable _ (by simp)
  have hchange := held_changeLines before w.type w.id w.shadow w.changed
  have hbranch := held_branchLines
    (before ++ changeLines w.type w.id w.shadow w.changed) w.changed w.skip
  unfold lines
  apply Along.append
  apply Along.append
  apply Along.append
  apply Along.append
  · unfold changeLines
    split_ifs with htype
    · exact along_operator hbefore (h.differs htype) (HostCall.not_sends_inequality htype) hid hshadow
        hchanged hchanged'
    · apply Along.append
      · exact along_operator hbefore h.equals HostCall.not_sends_objectEquals hid hshadow hchanged
          hchanged'
      · apply along_call (held_callLines _ _ _)
          (Terms.allows_of_silent h.negation HostCall.not_sends_negation _) rfl
        · simpa using hchanged
        · simpa using .inl hchanged'
  · exact along_branch hchange hchanged h.skip
  · apply Along.pushes [w.self, w.text]
    · intros
      trivial
    · refine .inr ⟨rfl, w, h, ?_, ⟨before, hwrote, ?_⟩, after, ?_⟩
      · rw [held_pushLines, ← List.append_assoc, hbranch]
        rfl
      · simp [check]
      · simp [keep]
  · apply along_copy _ hid hshadow hshadow'
    rw [← List.append_assoc, ← List.append_assoc]
    exact held_callLines _ _ _
  · apply along_label
    rw [← List.append_assoc]
    exact held_copyLines _ _ _

lemma held_lines (before : List Line) (w : Watch) : held (before ++ w.lines) = [] := by
  have hsplit : before ++ w.lines =
      (before ++ (w.check ++ [.code (.host HostCall.sendCustomEvent)]) ++ copyLines w.id w.shadow) ++
        [.label w.skip] := by
    simp [lines_eq, keep]
  rw [hsplit, held_concat, held_copyLines]
  rfl

end Watch

namespace Phrase

variable {v : Terms} {x : Phrase} {before after : List Line}

lemma held_lines (h : held before = []) (x : Phrase) : held (before ++ x.lines) = [] := by
  cases x with
  | label l =>
    rw [lines, held_concat, h]
    rfl
  | copy source target => exact held_copyLines _ _ _
  | call signature arguments => exact held_callLines _ _ _
  | branch condition target => exact held_branchLines _ _ _
  | jump target =>
    rw [lines, held_concat, h]
    rfl
  | invoke address returnSlot name back =>
    have hsplit : before ++ (invoke address returnSlot name back).lines =
        (before ++ copyLines address returnSlot) ++ [.code (.jumpMethod name)] ++ [.label back] := by
      simp [lines]
    rw [hsplit, held_concat, held_concat, held_copyLines]
    rfl
  | update source w =>
    rw [lines, ← List.append_assoc]
    exact Watch.held_lines _ w
  | compute signature arguments w =>
    rw [lines, ← List.append_assoc]
    exact Watch.held_lines _ w

/-- The lines of a phrase keep the rule. -/
lemma Fits.along (h : x.Fits v) (hbefore : held before = []) : Along v.Proper before x.lines after := by
  cases x with
  | label l => exact along_label hbefore l
  | copy source target => exact along_copy hbefore h.1 h.2.1 h.2.2
  | call signature arguments =>
    apply along_call hbefore h.1
    · simp
    · intro y hy
      obtain ⟨z, hz, rfl⟩ := List.mem_map.mp hy
      exact (h.2 z hz).1
    · intro y hy hflag
      rw [List.zip_map', List.mem_map] at hy
      obtain ⟨z, hz, rfl⟩ := hy
      exact .inl ((h.2 z hz).2 hflag)
  | branch condition target => exact along_branch hbefore h.1 h.2
  | jump target => exact Along.single ⟨h, hbefore⟩
  | invoke address returnSlot name back =>
    have hsplit : [Line.code (.jumpMethod name), .label back] =
        [.code (.jumpMethod name)] ++ [.label back] := rfl
    have hcopy := held_copyLines before address returnSlot
    rw [lines, hsplit]
    apply Along.append
    · apply Along.pushes [address, returnSlot]
      · intros
        trivial
      · refine ⟨returnSlot, address, ?_, .inr (.inl ⟨name, back, after, h.1, h.2, rfl⟩)⟩
        rw [held_pushLines, hbefore]
        rfl
    apply Along.append
    · apply Along.single
      exact ⟨hcopy, before, address, returnSlot, back, after, h.1, h.2, rfl, rfl⟩
    · apply along_label
      rw [held_concat, hcopy]
      rfl
  | update source w =>
    rw [lines]
    apply Along.append
    · apply Along.pushes [source, w.id]
      · intros
        trivial
      · refine ⟨w.id, source, ?_, .inr (.inr ⟨h.1, w, after, h.2, rfl, rfl⟩)⟩
        rw [held_pushLines, hbefore]
        rfl
    · apply h.2.along (held_copyLines _ _ _)
      refine ⟨before ++ pushLines [source, w.id], .copy, by simp [copyLines, pushLines], ?_, .inl rfl⟩
      rw [held_pushLines]
      rfl
  | compute signature arguments w =>
    rw [lines]
    apply Along.append
    · apply along_call hbefore h.1
      · simp
      · intro y hy
        rcases List.mem_append.mp hy with hy | hy
        · exact h.2.1 y hy
        · rw [List.mem_singleton.mp hy]
          exact h.2.2.clean _ (by simp)
      · intro y hy hflag
        rw [List.zip_append (by simp)] at hy
        rcases List.mem_append.mp hy with hy | hy
        · rw [List.eq_of_mem_replicate (List.of_mem_zip hy).2] at hflag
          cases hflag
        · rw [List.mem_singleton.mp hy]
          exact .inr ⟨w, after, h.2.2, rfl, by simp, rfl⟩
    · apply h.2.2.along (held_callLines _ _ _)
      refine ⟨before ++ pushLines (arguments ++ [w.id]), .host signature, ?_, ?_,
        .inr ⟨signature, _, rfl, h.1.1, ?_, by simp⟩⟩
      · rw [callLines_eq, List.append_assoc]
      · rw [held_pushLines]
        simp
      · rw [held_pushLines, hbefore]
        simp

end Phrase

lemma Spells.held_eq {v : Terms} {before : List Line} (h : Spells v code)
    (hbefore : held before = []) : held (before ++ code) = [] := by
  obtain ⟨xs, rfl, -⟩ := h
  induction xs generalizing before with
  | nil => simpa using hbefore
  | cons x xs ih =>
    rw [List.flatMap_cons, ← List.append_assoc]
    exact ih (Phrase.held_lines hbefore x)

/-- Phrases keep the rule. -/
lemma Spells.along {v : Terms} {before after : List Line} (h : Spells v code)
    (hbefore : held before = []) : Along v.Proper before code after := by
  obtain ⟨xs, rfl, hxs⟩ := h
  induction xs generalizing before with
  | nil => exact Along.nil
  | cons x xs ih =>
    rw [List.flatMap_cons]
    apply Along.append
    · exact (hxs x List.mem_cons_self).along hbefore
    · exact ih (Phrase.held_lines hbefore x) fun y hy => hxs y (List.mem_cons_of_mem _ hy)

end TriggerCompiler
