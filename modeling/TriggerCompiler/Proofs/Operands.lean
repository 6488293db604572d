import Mathlib
import TriggerCompiler.Proofs.GrownRegistry

/-!
# The operands of compiled code

A scan of a method's body counts what is on the stack: a push adds one, and a copy, a branch or a call
takes what it asks for. In a compiled program each instruction finds exactly what it asks for, jumps and
labels stand where nothing is on the stack, and jumps stay within their method. So no run takes from the
stack what is not there, and what was on it at the start is left alone: this is `operands_are_balanced`.
-/

namespace TriggerCompiler

open Program

namespace Instr

/-- How much is on the stack after an instruction that found the given number of slots there. -/
def depthAfter (depth : Nat) : Instr → Nat
  | push _ => depth + 1
  | copy => depth - 2
  | jumpIfFalse _ => depth - 1
  | host signature => depth - (HostCall.arity? signature).getD 0
  | _ => depth

/-- Whether an instruction finds exactly what it asks for. -/
def finds (depth : Nat) : Instr → Bool
  | push _ => true
  | copy => depth = 2
  | jumpIfFalse _ => depth = 1
  | host signature => HostCall.arity? signature = some depth
  | _ => depth = 0

/-- How much code leaves on the stack. -/
def depth (code : List Instr) : Nat := code.foldl depthAfter 0

lemma depth_concat (code : List Instr) (i : Instr) :
    depth (code ++ [i]) = i.depthAfter (depth code) := by
  unfold depth
  rw [List.foldl_append]
  rfl

/-- Scans code from a depth on: each instruction finds what it asks for, and nothing is left at the
end. -/
def balanced (depth : Nat) : List Instr → Bool
  | [] => depth = 0
  | i :: rest => i.finds depth && balanced (i.depthAfter depth) rest

end Instr

namespace Program

variable {f q : Program} {k : MethodId} {strict : Prop} {before after : List Line} {x : Line}
  {position : Nat}

/-- A line in its place finds what it asks for, and the scan counts what it leaves. -/
lemma finds_of_proper
    (h : (f.terms (Rules.builtin strict).free k (f.Label k)).Proper before x after) :
    x.instr.finds (held before).length = true ∧
      (x.instr.leaves (held before)).length = x.instr.depthAfter (held before).length := by
  have hnone : held before = [] → x.instr.finds 0 = true →
      (x.instr.leaves []).length = x.instr.depthAfter 0 →
      x.instr.finds (held before).length = true ∧
        (x.instr.leaves (held before)).length = x.instr.depthAfter (held before).length := by
    intro hheld hfinds hleaves
    rw [hheld]
    exact ⟨hfinds, hleaves⟩
  cases x with
  | label l => exact hnone h rfl rfl
  | code i =>
    cases i with
    | nop => exact hnone h rfl rfl
    | push slot => exact ⟨rfl, rfl⟩
    | copy =>
      obtain ⟨target, source, hheld, -⟩ := h
      rw [hheld]
      exact ⟨rfl, rfl⟩
    | host signature =>
      have harity : HostCall.arity? signature = some (held before).length := by
        rcases h with ⟨flags, hcalls, hlength, -⟩ | ⟨rfl, w, -, hheld, -⟩
        · have hcalls' : (Rules.builtin strict).calls signature flags := hcalls.1
          rw [← hlength]
          exact Rules.builtin_arity hcalls'
        · have harity : HostCall.arity? HostCall.sendCustomEvent = some 2 := by decide
          rw [hheld]
          exact harity
      simp [Line.instr, Instr.finds, Instr.leaves, Instr.depthAfter, harity]
    | jump l => exact hnone h.2 rfl rfl
    | jumpIfFalse l =>
      obtain ⟨-, c, hheld, -⟩ := h
      rw [hheld]
      exact ⟨rfl, rfl⟩
    | jumpIndirect slot => exact hnone h.1 rfl rfl
    | jumpMethod name => exact hnone h.1 rfl rfl
    | halt => exact hnone h.1 rfl rfl

/-- The scan of lines that are in order goes through. -/
lemma balanced_of_along {code : List Line}
    (h : Along (f.terms (Rules.builtin strict).free k (f.Label k)).Proper before code after)
    (hend : held (before ++ code) = []) :
    Instr.balanced (held before).length (code.map Line.instr) = true := by
  induction code generalizing before with
  | nil => simpa [Instr.balanced] using hend
  | cons x code ih =>
    obtain ⟨hfinds, hleaves⟩ := finds_of_proper (h.each [] x code rfl)
    rw [List.append_nil] at hfinds hleaves
    have hrest : Along (f.terms (Rules.builtin strict).free k (f.Label k)).Proper (before ++ [x]) code
        after := by
      constructor
      intro xs y ys hsplit
      have hy := h.each (x :: xs) y ys (by simp [hsplit])
      simpa using hy
    have hscan := ih hrest (by simpa using hend)
    rw [held_concat, hleaves] at hscan
    simp [Instr.balanced, hfinds, hscan]

namespace Ready

variable (h : Ready (Rules.builtin strict) f q)

include h

/-- The count of a scan is what the machine has on its stack. -/
lemma depth_eq (hat : q.At k before x after position) :
    Instr.depth (before.map Line.instr) = (held before).length := by
  induction before using List.reverseRecOn generalizing x after position with
  | nil => rfl
  | append_singleton before y ih =>
    obtain ⟨n, -, hprev⟩ := hat.prev
    rw [List.map_append, List.map_singleton, Instr.depth_concat, ih hprev, held_concat,
      (finds_of_proper (h.proper hprev)).2]

lemma balanced (hk : k < q.methods.size) : Instr.balanced 0 (q.bodyCode k) = true := by
  have hk' : k < f.methods.size := h.methods ▸ hk
  obtain ⟨body, hlines⟩ := h.ends k hk'
  rw [bodyCode_eq, h.lines]
  apply balanced_of_along (h.along k hk')
  -- the last line ends the method, and it finds nothing on the stack
  have hlast : q.At k body (.code (Epilogue.instr (f.method k).epilogue)) []
      (q.start k + body.length) := ⟨hk, (h.lines k).trans hlines, rfl⟩
  rw [List.nil_append, hlines, held_concat]
  apply h.leaves_eq_nil hlast
  cases (f.method k).epilogue with
  | halt => rfl
  | indirect slot => rfl

lemma label_of_target (hk : k < q.methods.size) {i : Instr} (hi : i ∈ q.bodyCode k) {l : InstrId}
    (hl : i.labelTarget = some l) : q.Label k l := by
  rw [bodyCode_eq] at hi
  obtain ⟨x, hx, rfl⟩ := List.mem_map.mp hi
  obtain ⟨before, after, hlines⟩ := List.append_of_mem hx
  have hat : q.At k before x after (q.start k + before.length) := ⟨hk, hlines, rfl⟩
  have hproper := h.proper hat
  have hlabel : f.Label k l := by
    cases x with
    | label l' => cases hl
    | code i =>
      cases i with
      | jump l' =>
        obtain rfl := Option.some.inj hl
        exact hproper.1
      | jumpIfFalse l' =>
        obtain rfl := Option.some.inj hl
        exact hproper.1
      | _ => cases hl
  exact ⟨h.method k ▸ hlabel.mem, (h.instr l).trans hlabel.nop⟩

/-- Wherever a run comes to, the stack holds what the scan counts, above what was there before. -/
lemma stack_of_visits (hsize : q.size < 2 ^ 32) {m : Machine}
    (hm : m.Intact (Rules.builtin strict) f q) {name : String} {c : Nat × Machine}
    (hvisits : Run.Visits name m c) :
    ∃ k o, k < q.methods.size ∧ o < (q.bodyCode k).length ∧ c.1 = q.start k + o ∧
      ∃ pushed, c.2.stack = pushed ++ m.stack ∧
        pushed.length = Instr.depth ((q.bodyCode k).take o) := by
  obtain ⟨k₀, hk₀⟩ := hm.findMethod?_of_visits hvisits
  have honway := (OnWay.start hm h hk₀).reaches h Rules.builtin_takes hsize
    ((hm.visits_iff h hk₀).mp hvisits)
  obtain ⟨k, before, x, after, hat, hstack⟩ := honway.stands
  refine ⟨k, before.length, hat.lt, ?_, hat.position, held before, hstack, ?_⟩
  · rw [bodyCode_eq, List.length_map, hat.lines]
    simp
  · rw [bodyCode_eq, hat.lines, List.map_append, List.take_left' (List.length_map _), h.depth_eq hat]

end Ready

end Program

/-- In a compiled trigger, a scan of any method finds exactly what each instruction asks for on the
stack, and jumps go to labels of their own method. Hence no run of a method takes from the stack what is
not there, and wherever it comes to, the stack holds what the scan counts above what was there before: at
the start and at the end of each method that it goes through, the stack is as the run found it. -/
theorem operands_are_balanced {r : Registry} (hr : r.Grown fun _ => True) (options : CompileOptions)
    {t : Trigger} (ht : t.NoAddress) {c : CompiledTrigger}
    (h : compileTrigger ⟨r, options⟩ t = .ok c) :
    (∀ k < c.program.methods.size, Instr.balanced 0 (c.program.bodyCode k) = true ∧
      ∀ i ∈ c.program.bodyCode k, ∀ l, i.labelTarget = some l → c.program.Label k l) ∧
    (c.program.size < 2 ^ 32 → ∀ m : Machine, m.Session c.program → ∀ (base : List SlotId) (name : String),
      (∀ m', Run.method name { m with stack := base } = .ok () m' → m'.stack = base) ∧
      (∀ e m', Run.method name { m with stack := base } = .error e m' →
        e ≠ .stackUnderflow ∧ ∀ n, e ≠ .fewArguments n) ∧
      ∀ x, Run.Visits name { m with stack := base } x →
        ∃ k o, k < c.program.methods.size ∧ o < (c.program.bodyCode k).length ∧
          x.1 = c.program.start k + o ∧ ∃ pushed, x.2.stack = pushed ++ base ∧
            pushed.length = Instr.depth ((c.program.bodyCode k).take o)) := by
  obtain ⟨f, hready, -⟩ := compileTrigger_ready hr (fun hno : False => hno.elim) ht h
  constructor
  · intro k hk
    exact ⟨hready.balanced hk, fun i hi l hl => hready.label_of_target hk hi hl⟩
  · intro hsize m hm base name
    have hintact := (hm.intact hready Rules.builtin_takes hsize).1
    have hintact' : Machine.Intact (Rules.builtin False) f c.program { m with stack := base } :=
      hintact.same ⟨hintact.holds.program, hintact.holds.code⟩ rfl
    refine ⟨fun m' hrun => ?_, fun e m' hrun => ?_, fun x hx => ?_⟩
    · exact (hintact'.method_ok hready Rules.builtin_takes hsize hrun).2
    · exact hintact'.method_error hready Rules.builtin_takes hsize hrun
    · exact hready.stack_of_visits hsize hintact' hx

/-- A loop adds one to a watched variable until it is no longer less than two. -/
theorem operands_are_balanced_in_loop :
    ∃ c, compileTrigger ⟨Registry.builtin, {}⟩
        { declarations := [{ id := "x", name := "x", type := .int32, initial := some (.int32 0),
                             notifies := true }]
          events := [{ name := "start", entry := { id := "Start" },
                       actions := [{ id := "While" }, { id := "Condition" },
                         { id := "IntLessThan", inputs := [.var (.user "x"), .constant (.int32 2),
                           .newLocal "less" "less"] },
                         { id := "FailIfFalse", inputs := [.var (.localVar "less")] },
                         { id := "BlockEnd" }, { id := "ConditionBody" },
                         { id := "IntAdd", inputs := [.var (.user "x"), .constant (.int32 1),
                           .var (.user "x")] },
                         { id := "BlockEnd" }, { id := "BlockEnd" }] }] } = .ok c ∧
      (∀ k < c.program.methods.size, Instr.balanced 0 (c.program.bodyCode k) = true) ∧
      ∃ m', Run.method "_start" (Machine.ofProgram c.program) = .ok () m' ∧
        m'.effects.customEvents = #["_onVarChange_x", "_onVarChange_x"] ∧ m'.stack = [] := by
  set t : Trigger := { declarations := [_], events := [_] } with ht
  have hruns : ((compileTrigger ⟨Registry.builtin, {}⟩ t).toOption.any fun c =>
      (outcome? (Run.method "_start" (Machine.ofProgram c.program))).any fun r =>
        decide (c.program.size < 2 ^ 32 ∧
          r.2.effects.customEvents = #["_onVarChange_x", "_onVarChange_x"])) = true := by
    decide +kernel
  obtain ⟨c, hc, hruns⟩ := exists_ok_of_any hruns
  obtain ⟨⟨⟩, m', hrun, hruns⟩ := exists_outcome_of_any hruns
  obtain ⟨hsize, hevents⟩ := of_decide_eq_true hruns
  have hmain := operands_are_balanced .builtin {} (t := t)
    ⟨by simp [ht], by simp [ht, Action.NoAddress, Binding.holdsAddress]⟩ hc
  exact ⟨c, hc, fun k hk => (hmain.1 k hk).1, m', hrun, hevents,
    (hmain.2 hsize _ .load [] "_start").1 m' hrun⟩

end TriggerCompiler
