import Mathlib
import TriggerCompiler.Proofs.BlockCode

/-!
# Where the jumps of a block go

The code of some items jumps to labels inside of it and to a few labels outside: the ends and the start
of the blocks around. To the end of the innermost of these blocks only a condition body of that block
jumps. So the code before and after some items that go on with no chain does not jump into them.

Main statements: `Lower.CodeOf.lands` and `Lower.CodeOf.within`.
-/

namespace TriggerCompiler

variable {l : InstrId} {c : Construct} {g : Frame} {tree : BlockTree}
  {path before : List (Option Construct)}

/-- The label that a line jumps to. -/
def Line.target? (y : Line) : Option InstrId := y.instr.labelTarget

/-- All jumps go to a label of the code, or to one of the given ones. -/
def Lands (P : InstrId → Prop) (code : List Line) : Prop :=
  ∀ y ∈ code, ∀ l, y.target? = some l → .label l ∈ code ∨ P l

namespace Lands

variable {P Q : InstrId → Prop} {code more : List Line}

lemma nil (P : InstrId → Prop) : Lands P [] := fun y hy => by cases hy

lemma of_none (h : ∀ y ∈ code, y.target? = none) : Lands P code := by
  intro y hy l hl
  rw [h y hy] at hl
  cases hl

lemma mono (h : Lands P code) (hPQ : ∀ l, P l → Q l) : Lands Q code :=
  fun y hy l hl => (h y hy l hl).imp id (hPQ l)

lemma append (h : Lands P code) (h' : Lands P more) : Lands P (code ++ more) := by
  intro y hy l hl
  rcases List.mem_append.mp hy with hy | hy
  · exact (h y hy l hl).imp (List.mem_append_left _) id
  · exact (h' y hy l hl).imp (List.mem_append_right _) id

/-- A label of the code is none outside. -/
lemma resolve (h : Lands (fun k => k = l ∨ P k) code) (hl : .label l ∈ code) : Lands P code := by
  intro y hy k hk
  rcases h y hy k hk with hmem | rfl | hP
  · exact .inl hmem
  · exact .inl hl
  · exact .inr hP

lemma label (l : InstrId) : Lands P [.label l] :=
  of_none (by simp [Line.target?, Line.instr, Instr.labelTarget])

lemma flatten {codes : List (List Line)} (h : ∀ c ∈ codes, Lands P c) : Lands P codes.flatten := by
  induction codes with
  | nil => exact nil P
  | cons c codes ih =>
    rw [List.flatten_cons]
    exact (h c (by simp)).append (ih fun c' hc' => h c' (by simp [hc']))

end Lands

namespace Lower

variable {P : InstrId → Prop} {code : List Line} {e : Setting} {temps : List SlotId}

/-! ## The jumps of single actions -/

lemma lands_copy (source target : SlotId) : Lands P (copyLines source target) :=
  .of_none (by simp [copyLines, Line.target?, Line.instr, Instr.labelTarget])

lemma lands_call (signature : String) (arguments : List SlotId) :
    Lands P (callLines signature arguments) := by
  refine .of_none fun y hy => ?_
  simp only [callLines, List.mem_append, List.mem_map, List.mem_singleton] at hy
  rcases hy with ⟨id, -, rfl⟩ | rfl <;> rfl

lemma lands_branch (condition : SlotId) (hl : P l) : Lands P (branchLines condition l) := by
  intro y hy k hk
  simp only [branchLines, List.mem_cons, List.not_mem_nil, or_false] at hy
  rcases hy with rfl | rfl
  · cases hk
  · exact .inr (Option.some.inj hk ▸ hl)

lemma WriteLines.lands {id : SlotId} (h : WriteLines e temps id code) : Lands P code := by
  have hnotice := h.notice
  unfold NoticeLines at hnotice
  split at hnotice
  · obtain ⟨changed, skip, event, -, ⟨self, text, -, -, rfl⟩, rfl⟩ := hnotice
    refine Lands.resolve ((((Lands.append ?_ (lands_branch changed (.inl rfl))).append
      (lands_call _ _)).append (lands_copy _ _)).append (.label skip)) (by simp)
    unfold changeLines
    split_ifs
    · exact lands_call _ _
    · exact (lands_call _ _).append (lands_call _ _)
  · rw [hnotice]
    exact .nil P

lemma AssignLines.lands {value target : SlotId} (h : AssignLines e temps value target code) :
    Lands P code := by
  obtain ⟨write, hwrite, rfl⟩ := h
  exact (lands_copy _ _).append hwrite.lands

lemma HostLines.lands {signature : String} {targets : List SlotId} {r : BoundAction}
    (h : HostLines e temps signature targets r code) : Lands P code := by
  obtain ⟨writes, hwrites, rfl⟩ := h
  refine Lands.append ?_ (Lands.flatten fun c hc => ?_)
  · unfold callsLines
    split_ifs
    · exact lands_call _ _
    · rw [List.flatMap]
      refine Lands.flatten fun c hc => ?_
      obtain ⟨target, -, rfl⟩ := List.mem_map.mp hc
      exact lands_call _ _
  · obtain ⟨i, hi, rfl⟩ := List.mem_iff_getElem.mp hc
    have houtput := hwrites.get (hwrites.length_eq ▸ hi) hi
    unfold OutputLines at houtput
    simp only [List.get_eq_getElem] at houtput
    split_ifs at houtput
    · exact houtput.2.lands
    · rw [houtput]
      exact .nil P

lemma GroupLines.lands {inputs : List (String × SlotId)} {entry : MergedEntry}
    {arguments : List SlotId} (h : GroupLines e temps inputs entry arguments code) : Lands P code := by
  obtain ⟨call, back, ⟨l, address, -, rfl⟩, hback, rfl⟩ := h
  refine ((Lands.append ?_ ?_).append ?_).append (Lands.flatten fun c hc => ?_)
  · rw [List.flatMap]
    refine Lands.flatten fun c hc => ?_
    obtain ⟨x, -, rfl⟩ := List.mem_map.mp hc
    unfold passLines
    split_ifs
    · exact lands_copy _ _
    · exact .nil P
  · rw [List.flatMap]
    refine Lands.flatten fun c hc => ?_
    obtain ⟨x, -, rfl⟩ := List.mem_map.mp hc
    unfold inputLines
    split
    · exact lands_copy _ _
    · exact .nil P
  · refine (lands_copy _ _).append (.of_none ?_)
    simp [Line.target?, Line.instr, Instr.labelTarget]
  · obtain ⟨i, hi, rfl⟩ := List.mem_iff_getElem.mp hc
    have hone := hback.get (hback.length_eq ▸ hi) hi
    unfold BackLines at hone
    simp only [List.get_eq_getElem] at hone
    split_ifs at hone
    · obtain ⟨-, write, hwrite, heq⟩ := hone
      rw [heq]
      exact (lands_copy _ _).append hwrite.lands
    · rw [hone]
      exact .nil P

end Lower

/-- The labels outside of some items that their single actions jump to. -/
def Exits.Far (x : Exits) (l : InstrId) : Prop :=
  l = x.leave ∨ l = x.again ∨ l = x.decided ∨ l = x.ending

namespace Lower

variable {P : InstrId → Prop} {code : List Line} {e : Setting} {temps : List SlotId} {x : Exits}
  {env : Environment} {s t : LowerState} {a : Action}

lemma lands_jump (hl : P l) : Lands P [.code (.jump l)] := by
  intro y hy k hk
  obtain rfl := List.mem_singleton.mp hy
  exact .inr (Option.some.inj hk ▸ hl)

lemma StatementLines.lands {result : Option SlotId} {inputs : List SlotId}
    (h : StatementLines e temps x result c inputs code) : Lands x.Far code := by
  unfold StatementLines at h
  split at h
  · obtain ⟨r, negated, -, -, rfl⟩ := h
    exact ((lands_copy _ _).append (lands_call _ _)).append (lands_branch _ (by simp [Exits.Far]))
  · obtain ⟨r, -, rfl⟩ := h
    exact (lands_copy _ _).append (lands_branch _ (by simp [Exits.Far]))
  · rw [h]
    exact lands_jump (by simp [Exits.Far])
  · rw [h]
    exact lands_jump (by simp [Exits.Far])
  · rw [h]
    exact lands_jump (by simp [Exits.Far])
  · exact AssignLines.lands h
  · exact AssignLines.lands h
  · exact h.elim

lemma Spoken.lands (h : Spoken x code) : Lands x.Far code := by
  cases h with
  | statement lines => exact lines.lands
  | call lines => exact lines.lands
  | group lines => exact lines.lands

lemma TestLines.lands {slots : SlotTable} {index bound upwards : SlotId} {leave : InstrId}
    (h : TestLines slots temps index bound upwards leave code) : Lands (· = leave) code := by
  obtain ⟨inside, downwards, out, -, rfl⟩ := h
  refine Lands.resolve (l := out) (Lands.resolve (l := downwards) ?_ (by simp)) (by simp)
  refine ((((Lands.append (lands_branch _ (by simp)) (lands_call _ _)).append ?_).append
    (lands_call _ _)).append (.label out)).append (lands_branch _ (by simp))
  exact (lands_jump (l := out) (by simp)).append (.label downwards)

/-- The code of a counting loop leaves it at one label, and has the label at which it goes on. -/
lemma LoopLines.lands {start bound step index : SlotId} {c : LoopSlots} {again leave : InstrId}
    (h : LoopLines e temps start bound step index c again leave code) :
    Lands (· = leave) code ∧ .label again ∈ code := by
  obtain ⟨write, nought, check, next, hwrite, -, ⟨write', test, hwrite', htest, rfl⟩, rfl⟩ := h
  refine ⟨Lands.resolve (l := check) ?_ (by simp), by simp⟩
  have htest' : Lands (fun l => l = check ∨ l = leave) test := htest.lands.mono fun _ hl => .inr hl
  refine (((((Lands.append (lands_copy _ _) hwrite.lands).append (lands_copy _ _)).append
    (lands_copy _ _)).append (lands_call _ _)).append (lands_jump (by simp))).append ?_
  exact ((((Lands.label again).append (lands_call _ _)).append hwrite'.lands).append
    (.label check)).append htest'

/-- The jumps in front of the items of a block. -/
lemma Opened.lands (h : Opened x c g code) :
    Lands (fun l => (c = .conditionBody ∧ l = x.miss) ∨ (c = .forLoop ∧ g.endLabel = some l)) code ∧
      (c.isLoop = true → ∀ l, g.startLabel = some l → .label l ∈ code) := by
  obtain ⟨e, temps, inputs, lines⟩ := h
  unfold OpeningLines at lines
  split at lines
  · obtain ⟨result, no, -, -, rfl⟩ := lines
    exact ⟨lands_copy _ _, fun hc => by cases hc⟩
  · rw [lines]
    refine ⟨fun y hy l hl => ?_, fun hc => by cases hc⟩
    obtain rfl := List.mem_singleton.mp hy
    exact .inr (.inl ⟨rfl, (Option.some.inj hl).symm⟩)
  · obtain ⟨l, hl, rfl⟩ := lines
    refine ⟨.label l, fun _ k hk => ?_⟩
    rw [Option.some.inj (hl.symm.trans hk)]
    simp
  · obtain ⟨slots, again, leave, hagain, hleave, -, hloop⟩ := lines
    obtain ⟨hlands, hmem⟩ := hloop.lands
    refine ⟨hlands.mono fun l hl => .inr ⟨rfl, hl ▸ hleave⟩, fun _ k hk => ?_⟩
    rw [Option.some.inj (hagain.symm.trans hk)] at hmem
    exact hmem
  · exact lines.elim
  · rw [lines]
    refine ⟨.nil _, fun hc => ?_⟩
    rename_i hwhile hfor _
    cases c <;> first | exact absurd rfl hwhile | exact absurd rfl hfor | cases hc

/-! ## The jumps of a tree -/

lemma label_mem_closeLines (h : g.endLabel = some l) : .label l ∈ g.closeLines := by
  unfold Frame.closeLines
  split <;> simp [h]

lemma lands_closeLines (g : Frame) :
    Lands (fun l => g.construct? = some .forLoop ∧ g.startLabel = some l) g.closeLines := by
  intro y hy l hl
  unfold Frame.closeLines at hy
  split at hy
  · rename_i hfor
    simp only [List.mem_append, List.mem_map, Option.mem_toList] at hy
    rcases hy with ⟨k, hk, rfl⟩ | ⟨k, -, rfl⟩
    · exact .inr ⟨hfor, hk.trans (congrArg some (Option.some.inj hl))⟩
    · cases hl
  · simp only [List.mem_append, List.mem_map] at hy
    rcases hy with ⟨k, -, rfl⟩ | ⟨k, -, rfl⟩ <;> cases hl
  · obtain ⟨k, -, rfl⟩ := List.mem_map.mp hy
    cases hl

end Lower

namespace BlockTree

/-- Only a block that a condition steers has a condition body. -/
lemma Proper.no_body (h : tree.Proper path before) (hpath : ¬ Steered path) :
    some .conditionBody ∉ tree.items := by
  induction tree generalizing before with
  | done => exact List.not_mem_nil
  | act a next ih =>
    obtain ⟨hallowed, hnext⟩ := h
    rw [items, List.mem_cons, not_or]
    refine ⟨fun hc => ?_, ih hnext⟩
    rw [← hc] at hallowed
    exact hpath hallowed.1
  | block o items b next _ ih =>
    obtain ⟨hallowed, -, -, hnext⟩ := h
    rw [BlockTree.items, List.mem_cons, not_or]
    refine ⟨fun hc => ?_, ih hnext⟩
    rw [← hc] at hallowed
    exact hpath hallowed.1

lemma Proper.no_body_of_block (h : tree.Proper (some .block :: path) before) :
    some .conditionBody ∉ tree.items := by
  refine h.no_body ?_
  rintro ⟨k, hk, htakes⟩
  obtain rfl : Construct.block = k := by simpa using hk
  cases htakes

/-- Once a block has had its condition and something after it, no condition body may come. -/
lemma Allowed.after_condition {c : Option Construct} (h : Allowed path before c)
    (hbefore : some .condition ∈ before) (hlast : before.getLast? ≠ some (some .condition)) :
    some .conditionBody ≠ c ∧ some .condition ∈ before ++ [c] ∧
      (before ++ [c]).getLast? ≠ some (some .condition) := by
  refine ⟨?_, List.mem_append_left _ hbefore, ?_⟩
  · rintro rfl
    exact hlast h.2
  · rw [List.getLast?_concat]
    rintro ⟨⟩
    exact h.2 hbefore

lemma Proper.no_second_body (h : tree.Proper path before) (hbefore : some .condition ∈ before)
    (hlast : before.getLast? ≠ some (some .condition)) : some .conditionBody ∉ tree.items := by
  induction tree generalizing before with
  | done => exact List.not_mem_nil
  | act a next ih =>
    obtain ⟨hallowed, hnext⟩ := h
    obtain ⟨hne, hmem, hlast'⟩ := hallowed.after_condition hbefore hlast
    rw [items, List.mem_cons, not_or]
    exact ⟨hne, ih hnext hmem hlast'⟩
  | block o items b next _ ih =>
    obtain ⟨hallowed, -, -, hnext⟩ := h
    obtain ⟨hne, hmem, hlast'⟩ := hallowed.after_condition hbefore hlast
    rw [BlockTree.items, List.mem_cons, not_or]
    exact ⟨hne, ih hnext hmem hlast'⟩

/-- Items go on with a chain only after one of its branches. -/
lemma Proper.last_of_continues (h : tree.Proper path before) (hc : tree.continuesChain = true) :
    before.getLast? = some (some .ifBranch) ∨ before.getLast? = some (some .elseIf) := by
  cases tree with
  | done => cases hc
  | act => cases hc
  | block o items b next =>
    obtain ⟨hallowed, -⟩ := h
    cases ho : o.construct? with
    | none => simp [continuesChain, ho] at hc
    | some c =>
      simp only [continuesChain, ho, Option.map_some, Option.getD_some] at hc
      rw [ho] at hallowed
      cases c
      case elseIf => exact hallowed
      case elseBranch => exact hallowed
      all_goals cases hc

/-- After a single action no chain goes on. -/
lemma Proper.apart_of_plain {a : Action} (h : tree.Proper path (before ++ [a.construct?]))
    (hplain : ∀ c, a.construct? = some c → c.affectsBlocks = false) :
    tree.continuesChain = false := by
  by_contra hc
  have hlast := h.last_of_continues (by simpa using hc)
  rw [List.getLast?_concat] at hlast
  rcases hlast with hlast | hlast <;> cases hplain _ (Option.some.inj hlast)

/-- At the start of a block no chain goes on. -/
lemma Proper.apart_of_nil (h : tree.Proper path []) : tree.continuesChain = false := by
  by_contra hc
  rcases h.last_of_continues (by simpa using hc) with hlast | hlast <;> cases hlast

end BlockTree

namespace Lower

variable {code pre mid : List Line} {x : Exits} {env : Environment} {s t u₁ u₂ u₃ : LowerState}
  {a o b : Action} {g₁ f : Frame} {frames : List Frame} {back : Option InstrId}
  {exit exit' : InstrId} {n : Nat} {items next : BlockTree}

/-- A chain that the items go on with ends among them. -/
lemma CodeOf.label_exit (h : CodeOf env x back exit n s tree t code)
    (hc : tree.continuesChain = true) : .label exit ∈ code := by
  induction h with
  | done => cases hc
  | act => cases hc
  | @block x back exit exit' inner n c s u₁ u₂ u₃ t o b items next g₁ g f frames pre mid more around
      inside ends further rest _ ih =>
    have hc' : c.continuesChain = true := around.continues next ▸ hc
    rw [further hc']
    cases hnext : next.continuesChain with
    | true => exact List.mem_append_right _ (ih hnext)
    | false =>
      have hlabel := label_mem_closeLines (ends (.inl hc') hnext)
      simp [hlabel]

namespace Around

variable (h : Around env x n c o items b s u₁ u₂ u₃ g₁ g f frames pre)
include h

lemma mem_frames : g₁ ∈ u₁.scopes.frames := by
  rw [h.enters.frames]
  simp

lemma isLoop_eq : g.isLoop = c.isLoop := by
  rw [h.keeps.isLoop, (h.sound.frames g₁ h.mem_frames).isLoop, h.enters.construct]
  rfl

/-- Inside of a block that is no loop and no condition, single actions jump where those outside do. -/
lemma far_inside (hloop : c.isLoop = false) (hcondition : c ≠ .condition) :
    (x.inside g).Far l ↔ x.Far l := by
  have hconstruct : g.construct? ≠ some .condition := by
    rw [h.construct]
    exact fun h => hcondition (Option.some.inj h)
  unfold Exits.Far Exits.inside
  rw [h.isLoop_eq, hloop, if_neg hconstruct]
  rfl

/-- The labels that the items of a block jump to are those of the block, or outside of it. -/
lemma exits_inside (l : InstrId) :
    ((x.inside g).Far l ∨ (if c = .whileLoop then g.startLabel else none) = some l →
      .label l ∈ pre ++ g.closeLines ∨ x.Far l) ∧
    (l = (x.inside g).miss → .label l ∈ pre ++ g.closeLines ∨ (c = .block ∧ l = x.miss)) := by
  have hend : c ≠ .block → ∃ l, g.endLabel = some l := fun hc =>
    Option.isSome_iff_exists.mp (h.shuts.label (by simpa [h.construct] using hc))
  have hclose : ∀ l, g.endLabel = some l → .label l ∈ pre ++ g.closeLines := fun l hl =>
    List.mem_append_right _ (label_mem_closeLines hl)
  have hstart : c.isLoop = true → ∀ l, g.startLabel = some l → .label l ∈ pre ++ g.closeLines :=
    fun hc l hl => List.mem_append_left _ (h.opened.lands.2 hc l (h.keeps.startLabel.symm.trans hl))
  constructor
  · rintro (hfar | hwhile)
    · unfold Exits.Far Exits.inside at hfar
      dsimp only at hfar
      rw [h.isLoop_eq, h.construct] at hfar
      rcases hfar with hleave | hagain | hdecided | hending
      · split_ifs at hleave with hc
        · obtain ⟨k, hk⟩ := hend (by rintro rfl; cases hc)
          rw [hk, Option.getD_some] at hleave
          exact .inl (hclose l (hleave ▸ hk))
        · exact .inr (.inl hleave)
      · split_ifs at hagain with hc
        · obtain ⟨k, hk⟩ := Option.isSome_iff_exists.mp ((h.sound.frames g₁ h.mem_frames).start
            (h.keeps.isLoop.symm.trans (h.isLoop_eq.trans hc)))
          rw [h.keeps.startLabel, hk, Option.getD_some] at hagain
          exact .inl (hstart hc l (hagain ▸ h.keeps.startLabel.trans hk))
        · exact .inr (.inr (.inl hagain))
      · split_ifs at hdecided with hc
        · obtain ⟨k, hk⟩ := hend (by rintro rfl; cases hc)
          rw [hk, Option.getD_some] at hdecided
          exact .inl (hclose l (hdecided ▸ hk))
        · exact .inr (.inr (.inr (.inl hdecided)))
      · exact .inr (.inr (.inr (.inr hending)))
    · split_ifs at hwhile with hc
      exact .inl (hstart (by rw [hc]; rfl) l hwhile)
  · intro hmiss
    unfold Exits.inside at hmiss
    dsimp only at hmiss
    by_cases hc : c = .block
    · cases hk : g.endLabel with
      | none =>
        rw [hk] at hmiss
        exact .inr ⟨hc, hmiss⟩
      | some k =>
        rw [hk, Option.getD_some] at hmiss
        exact .inl (hclose l (hmiss ▸ hk))
    · obtain ⟨k, hk⟩ := hend hc
      rw [hk, Option.getD_some] at hmiss
      exact .inl (hclose l (hmiss ▸ hk))

/-- The jumps of a block, given those of its items. -/
lemma lands (next : BlockTree) (back : Option InstrId) (exit : InstrId) {Q : Prop}
    (hmid : Lands (fun l => (x.inside g).Far l ∨
      (if c = .whileLoop then g.startLabel else none) = some l ∨ (l = (x.inside g).miss ∧ Q)) mid) :
    Lands (fun l => x.Far l ∨ back = some l ∨ (l = x.miss ∧ (c = .conditionBody ∨ c = .block ∧ Q)) ∨
        (next.continuesChain = true ∧ l = exit))
      (pre ++ mid ++ insertedLines c next back exit ++ g.closeLines) := by
  have hown : ∀ l, .label l ∈ pre ++ g.closeLines →
      .label l ∈ pre ++ mid ++ insertedLines c next back exit ++ g.closeLines := by
    intro l hl
    rcases List.mem_append.mp hl with hl | hl <;> simp [hl]
  intro y hy l hl
  simp only [List.mem_append, or_assoc] at hy
  rcases hy with hy | hy | hy | hy
  · rcases h.opened.lands.1 y hy l hl with hmem | ⟨hc, hmiss⟩ | ⟨-, hleave⟩
    · exact .inl (hown l (List.mem_append_left _ hmem))
    · exact .inr (.inr (.inr (.inl ⟨hmiss, .inl hc⟩)))
    · exact .inl (hown l (List.mem_append_right _ (label_mem_closeLines (h.keeps.endLabel l hleave))))
  · obtain ⟨hfar, hmiss⟩ := h.exits_inside l
    rcases hmid y hy l hl with hmem | hcase | hcase | ⟨hcase, hQ⟩
    · exact .inl (by simp [hmem])
    · exact (hfar (.inl hcase)).imp (hown l) .inl
    · exact (hfar (.inr hcase)).imp (hown l) .inl
    · exact (hmiss hcase).imp (hown l) fun h => .inr (.inr (.inl ⟨h.2, .inr ⟨h.1, hQ⟩⟩))
  · unfold insertedLines at hy
    split at hy
    · split_ifs at hy with hc
      · obtain rfl := List.mem_singleton.mp hy
        exact .inr (.inr (.inr (.inr ⟨hc, (Option.some.inj hl).symm⟩)))
      · cases hy
    · split_ifs at hy with hc
      · obtain rfl := List.mem_singleton.mp hy
        exact .inr (.inr (.inr (.inr ⟨hc, (Option.some.inj hl).symm⟩)))
      · cases hy
    · split_ifs at hy
      · obtain ⟨k, hk, rfl⟩ := List.mem_map.mp hy
        refine .inr (.inr (.inl ?_))
        rw [Option.mem_toList.mp hk]
        exact hl
      · cases hy
    · cases hy
  · rcases lands_closeLines g y hy l hl with hmem | ⟨hfor, hagain⟩
    · exact .inl (List.mem_append_right _ hmem)
    · obtain rfl : c = .forLoop := Option.some.inj (h.construct.symm.trans hfor)
      exact .inl (hown l (List.mem_append_left _
        (h.opened.lands.2 rfl l (h.keeps.startLabel.symm.trans hagain))))

end Around

/-- The jumps of some items go to labels among them, to labels that single actions jump to, or, from a
condition body, to the end of the block around. -/
lemma CodeOf.lands (h : CodeOf env x back exit n s tree t code) (hproper : tree.Proper path before) :
    Lands (fun l => x.Far l ∨ back = some l ∨ (l = x.miss ∧ some .conditionBody ∈ tree.items)) code := by
  induction h generalizing path before with
  | done => exact .nil _
  | act performs plain spoken size rest ih =>
    refine (spoken.lands.mono fun l hl => .inl hl).append ((ih hproper.2).mono fun l hl => ?_)
    exact hl.imp_right fun hl => hl.imp_right fun hl => ⟨hl.1, List.mem_cons_of_mem _ hl.2⟩
  | @block x back exit exit' inner n c s u₁ u₂ u₃ t o b items next g₁ g f frames pre mid more around
      inside ends further rest ihin ih =>
    obtain ⟨-, hitems, -, hnext⟩ := hproper
    rw [around.opener] at hitems
    intro y hy l hl
    rcases List.mem_append.mp hy with hy | hy
    · rcases around.lands next back exit' (ihin hitems) y hy l hl with hmem | hfar | hback | ⟨hmiss, rfl | ⟨hc, hin⟩⟩ | ⟨hcontinues, rfl⟩
      · exact .inl (List.mem_append_left _ hmem)
      · exact .inr (.inl hfar)
      · exact .inr (.inr (.inl hback))
      · exact .inr (.inr (.inr ⟨hmiss, by simp [BlockTree.items, around.opener]⟩))
      · subst hc
        exact absurd hin hitems.no_body_of_block
      · exact .inl (List.mem_append_right _ (rest.label_exit hcontinues))
    · rcases ih hnext y hy l hl with hmem | hfar | hback | ⟨hmiss, hin⟩
      · exact .inl (List.mem_append_right _ hmem)
      · exact .inr (.inl hfar)
      · exact .inr (.inr (.inl hback))
      · exact .inr (.inr (.inr ⟨hmiss, List.mem_cons_of_mem _ hin⟩))

/-! ## Where the lines stand -/

/-- What comes before the end of a block later on, if there are items after it. -/
lemma length_insertedLines (hproper : next.Proper path (before ++ [some c]))
    (hnext : next.isDone = false) :
    (insertedLines c next back exit).length = next.continuesChain.toNat := by
  have hc : next.continuesChain = true → c = .ifBranch ∨ c = .elseIf := by
    intro hcontinues
    have hlast := hproper.last_of_continues hcontinues
    rw [List.getLast?_concat] at hlast
    simpa using hlast
  unfold insertedLines
  split
  · cases next.continuesChain <;> rfl
  · cases next.continuesChain <;> rfl
  · rw [hnext]
    cases hcontinues : next.continuesChain with
    | false => rfl
    | true => rcases hc hcontinues with hc | hc <;> cases hc
  · cases hcontinues : next.continuesChain with
    | false => rfl
    | true => rcases hc hcontinues with rfl | rfl <;> simp_all

/-- The number of lines of a block, at the time when it is closed. -/
lemma Around.length (h : Around env x n c o items b s u₁ u₂ u₃ g₁ g f frames pre)
    (hmid : u₂.body.length + (if (if c = .whileLoop then g.startLabel else none).isSome = true ∧
        items.items.getLast? = some (some .conditionBody) then 1 else 0) =
      u₁.body.length + items.continuesChain.toNat + mid.length)
    (hitems : items.Proper (some c :: path) []) (hfinished : BlockTree.Finished (some c) items.items) :
    u₃.body.length =
      s.body.length + c.continuesChain.toNat + pre.length + mid.length + g.closeLines.length := by
  rw [hitems.apart_of_nil, h.size] at hmid
  by_cases hwhile : c = .whileLoop
  · subst hwhile
    obtain ⟨start, l, hstart, hl, hreturns⟩ := h.shuts.returns h.construct
    obtain ⟨before, last, back, hbody, hbody', -⟩ := hreturns.body
    rw [if_pos ⟨by simp [hstart], hfinished.2 rfl⟩] at hmid
    have hclose : g.closeLines.length = 1 := by
      unfold Frame.closeLines
      rw [h.construct, hl]
      rfl
    have hlength : u₃.body.length = u₂.body.length + 2 := by simp [hbody, hbody']
    simp only [Bool.toNat_false] at hmid
    omega
  · obtain ⟨new, hnew, hlines⟩ := h.shuts.lines (by simpa [h.construct] using hwhile)
    rw [if_neg (by simp [hwhile])] at hmid
    have hlength : u₃.body.length = u₂.body.length + g.closeLines.length := by
      rw [hnew.body, ← hlines, List.length_append, List.length_map]
    simp only [Bool.toNat_false] at hmid
    omega

/-- If there are items after a block, they may add a line to it. -/
lemma Around.length_part (h : Around env x n c o items b s u₁ u₂ u₃ g₁ g f frames pre)
    (hmid : u₂.body.length + (if (if c = .whileLoop then g.startLabel else none).isSome = true ∧
        items.items.getLast? = some (some .conditionBody) then 1 else 0) =
      u₁.body.length + items.continuesChain.toNat + mid.length)
    (hitems : items.Proper (some c :: path) []) (hfinished : BlockTree.Finished (some c) items.items)
    (hnext : next.Proper path (before ++ [some c])) (hdone : next.isDone = false)
    (back : Option InstrId) (exit : InstrId) :
    u₃.body.length + next.continuesChain.toNat = s.body.length + c.continuesChain.toNat +
      (pre ++ mid ++ insertedLines c next back exit ++ g.closeLines).length := by
  have hblock := h.length hmid hitems hfinished
  have hinserted : (insertedLines c next back exit).length = next.continuesChain.toNat :=
    length_insertedLines hnext hdone
  simp only [List.length_append, hinserted]
  omega

/-- The number of lines of some items, at the time when the last one has been lowered. The jump back to
the start of a tested loop comes later. -/
lemma CodeOf.length (h : CodeOf env x back exit n s tree t code) (hproper : tree.Proper path before) :
    t.body.length + (if back.isSome = true ∧ tree.items.getLast? = some (some .conditionBody)
        then 1 else 0) =
      s.body.length + tree.continuesChain.toNat + code.length := by
  induction h generalizing path before with
  | done => simp [BlockTree.items, BlockTree.continuesChain]
  | @act x back exit n s u t a next code more performs plain spoken size rest ih =>
    obtain ⟨-, hnext⟩ := hproper
    have hrest := ih hnext
    have hapart := hnext.apart_of_plain plain
    have hlast : (BlockTree.act a next).items.getLast? = some (some .conditionBody) ↔
        next.items.getLast? = some (some .conditionBody) := by
      cases hitems : next.items with
      | nil =>
        simp only [BlockTree.items, hitems, List.getLast?_singleton, List.getLast?_nil,
          Option.some.injEq, reduceCtorEq, iff_false]
        exact fun hc => by cases plain _ hc
      | cons k l => simp [BlockTree.items, hitems]
    have hact : (BlockTree.act a next).continuesChain = false := rfl
    simp only [hlast, hrest, hapart, hact, size, Bool.toNat_false, List.length_append]
    omega
  | @block x back exit exit' inner n c s u₁ u₂ u₃ t o b items next g₁ g f frames pre mid more around
      inside ends further rest ihin ih =>
    obtain ⟨-, hitems, hfinished, hnext⟩ := hproper
    rw [around.opener] at hitems hfinished hnext
    rw [around.continues next]
    cases hdone : next.isDone with
    | true =>
      obtain rfl : next = .done := by
        cases next with
        | done => rfl
        | act => cases hdone
        | block => cases hdone
      cases rest
      have hblock := around.length (ihin hitems) hitems hfinished
      have hinserted : (insertedLines c .done back exit').length =
          if back.isSome = true ∧ (BlockTree.block o items b .done).items.getLast? =
            some (some .conditionBody) then 1 else 0 := by
        simp only [BlockTree.items, around.opener, List.getLast?_singleton, Option.some.injEq]
        cases c <;> cases back <;>
          simp [insertedLines, BlockTree.continuesChain, BlockTree.isDone]
      simp only [List.length_append, List.length_nil, hinserted]
      omega
    | false =>
      have hlast : (BlockTree.block o items b next).items.getLast? = next.items.getLast? := by
        cases next with
        | done => cases hdone
        | act => simp [BlockTree.items]
        | block => simp [BlockTree.items]
      have hblock := around.length_part (ihin hitems) hitems hfinished hnext hdone back exit'
      rw [hlast, ih hnext, List.length_append]
      omega

/-! ## Items somewhere in a tree -/

end Lower

/-- The labels outside of the code of some items that it may jump to. -/
def Exits.Out (x : Exits) (back : Option InstrId) (l : InstrId) : Prop :=
  x.Far l ∨ l = x.miss ∨ back = some l

lemma Exits.not_out {x : Exits} {back : Option InstrId} :
    ¬ x.Out back l ↔ ¬ x.Far l ∧ l ≠ x.miss ∧ back ≠ some l := by
  unfold Out
  rw [not_or, not_or]

/-- The items stand somewhere in the tree, as the last ones of a block, after the given actions. -/
inductive BlockTree.Within (sub : BlockTree) : BlockTree → List Action → Prop where
  | here : Within sub sub []
  | act {a : Action} {next : BlockTree} {before : List Action} (within : Within sub next before) :
      Within sub (.act a next) (a :: before)
  | next {o b : Action} {items next : BlockTree} {before : List Action}
      (within : Within sub next before) :
      Within sub (.block o items b next) (o :: (items.flatten ++ b :: before))
  | inside {o b : Action} {items next : BlockTree} {before : List Action}
      (within : Within sub items before) : Within sub (.block o items b next) (o :: before)

lemma BlockTree.Within.isDone_eq {sub : BlockTree} {acts : List Action} (h : sub.Within tree acts)
    (hsub : sub.isDone = false) : tree.isDone = false := by
  cases h <;> first | exact hsub | rfl

namespace Lower

variable {code pre mid : List Line} {x : Exits} {env : Environment} {s t u : LowerState}
  {a : Action} {back : Option InstrId} {exit : InstrId} {n : Nat} {sub : BlockTree}
  {acts : List Action}

lemma PerformsAll.append {l l' : List Action} (h : PerformsAll env n l s t)
    (h' : PerformsAll env (n + l.length) l' t u) : PerformsAll env n (l ++ l') s u := by
  induction h with
  | nil => exact h'
  | cons first _ ih =>
    rw [List.length_cons, Nat.add_comm _ 1, ← Nat.add_assoc] at h'
    exact .cons first (ih h')

lemma CodeOf.performsAll (h : CodeOf env x back exit n s tree t code) :
    PerformsAll env n tree.flatten s t := by
  induction h with
  | done => exact .nil _ _
  | act performs _ _ _ _ ih => exact .cons performs ih
  | block around _ _ _ _ ihin ih => exact .cons around.first (ihin.append (.cons around.last ih))

/-- The items have the code in the middle, and what is before and after it jumps neither into it nor
elsewhere than the labels outside; if the items go on with a chain, it may jump to the end of that. -/
structure Amid (env : Environment) (x : Exits) (back : Option InstrId) (sub : BlockTree) (exit : InstrId)
    (n : Nat) (s : LowerState) (pre mid post : List Line) : Prop where
  codeOf : ∃ x' back' t, CodeOf env x' back' exit n s sub t mid ∧
    ∀ l, x'.Out back' l → .label l ∈ pre ++ post ∨ x.Out back l
  proper : ∃ path before, sub.Proper path before
  around : Lands (fun l => x.Out back l ∨ sub.continuesChain = true ∧ l = exit) (pre ++ post)

lemma CodeOf.amid (h : CodeOf env x back exit n s tree t code) (hproper : tree.Proper path before) :
    Amid env x back tree exit n s [] code [] :=
  ⟨⟨x, back, t, h, fun _ hl => .inr hl⟩, ⟨path, before, hproper⟩, .nil _⟩

/-- More lines before. -/
lemma Amid.prepend {more post : List Line} (h : Amid env x back sub exit n s pre mid post)
    (hmore : Lands (fun l => .label l ∈ pre ++ post ∨ x.Out back l ∨ sub.continuesChain = true ∧ l = exit)
      more) : Amid env x back sub exit n s (more ++ pre) mid post := by
  have hin : ∀ l, .label l ∈ pre ++ post → .label l ∈ more ++ pre ++ post := fun l hl => by
    rw [List.append_assoc]
    exact List.mem_append_right _ hl
  obtain ⟨⟨x', back', t, hcode, hexits⟩, hproper, haround⟩ := h
  refine ⟨⟨x', back', t, hcode, fun l hl => (hexits l hl).imp_left (hin l)⟩, hproper, ?_⟩
  intro y hy l hl
  rw [List.append_assoc] at hy
  rcases List.mem_append.mp hy with hy | hy
  · rcases hmore y hy l hl with hmem | hmem | hout
    · exact .inl (by simp [hmem])
    · exact .inl (hin l hmem)
    · exact .inr hout
  · exact (haround y hy l hl).imp_left (hin l)

/-- The lines of the block around, and those after it. -/
lemma Amid.around_block {o b : Action} {g₁ f : Frame} {frames : List Frame} {u₁ u₂ u₃ v : LowerState}
    {end' : InstrId} {n' n₀ : Nat} {items next : BlockTree} {pre' post more : List Line}
    (around : Around env x n₀ c o items b s u₁ u₂ u₃ g₁ g f frames pre)
    (h : Amid env (x.inside g) (if c = .whileLoop then g.startLabel else none) sub end' n v pre' mid post)
    (rest : CodeOf env x back exit n' u₃ next t more) (hnext : next.Proper path before) :
    Amid env x back sub end' n v (pre ++ pre') mid
      (post ++ insertedLines c next back exit ++ g.closeLines ++ more) := by
  obtain ⟨⟨x', back', t', hcode, hexits⟩, hproper, haround⟩ := h
  have hitems : ∀ y ∈ pre' ++ post, y ∈ pre ++ pre' ++
      (post ++ insertedLines c next back exit ++ g.closeLines ++ more) := by
    intro y hy
    rcases List.mem_append.mp hy with hy | hy <;> simp [hy]
  have hblock : ∀ y ∈ pre ++ [] ++ insertedLines c next back exit ++ g.closeLines, y ∈ pre ++ pre' ++
      (post ++ insertedLines c next back exit ++ g.closeLines ++ more) := by
    intro y hy
    simp only [List.append_nil, List.mem_append] at hy
    rcases hy with (hy | hy) | hy <;> simp [hy]
  have hlater : ∀ y ∈ more, y ∈ pre ++ pre' ++
      (post ++ insertedLines c next back exit ++ g.closeLines ++ more) := fun y hy => by simp [hy]
  -- a label that the items jump to is one of the block, or outside of it
  have hout : ∀ l, (x.inside g).Out (if c = .whileLoop then g.startLabel else none) l →
      .label l ∈ pre ++ pre' ++ (post ++ insertedLines c next back exit ++ g.closeLines ++ more) ∨
        x.Out back l := by
    intro l hl
    obtain ⟨hfar, hmiss⟩ := around.exits_inside l
    have hown : .label l ∈ pre ++ g.closeLines → .label l ∈ pre ++ pre' ++
        (post ++ insertedLines c next back exit ++ g.closeLines ++ more) := by
      intro hmem
      rcases List.mem_append.mp hmem with hmem | hmem <;> simp [hmem]
    rcases hl with hcase | hcase | hcase
    · exact (hfar (.inl hcase)).imp hown .inl
    · exact (hmiss hcase).imp hown fun h => .inr (.inl h.2)
    · exact (hfar (.inr hcase)).imp hown .inl
  have hpart := around.lands next back exit (Q := True) (.nil _)
  refine ⟨⟨x', back', t', hcode, fun l hl => ?_⟩, hproper, fun y hy l hl => ?_⟩
  · exact (hexits l hl).elim (fun hmem => .inl (hitems _ hmem)) (hout l)
  · have hcases : y ∈ pre' ++ post ∨
        y ∈ pre ++ [] ++ insertedLines c next back exit ++ g.closeLines ∨ y ∈ more := by
      simp only [List.mem_append, List.append_nil] at hy ⊢
      rcases hy with (hy | hy) | ((hy | hy) | hy) | hy <;> simp [hy]
    rcases hcases with hy | hy | hy
    · rcases haround y hy l hl with hmem | hcase | hcase
      · exact .inl (hitems _ hmem)
      · exact (hout l hcase).imp_right .inl
      · exact .inr (.inr hcase)
    · rcases hpart y hy l hl with hmem | hfar | hback | ⟨hmiss, -⟩ | ⟨hgoes, rfl⟩
      · exact .inl (hblock _ hmem)
      · exact .inr (.inl (.inl hfar))
      · exact .inr (.inl (.inr (.inr hback)))
      · exact .inr (.inl (.inr (.inl hmiss)))
      · exact .inl (hlater _ (rest.label_exit hgoes))
    · rcases rest.lands hnext y hy l hl with hmem | hfar | hback | ⟨hmiss, -⟩
      · exact .inl (hlater _ hmem)
      · exact .inr (.inl (.inl hfar))
      · exact .inr (.inl (.inr (.inr hback)))
      · exact .inr (.inl (.inr (.inl hmiss)))

/-- The code of some items that stand somewhere in a tree. -/
lemma CodeOf.within (h : CodeOf env x back exit n s tree t code) (hproper : tree.Proper path before)
    (hw : sub.Within tree acts) (hsub : sub.isDone = false) :
    ∃ u end' pre mid post, code = pre ++ mid ++ post ∧ PerformsAll env n acts s u ∧
      u.body.length + sub.continuesChain.toNat =
        s.body.length + tree.continuesChain.toNat + pre.length ∧
      (tree.continuesChain = true →
        .label exit ∈ pre ++ post ∨ sub.continuesChain = true ∧ exit = end') ∧
      Amid env x back sub end' (n + acts.length) u pre mid post := by
  induction h generalizing path before acts with
  | @done x back exit n s =>
    cases hw
    cases hsub
  | @act x back exit n s u t a next code more performs plain spoken size rest ih =>
    cases hw with
    | here =>
      exact ⟨s, exit, [], code ++ more, [], by simp, .nil n s, by simp, (fun hc => by cases hc),
        (CodeOf.act performs plain spoken size rest).amid hproper⟩
    | @act _ _ acts' hw' =>
      obtain ⟨-, hnext⟩ := hproper
      obtain ⟨u', end', pre, mid, post, rfl, hall, hlength, -, hamid⟩ := ih hnext hw'
      have hnone := hnext.apart_of_plain plain
      have hindex : n + (a :: acts').length = n + 1 + acts'.length := by
        rw [List.length_cons]
        omega
      rw [hindex]
      refine ⟨u', end', code ++ pre, mid, post, by simp, .cons performs hall, ?_,
        (fun hc => by cases hc),
        hamid.prepend (spoken.lands.mono fun l hl => .inr (.inl (.inl hl)))⟩
      have hact : (BlockTree.act a next).continuesChain = false := rfl
      rw [hlength, size, hnone, hact, List.length_append]
      simp only [Bool.toNat_false]
      omega
  | @block x back exit exit' inner n c s u₁ u₂ u₃ t o b items next g₁ g f frames pre mid more around
      inside ends further rest ihin ih =>
    have hcontinues := around.continues next
    cases hw with
    | here =>
      exact ⟨s, exit, [], _, [], by simp, .nil n s, by simp, fun hc => .inr ⟨hc, rfl⟩,
        (CodeOf.block around inside ends further rest).amid hproper⟩
    | @next _ _ _ _ acts' hw' =>
      obtain ⟨-, hitems, hfinished, hnext⟩ := hproper
      rw [around.opener] at hitems hfinished hnext
      obtain ⟨u', end', pre', mid', post', rfl, hall, hlength, hexit, hamid⟩ := ih hnext hw'
      have hindex : n + (o :: (items.flatten ++ b :: acts')).length =
          n + 1 + items.flatten.length + 1 + acts'.length := by
        rw [List.length_cons, List.length_append, List.length_cons]
        omega
      rw [hindex]
      refine ⟨u', end', pre ++ mid ++ insertedLines c next back exit' ++ g.closeLines ++ pre', mid', post',
        by simp, .cons around.first (inside.performsAll.append (.cons around.last hall)), ?_, fun hc => ?_,
        hamid.prepend ((around.lands next back exit' (inside.lands hitems)).mono fun l hl => ?_)⟩
      · have hblock := around.length_part (inside.length hitems) hitems hfinished hnext
          (hw'.isDone_eq hsub) back exit'
        rw [hcontinues, hlength, List.length_append, hblock]
        omega
      · rw [hcontinues] at hc
        rw [further hc]
        cases hnone : next.continuesChain with
        | true =>
          refine (hexit hnone).imp_left fun hmem => ?_
          rw [List.append_assoc]
          exact List.mem_append_right _ hmem
        | false =>
          have hmem := label_mem_closeLines (ends (.inl hc) hnone)
          exact .inl (by simp [hmem])
      · rcases hl with hfar | hback | ⟨hmiss, -⟩ | ⟨hnone, rfl⟩
        · exact .inr (.inl (.inl hfar))
        · exact .inr (.inl (.inr (.inr hback)))
        · exact .inr (.inl (.inr (.inl hmiss)))
        · exact (hexit hnone).imp_right .inr
    | @inside _ _ _ _ acts' hw' =>
      obtain ⟨-, hitems, hfinished, hnext⟩ := hproper
      rw [around.opener] at hitems
      obtain ⟨u', end', pre', mid', post', rfl, hall, hlength, -, hamid⟩ := ihin hitems hw'
      have hnone := hitems.apart_of_nil
      have hindex : n + (o :: acts').length = n + 1 + acts'.length := by
        rw [List.length_cons]
        omega
      rw [hindex]
      refine ⟨u', end', pre ++ pre', mid', post' ++ insertedLines c next back exit' ++ g.closeLines ++ more,
        by simp, .cons around.first hall, ?_, fun hc => .inl ?_, hamid.around_block around rest hnext⟩
      · rw [hcontinues, hlength, around.size, hnone, List.length_append]
        simp only [Bool.toNat_false]
        omega
      · rw [hcontinues] at hc
        rw [further hc]
        cases hgoes : next.continuesChain with
        | true =>
          have hmem := rest.label_exit hgoes
          simp [hmem]
        | false =>
          have hmem := label_mem_closeLines (ends (.inl hc) hgoes)
          simp [hmem]

end Lower

end TriggerCompiler
