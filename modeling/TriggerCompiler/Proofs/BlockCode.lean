import Mathlib
import TriggerCompiler.Proofs.BlockSteps
import TriggerCompiler.Proofs.Grammar
import TriggerCompiler.Proofs.GrownRegistry

/-!
# The code of blocks

The lines of a body follow the tree of its blocks. The lines of an item stand together, those of a block
around those of its items, and jumps go to the labels of the blocks around them. Two things come to the
code of an item only later: a further branch of a chain puts a jump in front of the end of the branch
before it, and the end of a tested loop puts one in front of the end of its condition body. With these
the code of a tree is said item by item, together with the states in which the items were lowered.

Main statement: `Lower.PerformsAll.lays`, by which lowering lays the code of a tree.
-/

namespace TriggerCompiler

variable {next tree items : BlockTree} {l : List Action} {c : Construct} {o b : Action}
  {close : List InstrId}

/-! ## The code of a tree -/

namespace BlockTree

/-- Whether the first item is a further branch of a chain. -/
def continuesChain : BlockTree → Bool
  | block opener _ _ _ => (opener.construct?.map Construct.continuesChain).getD false
  | _ => false

/-- Whether there are no items. -/
def isDone : BlockTree → Bool
  | done => true
  | _ => false

end BlockTree

/-- The labels that the items of a block jump to. -/
def Exits.inside (x : Exits) (g : Frame) : Exits where
  leave := if g.isLoop then g.endLabel.getD x.leave else x.leave
  again := if g.isLoop then g.startLabel.getD x.again else x.again
  decided := if g.construct? = some .condition then g.endLabel.getD x.decided else x.decided
  miss := g.endLabel.getD x.miss
  ending := x.ending

namespace Lower

variable {s t u v : LowerState} {env : Environment} {index : Nat} {a : Action} {d : ActionDef} {code : List Line}
  {f g : Frame} {rest : List Frame} {new new' : List InstrId} {x : Exits}

/-- The labels of the open blocks, as one of them is entered. -/
lemma agrees_inside {g₀ : Frame} (h : x.Agrees (popped s f rest))
    (hs : s.scopes.frames = g₀ :: f :: rest) (hfills : g₀.Fills g) : (x.inside g).Agrees s := by
  have hloop : g.isLoop = g₀.isLoop := by rw [hfills.same]
  have hstart : g.startLabel = g₀.startLabel := by rw [hfills.same]
  refine ⟨fun k l hk hl => ?_, fun k l hk hl => ?_, fun k l hk hl => ?_, fun k l hk hl => ?_,
    h.ending⟩
  · rw [hs, List.find?_cons] at hk
    unfold Exits.inside
    rw [hloop]
    cases hg : g₀.isLoop with
    | true =>
      rw [hg] at hk
      obtain rfl := Option.some.inj hk
      simp [hfills.ending l hl]
    | false =>
      rw [hg] at hk
      exact h.leave k l hk hl
  · rw [hs, List.find?_cons] at hk
    unfold Exits.inside
    rw [hloop, hstart]
    cases hg : g₀.isLoop with
    | true =>
      rw [hg] at hk
      obtain rfl := Option.some.inj hk
      simp [hl]
    | false =>
      rw [hg] at hk
      exact h.again k l hk hl
  · rw [hs, List.find?_cons] at hk
    unfold Exits.inside
    rw [hfills.construct?]
    by_cases hg : g₀.construct? = some .condition
    · simp only [hg, decide_true, ↓reduceIte, Option.some.injEq] at hk ⊢
      subst hk
      simp [hfills.ending l hl]
    · simp only [hg, decide_false, ↓reduceIte] at hk ⊢
      exact h.decided k l hk hl
  · rw [hs] at hk
    obtain rfl := Option.some.inj hk
    unfold Exits.inside
    simp [hfills.ending l hl]

/-- The lines that come before the end of a block later on: a jump out of the chain, if it goes on, and
the jump back to the start of a tested loop, whose last item this is. -/
def insertedLines (c : Construct) (next : BlockTree) (back : Option InstrId) (exit : InstrId) :
    List Line :=
  match c with
  | .ifBranch | .elseIf => if next.continuesChain then [.code (.jump exit)] else []
  | .conditionBody => if next.isDone then back.toList.map (.code <| .jump ·) else []
  | _ => []

/-- The opener and the end of a block, whose items are lowered from the state `u₁` to the state `u₂`. The
lines `pre` stand in front of the items. The block has the frame `g₁` when it is opened and `g` when it is
closed. -/
structure Around (env : Environment) (x : Exits) (n : Nat) (c : Construct) (o : Action)
    (items : BlockTree) (b : Action) (s u₁ u₂ u₃ : LowerState) (g₁ g f : Frame) (frames : List Frame)
    (pre : List Line) : Prop where
  opener : o.construct? = some c
  opens : c.opensBlock = true
  closer : b.construct? = some .blockEnd
  first : Performs env n o s u₁
  opened : Opened x c g₁ pre
  size : u₁.body.length = s.body.length + c.continuesChain.toNat + pre.length
  enters : Enters c s u₁ g₁ (u₁.scopes.frames.drop 1)
  keeps : g₁.Keeps g
  last : Performs env (n + 1 + items.flatten.length) b u₂ u₃
  shuts : Shuts u₂ g f frames u₃

/-- `CodeOf env x back exit n s tree t code`: lowered from the state `s` to the state `t`, the items, the
first of which is the action with the index `n`, have the code `code`. It jumps to the labels `x`
outside, and if the items are those of a tested loop, to its start `back`. The chain that the items go on with, if they do, ends at `exit`. -/
inductive CodeOf (env : Environment) : Exits → Option InstrId → InstrId → Nat → LowerState →
    BlockTree → LowerState → List Line → Prop where
  | done {x : Exits} {back : Option InstrId} {exit : InstrId} (n : Nat) (s : LowerState) :
      CodeOf env x back exit n s .done s []
  | act {x : Exits} {back : Option InstrId} {exit : InstrId} {n : Nat} {s u t : LowerState} {a : Action}
      {next : BlockTree} {code more : List Line} (performs : Performs env n a s u)
      (plain : ∀ c, a.construct? = some c → c.affectsBlocks = false)
      (spoken : Spoken x code) (size : u.body.length = s.body.length + code.length)
      (rest : CodeOf env x back exit (n + 1) u next t more) :
      CodeOf env x back exit n s (.act a next) t (code ++ more)
  | block {x : Exits} {back : Option InstrId} {exit exit' inner : InstrId} {n : Nat} {c : Construct}
      {s u₁ u₂ u₃ t : LowerState} {o b : Action} {items next : BlockTree} {g₁ g f : Frame}
      {frames : List Frame} {pre mid more : List Line}
      (around : Around env x n c o items b s u₁ u₂ u₃ g₁ g f frames pre)
      (inside : CodeOf env (x.inside g) (if c = .whileLoop then g.startLabel else none) inner (n + 1)
        u₁ items u₂ mid)
      (ends : c.continuesChain = true ∨ c = .ifBranch → next.continuesChain = false →
        g.endLabel = some exit')
      (further : c.continuesChain = true → exit = exit')
      (rest : CodeOf env x back exit' (n + 1 + items.flatten.length + 1) u₃ next t more) :
      CodeOf env x back exit n s (.block o items b next) t
        (pre ++ mid ++ insertedLines c next back exit' ++ g.closeLines ++ more)

lemma Performs.settled (h : Performs env index a s t) : s.Settled ∧ t.Settled := by
  obtain ⟨-, hs, -, -, -, -, -, ht, -⟩ := h
  exact ⟨hs, ht⟩

namespace Around

variable {n : Nat} {u₁ u₂ u₃ : LowerState} {g₁ : Frame} {frames : List Frame} {pre : List Line}
  (h : Around env x n c o items b s u₁ u₂ u₃ g₁ g f frames pre)
include h

lemma sound : u₁.Sound := h.first.settled.2.sound

lemma construct : g.construct? = some c := h.keeps.construct?.trans h.enters.construct

lemma continues (next : BlockTree) :
    (BlockTree.block o items b next).continuesChain = c.continuesChain := by
  simp [BlockTree.continuesChain, h.opener]

end Around

lemma insertedLines_congr (h : next.isDone = false) (c : Construct) (back back' : Option InstrId)
    (exit : InstrId) :
    insertedLines c next back exit = insertedLines c next back' exit := by
  unfold insertedLines
  rw [h]
  rfl

/-- A block that is no loop and no condition ends with its label. -/
lemma Shuts.closeLines_eq (h : Shuts s g f rest t) (hblock : g.construct? ≠ some .block)
    (hfor : g.construct? ≠ some .forLoop) (hcondition : g.construct? ≠ some .condition) :
    ∃ l, g.endLabel = some l ∧ g.closeLines = [.label l] := by
  obtain ⟨l, hl⟩ := Option.isSome_iff_exists.mp (h.label hblock)
  refine ⟨l, hl, ?_⟩
  unfold Frame.closeLines
  split
  · exact absurd ‹_› hfor
  · exact absurd ‹_› hcondition
  · rw [hl]
    rfl

/-- The jump back to the start of a tested loop comes before the end of its condition body. -/
lemma CodeOf.reenter {back : Option InstrId} {exit : InstrId}
    (h : CodeOf env x back exit index s tree t code) (hback : back = none)
    (hlast : tree.items.getLast? = some (some .conditionBody)) (start : InstrId) :
    ∃ before l, code = before ++ [.label l] ∧
      CodeOf env x (some start) exit index s tree t (before ++ [.code (.jump start), .label l]) := by
  induction h with
  | done => cases hlast
  | @act x back exit n s u t a next code more performs plain spoken size rest ih =>
    have hnext : next.items.getLast? = some (some .conditionBody) := by
      cases hitems : next.items with
      | nil =>
        simp only [BlockTree.items, hitems, List.getLast?_singleton, Option.some.injEq] at hlast
        cases plain _ hlast
      | cons c l => simpa [BlockTree.items, hitems] using hlast
    obtain ⟨before, l, rfl, hlaid⟩ := ih hback hnext
    refine ⟨code ++ before, l, by simp, ?_⟩
    rw [List.append_assoc]
    exact .act performs plain spoken size hlaid
  | @block x back exit exit' inner n c s u₁ u₂ u₃ t o b items next g₁ g f frames pre mid more around
      inside ends further rest _ ih =>
    subst hback
    cases hnext : next.items with
    | nil =>
      cases next with
      | act => simp [BlockTree.items] at hnext
      | block => simp [BlockTree.items] at hnext
      | done =>
        cases rest
        obtain rfl : c = .conditionBody := by
          simpa [BlockTree.items, around.opener] using hlast
        have hconstruct := around.construct
        obtain ⟨l, -, hl⟩ := around.shuts.closeLines_eq (by simp [hconstruct]) (by simp [hconstruct])
          (by simp [hconstruct])
        refine ⟨pre ++ mid, l, by simp [insertedLines, hl], ?_⟩
        have hlaid : CodeOf env x (some start) exit n s _ u₃ _ :=
          .block around inside ends further (.done _ _)
        simpa [insertedLines, BlockTree.isDone, hl] using hlaid
    | cons k l =>
      have hnext' : next.items.getLast? = some (some .conditionBody) := by
        simpa [BlockTree.items, hnext] using hlast
      have hmore : next.isDone = false := by
        cases next with
        | done => cases hnext
        | _ => rfl
      obtain ⟨before, l, rfl, hlaid⟩ := ih rfl hnext'
      refine ⟨pre ++ mid ++ insertedLines c next none exit' ++ g.closeLines ++ before, l,
        by simp, ?_⟩
      rw [insertedLines_congr hmore c none (some start), List.append_assoc _ before]
      exact .block around inside ends further hlaid

/-! ## Lowering lays the code of a tree -/

lemma PerformsAll.split {l' : List Action} (h : PerformsAll env index (l ++ l') s t) :
    ∃ u, PerformsAll env index l s u ∧ PerformsAll env (index + l.length) l' u t := by
  induction l generalizing s index with
  | nil => exact ⟨s, .nil _ s, h⟩
  | cons a l ih =>
    obtain _ | ⟨first, others⟩ := h
    obtain ⟨u, hu, hrest⟩ := ih others
    rw [List.length_cons, Nat.add_comm l.length 1, ← Nat.add_assoc]
    exact ⟨u, .cons first hu, hrest⟩

/-- An action that was performed was accepted. -/
lemma Performs.run (h : Performs env index a s t) (hnames : env.NamesConstructs) :
    Shape.accepts a.construct? s.scopes.shapes = true ∧
      t.scopes.shapes = Shape.follow a.construct? s.scopes.shapes := by
  obtain @⟨d, u, -, -, hfound, hadmits, -, -, -, -, hshapes⟩ := h
  rw [hnames a d hfound]
  refine ⟨?_, hshapes⟩
  cases hd : d.construct? with
  | none => rfl
  | some c => exact hadmits c hd

lemma PerformsAll.run (h : PerformsAll env index l s t) (hnames : env.NamesConstructs) :
    Shape.run (l.map Action.construct?) s.scopes.shapes = some t.scopes.shapes := by
  induction h with
  | nil => rfl
  | cons first _ ih =>
    obtain ⟨haccepts, hshapes⟩ := first.run hnames
    rw [List.map_cons, Shape.run, if_pos haccepts, ← hshapes]
    exact ih

/-- Items go on with a chain only right after one of its branches. -/
lemma PerformsAll.previous_of_continues (h : PerformsAll env index tree.flatten s t)
    (hnames : env.NamesConstructs) (hc : tree.continuesChain = true)
    (hs : s.scopes.frames = f :: rest) :
    f.previous = some .ifBranch ∨ f.previous = some .elseIf := by
  cases tree with
  | done => cases hc
  | act => cases hc
  | block o items b next =>
    obtain _ | ⟨first, -⟩ := h
    obtain ⟨haccepts, -⟩ := first.run hnames
    have hshapes : s.scopes.shapes = f.shape :: rest.map Frame.shape := by
      unfold ScopeStack.shapes
      rw [hs]
      rfl
    rw [hshapes] at haccepts
    cases ho : o.construct? with
    | none => simp [BlockTree.continuesChain, ho] at hc
    | some c =>
      simp only [BlockTree.continuesChain, ho, Option.map_some, Option.getD_some] at hc
      rw [ho] at haccepts
      cases c
      case elseIf => exact (Shape.admits_chain (.inl rfl) _ (rest.map Frame.shape)).mp haccepts
      case elseBranch => exact (Shape.admits_chain (.inr rfl) _ (rest.map Frame.shape)).mp haccepts
      all_goals cases hc

/-- After a single action no chain goes on. -/
lemma Performs.previous_of_plain (h : Performs env index a s t) (hnames : env.NamesConstructs)
    (hplain : ∀ c, a.construct? = some c → c.affectsBlocks = false)
    (ht : t.scopes.frames = f :: rest) : f.previous = a.construct? := by
  obtain ⟨-, hshapes⟩ := h.run hnames
  obtain ⟨f₀, rest₀, hf₀, -⟩ := h.settled.1.follows
  unfold ScopeStack.shapes at hshapes
  rw [ht, hf₀, List.map_cons, List.map_cons] at hshapes
  cases hc : a.construct? with
  | none =>
    rw [hc] at hshapes
    exact congrArg Shape.previous (List.cons.inj hshapes).1
  | some c =>
    have hc' := hplain c hc
    rw [hc] at hshapes
    cases c
    all_goals first
      | exact congrArg Shape.previous (List.cons.inj hshapes).1
      | cases hc'

/-- Items that do not go on with a chain have their code at the end of the body. -/
def LaysOn (env : Environment) (index : Nat) (s : LowerState) (tree : BlockTree) (t : LowerState) : Prop :=
  ∃ new, Appends s new t ∧ ∀ x : Exits, x.Agrees t → ∀ exit,
    CodeOf env x none exit index s tree t (new.map t.program.line)

/-- Items that go on with a chain also change its code before. -/
def LaysChain (env : Environment) (index : Nat) (s : LowerState) (tree : BlockTree) (t : LowerState) : Prop :=
  ∃ f rest closed exit skip new, s.scopes.frames = f :: rest ∧ f.lastClosed = some closed ∧
    Hooks s closed exit skip new t ∧ ∀ x : Exits, x.Agrees t →
      CodeOf env x none exit index s tree t (new.map t.program.line)

/-- The instructions of a block, from the state before it to the state after it: those of its opener and
its items, and those of its end. -/
structure Formed (env : Environment) (index : Nat) (c : Construct) (o : Action) (items : BlockTree) (b : Action)
    (s t : LowerState) (g f : Frame) (rest : List Frame) (core close : List InstrId) : Prop where
  persists : s.Persists t
  frames : t.scopes.frames = f.after g :: rest
  construct : g.construct? = some c
  label : g.construct? ≠ some .block → g.endLabel.isSome = true
  apart : ∀ id ∈ core, id ∉ g.chainJumps
  lines : close.map t.program.line = g.closeLines
  first : c.continuesChain = false → g.chainJumps = [] ∧ Appends s (core ++ close) t
  further : c.continuesChain = true → ∃ f₀ rest₀ closed exit skip, s.scopes.frames = f₀ :: rest₀ ∧
    f₀.lastClosed = some closed ∧ g.endLabel = some exit ∧
    g.chainJumps = closed.chainJumps ++ [skip] ∧ Hooks s closed exit skip (core ++ close) t
  laid : ∀ x : Exits, x.Agrees t → ∃ u₁ u₂ g₁ pre mid, core.map t.program.line = pre ++ mid ∧
    Around env x index c o items b s u₁ u₂ t g₁ g f rest pre ∧
    CodeOf env (x.inside g) (if c = .whileLoop then g.startLabel else none) 0 (index + 1) u₁ items u₂ mid

/-- A tested loop that is complete has its condition body as the last item. -/
lemma Shuts.last_item (hnames : env.NamesConstructs) (htree : items.Nested)
    (hall : PerformsAll env index items.flatten u v) (h : Shuts v g f rest t)
    (hwhile : g.construct? = some .whileLoop)
    (hshapes : ∃ others, u.scopes.shapes = { construct := some .whileLoop } :: others) :
    items.items.getLast? = some (some .conditionBody) := by
  obtain ⟨g₀, hframes, hfills, hcomplete⟩ := h.open_frames
  obtain ⟨others, hothers⟩ := hshapes
  have hrun := hall.run hnames
  rw [hothers] at hrun
  obtain ⟨-, hfinal⟩ := (BlockTree.run_flatten_iff htree (some .whileLoop) [] others _).mp hrun
  unfold ScopeStack.shapes at hfinal
  rw [hframes] at hfinal
  have hprevious : g₀.shape.previous = some .conditionBody :=
    hcomplete.2 (hfills.construct?.symm.trans hwhile)
  rw [(List.cons.inj hfinal).1] at hprevious
  exact Shape.previous_after.mp hprevious

/-- The instructions of a tested loop's items and of its end. -/
lemma Returns.core {start l : InstrId} (h : Returns v start l t)
    (hlays : LaysOn env index u items v) (hv : v.Sound)
    (hlast : items.items.getLast? = some (some .conditionBody)) :
    ∃ mids, Appends u (mids ++ [l]) t ∧ ∀ x : Exits, x.Agrees v →
      CodeOf env x (some start) 0 index u items v (mids.map t.program.line) := by
  obtain ⟨mids, hmids, hlaid⟩ := hlays
  obtain ⟨before, last, back, hbody, hbody', hback, hjump⟩ := h.body
  -- the code of the items is not empty, since their last one is a block
  obtain ⟨xs, rfl⟩ : ∃ xs, mids = xs ++ [last] := by
    obtain ⟨x, hx⟩ := Exits.exists_agrees v
    obtain ⟨lines, l', hlines, -⟩ := (hlaid x hx 0).reenter rfl hlast start
    rcases List.eq_nil_or_concat mids with rfl | ⟨xs, y, rfl⟩
    · simp at hlines
    · rw [hmids.body, List.concat_eq_append, ← List.append_assoc] at hbody
      obtain ⟨-, hy⟩ := List.append_inj' hbody rfl
      exact ⟨xs, by rw [List.concat_eq_append, hy]⟩
  have hbefore : before = u.body ++ xs := by
    rw [hmids.body, ← List.append_assoc] at hbody
    exact (List.append_inj' hbody rfl).1.symm
  refine ⟨xs ++ [back, last], ⟨h.method.trans hmids.method, ?_, hmids.size_le.trans h.size_le,
    fun id hid => ?_, fun id hid => ?_⟩, fun x hx => ?_⟩
  · rw [hbody', hbefore]
    simp
  · rw [h.arena id (hid.trans_le hmids.size_le), hmids.arena id hid]
  · simp only [List.mem_append, List.mem_cons, List.not_mem_nil, or_false] at hid
    rcases hid with (hid | rfl | rfl) | rfl
    · exact hmids.fresh id (by simp [hid])
    · exact Program.instr_eq_nop_of_le (hmids.size_le.trans hback)
    · exact hmids.fresh id (by simp)
    · exact hmids.nop h.fresh
  · obtain ⟨lines, l', hlines, hreentered⟩ := (hlaid x hx 0).reenter rfl hlast start
    rw [List.map_append] at hlines
    obtain ⟨rfl, hl'⟩ := List.append_inj' hlines rfl
    have hline : ∀ id ∈ xs ++ [last], t.program.line id = v.program.line id := fun id hid =>
      Program.line_congr (h.arena id (hv.body_lt (hmids.mem_body hid)))
    have hxs : xs.map t.program.line = xs.map v.program.line :=
      List.map_congr_left fun id hid => hline id (List.mem_append_left _ hid)
    have hline_back : t.program.line back = .code (.jump start) :=
      Program.line_eq_code.mpr ⟨hjump, by simp⟩
    have hline_last : t.program.line last = .label l' :=
      (hline last (by simp)).trans (List.singleton_inj.mp hl')
    rw [List.map_append, hxs, List.map_cons, List.map_singleton, hline_back, hline_last]
    exact hreentered

/-- The instructions of a block's items and of its end, on top of those of its opener. -/
lemma Shuts.core {u₁ u₂ : LowerState} (hnames : env.NamesConstructs) (htree : items.Nested)
    (hall : PerformsAll env (index + 1) items.flatten u₁ u₂)
    (hlays : LaysOn env (index + 1) u₁ items u₂) (h : Shuts u₂ g f rest t) (hu₂ : u₂.Sound)
    (hconstruct : g.construct? = some c)
    (hshapes : ∃ others, u₁.scopes.shapes = { construct := some c } :: others) :
    ∃ mids close, Appends u₁ (mids ++ close) t ∧ close.map t.program.line = g.closeLines ∧
      ∀ x : Exits, x.Agrees u₂ →
        CodeOf env x (if c = .whileLoop then g.startLabel else none) 0 (index + 1) u₁ items u₂
          (mids.map t.program.line) := by
  by_cases hwhile : c = .whileLoop
  · subst hwhile
    obtain ⟨start, l, hstart, hl, hreturns⟩ := h.returns hconstruct
    obtain ⟨mids, happends, hlaid⟩ :=
      hreturns.core hlays hu₂ (h.last_item hnames htree hall hconstruct hshapes)
    refine ⟨mids, [l], happends, ?_, fun x hx => ?_⟩
    · rw [List.map_singleton, Program.line_eq_label.mpr ⟨hreturns.label, rfl⟩, Frame.closeLines,
        hconstruct]
      simp [hl]
    · rw [if_pos rfl, hstart]
      exact hlaid x hx
  · obtain ⟨mids, hmids, hlaid⟩ := hlays
    obtain ⟨close, hclose, hlines⟩ := h.lines (by simpa [hconstruct] using hwhile)
    refine ⟨mids, close, hmids.trans hclose, hlines, fun x hx => ?_⟩
    rw [if_neg hwhile, hclose.lines hu₂ fun id hid => hmids.mem_body hid]
    exact hlaid x hx 0

/-- A block is formed by its opener, its items and its end. -/
lemma formed_of_performs {u₁ u₂ : LowerState} (hnames : env.NamesConstructs)
    (ho : o.construct? = some c) (hopens : c.opensBlock = true) (hb : b.construct? = some .blockEnd)
    (htree : items.Nested) (first : Performs env index o s u₁)
    (hall : PerformsAll env (index + 1) items.flatten u₁ u₂) (hkept : u₁.Persists u₂)
    (hlays : LaysOn env (index + 1) u₁ items u₂)
    (last : Performs env (index + 1 + items.flatten.length) b u₂ t) :
    ∃ g f rest core close, Formed env index c o items b s t g f rest core close := by
  obtain ⟨g₁, tail, hg₁, hlines⟩ := first.enters hnames ho hopens
  obtain ⟨g, f, rest, hshuts⟩ := last.shuts hnames hb
  obtain ⟨g₀, hframes, hfills, -⟩ := hshuts.open_frames
  have hu₁ := first.settled.2.sound
  have hu₂ := last.settled.1.sound
  have hstack := hkept.frames
  rw [hg₁.frames, hframes] at hstack
  obtain ⟨hkeeps₀, haround⟩ := List.forall₂_cons.mp hstack
  have hkeeps : g₁.Keeps g := hkeeps₀.trans (.of_fills hfills)
  have hconstruct : g.construct? = some c := hkeeps.construct?.trans hg₁.construct
  have hafter : List.Forall₂ Frame.Keeps (f :: rest) t.scopes.frames := by
    rw [hshuts.frames]
    exact .cons (Frame.Keeps.after f g) (Frame.Keeps.stack_refl rest)
  have hpopped : (popped u₂ f rest).Persists t := ⟨hshuts.method, hafter, hshuts.ending⟩
  have hpersists : s.Persists t := by
    refine ⟨hshuts.method.trans (hkept.method.trans hg₁.method),
      Frame.Keeps.stack_trans hg₁.around (Frame.Keeps.stack_trans haround hafter), fun l hl => ?_⟩
    have h₁ := hg₁.ending l hl
    rw [← hg₁.method] at h₁
    have h₂ := hkept.ending l h₁
    rw [← hkept.method] at h₂
    have h₃ := hshuts.ending l h₂
    rwa [hkept.method, hg₁.method] at h₃
  have hshapes : ∃ others, u₁.scopes.shapes = { construct := some c } :: others := by
    refine ⟨tail.map Frame.shape, ?_⟩
    unfold ScopeStack.shapes
    rw [hg₁.frames, List.map_cons, hg₁.shape]
  have henters : Enters c s u₁ g₁ (u₁.scopes.frames.drop 1) := by
    rw [hg₁.frames]
    exact hg₁
  have hinside : ∀ x : Exits, x.Agrees t → (x.inside g).Agrees u₂ := fun x hx =>
    agrees_inside (hx.of_persists hpopped) hframes hfills
  obtain ⟨mids, close, hmids, hclose, hlaid⟩ :=
    hshuts.core hnames htree hall hlays hu₂ hconstruct hshapes
  rcases hlines with ⟨hchain, hjumps, pre, hpre, hopened⟩ | ⟨hchain, f₀, rest₀, closed, exit, skip, hf₀,
    hclosed, hexit, hjumps, hhooks, hopened⟩
  · refine ⟨g, f, rest, pre ++ mids, close, hpersists, hshuts.frames, hconstruct, hshuts.label,
      fun id _ => ?_, hclose, fun _ => ⟨hkeeps.chainJumps.trans hjumps, ?_⟩, fun h => ?_, fun x hx => ?_⟩
    · rw [hkeeps.chainJumps, hjumps]
      exact List.not_mem_nil
    · rw [List.append_assoc]
      exact hpre.trans hmids
    · rw [hchain] at h
      cases h
    · refine ⟨u₁, u₂, g₁, _, _, ?_, ⟨ho, hopens, hb, first, hopened x fun f' l hf' hl => ?_, ?_, henters,
        hkeeps, last, hshuts⟩, hlaid _ (hinside x hx)⟩
      · rw [List.map_append, hmids.lines hu₁ fun id hid => hpre.mem_body hid]
      · have hstack := Frame.Keeps.stack_trans haround hafter
        obtain ⟨tail', rfl⟩ := List.head?_eq_some_iff.mp hf'
        obtain ⟨f'', rest', hkeeps', -, hrest⟩ := List.forall₂_cons_left_iff.mp hstack
        exact hx.miss f'' l (by simp [hrest]) (hkeeps'.endLabel l hl)
      · simp [hpre.body, hchain]
  · refine ⟨g, f, rest, mids, close, hpersists, hshuts.frames, hconstruct, hshuts.label,
      fun id hid hmem => ?_, hclose, fun h => ?_, fun _ => ?_, fun x hx => ?_⟩
    · rw [hkeeps.chainJumps] at hmem
      obtain ⟨l, hl⟩ := (hu₁.frames g₁ (by simp [hg₁.frames])).chain id hmem
      rw [hmids.fresh id (by simp [hid])] at hl
      cases hl
    · rw [hchain] at h
      cases h
    · exact ⟨f₀, rest₀, closed, exit, skip, hf₀, hclosed, hkeeps.endLabel exit hexit,
        hkeeps.chainJumps.trans hjumps, hhooks.append hmids hu₁⟩
    · refine ⟨u₁, u₂, g₁, [], _, rfl, ⟨ho, hopens, hb, first, hopened x, ?_, henters, hkeeps, last,
        hshuts⟩, hlaid _ (hinside x hx)⟩
      obtain ⟨before, l, -, hbody, hbody'⟩ := hhooks.body
      simp [hbody, hbody', hchain]

lemma Formed.mem_body {core : List InstrId}
    (h : Formed env index c o items b s t g f rest core close) {id : InstrId}
    (hid : id ∈ core ++ close) :
    id ∈ t.body := by
  cases hc : c.continuesChain with
  | false => exact (h.first hc).2.mem_body hid
  | true =>
    obtain ⟨_, _, _, _, _, -, -, -, -, hhooks⟩ := h.further hc
    exact hhooks.mem_body hid

lemma insertedLines_of_apart (h : next.continuesChain = false) (c : Construct) (exit : InstrId) :
    insertedLines c next none exit = [] := by
  unfold insertedLines
  split <;> simp [h]

/-- The code of a block and of the items after it, which do not go on with its chain. -/
lemma Formed.lays_of_apart {core : List InstrId}
    (h : Formed env index c o items b s u g f rest core close) (hu : u.Sound)
    (hnext : next.continuesChain = false) (hkept : u.Persists t)
    (hlays : LaysOn env (index + 1 + items.flatten.length + 1) u next t) :
    (c.continuesChain = false → LaysOn env index s (.block o items b next) t) ∧
      (c.continuesChain = true → LaysChain env index s (.block o items b next) t) := by
  obtain ⟨more, hmore, hlaid⟩ := hlays
  have hlines : ∀ x : Exits, x.Agrees t → ∀ exit,
      (c.continuesChain = true → g.endLabel = some exit) →
        CodeOf env x none exit index s (.block o items b next) t
          ((core ++ close ++ more).map t.program.line) := by
    intro x hx exit hexit
    obtain ⟨u₁, u₂, g₁, pre, mid, hcore, around, inside⟩ := h.laid x (hx.of_persists hkept)
    rw [List.map_append, hmore.lines hu fun id hid => h.mem_body hid, List.map_append, hcore, h.lines]
    have hblock : CodeOf env x none exit index s (.block o items b next) t (pre ++ mid ++
        insertedLines c next none (g.endLabel.getD exit) ++ g.closeLines ++
        more.map t.program.line) := by
      refine .block around inside (fun hc _ => ?_) (fun hc => by rw [hexit hc]; rfl) (hlaid x hx _)
      have hlabel := h.label (by
        rw [h.construct]
        rintro ⟨⟩
        rcases hc with hc | hc <;> cases hc)
      obtain ⟨l, hl⟩ := Option.isSome_iff_exists.mp hlabel
      rw [hl]
      rfl
    rwa [insertedLines_of_apart hnext, List.append_nil] at hblock
  constructor
  · intro hc
    exact ⟨_, (h.first hc).2.trans hmore, fun x hx exit => hlines x hx exit fun hc' => by
      rw [hc] at hc'
      cases hc'⟩
  · intro hc
    obtain ⟨f₀, rest₀, closed, exit, skip, hf₀, hclosed, hexit, -, hhooks⟩ := h.further hc
    exact ⟨f₀, rest₀, closed, exit, skip, _, hf₀, hclosed, hhooks.append hmore hu,
      fun x hx => hlines x hx exit fun _ => hexit⟩

/-- The code of a branch and of the items after it, which go on with its chain. -/
lemma Formed.lays_of_continues {core : List InstrId}
    (h : Formed env index c o items b s u g f rest core close) (hu : u.Sound)
    (hc : c = .ifBranch ∨ c = .elseIf) (hnext : next.continuesChain = true) (hkept : u.Persists t)
    (hlays : LaysChain env (index + 1 + items.flatten.length + 1) u next t) :
    (c.continuesChain = false → LaysOn env index s (.block o items b next) t) ∧
      (c.continuesChain = true → LaysChain env index s (.block o items b next) t) := by
  obtain ⟨f', rest', closed, exit, skip, more, hf', hclosed, hhooks, hlaid⟩ := hlays
  obtain ⟨rfl, rfl⟩ := List.cons.inj (h.frames.symm.trans hf')
  obtain rfl : g.closed = closed := Option.some.inj hclosed
  -- the end of the branch is its label, before which the jump comes
  obtain ⟨e, he, hclose, rfl, hlabel⟩ : ∃ e, g.endLabel = some e ∧ g.closeLines = [.label e] ∧
      close = [e] ∧ u.program.line e = .label e := by
    obtain ⟨e, he⟩ := Option.isSome_iff_exists.mp
      (h.label (by rw [h.construct]; rcases hc with rfl | rfl <;> simp))
    have hclose : g.closeLines = [.label e] := by
      unfold Frame.closeLines
      rw [h.construct, he]
      rcases hc with rfl | rfl <;> rfl
    obtain ⟨e', rfl, he'⟩ := List.map_eq_singleton_iff.mp (h.lines.trans hclose)
    obtain ⟨-, rfl⟩ := Program.line_eq_label.mp he'
    exact ⟨e', he, hclose, rfl, he'⟩
  have hlines : ∀ x : Exits, x.Agrees t → ∀ exit', (c.continuesChain = true → exit' = exit) →
      CodeOf env x none exit' index s (.block o items b next) t
        ((core ++ [skip, e] ++ more).map t.program.line) := by
    intro x hx exit' hexit
    obtain ⟨u₁, u₂, g₁, pre, mid, hcore, around, inside⟩ := h.laid x (hx.of_persists hkept)
    have hcore' : core.map t.program.line = pre ++ mid := by
      rw [hhooks.lines hu (fun id hid => h.mem_body (List.mem_append_left _ hid)) h.apart, hcore]
    have hend : t.program.line e = .label e := by
      rw [← hlabel]
      have hsame : [e].map t.program.line = [e].map u.program.line := by
        refine hhooks.lines hu (fun id hid => h.mem_body (List.mem_append_right _ hid))
          fun id hid hmem => ?_
        obtain rfl := List.mem_singleton.mp hid
        obtain ⟨l, hl⟩ := (hu.frames (f.after g) (by simp [h.frames])).closed_chain _ rfl id hmem
        obtain ⟨hnop, -⟩ := Program.line_eq_label.mp hlabel
        rw [hnop] at hl
        cases hl
      exact List.singleton_inj.mp hsame
    have hblock : CodeOf env x none exit' index s (.block o items b next) t (pre ++ mid ++
        insertedLines c next none exit ++ g.closeLines ++ more.map t.program.line) :=
      .block around inside (fun _ hno => by rw [hnext] at hno; cases hno) hexit (hlaid x hx)
    have hinserted : insertedLines c next none exit ++ g.closeLines =
        [.code (.jump exit), .label e] := by
      unfold insertedLines
      rw [hclose, hnext]
      rcases hc with rfl | rfl <;> rfl
    rw [List.append_assoc (pre ++ mid), hinserted] at hblock
    rw [List.map_append, List.map_append, hcore', List.map_cons, List.map_singleton,
      hhooks.line_skip, hend]
    exact hblock
  constructor
  · intro hfirst
    obtain ⟨hjumps, happends⟩ := h.first hfirst
    exact ⟨_, Hooks.appends_hooks happends hhooks he hjumps, fun x hx exit' =>
      hlines x hx exit' fun hc' => by
        rw [hfirst] at hc'
        cases hc'⟩
  · intro hfurther
    obtain ⟨f₀, rest₀, closed, exit₀, skip₀, hf₀, hclosed, -, hjumps, hhooks₀⟩ := h.further hfurther
    exact ⟨f₀, rest₀, closed, exit, skip₀, _, hf₀, hclosed, hhooks₀.hooks hu hhooks he hjumps,
      fun x hx => hlines x hx exit fun _ => rfl⟩

/-- Lowering lays the code of a tree. -/
lemma PerformsAll.lays (hnames : env.NamesConstructs) (htree : tree.Nested)
    (h : PerformsAll env index tree.flatten s t) (hs : s.Settled) :
    s.Persists t ∧ (tree.continuesChain = false → LaysOn env index s tree t) ∧
      (tree.continuesChain = true → LaysChain env index s tree t) := by
  induction tree generalizing index s t with
  | done =>
    cases h
    exact ⟨.refl s, fun _ => ⟨[], .refl s, fun _ _ _ => .done _ s⟩, fun hc => by cases hc⟩
  | act a next ih =>
    obtain ⟨hplain, hnext⟩ := htree
    obtain _ | @⟨_, _, _, _, u, _, first, others⟩ := h
    obtain ⟨new, hnew, hkept, hspoken⟩ := first.spoken hnames hplain
    obtain ⟨hu, hlast⟩ := first.settled
    obtain ⟨hkept', hlays, -⟩ := ih hnext others hlast
    have hapart : next.continuesChain = false := by
      by_contra hc
      obtain ⟨f, rest, hf, -⟩ := hlast.follows
      have hprevious := others.previous_of_continues hnames (by simpa using hc) hf
      rw [first.previous_of_plain hnames hplain hf] at hprevious
      rcases hprevious with hc | hc <;> cases hplain _ hc
    obtain ⟨more, hmore, hlaid⟩ := hlays hapart
    refine ⟨hkept.trans hkept', fun _ => ⟨new ++ more, hnew.trans hmore, fun x hx exit => ?_⟩,
      fun hc => by cases hc⟩
    rw [List.map_append, hmore.lines hlast.sound fun id hid => hnew.mem_body hid]
    exact .act first hplain (hspoken x (hx.of_persists hkept')) (by simp [hnew.body])
      (hlaid x hx exit)
  | block o items b next ih ihnext =>
    obtain ⟨⟨c, ho, hopens⟩, hitems, hb, hnext⟩ := htree
    obtain _ | @⟨_, _, _, _, u₁, _, first, others⟩ := h
    obtain ⟨u₂, hinner, hrest⟩ := others.split
    obtain _ | @⟨_, _, _, _, u₃, _, last, others⟩ := hrest
    have hu₃ := last.settled.2
    obtain ⟨hkept, hlays, -⟩ := ih hitems hinner first.settled.2
    -- the items of a block that has just been opened go on with no chain
    have hapart : items.continuesChain = false := by
      by_contra hc
      obtain ⟨g₁, tail, hg₁, -⟩ := first.enters hnames ho hopens
      have hprevious := hinner.previous_of_continues hnames (by simpa using hc) hg₁.frames
      rw [show g₁.previous = none from congrArg Shape.previous hg₁.shape] at hprevious
      rcases hprevious with hc | hc <;> cases hc
    obtain ⟨g, f, rest, core, close, hformed⟩ := formed_of_performs hnames ho hopens hb hitems first
      hinner hkept (hlays hapart) last
    obtain ⟨hkept', hlaysOn, hlaysChain⟩ := ihnext hnext others hu₃
    refine ⟨hformed.persists.trans hkept', ?_⟩
    have hcontinues : (BlockTree.block o items b next).continuesChain = c.continuesChain := by
      simp [BlockTree.continuesChain, ho]
    rw [hcontinues]
    cases hc : next.continuesChain with
    | false =>
      exact hformed.lays_of_apart hu₃.sound hc hkept' (hlaysOn hc)
    | true =>
      have hprevious := others.previous_of_continues hnames hc hformed.frames
      rw [show (f.after g).previous = g.construct? from rfl, hformed.construct] at hprevious
      exact hformed.lays_of_continues hu₃.sound
        (hprevious.imp Option.some.inj Option.some.inj) hc hkept' (hlaysChain hc)

/-- Lowering a body lays the code of its tree. -/
lemma lowerBody_lays (henv : env.Sound) (hnames : env.NamesConstructs) (htree : tree.Nested)
    (hplain : ∀ a ∈ tree.flatten, a.NoAddress) (hs : s.Idle)
    (hm : s.method < s.program.methods.size) (hrun : lowerBody env tree.flatten s = .ok ⟨⟩ t)
    (herrors : t.errors = #[]) :
    ∃ u, PerformsAll env 0 tree.flatten (rooted s) u ∧ u.Settled ∧ Ends u t ∧
      LaysOn env 0 (rooted s) tree u := by
  obtain ⟨u, hall, hu, hends⟩ := lowerBody_performs henv hplain hs hm hrun herrors
  have hroot := settled_rooted (hs.sound hm) hs.frames hs.pending
  refine ⟨u, hall, hu, hends, (hall.lays hnames htree hroot).2.1 ?_⟩
  by_contra hc
  have hprevious := hall.previous_of_continues hnames (by simpa using hc) rfl
  rcases hprevious with hc | hc <;> cases hc

end Lower

/-- In a registry that has grown from the built-in one, an action is the construct that its name says. -/
lemma Registry.Grown.namesConstructs {documents : ActionGroup → Prop} {r : Registry}
    (h : r.Grown documents) (options : CompileOptions) :
    Environment.NamesConstructs ⟨r, options⟩ := by
  have hactions : ∀ x ∈ r.actions, x ∈ Registry.builtin.actions ∨
      x.1.2.isSome = true ∧ x.2.construct? = none := by
    induction h with
    | builtin => exact fun x hx => .inl hx
    | group origin document allowed compile grown ihome ih =>
      intro x hx
      rw [actions_addGroup, List.mem_append, List.mem_reverse, List.mem_map] at hx
      rcases hx with ⟨e, -, rfl⟩ | hx
      · exact .inr ⟨rfl, rfl⟩
      · exact ih x hx
  intro a d hd
  rcases hactions _ (findAction_eq_ok hd) with hmem | ⟨hgroup, hnone⟩
  · exact construct?_of_mem_builtin hmem
  · rw [hnone]
    exact if_neg (by simpa [Option.isNone_iff_eq_none] using Option.isSome_iff_ne_none.mp hgroup)

end TriggerCompiler
