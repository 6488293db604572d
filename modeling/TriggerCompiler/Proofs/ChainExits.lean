import Mathlib
import TriggerCompiler.Proofs.BodyCode

/-!
# The exits of a chain

Each further branch of a chain lets all earlier jumps out of the chain go to its own end. When a body has
been lowered, every branch but the last has a jump to the end of the chain right before its own end, to
which only the jump of its condition body goes, and the end of the chain comes after all of its code.

Main statement: `chain_exits_go_to_its_end`.
-/

namespace TriggerCompiler

variable {g f : Frame} {c : Construct} {frames : List Frame}

/-! ## Chains -/

/-- A branch of a chain: the action that opens it, its items, and its block end. -/
structure Branch where
  opener : Action
  items : BlockTree
  closer : Action

/-- The actions of a branch. -/
def Branch.actions (b : Branch) : List Action := b.opener :: (b.items.flatten ++ [b.closer])

/-- Whether the branches are an `If` and any number of further branches. -/
def Branch.IsChain : List Branch → Prop
  | [] => False
  | first :: others => first.opener.construct? = some .ifBranch ∧
      ∀ b ∈ others, ∃ c, b.opener.construct? = some c ∧ c.continuesChain = true

/-- The items that start with the branches. -/
def BlockTree.chain : List Branch → BlockTree → BlockTree
  | [], next => next
  | b :: branches, next => .block b.opener b.items b.closer (chain branches next)

/-- The end of the block that was closed last in the innermost block. -/
def LowerState.closedEnd? (s : LowerState) : Option InstrId :=
  (s.scopes.frames.head?.bind (·.lastClosed)).bind (·.endLabel)

namespace Lower

variable {code : List Line} {x : Exits} {env : Environment} {s t : LowerState} {back : Option InstrId}
  {exit : InstrId} {n : Nat} {tree next : BlockTree} {path before : List (Option Construct)}

lemma CodeOf.nested (h : CodeOf env x back exit n s tree t code) : tree.Nested := by
  induction h with
  | done => trivial
  | act _ plain _ _ _ ih => exact ⟨plain, ih⟩
  | block around _ _ _ _ ihin ih => exact ⟨⟨_, around.opener, around.opens⟩, ihin, around.closer, ih⟩

/-! ## The jump of a condition body -/

lemma Opened.conditionBody_lines (h : Opened x .conditionBody g code) :
    code = [.code (.jumpIfFalse x.miss)] := by
  obtain ⟨e, temps, inputs, lines⟩ := h
  exact lines

lemma Opened.branch_lines (h : Opened x c g code) (hc : c = .ifBranch ∨ c.continuesChain = true) :
    code = [] := by
  obtain ⟨e, temps, inputs, lines⟩ := h
  unfold OpeningLines at lines
  cases c <;> first | exact lines | (rcases hc with hc | hc <;> cases hc)

/-- To the end of a block, which is not among its items, only the jump of the block's condition body
goes. -/
lemma CodeOf.body_jump (h : CodeOf env x back exit n s tree t code)
    (hproper : tree.Proper path before) (hin : some .conditionBody ∈ tree.items)
    (hlabel : .label x.miss ∉ code) (hfar : ¬ x.Far x.miss) (hback : back ≠ some x.miss) :
    ∃ lead cb rest u pre post, tree.flatten = BlockTree.flatten lead ++ cb :: rest ∧ lead.Nested ∧
      Action.construct? cb = some .conditionBody ∧ PerformsAll env n (lead.flatten ++ [cb]) s u ∧
      u.body.length = s.body.length + tree.continuesChain.toNat + pre.length + 1 ∧
      code = pre ++ .code (.jumpIfFalse x.miss) :: post ∧
      ∀ y ∈ pre ++ post, y.target? ≠ some x.miss := by
  induction h generalizing path before with
  | done => cases hin
  | @act x back exit n s u t a next code more performs plain spoken size rest ih =>
    obtain ⟨-, hnext⟩ := hproper
    have hin' : some .conditionBody ∈ next.items := by
      rcases List.mem_cons.mp hin with hc | hin
      · cases plain _ hc.symm
      · exact hin
    obtain ⟨lead, cb, later, u', pre, post, hflat, hlead, hcb, hall, hlength, rfl, htargets⟩ :=
      ih hnext hin' (fun hmem => hlabel (List.mem_append_right _ hmem)) hfar hback
    refine ⟨.act a lead, cb, later, u', code ++ pre, post, ?_, ⟨plain, hlead⟩, hcb,
      .cons performs hall, ?_, by simp, fun y hy => ?_⟩
    · rw [BlockTree.flatten, hflat]
      rfl
    · have hact : (BlockTree.act a next).continuesChain = false := rfl
      rw [hlength, size, hnext.apart_of_plain plain, hact, List.length_append]
      simp only [Bool.toNat_false]
      omega
    · rw [List.append_assoc] at hy
      rcases List.mem_append.mp hy with hy | hy
      · intro htarget
        rcases spoken.lands y hy _ htarget with hmem | hout
        · exact hlabel (List.mem_append_left _ hmem)
        · exact hfar hout
      · exact htargets y hy
  | @block x back exit exit' inner n c s u₁ u₂ u₃ t o b items next g₁ g f frames pre mid more around
      inside ends further rest ihin ih =>
    obtain ⟨hallowed, hitems, hfinished, hnext⟩ := hproper
    rw [around.opener] at hallowed hitems hfinished hnext
    by_cases hc : c = .conditionBody
    · subst hc
      have hmore : some .conditionBody ∉ next.items := by
        refine hnext.no_second_body (List.mem_append_left _ (List.mem_of_getLast? hallowed.2)) ?_
        rw [List.getLast?_concat]
        simp
      obtain rfl := around.opened.conditionBody_lines
      refine ⟨.done, o, items.flatten ++ b :: next.flatten, u₁, [], mid ++
        insertedLines .conditionBody next back exit' ++ g.closeLines ++ more, rfl, trivial,
        around.opener, .cons around.first (.nil _ _), ?_, by simp, fun y hy htarget => ?_⟩
      · rw [around.continues next, around.size]
        rfl
      · have hown : .label x.miss ∉ [Line.code (.jumpIfFalse x.miss)] ++ g.closeLines := fun hmem =>
          hlabel (by
            rcases List.mem_append.mp hmem with hmem | hmem
            · cases List.mem_singleton.mp hmem
            · simp [hmem])
        obtain ⟨hout, hmiss⟩ := around.exits_inside x.miss
        simp only [List.nil_append, List.mem_append, or_assoc] at hy
        rcases hy with hy | hy | hy | hy
        · rcases inside.lands hitems y hy _ htarget with hmem | hcase | hcase | ⟨hcase, -⟩
          · exact hlabel (by simp [hmem])
          · exact (hout (.inl hcase)).elim hown hfar
          · exact (hout (.inr hcase)).elim hown hfar
          · exact (hmiss hcase).elim hown fun h => by cases h.1
        · unfold insertedLines at hy
          dsimp only at hy
          split_ifs at hy
          · obtain ⟨k, hk, rfl⟩ := List.mem_map.mp hy
            exact hback (by rw [Option.mem_toList.mp hk]; exact htarget)
          · cases hy
        · rcases lands_closeLines g y hy _ htarget with hmem | ⟨hfor, -⟩
          · exact hlabel (by simp [hmem])
          · cases hfor.symm.trans around.construct
        · rcases rest.lands hnext y hy _ htarget with hmem | hcase | hcase | ⟨-, hcase⟩
          · exact hlabel (by simp [hmem])
          · exact hfar hcase
          · exact hback hcase
          · exact hmore hcase
    · have hin' : some .conditionBody ∈ next.items := by
        rcases List.mem_cons.mp hin with hcase | hin
        · rw [around.opener] at hcase
          exact absurd (Option.some.inj hcase).symm hc
        · exact hin
      have hdone : next.isDone = false := by
        cases next with
        | done => cases hin'
        | act => rfl
        | block => rfl
      obtain ⟨lead, cb, later, u', pre', post, hflat, hlead, hcb, hall, hlength, rfl, htargets⟩ :=
        ih hnext hin' (fun hmem => hlabel (List.mem_append_right _ hmem)) hfar hback
      refine ⟨.block o items b lead, cb, later, u',
        pre ++ mid ++ insertedLines c next back exit' ++ g.closeLines ++ pre', post, ?_,
        ⟨⟨c, around.opener, around.opens⟩, inside.nested, around.closer, hlead⟩, hcb, ?_, ?_, by simp, fun y hy => ?_⟩
      · simp [BlockTree.flatten, hflat]
      · have hpath : (BlockTree.block o items b lead).flatten ++ [cb] =
            o :: (items.flatten ++ b :: (lead.flatten ++ [cb])) := by simp [BlockTree.flatten]
        rw [hpath]
        exact .cons around.first (inside.performsAll.append (.cons around.last hall))
      · have hblock := around.length_part (inside.length hitems) hitems hfinished hnext hdone back exit'
        rw [around.continues next, hlength, List.length_append]
        omega
      · rw [List.append_assoc] at hy
        rcases List.mem_append.mp hy with hy | hy
        · intro htarget
          rcases around.lands next back exit' (inside.lands hitems) y hy _ htarget with
            hmem | hcase | hcase | ⟨-, hcase | ⟨rfl, hcase⟩⟩ | ⟨hgoes, hcase⟩
          · exact hlabel (List.mem_append_left _ hmem)
          · exact hfar hcase
          · exact hback hcase
          · exact hc hcase
          · exact hitems.no_body_of_block hcase
          · exact hlabel (List.mem_append_right _ (hcase ▸ rest.label_exit hgoes))
        · exact htargets y hy

/-! ## The ends of the branches -/

/-- The code has, for a branch of a chain that is not the last one, the jump to the end of the chain right
before the end of the branch, and no line goes to the end of the branch except the jump of its condition
body. The actions `acts` come before the branch, and `m` lines before the code. -/
inductive BranchExit (env : Environment) (n : Nat) (s : LowerState) (m : Nat) (chainEnd : InstrId)
    (acts : List Action) (b : Branch) (code : List Line) : Prop where
  | intro {e : InstrId} {u v : LowerState} {lead : BlockTree} {cb : Action} {rest : List Action}
      {pre post pre' post' : List Line} (closed : PerformsAll env n (acts ++ b.actions) s u)
      (ending : u.closedEnd? = some e) (apart : e ≠ chainEnd)
      (jump : code = pre ++ .code (.jump chainEnd) :: .label e :: post)
      (items : b.items.flatten = lead.flatten ++ cb :: rest) (nested : lead.Nested)
      (body : cb.construct? = some .conditionBody)
      (entered : PerformsAll env n (acts ++ b.opener :: (lead.flatten ++ [cb])) s v)
      (position : v.body.length = m + pre'.length + 1)
      (test : code = pre' ++ .code (.jumpIfFalse e) :: post')
      (only : ∀ y ∈ pre' ++ post', y.target? ≠ some e) : BranchExit env n s m chainEnd acts b code

/-- More lines before, that jump to no end of a branch. -/
lemma BranchExit.prepend {n' m m' : Nat} {u : LowerState} {chainEnd : InstrId} {acts before : List Action}
    {b : Branch} {part more : List Line} (h : BranchExit env n' u m' chainEnd acts b more)
    (hall : PerformsAll env n before s u) (hn : n' = n + before.length)
    (hm : m' = m + part.length)
    (hpart : ∀ y ∈ part, ∀ l, y.target? = some l → .label l ∈ more → l = chainEnd) :
    BranchExit env n s m chainEnd (before ++ acts) b (part ++ more) := by
  subst hn hm
  obtain @⟨e, u', v, lead, cb, rest, pre, post, pre', post', closed, ending, apart, jump, items, nested, body,
    entered, position, test, only⟩ := h
  have hlabel : .label e ∈ more := by
    rw [jump]
    simp
  have hjump : part ++ more = (part ++ pre) ++ .code (.jump chainEnd) :: .label e :: post := by
    rw [jump, List.append_assoc]
  have htest : part ++ more = (part ++ pre') ++ .code (.jumpIfFalse e) :: post' := by
    rw [test, List.append_assoc]
  have hclosed := hall.append closed
  have hentered := hall.append entered
  rw [← List.append_assoc] at hclosed hentered
  refine .intro hclosed ending apart hjump items nested body hentered ?_ htest ?_
  · rw [position, List.length_append]
    omega
  · intro y hy htarget
    rw [List.append_assoc] at hy
    rcases List.mem_append.mp hy with hy | hy
    · exact apart (hpart y hy e htarget hlabel)
    · exact only y hy htarget

/-- A branch ends with its label. -/
lemma Shuts.closeLines_eq_of_branch (h : Shuts s g f frames t) (hg : g.construct? = some c)
    (hc : c = .ifBranch ∨ c.continuesChain = true) :
    ∃ l, g.endLabel = some l ∧ g.closeLines = [.label l] := by
  rw [← Option.some_inj] at hc
  refine h.closeLines_eq ?_ ?_ ?_ <;> rw [hg] <;> rintro ⟨⟩ <;> rcases hc with hc | hc <;> cases hc

/-- The end of a block that was closed last. -/
lemma Shuts.closedEnd?_eq (h : Shuts s g f frames t) : t.closedEnd? = g.endLabel := by
  unfold LowerState.closedEnd?
  rw [h.frames]
  rfl

/-- A branch that another one follows has a jump out of the chain before its end, to which only its
condition body jumps. -/
lemma branch_exit {b : Branch} {k : Construct} {u₁ u₂ u₃ : LowerState} {g₁ : Frame}
    {inner chainEnd e : InstrId} {mid more : List Line} (hk : k = .ifBranch ∨ k = .elseIf)
    (around : Around env x n k b.opener b.items b.closer s u₁ u₂ u₃ g₁ g f frames [])
    (inside : CodeOf env (x.inside g) (if k = .whileLoop then g.startLabel else none) inner (n + 1)
      u₁ b.items u₂ mid) (hitems : b.items.Proper (some k :: path) [])
    (hfinished : BlockTree.Finished (some k) b.items.items) (he : g.endLabel = some e)
    (honce : Once (mid ++ .code (.jump chainEnd) :: .label e :: more)) (hout : ¬ x.Far e)
    (hend : .label chainEnd ∈ more) (hmore : ∀ y ∈ more, y.target? ≠ some e) :
    BranchExit env n s (s.body.length + k.continuesChain.toNat) chainEnd [] b
      (mid ++ .code (.jump chainEnd) :: .label e :: more) := by
  have hmiss : (x.inside g).miss = e := by simp [Exits.inside, he]
  have hapart : e ≠ chainEnd := by
    rintro rfl
    have htail : Once ([.code (.jump e), .label e] ++ more) := honce.right
    exact htail.not_mem (by simp) hend
  have hfar : ¬ (x.inside g).Far e := by
    rwa [around.far_inside (by rcases hk with rfl | rfl <;> rfl)
      (by rcases hk with rfl | rfl <;> exact nofun)]
  obtain ⟨lead, cb, later, v, pre, post, hflat, hlead, hcb, hentered, hposition, rfl, honly⟩ :=
    inside.body_jump hitems (hfinished.1 ⟨k, rfl, by rcases hk with rfl | rfl <;> rfl⟩)
      (by rw [hmiss]; exact fun hmem => honce.not_mem hmem (by simp)) (by rwa [hmiss])
      (by rcases hk with rfl | rfl <;> exact nofun)
  rw [hmiss] at honly ⊢
  have htest : pre ++ .code (.jumpIfFalse e) :: post ++ .code (.jump chainEnd) :: .label e :: more =
      pre ++ .code (.jumpIfFalse e) :: (post ++ .code (.jump chainEnd) :: .label e :: more) := by simp
  refine .intro (.cons around.first (inside.performsAll.append (.cons around.last (.nil _ _))))
    (around.shuts.closedEnd?_eq.trans he) hapart rfl hflat hlead hcb (.cons around.first hentered) ?_
    htest ?_
  · rw [hposition, hitems.apart_of_nil, around.size]
    simp
  · intro y hy htarget
    simp only [List.mem_append, List.mem_cons] at hy
    rcases hy with hy | hy | rfl | rfl | hy
    · exact honly y (List.mem_append_left _ hy) htarget
    · exact honly y (List.mem_append_right _ hy) htarget
    · exact hapart (Option.some.inj htarget).symm
    · cases htarget
    · exact hmore y hy htarget

/-- In the code of a chain, the jumps before the ends of the branches go to the end of the chain, which
comes after the lines of all branches. -/
lemma CodeOf.chain_exits {b : Branch} {branches : List Branch}
    (h : CodeOf env x back exit n s (.chain (b :: branches) next) t code)
    (hproper : (BlockTree.chain (b :: branches) next).Proper path before)
    (hb : b.opener.construct? = some c) (hc : c = .ifBranch ∨ c.continuesChain = true)
    (hbranches : ∀ b' ∈ branches, ∃ c, b'.opener.construct? = some c ∧ c.continuesChain = true)
    (hnext : next.continuesChain = false) (honce : Once code)
    (hout : ∀ l, .label l ∈ code → ¬ x.Out back l) :
    ∃ chainEnd u pre post, (c.continuesChain = true → exit = chainEnd) ∧
      PerformsAll env n ((b :: branches).flatMap Branch.actions) s u ∧
      u.closedEnd? = some chainEnd ∧ code = pre ++ .label chainEnd :: post ∧
      u.body.length = s.body.length + c.continuesChain.toNat + pre.length + 1 ∧
      ∀ l b' l', b :: branches = l ++ b' :: l' → l' ≠ [] →
        BranchExit env n s (s.body.length + c.continuesChain.toNat) chainEnd (l.flatMap Branch.actions)
          b' code := by
  induction branches generalizing b c n s code exit before with
  | nil =>
    rw [BlockTree.chain, BlockTree.chain] at h hproper
    obtain ⟨-, hitems, hfinished, -⟩ := hproper
    cases h with
    | @block _ _ _ exit' _ _ k _ u₁ u₂ u₃ _ _ _ _ _ g₁ g f frames pre mid more around inside ends
        further rest =>
      obtain rfl := Option.some.inj (around.opener.symm.trans hb)
      rw [around.opener] at hitems hfinished
      obtain ⟨e, he, hclose⟩ := around.shuts.closeLines_eq_of_branch around.construct hc
      obtain rfl := Option.some.inj (he.symm.trans (ends hc.symm hnext))
      obtain rfl := around.opened.branch_lines hc
      have hblock := around.length (inside.length hitems) hitems hfinished
      refine ⟨e, u₃, mid, more, further, ?_, around.shuts.closedEnd?_eq.trans he, ?_, ?_, ?_⟩
      · rw [List.flatMap_singleton]
        exact .cons around.first (inside.performsAll.append (.cons around.last (.nil _ _)))
      · have hnone : insertedLines k next back e = [] := by
          unfold insertedLines
          rw [hnext]
          rcases hc with rfl | hc
          · rfl
          · cases k <;> first | rfl | cases hc
        rw [hclose, hnone]
        simp
      · rw [hblock, hclose]
        simp
      · intro l b' l' hsplit hl'
        cases l with
        | nil => exact absurd (List.cons.inj hsplit).2.symm hl'
        | cons b₀ l => simp at hsplit
  | cons b₂ branches ih =>
    rw [BlockTree.chain] at h hproper
    obtain ⟨-, hitems, hfinished, hrest⟩ := hproper
    obtain ⟨c₂, hb₂, hc₂⟩ := hbranches b₂ (List.mem_cons_self ..)
    have hgoes : (BlockTree.chain (b₂ :: branches) next).continuesChain = true := by
      simp [BlockTree.chain, BlockTree.continuesChain, hb₂, hc₂]
    cases h with
    | @block _ _ _ exit' _ _ k _ u₁ u₂ u₃ _ _ _ _ _ g₁ g f frames pre mid more around inside ends
        further rest =>
      obtain rfl := Option.some.inj (around.opener.symm.trans hb)
      rw [around.opener] at hitems hfinished hrest
      obtain ⟨e, he, hclose⟩ := around.shuts.closeLines_eq_of_branch around.construct hc
      obtain rfl := around.opened.branch_lines hc
      obtain ⟨chainEnd, u, P, Q, hexit, hall, hend, rfl, hlength, hexits⟩ := ih rest hrest hb₂ (.inr hc₂)
        (fun b' hb' => hbranches b' (List.mem_cons_of_mem _ hb')) honce.right
        (fun l hl => hout l (List.mem_append_right _ hl))
      obtain rfl := hexit hc₂
      have hk : k = .ifBranch ∨ k = .elseIf := by
        have hlast := hrest.last_of_continues hgoes
        rw [List.getLast?_concat] at hlast
        simpa using hlast
      have hinserted : insertedLines k (BlockTree.chain (b₂ :: branches) next) back exit' =
          [.code (.jump exit')] := by
        unfold insertedLines
        rw [hgoes]
        rcases hk with rfl | rfl <;> rfl
      have hblock := around.length (inside.length hitems) hitems hfinished
      have hpart := around.lands (.chain (b₂ :: branches) next) back exit' (inside.lands hitems)
      have hmine : PerformsAll env n b.actions s u₃ :=
        .cons around.first (inside.performsAll.append (.cons around.last (.nil _ _)))
      rw [hinserted, hclose] at hpart honce hout ⊢
      rw [hclose] at hblock
      have hindex : n + 1 + b.items.flatten.length + 1 = n + b.actions.length := by
        simp only [Branch.actions, List.length_cons, List.length_append, List.length_nil]
        omega
      rw [hindex] at hall hexits
      refine ⟨exit', u, [] ++ mid ++ [.code (.jump exit')] ++ [.label e] ++ P, Q, further,
        hmine.append hall, hend, by simp, ?_, ?_⟩
      · rw [hlength, hblock, hc₂]
        simp only [List.length_append, List.length_cons, List.length_nil, Bool.toNat_true]
        omega
      · intro l b' l' hsplit hl'
        cases l with
        | nil =>
          obtain ⟨rfl, rfl⟩ := List.cons.inj hsplit
          have hcode : [] ++ mid ++ [.code (.jump exit')] ++ [.label e] ++ (P ++ .label exit' :: Q) =
              mid ++ .code (.jump exit') :: .label e :: (P ++ .label exit' :: Q) := by simp
          obtain ⟨hfar, hnear, hback⟩ := Exits.not_out.mp (hout e (by simp))
          have hlater : ∀ y ∈ P ++ .label exit' :: Q, y.target? ≠ some e := by
            intro y hy htarget
            rcases rest.lands hrest y hy e htarget with hmem | hcase | hcase | ⟨hcase, -⟩
            · exact honce.not_mem (by simp) hmem
            · exact hfar hcase
            · exact hback hcase
            · exact hnear hcase
          rw [hcode] at honce ⊢
          exact branch_exit hk around inside hitems hfinished he honce hfar (by simp) hlater
        | cons b₀ l =>
          obtain ⟨rfl, hothers⟩ := List.cons.inj hsplit
          refine (hexits l b' l' hothers hl').prepend hmine rfl ?_ ?_
          · rw [hblock, hc₂]
            simp only [List.length_append, List.length_cons, List.length_nil, Bool.toNat_true]
            omega
          · intro y hy l₀ htarget hmem
            obtain ⟨hfar, hmiss, hback⟩ := Exits.not_out.mp (hout l₀ (List.mem_append_right _ hmem))
            rcases hpart y hy l₀ htarget with hcase | hcase | hcase | ⟨hcase, -⟩ | ⟨-, hcase⟩
            · exact absurd hmem (honce.not_mem hcase)
            · exact absurd hcase hfar
            · exact absurd hcase hback
            · exact absurd hcase hmiss
            · exact hcase

/-! ## Chains in a body -/

/-- The state in which the first actions of a body have been lowered. -/
def stateAfter? (env : Environment) (s : LowerState) (l : List Action) : Option LowerState :=
  match lowerActions env 0 l (rooted s) with
  | .ok _ t => some t
  | .error _ _ => none

lemma PerformsAll.stateAfter?_eq {l : List Action} (h : PerformsAll env 0 l (rooted s) t) :
    stateAfter? env s l = some t := by
  unfold stateAfter?
  rw [h.lowerActions_eq]

lemma mem_of_getElem?_ne {α : Type} {pre post : List α} {z y : α} {i : Nat}
    (h : (pre ++ z :: post)[i]? = some y) (hi : i ≠ pre.length) : y ∈ pre ++ post := by
  rcases Nat.lt_or_gt_of_ne hi with hlt | hgt
  · rw [List.getElem?_append_left hlt] at h
    exact List.mem_append_left _ (List.mem_of_getElem? h)
  · obtain ⟨k, rfl⟩ := Nat.exists_eq_add_of_lt hgt
    rw [List.getElem?_append_right (by omega), show pre.length + k + 1 - pre.length = k + 1 by omega,
      List.getElem?_cons_succ] at h
    exact List.mem_append_right _ (List.mem_of_getElem? h)

end Lower

open Lower in
/-- The ends of the branches of a chain in the method of its body, for every accepted body. When the last
branch has been closed, its end is the last line. For every other branch, the line right before its end
is a jump to the end of the last branch, and one line goes to its end: the conditional jump that was laid
last when the condition body of the branch itself had been opened. -/
theorem chain_exits_go_to_its_end {r : Registry} {documents : ActionGroup → Prop}
    (hr : r.Grown documents) (options : CompileOptions) {tree next : BlockTree} (htree : tree.Nested)
    (hplain : ∀ a ∈ tree.flatten, a.NoAddress) {branches : List Branch} {before : List Action}
    (hchain : Branch.IsChain branches) (hnext : next.continuesChain = false)
    (hwithin : (BlockTree.chain branches next).Within tree before) {s t : LowerState} (hs : s.Idle)
    (hm : s.method < s.program.methods.size)
    (hrun : lowerBody ⟨r, options⟩ tree.flatten s = .ok ⟨⟩ t) (herrors : t.errors = #[]) :
    ∃ u chainEnd j,
      stateAfter? ⟨r, options⟩ s (before ++ branches.flatMap Branch.actions) = some u ∧
      u.closedEnd? = some chainEnd ∧ u.body.length = j + 1 ∧
      (t.program.lines s.method)[j]? = some (.label chainEnd) ∧
      ∀ l b l', branches = l ++ b :: l' → l' ≠ [] → ∃ v e i,
        stateAfter? ⟨r, options⟩ s (before ++ l.flatMap Branch.actions ++ b.actions) = some v ∧
        v.closedEnd? = some e ∧ (t.program.lines s.method)[i]? = some (.code (.jump chainEnd)) ∧
        (t.program.lines s.method)[i + 1]? = some (.label e) ∧
        ∃ lead cb rest w k, b.items.flatten = BlockTree.flatten lead ++ cb :: rest ∧ lead.Nested ∧
          Action.construct? cb = some .conditionBody ∧
          stateAfter? ⟨r, options⟩ s
            (before ++ l.flatMap Branch.actions ++ b.opener :: (lead.flatten ++ [cb])) = some w ∧
          w.body.length = k + 1 ∧
          (t.program.lines s.method)[k]? = some (.code (.jumpIfFalse e)) ∧
          ∀ k' y, (t.program.lines s.method)[k']? = some y → y.target? = some e → k' = k := by
  have hsound := (hr.orderly False.elim options hplain).sound
  obtain ⟨u₀, x, code, hbody⟩ := lowerBody_code hsound (hr.namesConstructs options) htree hplain hs hm hrun
    herrors
  obtain _ | ⟨b₀, branches⟩ := branches
  · cases hchain
  obtain ⟨hb₀, hothers⟩ := hchain
  have hfirst : (BlockTree.chain (b₀ :: branches) next).continuesChain = false := by
    simp [BlockTree.chain, BlockTree.continuesChain, hb₀, Construct.continuesChain]
  obtain ⟨v, x', back, exit, pre, mid, post, hlines, hpart⟩ := hbody.part hs hm hwithin rfl
  obtain ⟨w, hcode⟩ := hpart.codeOf
  obtain ⟨path, items, hproper⟩ := hpart.proper
  have honce : Once mid := by
    have honce := hpart.once
    rw [List.append_assoc] at honce
    exact honce.right.left
  obtain ⟨chainEnd, u, P, Q, -, hall, hend, hmid, hlength, hexits⟩ :=
    hcode.chain_exits hproper hb₀ (.inl rfl) hothers hnext honce hpart.out
  have hstart : v.body.length = pre.length := by simpa [hfirst] using hpart.length
  have hstate : ∀ {l w}, PerformsAll ⟨r, options⟩ before.length l v w →
      stateAfter? ⟨r, options⟩ s (before ++ l) = some w := fun h =>
    (hpart.performs.append (by rwa [Nat.zero_add])).stateAfter?_eq
  refine ⟨u, chainEnd, pre.length + P.length, hstate hall, hend, ?_, ?_, fun l b l' hsplit hl' => ?_⟩
  · rw [hlength, hstart]
    rfl
  · rw [hlines, hmid]
    simp
  · obtain @⟨e, w₁, w₂, lead, cb, rest, P₁, Q₁, P₂, Q₂, closed, ending, -, jump, hitems, nested, body, entered,
      position, test, only⟩ := hexits l b l' hsplit hl'
    have hclosed := hstate closed
    have hentered := hstate entered
    rw [← List.append_assoc] at hclosed hentered
    refine ⟨w₁, e, pre.length + P₁.length, hclosed, ending, ?_, ?_, lead, cb, rest, w₂,
      pre.length + P₂.length, hitems, nested, body, hentered, ?_, ?_, fun k' y hy htarget => ?_⟩
    · rw [hlines, jump]
      simp
    · have hlines' : t.program.lines s.method =
          (pre ++ P₁ ++ [.code (.jump chainEnd)]) ++ .label e :: (Q₁ ++ post) := by
        rw [hlines, jump]
        simp
      have hi : pre.length + P₁.length + 1 = (pre ++ P₁ ++ [Line.code (.jump chainEnd)]).length := by
        simp only [List.length_append, List.length_singleton]
      rw [hlines', hi]
      simp only [List.getElem?_append_right le_rfl, Nat.sub_self, List.getElem?_cons_zero]
    · rw [position, hstart]
      rfl
    · rw [hlines, test]
      simp
    · by_contra hk'
      have hlabel : .label e ∈ mid := by
        rw [jump]
        simp
      have hout : ∀ y ∈ pre ++ post, y.target? ≠ some e := fun y hy htarget => by
        have hgoes := (hpart.apart y hy e hlabel htarget).1
        rw [hfirst] at hgoes
        cases hgoes
      have hlines' : t.program.lines s.method =
          (pre ++ P₂) ++ .code (.jumpIfFalse e) :: (Q₂ ++ post) := by
        rw [hlines, test]
        simp
      rw [hlines'] at hy
      have hmem := mem_of_getElem?_ne hy (by rwa [List.length_append])
      simp only [List.mem_append] at hmem
      rcases hmem with (hmem | hmem) | hmem | hmem
      · exact hout y (List.mem_append_left _ hmem) htarget
      · exact only y (List.mem_append_left _ hmem) htarget
      · exact only y (List.mem_append_right _ hmem) htarget
      · exact hout y (List.mem_append_right _ hmem) htarget

/-- The jump out of an `If` that an `Else` follows. -/
theorem chain_exits_go_to_its_end_of_else :
    ∃ t chainEnd e i, Lower.lowerBody ⟨Registry.builtin, {}⟩
        [{ id := "Log", inputs := [.constant (.int32 0)] }, { id := "If" }, { id := "Condition" },
          { id := "BlockEnd" }, { id := "ConditionBody" }, { id := "BlockEnd" }, { id := "BlockEnd" },
          { id := "Else" }, { id := "Log", inputs := [.constant (.int32 1)] }, { id := "BlockEnd" }]
        { program := { methods := #[{ name := "_start", kind := .entry }] } } = .ok ⟨⟩ t ∧
      (t.program.lines 0)[i]? = some (.code (.jump chainEnd)) ∧
      (t.program.lines 0)[i + 1]? = some (.label e) := by
  set s : LowerState := { program := { methods := #[{ name := "_start", kind := .entry }] } } with hs
  set close : Action := { id := "BlockEnd" }
  set zero : Action := { id := "Log", inputs := [.constant (.int32 0)] }
  set one : Action := { id := "Log", inputs := [.constant (.int32 1)] }
  let ifBranch : Branch := ⟨{ id := "If" }, .block { id := "Condition" } .done close
    (.block { id := "ConditionBody" } .done close .done), close⟩
  let elseBranch : Branch := ⟨{ id := "Else" }, .act one .done, close⟩
  set tree : BlockTree := .act zero (.chain [ifBranch, elseBranch] .done)
  have hruns : ((outcome? (Lower.lowerBody ⟨Registry.builtin, {}⟩ tree.flatten s)).any fun x =>
      x.2.errors.isEmpty) = true := by
    decide +kernel
  obtain ⟨⟨⟩, t, hrun, herrors⟩ := exists_outcome_of_any hruns
  have hsite : s.Idle := ⟨Site.sound_empty.addMethod "_start" .entry, rfl, rfl, by simp [hs], by simp [hs],
    by simp [hs], by simp [hs, LowerState.Merged]⟩
  have hlogs : zero.construct? = none ∧ one.construct? = none := by decide
  have hnested : tree.Nested :=
    ⟨by simp [hlogs], ⟨.ifBranch, by decide, rfl⟩, ⟨⟨.condition, by decide, rfl⟩, trivial, by decide,
      ⟨.conditionBody, by decide, rfl⟩, trivial, by decide, trivial⟩, by decide,
      ⟨.elseBranch, by decide, rfl⟩, ⟨by simp [hlogs], trivial⟩, by decide, trivial⟩
  have hgrown : Registry.builtin.Grown fun _ => True := .builtin
  have hchain : Branch.IsChain [ifBranch, elseBranch] :=
    ⟨by decide, by simpa [elseBranch] using ⟨.elseBranch, by decide, rfl⟩⟩
  have hplain : ∀ a ∈ tree.flatten, ∀ b ∈ a.inputs ++ a.targets, b.holdsAddress = false := by decide
  obtain ⟨u, chainEnd, j, -, -, -, -, hexits⟩ := chain_exits_go_to_its_end hgrown {} hnested hplain hchain
    rfl (.act .here) hsite (by decide) hrun (Array.isEmpty_iff.mp herrors)
  obtain ⟨v, e, i, -, -, hjump, hlabel, -⟩ := hexits [] ifBranch [elseBranch] rfl (by simp)
  exact ⟨t, chainEnd, e, i, hrun, hjump, hlabel⟩

end TriggerCompiler
