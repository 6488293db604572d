import Mathlib
import TriggerCompiler.Proofs.Methods
import TriggerCompiler.Proofs.Registry

/-!
# The block grammar

Which lists of actions are well placed is said without the flags that lowering keeps: by the blocks
around an item and by the items before it. Main statement: over built-in actions with well-typed
constants, lowering a body succeeds on exactly the lists of the grammar, and on any other it reports
a construct that is out of place.
-/

namespace TriggerCompiler

variable {c : Option Construct}

namespace BlockTree

/-- Whether the innermost block is one that a condition steers. -/
def Steered (path : List (Option Construct)) : Prop :=
  ∃ c, path.head? = some (some c) ∧ c.takesCondition = true

/-- Whether an item may come after the given ones, inside of the blocks of a path, the innermost
first. -/
def Allowed (path before : List (Option Construct)) : Option Construct → Prop
  | some .condition => Steered path ∧ some .condition ∉ before
  | some .conditionBody => Steered path ∧ before.getLast? = some (some .condition)
  | some .elseIf | some .elseBranch =>
    before.getLast? = some (some .ifBranch) ∨ before.getLast? = some (some .elseIf)
  | some .passIfTrue | some .failIfFalse => some .condition ∈ path
  | some .breakLoop | some .continueLoop => ∃ c, some c ∈ path ∧ c.isLoop = true
  | _ => True

/-- Whether these are all the items that a block of the construct needs: one that a condition steers
has a condition body, and a tested loop ends with it. -/
def Finished (c : Option Construct) (items : List (Option Construct)) : Prop :=
  (Steered [c] → some .conditionBody ∈ items) ∧
    (c = some .whileLoop → items.getLast? = some (some .conditionBody))

/-- Whether all items are placed as the grammar asks for, after the given ones. -/
def Proper : BlockTree → List (Option Construct) → List (Option Construct) → Prop
  | done, _, _ => True
  | act a next, path, before =>
    Allowed path before a.construct? ∧ next.Proper path (before ++ [a.construct?])
  | block opener inner _ next, path, before =>
    Allowed path before opener.construct? ∧ inner.Proper (opener.construct? :: path) [] ∧
      Finished opener.construct? inner.items ∧ next.Proper path (before ++ [opener.construct?])

end BlockTree

/-- The lists of actions that are well nested and in which every construct is well placed. -/
def Grammatical (l : List Action) : Prop :=
  ∃ t : BlockTree, t.Nested ∧ t.flatten = l ∧ t.Proper [none] []

namespace Shape

open BlockTree

/-! ## What a shape remembers -/

/-- The shape of a block after some items. -/
def after (c : Option Construct) (items : List (Option Construct)) : Shape where
  construct := c
  previous := items.getLast?.join
  sawCondition := some .condition ∈ items
  sawConditionBody := some .conditionBody ∈ items

lemma takesCondition_iff (x : Shape) (path : List (Option Construct)) :
    x.takesCondition = true ↔ Steered (x.construct :: path) := by
  unfold takesCondition Steered
  cases x.construct <;> simp

lemma isLoop_iff (x : Shape) : x.isLoop = true ↔ ∃ c, x.construct = some c ∧ c.isLoop = true := by
  unfold isLoop
  cases x.construct <;> simp

lemma any_condition_iff (stack : List Shape) :
    stack.any (·.construct = some .condition) = true ↔
      some .condition ∈ stack.map (·.construct) := by
  rw [List.any_eq_true, List.mem_map]
  exact exists_congr fun x => and_congr_right fun _ => decide_eq_true_iff

lemma any_isLoop_iff (stack : List Shape) :
    stack.any isLoop = true ↔ ∃ c, some c ∈ stack.map (·.construct) ∧ c.isLoop = true := by
  rw [List.any_eq_true]
  constructor
  · rintro ⟨x, hx, hloop⟩
    obtain ⟨c, hc, hloop⟩ := x.isLoop_iff.mp hloop
    exact ⟨c, List.mem_map.mpr ⟨x, hx, hc⟩, hloop⟩
  · rintro ⟨c, hc, hloop⟩
    obtain ⟨x, hx, hc⟩ := List.mem_map.mp hc
    exact ⟨x, hx, x.isLoop_iff.mpr ⟨c, hc, hloop⟩⟩

lemma previous_after {items : List (Option Construct)} {k : Construct} :
    (after c items).previous = some k ↔ items.getLast? = some (some k) := by
  unfold after
  exact Option.join_eq_some_iff

/-- An item is accepted if the grammar allows it. -/
lemma accepts_iff {p : Option Construct} {items : List (Option Construct)} {rest : List Shape}
    (hc : c ≠ some .blockEnd) :
    accepts c (after p items :: rest) = true ↔
      Allowed (p :: rest.map (·.construct)) items c := by
  cases c with
  | none => simp [accepts, Allowed]
  | some c =>
    unfold accepts
    cases c with
    | elseIf | elseBranch =>
      rw [admits_chain (by simp), previous_after, previous_after]
      rfl
    | condition =>
      rw [admits_condition, takesCondition_iff _ (rest.map (·.construct))]
      simp [Allowed, after]
    | conditionBody =>
      rw [admits_conditionBody, takesCondition_iff _ (rest.map (·.construct)), previous_after]
      exact and_comm
    | passIfTrue | failIfFalse => exact any_condition_iff _
    | breakLoop | continueLoop => exact any_isLoop_iff _
    | blockEnd => exact absurd rfl hc
    | _ => simp [admits, Allowed]

/-- A block may be closed if its items are all that it needs. -/
lemma isComplete_after (c : Option Construct) (items : List (Option Construct)) :
    (after c items).isComplete = true ↔ Finished c items := by
  unfold isComplete Finished
  rw [Bool.and_eq_true, Bool.or_eq_true, Bool.or_eq_true, Bool.not_eq_true', ← Bool.not_eq_true,
    ← imp_iff_not_or, takesCondition_iff _ [], decide_eq_true_iff, decide_eq_true_iff,
    ← imp_iff_not_or, previous_after]
  simp [after]

/-! ## What an item does -/

lemma follow_plain (h : ∀ k, c = some k → k.affectsBlocks = false) (p : Option Construct)
    (items : List (Option Construct)) (rest : List Shape) :
    follow c (after p items :: rest) = after p (items ++ [c]) :: rest := by
  cases c with
  | none => simp [follow, after]
  | some k =>
    have hk := h k rfl
    cases k with
    | blockEnd => cases hk
    | passIfTrue | failIfFalse | breakLoop | continueLoop | returnEvent | setVariable
      | localVariable => simp [follow, after, Construct.opensBlock]
    | _ => cases hk

lemma follow_opens {c : Construct} (h : c.opensBlock = true) (x : Shape) (rest : List Shape) :
    follow (some c) (x :: rest) = after (some c) [] :: around c x :: rest := by
  cases c with
  | ifBranch | elseIf | elseBranch | condition | conditionBody | whileLoop | forLoop | block => rfl
  | _ => cases h

lemma follow_blockEnd {c : Construct} (h : c.opensBlock = true) (p : Option Construct)
    (items inside : List (Option Construct)) (rest : List Shape) :
    follow (some .blockEnd) (after (some c) inside :: around c (after p items) :: rest) =
      after p (items ++ [some c]) :: rest := by
  cases c with
  | ifBranch | elseIf | elseBranch | condition | conditionBody | whileLoop | forLoop | block =>
    simp [follow, after, around]
  | _ => cases h

end Shape

namespace BlockTree

open Shape

/-- The items of a tree are read to the end if and only if they are placed as the grammar asks for,
and then the block remembers them. -/
lemma run_flatten_iff {t : BlockTree} (ht : t.Nested) (p : Option Construct)
    (items : List (Option Construct)) (rest final : List Shape) :
    run (t.flatten.map Action.construct?) (after p items :: rest) = some final ↔
      t.Proper (p :: rest.map (·.construct)) items ∧
        final = after p (items ++ t.items) :: rest := by
  induction t generalizing p items rest final with
  | done => simp [flatten, run, Proper, BlockTree.items, eq_comm]
  | act a next ih =>
    obtain ⟨ha, hnext⟩ := ht
    have hend : a.construct? ≠ some .blockEnd := fun h => by cases ha _ h
    rw [flatten, List.map_cons, run, Proper, BlockTree.items, ← accepts_iff hend]
    split_ifs with haccepts
    · rw [follow_plain ha, ih hnext]
      simp [haccepts]
    · simp [haccepts]
  | block opener inner closer next ihInner ihNext =>
    obtain ⟨⟨c, hc, hopens⟩, hinner, hcloser, hnext⟩ := ht
    have hend : opener.construct? ≠ some .blockEnd := by
      rw [hc]
      rintro ⟨⟩
      cases hopens
    have haround : ((around c (after p items) :: rest).map (·.construct)) =
        p :: rest.map (·.construct) := by
      rw [List.map_cons]
      congr 1
      cases c <;> rfl
    rw [flatten, List.map_cons, run, Proper, BlockTree.items, ← accepts_iff hend]
    split_ifs with haccepts
    · have hclose : ∀ l, run (some .blockEnd :: l)
          (after (some c) inner.items :: around c (after p items) :: rest) =
          if (after (some c) inner.items).isComplete then
            run l (after p (items ++ [some c]) :: rest) else none := by
        intro l
        rw [run, follow_blockEnd hopens]
        rfl
      rw [hc, follow_opens hopens, List.map_append, run_append, List.map_cons, hcloser,
        Option.bind_eq_some_iff]
      simp only [ihInner hinner, haround, List.nil_append]
      constructor
      · rintro ⟨_, ⟨hproper, rfl⟩, hrun⟩
        rw [hclose] at hrun
        split_ifs at hrun with hcomplete
        obtain ⟨hproper', hfinal⟩ := (ihNext hnext _ _ _ _).mp hrun
        refine ⟨⟨hc ▸ haccepts, hproper, (isComplete_after _ _).mp hcomplete, hproper'⟩, ?_⟩
        rw [hfinal, List.append_assoc]
        rfl
      · rintro ⟨⟨-, hproper, hfinished, hproper'⟩, rfl⟩
        refine ⟨_, ⟨hproper, rfl⟩, ?_⟩
        rw [hclose, if_pos ((isComplete_after _ _).mpr hfinished)]
        refine (ihNext hnext _ _ _ _).mpr ⟨hproper', ?_⟩
        rw [List.append_assoc]
        rfl
    · simp [haccepts]

/-- The lists that are read from the outermost block to itself are those of the grammar. -/
lemma grammatical_iff (l : List Action) :
    Grammatical l ↔ ∃ x, run (l.map Action.construct?) [{}] = some [x] := by
  constructor
  · rintro ⟨t, ht, rfl, hproper⟩
    exact ⟨_, (run_flatten_iff ht none [] [] _).mpr ⟨hproper, rfl⟩⟩
  · rintro ⟨x, hrun⟩
    obtain ⟨t, ht, rfl⟩ := exists_of_run hrun le_rfl
    exact ⟨t, ht, rfl, ((run_flatten_iff ht none [] [] _).mp hrun).1⟩

end BlockTree

/-! ## Constant bindings -/

/-- Whether a parameter that is read is bound to a constant of its type, and one that is written is
left out, where it may be. -/
def Parameter.TakesConstant (p : Parameter) (b : Binding) : Prop :=
  (p.direction = .into ∧ ∃ v, b = .constant v ∧ b.holdsAddress = false ∧
      ∀ type, p.type = some type → v.fits type = true) ∨
    (p.direction = .out ∧ p.onMissing = .placeholder ∧ b = .unbound)

/-- A built-in action all of whose bindings are well-typed constants. -/
structure Action.IsConstant (a : Action) (d : ActionDef) : Prop where
  found : Registry.builtin.findAction a.id a.group = .ok d
  targets : a.targets = []
  inputs : List.Forall₂ Parameter.TakesConstant d.parameters a.inputs
  step : d.construct? = some .forLoop → a.inputs[2]? ≠ some (.constant (.int32 0))

namespace Lower

variable {s t u : LowerState} {a : Action} {d : ActionDef} {p : Parameter} {b : Binding}

/-- The computation succeeds. -/
def Succeeds {α : Type} (s : LowerState) (x : Lower α) : Prop :=
  Ensures s x (fun _ _ => True) fun _ _ => False

lemma bindRead_succeeds (hdir : p.direction = .into) (h : p.TakesConstant b) (s : LowerState) :
    Succeeds s (bindRead b p) := by
  rcases h with ⟨-, v, rfl, -, hfits⟩ | ⟨hout, -⟩
  · unfold bindRead
    cases htype : p.type with
    | none => exact Ensures.of_ok rfl trivial
    | some type =>
      dsimp only
      rw [if_pos (hfits type htype)]
      exact Ensures.of_ok rfl trivial
  · rw [hdir] at hout
    cases hout

lemma bindWrite_succeeds (hdir : p.direction = .out) (h : p.TakesConstant b)
    (inferred : Option ValueType) (s : LowerState) : Succeeds s (bindWrite b p inferred) := by
  rcases h with ⟨hinto, -⟩ | ⟨-, hmissing, rfl⟩
  · rw [hdir] at hinto
    cases hinto
  · unfold bindWrite placeholder
    dsimp only
    rw [hmissing]
    exact Ensures.of_ok rfl trivial

/-- Binding well-typed constants cannot fail. -/
lemma bindInputs_succeeds {parameters : List Parameter} {inputs : List Binding}
    (h : List.Forall₂ Parameter.TakesConstant parameters inputs) (inferred : Option ValueType)
    (s : LowerState) : Succeeds s (bindInputs (parameters.zip inputs) inferred) := by
  induction h generalizing inferred s with
  | nil => exact Ensures.of_ok rfl trivial
  | @cons p b parameters inputs hp _ ih =>
    unfold List.zip at ih ⊢
    rw [List.zipWith_cons_cons, bindInputs]
    have hrest : ∀ id inferred t, Succeeds t (do
        let ids ← bindInputs (List.zipWith Prod.mk parameters inputs) inferred
        pure (id :: ids)) := fun id inferred t =>
      Ensures.bind (ih inferred t) fun _ _ _ _ => Ensures.of_ok rfl trivial
    split
    · rename_i hdir
      refine Ensures.bind (bindWrite_succeeds hdir hp inferred s) fun id t _ _ => ?_
      dsimp only
      split_ifs
      · exact hrest id _ t
      · exact hrest id _ t
    · rename_i hdir
      have hinto : p.direction = .into := hp.elim (·.1) fun h => absurd h.1 hdir
      refine Ensures.bind (bindRead_succeeds hinto hp s) fun id t _ _ => ?_
      dsimp only
      split_ifs
      · exact hrest id _ t
      · exact hrest id _ t

lemma bindAction_succeeds (ha : a.IsConstant d) (s : LowerState) :
    Succeeds s (bindAction d a) := by
  obtain ⟨-, htargets, hinputs, -⟩ := ha
  unfold bindAction
  extract_lets expected bind check
  rw [if_neg (by simp [expected, hinputs.length_eq])]
  unfold check
  rw [if_neg (by simp [htargets])]
  refine Ensures.bind (bindInputs_succeeds hinputs none s) fun ids t _ _ => ?_
  dsimp only
  split
  · rw [htargets]
    exact Ensures.of_ok rfl trivial
  · exact Ensures.of_ok rfl trivial

/-- The step of a counting loop is bound and not zero. -/
lemma checkStep_succeeds (ha : a.IsConstant d) (hd : d.construct? = some .forLoop)
    (s : LowerState) : Succeeds s (checkStep d a) := by
  obtain ⟨-, -, ⟨c, rfl⟩ | hcall⟩ := Registry.findAction_builtin ha.found
  · obtain rfl : c = .forLoop := Option.some.inj hd
    have hstep := ha.step hd
    obtain ⟨b₀, l₀, -, hl₀, h₀⟩ := List.forall₂_cons_left_iff.mp ha.inputs
    obtain ⟨b₁, l₁, -, hl₁, rfl⟩ := List.forall₂_cons_left_iff.mp hl₀
    obtain ⟨b₂, l₂, hb₂, -, rfl⟩ := List.forall₂_cons_left_iff.mp hl₁
    rw [h₀] at hstep
    obtain ⟨-, v, rfl, -⟩ | ⟨hout, -⟩ := hb₂
    · unfold checkStep
      rw [h₀]
      split_ifs
      · split
        · cases ‹some _ = some _›
        · exact absurd ‹_› hstep
        · exact Ensures.of_ok rfl trivial
      · exact Ensures.of_ok rfl trivial
    · cases hout
  · rw [(Registry.construct?_builtinCalls hcall).1] at hd
    cases hd

/-- No constant can be assigned to. -/
lemma construct?_ne_setVariable (ha : a.IsConstant d) : d.construct? ≠ some .setVariable := by
  intro hd
  obtain ⟨-, -, ⟨c, rfl⟩ | hcall⟩ := Registry.findAction_builtin ha.found
  · obtain rfl : c = .setVariable := Option.some.inj hd
    obtain ⟨b₀, l₀, -, hl₀, -⟩ := List.forall₂_cons_left_iff.mp ha.inputs
    obtain ⟨b₁, l₁, hb₁, -, -⟩ := List.forall₂_cons_left_iff.mp hl₀
    obtain ⟨hinto, -⟩ | ⟨-, hmissing, -⟩ := hb₁
    · cases hinto
    · cases hmissing
  · rw [(Registry.construct?_builtinCalls hcall).1] at hd
    cases hd

/-- With constant bindings an action can fail only because of where it stands. -/
lemma Failed.place_of_constant {e : CompileError} (h : Failed d a s e t) (ha : a.IsConstant d) :
    IsStructural e ∧ Shape.accepts a.construct? s.scopes.shapes = false := by
  rw [Registry.construct?_of_findAction ha.found]
  cases h with
  | binding error prepares cause =>
    rcases cause with hbind | ⟨hset, -⟩
    · exact ((bindAction_succeeds ha s).error hbind).elim
    · exact absurd hset (construct?_ne_setVariable ha)
  | step loop cause same error => exact ((checkStep_succeeds ha loop s).error cause).elim
  | place construct refused =>
    rw [construct]
    exact ⟨refused.error, refused.shapes⟩
  | group kind error errors => exact absurd kind (Registry.kind_ne_group ha.found _ _)

/-- What an action with constant bindings does depends only on where it stands. -/
lemma lowerAction_constant {options : CompileOptions} {index : Nat} (ha : a.IsConstant d)
    (hs : s.Settled) :
    Ensures s (lowerAction ⟨Registry.builtin, options⟩ index a)
      (fun _ t => t.Settled ∧ t.errors = s.errors ∧
        Shape.accepts a.construct? s.scopes.shapes = true ∧
        t.scopes.shapes = Shape.follow a.construct? s.scopes.shapes)
      fun e _ => IsStructural e ∧ Shape.accepts a.construct? s.scopes.shapes = false := by
  have hconstruct := Registry.construct?_of_findAction ha.found
  have hplain : ∀ b ∈ a.inputs ++ a.targets, b.holdsAddress = false := by
    intro b hb
    rw [ha.targets, List.append_nil] at hb
    obtain ⟨i, hi, rfl⟩ := List.mem_iff_getElem.mp hb
    obtain ⟨-, v, -, hv, -⟩ | ⟨-, -, hb⟩ := ha.inputs.get (ha.inputs.length_eq ▸ hi) hi
    · exact hv
    · exact (congrArg Binding.holdsAddress hb).trans rfl
  refine (lowerAction_ensures ha.found Registry.soundGroups_builtin hs
    (Registry.isPlain_of_mem (Registry.findAction_eq_ok ha.found)) hplain).mono ?_ ?_
  · rintro ⟨⟩ t ⟨hsettled, -, hshapes, ⟨u, -, -, -, herrors, hadmits⟩ | ⟨e, u, hfailed, -, hfatal⟩⟩
    · refine ⟨hsettled, herrors, ?_, hconstruct ▸ hshapes⟩
      rw [hconstruct]
      cases hc : d.construct? with
      | none => rfl
      | some c => exact hadmits c hc
    · obtain ⟨⟨reason, he⟩ | ⟨c, he⟩, -⟩ := hfailed.place_of_constant ha
      all_goals
        rw [he] at hfatal
        cases hfatal
  · rintro e t ⟨-, u, hfailed⟩
    exact hfailed.place_of_constant ha

/-- A list of actions with constant bindings is read as its constructs are. -/
lemma lowerActions_constant (options : CompileOptions) {index : Nat} {l : List Action}
    (hl : ∀ a ∈ l, ∃ d, a.IsConstant d) (hs : s.Settled) :
    Ensures s (lowerActions ⟨Registry.builtin, options⟩ index l)
      (fun _ t => t.Settled ∧ t.errors = s.errors ∧
        Shape.run (l.map Action.construct?) s.scopes.shapes = some t.scopes.shapes)
      fun e _ => IsStructural e ∧ Shape.run (l.map Action.construct?) s.scopes.shapes = none := by
  induction l generalizing s index with
  | nil => exact Ensures.of_ok rfl ⟨hs, rfl, rfl⟩
  | cons a l ih =>
    obtain ⟨d, ha⟩ := hl a List.mem_cons_self
    rw [List.map_cons, Shape.run, lowerActions]
    refine Ensures.bind ((lowerAction_constant ha hs).mono (fun _ _ h => h) ?_) ?_
    · rintro e t ⟨he, hrefused⟩
      rw [hrefused]
      exact ⟨he, rfl⟩
    · rintro ⟨⟩ u - ⟨hu, herrors, haccepts, hshapes⟩
      rw [haccepts, if_pos rfl, ← hshapes, ← herrors]
      exact ih (fun b hb => hl b (List.mem_cons_of_mem _ hb)) hu

/-- The structural checks accept exactly the block grammar. From any sound state between two bodies,
a list of built-in actions with constant bindings is lowered without complaint if and only if it is
of the grammar; otherwise something is out of place or not in a loop. -/
theorem lowerBody_succeeds_iff_grammatical (options : CompileOptions) (l : List Action)
    (hl : ∀ a ∈ l, ∃ d, a.IsConstant d) (s : LowerState) (hs : s.Sound)
    (hframes : s.scopes.frames = []) (hpending : s.pending = #[]) :
    ((∃ t, lowerBody ⟨Registry.builtin, options⟩ l s = .ok ⟨⟩ t) ↔ Grammatical l) ∧
      (∀ t, lowerBody ⟨Registry.builtin, options⟩ l s = .ok ⟨⟩ t → t.errors = s.errors) ∧
      ∀ e t, lowerBody ⟨Registry.builtin, options⟩ l s = .error e t →
        (∃ reason, e.kind = .misplaced reason) ∨ ∃ c, e.kind = .notInLoop c := by
  have hshapes : (rooted s).scopes.shapes = [{}] := by
    unfold ScopeStack.shapes rooted
    rw [LowerState.build_frames, hframes]
    rfl
  have hbody := lowerBody_ensures (lowerActions_constant options hl
    (settled_rooted hs hframes hpending))
  rw [hshapes] at hbody
  rw [BlockTree.grammatical_iff]
  have hdepth : ∀ u : LowerState, u.scopes.depth = u.scopes.shapes.length := fun u =>
    (List.length_map ..).symm
  cases hrun : lowerBody ⟨Registry.builtin, options⟩ l s with
  | ok r t =>
    obtain ⟨u, -, ⟨herrors, hread⟩, hends⟩ := hbody.ok hrun
    obtain ⟨f, hf, ht⟩ := hends.state
    refine ⟨⟨fun _ => ⟨f.shape, ?_⟩, fun _ => ⟨t, rfl⟩⟩, ?_, fun _ _ h => by cases h⟩
    · rw [hread]
      simp [ScopeStack.shapes, hf]
    · rintro _ ⟨⟩
      rw [ht]
      exact herrors
  | error e t =>
    refine ⟨⟨?_, ?_⟩, fun _ h => (by cases h), ?_⟩
    · rintro ⟨_, h⟩
      cases h
    · rintro ⟨x, hx⟩
      obtain ⟨-, hread⟩ | ⟨-, ⟨-, hread⟩, hopen⟩ := hbody.error hrun
      · rw [hx] at hread
        cases hread
      · rw [hx] at hread
        rw [hdepth, ← Option.some.inj hread] at hopen
        exact absurd hopen (by simp)
    · rintro _ _ ⟨⟩
      exact (hbody.error hrun).elim (·.1) (·.1)

/-- A loop that tests a condition, logs and breaks is lowered in an otherwise empty method. -/
theorem lowerBody_succeeds_on_loop :
    ∃ t, lowerBody ⟨Registry.builtin, {}⟩
      [{ id := "While" }, { id := "Condition" }, { id := "BlockEnd" }, { id := "ConditionBody" },
        { id := "Log", inputs := [.constant (.int32 1)] }, { id := "Break" }, { id := "BlockEnd" },
        { id := "BlockEnd" }]
      { program := { methods := #[{ name := "_start", kind := .entry }] } } = .ok ⟨⟩ t := by
  refine (lowerBody_succeeds_iff_grammatical {} _ ?_ _ ?_ rfl rfl).1.mpr
    ((BlockTree.grammatical_iff _).mpr ⟨{ previous := some .whileLoop }, by decide⟩)
  · simp only [List.mem_cons, List.not_mem_nil, or_false, forall_eq_or_imp, forall_eq]
    have hconstruct : ∀ c : Construct, c.parameters = [] → c ≠ .forLoop →
        ({ id := c.name } : Action).IsConstant c.definition := fun c hparameters hfor =>
      ⟨by cases c <;> decide, rfl, by
        rw [show c.definition.parameters = [] from hparameters]
        exact .nil, fun h => absurd (Option.some.inj h) hfor⟩
    refine ⟨⟨_, hconstruct .whileLoop rfl (by decide)⟩, ⟨_, hconstruct .condition rfl (by decide)⟩,
      ⟨_, hconstruct .blockEnd rfl (by decide)⟩, ⟨_, hconstruct .conditionBody rfl (by decide)⟩,
      ⟨Registry.hostAction "Log" HostCall.debugLog [.anyInput "message"], by decide, rfl, ?_, ?_⟩,
      ⟨_, hconstruct .breakLoop rfl (by decide)⟩, ⟨_, hconstruct .blockEnd rfl (by decide)⟩,
      ⟨_, hconstruct .blockEnd rfl (by decide)⟩⟩
    · exact .cons (.inl ⟨rfl, _, rfl, rfl, fun _ h => by cases h⟩) .nil
    · intro h
      cases h
  · exact ⟨Site.sound_empty.addMethod "_start" .entry, by decide, by simp, by simp, by simp, by simp⟩

end Lower

end TriggerCompiler
