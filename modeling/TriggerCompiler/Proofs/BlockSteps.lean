import Mathlib
import TriggerCompiler.Proofs.Bodies
import TriggerCompiler.Proofs.Tree

/-!
# The steps of a body

What each action of a body does to the open blocks and to the instructions at the end of the body. A
single action adds its lines at the end. An opener adds lines and opens a block, except that a further
branch of a chain puts a jump in front of the end of the branch before it. A block end adds the lines of
its block, and that of a tested loop puts a jump in front of the end of the loop's condition body.
-/

namespace TriggerCompiler

variable {id : InstrId} {xs : List InstrId} {c : Construct}

/-- Whether the construct is a further branch of a chain. -/
def Construct.continuesChain : Construct → Bool
  | .elseIf | .elseBranch => true
  | _ => false

/-! ## Blocks that stay open -/

/-- What a block keeps as long as it is open. -/
structure Frame.Keeps (f g : Frame) : Prop where
  opener : g.opener = f.opener
  isLoop : g.isLoop = f.isLoop
  startLabel : g.startLabel = f.startLabel
  conditionResult : g.conditionResult = f.conditionResult
  chainJumps : g.chainJumps = f.chainJumps
  endLabel : ∀ l, f.endLabel = some l → g.endLabel = some l
  owned : f.owned ⊆ g.owned

namespace Frame.Keeps

variable {f g k : Frame}

lemma refl (f : Frame) : f.Keeps f := ⟨rfl, rfl, rfl, rfl, rfl, fun _ h => h, List.Subset.refl _⟩

lemma trans (h : f.Keeps g) (h' : g.Keeps k) : f.Keeps k :=
  ⟨h'.opener.trans h.opener, h'.isLoop.trans h.isLoop, h'.startLabel.trans h.startLabel,
    h'.conditionResult.trans h.conditionResult, h'.chainJumps.trans h.chainJumps,
    fun l hl => h'.endLabel l (h.endLabel l hl), List.Subset.trans h.owned h'.owned⟩

lemma of_fills (h : f.Fills g) : f.Keeps g := by
  rw [h.same]
  exact ⟨rfl, rfl, rfl, rfl, rfl, h.ending, List.Subset.refl _⟩

lemma declare (f : Frame) (new : List (String × SlotId)) : f.Keeps (f.declare new) :=
  ⟨rfl, rfl, rfl, rfl, rfl, fun _ h => h, List.subset_append_left _ _⟩

lemma after (f g : Frame) : f.Keeps (f.after g) :=
  ⟨rfl, rfl, rfl, rfl, rfl, fun _ h => h, List.Subset.refl _⟩

lemma construct? (h : f.Keeps g) : g.construct? = f.construct? := by
  unfold Frame.construct?
  rw [h.opener]

lemma stack_refl (l : List Frame) : List.Forall₂ Keeps l l :=
  List.forall₂_same.mpr fun f _ => refl f

lemma stack_trans {l₁ l₂ l₃ : List Frame} (h : List.Forall₂ Keeps l₁ l₂)
    (h' : List.Forall₂ Keeps l₂ l₃) : List.Forall₂ Keeps l₁ l₃ := by
  induction h generalizing l₃ with
  | nil => exact h'
  | cons hf _ ih =>
    cases h' with
    | cons hg hrest => exact .cons (hf.trans hg) (ih hrest)

/-- The innermost block that passes a test stays that block. -/
lemma find? {p : Frame → Bool} (hp : ∀ f g, Keeps f g → p g = p f) {l l' : List Frame}
    (h : List.Forall₂ Keeps l l') (hf : l.find? p = some f) :
    ∃ g, l'.find? p = some g ∧ f.Keeps g := by
  induction h with
  | nil => cases hf
  | @cons a b l l' hab _ ih =>
    rw [List.find?_cons] at hf ⊢
    rw [hp a b hab]
    cases hpa : p a with
    | true =>
      rw [hpa] at hf
      exact ⟨b, rfl, Option.some.inj hf ▸ hab⟩
    | false =>
      rw [hpa] at hf
      exact ih hf

end Frame.Keeps

/-- From one state to the other no block that was open is closed, and none is open in addition. -/
structure LowerState.Persists (s t : LowerState) : Prop where
  method : t.method = s.method
  frames : List.Forall₂ Frame.Keeps s.scopes.frames t.scopes.frames
  ending : ∀ l, (s.program.method s.method).endLabel = some l →
    (t.program.method s.method).endLabel = some l

namespace LowerState.Persists

variable {s t u : LowerState}

lemma refl (s : LowerState) : s.Persists s := ⟨rfl, Frame.Keeps.stack_refl _, fun _ h => h⟩

lemma ne_nil (h : s.Persists t) (hs : s.scopes.frames ≠ []) : t.scopes.frames ≠ [] := fun ht =>
  hs (List.forall₂_nil_right_iff.mp (ht ▸ h.frames))

lemma trans (h : s.Persists t) (h' : t.Persists u) : s.Persists u :=
  ⟨h'.method.trans h.method, Frame.Keeps.stack_trans h.frames h'.frames,
    fun l hl => h.method ▸ h'.ending l (h.method ▸ h.ending l hl)⟩

end LowerState.Persists

lemma Exits.exists_agrees (s : LowerState) : ∃ x : Exits, x.Agrees s := by
  refine ⟨⟨((s.scopes.frames.find? (·.isLoop)).bind (·.endLabel)).getD 0,
    ((s.scopes.frames.find? (·.isLoop)).bind (·.startLabel)).getD 0,
    ((s.scopes.frames.find? (·.construct? = some .condition)).bind (·.endLabel)).getD 0,
    (s.scopes.frames.head?.bind (·.endLabel)).getD 0,
    (s.program.method s.method).endLabel.getD 0⟩, ?_, ?_, ?_, ?_, ?_⟩
  all_goals simp +contextual

/-- Labels that agree with a later state agree with an earlier one. -/
lemma Exits.Agrees.of_persists {x : Exits} {s t : LowerState} (h : x.Agrees t) (hp : s.Persists t) :
    x.Agrees s := by
  refine ⟨fun f l hf hl => ?_, fun f l hf hl => ?_, fun f l hf hl => ?_, fun f l hf hl => ?_,
    fun l hl => ?_⟩
  · obtain ⟨g, hg, hfg⟩ := Frame.Keeps.find? (fun _ _ h => h.isLoop) hp.frames hf
    exact h.leave g l hg (hfg.endLabel l hl)
  · obtain ⟨g, hg, hfg⟩ := Frame.Keeps.find? (fun _ _ h => h.isLoop) hp.frames hf
    exact h.again g l hg (hfg.startLabel.trans hl)
  · obtain ⟨g, hg, hfg⟩ := Frame.Keeps.find? (p := (·.construct? = some .condition))
      (fun _ _ h => by rw [h.construct?]) hp.frames hf
    exact h.decided g l hg (hfg.endLabel l hl)
  · obtain ⟨rest, hrest⟩ := List.head?_eq_some_iff.mp hf
    obtain ⟨g, rest', hfg, -, hframes⟩ := List.forall₂_cons_left_iff.mp (hrest ▸ hp.frames)
    exact h.miss g l (by simp [hframes]) (hfg.endLabel l hl)
  · exact h.ending l (hp.method ▸ hp.ending l hl)

/-- The instructions of the current body. -/
def LowerState.body (s : LowerState) : List InstrId := (s.program.method s.method).body.toList

lemma LowerState.Sound.body_lt {s : LowerState} (hs : s.Sound) (hid : id ∈ s.body) :
    id < s.program.instrs.size :=
  hs.site.body_lt hs.method_lt hid

namespace Lower

variable {s t u v : LowerState} {env : Environment} {index : Nat} {a : Action} {d : ActionDef} {code : List Line}
  {f g : Frame} {rest : List Frame} {new new' : List InstrId} {x : Exits}

/-! ## What the steps of an action keep open -/

lemma persists_atAction (s : LowerState) (index : Nat) (id : String) :
    s.Persists (atAction s index id) := ⟨rfl, Frame.Keeps.stack_refl _, fun _ h => h⟩

lemma Prepares.persists (h : Prepares s t) : s.Persists t := by
  obtain ⟨f, rest, new, hf, hf', -⟩ := h.locals
  refine ⟨h.method, ?_, h.adds.ending⟩
  rw [hf, hf']
  exact .cons (Frame.Keeps.declare f new) (Frame.Keeps.stack_refl rest)

lemma Emits.persists (h : Emits s code t) : s.Persists t :=
  ⟨h.method, h.frames.imp fun _ _ => Frame.Keeps.of_fills, h.adds.ending⟩

lemma Speaks.persists (h : Speaks s code t) : s.Persists t := by
  have hending := h.adds.ending
  obtain ⟨p, warnings, rfl⟩ := h.state
  exact ⟨rfl, Frame.Keeps.stack_refl _, hending⟩

lemma Merges.persists {guid : String} {table : MergeTable} (h : Merges env s guid table t)
    (hs : s.Sound) : s.Persists t := by
  cases h with
  | before => exact .refl s
  | now unknown found merged =>
    refine ⟨rfl, Frame.Keeps.stack_refl _, fun l hl => ?_⟩
    show (Program.method _ s.method).endLabel = some l
    rw [merged.method_host hs.method_lt]
    exact hl

lemma Settles.persists (h : Settles u d t) (hu : u.scopes.frames ≠ []) : u.Persists t := by
  obtain ⟨f, rest, hf⟩ := List.exists_cons_of_ne_nil hu
  refine ⟨h.method, ?_, h.adds.ending⟩
  rw [hf, h.frames_eq hf]
  refine .cons ?_ (Frame.Keeps.stack_refl rest)
  split_ifs
  · exact .refl f
  · exact ⟨rfl, rfl, rfl, rfl, rfl, fun _ h => h, List.Subset.refl _⟩

/-! ## Code at the end of a body -/

/-- From one state to the other instructions were added at the end of the body, and none of those that
there were has changed. -/
structure Appends (s : LowerState) (new : List InstrId) (t : LowerState) : Prop where
  method : t.method = s.method
  body : t.body = s.body ++ new
  size_le : s.program.instrs.size ≤ t.program.instrs.size
  arena : ∀ id < s.program.instrs.size, t.program.instr id = s.program.instr id
  fresh : ∀ id ∈ new, s.program.instr id = .nop

namespace Appends

lemma refl (s : LowerState) : Appends s [] s :=
  ⟨rfl, (List.append_nil _).symm, le_rfl, fun _ _ => rfl, by simp⟩

/-- What does nothing later has done nothing before. -/
lemma nop (h : Appends s new t) (hid : t.program.instr id = .nop) : s.program.instr id = .nop := by
  by_cases hlt : id < s.program.instrs.size
  · rw [← h.arena id hlt, hid]
  · exact Program.instr_eq_nop_of_le (Nat.le_of_not_lt hlt)

lemma trans (h : Appends s new t) (h' : Appends t new' u) : Appends s (new ++ new') u := by
  refine ⟨h'.method.trans h.method, ?_, h.size_le.trans h'.size_le, fun id hid => ?_, fun id hid => ?_⟩
  · rw [h'.body, h.body, List.append_assoc]
  · rw [h'.arena id (hid.trans_le h.size_le), h.arena id hid]
  · exact (List.mem_append.mp hid).elim (h.fresh id) fun hid => h.nop (h'.fresh id hid)

lemma mem_body (h : Appends s new t) (hid : id ∈ new) : id ∈ t.body := by
  rw [h.body]
  exact List.mem_append_right _ hid

/-- Lines that were there stay. -/
lemma lines (h : Appends s new t) (hs : s.Sound) {ids : List InstrId}
    (hids : ∀ id ∈ ids, id ∈ s.body) : ids.map t.program.line = ids.map s.program.line :=
  List.map_congr_left fun id hid => Program.line_congr (h.arena id (hs.body_lt (hids id hid)))

lemma of_adds (hs : s.Sound) (hmethod : t.method = s.method)
    (h : s.site.Adds s.method code t.site) :
    ∃ new, Appends s new t ∧ new.map t.program.line = code := by
  obtain ⟨new, hbody, hlines, hplace⟩ := h.body
  refine ⟨new, ⟨hmethod, ?_, h.size_le, h.arena, fun id hid => ?_⟩, hlines⟩
  · unfold LowerState.body
    rw [hmethod]
    exact hbody
  · rcases hplace id hid with hge | hlabel
    · exact Program.instr_eq_nop_of_le hge
    · exact (hs.site.waiting id (List.mem_append_right _ hlabel)).2.1

lemma of_adds_nil (hs : s.Sound) (hmethod : t.method = s.method)
    (h : s.site.Adds s.method [] t.site) : Appends s [] t := by
  obtain ⟨new, happends, hnew⟩ := of_adds hs hmethod h
  obtain rfl := List.map_eq_nil_iff.mp hnew
  exact happends

/-- What stands between the bindings of an action and its end. -/
lemma within_action {s₁ : LowerState} (h₀ : Appends (atAction s index a.id) [] s₁)
    (h : Appends s₁ new u) (h₁ : Appends u [] t) : Appends s new t := by
  have hall := (h₀.trans h).trans h₁
  rw [List.nil_append, List.append_nil] at hall
  exact { hall with }

end Appends

lemma Prepares.appends (h : Prepares s t) (hs : s.Sound) : Appends s [] t :=
  .of_adds_nil hs h.method h.adds

lemma Settles.appends (h : Settles u d t) (hu : u.Sound) : Appends u [] t :=
  .of_adds_nil hu h.method h.adds

lemma Merges.appends {guid : String} {table : MergeTable} (h : Merges env s guid table t)
    (hs : s.Sound) : Appends s [] t := by
  cases h with
  | before => exact .refl s
  | @now group r host unknown found merged =>
    refine ⟨rfl, ?_, ?_, fun id hid => merged.instr_host hid, by simp⟩
    · rw [List.append_nil]
      unfold LowerState.body
      show (host.method s.method).body.toList = _
      rw [merged.method_host hs.method_lt]
    · show s.program.instrs.size ≤ host.instrs.size
      rw [merged.size_instrs]
      exact Nat.le_add_right _ _

/-! ## Single actions -/

/-- The lines of an action that neither opens nor closes a block. -/
inductive Spoken (x : Exits) (code : List Line) : Prop where
  | statement {e : Setting} {temps : List SlotId} {result : Option SlotId} {c : Construct}
      {inputs : List SlotId} (lines : StatementLines e temps x result c inputs code)
  | call {e : Setting} {temps : List SlotId} {signature : String} {targets : List SlotId}
      {r : BoundAction} (lines : HostLines e temps signature targets r code)
  | group {e : Setting} {temps : List SlotId} {inputs : List (String × SlotId)} {entry : MergedEntry}
      {arguments : List SlotId} (lines : GroupLines e temps inputs entry arguments code)

end Lower

/-- An action is the construct that its name says. -/
def Environment.NamesConstructs (env : Environment) : Prop :=
  ∀ a d, env.registry.findAction a.id a.group = .ok d → Action.construct? a = d.construct?

namespace Lower

variable {s t u v : LowerState} {env : Environment} {index : Nat} {a : Action} {d : ActionDef} {code : List Line}
  {f g : Frame} {rest : List Frame} {new new' : List InstrId} {x : Exits}

/-- A single action adds its lines at the end of the body. -/
lemma Performs.spoken (h : Performs env index a s t) (hnames : env.NamesConstructs)
    (hplain : ∀ c, a.construct? = some c → c.affectsBlocks = false) :
    ∃ new, Appends s new t ∧ s.Persists t ∧
      ∀ x : Exits, x.Agrees t → Spoken x (new.map t.program.line) := by
  obtain @⟨d, u, -, hs, hfound, -, hlowered, hu, hsettles, -, -⟩ := h
  have hs₀ : (atAction s index a.id).Sound := (settled_atAction hs index a.id).sound
  have hconstruct : ∀ c, d.kind = .construct c → c.affectsBlocks = false := fun c hc =>
    hplain c ((hnames a d hfound).trans (by simp [ActionDef.construct?, hc]))
  have hne : s.scopes.frames ≠ [] := by
    obtain ⟨f, rest, hf, -⟩ := hs.follows
    simp [hf]
  -- the lines stand between the bindings and the end of the action
  have hframe : ∀ {s₁ new}, Prepares (atAction s index a.id) s₁ → Appends s₁ new u →
      s₁.Persists u → Appends s new t ∧ s.Persists t ∧ u.Persists t ∧
        new.map t.program.line = new.map u.program.line := by
    intro s₁ new hprep happends hkept
    have hkept' := ((persists_atAction s index a.id).trans hprep.persists).trans hkept
    have hlast := hsettles.persists (hkept'.ne_nil hne)
    exact ⟨.within_action (hprep.appends hs₀) happends (hsettles.appends hu), hkept'.trans hlast, hlast,
      (hsettles.appends hu).lines hu fun id hid => happends.mem_body hid⟩
  cases hlowered with
  | statement _ _ _ prepares _ emits lines =>
    have hs₁ := prepares.sound hs₀
    obtain ⟨new, happends, rfl⟩ := Appends.of_adds hs₁ emits.method emits.adds
    obtain ⟨hall, hkept, hlast, hlines⟩ := hframe prepares happends emits.persists
    refine ⟨new, hall, hkept, fun x hx => ?_⟩
    rw [hlines]
    exact .statement (lines x (hx.of_persists hlast))
  | call _ prepares _ emits _ lines =>
    have hs₁ := prepares.sound hs₀
    obtain ⟨new, happends, rfl⟩ := Appends.of_adds hs₁ emits.method emits.adds
    obtain ⟨hall, hkept, -, hlines⟩ := hframe prepares happends emits.persists
    exact ⟨new, hall, hkept, fun x _ => hlines ▸ .call lines⟩
  | group _ prepares _ calls =>
    have hs₁ := prepares.sound hs₀
    obtain ⟨merges, hs₂, -, -, -, speaks, lines⟩ := calls
    obtain ⟨new, happends, rfl⟩ := Appends.of_adds hs₂ speaks.method speaks.adds
    obtain ⟨hall, hkept, -, hlines⟩ := hframe prepares ((merges.appends hs₁).trans happends)
      ((merges.persists hs₁).trans speaks.persists)
    exact ⟨new, hall, hkept, fun x _ => hlines ▸ .group lines⟩
  | opener kind opens =>
    have := hconstruct _ kind
    simp [Construct.affectsBlocks, opens] at this
  | closer kind => cases hconstruct _ kind

/-! ## Further branches -/

/-- From one state to the other a chain was continued: a jump to the end of the chain stands before the
end of its last branch, the earlier jumps out of the chain go there too, and instructions were
added. -/
structure Hooks (s : LowerState) (closed : ClosedBlock) (exit skip : InstrId) (new : List InstrId)
    (t : LowerState) : Prop where
  method : t.method = s.method
  body : ∃ before last, closed.endLabel = some last ∧ s.body = before ++ [last] ∧
    t.body = before ++ skip :: last :: new
  size_le : s.program.instrs.size ≤ t.program.instrs.size
  arena : ∀ id < s.program.instrs.size, t.program.instr id =
    if id ∈ closed.chainJumps then .jump exit else s.program.instr id
  skip_ge : s.program.instrs.size ≤ skip
  skip_jump : t.program.instr skip = .jump exit
  fresh : ∀ id ∈ new, s.program.instr id = .nop

namespace Hooks

variable {closed closed' : ClosedBlock} {exit exit' skip skip' e : InstrId}

lemma of_chains (h : Chains s closed g exit skip t) : Hooks s closed exit skip [] t := by
  have hmethod : t.method = s.method := by
    rw [h.state]
    rfl
  refine ⟨hmethod, ?_, h.works.size_le, h.instr, h.skip_ge, h.skip_jump, by simp⟩
  obtain ⟨before, last, hlast, hbody, hbody'⟩ := h.body
  refine ⟨before, last, hlast, hbody, ?_⟩
  unfold LowerState.body
  rw [hmethod]
  exact hbody'

section

variable (h : Hooks s closed exit skip new t)
include h

/-- Lines that were there stay if they are no jumps out of the chain. -/
lemma lines (hs : s.Sound) {ids : List InstrId} (hids : ∀ id ∈ ids, id ∈ s.body)
    (hjumps : ∀ id ∈ ids, id ∉ closed.chainJumps) :
    ids.map t.program.line = ids.map s.program.line := by
  refine List.map_congr_left fun id hid => Program.line_congr ?_
  rw [h.arena id (hs.body_lt (hids id hid)), if_neg (hjumps id hid)]

lemma nop (hid : t.program.instr id = .nop) : s.program.instr id = .nop := by
  by_cases hlt : id < s.program.instrs.size
  · rw [h.arena id hlt] at hid
    split_ifs at hid
    exact hid
  · exact Program.instr_eq_nop_of_le (Nat.le_of_not_lt hlt)

lemma line_skip : t.program.line skip = .code (.jump exit) :=
  Program.line_eq_code.mpr ⟨h.skip_jump, by simp⟩

lemma mem_body (hid : id ∈ new) : id ∈ t.body := by
  obtain ⟨before, last, -, -, hbody⟩ := h.body
  simp [hbody, hid]

lemma append (h' : Appends t new' u) (ht : t.Sound) : Hooks s closed exit skip (new ++ new') u := by
  have hskip : skip ∈ t.body := by
    obtain ⟨before, last, -, -, hbody⟩ := h.body
    simp [hbody]
  refine ⟨h'.method.trans h.method, ?_, h.size_le.trans h'.size_le, fun id hid => ?_, h.skip_ge, ?_,
    fun id hid => ?_⟩
  · obtain ⟨before, last, hlast, hbody, hbody'⟩ := h.body
    exact ⟨before, last, hlast, hbody, by rw [h'.body, hbody']; simp⟩
  · rw [h'.arena id (hid.trans_le h.size_le), h.arena id hid]
  · rw [h'.arena skip (ht.body_lt hskip)]
    exact h.skip_jump
  · exact (List.mem_append.mp hid).elim (h.fresh id) fun hid => h.nop (h'.fresh id hid)

end

lemma after_nil (h : Appends s [] t) (h' : Hooks t closed exit skip new u) :
    Hooks s closed exit skip new u := by
  have hbody := h.body
  rw [List.append_nil] at hbody
  refine ⟨h'.method.trans h.method, hbody ▸ h'.body, h.size_le.trans h'.size_le, fun id hid => ?_,
    h.size_le.trans h'.skip_ge, h'.skip_jump, fun id hid => h.nop (h'.fresh id hid)⟩
  rw [h'.arena id (hid.trans_le h.size_le), h.arena id hid]

/-- The instructions before the end of a branch, when a further one comes. -/
lemma before_eq (h : Hooks u closed exit skip new t) (he : closed.endLabel = some e)
    {old : List InstrId} (hu : u.body = old ++ (xs ++ [e])) :
    t.body = old ++ (xs ++ [skip, e] ++ new) := by
  obtain ⟨before, last, hlast, hbody, hbody'⟩ := h.body
  obtain rfl := Option.some.inj (he.symm.trans hlast)
  rw [hu, ← List.append_assoc] at hbody
  obtain ⟨rfl, -⟩ := List.append_inj' hbody rfl
  rw [hbody']
  simp

/-- The first branch of a chain, and then the others. -/
lemma appends_hooks (h : Appends s (xs ++ [e]) u) (h' : Hooks u closed exit skip new t)
    (he : closed.endLabel = some e) (hjumps : closed.chainJumps = []) :
    Appends s (xs ++ [skip, e] ++ new) t := by
  refine ⟨h'.method.trans h.method, h'.before_eq he h.body, h.size_le.trans h'.size_le,
    fun id hid => ?_, fun id hid => ?_⟩
  · rw [h'.arena id (hid.trans_le h.size_le), hjumps, if_neg List.not_mem_nil, h.arena id hid]
  · simp only [List.mem_append, List.mem_cons, List.not_mem_nil, or_false] at hid
    rcases hid with (hid | rfl | rfl) | hid
    · exact h.fresh id (by simp [hid])
    · exact Program.instr_eq_nop_of_le (h.size_le.trans h'.skip_ge)
    · exact h.fresh id (by simp)
    · exact h.nop (h'.fresh id hid)

/-- A further branch of a chain, and then the others. -/
lemma hooks (h : Hooks s closed exit skip (xs ++ [e]) u) (hu : u.Sound)
    (h' : Hooks u closed' exit' skip' new t) (he : closed'.endLabel = some e)
    (hjumps : closed'.chainJumps = closed.chainJumps ++ [skip]) :
    Hooks s closed exit' skip (xs ++ [skip', e] ++ new) t := by
  obtain ⟨before, last, hlast, hbody, hbody'⟩ := h.body
  have hskip : skip < u.program.instrs.size := hu.body_lt (by simp [hbody'])
  refine ⟨h'.method.trans h.method, ⟨before, last, hlast, hbody, ?_⟩, h.size_le.trans h'.size_le,
    fun id hid => ?_, h.skip_ge, ?_, fun id hid => ?_⟩
  · have hsplit : u.body = (before ++ [skip, last]) ++ (xs ++ [e]) := by simp [hbody']
    rw [h'.before_eq he hsplit]
    simp
  · have hne : id ≠ skip := fun heq => absurd hid (heq ▸ Nat.not_lt.mpr h.skip_ge)
    rw [h'.arena id (hid.trans_le h.size_le), h.arena id hid, hjumps]
    by_cases hmem : id ∈ closed.chainJumps <;> simp [hmem, hne]
  · rw [h'.arena skip hskip, hjumps, if_pos (by simp)]
  · simp only [List.mem_append, List.mem_cons, List.not_mem_nil, or_false] at hid
    rcases hid with (hid | rfl | rfl) | hid
    · exact h.fresh id (by simp [hid])
    · exact Program.instr_eq_nop_of_le (h.size_le.trans h'.skip_ge)
    · exact h.fresh id (by simp)
    · exact h.nop (h'.fresh id hid)

end Hooks

/-! ## Openers -/

/-- The lines in front of the items of a block with the given frame. -/
def OpeningLines (e : Setting) (temps : List SlotId) (miss : InstrId) (g : Frame) (c : Construct)
    (inputs : List SlotId) (code : List Line) : Prop :=
  match c, inputs with
  | .condition, _ => ∃ result no, g.conditionResult = some result ∧
      e.slots.IsConstant .boolean (.boolean false) no ∧ code = copyLines no result
  | .conditionBody, _ => code = [.code (.jumpIfFalse miss)]
  | .whileLoop, _ => ∃ l, g.startLabel = some l ∧ code = [.label l]
  | .forLoop, [start, bound, step, index] => ∃ (slots : LoopSlots) (again leave : InstrId),
      g.startLabel = some again ∧ g.endLabel = some leave ∧ (∀ id ∈ slots.toList, id ∈ g.owned) ∧
      LoopLines e (slots.upwards :: slots.bound :: slots.step :: temps) start bound step index slots
        again leave code
  | .forLoop, _ => False
  | _, _ => code = []

/-- The lines in front of the items, for some inputs of the block's opener. -/
def Opened (x : Exits) (c : Construct) (g : Frame) (code : List Line) : Prop :=
  ∃ e temps inputs, OpeningLines e temps x.miss g c inputs code

/-- A block that was opened between two states is the innermost one, around it nothing was closed, and
it has had no items. -/
structure Enters (c : Construct) (s t : LowerState) (g : Frame) (tail : List Frame) : Prop where
  method : t.method = s.method
  frames : t.scopes.frames = g :: tail
  around : List.Forall₂ Frame.Keeps s.scopes.frames tail
  ending : ∀ l, (s.program.method s.method).endLabel = some l →
    (t.program.method s.method).endLabel = some l
  shape : g.shape = { construct := some c }

lemma Enters.construct {tail : List Frame} (h : Enters c s t g tail) : g.construct? = some c :=
  congrArg Shape.construct h.shape

lemma Opens.enters {f' : Frame} (h : Opens s code g f' t) (hs : s.Sound)
    (hf : s.scopes.frames = f :: rest) (hkeeps : f.Keeps f')
    (hshape : g.shape = { construct := some c }) :
    Enters c s t g (f' :: rest) ∧ ∃ new, Appends s new t ∧ new.map t.program.line = code := by
  obtain ⟨_, _, hf', hframes⟩ := h.frames
  obtain ⟨rfl, rfl⟩ := List.cons.inj (hf'.symm.trans hf)
  refine ⟨⟨h.method, hframes, ?_, h.adds.ending, hshape⟩, Appends.of_adds hs h.method h.adds⟩
  rw [hf]
  exact .cons hkeeps (Frame.Keeps.stack_refl _)

/-- What is new after a block was opened, and where its lines are. -/
lemma OpensBlock.enters {r : BoundAction} (h : OpensBlock s f c r t) (hs : s.Sound)
    (hf : s.scopes.frames = f :: rest) :
    ∃ g f', Enters c s t g (f' :: rest) ∧
      ((c.continuesChain = false ∧ g.chainJumps = [] ∧ ∃ new, Appends s new t ∧
          ∀ miss, (∀ l, f'.endLabel = some l → miss = l) →
            OpeningLines t.setting s.site.temps miss g c r.inputs (new.map t.program.line)) ∨
        (c.continuesChain = true ∧ ∃ closed exit skip, f.lastClosed = some closed ∧
          g.endLabel = some exit ∧ g.chainJumps = closed.chainJumps ++ [skip] ∧
          Hooks s closed exit skip [] t)) := by
  have hchains : ∀ {closed : ClosedBlock} {exit skip : InstrId} (coordinate : Coordinate),
      Chains s closed (Frame.fresh c coordinate) exit skip t → f.lastClosed = some closed →
      ∃ g f', Enters c s t g (f' :: rest) ∧ ∃ closed exit skip, f.lastClosed = some closed ∧
          g.endLabel = some exit ∧ g.chainJumps = closed.chainJumps ++ [skip] ∧
          Hooks s closed exit skip [] t := by
    intro closed exit skip coordinate ho hclosed
    have hframes := ho.frames
    rw [hf] at hframes
    have hhooks := Hooks.of_chains ho
    refine ⟨_, f, ⟨hhooks.method, hframes, ?_, ho.works.ending, rfl⟩, closed, exit, skip, hclosed, rfl,
      rfl, hhooks⟩
    rw [hf]
    exact Frame.Keeps.stack_refl _
  unfold OpensBlock at h
  dsimp only at h
  split at h
  · obtain ⟨hg, new, hnew, hlines⟩ := h.enters (c := .ifBranch) hs hf (.refl f) rfl
    exact ⟨_, f, hg, .inl ⟨rfl, rfl, new, hnew, fun _ _ => hlines⟩⟩
  · obtain ⟨hg, new, hnew, hlines⟩ := h.enters (c := .block) hs hf (.refl f) rfl
    exact ⟨_, f, hg, .inl ⟨rfl, rfl, new, hnew, fun _ _ => hlines⟩⟩
  · obtain ⟨closed, l, skip, hclosed, ho⟩ := h
    obtain ⟨g, f', hg, hrest⟩ := hchains _ ho hclosed
    exact ⟨g, f', hg, .inr ⟨rfl, hrest⟩⟩
  · obtain ⟨closed, l, skip, hclosed, ho⟩ := h
    obtain ⟨g, f', hg, hrest⟩ := hchains _ ho hclosed
    exact ⟨g, f', hg, .inr ⟨rfl, hrest⟩⟩
  · obtain ⟨result, l, no, hno, ho⟩ := h
    obtain ⟨hg, new, hnew, hlines⟩ := ho.enters (c := .condition) hs hf
      ⟨rfl, rfl, rfl, rfl, rfl, fun _ h => h, List.Subset.refl _⟩ rfl
    exact ⟨_, _, hg, .inl ⟨rfl, rfl, new, hnew, fun _ _ => ⟨result, no, rfl, hno, hlines⟩⟩⟩
  · obtain ⟨l, hl, ho⟩ := h
    obtain ⟨hg, new, hnew, hlines⟩ := ho.enters (c := .conditionBody) hs hf
      ⟨rfl, rfl, rfl, rfl, rfl, fun l' hl' => hl l' hl' ▸ rfl, List.Subset.refl _⟩ rfl
    refine ⟨_, _, hg, .inl ⟨rfl, rfl, new, hnew, fun miss hmiss => ?_⟩⟩
    rw [hmiss l rfl]
    exact hlines
  · obtain ⟨l, ho⟩ := h
    obtain ⟨hg, new, hnew, hlines⟩ := ho.enters (c := .whileLoop) hs hf (.refl f) rfl
    exact ⟨_, f, hg, .inl ⟨rfl, rfl, new, hnew, fun _ _ => ⟨l, rfl, hlines⟩⟩⟩
  · rename_i start bound step index hinputs
    obtain ⟨code, slots, again, leave, kept, hloop, -, -, ho⟩ := h
    obtain ⟨hg, new, hnew, rfl⟩ := ho.enters (c := .forLoop) hs hf (.refl f) rfl
    refine ⟨_, f, hg, .inl ⟨rfl, rfl, new, hnew, fun _ _ => ?_⟩⟩
    rw [hinputs]
    exact ⟨slots, again, leave, rfl, rfl, fun id hid => List.mem_append_right _ hid, hloop⟩
  · exact h.elim

/-- What an action that opens a block does. -/
lemma Performs.enters (h : Performs env index a s t) (hnames : env.NamesConstructs)
    (hc : a.construct? = some c) (hopens : c.opensBlock = true) :
    ∃ g tail, Enters c s t g tail ∧
      ((c.continuesChain = false ∧ g.chainJumps = [] ∧ ∃ new, Appends s new t ∧
          ∀ x : Exits, (∀ f l, tail.head? = some f → f.endLabel = some l → x.miss = l) →
            Opened x c g (new.map t.program.line)) ∨
        (c.continuesChain = true ∧ ∃ f rest closed exit skip, s.scopes.frames = f :: rest ∧
          f.lastClosed = some closed ∧ g.endLabel = some exit ∧
          g.chainJumps = closed.chainJumps ++ [skip] ∧ Hooks s closed exit skip [] t ∧
          ∀ x : Exits, Opened x c g [])) := by
  obtain @⟨d, u, -, hs, hfound, -, hlowered, hu, hsettles, -, -⟩ := h
  have hs₀ : (atAction s index a.id).Sound := (settled_atAction hs index a.id).sound
  have hd : d.construct? = some c := (hnames a d hfound).symm.trans hc
  have hkind : ∀ k, d.kind = .construct k → k = c := by
    intro k hk
    simpa [ActionDef.construct?, hk] using hd
  cases hlowered with
  | statement kind plain =>
    rw [hkind _ kind, hopens] at plain
    cases plain
  | call kind => simp [ActionDef.construct?, kind] at hd
  | group kind => simp [ActionDef.construct?, kind] at hd
  | closer kind =>
    rw [← hkind _ kind] at hopens
    cases hopens
  | @opener k r s₁ f₁ rest₁ kind opens prepares bound frames block =>
    obtain rfl := hkind _ kind
    have hs₁ := prepares.sound hs₀
    have hbefore := prepares.appends hs₀
    have hafter := hsettles.appends hu
    have hkept := (persists_atAction s index a.id).trans prepares.persists
    obtain ⟨g, f', hg, hlines⟩ := block.enters hs₁ frames
    have hframes : t.scopes.frames = g :: f' :: rest₁ := by
      rw [hsettles.frames_eq hg.frames,
        if_pos (by simp [ActionDef.affectsBlocks, kind, Construct.affectsBlocks, opens])]
    refine ⟨g, f' :: rest₁, ⟨hsettles.method.trans (hg.method.trans hkept.method), hframes,
      Frame.Keeps.stack_trans hkept.frames hg.around, fun l hl => ?_, hg.shape⟩, ?_⟩
    · have hend := hg.ending l (hkept.method ▸ hkept.ending l hl)
      rw [hkept.method] at hend
      exact (hg.method.trans hkept.method) ▸ hsettles.adds.ending l
        ((hg.method.trans hkept.method).symm ▸ hend)
    rcases hlines with ⟨hchain, hjumps, new, hnew, hopening⟩ | ⟨hchain, closed, exit, skip, hclosed,
      hexit, hjumps, hhooks⟩
    · refine .inl ⟨hchain, hjumps, new, .within_action hbefore hnew hafter, fun x hx => ?_⟩
      rw [hafter.lines hu fun id hid => hnew.mem_body hid]
      exact ⟨_, _, _, hopening x.miss fun l hl => hx f' l rfl hl⟩
    · obtain ⟨f₀, rest₀, declared, hf₀, hf₁, -⟩ := prepares.locals
      obtain ⟨rfl, rfl⟩ := List.cons.inj (hf₁.symm.trans frames)
      refine .inr ⟨hchain, f₀, rest₀, closed, exit, skip, hf₀, hclosed, hexit, hjumps, ?_,
        fun x => ⟨u.setting, [], [], ?_⟩⟩
      · exact { (hhooks.append hafter hu).after_nil hbefore with }
      · cases k <;> first | rfl | cases hchain

/-! ## Block ends -/

/-- The instructions at the end of the body after a tested loop was closed: a jump back to its start
stands before the label that ended it, and the label of its own end comes last. -/
structure Returns (s : LowerState) (start l : InstrId) (t : LowerState) : Prop where
  method : t.method = s.method
  body : ∃ before last back, s.body = before ++ [last] ∧ t.body = before ++ [back, last, l] ∧
    s.program.instrs.size ≤ back ∧ t.program.instr back = .jump start
  size_le : s.program.instrs.size ≤ t.program.instrs.size
  arena : ∀ id < s.program.instrs.size, t.program.instr id = s.program.instr id
  label : t.program.instr l = .nop
  fresh : s.program.instr l = .nop

/-- The block with the frame `g` was closed inside the block with the frame `f`. -/
structure Shuts (s : LowerState) (g f : Frame) (rest : List Frame) (t : LowerState) : Prop where
  method : t.method = s.method
  open_frames : ∃ g₀, s.scopes.frames = g₀ :: f :: rest ∧ g₀.Fills g ∧ g₀.Complete
  frames : t.scopes.frames = f.after g :: rest
  ending : ∀ l, (s.program.method s.method).endLabel = some l →
    (t.program.method s.method).endLabel = some l
  label : g.construct? ≠ some .block → g.endLabel.isSome = true
  lines : g.construct? ≠ some .whileLoop →
    ∃ new, Appends s new t ∧ new.map t.program.line = g.closeLines
  returns : g.construct? = some .whileLoop →
    ∃ start l, g.startLabel = some start ∧ g.endLabel = some l ∧ Returns s start l t

/-- What a block end does. -/
lemma Performs.shuts (h : Performs env index a s t) (hnames : env.NamesConstructs)
    (ha : a.construct? = some .blockEnd) : ∃ g f rest, Shuts s g f rest t := by
  obtain @⟨d, u, -, hs, hfound, hadmits, hlowered, hu, hsettles, -, -⟩ := h
  have hs₀ : (atAction s index a.id).Sound := (settled_atAction hs index a.id).sound
  have hd : d.construct? = some .blockEnd := (hnames a d hfound).symm.trans ha
  have hkind : ∀ k, d.kind = .construct k → k = .blockEnd := by
    intro k hk
    simpa [ActionDef.construct?, hk] using hd
  cases hlowered with
  | statement kind plain noEnd => exact absurd (hkind _ kind) noEnd
  | call kind => simp [ActionDef.construct?, kind] at hd
  | group kind => simp [ActionDef.construct?, kind] at hd
  | opener kind opens =>
    rw [hkind _ kind] at opens
    cases opens
  | @closer g₀ g f rest kind frames fills closes =>
    have hmethod : u.method = s.method := by
      rw [closes.state]
      rfl
    have hafter := hsettles.appends hu
    have hcomplete : g₀.Complete := by
      have h := hadmits .blockEnd hd
      unfold ScopeStack.shapes at h
      rw [show s.scopes.frames = g₀ :: f :: rest from frames] at h
      exact (Frame.isComplete_shape g₀).mp h
    have hframes : u.scopes.frames = f.after g :: rest := by
      rw [closes.state]
      rfl
    refine ⟨g, f, rest, hsettles.method.trans hmethod, ⟨g₀, frames, fills, hcomplete⟩, ?_,
      fun l hl => ?_, closes.ending, fun hno => ?_, fun hwhile => ?_⟩
    · rw [hsettles.frames_eq hframes, if_pos (by simp [ActionDef.affectsBlocks, kind,
        Construct.affectsBlocks])]
    · have hend := closes.works.ending l hl
      rw [← show u.method = (atAction s index a.id).method from hmethod] at hend
      exact hmethod ▸ hsettles.adds.ending l hend
    · obtain ⟨new, hnew, hlines⟩ := Appends.of_adds hs₀ hmethod (closes.lines hno)
      refine ⟨new, .within_action (.refl _) hnew hafter, ?_⟩
      rw [hafter.lines hu fun id hid => hnew.mem_body hid]
      exact hlines
    · obtain ⟨start, l, hstart, hl, hre⟩ := closes.reenters hwhile
      obtain ⟨before, last, back, hbody, hbody', hback, hjump, hlabel, hplace⟩ := hre.body
      have hu_body : u.body = before ++ [back, last, l] := by
        unfold LowerState.body
        rw [hmethod]
        exact hbody'
      have hlt : ∀ id ∈ [back, last, l], id < u.program.instrs.size := fun id hid =>
        hu.body_lt (by rw [hu_body]; exact List.mem_append_right _ hid)
      refine ⟨start, l, hstart, hl, hsettles.method.trans hmethod,
        ⟨before, last, back, hbody, ?_, hback, ?_⟩, hre.size_le.trans hafter.size_le, fun id hid => ?_,
        ?_, ?_⟩
      · rw [hafter.body, hu_body, List.append_nil]
      · rw [hafter.arena back (hlt back (by simp))]
        exact hjump
      · rw [hafter.arena id (hid.trans_le hre.size_le)]
        exact hre.arena id hid
      · rw [hafter.arena l (hlt l (by simp))]
        exact hlabel
      · rcases hplace with hge | hlabel
        · exact Program.instr_eq_nop_of_le hge
        · exact (hs₀.site.waiting l (List.mem_append_right _ hlabel)).2.1

end Lower

end TriggerCompiler
