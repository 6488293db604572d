import Mathlib
import TriggerCompiler.Proofs.Entries
import TriggerCompiler.Proofs.Spelling
import TriggerCompiler.Proofs.MergedPhrases

/-!
# The discipline of compiled code

Every body that the compiler makes is in phrases. This is shown of each step of a compile, and so of
every compiled program. Within a body there are two more things to keep in mind: after a condition the
push of its result waits for the condition body, and the code up to the label of a block that was
closed last is in phrases of its own, so that a jump can be put in front of the label.
-/

namespace TriggerCompiler

variable {d : ActionDef} {l : InstrId} {f g f' : Frame} {p q : Program} {r : BoundAction}
  {code : List Line} {v : Terms} {id : SlotId} {frames : List Frame}

open Lower

/-! ## Blocks that wait for a condition body -/

namespace Shape

variable {x y : Shape} {stack rest : List Shape} {c : Option Construct}

/-- The block has a condition and no condition body yet. -/
structure Awaits (x : Shape) : Prop where
  takes : x.takesCondition = true
  saw : x.sawCondition = true
  sawNo : x.sawConditionBody = false

/-- What holds of the open blocks whatever the actions are. -/
structure Coherent (stack : List Shape) : Prop where
  body : ∀ x ∈ stack, x.sawConditionBody = true → x.sawCondition = true
  top : ∀ x ∈ stack.head?, x.previous = some .condition → x.Awaits
  below : stack.IsChain fun x y => x.construct = some .condition → y.Awaits

/-- Some block below the given one waits for its condition body, and what stands in it is no
condition. -/
def Blocked (x : Shape) : List Shape → Prop
  | [] => False
  | y :: rest => (y.Awaits ∧ x.construct ≠ some .condition) ∨ Blocked y rest

/-- Some block waits for its condition body, and the condition is not what came last in it. Such a
block can no longer be closed. -/
def Stuck : List Shape → Prop
  | [] => False
  | x :: rest => (x.Awaits ∧ x.previous ≠ some .condition) ∨ Blocked x rest

lemma Blocked.congr (hb : Blocked x rest) (h : y.construct = x.construct) : Blocked y rest := by
  cases rest with
  | nil => exact hb
  | cons z rest => exact hb.imp (fun hz => ⟨hz.1, h ▸ hz.2⟩) id

lemma Awaits.not_condition (h : x.Awaits) : admits .condition (x :: rest) = false := by
  by_contra hc
  have := (admits_condition x rest).mp (by simpa using hc)
  rw [h.saw] at this
  exact absurd this.2 (by simp)

lemma construct_around (d : Construct) (x : Shape) : (around d x).construct = x.construct := by
  cases d
  all_goals rfl

lemma Awaits.around {d : Construct} (h : x.Awaits) (hd : d ≠ .conditionBody) :
    (around d x).Awaits := by
  cases d with
  | conditionBody => exact absurd rfl hd
  | condition => exact ⟨h.takes, rfl, h.sawNo⟩
  | _ => exact h

lemma follow_of_ne {d : Construct} (hd : d ≠ .blockEnd) (x : Shape) (rest : List Shape) :
    follow (some d) (x :: rest) =
      if d.opensBlock then { construct := some d } :: around d x :: rest
      else { x with previous := some d } :: rest := by
  cases d
  all_goals first | rfl | exact absurd rfl hd

/-- An action after which the block still waits. -/
lemma stuck_of_awaits (h : x.Awaits) (hprev : x.previous ≠ some .condition ∨ c ≠ some .conditionBody)
    (hadmits : ∀ d, c = some d → admits d (x :: rest) = true) : Stuck (follow c (x :: rest)) := by
  cases c with
  | none => exact .inl ⟨⟨h.takes, h.saw, h.sawNo⟩, by simp⟩
  | some d =>
    have hd := hadmits d rfl
    by_cases hend : d = .blockEnd
    · subst hend
      cases rest with
      | nil => simp [admits] at hd
      | cons y rest =>
        simp [admits, isComplete, h.takes, h.sawNo] at hd
    · have hcond : d ≠ .condition := by
        rintro rfl
        rw [h.not_condition] at hd
        cases hd
      have hbody : d ≠ .conditionBody := by
        rintro rfl
        rcases hprev with hprev | hprev
        · exact hprev ((admits_conditionBody x rest).mp hd).1
        · exact hprev rfl
      rw [follow_of_ne hend]
      split_ifs
      · exact .inr (.inl ⟨h.around hbody, by simpa using hcond⟩)
      · exact .inl ⟨⟨h.takes, h.saw, h.sawNo⟩, by simpa using hcond⟩

lemma Stuck.follow (h : Stuck stack) (hadmits : ∀ d, c = some d → admits d stack = true) :
    Stuck (follow c stack) := by
  cases stack with
  | nil => exact h.elim
  | cons x rest =>
    rcases h with ⟨hx, hprev⟩ | h
    · exact stuck_of_awaits hx (.inl hprev) hadmits
    cases c with
    | none => exact .inr (h.congr rfl)
    | some d =>
      by_cases hend : d = .blockEnd
      · subst hend
        cases rest with
        | nil => exact h.elim
        | cons y rest =>
          rcases h with ⟨hy, hx⟩ | h
          · exact .inl ⟨⟨hy.takes, hy.saw, hy.sawNo⟩, hx⟩
          · exact .inr (h.congr rfl)
      · rw [follow_of_ne hend]
        split_ifs
        · exact .inr (.inr (h.congr (construct_around d x)))
        · exact .inr (h.congr rfl)

lemma isChain_retop (hy : y.construct = x.construct)
    (h : (x :: rest).IsChain fun x y => x.construct = some .condition → y.Awaits) :
    (y :: rest).IsChain fun x y => x.construct = some .condition → y.Awaits := by
  cases rest with
  | nil => exact List.isChain_singleton _
  | cons z rest =>
    obtain ⟨hz, hrest⟩ := List.isChain_cons_cons.mp h
    exact List.isChain_cons_cons.mpr ⟨fun hcond => hz (hy ▸ hcond), hrest⟩

/-- The innermost block may change in what came last in it and in what it has seen. -/
lemma Coherent.retop (h : Coherent (x :: rest)) (hy : y.construct = x.construct)
    (hbody : y.sawConditionBody = true → y.sawCondition = true)
    (htop : y.previous = some .condition → y.Awaits) : Coherent (y :: rest) where
  body := by
    rintro z (_ | ⟨_, hz⟩)
    · exact hbody
    · exact h.body z (List.mem_cons_of_mem _ hz)
  top := by
    rintro z hz
    obtain rfl : y = z := by simpa using hz
    exact htop
  below := isChain_retop hy h.below

lemma Coherent.tail (h : Coherent (x :: y :: rest)) : (x.construct = some .condition → y.Awaits) ∧
    Coherent ({ y with previous := none } :: rest) := by
  obtain ⟨hx, hchain⟩ := List.isChain_cons_cons.mp h.below
  refine ⟨hx, ?_, by simp, isChain_retop (x := y) rfl hchain⟩
  rintro z (_ | ⟨_, hz⟩)
  · exact h.body y (by simp)
  · exact h.body z (List.mem_cons_of_mem _ (List.mem_cons_of_mem _ hz))

lemma Coherent.follow (h : Coherent stack) (hadmits : ∀ d, c = some d → admits d stack = true) :
    Coherent (follow c stack) := by
  cases stack with
  | nil =>
    cases c with
    | none => exact h
    | some d =>
      have hnil : Shape.follow (some d) [] = [] := by
        cases d
        all_goals rfl
      rwa [hnil]
  | cons x rest =>
    have hx := h.body x List.mem_cons_self
    cases c with
    | none => exact h.retop rfl hx (by simp)
    | some d =>
      have hd := hadmits d rfl
      by_cases hend : d = .blockEnd
      · subst hend
        cases rest with
        | nil => simp [admits] at hd
        | cons y rest =>
          obtain ⟨hawaits, htail⟩ := h.tail
          refine htail.retop rfl (h.body y (by simp)) fun hprev => ?_
          obtain ⟨htakes, hsaw, hno⟩ := hawaits hprev
          exact ⟨htakes, hsaw, hno⟩
      · rw [follow_of_ne hend]
        split_ifs with hopens
        · have hbody : (around d x).sawConditionBody = true →
              (around d x).sawCondition = true := by
            cases d with
            | condition => exact fun _ => rfl
            | conditionBody =>
              intro _
              have hprev := ((admits_conditionBody x rest).mp hd).1
              exact (h.top x (by simp) hprev).saw
            | _ => exact hx
          refine ⟨?_, by simp, List.isChain_cons_cons.mpr
            ⟨fun hcond => ?_, isChain_retop (construct_around d x) h.below⟩⟩
          · rintro z (_ | ⟨_, _ | ⟨_, hz⟩⟩)
            · simp
            · exact hbody
            · exact h.body z (List.mem_cons_of_mem _ hz)
          · obtain rfl := Option.some.inj hcond
            obtain ⟨htakes, hsaw⟩ := (admits_condition x rest).mp hd
            refine ⟨htakes, rfl, ?_⟩
            by_contra hno
            rw [hx (by simpa [around] using hno)] at hsaw
            cases hsaw
        · refine h.retop rfl hx fun hprev => ?_
          rw [Option.some.inj hprev] at hopens
          exact absurd rfl hopens

end Shape

/-! ## Programs that grow -/

namespace Site.Works

variable {a b : Site} {m k : MethodId} {R : Rules}

section

variable (h : a.Works m b)
include h

lemma method_epilogue (k : MethodId) :
    (b.program.method k).epilogue = (a.program.method k).epilogue := by
  by_cases hk : k = m
  · rw [hk]
    exact h.epilogue
  · rw [h.others k hk]

lemma returns {slot : SlotId} (hr : b.program.Returns slot) : a.program.Returns slot := by
  obtain ⟨x, hx, hepilogue⟩ := hr
  obtain ⟨k, hk, rfl⟩ := Program.exists_method_of_mem hx
  exact ⟨_, Program.method_mem (h.methods ▸ hk), h.method_epilogue k ▸ hepilogue⟩

lemma enlarges : a.program.Enlarges b.program :=
  ⟨h.grows.slots, fun _ hr => .inl (h.returns hr), fun _ _ hc => h.callee hc,
    fun _ he => h.hasEntry he, fun id hge hlt => (h.sound.table.plain id hlt (h.makes id hge hlt).kind).2.1⟩

lemma tidy (ha : a.program.Tidy) : b.program.Tidy :=
  ha.enlarge h.enlarges h.makes fun _ hr => h.returns hr

/-- The methods that are not worked on stay in phrases. -/
lemma spelled_others (hk : k ≠ m)
    (harena : ∀ id ∈ (a.program.method k).body.toList, b.program.instr id = a.program.instr id)
    (hspelled : a.program.Spelled R k) : b.program.Spelled R k := by
  have hlines : b.program.lines k = a.program.lines k := by
    unfold Program.lines
    rw [h.others k hk]
    exact List.map_congr_left fun id hid => Program.line_congr (harena id hid)
  unfold Program.Spelled
  rw [hlines]
  have hmethod := h.others k hk
  refine hspelled.mono (h.enlarges.terms_le R.free (fun hs => hmethod ▸ hs) fun l hl => ?_)
  rcases hl with hl | hl
  · exact .inl ⟨hmethod ▸ hl.mem, (harena l hl.mem).trans hl.nop⟩
  · exact .inr (hmethod ▸ hl)

end

end Site.Works

/-- What stands in the body of a method stays there, and labels stay labels. -/
structure Program.Retains (m : MethodId) (p q : Program) : Prop where
  body : (p.method m).body.toList ⊆ (q.method m).body.toList
  label : ∀ l, p.Label m l → q.Label m l

lemma Program.Retains.of_body {m : MethodId}
    (hbody : (p.method m).body.toList ⊆ (q.method m).body.toList)
    (harena : ∀ l, p.Label m l → q.instr l = p.instr l) : p.Retains m q :=
  ⟨hbody, fun l hl => ⟨hbody hl.mem, (harena l hl).trans hl.nop⟩⟩

namespace Site.Adds

variable {a b : Site} {m : MethodId}

lemma retains (h : a.Adds m code b) (ha : a.Sound) (hm : m < a.program.methods.size) :
    a.program.Retains m b.program := by
  obtain ⟨new, hnew, -⟩ := h.body
  refine .of_body ?_ fun l hl => h.arena l (ha.body_lt hm hl.mem)
  rw [hnew]
  exact List.subset_append_left _ _

lemma label_mem (h : a.Adds m code b) (hl : .label l ∈ code) : b.program.Label m l := by
  obtain ⟨new, hnew, rfl, -⟩ := h.body
  obtain ⟨id, hid, hline⟩ := List.mem_map.mp hl
  obtain ⟨hnop, rfl⟩ := Program.line_eq_label.mp hline
  refine ⟨?_, hnop⟩
  rw [hnew]
  exact List.mem_append_right _ hid

end Site.Adds

/-! ## States of a compile -/

/-- The labels and jumps that the block knows are in the body. -/
structure Frame.Local (f : Frame) (p : Program) (m : MethodId) : Prop where
  start : ∀ l, f.startLabel = some l → p.Label m l
  chain : ∀ id ∈ f.chainJumps, id ∈ (p.method m).body.toList
  closed : ∀ c, f.lastClosed = some c → ∀ id ∈ c.chainJumps, id ∈ (p.method m).body.toList

lemma Frame.Local.mono {m : MethodId} (h : f.Local p m) (hpq : p.Retains m q) : f.Local q m :=
  ⟨fun l hl => hpq.label l (h.start l hl), fun id hid => hpq.body (h.chain id hid),
    fun c hc id hid => hpq.body (h.closed c hc id hid)⟩

/-- What the call of a merged action uses is there for it alone. -/
structure MergedEntry.Fine (e : MergedEntry) (p : Program) : Prop where
  callee : p.Callee e.method e.returnSlot
  parameters : ∀ x ∈ e.parameters, p.Open x.2
  eventSlots : ∀ x ∈ e.eventSlots, p.Open x.2

lemma MergedEntry.Fine.enlarge {e : MergedEntry} (h : e.Fine p) (he : p.Enlarges q) : e.Fine q where
  callee := he.callee _ _ h.callee
  parameters x hx := (h.parameters x hx).enlarge he
  eventSlots x hx := (h.eventSlots x hx).enlarge he

/-- What the entry of a group uses is there for it alone. -/
structure GroupEntry.Fine (e : GroupEntry) (p : Program) : Prop where
  callee : p.Callee e.method e.returnSlot
  parameters : ∀ x ∈ e.parameters, p.Open x.2
  eventSlots : ∀ x ∈ e.eventSlots, p.Open x.2

/-- A group whose methods are in phrases. -/
structure CompiledGroup.Fine (R : Rules) (g : CompiledGroup) : Prop where
  tidy : g.program.Tidy
  unwatched : g.program.Unwatched
  internal : g.program.Internal
  spelled : ∀ k < g.program.methods.size, g.program.Spelled R k
  entries : ∀ e ∈ g.entries, e.Fine g.program

lemma GroupEntry.Fine.merged {e : GroupEntry} {host sub host' : Program} {r : Renaming}
    (he : e.Fine sub) (h : Program.Merged host sub r host') (howns : host.slots.Owns)
    (hhost : host.Tidy) (hsub : sub.Tidy) (htable : host.slots.Sound) : (r.entry e).Fine host' where
  callee := h.callee he.callee
  parameters x hx := by
    obtain ⟨y, hy, rfl⟩ := List.mem_map.mp hx
    exact h.isOpen howns hhost hsub htable (he.parameters y hy)
  eventSlots x hx := by
    obtain ⟨y, hy, rfl⟩ := List.mem_map.mp hx
    exact h.isOpen howns hhost hsub htable (he.eventSlots y hy)

namespace LowerState

variable {s t : LowerState} {env : Environment} {R : Rules}

/-- The labels that code of the current method may jump to. -/
def Goal (s : LowerState) (l : InstrId) : Prop :=
  s.program.Own s.method l ∨ l ∈ s.scopes.endLabels

/-- All but the current body is as it should be. -/
structure Kept (env : Environment) (R : Rules) (s : LowerState) : Prop where
  tidy : s.program.Tidy
  others : ∀ k < s.program.methods.size, k ≠ s.method → s.program.Spelled R k
  inputs : ∀ e ∈ s.eventInputs, s.program.Open e.2
  merges : ∀ e ∈ s.merges, (∀ x ∈ e.2.entries, x.Fine s.program) ∧
    ∃ (group : CompiledGroup) (r : Renaming), env.registry.group? e.1 = some group ∧
      e.2.entries = group.entries.map r.entry
  frames : ∀ f ∈ s.scopes.frames, f.Local s.program s.method

lemma Kept.works (h : s.Kept env R) (hw : s.site.Works s.method t.site)
    (hmethod : t.method = s.method) (hinputs : t.eventInputs = s.eventInputs)
    (hmerges : t.merges = s.merges)
    (harena : ∀ k < s.program.methods.size, k ≠ s.method →
      ∀ id ∈ (s.program.method k).body.toList, t.program.instr id = s.program.instr id)
    (hframes : ∀ f ∈ t.scopes.frames, f.Local t.program s.method) : t.Kept env R where
  tidy := hw.tidy h.tidy
  others k hk hne := by
    have hk' : k < s.program.methods.size := hw.methods ▸ hk
    rw [hmethod] at hne
    exact hw.spelled_others hne (harena k hk' hne) (h.others k hk' hne)
  inputs e he := (h.inputs e (hinputs ▸ he)).enlarge hw.enlarges
  merges e he := by
    obtain ⟨hfine, hgroup⟩ := h.merges e (hmerges ▸ he)
    exact ⟨fun x hx => (hfine x hx).enlarge hw.enlarges, hgroup⟩
  frames f hf := by
    rw [hmethod]
    exact hframes f hf

lemma Kept.adds (h : s.Kept env R) (hs : s.site.Sound) (hadds : s.site.Adds s.method code t.site)
    (hmethod : t.method = s.method) (hinputs : t.eventInputs = s.eventInputs)
    (hmerges : t.merges = s.merges) (hframes : ∀ f ∈ t.scopes.frames, f.Local t.program s.method) :
    t.Kept env R :=
  h.works hadds.toWorks hmethod hinputs hmerges
    (fun _ hk _ id hid => hadds.arena id (hs.body_lt hk hid))
    hframes

/-- The current body is in phrases up to the given lines. -/
def Spoken (R : Rules) (s : LowerState) (rest : List Line) : Prop :=
  ∃ code, Spells (s.program.terms R s.method s.Goal) code ∧ s.program.lines s.method = code ++ rest

/-- Work on the current body leaves it all that it could refer to. -/
lemma terms_le (R : Rules) (hworks : s.site.Works s.method t.site) (hmethod : t.method = s.method)
    (hgoal : ∀ l, s.Goal l → t.Goal l) :
    (s.program.terms R s.method s.Goal).Le (t.program.terms R t.method t.Goal) := by
  refine hworks.enlarges.terms_le R ?_ hgoal
  rw [hmethod]
  exact hworks.serializes

lemma goal_of_label (hmethod : t.method = s.method) (hl : t.program.Label s.method l) : t.Goal l :=
  .inl (.inl (hmethod.symm ▸ hl))

/-- Labels that stay labels can still be jumped to. -/
lemma goal_retains (hretains : s.program.Retains s.method t.program)
    (hworks : s.site.Works s.method t.site) (hmethod : t.method = s.method)
    (hends : ∀ l ∈ s.scopes.endLabels, t.Goal l) : ∀ l, s.Goal l → t.Goal l := by
  rintro l ((hl | hl) | hl)
  · exact goal_of_label hmethod (hretains.label l hl)
  · refine .inl (.inr ?_)
    rw [hmethod]
    exact hworks.ending l hl
  · exact hends l hl

/-- Lines were added that end what was left open. -/
lemma Spoken.adds {rest rest'' : List Line} (rest' : List Line) (h : s.Spoken R rest) (hs : s.Sound)
    (hadds : s.site.Adds s.method code t.site) (hmethod : t.method = s.method)
    (hends : ∀ l ∈ s.scopes.endLabels, t.Goal l) (hcode : rest ++ code = rest' ++ rest'')
    (hspells : Spells (t.program.terms R t.method t.Goal) rest') : t.Spoken R rest'' := by
  obtain ⟨before, hbefore, hlines⟩ := h
  refine ⟨before ++ rest', (hbefore.mono ?_).append hspells, ?_⟩
  · exact terms_le R hadds.toWorks hmethod
      (goal_retains (hadds.retains hs.site hs.method_lt) hadds.toWorks hmethod hends)
  · rw [hmethod]
    refine (hadds.lines hs.site hs.method_lt).trans ?_
    change s.program.lines s.method ++ code = _
    rw [hlines, List.append_assoc, hcode, List.append_assoc]

/-- What the last action of a block leaves at the end of the body: a condition leaves the push of its
result, and a block that a later action refers to leaves the label of its end. -/
def Trail (p : Program) : Option Construct → List Line → Prop
  | some .condition, rest => ∃ c, p.Clean c ∧ rest = [.code (.push c)]
  | some .ifBranch, rest | some .elseIf, rest | some .conditionBody, rest => ∃ l, rest = [.label l]
  | _, rest => rest = []

lemma Trail.spells {previous : Option Construct} {rest : List Line} (h : Trail p previous rest)
    (hprev : previous ≠ some .condition) : Spells v rest := by
  unfold Trail at h
  split at h
  · exact absurd rfl hprev
  · obtain ⟨l, rfl⟩ := h
    exact Spells.label l
  · obtain ⟨l, rfl⟩ := h
    exact Spells.label l
  · obtain ⟨l, rfl⟩ := h
    exact Spells.label l
  · rw [h]
    exact Spells.nil

lemma Trail.enlarge {previous : Option Construct} {rest : List Line} (h : Trail p previous rest)
    (he : p.Enlarges q) : Trail q previous rest := by
  unfold Trail at h ⊢
  split at h
  · obtain ⟨c, hc, rfl⟩ := h
    exact ⟨c, hc.enlarge he, rfl⟩
  all_goals exact h

/-- What came last in the innermost block. -/
def last (s : LowerState) : Option Construct := s.scopes.frames.head?.bind (·.previous)

/-- The state of a compile that goes well. -/
structure Disciplined (env : Environment) (R : Rules) (s : LowerState) : Prop where
  kept : s.Kept env R
  lines : s.method < s.program.methods.size → ∃ rest, Trail s.program s.last rest ∧ s.Spoken R rest

end LowerState

/-! ## Bindings -/

namespace Lower

variable {s t u : LowerState} {env : Environment} {R : Rules}

lemma result?_mem (hs : s.Sound) (h : s.scopes.result? = some id) : id ∈ s.site.temps := by
  unfold ScopeStack.result? at h
  obtain ⟨f, hf, hid⟩ := Option.bind_eq_some_iff.mp h
  have hmem := List.mem_of_find?_eq_some hf
  refine List.mem_append_left _ (List.mem_flatMap.mpr ⟨f, hmem, ?_⟩)
  exact (hs.frames f hmem).result_owned id hid

/-- What a binding denotes may be used, and it may be written if the binding may. -/
lemma Denotes.clean {b : Binding} (h : Denotes s b id) (hs : s.Sound) (hk : s.Kept env R)
    (hb : b.holdsAddress = false) :
    s.program.Clean id ∧ (b.isWritable = true → s.program.Writable id) := by
  have hopen : s.program.Open id → s.program.Clean id ∧ (b.isWritable = true → s.program.Writable id) :=
    fun h => ⟨h.clean, fun _ => h.writable⟩
  have htemp : id ∈ s.site.temps → s.program.Open id := fun hid =>
    hk.tidy.of_temporary hs.site.table (hs.site.pool.used id hid).1 (hs.site.pool.used id hid).2
  have hweak : s.program.Clean id ∧ s.program.Writable id →
      s.program.Clean id ∧ (b.isWritable = true → s.program.Writable id) :=
    fun h => ⟨h.1, fun _ => h.2⟩
  unfold Denotes at h
  split at h
  · exact hopen (htemp (List.mem_append_right _ h))
  · obtain ⟨type, hconst⟩ := h
    refine ⟨hk.tidy.of_isConstant hconst fun x hx => ?_, fun hw => ?_⟩
    · rw [hx] at hb
      cases hb
    · cases hw
  · obtain ⟨hlt, hkind⟩ := hs.site.table.user _ (mem_of_lookup h)
    exact hweak (hk.tidy.of_hasKind hs.site.table ⟨hlt, List.mem_pair.mpr (.inr hkind)⟩)
  · exact hweak (hk.tidy.of_hasKind hs.site.table (hs.locals _ (mem_of_lookup h)))
  · exact hweak (hk.tidy.of_hasKind hs.site.table (hs.locals _ (mem_of_lookup h)))
  · exact hopen (hk.inputs _ (mem_of_lookup h))
  · exact hopen (htemp (result?_mem hs h))
  · exact ⟨hk.tidy.of_isThis hs.site.table h, fun hw => by cases hw⟩

/-- What a bound action may use and write. -/
structure Usable (p : Program) (R : Rules) (d : ActionDef) (r : BoundAction) : Prop where
  inputs : ∀ x ∈ r.inputs, p.Clean x
  targets : ∀ x ∈ r.targets, p.Clean x
  writable : ∀ x ∈ d.parameters.zip r.inputs, x.1.direction.writes = true →
    (x.1.direction = .out ∨ R.strict) → p.Writable x.2

lemma Bound.usable {a : Action} (h : Bound d a s r) (hs : s.Sound) (hk : s.Kept env R)
    (ha : a.NoAddress) (hstrict : R.strict → ∀ x ∈ d.parameters, x.direction ≠ .both) :
    Usable s.program R d r  where
  inputs x hx := by
    obtain ⟨i, hi, rfl⟩ := List.mem_iff_getElem.mp hx
    have hi' : i < a.inputs.length := h.inputs.length_eq ▸ hi
    refine ((h.inputs.get hi' hi).clean hs hk (ha _ ?_)).1
    exact List.mem_append_left _ (List.getElem_mem hi')
  targets x hx := by
    obtain ⟨b, hb, hden⟩ := h.targets x hx
    exact (hden.clean hs hk (ha b (List.mem_append_right _ hb))).1
  writable x hx hwrites hor := by
    obtain ⟨i, hi, rfl⟩ := List.mem_iff_getElem.mp hx
    have hlen := h.inputs.length_eq
    have harity := h.arity
    simp only [List.length_zip] at hi
    have hi₁ : i < a.inputs.length := by omega
    have hi₂ : i < r.inputs.length := by omega
    have hmem : (d.parameters[i], a.inputs[i]) ∈ d.parameters.zip a.inputs :=
      List.mem_iff_getElem.mpr ⟨i, by simp; omega, by simp⟩
    rw [List.getElem_zip] at hwrites hor ⊢
    refine ((h.inputs.get hi₁ hi₂).clean hs hk (ha _ ?_)).2 ?_
    · exact List.mem_append_left _ (List.getElem_mem hi₁)
    · refine h.writable _ hmem ?_
      rcases hor with hout | hr
      · exact hout
      · have hne := hstrict hr _ (List.of_mem_zip hmem).1
        cases hdirection : d.parameters[i].direction with
        | into => simp [hdirection, Direction.writes] at hwrites
        | out => rfl
        | both => exact absurd hdirection hne

lemma Usable.enlarge (h : Usable p R d r) (he : p.Enlarges q) : Usable q R d r where
  inputs x hx := (h.inputs x hx).enlarge he
  targets x hx := (h.targets x hx).enlarge he
  writable x hx hwrites hor := (h.writable x hx hwrites hor).enlarge
    (h.inputs x.2 (List.of_mem_zip hx).2).lt he

/-! ## Lines that are added -/

lemma Prepares.disciplined (h : Prepares s t) (hs : s.Sound) (hd : s.Disciplined env R) :
    t.Disciplined env R := by
  obtain ⟨f, rest, new, hf, hframes, -⟩ := h.locals
  have hretains : s.program.Retains s.method t.program := h.adds.retains hs.site hs.method_lt
  have hlast : t.last = s.last := by simp [LowerState.last, hf, hframes, Frame.declare]
  have hends : t.scopes.endLabels = s.scopes.endLabels := by
    unfold ScopeStack.endLabels
    rw [hf, hframes]
    rfl
  refine ⟨hd.kept.adds hs.site h.adds h.method h.eventInputs h.merges fun g hg => ?_, fun hm => ?_⟩
  · rw [hframes] at hg
    rcases List.mem_cons.mp hg with rfl | hg
    · have hlocal := (hd.kept.frames f (by simp [hf])).mono hretains
      exact ⟨hlocal.start, hlocal.chain, hlocal.closed⟩
    · exact (hd.kept.frames g (by simp [hf, hg])).mono hretains
  · obtain ⟨trail, htrail, hspoken⟩ := hd.lines hs.method_lt
    refine ⟨trail, ?_, hspoken.adds [] hs h.adds h.method (fun l hl => .inr (hends ▸ hl))
      (by simp) Spells.nil⟩
    rw [hlast]
    exact htrail.enlarge h.adds.enlarges

lemma Emits.endLabels (h : Emits s code t) : s.scopes.endLabels ⊆ t.scopes.endLabels := by
  intro l hl
  obtain ⟨f, hf, hfl⟩ := List.mem_filterMap.mp hl
  obtain ⟨i, hi, rfl⟩ := List.mem_iff_getElem.mp hf
  have hi' : i < t.scopes.frames.length := h.frames.length_eq ▸ hi
  exact List.mem_filterMap.mpr
    ⟨_, List.getElem_mem hi', (h.frames.get hi hi').ending l hfl⟩

lemma Emits.kept (h : Emits s code t) (hs : s.Sound) (hk : s.Kept env R) : t.Kept env R := by
  have hstate := h.state
  have hretains : s.program.Retains s.method t.program := h.adds.retains hs.site hs.method_lt
  refine hk.adds hs.site h.adds h.method (by rw [hstate]; rfl) (by rw [hstate]; rfl) fun g hg => ?_
  obtain ⟨i, hi, rfl⟩ := List.mem_iff_getElem.mp hg
  have hi' : i < s.scopes.frames.length := h.frames.length_eq ▸ hi
  have hlocal := (hk.frames _ (List.getElem_mem hi')).mono hretains
  have hsame := (h.frames.get hi' hi).same
  rw [List.get_eq_getElem, List.get_eq_getElem] at hsame
  rw [hsame]
  exact ⟨hlocal.start, hlocal.chain, hlocal.closed⟩

/-- Phrases were added after what the last action left. -/
lemma Emits.spoken (h : Emits s code t) (hs : s.Sound) (hd : s.Disciplined env R)
    (hlast : s.last ≠ some .condition) (hspells : Spells (t.program.terms R t.method t.Goal) code) :
    t.Spoken R [] := by
  obtain ⟨trail, htrail, hspoken⟩ := hd.lines hs.method_lt
  exact hspoken.adds (trail ++ code) hs h.adds h.method (fun l hl => .inr (h.endLabels hl))
    (by simp) ((htrail.spells hlast).append hspells)

lemma Settles.disciplined {rest : List Line} (h : Settles u d t) (hu : u.Sound)
    (hf : u.scopes.frames = f :: frames) (hk : u.Kept env R) (hspoken : u.Spoken R rest)
    (htrail : LowerState.Trail u.program t.last rest) :
    t.Disciplined env R := by
  have hstate := h.state
  have hscopes : t.scopes = remember d u.scopes := by rw [hstate]
  have hretains : u.program.Retains u.method t.program := h.adds.retains hu.site hu.method_lt
  have hends : t.scopes.endLabels = u.scopes.endLabels := by
    have hsite := congrArg Site.labels (site_remember d u)
    rw [hscopes]
    exact hsite
  refine ⟨hk.adds hu.site h.adds h.method (by rw [hstate]) (by rw [hstate]) fun g hg => ?_,
    fun _ => ⟨rest, htrail.enlarge h.adds.enlarges, ?_⟩⟩
  · rw [h.frames_eq hf] at hg
    rcases List.mem_cons.mp hg with rfl | hg
    · have hlocal := (hk.frames f (by simp [hf])).mono hretains
      split_ifs
      · exact hlocal
      · exact ⟨hlocal.start, hlocal.chain, hlocal.closed⟩
    · exact (hk.frames g (by simp [hf, hg])).mono hretains
  · exact hspoken.adds [] hu h.adds h.method (fun l hl => .inr (hends ▸ hl)) (by simp)
      Spells.nil

/-! ## Statements -/

/-- The labels that the open blocks and the method have, with another in place of one that is not
there. -/
def exitsOr (s : LowerState) (l : InstrId) : Exits where
  leave := ((s.scopes.frames.find? (·.isLoop)).bind (·.endLabel)).getD l
  again := ((s.scopes.frames.find? (·.isLoop)).bind (·.startLabel)).getD l
  decided := ((s.scopes.frames.find? (·.construct? = some .condition)).bind (·.endLabel)).getD l
  miss := (s.scopes.frames.head?.bind (·.endLabel)).getD l
  ending := ((s.program.method s.method).endLabel).getD l

lemma exitsOr_agrees (s : LowerState) (l : InstrId) : (exitsOr s l).Agrees s where
  leave f l hf hl := by simp [exitsOr, hf, hl]
  again f l hf hl := by simp [exitsOr, hf, hl]
  decided f l hf hl := by simp [exitsOr, hf, hl]
  miss f l hf hl := by simp [exitsOr, hf, hl]
  ending l hl := by simp [exitsOr, hl]

/-- A jump to a label, whatever stands in for it where it is not there. -/
lemma Spells.jump_getD {o : Option InstrId} (h₀ : code = [.code (.jump (o.getD 0))])
    (h₁ : code = [.code (.jump (o.getD 1))]) (hl : ∀ l, o = some l → v.target l) : Spells v code := by
  cases o with
  | none => simpa using h₀.symm.trans h₁
  | some l =>
    rw [h₀]
    exact Spells.jump (hl l rfl)

lemma Spells.branch_getD {o : Option InstrId} {c c' : SlotId} {before before' : List Line}
    (h : before ++ branchLines c (o.getD 0) = before' ++ branchLines c' (o.getD 1)) (hc : v.clean c)
    (hl : ∀ l, o = some l → v.target l) : Spells v (branchLines c (o.getD 0)) := by
  cases o with
  | none => simpa [branchLines] using congrArg List.getLast? h
  | some l => exact Spells.branch hc (hl l rfl)

lemma goal_of_find {q : Frame → Bool} (h : (s.scopes.frames.find? q).bind (·.endLabel) = some l) :
    s.Goal l := by
  obtain ⟨f, hf, hl⟩ := Option.bind_eq_some_iff.mp h
  exact .inr (List.mem_filterMap.mpr ⟨f, List.mem_of_find?_eq_some hf, hl⟩)

/-- The lines of a statement are phrases. That they fit all labels that agree with the state shows that
they jump only to labels that there are. -/
lemma spells_statement {c : Construct} {result : Option SlotId} {temps : List SlotId}
    (hR : R.Covers) (ht : t.Sound) (hk : t.Kept env R) (hd : d.parameters = c.parameters)
    (hr : Usable t.program R d r) (hresult : ∀ id, result = some id → t.program.Open id)
    (hlabels : ∀ l, .label l ∈ code → t.Goal l) (h : ∀ x : Exits, x.Agrees t →
      StatementLines t.setting temps x result c r.inputs code) :
    Spells (t.program.terms R t.method t.Goal) code := by
  have h₀ := h _ (exitsOr_agrees t 0)
  have h₁ := h _ (exitsOr_agrees t 1)
  have hassign : ∀ value goal, r.inputs = [value, goal] →
      (∃ p₁ p₂, d.parameters = [p₁, p₂] ∧ p₂.direction = .out) →
      AssignLines t.setting temps value goal code →
      Spells (t.program.terms R t.method t.Goal) code := by
    rintro value goal hin ⟨p₁, p₂, hparameters, hout⟩ hlines
    refine Program.spells_assign hk.tidy ht.site.table hR hlines (hr.inputs _ (by simp [hin]))
      (hr.inputs _ (by simp [hin])) (fun _ => ?_) hlabels
    refine hr.writable (p₂, goal) (by simp [hin, hparameters]) ?_ (.inl hout)
    rw [hout]
    rfl
  unfold StatementLines at h₀ h₁
  split at h₀
  · rename_i value hin
    rw [hin] at h₁
    obtain ⟨res, negated, hres, hnegated, rfl⟩ := h₀
    obtain ⟨res', negated', hres', -, hcode⟩ := h₁
    have hvalue := hr.inputs value (by simp [hin])
    have hneg := hk.tidy.of_spare ht.site.table hnegated
    exact ((Program.spells_copy hvalue (hresult _ hres)).append
      (Program.spells_negation hR hvalue hneg)).append
      (Spells.branch_getD hcode hneg.clean fun l hl => goal_of_find hl)
  · rename_i value hin
    rw [hin] at h₁
    obtain ⟨res, hres, rfl⟩ := h₀
    obtain ⟨res', hres', hcode⟩ := h₁
    have hvalue := hr.inputs value (by simp [hin])
    exact (Program.spells_copy hvalue (hresult _ hres)).append
      (Spells.branch_getD hcode hvalue fun l hl => goal_of_find hl)
  · rename_i hin
    rw [hin] at h₁
    exact Spells.jump_getD h₀ h₁ fun l hl => goal_of_find hl
  · rename_i hin
    rw [hin] at h₁
    refine Spells.jump_getD h₀ h₁ fun l hl => ?_
    obtain ⟨f, hf, hstart⟩ := Option.bind_eq_some_iff.mp hl
    exact .inl (.inl ((hk.frames f (List.mem_of_find?_eq_some hf)).start l hstart))
  · rename_i hin
    rw [hin] at h₁
    exact Spells.jump_getD h₀ h₁ fun l hl => .inl (.inr hl)
  · rename_i value goal hin
    exact hassign value goal hin ⟨_, _, hd, rfl⟩ h₀
  · rename_i value goal hin
    exact hassign value goal hin ⟨_, _, hd, rfl⟩ h₀
  · exact h₀.elim

variable {a : Action}

/-- What is known of an action that is lowered. -/
structure Known (R : Rules) (d : ActionDef) (a : Action) : Prop where
  covers : R.Covers
  plain : d.IsPlain
  known : d.Known R
  noAddress : a.NoAddress
  strict : R.strict → ∀ x ∈ d.parameters, x.direction ≠ .both

lemma Known.parameters {c : Construct} (h : Known R d a) (hkind : d.kind = .construct c) :
    d.parameters = c.parameters := by
  have hplain := h.plain
  unfold ActionDef.IsPlain at hplain
  rwa [hkind] at hplain

lemma statement_spoken {c : Construct} (hknown : Known R d a) (hkind : d.kind = .construct c)
    (hs : s.Sound) (hd : s.Disciplined env R) (hlast : s.last ≠ some .condition)
    (bound : Bound d a s r) (emits : Emits s code t) (ht : t.Sound)
    (lines : ∀ x : Exits, x.Agrees t →
      StatementLines t.setting s.site.temps x s.scopes.result? c r.inputs code) :
    t.Kept env R ∧ t.Spoken R [] := by
  have hk := emits.kept hs hd.kept
  have henlarges := emits.adds.enlarges
  refine ⟨hk, emits.spoken hs hd hlast ?_⟩
  refine spells_statement hknown.covers ht hk (hknown.parameters hkind)
    ((bound.usable hs hd.kept hknown.noAddress hknown.strict).enlarge henlarges)
    (fun id hid => ?_) (fun _ hl => LowerState.goal_of_label emits.method (emits.adds.label_mem hl)) lines
  obtain ⟨hlt, htemp⟩ := hs.site.pool.used id (result?_mem hs hid)
  exact (hd.kept.tidy.of_temporary hs.site.table hlt htemp).enlarge henlarges

lemma call_spoken {signature : String} {onType : Option ValueType} {targets : List SlotId}
    (hknown : Known R d a) (hkind : d.kind = .host signature onType) (hs : s.Sound)
    (hd : s.Disciplined env R) (hlast : s.last ≠ some .condition) (bound : Bound d a s r)
    (emits : Emits s code t) (ht : t.Sound) (chosen : CallTargets t.program.slots onType r targets)
    (lines : HostLines t.setting s.site.temps signature targets r code) :
    t.Kept env R ∧ t.Spoken R [] := by
  have hk := emits.kept hs hd.kept
  have husable := (bound.usable hs hd.kept hknown.noAddress hknown.strict).enlarge
    emits.adds.enlarges
  refine ⟨hk, emits.spoken hs hd hlast ?_⟩
  refine Program.spells_host hk.tidy ht.site.table hknown.covers hknown.known hkind
    bound.definition (bound.inputs.length_eq.symm.trans bound.arity) chosen lines husable.inputs
    husable.targets (fun hstrict x hx hw => husable.writable x hx hw (.inr hstrict))
    fun _ hl => LowerState.goal_of_label emits.method (emits.adds.label_mem hl)

/-! ## Calls of groups -/

lemma Merges.disciplined {guid : String} {table : MergeTable} (h : Merges env s guid table t)
    (hgroups : SoundGroups env.registry) (hfine : ∀ e ∈ env.registry.groups, e.2.Fine R)
    (hs : s.Sound) (hd : s.Disciplined env R) :
    t.Disciplined env R ∧ t.last = s.last ∧ s.program.Enlarges t.program ∧
      t.eventInputs = s.eventInputs ∧ (guid, table) ∈ t.merges := by
  cases h with
  | before known =>
    exact ⟨hd, rfl, Program.Enlarges.refl _, rfl, mem_of_lookup known⟩
  | @now group r host unknown found merged entries =>
    have hmem := mem_of_lookup found
    have hg := hfine _ hmem
    have hsub := (hgroups _ hmem).program.table
    have htable := hs.site.table
    have howns : s.program.slots.Owns := fun id hid => (htable.this id).mp hid
    have henlarges := merged.enlarges hg.tidy hg.unwatched
    have hlines : ∀ k < s.program.methods.size, host.lines k = s.program.lines k := fun k hk =>
      merged.lines_host hk fun id hid => hs.site.body_lt hk hid
    have hretains : ∀ k < s.program.methods.size, s.program.Retains k host := fun k hk =>
      .of_body (fun id hid => merged.method_host hk ▸ hid) fun l hl =>
        merged.instr_host (hs.site.body_lt hk hl.mem)
    have hown : ∀ k < s.program.methods.size, ∀ l, s.program.Own k l → host.Own k l :=
      fun k hk l hl => hl.imp ((hretains k hk).label l) fun hl => merged.method_host hk ▸ hl
    have hserializes : ∀ k < s.program.methods.size,
        (s.program.method k).serializes = true → (host.method k).serializes = true :=
      fun k hk hflag => merged.method_host hk ▸ hflag
    refine ⟨⟨⟨?_, fun k hk hne => ?_, fun e he => ?_, fun e he => ?_, fun f hf => ?_⟩, fun _ => ?_⟩,
      rfl, henlarges, rfl, List.mem_cons_self⟩
    · exact merged.tidy hd.kept.tidy hg.tidy hg.unwatched
    · by_cases hlt : k < s.program.methods.size
      · unfold Program.Spelled
        change Spells _ (host.lines k)
        rw [hlines k hlt]
        exact (hd.kept.others k hlt hne).mono
          (henlarges.terms_le R.free (hserializes k hlt) (hown k hlt))
      · exact merged.spelled_sub howns hd.kept.tidy hg.tidy htable hsub hg.unwatched hg.internal
          hg.spelled
          (Nat.le_of_not_lt hlt) hk
    · exact (hd.kept.inputs e he).enlarge henlarges
    · rcases List.mem_cons.mp he with rfl | he
      · refine ⟨fun x hx => ?_, group, r, found, entries⟩
        rw [entries] at hx
        obtain ⟨y, hy, rfl⟩ := List.mem_map.mp hx
        exact (hg.entries y hy).merged merged howns hd.kept.tidy hg.tidy htable
      · obtain ⟨hentries, hgroup⟩ := hd.kept.merges e he
        exact ⟨fun x hx => (hentries x hx).enlarge henlarges, hgroup⟩
    · exact (hd.kept.frames f hf).mono (hretains _ hs.method_lt)
    · obtain ⟨rest, htrail, code, hcode, hrest⟩ := hd.lines hs.method_lt
      refine ⟨rest, htrail.enlarge henlarges, code, hcode.mono (henlarges.terms_le R ?_ ?_), ?_⟩
      · exact hserializes _ hs.method_lt
      · exact fun l hl => hl.imp (hown _ hs.method_lt l) id
      · exact (hlines _ hs.method_lt).trans hrest

lemma Speaks.emits (h : Speaks s code t) : ∃ warnings, Emits { s with warnings } code t := by
  obtain ⟨p, warnings, hstate⟩ := h.state
  refine ⟨warnings, ?_, ?_, ?_⟩
  · rw [hstate]
    rfl
  · exact h.adds
  · rw [hstate]
    exact Frame.Fills.stack_refl _

lemma disciplined_warnings (hd : s.Disciplined env R) (warnings : Array Warning) :
    LowerState.Disciplined env R { s with warnings } :=
  ⟨⟨hd.kept.tidy, hd.kept.others, hd.kept.inputs, hd.kept.merges, hd.kept.frames⟩, hd.lines⟩

lemma group_spoken {guid action : String} (hknown : Known R d a)
    (hgroups : SoundGroups env.registry) (hfine : ∀ e ∈ env.registry.groups, e.2.Fine R)
    (hagrees : R.strict → ∀ group, env.registry.group? guid = some group →
      ∀ e ∈ group.entries, e.name = action → e.parameters.map Prod.fst = d.parameters)
    (hcallable : ∀ e ∈ t.merges, ∀ x ∈ e.2.entries, R.callable x.method) (hs : s.Sound)
    (hd : s.Disciplined env R) (hlast : s.last ≠ some .condition) (bound : Bound d a s r)
    (h : CallsGroup env guid action r s t) (ht : t.Sound) :
    t.Kept env R ∧ t.Spoken R [] := by
  obtain ⟨merges, hu, -, found, -, speaks, lines⟩ := h
  rename_i table entry u code
  obtain ⟨hdu, hlast', henlarges, hinputs, hmem⟩ := merges.disciplined hgroups hfine hs hd
  obtain ⟨warnings, emits⟩ := speaks.emits
  have hu' : LowerState.Sound { u with warnings } :=
    ⟨hu.site, hu.method_lt, hu.frames, hu.locals, hu.inputs, hu.merges⟩
  have hdu' := disciplined_warnings hdu warnings
  have hk := emits.kept hu' hdu'.kept
  have hsteps := emits.adds.enlarges
  have husable := (bound.usable hs hd.kept hknown.noAddress hknown.strict).enlarge
    (henlarges.trans hsteps)
  refine ⟨hk, emits.spoken hu' hdu' (hlast' ▸ hlast) ?_⟩
  obtain ⟨hentries, group, _, hgroup, hmap⟩ := hdu.kept.merges _ hmem
  have hentry := List.mem_of_find?_eq_some found
  have hfound := (hentries entry hentry).enlarge hsteps
  have hmerges : t.merges = u.merges := by
    rw [emits.state]
    rfl
  refine Program.spells_group hk.tidy ht.site.table hknown.covers lines hfound.callee
    (hcallable _ (hmerges ▸ hmem) entry hentry) hfound.parameters hfound.eventSlots
    (fun x hx => ?_) husable.inputs (fun hstrict x hx hw => ?_) fun l hl => ?_
  · exact (hdu.kept.inputs x hx).clean.enlarge hsteps
  · have hparameters : entry.parameters.map Prod.fst = d.parameters := by
      have hname : entry.action = action := by simpa using List.find?_some found
      rw [hmap] at hentry
      obtain ⟨e, he, rfl⟩ := List.mem_map.mp hentry
      rw [← hagrees hstrict group hgroup e he hname]
      simp [Renaming.entry, Function.comp_def]
    refine husable.writable (x.1.1, x.2) ?_ hw (.inr hstrict)
    rw [← hparameters, List.zip_map_left]
    exact List.mem_map.mpr ⟨x, hx, rfl⟩
  · exact LowerState.goal_of_label emits.method (emits.adds.label_mem hl)

/-! ## Blocks that open -/

/-- The innermost block and what stands in front of it. -/
lemma Opens.kept (h : Opens s code g f' t) (hs : s.Sound) (hf : s.scopes.frames = f :: frames)
    (hk : s.Kept env R) (hg : g.Local t.program s.method) (hf' : f'.Local s.program s.method) :
    t.Kept env R := by
  have hstate := h.state
  have hretains : s.program.Retains s.method t.program := h.adds.retains hs.site hs.method_lt
  refine hk.adds hs.site h.adds h.method (by rw [hstate]; rfl) (by rw [hstate]; rfl) fun k hmem => ?_
  obtain ⟨f₀, rest, hf₀, hframes⟩ := h.frames
  obtain ⟨rfl, rfl⟩ := List.cons_eq_cons.mp (hf.symm.trans hf₀)
  rw [hframes] at hmem
  rcases List.mem_cons.mp hmem with rfl | hmem
  · exact hg
  rcases List.mem_cons.mp hmem with rfl | hmem
  · exact hf'.mono hretains
  · exact (hk.frames k (by simp [hf, hmem])).mono hretains

lemma Opens.endLabels (h : Opens s code g f' t) (hf : s.scopes.frames = f :: frames)
    (hf' : ∀ l, f.endLabel = some l → f'.endLabel = some l) :
    s.scopes.endLabels ⊆ t.scopes.endLabels := by
  obtain ⟨f₀, rest, hf₀, hframes⟩ := h.frames
  obtain ⟨rfl, rfl⟩ := List.cons_eq_cons.mp (hf.symm.trans hf₀)
  intro l hl
  unfold ScopeStack.endLabels at hl ⊢
  rw [hf] at hl
  rw [hframes]
  obtain ⟨k, hk, hkl⟩ := List.mem_filterMap.mp hl
  rcases List.mem_cons.mp hk with rfl | hk
  · exact List.mem_filterMap.mpr ⟨f', by simp, hf' l hkl⟩
  · exact List.mem_filterMap.mpr ⟨k, by simp [hk], hkl⟩

/-- A block opens in front of which phrases were added. -/
lemma Opens.spoken (h : Opens s code g f' t) (hs : s.Sound) (hf : s.scopes.frames = f :: frames)
    (hd : s.Disciplined env R) (hlast : s.last ≠ some .condition)
    (hf' : ∀ l, f.endLabel = some l → f'.endLabel = some l)
    (hspells : Spells (t.program.terms R t.method t.Goal) code) : t.Spoken R [] := by
  obtain ⟨trail, htrail, hspoken⟩ := hd.lines hs.method_lt
  exact hspoken.adds (trail ++ code) hs h.adds h.method
    (fun l hl => .inr (h.endLabels hf hf' hl)) (by simp) ((htrail.spells hlast).append hspells)

lemma Frame.Local.fresh {c : Construct} {coordinate : Coordinate} {m : MethodId} :
    (Frame.fresh c coordinate).Local p m :=
  ⟨fun _ hl => (by cases hl), fun _ hid => (by cases hid), fun _ hc => (by cases hc)⟩

end Lower

/-! ## Jumps that are turned -/

/-- The first line is the second, or a jump that was turned to another label. -/
def Turned (l : InstrId) (x y : Line) : Prop :=
  x = y ∨ x = .code (.jump l) ∧ ∃ t, y = .code (.jump t)

lemma turned_of_noJump {code' : List Line} (h : List.Forall₂ (Turned l) code' code)
    (hcode : ∀ t, .code (.jump t) ∉ code) : code' = code := by
  induction h with
  | nil => rfl
  | cons hx _ ih =>
    rcases hx with rfl | ⟨-, t, rfl⟩
    · rw [ih fun t ht => hcode t (List.mem_cons_of_mem _ ht)]
    · exact absurd List.mem_cons_self (hcode t)

lemma Watch.noJump (w : Watch) (t : InstrId) : .code (.jump t) ∉ w.lines := by
  unfold Watch.lines changeLines
  split_ifs
  all_goals simp [callLines, copyLines, branchLines]

lemma Phrase.noJump {x : Phrase} (hx : ∀ t, x ≠ .jump t) (t : InstrId) : .code (.jump t) ∉ x.lines := by
  cases x with
  | jump l => exact absurd rfl (hx l)
  | call signature arguments => simp [lines, callLines]
  | update source w => simpa [lines, copyLines] using w.noJump t
  | compute signature arguments w => simpa [lines, callLines] using w.noJump t
  | _ => simp [lines, copyLines, branchLines]

/-- Phrases stay phrases when jumps are turned. -/
lemma Spells.turned {code' : List Line} (h : Spells v code) (hl : v.target l)
    (hturned : List.Forall₂ (Turned l) code' code) : Spells v code' := by
  obtain ⟨xs, rfl, hxs⟩ := h
  induction xs generalizing code' with
  | nil =>
    rw [List.flatMap_nil, List.forall₂_nil_right_iff] at hturned
    rw [hturned]
    exact Spells.nil
  | cons x xs ih =>
    rw [List.flatMap_cons] at hturned
    have h₁ := List.forall₂_take_append _ _ _ hturned
    have h₂ := List.forall₂_drop_append _ _ _ hturned
    rw [← List.take_append_drop x.lines.length code']
    refine Spells.append ?_ (ih (fun y hy => hxs y (List.mem_cons_of_mem _ hy)) h₂)
    by_cases hx : ∀ t, x ≠ .jump t
    · rw [turned_of_noJump h₁ (Phrase.noJump hx)]
      exact Spells.phrase (hxs x List.mem_cons_self)
    · push Not at hx
      obtain ⟨t, rfl⟩ := hx
      obtain ⟨y, ys, hy, hys, hsame⟩ := List.forall₂_cons_right_iff.mp h₁
      rw [List.forall₂_nil_right_iff] at hys
      rw [hsame, hys]
      rcases hy with rfl | ⟨rfl, -⟩
      · exact Spells.phrase (hxs (.jump t) List.mem_cons_self)
      · exact Spells.jump hl

/-- No instruction has a place in two methods. -/
lemma Program.eq_of_mem_bodies (h : p.placed.Nodup) {j k : MethodId} (hj : j < p.methods.size)
    (hk : k < p.methods.size) {id : InstrId} (hidj : id ∈ (p.method j).body.toList)
    (hidk : id ∈ (p.method k).body.toList) : j = k := by
  have hget : ∀ i (hi : i < p.methods.toList.length), p.methods.toList[i] = p.method i := by
    intro i hi
    have hi' : i < p.methods.size := by simpa using hi
    simp [Program.method, Array.getD_eq_getD_getElem?, hi']
  have hdisjoint := List.pairwise_iff_getElem.mp (List.nodup_flatMap.mp h).2
  rcases Nat.lt_trichotomy j k with hlt | heq | hlt
  · have hno := hdisjoint j k (by simpa using hj) (by simpa using hk) hlt
    simp only [Function.onFun, hget] at hno
    exact absurd hidk (hno hidj)
  · exact heq
  · have hno := hdisjoint k j (by simpa using hk) (by simpa using hj) hlt
    simp only [Function.onFun, hget] at hno
    exact absurd hidj (hno hidk)

/-- The last line of a body is that of its last instruction. -/
lemma Program.lines_eq_concat {m : MethodId} {before : List InstrId} {last : InstrId} {x : Line}
    (hbody : (p.method m).body.toList = before ++ [last]) (h : p.lines m = code ++ [x]) :
    before.map p.line = code ∧ p.line last = x := by
  unfold Program.lines at h
  rw [hbody, List.map_append] at h
  obtain ⟨hcode, hlast⟩ := List.append_inj' h rfl
  exact ⟨hcode, (List.cons.inj hlast).1⟩

namespace Lower

variable {s t u : LowerState} {env : Environment} {R : Rules}

/-- Another branch of a chain opens. -/
lemma Chains.spoken {closed : ClosedBlock} {skip : InstrId} (h : Chains s closed g l skip t)
    (hs : s.Sound) (hf : s.scopes.frames = f :: frames) (hclosed : f.lastClosed = some closed)
    (hprev : f.previous = some .ifBranch ∨ f.previous = some .elseIf) (hg : ∀ p m, g.Local p m)
    (hd : s.Disciplined env R) : t.Kept env R ∧ t.Spoken R [] := by
  obtain ⟨before, last, -, hbody, hbody'⟩ := h.body
  have hstate := h.state
  have hmethod : t.method = s.method := by
    rw [hstate]
    rfl
  have hlocal := hd.kept.frames f (by simp [hf])
  have hframe := hs.frames f (by simp [hf])
  have hlt : ∀ id ∈ (s.program.method s.method).body.toList, id < s.program.instrs.size :=
    fun id hid => hs.site.body_lt hs.method_lt hid
  have hretains : s.program.Retains s.method t.program := by
    refine .of_body ?_ fun l' hl' => ?_
    · rw [hbody, hbody']
      intro id hid
      simp only [List.mem_append, List.mem_cons, List.not_mem_nil, or_false] at hid ⊢
      tauto
    · rw [h.instr l' (hlt l' hl'.mem), if_neg]
      intro hmem
      obtain ⟨x, hx⟩ := hframe.closed_chain closed hclosed l' hmem
      cases hl'.nop.symm.trans hx
  have hends : t.scopes.endLabels = l :: s.scopes.endLabels := by
    unfold ScopeStack.endLabels
    rw [h.frames]
    rfl
  have hgoal : ∀ l', s.Goal l' → t.Goal l' :=
    LowerState.goal_retains hretains h.works hmethod fun l' hl' =>
      .inr (hends ▸ List.mem_cons_of_mem _ hl')
  have hl : t.Goal l := .inr (hends ▸ List.mem_cons_self)
  -- a line of the old body is what it was, or one of the jumps of the chain
  have hline : ∀ id ∈ (s.program.method s.method).body.toList, Turned l (t.program.line id) (s.program.line id) := by
    intro id hid
    have hinstr := h.instr id (hlt id hid)
    split_ifs at hinstr with hmem
    · obtain ⟨x, hx⟩ := hframe.closed_chain closed hclosed id hmem
      exact .inr ⟨Program.line_eq_code.mpr ⟨hinstr, by simp⟩, x,
        Program.line_eq_code.mpr ⟨hx, by simp⟩⟩
    · exact .inl (Program.line_congr hinstr)
  refine ⟨hd.kept.works h.works hmethod (by rw [hstate]; rfl) (by rw [hstate]; rfl) ?_ ?_, ?_⟩
  · intro k hk hne id hid
    have hinstr := h.instr id (hs.site.body_lt hk hid)
    rwa [if_neg] at hinstr
    intro hmem
    exact hne (Program.eq_of_mem_bodies hs.site.placed_nodup hk hs.method_lt hid
      (hlocal.closed closed hclosed id hmem))
  · intro k hk
    rw [h.frames] at hk
    rcases List.mem_cons.mp hk with rfl | hk
    · refine ⟨(hg _ _).start, fun id hid => ?_, (hg _ _).closed⟩
      rcases List.mem_append.mp hid with hid | hid
      · exact hretains.body (hlocal.closed closed hclosed id hid)
      · rw [hbody', List.mem_singleton.mp hid]
        simp
    · exact (hd.kept.frames k hk).mono hretains
  · obtain ⟨rest, htrail, code, hcode, hlines⟩ := hd.lines hs.method_lt
    obtain ⟨l', rfl⟩ : ∃ l', rest = [.label l'] := by
      have hlast : s.last = f.previous := by simp [LowerState.last, hf]
      rw [hlast] at htrail
      rcases hprev with hprev | hprev
      all_goals
        rw [hprev] at htrail
        exact htrail
    obtain ⟨rfl, hlabel⟩ := Program.lines_eq_concat hbody hlines
    have hlabel' : t.program.line last = .label l' := by
      rcases hline last (by rw [hbody]; simp) with hsame | ⟨-, x, hx⟩
      · exact hsame.trans hlabel
      · cases hlabel.symm.trans hx
    have hskip : t.program.line skip = .code (.jump l) :=
      Program.line_eq_code.mpr ⟨h.skip_jump, by simp⟩
    refine ⟨before.map t.program.line ++ [.code (.jump l)] ++ [.label l'], ?_, ?_⟩
    · refine ((((hcode.mono (LowerState.terms_le R h.works hmethod hgoal)).turned hl ?_).append
        (Spells.jump hl)).append (Spells.label l'))
      rw [List.forall₂_map_left_iff, List.forall₂_map_right_iff, List.forall₂_same]
      exact fun id hid => hline id (by rw [hbody]; simp [hid])
    · unfold Program.lines
      rw [hmethod, hbody', List.map_append]
      simp [hskip, hlabel']

lemma goal_of_frame (hf : f ∈ s.scopes.frames) (hl : f.endLabel = some l) : s.Goal l :=
  .inr (List.mem_filterMap.mpr ⟨f, hf, hl⟩)

/-- A temporary that an open block owns may be used and written. -/
lemma open_of_owned (hs : s.Sound) (hk : s.Kept env R) (hf : f ∈ s.scopes.frames)
    (hid : id ∈ f.owned) : s.program.Open id := by
  obtain ⟨hlt, hkind⟩ := hs.site.pool.used id
    (List.mem_append_left _ (List.mem_flatMap.mpr ⟨f, hf, hid⟩))
  exact hk.tidy.of_temporary hs.site.table hlt hkind

lemma opener_spoken {c : Construct} {a : Action} (hknown : Known R d a)
    (hkind : d.kind = .construct c) (hs : s.Sound) (ht : t.Sound)
    (hf : s.scopes.frames = f :: frames) (hd : s.Disciplined env R)
    (hlast : s.last = some .condition ↔ c = .conditionBody)
    (hchain : c = .elseIf ∨ c = .elseBranch → f.previous = some .ifBranch ∨ f.previous = some .elseIf)
    (bound : Bound d a s r) (block : OpensBlock s f c r t) :
    t.Kept env R ∧ t.Spoken R [] := by
  have hlocal := hd.kept.frames f (by simp [hf])
  have hparameters := hknown.parameters hkind
  have hfresh : ∀ p m, (Frame.fresh c r.coordinate).Local p m := fun _ _ => Frame.Local.fresh
  unfold OpensBlock at block
  dsimp only at block
  split at block
  · exact ⟨block.kept hs hf hd.kept (hfresh _ _) hlocal,
      block.spoken hs hf hd (by simp [hlast]) (fun _ hl => hl) Spells.nil⟩
  · exact ⟨block.kept hs hf hd.kept (hfresh _ _) hlocal,
      block.spoken hs hf hd (by simp [hlast]) (fun _ hl => hl) Spells.nil⟩
  · obtain ⟨closed, l, skip, hclosed, chains⟩ := block
    exact chains.spoken hs hf hclosed (hchain (.inl rfl)) hfresh hd
  · obtain ⟨closed, l, skip, hclosed, chains⟩ := block
    exact chains.spoken hs hf hclosed (hchain (.inr rfl)) hfresh hd
  · obtain ⟨result, l, no, hno, opens⟩ := block
    have hk : t.Kept env R := opens.kept hs hf hd.kept
      ⟨(hfresh _ _).start, (hfresh _ _).chain, (hfresh _ _).closed⟩
      ⟨hlocal.start, hlocal.chain, hlocal.closed⟩
    refine ⟨hk, opens.spoken hs hf hd (by simp [hlast]) (fun _ hl => hl) ?_⟩
    obtain ⟨f₀, rest, -, hframes⟩ := opens.frames
    have howned : result ∈ (conditionFrame r.coordinate result l).owned := by simp [conditionFrame]
    have hresult := open_of_owned ht hk (by simp [hframes]) howned
    exact Program.spells_copy (hk.tidy.of_isConstant hno (by simp)) hresult
  · obtain ⟨l, hl, opens⟩ := block
    have hk : t.Kept env R := opens.kept hs hf hd.kept (hfresh _ _)
      ⟨hlocal.start, hlocal.chain, hlocal.closed⟩
    obtain ⟨f₀, rest, hf₀, hframes⟩ := opens.frames
    obtain ⟨trail, htrail, hspoken⟩ := hd.lines hs.method_lt
    rw [hlast.mpr rfl] at htrail
    obtain ⟨condition, hclean, rfl⟩ := htrail
    refine ⟨hk, hspoken.adds (branchLines condition l) hs opens.adds opens.method (fun l' hl' => ?_)
      rfl (Spells.branch (hclean.enlarge opens.adds.enlarges) ?_)⟩
    · refine .inr (opens.endLabels hf (fun l'' hl'' => ?_) hl')
      rw [hl l'' hl'']
      rfl
    · exact goal_of_frame (f := (f.withEnd l).seeConditionBody) (by simp [hframes]) rfl
  · obtain ⟨l, opens⟩ := block
    have hl : t.program.Label s.method l := opens.adds.label_mem (by simp)
    have hk : t.Kept env R := opens.kept hs hf hd.kept
      ⟨fun l' hl' => Option.some.inj hl' ▸ hl, (hfresh _ _).chain, (hfresh _ _).closed⟩ hlocal
    exact ⟨hk, opens.spoken hs hf hd (by simp [hlast]) (fun _ hl => hl) (Spells.label l)⟩
  · rename_i start limit step index hin
    obtain ⟨code, x, again, leave, kept, hlines, -, -, opens⟩ := block
    have hlabels : ∀ l, .label l ∈ code → t.program.Label s.method l := fun l hl =>
      opens.adds.label_mem hl
    have hagain : .label again ∈ code := by
      obtain ⟨write, nought, check, next, -, -, ⟨write', test, -, -, rfl⟩, rfl⟩ := hlines
      simp
    have hk : t.Kept env R := opens.kept hs hf hd.kept
      ⟨fun l' hl' => Option.some.inj hl' ▸ hlabels again hagain, (hfresh _ _).chain,
        (hfresh _ _).closed⟩ hlocal
    obtain ⟨f₀, rest, -, hframes⟩ := opens.frames
    have husable := (bound.usable hs hd.kept hknown.noAddress hknown.strict).enlarge
      opens.adds.enlarges
    obtain ⟨p₁, p₂, p₃, p₄, hfour, hout⟩ : ∃ p₁ p₂ p₃ p₄, d.parameters = [p₁, p₂, p₃, p₄] ∧
        p₄.direction = .out := ⟨_, _, _, _, hparameters, rfl⟩
    have hindex : t.program.Writable index := by
      refine husable.writable (p₄, index) (by simp [hfour, hin]) ?_ (.inl hout)
      rw [hout]
      rfl
    refine ⟨hk, opens.spoken hs hf hd (by simp [hlast]) (fun _ hl => hl) ?_⟩
    refine Program.spells_loop hk.tidy ht.site.table hknown.covers hlines
      (husable.inputs _ (by simp [hin])) (husable.inputs _ (by simp [hin]))
      (husable.inputs _ (by simp [hin])) (husable.inputs _ (by simp [hin])) (fun _ => hindex)
      (fun y hy => ?_) ?_ fun l hl => .inl (.inl (opens.method ▸ hlabels l hl))
    · exact open_of_owned (f := loopFrame r.coordinate (kept ++ x.toList) again leave) ht hk
        (by simp [hframes]) (List.mem_append_right _ hy)
    · exact goal_of_frame (f := loopFrame r.coordinate (kept ++ x.toList) again leave)
        (by simp [hframes]) rfl
  · exact block.elim

/-! ## Blocks that close -/

/-- The lines at the end of a block, apart from what is left for what follows. -/
lemma closeLines_trail (hg : g.Sound p)
    (hending : g.construct? ≠ some .block → g.endLabel.isSome = true)
    (hresult : ∀ c, g.conditionResult = some c → p.Clean c)
    (hstart : ∀ l, g.startLabel = some l → v.target l) :
    ∃ code rest, g.closeLines = code ++ rest ∧ Spells v code ∧
      LowerState.Trail p g.construct? rest := by
  have hlabels : Spells v (g.endLabel.toList.map .label) := by
    cases g.endLabel with
    | none => exact Spells.nil
    | some l => exact Spells.label l
  have hone : g.construct? ≠ some .block → ∃ l, g.endLabel.toList.map Line.label = [.label l] :=
    fun hc => by
      obtain ⟨l, hl⟩ := Option.isSome_iff_exists.mp (hending hc)
      exact ⟨l, by simp [hl]⟩
  unfold Frame.closeLines LowerState.Trail
  split
  · refine ⟨_, [], (List.append_nil _).symm, Spells.append ?_ hlabels, by simp [*]⟩
    cases hs : g.startLabel with
    | none => exact Spells.nil
    | some l => exact Spells.jump (hstart l hs)
  · rename_i hc
    obtain ⟨c, hres⟩ := Option.isSome_iff_exists.mp (hg.isResult.mpr hc)
    refine ⟨_, _, rfl, hlabels, ?_⟩
    rw [hc]
    exact ⟨c, hresult c hres, by simp [hres]⟩
  · rename_i hfor hcond
    cases hc : g.construct? with
    | none => exact ⟨_, [], (List.append_nil _).symm, hlabels, rfl⟩
    | some c =>
      cases c with
      | condition => exact absurd hc hcond
      | forLoop => exact absurd hc hfor
      | ifBranch =>
        exact ⟨[], _, rfl, Spells.nil, hone (by simp [hc])⟩
      | elseIf => exact ⟨[], _, rfl, Spells.nil, hone (by simp [hc])⟩
      | conditionBody => exact ⟨[], _, rfl, Spells.nil, hone (by simp [hc])⟩
      | _ => exact ⟨_, [], (List.append_nil _).symm, hlabels, rfl⟩

lemma Closes.goal {g' : Frame} (h : Closes s g' f frames t) (hs : s.Sound)
    (hf : s.scopes.frames = g :: f :: frames) (hfills : g.Fills g') :
    s.program.Retains s.method t.program ∧ ∀ l, s.Goal l → t.Goal l := by
  have hstate := h.state
  have hmethod : t.method = s.method := by
    rw [hstate]
    rfl
  have hframes : t.scopes.frames = f.after g' :: frames := by rw [hstate]; rfl
  have hbody : s.program.Retains s.method t.program ∧
      ∀ l, g'.endLabel = some l → t.program.Label s.method l := by
    by_cases hwhile : g'.construct? = some .whileLoop
    · obtain ⟨start, l, -, hl, reenters⟩ := h.reenters hwhile
      obtain ⟨before, last, back, hold, hnew, -, -, hnop, -⟩ := reenters.body
      change (s.program.method s.method).body.toList = _ at hold
      change (t.program.method s.method).body.toList = _ at hnew
      refine ⟨.of_body ?_ fun l' hl' => reenters.arena l' (hs.site.body_lt hs.method_lt hl'.mem),
        fun l' hl' => ?_⟩
      · rw [hold, hnew]
        intro id hid
        simp only [List.mem_append, List.mem_cons, List.not_mem_nil, or_false] at hid ⊢
        tauto
      · obtain rfl := Option.some.inj (hl.symm.trans hl')
        refine ⟨?_, hnop⟩
        rw [hnew]
        simp
    · have hadds := h.lines hwhile
      refine ⟨hadds.retains hs.site hs.method_lt, fun l hl => hadds.label_mem ?_⟩
      unfold Frame.closeLines
      split
      all_goals simp [hl]
  refine ⟨hbody.1, LowerState.goal_retains hbody.1 h.works hmethod fun l hl => ?_⟩
  unfold ScopeStack.endLabels at hl
  rw [hf] at hl
  obtain ⟨k, hk, hkl⟩ := List.mem_filterMap.mp hl
  rcases List.mem_cons.mp hk with rfl | hk
  · exact LowerState.goal_of_label hmethod (hbody.2 l (hfills.ending l hkl))
  rcases List.mem_cons.mp hk with rfl | hk
  · exact goal_of_frame (f := k.after g') (by simp [hframes]) hkl
  · exact goal_of_frame (f := k) (by simp [hframes, hk]) hkl

lemma Closes.spoken {g' : Frame} (h : Closes s g' f frames t) (hs : s.Sound)
    (hf : s.scopes.frames = g :: f :: frames) (hfills : g.Fills g') (hd : s.Disciplined env R)
    (hlast : s.last ≠ some .condition)
    (hwhile : g.construct? = some .whileLoop → s.last = some .conditionBody) :
    t.Kept env R ∧ ∃ rest, LowerState.Trail t.program t.last rest ∧ t.Spoken R rest := by
  have hstate := h.state
  have hmethod : t.method = s.method := by
    rw [hstate]
    rfl
  have hframes : t.scopes.frames = f.after g' :: frames := by rw [hstate]; rfl
  obtain ⟨hretains, hgoal⟩ := h.goal hs hf hfills
  have hlocalf := hd.kept.frames f (by simp [hf])
  have hlocalg := hd.kept.frames g (by simp [hf])
  have harena : ∀ id < s.program.instrs.size, t.program.instr id = s.program.instr id := by
    by_cases hc : g'.construct? = some .whileLoop
    · obtain ⟨start, l, -, -, reenters⟩ := h.reenters hc
      exact reenters.arena
    · exact (h.lines hc).arena
  have hk : t.Kept env R := by
    refine hd.kept.works h.works hmethod (by rw [hstate]; rfl) (by rw [hstate]; rfl)
      (fun k hk _ id hid => harena id (hs.site.body_lt hk hid)) fun k hk => ?_
    rw [hframes] at hk
    rcases List.mem_cons.mp hk with rfl | hk
    · refine ⟨fun l hl => hretains.label l (hlocalf.start l hl),
        fun id hid => hretains.body (hlocalf.chain id hid), fun c hc id hid => ?_⟩
      obtain rfl := Option.some.inj hc
      refine hretains.body (hlocalg.chain id ?_)
      rw [hfills.same] at hid
      exact hid
    · exact (hd.kept.frames k (by simp [hf, hk])).mono hretains
  have hlast' : t.last = g'.construct? := by simp [LowerState.last, hframes, Frame.after]
  have hstart : ∀ l, g'.startLabel = some l → t.Goal l := by
    intro l hl
    rw [hfills.same] at hl
    exact LowerState.goal_of_label hmethod (hretains.label l (hlocalg.start l hl))
  obtain ⟨trail, htrail, hspoken⟩ := hd.lines hs.method_lt
  refine ⟨hk, ?_⟩
  rw [hlast']
  by_cases hc : g'.construct? = some .whileLoop
  · obtain ⟨start, l, hstartl, -, reenters⟩ := h.reenters hc
    obtain ⟨before, last, back, hold, hnew, -, hback, hl, -⟩ := reenters.body
    obtain ⟨code, hcode, hlines⟩ := hspoken
    obtain ⟨l', rfl⟩ : ∃ l', trail = [.label l'] := by
      rw [hwhile (hfills.construct? ▸ hc)] at htrail
      exact htrail
    obtain ⟨rfl, hlabel⟩ := Program.lines_eq_concat hold hlines
    have hbody : ∀ id ∈ before ++ [last], t.program.line id = s.program.line id := fun id hid =>
      Program.line_congr (harena id (hs.site.body_lt hs.method_lt (hold ▸ hid)))
    have hbefore : before.map t.program.line = before.map s.program.line :=
      List.map_congr_left fun id hid => hbody id (List.mem_append_left _ hid)
    refine ⟨[], by rw [hc]; rfl,
      before.map s.program.line ++ [.code (.jump start)] ++ [.label l'] ++ [.label l], ?_, ?_⟩
    · exact (((hcode.mono (LowerState.terms_le R h.works hmethod hgoal)).append
        (Spells.jump (hstart start hstartl))).append (Spells.label l')).append (Spells.label l)
    · have hback' : t.program.line back = .code (.jump start) :=
        Program.line_eq_code.mpr ⟨hback, by simp⟩
      have hl' : t.program.line l = .label l := Program.line_eq_label.mpr ⟨hl, rfl⟩
      have hlast'' : t.program.line last = .label l' :=
        (hbody last (by simp)).trans hlabel
      unfold Program.lines
      rw [hmethod]
      change (t.program.method s.method).body.toList = _ at hnew
      rw [hnew, List.map_append, hbefore]
      simp [hback', hl', hlast'']
  · have hgs : g'.Sound s.program := hfills.sound (hs.frames g (by simp [hf]))
    have hresult : ∀ c, g'.conditionResult = some c → s.program.Clean c := by
      intro c hres
      refine (open_of_owned (f := g) hs hd.kept (by simp [hf]) ?_).clean
      have howned := hgs.result_owned c hres
      rw [hfills.same] at howned
      exact howned
    obtain ⟨code, rest, hcode, hspells, hrest⟩ := closeLines_trail (p := s.program)
      (v := t.program.terms R t.method t.Goal) hgs h.ending hresult hstart
    refine ⟨rest, hrest.enlarge h.works.enlarges, ?_⟩
    refine hspoken.adds (trail ++ code) hs (h.lines hc) hmethod
      (fun l hl => hgoal l (.inr hl)) ?_ ((htrail.spells hlast).append hspells)
    rw [hcode, List.append_assoc]

end Lower

end TriggerCompiler
