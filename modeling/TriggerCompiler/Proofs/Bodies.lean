import Mathlib
import TriggerCompiler.Proofs.Events

/-!
# What the lowering of a body leaves alone

While a body is lowered, labels get their place, instructions come before a label that is already
there, and jumps get other targets. All that is touched in this way is younger than the body: it got
its number in the arena after the first action was turned to. So whatever the body does, the methods
that there were and the lines before the body stay.

Main statement: `lowerBody_extends`, by which a body adds lines at the end of its method and leaves
all other methods as they are.
-/

namespace TriggerCompiler

variable {index : Nat} {l : List Action}

/-- What a block lets later actions change is younger than the given number: its jumps out of a chain,
and the end and such jumps of the block that closed last inside it. -/
structure Frame.Younger (n : Nat) (f : Frame) : Prop where
  chain : ∀ id ∈ f.chainJumps, n ≤ id
  closed : ∀ c, f.lastClosed = some c →
    (∀ l, c.endLabel = some l → n ≤ l) ∧ ∀ id ∈ c.chainJumps, n ≤ id

namespace Frame.Younger

variable {f g : Frame} {n : Nat}

lemma fresh (n : Nat) (c : Construct) (coordinate : Coordinate) : (Frame.fresh c coordinate).Younger n :=
  ⟨fun id hid => (by cases hid), fun c hc => (by cases hc)⟩

lemma fills (h : f.Younger n) (hfills : f.Fills g) : g.Younger n := by
  rw [hfills.same]
  exact ⟨h.chain, h.closed⟩

lemma after (h : f.Younger n) (hg : g.Younger n) (hend : ∀ l, g.endLabel = some l → n ≤ l) :
    (f.after g).Younger n := by
  refine ⟨h.chain, fun c hc => ?_⟩
  obtain rfl := Option.some.inj hc
  exact ⟨hend, hg.chain⟩

end Frame.Younger

namespace Lower

variable {s s₀ t u : LowerState} {env : Environment} {agenda : Agenda} {a : Action}
  {d : ActionDef} {code : List Line} {f g : Frame} {rest : List Frame} {n : Nat}

/-! ## The actions of a body, one by one -/

/-- An action of a body, the one with the given index, is lowered without an error. -/
inductive Performs (env : Environment) (index : Nat) (a : Action) (s t : LowerState) : Prop where
  | intro {d : ActionDef} {u : LowerState} (run : lowerAction env index a s = .ok ⟨⟩ t)
      (settled : s.Settled)
      (found : env.registry.findAction a.id a.group = .ok d)
      (admits : ∀ c, d.construct? = some c → Shape.admits c s.scopes.shapes = true)
      (lowered : Lowered env d a (atAction s index a.id) u) (sound : u.Sound)
      (settles : Settles u d t) (settled' : t.Settled)
      (shapes : t.scopes.shapes = Shape.follow d.construct? s.scopes.shapes)

/-- The actions are lowered one after the other; the first one has the given index. -/
inductive PerformsAll (env : Environment) : Nat → List Action → LowerState → LowerState → Prop where
  | nil (index : Nat) (s : LowerState) : PerformsAll env index [] s s
  | cons {index : Nat} {a : Action} {l : List Action} {s t u : LowerState}
      (first : Performs env index a s t) (others : PerformsAll env (index + 1) l t u) :
      PerformsAll env index (a :: l) s u

/-- This is how the actions are lowered. -/
lemma PerformsAll.lowerActions_eq (h : PerformsAll env index l s t) :
    lowerActions env index l s = .ok ⟨⟩ t := by
  induction h with
  | nil => rfl
  | cons first _ ih =>
    obtain ⟨hrun, -⟩ := first
    rw [lowerActions]
    exact (bind_of_ok hrun _).trans ih

lemma lowerActions_performs (henv : env.Sound) (hl : ∀ a ∈ l, a.NoAddress) (hs : s.Settled)
    (hrun : lowerActions env index l s = .ok ⟨⟩ t) (herrors : t.errors = #[]) :
    t.Settled ∧ PerformsAll env index l s t := by
  induction l generalizing s index with
  | nil =>
    obtain ⟨-, rfl⟩ := EStateM.Result.ok.inj hrun
    exact ⟨hs, .nil _ s⟩
  | cons a l ih =>
    rw [lowerActions] at hrun
    obtain ⟨⟨⟩, u, hfirst, hothers⟩ := bind_eq_ok.mp hrun
    have hplain := hl a List.mem_cons_self
    have hl' : ∀ b ∈ l, b.NoAddress := fun b hb => hl b (List.mem_cons_of_mem _ hb)
    -- an action that is left out leaves an error, and errors stay
    have hone : Ensures s (lowerAction env index a) (fun _ w => w.Settled ∧
        Course env Agenda.any s w) (Fault s) := lowerAction_course henv trivial hplain hs
    have hu : u.Settled := (hone.ok hfirst).1
    have hmore : Ensures u (lowerActions env (index + 1) l) (fun _ w => w.Settled ∧
        Course env Agenda.any u w) (Fault u) :=
      lowerActions_course henv (fun b hb => ⟨trivial, hl' b hb⟩) hu _
    have hu_errors : u.errors = #[] := ((hmore.ok hothers).2.steps herrors).1
    obtain ⟨ht, hall⟩ := ih hl' hu hothers
    refine ⟨ht, .cons ?_ hall⟩
    cases hfound : env.registry.findAction a.id a.group with
    | error kind =>
      unfold lowerAction at hfirst
      rw [hfound] at hfirst
      cases hfirst
    | ok d =>
      obtain ⟨-, -, hshapes, ⟨v, hlowered, hv, hsettles, -, hadmits⟩ | ⟨e, v, -, hskipped, -⟩⟩ :=
        (lowerAction_ensures hfound henv.groups hs (henv.plain _ _ _ hfound) hplain).ok hfirst
      · exact .intro hfirst hs hfound hadmits hlowered hv hsettles hu hshapes
      · rw [hskipped.errors] at hu_errors
        exact absurd hu_errors (by simp)

/-- A body is its actions, between a block that is opened for it and its end. -/
lemma lowerBody_performs (henv : env.Sound) (hl : ∀ a ∈ l, a.NoAddress) (hs : s.Idle)
    (hm : s.method < s.program.methods.size) (hrun : lowerBody env l s = .ok ⟨⟩ t)
    (herrors : t.errors = #[]) :
    ∃ u, PerformsAll env 0 l (rooted s) u ∧ u.Settled ∧ Ends u t := by
  have hroot := settled_rooted (hs.sound hm) hs.frames hs.pending
  have hactions : Ensures (rooted s) (lowerActions env 0 l)
      (fun _ u => u.Settled ∧ (u.errors = #[] → PerformsAll env 0 l (rooted s) u)) fun _ _ => True := by
    have hcourse : Ensures (rooted s) (lowerActions env 0 l) (fun _ w => w.Settled ∧
        Course env Agenda.any (rooted s) w) (Fault (rooted s)) :=
      lowerActions_course henv (fun b hb => ⟨trivial, hl b hb⟩) hroot 0
    unfold Ensures
    cases hactions : lowerActions env 0 l (rooted s) with
    | error e u => trivial
    | ok r u =>
      exact ⟨(hcourse.ok hactions).1,
        fun herrors => (lowerActions_performs henv hl hroot hactions herrors).2⟩
  obtain ⟨u, hu, hall, hends⟩ := (lowerBody_ensures hactions).ok hrun
  obtain ⟨f, -, hstate⟩ := hends.state
  refine ⟨u, hall ?_, hu, hends⟩
  rw [hstate] at herrors
  exact herrors

/-! ## What is younger than the body -/

/-- What there was in the first state is still there in the second, with more at the end of the current
method, and all that may still be changed is younger. -/
structure Since (s₀ s : LowerState) : Prop where
  method : s.method = s₀.method
  slots : s₀.program.slots.Within s.program.slots
  size_le : s₀.program.methods.size ≤ s.program.methods.size
  instrs_le : s₀.program.instrs.size ≤ s.program.instrs.size
  arena : ∀ id < s₀.program.instrs.size, s.program.instr id = s₀.program.instr id
  others : ∀ k < s₀.program.methods.size, k ≠ s₀.method → s.program.method k = s₀.program.method k
  body : ∃ new, (s.program.method s₀.method).body.toList =
    (s₀.program.method s₀.method).body.toList ++ new ∧ ∀ id ∈ new, s₀.program.instrs.size ≤ id
  name : (s.program.method s₀.method).name = (s₀.program.method s₀.method).name
  kind : (s.program.method s₀.method).kind = (s₀.program.method s₀.method).kind
  epilogue : (s.program.method s₀.method).epilogue = (s₀.program.method s₀.method).epilogue
  ending : ∀ l, (s₀.program.method s₀.method).endLabel = some l →
    (s.program.method s₀.method).endLabel = some l
  labels : ∀ l ∈ s.site.labels, s₀.program.instrs.size ≤ l
  frames : ∀ f ∈ s.scopes.frames, f.Younger s₀.program.instrs.size

namespace Since

section

variable (h : Since s₀ s)
include h

/-- Work on the body that changes only what is younger. -/
lemma of_works (hw : s.site.Works s.method t.site) (hmethod : t.method = s.method)
    (harena : ∀ id < s₀.program.instrs.size, t.program.instr id = s.program.instr id)
    (hbody : ∃ new, (t.program.method s₀.method).body.toList =
      (s₀.program.method s₀.method).body.toList ++ new ∧ ∀ id ∈ new, s₀.program.instrs.size ≤ id)
    (hframes : ∀ f ∈ t.scopes.frames, f.Younger s₀.program.instrs.size) : Since s₀ t := by
  have hm := h.method
  refine ⟨hmethod.trans hm, h.slots.trans hw.grows.slots, h.size_le.trans hw.methods.ge,
    h.instrs_le.trans hw.size_le, fun id hid => (harena id hid).trans (h.arena id hid),
    fun k hk hne => (hw.others k (hm ▸ hne)).trans (h.others k hk hne), hbody, ?_, ?_, ?_, ?_, ?_,
    hframes⟩
  · exact (hm ▸ hw.name).trans h.name
  · exact (hm ▸ hw.kind).trans h.kind
  · exact (hm ▸ hw.epilogue).trans h.epilogue
  · exact fun l hl => (hm ▸ hw.ending) l (h.ending l hl)
  · exact fun l hl => (hw.labels l hl).elim (h.instrs_le.trans ·) (h.labels l)

/-- Lines at the end of the body. -/
lemma adds (hadds : s.site.Adds s.method code t.site) (hmethod : t.method = s.method)
    (hframes : ∀ f ∈ t.scopes.frames, f.Younger s₀.program.instrs.size) : Since s₀ t := by
  refine h.of_works hadds.toWorks hmethod
    (fun id hid => hadds.arena id (hid.trans_le h.instrs_le)) ?_ hframes
  obtain ⟨new, hnew, hge⟩ := h.body
  obtain ⟨more, hmore, -, hplace⟩ := hadds.body
  rw [h.method] at hmore
  refine ⟨new ++ more, ?_, fun id hid => ?_⟩
  · rw [← List.append_assoc, ← hnew]
    exact hmore
  · rcases List.mem_append.mp hid with hid | hid
    · exact hge id hid
    · exact (hplace id hid).elim (h.instrs_le.trans ·) (h.labels id)

lemma emits (hemits : Emits s code t) : Since s₀ t := by
  refine h.adds hemits.adds hemits.method fun g hg => ?_
  obtain ⟨i, hi, rfl⟩ := List.mem_iff_getElem.mp hg
  have hi' : i < s.scopes.frames.length := hemits.frames.length_eq ▸ hi
  exact (h.frames _ (List.getElem_mem hi')).fills (hemits.frames.get hi' hi)

/-- The last line of the body is younger if its number is. -/
lemma body_of_last (hsound : s₀.site.Sound) (hm : s₀.method < s₀.program.methods.size)
    {before : List InstrId} {last : InstrId} (hlast : s₀.program.instrs.size ≤ last)
    (hbody : (s.program.method s.method).body.toList = before ++ [last]) :
    ∃ new, before = (s₀.program.method s₀.method).body.toList ++ new ∧
      ∀ id ∈ new, s₀.program.instrs.size ≤ id := by
  obtain ⟨new, hnew, hge⟩ := h.body
  rw [h.method, hnew] at hbody
  rcases List.eq_nil_or_concat new with rfl | ⟨new', x, rfl⟩
  · rw [List.append_nil] at hbody
    have hmem : last ∈ (s₀.program.method s₀.method).body.toList := by
      rw [hbody]
      simp
    exact absurd (hsound.body_lt hm hmem)
      (Nat.not_lt.mpr hlast)
  · rw [List.concat_eq_append, ← List.append_assoc] at hbody
    obtain ⟨hbefore, -⟩ := List.append_inj' hbody rfl
    refine ⟨new', hbefore.symm, fun id hid => hge id ?_⟩
    rw [List.concat_eq_append]
    exact List.mem_append_left _ hid

lemma prepares (hp : Prepares s t) : Since s₀ t := by
  obtain ⟨f, rest, new, hf, hf', -⟩ := hp.locals
  obtain ⟨p, frames, references, used, locals, pending, hstate⟩ := hp.state
  refine h.adds hp.adds (by rw [hstate]) fun g hg => ?_
  rw [hf'] at hg
  rcases List.mem_cons.mp hg with rfl | hg
  · have hyoung := h.frames f (by simp [hf])
    exact ⟨hyoung.chain, hyoung.closed⟩
  · exact h.frames g (by simp [hf, hg])

lemma settles (hs : Settles s d t) : Since s₀ t := by
  refine h.adds hs.adds hs.method fun g hg => ?_
  cases hf : s.scopes.frames with
  | nil =>
    have hnil : t.scopes.frames = [] := by
      rw [hs.state]
      show (remember d s.scopes).frames = []
      unfold remember
      split_ifs
      · exact hf
      · show s.scopes.frames.modify 0 _ = []
        rw [hf]
        rfl
    rw [hnil] at hg
    cases hg
  | cons f rest =>
    rw [hs.frames_eq hf] at hg
    have hyoung := h.frames f (by simp [hf])
    rcases List.mem_cons.mp hg with rfl | hg
    · split_ifs
      · exact hyoung
      · exact ⟨hyoung.chain, hyoung.closed⟩
    · exact h.frames g (by simp [hf, hg])

lemma opens {f' : Frame} (ho : Opens s code g f' t) (hg : g.Younger s₀.program.instrs.size)
    (hf' : f'.Younger s₀.program.instrs.size) :
    Since s₀ t := by
  obtain ⟨f, rest, hf, hframes⟩ := ho.frames
  refine h.adds ho.adds ho.method fun k hk => ?_
  rw [hframes] at hk
  rcases List.mem_cons.mp hk with rfl | hk
  · exact hg
  rcases List.mem_cons.mp hk with rfl | hk
  · exact hf'
  · exact h.frames k (by simp [hf, hk])

section

variable (hsound : s₀.site.Sound) (hm : s₀.method < s₀.program.methods.size)
  (hf : s.scopes.frames = f :: rest)
include hsound hm hf

/-- A further branch of a chain: the jumps that get another target and the label that gets a jump
before it are younger than the body. -/
lemma chains {closed : ClosedBlock} {l skip : InstrId} (hclosed : f.lastClosed = some closed)
    (hg : g.Younger s₀.program.instrs.size) (hc : Chains s closed g l skip t) : Since s₀ t := by
  obtain ⟨hends, hjumps⟩ := (h.frames f (by simp [hf])).closed closed hclosed
  have hmethod : t.method = s.method := by
    rw [hc.state]
    rfl
  refine h.of_works hc.works hmethod (fun id hid => ?_) ?_ fun k hk => ?_
  · have hold : id ∉ closed.chainJumps := fun hmem => absurd hid (Nat.not_lt.mpr (hjumps id hmem))
    rw [hc.instr id (hid.trans_le h.instrs_le), if_neg hold]
  · obtain ⟨before, last, hlast, hbody, hbody'⟩ := hc.body
    obtain ⟨new, rfl, hge⟩ := h.body_of_last hsound hm (hends last hlast) hbody
    refine ⟨new ++ [skip, last], ?_, fun id hid => ?_⟩
    · rw [← List.append_assoc, ← hbody', h.method]
    · rcases List.mem_append.mp hid with hid | hid
      · exact hge id hid
      · rcases List.mem_cons.mp hid with rfl | hid
        · exact h.instrs_le.trans hc.skip_ge
        · exact List.mem_singleton.mp hid ▸ hends last hlast
  · rw [hc.frames] at hk
    rcases List.mem_cons.mp hk with rfl | hk
    · refine ⟨fun id hid => ?_, hg.closed⟩
      rcases List.mem_append.mp hid with hid | hid
      · exact hjumps id hid
      · exact List.mem_singleton.mp hid ▸ h.instrs_le.trans hc.skip_ge
    · exact h.frames k hk

lemma opensBlock {c : Construct} {r : BoundAction} (ho : OpensBlock s f c r t) : Since s₀ t := by
  have hyoung := h.frames f (by simp [hf])
  have hfresh := Frame.Younger.fresh s₀.program.instrs.size c r.coordinate
  unfold OpensBlock at ho
  dsimp only at ho
  split at ho
  · exact h.opens ho hfresh hyoung
  · exact h.opens ho hfresh hyoung
  · obtain ⟨closed, l, skip, hclosed, ho⟩ := ho
    exact h.chains hsound hm hf hclosed hfresh ho
  · obtain ⟨closed, l, skip, hclosed, ho⟩ := ho
    exact h.chains hsound hm hf hclosed hfresh ho
  · obtain ⟨result, l, no, -, ho⟩ := ho
    exact h.opens ho ⟨hfresh.chain, hfresh.closed⟩ ⟨hyoung.chain, hyoung.closed⟩
  · obtain ⟨l, -, ho⟩ := ho
    exact h.opens ho hfresh ⟨hyoung.chain, hyoung.closed⟩
  · obtain ⟨l, ho⟩ := ho
    exact h.opens ho ⟨hfresh.chain, hfresh.closed⟩ hyoung
  · obtain ⟨code, x, again, leave, kept, -, -, -, ho⟩ := ho
    exact h.opens ho ⟨hfresh.chain, hfresh.closed⟩ hyoung
  · exact ho.elim

end

/-- A label among the lines that were added to a body has got its number since, or waited for its
place. -/
lemma label_of_mem (hadds : s.site.Adds s.method code t.site) {l : InstrId} (hl : .label l ∈ code) :
    s₀.program.instrs.size ≤ l := by
  obtain ⟨new, -, hlines, hplace⟩ := hadds.body
  rw [← hlines] at hl
  obtain ⟨id, hid, hline⟩ := List.mem_map.mp hl
  obtain ⟨-, rfl⟩ := Program.line_eq_label.mp hline
  exact (hplace id hid).elim (h.instrs_le.trans ·) (h.labels id)

lemma closes {g' : Frame} (hsound : s₀.site.Sound) (hm : s₀.method < s₀.program.methods.size)
    (hf : s.scopes.frames = g :: f :: rest) (hfollows : g.Follows s.program s.method)
    (hcomplete : g.Complete) (hfills : g.Fills g') (hc : Closes s g' f rest t) : Since s₀ t := by
  have hmethod : t.method = s.method := by
    rw [hc.state]
    rfl
  have hg := (h.frames g (by simp [hf])).fills hfills
  have hyoung := h.frames f (by simp [hf])
  have hframes : (∀ l, g'.endLabel = some l → s₀.program.instrs.size ≤ l) →
      ∀ k ∈ t.scopes.frames, k.Younger s₀.program.instrs.size := by
    intro hend k hk
    rw [hc.state] at hk
    rcases List.mem_cons.mp hk with rfl | hk
    · exact hyoung.after hg hend
    · exact h.frames k (by simp [hf, hk])
  by_cases hwhile : g'.construct? = some .whileLoop
  · obtain ⟨start, l, -, hl, hre⟩ := hc.reenters hwhile
    have hwhile' : g.construct? = some .whileLoop := hfills.construct?.symm.trans hwhile
    -- the label before which the jump comes is that of the condition body
    obtain ⟨closed, last, before, hclosed, hlast, hbody⟩ :=
      hfollows.closed .conditionBody (by simp) (hcomplete.2 hwhile')
    have hlast_ge := ((h.frames g (by simp [hf])).closed closed hclosed).1 last hlast
    obtain ⟨before', last', back, hbody₀, hbody₁, hback, -, -, hplace⟩ := hre.body
    have hsame : before' ++ [last'] = before ++ [last] := hbody₀.symm.trans hbody
    obtain ⟨rfl, hlasts⟩ := List.append_inj' hsame rfl
    obtain rfl : last' = last := List.singleton_inj.mp hlasts
    have hl_ge : s₀.program.instrs.size ≤ l := hplace.elim (h.instrs_le.trans ·) (h.labels l)
    obtain ⟨new, rfl, hge⟩ := h.body_of_last hsound hm hlast_ge hbody
    refine h.of_works hc.works hmethod
      (fun id hid => hre.arena id (hid.trans_le h.instrs_le)) ⟨new ++ [back, last', l], ?_, ?_⟩
      (hframes fun l' hl' => Option.some.inj (hl.symm.trans hl') ▸ hl_ge)
    · rw [h.method] at hbody₁
      rw [← List.append_assoc]
      exact hbody₁
    · intro id hid
      simp only [List.mem_append, List.mem_cons, List.not_mem_nil, or_false] at hid
      rcases hid with hid | rfl | rfl | rfl
      · exact hge id hid
      · exact h.instrs_le.trans hback
      · exact hlast_ge
      · exact hl_ge
  · have hadds := hc.lines hwhile
    refine h.adds hadds hmethod (hframes fun l hl => h.label_of_mem hadds ?_)
    unfold Frame.closeLines
    split <;> simp [hl]

/-- A merge only adds methods. -/
lemma merges {guid : String} {table : MergeTable} (hm : s₀.method < s₀.program.methods.size)
    (hmerges : Merges env s guid table t) (hexpands : Expands s t) : Since s₀ t := by
  cases hmerges with
  | before => exact h
  | @now group r host unknown found merged entries methods renamed =>
    have hmethod := merged.method_host (hm.trans_le h.size_le)
    refine ⟨h.method, h.slots.trans hexpands.grows.slots, h.size_le.trans hexpands.methods_le, ?_,
      fun id hid => (merged.instr_host (hid.trans_le h.instrs_le)).trans (h.arena id hid),
      fun k hk hne => (merged.method_host (hk.trans_le h.size_le)).trans (h.others k hk hne), ?_, ?_, ?_, ?_,
      ?_, h.labels, h.frames⟩
    · refine h.instrs_le.trans ?_
      show s.program.instrs.size ≤ host.instrs.size
      rw [merged.size_instrs]
      exact Nat.le_add_right _ _
    all_goals
      show (_ : Prop)
      dsimp only
      rw [hmethod]
    · exact h.body
    · exact h.name
    · exact h.kind
    · exact h.epilogue
    · exact h.ending

lemma callsGroup {guid action : String} {r : BoundAction} (hm : s₀.method < s₀.program.methods.size)
    (hc : CallsGroup env guid action r s t) :
    Since s₀ t := by
  obtain ⟨hmerges, -, hexpands, -, -, hspeaks, -⟩ := hc
  have hu := h.merges hm hmerges hexpands
  refine hu.adds hspeaks.adds hspeaks.method fun g hg => ?_
  obtain ⟨p, warnings, hstate⟩ := hspeaks.state
  rw [hstate] at hg
  exact hu.frames g hg

end

section

variable (h : Since s₀ s) (hsound : s₀.site.Sound) (hm : s₀.method < s₀.program.methods.size)
include h hsound hm

/-- One action. -/
lemma performs (hp : Performs env index a s t) : Since s₀ t := by
  obtain @⟨d, u, -, hs, -, hadmits, hlowered, -, hsettles, -, -⟩ := hp
  have h' : Since s₀ (atAction s index a.id) := { h with }
  refine settles ?_ hsettles
  cases hlowered with
  | statement _ _ _ prepares _ emits _ => exact (h'.prepares prepares).emits emits
  | call _ prepares _ emits _ _ => exact (h'.prepares prepares).emits emits
  | group _ prepares _ calls => exact (h'.prepares prepares).callsGroup hm calls
  | opener _ _ prepares _ frames block =>
    exact (h'.prepares prepares).opensBlock hsound hm frames block
  | @closer g g' f rest kind frames fills closes =>
    have hframes : s.scopes.frames = g :: f :: rest := frames
    obtain ⟨_, _, hf, hfollows⟩ := hs.follows
    obtain ⟨rfl, rfl⟩ := List.cons.inj (hframes.symm.trans hf)
    have hcomplete : g.Complete := by
      have hadmits := hadmits .blockEnd (by simp [ActionDef.construct?, kind])
      unfold ScopeStack.shapes at hadmits
      rw [hframes] at hadmits
      exact (Frame.isComplete_shape g).mp hadmits
    exact h'.closes hsound hm frames hfollows hcomplete fills closes

/-- All actions of a body. -/
lemma performsAll (hp : PerformsAll env index l s t) : Since s₀ t := by
  induction hp with
  | nil => exact h
  | cons first _ ih => exact ih (h.performs hsound hm first)

end

lemma rooted (hs : s.Idle) : Since s (rooted s) := by
  refine ⟨rfl, SlotTable.Within.refl _, le_rfl, le_rfl, fun _ _ => rfl, fun _ _ _ => rfl,
    ⟨[], by simp [Lower.rooted], by simp⟩, rfl, rfl, rfl, fun _ hl => hl, fun l hl => ?_,
    fun f hf => ?_⟩
  · simp [LowerState.site, Lower.rooted, ScopeStack.endLabels, hs.frames, Frame.root] at hl
  · simp only [Lower.rooted, LowerState.build_frames, hs.frames, List.mem_singleton] at hf
    subst hf
    exact ⟨fun id hid => (by cases hid), fun c hc => (by cases hc)⟩

lemma ends (h : Since s₀ s) (he : Ends s t) : Since s₀ t := by
  obtain ⟨f, -, hstate⟩ := he.state
  refine h.adds he.adds (by rw [hstate]; rfl) fun g hg => ?_
  rw [hstate] at hg
  cases hg

/-- What was there is not touched, and the rest of the method is what was added. -/
lemma extension (h : Since s₀ s) (hsound : s₀.site.Sound)
    (hm : s₀.method < s₀.program.methods.size) :
    ∃ code, s₀.program.Lengthens s₀.method code s.program := by
  have hkept : ∀ k < s₀.program.methods.size, ∀ id ∈ (s₀.program.method k).body.toList,
      s.program.instr id = s₀.program.instr id := fun k hk id hid =>
    h.arena id (hsound.body_lt hk hid)
  obtain ⟨new, hnew, hge⟩ := h.body
  refine ⟨new.map s.program.line, ⟨h.slots, h.size_le, h.instrs_le, fun k hk hne =>
    .of_instr (h.others k hk hne) (hkept k hk), h.name, h.kind, h.epilogue, h.ending⟩,
    ⟨new, hnew, rfl, hge⟩, ?_⟩
  unfold Program.lines
  rw [hnew, List.map_append]
  exact congrArg (· ++ _) (List.map_congr_left fun id hid =>
    Program.line_congr (hkept _ hm id hid))

end Since

/-- A body adds lines at the end of its method and leaves the other methods as they are. -/
lemma lowerBody_extends (henv : env.Sound) (hl : ∀ a ∈ l, a.NoAddress) (hs : s.Idle)
    (hm : s.method < s.program.methods.size) (hrun : lowerBody env l s = .ok ⟨⟩ t)
    (herrors : t.errors = #[]) :
    ∃ code, s.program.Lengthens s.method code t.program := by
  obtain ⟨u, hall, -, hends⟩ := lowerBody_performs henv hl hs hm hrun herrors
  exact (((Since.rooted hs).performsAll hs.site hm hall).ends hends).extension hs.site hm

end Lower

end TriggerCompiler
