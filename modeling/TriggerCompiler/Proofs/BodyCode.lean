import Mathlib
import TriggerCompiler.Proofs.CodeTargets

/-!
# The code of a body

The code of a whole body stands at the end of its method. Its labels are new, each of them stands once,
and none of them is a label that the code may jump to outside: the only such label is that of the end of
the method.

Main statement: `Lower.lowerBody_code`.
-/

namespace TriggerCompiler

/-- Every label stands at most once in the code. -/
def Once (code : List Line) : Prop := ∀ l, code.count (.label l) ≤ 1

namespace Once

variable {code more : List Line} {l : InstrId}

lemma of_nodup {p : Program} {ids : List InstrId} (h : ids.Nodup) : Once (ids.map p.line) := by
  intro l
  induction ids with
  | nil => simp
  | cons id ids ih =>
    obtain ⟨hid, hids⟩ := List.nodup_cons.mp h
    rw [List.map_cons, List.count_cons]
    split_ifs with hline
    · have hnone : (ids.map p.line).count (.label l) = 0 := by
        refine List.count_eq_zero.mpr fun hmem => ?_
        obtain ⟨id', hid', hline'⟩ := List.mem_map.mp hmem
        obtain ⟨-, rfl⟩ := Program.line_eq_label.mp hline'
        obtain ⟨-, rfl⟩ := Program.line_eq_label.mp (by simpa using hline)
        exact hid hid'
      omega
    · exact ih hids

lemma right (h : Once (code ++ more)) : Once more := fun l => by
  have := h l
  rw [List.count_append] at this
  omega

lemma left (h : Once (code ++ more)) : Once code := fun l => by
  have := h l
  rw [List.count_append] at this
  omega

lemma not_mem (h : Once (code ++ more)) (hl : .label l ∈ code) : .label l ∉ more := by
  intro hl'
  have hcode := List.count_pos_iff.mpr hl
  have hmore := List.count_pos_iff.mpr hl'
  have hsum := h l
  rw [List.count_append] at hsum
  omega

end Once

namespace Lower

variable {env : Environment} {s t u : LowerState} {tree : BlockTree} {x : Exits} {code : List Line}

/-- The code of a body that was lowered between the states `s` and `t`, with the last action in the state
`u`. -/
structure BodyCode (env : Environment) (s : LowerState) (tree : BlockTree) (u t : LowerState) (x : Exits)
    (code : List Line) : Prop where
  codeOf : CodeOf env x none 0 0 (rooted s) tree u code
  proper : tree.Proper [none] []
  lines : t.program.lines s.method = s.program.lines s.method ++ code
  fresh : ∀ l, .label l ∈ code → s.program.instrs.size ≤ l
  once : Once (t.program.lines s.method)
  apart : ∀ l, .label l ∈ t.program.lines s.method → ¬ x.Far l ∧ l ≠ x.miss

/-- The labels of a body's block, where those that there are not are no labels of the arena. -/
def bodyExits (s : LowerState) : Exits where
  leave := s.program.instrs.size
  again := s.program.instrs.size
  decided := s.program.instrs.size
  miss := s.program.instrs.size
  ending := (s.program.method s.method).endLabel.getD s.program.instrs.size

lemma agrees_bodyExits {f : Frame} (hu : u.Sound) (hf : u.scopes.frames = [f])
    (hroot : f.construct? = none) (hending : ∀ l, (u.program.method u.method).endLabel = some l →
      (t.program.method t.method).endLabel = some l) : (bodyExits t).Agrees u := by
  have hsound := hu.frames f (by rw [hf]; simp)
  have hloop : f.isLoop = false := by
    rw [hsound.isLoop, hroot]
    rfl
  refine ⟨fun g l hg => ?_, fun g l hg => ?_, fun g l hg => ?_, fun g l hg hl => ?_, fun l hl => ?_⟩
  · simp [hf, hloop] at hg
  · simp [hf, hloop] at hg
  · simp [hf, hroot] at hg
  · rw [hf] at hg
    obtain rfl := Option.some.inj hg
    rw [hsound.root hroot] at hl
    cases hl
  · unfold bodyExits
    rw [hending l hl]
    rfl

/-- None of these labels has a place. -/
lemma bodyExits_apart (hs : s.Sound) {l : InstrId} (hl : l ∈ s.program.placed) :
    ¬ (bodyExits s).Far l ∧ l ≠ (bodyExits s).miss := by
  have hlt : l ≠ s.program.instrs.size := (hs.site.placed_lt l hl).ne
  refine ⟨?_, hlt⟩
  rintro (hcase | hcase | hcase | hcase)
  · exact hlt hcase
  · exact hlt hcase
  · exact hlt hcase
  · unfold bodyExits at hcase
    cases hend : (s.program.method s.method).endLabel with
    | none =>
      rw [hend] at hcase
      exact hlt hcase
    | some k =>
      rw [hend] at hcase
      obtain rfl : l = k := hcase
      have hpromised : l ∈ s.site.promised := List.mem_append_left _
        (List.mem_filterMap.mpr ⟨_, Program.method_mem hs.method_lt, hend⟩)
      exact (hs.site.waiting l hpromised).2.2 hl

/-- Lowering a body lays its code. -/
lemma lowerBody_code (henv : env.Sound) (hnames : env.NamesConstructs) (htree : tree.Nested)
    (hplain : ∀ a ∈ tree.flatten, a.NoAddress) (hs : s.Idle)
    (hm : s.method < s.program.methods.size) (hrun : lowerBody env tree.flatten s = .ok ⟨⟩ t)
    (herrors : t.errors = #[]) : ∃ u x code, BodyCode env s tree u t x code := by
  obtain ⟨u, hall, hu, hends, new, happ, hlays⟩ :=
    lowerBody_lays henv hnames htree hplain hs hm hrun herrors
  obtain ⟨code, hcode⟩ := lowerBody_extends henv hplain hs hm hrun herrors
  obtain ⟨f, hf, ht⟩ := hends.state
  have hmethod : t.method = u.method := by
    rw [ht]
    rfl
  have hus : u.method = s.method := happ.method
  have hroot : f.construct? = none := by
    obtain ⟨inner, hinner⟩ := hu.openers
    rw [hf] at hinner
    cases inner with
    | nil =>
      have hopener : f.opener = none := by simpa using hinner
      simp [Frame.construct?, hopener]
    | cons k l => simp at hinner
  have hproper : tree.Proper [none] [] := by
    have hshapes : (rooted s).scopes.shapes = [Shape.after none []] := by
      unfold ScopeStack.shapes rooted
      rw [LowerState.build_frames, hs.frames]
      rfl
    have hshape := hall.run hnames
    rw [hshapes] at hshape
    exact ((BlockTree.run_flatten_iff htree none [] [] _).mp hshape).1
  have hbody := Appends.of_adds_nil hu.sound hmethod hends.adds
  have hroots := settled_rooted (hs.sound hm) hs.frames hs.pending
  have hids : t.body = (rooted s).body ++ new := by rw [hbody.body, List.append_nil, happ.body]
  have hlines : t.program.lines s.method = s.program.lines s.method ++ new.map u.program.line := by
    have hsame : t.body.map t.program.line = t.body.map u.program.line := by
      rw [hbody.body, List.append_nil]
      exact hbody.lines hu.sound fun _ hid => hid
    have hold : (rooted s).body.map u.program.line = (rooted s).body.map s.program.line :=
      happ.lines hroots.sound fun _ hid => hid
    calc t.program.lines s.method = t.body.map t.program.line := by
            unfold Program.lines LowerState.body
            rw [hmethod, hus]
      _ = (rooted s).body.map u.program.line ++ new.map u.program.line := by
            rw [hsame, hids, List.map_append]
      _ = s.program.lines s.method ++ new.map u.program.line := by
            rw [hold]
            rfl
  have hagrees : (bodyExits t).Agrees u := agrees_bodyExits hu.sound hf hroot
    (by rw [hmethod]; exact hends.adds.ending)
  have hnodup : t.body.Nodup :=
    (List.nodup_flatMap.mp hends.sound.site.placed_nodup).1 _ (Program.method_mem hends.sound.method_lt)
  refine ⟨u, bodyExits t, _, hlays _ hagrees 0, hproper, hlines, fun l hl => ?_, ?_, fun l hl => ?_⟩
  · obtain ⟨new', hnew', -, hge⟩ := hcode.body
    obtain ⟨id, hid, hline⟩ := List.mem_map.mp hl
    obtain ⟨-, rfl⟩ := Program.line_eq_label.mp hline
    have hnew : (rooted s).body ++ new = (rooted s).body ++ new' := by
      rw [← hids]
      unfold LowerState.body
      rw [hmethod, hus]
      exact hnew'
    rw [List.append_cancel_left hnew] at hid
    exact hge id hid
  · have honce : Once (t.body.map t.program.line) := .of_nodup hnodup
    unfold LowerState.body at honce
    rw [hmethod, hus] at honce
    exact honce
  · obtain ⟨id, hid, hline⟩ := List.mem_map.mp hl
    obtain ⟨-, rfl⟩ := Program.line_eq_label.mp hline
    refine bodyExits_apart hends.sound (Program.mem_placed_of_mem_body hends.sound.method_lt ?_)
    rwa [hmethod, hus]

/-- The lines that were there before jump to no label of the body. -/
lemma BodyCode.not_target (h : BodyCode env s tree u t x code) (hs : s.Idle)
    (hm : s.method < s.program.methods.size) {y : Line} (hy : y ∈ s.program.lines s.method) {l : InstrId}
    (hl : .label l ∈ code) : y.target? ≠ some l := by
  intro htarget
  obtain ⟨id, hid, rfl⟩ := List.mem_map.mp hy
  have hplaced := Program.mem_placed_of_mem_body hm hid
  have hlt : l < s.program.instrs.size := by
    have hinstr : (s.program.instr id).labelTarget = some l := by
      rwa [← Program.instr_line]
    rcases (hs.site.accepts id hplaced).target l hinstr with hl | hl
    · exact hs.site.placed_lt l hl
    · exact (hs.site.waiting l hl).1
  exact absurd (h.fresh l hl) (Nat.not_le.mpr hlt)

/-- Some items of a body, with the lines of its method before, of and after them. They stand after the
actions `acts`, which were lowered from the state `s` to the state `u`. No line outside jumps to a label
among theirs, but to the end of the chain that they go on with, if they do. -/
structure Part (env : Environment) (s : LowerState) (acts : List Action) (u : LowerState) (x : Exits)
    (back : Option InstrId) (exit : InstrId) (sub : BlockTree) (pre mid post : List Line) : Prop where
  performs : PerformsAll env 0 acts (rooted s) u
  length : u.body.length + sub.continuesChain.toNat = pre.length
  codeOf : ∃ v, CodeOf env x back exit acts.length u sub v mid
  proper : ∃ path before, sub.Proper path before
  out : ∀ l, .label l ∈ mid → ¬ x.Out back l
  once : Once (pre ++ mid ++ post)
  apart : ∀ y ∈ pre ++ post, ∀ l, .label l ∈ mid → y.target? = some l →
    sub.continuesChain = true ∧ l = exit

/-- The lines of some items of a body. -/
lemma BodyCode.part (h : BodyCode env s tree u t x code) (hs : s.Idle)
    (hm : s.method < s.program.methods.size) {sub : BlockTree} {acts : List Action}
    (hwithin : sub.Within tree acts) (hsub : sub.isDone = false) :
    ∃ v x' back exit pre mid post, t.program.lines s.method = pre ++ mid ++ post ∧
      Part env s acts v x' back exit sub pre mid post := by
  obtain ⟨v, exit, pre, mid, post, rfl, hall, hlength, -, hamid⟩ := h.codeOf.within h.proper hwithin hsub
  obtain ⟨⟨x', back, w, hcode, hexits⟩, hproper, haround⟩ := hamid
  have hlines : t.program.lines s.method = (s.program.lines s.method ++ pre) ++ mid ++ post := by
    rw [h.lines]
    simp
  have honce := h.once
  rw [hlines] at honce
  have halone : ∀ l, .label l ∈ mid → .label l ∉ pre ++ post := by
    intro l hl hmem
    rcases List.mem_append.mp hmem with hmem | hmem
    · rw [List.append_assoc] at honce
      exact honce.not_mem (List.mem_append_right _ hmem) (List.mem_append_left _ hl)
    · exact honce.not_mem (List.mem_append_right _ hl) hmem
  have hnone : ∀ l, .label l ∈ mid → ¬ x.Out none l := by
    intro l hl hout
    obtain ⟨hfar, hmiss⟩ := h.apart l (by rw [hlines]; simp [hl])
    rcases hout with hout | hout | hout
    · exact hfar hout
    · exact hmiss hout
    · cases hout
  rw [Nat.zero_add] at hcode
  refine ⟨v, x', back, exit, s.program.lines s.method ++ pre, mid, post, hlines, hall, ?_, ⟨w, hcode⟩, hproper,
    fun l hl hout => ?_, honce, fun y hy l hl htarget => ?_⟩
  · rw [hlength, h.proper.apart_of_nil, List.length_append]
    unfold Program.lines
    rw [List.length_map]
    rfl
  · exact (hexits l hout).elim (halone l hl) (hnone l hl)
  · rw [List.append_assoc] at hy
    rcases List.mem_append.mp hy with hy | hy
    · exact absurd htarget (h.not_target hs hm hy (by simp [hl]))
    · rcases haround y hy l htarget with hmem | hout | hcase
      · exact absurd hmem (halone l hl)
      · exact absurd hout (hnone l hl)
      · exact hcase

end Lower

end TriggerCompiler
