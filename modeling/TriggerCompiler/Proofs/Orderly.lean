import Mathlib
import TriggerCompiler.Proofs.Compile
import TriggerCompiler.Proofs.Discipline

/-!
# Compiled programs are in phrases

Each step of a compile keeps the discipline, so that all bodies of a compiled program are in phrases.
The same holds of a compiled group, and so of all groups of a registry that was built up from such
groups.
-/

namespace TriggerCompiler

variable {name : String} {type : ValueType} {kind : SlotKind} {slot : SlotId} {q p : Program}
  {m : Method}

open Lower

namespace Program

variable {table : SlotTable}

/-- A new slot that is declared is the one slot more. -/
lemma get_declared {t : SlotTable} (hd : t.declare name type kind = .ok (slot, table)) {id : SlotId}
    (hge : t.size ≤ id) (hlt : id < table.size) : table.get id = { name, type, kind } := by
  obtain ⟨-, rfl, rfl⟩ := SlotTable.insert_eq_ok hd
  obtain rfl : id = t.size := le_antisymm (Nat.le_of_lt_succ (by simpa using hlt)) hge
  exact SlotTable.get_push_self _ _

lemma get_reserved {t : SlotTable} (hd : t.reserved name type = .ok (slot, table)) {id : SlotId}
    (hge : t.size ≤ id) (hlt : id < table.size) : table.get id = { name, type, kind := .reserved } := by
  unfold SlotTable.reserved at hd
  split at hd
  · dsimp only at hd
    split_ifs at hd
    obtain ⟨rfl, rfl⟩ := Prod.mk.inj (Except.ok.inj hd)
    exact absurd hlt (Nat.not_lt.mpr hge)
  · exact get_declared hd hge hlt

lemma enlarges_slots (hw : p.slots.Within table)
    (hshadow : ∀ id, p.slots.size ≤ id → id < table.size → (table.get id).shadow = none) :
    p.Enlarges { p with slots := table } :=
  ⟨hw, fun _ h => .inl h, fun _ _ h => h, fun _ h => h, hshadow⟩

lemma enlarges_declare (hd : p.slots.declare name type kind = .ok (slot, table)) :
    p.Enlarges { p with slots := table } := by
  apply enlarges_slots (SlotTable.declare_gains hd).within
  intro id hge hlt
  rw [get_declared hd hge hlt]

lemma enlarges_reserved (hd : p.slots.reserved name type = .ok (slot, table)) :
    p.Enlarges { p with slots := table } := by
  apply enlarges_slots (SlotTable.reserved_gains hd).within
  intro id hge hlt
  rw [get_reserved hd hge hlt]

lemma Tidy.declare (h : p.Tidy) (hd : p.slots.declare name type kind = .ok (slot, table)) :
    Tidy { p with slots := table } := by
  apply h.grow (enlarges_declare hd)
  · intro id hge hlt
    rw [get_declared hd hge hlt]
    simp
  · intro slot hr hge
    exact absurd (h.returns slot hr).lt (Nat.not_lt.mpr hge)

/-- A slot with a fixed role that is neither an address nor an object of the scene. -/
lemma Tidy.reserved (h : p.Tidy) (hsound : table.Sound)
    (hd : p.slots.reserved name type = .ok (slot, table)) (huint : type ≠ .uint32)
    (hobject : type ≠ .gameObject) :
    Tidy { p with slots := table } ∧ Open { p with slots := table } slot := by
  have hgains := SlotTable.reserved_gains hd
  have hslot : (table.get slot).kind = .reserved ∧ (table.get slot).type = type ∧
      Tidy { p with slots := table } := by
    unfold SlotTable.reserved at hd
    split at hd
    · dsimp only at hd
      split_ifs at hd with hok
      obtain ⟨rfl, rfl⟩ := Prod.mk.inj (Except.ok.inj hd)
      exact ⟨hok.1, hok.2, h⟩
    · have htidy := h.declare hd
      obtain ⟨-, rfl, rfl⟩ := SlotTable.insert_eq_ok hd
      rw [SlotTable.get_push_self]
      exact ⟨rfl, rfl, htidy⟩
  obtain ⟨hkind, htype, htidy⟩ := hslot
  have huser : (table.get slot).kind ≠ .user := by simp [hkind]
  refine ⟨htidy, ⟨htidy.clean hgains.lt ?_ fun hr => ?_, ⟨?_, ?_⟩, .inl ?_⟩,
    unsynced_of_kind hsound hgains.lt huser⟩
  · simp [hkind]
  · exact huint (htype.symm.trans (htidy.returns slot hr).type_eq)
  · simp [hkind]
  · by_contra hthis
    exact hobject (htype.symm.trans (htidy.this slot hgains.lt (by simpa using hthis)))
  · exact (hsound.plain slot hgains.lt huser).1

section

variable (hmethods : q.methods = p.methods.push m)
include hmethods

lemma mem_push {y : Method} : y ∈ q.methods.toList ↔ y ∈ p.methods.toList ∨ y = m := by
  rw [hmethods, Array.toList_push]
  simp

lemma returns_push (h : q.Returns slot) : p.Returns slot ∨ m.epilogue = .indirect slot := by
  obtain ⟨y, hy, hslot⟩ := h
  rcases (mem_push hmethods).mp hy with hy | rfl
  · exact .inl ⟨y, hy, hslot⟩
  · exact .inr hslot

/-- One method more. -/
lemma enlarges_push (hw : p.slots.Within q.slots)
    (hm : ∀ slot, m.epilogue = .indirect slot → p.slots.size ≤ slot)
    (hshadow : ∀ id, p.slots.size ≤ id → id < q.slots.size → (q.slots.get id).shadow = none) :
    p.Enlarges q := by
  refine ⟨hw, fun x hx => (returns_push hmethods hx).imp id (hm x), ?_, ?_, hshadow⟩
  · rintro name slot ⟨y, hy, hrest⟩
    exact ⟨y, (mem_push hmethods).mpr (.inl hy), hrest⟩
  · rintro name ⟨y, hy, hrest⟩
    exact ⟨y, (mem_push hmethods).mpr (.inl hy), hrest⟩

lemma enlarges_entry (hslots : q.slots = p.slots) (hm : ∀ slot, m.epilogue ≠ .indirect slot) :
    p.Enlarges q := by
  apply enlarges_push hmethods
  · rw [hslots]
    exact SlotTable.Within.refl _
  · intro slot hslot
    exact absurd hslot (hm slot)
  · intro id hge hlt
    rw [hslots] at hlt
    exact absurd hlt (Nat.not_lt.mpr hge)

end

lemma enlarges_callee (hd : p.slots.declare name .uint32 .reserved = .ok (slot, q.slots))
    (hmethods : q.methods = p.methods.push m) (hm : m.epilogue = .indirect slot) :
    p.Enlarges q := by
  obtain ⟨-, hslot, -⟩ := SlotTable.insert_eq_ok hd
  apply enlarges_push hmethods (SlotTable.declare_gains hd).within
  · intro x hx
    exact (hslot.symm.trans (Epilogue.indirect.inj (hm.symm.trans hx))).le
  · intro id hge hlt
    rw [get_declared hd hge hlt]

/-- A method that returns through a slot made for it. -/
lemma Tidy.addCallee (h : p.Tidy)
    (hd : p.slots.declare name .uint32 .reserved = .ok (slot, q.slots))
    (hmethods : q.methods = p.methods.push m) (hm : m.epilogue = .indirect slot) :
    q.Tidy := by
  obtain ⟨-, hslot, -⟩ := SlotTable.insert_eq_ok hd
  apply h.grow (enlarges_callee hd hmethods hm)
  · intro id hge hlt
    rw [get_declared hd hge hlt]
    simp
  · intro x hr hge
    have hlt := (SlotTable.declare_gains hd).lt
    obtain rfl : x = slot := by
      rcases returns_push hmethods hr with hold | hx
      · exact absurd (h.returns x hold).lt (Nat.not_lt.mpr hge)
      · exact Epilogue.indirect.inj (hx.symm.trans hm)
    have hget := get_declared hd hge hlt
    refine ⟨hlt, ?_, ?_, ?_, ?_⟩
    all_goals rw [hget]

end Program

namespace Lower

variable {s t u : LowerState} {env : Environment} {R : Rules} {agenda : Agenda}
  {d : ActionDef} {a : Action}

/-- What an environment is asked for: its definitions are known to the rules, its groups keep to them,
and the inputs of its events are neither addresses nor objects of the scene. All methods may be called.
Where the rules are strict, no action reads a parameter that it writes. -/
structure Orderly (env : Environment) (R : Rules) (acts : Action → Prop) : Prop where
  sound : env.Sound
  covers : R.Covers
  noAddress : ∀ a, acts a → a.NoAddress
  known : ∀ id group d, env.registry.findAction id group = .ok d → d.Known R
  fine : ∀ e ∈ env.registry.groups, e.2.Fine R
  events : ∀ e ∈ env.registry.events, ∀ p ∈ e.2.parameters, p.type ≠ .uint32 ∧ p.type ≠ .gameObject
  callable : ∀ name, R.callable name
  strict : R.strict → ∀ id group d, env.registry.findAction id group = .ok d →
    ∀ x ∈ d.parameters, x.direction ≠ .both
  agrees : R.strict → ∀ id group d, env.registry.findAction id group = .ok d →
    ∀ guid action, d.kind = .group guid action → ∀ g, env.registry.group? guid = some g →
      ∀ e ∈ g.entries, e.name = action → e.parameters.map Prod.fst = d.parameters

lemma Orderly.known_of_mem (h : Orderly env R agenda.acts) (ha : agenda.acts a)
    (hd : env.registry.findAction a.id a.group = .ok d) : Known R d a :=
  ⟨h.covers, h.sound.plain _ _ _ hd, h.known _ _ _ hd, h.noAddress a ha,
    fun hstrict => h.strict hstrict _ _ _ hd⟩

/-! ## Between two bodies -/

/-- Outside of bodies, all methods are in phrases. -/
structure Rests (env : Environment) (R : Rules) (s : LowerState) : Prop where
  tidy : s.program.Tidy
  spelled : ∀ k < s.program.methods.size, s.program.Spelled R k
  inputs : ∀ e ∈ s.eventInputs, s.program.Open e.2
  merges : ∀ e ∈ s.merges, (∀ x ∈ e.2.entries, x.Fine s.program) ∧
    ∃ (group : CompiledGroup) (r : Renaming), env.registry.group? e.1 = some group ∧
      e.2.entries = group.entries.map r.entry

lemma goal_iff_own (hf : s.scopes.frames = []) {l : InstrId} :
    s.Goal l ↔ s.program.Own s.method l := by
  simp [LowerState.Goal, ScopeStack.endLabels, hf]

lemma Rests.disciplined (h : Rests env R s) (hf : s.scopes.frames = [])
    (hcallable : ∀ name, R.callable name) : s.Disciplined env R := by
  refine ⟨⟨h.tidy, fun k hk _ => h.spelled k hk, h.inputs, h.merges, by simp [hf]⟩, fun hm => ?_⟩
  refine ⟨[], by simp [LowerState.last, hf, LowerState.Trail], s.program.lines s.method, ?_, by simp⟩
  refine ((h.spelled _ hm).limit fun name _ => hcallable name).mono
    ((Program.Enlarges.refl _).terms_le R id fun l hl => ?_)
  exact (goal_iff_own hf).mpr hl

lemma rests_of_disciplined (h : s.Disciplined env R) (hf : s.scopes.frames = []) :
    Rests env R s := by
  refine ⟨h.kept.tidy, fun k hk => ?_, h.kept.inputs, h.kept.merges⟩
  by_cases hm : k = s.method
  · subst hm
    obtain ⟨rest, htrail, code, hcode, hlines⟩ := h.lines hk
    have hrest : rest = [] := by simpa [LowerState.last, hf, LowerState.Trail] using htrail
    unfold Program.Spelled
    rw [hlines, hrest, List.append_nil]
    refine hcode.free.mono ((Program.Enlarges.refl _).terms_le R.free id fun l hl => ?_)
    exact (goal_iff_own hf).mp hl
  · exact h.kept.others k hk hm

/-- The program got larger in a way that leaves all bodies as they are. -/
lemma Rests.enlarge {inputs : List (String × SlotId)} (h : Rests env R s)
    (hstate : ∃ locals, t = { s with program := q, eventInputs := inputs, locals })
    (he : s.program.Enlarges q) (htidy : q.Tidy)
    (hold : ∀ k < s.program.methods.size, q.method k = s.program.method k)
    (hinstr : q.instrs = s.program.instrs)
    (hnew : ∀ k < q.methods.size, ¬ k < s.program.methods.size → q.lines k = [])
    (hinputs : ∀ e ∈ inputs, e ∈ s.eventInputs ∨ q.Open e.2) :
    Rests env R t := by
  obtain ⟨locals, rfl⟩ := hstate
  refine ⟨htidy, fun k hk => ?_, fun e hmem => ?_, fun e hmem => ?_⟩
  · by_cases hlt : k < s.program.methods.size
    · have hlines : q.lines k = s.program.lines k := by
        unfold Program.lines
        rw [hold k hlt]
        refine List.map_congr_left fun id _ => Program.line_congr ?_
        unfold Program.instr
        rw [hinstr]
      unfold Program.Spelled
      change Spells _ (q.lines k)
      rw [hlines]
      have hmethod := hold k hlt
      refine (h.spelled k hlt).mono (he.terms_le R.free (fun hs => hmethod ▸ hs) fun l hl => ?_)
      rcases hl with hl | hl
      · refine .inl ⟨hmethod ▸ hl.mem, ?_⟩
        have hnop := hl.nop
        unfold Program.instr at hnop ⊢
        change q.instrs.getD l _ = _
        rwa [hinstr]
      · exact .inr (hmethod ▸ hl)
    · unfold Program.Spelled
      change Spells _ (q.lines k)
      rw [hnew k hk hlt]
      exact Spells.nil
  · rcases hinputs e hmem with hold | hopen
    · exact (h.inputs e hold).enlarge he
    · exact hopen
  · obtain ⟨hfine, hgroup⟩ := h.merges e hmem
    exact ⟨fun x hx => (hfine x hx).enlarge he, hgroup⟩

lemma lines_push {k : MethodId} (hq : q.methods = p.methods.push m) (hm : m.body = #[])
    (hk : k < q.methods.size) (hlt : ¬ k < p.methods.size) : q.lines k = [] := by
  have hsize : k = p.methods.size := by
    rw [hq, Array.size_push] at hk
    exact le_antisymm (Nat.le_of_lt_succ hk) (Nat.le_of_not_lt hlt)
  unfold Program.lines Program.method
  rw [hq, hsize]
  simp [Array.getD_eq_getD_getElem?, hm]

/-- The lines in front of a body are phrases. -/
lemma spells_preamble {code : List Line} (hR : R.Covers) (hcallable : ∀ name, R.callable name)
    (ht : t.Sound) (hk : t.Kept env R) (h : Preamble t code) :
    Spells (t.program.terms R t.method t.Goal) code := by
  cases h with
  | @gate signature self allowed l known this spare ending =>
    have hopen := hk.tidy.of_spare ht.site.table spare
    refine Spells.append ?_ (Spells.branch hopen.clean (.inl (.inr ending)))
    have hself : ∀ x ∈ self, t.program.Clean x := fun x hx =>
      hk.tidy.of_isThis ht.site.table (this x hx)
    obtain ⟨rfl, hlength⟩ | ⟨rfl, hlength⟩ : (signature = HostCall.isOwner ∧ self.length = 1) ∨
        (signature = HostCall.isMaster ∧ self.length = 0) := by simpa using known
    · obtain ⟨x, rfl⟩ := List.length_eq_one_iff.mp hlength
      refine Spells.call [false, true] rfl
        (Terms.allows_of_silent (hR _ _ .isOwner) (by decide) _) ?_ ?_
      · simpa using ⟨hself x (by simp), hopen.clean⟩
      · simpa using hopen.writes
    · rw [List.length_eq_zero_iff.mp hlength]
      refine Spells.call [true] rfl (Terms.allows_of_silent (hR _ _ .isMaster) (by decide) _) ?_ ?_
      · simpa [Program.terms] using hopen.clean
      · simpa using hopen.writes
  | @send signature self arguments known this constant named =>
    have hclean : ∀ x ∈ self :: arguments, t.program.Clean x := by
      rintro x (_ | ⟨_, hx⟩)
      · exact hk.tidy.of_isThis ht.site.table this
      · obtain ⟨type, value, hconst, hvalue⟩ := constant x hx
        exact hk.tidy.of_isConstant hconst hvalue
    obtain ⟨rfl, hlength⟩ | ⟨rfl, hlength⟩ :
        (signature = HostCall.sendCustomNetworkEvent ∧ arguments.length = 2) ∨
        (signature = HostCall.sendCustomEventDelayed ∧ arguments.length = 3) := by
      simpa using known
    · obtain ⟨x, y, rfl⟩ := List.length_eq_two.mp hlength
      exact Spells.call [false, false, false] rfl ⟨hR _ _ .network, fun _ => named⟩ hclean (by simp)
    · obtain ⟨x, y, z, rfl⟩ := List.length_eq_three.mp hlength
      exact Spells.call [false, false, false, false] rfl ⟨hR _ _ .delayed, fun _ => named⟩ hclean
        (by simp)
  | call lines callee => exact Program.spells_method lines callee (hcallable _)

/-- The steps between two bodies keep all methods in phrases. -/
lemma Step.rests (henv : Orderly env R agenda.acts) (h : Step env agenda s t) (hs : s.scopes.frames = [])
    (ht : t.scopes.frames = []) (hr : Rests env R s) : Rests env R t := by
  cases h with
  | turn idle fewer fewerInputs =>
    exact ⟨hr.tidy, hr.spelled, fun e he => hr.inputs e (fewerInputs he), hr.merges⟩
  | @previous name id shadow idle lt isShadow =>
    refine ⟨hr.tidy, hr.spelled, fun e he => ?_, hr.merges⟩
    rcases List.mem_cons.mp he with rfl | he
    · exact hr.tidy.of_shadow idle.site.table lt isShadow
    · exact hr.inputs e he
  | input idle known mem reserved =>
    obtain ⟨huint, hobject⟩ := henv.events _ known _ mem
    have hgains := SlotTable.reserved_gains reserved
    obtain ⟨htidy, hopen⟩ := hr.tidy.reserved (hgains.sound idle.site.table) reserved huint hobject
    refine hr.enlarge ⟨_, rfl⟩ (Program.enlarges_reserved reserved)
      htidy (fun _ _ => rfl) rfl (fun k hk hno => absurd hk hno) fun e he => ?_
    rcases List.mem_cons.mp he with rfl | he
    · exact .inr hopen
    · exact .inl he
  | parameter idle _ declared =>
    exact hr.enlarge ⟨_, rfl⟩ (Program.enlarges_declare declared) (hr.tidy.declare declared)
      (fun _ _ => rfl) rfl (fun k hk hno => absurd hk hno) fun e he => .inl he
  | @entry name idle _ fresh =>
    have henlarges : s.program.Enlarges { s.program with
        methods := s.program.methods.push { name, kind := .entry } } :=
      Program.enlarges_entry rfl rfl (by simp)
    have htidy := hr.tidy.enlarge henlarges (SlotTable.Makes.of_size le_rfl)
      fun x hx => (Program.returns_push rfl hx).resolve_right (by simp)
    exact hr.enlarge ⟨_, rfl⟩ henlarges htidy (fun _ hk => Program.method_push rfl hk) rfl
      (fun k hk hno => lines_push rfl rfl hk hno) fun e he => .inl he
  | @callee name slot table idle _ fresh declared =>
    exact hr.enlarge ⟨_, rfl⟩ (Program.enlarges_callee declared rfl rfl)
      (hr.tidy.addCallee declared rfl rfl) (fun _ hk => Program.method_push rfl hk) rfl
      (fun k hk hno => lines_push rfl rfl hk hno) fun e he => .inl he
  | preamble idle method_lt emits lines =>
    have hsound := idle.sound method_lt
    have hd := hr.disciplined hs henv.callable
    have hk := emits.kept hsound hd.kept
    have hspoken := emits.spoken hsound hd (by simp [LowerState.last, hs])
      (spells_preamble henv.covers henv.callable (emits.sound hsound) hk lines)
    exact rests_of_disciplined
      ⟨hk, fun _ => ⟨[], by simp [LowerState.last, ht, LowerState.Trail], hspoken⟩⟩ ht
  | opens idle method_lt =>
    simp [rooted] at ht
  | action settled =>
    obtain ⟨f, rest, hf, -⟩ := settled.follows
    rw [hs] at hf
    cases hf
  | closes settled ends =>
    obtain ⟨f, rest, hf, -⟩ := settled.follows
    rw [hs] at hf
    cases hf

/-! ## Bodies -/

/-- The invariant of a compile: unless some block can no longer be closed, the code is as it should
be. -/
structure Held (env : Environment) (R : Rules) (s : LowerState) : Prop where
  coherent : Shape.Coherent s.scopes.shapes
  disciplined : Shape.Stuck s.scopes.shapes ∨ s.Disciplined env R

lemma Rests.held (h : Rests env R s) (hf : s.scopes.frames = [])
    (hcallable : ∀ name, R.callable name) : Held env R s := by
  refine ⟨?_, .inr (h.disciplined hf hcallable)⟩
  simp only [ScopeStack.shapes, hf, List.map_nil]
  exact ⟨by simp, by simp, List.isChain_nil⟩

lemma Held.rests (h : Held env R s) (hf : s.scopes.frames = []) : Rests env R s := by
  rcases h.disciplined with hstuck | hd
  · simp only [ScopeStack.shapes, hf, List.map_nil] at hstuck
    exact hstuck.elim
  · exact rests_of_disciplined hd hf

lemma disciplined_atAction (hd : s.Disciplined env R) (index : Nat) (id : String) :
    (atAction s index id).Disciplined env R :=
  ⟨⟨hd.kept.tidy, hd.kept.others, hd.kept.inputs, hd.kept.merges, hd.kept.frames⟩, hd.lines⟩

lemma Prepares.last (h : Prepares s t) : t.last = s.last := by
  obtain ⟨f, rest, new, hf, hframes, -⟩ := h.locals
  simp [LowerState.last, hf, hframes, Frame.declare]

lemma trail_nil {c : Construct} (hopens : c.opensBlock = false) :
    LowerState.Trail p (some c) [] := by
  cases c with
  | condition | ifBranch | elseIf | conditionBody => cases hopens
  | _ => rfl

lemma last_eq (s : LowerState) : s.last = s.scopes.shapes.head?.bind (·.previous) := by
  cases hf : s.scopes.frames with
  | nil => simp [LowerState.last, ScopeStack.shapes, hf]
  | cons f rest => simp [LowerState.last, ScopeStack.shapes, hf, Frame.shape]

lemma Settles.exists_frame (h : Settles u d t) (ht : t.Settled) :
    ∃ f rest, u.scopes.frames = f :: rest := by
  obtain ⟨g, frames, hg, -⟩ := ht.follows
  cases hf : u.scopes.frames with
  | nil =>
    have hscopes : t.scopes = remember d u.scopes := by rw [h.state]
    have hnil : (remember d u.scopes).frames = [] := by
      unfold remember
      split_ifs
      · exact hf
      · simp [ScopeStack.modifyCurrent, hf]
    rw [hscopes, hnil] at hg
    cases hg
  | cons f rest => exact ⟨f, rest, rfl⟩

/-- An action that is lowered well keeps the discipline, unless a condition body was due and did not
come. -/
lemma Lowered.disciplined {callable : String → Prop}
    (henv : Orderly env R agenda.acts) (h : Lowered env d a s u)
    (hcallable : ∀ e ∈ u.merges, ∀ y ∈ e.2.entries, callable y.method)
    (ht : Settles u d t) (hstart : s.Settled) (hu : u.Sound) (hsettled : t.Settled)
    (hknown : Known R d a) (hfound : ∃ id group, env.registry.findAction id group = .ok d)
    (hadmits : ∀ c, d.construct? = some c → Shape.admits c s.scopes.shapes = true)
    (hshapes : t.scopes.shapes = Shape.follow d.construct? s.scopes.shapes)
    (hd : s.Disciplined env (R.limit callable))
    (hlast : s.last = some .condition → d.construct? = some .conditionBody) :
    t.Disciplined env (R.limit callable) := by
  replace hknown : Known (R.limit callable) d a :=
    ⟨hknown.covers, hknown.plain, ⟨hknown.known.calls, hknown.known.oneResult, hknown.known.silent⟩,
      hknown.noAddress, hknown.strict⟩
  have hfine : ∀ e ∈ env.registry.groups, e.2.Fine (R.limit callable) := fun e he =>
    ⟨(henv.fine e he).tidy, (henv.fine e he).unwatched, (henv.fine e he).internal,
      (henv.fine e he).spelled, (henv.fine e he).entries⟩
  have hs := hstart.sound
  obtain ⟨x, shapes, hx⟩ : ∃ x shapes, s.scopes.shapes = x :: shapes := by
    obtain ⟨f, rest, hf, -⟩ := hstart.follows
    exact ⟨f.shape, rest.map Frame.shape, by simp [ScopeStack.shapes, hf]⟩
  obtain ⟨fu, ru, hfu⟩ := ht.exists_frame hsettled
  have htlast := last_eq t
  rw [hshapes, hx] at htlast
  have hconstruct : ∀ c, d.kind = .construct c → d.construct? = some c := fun c hc => by
    simp [ActionDef.construct?, hc]
  have hxlast : s.last = x.previous := by rw [last_eq, hx]; rfl
  have hno : ∀ {s₁}, Prepares s s₁ → d.construct? ≠ some .conditionBody → s₁.last ≠ some .condition :=
    fun hprep hne hcond => hne (hlast (hprep.last ▸ hcond))
  cases h with
  | @statement c r s₁ code kind plain noEnd prepares bound emits lines =>
    have hc := hconstruct c kind
    have hbody : d.construct? ≠ some .conditionBody := by
      rw [hc]
      rintro ⟨⟩
      cases plain
    obtain ⟨hk, hspoken⟩ := statement_spoken hknown kind (prepares.sound hs)
      (prepares.disciplined hs hd) (hno prepares hbody) bound.toBound emits hu lines
    refine ht.disciplined hu hfu hk hspoken ?_
    rw [htlast, hc, Shape.follow_of_ne noEnd, plain]
    exact trail_nil plain
  | @call signature onType r s₁ code targets kind prepares bound emits chosen lines =>
    have hc : d.construct? = none := by simp [ActionDef.construct?, kind]
    obtain ⟨hk, hspoken⟩ := call_spoken hknown kind (prepares.sound hs)
      (prepares.disciplined hs hd) (hno prepares (by simp [hc])) bound.toBound emits hu chosen lines
    refine ht.disciplined hu hfu hk hspoken ?_
    rw [htlast, hc]
    exact rfl
  | @group guid action r s₁ kind prepares bound calls =>
    have hc : d.construct? = none := by simp [ActionDef.construct?, kind]
    obtain ⟨id, key, hd'⟩ := hfound
    obtain ⟨hk, hspoken⟩ := group_spoken hknown henv.sound.groups hfine
      (fun hstrict g hg e he hname =>
        henv.agrees hstrict id key d hd' guid action kind g hg e he hname)
      hcallable (prepares.sound hs) (prepares.disciplined hs hd) (hno prepares (by simp [hc]))
      bound.toBound calls hu
    refine ht.disciplined hu hfu hk hspoken ?_
    rw [htlast, hc]
    exact rfl
  | @opener c r s₁ f rest kind opens prepares bound frames block =>
    have hc := hconstruct c kind
    have hx₁ : f.shape = x := by
      have hsame := prepares.shapes
      rw [hx] at hsame
      simp only [ScopeStack.shapes, frames, List.map_cons] at hsame
      exact (List.cons.inj hsame).1
    have hadm := hadmits c hc
    rw [hx] at hadm
    have hbody : s₁.last = some .condition ↔ c = .conditionBody := by
      rw [prepares.last]
      refine ⟨fun hcond => Option.some.inj (hc.symm.trans (hlast hcond)), fun hbody => ?_⟩
      rw [hbody] at hadm
      rw [hxlast]
      exact ((Shape.admits_conditionBody x shapes).mp hadm).1
    have hchain : c = .elseIf ∨ c = .elseBranch →
        f.previous = some .ifBranch ∨ f.previous = some .elseIf := fun hchain => by
      have hprev := (Shape.admits_chain hchain x shapes).mp hadm
      rw [← hx₁] at hprev
      exact hprev
    obtain ⟨hk, hspoken⟩ := opener_spoken hknown kind (prepares.sound hs) hu frames
      (prepares.disciplined hs hd) hbody hchain bound.toBound block
    refine ht.disciplined hu hfu hk hspoken ?_
    rw [htlast, hc, Shape.follow_of_ne (by rintro rfl; cases opens), opens]
    exact rfl
  | @closer g g' f rest kind frames fills closes =>
    have hc := hconstruct _ kind
    have hopen : s.last ≠ some .condition := fun hcond => by cases hc.symm.trans (hlast hcond)
    have hx₁ : g.shape = x := by
      simp only [ScopeStack.shapes, frames, List.map_cons] at hx
      exact (List.cons.inj hx).1
    have hcomplete : g.Complete := by
      have hadm := hadmits _ hc
      simp only [ScopeStack.shapes, frames, List.map_cons] at hadm
      exact (Frame.isComplete_shape g).mp hadm
    obtain ⟨hk, trail, htrail, hspoken⟩ := closes.spoken hs frames fills hd hopen fun hwhile => by
      rw [hxlast, ← hx₁]
      exact hcomplete.2 hwhile
    refine ht.disciplined hu hfu hk hspoken ?_
    have hsame : t.last = u.last := by
      have hblocks : d.affectsBlocks = true := by simp [ActionDef.affectsBlocks, kind, Construct.affectsBlocks]
      have hframes := ht.frames_eq hfu
      rw [if_pos hblocks] at hframes
      simp [LowerState.last, hframes, hfu]
    rw [hsame]
    exact htrail

/-- What an action finds: the discipline, and a condition body where one is due, unless some block can
no longer be closed afterwards. -/
lemma Held.due (hs : Held env R s) (settled : s.Settled)
    (admits : ∀ c, d.construct? = some c → Shape.admits c s.scopes.shapes = true)
    (shapes : t.scopes.shapes = Shape.follow d.construct? s.scopes.shapes) :
    Shape.Stuck t.scopes.shapes ∨
      s.Disciplined env R ∧ (s.last = some .condition → d.construct? = some .conditionBody) := by
  rw [shapes]
  rcases hs.disciplined with hstuck | hd
  · exact .inl (hstuck.follow admits)
  obtain ⟨f, rest, hf, -⟩ := settled.follows
  have hx : s.scopes.shapes = f.shape :: rest.map Frame.shape := by
    simp [ScopeStack.shapes, hf]
  by_cases hdue : s.last = some .condition → d.construct? = some .conditionBody
  · exact .inr ⟨hd, hdue⟩
  · push Not at hdue
    left
    have hawaits := hs.coherent.top f.shape (by simp [hx])
      (by simpa [LowerState.last, hf, Frame.shape] using hdue.1)
    rw [hx] at admits ⊢
    exact Shape.stuck_of_awaits hawaits (.inr hdue.2) admits

/-- The block of a whole body waits for no condition body. -/
lemma not_stuck_of_root {f : Frame} (settled : s.Settled) (hf : s.scopes.frames = [f]) :
    f.construct? = none ∧ ¬ f.shape.Awaits ∧ ¬ Shape.Stuck s.scopes.shapes := by
  have hconstruct : f.construct? = none := by
    obtain ⟨inner, hinner⟩ := settled.openers
    rw [hf] at hinner
    have hlength : inner = [] := by simpa using congrArg List.length hinner
    rw [hlength] at hinner
    simp [Frame.construct?, show f.opener = none by simpa using hinner]
  have hawaits : ¬ f.shape.Awaits := fun hawaits => by
    have htakes := hawaits.takes
    simp [Shape.takesCondition, Frame.shape, hconstruct] at htakes
  refine ⟨hconstruct, hawaits, fun hstuck => ?_⟩
  simp only [ScopeStack.shapes, hf, List.map_cons, List.map_nil] at hstuck
  exact hstuck.elim (fun h => hawaits h.1) id

lemma Step.held (henv : Orderly env R agenda.acts) (h : Step env agenda s t) (hs : Held env R s) :
    Held env R t := by
  by_cases hidle : s.scopes.frames = [] ∧ t.scopes.frames = []
  · exact (h.rests henv hidle.1 hidle.2 (hs.rests hidle.1)).held hidle.2 henv.callable
  cases h with
  | turn idle => exact absurd ⟨idle.frames, idle.frames⟩ hidle
  | previous idle => exact absurd ⟨idle.frames, idle.frames⟩ hidle
  | input idle => exact absurd ⟨idle.frames, idle.frames⟩ hidle
  | parameter idle => exact absurd ⟨idle.frames, idle.frames⟩ hidle
  | entry idle => exact absurd ⟨idle.frames, idle.frames⟩ hidle
  | callee idle => exact absurd ⟨idle.frames, idle.frames⟩ hidle
  | preamble idle method_lt emits lines =>
    have hlength := emits.frames.length_eq
    rw [idle.frames] at hlength
    exact absurd ⟨idle.frames, List.length_eq_zero_iff.mp hlength.symm⟩ hidle
  | opens idle method_lt =>
    have hd := (hs.rests idle.frames).disciplined idle.frames henv.callable
    have hshapes : (rooted s).scopes.shapes = [Frame.root.shape] := by
      simp [rooted, ScopeStack.shapes, idle.frames]
    refine ⟨?_, .inr ⟨⟨hd.kept.tidy, hd.kept.others, hd.kept.inputs, hd.kept.merges, ?_⟩, fun hm => ?_⟩⟩
    · rw [hshapes]
      refine ⟨?_, ?_, List.isChain_singleton _⟩
      · simp [Frame.shape, Frame.root]
      · simp [Frame.shape, Frame.root]
    · intro f hf
      simp only [rooted, LowerState.build_frames, idle.frames, List.mem_singleton] at hf
      subst hf
      exact ⟨fun _ hl => (by cases hl), fun _ hid => (by cases hid), fun _ hc => (by cases hc)⟩
    · obtain ⟨rest, htrail, code, hcode, hlines⟩ := hd.lines hm
      have hrest : rest = [] := by simpa [LowerState.last, idle.frames, LowerState.Trail] using htrail
      subst hrest
      refine ⟨[], rfl, code, hcode.mono ((Program.Enlarges.refl _).terms_le R id fun l hl => ?_),
        hlines⟩
      exact .inl ((goal_iff_own idle.frames).mp hl)
  | @action d a index u _ settled mem found admits lowered sound settles settled' shapes =>
    have hcoherent : Shape.Coherent t.scopes.shapes := by
      rw [shapes]
      exact hs.coherent.follow admits
    refine ⟨hcoherent, (hs.due settled admits shapes).imp id fun hready => ?_⟩
    obtain ⟨hd, hdue⟩ := hready
    exact lowered.disciplined henv (fun _ _ _ _ => henv.callable _) settles
      (settled_atAction settled index a.id) sound settled' (henv.known_of_mem mem found)
      ⟨_, _, found⟩ admits shapes (disciplined_atAction hd index a.id) hdue
  | closes settled ends =>
    obtain ⟨f, hf, hstate⟩ := ends.state
    obtain ⟨hconstruct, hawaits, hstuck⟩ := not_stuck_of_root settled hf
    have hx : s.scopes.shapes = [f.shape] := by simp [ScopeStack.shapes, hf]
    have hd : s.Disciplined env R := hs.disciplined.resolve_left hstuck
    have hlast : s.last ≠ some .condition := fun hcond => by
      refine hawaits (hs.coherent.top f.shape (by simp [hx]) ?_)
      simpa [LowerState.last, hf, Frame.shape] using hcond
    have hends : s.scopes.endLabels = [] := by
      have hroot := (settled.sound.frames f (by simp [hf])).root hconstruct
      simp [ScopeStack.endLabels, hf, hroot]
    have hmethod : t.method = s.method := by
      rw [hstate]
      rfl
    have hframes : t.scopes.frames = [] := by
      rw [hstate]
      rfl
    have hk : t.Kept env R := hd.kept.adds settled.sound.site ends.adds hmethod
      (by rw [hstate]; rfl) (by rw [hstate]; rfl) (by simp [hframes])
    obtain ⟨trail, htrail, hspoken⟩ := hd.lines settled.sound.method_lt
    refine (rests_of_disciplined ⟨hk, fun _ => ⟨[], ?_, ?_⟩⟩ hframes).held hframes henv.callable
    · simp [LowerState.last, hframes, LowerState.Trail]
    · exact hspoken.adds trail settled.sound ends.adds hmethod (by simp [hends]) (by simp)
        (htrail.spells hlast)

lemma Steps.held (henv : Orderly env R agenda.acts) (h : Steps env agenda s t) (hs : Held env R s) :
    Held env R t := by
  induction h with
  | refl => exact hs
  | tail _ hstep ih => exact hstep.held henv ih

/-! ## What programs keep as they grow -/

section

variable (hfine : ∀ e ∈ env.registry.groups, e.2.Fine R)
include hfine

lemma Lowered.enlarges (h : Lowered env d a s t) : s.program.Enlarges t.program := by
  cases h with
  | statement _ _ _ prepares _ emits _ => exact prepares.adds.enlarges.trans emits.adds.enlarges
  | call _ prepares _ emits _ _ => exact prepares.adds.enlarges.trans emits.adds.enlarges
  | group _ prepares _ calls =>
    obtain ⟨merges, -, -, -, -, speaks, -⟩ := calls
    refine prepares.adds.enlarges.trans (Program.Enlarges.trans ?_ speaks.adds.enlarges)
    cases merges with
    | before known => exact Program.Enlarges.refl _
    | now unknown found merged entries =>
      have hg := hfine _ (mem_of_lookup found)
      exact merged.enlarges hg.tidy hg.unwatched
  | @opener c r s₁ f rest kind opens prepares bound frames block =>
    refine prepares.adds.enlarges.trans ?_
    unfold OpensBlock at block
    dsimp only at block
    split at block
    · exact block.adds.enlarges
    · exact block.adds.enlarges
    · obtain ⟨closed, l, skip, -, chains⟩ := block
      exact chains.works.enlarges
    · obtain ⟨closed, l, skip, -, chains⟩ := block
      exact chains.works.enlarges
    · obtain ⟨result, l, no, -, opens⟩ := block
      exact opens.adds.enlarges
    · obtain ⟨l, -, opens⟩ := block
      exact opens.adds.enlarges
    · obtain ⟨l, opens⟩ := block
      exact opens.adds.enlarges
    · obtain ⟨code, x, again, leave, kept, -, -, -, opens⟩ := block
      exact opens.adds.enlarges
    · exact block.elim
  | closer _ _ _ closes => exact closes.works.enlarges

lemma Step.enlarges (h : Step env agenda s t) : s.program.Enlarges t.program := by
  cases h with
  | turn | previous | opens => exact Program.Enlarges.refl _
  | input _ _ _ reserved => exact Program.enlarges_reserved reserved
  | parameter _ _ declared => exact Program.enlarges_declare declared
  | entry => exact Program.enlarges_entry rfl rfl (by simp)
  | callee _ _ _ declared => exact Program.enlarges_callee declared rfl rfl
  | preamble _ _ emits _ => exact emits.adds.enlarges
  | action _ _ _ _ lowered _ settles _ _ =>
    exact (lowered.enlarges hfine).trans settles.adds.enlarges
  | closes _ ends => exact ends.adds.enlarges

lemma Steps.enlarges (h : Steps env agenda s t) : s.program.Enlarges t.program := by
  induction h with
  | refl => exact Program.Enlarges.refl _
  | tail _ hstep ih => exact ih.trans (hstep.enlarges hfine)

end

/-! ## Whole compiles -/

lemma rests_declared {table : SlotTable} {decls : List VariableDecl} {warnings : Array Warning}
    (h : table.Declares decls) (hidle : (declared table warnings).Idle) :
    Rests env R (declared table warnings) := by
  have hreturns : ∀ slot, ¬ (declared table warnings).program.Returns slot := by
    rintro slot ⟨m, hm, -⟩
    simp [declared] at hm
  refine ⟨⟨fun slot hslot => absurd hslot (hreturns slot), fun id hid x hx => ?_,
    fun id hid sh hsh => ⟨(h.sound.shadow id hid sh hsh).1, hreturns sh⟩, fun id hid hthis => ?_⟩,
    fun k hk => ?_, ?_, ?_⟩
  · obtain ⟨l, -, hl | hl⟩ := hidle.site.address id hid x hx
    · simp [declared, LowerState.site, Program.placed] at hl
    · simp [declared, LowerState.site, Site.promised, Program.endLabels, ScopeStack.endLabels] at hl
  · have hno := h.isThis _ (List.mem_of_getElem? (SlotTable.slots_getElem? hid))
    exact absurd (hthis.symm.trans hno) (by simp)
  · exact absurd hk (Nat.not_lt_zero k)
  · simp [declared]
  · simp [declared]

/-- A compile without errors ends with all methods in phrases. -/
lemma Course.rests {table : SlotTable} {decls : List VariableDecl} {warnings : Array Warning}
    (henv : Orderly env R agenda.acts) (h : table.Declares decls) (hidle : (declared table warnings).Idle)
    (hcourse : Course env agenda (declared table warnings) s) (hs : s.Idle) (herrors : s.errors = #[]) :
    Rests env R s :=
  ((hcourse.steps herrors).2.held henv ((rests_declared h hidle).held rfl henv.callable)).rests
    hs.frames

end Lower

variable {env : Environment} {R : Rules} {g : ActionGroup} {t : Trigger}

/-- The program has the slots of the declarations, and no slot that it has besides is watched. -/
def Program.Declares (p : Program) (decls : List VariableDecl) : Prop :=
  ∃ table : SlotTable, table.Declares decls ∧ ({ slots := table } : Program).Enlarges p

/-- The variables of a group are not watched, and nothing else ever is. -/
lemma Program.Declares.unwatched (h : p.Declares (Lower.groupVariables g)) : p.Unwatched := by
  obtain ⟨table, h, hp⟩ := h
  intro id hid
  by_cases hlt : id < table.size
  · rw [hp.slots.get_eq hlt]
    by_contra hsh
    obtain ⟨v, hv, hnotifies, -⟩ :=
      h.shadows _ (List.mem_of_getElem? (SlotTable.slots_getElem? hlt)) hsh
    obtain ⟨w, -, rfl⟩ := List.mem_map.mp hv
    cases hnotifies
  · exact hp.shadow id (Nat.le_of_not_lt hlt) hid

/-- A compiled group is in phrases. -/
lemma compileGroup_fine (henv : Lower.Orderly env R g.Has) (hg : g.NoAddress) {c : CompiledGroup}
    {notes : List Note} (h : compileGroup env g = .ok (c, notes)) : c.Fine R := by
  obtain ⟨entries, s, hrun, hnone, rfl⟩ := compileGroup_eq_ok h
  obtain ⟨hidle, table, warnings, hdeclares, hstart, hcourse, hentries⟩ :=
    (Lower.assembleGroup_ensures henv.sound hg).ok hrun
  have hrests := hcourse.rests henv hdeclares hstart hidle hnone
  have hunwatched : s.program.Unwatched :=
    Program.Declares.unwatched ⟨table, hdeclares, (hcourse.steps hnone).2.enlarges henv.fine⟩
  have henlisted : s.program.Enlisted env g.agenda :=
    (hcourse.steps hnone).2.enlisted (fun e he => (henv.fine e he).internal)
      (by simp [Program.Enlisted, Program.roster, Lower.declared])
  have hinternal : s.program.Internal := fun x hx =>
    (henlisted x hx).elim (fun hadds => hadds.1) fun hmerged => hmerged.1
  refine ⟨hrests.tidy, hunwatched, hinternal, hrests.spelled, fun e he => ?_⟩
  obtain ⟨u, hu, hbefore, hafter⟩ := hentries e he
  have hunone := (hafter.steps hnone).1
  have hurests := hbefore.rests henv hdeclares hstart hu.idle hunone
  have henlarges := (hafter.steps hnone).2.enlarges henv.fine
  refine ⟨hu.calleeAfter hafter hnone, fun x hx => ?_, fun x hx => ?_⟩
  · obtain ⟨hclean, hwritable⟩ := hurests.tidy.of_hasKind hu.idle.site.table
      (hu.idle.locals _ (hu.parameters x hx))
    have hclean' := hclean.enlarge henlarges
    refine ⟨⟨hclean', hwritable.enlarge hclean.lt henlarges, .inr (hunwatched _ hclean'.lt)⟩, ?_⟩
    change (s.program.slots.get x.2).isSynced = false
    rw [henlarges.slots.get_eq hclean.lt]
    exact hu.unsynced x hx
  · exact (hurests.inputs x (hu.eventSlots x hx)).enlarge henlarges

/-- A compiled trigger is linked from what was assembled, which is a program in phrases. -/
lemma compileTrigger_assembled (henv : Lower.Orderly env R t.Has) (ht : t.NoAddress)
    {c : CompiledTrigger} (h : compileTrigger env t = .ok c) :
    ∃ s, Lower.assembleTrigger env t {} = .ok ⟨⟩ s ∧ s.errors = #[] ∧ s.program.Orderly R ∧
      s.program.Declares t.declarations ∧ (⟨s.program, [], []⟩ : Site).Sound ∧
      s.program.Links env.options c.program := by
  obtain ⟨s, hrun, hnone, hlink⟩ := compileTrigger_eq_ok h
  obtain ⟨hidle, table, warnings, hdeclares, hstart, hcourse⟩ :=
    (Lower.assembleTrigger_ensures henv.sound ht).ok hrun
  have hrests := hcourse.rests henv hdeclares hstart hidle hnone
  exact ⟨s, hrun, hnone, ⟨hrests.tidy, hrests.spelled⟩,
    ⟨table, hdeclares, (hcourse.steps hnone).2.enlarges henv.fine⟩, hidle.site_empty,
    hidle.site_empty.links hlink⟩

/-- A compiled trigger is linked from a program in phrases. -/
lemma compileTrigger_orderly (henv : Lower.Orderly env R t.Has) (ht : t.NoAddress)
    {c : CompiledTrigger} (h : compileTrigger env t = .ok c) :
    ∃ p : Program, p.Orderly R ∧ p.Declares t.declarations ∧ (⟨p, [], []⟩ : Site).Sound ∧
      p.Links env.options c.program := by
  obtain ⟨s, -, -, hs⟩ := compileTrigger_assembled henv ht h
  exact ⟨s.program, hs⟩

end TriggerCompiler
