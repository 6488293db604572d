import Mathlib
import TriggerCompiler.Proofs.Merging
import TriggerCompiler.Proofs.Statements

/-!
# Calls of group actions

A program that a group was merged into is as sound as it was, because the merged copy refers to
nothing but itself. So a call of a group's action can be lowered in the middle of a body: the group is
merged, and the call is emitted.
-/

namespace TriggerCompiler

variable {host sub host' : Program} {r : Renaming} {E : CompileError → LowerState → Prop}
  {env : Environment}

/-! ## Merged programs -/

/-- The slot table after a merge. -/
lemma Program.Merged.table_sound (h : Merged host sub r host') (hhost : host.slots.Sound)
    (hsub : sub.slots.Sound) : host'.slots.Sound := by
  have howns : host.slots.Owns := fun id hid => (hhost.this id).mp hid
  have hwithin := h.slots.within
  -- a slot is one of the program's own, a copy, or a new slot of the running object
  have hcases : ∀ id < host'.slots.size,
      (id < host.slots.size ∧ host'.slots.get id = host.slots.get id) ∨
      (∃ k < sub.slots.size, (sub.slots.get k).isThis = false ∧
        host'.slots.get id = r.copy (sub.slots.get k)) ∨
      (host'.slots.this = some id ∧
        ∃ name, host'.slots.get id =
          { name, type := .gameObject, kind := .reserved, isThis := true }) := by
    intro id hid
    by_cases hlt : id < host.slots.size
    · exact .inl ⟨hlt, hwithin.get_eq hlt⟩
    · rcases h.slots.new id (Nat.le_of_not_lt hlt) hid with ⟨k, x, hx, hno, rfl⟩ | ⟨hnone, hsome⟩
      · obtain ⟨hk, rfl⟩ := SlotTable.get_of_getElem? hx
        exact .inr (.inl ⟨k, hk, hno, (h.slots.fresh k _ hx hno).2.2⟩)
      · exact .inr (.inr ⟨hsome, (h.slots.this_new id hnone hsome).2.2⟩)
  refine ⟨fun e he => ?_, fun e he => ?_, fun e he => ?_, fun id => ⟨h.slots.owns howns id, ?_⟩, ?_,
    ?_, ?_⟩
  · obtain ⟨hlt, hkind⟩ := hhost.user e (hwithin.userIds ▸ he)
    rw [hwithin.get_eq hlt]
    exact ⟨hlt.trans_le hwithin.size_le, hkind⟩
  · obtain ⟨hlt, hrest⟩ := hhost.constant e (h.slots.constants ▸ he)
    rw [hwithin.get_eq hlt]
    exact ⟨hlt.trans_le hwithin.size_le, hrest⟩
  · obtain ⟨hlt, hrest⟩ := hhost.free e (h.slots.free ▸ he)
    rw [hwithin.get_eq hlt]
    exact ⟨hlt.trans_le hwithin.size_le, hrest⟩
  · rintro ⟨hid, hthis⟩
    rcases hcases id hid with ⟨hlt, hget⟩ | ⟨k, -, hno, hget⟩ | ⟨hsome, -⟩
    · rw [hget] at hthis
      exact h.slots.this_keeps id ((hhost.this id).mpr ⟨hlt, hthis⟩)
    · rw [hget] at hthis
      exact absurd (hno.symm.trans hthis) (by decide)
    · exact hsome
  · intro id hid hthis
    rcases hcases id hid with ⟨hlt, hget⟩ | ⟨k, -, hno, hget⟩ | ⟨-, name, hget⟩
    · rw [hget] at hthis ⊢
      exact hhost.this_kind id hlt hthis
    · rw [hget] at hthis
      exact absurd (hno.symm.trans hthis) (by decide)
    · rw [hget]
  · intro id hid hkind
    rcases hcases id hid with ⟨hlt, hget⟩ | ⟨k, hk, hno, hget⟩ | ⟨-, name, hget⟩
    · rw [hget] at hkind ⊢
      exact hhost.plain id hlt hkind
    · rw [hget] at hkind ⊢
      obtain ⟨hnotifies, hshadow, hsync⟩ := hsub.plain k hk hkind
      exact ⟨hnotifies, congrArg (Option.map r.slot) hshadow, hsync⟩
    · rw [hget]
      exact ⟨rfl, rfl, rfl⟩
  · intro id hid sh hsh
    rcases hcases id hid with ⟨hlt, hget⟩ | ⟨k, hk, hno, hget⟩ | ⟨-, name, hget⟩
    · rw [hget] at hsh
      obtain ⟨hlt', hrest⟩ := hhost.shadow id hlt sh hsh
      rw [hwithin.get_eq hlt']
      exact ⟨hlt'.trans_le hwithin.size_le, hrest⟩
    · rw [hget] at hsh
      obtain ⟨sh', hsh', rfl⟩ := Option.map_eq_some_iff.mp hsh
      obtain ⟨hlt', hkind', hthis'⟩ := hsub.shadow k hk sh' hsh'
      obtain ⟨-, hlt, hget'⟩ := h.slots.fresh sh' _ (SlotTable.slots_getElem? hlt') hthis'
      rw [hget']
      exact ⟨hlt, hkind', hthis'⟩
    · rw [hget] at hsh
      cases hsh

namespace Site

variable {a : Site}

/-- A merge keeps what a site has. -/
lemma grows_merged (h : a.program.Merged sub r host') : a.Grows { a with program := host' } where
  slots := h.slots.within
  target t ht := by
    refine ht.imp (fun ht => ?_) fun ht => ?_
    · rw [h.placed]
      exact List.mem_append_left _ ht
    · unfold promised
      rw [h.endLabels]
      rcases List.mem_append.mp ht with ht | ht
      · exact List.mem_append_left _ (List.mem_append_left _ ht)
      · exact List.mem_append_right _ ht
  names name hn := by
    rw [h.names_eq]
    exact List.mem_append_left _ hn

/-- What the copied program refers to, the copy has. -/
lemma target_merged (h : a.program.Merged sub r host') {l : InstrId}
    (hl : (⟨sub, [], []⟩ : Site).Target l) :
    (⟨host', a.labels, a.temps⟩ : Site).Target (r.instrId l) := by
  refine hl.imp (fun hl => ?_) fun hl => ?_
  · rw [h.placed]
    exact List.mem_append_right _ (List.mem_map_of_mem hl)
  · unfold promised at hl ⊢
    rw [List.append_nil] at hl
    rw [h.endLabels]
    exact List.mem_append_left _ (List.mem_append_right _ (List.mem_map_of_mem hl))

/-- A sound program merged into a sound site gives a sound site. -/
lemma Sound.merged (ha : a.Sound) (hsub : (⟨sub, [], []⟩ : Site).Sound)
    (h : a.program.Merged sub r host') : (⟨host', a.labels, a.temps⟩ : Site).Sound := by
  have howns : a.program.slots.Owns := fun id hid => (ha.table.this id).mp hid
  have hgrows := grows_merged h
  have hshift : ∀ k, a.program.instrs.size ≤ r.instrId k := fun k => by
    unfold Renaming.instrId
    rw [h.offset]
    exact Nat.le_add_left _ _
  have hlt : ∀ k < sub.instrs.size, r.instrId k < host'.instrs.size := fun k hk => by
    unfold Renaming.instrId
    rw [h.offset, h.size_instrs, Nat.add_comm]
    exact Nat.add_lt_add_left hk _
  have hperm : (⟨host', a.labels, a.temps⟩ : Site).promised.Perm
      (sub.endLabels.map r.instrId ++ a.promised) := by
    unfold promised
    rw [h.endLabels, ← List.append_assoc]
    exact List.perm_append_comm.append_right _
  have hends : ∀ l ∈ sub.endLabels, l < sub.instrs.size ∧ sub.instr l = .nop ∧ l ∉ sub.placed :=
    fun l hl => hsub.waiting l (List.mem_append_left _ hl)
  refine ha.extend (sub.placed.map r.instrId) hgrows (h.table_sound ha.table hsub.table) ?_
    (h.size_instrs ▸ Nat.le_add_right _ _) (fun id hid => h.instr_host hid) ?_ ?_ ?_ ?_ ?_ ?_ ?_
    h.linked
  · refine ⟨?_, fun id hid => ?_⟩
    · rw [h.slots.free]
      exact ha.pool.nodup
    · obtain ⟨hid', hkind⟩ := ha.pool.used id hid
      rw [h.slots.within.get_eq hid']
      exact ⟨hid'.trans_le h.slots.within.size_le, hkind⟩
  · rw [h.placed]
    exact List.perm_append_comm
  · exact hsub.placed_nodup.map r.instrId_injective
  · intro id hid
    obtain ⟨k, hk, rfl⟩ := List.mem_map.mp hid
    obtain ⟨operands, target, call⟩ := hsub.accepts k hk
    refine ⟨hlt k (hsub.placed_lt k hk), fun hmem => ?_, ?_⟩
    · exact absurd (ha.placed_lt _ hmem) (Nat.not_lt.mpr (hshift k))
    · have hinstr : (⟨host', a.labels, a.temps⟩ : Site).program.instr (r.instrId k) =
          r.instr (sub.instr k) := h.instr_sub k
      rw [hinstr]
      refine ⟨fun slot hslot => ?_, fun t ht => ?_, fun name hname => ?_⟩
      · rw [r.operands_instr] at hslot
        obtain ⟨slot', hslot', rfl⟩ := List.mem_map.mp hslot
        exact h.slot_lt howns (operands slot' hslot')
      · rw [r.labelTarget_instr] at ht
        obtain ⟨t', ht', rfl⟩ := Option.map_eq_some_iff.mp ht
        exact target_merged h (target t' ht')
      · obtain ⟨name', hname', rfl⟩ := r.instr_eq_jumpMethod hname
        exact h.method_mem (call name' hname')
  · have hnodup : (sub.endLabels.map r.instrId).Nodup := by
      have hpromised := hsub.promised_nodup
      unfold promised at hpromised
      rw [List.append_nil] at hpromised
      exact hpromised.map r.instrId_injective
    refine hperm.nodup_iff.mpr (List.nodup_append'.mpr ⟨hnodup, ha.promised_nodup, ?_⟩)
    intro l hl hl'
    obtain ⟨k, -, rfl⟩ := List.mem_map.mp hl
    exact absurd (ha.waiting _ hl').1 (Nat.not_lt.mpr (hshift k))
  · intro l hl
    rcases List.mem_append.mp (hperm.mem_iff.mp hl) with hl | hl
    · obtain ⟨k, hk, rfl⟩ := List.mem_map.mp hl
      obtain ⟨hk', hnop, hplaced⟩ := hends k hk
      refine ⟨fun hmem => ?_, .inr ⟨hshift k, hlt k hk', ?_⟩⟩
      · obtain ⟨k', hk', heq⟩ := List.mem_map.mp hmem
        exact hplaced (r.instrId_injective heq ▸ hk')
      · exact (h.instr_sub k).trans (by rw [hnop]; rfl)
    · refine ⟨fun hmem => ?_, .inl hl⟩
      obtain ⟨k, -, rfl⟩ := List.mem_map.mp hmem
      exact absurd (ha.waiting _ hl).1 (Nat.not_lt.mpr (hshift k))
  · intro x hx slot hslot
    rw [h.methods, Array.toList_append, List.mem_append] at hx
    rcases hx with hx | hx
    · exact (ha.epilogue x hx slot hslot).trans_le h.slots.within.size_le
    · rw [Array.toList_map] at hx
      obtain ⟨y, hy, rfl⟩ := List.mem_map.mp hx
      obtain ⟨slot', hslot', rfl⟩ := r.epilogue_eq_indirect hslot
      exact h.slot_lt howns (hsub.epilogue y hy slot' hslot')
  · intro id hid hge x hx
    rcases h.slots.new id hge hid with ⟨k, y, hy, hno, rfl⟩ | ⟨hnone, hsome⟩
    · obtain ⟨hk, rfl⟩ := SlotTable.get_of_getElem? hy
      rw [show (⟨host', a.labels, a.temps⟩ : Site).program.slots.get (r.slot k) = _ from
        (h.slots.fresh k _ hy hno).2.2] at hx
      obtain ⟨v, hv, hvalue⟩ := Option.map_eq_some_iff.mp hx
      obtain ⟨l, rfl, rfl⟩ | ⟨name, rfl, rfl⟩ := Renaming.value_eq_address hvalue
      · obtain ⟨l', hl', htarget⟩ := hsub.address k hk _ hv
        cases hl'
        exact ⟨_, rfl, target_merged h htarget⟩
      · obtain ⟨l', hl', -⟩ := hsub.address k hk _ hv
        cases hl'
    · obtain ⟨-, -, name, hname⟩ := h.slots.this_new id hnone hsome
      rw [show (⟨host', a.labels, a.temps⟩ : Site).program.slots.get id = _ from hname] at hx
      cases hx

end Site

/-! ## Sound groups -/

/-- The names and slots of an entry are those of the group's program. -/
structure GroupEntry.Sound (e : GroupEntry) (p : Program) : Prop where
  method : e.method ∈ p.names
  parameters : ∀ x ∈ e.parameters, x.2 < p.slots.size
  returnSlot : e.returnSlot < p.slots.size
  eventSlots : ∀ x ∈ e.eventSlots, x.2 < p.slots.size

/-- A compiled group whose program has all that it refers to. -/
structure CompiledGroup.Sound (g : CompiledGroup) : Prop where
  program : (⟨g.program, [], []⟩ : Site).Sound
  entries : ∀ e ∈ g.entries, e.Sound g.program

lemma GroupEntry.Sound.merged {e : GroupEntry} (he : e.Sound sub)
    (h : Program.Merged host sub r host') (howns : host.slots.Owns) : (r.entry e).Sound host' where
  method := by
    rw [h.names_eq]
    exact List.mem_append_right _ (List.mem_map_of_mem he.method)
  parameters x hx := by
    obtain ⟨y, hy, rfl⟩ := List.mem_map.mp hx
    exact h.slot_lt howns (he.parameters y hy)
  returnSlot := h.slot_lt howns he.returnSlot
  eventSlots x hx := by
    obtain ⟨y, hy, rfl⟩ := List.mem_map.mp hx
    exact h.slot_lt howns (he.eventSlots y hy)

lemma Frame.Sound.merged {f : Frame} (hf : f.Sound host) (h : Program.Merged host sub r host') :
    f.Sound host' := by
  have hjump : ∀ id, host.IsJump id → host'.IsJump id := fun id hid => by
    obtain ⟨l, hl⟩ := hid
    exact ⟨l, (h.instr_host (Program.IsJump.lt ⟨l, hl⟩)).trans hl⟩
  exact
    { hf with
      result := fun r hr => (hf.result r hr).trans_le h.slots.within.size_le
      start_placed := fun l hl => h.placed ▸ List.mem_append_left _ (hf.start_placed l hl)
      chain := fun id hid => hjump id (hf.chain id hid)
      closed_chain := fun c hc id hid => hjump id (hf.closed_chain c hc id hid) }

namespace Lower

variable {α : Type} {s t u : LowerState}

/-! ## States in which groups were merged -/

/-- From one state to the other code was emitted and maybe groups were merged; blocks, locals and
placeholders are as they were. -/
structure Expands (s t : LowerState) : Prop where
  sound : t.Sound
  grows : s.site.Grows t.site
  methods_le : s.program.methods.size ≤ t.program.methods.size
  state : ∃ p warnings merges mergeCount, t = { s with program := p, warnings, merges, mergeCount }

namespace Expands

lemma refl (hs : s.Sound) : Expands s s := ⟨hs, Site.Grows.refl _, le_rfl, _, _, _, _, rfl⟩

lemma trans (h : Expands s t) (h' : Expands t u) : Expands s u := by
  refine ⟨h'.sound, h.grows.trans h'.grows, h.methods_le.trans h'.methods_le, ?_⟩
  obtain ⟨p, warnings, merges, mergeCount, rfl⟩ := h.state
  obtain ⟨p', warnings', merges', mergeCount', rfl⟩ := h'.state
  exact ⟨_, _, _, _, rfl⟩

lemma scopes (h : Expands s t) : t.scopes = s.scopes := by
  obtain ⟨p, warnings, merges, mergeCount, rfl⟩ := h.state
  rfl

lemma errors (h : Expands s t) : t.errors = s.errors := by
  obtain ⟨p, warnings, merges, mergeCount, rfl⟩ := h.state
  rfl

lemma slots_lt (h : Expands s t) {ids : List SlotId}
    (hids : ∀ id ∈ ids, id < s.program.slots.size) : ∀ id ∈ ids, id < t.program.slots.size :=
  fun id hid => (hids id hid).trans_le h.grows.slots.size_le

end Expands

/-- Code was emitted, and maybe warnings were given. -/
structure Speaks (s : LowerState) (code : List Line) (t : LowerState) : Prop where
  state : ∃ p warnings, t = { s with program := p, warnings }
  adds : s.site.Adds s.method code t.site

namespace Speaks

variable {code code' : List Line}

lemma refl (hs : s.Sound) : Speaks s [] s := ⟨⟨_, _, rfl⟩, Site.Adds.refl hs.site⟩

section

variable (h : Speaks s code t)
include h

lemma method : t.method = s.method := by
  obtain ⟨p, warnings, rfl⟩ := h.state
  rfl

lemma temps : t.site.temps = s.site.temps := by
  obtain ⟨p, warnings, rfl⟩ := h.state
  rfl

lemma eventInputs : t.eventInputs = s.eventInputs := by
  obtain ⟨p, warnings, rfl⟩ := h.state
  rfl

lemma setting : s.setting.Within t.setting := by
  have hwithin := h.adds.setting
  rw [← h.method] at hwithin
  obtain ⟨p, warnings, rfl⟩ := h.state
  exact hwithin

lemma trans (h' : Speaks t code' u) (hs : s.Sound) : Speaks s (code ++ code') u := by
  refine ⟨?_, h.adds.trans (h.method ▸ h'.adds) hs.method_lt⟩
  obtain ⟨p, warnings, rfl⟩ := h.state
  obtain ⟨p', warnings', rfl⟩ := h'.state
  exact ⟨_, _, rfl⟩

lemma sound (hs : s.Sound) : t.Sound := by
  have hworks := h.adds.toWorks
  obtain ⟨p, warnings, rfl⟩ := h.state
  exact hs.of_works hworks rfl (fun f hf => hs.frame_works hworks hf) (fun e he => .inl he) rfl rfl

lemma expands (hs : s.Sound) : Expands s t := by
  refine ⟨h.sound hs, h.adds.grows, h.adds.methods.ge, ?_⟩
  obtain ⟨p, warnings, rfl⟩ := h.state
  exact ⟨_, _, _, _, rfl⟩

end

/-- Emitting code. -/
lemma of_yields {x : Lower α} {P : α → List Line → Site → Prop} (h : Yields s s.site x P)
    (hP : ∀ r code b, P r code b → s.site.Keeps b) :
    Ensures s x (fun r t => ∃ code, Speaks s code t ∧ P r code t.site) E := by
  obtain ⟨r, code, b, hrun, hemits, hsite, hcode⟩ := h.emits hP
  exact Ensures.of_ok hrun ⟨code, ⟨⟨_, _, rfl⟩, hemits.adds⟩, hsite.symm ▸ hcode⟩

/-- A sequence of computations that each emit code. -/
lemma forM {ι : Type} {f : ι → Lower PUnit} {l : List ι} {R : Setting → ι → List Line → Prop}
    (hR : ∀ e e' i code, e.Within e' → R e i code → R e' i code) (hs : s.Sound)
    (hf : ∀ i ∈ l, ∀ t code, Speaks s code t → t.Sound →
      Ensures t (f i) (fun _ u => ∃ code, Speaks t code u ∧ R u.setting i code) E) :
    Ensures s (l.forM f)
      (fun _ t => ∃ codes, Speaks s codes.flatten t ∧ List.Forall₂ (R t.setting) l codes) E := by
  induction l generalizing s with
  | nil => exact Ensures.of_ok rfl ⟨[], refl hs, .nil⟩
  | cons i l ih =>
    refine Ensures.bind (hf i List.mem_cons_self s [] (refl hs) hs) ?_
    rintro ⟨⟩ t - ⟨code, ht, hcode⟩
    refine (ih (ht.sound hs) fun j hj u c hu hsu => ?_).mono ?_ fun _ _ he => he
    · exact hf j (List.mem_cons_of_mem _ hj) u _ (ht.trans hu hs) hsu
    · rintro ⟨⟩ u ⟨codes, hu, hcodes⟩
      exact ⟨code :: codes, ht.trans hu hs, .cons (hR _ _ _ _ hu.setting hcode) hcodes⟩

end Speaks

/-! ## Calls of groups -/

/-- The groups that may be merged are sound. -/
def SoundGroups (r : Registry) : Prop := ∀ e ∈ r.groups, e.2.Sound

/-- Why a group's action cannot be called. -/
def IsGroupError (e : CompileError) : Prop :=
  (∃ id group, e.kind = .unknownAction id group) ∨ ∃ name, e.kind = .nameCollision name

/-- What a state becomes by the merge of a group: it stays as it is if the group was merged
before. -/
inductive Merges (env : Environment) (s : LowerState) (guid : String) (table : MergeTable) :
    LowerState → Prop where
  | before (known : s.merges.lookup guid = some table) : Merges env s guid table s
  | now {group : CompiledGroup} {r : Renaming} {host : Program}
      (unknown : s.merges.lookup guid = none) (found : env.registry.group? guid = some group)
      (merged : s.program.Merged group.program r host)
      (entries : table.entries = group.entries.map r.entry)
      (methods : table.methods = group.program.names.map fun name => (name, r.namePrefix ++ name))
      (renamed : r.namePrefix = env.options.groupPrefix ++ toString s.mergeCount ++ "_") :
      Merges env s guid table
        { s with program := host, merges := (guid, table) :: s.merges,
                 mergeCount := s.mergeCount + 1 }

lemma mergedGroup_ensures (hs : s.Sound) (henv : SoundGroups env.registry) (guid action : String) :
    Ensures s (mergedGroup env guid action)
      (fun table t => Expands s t ∧ Merges env s guid table t ∧
        ∀ x ∈ table.entries, x.Sound t.program)
      fun e t => IsGroupError e ∧ t.errors = s.errors := by
  unfold mergedGroup
  refine Ensures.step (get_apply s) ?_
  cases hmerged : s.merges.lookup guid with
  | some table =>
    exact Ensures.of_ok rfl
      ⟨Expands.refl hs, .before hmerged, hs.merges _ (mem_of_lookup hmerged)⟩
  | none =>
    cases hgroup : env.registry.group? guid with
    | none => exact Ensures.of_error rfl ⟨.inl ⟨_, _, rfl⟩, rfl⟩
    | some group =>
      have hsound : group.Sound := henv _ (mem_of_lookup hgroup)
      set namePrefix := env.options.groupPrefix ++ toString s.mergeCount ++ "_" with hprefix
      rcases hmerge : s.program.merge group namePrefix with ⟨outcome, host'⟩
      have hrun : onProgram (·.merge group namePrefix)
          { s with mergeCount := s.mergeCount + 1 } =
          .ok outcome { s with program := host', mergeCount := s.mergeCount + 1 } := by
        unfold onProgram
        rw [modifyGet_apply]
        simp only [hmerge]
      refine Ensures.step (modify_apply _ s) (Ensures.step hrun ?_)
      cases outcome with
      | error kind =>
        obtain ⟨name, rfl⟩ := Program.merge_error hmerge
        exact Ensures.of_error rfl ⟨.inr ⟨name, rfl⟩, rfl⟩
      | ok table =>
        have howns : s.program.slots.Owns := fun id hid => (hs.site.table.this id).mp hid
        obtain ⟨r, hrenamed, hcopy, hentries, hnamed⟩ := Program.merge_merged howns hmerge
        have hmerged' : s.site.program.Merged group.program r host' := hcopy
        have hnew : ∀ x ∈ table.entries, x.Sound host' := by
          intro x hx
          rw [hentries] at hx
          obtain ⟨e, he, rfl⟩ := List.mem_map.mp hx
          exact (hsound.entries e he).merged hcopy howns
        have hgrows := Site.grows_merged hmerged'
        have hsize := hgrows.slots.size_le
        have hmethods : s.program.methods.size ≤ host'.methods.size := by
          rw [hcopy.methods, Array.size_append]
          exact Nat.le_add_right _ _
        refine Ensures.of_ok rfl
          ⟨⟨⟨?_, ?_, ?_, ?_, ?_, ?_⟩, hgrows, hmethods, _, _, _, _, rfl⟩,
            .now hmerged hgroup hcopy hentries hnamed hrenamed, hnew⟩
        · exact hs.site.merged hsound.program hmerged'
        · exact hs.method_lt.trans_le hmethods
        · exact fun f hf => (hs.frames f hf).merged hcopy
        · exact fun e he => (hs.locals e he).within hgrows.slots
        · exact fun e he => (hs.inputs e he).within hgrows.slots
        · intro e he x hx
          rcases List.mem_cons.mp he with rfl | he
          · exact hnew x hx
          · exact (hs.merges e he x hx).grows hgrows

/-- The lines that pass an argument. -/
def passLines (x : (Parameter × SlotId) × SlotId) : List Line :=
  if x.1.1.direction.reads then copyLines x.2 x.1.2 else []

/-- The lines that pass an event input, if the event has it. -/
def inputLines (inputs : List (String × SlotId)) (x : String × SlotId) : List Line :=
  match inputs.lookup x.1 with
  | some source => copyLines source x.2
  | none => []

/-- The lines that take back what a parameter holds after the call. -/
def BackLines (temps : List SlotId) (e : Setting) (x : (Parameter × SlotId) × SlotId)
    (code : List Line) : Prop :=
  if x.1.1.direction.writes then
    x.2 < e.slots.size ∧ ∃ write, WriteLines e temps x.2 write ∧ code = copyLines x.1.2 x.2 ++ write
  else code = []

lemma BackLines.within {temps : List SlotId} {e e' : Setting} {x : (Parameter × SlotId) × SlotId}
    {code : List Line} (hw : e.Within e') (h : BackLines temps e x code) :
    BackLines temps e' x code := by
  unfold BackLines at h ⊢
  split_ifs at h ⊢
  · obtain ⟨hlt, write, hwrite, rfl⟩ := h
    exact ⟨hlt.trans_le hw.slots.size_le, write, hwrite.within hw hlt, rfl⟩
  · exact h

/-- The lines of a call of a group's action. -/
def GroupLines (e : Setting) (temps : List SlotId) (inputs : List (String × SlotId))
    (entry : MergedEntry) (arguments : List SlotId) (code : List Line) : Prop :=
  ∃ call back, MethodLines e.slots entry.method entry.returnSlot call ∧
    List.Forall₂ (BackLines temps e) (entry.parameters.zip arguments) back ∧
    code = (entry.parameters.zip arguments).flatMap passLines ++
      entry.eventSlots.flatMap (inputLines inputs) ++ call ++ back.flatten

/-- A call of a group's action: the group is merged, and then the call is emitted. -/
inductive CallsGroup (env : Environment) (guid action : String) (r : BoundAction)
    (s t : LowerState) : Prop where
  | intro {table : MergeTable} {entry : MergedEntry} {u : LowerState} {code : List Line}
      (merges : Merges env s guid table u) (sound : u.Sound) (expands : Expands s u)
      (found : table.entry? action = some entry) (entrySound : entry.Sound u.program)
      (speaks : Speaks u code t)
      (lines : GroupLines t.setting u.site.temps u.eventInputs entry r.inputs code)

lemma CallsGroup.expands {guid action : String} {r : BoundAction}
    (h : CallsGroup env guid action r s t) : Expands s t := by
  obtain ⟨-, hsound, hexpands, -, -, hspeaks, -⟩ := h
  exact hexpands.trans (hspeaks.expands hsound)

lemma mergedEntry_ensures (hs : s.Sound) (henv : SoundGroups env.registry) (guid action : String) :
    Ensures s (mergedEntry env guid action)
      (fun entry t => Expands s t ∧ entry.Sound t.program ∧
        ∃ table, Merges env s guid table t ∧ table.entry? action = some entry)
      fun e t => IsGroupError e ∧ t.errors = s.errors := by
  refine Ensures.bind (mergedGroup_ensures hs henv guid action) ?_
  rintro table t - ⟨ht, hmerges, hentries⟩
  cases hentry : table.entry? action with
  | none => exact Ensures.of_error rfl ⟨.inl ⟨_, _, rfl⟩, ht.errors⟩
  | some entry =>
    exact Ensures.of_ok rfl
      ⟨ht, hentries entry (List.mem_of_find?_eq_some hentry), table, hmerges, hentry⟩

lemma flatten_of_forall₂ {ι α : Type} {f : ι → List α} {l : List ι} {codes : List (List α)}
    (h : List.Forall₂ (fun i code => code = f i) l codes) : codes.flatten = l.flatMap f := by
  induction h with
  | nil => rfl
  | cons hcode _ ih => rw [List.flatten_cons, ih, hcode, List.flatMap_cons]

lemma passArguments_ensures {arguments : List ((Parameter × SlotId) × SlotId)} (hs : s.Sound)
    (hargs : ∀ x ∈ arguments, x.1.2 < s.program.slots.size ∧ x.2 < s.program.slots.size) :
    Ensures s (arguments.forM fun ((p, slot), argument) =>
        if p.direction.reads then copy argument slot else pure ())
      (fun _ t => Speaks s (arguments.flatMap passLines) t) E := by
  refine (Speaks.forM (R := fun _ x code => code = passLines x) (fun _ _ _ _ _ h => h) hs
    fun x hx t code ht hsound => ?_).mono ?_ fun _ _ he => he
  · have hslots := hargs x hx
    have hle := ht.adds.grows.slots.size_le
    unfold passLines
    dsimp only
    split_ifs
    · exact (Speaks.of_yields (copy_yields hsound.ready (hslots.2.trans_le hle)
        (hslots.1.trans_le hle)) fun _ _ _ h => h.2).mono
        (fun _ _ ⟨code, hspeaks, hcode, _⟩ => ⟨code, hspeaks, hcode⟩) fun _ _ he => he
    · exact Ensures.of_ok rfl ⟨[], Speaks.refl hsound, rfl⟩
  · rintro ⟨⟩ t ⟨codes, hspeaks, hcodes⟩
    rw [flatten_of_forall₂ hcodes] at hspeaks
    exact hspeaks

lemma passInputs_ensures {action : String} {slots : List (String × SlotId)} (hs : s.Sound)
    (hslots : ∀ x ∈ slots, x.2 < s.program.slots.size) :
    Ensures s (slots.forM fun (input, slot) => do
        match (← get).eventInputs.lookup input with
        | some source => copy source slot
        | none =>
          warn ("'" ++ action ++ "' reads event input '" ++ input
            ++ "', which this event does not provide"))
      (fun _ t => Speaks s (slots.flatMap (inputLines s.eventInputs)) t) E := by
  refine (Speaks.forM (R := fun _ x code => code = inputLines s.eventInputs x)
    (fun _ _ _ _ _ h => h) hs fun x hx t code ht hsound => ?_).mono ?_ fun _ _ he => he
  · have hslot := (hslots x hx).trans_le ht.adds.grows.slots.size_le
    refine Ensures.step (get_apply t) ?_
    unfold inputLines
    rw [← ht.eventInputs]
    cases hinput : t.eventInputs.lookup x.1 with
    | some source =>
      exact (Speaks.of_yields (copy_yields hsound.ready
        (hsound.inputs _ (mem_of_lookup hinput)).1 hslot) fun _ _ _ h => h.2).mono
        (fun _ _ ⟨code, hspeaks, hcode, _⟩ => ⟨code, hspeaks, hcode⟩) fun _ _ he => he
    | none => exact Ensures.of_ok rfl ⟨[], ⟨⟨_, _, rfl⟩, Site.Adds.refl hsound.site⟩, rfl⟩
  · rintro ⟨⟩ t ⟨codes, hspeaks, hcodes⟩
    rw [flatten_of_forall₂ hcodes] at hspeaks
    exact hspeaks

lemma takeBack_ensures {arguments : List ((Parameter × SlotId) × SlotId)} (hs : s.Sound)
    (hargs : ∀ x ∈ arguments, x.1.2 < s.program.slots.size ∧ x.2 < s.program.slots.size) :
    Ensures s (arguments.forM fun ((p, slot), argument) =>
        if p.direction.writes then do
          copy slot argument
          afterWrite argument
        else pure ())
      (fun _ t => ∃ codes, Speaks s codes.flatten t ∧
        List.Forall₂ (BackLines s.site.temps t.setting) arguments codes) E := by
  refine Speaks.forM (fun _ _ _ _ => BackLines.within) hs fun x hx t code ht hsound => ?_
  have hslots := hargs x hx
  have hle := ht.adds.grows.slots.size_le
  unfold BackLines
  dsimp only
  split_ifs
  · have hargument := hslots.2.trans_le hle
    refine Ensures.bind (Speaks.of_yields (copy_yields hsound.ready (hslots.1.trans_le hle)
      hargument) fun _ _ _ h => h.2) ?_
    rintro ⟨⟩ v - ⟨_, hv, rfl, -⟩
    have hv' := hv.sound hsound
    refine (Speaks.of_yields (afterWrite_yields hv'.ready
      (hargument.trans_le hv.adds.grows.slots.size_le)) fun _ _ _ h => h.2).mono ?_
      fun _ _ he => he
    rintro ⟨⟩ w ⟨write, hw, hwrite, -⟩
    rw [hv.temps, ht.temps, ← hw.method] at hwrite
    exact ⟨_, hv.trans hw hsound, (hargument.trans_le hv.adds.grows.slots.size_le).trans_le
      hw.adds.grows.slots.size_le, write, hwrite, rfl⟩
  · exact Ensures.of_ok rfl ⟨[], Speaks.refl hsound, rfl⟩

/-- A call of a group's action. -/
lemma groupCall_ensures (hs : s.Sound) (henv : SoundGroups env.registry) (guid action : String)
    {r : BoundAction} (hin : ∀ id ∈ r.inputs, id < s.program.slots.size) :
    Ensures s (groupCall env guid action r) (fun _ t => CallsGroup env guid action r s t)
      fun e t => IsGroupError e ∧ t.errors = s.errors := by
  refine Ensures.bind (mergedEntry_ensures hs henv guid action) ?_
  rintro entry u - ⟨hu, hentry, table, hmerges, hfound⟩
  have hin := hu.slots_lt hin
  extract_lets arguments
  have hargs : ∀ x ∈ arguments, x.1.2 < u.program.slots.size ∧ x.2 < u.program.slots.size := by
    intro x hx
    obtain ⟨hp, hi⟩ := List.of_mem_zip hx
    exact ⟨hentry.parameters _ hp, hin _ hi⟩
  refine Ensures.bind (passArguments_ensures hu.sound hargs) ?_
  rintro ⟨⟩ t₁ - h₁
  have hs₁ := h₁.sound hu.sound
  refine Ensures.bind (passInputs_ensures hs₁ fun x hx =>
    (hentry.eventSlots x hx).trans_le h₁.adds.grows.slots.size_le) ?_
  rintro ⟨⟩ t₂ - h₂
  have hs₂ := h₂.sound hs₁
  have h₁₂ := h₁.trans h₂ hu.sound
  refine Ensures.bind (Speaks.of_yields (callMethod_yields hs₂.ready
    (h₁₂.adds.grows.names _ hentry.method)
    (hentry.returnSlot.trans_le h₁₂.adds.grows.slots.size_le)) fun _ _ _ h => h.2) ?_
  rintro ⟨⟩ t₃ - ⟨call, h₃, ⟨back, address, hconstant, hcall⟩, -⟩
  have hs₃ := h₃.sound hs₂
  have h₁₃ := h₁₂.trans h₃ hu.sound
  have hle := h₁₃.adds.grows.slots.size_le
  refine (takeBack_ensures hs₃ fun x hx =>
    ⟨(hargs x hx).1.trans_le hle, (hargs x hx).2.trans_le hle⟩).mono ?_ fun _ _ he => he
  rintro ⟨⟩ t₄ ⟨codes, h₄, hcodes⟩
  rw [h₁₃.temps] at hcodes
  refine .intro hmerges hu.sound hu hfound hentry (h₁₃.trans h₄ hu.sound) ⟨call, codes, ?_, hcodes, ?_⟩
  · exact ⟨back, address, hconstant.within h₄.adds.grows.slots, hcall⟩
  · rw [h₁.eventInputs]

end Lower

end TriggerCompiler
