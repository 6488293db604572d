import Mathlib
import TriggerCompiler.Proofs.Compile
import TriggerCompiler.Proofs.Edits

/-!
# The names that merges give

Every merge of a compile has a number, and what it brings is named with the number behind the stem of
the options. A name that a merge finds taken was never brought by another merge.

Main statement: `merges_collide_with_own_names_only`.
-/

namespace TriggerCompiler

/-! ## Numbered names -/

lemma isDigit_of_mem_toString {k : Nat} {c : Char} (h : c ∈ (toString k).toList) :
    c.isDigit = true :=
  Nat.isDigit_of_mem_toDigits (b := 10) (by decide) (by decide) (by simpa using h)

/-- A numeral ends before the underscore: names under different numbers differ, whatever follows. -/
lemma eq_of_numbered {stem m n : String} {i j : Nat}
    (h : stem ++ toString i ++ "_" ++ m = stem ++ toString j ++ "_" ++ n) : i = j := by
  have hdigits : ∀ (k : Nat) (l : List Char),
      ((toString k).toList ++ '_' :: l).takeWhile Char.isDigit = (toString k).toList := by
    intro k l
    rw [List.takeWhile_append_of_pos fun c hc => isDigit_of_mem_toString hc]
    simp
  have hlist := congrArg String.toList h
  simp only [String.append_assoc, String.toList_append, List.append_cancel_left_eq] at hlist
  have htaken := congrArg (List.takeWhile Char.isDigit) hlist
  rw [show "_".toList = ['_'] from rfl] at htaken
  simp only [List.singleton_append, hdigits] at htaken
  exact Nat.repr_inj.mp (String.toList_injective htaken)

/-- In the names of the running object only digits follow a digit. -/
lemma thisName_ne_numbered (stem m : String) (i k : Nat) :
    SlotTable.thisName i ≠ stem ++ toString k ++ "_" ++ m := by
  intro h
  have hthis : ∀ c ∈ (SlotTable.thisName i).toList.dropWhile (!·.isDigit), c.isDigit = true := by
    cases i with
    | zero => simp [SlotTable.thisName]
    | succ i =>
      have hsplit : (SlotTable.thisName (i + 1)).toList.dropWhile (!·.isDigit) =
          (toString (i + 1)).toList.dropWhile (!·.isDigit) := by
        simp [SlotTable.thisName]
      intro c hc
      rw [hsplit] at hc
      exact isDigit_of_mem_toString ((List.dropWhile_sublist _).subset hc)
  have hdigit : ((stem ++ toString k).toList.dropWhile (!·.isDigit)).isEmpty = false := by
    rw [List.isEmpty_eq_false_iff, Ne, List.dropWhile_eq_nil_iff]
    intro hall
    obtain ⟨c, hc⟩ := List.exists_mem_of_ne_nil (toString k).toList (by simp)
    simpa [isDigit_of_mem_toString hc] using hall c (by
      rw [String.toList_append]
      exact List.mem_append_right _ hc)
  rw [h, String.append_assoc, String.toList_append, List.dropWhile_append, hdigit] at hthis
  exact absurd (hthis '_' (by simp)) (by decide)

/-! ## What a merge does to names -/

/-- What has names of its own in a program. -/
inductive Namespace where
  | slots
  | methods

/-- The names that are taken. -/
def Program.taken (p : Program) : Namespace → List String
  | .slots => p.slots.names
  | .methods => p.names

/-- No two slots and no two methods share a name. -/
def Program.Distinct (p : Program) : Prop := ∀ k, (p.taken k).Nodup

/-- Names are brought under a stem, one after the other, to the end or to one that is taken; the
running object gets a name of its own, if it has none. -/
inductive Brings (stem : String) : List String → List String → Option String → List String → Prop where
  | stop {l ns : List String} : Brings stem l ns none ns
  | taken {m : String} {l ns : List String} (mem : stem ++ m ∈ ns) :
      Brings stem (m :: l) ns (some (stem ++ m)) ns
  | known {m : String} {l ns ns' : List String} {clash : Option String}
      (rest : Brings stem l ns clash ns') : Brings stem (m :: l) ns clash ns'
  | new {m n : String} {l ns ns' : List String} {clash : Option String} (fresh : n ∉ ns)
      (name : n = stem ++ m ∨ ∃ i, n = SlotTable.thisName i)
      (rest : Brings stem l (ns ++ [n]) clash ns') : Brings stem (m :: l) ns clash ns'

namespace Brings

variable {stem n : String} {l ns ns' : List String} {clash : Option String}

lemma nodup (h : Brings stem l ns clash ns') (hns : ns.Nodup) : ns'.Nodup := by
  induction h with
  | stop => exact hns
  | taken => exact hns
  | known _ ih => exact ih hns
  | new fresh _ _ ih =>
    exact ih (List.nodup_append'.mpr ⟨hns, List.nodup_singleton _, by simpa using fresh⟩)

/-- A name was there, or is under the stem, or is the running object's. -/
lemma mem (h : Brings stem l ns clash ns') (hn : n ∈ ns') :
    n ∈ ns ∨ (∃ m, n = stem ++ m) ∨ ∃ i, n = SlotTable.thisName i := by
  induction h with
  | stop => exact .inl hn
  | taken => exact .inl hn
  | known _ ih => exact ih hn
  | new _ name _ ih =>
    rcases ih hn with hmem | h
    · rcases List.mem_append.mp hmem with hmem | hmem
      · exact .inl hmem
      · rw [List.mem_singleton.mp hmem]
        exact .inr (name.imp_left fun h => ⟨_, h⟩)
    · exact .inr h

/-- Names that differ do not collide with one another. -/
lemma clash_mem (h : Brings stem l ns (some n) ns') (hl : l.Nodup) :
    ∃ m ∈ l, n = stem ++ m ∧ (n ∈ ns ∨ ∃ i, n = SlotTable.thisName i) := by
  generalize hclash : some n = clash at h
  induction h with
  | stop => cases hclash
  | taken mem =>
    obtain rfl := Option.some.inj hclash
    exact ⟨_, List.mem_cons_self, rfl, .inl mem⟩
  | known _ ih =>
    obtain ⟨m, hm, hn⟩ := ih hl.of_cons hclash
    exact ⟨m, List.mem_cons_of_mem _ hm, hn⟩
  | new _ name _ ih =>
    obtain ⟨m, hm, rfl, hmem⟩ := ih hl.of_cons hclash
    refine ⟨m, List.mem_cons_of_mem _ hm, rfl, ?_⟩
    rcases hmem with hmem | hthis
    · rcases List.mem_append.mp hmem with hmem | hmem
      · exact .inl hmem
      · rw [← List.mem_singleton.mp hmem, String.append_right_inj] at name
        exact .inr (name.resolve_left fun heq => (List.nodup_cons.mp hl).1 (heq ▸ hm))
    · exact .inr hthis

end Brings

lemma SlotTable.names_modify {t : SlotTable} {id : SlotId} {f : Slot → Slot}
    (hf : ∀ x, (f x).name = x.name) : (t.modify id f).names = t.names := by
  unfold SlotTable.names SlotTable.modify
  simp only [Array.toList_modify]
  generalize t.slots.toList = l
  induction l generalizing id with
  | nil => simp
  | cons x l ih => cases id <;> simp [hf, ih]

namespace Program

variable {r : Renaming}

lemma mergeSlots_brings (l : List Slot) (r : Renaming) (p : Program) :
    ∃ clash, Brings r.namePrefix (l.map (·.name)) p.slots.names clash
        (mergeSlots l r p).2.slots.names ∧
      (mergeSlots l r p).2.methods = p.methods ∧
      ∀ kind, (mergeSlots l r p).1 = .error kind → ∃ n, clash = some n ∧ kind = .nameCollision n := by
  induction l generalizing r p with
  | nil => exact ⟨none, .stop, rfl, nofun⟩
  | cons x l ih =>
    rw [mergeSlots]
    split_ifs with hx
    · obtain ⟨clash, hbrings, hrest⟩ := ih { r with slots := r.slots.push p.slots.thisSlot.1 }
        { p with slots := p.slots.thisSlot.2 }
      refine ⟨clash, ?_, hrest⟩
      cases hthis : p.slots.this with
      | some id =>
        simp only [SlotTable.thisSlot, hthis] at hbrings ⊢
        exact .known hbrings
      | none =>
        have hfresh := p.slots.firstFree_not_mem SlotTable.thisName_injective 0
        simp only [SlotTable.thisSlot, hthis] at hbrings ⊢
        exact .new hfresh (.inr ⟨_, rfl⟩) (by rwa [SlotTable.names_push] at hbrings)
    · by_cases htaken : r.namePrefix ++ x.name ∈ p.slots.names
      · have hname : p.slots.isTaken (r.bareCopy x).name = true := (p.slots.isTaken_iff _).mpr htaken
        obtain ⟨e, he⟩ := SlotTable.insert_of_taken hname
        simp only [Renaming.bareCopy] at he
        simp only [he]
        exact ⟨_, .taken htaken, trivial, fun kind h => ⟨_, rfl, (Except.error.inj h).symm⟩⟩
      · have hname : p.slots.isTaken (r.bareCopy x).name = false :=
          Bool.eq_false_iff.mpr fun h => htaken ((p.slots.isTaken_iff _).mp h)
        have hok := SlotTable.insert_of_free hname
        simp only [Renaming.bareCopy] at hok
        simp only [hok]
        obtain ⟨clash, hbrings, hrest⟩ := ih (r.push p.slots.size)
          { p with slots := (p.slots.push (r.bareCopy x)).2 }
        refine ⟨clash, .new htaken (.inl rfl) ?_, hrest⟩
        rw [SlotTable.names_push] at hbrings
        exact hbrings

lemma mergeMethods_brings (l : List Method) (p : Program) :
    ∃ clash, Brings r.namePrefix (l.map (·.name)) p.names clash (mergeMethods r l p).2.names ∧
      (mergeMethods r l p).2.slots = p.slots ∧
      ∀ kind, (mergeMethods r l p).1 = .error kind →
        ∃ n, clash = some n ∧ kind = .nameCollision n := by
  induction l generalizing p with
  | nil => exact ⟨none, .stop, rfl, nofun⟩
  | cons x l ih =>
    rw [mergeMethods]
    split_ifs with hx <;> rw [findMethod?_isSome_iff] at hx
    · exact ⟨_, .taken hx, rfl, fun kind h => ⟨_, rfl, (Except.error.inj h).symm⟩⟩
    · obtain ⟨clash, hbrings, hrest⟩ := ih { p with methods := p.methods.push (r.methodDef x) }
      refine ⟨clash, .new hx (.inl rfl) ?_, hrest⟩
      simpa [names, Renaming.methodDef] using hbrings

lemma names_renameShadows (r : Renaming) (p : Program) :
    (renameShadows r p).slots.names = p.slots.names := by
  unfold renameShadows
  dsimp only
  rw [← Array.foldl_toList]
  generalize r.slots.toList = ids
  generalize p.slots = t
  induction ids generalizing t with
  | nil => rfl
  | cons id ids ih =>
    refine (ih _).trans (SlotTable.names_modify fun x => ?_)
    split_ifs <;> rfl

/-- What a merge does to the names, and that it fails only where a name is taken. -/
lemma merge_brings (p : Program) (group : CompiledGroup) (stem : String) :
    ∃ clash : Namespace → Option String,
      (∀ k, Brings stem (group.program.taken k) (p.taken k) (clash k)
        ((p.merge group stem).2.taken k)) ∧
      ∀ kind, (p.merge group stem).1 = .error kind →
        ∃ k n, clash k = some n ∧ kind = .nameCollision n := by
  set r : Renaming := ⟨stem, group.program.methods.toList.map (·.name), p.instrs.size, #[]⟩ with hr
  obtain ⟨clash, hslots, hmethods, herror⟩ :=
    mergeSlots_brings group.program.slots.slots.toList r p
  unfold merge
  dsimp only
  rw [← hr]
  rcases hrun : mergeSlots group.program.slots.slots.toList r p with ⟨e | r', q⟩ <;>
    rw [hrun] at hslots hmethods herror
  · obtain ⟨n, rfl, rfl⟩ := herror e rfl
    have hsame : q.taken .methods = p.taken .methods := congrArg (·.toList.map (·.name)) hmethods
    refine ⟨fun | .slots => some n | .methods => none, fun | .slots => hslots | .methods => ?_, ?_⟩
    · exact hsame ▸ .stop
    · intro kind h
      exact ⟨.slots, n, rfl, (Except.error.inj h).symm⟩
  · obtain ⟨-, ⟨slots, rfl⟩, -⟩ := mergeSlots_lands (Renaming.Lands.nil rfl) hrun
    set q' : Program := { renameShadows { r with slots } q with
      instrs := q.instrs ++ group.program.instrs.map (Renaming.instr { r with slots }) }
    obtain ⟨clash', hmethods', hslots', herror'⟩ :=
      mergeMethods_brings (r := { r with slots }) group.program.methods.toList q'
    have hnames : q'.names = p.names := congrArg (·.toList.map (·.name)) hmethods
    have hslots'' : q'.slots.names = q.slots.names := names_renameShadows _ q
    rw [hnames] at hmethods'
    rw [← hslots'', ← hslots'] at hslots
    refine ⟨fun | .slots => clash | .methods => clash', ?_⟩
    dsimp only
    split <;> rename_i hrun' <;> change mergeMethods _ _ q' = _ at hrun' <;>
      rw [hrun'] at hmethods' hslots herror' <;>
      refine ⟨fun | .slots => hslots | .methods => hmethods', fun kind h => ?_⟩
    · obtain ⟨n, hclash, hkind⟩ := herror' _ rfl
      exact ⟨.methods, n, hclash, (Except.error.inj h).symm.trans hkind⟩
    · cases h

end Program

/-! ## Names in a compile -/

/-- An edit leaves the names distinct. -/
lemma Program.Edit.distinct {p q : Program} (h : p.Edit q) (hp : p.Distinct) : q.Distinct := by
  intro k
  cases h with
  | table q =>
    cases k with
    | slots => exact SlotTable.nodup_names_serve (hp .slots) q
    | methods => exact hp .methods
  | method fresh =>
    cases k with
    | slots => exact hp .slots
    | methods =>
      have hnodup : (p.names ++ [_]).Nodup :=
        List.nodup_append'.mpr ⟨hp .methods, List.nodup_singleton _, by simpa using fresh⟩
      simpa [taken, names] using hnodup
  | code slots names =>
    have hsame : q.taken k = p.taken k := by
      cases k with
      | slots => exact congrArg SlotTable.names slots
      | methods => exact names
    exact hsame ▸ hp k

namespace LowerState

variable {env : Environment} {s t : LowerState} {n : String} {k : Namespace}

lemma Edits.distinct (h : s.Edits env t) (hs : s.program.Distinct) : t.program.Distinct := by
  induction h with
  | refl => exact hs
  | tail _ hedit ih =>
    cases hedit with
    | program edit => exact edit.distinct ih
    | merge _ _ =>
      obtain ⟨clash, hbrings, -⟩ := Program.merge_brings _ _ _
      exact fun k => (hbrings k).nodup (ih k)
    | rest program _ _ _ => exact program.symm ▸ ih

/-- The name came up by an edit of the program, and not by a merge. -/
def Made (env : Environment) (k : Namespace) (n : String) (s : LowerState) : Prop :=
  ∃ (a : LowerState) (p : Program), Edits env {} a ∧ a.program.Edit p ∧ n ∉ a.program.taken k ∧
    n ∈ p.taken k ∧ Edits env { a with program := p } s

lemma Made.edit (h : s.Made env k n) (ht : s.Edit env t) : t.Made env k n := by
  obtain ⟨a, p, ha, hedit, hold, hnew, hp⟩ := h
  exact ⟨a, p, ha, hedit, hold, hnew, hp.tail ht⟩

/-- A name was made here, or brought by a merge, or is the running object's. -/
lemma Edits.origin (h : Edits env {} s) (hn : n ∈ s.program.taken k) :
    s.Made env k n ∨ (∃ j < s.mergeCount, ∃ m, n = env.stem j ++ m) ∨
      ∃ i, n = SlotTable.thisName i := by
  induction h with
  | refl => cases k <;> cases hn
  | @tail s t hs hedit ih =>
    by_cases hold : n ∈ s.program.taken k
    · rcases ih hold with hmade | ⟨j, hj, hm⟩ | hthis
      · exact .inl (hmade.edit hedit)
      · refine .inr (.inl ⟨j, ?_, hm⟩)
        cases hedit with
        | program => exact hj
        | merge => exact hj.trans (Nat.lt_succ_self _)
        | rest _ _ _ hcount => exact hcount.symm ▸ hj
      · exact .inr (.inr hthis)
    · cases hedit with
      | program edit => exact .inl ⟨s, _, hs, edit, hold, hn, .refl⟩
      | merge _ _ =>
        obtain ⟨clash, hbrings, -⟩ := Program.merge_brings s.program _ _
        refine .inr (((hbrings k).mem hn).resolve_left hold |>.imp_left fun hm => ?_)
        exact ⟨s.mergeCount, Nat.lt_succ_self _, hm⟩
      | rest program _ _ _ => exact absurd (program ▸ hn) hold

end LowerState

/-! ## Registries -/

/-- The built-in registry with any actions and events added to it, and groups that were compiled
with such registries. -/
inductive Registry.Gathered : Registry → Prop where
  | builtin : Gathered Registry.builtin
  | action {r : Registry} (d : ActionDef) (gathered : Gathered r) : Gathered (r.addAction d)
  | event {r : Registry} (e : EventType) (gathered : Gathered r) : Gathered (r.addEvent e)
  | group {r home : Registry} {options : CompileOptions} {g : ActionGroup} {c : CompiledGroup}
      {notes : List Note} (origin : Gathered home)
      (compile : compileGroup ⟨home, options⟩ g = .ok (c, notes)) (gathered : Gathered r) :
      Gathered (r.addGroup c)

lemma Registry.Gathered.distinct {r : Registry} (h : r.Gathered) :
    ∀ e ∈ r.groups, e.2.program.Distinct := by
  induction h with
  | builtin => simp [builtin_groups]
  | action _ _ ih => exact ih
  | event _ _ ih => exact ih
  | @group r home options g c notes _ compile _ _ ih =>
    obtain ⟨entries, s, hrun, -, rfl⟩ := compileGroup_eq_ok compile
    have hedits := KeepsTo.run (R := LowerState.Edits ⟨home, options⟩)
      (x := Lower.assembleGroup ⟨home, options⟩ g) {}
    rw [hrun] at hedits
    intro e he
    rcases List.mem_cons.mp he with rfl | he
    · exact hedits.distinct fun k => by cases k <;> exact List.nodup_nil
    · exact ih e he

namespace LowerState

variable {env : Environment} {s t : LowerState} {n : String} {k : Namespace}

/-- A merge that fails has found a name taken that was made here. -/
lemma Edits.collision (h : Edits env {} s) {guid : String} {group : CompiledGroup} {kind : ErrorKind}
    (hr : env.registry.Gathered) (hgroup : env.registry.group? guid = some group)
    (herror : (s.program.merge group (env.stem s.mergeCount)).1 = .error kind) :
    ∃ m k, kind = .nameCollision (env.stem s.mergeCount ++ m) ∧
      env.stem s.mergeCount ++ m ∈ s.program.taken k ∧ s.Made env k (env.stem s.mergeCount ++ m) := by
  obtain ⟨clash, hbrings, hclash⟩ := s.program.merge_brings group (env.stem s.mergeCount)
  obtain ⟨k, n, hn, rfl⟩ := hclash kind herror
  have hk := hbrings k
  rw [hn] at hk
  obtain ⟨m, -, rfl, hmem⟩ := hk.clash_mem (hr.distinct _ (mem_of_lookup hgroup) k)
  have hthis : ¬∃ i, env.stem s.mergeCount ++ m = SlotTable.thisName i :=
    fun ⟨i, hi⟩ => thisName_ne_numbered _ m i s.mergeCount hi.symm
  have hmem := hmem.resolve_right hthis
  refine ⟨m, k, rfl, hmem, ?_⟩
  rcases h.origin hmem with hmade | ⟨j, hj, m', heq⟩ | hi
  · exact hmade
  · exact absurd (eq_of_numbered heq) hj.ne'
  · exact absurd hi hthis

/-- Where a merge has failed, a name under the stem of a merge was made here. -/
lemma Edits.failed (h : Edits env {} s) (hr : env.registry.Gathered)
    (hfailed : s.merges.length ≠ s.mergeCount) :
    ∃ j < s.mergeCount, ∃ m k, s.Made env k (env.stem j ++ m) := by
  induction h with
  | refl => exact absurd rfl hfailed
  | @tail s t hs hedit ih =>
    have hlift : s.mergeCount ≤ t.mergeCount → s.merges.length ≠ s.mergeCount →
        ∃ j < t.mergeCount, ∃ m k, t.Made env k (env.stem j ++ m) := by
      intro hle hne
      obtain ⟨j, hj, m, k, hmade⟩ := ih hne
      exact ⟨j, hj.trans_le hle, m, k, hmade.edit hedit⟩
    have hedit' := hedit
    cases hedit with
    | program edit => exact hlift le_rfl hfailed
    | rest _ _ merges count => exact hlift count.ge (merges ▸ count ▸ hfailed)
    | @merge guid group _ found =>
      cases hmerge : (s.program.merge group (env.stem s.mergeCount)).1 with
      | ok table =>
        refine hlift (Nat.le_succ _) fun heq => hfailed ?_
        simp [afterMerge, hmerge, heq, Except.toOption]
      | error kind =>
        obtain ⟨m, k, -, -, hmade⟩ := Edits.collision hs hr found hmerge
        exact ⟨s.mergeCount, Nat.lt_succ_self _, m, k, hmade.edit hedit'⟩

end LowerState

/-- Whatever is appended, the names of two merges differ. All that a compile does are edits, also if
it fails. Where a merge fails after any edits, the name that it found taken was made by an edit of
the program itself and not brought by another merge; so all merges of a compile succeed that makes no
name under the stem of one. -/
theorem merges_collide_with_own_names_only {env : Environment} (h : env.registry.Gathered) :
    (∀ (stem m n : String) (i j : Nat), i ≠ j →
      stem ++ toString i ++ "_" ++ m ≠ stem ++ toString j ++ "_" ++ n) ∧
    (∀ t, LowerState.Edits env {} (finalState (Lower.assembleTrigger env t {}))) ∧
    (∀ g, LowerState.Edits env {} (finalState (Lower.assembleGroup env g {}))) ∧
    (∀ s, LowerState.Edits env {} s → s.merges.length ≠ s.mergeCount →
      ∃ j < s.mergeCount, ∃ m k, s.Made env k (env.stem j ++ m)) ∧
    ∀ s guid action e t n, LowerState.Edits env {} s →
      Lower.mergedGroup env guid action s = .error e t → e.kind = .nameCollision n →
      (∃ m, n = env.stem s.mergeCount ++ m) ∧ ∃ k, n ∈ s.program.taken k ∧ s.Made env k n := by
  refine ⟨fun stem m n i j hij heq => hij (eq_of_numbered heq), fun t => KeepsTo.run _,
    fun g => KeepsTo.run _, fun s hs => hs.failed h, fun s guid action e t n hs hrun hkind => ?_⟩
  obtain ⟨table, -, hok⟩ | ⟨-, herror⟩ | ⟨group, -, hgroup, hmerge⟩ :=
    Lower.mergedGroup_cases env guid action s
  · cases hok.symm.trans hrun
  · obtain ⟨rfl, -⟩ := EStateM.Result.error.inj (herror.symm.trans hrun)
    cases hkind
  · rw [hmerge] at hrun
    split at hrun
    · cases hrun
    · rename_i kind herror
      obtain ⟨rfl, -⟩ := EStateM.Result.error.inj hrun
      obtain ⟨m, k, rfl, hmem, hmade⟩ := hs.collision h hgroup herror
      obtain rfl := ErrorKind.nameCollision.inj hkind
      exact ⟨⟨m, rfl⟩, k, hmem, hmade⟩

/-- A variable has the name that a merge would give to the slot of a return address. -/
theorem merges_collide_with_own_names_only_of_imitation :
    ∃ (r : Registry) (s t : LowerState) (e : CompileError), r.Gathered ∧
      Lower.mergedGroup ⟨r, {}⟩ "g" "a" s = .error e t ∧
      e.kind = .nameCollision "__grp0_a__return" ∧
      ∃ k, s.Made ⟨r, {}⟩ k "__grp0_a__return" := by
  set s : LowerState := { program := { slots :=
    (({} : SlotTable).serve (.declare "__grp0_a__return" .int32 .user)).2 } }
  have hfails : ((compileGroup ⟨Registry.builtin, {}⟩
      { guid := "g", name := "G", actions := [{ name := "a" }] }).toOption.any fun c =>
        match Lower.mergedGroup ⟨Registry.builtin.addGroup c.1, {}⟩ "g" "a" s with
        | .ok _ _ => false
        | .error e _ => decide (e.kind = .nameCollision "__grp0_a__return")) = true := by
    decide +kernel
  obtain ⟨c, hc, hfails⟩ := exists_ok_of_any hfails
  split at hfails
  · cases hfails
  · rename_i e t hrun
    have hr : (Registry.builtin.addGroup c.1).Gathered := .group .builtin hc .builtin
    have hkind := of_decide_eq_true hfails
    obtain ⟨-, k, -, hmade⟩ := (merges_collide_with_own_names_only hr).2.2.2.2 s "g" "a"
      e t _ (.single (.program (.table (.declare _ .int32 .user)))) hrun hkind
    exact ⟨_, s, t, e, hr, hrun, hkind, k, hmade⟩

end TriggerCompiler
