import Mathlib
import TriggerCompiler.Proofs.Entries
import TriggerCompiler.Proofs.Rosters
import TriggerCompiler.Proofs.Spelling

/-!
# Phrases of merged groups

A renamed phrase is a phrase, and what the terms of a group's program allow, those of the program that
it was merged into allow of the renamed. So the methods that a merge adds are in phrases when those of
the group are.
-/

namespace TriggerCompiler

variable {r : Renaming} {v w : Terms} {id : SlotId}

open Lower

/-! ## Renamed phrases -/

/-- A line of renamed code. -/
def Renaming.line (r : Renaming) : Line → Line
  | .label l => .label (r.instrId l)
  | .code i => .code (r.instr i)

/-- What tells of a change in renamed code. -/
def Renaming.watch (r : Renaming) (w : Watch) : Watch where
  type := w.type
  id := r.slot w.id
  shadow := r.slot w.shadow
  changed := r.slot w.changed
  skip := r.instrId w.skip
  self := r.slot w.self
  text := r.slot w.text

/-- A phrase of renamed code. -/
def Renaming.phrase (r : Renaming) : Phrase → Phrase
  | .label l => .label (r.instrId l)
  | .copy source target => .copy (r.slot source) (r.slot target)
  | .call signature arguments => .call signature (arguments.map fun x => (r.slot x.1, x.2))
  | .branch condition target => .branch (r.slot condition) (r.instrId target)
  | .jump target => .jump (r.instrId target)
  | .invoke address returnSlot name back =>
    .invoke (r.slot address) (r.slot returnSlot) (r.method name) (r.instrId back)
  | .update source w => .update (r.slot source) (r.watch w)
  | .compute signature arguments w => .compute signature (arguments.map r.slot) (r.watch w)

lemma Renaming.lines_change (r : Renaming) (type : ValueType) (id shadow changed : SlotId) :
    changeLines type (r.slot id) (r.slot shadow) (r.slot changed) =
      (changeLines type id shadow changed).map r.line := by
  unfold changeLines
  split_ifs
  all_goals rfl

lemma Renaming.lines_watch (r : Renaming) (w : Watch) : (r.watch w).lines = w.lines.map r.line := by
  simp only [Watch.lines, List.map_append, ← lines_change]
  rfl

lemma Renaming.lines_phrase (r : Renaming) (x : Phrase) :
    (r.phrase x).lines = x.lines.map r.line := by
  cases x with
  | call signature arguments =>
    simp [phrase, Phrase.lines, callLines, line, instr, Function.comp_def]
  | update source w =>
    simp only [phrase, Phrase.lines, List.map_append, lines_watch]
    rfl
  | compute signature arguments w =>
    simp only [phrase, Phrase.lines, List.map_append, lines_watch]
    simp [callLines, line, instr, watch, Function.comp_def]
  | _ => rfl

/-- What the first terms allow, the second allow of the renamed. -/
structure Terms.Renames (r : Renaming) (v w : Terms) : Prop where
  clean : ∀ id, v.clean id → w.clean (r.slot id)
  writable : ∀ id, v.clean id → v.writable id → w.writable (r.slot id)
  watched : ∀ x : Watch, v.clean x.id → v.watched x → w.watched (r.watch x)
  calls : ∀ signature flags, v.calls signature flags → w.calls signature flags
  summons : ∀ signature slots, v.summons signature slots → w.summons signature (slots.map r.slot)
  target : ∀ l, v.target l → w.target (r.instrId l)
  callee : ∀ name slot, v.callee name slot → w.callee (r.method name) (r.slot slot)
  addresses : ∀ id l, v.addresses id l → w.addresses (r.slot id) (r.instrId l)

lemma Terms.Allows.rename {signature : String} {slots : List SlotId} {flags : List Bool}
    (h : v.Allows signature slots flags) (hvw : v.Renames r w) :
    w.Allows signature (slots.map r.slot) flags :=
  ⟨hvw.calls _ _ h.1, fun hsends => hvw.summons _ _ (h.2 hsends)⟩

lemma Watch.Fits.rename {v' : Terms} {w : Watch} (h : w.Fits v) (hvw : v.Renames r v') :
    (r.watch w).Fits v'  where
  watched := hvw.watched w (h.clean _ (by simp)) h.watched
  clean x hx := by
    obtain ⟨y, hy, rfl⟩ := List.mem_map.mp
      (show x ∈ [w.id, w.shadow, w.changed, w.self, w.text].map r.slot from hx)
    exact hvw.clean y (h.clean y hy)
  writable x hx := by
    obtain ⟨y, hy, rfl⟩ := List.mem_map.mp (show x ∈ [w.shadow, w.changed].map r.slot from hx)
    refine hvw.writable y (h.clean y ?_) (h.writable y hy)
    simp only [List.mem_cons, List.not_mem_nil, or_false] at hy ⊢
    exact .inr (hy.imp (fun h => h) .inl)
  skip := hvw.target _ h.skip
  differs htype := hvw.calls _ _ (h.differs htype)
  equals := hvw.calls _ _ h.equals
  negation := hvw.calls _ _ h.negation

lemma Phrase.Fits.rename {x : Phrase} (h : x.Fits v) (hvw : v.Renames r w) :
    (r.phrase x).Fits w := by
  cases x with
  | label l => trivial
  | copy source target =>
    exact ⟨hvw.clean _ h.1, hvw.clean _ h.2.1, hvw.writable _ h.2.1 h.2.2⟩
  | call signature arguments =>
    refine ⟨?_, fun y hy => ?_⟩
    · simpa [Function.comp_def] using h.1.rename hvw
    · obtain ⟨z, hz, rfl⟩ := List.mem_map.mp hy
      exact ⟨hvw.clean _ (h.2 z hz).1, fun hw => hvw.writable _ (h.2 z hz).1 ((h.2 z hz).2 hw)⟩
  | branch condition target => exact ⟨hvw.clean _ h.1, hvw.target _ h.2⟩
  | jump target => exact hvw.target _ h
  | invoke address returnSlot name back => exact ⟨hvw.addresses _ _ h.1, hvw.callee _ _ h.2⟩
  | update source w => exact ⟨hvw.clean _ h.1, h.2.rename hvw⟩
  | compute signature arguments w =>
    refine ⟨?_, fun y hy => ?_, h.2.2.rename hvw⟩
    · simpa [Renaming.watch] using h.1.rename hvw
    · obtain ⟨z, hz, rfl⟩ := List.mem_map.mp hy
      exact hvw.clean z (h.2.1 z hz)

lemma Spells.rename {code : List Line} (h : Spells v code) (hvw : v.Renames r w) :
    Spells w (code.map r.line) := by
  obtain ⟨xs, rfl, hxs⟩ := h
  refine ⟨xs.map r.phrase, ?_, fun y hy => ?_⟩
  · rw [List.map_flatMap, List.flatMap_map]
    exact List.flatMap_congr fun x _ => (r.lines_phrase x).symm
  · obtain ⟨x, hx, rfl⟩ := List.mem_map.mp hy
    exact (hxs x hx).rename hvw

/-! ## Programs in phrases -/

namespace Program

variable {p q host sub host' : Program} {R : Rules} {k : MethodId}

/-- A label that has its place in a method. -/
structure Label (p : Program) (k : MethodId) (l : InstrId) : Prop where
  mem : l ∈ (p.method k).body.toList
  nop : p.instr l = .nop

/-- The labels of a method: those that its body holds and that of its end. -/
def Own (p : Program) (k : MethodId) (l : InstrId) : Prop :=
  p.Label k l ∨ (p.method k).endLabel = some l

/-- The body of the method is in phrases. -/
def Spelled (p : Program) (R : Rules) (k : MethodId) : Prop :=
  Spells (p.terms R.free k (p.Own k)) (p.lines k)

/-- No slot of the program is watched. -/
def Unwatched (p : Program) : Prop := ∀ id < p.slots.size, (p.slots.get id).shadow = none

/-- A program whose slots have one use each and whose bodies are in phrases. -/
structure Orderly (p : Program) (R : Rules) : Prop where
  tidy : p.Tidy
  spelled : ∀ k < p.methods.size, p.Spelled R k

namespace Merged

section

variable (h : Merged host sub r host')
include h

lemma lines_host (hk : k < host.methods.size)
    (hlt : ∀ id ∈ (host.method k).body.toList, id < host.instrs.size) :
    host'.lines k = host.lines k := by
  unfold lines
  rw [h.method_host hk]
  exact List.map_congr_left fun id hid => line_congr (h.instr_host (hlt id hid))

/-- The methods that return through a slot are the old ones and the renamed ones. -/
lemma returns {slot : SlotId} (hslot : host'.Returns slot) :
    host.Returns slot ∨ ∃ x, sub.Returns x ∧ r.slot x = slot := by
  obtain ⟨m, hm, hepilogue⟩ := hslot
  rw [h.methods, Array.toList_append, List.mem_append] at hm
  rcases hm with hm | hm
  · exact .inl ⟨m, hm, hepilogue⟩
  · rw [Array.toList_map] at hm
    obtain ⟨y, hy, rfl⟩ := List.mem_map.mp hm
    obtain ⟨x, hx, rfl⟩ := Renaming.epilogue_eq_indirect hepilogue
    exact .inr ⟨x, ⟨y, hy, hx⟩, rfl⟩

lemma copy_get (hid : id < sub.slots.size) (hthis : (sub.slots.get id).isThis = false) :
    host.slots.size ≤ r.slot id ∧ r.slot id < host'.slots.size ∧
      host'.slots.get (r.slot id) = r.copy (sub.slots.get id) :=
  h.slots.fresh id _ (SlotTable.slots_getElem? hid) hthis

/-- A slot that a merge adds is the copy of one, or the running object. -/
lemma new_get (hid : id < host'.slots.size) (hge : host.slots.size ≤ id) :
    (∃ k < sub.slots.size, (sub.slots.get k).isThis = false ∧ r.slot k = id ∧
      host'.slots.get id = r.copy (sub.slots.get k)) ∨
    ∃ name, host'.slots.get id =
      { name, type := .gameObject, kind := .reserved, isThis := true } := by
  rcases h.slots.new id hge hid with ⟨k, x, hx, hno, rfl⟩ | ⟨hnone, hthis⟩
  · obtain ⟨hk, rfl⟩ := SlotTable.get_of_getElem? hx
    exact .inl ⟨k, hk, hno, rfl, (h.copy_get hk hno).2.2⟩
  · exact .inr (h.slots.this_new id hnone hthis).2.2

lemma enlarges (hsub : sub.Tidy) (hunwatched : sub.Unwatched) : host.Enlarges host' where
  slots := h.slots.within
  returns slot hslot := by
    rcases h.returns hslot with hslot | ⟨x, hx, rfl⟩
    · exact .inl hslot
    · obtain ⟨hlt, -, -, hthis, -⟩ := hsub.returns x hx
      exact .inr (h.copy_get hlt hthis).1
  callee name slot hc := by
    obtain ⟨m, hm, hname⟩ := hc
    refine ⟨m, ?_, hname⟩
    rw [h.methods, Array.toList_append]
    exact List.mem_append_left _ hm
  entry name hentry := by
    rw [hasEntry_iff] at hentry ⊢
    rw [h.roster]
    exact List.mem_append_left _ hentry
  shadow id hge hid := by
    rcases h.new_get hid hge with ⟨k, hk, -, -, hget⟩ | ⟨name, hget⟩
    · rw [hget]
      exact congrArg (Option.map r.slot) (hunwatched k hk)
    · rw [hget]

lemma callee {name : String} {slot : SlotId} (hc : sub.Callee name slot) :
    host'.Callee (r.namePrefix ++ name) (r.slot slot) := by
  obtain ⟨m, hm, rfl, hepilogue⟩ := hc
  refine ⟨r.methodDef m, ?_, rfl, ?_⟩
  · rw [h.methods, Array.toList_append, Array.toList_map]
    exact List.mem_append_right _ (List.mem_map_of_mem hm)
  · change r.epilogue m.epilogue = _
    rw [hepilogue]
    rfl

end

lemma value_ne_address {v : Value} (hv : ∀ x, v ≠ .address x) (x : Address) :
    r.value v ≠ .address x := by
  intro hx
  rcases Renaming.value_eq_address hx with ⟨l, hl, -⟩ | ⟨name, hname, -⟩
  · exact hv _ hl
  · exact hv _ hname

section

variable (h : Merged host sub r host') (howns : host.slots.Owns) (hhost : host.Tidy)
  (hsub : sub.Tidy)

include h howns hhost hsub

/-- The running object of the merged program is no slot that a method returns through. -/
lemma this_ne_returns (hid : host'.slots.this = some id) : ¬ host'.Returns id := by
  intro hr
  have hthis := (h.slots.owns howns id hid).2
  rcases h.returns hr with hr | ⟨x, hx, rfl⟩
  · obtain ⟨hlt, -, -, hno, -⟩ := hhost.returns id hr
    rw [h.slots.within.get_eq hlt, hno] at hthis
    cases hthis
  · obtain ⟨hlt, -, -, hno, -⟩ := hsub.returns x hx
    rw [(h.copy_get hlt hno).2.2] at hthis
    change (sub.slots.get x).isThis = true at hthis
    rw [hno] at hthis
    cases hthis

section

variable (hhostTable : host.slots.Sound)
include hhostTable

/-- Merged slots are as clean as those of the group. -/
lemma clean (hid : sub.Clean id) : host'.Clean (r.slot id) := by
  cases hthis : (sub.slots.get id).isThis with
  | true =>
    have hown := h.slots.this id _ (SlotTable.slots_getElem? hid.lt) hthis
    obtain ⟨hlt, hthis'⟩ := h.slots.owns howns _ hown
    refine ⟨hlt, h.this_ne_returns howns hhost hsub hown, fun x hx => ?_⟩
    cases hbefore : host.slots.this with
    | some old =>
      have hsame : r.slot id = old :=
        Option.some.inj (hown.symm.trans (h.slots.this_keeps old hbefore))
      obtain ⟨hold, holdThis⟩ := howns old hbefore
      rw [hsame, h.slots.within.get_eq hold] at hx
      have hkind := hhost.address old hold x hx
      rw [hhostTable.this_kind old hold holdThis] at hkind
      cases hkind
    | none =>
      obtain ⟨-, -, name, hget⟩ := h.slots.this_new _ hbefore hown
      rw [hget] at hx
      cases hx
  | false =>
    obtain ⟨hge, hlt, hget⟩ := h.copy_get hid.lt hthis
    refine ⟨hlt, fun hr => ?_, fun x hx => ?_⟩
    · rcases h.returns hr with hr | ⟨y, hy, hsame⟩
      · exact absurd (hhost.returns _ hr).lt (Nat.not_lt.mpr hge)
      · obtain ⟨hylt, -, -, hyno, -⟩ := hsub.returns y hy
        have heq := h.slots.injective y id _ _ (SlotTable.slots_getElem? hylt)
          (SlotTable.slots_getElem? hid.lt) hyno hthis hsame
        exact hid.returns (heq ▸ hy)
    · rw [hget] at hx
      obtain ⟨v, hv, hx⟩ := Option.map_eq_some_iff.mp hx
      refine value_ne_address (fun y hy => hid.address y ?_) x hx
      rw [hv, hy]

/-- Merged slots are as plain as those of the group. -/
lemma isPlain (hid : sub.Plain id) : host'.Plain (r.slot id) := by
  obtain ⟨-, -, hget⟩ := h.copy_get hid.clean.lt hid.writable.isThis
  refine ⟨h.clean howns hhost hsub hhostTable hid.clean, ⟨?_, ?_⟩, ?_⟩
  all_goals first | rw [hget] | rw [Quiet, hget]
  · exact hid.writable.kind
  · exact hid.writable.isThis
  · exact hid.quiet.imp (fun hno => hno) fun hnone : (sub.slots.get id).shadow = none =>
      congrArg (Option.map r.slot) hnone

/-- Merged slots are as open as those of the group. -/
lemma isOpen (hid : sub.Open id) : host'.Open (r.slot id) where
  toPlain := h.isPlain howns hhost hsub hhostTable hid.toPlain
  unsynced := by
    rw [(h.copy_get hid.clean.lt hid.writable.isThis).2.2]
    exact hid.unsynced

omit hhost hsub in
/-- A renamed method sends what the method of the group sends. -/
lemma sends (hk : k < sub.methods.size) (hid : id < sub.slots.size) (hsends : sub.Sends k id) :
    host'.Sends (host.methods.size + k) (r.slot id) := by
  intro hsync
  rw [h.method_sub hk]
  cases hthis : (sub.slots.get id).isThis with
  | false =>
    rw [(h.copy_get hid hthis).2.2] at hsync
    exact hsends hsync
  | true =>
    -- the running object is not synchronized
    have hown := h.slots.this id _ (SlotTable.slots_getElem? hid) hthis
    cases hbefore : host.slots.this with
    | some old =>
      have hsame := Option.some.inj (hown.symm.trans (h.slots.this_keeps old hbefore))
      obtain ⟨hold, holdThis⟩ := howns old hbefore
      rw [hsame, h.slots.within.get_eq hold, unsynced_of_kind hhostTable hold (by
        simp [hhostTable.this_kind old hold holdThis])] at hsync
      cases hsync
    | none =>
      obtain ⟨-, -, name, hget⟩ := h.slots.this_new _ hbefore hown
      rw [hget] at hsync
      cases hsync

end

omit howns in
/-- The merged program is tidy. -/
lemma tidy (hunwatched : sub.Unwatched) : host'.Tidy := by
  refine ⟨fun slot hslot => ?_, fun id hid x hx => ?_, fun id hid sh hsh => ?_,
    fun id hid hthis => ?_⟩
  · rcases h.returns hslot with hslot | ⟨x, hx, rfl⟩
    · obtain ⟨hlt, hkind, htype, hthis, hinitial⟩ := hhost.returns slot hslot
      have hget := h.slots.within.get_eq hlt
      exact ⟨hlt.trans_le h.slots.within.size_le, hget ▸ hkind, hget ▸ htype, hget ▸ hthis,
        hget ▸ hinitial⟩
    · obtain ⟨hlt, hkind, htype, hno, hinitial⟩ := hsub.returns x hx
      obtain ⟨-, hlt', hget⟩ := h.copy_get hlt hno
      refine ⟨hlt', ?_, ?_, ?_, ?_⟩
      all_goals rw [hget]
      · exact hkind
      · exact htype
      · exact hno
      · exact congrArg (Option.map r.value) hinitial
  · by_cases hlt : id < host.slots.size
    · rw [h.slots.within.get_eq hlt] at hx ⊢
      exact hhost.address id hlt x hx
    · rcases h.new_get hid (Nat.le_of_not_lt hlt) with ⟨k, hk, -, -, hget⟩ | ⟨name, hget⟩
      · rw [hget] at hx ⊢
        obtain ⟨v, hv, hx⟩ := Option.map_eq_some_iff.mp hx
        obtain ⟨l, rfl, -⟩ | ⟨name, rfl, -⟩ := Renaming.value_eq_address hx
        all_goals exact hsub.address k hk _ hv
      · rw [hget] at hx
        cases hx
  · by_cases hlt : id < host.slots.size
    · rw [h.slots.within.get_eq hlt] at hsh
      obtain ⟨hsize, hno⟩ := hhost.shadow id hlt sh hsh
      refine ⟨hsize.trans_le h.slots.within.size_le, fun hr => ?_⟩
      exact ((h.enlarges hsub hunwatched).returns sh hr).elim hno fun hge =>
        absurd hsize (Nat.not_lt.mpr hge)
    · rw [(h.enlarges hsub hunwatched).shadow id (Nat.le_of_not_lt hlt) hid] at hsh
      cases hsh
  · by_cases hlt : id < host.slots.size
    · rw [h.slots.within.get_eq hlt] at hthis ⊢
      exact hhost.this id hlt hthis
    · rcases h.new_get hid (Nat.le_of_not_lt hlt) with ⟨k, -, hno, -, hget⟩ | ⟨name, hget⟩
      · rw [hget] at hthis
        exact absurd (hthis.symm.trans hno) (by simp)
      · rw [hget]

/-- What the terms of a method allow, the terms of the renamed method allow of the renamed. -/
lemma renames (hhostTable : host.slots.Sound) (hsubTable : sub.slots.Sound)
    (hunwatched : sub.Unwatched) (hinternal : sub.Internal) (hk : k < sub.methods.size)
    {target target' : InstrId → Prop}
    (htarget : ∀ l, target l → target' (r.instrId l)) :
    (sub.terms R.free k target).Renames r
      (host'.terms R.free (host.methods.size + k) target') where
  clean _ hid := h.clean howns hhost hsub hhostTable hid
  writable _ hid hw := ⟨fun hs => h.isPlain howns hhost hsub hhostTable (hw.1 hs),
    h.sends howns hhostTable hk hid.lt hw.2⟩
  watched w hid hw := by
    have hno := hunwatched w.id hid.lt
    rw [hw.1.shadow] at hno
    cases hno
  calls _ _ hc := hc
  summons _ _ hs := by
    obtain ⟨_, _, _, -, -, -, hentry⟩ := hs
    exact absurd hentry hinternal.not_hasEntry
  target := htarget
  callee name slot hc := by
    have hmem := Callee.mem_names hc.1
    rw [Renaming.method, h.names, if_pos (by simpa using hmem)]
    exact ⟨h.callee hc.1, trivial⟩
  addresses id l ha := by
    have hno : (sub.slots.get id).isThis = false := by
      by_contra hthis
      have hkind := hsubTable.this_kind id ha.lt (by simpa using hthis)
      rw [ha.kind] at hkind
      cases hkind
    obtain ⟨-, hlt, hget⟩ := h.copy_get ha.lt hno
    refine ⟨hlt, ?_, ?_, ?_⟩
    all_goals rw [hget]
    · exact ha.kind
    · exact ha.type_eq
    · change (sub.slots.get id).initial.map r.value = _
      rw [ha.initial]
      rfl

omit howns hhost hsub in
lemma lines_sub (hk : k < sub.methods.size) :
    host'.lines (host.methods.size + k) = (sub.lines k).map r.line := by
  unfold lines
  rw [h.method_sub hk]
  simp only [Renaming.methodDef, Array.toList_map, List.map_map]
  refine List.map_congr_left fun id _ => ?_
  simp only [Function.comp_apply, line, h.instr_sub]
  cases sub.instr id
  all_goals rfl

omit howns hhost hsub in
lemma own_sub (hk : k < sub.methods.size) {l : InstrId} (hl : sub.Own k l) :
    host'.Own (host.methods.size + k) (r.instrId l) := by
  have hmethod := h.method_sub hk
  rcases hl with hl | hl
  · refine .inl ⟨?_, ?_⟩
    · rw [hmethod]
      simp only [Renaming.methodDef, Array.toList_map]
      exact List.mem_map_of_mem hl.mem
    · rw [h.instr_sub, hl.nop]
      rfl
  · right
    rw [hmethod]
    simp only [Renaming.methodDef, hl]
    rfl

/-- The methods that come from the group are in phrases. -/
lemma spelled_sub (hhostTable : host.slots.Sound) (hsubTable : sub.slots.Sound)
    (hunwatched : sub.Unwatched) (hinternal : sub.Internal)
    (hspelled : ∀ k < sub.methods.size, sub.Spelled R k) (hge : host.methods.size ≤ k)
    (hk : k < host'.methods.size) : host'.Spelled R k := by
  obtain ⟨j, rfl⟩ := Nat.exists_eq_add_of_le hge
  have hj : j < sub.methods.size := by
    rw [h.size_methods] at hk
    exact Nat.lt_of_add_lt_add_left hk
  unfold Spelled
  rw [h.lines_sub hj]
  exact (hspelled j hj).rename
    (h.renames howns hhost hsub hhostTable hsubTable hunwatched hinternal hj
      fun _ hl => h.own_sub hj hl)

end

end Merged

end Program

end TriggerCompiler
