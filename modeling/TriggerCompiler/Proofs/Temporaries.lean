import Mathlib
import TriggerCompiler.Proofs.Compile
import TriggerCompiler.Proofs.Linked

/-!
# Temporaries

A compile asks for temporaries in many places, and each of them is at any time in one of three: in
the pool of its type, in the list of a block that returns it at its end, or with the action that is
being lowered. Here the books are kept over a whole compile. A temporary that was asked for is known
by its name, since those that come with a merged group have a longer one.
-/

namespace TriggerCompiler

variable {name : String}

namespace SlotTable

variable {t u : SlotTable} {temps used : List SlotId} {id x : SlotId} {slot : Slot}

/-! ## Names of temporaries -/

lemma count_underscore_toString (n : Nat) : (toString n).toList.count '_' = 0 := by
  rw [Nat.toString_eq_ofList_toDigits, String.toList_ofList]
  exact List.count_eq_zero_of_not_mem Nat.underscore_not_in_toDigits

/-- Nothing that holds an underscore can stand before the name of a temporary to give another. -/
lemma prepend_temporaryName_ne {before : String} (h : '_' ∈ before.toList) (type : ValueType)
    (i j : Nat) : before ++ temporaryName type i ≠ temporaryName type j := by
  intro heq
  have hcount := congrArg (fun s : String => s.toList.count '_') heq
  simp only [temporaryName, String.toList_append, List.count_append, count_underscore_toString]
    at hcount
  have hpos := List.count_pos_iff.mpr h
  omega

/-- The slot is a temporary that was asked for, and not one that came with a merged group. -/
def Requested (t : SlotTable) (id : SlotId) : Prop :=
  id < t.size ∧ (t.get id).kind = .temporary ∧
    ∃ index, (t.get id).name = temporaryName (t.get id).type index

/-- Every temporary has the name of one, maybe with the prefixes of merges before it. -/
def NamesTemporaries (t : SlotTable) : Prop :=
  ∀ id < t.size, (t.get id).kind = .temporary →
    ∃ before index, (t.get id).name = before ++ temporaryName (t.get id).type index

lemma requested_iff_of_within (h : t.Within u) (hid : id < t.size) :
    u.Requested id ↔ t.Requested id := by
  unfold Requested
  rw [h.get_eq hid]
  exact and_congr_left fun _ => ⟨fun _ => hid, fun _ => hid.trans_le h.size_le⟩

/-! ## Books -/

/-- The books of a table with some temporaries in use: what is in the pool or in use are exactly the
temporaries that were asked for. -/
structure Books (t : SlotTable) (temps : List SlotId) : Prop where
  exact : ∀ x, x ∈ t.free.map Prod.snd ++ temps ↔ t.Requested x
  names : t.NamesTemporaries

lemma books_of_no_temporary (hfree : t.free = [])
    (h : ∀ x ∈ t.slots.toList, x.kind ≠ .temporary) : t.Books [] := by
  have hkind : ∀ id < t.size, (t.get id).kind ≠ .temporary := fun id hid =>
    h _ (List.mem_of_getElem? (slots_getElem? hid))
  refine ⟨fun x => ?_, fun id hid htemp => absurd htemp (hkind id hid)⟩
  rw [hfree]
  exact ⟨fun hx => absurd hx (by simp), fun hx => absurd hx.2.1 (hkind x hx.1)⟩

section

variable (h : t.Books temps)
include h

/-- What a table gets in addition keeps the books if no new slot is asked for but those that are
taken into account. -/
lemma Books.of_new (hw : t.Within u)
    (haccounts : ∀ x, x ∈ u.free.map Prod.snd ++ used ↔ x ∈ t.free.map Prod.snd ++ temps ∨
      (t.size ≤ x ∧ u.Requested x))
    (hnames : ∀ x, t.size ≤ x → x < u.size → (u.get x).kind = .temporary →
      ∃ before index, (u.get x).name = before ++ temporaryName (u.get x).type index) :
    u.Books used := by
  refine ⟨fun x => ?_, fun x hx hkind => ?_⟩
  · rw [haccounts x, h.exact x]
    constructor
    · rintro (hx | hx)
      · exact (requested_iff_of_within hw hx.1).mpr hx
      · exact hx.2
    · intro hx
      by_cases hlt : x < t.size
      · exact .inl ((requested_iff_of_within hw hlt).mp hx)
      · exact .inr ⟨Nat.le_of_not_lt hlt, hx⟩
  · by_cases hlt : x < t.size
    · rw [hw.get_eq hlt] at hkind ⊢
      exact h.names x hlt hkind
    · exact hnames x (Nat.le_of_not_lt hlt) hx hkind

/-- Slots that the compiler makes for itself. -/
lemma Books.makes (hw : t.Within u) (hmakes : t.Makes u) (haccounts : t.Accounts temps u used) :
    u.Books used := by
  refine h.of_new hw (fun x => (haccounts x).trans (or_congr_right ?_)) fun x hge hlt hkind => ?_
  · exact and_congr_right fun hge => ⟨fun hx => ⟨hx.1, hx.2, (hmakes x hge hx.1).temporary hx.2⟩,
      fun hx => ⟨hx.1, hx.2.1⟩⟩
  · obtain ⟨index, hname⟩ := (hmakes x hge hlt).temporary hkind
    exact ⟨"", index, by rw [hname, String.empty_append]⟩

/-- Slots of which none is a temporary. -/
lemma Books.other (hw : t.Within u) (hfree : u.free = t.free)
    (hkind : ∀ x, t.size ≤ x → x < u.size → (u.get x).kind ≠ .temporary) : u.Books temps := by
  refine h.of_new hw (fun x => ?_) fun x hge hlt htemp => absurd htemp (hkind x hge hlt)
  rw [hfree]
  exact ⟨.inl, fun hx => hx.elim (fun hx => hx) fun hx => absurd hx.2.2.1 (hkind x hx.1 hx.2.1)⟩

lemma Books.push (hkind : slot.kind ≠ .temporary) : (t.push slot).2.Books temps := by
  refine h.other (within_push t slot) rfl fun x hge hlt => ?_
  rw [size_push] at hlt
  rw [le_antisymm (Nat.le_of_lt_succ hlt) hge, get_push_self]
  exact hkind

lemma Books.declare {type : ValueType} {kind : SlotKind} (hkind : kind ≠ .temporary)
    (hrun : t.declare name type kind = .ok (id, u)) :
    u.Books temps := by
  obtain ⟨-, -, rfl⟩ := insert_eq_ok hrun
  exact h.push hkind

lemma Books.reserved {type : ValueType} (hrun : t.reserved name type = .ok (id, u)) :
    u.Books temps := by
  unfold SlotTable.reserved at hrun
  split at hrun
  · dsimp only at hrun
    split_ifs at hrun
    obtain ⟨-, rfl⟩ := Prod.mk.inj (Except.ok.inj hrun)
    exact h
  · exact h.declare (by simp) hrun

/-- Slots that a merge brings along: the prefix tells its temporaries from those asked for. -/
lemma Books.lands {r : Renaming} {l : List Slot} (hl : r.Lands r.copy l t u)
    (hsub : ∀ y ∈ l, y.kind = .temporary →
      ∃ before index, y.name = before ++ temporaryName y.type index)
    (hmark : '_' ∈ r.namePrefix.toList) : u.Books temps := by
  have hnew : ∀ x, t.size ≤ x → x < u.size → (u.get x).kind = .temporary →
      ∃ before index, '_' ∈ before.toList ∧
        (u.get x).name = before ++ temporaryName (u.get x).type index := by
    intro x hge hlt hkind
    rcases hl.new x hge hlt with ⟨k, y, hy, hthis, rfl⟩ | ⟨hnone, hsome⟩
    · obtain ⟨-, -, hget⟩ := hl.fresh k y hy hthis
      rw [hget] at hkind ⊢
      obtain ⟨before, index, hname⟩ := hsub y (List.mem_of_getElem? hy) hkind
      refine ⟨r.namePrefix ++ before, index, ?_, ?_⟩
      · rw [String.toList_append]
        exact List.mem_append_left _ hmark
      · change r.namePrefix ++ y.name = _
        rw [hname, String.append_assoc]
        rfl
    · obtain ⟨-, -, name, hget⟩ := hl.this_new x hnone hsome
      rw [hget] at hkind
      cases hkind
  refine h.of_new hl.within (fun x => ?_) fun x hge hlt hkind => ?_
  · rw [hl.free]
    refine ⟨.inl, fun hx => hx.elim (fun hx => hx) ?_⟩
    rintro ⟨hge, hlt, hkind, j, hname⟩
    obtain ⟨before, i, hbefore, hname'⟩ := hnew x hge hlt hkind
    exact absurd (hname'.symm.trans hname) (prepend_temporaryName_ne hbefore _ i j)
  · obtain ⟨before, index, -, hname⟩ := hnew x hge hlt hkind
    exact ⟨before, index, hname⟩

end

end SlotTable

/-! ## Moves -/

/-- The temporaries of every group have names of temporaries. -/
def Registry.NamesTemporaries (r : Registry) : Prop :=
  ∀ e ∈ r.groups, e.2.program.slots.NamesTemporaries

/-- The state's books: the temporaries in the pool, in open blocks and with the current action are
those that were asked for. -/
def LowerState.Books (s : LowerState) : Prop := s.program.slots.Books s.site.temps

lemma Site.Works.books {a b : Site} {m : MethodId} (h : a.Works m b)
    (hbooks : a.program.slots.Books a.temps) : b.program.slots.Books b.temps :=
  hbooks.makes h.grows.slots h.makes h.accounts

namespace Lower

variable {s t u : LowerState} {env : Environment} {agenda : Agenda} {d : ActionDef} {a : Action}

lemma Merges.books {guid : String} {table : MergeTable} (h : Merges env s guid table t)
    (henv : env.registry.NamesTemporaries) (hs : s.Books) : t.Books := by
  cases h with
  | before known => exact hs
  | @now group r host unknown found merged entries methods renamed =>
    refine SlotTable.Books.lands hs merged.slots (fun y hy hkind => ?_) ?_
    · obtain ⟨id, hget⟩ := List.mem_iff_getElem?.mp hy
      obtain ⟨hid, rfl⟩ := SlotTable.get_of_getElem? hget
      exact henv _ (mem_of_lookup found) id hid hkind
    · rw [renamed, String.toList_append]
      exact List.mem_append_right _ (by decide)

lemma Lowered.books (h : Lowered env d a s t) (henv : env.registry.NamesTemporaries)
    (hs : s.Books) : t.Books := by
  cases h with
  | statement _ _ _ prepares _ emits _ => exact emits.adds.books (prepares.adds.books hs)
  | call _ prepares _ emits _ _ => exact emits.adds.books (prepares.adds.books hs)
  | group _ prepares _ calls =>
    obtain ⟨merges, -, -, -, -, speaks, -⟩ := calls
    exact speaks.adds.books (merges.books henv (prepares.adds.books hs))
  | opener _ _ prepares _ _ block => exact block.works.books (prepares.adds.books hs)
  | closer _ _ _ closes => exact closes.works.books hs

lemma Step.books (h : Step env agenda s t) (henv : env.registry.NamesTemporaries) (hs : s.Books) :
    t.Books := by
  cases h with
  | turn | previous | opens | entry => exact hs
  | input _ _ _ reserved => exact SlotTable.Books.reserved hs reserved
  | parameter _ _ declared => exact SlotTable.Books.declare hs (by simp) declared
  | callee _ _ _ declared => exact SlotTable.Books.declare hs (by simp) declared
  | preamble _ _ emits _ => exact emits.adds.books hs
  | action _ _ _ _ lowered _ settles _ _ => exact settles.adds.books (lowered.books henv hs)
  | closes _ ends => exact ends.adds.books hs

lemma Move.books (h : Move env agenda s t) (henv : env.registry.NamesTemporaries) (hs : s.Books) :
    t.Books := by
  cases h with
  | step h => exact h.books henv hs
  | skips _ _ skipped _ => exact skipped.settles.adds.books (skipped.prepares.adds.books hs)
  | omits => exact hs

/-- The books are kept over any part of a compile. -/
lemma Moves.books (h : Moves env agenda s t) (henv : env.registry.NamesTemporaries) (hs : s.Books) :
    t.Books := by
  induction h with
  | refl => exact hs
  | tail _ hmove ih => exact hmove.books henv ih

lemma books_declared {table : SlotTable} {decls : List VariableDecl} (h : table.Declares decls)
    (warnings : Array Warning) : (declared table warnings).Books :=
  SlotTable.books_of_no_temporary h.free h.kinds

end Lower

/-! ## Locals -/

/-- The locals in sight are those that open blocks declare, and each is a temporary of its block. -/
structure LowerState.Anchored (s : LowerState) : Prop where
  ids : s.locals.map Prod.fst = s.scopes.frames.flatMap fun f => f.localIds.reverse
  nodup : (s.locals.map Prod.fst).Nodup
  owned : ∀ e ∈ s.locals, ∃ f ∈ s.scopes.frames, e.1 ∈ f.localIds ∧ e.2 ∈ f.owned

namespace Lower

variable {s t u : LowerState} {env : Environment} {d : ActionDef} {a : Action} {f g : Frame}
  {rest : List Frame}

/-- Blocks may change, and one without locals may come on top. -/
lemma anchored_of_frames (h : s.Anchored) (hlocals : t.locals = s.locals)
    (hids : (t.scopes.frames.flatMap fun f => f.localIds.reverse) =
      s.scopes.frames.flatMap fun f => f.localIds.reverse)
    (howned : ∀ f ∈ s.scopes.frames, ∃ g ∈ t.scopes.frames, g.localIds = f.localIds ∧
      g.owned = f.owned) : t.Anchored := by
  refine ⟨?_, hlocals ▸ h.nodup, fun e he => ?_⟩
  · rw [hlocals, hids]
    exact h.ids
  · rw [hlocals] at he
    obtain ⟨f, hf, hid, hslot⟩ := h.owned e he
    obtain ⟨g, hg, hlocal, hsame⟩ := howned f hf
    exact ⟨g, hg, hlocal ▸ hid, hsame ▸ hslot⟩

/-- No two locals in sight have the same id. -/
lemma Prepares.nodup_locals (h : Prepares s t) (hs : (s.locals.map Prod.fst).Nodup) :
    (t.locals.map Prod.fst).Nodup := by
  obtain ⟨f, rest, new, -, -, hlocals, hnodup, hnew⟩ := h.locals
  have hdisjoint : ∀ x ∈ new.map Prod.fst, x ∉ s.locals.map Prod.fst := by
    intro x hx hmem
    obtain ⟨e, he, rfl⟩ := List.mem_map.mp hx
    obtain ⟨e', he', heq⟩ := List.mem_map.mp hmem
    have hnone := List.lookup_eq_none_iff.mp (hnew e he) e' he'
    simp [heq] at hnone
  rw [hlocals, List.map_append, List.map_reverse]
  refine List.nodup_append'.mpr ⟨List.nodup_reverse.mpr hnodup, hs, ?_⟩
  intro x hx hx'
  exact hdisjoint x (List.mem_reverse.mp hx) hx'

lemma Prepares.anchored (h : Prepares s t) (hs : s.Anchored) : t.Anchored := by
  obtain ⟨f, rest, new, hf, hf', hlocals, -, -⟩ := h.locals
  have hids : t.locals.map Prod.fst = t.scopes.frames.flatMap fun f => f.localIds.reverse := by
    have hbefore := hs.ids
    rw [hf] at hbefore
    rw [hlocals, hf', List.map_append, hbefore]
    simp [Frame.declare]
  refine ⟨hids, h.nodup_locals hs.nodup, fun e he => ?_⟩
  rw [hf']
  rw [hlocals, List.mem_append, List.mem_reverse] at he
  rcases he with he | he
  · refine ⟨_, List.mem_cons_self, ?_, ?_⟩
    · exact List.mem_append_right _ (List.mem_map_of_mem he)
    · exact List.mem_append_right _ (List.mem_map_of_mem he)
  · obtain ⟨g, hg, hid, hslot⟩ := hs.owned e he
    rw [hf] at hg
    rcases List.mem_cons.mp hg with rfl | hg
    · exact ⟨_, List.mem_cons_self, List.mem_append_left _ hid, List.mem_append_left _ hslot⟩
    · exact ⟨g, List.mem_cons_of_mem _ hg, hid, hslot⟩

lemma Emits.anchored {code : List Line} (h : Emits s code t) (hs : s.Anchored) : t.Anchored := by
  have hlocals : t.locals = s.locals := by rw [h.state]; rfl
  have hfills : ∀ {l l' : List Frame}, List.Forall₂ Frame.Fills l l' →
      ((l'.flatMap fun f => f.localIds.reverse) = l.flatMap fun f => f.localIds.reverse) ∧
      ∀ f ∈ l, ∃ g ∈ l', g.localIds = f.localIds ∧ g.owned = f.owned := by
    intro l l' hl
    induction hl with
    | nil => exact ⟨rfl, by simp⟩
    | @cons f g l l' hfg _ ih =>
      have hids : g.localIds = f.localIds := by rw [hfg.same]
      have howned : g.owned = f.owned := by rw [hfg.same]
      refine ⟨by rw [List.flatMap_cons, List.flatMap_cons, hids, ih.1], fun x hx => ?_⟩
      rcases List.mem_cons.mp hx with rfl | hx
      · exact ⟨g, List.mem_cons_self, hids, howned⟩
      · obtain ⟨y, hy, hsame⟩ := ih.2 x hx
        exact ⟨y, List.mem_cons_of_mem _ hy, hsame⟩
  obtain ⟨hids, howned⟩ := hfills h.frames
  exact anchored_of_frames hs hlocals hids howned

/-- A block without locals is opened inside another one. -/
lemma anchored_push (hs : s.Anchored) (hlocals : t.locals = s.locals)
    (hf : s.scopes.frames = f :: rest) {f' : Frame} (ht : t.scopes.frames = g :: f' :: rest)
    (hg : g.localIds = []) (hids : f'.localIds = f.localIds) (howned : f'.owned = f.owned) :
    t.Anchored := by
  refine anchored_of_frames hs hlocals ?_ fun x hx => ?_
  · rw [ht, hf]
    simp [hg, hids]
  · rw [hf] at hx
    rw [ht]
    rcases List.mem_cons.mp hx with rfl | hx
    · exact ⟨f', by simp, hids, howned⟩
    · exact ⟨x, by simp [hx], rfl, rfl⟩

/-- A block that opens declares nothing, and the block around it keeps what it has. -/
lemma OpensBlock.localIds {c : Construct} {r : BoundAction} (h : OpensBlock s f c r t)
    (hf : s.scopes.frames = f :: rest) : ∃ g f', t.scopes.frames = g :: f' :: rest ∧
      g.localIds = [] ∧ f'.localIds = f.localIds ∧ f'.owned = f.owned := by
  have hopens : ∀ {code : List Line} {g f' : Frame}, Opens s code g f' t → g.localIds = [] →
      f'.localIds = f.localIds → f'.owned = f.owned → ∃ g f', t.scopes.frames = g :: f' :: rest ∧
        g.localIds = [] ∧ f'.localIds = f.localIds ∧ f'.owned = f.owned := by
    intro code g f' h hg hids howned
    obtain ⟨f₀, rest₀, hf₀, hframes⟩ := h.frames
    obtain ⟨rfl, rfl⟩ := List.cons.inj (hf.symm.trans hf₀)
    exact ⟨g, f', hframes, hg, hids, howned⟩
  unfold OpensBlock at h
  dsimp only at h
  split at h
  · exact hopens h rfl rfl rfl
  · exact hopens h rfl rfl rfl
  · obtain ⟨closed, l, skip, -, h⟩ := h
    exact ⟨_, f, h.frames.trans (by rw [hf]), rfl, rfl, rfl⟩
  · obtain ⟨closed, l, skip, -, h⟩ := h
    exact ⟨_, f, h.frames.trans (by rw [hf]), rfl, rfl, rfl⟩
  · obtain ⟨result, l, no, -, h⟩ := h
    exact hopens h rfl rfl rfl
  · obtain ⟨l, -, h⟩ := h
    exact hopens h rfl rfl rfl
  · obtain ⟨l, h⟩ := h
    exact hopens h rfl rfl rfl
  · obtain ⟨code, x, again, leave, kept, -, -, -, h⟩ := h
    exact hopens h rfl rfl rfl
  · exact h.elim

lemma OpensBlock.anchored {c : Construct} {r : BoundAction} (h : OpensBlock s f c r t)
    (hs : s.Anchored) (hf : s.scopes.frames = f :: rest) : t.Anchored := by
  obtain ⟨g, f', hframes, hg, hids, howned⟩ := h.localIds hf
  obtain ⟨-, -, -, -, -, -, -, hstate⟩ := h.frames hf
  exact anchored_push hs (by rw [hstate]; rfl) hf hframes hg hids howned

/-- With a block its locals go out of sight, and no others. -/
lemma anchored_close (frames : List Frame) (hs : s.Anchored) (hf : s.scopes.frames = g :: rest)
    (ht : t.scopes.frames = frames)
    (hlocals : t.locals = s.locals.filter fun (id, _) => id ∉ g.localIds)
    (hids : (frames.flatMap fun f => f.localIds.reverse) = rest.flatMap fun f => f.localIds.reverse)
    (howned : ∀ f ∈ rest, ∃ f' ∈ frames, f'.localIds = f.localIds ∧ f'.owned = f.owned) :
    t.Anchored := by
  have hbefore := hs.ids
  rw [hf, List.flatMap_cons] at hbefore
  have hnodup := hs.nodup
  rw [hbefore] at hnodup
  have hdisjoint := (List.nodup_append'.mp hnodup).2.2
  have hkept : (s.locals.filter fun e => e.1 ∉ g.localIds).map Prod.fst =
      rest.flatMap fun f => f.localIds.reverse := by
    have hmap : (s.locals.filter fun e => e.1 ∉ g.localIds).map Prod.fst =
        (s.locals.map Prod.fst).filter fun id => id ∉ g.localIds := by
      rw [List.filter_map]
      rfl
    rw [hmap, hbefore, List.filter_append]
    have hgone : g.localIds.reverse.filter (fun id => id ∉ g.localIds) = [] := by
      rw [List.filter_eq_nil_iff]
      intro x hx
      simpa using hx
    have hstay : (rest.flatMap fun f => f.localIds.reverse).filter (fun id => id ∉ g.localIds) =
        rest.flatMap fun f => f.localIds.reverse := by
      rw [List.filter_eq_self]
      intro x hx
      have hnot : x ∉ g.localIds := fun hmem => hdisjoint (List.mem_reverse.mpr hmem) hx
      simpa using hnot
    rw [hgone, hstay, List.nil_append]
  refine ⟨?_, ?_, fun e he => ?_⟩
  · rw [hlocals, ht, hids]
    exact hkept
  · rw [hlocals]
    exact hs.nodup.sublist (List.filter_sublist.map Prod.fst)
  · rw [hlocals] at he
    obtain ⟨hmem, hnot⟩ := List.mem_filter.mp he
    obtain ⟨x, hx, hid, hslot⟩ := hs.owned e hmem
    rw [hf] at hx
    rcases List.mem_cons.mp hx with rfl | hx
    · exact absurd hid (by simpa using hnot)
    · obtain ⟨f', hf', hlocal, hsame⟩ := howned x hx
      exact ⟨f', ht ▸ hf', hlocal ▸ hid, hsame ▸ hslot⟩

lemma Closes.anchored {g' : Frame} (h : Closes s g' f rest t) (hs : s.Anchored)
    (hf : s.scopes.frames = g :: f :: rest) (hfills : g.Fills g') : t.Anchored := by
  have hids : g'.localIds = g.localIds := by rw [hfills.same]
  refine anchored_close (f.after g' :: rest) hs hf (by rw [h.state]; rfl) (by rw [h.state, hids]) rfl
    fun x hx => ?_
  rcases List.mem_cons.mp hx with rfl | hx
  · exact ⟨x.after g', List.mem_cons_self, rfl, rfl⟩
  · exact ⟨x, List.mem_cons_of_mem _ hx, rfl, rfl⟩

lemma Settles.anchored (h : Settles u d t) (hu : u.Anchored) : t.Anchored := by
  have hlocals : t.locals = u.locals := by rw [h.state]
  cases hf : u.scopes.frames with
  | nil =>
    have ht : t.scopes.frames = [] := by
      rw [h.state]
      unfold remember ScopeStack.modifyCurrent
      split_ifs <;> simp [hf]
    exact anchored_of_frames hu hlocals (by rw [ht, hf]) (by simp [hf])
  | cons f rest =>
    have ht := h.frames_eq hf
    refine anchored_of_frames hu hlocals ?_ fun x hx => ?_
    · rw [ht, hf]
      split_ifs <;> rfl
    · rw [hf] at hx
      rw [ht]
      rcases List.mem_cons.mp hx with rfl | hx
      · refine ⟨_, List.mem_cons_self, ?_⟩
        split_ifs <;> exact ⟨rfl, rfl⟩
      · exact ⟨x, List.mem_cons_of_mem _ hx, rfl, rfl⟩

lemma Lowered.anchored (h : Lowered env d a s t) (hs : s.Anchored) : t.Anchored := by
  cases h with
  | statement _ _ _ prepares _ emits _ => exact emits.anchored (prepares.anchored hs)
  | call _ prepares _ emits _ _ => exact emits.anchored (prepares.anchored hs)
  | group _ prepares _ calls =>
    obtain ⟨p, warnings, merges, count, rfl⟩ := calls.expands.state
    exact { prepares.anchored hs with }
  | opener _ _ prepares _ frames block => exact block.anchored (prepares.anchored hs) frames
  | closer _ frames fills closes => exact closes.anchored hs frames fills

end Lower

/-! ## Registries -/

lemma Registry.Standard.namesTemporaries {r : Registry} (h : r.Standard) : r.NamesTemporaries := by
  induction h with
  | builtin =>
    unfold Registry.NamesTemporaries
    rw [Registry.builtin_groups]
    simp
  | event e _ ih => exact ih
  | call kind _ ih => exact ih
  | @group r home options g compiled notes origin document compile _ ihome ih =>
    intro e he
    rcases List.mem_cons.mp he with rfl | he
    · obtain ⟨entries, s, hrun, -, rfl⟩ := compileGroup_eq_ok compile
      obtain ⟨-, table, warnings, hdeclares, -, hcourse, -⟩ :=
        (Lower.assembleGroup_ensures (origin.sound options) document).ok hrun
      exact (hcourse.moves.books ihome (Lower.books_declared hdeclares warnings)).names
    · exact ih e he

/-! ## Where a compile passes -/

namespace Lower

variable {s t u : LowerState} {env : Environment}

/-- The compile of a trigger comes to the events of an exported name: its variables are declared, its
events are planned, and the names before this one are assembled. -/
inductive ReachesName (env : Environment) (t : Trigger) (name : String) (plans : List PlannedEvent)
    (s : LowerState) : Prop where
  | intro {all : List PlannedEvent} {before after : List String} {s₀ s₁ : LowerState}
      (declares : t.declarations.forM declareUser {} = .ok ⟨⟩ s₀)
      (planned : planEvents env 0 t.events s₀ = .ok all s₁)
      (names : (all.map (·.exported)).eraseDups = before ++ name :: after)
      (these : plans = all.filter (·.exported = name))
      (assembled : (before.forM fun n => assembleName env n (all.filter (·.exported = n))) s₁ =
        .ok ⟨⟩ s)

/-- The compile of a trigger comes to the body of an event, alone under its exported name or one of
several. -/
inductive ReachesBody (env : Environment) (t : Trigger) : List Action → LowerState → Prop where
  | alone {name : String} {plan : PlannedEvent} {method : MethodId} {s₁ s₂ s : LowerState}
      (reaches : ReachesName env t name [plan] s₁) (added : addMethod name .entry s₁ = .ok method s₂)
      (opened : openEvent plan method s₂ = .ok ⟨⟩ s) : ReachesBody env t plan.event.actions s
  | shared {name : String} {earlier later : List PlannedEvent} {plan : PlannedEvent}
      {exported method : MethodId} {s₁ s₂ s₃ s₄ s : LowerState}
      (reaches : ReachesName env t name (earlier ++ plan :: later) s₁)
      (several : earlier ++ later ≠ []) (added : addMethod name .entry s₁ = .ok exported s₂)
      (assembled : earlier.forM (assembleShared env exported) s₂ = .ok ⟨⟩ s₃)
      (called : openShared exported plan s₃ = .ok method s₄)
      (opened : openEvent plan method s₄ = .ok ⟨⟩ s) : ReachesBody env t plan.event.actions s

/-- The compile of a trigger is right after an action of a body, lowered or skipped. -/
inductive AfterAction (env : Environment) (t : Trigger) (s : LowerState) : Prop where
  | intro {before after : List Action} {a : Action} {u : LowerState}
      (reaches : ReachesBody env t (before ++ a :: after) u)
      (lowered : (do
        onScopes (·.push Frame.root)
        lowerActions env 0 (before ++ [a])) u = .ok ⟨⟩ s)

/-- The compile of a trigger is right after the body of an event. -/
inductive AfterBody (env : Environment) (t : Trigger) (s : LowerState) : Prop where
  | intro {actions : List Action} {u : LowerState} (reaches : ReachesBody env t actions u)
      (lowered : lowerBody env actions u = .ok ⟨⟩ s)

/-- What is known where a body starts. -/
structure Starts (s : LowerState) (actions : List Action) : Prop where
  idle : s.Idle
  method_lt : s.method < s.program.methods.size
  locals : s.locals = []
  books : s.Books
  actions : ∀ a ∈ actions, a.NoAddress

/-- Between the names of a trigger the compile stands idle, and all events are planned. -/
lemma assembleNames_course {t : Trigger} (henv : env.Sound) (ht : t.NoAddress)
    {all : List PlannedEvent} {before after : List String} {s₀ s₁ : LowerState}
    (declares : t.declarations.forM declareUser {} = .ok ⟨⟩ s₀)
    (planned : planEvents env 0 t.events s₀ = .ok all s₁)
    (names : (all.map (·.exported)).eraseDups = before ++ after)
    (assembled : (before.forM fun n => assembleName env n (all.filter (·.exported = n))) s₁ =
      .ok ⟨⟩ s) :
    s₀ = declared s₀.program.slots #[] ∧ s₀.program.slots.Declares t.declarations ∧
      Course env (t.agenda env.registry) s₀ s ∧ s.Idle ∧
      ∀ plan ∈ all, Planned env (t.agenda env.registry) s.program.slots plan := by
  obtain ⟨hstart, hdeclares, hidle⟩ := declareUsers_idle ht declares
  obtain ⟨hs₁, hc₁, hplans⟩ := Goes.ok env
    (planEvents_goes hidle hdeclares fun x hx => Agenda.covers_trigger ht hx) planned
  have hbefore : before ⊆ (all.map (·.exported)).eraseDups := by
    rw [names]
    exact List.subset_append_left _ _
  obtain ⟨hs, hc, -⟩ := Goes.ok env (assembleNames_goes henv hs₁ hplans hbefore) assembled
  exact ⟨hstart, hdeclares, hc₁.trans hc, hs, fun plan hplan => (hplans plan hplan).within hc.slots⟩

lemma ReachesName.starts {t : Trigger} (henv : env.Sound) (hnames : env.registry.NamesTemporaries)
    (ht : t.NoAddress) {plans : List PlannedEvent} (h : ReachesName env t name plans s) :
    s.Idle ∧ s.Books ∧ (t.agenda env.registry).adds name .entry ∧
      ∀ plan ∈ plans, Planned env (t.agenda env.registry) s.program.slots plan := by
  obtain ⟨declares, planned, names, rfl, assembled⟩ := h
  obtain ⟨hstart, hdeclares, hc, hs, hplans⟩ := assembleNames_course henv ht declares planned names assembled
  refine ⟨hs, hc.moves.books hnames ?_, adds_of_mem_names hplans (names ▸ by simp), fun plan hplan => ?_⟩
  · rw [hstart]
    exact books_declared hdeclares #[]
  · exact hplans plan (List.mem_filter.mp hplan).1

lemma openEvent_starts {t : Trigger} {plan : PlannedEvent} {method : MethodId}
    (hnames : env.registry.NamesTemporaries) (hs : s.Idle) (hbooks : s.Books)
    (hplan : Planned env (t.agenda env.registry) s.program.slots plan) (hm : s.Owns method)
    (hrun : openEvent plan method s = .ok ⟨⟩ u) : Starts u plan.event.actions := by
  obtain ⟨hu, hc, hopened⟩ := Goes.ok env (openEvent_goes hs hplan hm) hrun
  exact ⟨hu, hopened.lt, hopened.locals, hc.moves.books hnames hbooks, fun a ha => (hplan.actions a ha).2⟩

/-- Some of the events of a name are assembled. -/
lemma ReachesName.shared_course {t : Trigger} (henv : env.Sound)
    (hnames : env.registry.NamesTemporaries) (ht : t.NoAddress) {earlier later : List PlannedEvent}
    {exported : MethodId} {s₁ s₂ s₃ : LowerState}
    (reaches : ReachesName env t name (earlier ++ later) s₁)
    (added : addMethod name .entry s₁ = .ok exported s₂)
    (assembled : earlier.forM (assembleShared env exported) s₂ = .ok ⟨⟩ s₃) :
    s₃.Idle ∧ Course env (t.agenda env.registry) s₁ s₃ ∧ s₃.Owns exported ∧
      (s₃.program.method exported).epilogue = .halt := by
  obtain ⟨hs₁, -, hadds, hplans⟩ := reaches.starts henv hnames ht
  obtain ⟨hs₂, hc₂, rfl, hstate, hown⟩ := Goes.ok env (addMethod_goes hs₁ hadds) added
  have hhalts : (s₂.program.method s₁.program.methods.size).epilogue = .halt := by
    rw [hstate]
    exact halts_push _ _
  have hearlier : ∀ plan ∈ earlier, Planned env (t.agenda env.registry) s₂.program.slots plan :=
    fun plan hplan => (hplans plan (List.mem_append_left _ hplan)).within hc₂.slots
  obtain ⟨hs₃, hc₃, -⟩ :=
    Goes.ok env (assembleShared_forM_goes henv hs₂ hearlier hown hhalts) assembled
  exact ⟨hs₃, hc₂.trans hc₃, hc₃.endures.owns hown, (hc₃.endures.epilogue _ hown.lt).trans hhalts⟩

lemma ReachesBody.starts {t : Trigger} (henv : env.Sound) (hnames : env.registry.NamesTemporaries)
    (ht : t.NoAddress) {actions : List Action} (h : ReachesBody env t actions s) :
    Starts s actions := by
  cases h with
  | @alone name plan method s₁ s₂ _ reaches added opened =>
    obtain ⟨hs₁, hbooks, hadds, hplans⟩ := reaches.starts henv hnames ht
    obtain ⟨hs₂, hc, rfl, -, hown⟩ := Goes.ok env (addMethod_goes hs₁ hadds) added
    exact openEvent_starts hnames hs₂ (hc.moves.books hnames hbooks)
      ((hplans _ List.mem_cons_self).within hc.slots) hown opened
  | @shared name earlier later plan exported method s₁ s₂ s₃ s₄ _ reaches several added assembled
      called opened =>
    obtain ⟨-, hbooks, -, hplans⟩ := reaches.starts henv hnames ht
    obtain ⟨hs₃, hc₃, hown, hhalts⟩ := reaches.shared_course henv hnames ht added assembled
    have hplan := hplans plan (List.mem_append_right _ List.mem_cons_self)
    obtain ⟨hs₄, hc₄, hopened⟩ :=
      Goes.ok env (openShared_goes hs₃ hown hhalts (hplan.adds _ _ .shared)) called
    have hcourse := hc₃.trans hc₄
    exact openEvent_starts hnames hs₄ (hcourse.moves.books hnames hbooks) (hplan.within hcourse.slots)
      hopened.owns opened

/-- What every state between two actions of a body is like. -/
structure Tended (s : LowerState) : Prop where
  settled : s.Settled
  books : s.Books
  anchored : s.Anchored

lemma Starts.tended {actions : List Action} (h : Starts s actions) : Tended (rooted s) where
  settled := settled_rooted (h.idle.sound h.method_lt) h.idle.frames h.idle.pending
  books := h.books
  anchored :=
    { ids := by simp [rooted, LowerState.build, h.locals, h.idle.frames, Frame.root]
      nodup := by simp [rooted, LowerState.build, h.locals]
      owned := by simp [rooted, LowerState.build, h.locals] }

/-- An action that does not end the compile leaves a state like the one it found. -/
lemma Tended.lowerAction (henv : env.Sound) (hnames : env.registry.NamesTemporaries)
    (hs : Tended s) {a : Action} (ha : a.NoAddress) {index : Nat}
    (h : lowerAction env index a s = .ok ⟨⟩ t) : Tended t := by
  cases hfound : env.registry.findAction a.id a.group with
  | error kind =>
    unfold Lower.lowerAction at h
    rw [hfound] at h
    cases h
  | ok d =>
    obtain ⟨ht, -, -, ⟨u, hlowered, -, hsettles, -⟩ | ⟨e, u, -, hskipped, -⟩⟩ :=
      (lowerAction_ensures hfound henv.groups hs.settled (henv.plain _ _ _ hfound) ha).ok h
    · exact ⟨ht, hsettles.adds.books (hlowered.books hnames hs.books),
        hsettles.anchored (hlowered.anchored { hs.anchored with })⟩
    · have hprepared := hskipped.prepares.anchored { hs.anchored with }
      exact ⟨ht, hskipped.settles.adds.books (hskipped.prepares.adds.books hs.books),
        hskipped.settles.anchored { hprepared with }⟩

lemma Tended.lowerActions (henv : env.Sound) (hnames : env.registry.NamesTemporaries)
    {l : List Action} (hs : Tended s) (hl : ∀ a ∈ l, a.NoAddress) {index : Nat}
    (h : lowerActions env index l s = .ok ⟨⟩ t) : Tended t := by
  induction l generalizing s index with
  | nil =>
    cases h
    exact hs
  | cons a l ih =>
    obtain ⟨⟨⟩, u, hrun, hrest⟩ := bind_eq_ok.mp h
    have hu := hs.lowerAction henv hnames (hl a List.mem_cons_self) hrun
    exact ih hu (fun b hb => hl b (List.mem_cons_of_mem _ hb)) hrest

end Lower

/-! ## Main statement -/

/-- Every temporary that was asked for is in the pool of its type or owned by one open block, once,
and every local in sight is a temporary of the block that declares it. -/
structure LowerState.TemporariesOwned (s : LowerState) : Prop where
  pending : s.pending = #[]
  nodup : (s.program.slots.free.map Prod.snd ++ s.scopes.frames.flatMap (·.owned)).Nodup
  exact : ∀ x, x ∈ s.program.slots.free.map Prod.snd ++ s.scopes.frames.flatMap (·.owned) ↔
    s.program.slots.Requested x
  pools : ∀ e ∈ s.program.slots.free, (s.program.slots.get e.2).type = e.1
  declared : (s.scopes.frames.flatMap (·.localIds)).Nodup
  locals : ∀ e ∈ s.locals, ∃ f ∈ s.scopes.frames, e.1 ∈ f.localIds ∧ e.2 ∈ f.owned

/-- Every temporary that was asked for is in the pool of its type, once. -/
structure SlotTable.TemporariesReturned (t : SlotTable) : Prop where
  nodup : (t.free.map Prod.snd).Nodup
  exact : ∀ x, x ∈ t.free.map Prod.snd ↔ t.Requested x
  pools : ∀ e ∈ t.free, (t.get e.2).type = e.1

namespace Lower

variable {s : LowerState}

lemma Tended.temporariesOwned (h : Tended s) : s.TemporariesOwned := by
  have htemps : s.site.temps = s.scopes.frames.flatMap (·.owned) := by
    simp [LowerState.site, ScopeStack.owned, h.settled.pending]
  have hsite := h.settled.sound.site
  refine ⟨h.settled.pending, htemps ▸ hsite.pool.nodup, htemps ▸ h.books.exact,
    fun e he => (hsite.table.free e he).2.2, ?_, h.anchored.owned⟩
  have hnodup := h.anchored.nodup
  rw [h.anchored.ids] at hnodup
  refine hnodup.perm (List.Perm.flatMap_left _ fun f _ => List.reverse_perm _)

end Lower

lemma LowerState.Idle.temporariesReturned {s : LowerState} (h : s.Idle) (hbooks : s.Books) :
    s.program.slots.TemporariesReturned := by
  have htemps : s.site.temps = [] := by rw [h.site_eq]
  refine ⟨?_, fun x => ?_, fun e he => (h.site.table.free e he).2.2⟩
  · have hnodup := h.site.pool.nodup
    rwa [htemps, List.append_nil] at hnodup
  · have hexact := hbooks.exact x
    rwa [htemps, List.append_nil] at hexact

/-- Linking puts numbers in place of addresses and changes nothing else of a slot. -/
lemma Program.Links.temporariesReturned {options : CompileOptions} {p q : Program}
    (h : p.Links options q) (hsite : (⟨p, [], []⟩ : Site).Sound) (hbooks : p.slots.Books []) :
    q.slots.TemporariesReturned := by
  have hf := Program.finishMethods_finished options hsite
  have hexact := (hbooks.makes hf.slots hf.makes hf.accounts).exact
  have hfree : ∀ e ∈ q.slots.free, e.2 < q.slots.size := fun e he => by
    rw [h.size_slots]
    exact (hf.sound.free e (h.free ▸ he)).1
  refine ⟨?_, fun x => ?_, fun e he => ?_⟩
  · rw [h.free]
    simpa using hf.pool.nodup
  · have hx := hexact x
    rw [List.append_nil] at hx
    rw [h.free, hx]
    unfold SlotTable.Requested
    rw [h.size_slots]
    refine and_congr_right fun hlt => ?_
    obtain ⟨initial, hget⟩ := h.slot_eq (h.size_slots.symm ▸ hlt)
    rw [hget]
  · obtain ⟨initial, hget⟩ := h.slot_eq (hfree e he)
    rw [hget]
    exact (hf.sound.free e (h.free ▸ he)).2.2

/-- In the compile of a trigger, after every action that does not end it, no placeholder is left, and
every temporary that was asked for is in the pool of its type or owned by one open block; a local in
sight belongs to the block that declares it. After every body all of them are in their pools, and so
they are in a compiled program, each once. -/
theorem temporaries_have_one_owner {r : Registry} (hr : r.Standard) (options : CompileOptions)
    (t : Trigger) (ht : t.NoAddress) :
    (∀ s, Lower.AfterAction ⟨r, options⟩ t s → s.TemporariesOwned) ∧
    (∀ s, Lower.AfterBody ⟨r, options⟩ t s →
      s.scopes.frames = [] ∧ s.pending = #[] ∧ s.program.slots.TemporariesReturned) ∧
    ∀ c, compileTrigger ⟨r, options⟩ t = .ok c → c.program.slots.TemporariesReturned := by
  have henv := hr.sound options
  have hnames : Registry.NamesTemporaries (Environment.registry ⟨r, options⟩) := hr.namesTemporaries
  refine ⟨fun s h => ?_, fun s h => ?_, fun c h => ?_⟩
  · obtain ⟨reaches, lowered⟩ := h
    have hstarts := reaches.starts henv hnames ht
    refine (hstarts.tended.lowerActions henv hnames (fun a ha => ?_) lowered).temporariesOwned
    refine hstarts.actions a ?_
    simp only [List.mem_append, List.mem_cons, List.not_mem_nil, or_false] at ha ⊢
    tauto
  · obtain ⟨reaches, lowered⟩ := h
    rename_i actions u
    have hstarts := reaches.starts henv hnames ht
    have hactions : ∀ a ∈ actions, Lower.Agenda.any.acts a ∧ a.NoAddress := fun a ha =>
      ⟨trivial, hstarts.actions a ha⟩
    obtain ⟨hidle, hcourse, -⟩ := Lower.Goes.ok _
      (Lower.lowerBody_goes henv hactions hstarts.idle hstarts.method_lt) lowered
    exact ⟨hidle.frames, hidle.pending,
      hidle.temporariesReturned (hcourse.moves.books hnames hstarts.books)⟩
  · obtain ⟨s, hrun, -, hlink⟩ := compileTrigger_eq_ok h
    obtain ⟨hidle, table, warnings, hdeclares, -, hcourse⟩ :=
      (Lower.assembleTrigger_ensures henv ht).ok hrun
    have hbooks := hcourse.moves.books hnames (Lower.books_declared hdeclares warnings)
    unfold LowerState.Books at hbooks
    rw [hidle.site_eq] at hbooks
    exact (hidle.site_empty.links hlink).temporariesReturned hidle.site_empty hbooks

/-- A local is declared, and then an action that asks for another one is skipped. -/
theorem temporaries_have_one_owner_after_skip :
    ∃ s, Lower.AfterAction ⟨Registry.builtin, {}⟩
        { events := [{ name := "start", entry := { id := "Start" },
                       actions := [{ id := "LocalVariable",
                                     inputs := [.constant (.int32 1), .newLocal "x" "x"] },
                                   { id := "Log", inputs := [.var (.localVar "y")] }] }] } s ∧
      s.errors.size = 1 ∧ s.locals.length = 1 ∧ s.TemporariesOwned := by
  set t : Trigger := { events := [_] } with ht
  set env : Environment := ⟨Registry.builtin, {}⟩
  set a : Action := { id := "LocalVariable", inputs := [.constant (.int32 1), .newLocal "x" "x"] }
  set b : Action := { id := "Log", inputs := [.var (.localVar "y")] }
  have hwalk : ((outcome? (Lower.planEvents env 0 t.events {})).any fun r₁ =>
      r₁.1.head?.any fun plan =>
        (outcome? (Lower.addMethod plan.exported .entry r₁.2)).any fun r₂ =>
          (outcome? (Lower.openEvent plan r₂.1 r₂.2)).any fun r₃ =>
            (outcome? ((do
              Lower.onScopes (·.push Frame.root)
              Lower.lowerActions env 0 [a, b] : Lower Unit) r₃.2)).any fun r₄ =>
                decide (r₁.1.length = 1 ∧ plan.event.actions = [a, b] ∧ r₄.2.errors.size = 1 ∧
                  r₄.2.locals.length = 1)) = true := by
    decide +kernel
  obtain ⟨plans, s₁, hplans, hwalk⟩ := exists_outcome_of_any hwalk
  obtain ⟨plan, hhead, hwalk⟩ := (Option.any_eq_true _ _).mp hwalk
  obtain ⟨method, s₂, hadded, hwalk⟩ := exists_outcome_of_any hwalk
  obtain ⟨⟨⟩, s₃, hopened, hwalk⟩ := exists_outcome_of_any hwalk
  obtain ⟨⟨⟩, s, hrun, hwalk⟩ := exists_outcome_of_any hwalk
  obtain ⟨hlength, hactions, herrors, hlocals⟩ := of_decide_eq_true hwalk
  obtain ⟨plan, rfl⟩ := List.length_eq_one_iff.mp hlength
  obtain rfl := Option.some.inj hhead
  have hname : Lower.ReachesName env t plan.exported [plan] s₁ :=
    .intro rfl hplans (show _ = [] ++ plan.exported :: [] from rfl) (by simp) rfl
  have hbody : Lower.ReachesBody env t ([a] ++ b :: []) s₃ := by
    rw [List.singleton_append, ← hactions]
    exact .alone hname hadded hopened
  have hafter : Lower.AfterAction env t s := .intro hbody hrun
  have hmain := temporaries_have_one_owner .builtin {} t
    ⟨by simp [ht, a, b], by simp [ht, a, b, Action.NoAddress, Binding.holdsAddress]⟩
  exact ⟨s, hafter, herrors, hlocals, hmain.1 s hafter⟩

end TriggerCompiler
