import Mathlib
import TriggerCompiler.Proofs.Frames

/-!
# Bound inputs

Binding an action's inputs adds no code. It asks for slots, and it can declare locals in the
innermost block; this is all that is left behind when it fails halfway. When it succeeds each input
has the slot that its binding denotes.
-/

namespace TriggerCompiler

variable {r : BoundAction} {d : ActionDef} {a : Action}

/-- Whether a binding holds an address of a program, which no document does. -/
def Binding.holdsAddress : Binding → Bool
  | .constant (.address _) => true
  | _ => false

/-- Whether an output can be bound so. -/
def Binding.isWritable : Binding → Bool
  | .constant _ | .var .this => false
  | _ => true

/-- The block with more locals. -/
def Frame.declare (f : Frame) (new : List (String × SlotId)) : Frame :=
  { f with owned := f.owned ++ new.map Prod.snd, localIds := f.localIds ++ new.map Prod.fst }

lemma Frame.declare_nil (f : Frame) : f.declare [] = f := by simp [declare]

lemma Frame.declare_append (f : Frame) (new new' : List (String × SlotId)) :
    (f.declare new).declare new' = f.declare (new ++ new') := by simp [declare]

lemma Frame.Sound.declare {f : Frame} {p : Program} (h : f.Sound p)
    (new : List (String × SlotId)) : (f.declare new).Sound p :=
  { h with result_owned := fun r hr => List.mem_append_left _ (h.result_owned r hr) }

/-- The result of the nearest enclosing condition. -/
def ScopeStack.result? (s : ScopeStack) : Option SlotId :=
  (s.frames.find? fun f => f.construct? = some .condition).bind (·.conditionResult)

lemma lookup_eq_none_iff {α β : Type} [BEq α] [LawfulBEq α] {l : List (α × β)} {k : α} :
    l.lookup k = none ↔ k ∉ l.map Prod.fst := by
  rw [List.lookup_eq_none_iff, List.mem_map]
  constructor
  · rintro h ⟨e, he, rfl⟩
    simpa using h e he
  · intro h e he
    simpa using fun hk => h ⟨e, he, hk.symm⟩

lemma lookup_of_nodup {α β : Type} [BEq α] [LawfulBEq α] {l : List (α × β)}
    (hl : (l.map Prod.fst).Nodup) {k : α} {v : β} (h : (k, v) ∈ l) : l.lookup k = some v := by
  obtain ⟨xs, ys, rfl⟩ := List.append_of_mem h
  refine List.lookup_eq_some_iff.mpr ⟨xs, ys, rfl, fun x hx => ?_⟩
  rw [List.map_append, List.nodup_append] at hl
  have hne := hl.2.2 x.1 (List.mem_map_of_mem hx) k (by simp)
  simpa using Ne.symm hne

namespace Lower

variable {α : Type} {s s' s'' : LowerState} {b : Binding} {id : SlotId} {f : Frame}
  {rest : List Frame}

/-! ## What binding leaves behind -/

/-- Binding leaves maybe more slots, more locals of the innermost block, and more placeholders. -/
structure Prepares (s s' : LowerState) : Prop where
  adds : s.site.Adds s.method [] s'.site
  state : ∃ p frames references used locals pending, s' = { s with
    program := p, scopes := ⟨frames⟩, references, used, locals, pending }
  locals : ∃ f rest new, s.scopes.frames = f :: rest ∧ s'.scopes.frames = f.declare new :: rest ∧
    s'.locals = new.reverse ++ s.locals ∧ (new.map Prod.fst).Nodup ∧
    ∀ e ∈ new, s.locals.lookup e.1 = none
  pending : s.pending.toList <+: s'.pending.toList

namespace Prepares

/-- No local is declared. -/
lemma plain {p : Program} {references : Array SymbolReference} {used : List SlotId}
    {pending : Array SlotId} (hf : s.scopes.frames = f :: rest)
    (hadds : s.site.Adds s.method [] (LowerState.site { s with
      program := p, references, used, pending }))
    (hp : s.pending.toList <+: pending.toList) :
    Prepares s { s with program := p, references, used, pending } :=
  ⟨hadds, ⟨_, _, _, _, _, _, rfl⟩, ⟨f, rest, [], hf, by rw [f.declare_nil]; exact hf, rfl, by simp,
    by simp⟩, hp⟩

lemma refl (hs : s.site.Sound) (hf : s.scopes.frames = f :: rest) : Prepares s s :=
  plain hf (Site.Adds.refl hs) List.prefix_rfl

section

variable (h : Prepares s s')
include h

lemma method : s'.method = s.method := by
  obtain ⟨p, frames, references, used, locals, pending, rfl⟩ := h.state
  rfl

lemma eventInputs : s'.eventInputs = s.eventInputs := by
  obtain ⟨p, frames, references, used, locals, pending, rfl⟩ := h.state
  rfl

lemma merges : s'.merges = s.merges := by
  obtain ⟨p, frames, references, used, locals, pending, rfl⟩ := h.state
  rfl

lemma trans (h' : Prepares s' s'') (hm : s.method < s.program.methods.size) : Prepares s s'' := by
  have hmethod := h.method
  refine ⟨?_, ?_, ?_, h.pending.trans h'.pending⟩
  · have hadds := h'.adds
    rw [hmethod] at hadds
    exact h.adds.trans hadds hm
  · obtain ⟨p, frames, references, used, locals, pending, rfl⟩ := h.state
    obtain ⟨p', frames', references', used', locals', pending', rfl⟩ := h'.state
    exact ⟨_, _, _, _, _, _, rfl⟩
  · obtain ⟨f, rest, new, hf, hf', hlocals, hnodup, hnew⟩ := h.locals
    obtain ⟨f', rest', new', hg, hg', hlocals', hnodup', hnew'⟩ := h'.locals
    obtain ⟨rfl, rfl⟩ := List.cons.inj (hf'.symm.trans hg)
    have hdisjoint : ∀ e ∈ new', s.locals.lookup e.1 = none ∧ e.1 ∉ new.map Prod.fst := by
      intro e he
      have hnone := lookup_eq_none_iff.mp (hnew' e he)
      rw [hlocals, List.map_append, List.mem_append, not_or] at hnone
      exact ⟨lookup_eq_none_iff.mpr hnone.2, by simpa using hnone.1⟩
    refine ⟨f, rest, new ++ new', hf, ?_, ?_, ?_, ?_⟩
    · rw [hg', f.declare_append]
    · rw [hlocals', hlocals, List.reverse_append, List.append_assoc]
    · rw [List.map_append, List.nodup_append']
      refine ⟨hnodup, hnodup', fun x hx hx' => ?_⟩
      obtain ⟨e, he, rfl⟩ := List.mem_map.mp hx'
      exact (hdisjoint e he).2 hx
    · intro e he
      rcases List.mem_append.mp he with he | he
      · exact hnew e he
      · exact (hdisjoint e he).1

/-- What was bound before is still in sight. -/
lemma lookup_local {name : String} (hl : s.locals.lookup name = some id) :
    s'.locals.lookup name = some id := by
  obtain ⟨f, rest, new, -, -, hlocals, -, hnew⟩ := h.locals
  rw [hlocals, List.lookup_append]
  have hnone : new.reverse.lookup name = none := by
    refine lookup_eq_none_iff.mpr fun hmem => ?_
    obtain ⟨e, he, rfl⟩ := List.mem_map.mp hmem
    rw [hnew e (List.mem_reverse.mp he)] at hl
    cases hl
  rw [hnone, hl]
  rfl

lemma result? : s'.scopes.result? = s.scopes.result? := by
  obtain ⟨f, rest, new, hf, hf', -, -, -⟩ := h.locals
  unfold ScopeStack.result?
  rw [hf, hf', List.find?_cons, List.find?_cons]
  rw [show (f.declare new).construct? = f.construct? from rfl]
  cases decide (f.construct? = some .condition) <;> rfl

lemma sound (hs : s.Sound) : s'.Sound := by
  obtain ⟨f, rest, new, hf, hf', hlocals, -, -⟩ := h.locals
  have hworks := h.adds.toWorks
  refine hs.of_works hworks h.method (fun g hg => ?_) (fun e he => ?_) h.eventInputs h.merges
  · rw [hf'] at hg
    rcases List.mem_cons.mp hg with rfl | hg
    · exact (hs.frame_works hworks (by simp [hf])).declare new
    · exact hs.frame_works hworks (by simp [hf, hg])
  · rw [hlocals] at he
    rcases List.mem_append.mp he with he | he
    · refine .inr (List.mem_append_left _ ?_)
      refine List.mem_flatMap.mpr ⟨f.declare new, by simp [hf'], ?_⟩
      exact List.mem_append_right _ (List.mem_map_of_mem (List.mem_reverse.mp he))
    · exact .inl he

end

end Prepares

/-! ## What a binding denotes -/

/-- The slot that a binding denotes in a state. -/
def Denotes (s : LowerState) : Binding → SlotId → Prop
  | .unbound, id => id ∈ s.pending.toList
  | .constant value, id => ∃ type, s.program.slots.IsConstant type value id
  | .var (.user name), id => s.program.slots.userIds.lookup name = some id
  | .var (.localVar name), id => s.locals.lookup name = some id
  | .newLocal name _, id => s.locals.lookup name = some id
  | .var (.eventInput name), id => s.eventInputs.lookup name = some id
  | .var .conditionResult, id => s.scopes.result? = some id
  | .var .this, id => s.program.slots.IsThis id

lemma Denotes.prepares (h : Denotes s b id) (hp : Prepares s s') : Denotes s' b id := by
  have hw := hp.adds.grows.slots
  cases b with
  | unbound => exact hp.pending.subset h
  | constant value =>
    obtain ⟨type, h⟩ := h
    exact ⟨type, h.within hw⟩
  | newLocal name _ => exact hp.lookup_local h
  | var ref =>
    cases ref with
    | user name => exact (congrArg (List.lookup name) hw.userIds).trans h
    | localVar name => exact hp.lookup_local h
    | eventInput name => exact (congrArg (List.lookup name) hp.eventInputs).trans h
    | conditionResult => exact hp.result?.trans h
    | this => exact h.within hw

lemma Denotes.lt (h : Denotes s b id) (hs : s.Sound) : id < s.program.slots.size := by
  cases b with
  | unbound => exact (hs.site.pool.used id (List.mem_append_right _ h)).1
  | constant value =>
    obtain ⟨type, h⟩ := h
    exact h.lt
  | newLocal name _ => exact (hs.locals _ (mem_of_lookup h)).1
  | var ref =>
    cases ref with
    | user name => exact (hs.site.table.user _ (mem_of_lookup h)).1
    | localVar name => exact (hs.locals _ (mem_of_lookup h)).1
    | eventInput name => exact (hs.inputs _ (mem_of_lookup h)).1
    | conditionResult =>
      obtain ⟨f, hf, hr⟩ := Option.bind_eq_some_iff.mp h
      exact (hs.frames f (List.mem_of_find?_eq_some hf)).result id hr
    | this => exact h.lt

/-! ## Looking up what is bound -/

/-- The errors that binding can raise. -/
def IsBindingError (e : CompileError) : Prop :=
  e.kind.isFatal = false ∨ ∃ name, e.kind = .duplicateName name none

/-- A computation that binds: it only prepares, also when it fails, and its errors are about
bindings. -/
def Binds (s : LowerState) (x : Lower α) (P : α → LowerState → Prop) : Prop :=
  Ensures s x (fun r s' => Prepares s s' ∧ P r s') fun e s' => Prepares s s' ∧ IsBindingError e

namespace Binds

variable {β : Type} {x : Lower α} {P Q : α → LowerState → Prop}

lemma pure (hs : s.Sound) (hf : s.scopes.frames = f :: rest) {r : α} (h : P r s) :
    Binds s (pure r) P :=
  Ensures.of_ok rfl ⟨Prepares.refl hs.site hf, h⟩

lemma fail (hs : s.Sound) (hf : s.scopes.frames = f :: rest) {kind : ErrorKind}
    (h : kind.isFatal = false ∨ ∃ name, kind = .duplicateName name none) :
    Binds s (fail kind) P :=
  Ensures.of_error rfl ⟨Prepares.refl hs.site hf, h⟩

lemma mono (h : Binds s x P) (hPQ : ∀ r s', Prepares s s' → P r s' → Q r s') : Binds s x Q :=
  Ensures.mono h (fun r s' hP => ⟨hP.1, hPQ r s' hP.1 hP.2⟩) fun _ _ hE => hE

lemma bind {g : α → Lower β} {R : β → LowerState → Prop} (hs : s.Sound) (hx : Binds s x P)
    (hg : ∀ r s', Prepares s s' → s'.Sound → P r s' → Binds s' (g r) R) :
    Binds s (x >>= g) R :=
  Ensures.bind hx fun r s' _ hP =>
    Ensures.mono (hg r s' hP.1 (hP.1.sound hs) hP.2)
      (fun _ _ h => ⟨hP.1.trans h.1 hs.method_lt, h.2⟩)
      fun _ _ h => ⟨hP.1.trans h.1 hs.method_lt, h.2⟩

/-- Asking for slots binds. -/
lemma of_yields {P : α → List Line → Site → Prop} (hf : s.scopes.frames = f :: rest)
    (h : Yields s s.site x P) (hP : ∀ r code b, P r code b → code = [] ∧ s.site.Keeps b) :
    Binds s x fun r s' => ∃ b, s' = s.on b ∧ P r [] b := by
  obtain ⟨r, code, b, hx, hadds, hpost⟩ := h
  obtain ⟨rfl, hkeep⟩ := hP r code b hpost
  refine Ensures.of_ok hx ⟨Prepares.plain hf ?_ List.prefix_rfl, b, rfl, hpost⟩
  rw [← site_on hkeep] at hadds
  exact hadds

end Binds

lemma slot_binds (hs : s.Sound) (hf : s.scopes.frames = f :: rest) (id : SlotId) :
    Binds s (slot id) fun r s' => r = s.program.slots.get id ∧ s' = s :=
  Ensures.of_ok rfl ⟨Prepares.refl hs.site hf, rfl, rfl⟩

lemma found_binds (hs : s.Sound) (hf : s.scopes.frames = f :: rest) (name : String)
    (o : Option SlotId) : Binds s (found name o) fun r s' => o = some r ∧ s' = s := by
  cases o with
  | some id => exact Binds.pure hs hf ⟨rfl, rfl⟩
  | none => exact Binds.fail hs hf (.inl rfl)

/-- The nearest enclosing condition. -/
lemma conditionResult?_apply (hs : s.Sound) :
    (conditionResult? s = .ok none s ∧ ∀ g ∈ s.scopes.frames, g.construct? ≠ some .condition) ∨
    ∃ l₁ g l₂ r, s.scopes.frames = l₁ ++ g :: l₂ ∧
      (∀ k ∈ l₁, k.construct? ≠ some .condition) ∧ g.construct? = some .condition ∧
      g.conditionResult = some r ∧ conditionResult? s = .ok (some (l₂.length, r)) s := by
  have hrun : conditionResult? s = .ok (do
      let index ← s.scopes.nearestCondition?
      let frame ← s.scopes.frame? index
      let result ← frame.conditionResult
      return (index, result)) s := rfl
  obtain ⟨hnone, hall⟩ | ⟨l₁, g, l₂, hsplit, hbefore, htest, hnear⟩ :=
    s.scopes.nearest?_cases fun k => k.construct? = some .condition
  · refine .inl ⟨?_, fun g hg => by simpa using hall g hg⟩
    rw [hrun, ScopeStack.nearestCondition?, hnone]
    rfl
  · have hg : g.construct? = some .condition := by simpa using htest
    have hsome := (hs.frames g (by simp [hsplit])).isResult.mpr hg
    obtain ⟨r, hr⟩ := Option.isSome_iff_exists.mp hsome
    refine .inr ⟨l₁, g, l₂, r, hsplit, fun k hk => by simpa using hbefore k hk, hg, hr, ?_⟩
    have hframe : s.scopes.frame? l₂.length = some g := by
      rw [show s.scopes = ⟨l₁ ++ g :: l₂⟩ from congrArg ScopeStack.mk hsplit]
      exact ScopeStack.frame?_append l₁ g l₂
    rw [hrun, ScopeStack.nearestCondition?, hnear]
    simp [hframe, hr]

lemma result?_of_split {l₁ l₂ : List Frame} {g : Frame} (hsplit : s.scopes.frames = l₁ ++ g :: l₂)
    (hbefore : ∀ k ∈ l₁, k.construct? ≠ some .condition)
    (hg : g.construct? = some .condition) : s.scopes.result? = g.conditionResult := by
  unfold ScopeStack.result?
  have hnone : l₁.find? (fun k => k.construct? = some .condition) = none := by
    simpa [List.find?_eq_none] using hbefore
  rw [hsplit, List.find?_append, hnone]
  simp [hg]

lemma resolve_binds (hs : s.Sound) (hf : s.scopes.frames = f :: rest) (ref : VariableRef) :
    Binds s (resolve ref) fun id s' => Denotes s' (.var ref) id := by
  -- the slot counts as used, which no later state looks at
  have huse : ∀ (x : Lower SlotId), Binds s x (fun id s' => Denotes s' (.var ref) id) →
      Binds s (x >>= fun slot => do
        modify fun s => { s with used := slot :: s.used }
        return slot) fun id s' => Denotes s' (.var ref) id := by
    intro x hx
    refine Binds.bind hs hx fun id s' hp hs' hid => ?_
    obtain ⟨g, rest', new, -, hg, -⟩ := hp.locals
    have hprep : Prepares s' { s' with used := id :: s'.used } :=
      Prepares.plain hg (Site.Adds.refl hs'.site) List.prefix_rfl
    exact Ensures.of_ok rfl ⟨hprep, hid.prepares hprep⟩
  refine Binds.bind hs (P := fun r s' => r = s ∧ s' = s)
    (Ensures.of_ok rfl ⟨Prepares.refl hs.site hf, rfl, rfl⟩) ?_
  rintro _ s - - ⟨rfl, rfl⟩
  cases ref with
  | user name =>
    refine huse _ ?_
    cases h : s.program.slots.findUser name with
    | error kind =>
      refine Binds.fail hs hf (.inl ?_)
      unfold SlotTable.findUser at h
      split at h
      · cases h
      · obtain rfl := Except.error.inj h
        rfl
    | ok id =>
      refine Binds.pure hs hf ?_
      unfold SlotTable.findUser at h
      split at h
      · rename_i hlookup
        rw [← Except.ok.inj h]
        exact hlookup
      · cases h
  | localVar name =>
    refine huse _ ((found_binds hs hf _ _).mono ?_)
    rintro id _ - ⟨hid, rfl⟩
    exact hid
  | eventInput name =>
    refine huse _ ((found_binds hs hf _ _).mono ?_)
    rintro id _ - ⟨hid, rfl⟩
    exact hid
  | conditionResult =>
    refine huse (conditionResult? >>= fun o => found "ConditionResult" (o.map (·.2))) ?_
    obtain ⟨hrun, -⟩ | ⟨l₁, g, l₂, r, hsplit, hbefore, hg, hr, hrun⟩ := conditionResult?_apply hs
    · refine Binds.bind hs (P := fun o s' => o = none ∧ s' = s)
        (Ensures.of_ok hrun ⟨Prepares.refl hs.site hf, rfl, rfl⟩) ?_
      rintro _ s - - ⟨rfl, rfl⟩
      exact Binds.fail hs hf (.inl rfl)
    · refine Binds.bind hs (P := fun o s' => o = some (l₂.length, r) ∧ s' = s)
        (Ensures.of_ok hrun ⟨Prepares.refl hs.site hf, rfl, rfl⟩) ?_
      rintro _ s - - ⟨rfl, rfl⟩
      exact Binds.pure hs hf ((result?_of_split hsplit hbefore hg).trans hr)
  | this =>
    refine huse _ ((Binds.of_yields hf (this_yields hs.ready) ?_).mono ?_)
    · rintro id code b ⟨rfl, hkeep, -⟩
      exact ⟨rfl, hkeep⟩
    · rintro id _ - ⟨b, rfl, -, -, hid⟩
      exact hid

/-! ## Binding inputs -/

section

variable (hs : s.Sound) (hf : s.scopes.frames = f :: rest)
include hs hf

lemma placeholder_binds (p : Parameter) :
    Binds s (placeholder p) fun id s' => Denotes s' .unbound id := by
  unfold placeholder
  split
  · exact Binds.fail hs hf (.inl rfl)
  · obtain ⟨id, code, b, hx, hadds, rfl, hlabels, htemps, -⟩ :=
      temporary_yields hs.ready (p.type.getD .object)
    have hrun : (temporary (p.type.getD .object) >>= fun slot => do
        modify fun s => { s with pending := s.pending.push slot }
        return slot) s = .ok id { s.on b with pending := s.pending.push id } :=
      (bind_of_ok hx _).trans rfl
    refine Ensures.of_ok hrun ?_
    · refine ⟨Prepares.plain hf ?_ (by simp), by simp [Denotes]⟩
      refine hadds.of_perm (b := b) ?_ ?_
      · exact (show s.scopes.endLabels = b.labels from hlabels.symm) ▸ List.Perm.refl _
      · rw [htemps]
        simp only [Array.toList_push, ← List.append_assoc]
        exact List.perm_append_singleton _ _

lemma mismatch_binds {P : α → LowerState → Prop} (p : Parameter) (expected actual : ValueType) :
    Binds s (mismatch p expected actual) P :=
  Binds.fail hs hf (.inl rfl)

lemma bindConstant_binds (p : Parameter) (type : ValueType) {value : Value}
    (hv : (Binding.constant value).holdsAddress = false) :
    Binds s (bindConstant p type value) fun id s' => Denotes s' (.constant value) id := by
  have hplain : ∀ x, value ≠ .address x := by
    rintro x rfl
    cases hv
  refine Binds.bind hs (Binds.of_yields hf (constant_yields hs.ready fun x hx =>
    absurd hx (hplain x)) ?_) ?_
  · rintro id code b ⟨rfl, hkeep, -⟩
    exact ⟨rfl, hkeep⟩
  · rintro id _ - hs' ⟨b, rfl, -, -, hid⟩
    have hprep : ∀ references, Prepares (s.on b) { s.on b with references } := fun references =>
      Prepares.plain hf (Site.Adds.refl hs'.site) List.prefix_rfl
    exact Ensures.of_ok rfl ⟨hprep _, type, hid⟩

/-- Checking the type of a slot that is bound already. -/
lemma checkType_binds (hid : Denotes s b id) {p : Parameter} {test : Slot → Prop}
    {dec : ∀ x, Decidable (test x)} {expected actual : Slot → ValueType} :
    Binds s (slot id >>= fun x => @ite _ (test x) (dec x) (Pure.pure id)
      (mismatch p (expected x) (actual x))) fun id s' => Denotes s' b id := by
  refine Binds.bind hs (slot_binds hs hf id) ?_
  rintro _ s - - ⟨rfl, rfl⟩
  split_ifs
  · exact Binds.pure hs hf hid
  · exact mismatch_binds hs hf _ _ _

lemma bindRead_binds (p : Parameter) (hb : b.holdsAddress = false) :
    Binds s (bindRead b p) fun id s' => Denotes s' b id := by
  unfold bindRead
  cases b with
  | unbound => exact placeholder_binds hs hf p
  | constant value =>
    dsimp only
    split
    · split_ifs
      · exact bindConstant_binds hs hf p _ hb
      · exact mismatch_binds hs hf _ _ _
    · exact bindConstant_binds hs hf p _ hb
  | var ref =>
    refine Binds.bind hs (resolve_binds hs hf ref) fun id s' hp hs' hid => ?_
    obtain ⟨g, rest', new, -, hg, -⟩ := hp.locals
    split
    · exact Binds.pure hs' hg hid
    · exact checkType_binds hs' hg hid
  | newLocal name _ => exact Binds.fail hs hf (.inl rfl)

lemma declareLocal_binds (name shown : String) (type : ValueType) :
    Binds s (declareLocal name type) fun id s' =>
      Denotes s' (.newLocal name shown) id ∧ (s'.program.slots.get id).type = type := by
  cases hlookup : s.locals.lookup name with
  | some other =>
    refine Ensures.of_error (e := ⟨.duplicateName name none, some s.coordinate⟩) ?_
      ⟨Prepares.refl hs.site hf, .inr ⟨name, rfl⟩⟩
    unfold declareLocal
    rw [bind_of_ok (get_apply s), hlookup]
    rfl
  | none =>
    obtain ⟨id, code, b, hx, hadds, rfl, hlabels, htemps, htype, -⟩ :=
      temporary_yields hs.ready type
    have hrun : declareLocal name type s = .ok id { s.on b with
        scopes := ⟨f.declare [(name, id)] :: rest⟩, locals := (name, id) :: s.locals } := by
      unfold declareLocal
      rw [bind_of_ok (get_apply s), hlookup]
      refine (bind_of_ok hx _).trans ?_
      refine (bind_of_ok (modifyCurrent_apply (s := s.on b) hf _) _).trans ?_
      rfl
    refine Ensures.of_ok hrun ⟨⟨?_, ⟨_, _, _, _, _, _, rfl⟩, ?_, List.prefix_rfl⟩, ?_⟩
    · refine hadds.of_perm (b := b) ?_ ?_
      · rw [hlabels]
        simp [LowerState.site, ScopeStack.endLabels, hf, Frame.declare, List.filterMap_cons]
      · rw [htemps]
        simp only [LowerState.site, LowerState.on, ScopeStack.owned, hf, Frame.declare,
          List.flatMap_cons, List.map_cons, List.map_nil, List.append_assoc,
          List.singleton_append]
        exact List.perm_middle
    · exact ⟨f, rest, [(name, id)], hf, rfl, rfl, by simp, by simpa using hlookup⟩
    · exact ⟨by simp [Denotes], htype⟩

lemma bindWrite_binds (p : Parameter) (inferred : Option ValueType) :
    Binds s (bindWrite b p inferred) fun id s' => Denotes s' b id ∧ b.isWritable = true := by
  unfold bindWrite
  split
  · exact (placeholder_binds hs hf p).mono fun _ _ _ h => ⟨h, rfl⟩
  · exact mismatch_binds hs hf _ _ _
  · exact Binds.fail hs hf (.inl rfl)
  · rename_i ref hthis
    have hwritable : (Binding.var ref).isWritable = true := by
      cases ref with
      | this => exact (hthis rfl).elim
      | _ => rfl
    refine Binds.bind hs (resolve_binds hs hf ref) fun id s' hp hs' hid => ?_
    obtain ⟨g, rest', new, -, hg, -⟩ := hp.locals
    split
    · exact Binds.pure hs' hg ⟨hid, hwritable⟩
    · exact (checkType_binds hs' hg hid).mono fun _ _ _ h => ⟨h, hwritable⟩
  · exact (declareLocal_binds hs hf _ _ _).mono fun _ _ _ h => ⟨h.1, rfl⟩

end

/-! ## Actions -/

/-- Binds one input of an action. -/
def bindInput (p : Parameter) (b : Binding) (inferred : Option ValueType) : Lower SlotId :=
  if p.direction = .out then bindWrite b p inferred else bindRead b p

/-- The type that a fresh local gets after an input, if it has none of its own. -/
def inferNext (inferred : Option ValueType) (p : Parameter) (table : SlotTable) (id : SlotId) :
    Option ValueType :=
  if inferred.isNone && p.direction.reads then some (table.get id).type else inferred

/-- The first input is bound, and then the others. -/
lemma bindInputs_cons (p : Parameter) (b : Binding) (inputs : List (Parameter × Binding))
    (inferred : Option ValueType) :
    bindInputs ((p, b) :: inputs) inferred = bindInput p b inferred >>= fun id s =>
      (bindInputs inputs (inferNext inferred p s.program.slots id) >>= fun ids =>
        pure (id :: ids)) s := by
  have hrest : ∀ (x : Lower SlotId) (k : SlotId → Lower (List SlotId)), (∀ id s, k id s =
      (bindInputs inputs (inferNext inferred p s.program.slots id) >>= fun ids =>
        Pure.pure (id :: ids)) s) → x >>= k = x >>= fun id s =>
      (bindInputs inputs (inferNext inferred p s.program.slots id) >>= fun ids =>
        Pure.pure (id :: ids)) s := fun x k hk =>
    congrArg (x >>= ·) (funext fun id => funext (hk id))
  unfold bindInput
  rw [bindInputs]
  split_ifs with hout hnext hnext
  all_goals
    refine hrest _ _ fun id s => ?_
    unfold inferNext
    simp only [hnext]
    rfl

lemma bindInput_binds (hs : s.Sound) (hf : s.scopes.frames = f :: rest) (p : Parameter)
    (inferred : Option ValueType) (hb : b.holdsAddress = false) :
    Binds s (bindInput p b inferred) fun id s' =>
      Denotes s' b id ∧ (p.direction = .out → b.isWritable = true) := by
  unfold bindInput
  split_ifs with hout
  · exact (bindWrite_binds hs hf p inferred).mono fun _ _ _ h => ⟨h.1, fun _ => h.2⟩
  · exact (bindRead_binds hs hf p hb).mono fun _ _ _ h => ⟨h, fun h' => absurd h' hout⟩

/-- Every input gets the slot that its binding denotes. -/
lemma bindInputs_binds (hs : s.Sound) (hf : s.scopes.frames = f :: rest)
    (inputs : List (Parameter × Binding)) (inferred : Option ValueType)
    (hplain : ∀ x ∈ inputs, x.2.holdsAddress = false) :
    Binds s (bindInputs inputs inferred) fun ids s' =>
      List.Forall₂ (Denotes s') (inputs.map Prod.snd) ids ∧
        ∀ x ∈ inputs, x.1.direction = .out → x.2.isWritable = true := by
  induction inputs generalizing s f rest inferred with
  | nil => exact Binds.pure hs hf ⟨.nil, by simp⟩
  | cons x inputs ih =>
    obtain ⟨p, b⟩ := x
    rw [bindInputs_cons]
    refine Binds.bind hs (bindInput_binds hs hf p inferred (hplain _ List.mem_cons_self)) ?_
    rintro id s' hp hs' ⟨hid, hwritable⟩
    obtain ⟨g, rest', new, -, hg, -⟩ := hp.locals
    refine Binds.bind (x := bindInputs inputs _) hs'
      (ih hs' hg _ fun x hx => hplain x (List.mem_cons_of_mem _ hx)) ?_
    rintro ids s'' hp' hs'' ⟨hids, houts⟩
    obtain ⟨g', rest'', new', -, hg', -⟩ := hp'.locals
    exact Binds.pure hs'' hg'
      ⟨.cons (hid.prepares hp') hids, List.forall_mem_cons.mpr ⟨hwritable, houts⟩⟩

/-- The targets of a call on objects, as inputs. -/
def targetInputs (d : ActionDef) (a : Action) : List (Parameter × Binding) :=
  match d.kind with
  | .host _ (some type) => a.targets.map (.input "target" type, ·)
  | _ => []

lemma mem_targetInputs {x : Parameter × Binding} (h : x ∈ targetInputs d a) :
    x.2 ∈ a.targets ∧ x.1.direction ≠ .out ∧
      ∃ signature type, d.kind = .host signature (some type) := by
  unfold targetInputs at h
  split at h
  · obtain ⟨b, hb, rfl⟩ := List.mem_map.mp h
    exact ⟨hb, nofun, _, _, ‹_›⟩
  · cases h

/-- Values that are read are bound as inputs are. -/
lemma bindReads_eq {p : Parameter} (hp : p.direction ≠ .out) (l : List Binding)
    (inferred : Option ValueType) :
    (l.mapM fun b => bindRead b p) = bindInputs (l.map (p, ·)) inferred := by
  induction l generalizing inferred with
  | nil => rfl
  | cons b l ih =>
    rw [List.mapM_cons, List.map_cons, bindInputs_cons]
    unfold bindInput
    rw [if_neg hp]
    refine congrArg (bindRead b p >>= ·) (funext fun id => funext fun s => ?_)
    rw [← ih]

/-- An action is bound after its inputs and targets were counted. -/
lemma bindAction_eq (d : ActionDef) (a : Action) :
    bindAction d a =
      if a.inputs.length ≠ d.parameters.length then
        fail (.wrongArity d.parameters.length a.inputs.length)
      else if !d.manyTargets && !a.targets.isEmpty then
        fail (.wrongArity d.parameters.length (d.parameters.length + a.targets.length))
      else do
        let inputs ← bindInputs (d.parameters.zip a.inputs) none
        let targets ← bindInputs (targetInputs d a) none
        return { definition := d, inputs, targets, coordinate := (← get).coordinate } := by
  funext s
  unfold bindAction
  split_ifs
  · rfl
  · rfl
  · rfl
  · dsimp only
    refine congrFun (congrArg (bindInputs (d.parameters.zip a.inputs) none >>= ·)
      (funext fun inputs => ?_)) s
    unfold targetInputs
    generalize d.kind = kind
    cases kind with
    | host signature onType =>
      cases onType with
      | none => rfl
      | some type => rw [← bindReads_eq (p := .input "target" type) nofun _ none]
    | _ => rfl

/-- What is known of an action whose inputs are bound. -/
structure Bound (d : ActionDef) (a : Action) (s : LowerState) (r : BoundAction) : Prop where
  definition : r.definition = d
  arity : a.inputs.length = d.parameters.length
  inputs : List.Forall₂ (Denotes s) a.inputs r.inputs
  writable : ∀ x ∈ d.parameters.zip a.inputs, x.1.direction = .out → x.2.isWritable = true
  targets : ∀ t ∈ r.targets, ∃ b ∈ a.targets, Denotes s b t

lemma Bound.input_lt (h : Bound d a s r) (hs : s.Sound) :
    ∀ id ∈ r.inputs, id < s.program.slots.size := by
  intro id hid
  obtain ⟨i, hi, rfl⟩ := List.mem_iff_getElem.mp hid
  have hi' : i < a.inputs.length := h.inputs.length_eq ▸ hi
  exact (h.inputs.get hi' hi).lt hs

lemma Bound.target_lt (h : Bound d a s r) (hs : s.Sound) :
    ∀ t ∈ r.targets, t < s.program.slots.size := by
  intro t ht
  obtain ⟨b, -, hb⟩ := h.targets t ht
  exact hb.lt hs

lemma Bound.input_length (h : Bound d a s r) : r.inputs.length = d.parameters.length :=
  h.inputs.length_eq ▸ h.arity

lemma bindAction_binds (hs : s.Sound) (hf : s.scopes.frames = f :: rest) (d : ActionDef)
    (a : Action) (hplain : ∀ b ∈ a.inputs ++ a.targets, b.holdsAddress = false) :
    Binds s (bindAction d a) fun r s' => Bound d a s' r := by
  rw [bindAction_eq]
  split_ifs with harity
  · exact Binds.fail hs hf (.inl rfl)
  · exact Binds.fail hs hf (.inl rfl)
  refine Binds.bind hs (bindInputs_binds hs hf _ none fun x hx => ?_) ?_
  · exact hplain x.2 (List.mem_append_left _ (List.of_mem_zip hx).2)
  rintro inputs s' hp hs' ⟨hinputs, hwritable⟩
  rw [List.map_snd_zip (not_not.mp harity).le] at hinputs
  obtain ⟨g, rest', new, -, hg, -⟩ := hp.locals
  refine Binds.bind hs' (bindInputs_binds hs' hg _ none fun x hx => ?_) ?_
  · exact hplain x.2 (List.mem_append_right _ (mem_targetInputs hx).1)
  rintro targets s'' hp' hs'' ⟨htargets, -⟩
  obtain ⟨g', rest'', new', -, hg', -⟩ := hp'.locals
  refine Ensures.of_ok rfl ⟨Prepares.refl hs''.site hg', rfl, not_not.mp harity,
    hinputs.imp fun _ _ h => h.prepares hp', hwritable, fun t ht => ?_⟩
  obtain ⟨i, hi, rfl⟩ := List.mem_iff_getElem.mp ht
  have hlt := htargets.length_eq ▸ hi
  obtain ⟨x, hx, hb⟩ := List.mem_map.mp (List.get_mem _ ⟨i, hlt⟩)
  exact ⟨x.2, (mem_targetInputs hx).1, hb ▸ htargets.get hlt hi⟩

end Lower

end TriggerCompiler
