import Mathlib
import TriggerCompiler.Assembly.Group
import TriggerCompiler.Proofs.Declarations

/-!
# The steps of a compile

A compile declares variables and then adds methods, fills them with code and lowers bodies, one
action after the other. Here every such step is a case of one relation, with all that is known of
it, and a compile without errors is shown to be a sequence of steps. What holds of every compiled
program is then a matter of what a step preserves.

On the way no computation fails by a rule that the compiler itself has broken.
-/

namespace TriggerCompiler

variable {d : ActionDef} {p : Program} {name : String} {m : MethodId} {e : CompileError}

/-- The error lies in the document and not in the compiler. -/
def CompileError.Ordinary (e : CompileError) : Prop :=
  (∀ breach, e.kind ≠ .broken breach) ∧ ∀ name, e.kind ≠ .missingMethod name

namespace CompileError.Ordinary

lemma of_kind {kind : ErrorKind} (h : e.kind = kind) (hbroken : ∀ breach, kind ≠ .broken breach)
    (hmethod : ∀ name, kind ≠ .missingMethod name) : e.Ordinary :=
  ⟨fun breach => h ▸ hbroken breach, fun name => h ▸ hmethod name⟩

lemma of_duplicate (h : ∃ name kind, e.kind = .duplicateName name kind) : e.Ordinary := by
  obtain ⟨name, kind, h⟩ := h
  exact of_kind h (by simp) (by simp)

lemma of_not_fatal (h : e.kind.isFatal = false) : e.Ordinary := by
  constructor
  all_goals
    intro x hx
    rw [hx] at h
    cases h

lemma of_structural (h : Lower.IsStructural e) : e.Ordinary := by
  rcases h with ⟨reason, h⟩ | ⟨c, h⟩
  · exact of_kind h (by simp) (by simp)
  · exact of_kind h (by simp) (by simp)

lemma of_failed {a : Action} {s t : LowerState} (h : Lower.Failed d a s e t) : e.Ordinary := by
  cases h with
  | binding error _ _ =>
    rcases error with h | ⟨name, h⟩
    · exact of_not_fatal h
    · exact of_duplicate ⟨_, _, h⟩
  | step _ _ _ error =>
    obtain ⟨fault, h⟩ := error
    exact of_kind h (by simp) (by simp)
  | place _ refused => exact of_structural refused.error
  | group _ error _ =>
    rcases error with ⟨id, group, h⟩ | ⟨name, h⟩
    · exact of_kind h (by simp) (by simp)
    · exact of_kind h (by simp) (by simp)

end CompileError.Ordinary

/-- The program has a method of the name that returns through the slot. -/
def Program.Callee (p : Program) (name : String) (slot : SlotId) : Prop :=
  ∃ m ∈ p.methods.toList, m.name = name ∧ m.epilogue = .indirect slot

lemma Program.Callee.mem_names {slot : SlotId} (h : p.Callee name slot) : name ∈ p.names := by
  obtain ⟨m, hm, rfl, -⟩ := h
  exact List.mem_map_of_mem hm

/-- The program has a method of the name that the host can start. -/
def Program.HasEntry (p : Program) (name : String) : Prop :=
  ∃ m ∈ p.methods.toList, m.name = name ∧ m.kind = .entry

/-- The calls that send an event, with the place of its name among their arguments. -/
def HostCall.sends : List (String × Nat) :=
  [(HostCall.sendCustomEvent, 1), (HostCall.sendCustomNetworkEvent, 2),
    (HostCall.sendCustomEventDelayed, 1)]

/-- The call sends an event. -/
def HostCall.Sends (signature : String) : Prop := signature ∈ HostCall.sends.map Prod.fst

instance (signature : String) : Decidable (HostCall.Sends signature) :=
  inferInstanceAs (Decidable (signature ∈ HostCall.sends.map Prod.fst))

lemma HostCall.not_sends_inequality {type : ValueType} (h : type.isValueType = true) :
    ¬ HostCall.Sends (HostCall.inequality type) := by
  cases type with
  | boolean | int32 | uint32 | single => decide
  | string | object | reference => cases h

lemma HostCall.not_sends_objectEquals : ¬ HostCall.Sends HostCall.objectEquals := by decide

lemma HostCall.not_sends_negation : ¬ HostCall.Sends HostCall.booleanNegation := by decide

/-- The call sends an event whose name is a constant and that the host can start. -/
def Program.Summons (p : Program) (signature : String) (arguments : List SlotId) : Prop :=
  ∃ place id name, (signature, place) ∈ HostCall.sends ∧ arguments[place]? = some id ∧
    p.slots.IsConstant .string (.string name) id ∧ p.HasEntry name

lemma Site.Works.callee {a b : Site} {slot : SlotId} (h : a.Works m b)
    (hc : a.program.Callee name slot) : b.program.Callee name slot := by
  obtain ⟨x, hx, hname, hslot⟩ := hc
  obtain ⟨k, hk, rfl⟩ := Program.exists_method_of_mem hx
  refine ⟨b.program.method k, Program.method_mem (h.methods ▸ hk), ?_⟩
  by_cases hkm : k = m
  · subst hkm
    exact ⟨h.name.trans hname, h.epilogue.trans hslot⟩
  · rw [h.others k hkm]
    exact ⟨hname, hslot⟩

lemma Site.Works.hasEntry {a b : Site} (h : a.Works m b) (hentry : a.program.HasEntry name) :
    b.program.HasEntry name := by
  obtain ⟨x, hx, hname, hkind⟩ := hentry
  obtain ⟨k, hk, rfl⟩ := Program.exists_method_of_mem hx
  refine ⟨b.program.method k, Program.method_mem (h.methods ▸ hk), ?_⟩
  by_cases hkm : k = m
  · subst hkm
    exact ⟨h.name.trans hname, h.kind.trans hkind⟩
  · rw [h.others k hkm]
    exact ⟨hname, hkind⟩

/-! ## Between two bodies -/

/-- A merge gave the name to a method. -/
def LowerState.Merged (s : LowerState) (name : String) : Prop :=
  ∃ e ∈ s.merges, ∃ x ∈ e.2.methods, x.2 = name

/-- A state in which no block is open and no placeholder is in use. -/
structure LowerState.Idle (s : LowerState) : Prop where
  site : s.site.Sound
  frames : s.scopes.frames = []
  pending : s.pending = #[]
  locals : ∀ e ∈ s.locals, s.program.slots.HasKind [.temporary, .user] e.2
  inputs : ∀ e ∈ s.eventInputs, s.program.slots.HasKind [.reserved] e.2
  merges : ∀ e ∈ s.merges, ∀ x ∈ e.2.entries, x.Sound s.program
  named : ∀ name, s.Merged name → name ∈ s.program.names

namespace LowerState.Idle

variable {s t : LowerState}

lemma sound (h : s.Idle) (hm : s.method < s.program.methods.size) : s.Sound :=
  ⟨h.site, hm, by simp [h.frames], h.locals, h.inputs, h.merges⟩

lemma of_sound (h : s.Sound) (hf : s.scopes.frames = []) (hp : s.pending = #[])
    (hnamed : ∀ name, s.Merged name → name ∈ s.program.names) : s.Idle :=
  ⟨h.site, hf, hp, h.locals, h.inputs, h.merges, hnamed⟩

lemma site_eq (h : s.Idle) : s.site = ⟨s.program, [], []⟩ := by
  simp [LowerState.site, ScopeStack.endLabels, ScopeStack.owned, h.frames, h.pending]

lemma site_empty (h : s.Idle) : (⟨s.program, [], []⟩ : Site).Sound := h.site_eq ▸ h.site

/-- Another program on which the site is sound and which has all that the state refers to. -/
lemma on (h : s.Idle) (hsite : (⟨p, [], []⟩ : Site).Sound)
    (hg : (⟨s.program, [], []⟩ : Site).Grows ⟨p, [], []⟩) : ({ s with program := p }).Idle where
  site := by
    have heq : LowerState.site { s with program := p } = ⟨p, [], []⟩ := by
      simp [LowerState.site, ScopeStack.endLabels, ScopeStack.owned, h.frames, h.pending]
    rw [heq]
    exact hsite
  frames := h.frames
  pending := h.pending
  locals e he := (h.locals e he).within hg.slots
  inputs e he := (h.inputs e he).within hg.slots
  merges e he x hx := (h.merges e he x hx).grows hg
  named name hname := hg.names name (h.named name hname)

end LowerState.Idle

/-- A method of the document itself: it is there, and it came from no merge. -/
structure LowerState.Owns (s : LowerState) (k : MethodId) : Prop where
  lt : k < s.program.methods.size
  unmerged : ¬ s.Merged (s.program.method k).name

/-- The methods that there were keep their names and the way they return, and a merge gives names that
were not taken. -/
structure LowerState.Endures (s t : LowerState) : Prop where
  size_le : s.program.methods.size ≤ t.program.methods.size
  name : ∀ k < s.program.methods.size, (t.program.method k).name = (s.program.method k).name
  epilogue : ∀ k < s.program.methods.size,
    (t.program.method k).epilogue = (s.program.method k).epilogue
  merges : s.merges ⊆ t.merges
  merged : ∀ name, t.Merged name →
    s.Merged name ∨ name ∈ t.program.names ∧ name ∉ s.program.names

namespace LowerState.Endures

variable {s t u : LowerState}

lemma refl (s : LowerState) : s.Endures s :=
  ⟨le_rfl, fun _ _ => rfl, fun _ _ => rfl, List.Subset.refl _, fun _ h => .inl h⟩

lemma names (h : s.Endures t) (hname : name ∈ s.program.names) : name ∈ t.program.names := by
  obtain ⟨x, hx, rfl⟩ := List.mem_map.mp hname
  obtain ⟨k, hk, rfl⟩ := Program.exists_method_of_mem hx
  rw [← h.name k hk]
  exact List.mem_map_of_mem (Program.method_mem (hk.trans_le h.size_le))

lemma named (h : s.Endures t) (hs : ∀ name, s.Merged name → name ∈ s.program.names) (name : String)
    (hname : t.Merged name) : name ∈ t.program.names := by
  rcases h.merged name hname with hname | ⟨hname, -⟩
  · exact h.names (hs name hname)
  · exact hname

/-- The methods and the merges are the same. -/
lemma of_same (hmethods : t.program.methods = s.program.methods) (hmerges : t.merges = s.merges) :
    s.Endures t := by
  have hmethod : ∀ k, t.program.method k = s.program.method k := fun k => by
    unfold Program.method
    rw [hmethods]
  refine ⟨hmethods ▸ le_rfl, fun k _ => ?_, fun k _ => ?_, fun _ he => hmerges ▸ he,
    fun name hname => .inl ?_⟩
  · exact congrArg Method.name (hmethod k)
  · exact congrArg Method.epilogue (hmethod k)
  · unfold Merged at hname ⊢
    rwa [hmerges] at hname

lemma trans (h : s.Endures t) (h' : t.Endures u) : s.Endures u where
  size_le := h.size_le.trans h'.size_le
  name k hk := (h'.name k (hk.trans_le h.size_le)).trans (h.name k hk)
  epilogue k hk := (h'.epilogue k (hk.trans_le h.size_le)).trans (h.epilogue k hk)
  merges := List.Subset.trans h.merges h'.merges
  merged name hu := by
    rcases h'.merged name hu with ht | ⟨hmem, hfresh⟩
    · exact (h.merged name ht).imp id fun ⟨hmem, hfresh⟩ => ⟨h'.names hmem, hfresh⟩
    · exact .inr ⟨hmem, fun hs => hfresh (h.names hs)⟩

lemma owns (h : s.Endures t) {k : MethodId} (hk : s.Owns k) : t.Owns k := by
  refine ⟨hk.lt.trans_le h.size_le, fun hmerged => ?_⟩
  rw [h.name k hk.lt] at hmerged
  rcases h.merged _ hmerged with hmerged | ⟨-, hfresh⟩
  · exact hk.unmerged hmerged
  · exact hfresh (List.mem_map_of_mem (Program.method_mem hk.lt))

/-- Work on a body. -/
lemma of_works (h : s.site.Works m t.site) (hmerges : t.merges = s.merges) : s.Endures t := by
  have hmethod : ∀ k, (t.program.method k).name = (s.program.method k).name ∧
      (t.program.method k).epilogue = (s.program.method k).epilogue := by
    intro k
    by_cases hk : k = m
    · exact hk ▸ ⟨h.name, h.epilogue⟩
    · have hsame : t.program.method k = s.program.method k := h.others k hk
      rw [hsame]
      exact ⟨rfl, rfl⟩
  refine ⟨h.methods.ge, fun k _ => (hmethod k).1, fun k _ => (hmethod k).2,
    fun _ he => hmerges ▸ he, fun name hname => .inl ?_⟩
  unfold Merged at hname ⊢
  rwa [hmerges] at hname

/-- One method more. -/
lemma push {x : Method} (hp : p.methods = s.program.methods.push x) :
    s.Endures { s with program := p } := by
  have hmethod : ∀ k < s.program.methods.size, p.method k = s.program.method k := by
    intro k hk
    unfold Program.method
    rw [hp]
    simp [Array.getD_eq_getD_getElem?, Array.getElem?_push, hk.ne]
  refine ⟨by simp [hp], fun k hk => ?_, fun k hk => ?_, List.Subset.refl _, fun _ h => .inl h⟩
  · exact congrArg Method.name (hmethod k hk)
  · exact congrArg Method.epilogue (hmethod k hk)

end LowerState.Endures

namespace Lower

variable {s t u : LowerState} {env : Environment} {agenda : Agenda}

/-- What a compile is given to do: the actions that it may lower, the methods that it may add, and the
names of the variables that it may declare for parameters. -/
structure Agenda where
  acts : Action → Prop
  adds : String → MethodKind → Prop
  declares : String → Prop

/-- What a compile has to do of which nothing is known. -/
def Agenda.any : Agenda := ⟨fun _ => True, fun _ _ => True, fun _ => True⟩

/-- The lines that stand before a body: the check of a gate, the hand-over to another method, or the
call of the method that holds the body. -/
inductive Preamble (t : LowerState) : List Line → Prop where
  | gate {signature : String} {self : List SlotId} {allowed : SlotId} {l : InstrId}
      (known : (signature, self.length) ∈ [(HostCall.isOwner, 1), (HostCall.isMaster, 0)])
      (this : ∀ x ∈ self, t.program.slots.IsThis x) (spare : t.program.slots.Spare [] allowed)
      (ending : (t.program.method t.method).endLabel = some l) :
      Preamble t (callLines signature (self ++ [allowed]) ++ branchLines allowed l)
  | send {signature : String} {self : SlotId} {arguments : List SlotId}
      (known : (signature, arguments.length) ∈
        [(HostCall.sendCustomNetworkEvent, 2), (HostCall.sendCustomEventDelayed, 3)])
      (this : t.program.slots.IsThis self)
      (constant : ∀ x ∈ arguments, ∃ type value, t.program.slots.IsConstant type value x ∧
        ∀ y, value ≠ .address y)
      (named : t.program.Summons signature (self :: arguments)) :
      Preamble t (callLines signature (self :: arguments))
  | call {name : String} {returnSlot : SlotId} {code : List Line}
      (lines : MethodLines t.program.slots name returnSlot code)
      (callee : t.program.Callee name returnSlot)
      (halts : (t.program.method t.method).epilogue = .halt) : Preamble t code

/-- A step of a compile. The actions that are lowered are among the given ones. -/
inductive Step (env : Environment) (agenda : Agenda) (s : LowerState) : LowerState → Prop where
  /-- The compile turns to another place or method of the document. -/
  | turn {event : Nat} {coordinate : Coordinate} {used : List SlotId} {warnings : Array Warning}
      {method : MethodId} {locals inputs : List (String × SlotId)} (idle : s.Idle)
      (fewer : locals ⊆ s.locals) (fewerInputs : inputs ⊆ s.eventInputs)
      (own : method = s.method ∨ s.Owns method) :
      Step env agenda s
        { s with event, coordinate, used, warnings, method, locals, eventInputs := inputs }
  /-- The value that a handler knows becomes an event input. -/
  | previous {name : String} {id shadow : SlotId} (idle : s.Idle) (lt : id < s.program.slots.size)
      (isShadow : (s.program.slots.get id).shadow = some shadow) :
      Step env agenda s { s with eventInputs := (name, shadow) :: s.eventInputs }
  /-- An input of an event type gets its slot. -/
  | input {id : String} {type : EventType} {p : EventParameter} {slot : SlotId} {table : SlotTable}
      (idle : s.Idle) (known : (id, type) ∈ env.registry.events) (mem : p ∈ type.parameters)
      (reserved : s.program.slots.reserved p.slot p.type = .ok (slot, table)) :
      Step env agenda s
        { s with program := { s.program with slots := table },
                 eventInputs := (p.name, slot) :: s.eventInputs }
  /-- A parameter of a group's action gets its slot. -/
  | parameter {id name : String} {type : ValueType} {slot : SlotId} {table : SlotTable}
      (idle : s.Idle) (allowed : agenda.declares name)
      (declared : s.program.slots.declare name type .user = .ok (slot, table)) :
      Step env agenda s
        { s with program := { s.program with slots := table }, locals := (id, slot) :: s.locals }
  /-- A method is added that the host can start. -/
  | entry {name : String} (idle : s.Idle) (allowed : agenda.adds name .entry)
      (fresh : name ∉ s.program.names) :
      Step env agenda s
        { s with program :=
            { s.program with methods := s.program.methods.push { name, kind := .entry } } }
  /-- A method is added that is called, with a slot for the address to return to. -/
  | callee {name : String} {slot : SlotId} {table : SlotTable} (idle : s.Idle)
      (allowed : agenda.adds name .internal) (fresh : name ∉ s.program.names)
      (declared : s.program.slots.declare (name ++ "__return") .uint32 .reserved =
        .ok (slot, table)) :
      Step env agenda s
        { s with program :=
            { s.program with
              slots := table
              methods := s.program.methods.push
                { name, kind := .internal, epilogue := .indirect slot } } }
  /-- Lines are added that stand before a body. -/
  | preamble {t : LowerState} {code : List Line} (idle : s.Idle)
      (method_lt : s.method < s.program.methods.size) (emits : Emits s code t)
      (lines : Preamble t code) : Step env agenda s t
  /-- A body starts. -/
  | opens (idle : s.Idle) (method_lt : s.method < s.program.methods.size) : Step env agenda s (rooted s)
  /-- An action of a body is lowered. -/
  | action {d : ActionDef} {a : Action} {index : Nat} {u t : LowerState} (settled : s.Settled)
      (mem : agenda.acts a) (found : env.registry.findAction a.id a.group = .ok d)
      (admits : ∀ c, d.construct? = some c → Shape.admits c s.scopes.shapes = true)
      (lowered : Lowered env d a (atAction s index a.id) u) (sound : u.Sound)
      (settles : Settles u d t) (settled' : t.Settled)
      (shapes : t.scopes.shapes = Shape.follow d.construct? s.scopes.shapes) : Step env agenda s t
  /-- A body ends. -/
  | closes {t : LowerState} (settled : s.Settled) (ends : Ends s t) : Step env agenda s t

/-- The states that a sequence of steps leads to. -/
abbrev Steps (env : Environment) (agenda : Agenda) : LowerState → LowerState → Prop :=
  Relation.ReflTransGen (Step env agenda)

/-- A step, or what happens where something is left out with an error. -/
inductive Move (env : Environment) (agenda : Agenda) (s : LowerState) : LowerState → Prop where
  | step {t : LowerState} (step : Step env agenda s t) : Move env agenda s t
  /-- An action of a body is skipped. -/
  | skips {d : ActionDef} {a : Action} {index : Nat} {e : CompileError} {u t : LowerState}
      (settled : s.Settled) (mem : agenda.acts a) (skipped : Skipped d a (atAction s index a.id) e u t)
      (settled' : t.Settled) : Move env agenda s t
  /-- An event is left out. -/
  | omits (idle : s.Idle) (e : CompileError) : Move env agenda s { s with errors := s.errors.push e }

/-- The states that a sequence of moves leads to. -/
abbrev Moves (env : Environment) (agenda : Agenda) : LowerState → LowerState → Prop :=
  Relation.ReflTransGen (Move env agenda)

lemma Merges.endures {guid : String} {table : MergeTable} (h : Merges env s guid table t) :
    s.Endures t := by
  cases h with
  | before => exact .refl s
  | @now group r host unknown found merged entries methods renamed =>
    refine ⟨by simp [merged.methods], fun k hk => ?_, fun k hk => ?_, List.subset_cons_self _ _, ?_⟩
    · exact congrArg Method.name (merged.method_host hk)
    · exact congrArg Method.epilogue (merged.method_host hk)
    · rintro name ⟨e, he, x, hx, rfl⟩
      rcases List.mem_cons.mp he with rfl | he
      · rw [methods] at hx
        obtain ⟨y, hy, rfl⟩ := List.mem_map.mp hx
        obtain ⟨z, hz, rfl⟩ := List.mem_map.mp hy
        refine .inr ⟨?_, merged.fresh z hz⟩
        rw [merged.names_eq]
        exact List.mem_append_right _ (List.mem_map_of_mem hy)
      · exact .inl ⟨e, he, x, hx, rfl⟩

lemma Lowered.endures {a : Action} (h : Lowered env d a s t) : s.Endures t := by
  cases h with
  | statement _ _ _ prepares _ emits _ =>
    exact (LowerState.Endures.of_works prepares.adds.toWorks prepares.merges).trans
      (.of_works emits.adds.toWorks (by rw [emits.state]; rfl))
  | call _ prepares _ emits _ _ =>
    exact (LowerState.Endures.of_works prepares.adds.toWorks prepares.merges).trans
      (.of_works emits.adds.toWorks (by rw [emits.state]; rfl))
  | group _ prepares _ calls =>
    obtain ⟨merges, -, -, -, -, speaks, -⟩ := calls
    obtain ⟨p, warnings, hstate⟩ := speaks.state
    exact ((LowerState.Endures.of_works prepares.adds.toWorks prepares.merges).trans
      merges.endures).trans (.of_works speaks.adds.toWorks (by rw [hstate]))
  | opener _ _ prepares _ frames block =>
    obtain ⟨g, f', -, -, -, -, -, hstate⟩ := block.frames frames
    exact (LowerState.Endures.of_works prepares.adds.toWorks prepares.merges).trans
      (.of_works block.works (by rw [hstate]; rfl))
  | closer _ _ _ closes => exact .of_works closes.works (by rw [closes.state]; rfl)

lemma Settles.endures (h : Settles s d t) : s.Endures t :=
  .of_works h.adds.toWorks (by rw [h.state])

lemma Step.endures (h : Step env agenda s t) : s.Endures t := by
  cases h with
  | turn | previous | input | parameter | opens => exact .of_same rfl rfl
  | entry | callee => exact .push rfl
  | preamble _ _ emits _ => exact .of_works emits.adds.toWorks (by rw [emits.state]; rfl)
  | action _ _ _ _ lowered _ settles _ _ =>
    refine LowerState.Endures.trans ?_ (lowered.endures.trans settles.endures)
    exact .of_same rfl rfl
  | closes _ ends =>
    obtain ⟨f, -, hstate⟩ := ends.state
    exact .of_works ends.adds.toWorks (by rw [hstate]; rfl)

lemma Moves.endures (h : Moves env agenda s t) : s.Endures t := by
  induction h with
  | refl => exact .refl s
  | tail _ hmove ih =>
    refine ih.trans ?_
    cases hmove with
    | step step => exact step.endures
    | skips _ _ skipped _ =>
      have hprepares :=
        LowerState.Endures.of_works skipped.prepares.adds.toWorks skipped.prepares.merges
      refine LowerState.Endures.trans ?_ ((hprepares.trans ?_).trans skipped.settles.endures)
      · exact .of_same rfl rfl
      · exact .of_same rfl rfl
    | omits => exact .of_same rfl rfl

/-- A part of a compile: the tables grow, new errors lie in the document, and as long as there is
none the part is a sequence of steps. -/
structure Course (env : Environment) (agenda : Agenda) (s t : LowerState) : Prop where
  slots : s.program.slots.Within t.program.slots
  methods_le : s.program.methods.size ≤ t.program.methods.size
  moves : Moves env agenda s t
  steps : t.errors = #[] → s.errors = #[] ∧ Steps env agenda s t
  errors : ∀ e ∈ t.errors, e ∈ s.errors ∨ e.Ordinary

namespace Course

lemma refl (s : LowerState) : Course env agenda s s :=
  ⟨SlotTable.Within.refl _, le_rfl, .refl, fun h => ⟨h, .refl⟩, fun _ he => .inl he⟩

lemma endures (h : Course env agenda s t) : s.Endures t := h.moves.endures

lemma trans (h : Course env agenda s t) (h' : Course env agenda t u) : Course env agenda s u := by
  refine ⟨h.slots.trans h'.slots, h.methods_le.trans h'.methods_le, h.moves.trans h'.moves,
    fun hu => ?_, fun e he => ?_⟩
  · obtain ⟨ht, hsteps'⟩ := h'.steps hu
    obtain ⟨hs, hsteps⟩ := h.steps ht
    exact ⟨hs, hsteps.trans hsteps'⟩
  · rcases h'.errors e he with he | he
    · exact h.errors e he
    · exact .inr he

lemma of_step (h : Step env agenda s t) (hslots : s.program.slots.Within t.program.slots)
    (hmethods : s.program.methods.size ≤ t.program.methods.size) (herrors : t.errors = s.errors) :
    Course env agenda s t :=
  ⟨hslots, hmethods, .single (.step h), fun ht => ⟨herrors ▸ ht, .single h⟩,
    fun _ he => .inl (herrors ▸ he)⟩

end Course

/-- What is known of a failure: neither it nor what was kept before lies with the compiler. -/
structure Fault (s : LowerState) (e : CompileError) (t : LowerState) : Prop where
  ordinary : e.Ordinary
  errors : ∀ x ∈ t.errors, x ∈ s.errors ∨ x.Ordinary

lemma Fault.of_errors (he : e.Ordinary) (herrors : t.errors = s.errors) : Fault s e t :=
  ⟨he, fun _ hx => .inl (herrors ▸ hx)⟩

lemma Course.fault (h : Course env agenda s t) (hf : Fault t e u) : Fault s e u := by
  refine ⟨hf.ordinary, fun x hx => ?_⟩
  rcases hf.errors x hx with hx | hx
  · exact h.errors x hx
  · exact .inr hx

/-- A computation between two bodies that is part of a compile. -/
def Goes {α : Type} (env : Environment) (agenda : Agenda) (s : LowerState) (x : Lower α)
    (P : α → LowerState → Prop) : Prop :=
  Ensures s x (fun r t => t.Idle ∧ Course env agenda s t ∧ P r t) (Fault s)

namespace Goes

variable {α β : Type} {x : Lower α} {P Q : α → LowerState → Prop}

lemma pure (hs : s.Idle) {r : α} (h : P r s) : Goes env agenda s (pure r) P :=
  Ensures.of_ok rfl ⟨hs, Course.refl s, h⟩

/-- What is known after a run. -/
lemma ok (env : Environment) (h : Goes env agenda s x P) {r : α} (hx : x s = .ok r t) :
    t.Idle ∧ Course env agenda s t ∧ P r t :=
  Ensures.ok h hx

lemma mono (h : Goes env agenda s x P)
    (hPQ : ∀ r t, t.Idle → Course env agenda s t → P r t → Q r t) : Goes env agenda s x Q :=
  Ensures.mono h (fun r t ⟨hi, hc, hP⟩ => ⟨hi, hc, hPQ r t hi hc hP⟩) fun _ _ he => he

lemma bind {f : α → Lower β} {R : β → LowerState → Prop} (hx : Goes env agenda s x P)
    (hf : ∀ r t, t.Idle → Course env agenda s t → P r t → Goes env agenda t (f r) R) :
    Goes env agenda s (x >>= f) R := by
  refine Ensures.bind hx ?_
  rintro r t - ⟨hi, hc, hP⟩
  refine Ensures.mono (hf r t hi hc hP) ?_ ?_
  · rintro r' u ⟨hi', hc', hR⟩
    exact ⟨hi', hc.trans hc', hR⟩
  · exact fun e u he => hc.fault he

lemma of_ok {r : α} (hx : x s = .ok r t) (hi : t.Idle) (hc : Course env agenda s t) (hP : P r t) :
    Goes env agenda s x P :=
  Ensures.of_ok hx ⟨hi, hc, hP⟩

lemma of_error (hx : x s = .error e t) (he : e.Ordinary) (herrors : t.errors = s.errors) :
    Goes env agenda s x P :=
  Ensures.of_error hx (Fault.of_errors he herrors)

/-- A step that changes neither errors nor, but for growth, the tables. -/
lemma of_step {r : α} (hx : x s = .ok r t) (h : Step env agenda s t) (hi : t.Idle)
    (hslots : s.program.slots.Within t.program.slots)
    (hmethods : s.program.methods.size ≤ t.program.methods.size) (herrors : t.errors = s.errors)
    (hP : P r t) : Goes env agenda s x P :=
  of_ok hx hi (Course.of_step h hslots hmethods herrors) hP

lemma forM {ι : Type} {f : ι → Lower PUnit} {l : List ι} (hs : s.Idle)
    (hf : ∀ i ∈ l, ∀ t, t.Idle → Course env agenda s t → Goes env agenda t (f i) fun _ _ => True) :
    Goes env agenda s (l.forM f) fun _ _ => True := by
  induction l generalizing s with
  | nil => exact pure hs trivial
  | cons i l ih =>
    refine bind (hf i List.mem_cons_self s hs (Course.refl s)) fun _ t hi hc _ => ?_
    exact ih hi fun j hj u hu hcu => hf j (List.mem_cons_of_mem _ hj) u hu (hc.trans hcu)

end Goes

/-! ## Turning to another place -/

/-- The compile has turned to another place. -/
structure Turns (s t : LowerState) : Prop where
  state : ∃ event coordinate used warnings method locals inputs, locals ⊆ s.locals ∧
    inputs ⊆ s.eventInputs ∧ (method = s.method ∨ s.Owns method) ∧
    t = { s with event, coordinate, used, warnings, method, locals, eventInputs := inputs }

lemma Turns.program (h : Turns s t) : t.program = s.program := by
  obtain ⟨_, _, _, _, _, _, _, -, -, -, rfl⟩ := h.state
  rfl

lemma Turns.idle (h : Turns s t) (hs : s.Idle) : t.Idle := by
  obtain ⟨_, _, _, _, _, _, _, hlocals, hinputs, -, rfl⟩ := h.state
  exact
    { hs with
      locals := fun e he => hs.locals e (hlocals he)
      inputs := fun e he => hs.inputs e (hinputs he) }

lemma Goes.of_turn {α : Type} {x : Lower α} {r : α} {P : α → LowerState → Prop} (hs : s.Idle)
    (hx : x s = .ok r t) (ht : Turns s t) (hP : P r t) : Goes env agenda s x P := by
  have hi := ht.idle hs
  obtain ⟨event, coordinate, used, warnings, method, locals, inputs, hlocals, hinputs, hown, rfl⟩ :=
    ht.state
  exact Goes.of_step hx (.turn hs hlocals hinputs hown) hi (SlotTable.Within.refl _) le_rfl rfl hP

lemma beginEvent_goes (hs : s.Idle) (event : Nat) (entry : String) :
    Goes env agenda s (beginEvent event entry) fun _ t =>
      t = { s with event, coordinate := .entry event entry, locals := [], eventInputs := [] } :=
  Goes.of_turn hs rfl ⟨_, _, _, _, _, [], [], by simp, by simp, .inl rfl, rfl⟩ rfl

lemma enterMethod_goes (hs : s.Idle) {method : MethodId} (hm : s.Owns method) :
    Goes env agenda s (enterMethod method) fun _ t => t = { s with method } :=
  Goes.of_turn hs rfl
    ⟨_, _, _, _, _, _, _, List.Subset.refl _, List.Subset.refl _, .inr hm, rfl⟩ rfl

lemma warn_goes (hs : s.Idle) (message : String) :
    Goes env agenda s (warn message) fun _ t => ∃ warnings, t = { s with warnings } :=
  Goes.of_turn hs rfl
    ⟨_, _, _, _, _, _, _, List.Subset.refl _, List.Subset.refl _, .inl rfl, rfl⟩ ⟨_, rfl⟩

lemma warnAt_goes (hs : s.Idle) (coordinate : Option Coordinate) (message : String) :
    Goes env agenda s (warnAt coordinate message) fun _ t => ∃ warnings, t = { s with warnings } :=
  Goes.of_turn hs rfl
    ⟨_, _, _, _, _, _, _, List.Subset.refl _, List.Subset.refl _, .inl rfl, rfl⟩ ⟨_, rfl⟩

/-! ## Methods -/

lemma addMethod_cases (p : Program) (name : String) (kind : MethodKind) :
    (name ∉ p.names ∧ p.addMethod name kind =
      .ok (p.methods.size, { p with methods := p.methods.push { name, kind } })) ∨
    p.addMethod name kind = .error (.duplicateName name none) := by
  unfold Program.addMethod
  split_ifs with hname
  · exact .inr rfl
  · exact .inl ⟨fun h => hname ((p.findMethod?_isSome_iff name).mpr h), rfl⟩

/-- A new method is one of the document. -/
lemma owns_push (hs : s.Idle) {x : Method} (hp : p.methods = s.program.methods.push x)
    (hx : x.name ∉ s.program.names) :
    LowerState.Owns { s with program := p } s.program.methods.size := by
  have hmethod : p.method s.program.methods.size = x := by
    unfold Program.method
    rw [hp]
    simp [Array.getD_eq_getD_getElem?]
  refine ⟨by simp [hp], fun hmerged => hx (hs.named _ ?_)⟩
  change LowerState.Merged s (p.method _).name at hmerged
  rwa [hmethod] at hmerged

lemma entry_idle (hs : s.Idle) (name : String) :
    LowerState.Idle { s with program :=
      { s.program with methods := s.program.methods.push { name, kind := .entry } } } :=
  hs.on (hs.site_empty.addMethod name .entry) (Site.grows_addMethod _ name .entry)

lemma raise_method_goes (raised : Except ErrorKind MethodId → Lower MethodId) (name : String)
    (hok : ∀ m t, raised (.ok m) t = .ok m t)
    (herror : ∀ kind t, ∃ coordinate, raised (.error kind) t = .error ⟨kind, coordinate⟩ t)
    (hs : s.Idle) (hadds : agenda.adds name .entry) :
    Goes env agenda s (tryProgram (·.addMethod name .entry) >>= raised) fun m t =>
      m = s.program.methods.size ∧ t = { s with program :=
        { s.program with methods := s.program.methods.push { name, kind := .entry } } } ∧
      t.Owns m := by
  rcases addMethod_cases s.program name .entry with ⟨hname, hadd⟩ | hadd
  · refine Goes.of_step ((bind_of_ok (tryProgram_of_ok hadd) _).trans (hok _ _)) (.entry hs hadds hname)
      (entry_idle hs name) (SlotTable.Within.refl _) ?_ rfl ⟨rfl, rfl, owns_push hs rfl hname⟩
    simp
  · obtain ⟨coordinate, he⟩ := herror (.duplicateName name none) s
    exact Goes.of_error ((bind_of_ok (tryProgram_of_error hadd) _).trans he)
      (.of_duplicate ⟨_, _, rfl⟩) rfl

lemma addMethod_goes (hs : s.Idle) (hadds : agenda.adds name .entry) :
    Goes env agenda s (addMethod name .entry) fun m t => m = s.program.methods.size ∧
      t = { s with program :=
        { s.program with methods := s.program.methods.push { name, kind := .entry } } } ∧ t.Owns m :=
  raise_method_goes raise name (fun _ _ => rfl) (fun _ t => ⟨some t.coordinate, rfl⟩) hs hadds

lemma modify_push_size {α : Type} (xs : Array α) (x : α) (f : α → α) :
    (xs.push x).modify xs.size f = xs.push (f x) := by
  apply Array.ext
  · simp
  · intro i h₁ h₂
    rw [Array.getElem_modify]
    simp only [Array.getElem_push]
    have hi : i < xs.size + 1 := by simpa using h₂
    by_cases h : i < xs.size
    · rw [if_neg (by omega), dif_pos h, dif_pos h]
    · rw [if_pos (by omega), dif_neg h, dif_neg h]

/-- A method that is called: it is added, gets its slot, and is told to return through it. -/
lemma callee_goes {β : Type} (raisedMethod : Except ErrorKind MethodId → Lower MethodId)
    (raisedSlot : Except ErrorKind SlotId → Lower SlotId) (name : String)
    {k : MethodId → SlotId → Lower β} {R : β → LowerState → Prop}
    (hokMethod : ∀ m t, raisedMethod (.ok m) t = .ok m t)
    (herrorMethod : ∀ kind t, ∃ coordinate,
      raisedMethod (.error kind) t = .error ⟨kind, coordinate⟩ t)
    (hokSlot : ∀ m t, raisedSlot (.ok m) t = .ok m t)
    (herrorSlot : ∀ kind t, ∃ coordinate, raisedSlot (.error kind) t = .error ⟨kind, coordinate⟩ t)
    (hs : s.Idle) (hadds : agenda.adds name .internal)
    (hk : ∀ slot t, t.Idle → Course env agenda s t →
      slot < t.program.slots.size → t.program.Callee name slot → t.Owns s.program.methods.size →
      (∃ table, t = { s with program := { s.program with
        slots := table
        methods := s.program.methods.push { name, kind := .internal, epilogue := .indirect slot } } }) →
      Goes env agenda t (k s.program.methods.size slot) R) :
    Goes env agenda s (do
      let method ← tryProgram (·.addMethod name .internal) >>= raisedMethod
      let slot ← trySlots (·.declare (name ++ "__return") .uint32 .reserved) >>= raisedSlot
      onProgram fun p => ((), p.setEpilogue method (.indirect slot))
      k method slot) R := by
  rcases addMethod_cases s.program name .internal with ⟨hname, hadd⟩ | hadd
  swap
  · obtain ⟨coordinate, he⟩ := herrorMethod (.duplicateName name none) s
    exact Goes.of_error (bind_of_error ((bind_of_ok (tryProgram_of_error hadd) _).trans he) _)
      (.of_duplicate ⟨_, _, rfl⟩) rfl
  set methods := s.program.methods.push { name, kind := .internal } with hmethods
  have hadded : (tryProgram (·.addMethod name .internal) >>= raisedMethod) s =
      .ok s.program.methods.size { s with program := { s.program with methods } } :=
    (bind_of_ok (tryProgram_of_ok hadd) _).trans (hokMethod _ _)
  unfold Goes Ensures
  rw [bind_of_ok hadded]
  cases hdeclare : s.program.slots.declare (name ++ "__return") .uint32 .reserved with
  | error kind =>
    obtain ⟨n, other, rfl⟩ := SlotTable.insert_eq_error hdeclare
    obtain ⟨coordinate, he⟩ := herrorSlot (.duplicateName n other)
      { s with program := { s.program with methods } }
    rw [bind_of_error ((bind_of_ok (trySlots_of_error (s := { s with program :=
      { s.program with methods } }) hdeclare) _).trans he)]
    exact Fault.of_errors (.of_duplicate ⟨_, _, rfl⟩) rfl
  | ok result =>
    obtain ⟨slot, table⟩ := result
    rw [bind_of_ok ((bind_of_ok (trySlots_of_ok (s := { s with program :=
      { s.program with methods } }) hdeclare) _).trans (hokSlot _ _))]
    have hgains := SlotTable.declare_gains hdeclare
    set p : Program := { s.program with
      slots := table
      methods := s.program.methods.push { name, kind := .internal, epilogue := .indirect slot } }
      with hp
    have hset : (Program.setEpilogue { s.program with methods, slots := table }
        s.program.methods.size (.indirect slot)) = p := by
      simp only [Program.setEpilogue, Program.modifyMethod, hp, hmethods, modify_push_size]
    have hrun : onProgram (fun q => ((), q.setEpilogue s.program.methods.size (.indirect slot)))
        { s with program := { s.program with methods, slots := table } } =
        .ok () { s with program := p } := by
      unfold onProgram
      rw [modifyGet_apply, ← hset]
    rw [bind_of_ok hrun]
    have hsite : (⟨p, [], []⟩ : Site).Sound := by
      have hsound := ((hs.site_empty.addMethod name .internal).gains hgains).setEpilogue
        s.program.methods.size hgains.lt
      have heq : (Site.setEpilogue ⟨{ s.program with methods, slots := table }, [], []⟩
          s.program.methods.size (.indirect slot)) = ⟨p, [], []⟩ := by
        unfold Site.setEpilogue
        rw [← hset]
      exact heq ▸ hsound
    have hgrows : (⟨s.program, [], []⟩ : Site).Grows ⟨p, [], []⟩ := by
      refine ⟨hgains.within, fun l hl => ?_, fun n hn => ?_⟩
      · refine hl.imp (fun hl => ?_) fun hl => ?_
        · simpa [hp, Program.placed] using hl
        · simpa [hp, Site.promised, Program.endLabels] using hl
      · simp only [hp, Program.names, Array.toList_push, List.map_append, List.mem_append]
        exact .inl hn
    have hidle : LowerState.Idle { s with program := p } := hs.on hsite hgrows
    have hcourse : Course env agenda s { s with program := p } :=
      Course.of_step (.callee hs hadds hname hdeclare) hgains.within (by simp [hp]) rfl
    refine Ensures.mono (hk slot _ hidle hcourse hgains.lt
      ⟨{ name, kind := .internal, epilogue := .indirect slot }, by simp [hp], rfl, rfl⟩
      (owns_push hs rfl hname) ⟨table, rfl⟩) ?_ fun e t he => hcourse.fault he
    rintro r t ⟨hi, hc, hR⟩
    exact ⟨hi, hcourse.trans hc, hR⟩

end Lower

end TriggerCompiler
