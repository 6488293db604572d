import Mathlib
import TriggerCompiler.Proofs.Orderly
import TriggerCompiler.Proofs.Runs

/-!
# Registries with groups

The built-in registry, and what comes of it when compiled groups are added one after the other. Its host
calls are known, an action of a group has the parameters of the group's entry, and so the groups and
all triggers that are compiled with it keep to the rules. Main statement: a compiled trigger is ready
for the machine.
-/

namespace TriggerCompiler

variable {strict : Prop} {action : String} {r : Registry}

open Program

/-! ## The calls that are built in -/

/-- The number of arguments of a call. One of the built-in calls is not known to the machine. -/
def HostCall.arity? (signature : String) : Option Nat :=
  if signature = HostCall.setActive then some 2 else (Run.takes signature).map Prod.fst

/-- The rules for code that makes the calls of the compiler and of the built-in actions. -/
def Rules.builtin (strict : Prop) : Rules where
  calls signature flags := signature ≠ HostCall.sendCustomEvent ∧
    (signature = HostCall.setActive ∧ flags = [false, false] ∨
      Run.takes signature = some (flags.length, decide (flags.getLast? = some true)))
  strict := strict
  callable _ := True

/-- The rules for bodies whose end is still to come. Only the end of a method asks that variables be
sent. -/
def Rules.source (strict : Prop) : Rules :=
  { Rules.builtin strict with
    calls := fun signature flags =>
      (Rules.builtin strict).calls signature flags ∧ signature ≠ HostCall.requestSerialization }

namespace Rules

lemma takes_setActive : Run.takes HostCall.setActive = none := by decide

lemma builtin_takes : (builtin strict).Takes := by
  intro signature flags h
  obtain ⟨hne, ⟨rfl, -⟩ | htakes⟩ := h
  · exact ⟨hne, .inl takes_setActive⟩
  · exact ⟨hne, .inr htakes⟩

lemma builtin_arity {signature : String} {flags : List Bool}
    (h : (builtin strict).calls signature flags) :
    HostCall.arity? signature = some flags.length := by
  unfold HostCall.arity?
  obtain ⟨-, ⟨rfl, rfl⟩ | htakes⟩ := h
  · exact if_pos rfl
  · rw [if_neg, htakes, Option.map_some]
    rintro rfl
    rw [takes_setActive] at htakes
    cases htakes

lemma builtin_requests : (builtin strict).calls HostCall.requestSerialization [false] :=
  ⟨by decide, .inr (by decide)⟩

lemma source_covers : (source strict).Covers := by
  intro signature flags h
  cases h with
  | @differs type value =>
    cases type with
    | boolean | int32 | uint32 | single => exact ⟨⟨by decide, .inr (by decide)⟩, by decide⟩
    | _ => cases value
  | @comparison op known =>
    simp only [List.mem_cons, List.not_mem_nil, or_false] at known
    rcases known with rfl | rfl | rfl
    all_goals exact ⟨⟨by decide, .inr (by decide)⟩, by decide⟩
  | _ => exact ⟨⟨by decide +kernel, .inr (by decide +kernel)⟩, by decide +kernel⟩

end Rules

/-- A test of the call that an action makes, which actions that make none pass too. -/
def ActionKind.hostAll (kind : ActionKind) (test : String → Option ValueType → Bool) : Bool :=
  match kind with
  | .host signature onType => test signature onType
  | _ => true

namespace Registry

/-- At most the last parameter of a built-in call is written. -/
lemma builtinCalls_oneResult : ∀ d ∈ builtinCalls,
    (d.flags = List.replicate d.flags.length false ∨
      d.flags = List.replicate (d.flags.length - 1) false ++ [true]) ∧
    (d.manyTargets = true → true ∉ d.flags) := by
  decide

/-- The one built-in call that can be made on many targets is that which the machine does not know. -/
lemma builtinCalls_takes : ∀ d ∈ builtinCalls, ∀ signature onType, d.kind = .host signature onType →
    (¬ HostCall.Sends signature ∧ signature ≠ HostCall.requestSerialization) ∧
      ((d.manyTargets = false ∧
          Run.takes signature = some (d.flags.length, decide (d.flags.getLast? = some true))) ∨
        (d.manyTargets = true ∧ signature = HostCall.setActive ∧ d.flags = [false] ∧
          onType = some .gameObject)) := by
  have htable : ∀ d ∈ builtinCalls, (d.kind.hostAll fun signature onType => decide
      ((¬ HostCall.Sends signature ∧ signature ≠ HostCall.requestSerialization) ∧
      ((d.manyTargets = false ∧
          Run.takes signature = some (d.flags.length, decide (d.flags.getLast? = some true))) ∨
        (d.manyTargets = true ∧ signature = HostCall.setActive ∧ d.flags = [false] ∧
          onType = some .gameObject)))) = true := by
    decide
  intro d hd signature onType hkind
  have h := htable d hd
  rw [hkind] at h
  exact of_decide_eq_true h

lemma builtinCalls_known {d : ActionDef} (hd : d ∈ builtinCalls) :
    d.Known (Rules.source strict) where
  calls signature onType hkind := by
    obtain ⟨⟨hsilent, hreq⟩, hcase⟩ := builtinCalls_takes d hd _ _ hkind
    have hne : signature ≠ HostCall.sendCustomEvent := by
      rintro rfl
      exact hsilent (by decide)
    obtain ⟨hone, htakes⟩ | ⟨hmany, rfl, hflags, rfl⟩ := hcase
    · refine ⟨fun _ => ⟨⟨hne, .inr htakes⟩, hreq⟩, fun _ hmany => ?_⟩
      rw [hone] at hmany
      cases hmany
    · refine ⟨fun hno => ?_, fun _ _ => ⟨⟨hne, .inl ⟨rfl, by rw [hflags]⟩⟩, hreq⟩⟩
      rcases hno with hno | hno | ⟨type, htype, hvalue⟩
      · cases hno
      · rw [hmany] at hno
        cases hno
      · obtain rfl := Option.some.inj htype
        cases hvalue
  oneResult signature onType hkind := by
    obtain ⟨hlast, htargets⟩ := builtinCalls_oneResult d hd
    exact ⟨hlast.elim (fun h => ⟨_, .inl h⟩) fun h => ⟨_, .inr h⟩, htargets⟩
  silent signature onType hkind := (builtinCalls_takes d hd _ _ hkind).1.1

end Registry

/-! ## The entries of a group -/

namespace Lower

variable {env : Environment} {agenda : Agenda} {s t : LowerState}

lemma declareParameter_fst {place : Coordinate} {p : Parameter} {x : Parameter × SlotId}
    (h : declareParameter action place p s = .ok x t) : x.1 = p := by
  unfold declareParameter at h
  cases hp : p.type with
  | none =>
    rw [hp] at h
    cases h
  | some type =>
    rw [hp] at h
    obtain ⟨outcome, s₁, -, h⟩ := bind_eq_ok.mp h
    obtain ⟨slot, s₂, -, h⟩ := bind_eq_ok.mp h
    obtain ⟨⟨⟩, s₃, -, h⟩ := bind_eq_ok.mp h
    obtain ⟨rfl, -⟩ := EStateM.Result.ok.inj h
    rfl

lemma declareParameters_fst {place : Coordinate} {parameters : List Parameter}
    {r : List (Parameter × SlotId)}
    (h : parameters.mapM (declareParameter action place) s = .ok r t) :
    r.map Prod.fst = parameters := by
  induction parameters generalizing s r t with
  | nil =>
    obtain ⟨rfl, -⟩ := EStateM.Result.ok.inj h
    rfl
  | cons p parameters ih =>
    rw [List.mapM_cons] at h
    obtain ⟨x, s₁, hx, h⟩ := bind_eq_ok.mp h
    obtain ⟨xs, s₂, hxs, h⟩ := bind_eq_ok.mp h
    obtain ⟨rfl, -⟩ := EStateM.Result.ok.inj h
    rw [List.map_cons, declareParameter_fst hx, ih hxs]

/-- The entry of an action has its name and its parameters, and no method has that name before. -/
lemma assembleGroupAction_entry {index : Nat} {a : GroupAction} {e : GroupEntry}
    (h : assembleGroupAction env index a s = .ok e t) :
    e.name = a.name ∧ e.method = a.name ∧ e.parameters.map Prod.fst = a.parameters ∧
      a.name ∉ s.program.names := by
  unfold assembleGroupAction at h
  obtain ⟨⟨⟩, s₁, hbegin, h⟩ := bind_eq_ok.mp h
  obtain ⟨outcome, s₂, hadd, h⟩ := bind_eq_ok.mp h
  obtain ⟨method, s₃, hraise, h⟩ := bind_eq_ok.mp h
  obtain ⟨declared, s₄, -, h⟩ := bind_eq_ok.mp h
  obtain ⟨slot, s₅, -, h⟩ := bind_eq_ok.mp h
  obtain ⟨⟨⟩, s₆, -, h⟩ := bind_eq_ok.mp h
  obtain ⟨parameters, s₇, hparameters, h⟩ := bind_eq_ok.mp h
  obtain ⟨inputs, s₈, -, h⟩ := bind_eq_ok.mp h
  obtain ⟨⟨⟩, s₉, -, h⟩ := bind_eq_ok.mp h
  obtain ⟨⟨⟩, s₁₀, -, h⟩ := bind_eq_ok.mp h
  obtain ⟨rfl, -⟩ := EStateM.Result.ok.inj h
  refine ⟨rfl, rfl, declareParameters_fst hparameters, ?_⟩
  have hprogram : s₁.program = s.program := by
    obtain ⟨-, rfl⟩ := EStateM.Result.ok.inj hbegin
    rfl
  rcases addMethod_cases s₁.program a.name .internal with ⟨hfresh, -⟩ | herror
  · rwa [hprogram] at hfresh
  · obtain ⟨rfl, rfl⟩ := EStateM.Result.ok.inj ((tryProgram_of_error herror).symm.trans hadd)
    cases hraise

/-- The entries of a group are those of its actions, and no two have the same name. -/
lemma assembleGroupActions_entries (henv : env.Sound) {l : List GroupAction}
    (hl : ∀ a ∈ l, agenda.Admits a) (hs : s.Idle) {index : Nat} {r : List GroupEntry}
    (h : assembleGroupActions env index l s = .ok r t) (ht : t.errors = #[]) :
    (r.map (·.name)).Nodup ∧ (∀ e ∈ r, ∀ slot, ¬ s.program.Callee e.name slot) ∧
      ∀ e ∈ r, ∃ a ∈ l, e.parameters.map Prod.fst = a.parameters := by
  induction l generalizing s index r with
  | nil =>
    obtain ⟨rfl, -⟩ := EStateM.Result.ok.inj h
    simp
  | cons a l ih =>
    have hl' := fun b hb => hl b (List.mem_cons_of_mem _ hb)
    obtain ⟨e, s₁, he, h⟩ := bind_eq_ok.mp h
    obtain ⟨rest, s₂, hrest, h⟩ := bind_eq_ok.mp h
    obtain ⟨rfl, rfl⟩ := EStateM.Result.ok.inj h
    obtain ⟨hs₁, hcourse, u, hu, -, hus₁⟩ :=
      Ensures.ok (assembleGroupAction_goes henv index (hl a List.mem_cons_self) hs) he
    obtain ⟨-, hcourse', -⟩ := Ensures.ok (assembleGroupActions_goes henv hl' hs₁ _) hrest
    have hnone : s₁.errors = #[] := (hcourse'.steps ht).1
    obtain ⟨hnodup, hfresh, hparameters⟩ := ih hl' hs₁ hrest
    obtain ⟨hname, hmethod, hparams, hnew⟩ := assembleGroupAction_entry he
    have hcallee : s₁.program.Callee e.name e.returnSlot := by
      rw [hname, ← hmethod]
      exact hu.calleeAfter hus₁ hnone
    refine ⟨?_, ?_, ?_⟩
    · rw [List.map_cons, List.nodup_cons]
      refine ⟨fun hmem => ?_, hnodup⟩
      obtain ⟨x, hx, hsame⟩ := List.mem_map.mp hmem
      exact hfresh x hx e.returnSlot (hsame ▸ hcallee)
    · intro x hx slot hslot
      rcases List.mem_cons.mp hx with rfl | hx
      · exact hnew (hname ▸ hslot.mem_names)
      · exact hfresh x hx slot (Steps.keeps_callee (hcourse.steps hnone).2 hslot)
    · intro x hx
      rcases List.mem_cons.mp hx with rfl | hx
      · exact ⟨a, List.mem_cons_self, hparams⟩
      · obtain ⟨b, hb, hxb⟩ := hparameters x hx
        exact ⟨b, List.mem_cons_of_mem _ hb, hxb⟩

end Lower

/-- The entries of a compiled group have different names, and their parameters are those of actions of
the document. -/
lemma compileGroup_entries {env : Environment} {g : ActionGroup} (henv : env.Sound) (hg : g.NoAddress)
    {c : CompiledGroup} {notes : List Note} (h : compileGroup env g = .ok (c, notes)) :
    (c.entries.map (·.name)).Nodup ∧
      ∀ e ∈ c.entries, ∃ a ∈ g.actions, e.parameters.map Prod.fst = a.parameters := by
  obtain ⟨entries, s, hrun, hnone, rfl⟩ := compileGroup_eq_ok h
  obtain ⟨⟨⟩, s₀, hdeclared, hrun⟩ := bind_eq_ok.mp hrun
  obtain ⟨hidle, -⟩ := (Lower.declareGroup_ensures hg).ok hdeclared
  obtain ⟨hnodup, -, hparameters⟩ := Lower.assembleGroupActions_entries henv
    (fun a ha => Lower.Agenda.admits_group hg ha) hidle hrun hnone
  exact ⟨hnodup, hparameters⟩

/-! ## Registries -/

/-- The built-in registry with compiled groups added to it, in any order. The parameter says which
documents the groups may come from. -/
inductive Registry.Grown (documents : ActionGroup → Prop) : Registry → Prop where
  | builtin : Grown documents Registry.builtin
  | group {r home : Registry} {options : CompileOptions} {g : ActionGroup}
      {compiled : CompiledGroup} {notes : List Note} (origin : Grown documents home)
      (document : g.NoAddress) (allowed : documents g)
      (compile : compileGroup ⟨home, options⟩ g = .ok (compiled, notes))
      (grown : Grown documents r) : Grown documents (r.addGroup compiled)

namespace Registry

/-- The inputs of built-in events are players. -/
lemma builtin_events : ∀ e ∈ builtin.events, ∀ p ∈ e.2.parameters,
    p.type ≠ .uint32 ∧ p.type ≠ .gameObject := by
  decide

/-- No built-in action reads a parameter that it writes. -/
lemma builtin_directions : ∀ x ∈ builtin.actions, ∀ p ∈ x.2.parameters, p.direction ≠ .both := by
  decide

/-- Where an action of a group is known, and what it is known as, agree with the group. -/
structure Agrees (r : Registry) : Prop where
  key : ∀ x ∈ r.actions, ∀ guid action, x.2.kind = .group guid action → x.1 = (action, some guid)
  entry : ∀ guid g, r.group? guid = some g → ∀ e ∈ g.entries,
    r.actions.lookup (e.name, some guid) = some (groupActionDef guid e)

lemma Agrees.parameters (h : r.Agrees) {id : String} {group : Option String} {d : ActionDef}
    (hd : r.findAction id group = .ok d) {guid : String} (hkind : d.kind = .group guid action)
    {g : CompiledGroup} (hg : r.group? guid = some g) {e : GroupEntry} (he : e ∈ g.entries)
    (hname : e.name = action) :
    e.parameters.map Prod.fst = d.parameters := by
  obtain ⟨rfl, rfl⟩ := Prod.mk.inj (h.key _ (findAction_eq_ok hd) guid action hkind)
  have hlookup := h.entry guid g hg e he
  unfold findAction at hd
  rw [← hname, hlookup] at hd
  obtain rfl := Except.ok.inj hd
  rfl

lemma Agrees.addGroup (h : r.Agrees) {c : CompiledGroup} (hnodup : (c.entries.map (·.name)).Nodup) :
    (r.addGroup c).Agrees  where
  key x hx guid action hkind := by
    rw [actions_addGroup, List.mem_append, List.mem_reverse, List.mem_map] at hx
    rcases hx with ⟨e, -, rfl⟩ | hx
    · obtain ⟨rfl, rfl⟩ := ActionKind.group.inj hkind
      rfl
    · exact h.key x hx guid action hkind
  entry guid g hg e he := by
    rw [actions_addGroup, List.lookup_append]
    by_cases hguid : guid = c.guid
    · subst hguid
      obtain rfl : c = g := by simpa [group?, Registry.addGroup] using hg
      have hkeys : ((c.entries.map fun e => ((e.name, some c.guid), groupActionDef c.guid e)).map
          Prod.fst).Nodup := by
        rw [List.map_map]
        have hinjective : Function.Injective fun name : String => (name, some c.guid) :=
          fun _ _ hsame => (Prod.mk.inj hsame).1
        simpa [List.map_map, Function.comp_def] using hnodup.map hinjective
      rw [← List.nodup_reverse, ← List.map_reverse] at hkeys
      rw [lookup_of_nodup hkeys (v := groupActionDef c.guid e), Option.some_or]
      exact List.mem_reverse.mpr (List.mem_map.mpr ⟨e, he, rfl⟩)
    · have hold : r.group? guid = some g := by
        have hbeq : (guid == c.guid) = false := by simpa using hguid
        simpa [group?, Registry.addGroup, List.lookup_cons, hbeq] using hg
      have hnone : (c.entries.map fun e =>
          ((e.name, some c.guid), groupActionDef c.guid e)).reverse.lookup (e.name, some guid) = none := by
        rw [List.lookup_eq_none_iff]
        simp [hguid]
      rw [hnone, Option.none_or]
      exact h.entry guid g hold e he

namespace Grown

variable {documents : ActionGroup → Prop}

section

variable (h : r.Grown documents)
include h

lemma standard : r.Standard := by
  induction h with
  | builtin => exact .builtin
  | group _ document _ compile _ ihome ih => exact .group ihome document compile ih

lemma events : r.events = Registry.builtin.events := by
  induction h with
  | builtin => rfl
  | group _ _ _ _ _ _ ih => exact ih

lemma agrees : r.Agrees := by
  induction h with
  | builtin =>
    refine ⟨fun x hx guid action hkind => ?_, fun guid g hg => ?_⟩
    · obtain ⟨-, ⟨c, hc⟩ | hd⟩ := @mem_builtin_actions x.2 x.1 hx
      · rw [hc] at hkind
        cases hkind
      · obtain ⟨-, -, signature, onType, hhost⟩ := construct?_builtinCalls hd
        rw [hhost] at hkind
        cases hkind
    · unfold group? at hg
      rw [builtin_groups] at hg
      cases hg
  | group origin document _ compile _ _ ih =>
    exact ih.addGroup (compileGroup_entries (origin.standard.sound _) document compile).1

/-- The parameters of actions are read or written, but not both, if those of the documents are. -/
lemma directions
    (hdocuments : ∀ g, documents g → ∀ a ∈ g.actions, ∀ p ∈ a.parameters, p.direction ≠ .both) :
    ∀ x ∈ r.actions, ∀ p ∈ x.2.parameters, p.direction ≠ .both := by
  induction h with
  | builtin => exact builtin_directions
  | @group r home options g compiled notes origin document allowed compile grown _ ih =>
    intro x hx
    rw [actions_addGroup, List.mem_append, List.mem_reverse, List.mem_map] at hx
    rcases hx with ⟨e, he, rfl⟩ | hx
    · obtain ⟨a, ha, hparameters⟩ :=
        (compileGroup_entries (origin.standard.sound _) document compile).2 e he
      intro p hp
      exact hdocuments g allowed a ha p (hparameters ▸ hp)
    · exact ih x hx

/-- What a registry has to offer keeps to the rules: its definitions are known, and its groups are
fine. -/
lemma orderly
    (hstrict : strict → ∀ g, documents g → ∀ a ∈ g.actions, ∀ p ∈ a.parameters, p.direction ≠ .both)
    (options : CompileOptions) {acts : Action → Prop} (hacts : ∀ a, acts a → a.NoAddress) :
    Lower.Orderly ⟨r, options⟩ (Rules.source strict) acts := by
  have hknown : ∀ {r : Registry}, r.Grown documents →
      ∀ x ∈ r.actions, x.2.Known (Rules.source strict) := by
    intro r hr
    induction hr with
    | builtin =>
      intro x hx
      obtain ⟨-, ⟨c, hc⟩ | hd⟩ := @mem_builtin_actions x.2 x.1 hx
      · apply ActionDef.known_of_ne
        intro signature onType hkind
        rw [hc] at hkind
        cases hkind
      · exact builtinCalls_known hd
    | group _ _ _ _ _ _ ih =>
      intro x hx
      rw [actions_addGroup, List.mem_append, List.mem_reverse, List.mem_map] at hx
      rcases hx with ⟨e, -, rfl⟩ | hx
      · apply ActionDef.known_of_ne
        intro signature onType hkind
        cases hkind
      · exact ih x hx
  -- all but the groups comes without an induction
  have hmake : ∀ {r : Registry} {options : CompileOptions} {acts : Action → Prop},
      r.Grown documents → (∀ e ∈ r.groups, e.2.Fine (Rules.source strict)) →
      (∀ a, acts a → a.NoAddress) → Lower.Orderly ⟨r, options⟩ (Rules.source strict) acts := by
    intro r options acts hr hfine hacts
    exact
      { sound := hr.standard.sound options
        covers := Rules.source_covers
        noAddress := hacts
        known := fun _ _ _ hfound => hknown hr _ (findAction_eq_ok hfound)
        fine := hfine
        events := by
          intro e he
          rw [show Environment.registry ⟨r, options⟩ = r from rfl, hr.events] at he
          exact builtin_events e he
        callable := fun _ => trivial
        strict := fun hs _ _ _ hfound => hr.directions (hstrict hs) _ (findAction_eq_ok hfound)
        agrees := fun _ _ _ _ hfound _ _ hkind _ hg _ he hname =>
          hr.agrees.parameters hfound hkind hg he hname }
  refine hmake h ?_ hacts
  induction h with
  | builtin => simp [builtin_groups]
  | @group r home options g compiled notes origin document allowed compile grown ihome ih =>
    intro x hx
    rcases List.mem_cons.mp hx with rfl | hx
    · exact compileGroup_fine (hmake origin ihome fun a ⟨x, hx, ha⟩ => document.actions x hx a ha)
        document compile
    · exact ih x hx

end

end Grown

end Registry

/-- What keeps to the rules for bodies keeps to those for finished code. -/
lemma Program.Orderly.builtin {p : Program} (h : p.Orderly (Rules.source strict)) :
    p.Orderly (Rules.builtin strict) where
  tidy := h.tidy
  spelled k hk := (h.spelled k hk).mono ⟨fun _ h => h, fun _ _ h => h, fun _ _ _ h => h,
    fun _ _ h => h.1, fun _ _ h => h, fun _ h => h, fun _ _ h => h, fun _ _ h => h⟩

/-- A trigger that was compiled is linked from a program that keeps to the rules for bodies. -/
lemma compileTrigger_source {documents : ActionGroup → Prop} (hr : r.Grown documents)
    (hstrict : strict → ∀ g, documents g → ∀ a ∈ g.actions, ∀ p ∈ a.parameters, p.direction ≠ .both)
    {options : CompileOptions} {t : Trigger} (ht : t.NoAddress) {c : CompiledTrigger}
    (h : compileTrigger ⟨r, options⟩ t = .ok c) :
    ∃ p : Program, p.Orderly (Rules.source strict) ∧ p.Declares t.declarations ∧
      (⟨p, [], []⟩ : Site).Sound ∧ p.Links options c.program := by
  have henv : Lower.Orderly ⟨r, options⟩ (Rules.source strict) t.Has :=
    hr.orderly hstrict options fun a ⟨x, hx, ha⟩ => ht.actions x hx a ha
  exact compileTrigger_orderly henv ht h

/-- A trigger that was compiled is ready for the machine. -/
lemma compileTrigger_ready {documents : ActionGroup → Prop} (hr : r.Grown documents)
    (hstrict : strict → ∀ g, documents g → ∀ a ∈ g.actions, ∀ p ∈ a.parameters, p.direction ≠ .both)
    {options : CompileOptions} {t : Trigger} (ht : t.NoAddress) {c : CompiledTrigger}
    (h : compileTrigger ⟨r, options⟩ t = .ok c) :
    ∃ f, Ready (Rules.builtin strict) f c.program ∧ f.Declares t.declarations := by
  obtain ⟨p, hp, ⟨table, hdeclares, henlarges⟩, hsite, hlinks⟩ :=
    compileTrigger_source hr hstrict ht h
  have hready := hlinks.ready hp.builtin Rules.builtin_requests hsite
  have hfinished := (finishMethods_finished options hsite).enlarges
  exact ⟨_, hready, table, hdeclares, henlarges.trans hfinished⟩

end TriggerCompiler
