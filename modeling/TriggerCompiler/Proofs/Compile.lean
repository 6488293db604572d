import Mathlib
import TriggerCompiler.Engine
import TriggerCompiler.Proofs.Entries
import TriggerCompiler.Proofs.Linking
import TriggerCompiler.Proofs.Registry
import TriggerCompiler.Trigger.Document

/-!
# Compiles

A registry that was built up from the built-in one by event types, host calls and compiled groups
holds only groups whose programs are sound. With such a registry a compile may fail, but never by a
rule of the compiler itself: no label is placed twice or left out, no jump goes astray and no method
that is called is missing, whatever the document asks for.
-/

namespace TriggerCompiler

variable {env : Environment} {r : Registry} {t : Trigger} {g : ActionGroup} {f : Failure}

/-! ## Registries -/

/-- The registries that are built up from the built-in one. A group may have been compiled with any
of them. -/
inductive Registry.Standard : Registry → Prop where
  | builtin : Standard Registry.builtin
  | event {r : Registry} (e : EventType) (standard : Standard r) : Standard (r.addEvent e)
  | call {r : Registry} {d : ActionDef} {signature : String} {onType : Option ValueType}
      (kind : d.kind = .host signature onType) (standard : Standard r) : Standard (r.addAction d)
  | group {r home : Registry} {options : CompileOptions} {g : ActionGroup}
      {compiled : CompiledGroup} {notes : List Note} (origin : Standard home)
      (document : g.NoAddress) (compile : compileGroup ⟨home, options⟩ g = .ok (compiled, notes))
      (standard : Standard r) : Standard (r.addGroup compiled)

lemma Registry.actions_addGroup (r : Registry) (c : CompiledGroup) :
    (r.addGroup c).actions =
      (c.entries.map fun e => ((e.name, some c.guid), groupActionDef c.guid e)).reverse ++
        r.actions := by
  unfold addGroup
  dsimp only
  generalize r.actions = actions
  induction c.entries generalizing actions with
  | nil => rfl
  | cons e entries ih => simp [ih]

/-! ## Groups -/

/-- A compiled group was assembled without an error. -/
lemma compileGroup_eq_ok {c : CompiledGroup} {notes : List Note}
    (h : compileGroup env g = .ok (c, notes)) :
    ∃ entries s, Lower.assembleGroup env g {} = .ok entries s ∧ s.errors = #[] ∧
      c = { guid := g.guid, name := g.name, program := s.program, entries,
            warnings := s.warnings.toList } := by
  unfold compileGroup at h
  split at h
  · cases h
  · rename_i entries s hrun
    split_ifs at h with herrors
    obtain ⟨rfl, rfl⟩ := Prod.mk.inj (Except.ok.inj h)
    exact ⟨entries, s, hrun, Array.isEmpty_iff.mp herrors, rfl⟩

/-- A compiled trigger was assembled without an error and then linked. -/
lemma compileTrigger_eq_ok {c : CompiledTrigger} (h : compileTrigger env t = .ok c) :
    ∃ s, Lower.assembleTrigger env t {} = .ok ⟨⟩ s ∧ s.errors = #[] ∧
      s.program.link env.options = .ok c.program := by
  unfold compileTrigger at h
  split at h
  · cases h
  · rename_i s hrun
    split_ifs at h with herrors
    split at h
    · cases h
    · rename_i q hlink
      obtain rfl := Except.ok.inj h
      exact ⟨s, hrun, Array.isEmpty_iff.mp herrors, hlink⟩

/-- The entries of a compiled group are those of its program. -/
lemma compileGroup_sound (henv : env.Sound) (hg : g.NoAddress) {c : CompiledGroup}
    {notes : List Note} (h : compileGroup env g = .ok (c, notes)) : c.Sound := by
  obtain ⟨entries, s, hrun, hnone, rfl⟩ := compileGroup_eq_ok h
  obtain ⟨hidle, table, warnings, -, -, -, hentries⟩ :=
    (Lower.assembleGroup_ensures henv hg).ok hrun
  refine ⟨hidle.site_empty, fun e he => ?_⟩
  obtain ⟨u, hu, -, hcourse⟩ := hentries e he
  exact hu.sound hcourse hnone

/-- What a standard registry knows is lowered by the compiler itself. -/
lemma Registry.Standard.sound (h : r.Standard) (options : CompileOptions) :
    Environment.Sound ⟨r, options⟩ := by
  have hmembers : (∀ x ∈ r.actions, x.2.IsPlain) ∧ Lower.SoundGroups r := by
    induction h with
    | builtin => exact ⟨fun x hx => isPlain_of_mem hx, soundGroups_builtin⟩
    | event e _ ih => exact ih
    | @call r d signature onType kind _ ih =>
      refine ⟨?_, ih.2⟩
      rintro x (_ | ⟨_, hx⟩)
      · unfold ActionDef.IsPlain
        rw [kind]
        trivial
      · exact ih.1 x hx
    | @group r home options g compiled notes origin document compile _ ihome ih =>
      refine ⟨fun x hx => ?_, ?_⟩
      · rw [actions_addGroup, List.mem_append, List.mem_reverse, List.mem_map] at hx
        rcases hx with ⟨e, -, rfl⟩ | hx
        · exact trivial
        · exact ih.1 x hx
      · have hhome : Environment.Sound ⟨home, options⟩ :=
          ⟨ihome.2, fun _ _ _ hfound => ihome.1 _ (findAction_eq_ok hfound)⟩
        rintro x (_ | ⟨_, hx⟩)
        · exact compileGroup_sound hhome document compile
        · exact ih.2 x hx
  exact ⟨hmembers.2, fun _ _ _ hfound => hmembers.1 _ (findAction_eq_ok hfound)⟩

/-! ## Failures -/

/-- No error of the failure lies with the compiler. -/
def Failure.Ordinary (f : Failure) : Prop := ∀ e ∈ f.errors, e.Ordinary

lemma Lower.AllOrdinary.failure {e : CompileError} {s : LowerState} (h : AllOrdinary e s) :
    (s.failure (some e)).Ordinary := by
  intro x hx
  rcases List.mem_append.mp hx with hx | hx
  · exact h.2 x (by simpa using hx)
  · obtain rfl : x = e := by simpa using hx
    exact h.1

end TriggerCompiler
