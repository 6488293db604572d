import Mathlib
import TriggerCompiler.Proofs.Assembly

/-!
# The methods of a program under construction

A compile adds the methods that it is given to add, and those of the groups that it merges. The names of
the latter start with the prefix of merged groups, and the host can start none of them. Work on the body
of a method changes neither its name nor how it is entered.
-/

namespace TriggerCompiler

open Lower

namespace Program

variable {p host sub host' : Program} {r : Renaming} {name : String}

/-- The names of the methods, with how they are entered. -/
def roster (p : Program) : List (String × MethodKind) := p.methods.toList.map fun m => (m.name, m.kind)

/-- The host can start no method of the program. -/
def Internal (p : Program) : Prop := ∀ x ∈ p.roster, x.2 = .internal

lemma hasEntry_iff : p.HasEntry name ↔ (name, .entry) ∈ p.roster := by
  simp [HasEntry, roster]

lemma Internal.not_hasEntry (h : p.Internal) : ¬ p.HasEntry name := fun hentry => by
  cases h _ (hasEntry_iff.mp hentry)

lemma mem_names_iff : name ∈ p.names ↔ ∃ kind, (name, kind) ∈ p.roster := by
  simp [names, roster]

lemma Merged.roster (h : Merged host sub r host') :
    host'.roster = host.roster ++ sub.roster.map fun x => (r.namePrefix ++ x.1, x.2) := by
  simp [Program.roster, h.methods, Renaming.methodDef, Function.comp_def]

end Program

lemma Site.Works.roster {a b : Site} {m : MethodId} (h : a.Works m b) :
    b.program.roster = a.program.roster := by
  refine List.ext_getElem (by simp [Program.roster, h.methods]) fun k hk hk' => ?_
  have hb : k < b.program.methods.size := by simpa [Program.roster] using hk
  have ha : k < a.program.methods.size := by simpa [Program.roster] using hk'
  have hmethod : (b.program.method k).name = (a.program.method k).name ∧
      (b.program.method k).kind = (a.program.method k).kind := by
    by_cases hkm : k = m
    · exact hkm ▸ ⟨h.name, h.kind⟩
    · rw [h.others k hkm]
      exact ⟨rfl, rfl⟩
  simpa [Program.roster, Program.method, ha, hb] using hmethod

/-- Every method was to be added, or it came with a group. -/
def Program.Enlisted (env : Environment) (agenda : Agenda) (p : Program) : Prop :=
  ∀ x ∈ p.roster, agenda.adds x.1 x.2 ∨
    x.2 = .internal ∧ ∃ rest, x.1 = env.options.groupPrefix ++ rest

lemma Site.Works.enlisted {env : Environment} {agenda : Agenda} {a b : Site} {m : MethodId}
    (h : a.Works m b) (ha : a.program.Enlisted env agenda) : b.program.Enlisted env agenda :=
  fun x hx => ha x (h.roster ▸ hx)

namespace Lower

variable {s t : LowerState} {env : Environment} {agenda : Agenda} {d : ActionDef} {a : Action}

section

variable (hgroups : ∀ e ∈ env.registry.groups, e.2.program.Internal)

include hgroups

lemma Merges.enlisted {guid : String} {table : MergeTable} (h : Merges env s guid table t)
    (hs : s.program.Enlisted env agenda) : t.program.Enlisted env agenda := by
  cases h with
  | before known => exact hs
  | @now group r host unknown found merged entries methods renamed =>
    intro x hx
    change x ∈ host.roster at hx
    rw [merged.roster, List.mem_append, List.mem_map] at hx
    rcases hx with hx | ⟨y, hy, rfl⟩
    · exact hs x hx
    · refine .inr ⟨hgroups _ (mem_of_lookup found) y hy, toString s.mergeCount ++ "_" ++ y.1, ?_⟩
      simp [renamed, String.append_assoc]

lemma Lowered.enlisted (h : Lowered env d a s t) (hs : s.program.Enlisted env agenda) :
    t.program.Enlisted env agenda := by
  cases h with
  | statement _ _ _ prepares _ emits _ =>
    exact emits.adds.toWorks.enlisted (prepares.adds.toWorks.enlisted hs)
  | call _ prepares _ emits _ _ =>
    exact emits.adds.toWorks.enlisted (prepares.adds.toWorks.enlisted hs)
  | group _ prepares _ calls =>
    obtain ⟨merges, -, -, -, -, speaks, -⟩ := calls
    exact speaks.adds.toWorks.enlisted
      (merges.enlisted hgroups (prepares.adds.toWorks.enlisted hs))
  | opener _ _ prepares _ _ block => exact block.works.enlisted (prepares.adds.toWorks.enlisted hs)
  | closer _ _ _ closes => exact closes.works.enlisted hs

lemma Step.enlisted (h : Step env agenda s t) (hs : s.program.Enlisted env agenda) :
    t.program.Enlisted env agenda := by
  cases h with
  | turn | previous | opens | input | parameter => exact hs
  | entry _ allowed _ | callee _ allowed _ _ =>
    intro x hx
    rw [Program.roster, Array.toList_push, List.map_append, List.mem_append] at hx
    rcases hx with hx | hx
    · exact hs x hx
    · rw [List.mem_singleton.mp hx]
      exact .inl allowed
  | preamble _ _ emits _ => exact emits.adds.toWorks.enlisted hs
  | action _ _ _ _ lowered _ settles _ _ =>
    exact settles.adds.toWorks.enlisted (lowered.enlisted hgroups hs)
  | closes _ ends => exact ends.adds.toWorks.enlisted hs

lemma Steps.enlisted (h : Steps env agenda s t) (hs : s.program.Enlisted env agenda) :
    t.program.Enlisted env agenda := by
  induction h with
  | refl => exact hs
  | tail _ hstep ih => exact hstep.enlisted hgroups ih

end

end Lower

end TriggerCompiler
