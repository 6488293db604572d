import Mathlib
import TriggerCompiler.Proofs.Lowering
import TriggerCompiler.Proofs.Tree

/-!
# What registries know

The built-in registry knows every construct under its name, and host calls under names that no
construct has.
-/

namespace TriggerCompiler

variable {d : ActionDef} {id : String} {group : Option String}

lemma Construct.ofName?_name (c : Construct) : Construct.ofName? c.name = some c := by
  cases c <;> decide

namespace Registry

lemma actions_addActions (l : List ActionDef) (r : Registry) :
    (l.foldl addAction r).actions = (l.map fun d => ((d.id, none), d)).reverse ++ r.actions := by
  induction l generalizing r with
  | nil => rfl
  | cons d l ih => simp [ih, addAction]

lemma actions_addEvents (l : List EventType) (r : Registry) :
    (l.foldl addEvent r).actions = r.actions := by
  induction l generalizing r with
  | nil => rfl
  | cons e l ih => rw [List.foldl_cons, ih, addEvent]

/-- The actions that are built in. -/
lemma mem_builtin_actions {key : String × Option String} (h : (key, d) ∈ builtin.actions) :
    key = (d.id, none) ∧
      ((∃ c : Construct, d = c.definition) ∨ d ∈ builtinCalls) := by
  unfold builtin at h
  dsimp only at h
  rw [actions_addEvents, actions_addActions] at h
  simp only [List.append_nil, List.mem_reverse, List.mem_map, Prod.mk.injEq] at h
  obtain ⟨e, he, hkey, rfl⟩ := h
  refine ⟨hkey.symm, (List.mem_append.mp he).imp (fun he => ?_) id⟩
  obtain ⟨c, -, rfl⟩ := List.mem_map.mp he
  exact ⟨c, rfl⟩

lemma builtin_groups : builtin.groups = [] := by
  have hactions : ∀ (l : List ActionDef) (r : Registry), (l.foldl addAction r).groups = r.groups := by
    intro l
    induction l with
    | nil => exact fun _ => rfl
    | cons d l ih => exact fun r => ih (r.addAction d)
  have hevents : ∀ (l : List EventType) (r : Registry), (l.foldl addEvent r).groups = r.groups := by
    intro l
    induction l with
    | nil => exact fun _ => rfl
    | cons e l ih => exact fun r => ih (r.addEvent e)
  unfold builtin
  dsimp only
  rw [hevents, hactions]

lemma soundGroups_builtin : Lower.SoundGroups builtin := by
  unfold Lower.SoundGroups
  rw [builtin_groups]
  simp

lemma findAction_eq_ok {r : Registry} (h : r.findAction id group = .ok d) :
    ((id, group), d) ∈ r.actions := by
  unfold findAction at h
  split at h
  · rename_i e hlookup
    obtain rfl := Except.ok.inj h
    exact mem_of_lookup hlookup
  · cases h

/-- A built-in action is a construct under its name, or a host call. -/
lemma findAction_builtin (h : builtin.findAction id group = .ok d) : group = none ∧ id = d.id ∧
      ((∃ c : Construct, d = c.definition) ∨ d ∈ builtinCalls) := by
  obtain ⟨hkey, hd⟩ := mem_builtin_actions (findAction_eq_ok h)
  obtain ⟨rfl, rfl⟩ := Prod.mk.inj hkey
  exact ⟨rfl, rfl, hd⟩

lemma construct?_builtinCalls (hd : d ∈ builtinCalls) :
    d.construct? = none ∧ Construct.ofName? d.id = none ∧
      ∃ signature onType, d.kind = .host signature onType := by
  unfold builtinCalls at hd
  simp only [List.mem_cons, List.not_mem_nil, or_false] at hd
  rcases hd with rfl | rfl | rfl | rfl | rfl | rfl | rfl | rfl | rfl
  all_goals exact ⟨rfl, by decide, _, _, rfl⟩

/-- The construct of a built-in action is that of its definition. -/
lemma construct?_of_mem_builtin {a : Action} (h : ((a.id, a.group), d) ∈ builtin.actions) :
    a.construct? = d.construct? := by
  obtain ⟨hkey, hd⟩ := mem_builtin_actions h
  obtain ⟨hid, hgroup⟩ := Prod.mk.inj hkey
  unfold Action.construct?
  rw [hgroup, hid]
  rcases hd with ⟨c, rfl⟩ | hd
  · exact c.ofName?_name
  · obtain ⟨hconstruct, hname, -⟩ := construct?_builtinCalls hd
    rw [hconstruct]
    exact hname

lemma construct?_of_findAction {a : Action} (h : builtin.findAction a.id a.group = .ok d) :
    a.construct? = d.construct? :=
  construct?_of_mem_builtin (findAction_eq_ok h)

/-- No built-in action belongs to a group. -/
lemma kind_ne_group (h : builtin.findAction id group = .ok d) (guid action : String) :
    d.kind ≠ .group guid action := by
  intro hgroup
  obtain ⟨-, -, ⟨c, rfl⟩ | hd⟩ := findAction_builtin h
  · cases hgroup
  · obtain ⟨-, -, signature, onType, hkind⟩ := construct?_builtinCalls hd
    rw [hkind] at hgroup
    cases hgroup

lemma isPlain_of_mem {x : (String × Option String) × ActionDef} (h : x ∈ builtin.actions) :
    x.2.IsPlain := by
  obtain ⟨-, ⟨c, hc⟩ | hd⟩ := @mem_builtin_actions x.2 x.1 h
  · rw [hc]
    rfl
  · obtain ⟨-, -, signature, onType, hkind⟩ := construct?_builtinCalls hd
    unfold ActionDef.IsPlain
    rw [hkind]
    trivial

end Registry

end TriggerCompiler
