import Mathlib
import TriggerCompiler.Proofs.EventMethods
import TriggerCompiler.Proofs.GrownRegistry
import TriggerCompiler.Proofs.Operands

/-!
# The names of sent events

Code sends an event to hand over a broadcast or delayed event, and to tell that a watched variable has
changed. The name that it sends is a constant, and a method that the host can start has that name: this
is `sent_events_exist`. For a handler this is known only at the end, when those that no event has
provided are added. They are, for no method of another kind has the name of a handler: the names of
methods that cannot be started are those of merged groups and of events that share their exported name.
-/

namespace TriggerCompiler

open Lower Program

/-! ## Pushed slots -/

/-- Where the rule holds, the slots on the stack were pushed directly before. -/
lemma pushed_of_along {v : Terms} (code : List Line)
    (h : ∀ xs x ys, code = xs ++ x :: ys → ∃ after, v.Proper xs x after) :
    ∃ before, code = before ++ pushLines (held code).reverse := by
  induction code using List.reverseRecOn with
  | nil => exact ⟨[], rfl⟩
  | append_singleton code x ih =>
    obtain ⟨before, hbefore⟩ := ih fun xs y ys hsplit => h xs y (ys ++ [x]) (by simp [hsplit])
    obtain ⟨after, hx⟩ := h code x [] rfl
    rw [held_concat]
    -- an instruction that is no push leaves nothing, or found nothing that it could leave
    have hnone : x.instr.leaves (held code) = [] →
        ∃ before, code ++ [x] = before ++ pushLines (x.instr.leaves (held code)).reverse := by
      intro hleaves
      rw [hleaves]
      exact ⟨code ++ [x], by simp [pushLines]⟩
    cases x with
    | label l => exact hnone hx
    | code i =>
      cases i with
      | push slot =>
        refine ⟨before, ?_⟩
        nth_rewrite 1 [hbefore]
        simp [Line.instr, Instr.leaves, pushLines]
      | nop => exact hnone hx
      | copy | jumpIfFalse | host => exact hnone rfl
      | jump => exact hnone hx.2
      | jumpIndirect | jumpMethod | halt => exact hnone hx.1

/-! ## Handlers -/

namespace Program

variable {p q : Program} {name : String}

lemma Stays.roster (h : p.Stays q) {x : String × MethodKind} (hx : x ∈ p.roster) : x ∈ q.roster := by
  obtain ⟨m, hm, rfl⟩ := List.mem_map.mp hx
  obtain ⟨k, hk, rfl⟩ := exists_method_of_mem hm
  rw [← (h.spares k hk).method]
  exact List.mem_map_of_mem (method_mem (hk.trans_le h.size_le))

end Program

namespace Lower

variable {s u v : LowerState} {env : Environment} {t : Trigger}

/-- After the missing handlers are added each watched variable has a method with the name of its
handler. -/
lemma addMissingHandlers_names {declarations : List VariableDecl}
    (h : addMissingHandlers declarations s = .ok ⟨⟩ u) {x : VariableDecl} (hx : x ∈ declarations)
    (hnotifies : x.notifies = true) : handlerName x.name ∈ u.program.names := by
  induction declarations generalizing s with
  | nil => cases hx
  | cons y declarations ih =>
    obtain ⟨⟨⟩, w, hfirst, hrest⟩ := bind_eq_ok.mp h
    rcases List.mem_cons.mp hx with rfl | hx
    · have hlater : addMissingHandlers declarations w = .ok ⟨⟩ u := hrest
      have hstays := Preserves.of_ok (R := Program.Stays) hlater
      suffices hname : handlerName x.name ∈ w.program.names by
        obtain ⟨kind, hkind⟩ := mem_names_iff.mp hname
        exact mem_names_iff.mpr ⟨kind, hstays.roster hkind⟩
      obtain ⟨s₀, s₁, hget, hfirst⟩ := bind_eq_ok.mp hfirst
      obtain ⟨rfl, rfl⟩ := EStateM.Result.ok.inj hget
      split_ifs at hfirst with hmissing
      · obtain ⟨outcome, s₁, htry, hfirst⟩ := bind_eq_ok.mp hfirst
        obtain ⟨m, s₂, hraise, hwarn⟩ := bind_eq_ok.mp hfirst
        obtain ⟨-, rfl⟩ := EStateM.Result.ok.inj hwarn
        rcases addMethod_cases s.program (handlerName x.name) .entry with ⟨-, hadd⟩ | hadd
        · rw [tryProgram_of_ok hadd] at htry
          obtain ⟨rfl, rfl⟩ := EStateM.Result.ok.inj htry
          obtain ⟨-, rfl⟩ := EStateM.Result.ok.inj hraise
          simp [names]
        · rw [tryProgram_of_error hadd] at htry
          obtain ⟨rfl, rfl⟩ := EStateM.Result.ok.inj htry
          cases hraise
      · obtain ⟨-, rfl⟩ := EStateM.Result.ok.inj hfirst
        simpa [hnotifies, ← findMethod?_isSome_iff, Option.isSome_iff_ne_none] using hmissing
    · exact ih hrest hx

lemma handlerName_ne_ownName (name : String) (plan : PlannedEvent) :
    handlerName name ≠ plan.ownName := by
  intro h
  have hchars := congrArg String.toList h
  simp [handlerName, PlannedEvent.ownName] at hchars

lemma handlerName_ne_merged (name rest : String) :
    handlerName name ≠ ({} : CompileOptions).groupPrefix ++ rest := by
  intro h
  have hchars := congrArg String.toList h
  simp [handlerName] at hchars

/-- A method with the name of a handler can be started. -/
lemma adds_handler {r : Registry} {name : String} {kind : MethodKind}
    (h : t.Adds r (handlerName name) kind) : kind = .entry := by
  generalize hname : handlerName name = n at h
  cases h with
  | handler => rfl
  | @event plan _ _ mem exports adds =>
    cases adds with
    | exported | network | delayed => rfl
    | shared => exact absurd hname (handlerName_ne_ownName name plan)

/-- In a trigger that was assembled without an error each watched variable has a handler. -/
lemma assembleTrigger_handlers (henv : env.Sound) (ht : t.NoAddress)
    (hgroups : ∀ e ∈ env.registry.groups, e.2.program.Internal)
    (hstart : env.options.groupPrefix = ({} : CompileOptions).groupPrefix)
    (hrun : assembleTrigger env t {} = .ok ⟨⟩ s) (herrors : s.errors = #[]) {x : VariableDecl}
    (hx : x ∈ t.declarations) (hnotifies : x.notifies = true) :
    s.program.HasEntry (handlerName x.name) := by
  obtain ⟨-, table, warnings, -, -, hcourse⟩ := (assembleTrigger_ensures henv ht).ok hrun
  have henlisted : s.program.Enlisted env (t.agenda env.registry) :=
    (hcourse.steps herrors).2.enlisted hgroups (by simp [Enlisted, roster, declared])
  have hname : handlerName x.name ∈ s.program.names := by
    obtain ⟨⟨⟩, s₀, -, hrun⟩ := bind_eq_ok.mp hrun
    obtain ⟨plans, s₁, -, hrun⟩ := bind_eq_ok.mp hrun
    obtain ⟨⟨⟩, s₂, -, hrun⟩ := bind_eq_ok.mp hrun
    obtain ⟨⟨⟩, s₃, handlers, hrun⟩ := bind_eq_ok.mp hrun
    obtain ⟨kind, hkind⟩ := mem_names_iff.mp (addMissingHandlers_names handlers hx hnotifies)
    split_ifs at hrun
    · exact mem_names_iff.mpr ⟨kind, Stays.roster (Preserves.of_ok hrun) hkind⟩
    · obtain ⟨-, rfl⟩ := EStateM.Result.ok.inj hrun
      exact mem_names_iff.mpr ⟨kind, hkind⟩
  obtain ⟨kind, hkind⟩ := mem_names_iff.mp hname
  rcases henlisted _ hkind with hadds | ⟨-, rest, hmerged⟩
  · exact hasEntry_iff.mpr (adds_handler hadds ▸ hkind)
  · rw [hstart] at hmerged
    exact absurd hmerged (handlerName_ne_merged _ _)

end Lower

/-! ## Sent events -/

variable {r : Registry} {documents : ActionGroup → Prop} {options : CompileOptions} {t : Trigger}
  {c : CompiledTrigger}

/-- A watched slot is that of a watched variable. -/
lemma Program.Declares.watched {p : Program} {decls : List VariableDecl} (h : p.Declares decls)
    {w : Watch} (hid : w.id < p.slots.size) (hw : p.Watched w) :
    ∃ v ∈ decls, v.notifies = true ∧ (p.slots.get w.id).name = v.name := by
  obtain ⟨table, h, hp⟩ := h
  have hshadow := hw.shadow
  by_cases hlt : w.id < table.size
  · have hget := hp.slots.get_eq hlt
    rw [hget] at hshadow ⊢
    exact h.shadows _ (List.mem_of_getElem? (SlotTable.slots_getElem? hlt)) (by simp [hshadow])
  · rw [hp.shadow w.id (Nat.le_of_not_lt hlt) hid] at hshadow
    cases hshadow

/-- A call that sends an event finds a name that the host can start. -/
lemma summons_of_proper {f : Program} {strict : Prop} {k : MethodId} {before after : List Line}
    {signature : String} (hdeclares : f.Declares t.declarations)
    (hhandlers : ∀ x ∈ t.declarations, x.notifies = true → f.HasEntry (handlerName x.name))
    (hsends : HostCall.Sends signature)
    (h : (f.terms (Rules.builtin strict).free k (f.Label k)).Proper before (.code (.host signature))
      after) : f.Summons signature (held before).reverse := by
  rcases h with ⟨flags, hallows, -⟩ | ⟨rfl, w, hw, hheld, -⟩
  · exact hallows.2 hsends
  · have hid : f.Clean w.id := hw.clean _ (by simp)
    obtain ⟨x, hx, hnotifies, hname⟩ := hdeclares.watched hid.lt hw.watched.1
    refine ⟨1, w.text, handlerName x.name, by simp [HostCall.sends], by simp [hheld], ?_,
      hhandlers x hx hnotifies⟩
    exact hname ▸ hw.watched.1.text

/-- Names and entries stay when addresses get their numbers. -/
lemma Program.Ready.summons {f q : Program} {R : Rules} (h : Ready R f q) {signature : String}
    {slots : List SlotId} (hs : f.Summons signature slots) : q.Summons signature slots := by
  obtain ⟨place, id, name, hplace, hid, hconstant, hentry⟩ := hs
  have hlt : id < q.slots.size := h.slots.symm ▸ hconstant.lt
  have hget : q.slots.get id = f.slots.get id :=
    h.slot_of_ne hlt fun x hx => by simp [hconstant.initial] at hx
  refine ⟨place, id, name, hplace, hid, ⟨hlt, hget ▸ hconstant.kind, hget ▸ hconstant.type_eq,
    hget ▸ hconstant.initial⟩, ?_⟩
  unfold HasEntry
  rw [h.methods]
  exact hentry

/-- Every event that a compiled trigger sends, also from the methods of its groups, is one that the
host can start: the slots that the call takes are pushed directly before it, and the one in the place
of the name is a constant that holds the name of an entry. -/
theorem sent_events_exist (hr : r.Grown documents)
    (hstart : options.groupPrefix = ({} : CompileOptions).groupPrefix) (ht : t.NoAddress)
    (h : compileTrigger ⟨r, options⟩ t = .ok c) {k : MethodId} (hk : k < c.program.methods.size)
    {before after : List Instr} {signature : String}
    (hcode : c.program.bodyCode k = before ++ .host signature :: after)
    (hsends : HostCall.Sends signature) :
    ∃ earlier arguments, before = earlier ++ arguments.map .push ∧
      HostCall.arity? signature = some arguments.length ∧ c.program.Summons signature arguments := by
  have henv : Lower.Orderly ⟨r, options⟩ (Rules.source False) t.Has :=
    hr.orderly False.elim options fun a ⟨x, hx, ha⟩ => ht.actions x hx a ha
  obtain ⟨s, hrun, herrors, hp, ⟨table, hdeclares, henlarges⟩, hsite, hlinks⟩ :=
    compileTrigger_assembled henv ht h
  have hready := hlinks.ready hp.builtin Rules.builtin_requests hsite
  have hfinished := finishMethods_finished options hsite
  have hhandlers : ∀ x ∈ t.declarations, x.notifies = true →
      (s.program.finishMethods options).HasEntry (handlerName x.name) := fun x hx hnotifies =>
    hfinished.hasEntry (assembleTrigger_handlers henv.sound ht
      (fun e he => (henv.fine e he).internal) hstart hrun herrors hx hnotifies)
  -- the instructions before the call are those of lines, and so is the call
  rw [bodyCode_eq, List.map_eq_append_iff] at hcode
  obtain ⟨lines, rest, hlines, rfl, hrest⟩ := hcode
  obtain ⟨x, rest, rfl, hx, -⟩ := List.map_eq_cons_iff.mp hrest
  obtain rfl : x = .code (.host signature) := by
    cases x with
    | label l => cases hx
    | code i => exact congrArg Line.code hx
  rw [hready.lines] at hlines
  have halong := hready.along k (hready.methods ▸ hk)
  have hproper := halong.each lines _ rest hlines
  obtain ⟨earlier, hpushed⟩ := pushed_of_along lines fun xs y ys hsplit =>
    ⟨_, halong.each xs y (ys ++ .code (.host signature) :: rest) (by simp [hlines, hsplit])⟩
  refine ⟨earlier.map Line.instr, (held lines).reverse, ?_, ?_, hready.summons
    (summons_of_proper ⟨table, hdeclares, henlarges.trans hfinished.enlarges⟩
      hhandlers hsends hproper)⟩
  · nth_rewrite 1 [hpushed]
    simp [pushLines, Function.comp_def, Line.instr]
  · have hfinds := (finds_of_proper hproper).1
    simpa [Line.instr, Instr.finds] using hfinds

/-- A broadcast event with a delay that writes a watched variable. All three calls occur. -/
theorem sent_events_exist_relayed :
    ∃ c, compileTrigger ⟨Registry.builtin, {}⟩
        { declarations := [{ id := "x", name := "x", type := .int32, notifies := true }],
          events := [{ name := "e", entry := { id := "Interact" },
                       options := { broadcast := .all, delay := ⟨0x40000000⟩ },
                       actions := [{ id := "SetVariable",
                                     inputs := [.constant (.int32 5), .var (.user "x")] }] }] } = .ok c ∧
      ∀ x ∈ HostCall.sends, ∃ k < c.program.methods.size, ∃ before after,
        c.program.bodyCode k = before ++ .host x.1 :: after ∧
        ∃ earlier arguments, before = earlier ++ arguments.map .push ∧
          HostCall.arity? x.1 = some arguments.length ∧ c.program.Summons x.1 arguments := by
  set t : Trigger := { declarations := [_], events := [_] } with ht
  have hcalls : ((compileTrigger ⟨Registry.builtin, {}⟩ t).toOption.any fun c =>
      HostCall.sends.all fun x => decide (∃ k < c.program.methods.size,
        Instr.host x.1 ∈ c.program.bodyCode k)) = true := by
    decide +kernel
  obtain ⟨c, hc, hcalls⟩ := exists_ok_of_any hcalls
  refine ⟨c, hc, fun x hx => ?_⟩
  obtain ⟨k, hk, hmem⟩ := of_decide_eq_true (List.all_eq_true.mp hcalls x hx)
  obtain ⟨before, after, hcode⟩ := List.append_of_mem hmem
  exact ⟨k, hk, before, after, hcode, sent_events_exist
    (.builtin : Registry.builtin.Grown fun _ => True) rfl
    ⟨by simp [ht], by simp [ht, Action.NoAddress, Binding.holdsAddress]⟩ hc hk hcode
    (List.mem_map_of_mem hx)⟩

end TriggerCompiler
