import Mathlib
import TriggerCompiler.Proofs.EventRuns

/-!
# Closed gates

A gate that is closed leads to the end of its method, past the body and past the lines that hand the event
over. What still stands there is the request that variables be sent, if the body has marked the method.

Main statement: `closed_gates_are_silent`.
-/

namespace TriggerCompiler

open Program Lower

/-- A run of the method has no effect but so many requests that variables be sent, and changes nothing but
temporaries. This holds on the way too, also where the run is given up. -/
structure Run.Declines (q : Program) (name : String) (m : Machine) (requests : Nat) : Prop where
  visits : ∀ x, Visits name m x → m.Acts q id x.2 ∨ m.Acts q (.request requests) x.2
  ends : ∀ m', method name m = .ok () m' → m.Acts q (.request requests) m'
  halts : ∀ k, q.findMethod? name = some k → (q.lines k).length ≤ stepLimit →
    ∃ m', method name m = .ok () m'

namespace Program.Ships

variable {options : CompileOptions} {p q : Program} {k : MethodId} {m : Machine} {gate : Gate}
  {code rest : List Line} {I : Machine → Prop} (h : Ships options p q)

include h

/-- The same methods are marked once they are linked. -/
lemma serializes (hk : k < p.methods.size) : (q.method k).serializes = (p.method k).serializes := by
  obtain ⟨new, hmethod⟩ := h.method_eq hk
  rw [hmethod]

/-- A closed gate at the start of a method leads to its last line. -/
lemma climbs_past (hm : m.Intact (Rules.builtin True) (p.finishMethods options) q)
    (hk : k < p.methods.size) (hgate : GateLines gate p k [] code) (hlines : p.lines k = code ++ rest)
    (hclosed : gate.opens m = false) {requests : Nat}
    (hrequests : requests = if options.autoSerialize && (p.method k).serializes then 1 else 0) :
    ∃ m', Run.Climbs (fun m' => m.Acts q id m' ∨ m.Acts q (.request requests) m')
        (q.start k) (q.start (k + 1)) (q.start k, m) (q.start (k + 1) - 1, m') ∧
      m.Acts q (.request requests) m' ∧ m'.Holds q := by
  have hfinal := h.gateLines hk hgate
  obtain ⟨l, hl⟩ : ∃ l, ((p.finishMethods options).method k).endLabel = some l := by
    unfold GateLines at hfinal
    split at hfinal
    · rename_i hquestion
      cases gate <;> cases hquestion
      cases hclosed
    · obtain ⟨-, -, l, -, -, -, hl, -⟩ := hfinal
      exact ⟨l, hl⟩
  obtain ⟨new, -, hmethod, -⟩ := h.finished.finished k hk
  have hl' : (p.method k).endLabel = some l := by rwa [hmethod] at hl
  obtain ⟨sync, -, hq⟩ := h.lines_eq hk
  rw [hl'] at hq
  have hat : q.At k (p.lines k) (.label l) (sync ++ [.code (Epilogue.instr (p.method k).epilogue)])
      (q.start k + (p.lines k).length) := ⟨h.size_methods ▸ hk, by simpa using hq, rfl⟩
  obtain ⟨after, hstretch⟩ : ∃ after, q.Stretch k [] code after := h.stretch hk hlines
  obtain ⟨m₁, hpast, hacts, hholds⟩ := h.ready.climbs_closed hm hfinal hstretch rfl hclosed hl hat
    (by simp [hlines]) (I := fun m' => m.Acts q id m' ∨ m.Acts q (.request requests) m')
    fun _ hacts => .inl hacts
  have hrequest : m.Acts q (.request requests) (m₁.affect (.request requests)) :=
    hacts.trans (.affect q (.request requests) m₁)
  have hend := h.climbs_end hholds hk (I := fun m' => m.Acts q id m' ∨ m.Acts q (.request requests) m')
    (fun _ => .inl ⟨hacts.effects, hacts.heap⟩) (.inr (hrequests ▸ hrequest))
  rw [← hrequests] at hend
  have hle : q.start k + (p.lines k).length ≤ q.start (k + 1) := by
    rw [h.start_succ hk, hq]
    simp
  exact ⟨_, (hpast.mono le_rfl hle).trans (hend.mono (Nat.le_add_right _ _) le_rfl), hrequest,
    hholds.program, hholds.code⟩

/-- A run of a method whose gate is closed. -/
lemma declines (hm : m.Session q) (hk : k < p.methods.size) (hhalt : (p.method k).epilogue = .halt)
    {name : String} (hname : q.findMethod? name = some k) (hgate : GateLines gate p k [] code)
    (hlines : p.lines k = code ++ rest) (hclosed : gate.opens m = false) :
    Run.Declines q name m (if options.autoSerialize && (q.method k).serializes then 1 else 0) := by
  rw [h.serializes hk]
  obtain ⟨hintact, -⟩ := hm.intact h.ready Rules.builtin_takes h.size
  obtain ⟨m', hclimbs, hacts, hholds⟩ := h.climbs_past hintact hk hgate hlines hclosed rfl
  have hlast : Run.step (q.start (k + 1) - 1) m' = .ok none m' := h.step_last hholds hk hhalt
  refine ⟨fun x hx => ?_, fun m'' hrun => ?_, fun j hj hlimit => ?_⟩
  · exact hclimbs.holds (.inl (.refl q m)) hlast ((hintact.visits_iff h.ready hname).mp hx)
  · -- the run ends where it first halts
    obtain ⟨z, hz, hend⟩ := Run.halts_of_visits hrun
      ((hintact.visits_iff h.ready hname).mpr hclimbs.reaches)
    rcases Relation.ReflTransGen.cases_head hz with rfl | ⟨y, hy, -⟩
    · obtain ⟨-, rfl⟩ := EStateM.Result.ok.inj (hlast.symm.trans hend)
      exact hacts
    · cases hlast.symm.trans hy
  · obtain rfl : k = j := Option.some.inj (hname.symm.trans hj)
    exact ⟨m', h.method_of_climbs hk hhalt hlimit hm hname hclimbs hholds⟩

end Program.Ships

/-! ## Compiled triggers -/

section

variable {options : CompileOptions} {t : Trigger} {c : CompiledTrigger}

/-- The only event of a name is the only one that is planned for it. -/
lemma Trigger.Assembly.filter_eq {plans : List PlannedEvent} {p q : Program}
    (h : t.Assembly options plans p q) {i : Nat} {e : Event} {name : String}
    (he : t.events[i]? = some e) (hname : e.Exports .builtin t name)
    (hsole : ∀ j e', t.events[j]? = some e' → e'.Exports .builtin t name → j = i) :
    ∃ plan ∈ plans, plan.event = e ∧ plan.exported = name ∧
      plans.filter (·.exported = plan.exported) = [plan] := by
  have hplans : ∀ j : Nat, t.events[j]? = plans[j]?.map (·.event) := by
    intro j
    rw [← h.events, List.getElem?_map]
  rw [hplans] at he
  obtain ⟨plan, hplan, rfl⟩ := Option.map_eq_some_iff.mp he
  have hmem : plan ∈ plans := List.mem_of_getElem? hplan
  have hexported : plan.exported = name := (h.exports plan hmem).unique h.ids hname
  refine ⟨plan, hmem, rfl, hexported, ?_⟩
  have hothers : ∀ j x, plans[j]? = some x → x.exported = plan.exported → j = i := by
    intro j x hx heq
    refine hsole j x.event (by rw [hplans, hx]; rfl) ?_
    rw [← hexported, ← heq]
    exact h.exports x (List.mem_of_getElem? hx)
  obtain ⟨hi, hget⟩ := List.getElem?_eq_some_iff.mp hplan
  have hsplit : plans = plans.take i ++ plan :: plans.drop (i + 1) := by
    rw [← hget, ← List.drop_eq_getElem_cons hi, List.take_append_drop]
  have hbefore : (plans.take i).filter (·.exported = plan.exported) = [] := by
    rw [List.filter_eq_nil_iff]
    intro x hx heq
    obtain ⟨j, hj, rfl⟩ := List.mem_take_iff_getElem.mp hx
    have hji := hothers j _ (List.getElem?_eq_getElem (by omega)) (of_decide_eq_true heq)
    omega
  have hbehind : (plans.drop (i + 1)).filter (·.exported = plan.exported) = [] := by
    rw [List.filter_eq_nil_iff]
    intro x hx heq
    obtain ⟨j, hj, rfl⟩ := List.mem_drop_iff_getElem.mp hx
    have hji := hothers (i + 1 + j) _ (List.getElem?_eq_getElem (by omega)) (of_decide_eq_true heq)
    omega
  rw [hsplit, List.filter_append, hbefore, List.filter_cons_of_pos (by simp), hbehind, List.nil_append]

/-- If the gate of an event that alone has its exported name is closed, then a run of the method of that
name has no effect and changes no variable, whatever its body is. Only if its method is marked does it ask
once that variables be sent, which is never so if the event is handed over. -/
theorem closed_gates_are_silent (ht : t.NoAddress) (h : compileTrigger ⟨.builtin, options⟩ t = .ok c)
    (hsize : c.program.size < 2 ^ 32) {i : Nat} {e : Event} {name : String}
    (he : t.events[i]? = some e) (hname : e.Exports .builtin t name)
    (hsole : ∀ j e', t.events[j]? = some e' → e'.Exports .builtin t name → j = i)
    {m : Machine} (hm : m.Session c.program) (hclosed : e.options.gate.opens m = false) :
    ∃ k, c.program.Exports name k ∧
      Run.Declines c.program name m
        (if options.autoSerialize && (c.program.method k).serializes then 1 else 0) ∧
      ((c.program.method k).serializes = true →
        e.options.broadcast = .here ∧ e.options.delay.isPositive = false) := by
  obtain ⟨plans, p, hassembly⟩ := compileTrigger_assembly ht h hsize
  obtain ⟨plan, hplan, rfl, rfl, hfilter⟩ := hassembly.filter_eq he hname hsole
  have hships := hassembly.ships
  have hanswers := hassembly.answers plan hplan
  rw [hfilter] at hanswers
  cases hanswers with
  | shared several => exact absurd rfl several
  | @alone _ k exported laid =>
    obtain ⟨gate, middle, between, last, before, hwraps, hbears⟩ := laid
    obtain ⟨rest, hlines⟩ := Ships.relays_lines hwraps.network
      (Ships.relays_lines hwraps.delay hbears.lines_eq)
    have hk := exported.lt
    refine ⟨k, hships.exports hk exported.name exported.kind, ?_, fun hmarked => ?_⟩
    · exact hships.declines hm hk exported.epilogue (hships.findMethod? hk exported.name)
        hwraps.check hlines hclosed
    · -- a method that hands the event over is not marked
      have hkl : k = last := by
        by_contra hne
        rw [hships.serializes hk, hwraps.quiet k List.mem_cons_self hne] at hmarked
        cases hmarked
      exact hwraps.undivided hkl

/-- A gated event beside another one, whose method is not marked: the run ends without any effect. -/
theorem closed_gates_are_silent_delayed :
    ∃ c m', compileTrigger ⟨Registry.builtin, {}⟩
        { declarations := [{ id := "x", name := "x", type := .int32, sync := .synced }],
          events := [{ name := "first", entry := { id := "Start" },
                       actions := [{ id := "Log", inputs := [.constant (.int32 1)] }] },
                     { name := "second", entry := { id := "Interact" },
                       options := { gate := .master, delay := ⟨0x40000000⟩ },
                       actions := [{ id := "SetVariable",
                                     inputs := [.constant (.int32 5), .var (.user "x")] }] }] } = .ok c ∧
      Run.method "_interact" { Machine.ofProgram c.program with isMaster := false } = .ok () m' ∧
      m'.effects = {} ∧ Run.Declines c.program "_interact"
        { Machine.ofProgram c.program with isMaster := false } 0 := by
  set t : Trigger := { declarations := [_], events := [_, _] } with ht
  have hruns : ((compileTrigger ⟨Registry.builtin, {}⟩ t).toOption.any fun c =>
      (outcome? (Run.method "_interact" { Machine.ofProgram c.program with isMaster := false })).any
        fun _ => decide (c.program.size < 2 ^ 32)) = true := by
    decide +kernel
  obtain ⟨c, hc, hruns⟩ := exists_ok_of_any hruns
  obtain ⟨⟨⟩, m', hrun, hsize⟩ := exists_outcome_of_any hruns
  have hsole : ∀ j e', t.events[j]? = some e' → e'.Exports .builtin t "_interact" → j = 1 := by
    intro j e' he' hexports
    match j with
    | 0 =>
      obtain rfl := Option.some.inj he'
      have hname : "_interact" = "_start" := hexports.unique (by decide) (.named rfl rfl)
      exact absurd hname (by decide)
    | 1 => rfl
    | j + 2 => cases he'
  obtain ⟨k, -, hdeclines, hmarked⟩ := closed_gates_are_silent (t := t) (i := 1)
    ⟨by simp [ht], by simp [ht, Action.NoAddress, Binding.holdsAddress]⟩ hc (of_decide_eq_true hsize) rfl
    (.named rfl rfl) hsole (.world .load true false) rfl
  have hquiet : (c.program.method k).serializes = false := by
    by_contra hserializes
    cases (hmarked (Bool.not_eq_false _ ▸ hserializes)).2
  rw [hquiet, Bool.and_false] at hdeclines
  exact ⟨c, m', hc, hrun, (hdeclines.ends m' hrun).effects, hdeclines⟩

/-- The gate is closed and the synced variable is not written, but it is asked to be sent. -/
theorem closed_gate_requests_serialization :
    ∃ c m', compileTrigger ⟨Registry.builtin, {}⟩
        { declarations := [{ id := "s", name := "s", type := .int32, sync := .synced }],
          events := [{ name := "e", entry := { id := "Interact" }, options := { gate := .owner },
                       actions := [{ id := "SetVariable",
                                     inputs := [.constant (.int32 5), .var (.user "s")] }] }] } = .ok c ∧
      Machine.Session c.program { Machine.ofProgram c.program with isOwner := false } ∧
      Run.method "_interact" { Machine.ofProgram c.program with isOwner := false } = .ok () m' ∧
      (Machine.ofProgram c.program).effects.serializations = 0 ∧ m'.effects.serializations = 1 := by
  set t : Trigger := { declarations := [_], events := [_] } with ht
  have hruns : ((compileTrigger ⟨Registry.builtin, {}⟩ t).toOption.any fun c =>
      (outcome? (Run.method "_interact" { Machine.ofProgram c.program with isOwner := false })).any
        fun r => decide (r.2.effects.serializations = 1)) = true := by
    decide +kernel
  obtain ⟨c, hc, hruns⟩ := exists_ok_of_any hruns
  obtain ⟨⟨⟩, m', hrun, hone⟩ := exists_outcome_of_any hruns
  exact ⟨c, m', hc, .world .load false true, hrun, rfl, of_decide_eq_true hone⟩

end

end TriggerCompiler
