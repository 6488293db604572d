import Mathlib
import TriggerCompiler.Proofs.Dispatch

/-!
# Runs of events

An event runs through its methods. Where it is broadcast, its first method sends one event over the
network and is left; where it is delayed, the next one schedules one event and is left; and the last one
goes on to the body. Events that share an exported name are run one after the other by the method of that
name, whatever becomes of each of them.

Main statement: `events_run_through_their_methods`.
-/

namespace TriggerCompiler

variable {gate : Gate} {name : String} {plan : PlannedEvent} {env : Environment} {t : Trigger}

open Program Lower

/-! ## What methods do -/

/-- In some run the machine comes to the start of the method. -/
def Run.Arrives (q : Program) (k : MethodId) (m : Machine) : Prop :=
  ∃ name m₀, m₀.Session q ∧ Visits name m₀ (q.start k, m)

/-- Whenever a run comes to the start of the method and the condition holds, it comes to the last line of
the method with the given effect and no other. If the host has started the method, then that is the whole
run. -/
structure Run.Sends (q : Program) (k : MethodId) (opens : Machine → Prop) (f : Effects → Effects) :
    Prop where
  passes : ∀ m, Arrives q k m → opens m → ∃ m', m.Acts q f m' ∧
    Passes (q.start k) (q.start (k + 1)) (q.start k, m) (q.start (k + 1) - 1, m')
  halts : ∀ m name, m.Session q → q.findMethod? name = some k → (q.method k).epilogue = .halt →
    opens m → ∃ m', m.Acts q f m' ∧ Run.method name m = .ok () m'

/-- Whenever a run comes to the start of the method and the condition holds, it goes on to the position
without an effect. -/
def Run.ComesTo (q : Program) (k : MethodId) (opens : Machine → Prop) (position : Nat) : Prop :=
  ∀ m, Arrives q k m → opens m → ∃ m', m.Acts q id m' ∧
    Passes (q.start k) position (q.start k, m) (position, m')

/-- The host can start the method by the name. -/
structure Program.Exports (q : Program) (name : String) (k : MethodId) : Prop where
  found : q.findMethod? name = some k
  exported : (q.method k).isExported = true

/-- An event with these options runs through its methods. It begins with `k`, goes on with `middle` if it
is broadcast and with `last` if it is delayed, and its body stands in `last`, from the given position on.
Only the first method asks whether the gate is open. -/
structure Run.Carries (q : Program) (o : EventOptions) (k middle last : MethodId) (body : Nat) : Prop where
  network : if o.broadcast = .here then middle = k else
    ∃ name, q.Exports name middle ∧ middle ≠ k ∧ Sends q k (o.gate.opens · = true)
      (.broadcast (if o.broadcast = .owner then 1 else 0) name)
  delay : if o.delay.isPositive then
      ∃ name, q.Exports name last ∧ last ≠ middle ∧
        Sends q middle (fun m => middle = k → o.gate.opens m = true) (.schedule name o.delay)
    else last = middle
  body : ComesTo q last (fun m => last = k → o.gate.opens m = true) body

/-- What the compile of the trigger has made of the actions of a body stands in the method, from the
position on, and nowhere else. -/
inductive Program.Embodies (env : Environment) (t : Trigger) (q : Program) (actions : List Action)
    (k : MethodId) (position : Nat) : Prop where
  | intro {s u : LowerState} {before new after : List InstrId} (reaches : ReachesBody env t actions s)
      (lowered : lowerBody env actions s = .ok ⟨⟩ u) (place : s.method = k)
      (found : (s.program.method k).body.toList = before)
      (added : (u.program.method k).body.toList = before ++ new)
      (fresh : ∀ id ∈ new, s.program.instrs.size ≤ id)
      (kept : (q.method k).body.toList = before ++ new ++ after)
      (same : ∀ id ∈ new, q.instr id = u.program.instr id)
      (alone : ∀ j < q.methods.size, ∀ id ∈ new, id ∈ (q.method j).body.toList → j = k)
      (start : position = q.start k + before.length)

namespace Program.Ships

variable {options : CompileOptions} {p q : Program} {k k' : MethodId} {m m' : Machine}
  {before before' code : List Line} {base : List SlotId} {opens : Machine → Prop}
  {f : Effects → Effects} (h : Ships options p q)

/-- From the start of the method the machine comes over so many lines without an effect, if the condition
holds. -/
def Clears (options : CompileOptions) (p q : Program) (k : MethodId) (opens : Machine → Prop) (n : Nat) :
    Prop :=
  ∀ base m, OnWay (Rules.builtin True) (p.finishMethods options) q base (q.start k, m) → opens m →
    ∃ m', m.Acts q id m' ∧
      Run.Climbs (fun _ => True) (q.start k) (q.start k + n) (q.start k, m) (q.start k + n, m')

include h

lemma onWay (hm : Run.Arrives q k m) :
    OnWay (Rules.builtin True) (p.finishMethods options) q [] (q.start k, m) := by
  obtain ⟨name, m₀, hsession, hvisits⟩ := hm
  obtain ⟨hintact, hstack⟩ := hsession.intact h.ready Rules.builtin_takes h.size
  obtain ⟨k₀, hk₀⟩ := hintact.findMethod?_of_visits hvisits
  rw [← hstack]
  exact (OnWay.start hintact h.ready hk₀).reaches h.ready Rules.builtin_takes h.size
    ((hintact.visits_iff h.ready hk₀).mp hvisits)

lemma comesTo {n : Nat} (hclears : Clears options p q k opens n) :
    Run.ComesTo q k opens (q.start k + n) := by
  intro m hm hopens
  obtain ⟨m', hacts, hclimbs⟩ := hclears [] m (h.onWay hm) hopens
  exact ⟨m', hacts, hclimbs.passes⟩

/-- The lines of a gate's check stay as they are. -/
lemma gateLines (hk : k < p.methods.size) (hgate : GateLines gate p k [] code) :
    GateLines gate (p.finishMethods options) k [] code := by
  obtain ⟨new, -, hmethod, -⟩ := h.finished.finished k hk
  refine hgate.mono h.slots ?_
  constructor
  all_goals rw [hmethod]
  exact fun _ hl => hl

/-- An open gate at the start of a method is passed. -/
lemma clears_gate (hk : k < p.methods.size) (hgate : GateLines gate p k [] code) {rest : List Line}
    (hlines : p.lines k = [] ++ (code ++ rest)) :
    Clears options p q k (gate.opens · = true) code.length := by
  intro base m hm hopen
  obtain ⟨after, hstretch⟩ := h.stretch hk hlines
  obtain ⟨m', hclimbs, hacts⟩ := h.ready.climbs_gate (I := fun _ => True) hm.intact
    (h.gateLines hk hgate) hstretch rfl hopen fun _ _ => trivial
  exact ⟨m', hacts, hclimbs⟩

omit h in
/-- A method that an event is handed over to holds nothing at first. -/
lemma clears_relay {relay : Option Relay} (hrelays : p.Relays relay k before k' before')
    (hclears : Clears options p q k opens before.length) :
    Clears options p q k' (fun m => k' = k → opens m) before'.length := by
  intro base m hm hopens
  cases relay with
  | none =>
    obtain ⟨rfl, rfl⟩ := hrelays
    exact hclears base m hm (hopens rfl)
  | some x =>
    obtain ⟨-, rfl, -⟩ := hrelays
    exact ⟨m, .refl q m, Run.Climbs.refl _⟩

/-- A run that comes to its last line by greater and greater positions halts in time. -/
lemma method_of_climbs (hk : k < p.methods.size) (hhalt : (p.method k).epilogue = .halt)
    (hlimit : (q.lines k).length ≤ stepLimit) (hm : m.Session q)
    (hname : q.findMethod? name = some k) {I : Machine → Prop}
    (hclimbs : Run.Climbs I (q.start k) (q.start (k + 1)) (q.start k, m) (q.start (k + 1) - 1, m'))
    (hholds : m'.Holds q) : Run.method name m = .ok () m' := by
  obtain ⟨hintact, -⟩ := hm.intact h.ready Rules.builtin_takes h.size
  rw [hintact.method_eq h.ready hname]
  obtain ⟨body, hbody⟩ := h.ready.ends k (h.finished.size ▸ hk)
  have hpos : 0 < (q.lines k).length := by
    rw [h.ready.lines k, hbody]
    simp
  have hend := h.start_succ hk
  obtain ⟨n, hn⟩ : ∃ n, Run.steps name stepLimit (q.start k) m =
      Run.steps name (n + 1) (q.start (k + 1) - 1) m' := hclimbs.steps_eq (by dsimp only; omega)
  rw [hn]
  exact bind_of_ok (h.step_last hholds hk hhalt) _

/-- A method that is not marked and whose lines have an effect. -/
lemma sends_of_climbs (hk : k < p.methods.size) (hquiet : (p.method k).serializes = false)
    (hlimit : (q.lines k).length ≤ stepLimit)
    (hclimbs : ∀ base m, OnWay (Rules.builtin True) (p.finishMethods options) q base (q.start k, m) →
      opens m → ∃ m', m.Acts q f m' ∧
        Run.Climbs (fun _ => True) (q.start k) (q.start k + (p.lines k).length)
          (q.start k, m) (q.start k + (p.lines k).length, m')) :
    Run.Sends q k opens f := by
  have hall : ∀ base m, OnWay (Rules.builtin True) (p.finishMethods options) q base (q.start k, m) →
      opens m → ∃ m', m.Acts q f m' ∧ m'.Holds q ∧
        Run.Climbs (fun _ => True) (q.start k) (q.start (k + 1))
          (q.start k, m) (q.start (k + 1) - 1, m') := by
    intro base m hm hopens
    obtain ⟨m', hacts, hbody⟩ := hclimbs base m hm hopens
    have hm' := (hm.reaches h.ready Rules.builtin_takes h.size hbody.reaches).intact
    have hend := h.climbs_end (I := fun _ => True) hm'.holds hk (fun _ => trivial) trivial
    rw [hquiet, Bool.and_false] at hend
    obtain ⟨sync, -, hlines⟩ := h.lines_eq hk
    have hle : q.start k + (p.lines k).length ≤ q.start (k + 1) := by
      rw [h.start_succ hk, hlines, List.length_append]
      omega
    exact ⟨m', hacts, hm'.holds, (hbody.mono le_rfl hle).trans (hend.mono (by omega) le_rfl)⟩
  constructor
  · intro m hm hopens
    obtain ⟨m', hacts, -, hclimbs⟩ := hall [] m (h.onWay hm) hopens
    exact ⟨m', hacts, hclimbs.passes⟩
  · intro m name hm hname hhalt hopens
    obtain ⟨hintact, -⟩ := hm.intact h.ready Rules.builtin_takes h.size
    obtain ⟨m', hacts, hholds, hclimbs⟩ := hall m.stack m (OnWay.start hintact h.ready hname) hopens
    obtain ⟨new, hmethod⟩ := h.method_eq hk
    rw [hmethod] at hhalt
    exact ⟨m', hacts, h.method_of_climbs hk hhalt hlimit hm hname hclimbs hholds⟩

/-- A hand-over sends its event once the lines before it are passed. -/
lemma sends_relay {x : Relay} (hrelays : p.Relays (some x) k before k' before')
    (hk : k < p.methods.size) (hquiet : (p.method k).serializes = false)
    (hclears : Clears options p q k opens before.length) (hbefore : before.length ≤ 5)
    (hx : x.constants.length ≤ 3)
    (hsends : ∀ {code after : List Line} {m : Machine},
      m.Intact (Rules.builtin True) (p.finishMethods options) q →
      x.Lines (p.finishMethods options).slots code → q.Stretch k before code after →
      Run.Climbs (fun _ => True) (q.start k + before.length) (q.start k + before.length + code.length)
        (q.start k + before.length, m) (q.start k + before.length + code.length, m.affect f)) :
    Run.Sends q k opens f := by
  obtain ⟨-, -, -, -, -, code, hlines, hbody⟩ := hrelays
  have hcode : code.length = x.constants.length + 2 := by
    obtain ⟨self, arguments, -, hconstants, rfl⟩ := hlines
    simp [callLines, hconstants.length_eq]
  have hlimit : (q.lines k).length ≤ stepLimit := by
    obtain ⟨sync, hsync, hq⟩ := h.lines_eq hk
    rw [hquiet, Bool.and_false] at hsync
    obtain rfl : sync = [] := hsync
    have hlabel : (p.method k).endLabel.toList.length ≤ 1 := by
      cases (p.method k).endLabel <;> simp
    rw [hq, hbody]
    simp only [List.length_append, List.length_map, List.length_nil, List.length_singleton]
    unfold stepLimit
    omega
  refine h.sends_of_climbs hk hquiet hlimit fun base m hm hopens => ?_
  obtain ⟨m₁, hacts, hclimbs⟩ := hclears base m hm hopens
  have hm₁ := (hm.reaches h.ready Rules.builtin_takes h.size hclimbs.reaches).intact
  have hbody' : p.lines k = before ++ (code ++ []) := by rw [hbody, List.append_nil]
  obtain ⟨after, hstretch⟩ := h.stretch hk hbody'
  have hsend := hsends hm₁ (hlines.within h.slots) hstretch
  rw [hbody, List.length_append, ← Nat.add_assoc]
  exact ⟨m₁.affect f, hacts.trans (.affect q f m₁),
    (hclimbs.mono le_rfl (by omega)).trans (hsend.mono (by omega) le_rfl)⟩

omit h in
lemma length_gateLines {temps : List SlotId} (hgate : GateLines gate p k temps code) :
    code.length ≤ 5 := by
  unfold GateLines at hgate
  split at hgate
  · simp [hgate]
  · rename_i signature arity hquestion
    obtain ⟨self, allowed, l, hself, -, -, -, rfl⟩ := hgate
    have harity : arity ≤ 1 := by
      cases gate with
      | anyone => cases hquestion
      | owner => obtain ⟨-, rfl⟩ := Prod.mk.inj (Option.some.inj hquestion); exact le_rfl
      | master => obtain ⟨-, rfl⟩ := Prod.mk.inj (Option.some.inj hquestion); exact Nat.zero_le 1
    simp [callLines, branchLines, hself]
    omega

lemma exports (hk : k < p.methods.size) (hname : (p.method k).name = name)
    (hkind : (p.method k).kind = .entry) : q.Exports name k := by
  refine ⟨h.findMethod? hk hname, ?_⟩
  obtain ⟨new, hmethod⟩ := h.method_eq hk
  rw [hmethod]
  simp [Method.isExported, hkind]

omit h in
/-- What comes before a hand-over stands at the start of its method, and so does what comes before a body
that there is no hand-over to. -/
lemma relays_lines {relay : Option Relay} (hrelays : p.Relays relay k before k' before')
    (hlines : ∃ rest, p.lines k' = before' ++ rest) : ∃ rest, p.lines k = before ++ rest := by
  cases relay with
  | none =>
    obtain ⟨rfl, rfl⟩ := hrelays
    exact hlines
  | some x =>
    obtain ⟨-, -, -, -, -, code, -, hcode⟩ := hrelays
    exact ⟨code, hcode⟩

/-- An event runs through its methods. -/
lemma carries {gate between : List Line} {middle last : MethodId}
    (hwraps : Wraps p plan k gate middle between last before)
    (hlast : ∃ rest, p.lines last = before ++ rest) :
    Run.Carries q plan.event.options k middle last (q.start last + before.length) := by
  obtain ⟨hkm, hml⟩ := hwraps.le
  have hmiddle := hml.trans_lt hwraps.lt
  have hk := hkm.trans_lt hmiddle
  obtain ⟨rest, hlines⟩ := relays_lines hwraps.network (relays_lines hwraps.delay hlast)
  have hgate := h.clears_gate hk hwraps.check ((List.nil_append _).trans hlines.symm).symm
  have hbetween := clears_relay hwraps.network hgate
  have hlength : between.length ≤ 5 := by
    have hle := length_gateLines hwraps.check
    have hnetwork := hwraps.network
    cases hrelay : plan.network? with
    | none =>
      rw [hrelay] at hnetwork
      rw [hnetwork.2]
      exact hle
    | some x =>
      rw [hrelay] at hnetwork
      simp [hnetwork.2.1]
  refine ⟨?_, ?_, ?_⟩
  · have hnetwork := hwraps.network
    unfold PlannedEvent.network? at hnetwork
    by_cases hhere : plan.event.options.broadcast = .here
    · rw [if_neg (not_not.mpr hhere)] at hnetwork
      rw [if_pos hhere]
      exact hnetwork.1
    · rw [if_pos hhere] at hnetwork
      rw [if_neg hhere]
      have hlt := hnetwork.1
      refine ⟨_, h.exports hmiddle hnetwork.2.2.1 hnetwork.2.2.2.1, hlt.ne', ?_⟩
      refine h.sends_relay hnetwork hk (hwraps.quiet k List.mem_cons_self (hlt.trans_le hml).ne) hgate
        (length_gateLines hwraps.check) (by simp [PlannedEvent.overNetwork]) ?_
      intro code after m hm hcode hstretch
      exact h.ready.climbs_network trivial hm hcode hstretch rfl
  · have hdelay := hwraps.delay
    unfold PlannedEvent.delay? at hdelay
    split_ifs at hdelay ⊢ with hdelayed
    · have hlt := hdelay.1
      refine ⟨_, h.exports hwraps.lt hdelay.2.2.1 hdelay.2.2.2.1, hlt.ne', ?_⟩
      refine h.sends_relay hdelay hmiddle (hwraps.quiet middle (by simp) hlt.ne) hbetween hlength
        (by simp [PlannedEvent.afterDelay]) ?_
      intro code after m hm hcode hstretch
      exact h.ready.climbs_delayed trivial hm hcode hstretch rfl
    · exact hdelay.1
  · -- only the first method checks the gate
    intro m hm hopens
    refine h.comesTo (clears_relay hwraps.delay hbetween) m hm fun hlast hmiddle => ?_
    exact hopens (hlast.trans hmiddle)

lemma placed_nodup : q.placed.Nodup := by
  have hcomplete := h.site.complete options
  have hplaced : q.placed = (p.finishMethods options).placed := by
    unfold Program.placed
    rw [h.ready.methods]
  rw [hplaced]
  exact hcomplete.placed_nodup

/-- The body of an event stands in the last of its methods only. -/
lemma embodies {actions : List Action} (hk : k < p.methods.size)
    (hbears : Bears env t p actions k before) :
    q.Embodies env t actions k (q.start k + before.length) := by
  obtain ⟨reaches, lowered, place, lines, adds, spares⟩ := hbears
  rename_i s u code
  obtain ⟨new, hnew, -, hfresh⟩ := adds.body
  obtain ⟨ending, hmethod⟩ := h.method_eq hk
  have hbody : (q.method k).body.toList = (s.program.method k).body.toList ++ new ++ ending := by
    simp [hmethod, spares.method, hnew]
  have hlines := spares.lines
  unfold Program.lines at hlines
  rw [spares.method, hnew] at hlines
  refine .intro reaches lowered place rfl hnew hfresh hbody (fun id hid => ?_) (fun j hj id hid hmem => ?_) ?_
  · have hmem : id ∈ (p.method k).body.toList := by
      rw [spares.method, hnew]
      exact List.mem_append_right _ hid
    have hline : p.line id = u.program.line id :=
      List.map_inj_left.mp hlines id (List.mem_append_right _ hid)
    rw [h.ready.instr, h.finished.arena id (h.site.body_lt hk hmem),
      ← instr_line p, hline, instr_line]
  · refine eq_of_mem_bodies h.placed_nodup hj (h.size_methods ▸ hk) hmem ?_
    rw [hbody]
    exact List.mem_append_left _ (List.mem_append_right _ hid)
  · rw [← lines, Program.lines, List.length_map]

/-- What a method calls once it is linked, it called before. -/
lemma invokes (hk : k < p.methods.size) (hcall : q.Invokes k name) : p.Invokes k name := by
  obtain ⟨sync, hsync, hlines⟩ := h.lines_eq hk
  unfold Invokes at hcall ⊢
  rw [hlines] at hcall
  rcases List.mem_append.mp hcall with hcall | hcall
  · exact hcall
  · exfalso
    obtain rfl | ⟨self, -, rfl⟩ := hsync.cases
    all_goals cases hepilogue : (p.method k).epilogue <;> simp [hepilogue, Epilogue.instr, callLines] at hcall

/-- The lines that call the method of an event. -/
lemma calls_event {x : MethodId × List Line} (hx : Lower.Called env t p plan x) :
    q.callsIn x.2 = [x.1] ∧ (∀ y ∈ x.2, y.Calling) ∧
      ∀ name, .code (.jumpMethod name) ∈ x.2 → q.findMethod? name = some x.1 := by
  obtain ⟨slot, -, back, address, -, hcode⟩ := hx.call
  have hfound := h.findMethod? hx.lt hx.name
  have hsplit : x.2 = copyLines address slot ++ [.code (.jumpMethod plan.ownName)] ++ [.label back] := by
    simp [hcode]
  refine ⟨?_, ?_, ?_⟩
  · rw [hsplit, callsIn_append, callsIn_append, callsIn_call hfound]
    simp [callsIn, copyLines]
  · intro y hy
    simp only [hsplit, copyLines, List.mem_append, List.mem_cons, List.not_mem_nil, or_false] at hy
    rcases hy with ((rfl | rfl | rfl) | rfl) | rfl
    · exact .push _
    · exact .push _
    · exact .copy
    · exact .call _
    · exact .label _
  · intro name hname
    obtain rfl : name = plan.ownName := by simpa [hsplit, copyLines] using hname
    exact hfound

/-- The method of an exported name calls the methods of the events that share the name, in order, if these
call no methods themselves. -/
lemma dispatches {plans : List PlannedEvent} {e : MethodId} {calls : List (MethodId × List Line)}
    (hexported : Lower.Exported p name e)
    (hcalled : List.Forall₂ (Lower.Called env t p) plans calls)
    (hordered : (calls.map Prod.fst).Pairwise (· < ·))
    (hlines : p.lines e = (calls.map Prod.snd).flatten) (hquiet : (p.method e).serializes = false)
    (hcallees : ∀ k < p.methods.size, (p.method k).epilogue ≠ .halt → ∀ name, ¬ p.Invokes k name) :
    Run.Dispatches q e (calls.map Prod.fst) := by
  obtain ⟨sync, hsync, hq⟩ := h.lines_eq hexported.lt
  rw [hquiet, Bool.and_false] at hsync
  obtain rfl : sync = [] := hsync
  rw [hlines, hexported.epilogue, List.append_nil] at hq
  set ending : List Line := (p.method e).endLabel.toList.map .label ++ [.code (Epilogue.instr .halt)]
  have hending : q.callsIn ending = [] ∧ ∀ y ∈ ending, y.Calling ∧ ∀ name, y ≠ .code (.jumpMethod name) := by
    cases hl : (p.method e).endLabel with
    | none => simp [ending, hl, callsIn, Epilogue.instr, Line.Calling.halt]
    | some l => simp [ending, hl, callsIn, Epilogue.instr, Line.Calling.halt, Line.Calling.label]
  -- what holds of the lines of each call holds of all of them
  have hcode : q.callsIn (calls.map Prod.snd).flatten = calls.map Prod.fst ∧
      (∀ y ∈ (calls.map Prod.snd).flatten, y.Calling) ∧
      ∀ name, .code (.jumpMethod name) ∈ (calls.map Prod.snd).flatten →
        ∃ k < p.methods.size, q.findMethod? name = some k ∧ (p.method k).epilogue ≠ .halt := by
    clear hlines hordered hq
    induction hcalled with
    | nil => simp [callsIn]
    | @cons plan x plans calls hx hcalled ih =>
      obtain ⟨hcalls, hcalling, hfound⟩ := h.calls_event hx
      obtain ⟨hcalls', hcalling', hfound'⟩ := ih
      simp only [List.map_cons, List.flatten_cons, callsIn_append, hcalls, hcalls', List.mem_append]
      refine ⟨rfl, fun y hy => hy.elim (hcalling y) (hcalling' y), fun name hname => ?_⟩
      rcases hname with hname | hname
      · obtain ⟨slot, hslot, -⟩ := hx.call
        exact ⟨x.1, hx.lt, hfound name hname, by simp [hslot]⟩
      · exact hfound' name hname
  obtain ⟨hcalls, hcalling, hfound⟩ := hcode
  obtain ⟨new, hmethod⟩ := h.method_eq hexported.lt
  have hall : q.callsIn (q.lines e) = calls.map Prod.fst := by
    rw [hq, callsIn_append, hcalls, hending.1, List.append_nil]
  rw [← hall]
  refine h.ready.dispatches Rules.builtin_takes h.layered h.size (h.findMethod? hexported.lt hexported.name)
    (by rw [hmethod]; exact hexported.epilogue) ?_ ?_ ?_
  · intro x hx
    rw [hq] at hx
    exact (List.mem_append.mp hx).elim (hcalling x) fun hx => (hending.2 x hx).1
  · intro name k hcall hk name' hcall'
    unfold Invokes at hcall
    rw [hq] at hcall
    rcases List.mem_append.mp hcall with hcall | hcall
    · obtain ⟨k', hlt, hk', hreturns⟩ := hfound name hcall
      obtain rfl : k' = k := Option.some.inj (hk'.symm.trans hk)
      exact hcallees k' hlt hreturns name' (h.invokes hlt hcall')
    · exact (hending.2 _ hcall).2 name rfl
  · rw [hall]
    exact hordered.imp fun hlt => hlt.ne

/-- An event runs through its methods and comes to its body. -/
lemma runs_event (hlaid : Lower.Laid env t p plan k) :
    ∃ middle last body, Run.Carries q plan.event.options k middle last body ∧
      q.Embodies env t plan.event.actions last body := by
  obtain ⟨gate, middle, between, last, before, hwraps, hbears⟩ := hlaid
  exact ⟨middle, last, _, h.carries hwraps hbears.lines_eq, h.embodies hwraps.lt hbears⟩

end Program.Ships

/-! ## Compiled triggers -/

section

variable {options : CompileOptions} {c : CompiledTrigger}

/-- Where nothing is merged, a method that returns calls no method. -/
lemma LowerState.Sorted.not_invokes {s : LowerState} (h : s.Sorted) (hmerges : s.merges = [])
    {k : MethodId} (hk : k < s.program.methods.size) (hreturns : (s.program.method k).epilogue ≠ .halt)
    (name : String) : ¬ s.program.Invokes k name := by
  have hnone : ∀ name, ¬ s.Merged name := by
    rintro name ⟨e, he, -⟩
    rw [hmerges] at he
    cases he
  intro hcall
  rcases h.tiered.own k ⟨hk, hnone _⟩ not_false name hcall with hmerged | ⟨hhalt, -⟩
  · exact hnone name hmerged
  · exact hreturns hhalt

/-- The second program is linked from the first, which was assembled of the trigger and answers to the
exported names of its events. No method of it that returns calls another. -/
structure Trigger.Assembly (options : CompileOptions) (t : Trigger) (plans : List PlannedEvent)
    (p q : Program) : Prop where
  ships : Ships options p q
  callees : ∀ k < p.methods.size, (p.method k).epilogue ≠ .halt → ∀ name, ¬ p.Invokes k name
  ids : (t.declarations.map (·.id)).Nodup
  events : plans.map (·.event) = t.events
  exports : ∀ plan ∈ plans, plan.event.Exports .builtin t plan.exported
  answers : ∀ plan ∈ plans, Answers ⟨.builtin, options⟩ t p plan.exported
    (plans.filter (·.exported = plan.exported))

lemma compileTrigger_assembly (ht : t.NoAddress) (h : compileTrigger ⟨.builtin, options⟩ t = .ok c)
    (hsize : c.program.size < 2 ^ 32) : ∃ plans p, t.Assembly options plans p c.program := by
  have hgrown : Registry.builtin.Grown fun _ => False := .builtin
  have henv : Lower.Orderly ⟨.builtin, options⟩ (Rules.source True) t.Has :=
    hgrown.orderly (fun _ _ hno => hno.elim) options fun a ⟨x, hx, ha⟩ => ht.actions x hx a ha
  obtain ⟨s, hrun, herrors, horderly, -, hsite, hlinks⟩ := compileTrigger_assembled henv ht h
  obtain ⟨hidle, table, warnings, hdeclares, hstart, hcourse⟩ :=
    (assembleTrigger_ensures henv.sound ht).ok hrun
  have hsorted := hcourse.sorted henv hgrown.layered hdeclares hstart hidle herrors
  have hmerges : s.merges = [] := (hcourse.steps herrors).2.merges_nil rfl rfl
  obtain ⟨plans, hplans, hexports, hanswers⟩ := assembleTrigger_answers henv.sound ht hrun herrors
  have hready := hlinks.ready horderly.builtin Rules.builtin_requests hsite
  refine ⟨plans, s.program, ⟨hsite, hready, compileTrigger_layered hgrown ht h, hsize⟩,
    fun k hk hreturns => hsorted.not_invokes hmerges hk hreturns, hdeclares.ids, ?_, hexports, hanswers⟩
  have hevents := congrArg (List.map Prod.fst) hplans
  rwa [List.map_map, List.zipIdx_map_fst] at hevents

/-- In a compiled trigger, each event runs through its methods and comes to its body, which stands in the
last of them only. If an exported name is that of one event, then it is the name of the event's first
method; otherwise it is that of a method that runs the first methods of its events one after the other, in
the order of the trigger. -/
theorem events_run_through_their_methods (ht : t.NoAddress)
    (h : compileTrigger ⟨.builtin, options⟩ t = .ok c) (hsize : c.program.size < 2 ^ 32) :
    ∃ names, List.Forall₂ (fun e name => e.Exports .builtin t name) t.events names ∧
      ∀ name ∈ names, ∃ e ks, c.program.Exports name e ∧
        (if ks.length = 1 then ks = [e] else Run.Dispatches c.program e ks) ∧
        List.Forall₂ (fun event k => ∃ middle last body,
            Run.Carries c.program event.options k middle last body ∧
            c.program.Embodies ⟨.builtin, options⟩ t event.actions last body)
          (((t.events.zip names).filter (·.2 = name)).map Prod.fst) ks := by
  obtain ⟨plans, p, hships, hcallees, -, hevents, hexports, hanswers⟩ :=
    compileTrigger_assembly ht h hsize
  refine ⟨plans.map (·.exported), ?_, fun name hname => ?_⟩
  · rw [← hevents, List.forall₂_map_left_iff, List.forall₂_map_right_iff, List.forall₂_same]
    exact hexports
  obtain ⟨plan, hplan, rfl⟩ := List.mem_map.mp hname
  have hsame : ((t.events.zip (plans.map (·.exported))).filter (·.2 = plan.exported)).map Prod.fst =
      (plans.filter (·.exported = plan.exported)).map (·.event) := by
    rw [← hevents, List.zip_map', List.filter_map, List.map_map]
    rfl
  rw [hsame]
  simp only [List.forall₂_map_left_iff]
  have hanswer := hanswers plan hplan
  generalize plans.filter (·.exported = plan.exported) = same at hanswer ⊢
  cases hanswer with
  | @alone only e exported laid =>
    exact ⟨e, [e], hships.exports exported.lt exported.name exported.kind, by simp,
      .cons (hships.runs_event laid) .nil⟩
  | @shared _ e calls several exported called ordered lines quiet =>
    refine ⟨e, calls.map Prod.fst, hships.exports exported.lt exported.name exported.kind, ?_, ?_⟩
    · have hlength : (calls.map Prod.fst).length ≠ 1 := by
        rwa [List.length_map, ← called.length_eq]
      rw [if_neg hlength]
      exact hships.dispatches exported called ordered lines quiet hcallees
    · rw [List.forall₂_map_right_iff]
      exact called.imp fun x k hx => hships.runs_event hx.laid

/-- Two events with one entry, of which the first is gated, broadcast and delayed. -/
theorem events_run_through_their_methods_shared :
    ∃ c e k₁ k₂ middle last body, compileTrigger ⟨Registry.builtin, {}⟩
        { events := [{ name := "first", entry := { id := "Interact" },
                       options := { gate := .owner, broadcast := .all, delay := ⟨0x40000000⟩ }
                       actions := [{ id := "Log", inputs := [.constant (.int32 1)] }] },
                     { name := "second", entry := { id := "Interact" },
                       actions := [{ id := "Log", inputs := [.constant (.int32 2)] }] }] } = .ok c ∧
      c.program.Exports "_interact" e ∧ Run.Dispatches c.program e [k₁, k₂] ∧
      Run.Carries c.program { gate := .owner, broadcast := .all, delay := ⟨0x40000000⟩ } k₁ middle last
        body ∧ k₁ ≠ middle ∧ middle ≠ last := by
  set t : Trigger := { events := [_, _] } with ht
  have hcompiles : ((compileTrigger ⟨Registry.builtin, {}⟩ t).toOption.any fun c =>
      decide (c.program.size < 2 ^ 32)) = true := by
    decide +kernel
  obtain ⟨c, hc, hsize⟩ := exists_ok_of_any hcompiles
  obtain ⟨names, hnames, hruns⟩ := events_run_through_their_methods (t := t)
    ⟨by simp [ht], by simp [ht, Action.NoAddress, Binding.holdsAddress]⟩ hc (of_decide_eq_true hsize)
  -- both events have the name of their type
  cases hnames with
  | @cons _ name₁ _ _ h₁ hnames =>
  cases hnames with
  | @cons _ name₂ _ _ h₂ hnames =>
  cases hnames
  obtain rfl : name₁ = "_interact" := h₁.unique (by decide) (.named rfl rfl)
  obtain rfl : name₂ = "_interact" := h₂.unique (by decide) (.named rfl rfl)
  obtain ⟨e, ks, hexports, hdispatches, hevents⟩ := hruns "_interact" List.mem_cons_self
  cases hevents with
  | cons hfirst hevents =>
  cases hevents with
  | cons _ hevents =>
  cases hevents
  obtain ⟨middle, last, body, hcarries, -⟩ := hfirst
  obtain ⟨name, -, hmiddle, -⟩ := hcarries.network
  obtain ⟨name', -, hlast, -⟩ := hcarries.delay
  exact ⟨c, e, _, _, middle, last, body, hc, hexports, hdispatches, hcarries, hmiddle.symm, hlast.symm⟩

end

end TriggerCompiler
