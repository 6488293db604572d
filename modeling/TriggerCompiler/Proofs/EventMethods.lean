import Mathlib
import TriggerCompiler.Proofs.Bodies
import TriggerCompiler.Proofs.Edits
import TriggerCompiler.Proofs.Temporaries

/-!
# The methods of events

Every event gets a chain of methods, and every exported name a method of its own: that is the first
method of the event if there is only one of the name, and otherwise it calls the first methods of its
events in order. Here this is shown of every trigger that is assembled without an error.

A body is lowered once, in the last method of the chain. That no later part of the assembly touches
what stands is a matter of the methods that it leaves alone.
-/

namespace TriggerCompiler

variable {before : List Line} {last : MethodId} {name : String}

/-! ## Marks -/

namespace Program

variable {p q r : Program}

/-- The same methods are marked to ask at their end that variables be sent. -/
def SameMarks (p q : Program) : Prop := ∀ k, (q.method k).serializes = (p.method k).serializes

namespace SameMarks

lemma of_methods (h : q.methods = p.methods) : p.SameMarks q := fun k => by
  unfold method
  rw [h]

lemma trans (h : p.SameMarks q) (h' : q.SameMarks r) : p.SameMarks r := fun k => (h' k).trans (h k)

lemma modifyMethod {f : Method → Method} {m : MethodId}
    (hf : ∀ x, (f x).serializes = x.serializes) : p.SameMarks (p.modifyMethod m f) := by
  intro k
  rw [method_modifyMethod]
  split_ifs with h
  · rw [hf, h.1]
  · rfl

lemma push {x : Method} (hx : x.serializes = false) :
    p.SameMarks { p with methods := p.methods.push x } := by
  intro k
  rcases lt_trichotomy k p.methods.size with hk | rfl | hk
  · rw [method_push rfl hk]
  · rw [method_push_self rfl, hx]
    simp [method, Array.getD_eq_getD_getElem?]
    rfl
  · simp [method, Array.getD_eq_getD_getElem?, Array.getElem?_push, hk.ne', hk.le]

end SameMarks

instance : IsPreorder Program SameMarks where
  refl _ := .of_methods rfl
  trans _ _ _ := SameMarks.trans

instance : IsPreorder Program Stays where
  refl := .refl
  trans _ _ _ := Stays.trans

end Program

namespace Lower

section

variable {α : Type} {R : Program → Program → Prop} {m : MethodId} {slot : SlotId}

/-- The program before and the program after the computation are related. -/
abbrev Preserves (R : Program → Program → Prop) (x : Lower α) : Prop :=
  KeepsTo (InvImage R LowerState.program) x

lemma Preserves.of_ok {x : Lower α} {a : α} {s t : LowerState} (hx : x s = .ok a t)
    [h : Preserves R x] : R s.program t.program :=
  KeepsTo.of_ok (R := InvImage R LowerState.program) hx

lemma preserves_onProgram {g : Program → α × Program} (h : ∀ p : Program, R p (g p).2) :
    Preserves R (onProgram g) :=
  ⟨fun s => h s.program⟩

variable [IsPreorder Program R]

instance : IsPreorder LowerState (InvImage R LowerState.program) where
  refl s := refl_of R s.program
  trans _ _ _ := trans_of R

instance : Lax (InvImage R LowerState.program) :=
  ⟨fun {s _} program _ _ _ => show R _ _ from program ▸ refl_of R s.program⟩

/-- A method that can be added is. -/
lemma preserves_addMethod {kind : MethodKind} (h : ∀ p : Program,
    R p { p with methods := p.methods.push { name, kind } }) :
    Preserves R (tryProgram (·.addMethod name kind)) := by
  refine preserves_onProgram fun p => ?_
  dsimp only
  rcases addMethod_cases p name kind with ⟨-, hadd⟩ | hadd
  · rw [hadd]
    exact h p
  · rw [hadd]
    exact refl_of R p

/-! Until a body is lowered no method is marked. -/

open Program (SameMarks)

instance (g : SlotTable → α × SlotTable) : Preserves SameMarks (onSlots g) :=
  preserves_onProgram fun _ => .of_methods rfl
instance (g : SlotTable → Except ErrorKind (α × SlotTable)) : Preserves SameMarks (trySlots g) := by
  unfold trySlots; infer_instance
instance (type : ValueType) (v : Value) : Preserves SameMarks (constant type v) := by
  unfold constant; infer_instance
instance : Preserves SameMarks this := by unfold this; infer_instance
instance (type : ValueType) : Preserves SameMarks (temporary type) := by
  unfold temporary; infer_instance
instance : Preserves SameMarks (release slot) := by unfold release; infer_instance
instance : Preserves SameMarks newLabel := preserves_onProgram fun _ => .of_methods rfl
instance (i : Instr) : Preserves SameMarks (onProgram (·.emit m i)) :=
  preserves_onProgram fun p =>
    (SameMarks.of_methods (p := p) (q := (p.alloc i).2) rfl).trans (.modifyMethod fun _ => rfl)
instance (l : InstrId) : Preserves SameMarks (onProgram fun p => ((), p.place m l)) :=
  preserves_onProgram fun _ => .modifyMethod fun _ => rfl
instance (e : Epilogue) : Preserves SameMarks (onProgram fun p => ((), p.setEpilogue m e)) :=
  preserves_onProgram fun _ => .modifyMethod fun _ => rfl
instance : Preserves SameMarks (onProgram (·.endLabel m)) := by
  refine preserves_onProgram fun p => ?_
  unfold Program.endLabel
  split
  · exact .of_methods rfl
  · exact (SameMarks.of_methods (q := p.newLabel.2) rfl).trans (.modifyMethod fun _ => rfl)
instance (kind : MethodKind) : Preserves SameMarks (tryProgram (·.addMethod name kind)) :=
  preserves_addMethod fun _ => .push rfl
instance (i : Instr) : Preserves SameMarks (emit i) := by unfold emit; infer_instance
instance (l : InstrId) : Preserves SameMarks (place l) := by unfold place; infer_instance
instance (l : List SlotId) : Preserves SameMarks (callHost name l) := by
  unfold callHost; infer_instance
instance : Preserves SameMarks (callMethod name slot) := by
  unfold callMethod copy; infer_instance
instance (kind : MethodKind) : Preserves SameMarks (addMethod name kind) := by
  unfold addMethod; infer_instance
instance : Preserves SameMarks (leaveUnless m slot) := by
  unfold leaveUnless jumpIfFalse; infer_instance
instance (gate : Gate) : Preserves SameMarks (checkGate gate m) := by
  cases gate <;> (unfold checkGate; infer_instance)
instance (plan : PlannedEvent) (x : Broadcast) : Preserves SameMarks (sendOverNetwork plan x) := by
  unfold sendOverNetwork; infer_instance
instance (plan : PlannedEvent) (x : Single) : Preserves SameMarks (sendDelayed plan x) := by
  unfold sendDelayed; infer_instance
instance (plan : PlannedEvent) : Preserves SameMarks (openEvent plan m) := by
  unfold openEvent
  repeat' first | infer_instance | split | refine .bind inferInstance fun _ => ?_ | dsimp only
instance (plan : PlannedEvent) : Preserves SameMarks (openShared m plan) := by
  unfold openShared
  repeat' first | infer_instance | refine .bind inferInstance fun _ => ?_

end

/-! ## The chain of an event -/

/-- The methods of an event: `k` checks the gate, `middle` is where the event goes on if it is
broadcast, and `last` where it goes on if it is delayed. What stands in a method before the event goes
on there is `gate`, `between` and `before`. -/
structure Wraps (p : Program) (plan : PlannedEvent) (k : MethodId) (gate : List Line)
    (middle : MethodId) (between : List Line) (last : MethodId) (before : List Line) : Prop where
  lt : last < p.methods.size
  check : GateLines plan.event.options.gate p k [] gate
  network : p.Relays plan.network? k gate middle between
  delay : p.Relays plan.delay? middle between last before
  quiet : ∀ j ∈ [k, middle], j ≠ last → (p.method j).serializes = false

/-- The method holds what the compile of the trigger has made of the actions of a body, after the lines
that were there. -/
inductive Bears (env : Environment) (t : Trigger) (p : Program) (actions : List Action)
    (last : MethodId) (before : List Line) : Prop where
  | intro {s u : LowerState} {code : List Line} (reaches : ReachesBody env t actions s)
      (lowered : lowerBody env actions s = .ok ⟨⟩ u) (place : s.method = last)
      (lines : s.program.lines last = before) (adds : s.program.Lengthens last code u.program)
      (spares : u.program.Spares last p)

/-- The program has the methods of an event, and the last of them holds its body. -/
def Laid (env : Environment) (t : Trigger) (p : Program) (plan : PlannedEvent) (k : MethodId) : Prop :=
  ∃ gate middle between last before, Wraps p plan k gate middle between last before ∧
    Bears env t p plan.event.actions last before

variable {s u v : LowerState} {env : Environment} {t : Trigger} {p q : Program} {plan : PlannedEvent}
  {plans : List PlannedEvent} {agenda : Agenda} {k : MethodId}

lemma Wraps.le {gate between : List Line} {middle : MethodId}
    (h : Wraps p plan k gate middle between last before) : k ≤ middle ∧ middle ≤ last :=
  ⟨h.network.le, h.delay.le⟩

/-- An event with one method is not handed over. -/
lemma Wraps.undivided {gate between : List Line} {middle : MethodId}
    (h : Wraps p plan k gate middle between last before) (hlast : k = last) :
    plan.event.options.broadcast = .here ∧ plan.event.options.delay.isPositive = false := by
  obtain ⟨hkm, hml⟩ := h.le
  constructor
  · by_contra hsent
    have hnetwork := h.network
    rw [PlannedEvent.network?, if_pos hsent] at hnetwork
    have hlt : k < middle := hnetwork.1
    exact (hlt.trans_le hml).ne hlast
  · by_contra hdelayed
    have hdelay := h.delay
    rw [PlannedEvent.delay?, if_pos (Bool.not_eq_false _ ▸ hdelayed)] at hdelay
    have hlt : middle < last := hdelay.1
    exact (hkm.trans_lt hlt).ne hlast

/-- The lines that come before the body stay in front of it. -/
lemma Bears.lines_eq {actions : List Action} (h : Bears env t p actions last before) :
    ∃ rest, p.lines last = before ++ rest := by
  obtain ⟨-, -, -, lines, adds, spares⟩ := h
  exact ⟨_, by rw [spares.lines, adds.lines, lines]⟩

/-- The methods of an event stay if all methods from its first one on do. -/
lemma Laid.spared (h : Laid env t p plan k) (hslots : p.slots.Within q.slots)
    (hsize : p.methods.size ≤ q.methods.size)
    (hspares : ∀ j < p.methods.size, k ≤ j → p.Spares j q) : Laid env t q plan k := by
  obtain ⟨gate, middle, between, last, before, hwraps, hbears⟩ := h
  obtain ⟨hkm, hml⟩ := hwraps.le
  have hlast := hspares last hwraps.lt (hkm.trans hml)
  have hmiddle := hspares middle (hml.trans_lt hwraps.lt) hkm
  have hk := hspares k ((hkm.trans hml).trans_lt hwraps.lt) le_rfl
  refine ⟨gate, middle, between, last, before, ⟨hwraps.lt.trans_le hsize,
    hwraps.check.mono hslots hk.sameHead,
    hwraps.network.mono hslots (fun _ => hk.lines) hmiddle.sameHead,
    hwraps.delay.mono hslots (fun _ => hmiddle.lines) hlast.sameHead, fun j hj hne => ?_⟩, ?_⟩
  · have hj' : p.Spares j q := by
      simp only [List.mem_cons, List.not_mem_nil, or_false] at hj
      rcases hj with rfl | rfl
      · exact hk
      · exact hmiddle
    rw [hj'.method]
    exact hwraps.quiet j hj hne
  · obtain ⟨reaches, lowered, place, lines, adds, spares⟩ := hbears
    exact .intro reaches lowered place lines adds (spares.trans hlast)

/-- An event is assembled in the given method and in new ones. -/
lemma assembleEvent_laid (henv : env.Sound) (hs : s.Idle)
    (hplan : Planned env agenda s.program.slots plan) (hk : s.Owns k)
    (hreaches : ∀ u, openEvent plan k s = .ok ⟨⟩ u → ReachesBody env t plan.event.actions u)
    (hempty : s.program.lines k = [])
    (hquiet : ∀ j, k ≤ j → (s.program.method j).serializes = false)
    (hrun : assembleEvent env plan k s = .ok ⟨⟩ v) (herrors : v.errors = #[]) :
    Laid env t v.program plan k ∧ s.program.Leaves k v.program := by
  rw [assembleEvent_eq] at hrun
  obtain ⟨⟨⟩, u, hopen, hbody⟩ := bind_eq_ok.mp hrun
  obtain ⟨hu, -, hopened⟩ := Goes.ok env (openEvent_goes hs hplan hk) hopen
  obtain ⟨code, hadds⟩ := lowerBody_extends henv (fun a ha => (hplan.actions a ha).2) hu hopened.lt
    hbody herrors
  have hmarks := Preserves.of_ok (R := Program.SameMarks) hopen
  obtain ⟨gate, middle, between, hgate, hnetwork, hmiddle, hdelay⟩ := hopened.wraps
  rw [hempty, List.nil_append] at hnetwork
  have hkm := hnetwork.le
  have hml := hdelay.le
  have hku := hk.lt.trans_le hopened.leaves.size_le
  refine ⟨⟨gate, middle, between, u.method, u.program.lines u.method, ⟨?_, ?_, ?_, ?_, ?_⟩, ?_⟩, ?_⟩
  · exact hopened.lt.trans_le hadds.size_le
  · exact hgate.mono hadds.slots (hadds.sameHead hku)
  · exact hnetwork.leaves hmiddle hml hadds.toLeaves
  · exact hdelay.leaves hopened.lt le_rfl hadds.toLeaves
  · intro j hj hne
    have hj' : j < u.program.methods.size ∧ k ≤ j := by
      simp only [List.mem_cons, List.not_mem_nil, or_false] at hj
      rcases hj with rfl | rfl
      · exact ⟨hku, le_rfl⟩
      · exact ⟨hmiddle, hkm⟩
    rw [(hadds.spares j hj'.1 hne).method, hmarks j]
    exact hquiet j hj'.2
  · exact .intro (hreaches u hopen) hbody rfl rfl hadds (.refl _ _)
  · exact hopened.leaves.trans_new hadds.toLeaves hk.lt hopened.place

/-! ## The methods of exported names -/

/-- The call of the method of an event that shares its exported name, with the lines of the call. -/
structure Called (env : Environment) (t : Trigger) (p : Program) (plan : PlannedEvent)
    (x : MethodId × List Line) : Prop where
  lt : x.1 < p.methods.size
  name : (p.method x.1).name = plan.ownName
  kind : (p.method x.1).kind = .internal
  call : ∃ slot, (p.method x.1).epilogue = .indirect slot ∧
    MethodLines p.slots plan.ownName slot x.2
  laid : Laid env t p plan x.1

lemma Called.spared {x : MethodId × List Line} (h : Called env t p plan x)
    (hslots : p.slots.Within q.slots) (hsize : p.methods.size ≤ q.methods.size)
    (hspares : ∀ j < p.methods.size, x.1 ≤ j → p.Spares j q) : Called env t q plan x := by
  have hmethod := (hspares x.1 h.lt le_rfl).method
  obtain ⟨slot, hslot, back, address, hconstant, hlines⟩ := h.call
  refine ⟨h.lt.trans_le hsize, ?_, ?_, ⟨slot, ?_, back, address, hconstant.within hslots, hlines⟩,
    h.laid.spared hslots hsize hspares⟩
  all_goals rw [hmethod]
  · exact h.name
  · exact h.kind
  · exact hslot

/-- An event that shares its exported name is called, and assembled in new methods. -/
lemma assembleShared_called (henv : env.Sound) (hs : s.Idle)
    (hplan : Planned env agenda s.program.slots plan) {exported : MethodId} (hm : s.Owns exported)
    (hhalts : (s.program.method exported).epilogue = .halt)
    (hreaches : ∀ method u v, openShared exported plan s = .ok method u →
      openEvent plan method u = .ok ⟨⟩ v → ReachesBody env t plan.event.actions v)
    (hrun : assembleShared env exported plan s = .ok ⟨⟩ v) (herrors : v.errors = #[]) :
    ∃ x, s.program.methods.size ≤ x.1 ∧ Called env t v.program plan x ∧
      s.program.Lengthens exported x.2 v.program ∧
      (v.program.method exported).serializes = (s.program.method exported).serializes := by
  rw [assembleShared_eq] at hrun
  obtain ⟨method, u, hopen, hevent⟩ := bind_eq_ok.mp hrun
  obtain ⟨hu, hcourse, hopened⟩ :=
    Goes.ok env (openShared_goes hs hm hhalts (hplan.adds _ _ .shared)) hopen
  obtain ⟨slot, code, hmethod, hlines, hadds⟩ := hopened.call
  have hlt : exported < method := hopened.new ▸ hm.lt
  have hmarks := Preserves.of_ok (R := Program.SameMarks) hopen
  -- the methods from the new one on are not marked, since they are empty or not there yet
  have hquiet : ∀ j, method ≤ j → (u.program.method j).serializes = false := by
    intro j hj
    rw [hmarks j, Program.method_of_le (hopened.new ▸ hj)]
    rfl
  have hempty : u.program.lines method = [] := by
    unfold Program.lines
    rw [hmethod]
    rfl
  obtain ⟨hlaid, hleaves⟩ := assembleEvent_laid henv hu (hplan.within hcourse.slots) hopened.owns
    (fun v hv => hreaches method u v hopen hv) hempty hquiet hevent herrors
  have hexported := hleaves.spares exported (hm.lt.trans_le hadds.size_le) hlt.ne
  refine ⟨(method, code), hopened.new.ge, ⟨hopened.owns.lt.trans_le hleaves.size_le, ?_, ?_,
    ⟨slot, ?_, ?_⟩, hlaid⟩, ?_, ?_⟩
  · rw [hleaves.name, hmethod]
  · rw [hleaves.kind, hmethod]
  · rw [hleaves.epilogue, hmethod]
  · obtain ⟨back, address, hconstant, hcode⟩ := hlines
    exact ⟨back, address, hconstant.within hleaves.slots, hcode⟩
  · exact hadds.leaves_new hleaves hm.lt hopened.new.ge
  · rw [hexported.method, hmarks exported]

/-- A loop that has come to the end of a list goes on with one more member. -/
lemma forM_concat {ι : Type} {f : ι → Lower PUnit} {l : List ι} {i : ι}
    (h : l.forM f s = .ok ⟨⟩ u) (hi : f i u = .ok ⟨⟩ v) : (l ++ [i]).forM f s = .ok ⟨⟩ v := by
  induction l generalizing s with
  | nil =>
    obtain ⟨-, rfl⟩ := EStateM.Result.ok.inj h
    exact bind_eq_ok.mpr ⟨⟨⟩, v, hi, rfl⟩
  | cons j l ih =>
    obtain ⟨⟨⟩, w, hj, hl⟩ := bind_eq_ok.mp h
    exact bind_eq_ok.mpr ⟨⟨⟩, w, hj, ih hl⟩

/-- The events that share an exported name are called in order. -/
lemma assembleShared_all (henv : env.Sound) {earlier : List PlannedEvent} {exported : MethodId}
    {s₁ s₂ : LowerState} (hname : ReachesName env t name (earlier ++ plans) s₁)
    (hseveral : (earlier ++ plans).length ≠ 1) (hadded : addMethod name .entry s₁ = .ok exported s₂)
    (hearlier : earlier.forM (assembleShared env exported) s₂ = .ok ⟨⟩ s) (hs : s.Idle)
    (hplans : ∀ plan ∈ plans, Planned env agenda s.program.slots plan) (hm : s.Owns exported)
    (hhalts : (s.program.method exported).epilogue = .halt)
    (hrun : plans.forM (assembleShared env exported) s = .ok ⟨⟩ v) (herrors : v.errors = #[]) :
    ∃ calls, List.Forall₂ (Called env t v.program) plans calls ∧
      (∀ x ∈ calls, s.program.methods.size ≤ x.1) ∧ (calls.map Prod.fst).Pairwise (· < ·) ∧
      s.program.Lengthens exported (calls.map Prod.snd).flatten v.program ∧
      (v.program.method exported).serializes = (s.program.method exported).serializes := by
  induction plans generalizing earlier s with
  | nil =>
    obtain ⟨-, rfl⟩ := EStateM.Result.ok.inj hrun
    exact ⟨[], .nil, by simp, .nil, (Program.Stays.refl _).lengthens hm.lt, rfl⟩
  | cons plan plans ih =>
    obtain ⟨⟨⟩, u, hfirst, hothers⟩ := bind_eq_ok.mp hrun
    have hplan := hplans plan List.mem_cons_self
    obtain ⟨hu, hcourse, -⟩ := Ensures.ok (assembleShared_goes henv hs hplan hm hhalts) hfirst
    have hplans' : ∀ x ∈ plans, Planned env agenda u.program.slots x := fun x hx =>
      (hplans x (List.mem_cons_of_mem _ hx)).within hcourse.slots
    have hm' := hcourse.endures.owns hm
    have hhalts' := (hcourse.endures.epilogue exported hm.lt).trans hhalts
    obtain ⟨-, hcourse', -⟩ := (assembleShared_forM_goes henv hu hplans' hm' hhalts').ok env hothers
    have hu_errors : u.errors = #[] := (hcourse'.steps herrors).1
    have hsome : earlier ++ plans ≠ [] := by
      intro hnil
      obtain ⟨rfl, rfl⟩ := List.append_eq_nil_iff.mp hnil
      exact hseveral rfl
    obtain ⟨x, hx, hcalled, hadds, hmark⟩ := assembleShared_called henv hs hplan hm hhalts
      (fun method w w' hw hw' => .shared hname hsome hadded hearlier hw hw') hfirst hu_errors
    have hname' : ReachesName env t name ((earlier ++ [plan]) ++ plans) s₁ := by simpa using hname
    obtain ⟨calls, hcalls, hge, hordered, hrest, hmark'⟩ := ih hname' (by simpa using hseveral)
      (forM_concat hearlier hfirst) hu hplans' hm' hhalts' hothers
    refine ⟨x :: calls, .cons ?_ hcalls, ?_, ?_, ?_, hmark'.trans hmark⟩
    · exact hcalled.spared hrest.slots hrest.size_le fun j hj hle =>
        hrest.spares j hj ((hm.lt.trans_le hx).trans_le hle).ne'
    · rintro y (_ | ⟨_, hy⟩)
      · exact hx
      · exact hadds.size_le.trans (hge y hy)
    · refine List.pairwise_cons.mpr ⟨fun k hk => ?_, hordered⟩
      obtain ⟨y, hy, rfl⟩ := List.mem_map.mp hk
      exact hcalled.lt.trans_le (hge y hy)
    · exact hadds.trans hrest

/-- The method is one that the host can start under the name. -/
structure Exported (p : Program) (name : String) (e : MethodId) : Prop where
  lt : e < p.methods.size
  name : (p.method e).name = name
  kind : (p.method e).kind = .entry
  epilogue : (p.method e).epilogue = .halt

lemma Exported.spared {e : MethodId} (h : Exported p name e) (hs : p.Stays q) :
    Exported q name e := by
  have hmethod := (hs.spares e h.lt).method
  refine ⟨h.lt.trans_le hs.size_le, ?_, ?_, ?_⟩
  all_goals rw [hmethod]
  · exact h.name
  · exact h.kind
  · exact h.epilogue

/-- The method of an exported name: it is the first one of its event, or it calls those of its
events. -/
inductive Answers (env : Environment) (t : Trigger) (p : Program) (name : String) :
    List PlannedEvent → Prop where
  | alone {plan : PlannedEvent} {e : MethodId} (exported : Exported p name e)
      (laid : Laid env t p plan e) : Answers env t p name [plan]
  | shared {plans : List PlannedEvent} {e : MethodId} {calls : List (MethodId × List Line)}
      (several : plans.length ≠ 1) (exported : Exported p name e)
      (called : List.Forall₂ (Called env t p) plans calls)
      (ordered : (calls.map Prod.fst).Pairwise (· < ·))
      (lines : p.lines e = (calls.map Prod.snd).flatten)
      (quiet : (p.method e).serializes = false) : Answers env t p name plans

lemma Answers.spared (h : Answers env t p name plans) (hs : p.Stays q) :
    Answers env t q name plans := by
  cases h with
  | alone exported laid =>
    exact .alone (exported.spared hs) (laid.spared hs.slots hs.size_le fun j hj _ => hs.spares j hj)
  | @shared _ e calls several exported called ordered lines quiet =>
    refine .shared several (exported.spared hs) (called.imp fun plan x hx => ?_) ordered ?_ ?_
    · exact hx.spared hs.slots hs.size_le fun j hj _ => hs.spares j hj
    · rw [(hs.spares e exported.lt).lines, lines]
    · rw [(hs.spares e exported.lt).method, quiet]

/-- The events of a name are assembled in new methods. -/
lemma assembleName_answers (henv : env.Sound) (hname : ReachesName env t name plans s) (hs : s.Idle)
    (hentry : agenda.adds name .entry)
    (hplans : ∀ plan ∈ plans, Planned env agenda s.program.slots plan)
    (hrun : assembleName env name plans s = .ok ⟨⟩ v) (herrors : v.errors = #[]) :
    Answers env t v.program name plans ∧ s.program.Stays v.program := by
  obtain ⟨e, u, hadded, hevents⟩ := bind_eq_ok.mp hrun
  obtain ⟨hu, hcourse, rfl, hstate, hown⟩ := Goes.ok env (addMethod_goes hs hentry) hadded
  have hplans' : ∀ plan ∈ plans, Planned env agenda u.program.slots plan := fun plan hplan =>
    (hplans plan hplan).within hcourse.slots
  have hmethod : u.program.method s.program.methods.size = { name, kind := .entry } := by
    rw [hstate]
    exact Program.method_push_self rfl
  have hstays : s.program.Stays u.program := by
    rw [hstate]
    exact s.program.stays_push _ (SlotTable.Within.refl _)
  have hempty : u.program.lines s.program.methods.size = [] := by
    unfold Program.lines
    rw [hmethod]
    rfl
  have hquiet : ∀ j, s.program.methods.size ≤ j → (u.program.method j).serializes = false := by
    intro j hj
    rw [Preserves.of_ok (R := Program.SameMarks) hadded j, Program.method_of_le hj]
    rfl
  have hexported : ∀ w : Program, u.program.Leaves s.program.methods.size w →
      Exported w name s.program.methods.size := by
    intro w hw
    refine ⟨hown.lt.trans_le hw.size_le, ?_, ?_, ?_⟩
    · rw [hw.name, hmethod]
    · rw [hw.kind, hmethod]
    · rw [hw.epilogue, hmethod]
  have hshared : plans.length ≠ 1 → plans.forM (assembleShared env s.program.methods.size) u = .ok ⟨⟩ v →
      Answers env t v.program name plans ∧ s.program.Stays v.program := by
    intro hseveral hevents
    have hname' : ReachesName env t name ([] ++ plans) s := hname
    obtain ⟨calls, hcalls, -, hordered, hadds, hmark⟩ := assembleShared_all henv hname' hseveral hadded rfl hu
      hplans' hown (by rw [hmethod]) hevents herrors
    refine ⟨.shared hseveral (hexported _ hadds.toLeaves) hcalls hordered ?_ ?_,
      hstays.leaves hadds.toLeaves le_rfl⟩
    · rw [hadds.lines, hempty, List.nil_append]
    · rw [hmark]
      exact hquiet _ le_rfl
  split at hevents
  · obtain ⟨hlaid, hleaves⟩ := assembleEvent_laid henv hu (hplans' _ List.mem_cons_self) hown
      (fun w hw => .alone hname hadded hw) hempty hquiet hevents herrors
    exact ⟨.alone (hexported _ hleaves) hlaid, hstays.leaves hleaves le_rfl⟩
  · rename_i hno
    refine hshared (fun hone => ?_) hevents
    obtain ⟨plan, rfl⟩ := List.length_eq_one_iff.mp hone
    exact hno plan rfl

/-! ## All events -/

/-- The events are planned one after the other. -/
lemma planEvents_exports (hs : s.Idle) (htable : s.program.slots.Declares t.declarations)
    {events : List Event} {index : Nat} (he : ∀ x ∈ events.zipIdx index, agenda.Covers env t x.1 x.2)
    (hrun : planEvents env index events s = .ok plans u) (herrors : u.errors = #[]) :
    plans.map (fun x => (x.event, x.index)) = events.zipIdx index ∧
      ∀ plan ∈ plans, plan.event.Exports env.registry t plan.exported := by
  induction events generalizing s index plans with
  | nil =>
    obtain ⟨rfl, rfl⟩ := EStateM.Result.ok.inj hrun
    exact ⟨rfl, by simp⟩
  | cons e events ih =>
    have he' : ∀ x ∈ events.zipIdx (index + 1), agenda.Covers env t x.1 x.2 := fun x hx =>
      he x (by simp [List.zipIdx_cons, hx])
    have hone := planEvent_ensures env htable index e
    rw [planEvents] at hrun
    obtain ⟨outcome, v, hattempt, hrun⟩ := bind_eq_ok.mp hrun
    unfold attempt at hattempt
    cases hplan : planEvent env index e s with
    | ok plan w =>
      rw [hplan] at hattempt
      obtain ⟨rfl, rfl⟩ := EStateM.Result.ok.inj hattempt
      obtain ⟨rest, w', hrest, hrun⟩ := bind_eq_ok.mp hrun
      obtain ⟨rfl, rfl⟩ := EStateM.Result.ok.inj hrun
      obtain ⟨hturn, hfound⟩ := hone.ok hplan
      have hw := hturn.idle hs
      obtain ⟨hmap, hall⟩ := ih hw (hturn.program ▸ htable) he' hrest
      refine ⟨?_, ?_⟩
      · rw [List.map_cons, List.zipIdx_cons, hmap, hfound.event, hfound.index]
      · rintro x (_ | ⟨_, hx⟩)
        · exact hfound.event ▸ hfound.exports
        · exact hall x hx
    | error err w =>
      rw [hplan] at hattempt
      obtain ⟨rfl, rfl⟩ := EStateM.Result.ok.inj hattempt
      -- what is left out leaves an error, and errors stay
      have hturn := (hone.error hplan).1
      have hw := hturn.idle hs
      dsimp only at hrun
      split_ifs at hrun
      · cases hrun
      · obtain ⟨⟨⟩, w', hpush, hrest⟩ := bind_eq_ok.mp hrun
        obtain ⟨-, rfl⟩ := EStateM.Result.ok.inj hpush
        obtain ⟨-, hcourse, -⟩ := Goes.ok env (planEvents_goes
          (s := { w with errors := w.errors.push err }) { hw with } (hturn.program ▸ htable) he') hrest
        exact absurd (hcourse.steps herrors).1 (by simp)

/-- The names are assembled one after the other. -/
lemma assembleNames_answers (henv : env.Sound) {before names : List String} {s₀ s₁ : LowerState}
    (declares : t.declarations.forM declareUser {} = .ok ⟨⟩ s₀)
    (planned : planEvents env 0 t.events s₀ = .ok plans s₁)
    (hnames : (plans.map (·.exported)).eraseDups = before ++ names)
    (assembled : (before.forM fun n => assembleName env n (plans.filter (·.exported = n))) s₁ =
      .ok ⟨⟩ s)
    (hs : s.Idle) (hplans : ∀ plan ∈ plans, Planned env agenda s.program.slots plan)
    (hrun : (names.forM fun n => assembleName env n (plans.filter (·.exported = n))) s = .ok ⟨⟩ v)
    (herrors : v.errors = #[]) :
    (∀ name ∈ names, Answers env t v.program name (plans.filter (·.exported = name))) ∧
      s.program.Stays v.program := by
  induction names generalizing before s with
  | nil =>
    obtain ⟨-, rfl⟩ := EStateM.Result.ok.inj hrun
    exact ⟨by simp, .refl _⟩
  | cons name names ih =>
    obtain ⟨⟨⟩, u, hfirst, hothers⟩ := bind_eq_ok.mp hrun
    have hsub : names ⊆ (plans.map (·.exported)).eraseDups := fun n hn => by simp [hnames, hn]
    have hentry : agenda.adds name .entry := adds_of_mem_names hplans (by simp [hnames])
    have hthese : ∀ plan ∈ plans.filter (·.exported = name),
        Planned env agenda s.program.slots plan := fun plan hplan =>
      hplans plan (List.mem_filter.mp hplan).1
    obtain ⟨hu, hcourse, -⟩ := (assembleName_goes henv hs hthese hentry).ok env hfirst
    have hplans' : ∀ plan ∈ plans, Planned env agenda u.program.slots plan := fun plan hplan =>
      (hplans plan hplan).within hcourse.slots
    obtain ⟨-, hcourse', -⟩ := (assembleNames_goes henv hu hplans' hsub).ok env hothers
    obtain ⟨hanswers, hstays⟩ := assembleName_answers henv
      (.intro declares planned hnames rfl assembled) hs hentry hthese hfirst (hcourse'.steps herrors).1
    have hnames' : (plans.map (·.exported)).eraseDups = (before ++ [name]) ++ names := by
      simpa using hnames
    obtain ⟨hrest, hstays'⟩ := ih hnames' (forM_concat assembled hfirst) hu hplans' hothers
    refine ⟨?_, hstays.trans hstays'⟩
    rintro n (_ | ⟨_, hn⟩)
    · exact hanswers.spared hstays'
    · exact hrest n hn

instance (l : List VariableDecl) : Preserves Program.Stays (addMissingHandlers l) := by
  have hadd : ∀ name, Preserves Program.Stays (tryProgram (·.addMethod name .entry)) :=
    fun _ => preserves_addMethod fun p => p.stays_push _ (SlotTable.Within.refl _)
  unfold addMissingHandlers
  infer_instance

/-- What comes after the events leaves their methods as they are. No error is kept at the end, so none was
kept before. -/
lemma assembleTrigger_last {s₂ s₃ : LowerState} (hs₂ : s₂.Idle)
    (handlers : addMissingHandlers t.declarations s₂ = .ok ⟨⟩ s₃)
    (hrun : (if env.options.warnUnused then warnUnused t.declarations else pure ⟨⟩) s₃ = .ok ⟨⟩ v)
    (herrors : v.errors = #[]) :
    s₂.errors = #[] ∧ s₂.program.Stays v.program := by
  have hadds : ∀ v ∈ t.declarations, v.notifies = true →
      (t.agenda env.registry).adds (handlerName v.name) .entry := fun v hv => .handler hv
  obtain ⟨hs₃, hc₃, -⟩ := Goes.ok env (addMissingHandlers_goes hs₂ hadds) handlers
  have hlast : s₃.errors = #[] ∧ s₃.program.Stays v.program := by
    split_ifs at hrun
    · have hwarn : Goes env (t.agenda env.registry) s₃ _ _ := warnUnused_goes hs₃ t.declarations
      exact ⟨((Ensures.ok hwarn hrun).2.1.steps herrors).1, Preserves.of_ok hrun⟩
    · obtain ⟨-, rfl⟩ := EStateM.Result.ok.inj hrun
      exact ⟨herrors, .refl _⟩
  exact ⟨(hc₃.steps hlast.1).1, Program.Stays.trans (Preserves.of_ok handlers) hlast.2⟩

/-- The stages of an assembly without an error: the variables are declared, the events are planned, their
names are assembled, and what comes last leaves their methods alone. -/
structure Stages (env : Environment) (t : Trigger) (plans : List PlannedEvent)
    (s₀ s₁ s₂ v : LowerState) : Prop where
  declares : t.declarations.forM declareUser {} = .ok ⟨⟩ s₀
  planned : planEvents env 0 t.events s₀ = .ok plans s₁
  assembled : ((plans.map (·.exported)).eraseDups.forM fun name =>
    assembleName env name (plans.filter (·.exported = name))) s₁ = .ok ⟨⟩ s₂
  idle : s₁.Idle
  covered : ∀ plan ∈ plans, Planned env (t.agenda env.registry) s₁.program.slots plan
  errors : s₂.errors = #[]
  events : plans.map (fun x => (x.event, x.index)) = t.events.zipIdx
  exports : ∀ plan ∈ plans, plan.event.Exports env.registry t plan.exported
  stays : s₂.program.Stays v.program

section

variable (henv : env.Sound) (ht : t.NoAddress) (hrun : assembleTrigger env t {} = .ok ⟨⟩ v)
  (herrors : v.errors = #[])
include henv ht hrun herrors

lemma assembleTrigger_stages : ∃ plans s₀ s₁ s₂, Stages env t plans s₀ s₁ s₂ v := by
  obtain ⟨⟨⟩, s₀, declares, hrun⟩ := bind_eq_ok.mp hrun
  obtain ⟨-, hdeclares, hidle⟩ := declareUsers_idle ht declares
  obtain ⟨plans, s₁, planned, hrun⟩ := bind_eq_ok.mp hrun
  obtain ⟨⟨⟩, s₂, assembled, hrun⟩ := bind_eq_ok.mp hrun
  obtain ⟨⟨⟩, s₃, handlers, hrun⟩ := bind_eq_ok.mp hrun
  have hcovers : ∀ x ∈ t.events.zipIdx, (t.agenda env.registry).Covers env t x.1 x.2 := fun x hx =>
    Agenda.covers_trigger ht hx
  obtain ⟨hs₁, -, hplans⟩ := Goes.ok env (planEvents_goes hidle hdeclares hcovers) planned
  obtain ⟨hs₂, hc₂, -⟩ :=
    Goes.ok env (assembleNames_goes henv hs₁ hplans (List.Subset.refl _)) assembled
  obtain ⟨herrors₂, hstays⟩ := assembleTrigger_last hs₂ handlers hrun herrors
  obtain ⟨hmap, hexports⟩ :=
    planEvents_exports hidle hdeclares hcovers planned (hc₂.steps herrors₂).1
  exact ⟨plans, s₀, s₁, s₂, declares, planned, assembled, hs₁, hplans, herrors₂, hmap, hexports, hstays⟩

/-- A trigger that was assembled without an error answers to the exported names of its events. -/
lemma assembleTrigger_answers :
    ∃ plans : List PlannedEvent, plans.map (fun x => (x.event, x.index)) = t.events.zipIdx ∧
      (∀ plan ∈ plans, plan.event.Exports env.registry t plan.exported) ∧
      ∀ plan ∈ plans, Answers env t v.program plan.exported
        (plans.filter (·.exported = plan.exported)) := by
  obtain ⟨plans, s₀, s₁, s₂, h⟩ := assembleTrigger_stages henv ht hrun herrors
  obtain ⟨hanswers, -⟩ := assembleNames_answers henv h.declares h.planned (List.nil_append _).symm rfl
    h.idle h.covered h.assembled h.errors
  refine ⟨plans, h.events, h.exports, fun plan hplan => (hanswers plan.exported ?_).spared h.stays⟩
  rw [List.mem_eraseDups]
  exact List.mem_map_of_mem hplan

end

end Lower

end TriggerCompiler
