import Mathlib
import TriggerCompiler.Proofs.Serialization
import TriggerCompiler.Proofs.WrapperRuns

/-!
# Methods that only call others

The method of an exported name that events share is a sequence of calls. A run of it comes to the calls
in order. Nothing that a called method does can keep it from the next call, as long as that method comes
to its end: only the end of the first method halts the machine.
-/

namespace TriggerCompiler

variable {name : String}

open Program Lower

namespace Program

/-- The methods that the lines call, in order. -/
def callsIn (q : Program) (code : List Line) : List MethodId :=
  code.filterMap fun
    | .code (.jumpMethod name) => q.findMethod? name
    | _ => none

variable {q : Program} {code code' : List Line}

lemma callsIn_append (q : Program) (code code' : List Line) :
    q.callsIn (code ++ code') = q.callsIn code ++ q.callsIn code' :=
  List.filterMap_append

lemma callsIn_call {k : MethodId} (h : q.findMethod? name = some k) :
    q.callsIn [.code (.jumpMethod name)] = [k] := by
  simp [callsIn, h]

lemma callsIn_of_ne {x : Line} (h : ∀ name, x ≠ .code (.jumpMethod name)) : q.callsIn [x] = [] := by
  unfold callsIn
  simp only [List.filterMap_cons, List.filterMap_nil]

end Program

/-- A line of a method that only calls others. -/
inductive Line.Calling : Line → Prop where
  | label (l : InstrId) : Calling (.label l)
  | push (slot : SlotId) : Calling (.code (.push slot))
  | copy : Calling (.code .copy)
  | call (name : String) : Calling (.code (.jumpMethod name))
  | halt : Calling (.code .halt)

lemma Line.Calling.labelTarget {x : Line} (h : x.Calling) : x.instr.labelTarget = none := by
  cases h <;> rfl

/-- A run of the method calls the listed methods in that order, each once. As long as a call has not
returned, the machine is in the method that was called, and it leaves that method for the label behind the
call. Otherwise the machine goes on without an effect, and it halts when all calls are done. -/
structure Run.Dispatches (q : Program) (e : MethodId) (ks : List MethodId) : Prop where
  nodup : ks.Nodup
  order : ∀ m, m.Session q → ∀ done pending y, Nests (q.start e, m) done pending y →
    (done ++ pending.reverse).filterMap q.calledAt? <+: ks
  called : ∀ m, m.Session q → ∀ done pending y, Nests (q.start e, m) done pending y →
    pending ≠ [] → ∃ site name k slot, pending = [site] ∧ Invoked q site y name k slot
  goesOn : ∀ m, m.Session q → ∀ done y, Nests (q.start e, m) done [] y →
    ∃ next m', step y.1 y.2 = .ok next m' ∧ m'.effects = y.2.effects ∧
      (next = none → done.filterMap q.calledAt? = ks)

/-- What has been called when a run of a method that only calls others comes to a line. -/
inductive Program.Dispatching (q : Program) (e : MethodId) (done : List Nat) :
    List Nat → Spot → Prop where
  | between {a : Spot} (inside : a.method = e)
      (calls : done.filterMap q.calledAt? = q.callsIn a.before) : Dispatching q e done [] a
  | during {a : Spot} {site : Nat} {before after : List Line} {name : String}
      (place : q.At e before (.code (.jumpMethod name)) after site)
      (found : q.findMethod? name = some a.method)
      (calls : done.filterMap q.calledAt? = q.callsIn before) : Dispatching q e done [site] a

namespace Program

variable {R : Rules} {f q : Program} {e : MethodId} {m : Machine} {base : List SlotId}
  {bottom : MethodId → Prop} {done pending pending' : List Nat} {a b : Spot} {c d : Nat × Machine}

/-- A step of a run of a method that only calls others. -/
lemma Dispatching.shift (h : q.Dispatching e done pending a)
    (ha : Nested R f q base bottom pending a c) (hb : Nested R f q base bottom pending' b d)
    (hshift : q.Shift pending a pending' b) (hcalling : ∀ x ∈ q.lines e, x.Calling)
    (hcallees : ∀ name k, q.Invokes e name → q.findMethod? name = some k → ∀ name', ¬ q.Invokes k name') :
    q.Dispatching e (done ++ a.line.instr.returning pending) pending' b := by
  cases h with
  | between inside calls =>
    have hline : a.line.Calling := by
      refine hcalling _ ?_
      rw [← inside, ha.place.lines]
      simp
    cases hshift with
    | on after_eq falls =>
      rw [Instr.returning_of_ne (by rintro slot hslot; rw [hslot] at falls; exact falls),
        List.append_nil]
      refine .between inside ?_
      rw [calls, callsIn_append, callsIn_of_ne (by rintro name hname; rw [hname] at falls; exact falls),
        List.append_nil]
    | label target => cases target.symm.trans hline.labelTarget
    | @enter name k y rest line found =>
      rw [line, Instr.returning_of_ne (by simp [Line.instr]), List.append_nil]
      exact .during (line ▸ inside ▸ ha.place) found calls
    | back _ pending_eq => cases pending_eq
    | leave line => rw [line] at hline; cases hline
  | @during _ site before after name place found calls =>
    cases hshift with
    | on after_eq falls =>
      rw [Instr.returning_of_ne (by rintro slot hslot; rw [hslot] at falls; exact falls),
        List.append_nil]
      exact .during place found calls
    | label target =>
      rw [Instr.returning_of_ne (by rintro slot hslot; rw [hslot] at target; cases target),
        List.append_nil]
      exact .during place found calls
    | @enter name' k y rest line found' =>
      exact absurd (line ▸ ha.place).invokes (hcallees name _ place.invokes found name')
    | @back slot site' sites k before' after' name' l line pending_eq found' =>
      obtain ⟨rfl, rfl⟩ := List.cons.inj pending_eq
      -- the label behind the call is in the method that has made it
      obtain ⟨n, hn, hprev⟩ := hb.place.prev
      obtain rfl : site = n := Nat.succ.inj hn
      obtain ⟨rfl, rfl, hcall, -⟩ := hprev.unique place
      obtain rfl : name' = name := by simpa using hcall
      refine .between rfl ?_
      rw [line, callsIn_append, callsIn_call found, List.filterMap_append, calls]
      simp [Instr.returning, Line.instr, place.calledAt?_eq, found]
    | leave _ pending_eq => cases pending_eq

/-- Wherever a run of a method that only calls others comes to, the calls that stand before have been
made. -/
lemma dispatching_of_nests (hm : m.Intact R f q) (h : Ready R f q) (hR : R.Takes) (hq : q.Layered)
    (hsize : q.size < 2 ^ 32) (he : q.findMethod? name = some e)
    (hhalt : (q.method e).epilogue = .halt) (hcalling : ∀ x ∈ q.lines e, x.Calling)
    (hcallees : ∀ name k, q.Invokes e name → q.findMethod? name = some k → ∀ name', ¬ q.Invokes k name')
    (hc : Run.Nests (q.start e, m) done pending c) :
    ∃ a, Nested R f q m.stack (· = e) pending a c ∧ q.Dispatching e done pending a := by
  refine hc.keeps (P := fun done pending a _ => q.Dispatching e done pending a) hm h hR hq hsize he rfl
    (fun j slot hj hslot => ?_) (fun a ha => ?_) fun ha hb hshift _ hdispatching =>
      hdispatching.shift ha hb hshift hcalling hcallees
  · rw [hj, hhalt] at hslot
    cases hslot
  · obtain ⟨-, x, after, hstart⟩ := hm.holds.locate_start h.laid h.ended (lt_of_findMethod? he)
    have hat := ha.place
    rw [← ha.position] at hat
    obtain ⟨hmethod, hbefore, -⟩ := hat.unique hstart
    exact .between hmethod (by rw [hbefore]; rfl)

/-- At a line of such a method the machine goes on. -/
lemma Nested.step_calling (ha : Nested R f q base bottom pending a c) (h : Ready R f q)
    (hline : a.line.Calling) :
    ∃ next m', Run.step c.1 c.2 = .ok next m' ∧ m'.effects = c.2.effects ∧
      (next = none → a.line = .code .halt) := by
  obtain ⟨n, hcode⟩ := ha.intact.holds.code_at h.laid ha.place
  rw [← ha.position] at hcode
  cases hx : a.line with
  | label l =>
    rw [hx] at hcode
    exact ⟨_, _, Run.step_nop hcode, rfl, by simp⟩
  | code i =>
    rw [hx] at hcode hline
    cases hline with
    | push slot => exact ⟨_, _, Run.step_push hcode, rfl, by simp⟩
    | copy =>
      have hproper := h.proper (hx ▸ ha.place)
      obtain ⟨target, source, hheld, -⟩ := hproper
      have hstack : c.2.stack = target :: source :: base := by
        rw [ha.stack, hheld]
        rfl
      exact ⟨_, _, Run.step_copy hcode hstack, rfl, by simp⟩
    | call name =>
      obtain ⟨k, slot, -, hnext⟩ := ha.step_call h hx
      exact ⟨_, _, hnext, rfl, by simp⟩
    | halt => exact ⟨_, _, Run.step_halt hcode, rfl, fun _ => rfl⟩

/-- A method that only calls others, which call none, calls them in order. -/
lemma Ready.dispatches (h : Ready R f q) (hR : R.Takes) (hq : q.Layered) (hsize : q.size < 2 ^ 32)
    (he : q.findMethod? name = some e) (hhalt : (q.method e).epilogue = .halt)
    (hcalling : ∀ x ∈ q.lines e, x.Calling)
    (hcallees : ∀ name k, q.Invokes e name → q.findMethod? name = some k → ∀ name', ¬ q.Invokes k name')
    (hnodup : (q.callsIn (q.lines e)).Nodup) : Run.Dispatches q e (q.callsIn (q.lines e)) := by
  have hall : ∀ {m done pending y}, m.Session q → Run.Nests (q.start e, m) done pending y →
      ∃ a, Nested R f q m.stack (· = e) pending a y ∧ q.Dispatching e done pending a :=
    fun hm hy => dispatching_of_nests (hm.intact h hR hsize).1 h hR hq hsize he hhalt hcalling hcallees hy
  refine ⟨hnodup, fun m hm done pending y hy => ?_, fun m hm done pending y hy hpending => ?_,
    fun m hm done y hy => ?_⟩
  · obtain ⟨a, ha, hdispatching⟩ := hall hm hy
    cases hdispatching with
    | between inside calls =>
      rw [List.reverse_nil, List.append_nil, calls, ← inside, ha.place.lines]
      exact List.IsPrefix.filterMap _ (List.prefix_append _ _)
    | @during _ site before after name place found calls =>
      have hsite : [site].reverse.filterMap q.calledAt? = q.callsIn [.code (.jumpMethod name)] := by
        rw [callsIn_call found]
        simp [place.calledAt?_eq, found]
      rw [List.filterMap_append, calls, hsite, ← callsIn_append, place.lines]
      exact List.IsPrefix.filterMap _ ⟨after, by simp⟩
  · obtain ⟨a, ha, hdispatching⟩ := hall hm hy
    cases hdispatching with
    | between => exact absurd rfl hpending
    | during =>
      obtain ⟨name, k, slot, hinvoked⟩ := ha.invoked h hsize
      exact ⟨_, name, k, slot, rfl, hinvoked⟩
  · obtain ⟨a, ha, hdispatching⟩ := hall hm hy
    cases hdispatching with
    | between inside calls =>
      have hline : a.line.Calling := by
        refine hcalling _ ?_
        rw [← inside, ha.place.lines]
        simp
      obtain ⟨next, m', hstep, heffects, hnone⟩ := ha.step_calling h hline
      refine ⟨next, m', hstep, heffects, fun hnext => ?_⟩
      have hlast := hnone hnext
      have hproper := h.proper (hlast ▸ ha.place)
      have hafter : a.after = [] := hproper.2
      rw [calls, ← inside, ha.place.lines, hlast, hafter, callsIn_append,
        callsIn_of_ne (x := .code .halt) (by simp), List.append_nil]

end Program

end TriggerCompiler
