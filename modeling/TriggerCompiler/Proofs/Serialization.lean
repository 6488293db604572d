import Mathlib
import TriggerCompiler.Proofs.CallsReturn
import TriggerCompiler.Proofs.ChangeDetection

/-!
# Requests to send variables

A method that writes a synchronized variable is marked. A marked method ends with the request to send
such variables, and no other line makes one. A request is thus owed while a marked method is at work or
waits for a call, and it is made right before the method is left. Main statement: in a run that halts, a
request follows every write of a synchronized variable, and there are as many requests as there were
marked methods that came to their end.
-/

namespace TriggerCompiler

variable {v : Terms} {signature : String}

open Program Lower

/-! ## Where requests stand -/

/-- What tells of a change calls the host by the calls of the terms, apart from the event. -/
lemma Watch.Fits.calls_of_mem {w : Watch} (h : w.Fits v) (hmem : .code (.host signature) ∈ w.lines) :
    signature = HostCall.sendCustomEvent ∨ ∃ flags, v.calls signature flags := by
  unfold Watch.lines changeLines at hmem
  split_ifs at hmem with htype
  · obtain rfl | rfl : signature = HostCall.inequality w.type ∨ signature = HostCall.sendCustomEvent := by
      simpa [callLines, copyLines, branchLines] using hmem
    · exact .inr ⟨_, h.differs htype⟩
    · exact .inl rfl
  · obtain rfl | rfl | rfl : signature = HostCall.objectEquals ∨ signature = HostCall.booleanNegation ∨
        signature = HostCall.sendCustomEvent := by
      simpa [callLines, copyLines, branchLines] using hmem
    · exact .inr ⟨_, h.equals⟩
    · exact .inr ⟨_, h.negation⟩
    · exact .inl rfl

lemma Phrase.Fits.calls_of_mem {x : Phrase} (h : x.Fits v)
    (hmem : .code (.host signature) ∈ x.lines) :
    signature = HostCall.sendCustomEvent ∨ ∃ flags, v.calls signature flags := by
  cases x with
  | call signature' arguments =>
    obtain rfl : signature = signature' := by simpa [Phrase.lines, callLines] using hmem
    exact .inr ⟨_, h.1.1⟩
  | update source w =>
    refine h.2.calls_of_mem ?_
    simpa [Phrase.lines, copyLines] using hmem
  | compute signature' arguments w =>
    obtain rfl | hw : signature = signature' ∨ .code (.host signature) ∈ w.lines := by
      simpa [Phrase.lines, callLines] using hmem
    · exact .inr ⟨_, h.1.1⟩
    · exact h.2.2.calls_of_mem hw
  | _ => simp [Phrase.lines, copyLines, branchLines] at hmem

lemma Spells.calls_of_mem {code : List Line} (h : Spells v code)
    (hmem : .code (.host signature) ∈ code) :
    signature = HostCall.sendCustomEvent ∨ ∃ flags, v.calls signature flags := by
  obtain ⟨xs, rfl, hxs⟩ := h
  obtain ⟨x, hx, hmem⟩ := List.mem_flatMap.mp hmem
  exact (hxs x hx).calls_of_mem hmem

lemma Line.requests_eq_zero {x : Line} (h : x ≠ .code (.host HostCall.requestSerialization)) :
    x.instr.requests = 0 := by
  match x, h with
  | .code (.host signature), h => exact Run.requests_of_ne fun hsame => h (hsame ▸ rfl)
  | .label _, _ | .code .nop, _ | .code (.push _), _ | .code .copy, _ | .code (.jump _), _
  | .code (.jumpIfFalse _), _ | .code (.jumpIndirect _), _ | .code (.jumpMethod _), _
  | .code .halt, _ => rfl

namespace Program

variable {p q : Program} {options : CompileOptions} {k : MethodId} {before after : List Line}
  {x y : Line} {position : Nat}

/-- A marked method makes its request right before it is left, and no method makes any other. -/
def Requesting (q : Program) : Prop :=
  ∀ k < q.methods.size, ∃ body, .code (.host HostCall.requestSerialization) ∉ body ∧
    q.lines k = body ++ (if (q.method k).serializes then
      [.code (.host HostCall.requestSerialization)] else []) ++
        [.code (Epilogue.instr (q.method k).epilogue)]

/-- What linking makes of bodies that make no requests themselves. -/
lemma Links.requesting {strict : Prop} (h : p.Links options q) (hp : p.Orderly (Rules.source strict))
    (hsite : (⟨p, [], []⟩ : Site).Sound) (hauto : options.autoSerialize = true) : q.Requesting := by
  have hready := h.ready hp.builtin Rules.builtin_requests hsite
  have hf := finishMethods_finished options hsite
  intro k hk
  have hk' : k < p.methods.size := by
    rw [hready.methods, hf.size] at hk
    exact hk
  obtain ⟨sync, hsync, hlines⟩ := hf.lines_eq hk'
  rw [hready.lines, hready.method, hlines, hf.serializes hk', (hf.method_epilogue hk').1]
  have hbody : .code (.host HostCall.requestSerialization) ∉ p.lines k := by
    intro hmem
    rcases (hp.spelled k hk').calls_of_mem hmem with hsend | ⟨flags, hcalls⟩
    · exact absurd hsend (by decide)
    · exact hcalls.2 rfl
  unfold SyncLines at hsync
  rw [hauto, Bool.true_and] at hsync
  split_ifs at hsync ⊢ with hserializes
  · obtain ⟨self, -, rfl⟩ := hsync
    refine ⟨p.lines k ++ (p.method k).endLabel.toList.map .label ++ [.code (.push self)], ?_, ?_⟩
    · simpa using hbody
    · simp [callLines]
  · refine ⟨p.lines k ++ (p.method k).endLabel.toList.map .label, ?_, ?_⟩
    · simpa using hbody
    · simp [hsync]

/-- Whether a method with these lines still ahead has just made its request. -/
def sent (q : Program) (k : MethodId) (after : List Line) : Nat :=
  if after = [] ∧ (q.method k).serializes = true then 1 else 0

lemma sent_of_ne (q : Program) (k : MethodId) (h : after ≠ []) : q.sent k after = 0 :=
  if_neg fun hno => h hno.1

namespace Requesting

variable (h : q.Requesting)

include h

/-- The line in front of the last one is the request, and no other line is. -/
lemma requests_eq (hat : q.At k before x (y :: after) position) :
    x.instr.requests = q.sent k after := by
  obtain ⟨body, hbody, hlines⟩ := h k hat.lt
  rw [hat.lines] at hlines
  have hno : ∀ z ∈ body, z.instr.requests = 0 := fun z hz =>
    Line.requests_eq_zero fun hsame => hbody (hsame ▸ hz)
  unfold sent
  rcases List.eq_nil_or_concat after with rfl | ⟨after', z, rfl⟩
  · rw [List.append_cons] at hlines
    obtain ⟨hfront, -⟩ := List.append_inj' hlines rfl
    by_cases hserializes : (q.method k).serializes = true
    · rw [if_pos hserializes] at hfront
      obtain rfl := (List.cons.inj (List.append_inj' hfront rfl).2).1
      rw [if_pos ⟨rfl, hserializes⟩]
      rfl
    · rw [if_neg hserializes, List.append_nil] at hfront
      rw [if_neg fun hno => hserializes hno.2]
      exact hno x (hfront ▸ by simp)
  · rw [if_neg (by simp)]
    apply hno
    rw [List.concat_eq_append, ← List.cons_append, ← List.cons_append, ← List.append_assoc] at hlines
    obtain ⟨hfront, -⟩ := List.append_inj' hlines rfl
    split_ifs at hfront
    · obtain ⟨after'', w, hw⟩ : ∃ after'' w, y :: after' = after'' ++ [w] :=
        ⟨_, _, (List.dropLast_append_getLast (List.cons_ne_nil y after')).symm⟩
      rw [hw, ← List.cons_append, ← List.append_assoc] at hfront
      rw [← (List.append_inj' hfront rfl).1]
      simp
    · rw [List.append_nil] at hfront
      simp [← hfront]

/-- No method begins right behind its request. -/
lemma sent_of_start (hat : q.At k [] x after position) : q.sent k after = 0 := by
  refine if_neg fun ⟨hnil, hserializes⟩ => ?_
  obtain ⟨body, -, hlines⟩ := h k hat.lt
  rw [hat.lines, if_pos hserializes, hnil] at hlines
  have hlength := congrArg List.length hlines
  simp only [List.length_append, List.length_cons, List.length_nil] at hlength
  omega

end Requesting

/-! ## Requests of a run -/

/-- The method that the call at the position enters. -/
def calledAt? (q : Program) (site : Nat) : Option MethodId :=
  match (q.placed[site]?).map q.instr with
  | some (.jumpMethod name) => q.findMethod? name
  | _ => none

lemma At.calledAt?_eq {name : String}
    (h : q.At k before (.code (.jumpMethod name)) after position) :
    q.calledAt? position = q.findMethod? name := by
  obtain ⟨id, hid, hline⟩ := h.placed
  unfold calledAt?
  rw [hid, Option.map_some, ← instr_line, hline]
  rfl

/-- How many of the methods that calls have entered and that have returned are marked. -/
def returnedMarked (q : Program) (done : List Nat) : Nat :=
  (done.filterMap q.calledAt?).countP fun j => (q.method j).serializes

/-- How many of the methods that have come to their end are marked, when the calls have returned and
the method that the run began with halts. -/
def endedMarked (q : Program) (k : MethodId) (done : List Nat) : Nat :=
  (done.filterMap q.calledAt? ++ [k]).countP fun j => (q.method j).serializes

/-- The method at hand, or one that waits for it, has yet to make its request. -/
def Owes (q : Program) (pending : List Nat) (a : Spot) : Prop :=
  (q.method a.method).serializes = true ∧ a.after ≠ [] ∨
    ∃ site ∈ pending, ∃ k before x after, q.At k before x after site ∧ (q.method k).serializes = true

end Program

namespace Program.Nested

variable {R : Rules} {f q : Program} {base : List SlotId} {bottom : MethodId → Prop}
  {pending pending' : List Nat} {a b : Spot} {c d y : Nat × Machine} {m m' : Machine}

section

variable (hc : Nested R f q base bottom pending a c) (h : Ready R f q)

include hc h

/-- Only a jump to a caller or the end of a run leaves a method. -/
lemma after_ne_nil (hhalt : a.line ≠ .code .halt) (hback : ∀ slot, a.line ≠ .code (.jumpIndirect slot)) :
    a.after ≠ [] := by
  intro hnil
  have hline := hc.line_of_leaving h hnil
  cases hepilogue : (q.method a.method).epilogue with
  | halt =>
    rw [hepilogue] at hline
    exact hhalt hline
  | indirect slot =>
    rw [hepilogue] at hline
    exact hback slot hline

/-- A run halts at the end of the method that it began with. -/
lemma ends (hR : R.Takes) (hstep : Run.step c.1 c.2 = .ok none m') :
    pending = [] ∧ bottom a.method ∧ a.after = [] ∧
      m'.effects.serializations = c.2.effects.serializations := by
  have hmoves := hc.moves h hR hstep
  have hrequests := hmoves.requests
  cases hmoves.goes with
  | halt line =>
    have hproper := h.proper hc.place
    rw [line] at hproper hrequests
    have hline := hc.line_of_leaving h hproper.2
    have hawaits := hc.awaits
    generalize a.method = k at hawaits hline
    cases hawaits with
    | nil holds => exact ⟨rfl, holds, hproper.2, hrequests⟩
    | cons rest place enters =>
      rw [enters.epilogue, line] at hline
      cases hline

end

section

variable (hc : Nested R f q base bottom pending a c) (hd : Nested R f q base bottom pending' b d)
  (hshift : q.Shift pending a pending' b)
include hc hd hshift

/-- What a step adds to the requests. -/
lemma requests_shift (hnext : Run.Next c d) (h : Ready R f q) (hR : R.Takes) (hq : q.Requesting)
    (hbottom : ∀ j, bottom j → (q.method j).epilogue = .halt) :
    d.2.effects.serializations + q.sent a.method a.after = c.2.effects.serializations +
      q.returnedMarked (a.line.instr.returning pending) + q.sent b.method b.after := by
  have hrequests := (hc.moves h hR hnext).requests
  have hplace := hd.place
  cases hshift with
  | @on y rest after_eq falls =>
    have hat := hc.place
    rw [after_eq] at hat
    have hsent : q.sent a.method a.after = 0 := q.sent_of_ne _ (by simp [after_eq])
    rw [hrequests, hq.requests_eq hat, hsent,
      Instr.returning_of_ne (fun slot hslot => by rw [hslot] at falls; exact falls)]
    rfl
  | @label l l' before after i target =>
    obtain ⟨y, rest, rfl⟩ := h.after_eq hplace trivial
    have hafter : a.after ≠ [] := by
      apply hc.after_ne_nil h
      · intro hline
        rw [hline] at target
        cases target
      · intro slot hline
        rw [hline] at target
        cases target
    have hno : a.line.instr.requests = 0 := by
      apply Line.requests_eq_zero
      intro hline
      rw [hline] at target
      cases target
    rw [hrequests, hno, q.sent_of_ne _ hafter, q.sent_of_ne _ (List.cons_ne_nil y rest),
      Instr.returning_of_ne (fun slot hslot => by rw [hslot] at target; cases target)]
    rfl
  | @enter name k y rest line found =>
    have hafter : a.after ≠ [] := hc.after_ne_nil h (by simp [line]) (by simp [line])
    rw [hrequests, q.sent_of_ne _ hafter, hq.sent_of_start hplace, line]
    rfl
  | @back slot site sites k before after name l line pending_eq found =>
    obtain ⟨y, rest, rfl⟩ := h.after_eq hplace trivial
    obtain ⟨hafter, -⟩ := hc.epilogue_of_return h line
    obtain ⟨n, hn, hcall⟩ := hplace.prev
    obtain rfl : site = n := Nat.succ.inj hn
    have hmarked : q.returnedMarked [site] = q.sent a.method [] := by
      simp [returnedMarked, sent, hcall.calledAt?_eq, found, List.countP_cons]
    rw [hrequests, q.sent_of_ne _ (List.cons_ne_nil y rest), hafter, line, pending_eq]
    exact congrArg _ hmarked.symm
  | leave line pending_eq =>
    obtain ⟨-, hepilogue⟩ := hc.epilogue_of_return h line
    subst pending_eq
    cases hc.awaits with
    | nil holds =>
      rw [hbottom _ holds] at hepilogue
      cases hepilogue

/-- A request is owed until it is made. -/
lemma owes_shift (h : Ready R f q) (hq : q.Requesting) (howes : q.Owes pending a) :
    a.line = .code (.host HostCall.requestSerialization) ∨ q.Owes pending' b := by
  have hplace := hd.place
  rcases howes with ⟨hmarked, hafter⟩ | ⟨site, hsite, k, before, x, after, hat, hmarked⟩
  · cases hshift with
    | @on y rest after_eq falls =>
      have hat := hc.place
      rw [after_eq] at hat
      by_cases hrest : rest = []
      · left
        by_contra hno
        have hone := hq.requests_eq hat
        rw [Line.requests_eq_zero hno, sent, if_pos ⟨hrest, hmarked⟩] at hone
        cases hone
      · exact .inr (.inl ⟨hmarked, hrest⟩)
    | label target =>
      obtain ⟨y, rest, rfl⟩ := h.after_eq hplace trivial
      exact .inr (.inl ⟨hmarked, List.cons_ne_nil y rest⟩)
    | enter line found =>
      exact .inr (.inr ⟨a.position, by simp, _, _, _, _, hc.place, hmarked⟩)
    | back line pending_eq found => exact absurd (hc.epilogue_of_return h line).1 hafter
    | leave line pending_eq => exact absurd (hc.epilogue_of_return h line).1 hafter
  · right
    cases hshift with
    | on after_eq falls => exact .inr ⟨site, hsite, k, before, x, after, hat, hmarked⟩
    | label target => exact .inr ⟨site, hsite, k, before, x, after, hat, hmarked⟩
    | enter line found =>
      exact .inr ⟨site, List.mem_cons_of_mem _ hsite, k, before, x, after, hat, hmarked⟩
    | @back slot site' sites k' before' after' name l line pending_eq found =>
      subst pending_eq
      rcases List.mem_cons.mp hsite with rfl | hsite
      · -- the method that waited for the call is at work again
        obtain ⟨n, hn, hcall⟩ := hplace.prev
        obtain rfl : site = n := Nat.succ.inj hn
        obtain ⟨rfl, -⟩ := hat.unique hcall
        obtain ⟨y, rest, rfl⟩ := h.after_eq hplace trivial
        exact .inl ⟨hmarked, List.cons_ne_nil y rest⟩
      · exact .inr ⟨site, hsite, k, before, x, after, hat, hmarked⟩
    | leave line pending_eq =>
      subst pending_eq
      cases hsite

end

section

variable (hc : Nested R f q base bottom pending a c) (h : Ready R f q) (hR : R.Takes)
include hc h hR

/-- A run that halts makes a request that is owed. -/
lemma owes_run (hlayered : q.Layered) (hsize : q.size < 2 ^ 32) (hq : q.Requesting)
    (hbottom : ∀ j, bottom j → (q.method j).epilogue = .halt) (howes : q.Owes pending a)
    (hreaches : Run.Reaches c y) (hlast : Run.step y.1 y.2 = .ok none m') :
    ∃ u v, Run.Reaches c u ∧ Run.Sees u (.host HostCall.requestSerialization) ∧ Run.Next u v := by
  induction hreaches using Relation.ReflTransGen.head_induction_on generalizing pending a with
  | refl =>
    -- at the end of a run no method waits, and the last one has made its request
    obtain ⟨rfl, -, hafter, -⟩ := hc.ends h hR hlast
    rcases howes with ⟨-, hno⟩ | ⟨site, hsite, -⟩
    · exact absurd hafter hno
    · cases hsite
  | @head c d hnext hreaches ih =>
    obtain ⟨pending', b, hshift, hd⟩ := hc.shift h hR hlayered hsize
      (fun j slot hj hslot => by rw [hbottom j hj] at hslot; cases hslot) hnext
    rcases hc.owes_shift hd hshift h hq howes with hline | howes
    · refine ⟨c, d, .refl, ?_, hnext⟩
      have hsees := hc.sees h
      rw [hline] at hsees
      exact hsees
    · obtain ⟨u, v, hu, hrest⟩ := ih hd howes
      exact ⟨u, v, .head hnext hu, hrest⟩

/-- A method that writes a synchronized variable is marked, and it has yet to make its request. -/
lemma owes_of_writesTo {next : Option Nat} (hstep : Run.step c.1 c.2 = .ok next m') {id : SlotId}
    (hsync : (q.slots.get id).isSynced = true) (hwrites : Run.WritesTo id c) :
    a.line.instr.Writes ∧ q.Owes pending a := by
  have hmoves := hc.moves h hR hstep
  have hwrites' : Run.WritesTo id (a.position, c.2) := hc.position ▸ hwrites
  obtain ⟨hi, value, -, hstores⟩ :=
    hmoves.stores_of_writesTo hc.intact.holds h.laid hc.place hc.stack hwrites'
  have hafter : a.after ≠ [] := by
    apply hc.after_ne_nil h
    · intro hline
      rw [hline] at hi
      exact hi
    · intro slot hline
      rw [hline] at hi
      exact hi
  have hsynced : id < f.slots.size → (f.slots.get id).isSynced = true := by
    intro hid
    obtain ⟨initial, hslot⟩ := h.slot_eq (h.slots.symm ▸ hid)
    rw [hslot] at hsync
    exact hsync
  refine ⟨hi, .inl ⟨?_, hafter⟩⟩
  rw [h.method]
  cases hstores with
  | plain clean isPlain sends => exact sends (hsynced clean.lt)
  | watched fits after_eq => exact fits.watched.2 (hsynced (fits.clean _ (by simp)).lt)
  | address callee after_eq number =>
    obtain ⟨method, hmethod, -, hepilogue⟩ := callee
    have hslot := h.tidy.returns _ ⟨method, hmethod, hepilogue⟩
    have hno := unsynced_of_kind h.sound hslot.lt (by simp [hslot.kind])
    rw [hsynced hslot.lt] at hno
    cases hno

end

end Program.Nested

section

variable {R : Rules} {f q : Program} {k : MethodId} {m m' : Machine} {name : String}

/-- A run that halts makes one request for each marked method that comes to its end. -/
lemma Run.Nests.requests (hm : m.Intact R f q) (h : Ready R f q) (hR : R.Takes) (hlayered : q.Layered)
    (hsize : q.size < 2 ^ 32) (hq : q.Requesting) (hk : q.findMethod? name = some k)
    (hhalt : (q.method k).epilogue = .halt) {done pending : List Nat} {y : Nat × Machine}
    (hy : Nests (q.start k, m) done pending y) (hlast : step y.1 y.2 = .ok none m') :
    pending = [] ∧
      m'.effects.serializations = m.effects.serializations + q.endedMarked k done := by
  have hbottom : ∀ j, j = k → (q.method j).epilogue = .halt := by
    rintro j rfl
    exact hhalt
  obtain ⟨a, ha, hcount⟩ := hy.keeps (B := (· = k))
    (P := fun done _ a c => c.2.effects.serializations =
      m.effects.serializations + q.returnedMarked done + q.sent a.method a.after)
    hm h hR hlayered hsize hk rfl
    (fun j slot hj hslot => by rw [hbottom j hj] at hslot; cases hslot)
    (fun a ha => by
      obtain ⟨-, x, after, hstart⟩ := hm.holds.locate_start h.laid h.ended (lt_of_findMethod? hk)
      have hat := ha.place
      rw [← ha.position] at hat
      obtain ⟨hmethod, hbefore, -⟩ := hat.unique hstart
      rw [hbefore] at hat
      rw [hq.sent_of_start hat]
      rfl)
    (fun {done pending pending' a b c d} ha hb hshift hnext hcount => by
      have hstep := ha.requests_shift hb hshift hnext h hR hq hbottom
      simp only [returnedMarked, List.filterMap_append, List.countP_append] at hstep hcount ⊢
      omega)
  obtain ⟨rfl, hmethod, hafter, hsame⟩ := ha.ends h hR hlast
  refine ⟨rfl, ?_⟩
  rw [hsame, hcount, hmethod, hafter]
  simp [endedMarked, returnedMarked, sent, List.countP_append, List.countP_cons]
  omega

end

/-! ## Runs of compiled triggers -/

/-- In a compiled trigger with requests turned on, a run of an exported method that halts makes a request
after every write of a synchronized variable, whichever method writes it. It makes as many requests as
marked methods came to their end: those that calls have entered, and the one that the run began with. -/
theorem synced_writes_are_requested {r : Registry} (hr : r.Grown fun _ => True)
    {options : CompileOptions} (hauto : options.autoSerialize = true) {t : Trigger} (ht : t.NoAddress)
    {c : CompiledTrigger} (h : compileTrigger ⟨r, options⟩ t = .ok c)
    (hsize : c.program.size < 2 ^ 32) {m m' : Machine} (hm : m.Session c.program) {name : String}
    {k : MethodId} (hk : c.program.findMethod? name = some k)
    (hexported : (c.program.method k).isExported = true) (hrun : Run.method name m = .ok () m') :
    (∀ x id, Run.Visits name m x → (c.program.slots.get id).sync ≠ .none → Run.WritesTo id x →
      ∃ u v, Relation.TransGen Run.Next x u ∧ Run.Sees u (.host HostCall.requestSerialization) ∧
        Run.Next u v) ∧
    ∃ y done, Run.Nests (c.program.start k, m) done [] y ∧ Run.step y.1 y.2 = .ok none m' ∧
      m'.effects.serializations = m.effects.serializations + c.program.endedMarked k done := by
  obtain ⟨p, hp, -, hsite, hlinks⟩ := compileTrigger_source hr (fun hno : False => hno.elim) ht h
  have hready := hlinks.ready hp.builtin Rules.builtin_requests hsite
  have hq := hlinks.requesting hp hsite hauto
  have hlayered := compileTrigger_layered hr ht h
  obtain ⟨hintact, -⟩ := hm.intact hready Rules.builtin_takes hsize
  have hhalt : (c.program.method k).epilogue = .halt :=
    hlayered.halts _ (method_mem (lt_of_findMethod? hk)) hexported
  have hbottom : ∀ j, j = k → (c.program.method j).epilogue = .halt := by
    rintro j rfl
    exact hhalt
  constructor
  · intro x id hx hsync hwrites
    obtain ⟨z, hxz, hlast⟩ := Run.halts_of_visits hrun hx
    obtain ⟨done, pending, hnests⟩ :=
      Run.reaches_iff_nests.mp ((hintact.visits_iff hready hk).mp hx)
    obtain ⟨next, m₁, hstep⟩ := Run.step_of_visits hrun hx
    obtain ⟨a, ha⟩ := hnests.nested (B := (· = k)) hintact hready Rules.builtin_takes hlayered
      hsize hk rfl fun j slot hj hslot => by rw [hbottom j hj] at hslot; cases hslot
    obtain ⟨hi, howes⟩ := ha.owes_of_writesTo hready Rules.builtin_takes hstep
      (by simpa [Slot.isSynced] using hsync) hwrites
    obtain ⟨u, v, hxu, hu, hnext⟩ :=
      ha.owes_run hready Rules.builtin_takes hlayered hsize hq hbottom howes hxz hlast
    refine ⟨u, v, ?_, hu, hnext⟩
    rcases Relation.reflTransGen_iff_eq_or_transGen.mp hxu with rfl | hxu
    · -- a request writes nothing
      rw [(ha.sees hready).unique hu] at hi
      obtain ⟨count, hcount⟩ := hi
      cases Run.takes_requestSerialization.symm.trans hcount
    · exact hxu
  · obtain ⟨z, hz, hlast⟩ := Run.halts_of_visits hrun ((hintact.visits_iff hready hk).mpr .refl)
    obtain ⟨done, pending, hnests⟩ := Run.reaches_iff_nests.mp hz
    obtain ⟨rfl, hcount⟩ := hnests.requests hintact hready Rules.builtin_takes hlayered hsize hq hk
      hhalt hlast
    exact ⟨z, done, hnests, hlast, hcount⟩

/-- Two events with one entry, of which one writes a synchronized variable and the other calls an action
of a group that does. The method of the entry is not marked, and the two methods that write are. -/
theorem synced_writes_are_requested_nested :
    ∃ (r : Registry) (c : CompiledTrigger) (k : MethodId) (m' : Machine), r.Grown (fun _ => True) ∧
      compileTrigger ⟨r, {}⟩
        { declarations := [{ id := "x", name := "x", type := .int32, sync := .linear }],
          events := [{ name := "first", entry := { id := "Start" },
                       actions := [{ id := "SetVariable",
                                     inputs := [.constant (.int32 5), .var (.user "x")] }] },
                     { name := "second", entry := { id := "Start" },
                       actions := [{ id := "mark", group := some "a" }] }] } = .ok c ∧
      c.program.findMethod? "_start" = some k ∧
      Run.method "_start" (Machine.ofProgram c.program) = .ok () m' ∧
      m'.effects.serializations = 2 ∧
      (∀ x id, Run.Visits "_start" (Machine.ofProgram c.program) x →
        (c.program.slots.get id).sync ≠ .none → Run.WritesTo id x →
          ∃ u v, Relation.TransGen Run.Next x u ∧
            Run.Sees u (.host HostCall.requestSerialization) ∧ Run.Next u v) ∧
      ∃ y done, Run.Nests (c.program.start k, Machine.ofProgram c.program) done [] y ∧
        c.program.endedMarked k done = 2 := by
  set g : ActionGroup :=
    { guid := "a", name := "A",
      declarations := [{ id := "n", name := "n", type := .int32, sync := .synced }],
      actions := [{ name := "mark",
                    actions := [{ id := "SetVariable",
                                  inputs := [.constant (.int32 1), .var (.user "n")] }] }] }
    with hg
  set t : Trigger := { declarations := [_], events := [_, _] } with ht
  have hruns : ((compileGroup ⟨Registry.builtin, {}⟩ g).toOption.any fun a =>
      (compileTrigger ⟨Registry.builtin.addGroup a.1, {}⟩ t).toOption.any fun c =>
        (c.program.findMethod? "_start").any fun k =>
          (outcome? (Run.method "_start" (Machine.ofProgram c.program))).any fun r =>
            decide (c.program.size < 2 ^ 32 ∧ (c.program.method k).isExported = true ∧
              r.2.effects.serializations = 2)) = true := by
    decide +kernel
  obtain ⟨a, ha, hruns⟩ := exists_ok_of_any hruns
  obtain ⟨c, hc, hruns⟩ := exists_ok_of_any hruns
  obtain ⟨k, hk, hruns⟩ := (Option.any_eq_true _ _).mp hruns
  obtain ⟨⟨⟩, m', hrun, hruns⟩ := exists_outcome_of_any hruns
  obtain ⟨hsize, hexported, htwo⟩ := of_decide_eq_true hruns
  have hgrown : (Registry.builtin.addGroup a.1).Grown fun _ => True :=
    .group .builtin ⟨by simp [hg], by simp [hg, Action.NoAddress, Binding.holdsAddress]⟩
      trivial ha .builtin
  obtain ⟨hfollows, y, done, hnests, -, hcount⟩ := synced_writes_are_requested hgrown
    rfl (t := t) ⟨by simp [ht], by simp [ht, Action.NoAddress, Binding.holdsAddress]⟩
    hc hsize .load hk hexported hrun
  rw [htwo] at hcount
  have hnone : (Machine.ofProgram c.program).effects.serializations = 0 := rfl
  exact ⟨_, c, k, m', hgrown, hc, hk, hrun, htwo, hfollows, y, done, hnests, by omega⟩

end TriggerCompiler
