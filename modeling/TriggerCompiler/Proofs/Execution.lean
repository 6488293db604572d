import Mathlib
import TriggerCompiler.Proofs.Layout
import TriggerCompiler.Proofs.Outcomes

/-!
# Execution

What one step of the machine does, instruction by instruction, and what a call into the host does to
the machine. A call that finds its arguments on the stack takes them and leaves the rest of the stack as
it is. It writes at most its last argument, and it fails only because of the values that it finds. Main
statements: `Run.call_safe` for calls, and an equation for the step at each instruction.
-/

namespace TriggerCompiler

variable {m' : Machine} {e : Fault} {slot : SlotId} {name : String} {fuel : Nat}

lemma Machine.getD_modify (heap : Array Value) (s t : SlotId) (v : Value) :
    (heap.modify s fun _ => v).getD t .null =
      if s = t ∧ s < heap.size then v else heap.getD t .null := by
  simp only [Array.getD_eq_getD_getElem?, Array.getElem?_modify]
  by_cases hst : s = t
  · subst hst
    by_cases hlt : s < heap.size
    · simp [hlt]
    · simp [hlt]
  · simp [hst]

/-- A fault that is about what the machine holds, not about what is missing on its stack. -/
def Fault.OfValues (e : Fault) : Prop := e ≠ .stackUnderflow ∧ ∀ n, e ≠ .fewArguments n

namespace Run

variable {α β : Type} {m : Machine} {signature : String} {args rest : List SlotId}
  {P : Machine → Prop}

/-! ## Computations -/

lemma some_map_of_ok {x : Run α} {a : α} (h : x m = .ok a m') :
    (some <$> x) m = .ok (some a) m' := by
  simp only [Functor.map, EStateM.map, h]

lemma get_bind {f : Machine → Run β} : (get >>= f) m = f m m := rfl

lemma load_bind {f : Value → Run β} : (load slot >>= f) m = f (m.heap.getD slot .null) m := rfl

/-- The machine with the given stack. -/
def popped (m : Machine) (rest : List SlotId) : Machine := { m with stack := rest }

/-- The machine with a value in a slot. -/
def stored (m : Machine) (slot : SlotId) (value : Value) : Machine :=
  { m with heap := m.heap.modify slot fun _ => value }

lemma pop_apply (h : m.stack = slot :: rest) : pop m = .ok slot (popped m rest) := by
  simp only [pop, get_bind, h]
  rfl

lemma arguments_eq {count : Nat} (h : ¬ m.stack.length < count) :
    arguments count m =
      .ok (m.stack.take count).reverse (popped m (m.stack.drop count)) := by
  simp only [arguments, get_bind, if_neg h]
  rfl

lemma arguments_apply (h : m.stack = args.reverse ++ rest) :
    arguments args.length m = .ok args (popped m rest) := by
  rw [arguments_eq (by simp [h])]
  simp [h]

/-- The computation ends in a machine with the property, or with a fault about values. -/
def Safe (P : Machine → Prop) (x : Run Unit) (m : Machine) : Prop :=
  (∃ m', x m = .ok () m' ∧ P m') ∨ ∃ e m', x m = .error e m' ∧ e.OfValues

namespace Safe

lemma of_ok {x : Run Unit} (h : x m = .ok () m') (hP : P m') : Safe P x m :=
  .inl ⟨m', h, hP⟩

lemma of_error {x : Run Unit} (h : x m = .error e m') (he : e.OfValues) : Safe P x m :=
  .inr ⟨e, m', h, he⟩

lemma bind_ok {x : Run α} {f : α → Run Unit} {a : α} (h : x m = .ok a m') (hf : Safe P (f a) m') :
    Safe P (x >>= f) m := by
  unfold Safe
  rw [bind_of_ok h]
  exact hf

/-- A computation that gives a value and leaves the machine as it is, or fails because of a value. -/
lemma bind_value {x : Run α} {f : α → Run Unit}
    (h : (∃ a, x m = .ok a m) ∨ ∃ e, x m = .error e m ∧ e.OfValues) (hf : ∀ a, Safe P (f a) m) :
    Safe P (x >>= f) m := by
  rcases h with ⟨a, ha⟩ | ⟨e, he, hvalues⟩
  · exact bind_ok ha (hf a)
  · exact of_error (bind_of_error he _) hvalues

end Safe

lemma loadInt_value (slot : SlotId) :
    (∃ n, loadInt slot m = .ok n m) ∨ ∃ e, loadInt slot m = .error e m ∧ e.OfValues := by
  simp only [loadInt, load_bind]
  cases m.heap.getD slot .null with
  | int32 n => exact .inl ⟨n, rfl⟩
  | _ => exact .inr ⟨_, rfl, by simp, by simp⟩

lemma loadInt_eq_ok {n : Int32} (h : loadInt slot m = .ok n m') :
    m.heap.getD slot .null = .int32 n ∧ m' = m := by
  simp only [loadInt, load_bind] at h
  cases hv : m.heap.getD slot .null with
  | int32 n' =>
    rw [hv] at h
    obtain ⟨rfl, rfl⟩ := EStateM.Result.ok.inj h
    exact ⟨rfl, rfl⟩
  | _ =>
    rw [hv] at h
    cases h

lemma loadString_value (slot : SlotId) :
    (∃ s, loadString slot m = .ok s m) ∨ ∃ e, loadString slot m = .error e m ∧ e.OfValues := by
  simp only [loadString, load_bind]
  cases m.heap.getD slot .null with
  | string s => exact .inl ⟨s, rfl⟩
  | _ => exact .inr ⟨_, rfl, by simp, by simp⟩

lemma loadDelay_value (slot : SlotId) :
    (∃ x, loadDelay slot m = .ok x m) ∨ ∃ e, loadDelay slot m = .error e m ∧ e.OfValues := by
  simp only [loadDelay, load_bind]
  cases m.heap.getD slot .null with
  | single x => exact .inl ⟨x, rfl⟩
  | _ => exact .inr ⟨_, rfl, by simp, by simp⟩

lemma checked_value (verb : String) (n : Int) :
    (∃ x, checked verb n m = .ok x m) ∨ ∃ e, checked verb n m = .error e m ∧ e.OfValues := by
  unfold checked
  split_ifs
  · exact .inl ⟨_, rfl⟩
  · exact .inr ⟨_, rfl, by simp, by simp⟩

/-! ## Calls into the host -/

/-- How many arguments a call takes, and whether it writes the last of them. Only calls that the
machine knows are listed. -/
def takes (signature : String) : Option (Nat × Bool) :=
  if (intCall signature).isSome then some (3, true)
  else if signature = HostCall.booleanNegation then some (2, true)
  else if signature = HostCall.objectEquals then some (3, true)
  else if isInequality signature then some (3, true)
  else if signature = HostCall.debugLog then some (1, false)
  else if signature = HostCall.sendCustomEvent then some (2, false)
  else if signature = HostCall.sendCustomNetworkEvent then some (3, false)
  else if signature = HostCall.sendCustomEventDelayed then some (4, false)
  else if signature = HostCall.requestSerialization then some (1, false)
  else if signature = HostCall.isOwner then some (2, true)
  else if signature = HostCall.isMaster then some (1, true)
  else none

lemma takes_sendCustomEvent : takes HostCall.sendCustomEvent = some (2, false) := by decide

lemma takes_requestSerialization : takes HostCall.requestSerialization = some (1, false) := by decide

/-- How many times a call asks that synchronized variables be sent. -/
def requests (signature : String) : Nat := if signature = HostCall.requestSerialization then 1 else 0

lemma requests_of_ne {signature : String} (h : signature ≠ HostCall.requestSerialization) :
    requests signature = 0 := if_neg h

/-- What a call did: the arguments are gone, nothing is written but the last one, and a custom event is
sent or the sending of variables asked for only by the call that does so. -/
structure Called (signature : String) (writes : Bool) (args rest : List SlotId) (m m' : Machine) :
    Prop where
  stack : m'.stack = rest
  program : m'.program = m.program
  code : m'.code = m.code
  heap : writes = false → m'.heap = m.heap
  result : writes = true → ∃ r value, args.getLast? = some r ∧
    m'.heap = m.heap.modify r fun _ => value
  events : signature ≠ HostCall.sendCustomEvent →
    m'.effects.customEvents = m.effects.customEvents
  requests : m'.effects.serializations = m.effects.serializations + requests signature

namespace Called

lemma of_store {r : SlotId} {value : Value} (hr : args.getLast? = some r)
    (hs : Run.requests signature = 0) :
    Called signature true args rest m (stored (popped m rest) r value) :=
  ⟨rfl, rfl, rfl, by simp, fun _ => ⟨r, value, hr, rfl⟩, fun _ => rfl, by rw [hs]; rfl⟩

end Called

lemma effect_safe {f : Effects → Effects}
    (hf : signature ≠ HostCall.sendCustomEvent → (f m.effects).customEvents = m.effects.customEvents)
    (hs : (f m.effects).serializations = m.effects.serializations + requests signature) :
    Safe (Called signature false args rest m) (effect f) (popped m rest) :=
  Safe.of_ok rfl ⟨rfl, rfl, rfl, fun _ => rfl, by simp, hf, hs⟩

/-- An effect that asks for nothing to be sent. -/
lemma effect_quiet {f : Effects → Effects}
    (hf : signature ≠ HostCall.sendCustomEvent → (f m.effects).customEvents = m.effects.customEvents)
    (hs : (f m.effects).serializations = m.effects.serializations)
    (hsignature : signature ≠ HostCall.requestSerialization) :
    Safe (Called signature false args rest m) (effect f) (popped m rest) :=
  effect_safe hf (by rw [requests_of_ne hsignature, hs, Nat.add_zero])

section

variable (h : m.stack = args.reverse ++ rest)

include h

lemma intCall_safe {run : Run Unit} (hrun : intCall signature = some run) (hargs : args.length = 3)
    (hs : requests signature = 0) : Safe (Called signature true args rest m) run m := by
  obtain ⟨a, b, c, rfl⟩ := List.length_eq_three.mp hargs
  unfold intCall at hrun
  dsimp only at hrun
  split at hrun
  · obtain rfl := Option.some.inj hrun
    apply Safe.bind_ok (arguments_apply h)
    apply Safe.bind_value (loadInt_value a)
    intro x
    apply Safe.bind_value (loadInt_value b)
    intro y
    apply Safe.bind_value (checked_value _ _)
    intro z
    exact Safe.of_ok rfl (Called.of_store rfl hs)
  · obtain rfl := Option.some.inj hrun
    apply Safe.bind_ok (arguments_apply h)
    apply Safe.bind_value (loadInt_value a)
    intro x
    apply Safe.bind_value (loadInt_value b)
    intro y
    exact Safe.of_ok rfl (Called.of_store rfl hs)
  · cases hrun

lemma relationCall_apply {a b c : SlotId} (hargs : args = [a, b, c]) (relation : Value → Value → Bool) :
    relationCall relation m = .ok () (stored (popped m rest) c
      (.boolean (relation (m.heap.getD a .null) (m.heap.getD b .null)))) := by
  subst hargs
  exact bind_of_ok (arguments_apply h) _

lemma negationCall_apply {a b : SlotId} (hargs : args = [a, b]) :
    negationCall m = .ok () (stored (popped m rest) b
      (.boolean (m.heap.getD a .null ≠ .boolean true))) := by
  subst hargs
  exact bind_of_ok (arguments_apply h) _

omit h in
/-- What is called and the number of its arguments are told apart by the same question. -/
lemma Safe.either {c : Prop} [Decidable c] {x y : Run Unit} {k : Nat} {w writes : Bool}
    {o : Option (Nat × Bool)}
    (htakes : (if c then some (k, w) else o) = some (args.length, writes))
    (hyes : c → args.length = k → w = writes → Safe (Called signature w args rest m) x m)
    (hno : o = some (args.length, writes) → Safe (Called signature writes args rest m) y m) :
    Safe (Called signature writes args rest m) (if c then x else y) m := by
  by_cases hc : c
  · rw [if_pos hc] at htakes ⊢
    obtain ⟨hk, rfl⟩ := Prod.mk.inj (Option.some.inj htakes)
    exact hyes hc hk.symm rfl
  · rw [if_neg hc] at htakes ⊢
    exact hno htakes

/-- A call that finds its arguments takes them. It writes at most the last one, and it fails only
because of values. -/
lemma call_safe {writes : Bool} (htakes : takes signature = some (args.length, writes)) :
    Safe (Called signature writes args rest m) (call signature) m := by
  -- a call that writes a result asks for nothing
  have hstores : true = writes → requests signature = 0 := by
    rintro rfl
    apply requests_of_ne
    rintro rfl
    rw [takes_requestSerialization] at htakes
    simp at htakes
  unfold takes at htakes
  unfold call
  split
  · rename_i run hrun
    rw [hrun, Option.isSome_some, if_pos rfl] at htakes
    obtain ⟨hargs, rfl⟩ := Prod.mk.inj (Option.some.inj htakes)
    exact intCall_safe h hrun hargs.symm (hstores rfl)
  rename_i hrun
  rw [hrun, Option.isSome_none, if_neg Bool.false_ne_true] at htakes
  refine .either htakes (fun _ hargs hw => ?_) fun htakes => ?_
  · obtain ⟨a, b, rfl⟩ := List.length_eq_two.mp hargs
    exact Safe.of_ok (negationCall_apply h rfl) (Called.of_store rfl (hstores hw))
  refine .either htakes (fun _ hargs hw => ?_) fun htakes => ?_
  · obtain ⟨a, b, c, rfl⟩ := List.length_eq_three.mp hargs
    exact Safe.of_ok (relationCall_apply h rfl _) (Called.of_store rfl (hstores hw))
  refine .either htakes (fun _ hargs hw => ?_) fun htakes => ?_
  · obtain ⟨a, b, c, rfl⟩ := List.length_eq_three.mp hargs
    exact Safe.of_ok (relationCall_apply h rfl _) (Called.of_store rfl (hstores hw))
  refine .either htakes (fun hlog hargs _ => ?_) fun htakes => ?_
  · obtain ⟨a, rfl⟩ := List.length_eq_one_iff.mp hargs
    apply Safe.bind_ok (arguments_apply h)
    have hload : load a (popped m rest) = .ok (m.heap.getD a .null) (popped m rest) := rfl
    exact Safe.bind_ok hload (effect_quiet (fun _ => rfl) rfl (by rw [hlog]; decide))
  refine .either htakes (fun hsend hargs _ => ?_) fun htakes => ?_
  · obtain ⟨a, b, rfl⟩ := List.length_eq_two.mp hargs
    apply Safe.bind_ok (arguments_apply h)
    apply Safe.bind_value (loadString_value b)
    intro name
    exact effect_quiet (fun hno => absurd hsend hno) rfl (by rw [hsend]; decide)
  refine .either htakes (fun hnetwork hargs _ => ?_) fun htakes => ?_
  · obtain ⟨a, b, c, rfl⟩ := List.length_eq_three.mp hargs
    apply Safe.bind_ok (arguments_apply h)
    apply Safe.bind_value (loadInt_value b)
    intro target
    apply Safe.bind_value (loadString_value c)
    intro name
    exact effect_quiet (fun _ => rfl) rfl (by rw [hnetwork]; decide)
  refine .either htakes (fun hdelayed hargs _ => ?_) fun htakes => ?_
  · obtain ⟨a, b, c, d, rfl⟩ := List.length_eq_four.mp hargs
    apply Safe.bind_ok (arguments_apply h)
    apply Safe.bind_value (loadDelay_value c)
    intro delay
    apply Safe.bind_value (loadString_value b)
    intro name
    exact effect_quiet (fun _ => rfl) rfl (by rw [hdelayed]; decide)
  refine .either htakes (fun hserialize hargs _ => ?_) fun htakes => ?_
  · obtain ⟨a, rfl⟩ := List.length_eq_one_iff.mp hargs
    apply Safe.bind_ok (arguments_apply h)
    exact effect_safe (fun _ => rfl) (by rw [requests, if_pos hserialize])
  refine .either htakes (fun _ hargs hw => ?_) fun htakes => ?_
  · obtain ⟨a, b, rfl⟩ := List.length_eq_two.mp hargs
    exact Safe.bind_ok (arguments_apply h) (Safe.of_ok rfl (Called.of_store rfl (hstores hw)))
  refine .either htakes (fun _ hargs hw => ?_) fun htakes => by cases htakes
  obtain ⟨a, rfl⟩ := List.length_eq_one_iff.mp hargs
  exact Safe.bind_ok (arguments_apply h) (Safe.of_ok rfl (Called.of_store rfl (hstores hw)))

end

/-- A call that the machine does not know fails, whatever is on the stack. -/
lemma call_of_takes_none (h : takes signature = none) :
    call signature m = .error (.unknownCall signature) m := by
  have hnext : ∀ {c : Prop} [Decidable c] {x : Nat × Bool} {rest : Option (Nat × Bool)},
      (if c then some x else rest) = none → ¬ c ∧ rest = none := by
    intro c _ x rest hnone
    by_cases hc : c
    · simp [hc] at hnone
    · exact ⟨hc, by simpa [hc] using hnone⟩
  unfold takes at h
  unfold call
  obtain ⟨hint, h⟩ := hnext h
  obtain ⟨hnegation, h⟩ := hnext h
  obtain ⟨hequals, h⟩ := hnext h
  obtain ⟨hdiffers, h⟩ := hnext h
  obtain ⟨hlog, h⟩ := hnext h
  obtain ⟨hsend, h⟩ := hnext h
  obtain ⟨hnetwork, h⟩ := hnext h
  obtain ⟨hdelayed, h⟩ := hnext h
  obtain ⟨hserialize, h⟩ := hnext h
  obtain ⟨howner, h⟩ := hnext h
  obtain ⟨hmaster, h⟩ := hnext h
  rw [Option.not_isSome_iff_eq_none.mp hint]
  simp only [if_neg hnegation, if_neg hequals, if_neg hdiffers, if_neg hlog, if_neg hsend,
    if_neg hnetwork, if_neg hdelayed, if_neg hserialize, if_neg howner, if_neg hmaster]
  rfl

/-! ## Steps -/

section

variable {position a : Nat}

lemma step_nop (h : m.code[position]? = some (a, .nop)) :
    step position m = .ok (some (position + 1)) m := by
  simp only [step, get_bind, h]
  rfl

lemma step_push (h : m.code[position]? = some (a, .push slot)) :
    step position m = .ok (some (position + 1)) (popped m (slot :: m.stack)) := by
  simp only [step, get_bind, h]
  rfl

lemma step_copy {target source : SlotId} (h : m.code[position]? = some (a, .copy))
    (hstack : m.stack = target :: source :: rest) :
    step position m = .ok (some (position + 1))
      (stored (popped m rest) target (m.heap.getD source .null)) := by
  have hpop : pop (popped m (source :: rest)) = .ok source (popped m rest) := rfl
  simp only [step, get_bind, h]
  rw [bind_of_ok (pop_apply hstack), bind_of_ok hpop]
  rfl

lemma step_host (h : m.code[position]? = some (a, .host signature)) :
    step position m = (do call signature; return some (position + 1) : Run (Option Nat)) m := by
  simp only [step, get_bind, h]

lemma step_halt (h : m.code[position]? = some (a, .halt)) : step position m = .ok none m := by
  simp only [step, get_bind, h]
  rfl

lemma step_jump {l : InstrId} (h : m.code[position]? = some (a, .jump l)) :
    step position m = (some <$> locateLabel l) m := by
  simp only [step, get_bind, h]
  rfl

lemma step_jumpIfFalse {l : InstrId} {c : SlotId} (h : m.code[position]? = some (a, .jumpIfFalse l))
    (hstack : m.stack = c :: rest) :
    step position m = (match m.heap.getD c .null with
      | .boolean false => some <$> locateLabel l
      | .boolean true => pure (some (position + 1))
      | other => throw (.notBoolean other) : Run (Option Nat)) (popped m rest) := by
  simp only [step, get_bind, h]
  rw [bind_of_ok (pop_apply hstack)]
  rfl

lemma step_jumpIndirect (h : m.code[position]? = some (a, .jumpIndirect slot)) :
    step position m = (match m.heap.getD slot .null with
      | .uint32 address =>
        if address = haltAddress then pure none else some <$> locate address.toNat
      | other => throw (.notAddress other) : Run (Option Nat)) m := by
  simp only [step, get_bind, h]
  rfl

lemma step_jumpMethod (h : m.code[position]? = some (a, .jumpMethod name)) :
    step position m = (match m.program.methodAddress? name with
      | some address => some <$> locate address
      | none => throw .unlinked : Run (Option Nat)) m := by
  simp only [step, get_bind, h]
  rfl

end

/-! ## Runs -/

/-- One step of a machine, with the position that it is at. -/
def Next (x y : Nat × Machine) : Prop := step x.1 x.2 = .ok (some y.1) y.2

/-- The machine comes from one position to another. -/
abbrev Reaches : Nat × Machine → Nat × Machine → Prop := Relation.ReflTransGen Next

/-- A run of a method comes to the position. -/
def Visits (name : String) (m : Machine) (x : Nat × Machine) : Prop :=
  ∃ address position, m.program.methodAddress? name = some address ∧
    locate address m = .ok position m ∧ Reaches (position, m) x

/-- A run that ends well comes to a step that halts. -/
lemma reaches_of_steps_ok {position : Nat} (h : steps name fuel position m = .ok () m') :
    ∃ x, Reaches (position, m) x ∧ step x.1 x.2 = .ok none m' := by
  induction fuel generalizing position m with
  | zero => cases h
  | succ fuel ih =>
    unfold steps at h
    cases hstep : step position m with
    | error e m₁ =>
      rw [bind_of_error hstep] at h
      cases h
    | ok next m₁ =>
      rw [bind_of_ok hstep] at h
      cases next with
      | none =>
        obtain ⟨⟩ := h
        exact ⟨(position, m), .refl, hstep⟩
      | some position₁ =>
        have hnext : Next (position, m) (position₁, m₁) := hstep
        obtain ⟨x, hx, hlast⟩ := ih h
        exact ⟨x, .head hnext hx, hlast⟩

/-- A run that fails comes to a step that fails, or it takes too long. -/
lemma reaches_of_steps_error {position : Nat} (h : steps name fuel position m = .error e m') :
    e = .notHalted name ∨ ∃ x, Reaches (position, m) x ∧ step x.1 x.2 = .error e m' := by
  induction fuel generalizing position m with
  | zero =>
    obtain ⟨⟩ := h
    exact .inl rfl
  | succ fuel ih =>
    unfold steps at h
    cases hstep : step position m with
    | error e₁ m₁ =>
      rw [bind_of_error hstep] at h
      obtain ⟨⟩ := h
      exact .inr ⟨(position, m), .refl, hstep⟩
    | ok next m₁ =>
      rw [bind_of_ok hstep] at h
      cases next with
      | none => cases h
      | some position₁ =>
        have hnext : Next (position, m) (position₁, m₁) := hstep
        rcases ih h with hlong | ⟨x, hx, hlast⟩
        · exact .inl hlong
        · exact .inr ⟨x, .head hnext hx, hlast⟩

lemma next_unique : Relator.RightUnique Next := by
  intro x y z hy hz
  obtain ⟨hposition, hmachine⟩ := EStateM.Result.ok.inj (Eq.trans (Eq.symm hy) hz)
  exact Prod.ext (Option.some.inj hposition) hmachine

/-- A run that ends well comes from each of its positions to the step that halts. -/
lemma halts_of_visits (hrun : method name m = .ok () m') {x : Nat × Machine} (hx : Visits name m x) :
    ∃ z, Reaches x z ∧ step z.1 z.2 = .ok none m' := by
  obtain ⟨address, position, haddress, hlocate, hreaches⟩ := hx
  simp only [method, get_bind, haddress] at hrun
  rw [bind_of_ok hlocate] at hrun
  obtain ⟨z, hz, hlast⟩ := reaches_of_steps_ok hrun
  -- the run is one path, and only its last step halts
  rcases Relation.ReflTransGen.total_of_right_unique next_unique hreaches hz with hxz | hzx
  · exact ⟨z, hxz, hlast⟩
  · rcases Relation.ReflTransGen.cases_head hzx with rfl | ⟨y, hy, -⟩
    · exact ⟨z, .refl, hlast⟩
    · cases hlast.symm.trans hy

/-- In a run that ends well no step fails. -/
lemma step_of_visits (hrun : method name m = .ok () m') {x : Nat × Machine} (hx : Visits name m x) :
    ∃ next m₁, step x.1 x.2 = .ok next m₁ := by
  obtain ⟨z, hxz, hlast⟩ := halts_of_visits hrun hx
  rcases Relation.ReflTransGen.cases_head hxz with rfl | ⟨y, hy, -⟩
  · exact ⟨_, _, hlast⟩
  · exact ⟨_, _, hy⟩

lemma Visits.trans {x y : Nat × Machine} (h : Visits name m x) (hxy : Reaches x y) :
    Visits name m y := by
  obtain ⟨address, position, haddress, hlocate, hreaches⟩ := h
  exact ⟨address, position, haddress, hlocate, hreaches.trans hxy⟩

/-! ## Stretches of a run -/

/-- The machine comes from one position to another by steps at positions between two bounds. -/
def Passes (low high : Nat) : Nat × Machine → Nat × Machine → Prop :=
  Relation.ReflTransGen fun x y => Next x y ∧ low ≤ x.1 ∧ x.1 < high

namespace Passes

variable {low high low' high' : Nat} {x y z : Nat × Machine}

lemma refl (x : Nat × Machine) : Passes low high x x := Relation.ReflTransGen.refl

lemma trans (h : Passes low high x y) (h' : Passes low high y z) : Passes low high x z :=
  Relation.ReflTransGen.trans h h'

lemma single (h : Next x y) (hlow : low ≤ x.1) (hhigh : x.1 < high) : Passes low high x y :=
  Relation.ReflTransGen.single ⟨h, hlow, hhigh⟩

lemma mono (h : Passes low high x y) (hlow : low' ≤ low) (hhigh : high ≤ high') :
    Passes low' high' x y := by
  refine Relation.ReflTransGen.mono (fun a b hstep => ?_) _ _ h
  exact ⟨hstep.1, hlow.trans hstep.2.1, hstep.2.2.trans_le hhigh⟩

lemma reaches (h : Passes low high x y) : Reaches x y :=
  Relation.ReflTransGen.mono (fun _ _ hstep => hstep.1) _ _ h

end Passes

/-- The machine comes from one position to another by steps that each lead to a greater position, between
two bounds, and to a machine with the property. -/
def Climbs (I : Machine → Prop) (low high : Nat) : Nat × Machine → Nat × Machine → Prop :=
  Relation.ReflTransGen fun x y => Next x y ∧ low ≤ x.1 ∧ x.1 < y.1 ∧ y.1 ≤ high ∧ I y.2

namespace Climbs

variable {I : Machine → Prop} {low high low' high' : Nat} {x y z : Nat × Machine}

lemma refl (x : Nat × Machine) : Climbs I low high x x := Relation.ReflTransGen.refl

lemma trans (h : Climbs I low high x y) (h' : Climbs I low high y z) : Climbs I low high x z :=
  Relation.ReflTransGen.trans h h'

lemma single (h : Next x y) (hlow : low ≤ x.1) (hlt : x.1 < y.1) (hhigh : y.1 ≤ high) (hI : I y.2) :
    Climbs I low high x y :=
  Relation.ReflTransGen.single ⟨h, hlow, hlt, hhigh, hI⟩

section

variable (h : Climbs I low high x y)
include h

lemma mono (hlow : low' ≤ low) (hhigh : high ≤ high') : Climbs I low' high' x y :=
  Relation.ReflTransGen.mono (fun _ _ ⟨hstep, hl, hlt, hh, hI⟩ =>
    ⟨hstep, hlow.trans hl, hlt, hh.trans hhigh, hI⟩) _ _ h

lemma passes : Passes low high x y :=
  Relation.ReflTransGen.mono (fun _ _ ⟨hstep, hl, hlt, hh, _⟩ => ⟨hstep, hl, hlt.trans_le hh⟩) _ _ h

lemma reaches : Reaches x y := h.passes.reaches

lemma le : x.1 ≤ y.1 := by
  induction h with
  | refl => exact le_rfl
  | tail _ hstep ih => exact ih.trans hstep.2.2.1.le

/-- No position comes up twice, so the run takes no more steps than there are positions. -/
lemma steps_eq (hfuel : y.1 < x.1 + fuel) :
    ∃ n, steps name fuel x.1 x.2 = steps name (n + 1) y.1 y.2 := by
  induction h using Relation.ReflTransGen.head_induction_on generalizing fuel with
  | refl => exact ⟨fuel - 1, by rw [Nat.sub_add_cancel (by omega)]⟩
  | @head x x' hstep hrest ih =>
    obtain ⟨hnext, -, hlt, -⟩ := hstep
    obtain ⟨fuel, rfl⟩ : ∃ n, fuel = n + 1 := by
      refine ⟨fuel - 1, (Nat.sub_add_cancel ?_).symm⟩
      by_contra hzero
      have hle : x'.1 ≤ y.1 := Climbs.le hrest
      omega
    obtain ⟨n, hn⟩ := ih (by omega : y.1 < x'.1 + fuel)
    exact ⟨n, (bind_of_ok hnext _).trans hn⟩

/-- If it halts at the end, then the property holds all along the run. -/
lemma holds (hI : I x.2) (hlast : step y.1 y.2 = .ok none m') (hz : Reaches x z) : I z.2 := by
  induction h using Relation.ReflTransGen.head_induction_on with
  | refl =>
    rcases Relation.ReflTransGen.cases_head hz with rfl | ⟨z', hnext, -⟩
    · exact hI
    · exact absurd (hlast.symm.trans hnext) (by simp)
  | head hstep _ ih =>
    rcases Relation.ReflTransGen.cases_head hz with rfl | ⟨z', hnext, hrest⟩
    · exact hI
    · obtain rfl := next_unique hstep.1 hnext
      exact ih hstep.2.2.2.2 hrest

end

end Climbs

end Run

end TriggerCompiler
