import Mathlib
import TriggerCompiler.Program.Link
import TriggerCompiler.Proofs.Merging
import TriggerCompiler.Proofs.Site

/-!
# Linking

Linking first finishes the methods. That is a fold, and each of its steps is an equation, so that the
positions in the finished bodies are those of the program, the labels of the ends and all new
positions. Then it gives out addresses and looks up everything that the program refers to.

Main statement: a program whose building site is sound and has nothing left to place can be linked.
-/

namespace TriggerCompiler

variable {α β : Type}

/-- The instruction goes on at no label and at no method. -/
def Instr.GoesNowhere (i : Instr) : Prop := i.labelTarget = none ∧ ∀ name, i ≠ .jumpMethod name

namespace Program

variable {p q f : Program} {m k : MethodId} {id l : InstrId} {i : Instr} {ms : List MethodId}
  {options : CompileOptions}

/-! ## Finishing methods -/

/-- The label of a method's end gets its place. -/
def placeEnd (p : Program) (m : MethodId) : Program :=
  match (p.method m).endLabel with
  | some label => p.place m label
  | none => p

/-- A request to send the synced variables is added, if the method asks for one. -/
def requestSync (options : CompileOptions) (p : Program) (m : MethodId) : Program :=
  if options.autoSerialize && (p.method m).serializes then
    (({ p with slots := p.slots.thisSlot.2 }.emit m (.push p.slots.thisSlot.1)).2.emit m
      (.host HostCall.requestSerialization)).2
  else p

/-- The instruction that a method ends with. -/
def Epilogue.instr : Epilogue → Instr
  | .halt => .halt
  | .indirect slot => .jumpIndirect slot

lemma finishMethod_eq (options : CompileOptions) (p : Program) (m : MethodId) :
    p.finishMethod options m =
      ((requestSync options (p.placeEnd m) m).emit m
        (Epilogue.instr ((requestSync options (p.placeEnd m) m).method m).epilogue)).2 := by
  unfold finishMethod
  change (match (((requestSync options (p.placeEnd m) m)).method m).epilogue with
    | .halt => _
    | .indirect slot => _) = _
  split
  all_goals
    rename_i h
    rw [h]
    rfl

/-- What a method ends with, behind the label of its end: the request to send what it wrote, if it
wrote a synced slot and requests are wanted, and its last instruction. -/
def closing (options : CompileOptions) (self : SlotId) (x : Method) : List Instr :=
  (if options.autoSerialize && x.serializes then
    [.push self, .host HostCall.requestSerialization] else []) ++ [Epilogue.instr x.epilogue]

lemma mem_closing {self : SlotId} {x : Method} (h : i ∈ closing options self x) :
    i.GoesNowhere ∧ i ≠ .nop := by
  have hi : i = .push self ∨ i = .host HostCall.requestSerialization ∨
      i = Epilogue.instr x.epilogue := by
    unfold closing at h
    split_ifs at h
    · simpa using h
    · exact .inr (.inr (by simpa using h))
  rcases hi with rfl | rfl | rfl
  · exact ⟨⟨rfl, by simp⟩, by simp⟩
  · exact ⟨⟨rfl, by simp⟩, by simp⟩
  · cases x.epilogue <;> exact ⟨⟨rfl, by simp [Epilogue.instr]⟩, by simp [Epilogue.instr]⟩

/-- The slots once a method is finished. -/
def closingSlots (options : CompileOptions) (t : SlotTable) (x : Method) : SlotTable :=
  if options.autoSerialize && x.serializes then t.thisSlot.2 else t

/-- One method got more in its body, and the arena more at its end. -/
structure Extends (p : Program) (m : MethodId) (new : List InstrId) (code : List Instr)
    (q : Program) : Prop where
  methods : q.methods = p.methods.modify m fun x => { x with body := x.body ++ new.toArray }
  instrs : q.instrs = p.instrs ++ code.toArray
  linked : q.linked = p.linked

namespace Extends

variable {o : Program} {new new' : List InstrId} {code code' : List Instr}

lemma of_same (hmethods : q.methods = p.methods) (hinstrs : q.instrs = p.instrs)
    (hlinked : q.linked = p.linked) : p.Extends m [] [] q := by
  refine ⟨?_, by simp [hinstrs], hlinked⟩
  apply Array.ext_getElem?
  intro j
  rw [hmethods, Array.getElem?_modify]
  split_ifs <;> simp

lemma trans (h : p.Extends m new code q) (h' : q.Extends m new' code' o) :
    p.Extends m (new ++ new') (code ++ code') o := by
  refine ⟨?_, by simp [h'.instrs, h.instrs], h'.linked.trans h.linked⟩
  apply Array.ext_getElem?
  intro j
  rw [h'.methods, h.methods]
  simp only [Array.getElem?_modify]
  split_ifs <;> simp [Function.comp_def]

lemma emit (p : Program) (m : MethodId) (i : Instr) :
    p.Extends m [p.instrs.size] [i] (p.emit m i).2 :=
  ⟨by simp [Program.emit, alloc, modifyMethod], by simp [Program.emit, alloc, modifyMethod], rfl⟩

lemma place (p : Program) (m : MethodId) (l : InstrId) : p.Extends m [l] [] (p.place m l) :=
  ⟨by simp [Program.place, modifyMethod], by simp [Program.place, modifyMethod], rfl⟩

variable (h : p.Extends m new code q)

include h

lemma size : q.methods.size = p.methods.size := by simp [h.methods]

lemma method (hm : m < p.methods.size) :
    q.method m = { p.method m with body := (p.method m).body ++ new.toArray } := by
  have hsame := method_modifyMethod_self (p := p) (m := m)
    (fun x => { x with body := x.body ++ new.toArray }) hm
  unfold Program.method at hsame ⊢
  rw [h.methods]
  exact hsame

lemma others (hk : k ≠ m) : q.method k = p.method k := by
  have hsame := method_modifyMethod_of_ne (p := p) (m := m)
    (fun x => { x with body := x.body ++ new.toArray }) hk
  unfold Program.method at hsame ⊢
  rw [h.methods]
  exact hsame

lemma placed (hm : m < p.methods.size) : q.placed.Perm (new ++ p.placed) := by
  have hbody : ((p.method m).body ++ new.toArray).toList.Perm (new ++ (p.method m).body.toList) := by
    simpa using List.perm_append_comm
  have hperm := placed_modifyMethod (f := fun x => { x with body := x.body ++ new.toArray }) hm hbody
  unfold Program.placed at hperm ⊢
  rw [h.methods]
  exact hperm

lemma instr_old (hid : id < p.instrs.size) : q.instr id = p.instr id := by
  simp [Program.instr, h.instrs, Array.getElem?_append_left, hid]

/-- The code stands at the positions that the arena got. -/
lemma instr_new : (List.range' p.instrs.size code.length).map q.instr = code := by
  apply List.ext_getElem
  · simp
  · intro j h₁ h₂
    simp [Program.instr, h.instrs, h₂]

end Extends

/-- The end of a method is added to its body. -/
lemma finishMethod_extends (options : CompileOptions) (hm : m < p.methods.size) :
    p.Extends m
        ((p.method m).endLabel.toList ++ List.range' p.instrs.size
          (closing options p.slots.thisSlot.1 (p.method m)).length)
        (closing options p.slots.thisSlot.1 (p.method m)) (p.finishMethod options m) ∧
      (p.finishMethod options m).slots = closingSlots options p.slots (p.method m) := by
  have hend : p.Extends m (p.method m).endLabel.toList [] (p.placeEnd m) ∧
      (p.placeEnd m).slots = p.slots := by
    unfold placeEnd
    cases (p.method m).endLabel with
    | none => exact ⟨.of_same rfl rfl rfl, rfl⟩
    | some l => exact ⟨.place p m l, rfl⟩
  obtain ⟨hend, hslots⟩ := hend
  have hmethod := hend.method hm
  have hsize : (p.placeEnd m).instrs.size = p.instrs.size := by simp [hend.instrs]
  rw [finishMethod_eq]
  unfold requestSync closing closingSlots
  rw [hmethod]
  dsimp only
  cases options.autoSerialize && (p.method m).serializes with
  | false =>
    have hlast := Extends.emit (p.placeEnd m) m (Epilogue.instr (p.method m).epilogue)
    rw [hsize] at hlast
    rw [if_neg (by simp), if_neg (by simp), if_neg (by simp), hmethod]
    exact ⟨hend.trans hlast, hslots⟩
  | true =>
    set self := p.slots.thisSlot.1
    set p₁ : Program := { p.placeEnd m with slots := p.slots.thisSlot.2 } with hp₁
    have hthis : p.Extends m ((p.method m).endLabel.toList ++ []) ([] ++ []) p₁ :=
      hend.trans (.of_same rfl rfl rfl)
    have hpush := Extends.emit p₁ m (.push self)
    have hcall := Extends.emit (p₁.emit m (.push self)).2 m (.host HostCall.requestSerialization)
    have hlast := Extends.emit
      ((p₁.emit m (.push self)).2.emit m (.host HostCall.requestSerialization)).2 m
      (Epilogue.instr (p.method m).epilogue)
    have hall := ((hthis.trans hpush).trans hcall).trans hlast
    have hfinal : ((p₁.emit m (.push self)).2.emit m
        (.host HostCall.requestSerialization)).2.method m = { p.method m with
          body := (p.method m).body ++ (((p.method m).endLabel.toList ++ [] ++ [p₁.instrs.size]) ++
            [(p₁.emit m (.push self)).2.instrs.size]).toArray } :=
      ((hthis.trans hpush).trans hcall).method hm
    rw [if_pos rfl, if_pos rfl, if_pos rfl, hslots, ← hp₁, hfinal]
    refine ⟨?_, rfl⟩
    have hsize₁ : p₁.instrs.size = p.instrs.size := hsize
    have hsize₂ : (p₁.emit m (.push self)).2.instrs.size = p.instrs.size + 1 := by
      simp [hpush.instrs, hsize₁]
    have hsize₃ : ((p₁.emit m (.push self)).2.emit m
        (.host HostCall.requestSerialization)).2.instrs.size = p.instrs.size + 2 := by
      simp [hcall.instrs, hsize₂]
    rw [hsize₁, hsize₂, hsize₃] at hall
    simpa [List.range'] using hall

/-- The running object keeps its slot. -/
lemma thisSlot_thisSlot (t : SlotTable) : t.thisSlot.2.thisSlot = t.thisSlot := by
  cases h : t.this with
  | some id => simp [SlotTable.thisSlot, h]
  | none => simp [SlotTable.thisSlot, SlotTable.push, h]

/-- Some methods are finished, and nothing else has changed. -/
structure Closes (options : CompileOptions) (p : Program) (ms : List MethodId) (q : Program) :
    Prop where
  slots : q.slots = p.slots ∨ q.slots = p.slots.thisSlot.2
  requests : ∀ m ∈ ms, (options.autoSerialize && (p.method m).serializes) = true →
    q.slots = p.slots.thisSlot.2
  linked : q.linked = p.linked
  size : q.methods.size = p.methods.size
  size_le : p.instrs.size ≤ q.instrs.size
  arena : ∀ id < p.instrs.size, q.instr id = p.instr id
  others : ∀ k, k ∉ ms → q.method k = p.method k
  method : ∀ m ∈ ms, ∃ new : List InstrId,
    q.method m = { p.method m with
      body := (p.method m).body ++ ((p.method m).endLabel.toList ++ new).toArray } ∧
    new.map q.instr = closing options p.slots.thisSlot.1 (p.method m)
  placed : q.placed.Perm (p.placed ++ ((ms.filterMap fun m => (p.method m).endLabel) ++
    List.range' p.instrs.size (q.instrs.size - p.instrs.size)))

/-- One method is finished after the other. -/
lemma Closes.cons (hm : m < p.methods.size) (hnot : m ∉ ms)
    (hrest : (p.finishMethod options m).Closes options ms q) :
    p.Closes options (m :: ms) q := by
  obtain ⟨hfirst, hslots⟩ := finishMethod_extends options hm
  set o := p.finishMethod options m
  set code := closing options p.slots.thisSlot.1 (p.method m) with hcode
  have hsize : o.instrs.size = p.instrs.size + code.length := by simp [hfirst.instrs]
  have hle := hrest.size_le
  have hstep : o.slots = p.slots ∨ o.slots = p.slots.thisSlot.2 := by
    rw [hslots, closingSlots]
    split_ifs
    · exact .inr rfl
    · exact .inl rfl
  have hself : o.slots.thisSlot = p.slots.thisSlot := by
    rcases hstep with hstep | hstep
    · rw [hstep]
    · rw [hstep, thisSlot_thisSlot]
  have hsame : ∀ k ∈ ms, o.method k = p.method k := fun k hk =>
    hfirst.others fun hkm => hnot (hkm ▸ hk)
  refine ⟨?_, fun k hk hflag => ?_, hrest.linked.trans hfirst.linked, hrest.size.trans hfirst.size, ?_,
    fun id hid => ?_, fun k hk => ?_, fun k hk => ?_, ?_⟩
  · rcases hrest.slots with hq | hq
    · rw [hq]
      exact hstep
    · rw [hq, hself]
      exact .inr rfl
  · rcases List.mem_cons.mp hk with rfl | hk
    · rw [closingSlots, if_pos hflag] at hslots
      rcases hrest.slots with hq | hq
      · rw [hq, hslots]
      · rw [hq, hself]
    · rw [hrest.requests k hk (hsame k hk ▸ hflag), hself]
  · exact le_trans (by omega) hrest.size_le
  · rw [hrest.arena id (by omega), hfirst.instr_old hid]
  · rw [hrest.others k fun hin => hk (List.mem_cons_of_mem _ hin),
      hfirst.others fun hkm => hk (hkm ▸ List.mem_cons_self)]
  · rcases List.mem_cons.mp hk with rfl | hk
    · refine ⟨List.range' p.instrs.size code.length, ?_, ?_⟩
      · rw [hrest.others k hnot, hfirst.method hm]
      · have hnew : (List.range' p.instrs.size code.length).map q.instr =
            (List.range' p.instrs.size code.length).map o.instr :=
          List.map_congr_left fun id hid => hrest.arena id (by
            rw [List.mem_range'_1] at hid
            omega)
        exact hnew.trans hfirst.instr_new
    · obtain ⟨new, hmethod, hnew⟩ := hrest.method k hk
      rw [hsame k hk] at hmethod hnew
      rw [hself] at hnew
      exact ⟨new, hmethod, hnew⟩
  · have hends : (ms.filterMap fun k => (o.method k).endLabel) =
        ms.filterMap fun k => (p.method k).endLabel :=
      List.filterMap_congr fun k hk => by rw [hsame k hk]
    have hplaced := hrest.placed
    rw [hends, hsize] at hplaced
    have hrange : List.range' p.instrs.size (q.instrs.size - p.instrs.size) =
        List.range' p.instrs.size code.length ++ List.range' (p.instrs.size + code.length)
          (q.instrs.size - (p.instrs.size + code.length)) := by
      rw [List.range'_append_1]
      congr 1
      omega
    have hcons : ((m :: ms).filterMap fun k => (p.method k).endLabel) =
        (p.method m).endLabel.toList ++ ms.filterMap fun k => (p.method k).endLabel := by
      rw [List.filterMap_cons]
      cases (p.method m).endLabel <;> rfl
    rw [hrange, hcons]
    refine hplaced.trans (((hfirst.placed hm).append_right _).trans ?_)
    -- the same parts in another order
    rw [List.perm_iff_count]
    intro x
    simp only [List.count_append]
    omega

lemma closes_foldl (options : CompileOptions) (hms : ms.Nodup) (hlt : ∀ m ∈ ms, m < p.methods.size) :
    p.Closes options ms (ms.foldl (finishMethod options) p) := by
  induction ms generalizing p with
  | nil =>
    exact ⟨.inl rfl, by simp, rfl, rfl, le_rfl, fun _ _ => rfl, fun _ _ => rfl, by simp, by simp⟩
  | cons m ms ih =>
    obtain ⟨hnot, hms⟩ := List.nodup_cons.mp hms
    have hm := hlt m List.mem_cons_self
    refine Closes.cons hm hnot (ih hms fun k hk => ?_)
    rw [(finishMethod_extends options hm).1.size]
    exact hlt k (List.mem_cons_of_mem _ hk)

/-- Linking begins with finishing all methods. -/
lemma finishMethods_closes (options : CompileOptions) (p : Program) :
    p.Closes options (List.range p.methods.size) (p.finishMethods options) :=
  closes_foldl options List.nodup_range fun _ hm => List.mem_range.mp hm

lemma endLabels_eq (p : Program) :
    p.endLabels = (List.range p.methods.size).filterMap fun m => (p.method m).endLabel := by
  have hmethods : p.methods.toList = (List.range p.methods.size).map p.method := by
    apply List.ext_getElem
    · simp
    · intro j h₁ h₂
      have hj : j < p.methods.size := by simpa using h₁
      simp [method, hj]
  unfold endLabels
  rw [hmethods, List.filterMap_map]
  rfl

/-- What an address stands for has its place. -/
def Refers (p : Program) : Address → Prop
  | .instruction l => l ∈ p.placed
  | .method name => ∃ x, p.methodNamed? name = some x ∧ 0 < x.body.size

/-- The methods are finished and refer to nothing that is missing. -/
structure Complete (p : Program) : Prop where
  placed_lt : ∀ id ∈ p.placed, id < p.instrs.size
  placed_nodup : p.placed.Nodup
  target : ∀ id ∈ p.placed, ∀ t, (p.instr id).labelTarget = some t → t ∈ p.placed
  call : ∀ id ∈ p.placed, ∀ name, p.instr id = .jumpMethod name → name ∈ p.names
  address : ∀ x ∈ p.slots.slots.toList, ∀ target, x.initial = some (.address target) →
    p.Refers target

/-- Positions are in the arena, and the ends of methods are labels. -/
structure Rooted (p : Program) : Prop where
  unlinked : p.linked = false
  placed_lt : ∀ id ∈ p.placed, id < p.instrs.size
  ending : ∀ l ∈ p.endLabels, l < p.instrs.size ∧ p.instr l = .nop

lemma Rooted.lt (hp : p.Rooted) (hid : id ∈ p.placed ++ p.endLabels) : id < p.instrs.size :=
  (List.mem_append.mp hid).elim (hp.placed_lt id) fun hl => (hp.ending id hl).1

namespace Closes

section

variable (h : p.Closes options (List.range p.methods.size) q)

include h

lemma names : q.names = p.names := by
  unfold Program.names
  apply List.ext_getElem
  · simp [h.size]
  · intro k hq hp
    have hk : k < p.methods.size := by simpa using hp
    have hk' : k < q.methods.size := by simpa using hq
    obtain ⟨new, hmethod, -⟩ := h.method k (List.mem_range.mpr hk)
    have hname : (q.method k).name = (p.method k).name := by rw [hmethod]
    simpa [Program.method, hk, hk'] using hname

/-- Every method has something in its body. -/
lemma body_pos (hk : k < p.methods.size) : 0 < (q.method k).body.size := by
  obtain ⟨new, hmethod, hnew⟩ := h.method k (List.mem_range.mpr hk)
  have hlength : 0 < new.length := by
    have hlength := congrArg List.length hnew
    rw [List.length_map, closing, List.length_append, List.length_singleton] at hlength
    omega
  rw [hmethod]
  simp
  omega

/-- Every method that there is can be referred to. -/
lemma refers_method {name : String} : q.Refers (.method name) ↔ name ∈ p.names := by
  rw [← h.names, ← findMethod?_isSome_iff]
  constructor
  · rintro ⟨x, hx, -⟩
    obtain ⟨k, hk, -⟩ := Option.map_eq_some_iff.mp hx
    rw [hk]
    rfl
  · intro hsome
    obtain ⟨k, hk⟩ := Option.isSome_iff_exists.mp hsome
    have hlt := lt_of_findMethod? hk
    exact ⟨q.method k, by rw [methodNamed?, hk]; rfl, h.body_pos (h.size ▸ hlt)⟩

lemma mem_placed : id ∈ q.placed ↔
    id ∈ p.placed ++ p.endLabels ∨ (p.instrs.size ≤ id ∧ id < q.instrs.size) := by
  have hle := h.size_le
  rw [h.placed.mem_iff, ← endLabels_eq]
  simp only [List.mem_append, List.mem_range'_1]
  rw [Nat.add_sub_cancel' hle, or_assoc]

lemma nodup_iff (hp : p.Rooted) : q.placed.Nodup ↔ (p.placed ++ p.endLabels).Nodup := by
  rw [h.placed.nodup_iff, ← endLabels_eq, ← List.append_assoc, List.nodup_append, and_iff_left]
  refine ⟨List.nodup_range', fun x hx y hy hxy => ?_⟩
  rw [List.mem_range'_1] at hy
  exact absurd (hp.lt hx) (Nat.not_lt.mpr (hxy ▸ hy.1))

/-- What was added to the bodies goes on at no label and at no method. -/
lemma goesNowhere (hp : p.Rooted) (hid : id ∈ q.placed) (hnew : id ∉ p.placed) :
    (q.instr id).GoesNowhere := by
  obtain ⟨x, hx, hmem⟩ := List.mem_flatMap.mp hid
  obtain ⟨k, hk, rfl⟩ := exists_method_of_mem hx
  have hk' : k < p.methods.size := h.size ▸ hk
  obtain ⟨new, hmethod, hcode⟩ := h.method k (List.mem_range.mpr hk')
  rw [hmethod] at hmem
  simp only [Array.toList_append, List.mem_append] at hmem
  rcases hmem with hmem | hmem | hmem
  · exact absurd (mem_placed_of_mem_body hk' hmem) hnew
  · obtain ⟨hlt, hnop⟩ := hp.ending id (List.mem_filterMap.mpr
      ⟨p.method k, method_mem hk', Option.mem_toList.mp hmem⟩)
    rw [h.arena id hlt, hnop]
    exact ⟨rfl, by simp⟩
  · exact (mem_closing (hcode ▸ List.mem_map_of_mem hmem)).1

end

/-- The slots are those that there were, and perhaps one more for the running object. -/
lemma slots_get (h : p.Closes options ms q) :
    p.slots.slots.toList ⊆ q.slots.slots.toList ∧
      (∀ x ∈ q.slots.slots.toList, ∀ v, x.initial = some v → x ∈ p.slots.slots.toList) ∧
      (∀ id < p.slots.size, q.slots.get id = p.slots.get id) ∧
      p.slots.size ≤ q.slots.size ∧
      ∀ id, p.slots.size ≤ id → id < q.slots.size →
        id = p.slots.thisSlot.1 ∧ (q.slots.get id).isThis = true ∧ (q.slots.get id).initial = none := by
  have hsame : q.slots = p.slots ∨ p.slots.this = none ∧ q.slots = p.slots.thisSlot.2 := by
    rcases h.slots with hq | hq
    · exact .inl hq
    · cases hthis : p.slots.this with
      | none => exact .inr ⟨rfl, hq⟩
      | some id => exact .inl (by simp [hq, SlotTable.thisSlot, hthis])
  rcases hsame with hq | ⟨hthis, hq⟩
  · rw [hq]
    exact ⟨fun _ hx => hx, fun _ hx _ _ => hx, fun _ _ => rfl, le_rfl,
      fun id hge hlt => absurd hlt (Nat.not_lt.mpr hge)⟩
  · obtain ⟨name, hthisSlot⟩ : ∃ name, p.slots.thisSlot = p.slots.push
        { name, type := .gameObject, kind := .reserved, isThis := true } := by
      simp only [SlotTable.thisSlot, hthis]
      exact ⟨_, rfl⟩
    rw [hq, hthisSlot]
    refine ⟨by simp [SlotTable.push], fun x hx v hv => ?_, fun id hid => ?_, ?_, fun id hge hlt => ?_⟩
    · simp only [SlotTable.push, Array.toList_push, List.mem_append, List.mem_singleton] at hx
      refine hx.resolve_right ?_
      rintro rfl
      cases hv
    · exact (SlotTable.within_push p.slots _).get_eq hid
    · rw [SlotTable.size_push]
      exact Nat.le_succ _
    · rw [SlotTable.size_push] at hlt
      obtain rfl : id = p.slots.size := le_antisymm (Nat.le_of_lt_succ hlt) hge
      rw [SlotTable.get_push_self]
      exact ⟨rfl, rfl, rfl⟩

end Closes

/-- No position is placed twice, and nothing that the program refers to is missing. -/
structure Consistent (p : Program) : Prop where
  once : (p.placed ++ p.endLabels).Nodup
  target : ∀ id ∈ p.placed, ∀ t, (p.instr id).labelTarget = some t → t ∈ p.placed ++ p.endLabels
  call : ∀ id ∈ p.placed, ∀ name, p.instr id = .jumpMethod name → name ∈ p.names
  instruction : ∀ x ∈ p.slots.slots.toList, ∀ l,
    x.initial = some (.address (.instruction l)) → l ∈ p.placed ++ p.endLabels
  method : ∀ x ∈ p.slots.slots.toList, ∀ name,
    x.initial = some (.address (.method name)) → name ∈ p.names

/-- A consistent program is complete once its methods are finished. -/
lemma Closes.complete (h : p.Closes options (List.range p.methods.size) q) (hp : p.Rooted)
    (hc : p.Consistent) : q.Complete := by
  obtain ⟨-, hslots, -⟩ := h.slots_get
  refine ⟨fun id hid => ?_, (h.nodup_iff hp).mpr hc.once, fun id hid t ht => ?_,
    fun id hid name hname => ?_, fun x hx target htarget => ?_⟩
  · exact (h.mem_placed.mp hid).elim (fun hold => (hp.lt hold).trans_le h.size_le) And.right
  · by_cases hold : id ∈ p.placed
    · rw [h.arena id (hp.placed_lt id hold)] at ht
      exact h.mem_placed.mpr (.inl (hc.target id hold t ht))
    · rw [(h.goesNowhere hp hid hold).1] at ht
      cases ht
  · by_cases hold : id ∈ p.placed
    · rw [h.arena id (hp.placed_lt id hold)] at hname
      exact h.names.symm ▸ hc.call id hold name hname
    · exact absurd hname ((h.goesNowhere hp hid hold).2 name)
  · have hold := hslots x hx _ htarget
    cases target with
    | instruction l => exact h.mem_placed.mpr (.inl (hc.instruction x hold l htarget))
    | method name => exact h.refers_method.mpr (hc.method x hold name htarget)

/-! ## Addresses -/

lemma layOut_eq_ok (p : Program) {ids : List InstrId} (hnodup : ids.Nodup) (next : Nat)
    (addresses : Array (Option Nat)) (hfree : ∀ id ∈ ids, addresses[id]? = some none) :
    ∃ result, p.layOut ids next addresses = .ok result ∧
      (∀ id, id ∉ ids → result[id]? = addresses[id]?) ∧
      ∀ j id, ids[j]? = some id →
        result[id]? = some (some (next + ((ids.take j).map fun x => (p.instr x).size).sum)) := by
  induction ids generalizing next addresses with
  | nil => exact ⟨addresses, rfl, fun _ _ => rfl, by simp⟩
  | cons x ids ih =>
    obtain ⟨hnot, hnodup⟩ := List.nodup_cons.mp hnodup
    have hx := hfree x List.mem_cons_self
    have hlt : x < addresses.size := by
      by_contra hge
      rw [Array.getElem?_eq_none (Nat.le_of_not_lt hge)] at hx
      cases hx
    have hmodify : ∀ id, (addresses.modify x fun _ => some next)[id]? =
        if id = x then some (some next) else addresses[id]? := by
      intro id
      rw [Array.getElem?_modify]
      by_cases hid : x = id
      · subst hid
        simp [hx]
      · rw [if_neg hid, if_neg fun h => hid h.symm]
    obtain ⟨result, hresult, houts, hins⟩ := ih hnodup (next + (p.instr x).size)
      (addresses.modify x fun _ => some next) fun id hid => by
        have hne : id ≠ x := fun heq => hnot (heq ▸ hid)
        rw [hmodify, if_neg hne]
        exact hfree id (List.mem_cons_of_mem _ hid)
    refine ⟨result, ?_, fun id hid => ?_, fun j id hj => ?_⟩
    · unfold layOut
      rw [hx]
      exact hresult
    · obtain ⟨hne, hid⟩ := not_or.mp (List.mem_cons.not.mp hid)
      rw [houts id hid, hmodify, if_neg hne]
    · cases j with
      | zero =>
        obtain rfl : x = id := by simpa using hj
        rw [houts x hnot, hmodify, if_pos rfl]
        simp
      | succ j =>
        rw [hins j id (by simpa using hj)]
        simp [Nat.add_assoc]

/-- What linking makes of a program: the finished methods, with the address of every instruction
that a body holds, and slots in which a number stands for each address. -/
structure Links (options : CompileOptions) (p q : Program) : Prop where
  methods : q.methods = (p.finishMethods options).methods
  instrs : q.instrs = (p.finishMethods options).instrs
  address : ∀ j id, q.placed[j]? = some id →
    q.address? id = some ((q.placed.take j).map fun x => (q.instr x).size).sum
  unplaced : ∀ id, id ∉ q.placed → q.address? id = none
  slots : List.Forall₂ (fun x y => q.resolveSlot x = .ok y)
    (p.finishMethods options).slots.slots.toList q.slots.slots.toList
  free : q.slots.free = (p.finishMethods options).slots.free

/-- Two steps succeed if each does. -/
lemma bind_ok_iff {x : Except ErrorKind α} {f : α → Except ErrorKind β} {b : β} :
    x >>= f = .ok b ↔ ∃ a, x = .ok a ∧ f a = .ok b := by
  cases x with
  | error e => simp [bind, Except.bind]
  | ok a => simp [bind, Except.bind]

lemma forM_eq_ok_iff {f : α → Except ErrorKind Unit} {l : List α} :
    l.forM f = .ok () ↔ ∀ x ∈ l, f x = .ok () := by
  induction l with
  | nil => exact ⟨by simp, fun _ => rfl⟩
  | cons x l ih =>
    rw [List.forall_mem_cons, ← ih]
    change (f x >>= fun _ => l.forM f) = _ ↔ _
    rw [bind_ok_iff]
    exact ⟨fun ⟨⟨⟩, hx, hl⟩ => ⟨hx, hl⟩, fun ⟨hx, hl⟩ => ⟨(), hx, hl⟩⟩

lemma mapM_forall₂ {f : α → Except ErrorKind β} {l : List α} {ys : List β} (h : l.mapM f = .ok ys) :
    List.Forall₂ (fun x y => f x = .ok y) l ys := by
  induction l generalizing ys with
  | nil =>
    obtain rfl := Except.ok.inj h
    exact .nil
  | cons x l ih =>
    rw [List.mapM_cons] at h
    obtain ⟨y, hy, h⟩ := bind_ok_iff.mp h
    obtain ⟨zs, hzs, h⟩ := bind_ok_iff.mp h
    obtain rfl := Except.ok.inj h
    exact .cons hy (ih hzs)

lemma mapM_eq_ok_iff {f : α → Except ErrorKind β} {l : List α} :
    (∃ ys, l.mapM f = .ok ys) ↔ ∀ x ∈ l, ∃ y, f x = .ok y := by
  induction l with
  | nil => exact ⟨by simp, fun _ => ⟨[], rfl⟩⟩
  | cons x l ih =>
    rw [List.forall_mem_cons, ← ih, List.mapM_cons]
    constructor
    · rintro ⟨ys, h⟩
      obtain ⟨y, hy, h⟩ := bind_ok_iff.mp h
      obtain ⟨zs, hzs, -⟩ := bind_ok_iff.mp h
      exact ⟨⟨y, hy⟩, zs, hzs⟩
    · rintro ⟨⟨y, hy⟩, zs, hzs⟩
      exact ⟨y :: zs, by rw [hy, hzs]; rfl⟩

/-- An instruction passes if what it goes on at is there. -/
lemma checkInstr_eq_ok {method : String} {id : InstrId} :
    p.checkInstr method id = .ok () ↔
      (∀ t, (p.instr id).labelTarget = some t → (p.address? t).isSome = true) ∧
        ∀ name, p.instr id = .jumpMethod name → (p.findMethod? name).isSome = true := by
  unfold checkInstr
  cases p.instr id with
  | jump t => cases h : p.address? t <;> simp [Instr.labelTarget, h]
  | jumpIfFalse t => cases h : p.address? t <;> simp [Instr.labelTarget, h]
  | jumpMethod name => cases h : p.findMethod? name <;> simp [Instr.labelTarget, h]
  | _ => simp [Instr.labelTarget]

/-- The number of an address, if what it stands for has one. -/
def addressOf? (p : Program) : Address → Option Nat
  | .instruction l => p.address? l
  | .method name => p.methodAddress? name

lemma resolveAddress_eq_ok {target : Address} {n : Nat} :
    p.resolveAddress target = .ok n ↔ p.addressOf? target = some n := by
  cases target with
  | instruction l => cases h : p.address? l <;> simp [resolveAddress, addressOf?, h]
  | method name => cases h : p.methodAddress? name <;> simp [resolveAddress, addressOf?, h]

/-- An address that stands for something in its place has a number. -/
lemma Refers.resolve {target : Address} (h : p.Refers target)
    (hplaced : ∀ id ∈ p.placed, ∃ n, p.address? id = some n) :
    ∃ n, p.resolveAddress target = .ok n := by
  simp only [resolveAddress_eq_ok]
  cases target with
  | instruction l => exact hplaced l h
  | method name =>
    obtain ⟨x, hx, hbody⟩ := h
    have hmem : x.body[0] ∈ p.placed := by
      obtain ⟨k, hk, rfl⟩ := Option.map_eq_some_iff.mp hx
      have hlt := lt_of_findMethod? hk
      refine mem_placed_of_mem_body hlt ?_
      simp
    obtain ⟨n, hn⟩ := hplaced _ hmem
    exact ⟨n, by simp [addressOf?, methodAddress?, hx, hbody, hn]⟩

/-- A program can be linked if it refers to nothing that is missing once its methods are finished. -/
lemma Complete.link {options : CompileOptions} (h : (p.finishMethods options).Complete)
    (hunlinked : p.linked = false) : ∃ q, p.link options = .ok q ∧ Links options p q := by
  set f := p.finishMethods options with hfdef
  obtain ⟨addresses, hlayout, houts, hins⟩ := f.layOut_eq_ok h.placed_nodup 0
    (Array.replicate f.instrs.size none) fun id hid => by
      simp [h.placed_lt id hid]
  set g : Program := { f with addresses } with hg
  have hplaced : ∀ id ∈ g.placed, ∃ n, g.address? id = some n := by
    intro id hid
    obtain ⟨j, hj⟩ := List.mem_iff_getElem?.mp hid
    exact ⟨_, congrArg Option.join (hins j id hj)⟩
  have htargets : g.checkTargets = .ok () := by
    refine forM_eq_ok_iff.mpr fun x hx => forM_eq_ok_iff.mpr fun id hid => ?_
    have hmem : id ∈ f.placed := List.mem_flatMap.mpr ⟨x, hx, hid⟩
    refine checkInstr_eq_ok.mpr ⟨fun t ht => ?_, fun name hname => ?_⟩
    · obtain ⟨n, hn⟩ := hplaced t (h.target id hmem t ht)
      rw [hn]
      rfl
    · exact (f.findMethod?_isSome_iff name).mpr (h.call id hmem name hname)
  have hslots : ∀ x ∈ g.slots.slots.toList, ∃ y, g.resolveSlot x = .ok y := by
    intro x hx
    unfold resolveSlot
    split
    · rename_i target hinitial
      obtain ⟨n, hnumber⟩ :=
        Refers.resolve (p := g) (h.address x hx target hinitial) hplaced
      rw [hnumber]
      exact ⟨_, rfl⟩
    · exact ⟨x, rfl⟩
  obtain ⟨slots, hresolved⟩ := mapM_eq_ok_iff.mpr hslots
  refine ⟨{ g with slots := { g.slots with slots := slots.toArray }, linked := true }, ?_, ?_⟩
  · unfold Program.link assignAddresses resolveSlots
    rw [hunlinked, ← hfdef, hlayout]
    change (g.checkTargets >>= fun _ => _) = _
    rw [htargets]
    change (g.slots.slots.toList.mapM g.resolveSlot >>= fun _ => _) >>= _ = _
    rw [hresolved]
    rfl
  · refine ⟨rfl, rfl, fun j id hj => ?_, fun id hid => ?_, mapM_forall₂ hresolved, rfl⟩
    · change (addresses[id]?).join = _
      rw [hins j id hj, Nat.zero_add]
      rfl
    · change (addresses[id]?).join = none
      rw [houts id hid]
      cases hid' : (Array.replicate f.instrs.size (none : Option Nat))[id]? with
      | none => rfl
      | some v =>
        rw [Array.getElem?_replicate] at hid'
        split_ifs at hid'
        rw [← Option.some.inj hid']
        rfl

end Program

namespace Site.Sound

variable {p q : Program} {options : CompileOptions} (h : (⟨p, [], []⟩ : Site).Sound)
include h

lemma rooted : p.Rooted where
  unlinked := h.unlinked
  placed_lt := h.placed_lt
  ending l hl := by
    obtain ⟨hlt, hnop, -⟩ := h.waiting l (List.mem_append_left _ hl)
    exact ⟨hlt, hnop⟩

lemma consistent : p.Consistent := by
  have hpromised : (⟨p, [], []⟩ : Site).promised = p.endLabels := List.append_nil _
  have htarget : ∀ t, (⟨p, [], []⟩ : Site).Target t → t ∈ p.placed ++ p.endLabels := fun t ht =>
    List.mem_append.mpr (hpromised ▸ ht)
  have haddress : ∀ x ∈ p.slots.slots.toList, ∀ target, x.initial = some (.address target) →
      ∃ l, target = .instruction l ∧ l ∈ p.placed ++ p.endLabels := by
    intro x hx target hinitial
    obtain ⟨id, hget⟩ := List.mem_iff_getElem?.mp hx
    obtain ⟨hid, rfl⟩ := SlotTable.get_of_getElem? hget
    obtain ⟨l, rfl, hl⟩ := h.address id hid target hinitial
    exact ⟨l, rfl, htarget l hl⟩
  refine ⟨?_, fun id hid t ht => htarget t ((h.accepts id hid).target t ht),
    fun id hid => (h.accepts id hid).call, fun x hx l hl => ?_, fun x hx name hname => ?_⟩
  · refine List.nodup_append.mpr ⟨h.placed_nodup, hpromised ▸ h.promised_nodup, ?_⟩
    rintro id hid _ hl rfl
    exact (h.waiting id (List.mem_append_left _ hl)).2.2 hid
  · obtain ⟨_, heq, hmem⟩ := haddress x hx _ hl
    obtain rfl := Address.instruction.inj heq
    exact hmem
  · obtain ⟨_, heq, -⟩ := haddress x hx _ hname
    cases heq

lemma complete (options : CompileOptions) : (p.finishMethods options).Complete :=
  (Program.finishMethods_closes options p).complete h.rooted h.consistent

/-- A program that is ready for it can be linked. -/
lemma link (options : CompileOptions) : ∃ q, p.link options = .ok q ∧ p.Links options q :=
  (h.complete options).link h.unlinked

lemma links (hlink : p.link options = .ok q) : p.Links options q := by
  obtain ⟨q', hlink', hlinks⟩ := h.link options
  exact Except.ok.inj (hlink'.symm.trans hlink) ▸ hlinks

end Site.Sound

end TriggerCompiler
