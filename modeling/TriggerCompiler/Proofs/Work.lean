import Mathlib
import TriggerCompiler.Proofs.Site

/-!
# Work on the body of a method

A body is built by adding lines at its end. Only two things happen before the end: a further branch
of a chain lets earlier jumps go to its own end, and an instruction is put right before the label
that ends the body. Whatever is done to one body, slots, labels and the other methods stay.
-/

namespace TriggerCompiler

variable {temps : List SlotId}

/-- What the lines of a method are read against: the slots, and whether the method asks at its end
that synchronized variables be sent. -/
structure Setting where
  slots : SlotTable
  sends : Bool

/-- The slots stay, and so does the request. -/
structure Setting.Within (e e' : Setting) : Prop where
  slots : e.slots.Within e'.slots
  sends : e.sends = true → e'.sends = true

/-- What the lines of a method of the program are read against. -/
def Program.setting (p : Program) (m : MethodId) : Setting := ⟨p.slots, (p.method m).serializes⟩

namespace Site

variable {a b c : Site} {m : MethodId} {i : Instr} {l : InstrId} {id : SlotId}

/-! ## What work keeps -/

/-- `a.Works m b`: from the site `a` to the site `b` only the body of the method `m` is worked on.
Slots, labels and instructions may come in addition, and jumps may get another target. -/
structure Works (m : MethodId) (a b : Site) : Prop where
  sound : b.Sound
  grows : a.Grows b
  makes : a.program.slots.Makes b.program.slots
  accounts : a.program.slots.Accounts a.temps b.program.slots b.temps
  size_le : a.program.instrs.size ≤ b.program.instrs.size
  placed : ∀ id ∈ a.program.placed, id ∈ b.program.placed
  jump : ∀ id, a.program.IsJump id → b.program.IsJump id
  fixed : ∀ id < a.program.instrs.size, ¬ a.program.IsJump id →
    b.program.instr id = a.program.instr id
  labels : ∀ l ∈ b.labels, a.program.instrs.size ≤ l ∨ l ∈ a.labels
  methods : b.program.methods.size = a.program.methods.size
  others : ∀ k, k ≠ m → b.program.method k = a.program.method k
  name : (b.program.method m).name = (a.program.method m).name
  epilogue : (b.program.method m).epilogue = (a.program.method m).epilogue
  kind : (b.program.method m).kind = (a.program.method m).kind
  ending : ∀ l, (a.program.method m).endLabel = some l → (b.program.method m).endLabel = some l
  serializes : (a.program.method m).serializes = true → (b.program.method m).serializes = true

namespace Works

lemma refl (h : a.Sound) : a.Works m a :=
  ⟨h, Grows.refl a, .of_size le_rfl, .refl _ _, le_rfl, fun _ hid => hid, fun _ hid => hid,
    fun _ _ _ => rfl, fun _ hl => .inr hl, rfl, fun _ _ => rfl, rfl, rfl, rfl, fun _ hl => hl,
    fun h => h⟩

lemma trans (h : a.Works m b) (h' : b.Works m c) : a.Works m c where
  sound := h'.sound
  grows := h.grows.trans h'.grows
  makes := h.makes.trans h'.makes h'.grows.slots
  accounts := h.accounts.trans h'.accounts h.grows.slots h'.grows.slots
  size_le := h.size_le.trans h'.size_le
  placed id hid := h'.placed id (h.placed id hid)
  jump id hid := h'.jump id (h.jump id hid)
  fixed id hid hno := by
    have hsame := h.fixed id hid hno
    refine (h'.fixed id (hid.trans_le h.size_le) fun ⟨l, hl⟩ => hno ⟨l, ?_⟩).trans hsame
    exact hsame.symm.trans hl
  labels l hl := (h'.labels l hl).elim (fun hge => .inl (h.size_le.trans hge)) (h.labels l)
  methods := h'.methods.trans h.methods
  others k hk := (h'.others k hk).trans (h.others k hk)
  name := h'.name.trans h.name
  epilogue := h'.epilogue.trans h.epilogue
  kind := h'.kind.trans h.kind
  ending l hl := h'.ending l (h.ending l hl)
  serializes hs := h'.serializes (h.serializes hs)

lemma setting (h : a.Works m b) : (a.program.setting m).Within (b.program.setting m) :=
  ⟨h.grows.slots, h.serializes⟩

/-- The order of the lists of the later site does not matter. -/
lemma of_perm {labels : List InstrId} (h : a.Works m b) (hl : labels.Perm b.labels)
    (ht : temps.Perm b.temps) :
    a.Works m ⟨b.program, labels, temps⟩ := by
  have hp : (⟨b.program, labels, temps⟩ : Site).promised.Perm b.promised := hl.append_left _
  refine { h with sound := h.sound.of_perm hl ht, grows := ?_, accounts := ?_, labels := ?_ }
  · exact ⟨h.grows.slots, fun t ht => (h.grows.target t ht).imp id hp.mem_iff.mpr, h.grows.names⟩
  · exact fun x => (ht.append_left _).mem_iff.trans (h.accounts x)
  · exact fun l hl' => h.labels l (hl.mem_iff.mp hl')

end Works

/-! ## Adding lines -/

/-- `a.Adds m code b`: the work on the body of `m` is to add the lines `code` at its end. -/
structure Adds (m : MethodId) (a : Site) (code : List Line) (b : Site) : Prop
    extends Works m a b where
  arena : ∀ id < a.program.instrs.size, b.program.instr id = a.program.instr id
  body : ∃ new : List InstrId,
    (b.program.method m).body.toList = (a.program.method m).body.toList ++ new ∧
    new.map b.program.line = code ∧ ∀ id ∈ new, a.program.instrs.size ≤ id ∨ id ∈ a.labels

namespace Adds

variable {code code' : List Line}

/-- Work that only adds to a body keeps what other bodies hold and every jump. -/
lemma of_arena (sound : b.Sound) (grows : a.Grows b)
    (makes : a.program.slots.Makes b.program.slots)
    (accounts : a.program.slots.Accounts a.temps b.program.slots b.temps)
    (size_le : a.program.instrs.size ≤ b.program.instrs.size)
    (arena : ∀ id < a.program.instrs.size, b.program.instr id = a.program.instr id)
    (labels : ∀ l ∈ b.labels, a.program.instrs.size ≤ l ∨ l ∈ a.labels)
    (methods : b.program.methods.size = a.program.methods.size)
    (others : ∀ k, k ≠ m → b.program.method k = a.program.method k)
    (name : (b.program.method m).name = (a.program.method m).name)
    (epilogue : (b.program.method m).epilogue = (a.program.method m).epilogue)
    (kind : (b.program.method m).kind = (a.program.method m).kind)
    (ending : ∀ l, (a.program.method m).endLabel = some l →
      (b.program.method m).endLabel = some l)
    (serializes : (a.program.method m).serializes = true → (b.program.method m).serializes = true)
    (body : ∃ new : List InstrId,
      (b.program.method m).body.toList = (a.program.method m).body.toList ++ new ∧
      new.map b.program.line = code ∧
      ∀ id ∈ new, a.program.instrs.size ≤ id ∨ id ∈ a.labels) : a.Adds m code b := by
  refine ⟨⟨sound, grows, makes, accounts, size_le, fun id hid => ?_, fun id hid => ?_,
    fun id hid _ => arena id hid, labels, methods, others, name, epilogue, kind, ending, serializes⟩,
    arena, body⟩
  · obtain ⟨x, hx, hmem⟩ := List.mem_flatMap.mp hid
    obtain ⟨k, hk, rfl⟩ := Program.exists_method_of_mem hx
    refine Program.mem_placed_of_mem_body (m := k) (methods ▸ hk) ?_
    by_cases hkm : k = m
    · subst hkm
      obtain ⟨new, hbody, -, -⟩ := body
      rw [hbody]
      exact List.mem_append_left _ hmem
    · rwa [others k hkm]
  · obtain ⟨l, hl⟩ := hid
    exact ⟨l, (arena id (Program.IsJump.lt ⟨l, hl⟩)).trans hl⟩

lemma refl (h : a.Sound) : a.Adds m [] a :=
  ⟨Works.refl h, fun _ _ => rfl, [], by simp, rfl, by simp⟩

lemma trans (h : a.Adds m code b) (h' : b.Adds m code' c) (hm : m < a.program.methods.size) :
    a.Adds m (code ++ code') c where
  toWorks := h.toWorks.trans h'.toWorks
  arena id hid := (h'.arena id (hid.trans_le h.size_le)).trans (h.arena id hid)
  body := by
    obtain ⟨new, hself, rfl, hnew⟩ := h.body
    obtain ⟨new', hself', rfl, hnew'⟩ := h'.body
    refine ⟨new ++ new', ?_, ?_, fun id hid => ?_⟩
    · rw [hself', hself, List.append_assoc]
    · rw [List.map_append]
      congr 1
      refine List.map_congr_left fun id hid => Program.line_congr (h'.arena id ?_)
      refine h.sound.body_lt (h.methods ▸ hm) ?_
      rw [hself]
      simp [hid]
    · rcases List.mem_append.mp hid with hid | hid
      · exact hnew id hid
      · exact (hnew' id hid).elim (fun hge => .inl (h.size_le.trans hge)) (h.labels id)

/-- The order of the lists of the later site does not matter. -/
lemma of_perm {labels : List InstrId} (h : a.Adds m code b) (hl : labels.Perm b.labels)
    (ht : temps.Perm b.temps) :
    a.Adds m code ⟨b.program, labels, temps⟩ :=
  { h with toWorks := h.toWorks.of_perm hl ht }

/-- The body is the old one with the new lines at its end. -/
lemma lines (h : a.Adds m code b) (ha : a.Sound) (hm : m < a.program.methods.size) :
    b.program.lines m = a.program.lines m ++ code := by
  obtain ⟨new, hself, rfl, -⟩ := h.body
  unfold Program.lines
  rw [hself, List.map_append]
  congr 1
  refine List.map_congr_left fun id hid => Program.line_congr (h.arena id ?_)
  exact ha.body_lt hm hid

end Adds

/-- How a site adds lines by a change of one method. -/
lemma Sound.adds_modifyMethod {p : Program} {f : Method → Method}
    (new labels : List InstrId) (hp : p.methods = a.program.methods) (hm : m < a.program.methods.size)
    (h : (⟨p.modifyMethod m f, labels, a.temps⟩ : Site).Sound)
    (hg : a.Grows ⟨p.modifyMethod m f, labels, a.temps⟩)
    (hslots : p.slots = a.program.slots)
    (size_le : a.program.instrs.size ≤ p.instrs.size)
    (arena : ∀ id < a.program.instrs.size, p.instr id = a.program.instr id)
    (hlabels : ∀ l ∈ labels, l ∈ a.labels)
    (name : ∀ x, (f x).name = x.name) (epilogue : ∀ x, (f x).epilogue = x.epilogue)
    (kind : ∀ x, (f x).kind = x.kind) (ending : ∀ x l, x.endLabel = some l → (f x).endLabel = some l)
    (serializes : ∀ x, x.serializes = true → (f x).serializes = true)
    (body : ∀ x, (f x).body.toList = x.body.toList ++ new)
    (hnew : ∀ id ∈ new, a.program.instrs.size ≤ id ∨ id ∈ a.labels) :
    a.Adds m (new.map p.line) ⟨p.modifyMethod m f, labels, a.temps⟩ := by
  have hmethod : ∀ k, p.method k = a.program.method k := fun k => by
    unfold Program.method
    rw [hp]
  have hself : (p.modifyMethod m f).method m = f (a.program.method m) := by
    rw [Program.method_modifyMethod_self f (hp ▸ hm), hmethod]
  have hsame : (p.modifyMethod m f).slots = a.program.slots := hslots
  refine Adds.of_arena h hg (by rw [hsame]; exact .of_size le_rfl) (by rw [hsame]; exact .refl _ _)
    size_le arena (fun l hl => .inr (hlabels l hl)) ?_ (fun k hk => ?_) ?_ ?_ ?_
    (fun l hl => ?_) (fun hs => ?_) ⟨new, ?_, rfl, hnew⟩
  · exact (Program.size_modifyMethod f).trans (congrArg Array.size hp)
  · exact (Program.method_modifyMethod_of_ne f hk).trans (hmethod k)
  · exact (congrArg Method.name hself).trans (name _)
  · exact (congrArg Method.epilogue hself).trans (epilogue _)
  · exact (congrArg Method.kind hself).trans (kind _)
  · exact (congrArg Method.endLabel hself).trans (ending _ l hl)
  · exact (congrArg Method.serializes hself).trans (serializes _ hs)
  · exact (congrArg (fun x => x.body.toList) hself).trans (body _)

lemma Sound.adds_emit (h : a.Sound) (hm : m < a.program.methods.size) (hi : a.Accepts i)
    (hnop : i ≠ .nop) : a.Adds m [.code i] (a.emit m i) := by
  have hadds := Sound.adds_modifyMethod (p := (a.program.alloc i).2)
    (f := fun x => { x with body := x.body.push a.program.instrs.size })
    [a.program.instrs.size] a.labels rfl hm (h.emit hm hi) (grows_emit hm i)
    rfl (by simp [Program.alloc]) (fun id hid => Program.instr_alloc_of_lt i hid) (fun _ hl => hl)
    (fun _ => rfl) (fun _ => rfl) (fun _ => rfl) (fun _ _ hl => hl) (fun _ hs => hs) (fun _ => by simp) (by simp)
  have hline : (a.program.alloc i).2.line a.program.instrs.size = .code i := by
    simp [Program.line, Program.instr_alloc, hnop]
  rw [List.map_singleton, hline] at hadds
  exact hadds

lemma Sound.adds_newLabel (h : a.Sound) : a.Adds m [] a.newLabel :=
  Adds.of_arena h.newLabel (grows_newLabel a) (.of_size le_rfl) (.refl _ _)
    (by simp [Site.newLabel, Program.newLabel, Program.alloc])
    (fun _ hid => Program.instr_alloc_of_lt _ hid)
    (fun _ hl => (List.mem_cons.mp hl).imp (fun h => h.ge) fun h => h) rfl (fun _ _ => rfl) rfl rfl rfl
    (fun _ hl => hl) (fun hs => hs) ⟨[], (List.append_nil _).symm, rfl, by simp⟩

section

variable (h : a.Sound) (hm : m < a.program.methods.size)
include h hm

lemma Sound.adds_place (hl : l ∈ a.labels) : a.Adds m [.label l] (a.place m l) := by
  have hadds := Sound.adds_modifyMethod (p := a.program)
    (f := fun x => { x with body := x.body.push l }) [l] (a.labels.erase l) rfl hm (h.place hm hl)
    (grows_place hm hl) rfl le_rfl (fun _ _ => rfl) (fun _ hl' => List.mem_of_mem_erase hl')
    (fun _ => rfl) (fun _ => rfl) (fun _ => rfl) (fun _ _ hl => hl) (fun _ hs => hs) (fun _ => by simp)
    (by simp [hl])
  have hline : a.program.line l = .label l :=
    if_pos (h.waiting l (List.mem_append_right _ hl)).2.1
  rw [List.map_singleton, hline] at hadds
  exact hadds

lemma Sound.adds_serialize : a.Adds m [] (a.serialize m) :=
  Sound.adds_modifyMethod (p := a.program) (f := fun x => { x with serializes := true })
    [] a.labels rfl hm (h.serialize m) (grows_serialize a m) rfl le_rfl
    (fun _ _ => rfl) (fun _ hl => hl) (fun _ => rfl) (fun _ => rfl) (fun _ => rfl) (fun _ _ hl => hl)
    (fun _ _ => rfl) (fun _ => by simp) (by simp)

lemma Sound.adds_methodEnd : a.Adds m [] (a.methodEnd m) := by
  obtain ⟨l, -, heq⟩ | ⟨hnone, heq⟩ := methodEnd_cases a m
  · have hsite : a.methodEnd m = a := by
      unfold Site.methodEnd
      rw [heq]
    rw [hsite]
    exact Adds.refl h
  · have hsite : a.methodEnd m = ⟨(a.program.alloc .nop).2.modifyMethod m fun x =>
        { x with endLabel := some a.program.instrs.size }, a.labels, a.temps⟩ := by
      unfold Site.methodEnd
      rw [heq]
    have hmethod : ((a.methodEnd m).program.method m) =
        { a.program.method m with endLabel := some a.program.instrs.size } := by
      rw [hsite]
      exact Program.method_modifyMethod_self (p := (a.program.alloc .nop).2) _ hm
    refine Adds.of_arena (h.methodEnd hm) (grows_methodEnd hm) ?_ ?_ ?_ (fun id hid => ?_) ?_ ?_
      (fun k hk => ?_) ?_ ?_ ?_ (fun l hl => ?_) (fun hs => ?_) ⟨[], ?_, rfl, by simp⟩
    · rw [hsite]
      exact .of_size le_rfl
    · rw [hsite]
      exact .refl _ _
    · rw [hsite]
      simp [Program.alloc, Program.modifyMethod]
    · rw [hsite]
      exact Program.instr_alloc_of_lt _ hid
    · rw [hsite]
      exact fun _ hl => .inr hl
    · rw [hsite]
      exact Program.size_modifyMethod _
    · rw [hsite]
      exact Program.method_modifyMethod_of_ne (p := (a.program.alloc .nop).2) _ hk
    · rw [hmethod]
    · rw [hmethod]
    · rw [hmethod]
    · rw [hnone] at hl
      cases hl
    · rw [hmethod]
      exact hs
    · rw [hmethod, List.append_nil]

end

/-- What is asked for is the label of the method's end from then on. -/
lemma endLabel_methodEnd (hm : m < a.program.methods.size) :
    ((a.methodEnd m).program.method m).endLabel = some (a.program.endLabel m).1 := by
  obtain ⟨l, hl, heq⟩ | ⟨-, heq⟩ := methodEnd_cases a m
  · unfold methodEnd
    rw [heq]
    exact hl
  · unfold methodEnd
    rw [heq]
    dsimp only
    rw [Program.method_modifyMethod_self (p := (a.program.alloc .nop).2) _ hm]

/-- A change of the slots adds no lines. -/
lemma Adds.of_slots {t : SlotTable} (hw : a.program.slots.Within t)
    (hmakes : a.program.slots.Makes t) (haccounts : a.program.slots.Accounts a.temps t temps)
    (h : (⟨{ a.program with slots := t }, a.labels, temps⟩ : Site).Sound) :
    a.Adds m [] ⟨{ a.program with slots := t }, a.labels, temps⟩ :=
  Adds.of_arena h ⟨hw, fun _ ht => ht, fun _ hn => hn⟩ hmakes haccounts le_rfl (fun _ _ => rfl)
    (fun _ hl => .inr hl) rfl (fun _ _ => rfl) rfl rfl rfl (fun _ hl => hl) (fun hs => hs)
    ⟨[], (List.append_nil _).symm, rfl, by simp⟩

/-! ## Changes before the end of a body -/

/-- Lets a jump go elsewhere. -/
def redirect (a : Site) (id l : InstrId) : Site :=
  { a with program := a.program.setInstr id (.jump l) }

lemma instr_redirect (h : a.program.IsJump l) (t k : InstrId) :
    (a.redirect l t).program.instr k = if k = l then .jump t else a.program.instr k := by
  unfold redirect
  rw [Program.instr_setInstr]
  simp only [h.lt, and_true]

lemma Sound.works_redirect (h : a.Sound) (hl : a.program.IsJump l) {t : InstrId}
    (ht : a.Target t) : a.Works m (a.redirect l t) := by
  have hg : a.Grows (a.redirect l t) := ⟨SlotTable.Within.refl _, fun _ hx => hx, fun _ hn => hn⟩
  have hsize : (a.redirect l t).program.instrs.size = a.program.instrs.size := by
    simp [redirect, Program.setInstr]
  have hjump : ∀ id, a.program.IsJump id → (a.redirect l t).program.IsJump id := by
    intro id hid
    by_cases hidl : id = l
    · exact ⟨t, by rw [instr_redirect hl, if_pos hidl]⟩
    · obtain ⟨x, hx⟩ := hid
      exact ⟨x, by rw [instr_redirect hl, if_neg hidl, hx]⟩
  refine ⟨⟨h.table, h.pool, fun id hid => hsize ▸ h.placed_lt id hid, h.placed_nodup,
    h.promised_nodup, fun x hx => ?_, fun id hid => ?_, h.epilogue, h.address, h.unlinked⟩, hg,
    .of_size le_rfl, .refl _ _, hsize.ge, fun _ hid => hid, hjump, fun id _ hno => ?_,
    fun _ hx => .inr hx, rfl, fun _ _ => rfl, rfl, rfl, rfl, fun _ hx => hx, fun hs => hs⟩
  · obtain ⟨hlt, hnop, hplaced⟩ := h.waiting x hx
    refine ⟨hsize ▸ hlt, ?_, hplaced⟩
    rw [instr_redirect hl, if_neg, hnop]
    rintro rfl
    obtain ⟨y, hy⟩ := hl
    rw [hnop] at hy
    cases hy
  · rw [instr_redirect hl]
    split_ifs
    · exact ⟨by simp [Instr.operands], by simpa [Instr.labelTarget] using hg.target t ht, by simp⟩
    · exact (h.accepts id hid).grow hg
  · rw [instr_redirect hl, if_neg]
    rintro rfl
    exact hno hl

/-- The method with an instruction before the last one of its body. -/
def insertLast (id : InstrId) (x : Method) : Method :=
  { x with body := x.body.pop.push id ++ x.body.back?.toArray }

/-- Adds an instruction before the label that ends a body. -/
def insert (a : Site) (m : MethodId) (i : Instr) : Site :=
  { a with program := (a.program.alloc i).2.modifyMethod m (insertLast a.program.instrs.size) }

lemma method_insert (hm : m < a.program.methods.size) (i : Instr) :
    (a.insert m i).program.method m = insertLast a.program.instrs.size (a.program.method m) :=
  Program.method_modifyMethod_self (p := (a.program.alloc i).2) _ hm

lemma instr_insert (a : Site) (m : MethodId) (i : Instr) (id : InstrId) :
    (a.insert m i).program.instr id = if id = a.program.instrs.size then i else a.program.instr id :=
  Program.instr_alloc _ _ _

/-- What an insertion does to the body. -/
lemma body_insert (hm : m < a.program.methods.size) {before : List InstrId}
    (hbody : (a.program.method m).body.toList = before ++ [l]) (i : Instr) :
    ((a.insert m i).program.method m).body.toList = before ++ [a.program.instrs.size, l] := by
  have hback : (a.program.method m).body.back? = some l := by
    rw [← Array.getLast?_toList, hbody]
    simp
  rw [method_insert hm, insertLast]
  simp [hback, hbody]

lemma Sound.works_insert (h : a.Sound) (hm : m < a.program.methods.size)
    {before : List InstrId} (hbody : (a.program.method m).body.toList = before ++ [l])
    (hi : a.Accepts i) : a.Works m (a.insert m i) := by
  have hself := method_insert hm i
  have hplaced : (a.insert m i).program.placed.Perm
      ([a.program.instrs.size] ++ a.program.placed) := by
    refine Program.placed_modifyMethod (p := (a.program.alloc i).2) hm ?_
    have hb := body_insert hm hbody i
    rw [hself] at hb
    rw [show (a.program.alloc i).2.method m = a.program.method m from rfl, hb, hbody]
    exact List.perm_middle
  have hpromised : (a.insert m i).promised = a.promised := by
    unfold promised
    congr 1
    exact Program.endLabels_modifyMethod fun _ => rfl
  have hnames : (a.insert m i).program.names = a.program.names :=
    Program.names_modifyMethod fun _ => rfl
  have hsize : (a.insert m i).program.instrs.size = a.program.instrs.size + 1 := by
    simp [insert, Program.alloc, Program.modifyMethod]
  have hg : a.Grows (a.insert m i) := by
    refine ⟨SlotTable.Within.refl _, fun t ht => ?_, fun name hn => hnames ▸ hn⟩
    refine ht.imp (fun ht => hplaced.mem_iff.mpr (List.mem_append_right _ ht)) fun ht => ?_
    rwa [hpromised]
  refine ⟨h.extend _ hg h.table h.pool (by omega) ?_ hplaced (List.nodup_singleton _) ?_
    (by rw [hpromised]; exact h.promised_nodup) ?_ ?_ ?_ rfl, hg, .of_size le_rfl, .refl _ _, by omega,
    fun id hid => ?_, fun id hid => ?_, fun id hid _ => ?_, fun _ hx => .inr hx,
    Program.size_modifyMethod _, fun k hk => ?_, ?_, ?_, ?_, fun x hx => ?_, fun hs => ?_⟩
  · intro id hid
    rw [instr_insert, if_neg hid.ne]
  · intro id hid
    rw [List.mem_singleton.mp hid, instr_insert, if_pos rfl]
    refine ⟨?_, fun hmem => lt_irrefl _ (h.placed_lt _ hmem), hi.grow hg⟩
    rw [hsize]
    exact Nat.lt_succ_self _
  · intro x hx
    rw [hpromised] at hx
    refine ⟨fun hmem => ?_, .inl hx⟩
    rw [List.mem_singleton.mp hmem] at hx
    exact lt_irrefl _ (h.waiting _ hx).1
  · exact h.epilogue_modifyMethod (p := (a.program.alloc i).2)
      (f := insertLast a.program.instrs.size) (fun _ => rfl) rfl
  · exact fun id hid hge => absurd hid (Nat.not_lt.mpr hge)
  · exact hplaced.mem_iff.mpr (List.mem_append_right _ hid)
  · obtain ⟨x, hx⟩ := hid
    exact ⟨x, by rw [instr_insert, if_neg (Program.IsJump.lt ⟨x, hx⟩).ne, hx]⟩
  · rw [instr_insert, if_neg hid.ne]
  · exact Program.method_modifyMethod_of_ne (p := (a.program.alloc i).2) _ hk
  · rw [hself]
    rfl
  · rw [hself]
    rfl
  · rw [hself]
    rfl
  · rw [hself]
    exact hx
  · rw [hself]
    exact hs

end Site

/-! ## Methods that are left alone -/

namespace Program

variable {p q r : Program} {j k : MethodId} {code code' : List Line}

/-- The method with its lines is as it was. -/
structure Spares (p : Program) (k : MethodId) (q : Program) : Prop where
  method : q.method k = p.method k
  lines : q.lines k = p.lines k

namespace Spares

lemma refl (p : Program) (k : MethodId) : p.Spares k p := ⟨rfl, rfl⟩

lemma trans (h : p.Spares k q) (h' : q.Spares k r) : p.Spares k r :=
  ⟨h'.method.trans h.method, h'.lines.trans h.lines⟩

/-- The method and the instructions of its body are the same. -/
lemma of_instr (hmethod : q.method k = p.method k)
    (hinstr : ∀ id ∈ (p.method k).body.toList, q.instr id = p.instr id) : p.Spares k q := by
  refine ⟨hmethod, ?_⟩
  unfold Program.lines
  rw [hmethod]
  exact List.map_congr_left fun id hid => line_congr (hinstr id hid)

end Spares

/-- The methods that there were are as they were. -/
structure Stays (p q : Program) : Prop where
  slots : p.slots.Within q.slots
  size_le : p.methods.size ≤ q.methods.size
  instrs_le : p.instrs.size ≤ q.instrs.size
  spares : ∀ j < p.methods.size, p.Spares j q

/-- `p.Leaves k q`: of the methods that there were only `k` may have got another body. -/
structure Leaves (p : Program) (k : MethodId) (q : Program) : Prop where
  slots : p.slots.Within q.slots
  size_le : p.methods.size ≤ q.methods.size
  instrs_le : p.instrs.size ≤ q.instrs.size
  spares : ∀ j < p.methods.size, j ≠ k → p.Spares j q
  name : (q.method k).name = (p.method k).name
  kind : (q.method k).kind = (p.method k).kind
  epilogue : (q.method k).epilogue = (p.method k).epilogue
  ending : ∀ l, (p.method k).endLabel = some l → (q.method k).endLabel = some l

/-- `p.Lengthens k code q`: the method got the lines `code` at its end, and the other methods that
there were are as they were. -/
structure Lengthens (p : Program) (k : MethodId) (code : List Line) (q : Program) : Prop
    extends Leaves p k q where
  body : ∃ new, (q.method k).body.toList = (p.method k).body.toList ++ new ∧
    new.map q.line = code ∧ ∀ id ∈ new, p.instrs.size ≤ id
  lines : q.lines k = p.lines k ++ code

namespace Stays

lemma refl (p : Program) : p.Stays p :=
  ⟨SlotTable.Within.refl _, le_rfl, le_rfl, fun j _ => .refl p j⟩

lemma trans (h : p.Stays q) (h' : q.Stays r) : p.Stays r :=
  ⟨h.slots.trans h'.slots, h.size_le.trans h'.size_le, h.instrs_le.trans h'.instrs_le,
    fun j hj => (h.spares j hj).trans (h'.spares j (hj.trans_le h.size_le))⟩

/-- Work on a method that is new. -/
lemma leaves (h : p.Stays q) (h' : q.Leaves k r) (hk : p.methods.size ≤ k) : p.Stays r := by
  refine ⟨h.slots.trans h'.slots, h.size_le.trans h'.size_le, h.instrs_le.trans h'.instrs_le,
    fun j hj => (h.spares j hj).trans (h'.spares j (hj.trans_le h.size_le) ?_)⟩
  exact (hj.trans_le hk).ne

lemma lengthens (h : p.Stays q) (hk : k < p.methods.size) : p.Lengthens k [] q := by
  have hmethod := (h.spares k hk).method
  refine ⟨⟨h.slots, h.size_le, h.instrs_le, fun j hj _ => h.spares j hj, ?_, ?_, ?_, ?_⟩,
    ⟨[], by simp [hmethod], rfl, by simp⟩, by rw [(h.spares k hk).lines, List.append_nil]⟩
  all_goals rw [hmethod]
  exact fun _ hl => hl

end Stays

/-- `p.SameHead k q`: the method is what it was, but for its body, and it still has its end. -/
structure SameHead (p : Program) (k : MethodId) (q : Program) : Prop where
  name : (q.method k).name = (p.method k).name
  kind : (q.method k).kind = (p.method k).kind
  epilogue : (q.method k).epilogue = (p.method k).epilogue
  ending : ∀ l, (p.method k).endLabel = some l → (q.method k).endLabel = some l

lemma Spares.sameHead (h : p.Spares k q) : p.SameHead k q := by
  constructor
  all_goals rw [h.method]
  exact fun _ hl => hl

namespace Leaves

lemma sameHead (h : p.Leaves k q) (hj : j < p.methods.size) : p.SameHead j q := by
  by_cases hjk : j = k
  · rw [hjk]
    exact ⟨h.name, h.kind, h.epilogue, h.ending⟩
  · exact (h.spares j hj hjk).sameHead

lemma trans (h : p.Leaves k q) (h' : q.Leaves k r) : p.Leaves k r :=
  ⟨h.slots.trans h'.slots, h.size_le.trans h'.size_le, h.instrs_le.trans h'.instrs_le,
    fun j hj hne => (h.spares j hj hne).trans (h'.spares j (hj.trans_le h.size_le) hne),
    h'.name.trans h.name, h'.kind.trans h.kind, h'.epilogue.trans h.epilogue,
    fun l hl => h'.ending l (h.ending l hl)⟩

/-- Work on a method that is the same or new. -/
lemma trans_new (h : p.Leaves k q) (h' : q.Leaves j r) (hk : k < p.methods.size)
    (hj : j = k ∨ p.methods.size ≤ j) : p.Leaves k r := by
  by_cases hjk : j = k
  · exact h.trans (hjk ▸ h')
  have hle := hj.resolve_left hjk
  have hmethod := (h'.spares k (hk.trans_le h.size_le) (Ne.symm hjk)).method
  refine ⟨h.slots.trans h'.slots, h.size_le.trans h'.size_le, h.instrs_le.trans h'.instrs_le,
    fun i hi hne => (h.spares i hi hne).trans (h'.spares i (hi.trans_le h.size_le) ?_), ?_, ?_, ?_, ?_⟩
  · exact (hi.trans_le hle).ne
  all_goals rw [hmethod]
  · exact h.name
  · exact h.kind
  · exact h.epilogue
  · exact h.ending

end Leaves

/-- Work on a method that is new. -/
lemma Lengthens.leaves_new (h : p.Lengthens k code q) (h' : q.Leaves j r) (hk : k < p.methods.size)
    (hj : p.methods.size ≤ j) : p.Lengthens k code r := by
  have hspares := h'.spares k (hk.trans_le h.size_le) (hk.trans_le hj).ne
  refine ⟨h.toLeaves.trans_new h' hk (.inr hj), ?_, hspares.lines.trans h.lines⟩
  obtain ⟨new, hnew, hcode, hge⟩ := h.body
  refine ⟨new, by rw [hspares.method, hnew], ?_, hge⟩
  have hlines := hspares.lines
  unfold Program.lines at hlines
  rw [hspares.method, hnew, List.map_append, List.map_append] at hlines
  rw [(List.append_inj hlines (by simp)).2, hcode]

lemma Lengthens.trans (h : p.Lengthens k code q) (h' : q.Lengthens k code' r) :
    p.Lengthens k (code ++ code') r := by
  obtain ⟨new, hnew, hlines, hge⟩ := h.body
  obtain ⟨new', hnew', hlines', hge'⟩ := h'.body
  refine ⟨h.toLeaves.trans h'.toLeaves, ⟨new ++ new', ?_, ?_, fun id hid => ?_⟩, ?_⟩
  · rw [hnew', hnew, List.append_assoc]
  · -- the lines of the first addition are the same in the last program
    have hrest := h'.lines
    unfold Program.lines at hrest
    rw [hnew', List.map_append, hlines', hnew, List.map_append, List.map_append] at hrest
    have hsame := List.append_cancel_right hrest
    rw [List.map_append, (List.append_inj hsame (by simp)).2, hlines, hlines']
  · rcases List.mem_append.mp hid with hid | hid
    · exact hge id hid
    · exact h.instrs_le.trans (hge' id hid)
  · rw [h'.lines, h.lines, List.append_assoc]

end Program

namespace Site

variable {a b : Site} {m : MethodId} {code : List Line}

/-- Lines that are added where no label waits for its place extend the method. -/
lemma Adds.extension (h : a.Adds m code b) (ha : a.Sound) (hm : m < a.program.methods.size)
    (hlabels : a.labels = []) : a.program.Lengthens m code b.program := by
  refine ⟨⟨h.grows.slots, h.methods.ge, h.size_le, fun k hk hne => ?_, h.name, h.kind, h.epilogue,
    h.ending⟩, ?_, h.lines ha hm⟩
  · exact .of_instr (h.others k hne) fun id hid =>
      h.arena id (ha.body_lt hk hid)
  · obtain ⟨new, hbody, hlines, hplace⟩ := h.body
    refine ⟨new, hbody, hlines, fun id hid => (hplace id hid).elim (fun h => h) fun hid => ?_⟩
    rw [hlabels] at hid
    cases hid

end Site

end TriggerCompiler
