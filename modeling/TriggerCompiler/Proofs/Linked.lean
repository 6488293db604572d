import Mathlib
import TriggerCompiler.Proofs.Finished
import TriggerCompiler.Proofs.MergedPhrases
import TriggerCompiler.Proofs.Spelling
import TriggerCompiler.Proofs.Stack

/-!
# Linked code

Linking adds to each body its end, and it gives numbers to addresses. The instructions of a linked
program still find on the stack what they take, and they jump only within their method.
-/

namespace TriggerCompiler

variable {id : SlotId}

open Lower

namespace Program

variable {p q f : Program} {R : Rules} {options : CompileOptions} {m k : MethodId}

/-- The instructions of a body. -/
def bodyCode (p : Program) (k : MethodId) : List Instr := (p.method k).body.toList.map p.instr

lemma bodyCode_eq (p : Program) (k : MethodId) : p.bodyCode k = (p.lines k).map Line.instr := by
  unfold bodyCode lines
  rw [List.map_map]
  exact List.map_congr_left fun id _ => (p.instr_line id).symm

namespace Finished

variable (h : p.Finished options f)

include h

lemma method_epilogue (hk : k < p.methods.size) :
    (f.method k).epilogue = (p.method k).epilogue ∧ (f.method k).name = (p.method k).name := by
  obtain ⟨new, -, hmethod, -⟩ := h.finished k hk
  rw [hmethod]
  exact ⟨rfl, rfl⟩

lemma method_kind (hk : k < p.methods.size) : (f.method k).kind = (p.method k).kind := by
  obtain ⟨new, -, hmethod, -⟩ := h.finished k hk
  rw [hmethod]

lemma returns {slot : SlotId} (hr : f.Returns slot) : p.Returns slot := by
  obtain ⟨x, hx, hepilogue⟩ := hr
  obtain ⟨k, hk, rfl⟩ := exists_method_of_mem hx
  have hk' : k < p.methods.size := h.size ▸ hk
  exact ⟨_, method_mem hk', (h.method_epilogue hk').1 ▸ hepilogue⟩

lemma callee {name : String} {slot : SlotId} (hc : p.Callee name slot) : f.Callee name slot := by
  obtain ⟨x, hx, rfl, hepilogue⟩ := hc
  obtain ⟨k, hk, rfl⟩ := exists_method_of_mem hx
  obtain ⟨hsame, hname⟩ := h.method_epilogue hk
  exact ⟨_, method_mem (h.size.symm ▸ hk), hname, hsame.trans hepilogue⟩

lemma hasEntry {name : String} (hentry : p.HasEntry name) : f.HasEntry name := by
  obtain ⟨x, hx, rfl, hkind⟩ := hentry
  obtain ⟨k, hk, rfl⟩ := exists_method_of_mem hx
  exact ⟨_, method_mem (h.size.symm ▸ hk), (h.method_epilogue hk).2, (h.method_kind hk).trans hkind⟩

lemma enlarges : p.Enlarges f :=
  ⟨h.slots, fun _ hr => .inl (h.returns hr), fun _ _ hc => h.callee hc, fun _ he => h.hasEntry he,
    fun id hge hlt => (h.sound.plain id hlt (h.makes id hge hlt).kind).2.1⟩

/-- The labels of a method have their places once it is finished. -/
lemma label (hk : k < p.methods.size) {l : InstrId} (hl : p.Own k l) : f.Label k l := by
  obtain ⟨new, sync, hmethod, -, hcode⟩ := h.finished k hk
  have hbody : (f.method k).body.toList = (p.method k).body.toList ++ new := by
    rw [hmethod]
    simp
  rcases hl with hl | hl
  · have hlt := h.rooted.placed_lt l (mem_placed_of_mem_body hk hl.mem)
    refine ⟨?_, (h.arena l hlt).trans hl.nop⟩
    rw [hbody]
    exact List.mem_append_left _ hl.mem
  · have hmem : Line.label l ∈ new.map f.line := by
      rw [hcode, hl]
      simp
    obtain ⟨id, hid, hline⟩ := List.mem_map.mp hmem
    obtain ⟨hnop, rfl⟩ := line_eq_label.mp hline
    refine ⟨?_, hnop⟩
    rw [hbody]
    exact List.mem_append_right _ hid

lemma serializes (hk : k < p.methods.size) :
    (f.method k).serializes = (p.method k).serializes := by
  obtain ⟨new, -, hmethod, -⟩ := h.finished k hk
  rw [hmethod]

/-- A finished body is the body, its end and the instruction that leaves the method. -/
lemma lines_eq (hk : k < p.methods.size) :
    ∃ sync, SyncLines (options.autoSerialize && (p.method k).serializes) f.slots sync ∧
      f.lines k = p.lines k ++ ((p.method k).endLabel.toList.map .label ++ sync ++
        [.code (Epilogue.instr (p.method k).epilogue)]) := by
  obtain ⟨new, sync, hmethod, hsync, hcode⟩ := h.finished k hk
  refine ⟨sync, hsync, ?_⟩
  rw [← hcode]
  unfold lines
  rw [hmethod]
  simp only [Array.toList_append, List.map_append]
  congr 1
  exact List.map_congr_left fun id hid =>
    line_congr (h.arena id (h.rooted.placed_lt id (mem_placed_of_mem_body hk hid)))

lemma tidy (hp : p.Tidy) : f.Tidy :=
  hp.enlarge h.enlarges h.makes fun _ hr => h.returns hr

/-- The lines of a finished method find on the stack what they take. -/
lemma along (hp : p.Orderly R) (hR : R.calls HostCall.requestSerialization [false])
    (hk : k < p.methods.size) :
    Along (f.terms R.free k (f.Label k)).Proper [] (f.lines k) [] := by
  have hspells : Spells (f.terms R.free k (f.Label k)) (p.lines k) :=
    (hp.spelled k hk).mono (h.enlarges.terms_le R.free (fun hs => h.serializes hk ▸ hs)
      fun l hl => h.label hk hl)
  have hend : Spells (f.terms R.free k (f.Label k)) ((p.method k).endLabel.toList.map .label) := by
    cases (p.method k).endLabel with
    | none => exact Spells.nil
    | some l => exact Spells.label l
  obtain ⟨sync, hsync, hlines⟩ := h.lines_eq hk
  have hcall : Spells (f.terms R.free k (f.Label k)) sync := by
    rcases hsync.cases with rfl | ⟨self, hself, rfl⟩
    · exact Spells.nil
    · apply Spells.call [false] rfl (Terms.allows_of_silent hR (by decide) _)
      · simpa [terms] using (h.tidy hp.tidy).of_isThis h.sound hself
      · simp
  have hbody := hspells.append (hend.append hcall)
  rw [hlines, ← List.append_assoc]
  apply Along.append
  · exact hbody.along rfl
  · have hheld := hbody.held_eq (show held [] = [] from rfl)
    cases (p.method k).epilogue with
    | halt => exact Along.single ⟨hheld, rfl⟩
    | indirect slot => exact Along.single ⟨hheld, rfl⟩

end Finished

/-! ## Numbers for addresses -/

/-- Only what a slot holds at the start can change. -/
lemma resolveSlot_eq_ok {x y : Slot} (h : q.resolveSlot x = .ok y) :
    ∃ initial, y = { x with initial } := by
  unfold resolveSlot at h
  split at h
  · rename_i target hx
    cases hn : q.resolveAddress target with
    | error kind =>
      rw [hn] at h
      cases h
    | ok n =>
      rw [hn] at h
      exact ⟨_, (Except.ok.inj h).symm⟩
  · exact ⟨_, (Except.ok.inj h).symm⟩

namespace Links

variable (h : p.Links options q)

include h

lemma size_slots : q.slots.size = (p.finishMethods options).slots.size := by
  have hlength := h.slots.length_eq
  simpa [SlotTable.size] using hlength.symm

/-- A slot of the linked program is that of the program, but for an address that got its number. -/
lemma resolved (hid : id < q.slots.size) :
    q.resolveSlot ((p.finishMethods options).slots.get id) = .ok (q.slots.get id) := by
  have hid' : id < (p.finishMethods options).slots.size := h.size_slots ▸ hid
  have hold := SlotTable.slots_getElem? hid'
  have hnew := SlotTable.slots_getElem? hid
  obtain ⟨hlt, hget⟩ := List.getElem?_eq_some_iff.mp hold
  obtain ⟨hlt', hget'⟩ := List.getElem?_eq_some_iff.mp hnew
  have hslot := h.slots.get hlt hlt'
  simp only [List.get_eq_getElem] at hslot
  rwa [hget, hget'] at hslot

lemma slot_eq (hid : id < q.slots.size) : ∃ initial,
    q.slots.get id = { (p.finishMethods options).slots.get id with initial } :=
  resolveSlot_eq_ok (h.resolved hid)

end Links

/-- The second program is the first with addresses, and the code of the first is in order. -/
structure Ready (R : Rules) (f q : Program) : Prop where
  methods : q.methods = f.methods
  instrs : q.instrs = f.instrs
  laid : q.Laid
  slots : q.slots.size = f.slots.size
  resolved : ∀ id < q.slots.size, q.resolveSlot (f.slots.get id) = .ok (q.slots.get id)
  tidy : f.Tidy
  sound : f.slots.Sound
  along : ∀ k < f.methods.size, Along (f.terms R.free k (f.Label k)).Proper [] (f.lines k) []
  ends : ∀ k < f.methods.size, ∃ body,
    f.lines k = body ++ [.code (Epilogue.instr (f.method k).epilogue)]

/-- What linking makes of an orderly program. -/
lemma Links.ready (h : p.Links options q) (hp : p.Orderly R)
    (hR : R.calls HostCall.requestSerialization [false]) (hsite : (⟨p, [], []⟩ : Site).Sound) :
    Ready R (p.finishMethods options) q := by
  have hf := finishMethods_finished options hsite
  refine
    { methods := h.methods, instrs := h.instrs, laid := h.address, slots := h.size_slots,
      resolved := fun id hid => h.resolved hid, tidy := hf.tidy hp.tidy, sound := hf.sound,
      along := fun k hk => hf.along hp hR (hf.size ▸ hk), ends := ?_ }
  intro k hk
  have hk' : k < p.methods.size := hf.size ▸ hk
  obtain ⟨sync, -, hlines⟩ := hf.lines_eq hk'
  rw [hlines, (hf.method_epilogue hk').1, ← List.append_assoc]
  exact ⟨_, rfl⟩

namespace Ready

variable (h : Ready R f q)

include h

lemma method (k : MethodId) : q.method k = f.method k := by
  unfold Program.method
  rw [h.methods]

lemma instr (id : InstrId) : q.instr id = f.instr id := by
  unfold Program.instr
  rw [h.instrs]

lemma lines (k : MethodId) : q.lines k = f.lines k := by
  unfold Program.lines
  rw [h.method]
  exact List.map_congr_left fun id _ => line_congr (h.instr id)

lemma ended : q.Ended := by
  intro k hk
  rw [h.methods] at hk
  obtain ⟨body, hlines⟩ := h.ends k hk
  refine ⟨body, _, (h.lines k).trans hlines, ?_⟩
  cases (f.method k).epilogue with
  | halt => simp [Epilogue.instr]
  | indirect slot => simp [Epilogue.instr]

lemma slot_eq (hid : id < q.slots.size) : ∃ initial,
    q.slots.get id = { f.slots.get id with initial } :=
  resolveSlot_eq_ok (h.resolved id hid)

/-- A slot that stands for no address stays as it is. -/
lemma slot_of_ne (hid : id < q.slots.size) (hno : ∀ x, (f.slots.get id).initial ≠ some (.address x)) :
    q.slots.get id = f.slots.get id := by
  have hslot := h.resolved id hid
  unfold resolveSlot at hslot
  split at hslot
  · rename_i x hx
    exact absurd hx (hno x)
  · exact (Except.ok.inj hslot).symm

/-- The line in its place finds what it takes. -/
lemma proper {before after : List Line} {x : Line} {position : Nat}
    (hat : q.At k before x after position) :
    (f.terms R.free k (f.Label k)).Proper before x after := by
  have hlines := hat.lines
  rw [h.lines] at hlines
  have hx := (h.along k (h.methods ▸ hat.lt)).each before x after hlines
  simpa using hx

/-- A label of a method has its place there, and its address is the size of what stands before. -/
lemma label {l : InstrId} (hk : k < q.methods.size) (hl : f.Label k l) :
    ∃ before after position, q.At k before (.label l) after position ∧
      q.address? l = some (q.offset position) := by
  have hbody : (f.method k).body = (q.method k).body := by rw [h.method]
  obtain ⟨o, ho⟩ := List.mem_iff_getElem?.mp (hbody ▸ hl.mem)
  have hline : (q.lines k)[o]? = some (.label l) := by
    unfold Program.lines
    rw [List.getElem?_map, ho, Option.map_some, line_eq_label.mpr ⟨(h.instr l).trans hl.nop, rfl⟩]
  obtain ⟨hlt, hget⟩ := List.getElem?_eq_some_iff.mp hline
  have hat := At.of_lt hk hlt
  rw [hget] at hat
  exact ⟨_, _, _, hat, h.laid _ _ (placed_start hk ho)⟩

end Ready

end Program

end TriggerCompiler
