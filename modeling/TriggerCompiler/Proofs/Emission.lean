import Mathlib
import TriggerCompiler.Proofs.Computation
import TriggerCompiler.Proofs.Work

/-!
# Code that computations add

Most computations of the compiler cannot fail and only add lines to the body of the current method.
`Yields` says of such a computation which lines these are and what becomes of the labels that wait
and of the temporaries in use; a sequence of such computations adds the lines of its parts.
-/

namespace TriggerCompiler

variable {l : InstrId} {id : SlotId} {name : String} {code : List Line}

/-- What the lines of the current method are read against. -/
def LowerState.setting (s : LowerState) : Setting := s.program.setting s.method

/-- The state with the program of a site. -/
def LowerState.on (s : LowerState) (a : Site) : LowerState := { s with program := a.program }

namespace Site

variable {a b c : Site}

/-- A sound site whose current method is there. -/
structure Ready (a : Site) (m : MethodId) : Prop where
  sound : a.Sound
  method_lt : m < a.program.methods.size

lemma Works.ready {m : MethodId} (h : a.Works m b) (ha : a.Ready m) : b.Ready m :=
  ⟨h.sound, h.methods ▸ ha.method_lt⟩

/-- The labels that wait and the temporaries in use are the same. -/
structure Keeps (a b : Site) : Prop where
  labels : b.labels = a.labels
  temps : b.temps = a.temps

lemma Keeps.refl (a : Site) : a.Keeps a := ⟨rfl, rfl⟩

lemma Keeps.trans (h : a.Keeps b) (h' : b.Keeps c) : a.Keeps c :=
  ⟨h'.labels.trans h.labels, h'.temps.trans h.temps⟩

end Site

namespace Lower

variable {α β : Type} {s : LowerState} {a b : Site} {x : Lower α} {P Q : α → List Line → Site → Prop}

/-- The computation succeeds and adds lines to the current method; what is said of its result, the
lines and the site that it leaves holds. -/
def Yields (s : LowerState) (a : Site) (x : Lower α) (P : α → List Line → Site → Prop) : Prop :=
  ∃ r code b, x (s.on a) = .ok r (s.on b) ∧ a.Adds s.method code b ∧ P r code b

namespace Yields

lemma pure (ha : a.Ready s.method) {r : α} (h : P r [] a) : Yields s a (pure r) P :=
  ⟨r, [], a, rfl, Site.Adds.refl ha.sound, h⟩

lemma mono (h : Yields s a x P)
    (hPQ : ∀ r code b, a.Adds s.method code b → P r code b → Q r code b) : Yields s a x Q := by
  obtain ⟨r, code, b, hx, hadds, hP⟩ := h
  exact ⟨r, code, b, hx, hadds, hPQ r code b hadds hP⟩

/-- A sequence adds the lines of its parts. -/
lemma bind {f : α → Lower β} {R : β → List Line → Site → Prop} (ha : a.Ready s.method)
    (hx : Yields s a x P)
    (hf : ∀ r code b, a.Adds s.method code b → b.Ready s.method → P r code b →
      Yields s b (f r) fun r' code' c => R r' (code ++ code') c) :
    Yields s a (x >>= f) R := by
  obtain ⟨r, code, b, hx, hadds, hP⟩ := hx
  obtain ⟨r', code', c, hf, hadds', hR⟩ := hf r code b hadds (hadds.ready ha) hP
  exact ⟨r', code ++ code', c, (bind_of_ok hx f).trans hf, hadds.trans hadds' ha.method_lt, hR⟩

/-- A list of computations adds the lines of its members, about which something is known that stays
true as the method is worked on. -/
lemma forM {ι : Type} {f : ι → Lower PUnit} {R : Setting → ι → List Line → Prop} {l : List ι}
    (hR : ∀ e e' i code, e.Within e' → R e i code → R e' i code) (ha : a.Ready s.method)
    (hf : ∀ i ∈ l, ∀ b : Site, b.Ready s.method → a.Grows b → a.Keeps b →
      Yields s b (f i) fun _ code c => R (c.program.setting s.method) i code ∧ b.Keeps c) :
    Yields s a (l.forM f) fun _ code b =>
      (∃ codes, List.Forall₂ (R (b.program.setting s.method)) l codes ∧ code = codes.flatten) ∧
        a.Keeps b := by
  induction l generalizing a with
  | nil => exact Yields.pure ha ⟨⟨[], .nil, rfl⟩, Site.Keeps.refl a⟩
  | cons i l ih =>
    refine Yields.bind ha
      (hf i List.mem_cons_self a ha (Site.Grows.refl a) (Site.Keeps.refl a)) ?_
    rintro ⟨⟩ code b hadds hb ⟨hcode, hkeep⟩
    refine (ih hb fun j hj c hc hg hk => ?_).mono ?_
    · exact hf j (List.mem_cons_of_mem _ hj) c hc (hadds.grows.trans hg) (hkeep.trans hk)
    · rintro ⟨⟩ _ c hadds' ⟨⟨codes, hcodes, rfl⟩, hkeep'⟩
      exact ⟨⟨code :: codes, .cons (hR _ _ _ _ hadds'.setting hcode) hcodes, rfl⟩,
        hkeep.trans hkeep'⟩

end Yields

/-! ## Elementary computations -/

lemma get_yields {f : LowerState → Lower α} (h : Yields s a (f (s.on a)) P) :
    Yields s a (get >>= f) P := h

section

variable (ha : a.Ready s.method)
include ha

lemma slot_yields (id : SlotId) :
    Yields s a (slot id) fun r code b => r = a.program.slots.get id ∧ code = [] ∧ b = a :=
  ⟨_, [], a, rfl, Site.Adds.refl ha.sound, rfl, rfl, rfl⟩

lemma emit_yields {i : Instr} (hi : a.Accepts i) (hnop : i ≠ .nop) :
    Yields s a (emit i) fun _ code b => code = [.code i] ∧ a.Keeps b :=
  ⟨⟨⟩, _, a.emit s.method i, rfl, ha.sound.adds_emit ha.method_lt hi hnop, rfl, rfl, rfl⟩

lemma newLabel_yields :
    Yields s a newLabel fun l code b =>
      code = [] ∧ b.labels = l :: a.labels ∧ b.temps = a.temps :=
  ⟨_, _, a.newLabel, rfl, ha.sound.adds_newLabel, rfl, rfl, rfl⟩

lemma place_yields (hl : l ∈ a.labels) :
    Yields s a (place l) fun _ code b =>
      code = [.label l] ∧ b.labels = a.labels.erase l ∧ b.temps = a.temps ∧
        l ∈ b.program.placed :=
  ⟨⟨⟩, _, a.place s.method l, rfl, ha.sound.adds_place ha.method_lt hl, rfl, rfl, rfl,
    (Site.placed_place ha.method_lt l).mem_iff.mpr List.mem_cons_self⟩

lemma temporary_yields (type : ValueType) :
    Yields s a (temporary type) fun id code b =>
      code = [] ∧ b.labels = a.labels ∧ b.temps = id :: a.temps ∧
        (b.program.slots.get id).type = type ∧ b.program.slots.Spare a.temps id := by
  have ht := SlotTable.requestTemporary_taken ha.sound.table ha.sound.pool type
  exact ⟨_, _, a.temporary type, rfl, Site.Adds.of_slots ht.within
    (SlotTable.requestTemporary_makes _ type) (SlotTable.requestTemporary_accounts _ type _)
    (ha.sound.temporary type), rfl, rfl, rfl, ht.type_eq, ht.spare⟩

lemma release_yields (hid : id ∈ a.temps) :
    Yields s a (release id) fun _ code b =>
      code = [] ∧ b.labels = a.labels ∧ b.temps = a.temps.erase id := by
  have hsound := ha.sound.release hid
  refine ⟨⟨⟩, [], a.release id, rfl, Site.Adds.of_slots ?_ ?_ ?_ hsound, rfl, rfl, rfl⟩
  · exact SlotTable.within_release _ _
  · exact SlotTable.release_makes _ _
  · exact SlotTable.release_accounts (ha.sound.pool.used id hid).2 hid

lemma constant_yields {type : ValueType} {value : Value}
    (hv : ∀ x, value = .address x → ∃ l, x = .instruction l ∧ a.Target l) :
    Yields s a (constant type value) fun id code b =>
      code = [] ∧ a.Keeps b ∧ b.program.slots.IsConstant type value id := by
  have hc := SlotTable.constant_fixed ha.sound.table ha.sound.pool type value
  exact ⟨_, _, a.constant type value, rfl, Site.Adds.of_slots hc.within
    (SlotTable.constant_makes _ type value) (SlotTable.constant_accounts _ type value _)
    (ha.sound.constant hv), rfl, ⟨rfl, rfl⟩, hc.isConstant⟩

lemma this_yields :
    Yields s a this fun id code b =>
      code = [] ∧ a.Keeps b ∧ b.program.slots.IsThis id := by
  have ht := SlotTable.thisSlot_own ha.sound.table ha.sound.pool
  exact ⟨_, _, a.this, rfl, Site.Adds.of_slots ht.within
    (SlotTable.thisSlot_makes _) (SlotTable.thisSlot_accounts _ _) ha.sound.this, rfl, ⟨rfl, rfl⟩,
    ht.isThis⟩

lemma endLabel_yields :
    Yields s a (onProgram (·.endLabel s.method)) fun l code b =>
      code = [] ∧ a.Keeps b ∧ (b.program.method s.method).endLabel = some l :=
  ⟨_, _, a.methodEnd s.method, rfl, ha.sound.adds_methodEnd ha.method_lt, rfl, ⟨rfl, rfl⟩,
    Site.endLabel_methodEnd ha.method_lt⟩

end

/-! ## Instructions in a row -/

lemma push_yields (ha : a.Ready s.method) (hid : id < a.program.slots.size) :
    Yields s a (emit (.push id)) fun _ code b => code = [.code (.push id)] ∧ a.Keeps b :=
  emit_yields ha ⟨by simpa [Instr.operands] using hid, by simp [Instr.labelTarget], by simp⟩ (by simp)

lemma accepts_jump (hl : a.Target l) : a.Accepts (.jump l) :=
  ⟨by simp [Instr.operands], by simpa [Instr.labelTarget] using hl, by simp⟩

lemma jump_yields (ha : a.Ready s.method) (hl : a.Target l) :
    Yields s a (emit (.jump l)) fun _ code b => code = [.code (.jump l)] ∧ a.Keeps b :=
  emit_yields ha (accepts_jump hl) (by simp)

/-- The lines of a copy. -/
def copyLines (source target : SlotId) : List Line :=
  [.code (.push source), .code (.push target), .code .copy]

lemma copy_yields (ha : a.Ready s.method) {source target : SlotId}
    (hs : source < a.program.slots.size) (ht : target < a.program.slots.size) :
    Yields s a (copy source target) fun _ code b =>
      code = copyLines source target ∧ a.Keeps b := by
  refine Yields.bind ha (push_yields ha hs) ?_
  rintro ⟨⟩ _ b hadds hb ⟨rfl, hkeep⟩
  refine Yields.bind hb (push_yields hb (ht.trans_le hadds.grows.slots.size_le)) ?_
  rintro ⟨⟩ _ c - hc ⟨rfl, hkeep'⟩
  refine (emit_yields hc ⟨by simp [Instr.operands], by simp [Instr.labelTarget], by simp⟩
    (by simp)).mono ?_
  rintro ⟨⟩ _ d - ⟨rfl, hkeep''⟩
  exact ⟨rfl, (hkeep.trans hkeep').trans hkeep''⟩

/-- The lines of a jump that is taken if a slot holds false. -/
def branchLines (condition : SlotId) (target : InstrId) : List Line :=
  [.code (.push condition), .code (.jumpIfFalse target)]

lemma jumpIfFalse_yields (ha : a.Ready s.method) {condition : SlotId}
    (hc : condition < a.program.slots.size) (hl : a.Target l) :
    Yields s a (jumpIfFalse condition l) fun _ code b =>
      code = branchLines condition l ∧ a.Keeps b := by
  refine Yields.bind ha (push_yields ha hc) ?_
  rintro ⟨⟩ _ b hadds hb ⟨rfl, hkeep⟩
  refine (emit_yields hb ⟨by simp [Instr.operands],
    by simpa [Instr.labelTarget] using hadds.grows.target l hl, by simp⟩ (by simp)).mono ?_
  rintro ⟨⟩ _ c - ⟨rfl, hkeep'⟩
  exact ⟨rfl, hkeep.trans hkeep'⟩

/-- The lines of a call into the host. -/
def callLines (signature : String) (arguments : List SlotId) : List Line :=
  arguments.map (fun id => .code (.push id)) ++ [.code (.host signature)]

lemma callHost_yields (ha : a.Ready s.method) (signature : String) (arguments : List SlotId)
    (hargs : ∀ id ∈ arguments, id < a.program.slots.size) :
    Yields s a (callHost signature arguments) fun _ code b =>
      code = callLines signature arguments ∧ a.Keeps b := by
  refine Yields.bind ha (Yields.forM (R := fun _ id code => code = [.code (.push id)])
    (fun _ _ _ _ _ h => h) ha fun id hid b hb hg _ =>
      push_yields hb ((hargs id hid).trans_le hg.slots.size_le)) ?_
  rintro ⟨⟩ _ b - hb ⟨⟨codes, hcodes, rfl⟩, hkeep⟩
  have hflat : codes.flatten = arguments.map fun id => Line.code (.push id) := by
    induction hcodes with
    | nil => rfl
    | cons hid _ ih =>
      rw [hid, List.flatten_cons, ih]
      · rfl
      · exact fun id hid => hargs id (List.mem_cons_of_mem _ hid)
  refine (emit_yields hb ⟨by simp [Instr.operands], by simp [Instr.labelTarget], by simp⟩
    (by simp)).mono ?_
  rintro ⟨⟩ _ c - ⟨rfl, hkeep'⟩
  exact ⟨by rw [hflat]; rfl, hkeep.trans hkeep'⟩

/-- The lines that run an exported method through the host. -/
def EventLines (t : SlotTable) (name : String) (code : List Line) : Prop :=
  ∃ self text, t.IsThis self ∧ t.IsConstant .string (.string name) text ∧
    code = callLines HostCall.sendCustomEvent [self, text]

lemma EventLines.within {t u : SlotTable} (h : EventLines t name code) (hw : t.Within u) :
    EventLines u name code := by
  obtain ⟨self, text, hself, htext, rfl⟩ := h
  exact ⟨self, text, hself.within hw, htext.within hw, rfl⟩

lemma sendCustomEvent_yields (ha : a.Ready s.method) (name : String) :
    Yields s a (sendCustomEvent name) fun _ code b =>
      EventLines b.program.slots name code ∧ a.Keeps b := by
  refine Yields.bind ha (this_yields ha) ?_
  rintro self _ b - hb ⟨rfl, hkeep, hself⟩
  refine Yields.bind hb (constant_yields hb (by simp)) ?_
  rintro text _ c hadds hc ⟨rfl, hkeep', htext⟩
  refine (callHost_yields hc HostCall.sendCustomEvent [self, text] ?_).mono ?_
  · simp only [List.mem_cons, List.not_mem_nil, or_false, forall_eq_or_imp, forall_eq]
    exact ⟨(hself.within hadds.grows.slots).lt, htext.lt⟩
  · rintro ⟨⟩ _ d hadds' ⟨rfl, hkeep''⟩
    exact ⟨⟨self, text, (hself.within hadds.grows.slots).within hadds'.grows.slots,
      htext.within hadds'.grows.slots, rfl⟩, (hkeep.trans hkeep').trans hkeep''⟩

/-! ## What follows a write -/

/-- The lines that find out whether a watched slot has changed. -/
def changeLines (type : ValueType) (id shadow changed : SlotId) : List Line :=
  if type.isValueType then callLines (HostCall.inequality type) [id, shadow, changed]
  else callLines HostCall.objectEquals [id, shadow, changed] ++
    callLines HostCall.booleanNegation [changed, changed]

/-- The lines that follow a write to a slot: none, unless the slot is watched. The temporary they use
is none of those in use. -/
def NoticeLines (t : SlotTable) (temps : List SlotId) (id : SlotId) (code : List Line) : Prop :=
  match (t.get id).notifies, (t.get id).shadow with
  | true, some shadow => ∃ changed skip event, t.Spare temps changed ∧
      EventLines t (handlerName (t.get id).name) event ∧
      code = changeLines (t.get id).type id shadow changed ++ branchLines changed skip ++ event ++
        copyLines id shadow ++ [.label skip]
  | _, _ => code = []

lemma NoticeLines.within {t u : SlotTable} {temps : List SlotId} (h : NoticeLines t temps id code)
    (hw : t.Within u) (hid : id < t.size) :
    NoticeLines u temps id code := by
  unfold NoticeLines at h ⊢
  rw [hw.get_eq hid]
  split at h
  · obtain ⟨changed, skip, event, hchanged, hevent, rfl⟩ := h
    exact ⟨changed, skip, event, hchanged.within hw, hevent.within hw, rfl⟩
  · exact h

/-- The lines that follow a write to a slot, in a method that sends the slot if it is to be sent. -/
structure WriteLines (e : Setting) (temps : List SlotId) (id : SlotId) (code : List Line) :
    Prop where
  sends : (e.slots.get id).isSynced = true → e.sends = true
  notice : NoticeLines e.slots temps id code

lemma WriteLines.within {e e' : Setting} {temps : List SlotId} (h : WriteLines e temps id code)
    (hw : e.Within e') (hid : id < e.slots.size) :
    WriteLines e' temps id code where
  sends hsync := hw.sends (h.sends (hw.slots.get_eq hid ▸ hsync))
  notice := h.notice.within hw.slots hid

/-- The part of a write's aftermath that runs the handler of a watched slot. -/
lemma notify_yields (ha : a.Ready s.method) {shadow changed : SlotId}
    (hid : id < a.program.slots.size) (hshadow : shadow < a.program.slots.size)
    (hchanged : changed ∈ a.temps) :
    Yields s a (do
      let skip ← newLabel
      jumpIfFalse changed skip
      sendCustomEvent name
      copy id shadow
      place skip
      release changed) fun _ code b =>
        (∃ skip event, EventLines b.program.slots name event ∧
          code = branchLines changed skip ++ event ++ copyLines id shadow ++ [.label skip]) ∧
        b.labels = a.labels ∧ b.temps = a.temps.erase changed := by
  refine Yields.bind ha (newLabel_yields ha) ?_
  rintro skip _ b hb hb' ⟨rfl, hlabels, htemps⟩
  have hskip : b.Target skip := .inr (List.mem_append_right _ (by simp [hlabels]))
  have hlt : changed < b.program.slots.size := (hb'.sound.pool.used changed (htemps ▸ hchanged)).1
  refine Yields.bind hb' (jumpIfFalse_yields hb' hlt hskip) ?_
  rintro ⟨⟩ _ c hc hc' ⟨rfl, hkeep⟩
  refine Yields.bind hc' (sendCustomEvent_yields hc' name) ?_
  rintro ⟨⟩ event d hd hd' ⟨hevent, hkeep₁⟩
  have hgrow := (hb.grows.slots.trans hc.grows.slots).trans hd.grows.slots
  refine Yields.bind hd' (copy_yields hd' (hid.trans_le hgrow.size_le)
    (hshadow.trans_le hgrow.size_le)) ?_
  rintro ⟨⟩ _ e he he' ⟨rfl, hkeep₂⟩
  have hkeep₃ := (hkeep.trans hkeep₁).trans hkeep₂
  refine Yields.bind he' (place_yields he' (l := skip) (by simp [hkeep₃.labels, hlabels])) ?_
  rintro ⟨⟩ _ f hf hf' ⟨rfl, hlabels', htemps', -⟩
  rw [hkeep₃.temps, htemps] at htemps'
  refine (release_yields hf' (htemps' ▸ hchanged)).mono ?_
  rintro ⟨⟩ _ g hg ⟨rfl, hlabels'', htemps''⟩
  refine ⟨⟨skip, event, ?_, by simp⟩, ?_, by rw [htemps'', htemps']⟩
  · exact ((hevent.within he.grows.slots).within hf.grows.slots).within hg.grows.slots
  · rw [hlabels'', hlabels', hkeep₃.labels, hlabels, List.erase_cons_head]

lemma afterWrite_yields (ha : a.Ready s.method) (hid : id < a.program.slots.size) :
    Yields s a (afterWrite id) fun _ code b =>
      WriteLines (b.program.setting s.method) a.temps id code ∧ a.Keeps b := by
  unfold afterWrite
  refine Yields.bind ha (slot_yields ha id) ?_
  rintro _ _ a - - ⟨rfl, rfl, rfl⟩
  extract_lets notify
  have hnotify : ∀ b : Site, b.Ready s.method → a.Grows b → a.Keeps b →
      Yields s b (notify ()) fun _ code c => NoticeLines c.program.slots a.temps id code ∧
        a.Keeps c := by
    intro b hb hg hkeep
    unfold notify
    have hplain : ∀ c : Site, a.program.slots.Within c.program.slots →
        ¬ ((a.program.slots.get id).notifies = true ∧
          (a.program.slots.get id).shadow.isSome = true) →
        NoticeLines c.program.slots a.temps id [] := by
      intro c hw hno
      unfold NoticeLines
      rw [hw.get_eq hid]
      split
      · rename_i h₁ h₂
        exact absurd ⟨h₁, by simp [h₂]⟩ hno
      · rfl
    cases hn : (a.program.slots.get id).notifies with
    | false => exact Yields.pure hb ⟨hplain b hg.slots (by simp [hn]), hkeep⟩
    | true =>
      cases hs : (a.program.slots.get id).shadow with
      | none => exact Yields.pure hb ⟨hplain b hg.slots (by simp [hs]), hkeep⟩
      | some shadow =>
        have hshadow := (ha.sound.table.shadow id hid shadow hs).1
        refine Yields.bind hb (temporary_yields hb .boolean) ?_
        rintro changed _ c hc hc' ⟨rfl, hlabels, htemps, -, hspare⟩
        rw [hkeep.temps] at hspare
        extract_lets tail
        have hgc := hg.slots.trans hc.grows.slots
        -- the rest is the same whichever way the change was found
        have htail : ∀ (d : Site) (test : List Line), d.Ready s.method → c.Grows d → c.Keeps d →
            test = changeLines (a.program.slots.get id).type id shadow changed →
            Yields s d (tail ()) fun _ code e =>
              NoticeLines e.program.slots a.temps id (test ++ code) ∧ a.Keeps e := by
          intro d test hd hgd hkd htest
          have hgd' := hgc.trans hgd.slots
          have hmem' : changed ∈ d.temps := by simp [hkd.temps, htemps]
          refine (notify_yields hd (hid.trans_le hgd'.size_le) (hshadow.trans_le hgd'.size_le)
            hmem').mono ?_
          rintro ⟨⟩ _ e he ⟨⟨skip, event, hevent, rfl⟩, hlabels', htemps'⟩
          refine ⟨?_, ?_, ?_⟩
          · unfold NoticeLines
            have hge := hgd'.trans he.grows.slots
            have hce := hgd.slots.trans he.grows.slots
            rw [hge.get_eq hid, hn, hs]
            exact ⟨changed, skip, event, hspare.within hce, hevent, by simp [htest]⟩
          · rw [hlabels', hkd.labels, hlabels, hkeep.labels]
          · rw [htemps', hkd.temps, htemps, List.erase_cons_head, hkeep.temps]
        have hargs : ∀ x ∈ [id, shadow, changed], x < c.program.slots.size := by
          simp only [List.mem_cons, List.not_mem_nil, or_false, forall_eq_or_imp, forall_eq]
          exact ⟨hid.trans_le hgc.size_le, hshadow.trans_le hgc.size_le, hspare.lt⟩
        split_ifs with htype
        · refine Yields.bind hc' (callHost_yields hc' _ _ hargs) ?_
          rintro ⟨⟩ _ d hd hd' ⟨rfl, hkd⟩
          refine htail d _ hd' hd.grows hkd ?_
          rw [changeLines, if_pos htype]
        · refine Yields.bind hc' (callHost_yields hc' _ _ hargs) ?_
          rintro ⟨⟩ _ d hd hd' ⟨rfl, hkd⟩
          refine Yields.bind hd' (callHost_yields hd' _ [changed, changed] ?_) ?_
          · simp [hspare.lt.trans_le hd.grows.slots.size_le]
          · rintro ⟨⟩ _ e he he' ⟨rfl, hke⟩
            refine (htail e _ he' (hd.grows.trans he.grows) (hkd.trans hke) rfl).mono ?_
            rintro ⟨⟩ _ f - h
            rw [changeLines, if_neg htype] at h
            simpa using h
  split_ifs with hsync
  · refine get_yields (Yields.bind ha (P := fun _ code b => code = [] ∧ b = a.serialize s.method)
      ⟨⟨⟩, _, _, rfl, ha.sound.adds_serialize ha.method_lt, rfl, rfl⟩ ?_)
    rintro ⟨⟩ _ _ hadds hb ⟨rfl, rfl⟩
    refine (hnotify _ hb hadds.grows ⟨rfl, rfl⟩).mono ?_
    rintro ⟨⟩ code c hc ⟨hnotice, hkeep⟩
    exact ⟨⟨fun _ => hc.serializes (Site.serializes_serialize ha.method_lt), hnotice⟩, hkeep⟩
  · refine (hnotify a ha (Site.Grows.refl a) (Site.Keeps.refl a)).mono ?_
    rintro ⟨⟩ code c hc ⟨hnotice, hkeep⟩
    refine ⟨⟨fun hs => absurd ?_ hsync, hnotice⟩, hkeep⟩
    rwa [Program.setting, hc.grows.slots.get_eq hid] at hs

/-! ## Calls of methods -/

/-- The lines of a call: the address of the label after the jump goes into the return slot. -/
def MethodLines (t : SlotTable) (name : String) (returnSlot : SlotId) (code : List Line) : Prop :=
  ∃ back address, t.IsConstant .uint32 (.address (.instruction back)) address ∧
    code = copyLines address returnSlot ++ [.code (.jumpMethod name), .label back]

lemma callMethod_yields (ha : a.Ready s.method) {returnSlot : SlotId}
    (hname : name ∈ a.program.names) (hslot : returnSlot < a.program.slots.size) :
    Yields s a (callMethod name returnSlot) fun _ code b =>
      MethodLines b.program.slots name returnSlot code ∧ a.Keeps b := by
  refine Yields.bind ha (newLabel_yields ha) ?_
  rintro back _ b hb hb' ⟨rfl, hlabels, htemps⟩
  have hback : b.Target back := .inr (List.mem_append_right _ (by simp [hlabels]))
  refine Yields.bind hb' (constant_yields hb' fun x hx => ?_) ?_
  · cases hx
    exact ⟨back, rfl, hback⟩
  rintro address _ c hc hc' ⟨rfl, hkeep, haddress⟩
  have hgrow := hb.grows.trans hc.grows
  refine Yields.bind hc' (copy_yields hc' haddress.lt (hslot.trans_le hgrow.slots.size_le)) ?_
  rintro ⟨⟩ _ d hd hd' ⟨rfl, hkeep₁⟩
  refine Yields.bind hd' (emit_yields hd' (i := .jumpMethod name)
    ⟨by simp [Instr.operands], by simp [Instr.labelTarget], ?_⟩ (by simp)) ?_
  · rintro _ ⟨⟩
    exact hd.grows.names name (hgrow.names name hname)
  rintro ⟨⟩ _ e he he' ⟨rfl, hkeep₂⟩
  have hkeep₃ := (hkeep.trans hkeep₁).trans hkeep₂
  refine (place_yields he' (l := back) (by simp [hkeep₃.labels, hlabels])).mono ?_
  rintro ⟨⟩ _ f hf ⟨rfl, hlabels', htemps', -⟩
  refine ⟨⟨back, address, ?_, by simp⟩, ?_, ?_⟩
  · exact ((haddress.within hd.grows.slots).within he.grows.slots).within hf.grows.slots
  · rw [hlabels', hkeep₃.labels, hlabels, List.erase_cons_head]
  · rw [htemps', hkeep₃.temps, htemps]

end Lower

end TriggerCompiler
