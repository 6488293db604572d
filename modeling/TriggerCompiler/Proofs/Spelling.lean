import Mathlib
import TriggerCompiler.Proofs.Phrases

/-!
# Spelling

The lines that each construct adds are phrases. What they use are the slots that the construct was
given, slots that the compiler took for them, and labels among the lines or of open blocks.
-/

namespace TriggerCompiler

variable {signature : String} {id : SlotId}

/-- The calls into the host that the compiler makes on its own in a body, but for the one that tells
of a change. -/
inductive OwnCall : String → List Bool → Prop where
  | differs {type : ValueType} (value : type.isValueType = true) :
      OwnCall (HostCall.inequality type) [false, false, true]
  | equals : OwnCall HostCall.objectEquals [false, false, true]
  | negation : OwnCall HostCall.booleanNegation [false, true]
  | comparison {op : String} (known : op ∈ ["LessThan", "GreaterThan", "GreaterThanOrEqual"]) :
      OwnCall (HostCall.intComparison op) [false, false, true]
  | addition : OwnCall (HostCall.intOperator "Addition") [false, false, true]
  | isOwner : OwnCall HostCall.isOwner [false, true]
  | isMaster : OwnCall HostCall.isMaster [true]
  | network : OwnCall HostCall.sendCustomNetworkEvent [false, false, false]
  | delayed : OwnCall HostCall.sendCustomEventDelayed [false, false, false, false]

/-- A call that writes a result sends no event. -/
lemma OwnCall.silent {flags : List Bool} (h : OwnCall signature flags) (hwrites : true ∈ flags) :
    ¬ HostCall.Sends signature := by
  cases h with
  | differs value => exact HostCall.not_sends_inequality value
  | comparison known =>
    simp only [List.mem_cons, List.not_mem_nil, or_false] at known
    rcases known with rfl | rfl | rfl
    all_goals decide
  | equals | negation | addition | isOwner | isMaster => decide
  | network | delayed => simp at hwrites

/-- The rules know the compiler's own calls. -/
def Rules.Covers (R : Rules) : Prop := ∀ signature flags, OwnCall signature flags → R.calls signature flags

/-- Which parameters an action writes. -/
def ActionDef.flags (d : ActionDef) : List Bool := d.parameters.map (·.direction.writes)

/-- At most the last parameter is written, and none if there are targets. -/
structure ActionDef.OneResult (d : ActionDef) : Prop where
  last : ∃ n, d.flags = List.replicate n false ∨ d.flags = List.replicate n false ++ [true]
  targets : d.manyTargets = true → true ∉ d.flags

/-- The rules know the calls that the action can be. -/
structure ActionDef.Known (R : Rules) (d : ActionDef) : Prop where
  calls : ∀ signature onType, d.kind = .host signature onType →
    ((onType = none ∨ d.manyTargets = false ∨
      ∃ type, onType = some type ∧ type.isValueType = true) → R.calls signature d.flags) ∧
    (onType.isSome = true → d.manyTargets = true → R.calls signature (false :: d.flags))
  oneResult : ∀ signature onType, d.kind = .host signature onType → d.OneResult
  silent : ∀ signature onType, d.kind = .host signature onType → ¬ HostCall.Sends signature

/-- An action that is no call into the host is known to all rules. -/
lemma ActionDef.known_of_ne {R : Rules} {d : ActionDef}
    (h : ∀ signature onType, d.kind ≠ .host signature onType) : d.Known R where
  calls signature onType hkind := absurd hkind (h signature onType)
  oneResult signature onType hkind := absurd hkind (h signature onType)
  silent signature onType hkind := absurd hkind (h signature onType)

open Lower

namespace Program

variable {p : Program} {R : Rules} {k : MethodId} {target : InstrId → Prop} {temps : List SlotId}
  {code : List Line}

/-- Any method may write a slot that is open. -/
lemma Open.writes (h : p.Open id) : (p.terms R k target).writable id :=
  ⟨fun _ => h.toPlain, h.sends k⟩

/-- An operator whose result goes to a slot that may be written. -/
lemma spells_operator (hR : R.Covers) (hcall : OwnCall signature [false, false, true])
    {a b c : SlotId} (ha : p.Clean a) (hb : p.Clean b) (hc : p.Open c) :
    Spells (p.terms R k target) (callLines signature [a, b, c]) := by
  refine Spells.call [false, false, true] rfl
    (Terms.allows_of_silent (hR _ _ hcall) (hcall.silent (by simp)) _) ?_ ?_
  · simpa using ⟨ha, hb, hc.clean⟩
  · simpa using hc.writes

lemma spells_negation (hR : R.Covers) {a b : SlotId} (ha : p.Clean a) (hb : p.Open b) :
    Spells (p.terms R k target) (callLines HostCall.booleanNegation [a, b]) := by
  refine Spells.call [false, true] rfl
    (Terms.allows_of_silent (hR _ _ .negation) HostCall.not_sends_negation _) ?_ ?_
  · simpa using ⟨ha, hb.clean⟩
  · simpa using hb.writes

lemma spells_copy {source goal : SlotId} (hsource : p.Clean source) (hgoal : p.Open goal) :
    Spells (p.terms R k target) (copyLines source goal) :=
  Spells.copy hsource hgoal.clean hgoal.writes

/-- The call of a method. -/
lemma spells_method {name : String} {slot : SlotId} (h : MethodLines p.slots name slot code)
    (hc : p.Callee name slot) (hcallable : R.callable name) : Spells (p.terms R k target) code := by
  obtain ⟨back, address, haddress, rfl⟩ := h
  exact Spells.phrase (x := .invoke address slot name back) ⟨haddress, hc, hcallable⟩

section

variable (hp : p.Tidy) (ht : p.slots.Sound) (hR : R.Covers)

include hp ht hR

section

variable (h : WriteLines (p.setting k) temps id code)
include h

/-- What follows a write: nothing, or the lines that tell of the change of a watched variable. -/
lemma write_cases (hid : p.Clean id) (hlabels : ∀ l, .label l ∈ code → target l) :
    (code = [] ∧ p.Quiet id) ∨
      ∃ w : Watch, w.id = id ∧ code = w.lines ∧ w.Fits (p.terms R k target) := by
  obtain ⟨hsends, h⟩ : p.Sends k id ∧ NoticeLines p.slots temps id code := ⟨h.sends, h.notice⟩
  unfold NoticeLines at h
  split at h
  · rename_i shadow hnotifies hshadow
    obtain ⟨changed, skip, event, hchanged, ⟨self, text, hself, htext, rfl⟩, rfl⟩ := h
    have hshadow' := hp.of_shadow ht hid.lt hshadow
    have hchanged' := hp.of_spare ht hchanged
    have hkind : (p.slots.get id).kind = .user := by
      by_contra hkind
      have hno := (ht.plain id hid.lt hkind).1
      rw [hnotifies] at hno
      cases hno
    refine .inr ⟨⟨(p.slots.get id).type, id, shadow, changed, skip, self, text⟩, rfl, rfl, ?_⟩
    refine ⟨⟨⟨hkind, hnotifies, rfl, hshadow, hchanged.kind, hself, htext⟩, hsends⟩, fun x hx => ?_,
      fun x hx => ?_, hlabels skip (by simp), fun htype => hR _ _ (.differs htype),
      hR _ _ .equals, hR _ _ .negation⟩
    · simp only [List.mem_cons, List.not_mem_nil, or_false] at hx
      rcases hx with rfl | rfl | rfl | rfl | rfl
      · exact hid
      · exact hshadow'.clean
      · exact hchanged'.clean
      · exact hp.of_isThis ht hself
      · exact hp.of_isConstant htext (by simp)
    · simp only [List.mem_cons, List.not_mem_nil, or_false] at hx
      rcases hx with rfl | rfl
      · exact hshadow'.writes
      · exact hchanged'.writes
  · rename_i hnot
    refine .inl ⟨h, ?_⟩
    cases hnotifies : (p.slots.get id).notifies with
    | false => exact .inl hnotifies
    | true =>
      cases hshadow : (p.slots.get id).shadow with
      | none => exact .inr hshadow
      | some shadow => exact absurd hshadow (hnot shadow hnotifies)

/-- A copy, and what follows the write. -/
lemma spells_update {source : SlotId} (hsource : p.Clean source) (hid : p.Clean id)
    (hw : R.strict → p.Writable id) (hlabels : ∀ l, .label l ∈ code → target l) :
    Spells (p.terms R k target) (copyLines source id ++ code) := by
  rcases write_cases hp ht hR h hid hlabels with ⟨rfl, hquiet⟩ | ⟨w, rfl, rfl, hw⟩
  · rw [List.append_nil]
    exact Spells.copy hsource hid ⟨fun hs => ⟨hid, hw hs, hquiet⟩, h.sends⟩
  · exact Spells.phrase (x := .update source w) ⟨hsource, hw⟩

/-- A call with one result, and what follows the write of it. -/
lemma spells_compute {arguments : List SlotId}
    (hcall : R.calls signature (List.replicate arguments.length false ++ [true]))
    (hsilent : ¬ HostCall.Sends signature) (harguments : ∀ x ∈ arguments, p.Clean x)
    (hid : p.Clean id) (hw : R.strict → p.Writable id) (hlabels : ∀ l, .label l ∈ code → target l) :
    Spells (p.terms R k target) (callLines signature (arguments ++ [id]) ++ code) := by
  have hallows : (p.terms R k target).Allows signature (arguments ++ [id])
      (List.replicate arguments.length false ++ [true]) := Terms.allows_of_silent hcall hsilent _
  rcases write_cases hp ht hR h hid hlabels with ⟨rfl, hquiet⟩ | ⟨w, rfl, rfl, hw⟩
  · rw [List.append_nil]
    refine Spells.call _ (by simp) hallows ?_ ?_
    · intro x hx
      rcases List.mem_append.mp hx with hx | hx
      · exact harguments x hx
      · rw [List.mem_singleton.mp hx]
        exact hid
    · intro x hx hflag
      rw [List.zip_append (by simp)] at hx
      rcases List.mem_append.mp hx with hx | hx
      · rw [List.eq_of_mem_replicate (List.of_mem_zip hx).2] at hflag
        cases hflag
      · rw [List.mem_singleton.mp hx]
        exact ⟨fun hs => ⟨hid, hw hs, hquiet⟩, h.sends⟩
  · exact Spells.phrase (x := .compute signature arguments w) ⟨hallows, harguments, hw⟩

end

lemma spells_assign {value goal : SlotId} (h : AssignLines (p.setting k) temps value goal code)
    (hvalue : p.Clean value) (hgoal : p.Clean goal) (hw : R.strict → p.Writable goal)
    (hlabels : ∀ l, .label l ∈ code → target l) : Spells (p.terms R k target) code := by
  obtain ⟨write, hwrite, rfl⟩ := h
  refine spells_update hp ht hR hwrite hvalue hgoal hw fun l hl => ?_
  exact hlabels l (List.mem_append_right _ hl)

/-- The check of a counting loop. -/
lemma spells_test {index bound upwards : SlotId} {leave : InstrId}
    (h : TestLines p.slots temps index bound upwards leave code) (hindex : p.Clean index)
    (hbound : p.Clean bound) (hup : p.Clean upwards) (hleave : target leave)
    (hlabels : ∀ l, .label l ∈ code → target l) : Spells (p.terms R k target) code := by
  obtain ⟨inside, downwards, test, hinside, rfl⟩ := h
  have hin := hp.of_spare ht hinside
  have hdown : target downwards := hlabels _ (by simp)
  have htest : target test := hlabels _ (by simp)
  refine (((((Spells.branch hup hdown).append ?_).append ?_).append ?_).append
    (Spells.label test)).append (Spells.branch hin.clean hleave)
  · exact spells_operator hR (.comparison (by simp)) hindex hbound hin
  · exact (Spells.jump htest).append (Spells.label downwards)
  · exact spells_operator hR (.comparison (by simp)) hindex hbound hin

/-- The lines in front of the items of a counting loop. -/
lemma spells_loop {start bound step index : SlotId} {c : LoopSlots} {again leave : InstrId}
    (h : LoopLines (p.setting k) temps start bound step index c again leave code)
    (hstart : p.Clean start) (hbound : p.Clean bound) (hstep : p.Clean step)
    (hindex : p.Clean index) (hw : R.strict → p.Writable index)
    (hslots : ∀ x ∈ c.toList, p.Open x) (hleave : target leave)
    (hlabels : ∀ l, .label l ∈ code → target l) : Spells (p.terms R k target) code := by
  obtain ⟨write, nought, check, next, hwrite, hnought, ⟨write', test, hwrite', htest, rfl⟩, rfl⟩ := h
  obtain ⟨hs, hb, hu⟩ : p.Open c.step ∧ p.Open c.bound ∧ p.Open c.upwards := by
    simpa [LoopSlots.toList] using hslots
  have hzero : p.Clean nought := hp.of_isConstant hnought (by simp)
  have hadd : Spells (p.terms R k target)
      (callLines (HostCall.intOperator "Addition") [index, c.step, index] ++ write') := by
    have hcall : R.calls (HostCall.intOperator "Addition")
        (List.replicate [index, c.step].length false ++ [true]) := hR _ _ .addition
    refine spells_compute hp ht hR hwrite' hcall (OwnCall.addition.silent (by simp)) ?_ hindex hw
      fun l hl => hlabels l (by simp [hl])
    simpa using ⟨hindex, hs.clean⟩
  have hagain := ((((Spells.label (v := p.terms R k target) again).append hadd).append
    (Spells.label check))).append
    (spells_test hp ht hR htest hindex hb.clean hu.clean hleave fun l hl => hlabels l (by simp [hl]))
  refine Spells.append ((((Spells.append ?_ ?_).append ?_).append ?_).append ?_) ?_
  · exact spells_update hp ht hR hwrite hstart hindex hw fun l hl => hlabels l (by simp [hl])
  · exact spells_copy hbound hb
  · exact spells_copy hstep hs
  · exact spells_operator hR (.comparison (by simp)) hs.clean hzero hu
  · exact Spells.jump (hlabels check (by simp))
  · simpa only [List.append_assoc] using hagain

/-- The call of a group's action. -/
lemma spells_group {inputs : List (String × SlotId)} {entry : MergedEntry}
    {arguments : List SlotId} (h : GroupLines (p.setting k) temps inputs entry arguments code)
    (hc : p.Callee entry.method entry.returnSlot) (hcallable : R.callable entry.method)
    (hparameters : ∀ x ∈ entry.parameters, p.Open x.2) (hslots : ∀ x ∈ entry.eventSlots, p.Open x.2)
    (hinputs : ∀ x ∈ inputs, p.Clean x.2) (harguments : ∀ x ∈ arguments, p.Clean x)
    (hw : R.strict → ∀ x ∈ entry.parameters.zip arguments, x.1.1.direction.writes = true →
      p.Writable x.2)
    (hlabels : ∀ l, .label l ∈ code → target l) : Spells (p.terms R k target) code := by
  obtain ⟨call, back, hcall, hback, rfl⟩ := h
  refine ((Spells.append ?_ ?_).append (spells_method hcall hc hcallable)).append ?_
  · refine Spells.flatMap fun x hx => ?_
    obtain ⟨hx₁, hx₂⟩ := List.of_mem_zip hx
    unfold passLines
    split_ifs
    · exact spells_copy (harguments _ hx₂) (hparameters _ hx₁)
    · exact Spells.nil
  · refine Spells.flatMap fun x hx => ?_
    unfold inputLines
    split
    · rename_i source hsource
      exact spells_copy (hinputs _ (mem_of_lookup hsource)) (hslots x hx)
    · exact Spells.nil
  · refine Spells.flatten fun lines hlines => ?_
    obtain ⟨i, hi, rfl⟩ := List.mem_iff_getElem.mp hlines
    have hi' : i < (entry.parameters.zip arguments).length := hback.length_eq ▸ hi
    have hline := hback.get hi' hi
    have hmem := List.getElem_mem hi'
    obtain ⟨hx₁, hx₂⟩ := List.of_mem_zip hmem
    unfold BackLines at hline
    split_ifs at hline with hwrites
    · obtain ⟨-, write, hwrite, hcode⟩ := hline
      have hlabels' : ∀ l, .label l ∈ write → target l := fun l hl => hlabels l (by
        refine List.mem_append_right _ (List.mem_flatten.mpr ⟨_, List.getElem_mem hi, ?_⟩)
        rw [show back[i] = _ from hcode]
        exact List.mem_append_right _ hl)
      rw [show back[i] = _ from hcode]
      exact spells_update hp ht hR hwrite (hparameters _ hx₁).clean (harguments _ hx₂)
        (fun hs => hw hs _ hmem hwrites) hlabels'
    · rw [show back[i] = [] from hline]
      exact Spells.nil

end

/-- The targets that a call is made for. -/
lemma callTargets_cases {onType : Option ValueType} {r : BoundAction} {targets : List SlotId}
    (h : CallTargets p.slots onType r targets) :
    (targets = [] ∧ (onType = none ∨ r.definition.manyTargets = false ∨
      ∃ type, onType = some type ∧ type.isValueType = true)) ∨
    (targets ≠ [] ∧ onType.isSome = true ∧ r.definition.manyTargets = true ∧
      ∀ x ∈ targets, p.slots.IsThis x ∨ x ∈ r.targets) := by
  unfold CallTargets at h
  cases onType with
  | none => exact .inl ⟨h, .inl rfl⟩
  | some type =>
    dsimp only at h
    split_ifs at h with hmany hempty
    · obtain ⟨self, hself, rfl⟩ := h
      refine .inr ⟨by simp, rfl, hmany, fun x hx => .inl ?_⟩
      rw [List.mem_singleton.mp hx]
      exact hself
    · by_cases hnil : targets = []
      · refine .inl ⟨hnil, .inr (.inr ⟨type, rfl, ?_⟩)⟩
        rw [← h, hnil] at hempty
        simpa using hempty
      · exact .inr ⟨hnil, rfl, hmany, fun x hx => .inr (h ▸ hx)⟩
    · exact .inl ⟨h, .inr (.inl (by simpa using hmany))⟩

/-- Nothing follows a call that writes nothing. -/
lemma writes_eq_nil {arguments : List (Parameter × SlotId)} {writes : List (List Line)}
    (h : List.Forall₂ (OutputLines temps (p.setting k)) arguments writes)
    (hno : ∀ x ∈ arguments, x.1.direction.writes = false) : writes.flatten = [] := by
  induction h with
  | nil => rfl
  | @cons x lines _ _ hline _ ih =>
    unfold OutputLines at hline
    rw [hno x List.mem_cons_self, if_neg (by simp)] at hline
    rw [List.flatten_cons, hline, ih fun y hy => hno y (List.mem_cons_of_mem _ hy)]
    rfl

lemma exists_of_forall₂_concat {α β : Type} {S : α → β → Prop} {as : List α} {a : α} {l : List β}
    (h : List.Forall₂ S (as ++ [a]) l) : ∃ bs b, l = bs ++ [b] ∧ List.Forall₂ S as bs ∧ S a b := by
  induction as generalizing l with
  | nil =>
    obtain ⟨b, l, hb, hl, rfl⟩ := List.forall₂_cons_left_iff.mp h
    obtain rfl := List.forall₂_nil_left_iff.mp hl
    exact ⟨[], b, rfl, .nil, hb⟩
  | cons x as ih =>
    obtain ⟨y, l, hy, hl, rfl⟩ := List.forall₂_cons_left_iff.mp h
    obtain ⟨bs, b, rfl, hbs, hb⟩ := ih hl
    exact ⟨y :: bs, b, rfl, .cons hy hbs, hb⟩

section

variable (hp : p.Tidy) (ht : p.slots.Sound) (hR : R.Covers)

include hp ht hR

/-- A call into the host, once or once for each target, and what follows the write of its result. -/
lemma spells_host {d : ActionDef} (hd : d.Known R) {onType : Option ValueType}
    (hkind : d.kind = .host signature onType) {r : BoundAction} (hr : r.definition = d)
    (hlength : r.inputs.length = d.parameters.length) {targets : List SlotId}
    (hchosen : CallTargets p.slots onType r targets)
    (h : HostLines (p.setting k) temps signature targets r code)
    (hinputs : ∀ x ∈ r.inputs, p.Clean x) (htargets : ∀ x ∈ r.targets, p.Clean x)
    (hw : R.strict → ∀ x ∈ d.parameters.zip r.inputs, x.1.direction.writes = true → p.Writable x.2)
    (hlabels : ∀ l, .label l ∈ code → target l) : Spells (p.terms R k target) code := by
  subst hr
  obtain ⟨writes, hwrites, rfl⟩ := h
  obtain ⟨hplain, hmany⟩ := hd.calls signature onType hkind
  obtain ⟨⟨n, hflags⟩, hno⟩ := hd.oneResult signature onType hkind
  have hsends := hd.silent signature onType hkind
  have hcount : r.inputs.length = r.definition.flags.length := by
    rw [hlength, ActionDef.flags, List.length_map]
  have hreads : true ∉ r.definition.flags → ∀ x ∈ r.arguments, x.1.direction.writes = false := by
    intro hfree x hx
    by_contra hwrites
    refine hfree (List.mem_map.mpr ⟨x.1, (List.of_mem_zip hx).1, by simpa using hwrites⟩)
  have hsilent : true ∉ r.definition.flags → ∀ flags : List Bool,
      (∀ x ∈ flags, x = true → x ∈ r.definition.flags) → ∀ slots : List SlotId,
      ∀ x ∈ slots.zip flags, x.2 = true → (p.terms R k target).writable x.1 := by
    intro hfree flags hsub slots x hx hflag
    exact absurd (hflag ▸ hsub x.2 (List.of_mem_zip hx).2 hflag) hfree
  rcases callTargets_cases hchosen with ⟨rfl, hcase⟩ | ⟨hne, hsome, hmanyTargets, hall⟩
  · have hcode : callsLines signature [] r.inputs = callLines signature r.inputs := rfl
    rw [hcode]
    rcases hflags with hflags | hflags
    · have hfree : true ∉ r.definition.flags := by simp [hflags]
      rw [writes_eq_nil hwrites (hreads hfree), List.append_nil]
      exact Spells.call _ hcount (Terms.allows_of_silent (hplain hcase) hsends _) hinputs
        (hsilent hfree _ (fun x hx _ => hx) _)
    · -- the last parameter is the result, and what follows is what follows its write
      obtain ⟨ps, q, hparameters, hps, hq⟩ : ∃ ps q, r.definition.parameters = ps ++ [q] ∧
          (∀ x ∈ ps, x.direction.writes = false) ∧ q.direction.writes = true := by
        obtain ⟨ps, qs, hparameters, hps, hqs⟩ := List.map_eq_append_iff.mp hflags
        obtain ⟨q, rfl, hq⟩ := List.map_eq_singleton_iff.mp hqs
        refine ⟨ps, q, hparameters, fun x hx => ?_, hq⟩
        exact List.eq_of_mem_replicate (hps ▸ List.mem_map_of_mem hx)
      have hlast : r.inputs ≠ [] := by
        rw [← List.length_pos_iff_ne_nil, hlength, hparameters]
        simp
      obtain ⟨xs, x, hin⟩ : ∃ xs x, r.inputs = xs ++ [x] :=
        ⟨_, _, (List.dropLast_concat_getLast hlast).symm⟩
      have hsame : ps.length = xs.length := by
        have := hlength
        rw [hparameters, hin] at this
        simpa using this.symm
      have harguments : r.arguments = ps.zip xs ++ [(q, x)] := by
        rw [BoundAction.arguments, hparameters, hin, List.zip_append hsame]
        rfl
      rw [harguments] at hwrites
      obtain ⟨ws, write, rfl, hws, hwrite⟩ := exists_of_forall₂_concat hwrites
      unfold OutputLines at hwrite
      rw [if_pos hq] at hwrite
      have hnil := writes_eq_nil hws fun y hy => hps y.1 (List.of_mem_zip hy).1
      have hcall : R.calls signature (List.replicate xs.length false ++ [true]) := by
        have hn : n = xs.length := by
          have := hcount
          rw [hflags, hin] at this
          simpa using this.symm
        rw [← hn, ← hflags]
        exact hplain hcase
      rw [List.flatten_append, hnil, hin]
      simp only [List.nil_append, List.flatten_cons, List.flatten_nil, List.append_nil]
      refine spells_compute hp ht hR hwrite.2 hcall hsends (fun y hy => hinputs y (by simp [hin, hy]))
        (hinputs x (by simp [hin])) (fun hs => hw hs (q, x) ?_ hq) fun l hl => hlabels l ?_
      · have hmem : (q, x) ∈ r.arguments := by simp [harguments]
        exact hmem
      · simp [hl]
  · have hfree := hno hmanyTargets
    rw [writes_eq_nil hwrites (hreads hfree), List.append_nil]
    unfold callsLines
    rw [if_neg (by simpa using hne)]
    refine Spells.flatMap fun goal hgoal => ?_
    have hclean : p.Clean goal := (hall goal hgoal).elim (hp.of_isThis ht) (htargets goal)
    refine Spells.call (false :: r.definition.flags) (by simp [hcount])
      (Terms.allows_of_silent (hmany hsome hmanyTargets) hsends _) ?_ (hsilent hfree _ (by simp) _)
    rintro x (_ | ⟨_, hx⟩)
    · exact hclean
    · exact hinputs x hx

end

end Program

end TriggerCompiler
