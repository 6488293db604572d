import Mathlib
import TriggerCompiler.Proofs.Assembly

/-!
# Phrases

The body of a method is a sequence of phrases: a label, a copy, a call into the host, a branch, a
jump, or a call of another method. A copy or a call that writes a watched variable is one phrase with
the lines that tell of the change. A phrase leaves nothing on the stack, and it says which slots it
reads and which it writes. What is known of a phrase is a matter of the terms that it is read in: the
slots that code may use, the labels that it may jump to, and the methods that it may call.
-/

namespace TriggerCompiler

variable {signature : String} {target : InstrId → Prop} {k : MethodId} {p : Program}

open Lower

/-- A watched variable, and what its code uses to tell of a change. -/
structure Watch where
  type : ValueType
  id : SlotId
  /-- Holds what the variable held when its change was told last. -/
  shadow : SlotId
  changed : SlotId
  skip : InstrId
  self : SlotId
  text : SlotId

/-- The lines that follow a write of the variable. -/
def Watch.lines (w : Watch) : List Line :=
  changeLines w.type w.id w.shadow w.changed ++ branchLines w.changed w.skip ++
    callLines HostCall.sendCustomEvent [w.self, w.text] ++ copyLines w.id w.shadow ++ [.label w.skip]

/-- A piece of code that belongs together. The flags of a host call say which arguments it writes. -/
inductive Phrase where
  | label (l : InstrId)
  | copy (source target : SlotId)
  | call (signature : String) (arguments : List (SlotId × Bool))
  | branch (condition : SlotId) (target : InstrId)
  | jump (target : InstrId)
  /-- The call of a method, up to the label that it returns to. -/
  | invoke (address returnSlot : SlotId) (name : String) (back : InstrId)
  /-- A copy into a watched variable. -/
  | update (source : SlotId) (w : Watch)
  /-- A call into the host whose result goes to a watched variable. -/
  | compute (signature : String) (arguments : List SlotId) (w : Watch)

/-- What phrases may refer to. -/
structure Terms where
  clean : SlotId → Prop
  writable : SlotId → Prop
  watched : Watch → Prop
  calls : String → List Bool → Prop
  /-- The arguments with which an event may be sent. -/
  summons : String → List SlotId → Prop
  target : InstrId → Prop
  callee : String → SlotId → Prop
  addresses : SlotId → InstrId → Prop

/-- The call may be made with the slots as arguments. -/
def Terms.Allows (v : Terms) (signature : String) (slots : List SlotId) (flags : List Bool) : Prop :=
  v.calls signature flags ∧ (HostCall.Sends signature → v.summons signature slots)

lemma Terms.allows_of_silent {v : Terms} {flags : List Bool} (h : v.calls signature flags)
    (hsilent : ¬ HostCall.Sends signature) (slots : List SlotId) :
    v.Allows signature slots flags :=
  ⟨h, fun hsends => absurd hsends hsilent⟩

/-- The second terms allow all that the first do. -/
structure Terms.Le (v w : Terms) : Prop where
  clean : ∀ id, v.clean id → w.clean id
  writable : ∀ id, v.clean id → v.writable id → w.writable id
  watched : ∀ x : Watch, v.clean x.id → v.clean x.changed → v.watched x → w.watched x
  calls : ∀ signature flags, v.calls signature flags → w.calls signature flags
  summons : ∀ signature slots, v.summons signature slots → w.summons signature slots
  target : ∀ l, v.target l → w.target l
  callee : ∀ name slot, v.callee name slot → w.callee name slot
  addresses : ∀ id l, v.addresses id l → w.addresses id l

lemma Terms.Allows.mono {v w : Terms} {slots : List SlotId} {flags : List Bool}
    (h : v.Allows signature slots flags) (hle : v.Le w) : w.Allows signature slots flags :=
  ⟨hle.calls _ _ h.1, fun hsends => hle.summons _ _ (h.2 hsends)⟩

/-- What tells of a change keeps to the terms. -/
structure Watch.Fits (v : Terms) (w : Watch) : Prop where
  watched : v.watched w
  clean : ∀ x ∈ [w.id, w.shadow, w.changed, w.self, w.text], v.clean x
  writable : ∀ x ∈ [w.shadow, w.changed], v.writable x
  skip : v.target w.skip
  differs : w.type.isValueType = true → v.calls (HostCall.inequality w.type) [false, false, true]
  equals : v.calls HostCall.objectEquals [false, false, true]
  negation : v.calls HostCall.booleanNegation [false, true]

lemma Watch.Fits.mono {v v' : Terms} {w : Watch} (h : w.Fits v) (hle : v.Le v') : w.Fits v' where
  watched := hle.watched w (h.clean _ (by simp)) (h.clean _ (by simp)) h.watched
  clean x hx := hle.clean x (h.clean x hx)
  writable x hx := by
    refine hle.writable x (h.clean x ?_) (h.writable x hx)
    simp only [List.mem_cons, List.not_mem_nil, or_false] at hx ⊢
    exact .inr (hx.imp (fun h => h) .inl)
  skip := hle.target _ h.skip
  differs htype := hle.calls _ _ (h.differs htype)
  equals := hle.calls _ _ h.equals
  negation := hle.calls _ _ h.negation

namespace Phrase

/-- The lines of a phrase. -/
def lines : Phrase → List Line
  | label l => [.label l]
  | copy source target => copyLines source target
  | call signature arguments => callLines signature (arguments.map Prod.fst)
  | branch condition target => branchLines condition target
  | jump target => [.code (.jump target)]
  | invoke address returnSlot name back =>
    copyLines address returnSlot ++ [.code (.jumpMethod name), .label back]
  | update source w => copyLines source w.id ++ w.lines
  | compute signature arguments w => callLines signature (arguments ++ [w.id]) ++ w.lines

/-- The phrase keeps to the terms. -/
def Fits (v : Terms) : Phrase → Prop
  | label _ => True
  | copy source target => v.clean source ∧ v.clean target ∧ v.writable target
  | call signature arguments => v.Allows signature (arguments.map Prod.fst) (arguments.map Prod.snd) ∧
      ∀ x ∈ arguments, v.clean x.1 ∧ (x.2 = true → v.writable x.1)
  | branch condition target => v.clean condition ∧ v.target target
  | jump target => v.target target
  | invoke address returnSlot name back => v.addresses address back ∧ v.callee name returnSlot
  | update source w => v.clean source ∧ w.Fits v
  | compute signature arguments w =>
    v.Allows signature (arguments ++ [w.id]) (List.replicate arguments.length false ++ [true]) ∧
      (∀ x ∈ arguments, v.clean x) ∧ w.Fits v

lemma Fits.mono {v w : Terms} {x : Phrase} (h : x.Fits v) (hvw : v.Le w) : x.Fits w := by
  cases x with
  | label l => trivial
  | copy source target =>
    exact ⟨hvw.clean _ h.1, hvw.clean _ h.2.1, hvw.writable _ h.2.1 h.2.2⟩
  | call signature arguments =>
    refine ⟨h.1.mono hvw, fun y hy => ?_⟩
    exact ⟨hvw.clean _ (h.2 y hy).1, fun hw => hvw.writable _ (h.2 y hy).1 ((h.2 y hy).2 hw)⟩
  | branch condition target => exact ⟨hvw.clean _ h.1, hvw.target _ h.2⟩
  | jump target => exact hvw.target _ h
  | invoke address returnSlot name back => exact ⟨hvw.addresses _ _ h.1, hvw.callee _ _ h.2⟩
  | update source w => exact ⟨hvw.clean _ h.1, h.2.mono hvw⟩
  | compute signature arguments w =>
    exact ⟨h.1.mono hvw, fun x hx => hvw.clean x (h.2.1 x hx), h.2.2.mono hvw⟩

end Phrase

/-- The lines are those of phrases that keep to the terms. -/
def Spells (v : Terms) (code : List Line) : Prop :=
  ∃ phrases : List Phrase, code = phrases.flatMap Phrase.lines ∧ ∀ x ∈ phrases, x.Fits v

namespace Spells

variable {v w : Terms} {code code' : List Line} {x : Phrase}

lemma nil : Spells v [] := ⟨[], rfl, by simp⟩

lemma append (h : Spells v code) (h' : Spells v code') : Spells v (code ++ code') := by
  obtain ⟨xs, rfl, hxs⟩ := h
  obtain ⟨ys, rfl, hys⟩ := h'
  refine ⟨xs ++ ys, by rw [List.flatMap_append], fun x hx => ?_⟩
  exact (List.mem_append.mp hx).elim (hxs x) (hys x)

lemma mono (h : Spells v code) (hvw : v.Le w) : Spells w code := by
  obtain ⟨xs, rfl, hxs⟩ := h
  exact ⟨xs, rfl, fun x hx => (hxs x hx).mono hvw⟩

lemma phrase (h : x.Fits v) : Spells v x.lines :=
  ⟨[x], by simp, by simpa using h⟩

lemma label (l : InstrId) : Spells v [.label l] := phrase (x := .label l) trivial

lemma jump {l : InstrId} (h : v.target l) : Spells v [.code (.jump l)] := phrase (x := .jump l) h

lemma copy {source target : SlotId} (hs : v.clean source) (ht : v.clean target)
    (hw : v.writable target) : Spells v (copyLines source target) :=
  phrase (x := .copy source target) ⟨hs, ht, hw⟩

lemma branch {condition : SlotId} {l : InstrId} (hc : v.clean condition) (hl : v.target l) :
    Spells v (branchLines condition l) :=
  phrase (x := .branch condition l) ⟨hc, hl⟩

lemma call {arguments : List SlotId} (flags : List Bool) (hlength : arguments.length = flags.length)
    (hcalls : v.Allows signature arguments flags) (hclean : ∀ x ∈ arguments, v.clean x)
    (hwritable : ∀ x ∈ arguments.zip flags, x.2 = true → v.writable x.1) :
    Spells v (callLines signature arguments) := by
  have hfst : (arguments.zip flags).map Prod.fst = arguments :=
    List.map_fst_zip hlength.le
  have hsnd : (arguments.zip flags).map Prod.snd = flags := List.map_snd_zip hlength.ge
  have h := phrase (v := v) (x := .call signature (arguments.zip flags))
    ⟨by rwa [hsnd, hfst], fun x hx => ⟨hclean x.1 ?_, hwritable x hx⟩⟩
  · rwa [Phrase.lines, hfst] at h
  · exact (List.of_mem_zip hx).1

lemma flatten {codes : List (List Line)} (h : ∀ code ∈ codes, Spells v code) :
    Spells v codes.flatten := by
  induction codes with
  | nil => exact nil
  | cons code codes ih =>
    rw [List.flatten_cons]
    exact (h code List.mem_cons_self).append (ih fun c hc => h c (List.mem_cons_of_mem _ hc))

lemma flatMap {α : Type} {l : List α} {f : α → List Line} (h : ∀ x ∈ l, Spells v (f x)) :
    Spells v (l.flatMap f) := by
  rw [List.flatMap_def]
  refine flatten fun code hcode => ?_
  obtain ⟨x, hx, rfl⟩ := List.mem_map.mp hcode
  exact h x hx

end Spells

/-! ## What slots are for -/

namespace Program

variable {q : Program} {id : SlotId}

/-- A method returns through the slot. -/
def Returns (p : Program) (slot : SlotId) : Prop :=
  ∃ m ∈ p.methods.toList, m.epilogue = .indirect slot

/-- A slot that code may use: no method returns through it, and it stands for no address. -/
structure Clean (p : Program) (id : SlotId) : Prop where
  lt : id < p.slots.size
  returns : ¬ p.Returns id
  address : ∀ x, (p.slots.get id).initial ≠ some (.address x)

/-- A slot that code may write. -/
structure Writable (p : Program) (id : SlotId) : Prop where
  kind : (p.slots.get id).kind ≠ .constant
  isThis : (p.slots.get id).isThis = false

/-- A write of the slot is no change that has to be told. -/
def Quiet (p : Program) (id : SlotId) : Prop :=
  (p.slots.get id).notifies = false ∨ (p.slots.get id).shadow = none

/-- A slot that code may write without telling of it. -/
structure Plain (p : Program) (id : SlotId) : Prop where
  clean : p.Clean id
  writable : p.Writable id
  quiet : p.Quiet id

/-- A slot that code may use as it likes: what is written there is neither told nor sent. -/
structure Open (p : Program) (id : SlotId) : Prop extends Plain p id where
  unsynced : (p.slots.get id).isSynced = false

/-- The method asks that the slot be sent if it is synchronized. -/
def Sends (p : Program) (k : MethodId) (id : SlotId) : Prop :=
  (p.slots.get id).isSynced = true → (p.method k).serializes = true

lemma Open.sends (h : p.Open id) (k : MethodId) : p.Sends k id := by
  intro hsync
  rw [h.unsynced] at hsync
  cases hsync

/-- The slots are those of a watched variable. -/
structure Watched (p : Program) (w : Watch) : Prop where
  kind : (p.slots.get w.id).kind = .user
  notifies : (p.slots.get w.id).notifies = true
  type_eq : (p.slots.get w.id).type = w.type
  shadow : (p.slots.get w.id).shadow = some w.shadow
  changed : (p.slots.get w.changed).kind = .temporary
  self : p.slots.IsThis w.self
  text : p.slots.IsConstant .string (.string (handlerName (p.slots.get w.id).name)) w.text

/-- A slot as it is made for the address that a method returns to. -/
structure SetApart (p : Program) (id : SlotId) : Prop where
  lt : id < p.slots.size
  kind : (p.slots.get id).kind = .reserved
  type_eq : (p.slots.get id).type = .uint32
  isThis : (p.slots.get id).isThis = false
  initial : (p.slots.get id).initial = none

/-- Slots have one use each: those that methods return through are set apart, and only constants
stand for addresses. -/
structure Tidy (p : Program) : Prop where
  returns : ∀ slot, p.Returns slot → p.SetApart slot
  address : ∀ id < p.slots.size, ∀ x, (p.slots.get id).initial = some (.address x) →
    (p.slots.get id).kind = .constant
  shadow : ∀ id < p.slots.size, ∀ sh, (p.slots.get id).shadow = some sh →
    sh < p.slots.size ∧ ¬ p.Returns sh
  this : ∀ id < p.slots.size, (p.slots.get id).isThis = true →
    (p.slots.get id).type = .gameObject

/-- The second program has all that the first has, slots that methods return through are new or were
such slots before, and no new slot is watched. -/
structure Enlarges (p q : Program) : Prop where
  slots : p.slots.Within q.slots
  returns : ∀ slot, q.Returns slot → p.Returns slot ∨ p.slots.size ≤ slot
  callee : ∀ name slot, p.Callee name slot → q.Callee name slot
  entry : ∀ name, p.HasEntry name → q.HasEntry name
  shadow : ∀ id, p.slots.size ≤ id → id < q.slots.size → (q.slots.get id).shadow = none

lemma Enlarges.refl (p : Program) : p.Enlarges p :=
  ⟨SlotTable.Within.refl _, fun _ h => .inl h, fun _ _ h => h, fun _ h => h,
    fun _ hge hlt => absurd hlt (Nat.not_lt.mpr hge)⟩

lemma Enlarges.trans {o : Program} (h : p.Enlarges q) (h' : q.Enlarges o) : p.Enlarges o where
  slots := h.slots.trans h'.slots
  returns slot hslot := by
    rcases h'.returns slot hslot with hslot | hslot
    · exact h.returns slot hslot
    · exact .inr (h.slots.size_le.trans hslot)
  callee name slot hc := h'.callee name slot (h.callee name slot hc)
  entry name he := h'.entry name (h.entry name he)
  shadow id hge hlt := by
    by_cases hid : id < q.slots.size
    · rw [h'.slots.get_eq hid]
      exact h.shadow id hge hid
    · exact h'.shadow id (Nat.le_of_not_lt hid) hlt

lemma Clean.enlarge (h : p.Clean id) (he : p.Enlarges q) : q.Clean id where
  lt := h.lt.trans_le he.slots.size_le
  returns hr := (he.returns id hr).elim h.returns fun hge => absurd h.lt (Nat.not_lt.mpr hge)
  address := by
    rw [he.slots.get_eq h.lt]
    exact h.address

lemma Writable.enlarge (h : p.Writable id) (hid : id < p.slots.size) (he : p.Enlarges q) :
    q.Writable id := by
  constructor
  all_goals rw [he.slots.get_eq hid]
  · exact h.kind
  · exact h.isThis

lemma Plain.enlarge (h : p.Plain id) (he : p.Enlarges q) : q.Plain id where
  clean := h.clean.enlarge he
  writable := h.writable.enlarge h.clean.lt he
  quiet := by
    unfold Quiet
    rw [he.slots.get_eq h.clean.lt]
    exact h.quiet

lemma Open.enlarge (h : p.Open id) (he : p.Enlarges q) : q.Open id where
  toPlain := h.toPlain.enlarge he
  unsynced := by
    rw [he.slots.get_eq h.clean.lt]
    exact h.unsynced

lemma Sends.enlarge {j : MethodId} (h : p.Sends k id) (hid : id < p.slots.size) (he : p.Enlarges q)
    (hs : (p.method k).serializes = true → (q.method j).serializes = true) :
    q.Sends j id := by
  intro hsync
  rw [he.slots.get_eq hid] at hsync
  exact hs (h hsync)

lemma Summons.enlarge {slots : List SlotId} (h : p.Summons signature slots) (he : p.Enlarges q) :
    q.Summons signature slots := by
  obtain ⟨place, id, name, hplace, hid, hconstant, hentry⟩ := h
  exact ⟨place, id, name, hplace, hid, hconstant.within he.slots, he.entry name hentry⟩

lemma Watched.enlarge {w : Watch} (h : p.Watched w) (hid : w.id < p.slots.size)
    (hchanged : w.changed < p.slots.size) (he : p.Enlarges q) : q.Watched w := by
  have hsame := he.slots.get_eq hid
  refine ⟨hsame ▸ h.kind, hsame ▸ h.notifies, hsame ▸ h.type_eq, hsame ▸ h.shadow, ?_,
    h.self.within he.slots, hsame ▸ h.text.within he.slots⟩
  rw [he.slots.get_eq hchanged]
  exact h.changed

/-- Only variables of a document are synchronized. -/
lemma unsynced_of_kind (ht : p.slots.Sound) (hid : id < p.slots.size)
    (hkind : (p.slots.get id).kind ≠ .user) : (p.slots.get id).isSynced = false := by
  simp [Slot.isSynced, (ht.plain id hid hkind).2.2]

section

variable (h : p.Tidy)
include h

/-- A slot that is no constant stands for no address. -/
lemma Tidy.clean (hid : id < p.slots.size) (hkind : (p.slots.get id).kind ≠ .constant)
    (hr : ¬ p.Returns id) : p.Clean id :=
  ⟨hid, hr, fun x hx => hkind (h.address id hid x hx)⟩

/-- A variable or a temporary may be used and written. -/
lemma Tidy.of_hasKind (ht : p.slots.Sound) (hk : p.slots.HasKind [.temporary, .user] id) :
    p.Clean id ∧ p.Writable id := by
  obtain ⟨hlt, hmem⟩ := hk
  have hkind : (p.slots.get id).kind ≠ .constant ∧ (p.slots.get id).kind ≠ .reserved := by
    rcases List.mem_pair.mp hmem with hk | hk
    all_goals
      rw [hk]
      exact ⟨by simp, by simp⟩
  refine ⟨h.clean hlt hkind.1 fun hr => hkind.2 (h.returns id hr).kind, hkind.1, ?_⟩
  by_contra hthis
  exact hkind.2 (ht.this_kind id hlt (by simpa using hthis))

lemma Tidy.of_temporary (ht : p.slots.Sound) (hid : id < p.slots.size)
    (hkind : (p.slots.get id).kind = .temporary) : p.Open id := by
  obtain ⟨hclean, hwritable⟩ := h.of_hasKind ht ⟨hid, List.mem_pair.mpr (.inl hkind)⟩
  have huser : (p.slots.get id).kind ≠ .user := by simp [hkind]
  exact ⟨⟨hclean, hwritable, .inl (ht.plain id hid huser).1⟩, unsynced_of_kind ht hid huser⟩

lemma Tidy.of_spare (ht : p.slots.Sound) {temps : List SlotId} (hs : p.slots.Spare temps id) :
    p.Open id := h.of_temporary ht hs.lt hs.kind

lemma Tidy.of_isThis (ht : p.slots.Sound) (hs : p.slots.IsThis id) : p.Clean id := by
  refine h.clean hs.lt ?_ fun hr => ?_
  · rw [ht.this_kind id hs.lt hs.isThis]
    simp
  · have hno := (h.returns id hr).isThis
    rw [hs.isThis] at hno
    cases hno

lemma Tidy.of_isConstant {type : ValueType} {value : Value} (hs : p.slots.IsConstant type value id)
    (hv : ∀ x, value ≠ .address x) : p.Clean id := by
  refine ⟨hs.lt, fun hr => ?_, fun x hx => ?_⟩
  · have hkind := (h.returns id hr).kind
    rw [hs.kind] at hkind
    cases hkind
  · rw [hs.initial] at hx
    exact hv x (Option.some.inj hx)

/-- Growth by slots that are tidy themselves. -/
lemma Tidy.grow (he : p.Enlarges q) (hnew : ∀ id, p.slots.size ≤ id → id < q.slots.size →
      (∀ x, (q.slots.get id).initial = some (.address x) → (q.slots.get id).kind = .constant) ∧
      ((q.slots.get id).isThis = true → (q.slots.get id).type = .gameObject))
    (hr : ∀ slot, q.Returns slot → p.slots.size ≤ slot → q.SetApart slot) : q.Tidy := by
  refine ⟨fun slot hslot => ?_, fun id hid x hx => ?_, fun id hid sh hsh => ?_,
    fun id hid hthis => ?_⟩
  · rcases he.returns slot hslot with hold | hge
    · obtain ⟨hlt, hkind, htype, hthis, hinitial⟩ := h.returns slot hold
      have hget := he.slots.get_eq hlt
      exact ⟨hlt.trans_le he.slots.size_le, hget ▸ hkind, hget ▸ htype, hget ▸ hthis,
        hget ▸ hinitial⟩
    · exact hr slot hslot hge
  · by_cases hlt : id < p.slots.size
    · rw [he.slots.get_eq hlt] at hx ⊢
      exact h.address id hlt x hx
    · exact (hnew id (Nat.le_of_not_lt hlt) hid).1 x hx
  · by_cases hlt : id < p.slots.size
    · rw [he.slots.get_eq hlt] at hsh
      obtain ⟨hsize, hno⟩ := h.shadow id hlt sh hsh
      refine ⟨hsize.trans_le he.slots.size_le, fun hsh' => ?_⟩
      exact (he.returns sh hsh').elim hno fun hge => absurd hsize (Nat.not_lt.mpr hge)
    · rw [he.shadow id (Nat.le_of_not_lt hlt) hid] at hsh
      cases hsh
  · by_cases hlt : id < p.slots.size
    · rw [he.slots.get_eq hlt] at hthis ⊢
      exact h.this id hlt hthis
    · exact (hnew id (Nat.le_of_not_lt hlt) hid).2 hthis

/-- Growth by slots that the compiler made. -/
lemma Tidy.enlarge (he : p.Enlarges q) (hmakes : p.slots.Makes q.slots)
    (hr : ∀ slot, q.Returns slot → p.Returns slot) : q.Tidy := by
  refine h.grow he (fun id hge hid => ?_) fun slot hslot hge => ?_
  · exact ⟨(hmakes id hge hid).address, (hmakes id hge hid).this⟩
  · exact absurd (h.returns slot (hr slot hslot)).lt (Nat.not_lt.mpr hge)

lemma Tidy.of_shadow (ht : p.slots.Sound) (hid : id < p.slots.size) {sh : SlotId}
    (hsh : (p.slots.get id).shadow = some sh) : p.Open sh := by
  obtain ⟨hlt, hkind, hthis⟩ := ht.shadow id hid sh hsh
  have hconstant : (p.slots.get sh).kind ≠ .constant := by simp [hkind]
  have huser : (p.slots.get sh).kind ≠ .user := by simp [hkind]
  refine ⟨⟨h.clean hlt hconstant (h.shadow id hid sh hsh).2, ⟨hconstant, hthis⟩, .inl ?_⟩,
    unsynced_of_kind ht hlt huser⟩
  exact (ht.plain sh hlt huser).1

end

end Program

/-! ## Rules -/

/-- What phrases of compiled code keep to beyond what a program shows: the calls that there are,
whether it is known that nothing writes a constant or the running object, and the methods that the
method at hand may call. -/
structure Rules where
  calls : String → List Bool → Prop
  strict : Prop
  callable : String → Prop

/-- The rules for a method that may call certain others. -/
def Rules.limit (R : Rules) (callable : String → Prop) : Rules := { R with callable }

/-- The rules for a method that may call any other. -/
def Rules.free (R : Rules) : Rules := R.limit fun _ => True

/-- The terms of a method's code. -/
def Program.terms (p : Program) (R : Rules) (k : MethodId) (target : InstrId → Prop) : Terms where
  clean := p.Clean
  writable id := (R.strict → p.Plain id) ∧ p.Sends k id
  watched w := p.Watched w ∧ p.Sends k w.id
  calls := R.calls
  summons := p.Summons
  target := target
  callee name slot := p.Callee name slot ∧ R.callable name
  addresses id l := p.slots.IsConstant .uint32 (.address (.instruction l)) id

/-- Code that calls only what is allowed keeps to the stricter rules. -/
lemma Spells.limit {R : Rules} {code : List Line} (h : Spells (p.terms R.free k target) code)
    {callable : String → Prop} (hcode : ∀ name, .code (.jumpMethod name) ∈ code → callable name) :
    Spells (p.terms (R.limit callable) k target) code := by
  obtain ⟨xs, rfl, hxs⟩ := h
  refine ⟨xs, rfl, fun x hx => ?_⟩
  have hfits := hxs x hx
  cases x with
  | invoke address returnSlot name back =>
    refine ⟨hfits.1, hfits.2.1, hcode name (List.mem_flatMap.mpr ⟨_, hx, ?_⟩)⟩
    simp [Phrase.lines]
  | update source w =>
    obtain ⟨hsource, hw⟩ := hfits
    exact ⟨hsource, hw.watched, hw.clean, hw.writable, hw.skip, hw.differs, hw.equals, hw.negation⟩
  | compute signature arguments w =>
    obtain ⟨hcalls, harguments, hw⟩ := hfits
    exact ⟨hcalls, harguments, hw.watched, hw.clean, hw.writable, hw.skip, hw.differs, hw.equals,
      hw.negation⟩
  | _ => exact hfits

lemma Spells.free {R : Rules} {code : List Line} (h : Spells (p.terms R k target) code) :
    Spells (p.terms R.free k target) code :=
  h.mono ⟨fun _ h => h, fun _ _ h => h, fun _ _ _ h => h, fun _ _ h => h, fun _ _ h => h, fun _ h => h,
    fun _ _ h => ⟨h.1, trivial⟩, fun _ _ h => h⟩

lemma Program.Enlarges.terms_le {q : Program} (h : p.Enlarges q) (R : Rules) {j : MethodId}
    (hs : (p.method k).serializes = true → (q.method j).serializes = true)
    {target' : InstrId → Prop} (ht : ∀ l, target l → target' l) :
    (p.terms R k target).Le (q.terms R j target') where
  clean _ hid := hid.enlarge h
  writable _ hid hw := ⟨fun hstrict => (hw.1 hstrict).enlarge h, hw.2.enlarge hid.lt h hs⟩
  watched _ hid hchanged hw := ⟨hw.1.enlarge hid.lt hchanged.lt h, hw.2.enlarge hid.lt h hs⟩
  calls _ _ hc := hc
  summons _ _ hs := hs.enlarge h
  target := ht
  callee name slot hc := ⟨h.callee name slot hc.1, hc.2⟩
  addresses _ _ ha := ha.within h.slots

end TriggerCompiler
