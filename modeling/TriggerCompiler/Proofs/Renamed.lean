import Mathlib
import TriggerCompiler.Proofs.Execution
import TriggerCompiler.Proofs.Merging

/-!
# Renamed code runs alike

Two machines run the same code under a renaming: the second holds the renamed code from some position
on, its slots are the renamed ones, and its addresses are shifted. A step of the first machine is
then a step of the second. Slots that hold addresses are told apart from the others, because only
their content is shifted and not copied as it is.
-/

namespace TriggerCompiler

/-- A renaming with what else changes when code is moved: the number of slots that the code knows
and the number that there are at its new place, the shift of its addresses, and the slots in which it
keeps addresses. -/
structure Relocation where
  names : Renaming
  size : Nat
  room : Nat
  shift : Nat
  addresses : SlotId → Prop

namespace Relocation

variable {ρ : Relocation} {base : Nat} {m n m' n' : Machine} {s : SlotId}

/-- The new position of a slot. -/
abbrev slot (ρ : Relocation) : SlotId → SlotId := ρ.names.slot

/-- A slot that the code knows and keeps no address in. -/
def Plain (ρ : Relocation) (s : SlotId) : Prop := s < ρ.size ∧ ¬ ρ.addresses s

/-- Every slot has a new one to itself. -/
structure Proper (ρ : Relocation) : Prop where
  slot_lt : ∀ s < ρ.size, ρ.slot s < ρ.room
  injective : ∀ s < ρ.size, ∀ t < ρ.size, ρ.slot s = ρ.slot t → s = t

/-- The content of two slots that hold addresses: nothing yet, the address that stops the machine,
or places that lie the shift apart. -/
inductive Shifted (ρ : Relocation) : Value → Value → Prop where
  | null : Shifted ρ .null .null
  | halt : Shifted ρ (.uint32 haltAddress) (.uint32 haltAddress)
  | place {x y : UInt32} (apart : y.toNat = ρ.shift + x.toNat) (old : x ≠ haltAddress)
      (new : y ≠ haltAddress) : Shifted ρ (.uint32 x) (.uint32 y)

/-- The second machine holds the renamed code of the first. -/
structure Carries (ρ : Relocation) (base : Nat) (m n : Machine) : Prop where
  code : ∀ k a i, m.code[k]? = some (a, i) →
    n.code[base + k]? = some (ρ.shift + a, ρ.names.instr i)
  before : ∀ k a i, k < base → n.code[k]? = some (a, i) → a < ρ.shift
  label : ∀ l a, m.program.address? l = some a →
    n.program.address? (ρ.names.instrId l) = some (ρ.shift + a)
  method : ∀ name a, m.program.methodAddress? name = some a →
    n.program.methodAddress? (ρ.names.method name) = some (ρ.shift + a)

/-- The state of the second machine is the renamed state of the first. -/
structure Mirrors (ρ : Relocation) (m n : Machine) : Prop where
  heap_size : m.heap.size = ρ.size
  room : ρ.room ≤ n.heap.size
  stack_lt : ∀ s ∈ m.stack, s < ρ.size
  stack : n.stack = m.stack.map ρ.slot
  plain : ∀ s < ρ.size, ¬ ρ.addresses s → n.heap.getD (ρ.slot s) .null = m.heap.getD s .null
  address : ∀ s < ρ.size, ρ.addresses s →
    ρ.Shifted (m.heap.getD s .null) (n.heap.getD (ρ.slot s) .null)
  effects : n.effects = m.effects
  isOwner : n.isOwner = m.isOwner
  isMaster : n.isMaster = m.isMaster

/-- Where the first computation succeeds, the second does, with a result and a state that mirror
those of the first, and neither changes its program. -/
def Alike {α β : Type} (ρ : Relocation) (m n : Machine) (x : Run α) (y : Run β)
    (P : α → β → Prop) : Prop :=
  ∀ a m', x m = .ok a m' → ∃ b n', y n = .ok b n' ∧ P a b ∧ ρ.Mirrors m' n' ∧
    (m'.program = m.program ∧ m'.code = m.code) ∧ n'.program = n.program ∧ n'.code = n.code

namespace Alike

variable {α β γ δ : Type} {x : Run α} {y : Run β} {P : α → β → Prop} {Q : γ → δ → Prop}

lemma pure (h : ρ.Mirrors m n) {a : α} {b : β} (hab : P a b) :
    ρ.Alike m n (pure a) (pure b) P := by
  rintro _ _ ⟨⟩
  exact ⟨b, n, rfl, hab, h, ⟨rfl, rfl⟩, rfl, rfl⟩

lemma throw (e : Fault) : ρ.Alike m n (throw e) y P := by
  rintro _ _ ⟨⟩

lemma bind {f : α → Run γ} {g : β → Run δ} (h : ρ.Alike m n x y P)
    (hfg : ∀ a b m' n', P a b → ρ.Mirrors m' n' → m'.code = m.code → m'.program = m.program →
      n'.code = n.code → n'.program = n.program → ρ.Alike m' n' (f a) (g b) Q) :
    ρ.Alike m n (x >>= f) (y >>= g) Q := by
  intro c m'' hrun
  have hbind : (x >>= f) m = match x m with
      | .ok a m' => f a m'
      | .error e m' => .error e m' := by
    simp only [Bind.bind, EStateM.bind]
    cases x m <;> rfl
  rw [hbind] at hrun
  split at hrun
  · rename_i a m' hx
    obtain ⟨b, n', hy, hab, hm', ⟨hp, hc⟩, hp', hc'⟩ := h a m' hx
    obtain ⟨d, n'', hg, hcd, hm'', ⟨hq, hd⟩, hq', hd'⟩ :=
      hfg a b m' n' hab hm' hc hp hc' hp' c m'' hrun
    refine ⟨d, n'', ?_, hcd, hm'', ⟨hq.trans hp, hd.trans hc⟩, hq'.trans hp', hd'.trans hc'⟩
    simp only [Bind.bind, EStateM.bind, hy, hg]
  · cases hrun

/-- The rest of two computations that found the same. -/
lemma same {f : α → Run γ} {g : α → Run δ} {x y : Run α} (h : ρ.Alike m n x y (· = ·))
    (hfg : ∀ a m' n', ρ.Mirrors m' n' → ρ.Alike m' n' (f a) (g a) Q) :
    ρ.Alike m n (x >>= f) (y >>= g) Q :=
  h.bind fun a _ m' n' hab h' _ _ _ _ => hab ▸ hfg a m' n' h'

lemma onState {f : Machine → Run γ} {g : Machine → Run δ} (h : ρ.Alike m n (f m) (g n) Q) :
    ρ.Alike m n (get >>= f) (get >>= g) Q := h

/-- A computation that succeeds in both machines. -/
lemma of_ok {a : α} {b : β} {m' n' : Machine} (hx : x m = .ok a m') (hy : y n = .ok b n')
    (hab : P a b) (h : ρ.Mirrors m' n') (hp : m'.program = m.program) (hc : m'.code = m.code)
    (hp' : n'.program = n.program) (hc' : n'.code = n.code) : ρ.Alike m n x y P := by
  intro a' m'' hrun
  rw [hx] at hrun
  cases hrun
  exact ⟨b, n', hy, hab, h, ⟨hp, hc⟩, hp', hc'⟩

lemma of_error {e : Fault} {m' : Machine} (hx : x m = .error e m') : ρ.Alike m n x y P := by
  intro a' m'' hrun
  rw [hx] at hrun
  cases hrun

end Alike

namespace Mirrors

/-! ## Slots -/

lemma load_plain (h : ρ.Mirrors m n) (hs : ρ.Plain s) :
    ρ.Alike m n (Run.load s) (Run.load (ρ.slot s)) (· = ·) :=
  .of_ok rfl rfl (h.plain s hs.1 hs.2).symm h rfl rfl rfl rfl

lemma load_address (h : ρ.Mirrors m n) (hs : s < ρ.size) (haddress : ρ.addresses s) :
    ρ.Alike m n (Run.load s) (Run.load (ρ.slot s)) ρ.Shifted :=
  .of_ok rfl rfl (h.address s hs haddress) h rfl rfl rfl rfl

/-- Two slots that correspond take two values that do. -/
lemma store (hρ : ρ.Proper) (h : ρ.Mirrors m n) (hs : s < ρ.size) {v w : Value}
    (hplain : ¬ ρ.addresses s → w = v) (haddress : ρ.addresses s → ρ.Shifted v w) :
    ρ.Alike m n (Run.store s v) (Run.store (ρ.slot s) w) fun _ _ => True := by
  have hfirst : ∀ t, (m.heap.modify s fun _ => v).getD t .null =
      if s = t then v else m.heap.getD t .null := by
    intro t
    rw [Machine.getD_modify]
    simp [h.heap_size, hs]
  have hsecond : ∀ t < ρ.size, (n.heap.modify (ρ.slot s) fun _ => w).getD (ρ.slot t) .null =
      if s = t then w else n.heap.getD (ρ.slot t) .null := by
    intro t ht
    rw [Machine.getD_modify]
    have hiff : ρ.slot s = ρ.slot t ↔ s = t := ⟨hρ.injective s hs t ht, fun hst => by rw [hst]⟩
    simp only [hiff, (hρ.slot_lt s hs).trans_le h.room, and_true]
  refine .of_ok rfl rfl trivial ?_ rfl rfl rfl rfl
  refine { h with heap_size := ?_, room := ?_, plain := fun t ht hno => ?_,
                  address := fun t ht hyes => ?_ }
  · simpa using h.heap_size
  · simpa using h.room
  · change (n.heap.modify (ρ.slot s) fun _ => w).getD (ρ.slot t) .null =
      (m.heap.modify s fun _ => v).getD t .null
    rw [hfirst, hsecond t ht]
    split_ifs with hst
    · exact hplain (hst ▸ hno)
    · exact h.plain t ht hno
  · change ρ.Shifted ((m.heap.modify s fun _ => v).getD t .null)
      ((n.heap.modify (ρ.slot s) fun _ => w).getD (ρ.slot t) .null)
    rw [hfirst, hsecond t ht]
    split_ifs with hst
    · exact haddress (hst ▸ hyes)
    · exact h.address t ht hyes

lemma store_plain (hρ : ρ.Proper) (h : ρ.Mirrors m n) (hs : ρ.Plain s) (v : Value) :
    ρ.Alike m n (Run.store s v) (Run.store (ρ.slot s) v) fun _ _ => True :=
  store hρ h hs.1 (fun _ => rfl) fun hyes => absurd hyes hs.2

lemma effect (h : ρ.Mirrors m n) (f : Effects → Effects) :
    ρ.Alike m n (Run.effect f) (Run.effect f) fun _ _ => True :=
  .of_ok rfl rfl trivial { h with effects := congrArg f h.effects } rfl rfl rfl rfl

section

variable (h : ρ.Mirrors m n) (hs : ρ.Plain s)
include h hs

lemma loadInt : ρ.Alike m n (Run.loadInt s) (Run.loadInt (ρ.slot s)) (· = ·) := by
  refine (h.load_plain hs).same fun v m' n' h' => ?_
  cases v
  case int32 => exact .pure h' rfl
  all_goals exact .throw _

lemma loadString : ρ.Alike m n (Run.loadString s) (Run.loadString (ρ.slot s)) (· = ·) := by
  refine (h.load_plain hs).same fun v m' n' h' => ?_
  cases v
  case string => exact .pure h' rfl
  all_goals exact .throw _

lemma loadDelay : ρ.Alike m n (Run.loadDelay s) (Run.loadDelay (ρ.slot s)) (· = ·) := by
  refine (h.load_plain hs).same fun v m' n' h' => ?_
  cases v
  case single => exact .pure h' rfl
  all_goals exact .throw _

end

/-! ## The stack -/

/-- A computation on the top of the stack, which is taken from it. -/
lemma onTop {α β : Type} {f : SlotId → Run α} {g : SlotId → Run β} {Q : α → β → Prop}
    (h : ρ.Mirrors m n)
    (hfg : ∀ a rest, m.stack = a :: rest → a < ρ.size →
      ρ.Mirrors { m with stack := rest } { n with stack := rest.map ρ.slot } →
      ρ.Alike { m with stack := rest } { n with stack := rest.map ρ.slot } (f a) (g (ρ.slot a)) Q) :
    ρ.Alike m n (Run.pop >>= f) (Run.pop >>= g) Q := by
  cases hstack : m.stack with
  | nil =>
    have hpop : Run.pop m = .error .stackUnderflow m := by
      simp only [Run.pop, Run.get_bind, hstack]
      rfl
    exact .of_error (bind_of_error hpop _)
  | cons a rest =>
    have hn : n.stack = ρ.slot a :: rest.map ρ.slot := by rw [h.stack, hstack, List.map_cons]
    have hrest : ∀ x ∈ rest, x < ρ.size := fun x hx =>
      h.stack_lt x (hstack ▸ List.mem_cons_of_mem _ hx)
    intro x m' hrun
    rw [bind_of_ok (Run.pop_apply hstack)] at hrun
    rw [bind_of_ok (Run.pop_apply hn)]
    exact hfg a rest hstack (h.stack_lt a (hstack ▸ List.mem_cons_self))
      { h with stack_lt := hrest, stack := rfl } x m' hrun

/-- The arguments of a call are renamed; none of them holds an address if no slot on the stack
does. -/
lemma arguments (h : ρ.Mirrors m n) (hplain : ∀ s ∈ m.stack, ¬ ρ.addresses s) (count : Nat) :
    ρ.Alike m n (Run.arguments count) (Run.arguments count) fun a b =>
      b = a.map ρ.slot ∧ a.length = count ∧ ∀ s ∈ a, ρ.Plain s := by
  have hlength : n.stack.length = m.stack.length := by rw [h.stack, List.length_map]
  by_cases hfew : m.stack.length < count
  · have hfails : Run.arguments count m = .error (.fewArguments count) m := by
      simp only [Run.arguments, Run.get_bind, if_pos hfew]
      rfl
    exact .of_error hfails
  · refine .of_ok (Run.arguments_eq hfew) (Run.arguments_eq (hlength ▸ hfew)) ⟨?_, ?_, fun s hs => ?_⟩
      ?_ rfl rfl rfl rfl
    · rw [h.stack, ← List.map_take, List.map_reverse]
    · simpa using hfew
    · have hmem := List.mem_of_mem_take (List.mem_reverse.mp hs)
      exact ⟨h.stack_lt s hmem, hplain s hmem⟩
    · refine { h with stack_lt := fun x hx => h.stack_lt x (List.mem_of_mem_drop hx), stack := ?_ }
      change n.stack.drop count = (m.stack.drop count).map ρ.slot
      rw [h.stack, List.map_drop]

/-! ## Calls into the host -/

/-- A computation on the arguments of a call. -/
lemma onArguments (h : ρ.Mirrors m n) (hplain : ∀ s ∈ m.stack, ¬ ρ.addresses s) (count : Nat)
    {f : List SlotId → Run Unit}
    (hf : ∀ (a : List SlotId) (m' n' : Machine), a.length = count → (∀ s ∈ a, ρ.Plain s) →
      ρ.Mirrors m' n' → ρ.Alike m' n' (f a) (f (a.map ρ.slot)) fun _ _ => True) :
    ρ.Alike m n (Run.arguments count >>= f) (Run.arguments count >>= f) fun _ _ => True := by
  refine .bind (h.arguments hplain count) ?_
  rintro a _ m' n' ⟨rfl, hlength, ha⟩ h' - - - -
  exact hf a m' n' hlength ha h'

section

variable (hρ : ρ.Proper) (h : ρ.Mirrors m n) (hplain : ∀ s ∈ m.stack, ¬ ρ.addresses s)
include hρ h hplain

lemma intCall {signature : String} {run : Run Unit} (hrun : Run.intCall signature = some run) :
    ρ.Alike m n run run fun _ _ => True := by
  unfold Run.intCall at hrun
  dsimp only at hrun
  split at hrun
  · obtain rfl := Option.some.inj hrun
    refine h.onArguments hplain 3 fun a m₁ n₁ hlength ha h₁ => ?_
    obtain ⟨a, b, c, rfl⟩ := List.length_eq_three.mp hlength
    refine (h₁.loadInt (ha a (by simp))).same fun x m₂ n₂ h₂ => ?_
    refine (h₂.loadInt (ha b (by simp))).same fun y m₃ n₃ h₃ => ?_
    refine Alike.same ?_ fun v m₄ n₄ h₄ => store_plain hρ h₄ (ha c (by simp)) _
    unfold Run.checked
    split_ifs
    · exact .pure h₃ rfl
    · exact .throw _
  · obtain rfl := Option.some.inj hrun
    refine h.onArguments hplain 3 fun a m₁ n₁ hlength ha h₁ => ?_
    obtain ⟨a, b, c, rfl⟩ := List.length_eq_three.mp hlength
    refine (h₁.loadInt (ha a (by simp))).same fun x m₂ n₂ h₂ => ?_
    refine (h₂.loadInt (ha b (by simp))).same fun y m₃ n₃ h₃ => ?_
    exact store_plain hρ h₃ (ha c (by simp)) _
  · cases hrun

lemma relationCall (relation : Value → Value → Bool) :
    ρ.Alike m n (Run.relationCall relation) (Run.relationCall relation) fun _ _ => True := by
  refine h.onArguments hplain 3 fun a m₁ n₁ hlength ha h₁ => ?_
  obtain ⟨a, b, c, rfl⟩ := List.length_eq_three.mp hlength
  refine (h₁.load_plain (ha a (by simp))).same fun x m₂ n₂ h₂ => ?_
  refine (h₂.load_plain (ha b (by simp))).same fun y m₃ n₃ h₃ => ?_
  exact store_plain hρ h₃ (ha c (by simp)) _

lemma negationCall : ρ.Alike m n Run.negationCall Run.negationCall fun _ _ => True := by
  refine h.onArguments hplain 2 fun a m₁ n₁ hlength ha h₁ => ?_
  obtain ⟨a, b, rfl⟩ := List.length_eq_two.mp hlength
  refine (h₁.load_plain (ha a (by simp))).same fun x m₂ n₂ h₂ => ?_
  exact store_plain hρ h₂ (ha b (by simp)) _

/-- A call does the same on renamed slots, as long as it is given no address. -/
lemma call (signature : String) :
    ρ.Alike m n (Run.call signature) (Run.call signature) fun _ _ => True := by
  unfold Run.call
  split
  · rename_i run hrun
    exact intCall hρ h hplain hrun
  split_ifs
  · exact negationCall hρ h hplain
  · exact relationCall hρ h hplain _
  · exact relationCall hρ h hplain _
  · refine h.onArguments hplain 1 fun a m₁ n₁ hlength ha h₁ => ?_
    obtain ⟨a, rfl⟩ := List.length_eq_one_iff.mp hlength
    exact (h₁.load_plain (ha a (by simp))).same fun x m₂ n₂ h₂ => h₂.effect _
  · refine h.onArguments hplain 2 fun a m₁ n₁ hlength ha h₁ => ?_
    obtain ⟨a, b, rfl⟩ := List.length_eq_two.mp hlength
    exact (h₁.loadString (ha b (by simp))).same fun x m₂ n₂ h₂ => h₂.effect _
  · refine h.onArguments hplain 3 fun a m₁ n₁ hlength ha h₁ => ?_
    obtain ⟨a, b, c, rfl⟩ := List.length_eq_three.mp hlength
    refine (h₁.loadInt (ha b (by simp))).same fun x m₂ n₂ h₂ => ?_
    exact (h₂.loadString (ha c (by simp))).same fun y m₃ n₃ h₃ => h₃.effect _
  · refine h.onArguments hplain 4 fun a m₁ n₁ hlength ha h₁ => ?_
    obtain ⟨a, b, c, d, rfl⟩ := List.length_eq_four.mp hlength
    refine (h₁.loadDelay (ha c (by simp))).same fun x m₂ n₂ h₂ => ?_
    exact (h₂.loadString (ha b (by simp))).same fun y m₃ n₃ h₃ => h₃.effect _
  · refine .bind (h.arguments hplain 1) ?_
    rintro a _ m₁ n₁ - h₁ - - - -
    exact h₁.effect _
  · refine h.onArguments hplain 2 fun a m₁ n₁ hlength ha h₁ => ?_
    obtain ⟨a, b, rfl⟩ := List.length_eq_two.mp hlength
    refine .onState ?_
    rw [h₁.isOwner]
    exact store_plain hρ h₁ (ha b (by simp)) _
  · refine h.onArguments hplain 1 fun a m₁ n₁ hlength ha h₁ => ?_
    obtain ⟨a, rfl⟩ := List.length_eq_one_iff.mp hlength
    refine .onState ?_
    rw [h₁.isMaster]
    exact store_plain hρ h₁ (ha a (by simp)) _
  · exact .throw _

end

end Mirrors

/-! ## Jumps -/

section

variable (h : ρ.Carries base m n)
include h

/-- Only the programs and their code count. -/
lemma Carries.congr (hm : m'.code = m.code) (hp : m'.program = m.program) (hn : n'.code = n.code)
    (hq : n'.program = n.program) : ρ.Carries base m' n' where
  code := by rw [hm, hn]; exact h.code
  before := by rw [hn]; exact h.before
  label := by rw [hp, hq]; exact h.label
  method := by rw [hp, hq]; exact h.method

lemma Carries.findIdx? {a k : Nat} (hfind : m.code.findIdx? (fun entry => a ≤ entry.1) = some k) :
    n.code.findIdx? (fun entry => ρ.shift + a ≤ entry.1) = some (base + k) := by
  obtain ⟨hk, hle, hfirst⟩ := Array.findIdx?_eq_some_iff_getElem.mp hfind
  have hcode : ∀ j (hj : j < m.code.size), ∃ hj' : base + j < n.code.size,
      (n.code[base + j]).1 = ρ.shift + (m.code[j]).1 := by
    intro j hj
    have hget := h.code j _ _ (Array.getElem?_eq_getElem hj)
    obtain ⟨hj', heq⟩ := Array.getElem?_eq_some_iff.mp hget
    exact ⟨hj', congrArg Prod.fst heq⟩
  obtain ⟨hk', hsame⟩ := hcode k hk
  refine Array.findIdx?_eq_some_iff_getElem.mpr ⟨hk', ?_, fun j hj => ?_⟩
  · simpa [hsame] using hle
  · by_cases hbase : j < base
    · have hlt := h.before j _ _ hbase (Array.getElem?_eq_getElem (hj.trans hk'))
      simp only [decide_eq_true_eq, not_le]
      exact hlt.trans_le (Nat.le_add_right _ _)
    · obtain ⟨i, rfl⟩ := Nat.exists_eq_add_of_le (Nat.le_of_not_lt hbase)
      have hik : i < k := by omega
      obtain ⟨hi', hsame'⟩ := hcode i (hik.trans hk)
      have hno := hfirst i hik
      simp only [decide_eq_true_eq, not_le] at hno ⊢
      omega

/-- A place lies as far behind the start of the renamed code as it did behind the start. -/
lemma Carries.locate (hm : ρ.Mirrors m n) (a : Nat) :
    ρ.Alike m n (Run.locate a) (Run.locate (ρ.shift + a)) fun x y => y = base + x := by
  cases hfind : m.code.findIdx? fun entry => a ≤ entry.1 with
  | none =>
    have hfails : Run.locate a m = .error (.pastCode a) m := by
      simp only [Run.locate, Run.get_bind, hfind]
      rfl
    exact .of_error hfails
  | some k =>
    have hfind' : n.code.findIdx? (fun entry => ρ.shift + a ≤ entry.1) = some (base + k) :=
      h.findIdx? hfind
    have hfound : ∀ (q : Machine) (b : Nat) (x : Nat),
        q.code.findIdx? (fun entry => b ≤ entry.1) = some x → Run.locate b q = .ok x q := by
      intro q b x hx
      simp only [Run.locate, Run.get_bind, hx]
      rfl
    exact .of_ok (hfound m a k hfind) (hfound n _ _ hfind') rfl hm rfl rfl rfl rfl

lemma Carries.locateLabel (hm : ρ.Mirrors m n) (l : InstrId) :
    ρ.Alike m n (Run.locateLabel l) (Run.locateLabel (ρ.names.instrId l))
      fun x y => y = base + x := by
  refine .onState ?_
  cases haddress : m.program.address? l with
  | none => exact .throw _
  | some a =>
    rw [h.label l a haddress]
    exact h.locate hm a

end

/-! ## Steps -/

/-- The instruction keeps addresses apart from other values: a copy is between slots of one kind, a
call is given none, and an indirect jump goes through one. -/
def Separates (ρ : Relocation) (m : Machine) : Instr → Prop
  | .copy => ∀ target source rest, m.stack = target :: source :: rest →
      (ρ.addresses source ↔ ρ.addresses target)
  | .host _ => ∀ s ∈ m.stack, ¬ ρ.addresses s
  | .jumpIndirect s => ρ.addresses s
  | _ => True

/-- A step of the code is a step of the renamed code, to the position that corresponds. -/
lemma Carries.step (hρ : ρ.Proper) (hc : ρ.Carries base m n) (hm : ρ.Mirrors m n) (k : Nat)
    (hk : ∀ a i, m.code[k]? = some (a, i) → ρ.Separates m i ∧ ∀ s ∈ i.operands, s < ρ.size) :
    ρ.Alike m n (Run.step k) (Run.step (base + k)) fun x y => y = x.map (base + ·) := by
  refine .onState ?_
  cases hcode : m.code[k]? with
  | none => exact .throw _
  | some entry =>
    obtain ⟨a, i⟩ := entry
    obtain ⟨hseparates, hoperands⟩ := hk a i hcode
    rw [hc.code k a i hcode]
    have hnext : ∀ m₁ n₁, ρ.Mirrors m₁ n₁ → ρ.Alike m₁ n₁ (pure (some (k + 1)))
        (pure (some (base + k + 1))) fun x y => y = x.map (base + ·) :=
      fun _ _ h => .pure h rfl
    cases i with
    | nop => exact hnext m n hm
    | push slot =>
      refine .bind (P := fun _ _ => True) (.of_ok rfl rfl trivial ?_ rfl rfl rfl rfl)
        fun _ _ m₁ n₁ _ h₁ _ _ _ _ => hnext m₁ n₁ h₁
      have hslot : slot < ρ.size := hoperands slot (by simp [Instr.operands])
      refine { hm with stack_lt := ?_, stack := ?_ }
      · rintro x (_ | ⟨_, hx⟩)
        · exact hslot
        · exact hm.stack_lt x hx
      · change ρ.slot slot :: n.stack = (slot :: m.stack).map ρ.slot
        rw [hm.stack, List.map_cons]
    | copy =>
      refine hm.onTop fun target rest hstack htarget h₁ => ?_
      refine h₁.onTop fun source rest' hstack' hsource h₂ => ?_
      have hkind : ρ.addresses source ↔ ρ.addresses target :=
        hseparates target source rest' (hstack.trans (congrArg _ hstack'))
      by_cases haddress : ρ.addresses source
      · refine .bind (h₂.load_address hsource haddress) ?_
        rintro v w m₃ n₃ hvw h₃ - - - -
        exact .bind (Mirrors.store hρ h₃ htarget (fun hno => absurd (hkind.mp haddress) hno) fun _ => hvw)
          fun _ _ m₄ n₄ _ h₄ _ _ _ _ => hnext m₄ n₄ h₄
      · refine (h₂.load_plain ⟨hsource, haddress⟩).same fun v m₃ n₃ h₃ => ?_
        exact .bind (Mirrors.store_plain hρ h₃ ⟨htarget, fun hyes => haddress (hkind.mpr hyes)⟩ v)
          fun _ _ m₄ n₄ _ h₄ _ _ _ _ => hnext m₄ n₄ h₄
    | host signature =>
      exact .bind (Mirrors.call hρ hm hseparates signature) fun _ _ m₁ n₁ _ h₁ _ _ _ _ => hnext m₁ n₁ h₁
    | halt => exact .pure hm rfl
    | jump label =>
      refine .bind (hc.locateLabel hm label) ?_
      rintro p _ m₁ n₁ rfl h₁ - - - -
      exact .pure h₁ rfl
    | jumpIfFalse label =>
      refine hm.onTop fun s rest _ hs h₁ => ?_
      by_cases haddress : ρ.addresses s
      · refine .bind (h₁.load_address hs haddress) ?_
        rintro v w m₂ n₂ hvw h₂ - - - -
        cases hvw <;> exact .throw _
      · refine .bind (h₁.load_plain ⟨hs, haddress⟩) ?_
        rintro v _ m₂ n₂ rfl h₂ hcode₃ hprogram₃ hcode₄ hprogram₄
        cases v with
        | boolean b =>
          cases b with
          | false =>
            refine .bind ((hc.congr hcode₃ hprogram₃ hcode₄ hprogram₄).locateLabel h₂
              label) ?_
            rintro p _ m₃ n₃ rfl h₃ - - - -
            exact .pure h₃ rfl
          | true => exact hnext m₂ n₂ h₂
        | _ => exact .throw _
    | jumpIndirect slot =>
      refine .bind (hm.load_address (hoperands slot (by simp [Instr.operands])) hseparates) ?_
      rintro v w m₂ n₂ hvw h₂ hcode₁ hprogram₁ hcode₂ hprogram₂
      cases hvw with
      | null => exact .throw _
      | halt => exact .pure h₂ rfl
      | @place x y apart old new =>
        simp only [if_neg old, if_neg new, apart]
        refine .bind ((hc.congr hcode₁ hprogram₁ hcode₂ hprogram₂).locate h₂ _) ?_
        rintro p _ m₃ n₃ rfl h₃ - - - -
        exact .pure h₃ rfl
    | jumpMethod name =>
      refine .onState ?_
      cases haddress : m.program.methodAddress? name with
      | none => exact .throw _
      | some address =>
        rw [hc.method name address haddress]
        refine .bind (hc.locate hm address) ?_
        rintro p _ m₁ n₁ rfl h₁ - - - -
        exact .pure h₁ rfl

end Relocation

end TriggerCompiler
