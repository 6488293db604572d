import Mathlib
import TriggerCompiler.Proofs.GrownRegistry

/-!
# Methods that call methods

The calls of a compiled program go down. A method that the host starts calls methods that return, a
method that returns calls methods of merged groups, and these call each other as they did in their
group. So no chain of calls comes back to a method that has not returned. Each method returns through
a slot of its own. Main statement: `compileTrigger_layered`.
-/

namespace TriggerCompiler

variable {x : Method} {name : String} {code : List Line} {options : CompileOptions}

open Lower

/-! ## Calls in phrases -/

lemma Watch.noCall (w : Watch) (name : String) : .code (.jumpMethod name) ∉ w.lines := by
  unfold Watch.lines changeLines
  split_ifs
  all_goals simp [callLines, copyLines, branchLines]

/-- Only one kind of phrase calls a method. -/
lemma Phrase.eq_invoke {x : Phrase} (h : .code (.jumpMethod name) ∈ x.lines) :
    ∃ address slot back, x = .invoke address slot name back := by
  cases x with
  | invoke address slot name' back =>
    obtain rfl : name = name' := by simpa [lines, copyLines] using h
    exact ⟨address, slot, back, rfl⟩
  | call signature arguments => simp [lines, callLines] at h
  | update source w =>
    refine absurd ?_ (w.noCall name)
    simpa [lines, copyLines] using h
  | compute signature arguments w =>
    refine absurd ?_ (w.noCall name)
    simpa [lines, callLines] using h
  | _ => simp [lines, copyLines, branchLines] at h

lemma Spells.callee {v : Terms} (h : Spells v code) (hname : .code (.jumpMethod name) ∈ code) :
    ∃ slot, v.callee name slot := by
  obtain ⟨xs, rfl, hxs⟩ := h
  obtain ⟨x, hx, hmem⟩ := List.mem_flatMap.mp hname
  obtain ⟨address, slot, back, rfl⟩ := Phrase.eq_invoke hmem
  exact ⟨slot, (hxs _ hx).2⟩

namespace Program

variable {p q host sub host' : Program} {r : Renaming} {j k m : MethodId}

/-- The body of the method calls the name. -/
def Invokes (p : Program) (k : MethodId) (name : String) : Prop :=
  .code (.jumpMethod name) ∈ p.lines k

/-- A method of the second name calls the first. -/
def Called (p : Program) (callee caller : String) : Prop :=
  ∃ k < p.methods.size, (p.method k).name = caller ∧ p.Invokes k callee

/-- No two methods return through the same slot. -/
def ReturnsApart (p : Program) : Prop :=
  ∀ j < p.methods.size, ∀ k < p.methods.size, ∀ slot, (p.method j).epilogue = .indirect slot →
    (p.method k).epilogue = .indirect slot → j = k

/-- A method that the host can start does not return. -/
def EntriesHalt (p : Program) : Prop :=
  ∀ x ∈ p.methods.toList, x.isExported = true → x.epilogue = .halt

/-- Methods are known by their names and by the slots that they return through, and no chain of calls
goes on forever. -/
structure Layered (p : Program) : Prop where
  names : p.names.Nodup
  returns : p.ReturnsApart
  halts : p.EntriesHalt
  calls : WellFounded p.Called

lemma names_getElem? (hk : k < p.methods.size) : p.names[k]? = some (p.method k).name := by
  simp [names, method, Array.getD_eq_getD_getElem?, hk]

lemma eq_of_name (h : p.names.Nodup) (hj : j < p.methods.size) (hk : k < p.methods.size)
    (hname : (p.method j).name = (p.method k).name) : j = k := by
  have hlength : j < p.names.length := by simpa [names] using hj
  refine (List.getElem?_inj hlength h).mp ?_
  rw [names_getElem? hj, names_getElem? hk, hname]

lemma names_congr (hsize : q.methods.size = p.methods.size)
    (hname : ∀ k < p.methods.size, (q.method k).name = (p.method k).name) : q.names = p.names := by
  apply List.ext_getElem?
  intro k
  by_cases hk : k < p.methods.size
  · rw [names_getElem? hk, names_getElem? (hsize.symm ▸ hk), hname k hk]
  · rw [List.getElem?_eq_none, List.getElem?_eq_none]
    · simpa [names] using hk
    · simpa [names, hsize] using hk

lemma names_push (hq : q.methods = p.methods.push x) : q.names = p.names ++ [x.name] := by
  simp [names, hq]

lemma ReturnsApart.congr (h : p.ReturnsApart) (hsize : q.methods.size = p.methods.size)
    (hepilogue : ∀ k < p.methods.size, (q.method k).epilogue = (p.method k).epilogue) :
    q.ReturnsApart := by
  intro j hj k hk slot hjs hks
  rw [hsize] at hj hk
  rw [hepilogue j hj] at hjs
  rw [hepilogue k hk] at hks
  exact h j hj k hk slot hjs hks

/-- One method more, that returns through a new slot if it returns. -/
lemma ReturnsApart.push (h : p.ReturnsApart) (hq : q.methods = p.methods.push x)
    (hx : ∀ slot, x.epilogue = .indirect slot → ¬ p.Returns slot) : q.ReturnsApart := by
  have hsize : q.methods.size = p.methods.size + 1 := by simp [hq]
  have hself : ∀ k < q.methods.size, ¬ k < p.methods.size → k = p.methods.size ∧ q.method k = x := by
    intro k hk hno
    obtain rfl : k = p.methods.size := by omega
    exact ⟨rfl, method_push_self hq⟩
  have hold : ∀ k < p.methods.size, ∀ slot, (q.method k).epilogue = .indirect slot →
      x.epilogue ≠ .indirect slot := by
    intro k hk slot hks hxs
    rw [method_push hq hk] at hks
    exact hx slot hxs ⟨_, method_mem hk, hks⟩
  intro j hj k hk slot hjs hks
  by_cases hj' : j < p.methods.size
  · by_cases hk' : k < p.methods.size
    · rw [method_push hq hj'] at hjs
      rw [method_push hq hk'] at hks
      exact h j hj' k hk' slot hjs hks
    · rw [(hself k hk hk').2] at hks
      exact absurd hks (hold j hj' slot hjs)
  · by_cases hk' : k < p.methods.size
    · rw [(hself j hj hj').2] at hjs
      exact absurd hjs (hold k hk' slot hks)
    · rw [(hself j hj hj').1, (hself k hk hk').1]

lemma EntriesHalt.congr (h : p.EntriesHalt) (hsize : q.methods.size = p.methods.size)
    (hkind : ∀ k < p.methods.size, (q.method k).kind = (p.method k).kind)
    (hepilogue : ∀ k < p.methods.size, (q.method k).epilogue = (p.method k).epilogue) :
    q.EntriesHalt := by
  intro x hx hexported
  obtain ⟨k, hk, rfl⟩ := exists_method_of_mem hx
  rw [hsize] at hk
  rw [hepilogue k hk]
  refine h _ (method_mem hk) ?_
  rwa [Method.isExported, ← hkind k hk]

lemma EntriesHalt.push (h : p.EntriesHalt) (hq : q.methods = p.methods.push x)
    (hx : x.isExported = true → x.epilogue = .halt) : q.EntriesHalt := by
  intro y hy
  rcases (mem_push hq).mp hy with hy | rfl
  · exact h y hy
  · exact hx

section

variable (h : Merged host sub r host')
include h

lemma Merged.entriesHalt (hhost : host.EntriesHalt) (hsub : sub.EntriesHalt) :
    host'.EntriesHalt := by
  intro x hx hexported
  rw [h.methods, Array.toList_append, Array.toList_map, List.mem_append] at hx
  rcases hx with hx | hx
  · exact hhost x hx hexported
  · obtain ⟨y, hy, rfl⟩ := List.mem_map.mp hx
    change r.epilogue y.epilogue = .halt
    rw [hsub y hy hexported]
    rfl

/-- A method of the merged program is one of the host or the copy of one. -/
lemma Merged.method_cases (hk : k < host'.methods.size) :
    (k < host.methods.size ∧ host'.method k = host.method k) ∨
      ∃ j < sub.methods.size, k = host.methods.size + j ∧ host'.method k = r.methodDef (sub.method j) := by
  by_cases hlt : k < host.methods.size
  · exact .inl ⟨hlt, h.method_host hlt⟩
  · obtain ⟨j, rfl⟩ := Nat.exists_eq_add_of_le (Nat.le_of_not_lt hlt)
    have hj : j < sub.methods.size := by
      rw [h.size_methods] at hk
      exact Nat.lt_of_add_lt_add_left hk
    exact .inr ⟨j, hj, rfl, h.method_sub hj⟩

lemma Merged.returnsApart (hhost : host.ReturnsApart) (hsub : sub.ReturnsApart)
    (hhostTidy : host.Tidy) (hsubTidy : sub.Tidy) : host'.ReturnsApart := by
  have hold : ∀ k < host.methods.size, ∀ slot, (host.method k).epilogue = .indirect slot →
      slot < host.slots.size := fun k hk slot hslot =>
    (hhostTidy.returns slot ⟨_, Program.method_mem hk, hslot⟩).lt
  have hnew : ∀ k < sub.methods.size, ∀ slot, (r.methodDef (sub.method k)).epilogue = .indirect slot →
      ∃ x < sub.slots.size, (sub.slots.get x).isThis = false ∧
        (sub.method k).epilogue = .indirect x ∧ r.slot x = slot := by
    intro k hk slot hslot
    obtain ⟨x, hx, rfl⟩ := Renaming.epilogue_eq_indirect hslot
    have happart := hsubTidy.returns x ⟨_, Program.method_mem hk, hx⟩
    exact ⟨x, happart.lt, happart.isThis, hx, rfl⟩
  have hcross : ∀ j < host.methods.size, ∀ k < sub.methods.size, ∀ slot,
      (host.method j).epilogue = .indirect slot →
        (r.methodDef (sub.method k)).epilogue ≠ .indirect slot := by
    intro j hj k hk slot hjs hks
    obtain ⟨x, hlt, hthis, -, rfl⟩ := hnew k hk slot hks
    exact absurd (hold j hj _ hjs) (Nat.not_lt.mpr (h.copy_get hlt hthis).1)
  intro j hj k hk slot hjs hks
  rcases h.method_cases hj with ⟨hjlt, hmj⟩ | ⟨j', hjlt, rfl, hmj⟩
  all_goals rw [hmj] at hjs
  all_goals rcases h.method_cases hk with ⟨hklt, hmk⟩ | ⟨k', hklt, rfl, hmk⟩
  all_goals rw [hmk] at hks
  · exact hhost j hjlt k hklt slot hjs hks
  · exact absurd hks (hcross j hjlt k' hklt slot hjs)
  · exact absurd hjs (hcross k hklt j' hjlt slot hks)
  · obtain ⟨x, hx, hthis, hjx, rfl⟩ := hnew j' hjlt slot hjs
    obtain ⟨y, hy, hthis', hky, hsame⟩ := hnew k' hklt _ hks
    obtain rfl : y = x := h.slots.injective y x _ _ (SlotTable.slots_getElem? hy)
      (SlotTable.slots_getElem? hx) hthis' hthis hsame
    rw [hsub j' hjlt k' hklt y hjx hky]

lemma Merged.nodup (hhost : host.names.Nodup) : host'.names.Nodup := by
  rw [h.names_eq]
  refine hhost.append (h.distinct.map fun x y hxy => ?_) ?_
  · exact String.append_right_inj _ |>.mp hxy
  · intro name hname hmem
    obtain ⟨z, hz, rfl⟩ := List.mem_map.mp hmem
    obtain ⟨x, hx, rfl⟩ := List.mem_map.mp hz
    exact h.fresh x hx hname

/-- What a method calls once it is merged, it called before under another name. -/
lemma Merged.invokes_sub (hj : j < sub.methods.size)
    (hcall : host'.Invokes (host.methods.size + j) name) :
    ∃ name', sub.Invokes j name' ∧ name = r.method name' := by
  unfold Invokes at hcall
  rw [h.lines_sub hj] at hcall
  obtain ⟨x, hx, hline⟩ := List.mem_map.mp hcall
  cases x with
  | label l => cases hline
  | code i =>
    obtain ⟨name', rfl, hname⟩ := Renaming.instr_eq_jumpMethod (Line.code.inj hline)
    exact ⟨name', hx, hname.symm⟩

end

end Program

/-! ## Work on a body -/

namespace Site

variable {a b : Site} {m k : MethodId}

/-- Work on one body leaves the calls of the others. -/
lemma Works.invokes (h : a.Works m b) (ha : a.Sound) (hk : k < a.program.methods.size) (hne : k ≠ m)
    (hcall : b.program.Invokes k name) : a.program.Invokes k name := by
  obtain ⟨id, hid, hline⟩ := List.mem_map.mp hcall
  rw [h.others k hne] at hid
  have hlt := ha.body_lt hk hid
  have hno : ¬ a.program.IsJump id := fun hjump => by
    obtain ⟨l, hl⟩ := h.jump id hjump
    have hinstr := (Program.line_eq_code.mp hline).1
    rw [hl] at hinstr
    cases hinstr
  refine List.mem_map.mpr ⟨id, hid, ?_⟩
  rw [← hline]
  exact (Program.line_congr (h.fixed id hlt hno)).symm

lemma Works.entriesHalt (h : a.Works m b) (ha : a.program.EntriesHalt) :
    b.program.EntriesHalt := by
  refine ha.congr h.methods (fun k _ => ?_) fun k _ => h.method_epilogue k
  by_cases hk : k = m
  · exact hk ▸ h.kind
  · rw [h.others k hk]

lemma Adds.invokes (h : a.Adds m code b) (ha : a.Sound) (hm : m < a.program.methods.size)
    (hcall : b.program.Invokes m name) :
    a.program.Invokes m name ∨ .code (.jumpMethod name) ∈ code := by
  unfold Program.Invokes at hcall ⊢
  rw [h.lines ha hm] at hcall
  exact List.mem_append.mp hcall

end Site

/-! ## Tiers -/

/-- What is below an image comes from below. -/
lemma acc_image {α β : Type} {r : α → α → Prop} {r' : β → β → Prop} {f : α → β} {P : α → Prop}
    (hstep : ∀ x, P x → ∀ y, r' y (f x) → ∃ z, P z ∧ r z x ∧ y = f z) {x : α} (hx : P x)
    (hacc : Acc r x) : Acc r' (f x) := by
  induction hacc with
  | intro x _ ih =>
    refine Acc.intro _ fun y hy => ?_
    obtain ⟨z, hz, hzx, rfl⟩ := hstep x hx y hy
    exact ih z hzx hz

namespace LowerState

variable {s t : LowerState} {env : Environment} {R : Rules} {loose : MethodId → Prop} {k : MethodId}

lemma Endures.callee (h : s.Endures t) {slot : SlotId} (hc : s.program.Callee name slot) :
    t.program.Callee name slot := by
  obtain ⟨x, hx, rfl, hslot⟩ := hc
  obtain ⟨k, hk, rfl⟩ := Program.exists_method_of_mem hx
  exact ⟨_, Program.method_mem (hk.trans_le h.size_le), h.name k hk, (h.epilogue k hk).trans hslot⟩

/-- What a method of the document may call: a merged method, and if it does not return, any method that
does. -/
def Permits (s : LowerState) (k : MethodId) (name : String) : Prop :=
  s.Merged name ∨ (s.program.method k).epilogue = .halt ∧ ∃ slot, s.program.Callee name slot

lemma Endures.permits (h : s.Endures t) (hk : k < s.program.methods.size)
    (hp : s.Permits k name) : t.Permits k name := by
  refine hp.imp (fun ⟨e, he, hx⟩ => ⟨e, h.merges he, hx⟩) ?_
  rintro ⟨hhalt, slot, hcallee⟩
  exact ⟨(h.epilogue k hk).trans hhalt, slot, h.callee hcallee⟩

/-- How the methods call each other. Nothing is said of what the methods of the document call that are
loose. -/
structure Tiered (s : LowerState) (loose : MethodId → Prop) : Prop where
  names : s.program.names.Nodup
  returns : s.program.ReturnsApart
  halts : s.program.EntriesHalt
  named : ∀ name, s.Merged name → name ∈ s.program.names
  entries : ∀ e ∈ s.merges, ∀ x ∈ e.2.entries, s.Merged x.method
  merged : ∀ k < s.program.methods.size, s.Merged (s.program.method k).name →
    ∀ name, s.program.Invokes k name → s.Merged name
  acc : ∀ name, s.Merged name → Acc s.program.Called name
  own : ∀ k, s.Owns k → ¬ loose k → ∀ name, s.program.Invokes k name → s.Permits k name

namespace Tiered

/-- Calls of methods that are not loose are not new, and nothing is merged. -/
lemma carry (h : s.Tiered loose) (hloose : ∀ k, loose k → s.Owns k) (hend : s.Endures t)
    (hmerges : t.merges = s.merges) (hnames : t.program.names.Nodup)
    (hreturns : t.program.ReturnsApart) (hhalts : t.program.EntriesHalt)
    (hcalls : ∀ k < t.program.methods.size, ¬ loose k → ∀ name, t.program.Invokes k name →
      k < s.program.methods.size ∧ s.program.Invokes k name) : t.Tiered loose := by
  have hmerged : ∀ name, t.Merged name ↔ s.Merged name := fun name => by
    unfold Merged
    rw [hmerges]
  -- a merged method is not loose, so that it calls what it called before
  have hstep : ∀ k < t.program.methods.size, s.Merged (t.program.method k).name →
      ∀ name, t.program.Invokes k name → k < s.program.methods.size ∧
        (s.program.method k).name = (t.program.method k).name ∧ s.program.Invokes k name := by
    intro k hk hmem name hname
    have hno : ¬ loose k := fun hl => by
      have hown := hloose k hl
      rw [hend.name k hown.lt] at hmem
      exact hown.unmerged hmem
    obtain ⟨hlt, hcall⟩ := hcalls k hk hno name hname
    exact ⟨hlt, (hend.name k hlt).symm, hcall⟩
  refine ⟨hnames, hreturns, hhalts, fun name hname => ?_, fun e he x hx => ?_,
    fun k hk hmem name hname => ?_, fun name hname => ?_, fun k hk hno name hname => ?_⟩
  · exact hend.names (h.named name ((hmerged name).mp hname))
  · rw [hmerged]
    exact h.entries e (hmerges ▸ he) x hx
  · rw [hmerged] at hmem ⊢
    obtain ⟨hlt, hsame, hcall⟩ := hstep k hk hmem name hname
    exact h.merged k hlt (hsame ▸ hmem) name hcall
  · rw [hmerged] at hname
    refine acc_image (f := id) (P := s.Merged) ?_ hname (h.acc name hname)
    rintro x hx y ⟨k, hk, rfl, hcall⟩
    obtain ⟨hlt, hsame, hcall'⟩ := hstep k hk hx y hcall
    exact ⟨y, h.merged k hlt (hsame ▸ hx) y hcall', ⟨k, hlt, hsame, hcall'⟩, rfl⟩
  · obtain ⟨hlt, hcall⟩ := hcalls k hk.lt hno name hname
    have hown : s.Owns k := ⟨hlt, fun hmem => hk.unmerged ((hmerged _).mpr (by rwa [hend.name k hlt]))⟩
    exact hend.permits hlt (h.own k hown hno name hcall)

lemma mono {loose' : MethodId → Prop} (h : s.Tiered loose) (hloose : ∀ k, loose k → loose' k) :
    s.Tiered loose' :=
  { h with own := fun k hk hno => h.own k hk fun hl => hno (hloose k hl) }

/-- Work on a loose method. -/
lemma works {m : MethodId} (h : s.Tiered (· = m)) (hm : s.Owns m) (hs : s.site.Sound)
    (hw : s.site.Works m t.site) (hmerges : t.merges = s.merges) : t.Tiered (· = m) := by
  have hend : s.Endures t := .of_works hw hmerges
  have hsize : t.program.methods.size = s.program.methods.size := hw.methods
  refine h.carry (fun k hk => hk ▸ hm) hend hmerges ?_ (h.returns.congr hsize hend.epilogue)
    (hw.entriesHalt h.halts) ?_
  · rw [Program.names_congr hsize hend.name]
    exact h.names
  · intro k hk hne name hcall
    rw [hsize] at hk
    exact ⟨hk, hw.invokes hs hk hne hcall⟩

/-- The merge of a group. -/
lemma merge {guid : String} {table : MergeTable} (h : s.Tiered loose)
    (hmerges : Merges env s guid table t) (hs : s.site.Sound)
    (htidy : s.program.Tidy) (hfine : ∀ e ∈ env.registry.groups, e.2.Fine R)
    (hlayered : ∀ e ∈ env.registry.groups, e.2.program.Layered) : t.Tiered loose := by
  have hend := hmerges.endures
  cases hmerges with
  | before => exact h
  | @now group r host unknown found merged entries methods renamed =>
    have hmem := mem_of_lookup found
    have hg := hfine _ hmem
    have hsub := hlayered _ hmem
    have hlines : ∀ k < s.program.methods.size, host.lines k = s.program.lines k := fun k hk =>
      merged.lines_host hk fun id hid => hs.body_lt hk hid
    set t : LowerState := { s with
      program := host, merges := (guid, table) :: s.merges, mergeCount := s.mergeCount + 1 }
    -- the merged names are the old ones and those of the copies
    have hold : ∀ name, s.Merged name → t.Merged name := fun name ⟨e, he, hx⟩ =>
      ⟨e, List.mem_cons_of_mem _ he, hx⟩
    have hnew : ∀ name ∈ group.program.names, t.Merged (r.namePrefix ++ name) := by
      intro name hname
      refine ⟨(guid, table), List.mem_cons_self, (name, r.namePrefix ++ name), ?_, rfl⟩
      rw [methods]
      exact List.mem_map.mpr ⟨name, hname, rfl⟩
    have hmerged : ∀ name, t.Merged name →
        s.Merged name ∨ ∃ name' ∈ group.program.names, name = r.namePrefix ++ name' := by
      rintro name ⟨e, he, x, hx, rfl⟩
      rcases List.mem_cons.mp he with rfl | he
      · rw [methods] at hx
        obtain ⟨y, hy, rfl⟩ := List.mem_map.mp hx
        exact .inr ⟨y, hy, rfl⟩
      · exact .inl ⟨e, he, x, hx, rfl⟩
    -- a copy calls copies
    have hfresh : ∀ name ∈ group.program.names, r.namePrefix ++ name ∉ s.program.names := by
      intro name hname
      obtain ⟨x, hx, rfl⟩ := List.mem_map.mp hname
      exact merged.fresh x hx
    have hcopies : ∀ k < host.methods.size, ∀ {x : String}, x ∈ group.program.names →
        (host.method k).name = r.namePrefix ++ x → ∀ name, host.Invokes k name →
          ∃ y ∈ group.program.names, group.program.Called y x ∧ name = r.namePrefix ++ y := by
      intro k hk x hx heq name hcall
      rcases merged.method_cases hk with ⟨hlt, hsame⟩ | ⟨j, hj, rfl, hsame⟩
      · refine absurd ?_ (hfresh x hx)
        rw [← heq, hsame]
        exact List.mem_map_of_mem (Program.method_mem hlt)
      · obtain ⟨y, hcall', rfl⟩ := merged.invokes_sub hj hcall
        obtain ⟨slot, hcallee, -⟩ := (hg.spelled j hj).callee hcall'
        have hy := hcallee.mem_names
        rw [hsame] at heq
        refine ⟨y, hy, ⟨j, hj, (String.append_right_inj _).mp heq, hcall'⟩, ?_⟩
        rw [Renaming.method, merged.names, if_pos hy]
    -- a method of the host calls what it called before
    have hhost : ∀ k < host.methods.size, (host.method k).name ∈ s.program.names → ∀ name,
        host.Invokes k name → k < s.program.methods.size ∧
          host.method k = s.program.method k ∧ s.program.Invokes k name := by
      intro k hk hin name hcall
      rcases merged.method_cases hk with ⟨hlt, hsame⟩ | ⟨j, hj, rfl, hsame⟩
      · refine ⟨hlt, hsame, ?_⟩
        unfold Program.Invokes at hcall ⊢
        rwa [← hlines k hlt]
      · rw [hsame] at hin
        exact absurd hin (hfresh _ (List.mem_map_of_mem (Program.method_mem hj)))
    refine ⟨merged.nodup h.names, merged.returnsApart h.returns hsub.returns htidy hg.tidy,
      merged.entriesHalt h.halts hsub.halts, fun name hname => ?_, fun e he x hx => ?_, fun k hk hmem name hname => ?_,
      fun name hname => ?_, fun k hk hno name hname => ?_⟩
    · exact hend.named h.named name hname
    · rcases List.mem_cons.mp he with rfl | he
      · rw [entries] at hx
        obtain ⟨y, hy, rfl⟩ := List.mem_map.mp hx
        exact hnew _ (hg.entries y hy).callee.mem_names
      · exact hold _ (h.entries e he x hx)
    · rcases hmerged _ hmem with hmem | ⟨x, hx, heq⟩
      · obtain ⟨hlt, hsame, hcall⟩ := hhost k hk (h.named _ hmem) name hname
        exact hold _ (h.merged k hlt (hsame ▸ hmem) name hcall)
      · obtain ⟨y, hy, -, rfl⟩ := hcopies k hk hx heq name hname
        exact hnew y hy
    · rcases hmerged name hname with hname | ⟨x, hx, rfl⟩
      · refine acc_image (f := id) (P := s.Merged) ?_ hname (h.acc name hname)
        rintro x hx y ⟨k, hk, rfl, hcall⟩
        obtain ⟨hlt, hsame, hcall'⟩ := hhost k hk (h.named _ hx) y hcall
        exact ⟨y, h.merged k hlt (hsame ▸ hx) y hcall', ⟨k, hlt, by rw [hsame], hcall'⟩, rfl⟩
      · refine acc_image (f := (r.namePrefix ++ ·)) (P := (· ∈ group.program.names)) ?_ hx
          (hsub.calls.apply x)
        rintro x hx y ⟨k, hk, heq, hcall⟩
        obtain ⟨z, hz, hcalled, rfl⟩ := hcopies k hk hx heq y hcall
        exact ⟨z, hz, hcalled, rfl⟩
    · have hlt : k < s.program.methods.size := by
        by_contra hge
        obtain ⟨j, hj, rfl, hsame⟩ := (merged.method_cases hk.lt).resolve_left fun h => hge h.1
        refine hk.unmerged ?_
        change t.Merged (host.method _).name
        rw [hsame]
        exact hnew _ (List.mem_map_of_mem (Program.method_mem hj))
      have hsame := merged.method_host hlt
      have hin : (host.method k).name ∈ s.program.names := by
        rw [hsame]
        exact List.mem_map_of_mem (Program.method_mem hlt)
      have hown : s.Owns k := ⟨hlt, fun hmem => hk.unmerged (hold _ (by rwa [← hsame] at hmem))⟩
      obtain ⟨-, -, hcall⟩ := hhost k hk.lt hin name hname
      exact hend.permits hlt (h.own k hown hno name hcall)

end Tiered

/-- Where nothing is loose, no chain of calls goes on forever. -/
lemma Tiered.layered (h : s.Tiered fun _ => False) : s.program.Layered := by
  have hown : ∀ k < s.program.methods.size, ¬ s.Merged (s.program.method k).name →
      ∀ name, s.program.Invokes k name → s.Permits k name := fun k hk hno =>
    h.own k ⟨hk, hno⟩ not_false
  -- a method that returns calls merged methods only
  have hreturning : ∀ name slot, s.program.Callee name slot → Acc s.program.Called name := by
    rintro name slot ⟨x, hx, rfl, hslot⟩
    obtain ⟨k, hk, rfl⟩ := Program.exists_method_of_mem hx
    by_cases hmerged : s.Merged (s.program.method k).name
    · exact h.acc _ hmerged
    refine Acc.intro _ ?_
    rintro y ⟨j, hj, hname, hcall⟩
    obtain rfl := Program.eq_of_name h.names hj hk hname
    rcases hown j hj hmerged y hcall with hy | ⟨hhalt, -⟩
    · exact h.acc y hy
    · rw [hhalt] at hslot
      cases hslot
  refine ⟨h.names, h.returns, h.halts, ⟨fun name => Acc.intro _ ?_⟩⟩
  rintro y ⟨k, hk, rfl, hcall⟩
  by_cases hmerged : s.Merged (s.program.method k).name
  · exact h.acc y (h.merged k hk hmerged y hcall)
  · rcases hown k hk hmerged y hcall with hy | ⟨-, slot, hcallee⟩
    · exact h.acc y hy
    · exact hreturning y slot hcallee

/-- Outside of an action, nothing is loose, and what is worked on is a method of the document. -/
structure Sorted (s : LowerState) : Prop where
  tiered : s.Tiered fun _ => False
  current : s.method < s.program.methods.size → s.Owns s.method

/-- Once the current body calls only what it may, nothing is loose. -/
lemma Tiered.tighten (h : t.Tiered (· = t.method))
    (hcalls : ∀ name, t.program.Invokes t.method name → t.Permits t.method name) :
    t.Tiered fun _ => False :=
  { h with
    own := fun k hk _ name hname => by
      by_cases hm : k = t.method
      · subst hm
        exact hcalls name hname
      · exact h.own k hk hm name hname }

/-- Steps that leave methods and instructions as they are. -/
lemma Sorted.same (h : s.Sorted) (hmethods : t.program.methods = s.program.methods)
    (hinstrs : t.program.instrs = s.program.instrs) (hmerges : t.merges = s.merges)
    (hmethod : t.method = s.method ∨ s.Owns t.method) : t.Sorted := by
  have hend : s.Endures t := .of_same hmethods hmerges
  have hmethod' : ∀ k, t.program.method k = s.program.method k := fun k => by
    unfold Program.method
    rw [hmethods]
  refine ⟨h.tiered.carry (fun _ hno => hno.elim) hend hmerges ?_ ?_ ?_ fun k hk _ name hname => ?_,
    fun hm => hend.owns ?_⟩
  · rw [show t.program.names = s.program.names by unfold Program.names; rw [hmethods]]
    exact h.tiered.names
  · exact h.tiered.returns.congr (by rw [hmethods]) fun k _ => by rw [hmethod']
  · exact fun x hx => h.tiered.halts x (hmethods ▸ hx)
  · refine ⟨hmethods ▸ hk, ?_⟩
    obtain ⟨id, hid, hline⟩ := List.mem_map.mp hname
    refine List.mem_map.mpr ⟨id, hmethod' k ▸ hid, ?_⟩
    rw [← hline]
    apply Program.line_congr
    unfold Program.instr
    rw [hinstrs]
  · rcases hmethod with hmethod | hmethod
    · rw [hmethod] at hm ⊢
      exact h.current (hmethods ▸ hm)
    · exact hmethod

/-- One method more. -/
lemma Sorted.push {p : Program} (h : s.Sorted) (hp : p.methods = s.program.methods.push x)
    (hinstrs : p.instrs = s.program.instrs) (hbody : x.body = #[]) (hx : x.name ∉ s.program.names)
    (hslot : ∀ slot, x.epilogue = .indirect slot → ¬ s.program.Returns slot)
    (hhalts : x.isExported = true → x.epilogue = .halt)
    (hown : LowerState.Owns { s with program := p } s.program.methods.size) :
    LowerState.Sorted { s with program := p } := by
  have hend : s.Endures { s with program := p } := .push hp
  refine ⟨h.tiered.carry (fun _ hno => hno.elim) hend rfl ?_ ?_ ?_ fun k hk _ name hname => ?_,
    fun hm => ?_⟩
  · change p.names.Nodup
    rw [Program.names_push hp]
    exact h.tiered.names.append (List.nodup_singleton _) (by simpa using hx)
  · exact h.tiered.returns.push hp hslot
  · exact h.tiered.halts.push hp hhalts
  · change .code (.jumpMethod name) ∈ p.lines k at hname
    by_cases hlt : k < s.program.methods.size
    · refine ⟨hlt, ?_⟩
      obtain ⟨id, hid, hline⟩ := List.mem_map.mp hname
      refine List.mem_map.mpr ⟨id, Program.method_push hp hlt ▸ hid, ?_⟩
      rw [← hline]
      apply Program.line_congr
      unfold Program.instr
      rw [hinstrs]
    · rw [lines_push hp hbody hk hlt] at hname
      cases hname
  · by_cases hlt : s.method < s.program.methods.size
    · exact hend.owns (h.current hlt)
    · have heq : s.method = s.program.methods.size := by
        have hsize : p.methods.size = s.program.methods.size + 1 := by simp [hp]
        exact le_antisymm (Nat.le_of_lt_succ (hm.trans_eq hsize)) (Nat.le_of_not_lt hlt)
      exact heq.symm ▸ hown

/-- Lines are added to the current body that call only what it may. -/
lemma Sorted.adds (h : s.Sorted) (hs : s.site.Sound) (hm : s.method < s.program.methods.size)
    (hadds : s.site.Adds s.method code t.site) (hmerges : t.merges = s.merges)
    (hmethod : t.method = s.method)
    (hcode : ∀ name, .code (.jumpMethod name) ∈ code → t.Permits t.method name) : t.Sorted := by
  have hown := h.current hm
  have hend : s.Endures t := .of_works hadds.toWorks hmerges
  have hloose : s.Tiered (· = s.method) := h.tiered.mono fun _ hno => hno.elim
  have htiered := hloose.works hown hs hadds.toWorks hmerges
  rw [← hmethod] at htiered
  refine ⟨htiered.tighten fun name hname => ?_, fun _ => hmethod ▸ hend.owns hown⟩
  rw [hmethod] at hname
  rcases hadds.invokes hs hm hname with hold | hnew
  · rw [hmethod]
    exact hend.permits hown.lt (h.tiered.own s.method hown not_false name hold)
  · exact hcode name hnew

end LowerState

/-! ## Steps of a compile -/

namespace Lower

variable {s t u : LowerState} {env : Environment} {R : Rules} {agenda : Agenda}
  {d : ActionDef} {a : Action}

/-- The current body calls what the rules allow. -/
lemma callable_of_disciplined (h : t.Disciplined env R) (hm : t.method < t.program.methods.size)
    (hname : t.program.Invokes t.method name) : R.callable name := by
  obtain ⟨rest, htrail, code, hcode, hlines⟩ := h.lines hm
  unfold Program.Invokes at hname
  rw [hlines, List.mem_append] at hname
  rcases hname with hname | hname
  · obtain ⟨slot, -, hcallable⟩ := hcode.callee hname
    exact hcallable
  · unfold LowerState.Trail at htrail
    split at htrail
    · obtain ⟨c, -, rfl⟩ := htrail
      simp at hname
    · obtain ⟨l, rfl⟩ := htrail
      simp at hname
    · obtain ⟨l, rfl⟩ := htrail
      simp at hname
    · obtain ⟨l, rfl⟩ := htrail
      simp at hname
    · simp [htrail] at hname

/-- A state in order is so under stricter rules, if the current body keeps to them. -/
lemma disciplined_limit (h : s.Disciplined env R) {callable : String → Prop}
    (hcalls : ∀ name, s.program.Invokes s.method name → callable name) :
    s.Disciplined env (R.limit callable) := by
  refine ⟨⟨h.kept.tidy, h.kept.others, h.kept.inputs, h.kept.merges, h.kept.frames⟩, fun hm => ?_⟩
  obtain ⟨rest, htrail, code, hcode, hlines⟩ := h.lines hm
  refine ⟨rest, htrail, code, hcode.free.limit fun name hname => hcalls name ?_, hlines⟩
  unfold Program.Invokes
  rw [hlines]
  exact List.mem_append_left _ hname

lemma Merges.method {guid : String} {table : MergeTable} (h : Merges env s guid table t) :
    t.method = s.method := by
  cases h with
  | before | now => rfl

lemma Lowered.tiered (h : Lowered env d a s t) (hs : s.Sound) (hown : s.Owns s.method)
    (htidy : s.program.Tidy) (hfine : ∀ e ∈ env.registry.groups, e.2.Fine R)
    (hlayered : ∀ e ∈ env.registry.groups, e.2.program.Layered)
    (htiered : s.Tiered (· = s.method)) : t.Tiered (· = s.method) := by
  -- all actions begin with work on the current body
  have hprepares : ∀ {s₁ : LowerState}, Prepares s s₁ →
      s₁.Tiered (· = s.method) ∧ s₁.Owns s.method ∧ s₁.method = s.method := fun h =>
    ⟨htiered.works hown hs.site h.adds.toWorks h.merges,
      (LowerState.Endures.of_works h.adds.toWorks h.merges).owns hown, h.method⟩
  cases h with
  | statement _ _ _ prepares _ emits _ =>
    obtain ⟨ht, ho, hm⟩ := hprepares prepares
    exact ht.works ho (prepares.sound hs).site (hm ▸ emits.adds.toWorks) (by rw [emits.state]; rfl)
  | call _ prepares _ emits _ _ =>
    obtain ⟨ht, ho, hm⟩ := hprepares prepares
    exact ht.works ho (prepares.sound hs).site (hm ▸ emits.adds.toWorks) (by rw [emits.state]; rfl)
  | group _ prepares _ calls =>
    obtain ⟨ht, ho, hm⟩ := hprepares prepares
    obtain ⟨merges, sound, -, -, -, speaks, -⟩ := calls
    obtain ⟨p, warnings, hstate⟩ := speaks.state
    have hmethod := merges.method
    have hu := ht.merge merges (prepares.sound hs).site
      (prepares.adds.tidy htidy) hfine hlayered
    refine hu.works (merges.endures.owns ho) sound.site ?_ (by rw [hstate])
    rw [← hm, ← hmethod]
    exact speaks.adds.toWorks
  | opener _ _ prepares _ frames block =>
    obtain ⟨ht, ho, hm⟩ := hprepares prepares
    obtain ⟨g, f', -, -, -, -, -, hstate⟩ := block.frames frames
    exact ht.works ho (prepares.sound hs).site (hm ▸ block.works) (by rw [hstate]; rfl)
  | closer _ _ _ closes => exact htiered.works hown hs.site closes.works (by rw [closes.state]; rfl)

lemma Lowered.method (h : Lowered env d a s t) : t.method = s.method := by
  cases h with
  | statement _ _ _ prepares _ emits _ => exact emits.method.trans prepares.method
  | call _ prepares _ emits _ _ => exact emits.method.trans prepares.method
  | group _ prepares _ calls =>
    obtain ⟨merges, -, -, -, -, speaks, -⟩ := calls
    exact (speaks.method.trans merges.method).trans prepares.method
  | opener _ _ prepares _ frames block =>
    obtain ⟨g, f', -, -, -, -, -, hstate⟩ := block.frames frames
    rw [hstate]
    exact prepares.method
  | closer _ _ _ closes =>
    rw [closes.state]
    rfl

lemma permits_preamble (h : Preamble t code) (hname : .code (.jumpMethod name) ∈ code) :
    t.Permits t.method name := by
  cases h with
  | gate => simp [callLines, branchLines] at hname
  | send => simp [callLines] at hname
  | call lines callee halts =>
    obtain ⟨back, address, -, rfl⟩ := lines
    obtain rfl : name = _ := by simpa [copyLines] using hname
    exact .inr ⟨halts, _, callee⟩

section

variable (henv : Orderly env R agenda.acts)
  (hlayered : ∀ e ∈ env.registry.groups, e.2.program.Layered)
include henv hlayered

lemma Step.sorted (h : Step env agenda s t) (hheld : Held env R s)
    (hs : Shape.Stuck s.scopes.shapes ∨ s.Sorted) :
    Shape.Stuck t.scopes.shapes ∨ t.Sorted := by
  have hidle : s.Idle → s.Sorted := fun hidle => hs.resolve_left fun hstuck => by
    simp [ScopeStack.shapes, hidle.frames, Shape.Stuck] at hstuck
  cases h with
  | turn idle _ _ own => exact .inr ((hidle idle).same rfl rfl rfl own)
  | previous idle | parameter idle | opens idle =>
    exact .inr ((hidle idle).same rfl rfl rfl (.inl rfl))
  | input idle => exact .inr ((hidle idle).same rfl rfl rfl (.inl rfl))
  | entry idle _ fresh =>
    exact .inr ((hidle idle).push rfl rfl rfl fresh (by simp) (fun _ => rfl)
      (owns_push idle rfl fresh))
  | @callee name slot table idle _ fresh declared =>
    refine .inr ((hidle idle).push rfl rfl rfl fresh (fun x hx hreturns => ?_)
      (fun hexported => by cases hexported) (owns_push idle rfl fresh))
    obtain rfl : slot = x := Epilogue.indirect.inj hx
    obtain ⟨-, hslot, -⟩ := SlotTable.insert_eq_ok declared
    exact absurd ((hheld.rests idle.frames).tidy.returns slot hreturns).lt
      (Nat.not_lt.mpr hslot.ge)
  | preamble idle method_lt emits lines =>
    exact .inr ((hidle idle).adds idle.site method_lt emits.adds (by rw [emits.state]; rfl)
      emits.method fun name hname => permits_preamble lines hname)
  | @action d a index u _ settled mem found admits lowered sound settles settled' shapes =>
    rcases hs with hstuck | hs
    · left
      rw [shapes]
      exact hstuck.follow admits
    refine (hheld.due settled admits shapes).imp id fun hready => ?_
    obtain ⟨hd, hdue⟩ := hready
    set s' := atAction s index a.id
    have hs' : s'.Sorted := hs.same rfl rfl rfl (.inl rfl)
    have hsound := settled_atAction settled index a.id
    have hown := hs'.current hsound.sound.method_lt
    have hmethod : t.method = s'.method := settles.method.trans lowered.method
    have hu : u.Tiered (· = s'.method) := lowered.tiered hsound.sound hown hd.kept.tidy henv.fine
      hlayered (hs'.tiered.mono fun _ hno => hno.elim)
    have ht : t.Tiered (· = s'.method) := hu.works (lowered.endures.owns hown) sound.site
      (lowered.method ▸ settles.adds.toWorks) (by rw [settles.state])
    have hend := lowered.endures.trans settles.endures
    refine ⟨LowerState.Tiered.tighten (hmethod ▸ ht) fun name hname => ?_,
      fun _ => hmethod ▸ hend.owns hown⟩
    -- what the body calls is what it called before and what the merged groups offer
    have hdisciplined : t.Disciplined env (R.limit (t.Permits s'.method)) := by
      refine lowered.disciplined henv (fun e he x hx => .inl ?_) settles hsound sound settled'
        (henv.known_of_mem mem found) ⟨_, _, found⟩ admits shapes
        (disciplined_limit (disciplined_atAction hd index a.id) fun name hcall => ?_) hdue
      · have hmerged : t.merges = u.merges := by rw [settles.state]
        exact ht.entries e (hmerged ▸ he) x hx
      · exact hend.permits hown.lt (hs'.tiered.own _ hown not_false name hcall)
    rw [hmethod]
    exact callable_of_disciplined hdisciplined settled'.sound.method_lt hname
  | closes settled ends =>
    obtain ⟨f, hf, hstate⟩ := ends.state
    have hs := hs.resolve_left (not_stuck_of_root settled hf).2.2
    exact .inr (hs.adds settled.sound.site settled.sound.method_lt ends.adds
      (by rw [hstate]; rfl) (by rw [hstate]; rfl) (by simp))

lemma Steps.sorted (h : Steps env agenda s t) (hheld : Held env R s) (hs : s.Sorted) :
    Shape.Stuck t.scopes.shapes ∨ t.Sorted := by
  induction h with
  | refl => exact .inr hs
  | tail hsteps hstep ih => exact hstep.sorted henv hlayered (Steps.held henv hsteps hheld) ih

end

/-- Where no group is registered, none is merged. -/
lemma Lowered.merges_nil (hgroups : env.registry.groups = []) (h : Lowered env d a s t)
    (hs : s.merges = []) : t.merges = [] := by
  cases h with
  | statement _ _ _ prepares _ emits _ | call _ prepares _ emits _ _ =>
    rw [emits.state]
    exact prepares.merges.trans hs
  | group _ prepares _ calls =>
    obtain ⟨merges, -, -, -, -, speaks, -⟩ := calls
    obtain ⟨p, warnings, hstate⟩ := speaks.state
    have hnone := prepares.merges.trans hs
    cases merges with
    | before known =>
      rw [hnone] at known
      cases known
    | now unknown found =>
      unfold Registry.group? at found
      rw [hgroups] at found
      cases found
  | opener _ _ prepares _ frames block =>
    obtain ⟨g, f', -, -, -, -, -, hstate⟩ := block.frames frames
    rw [hstate]
    exact prepares.merges.trans hs
  | closer _ _ _ closes =>
    rw [closes.state]
    exact hs

lemma Steps.merges_nil (hgroups : env.registry.groups = []) (h : Steps env agenda s t)
    (hs : s.merges = []) : t.merges = [] := by
  induction h with
  | refl => exact hs
  | tail _ hstep ih =>
    cases hstep with
    | turn | previous | input | parameter | entry | callee | opens => exact ih
    | preamble _ _ emits _ =>
      rw [emits.state]
      exact ih
    | @action d a index u _ _ _ _ _ lowered _ settles =>
      have hu : u.merges = [] := lowered.merges_nil hgroups ih
      rw [settles.state]
      exact hu
    | closes _ ends =>
      obtain ⟨f, -, hstate⟩ := ends.state
      rw [hstate]
      exact ih

/-- A compile without errors ends with a program whose calls are sorted. -/
lemma Course.sorted {table : SlotTable} {decls : List VariableDecl} {warnings : Array Warning}
    (henv : Orderly env R agenda.acts) (hlayered : ∀ e ∈ env.registry.groups, e.2.program.Layered)
    (h : table.Declares decls) (hidle : (declared table warnings).Idle)
    (hcourse : Course env agenda (declared table warnings) s) (hs : s.Idle) (herrors : s.errors = #[]) :
    s.Sorted := by
  have hstart : (declared table warnings).Sorted := by
    refine ⟨⟨?_, ?_, ?_, ?_, ?_, ?_, ?_, ?_⟩, ?_⟩
    all_goals simp [declared, Program.names, Program.ReturnsApart, Program.EntriesHalt,
      LowerState.Merged]
    rintro k ⟨hlt, -⟩
    simp at hlt
  have hsorted := (hcourse.steps herrors).2.sorted henv hlayered
    ((rests_declared h hidle).held rfl henv.callable) hstart
  refine hsorted.resolve_left fun hstuck => ?_
  simp [ScopeStack.shapes, hs.frames, Shape.Stuck] at hstuck

end Lower

/-! ## Compiled programs -/

namespace Program

variable {p q f : Program}

/-- Methods that keep their names, how they are entered and the way they return, and that call no more
than before. -/
lemma Layered.congr (h : p.Layered) (hsize : q.methods.size = p.methods.size)
    (hname : ∀ k < p.methods.size, (q.method k).name = (p.method k).name)
    (hkind : ∀ k < p.methods.size, (q.method k).kind = (p.method k).kind)
    (hepilogue : ∀ k < p.methods.size, (q.method k).epilogue = (p.method k).epilogue)
    (hcalls : ∀ k < p.methods.size, ∀ name, q.Invokes k name → p.Invokes k name) : q.Layered := by
  refine ⟨?_, h.returns.congr hsize hepilogue, h.halts.congr hsize hkind hepilogue,
    Subrelation.wf ?_ h.calls⟩
  · rw [names_congr hsize hname]
    exact h.names
  · rintro y x ⟨k, hk, rfl, hcall⟩
    rw [hsize] at hk
    exact ⟨k, hk, (hname k hk).symm, hcalls k hk y hcall⟩

/-- The end of a method calls no method. -/
lemma Finished.layered (h : p.Finished options f) (hp : p.Layered) : f.Layered := by
  refine hp.congr h.size (fun k hk => (h.method_epilogue hk).2) (fun k hk => h.method_kind hk)
    (fun k hk => (h.method_epilogue hk).1) fun k hk name hcall => ?_
  obtain ⟨sync, hsync, hlines⟩ := h.lines_eq hk
  unfold Invokes at hcall ⊢
  rw [hlines, List.mem_append] at hcall
  refine hcall.resolve_right fun hmem => ?_
  have hno : .code (.jumpMethod name) ∉ sync := by
    rcases hsync.cases with rfl | ⟨self, -, rfl⟩
    all_goals simp [callLines]
  cases hepilogue : (p.method k).epilogue with
  | halt => simp [hepilogue, hno, Epilogue.instr] at hmem
  | indirect slot => simp [hepilogue, hno, Epilogue.instr] at hmem

lemma Links.layered (h : p.Links options q) (hsite : (⟨p, [], []⟩ : Site).Sound) (hp : p.Layered) :
    q.Layered := by
  have hfinished := (finishMethods_finished options hsite).layered hp
  have hmethod : ∀ k, q.method k = (p.finishMethods options).method k := fun k => by
    unfold method
    rw [h.methods]
  refine hfinished.congr (by rw [h.methods]) (fun k _ => by rw [hmethod]) (fun k _ => by rw [hmethod])
    (fun k _ => by rw [hmethod]) fun k _ name hcall => ?_
  obtain ⟨id, hid, hline⟩ := List.mem_map.mp hcall
  refine List.mem_map.mpr ⟨id, hmethod k ▸ hid, ?_⟩
  rw [← hline]
  apply line_congr
  unfold instr
  rw [h.instrs]

end Program

variable {env : Environment} {R : Rules} {g : ActionGroup} {t : Trigger}

lemma compileGroup_layered (henv : Lower.Orderly env R g.Has)
    (hlayered : ∀ e ∈ env.registry.groups, e.2.program.Layered) (hg : g.NoAddress) {c : CompiledGroup}
    {notes : List Note} (h : compileGroup env g = .ok (c, notes)) : c.program.Layered := by
  obtain ⟨entries, s, hrun, hnone, rfl⟩ := compileGroup_eq_ok h
  obtain ⟨hidle, table, warnings, hdeclares, hstart, hcourse, -⟩ :=
    (Lower.assembleGroup_ensures henv.sound hg).ok hrun
  exact (hcourse.sorted henv hlayered hdeclares hstart hidle hnone).tiered.layered

lemma Registry.Grown.layered {documents : ActionGroup → Prop} {r : Registry} (h : r.Grown documents) :
    ∀ e ∈ r.groups, e.2.program.Layered := by
  induction h with
  | builtin => simp [builtin_groups]
  | @group r home options g compiled notes origin document allowed compile grown ihome ih =>
    intro x hx
    rcases List.mem_cons.mp hx with rfl | hx
    · exact compileGroup_layered (origin.orderly (fun hno : False => hno.elim) options
        fun a ⟨x, hx, ha⟩ => document.actions x hx a ha) ihome document compile
    · exact ih x hx

/-- The calls of a compiled trigger go down, and its methods return through slots of their own. -/
lemma compileTrigger_layered {documents : ActionGroup → Prop} {r : Registry}
    (hr : r.Grown documents) (ht : t.NoAddress) {c : CompiledTrigger}
    (h : compileTrigger ⟨r, options⟩ t = .ok c) : c.program.Layered := by
  have henv : Lower.Orderly ⟨r, options⟩ (Rules.source False) t.Has :=
    hr.orderly (fun hno => hno.elim) options fun a ⟨x, hx, ha⟩ => ht.actions x hx a ha
  obtain ⟨s, hrun, hnone, hlink⟩ := compileTrigger_eq_ok h
  obtain ⟨hidle, table, warnings, hdeclares, hstart, hcourse⟩ :=
    (Lower.assembleTrigger_ensures henv.sound ht).ok hrun
  exact (hidle.site_empty.links hlink).layered hidle.site_empty
    (hcourse.sorted henv hr.layered hdeclares hstart hidle hnone).tiered.layered

end TriggerCompiler
