import Mathlib
import TriggerCompiler.Proofs.Linking
import TriggerCompiler.Proofs.Emission

/-!
# Finished methods

Before addresses are given out, each method gets the label of its end, the request to send what was
written, and its last instruction. Nothing else of the program changes, apart from the slot of the
running object that the request may need. Here this is said of the lines of a program whose building
site is sound.
-/

namespace TriggerCompiler

open Lower

namespace Program

variable {p q : Program} {m : MethodId}

/-- The request to send the synchronized variables, or nothing if there is to be none. -/
def SyncLines (wanted : Bool) (t : SlotTable) (code : List Line) : Prop :=
  if wanted then ∃ self, t.IsThis self ∧ code = callLines HostCall.requestSerialization [self]
  else code = []

lemma SyncLines.cases {wanted : Bool} {t : SlotTable} {code : List Line}
    (h : SyncLines wanted t code) : code = [] ∨
      ∃ self, t.IsThis self ∧ code = callLines HostCall.requestSerialization [self] := by
  cases wanted with
  | true => exact .inr h
  | false => exact .inl h

/-- The second program is the first with its methods finished. -/
structure Finished (p : Program) (options : CompileOptions) (q : Program) : Prop where
  finished : ∀ m < p.methods.size, ∃ (new : List InstrId) (sync : List Line),
    q.method m = { p.method m with body := (p.method m).body ++ new.toArray } ∧
    SyncLines (options.autoSerialize && (p.method m).serializes) q.slots sync ∧
    new.map q.line = (p.method m).endLabel.toList.map .label ++ sync ++
      [.code (Epilogue.instr (p.method m).epilogue)]
  rooted : p.Rooted
  size : q.methods.size = p.methods.size
  arena : ∀ id < p.instrs.size, q.instr id = p.instr id
  slots : p.slots.Within q.slots
  makes : p.slots.Makes q.slots
  accounts : p.slots.Accounts [] q.slots []
  sound : q.slots.Sound
  pool : q.slots.Pool []

/-- What linking makes of the methods of a program whose building site is sound. -/
lemma finishMethods_finished (options : CompileOptions) (h : (⟨p, [], []⟩ : Site).Sound) :
    p.Finished options (p.finishMethods options) := by
  have hcloses := finishMethods_closes options p
  set q := p.finishMethods options
  have hown := SlotTable.thisSlot_own h.table h.pool
  have hslots : p.slots.Within q.slots ∧ p.slots.Makes q.slots ∧ p.slots.Accounts [] q.slots [] ∧
      q.slots.Sound ∧ q.slots.Pool [] := by
    rcases hcloses.slots with hq | hq
    all_goals rw [hq]
    · exact ⟨.refl _, .of_size le_rfl, .refl _ _, h.table, h.pool⟩
    · exact ⟨hown.within, SlotTable.thisSlot_makes _, SlotTable.thisSlot_accounts _ _, hown.sound,
        hown.pool⟩
  obtain ⟨hwithin, hmakes, haccounts, hsound, hpool⟩ := hslots
  refine ⟨fun m hm => ?_, h.rooted, hcloses.size, hcloses.arena, hwithin, hmakes, haccounts, hsound,
    hpool⟩
  obtain ⟨new, hmethod, hnew⟩ := hcloses.method m (List.mem_range.mpr hm)
  have hend : (p.method m).endLabel.toList.map q.line = (p.method m).endLabel.toList.map .label := by
    refine List.map_congr_left fun l hl => ?_
    obtain ⟨hlt, hnop⟩ := h.rooted.ending l
      (List.mem_filterMap.mpr ⟨_, method_mem hm, Option.mem_toList.mp hl⟩)
    exact line_eq_label.mpr ⟨(hcloses.arena l hlt).trans hnop, rfl⟩
  have hcode : new.map q.line = (closing options p.slots.thisSlot.1 (p.method m)).map .code := by
    rw [← hnew, List.map_map]
    refine List.map_congr_left fun id hid => line_eq_code.mpr ⟨rfl, ?_⟩
    exact (mem_closing (hnew ▸ List.mem_map_of_mem hid)).2
  refine ⟨_, (closing options p.slots.thisSlot.1 (p.method m)).dropLast.map .code, hmethod, ?_, ?_⟩
  · unfold SyncLines closing
    split_ifs with hflag
    · refine ⟨p.slots.thisSlot.1, ?_, rfl⟩
      rw [hcloses.requests m (List.mem_range.mpr hm) hflag]
      exact hown.isThis
    · rfl
  · rw [List.map_append, hend, hcode]
    simp [closing]

end Program

end TriggerCompiler
