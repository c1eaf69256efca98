import Fhenomenon.DeviceAbi
import Fhenomenon.PlannerThreshold
import Fhenomenon.RotateReduction

/-!
# Programs with sequential ids

The generators take the ids of inputs and results from one counter. Whatever
they emit is in single-assignment form, as long as it reads ids that the counter
has passed, and a plan exists for every budget that holds one instruction.
-/

namespace Fhenomenon.NumberedPrograms

open Fhenomenon.InstructionStream Fhenomenon.MovementPlanner Fhenomenon.DeviceAbi
open Fhenomenon.PlannerThreshold Fhenomenon.RotateReduction

/-- The ids below the counter are defined, each once and before its uses. -/
structure Numbered (program : FhnProgram) (nextId : Nat) : Prop where
  valid : SsaValid program
  covers : ∀ id, id ∈ program.definedIds ↔ id ≠ 0 ∧ id < nextId

theorem numbered_empty : Numbered { instructions := [], inputIds := [] } 1 where
  valid :=
    { nonzero := by simp [FhnProgram.definedIds, FhnProgram.resultIds]
      nodup := by simp [FhnProgram.definedIds, FhnProgram.resultIds]
      operandsDefined := by
        rintro position id ⟨inst, found, -⟩
        cases found }
  covers := by
    intro id
    simp [FhnProgram.definedIds, FhnProgram.resultIds]

variable {program : FhnProgram} {nextId : Nat}

theorem numbered_input (numbered : Numbered program nextId) (positive : nextId ≠ 0) :
    Numbered { program with inputIds := program.inputIds ++ [nextId] } (nextId + 1) where
  valid := by
    apply ssa_add_input numbered.valid nextId positive
    intro defined
    exact absurd ((numbered.covers nextId).mp defined).2 (lt_irrefl _)
  covers := by
    intro id
    have old := numbered.covers id
    simp only [FhnProgram.definedIds, FhnProgram.resultIds, List.mem_append, List.mem_singleton]
      at old ⊢
    constructor
    · rintro ((input | new) | result)
      · have below := old.mp (Or.inl input)
        omega
      · omega
      · have below := old.mp (Or.inr result)
        omega
    · rintro ⟨nonzero, below⟩
      by_cases new : id = nextId
      · exact Or.inl (Or.inr new)
      · rcases old.mpr ⟨nonzero, by omega⟩ with input | result
        · exact Or.inl (Or.inl input)
        · exact Or.inr result

theorem numbered_instruction (numbered : Numbered program nextId) (positive : nextId ≠ 0)
    {inst : FhnInstruction} (named : inst.resultId = nextId)
    (reads : ∀ id ∈ inst.usedOperands, id < nextId) :
    Numbered { program with instructions := program.instructions ++ [inst] } (nextId + 1) where
  valid := by
    apply ssa_add_instruction numbered.valid inst
    · rw [named]
      exact positive
    · rw [named]
      intro defined
      exact absurd ((numbered.covers nextId).mp defined).2 (lt_irrefl _)
    · intro id used
      exact (numbered.covers id).mpr ⟨((mem_used_operands inst id).mp used).1, reads id used⟩
  covers := by
    intro id
    have old := numbered.covers id
    simp only [FhnProgram.definedIds, FhnProgram.resultIds, List.map_append, List.map_cons,
      List.map_nil, List.mem_append, List.mem_singleton, named] at old ⊢
    constructor
    · rintro (input | result | new)
      · have below := old.mp (Or.inl input)
        omega
      · have below := old.mp (Or.inr result)
        omega
      · omega
    · rintro ⟨nonzero, below⟩
      by_cases new : id = nextId
      · exact Or.inr (Or.inr new)
      · rcases old.mpr ⟨nonzero, by omega⟩ with input | result
        · exact Or.inl input
        · exact Or.inr (Or.inl result)

/-- One instruction after the other takes the next id and reads smaller ones. -/
def Chained : Nat → List FhnInstruction → Prop
  | _, [] => True
  | nextId, inst :: rest =>
      inst.resultId = nextId ∧ (∀ id ∈ inst.usedOperands, id < nextId) ∧ Chained (nextId + 1) rest

theorem chained_append {first second : List FhnInstruction} {nextId : Nat}
    (before : Chained nextId first) (after : Chained (nextId + first.length) second) :
    Chained nextId (first ++ second) := by
  induction first generalizing nextId with
  | nil => exact after
  | cons inst rest induction =>
      obtain ⟨named, reads, later⟩ := before
      refine ⟨named, reads, induction later ?_⟩
      rw [List.length_cons] at after
      rw [Nat.add_assoc, Nat.add_comm 1]
      exact after

theorem numbered_chained (numbered : Numbered program nextId) (positive : nextId ≠ 0)
    {insts : List FhnInstruction} (chained : Chained nextId insts) :
    Numbered { program with instructions := program.instructions ++ insts }
      (nextId + insts.length) := by
  induction insts generalizing program nextId with
  | nil =>
      rw [List.append_nil]
      exact numbered
  | cons inst rest induction =>
      obtain ⟨named, reads, later⟩ := chained
      have grown := induction (numbered_instruction numbered positive named reads)
        (Nat.succ_ne_zero _) later
      simp only [List.append_assoc, List.singleton_append] at grown
      rw [List.length_cons, Nat.add_comm rest.length, ← Nat.add_assoc]
      exact grown

theorem numbered_inputs (count : Nat) :
    Numbered { instructions := [], inputIds := (List.range count).map (· + 1) } (count + 1) := by
  induction count with
  | zero => exact numbered_empty
  | succ count induction =>
      have grown := numbered_input induction (Nat.succ_ne_zero _)
      rw [List.range_succ, List.map_append]
      exact grown

theorem slot_cost (inst : FhnInstruction) (levels : Nat → Int) :
    workingCost none levels inst = (workingIds inst).card := by
  rw [workingCost]
  simp only [holdingCost, Finset.sum_const, smul_eq_mul, mul_one]

theorem numbered_accepted (numbered : Numbered program nextId) (pinned : List Nat)
    (deviceBudget : UInt64) (policy : FhnEvictionPolicy) :
    (∃ plan, analyze program pinned deviceBudget policy none = some plan) ↔
      deviceBudget = 0 ∨ ∀ inst ∈ program.instructions,
        (workingIds inst).card ≤ deviceBudget.toNat := by
  have noBytes : WorkingBytesFit program none := by
    intro declared levels impossible
    cases impossible
  rw [accepts_iff_plannable program pinned deviceBudget policy none noBytes]
  constructor
  · rintro ⟨-, levels, -, fits⟩
    apply fits.imp_right
    intro small inst member
    rw [← slot_cost inst levels]
    exact small inst member
  · intro fits
    refine ⟨numbered.valid, fun _ => 0, ?_, ?_⟩
    · intro declared impossible
      cases impossible
    · apply fits.imp_right
      intro small inst member
      rw [slot_cost]
      exact small inst member

theorem used_of_pair {inst : FhnInstruction} {first second : Nat}
    (operands : inst.operands = ![first, second, 0, 0]) {id : Nat} (used : id ∈ inst.usedOperands) :
    id = first ∨ id = second := by
  obtain ⟨nonzero, slot, same⟩ := (mem_used_operands inst id).mp used
  rw [operands] at same
  fin_cases slot
  · exact Or.inl same.symm
  · exact Or.inr same.symm
  · exact absurd same.symm nonzero
  · exact absurd same.symm nonzero

theorem rot_add_loop_chained (j tId nextId : Nat) (allocated : tId < nextId) :
    Chained nextId (rotAddLoop tId nextId (2 ^ j / 2)).insts ∧
      (rotAddLoop tId nextId (2 ^ j / 2)).nextId =
        nextId + (rotAddLoop tId nextId (2 ^ j / 2)).insts.length := by
  induction j generalizing tId nextId with
  | zero =>
      have settled : rotAddLoop tId nextId (2 ^ 0 / 2) = ⟨[], tId, nextId⟩ := by
        rw [rotAddLoop]
        rfl
      rw [settled]
      exact ⟨trivial, rfl⟩
  | succ j induction =>
      have positive : 2 ^ j ≥ 1 := Nat.one_le_two_pow
      have unfolded : rotAddLoop tId nextId (2 ^ j) =
          { rotAddLoop nextId (nextId + 1) (2 ^ j / 2) with
            insts := hrotAddInst nextId tId (2 ^ j) ::
              (rotAddLoop nextId (nextId + 1) (2 ^ j / 2)).insts } := by
        rw [rotAddLoop, if_pos positive]
      obtain ⟨chained, counted⟩ := induction nextId (nextId + 1) (Nat.lt_succ_self _)
      rw [half_power, unfolded]
      refine ⟨⟨rfl, ?_, chained⟩, ?_⟩
      · intro id used
        rcases used_of_pair rfl used with rfl | rfl <;> exact allocated
      · simp only [List.length_cons, counted]
        omega

theorem matvec_row_counted (m row nextId : Nat) :
    (matvecRow (2 ^ m) row nextId).nextId =
      nextId + (matvecRow (2 ^ m) row nextId).insts.length := by
  obtain ⟨-, counted⟩ := rot_add_loop_chained m nextId (nextId + 1) (Nat.lt_succ_self _)
  simp only [matvecRow, List.length_cons, counted]
  omega

theorem matvec_rows_chained (m remaining row nextId : Nat) (within : row + remaining ≤ 2 ^ m)
    (free : 2 ^ m + 2 ≤ nextId) :
    Chained nextId (matvecRows (2 ^ m) remaining row nextId).1 := by
  induction remaining generalizing row nextId with
  | zero => trivial
  | succ remaining induction =>
      obtain ⟨chained, -⟩ := rot_add_loop_chained m nextId (nextId + 1) (Nat.lt_succ_self _)
      have counted := matvec_row_counted m row nextId
      rw [matvecRows]
      apply chained_append
      · refine ⟨rfl, ?_, chained⟩
        intro id used
        rcases used_of_pair rfl used with rfl | rfl <;> omega
      · rw [← counted]
        apply induction (row + 1) _ (by omega)
        rw [counted]
        omega

def Paired (inst : FhnInstruction) : Prop :=
  ∃ first second, inst.operands = ![first, second, 0, 0] ∧ first ≠ 0 ∧ second ≠ 0 ∧
    (inst.opcode = .hmult ∨ inst.opcode = .hrotAdd)

theorem rot_add_loop_paired (j tId nextId : Nat) (named : tId ≠ 0) (later : nextId ≠ 0) :
    ∀ inst ∈ (rotAddLoop tId nextId (2 ^ j / 2)).insts, Paired inst := by
  induction j generalizing tId nextId with
  | zero =>
      have settled : rotAddLoop tId nextId (2 ^ 0 / 2) = ⟨[], tId, nextId⟩ := by
        rw [rotAddLoop]
        rfl
      rw [settled]
      intro inst impossible
      cases impossible
  | succ j induction =>
      have positive : 2 ^ j ≥ 1 := Nat.one_le_two_pow
      rw [half_power, rotAddLoop, if_pos positive]
      intro inst member
      rcases List.mem_cons.mp member with rfl | rest
      · exact ⟨tId, tId, rfl, named, named, Or.inr rfl⟩
      · exact induction nextId (nextId + 1) later (Nat.succ_ne_zero _) inst rest

theorem matvec_rows_paired (m remaining row nextId : Nat) (later : nextId ≠ 0) :
    ∀ inst ∈ (matvecRows (2 ^ m) remaining row nextId).1, Paired inst := by
  induction remaining generalizing row nextId with
  | zero =>
      intro inst impossible
      cases impossible
  | succ remaining induction =>
      obtain ⟨below, -, -⟩ := matvec_row_computes m row nextId
      rw [matvecRows]
      intro inst member
      rcases List.mem_append.mp member with here | rest
      · rcases List.mem_cons.mp here with rfl | reduction
        · exact ⟨row + 1, 2 ^ m + 1, rfl, Nat.succ_ne_zero _, Nat.succ_ne_zero _, Or.inl rfl⟩
        · exact rot_add_loop_paired m nextId (nextId + 1) later (Nat.succ_ne_zero _) inst reduction
      · exact induction (row + 1) _ (by omega) inst rest

theorem matvec_paired (m : Nat) :
    ∀ inst ∈ (matvecProgram (2 ^ m)).instructions, Paired inst :=
  matvec_rows_paired m (2 ^ m) 0 (2 ^ m + 2) (Nat.succ_ne_zero _)

theorem paired_ids {inst : FhnInstruction} (paired : Paired inst) : (workingIds inst).card ≤ 3 := by
  obtain ⟨first, second, operands, -, -, -⟩ := paired
  have below : workingIds inst ⊆ {inst.resultId, first, second} := by
    intro id member
    rcases Finset.mem_insert.mp member with rfl | used
    · exact Finset.mem_insert_self _ _
    · rcases used_of_pair operands (List.mem_toFinset.mp used) with rfl | rfl <;> simp
  exact (Finset.card_le_card below).trans Finset.card_le_three

def matvecBuffers (n : Nat) : Nat := n + 2 + (matvecProgram n).instructions.length

theorem matvec_numbered (m : Nat) : Numbered (matvecProgram (2 ^ m)) (matvecBuffers (2 ^ m)) := by
  have inputs := numbered_inputs (2 ^ m + 1)
  rw [List.range_succ, List.map_append] at inputs
  have chained := matvec_rows_chained m (2 ^ m) 0 (2 ^ m + 2) (by omega) (le_refl _)
  have grown := numbered_chained inputs (Nat.succ_ne_zero _) chained
  rw [List.nil_append] at grown
  exact ⟨⟨grown.valid.nonzero, grown.valid.nodup, grown.valid.operandsDefined⟩, grown.covers⟩

theorem rot_add_loop_target (j tId nextId : Nat) (named : tId ≠ 0) (later : nextId ≠ 0) :
    (rotAddLoop tId nextId (2 ^ j / 2)).tId ≠ 0 := by
  induction j generalizing tId nextId with
  | zero =>
      have settled : rotAddLoop tId nextId (2 ^ 0 / 2) = ⟨[], tId, nextId⟩ := by
        rw [rotAddLoop]
        rfl
      rw [settled]
      exact named
  | succ j induction =>
      have positive : 2 ^ j ≥ 1 := Nat.one_le_two_pow
      rw [half_power, rotAddLoop, if_pos positive]
      exact induction nextId (nextId + 1) later (Nat.succ_ne_zero _)

theorem matvec_rows_outputs (m remaining row nextId : Nat) (later : nextId ≠ 0) :
    ∀ output ∈ (matvecRows (2 ^ m) remaining row nextId).2, output ≠ 0 ∧
      output < nextId + (matvecRows (2 ^ m) remaining row nextId).1.length := by
  induction remaining generalizing row nextId with
  | zero =>
      intro output impossible
      cases impossible
  | succ remaining induction =>
      obtain ⟨below, -, -⟩ := matvec_row_computes m row nextId
      have counted := matvec_row_counted m row nextId
      simp only [matvecRows, List.length_append]
      intro output member
      rcases List.mem_cons.mp member with rfl | rest
      · refine ⟨rot_add_loop_target m nextId (nextId + 1) later (Nat.succ_ne_zero _), ?_⟩
        omega
      · obtain ⟨nonzero, bounded⟩ := induction (row + 1) _ (by omega) output rest
        exact ⟨nonzero, by omega⟩

theorem matvec_outputs (m : Nat) (output : Nat)
    (listed : output ∈ (matvecProgram (2 ^ m)).outputIds) :
    output ∈ (matvecProgram (2 ^ m)).definedIds :=
  ((matvec_numbered m).covers output).mpr
    (matvec_rows_outputs m (2 ^ m) 0 (2 ^ m + 2) (Nat.succ_ne_zero _) output listed)

theorem matvec_present (m : Nat) : OperandsPresent (matvecProgram (2 ^ m)) := by
  intro inst member slot read
  obtain ⟨first, second, operands, firstNamed, secondNamed, opcode⟩ := matvec_paired m inst member
  rw [operands]
  rcases opcode with opcode | opcode <;> rw [opcode] at read <;>
    rcases List.mem_pair.mp read with rfl | rfl
  · exact firstNamed
  · exact secondNamed
  · exact firstNamed
  · exact secondNamed

def firstProduct (n : Nat) : FhnInstruction where
  opcode := .hmult
  resultId := n + 2
  operands := ![0 + 1, n + 1, 0, 0]

theorem first_product_ids {n : Nat} (positive : n ≠ 0) :
    (workingIds (firstProduct n)).card = 3 := by
  have ids : workingIds (firstProduct n) = {n + 2, 1, n + 1} := by
    ext id
    rw [workingIds, Finset.mem_insert, List.mem_toFinset, mem_used_operands]
    simp only [Finset.mem_insert, Finset.mem_singleton]
    constructor
    · rintro (rfl | ⟨nonzero, slot, same⟩)
      · exact Or.inl rfl
      · fin_cases slot
        · exact Or.inr (Or.inl same.symm)
        · exact Or.inr (Or.inr same.symm)
        · exact absurd same.symm nonzero
        · exact absurd same.symm nonzero
    · rintro (rfl | rfl | rfl)
      · exact Or.inl rfl
      · exact Or.inr ⟨by omega, 0, rfl⟩
      · exact Or.inr ⟨by omega, 1, rfl⟩
  rw [ids, Finset.card_eq_three]
  exact ⟨_, _, _, by omega, by omega, by omega, rfl⟩

theorem matvec_first (m : Nat) :
    ∃ inst ∈ (matvecProgram (2 ^ m)).instructions, (workingIds inst).card = 3 := by
  have power := Nat.two_pow_pos m
  refine ⟨firstProduct (2 ^ m), ?_, first_product_ids power.ne'⟩
  obtain ⟨count, same⟩ : ∃ count, 2 ^ m = count + 1 := ⟨2 ^ m - 1, by omega⟩
  rw [matvecProgram]
  generalize 2 ^ m = n at same
  rw [same, matvecRows]
  exact List.mem_cons_self ..

theorem matvec_accepted (m : Nat) (pinned : List Nat) (deviceBudget : UInt64)
    (policy : FhnEvictionPolicy) :
    (∃ plan, analyze (matvecProgram (2 ^ m)) pinned deviceBudget policy none = some plan) ↔
      deviceBudget = 0 ∨ 3 ≤ deviceBudget.toNat := by
  rw [numbered_accepted (matvec_numbered m)]
  apply or_congr_right
  constructor
  · intro fits
    obtain ⟨inst, member, three⟩ := matvec_first m
    rw [← three]
    exact fits inst member
  · intro enough inst member
    exact (paired_ids (matvec_paired m inst member)).trans enough

end Fhenomenon.NumberedPrograms
