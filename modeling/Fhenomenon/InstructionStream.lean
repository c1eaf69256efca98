import Mathlib

/-!
# Instruction streams

`fhn_program.h`: opcodes, instructions with four operand slots, and programs.
Buffer ids are `uint32_t` in the source and natural numbers here; nothing in
the planner or the executor does arithmetic on them. A floating parameter is
the rational number a finite `double` denotes.
-/

namespace Fhenomenon.InstructionStream

def fhnAbiVersion : Nat := 1

inductive FhnOpCode
  | nop
  | addCC | addCP | addCS | subCC | subCP | subSC | negate | multCC | multCP | multCS
  | relinearize | rescale | rotate | conjugate | multKey
  | modDown | levelDown
  | hmult | hrot | hrotAdd | hconjAdd | mad
  | and | or | xor | eq | lt | le
deriving DecidableEq, Repr

instance operandPositions : NeZero 4 := ⟨by decide⟩

instance parameterPositions : NeZero 2 := ⟨by decide⟩

/-- Operand id zero marks an unused slot. -/
structure FhnInstruction where
  opcode : FhnOpCode
  resultId : Nat
  operands : Fin 4 → Nat
  params : Fin 4 → Int := fun _ => 0
  fparams : Fin 2 → Rat := fun _ => 0
deriving DecidableEq

structure FhnProgram where
  version : Nat := fhnAbiVersion
  instructions : List FhnInstruction
  inputIds : List Nat
  outputIds : List Nat := []
deriving DecidableEq

/-- The operands a loop `for j in 0..4` sees when it skips id zero. -/
def FhnInstruction.usedOperands (inst : FhnInstruction) : List Nat :=
  (List.ofFn inst.operands).filter (· ≠ 0)

theorem mem_used_operands (inst : FhnInstruction) (id : Nat) :
    id ∈ inst.usedOperands ↔ id ≠ 0 ∧ ∃ slot, inst.operands slot = id := by
  rw [FhnInstruction.usedOperands, List.mem_filter, List.mem_ofFn]
  simp [and_comm]

theorem used_operands_length (inst : FhnInstruction) : inst.usedOperands.length ≤ 4 := by
  refine (List.length_filter_le _ _).trans ?_
  simp

def FhnProgram.resultIds (program : FhnProgram) : List Nat :=
  program.instructions.map (·.resultId)

/-- Every id the program defines: inputs first, then results in order. -/
def FhnProgram.definedIds (program : FhnProgram) : List Nat :=
  program.inputIds ++ program.resultIds

/-- The ids defined before instruction `position` runs. -/
def FhnProgram.definedBefore (program : FhnProgram) (position : Nat) : List Nat :=
  program.inputIds ++ (program.instructions.take position).map (·.resultId)

/-- Instruction `position` has `id` among its used operands. -/
def FhnProgram.ReadsAt (program : FhnProgram) (position id : Nat) : Prop :=
  ∃ inst, program.instructions[position]? = some inst ∧ id ∈ inst.usedOperands

/-- Single assignment: each id is non-zero and defined once, and every used
operand is an input or the result of an earlier instruction. -/
structure SsaValid (program : FhnProgram) : Prop where
  nonzero : ∀ id ∈ program.definedIds, id ≠ 0
  nodup : program.definedIds.Nodup
  operandsDefined : ∀ position id, program.ReadsAt position id →
    id ∈ program.definedBefore position

theorem defined_before_subset (program : FhnProgram) (position : Nat) :
    program.definedBefore position ⊆ program.definedIds := by
  intro id member
  simp only [FhnProgram.definedBefore, List.mem_append, List.mem_map] at member
  simp only [FhnProgram.definedIds, FhnProgram.resultIds, List.mem_append, List.mem_map]
  rcases member with input | ⟨inst, taken, same⟩
  · exact Or.inl input
  · exact Or.inr ⟨inst, List.mem_of_mem_take taken, same⟩

theorem defined_before_succ (program : FhnProgram) (position : Nat) (inst : FhnInstruction)
    (found : program.instructions[position]? = some inst) :
    program.definedBefore (position + 1) = program.definedBefore position ++ [inst.resultId] := by
  simp [FhnProgram.definedBefore, List.take_add_one, found, List.append_assoc]

theorem defined_before_mono (program : FhnProgram) {earlier later : Nat} (order : earlier ≤ later) :
    program.definedBefore earlier ⊆ program.definedBefore later := by
  intro id member
  simp only [FhnProgram.definedBefore, List.mem_append, List.mem_map] at member ⊢
  rcases member with input | ⟨inst, taken, same⟩
  · exact Or.inl input
  · exact Or.inr ⟨inst, (List.take_sublist_take_left order).subset taken, same⟩

theorem defined_before_length (program : FhnProgram) :
    program.definedBefore program.instructions.length = program.definedIds := by
  simp [FhnProgram.definedBefore, FhnProgram.definedIds, FhnProgram.resultIds]

theorem result_mem_defined (program : FhnProgram) (position : Nat) (inst : FhnInstruction)
    (found : program.instructions[position]? = some inst) :
    inst.resultId ∈ program.definedIds := by
  apply defined_before_subset program (position + 1)
  rw [defined_before_succ program position inst found]
  simp

theorem result_not_defined_before {program : FhnProgram} (valid : SsaValid program)
    (position : Nat) (inst : FhnInstruction)
    (found : program.instructions[position]? = some inst) :
    inst.resultId ∉ program.definedBefore position := by
  have sublist : (program.definedBefore (position + 1)).Sublist program.definedIds :=
    (List.Sublist.refl _).append ((List.take_sublist _ _).map _)
  have nodup := valid.nodup.sublist sublist
  rw [defined_before_succ program position inst found, List.nodup_append] at nodup
  intro member
  exact nodup.2.2 _ member _ (by simp) rfl

theorem result_not_operand {program : FhnProgram} (valid : SsaValid program)
    (position : Nat) (inst : FhnInstruction)
    (found : program.instructions[position]? = some inst) :
    inst.resultId ∉ inst.usedOperands := fun member =>
  result_not_defined_before valid position inst found
    (valid.operandsDefined position _ ⟨inst, found, member⟩)

theorem ssa_add_input {program : FhnProgram} (valid : SsaValid program) (id : Nat)
    (nonzero : id ≠ 0) (fresh : id ∉ program.definedIds) :
    SsaValid { program with inputIds := program.inputIds ++ [id] } := by
  have moved : (program.inputIds ++ [id] ++ program.resultIds).Perm (id :: program.definedIds) := by
    rw [List.append_assoc, List.singleton_append]
    exact List.perm_middle
  constructor
  · intro other member
    rcases List.mem_cons.mp (moved.mem_iff.mp member) with same | old
    · exact same ▸ nonzero
    · exact valid.nonzero other old
  · exact moved.nodup_iff.mpr (List.nodup_cons.mpr ⟨fresh, valid.nodup⟩)
  · intro position other reads
    have defined := valid.operandsDefined position other reads
    simp only [FhnProgram.definedBefore, List.mem_append] at defined ⊢
    exact defined.imp_left Or.inl

theorem ssa_add_instruction {program : FhnProgram} (valid : SsaValid program)
    (inst : FhnInstruction) (nonzero : inst.resultId ≠ 0)
    (fresh : inst.resultId ∉ program.definedIds)
    (defined : ∀ id ∈ inst.usedOperands, id ∈ program.definedIds) :
    SsaValid { program with instructions := program.instructions ++ [inst] } := by
  have grown : program.inputIds ++ (program.instructions ++ [inst]).map (·.resultId) =
      program.definedIds ++ [inst.resultId] := by
    simp [FhnProgram.definedIds, FhnProgram.resultIds]
  constructor
  · intro other member
    rw [FhnProgram.definedIds, FhnProgram.resultIds, grown] at member
    rcases List.mem_append.mp member with old | new
    · exact valid.nonzero other old
    · exact List.mem_singleton.mp new ▸ nonzero
  · rw [FhnProgram.definedIds, FhnProgram.resultIds, grown]
    exact List.nodup_append.mpr ⟨valid.nodup, List.nodup_singleton _, by
      intro one oneMember two twoMember same
      rw [List.mem_singleton] at twoMember
      exact fresh (twoMember ▸ same ▸ oneMember)⟩
  · intro position other reads
    obtain ⟨reader, get, operand⟩ := reads
    by_cases early : position < program.instructions.length
    · rw [List.getElem?_append_left early] at get
      have old := valid.operandsDefined position other ⟨reader, get, operand⟩
      rw [FhnProgram.definedBefore, List.take_append_of_le_length (by omega)]
      exact old
    · have last : position = program.instructions.length := by
        have bound := (List.getElem?_eq_some_iff.mp get).1
        rw [List.length_append, List.length_singleton] at bound
        omega
      subst last
      rw [List.getElem?_concat_length, Option.some.injEq] at get
      rw [FhnProgram.definedBefore, List.take_append_of_le_length (le_refl _), List.take_length]
      exact defined other (get ▸ operand)

end Fhenomenon.InstructionStream
