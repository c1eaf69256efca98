import Fhenomenon.MovementPlanner

/-!
# What the planner's tables hold

The definition pass accepts exactly the single-assignment programs, and the use
table lists, per id, the positions of the instructions that read it. Everything
later in the development reads these tables through the statements here.
-/

namespace Fhenomenon.PlannerTables

open Fhenomenon.Lib Fhenomenon.InstructionStream Fhenomenon.MovementPlanner

theorem define_inputs_iff (ids : List Nat) (defPos result : DefPos) :
    defineInputs ids defPos = some result ↔
      (∀ id ∈ ids, id ≠ 0 ∧ defPos id = none) ∧ ids.Nodup ∧
        result = fun id => if id ∈ ids then some beforeProgram else defPos id := by
  induction ids generalizing defPos with
  | nil => simp [defineInputs, eq_comm]
  | cons id rest induction =>
      by_cases refused : id = 0 ∨ (defPos id).isSome
      · simp only [defineInputs, if_pos refused]
        constructor
        · intro impossible
          cases impossible
        · rintro ⟨fresh, -, -⟩
          have head := fresh id (by simp)
          rcases refused with zero | defined
          · exact absurd zero head.1
          · simp [head.2] at defined
      · simp only [defineInputs, if_neg refused]
        have nonzero : id ≠ 0 := fun zero => refused (Or.inl zero)
        have undefined : defPos id = none := by
          cases found : defPos id with
          | none => rfl
          | some position => exact absurd (Or.inr (by simp [found])) refused
        rw [induction]
        have table : (fun other => if other ∈ rest then some beforeProgram
              else Function.update defPos id (some beforeProgram) other) =
            fun other => if other ∈ id :: rest then some beforeProgram else defPos other := by
          funext other
          by_cases same : other = id <;> by_cases later : other ∈ rest <;> simp [same, later]
        rw [table, List.nodup_cons]
        constructor
        · rintro ⟨fresh, nodup, rfl⟩
          have absent : id ∉ rest := by
            intro member
            have updated := (fresh id member).2
            simp at updated
          refine ⟨?_, ⟨absent, nodup⟩, rfl⟩
          intro other member
          rcases List.mem_cons.mp member with rfl | later
          · exact ⟨nonzero, undefined⟩
          · have different : other ≠ id := fun same => absent (same ▸ later)
            have tail := fresh other later
            rw [Function.update_of_ne different] at tail
            exact tail
        · rintro ⟨fresh, ⟨absent, nodup⟩, rfl⟩
          refine ⟨?_, nodup, rfl⟩
          intro other later
          have different : other ≠ id := fun same => absent (same ▸ later)
          rw [Function.update_of_ne different]
          exact fresh other (List.mem_cons_of_mem _ later)

/-- The positions `defineResults` writes: the first match is the only one when
results are distinct. -/
def resultPosition : List FhnInstruction → Nat → Nat → Option Int
  | [], _, _ => none
  | inst :: rest, i, id =>
      if id = inst.resultId then some (i : Int) else resultPosition rest (i + 1) id

theorem result_position_none (insts : List FhnInstruction) (i id : Nat)
    (absent : id ∉ insts.map (·.resultId)) : resultPosition insts i id = none := by
  induction insts generalizing i with
  | nil => rfl
  | cons inst rest induction =>
      simp only [List.map_cons, List.mem_cons, not_or] at absent
      simp only [resultPosition, if_neg absent.1]
      exact induction (i + 1) absent.2

theorem result_position_ge (insts : List FhnInstruction) (i id : Nat) (defined : Int)
    (found : resultPosition insts i id = some defined) : (i : Int) ≤ defined := by
  induction insts generalizing i with
  | nil => simp [resultPosition] at found
  | cons inst rest induction =>
      simp only [resultPosition] at found
      split at found
      · cases found
        exact le_refl _
      · have later := induction (i + 1) found
        push_cast at later
        omega

theorem define_results_iff (insts : List FhnInstruction) (i : Nat) (defPos result : DefPos) :
    defineResults insts i defPos = some result ↔
      (∀ id ∈ insts.map (·.resultId), id ≠ 0 ∧ defPos id = none) ∧
        (insts.map (·.resultId)).Nodup ∧
          result = fun id => (resultPosition insts i id).or (defPos id) := by
  induction insts generalizing i defPos with
  | nil => simp [defineResults, resultPosition, eq_comm]
  | cons inst rest induction =>
      by_cases refused : inst.resultId = 0 ∨ (defPos inst.resultId).isSome
      · simp only [defineResults, if_pos refused]
        constructor
        · intro impossible
          cases impossible
        · rintro ⟨fresh, -, -⟩
          have head := fresh inst.resultId (by simp)
          rcases refused with zero | defined
          · exact absurd zero head.1
          · simp [head.2] at defined
      · simp only [defineResults, if_neg refused]
        have nonzero : inst.resultId ≠ 0 := fun zero => refused (Or.inl zero)
        have undefined : defPos inst.resultId = none := by
          cases found : defPos inst.resultId with
          | none => rfl
          | some position => exact absurd (Or.inr (by simp [found])) refused
        rw [induction, List.map_cons, List.nodup_cons]
        have table (absent : inst.resultId ∉ rest.map (·.resultId)) :
            (fun id => (resultPosition rest (i + 1) id).or
              (Function.update defPos inst.resultId (some (i : Int)) id)) =
            fun id => (resultPosition (inst :: rest) i id).or (defPos id) := by
          funext id
          by_cases same : id = inst.resultId
          · subst same
            simp [resultPosition, result_position_none rest (i + 1) _ absent]
          · simp [resultPosition, same]
        constructor
        · rintro ⟨fresh, nodup, rfl⟩
          have absent : inst.resultId ∉ rest.map (·.resultId) := by
            intro member
            have updated := (fresh _ member).2
            simp at updated
          refine ⟨?_, ⟨absent, nodup⟩, table absent⟩
          intro id member
          rcases List.mem_cons.mp member with rfl | later
          · exact ⟨nonzero, undefined⟩
          · have different : id ≠ inst.resultId := fun same => absent (same ▸ later)
            have tail := fresh id later
            rw [Function.update_of_ne different] at tail
            exact tail
        · rintro ⟨fresh, ⟨absent, nodup⟩, rfl⟩
          refine ⟨?_, nodup, (table absent).symm⟩
          intro id later
          have different : id ≠ inst.resultId := fun same => absent (same ▸ later)
          rw [Function.update_of_ne different]
          exact fresh id (List.mem_cons_of_mem _ later)

/-- Being defined before a position is having been written by the results up
to it: `resultPosition` returns the first match. -/
theorem result_position_before (insts : List FhnInstruction) (i count id : Nat) :
    (∃ defined, resultPosition insts i id = some defined ∧ defined < (i : Int) + count) ↔
      id ∈ (insts.take count).map (·.resultId) := by
  induction insts generalizing i count with
  | nil => simp [resultPosition]
  | cons inst rest induction =>
      cases count with
      | zero =>
          simp only [Nat.cast_zero, add_zero, List.take_zero, List.map_nil, List.not_mem_nil,
            iff_false, not_exists, not_and, not_lt]
          intro defined
          exact result_position_ge (inst :: rest) i id defined
      | succ count =>
          simp only [List.take_succ_cons, List.map_cons, List.mem_cons]
          by_cases same : id = inst.resultId
          · simp [resultPosition, same]
          · have later := induction (i + 1) count
            simp only [resultPosition, same, false_or, if_false]
            have shift : (i : Int) + ((count + 1 : Nat) : Int) = ((i + 1 : Nat) : Int) + count := by
              push_cast
              ring
            rw [shift]
            exact later

/-- One entry per operand slot that reads `id`, so an instruction reading it
twice contributes its position twice. -/
def usesFrom : List FhnInstruction → Nat → Uses
  | [], _, _ => []
  | inst :: rest, i, id =>
      List.replicate (inst.usedOperands.count id) (i : Int) ++ usesFrom rest (i + 1) id

def usePositions (program : FhnProgram) : Uses := usesFrom program.instructions 0

theorem record_uses_iff (defPos : DefPos) (pos : Int) (ids : List Nat) (uses result : Uses) :
    recordUses defPos pos ids uses = some result ↔
      (∀ id ∈ ids, ∃ defined, defPos id = some defined ∧ defined < pos) ∧
        result = fun id => uses id ++ List.replicate (ids.count id) pos := by
  induction ids generalizing uses with
  | nil => simp [recordUses, eq_comm]
  | cons id rest induction =>
      have table : (fun other => Function.update uses id (uses id ++ [pos]) other ++
            List.replicate (rest.count other) pos) =
          fun other => uses other ++ List.replicate ((id :: rest).count other) pos := by
        funext other
        by_cases same : other = id
        · subst same
          simp [List.replicate_succ]
        · have different : id ≠ other := fun equal => same equal.symm
          simp [same, different]
      cases found : defPos id with
      | none => simp [recordUses, found]
      | some defined =>
          by_cases late : defined ≥ pos
          · simp [recordUses, found, late]
          · simp only [recordUses, found, if_neg late]
            rw [induction, table, List.forall_mem_cons]
            have early : ∃ value, defPos id = some value ∧ value < pos :=
              ⟨defined, found, by omega⟩
            constructor
            · rintro ⟨rest, same⟩
              exact ⟨⟨early, rest⟩, same⟩
            · rintro ⟨⟨-, rest⟩, same⟩
              exact ⟨rest, same⟩

theorem collect_uses_iff (defPos : DefPos) (insts : List FhnInstruction) (i : Nat)
    (uses result : Uses) :
    collectUses defPos insts i uses = some result ↔
      (∀ j inst, insts[j]? = some inst → ∀ id ∈ inst.usedOperands,
        ∃ defined, defPos id = some defined ∧ defined < ((i + j : Nat) : Int)) ∧
        result = fun id => uses id ++ usesFrom insts i id := by
  induction insts generalizing i uses with
  | nil => simp [collectUses, usesFrom, eq_comm]
  | cons inst rest induction =>
      have split (motive : Nat → FhnInstruction → Prop) :
          (∀ j other, (inst :: rest)[j]? = some other → motive j other) ↔
            motive 0 inst ∧ ∀ j other, rest[j]? = some other → motive (j + 1) other := by
        constructor
        · intro all
          exact ⟨all 0 inst rfl, fun j other get => all (j + 1) other (by simpa using get)⟩
        · rintro ⟨head, tail⟩ j other get
          cases j with
          | zero =>
              simp only [List.getElem?_cons_zero, Option.some.injEq] at get
              exact get ▸ head
          | succ j => exact tail j other (by simpa using get)
      rw [split (fun j other => ∀ id ∈ other.usedOperands,
        ∃ defined, defPos id = some defined ∧ defined < ((i + j : Nat) : Int))]
      simp only [Nat.add_zero]
      cases recorded : recordUses defPos (i : Int) inst.usedOperands uses with
      | none =>
          simp only [collectUses, recorded]
          constructor
          · intro impossible
            cases impossible
          · rintro ⟨⟨head, -⟩, -⟩
            have accepted := (record_uses_iff defPos i inst.usedOperands uses _).mpr ⟨head, rfl⟩
            rw [recorded] at accepted
            cases accepted
      | some extended =>
          simp only [collectUses, recorded]
          obtain ⟨head, rfl⟩ := (record_uses_iff defPos i inst.usedOperands uses _).mp recorded
          rw [induction (i + 1)]
          have shift (j : Nat) : i + 1 + j = i + (j + 1) := by omega
          simp only [shift, usesFrom, List.append_assoc]
          exact ⟨fun tail => ⟨⟨head, tail.1⟩, tail.2⟩, fun both => ⟨both.1.2, both.2⟩⟩

theorem mem_uses_from (insts : List FhnInstruction) (i id : Nat) (use : Int) :
    use ∈ usesFrom insts i id ↔
      ∃ j inst, insts[j]? = some inst ∧ id ∈ inst.usedOperands ∧ use = ((i + j : Nat) : Int) := by
  induction insts generalizing i with
  | nil => simp [usesFrom]
  | cons inst rest induction =>
      rw [usesFrom, List.mem_append, List.mem_replicate, induction]
      constructor
      · rintro (⟨count, rfl⟩ | ⟨j, other, get, member, rfl⟩)
        · exact ⟨0, inst, rfl, List.count_pos_iff.mp (Nat.pos_of_ne_zero count), by simp⟩
        · exact ⟨j + 1, other, by simpa using get, member, by push_cast; ring⟩
      · rintro ⟨j, other, get, member, rfl⟩
        cases j with
        | zero =>
            simp only [List.getElem?_cons_zero, Option.some.injEq] at get
            subst get
            exact Or.inl ⟨(List.count_pos_iff.mpr member).ne', by simp⟩
        | succ j => exact Or.inr ⟨j, other, by simpa using get, member, by push_cast; ring⟩

theorem uses_from_ascending (insts : List FhnInstruction) (i id : Nat) :
    (usesFrom insts i id).Pairwise (· ≤ ·) := by
  induction insts generalizing i with
  | nil => exact List.Pairwise.nil
  | cons inst rest induction =>
      rw [usesFrom, List.pairwise_append]
      refine ⟨List.pairwise_replicate_of_refl, induction (i + 1), ?_⟩
      intro first firstMember second secondMember
      rw [List.eq_of_mem_replicate firstMember]
      obtain ⟨j, -, -, -, rfl⟩ := (mem_uses_from rest (i + 1) id second).mp secondMember
      push_cast
      omega

theorem mem_use_positions (program : FhnProgram) (id : Nat) (use : Int) :
    use ∈ usePositions program id ↔ ∃ j : Nat, program.ReadsAt j id ∧ use = (j : Int) := by
  have member := mem_uses_from program.instructions 0 id use
  simp only [Nat.zero_add] at member
  rw [usePositions, member]
  simp only [FhnProgram.ReadsAt]
  constructor
  · rintro ⟨j, inst, get, reads, same⟩
    exact ⟨j, ⟨inst, get, reads⟩, same⟩
  · rintro ⟨j, ⟨inst, get, reads⟩, same⟩
    exact ⟨j, inst, get, reads, same⟩

theorem use_positions_empty (program : FhnProgram) (id : Nat) :
    usePositions program id = [] ↔ ∀ j, ¬program.ReadsAt j id := by
  rw [List.eq_nil_iff_forall_not_mem]
  constructor
  · intro none j reads
    exact none (j : Int) ((mem_use_positions program id j).mpr ⟨j, reads, rfl⟩)
  · intro unread use member
    obtain ⟨j, reads, -⟩ := (mem_use_positions program id use).mp member
    exact unread j reads

theorem next_use_after_eq_top (program : FhnProgram) (id : Nat) (pos : Int) :
    nextUseAfter (usePositions program) id pos = ⊤ ↔
      ∀ j : Nat, program.ReadsAt j id → (j : Int) ≤ pos := by
  unfold nextUseAfter
  cases found : (usePositions program id).find? (fun use => decide (pos < use)) with
  | none =>
      simp only [true_iff]
      intro j reads
      have absent := List.find?_eq_none.mp found j
        ((mem_use_positions program id j).mpr ⟨j, reads, rfl⟩)
      simpa using absent
  | some use =>
      simp only [WithTop.coe_ne_top, false_iff]
      intro early
      have later : pos < use := by simpa using List.find?_some found
      obtain ⟨j, reads, rfl⟩ :=
        (mem_use_positions program id use).mp (List.mem_of_find?_eq_some found)
      have bound := early j reads
      omega

/-- The first match in an ascending list is the least use after `pos`. -/
theorem next_use_after_eq_coe (program : FhnProgram) (id : Nat) (pos use : Int)
    (found : nextUseAfter (usePositions program) id pos = (use : WithTop Int)) :
    pos < use ∧ (∃ j : Nat, program.ReadsAt j id ∧ use = (j : Int)) ∧
      ∀ j : Nat, program.ReadsAt j id → pos < (j : Int) → use ≤ (j : Int) := by
  unfold nextUseAfter at found
  cases first : (usePositions program id).find? (fun use => decide (pos < use)) with
  | none => simp [first] at found
  | some value =>
      simp only [first, WithTop.coe_inj] at found
      subst found
      refine ⟨by simpa using List.find?_some first,
        (mem_use_positions program id value).mp (List.mem_of_find?_eq_some first), ?_⟩
      intro j reads later
      obtain ⟨-, before, after, split, early⟩ := List.find?_eq_some_iff_append.mp first
      have present : (j : Int) ∈ usePositions program id :=
        (mem_use_positions program id j).mpr ⟨j, reads, rfl⟩
      have ascending := uses_from_ascending program.instructions 0 id
      change (usePositions program id).Pairwise (· ≤ ·) at ascending
      rw [split] at present ascending
      rcases List.mem_append.mp present with skipped | kept
      · have notLater := early j skipped
        simp at notLater
        omega
      · rcases List.mem_cons.mp kept with same | tail
        · omega
        · exact (List.pairwise_cons.mp (List.pairwise_append.mp ascending).2.1).1 _ tail

theorem next_use_after_le (program : FhnProgram) (id : Nat) (pos : Int) (j : Nat)
    (reads : program.ReadsAt j id) (later : pos < (j : Int)) :
    nextUseAfter (usePositions program) id pos ≤ ((j : Int) : WithTop Int) := by
  cases found : nextUseAfter (usePositions program) id pos with
  | top =>
      have bound := (next_use_after_eq_top program id pos).mp found j reads
      omega
  | coe use =>
      exact WithTop.coe_le_coe.mpr
        ((next_use_after_eq_coe program id pos use found).2.2 j reads later)

theorem next_use_after_succ (program : FhnProgram) (id i : Nat) (unread : ¬program.ReadsAt i id) :
    nextUseAfter (usePositions program) id (i : Int) =
      nextUseAfter (usePositions program) id ((i : Int) - 1) := by
  cases before : nextUseAfter (usePositions program) id ((i : Int) - 1) with
  | top =>
      rw [next_use_after_eq_top] at before ⊢
      intro j reads
      have bound := before j reads
      omega
  | coe use =>
      obtain ⟨later, ⟨j, reads, rfl⟩, least⟩ := next_use_after_eq_coe program id _ use before
      have different : j ≠ i := fun equal => unread (equal ▸ reads)
      apply le_antisymm
      · exact next_use_after_le program id i j reads (by omega)
      · cases after : nextUseAfter (usePositions program) id (i : Int) with
        | top => exact le_top
        | coe other =>
            obtain ⟨otherLater, ⟨k, otherReads, rfl⟩, -⟩ :=
              next_use_after_eq_coe program id _ other after
            exact WithTop.coe_le_coe.mpr (least k otherReads (by omega))

/-- The finished definition table. -/
def definitionTable (program : FhnProgram) : DefPos := fun id =>
  (resultPosition program.instructions 0 id).or
    (if id ∈ program.inputIds then some beforeProgram else none)

theorem definition_table_before (program : FhnProgram)
    (apart : ∀ id ∈ program.resultIds, id ∉ program.inputIds) (position id : Nat) :
    (∃ value, definitionTable program id = some value ∧ value < (position : Int)) ↔
      id ∈ program.definedBefore position := by
  have results := result_position_before program.instructions 0 position id
  simp only [Nat.cast_zero, zero_add] at results
  rw [FhnProgram.definedBefore, List.mem_append, ← results, definitionTable]
  by_cases input : id ∈ program.inputIds
  · have absent : resultPosition program.instructions 0 id = none :=
      result_position_none _ 0 id fun member => apart id member input
    have early : beforeProgram < (position : Int) := by
      simp only [beforeProgram]
      omega
    simp [absent, input, early]
  · simp [input]

theorem ssa_valid_iff (program : FhnProgram) :
    SsaValid program ↔
      ((∀ id ∈ program.inputIds, id ≠ 0) ∧ program.inputIds.Nodup) ∧
        ((∀ id ∈ program.resultIds, id ≠ 0 ∧ id ∉ program.inputIds) ∧ program.resultIds.Nodup) ∧
          ∀ position id, program.ReadsAt position id → id ∈ program.definedBefore position := by
  constructor
  · intro valid
    have nodup := List.nodup_append.mp valid.nodup
    have nonzero := List.forall_mem_append.mp valid.nonzero
    refine ⟨⟨nonzero.1, nodup.1⟩, ⟨?_, nodup.2.1⟩, valid.operandsDefined⟩
    intro id result
    exact ⟨nonzero.2 id result, fun input => nodup.2.2 id input id result rfl⟩
  · rintro ⟨⟨inputNonzero, inputNodup⟩, ⟨fresh, resultNodup⟩, defined⟩
    constructor
    · exact List.forall_mem_append.mpr ⟨inputNonzero, fun id result => (fresh id result).1⟩
    · refine List.nodup_append.mpr ⟨inputNodup, resultNodup, ?_⟩
      intro id input other result same
      exact (fresh other result).2 (same ▸ input)
    · exact defined

/-- Validation accepts exactly the single-assignment programs, and its use table
is `usePositions`. -/
theorem prepare_iff (program : FhnProgram) (model : Option FhnLevelModel) (uses : Uses)
    (levelOf : Nat → Option Int) :
    prepare program model = some (uses, levelOf) ↔
      SsaValid program ∧ uses = usePositions program ∧
        levelTable model program = some levelOf := by
  rw [ssa_valid_iff]
  simp only [prepare, Option.bind_eq_bind, Option.bind_eq_some_iff, define_inputs_iff,
    define_results_iff, collect_uses_iff, Option.some.injEq, Prod.mk.injEq]
  have inputAbsent (id : Nat) :
      (if id ∈ program.inputIds then some beforeProgram else none) = none ↔
        id ∉ program.inputIds := by
    simp
  constructor
  · rintro ⟨_, ⟨inputFresh, inputNodup, rfl⟩, _, ⟨resultFresh, resultNodup, rfl⟩, _,
      ⟨reads, rfl⟩, levels, leveled, rfl, rfl⟩
    have fresh : ∀ id ∈ program.resultIds, id ≠ 0 ∧ id ∉ program.inputIds := fun id member =>
      ⟨(resultFresh id member).1, (inputAbsent id).mp (resultFresh id member).2⟩
    refine ⟨⟨⟨fun id member => (inputFresh id member).1, inputNodup⟩,
      ⟨fresh, resultNodup⟩, ?_⟩, by simp [usePositions], leveled⟩
    rintro position id ⟨inst, get, member⟩
    rw [← definition_table_before program (fun id member => (fresh id member).2)]
    simpa only [Nat.zero_add, definitionTable] using reads position inst get id member
  · rintro ⟨⟨⟨inputNonzero, inputNodup⟩, ⟨fresh, resultNodup⟩, defined⟩, rfl, leveled⟩
    refine ⟨_, ⟨fun id member => ⟨inputNonzero id member, trivial⟩, inputNodup, rfl⟩, _,
      ⟨fun id member => ⟨(fresh id member).1, (inputAbsent id).mpr (fresh id member).2⟩,
        resultNodup, rfl⟩, _, ⟨?_, rfl⟩, levelOf, leveled, by simp [usePositions], rfl⟩
    intro position inst get id member
    have earlier := defined position id ⟨inst, get, member⟩
    rw [← definition_table_before program (fun id member => (fresh id member).2)] at earlier
    simpa only [Nat.zero_add, definitionTable] using earlier

end Fhenomenon.PlannerTables
