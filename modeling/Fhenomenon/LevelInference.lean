import Fhenomenon.Lib.LongestChain
import Fhenomenon.PlanLifetimes

/-!
# Level inference

What the one-pass level table means. A level trace assigns a level to every id
under the declared effects; inference finds it whenever there is one. When every
opcode preserves or consumes, an id's level counts the rescales on the longest
def-use chain that ends at it.
-/

namespace Fhenomenon.LevelInference

open Fhenomenon.Lib.LongestChain Fhenomenon.InstructionStream Fhenomenon.MovementPlanner
open Fhenomenon.PlanLifetimes

/-- A usable model: the table covers every level and has no zero entry. -/
structure WellFormed (model : FhnLevelModel) : Prop where
  fresh : 0 ≤ model.freshLevel
  covers : ∀ level, 0 ≤ level → level ≤ model.freshLevel →
    level.toNat < model.bytesByLevel.length
  nonzero : ∀ bytes ∈ model.bytesByLevel, bytes ≠ 0

theorem valid_model_iff (model : FhnLevelModel) :
    validModel model = true ↔ WellFormed model := by
  simp only [validModel, Bool.and_eq_true, decide_eq_true_eq, List.all_eq_true]
  constructor
  · intro checks
    constructor
    · exact checks.1.1
    · intro level low high
      have covered := checks.1.2
      omega
    · exact checks.2
  · intro wellFormed
    have top := wellFormed.covers model.freshLevel wellFormed.fresh (le_refl _)
    exact ⟨⟨wellFormed.fresh, by omega⟩, wellFormed.nonzero⟩

/-- What an effect makes of the lowest operand level. -/
def EffectRule (effect : Option FhnLevelEffect) (floor param level : Int) : Prop :=
  match effect with
  | some .preserve => level = floor
  | some .consume => level = floor - 1
  | some .setParam0 => level = param ∧ param ≤ floor
  | some (.other _) => False
  | none => False

def operandLevels (model : FhnLevelModel) (levels : Nat → Int) (inst : FhnInstruction) : Set Int :=
  insert model.freshLevel (levels '' {id | id ∈ inst.usedOperands})

structure LevelStep (model : FhnLevelModel) (levels : Nat → Int) (inst : FhnInstruction) :
    Prop where
  rule : ∃ floor, IsLeast (operandLevels model levels inst) floor ∧
    EffectRule (model.effects inst.opcode) floor (inst.params 0) (levels inst.resultId)
  nonneg : 0 ≤ levels inst.resultId
  atMostFresh : levels inst.resultId ≤ model.freshLevel

/-- Inputs are fresh and every instruction obeys its effect. -/
structure LevelTrace (model : FhnLevelModel) (program : FhnProgram) (levels : Nat → Int) :
    Prop where
  inputs : ∀ id ∈ program.inputIds, levels id = model.freshLevel
  results : ∀ inst ∈ program.instructions, LevelStep model levels inst

theorem fold_min_least (levels : Nat → Int) (ids : List Nat) (start : Int) :
    IsLeast (insert start (levels '' {id | id ∈ ids}))
      (ids.foldl (fun level id => min level (levels id)) start) := by
  induction ids generalizing start with
  | nil => simp
  | cons id rest induction =>
      have tail := induction (min start (levels id))
      rw [List.foldl_cons]
      constructor
      · rcases tail.1 with first | ⟨other, later, same⟩
        · rw [first]
          rcases le_total start (levels id) with less | more
          · rw [min_eq_left less]
            exact Set.mem_insert _ _
          · rw [min_eq_right more]
            exact Set.mem_insert_of_mem _ ⟨id, List.mem_cons_self, rfl⟩
        · exact Set.mem_insert_of_mem _ ⟨other, List.mem_cons_of_mem _ later, same⟩
      · have first := tail.2 (Set.mem_insert _ _)
        intro level member
        rcases member with own | ⟨other, listed, rfl⟩
        · rw [own]
          exact first.trans (min_le_left _ _)
        · rcases List.mem_cons.mp listed with same | later
          · rw [same]
            exact first.trans (min_le_right _ _)
          · exact tail.2 (Set.mem_insert_of_mem _ ⟨other, later, rfl⟩)

theorem min_operand_level_least (model : FhnLevelModel) {levelOf : Nat → Option Int}
    {levels : Nat → Int} {inst : FhnInstruction}
    (agree : ∀ id ∈ inst.usedOperands, levelOf id = some (levels id)) :
    IsLeast (operandLevels model levels inst) (minOperandLevel model levelOf inst) := by
  have same : minOperandLevel model levelOf inst =
      inst.usedOperands.foldl (fun level id => min level (levels id)) model.freshLevel := by
    unfold minOperandLevel
    apply List.foldl_ext
    intro level id member
    rw [agree id member, Option.getD_some]
  rw [same]
  exact fold_min_least levels inst.usedOperands model.freshLevel

theorem result_level_iff (model : FhnLevelModel) (levelOf : Nat → Option Int)
    (inst : FhnInstruction) (level : Int) :
    resultLevel model levelOf inst = some level ↔
      EffectRule (model.effects inst.opcode) (minOperandLevel model levelOf inst)
        (inst.params 0) level ∧ 0 ≤ level ∧ level ≤ model.freshLevel := by
  have ranged (raised : Int) :
      (if raised < 0 ∨ raised > model.freshLevel then none else some raised) = some level ↔
        level = raised ∧ 0 ≤ level ∧ level ≤ model.freshLevel := by
    by_cases outside : raised < 0 ∨ raised > model.freshLevel
    · rw [if_pos outside]
      constructor
      · intro impossible
        cases impossible
      · intro inside
        omega
    · rw [if_neg outside, Option.some.injEq]
      constructor
      · intro same
        omega
      · intro inside
        omega
  unfold resultLevel EffectRule
  cases effect : model.effects inst.opcode with
  | none => simp
  | some declared =>
      cases declared with
      | preserve => exact ranged _
      | consume => exact ranged _
      | setParam0 =>
          by_cases raises : inst.params 0 > minOperandLevel model levelOf inst
          · simp only [if_pos raises]
            constructor
            · intro impossible
              cases impossible
            · intro allowed
              have within := allowed.1.2
              omega
          · simp only [if_neg raises]
            rw [ranged]
            have within : inst.params 0 ≤ minOperandLevel model levelOf inst := by omega
            simp only [within, and_true]
      | other raw => simp

def levelsBefore (model : FhnLevelModel) (program : FhnProgram) (i : Nat) :
    Option (Nat → Option Int) :=
  inferResultLevels model (program.instructions.take i) (inputLevels model program.inputIds)

theorem infer_append (model : FhnLevelModel) (first second : List FhnInstruction)
    (levelOf : Nat → Option Int) :
    inferResultLevels model (first ++ second) levelOf =
      (inferResultLevels model first levelOf).bind (inferResultLevels model second) := by
  induction first generalizing levelOf with
  | nil => rfl
  | cons inst rest induction =>
      simp only [List.cons_append, inferResultLevels]
      cases resultLevel model levelOf inst with
      | none => rfl
      | some level => exact induction _

theorem levels_before_succ (model : FhnLevelModel) {program : FhnProgram} {i : Nat}
    {inst : FhnInstruction} (get : program.instructions[i]? = some inst) :
    levelsBefore model program (i + 1) = (levelsBefore model program i).bind fun levelOf =>
      (resultLevel model levelOf inst).map fun level =>
        Function.update levelOf inst.resultId (some level) := by
  unfold levelsBefore
  rw [List.take_add_one, get, Option.toList_some, infer_append]
  congr 1
  funext levelOf
  simp only [inferResultLevels]
  cases resultLevel model levelOf inst with
  | none => rfl
  | some level => rfl

theorem levels_before_step {model : FhnLevelModel} {program : FhnProgram} {i : Nat}
    {inst : FhnInstruction} (get : program.instructions[i]? = some inst)
    {next : Nat → Option Int} (found : levelsBefore model program (i + 1) = some next) :
    ∃ levelOf level, levelsBefore model program i = some levelOf ∧
      resultLevel model levelOf inst = some level ∧
        next = Function.update levelOf inst.resultId (some level) := by
  rw [levels_before_succ model get, Option.bind_eq_some_iff] at found
  obtain ⟨levelOf, before, mapped⟩ := found
  rw [Option.map_eq_some_iff] at mapped
  obtain ⟨level, computed, same⟩ := mapped
  exact ⟨levelOf, level, before, computed, same.symm⟩

theorem infer_levels_eq {model : FhnLevelModel} (wellFormed : WellFormed model)
    (program : FhnProgram) :
    inferLevels model program = levelsBefore model program program.instructions.length := by
  unfold inferLevels levelsBefore
  rw [if_pos ((valid_model_iff model).mpr wellFormed), List.take_length]

theorem levels_before_earlier {model : FhnLevelModel} {program : FhnProgram}
    (valid : SsaValid program) {i j : Nat} (order : i ≤ j)
    (bound : j ≤ program.instructions.length) {later : Nat → Option Int}
    (found : levelsBefore model program j = some later) :
    ∃ levelOf, levelsBefore model program i = some levelOf ∧
      ∀ id ∈ program.definedBefore i, later id = levelOf id := by
  induction j, order using Nat.le_induction generalizing later with
  | base => exact ⟨later, found, fun id defined => rfl⟩
  | succ j order induction =>
      have get := List.getElem?_eq_getElem (show j < program.instructions.length by omega)
      obtain ⟨middle, level, before, computed, rfl⟩ := levels_before_step get found
      obtain ⟨levelOf, earlier, same⟩ := induction (by omega) before
      apply Exists.intro levelOf
      apply And.intro earlier
      intro id defined
      have different : id ≠ program.instructions[j].resultId := by
        intro equal
        apply result_not_defined_before valid j _ get
        rw [← equal]
        exact defined_before_mono program order defined
      rw [Function.update_of_ne different]
      exact same id defined

theorem input_levels_defined (model : FhnLevelModel) (program : FhnProgram) (id : Nat)
    (defined : id ∈ program.definedBefore 0) :
    inputLevels model program.inputIds id = some model.freshLevel := by
  have input : id ∈ program.inputIds := by simpa [FhnProgram.definedBefore] using defined
  rw [inputLevels, if_pos input]

/-- Whatever is true of fresh inputs and kept by each instruction is true of the
table. -/
theorem levels_before_induction {model : FhnLevelModel} {program : FhnProgram}
    (motive : Nat → Option Int → Prop)
    (inputs : ∀ id ∈ program.inputIds, motive id (some model.freshLevel))
    (results : ∀ i inst levelOf level, program.instructions[i]? = some inst →
      levelsBefore model program i = some levelOf →
      (∀ id ∈ program.definedBefore i, motive id (levelOf id)) →
      resultLevel model levelOf inst = some level → motive inst.resultId (some level))
    (i : Nat) (bound : i ≤ program.instructions.length) {levelOf : Nat → Option Int}
    (found : levelsBefore model program i = some levelOf) :
    ∀ id ∈ program.definedBefore i, motive id (levelOf id) := by
  induction i generalizing levelOf with
  | zero =>
      have start : inputLevels model program.inputIds = levelOf := Option.some.inj found
      intro id defined
      rw [← start, input_levels_defined model program id defined]
      apply inputs
      simpa [FhnProgram.definedBefore] using defined
  | succ i induction =>
      have get := List.getElem?_eq_getElem (show i < program.instructions.length by omega)
      obtain ⟨before, level, earlier, computed, rfl⟩ := levels_before_step get found
      have old := induction (by omega) earlier
      intro id defined
      rw [defined_before_succ program i _ get, List.mem_append, List.mem_singleton] at defined
      by_cases own : id = program.instructions[i].resultId
      · rw [own, Function.update_self]
        exact results i _ before level get earlier old computed
      · rw [Function.update_of_ne own]
        apply old
        exact defined.resolve_right own

theorem levels_before_defined {model : FhnLevelModel} {program : FhnProgram} {i : Nat}
    (bound : i ≤ program.instructions.length) {levelOf : Nat → Option Int}
    (found : levelsBefore model program i = some levelOf) :
    ∀ id ∈ program.definedBefore i, ∃ level, levelOf id = some level := by
  apply levels_before_induction (fun _ entry => ∃ level, entry = some level) _ _ i bound found
  · intro id input
    exact ⟨model.freshLevel, rfl⟩
  · intro j inst before level get earlier old computed
    exact ⟨level, rfl⟩

theorem trace_of_table {model : FhnLevelModel} {program : FhnProgram} (valid : SsaValid program)
    {levelOf : Nat → Option Int}
    (found : levelsBefore model program program.instructions.length = some levelOf) :
    LevelTrace model program (fun id => (levelOf id).getD 0) := by
  constructor
  · intro id input
    obtain ⟨start, earlier, same⟩ :=
      levels_before_earlier valid (Nat.zero_le _) (le_refl _) found
    have initial : inputLevels model program.inputIds = start := Option.some.inj earlier
    have defined : id ∈ program.definedBefore 0 := by simpa [FhnProgram.definedBefore] using input
    rw [same id defined, ← initial, input_levels_defined model program id defined,
      Option.getD_some]
  · intro inst member
    obtain ⟨i, bound, get⟩ := List.mem_iff_getElem.mp member
    have found' := List.getElem?_eq_getElem bound
    rw [get] at found'
    obtain ⟨next, after, kept⟩ := levels_before_earlier valid bound (le_refl _) found
    obtain ⟨before, level, earlier, computed, rfl⟩ := levels_before_step found' after
    have stable : ∀ id ∈ program.definedBefore i, levelOf id = before id := by
      intro id defined
      obtain ⟨again, same, agree⟩ := levels_before_earlier valid bound.le (le_refl _) found
      rw [earlier, Option.some.injEq] at same
      rw [same]
      exact agree id defined
    have own : levelOf inst.resultId = some level := by
      rw [kept inst.resultId, Function.update_self]
      rw [defined_before_succ program i inst found']
      simp
    have agree : ∀ id ∈ inst.usedOperands, before id = some ((levelOf id).getD 0) := by
      intro id operand
      have defined := valid.operandsDefined i id ⟨inst, found', operand⟩
      obtain ⟨value, known⟩ := levels_before_defined bound.le earlier id defined
      rw [stable id defined, known, Option.getD_some]
    have facts := (result_level_iff model before inst level).mp computed
    constructor
    · apply Exists.intro (minOperandLevel model before inst)
      apply And.intro (min_operand_level_least model agree)
      rw [own, Option.getD_some]
      exact facts.1
    · rw [own, Option.getD_some]
      exact facts.2.1
    · rw [own, Option.getD_some]
      exact facts.2.2

theorem table_of_trace {model : FhnLevelModel} {program : FhnProgram} (valid : SsaValid program)
    {levels : Nat → Int} (trace : LevelTrace model program levels) (i : Nat)
    (bound : i ≤ program.instructions.length) :
    ∃ levelOf, levelsBefore model program i = some levelOf ∧
      ∀ id ∈ program.definedBefore i, levelOf id = some (levels id) := by
  induction i with
  | zero =>
      apply Exists.intro (inputLevels model program.inputIds)
      apply And.intro rfl
      intro id defined
      rw [input_levels_defined model program id defined, trace.inputs]
      simpa [FhnProgram.definedBefore] using defined
  | succ i induction =>
      obtain ⟨levelOf, found, agree⟩ := induction (by omega)
      have get := List.getElem?_eq_getElem (show i < program.instructions.length by omega)
      have step := trace.results _ (List.mem_of_getElem? get)
      have operands : ∀ id ∈ program.instructions[i].usedOperands,
          levelOf id = some (levels id) := fun id operand =>
        agree id (valid.operandsDefined i id ⟨_, get, operand⟩)
      obtain ⟨floor, least, rule⟩ := step.rule
      have same := least.unique (min_operand_level_least model operands)
      rw [same] at rule
      have computed := (result_level_iff model levelOf _ _).mpr
        ⟨rule, step.nonneg, step.atMostFresh⟩
      apply Exists.intro (Function.update levelOf program.instructions[i].resultId
        (some (levels program.instructions[i].resultId)))
      constructor
      · rw [levels_before_succ model get, found, Option.bind_some, computed, Option.map_some]
      · intro id defined
        rw [defined_before_succ program i _ get, List.mem_append, List.mem_singleton] at defined
        by_cases own : id = program.instructions[i].resultId
        · rw [own, Function.update_self]
        · rw [Function.update_of_ne own]
          exact agree id (defined.resolve_right own)

/-- Inference succeeds exactly when the model is well formed and a level trace
exists. -/
theorem infer_levels_iff (model : FhnLevelModel) {program : FhnProgram}
    (valid : SsaValid program) :
    (∃ levelOf, inferLevels model program = some levelOf) ↔
      WellFormed model ∧ ∃ levels, LevelTrace model program levels := by
  constructor
  · intro inferred
    obtain ⟨levelOf, found⟩ := inferred
    have wellFormed : WellFormed model := by
      rw [← valid_model_iff]
      by_contra malformed
      rw [inferLevels, if_neg malformed] at found
      cases found
    rw [infer_levels_eq wellFormed] at found
    exact ⟨wellFormed, _, trace_of_table valid found⟩
  · intro accepted
    obtain ⟨wellFormed, levels, trace⟩ := accepted
    rw [infer_levels_eq wellFormed]
    obtain ⟨levelOf, found, -⟩ := table_of_trace valid trace _ (le_refl _)
    exact ⟨levelOf, found⟩

/-- The inferred table is the only level trace. -/
theorem inferred_agrees {model : FhnLevelModel} {program : FhnProgram}
    (valid : SsaValid program) {levelOf : Nat → Option Int}
    (inferred : inferLevels model program = some levelOf) {levels : Nat → Int}
    (trace : LevelTrace model program levels) :
    ∀ id ∈ program.definedIds, levelOf id = some (levels id) := by
  have wellFormed := ((infer_levels_iff model valid).mp ⟨levelOf, inferred⟩).1
  rw [infer_levels_eq wellFormed] at inferred
  obtain ⟨table, found, agree⟩ := table_of_trace valid trace _ (le_refl _)
  rw [inferred, Option.some.injEq] at found
  intro id defined
  rw [found]
  apply agree
  rw [defined_before_length]
  exact defined

end Fhenomenon.LevelInference
