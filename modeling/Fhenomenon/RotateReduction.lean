import Fhenomenon.OracleTotality
import Fhenomenon.Rotations

/-!
# Rotate-and-add reductions

`reduceTree` of the corpus shapes and the program of the matrix-vector benchmark,
on unbounded slots. Adding the slots half the window away halves the window, so
that after the last step every slot holds the sum of all.
-/

namespace Fhenomenon.RotateReduction

open Fhenomenon.Lib.CyclicShift Fhenomenon.InstructionStream
open Fhenomenon.CorpusOracle hiding binary unary rotate evaluateOpcode evaluateInstruction
  evaluateAll evaluate
open Fhenomenon.OracleTotality Fhenomenon.Rotations

/-- Ids are allocated sequentially; a natural `nextId` is the source's `uint32_t` one while
fewer than `2^32` of them are handed out. -/
structure ShapeBuilder where
  nextId : Nat := 1
  insts : List FhnInstruction := []

def ccInst (op : FhnOpCode) (resultId lhs rhs : Nat) : FhnInstruction where
  opcode := op
  resultId := resultId
  operands := ![lhs, rhs, 0, 0]

def rotInst (resultId operand : Nat) (dist : Int) : FhnInstruction where
  opcode := .rotate
  resultId := resultId
  operands := ![operand, 0, 0, 0]
  params := ![dist, 0, 0, 0]

/-- Append an instruction; its id is the next one. -/
def ShapeBuilder.emit (b : ShapeBuilder) (inst : Nat → FhnInstruction) : Nat × ShapeBuilder :=
  (b.nextId, { nextId := b.nextId + 1, insts := b.insts ++ [inst b.nextId] })

def ShapeBuilder.cc (b : ShapeBuilder) (op : FhnOpCode) (lhs rhs : Nat) : Nat × ShapeBuilder :=
  b.emit fun id => ccInst op id lhs rhs

def ShapeBuilder.rot (b : ShapeBuilder) (operand : Nat) (dist : Int) : Nat × ShapeBuilder :=
  b.emit fun id => rotInst id operand dist

/-- The loop of `reduceTree` from distance `k` on. -/
def reduceLoop (b : ShapeBuilder) (s k : Nat) : Nat × ShapeBuilder :=
  if k ≥ 1 then
    let turned := b.rot s k
    let sum := turned.2.cc .addCC s turned.1
    reduceLoop sum.2 sum.1 (k / 2)
  else (s, b)
termination_by k

def reduceTree (b : ShapeBuilder) (x n : Nat) : Nat × ShapeBuilder := reduceLoop b x (n / 2)

/-- Instructions, the id of the last sum, and the next id. -/
structure Emitted where
  insts : List FhnInstruction
  tId : Nat
  nextId : Nat

def hrotAddInst (resultId operand d : Nat) : FhnInstruction where
  opcode := .hrotAdd
  resultId := resultId
  operands := ![operand, operand, 0, 0]
  params := ![d, 0, 0, 0]

/-- The loop over `d` in one row of the benchmark's program. -/
def rotAddLoop (tId nextId d : Nat) : Emitted :=
  if d ≥ 1 then
    let rest := rotAddLoop nextId (nextId + 1) (d / 2)
    { rest with insts := hrotAddInst nextId tId d :: rest.insts }
  else { insts := [], tId := tId, nextId := nextId }
termination_by d

/-- Input `row + 1` holds the row, input `n + 1` the vector. -/
def matvecRow (n row nextId : Nat) : Emitted :=
  let mul : FhnInstruction :=
    { opcode := .hmult, resultId := nextId, operands := ![row + 1, n + 1, 0, 0] }
  let reduced := rotAddLoop nextId (nextId + 1) (n / 2)
  { reduced with insts := mul :: reduced.insts }

/-- The instructions and the output ids of `remaining` rows from `row` on. -/
def matvecRows (n : Nat) : Nat → Nat → Nat → List FhnInstruction × List Nat
  | 0, _, _ => ([], [])
  | remaining + 1, row, nextId =>
      let built := matvecRow n row nextId
      let rest := matvecRows n remaining (row + 1) built.nextId
      (built.insts ++ rest.1, built.tId :: rest.2)

def matvecProgram (n : Nat) : FhnProgram where
  instructions := (matvecRows n n 0 (n + 2)).1
  inputIds := (List.range n).map (· + 1) ++ [n + 1]
  outputIds := (matvecRows n n 0 (n + 2)).2

/-- The fused opcodes on slots: a product, and `rotate(a) + b`. -/
def fusedOpcode (inst : FhnInstruction) (a : Slots) (b : Option Slots) : Option (Option Slots) :=
  match inst.opcode with
  | .hmult => binary (fun x y => x * y) a b
  | .hrotAdd => do
      let rotated ← rotate a (inst.params 0)
      match rotated with
      | none => some none
      | some turned => binary (fun x y => x + y) turned b
  | _ => evaluateOpcode id inst a b

def fusedInstruction (inst : FhnInstruction) (vals : Table) : Option (Option Slots) :=
  match vals (inst.operands 0) with
  | none => some none
  | some a => fusedOpcode inst a (vals (inst.operands 1))

/-- The instructions run to a table that keeps every id below `nextId` and has
`slots` at `target`. -/
def Computes (step : FhnInstruction → Table → Option (Option Slots))
    (insts : List FhnInstruction) (vals : Table) (nextId target : Nat) (slots : Slots) : Prop :=
  ∃ table, evaluateAll step insts vals = some (some table) ∧ table target = some slots ∧
    ∀ id < nextId, table id = vals id

theorem evaluate_append {step : FhnInstruction → Table → Option (Option Slots)}
    {before : List FhnInstruction} {vals middle : Table}
    (first : evaluateAll step before vals = some (some middle)) (after : List FhnInstruction) :
    evaluateAll step (before ++ after) vals = evaluateAll step after middle := by
  induction before generalizing vals with
  | nil =>
      rw [evaluateAll, Option.some.injEq, Option.some.injEq] at first
      rw [List.nil_append, first]
  | cons inst rest induction =>
      rw [evaluateAll] at first
      rw [List.cons_append, evaluateAll]
      rcases stepped : step inst vals with _ | _ | slots
      · rw [stepped] at first
        cases first
      · rw [stepped] at first
        cases first
      · rw [stepped] at first
        exact induction first

theorem evaluate_cons {step : FhnInstruction → Table → Option (Option Slots)}
    {inst : FhnInstruction} {vals : Table} {slots : Slots}
    (stepped : step inst vals = some (some slots)) (rest : List FhnInstruction) :
    evaluateAll step (inst :: rest) vals =
      evaluateAll step rest (Function.update vals inst.resultId (some slots)) := by
  rw [evaluateAll, stepped]
  rfl

/-- Every window of `width` slots sums to `total`. -/
def Covers (slots : Slots) (width : Nat) (total : Int) : Prop :=
  ∀ start, window slots start width = total

theorem covers_folded {slots : Slots} {width : Nat} {total : Int}
    (covers : Covers slots (width + width) total) : Covers (folded slots width) width total := by
  intro start
  rw [window_folded]
  exact covers start

theorem rotate_folded {slots : Slots} (filled : slots.length ≠ 0) (distance : Nat) :
    ∃ turned, rotate slots distance = some (some turned) ∧
      binary (fun x y => x + y) turned (some slots) = some (some (folded slots distance)) ∧
      binary (fun x y => x + y) slots (some turned) = some (some (folded slots distance)) := by
  refine ⟨shift slots distance, ?_, ?_, ?_⟩
  · rw [rotate_eq filled, rotate_shift]
  · rw [binary_eq]
    simp only [CorpusOracle.binary, length_shift, ne_eq, not_true_eq_false, if_false]
    rfl
  · rw [binary_eq]
    simp only [CorpusOracle.binary, length_shift, ne_eq, not_true_eq_false, if_false]
    rw [folded, List.zipWith_comm_of_comm]
    intro x y
    exact add_comm x y

theorem covers_one {slots : Slots} {total : Int} (covers : Covers slots 1 total) :
    slots = List.replicate slots.length total :=
  all_entries covers

theorem half_power (j : Nat) : 2 ^ (j + 1) / 2 = 2 ^ j := by
  rw [pow_succ]
  exact Nat.mul_div_cancel _ (by decide)

theorem computes_cons {step : FhnInstruction → Table → Option (Option Slots)}
    {inst : FhnInstruction} {rest : List FhnInstruction} {vals : Table} {slots : Slots}
    {target : Nat} {final : Slots} (stepped : step inst vals = some (some slots))
    (later : Computes step rest (Function.update vals inst.resultId (some slots))
      (inst.resultId + 1) target final) :
    Computes step (inst :: rest) vals inst.resultId target final := by
  obtain ⟨table, ran, found, kept⟩ := later
  refine ⟨table, (evaluate_cons stepped rest).trans ran, found, ?_⟩
  intro id below
  rw [kept id (by omega), Function.update_of_ne (by omega)]

theorem round_computes {vals : Table} {s nextId : Nat} {slots : Slots}
    (found : vals s = some slots) (allocated : s < nextId) (filled : slots.length ≠ 0) (k : Nat)
    {rest : List FhnInstruction} {target : Nat} {final : Slots}
    (later : ∀ table : Table, table (nextId + 1) = some (folded slots k) →
      Computes (evaluateInstruction id) rest table (nextId + 2) target final) :
    Computes (evaluateInstruction id)
      (rotInst nextId s k :: ccInst .addCC (nextId + 1) s nextId :: rest) vals nextId target
      final := by
  obtain ⟨turned, rotates, -, adds⟩ := rotate_folded filled k
  have rotStep : evaluateInstruction id (rotInst nextId s k) vals = some (some turned) := by
    simp only [evaluateInstruction, rotInst, Matrix.cons_val_zero, found, evaluateOpcode]
    exact rotates
  have addStep : evaluateInstruction id (ccInst .addCC (nextId + 1) s nextId)
      (Function.update vals nextId (some turned)) = some (some (folded slots k)) := by
    simp only [evaluateInstruction, ccInst, Matrix.cons_val_zero, Matrix.cons_val_one,
      Function.update_of_ne allocated.ne, Function.update_self, found, evaluateOpcode, id]
    exact adds
  exact computes_cons rotStep (computes_cons addStep (later _ (Function.update_self ..)))

/-- What the loop emits leaves `total` in every slot, when the windows of `2 ^ j`
slots sum to it. -/
theorem reduce_loop_computes (j : Nat) (b : ShapeBuilder) (s : Nat) (allocated : s < b.nextId) :
    ∃ emitted, (reduceLoop b s (2 ^ j / 2)).2.insts = b.insts ++ emitted ∧
      ∀ vals slots total, vals s = some slots → slots.length ≠ 0 → Covers slots (2 ^ j) total →
        Computes (evaluateInstruction id) emitted vals b.nextId (reduceLoop b s (2 ^ j / 2)).1
          (List.replicate slots.length total) := by
  induction j generalizing b s with
  | zero =>
      have settled : reduceLoop b s (2 ^ 0 / 2) = (s, b) := by
        rw [reduceLoop]
        rfl
      rw [settled]
      refine ⟨[], (List.append_nil _).symm, ?_⟩
      intro vals slots total found _ covers
      refine ⟨vals, rfl, ?_, fun _ _ => rfl⟩
      rw [found, ← covers_one covers]
  | succ j induction =>
      have positive : 2 ^ j ≥ 1 := Nat.one_le_two_pow
      obtain ⟨emitted, appended, computes⟩ := induction
        ((b.rot s (2 ^ j : Nat)).2.cc .addCC s b.nextId).2 (b.nextId + 1) (Nat.lt_succ_self _)
      have unfolded : reduceLoop b s (2 ^ j) =
          reduceLoop ((b.rot s (2 ^ j : Nat)).2.cc .addCC s b.nextId).2 (b.nextId + 1)
            (2 ^ j / 2) := by
        rw [reduceLoop, if_pos positive]
        rfl
      rw [half_power, unfolded]
      refine ⟨rotInst b.nextId s (2 ^ j : Nat) :: ccInst .addCC (b.nextId + 1) s b.nextId ::
        emitted, ?_, ?_⟩
      · rw [appended]
        simp only [ShapeBuilder.cc, ShapeBuilder.rot, ShapeBuilder.emit, List.append_assoc,
          List.cons_append, List.nil_append]
      · intro vals slots total found filled covers
        rw [pow_succ, mul_two] at covers
        apply round_computes found allocated filled
        intro table stored
        have later := computes table _ total stored (by rw [length_folded]; exact filled)
          (covers_folded covers)
        rw [length_folded] at later
        exact later

theorem covers_whole {slots : Slots} {n : Nat} (length : slots.length = n) :
    Covers slots n slots.sum := by
  intro start
  rw [← length]
  exact window_full slots start

/-- `reduceTree` on a power of two leaves the sum of all slots in every slot. -/
theorem reduce_tree_computes (m : Nat) (b : ShapeBuilder) (x : Nat) (allocated : x < b.nextId) :
    ∃ emitted, (reduceTree b x (2 ^ m)).2.insts = b.insts ++ emitted ∧
      ∀ vals slots, vals x = some slots → slots.length = 2 ^ m →
        Computes (evaluateInstruction id) emitted vals b.nextId (reduceTree b x (2 ^ m)).1
          (List.replicate (2 ^ m) slots.sum) := by
  obtain ⟨emitted, appended, computes⟩ := reduce_loop_computes m b x allocated
  refine ⟨emitted, appended, ?_⟩
  intro vals slots found length
  have filled : slots.length ≠ 0 := by
    rw [length]
    exact (Nat.two_pow_pos m).ne'
  have reduced := computes vals slots slots.sum found filled (covers_whole length)
  rwa [length] at reduced

theorem rot_add_loop_computes (j : Nat) (tId nextId : Nat) (allocated : tId < nextId) :
    (rotAddLoop tId nextId (2 ^ j / 2)).tId < (rotAddLoop tId nextId (2 ^ j / 2)).nextId ∧
      nextId ≤ (rotAddLoop tId nextId (2 ^ j / 2)).nextId ∧
      ∀ vals slots total, vals tId = some slots → slots.length ≠ 0 → Covers slots (2 ^ j) total →
        Computes fusedInstruction (rotAddLoop tId nextId (2 ^ j / 2)).insts vals nextId
          (rotAddLoop tId nextId (2 ^ j / 2)).tId (List.replicate slots.length total) := by
  induction j generalizing tId nextId with
  | zero =>
      have settled : rotAddLoop tId nextId (2 ^ 0 / 2) = ⟨[], tId, nextId⟩ := by
        rw [rotAddLoop]
        rfl
      rw [settled]
      refine ⟨allocated, le_refl _, ?_⟩
      intro vals slots total found _ covers
      refine ⟨vals, rfl, ?_, fun _ _ => rfl⟩
      rw [found, ← covers_one covers]
  | succ j induction =>
      have positive : 2 ^ j ≥ 1 := Nat.one_le_two_pow
      obtain ⟨below, grown, computes⟩ := induction nextId (nextId + 1) (Nat.lt_succ_self _)
      have unfolded : rotAddLoop tId nextId (2 ^ j) =
          { rotAddLoop nextId (nextId + 1) (2 ^ j / 2) with
            insts := hrotAddInst nextId tId (2 ^ j) ::
              (rotAddLoop nextId (nextId + 1) (2 ^ j / 2)).insts } := by
        rw [rotAddLoop, if_pos positive]
      rw [half_power, unfolded]
      refine ⟨below, by simp only; omega, ?_⟩
      intro vals slots total found filled covers
      rw [pow_succ, mul_two] at covers
      obtain ⟨turned, rotates, adds, -⟩ := rotate_folded filled (2 ^ j)
      have stepped : fusedInstruction (hrotAddInst nextId tId (2 ^ j)) vals =
          some (some (folded slots (2 ^ j : Nat))) := by
        simp only [fusedInstruction, hrotAddInst, Matrix.cons_val_zero, Matrix.cons_val_one, found,
          fusedOpcode]
        rw [rotates]
        exact adds
      refine computes_cons stepped ?_
      have later := computes (Function.update vals nextId (some (folded slots (2 ^ j : Nat))))
        (folded slots (2 ^ j : Nat)) total (Function.update_self ..)
        (by rw [length_folded]; exact filled) (covers_folded covers)
      rw [length_folded] at later
      exact later

def dot (row vec : Slots) : Int := (List.zipWith (fun x y => x * y) row vec).sum

theorem matvec_row_computes (m row nextId : Nat) :
    (matvecRow (2 ^ m) row nextId).tId < (matvecRow (2 ^ m) row nextId).nextId ∧
      nextId ≤ (matvecRow (2 ^ m) row nextId).nextId ∧
      ∀ vals left right, vals (row + 1) = some left → vals (2 ^ m + 1) = some right →
        left.length = 2 ^ m → right.length = 2 ^ m →
          Computes fusedInstruction (matvecRow (2 ^ m) row nextId).insts vals nextId
            (matvecRow (2 ^ m) row nextId).tId (List.replicate (2 ^ m) (dot left right)) := by
  obtain ⟨below, grown, computes⟩ :=
    rot_add_loop_computes m nextId (nextId + 1) (Nat.lt_succ_self _)
  refine ⟨below, Nat.le_of_succ_le grown, ?_⟩
  intro vals left right leftFound rightFound leftLength rightLength
  have length : (List.zipWith (fun x y => x * y) left right).length = 2 ^ m := by
    rw [List.length_zipWith, leftLength, rightLength, min_self]
  have stepped : fusedInstruction
      { opcode := .hmult, resultId := nextId, operands := ![row + 1, 2 ^ m + 1, 0, 0] } vals =
        some (some (List.zipWith (fun x y => x * y) left right)) := by
    simp only [fusedInstruction, Matrix.cons_val_zero, Matrix.cons_val_one, leftFound, rightFound,
      fusedOpcode, binary_eq, CorpusOracle.binary, leftLength, rightLength, ne_eq,
      not_true_eq_false, if_false]
  refine computes_cons stepped ?_
  have reduced := computes
    (Function.update vals nextId (some (List.zipWith (fun x y => x * y) left right)))
    (List.zipWith (fun x y => x * y) left right) (dot left right) (Function.update_self ..)
    (by rw [length]; exact (Nat.two_pow_pos m).ne') (covers_whole length)
  rwa [length] at reduced

structure Loaded (n : Nat) (rows : Nat → Slots) (vec : Slots) (vals : Table) : Prop where
  row : ∀ i < n, vals (i + 1) = some (rows i)
  vec : vals (n + 1) = some vec

theorem matvec_rows_compute (m : Nat) {rows : Nat → Slots} {vec : Slots}
    (rowLength : ∀ i < 2 ^ m, (rows i).length = 2 ^ m) (vecLength : vec.length = 2 ^ m)
    (remaining row nextId : Nat) (within : row + remaining ≤ 2 ^ m) (free : 2 ^ m + 2 ≤ nextId)
    (vals : Table) (loaded : Loaded (2 ^ m) rows vec vals) :
    ∃ table, evaluateAll fusedInstruction (matvecRows (2 ^ m) remaining row nextId).1 vals =
        some (some table) ∧
      (∀ id < nextId, table id = vals id) ∧
      ∀ k < remaining, ∃ output,
        (matvecRows (2 ^ m) remaining row nextId).2[k]? = some output ∧
          table output = some (List.replicate (2 ^ m) (dot (rows (row + k)) vec)) := by
  induction remaining generalizing row nextId vals with
  | zero => exact ⟨vals, rfl, fun _ _ => rfl, fun k impossible => absurd impossible (by omega)⟩
  | succ remaining induction =>
      obtain ⟨below, grown, computes⟩ := matvec_row_computes m row nextId
      obtain ⟨middle, ran, stored, kept⟩ := computes vals (rows row) vec
        (loaded.row row (by omega)) loaded.vec (rowLength row (by omega)) vecLength
      have reloaded : Loaded (2 ^ m) rows vec middle := by
        refine ⟨?_, ?_⟩
        · intro i bound
          rw [kept _ (by omega)]
          exact loaded.row i bound
        · rw [kept _ (by omega)]
          exact loaded.vec
      obtain ⟨table, later, untouched, outputs⟩ := induction (row + 1)
        (matvecRow (2 ^ m) row nextId).nextId (by omega) (by omega) middle reloaded
      refine ⟨table, ?_, ?_, ?_⟩
      · rw [matvecRows]
        exact (evaluate_append ran _).trans later
      · intro id bound
        rw [untouched id (by omega), kept id bound]
      · intro k bound
        cases k with
        | zero =>
            refine ⟨(matvecRow (2 ^ m) row nextId).tId, rfl, ?_⟩
            rw [untouched _ below, stored]
            rfl
        | succ k =>
            obtain ⟨output, listed, value⟩ := outputs k (by omega)
            refine ⟨output, listed, ?_⟩
            rw [value, Nat.add_right_comm, Nat.add_assoc]

def matvecInputs {n : Nat} (M : Matrix (Fin n) (Fin n) Int) (v : Fin n → Int) : Table := fun id =>
  if id = n + 1 then some (List.ofFn v)
  else if bound : id - 1 < n ∧ id ≠ 0 then some (List.ofFn (M ⟨id - 1, bound.1⟩))
  else none

theorem dot_ofFn {n : Nat} (row v : Fin n → Int) :
    dot (List.ofFn row) (List.ofFn v) = ∑ j, row j * v j := by
  have listed : List.zipWith (fun x y => x * y) (List.ofFn row) (List.ofFn v) =
      List.ofFn fun j => row j * v j := by
    apply List.ext_getElem <;> simp
  rw [dot, listed, List.sum_ofFn]

theorem matvec_program_computes (m : Nat) (M : Matrix (Fin (2 ^ m)) (Fin (2 ^ m)) Int)
    (v : Fin (2 ^ m) → Int) :
    ∃ table, evaluateAll fusedInstruction (matvecProgram (2 ^ m)).instructions (matvecInputs M v) =
        some (some table) ∧
      ∀ i : Fin (2 ^ m), ∃ output, (matvecProgram (2 ^ m)).outputIds[(i : Nat)]? = some output ∧
        table output = some (List.replicate (2 ^ m) (M.mulVec v i)) := by
  let rows : Nat → Slots := fun i => if bound : i < 2 ^ m then List.ofFn (M ⟨i, bound⟩) else []
  have rowEq (i : Nat) (bound : i < 2 ^ m) : rows i = List.ofFn (M ⟨i, bound⟩) := dif_pos bound
  have loaded : Loaded (2 ^ m) rows (List.ofFn v) (matvecInputs M v) := by
    refine ⟨?_, ?_⟩
    · intro i bound
      have inside : i + 1 - 1 < 2 ^ m ∧ i + 1 ≠ 0 := ⟨by omega, by omega⟩
      rw [matvecInputs, if_neg (by omega), dif_pos inside, rowEq i bound]
      rfl
    · rw [matvecInputs, if_pos rfl]
  obtain ⟨table, ran, -, outputs⟩ := @matvec_rows_compute m rows (List.ofFn v) (by
    intro i bound
    rw [rowEq i bound, List.length_ofFn]) List.length_ofFn (2 ^ m) 0 (2 ^ m + 2) (by omega)
    (le_refl _) _ loaded
  refine ⟨table, ran, ?_⟩
  intro i
  obtain ⟨output, listed, value⟩ := outputs i i.2
  refine ⟨output, listed, ?_⟩
  rw [value, Nat.zero_add, rowEq i i.2, dot_ofFn]
  rfl

/-- Both reductions: the sum of all slots in every slot, and so the dot products of
the benchmark's rows. -/
theorem reductions_sum_slots (m : Nat) :
    (∀ (b : ShapeBuilder) (x : Nat), x < b.nextId →
      ∃ emitted, (reduceTree b x (2 ^ m)).2.insts = b.insts ++ emitted ∧
        ∀ (vals : Table) (slots : Slots), vals x = some slots → slots.length = 2 ^ m →
          ∃ table, evaluateAll (evaluateInstruction id) emitted vals = some (some table) ∧
            table (reduceTree b x (2 ^ m)).1 = some (List.replicate (2 ^ m) slots.sum)) ∧
      (∀ (tId nextId : Nat) (vals : Table) (slots : Slots), tId < nextId →
        vals tId = some slots → slots.length = 2 ^ m →
          ∃ table, evaluateAll fusedInstruction (rotAddLoop tId nextId (2 ^ m / 2)).insts vals =
              some (some table) ∧
            table (rotAddLoop tId nextId (2 ^ m / 2)).tId =
              some (List.replicate (2 ^ m) slots.sum)) ∧
      ∀ (M : Matrix (Fin (2 ^ m)) (Fin (2 ^ m)) Int) (v : Fin (2 ^ m) → Int),
        ∃ table, evaluateAll fusedInstruction (matvecProgram (2 ^ m)).instructions
            (matvecInputs M v) = some (some table) ∧
          ∀ i : Fin (2 ^ m), ∃ output,
            (matvecProgram (2 ^ m)).outputIds[(i : Nat)]? = some output ∧
              table output = some (List.replicate (2 ^ m) (M.mulVec v i)) := by
  refine ⟨?_, ?_, matvec_program_computes m⟩
  · intro b x allocated
    obtain ⟨emitted, appended, computes⟩ := reduce_tree_computes m b x allocated
    refine ⟨emitted, appended, ?_⟩
    intro vals slots found length
    obtain ⟨table, ran, stored, -⟩ := computes vals slots found length
    exact ⟨table, ran, stored⟩
  · intro tId nextId vals slots allocated found length
    obtain ⟨-, -, computes⟩ := rot_add_loop_computes m tId nextId allocated
    obtain ⟨table, ran, stored, -⟩ := computes vals slots slots.sum found
      (by rw [length]; exact (Nat.two_pow_pos m).ne') (covers_whole length)
    rw [length] at stored
    exact ⟨table, ran, stored⟩

theorem four_slots_sum :
    ∃ emitted, (reduceTree { nextId := 2 } 1 4).2.insts = [] ++ emitted ∧
      ∃ table, evaluateAll (evaluateInstruction id) emitted
          (fun id => if id = 1 then some [1, 2, 3, 4] else none) = some (some table) ∧
        table (reduceTree { nextId := 2 } 1 4).1 = some [10, 10, 10, 10] := by
  obtain ⟨emitted, appended, sums⟩ := (reductions_sum_slots 2).1 { nextId := 2 } 1 (by decide)
  obtain ⟨table, ran, stored⟩ := sums (fun id => if id = 1 then some [1, 2, 3, 4] else none)
    [1, 2, 3, 4] rfl rfl
  exact ⟨emitted, appended, table, ran, stored⟩

end Fhenomenon.RotateReduction
