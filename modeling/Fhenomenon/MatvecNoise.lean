import Fhenomenon.CertifiedPrograms
import Fhenomenon.RotateReduction

/-!
# The noise of the matrix-vector benchmark

The program of the benchmark on certified slots, over the whole table and over
the primitive one. Each round of a reduction doubles the noise and the size of
the slots at most, so that the sum of a row fits as long as its products do.
-/

namespace Fhenomenon.MatvecNoise

open Fhenomenon.Lib.CyclicShift Fhenomenon.InstructionStream Fhenomenon.DefaultExecutor
open Fhenomenon.DispatchRecipes Fhenomenon.DeviceAbi Fhenomenon.ToyFhe
open Fhenomenon.KernelContracts Fhenomenon.RotateReduction Fhenomenon.CertifiedNoise
open Fhenomenon.CertifiedContents Fhenomenon.TrackedDevice Fhenomenon.CertifiedPrograms
open Fhenomenon.CorpusOracle (Bound multipliedNoise)

variable {engine : Engine}

/-- A value and a noise; sums are taken componentwise. -/
abbrev NoisySlot := Int × Rat

def NoisySlot.bound (slot : NoisySlot) : Bound := ⟨slot.1, slot.2⟩

def certifiedSlots (engine : Engine) (slots : List NoisySlot) : List (Knowledge engine) :=
  slots.map fun slot => certify engine slot.bound

def Fits (engine : Engine) (slots : List NoisySlot) : Prop :=
  ∀ slot ∈ slots, slot.bound.Decryptable engine

theorem certify_fits {slot : NoisySlot} (fits : slot.bound.Decryptable engine) :
    certify engine slot.bound = some ⟨slot.bound, fits⟩ :=
  dif_pos fits

theorem slot_values_fit {slots : List NoisySlot} (fits : Fits engine slots) :
    slotValues (certifiedSlots engine slots) = (slots.map Prod.fst).map some := by
  rw [slotValues, certifiedSlots, List.map_map, List.map_map, List.map_inj_left]
  intro slot member
  rw [Function.comp_apply, certify_fits (fits slot member)]
  rfl

theorem zip_with_congr {α β γ : Type*} {op other : α → β → γ} {left : List α} {right : List β}
    (same : ∀ a ∈ left, ∀ b ∈ right, op a b = other a b) :
    List.zipWith op left right = List.zipWith other left right := by
  induction left generalizing right with
  | nil => rfl
  | cons first rest induction =>
      cases right with
      | nil => rfl
      | cons second others =>
          rw [List.zipWith_cons_cons, List.zipWith_cons_cons,
            same first (List.mem_cons_self ..) second (List.mem_cons_self ..)]
          rw [induction fun a one b two =>
            same a (List.mem_cons_of_mem _ one) b (List.mem_cons_of_mem _ two)]

theorem zip_certified {left right : List NoisySlot} (leftFits : Fits engine left)
    (rightFits : Fits engine right) :
    List.zipWith (combined sumBound) (certifiedSlots engine left) (certifiedSlots engine right) =
      certifiedSlots engine (List.zipWith (· + ·) left right) := by
  rw [certifiedSlots, certifiedSlots, List.zipWith_map, certifiedSlots, List.map_zipWith]
  apply zip_with_congr
  intro a one b two
  rw [certify_fits (leftFits a one), certify_fits (rightFits b two)]
  rfl

theorem mem_shift {slots : List NoisySlot} {distance : Int} {slot : NoisySlot} :
    slot ∈ shift slots distance ↔ slot ∈ slots := by
  rw [shift, List.mem_rotate]

theorem fold_certified {slots : List NoisySlot} (fits : Fits engine slots) (distance : Int) :
    List.zipWith (combined sumBound) (shift (certifiedSlots engine slots) distance)
        (certifiedSlots engine slots) =
      certifiedSlots engine (folded slots distance) := by
  rw [certifiedSlots, shift_map, ← certifiedSlots, ← certifiedSlots, folded]
  exact zip_certified (fun slot member => fits slot (mem_shift.mp member)) fits

/-- No slot is larger or noisier. -/
def Within (slots : List NoisySlot) (value : Int) (noise : Rat) : Prop :=
  ∀ slot ∈ slots, |slot.1| ≤ value ∧ slot.2 ≤ noise

theorem mem_zip_with {α β γ : Type*} {op : α → β → γ} {left : List α} {right : List β} {out : γ}
    (member : out ∈ List.zipWith op left right) :
    ∃ first second, first ∈ left ∧ second ∈ right ∧ op first second = out := by
  rw [← List.map_uncurry_zip_eq_zipWith] at member
  obtain ⟨⟨first, second⟩, inside, same⟩ := List.mem_map.mp member
  obtain ⟨one, two⟩ := List.of_mem_zip inside
  exact ⟨first, second, one, two, same⟩

theorem within_folded {slots : List NoisySlot} {value : Int} {noise : Rat}
    (within : Within slots value noise) (distance : Int) :
    Within (folded slots distance) (2 * value) (2 * noise) := by
  intro slot member
  obtain ⟨left, right, turned, plain, rfl⟩ := mem_zip_with member
  obtain ⟨leftValue, leftNoise⟩ := within left (mem_shift.mp turned)
  obtain ⟨rightValue, rightNoise⟩ := within right plain
  have values := abs_add_le left.1 right.1
  simp only [Prod.fst_add, Prod.snd_add]
  exact ⟨by omega, by linarith⟩

/-- Slots that stay small until `2 ^ j` of them are added. -/
def Room (engine : Engine) (j : Nat) (value : Int) (noise : Rat) : Prop :=
  2 * (2 ^ j * value) < engine.params.t ∧ 2 ^ j * noise < engine.delta / 2

theorem room_half {j : Nat} {value : Int} {noise : Rat} (room : Room engine (j + 1) value noise) :
    Room engine j (2 * value) (2 * noise) := by
  obtain ⟨values, noises⟩ := room
  rw [pow_succ, mul_assoc] at values noises
  exact ⟨values, noises⟩

theorem within_fits {slots : List NoisySlot} {j : Nat} {value : Int} {noise : Rat}
    (within : Within slots value noise) (room : Room engine j value noise) (plain : 0 ≤ value)
    (noisy : 0 ≤ noise) : Fits engine slots := by
  intro slot member
  obtain ⟨small, quiet⟩ := within slot member
  obtain ⟨values, noises⟩ := room
  have power : (1 : Int) ≤ 2 ^ j := one_le_pow₀ (by decide)
  have powerRat : (1 : Rat) ≤ 2 ^ j := one_le_pow₀ (by norm_num)
  have more : value ≤ 2 ^ j * value := le_mul_of_one_le_left plain power
  have moreNoise : noise ≤ 2 ^ j * noise := le_mul_of_one_le_left noisy powerRat
  refine ⟨?_, ?_⟩
  · have bound : |slot.bound.value| ≤ value := small
    omega
  · have bound : slot.bound.noise ≤ noise := quiet
    linarith

section Instructions

variable {keep : FhnOpCode → Bool}

/-- The whole table, or the primitive one. -/
def Path (keep : FhnOpCode → Bool) : Prop := keep = (fun _ => true) ∨ keep = primitive

def step (engine : Engine) (keep : FhnOpCode → Bool) (inst : FhnInstruction)
    (known : Nat → Option (Contents engine)) : Int × ValueState (Contents engine) Unit :=
  valueInstruction (contentsModel Unit Unit engine) (registering (registers keep)) inst
    { context := (), values := known }

theorem rotation_filled {slots : List (Knowledge engine)} (filled : slots.length ≠ 0)
    (distance : Int) :
    CertifiedContents.rotation distance (.vector slots) = (0, .vector (shift slots distance)) :=
  if_neg filled

theorem pairwise_filled {op : Knowledge engine → Knowledge engine → Knowledge engine}
    {left right : List (Knowledge engine)} (filled : left.length ≠ 0)
    (same : left.length = right.length) :
    pairwise op (.vector left) (.vector right) = (0, .vector (List.zipWith op left right)) :=
  if_neg (not_or.mpr ⟨filled, not_not.mpr same⟩)

theorem rotated_sum_filled {slots : List (Knowledge engine)} (filled : slots.length ≠ 0)
    (distance : Int) :
    rotatedSum distance (.vector slots) (.vector slots) =
      (0, .vector (List.zipWith (combined sumBound) (shift slots distance) slots)) :=
  if_neg (not_or.mpr ⟨filled, not_not.mpr rfl⟩)

theorem calls_foretold (insts : List KernelCall) {inst : FhnInstruction}
    (calls : kernelCalls (registering (registers keep) : Dispatch Unit (Tracked Unit Unit engine))
      inst = insts)
    (complete : dispatchCode
      (registering (registers keep) : Dispatch Unit (Tracked Unit Unit engine)) inst 0 = 0)
    {known : Nat → Option (Contents engine)} {after : ValueState (Contents engine) Unit}
    (ran : valueCalls (contentsModel Unit Unit engine) inst insts
      { context := (), values := known } = (0, after)) :
    step engine keep inst known = (0, after) := by
  simp only [step, valueInstruction, calls, ran, complete]

theorem hrot_add_foretold (path : Path keep) (resultId d : Nat)
    {known : Nat → Option (Contents engine)} {operand : Nat} {slots : List (Knowledge engine)}
    (found : known operand = some (.vector slots)) (named : operand ≠ 0)
    (apart : operand ≠ resultId) (filled : slots.length ≠ 0) :
    step engine keep (hrotAddInst resultId operand d) known =
      (0, { context := ()
            values := Function.update known resultId
              (some (.vector (List.zipWith (combined sumBound) (shift slots d) slots))) }) := by
  rcases path with rfl | rfl
  · apply calls_foretold [directCall (hrotAddInst resultId operand d)]
    · rw [kernelCalls, registering_supports]
      rfl
    · rw [dispatchCode, registering_supports]
      rfl
    · simp [valueCalls, valueCall, contentsModel, applyContents, onPair, directCall, hrotAddInst,
        Slot.id?, named, found, rotated_sum_filled filled]
  · have turned : (shift slots d).length ≠ 0 := by
      rw [length_shift]
      exact filled
    apply calls_foretold [onOperand .rotate, addOperand]
    · rw [kernelCalls, registering_supports]
      rfl
    · rw [dispatchCode, registering_supports]
      rfl
    · simp [valueCalls, valueCall, contentsModel, applyContents, onPair, onOne, onOperand,
        addOperand, hrotAddInst, Slot.id?, named, found, rotation_filled filled,
        pairwise_filled turned (length_shift slots d), apart]

theorem hmult_foretold (path : Path keep) (resultId : Nat)
    {known : Nat → Option (Contents engine)} {first second : Nat}
    {left right : List (Knowledge engine)} (leftFound : known first = some (.vector left))
    (rightFound : known second = some (.vector right)) (firstNamed : first ≠ 0)
    (secondNamed : second ≠ 0) (filled : left.length ≠ 0) (same : left.length = right.length) :
    step engine keep
        { opcode := .hmult, resultId := resultId, operands := ![first, second, 0, 0] } known =
      (0, { context := ()
            values := Function.update known resultId
              (some (.vector (List.zipWith (combined (productBound engine)) left right))) }) := by
  rcases path with rfl | rfl
  · apply calls_foretold [directCall
      { opcode := .hmult, resultId := resultId, operands := ![first, second, 0, 0] }]
    · rw [kernelCalls, registering_supports]
      rfl
    · rw [dispatchCode, registering_supports]
      rfl
    · simp [valueCalls, valueCall, contentsModel, applyContents, onPair, directCall, Slot.id?,
        firstNamed, secondNamed, leftFound, rightFound, pairwise_filled filled same]
  · apply calls_foretold [multiplyOperands, onResult .relinearize, onResult .rescale]
    · rw [kernelCalls, registering_supports]
      rfl
    · rw [dispatchCode, registering_supports]
      rfl
    · simp [valueCalls, valueCall, contentsModel, applyContents, onPair, onOne, onResult,
        multiplyOperands, Slot.id?, firstNamed, secondNamed, leftFound, rightFound, passed,
        pairwise_filled filled same]

end Instructions

section Runs

variable {keep : FhnOpCode → Bool}

/-- The instructions succeed, keep every id below `nextId` and leave `slots` at `target`. -/
def Foretells (engine : Engine) (keep : FhnOpCode → Bool) (insts : List FhnInstruction)
    (known : Nat → Option (Contents engine)) (nextId target : Nat) (slots : List NoisySlot) :
    Prop :=
  ∃ table, foretell engine (registers keep) insts known = (0, table) ∧
    table target = some (.vector (certifiedSlots engine slots)) ∧ ∀ id < nextId, table id = known id

theorem foretell_cons {inst : FhnInstruction} {known after : Nat → Option (Contents engine)}
    (stepped : step engine keep inst known = (0, { context := (), values := after }))
    (rest : List FhnInstruction) :
    foretell engine (registers keep) (inst :: rest) known =
      foretell engine (registers keep) rest after := by
  rw [step] at stepped
  simp only [foretell, valueProgram, stepped, ne_eq, not_true_eq_false, if_false]

theorem foretell_append {before : List FhnInstruction}
    {known middle : Nat → Option (Contents engine)}
    (first : foretell engine (registers keep) before known = (0, middle))
    (after : List FhnInstruction) :
    foretell engine (registers keep) (before ++ after) known =
      foretell engine (registers keep) after middle := by
  induction before generalizing known with
  | nil =>
      have same : known = middle := congrArg Prod.snd first
      rw [List.nil_append, same]
  | cons inst rest induction =>
      rcases stepped : step engine keep inst known with ⟨code, state⟩
      by_cases success : code = 0
      · rw [success] at stepped
        have next : step engine keep inst known =
            (0, { context := (), values := state.values }) := stepped
        rw [foretell_cons next] at first
        rw [List.cons_append, foretell_cons next]
        exact induction first
      · rw [step] at stepped
        simp only [foretell, valueProgram, stepped, ne_eq, success, not_false_eq_true,
          if_true, Prod.mk.injEq] at first
        exact first.1.elim

theorem foretells_cons {inst : FhnInstruction} {rest : List FhnInstruction}
    {known : Nat → Option (Contents engine)} {contents : Contents engine} {target : Nat}
    {final : List NoisySlot}
    (stepped : step engine keep inst known =
      (0, { context := (), values := Function.update known inst.resultId (some contents) }))
    (later : Foretells engine keep rest (Function.update known inst.resultId (some contents))
      (inst.resultId + 1) target final) :
    Foretells engine keep (inst :: rest) known inst.resultId target final := by
  obtain ⟨table, ran, found, kept⟩ := later
  refine ⟨table, (foretell_cons stepped rest).trans ran, found, ?_⟩
  intro id below
  rw [kept id (by omega), Function.update_of_ne (by omega)]

/-- Every window of `width` slots adds up to `total`. -/
def Spreads (slots : List NoisySlot) (width : Nat) (total : NoisySlot) : Prop :=
  ∀ start, window slots start width = total

theorem rot_add_loop_foretold (path : Path keep) (j tId nextId : Nat) (named : tId ≠ 0)
    (allocated : tId < nextId) {known : Nat → Option (Contents engine)} {slots : List NoisySlot}
    {total : NoisySlot} {value : Int} {noise : Rat}
    (found : known tId = some (.vector (certifiedSlots engine slots))) (filled : slots.length ≠ 0)
    (spreads : Spreads slots (2 ^ j) total) (within : Within slots value noise)
    (room : Room engine j value noise) (plain : 0 ≤ value) (noisy : 0 ≤ noise) :
    Foretells engine keep (rotAddLoop tId nextId (2 ^ j / 2)).insts known nextId
        (rotAddLoop tId nextId (2 ^ j / 2)).tId (List.replicate slots.length total) ∧
      total.bound.Decryptable engine := by
  induction j generalizing tId nextId known slots value noise with
  | zero =>
      have settled : rotAddLoop tId nextId (2 ^ 0 / 2) = ⟨[], tId, nextId⟩ := by
        rw [rotAddLoop]
        rfl
      have same := all_entries spreads
      have fits := within_fits within room plain noisy
      rw [settled]
      refine ⟨⟨known, rfl, ?_, fun _ _ => rfl⟩, ?_⟩
      · rw [found, ← same]
      · apply fits
        rw [same]
        exact List.mem_replicate.mpr ⟨filled, rfl⟩
  | succ j induction =>
      have positive : 2 ^ j ≥ 1 := Nat.one_le_two_pow
      have unfolded : rotAddLoop tId nextId (2 ^ j) =
          { rotAddLoop nextId (nextId + 1) (2 ^ j / 2) with
            insts := hrotAddInst nextId tId (2 ^ j) ::
              (rotAddLoop nextId (nextId + 1) (2 ^ j / 2)).insts } := by
        rw [rotAddLoop, if_pos positive]
      have halved : Spreads (folded slots (2 ^ j : Nat)) (2 ^ j) total := by
        intro start
        have whole := spreads start
        rw [pow_succ, mul_two] at whole
        rw [window_folded]
        exact whole
      have fits := within_fits within room plain noisy
      have length : (certifiedSlots engine slots).length ≠ 0 := by
        rw [certifiedSlots, List.length_map]
        exact filled
      have stepped := hrot_add_foretold path nextId (2 ^ j) found named
        allocated.ne length
      rw [fold_certified fits] at stepped
      rw [half_power, unfolded]
      have stored : Function.update known nextId
          (some (.vector (certifiedSlots engine (folded slots (2 ^ j : Nat))))) nextId =
            some (.vector (certifiedSlots engine (folded slots (2 ^ j : Nat)))) :=
        Function.update_self ..
      have later := induction nextId (nextId + 1) (by omega) (Nat.lt_succ_self _) stored
        (by rw [length_folded]; exact filled) halved (within_folded within _) (room_half room)
        (by omega) (by linarith)
      rw [length_folded] at later
      exact ⟨foretells_cons stepped later.1, later.2⟩

def productSlot (engine : Engine) (a b : Int) : NoisySlot :=
  (a * b, multipliedNoise engine (literalBound engine a) (literalBound engine b))

def productSlots (engine : Engine) (row vec : List Int) : List NoisySlot :=
  List.zipWith (productSlot engine) row vec

/-- Literals that decrypt by themselves. -/
def Literals (engine : Engine) (values : List Int) : Prop :=
  ∀ value ∈ values, (literalBound engine value).Decryptable engine

theorem products_certified {row vec : List Int} (rowFits : Literals engine row)
    (vecFits : Literals engine vec) :
    List.zipWith (combined (productBound engine)) (row.map (literal engine))
        (vec.map (literal engine)) =
      certifiedSlots engine (productSlots engine row vec) := by
  rw [List.zipWith_map, productSlots, certifiedSlots, List.map_zipWith]
  apply zip_with_congr
  intro a one b two
  have left : literal engine a = some ⟨literalBound engine a, rowFits a one⟩ :=
    dif_pos (rowFits a one)
  have right : literal engine b = some ⟨literalBound engine b, vecFits b two⟩ :=
    dif_pos (vecFits b two)
  rw [left, right]
  rfl

theorem products_dot (row vec : List Int) :
    (productSlots engine row vec).sum.1 = dot row vec := by
  have sums : (productSlots engine row vec).sum.1 =
      ((productSlots engine row vec).map Prod.fst).sum :=
    map_list_sum (AddMonoidHom.fst Int Rat) _
  rw [sums, productSlots, List.map_zipWith]
  rfl

/-- The products of a row with the vector fit, and so does their sum. -/
structure RowFits (engine : Engine) (m : Nat) (row vec : List Int) : Prop where
  rowLength : row.length = 2 ^ m
  vecLength : vec.length = 2 ^ m
  rowLiterals : Literals engine row
  vecLiterals : Literals engine vec
  room : ∃ value noise, Within (productSlots engine row vec) value noise ∧
    Room engine m value noise ∧ 0 ≤ value ∧ 0 ≤ noise

theorem matvec_row_foretold (path : Path keep) {m row nextId : Nat} (named : nextId ≠ 0)
    {known : Nat → Option (Contents engine)} {left right : List Int}
    (leftFound : known (row + 1) = some (.vector (left.map (literal engine))))
    (rightFound : known (2 ^ m + 1) = some (.vector (right.map (literal engine))))
    (fits : RowFits engine m left right) :
    Foretells engine keep (matvecRow (2 ^ m) row nextId).insts known nextId
        (matvecRow (2 ^ m) row nextId).tId
        (List.replicate (2 ^ m) (productSlots engine left right).sum) ∧
      (productSlots engine left right).sum.bound.Decryptable engine := by
  obtain ⟨value, noise, within, room, plain, noisy⟩ := fits.room
  have length : (productSlots engine left right).length = 2 ^ m := by
    rw [productSlots, List.length_zipWith, fits.rowLength, fits.vecLength, min_self]
  have power : (2 : Nat) ^ m ≠ 0 := (Nat.two_pow_pos m).ne'
  have stepped := hmult_foretold path nextId leftFound rightFound (by omega)
    (by omega) (by rw [List.length_map, fits.rowLength]; exact power)
    (by rw [List.length_map, List.length_map, fits.rowLength, fits.vecLength])
  rw [products_certified fits.rowLiterals fits.vecLiterals] at stepped
  have spreads : Spreads (productSlots engine left right) (2 ^ m)
      (productSlots engine left right).sum := by
    intro start
    rw [← length]
    exact window_full _ start
  have stored : Function.update known nextId
      (some (.vector (certifiedSlots engine (productSlots engine left right)))) nextId =
        some (.vector (certifiedSlots engine (productSlots engine left right))) :=
    Function.update_self ..
  have reduced := rot_add_loop_foretold path m nextId (nextId + 1) named (Nat.lt_succ_self _)
    stored (by rw [length]; exact power) spreads within room plain noisy
  rw [length] at reduced
  exact ⟨foretells_cons stepped reduced.1, reduced.2⟩

structure Encrypted (engine : Engine) (n : Nat) (rows : Nat → List Int) (vec : List Int)
    (known : Nat → Option (Contents engine)) : Prop where
  row : ∀ i < n, known (i + 1) = some (.vector ((rows i).map (literal engine)))
  vec : known (n + 1) = some (.vector (vec.map (literal engine)))

theorem matvec_rows_foretold (path : Path keep) (m : Nat) {rows : Nat → List Int} {vec : List Int}
    (fits : ∀ i < 2 ^ m, RowFits engine m (rows i) vec) (remaining row nextId : Nat)
    (within : row + remaining ≤ 2 ^ m) (free : 2 ^ m + 2 ≤ nextId)
    {known : Nat → Option (Contents engine)} (encrypted : Encrypted engine (2 ^ m) rows vec known) :
    ∃ table, foretell engine (registers keep) (matvecRows (2 ^ m) remaining row nextId).1 known =
        (0, table) ∧
      (∀ id < nextId, table id = known id) ∧
      ∀ k < remaining, ∃ output,
        (matvecRows (2 ^ m) remaining row nextId).2[k]? = some output ∧
          ∃ slots, table output = some (.vector slots) ∧
            slotValues slots = (List.replicate (2 ^ m) (dot (rows (row + k)) vec)).map some := by
  induction remaining generalizing row nextId known with
  | zero => exact ⟨known, rfl, fun _ _ => rfl, fun k impossible => absurd impossible (by omega)⟩
  | succ remaining induction =>
      obtain ⟨below, grown, -⟩ := matvec_row_computes m row nextId
      obtain ⟨⟨middle, ran, stored, kept⟩, decryptable⟩ := matvec_row_foretold path
        (show nextId ≠ 0 by omega) (encrypted.row row (by omega)) encrypted.vec
        (fits row (by omega))
      have still : Encrypted engine (2 ^ m) rows vec middle := by
        constructor
        · intro i bound
          rw [kept _ (by omega)]
          exact encrypted.row i bound
        · rw [kept _ (by omega)]
          exact encrypted.vec
      obtain ⟨table, later, untouched, outputs⟩ := induction (row + 1)
        (matvecRow (2 ^ m) row nextId).nextId (by omega) (by omega) still
      refine ⟨table, ?_, ?_, ?_⟩
      · rw [matvecRows]
        exact (foretell_append ran _).trans later
      · intro id bound
        rw [untouched id (by omega), kept id bound]
      · intro k bound
        cases k with
        | zero =>
            refine ⟨(matvecRow (2 ^ m) row nextId).tId, rfl, certifiedSlots engine
              (List.replicate (2 ^ m) (productSlots engine (rows row) vec).sum), ?_, ?_⟩
            · rw [untouched _ below]
              exact stored
            · rw [slot_values_fit, List.map_replicate, products_dot]
              · rfl
              · intro slot member
                rw [List.eq_of_mem_replicate member]
                exact decryptable
        | succ k =>
            obtain ⟨output, listed, slots, found, values⟩ := outputs k (by omega)
            refine ⟨output, listed, slots, found, ?_⟩
            rw [values, Nat.add_right_comm, Nat.add_assoc]

end Runs

/-- The range of the benchmark's entries. -/
def Digits (values : List Int) : Prop := ∀ value ∈ values, 0 ≤ value ∧ value ≤ 9

theorem digit_decryptable (secret : Int) {value : Int} (low : 0 ≤ value) (high : value ≤ 9) :
    (literalBound (createdEngine secret) value).Decryptable (createdEngine secret) := by
  constructor
  · have magnitude : |value| ≤ 9 := abs_le.mpr ⟨by omega, high⟩
    change 2 * |value| < 2 ^ 32
    omega
  · exact created_budget secret

theorem digit_product (secret : Int) {a b : Int} (aLow : 0 ≤ a) (aHigh : a ≤ 9) (bLow : 0 ≤ b)
    (bHigh : b ≤ 9) :
    |(productSlot (createdEngine secret) a b).1| ≤ 81 ∧
      (productSlot (createdEngine secret) a b).2 ≤ 153 := by
  constructor
  · have product : a * b ≤ 81 := by nlinarith
    have positive : 0 ≤ a * b := mul_nonneg aLow bLow
    rw [productSlot, abs_of_nonneg positive]
    exact product
  · have first : |(a : Rat)| ≤ 9 := by
      rw [abs_of_nonneg (by exact_mod_cast aLow)]
      exact_mod_cast aHigh
    have second : |(b : Rat)| ≤ 9 := by
      rw [abs_of_nonneg (by exact_mod_cast bLow)]
      exact_mod_cast bHigh
    have noise : (((createdEngine secret).params.noiseBound : Int) : Rat) = 8 := rfl
    have delta := created_delta secret
    simp only [productSlot, multipliedNoise, literalBound, noise, delta]
    norm_num
    linarith

theorem digits_fit (secret : Int) {m : Nat} (small : m ≤ 17) {row vec : List Int}
    (rowLength : row.length = 2 ^ m) (vecLength : vec.length = 2 ^ m) (rowDigits : Digits row)
    (vecDigits : Digits vec) : RowFits (createdEngine secret) m row vec where
  rowLength := rowLength
  vecLength := vecLength
  rowLiterals := fun value member =>
    digit_decryptable secret (rowDigits value member).1 (rowDigits value member).2
  vecLiterals := fun value member =>
    digit_decryptable secret (vecDigits value member).1 (vecDigits value member).2
  room := by
    refine ⟨81, 153, ?_, ⟨?_, ?_⟩, by norm_num, by norm_num⟩
    · intro slot member
      obtain ⟨a, b, one, two, rfl⟩ := mem_zip_with member
      exact digit_product secret (rowDigits a one).1 (rowDigits a one).2 (vecDigits b two).1
        (vecDigits b two).2
    · have power : (2 : Int) ^ m ≤ 2 ^ 17 := pow_le_pow_right₀ (by decide) small
      change 2 * (2 ^ m * 81) < (2 : Int) ^ 32
      omega
    · have power : (2 : Rat) ^ m ≤ 2 ^ 17 := pow_le_pow_right₀ (by norm_num) small
      rw [created_delta]
      norm_num
      linarith

end Fhenomenon.MatvecNoise
