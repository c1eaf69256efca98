import Fhenomenon.CorpusOracle
import Fhenomenon.FusedDispatch
import Fhenomenon.SlotKernels
import Fhenomenon.Lib.CyclicShift
import Fhenomenon.Lib.MachineInt

/-!
# Rotation of packed ciphertexts

`FHN_ROTATE` and `FHN_HROT_ADD` on vectors of slots. A signed distance is reduced
modulo the slot count; the rotations are an action of the cyclic group, and the
kernel, the fused kernel and the plaintext oracle turn in the same direction.
-/

namespace Fhenomenon.Rotations

open Fhenomenon.Lib.CyclicShift Fhenomenon.Lib.MachineInt
open Fhenomenon.InstructionStream Fhenomenon.DefaultExecutor
open Fhenomenon.ToyFhe Fhenomenon.ToyFheNoise Fhenomenon.ToyFheKernels Fhenomenon.CorpusOracle
open Fhenomenon.FusedDispatch Fhenomenon.SlotKernels

theorem norm_rot_cast (d : Int) {n : Nat} (positive : 0 < n) :
    (toyfheNormRot d n : Int) = d % n := by
  rw [norm_rot_spec d positive, Int.toNat_of_nonneg]
  exact Int.emod_nonneg d (by omega)

theorem norm_rot_lt (d : Int) {n : Nat} (positive : 0 < n) : toyfheNormRot d n < n := by
  have cast : (0 : Int) < n := by exact_mod_cast positive
  have upper := Int.emod_lt_of_pos d cast
  rw [← norm_rot_cast d positive] at upper
  exact_mod_cast upper

/-- `toyfhe_norm_rot` with its `int64_t` operations. -/
def checkedNormRot (d n : Int) : Option Int := do
  let residue ← remainder 64 d n
  let shifted ← exact 64 (residue + n)
  remainder 64 shifted n

/-- No step overflows for a slot count that a vector can have. -/
theorem norm_rot_defined {d : Int} {n : Nat} (fits : Fits 64 d) (positive : 0 < n)
    (bounded : n ≤ 2 ^ 62) : checkedNormRot d n = some (toyfheNormRot d n) := by
  have cast : (0 : Int) < n := by exact_mod_cast positive
  have small : (n : Int) ≤ 2 ^ 62 := by exact_mod_cast bounded
  have upper : d.tmod n < n := Int.tmod_lt_of_pos d cast
  have lower := Int.lt_tmod_of_pos d cast
  have shiftedFits : Fits 64 (d.tmod n + n) := by
    constructor <;> norm_num <;> omega
  have sign : 0 ≤ (d.tmod n + n).tmod n := Int.tmod_nonneg _ (by omega)
  simp only [checkedNormRot, remainder_pos fits cast, exact_of_fits shiftedFits,
    remainder_pos shiftedFits cast, Option.bind_eq_bind, Option.bind_some, toyfheNormRot]
  rw [Int.toNat_of_nonneg sign]
  rfl

theorem rotated_shift (slots : List Ciphertext) (d : Int) :
    rotated slots (toyfheNormRot d slots.length) = shift slots d := by
  rw [shift]
  apply List.ext_getElem?
  intro index
  by_cases bound : index < slots.length
  · have positive : 0 < slots.length := by omega
    rw [rotated, List.getElem?_ofFn, dif_pos bound, List.getElem?_rotate bound,
      norm_rot_spec d positive, List.getD_eq_getElem _ _ (Nat.mod_lt _ positive),
      List.getElem?_eq_getElem (Nat.mod_lt _ positive)]
  · rw [List.getElem?_eq_none (by rw [rotated_length]; omega),
      List.getElem?_eq_none (by rw [List.length_rotate]; omega)]

theorem rotate_shift (slots : Slots) (d : Int) : CorpusOracle.rotate slots d = shift slots d := by
  rw [shift]
  apply List.ext_getElem?
  intro index
  by_cases bound : index < slots.length
  · have positive : 0 < slots.length := by omega
    have cast : (0 : Int) < slots.length := by exact_mod_cast positive
    have residue := Int.emod_nonneg d cast.ne'
    have source : (((index : Int) + d % slots.length).tmod slots.length).toNat =
        (index + (d % slots.length).toNat) % slots.length := by
      rw [Int.tmod_eq_emod_of_nonneg (by omega)]
      zify
      rw [Int.toNat_of_nonneg residue, Int.toNat_of_nonneg (Int.emod_nonneg _ cast.ne')]
    rw [CorpusOracle.rotate, List.getElem?_ofFn, dif_pos bound, List.getElem?_rotate bound,
      folded_residue d cast, source, List.getD_eq_getElem _ _ (Nat.mod_lt _ positive),
      List.getElem?_eq_getElem (Nat.mod_lt _ positive)]
  · rw [List.getElem?_eq_none (by rw [CorpusOracle.rotate, List.length_ofFn]; omega),
      List.getElem?_eq_none (by rw [List.length_rotate]; omega)]

section Kernels

variable {Ptr ρ : Type*} [DecidableEq Ptr] {engine : Engine}

/-- `buffer` is a `CiphertextVec` of `slots`. -/
def Packs (world : World Ptr ρ) (buffer : Ptr) (slots : List Ciphertext) : Prop :=
  (world.heap buffer).kind = .ciphertextVec ∧ (world.heap buffer).ctVec = slots

/-- The call succeeds and leaves `slots` in `target`. -/
def Leaves (outcome : Int × World Ptr ρ) (target : Ptr) (slots : List Ciphertext) : Prop :=
  outcome.1 = 0 ∧ Packs outcome.2 target slots

def rotateInto (target source : Ptr) (d : Int) (world : World Ptr ρ) : Int × World Ptr ρ :=
  toyfheRotate (some target) ![some source, none, none, none] ![d, 0, 0, 0] ![0, 0] world

def addInto (engine : Engine) (target first second : Ptr) (world : World Ptr ρ) :
    Int × World Ptr ρ :=
  toyfheAddCc engine (some target) ![some first, some second, none, none] ![0, 0, 0, 0] ![0, 0]
    world

/-- `FHN_HROT_ADD` of `first`, rotated by `d`, and `second`. -/
def hrotAddInto (engine : Engine) (target first second : Ptr) (d : Int) (world : World Ptr ρ) :
    Int × World Ptr ρ :=
  toyfheHrotAdd engine (some target) ![some first, some second, none, none] ![d, 0, 0, 0] ![0, 0]
    world

theorem leaves_stored (world : World Ptr ρ) (target : Ptr) (slots : List Ciphertext) :
    Leaves (write (some target) (storeVec slots) world) target slots := by
  refine ⟨rfl, ?_, ?_⟩ <;> simp [write_some, storeVec]

theorem packs_kept {world : World Ptr ρ} {buffer target : Ptr} {slots : List Ciphertext}
    (packs : Packs world buffer slots) (apart : buffer ≠ target)
    (update : FhnBuffer → FhnBuffer) :
    Packs (write (some target) update world).2 buffer slots := by
  rw [Packs, write_some]
  simp only [Function.update_of_ne apart]
  exact packs

theorem rotate_into {world : World Ptr ρ} {source : Ptr} {slots : List Ciphertext}
    (packs : Packs world source slots) (filled : slots ≠ []) (target : Ptr) (d : Int) :
    rotateInto target source d world = write (some target) (storeVec (shift slots d)) world := by
  obtain ⟨kind, stored⟩ := packs
  have accepted : ¬(!toyfheIsVec world (some source) ∨ (world.heap source).ctVec = []) := by
    simp [toyfheIsVec, kind, stored, filled]
  simp only [rotateInto, toyfheRotate, Matrix.cons_val_zero, if_neg accepted]
  rw [stored, rotated_shift]

theorem add_into {world : World Ptr ρ} {first second : Ptr} {left right : List Ciphertext}
    (leftPacks : Packs world first left) (rightPacks : Packs world second right)
    (filled : left ≠ []) (same : left.length = right.length) (target : Ptr) :
    addInto engine target first second world =
      write (some target) (storeVec (List.zipWith engine.add left right)) world := by
  obtain ⟨leftKind, leftStored⟩ := leftPacks
  obtain ⟨rightKind, rightStored⟩ := rightPacks
  simp [addInto, toyfheAddCc, binaryKernel, toyfheIsVec, toyfheVecBinary, leftKind, rightKind,
    leftStored, rightStored, filled, same, slotwise_add]

theorem hrot_add_into {world : World Ptr ρ} {first second : Ptr} {left right : List Ciphertext}
    (leftPacks : Packs world first left) (rightPacks : Packs world second right)
    (filled : left ≠ []) (same : left.length = right.length) (target : Ptr) (d : Int) :
    hrotAddInto engine target first second d world =
      write (some target) (storeVec (List.zipWith engine.add (shift left d) right)) world := by
  obtain ⟨leftKind, leftStored⟩ := leftPacks
  obtain ⟨rightKind, rightStored⟩ := rightPacks
  have fused := @zip_rotated engine left right (toyfheNormRot d left.length) same
  rw [rotated_shift] at fused
  simp [hrotAddInto, toyfheHrotAdd, toyfheIsVec, leftKind, rightKind, leftStored, rightStored,
    filled, same, fused]

/-- Rotations of a vector of `n` slots: the reduced distance, composition, identity
and inverse, the fused kernel, and the oracle's permutation. -/
theorem rotation_is_cyclic_action (engine : Engine) (world : World Ptr ρ) (source : Ptr)
    (slots : List Ciphertext) (packs : Packs world source slots) (n : Nat)
    (length : slots.length = n) (positive : 0 < n) :
    (∀ d, toyfheNormRot d n < n ∧ toyfheNormRot d n ≡ d [ZMOD n]) ∧
      (∀ middle target d1 d2 d, d ≡ d1 + d2 [ZMOD n] → ∃ result,
        Leaves (rotateInto target middle d2 (rotateInto middle source d1 world).2) target result ∧
          Leaves (rotateInto target source d world) target result) ∧
      (∀ target d, (n : Int) ∣ d → Leaves (rotateInto target source d world) target slots) ∧
      (∀ middle target d,
        Leaves (rotateInto target middle (-d) (rotateInto middle source d world).2) target slots) ∧
      (∀ middle target addend second d, Packs world addend second → second.length = n →
        addend ≠ middle → ∃ result,
          Leaves (hrotAddInto engine target source addend d world) target result ∧
            Leaves (addInto engine target middle addend (rotateInto middle source d world).2)
              target result) ∧
      (∀ target d (inst : FhnInstruction) (vals : Nat → Option Slots) (value : Ciphertext → Int),
        inst.opcode = .rotate → inst.params 0 = d →
          vals (inst.operands 0) = some (slots.map value) → ∃ result,
            Leaves (rotateInto target source d world) target result ∧
              evaluateInstruction inst vals = some (result.map value)) := by
  have filled : slots ≠ [] := by
    rw [← List.length_pos_iff, length]
    exact positive
  have once (target : Ptr) (d : Int) :
      Leaves (rotateInto target source d world) target (shift slots d) := by
    rw [rotate_into packs filled]
    exact leaves_stored _ _ _
  have again {middle : Ptr} (d : Int) {result : List Ciphertext}
      (left : Leaves (rotateInto middle source d world) middle result)
      (nonempty : result ≠ []) (target : Ptr) (e : Int) :
      Leaves (rotateInto target middle e (rotateInto middle source d world).2) target
        (shift result e) := by
    rw [rotate_into left.2 nonempty]
    exact leaves_stored _ _ _
  have turnedFilled (d : Int) : shift slots d ≠ [] := by
    rw [← List.length_pos_iff, length_shift, length]
    exact positive
  refine ⟨?_, ?_, ?_, ?_, ?_, ?_⟩
  · intro d
    refine ⟨norm_rot_lt d positive, ?_⟩
    rw [norm_rot_cast d positive]
    exact Int.mod_modEq d n
  · intro middle target d1 d2 d congruent
    have same : shift slots d = shift slots (d1 + d2) :=
      shift_congr slots (by rw [length]; exact congruent)
    have twice := again d1 (once middle d1) (turnedFilled d1) target d2
    rw [shift_shift, ← same] at twice
    exact ⟨_, twice, once target d⟩
  · intro target d divides
    have turned := once target d
    rwa [shift_of_dvd slots (by rw [length]; exact divides)] at turned
  · intro middle target d
    have twice := again d (once middle d) (turnedFilled d) target (-d)
    rwa [shift_back] at twice
  · intro middle target addend second d addendPacks secondLength apart
    have kept : Packs (rotateInto middle source d world).2 addend second := by
      rw [rotate_into packs filled]
      exact packs_kept addendPacks apart _
    refine ⟨List.zipWith engine.add (shift slots d) second, ?_, ?_⟩
    · rw [hrot_add_into packs addendPacks filled (by rw [length, secondLength])]
      exact leaves_stored _ _ _
    · rw [add_into (once middle d).2 kept (turnedFilled d)
        (by rw [length_shift, length, secondLength])]
      exact leaves_stored _ _ _
  · intro target d inst vals value opcode distance operand
    refine ⟨_, once target d, ?_⟩
    simp only [evaluateInstruction, operand, evaluateOpcode, opcode]
    rw [distance, rotate_shift, shift_map]

def threeSlots : World Nat Unit where
  heap buffer :=
    if buffer = 0 then { kind := .ciphertextVec, ctVec := [{ c0 := 1 }, { c0 := 2 }, { c0 := 3 }] }
    else {}
  rng := ()

/-- One slot to the left and then one to the right. -/
theorem three_slots_turn_back :
    Leaves (rotateInto 2 1 (-1) (rotateInto 1 0 1 threeSlots).2) 2
      [{ c0 := 1 }, { c0 := 2 }, { c0 := 3 }] :=
  (rotation_is_cyclic_action toyEngine threeSlots 0 [{ c0 := 1 }, { c0 := 2 }, { c0 := 3 }]
    ⟨rfl, rfl⟩ 3 rfl (by decide)).2.2.2.1 1 2 1

end Kernels

end Fhenomenon.Rotations
