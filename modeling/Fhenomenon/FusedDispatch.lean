import Fhenomenon.DeviceAbi
import Fhenomenon.ToyFheKernels

/-!
# Fused kernels and their decompositions

The ToyFHE table registers `FHN_HMULT` and `FHN_HROT_ADD`; without them the
executor runs their primitives, writing the result buffer in between. Both ways
fail on the same instructions and leave the same world.
-/

namespace Fhenomenon.FusedDispatch

open Fhenomenon.InstructionStream Fhenomenon.MovementPlanner Fhenomenon.DefaultExecutor
open Fhenomenon.DeviceAbi Fhenomenon.ToyFhe Fhenomenon.ToyFheKernels

variable {Ptr ρ : Type*}

theorem operand_array_present (inst : FhnInstruction) (buffers : Buffers Ptr) (slot : Fin 4)
    (present : inst.operands slot ≠ 0) :
    operandArray inst buffers slot = buffers (inst.operands slot) := by
  rw [operandArray, if_pos present]

section Tables

variable [DecidableEq Ptr] (draw : Int → Int → ρ → Int × ρ) (engine : Engine)

def fusedTable : Dispatch Ptr (World Ptr ρ) := dispatchTable (toyfheKernels draw engine)

/-- The table without the two fused entries. -/
def primitiveTable : Dispatch Ptr (World Ptr ρ) :=
  dispatchTable ((toyfheKernels draw engine).filter fun entry =>
    entry.opcode ≠ .hmult ∧ entry.opcode ≠ .hrotAdd)

/-- Both fail, or both succeed with the same world. -/
def Agree {σ : Type*} (first second : Int × σ) : Prop :=
  (first.1 = 0 ↔ second.1 = 0) ∧ (first.1 = 0 → first.2 = second.2)

theorem agree_refl {σ : Type*} (outcome : Int × σ) : Agree outcome outcome :=
  ⟨Iff.rfl, fun _ => rfl⟩

theorem agree_failed {σ : Type*} {first second : Int × σ} (one : first.1 ≠ 0)
    (two : second.1 ≠ 0) : Agree first second :=
  ⟨⟨fun zero => absurd zero one, fun zero => absurd zero two⟩, fun zero => absurd zero one⟩

variable {draw engine}

theorem write_some (buffer : Ptr) (update : FhnBuffer → FhnBuffer) (world : World Ptr ρ) :
    write (some buffer) update world =
      (0, { world with
        heap := Function.update world.heap buffer (update (world.heap buffer)) }) :=
  rfl

theorem tables_agree (opcode : FhnOpCode) (notHmult : opcode ≠ .hmult)
    (notHrotAdd : opcode ≠ .hrotAdd) :
    (fusedTable draw engine : Dispatch Ptr (World Ptr ρ)) opcode =
      primitiveTable draw engine opcode := by
  cases opcode <;> first | rfl | contradiction

theorem binary_operands (op : Ciphertext → Ciphertext → ρ → Ciphertext × ρ) (result : Option Ptr)
    (first second : Fin 4 → Option Ptr) (params : Fin 4 → Int) (fparams : Fin 2 → Rat)
    (world : World Ptr ρ) (zero : first 0 = second 0) (one : first 1 = second 1) :
    binaryKernel op result first params fparams world =
      binaryKernel op result second params fparams world := by
  unfold binaryKernel
  rw [zero, one]

theorem binary_writes {op : Ciphertext → Ciphertext → ρ → Ciphertext × ρ} {result : Option Ptr}
    {operands : Fin 4 → Option Ptr} {params : Fin 4 → Int} {fparams : Fin 2 → Rat}
    {world : World Ptr ρ}
    (success : (binaryKernel op result operands params fparams world).1 = 0) :
    ∃ buffer, result = some buffer ∧
      (((binaryKernel op result operands params fparams world).2.heap buffer).kind = .ciphertext ∨
        ((binaryKernel op result operands params fparams world).2.heap buffer).kind =
          .ciphertextVec) := by
  unfold binaryKernel at success ⊢
  cases result with
  | none =>
      exfalso
      revert success
      simp only [toyfheVecBinary, write, fault]
      split
      · split_ifs <;> simp
      · simp
  | some buffer =>
      refine ⟨buffer, rfl, ?_⟩
      revert success
      simp only [toyfheVecBinary, write_some]
      split
      · split_ifs
        · intro impossible
          cases impossible
        · intro impossible
          cases impossible
        · intro _
          right
          simp [storeVec]
        · intro _
          left
          simp [storeScalar]
      · intro impossible
        cases impossible

theorem passthrough_self (buffer : Ptr) (params : Fin 4 → Int) (fparams : Fin 2 → Rat)
    (world : World Ptr ρ)
    (kind : (world.heap buffer).kind = .ciphertext ∨ (world.heap buffer).kind = .ciphertextVec) :
    toyfhePassthrough (some buffer) ![some buffer, none, none, none] params fparams world =
      (0, world) := by
  have filled : ¬((world.heap buffer).kind ≠ .ciphertext ∧
      (world.heap buffer).kind ≠ .ciphertextVec) := by tauto
  simp only [toyfhePassthrough, Matrix.cons_val_zero, if_neg filled, if_true]

/-- `HMULT` is `MULT_CC`, and the two pass-throughs that follow it do nothing. -/
theorem hmult_agrees (inst : FhnInstruction) (buffers : Buffers Ptr) (world : World Ptr ρ)
    (opcode : inst.opcode = .hmult) (first : inst.operands 0 ≠ 0) (second : inst.operands 1 ≠ 0) :
    Agree (dispatchInstruction (fusedTable draw engine) inst buffers world)
      (dispatchInstruction (primitiveTable draw engine) inst buffers world) := by
  have fused : dispatchInstruction (fusedTable draw engine) inst buffers world =
      toyfheMultCc draw engine (buffers inst.resultId)
        ![buffers (inst.operands 0), buffers (inst.operands 1), none, none] inst.params
        inst.fparams world := by
    have direct : dispatchInstruction (fusedTable draw engine) inst buffers world =
        toyfheMultCc draw engine (buffers inst.resultId) (operandArray inst buffers) inst.params
          inst.fparams world := by
      unfold dispatchInstruction
      rw [opcode]
      rfl
    rw [direct]
    exact binary_operands _ _ _ _ _ _ _ (operand_array_present inst buffers 0 first)
      (operand_array_present inst buffers 1 second)
  have decomposed : dispatchInstruction (primitiveTable draw engine) inst buffers world =
      if (decomposeHmult (primitiveTable draw engine) inst buffers world).1 then
        (0, (decomposeHmult (primitiveTable draw engine) inst buffers world).2)
      else (-1, (decomposeHmult (primitiveTable draw engine) inst buffers world).2) := by
    unfold dispatchInstruction decompose
    rw [opcode]
    rfl
  have multiplies : call (primitiveTable draw engine) .multCC (buffers inst.resultId)
      ![buffers (inst.operands 0), buffers (inst.operands 1), none, none] inst.params inst.fparams
      world = toyfheMultCc draw engine (buffers inst.resultId)
        ![buffers (inst.operands 0), buffers (inst.operands 1), none, none] inst.params
        inst.fparams world := rfl
  rw [fused, decomposed]
  generalize multipliedEq : toyfheMultCc draw engine (buffers inst.resultId)
    ![buffers (inst.operands 0), buffers (inst.operands 1), none, none] inst.params inst.fparams
    world = multiplied at multiplies
  by_cases failed : multiplied.1 = 0
  · obtain ⟨buffer, stored, kind⟩ := binary_writes (show (binaryKernel (engine.multiply draw)
      (buffers inst.resultId) ![buffers (inst.operands 0), buffers (inst.operands 1), none, none]
      inst.params inst.fparams world).1 = 0 by
        rw [← failed, ← multipliedEq]
        rfl)
    have kindAfter : (multiplied.2.heap buffer).kind = .ciphertext ∨
        (multiplied.2.heap buffer).kind = .ciphertextVec := by
      rw [← multipliedEq]
      exact kind
    have passes (pass : FhnOpCode) (isPass : pass = .relinearize ∨ pass = .rescale) :
        call (primitiveTable draw engine) pass (buffers inst.resultId)
          ![buffers inst.resultId, none, none, none] inst.params inst.fparams multiplied.2 =
            (0, multiplied.2) := by
      rw [stored]
      rcases isPass with rfl | rfl
      · exact passthrough_self buffer inst.params inst.fparams multiplied.2 kindAfter
      · exact passthrough_self buffer inst.params inst.fparams multiplied.2 kindAfter
    have whole : decomposeHmult (primitiveTable draw engine) inst buffers world =
        (true, multiplied.2) := by
      have supported (opcode : FhnOpCode)
          (member : opcode = .multCC ∨ opcode = .relinearize ∨ opcode = .rescale) :
          supports (primitiveTable draw engine : Dispatch Ptr (World Ptr ρ)) opcode = true := by
        rcases member with rfl | rfl | rfl <;> rfl
      simp only [decomposeHmult, supported .multCC (by simp), supported .relinearize (by simp),
        supported .rescale (by simp), multiplies, failed, passes .relinearize (by simp)]
      simp [passes .rescale (by simp)]
    rw [whole]
    exact ⟨by simp [failed], fun _ => rfl⟩
  · have whole : (decomposeHmult (primitiveTable draw engine) inst buffers world).1 = false := by
      have supported :
          supports (primitiveTable draw engine : Dispatch Ptr (World Ptr ρ)) .multCC = true := rfl
      simp only [decomposeHmult, supported, multiplies]
      simp [failed]
    rw [whole]
    exact agree_failed failed (by simp)

theorem slotwise_add (first second : List Ciphertext) (rng : ρ) :
    slotwise (addSlots engine) first second rng = (List.zipWith engine.add first second, rng) := by
  induction first generalizing second with
  | nil => simp [slotwise]
  | cons one rest induction =>
      cases second with
      | nil => simp [slotwise]
      | cons two others =>
          simp only [slotwise, addSlots, induction others, List.zipWith_cons_cons]

theorem rotated_length (slots : List Ciphertext) (d : Nat) :
    (rotated slots d).length = slots.length :=
  List.length_ofFn

/-- Rotating and then adding slot by slot is the fused pass. -/
theorem zip_rotated (first second : List Ciphertext) (d : Nat)
    (same : first.length = second.length) :
    List.zipWith engine.add (rotated first d) second = rotateAdd engine first second d := by
  apply List.ext_getElem
  · simp [rotated, rotateAdd, same]
  · intro i left right
    have bound : i < second.length := by
      simp only [rotateAdd, List.length_ofFn] at right
      omega
    simp [rotated, rotateAdd, List.getElem_zipWith, List.getD_eq_getElem?_getD, bound]

/-- The decomposed dispatch: `ROTATE` into the result, then `ADD_CC` in place. -/
theorem decomposed_hrot_add (inst : FhnInstruction) (buffers : Buffers Ptr) (world : World Ptr ρ)
    (opcode : inst.opcode = .hrotAdd) :
    dispatchInstruction (primitiveTable draw engine) inst buffers world =
      let turned := toyfheRotate (buffers inst.resultId)
        ![buffers (inst.operands 0), none, none, none] inst.params inst.fparams world
      if turned.1 ≠ 0 then (-1, turned.2)
      else
        let added := toyfheAddCc engine (buffers inst.resultId)
          ![buffers inst.resultId, buffers (inst.operands 1), none, none] inst.params
          inst.fparams turned.2
        (if added.1 = 0 then 0 else -1, added.2) := by
  have noHrot :
      supports (primitiveTable draw engine : Dispatch Ptr (World Ptr ρ)) .hrot = false := rfl
  have rotates :
      supports (primitiveTable draw engine : Dispatch Ptr (World Ptr ρ)) .rotate = true := rfl
  have adds :
      supports (primitiveTable draw engine : Dispatch Ptr (World Ptr ρ)) .addCC = true := rfl
  have whole : dispatchInstruction (primitiveTable draw engine) inst buffers world =
      if (decomposeHrotAdd (primitiveTable draw engine) inst buffers world).1 then
        (0, (decomposeHrotAdd (primitiveTable draw engine) inst buffers world).2)
      else (-1, (decomposeHrotAdd (primitiveTable draw engine) inst buffers world).2) := by
    unfold dispatchInstruction decompose
    rw [opcode]
    rfl
  have rotateCall : call (primitiveTable draw engine) .rotate (buffers inst.resultId)
      ![buffers (inst.operands 0), none, none, none] inst.params inst.fparams world =
        toyfheRotate (buffers inst.resultId) ![buffers (inst.operands 0), none, none, none]
          inst.params inst.fparams world := rfl
  have addCall (after : World Ptr ρ) : call (primitiveTable draw engine) .addCC
      (buffers inst.resultId) ![buffers inst.resultId, buffers (inst.operands 1), none, none]
      inst.params inst.fparams after =
        toyfheAddCc engine (buffers inst.resultId)
          ![buffers inst.resultId, buffers (inst.operands 1), none, none] inst.params
          inst.fparams after := rfl
  rw [whole]
  simp only [decomposeHrotAdd, decomposeHrot, noHrot, rotates, adds, rotateCall, addCall]
  by_cases failed : (toyfheRotate (buffers inst.resultId)
      ![buffers (inst.operands 0), none, none, none] inst.params inst.fparams world).1 = 0
  · simp only [failed]
    split_ifs <;> simp_all
  · simp [failed]

theorem rotate_outcome (result source : Option Ptr) (params : Fin 4 → Int)
    (fparams : Fin 2 → Rat) (world : World Ptr ρ) :
    (toyfheRotate result ![source, none, none, none] params fparams world).1 ≠ 0 ∨
      ∃ target buffer, result = some target ∧ source = some buffer ∧
        (world.heap buffer).kind = .ciphertextVec ∧ (world.heap buffer).ctVec ≠ [] ∧
        toyfheRotate result ![source, none, none, none] params fparams world =
          (0, { world with
            heap := Function.update world.heap target
              (storeVec (rotated (world.heap buffer).ctVec
                (toyfheNormRot (params 0) (world.heap buffer).ctVec.length))
                (world.heap target)) }) := by
  cases source with
  | none => left; simp [toyfheRotate]
  | some buffer =>
      by_cases vector : (world.heap buffer).kind = .ciphertextVec
      · by_cases empty : (world.heap buffer).ctVec = []
        · left
          simp [toyfheRotate, toyfheIsVec, empty]
        · cases result with
          | none => left; simp [toyfheRotate, toyfheIsVec, vector, empty, write, fault]
          | some target =>
              refine Or.inr ⟨target, buffer, rfl, rfl, vector, empty, ?_⟩
              simp [toyfheRotate, toyfheIsVec, vector, empty, write]
      · left
        simp [toyfheRotate, toyfheIsVec, vector]

theorem hrot_add_refuses (result first second : Option Ptr) (operands : Fin 4 → Option Ptr)
    (zero : operands 0 = first) (one : operands 1 = second) (params : Fin 4 → Int)
    (fparams : Fin 2 → Rat) (world : World Ptr ρ)
    (turned : (toyfheRotate result ![first, none, none, none] params fparams world).1 ≠ 0) :
    (toyfheHrotAdd engine result operands params fparams world).1 ≠ 0 := by
  cases first with
  | none => simp [toyfheHrotAdd, zero]
  | some source =>
      cases second with
      | none => simp [toyfheHrotAdd, zero, one]
      | some addend =>
          simp only [toyfheHrotAdd, zero, one]
          split_ifs with refused
          · simp
          · push Not at refused
            cases result with
            | none => simp [write, fault]
            | some target =>
                exfalso
                apply turned
                simp [toyfheRotate, refused.1, refused.2.2.1, write]

theorem rotated_then_added {target source addend : Ptr} (params : Fin 4 → Int)
    (fparams : Fin 2 → Rat) (world : World Ptr ρ) (operands : Fin 4 → Option Ptr)
    (zero : operands 0 = some source) (one : operands 1 = some addend)
    (vector : (world.heap source).kind = .ciphertextVec) (filled : (world.heap source).ctVec ≠ [])
    (different : addend ≠ target) :
    Agree (toyfheHrotAdd engine (some target) operands params fparams world)
      (let added := toyfheAddCc engine (some target) ![some target, some addend, none, none] params
        fparams { world with
          heap := Function.update world.heap target
            (storeVec (rotated (world.heap source).ctVec
              (toyfheNormRot (params 0) (world.heap source).ctVec.length)) (world.heap target)) }
      (if added.1 = 0 then 0 else -1, added.2)) := by
  generalize turnedEq : rotated (world.heap source).ctVec
    (toyfheNormRot (params 0) (world.heap source).ctVec.length) = turned
  have turnedLength : turned.length = (world.heap source).ctVec.length := by
    rw [← turnedEq, rotated_length]
  have turnedFilled : turned ≠ [] := by
    rw [← List.length_pos_iff, turnedLength, List.length_pos_iff]
    exact filled
  by_cases addendVector : (world.heap addend).kind = .ciphertextVec
  · by_cases same : (world.heap source).ctVec.length = (world.heap addend).ctVec.length
    · have fused := @zip_rotated engine (world.heap source).ctVec
        (world.heap addend).ctVec (toyfheNormRot (params 0) (world.heap source).ctVec.length) same
      rw [turnedEq] at fused
      have sum : toyfheAddCc engine (some target) ![some target, some addend, none, none] params
          fparams { world with
            heap := Function.update world.heap target (storeVec turned (world.heap target)) } =
          toyfheHrotAdd engine (some target) operands params fparams world := by
        simp [toyfheAddCc, binaryKernel, toyfheVecBinary, toyfheIsVec, toyfheHrotAdd, zero, one,
          Function.update_of_ne different, storeVec, slotwise_add, turnedFilled, turnedLength, same,
          write, vector, filled, addendVector, fused]
      rw [sum]
      have success : (toyfheHrotAdd engine (some target) operands params fparams world).1 = 0 := by
        simp [toyfheHrotAdd, zero, one, toyfheIsVec, vector, filled, addendVector, same, write]
      simp only [success, if_true]
      exact ⟨by simp [success], fun _ => rfl⟩
    · apply agree_failed
      · simp [toyfheHrotAdd, zero, one, same]
      · simp [toyfheAddCc, binaryKernel, toyfheVecBinary, toyfheIsVec,
          Function.update_of_ne different, storeVec, addendVector, turnedFilled, turnedLength, same]
  · apply agree_failed
    · simp [toyfheHrotAdd, zero, one, toyfheIsVec, addendVector]
    · simp [toyfheAddCc, binaryKernel, toyfheIsVec, Function.update_of_ne different, storeVec,
        addendVector]

/-- `HROT_ADD` is `ROTATE` then `ADD_CC`, if the rotation does not overwrite the addend. -/
theorem hrot_add_agrees (inst : FhnInstruction) (buffers : Buffers Ptr) (world : World Ptr ρ)
    (opcode : inst.opcode = .hrotAdd) (first : inst.operands 0 ≠ 0) (second : inst.operands 1 ≠ 0)
    (apart : ∀ buffer, buffers inst.resultId = some buffer →
      buffers (inst.operands 1) ≠ some buffer) :
    Agree (dispatchInstruction (fusedTable draw engine) inst buffers world)
      (dispatchInstruction (primitiveTable draw engine) inst buffers world) := by
  have fused : dispatchInstruction (fusedTable draw engine) inst buffers world =
      toyfheHrotAdd engine (buffers inst.resultId) (operandArray inst buffers) inst.params
        inst.fparams world := by
    unfold dispatchInstruction
    rw [opcode]
    rfl
  have zero := operand_array_present inst buffers 0 first
  have one := operand_array_present inst buffers 1 second
  rw [fused, decomposed_hrot_add inst buffers world opcode]
  rcases rotate_outcome (buffers inst.resultId) (buffers (inst.operands 0)) inst.params
    inst.fparams world with turned | ⟨target, source, targetStored, sourceStored, vector, filled,
      turned⟩
  · simp only [if_pos turned]
    exact agree_failed (hrot_add_refuses _ _ _ _ zero one _ _ _ turned) (by simp)
  · rw [sourceStored] at zero
    rw [targetStored] at apart
    rw [targetStored, sourceStored] at turned
    simp only [targetStored, sourceStored, turned, ne_eq, not_true_eq_false, if_false]
    cases addendStored : buffers (inst.operands 1) with
    | none =>
        rw [addendStored] at one
        apply agree_failed
        · simp [toyfheHrotAdd, zero, one]
        · simp [toyfheAddCc, binaryKernel]
    | some addend =>
        rw [addendStored] at one
        have different : addend ≠ target := by
          rintro rfl
          exact apart addend rfl addendStored
        exact rotated_then_added inst.params inst.fparams world _ zero one vector filled different

theorem other_agrees (inst : FhnInstruction) (buffers : Buffers Ptr) (world : World Ptr ρ)
    (notHmult : inst.opcode ≠ .hmult) (notHrotAdd : inst.opcode ≠ .hrotAdd) :
    dispatchInstruction (fusedTable draw engine) inst buffers world =
      dispatchInstruction (primitiveTable draw engine) inst buffers world := by
  have entry (opcode : FhnOpCode) (one : opcode ≠ .hmult) (two : opcode ≠ .hrotAdd) :
      (fusedTable draw engine : Dispatch Ptr (World Ptr ρ)) opcode =
        primitiveTable draw engine opcode :=
    tables_agree opcode one two
  have supported (opcode : FhnOpCode) (one : opcode ≠ .hmult) (two : opcode ≠ .hrotAdd) :
      supports (fusedTable draw engine : Dispatch Ptr (World Ptr ρ)) opcode =
        supports (primitiveTable draw engine : Dispatch Ptr (World Ptr ρ)) opcode := by
    rw [supports, supports, entry opcode one two]
  have called (opcode : FhnOpCode) (one : opcode ≠ .hmult) (two : opcode ≠ .hrotAdd) :
      call (fusedTable draw engine : Dispatch Ptr (World Ptr ρ)) opcode =
        call (primitiveTable draw engine : Dispatch Ptr (World Ptr ρ)) opcode := by
    funext result operands params fparams world
    rw [call, call, entry opcode one two]
  have decomposed : decompose (fusedTable draw engine) inst buffers world =
      decompose (primitiveTable draw engine) inst buffers world := by
    cases opcode : inst.opcode with
    | hmult => exact absurd opcode notHmult
    | hrotAdd => exact absurd opcode notHrotAdd
    | hrot =>
        simp only [decompose, opcode, decomposeHrot, supported .rotate (by decide) (by decide),
          called .rotate (by decide) (by decide)]
    | hconjAdd =>
        simp only [decompose, opcode, decomposeHconjAdd,
          supported .conjugate (by decide) (by decide), supported .addCC (by decide) (by decide),
          called .conjugate (by decide) (by decide), called .addCC (by decide) (by decide)]
    | mad =>
        simp only [decompose, opcode, decomposeMad,
          supported .multCS (by decide) (by decide), supported .addCC (by decide) (by decide),
          called .multCS (by decide) (by decide), called .addCC (by decide) (by decide)]
    | _ => simp only [decompose, opcode]
  simp only [dispatchInstruction, entry inst.opcode notHmult notHrotAdd, decomposed]

theorem dispatch_agrees (inst : FhnInstruction) (buffers : Buffers Ptr) (world : World Ptr ρ)
    (present : ∀ slot ∈ readSlots inst.opcode, inst.operands slot ≠ 0)
    (apart : inst.opcode = .hrotAdd → ∀ buffer, buffers inst.resultId = some buffer →
      buffers (inst.operands 1) ≠ some buffer) :
    Agree (dispatchInstruction (fusedTable draw engine) inst buffers world)
      (dispatchInstruction (primitiveTable draw engine) inst buffers world) := by
  by_cases hmult : inst.opcode = .hmult
  · exact hmult_agrees inst buffers world hmult (present 0 (by simp [hmult, readSlots]))
      (present 1 (by simp [hmult, readSlots]))
  · by_cases hrotAdd : inst.opcode = .hrotAdd
    · exact hrot_add_agrees inst buffers world hrotAdd (present 0 (by simp [hrotAdd, readSlots]))
        (present 1 (by simp [hrotAdd, readSlots])) (apart hrotAdd)
    · rw [other_agrees inst buffers world hmult hrotAdd]
      exact agree_refl _

theorem dispatch_all_agrees (insts : List FhnInstruction) (buffers : Buffers Ptr)
    (present : ∀ inst ∈ insts, ∀ slot ∈ readSlots inst.opcode, inst.operands slot ≠ 0)
    (apart : ∀ inst ∈ insts, inst.opcode = .hrotAdd → ∀ buffer,
      buffers inst.resultId = some buffer → buffers (inst.operands 1) ≠ some buffer)
    (world : World Ptr ρ) :
    Agree (dispatchAll (fusedTable draw engine) buffers insts world)
      (dispatchAll (primitiveTable draw engine) buffers insts world) := by
  induction insts generalizing world with
  | nil => exact agree_refl _
  | cons inst rest induction =>
      have first := List.mem_cons_self (a := inst) (l := rest)
      have step := @dispatch_agrees _ _ _ draw engine inst buffers world
        (present inst first) (apart inst first)
      simp only [dispatchAll]
      by_cases success : (dispatchInstruction (fusedTable draw engine) inst buffers world).1 = 0
      · have also := step.1.mp success
        simp only [success, also, ne_eq, not_true_eq_false, if_false, step.2 success]
        exact induction (fun other member => present other (List.mem_cons_of_mem _ member))
          (fun other member => apart other (List.mem_cons_of_mem _ member)) _
      · have also : (dispatchInstruction (primitiveTable draw engine) inst buffers world).1 ≠ 0 :=
          fun zero => success (step.1.mpr zero)
        rw [if_pos success, if_pos also]
        exact agree_failed success also

variable (draw engine)

def upTo (program : FhnProgram) (count : Nat) : FhnProgram :=
  { program with instructions := program.instructions.take count }

/-- Fused and decomposed dispatch fail at the same instruction or end in the same world. -/
theorem fused_matches_decomposed (program : FhnProgram) (present : OperandsPresent program)
    (buffers : Buffers Ptr)
    (apart : ∀ inst ∈ program.instructions, inst.opcode = .hrotAdd → ∀ buffer,
      buffers inst.resultId = some buffer → buffers (inst.operands 1) ≠ some buffer)
    (world : World Ptr ρ) :
    (∀ count,
      (executePlain (fusedTable draw engine) (upTo program count) buffers world).1 = 0 ↔
        (executePlain (primitiveTable draw engine) (upTo program count) buffers
          world).1 = 0) ∧
      ((executePlain (fusedTable draw engine) program buffers world).1 = 0 →
        (executePlain (fusedTable draw engine) program buffers world).2 =
          (executePlain (primitiveTable draw engine) program buffers world).2) := by
  have agrees (insts : List FhnInstruction) (sub : insts ⊆ program.instructions) :
      Agree (dispatchAll (fusedTable draw engine) buffers insts world)
        (dispatchAll (primitiveTable draw engine) buffers insts world) :=
    dispatch_all_agrees insts buffers (fun inst member => present inst (sub member))
      (fun inst member => apart inst (sub member)) world
  by_cases version : program.version = fhnAbiVersion
  · simp only [executePlain, upTo, version, ne_eq, not_true_eq_false, if_false]
    exact ⟨fun count => (agrees _ (List.take_subset _ _)).1, (agrees _ (List.Subset.refl _)).2⟩
  · simp only [executePlain, upTo, ne_eq, version, not_false_eq_true, if_true]
    exact ⟨fun _ => trivial, fun _ => trivial⟩

end Tables

def toyEngine : Engine := { params := {}, secretKey := 12345 }

/-- A random source that always draws the bottom of its range. -/
def bottomDraw (low _ : Int) (rng : Unit) : Int × Unit := (low, rng)

def rotateThenMultiply : FhnProgram where
  instructions := [
    { opcode := .hrotAdd, resultId := 3, operands := ![1, 2, 0, 0], params := ![1, 0, 0, 0] },
    { opcode := .hmult, resultId := 4, operands := ![3, 3, 0, 0] }]
  inputIds := [1, 2]
  outputIds := [4]

def toyWorld : World Nat Unit where
  heap
    | 0 => { kind := .ciphertextVec, ctVec := [{ c0 := 10, c1 := 1 }, { c0 := 20, c1 := 2 }] }
    | 1 => { kind := .ciphertextVec, ctVec := [{ c0 := 300, c1 := 3 }, { c0 := 400, c1 := 4 }] }
    | _ => {}
  rng := ()

def toyBuffers : Buffers Nat
  | 1 => some 0
  | 2 => some 1
  | 3 => some 2
  | 4 => some 3
  | _ => none

/-- The result of the rotation is the addend's buffer. -/
def overwritingBuffers : Buffers Nat
  | 1 => some 0
  | 2 => some 1
  | 3 => some 1
  | 4 => some 3
  | _ => none

theorem rotate_then_multiply_matches :
    (executePlain (fusedTable bottomDraw toyEngine) rotateThenMultiply toyBuffers toyWorld).1 = 0 ∧
      (executePlain (fusedTable bottomDraw toyEngine) rotateThenMultiply toyBuffers toyWorld).2 =
        (executePlain (primitiveTable bottomDraw toyEngine) rotateThenMultiply toyBuffers
          toyWorld).2 := by
  have success : (executePlain (fusedTable bottomDraw toyEngine) rotateThenMultiply toyBuffers
      toyWorld).1 = 0 := by decide +kernel
  exact ⟨success, (fused_matches_decomposed bottomDraw toyEngine rotateThenMultiply (by decide)
    toyBuffers (by decide) toyWorld).2 success⟩

/-- When the rotation overwrites the addend, the decomposed sum adds the rotated
operand to itself. -/
theorem overwritten_addend_differs :
    (analyze rotateThenMultiply [4] 0 .belady none).isSome = true ∧
      OperandsPresent rotateThenMultiply ∧ overwritingBuffers 0 = none ∧
      (executePlain (fusedTable bottomDraw toyEngine) rotateThenMultiply overwritingBuffers
        toyWorld).1 = 0 ∧
      (executePlain (primitiveTable bottomDraw toyEngine) rotateThenMultiply overwritingBuffers
        toyWorld).1 = 0 ∧
      ((executePlain (fusedTable bottomDraw toyEngine) rotateThenMultiply overwritingBuffers
        toyWorld).2.heap 1).ctVec ≠
        ((executePlain (primitiveTable bottomDraw toyEngine) rotateThenMultiply
          overwritingBuffers toyWorld).2.heap 1).ctVec := by
  refine ⟨by decide, by decide, rfl, ?_, ?_, ?_⟩
  · decide +kernel
  · decide +kernel
  · decide +kernel

end Fhenomenon.FusedDispatch
