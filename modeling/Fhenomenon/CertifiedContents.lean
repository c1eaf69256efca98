import Fhenomenon.CertifiedNoise
import Fhenomenon.ReachableCiphertexts
import Fhenomenon.Rotations

/-!
# Certified buffers

What is known of a whole buffer, scalar or packed, and what each ToyFHE kernel
makes of what is known of its operands. Its refusals are known exactly.
-/

namespace Fhenomenon.CertifiedContents

open Fhenomenon.Lib.CyclicShift
open Fhenomenon.InstructionStream Fhenomenon.MovementPlanner Fhenomenon.DefaultExecutor
open Fhenomenon.ToyFhe Fhenomenon.ToyFheNoise Fhenomenon.ToyFheKernels
open Fhenomenon.FusedDispatch Fhenomenon.Rotations Fhenomenon.CertifiedNoise
open Fhenomenon.CorpusOracle (Bound)

/-- `empty` stands for every kind that is no ciphertext. -/
inductive Contents (engine : Engine)
  | empty
  | ciphertext (known : Knowledge engine)
  | vector (slots : List (Knowledge engine))

namespace Contents

variable {engine : Engine}

/-- What is known of the scalar field, which may be stale. -/
def scalar : Contents engine → Knowledge engine
  | .ciphertext known => known
  | .empty | .vector _ => none

def unknown (engine : Engine) (buffer : FhnBuffer) : Contents engine :=
  match buffer.kind with
  | .ciphertext => .ciphertext none
  | .ciphertextVec => .vector (buffer.ctVec.map fun _ => none)
  | .empty | .intValue | .doubleValue => .empty

end Contents

variable {engine : Engine}

/-- The buffer is as it is known to be. -/
def Describes (contents : Contents engine) (buffer : FhnBuffer) : Prop :=
  match contents with
  | .empty => buffer.kind ≠ .ciphertext ∧ buffer.kind ≠ .ciphertextVec
  | .ciphertext known => buffer.kind = .ciphertext ∧ Holds known buffer.ct
  | .vector slots => buffer.kind = .ciphertextVec ∧ List.Forall₂ Holds slots buffer.ctVec

theorem unknown_describes (buffer : FhnBuffer) :
    Describes (Contents.unknown engine buffer) buffer := by
  cases kind : buffer.kind with
  | ciphertext =>
      simp only [Contents.unknown, kind]
      exact ⟨kind, holds_nothing _⟩
  | ciphertextVec =>
      simp only [Contents.unknown, kind]
      refine ⟨kind, ?_⟩
      rw [List.forall₂_map_left_iff]
      exact List.forall₂_same.mpr fun cipher _ => holds_nothing cipher
  | empty | intValue | doubleValue =>
      simp only [Contents.unknown, kind]
      exact ⟨by simp [kind], by simp [kind]⟩

theorem scalar_holds {contents : Contents engine} {buffer : FhnBuffer}
    (describes : Describes contents buffer) : Holds contents.scalar buffer.ct := by
  cases contents with
  | empty => exact holds_nothing _
  | ciphertext known => exact describes.2
  | vector slots => exact holds_nothing _

/-- What is known of a plaintext scalar, as if it were encrypted. -/
def plainScalar (engine : Engine) (scalar : Rat) : Knowledge engine :=
  if scalar.den = 1 then literal engine scalar.num else none

/-- Slot by slot for vectors of one length; a vector and a scalar do not mix. -/
def pairwise (op : Knowledge engine → Knowledge engine → Knowledge engine) :
    Contents engine → Contents engine → Int × Contents engine
  | .vector first, .vector second =>
      if first.length = 0 ∨ first.length ≠ second.length then (-1, .empty)
      else (0, .vector (List.zipWith op first second))
  | .vector _, .empty | .vector _, .ciphertext _ => (-1, .empty)
  | .empty, .vector _ | .ciphertext _, .vector _ => (-1, .empty)
  | a, b => (0, .ciphertext (op a.scalar b.scalar))

def rotation (distance : Int) : Contents engine → Int × Contents engine
  | .vector slots =>
      if slots.length = 0 then (-1, .empty) else (0, .vector (shift slots distance))
  | .empty | .ciphertext _ => (-1, .empty)

def rotatedSum (distance : Int) : Contents engine → Contents engine → Int × Contents engine
  | .vector first, .vector second =>
      if first.length = 0 ∨ first.length ≠ second.length then (-1, .empty)
      else (0, .vector (List.zipWith (combined sumBound) (shift first distance) second))
  | _, _ => (-1, .empty)

def passed : Contents engine → Int × Contents engine
  | .empty => (-1, .empty)
  | contents => (0, contents)

def onOne (operands : Fin 4 → Option (Contents engine))
    (op : Contents engine → Int × Contents engine) : Int × Contents engine :=
  match operands 0 with
  | none => (-1, .empty)
  | some a => op a

def onPair (operands : Fin 4 → Option (Contents engine))
    (op : Contents engine → Contents engine → Int × Contents engine) : Int × Contents engine :=
  match operands 0, operands 1 with
  | some a, some b => op a b
  | _, _ => (-1, .empty)

/-- The opcodes of the ToyFHE table on what is known; the others are not registered. -/
def applyContents (engine : Engine) (opcode : FhnOpCode)
    (operands : Fin 4 → Option (Contents engine)) (params : Fin 4 → Int) (fparams : Fin 2 → Rat) :
    Int × Contents engine :=
  match opcode with
  | .addCC => onPair operands (pairwise (combined sumBound))
  | .multCC | .hmult => onPair operands (pairwise (combined (productBound engine)))
  | .subCC =>
      onPair operands fun a b => (0, .ciphertext (combined differenceBound a.scalar b.scalar))
  | .hrotAdd => onPair operands (rotatedSum (params 0))
  | .addCS =>
      onOne operands fun a =>
        (0, .ciphertext (combined sumBound a.scalar (plainScalar engine (fparams 0))))
  | .multCS =>
      onOne operands fun a =>
        (0, .ciphertext (combined (productBound engine) a.scalar (plainScalar engine (fparams 0))))
  | .negate => onOne operands fun a => (0, .ciphertext (opposite a.scalar))
  | .relinearize | .rescale => onOne operands passed
  | .rotate => onOne operands (rotation (params 0))
  | _ => (-1, .empty)

section Applied

variable (operands : Fin 4 → Option (Contents engine)) (params : Fin 4 → Int)
  (fparams : Fin 2 → Rat)

@[simp] theorem apply_sub_cc : applyContents engine .subCC operands params fparams =
    onPair operands fun a b => (0, .ciphertext (combined differenceBound a.scalar b.scalar)) :=
  rfl

@[simp] theorem apply_hrot_add : applyContents engine .hrotAdd operands params fparams =
    onPair operands (rotatedSum (params 0)) := rfl

@[simp] theorem apply_add_cs : applyContents engine .addCS operands params fparams =
    onOne operands fun a =>
      (0, .ciphertext (combined sumBound a.scalar (plainScalar engine (fparams 0)))) := rfl

@[simp] theorem apply_mult_cs : applyContents engine .multCS operands params fparams =
    onOne operands fun a => (0, .ciphertext
      (combined (productBound engine) a.scalar (plainScalar engine (fparams 0)))) := rfl

@[simp] theorem apply_negate : applyContents engine .negate operands params fparams =
    onOne operands fun a => (0, .ciphertext (opposite a.scalar)) := rfl

@[simp] theorem apply_rotate : applyContents engine .rotate operands params fparams =
    onOne operands (rotation (params 0)) := rfl

end Applied

section Slots

variable {ρ : Type*} {first second : List (Knowledge engine)} {left right : List Ciphertext}

theorem shift_holds (holds : List.Forall₂ Holds first left) (distance : Int) :
    List.Forall₂ Holds (shift first distance) (shift left distance) := by
  simp only [shift, List.rotate_eq_drop_append_take_mod, holds.length_eq]
  exact List.rel_append (List.forall₂_drop _ holds) (List.forall₂_take _ holds)

theorem zip_holds {known : Knowledge engine → Knowledge engine → Knowledge engine}
    {op : Ciphertext → Ciphertext → Ciphertext} (leftHolds : List.Forall₂ Holds first left)
    (rightHolds : List.Forall₂ Holds second right)
    (sound : ∀ a b lhs rhs, Holds a lhs → Holds b rhs → Holds (known a b) (op lhs rhs)) :
    List.Forall₂ Holds (List.zipWith known first second) (List.zipWith op left right) := by
  induction leftHolds generalizing second right with
  | nil => exact .nil
  | cons one rest induction =>
      cases rightHolds with
      | nil => exact .nil
      | cons other others => exact .cons (sound _ _ _ _ one other) (induction others)

/-- The random source of a slot depends on the slots before it. -/
theorem slotwise_holds {known : Knowledge engine → Knowledge engine → Knowledge engine}
    {op : Ciphertext → Ciphertext → ρ → Ciphertext × ρ}
    (sound : ∀ a b lhs rhs rng, Holds a lhs → Holds b rhs → Holds (known a b) (op lhs rhs rng).1)
    (leftHolds : List.Forall₂ Holds first left) (rightHolds : List.Forall₂ Holds second right)
    (rng : ρ) :
    List.Forall₂ Holds (List.zipWith known first second) (slotwise op left right rng).1 := by
  induction leftHolds generalizing second right rng with
  | nil => exact .nil
  | cons one rest induction =>
      cases rightHolds with
      | nil => exact .nil
      | cons other others =>
          exact .cons (sound _ _ _ _ rng one other) (induction others _)

end Slots

section Kernels

variable {Ptr ρ : Type*} [DecidableEq Ptr] {draw : Int → Int → ρ → Int × ρ}

/-- The outcome agrees with what was computed from what is known, and a success
writes a buffer that is as computed. -/
def Follows (computed : Int × Contents engine) (result : Ptr) (world : World Ptr ρ)
    (outcome : Int × World Ptr ρ) : Prop :=
  outcome.1 = computed.1 ∧ (computed.1 = 0 → ∃ buffer,
    outcome.2.heap = Function.update world.heap result buffer ∧ Describes computed.2 buffer)

/-- A kernel follows what is known of its operands. -/
def KernelFollows (Ptr : Type*) [DecidableEq Ptr] (engine : Engine) (opcode : FhnOpCode)
    (fn : FhnKernelFn Ptr (World Ptr ρ)) : Prop :=
  ∀ (result : Ptr) (operands : Fin 4 → Option Ptr) (params : Fin 4 → Int)
    (fparams : Fin 2 → Rat) (world : World Ptr ρ) (known : Ptr → Contents engine),
    (∀ slot buffer, operands slot = some buffer →
      Describes (known buffer) (world.heap buffer)) →
      Follows (applyContents engine opcode (fun slot => (operands slot).map known) params fparams)
        result world (fn (some result) operands params fparams world)

variable {result : Ptr} {world next : World Ptr ρ}

theorem follows_refusal {contents : Contents engine} (next : World Ptr ρ) :
    Follows (-1, contents) result world (-1, next) := by
  refine ⟨rfl, fun impossible => ?_⟩
  have negative : (-1 : Int) = 0 := impossible
  omega

theorem follows_write {contents : Contents engine} {update : FhnBuffer → FhnBuffer}
    (heap : next.heap = world.heap) (describes : Describes contents (update (world.heap result))) :
    Follows (0, contents) result world (write (some result) update next) := by
  refine ⟨rfl, fun _ => ⟨_, ?_, describes⟩⟩
  simp only [write_some, heap]

theorem follows_scalar {known : Knowledge engine} {cipher : Ciphertext}
    (heap : next.heap = world.heap) (holds : Holds known cipher) :
    Follows (0, .ciphertext known) result world (write (some result) (storeScalar cipher) next) :=
  follows_write heap ⟨rfl, holds⟩

theorem follows_vector {slots : List (Knowledge engine)} {ciphers : List Ciphertext}
    (heap : next.heap = world.heap) (holds : List.Forall₂ Holds slots ciphers) :
    Follows (0, .vector slots) result world (write (some result) (storeVec ciphers) next) :=
  follows_write heap ⟨rfl, holds⟩

omit [DecidableEq Ptr] in
theorem is_vec_iff {contents : Contents engine} {buffer : Ptr}
    (describes : Describes contents (world.heap buffer)) :
    toyfheIsVec world (some buffer) = true ↔ ∃ slots, contents = .vector slots := by
  rw [toyfheIsVec, decide_eq_true_eq]
  cases contents with
  | empty => exact iff_of_false describes.2 (by simp)
  | ciphertext known => exact iff_of_false (by rw [describes.1]; decide) (by simp)
  | vector slots => exact iff_of_true describes.1 ⟨slots, rfl⟩

theorem pairwise_scalars {op : Knowledge engine → Knowledge engine → Knowledge engine}
    {a b : Contents engine} (left : ¬∃ slots, a = .vector slots)
    (right : ¬∃ slots, b = .vector slots) :
    pairwise op a b = (0, .ciphertext (op a.scalar b.scalar)) := by
  cases a with
  | vector slots => exact absurd ⟨slots, rfl⟩ left
  | empty | ciphertext known =>
      cases b with
      | vector slots => exact absurd ⟨slots, rfl⟩ right
      | empty | ciphertext other => rfl

theorem pairwise_mixed {op : Knowledge engine → Knowledge engine → Knowledge engine}
    {a b : Contents engine}
    (mixed : ¬((∃ slots, a = .vector slots) ↔ ∃ slots, b = .vector slots)) :
    pairwise op a b = (-1, .empty) := by
  cases a with
  | vector slots =>
      cases b with
      | vector others => exact absurd (iff_of_true ⟨slots, rfl⟩ ⟨others, rfl⟩) mixed
      | empty | ciphertext known => rfl
  | empty | ciphertext known =>
      cases b with
      | vector others => rfl
      | empty | ciphertext other => exact absurd (iff_of_false (by simp) (by simp)) mixed

theorem binary_follows {opcode : FhnOpCode}
    {known : Knowledge engine → Knowledge engine → Knowledge engine}
    {op : Ciphertext → Ciphertext → ρ → Ciphertext × ρ}
    (computes : ∀ operands params fparams,
      applyContents engine opcode operands params fparams = onPair operands (pairwise known))
    (sound : ∀ a b lhs rhs rng, Holds a lhs → Holds b rhs → Holds (known a b) (op lhs rhs rng).1) :
    KernelFollows Ptr engine opcode (binaryKernel op) := by
  intro result operands params fparams world contents describes
  rw [computes]
  cases left : operands 0 with
  | none =>
      simp only [onPair, binaryKernel, left, Option.map_none]
      exact follows_refusal world
  | some a =>
      cases right : operands 1 with
      | none =>
          simp only [onPair, binaryKernel, left, right, Option.map_some, Option.map_none]
          exact follows_refusal world
      | some b =>
          have one := describes 0 a left
          have two := describes 1 b right
          have leftVec := is_vec_iff one
          have rightVec := is_vec_iff two
          simp only [onPair, binaryKernel, left, right, Option.map_some]
          by_cases first : toyfheIsVec world (some a) = true
          · by_cases second : toyfheIsVec world (some b) = true
            · obtain ⟨slots, leftSlots⟩ := leftVec.mp first
              obtain ⟨others, rightSlots⟩ := rightVec.mp second
              rw [leftSlots] at one
              rw [rightSlots] at two
              simp only [first, second, Bool.or_self, Bool.not_true, Bool.false_eq_true, if_true,
                if_false, leftSlots, rightSlots, pairwise, toyfheVecBinary, one.2.length_eq,
                two.2.length_eq, List.length_eq_zero_iff]
              split
              · exact follows_refusal world
              · exact follows_vector rfl (slotwise_holds sound one.2 two.2 world.rng)
            · rw [pairwise_mixed fun same => second (rightVec.mpr (same.mp (leftVec.mp first)))]
              simp only [Bool.not_eq_true] at second
              simp only [first, second, Bool.true_or, Bool.not_false, Bool.or_true, if_true]
              exact follows_refusal world
          · by_cases second : toyfheIsVec world (some b) = true
            · rw [pairwise_mixed fun same => first (leftVec.mpr (same.mpr (rightVec.mp second)))]
              simp only [Bool.not_eq_true] at first
              simp only [first, second, Bool.or_true, Bool.not_false, Bool.true_or, if_true]
              exact follows_refusal world
            · rw [pairwise_scalars (fun vector => first (leftVec.mpr vector))
                fun vector => second (rightVec.mpr vector)]
              simp only [Bool.not_eq_true] at first second
              simp only [first, second, Bool.or_self, Bool.false_eq_true, if_false]
              exact follows_scalar rfl (sound _ _ _ _ _ (scalar_holds one) (scalar_holds two))

theorem combined_nothing {op : Bound → Bound → Bound} (a : Knowledge engine) :
    combined op a none = none := by
  cases a <;> rfl

theorem plain_scalar_cases (engine : Engine) (scalar : Rat) :
    plainScalar engine scalar = none ∨
      ∃ value : Int, scalar = value ∧ plainScalar engine scalar = literal engine value := by
  unfold plainScalar
  split
  · rename_i integer
    exact Or.inr ⟨scalar.num, (Rat.coe_int_num_of_den_eq_one integer).symm, rfl⟩
  · exact Or.inl rfl

theorem add_cs_follows (admissible : Admissible engine) :
    KernelFollows (ρ := ρ) Ptr engine .addCS (toyfheAddCs engine) := by
  intro result operands params fparams world known describes
  cases left : operands 0 with
  | none =>
      simp only [apply_add_cs, onOne, toyfheAddCs, left, Option.map_none]
      exact follows_refusal _
  | some a =>
      have one := scalar_holds (describes 0 a left)
      simp only [apply_add_cs, onOne, toyfheAddCs, left, Option.map_some]
      apply follows_scalar rfl
      rcases plain_scalar_cases engine (fparams 0) with unknown | ⟨value, same, plain⟩
      · rw [unknown, combined_nothing]
        exact holds_nothing _
      · rw [plain, same]
        exact holds_add_plain admissible one value

theorem mult_cs_follows (admissible : Admissible engine) :
    KernelFollows Ptr engine .multCS (toyfheMultCs draw engine) := by
  intro result operands params fparams world known describes
  cases left : operands 0 with
  | none =>
      simp only [apply_mult_cs, onOne, toyfheMultCs, left, Option.map_none]
      exact follows_refusal _
  | some a =>
      have one := scalar_holds (describes 0 a left)
      simp only [apply_mult_cs, onOne, toyfheMultCs, left, Option.map_some]
      apply follows_scalar rfl
      rcases plain_scalar_cases engine (fparams 0) with unknown | ⟨value, same, plain⟩
      · rw [unknown, combined_nothing]
        exact holds_nothing _
      · rw [plain, same]
        exact holds_multiply_plain admissible one value world.rng

theorem negate_follows (admissible : Admissible engine) :
    KernelFollows (ρ := ρ) Ptr engine .negate toyfheNegate := by
  intro result operands params fparams world known describes
  cases left : operands 0 with
  | none =>
      simp only [apply_negate, onOne, toyfheNegate, left, Option.map_none]
      exact follows_refusal _
  | some a =>
      simp only [apply_negate, onOne, toyfheNegate, left, Option.map_some]
      exact follows_scalar rfl (holds_opposite admissible (scalar_holds (describes 0 a left)))

theorem sub_cc_follows (admissible : Admissible engine) :
    KernelFollows (ρ := ρ) Ptr engine .subCC (toyfheSubCc engine) := by
  intro result operands params fparams world known describes
  cases left : operands 0 with
  | none =>
      simp only [apply_sub_cc, onPair, toyfheSubCc, left, Option.map_none]
      exact follows_refusal _
  | some a =>
      cases right : operands 1 with
      | none =>
          simp only [apply_sub_cc, onPair, toyfheSubCc, left, right, Option.map_some,
            Option.map_none]
          exact follows_refusal _
      | some b =>
          simp only [apply_sub_cc, onPair, toyfheSubCc, left, right, Option.map_some]
          exact follows_scalar rfl (holds_difference admissible
            (scalar_holds (describes 0 a left)) (scalar_holds (describes 1 b right)))

theorem passthrough_follows {opcode : FhnOpCode}
    (computes : ∀ operands params fparams,
      applyContents engine opcode operands params fparams = onOne operands passed) :
    KernelFollows (ρ := ρ) Ptr engine opcode toyfhePassthrough := by
  intro result operands params fparams world known describes
  rw [computes]
  cases left : operands 0 with
  | none =>
      simp only [onOne, toyfhePassthrough, left, Option.map_none]
      exact follows_refusal _
  | some a =>
      have one := describes 0 a left
      have copies {contents : Contents engine} (known : Describes contents (world.heap a))
          (kind : ¬((world.heap a).kind ≠ .ciphertext ∧ (world.heap a).kind ≠ .ciphertextVec)) :
          Follows (0, contents) result world
            (toyfhePassthrough (some result) operands params fparams world) := by
        simp only [toyfhePassthrough, left, if_neg kind]
        split
        · rename_i same
          rw [Option.some.inj same]
          refine ⟨rfl, fun _ => ⟨world.heap a, ?_, known⟩⟩
          exact (Function.update_eq_self a world.heap).symm
        · exact follows_write rfl known
      simp only [onOne, left, Option.map_some]
      cases contents : known a with
      | empty =>
          rw [contents] at one
          have refused : toyfhePassthrough (some result) operands params fparams world =
              (-1, world) := by
            simp only [toyfhePassthrough, left]
            exact if_pos one
          rw [refused]
          exact follows_refusal _
      | ciphertext cipher =>
          rw [contents] at one
          exact copies one fun neither => neither.1 one.1
      | vector slots =>
          rw [contents] at one
          exact copies one fun neither => neither.2 one.1

theorem rotate_follows : KernelFollows (ρ := ρ) Ptr engine .rotate toyfheRotate := by
  intro result operands params fparams world known describes
  cases left : operands 0 with
  | none =>
      simp only [apply_rotate, onOne, toyfheRotate, left, Option.map_none]
      exact follows_refusal _
  | some src =>
      have one := describes 0 src left
      have packed := is_vec_iff one
      simp only [apply_rotate, onOne, toyfheRotate, left, Option.map_some]
      by_cases vector : toyfheIsVec world (some src) = true
      · obtain ⟨slots, contents⟩ := packed.mp vector
        rw [contents] at one
        simp only [vector, contents, rotation, Bool.not_true, Bool.false_eq_true, false_or,
          one.2.length_eq, List.length_eq_zero_iff, rotated_shift]
        split
        · exact follows_refusal _
        · exact follows_vector rfl (shift_holds one.2 _)
      · have scalar : rotation (params 0) (known src) = (-1, .empty) := by
          cases contents : known src with
          | vector slots => exact absurd (packed.mpr ⟨slots, contents⟩) vector
          | empty | ciphertext known => rfl
        rw [scalar]
        simp only [Bool.not_eq_true] at vector
        simp only [vector, Bool.not_false, true_or, if_true]
        exact follows_refusal _

theorem hrot_add_follows (admissible : Admissible engine) :
    KernelFollows (ρ := ρ) Ptr engine .hrotAdd (toyfheHrotAdd engine) := by
  intro result operands params fparams world known describes
  cases left : operands 0 with
  | none =>
      simp only [apply_hrot_add, onPair, toyfheHrotAdd, left, Option.map_none]
      exact follows_refusal _
  | some a =>
      cases right : operands 1 with
      | none =>
          simp only [apply_hrot_add, onPair, toyfheHrotAdd, left, right, Option.map_some,
            Option.map_none]
          exact follows_refusal _
      | some b =>
          have one := describes 0 a left
          have two := describes 1 b right
          have leftVec := is_vec_iff one
          have rightVec := is_vec_iff two
          simp only [apply_hrot_add, onPair, toyfheHrotAdd, left, right, Option.map_some]
          by_cases first : toyfheIsVec world (some a) = true
          · by_cases second : toyfheIsVec world (some b) = true
            · obtain ⟨slots, leftSlots⟩ := leftVec.mp first
              obtain ⟨others, rightSlots⟩ := rightVec.mp second
              rw [leftSlots] at one
              rw [rightSlots] at two
              simp only [first, second, leftSlots, rightSlots, rotatedSum, Bool.not_true,
                Bool.false_eq_true, false_or, one.2.length_eq, two.2.length_eq,
                List.length_eq_zero_iff]
              split
              · exact follows_refusal _
              · rename_i accepted
                rw [not_or, not_not] at accepted
                rw [← zip_rotated _ _ _ accepted.2, rotated_shift]
                exact follows_vector rfl (zip_holds (shift_holds one.2 _) two.2
                  fun _ _ _ _ lhs rhs => holds_sum admissible lhs rhs)
            · have scalar : rotatedSum (params 0) (known a) (known b) = (-1, .empty) := by
                cases contents : known b with
                | vector slots => exact absurd (rightVec.mpr ⟨slots, contents⟩) second
                | empty | ciphertext cipher => cases known a <;> rfl
              rw [scalar]
              simp only [Bool.not_eq_true] at second
              simp only [second, Bool.not_false, true_or, or_true, if_true]
              exact follows_refusal _
          · have scalar : rotatedSum (params 0) (known a) (known b) = (-1, .empty) := by
              cases contents : known a with
              | vector slots => exact absurd (leftVec.mpr ⟨slots, contents⟩) first
              | empty | ciphertext known => rfl
            rw [scalar]
            simp only [Bool.not_eq_true] at first
            simp only [first, Bool.not_false, true_or, if_true]
            exact follows_refusal _

/-- Every kernel of the table follows what is known. -/
theorem kernels_follow (works : Workable draw engine) {entry : FhnKernelEntry Ptr (World Ptr ρ)}
    (member : entry ∈ toyfheKernels draw engine) {fn : FhnKernelFn Ptr (World Ptr ρ)}
    (registered : entry.fn = some fn) : KernelFollows Ptr engine entry.opcode fn := by
  have admissible := works.admissible
  have adds (a b : Knowledge engine) (lhs rhs : Ciphertext) (rng : ρ) (left : Holds a lhs)
      (right : Holds b rhs) : Holds (combined sumBound a b) (addSlots engine lhs rhs rng).1 :=
    holds_sum admissible left right
  have multiplies (a b : Knowledge engine) (lhs rhs : Ciphertext) (rng : ρ) (left : Holds a lhs)
      (right : Holds b rhs) :
      Holds (combined (productBound engine) a b) (engine.multiply draw lhs rhs rng).1 :=
    holds_product works left right rng
  simp only [toyfheKernels, List.mem_cons, List.not_mem_nil, or_false] at member
  rcases member with rfl | rfl | rfl | rfl | rfl | rfl | rfl | rfl | rfl | rfl | rfl <;>
    obtain rfl := Option.some.inj registered
  · exact binary_follows (fun _ _ _ => rfl) adds
  · exact add_cs_follows admissible
  · exact sub_cc_follows admissible
  · exact negate_follows admissible
  · exact binary_follows (fun _ _ _ => rfl) multiplies
  · exact mult_cs_follows admissible
  · exact passthrough_follows fun _ _ _ => rfl
  · exact passthrough_follows fun _ _ _ => rfl
  · exact rotate_follows
  · exact binary_follows (fun _ _ _ => rfl) multiplies
  · exact hrot_add_follows admissible

end Kernels

end Fhenomenon.CertifiedContents
