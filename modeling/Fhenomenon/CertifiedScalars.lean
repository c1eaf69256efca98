import Fhenomenon.LoweringSound
import Fhenomenon.TrackedDevice

/-!
# Scalar buffers

Sessions handle one ciphertext a buffer. Seen through such buffers alone the
device still follows the ABI, and the opcodes that sessions record compute the
sum and the product of what is known.
-/

namespace Fhenomenon.CertifiedScalars

open Fhenomenon.InstructionStream Fhenomenon.MovementPlanner Fhenomenon.DefaultExecutor
open Fhenomenon.DispatchRecipes Fhenomenon.DeviceAbi Fhenomenon.LoweringSound
open Fhenomenon.ToyFhe Fhenomenon.ToyFheKernels Fhenomenon.ToyFheExecution
open Fhenomenon.CertifiedNoise Fhenomenon.CertifiedContents Fhenomenon.TrackedDevice

section Restriction

variable {Ptr σ V W κ : Type*}

/-- The buffers whose contents are in view; `failed` stands for what a failed call leaves. -/
def restrict (model : DeviceModel Ptr σ V κ) (view : V → Option W) (embed : W → V) (failed : W) :
    DeviceModel Ptr σ W κ where
  cell world buffer :=
    (model.cell world buffer).bind fun cell =>
      (view cell.contents).map fun value => ⟨cell.resident, value⟩
  context := model.context
  apply opcode context operands params fparams :=
    let computed := model.apply opcode context (fun slot => (operands slot).map embed) params
      fparams
    (computed.1, (view computed.2.1).getD failed, computed.2.2)

/-- Successful calls on values in view stay in view. -/
structure Closed (model : DeviceModel Ptr σ V κ) (view : V → Option W) (embed : W → V) : Prop where
  embedded : ∀ contents value, view contents = some value → contents = embed value
  computed : ∀ opcode context (operands : Fin 4 → Option W) params fparams,
    (model.apply opcode context (fun slot => (operands slot).map embed) params fparams).1 = 0 →
      (view (model.apply opcode context (fun slot => (operands slot).map embed) params
        fparams).2.1).isSome

variable {model : DeviceModel Ptr σ V κ} {view : V → Option W} {embed : W → V} {failed : W}
  {world : σ} {buffer : Ptr}

theorem restrict_cell {cell : Cell W}
    (seen : (restrict model view embed failed).cell world buffer = some cell) :
    ∃ contents, model.cell world buffer = some ⟨cell.resident, contents⟩ ∧
      view contents = some cell.contents := by
  obtain ⟨whole, live, viewed⟩ := Option.bind_eq_some_iff.mp seen
  obtain ⟨value, found, rfl⟩ := Option.map_eq_some_iff.mp viewed
  exact ⟨whole.contents, live, found⟩

theorem restrict_kernel_law [DecidableEq Ptr] {dispatch : Dispatch Ptr σ}
    (law : KernelLaw model dispatch) (closed : Closed model view embed) :
    KernelLaw (restrict model view embed failed) dispatch := by
  intro opcode fn registered world result operands params fparams live operandsLive
  have whole {buffer : Ptr} (resident : (restrict model view embed failed).Resident world buffer) :
      model.Resident world buffer := by
    obtain ⟨value, seen⟩ := resident
    obtain ⟨contents, cell, -⟩ := restrict_cell seen
    exact ⟨contents, cell⟩
  have reads : (fun slot => ((operands slot).bind
      ((restrict model view embed failed).contents world)).map embed) =
        fun slot => (operands slot).bind (model.contents world) := by
    funext slot
    cases handed : operands slot with
    | none => rfl
    | some buffer =>
        obtain ⟨value, seen⟩ := operandsLive slot buffer handed
        obtain ⟨contents, cell, viewed⟩ := restrict_cell seen
        simp only [Option.bind_some, DeviceModel.contents, seen, cell, Option.map_some]
        rw [closed.embedded contents value viewed]
  have called := law opcode fn registered world result operands params fparams (whole live)
    fun slot buffer handed => whole (operandsLive slot buffer handed)
  have stays := closed.computed opcode (model.context world)
    (fun slot => (operands slot).bind ((restrict model view embed failed).contents world)) params
    fparams
  rw [reads] at stays
  have computed : (restrict model view embed failed).apply opcode (model.context world)
      (fun slot => (operands slot).bind ((restrict model view embed failed).contents world)) params
      fparams =
        let whole := model.apply opcode (model.context world)
          (fun slot => (operands slot).bind (model.contents world)) params fparams
        (whole.1, (view whole.2.1).getD failed, whole.2.2) := by
    rw [← reads]
    rfl
  have context : (restrict model view embed failed).context = model.context := rfl
  rw [context, computed]
  obtain ⟨code, written⟩ := called
  refine ⟨code, fun success => ?_⟩
  obtain ⟨cells, context⟩ := written success
  obtain ⟨value, viewed⟩ := Option.isSome_iff_exists.mp (stays success)
  refine ⟨fun buffer => ?_, context⟩
  simp only [restrict, cells]
  by_cases same : buffer = result
  · rw [if_pos same, if_pos same, Option.bind_some, viewed]
    rfl
  · rw [if_neg same, if_neg same]

end Restriction

/-- A buffer without a ciphertext, or with one. -/
inductive Scalar (engine : Engine)
  | empty
  | ciphertext (known : Knowledge engine)

namespace Scalar

variable {engine : Engine}

def known : Scalar engine → Knowledge engine
  | .empty => none
  | .ciphertext known => known

def contents : Scalar engine → Contents engine
  | .empty => .empty
  | .ciphertext known => .ciphertext known

def view : Contents engine → Option (Scalar engine)
  | .empty => some .empty
  | .ciphertext known => some (.ciphertext known)
  | .vector _ => none

instance : Add (Scalar engine) where
  add a b := .ciphertext (combined sumBound a.known b.known)

instance : Mul (Scalar engine) where
  mul a b := .ciphertext (combined (productBound engine) a.known b.known)

instance : IntCast (Scalar engine) where
  intCast value := .ciphertext (literal engine value)

@[simp] theorem scalar_contents (scalar : Scalar engine) :
    scalar.contents.scalar = scalar.known := by
  cases scalar <;> rfl

theorem view_contents {contents : Contents engine} {scalar : Scalar engine}
    (viewed : view contents = some scalar) : contents = scalar.contents := by
  cases contents with
  | vector slots => cases viewed
  | empty | ciphertext known => exact Option.some.inj viewed ▸ rfl

theorem pairwise_contents (op : Knowledge engine → Knowledge engine → Knowledge engine)
    (a b : Scalar engine) :
    pairwise op a.contents b.contents = (0, .ciphertext (op a.known b.known)) := by
  cases a <;> cases b <;> rfl

end Scalar

section Laws

variable {Ptr ρ : Type*} [DecidableEq Ptr] {draw : Int → Int → ρ → Int × ρ} {engine : Engine}

def scalarModel (Ptr ρ : Type*) [DecidableEq Ptr] (engine : Engine) :
    DeviceModel Ptr (Tracked Ptr ρ engine) (Scalar engine) Unit :=
  restrict (contentsModel Ptr ρ engine) Scalar.view Scalar.contents .empty

theorem scalars_closed :
    Closed (contentsModel Ptr ρ engine)
      (Scalar.view : Contents engine → Option (Scalar engine)) Scalar.contents where
  embedded := fun _ _ viewed => Scalar.view_contents viewed
  computed := by
    intro opcode context operands params fparams success
    have failing {value : Contents engine} (refused : ((-1 : Int), value).1 = 0) :
        (Scalar.view value).isSome := by
      have negative : (-1 : Int) = 0 := refused
      omega
    have one (op : Contents engine → Int × Contents engine)
        (stays : ∀ a : Scalar engine, (op a.contents).1 = 0 →
          (Scalar.view (op a.contents).2).isSome)
        (zero : (onOne (fun slot => (operands slot).map Scalar.contents) op).1 = 0) :
        (Scalar.view (onOne (fun slot => (operands slot).map Scalar.contents) op).2).isSome := by
      cases left : operands 0 with
      | none =>
          simp only [onOne, left, Option.map_none] at zero
          exact failing zero
      | some a =>
          simp only [onOne, left, Option.map_some] at zero ⊢
          exact stays a zero
    have pair (op : Contents engine → Contents engine → Int × Contents engine)
        (stays : ∀ a b : Scalar engine, (op a.contents b.contents).1 = 0 →
          (Scalar.view (op a.contents b.contents).2).isSome)
        (zero : (onPair (fun slot => (operands slot).map Scalar.contents) op).1 = 0) :
        (Scalar.view (onPair (fun slot => (operands slot).map Scalar.contents) op).2).isSome := by
      cases left : operands 0 with
      | none =>
          simp only [onPair, left, Option.map_none] at zero
          exact failing zero
      | some a =>
          cases right : operands 1 with
          | none =>
              simp only [onPair, left, right, Option.map_some, Option.map_none] at zero
              exact failing zero
          | some b =>
              simp only [onPair, left, right, Option.map_some] at zero ⊢
              exact stays a b zero
    have paired (op : Knowledge engine → Knowledge engine → Knowledge engine)
        (a b : Scalar engine) :
        (Scalar.view (pairwise op a.contents b.contents).2).isSome := by
      rw [Scalar.pairwise_contents]
      rfl
    have passes (a : Scalar engine) (zero : (passed a.contents).1 = 0) :
        (Scalar.view (passed a.contents).2).isSome := by
      cases a with
      | empty => exact failing zero
      | ciphertext known => rfl
    have turns (a : Scalar engine) (zero : (rotation (params 0) a.contents).1 = 0) :
        (Scalar.view (rotation (params 0) a.contents).2).isSome := by
      cases a <;> exact failing zero
    have fused (a b : Scalar engine)
        (zero : (rotatedSum (params 0) a.contents b.contents).1 = 0) :
        (Scalar.view (rotatedSum (params 0) a.contents b.contents).2).isSome := by
      cases a <;> exact failing zero
    cases opcode with
    | addCC | multCC | hmult => exact pair _ (fun a b _ => paired _ a b) success
    | subCC => exact pair _ (fun a b _ => rfl) success
    | hrotAdd => exact pair _ fused success
    | addCS | multCS | negate => exact one _ (fun a _ => rfl) success
    | relinearize | rescale => exact one _ passes success
    | rotate => exact one _ turns success
    | _ => exact failing success

theorem scalar_kernel_law (works : Workable draw engine) :
    KernelLaw (scalarModel Ptr ρ engine) (trackedTable draw engine) :=
  restrict_kernel_law (contents_kernel_law works) scalars_closed

theorem scalar_cell {world : Tracked Ptr ρ engine} {buffer : Ptr} {cell : Cell (Scalar engine)}
    (live : (scalarModel Ptr ρ engine).cell world buffer = some cell) :
    buffer ∈ world.device.live ∧ cell.resident = true ∧
      world.known buffer = cell.contents.contents := by
  obtain ⟨contents, whole, viewed⟩ := restrict_cell live
  by_cases member : buffer ∈ world.device.live
  · rw [contents_cell member, Option.some.injEq, Cell.mk.injEq] at whole
    rw [whole.2]
    exact ⟨member, whole.1.symm, Scalar.view_contents viewed⟩
  · rw [contents_dead member] at whole
    cases whole

theorem scalar_hook_laws {fresh : Finset Ptr → Ptr} (pointers : FreshPointers fresh) :
    HookLaws (scalarModel Ptr ρ engine) (trackedHooks engine fresh) (trackedAlloc engine fresh)
      (trackedFree engine) where
  allocHook := rfl
  freeHook := rfl
  paired := by
    intro impossible
    cases impossible
  allocated := by
    intro world
    refine ⟨fresh world.device.live, .empty, rfl, ?_, ?_, rfl⟩
    · simp only [scalarModel, restrict, contents_dead (pointers _), Option.bind_none]
    · intro buffer
      simp only [scalarModel, restrict, tracked_allocated]
      by_cases same : buffer = fresh world.device.live
      · rw [if_pos same, if_pos same]
        rfl
      · rw [if_neg same, if_neg same]
  freed := by
    intro world buffer cell live
    refine ⟨fun other => ?_, rfl⟩
    simp only [scalarModel, restrict, tracked_freed]
    by_cases same : other = buffer
    · rw [if_pos same, if_pos same, Option.bind_none]
    · rw [if_neg same, if_neg same]
  evicted := by
    intro evict impossible
    cases impossible
  prefetched := by
    intro prefetch impossible
    cases impossible

omit [DecidableEq Ptr] in
/-- A registered opcode is dispatched to its kernel. -/
theorem direct_computes {σ V κ : Type*} {model : DeviceModel Ptr σ V κ} {dispatch : Dispatch Ptr σ}
    {inst : FhnInstruction} {state : ValueState V κ} {value : V} {context : κ}
    (registered : supports dispatch inst.opcode = true)
    (computed : model.apply inst.opcode state.context
      (fun slot => if inst.operands slot ≠ 0 then state.values (inst.operands slot) else none)
      inst.params inst.fparams = (0, value, context)) :
    Computes model dispatch inst state value := by
  have operands : (fun slot => (((directCall inst).operands slot).id? inst).bind state.values) =
      fun slot => if inst.operands slot ≠ 0 then state.values (inst.operands slot) else none := by
    funext slot
    by_cases used : inst.operands slot = 0
    · simp [directCall, used, Slot.id?]
    · simp [directCall, used, Slot.id?]
  have called : valueCall model inst (directCall inst) state =
      (0, { context := context
            values := Function.update state.values inst.resultId (some value) }) := by
    rw [valueCall, operands]
    simp only [directCall, computed]
  have ran : valueInstruction model dispatch inst state =
      (0, { context := context
            values := Function.update state.values inst.resultId (some value) }) := by
    rw [valueInstruction, kernelCalls, if_pos registered]
    simp [valueCalls, called, dispatchCode, registered]
  rw [Computes, ran]
  exact ⟨rfl, Function.update_self _ _ _⟩

theorem plain_integer (engine : Engine) (scalar : Int) :
    plainScalar engine scalar = literal engine scalar := by
  simp [plainScalar]

theorem scalar_exact_kernels :
    ExactKernels (scalarModel Ptr ρ engine)
      (trackedTable draw engine : Dispatch Ptr (Tracked Ptr ρ engine)) where
  addCC := by
    intro inst state first second opcode one two
    apply direct_computes (by rw [opcode]; rfl)
    simp only [scalarModel, restrict, contentsModel, opcode, applyContents, onPair, one.1, one.2,
      two.1, two.2, ne_eq, not_false_eq_true, if_true, Option.map_some, Scalar.pairwise_contents]
    rfl
  hmult := by
    intro inst state first second opcode one two
    apply direct_computes (by rw [opcode]; rfl)
    simp only [scalarModel, restrict, contentsModel, opcode, applyContents, onPair, one.1, one.2,
      two.1, two.2, ne_eq, not_false_eq_true, if_true, Option.map_some, Scalar.pairwise_contents]
    rfl
  addCS := by
    intro inst state first scalar opcode one folded
    apply direct_computes (by rw [opcode]; rfl)
    simp only [scalarModel, restrict, contentsModel, opcode, applyContents, onOne, one.1, one.2,
      folded, plain_integer, ne_eq, not_false_eq_true, if_true, Option.map_some,
      Scalar.scalar_contents]
    rfl
  multCS := by
    intro inst state first scalar opcode one folded
    apply direct_computes (by rw [opcode]; rfl)
    simp only [scalarModel, restrict, contentsModel, opcode, applyContents, onOne, one.1, one.2,
      folded, plain_integer, ne_eq, not_false_eq_true, if_true, Option.map_some,
      Scalar.scalar_contents]
    rfl

end Laws

end Fhenomenon.CertifiedScalars
