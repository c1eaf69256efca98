import Fhenomenon.ExecutorLocality
import Fhenomenon.GraphSimulation
import Fhenomenon.PlanAcceptance
import Fhenomenon.SessionWorld
import Fhenomenon.WriteBack

/-!
# A run has the meaning of its recording

Graph, lowering, plan, execution and write-back together leave every entity
with the value it has after the recorded operations run one by one.
-/

namespace Fhenomenon.SessionRefinement

open Fhenomenon.InstructionStream Fhenomenon.MovementPlanner Fhenomenon.PlanAcceptance
open Fhenomenon.PlanLegality Fhenomenon.DefaultExecutor Fhenomenon.DeviceAbi
open Fhenomenon.ProgramRefinement Fhenomenon.PlanAwareRefinement Fhenomenon.ExecutorLocality
open Fhenomenon.RecordedGraph Fhenomenon.Lowering Fhenomenon.LoweringSound
open Fhenomenon.RecordedMeaning Fhenomenon.GraphSimulation Fhenomenon.SessionRuntime
open Fhenomenon.WriteBack

variable {Entity Ptr σ V κ : Type*}

/-- The contents of the buffer that an entity's ciphertext owns. -/
def heldValue (model : DeviceModel Ptr σ V κ) (world : σ) (entity : Fhenon Ptr) : Option V :=
  if entity.isEncrypted then
    entity.ciphertext.bind fun ciphertext => ciphertext.buffer.raw.bind (model.contents world)
  else none

/-- The entity holds a ciphertext of this backend whose live buffer, on the device
when there is no prefetch hook, contains `value`. -/
def Supplies (model : DeviceModel Ptr σ V κ) (hooks : FhnMovementHooks Ptr σ) (backend : Nat)
    (world : σ) (entity : Fhenon Ptr) (value : V) : Prop :=
  ∃ ciphertext buffer cell, Encrypted backend entity ciphertext ∧
    ciphertext.buffer.raw = some buffer ∧ model.cell world buffer = some cell ∧
      cell.contents = value ∧ (hooks.prefetch = none → cell.resident = true)

theorem supplies_value {model : DeviceModel Ptr σ V κ} {hooks : FhnMovementHooks Ptr σ}
    {backend : Nat} {world : σ} {entity : Fhenon Ptr} {value : V}
    (supplies : Supplies model hooks backend world entity value) :
    heldValue model world entity = some value := by
  obtain ⟨ciphertext, buffer, cell, encrypted, raw, live, rfl, -⟩ := supplies
  rw [heldValue, if_pos encrypted.flag, encrypted.stored, Option.bind_some, raw, Option.bind_some,
    DeviceModel.contents, live, Option.map_some]

theorem supplied_kept {model : DeviceModel Ptr σ V κ} {hooks : FhnMovementHooks Ptr σ}
    {backend : Nat} {world last : σ} {entity : Fhenon Ptr} {value : V}
    (kept : ∀ buffer cell, model.cell world buffer = some cell →
      (hooks.prefetch = none → cell.resident = true) →
        model.contents last buffer = some cell.contents)
    (supplies : Supplies model hooks backend world entity value) :
    heldValue model last entity = some value := by
  obtain ⟨ciphertext, buffer, cell, encrypted, raw, live, rfl, device⟩ := supplies
  rw [heldValue, if_pos encrypted.flag, encrypted.stored, Option.bind_some, raw, Option.bind_some,
    kept buffer cell live device]

variable [Add V] [Mul V] [IntCast V]
  {model : DeviceModel Ptr σ V κ} {hooks : FhnMovementHooks Ptr σ}
  {alloc : σ → Option Ptr × σ} {free : Option Ptr → σ → σ} {dispatch : Dispatch Ptr σ}
  {backend : Nat} {world : σ} {entities : Entity → Fhenon Ptr} {initial : Entity → V}

/-- A lowered program, pinned and provisioned as the session does. -/
structure Provisioned (model : DeviceModel Ptr σ V κ) (hooks : FhnMovementHooks Ptr σ)
    (world : σ) (program : FhnProgram) (plan : FhnMovementPlan) (pinned : List Nat)
    (meaning : Nat → V) (hold : Nat → SharedBuffer Ptr) : Prop where
  valid : SsaValid program
  version : program.version = fhnAbiVersion
  solves : ∀ inst ∈ program.instructions, Solves meaning inst
  analyzed : analyze program pinned 0 .belady none = some plan
  inputsPinned : ∀ id ∈ program.inputIds, id ∈ pinned
  held : ∀ id ∈ program.inputIds, ∃ buffer cell, (hold id).raw = some buffer ∧
    model.cell world buffer = some cell ∧ cell.contents = meaning id ∧
      (hooks.prefetch = none → cell.resident = true)

variable {program : FhnProgram} {plan : FhnMovementPlan} {pinned : List Nat}
  {meaning : Nat → V} {hold : Nat → SharedBuffer Ptr}

theorem provisioned_keeps (provisioned : Provisioned model hooks world program plan pinned meaning
    hold) (id : Nat) (input : id ∈ program.inputIds) : Kept plan id := by
  have legal := analyze_legal provisioned.analyzed
  intro act member
  constructor
  · rw [analyze_unlimited provisioned.analyzed act member]
    exact List.not_mem_nil
  · exact fun freed => legal.keepsPinned act member id freed (provisioned.inputsPinned id input)

theorem provisioned_inputs (provisioned : Provisioned model hooks world program plan pinned meaning
    hold) : InputsSupplied model hooks program plan (fun id => (hold id).raw) world where
  supplied := by
    intro id input
    obtain ⟨buffer, cell, raw, live, -, device⟩ := provisioned.held id input
    exact ⟨buffer, cell, raw, live, device⟩
  apart := by
    intro first one second two _
    exact Or.inr ⟨provisioned_keeps provisioned first one, provisioned_keeps provisioned second two⟩

/-- The run succeeds, every pinned id holds its meaning, and every buffer that was
live keeps its contents. -/
theorem provisioned_run [DecidableEq Ptr] (hookLaws : HookLaws model hooks alloc free)
    (kernelLaw : KernelLaw model dispatch) (exact : ExactKernels model dispatch)
    (provisioned : Provisioned model hooks world program plan pinned meaning hold) :
    (execute hooks dispatch program plan (fun id => (hold id).raw) world).1 = 0 ∧
      (∀ id ∈ pinned, id ∈ program.definedIds →
        stored model (execute hooks dispatch program plan (fun id => (hold id).raw) world).2.buffers
          (execute hooks dispatch program plan (fun id => (hold id).raw) world).2.world id =
            some (meaning id)) ∧
      ∀ buffer cell, model.cell world buffer = some cell →
        (hooks.prefetch = none → cell.resident = true) →
          model.contents (execute hooks dispatch program plan (fun id => (hold id).raw)
            world).2.world buffer = some cell.contents := by
  have legal := analyze_legal provisioned.analyzed
  have present : OperandsPresent program := fun inst member =>
    solves_present (provisioned.solves inst member)
  have inputs := provisioned_inputs provisioned
  have start : ∀ id ∈ program.definedBefore 0,
      (inputValues model program (fun id => (hold id).raw) world).values id =
        some (meaning id) := by
    intro id member
    have input : id ∈ program.inputIds := by simpa [FhnProgram.definedBefore] using member
    obtain ⟨buffer, cell, raw, live, contents, -⟩ := provisioned.held id input
    simp only [inputValues, if_pos input, stored, raw, Option.bind_some, DeviceModel.contents, live,
      Option.map_some, contents]
  obtain ⟨computed, values⟩ := solved_values exact provisioned.valid provisioned.solves
    program.instructions.length 0 (Nat.zero_add _) _ start
  rw [List.drop_zero] at computed values
  obtain ⟨code, kept⟩ := plan_aware_computes legal present hookLaws kernelLaw provisioned.version
    (fun id => (hold id).raw) world inputs
  have success := code.trans computed
  refine ⟨success, ?_, ?_⟩
  · intro id isPinned defined
    obtain ⟨value, known, holds⟩ := kept success id isPinned defined
    rw [values id defined, Option.some.injEq] at known
    rw [holds, known]
  · intro buffer cell live device
    exact live_buffers_kept legal (provisioned_keeps provisioned) present hookLaws kernelLaw
      provisioned.version (fun id => (hold id).raw) world inputs buffer cell live device success

variable [DecidableEq Entity] {operations : List (Operation Entity)} {made : BuildState Entity}
  {added : List (ASTNode Entity)}

theorem recording_provisioned {supplied : Entity → Prop} {build : BuildState Entity}
    {state : LoweringState Entity} {store : Entity → V}
    (simulates : Simulates entities supplied initial build state meaning store)
    (supplies : ∀ entity, supplied entity →
      Supplies model hooks backend world (entities entity) (initial entity))
    (program : FhnProgram) (outputIds : List Nat) (made : state.toProgram outputIds = program) :
    ∃ plan hold,
      holdInputs backend entities program.inputIds state.bindings (fun _ => {}) = .ok hold ∧
        (∀ id, id ∉ program.inputIds → hold id = {}) ∧
        (∀ id ∈ program.inputIds, ∃ entity, supplied entity ∧ meaning id = initial entity ∧
          ∃ ciphertext, Encrypted backend (entities entity) ciphertext ∧
            hold id = ciphertext.buffer) ∧
        Provisioned model hooks world program plan
          (program.inputIds ++ (latestBindings state.bindings).map (·.2)) meaning hold := by
  subst made
  have valid : SsaValid (state.toProgram outputIds) :=
    ⟨simulates.lowered.valid.nonzero, simulates.lowered.valid.nodup,
      simulates.lowered.valid.operandsDefined⟩
  obtain ⟨plan, analyzed⟩ := analyze_unlimited_accepts (state.toProgram outputIds)
    (state.inputs ++ (latestBindings state.bindings).map (·.2)) .belady valid
  obtain ⟨hold, held, provides, empty⟩ := hold_inputs_provides backend entities state.inputs
    state.bindings (fun _ => {}) (by
      intro id input _
      obtain ⟨entity, first, source, -⟩ := simulates.inputs id input
      obtain ⟨ciphertext, -, -, encrypted, -⟩ := supplies entity source
      exact ⟨_, entity, ciphertext, first, encrypted, rfl⟩)
  have sources : ∀ id ∈ state.inputs, ∃ entity, supplied entity ∧ meaning id = initial entity ∧
      ∃ ciphertext, Encrypted backend (entities entity) ciphertext ∧
        hold id = ciphertext.buffer := by
    intro id input
    obtain ⟨entity, ciphertext, first, encrypted, same⟩ := provides id input rfl
    obtain ⟨source, sourceFirst, sourceSupplied, meant⟩ := simulates.inputs id input
    rw [first, Option.some.injEq, Option.some.injEq] at sourceFirst
    subst sourceFirst
    exact ⟨entity, sourceSupplied, meant, ciphertext, encrypted, same⟩
  refine ⟨plan, hold, held, fun id outside => empty id (Or.inl outside), sources, ?_⟩
  constructor
  · exact valid
  · rfl
  · exact simulates.lowered.solves
  · exact analyzed
  · exact fun id input => List.mem_append_left _ input
  · intro id input
    obtain ⟨entity, source, meant, ciphertext, encrypted, same⟩ := sources id input
    obtain ⟨other, buffer, cell, otherEncrypted, raw, live, contents, device⟩ :=
      supplies entity source
    have equal : other = ciphertext :=
      Option.some.inj (otherEncrypted.stored.symm.trans encrypted.stored)
    refine ⟨buffer, cell, ?_, live, contents.trans meant.symm, device⟩
    rw [same, ← equal, raw]

/-- What executing the graph of a recording leaves in every entity. -/
theorem runtime_computes [DecidableEq Ptr] (hookLaws : HookLaws model hooks alloc free)
    (kernelLaw : KernelLaw model dispatch) (exact : ExactKernels model dispatch)
    (nonempty : operations ≠ []) {supplied : Entity → Prop}
    (completed : Completed entities supplied initial operations {} made {} added meaning initial)
    (supplies : ∀ entity, supplied entity →
      Supplies model hooks backend world (entities entity) (initial entity))
    (nextControl : Nat) :
    ∃ final, executeThroughFhnRuntime backend hooks dispatch added
        { entities := entities, nextControl := nextControl, world := world } = (.ok true, final) ∧
      ∀ entity, supplied entity ∨ entity ∈ produced operations →
        heldValue model final.world (final.entities entity) =
          some (runOperations operations initial entity) := by
  have simulates := completed.simulates
  generalize stateEq : lowerRoots entities added {} = state at simulates
  generalize programEq : state.toProgram (added.filterMap (fun root =>
    state.nodeIds root.address)) = program
  have lowered : lower entities added = (some program, state.bindings) := by
    simp only [lower, stateEq, simulates.lowered.supported, if_true, programEq]
  have defined : program.definedIds = state.program.definedIds := by
    rw [← programEq]
    rfl
  obtain ⟨plan, hold, held, outside, sources, provisioned⟩ :=
    recording_provisioned simulates supplies program _ programEq
  obtain ⟨success, computed, kept⟩ := provisioned_run hookLaws kernelLaw exact provisioned
  have bound : state.bindings ≠ [] := by
    obtain ⟨entity, mapped⟩ := completed.touches nonempty
    obtain ⟨node, mapped⟩ := Option.isSome_iff_exists.mp mapped
    have latest := simulates.bound entity node mapped
    intro empty
    rw [empty] at latest
    cases latest
  have encrypted : program.inputIds.any (fun id => (hold id).raw.isNone) = false := by
    rw [List.any_eq_false]
    intro id input
    obtain ⟨buffer, cell, raw, -⟩ := provisioned.held id input
    simp [raw]
  generalize outcomeEq : execute hooks dispatch program plan (fun id => (hold id).raw) world =
    outcome at success computed kept
  generalize writtenEq : writeBack backend hold outcome.2.buffers (latestBindings state.bindings)
    entities { nextControl := nextControl } = written
  have ran : executeThroughFhnRuntime backend hooks dispatch added
      { entities := entities, nextControl := nextControl, world := world } =
        (.ok true,
          { entities := written.1
            nextControl := written.2.nextControl
            world := outcome.2.world }) := by
    simp only [executeThroughFhnRuntime, lowered, List.isEmpty_iff, bound, if_false,
      provisioned.analyzed, held, encrypted, Bool.false_eq_true, outcomeEq, success, ne_eq,
      not_true_eq_false, writtenEq]
  refine ⟨_, ran, ?_⟩
  intro entity held
  simp only [← writtenEq]
  cases latest : latestId state.bindings entity with
  | none =>
      have unmapped : made.entityToNode entity = none := by
        cases found : made.entityToNode entity with
        | none => rfl
        | some node =>
            have bound := simulates.bound entity node found
            rw [latest] at bound
            cases bound
      have available : supplied entity := by
        rcases held with available | created
        · exact available
        · have mapped := completed.creates entity created
          rw [unmapped] at mapped
          cases mapped
      have absent : entity ∉ (latestBindings state.bindings).map (·.1) := by
        intro member
        obtain ⟨⟨other, id⟩, bound, rfl⟩ := List.mem_map.mp member
        rw [mem_latest_bindings, latest] at bound
        cases bound
      rw [write_back_other _ _ _ _ _ _ entity absent, simulates.unmapped entity unmapped]
      exact supplied_kept kept (supplies entity available)
  | some id =>
      obtain ⟨ciphertext, record, -, raw⟩ := write_back_bound backend hold outcome.2.buffers
        (latestBindings state.bindings) entities { nextControl := nextControl }
        (fun _ adopted => by cases adopted) (latest_bindings_nodup _) entity id
        ((mem_latest_bindings _ _ _).mpr latest)
      rw [record, ← simulates.latest entity id latest]
      rw [heldValue, if_pos rfl, Option.bind_some, raw, finalBuffer]
      by_cases input : id ∈ program.inputIds
      · obtain ⟨source, available, meant, owned, encryptedSource, same⟩ := sources id input
        have held := supplied_kept kept (supplies source available)
        rw [heldValue, if_pos encryptedSource.flag, encryptedSource.stored, Option.bind_some]
          at held
        rw [same, if_pos encryptedSource.buffer, meant]
        exact held
      · rw [outside id input]
        have isPinned : id ∈ program.inputIds ++ (latestBindings state.bindings).map (·.2) :=
          List.mem_append_right _ (List.mem_map.mpr
            ⟨(entity, id), (mem_latest_bindings _ _ _).mpr latest, rfl⟩)
        exact computed id isPinned (defined ▸ latest_defined simulates.lowered latest)

/-- Recording by recording: what `optimize` leaves in every entity that the caller
supplies or an operation creates. -/
theorem optimize_computes [DecidableEq Ptr] (hookLaws : HookLaws model hooks alloc free)
    (kernelLaw : KernelLaw model dispatch) (exact : ExactKernels model dispatch)
    (recorded : Recorded entities operations) (scalars : ScalarsHold entities initial)
    {supplied : Entity → Prop}
    (mentioned : ∀ entity, Mentions operations entity → entity ∉ produced operations →
      supplied entity)
    (supplies : ∀ entity, supplied entity →
      Supplies model hooks backend world (entities entity) (initial entity))
    (nextControl : Nat) :
    ∃ final, optimize backend hooks dispatch none operations
        { entities := entities, nextControl := nextControl, world := world } = (.ok true, final) ∧
      ∀ entity, supplied entity ∨ entity ∈ produced operations →
        heldValue model final.world (final.entities entity) =
          some (runOperations operations initial entity) := by
  by_cases empty : operations = []
  · subst empty
    refine ⟨_, rfl, ?_⟩
    intro entity held
    rcases held with available | created
    · exact supplies_value (supplies entity available)
    · cases created
  · have started : Simulates entities supplied initial {} ({} : LoweringState Entity)
        (fun _ => ((0 : Int) : V)) initial := simulates_start initial _
    obtain ⟨made, added, meaning, completed⟩ := operations_advance operations recorded scalars
      started
      (fun entity member _ unproduced => mentioned entity member unproduced)
    obtain ⟨final, ran, values⟩ := runtime_computes hookLaws kernelLaw exact empty completed
      supplies nextControl
    refine ⟨final, ?_, values⟩
    have built : buildAST entities operations = .ok added := by
      rw [buildAST, completed.built]
      exact congrArg Except.ok completed.roots
    simp only [optimize, List.isEmpty_iff, empty, if_false, built]
    exact ran

/-- A session run gives every entity the value that its recorded operations,
executed one by one on a store, give it. -/
theorem session_preserves_meaning [DecidableEq Ptr] (operations : List (Operation Entity))
    (entities : Entity → Fhenon Ptr) (recorded : Recorded entities operations)
    (model : DeviceModel Ptr σ V κ) (hooks : FhnMovementHooks Ptr σ)
    (alloc : σ → Option Ptr × σ) (free : Option Ptr → σ → σ) (dispatch : Dispatch Ptr σ)
    (hookLaws : HookLaws model hooks alloc free) (kernelLaw : KernelLaw model dispatch)
    (exact : ExactKernels model dispatch) (backend nextControl : Nat) (world : σ)
    (initial : Entity → V) (scalars : ScalarsHold entities initial)
    (supplies : ∀ entity, entity ∉ produced operations →
      Supplies model hooks backend world (entities entity) (initial entity)) :
    ∃ final, optimize backend hooks dispatch none operations
        { entities := entities, nextControl := nextControl, world := world } = (.ok true, final) ∧
      ∀ entity, heldValue model final.world (final.entities entity) =
        some (runOperations operations initial entity) := by
  obtain ⟨final, ran, values⟩ := optimize_computes hookLaws kernelLaw exact recorded scalars
    (fun _ _ unproduced => unproduced) supplies nextControl
  refine ⟨final, ran, ?_⟩
  intro entity
  apply values
  by_cases created : entity ∈ produced operations
  · exact Or.inr created
  · exact Or.inl created

section SumAndDouble

open Fhenomenon.MovementWorld Fhenomenon.SessionWorld

def owning (val : Int) (buffer : Nat) : Fhenon Nat where
  val := val
  ciphertext := some { buffer := { raw := some buffer, control := buffer }, owner := 1 }
  isEncrypted := true

/-- Three variables, the literal 2 and two results. -/
def sumEntities : Fin 6 → Fhenon Nat :=
  ![owning 5 0, owning 7 1, owning 9 2, { owning 2 3 with isScalar := true }, { val := 1234 },
    { val := 1234 }]

/-- `c = a + b; a = c * 2` -/
def sumAndDouble : List (Operation (Fin 6)) :=
  [{ type := .add, operand1 := 0, operand2 := 1, result := some 4 },
    { type := .assignment, operand1 := 2, operand2 := 4 },
    { type := .multiply, operand1 := 2, operand2 := 3, result := some 5 },
    { type := .assignment, operand1 := 0, operand2 := 5 }]

def sumWorld : World := [some ⟨true, 5⟩, some ⟨false, 7⟩, some ⟨true, 9⟩, some ⟨true, 2⟩]

theorem sum_recorded : Recorded sumEntities sumAndDouble where
  kinds := by
    intro operation member
    simp only [sumAndDouble, List.mem_cons, List.not_mem_nil, or_false] at member
    rcases member with rfl | rfl | rfl | rfl
    · exact Or.inr ⟨Or.inl rfl, rfl⟩
    · exact Or.inl ⟨rfl, rfl⟩
    · exact Or.inr ⟨Or.inr rfl, rfl⟩
    · exact Or.inl ⟨rfl, rfl⟩
  fresh := by
    simp only [sumAndDouble, FreshResults]
    decide
  scalarsSecond := by
    intro operation member
    simp only [sumAndDouble, List.mem_cons, List.not_mem_nil, or_false] at member
    rcases member with rfl | rfl | rfl | rfl <;>
      simp [sumEntities, owning]

theorem sum_supplied (entity : Fin 6) (unproduced : entity ∉ produced sumAndDouble) :
    Supplies exactModel movementHooks 1 sumWorld (sumEntities entity)
      (![5, 7, 9, 2, 0, 0] entity) := by
  fin_cases entity
  · exact ⟨_, 0, ⟨true, 5⟩, ⟨rfl, rfl, rfl, rfl⟩, rfl, rfl, rfl, fun _ => rfl⟩
  · exact ⟨_, 1, ⟨false, 7⟩, ⟨rfl, rfl, rfl, rfl⟩, rfl, rfl, rfl, fun absent => by cases absent⟩
  · exact ⟨_, 2, ⟨true, 9⟩, ⟨rfl, rfl, rfl, rfl⟩, rfl, rfl, rfl, fun _ => rfl⟩
  · exact ⟨_, 3, ⟨true, 2⟩, ⟨rfl, rfl, rfl, rfl⟩, rfl, rfl, rfl, fun _ => rfl⟩
  · exact absurd (by decide) unproduced
  · exact absurd (by decide) unproduced

theorem sum_and_double_run :
    ∃ final, optimize 1 movementHooks exactTable none sumAndDouble
        { entities := sumEntities, nextControl := 4, world := sumWorld } = (.ok true, final) ∧
      heldValue exactModel final.world (final.entities 0) = some 24 ∧
      heldValue exactModel final.world (final.entities 2) = some 12 := by
  obtain ⟨final, ran, values⟩ := session_preserves_meaning sumAndDouble sumEntities sum_recorded
    exactModel movementHooks movementAlloc movementFree exactTable exact_hook_laws
    exact_kernel_law exact_kernels 1 4 sumWorld ![5, 7, 9, 2, 0, 0]
    (by intro entity scalar; fin_cases entity <;> first | rfl | cases scalar) sum_supplied
  exact ⟨final, ran, values 0, values 2⟩

end SumAndDouble

end Fhenomenon.SessionRefinement
