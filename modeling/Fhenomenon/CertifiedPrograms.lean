import Fhenomenon.PlanAwareRefinement
import Fhenomenon.TrackedDevice

/-!
# Programs over certified buffers

The whole run of a program as it is known in advance: from what is known of its
inputs follow the code that it returns and what is known of each result. The
executors run over any part of the ToyFHE table, scalars and vectors alike.
-/

namespace Fhenomenon.CertifiedPrograms

open Fhenomenon.InstructionStream Fhenomenon.MovementPlanner Fhenomenon.DefaultExecutor
open Fhenomenon.DispatchRecipes Fhenomenon.DeviceAbi Fhenomenon.PlanSoundness
open Fhenomenon.PlanLegality Fhenomenon.ProgramRefinement Fhenomenon.PlanAwareRefinement
open Fhenomenon.ToyFhe Fhenomenon.ToyFheNoise Fhenomenon.ToyFheKernels
open Fhenomenon.FusedDispatch Fhenomenon.KernelContracts Fhenomenon.ToyFheExecution
open Fhenomenon.ExecutorErasure
open Fhenomenon.CertifiedNoise Fhenomenon.CertifiedContents Fhenomenon.TrackedDevice

section Filtered

variable {Ptr σ τ : Type*} {keep : FhnOpCode → Bool}

/-- A host-side copy of a kernel table without the opcodes that are not kept. -/
def filteredEntries (keep : FhnOpCode → Bool) (entries : List (FhnKernelEntry Ptr σ)) :
    List (FhnKernelEntry Ptr σ) :=
  entries.filter fun entry => keep entry.opcode

def filtered (keep : FhnOpCode → Bool) (dispatch : Dispatch Ptr σ) : Dispatch Ptr σ :=
  fun opcode => if keep opcode then dispatch opcode else none

theorem table_append (entries : List (FhnKernelEntry Ptr σ)) (last : FhnKernelEntry Ptr σ)
    (opcode : FhnOpCode) :
    dispatchTable (entries ++ [last]) opcode =
      if opcode = last.opcode ∧ last.fn.isSome then last.fn else dispatchTable entries opcode := by
  simp only [dispatchTable, List.foldl_append, List.foldl_cons, List.foldl_nil]
  cases last.fn with
  | none => simp
  | some fn => simp [Function.update_apply]

theorem filtered_entries_table (keep : FhnOpCode → Bool) (entries : List (FhnKernelEntry Ptr σ)) :
    dispatchTable (filteredEntries keep entries) = filtered keep (dispatchTable entries) := by
  funext opcode
  induction entries using List.reverseRecOn with
  | nil => simp [filteredEntries, filtered, dispatchTable]
  | append_singleton earlier last induction =>
      simp only [filteredEntries, filtered] at induction
      simp only [filteredEntries, filtered, List.filter_append, table_append]
      by_cases kept : keep last.opcode = true
      · simp only [List.filter_cons, List.filter_nil, kept, if_true, table_append, induction]
        by_cases same : opcode = last.opcode
        · simp [same, kept]
        · simp [same]
      · simp only [List.filter_cons, List.filter_nil, if_neg kept, List.append_nil]
        rw [induction]
        by_cases same : opcode = last.opcode
        · simp [same, kept]
        · simp [same]

theorem filtered_kernel_law {V κ : Type*} [DecidableEq Ptr] {model : DeviceModel Ptr σ V κ}
    {dispatch : Dispatch Ptr σ} (law : KernelLaw model dispatch) (keep : FhnOpCode → Bool) :
    KernelLaw model (filtered keep dispatch) := by
  intro opcode fn registered
  rw [filtered] at registered
  split at registered
  · exact law opcode fn registered
  · cases registered

theorem filtered_erases {forget : σ → τ} {rich : Dispatch Ptr σ} {plain : Dispatch Ptr τ}
    (table : TableErases forget rich plain) (keep : FhnOpCode → Bool) :
    TableErases forget (filtered keep rich) (filtered keep plain) := by
  intro opcode
  simp only [filtered]
  split
  · exact table opcode
  · exact .none

end Filtered

section Foretelling

variable {Ptr σ Other τ V κ : Type*}

theorem value_program_congr {model : DeviceModel Ptr σ V κ} {other : DeviceModel Other τ V κ}
    {dispatch : Dispatch Ptr σ} {table : Dispatch Other τ} (same : model.apply = other.apply)
    (supported : supports dispatch = supports table) (insts : List FhnInstruction)
    (state : ValueState V κ) :
    valueProgram model dispatch insts state = valueProgram other table insts state := by
  have called (inst : FhnInstruction) (kernel : KernelCall) (state : ValueState V κ) :
      valueCall model inst kernel state = valueCall other inst kernel state := by
    rw [valueCall, valueCall, same]
  have calls (inst : FhnInstruction) (kernels : List KernelCall) (state : ValueState V κ) :
      valueCalls model inst kernels state = valueCalls other inst kernels state := by
    induction kernels generalizing state with
    | nil => rfl
    | cons kernel rest induction => rw [valueCalls, valueCalls, called, induction]
  have instruction (inst : FhnInstruction) (state : ValueState V κ) :
      valueInstruction model dispatch inst state = valueInstruction other table inst state := by
    have kernels : kernelCalls dispatch inst = kernelCalls table inst := by
      rw [kernelCalls, kernelCalls, supported]
    have code (rc : Int) : dispatchCode dispatch inst rc = dispatchCode table inst rc := by
      rw [dispatchCode, dispatchCode, supported]
    rw [valueInstruction, valueInstruction, kernels, calls]
    simp only [code]
  induction insts generalizing state with
  | nil => rfl
  | cons inst rest induction => rw [valueProgram, valueProgram, instruction, induction]

/-- A table of the registered opcodes, which nothing calls. -/
def registering (registered : FhnOpCode → Bool) : Dispatch Ptr σ := fun opcode =>
  if registered opcode then some fun _ _ _ _ world => (0, world) else none

theorem registering_supports (registered : FhnOpCode → Bool) :
    supports (registering registered : Dispatch Ptr σ) = registered := by
  funext opcode
  simp only [supports, registering]
  cases registered opcode <;> rfl

/-- The code of the instructions and what is known of each id after them. -/
def foretell (engine : Engine) (registered : FhnOpCode → Bool) (insts : List FhnInstruction)
    (known : Nat → Option (Contents engine)) : Int × (Nat → Option (Contents engine)) :=
  let outcome := valueProgram (contentsModel Unit Unit engine) (registering registered) insts
    { context := (), values := known }
  (outcome.1, outcome.2.values)

end Foretelling

def toyfheRegisters (opcode : FhnOpCode) : Bool :=
  opcode ∈ [FhnOpCode.addCC, .addCS, .subCC, .negate, .multCC, .multCS, .relinearize, .rescale,
    .rotate, .hmult, .hrotAdd]

theorem toyfhe_supports {Ptr ρ : Type*} [DecidableEq Ptr] (draw : Int → Int → ρ → Int × ρ)
    (engine : Engine) (opcode : FhnOpCode) :
    supports (toyfheTable draw engine : Dispatch Ptr (Device Ptr ρ)) opcode =
      toyfheRegisters opcode := by
  cases opcode <;> rfl

section Runs

variable {Ptr ρ : Type*} [DecidableEq Ptr] {draw : Int → Int → ρ → Int × ρ} {engine : Engine}
  {keep : FhnOpCode → Bool} {program : FhnProgram} {buffers : Buffers Ptr}

def knownInputs (program : FhnProgram) (buffers : Buffers Ptr) (known : Ptr → Contents engine) :
    Nat → Option (Contents engine) :=
  fun id => if id ∈ program.inputIds then (buffers id).map known else none

/-- Every id has a live buffer, and a result has its own. -/
structure Provided (program : FhnProgram) (buffers : Buffers Ptr) (live : Finset Ptr) : Prop where
  live : ∀ id ∈ program.definedIds, ∃ buffer ∈ live, buffers id = some buffer
  apart : ∀ id ∈ program.definedIds, ∀ result ∈ program.resultIds,
    buffers id = buffers result → id = result

theorem known_live {world : Tracked Ptr ρ engine} {buffer : Ptr} {contents : Contents engine}
    (held : (contentsModel Ptr ρ engine).contents world buffer = some contents) :
    buffer ∈ world.device.live ∧ world.known buffer = contents := by
  by_cases live : buffer ∈ world.device.live
  · rw [TrackedDevice.contents_live live, Option.some.injEq] at held
    exact ⟨live, held⟩
  · rw [DeviceModel.contents, contents_dead live] at held
    cases held

theorem stored_known {world : Tracked Ptr ρ engine} {id : Nat} {contents : Contents engine}
    (held : stored (contentsModel Ptr ρ engine) buffers world id = some contents) :
    ∃ buffer ∈ world.device.live, buffers id = some buffer ∧ world.known buffer = contents := by
  obtain ⟨buffer, found, inside⟩ := Option.bind_eq_some_iff.mp held
  obtain ⟨live, known⟩ := known_live inside
  exact ⟨buffer, live, found, known⟩

theorem input_values_known (world : Tracked Ptr ρ engine)
    (supplied : ∀ id ∈ program.inputIds, ∃ buffer ∈ world.device.live, buffers id = some buffer) :
    inputValues (contentsModel Ptr ρ engine) program buffers world =
      { context := (), values := knownInputs program buffers world.known } := by
  have values (id : Nat) :
      (inputValues (contentsModel Ptr ρ engine) program buffers world).values id =
        knownInputs program buffers world.known id := by
    simp only [inputValues, knownInputs]
    by_cases input : id ∈ program.inputIds
    · obtain ⟨buffer, live, found⟩ := supplied id input
      rw [if_pos input, if_pos input, stored, found, Option.bind_some, Option.map_some,
        TrackedDevice.contents_live live]
    · rw [if_neg input, if_neg input]
  rw [← funext values]

theorem provided_preallocated {world : Tracked Ptr ρ engine}
    (provided : Provided program buffers world.device.live) :
    Preallocated (contentsModel Ptr ρ engine) program buffers world where
  resident := by
    intro id defined
    obtain ⟨buffer, live, found⟩ := provided.live id defined
    exact ⟨buffer, found, world.known buffer, contents_cell live⟩
  apart := provided.apart

theorem known_inputs_valued (world : Tracked Ptr ρ engine)
    (supplied : ∀ id ∈ program.inputIds, ∃ buffer ∈ world.device.live, buffers id = some buffer) :
    Valued program 0 (inputValues (contentsModel Ptr ρ engine) program buffers world) := by
  intro id
  have start : program.definedBefore 0 = program.inputIds := by simp [FhnProgram.definedBefore]
  rw [start, input_values_known world supplied]
  simp only [knownInputs]
  by_cases input : id ∈ program.inputIds
  · obtain ⟨buffer, live, found⟩ := supplied id input
    simp [input, found]
  · simp [input]

def registers (keep : FhnOpCode → Bool) (opcode : FhnOpCode) : Bool :=
  keep opcode && toyfheRegisters opcode

theorem filtered_supports :
    supports (filtered keep (trackedTable draw engine) : Dispatch Ptr (Tracked Ptr ρ engine)) =
      registers keep := by
  funext opcode
  have erased : supports (toyfheTable draw engine : Dispatch Ptr (Device Ptr ρ)) =
      supports (trackedTable draw engine) := supports_erases tracked_table_erases
  have table : supports (trackedTable draw engine : Dispatch Ptr (Tracked Ptr ρ engine)) opcode =
      toyfheRegisters opcode := by
    rw [← erased, toyfhe_supports]
  simp only [supports, filtered, registers] at table ⊢
  cases keep opcode with
  | false => rfl
  | true => rw [if_pos rfl, table, Bool.true_and]

def foretold (engine : Engine) (keep : FhnOpCode → Bool) (program : FhnProgram)
    (buffers : Buffers Ptr) (known : Ptr → Contents engine) :
    Int × (Nat → Option (Contents engine)) :=
  foretell engine (registers keep) program.instructions (knownInputs program buffers known)

theorem foretold_value (world : Tracked Ptr ρ engine)
    (supplied : ∀ id ∈ program.inputIds, ∃ buffer ∈ world.device.live, buffers id = some buffer) :
    foretold engine keep program buffers world.known =
      ((valueProgram (contentsModel Ptr ρ engine) (filtered keep (trackedTable draw engine))
          program.instructions (inputValues (contentsModel Ptr ρ engine) program buffers world)).1,
        (valueProgram (contentsModel Ptr ρ engine) (filtered keep (trackedTable draw engine))
          program.instructions (inputValues (contentsModel Ptr ρ engine) program buffers
            world)).2.values) := by
  have same (state : ValueState (Contents engine) Unit) :
      valueProgram (contentsModel Ptr ρ engine) (filtered keep (trackedTable draw engine))
          program.instructions state =
        valueProgram (contentsModel Unit Unit engine) (registering (registers keep))
          program.instructions state := by
    have apply : (contentsModel Ptr ρ engine).apply = (contentsModel Unit Unit engine).apply := rfl
    refine value_program_congr apply ?_ program.instructions state
    rw [filtered_supports, registering_supports]
  rw [foretold, foretell, input_values_known world supplied, same]

/-- Plain execution returns what is foretold and leaves what is foretold. -/
theorem plain_as_foretold (keep : FhnOpCode → Bool) (works : Workable draw engine)
    (valid : SsaValid program) (present : OperandsPresent program)
    (version : program.version = fhnAbiVersion) (world : Tracked Ptr ρ engine)
    (provided : Provided program buffers world.device.live) :
    let ran := executePlain (filtered keep (trackedTable draw engine)) program buffers world
    ran.1 = (foretold engine keep program buffers world.known).1 ∧
      (ran.1 = 0 → ∀ id ∈ program.definedIds, ∀ contents,
        (foretold engine keep program buffers world.known).2 id = some contents →
          ∃ buffer ∈ ran.2.device.live, buffers id = some buffer ∧
            ran.2.known buffer = contents) := by
  have supplied (id : Nat) (input : id ∈ program.inputIds) :
      ∃ buffer ∈ world.device.live, buffers id = some buffer :=
    provided.live id (List.mem_append_left _ input)
  obtain ⟨code, kept⟩ := plain_computes valid present
    (filtered_kernel_law (contents_kernel_law works) keep) version
    (provided_preallocated provided) ⟨rfl, fun _ _ => rfl⟩ (known_inputs_valued world supplied)
  rw [foretold_value world supplied]
  refine ⟨code, ?_⟩
  intro success id defined contents known
  exact stored_known (kept success id defined contents known)

theorem contents_hook_laws {fresh : Finset Ptr → Ptr} (pointers : FreshPointers fresh) :
    HookLaws (contentsModel Ptr ρ engine) (trackedHooks engine fresh) (trackedAlloc engine fresh)
      (trackedFree engine) where
  allocHook := rfl
  freeHook := rfl
  paired := by
    intro impossible
    cases impossible
  allocated := by
    intro world
    exact ⟨fresh world.device.live, .empty, rfl, contents_dead (pointers _),
      tracked_allocated fresh world, rfl⟩
  freed := by
    intro world buffer cell live
    exact ⟨tracked_freed world buffer, rfl⟩
  evicted := by
    intro evict impossible
    cases impossible
  prefetched := by
    intro prefetch impossible
    cases impossible

/-- Plan-aware execution does the same for what is pinned. -/
theorem planned_as_foretold (keep : FhnOpCode → Bool) (works : Workable draw engine)
    {fresh : Finset Ptr → Ptr} (pointers : FreshPointers fresh) {pinned : List Nat}
    {plan : FhnMovementPlan} (legal : PlanLegal program pinned plan) (present : OperandsPresent program)
    (version : program.version = fhnAbiVersion) (world : Tracked Ptr ρ engine)
    (inputs : InputsSupplied (contentsModel Ptr ρ engine) (trackedHooks engine fresh) program plan
      buffers world) :
    let ran := execute (trackedHooks engine fresh) (filtered keep (trackedTable draw engine))
      program plan buffers world
    ran.1 = (foretold engine keep program buffers world.known).1 ∧
      (ran.1 = 0 → ∀ id ∈ pinned, id ∈ program.definedIds →
        ∃ contents, (foretold engine keep program buffers world.known).2 id = some contents ∧
          ∃ buffer ∈ ran.2.world.device.live, ran.2.buffers id = some buffer ∧
            ran.2.world.known buffer = contents) := by
  have supplied (id : Nat) (input : id ∈ program.inputIds) :
      ∃ buffer ∈ world.device.live, buffers id = some buffer := by
    obtain ⟨buffer, cell, found, live, device⟩ := inputs.supplied id input
    refine ⟨buffer, ?_, found⟩
    by_contra dead
    rw [contents_dead dead] at live
    cases live
  obtain ⟨code, kept⟩ := plan_aware_computes legal present (contents_hook_laws pointers)
    (filtered_kernel_law (contents_kernel_law works) keep) version buffers world inputs
  rw [foretold_value world supplied]
  refine ⟨code, ?_⟩
  intro success id isPinned defined
  obtain ⟨contents, known, held⟩ := kept success id isPinned defined
  exact ⟨contents, known, stored_known held⟩

end Runs

section Vectors

variable {Ptr ρ : Type*} [DecidableEq Ptr] (draw : Int → Int → ρ → Int × ρ) (engine : Engine)

def encryptSlots : List Int → ρ → List Ciphertext × ρ
  | [], rng => ([], rng)
  | value :: rest, rng =>
      let encrypted := engine.encryptInt draw value rng
      let others := encryptSlots rest encrypted.2
      (encrypted.1 :: others.1, others.2)

def toyfheEncryptVecI64 (out : Option Ptr) (values : List Int) (device : Device Ptr ρ) :
    Int × Device Ptr ρ :=
  match out with
  | none => (-1, device)
  | some _ =>
      if values = [] then (-1, device)
      else
        let encrypted := encryptSlots draw engine values device.world.rng
        let stored := write out (storeVec encrypted.1) { device.world with rng := encrypted.2 }
        (stored.1, { device with world := stored.2 })

/-- `toyfhe_fhn_decrypt_vec_i64` into an array of `n`. -/
def toyfheDecryptVecI64 (input : FhnBuffer) (n : Nat) : Option (List Int) :=
  if input.kind ≠ .ciphertextVec ∨ input.ctVec.length ≠ n then none
  else some (input.ctVec.map engine.decryptInt)

variable {draw engine}

theorem slots_hold (works : Workable draw engine) (values : List Int) (rng : ρ) :
    List.Forall₂ Holds (values.map (literal engine)) (encryptSlots draw engine values rng).1 := by
  induction values generalizing rng with
  | nil => exact .nil
  | cons value rest induction => exact .cons (holds_encrypt works value rng) (induction _)

theorem encrypted_known (works : Workable draw engine) (world : Tracked Ptr ρ engine)
    (buffer : Ptr) {values : List Int} (filled : values ≠ []) :
    let encrypted := toyfheEncryptVecI64 draw engine (some buffer) values world.device
    encrypted.1 = 0 ∧ encrypted.2.live = world.device.live ∧
      ∃ after : Tracked Ptr ρ engine, after.device = encrypted.2 ∧
        after.known buffer = .vector (values.map (literal engine)) ∧
        ∀ other ∈ world.device.live, other ≠ buffer → after.known other = world.known other := by
  have result : toyfheEncryptVecI64 draw engine (some buffer) values world.device =
      (0, { world.device with
        world := (write (some buffer)
          (storeVec (encryptSlots draw engine values world.device.world.rng).1)
          { world.device.world with
            rng := (encryptSlots draw engine values world.device.world.rng).2 }).2 }) := by
    simp only [toyfheEncryptVecI64, if_neg filled]
    rfl
  simp only [result]
  refine ⟨trivial, trivial, settle _ (Function.update world.known buffer
    (.vector (values.map (literal engine)))), rfl, ?_, ?_⟩
  · rw [settle_known, Function.update_self]
    simp only [write_some, Function.update_self]
    exact ⟨rfl, slots_hold works values _⟩
  · intro other live apart
    apply settle_elsewhere live
    · rw [write_some]
      exact Function.update_of_ne apart _ _
    · exact Function.update_of_ne apart _ _

def Decodes (contents : Contents engine) (buffer : FhnBuffer) : Prop :=
  match contents with
  | .empty => True
  | .ciphertext known =>
      ∀ certificate, known = some certificate →
        toyfheDecryptI64 engine buffer = some certificate.bound.value
  | .vector slots =>
      ∃ values, toyfheDecryptVecI64 engine buffer slots.length = some values ∧
        List.Forall₂
          (fun known value => ∀ certificate, known = some certificate →
            value = certificate.bound.value) slots values

theorem described_decodes (admissible : Admissible engine) {contents : Contents engine}
    {buffer : FhnBuffer} (describes : Describes contents buffer) : Decodes contents buffer := by
  cases contents with
  | empty => trivial
  | ciphertext known =>
      intro certificate same
      obtain ⟨kind, holds⟩ := describes
      have integer := (holds certificate same).integer
      rw [same] at holds
      rw [toyfheDecryptI64, if_neg (by simp [kind]), if_neg (by simp [integer]),
        known_decrypts admissible holds]
  | vector slots =>
      obtain ⟨kind, holds⟩ := describes
      have length := holds.length_eq
      refine ⟨buffer.ctVec.map engine.decryptInt, ?_, ?_⟩
      · rw [toyfheDecryptVecI64, if_neg]
        rw [not_or, not_not, not_not]
        exact ⟨kind, length.symm⟩
      · rw [List.forall₂_map_right_iff]
        refine holds.imp fun known cipher held certificate same => ?_
        rw [same] at held
        exact known_decrypts admissible held

def slotValues (slots : List (Knowledge engine)) : List (Option Int) :=
  slots.map fun known => known.map fun certificate => certificate.bound.value

theorem decodes_vector {slots : List (Knowledge engine)} {buffer : FhnBuffer} {values : List Int}
    (decodes : Decodes (.vector slots) buffer) (known : slotValues slots = values.map some) :
    toyfheDecryptVecI64 engine buffer values.length = some values := by
  obtain ⟨decrypted, ran, agree⟩ := decodes
  have length : slots.length = values.length := by
    have both := congrArg List.length known
    rwa [slotValues, List.length_map, List.length_map] at both
  rw [length] at ran
  rw [ran]
  clear ran length
  induction agree generalizing values with
  | nil =>
      cases values with
      | nil => rfl
      | cons value rest => cases known
  | cons slot others induction =>
      cases values with
      | nil => cases known
      | cons value rest =>
          rw [slotValues, List.map_cons, List.map_cons, List.cons.injEq] at known
          obtain ⟨certificate, certified, same⟩ := Option.map_eq_some_iff.mp known.1
          have later := Option.some.inj (induction known.2)
          rw [slot certificate certified, same, later]

end Vectors

section Executors

variable {Ptr ρ : Type*} [DecidableEq Ptr]

/-- Every input has a live buffer; two inputs share one only if the plan moves neither. -/
structure Entrusted (program : FhnProgram) (plan : FhnMovementPlan) (buffers : Buffers Ptr)
    (live : Finset Ptr) : Prop where
  live : ∀ id ∈ program.inputIds, ∃ buffer ∈ live, buffers id = some buffer
  apart : ∀ first ∈ program.inputIds, ∀ second ∈ program.inputIds,
    buffers first = buffers second → first = second ∨ (Kept plan first ∧ Kept plan second)

/-- Over any part of the ToyFHE table and whatever noise is drawn, both executors return the code
that is foretold from the kinds and lengths of the inputs, and what they leave under an id decrypts
to what is foretold of it. -/
theorem execution_as_foretold (draw : Int → Int → ρ → Int × ρ) (engine : Engine)
    (works : Workable draw engine) (keep : FhnOpCode → Bool) (program : FhnProgram)
    (valid : SsaValid program) (present : OperandsPresent program)
    (version : program.version = fhnAbiVersion) (world : Tracked Ptr ρ engine) :
    (∀ buffers : Buffers Ptr, Provided program buffers world.device.live →
      let ran := executePlain (filtered keep (toyfheTable draw engine)) program buffers world.device
      ran.1 = (foretold engine keep program buffers world.known).1 ∧
        (ran.1 = 0 → ∀ id ∈ program.definedIds, ∀ contents,
          (foretold engine keep program buffers world.known).2 id = some contents →
            ∃ buffer ∈ ran.2.live, buffers id = some buffer ∧
              Decodes contents (ran.2.world.heap buffer))) ∧
      ∀ pinned deviceBudget policy levels plan,
        analyze program pinned deviceBudget policy levels = some plan →
        ∀ (fresh : Finset Ptr → Ptr), FreshPointers fresh →
        ∀ buffers : Buffers Ptr, Entrusted program plan buffers world.device.live →
          let ran := execute (toyfheHooks fresh) (filtered keep (toyfheTable draw engine)) program
            plan buffers world.device
          ran.1 = (foretold engine keep program buffers world.known).1 ∧
            (ran.1 = 0 → ∀ id ∈ pinned, id ∈ program.definedIds →
              ∃ contents, (foretold engine keep program buffers world.known).2 id = some contents ∧
                ∃ buffer ∈ ran.2.world.live, ran.2.buffers id = some buffer ∧
                  Decodes contents (ran.2.world.world.heap buffer)) := by
  have table : TableErases (Tracked.device : Tracked Ptr ρ engine → Device Ptr ρ)
      (filtered keep (trackedTable draw engine)) (filtered keep (toyfheTable draw engine)) :=
    filtered_erases tracked_table_erases keep
  constructor
  · intro buffers provided
    obtain ⟨code, kept⟩ := plain_as_foretold keep works valid present version world provided
    simp only [execute_plain_erases table program buffers world]
    refine ⟨code, ?_⟩
    intro success id defined contents known
    obtain ⟨buffer, live, found, rfl⟩ := kept success id defined contents known
    exact ⟨buffer, live, found,
      described_decodes works.admissible (Tracked.describes _ buffer live)⟩
  · intro pinned deviceBudget policy levels plan analyzed fresh pointers buffers entrusted
    have legal := analyze_legal analyzed
    have inputs : InputsSupplied (contentsModel Ptr ρ engine) (trackedHooks engine fresh) program
        plan buffers world := by
      refine ⟨?_, entrusted.apart⟩
      intro id input
      obtain ⟨buffer, live, found⟩ := entrusted.live id input
      exact ⟨buffer, _, found, contents_cell live, fun _ => rfl⟩
    obtain ⟨code, kept⟩ := planned_as_foretold keep works pointers legal present version world
      inputs
    simp only [execute_erases (tracked_hooks_erase fresh) table program plan buffers world]
    refine ⟨code, ?_⟩
    intro success id isPinned defined
    obtain ⟨contents, known, buffer, live, found, rfl⟩ := kept success id isPinned defined
    exact ⟨_, known, buffer, live, found,
      described_decodes works.admissible (Tracked.describes _ buffer live)⟩

end Executors

/-- The squares of two slots, then the sum of both in each. -/
def sumOfSquares : FhnProgram where
  instructions :=
    [{ opcode := .hmult, resultId := 2, operands := ![1, 1, 0, 0] },
      { opcode := .hrotAdd, resultId := 3, operands := ![2, 2, 0, 0], params := ![1, 0, 0, 0] }]
  inputIds := [1]

def packedValues {engine : Engine} : Contents engine → Option (List (Option Int))
  | .vector slots => some (slotValues slots)
  | .empty | .ciphertext _ => none

/-- What `fhn-bench-matvec` keeps for its decomposed path. -/
def primitive (opcode : FhnOpCode) : Bool := opcode ≠ .hmult && opcode ≠ .hrotAdd

def threeBuffers : Device Nat Unit where
  world := { heap := fun _ => {}, rng := () }
  live := {1, 2, 3}

theorem sum_of_squares_valid : SsaValid sumOfSquares := by
  have analyzed : (analyze sumOfSquares [3] 0 .belady none).isSome = true := by
    decide +kernel
  obtain ⟨plan, found⟩ := Option.isSome_iff_exists.mp analyzed
  exact PlanLifetimes.analyze_valid found

def squaresInput (id : Nat) : Option (Contents (createdEngine 1)) :=
  if id = 1 then some (.vector ([3, 4].map (literal (createdEngine 1)))) else none

theorem squares_foretold :
    (foretell (createdEngine 1) (registers primitive) sumOfSquares.instructions
        squaresInput).1 = 0 ∧
      ∃ slots, (foretell (createdEngine 1) (registers primitive) sumOfSquares.instructions
          squaresInput).2 3 = some (.vector slots) ∧ slotValues slots = [25, 25].map some := by
  refine ⟨by decide +kernel, ?_⟩
  have third : ((foretell (createdEngine 1) (registers primitive) sumOfSquares.instructions
      squaresInput).2 3).bind packedValues = some ([25, 25].map some) := by
    decide +kernel
  obtain ⟨contents, found, values⟩ := Option.bind_eq_some_iff.mp third
  cases contents with
  | empty | ciphertext known => cases values
  | vector slots => exact ⟨slots, found, Option.some.inj values⟩

theorem sum_of_squares_decrypts :
    let encrypted := toyfheEncryptVecI64 bottomDraw (createdEngine 1) (some 1) [3, 4] threeBuffers
    let ran := executePlain (filtered primitive (toyfheTable bottomDraw (createdEngine 1)))
      sumOfSquares some encrypted.2
    ran.1 = 0 ∧ toyfheDecryptVecI64 (createdEngine 1) (ran.2.world.heap 3) 2 = some [25, 25] := by
  have works := created_workable (fun low _ _ order => ⟨le_refl low, order⟩ :
    DrawsInRange bottomDraw) 1
  obtain ⟨-, live, after, device, known, -⟩ := encrypted_known works
    (settle threeBuffers fun _ => (.empty : Contents (createdEngine 1))) 1
    (by decide : ([3, 4] : List Int) ≠ [])
  have provided : Provided sumOfSquares some after.device.live := by
    rw [device, live]
    refine ⟨?_, fun _ _ _ _ same => Option.some.inj same⟩
    intro id defined
    exact ⟨id, by revert id; decide, rfl⟩
  have inputs : knownInputs sumOfSquares some after.known = squaresInput := by
    funext id
    by_cases first : id = 1
    · rw [first, knownInputs, if_pos (by decide), squaresInput, if_pos rfl, Option.map_some, known]
    · rw [knownInputs, if_neg (by simpa [sumOfSquares] using first), squaresInput, if_neg first]
  obtain ⟨code, results⟩ := (execution_as_foretold bottomDraw (createdEngine 1) works primitive
    sumOfSquares sum_of_squares_valid (by decide) rfl after).1 some provided
  rw [foretold, inputs] at code results
  obtain ⟨success, slots, third, values⟩ := squares_foretold
  rw [success] at code
  obtain ⟨buffer, -, same, decodes⟩ := results code 3 (by decide) _ third
  obtain rfl := Option.some.inj same
  rw [device] at code decodes
  exact ⟨code, decodes_vector decodes values⟩

end Fhenomenon.CertifiedPrograms
