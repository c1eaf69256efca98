import Fhenomenon.CheddarMeaning

/-!
# Dispatch paths and rotation keys on Cheddar

Which executor runs a program, and which fused kernels it has, does not change what the
program computes. Which rotation keys were configured decides no more than whether it
runs to the end.
-/

namespace Fhenomenon.CheddarDispatch

open Fhenomenon.Lib.MachineInt
open Fhenomenon.InstructionStream Fhenomenon.MovementPlanner Fhenomenon.DefaultExecutor
open Fhenomenon.DispatchRecipes Fhenomenon.DeviceAbi Fhenomenon.ProgramRefinement
open Fhenomenon.PlanAwareRefinement Fhenomenon.PlanLegality Fhenomenon.PlanReplay
open Fhenomenon.ToyFheExecution Fhenomenon.CertifiedPrograms
open Fhenomenon.CheddarKernels Fhenomenon.CheddarKeys Fhenomenon.CheddarMeaning

variable {Ct Pt Np Double : Type} [DecidableEq Np] [Sub Double] [Neg Double]
  [Zero Double] [Mul Double] [LT Double] [DecidableLT Double]
  {ctx : FhnBackendCtx} {cheddar : Cheddar Ct Pt Np Double}

section Packing

variable {operands : Fin 4 → Option (Payload Ct Pt)} {params : Fin 4 → Int}
  {fparams : Fin 2 → Rat} {n : Int}

theorem last_call_packed (keeps : KeepsSlots cheddar) {opcode : FhnOpCode}
    {decide : Decision Ct Pt} (registered : decision ctx cheddar opcode = some decide)
    {made : List (CheddarCall Ct Pt) × CheddarCall Ct Pt}
    (decided : decide operands params fparams = some made)
    (packed : PackedOperands cheddar n operands) :
    ∀ ct ∈ ciphertexts made.2, cheddar.getNumSlots ct = n := by
  cases opcode <;> cases registered
  case addCC | subCC | multCC | hmult | hconjAdd =>
    obtain ⟨first, second, firstFound, secondFound, -, rfl⟩ := on_ciphertexts_made decided
    intro ct member
    rcases List.mem_pair.mp member with rfl | rfl
    · exact packed 0 _ firstFound
    · exact packed 1 _ secondFound
  case addCP | subCP | multCP =>
    obtain ⟨first, second, firstFound, -, -, rfl⟩ := on_plaintext_made decided
    intro ct member
    exact List.mem_singleton.mp member ▸ packed 0 _ firstFound
  case negate | relinearize | rescale | conjugate =>
    obtain ⟨first, firstFound, rfl⟩ := unary_made decided
    intro ct member
    exact List.mem_singleton.mp member ▸ packed 0 _ firstFound
  case addCS | multCS =>
    obtain ⟨first, firstFound, rfl⟩ := scalar_made decided
    intro ct member
    exact List.mem_singleton.mp member ▸ packed 0 _ firstFound
  case subSC =>
    obtain ⟨first, firstFound, rfl⟩ := sub_sc_made decided
    intro ct member
    rw [List.mem_singleton.mp member]
    have read : ∀ other ∈ ciphertexts (.neg first : CheddarCall Ct Pt),
        cheddar.getNumSlots other = n := by
      intro other negated
      exact List.mem_singleton.mp negated ▸ packed 0 _ firstFound
    exact keeps (.neg first) n read
  case rotate | hrot =>
    obtain ⟨first, firstFound, -, rfl⟩ := rotate_made decided
    intro ct member
    simp only at member
    split at member <;> exact List.mem_singleton.mp member ▸ packed 0 _ firstFound
  case hrotAdd =>
    obtain ⟨first, second, firstFound, secondFound, -, -, rfl⟩ := hrot_add_made decided
    intro ct member
    simp only at member
    split at member <;> rcases List.mem_pair.mp member with rfl | rfl
    · exact packed 0 _ firstFound
    · exact packed 1 _ secondFound
    · exact packed 0 _ firstFound
    · exact packed 1 _ secondFound
  case multKey =>
    obtain ⟨first, firstFound, -, rfl⟩ := mult_key_made decided
    intro ct member
    exact List.mem_singleton.mp member ▸ packed 0 _ firstFound
  case levelDown =>
    obtain ⟨first, firstFound, -, rfl⟩ := level_down_made decided
    intro ct member
    exact List.mem_singleton.mp member ▸ packed 0 _ firstFound

theorem applied_packed (keeps : KeepsSlots cheddar) {opcode : FhnOpCode} {ct : Ct}
    (computed : applied ctx cheddar opcode operands params fparams = some ct)
    (packed : PackedOperands cheddar n operands) : cheddar.getNumSlots ct = n := by
  obtain ⟨made, found, rfl⟩ := Option.map_eq_some_iff.mp computed
  obtain ⟨decide, registered, decided⟩ := Option.bind_eq_some_iff.mp found
  exact keeps made.2 n (last_call_packed keeps registered decided packed)

theorem instruction_packed (keeps : KeepsSlots cheddar) {inst : FhnInstruction}
    {held : Held Ct Pt} (packed : Packed cheddar n held) {ct : Ct}
    (computed : instructionValue ctx cheddar inst held = some ct) :
    cheddar.getNumSlots ct = n := by
  have operands := packed_operands packed inst
  rw [instructionValue] at computed
  split at computed
  · rw [madValue] at computed
    split at computed
    · cases computed
    · obtain ⟨scaled, product, sum⟩ := Option.bind_eq_some_iff.mp computed
      have slots := applied_packed keeps product
        (packed_pair (operands 0) (fun _ same => absurd same.symm (Option.some_ne_none _)))
      refine applied_packed keeps sum (packed_pair ?_ (operands 1))
      intro other same
      exact Option.some.inj same ▸ slots
  · exact applied_packed keeps computed operands

end Packing

section Executors

variable {Ptr : Type} [DecidableEq Ptr] {keep : FhnOpCode → Bool}

theorem program_follows (composes : Composes cheddar) (keeps : KeepsSlots cheddar)
    (primitives : KeepsPrimitives keep) {n : Int} (insts : List FhnInstruction)
    (apart : ∀ inst ∈ insts, inst.operands 1 ≠ inst.resultId)
    {state : ValueState (Payload Ct Pt) (List (CheddarCall Ct Pt))}
    (packed : Packed cheddar n state.values) :
    Follows (valueProgram (cheddarModel cheddar ctx) (partialTable Ptr ctx cheddar keep) insts
      state) (meaning ctx cheddar insts state.values) := by
  induction insts generalizing state with
  | nil => exact ⟨rfl, rfl⟩
  | cons inst rest induction =>
      have step : Follows (valueInstruction (cheddarModel cheddar ctx)
          (partialTable Ptr ctx cheddar keep) inst state) _ :=
        instruction_follows primitives composes (apart inst (List.mem_cons_self ..)) packed
      rw [valueProgram, meaning]
      cases value : instructionValue ctx cheddar inst state.values with
      | none =>
          rw [value] at step
          have refused : (valueInstruction (cheddarModel cheddar ctx)
              (partialTable Ptr ctx cheddar keep) inst state).1 = -1 := step
          rw [if_pos (by omega)]
          exact refused
      | some ct =>
          rw [value] at step
          have code : (valueInstruction (cheddarModel cheddar ctx)
              (partialTable Ptr ctx cheddar keep) inst state).1 = 0 := step.1
          have values : (valueInstruction (cheddarModel cheddar ctx)
              (partialTable Ptr ctx cheddar keep) inst state).2.values =
                Function.update state.values inst.resultId (some (.ciphertext ct)) := step.2
          rw [if_neg (by omega), Option.bind_some, ← values]
          apply induction (fun other member => apart other (List.mem_cons_of_mem _ member))
          rw [values]
          exact packed_update packed _ (instruction_packed keeps packed value)

def inputPayloads (program : FhnProgram) (buffers : Buffers Ptr) (heap : Ptr → FhnBuffer Ct Pt) :
    Held Ct Pt :=
  fun id => if id ∈ program.inputIds then (buffers id).map fun buffer => (heap buffer).payload
    else none

/-- The code of a run, and what it leaves under some of the ids. -/
def Leaves (told : Option (Held Ct Pt)) (code : Int) (buffers : Buffers Ptr)
    (world : World Ptr Ct Pt) (ids : List Nat) : Prop :=
  match told with
  | none => code = -1
  | some held => code = 0 ∧ ∀ id ∈ ids,
      ∃ buffer ∈ world.live, buffers id = some buffer ∧ held id = some (world.heap buffer).payload

theorem stored_payload {world : World Ptr Ct Pt} {buffers : Buffers Ptr} {id : Nat}
    {payload : Payload Ct Pt}
    (held : stored (cheddarModel cheddar ctx) buffers world id = some payload) :
    ∃ buffer ∈ world.live, buffers id = some buffer ∧
      some payload = some (world.heap buffer).payload := by
  obtain ⟨buffer, found, inside⟩ := Option.bind_eq_some_iff.mp held
  by_cases live : buffer ∈ world.live
  · rw [cheddar_contents live] at inside
    exact ⟨buffer, live, found, inside.symm⟩
  · have dead : (cheddarModel cheddar ctx).cell world buffer = none := if_neg live
    rw [DeviceModel.contents, dead] at inside
    cases inside

theorem input_payloads_eq {program : FhnProgram} {buffers : Buffers Ptr} (world : World Ptr Ct Pt)
    (supplied : ∀ id ∈ program.inputIds, ∃ buffer ∈ world.live, buffers id = some buffer) :
    inputValues (cheddarModel cheddar ctx) program buffers world =
      { context := world.calls, values := inputPayloads program buffers world.heap } := by
  have values (id : Nat) :
      (inputValues (cheddarModel cheddar ctx) program buffers world).values id =
        inputPayloads program buffers world.heap id := by
    simp only [inputValues, inputPayloads]
    by_cases input : id ∈ program.inputIds
    · obtain ⟨buffer, live, found⟩ := supplied id input
      rw [if_pos input, if_pos input, stored, found, Option.bind_some, Option.map_some,
        cheddar_contents live]
    · rw [if_neg input, if_neg input]
  rw [← funext values]
  rfl

theorem results_apart {program : FhnProgram} (valid : SsaValid program) :
    ∀ inst ∈ program.instructions, inst.operands 1 ≠ inst.resultId := by
  intro inst member same
  obtain ⟨position, found⟩ := List.mem_iff_getElem?.mp member
  have nonzero := valid.nonzero _ (result_mem_defined program position inst found)
  exact result_not_operand valid position inst found
    ((mem_used_operands inst _).mpr ⟨nonzero, 1, same⟩)

theorem inputs_valued {program : FhnProgram} {buffers : Buffers Ptr} (world : World Ptr Ct Pt)
    (supplied : ∀ id ∈ program.inputIds, ∃ buffer ∈ world.live, buffers id = some buffer) :
    Valued program 0 (inputValues (cheddarModel cheddar ctx) program buffers world) := by
  intro id
  have start : program.definedBefore 0 = program.inputIds := by simp [FhnProgram.definedBefore]
  rw [start, input_payloads_eq world supplied]
  simp only [inputPayloads]
  by_cases input : id ∈ program.inputIds
  · obtain ⟨buffer, live, found⟩ := supplied id input
    simp [input, found]
  · simp [input]

variable (ctx) in
theorem told_ids (composes : Composes cheddar) (keeps : KeepsSlots cheddar)
    (primitives : KeepsPrimitives keep) {program : FhnProgram} (valid : SsaValid program) {n : Int}
    {buffers : Buffers Ptr} {world : World Ptr Ct Pt}
    (supplied : ∀ id ∈ program.inputIds, ∃ buffer ∈ world.live, buffers id = some buffer)
    (packed : Packed cheddar n (inputPayloads program buffers world.heap)) :
    let ran := valueProgram (cheddarModel cheddar ctx) (partialTable Ptr ctx cheddar keep)
      program.instructions (inputValues (cheddarModel cheddar ctx) program buffers world)
    match meaning ctx cheddar program.instructions
        (inputPayloads program buffers world.heap) with
    | none => ran.1 = -1
    | some held =>
        ran.1 = 0 ∧ ran.2.values = held ∧ ∀ id ∈ program.definedIds, (held id).isSome := by
  intro ran
  have valued : Valued program 0 (inputValues (cheddarModel cheddar ctx) program buffers world) :=
    inputs_valued world supplied
  have follows : Follows ran (meaning ctx cheddar program.instructions
      (inputValues (cheddarModel cheddar ctx) program buffers world).values) := by
    apply program_follows composes keeps primitives _ (results_apart valid)
    rw [input_payloads_eq world supplied]
    exact packed
  rw [input_payloads_eq world supplied] at follows
  cases told : meaning ctx cheddar program.instructions
      (inputPayloads program buffers world.heap) with
  | none =>
      simp only [told] at follows
      exact follows
  | some held =>
      simp only [told] at follows
      obtain ⟨code, values⟩ := follows
      refine ⟨code, values, ?_⟩
      intro id defined
      have final := value_program_valued program.instructions.length 0 (by omega) _ valued
        (by rw [List.drop_zero]; exact code)
      rw [List.drop_zero] at final
      rw [← defined_before_length] at defined
      rw [← values]
      exact (final id).mpr defined

theorem plain_leaves (composes : Composes cheddar) (keeps : KeepsSlots cheddar)
    (primitives : KeepsPrimitives keep) {program : FhnProgram} (valid : SsaValid program)
    (present : OperandsPresent program) (version : program.version = fhnAbiVersion) {n : Int}
    {buffers : Buffers Ptr} {world : World Ptr Ct Pt}
    (provided : Provided program buffers world.live)
    (packed : Packed cheddar n (inputPayloads program buffers world.heap)) :
    let ran := executePlain (partialTable Ptr ctx cheddar keep) program buffers world
    Leaves (meaning ctx cheddar program.instructions (inputPayloads program buffers world.heap))
      ran.1 buffers ran.2 program.definedIds := by
  have supplied (id : Nat) (input : id ∈ program.inputIds) :
      ∃ buffer ∈ world.live, buffers id = some buffer :=
    provided.live id (List.mem_append_left _ input)
  have preallocated : Preallocated (cheddarModel cheddar ctx) program buffers world := by
    refine ⟨?_, provided.apart⟩
    intro id defined
    obtain ⟨buffer, live, found⟩ := provided.live id defined
    exact ⟨buffer, found, cheddar_resident.mpr live⟩
  have law : KernelLaw (cheddarModel cheddar ctx) (partialTable Ptr ctx cheddar keep) :=
    filtered_kernel_law cheddar_kernel_law keep
  obtain ⟨code, kept⟩ := plain_computes valid present law version preallocated
    ⟨rfl, fun _ _ => rfl⟩ (inputs_valued world supplied)
  have told := told_ids ctx composes keeps primitives valid supplied packed
  intro ran
  cases final : meaning ctx cheddar program.instructions
      (inputPayloads program buffers world.heap) with
  | none =>
      simp only [final] at told
      exact code.trans told
  | some held =>
      simp only [final] at told
      obtain ⟨success, values, stored⟩ := told
      refine ⟨code.trans success, ?_⟩
      intro id defined
      obtain ⟨payload, known⟩ := Option.isSome_iff_exists.mp (stored id defined)
      obtain ⟨buffer, live, found, same⟩ := stored_payload (kept (code.trans success) id defined
        payload (by rw [values]; exact known))
      exact ⟨buffer, live, found, known.trans same⟩

variable [Inhabited Ct] [Inhabited Pt]

theorem planned_leaves (composes : Composes cheddar) (keeps : KeepsSlots cheddar)
    (primitives : KeepsPrimitives keep) {program : FhnProgram} (valid : SsaValid program)
    (present : OperandsPresent program) (version : program.version = fhnAbiVersion) {n : Int}
    {pinned : List Nat} {plan : FhnMovementPlan} (legal : PlanLegal program pinned plan)
    {fresh : Finset Ptr → Ptr} (pointers : FreshPointers fresh)
    {buffers : Buffers Ptr} {world : World Ptr Ct Pt}
    (entrusted : Entrusted program plan buffers world.live)
    (packed : Packed cheddar n (inputPayloads program buffers world.heap)) :
    let ran := execute (cheddarHooks fresh) (partialTable Ptr ctx cheddar keep) program plan buffers
      world
    Leaves (meaning ctx cheddar program.instructions (inputPayloads program buffers world.heap))
      ran.1 ran.2.buffers ran.2.world (pinned.filter (· ∈ program.definedIds)) := by
  have supplied (id : Nat) (input : id ∈ program.inputIds) :
      ∃ buffer ∈ world.live, buffers id = some buffer := entrusted.live id input
  have inputs : InputsSupplied (cheddarModel cheddar ctx) (cheddarHooks fresh) program plan buffers
      world := by
    refine ⟨?_, entrusted.apart⟩
    intro id input
    obtain ⟨buffer, live, found⟩ := supplied id input
    exact ⟨buffer, _, found, cheddar_cell live, fun _ => rfl⟩
  have law : KernelLaw (cheddarModel cheddar ctx) (partialTable Ptr ctx cheddar keep) :=
    filtered_kernel_law cheddar_kernel_law keep
  obtain ⟨code, kept⟩ := plan_aware_computes legal present (cheddar_hook_laws pointers) law version
    buffers world inputs
  have told := told_ids ctx composes keeps primitives valid supplied packed
  intro ran
  cases final : meaning ctx cheddar program.instructions
      (inputPayloads program buffers world.heap) with
  | none =>
      simp only [final] at told
      exact code.trans told
  | some held =>
      simp only [final] at told
      obtain ⟨success, values, -⟩ := told
      refine ⟨code.trans success, ?_⟩
      intro id member
      obtain ⟨isPinned, defined⟩ := List.mem_filter.mp member
      obtain ⟨payload, known, stored⟩ := kept (code.trans success) id isPinned
        (of_decide_eq_true defined)
      rw [values] at known
      obtain ⟨buffer, live, found, same⟩ := stored_payload stored
      exact ⟨buffer, live, found, known.trans same⟩

/-- Neither the executor nor the fused kernels it has change what a program computes: the code
and the payload under each id are those of the meaning, which knows of neither. -/
theorem dispatch_path_immaterial (cheddar : Cheddar Ct Pt Np Double) (composes : Composes cheddar)
    (keeps : KeepsSlots cheddar) (ctx : FhnBackendCtx) (keep : FhnOpCode → Bool)
    (primitives : KeepsPrimitives keep) (program : FhnProgram) (valid : SsaValid program)
    (present : OperandsPresent program) (version : program.version = fhnAbiVersion) (n : Int)
    (world : World Ptr Ct Pt) :
    (∀ buffers : Buffers Ptr, Provided program buffers world.live →
      Packed cheddar n (inputPayloads program buffers world.heap) →
        let ran := executePlain (filtered keep (cheddarTable cheddar ctx)) program buffers world
        Leaves (meaning ctx cheddar program.instructions
          (inputPayloads program buffers world.heap)) ran.1 buffers ran.2 program.definedIds) ∧
      ∀ pinned deviceBudget policy levels plan,
        analyze program pinned deviceBudget policy levels = some plan →
        ∀ fresh : Finset Ptr → Ptr, FreshPointers fresh →
        ∀ buffers : Buffers Ptr, Entrusted program plan buffers world.live →
          Packed cheddar n (inputPayloads program buffers world.heap) →
            let ran := execute (cheddarHooks fresh) (filtered keep (cheddarTable cheddar ctx))
              program plan buffers world
            Leaves (meaning ctx cheddar program.instructions
                (inputPayloads program buffers world.heap)) ran.1 ran.2.buffers ran.2.world
              (pinned.filter (· ∈ program.definedIds)) := by
  constructor
  · intro buffers provided packed
    exact plain_leaves composes keeps primitives valid present version provided packed
  · intro pinned deviceBudget policy levels plan analyzed fresh pointers buffers entrusted packed
    exact planned_leaves composes keeps primitives valid present version (analyze_legal analyzed)
      pointers entrusted packed

theorem squares_provided : Provided sumOfSquares some twoSlots.live := by
  refine ⟨?_, fun _ _ _ _ same => Option.some.inj same⟩
  intro id defined
  exact ⟨id, by revert id; decide, rfl⟩

theorem squares_packed :
    Packed clearVectors 2 (inputPayloads sumOfSquares some twoSlots.heap) := by
  intro id ct found
  by_cases first : id = 1
  · subst first
    have same : ([3, 4] : List Int) = ct := by simpa [inputPayloads, sumOfSquares, twoSlots,
      FhnBuffer.payload] using found
    exact same ▸ rfl
  · simp [inputPayloads, sumOfSquares, first] at found

theorem squares_without_fused :
    let ran := executePlain (filtered primitive (cheddarTable clearVectors
      (createFromJson 4 3 [5]).1)) sumOfSquares some twoSlots
    ran.1 = 0 ∧ (ran.2.heap 3).payload = .ciphertext [25, 25] := by
  have leaves := (dispatch_path_immaterial clearVectors clear_composes clear_keeps_slots
    (createFromJson 4 3 [5]).1 primitive primitive_keeps sumOfSquares sum_of_squares_valid
    (by decide) rfl 2 twoSlots).1 some squares_provided squares_packed
  have third : (meaning (createFromJson 4 3 [5]).1 clearVectors sumOfSquares.instructions
      (inputPayloads sumOfSquares some twoSlots.heap)).bind (fun held => held 3) =
        some (.ciphertext [25, 25]) := by decide +kernel
  obtain ⟨held, told, result⟩ := Option.bind_eq_some_iff.mp third
  rw [told] at leaves
  obtain ⟨code, stored⟩ := leaves
  obtain ⟨buffer, -, same, payload⟩ := stored 3 (by decide)
  obtain rfl := Option.some.inj same
  exact ⟨code, Option.some.inj (payload.symm.trans result)⟩

end Executors

section Configured

variable {degree : Nat} {maxLevel : Int} {raws : List Int} {n : Int}

/-- A configured distance agrees with `d`, once each is reduced by its own number of slots. -/
def Reaches (degree : Nat) (raws : List Int) (d n : Int) : Prop :=
  d % n = 0 ∨ ∃ raw ∈ raws, raw % ((degree : Int) / 2) = d % n

/-- The keys that an opcode needs on ciphertexts of `n` slots are configured. -/
def Configured (degree : Nat) (raws : List Int) (n : Int) (opcode : FhnOpCode)
    (params : Fin 4 → Int) : Prop :=
  match opcode with
  | .rotate | .hrot | .hrotAdd => Reaches degree raws (params 0) n
  | .multKey => params 0 = 0 ∨ Reaches degree raws (params 0) ((degree : Int) / 2)
  | _ => True

def everyDistance (degree : Nat) : List Int := (List.range (degree / 2)).map Int.ofNat

theorem every_distance_reaches (positive : 0 < n) (inside : n ≤ (degree : Int) / 2) (d : Int) :
    Reaches degree (everyDistance degree) d n := by
  have nonneg := Int.emod_nonneg d positive.ne'
  have below := Int.emod_lt_of_pos d positive
  refine Or.inr ⟨d % n, ?_, Int.emod_eq_of_lt nonneg (by omega)⟩
  rw [everyDistance, List.mem_map]
  exact ⟨(d % n).toNat, by rw [List.mem_range]; omega, Int.toNat_of_nonneg nonneg⟩

theorem normalized_created (sized : Sized degree) (positive : 0 < n)
    (inside : n ≤ (degree : Int) / 2) (d : Int) :
    (Reaches degree raws d n →
      normalizeRotationDistance (createFromJson degree maxLevel raws).1 d n = d % n) ∧
    (¬ Reaches degree raws d n →
      normalizeRotationDistance (createFromJson degree maxLevel raws).1 d n = -1) := by
  have small : n < 2 ^ 31 := lt_of_le_of_lt inside sized.small
  have unfolded : normalizeRotationDistance (createFromJson degree maxLevel raws).1 d n =
      if d % n = 0 then 0
      else if d % n ∉ (createFromJson degree maxLevel raws).1.preparedRotationKeys then -1
      else d % n := by
    rw [normalizeRotationDistance, if_neg (by omega), normalized_distance d positive small]
  rw [unfolded]
  by_cases zero : d % n = 0
  · rw [if_pos zero, zero]
    exact ⟨fun _ => rfl, fun unreached => absurd (Or.inl zero) unreached⟩
  · rw [if_neg zero]
    have listed := mem_created_keys sized maxLevel raws (d % n)
    constructor
    · intro reached
      exact if_neg (not_not.mpr (listed.mpr ⟨zero, reached.resolve_left zero⟩))
    · intro unreached
      exact if_pos fun member => unreached (Or.inr (listed.mp member).2)

/-- A kernel over the configured keys does what it does over every key, or lacks its key. -/
theorem applied_configured (sized : Sized degree) (positive : 0 < n)
    (inside : n ≤ (degree : Int) / 2) {opcode : FhnOpCode}
    {operands : Fin 4 → Option (Payload Ct Pt)} {params : Fin 4 → Int} {fparams : Fin 2 → Rat}
    (packed : PackedOperands cheddar n operands) (ct : Ct) :
    applied (createFromJson degree maxLevel raws).1 cheddar opcode operands params fparams =
        some ct ↔
      applied (createFromJson degree maxLevel (everyDistance degree)).1 cheddar opcode operands
          params fparams = some ct ∧
        Configured degree raws n opcode params := by
  have configured := @normalized_created degree maxLevel raws n sized positive inside
  have whole (d : Int) := (@normalized_created degree maxLevel (everyDistance degree) n sized
    positive inside d).1 (every_distance_reaches positive inside d)
  cases opcode
  case rotate | hrot =>
    rw [applied_rotate _ (by simp), applied_rotate _ (by simp)]
    cases found : ciphertext? (operands 0) with
    | none => simp
    | some first =>
        simp only [Option.bind_some, packed 0 first found, whole, Configured]
        by_cases reached : Reaches degree raws (params 0) n
        · simp [(configured (params 0)).1 reached, reached]
        · simp [(configured (params 0)).2 reached, reached, rotatedBy]
  case hrotAdd =>
    rw [applied_hrot_add, applied_hrot_add]
    cases firstFound : ciphertext? (operands 0) with
    | none => simp
    | some first =>
        cases secondFound : ciphertext? (operands 1) with
        | none => simp
        | some second =>
            simp only [Option.bind_some, packed 0 first firstFound, packed 1 second secondFound,
              max_self, whole, Configured]
            by_cases reached : Reaches degree raws (params 0) n
            · simp [(configured (params 0)).1 reached, reached]
            · simp [(configured (params 0)).2 reached, reached]
  case multKey =>
    have ring : 0 < (degree : Int) / 2 := by omega
    have key := @normalized_created degree maxLevel raws _ sized ring (le_refl _) (params 0)
    have any := (@normalized_created degree maxLevel (everyDistance degree) _ sized ring
      (le_refl _) (params 0)).1 (every_distance_reaches ring (le_refl _) _)
    have slots (raws : List Int) :
        (((createFromJson degree maxLevel raws).1.degree : Nat) : Int).tdiv 2 =
          (degree : Int) / 2 := ring_slots degree
    rw [applied_mult_key, applied_mult_key]
    simp only [slots, any, Configured]
    cases found : ciphertext? (operands 0) with
    | none => simp
    | some first =>
        by_cases zero : params 0 = 0
        · simp [zero]
        · by_cases reached : Reaches degree raws (params 0) ((degree : Int) / 2)
          · simp [zero, key.1 reached, reached]
          · simp [zero, key.2 reached, reached]
  all_goals exact (and_iff_left trivial).symm

theorem instruction_configured (sized : Sized degree) (positive : 0 < n)
    (inside : n ≤ (degree : Int) / 2) {inst : FhnInstruction} {held : Held Ct Pt}
    (packed : Packed cheddar n held) (ct : Ct) :
    instructionValue (createFromJson degree maxLevel raws).1 cheddar inst held = some ct ↔
      instructionValue (createFromJson degree maxLevel (everyDistance degree)).1 cheddar inst
          held = some ct ∧
        Configured degree raws n inst.opcode inst.params := by
  rw [instructionValue, instructionValue]
  split
  · next mad =>
    rw [mad]
    exact (and_iff_left trivial).symm
  · exact applied_configured sized positive inside (packed_operands packed inst) ct

theorem meaning_configured (keeps : KeepsSlots cheddar) (sized : Sized degree) (positive : 0 < n)
    (inside : n ≤ (degree : Int) / 2) (insts : List FhnInstruction) {held : Held Ct Pt}
    (packed : Packed cheddar n held) (final : Held Ct Pt) :
    meaning (createFromJson degree maxLevel raws).1 cheddar insts held = some final ↔
      meaning (createFromJson degree maxLevel (everyDistance degree)).1 cheddar insts held =
          some final ∧
        ∀ inst ∈ insts, Configured degree raws n inst.opcode inst.params := by
  induction insts generalizing held with
  | nil => simp [meaning]
  | cons inst rest induction =>
      rw [meaning, meaning, Option.bind_eq_some_iff, Option.bind_eq_some_iff]
      constructor
      · rintro ⟨ct, value, later⟩
        have slots := instruction_packed keeps packed value
        obtain ⟨same, key⟩ := (instruction_configured sized positive inside packed ct).mp value
        obtain ⟨after, keys⟩ := (induction (packed_update packed _ slots)).mp later
        exact ⟨⟨ct, same, after⟩, List.forall_mem_cons.mpr ⟨key, keys⟩⟩
      · rintro ⟨⟨ct, value, later⟩, keys⟩
        obtain ⟨key, keys⟩ := List.forall_mem_cons.mp keys
        have slots := instruction_packed keeps packed value
        exact ⟨ct, (instruction_configured sized positive inside packed ct).mpr ⟨value, key⟩,
          (induction (packed_update packed _ slots)).mpr ⟨later, keys⟩⟩

end Configured

section ConfiguredRuns

variable {Ptr : Type}

/-- Two runs leave the same payload under each of the ids. -/
def SamePayloads (buffers : Buffers Ptr) (world : World Ptr Ct Pt) (others : Buffers Ptr)
    (otherWorld : World Ptr Ct Pt) (ids : List Nat) : Prop :=
  ∀ id ∈ ids, ∃ buffer other, buffers id = some buffer ∧ others id = some other ∧
    (world.heap buffer).payload = (otherWorld.heap other).payload

theorem leaves_code {told : Option (Held Ct Pt)} {code : Int} {buffers : Buffers Ptr}
    {world : World Ptr Ct Pt} {ids : List Nat} (leaves : Leaves told code buffers world ids) :
    code = 0 ↔ ∃ held, told = some held := by
  cases told with
  | none =>
      have refused : code = -1 := leaves
      simp [refused]
  | some held => exact ⟨fun _ => ⟨held, rfl⟩, fun _ => leaves.1⟩

theorem configured_leaves {told whole : Option (Held Ct Pt)} {keyed : Prop}
    (related : ∀ final, told = some final ↔ whole = some final ∧ keyed) {code other : Int}
    {buffers others : Buffers Ptr} {world otherWorld : World Ptr Ct Pt} {ids : List Nat}
    (leaves : Leaves told code buffers world ids)
    (leavesOther : Leaves whole other others otherWorld ids) :
    (code = 0 ↔ other = 0 ∧ keyed) ∧
      (code = 0 → SamePayloads buffers world others otherWorld ids) := by
  constructor
  · rw [leaves_code leaves, leaves_code leavesOther]
    constructor
    · rintro ⟨held, final⟩
      exact ⟨⟨held, ((related held).mp final).1⟩, ((related held).mp final).2⟩
    · rintro ⟨⟨held, final⟩, key⟩
      exact ⟨held, (related held).mpr ⟨final, key⟩⟩
  · intro success id member
    obtain ⟨held, final⟩ := (leaves_code leaves).mp success
    have same := ((related held).mp final).1
    subst final same
    obtain ⟨buffer, -, found, payload⟩ := leaves.2 id member
    obtain ⟨second, -, otherFound, otherPayload⟩ := leavesOther.2 id member
    exact ⟨buffer, second, found, otherFound,
      Option.some.inj (payload.symm.trans otherPayload)⟩

variable [DecidableEq Ptr] [Inhabited Ct] [Inhabited Pt]

/-- On ciphertexts of one size, the configured rotation keys decide whether a program runs to the
end, distance by distance, and never what it computes. -/
theorem configured_keys_decide (cheddar : Cheddar Ct Pt Np Double) (composes : Composes cheddar)
    (keeps : KeepsSlots cheddar) (degree : Nat) (sized : Sized degree) (maxLevel : Int)
    (rotationKeys : List Int) (n : Int) (positive : 0 < n) (inside : n ≤ (degree : Int) / 2)
    (keep : FhnOpCode → Bool) (primitives : KeepsPrimitives keep) (program : FhnProgram)
    (valid : SsaValid program) (present : OperandsPresent program)
    (version : program.version = fhnAbiVersion) (world : World Ptr Ct Pt) :
    let table (raws : List Int) : Dispatch Ptr (World Ptr Ct Pt) :=
      filtered keep (cheddarTable cheddar (createFromJson degree maxLevel raws).1)
    let keyed := ∀ inst ∈ program.instructions,
      Configured degree rotationKeys n inst.opcode inst.params
    (∀ buffers : Buffers Ptr, Provided program buffers world.live →
      Packed cheddar n (inputPayloads program buffers world.heap) →
        let ran := executePlain (table rotationKeys) program buffers world
        let whole := executePlain (table (everyDistance degree)) program buffers world
        (ran.1 = 0 ↔ whole.1 = 0 ∧ keyed) ∧
          (ran.1 = 0 → SamePayloads buffers ran.2 buffers whole.2 program.definedIds)) ∧
      ∀ pinned deviceBudget policy levels plan,
        analyze program pinned deviceBudget policy levels = some plan →
        ∀ fresh : Finset Ptr → Ptr, FreshPointers fresh →
        ∀ buffers : Buffers Ptr, Entrusted program plan buffers world.live →
          Packed cheddar n (inputPayloads program buffers world.heap) →
            let ran := execute (cheddarHooks fresh) (table rotationKeys) program plan buffers world
            let whole := execute (cheddarHooks fresh) (table (everyDistance degree)) program plan
              buffers world
            (ran.1 = 0 ↔ whole.1 = 0 ∧ keyed) ∧
              (ran.1 = 0 → SamePayloads ran.2.buffers ran.2.world whole.2.buffers whole.2.world
                (pinned.filter (· ∈ program.definedIds))) := by
  constructor
  · intro buffers provided packed
    exact configured_leaves
      (meaning_configured keeps sized positive inside program.instructions packed)
      (plain_leaves composes keeps primitives valid present version provided packed)
      (plain_leaves composes keeps primitives valid present version provided packed)
  · intro pinned deviceBudget policy levels plan analyzed fresh pointers buffers entrusted packed
    have legal := analyze_legal analyzed
    exact configured_leaves
      (meaning_configured keeps sized positive inside program.instructions packed)
      (planned_leaves composes keeps primitives valid present version legal pointers entrusted
        packed)
      (planned_leaves composes keeps primitives valid present version legal pointers entrusted
        packed)

theorem squares_with_one_key :
    let run (raws : List Int) := executePlain (filtered primitive (cheddarTable clearVectors
      (createFromJson 4 3 raws).1)) sumOfSquares some twoSlots
    (run [5]).1 = 0 ∧ (run [2]).1 ≠ 0 := by
  have decided (raws : List Int) := (configured_keys_decide clearVectors clear_composes
    clear_keeps_slots 4 small_ring 3 raws 2 (by decide) (by decide) primitive primitive_keeps
    sumOfSquares sum_of_squares_valid (by decide) rfl twoSlots).1 some squares_provided
    squares_packed
  constructor
  · refine (decided [5]).1.mpr ⟨by decide +kernel, ?_⟩
    intro inst member
    rcases List.mem_pair.mp member with rfl | rfl
    · trivial
    · exact Or.inr ⟨5, by decide, by decide⟩
  · intro success
    have keyed := ((decided [2]).1.mp success).2 _
      (List.mem_cons_of_mem _ (List.mem_singleton_self _))
    rcases keyed with whole | ⟨raw, listed, same⟩
    · revert whole
      decide
    · rw [List.mem_singleton.mp listed] at same
      revert same
      decide

end ConfiguredRuns

end Fhenomenon.CheddarDispatch
