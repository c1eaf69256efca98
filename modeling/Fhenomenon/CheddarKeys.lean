import Fhenomenon.CertifiedPrograms
import Fhenomenon.CheddarKernels

/-!
# Calls that cheddar does not assert against

`createFromJson` prepares a key for each configured distance. From there on every call
of every kernel, in any run of either executor over any part of the table, is one that
the library accepts.
-/

namespace Fhenomenon.CheddarKeys

open Fhenomenon.Lib.MachineInt
open Fhenomenon.InstructionStream Fhenomenon.MovementPlanner Fhenomenon.DefaultExecutor
open Fhenomenon.DeviceAbi Fhenomenon.ExecutorErasure Fhenomenon.CertifiedPrograms
open Fhenomenon.ToyFheExecution Fhenomenon.CheddarKernels

theorem normalized_distance (raw : Int) {n : Int} (positive : 0 < n) (small : n < 2 ^ 31) :
    wrap 32 ((raw.tmod n + n).tmod n) = raw % n := by
  have upper := Int.tmod_lt_of_pos raw positive
  have lower := Int.lt_tmod_of_pos raw positive
  have same : (raw.tmod n + n).tmod n = raw % n := by
    rw [Int.tmod_eq_emod_of_nonneg (by omega), Int.add_emod_right]
    have split := Int.mul_tdiv_add_tmod raw n
    conv_rhs => rw [← split]
    rw [Int.add_comm, Int.add_mul_emod_self_left]
  have nonneg := Int.emod_nonneg raw positive.ne'
  have below := Int.emod_lt_of_pos raw positive
  rw [same, wrap_of_fits (by decide)]
  constructor
  · norm_num
    omega
  · norm_num at small ⊢
    omega

structure UserInterface where
  rotationKeys : List (Int × Int) := []

def UserInterface.prepareRotationKey (ui : UserInterface) (dist level : Int) : UserInterface where
  rotationKeys := ui.rotationKeys ++ [(dist, level)]

/-- The loop over `"rotation_keys"`. -/
def prepareRotationKeys (numSlots maxLevel : Int) :
    List Int → Finset Int → UserInterface → Finset Int × UserInterface
  | [], prepared, ui => (prepared, ui)
  | raw :: rest, prepared, ui =>
      let dist := wrap 32 ((raw.tmod numSlots + numSlots).tmod numSlots)
      if dist = 0 ∨ dist ∈ prepared then prepareRotationKeys numSlots maxLevel rest prepared ui
      else
        prepareRotationKeys numSlots maxLevel rest (insert dist prepared)
          (ui.prepareRotationKey dist maxLevel)

/-- What `createFromJson` leaves of the parameters and of the keys. -/
def createFromJson (degree : Nat) (maxLevel : Int) (rotationKeys : List Int) :
    FhnBackendCtx × UserInterface :=
  let keys := prepareRotationKeys ((degree : Int).tdiv 2) maxLevel rotationKeys ∅ {}
  ({ degree := degree, preparedRotationKeys := keys.1 }, keys.2)

/-- The set mirrors the key map, and every key is for a distance below the slots of the ring. -/
structure KeysMirrored (numSlots maxLevel : Int) (prepared : Finset Int) (ui : UserInterface) :
    Prop where
  mirrored : ∀ dist, dist ∈ prepared ↔ dist ∈ ui.rotationKeys.map Prod.fst
  once : (ui.rotationKeys.map Prod.fst).Nodup
  asserted : ∀ key ∈ ui.rotationKeys, 0 < key.1 ∧ key.1 < numSlots ∧ key.2 = maxLevel

section Creation

variable {numSlots maxLevel : Int}

theorem prepare_keys_mirrored (positive : 0 < numSlots) (small : numSlots < 2 ^ 31)
    (raws : List Int) {prepared : Finset Int} {ui : UserInterface}
    (before : KeysMirrored numSlots maxLevel prepared ui) :
    KeysMirrored numSlots maxLevel
      (prepareRotationKeys numSlots maxLevel raws prepared ui).1
      (prepareRotationKeys numSlots maxLevel raws prepared ui).2 := by
  induction raws generalizing prepared ui with
  | nil => exact before
  | cons raw rest induction =>
      rw [prepareRotationKeys, normalized_distance raw positive small]
      by_cases skipped : raw % numSlots = 0 ∨ raw % numSlots ∈ prepared
      · rw [if_pos skipped]
        exact induction before
      · rw [if_neg skipped]
        push Not at skipped
        have nonneg := Int.emod_nonneg raw positive.ne'
        have below := Int.emod_lt_of_pos raw positive
        apply induction
        constructor
        · intro dist
          simp only [UserInterface.prepareRotationKey, Finset.mem_insert, List.map_append,
            List.map_cons, List.map_nil, List.mem_append, List.mem_singleton, before.mirrored]
          exact or_comm
        · simp only [UserInterface.prepareRotationKey, List.map_append, List.map_cons,
            List.map_nil]
          rw [List.nodup_append]
          refine ⟨before.once, List.nodup_singleton _, ?_⟩
          intro dist member other same equal
          rw [List.mem_singleton] at same
          subst same equal
          exact skipped.2 ((before.mirrored _).mpr member)
        · intro key member
          rcases List.mem_append.mp member with earlier | last
          · exact before.asserted key earlier
          · rw [List.mem_singleton] at last
            subst last
            exact ⟨by omega, below, rfl⟩

theorem mem_prepare_keys (positive : 0 < numSlots) (small : numSlots < 2 ^ 31)
    (raws : List Int) (prepared : Finset Int) (ui : UserInterface) (dist : Int) :
    dist ∈ (prepareRotationKeys numSlots maxLevel raws prepared ui).1 ↔
      dist ∈ prepared ∨ (dist ≠ 0 ∧ ∃ raw ∈ raws, raw % numSlots = dist) := by
  induction raws generalizing prepared ui with
  | nil => simp [prepareRotationKeys]
  | cons raw rest induction =>
      rw [prepareRotationKeys, normalized_distance raw positive small]
      by_cases skipped : raw % numSlots = 0 ∨ raw % numSlots ∈ prepared
      · rw [if_pos skipped, induction]
        simp only [List.exists_mem_cons_iff]
        constructor
        · rintro (member | ⟨nonzero, later⟩)
          · exact Or.inl member
          · exact Or.inr ⟨nonzero, Or.inr later⟩
        · rintro (member | ⟨nonzero, rfl | later⟩)
          · exact Or.inl member
          · exact Or.inl (skipped.resolve_left nonzero)
          · exact Or.inr ⟨nonzero, later⟩
      · rw [if_neg skipped, induction]
        push Not at skipped
        simp only [List.exists_mem_cons_iff, Finset.mem_insert]
        constructor
        · rintro ((rfl | member) | ⟨nonzero, later⟩)
          · exact Or.inr ⟨skipped.1, Or.inl rfl⟩
          · exact Or.inl member
          · exact Or.inr ⟨nonzero, Or.inr later⟩
        · rintro (member | ⟨nonzero, rfl | later⟩)
          · exact Or.inl (Or.inr member)
          · exact Or.inl (Or.inl rfl)
          · exact Or.inr ⟨nonzero, later⟩

/-- The ring has slots, and their number is an `int`. -/
structure Sized (degree : Nat) : Prop where
  slots : 2 ≤ degree
  small : (degree : Int) / 2 < 2 ^ 31

theorem ring_slots (degree : Nat) : (degree : Int).tdiv 2 = (degree : Int) / 2 :=
  Int.tdiv_eq_ediv_of_nonneg (by omega)

theorem created_keys {degree : Nat} (sized : Sized degree) (maxLevel : Int) (raws : List Int) :
    KeysMirrored ((degree : Int) / 2) maxLevel
      (createFromJson degree maxLevel raws).1.preparedRotationKeys
      (createFromJson degree maxLevel raws).2 := by
  have positive : 0 < (degree : Int) / 2 := by
    have slots := sized.slots
    omega
  simp only [createFromJson, ring_slots]
  apply prepare_keys_mirrored positive sized.small
  constructor <;> simp

theorem mem_created_keys {degree : Nat} (sized : Sized degree) (maxLevel : Int) (raws : List Int)
    (dist : Int) :
    dist ∈ (createFromJson degree maxLevel raws).1.preparedRotationKeys ↔
      dist ≠ 0 ∧ ∃ raw ∈ raws, raw % ((degree : Int) / 2) = dist := by
  have positive : 0 < (degree : Int) / 2 := by
    have slots := sized.slots
    omega
  simp only [createFromJson, ring_slots]
  rw [mem_prepare_keys positive sized.small]
  simp

end Creation

def UserInterface.HasKey (ui : UserInterface) (dist : Int) : Prop :=
  0 < dist ∧ dist ∈ ui.rotationKeys.map Prod.fst

section Decisions

variable {Ct Pt Np Double : Type} {cheddar : Cheddar Ct Pt Np Double}
  {operands : Fin 4 → Option (Payload Ct Pt)}
  {params : Fin 4 → Int} {fparams : Fin 2 → Rat}
  {made : List (CheddarCall Ct Pt) × CheddarCall Ct Pt}

theorem unary_made {call : Ct → CheddarCall Ct Pt}
    (decided : unary call operands params fparams = some made) :
    ∃ ct, ciphertext? (operands 0) = some ct ∧ made = ([], call ct) := by
  obtain ⟨ct, found, rest⟩ := Option.bind_eq_some_iff.mp decided
  exact ⟨ct, found, (Option.some.inj rest).symm⟩

theorem scalar_made {call : Ct → Rat → CheddarCall Ct Pt}
    (decided : scalar call operands params fparams = some made) :
    ∃ ct, ciphertext? (operands 0) = some ct ∧ made = ([], call ct (fparams 0)) := by
  obtain ⟨ct, found, rest⟩ := Option.bind_eq_some_iff.mp decided
  exact ⟨ct, found, (Option.some.inj rest).symm⟩

theorem on_ciphertexts_made {compatible : Ct → Ct → Bool} {call : Ct → Ct → CheddarCall Ct Pt}
    (decided : onCiphertexts compatible call operands params fparams = some made) :
    ∃ first second, ciphertext? (operands 0) = some first ∧
      ciphertext? (operands 1) = some second ∧ compatible first second = true ∧
      made = ([], call first second) := by
  obtain ⟨first, firstFound, rest⟩ := Option.bind_eq_some_iff.mp decided
  obtain ⟨second, secondFound, rest⟩ := Option.bind_eq_some_iff.mp rest
  cases matched : compatible first second with
  | false => simp [matched] at rest
  | true =>
      refine ⟨first, second, firstFound, secondFound, matched, ?_⟩
      simpa [matched] using rest.symm

theorem on_plaintext_made {compatible : Ct → Pt → Bool} {call : Ct → Pt → CheddarCall Ct Pt}
    (decided : onPlaintext compatible call operands params fparams = some made) :
    ∃ first second, ciphertext? (operands 0) = some first ∧
      plaintext? (operands 1) = some second ∧ compatible first second = true ∧
      made = ([], call first second) := by
  obtain ⟨first, firstFound, rest⟩ := Option.bind_eq_some_iff.mp decided
  obtain ⟨second, secondFound, rest⟩ := Option.bind_eq_some_iff.mp rest
  cases matched : compatible first second with
  | false => simp [matched] at rest
  | true =>
      refine ⟨first, second, firstFound, secondFound, matched, ?_⟩
      simpa [matched] using rest.symm

variable {ctx : FhnBackendCtx} {ui : UserInterface}

/-- The set that the kernels consult says no more than the key map holds. -/
def Consults (ctx : FhnBackendCtx) (ui : UserInterface) : Prop :=
  ∀ dist ∈ ctx.preparedRotationKeys, ui.HasKey dist

theorem wrap_le {value : Int} (nonneg : 0 ≤ value) : wrap 32 value ≤ value := by
  rw [wrap]
  norm_num
  omega

theorem normalized_key (consults : Consults ctx ui) {raw n : Int}
    (positive : 0 < normalizeRotationDistance ctx raw n) :
    ui.HasKey (normalizeRotationDistance ctx raw n) ∧
      normalizeRotationDistance ctx raw n < n := by
  by_cases empty : n ≤ 0
  · rw [normalizeRotationDistance, if_pos empty] at positive
    omega
  · have unfolded : normalizeRotationDistance ctx raw n =
        if wrap 32 ((raw.tmod n + n).tmod n) = 0 then 0
        else if wrap 32 ((raw.tmod n + n).tmod n) ∉ ctx.preparedRotationKeys then -1
        else wrap 32 ((raw.tmod n + n).tmod n) := if_neg empty
    rw [unfolded] at positive ⊢
    by_cases zero : wrap 32 ((raw.tmod n + n).tmod n) = 0
    · rw [if_pos zero] at positive
      omega
    · by_cases missing : wrap 32 ((raw.tmod n + n).tmod n) ∉ ctx.preparedRotationKeys
      · rw [if_neg zero, if_pos missing] at positive
        omega
      rw [if_neg zero, if_neg missing] at positive ⊢
      have slots : 0 < n := by omega
      have below := Int.tmod_lt_of_pos (raw.tmod n + n) slots
      have lower := Int.lt_tmod_of_pos raw slots
      have nonneg : 0 ≤ (raw.tmod n + n).tmod n := Int.tmod_nonneg _ (by omega)
      exact ⟨consults _ (not_not.mp missing), lt_of_le_of_lt (wrap_le nonneg) below⟩

theorem rotate_made (decided : cheddarRotate ctx cheddar operands params fparams = some made) :
    ∃ ct, ciphertext? (operands 0) = some ct ∧
      let dist := normalizeRotationDistance ctx (params 0) (cheddar.getNumSlots ct)
      0 ≤ dist ∧ made = ([], if dist = 0 then .copy ct else .hRot ct dist dist) := by
  obtain ⟨ct, found, rest⟩ := Option.bind_eq_some_iff.mp decided
  refine ⟨ct, found, ?_⟩
  simp only at rest ⊢
  split_ifs at rest ⊢ with negative zero
  · exact ⟨by omega, (Option.some.inj rest).symm⟩
  · exact ⟨by omega, (Option.some.inj rest).symm⟩

theorem mult_key_made (decided : cheddarMultKey ctx operands params fparams = some made) :
    ∃ ct, ciphertext? (operands 0) = some ct ∧
      let keyIdx := normalizeRotationDistance ctx (params 0) ((ctx.degree : Int).tdiv 2)
      (params 0 = 0 ∨ 0 < keyIdx) ∧
        made = ([], .multKey ct (if params 0 = 0 then none else some keyIdx)) := by
  obtain ⟨ct, found, rest⟩ := Option.bind_eq_some_iff.mp decided
  refine ⟨ct, found, ?_⟩
  simp only at rest ⊢
  split_ifs at rest ⊢ with zero missing
  · exact ⟨Or.inl zero, (Option.some.inj rest).symm⟩
  · exact ⟨Or.inr (by omega), (Option.some.inj rest).symm⟩

theorem level_down_made (decided : cheddarLevelDown cheddar operands params fparams = some made) :
    ∃ ct, ciphertext? (operands 0) = some ct ∧
      (0 ≤ wrap 32 (params 0) ∧ wrap 32 (params 0) ≤ cheddar.level ct) ∧
        made = ([], .levelDown ct (wrap 32 (params 0))) := by
  obtain ⟨ct, found, rest⟩ := Option.bind_eq_some_iff.mp decided
  refine ⟨ct, found, ?_⟩
  simp only at rest
  split_ifs at rest with refused
  push Not at refused
  exact ⟨refused, (Option.some.inj rest).symm⟩

theorem sub_sc_made (decided : cheddarSubSc cheddar operands params fparams = some made) :
    ∃ ct, ciphertext? (operands 0) = some ct ∧
      made = ([.neg ct], .addScalar (cheddar.neg ct) (fparams 0)) := by
  obtain ⟨ct, found, rest⟩ := Option.bind_eq_some_iff.mp decided
  exact ⟨ct, found, (Option.some.inj rest).symm⟩

end Decisions

section Assertions

variable {Ct Pt Np Double : Type} [DecidableEq Np] [Sub Double] [Neg Double] [Zero Double]
  [Mul Double] [LT Double] [DecidableLT Double]

/-- Where cheddar is known to assert, the call meets the assertion: matching moduli and
scales, a key in the key map, a level to go down to. -/
def Allowed (cheddar : Cheddar Ct Pt Np Double) (ui : UserInterface) : CheddarCall Ct Pt → Prop
  | .add first second | .sub first second | .hConjAdd first second =>
      sameNpsAndScales cheddar first second = true
  | .addPlain first second | .subPlain first second =>
      samePlainNpAndScale cheddar first second = true
  | .mult first second | .hMult first second => sameNps cheddar first second = true
  | .multPlain first second => samePlainNp cheddar first second = true
  | .hRot ct key dist => ui.HasKey key ∧ key = dist ∧ dist < cheddar.getNumSlots ct
  | .hRotAdd first second key dist =>
      sameNpsAndScales cheddar first second = true ∧ ui.HasKey key ∧ key = dist ∧
        dist < max (cheddar.getNumSlots first) (cheddar.getNumSlots second)
  | .multKey _ (some key) => ui.HasKey key
  | .levelDown ct target => 0 ≤ target ∧ target ≤ cheddar.level ct
  | _ => True

variable {cheddar : Cheddar Ct Pt Np Double} {operands : Fin 4 → Option (Payload Ct Pt)}
  {params : Fin 4 → Int} {fparams : Fin 2 → Rat}
  {made : List (CheddarCall Ct Pt) × CheddarCall Ct Pt}
  {ctx : FhnBackendCtx} {ui : UserInterface}

theorem hrot_add_made (decided : cheddarHrotAdd ctx cheddar operands params fparams = some made) :
    ∃ first second, ciphertext? (operands 0) = some first ∧
      ciphertext? (operands 1) = some second ∧ sameNpsAndScales cheddar first second = true ∧
      let dist := normalizeRotationDistance ctx (params 0)
        (max (cheddar.getNumSlots first) (cheddar.getNumSlots second))
      0 ≤ dist ∧
        made = ([], if dist = 0 then .add first second else .hRotAdd first second dist dist) := by
  obtain ⟨first, firstFound, rest⟩ := Option.bind_eq_some_iff.mp decided
  obtain ⟨second, secondFound, rest⟩ := Option.bind_eq_some_iff.mp rest
  refine ⟨first, second, firstFound, secondFound, ?_⟩
  cases matched : sameNpsAndScales cheddar first second with
  | false => simp [matched] at rest
  | true =>
      simp only [matched, Bool.not_true, Bool.false_eq_true, if_false, true_and] at rest ⊢
      split_ifs at rest ⊢
      · exact ⟨by omega, (Option.some.inj rest).symm⟩
      · exact ⟨by omega, (Option.some.inj rest).symm⟩

theorem decision_allowed (consults : Consults ctx ui) {opcode : FhnOpCode}
    {decide : Decision Ct Pt} (registered : decision ctx cheddar opcode = some decide)
    (decided : decide operands params fparams = some made) :
    ∀ call ∈ made.1 ++ [made.2], Allowed cheddar ui call := by
  cases opcode <;> cases registered
  case addCC | subCC | multCC | hmult | hconjAdd =>
    obtain ⟨first, second, -, -, matched, rfl⟩ := on_ciphertexts_made decided
    intro call member
    rw [List.mem_singleton.mp member]
    exact matched
  case addCP | subCP | multCP =>
    obtain ⟨first, second, -, -, matched, rfl⟩ := on_plaintext_made decided
    intro call member
    rw [List.mem_singleton.mp member]
    exact matched
  case negate | relinearize | rescale | conjugate =>
    obtain ⟨ct, -, rfl⟩ := unary_made decided
    intro call member
    rw [List.mem_singleton.mp member]
    trivial
  case addCS | multCS =>
    obtain ⟨ct, -, rfl⟩ := scalar_made decided
    intro call member
    rw [List.mem_singleton.mp member]
    trivial
  case subSC =>
    obtain ⟨ct, -, rfl⟩ := sub_sc_made decided
    intro call member
    rcases List.mem_pair.mp member with rfl | rfl <;> trivial
  case rotate | hrot =>
    obtain ⟨ct, -, nonneg, rfl⟩ := rotate_made decided
    intro call member
    rw [List.mem_singleton.mp member]
    split
    · trivial
    · obtain ⟨key, below⟩ := normalized_key consults (lt_of_le_of_ne nonneg (Ne.symm ‹_›))
      exact ⟨key, rfl, below⟩
  case hrotAdd =>
    obtain ⟨first, second, -, -, matched, nonneg, rfl⟩ := hrot_add_made decided
    intro call member
    rw [List.mem_singleton.mp member]
    split
    · exact matched
    · obtain ⟨key, below⟩ := normalized_key consults (lt_of_le_of_ne nonneg (Ne.symm ‹_›))
      exact ⟨matched, key, rfl, below⟩
  case multKey =>
    obtain ⟨ct, -, keyed, rfl⟩ := mult_key_made decided
    intro call member
    rw [List.mem_singleton.mp member]
    by_cases zero : params 0 = 0
    · rw [if_pos zero]
      trivial
    · rw [if_neg zero]
      exact (normalized_key consults (keyed.resolve_left zero)).1
  case levelDown =>
    obtain ⟨ct, -, inside, rfl⟩ := level_down_made decided
    intro call member
    rw [List.mem_singleton.mp member]
    exact inside

end Assertions

section Runs

variable {Ptr Ct Pt Np Double : Type} [DecidableEq Np] [Sub Double] [Neg Double] [Zero Double]
  [Mul Double] [LT Double] [DecidableLT Double]

/-- A world in which every call so far met the library's assertions. -/
structure GuardedWorld (Ptr : Type) (cheddar : Cheddar Ct Pt Np Double) (ui : UserInterface) where
  world : World Ptr Ct Pt
  guarded : ∀ call ∈ world.calls, Allowed cheddar ui call

variable [DecidableEq Ptr] {cheddar : Cheddar Ct Pt Np Double} {ctx : FhnBackendCtx}
  {ui : UserInterface}

theorem kernel_calls_allowed {decide : Decision Ct Pt}
    (allowed : ∀ operands params fparams made, decide operands params fparams = some made →
      ∀ call ∈ made.1 ++ [made.2], Allowed cheddar ui call)
    (result : Option Ptr) (operands : Fin 4 → Option Ptr) (params : Fin 4 → Int)
    (fparams : Fin 2 → Rat) (world : GuardedWorld Ptr cheddar ui) :
    ∀ call ∈ (kernelOf cheddar decide result operands params fparams world.world).2.calls,
      Allowed cheddar ui call := by
  cases decided : decide (read world.world.heap operands) params fparams with
  | none =>
      rw [kernel_refuses decided]
      exact world.guarded
  | some made =>
      have fresh := allowed _ _ _ made decided
      cases result with
      | none =>
          simp only [kernelOf, decided]
          intro call member
          rcases List.mem_append.mp member with earlier | before
          · exact world.guarded call earlier
          · exact fresh call (List.mem_append_left _ before)
      | some buffer =>
          rw [kernel_decides decided]
          intro call member
          rw [List.append_assoc] at member
          rcases List.mem_append.mp member with earlier | later
          · exact world.guarded call earlier
          · exact fresh call later

/-- The kernels, on worlds that carry the invariant. -/
def guardedTable (consults : Consults ctx ui) : Dispatch Ptr (GuardedWorld Ptr cheddar ui) :=
  fun opcode =>
    match registered : decision ctx cheddar opcode with
    | none => none
    | some decide => some fun result operands params fparams world =>
        ((kernelOf cheddar decide result operands params fparams world.world).1,
          { world := (kernelOf cheddar decide result operands params fparams world.world).2
            guarded := kernel_calls_allowed
              (fun _ _ _ _ decided => decision_allowed consults registered decided) _ _ _ _ _ })

theorem guarded_table_erases (consults : Consults ctx ui) :
    TableErases (GuardedWorld.world : GuardedWorld Ptr cheddar ui → World Ptr Ct Pt)
      (guardedTable consults) (cheddarTable cheddar ctx) := by
  intro opcode
  have kernels : (cheddarTable cheddar ctx : Dispatch Ptr (World Ptr Ct Pt)) opcode =
      (decision ctx cheddar opcode).map (kernelOf cheddar) := cheddar_table_eq cheddar ctx opcode
  rw [guardedTable]
  split
  · next registered =>
    rw [kernels, registered]
    exact .none
  · next decide registered =>
    have kernel : (cheddarTable cheddar ctx : Dispatch Ptr (World Ptr Ct Pt)) opcode =
        some (kernelOf cheddar decide) := by rw [kernels, registered, Option.map_some]
    rw [kernel]
    exact .some fun _ _ _ _ _ => rfl

variable [Inhabited Ct] [Inhabited Pt]

def guardedHooks (fresh : Finset Ptr → Ptr) :
    FhnMovementHooks Ptr (GuardedWorld Ptr cheddar ui) where
  bufferAlloc := some fun world =>
    ((fhnBufferAlloc fresh world.world).1, ⟨(fhnBufferAlloc fresh world.world).2, world.guarded⟩)
  bufferFree := some fun buffer world =>
    ⟨fhnBufferFree buffer world.world, by cases buffer <;> exact world.guarded⟩

theorem guarded_hooks_erase (fresh : Finset Ptr → Ptr) :
    HooksErase (GuardedWorld.world : GuardedWorld Ptr cheddar ui → World Ptr Ct Pt)
      (guardedHooks fresh) (cheddarHooks fresh) where
  bufferAlloc := .some fun _ => rfl
  bufferFree := .some fun _ _ => rfl
  prefetch := .none
  evict := .none

/-- The host stages what it likes in the buffers, then has a program executed by an executor
over a part of the table, plan-aware if there is a plan. -/
structure Request (Ptr Ct Pt : Type) where
  host : (Ptr → FhnBuffer Ct Pt) → Ptr → FhnBuffer Ct Pt
  keep : FhnOpCode → Bool
  program : FhnProgram
  plan : Option FhnMovementPlan
  buffers : Buffers Ptr

def staged (request : Request Ptr Ct Pt) (world : World Ptr Ct Pt) : World Ptr Ct Pt :=
  { world with heap := request.host world.heap }

def serve (cheddar : Cheddar Ct Pt Np Double) (ctx : FhnBackendCtx) (fresh : Finset Ptr → Ptr)
    (world : World Ptr Ct Pt) (request : Request Ptr Ct Pt) : World Ptr Ct Pt :=
  let table := filtered request.keep (cheddarTable cheddar ctx)
  match request.plan with
  | none => (executePlain table request.program request.buffers (staged request world)).2
  | some plan =>
      (execute (cheddarHooks fresh) table request.program plan request.buffers
        (staged request world)).2.world

theorem served_guarded (consults : Consults ctx ui) (fresh : Finset Ptr → Ptr)
    (request : Request Ptr Ct Pt) {world : World Ptr Ct Pt}
    (guarded : ∀ call ∈ world.calls, Allowed cheddar ui call) :
    ∀ call ∈ (serve cheddar ctx fresh world request).calls, Allowed cheddar ui call := by
  have table : TableErases (GuardedWorld.world : GuardedWorld Ptr cheddar ui → World Ptr Ct Pt)
      (filtered request.keep (guardedTable consults))
      (filtered request.keep (cheddarTable cheddar ctx)) :=
    filtered_erases (guarded_table_erases consults) request.keep
  have start : (staged request world : World Ptr Ct Pt) =
      (⟨staged request world, guarded⟩ : GuardedWorld Ptr cheddar ui).world := rfl
  rw [serve]
  cases request.plan with
  | none =>
      simp only
      rw [start, execute_plain_erases table]
      exact GuardedWorld.guarded _
  | some plan =>
      simp only
      rw [start, execute_erases (guarded_hooks_erase fresh) table]
      exact GuardedWorld.guarded _

/-- From the creation of the context on, whatever the host stages and has executed, no call into
cheddar breaks an assertion: not those that prepare the keys, and not those of the kernels. -/
theorem no_call_asserts (cheddar : Cheddar Ct Pt Np Double) (fresh : Finset Ptr → Ptr)
    (degree : Nat) (sized : Sized degree) (maxLevel : Int) (rotationKeys : List Int)
    (requests : List (Request Ptr Ct Pt)) (heap : Ptr → FhnBuffer Ct Pt) (live : Finset Ptr) :
    let created := createFromJson degree maxLevel rotationKeys
    (∀ key ∈ created.2.rotationKeys,
      0 < key.1 ∧ key.1 < (degree : Int) / 2 ∧ key.2 = maxLevel) ∧
    (created.2.rotationKeys.map Prod.fst).Nodup ∧
    ∀ call ∈ (requests.foldl (serve cheddar created.1 fresh) { heap := heap, live := live }).calls,
      Allowed cheddar created.2 call := by
  have keys := created_keys sized maxLevel rotationKeys
  refine ⟨keys.asserted, keys.once, ?_⟩
  have consults : Consults (createFromJson degree maxLevel rotationKeys).1
      (createFromJson degree maxLevel rotationKeys).2 := by
    intro dist prepared
    have listed := (keys.mirrored dist).mp prepared
    obtain ⟨key, member, rfl⟩ := List.mem_map.mp listed
    exact ⟨(keys.asserted key member).1, listed⟩
  have induct (requests : List (Request Ptr Ct Pt)) (world : World Ptr Ct Pt)
      (guarded : ∀ call ∈ world.calls,
        Allowed cheddar (createFromJson degree maxLevel rotationKeys).2 call) :
      ∀ call ∈ (requests.foldl
          (serve cheddar (createFromJson degree maxLevel rotationKeys).1 fresh) world).calls,
        Allowed cheddar (createFromJson degree maxLevel rotationKeys).2 call := by
    induction requests generalizing world with
    | nil => exact guarded
    | cons request rest induction =>
        exact induction _ (served_guarded consults fresh request guarded)
  exact induct requests _ (fun _ impossible => nomatch impossible)

end Runs

/-- A library whose ciphertexts are the slots themselves, at one level and one scale. -/
def clearVectors : Cheddar (List Int) Int Unit Int where
  getNp := fun _ => ()
  npToLevel := fun _ => 0
  levelDown := fun ct _ => ct
  getPlainNp := fun _ => ()
  getScale := fun _ => 1
  getPlainScale := fun _ => 1
  getNumSlots := fun ct => ct.length
  scaleErrorMargin := 1
  add := List.zipWith (· + ·)
  addPlain := fun ct pt => ct.map (· + pt)
  sub := List.zipWith (· - ·)
  subPlain := fun ct pt => ct.map (· - pt)
  neg := List.map Neg.neg
  mult := List.zipWith (· * ·)
  multPlain := fun ct pt => ct.map (· * pt)
  addScalar := fun ct scalar => ct.map (· + scalar.num)
  multScalar := fun ct scalar => ct.map (· * scalar.num)
  relinearize := id
  rescale := id
  copy := id
  hRot := fun ct _ dist => ct.rotate dist.toNat
  hConj := id
  multKey := fun ct _ => ct
  hMult := List.zipWith (· * ·)
  hRotAdd := fun first second _ dist => List.zipWith (· + ·) (first.rotate dist.toNat) second
  hConjAdd := List.zipWith (· + ·)

def twoSlots : World Nat (List Int) Int where
  heap := fun buffer =>
    if buffer = 1 then { kind := .ciphertext, ct := [3, 4], pt := 0 }
    else { kind := .empty, ct := [], pt := 0 }
  live := {1, 2, 3}

theorem small_ring : Sized 4 := ⟨by decide, by decide⟩

/-- The host has the squares of both slots summed, with the key of `1` configured as `5`. -/
def requestSquares : Request Nat (List Int) Int where
  host := fun heap => heap
  keep := fun _ => true
  program := sumOfSquares
  plan := none
  buffers := some

theorem squares_not_asserted :
    let created := createFromJson 4 3 [5, 2, -1]
    let served := serve clearVectors created.1 (fun _ => 0) twoSlots requestSquares
    served.calls = [.hMult [3, 4] [3, 4], .hRotAdd [9, 16] [9, 16] 1 1] ∧
      ∀ call ∈ served.calls, Allowed clearVectors created.2 call :=
  ⟨by decide +kernel,
    (no_call_asserts clearVectors (fun _ => 0) 4 small_ring 3 [5, 2, -1] [requestSquares]
      twoSlots.heap twoSlots.live).2.2⟩

end Fhenomenon.CheddarKeys
