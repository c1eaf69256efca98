import Fhenomenon.CheddarKeys

/-!
# What a program means on Cheddar

The meaning of a program over the whole kernel table, with no buffers. It takes each
fused kernel as one call. Where the library composes as documented, either executor
over any part of the table that keeps the primitives computes it.
-/

namespace Fhenomenon.CheddarMeaning

open Fhenomenon.Lib.MachineInt
open Fhenomenon.InstructionStream Fhenomenon.MovementPlanner Fhenomenon.DefaultExecutor
open Fhenomenon.DispatchRecipes Fhenomenon.DeviceAbi Fhenomenon.CertifiedPrograms
open Fhenomenon.CheddarKernels Fhenomenon.CheddarKeys

abbrev Held (Ct Pt : Type) := Nat → Option (Payload Ct Pt)

variable {Ptr Ct Pt Np Double : Type}

def operandsOf (inst : FhnInstruction) (held : Held Ct Pt) : Fin 4 → Option (Payload Ct Pt) :=
  fun slot => if inst.operands slot ≠ 0 then held (inst.operands slot) else none

section Meaning

variable [DecidableEq Np] [Sub Double] [Neg Double] [Zero Double] [Mul Double] [LT Double]
  [DecidableLT Double] (ctx : FhnBackendCtx) (cheddar : Cheddar Ct Pt Np Double)

/-- The ciphertext that the kernel of an opcode leaves, unless it refuses. -/
def applied (opcode : FhnOpCode) (operands : Fin 4 → Option (Payload Ct Pt))
    (params : Fin 4 → Int) (fparams : Fin 2 → Rat) : Option Ct :=
  ((decision ctx cheddar opcode).bind fun decide => decide operands params fparams).map
    fun made => cheddar.value made.2

/-- No kernel is registered for `FHN_MAD`, which the executor takes apart. -/
def madValue (inst : FhnInstruction) (held : Held Ct Pt) : Option Ct :=
  if inst.operands 1 = 0 ∨ inst.operands 1 = inst.resultId then none
  else
    (applied ctx cheddar .multCS ![operandsOf inst held 0, none, none, none] inst.params
        inst.fparams).bind fun scaled =>
      applied ctx cheddar .addCC
        ![some (.ciphertext scaled), operandsOf inst held 1, none, none] inst.params inst.fparams

def instructionValue (inst : FhnInstruction) (held : Held Ct Pt) : Option Ct :=
  match inst.opcode with
  | .mad => madValue ctx cheddar inst held
  | opcode => applied ctx cheddar opcode (operandsOf inst held) inst.params inst.fparams

/-- What each id holds after the instructions, unless one is refused. -/
def meaning : List FhnInstruction → Held Ct Pt → Option (Held Ct Pt)
  | [], held => some held
  | inst :: rest, held =>
      (instructionValue ctx cheddar inst held).bind fun ct =>
        meaning rest (Function.update held inst.resultId (some (.ciphertext ct)))

end Meaning

/-- The fused calls are compositions, and the steps in between keep moduli and scale. -/
structure Composes (cheddar : Cheddar Ct Pt Np Double) : Prop where
  hMult : ∀ first second,
    cheddar.hMult first second = cheddar.rescale (cheddar.relinearize (cheddar.mult first second))
  hRotAdd : ∀ first second key dist,
    cheddar.hRotAdd first second key dist = cheddar.add (cheddar.hRot first key dist) second
  hConjAdd : ∀ first second,
    cheddar.hConjAdd first second = cheddar.add (cheddar.hConj first) second
  copy : ∀ ct, cheddar.copy ct = ct
  rotatedNp : ∀ ct key dist, cheddar.getNp (cheddar.hRot ct key dist) = cheddar.getNp ct
  rotatedScale : ∀ ct key dist, cheddar.getScale (cheddar.hRot ct key dist) = cheddar.getScale ct
  conjugatedNp : ∀ ct, cheddar.getNp (cheddar.hConj ct) = cheddar.getNp ct
  conjugatedScale : ∀ ct, cheddar.getScale (cheddar.hConj ct) = cheddar.getScale ct

def ciphertexts : CheddarCall Ct Pt → List Ct
  | .add first second | .sub first second | .mult first second | .hMult first second
  | .hConjAdd first second | .hRotAdd first second _ _ => [first, second]
  | .addPlain ct _ | .subPlain ct _ | .multPlain ct _ | .addScalar ct _ | .multScalar ct _
  | .neg ct | .relinearize ct | .rescale ct | .copy ct | .hRot ct _ _ | .hConj ct
  | .multKey ct _ | .levelDown ct _ => [ct]

def KeepsSlots (cheddar : Cheddar Ct Pt Np Double) : Prop :=
  ∀ call n, (∀ ct ∈ ciphertexts call, cheddar.getNumSlots ct = n) →
    cheddar.getNumSlots (cheddar.value call) = n

def Packed (cheddar : Cheddar Ct Pt Np Double) (n : Int) (held : Held Ct Pt) : Prop :=
  ∀ id ct, held id = some (.ciphertext ct) → cheddar.getNumSlots ct = n

def PackedOperands (cheddar : Cheddar Ct Pt Np Double) (n : Int)
    (operands : Fin 4 → Option (Payload Ct Pt)) : Prop :=
  ∀ slot ct, ciphertext? (operands slot) = some ct → cheddar.getNumSlots ct = n

theorem ciphertext_held {held : Option (Payload Ct Pt)} {ct : Ct} :
    ciphertext? held = some ct ↔ held = some (.ciphertext ct) := by
  cases held with
  | none => simp [ciphertext?]
  | some payload => cases payload <;> simp [ciphertext?]

@[simp] theorem ciphertext_some (ct : Ct) :
    ciphertext? (some (.ciphertext ct) : Option (Payload Ct Pt)) = some ct := rfl

theorem packed_operands {cheddar : Cheddar Ct Pt Np Double} {n : Int} {held : Held Ct Pt}
    (packed : Packed cheddar n held) (inst : FhnInstruction) :
    PackedOperands cheddar n (operandsOf inst held) := by
  intro slot ct found
  rw [ciphertext_held, operandsOf] at found
  split at found
  · exact packed _ ct found
  · cases found

theorem packed_pair {cheddar : Cheddar Ct Pt Np Double} {n : Int}
    {first second : Option (Payload Ct Pt)}
    (one : ∀ ct, ciphertext? first = some ct → cheddar.getNumSlots ct = n)
    (two : ∀ ct, ciphertext? second = some ct → cheddar.getNumSlots ct = n) :
    PackedOperands cheddar n ![first, second, none, none] := by
  intro slot ct found
  fin_cases slot
  · exact one ct found
  · exact two ct found
  · cases found
  · cases found

theorem packed_update {cheddar : Cheddar Ct Pt Np Double} {n : Int} {held : Held Ct Pt}
    (packed : Packed cheddar n held) (id : Nat) {ct : Ct} (slots : cheddar.getNumSlots ct = n) :
    Packed cheddar n (Function.update held id (some (.ciphertext ct))) := by
  intro other out found
  by_cases same : other = id
  · rw [same, Function.update_self, Option.some.injEq, Payload.ciphertext.injEq] at found
    exact found ▸ slots
  · rw [Function.update_of_ne same] at found
    exact packed other out found

section Applied

variable [DecidableEq Np] [Sub Double] [Neg Double] [Zero Double] [Mul Double] [LT Double]
  [DecidableLT Double] {ctx : FhnBackendCtx} {cheddar : Cheddar Ct Pt Np Double}
  {operands : Fin 4 → Option (Payload Ct Pt)} {params : Fin 4 → Int} {fparams : Fin 2 → Rat}

/-- Refuses, copies, or rotates by the normalized distance. -/
def rotatedBy (cheddar : Cheddar Ct Pt Np Double) (dist : Int) (ct : Ct) :
    Option Ct :=
  if dist < 0 then none else some (if dist = 0 then cheddar.copy ct else cheddar.hRot ct dist dist)

theorem applied_rotate (opcode : FhnOpCode) (rotates : opcode = .rotate ∨ opcode = .hrot) :
    applied ctx cheddar opcode operands params fparams =
      (ciphertext? (operands 0)).bind fun ct =>
        rotatedBy cheddar
          (normalizeRotationDistance ctx (params 0) (cheddar.getNumSlots ct)) ct := by
  have unfolded : applied ctx cheddar opcode operands params fparams =
      (cheddarRotate ctx cheddar operands params fparams).map fun made =>
        cheddar.value made.2 := by
    rcases rotates with rfl | rfl <;> rfl
  rw [unfolded, cheddarRotate]
  cases ciphertext? (operands 0) with
  | none => rfl
  | some ct =>
      simp only [Option.bind_eq_bind, Option.bind_some, rotatedBy]
      split_ifs <;> rfl

theorem applied_unary {call : Ct → CheddarCall Ct Pt} (opcode : FhnOpCode)
    (registered : decision ctx cheddar opcode = some (unary call)) :
    applied ctx cheddar opcode operands params fparams =
      (ciphertext? (operands 0)).map fun ct => cheddar.value (call ct) := by
  rw [applied, registered, Option.bind_some, unary]
  cases ciphertext? (operands 0) <;> rfl

theorem applied_binary {compatible : Ct → Ct → Bool} {call : Ct → Ct → CheddarCall Ct Pt}
    (opcode : FhnOpCode)
    (registered : decision ctx cheddar opcode = some (onCiphertexts compatible call)) :
    applied ctx cheddar opcode operands params fparams =
      (ciphertext? (operands 0)).bind fun first =>
        (ciphertext? (operands 1)).bind fun second =>
          if compatible first second = true then some (cheddar.value (call first second))
          else none := by
  rw [applied, registered, Option.bind_some, onCiphertexts]
  cases ciphertext? (operands 0) with
  | none => rfl
  | some first =>
      cases ciphertext? (operands 1) with
      | none => rfl
      | some second =>
          simp only [Option.bind_eq_bind, Option.bind_some]
          cases compatible first second <;> rfl

theorem applied_add_cc :
    applied ctx cheddar .addCC operands params fparams =
      (ciphertext? (operands 0)).bind fun first =>
        (ciphertext? (operands 1)).bind fun second =>
          if sameNpsAndScales cheddar first second = true then some (cheddar.add first second)
          else none :=
  applied_binary .addCC rfl

theorem applied_hrot_add :
    applied ctx cheddar .hrotAdd operands params fparams =
      (ciphertext? (operands 0)).bind fun first =>
        (ciphertext? (operands 1)).bind fun second =>
          if sameNpsAndScales cheddar first second = true then
            let dist := normalizeRotationDistance ctx (params 0)
              (max (cheddar.getNumSlots first) (cheddar.getNumSlots second))
            if dist < 0 then none
            else some (if dist = 0 then cheddar.add first second
              else cheddar.hRotAdd first second dist dist)
          else none := by
  have unfolded : applied ctx cheddar .hrotAdd operands params fparams =
      (cheddarHrotAdd ctx cheddar operands params fparams).map fun made =>
        cheddar.value made.2 := rfl
  rw [unfolded, cheddarHrotAdd]
  cases ciphertext? (operands 0) with
  | none => rfl
  | some first =>
      cases ciphertext? (operands 1) with
      | none => rfl
      | some second =>
          simp only [Option.bind_eq_bind, Option.bind_some]
          cases sameNpsAndScales cheddar first second with
          | false => rfl
          | true =>
              simp only [Bool.not_true, Bool.false_eq_true, if_false, if_true]
              split_ifs <;> rfl

theorem applied_mult_key :
    applied ctx cheddar .multKey operands params fparams =
      (ciphertext? (operands 0)).bind fun ct =>
        if params 0 = 0 then some (cheddar.multKey ct none)
        else
          let keyIdx := normalizeRotationDistance ctx (params 0) ((ctx.degree : Int).tdiv 2)
          if keyIdx ≤ 0 then none else some (cheddar.multKey ct (some keyIdx)) := by
  have unfolded : applied ctx cheddar .multKey operands params fparams =
      (cheddarMultKey ctx operands params fparams).map fun made => cheddar.value made.2 := rfl
  rw [unfolded, cheddarMultKey]
  cases ciphertext? (operands 0) with
  | none => rfl
  | some ct =>
      simp only [Option.bind_eq_bind, Option.bind_some]
      split_ifs <;> rfl

theorem sums_compatible {ct other : Ct} (np : cheddar.getNp other = cheddar.getNp ct)
    (scale : cheddar.getScale other = cheddar.getScale ct) (second : Ct) :
    sameNpsAndScales cheddar other second = sameNpsAndScales cheddar ct second := by
  rw [sameNpsAndScales, sameNpsAndScales, np, scale]

theorem hrot_add_composed (composes : Composes cheddar) {n : Int}
    (packed : PackedOperands cheddar n operands) :
    applied ctx cheddar .hrotAdd operands params fparams =
      (applied ctx cheddar .rotate ![operands 0, none, none, none] params fparams).bind
        fun rotated =>
          applied ctx cheddar .addCC ![some (.ciphertext rotated), operands 1, none, none] params
            fparams := by
  rw [applied_hrot_add, applied_rotate .rotate (Or.inl rfl)]
  simp only [applied_add_cc, Matrix.cons_val_zero, Matrix.cons_val_one, ciphertext_some,
    Option.bind_some]
  cases firstFound : ciphertext? (operands 0) with
  | none => rfl
  | some first =>
      have firstSlots := packed 0 first firstFound
      simp only [Option.bind_some, firstSlots]
      cases secondFound : ciphertext? (operands 1) with
      | none => simp
      | some second =>
          simp only [Option.bind_some, packed 1 second secondFound, max_self, rotatedBy]
          by_cases refused : normalizeRotationDistance ctx (params 0) n < 0
          · simp [refused]
          · by_cases zero : normalizeRotationDistance ctx (params 0) n = 0
            · simp [zero, composes.copy]
            · have compatible := sums_compatible (composes.rotatedNp first
                (normalizeRotationDistance ctx (params 0) n)
                (normalizeRotationDistance ctx (params 0) n))
                (composes.rotatedScale first (normalizeRotationDistance ctx (params 0) n)
                  (normalizeRotationDistance ctx (params 0) n)) second
              simp [refused, zero, compatible, composes.hRotAdd]

theorem hconj_add_composed (composes : Composes cheddar) :
    applied ctx cheddar .hconjAdd operands params fparams =
      (applied ctx cheddar .conjugate ![operands 0, none, none, none] params fparams).bind
        fun conjugated =>
          applied ctx cheddar .addCC ![some (.ciphertext conjugated), operands 1, none, none]
            params fparams := by
  rw [applied_binary .hconjAdd rfl, applied_unary .conjugate rfl]
  simp only [applied_add_cc, Matrix.cons_val_zero, Matrix.cons_val_one, ciphertext_some,
    Option.bind_some]
  cases ciphertext? (operands 0) with
  | none => rfl
  | some first =>
      have compatible (second : Ct) := sums_compatible (composes.conjugatedNp first)
        (composes.conjugatedScale first) second
      simp [Cheddar.value, compatible, composes.hConjAdd]

theorem hmult_composed (composes : Composes cheddar) :
    applied ctx cheddar .hmult operands params fparams =
      (applied ctx cheddar .multCC ![operands 0, operands 1, none, none] params fparams).map
        fun product => cheddar.rescale (cheddar.relinearize product) := by
  rw [applied_binary .hmult rfl, applied_binary .multCC rfl]
  simp only [Matrix.cons_val_zero, Matrix.cons_val_one]
  cases ciphertext? (operands 0) with
  | none => rfl
  | some first =>
      cases ciphertext? (operands 1) with
      | none => rfl
      | some second =>
          simp only [Option.bind_some]
          split <;> simp [Cheddar.value, composes.hMult]

end Applied

/-- The outcome of a run on values is the one that is told of it. -/
def Follows {κ : Type} (outcome : Int × ValueState (Payload Ct Pt) κ)
    (told : Option (Held Ct Pt)) : Prop :=
  match told with
  | none => outcome.1 = -1
  | some held => outcome.1 = 0 ∧ outcome.2.values = held

section Values

variable [DecidableEq Ptr] [DecidableEq Np] [Sub Double] [Neg Double] [Zero Double] [Mul Double]
  [LT Double] [DecidableLT Double] (ctx : FhnBackendCtx) (cheddar : Cheddar Ct Pt Np Double)

/-- What a kernel call is handed. -/
def handed (inst : FhnInstruction) (kernel : KernelCall) (held : Held Ct Pt) :
    Fin 4 → Option (Payload Ct Pt) :=
  fun slot => ((kernel.operands slot).id? inst).bind held

def appliedCalls (inst : FhnInstruction) :
    List KernelCall → Held Ct Pt → Option (Held Ct Pt)
  | [], held => some held
  | kernel :: rest, held =>
      (applied ctx cheddar kernel.opcode (handed inst kernel held) inst.params inst.fparams).bind
        fun ct => appliedCalls inst rest
          (Function.update held inst.resultId (some (.ciphertext ct)))

variable {ctx cheddar}

variable (Ptr) in
theorem value_call_refused {inst : FhnInstruction} {kernel : KernelCall}
    {state : ValueState (Payload Ct Pt) (List (CheddarCall Ct Pt))}
    (refused : applied ctx cheddar kernel.opcode (handed inst kernel state.values) inst.params
      inst.fparams = none) :
    (valueCall (cheddarModel cheddar ctx : DeviceModel Ptr _ _ _) inst kernel state).1 = -1 := by
  have undecided : ((decision ctx cheddar kernel.opcode).bind fun decide =>
      decide (fun slot => ((kernel.operands slot).id? inst).bind state.values) inst.params
        inst.fparams) = none :=
    Option.map_eq_none_iff.mp refused
  simp only [valueCall, cheddarModel, undecided]

variable (Ptr) in
theorem value_call_applied {inst : FhnInstruction} {kernel : KernelCall} {ct : Ct}
    {state : ValueState (Payload Ct Pt) (List (CheddarCall Ct Pt))}
    (computed : applied ctx cheddar kernel.opcode (handed inst kernel state.values) inst.params
      inst.fparams = some ct) :
    (valueCall (cheddarModel cheddar ctx : DeviceModel Ptr _ _ _) inst kernel state).1 = 0 ∧
      (valueCall (cheddarModel cheddar ctx : DeviceModel Ptr _ _ _) inst kernel state).2.values =
        Function.update state.values inst.resultId (some (.ciphertext ct)) := by
  obtain ⟨made, decided, rfl⟩ := Option.map_eq_some_iff.mp computed
  have found : ((decision ctx cheddar kernel.opcode).bind fun decide =>
      decide (fun slot => ((kernel.operands slot).id? inst).bind state.values) inst.params
        inst.fparams) = some made := decided
  simp only [valueCall, cheddarModel, found, and_self]

variable (Ptr ctx cheddar) in
theorem value_calls_follow (inst : FhnInstruction) (kernels : List KernelCall)
    (state : ValueState (Payload Ct Pt) (List (CheddarCall Ct Pt))) :
    Follows (valueCalls (cheddarModel cheddar ctx : DeviceModel Ptr _ _ _) inst kernels state)
      (appliedCalls ctx cheddar inst kernels state.values) := by
  induction kernels generalizing state with
  | nil => exact ⟨rfl, rfl⟩
  | cons kernel rest induction =>
      rw [valueCalls, appliedCalls]
      cases computed : applied ctx cheddar kernel.opcode (handed inst kernel state.values)
        inst.params inst.fparams with
      | none =>
          have refused := value_call_refused Ptr computed
          rw [if_pos (by omega)]
          exact refused
      | some ct =>
          obtain ⟨code, values⟩ := value_call_applied Ptr computed
          rw [if_neg (by omega), Option.bind_some, ← values]
          exact induction _

theorem direct_handed (inst : FhnInstruction) (held : Held Ct Pt) :
    handed inst (directCall inst) held = operandsOf inst held := by
  funext slot
  simp only [handed, directCall, operandsOf]
  split <;> simp_all [Slot.id?]

theorem slot_held (inst : FhnInstruction) (held : Held Ct Pt) (slot : Fin 4) :
    ((Slot.operand slot).id? inst).bind held = operandsOf inst held slot := by
  rw [Slot.id?, operandsOf]
  split <;> rfl

theorem pair_handed (inst : FhnInstruction) (opcode : FhnOpCode) (first second : Slot)
    (held : Held Ct Pt) :
    handed inst { opcode := opcode, operands := ![first, second, .absent, .absent] } held =
      ![(first.id? inst).bind held, (second.id? inst).bind held, none, none] := by
  funext slot
  fin_cases slot <;> rfl

theorem operands_updated {inst : FhnInstruction} {slot : Fin 4}
    (apart : inst.operands slot ≠ inst.resultId) (held : Held Ct Pt)
    (payload : Option (Payload Ct Pt)) :
    operandsOf inst (Function.update held inst.resultId payload) slot =
      operandsOf inst held slot := by
  rw [operandsOf, operandsOf, Function.update_of_ne apart]

theorem added_calls {inst : FhnInstruction} (apart : inst.operands 1 ≠ inst.resultId)
    (opcode : FhnOpCode) (held : Held Ct Pt) :
    appliedCalls ctx cheddar inst [onOperand opcode, addOperand] held =
      ((applied ctx cheddar opcode ![operandsOf inst held 0, none, none, none] inst.params
          inst.fparams).bind fun first =>
        applied ctx cheddar .addCC
          ![some (.ciphertext first), operandsOf inst held 1, none, none] inst.params
          inst.fparams).map fun ct =>
            Function.update held inst.resultId (some (.ciphertext ct)) := by
  have first : handed inst (onOperand opcode) held =
      ![operandsOf inst held 0, none, none, none] := by
    rw [onOperand, pair_handed, slot_held]
    rfl
  rw [appliedCalls, first]
  have code : (onOperand opcode).opcode = opcode := rfl
  rw [code]
  cases applied ctx cheddar opcode ![operandsOf inst held 0, none, none, none] inst.params
    inst.fparams with
  | none => rfl
  | some ct =>
      have second : handed inst addOperand
          (Function.update held inst.resultId (some (.ciphertext ct))) =
            ![some (.ciphertext ct), operandsOf inst held 1, none, none] := by
        rw [addOperand, pair_handed, slot_held, operands_updated apart, Slot.id?,
          Option.bind_some, Function.update_self]
      rw [Option.bind_some, Option.bind_some, appliedCalls, second]
      have add : addOperand.opcode = .addCC := rfl
      rw [add]
      cases applied ctx cheddar .addCC
        ![some (.ciphertext ct), operandsOf inst held 1, none, none] inst.params inst.fparams with
      | none => rfl
      | some sum =>
          rw [Option.bind_some, appliedCalls, Option.map_some, Function.update_idem]

theorem single_call (inst : FhnInstruction) (kernel : KernelCall) (held : Held Ct Pt) :
    appliedCalls ctx cheddar inst [kernel] held =
      (applied ctx cheddar kernel.opcode (handed inst kernel held) inst.params inst.fparams).map
        fun ct => Function.update held inst.resultId (some (.ciphertext ct)) := by
  rw [appliedCalls]
  cases applied ctx cheddar kernel.opcode (handed inst kernel held) inst.params inst.fparams <;>
    rfl

/-- The fused kernels that an executor can do without. -/
def fused (opcode : FhnOpCode) : Bool :=
  opcode ∈ [FhnOpCode.hmult, .hrot, .hrotAdd, .hconjAdd]

def KeepsPrimitives (keep : FhnOpCode → Bool) : Prop :=
  ∀ opcode, fused opcode = false → keep opcode = true

variable {keep : FhnOpCode → Bool}

variable (Ptr ctx cheddar keep) in
/-- The dispatch table over what is kept. -/
abbrev partialTable : Dispatch Ptr (World Ptr Ct Pt) := filtered keep (cheddarTable cheddar ctx)

theorem partial_supports (opcode : FhnOpCode) :
    supports (partialTable Ptr ctx cheddar keep) opcode =
      (keep opcode && (decision ctx cheddar opcode).isSome) := by
  simp only [supports, filtered, cheddar_table_eq]
  cases keep opcode <;> simp

theorem primitive_supported (primitives : KeepsPrimitives keep) {opcode : FhnOpCode}
    (primitive : fused opcode = false) (registered : (decision ctx cheddar opcode).isSome) :
    supports (partialTable Ptr ctx cheddar keep) opcode = true := by
  rw [partial_supports, primitives opcode primitive, Bool.true_and, registered]

theorem recipe_follows {inst : FhnInstruction} {calls : List KernelCall}
    (unsupported : supports (partialTable Ptr ctx cheddar keep) inst.opcode = false)
    (steps : recipe (supports (partialTable Ptr ctx cheddar keep)) inst = (calls, true))
    (state : ValueState (Payload Ct Pt) (List (CheddarCall Ct Pt))) :
    Follows (valueInstruction (cheddarModel cheddar ctx) (partialTable Ptr ctx cheddar keep) inst
      state) (appliedCalls ctx cheddar inst calls state.values) := by
  have follows := value_calls_follow Ptr ctx cheddar inst calls state
  have kernels : kernelCalls (partialTable Ptr ctx cheddar keep) inst = calls := by
    simp [kernelCalls, unsupported, steps]
  rw [valueInstruction, kernels]
  cases told : appliedCalls ctx cheddar inst calls state.values with
  | none =>
      rw [told] at follows
      have refused : (valueCalls (cheddarModel cheddar ctx : DeviceModel Ptr _ _ _) inst calls
          state).1 = -1 := follows
      simp [Follows, dispatchCode, unsupported, refused]
  | some held =>
      rw [told] at follows
      obtain ⟨code, values⟩ := follows
      exact ⟨by simp [dispatchCode, unsupported, steps, code], values⟩

theorem unsupported_refused {inst : FhnInstruction}
    (unsupported : supports (partialTable Ptr ctx cheddar keep) inst.opcode = false)
    (steps : recipe (supports (partialTable Ptr ctx cheddar keep)) inst = ([], false))
    (state : ValueState (Payload Ct Pt) (List (CheddarCall Ct Pt))) :
    (valueInstruction (cheddarModel cheddar ctx) (partialTable Ptr ctx cheddar keep) inst
      state).1 = -1 := by
  simp [valueInstruction, dispatchCode, unsupported, steps]

theorem direct_follows {inst : FhnInstruction}
    (supported : supports (partialTable Ptr ctx cheddar keep) inst.opcode = true)
    (state : ValueState (Payload Ct Pt) (List (CheddarCall Ct Pt))) :
    Follows (valueInstruction (cheddarModel cheddar ctx) (partialTable Ptr ctx cheddar keep) inst
      state)
      ((applied ctx cheddar inst.opcode (operandsOf inst state.values) inst.params
        inst.fparams).map fun ct =>
          Function.update state.values inst.resultId (some (.ciphertext ct))) := by
  have follows := value_calls_follow Ptr ctx cheddar inst [directCall inst] state
  have kernels : kernelCalls (partialTable Ptr ctx cheddar keep) inst = [directCall inst] := by
    simp [kernelCalls, supported]
  have code (rc : Int) : dispatchCode (partialTable Ptr ctx cheddar keep) inst rc = rc := by
    simp [dispatchCode, supported]
  rw [single_call, direct_handed] at follows
  rw [valueInstruction, kernels, code]
  exact follows

theorem hmult_calls (composes : Composes cheddar) {inst : FhnInstruction} (held : Held Ct Pt) :
    appliedCalls ctx cheddar inst
        [multiplyOperands, onResult .relinearize, onResult .rescale] held =
      (applied ctx cheddar .hmult (operandsOf inst held) inst.params inst.fparams).map fun ct =>
        Function.update held inst.resultId (some (.ciphertext ct)) := by
  have first : handed inst multiplyOperands held =
      ![operandsOf inst held 0, operandsOf inst held 1, none, none] := by
    rw [multiplyOperands, pair_handed, slot_held, slot_held]
  have own (opcode : FhnOpCode) (ct : Ct) : handed inst (onResult opcode)
      (Function.update held inst.resultId (some (.ciphertext ct))) =
        ![some (.ciphertext ct), none, none, none] := by
    rw [onResult, pair_handed, Slot.id?, Option.bind_some, Function.update_self]
    rfl
  have multiply : multiplyOperands.opcode = .multCC := rfl
  have result (opcode : FhnOpCode) : (onResult opcode).opcode = opcode := rfl
  rw [hmult_composed composes, appliedCalls, first, multiply]
  cases applied ctx cheddar .multCC
    ![operandsOf inst held 0, operandsOf inst held 1, none, none] inst.params inst.fparams with
  | none => rfl
  | some product =>
      have relinearized : applied ctx cheddar .relinearize
          ![some (.ciphertext product), none, none, none] inst.params inst.fparams =
            some (cheddar.relinearize product) := rfl
      have rescaled : applied ctx cheddar .rescale
          ![some (.ciphertext (cheddar.relinearize product)), none, none, none] inst.params
          inst.fparams = some (cheddar.rescale (cheddar.relinearize product)) := rfl
      rw [Option.bind_some, appliedCalls, own, result, relinearized, Option.bind_some,
        Function.update_idem, appliedCalls, own, result, rescaled, Option.bind_some,
        Function.update_idem, appliedCalls]
      rfl

theorem unregistered {opcode : FhnOpCode} (primitives : KeepsPrimitives keep)
    (unsupported : supports (partialTable Ptr ctx cheddar keep) opcode = false)
    (primitive : fused opcode = false) : decision ctx cheddar opcode = none := by
  rw [partial_supports, primitives opcode primitive, Bool.true_and] at unsupported
  exact Option.isSome_eq_false_iff.mp unsupported |> Option.isNone_iff_eq_none.mp

section Instructions

variable {inst : FhnInstruction} {state : ValueState (Payload Ct Pt) (List (CheddarCall Ct Pt))}

variable (Ptr ctx cheddar keep inst state) in
/-- On values the executor ends an instruction with this result, or fails for want of one. -/
abbrev Computes (value : Option Ct) : Prop :=
  Follows (valueInstruction (cheddarModel cheddar ctx) (partialTable Ptr ctx cheddar keep) inst
    state) (value.map fun ct =>
      Function.update state.values inst.resultId (some (.ciphertext ct)))

theorem direct_computes
    (supported : supports (partialTable Ptr ctx cheddar keep) inst.opcode = true) :
    Computes Ptr ctx cheddar keep inst state (instructionValue ctx cheddar inst state.values) := by
  have notMad : inst.opcode ≠ .mad := by
    intro mad
    rw [mad, partial_supports] at supported
    simp [decision] at supported
  have value : instructionValue ctx cheddar inst state.values =
      applied ctx cheddar inst.opcode (operandsOf inst state.values) inst.params inst.fparams := by
    rw [instructionValue]
    split
    · contradiction
    · rfl
  rw [value]
  exact direct_follows supported state

variable (primitives : KeepsPrimitives keep)
  (unsupported : supports (partialTable Ptr ctx cheddar keep) inst.opcode = false)

include primitives unsupported

theorem hmult_computes (composes : Composes cheddar) (opcode : inst.opcode = .hmult) :
    Computes Ptr ctx cheddar keep inst state
      (applied ctx cheddar .hmult (operandsOf inst state.values) inst.params inst.fparams) := by
  have steps : recipe (supports (partialTable Ptr ctx cheddar keep)) inst =
      ([multiplyOperands, onResult .relinearize, onResult .rescale], true) := by
    have multiply : supports (partialTable Ptr ctx cheddar keep) .multCC = true :=
      primitive_supported primitives rfl rfl
    have relinearize : supports (partialTable Ptr ctx cheddar keep) .relinearize = true :=
      primitive_supported primitives rfl rfl
    have rescale : supports (partialTable Ptr ctx cheddar keep) .rescale = true :=
      primitive_supported primitives rfl rfl
    simp [recipe, opcode, multiply, relinearize, rescale]
  have follows := recipe_follows unsupported steps state
  rw [hmult_calls composes] at follows
  exact follows

theorem hrot_computes (opcode : inst.opcode = .hrot) :
    Computes Ptr ctx cheddar keep inst state
      (applied ctx cheddar .hrot (operandsOf inst state.values) inst.params inst.fparams) := by
  have steps : recipe (supports (partialTable Ptr ctx cheddar keep)) inst =
      ([onOperand .rotate], true) := by
    have rotate : supports (partialTable Ptr ctx cheddar keep) .rotate = true :=
      primitive_supported primitives rfl rfl
    simp [recipe, opcode, rotate]
  have handed : handed inst (onOperand .rotate) state.values =
      ![operandsOf inst state.values 0, none, none, none] := by
    rw [onOperand, pair_handed, slot_held]
    rfl
  have code : (onOperand .rotate).opcode = .rotate := rfl
  have follows := recipe_follows unsupported steps state
  rw [single_call, handed, code, applied_rotate .rotate (Or.inl rfl)] at follows
  rw [applied_rotate .hrot (Or.inr rfl)]
  exact follows

/-- The rotation is `FHN_HROT` if the table has it, and `FHN_ROTATE` otherwise. -/
theorem hrot_add_computes (composes : Composes cheddar) (opcode : inst.opcode = .hrotAdd)
    (apart : inst.operands 1 ≠ inst.resultId) {n : Int} (packed : Packed cheddar n state.values) :
    Computes Ptr ctx cheddar keep inst state
      (applied ctx cheddar .hrotAdd (operandsOf inst state.values) inst.params inst.fparams) := by
  have add : supports (partialTable Ptr ctx cheddar keep) .addCC = true :=
    primitive_supported primitives rfl rfl
  have follows : Follows (valueInstruction (cheddarModel cheddar ctx)
      (partialTable Ptr ctx cheddar keep) inst state)
      (appliedCalls ctx cheddar inst [onOperand .rotate, addOperand] state.values) := by
    cases whole : supports (partialTable Ptr ctx cheddar keep) .hrot with
    | true =>
        have steps : recipe (supports (partialTable Ptr ctx cheddar keep)) inst =
            ([onOperand .hrot, addOperand], true) := by simp [recipe, opcode, whole, add]
        have follows := recipe_follows unsupported steps state
        rw [added_calls apart, applied_rotate .hrot (Or.inr rfl)] at follows
        rw [added_calls apart, applied_rotate .rotate (Or.inl rfl)]
        exact follows
    | false =>
        have rotate : supports (partialTable Ptr ctx cheddar keep) .rotate = true :=
          primitive_supported primitives rfl rfl
        have steps : recipe (supports (partialTable Ptr ctx cheddar keep)) inst =
            ([onOperand .rotate, addOperand], true) := by
          simp [recipe, opcode, whole, rotate, add]
        exact recipe_follows unsupported steps state
  rw [added_calls apart, ← hrot_add_composed composes (packed_operands packed inst)] at follows
  exact follows

theorem hconj_add_computes (composes : Composes cheddar) (opcode : inst.opcode = .hconjAdd)
    (apart : inst.operands 1 ≠ inst.resultId) :
    Computes Ptr ctx cheddar keep inst state
      (applied ctx cheddar .hconjAdd (operandsOf inst state.values) inst.params inst.fparams) := by
  have steps : recipe (supports (partialTable Ptr ctx cheddar keep)) inst =
      ([onOperand .conjugate, addOperand], true) := by
    have conjugate : supports (partialTable Ptr ctx cheddar keep) .conjugate = true :=
      primitive_supported primitives rfl rfl
    have add : supports (partialTable Ptr ctx cheddar keep) .addCC = true :=
      primitive_supported primitives rfl rfl
    simp [recipe, opcode, conjugate, add]
  have follows := recipe_follows unsupported steps state
  rw [added_calls apart, ← hconj_add_composed composes] at follows
  exact follows

theorem mad_computes (opcode : inst.opcode = .mad) (apart : inst.operands 1 ≠ inst.resultId) :
    Computes Ptr ctx cheddar keep inst state (madValue ctx cheddar inst state.values) := by
  rw [madValue]
  by_cases refused : inst.operands 1 = 0 ∨ inst.operands 1 = inst.resultId
  · rw [if_pos refused]
    exact unsupported_refused unsupported (by simp [recipe, opcode, refused]) state
  · rw [if_neg refused]
    have steps : recipe (supports (partialTable Ptr ctx cheddar keep)) inst =
        ([onOperand .multCS, addOperand], true) := by
      have multiply : supports (partialTable Ptr ctx cheddar keep) .multCS = true :=
        primitive_supported primitives rfl rfl
      have add : supports (partialTable Ptr ctx cheddar keep) .addCC = true :=
        primitive_supported primitives rfl rfl
      simp [recipe, opcode, refused, multiply, add]
    have follows := recipe_follows unsupported steps state
    rw [added_calls apart] at follows
    exact follows

theorem missing_computes (primitive : fused inst.opcode = false)
    (steps : recipe (supports (partialTable Ptr ctx cheddar keep)) inst = ([], false)) :
    Computes Ptr ctx cheddar keep inst state
      (applied ctx cheddar inst.opcode (operandsOf inst state.values) inst.params
        inst.fparams) := by
  have missing : decision ctx cheddar inst.opcode = none :=
    unregistered primitives unsupported primitive
  rw [applied, missing]
  exact unsupported_refused unsupported steps state

omit unsupported in
theorem instruction_follows (composes : Composes cheddar)
    (apart : inst.operands 1 ≠ inst.resultId) {n : Int} (packed : Packed cheddar n state.values) :
    Computes Ptr ctx cheddar keep inst state (instructionValue ctx cheddar inst state.values) := by
  cases supported : supports (partialTable Ptr ctx cheddar keep) inst.opcode with
  | true => exact direct_computes supported
  | false =>
      rw [instructionValue]
      cases opcode : inst.opcode with
      | hmult => exact hmult_computes primitives supported composes opcode
      | hrot => exact hrot_computes primitives supported opcode
      | hrotAdd => exact hrot_add_computes primitives supported composes opcode apart packed
      | hconjAdd => exact hconj_add_computes primitives supported composes opcode apart
      | mad => exact mad_computes primitives supported opcode apart
      | _ =>
          have missing : Computes Ptr ctx cheddar keep inst state (applied ctx cheddar inst.opcode
              (operandsOf inst state.values) inst.params inst.fparams) :=
            missing_computes primitives supported (by rw [opcode]; rfl) (by simp [recipe, opcode])
          rw [opcode] at missing
          exact missing

end Instructions

end Values

theorem clear_composes : Composes clearVectors where
  hMult := fun _ _ => rfl
  hRotAdd := fun _ _ _ _ => rfl
  hConjAdd := fun _ _ => rfl
  copy := fun _ => rfl
  rotatedNp := fun _ _ _ => rfl
  rotatedScale := fun _ _ _ => rfl
  conjugatedNp := fun _ => rfl
  conjugatedScale := fun _ => rfl

theorem clear_keeps_slots : KeepsSlots clearVectors := by
  intro call n slots
  have length (ct : List Int) (member : ct ∈ ciphertexts call) : (ct.length : Int) = n :=
    slots ct member
  cases call <;>
    simp only [ciphertexts, List.forall_mem_cons, List.mem_singleton, forall_eq] at length <;>
    simp [clearVectors, Cheddar.value, length]

theorem primitive_keeps : KeepsPrimitives primitive := by
  intro opcode unfused
  cases opcode <;> first | rfl | cases unfused

end Fhenomenon.CheddarMeaning
