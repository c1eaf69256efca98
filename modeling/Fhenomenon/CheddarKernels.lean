import Fhenomenon.CheddarLevels
import Fhenomenon.ToyFheExecution

/-!
# The kernel table of the Cheddar backend

Cheddar itself is a parameter. A kernel looks at its operands, refuses or decides on
the calls to make, and keeps the value of the last one. The world logs every call,
because cheddar ends the process when a call breaks one of its assertions.
-/

namespace Fhenomenon.CheddarKernels

open Fhenomenon.Lib.MachineInt
open Fhenomenon.InstructionStream Fhenomenon.MovementPlanner Fhenomenon.DefaultExecutor
open Fhenomenon.DeviceAbi Fhenomenon.ToyFheExecution
open Fhenomenon.CheddarLevels (CheddarBufKind)

/-- A call into cheddar's context. Key switches carry the rotation key they are handed;
`none` is the multiplication key. -/
inductive CheddarCall (Ct Pt : Type)
  | add (first second : Ct) | addPlain (first : Ct) (second : Pt)
  | sub (first second : Ct) | subPlain (first : Ct) (second : Pt)
  | neg (ct : Ct)
  | mult (first second : Ct) | multPlain (first : Ct) (second : Pt)
  | addScalar (ct : Ct) (scalar : Rat) | multScalar (ct : Ct) (scalar : Rat)
  | relinearize (ct : Ct) | rescale (ct : Ct)
  | copy (ct : Ct) | hRot (ct : Ct) (key dist : Int) | hConj (ct : Ct)
  | multKey (ct : Ct) (key : Option Int)
  | hMult (first second : Ct) | hRotAdd (first second : Ct) (key dist : Int)
  | hConjAdd (first second : Ct)
  | levelDown (ct : Ct) (target : Int)
deriving DecidableEq

/-- What the backend uses of cheddar. `Double` is the type of scales. -/
structure Cheddar (Ct Pt Np Double : Type) extends CheddarLevels.Cheddar Ct Np where
  getPlainNp : Pt → Np
  getScale : Ct → Double
  getPlainScale : Pt → Double
  getNumSlots : Ct → Int
  scaleErrorMargin : Double
  add : Ct → Ct → Ct
  addPlain : Ct → Pt → Ct
  sub : Ct → Ct → Ct
  subPlain : Ct → Pt → Ct
  neg : Ct → Ct
  mult : Ct → Ct → Ct
  multPlain : Ct → Pt → Ct
  addScalar : Ct → Rat → Ct
  multScalar : Ct → Rat → Ct
  relinearize : Ct → Ct
  rescale : Ct → Ct
  copy : Ct → Ct
  hRot : Ct → Int → Int → Ct
  hConj : Ct → Ct
  multKey : Ct → Option Int → Ct
  hMult : Ct → Ct → Ct
  hRotAdd : Ct → Ct → Int → Int → Ct
  hConjAdd : Ct → Ct → Ct

variable {Ptr Ct Pt Np Double : Type}

def Cheddar.value (cheddar : Cheddar Ct Pt Np Double) : CheddarCall Ct Pt → Ct
  | .add first second => cheddar.add first second
  | .addPlain first second => cheddar.addPlain first second
  | .sub first second => cheddar.sub first second
  | .subPlain first second => cheddar.subPlain first second
  | .neg ct => cheddar.neg ct
  | .mult first second => cheddar.mult first second
  | .multPlain first second => cheddar.multPlain first second
  | .addScalar ct scalar => cheddar.addScalar ct scalar
  | .multScalar ct scalar => cheddar.multScalar ct scalar
  | .relinearize ct => cheddar.relinearize ct
  | .rescale ct => cheddar.rescale ct
  | .copy ct => cheddar.copy ct
  | .hRot ct key dist => cheddar.hRot ct key dist
  | .hConj ct => cheddar.hConj ct
  | .multKey ct key => cheddar.multKey ct key
  | .hMult first second => cheddar.hMult first second
  | .hRotAdd first second key dist => cheddar.hRotAdd first second key dist
  | .hConjAdd first second => cheddar.hConjAdd first second
  | .levelDown ct target => cheddar.levelDown ct target

/-- Of the context: the ring degree, and the distances whose keys were prepared. -/
structure FhnBackendCtx where
  degree : Nat
  preparedRotationKeys : Finset Int

/-- What a buffer holds, by its kind. -/
inductive Payload (Ct Pt : Type)
  | empty | ciphertext (ct : Ct) | plaintext (pt : Pt) | message
deriving DecidableEq

/-- The staged message is read by no kernel. -/
structure FhnBuffer (Ct Pt : Type) extends CheddarLevels.FhnBuffer Ct where
  pt : Pt

def FhnBuffer.payload (buffer : FhnBuffer Ct Pt) : Payload Ct Pt :=
  match buffer.kind with
  | .empty => .empty
  | .ciphertext => .ciphertext buffer.ct
  | .plaintext => .plaintext buffer.pt
  | .message => .message

def ciphertext? : Option (Payload Ct Pt) → Option Ct
  | some (.ciphertext ct) => some ct
  | _ => none

def plaintext? : Option (Payload Ct Pt) → Option Pt
  | some (.plaintext pt) => some pt
  | _ => none

section Guards

variable (cheddar : Cheddar Ct Pt Np Double)

def sameNp [DecidableEq Np] (np otherNp : Np) : Bool := decide (np = otherNp)

def sameNpAndScale [DecidableEq Np] [Sub Double] [Neg Double] [Zero Double] [Mul Double]
    [LT Double] [DecidableLT Double] (np otherNp : Np) (scale otherScale : Double) : Bool :=
  if !sameNp np otherNp then false
  else
    let diff := scale - otherScale
    let diff := if diff < 0 then -diff else diff
    decide (diff < cheddar.scaleErrorMargin * scale)

/-- `-1` when the key of a distance other than zero was never prepared. -/
def normalizeRotationDistance (ctx : FhnBackendCtx) (rawDist numSlots : Int) : Int :=
  if numSlots ≤ 0 then -1
  else
    let dist := wrap 32 ((rawDist.tmod numSlots + numSlots).tmod numSlots)
    if dist = 0 then 0
    else if dist ∉ ctx.preparedRotationKeys then -1
    else dist

end Guards

/-- The calls a kernel makes, the last of which gives the result; `none` is a refusal. -/
abbrev Decision (Ct Pt : Type) :=
  (Fin 4 → Option (Payload Ct Pt)) → (Fin 4 → Int) → (Fin 2 → Rat) →
    Option (List (CheddarCall Ct Pt) × CheddarCall Ct Pt)

/-- One ciphertext, and a call that cannot be refused. -/
def unary (call : Ct → CheddarCall Ct Pt) : Decision Ct Pt := fun operands _ _ => do
  let ct ← ciphertext? (operands 0)
  return ([], call ct)

/-- `fparams[0]` is the scalar. -/
def scalar (call : Ct → Rat → CheddarCall Ct Pt) : Decision Ct Pt := fun operands _ fparams => do
  let ct ← ciphertext? (operands 0)
  return ([], call ct (fparams 0))

def onCiphertexts (compatible : Ct → Ct → Bool) (call : Ct → Ct → CheddarCall Ct Pt) :
    Decision Ct Pt := fun operands _ _ => do
  let first ← ciphertext? (operands 0)
  let second ← ciphertext? (operands 1)
  if !compatible first second then none
  else return ([], call first second)

def onPlaintext (compatible : Ct → Pt → Bool) (call : Ct → Pt → CheddarCall Ct Pt) :
    Decision Ct Pt := fun operands _ _ => do
  let first ← ciphertext? (operands 0)
  let second ← plaintext? (operands 1)
  if !compatible first second then none
  else return ([], call first second)

section Kernels

variable [DecidableEq Np] [Sub Double] [Neg Double] [Zero Double] [Mul Double] [LT Double]
  [DecidableLT Double] (ctx : FhnBackendCtx)
  (cheddar : Cheddar Ct Pt Np Double)

def sameNps (first second : Ct) : Bool := sameNp (cheddar.getNp first) (cheddar.getNp second)

def samePlainNp (first : Ct) (second : Pt) : Bool :=
  sameNp (cheddar.getNp first) (cheddar.getPlainNp second)

def sameNpsAndScales (first second : Ct) : Bool :=
  sameNpAndScale cheddar (cheddar.getNp first) (cheddar.getNp second) (cheddar.getScale first)
    (cheddar.getScale second)

def samePlainNpAndScale (first : Ct) (second : Pt) : Bool :=
  sameNpAndScale cheddar (cheddar.getNp first) (cheddar.getPlainNp second)
    (cheddar.getScale first) (cheddar.getPlainScale second)

def cheddarAddCc : Decision Ct Pt := onCiphertexts (sameNpsAndScales cheddar) .add
def cheddarAddCp : Decision Ct Pt := onPlaintext (samePlainNpAndScale cheddar) .addPlain
def cheddarSubCc : Decision Ct Pt := onCiphertexts (sameNpsAndScales cheddar) .sub
def cheddarSubCp : Decision Ct Pt := onPlaintext (samePlainNpAndScale cheddar) .subPlain
def cheddarNegate : Decision Ct Pt := unary .neg
def cheddarMultCc : Decision Ct Pt := onCiphertexts (sameNps cheddar) .mult
def cheddarMultCp : Decision Ct Pt := onPlaintext (samePlainNp cheddar) .multPlain
def cheddarAddCs : Decision Ct Pt := scalar .addScalar
def cheddarMultCs : Decision Ct Pt := scalar .multScalar

/-- The negated ciphertext is a local of the kernel. -/
def cheddarSubSc : Decision Ct Pt := fun operands _ fparams => do
  let ct ← ciphertext? (operands 0)
  return ([.neg ct], .addScalar (cheddar.neg ct) (fparams 0))

def cheddarRelinearize : Decision Ct Pt := unary .relinearize
def cheddarRescale : Decision Ct Pt := unary .rescale

def cheddarRotate : Decision Ct Pt := fun operands params _ => do
  let ct ← ciphertext? (operands 0)
  let dist := normalizeRotationDistance ctx (params 0) (cheddar.getNumSlots ct)
  if dist < 0 then none
  else if dist = 0 then return ([], .copy ct)
  else return ([], .hRot ct dist dist)

def cheddarConjugate : Decision Ct Pt := unary .hConj

/-- Key indices are normalized over the slots of the ring, whatever the operand has. -/
def cheddarMultKey : Decision Ct Pt := fun operands params _ => do
  let ct ← ciphertext? (operands 0)
  if params 0 = 0 then return ([], .multKey ct none)
  else
    let keyIdx := normalizeRotationDistance ctx (params 0) ((ctx.degree : Int).tdiv 2)
    if keyIdx ≤ 0 then none
    else return ([], .multKey ct (some keyIdx))

def cheddarHmult : Decision Ct Pt := onCiphertexts (sameNps cheddar) .hMult
def cheddarHrot : Decision Ct Pt := cheddarRotate ctx cheddar

def cheddarHrotAdd : Decision Ct Pt := fun operands params _ => do
  let first ← ciphertext? (operands 0)
  let second ← ciphertext? (operands 1)
  if !sameNpsAndScales cheddar first second then none
  else
    let numSlots := max (cheddar.getNumSlots first) (cheddar.getNumSlots second)
    let dist := normalizeRotationDistance ctx (params 0) numSlots
    if dist < 0 then none
    else if dist = 0 then return ([], .add first second)
    else return ([], .hRotAdd first second dist dist)

def cheddarHconjAdd : Decision Ct Pt := onCiphertexts (sameNpsAndScales cheddar) .hConjAdd

def cheddarLevelDown : Decision Ct Pt := fun operands params _ => do
  let ct ← ciphertext? (operands 0)
  let targetLevel := wrap 32 (params 0)
  let currentLevel := cheddar.npToLevel (cheddar.getNp ct)
  if targetLevel < 0 ∨ targetLevel > currentLevel then none
  else return ([], .levelDown ct targetLevel)

/-- What the kernel of an opcode decides, where the table has one. -/
def decision : FhnOpCode → Option (Decision Ct Pt)
  | .addCC => some (cheddarAddCc cheddar)
  | .addCP => some (cheddarAddCp cheddar)
  | .addCS => some cheddarAddCs
  | .subCC => some (cheddarSubCc cheddar)
  | .subCP => some (cheddarSubCp cheddar)
  | .subSC => some (cheddarSubSc cheddar)
  | .negate => some cheddarNegate
  | .multCC => some (cheddarMultCc cheddar)
  | .multCP => some (cheddarMultCp cheddar)
  | .multCS => some cheddarMultCs
  | .relinearize => some cheddarRelinearize
  | .rescale => some cheddarRescale
  | .rotate => some (cheddarRotate ctx cheddar)
  | .conjugate => some cheddarConjugate
  | .multKey => some (cheddarMultKey ctx)
  | .hmult => some (cheddarHmult cheddar)
  | .hrot => some (cheddarHrot ctx cheddar)
  | .hrotAdd => some (cheddarHrotAdd ctx cheddar)
  | .hconjAdd => some (cheddarHconjAdd cheddar)
  | .levelDown => some (cheddarLevelDown cheddar)
  | _ => none

end Kernels

/-- `live` are the buffers that `fhn_buffer_alloc` returned and nothing freed. -/
structure World (Ptr Ct Pt : Type) where
  heap : Ptr → FhnBuffer Ct Pt
  live : Finset Ptr
  calls : List (CheddarCall Ct Pt) := []
  faulted : Bool := false

/-- What the operand pointers of a kernel point to. -/
def read (heap : Ptr → FhnBuffer Ct Pt) (operands : Fin 4 → Option Ptr) :
    Fin 4 → Option (Payload Ct Pt) :=
  fun slot => (operands slot).map fun buffer => (heap buffer).payload

section Table

variable [DecidableEq Ptr] (cheddar : Cheddar Ct Pt Np Double)

/-- The kernel of a decision. A null result is dereferenced only after the guards. -/
def kernelOf (decide : Decision Ct Pt) : FhnKernelFn Ptr (World Ptr Ct Pt) :=
  fun result operands params fparams world =>
    match decide (read world.heap operands) params fparams with
    | none => (-1, world)
    | some (before, last) =>
        match result with
        | none => (-1, { world with calls := world.calls ++ before, faulted := true })
        | some buffer =>
            (0, { world with
              heap := Function.update world.heap buffer
                { world.heap buffer with kind := .ciphertext, ct := cheddar.value last }
              calls := world.calls ++ before ++ [last] })

section Outcomes

variable {cheddar} {decide : Decision Ct Pt} {operands : Fin 4 → Option Ptr}
  {params : Fin 4 → Int} {fparams : Fin 2 → Rat} {world : World Ptr Ct Pt}

theorem kernel_refuses {result : Option Ptr}
    (refused : decide (read world.heap operands) params fparams = none) :
    kernelOf cheddar decide result operands params fparams world = (-1, world) := by
  rw [kernelOf, refused]

theorem kernel_decides {buffer : Ptr} {made : List (CheddarCall Ct Pt) × CheddarCall Ct Pt}
    (decided : decide (read world.heap operands) params fparams = some made) :
    kernelOf cheddar decide (some buffer) operands params fparams world =
      (0, { world with
        heap := Function.update world.heap buffer
          { world.heap buffer with kind := .ciphertext, ct := cheddar.value made.2 }
        calls := world.calls ++ made.1 ++ [made.2] }) := by
  rw [kernelOf, decided]

end Outcomes

variable [DecidableEq Np] [Sub Double] [Neg Double] [Zero Double] [Mul Double] [LT Double]
  [DecidableLT Double] (ctx : FhnBackendCtx)

def cheddarKernels : List (FhnKernelEntry Ptr (World Ptr Ct Pt)) :=
  [{ opcode := .addCC, fn := some (kernelOf cheddar (cheddarAddCc cheddar)) },
   { opcode := .addCP, fn := some (kernelOf cheddar (cheddarAddCp cheddar)) },
   { opcode := .addCS, fn := some (kernelOf cheddar cheddarAddCs) },
   { opcode := .subCC, fn := some (kernelOf cheddar (cheddarSubCc cheddar)) },
   { opcode := .subCP, fn := some (kernelOf cheddar (cheddarSubCp cheddar)) },
   { opcode := .subSC, fn := some (kernelOf cheddar (cheddarSubSc cheddar)) },
   { opcode := .negate, fn := some (kernelOf cheddar cheddarNegate) },
   { opcode := .multCC, fn := some (kernelOf cheddar (cheddarMultCc cheddar)) },
   { opcode := .multCP, fn := some (kernelOf cheddar (cheddarMultCp cheddar)) },
   { opcode := .multCS, fn := some (kernelOf cheddar cheddarMultCs) },
   { opcode := .relinearize, fn := some (kernelOf cheddar cheddarRelinearize) },
   { opcode := .rescale, fn := some (kernelOf cheddar cheddarRescale) },
   { opcode := .rotate, fn := some (kernelOf cheddar (cheddarRotate ctx cheddar)) },
   { opcode := .conjugate, fn := some (kernelOf cheddar cheddarConjugate) },
   { opcode := .multKey, fn := some (kernelOf cheddar (cheddarMultKey ctx)) },
   { opcode := .hmult, fn := some (kernelOf cheddar (cheddarHmult cheddar)) },
   { opcode := .hrot, fn := some (kernelOf cheddar (cheddarHrot ctx cheddar)) },
   { opcode := .hrotAdd, fn := some (kernelOf cheddar (cheddarHrotAdd ctx cheddar)) },
   { opcode := .hconjAdd, fn := some (kernelOf cheddar (cheddarHconjAdd cheddar)) },
   { opcode := .levelDown, fn := some (kernelOf cheddar (cheddarLevelDown cheddar)) }]

/-- The dispatch table of an executor over these kernels. -/
def cheddarTable : Dispatch Ptr (World Ptr Ct Pt) := dispatchTable (cheddarKernels cheddar ctx)

theorem cheddar_table_eq (opcode : FhnOpCode) :
    (cheddarTable cheddar ctx : Dispatch Ptr (World Ptr Ct Pt)) opcode =
      (decision ctx cheddar opcode).map (kernelOf cheddar) := by
  cases opcode <;> rfl

variable [Inhabited Ct] [Inhabited Pt]

def fhnBufferAlloc (fresh : Finset Ptr → Ptr) (world : World Ptr Ct Pt) :
    Option Ptr × World Ptr Ct Pt :=
  let buffer := fresh world.live
  (some buffer,
    { world with
      heap := Function.update world.heap buffer { ct := default, pt := default }
      live := insert buffer world.live })

def fhnBufferFree (buffer : Option Ptr) (world : World Ptr Ct Pt) : World Ptr Ct Pt :=
  match buffer with
  | none => world
  | some buffer => { world with live := world.live.erase buffer }

/-- The library exports no movement hooks. -/
def cheddarHooks (fresh : Finset Ptr → Ptr) : FhnMovementHooks Ptr (World Ptr Ct Pt) where
  bufferAlloc := some (fhnBufferAlloc fresh)
  bufferFree := some fhnBufferFree

def cheddarModel : DeviceModel Ptr (World Ptr Ct Pt) (Payload Ct Pt) (List (CheddarCall Ct Pt))
    where
  cell := fun world buffer =>
    if buffer ∈ world.live then some ⟨true, (world.heap buffer).payload⟩ else none
  context := World.calls
  apply := fun opcode calls operands params fparams =>
    match (decision ctx cheddar opcode).bind fun decide => decide operands params fparams with
    | none => (-1, .empty, calls)
    | some (before, last) => (0, .ciphertext (cheddar.value last), calls ++ before ++ [last])

variable {cheddar ctx}

omit [Inhabited Ct] [Inhabited Pt] in
theorem cheddar_cell {world : World Ptr Ct Pt} {buffer : Ptr} (live : buffer ∈ world.live) :
    (cheddarModel cheddar ctx).cell world buffer =
      some ⟨true, (world.heap buffer).payload⟩ :=
  if_pos live

omit [Inhabited Ct] [Inhabited Pt] in
theorem cheddar_resident {world : World Ptr Ct Pt} {buffer : Ptr} :
    (cheddarModel cheddar ctx).Resident world buffer ↔ buffer ∈ world.live := by
  constructor
  · rintro ⟨value, cell⟩
    by_contra dead
    have none : (cheddarModel cheddar ctx).cell world buffer = none := if_neg dead
    rw [none] at cell
    cases cell
  · intro live
    exact ⟨_, cheddar_cell live⟩

omit [Inhabited Ct] [Inhabited Pt] in
theorem cheddar_contents {world : World Ptr Ct Pt} {buffer : Ptr} (live : buffer ∈ world.live) :
    (cheddarModel cheddar ctx).contents world buffer = some (world.heap buffer).payload := by
  rw [DeviceModel.contents, cheddar_cell live, Option.map_some]

omit [Inhabited Ct] [Inhabited Pt] in
theorem cheddar_kernel_law :
    KernelLaw (cheddarModel cheddar ctx)
      (cheddarTable cheddar ctx : Dispatch Ptr (World Ptr Ct Pt)) := by
  intro opcode fn registered world result operands params fparams live operandsLive
  rw [cheddar_table_eq] at registered
  obtain ⟨decide, decided, rfl⟩ := Option.map_eq_some_iff.mp registered
  have reads : (fun slot => (operands slot).bind ((cheddarModel cheddar ctx).contents world)) =
      read world.heap operands := by
    funext slot
    rw [read]
    cases handed : operands slot with
    | none => rfl
    | some buffer =>
        exact cheddar_contents (cheddar_resident.mp (operandsLive slot buffer handed))
  have applied : (cheddarModel cheddar ctx : DeviceModel Ptr _ _ _).apply opcode world.calls
      (read world.heap operands) params fparams =
        match decide (read world.heap operands) params fparams with
        | none => (-1, .empty, world.calls)
        | some (before, last) =>
            (0, .ciphertext (cheddar.value last), world.calls ++ before ++ [last]) := by
    simp only [cheddarModel, decided, Option.bind_some]
  have context : (cheddarModel cheddar ctx : DeviceModel Ptr _ _ _).context world =
      world.calls := rfl
  rw [reads, context, applied]
  cases outcome : decide (read world.heap operands) params fparams with
  | none =>
      rw [kernel_refuses outcome]
      refine ⟨rfl, fun impossible => ?_⟩
      have negative : (-1 : Int) = 0 := impossible
      omega
  | some made =>
      rw [kernel_decides outcome]
      refine ⟨rfl, fun _ => ⟨?_, rfl⟩⟩
      intro buffer
      have member := cheddar_resident.mp live
      by_cases same : buffer = result
      · rw [if_pos same, same, cheddar_cell (by exact member)]
        simp only [Function.update_self]
        rfl
      · simp only [cheddarModel, if_neg same, Function.update_of_ne same]

theorem cheddar_hook_laws {fresh : Finset Ptr → Ptr} (pointers : FreshPointers fresh) :
    HookLaws (cheddarModel cheddar ctx) (cheddarHooks fresh : FhnMovementHooks Ptr _)
      (fhnBufferAlloc fresh) fhnBufferFree where
  allocHook := rfl
  freeHook := rfl
  paired := fun impossible => nomatch impossible
  allocated := by
    intro world
    refine ⟨fresh world.live, .empty, rfl, if_neg (pointers world.live), ?_, rfl⟩
    intro buffer
    by_cases same : buffer = fresh world.live
    · rw [if_pos same, same, cheddar_cell (Finset.mem_insert_self ..)]
      simp only [fhnBufferAlloc, Function.update_self, FhnBuffer.payload]
    · simp only [cheddarModel, fhnBufferAlloc, Finset.mem_insert, same, false_or,
        Function.update_of_ne same, if_false]
  freed := by
    intro world buffer cell live
    refine ⟨?_, rfl⟩
    intro other
    by_cases same : other = buffer
    · simp [cheddarModel, fhnBufferFree, same]
    · simp [cheddarModel, fhnBufferFree, same]
  evicted := fun _ impossible => nomatch impossible
  prefetched := fun _ impossible => nomatch impossible

end Table

def CheddarCall.target? : CheddarCall Ct Pt → Option Int
  | .levelDown _ target => some target
  | _ => none

/-- What `CheddarLevels` sees of a world. -/
def levelsWorld (world : World Ptr Ct Pt) : CheddarLevels.World Ptr Ct where
  heap := fun buffer => (world.heap buffer).toFhnBuffer
  lowered := world.calls.filterMap CheddarCall.target?
  faulted := world.faulted

theorem level_down_kernel [DecidableEq Ptr] (cheddar : Cheddar Ct Pt Np Double)
    (result : Option Ptr) (operands : Fin 4 → Option Ptr) (params : Fin 4 → Int)
    (fparams : Fin 2 → Rat) (world : World Ptr Ct Pt) :
    CheddarLevels.cheddarLevelDown cheddar.toCheddar result operands params fparams
        (levelsWorld world) =
      Prod.map id levelsWorld
        (kernelOf cheddar (cheddarLevelDown cheddar) result operands params fparams world) := by
  have decided : cheddarLevelDown cheddar (read world.heap operands) params fparams =
      (ciphertext? (read world.heap operands 0)).bind fun ct =>
        if wrap 32 (params 0) < 0 ∨ wrap 32 (params 0) > cheddar.npToLevel (cheddar.getNp ct) then
          none
        else some ([], .levelDown ct (wrap 32 (params 0))) := rfl
  rw [CheddarLevels.cheddarLevelDown, kernelOf, decided, read]
  cases operands 0 with
  | none => rfl
  | some source =>
      cases kind : (world.heap source).kind with
      | ciphertext =>
          simp only [CheddarLevels.isCiphertext, levelsWorld, kind, decide_true, Bool.not_true,
            Bool.false_eq_true, if_false, Option.map_some, FhnBuffer.payload, ciphertext?,
            Option.bind_some]
          by_cases refused : wrap 32 (params 0) < 0 ∨
              wrap 32 (params 0) > cheddar.npToLevel (cheddar.getNp (world.heap source).ct)
          · simp only [refused, if_true]
            rfl
          · simp only [refused, if_false]
            cases result with
            | none => simp [levelsWorld]
            | some buffer =>
                simp only [Prod.map_apply, id_eq, levelsWorld, Prod.mk.injEq, true_and,
                  CheddarLevels.World.mk.injEq, and_true]
                constructor
                · funext other
                  by_cases same : other = buffer
                  · rw [same, Function.update_self, Function.update_self]
                    rfl
                  · rw [Function.update_of_ne same, Function.update_of_ne same]
                · simp [List.filterMap_append, CheddarCall.target?]
      | _ =>
          simp [CheddarLevels.isCiphertext, levelsWorld, kind, FhnBuffer.payload, ciphertext?]

end Fhenomenon.CheddarKernels
