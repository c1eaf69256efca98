import Fhenomenon.DefaultExecutor
import Fhenomenon.ToyFhe

/-!
# The ToyFHE kernels

`ToyFheKernels`: the reference backend's kernel table. The world holds every
buffer and the random source; the engine never changes. Writing through or
reading through a null pointer is undefined, and a kernel that does so fails
with `faulted` set.
-/

namespace Fhenomenon.ToyFheKernels

open Fhenomenon.InstructionStream Fhenomenon.MovementPlanner Fhenomenon.DefaultExecutor
open Fhenomenon.ToyFhe

inductive BufKind
  | empty | ciphertext | intValue | doubleValue | ciphertextVec
deriving DecidableEq, Repr

/-- `ct_vec` packs one toy ciphertext for each slot. -/
structure FhnBuffer where
  kind : BufKind := .empty
  ct : Ciphertext := {}
  ctVec : List Ciphertext := []
  intVal : Int := 0
  doubleVal : Rat := 0
deriving DecidableEq

structure World (Ptr ρ : Type*) where
  heap : Ptr → FhnBuffer
  rng : ρ
  faulted : Bool := false

section Kernels

variable {Ptr ρ : Type*} [DecidableEq Ptr] (draw : Int → Int → ρ → Int × ρ) (engine : Engine)

def fault (world : World Ptr ρ) : Int × World Ptr ρ := (-1, { world with faulted := true })

/-- Assign to fields of `*result`. -/
def write (result : Option Ptr) (update : FhnBuffer → FhnBuffer) (world : World Ptr ρ) :
    Int × World Ptr ρ :=
  match result with
  | none => fault world
  | some buffer =>
      (0, { world with heap := Function.update world.heap buffer (update (world.heap buffer)) })

def toyfheIsVec (world : World Ptr ρ) (buf : Option Ptr) : Bool :=
  match buf with
  | none => false
  | some buffer => decide ((world.heap buffer).kind = .ciphertextVec)

/-- Normalize a signed rotation distance into `[0, n)`. -/
def toyfheNormRot (d : Int) (n : Nat) : Nat := ((d.tmod n + n).tmod n).toNat

/-- `for i in 0..n`, threading the random source through `op`. -/
def slotwise (op : Ciphertext → Ciphertext → ρ → Ciphertext × ρ) :
    List Ciphertext → List Ciphertext → ρ → List Ciphertext × ρ
  | first :: restA, second :: restB, rng =>
      let slot := op first second rng
      let rest := slotwise op restA restB slot.2
      (slot.1 :: rest.1, rest.2)
  | _, _, rng => ([], rng)

/-- Store a vector of slots, leaving the scalar fields as they are. -/
def storeVec (slots : List Ciphertext) (buffer : FhnBuffer) : FhnBuffer :=
  { buffer with ctVec := slots, kind := .ciphertextVec }

def storeScalar (ct : Ciphertext) (buffer : FhnBuffer) : FhnBuffer :=
  { buffer with ct := ct, kind := .ciphertext }

def toyfheVecBinary (op : Ciphertext → Ciphertext → ρ → Ciphertext × ρ) (result : Option Ptr)
    (a b : Ptr) (world : World Ptr ρ) : Int × World Ptr ρ :=
  let first := (world.heap a).ctVec
  let second := (world.heap b).ctVec
  if first = [] ∨ first.length ≠ second.length then (-1, world)
  else
    let out := slotwise op first second world.rng
    write result (storeVec out.1) { world with rng := out.2 }

/-- The shape of `toyfhe_add_cc` and `toyfhe_mult_cc`. -/
def binaryKernel (op : Ciphertext → Ciphertext → ρ → Ciphertext × ρ) :
    FhnKernelFn Ptr (World Ptr ρ) :=
  fun result operands _ _ world =>
    match operands 0, operands 1 with
    | some a, some b =>
        if toyfheIsVec world (some a) || toyfheIsVec world (some b) then
          if !toyfheIsVec world (some a) || !toyfheIsVec world (some b) then (-1, world)
          else toyfheVecBinary op result a b world
        else
          let out := op (world.heap a).ct (world.heap b).ct world.rng
          write result (storeScalar out.1) { world with rng := out.2 }
    | _, _ => (-1, world)

/-- `Engine::add` draws nothing. -/
def addSlots (lhs rhs : Ciphertext) (rng : ρ) : Ciphertext × ρ := (engine.add lhs rhs, rng)

def toyfheAddCc : FhnKernelFn Ptr (World Ptr ρ) := binaryKernel (addSlots engine)

def toyfheMultCc : FhnKernelFn Ptr (World Ptr ρ) := binaryKernel (engine.multiply draw)

def toyfheAddCs : FhnKernelFn Ptr (World Ptr ρ) :=
  fun result operands _ fparams world =>
    match operands 0 with
    | none => fault world
    | some a => write result (storeScalar (engine.addPlain (world.heap a).ct (fparams 0))) world

def negated (cipher : Ciphertext) : Ciphertext :=
  { cipher with c0 := i64 (-cipher.c0), c1 := i64 (-cipher.c1) }

def toyfheSubCc : FhnKernelFn Ptr (World Ptr ρ) :=
  fun result operands _ _ world =>
    match operands 0, operands 1 with
    | some a, some b =>
        write result
          (storeScalar (engine.add (world.heap a).ct (negated (world.heap b).ct))) world
    | _, _ => fault world

def toyfheNegate : FhnKernelFn Ptr (World Ptr ρ) :=
  fun result operands _ _ world =>
    match operands 0 with
    | none => fault world
    | some a => write result (storeScalar (negated (world.heap a).ct)) world

def toyfheMultCs : FhnKernelFn Ptr (World Ptr ρ) :=
  fun result operands _ fparams world =>
    match operands 0 with
    | none => fault world
    | some a =>
        let out := engine.multiplyPlain draw (world.heap a).ct (fparams 0) world.rng
        write result (storeScalar out.1) { world with rng := out.2 }

/-- The engine's multiply already relinearizes and rescales. -/
def toyfheHmult : FhnKernelFn Ptr (World Ptr ρ) :=
  fun result operands params fparams world =>
    toyfheMultCc draw engine result operands params fparams world

/-- Slot `i` of the result is slot `(i + d) mod n` of the source. -/
def rotated (slots : List Ciphertext) (d : Nat) : List Ciphertext :=
  List.ofFn fun i : Fin slots.length => slots.getD ((i + d) % slots.length) {}

def toyfheRotate : FhnKernelFn Ptr (World Ptr ρ) :=
  fun result operands params _ world =>
    match operands 0 with
    | none => (-1, world)
    | some src =>
        let slots := (world.heap src).ctVec
        if !toyfheIsVec world (some src) ∨ slots = [] then (-1, world)
        else
          write result (storeVec (rotated slots (toyfheNormRot (params 0) slots.length))) world

/-- Slot `i` of the result is `a[(i + d) mod n] + b[i]`, in one pass. -/
def rotateAdd (first second : List Ciphertext) (d : Nat) : List Ciphertext :=
  List.ofFn fun i : Fin first.length =>
    engine.add (first.getD ((i + d) % first.length) {}) (second.getD i {})

def toyfheHrotAdd : FhnKernelFn Ptr (World Ptr ρ) :=
  fun result operands params _ world =>
    match operands 0, operands 1 with
    | some a, some b =>
        let first := (world.heap a).ctVec
        let second := (world.heap b).ctVec
        if !toyfheIsVec world (some a) ∨ !toyfheIsVec world (some b) ∨ first = [] ∨
            first.length ≠ second.length then (-1, world)
        else
          write result
            (storeVec (rotateAdd engine first second (toyfheNormRot (params 0) first.length)))
            world
    | _, _ => (-1, world)

def toyfhePassthrough : FhnKernelFn Ptr (World Ptr ρ) :=
  fun result operands _ _ world =>
    match operands 0 with
    | none => (-1, world)
    | some src =>
        let source := world.heap src
        if source.kind ≠ .ciphertext ∧ source.kind ≠ .ciphertextVec then (-1, world)
        else if result = some src then (0, world)
        else write result (fun _ => source) world

def toyfheKernels : List (FhnKernelEntry Ptr (World Ptr ρ)) :=
  [{ opcode := .addCC, fn := some (toyfheAddCc engine) },
    { opcode := .addCS, fn := some (toyfheAddCs engine) },
    { opcode := .subCC, fn := some (toyfheSubCc engine) },
    { opcode := .negate, fn := some (toyfheNegate) },
    { opcode := .multCC, fn := some (toyfheMultCc draw engine) },
    { opcode := .multCS, fn := some (toyfheMultCs draw engine) },
    { opcode := .relinearize, fn := some toyfhePassthrough },
    { opcode := .rescale, fn := some toyfhePassthrough },
    { opcode := .rotate, fn := some toyfheRotate },
    { opcode := .hmult, fn := some (toyfheHmult draw engine) },
    { opcode := .hrotAdd, fn := some (toyfheHrotAdd engine) }]

end Kernels

end Fhenomenon.ToyFheKernels
