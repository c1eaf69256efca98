import Fhenomenon.SessionBodies
import Fhenomenon.ToyFheExecution

/-!
# The builtin backend

`BuiltinBackend` on entities of type `int`: encryption and decryption through
the data plane, and one-instruction programs for the operators outside of
sessions. A backend reaches its context through the exports alone, so the
functions are over any exports.
-/

namespace Fhenomenon.BuiltinBackend

open Fhenomenon.Lib.Fallible Fhenomenon.InstructionStream Fhenomenon.MovementPlanner
open Fhenomenon.DefaultExecutor Fhenomenon.RecordedGraph Fhenomenon.Recording
open Fhenomenon.SessionBodies Fhenomenon.ToyFhe Fhenomenon.ToyFheExecution

/-- The exports of the FHN context and its kernels. -/
structure Exports (Ptr σ : Type) where
  bufferAlloc : σ → Option Ptr × σ
  bufferFree : Option Ptr → σ → σ
  encryptI64 : Option Ptr → Int → σ → Int × σ
  kernels : Dispatch Ptr σ

def toyfheExports {Ptr ρ : Type} [DecidableEq Ptr] (draw : Int → Int → ρ → Int × ρ)
    (engine : Engine) (fresh : Finset Ptr → Ptr) : Exports Ptr (Device Ptr ρ) where
  bufferAlloc := toyfheBufferAlloc fresh
  bufferFree := toyfheBufferFree
  encryptI64 := toyfheEncryptI64 draw engine
  kernels := toyfheTable draw engine

section Backend

variable {Ptr Profile σ : Type} (exports : Exports Ptr σ) (this : Nat)

def makeBuffer : Computation σ String Ptr := fun world =>
  let allocated := exports.bufferAlloc world
  match allocated.1 with
  | none => (.error "BuiltinBackend: toyfhe_fhn_buffer_alloc failed", allocated.2)
  | some raw => (.ok raw, allocated.2)

/-- A buffer whose filling fails is freed with its only owner. -/
def fillBuffer (fill : Ptr → Computation σ String Unit) : Computation σ String Ptr := do
  let buffer ← makeBuffer exports
  onFailure (fill buffer) (exports.bufferFree (some buffer))
  return buffer

/-- `transform`: the buffer of the new ciphertext. -/
def encrypt (value : Int) : Computation σ String Ptr :=
  fillBuffer exports fun buffer world =>
    let encrypted := exports.encryptI64 (some buffer) value world
    (if encrypted.1 ≠ 0 then .error "BuiltinBackend: toyfhe_fhn_encrypt_i64 failed" else .ok (),
      encrypted.2)

/-- Buffer ids: `a` is 1, `b` is 2 where there is one, and the result is the next. -/
def singleOp (op : FhnOpCode) (binary : Bool) (fparam : Rat) : FhnProgram :=
  let resultId := if binary then 3 else 2
  { instructions :=
      [{ opcode := op
         resultId := resultId
         operands := ![1, if binary then 2 else 0, 0, 0]
         fparams := ![fparam, 0] }]
    inputIds := if binary then [1, 2] else [1]
    outputIds := [resultId] }

def singleBuffers (a b : Option Ptr) (result : Ptr) : Buffers Ptr
  | 1 => a
  | 2 => if b.isSome then b else some result
  | 3 => if b.isSome then some result else none
  | _ => none

/-- `program` is assumed to be allocated. -/
def runSingleOp (op : FhnOpCode) (a b : Option Ptr) (fparam : Rat) : Computation σ String Ptr :=
  fillBuffer exports fun result world =>
    let ran := executePlain exports.kernels (singleOp op b.isSome fparam)
      (singleBuffers a b result) world
    (if ran.1 ≠ 0 then
        .error s!"BuiltinBackend: FHN executor failed with rc={ran.1}"
      else .ok (), ran.2)

def bufferOf (entity : Object Ptr Profile) (opName : String) :
    Computation σ String (SharedBuffer Ptr) :=
  match entity.ciphertext with
  | none => fail s!"BuiltinBackend: {opName}: operand was not encrypted by this backend"
  | some ct =>
      if ct.owner ≠ this then
        fail s!"BuiltinBackend: {opName}: operand was not encrypted by this backend"
      else pure ct.buffer

def holdsCiphertext (entity : Object Ptr Profile) : Bool :=
  entity.isEncrypted && entity.ciphertext.isSome

def add (a b : Object Ptr Profile) : Computation σ String Ptr :=
  if !holdsCiphertext a || !holdsCiphertext b then
    fail "BuiltinBackend: Cannot add unencrypted Fhenon values"
  else do
    let ctA ← bufferOf this a "add"
    let ctB ← bufferOf this b "add"
    runSingleOp exports .addCC ctA.raw ctB.raw 0

def multiply (a b : Object Ptr Profile) : Computation σ String Ptr :=
  if !holdsCiphertext a || !holdsCiphertext b then
    fail "BuiltinBackend: Cannot multiply unencrypted Fhenon values"
  else do
    let ctA ← bufferOf this a "multiply"
    let ctB ← bufferOf this b "multiply"
    runSingleOp exports .hmult ctA.raw ctB.raw 0

def addPlain (a : Object Ptr Profile) (scalar : Rat) : Computation σ String Ptr :=
  if !holdsCiphertext a then
    fail "BuiltinBackend: Cannot add plain to unencrypted Fhenon value"
  else do
    let ctA ← bufferOf this a "addPlain"
    runSingleOp exports .addCS ctA.raw none scalar

def multiplyPlain (a : Object Ptr Profile) (scalar : Rat) : Computation σ String Ptr :=
  if !holdsCiphertext a then
    fail "BuiltinBackend: Cannot multiply plain with unencrypted Fhenon value"
  else do
    let ctA ← bufferOf this a "multiplyPlain"
    runSingleOp exports .multCS ctA.raw none scalar

/-- `static_cast<int>` -/
def i32 (value : Int) : Int := (value + 2 ^ 31) % 2 ^ 32 - 2 ^ 31

/-- An entity without a ciphertext has its plain value. -/
def decrypt (decryptI64 : Option Ptr → σ → Option Int) (entity : Object Ptr Profile) :
    Computation σ String Int :=
  if !holdsCiphertext entity then pure entity.val
  else do
    let ct ← bufferOf this entity "decrypt"
    let world ← look
    match decryptI64 ct.raw world with
    | none => fail "BuiltinBackend: toyfhe_fhn_decrypt_i64 failed"
    | some value => pure (i32 value)

def unsupported : EagerOperator → String
  | .bitAnd => "Bitwise AND not supported by BuiltinBackend"
  | .bitOr => "Bitwise OR not supported by BuiltinBackend"
  | .bitXor => "Bitwise XOR not supported by BuiltinBackend"
  | .compareEq => "Equality comparison not supported by BuiltinBackend"
  | .compareLt => "Less than comparison not supported by BuiltinBackend"
  | .compareLe => "Less equal comparison not supported by BuiltinBackend"

end Backend

section Operators

variable {Address Ptr Profile σ : Type}

/-- The backend as `Backend::getInstance()`, with objects placed anywhere unused. -/
def builtinHost (exports : Exports Ptr σ) (this : Nat) (place : Nat → Finset Address → Address)
    (unused : ∀ count live, place count live ∉ live) : Host Address Ptr Profile σ where
  place := place
  unused := unused
  backend := this
  encrypt := fun _ value => encrypt exports value
  eager := fun operator _ _ world => (.error (unsupported operator), world)

def evaluator (exports : Exports Ptr σ) (this : Nat) :
    Arithmetic → Object Ptr Profile → Object Ptr Profile → Computation σ String Ptr
  | .add => add exports this
  | .multiply => multiply exports this

variable [DecidableEq Address] (host : Host Address Ptr Profile σ)
  (compute : Arithmetic → Object Ptr Profile → Object Ptr Profile → Computation σ String Ptr)

/-- What the backend does to its world; what it throws is thrown on. -/
def delegate (run : Computation σ String Ptr) : Recorder Address Ptr Profile σ Ptr :=
  fun state =>
    let ran := run state.world
    match ran.1 with
    | .error message => (.error (.thrown message), { state with world := ran.2 })
    | .ok buffer => (.ok buffer, { state with world := ran.2 })

/-- `makeTypedResult`: the profile is that of the reference, the buffer has one owner. -/
def resultOf (owner : Nat) (reference : Object Ptr Profile) (buffer : Ptr) (control : Nat) :
    Object Ptr Profile where
  val := 0
  ciphertext := some { buffer := { raw := some buffer, control := control }, owner := owner }
  isEncrypted := true
  profile := reference.profile

/-- `operator+` and `operator*` outside of sessions; the result is copied out. -/
def combineEagerly (operator : Arithmetic) (this other : Address) :
    Recorder Address Ptr Profile σ Address := do
  let state ← look
  let buffer ← delegate (compute operator (state.objects this) (state.objects other))
  let made ← look
  let result ← makeShared host
    (resultOf host.backend (state.objects this) buffer made.nextControl)
  change fun reached => { reached with nextControl := reached.nextControl + 1 }
  ensuring (copyConstruct host result) (State.destroy result)

/-- With a literal, which is encrypted first and destroyed in the end. -/
def combineScalarEagerly (operator : Arithmetic) (this : Address) (scalar : Int) :
    Recorder Address Ptr Profile σ Address := do
  let entity ← makeShared host { val := scalar, isScalar := true }
  let state ← look
  ensuring (do
    belong host entity (state.objects this).profile
    combineEagerly host compute operator this entity) (State.destroy entity)

def evaluateOutside : Expr Address → Recorder Address Ptr Profile σ Address
  | .read name => locate name
  | .combine operator lhs rhs => do
      let this ← evaluateOutside lhs
      let other ← evaluateOutside rhs
      let made ← combineEagerly host compute operator this other
      holdTemporary made
  | .combineScalar operator lhs scalar => do
      let this ← evaluateOutside lhs
      let made ← combineScalarEagerly host compute operator this scalar
      holdTemporary made

/-- `operator=(const Fhenon &)` outside of sessions; moving does the same. -/
def assignOutside (this other : Address) : Recorder Address Ptr Profile σ Unit :=
  change fun state =>
    let source := state.objects other
    state.onObject this fun target =>
      { target with
        val := source.val
        ciphertext := source.ciphertext
        isEncrypted := source.isEncrypted
        profile := if source.profile.isSome then source.profile else target.profile }

/-- `operator=(const T &)` outside of sessions keeps an encrypted entity in sync. -/
def assignScalarOutside (this : Address) (scalar : Int) : Recorder Address Ptr Profile σ Unit := do
  change (State.onObject this fun target => { target with val := scalar })
  let state ← look
  if (state.objects this).isEncrypted then
    match (state.objects this).profile with
    | some profile => transform host profile this
    | none =>
        change (State.onObject this fun target =>
          { target with ciphertext := none, isEncrypted := false })

/-- Statements of the caller over variables declared outside of `run`. -/
inductive Outside (Address : Type)
  | assign (target : Address) (value : Expr Address)
  | assignScalar (target : Address) (scalar : Int)

def performOutside : Outside Address → Recorder Address Ptr Profile σ Unit
  | .assign target value =>
      ensuring (do
        let other ← evaluateOutside host compute value
        assignOutside target other) State.destroyTemporaries
  | .assignScalar target scalar => assignScalarOutside host target scalar

end Operators

end Fhenomenon.BuiltinBackend
