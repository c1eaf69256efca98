import Fhenomenon.BuiltinBackend
import Fhenomenon.RecordingErasure

/-!
# The builtin backend over an instrumented world

When the exports forget to those of the backend, so does all that the backend
and the operators outside of sessions do.
-/

namespace Fhenomenon.BuiltinErasure

open Fhenomenon.Lib.Fallible Fhenomenon.Lib.Erasure Fhenomenon.InstructionStream
open Fhenomenon.RecordedGraph Fhenomenon.Recording Fhenomenon.SessionBodies
open Fhenomenon.ExecutorErasure Fhenomenon.RecordingErasure Fhenomenon.BuiltinBackend

variable {Address Ptr Profile σ τ : Type} {forget : σ → τ}

structure ExportsErase (forget : σ → τ) (rich : Exports Ptr σ) (plain : Exports Ptr τ) : Prop where
  bufferAlloc : AllocErases forget rich.bufferAlloc plain.bufferAlloc
  bufferFree : FreeErases forget rich.bufferFree plain.bufferFree
  encryptI64 : ∀ buffer value world, plain.encryptI64 buffer value (forget world) =
    forgetWorld forget (rich.encryptI64 buffer value world)
  kernels : TableErases forget rich.kernels plain.kernels

variable {rich : Exports Ptr σ} {plain : Exports Ptr τ}

theorem make_buffer_erases (exports : ExportsErase forget rich plain) :
    Erases forget (makeBuffer rich) (makeBuffer plain) := by
  intro world
  have allocated : plain.bufferAlloc (forget world) = forgetWorld forget (rich.bufferAlloc world) :=
    exports.bufferAlloc world
  simp only [makeBuffer, allocated, forgetWorld]
  cases (rich.bufferAlloc world).1 <;> rfl

theorem fill_buffer_erases (exports : ExportsErase forget rich plain)
    {fill : Ptr → Computation σ String Unit} {plainFill : Ptr → Computation τ String Unit}
    (fills : ∀ buffer, Erases forget (fill buffer) (plainFill buffer)) :
    Erases forget (fillBuffer rich fill) (fillBuffer plain plainFill) := by
  apply erases_bind (make_buffer_erases exports)
  intro buffer
  apply erases_bind (erases_on_failure (fills buffer) fun world =>
    exports.bufferFree (some buffer) world)
  intro _
  exact erases_pure buffer

theorem encrypt_erases (exports : ExportsErase forget rich plain) (value : Int) :
    Erases forget (encrypt rich value) (encrypt plain value) := by
  apply fill_buffer_erases exports
  intro buffer world
  simp only [exports.encryptI64, forgetWorld]

theorem single_op_erases (exports : ExportsErase forget rich plain) (op : FhnOpCode)
    (a b : Option Ptr) (fparam : Rat) :
    Erases forget (runSingleOp rich op a b fparam) (runSingleOp plain op a b fparam) := by
  apply fill_buffer_erases exports
  intro buffer world
  simp only [execute_plain_erases exports.kernels, forgetWorld]

theorem buffer_of_erases (this : Nat) (entity : Object Ptr Profile) (opName : String) :
    Erases forget (bufferOf this entity opName) (bufferOf this entity opName) := by
  unfold bufferOf
  cases entity.ciphertext with
  | none => exact erases_fail _
  | some ct => exact erases_ite (erases_fail _) (erases_pure _)

theorem add_erases (exports : ExportsErase forget rich plain) (this : Nat)
    (a b : Object Ptr Profile) : Erases forget (add rich this a b) (add plain this a b) := by
  apply erases_ite (erases_fail _)
  apply erases_bind (buffer_of_erases this a "add")
  intro ctA
  apply erases_bind (buffer_of_erases this b "add")
  intro ctB
  exact single_op_erases exports _ _ _ _

theorem multiply_erases (exports : ExportsErase forget rich plain) (this : Nat)
    (a b : Object Ptr Profile) :
    Erases forget (multiply rich this a b) (multiply plain this a b) := by
  apply erases_ite (erases_fail _)
  apply erases_bind (buffer_of_erases this a "multiply")
  intro ctA
  apply erases_bind (buffer_of_erases this b "multiply")
  intro ctB
  exact single_op_erases exports _ _ _ _

theorem evaluator_erases (exports : ExportsErase forget rich plain) (this : Nat)
    (operator : Arithmetic) (a b : Object Ptr Profile) :
    Erases forget (evaluator rich this operator a b) (evaluator plain this operator a b) := by
  cases operator with
  | add => exact add_erases exports this a b
  | multiply => exact multiply_erases exports this a b

theorem builtin_hosts_erase (exports : ExportsErase forget rich plain) (this : Nat)
    (place : Nat → Finset Address → Address) (unused : ∀ count live, place count live ∉ live) :
    HostErases forget (builtinHost rich this place unused : Host Address Ptr Profile σ)
      (builtinHost plain this place unused) where
  place := rfl
  backend := rfl
  encrypt := fun _ value world => encrypt_erases exports value world

section Operators

variable [DecidableEq Address] {host : Host Address Ptr Profile σ}
  {plainHost : Host Address Ptr Profile τ}
  {compute : Arithmetic → Object Ptr Profile → Object Ptr Profile → Computation σ String Ptr}
  {plainCompute : Arithmetic → Object Ptr Profile → Object Ptr Profile → Computation τ String Ptr}

/-- Both compute the same buffer. -/
def ComputesErase (forget : σ → τ)
    (compute : Arithmetic → Object Ptr Profile → Object Ptr Profile → Computation σ String Ptr)
    (plainCompute : Arithmetic → Object Ptr Profile → Object Ptr Profile →
      Computation τ String Ptr) : Prop :=
  ∀ operator a b, Erases forget (compute operator a b) (plainCompute operator a b)

omit [DecidableEq Address] in
theorem delegate_erases {run : Computation σ String Ptr} {plainRun : Computation τ String Ptr}
    (runs : Erases forget run plainRun) :
    SessionErases forget (delegate run : Recorder Address Ptr Profile σ Ptr)
      (delegate plainRun) := by
  intro state
  have ran : plainRun (forgetSession forget state).world =
      ((run state.world).1, forget (run state.world).2) := runs state.world
  simp only [delegate, ran]
  cases (run state.world).1 <;> rfl

theorem combine_eagerly_erases (hosts : HostErases forget host plainHost)
    (computes : ComputesErase forget compute plainCompute) (operator : Arithmetic)
    (this other : Address) :
    SessionErases forget (combineEagerly host compute operator this other)
      (combineEagerly plainHost plainCompute operator this other) := by
  apply erases_after_look
  intro state
  apply erases_bind (delegate_erases (computes operator _ _))
  intro buffer
  apply erases_after_look
  intro made
  rw [hosts.backend]
  apply erases_bind (make_shared_erases hosts _)
  intro result
  refine erases_after_change (fun _ => rfl) ?_
  exact erases_ensuring (copy_erases hosts result) fun _ => rfl

theorem combine_scalar_eagerly_erases (hosts : HostErases forget host plainHost)
    (computes : ComputesErase forget compute plainCompute) (operator : Arithmetic)
    (this : Address) (scalar : Int) :
    SessionErases forget (combineScalarEagerly host compute operator this scalar)
      (combineScalarEagerly plainHost plainCompute operator this scalar) := by
  apply erases_bind (make_shared_erases hosts _)
  intro entity
  apply erases_after_look
  intro state
  refine erases_ensuring ?_ fun _ => rfl
  apply erases_bind (belong_erases hosts entity _)
  intro _
  exact combine_eagerly_erases hosts computes operator this entity

theorem evaluate_outside_erases (hosts : HostErases forget host plainHost)
    (computes : ComputesErase forget compute plainCompute) (value : Expr Address) :
    SessionErases forget (evaluateOutside host compute value)
      (evaluateOutside plainHost plainCompute value) := by
  induction value with
  | read name => exact locate_erases name
  | combine operator lhs rhs left right =>
      apply erases_bind left
      intro this
      apply erases_bind right
      intro other
      apply erases_bind (combine_eagerly_erases hosts computes operator this other)
      intro made
      exact hold_erases made
  | combineScalar operator lhs scalar left =>
      apply erases_bind left
      intro this
      apply erases_bind (combine_scalar_eagerly_erases hosts computes operator this scalar)
      intro made
      exact hold_erases made

theorem perform_outside_erases (hosts : HostErases forget host plainHost)
    (computes : ComputesErase forget compute plainCompute) (statement : Outside Address) :
    SessionErases forget (performOutside host compute statement)
      (performOutside plainHost plainCompute statement) := by
  cases statement with
  | assign target value =>
      refine erases_ensuring ?_ temporaries_erase
      apply erases_bind (evaluate_outside_erases hosts computes value)
      intro other
      exact erases_change fun _ => rfl
  | assignScalar target scalar =>
      refine erases_after_change (fun _ => rfl) ?_
      apply erases_after_look
      intro state
      apply erases_ite
      · have same : ((forgetSession forget state).objects target).profile =
            (state.objects target).profile := rfl
        rw [same]
        cases (state.objects target).profile with
        | some profile => exact transform_erases hosts profile target
        | none => exact erases_change fun _ => rfl
      · exact erases_pure ()

end Operators

end Fhenomenon.BuiltinErasure
