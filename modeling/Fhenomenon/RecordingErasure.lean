import Fhenomenon.ExecutorErasure
import Fhenomenon.Lib.Erasure
import Fhenomenon.SessionBodies

/-!
# Sessions over an instrumented world

Recording looks at the world only to encrypt a literal, and a run only to execute
its program, so a whole run forgets what an instrumented world records.
-/

namespace Fhenomenon.RecordingErasure

open Fhenomenon.Lib.Fallible Fhenomenon.Lib.Erasure Fhenomenon.DefaultExecutor
open Fhenomenon.RecordedGraph Fhenomenon.SessionRuntime Fhenomenon.Recording
open Fhenomenon.SessionBodies Fhenomenon.ExecutorErasure

variable {Address Ptr Profile σ τ : Type} {forget : σ → τ}

def forgetSession (forget : σ → τ) (state : State Address Ptr Profile σ) :
    State Address Ptr Profile τ :=
  { state with world := forget state.world }

/-- Two hosts that place objects alike and encrypt alike. -/
structure HostErases (forget : σ → τ) (rich : Host Address Ptr Profile σ)
    (plain : Host Address Ptr Profile τ) : Prop where
  place : plain.place = rich.place
  backend : plain.backend = rich.backend
  encrypt : ∀ profile value world, plain.encrypt profile value (forget world) =
    forgetWorld forget (rich.encrypt profile value world)

variable [DecidableEq Address]

/-- A recorder over the rich world and the recorder it forgets to. -/
abbrev SessionErases {Value : Type} (forget : σ → τ)
    (rich : Recorder Address Ptr Profile σ Value)
    (plain : Recorder Address Ptr Profile τ Value) : Prop :=
  Erases (forgetSession forget) rich plain

variable {rich : Host Address Ptr Profile σ} {plain : Host Address Ptr Profile τ}

theorem construct_erases (hosts : HostErases forget rich plain) (object : Object Ptr Profile) :
    SessionErases forget (construct rich object) (construct plain object) := by
  apply erases_after_look
  intro state
  have next : (forgetSession forget state).nextAddress plain = state.nextAddress rich := by
    rw [State.nextAddress, State.nextAddress, hosts.place]
    rfl
  rw [next]
  exact erases_after_change (fun _ => rfl) (erases_pure _)

theorem make_shared_erases (hosts : HostErases forget rich plain) (object : Object Ptr Profile) :
    SessionErases forget (makeShared rich object) (makeShared plain object) :=
  construct_erases hosts { object with shared := true }

theorem track_erases (entity : Address) :
    SessionErases forget (trackEntity entity : Recorder Address Ptr Profile σ Address)
      (trackEntity entity) := by
  apply erases_after_look
  intro state
  refine erases_after_change (fun _ => rfl) ?_
  exact erases_ite (erases_pure _) (erases_fail _)

theorem copy_erases (hosts : HostErases forget rich plain) (other : Address) :
    SessionErases forget (copyConstruct rich other) (copyConstruct plain other) := by
  apply erases_after_look
  intro state
  apply erases_ite
  · apply erases_ite
    · apply erases_ite
      · apply erases_bind (construct_erases hosts _)
        intro this
        exact erases_after_change (fun _ => rfl) (erases_pure this)
      · exact erases_fail _
    · exact erases_fail _
  · exact construct_erases hosts _

theorem transform_erases (hosts : HostErases forget rich plain) (profile : Profile)
    (entity : Address) :
    SessionErases forget (transform rich profile entity) (transform plain profile entity) := by
  intro state
  have encrypted := hosts.encrypt profile (state.objects entity).val state.world
  simp only [transform, forgetSession, encrypted, forgetWorld, hosts.backend]
  split <;> rfl

theorem belong_erases (hosts : HostErases forget rich plain) (this : Address)
    (newProfile : Option Profile) :
    SessionErases forget (belong rich this newProfile) (belong plain this newProfile) := by
  refine erases_after_change (fun _ => rfl) ?_
  cases newProfile with
  | none => exact erases_fail _
  | some profile =>
      apply erases_bind (transform_erases hosts profile this)
      intro _
      exact erases_change fun _ => rfl

theorem assign_erases (this other : Address) :
    SessionErases forget (assign this other : Recorder Address Ptr Profile σ Unit)
      (assign this other) := by
  apply erases_bind (track_erases this)
  intro op1
  apply erases_bind (track_erases other)
  intro op2
  exact erases_change fun _ => rfl

theorem literal_erases (hosts : HostErases forget rich plain) (entity : Address)
    (profile : Option Profile) :
    SessionErases forget (onFailure (belong rich entity profile) (State.destroy entity))
      (onFailure (belong plain entity profile) (State.destroy entity)) :=
  erases_on_failure (belong_erases hosts entity profile) fun _ => rfl

theorem assign_scalar_erases (hosts : HostErases forget rich plain) (this : Address)
    (scalar : Int) :
    SessionErases forget (assignScalar rich this scalar) (assignScalar plain this scalar) := by
  refine erases_after_change (fun _ => rfl) ?_
  apply erases_bind (track_erases this)
  intro op1
  apply erases_bind (make_shared_erases hosts _)
  intro tmp
  apply erases_after_look
  intro state
  apply erases_bind (literal_erases hosts tmp _)
  intro _
  exact erases_change fun _ => rfl

theorem combine_erases (hosts : HostErases forget rich plain) (operator : Arithmetic)
    (this other : Address) :
    SessionErases forget (combine rich operator this other) (combine plain operator this other) := by
  apply erases_bind (track_erases this)
  intro op1
  apply erases_bind (track_erases other)
  intro op2
  apply erases_bind (make_shared_erases hosts _)
  intro result
  refine erases_after_change (fun _ => rfl) ?_
  apply erases_bind (track_erases result)
  intro _
  refine erases_after_change (fun _ => rfl) ?_
  exact copy_erases hosts result

theorem combine_scalar_erases (hosts : HostErases forget rich plain) (operator : Arithmetic)
    (this : Address) (scalar : Int) :
    SessionErases forget (combineScalar rich operator this scalar)
      (combineScalar plain operator this scalar) := by
  apply erases_bind (make_shared_erases hosts _)
  intro entity
  apply erases_after_look
  intro state
  apply erases_bind (literal_erases hosts entity _)
  intro _
  exact combine_erases hosts operator this entity

omit [DecidableEq Address] in
theorem locate_erases (name : Variable Address) :
    SessionErases forget (locate name : Recorder Address Ptr Profile σ Address) (locate name) := by
  intro state
  cases name with
  | outer address => rfl
  | inner index =>
      simp only [locate, forgetSession]
      split <;> rfl

omit [DecidableEq Address] in
theorem hold_erases (address : Address) :
    SessionErases forget (holdTemporary address : Recorder Address Ptr Profile σ Address)
      (holdTemporary address) :=
  erases_after_change (fun _ => rfl) (erases_pure address)

theorem evaluate_erases (hosts : HostErases forget rich plain) (value : Expr Address) :
    SessionErases forget (evaluate rich value) (evaluate plain value) := by
  induction value with
  | read name => exact locate_erases name
  | combine operator lhs rhs left right =>
      apply erases_bind left
      intro this
      apply erases_bind right
      intro other
      exact erases_bind (combine_erases hosts operator this other) hold_erases
  | combineScalar operator lhs scalar left =>
      apply erases_bind left
      intro this
      exact erases_bind (combine_scalar_erases hosts operator this scalar) hold_erases

theorem initializer_erases (hosts : HostErases forget rich plain) (value : Expr Address) :
    SessionErases forget (initializer rich value) (initializer plain value) := by
  cases value with
  | read name => exact erases_bind (locate_erases name) (copy_erases hosts)
  | combine operator lhs rhs =>
      apply erases_bind (evaluate_erases hosts lhs)
      intro this
      exact erases_bind (evaluate_erases hosts rhs) (combine_erases hosts operator this)
  | combineScalar operator lhs scalar =>
      apply erases_bind (evaluate_erases hosts lhs)
      intro this
      exact combine_scalar_erases hosts operator this scalar

theorem destroy_each_erases (forget : σ → τ) (addresses : List Address)
    (state : State Address Ptr Profile σ) :
    addresses.foldl (fun state address => state.destroy address) (forgetSession forget state) =
      forgetSession forget (addresses.foldl (fun state address => state.destroy address) state) := by
  induction addresses generalizing state with
  | nil => rfl
  | cons address rest induction => exact induction (state.destroy address)

theorem temporaries_erase (state : State Address Ptr Profile σ) :
    (forgetSession forget state).destroyTemporaries =
      forgetSession forget state.destroyTemporaries := by
  have destroyed := destroy_each_erases forget state.temporaries state
  rw [State.destroyTemporaries, State.destroyTemporaries]
  exact congrArg (fun state => { state with temporaries := [] }) destroyed

theorem locals_erase (state : State Address Ptr Profile σ) :
    (forgetSession forget state).destroyLocals = forgetSession forget state.destroyLocals := by
  have destroyed := destroy_each_erases forget state.locals.reverse state
  rw [State.destroyLocals, State.destroyLocals]
  exact congrArg (fun state => { state with locals := [] }) destroyed

theorem perform_erases (hosts : HostErases forget rich plain) (statement : Statement Address) :
    SessionErases forget (perform rich statement) (perform plain statement) := by
  cases statement with
  | declare value =>
      apply erases_bind (erases_ensuring (initializer_erases hosts value) temporaries_erase)
      intro made
      exact erases_change fun _ => rfl
  | assign target value =>
      refine erases_ensuring ?_ temporaries_erase
      apply erases_bind (evaluate_erases hosts value)
      intro other
      apply erases_bind (locate_erases target)
      intro this
      exact assign_erases this other
  | assignScalar target scalar =>
      apply erases_bind (locate_erases target)
      intro this
      exact assign_scalar_erases hosts this scalar
  | raise message => exact erases_fail _

theorem record_erases (hosts : HostErases forget rich plain) (body : List (Statement Address)) :
    SessionErases forget (record rich body) (record plain body) :=
  erases_ensuring (erases_each (perform_erases hosts) body) locals_erase

variable {hooks : FhnMovementHooks Ptr σ} {plainHooks : FhnMovementHooks Ptr τ}
  {dispatch : Dispatch Ptr σ} {plainDispatch : Dispatch Ptr τ}
  {evaluateGraph : Recorder Address Ptr Profile σ Unit}
  {plainGraph : Recorder Address Ptr Profile τ Unit}

theorem optimize_session_erases (moves : HooksErase forget hooks plainHooks)
    (table : TableErases forget dispatch plainDispatch)
    (graphs : SessionErases forget evaluateGraph plainGraph) (backend : Nat) :
    SessionErases forget (optimizeSession backend hooks dispatch evaluateGraph)
      (optimizeSession backend plainHooks plainDispatch plainGraph) := by
  intro state
  have optimized := optimize_erases moves table backend state.session.poison
    state.session.operations (runState state)
  rcases ran : optimize backend hooks dispatch state.session.poison state.session.operations
    (runState state) with ⟨outcome, reached⟩
  rw [ran] at optimized
  have session : (forgetSession forget state).session = state.session := rfl
  have seen : runState (forgetSession forget state) = forgetRun forget (runState state) := rfl
  simp only [optimizeSession, session, seen, optimized, ran]
  cases outcome with
  | error message => rfl
  | ok executed =>
      cases executed with
      | true => rfl
      | false =>
          exact graphs
            { state with
              objects := fun address =>
                { state.objects address with toFhenon := reached.entities address }
              nextControl := reached.nextControl
              world := reached.world }

theorem run_erases (hosts : HostErases forget rich plain)
    (moves : HooksErase forget hooks plainHooks)
    (table : TableErases forget dispatch plainDispatch)
    (graphs : SessionErases forget evaluateGraph plainGraph) (backend : Nat)
    (body : List (Statement Address)) :
    SessionErases forget (run rich backend hooks dispatch evaluateGraph body)
      (run plain backend plainHooks plainDispatch plainGraph body) := by
  refine erases_after_change (fun _ => rfl) ?_
  refine erases_ensuring ?_ fun _ => rfl
  apply erases_bind (record_erases hosts body)
  intro _
  exact optimize_session_erases moves table graphs backend

end Fhenomenon.RecordingErasure
