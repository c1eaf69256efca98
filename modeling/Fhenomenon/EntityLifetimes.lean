import Fhenomenon.Lib.GuardedRuns
import Fhenomenon.RecordingFrame

/-!
# The entity map over any sequence of lifetimes

While a session records, objects are made, copied, moved, destroyed and used in
any order. A copy stands for the shared object it was made from, and only the
recorded operations keep such an object: an eager operator's result is dropped
right after it was copied out, and without an entry nobody notices.
-/

namespace Fhenomenon.EntityLifetimes

open Fhenomenon.Lib.Fallible Fhenomenon.Lib.GuardedRuns Fhenomenon.RecordedGraph
open Fhenomenon.Recording Fhenomenon.EntityMap Fhenomenon.RecordingSteps
open Fhenomenon.SessionBodies Fhenomenon.RecordingFrame

/-- What a program can do while a session records; `destroy` also stands for the last
`shared_ptr` to an object going away. -/
inductive Event (Address Profile : Type)
  | construct (val : Int)
  | makeShared (val : Int)
  | copyConstruct (other : Address)
  | moveConstruct (other : Address)
  | destroy (address : Address)
  | belong (this : Address) (profile : Option Profile)
  | assign (this other : Address)
  | moveAssign (this other : Address)
  | assignScalar (this : Address) (scalar : Int)
  | combine (operator : Arithmetic) (this other : Address)
  | combineScalar (operator : Arithmetic) (this : Address) (scalar : Int)
  | evaluateEagerly (operator : EagerOperator) (this other : Address)

variable {Address Ptr Profile σ : Type} [DecidableEq Address]

/-- The objects an event uses. -/
def Event.uses : Event Address Profile → List Address
  | .construct _ | .makeShared _ => []
  | .copyConstruct other | .moveConstruct other => [other]
  | .destroy address => [address]
  | .belong this _ | .assignScalar this _ | .combineScalar _ this _ => [this]
  | .assign this other | .moveAssign this other => [this, other]
  | .combine _ this other | .evaluateEagerly _ this other => [this, other]

/-- A program uses only live objects, and an object that an operation owns cannot go away. -/
def Possible (event : Event Address Profile) (state : State Address Ptr Profile σ) : Prop :=
  (∀ address ∈ event.uses, address ∈ state.live) ∧
    match event with
    | .destroy address => ownedByOperations state address = false
    | _ => True

instance (event : Event Address Profile) (state : State Address Ptr Profile σ) :
    Decidable (Possible event state) :=
  match event with
  | .destroy _ => inferInstanceAs (Decidable (_ ∧ _ = false))
  | .construct _ | .makeShared _ | .copyConstruct _ | .moveConstruct _ | .belong _ _
  | .assign _ _ | .moveAssign _ _ | .assignScalar _ _ | .combine _ _ _ | .combineScalar _ _ _
  | .evaluateEagerly _ _ _ => inferInstanceAs (Decidable (_ ∧ True))

def act (host : Host Address Ptr Profile σ) :
    Event Address Profile → Recorder Address Ptr Profile σ Unit
  | .construct val => do
      let _ ← construct host { val := val }
  | .makeShared val => do
      let _ ← makeShared host { val := val }
  | .copyConstruct other => do
      let _ ← copyConstruct host other
  | .moveConstruct other => do
      let _ ← moveConstruct host other
  | .destroy address => change (State.destroy address)
  | .belong this profile => belong host this profile
  | .assign this other => assign this other
  | .moveAssign this other => moveAssign this other
  | .assignScalar this scalar => assignScalar host this scalar
  | .combine operator this other => do
      let _ ← combine host operator this other
  | .combineScalar operator this scalar => do
      let _ ← combineScalar host operator this scalar
  | .evaluateEagerly operator this other => do
      let _ ← evaluateEagerly host operator this other

/-- A point of a recording: the state and how the last event failed. -/
structure Moment (Address Ptr Profile σ : Type) where
  state : State Address Ptr Profile σ
  failure : Option Failure := none

/-- An event that throws leaves a state to go on from; undefined behaviour does not. -/
def step (host : Host Address Ptr Profile σ) (event : Event Address Profile)
    (moment : Moment Address Ptr Profile σ) : Option (Moment Address Ptr Profile σ) :=
  if moment.failure = some .nullProfile ∨ moment.failure = some .dangling then none
  else if Possible event moment.state then
    match act host event moment.state with
    | (.ok (), reached) => some { state := reached }
    | (.error failure, reached) => some { state := reached, failure := some failure }
  else none

/-- Live keys stand for live objects, and operations refer to live objects. -/
structure PointsToLive (state : State Address Ptr Profile σ) : Prop where
  entries : ∀ key ∈ state.live, ∀ target, state.session.entityMap key = some target →
    target ∈ state.live
  operands : ∀ operation ∈ state.session.operations, ∀ entity, Holds operation entity →
    entity ∈ state.live

/-- Unless the recording is poisoned, the map points to live objects and no dead object was
resolved. -/
def Safe (moment : Moment Address Ptr Profile σ) : Prop :=
  moment.state.session.poison = none →
    PointsToLive moment.state ∧ moment.failure ≠ some .dangling

/-- The event does not make an object die that has no entry while a copy stands for it. An
eager operator does exactly that with its result, unless it throws or an old entry was left
at the place of the result. -/
def Noticed (host : Host Address Ptr Profile σ) (event : Event Address Profile)
    (moment : Moment Address Ptr Profile σ) : Prop :=
  moment.state.session.poison = none →
    match event with
    | .destroy address =>
        moment.state.session.entityMap address = none → Unreferenced moment.state address
    | .evaluateEagerly operator this other =>
        (∃ message, (host.eager operator (moment.state.objects this) (moment.state.objects other)
          moment.state.world).1 = .error message) ∨
          (moment.state.session.entityMap (moment.state.nextAddress host)).isSome
    | _ => True

/-- The invariant of noticed events. -/
def Tracked (moment : Moment Address Ptr Profile σ) : Prop :=
  moment.state.session.poison.isSome ∨ (Active moment.state ∧ moment.failure ≠ some .dangling)

variable {host : Host Address Ptr Profile σ} {state : State Address Ptr Profile σ}

omit [DecidableEq Address] in
theorem active_points (active : Active state) : PointsToLive state where
  entries := by
    intro key alive target entry
    have resolved := (active.sound.resolves key alive).alive
    rw [Session.canonical, entry] at resolved
    exact resolved
  operands := fun operation member entity holds =>
    (active.sound.operands operation member entity holds).alive

omit [DecidableEq Address] in
theorem tracked_safe (moment : Moment Address Ptr Profile σ) (tracked : Tracked moment) :
    Safe moment := by
  intro clean
  rcases tracked with poisoned | ⟨active, undamaged⟩
  · rw [clean] at poisoned
    cases poisoned
  · exact ⟨active_points active, undamaged⟩

/-- The first reason is never taken back. -/
def Poisoned (state : State Address Ptr Profile σ) : Prop := state.session.poison.isSome

theorem poison_save (entity : Address) (poisoned : Poisoned state) :
    Poisoned (state.save entity) := by
  rw [Poisoned, save_poison]
  exact poisoned

theorem poison_destroy (address : Address) (poisoned : Poisoned state) :
    Poisoned (state.destroy address) := by
  unfold Poisoned at *
  simp only [State.destroy]
  split
  · cases state.session.entityMap address with
    | none => exact poisoned
    | some target =>
        simp only [Session.eraseEntity, Session.poisonRecording, poisoned, if_true]
        split_ifs <;> exact poisoned
  · exact poisoned

theorem poison_track (entity : Address) :
    Persists Poisoned (trackEntity entity : Recorder Address Ptr Profile σ Address) := by
  apply persists_after_look
  intro state
  refine persists_after_change (fun _ => poison_save entity) ?_
  split
  · exact persists_pure _
  · exact persists_fail _

theorem poison_construct (object : Object Ptr Profile) :
    Persists Poisoned (construct host object) := by
  apply persists_after_look
  intro state
  exact persists_after_change (fun _ poisoned => poisoned) (persists_pure _)

theorem poison_copy (other : Address) : Persists Poisoned (copyConstruct host other) := by
  apply persists_after_look
  intro state
  dsimp only
  split_ifs
  · apply persists_bind (poison_construct _)
    intro this
    exact persists_after_change (fun _ poisoned => poisoned) (persists_pure _)
  · exact persists_fail _
  · exact persists_fail _
  · exact poison_construct _

theorem poison_move (other : Address) : Persists Poisoned (moveConstruct host other) := by
  apply persists_after_look
  intro state
  apply persists_bind (poison_construct _)
  intro this
  refine persists_after_change (fun _ poisoned => poisoned) ?_
  dsimp only
  split_ifs
  · exact persists_after_change (fun _ poisoned => poisoned) (persists_pure _)
  · refine persists_after_change ?_ (persists_pure _)
    intro before poisoned
    simp only [Poisoned, State.onSession, Session.poisonRecording] at *
    rw [if_pos poisoned]
    exact poisoned
  · exact persists_fail _
  · exact persists_pure _

theorem poison_transform (profile : Profile) (entity : Address) :
    Persists Poisoned (transform host profile entity) := by
  constructor
  intro state poisoned
  simp only [transform]
  split
  · exact poisoned
  · exact poisoned

theorem poison_belong (this : Address) (profile : Option Profile) :
    Persists Poisoned (belong host this profile) := by
  refine persists_after_change (fun _ poisoned => poisoned) ?_
  cases profile with
  | none => exact persists_fail _
  | some profile =>
      apply persists_bind (poison_transform profile this)
      intro _
      exact persists_change fun _ => poison_save this

theorem poison_assign (this other : Address) :
    Persists Poisoned (assign this other : Recorder Address Ptr Profile σ Unit) := by
  apply persists_bind (poison_track this)
  intro op1
  apply persists_bind (poison_track other)
  intro op2
  exact persists_change fun _ poisoned => poisoned

theorem poison_assign_scalar (this : Address) (scalar : Int) :
    Persists Poisoned (assignScalar host this scalar) := by
  refine persists_after_change (fun _ => poison_save this) ?_
  apply persists_bind (poison_track this)
  intro op1
  apply persists_bind (poison_construct _)
  intro tmp
  apply persists_after_look
  intro state
  apply persists_bind (persists_on_failure (poison_belong tmp _) fun _ => poison_destroy tmp)
  intro _
  exact persists_change fun _ poisoned => poisoned

theorem poison_combine (operator : Arithmetic) (this other : Address) :
    Persists Poisoned (combine host operator this other) := by
  apply persists_bind (poison_track this)
  intro op1
  apply persists_bind (poison_track other)
  intro op2
  apply persists_bind (poison_construct _)
  intro result
  refine persists_after_change (fun _ => poison_save result) ?_
  apply persists_bind (poison_track result)
  intro _
  exact persists_after_change (fun _ poisoned => poisoned) (poison_copy result)

theorem poison_combine_scalar (operator : Arithmetic) (this : Address) (scalar : Int) :
    Persists Poisoned (combineScalar host operator this scalar) := by
  apply persists_bind (poison_construct _)
  intro entity
  apply persists_after_look
  intro state
  apply persists_bind (persists_on_failure (poison_belong entity _) fun _ => poison_destroy entity)
  intro _
  exact poison_combine operator this entity

theorem poison_evaluate (operator : EagerOperator) (this other : Address) :
    Persists Poisoned (evaluateEagerly host operator this other) := by
  apply persists_after_look
  intro state
  refine persists_after_change (fun _ poisoned => poisoned) ?_
  split
  · exact persists_fail _
  · apply persists_bind (poison_construct _)
    intro result
    exact persists_ensuring (poison_copy result) fun _ => poison_destroy result

theorem poison_act (event : Event Address Profile) : Persists Poisoned (act host event) := by
  cases event with
  | construct val => exact persists_bind (poison_construct _) fun _ => persists_pure _
  | makeShared val => exact persists_bind (poison_construct _) fun _ => persists_pure _
  | copyConstruct other => exact persists_bind (poison_copy other) fun _ => persists_pure _
  | moveConstruct other => exact persists_bind (poison_move other) fun _ => persists_pure _
  | destroy address => exact persists_change fun _ => poison_destroy address
  | belong this profile => exact poison_belong this profile
  | assign this other => exact poison_assign this other
  | moveAssign this other =>
      simp only [act, moveAssign]
      split_ifs
      · exact persists_pure _
      · exact poison_assign this other
  | assignScalar this scalar => exact poison_assign_scalar this scalar
  | combine operator this other =>
      exact persists_bind (poison_combine operator this other) fun _ => persists_pure _
  | combineScalar operator this scalar =>
      exact persists_bind (poison_combine_scalar operator this scalar) fun _ => persists_pure _
  | evaluateEagerly operator this other =>
      exact persists_bind (poison_evaluate operator this other) fun _ => persists_pure _

/-- Every outcome is poisoned or sound, and none has met a dead object. -/
def Sure (run : Recorder Address Ptr Profile σ Unit) (state : State Address Ptr Profile σ) :
    Prop :=
  Ends run (fun _ reached => Poisoned reached ∨ Active reached)
    (fun failure reached => failure ≠ .dangling ∧ (Poisoned reached ∨ Active reached)) state

omit [DecidableEq Address] in
theorem sure_returned {run : Recorder Address Ptr Profile σ Unit}
    {reached : State Address Ptr Profile σ} (returned : run state = (.ok (), reached))
    (active : Active reached) : Sure run state :=
  ends_of_eq returned (Or.inr active)

omit [DecidableEq Address] in
theorem sure_failed {run : Recorder Address Ptr Profile σ Unit}
    {reached : State Address Ptr Profile σ} {failure : Failure}
    (failed : run state = (.error failure, reached)) (undamaged : failure ≠ .dangling)
    (active : Active reached) : Sure run state :=
  ends_of_failed failed ⟨undamaged, Or.inr active⟩

theorem copy_sure (active : Active state) {other : Address} (alive : other ∈ state.live) :
    Sure (act host (.copyConstruct other)) state := by
  by_cases shared : (state.objects (state.session.canonical other)).shared = true
  · have copies : copyConstruct host other state =
        (.ok (state.nextAddress host), copied host other state) :=
      copy_construct_eq active alive shared
    exact sure_returned (bind_returned copies) (copied_active active alive shared)
  · have owned := Bool.eq_false_of_not_eq_true shared
    exact sure_failed (bind_failed (copy_construct_throws active alive owned)) (by simp) active

/-- What `moveConstruct` leaves of the source. -/
def shellOf (object : Object Ptr Profile) : Object Ptr Profile :=
  { object with val := 0, ciphertext := none, isEncrypted := false, profile := none }

theorem move_sure (active : Active state) {other : Address} (alive : other ∈ state.live) :
    Sure (act host (.moveConstruct other)) state := by
  have resolved := active.sound.resolves other alive
  by_cases shared : (state.objects (state.session.canonical other)).shared = true
  · have moves : moveConstruct host other state =
        (.ok (state.nextAddress host), (copied host other state).onObject other shellOf) := by
      simp only [moveConstruct, bind_look_apply, bind_returned (construct_eq _),
        bind_change_apply, if_pos active.recording, if_pos resolved.alive, if_pos shared]
      rfl
    exact sure_returned (bind_returned moves)
      (on_object_active (copied_active active alive shared) other shellOf rfl)
  · have moves : ∃ reached, moveConstruct host other state =
        (.ok (state.nextAddress host), reached) ∧ Poisoned reached := by
      simp only [moveConstruct, bind_look_apply, bind_returned (construct_eq _),
        bind_change_apply, if_pos active.recording, if_pos resolved.alive, if_neg shared]
      refine ⟨_, rfl, ?_⟩
      simp only [Poisoned, State.onSession, Session.poisonRecording]
      split_ifs with poisoned
      · exact poisoned
      · rfl
    obtain ⟨reached, moved, poisoned⟩ := moves
    exact ends_of_eq (bind_returned moved) (Or.inl poisoned)

theorem belong_sure (active : Active state) (this : Address) (profile : Option Profile) :
    Sure (act host (.belong this profile)) state := by
  cases profile with
  | none =>
      have fails : act host (.belong this none) state =
          (.error .nullProfile,
            state.onObject this fun object => { object with profile := none }) := rfl
      exact sure_failed fails (by simp) (on_object_active active this _ rfl)
  | some profile =>
      rcases outcome : host.encrypt profile (state.objects this).val state.world with
        ⟨message | buffer, world⟩
      · refine sure_failed (belong_throws outcome) (by simp) ?_
        exact world_active (on_object_active active this _ rfl) state.nextControl world
      · exact sure_returned (belong_eq outcome) (belonging_active active this _ _ _)

theorem assign_sure (active : Active state) {this other : Address} (first : this ∈ state.live)
    (second : other ∈ state.live) : Sure (assign this other) state :=
  sure_returned (assign_eq active first second) (assigned_active active first second)

theorem assign_scalar_sure (active : Active state) {this : Address} (alive : this ∈ state.live)
    (scalar : Int) : Sure (act host (.assignScalar this scalar)) state := by
  have saved := save_active active this
  cases present : (state.objects (state.session.canonical this)).profile with
  | none =>
      exact sure_failed (assign_scalar_null active alive scalar present) (by simp)
        (dropped_active saved _ _ _)
  | some profile =>
      rcases outcome : host.encrypt profile scalar state.world with ⟨message | buffer, world⟩
      · exact sure_failed (assign_scalar_throws active alive scalar present outcome) (by simp)
          (dropped_active saved _ _ _)
      · exact sure_returned (assign_scalar_eq active alive scalar present outcome)
          (assigned_scalar_active active alive _ _ _ _)

theorem combine_sure (active : Active state) (operator : Arithmetic) {this other : Address}
    (first : this ∈ state.live) (second : other ∈ state.live) :
    Sure (act host (.combine operator this other)) state :=
  sure_returned (bind_returned (combine_eq active operator first second))
    (combined_active active operator first second)

theorem combine_scalar_sure (active : Active state) (operator : Arithmetic) {this : Address}
    (alive : this ∈ state.live) (scalar : Int) :
    Sure (act host (.combineScalar operator this scalar)) state := by
  cases present : (state.objects this).profile with
  | none =>
      exact sure_failed (bind_failed (combine_scalar_null operator alive scalar present))
        (by simp) (dropped_active active _ _ _)
  | some profile =>
      rcases outcome : host.encrypt profile scalar state.world with ⟨message | buffer, world⟩
      · exact sure_failed
          (bind_failed (combine_scalar_throws operator alive scalar present outcome)) (by simp)
          (dropped_active active _ _ _)
      · have ready : Active (literalReady host scalar profile buffer world state) :=
          literal_ready_active active _ _ _ _
        exact sure_returned
          (bind_returned (combine_literal_eq active operator alive scalar present outcome))
          (combined_active ready operator (Finset.mem_insert_of_mem alive)
            (literal_ready_alive _ _ _ _))

/-- The state with the result object of an eager operator. -/
def evaluatedTo (host : Host Address Ptr Profile σ) (object : Object Ptr Profile) (world : σ)
    (state : State Address Ptr Profile σ) : State Address Ptr Profile σ :=
  { withLiteral host object state with world := world }

theorem evaluated_active (active : Active state) (object : Object Ptr Profile) (world : σ) :
    Active (evaluatedTo host object world state) :=
  world_active (with_literal_active active object) state.nextControl world

theorem evaluate_eagerly_eq (active : Active state) (operator : EagerOperator)
    (this other : Address) {object : Object Ptr Profile} {world : σ}
    (evaluated : host.eager operator (state.objects this) (state.objects other) state.world =
      (.ok object, world)) :
    evaluateEagerly host operator this other state =
      (.ok ((evaluatedTo host object world state).nextAddress host),
        (copied host (state.nextAddress host) (evaluatedTo host object world state)).destroy
          (state.nextAddress host)) := by
  have made : Active (evaluatedTo host object world state) := evaluated_active active object world
  have itself : (evaluatedTo host object world state).session.canonical (state.nextAddress host) =
      state.nextAddress host := result_next active
  have shared : ((evaluatedTo host object world state).objects
      ((evaluatedTo host object world state).session.canonical
        (state.nextAddress host))).shared = true := by
    rw [itself]
    exact congrArg Object.shared (construct_self (state.nextAddress host) _)
  have copies : copyConstruct host (state.nextAddress host) (evaluatedTo host object world state) =
      (.ok ((evaluatedTo host object world state).nextAddress host),
        copied host (state.nextAddress host) (evaluatedTo host object world state)) :=
    copy_construct_eq made (Finset.mem_insert_self _ _) shared
  have makes : makeShared host object { state with world := world } =
      (.ok (state.nextAddress host), evaluatedTo host object world state) := rfl
  simp only [evaluateEagerly, bind_look_apply, bind_change_apply, evaluated]
  rw [bind_returned makes, ensuring, copies]

/-- A result without an entry is gone while its copy stands for it. -/
theorem evaluate_loses (active : Active state) (clean : state.session.poison = none)
    (operator : EagerOperator) (this other : Address) {object : Object Ptr Profile} {world : σ}
    (evaluated : host.eager operator (state.objects this) (state.objects other) state.world =
      (.ok object, world))
    (unregistered : state.session.entityMap (state.nextAddress host) = none) :
    ∃ reached, act host (.evaluateEagerly operator this other) state = (.ok (), reached) ∧
      reached.session.poison = none ∧ ¬PointsToLive reached := by
  have made : Active (evaluatedTo host object world state) := evaluated_active active object world
  have runs := evaluate_eagerly_eq active operator this other evaluated
  have resultAlive : state.nextAddress host ∈ (evaluatedTo host object world state).live :=
    Finset.mem_insert_self _ _
  have different : (evaluatedTo host object world state).nextAddress host ≠
      state.nextAddress host := (ne_next resultAlive).symm
  have recording : (copied host (state.nextAddress host)
      (evaluatedTo host object world state)).session.active = true := made.recording
  have entry : (copied host (state.nextAddress host)
      (evaluatedTo host object world state)).session.entityMap (state.nextAddress host) = none := by
    simp only [copied, State.onSession, Session.setEntity, Function.update_of_ne different.symm]
    exact unregistered
  refine ⟨_, bind_returned runs, ?_, ?_⟩
  · rw [destroy_poison recording (by rw [entry]; simp)]
    exact clean
  · intro points
    have copyAlive : (evaluatedTo host object world state).nextAddress host ∈
        ((copied host (state.nextAddress host)
          (evaluatedTo host object world state)).destroy (state.nextAddress host)).live :=
      Finset.mem_erase.mpr ⟨different, Finset.mem_insert_self _ _⟩
    have stands : ((copied host (state.nextAddress host) (evaluatedTo host object world
        state)).destroy (state.nextAddress host)).session.entityMap
          ((evaluatedTo host object world state).nextAddress host) =
            some (state.nextAddress host) := by
      rw [destroy_entity_map recording, if_neg different]
      simp only [copied, State.onSession, Session.setEntity, Function.update_self]
      exact congrArg some (result_next active)
    have alive := points.entries _ copyAlive _ stands
    exact (Finset.mem_erase.mp alive).1 rfl

/-- A result with an old entry at its place poisons the recording when it goes. -/
theorem evaluate_poisons (active : Active state) (operator : EagerOperator)
    (this other : Address) {object : Object Ptr Profile} {world : σ}
    (evaluated : host.eager operator (state.objects this) (state.objects other) state.world =
      (.ok object, world))
    (registered : (state.session.entityMap (state.nextAddress host)).isSome) :
    ∃ reached, act host (.evaluateEagerly operator this other) state = (.ok (), reached) ∧
      Poisoned reached := by
  have made : Active (evaluatedTo host object world state) := evaluated_active active object world
  have runs := evaluate_eagerly_eq active operator this other evaluated
  have resultAlive : state.nextAddress host ∈ (evaluatedTo host object world state).live :=
    Finset.mem_insert_self _ _
  have different : (evaluatedTo host object world state).nextAddress host ≠
      state.nextAddress host := (ne_next resultAlive).symm
  refine ⟨_, bind_returned runs, ?_⟩
  apply destroy_poisons
  · exact made.recording
  · simp only [copied, State.onSession, Session.setEntity, Function.update_of_ne different.symm]
    have itself : state.session.canonical (state.nextAddress host) = state.nextAddress host :=
      result_next active
    rcases canonical_eq_self.mp itself with none | own
    · rw [none] at registered
      cases registered
    · exact own

theorem destroy_sure (active : Active state) {address : Address}
    (unowned : ownedByOperations state address = false)
    (noticed : state.session.entityMap address = none → Unreferenced state address) :
    Sure (act host (.destroy address)) state := by
  by_cases registered : state.session.entityMap address = some address
  · exact ends_of_eq rfl (Or.inl (destroy_poisons active.recording registered))
  · have unheld : ∀ operation ∈ state.session.operations, ¬Holds operation address := by
      intro operation member holds
      rcases (active.sound.operands operation member address holds).noticed with shared | entry
      · have held : ownedByOperations state address = true := by
          rw [ownedByOperations, shared, Bool.true_and, List.any_eq_true]
          refine ⟨operation, member, ?_⟩
          rcases holds with same | same | same <;> simp [same]
        rw [held] at unowned
        cases unowned
      · exact registered entry
    have unreferenced : Unreferenced state address := by
      by_cases absent : state.session.entityMap address = none
      · exact noticed absent
      · apply collapsed_unreferenced active.sound
        intro itself
        rcases canonical_eq_self.mp itself with none | own
        · exact absent none
        · exact registered own
    refine sure_returned rfl ⟨destroy_sound active.sound active.recording unreferenced unheld, ?_⟩
    rw [destroy_active]
    exact active.recording

theorem event_sure (active : Active state) (clean : state.session.poison = none)
    (event : Event Address Profile) (possible : Possible event state)
    (noticed : Noticed host event { state := state }) : Sure (act host event) state := by
  obtain ⟨uses, unowned⟩ := possible
  cases event with
  | construct val =>
      exact sure_returned (bind_returned (construct_eq _)) (construct_active active _)
  | makeShared val =>
      exact sure_returned (bind_returned (construct_eq _)) (construct_active active _)
  | copyConstruct other => exact copy_sure active (uses other (by simp [Event.uses]))
  | moveConstruct other => exact move_sure active (uses other (by simp [Event.uses]))
  | destroy address => exact destroy_sure active unowned (noticed clean)
  | belong this profile => exact belong_sure active this profile
  | assign this other =>
      exact assign_sure active (uses this (by simp [Event.uses]))
        (uses other (by simp [Event.uses]))
  | moveAssign this other =>
      simp only [act, moveAssign]
      split_ifs
      · exact sure_returned rfl active
      · exact assign_sure active (uses this (by simp [Event.uses]))
          (uses other (by simp [Event.uses]))
  | assignScalar this scalar =>
      exact assign_scalar_sure active (uses this (by simp [Event.uses])) scalar
  | combine operator this other =>
      exact combine_sure active operator (uses this (by simp [Event.uses]))
        (uses other (by simp [Event.uses]))
  | combineScalar operator this scalar =>
      exact combine_scalar_sure active operator (uses this (by simp [Event.uses])) scalar
  | evaluateEagerly operator this other =>
      rcases outcome : host.eager operator (state.objects this) (state.objects other) state.world
        with ⟨message | object, world⟩
      · have throws : act host (.evaluateEagerly operator this other) state =
            (.error (.thrown message), { state with world := world }) := by
          apply bind_failed
          simp only [evaluateEagerly, bind_look_apply, bind_change_apply, outcome, fail_apply]
        exact sure_failed throws (by simp) (world_active active state.nextControl world)
      · have registered : (state.session.entityMap (state.nextAddress host)).isSome := by
          rcases noticed clean with ⟨message, threw⟩ | registered
          · rw [outcome] at threw
            cases threw
          · exact registered
        obtain ⟨reached, ran, poisoned⟩ := evaluate_poisons active operator this other outcome
          registered
        exact ends_of_eq ran (Or.inl poisoned)

theorem step_cases {event : Event Address Profile} {moment next : Moment Address Ptr Profile σ}
    (stepped : step host event moment = some next) :
    Possible event moment.state ∧
      ((act host event moment.state = (.ok (), next.state) ∧ next.failure = none) ∨
        ∃ failure, act host event moment.state = (.error failure, next.state) ∧
          next.failure = some failure) := by
  unfold step at stepped
  split_ifs at stepped with _ possible
  refine ⟨possible, ?_⟩
  rcases ran : act host event moment.state with ⟨failure | value, reached⟩
  · rw [ran, Option.some.injEq] at stepped
    right
    rw [← stepped]
    exact ⟨failure, rfl, rfl⟩
  · rw [ran, Option.some.injEq] at stepped
    left
    rw [← stepped]
    exact ⟨rfl, rfl⟩

theorem noticed_tracked (event : Event Address Profile)
    (moment next : Moment Address Ptr Profile σ) (tracked : Tracked moment)
    (stepped : step host event moment = some next) (noticed : Noticed host event moment) :
    Tracked next := by
  obtain ⟨possible, outcomes⟩ := step_cases stepped
  have reached : next.state = (act host event moment.state).2 := by
    rcases outcomes with ⟨ran, -⟩ | ⟨failure, ran, -⟩
    · rw [ran]
    · rw [ran]
  rcases tracked with poisoned | ⟨active, -⟩
  · left
    rw [reached]
    exact (poison_act event).keeps moment.state poisoned
  · by_cases clean : moment.state.session.poison = none
    · have sure := event_sure active clean event possible noticed
      rcases outcomes with ⟨ran, unfailed⟩ | ⟨failure, ran, failed⟩
      · rcases ends_returned sure ran with poisoned | stillActive
        · exact Or.inl poisoned
        · right
          rw [unfailed]
          exact ⟨stillActive, by simp⟩
      · obtain ⟨undamaged, poisoned | stillActive⟩ := ends_failed sure ran
        · exact Or.inl poisoned
        · right
          rw [failed]
          exact ⟨stillActive, fun same => undamaged (Option.some.inj same)⟩
    · left
      rw [reached]
      exact (poison_act event).keeps moment.state (Option.isSome_iff_ne_none.mpr clean)

/-- An object dies without an entry while another live key stands for it. -/
theorem unnoticed_unsafe (event : Event Address Profile)
    (moment next : Moment Address Ptr Profile σ) (tracked : Tracked moment)
    (stepped : step host event moment = some next) (unnoticed : ¬Noticed host event moment) :
    ¬Safe next := by
  obtain ⟨possible, outcomes⟩ := step_cases stepped
  have clean : moment.state.session.poison = none := by
    by_contra poisoned
    exact unnoticed (fun clean => absurd clean poisoned)
  have active : Active moment.state := by
    rcases tracked with poisoned | ⟨active, -⟩
    · rw [clean] at poisoned
      cases poisoned
    · exact active
  have lost : ∃ reached, act host event moment.state = (.ok (), reached) ∧
      reached.session.poison = none ∧ ¬PointsToLive reached := by
    cases event with
    | destroy address =>
        have condition : ¬(moment.state.session.entityMap address = none →
            Unreferenced moment.state address) := fun holds => unnoticed (fun _ => holds)
        obtain ⟨absent, referenced⟩ := Classical.not_imp.mp condition
        simp only [Unreferenced, not_forall] at referenced
        obtain ⟨key, alive, different, stands⟩ := referenced
        rw [ne_eq, not_not] at stands
        refine ⟨moment.state.destroy address, rfl, ?_, ?_⟩
        · rw [destroy_poison active.recording (by rw [absent]; simp)]
          exact clean
        · intro points
          have entry : moment.state.session.entityMap key = some address := by
            rw [Session.canonical] at stands
            cases found : moment.state.session.entityMap key with
            | none =>
                rw [found] at stands
                exact absurd stands different
            | some target =>
                rw [found] at stands
                exact congrArg some stands
          have kept : (moment.state.destroy address).session.entityMap key = some address := by
            rw [destroy_entity_map active.recording, if_neg different, entry]
          have target := points.entries key (Finset.mem_erase.mpr ⟨different, alive⟩) address kept
          exact (Finset.mem_erase.mp target).1 rfl
    | evaluateEagerly operator this other =>
        have condition : ¬((∃ message, (host.eager operator (moment.state.objects this)
            (moment.state.objects other) moment.state.world).1 = .error message) ∨
              (moment.state.session.entityMap (moment.state.nextAddress host)).isSome) :=
          fun holds => unnoticed (fun _ => holds)
        rw [not_or] at condition
        rcases outcome : host.eager operator (moment.state.objects this)
            (moment.state.objects other) moment.state.world with ⟨message | object, world⟩
        · exact absurd ⟨message, by rw [outcome]⟩ condition.1
        · exact evaluate_loses active clean operator this other outcome
            (Option.not_isSome_iff_eq_none.mp condition.2)
    | _ => exact absurd (fun _ => trivial) unnoticed
  obtain ⟨reached, ran, stillClean, wrong⟩ := lost
  intro safe
  have same : next.state = reached := by
    rcases outcomes with ⟨other, -⟩ | ⟨failure, other, -⟩
    · rw [ran] at other
      exact (Prod.mk.inj other).2.symm
    · rw [ran] at other
      cases (Prod.mk.inj other).1
  rw [← same] at stillClean wrong
  exact wrong (safe stillClean).1

/-- In a run of a session the map keeps pointing to live objects, unless it is poisoned, exactly
when no unpoisoned step lets an object die that has no entry while a copy stands for it. -/
theorem points_to_live_iff (host : Host Address Ptr Profile σ) (outer : Address → Prop)
    (state : State Address Ptr Profile σ) (ready : Ready outer state)
    (events : List (Event Address Profile)) :
    Always (step host) Safe events { state := activate state } ↔
      Guarded (step host) (Noticed host) events { state := activate state } := by
  have start : Tracked ({ state := activate state } : Moment Address Ptr Profile σ) :=
    Or.inr ⟨(activate_ongoing ready).active, by simp⟩
  exact always_iff_guarded tracked_safe
    (fun event moment next tracked stepped noticed =>
      noticed_tracked event moment next tracked stepped noticed)
    (fun event moment next tracked stepped unnoticed =>
      unnoticed_unsafe event moment next tracked stepped unnoticed) events _ start

/-- `t = a + b; c = t` -/
theorem sum_points_to_live : Always (step countingHost) Safe
    [.combine .add 0 1, .assign 2 4] { state := activate threeVariables } := by
  apply (points_to_live_iff countingHost (· < 3) threeVariables three_ready _).mpr
  intro _ _
  refine ⟨fun _ => trivial, ?_⟩
  intro _ _
  exact ⟨fun _ => trivial, trivial⟩

/-- A backend whose eager operators make a new encrypted object. -/
def eagerHost : Host Nat Nat Unit Nat :=
  { countingHost with
    eager := fun _ this _ next =>
      (.ok { val := 0, isEncrypted := true, profile := this.profile }, next) }

/-- `t = a & b; c = t`: the copy at 4 stands for the result at 3, which is gone. -/
theorem eager_result_dangles :
    Ready (· < 3) threeVariables ∧
      ¬Always (step eagerHost) Safe [.evaluateEagerly .bitAnd 0 1, .assign 2 4]
        { state := activate threeVariables } ∧
      ((step eagerHost (.evaluateEagerly .bitAnd 0 1) { state := activate threeVariables }).bind
        (step eagerHost (.assign 2 4))).map (·.failure) = some (some .dangling) := by
  refine ⟨three_ready, ?_, rfl⟩
  intro always
  have second := (always.2 _ rfl).2 _ rfl
  exact (always_holds second rfl).2 rfl

end Fhenomenon.EntityLifetimes
