import Fhenomenon.EntityMap

/-!
# What each recording function does

On a sound map and live operands every function of the session and of `Fhenon`
runs to a known state, never meets a dead object and keeps the map sound.
-/

namespace Fhenomenon.RecordingSteps

open Fhenomenon.Lib.Fallible Fhenomenon.RecordedGraph Fhenomenon.Recording
open Fhenomenon.EntityMap

variable {Address Ptr Profile σ : Type} [DecidableEq Address]
  {host : Host Address Ptr Profile σ} {state : State Address Ptr Profile σ}

/-- A session that records, with a sound map. -/
structure Active (state : State Address Ptr Profile σ) : Prop where
  sound : Sound state
  recording : state.session.active = true

omit [DecidableEq Address] in
theorem next_unused (host : Host Address Ptr Profile σ) (state : State Address Ptr Profile σ) :
    state.nextAddress host ∉ state.live :=
  host.unused _ _

theorem construct_eq (object : Object Ptr Profile) :
    construct host object state =
      (.ok (state.nextAddress host), state.construct (state.nextAddress host) object) :=
  rfl

theorem construct_active (active : Active state) (object : Object Ptr Profile) :
    Active (state.construct (state.nextAddress host) object) :=
  ⟨construct_sound active.sound (next_unused host state) object, active.recording⟩

theorem save_active (active : Active state) (entity : Address) : Active (state.save entity) :=
  ⟨save_sound active.sound entity, by
    rw [EntityMap.save_active]
    exact active.recording⟩

theorem track_entity_eq (active : Active state) {entity : Address} (alive : entity ∈ state.live) :
    trackEntity entity state = (.ok (state.session.canonical entity), state.save entity) := by
  have resolved := (active.sound.resolves entity alive).alive
  simp only [trackEntity, bind_look_apply, bind_change_apply, if_pos resolved]
  rfl

def copyOf (state : State Address Ptr Profile σ) (other : Address) : Object Ptr Profile :=
  { state.objects other with isScalar := false, shared := false }

def copied (host : Host Address Ptr Profile σ) (other : Address)
    (state : State Address Ptr Profile σ) : State Address Ptr Profile σ :=
  (state.construct (state.nextAddress host) (copyOf state other)).onSession fun session =>
    session.setEntity (state.nextAddress host) (state.session.canonical other)

theorem copy_construct_eq (active : Active state) {other : Address} (alive : other ∈ state.live)
    (shared : (state.objects (state.session.canonical other)).shared = true) :
    copyConstruct host other state = (.ok (state.nextAddress host), copied host other state) := by
  have resolved := (active.sound.resolves other alive).alive
  simp only [copyConstruct, bind_look_apply, if_pos active.recording, if_pos resolved,
    if_pos shared]
  rfl

theorem copy_construct_throws (active : Active state) {other : Address}
    (alive : other ∈ state.live)
    (owned : (state.objects (state.session.canonical other)).shared = false) :
    copyConstruct host other state =
      (.error (.thrown ("Session: copying a session variable inside run() is not supported — " ++
        "assign to a variable declared outside run() instead")), state) := by
  have resolved := (active.sound.resolves other alive).alive
  have notShared : ¬(state.objects (state.session.canonical other)).shared = true := by
    rw [owned]
    exact Bool.false_ne_true
  simp only [copyConstruct, bind_look_apply, if_pos active.recording, if_pos resolved,
    if_neg notShared]
  rfl

theorem copied_active (active : Active state) {other : Address} (alive : other ∈ state.live)
    (shared : (state.objects (state.session.canonical other)).shared = true) :
    Active (copied host other state) where
  sound := copy_sound active.sound (next_unused host state) _
    (active.sound.resolves other alive).alive shared (active.sound.resolves other alive).oneHop
  recording := active.recording

def encrypted (host : Host Address Ptr Profile σ) (state : State Address Ptr Profile σ)
    (buffer : Ptr) (object : Object Ptr Profile) : Object Ptr Profile :=
  { object with
    ciphertext := some
      { buffer := { raw := some buffer, control := state.nextControl }, owner := host.backend }
    isEncrypted := true }

def belonging (host : Host Address Ptr Profile σ) (this : Address) (profile : Profile)
    (buffer : Ptr) (world : σ) (state : State Address Ptr Profile σ) :
    State Address Ptr Profile σ :=
  { (state.onObject this fun object =>
        encrypted host state buffer { object with profile := some profile }).save this with
    nextControl := state.nextControl + 1
    world := world }

theorem belong_eq {this : Address} {profile : Profile} {buffer : Ptr} {world : σ}
    (made : host.encrypt profile (state.objects this).val state.world = (.ok buffer, world)) :
    belong host this (some profile) state =
      (.ok (), belonging host this profile buffer world state) := by
  simp only [belong, bind_change_apply]
  have value : ((state.onObject this fun object =>
      { object with profile := some profile }).objects this).val = (state.objects this).val := by
    rw [on_object_self]
  have transformed : transform host profile this (state.onObject this fun object =>
      { object with profile := some profile }) =
        (.ok (),
          { (state.onObject this fun object =>
              encrypted host state buffer { object with profile := some profile }) with
            nextControl := state.nextControl + 1
            world := world }) := by
    simp only [transform, value]
    simp only [State.onObject, made, Function.update_self, Function.update_idem, encrypted]
  rw [bind_returned transformed]
  rfl

theorem belong_throws {this : Address} {profile : Profile} {message : String} {world : σ}
    (failed : host.encrypt profile (state.objects this).val state.world =
      (.error message, world)) :
    belong host this (some profile) state =
      (.error (.thrown message),
        { state.onObject this fun object => { object with profile := some profile } with
          world := world }) := by
  simp only [belong, bind_change_apply]
  have value : ((state.onObject this fun object =>
      { object with profile := some profile }).objects this).val = (state.objects this).val := by
    rw [on_object_self]
  have transformed : transform host profile this (state.onObject this fun object =>
      { object with profile := some profile }) =
        (.error (.thrown message),
          { state.onObject this fun object => { object with profile := some profile } with
            world := world }) := by
    simp only [transform, value]
    simp only [State.onObject, failed]
  exact bind_failed transformed

theorem belong_null (this : Address) :
    belong host this none state =
      (.error .nullProfile, state.onObject this fun object => { object with profile := none }) :=
  rfl

theorem on_object_active (active : Active state) (address : Address)
    (update : Object Ptr Profile → Object Ptr Profile)
    (owned : (update (state.objects address)).shared = (state.objects address).shared) :
    Active (state.onObject address update) := by
  refine ⟨sound_of_same active.sound rfl ?_ rfl, active.recording⟩
  intro entity
  by_cases same : entity = address
  · rw [same, on_object_self, owned]
  · rw [on_object_other same]

omit [DecidableEq Address] in
theorem world_active (active : Active state) (nextControl : Nat) (world : σ) :
    Active { state with nextControl := nextControl, world := world } :=
  ⟨sound_of_same active.sound rfl (fun _ => rfl) rfl, active.recording⟩

theorem belonging_active (active : Active state) (this : Address) (profile : Profile)
    (buffer : Ptr) (world : σ) : Active (belonging host this profile buffer world state) := by
  apply world_active
  apply save_active
  exact on_object_active active this _ rfl

theorem belonging_shared (this : Address) (profile : Profile) (buffer : Ptr) (world : σ)
    (entity : Address) :
    ((belonging host this profile buffer world state).objects entity).shared =
      (state.objects entity).shared := by
  by_cases same : entity = this
  · simp only [belonging, save_objects, same, on_object_self]
    rfl
  · simp only [belonging, save_objects, on_object_other same]

theorem belonging_keeps {entity : Address} (kept : Kept state entity) (this : Address)
    (profile : Profile) (buffer : Ptr) (world : σ) :
    Kept (belonging host this profile buffer world state) entity := by
  have changed : Kept (state.onObject this fun object =>
      encrypted host state buffer { object with profile := some profile }) entity := by
    refine ⟨kept.alive, ?_⟩
    rcases kept.noticed with shared | entry
    · left
      by_cases same : entity = this
      · rw [same, on_object_self]
        exact same ▸ shared
      · rw [on_object_other same]
        exact shared
    · exact Or.inr entry
  have saved : Kept ((state.onObject this fun object =>
      encrypted host state buffer { object with profile := some profile }).save this) entity :=
    save_keeps changed
  exact ⟨saved.alive, saved.noticed⟩

/-- The operation that `operator+` or `operator*` records. -/
def arithmeticOperation (host : Host Address Ptr Profile σ) (operator : Arithmetic)
    (this other : Address) (state : State Address Ptr Profile σ) : Operation Address where
  type := operator.operationType
  operand1 := state.session.canonical this
  operand2 := state.session.canonical other
  result := some (state.nextAddress host)

/-- The state with the hidden result object and the operation, before the copy. -/
def recorded (host : Host Address Ptr Profile σ) (operator : Arithmetic) (this other : Address)
    (state : State Address Ptr Profile σ) : State Address Ptr Profile σ :=
  ((((state.save this).save other).construct (state.nextAddress host)
    { val := 1234, shared := true }).save (state.nextAddress host)).record
      (arithmeticOperation host operator this other state)

def combined (host : Host Address Ptr Profile σ) (operator : Arithmetic) (this other : Address)
    (state : State Address Ptr Profile σ) : State Address Ptr Profile σ :=
  copied host (state.nextAddress host) (recorded host operator this other state)

variable {this other : Address}

theorem recorded_result (operator : Arithmetic) :
    (recorded host operator this other state).objects (state.nextAddress host) =
      { val := 1234, shared := true } := by
  simp only [recorded, State.record, State.onSession, save_objects, State.construct,
    Function.update_self]

theorem recorded_canonical (operator : Arithmetic) (key : Address) :
    (recorded host operator this other state).session.canonical key =
      state.session.canonical key := by
  have recordKeeps (before : State Address Ptr Profile σ) (operation : Operation Address) :
      (before.record operation).session.canonical key = before.session.canonical key := rfl
  rw [recorded, recordKeeps, save_canonical, construct_session, save_canonical, save_canonical]

theorem recorded_active (active : Active state) (operator : Arithmetic)
    (first : this ∈ state.live) (second : other ∈ state.live) :
    Active (recorded host operator this other state) := by
  have tracked : Active ((state.save this).save other) :=
    save_active (save_active active this) other
  have unused : state.nextAddress host ∉ ((state.save this).save other).live :=
    next_unused host state
  have constructed := construct_sound tracked.sound unused
    { val := 1234, shared := true }
  have saved := save_sound constructed (state.nextAddress host)
  constructor
  · apply record_sound saved
    intro entity holds
    apply save_keeps
    rcases holds with same | same | same
    · rw [← same]
      exact construct_keeps unused _ (save_keeps (canonical_kept active.sound first))
    · rw [← same]
      have kept := canonical_kept (save_active active this).sound second
      rw [save_canonical] at kept
      exact construct_keeps unused _ kept
    · rw [arithmeticOperation, Option.some.injEq] at same
      rw [← same]
      refine ⟨Finset.mem_insert_self _ _, Or.inl ?_⟩
      simp only [State.construct, Function.update_self]
  · exact (save_active ⟨constructed, tracked.recording⟩ (state.nextAddress host)).recording

theorem combine_eq (active : Active state) (operator : Arithmetic) (first : this ∈ state.live)
    (second : other ∈ state.live) :
    combine host operator this other state =
      (.ok ((recorded host operator this other state).nextAddress host),
        combined host operator this other state) := by
  have active1 := save_active active this
  have active2 := save_active active1 other
  have itself : state.session.canonical (state.nextAddress host) = state.nextAddress host :=
    active.sound.dead _ (next_unused host state)
  have tracked2 : trackEntity other (state.save this) =
      (.ok (state.session.canonical other), (state.save this).save other) := by
    rw [track_entity_eq active1 second, save_canonical]
  have made : makeShared host { val := 1234 } ((state.save this).save other) =
      (.ok (state.nextAddress host), ((state.save this).save other).construct
        (state.nextAddress host) { val := 1234, shared := true }) := rfl
  have constructed : Active (((state.save this).save other).construct (state.nextAddress host)
      { val := 1234, shared := true }) :=
    ⟨construct_sound active2.sound (next_unused host state) _, active2.recording⟩
  have saved := save_active constructed (state.nextAddress host)
  have tracked3 := track_entity_eq saved 
    (Finset.mem_insert_self _ _)
  rw [combine, bind_returned (track_entity_eq active first), bind_returned tracked2,
    bind_returned made, bind_change_apply, bind_returned tracked3, bind_change_apply]
  rw [save_save]
  exact copy_construct_eq (recorded_active active operator first second)
    (Finset.mem_insert_self _ _) (by rw [recorded_canonical, itself, recorded_result])

theorem combined_active (active : Active state) (operator : Arithmetic)
    (first : this ∈ state.live) (second : other ∈ state.live) :
    Active (combined host operator this other state) := by
  have itself : state.session.canonical (state.nextAddress host) = state.nextAddress host :=
    active.sound.dead _ (next_unused host state)
  exact copied_active (recorded_active active operator first second)
    (Finset.mem_insert_self _ _) (by rw [recorded_canonical, itself, recorded_result])

theorem assign_eq (active : Active state) (first : this ∈ state.live)
    (second : other ∈ state.live) :
    assign this other state =
      (.ok (), ((state.save this).save other).record
        { type := .assignment
          operand1 := state.session.canonical this
          operand2 := state.session.canonical other }) := by
  have tracked : trackEntity other (state.save this) =
      (.ok (state.session.canonical other), (state.save this).save other) := by
    rw [track_entity_eq (save_active active this) second, save_canonical]
  rw [assign, bind_returned (track_entity_eq active first), bind_returned tracked, change_apply]

theorem assigned_active (active : Active state) (first : this ∈ state.live)
    (second : other ∈ state.live) :
    Active (((state.save this).save other).record
      { type := .assignment
        operand1 := state.session.canonical this
        operand2 := state.session.canonical other }) := by
  have active1 := save_active active this
  have active2 := save_active active1 other
  refine ⟨record_sound active2.sound _ ?_, active2.recording⟩
  intro entity holds
  rcases holds with same | same | same
  · rw [← same]
    exact save_keeps (canonical_kept active.sound first)
  · have kept := canonical_kept active1.sound second
    rw [save_canonical] at kept
    rw [← same]
    exact kept
  · cases same

/-- The state with a new shared object for a literal. -/
def withLiteral (host : Host Address Ptr Profile σ) (object : Object Ptr Profile)
    (state : State Address Ptr Profile σ) : State Address Ptr Profile σ :=
  state.construct (state.nextAddress host) { object with shared := true }

/-- The state in which the literal's object is gone again, after `belong` failed. -/
def dropped (host : Host Address Ptr Profile σ) (object : Object Ptr Profile)
    (profile : Option Profile) (world : σ) (state : State Address Ptr Profile σ) :
    State Address Ptr Profile σ :=
  State.destroy (state.nextAddress host)
    { (withLiteral host object state).onObject (state.nextAddress host) fun object =>
        { object with profile := profile } with
      world := world }

theorem with_literal_value (object : Object Ptr Profile) :
    ((withLiteral host object state).objects (state.nextAddress host)).val = object.val := by
  rw [withLiteral, construct_self]

theorem literal_eq {object : Object Ptr Profile} {profile : Profile} {buffer : Ptr} {world : σ}
    (made : host.encrypt profile object.val state.world = (.ok buffer, world)) :
    onFailure (belong host (state.nextAddress host) (some profile))
        (State.destroy (state.nextAddress host)) (withLiteral host object state) =
      (.ok (), belonging host (state.nextAddress host) profile buffer world
        (withLiteral host object state)) := by
  rw [onFailure, belong_eq]
  rw [with_literal_value]
  exact made

theorem literal_throws {object : Object Ptr Profile} {profile : Profile} {message : String}
    {world : σ} (failed : host.encrypt profile object.val state.world = (.error message, world)) :
    onFailure (belong host (state.nextAddress host) (some profile))
        (State.destroy (state.nextAddress host)) (withLiteral host object state) =
      (.error (.thrown message), dropped host object (some profile) world state) := by
  have thrown : belong host (state.nextAddress host) (some profile)
      (withLiteral host object state) = _ := belong_throws (by
    rw [with_literal_value]
    exact failed)
  rw [onFailure, thrown]
  rfl

theorem literal_null (object : Object Ptr Profile) :
    onFailure (belong host (state.nextAddress host) none)
        (State.destroy (state.nextAddress host)) (withLiteral host object state) =
      (.error .nullProfile, dropped host object none state.world state) := by
  rw [onFailure, belong_null]
  rfl

theorem with_literal_active (active : Active state) (object : Object Ptr Profile) :
    Active (withLiteral host object state) :=
  construct_active active _

theorem dropped_active (active : Active state) (object : Object Ptr Profile)
    (profile : Option Profile) (world : σ) : Active (dropped host object profile world state) := by
  have made : Active (withLiteral host object state) := with_literal_active active object
  have changed : Active ((withLiteral host object state).onObject (state.nextAddress host)
      fun object => { object with profile := profile }) := on_object_active made _ _ rfl
  have moved := world_active changed (withLiteral host object state).nextControl world
  have unused := next_unused host state
  refine ⟨destroy_sound moved.sound moved.recording ?_ ?_, ?_⟩
  · intro key alive different stands
    rcases Finset.mem_insert.mp alive with same | before
    · exact different same
    · exact unused (stands ▸ (active.sound.resolves key before).alive)
  · intro operation member holds
    exact unused (active.sound.operands operation member _ holds).alive
  · rw [dropped, destroy_active]
    exact active.recording

/-- The state in which the literal's operation is recorded. -/
def combinedScalar (host : Host Address Ptr Profile σ) (operator : Arithmetic) (this : Address)
    (scalar : Int) (profile : Profile) (buffer : Ptr) (world : σ)
    (state : State Address Ptr Profile σ) : State Address Ptr Profile σ :=
  combined host operator this (state.nextAddress host)
    (belonging host (state.nextAddress host) profile buffer world
      (withLiteral host { val := scalar, isScalar := true } state))

theorem with_literal_other (object : Object Ptr Profile) (alive : this ∈ state.live) :
    (withLiteral host object state).objects this = state.objects this := by
  rw [withLiteral, construct_other]
  intro same
  exact next_unused host state (same ▸ alive)

theorem combine_scalar_null (operator : Arithmetic) (alive : this ∈ state.live) (scalar : Int)
    (absent : (state.objects this).profile = none) :
    combineScalar host operator this scalar state =
      (.error .nullProfile,
        dropped host { val := scalar, isScalar := true } none state.world state) := by
  have made : makeShared host { val := scalar, isScalar := true } state =
      (.ok (state.nextAddress host),
        withLiteral host { val := scalar, isScalar := true } state) := rfl
  rw [combineScalar, bind_returned made, bind_look_apply, with_literal_other _ alive, absent]
  exact bind_failed (literal_null _)

theorem combine_scalar_throws (operator : Arithmetic) (alive : this ∈ state.live) (scalar : Int)
    {profile : Profile} (present : (state.objects this).profile = some profile)
    {message : String} {world : σ}
    (failed : host.encrypt profile scalar state.world = (.error message, world)) :
    combineScalar host operator this scalar state =
      (.error (.thrown message),
        dropped host { val := scalar, isScalar := true } (some profile) world state) := by
  have made : makeShared host { val := scalar, isScalar := true } state =
      (.ok (state.nextAddress host),
        withLiteral host { val := scalar, isScalar := true } state) := rfl
  rw [combineScalar, bind_returned made, bind_look_apply, with_literal_other _ alive, present]
  exact bind_failed (literal_throws failed)

theorem combine_scalar_eq (active : Active state) (operator : Arithmetic)
    (alive : this ∈ state.live) (scalar : Int) {profile : Profile}
    (present : (state.objects this).profile = some profile) {buffer : Ptr} {world : σ}
    (encrypts : host.encrypt profile scalar state.world = (.ok buffer, world)) :
    combineScalar host operator this scalar state =
      (.ok ((recorded host operator this (state.nextAddress host)
          (belonging host (state.nextAddress host) profile buffer world
            (withLiteral host { val := scalar, isScalar := true } state))).nextAddress host),
        combinedScalar host operator this scalar profile buffer world state) := by
  have made : makeShared host { val := scalar, isScalar := true } state =
      (.ok (state.nextAddress host),
        withLiteral host { val := scalar, isScalar := true } state) := rfl
  have active2 : Active (belonging host (state.nextAddress host) profile buffer world
      (withLiteral host { val := scalar, isScalar := true } state)) :=
    belonging_active (with_literal_active active _) _ _ _ _
  rw [combineScalar, bind_returned made, bind_look_apply, with_literal_other _ alive, present,
    bind_returned (literal_eq encrypts)]
  exact combine_eq active2 operator (Finset.mem_insert_of_mem alive) (Finset.mem_insert_self _ _)

/-- The state in which the assignment of a literal is recorded. -/
def assignedScalar (host : Host Address Ptr Profile σ) (this : Address) (scalar : Int)
    (profile : Profile) (buffer : Ptr) (world : σ) (state : State Address Ptr Profile σ) :
    State Address Ptr Profile σ :=
  (belonging host (state.nextAddress host) profile buffer world
    (withLiteral host { val := scalar } (state.save this))).record
      { type := .assignment
        operand1 := state.session.canonical this
        operand2 := state.nextAddress host }

theorem assign_scalar_tracked (active : Active state) (alive : this ∈ state.live) (scalar : Int) :
    assignScalar host this scalar state =
      (do
        onFailure (belong host (state.nextAddress host)
          (state.objects (state.session.canonical this)).profile)
            (State.destroy (state.nextAddress host))
        change (State.record
          { type := .assignment
            operand1 := state.session.canonical this
            operand2 := state.nextAddress host }) : Recorder Address Ptr Profile σ Unit)
        (withLiteral host { val := scalar } (state.save this)) := by
  have saved := save_active active this
  have made : makeShared host { val := scalar } (state.save this) =
      (.ok (state.nextAddress host), withLiteral host { val := scalar } (state.save this)) := rfl
  have resolved := (active.sound.resolves this alive).alive
  have untouched : (withLiteral host { val := scalar } (state.save this)).objects
      (state.session.canonical this) = state.objects (state.session.canonical this) :=
    with_literal_other _ resolved
  rw [assignScalar, bind_change_apply, bind_returned (track_entity_eq saved alive), save_canonical,
    save_save, bind_returned made, bind_look_apply, untouched]

theorem assign_scalar_null (active : Active state) (alive : this ∈ state.live) (scalar : Int)
    (absent : (state.objects (state.session.canonical this)).profile = none) :
    assignScalar host this scalar state =
      (.error .nullProfile,
        dropped host { val := scalar } none state.world (state.save this)) := by
  rw [assign_scalar_tracked active alive, absent]
  exact bind_failed (literal_null _)

theorem assign_scalar_throws (active : Active state) (alive : this ∈ state.live) (scalar : Int)
    {profile : Profile}
    (present : (state.objects (state.session.canonical this)).profile = some profile)
    {message : String} {world : σ}
    (failed : host.encrypt profile scalar state.world = (.error message, world)) :
    assignScalar host this scalar state =
      (.error (.thrown message),
        dropped host { val := scalar } (some profile) world (state.save this)) := by
  rw [assign_scalar_tracked active alive, present]
  exact bind_failed (literal_throws failed)

theorem assign_scalar_eq (active : Active state) (alive : this ∈ state.live) (scalar : Int)
    {profile : Profile}
    (present : (state.objects (state.session.canonical this)).profile = some profile)
    {buffer : Ptr} {world : σ}
    (encrypts : host.encrypt profile scalar state.world = (.ok buffer, world)) :
    assignScalar host this scalar state =
      (.ok (), assignedScalar host this scalar profile buffer world state) := by
  have belongs : onFailure (belong host (state.nextAddress host) (some profile))
      (State.destroy (state.nextAddress host))
        (withLiteral host { val := scalar } (state.save this)) =
          (.ok (), belonging host (state.nextAddress host) profile buffer world
            (withLiteral host { val := scalar } (state.save this))) := literal_eq encrypts
  rw [assign_scalar_tracked active alive, present, bind_returned belongs]
  rfl

theorem assigned_scalar_active (active : Active state) (alive : this ∈ state.live) (scalar : Int)
    (profile : Profile) (buffer : Ptr) (world : σ) :
    Active (assignedScalar host this scalar profile buffer world state) := by
  have saved := save_active active this
  have made : Active (withLiteral host { val := scalar } (state.save this)) :=
    with_literal_active saved _
  have belongs : Active (belonging host (state.nextAddress host) profile buffer world
      (withLiteral host { val := scalar } (state.save this))) := belonging_active made _ _ _ _
  have unused : state.nextAddress host ∉ (state.save this).live := next_unused host state
  have owned : ((withLiteral host { val := scalar } (state.save this)).objects
      (state.nextAddress host)).shared = true :=
    congrArg Object.shared (construct_self (state.nextAddress host) _)
  refine ⟨record_sound belongs.sound _ ?_, belongs.recording⟩
  intro entity holds
  rcases holds with same | same | same
  · rw [← same]
    exact belonging_keeps (construct_keeps unused _ (canonical_kept active.sound alive)) _ _ _ _
  · rw [← same]
    refine ⟨Finset.mem_insert_self _ _, Or.inl ?_⟩
    rw [belonging_shared]
    exact owned
  · cases same

end Fhenomenon.RecordingSteps
