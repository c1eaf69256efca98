import Fhenomenon.BuiltinBackend
import Fhenomenon.SuccessiveRuns

/-!
# Operators outside of sessions

Evaluating an expression outside of a session makes objects of its own and leaves
the caller's variables alone, whether it throws or not; what it returns holds the
value of the expression. An assignment then gives its target that value.
-/

namespace Fhenomenon.OutsideMeaning

open Fhenomenon.Lib.Fallible Fhenomenon.DefaultExecutor Fhenomenon.DeviceAbi
open Fhenomenon.RecordedGraph Fhenomenon.SessionRefinement Fhenomenon.WriteBack
open Fhenomenon.Recording Fhenomenon.EntityMap Fhenomenon.SessionBodies
open Fhenomenon.RecordingSteps Fhenomenon.RecordingFrame Fhenomenon.BodyMeaning
open Fhenomenon.MirroredExpressions Fhenomenon.ValueSemantics Fhenomenon.UntouchedBuffers
open Fhenomenon.SuccessiveRuns Fhenomenon.BuiltinBackend

variable {Address Ptr Profile σ V κ : Type}

/-- The backend's operators leave live buffers alone; a buffer they return holds the result. -/
structure ComputeLaw [Add V] [Mul V] (model : DeviceModel Ptr σ V κ)
    (hooks : FhnMovementHooks Ptr σ) (backend : Nat)
    (compute : Arithmetic → Object Ptr Profile → Object Ptr Profile →
      Computation σ String Ptr) : Prop where
  keeps : ∀ operator a b world,
    Preserves model.contents world (compute operator a b world).2
  filled : ∀ operator a b world first second buffer after,
    Supplies model hooks backend world a.toFhenon first →
      Supplies model hooks backend world b.toFhenon second →
        compute operator a b world = (.ok buffer, after) →
          model.contents after buffer = some (apply operator first second)

/-- The session may get entries of keys that stand for themselves. -/
structure SessionKept (before after : Session Address) : Prop where
  active : after.active = before.active
  operations : after.operations = before.operations
  poison : after.poison = before.poison
  entries : ∀ key target, after.entityMap key = some target →
    before.entityMap key = some target ∨ target = key

/-- Objects, locals and live buffers of `before` are as they were; what else there is was
made in the meantime. -/
structure Spares (contents : σ → Ptr → Option V) (before after : State Address Ptr Profile σ) :
    Prop where
  live : before.live ⊆ after.live
  objects : ∀ address ∈ before.live, after.objects address = before.objects address
  session : SessionKept before.session after.session
  locals : after.locals = before.locals
  temporaries : ∃ made, after.temporaries = made ++ before.temporaries ∧
    ∀ address ∈ made, address ∉ before.live
  contents : Preserves contents before.world after.world

variable {contents : σ → Ptr → Option V} {before later last : State Address Ptr Profile σ}
  {address : Address}

theorem spares_refl (contents : σ → Ptr → Option V) (state : State Address Ptr Profile σ) :
    Spares contents state state where
  live := fun _ alive => alive
  objects := fun _ _ => rfl
  session := ⟨rfl, rfl, rfl, fun _ _ entry => Or.inl entry⟩
  locals := rfl
  temporaries := ⟨[], rfl, fun _ absent => by cases absent⟩
  contents := fun _ _ held => held

theorem session_kept_trans {first second third : Session Address}
    (one : SessionKept first second) (two : SessionKept second third) :
    SessionKept first third where
  active := two.active.trans one.active
  operations := two.operations.trans one.operations
  poison := two.poison.trans one.poison
  entries := by
    intro key target entry
    rcases two.entries key target entry with earlier | own
    · exact one.entries key target earlier
    · exact Or.inr own

theorem spares_trans (first : Spares contents before later) (second : Spares contents later last) :
    Spares contents before last where
  live := fun _ alive => second.live (first.live alive)
  objects := by
    intro address alive
    rw [second.objects address (first.live alive), first.objects address alive]
  session := session_kept_trans first.session second.session
  locals := second.locals.trans first.locals
  temporaries := by
    obtain ⟨earlier, listed, earlierNew⟩ := first.temporaries
    obtain ⟨made, all, new⟩ := second.temporaries
    refine ⟨made ++ earlier, ?_, ?_⟩
    · rw [all, listed, List.append_assoc]
    · intro address member alive
      rcases List.mem_append.mp member with recent | old
      · exact new address recent (first.live alive)
      · exact earlierNew address old alive
  contents := preserves_trans first.contents second.contents

theorem spares_world (spares : Spares contents before later) {world : σ}
    (preserves : Preserves contents later.world world) :
    Spares contents before { later with world := world } where
  live := spares.live
  objects := spares.objects
  session := spares.session
  locals := spares.locals
  temporaries := spares.temporaries
  contents := preserves_trans spares.contents preserves

theorem spares_control (spares : Spares contents before later) (control : Nat) :
    Spares contents before { later with nextControl := control } where
  live := spares.live
  objects := spares.objects
  session := spares.session
  locals := spares.locals
  temporaries := spares.temporaries
  contents := spares.contents

theorem spares_hold (spares : Spares contents before later) (new : address ∉ before.live) :
    Spares contents before (held address later) where
  live := spares.live
  objects := spares.objects
  session := spares.session
  locals := spares.locals
  temporaries := by
    obtain ⟨made, listed, fresh⟩ := spares.temporaries
    refine ⟨address :: made, ?_, ?_⟩
    · rw [held, listed, List.cons_append]
    · intro other member
      rcases List.mem_cons.mp member with rfl | old
      · exact new
      · exact fresh other old
  contents := spares.contents

variable [DecidableEq Address] {host : Host Address Ptr Profile σ}

theorem spares_object (spares : Spares contents before later) (new : address ∉ before.live)
    (update : Object Ptr Profile → Object Ptr Profile) :
    Spares contents before (later.onObject address update) where
  live := spares.live
  objects := by
    intro other alive
    have different : other ≠ address := fun same => new (same ▸ alive)
    rw [← spares.objects other alive]
    exact Function.update_of_ne different _ _
  session := spares.session
  locals := spares.locals
  temporaries := spares.temporaries
  contents := spares.contents

theorem spares_construct (spares : Spares contents before later)
    (new : address ∉ before.live) (object : Object Ptr Profile) :
    Spares contents before (later.construct address object) where
  live := fun _ alive => Finset.mem_insert_of_mem (spares.live alive)
  objects := by
    intro other alive
    have different : other ≠ address := fun same => new (same ▸ alive)
    rw [← spares.objects other alive]
    exact Function.update_of_ne different _ _
  session := spares.session
  locals := spares.locals
  temporaries := spares.temporaries
  contents := spares.contents

theorem destroy_inactive {state : State Address Ptr Profile σ}
    (inactive : state.session.active = false) (address : Address) :
    state.destroy address = { state with live := state.live.erase address } := by
  rw [State.destroy, inactive]
  rfl

theorem spares_destroy (inactive : later.session.active = false)
    (spares : Spares contents before later) (new : address ∉ before.live) :
    Spares contents before (later.destroy address) := by
  rw [destroy_inactive inactive]
  constructor
  · intro other alive
    exact Finset.mem_erase.mpr ⟨fun same => new (same ▸ alive), spares.live alive⟩
  · exact spares.objects
  · exact spares.session
  · exact spares.locals
  · exact spares.temporaries
  · exact spares.contents

theorem save_kept (session : Session Address) (key : Address) :
    SessionKept session (session.saveEntity key key) := by
  unfold Session.saveEntity
  split_ifs with known
  · exact ⟨rfl, rfl, rfl, fun _ _ entry => Or.inl entry⟩
  · refine ⟨rfl, rfl, rfl, ?_⟩
    intro other target entry
    by_cases same : other = key
    · rw [same] at entry ⊢
      simp only [Session.setEntity, Function.update_self, Option.some.injEq] at entry
      exact Or.inr entry.symm
    · simp only [Session.setEntity, Function.update_of_ne same] at entry
      exact Or.inl entry

theorem spares_save (spares : Spares contents before later) (key : Address) :
    Spares contents before (later.save key) where
  live := spares.live
  objects := spares.objects
  session := session_kept_trans spares.session (save_kept later.session key)
  locals := spares.locals
  temporaries := spares.temporaries
  contents := spares.contents

omit [DecidableEq Address] in
theorem next_new (host : Host Address Ptr Profile σ) (spares : Spares contents before later) :
    later.nextAddress host ∉ before.live :=
  fun alive => next_unused host later (spares.live alive)

theorem copy_outside {state : State Address Ptr Profile σ}
    (inactive : state.session.active = false) (other : Address) :
    copyConstruct host other state = (.ok (state.nextAddress host),
      state.construct (state.nextAddress host)
        { state.objects other with isScalar := false, shared := false }) := by
  simp only [copyConstruct, bind_look_apply, inactive, Bool.false_eq_true, if_false]
  rfl

variable [Add V] [Mul V] {model : DeviceModel Ptr σ V κ} {hooks : FhnMovementHooks Ptr σ}
  {compute : Arithmetic → Object Ptr Profile → Object Ptr Profile → Computation σ String Ptr}
  {state : State Address Ptr Profile σ} {this other : Address}

omit [DecidableEq Address] [Add V] [Mul V] in
theorem owner_supplies (memory : OneMemory model hooks) {backend : Nat} {world : σ}
    {entity : Fhenon Ptr} {buffer : Ptr} {control : Nat} {value : V}
    (flag : entity.isEncrypted = true)
    (stored : entity.ciphertext =
      some { buffer := { raw := some buffer, control := control }, owner := backend })
    (holds : model.contents world buffer = some value) :
    Supplies model hooks backend world entity value := by
  obtain ⟨cell, live, same⟩ := Option.map_eq_some_iff.mp holds
  exact ⟨_, buffer, cell, ⟨flag, stored, rfl, rfl⟩, rfl, live, same,
    fun absent => memory absent world buffer cell live⟩

/-- An operator makes a new object with the result. -/
structure Computed (model : DeviceModel Ptr σ V κ) (hooks : FhnMovementHooks Ptr σ)
    (backend : Nat) (before : State Address Ptr Profile σ) (value : V) (made : Address)
    (after : State Address Ptr Profile σ) : Prop where
  spares : Spares model.contents before after
  fresh : made ∉ before.live
  alive : made ∈ after.live
  supplies : Supplies model hooks backend after.world (after.objects made).toFhenon value

omit [DecidableEq Address] [Add V] [Mul V] in
theorem delegate_meets (state : State Address Ptr Profile σ) {run : Computation σ String Ptr}
    {value : V}
    (keeps : Preserves model.contents state.world (run state.world).2)
    (filled : ∀ buffer after, run state.world = (.ok buffer, after) →
      model.contents after buffer = some value) :
    Ends (delegate run : Recorder Address Ptr Profile σ Ptr)
      (fun buffer reached => reached = { state with world := reached.world } ∧
        Spares model.contents state reached ∧ model.contents reached.world buffer = some value)
      (fun _ reached => Spares model.contents state reached) state := by
  rcases outcome : run state.world with ⟨message | buffer, after⟩
  · have ran : (delegate run : Recorder Address Ptr Profile σ Ptr) state =
        (.error (.thrown message), { state with world := after }) := by
      simp only [delegate, outcome]
    rw [outcome] at keeps
    exact ends_of_failed ran (spares_world (spares_refl _ state) keeps)
  · have ran : (delegate run : Recorder Address Ptr Profile σ Ptr) state =
        (.ok buffer, { state with world := after }) := by
      simp only [delegate, outcome]
    rw [outcome] at keeps
    exact ends_of_eq ran ⟨rfl, spares_world (spares_refl _ state) keeps, filled buffer after outcome⟩

omit [Add V] [Mul V] in
theorem copy_out_meets (spares : Spares model.contents before state)
    (inactive : state.session.active = false) {result : Address} (shared : result ∈ state.live)
    (own : result ∉ before.live) {value : V}
    (supplies : Supplies model hooks host.backend state.world (state.objects result).toFhenon
      value) {fails : Failure → State Address Ptr Profile σ → Prop} :
    Ends (ensuring (copyConstruct host result) (State.destroy result))
      (Computed model hooks host.backend before value) fails state := by
  have copied := spares_construct spares (next_new host spares)
    { state.objects result with isScalar := false, shared := false }
  have apart : state.nextAddress host ≠ result := by
    intro same
    rw [← same] at shared
    exact next_unused host state shared
  rw [ends_ensuring]
  refine ends_of_eq (copy_outside inactive result) ?_
  constructor
  · exact spares_destroy inactive copied own
  · exact next_new host spares
  · rw [destroy_inactive (by exact inactive)]
    exact Finset.mem_erase.mpr ⟨apart, Finset.mem_insert_self _ _⟩
  · rw [destroy_inactive (by exact inactive)]
    have copy : (state.construct (state.nextAddress host)
        { state.objects result with isScalar := false, shared := false }).objects
          (state.nextAddress host) =
        { state.objects result with isScalar := false, shared := false } := construct_self _ _
    obtain ⟨ciphertext, buffer, cell, encrypted, rest⟩ := supplies
    refine ⟨ciphertext, buffer, cell, ?_, rest⟩
    simp only [copy]
    exact ⟨encrypted.flag, encrypted.stored, encrypted.owner, encrypted.buffer⟩

theorem combine_eagerly_meets (law : ComputeLaw model hooks host.backend compute)
    (memory : OneMemory model hooks) (inactive : state.session.active = false)
    (operator : Arithmetic) {first second : V}
    (left : Supplies model hooks host.backend state.world (state.objects this).toFhenon first)
    (right : Supplies model hooks host.backend state.world (state.objects other).toFhenon
      second) :
    Ends (combineEagerly host compute operator this other)
      (Computed model hooks host.backend state (apply operator first second))
      (fun _ reached => Spares model.contents state reached) state := by
  have delegated := delegate_meets state (law.keeps operator (state.objects this)
    (state.objects other) state.world) fun buffer after ran =>
      law.filled operator _ _ _ first second buffer after left right ran
  rw [combineEagerly, ends_bind]
  refine ends_of_eq rfl ?_
  rw [ends_bind]
  refine ends_mono delegated ?_ fun _ _ spares => spares
  rintro buffer reached ⟨same, spares, holds⟩
  have still : reached.session.active = false := by
    rw [same]
    exact inactive
  rw [ends_bind]
  refine ends_of_eq rfl ?_
  rw [ends_bind]
  refine ends_of_eq rfl ?_
  rw [ends_bind]
  refine ends_of_eq rfl ?_
  apply copy_out_meets
  · exact spares_control (spares_construct spares (next_new host spares) _) _
  · exact still
  · exact Finset.mem_insert_self _ _
  · exact next_new host spares
  · have made : (reached.construct (reached.nextAddress host)
        { resultOf host.backend (state.objects this) buffer reached.nextControl with
          shared := true }).objects (reached.nextAddress host) =
        { resultOf host.backend (state.objects this) buffer reached.nextControl with
          shared := true } := construct_self _ _
    have flag := congrArg (·.isEncrypted) made
    have stored := congrArg (·.ciphertext) made
    exact owner_supplies memory flag stored holds

variable [IntCast V]

def transformed (host : Host Address Ptr Profile σ) (entity : Address) (buffer : Ptr) (world : σ)
    (state : State Address Ptr Profile σ) : State Address Ptr Profile σ :=
  { state.onObject entity (encrypted host state buffer) with
    nextControl := state.nextControl + 1
    world := world }

omit [Add V] [Mul V] [IntCast V] in
theorem spares_transformed (spares : Spares contents before later) (new : address ∉ before.live)
    (buffer : Ptr) {world : σ} (preserves : Preserves contents later.world world) :
    Spares contents before (transformed host address buffer world later) :=
  spares_control (spares_world (spares_object spares new _) preserves) _

omit [Add V] [Mul V] [IntCast V] in
theorem transformed_supplies (memory : OneMemory model hooks) (entity : Address) {buffer : Ptr}
    {world : σ} {value : V} (holds : model.contents world buffer = some value) :
    Supplies model hooks host.backend world
      ((transformed host entity buffer world state).objects entity).toFhenon value := by
  have object : (transformed host entity buffer world state).objects entity =
      encrypted host state buffer (state.objects entity) := on_object_self entity _
  rw [object]
  exact owner_supplies memory rfl rfl holds

omit [Add V] [Mul V] in
theorem transform_ends (state : State Address Ptr Profile σ)
    (law : EncryptLaw model hooks host) (profile : Profile) (entity : Address) :
    Ends (transform host profile entity)
      (fun _ reached => ∃ buffer world, reached = transformed host entity buffer world state ∧
        Preserves model.contents state.world world ∧
        model.contents world buffer = some (((state.objects entity).val : Int) : V))
      (fun _ reached => ∃ world, reached = { state with world := world } ∧
        Preserves model.contents state.world world) state := by
  have keeps := keeps_cells_preserves (law.keeps profile (state.objects entity).val state.world)
  rcases outcome : host.encrypt profile (state.objects entity).val state.world with
    ⟨message | buffer, after⟩
  · have ran : transform host profile entity state =
        (.error (.thrown message), { state with world := after }) := by
      simp only [transform, outcome]
    rw [outcome] at keeps
    exact ends_of_failed ran ⟨after, rfl, keeps⟩
  · have ran : transform host profile entity state =
        (.ok (), transformed host entity buffer after state) := by
      simp only [transform, outcome]
      rfl
    rw [outcome] at keeps
    obtain ⟨cell, live, contents, -⟩ := law.filled profile _ state.world buffer after outcome
    refine ends_of_eq ran ⟨buffer, after, rfl, keeps, ?_⟩
    rw [DeviceModel.contents, live, Option.map_some, contents]

omit [Add V] [Mul V] in
theorem belong_meets (law : EncryptLaw model hooks host) (memory : OneMemory model hooks)
    (spares : Spares model.contents before state) {entity : Address}
    (own : entity ∉ before.live) (profile : Option Profile) :
    Ends (belong host entity profile)
      (fun _ reached => Spares model.contents before reached ∧
        reached.session.active = state.session.active ∧ reached.live = state.live ∧
        (∃ ciphertext, reached.objects entity =
          { state.objects entity with
            profile := profile, ciphertext := some ciphertext, isEncrypted := true }) ∧
        Supplies model hooks host.backend reached.world (reached.objects entity).toFhenon
          (((state.objects entity).val : Int) : V))
      (fun _ reached => Spares model.contents before reached ∧
        reached.session.active = state.session.active) state := by
  have profiled := spares_object spares own fun object => { object with profile := profile }
  have val : ((state.onObject entity fun object =>
      { object with profile := profile }).objects entity).val = (state.objects entity).val := by
    rw [on_object_self]
  unfold belong
  rw [ends_bind]
  refine ends_of_eq rfl ?_
  cases profile with
  | none => exact ends_of_failed rfl ⟨profiled, rfl⟩
  | some profile =>
      rw [ends_bind]
      refine ends_mono (transform_ends _ law profile entity) ?_ ?_
      · rintro _ reached ⟨buffer, world, rfl, preserves, holds⟩
        rw [val] at holds
        have object : (transformed host entity buffer world (state.onObject entity fun object =>
            { object with profile := some profile })).objects entity =
              encrypted host state buffer
                { state.objects entity with profile := some profile } :=
          (on_object_self entity _).trans (congrArg _ (on_object_self entity _))
        refine ends_of_eq rfl ⟨?_, (save_kept _ entity).active, rfl, ⟨_, object⟩, ?_⟩
        · exact spares_save (spares_transformed profiled own buffer preserves) entity
        · exact transformed_supplies memory entity holds
      · rintro _ reached ⟨world, rfl, preserves⟩
        exact ⟨spares_world profiled preserves, rfl⟩

theorem combine_scalar_eagerly_meets (law : ComputeLaw model hooks host.backend compute)
    (encryptLaw : EncryptLaw model hooks host) (memory : OneMemory model hooks)
    (inactive : state.session.active = false) (operator : Arithmetic) (scalar : Int) {first : V}
    (alive : this ∈ state.live)
    (left : Supplies model hooks host.backend state.world (state.objects this).toFhenon first) :
    Ends (combineScalarEagerly host compute operator this scalar)
      (Computed model hooks host.backend state (apply operator first (scalar : V)))
      (fun _ reached => Spares model.contents state reached) state := by
  have own : state.nextAddress host ∉ state.live := next_unused host state
  rw [combineScalarEagerly, ends_bind]
  refine ends_of_eq rfl ?_
  rw [ends_bind]
  refine ends_of_eq rfl ?_
  have literal := spares_construct (spares_refl model.contents state) own
    { val := scalar, isScalar := true, shared := true }
  rw [ends_ensuring, ends_bind]
  refine ends_mono (belong_meets encryptLaw memory literal own _) ?_ ?_
  · rintro _ reached ⟨spares, still, live, -, right⟩
    have idle : reached.session.active = false := still.trans inactive
    have value : ((state.construct (state.nextAddress host)
        { val := scalar, isScalar := true, shared := true }).objects
          (state.nextAddress host)).val = scalar := by rw [construct_self]
    rw [value] at right
    have kept : Supplies model hooks host.backend reached.world
        (reached.objects this).toFhenon first := by
      rw [spares.objects this alive]
      exact supplies_preserved memory spares.contents left
    refine ends_mono (combine_eagerly_meets law memory idle operator kept right) ?_ ?_
    · intro made last computed
      have all := spares_trans spares computed.spares
      have ended : last.session.active = false := computed.spares.session.active.trans idle
      have present : state.nextAddress host ∈ reached.live := by
        rw [live]
        exact Finset.mem_insert_self _ _
      have apart : made ≠ state.nextAddress host := by
        intro same
        rw [← same] at present
        exact computed.fresh present
      refine ⟨spares_destroy ended all own, fun before => computed.fresh (spares.live before),
        ?_, ?_⟩
      · rw [destroy_inactive ended]
        exact Finset.mem_erase.mpr ⟨apart, computed.alive⟩
      · rw [destroy_inactive ended]
        exact computed.supplies
    · intro _ last later
      have ended : last.session.active = false := later.session.active.trans idle
      exact spares_destroy ended (spares_trans spares later) own
  · rintro _ reached ⟨spares, still⟩
    exact spares_destroy (still.trans inactive) spares own

/-- Outside of sessions there are no locals, and the caller's variables hold `values`. -/
structure Idle (model : DeviceModel Ptr σ V κ) (hooks : FhnMovementHooks Ptr σ) (backend : Nat)
    (outer : Address → Prop) (values : Address → V) (state : State Address Ptr Profile σ) :
    Prop where
  inactive : state.session.active = false
  noLocals : state.locals = []
  alive : ∀ address, outer address → address ∈ state.live
  buffers : ∀ address, outer address →
    Supplies model hooks backend state.world (state.objects address).toFhenon (values address)

variable {outer : Address → Prop} {values : Address → V}

omit [DecidableEq Address] [Add V] [Mul V] [IntCast V] in
theorem idle_spared {backend : Nat} (memory : OneMemory model hooks)
    (idle : Idle model hooks backend outer values before)
    (spares : Spares model.contents before later) :
    Idle model hooks backend outer values later where
  inactive := spares.session.active.trans idle.inactive
  noLocals := spares.locals.trans idle.noLocals
  alive := fun address caller => spares.live (idle.alive address caller)
  buffers := by
    intro address caller
    rw [spares.objects address (idle.alive address caller)]
    exact supplies_preserved memory spares.contents (idle.buffers address caller)

theorem evaluate_outside_meets (law : ComputeLaw model hooks host.backend compute)
    (encryptLaw : EncryptLaw model hooks host) (memory : OneMemory model hooks)
    (value : Expr Address) (reads : Reads outer value)
    (idle : Idle model hooks host.backend outer values state) :
    Ends (evaluateOutside host compute value)
      (fun made reached => Spares model.contents state reached ∧ made ∈ reached.live ∧
        ∃ computed, valueOf ({ outer := values } : Environment Address V) value = some computed ∧
          Supplies model hooks host.backend reached.world (reached.objects made).toFhenon computed)
      (fun _ reached => Spares model.contents state reached) state := by
  induction value generalizing state with
  | read name =>
      cases name with
      | outer caller =>
          exact ends_of_eq rfl ⟨spares_refl _ state, idle.alive caller reads, values caller, rfl,
            idle.buffers caller reads⟩
      | inner index =>
          have missing : locate (.inner index) state = (.error .undeclared, state) := by
            simp only [locate, idle.noLocals, List.getElem?_nil]
          exact ends_of_failed missing (spares_refl _ state)
  | combine operator lhs rhs left right =>
      rw [evaluateOutside, ends_bind]
      refine ends_mono (left reads.1 idle) ?_ fun _ _ spares => spares
      rintro this middle ⟨spares, alive, first, one, supplied⟩
      rw [ends_bind]
      refine ends_mono (right reads.2 (idle_spared memory idle spares)) ?_
        fun _ _ later => spares_trans spares later
      rintro other reached ⟨later, present, second, two, given⟩
      have kept : Supplies model hooks host.backend reached.world
          (reached.objects this).toFhenon first := by
        rw [later.objects this alive]
        exact supplies_preserved memory later.contents supplied
      have both := spares_trans spares later
      rw [ends_bind]
      refine ends_mono (combine_eagerly_meets law memory (idle_spared memory idle both).inactive
        operator kept given) ?_ fun _ _ last => spares_trans both last
      intro made last computed
      have all := spares_trans both computed.spares
      refine ends_of_eq (hold_temporary_eq made) ⟨spares_hold all ?_, computed.alive, _, ?_,
        computed.supplies⟩
      · exact fun before => computed.fresh (both.live before)
      · simp only [valueOf, one, two]
        rfl
  | combineScalar operator lhs scalar left =>
      rw [evaluateOutside, ends_bind]
      refine ends_mono (left reads idle) ?_ fun _ _ spares => spares
      rintro this middle ⟨spares, alive, first, one, supplied⟩
      rw [ends_bind]
      refine ends_mono (combine_scalar_eagerly_meets law encryptLaw memory
        (idle_spared memory idle spares).inactive operator scalar alive supplied) ?_
        fun _ _ last => spares_trans spares last
      intro made last computed
      have all := spares_trans spares computed.spares
      refine ends_of_eq (hold_temporary_eq made) ⟨spares_hold all ?_, computed.alive, _, ?_,
        computed.supplies⟩
      · exact fun before => computed.fresh (spares.live before)
      · simp only [valueOf, one]
        rfl

/-- A variable of the caller, ready for the next step with `value`. -/
structure Kept (model : DeviceModel Ptr σ V κ) (hooks : FhnMovementHooks Ptr σ) (backend : Nat)
    (world : σ) (object : Object Ptr Profile) (value : V) : Prop where
  single : object.shared = false
  plain : object.isScalar = false
  profiled : object.profile.isSome
  supplies : Supplies model hooks backend world object.toFhenon value

omit [DecidableEq Address] [Add V] [Mul V] [IntCast V] in
theorem standing_kept {backend : Nat} (standing : Standing model hooks backend outer values state)
    (caller : outer address) :
    Kept model hooks backend state.world (state.objects address) (values address) where
  single := (standing.ready.outerAlive address caller).2
  plain := standing.supplied.plain address caller
  profiled := standing.profiled address caller
  supplies := standing.supplied.buffers address caller

omit [DecidableEq Address] [Add V] [Mul V] [IntCast V] in
theorem kept_preserved {backend : Nat} (memory : OneMemory model hooks) {world after : σ}
    {object : Object Ptr Profile} {value : V}
    (kept : Kept model hooks backend world object value)
    (preserves : Preserves model.contents world after) :
    Kept model hooks backend after object value :=
  ⟨kept.single, kept.plain, kept.profiled, supplies_preserved memory preserves kept.supplies⟩

omit [DecidableEq Address] [Add V] [Mul V] [IntCast V] in
theorem kept_standing {backend : Nat} {wider : Address → Prop} {now : Address → V}
    (standing : Standing model hooks backend outer values before)
    (session : SessionKept before.session later.session)
    (alive : ∀ address, wider address → address ∈ later.live)
    (locals : later.locals = before.locals) (temporaries : later.temporaries = [])
    (kept : ∀ address, wider address →
      Kept model hooks backend later.world (later.objects address) (now address)) :
    Standing model hooks backend wider now later where
  ready :=
    { noOperations := session.operations.trans standing.ready.noOperations
      unpoisoned := session.poison.trans standing.ready.unpoisoned
      ownEntries := by
        intro key target entry
        rcases session.entries key target entry with earlier | own
        · exact standing.ready.ownEntries key target earlier
        · exact own
      outerAlive := fun address caller => ⟨alive address caller, (kept address caller).single⟩
      noLocals := locals.trans standing.ready.noLocals
      noTemporaries := temporaries }
  inactive := session.active.trans standing.inactive
  supplied := ⟨fun address caller => (kept address caller).supplies,
    fun address caller => (kept address caller).plain⟩
  profiled := fun address caller => (kept address caller).profiled

omit [Add V] [Mul V] [IntCast V] in
/-- Objects that die while no session records take nothing with them. -/
theorem destroyed_outside (addresses : List Address) (inactive : state.session.active = false) :
    ∃ live, addresses.foldl (fun reached address => reached.destroy address) state =
        { state with live := live } ∧
      ∀ address ∈ state.live, address ∉ addresses → address ∈ live := by
  induction addresses generalizing state with
  | nil => exact ⟨state.live, rfl, fun _ alive _ => alive⟩
  | cons address rest induction =>
      rw [List.foldl_cons, destroy_inactive inactive]
      have still : ({ state with live := state.live.erase address } :
          State Address Ptr Profile σ).session.active = false := inactive
      obtain ⟨live, reached, kept⟩ := induction still
      refine ⟨live, reached, ?_⟩
      intro other alive unlisted
      rw [List.mem_cons, not_or] at unlisted
      exact kept other (Finset.mem_erase.mpr ⟨unlisted.1, alive⟩) unlisted.2

omit [Add V] [Mul V] [IntCast V] in
/-- After a full expression the caller's variables stand with what its objects hold. -/
theorem expression_ends {backend : Nat} {now : Address → V}
    (standing : Standing model hooks backend outer values before)
    (spares : Spares contents before later) {update : Object Ptr Profile → Object Ptr Profile}
    {target : Address}
    (kept : ∀ address, outer address → Kept model hooks backend later.world
      ((later.onObject target update).objects address) (now address)) :
    Standing model hooks backend outer now
      (later.onObject target update).destroyTemporaries := by
  have inactive : (later.onObject target update).session.active = false :=
    spares.session.active.trans standing.inactive
  obtain ⟨live, reached, others⟩ := destroyed_outside
    (later.onObject target update).temporaries inactive
  obtain ⟨made, listed, new⟩ := spares.temporaries
  rw [standing.ready.noTemporaries, List.append_nil] at listed
  have ended : (later.onObject target update).destroyTemporaries =
      { later.onObject target update with live := live, temporaries := [] } := by
    rw [State.destroyTemporaries, reached]
  rw [ended]
  apply kept_standing standing
  · exact spares.session
  · intro address caller
    have alive := (standing.ready.outerAlive address caller).1
    refine others address (spares.live alive) fun member => ?_
    have temporary : address ∈ made := listed ▸ member
    exact new address temporary alive
  · exact spares.locals
  · rfl
  · exact kept

omit [DecidableEq Address] [Add V] [Mul V] [IntCast V] in
theorem standing_idle {backend : Nat} (standing : Standing model hooks backend outer values state) :
    Idle model hooks backend outer values state where
  inactive := standing.inactive
  noLocals := standing.ready.noLocals
  alive := fun address caller => (standing.ready.outerAlive address caller).1
  buffers := standing.supplied.buffers

def statementOf : Outside Address → Statement Address
  | .assign target value => .assign (.outer target) value
  | .assignScalar target scalar => .assignScalar (.outer target) scalar

def withPlain (target : Address) (scalar : Int) (state : State Address Ptr Profile σ) :
    State Address Ptr Profile σ :=
  state.onObject target fun object => { object with val := scalar }

omit [Add V] [Mul V] [IntCast V] in
theorem with_plain_kept {backend : Nat} {world : σ} (target : Address) (scalar : Int) {value : V}
    (kept : Kept model hooks backend world (state.objects address) value) :
    Kept model hooks backend world ((withPlain target scalar state).objects address) value := by
  by_cases same : address = target
  · rw [same] at kept ⊢
    rw [withPlain, on_object_self]
    obtain ⟨single, plain, profiled, ciphertext, buffer, cell, crypted, rest⟩ := kept
    exact ⟨single, plain, profiled, ciphertext, buffer, cell,
      ⟨crypted.flag, crypted.stored, crypted.owner, crypted.buffer⟩, rest⟩
  · rw [withPlain, on_object_other same]
    exact kept

omit [Add V] [Mul V] [IntCast V] in
theorem transformed_kept {backend : Nat} (memory : OneMemory model hooks) {buffer : Ptr}
    {world : σ} {value now : V} (owner : host.backend = backend)
    (kept : Kept model hooks backend world (state.objects address) value)
    (holds : model.contents world buffer = some now) :
    Kept model hooks backend world
      ((transformed host address buffer world state).objects address) now := by
  subst owner
  have object : (transformed host address buffer world state).objects address =
      encrypted host state buffer (state.objects address) := on_object_self address _
  have supplies : Supplies model hooks host.backend world
      ((transformed host address buffer world state).objects address).toFhenon now :=
    transformed_supplies memory address holds
  rw [object] at supplies ⊢
  exact ⟨kept.single, kept.plain, kept.profiled, supplies⟩

theorem assign_outside_meets (law : ComputeLaw model hooks host.backend compute)
    (encryptLaw : EncryptLaw model hooks host) (memory : OneMemory model hooks)
    (standing : Standing model hooks host.backend outer values state) (target : Address)
    (value : Expr Address) (reads : Reads outer value) :
    Ends (performOutside host compute (.assign target value))
      (fun _ reached => ∃ now, executeStatement { outer := values }
          (statementOf (.assign target value)) = some ({ outer := now } : Environment Address V) ∧
        Standing model hooks host.backend outer now reached)
      (fun _ reached => Standing model hooks host.backend outer values reached) state := by
  have others {later : State Address Ptr Profile σ} (spares : Spares model.contents state later)
      (address : Address) (caller : outer address) :
      Kept model hooks host.backend later.world (later.objects address) (values address) := by
    rw [spares.objects address (standing.ready.outerAlive address caller).1]
    exact kept_preserved memory (standing_kept standing caller) spares.contents
  rw [performOutside, ends_ensuring, ends_bind]
  refine ends_mono (evaluate_outside_meets law encryptLaw memory value reads
    (standing_idle standing)) ?_ ?_
  · rintro made reached ⟨spares, alive, computed, means, supplies⟩
    refine ends_of_eq rfl ⟨Function.update values target computed, ?_, ?_⟩
    · simp only [statementOf, executeStatement, means, Option.bind_some, Environment.assign,
        get_outer, Option.isSome_some, if_true, Environment.set]
    · refine expression_ends standing spares ?_
      intro address caller
      have before := others spares address caller
      by_cases same : address = target
      · subst same
        rw [on_object_self, Function.update_self]
        obtain ⟨ciphertext, buffer, cell, encrypted, rest⟩ := supplies
        refine ⟨before.single, before.plain, ?_, ciphertext, buffer, cell,
          ⟨encrypted.flag, encrypted.stored, encrypted.owner, encrypted.buffer⟩, rest⟩
        dsimp only
        split_ifs with given
        · exact given
        · exact before.profiled
      · rw [on_object_other same, Function.update_of_ne same]
        exact before
  · intro _ reached spares
    have unchanged : reached.onObject target id = reached := by
      simp only [State.onObject, id, Function.update_eq_self]
    rw [← unchanged]
    refine expression_ends standing spares ?_
    rw [unchanged]
    exact others spares

theorem assign_scalar_outside_meets (encryptLaw : EncryptLaw model hooks host)
    (memory : OneMemory model hooks)
    (standing : Standing model hooks host.backend outer values state) (target : Address)
    (scalar : Int) (caller : outer target) :
    Ends (performOutside host compute (.assignScalar target scalar))
      (fun _ reached => ∃ now, executeStatement { outer := values }
          (statementOf (.assignScalar target scalar)) =
            some ({ outer := now } : Environment Address V) ∧
        Standing model hooks host.backend outer now reached)
      (fun _ reached => Standing model hooks host.backend outer values reached) state := by
  obtain ⟨profile, profiled⟩ := Option.isSome_iff_exists.mp (standing.profiled target caller)
  obtain ⟨ciphertext, _, _, crypted, -⟩ := standing.supplied.buffers target caller
  have named : (withPlain target scalar state).objects target =
      { state.objects target with val := scalar } := on_object_self target _
  have flag : ((withPlain target scalar state).objects target).isEncrypted = true := by
    rw [named]
    exact crypted.flag
  have given : ((withPlain target scalar state).objects target).profile = some profile := by
    rw [named]
    exact profiled
  have inside : performOutside host compute (.assignScalar target scalar) state =
      transform host profile target (withPlain target scalar state) := by
    simp only [performOutside, assignScalarOutside, bind_change_apply, bind_look_apply]
    rw [withPlain] at flag given
    rw [if_pos flag, given]
    rfl
  have kept {world : σ} (preserves : Preserves model.contents state.world world)
      (address : Address) (member : outer address) :
      Kept model hooks host.backend world ((withPlain target scalar state).objects address)
        (values address) :=
    with_plain_kept target scalar
      (kept_preserved memory (standing_kept standing member) preserves)
  have session : SessionKept state.session state.session :=
    ⟨rfl, rfl, rfl, fun _ _ entry => Or.inl entry⟩
  have alive (address : Address) (member : outer address) : address ∈ state.live :=
    (standing.ready.outerAlive address member).1
  have ends := transform_ends (withPlain target scalar state) encryptLaw profile target
  rw [Ends, inside]
  refine ends_mono ends ?_ ?_
  · rintro _ reached ⟨buffer, world, rfl, preserves, holds⟩
    rw [named] at holds
    refine ⟨Function.update values target (scalar : V), ?_, ?_⟩
    · simp only [statementOf, executeStatement, Environment.assign, get_outer,
        Option.isSome_some, if_true, Environment.set]
    · refine kept_standing standing session alive rfl standing.ready.noTemporaries ?_
      intro address member
      by_cases same : address = target
      · subst same
        rw [Function.update_self]
        exact transformed_kept memory rfl (kept preserves address member) holds
      · have object : (transformed host target buffer world
            (withPlain target scalar state)).objects address =
              (withPlain target scalar state).objects address := on_object_other same _
        rw [object, Function.update_of_ne same]
        exact kept preserves address member
  · rintro _ reached ⟨world, rfl, preserves⟩
    exact kept_standing standing session alive rfl standing.ready.noTemporaries
      (kept preserves)

/-- An assignment outside of sessions gives its target its value; one that throws leaves all
variables with theirs. -/
theorem perform_outside_meets (law : ComputeLaw model hooks host.backend compute)
    (encryptLaw : EncryptLaw model hooks host) (memory : OneMemory model hooks)
    (standing : Standing model hooks host.backend outer values state)
    (statement : Outside Address) (uses : Uses outer (statementOf statement)) :
    Ends (performOutside host compute statement)
      (fun _ reached => ∃ now, executeStatement { outer := values } (statementOf statement) =
          some ({ outer := now } : Environment Address V) ∧
        Standing model hooks host.backend outer now reached)
      (fun _ reached => Standing model hooks host.backend outer values reached) state := by
  cases statement with
  | assign target value =>
      exact assign_outside_meets law encryptLaw memory standing target value uses.2
  | assignScalar target scalar =>
      exact assign_scalar_outside_meets encryptLaw memory standing target scalar uses

end Fhenomenon.OutsideMeaning
