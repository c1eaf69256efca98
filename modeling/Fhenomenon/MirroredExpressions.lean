import Fhenomenon.BodyMeaning
import Fhenomenon.LiteralRecording
import Fhenomenon.RecordedStore

/-!
# Recorded expressions against eager ones

While a body is recorded, the store behind the recording mirrors the values that
the body has when executed eagerly: every variable that is not stale stands for
an object with its value. Evaluating an expression adds objects and keeps this.
-/

namespace Fhenomenon.MirroredExpressions

open Fhenomenon.Lib.Fallible Fhenomenon.DefaultExecutor Fhenomenon.DeviceAbi
open Fhenomenon.RecordedGraph Fhenomenon.RecordedMeaning Fhenomenon.GraphSimulation
open Fhenomenon.SessionRuntime Fhenomenon.SessionRefinement Fhenomenon.Recording
open Fhenomenon.EntityMap Fhenomenon.RecordingSteps Fhenomenon.SessionBodies
open Fhenomenon.RecordingFrame Fhenomenon.LiteralRecording Fhenomenon.RecordedStore
open Fhenomenon.BodyMeaning

variable {Address Ptr Profile σ V κ : Type} [DecidableEq Address] [Add V] [Mul V] [IntCast V]

/-- `Backend::transform` leaves the live buffers alone; a buffer it returns holds the encrypted
value, on the device when there is no prefetch hook. -/
structure EncryptLaw (model : DeviceModel Ptr σ V κ) (hooks : FhnMovementHooks Ptr σ)
    (host : Host Address Ptr Profile σ) : Prop where
  keeps : ∀ profile value world, KeepsCells model world (host.encrypt profile value world).2
  filled : ∀ profile value world buffer after,
    host.encrypt profile value world = (.ok buffer, after) →
      ∃ cell, model.cell after buffer = some cell ∧ cell.contents = (value : V) ∧
        (hooks.prefetch = none → cell.resident = true)

/-- The object that a name stands for. -/
def Located (outer : Address → Prop) (state : State Address Ptr Profile σ) :
    Variable Address → Address → Prop
  | .outer address, object => outer address ∧ object = address
  | .inner index, object => state.locals[index]? = some object

/-- Recording that gives no old object another value. -/
structure Continues (values : Address → V) (state later : State Address Ptr Profile σ) : Prop where
  extended : Extends state later
  kept : ∀ address ∈ state.live, store values later address = store values state address
  remains : ∀ address ∈ produced state.session.operations,
    address ∈ produced later.session.operations

/-- The recording mirrors the eager execution of the same statements. -/
structure Mirrors (model : DeviceModel Ptr σ V κ) (hooks : FhnMovementHooks Ptr σ)
    (backend : Nat) (outer : Address → Prop) (values : Address → V) (flow : Flow Address)
    (env : Environment Address V) (state : State Address Ptr Profile σ) : Prop where
  ongoing : Ongoing outer state
  grounded : Grounded model hooks backend outer values state
  declared : env.locals.length = state.locals.length
  tracked : flow.origins.length = state.locals.length
  numbered : ∀ origin ∈ flow.origins, origin < flow.origins.length
  owned : ∀ address ∈ produced state.session.operations, (state.objects address).shared = true
  results : ∀ address ∈ state.locals,
    state.session.canonical address ∈ produced state.session.operations
  shared : ∀ name other first second, Located outer state name first →
    Located outer state other second →
      (state.session.canonical first = state.session.canonical second ↔
        flow.shares name other = true)
  agrees : ∀ name address, Located outer state name address → flow.stale name = false →
    env.get name = some (store values state (state.session.canonical address))

variable {model : DeviceModel Ptr σ V κ} {hooks : FhnMovementHooks Ptr σ}
  {host : Host Address Ptr Profile σ} {state later last : State Address Ptr Profile σ}
  {outer : Address → Prop} {values : Address → V} {flow : Flow Address}
  {env : Environment Address V} {this other : Address}

theorem continues_refl (state : State Address Ptr Profile σ) : Continues values state state :=
  ⟨extends_refl state, fun _ _ => rfl, fun _ made => made⟩

theorem continues_trans (first : Continues values state later)
    (second : Continues values later last) : Continues values state last where
  extended := extends_trans first.extended second.extended
  kept := by
    intro address alive
    rw [second.kept address (first.extended.live alive), first.kept address alive]
  remains := fun address made => second.remains address (first.remains address made)

omit [DecidableEq Address] [Add V] [Mul V] [IntCast V] in
theorem located_locals (locals : later.locals = state.locals) {name : Variable Address}
    {address : Address} : Located outer later name address ↔ Located outer state name address := by
  cases name with
  | outer other => exact Iff.rfl
  | inner index => rw [Located, Located, locals]

omit [DecidableEq Address] [Add V] [Mul V] [IntCast V] in
theorem located_unique {name : Variable Address} {first second : Address}
    (one : Located outer state name first) (two : Located outer state name second) :
    first = second := by
  cases name with
  | outer caller => rw [one.2, two.2]
  | inner index => exact Option.some.inj (one.symm.trans two)

omit [DecidableEq Address] [Add V] [Mul V] [IntCast V] in
theorem located_alive (ongoing : Ongoing outer state) {name : Variable Address} {address : Address}
    (located : Located outer state name address) : address ∈ state.live := by
  cases name with
  | outer caller =>
      obtain ⟨callers, same⟩ := located
      rw [same]
      exact (ongoing.outerAlive caller callers).1
  | inner index =>
      have listed := List.mem_of_getElem? located
      exact (ongoing.automatic address (List.mem_append_left _ listed)).alive

theorem mirrors_transfer (mirrors : Mirrors model hooks host.backend outer values flow env state)
    (ongoing : Ongoing outer later)
    (grounded : Grounded model hooks host.backend outer values later)
    (locals : later.locals = state.locals)
    (canonical : ∀ name address, Located outer state name address →
      later.session.canonical address = state.session.canonical address)
    (kept : ∀ name address, Located outer state name address →
      store values later (state.session.canonical address) =
        store values state (state.session.canonical address))
    (remains : ∀ address ∈ produced state.session.operations,
      address ∈ produced later.session.operations)
    (owned : ∀ address ∈ produced later.session.operations,
      (later.objects address).shared = true) :
    Mirrors model hooks host.backend outer values flow env later where
  ongoing := ongoing
  grounded := grounded
  declared := by
    rw [locals]
    exact mirrors.declared
  tracked := by
    rw [locals]
    exact mirrors.tracked
  numbered := mirrors.numbered
  owned := owned
  results := by
    rw [locals]
    intro address listed
    obtain ⟨index, named⟩ := List.mem_iff_getElem?.mp listed
    rw [canonical (.inner index) address named]
    exact remains _ (mirrors.results address listed)
  shared := by
    intro name other first second one two
    rw [located_locals locals] at one two
    rw [canonical name first one, canonical other second two]
    exact mirrors.shared name other first second one two
  agrees := by
    intro name address located fresh
    rw [located_locals locals] at located
    rw [canonical name address located, kept name address located]
    exact mirrors.agrees name address located fresh

theorem mirrors_continues (mirrors : Mirrors model hooks host.backend outer values flow env state)
    (continues : Continues values state later) (ongoing : Ongoing outer later)
    (grounded : Grounded model hooks host.backend outer values later)
    (owned : ∀ address ∈ produced later.session.operations,
      (later.objects address).shared = true) :
    Mirrors model hooks host.backend outer values flow env later := by
  apply mirrors_transfer mirrors ongoing grounded continues.extended.locals
  · intro name address located
    exact continues.extended.canonical address (located_alive mirrors.ongoing located)
  · intro name address located
    have alive := located_alive mirrors.ongoing located
    exact continues.kept _ (mirrors.ongoing.active.sound.resolves address alive).alive
  · exact continues.remains
  · exact owned

theorem located_sourced (mirrors : Mirrors model hooks host.backend outer values flow env state)
    {name : Variable Address} {address : Address} (located : Located outer state name address) :
    Sourced outer state (state.session.canonical address) := by
  cases name with
  | outer caller =>
      obtain ⟨callers, same⟩ := located
      rw [same, (mirrors.ongoing.outerAlive caller callers).2.1]
      exact Or.inl callers
  | inner index => exact Or.inr (mirrors.results address (List.mem_of_getElem? located))

section Results

variable (mirrors : Mirrors model hooks host.backend outer values flow env state)
  (operator : Arithmetic) (first : this ∈ state.live) (second : other ∈ state.live)

include mirrors first second

theorem combined_store (address : Address) (alive : address ∈ state.live) :
    store values (combined host operator this other state) address =
      store values state address := by
  have active := mirrors.ongoing.active
  have different : address ≠ state.nextAddress host := ne_next alive
  rw [store_recorded active (combined_extends operator this other)
    (combined_operations operator this other) (active.sound.resolves this first).alive
    (active.sound.resolves other second).alive alive]
  cases operator <;>
    simp only [runOperation, arithmeticOperation, Arithmetic.operationType,
      Function.update_of_ne different]

theorem combined_value_store :
    store values (combined host operator this other state) (state.nextAddress host) =
      apply operator (store values state (state.session.canonical this))
        (store values state (state.session.canonical other)) := by
  have active := mirrors.ongoing.active
  have extended : Extends state (combined host operator this other state) := combined_extends _ _ _
  have one : runOperations state.session.operations
      (startValue values (combined host operator this other state))
        (state.session.canonical this) = store values state (state.session.canonical this) :=
    store_agrees active extended (active.sound.resolves this first).alive
  have two : runOperations state.session.operations
      (startValue values (combined host operator this other state))
        (state.session.canonical other) = store values state (state.session.canonical other) :=
    store_agrees active extended (active.sound.resolves other second).alive
  rw [store, combined_operations, run_operations_append]
  cases operator <;>
    simp only [runOperation, arithmeticOperation, Arithmetic.operationType, Function.update_self,
      one, two, apply]

theorem combined_continues :
    Continues values state (combined host operator this other state) where
  extended := combined_extends operator this other
  kept := combined_store mirrors operator first second
  remains := by
    intro address made
    rw [combined_operations, produced_append]
    exact List.mem_append_left _ made

theorem combined_mirrors
    (left : Sourced outer state (state.session.canonical this))
    (right : Sourced outer state (state.session.canonical other) ∨
      Supplies model hooks host.backend state.world
        (state.objects (state.session.canonical other)).toFhenon
        (startValue values state (state.session.canonical other))) :
    Mirrors model hooks host.backend outer values flow env
      (combined host operator this other state) := by
  have active := mirrors.ongoing.active
  apply mirrors_continues mirrors (combined_continues mirrors operator first second)
    (combined_within mirrors.ongoing operator first second).ongoing
  · apply grounded_recorded mirrors.grounded mirrors.ongoing (combined_extends operator this other)
      (fun _ _ live => live) (combined_operations operator this other)
    · right
      cases operator
      · exact ⟨Or.inl rfl, rfl⟩
      · exact ⟨Or.inr rfl, rfl⟩
    · exact (active.sound.resolves this first).alive
    · exact (active.sound.resolves other second).alive
    · exact left
    · exact right
    · intro address named
      have same : state.nextAddress host = address := Option.some.inj named
      rw [← same, combined_result]
      exact ⟨next_unused host state, rfl⟩
  · intro address made
    rw [combined_operations, produced_append, List.mem_append] at made
    rcases made with before | new
    · have alive := produced_alive active before
      rw [(combined_extends operator this other).objects address alive]
      exact mirrors.owned address before
    · have same : address = state.nextAddress host := List.mem_singleton.mp new
      rw [same, combined_result]

end Results

theorem prepared_continues (active : Active state) (extended : Extends state later)
    (operations : later.session.operations = state.session.operations) :
    Continues values state later where
  extended := extended
  kept := fun _ alive => store_extends active extended operations alive
  remains := by
    intro address made
    rw [operations]
    exact made

theorem prepared_mirrors (mirrors : Mirrors model hooks host.backend outer values flow env state)
    (extended : Extends state later) (active : Active later)
    (temporaries : later.temporaries = state.temporaries)
    (operations : later.session.operations = state.session.operations)
    (keeps : KeepsCells model state.world later.world) :
    Mirrors model hooks host.backend outer values flow env later := by
  apply mirrors_continues mirrors (prepared_continues mirrors.ongoing.active extended operations)
    (ongoing_extends mirrors.ongoing extended active temporaries)
    (grounded_extends mirrors.grounded mirrors.ongoing extended operations keeps)
  intro address made
  rw [operations] at made
  rw [extended.objects address (produced_alive mirrors.ongoing.active made)]
  exact mirrors.owned address made

theorem unmentioned_store (active : Active state) {address : Address}
    (operations : later.session.operations = state.session.operations)
    (new : address ∉ state.live) :
    store values later address = startValue values later address := by
  rw [store, operations]
  apply run_operations_other
  intro operation member
  have kept := active.sound.operands operation member
  constructor
  · intro same
    exact new (same ▸ (kept _ (Or.inl rfl)).alive)
  · intro named
    exact new (kept _ (Or.inr (Or.inr named))).alive

omit [DecidableEq Address] [Add V] [Mul V] in
theorem encrypted_supplies (law : EncryptLaw model hooks host) {profile : Profile} {scalar : Int}
    {world after : σ} {buffer : Ptr}
    (made : host.encrypt profile scalar world = (.ok buffer, after)) (object : Object Ptr Profile) :
    Supplies model hooks host.backend after (encrypted host state buffer object).toFhenon
      (scalar : V) := by
  obtain ⟨cell, live, contents, device⟩ := law.filled profile scalar world buffer after made
  exact ⟨_, buffer, cell, ⟨rfl, rfl, rfl, rfl⟩, rfl, live, contents, device⟩

omit [DecidableEq Address] [Add V] [Mul V] in
theorem encrypt_keeps (law : EncryptLaw model hooks host) {profile : Profile} {scalar : Int}
    {world after : σ} {buffer : Ptr}
    (made : host.encrypt profile scalar world = (.ok buffer, after)) :
    KeepsCells model world after := by
  have keeps := law.keeps profile scalar world
  rw [made] at keeps
  exact keeps

def assignReady (host : Host Address Ptr Profile σ) (this : Address) (scalar : Int)
    (profile : Profile) (buffer : Ptr) (world : σ) (state : State Address Ptr Profile σ) :
    State Address Ptr Profile σ :=
  belonging host (state.nextAddress host) profile buffer world
    (withLiteral host { val := scalar } (state.save this))

omit [Add V] [Mul V] [IntCast V] in
theorem assign_ready_extends (this : Address) (scalar : Int) (profile : Profile) (buffer : Ptr)
    (world : σ) : Extends state (assignReady host this scalar profile buffer world state) := by
  have made : Extends (state.save this) (withLiteral host { val := scalar } (state.save this)) :=
    with_literal_extends _
  exact extends_trans (save_extends this)
    (belonging_extends (next_unused host (state.save this)) made profile buffer world)

theorem assign_ready_active (active : Active state) (this : Address) (scalar : Int)
    (profile : Profile) (buffer : Ptr) (world : σ) :
    Active (assignReady host this scalar profile buffer world state) := by
  have made : Active (withLiteral host { val := scalar } (state.save this)) :=
    with_literal_active (save_active active this) _
  exact belonging_active made _ _ _ _

theorem assign_ready_object (this : Address) (scalar : Int) (profile : Profile) (buffer : Ptr)
    (world : σ) :
    (assignReady host this scalar profile buffer world state).objects (state.nextAddress host) =
      encrypted host (state.save this) buffer
        { val := scalar, profile := some profile, shared := true } := by
  have placed : (withLiteral host { val := scalar } (state.save this)).objects
      (state.nextAddress host) = { val := scalar, shared := true } :=
    construct_self (state.nextAddress host) _
  simp only [assignReady, belonging, save_objects, on_object_self, placed]
  rfl

theorem assign_ready_operations (this : Address) (scalar : Int) (profile : Profile) (buffer : Ptr)
    (world : σ) :
    (assignReady host this scalar profile buffer world state).session.operations =
      state.session.operations := by
  simp only [assignReady, belonging, save_operations, withLiteral, State.onObject,
    construct_session]

/-- What evaluating an expression comes to: the object of `address` has its eager value. -/
structure Evaluated (model : DeviceModel Ptr σ V κ) (hooks : FhnMovementHooks Ptr σ)
    (backend : Nat) (outer : Address → Prop) (values : Address → V) (flow : Flow Address)
    (env : Environment Address V) (state : State Address Ptr Profile σ) (value : Expr Address)
    (address : Address) (later : State Address Ptr Profile σ) : Prop where
  within : Within outer state later
  continues : Continues values state later
  mirrors : Mirrors model hooks backend outer values flow env later
  alive : address ∈ later.live
  sourced : Sourced outer later (later.session.canonical address)
  made : (∀ name, value ≠ .read name) → later.session.canonical address ∉ state.live ∧
    later.session.canonical address ∈ produced later.session.operations
  computes : ∃ result, valueOf env value = some result ∧
    (flow.tainted value = false → store values later (later.session.canonical address) = result)

omit [DecidableEq Address] [Add V] [Mul V] [IntCast V] in
theorem locate_returned {name : Variable Address} {address : Address}
    (callers : OfCaller outer name) (ran : locate name state = (.ok address, later)) :
    later = state ∧ Located outer state name address := by
  cases name with
  | outer caller =>
      obtain ⟨same, final⟩ := Prod.mk.inj ran
      exact ⟨final.symm, callers, (Except.ok.inj same).symm⟩
  | inner index =>
      simp only [locate] at ran
      cases found : state.locals[index]? with
      | none =>
          rw [found] at ran
          cases (Prod.mk.inj ran).1
      | some object =>
          rw [found] at ran
          obtain ⟨same, final⟩ := Prod.mk.inj ran
          rw [← Except.ok.inj same]
          exact ⟨final.symm, found⟩

theorem located_value (mirrors : Mirrors model hooks host.backend outer values flow env state)
    {name : Variable Address} {address : Address} (located : Located outer state name address) :
    ∃ result, env.get name = some result ∧ (flow.stale name = false →
      store values state (state.session.canonical address) = result) := by
  have known : ∃ result, env.get name = some result := by
    cases name with
    | outer caller => exact ⟨_, rfl⟩
    | inner index =>
        have bound := (List.getElem?_eq_some_iff.mp located).1
        rw [← mirrors.declared] at bound
        exact ⟨_, List.getElem?_eq_getElem bound⟩
  obtain ⟨result, known⟩ := known
  refine ⟨result, known, ?_⟩
  intro fresh
  have agreed := mirrors.agrees name address located fresh
  rw [known] at agreed
  exact (Option.some.inj agreed).symm

theorem mirrors_held {address : Address}
    (mirrors : Mirrors model hooks host.backend outer values flow env state)
    (ongoing : Ongoing outer (held address state)) :
    Mirrors model hooks host.backend outer values flow env (held address state) :=
  mirrors_transfer mirrors ongoing
    ⟨mirrors.grounded.recorded, mirrors.grounded.supplied, mirrors.grounded.plain⟩ rfl
    (fun _ _ _ => rfl) (fun _ _ _ => rfl) (fun _ made => made) mirrors.owned

theorem combined_evaluated {value : Expr Address} (operator : Arithmetic)
    (mirrors : Mirrors model hooks host.backend outer values flow env later)
    (within : Within outer state later) (continues : Continues values state later)
    (first : this ∈ later.live) (second : other ∈ later.live)
    (left : Sourced outer later (later.session.canonical this))
    (right : Sourced outer later (later.session.canonical other) ∨
      Supplies model hooks host.backend later.world
        (later.objects (later.session.canonical other)).toFhenon
        (startValue values later (later.session.canonical other)))
    (computes : ∃ result, valueOf env value = some result ∧ (flow.tainted value = false →
      apply operator (store values later (later.session.canonical this))
        (store values later (later.session.canonical other)) = result)) :
    Evaluated model hooks host.backend outer values flow env state value
      (returned host operator this other later)
      (held (returned host operator this other later)
        (combined host operator this other later)) := by
  have ongoing := mirrors.ongoing
  have heldWithin : Within outer later (held (returned host operator this other later)
      (combined host operator this other later)) := combined_held ongoing operator first second
  have after := combined_mirrors mirrors operator first second left right
  have further := combined_continues mirrors operator first second
  have stands : (combined host operator this other later).session.canonical
      (returned host operator this other later) = later.nextAddress host :=
    returned_canonical ongoing.active operator
  have listed : (held (returned host operator this other later)
      (combined host operator this other later)).session.canonical
        (returned host operator this other later) ∈ produced
          (held (returned host operator this other later)
            (combined host operator this other later)).session.operations := by
    simp only [held, stands, combined_operations, produced_append]
    exact List.mem_append_right _ (List.mem_singleton_self _)
  constructor
  · exact within_trans within heldWithin
  · have whole := continues_trans continues further
    exact ⟨extends_trans within.extended heldWithin.extended, whole.kept, whole.remains⟩
  · exact mirrors_held after heldWithin.ongoing
  · exact (returned_collapsed ongoing.active operator).alive
  · exact Or.inr listed
  · intro _
    refine ⟨?_, listed⟩
    simp only [held, stands]
    exact fun alive => next_unused host later (within.extended.live alive)
  · obtain ⟨result, known, agrees⟩ := computes
    refine ⟨result, known, ?_⟩
    intro fresh
    rw [← agrees fresh, ← combined_value_store mirrors operator first second]
    simp only [held, stands]
    rfl

omit [Add V] [Mul V] [IntCast V] in
theorem combine_scalar_returned (active : Active state) {operator : Arithmetic}
    (alive : this ∈ state.live) {scalar : Int} {address : Address}
    (ran : combineScalar host operator this scalar state = (.ok address, later)) :
    ∃ profile buffer world, host.encrypt profile scalar state.world = (.ok buffer, world) ∧
      address = returned host operator this (state.nextAddress host)
        (literalReady host scalar profile buffer world state) ∧
      later = combined host operator this (state.nextAddress host)
        (literalReady host scalar profile buffer world state) := by
  cases present : (state.objects this).profile with
  | none =>
      rw [combine_scalar_null operator alive scalar present] at ran
      cases (Prod.mk.inj ran).1
  | some profile =>
      rcases encrypts : host.encrypt profile scalar state.world with ⟨message | buffer, world⟩
      · rw [combine_scalar_throws operator alive scalar present encrypts] at ran
        cases (Prod.mk.inj ran).1
      · rw [combine_literal_eq active operator alive scalar present encrypts] at ran
        obtain ⟨same, final⟩ := Prod.mk.inj ran
        exact ⟨profile, buffer, world, encrypts, (Except.ok.inj same).symm, final.symm⟩

theorem evaluate_mirrors (law : EncryptLaw model hooks host) (value : Expr Address)
    (reads : Reads outer value) {address : Address}
    (mirrors : Mirrors model hooks host.backend outer values flow env state)
    (ran : evaluate host value state = (.ok address, later)) :
    Evaluated model hooks host.backend outer values flow env state value address later := by
  induction value generalizing state later address with
  | read name =>
      obtain ⟨same, located⟩ := locate_returned reads ran
      subst same
      exact ⟨within_refl mirrors.ongoing, continues_refl _, mirrors,
        located_alive mirrors.ongoing located, located_sourced mirrors located,
        fun compound => absurd rfl (compound name), located_value mirrors located⟩
  | combine operator lhs rhs left right =>
      obtain ⟨this, middle, ranLeft, rest⟩ := returned_bind ran
      obtain ⟨other, late, ranRight, -⟩ := returned_bind rest
      have one := left reads.1 mirrors ranLeft
      have two := right reads.2 one.mirrors ranRight
      have active := two.mirrors.ongoing.active
      have alive := two.continues.extended.live one.alive
      have resolved := (one.mirrors.ongoing.active.sound.resolves this one.alive).alive
      rw [evaluate_combine ranLeft ranRight active alive two.alive] at ran
      obtain ⟨same, final⟩ := Prod.mk.inj ran
      rw [← Except.ok.inj same, ← final]
      have stays : late.session.canonical this = middle.session.canonical this :=
        two.continues.extended.canonical this one.alive
      apply combined_evaluated operator two.mirrors (within_trans one.within two.within)
        (continues_trans one.continues two.continues) alive two.alive
      · rw [stays]
        rcases one.sourced with caller | made
        · exact Or.inl caller
        · exact Or.inr (two.continues.remains _ made)
      · exact Or.inl two.sourced
      · obtain ⟨first, knownFirst, agreesFirst⟩ := one.computes
        obtain ⟨second, knownSecond, agreesSecond⟩ := two.computes
        refine ⟨apply operator first second, ?_, ?_⟩
        · rw [valueOf, knownFirst, knownSecond]
          rfl
        · intro fresh
          rw [Flow.tainted, Bool.or_eq_false_iff] at fresh
          rw [stays, two.continues.kept _ resolved, agreesFirst fresh.1, agreesSecond fresh.2]
  | combineScalar operator lhs scalar left =>
      obtain ⟨this, middle, ranLeft, rest⟩ := returned_bind ran
      obtain ⟨made, late, ranScalar, holding⟩ := returned_bind rest
      have one := left reads mirrors ranLeft
      have active := one.mirrors.ongoing.active
      obtain ⟨profile, buffer, world, encrypts, sameMade, sameLate⟩ :=
        combine_scalar_returned active one.alive ranScalar
      obtain ⟨same, final⟩ := Prod.mk.inj holding
      rw [← Except.ok.inj same, ← final, sameMade, sameLate]
      have operations : (literalReady host scalar profile buffer world middle).session.operations =
          middle.session.operations := literal_ready_operations _ _ _ _
      have extended : Extends middle (literalReady host scalar profile buffer world middle) :=
        literal_ready_extends _ _ _ _
      have ready := prepared_mirrors one.mirrors extended (literal_ready_active active _ _ _ _) rfl
        operations (encrypt_keeps law encrypts)
      have further : Continues values middle
          (literalReady host scalar profile buffer world middle) :=
        prepared_continues active extended operations
      have start : startValue values (literalReady host scalar profile buffer world middle)
          (middle.nextAddress host) = (scalar : V) := by
        rw [startValue, literal_ready_object]
        rfl
      have stays := further.extended.canonical this one.alive
      have resolved := (active.sound.resolves this one.alive).alive
      have stands : (literalReady host scalar profile buffer world middle).session.canonical
          (middle.nextAddress host) = middle.nextAddress host :=
        literal_ready_canonical active scalar profile buffer world
      have readyWithin :
          Within outer middle (literalReady host scalar profile buffer world middle) :=
        within_extends one.mirrors.ongoing further.extended ready.ongoing.active rfl
      apply combined_evaluated operator ready (within_trans one.within readyWithin)
        (continues_trans one.continues further) (further.extended.live one.alive)
        (literal_ready_alive scalar profile buffer world)
      · rw [stays]
        rcases one.sourced with caller | before
        · exact Or.inl caller
        · exact Or.inr (further.remains _ before)
      · right
        rw [stands, start, literal_ready_object]
        exact encrypted_supplies law encrypts _
      · obtain ⟨first, known, agrees⟩ := one.computes
        refine ⟨apply operator first (scalar : V), ?_, ?_⟩
        · rw [valueOf, known]
          rfl
        · intro fresh
          rw [stays, stands, further.kept _ resolved, agrees fresh,
            unmentioned_store active operations (next_unused host middle), start]

end Fhenomenon.MirroredExpressions
