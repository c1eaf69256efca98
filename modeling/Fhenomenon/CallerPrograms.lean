import Fhenomenon.OutsideMeaning

/-!
# Programs of a caller

A caller runs bodies in sessions and assigns outside of them, one step after
another, and catches what a step throws. The variables then hold what the
completed steps compute eagerly, but for those that a stale value reached.
-/

namespace Fhenomenon.CallerPrograms

open Fhenomenon.Lib.Fallible Fhenomenon.DefaultExecutor Fhenomenon.DeviceAbi
open Fhenomenon.SessionRefinement Fhenomenon.Recording Fhenomenon.EntityMap
open Fhenomenon.SessionBodies Fhenomenon.RecordingSteps Fhenomenon.RecordingFrame
open Fhenomenon.BodyMeaning Fhenomenon.MirroredExpressions
open Fhenomenon.ValueSemantics Fhenomenon.AtomicRuns Fhenomenon.SuccessiveRuns
open Fhenomenon.BuiltinBackend Fhenomenon.OutsideMeaning

variable {Address Ptr Profile σ V W κ : Type} [DecidableEq Address]

inductive Step (Address : Type)
  | run (body : List (Statement Address))
  | outside (statement : Outside Address)

def Step.body : Step Address → List (Statement Address)
  | .run body => body
  | .outside statement => [statementOf statement]

def UsesStep (outer : Address → Prop) (step : Step Address) : Prop :=
  ∀ statement ∈ step.body, Uses outer statement

/-- Says whether `act` returned; what it throws is caught, and undefined behaviour is not. -/
def attempt (act : Recorder Address Ptr Profile σ Unit) : Recorder Address Ptr Profile σ Bool :=
  fun state =>
    match act state with
    | (.ok (), reached) => (.ok true, reached)
    | (.error (.thrown _), reached) => (.ok false, reached)
    | (.error failure, reached) => (.error failure, reached)

/-- What the steps need of the library: the backend's operators, and the session's runtime. -/
structure Runtime (Address Ptr Profile σ : Type) where
  host : Host Address Ptr Profile σ
  compute : Arithmetic → Object Ptr Profile → Object Ptr Profile → Computation σ String Ptr
  hooks : FhnMovementHooks Ptr σ
  dispatch : Dispatch Ptr σ
  evaluateGraph : Recorder Address Ptr Profile σ Unit

def performStep (runtime : Runtime Address Ptr Profile σ) :
    Step Address → Recorder Address Ptr Profile σ Unit
  | .run body =>
      run runtime.host runtime.host.backend runtime.hooks runtime.dispatch runtime.evaluateGraph
        body
  | .outside statement => performOutside runtime.host runtime.compute statement

/-- The steps, with the outcome of each. -/
def performSteps (runtime : Runtime Address Ptr Profile σ) :
    List (Step Address) → Recorder Address Ptr Profile σ (List Bool)
  | [] => return []
  | step :: rest => do
      let completed ← attempt (performStep runtime step)
      let others ← performSteps runtime rest
      return completed :: others

/-- `Fhenon<int> a = value; a.belong(profile);` -/
def declare (host : Host Address Ptr Profile σ) (value : Int) (profile : Profile) :
    Recorder Address Ptr Profile σ Address := do
  let address ← construct host { val := value }
  belong host address (some profile)
  return address

def declareAll (host : Host Address Ptr Profile σ) :
    List (Int × Profile) → Recorder Address Ptr Profile σ (List Address)
  | [] => return []
  | (value, profile) :: rest => do
      let address ← declare host value profile
      let others ← declareAll host rest
      return address :: others

/-- Declares its variables and does its steps with them. -/
def callerProgram (runtime : Runtime Address Ptr Profile σ) (declared : List (Int × Profile))
    (steps : List Address → List (Step Address)) :
    Recorder Address Ptr Profile σ (List Address × List Bool) := do
  let addresses ← declareAll runtime.host declared
  let completed ← performSteps runtime (steps addresses)
  return (addresses, completed)

section Meaning

variable [Add V] [Mul V] [IntCast V]

/-- The values after the completed steps, each executed eagerly. -/
def executeCompleted : List (Step Address) → List Bool → (Address → V) → Option (Address → V)
  | step :: rest, true :: others, values =>
      (executeBody step.body { outer := values }).bind fun after =>
        executeCompleted rest others after.outer
  | _ :: rest, false :: others, values => executeCompleted rest others values
  | _, _, values => some values

/-- The variables that are stale after the completed steps. -/
def staleCompleted : List (Step Address) → List Bool → (Address → Bool) → Address → Bool
  | step :: rest, true :: others, stale => staleCompleted rest others (staleAfter stale step.body)
  | _ :: rest, false :: others, stale => staleCompleted rest others stale
  | _, _, stale => stale

variable {outer : Address → Prop} {stale : Address → Bool} {expected values now : Address → V}

omit [DecidableEq Address] in
theorem value_expected (agrees : Expected outer stale expected values) (value : Expr Address)
    (reads : Reads outer value) :
    (valueOf ({ outer := values } : Environment Address V) value).isSome =
        (valueOf ({ outer := expected } : Environment Address V) value).isSome ∧
      ((staleFlow stale).tainted value = false →
        valueOf ({ outer := values } : Environment Address V) value =
          valueOf { outer := expected } value) := by
  induction value with
  | read name =>
      cases name with
      | outer address =>
          refine ⟨rfl, fun fresh => ?_⟩
          simp only [valueOf, get_outer]
          exact congrArg some (agrees address reads fresh)
      | inner index => exact ⟨rfl, fun _ => rfl⟩
  | combine operator lhs rhs left right =>
      obtain ⟨leftDefined, leftAgrees⟩ := left reads.1
      obtain ⟨rightDefined, rightAgrees⟩ := right reads.2
      constructor
      · simp only [valueOf, Option.bind_eq_bind, Option.pure_def, Option.isSome_bind]
        cases first : valueOf ({ outer := values } : Environment Address V) lhs <;>
          cases second : valueOf ({ outer := expected } : Environment Address V) lhs <;>
          rw [first, second] at leftDefined <;> simp_all
      · intro fresh
        rw [Flow.tainted, Bool.or_eq_false_iff] at fresh
        simp only [valueOf, leftAgrees fresh.1, rightAgrees fresh.2]
  | combineScalar operator lhs scalar left =>
      obtain ⟨defined, agree⟩ := left reads
      constructor
      · simp only [valueOf]
        cases first : valueOf ({ outer := values } : Environment Address V) lhs <;>
          cases second : valueOf ({ outer := expected } : Environment Address V) lhs <;>
          rw [first, second] at defined <;> simp_all
      · intro fresh
        simp only [valueOf, agree fresh]

omit [Add V] [Mul V] [IntCast V] in
theorem update_expected (agrees : Expected outer stale expected values) {target : Address}
    {value other : V} {after : Address → Bool} (own : after target = false → value = other)
    (others : ∀ address, address ≠ target → after address = false → stale address = false) :
    Expected outer after (Function.update expected target other)
      (Function.update values target value) := by
  intro address caller fresh
  by_cases same : address = target
  · subst same
    rw [Function.update_self, Function.update_self]
    exact own fresh
  · rw [Function.update_of_ne same, Function.update_of_ne same]
    exact agrees address caller (others address same fresh)

theorem outside_expected (agrees : Expected outer stale expected values)
    (statement : Outside Address) (uses : Uses outer (statementOf statement))
    (executes : executeStatement { outer := values } (statementOf statement) =
      some ({ outer := now } : Environment Address V)) :
    ∃ after, executeBody [statementOf statement] { outer := expected } = some after ∧
      Expected outer (staleAfter stale [statementOf statement]) after.outer now := by
  have others (target : Address) (tainted changes : Bool) (address : Address)
      (different : address ≠ target)
      (clean : ((staleFlow stale).assign (.outer target) tainted changes).stale (.outer address) =
        false) : stale address = false := by
    simp only [Flow.assign, Variable.outer.injEq, different, if_false,
      Bool.or_eq_false_iff] at clean
    exact clean.1
  cases statement with
  | assign target value =>
      obtain ⟨computed, means, assigned⟩ := Option.bind_eq_some_iff.mp executes
      obtain ⟨defined, fresh⟩ := value_expected agrees value uses.2
      rw [means, Option.isSome_some] at defined
      obtain ⟨other, otherMeans⟩ := Option.isSome_iff_exists.mp defined.symm
      obtain rfl : Function.update values target computed = now :=
        congrArg (·.outer) (Option.some.inj assigned)
      refine ⟨{ outer := Function.update expected target other }, ?_,
        update_expected agrees ?_ (others target _ _)⟩
      · simp only [executeBody, statementOf, List.foldlM_cons, List.foldlM_nil, executeStatement,
          otherMeans, Option.bind_some, Environment.assign, get_outer, Option.isSome_some,
          if_true, Environment.set]
        rfl
      · intro clean
        simp only [staleAfter, List.foldl_cons, List.foldl_nil, statementOf, Flow.through,
          Flow.assign, if_true] at clean
        rw [fresh clean] at means
        exact Option.some.inj (means.symm.trans otherMeans)
  | assignScalar target scalar =>
      obtain rfl : Function.update values target (scalar : V) = now :=
        congrArg (·.outer) (Option.some.inj executes)
      exact ⟨{ outer := Function.update expected target (scalar : V) }, rfl,
        update_expected agrees (fun _ => rfl) (others target _ _)⟩

end Meaning

variable [Add V] [Mul V] [IntCast V] [DecidableEq Ptr] {model : DeviceModel Ptr σ V κ}
  {whole : σ → Ptr → Option W} {runtime : Runtime Address Ptr Profile σ}
  {alloc : σ → Option Ptr × σ} {free : Option Ptr → σ → σ} {outer : Address → Prop} {stale : Address → Bool}
  {expected values : Address → V} {state : State Address Ptr Profile σ}

omit [DecidableEq Address] [DecidableEq Ptr] in
theorem attempt_ends {act : Recorder Address Ptr Profile σ Unit}
    {returns : State Address Ptr Profile σ → Prop}
    {fails : Failure → State Address Ptr Profile σ → Prop}
    (ends : Ends act (fun _ reached => returns reached) fails state) :
    Ends (attempt act)
      (fun completed reached => if completed then returns reached
        else ∃ message, fails (.thrown message) reached)
      fails state := by
  rcases ran : act state with ⟨failure | done, reached⟩
  · have failed := ends_failed ends ran
    cases failure with
    | thrown message =>
        have caught : attempt act state = (.ok false, reached) := by simp only [attempt, ran]
        have threw : ∃ message, fails (.thrown message) reached := ⟨message, failed⟩
        exact ends_of_eq caught threw
    | nullProfile | dangling | undeclared =>
        exact ends_of_failed (by simp only [attempt, ran]) failed
  · have caught : attempt act state = (.ok true, reached) := by simp only [attempt, ran]
    have returned : returns reached := ends_returned ends ran
    exact ends_of_eq caught returned

theorem step_stands
    (promises : KeepsPromises model whole runtime.hooks alloc free runtime.dispatch runtime.host)
    (law : ComputeLaw model runtime.hooks runtime.host.backend runtime.compute)
    (standing : Standing model runtime.hooks runtime.host.backend outer values state)
    (agrees : Expected outer stale expected values) (step : Step Address)
    (uses : UsesStep outer step) :
    Ends (performStep runtime step)
      (fun _ reached => ∃ after now, executeBody step.body { outer := expected } = some after ∧
        Standing model runtime.hooks runtime.host.backend outer now reached ∧
        Expected outer (staleAfter stale step.body) after.outer now)
      (fun _ reached => Standing model runtime.hooks runtime.host.backend outer values reached)
      state := by
  cases step with
  | run body =>
      rcases ran : performStep runtime (.run body) state with ⟨failure | done, reached⟩
      · exact ends_of_failed ran (failed_run_stands promises.contentsLaws
          promises.encryptPreserves promises.seen promises.oneMemory standing ran)
      · exact ends_of_eq ran (returned_run_stands promises standing agrees uses ran)
  | outside statement =>
      have own : Uses outer (statementOf statement) := uses _ List.mem_cons_self
      refine ends_mono (perform_outside_meets law promises.encryptLaw promises.oneMemory standing
        statement own) ?_ fun _ _ kept => kept
      rintro _ reached ⟨now, executes, stands⟩
      obtain ⟨after, computes, fresh⟩ := outside_expected agrees statement own executes
      exact ⟨after, now, computes, stands, fresh⟩

/-- After any steps, some of which threw, the variables stand, and those that are not stale hold
the eager values of the completed steps. -/
theorem steps_stand
    (promises : KeepsPromises model whole runtime.hooks alloc free runtime.dispatch runtime.host)
    (law : ComputeLaw model runtime.hooks runtime.host.backend runtime.compute)
    (standing : Standing model runtime.hooks runtime.host.backend outer values state)
    (agrees : Expected outer stale expected values) (steps : List (Step Address))
    (uses : ∀ step ∈ steps, UsesStep outer step) :
    Ends (performSteps runtime steps)
      (fun completed reached => ∃ after now, executeCompleted steps completed expected =
          some after ∧
        Standing model runtime.hooks runtime.host.backend outer now reached ∧
        Expected outer (staleCompleted steps completed stale) after now)
      (fun _ reached => ∃ now, Standing model runtime.hooks runtime.host.backend outer now reached)
      state := by
  induction steps generalizing stale expected values state with
  | nil => exact ends_of_eq rfl ⟨expected, values, rfl, standing, agrees⟩
  | cons step rest induction =>
      have first := attempt_ends (step_stands promises law standing agrees step
        (uses step List.mem_cons_self))
      have later : ∀ other ∈ rest, UsesStep outer other :=
        fun other member => uses other (List.mem_cons_of_mem _ member)
      rw [performSteps, ends_bind]
      refine ends_mono first ?_ fun _ _ kept => ⟨values, kept⟩
      intro completed middle outcome
      rw [ends_bind]
      cases completed with
      | true =>
          obtain ⟨after, now, computes, stands, fresh⟩ := outcome
          refine ends_mono (induction stands fresh later) ?_ fun _ _ kept => kept
          rintro others reached ⟨final, held, all, last, clean⟩
          refine ends_of_eq rfl ⟨final, held, ?_, last, clean⟩
          rw [executeCompleted, computes, Option.bind_some]
          exact all
      | false =>
          obtain ⟨message, stands⟩ := outcome
          refine ends_mono (induction stands agrees later) ?_ fun _ _ kept => kept
          rintro others reached ⟨final, held, all, last, clean⟩
          exact ends_of_eq rfl ⟨final, held, all, last, clean⟩

section Declarations

variable {hooks : FhnMovementHooks Ptr σ} {host : Host Address Ptr Profile σ} {backend : Nat}

omit [DecidableEq Address] [Add V] [Mul V] [IntCast V] [DecidableEq Ptr] in
theorem standing_mono {fewer : Address → Prop} (below : ∀ address, fewer address → outer address)
    (standing : Standing model hooks backend outer values state) :
    Standing model hooks backend fewer values state where
  ready :=
    { standing.ready with
      outerAlive := fun address caller => standing.ready.outerAlive address (below address caller) }
  inactive := standing.inactive
  supplied := ⟨fun address caller => standing.supplied.buffers address (below address caller),
    fun address caller => standing.supplied.plain address (below address caller)⟩
  profiled := fun address caller => standing.profiled address (below address caller)

omit [DecidableEq Address] [Add V] [Mul V] [IntCast V] [DecidableEq Ptr] in
theorem ends_persists {Value : Type} {act : Recorder Address Ptr Profile σ Value}
    {property : State Address Ptr Profile σ → Prop} (persists : Persists property act)
    (holds : property state) {returns : Value → State Address Ptr Profile σ → Prop}
    {fails : Failure → State Address Ptr Profile σ → Prop} (ends : Ends act returns fails state) :
    Ends act (fun value reached => returns value reached ∧ property reached)
      (fun failure reached => fails failure reached ∧ property reached) state := by
  have kept := persists.keeps state holds
  rcases ran : act state with ⟨failure | value, reached⟩
  · rw [ran] at kept
    exact ends_of_failed ran ⟨ends_failed ends ran, kept⟩
  · rw [ran] at kept
    exact ends_of_eq ran ⟨ends_returned ends ran, kept⟩

omit [DecidableEq Ptr] [Add V] [Mul V] in
theorem declare_stands (law : EncryptLaw model hooks host) (memory : OneMemory model hooks)
    (standing : Standing model hooks host.backend outer values state) (value : Int)
    (profile : Profile) :
    Ends (declare host value profile)
      (fun address reached => address ∉ state.live ∧ state.live ⊆ reached.live ∧
        Standing model hooks host.backend (fun other => other = address ∨ outer other)
          (Function.update values address (value : V)) reached)
      (fun _ reached => ∃ now, Standing model hooks host.backend outer now reached) state := by
  have own : state.nextAddress host ∉ state.live := next_unused host state
  have made := spares_construct (spares_refl model.contents state) own { val := value }
  have given : (state.construct (state.nextAddress host)
      { val := value }).objects (state.nextAddress host) = { val := value } := construct_self _ _
  have others {reached : State Address Ptr Profile σ}
      (spares : Spares model.contents state reached) (address : Address) (caller : outer address) :
      Kept model hooks host.backend reached.world (reached.objects address) (values address) := by
    rw [spares.objects address (standing.ready.outerAlive address caller).1]
    exact kept_preserved memory (standing_kept standing caller) spares.contents
  have alive {reached : State Address Ptr Profile σ}
      (spares : Spares model.contents state reached) (address : Address)
      (caller : outer address) : address ∈ reached.live :=
    spares.live (standing.ready.outerAlive address caller).1
  have clear : NoTemporaries (state.construct (state.nextAddress host) { val := value }) :=
    standing.ready.noTemporaries
  have belongs := ends_persists (belong_temporaries (state.nextAddress host) (some profile)) clear
    (belong_meets law memory made own (some profile))
  rw [declare, ends_bind]
  refine ends_of_eq rfl ?_
  rw [ends_bind]
  refine ends_mono belongs ?_ ?_
  · rintro _ reached ⟨⟨spares, -, live, ⟨ciphertext, object⟩, supplies⟩, none⟩
    rw [given] at object supplies
    have present : state.nextAddress host ∈ reached.live := by
      rw [live]
      exact Finset.mem_insert_self _ _
    refine ends_of_eq rfl ⟨own, spares.live, ?_⟩
    refine kept_standing standing spares.session ?_ spares.locals none ?_
    · rintro address (rfl | caller)
      · exact present
      · exact alive spares address caller
    · rintro address (rfl | caller)
      · rw [Function.update_self]
        rw [object] at supplies ⊢
        exact ⟨rfl, rfl, rfl, supplies⟩
      · have apart : address ≠ state.nextAddress host := by
          rintro rfl
          exact own (standing.ready.outerAlive _ caller).1
        rw [Function.update_of_ne apart]
        exact others spares address caller
  · rintro _ reached ⟨⟨spares, -⟩, none⟩
    exact ⟨values, kept_standing standing spares.session (alive spares) spares.locals none
      (others spares)⟩

omit [DecidableEq Ptr] [Add V] [Mul V] in
theorem declare_all_stands (law : EncryptLaw model hooks host) (memory : OneMemory model hooks)
    (declared : List (Int × Profile))
    (standing : Standing model hooks host.backend outer values state) :
    Ends (declareAll host declared)
      (fun addresses reached => ∃ now,
        Standing model hooks host.backend (fun other => other ∈ addresses ∨ outer other) now
          reached ∧
        addresses.map now = declared.map (fun item => (item.1 : V)) ∧
        ∀ other ∈ state.live, now other = values other)
      (fun _ reached => ∃ now, Standing model hooks host.backend outer now reached) state := by
  induction declared generalizing outer values state with
  | nil =>
      refine ends_of_eq rfl ⟨values, standing_mono ?_ standing, rfl, fun _ _ => rfl⟩
      rintro address (absent | caller)
      · cases absent
      · exact caller
  | cons first rest induction =>
      obtain ⟨value, profile⟩ := first
      rw [declareAll, ends_bind]
      refine ends_mono (declare_stands law memory standing value profile) ?_ fun _ _ kept => kept
      rintro address middle ⟨new, grows, stands⟩
      rw [ends_bind]
      refine ends_mono (induction stands) ?_ ?_
      · rintro others reached ⟨now, final, held, kept⟩
        have alive : address ∈ middle.live :=
          (stands.ready.outerAlive address (Or.inl rfl)).1
        refine ends_of_eq rfl ⟨now, standing_mono ?_ final, ?_, ?_⟩
        · rintro other (member | caller)
          · rcases List.mem_cons.mp member with same | later
            · exact Or.inr (Or.inl same)
            · exact Or.inl later
          · exact Or.inr (Or.inr caller)
        · rw [List.map_cons, List.map_cons, held, kept address alive, Function.update_self]
        · intro other old
          have apart : other ≠ address := by
            rintro rfl
            exact new old
          rw [kept other (grows old), Function.update_of_ne apart]
      · rintro _ reached ⟨now, final⟩
        exact ⟨now, standing_mono (fun other caller => Or.inr caller) final⟩

end Declarations

/-- No variable is declared yet, and no session runs. -/
structure Fresh (state : State Address Ptr Profile σ) : Prop where
  ready : Ready (fun _ => False) state
  inactive : state.session.active = false

omit [DecidableEq Address] [Add V] [Mul V] [IntCast V] [DecidableEq Ptr] in
theorem fresh_stands (hooks : FhnMovementHooks Ptr σ) (backend : Nat) (values : Address → V)
    (fresh : Fresh state) : Standing model hooks backend (fun _ => False) values state where
  ready := fresh.ready
  inactive := fresh.inactive
  supplied := ⟨fun _ absent => absent.elim, fun _ absent => absent.elim⟩
  profiled := fun _ absent => absent.elim

omit [DecidableEq Address] [DecidableEq Ptr] in
theorem ends_forall {Value Item : Type} {act : Recorder Address Ptr Profile σ Value}
    {returns : Item → Value → State Address Ptr Profile σ → Prop}
    (ends : ∀ item, Ends act (returns item) (fun _ _ => True) state) :
    Ends act (fun value reached => ∀ item, returns item value reached) (fun _ _ => True)
      state := by
  rcases ran : act state with ⟨failure | value, reached⟩
  · exact ends_of_failed ran trivial
  · exact ends_of_eq ran fun item => ends_returned (ends item) ran

theorem program_stands
    (promises : KeepsPromises model whole runtime.hooks alloc free runtime.dispatch runtime.host)
    (law : ComputeLaw model runtime.hooks runtime.host.backend runtime.compute)
    (fresh : Fresh state) (declared : List (Int × Profile))
    (steps : List Address → List (Step Address))
    (uses : ∀ addresses, ∀ step ∈ steps addresses, UsesStep (fun other => other ∈ addresses) step) :
    Ends (callerProgram runtime declared steps)
      (fun outcome reached => ∀ expected : Address → V,
        outcome.1.map expected = declared.map (fun item => (item.1 : V)) →
          ∃ after now, executeCompleted (steps outcome.1) outcome.2 expected = some after ∧
            Standing model runtime.hooks runtime.host.backend (fun other => other ∈ outcome.1) now
              reached ∧
            Expected (fun other => other ∈ outcome.1)
              (staleCompleted (steps outcome.1) outcome.2 fun _ => false) after now)
      (fun _ _ => True) state := by
  have start (values : Address → V) := declare_all_stands promises.encryptLaw promises.oneMemory
    declared (fresh_stands runtime.hooks runtime.host.backend values fresh)
  apply ends_forall
  intro expected
  rw [callerProgram, ends_bind]
  refine ends_mono (start expected) ?_ fun _ _ _ => trivial
  rintro addresses middle ⟨values, stands, held, -⟩
  have own : Standing model runtime.hooks runtime.host.backend (fun other => other ∈ addresses)
      values middle := standing_mono (fun _ member => Or.inl member) stands
  rw [ends_bind]
  by_cases same : addresses.map expected = declared.map fun item => (item.1 : V)
  · have agrees : Expected (fun other => other ∈ addresses) (fun _ => false) expected values :=
      fun address member _ => List.map_inj_left.mp (held.trans same.symm) address member
    refine ends_mono (steps_stand promises law own agrees (steps addresses) (uses addresses)) ?_
      fun _ _ _ => trivial
    intro completed reached outcome
    exact ends_of_eq rfl fun _ => outcome
  · rcases ran : performSteps runtime (steps addresses) middle with ⟨failure | completed, reached⟩
    · exact ends_of_failed ran trivial
    · exact ends_of_eq ran (ends_of_eq rfl fun other => absurd other same)

/-- A program declares variables and does any steps with them, catching what they throw. In the
end every variable that no stale value reached holds the eager value of the completed steps. -/
theorem caller_program_computes (model : DeviceModel Ptr σ V κ) (whole : σ → Ptr → Option W)
    (runtime : Runtime Address Ptr Profile σ) (alloc : σ → Option Ptr × σ)
    (free : Option Ptr → σ → σ)
    (promises : KeepsPromises model whole runtime.hooks alloc free runtime.dispatch runtime.host)
    (law : ComputeLaw model runtime.hooks runtime.host.backend runtime.compute)
    (state : State Address Ptr Profile σ) (fresh : Fresh state) (declared : List (Int × Profile))
    (steps : List Address → List (Step Address))
    (uses : ∀ addresses, ∀ step ∈ steps addresses, UsesStep (fun other => other ∈ addresses) step)
    (addresses : List Address) (completed : List Bool) (reached : State Address Ptr Profile σ)
    (returned : callerProgram runtime declared steps state = (.ok (addresses, completed), reached))
    (initial : Address → V)
    (declares : addresses.map initial = declared.map fun item => (item.1 : V)) :
    ∃ after, executeCompleted (steps addresses) completed initial = some after ∧
      ∀ address ∈ addresses,
        staleCompleted (steps addresses) completed (fun _ => false) address = false →
          heldValue model reached.world (reached.objects address).toFhenon =
            some (after address) := by
  have ends := ends_returned (program_stands promises law fresh declared steps uses) returned
  obtain ⟨after, now, computes, stands, agrees⟩ := ends initial declares
  refine ⟨after, computes, ?_⟩
  intro address member clean
  rw [← agrees address member clean]
  exact supplies_value (stands.supplied.buffers address member)

end Fhenomenon.CallerPrograms
