import Mathlib

/-!
# Computations that may fail

A computation changes a state and may fail. A failure keeps the state it
reached, so that cleanup can run after it. `Ends` is the weakest precondition
for what holds on return and what holds on failure.
-/

namespace Fhenomenon.Lib.Fallible

def Computation (State Failure Value : Type) : Type := State → Except Failure Value × State

instance (State Failure : Type) : Monad (Computation State Failure) where
  pure value := fun state => (.ok value, state)
  bind first next := fun state =>
    match first state with
    | (.ok value, reached) => next value reached
    | (.error failure, reached) => (.error failure, reached)

variable {State Failure Value Result : Type}

def fail (failure : Failure) : Computation State Failure Value :=
  fun state => (.error failure, state)

def look : Computation State Failure State := fun state => (.ok state, state)

def change (update : State → State) : Computation State Failure Unit :=
  fun state => (.ok (), update state)

/-- Runs `cleanup` after `run`, whether it fails or not. -/
def ensuring (run : Computation State Failure Value) (cleanup : State → State) :
    Computation State Failure Value :=
  fun state => ((run state).1, cleanup (run state).2)

/-- Runs `cleanup` only when `run` fails. -/
def onFailure (run : Computation State Failure Value) (cleanup : State → State) :
    Computation State Failure Value :=
  fun state =>
    match run state with
    | (.ok value, reached) => (.ok value, reached)
    | (.error failure, reached) => (.error failure, cleanup reached)

/-- Runs `act` on each item, until one fails. -/
def each {Item : Type} (act : Item → Computation State Failure Unit) :
    List Item → Computation State Failure Unit
  | [] => pure ()
  | item :: rest => do
      act item
      each act rest

@[simp] theorem pure_apply (value : Value) (state : State) :
    (pure value : Computation State Failure Value) state = (.ok value, state) :=
  rfl

@[simp] theorem fail_apply (failure : Failure) (state : State) :
    (fail failure : Computation State Failure Value) state = (.error failure, state) :=
  rfl

@[simp] theorem look_apply (state : State) :
    (look : Computation State Failure State) state = (.ok state, state) :=
  rfl

@[simp] theorem change_apply (update : State → State) (state : State) :
    (change update : Computation State Failure Unit) state = (.ok (), update state) :=
  rfl

theorem bind_returned {first : Computation State Failure Value}
    {next : Value → Computation State Failure Result} {state reached : State} {value : Value}
    (returned : first state = (.ok value, reached)) :
    (first >>= next) state = next value reached := by
  simp only [bind, returned]

theorem bind_failed {first : Computation State Failure Value}
    {next : Value → Computation State Failure Result} {state reached : State} {failure : Failure}
    (failed : first state = (.error failure, reached)) :
    (first >>= next) state = (.error failure, reached) := by
  simp only [bind, failed]

theorem returned_bind {first : Computation State Failure Value}
    {next : Value → Computation State Failure Result} {state last : State} {result : Result}
    (returned : (first >>= next) state = (.ok result, last)) :
    ∃ value reached,
      first state = (.ok value, reached) ∧ next value reached = (.ok result, last) := by
  rcases before : first state with ⟨failure | value, reached⟩
  · rw [bind_failed before] at returned
    cases returned
  · rw [bind_returned before] at returned
    exact ⟨value, reached, rfl, returned⟩

theorem returned_ensuring {run : Computation State Failure Value} {cleanup : State → State}
    {state last : State} {value : Value}
    (returned : ensuring run cleanup state = (.ok value, last)) :
    ∃ reached, run state = (.ok value, reached) ∧ last = cleanup reached := by
  obtain ⟨same, final⟩ := Prod.mk.inj returned
  refine ⟨(run state).2, ?_, final.symm⟩
  rw [← same]

@[simp] theorem bind_look_apply (next : State → Computation State Failure Result) (state : State) :
    ((look : Computation State Failure State) >>= next) state = next state state :=
  rfl

@[simp] theorem bind_change_apply (update : State → State)
    (next : Unit → Computation State Failure Result) (state : State) :
    ((change update : Computation State Failure Unit) >>= next) state = next () (update state) :=
  rfl

def Ends (run : Computation State Failure Value) (returns : Value → State → Prop)
    (fails : Failure → State → Prop) (state : State) : Prop :=
  match run state with
  | (.ok value, reached) => returns value reached
  | (.error failure, reached) => fails failure reached

theorem ends_of_eq {run : Computation State Failure Value} {returns : Value → State → Prop}
    {fails : Failure → State → Prop} {state reached : State} {value : Value}
    (returned : run state = (.ok value, reached)) (holds : returns value reached) :
    Ends run returns fails state := by
  rw [Ends, returned]
  exact holds

theorem ends_of_failed {run : Computation State Failure Value} {returns : Value → State → Prop}
    {fails : Failure → State → Prop} {state reached : State} {failure : Failure}
    (failed : run state = (.error failure, reached)) (holds : fails failure reached) :
    Ends run returns fails state := by
  rw [Ends, failed]
  exact holds

theorem ends_returned {run : Computation State Failure Value} {returns : Value → State → Prop}
    {fails : Failure → State → Prop} {state reached : State} {value : Value}
    (ends : Ends run returns fails state) (returned : run state = (.ok value, reached)) :
    returns value reached := by
  rw [Ends, returned] at ends
  exact ends

theorem ends_failed {run : Computation State Failure Value} {returns : Value → State → Prop}
    {fails : Failure → State → Prop} {state reached : State} {failure : Failure}
    (ends : Ends run returns fails state) (failed : run state = (.error failure, reached)) :
    fails failure reached := by
  rw [Ends, failed] at ends
  exact ends

theorem ends_bind {first : Computation State Failure Value}
    {next : Value → Computation State Failure Result} {returns : Result → State → Prop}
    {fails : Failure → State → Prop} {state : State} :
    Ends (first >>= next) returns fails state ↔
      Ends first (fun value reached => Ends (next value) returns fails reached) fails state := by
  unfold Ends
  simp only [bind]
  rcases first state with ⟨_ | _, _⟩ <;> exact Iff.rfl

theorem ends_mono {run : Computation State Failure Value} {returns weaker : Value → State → Prop}
    {fails weakerFails : Failure → State → Prop} {state : State}
    (ends : Ends run returns fails state)
    (onReturn : ∀ value reached, returns value reached → weaker value reached)
    (onFail : ∀ failure reached, fails failure reached → weakerFails failure reached) :
    Ends run weaker weakerFails state := by
  revert ends
  unfold Ends
  rcases run state with ⟨_ | _, _⟩
  · exact onFail _ _
  · exact onReturn _ _

@[simp] theorem ends_ensuring {run : Computation State Failure Value} {cleanup : State → State}
    {returns : Value → State → Prop} {fails : Failure → State → Prop} {state : State} :
    Ends (ensuring run cleanup) returns fails state ↔
      Ends run (fun value reached => returns value (cleanup reached))
        (fun failure reached => fails failure (cleanup reached)) state := by
  unfold Ends ensuring
  rcases run state with ⟨_ | _, _⟩ <;> exact Iff.rfl

@[simp] theorem ends_on_failure {run : Computation State Failure Value} {cleanup : State → State}
    {returns : Value → State → Prop} {fails : Failure → State → Prop} {state : State} :
    Ends (onFailure run cleanup) returns fails state ↔
      Ends run returns (fun failure reached => fails failure (cleanup reached)) state := by
  unfold Ends onFailure
  rcases run state with ⟨_ | _, _⟩ <;> exact Iff.rfl

/-- The state keeps a property, whether the computation returns or fails. -/
structure Persists (property : State → Prop) (run : Computation State Failure Value) : Prop where
  keeps : ∀ state, property state → property (run state).2

variable {property : State → Prop}

theorem persists_pure (value : Value) :
    Persists property (pure value : Computation State Failure Value) :=
  ⟨fun _ holds => holds⟩

theorem persists_fail (failure : Failure) :
    Persists property (fail failure : Computation State Failure Value) :=
  ⟨fun _ holds => holds⟩

theorem persists_look : Persists property (look : Computation State Failure State) :=
  ⟨fun _ holds => holds⟩

theorem persists_change {update : State → State}
    (keeps : ∀ state, property state → property (update state)) :
    Persists property (change update : Computation State Failure Unit) :=
  ⟨keeps⟩

theorem persists_bind {first : Computation State Failure Value}
    {next : Value → Computation State Failure Result} (before : Persists property first)
    (after : ∀ value, Persists property (next value)) : Persists property (first >>= next) := by
  constructor
  intro state holds
  have reached := before.keeps state holds
  simp only [bind]
  revert reached
  rcases first state with ⟨_ | value, middle⟩
  · exact id
  · exact (after value).keeps middle

theorem persists_after_look {next : State → Computation State Failure Result}
    (after : ∀ state, Persists property (next state)) : Persists property (look >>= next) :=
  persists_bind persists_look after

theorem persists_after_change {update : State → State}
    {next : Unit → Computation State Failure Result}
    (keeps : ∀ state, property state → property (update state))
    (after : Persists property (next ())) : Persists property (change update >>= next) :=
  persists_bind (persists_change keeps) fun _ => after

theorem persists_ensuring {run : Computation State Failure Value} {cleanup : State → State}
    (before : Persists property run) (keeps : ∀ state, property state → property (cleanup state)) :
    Persists property (ensuring run cleanup) :=
  ⟨fun state holds => keeps _ (before.keeps state holds)⟩

theorem persists_on_failure {run : Computation State Failure Value} {cleanup : State → State}
    (before : Persists property run) (keeps : ∀ state, property state → property (cleanup state)) :
    Persists property (onFailure run cleanup) := by
  constructor
  intro state holds
  have reached := before.keeps state holds
  unfold onFailure
  revert reached
  rcases run state with ⟨_ | value, middle⟩
  · exact keeps middle
  · exact id

end Fhenomenon.Lib.Fallible
