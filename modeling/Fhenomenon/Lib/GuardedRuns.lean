import Mathlib

/-!
# Runs whose steps are guarded

A partial step function, what holds of every state a run reaches, and what holds
of every step it takes. When an invariant implies the property, is kept by every
guarded step, and an unguarded step loses the property at once, then the
property holds throughout a run exactly when every step of it is guarded.
-/

namespace Fhenomenon.Lib.GuardedRuns

variable {State Event : Type*}

/-- `holds` is true of every state that the events reach. -/
def Always (step : Event → State → Option State) (holds : State → Prop) :
    List Event → State → Prop
  | [], state => holds state
  | event :: rest, state =>
      holds state ∧ ∀ next, step event state = some next → Always step holds rest next

/-- `guard` is true of every step that the events take. -/
def Guarded (step : Event → State → Option State) (guard : Event → State → Prop) :
    List Event → State → Prop
  | [], _ => True
  | event :: rest, state =>
      ∀ next, step event state = some next → guard event state ∧ Guarded step guard rest next

theorem always_holds {step : Event → State → Option State} {holds : State → Prop}
    {events : List Event} {state : State} (always : Always step holds events state) :
    holds state := by
  cases events with
  | nil => exact always
  | cons event rest => exact always.1

/-- What an invariant of guarded steps gives for whole runs, and back. -/
theorem always_iff_guarded {step : Event → State → Option State} {holds : State → Prop}
    {guard : Event → State → Prop} {invariant : State → Prop}
    (implies : ∀ state, invariant state → holds state)
    (kept : ∀ event state next, invariant state → step event state = some next →
      guard event state → invariant next)
    (lost : ∀ event state next, invariant state → step event state = some next →
      ¬guard event state → ¬holds next)
    (events : List Event) (state : State) (start : invariant state) :
    Always step holds events state ↔ Guarded step guard events state := by
  induction events generalizing state with
  | nil => exact ⟨fun _ => trivial, fun _ => implies state start⟩
  | cons event rest induction =>
      constructor
      · intro always next stepped
        have guarded : guard event state := by
          by_contra unguarded
          exact lost event state next start stepped unguarded
            (always_holds (always.2 next stepped))
        exact ⟨guarded, (induction next (kept event state next start stepped guarded)).mp
          (always.2 next stepped)⟩
      · intro guarded
        refine ⟨implies state start, ?_⟩
        intro next stepped
        obtain ⟨allowed, later⟩ := guarded next stepped
        exact (induction next (kept event state next start stepped allowed)).mpr later

/-- The half that needs no invariant to be lost. -/
theorem always_of_guarded {step : Event → State → Option State} {holds : State → Prop}
    {guard : Event → State → Prop} {invariant : State → Prop}
    (implies : ∀ state, invariant state → holds state)
    (kept : ∀ event state next, invariant state → step event state = some next →
      guard event state → invariant next)
    (events : List Event) (state : State) (start : invariant state)
    (guarded : Guarded step guard events state) : Always step holds events state := by
  induction events generalizing state with
  | nil => exact implies state start
  | cons event rest induction =>
      refine ⟨implies state start, ?_⟩
      intro next stepped
      obtain ⟨allowed, later⟩ := guarded next stepped
      exact induction next (kept event state next start stepped allowed) later

theorem guarded_trivial (step : Event → State → Option State) (events : List Event)
    (state : State) : Guarded step (fun _ _ => True) events state := by
  induction events generalizing state with
  | nil => trivial
  | cons event rest induction => exact fun next _ => ⟨trivial, induction next⟩

end Fhenomenon.Lib.GuardedRuns
