import Fhenomenon.Lib.Fallible

/-!
# Auxiliary state

A computation may carry along what is known of its state. Forgetting that must
give the computation without it; what is shown of the richer run then holds of
the plain one.
-/

namespace Fhenomenon.Lib.Erasure

open Fhenomenon.Lib.Fallible

variable {State Plain Failure Value Result : Type}

/-- `plain` does to the forgotten state what `rich` does to the state. -/
def Erases (forget : State → Plain) (rich : Computation State Failure Value)
    (plain : Computation Plain Failure Value) : Prop :=
  ∀ state, plain (forget state) = ((rich state).1, forget (rich state).2)

variable {forget : State → Plain}

theorem erases_pure (value : Value) :
    Erases forget (pure value : Computation State Failure Value) (pure value) :=
  fun _ => rfl

theorem erases_fail (failure : Failure) :
    Erases forget (fail failure : Computation State Failure Value) (fail failure) :=
  fun _ => rfl

theorem erases_change {update : State → State} {plainUpdate : Plain → Plain}
    (same : ∀ state, plainUpdate (forget state) = forget (update state)) :
    Erases forget (change update : Computation State Failure Unit) (change plainUpdate) := by
  intro state
  rw [change_apply, change_apply, same]

theorem erases_bind {first : Computation State Failure Value}
    {next : Value → Computation State Failure Result} {plainFirst : Computation Plain Failure Value}
    {plainNext : Value → Computation Plain Failure Result}
    (before : Erases forget first plainFirst)
    (after : ∀ value, Erases forget (next value) (plainNext value)) :
    Erases forget (first >>= next) (plainFirst >>= plainNext) := by
  intro state
  have started := before state
  rcases ran : first state with ⟨failure | value, reached⟩
  · rw [ran] at started
    rw [bind_failed ran, bind_failed started]
  · rw [ran] at started
    rw [bind_returned ran, bind_returned started]
    exact after value reached

theorem erases_after_look {next : State → Computation State Failure Result}
    {plainNext : Plain → Computation Plain Failure Result}
    (after : ∀ state, Erases forget (next state) (plainNext (forget state))) :
    Erases forget (look >>= next) (look >>= plainNext) :=
  fun state => after state state

theorem erases_after_change {update : State → State} {plainUpdate : Plain → Plain}
    {next : Unit → Computation State Failure Result}
    {plainNext : Unit → Computation Plain Failure Result}
    (same : ∀ state, plainUpdate (forget state) = forget (update state))
    (after : Erases forget (next ()) (plainNext ())) :
    Erases forget (change update >>= next) (change plainUpdate >>= plainNext) :=
  erases_bind (erases_change same) fun _ => after

theorem erases_ensuring {run : Computation State Failure Value}
    {plainRun : Computation Plain Failure Value} {cleanup : State → State}
    {plainCleanup : Plain → Plain} (before : Erases forget run plainRun)
    (same : ∀ state, plainCleanup (forget state) = forget (cleanup state)) :
    Erases forget (ensuring run cleanup) (ensuring plainRun plainCleanup) := by
  intro state
  rw [ensuring, ensuring, before state, same]

theorem erases_on_failure {run : Computation State Failure Value}
    {plainRun : Computation Plain Failure Value} {cleanup : State → State}
    {plainCleanup : Plain → Plain} (before : Erases forget run plainRun)
    (same : ∀ state, plainCleanup (forget state) = forget (cleanup state)) :
    Erases forget (onFailure run cleanup) (onFailure plainRun plainCleanup) := by
  intro state
  have started := before state
  unfold onFailure
  rw [started]
  rcases run state with ⟨failure | value, reached⟩
  · exact Prod.ext rfl (same reached)
  · rfl

theorem erases_each {Item : Type} {act : Item → Computation State Failure Unit}
    {plainAct : Item → Computation Plain Failure Unit}
    (step : ∀ item, Erases forget (act item) (plainAct item)) (items : List Item) :
    Erases forget (each act items) (each plainAct items) := by
  induction items with
  | nil => exact erases_pure ()
  | cons item rest induction => exact erases_bind (step item) fun _ => induction

theorem erases_ite {condition : Prop} [Decidable condition]
    {first second : Computation State Failure Value}
    {plainFirst plainSecond : Computation Plain Failure Value}
    (yes : Erases forget first plainFirst) (no : Erases forget second plainSecond) :
    Erases forget (if condition then first else second)
      (if condition then plainFirst else plainSecond) := by
  split
  · exact yes
  · exact no

/-- A plain run that returns is the shadow of a richer one. -/
theorem returned_of_erases {rich : Computation State Failure Value}
    {plain : Computation Plain Failure Value} (erases : Erases forget rich plain) {state : State}
    {value : Value} {last : Plain} (returned : plain (forget state) = (.ok value, last)) :
    ∃ final, rich state = (.ok value, final) ∧ forget final = last := by
  rw [erases state] at returned
  obtain ⟨same, final⟩ := Prod.mk.inj returned
  exact ⟨(rich state).2, Prod.ext same rfl, final⟩

end Fhenomenon.Lib.Erasure
