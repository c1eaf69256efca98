import Fhenomenon.RecordingFrame
import Fhenomenon.SessionRefinement

/-!
# The store behind a recording

At every point of a recording its operations, run one after another on the
values the objects were given, define a store. Recording a sum or a product adds
the value of its new result; recording an assignment overwrites one entry.
-/

namespace Fhenomenon.RecordedStore

open Fhenomenon.Lib.Fallible Fhenomenon.DefaultExecutor Fhenomenon.DeviceAbi
open Fhenomenon.RecordedGraph Fhenomenon.RecordedMeaning Fhenomenon.GraphSimulation
open Fhenomenon.SessionRuntime Fhenomenon.SessionRefinement Fhenomenon.Recording
open Fhenomenon.EntityMap Fhenomenon.RecordingSteps Fhenomenon.SessionBodies
open Fhenomenon.RecordingFrame

section Operations

variable {Entity Ptr V : Type*} [DecidableEq Entity] [Add V] [Mul V]

theorem run_operations_append (operations : List (Operation Entity)) (operation : Operation Entity)
    (store : Entity → V) :
    runOperations (operations ++ [operation]) store =
      runOperation (runOperations operations store) operation := by
  rw [runOperations, List.foldl_append]
  rfl

theorem run_operation_agree {first second : Entity → V} {known : Entity → Prop}
    (agree : ∀ entity, known entity → first entity = second entity)
    {operation : Operation Entity} (operand1 : known operation.operand1)
    (operand2 : known operation.operand2) (entity : Entity) (member : known entity) :
    runOperation first operation entity = runOperation second operation entity := by
  have one := agree _ operand1
  have two := agree _ operand2
  have other := agree entity member
  cases kind : operation.type <;> cases named : operation.result <;>
    simp only [runOperation, kind, named, Function.update_apply, one, two, other]

theorem run_operations_agree {known : Entity → Prop} (operations : List (Operation Entity))
    (operands : ∀ operation ∈ operations, known operation.operand1 ∧ known operation.operand2)
    {first second : Entity → V} (agree : ∀ entity, known entity → first entity = second entity)
    (entity : Entity) (member : known entity) :
    runOperations operations first entity = runOperations operations second entity := by
  induction operations generalizing first second with
  | nil => exact agree entity member
  | cons operation rest induction =>
      obtain ⟨operand1, operand2⟩ := operands operation List.mem_cons_self
      apply induction (fun other later => operands other (List.mem_cons_of_mem _ later))
      intro other known
      exact run_operation_agree agree operand1 operand2 other known

theorem run_operations_other {entity : Entity} (operations : List (Operation Entity))
    (unwritten : ∀ operation ∈ operations,
      entity ≠ operation.operand1 ∧ operation.result ≠ some entity) (store : Entity → V) :
    runOperations operations store entity = store entity := by
  induction operations generalizing store with
  | nil => rfl
  | cons operation rest induction =>
      obtain ⟨notTarget, notResult⟩ := unwritten operation List.mem_cons_self
      have after := induction (fun other later => unwritten other (List.mem_cons_of_mem _ later))
        (runOperation store operation)
      have kept : runOperation store operation entity = store entity := by
        cases kind : operation.type <;> cases named : operation.result with
        | none => simp [runOperation, kind, named, notTarget]
        | some result =>
            have different : entity ≠ result := by
              intro same
              rw [same] at notResult
              exact notResult named
            simp [runOperation, kind, named, notTarget, different]
      exact after.trans kept

omit [DecidableEq Entity] [Add V] [Mul V] in
theorem produced_append (operations more : List (Operation Entity)) :
    produced (operations ++ more) = produced operations ++ produced more :=
  List.filterMap_append

omit [DecidableEq Entity] [Add V] [Mul V] in
theorem fresh_results_append {operations : List (Operation Entity)}
    (fresh : FreshResults operations) (operation : Operation Entity)
    (unread : ∀ result, operation.result = some result →
      ∀ other ∈ operations ++ [operation], other.operand1 ≠ result ∧ other.operand2 ≠ result) :
    FreshResults (operations ++ [operation]) := by
  have absent (entity : Entity) (different : ∀ result, operation.result = some result →
      entity ≠ result) : entity ∉ produced [operation] := by
    intro member
    obtain ⟨other, single, named⟩ := List.mem_filterMap.mp member
    rw [List.mem_singleton] at single
    rw [single] at named
    exact different entity named rfl
  induction operations with
  | nil =>
      have own := fun result named => unread result named operation (List.mem_singleton_self _)
      exact ⟨absent _ fun result named => (own result named).1,
        absent _ fun result named => (own result named).2, trivial⟩
  | cons head rest induction =>
      obtain ⟨first, second, later⟩ := fresh
      have own := fun result named => unread result named head List.mem_cons_self
      refine ⟨?_, ?_, induction later fun result named other member =>
        unread result named other (List.mem_cons_of_mem _ member)⟩
      · have split := produced_append (head :: rest) [operation]
        rw [List.cons_append] at split
        rw [List.append_eq, split, List.mem_append, not_or]
        exact ⟨first, absent _ fun result named => (own result named).1⟩
      · have split := produced_append (head :: rest) [operation]
        rw [List.cons_append] at split
        rw [List.append_eq, split, List.mem_append, not_or]
        exact ⟨second, absent _ fun result named => (own result named).2⟩

end Operations

variable {Address Ptr Profile σ V κ : Type} [DecidableEq Address] [Add V] [Mul V] [IntCast V]
  {model : DeviceModel Ptr σ V κ} {hooks : FhnMovementHooks Ptr σ} {backend : Nat}
  {host : Host Address Ptr Profile σ} {state later last : State Address Ptr Profile σ}
  {outer : Address → Prop} {values : Address → V}

/-- What an object holds before any operation: the caller's value of a variable, the literal
of an object that the session made. -/
def startValue (values : Address → V) (state : State Address Ptr Profile σ) (address : Address) :
    V :=
  if (state.objects address).shared || (state.objects address).isScalar then
    (((state.objects address).val : Int) : V)
  else values address

def store (values : Address → V) (state : State Address Ptr Profile σ) : Address → V :=
  runOperations state.session.operations (startValue values state)

omit [DecidableEq Address] [Add V] [Mul V] in
theorem start_value_extends (extended : Extends state later) {address : Address}
    (alive : address ∈ state.live) :
    startValue values later address = startValue values state address := by
  rw [startValue, extended.objects address alive]
  rfl

theorem store_agrees (active : Active state) (extended : Extends state later) {address : Address}
    (alive : address ∈ state.live) :
    runOperations state.session.operations (startValue values later) address =
      store values state address := by
  apply run_operations_agree _ ?_ ?_ _ alive
  · intro operation member
    have kept := active.sound.operands operation member
    exact ⟨(kept _ (Or.inl rfl)).alive, (kept _ (Or.inr (Or.inl rfl))).alive⟩
  · intro entity member
    exact start_value_extends extended member

theorem store_extends (active : Active state) (extended : Extends state later)
    (operations : later.session.operations = state.session.operations) {address : Address}
    (alive : address ∈ state.live) : store values later address = store values state address := by
  rw [store, operations]
  exact store_agrees active extended alive

theorem store_recorded (active : Active state) (extended : Extends state later)
    {operation : Operation Address}
    (operations : later.session.operations = state.session.operations ++ [operation])
    (operand1 : operation.operand1 ∈ state.live) (operand2 : operation.operand2 ∈ state.live)
    {address : Address} (alive : address ∈ state.live) :
    store values later address = runOperation (store values state) operation address := by
  rw [store, operations, run_operations_append]
  apply run_operation_agree ?_ operand1 operand2 _ alive
  intro entity member
  exact store_agrees active extended member

/-- The value is a variable of the caller or the result of an operation. -/
def Sourced (outer : Address → Prop) (state : State Address Ptr Profile σ) (address : Address) :
    Prop :=
  outer address ∨ address ∈ produced state.session.operations

/-- The recording is well formed, and whatever it reads without producing it has a buffer with
its start value. -/
structure Grounded (model : DeviceModel Ptr σ V κ) (hooks : FhnMovementHooks Ptr σ)
    (backend : Nat) (outer : Address → Prop) (values : Address → V)
    (state : State Address Ptr Profile σ) : Prop where
  recorded : Recorded (runState state).entities state.session.operations
  supplied : ∀ address,
    outer address ∨ (Mentions state.session.operations address ∧
      address ∉ produced state.session.operations) →
        Supplies model hooks backend state.world (state.objects address).toFhenon
          (startValue values state address)
  plain : ∀ address, outer address → (state.objects address).isScalar = false

/-- Live buffers stay as they are. -/
def KeepsCells (model : DeviceModel Ptr σ V κ) (world after : σ) : Prop :=
  ∀ buffer cell, model.cell world buffer = some cell → model.cell after buffer = some cell

omit [Add V] [Mul V] [IntCast V] [DecidableEq Address] in
theorem supplies_kept {world after : σ} {entity : Fhenon Ptr} {value : V}
    (keeps : KeepsCells model world after)
    (supplies : Supplies model hooks backend world entity value) :
    Supplies model hooks backend after entity value := by
  obtain ⟨ciphertext, buffer, cell, encrypted, raw, live, contents, device⟩ := supplies
  exact ⟨ciphertext, buffer, cell, encrypted, raw, keeps buffer cell live, contents, device⟩

omit [DecidableEq Address] in
theorem mentioned_alive (active : Active state) {address : Address}
    (mentions : Mentions state.session.operations address) : address ∈ state.live := by
  obtain ⟨operation, member, same | same⟩ := mentions
  · rw [same]
    exact (active.sound.operands operation member _ (Or.inl rfl)).alive
  · rw [same]
    exact (active.sound.operands operation member _ (Or.inr (Or.inl rfl))).alive

omit [DecidableEq Address] in
theorem produced_alive (active : Active state) {address : Address}
    (member : address ∈ produced state.session.operations) : address ∈ state.live := by
  obtain ⟨operation, listed, named⟩ := List.mem_filterMap.mp member
  exact (active.sound.operands operation listed _ (Or.inr (Or.inr named))).alive

omit [DecidableEq Address] [Add V] [Mul V] in
theorem supplied_later (grounded : Grounded model hooks backend outer values state)
    (extended : Extends state later) (keeps : KeepsCells model state.world later.world)
    {address : Address} (alive : address ∈ state.live)
    (source : outer address ∨ (Mentions state.session.operations address ∧
      address ∉ produced state.session.operations)) :
    Supplies model hooks backend later.world (later.objects address).toFhenon
      (startValue values later address) := by
  rw [extended.objects address alive, start_value_extends extended alive]
  exact supplies_kept keeps (grounded.supplied address source)

omit [DecidableEq Address] [Add V] [Mul V] in
theorem grounded_extends (grounded : Grounded model hooks backend outer values state)
    (ongoing : Ongoing outer state) (extended : Extends state later)
    (operations : later.session.operations = state.session.operations)
    (keeps : KeepsCells model state.world later.world) :
    Grounded model hooks backend outer values later where
  recorded := by
    have active := ongoing.active
    rw [operations]
    refine ⟨grounded.recorded.kinds, grounded.recorded.fresh, ?_⟩
    intro operation member
    have kept := active.sound.operands operation member
    obtain ⟨first, results⟩ := grounded.recorded.scalarsSecond operation member
    constructor
    · simp only [runState, extended.objects _ (kept _ (Or.inl rfl)).alive]
      exact first
    · intro result named
      simp only [runState, extended.objects _ (kept _ (Or.inr (Or.inr named))).alive]
      exact results result named
  supplied := by
    intro address source
    rw [operations] at source
    have alive : address ∈ state.live := by
      rcases source with caller | ⟨mentions, -⟩
      · exact (ongoing.outerAlive address caller).1
      · exact mentioned_alive ongoing.active mentions
    exact supplied_later grounded extended keeps alive source
  plain := by
    intro address caller
    rw [extended.objects address (ongoing.outerAlive address caller).1]
    exact grounded.plain address caller

omit [DecidableEq Address] [Add V] [Mul V] in
theorem sourced_plain (grounded : Grounded model hooks backend outer values state)
    {address : Address} (sourced : Sourced outer state address) :
    (state.objects address).isScalar = false := by
  rcases sourced with caller | member
  · exact grounded.plain address caller
  · obtain ⟨operation, listed, named⟩ := List.mem_filterMap.mp member
    exact (grounded.recorded.scalarsSecond operation listed).2 address named

omit [DecidableEq Address] [Add V] [Mul V] in
/-- One more operation: its first operand is a variable or a result, its second one has a value,
and its result is new. -/
theorem grounded_recorded (grounded : Grounded model hooks backend outer values state)
    (ongoing : Ongoing outer state) (extended : Extends state later)
    (keeps : KeepsCells model state.world later.world) {operation : Operation Address}
    (operations : later.session.operations = state.session.operations ++ [operation])
    (kind : RecordedKind operation) (operand1 : operation.operand1 ∈ state.live)
    (operand2 : operation.operand2 ∈ state.live)
    (first : Sourced outer state operation.operand1)
    (second : Sourced outer state operation.operand2 ∨
      Supplies model hooks backend state.world (state.objects operation.operand2).toFhenon
        (startValue values state operation.operand2))
    (result : ∀ address, operation.result = some address →
      address ∉ state.live ∧ (later.objects address).isScalar = false) :
    Grounded model hooks backend outer values later where
  recorded := by
    have active := ongoing.active
    rw [operations]
    refine ⟨?_, fresh_results_append grounded.recorded.fresh operation ?_, ?_⟩
    · intro other member
      rcases List.mem_append.mp member with before | new
      · exact grounded.recorded.kinds other before
      · rw [List.mem_singleton] at new
        rw [new]
        exact kind
    · intro address named other member
      have dead := (result address named).1
      have alive : other.operand1 ∈ state.live ∧ other.operand2 ∈ state.live := by
        rcases List.mem_append.mp member with before | new
        · have kept := active.sound.operands other before
          exact ⟨(kept _ (Or.inl rfl)).alive, (kept _ (Or.inr (Or.inl rfl))).alive⟩
        · rw [List.mem_singleton] at new
          rw [new]
          exact ⟨operand1, operand2⟩
      constructor
      · intro same
        exact dead (same ▸ alive.1)
      · intro same
        exact dead (same ▸ alive.2)
    · intro other member
      rcases List.mem_append.mp member with before | new
      · have kept := active.sound.operands other before
        obtain ⟨one, results⟩ := grounded.recorded.scalarsSecond other before
        constructor
        · simp only [runState, extended.objects _ (kept _ (Or.inl rfl)).alive]
          exact one
        · intro address named
          simp only [runState, extended.objects _ (kept _ (Or.inr (Or.inr named))).alive]
          exact results address named
      · rw [List.mem_singleton] at new
        rw [new]
        constructor
        · simp only [runState, extended.objects _ operand1]
          exact sourced_plain grounded first
        · intro address named
          exact (result address named).2
  supplied := by
    intro address source
    rw [operations] at source
    rcases source with caller | ⟨⟨other, member, reads⟩, unproduced⟩
    · exact supplied_later grounded extended keeps (ongoing.outerAlive address caller).1
        (Or.inl caller)
    · rw [produced_append, List.mem_append, not_or] at unproduced
      rcases List.mem_append.mp member with before | new
      · have mentions : Mentions state.session.operations address := ⟨other, before, reads⟩
        exact supplied_later grounded extended keeps (mentioned_alive ongoing.active mentions)
          (Or.inr ⟨mentions, unproduced.1⟩)
      · rw [List.mem_singleton] at new
        rw [new] at reads
        have fromSource (sourced : Sourced outer state address) (alive : address ∈ state.live) :
            Supplies model hooks backend later.world (later.objects address).toFhenon
              (startValue values later address) := by
          rcases sourced with caller | made
          · exact supplied_later grounded extended keeps alive (Or.inl caller)
          · exact absurd made unproduced.1
        rcases reads with same | same
        · rw [← same] at first operand1
          exact fromSource first operand1
        · rw [← same] at second operand2
          rcases second with sourced | supplies
          · exact fromSource sourced operand2
          · rw [extended.objects address operand2, start_value_extends extended operand2]
            exact supplies_kept keeps supplies
  plain := by
    intro address caller
    rw [extended.objects address (ongoing.outerAlive address caller).1]
    exact grounded.plain address caller

end Fhenomenon.RecordedStore
