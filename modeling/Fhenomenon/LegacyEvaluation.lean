import Fhenomenon.Lib.Fallible
import Fhenomenon.PrintedGraphs
import Fhenomenon.SessionRefinement

/-!
# Legacy evaluation

`ASTNode::evaluate`, `Operation::execute` and `Scheduler::evaluateGraph`, the path
of a backend without an FHN runtime. Operations change the entities in place, one
after another in recording order.
-/

namespace Fhenomenon.LegacyEvaluation

open Fhenomenon.Lib.Fallible Fhenomenon.RecordedGraph Fhenomenon.NodeGraphs
open Fhenomenon.PrintedGraphs Fhenomenon.RecordedMeaning Fhenomenon.DeviceAbi
open Fhenomenon.SessionRefinement Fhenomenon.GraphSimulation

/-- `evaluated` holds the flags of the nodes, `executed` the operations run so far. -/
structure LegacyState (Entity Ptr σ : Type) where
  entities : Entity → Fhenon Ptr
  world : σ
  evaluated : Nat → Bool := fun _ => false
  executed : List (Operation Entity) := []

/-- `nullEntity` is a null pointer that the source dereferences. -/
inductive LegacyFailure
  | thrown (message : String)
  | nullEntity
deriving DecidableEq

abbrev Evaluation (Entity Ptr σ Value : Type) :=
  Computation (LegacyState Entity Ptr σ) LegacyFailure Value

/-- The backend delegate and the session's map. `none` in a result is a null pointer;
`transform` encrypts its first entity with the profile of the second, if there is
one; `fused` is `FusedKernelNode::evaluate`. -/
structure Delegate (Entity Ptr σ : Type) where
  add : Fhenon Ptr → Fhenon Ptr → σ → Except String (Option (Fhenon Ptr)) × σ
  multiply : Fhenon Ptr → Fhenon Ptr → σ → Except String (Option (Fhenon Ptr)) × σ
  transform : Fhenon Ptr → Fhenon Ptr → σ → Except String (Fhenon Ptr) × σ
  getEntity : Entity → Option Entity
  fused : Nat → Evaluation Entity Ptr σ Unit

variable {Entity Ptr σ : Type} [DecidableEq Entity]

namespace LegacyState

def setEntity (entity : Entity) (record : Fhenon Ptr) (state : LegacyState Entity Ptr σ) :
    LegacyState Entity Ptr σ :=
  { state with entities := Function.update state.entities entity record }

omit [DecidableEq Entity] in
def mark (address : Nat) (state : LegacyState Entity Ptr σ) : LegacyState Entity Ptr σ :=
  { state with evaluated := Function.update state.evaluated address true }

omit [DecidableEq Entity] in
def log (operation : Operation Entity) (state : LegacyState Entity Ptr σ) :
    LegacyState Entity Ptr σ :=
  { state with executed := state.executed ++ [operation] }

end LegacyState

/-- The value and, of an encrypted record, the ciphertext. -/
def copied (target source : Fhenon Ptr) : Fhenon Ptr :=
  if source.isEncrypted ∧ source.ciphertext.isSome then
    { target with val := source.val, ciphertext := source.ciphertext, isEncrypted := true }
  else { target with val := source.val }

def executeAssignment (delegate : Delegate Entity Ptr σ) (operation : Operation Entity) :
    Evaluation Entity Ptr σ Unit :=
  fun state =>
    match delegate.getEntity operation.operand1 with
    | none => (.error .nullEntity, state)
    | some target =>
        let source := state.entities operation.operand2
        let assigned := state.setEntity target (copied (state.entities target) source)
        if source.isEncrypted ∧ source.ciphertext = none then
          let encrypted := delegate.transform (assigned.entities target) source state.world
          match encrypted.1 with
          | .error message => (.error (.thrown message), { assigned with world := encrypted.2 })
          | .ok record =>
              (.ok (), { assigned.setEntity target record with world := encrypted.2 })
        else (.ok (), assigned)

/-- An addition or a multiplication: `operator` is the delegate's, `name` its name. -/
def executeCombination (delegate : Delegate Entity Ptr σ)
    (operator : Fhenon Ptr → Fhenon Ptr → σ → Except String (Option (Fhenon Ptr)) × σ)
    (name : String) (operation : Operation Entity) : Evaluation Entity Ptr σ Unit :=
  fun state =>
    match operation.result with
    | none => (.error .nullEntity, state)
    | some result =>
        let combined := operator (state.entities operation.operand1)
          (state.entities operation.operand2) state.world
        let reached := { state with world := combined.2 }
        match combined.1 with
        | .error message => (.error (.thrown message), reached)
        | .ok none => (.error (.thrown ("Backend::" ++ name ++ " returned nullptr")), reached)
        | .ok (some record) =>
            match delegate.getEntity result with
            | none => (.error .nullEntity, reached)
            | some target =>
                (.ok (), reached.setEntity target (copied (state.entities target) record))

/-- `Operation::execute` -/
def execute (delegate : Delegate Entity Ptr σ) (operation : Operation Entity) :
    Evaluation Entity Ptr σ Unit :=
  match operation.type with
  | .assignment => executeAssignment delegate operation
  | .refresh => pure ()
  | .add => executeCombination delegate delegate.add "add" operation
  | .multiply => executeCombination delegate delegate.multiply "multiply" operation
  | _ => fail (.thrown "Invalid operation")

def evaluate (delegate : Delegate Entity Ptr σ) : ASTNode Entity → Evaluation Entity Ptr σ Unit
  | .operand address _ => do
      let state ← look
      if state.evaluated address then pure () else change (LegacyState.mark address)
  | .operator address operation _ left right _ => do
      let state ← look
      if state.evaluated address then pure ()
      else
        evaluate delegate left
        evaluate delegate right
        execute delegate operation
        change fun state => (state.log operation).mark address
  | .unary address operation _ left _ => do
      let state ← look
      if state.evaluated address then pure ()
      else
        evaluate delegate left
        execute delegate operation
        change fun state => (state.log operation).mark address
  | .fused address => delegate.fused address

def evaluateGraph (delegate : Delegate Entity Ptr σ) (roots : List (ASTNode Entity)) :
    Evaluation Entity Ptr σ Unit :=
  if roots.isEmpty then fail (.thrown "No roots available for evaluation.")
  else each (evaluate delegate) roots

/-- `Session::optimize` for a backend without a runtime. -/
def optimizeLegacy (delegate : Delegate Entity Ptr σ) (poison : Option String)
    (operations : List (Operation Entity)) : Evaluation Entity Ptr σ Unit := do
  let state ← look
  match poison with
  | some reason => fail (.thrown reason)
  | none =>
      if operations.isEmpty then pure ()
      else
        match buildAST state.entities operations with
        | .error message => fail (.thrown message)
        | .ok roots => evaluateGraph delegate roots

variable {V κ : Type*} {model : DeviceModel Ptr σ V κ} {delegate : Delegate Entity Ptr σ}

/-- The call returns a new record that holds `value`; what other records hold stays. -/
def Produces (model : DeviceModel Ptr σ V κ) (world : σ)
    (outcome : Except String (Option (Fhenon Ptr)) × σ) (value : V) : Prop :=
  ∃ record last, outcome = (.ok (some record), last) ∧ heldValue model last record = some value ∧
    ∀ other held, heldValue model world other = some held → heldValue model last other = some held

/-- `add` and `multiply` compute exactly `+` and `*`. A scalar second operand holds
its plain value. -/
structure ExactDelegate [Add V] [Mul V] [IntCast V] (model : DeviceModel Ptr σ V κ)
    (delegate : Delegate Entity Ptr σ) : Prop where
  add : ∀ first second world x y, heldValue model world first = some x →
    heldValue model world second = some y → (second.isScalar = true → y = (second.val : V)) →
      Produces model world (delegate.add first second world) (x + y)
  multiply : ∀ first second world x y, heldValue model world first = some x →
    heldValue model world second = some y → (second.isScalar = true → y = (second.val : V)) →
      Produces model world (delegate.multiply first second world) (x * y)

variable {state : LegacyState Entity Ptr σ}

omit [DecidableEq Entity] in
theorem held_ciphertext {world : σ} {record : Fhenon Ptr} {value : V}
    (held : heldValue model world record = some value) :
    record.isEncrypted = true ∧ record.ciphertext.isSome = true := by
  rw [heldValue] at held
  split at held
  · rename_i encrypted
    refine ⟨encrypted, ?_⟩
    cases stored : record.ciphertext with
    | none =>
        rw [stored] at held
        cases held
    | some ciphertext => rfl
  · cases held

omit [DecidableEq Entity] in
theorem copied_held {world : σ} (target : Fhenon Ptr) {source : Fhenon Ptr} {value : V}
    (held : heldValue model world source = some value) :
    heldValue model world (copied target source) = some value := by
  have both := held_ciphertext held
  rw [copied, if_pos both, ← held, heldValue, heldValue, if_pos rfl, if_pos both.1]

omit [DecidableEq Entity] in
theorem copied_scalar (target source : Fhenon Ptr) :
    (copied target source).isScalar = target.isScalar := by
  rw [copied]
  split
  · rfl
  · rfl

/-- `value` was written to `target`, and what other records hold was kept. -/
structure Writes (model : DeviceModel Ptr σ V κ) (state reached : LegacyState Entity Ptr σ)
    (target : Entity) (value : V) : Prop where
  written : heldValue model reached.world (reached.entities target) = some value
  plain : (reached.entities target).isScalar = (state.entities target).isScalar
  kept : ∀ entity, entity ≠ target → reached.entities entity = state.entities entity
  held : ∀ record value, heldValue model state.world record = some value →
    heldValue model reached.world record = some value

theorem assignment_writes (operation : Operation Entity)
    (registered : delegate.getEntity operation.operand1 = some operation.operand1) {value : V}
    (held : heldValue model state.world (state.entities operation.operand2) = some value) :
    ∃ reached, executeAssignment delegate operation state = (.ok (), reached) ∧
      reached.evaluated = state.evaluated ∧ reached.executed = state.executed ∧
      Writes model state reached operation.operand1 value := by
  obtain ⟨-, stored⟩ := held_ciphertext held
  have complete : ¬((state.entities operation.operand2).isEncrypted = true ∧
      (state.entities operation.operand2).ciphertext = none) := by
    intro missing
    rw [missing.2] at stored
    cases stored
  refine ⟨state.setEntity operation.operand1 (copied (state.entities operation.operand1)
    (state.entities operation.operand2)), ?_, rfl, rfl, ?_, ?_, ?_, fun _ _ same => same⟩
  · simp only [executeAssignment, registered, if_neg complete]
  · simp only [LegacyState.setEntity, Function.update_self]
    exact copied_held _ held
  · simp only [LegacyState.setEntity, Function.update_self]
    exact copied_scalar _ _
  · intro entity different
    exact Function.update_of_ne different _ _

theorem combination_writes
    (operator : Fhenon Ptr → Fhenon Ptr → σ → Except String (Option (Fhenon Ptr)) × σ)
    (name : String) (operation : Operation Entity) {result : Entity}
    (named : operation.result = some result)
    (registered : delegate.getEntity result = some result) {value : V}
    (produces : Produces model state.world (operator (state.entities operation.operand1)
      (state.entities operation.operand2) state.world) value) :
    ∃ reached, executeCombination delegate operator name operation state = (.ok (), reached) ∧
      reached.evaluated = state.evaluated ∧ reached.executed = state.executed ∧
      Writes model state reached result value := by
  obtain ⟨record, last, outcome, held, others⟩ := produces
  refine ⟨LegacyState.setEntity result (copied (state.entities result) record)
    { state with world := last }, ?_, rfl, rfl, ?_, ?_, ?_, others⟩
  · simp only [executeCombination, named, outcome, registered]
  · simp only [LegacyState.setEntity, Function.update_self]
    exact copied_held _ held
  · simp only [LegacyState.setEntity, Function.update_self]
    exact copied_scalar _ _
  · intro entity different
    exact Function.update_of_ne different _ _

variable [Add V] [Mul V] [IntCast V]

theorem execute_writes (exact : ExactDelegate model delegate) {operation : Operation Entity}
    (state : LegacyState Entity Ptr σ) (kind : RecordedKind operation) {store : Entity → V}
    (registered : ∀ entity, written operation = some entity →
      delegate.getEntity entity = some entity)
    (first : heldValue model state.world (state.entities operation.operand1) =
      some (store operation.operand1))
    (second : heldValue model state.world (state.entities operation.operand2) =
      some (store operation.operand2))
    (scalar : (state.entities operation.operand2).isScalar = true →
      store operation.operand2 = ((state.entities operation.operand2).val : V)) :
    ∃ target reached, written operation = some target ∧
      execute delegate operation state = (.ok (), reached) ∧
      reached.evaluated = state.evaluated ∧ reached.executed = state.executed ∧
      Writes model state reached target (runOperation store operation target) ∧
      ∀ entity, entity ≠ target → runOperation store operation entity = store entity := by
  rcases kind with ⟨type, unnamed⟩ | ⟨type, named⟩
  · have target : written operation = some operation.operand1 := by
      rw [written, if_pos type]
    obtain ⟨reached, ran, flags, log, writes⟩ :=
      assignment_writes operation (registered _ target) second
    have runs : runOperation store operation =
        Function.update store operation.operand1 (store operation.operand2) := by
      rw [runOperation, type]
    rw [runs]
    refine ⟨_, reached, target, ?_, flags, log, ?_, ?_⟩
    · rw [execute, type]
      exact ran
    · rw [Function.update_self]
      exact writes
    · intro entity different
      exact Function.update_of_ne different _ _
  · obtain ⟨result, named⟩ := Option.isSome_iff_exists.mp named
    have target : written operation = some result := by
      rw [written, named]
      rcases type with add | multiply
      · rw [add]
        rfl
      · rw [multiply]
        rfl
    rw [run_combination store operation type result named]
    have others : ∀ entity, entity ≠ result → Function.update store result
        (combine operation.type (store operation.operand1) (store operation.operand2)) entity =
          store entity := fun entity different => Function.update_of_ne different _ _
    rcases type with add | multiply
    · obtain ⟨reached, ran, flags, log, writes⟩ :=
        combination_writes delegate.add "add" operation named (registered _ target)
          (exact.add _ _ _ _ _ first second scalar)
      refine ⟨result, reached, target, ?_, flags, log, ?_, others⟩
      · rw [execute, add]
        exact ran
      · rw [Function.update_self, combine, if_pos add]
        exact writes
    · obtain ⟨reached, ran, flags, log, writes⟩ :=
        combination_writes delegate.multiply "multiply" operation named (registered _ target)
          (exact.multiply _ _ _ _ _ first second scalar)
      refine ⟨result, reached, target, ?_, flags, log, ?_, others⟩
      · rw [execute, multiply]
        exact ran
      · rw [Function.update_self, combine, if_neg (by rw [multiply]; decide)]
        exact writes

omit [Add V] [Mul V] [IntCast V] in
theorem evaluate_seen (delegate : Delegate Entity Ptr σ) (node : ASTNode Entity)
    (state : LegacyState Entity Ptr σ) (seen : isOperand node = true ∨
      (state.evaluated node.address = true ∧ isFused node = false)) :
    ∃ flags, evaluate delegate node state = (.ok (), { state with evaluated := flags }) ∧
      (∀ address, state.evaluated address = true → flags address = true) ∧
      ∀ address, flags address = true →
        state.evaluated address = true ∨ address = node.address := by
  have still : ∃ flags, ((.ok (), state) : Except LegacyFailure Unit × LegacyState Entity Ptr σ) =
      (.ok (), { state with evaluated := flags }) ∧
      (∀ address, state.evaluated address = true → flags address = true) ∧
      ∀ address, flags address = true → state.evaluated address = true ∨ address = node.address :=
    ⟨state.evaluated, rfl, fun _ same => same, fun _ same => Or.inl same⟩
  cases node with
  | operand address entity =>
      by_cases marked : state.evaluated address = true
      · simp only [evaluate, bind_look_apply, if_pos marked, pure_apply]
        exact still
      · simp only [evaluate, bind_look_apply, if_neg marked, change_apply]
        refine ⟨_, rfl, ?_, ?_⟩
        · intro other same
          by_cases equal : other = address
          · rw [equal, Function.update_self]
          · rw [Function.update_of_ne equal]
            exact same
        · intro other same
          by_cases equal : other = address
          · exact Or.inr equal
          · rw [Function.update_of_ne equal] at same
            exact Or.inl same
  | operator address operation type left right result =>
      have marked : state.evaluated address = true := (seen.resolve_left Bool.false_ne_true).1
      simp only [evaluate, bind_look_apply, if_pos marked, pure_apply]
      exact still
  | unary address operation type left result =>
      have marked : state.evaluated address = true := (seen.resolve_left Bool.false_ne_true).1
      simp only [evaluate, bind_look_apply, if_pos marked, pure_apply]
      exact still
  | fused address =>
      have unfused := (seen.resolve_left Bool.false_ne_true).2
      cases unfused

omit [Add V] [Mul V] [IntCast V] in
theorem node_for_seen {build : BuildState Entity} {position : Nat} {histories : Histories Entity}
    {place : Origin Entity → Nat} {known : Set (Origin Entity)}
    (traced : Traced build position histories place known) (entity : Entity) :
    isOperand (build.nodeFor entity).1 = true ∨ (build.nodeFor entity).1 ∈ build.roots := by
  obtain ⟨later, laterKnown, next⟩ := node_for_traced traced entity
  obtain ⟨mapped, roots, -, -⟩ := node_for_frame build entity
  have kept := next.kept entity _ mapped
  rw [roots] at kept
  exact kept

omit [Add V] [Mul V] [IntCast V] in
theorem second_node_seen {build : BuildState Entity} {position : Nat} {histories : Histories Entity}
    {place : Origin Entity → Nat} {known : Set (Origin Entity)}
    (traced : Traced build position histories place known) (isScalar : Bool) (entity : Entity) :
    isOperand (build.secondNode isScalar entity).1 = true ∨
      (build.secondNode isScalar entity).1 ∈ build.roots := by
  cases isScalar with
  | true => exact Or.inl rfl
  | false => exact node_for_seen traced entity

/-- Evaluation stands where the recording stands when `remaining` is still to run. -/
structure Follows (model : DeviceModel Ptr σ V κ) (entities : Entity → Fhenon Ptr)
    (remaining : List (Operation Entity)) (build : BuildState Entity)
    (state : LegacyState Entity Ptr σ) (store : Entity → V) : Prop where
  traced : ∃ position histories place known, Traced build position histories place known
  values : ∀ entity, entity ∉ produced remaining →
    heldValue model state.world (state.entities entity) = some (store entity)
  scalars : ∀ entity, (entities entity).isScalar = true →
    state.entities entity = entities entity ∧ store entity = ((entities entity).val : V)
  plain : ∀ entity, (state.entities entity).isScalar = (entities entity).isScalar
  flags : ∀ address, state.evaluated address = true → address < build.nextAddress
  done : ∀ root ∈ build.roots, state.evaluated root.address = true ∧ isFused root = false

omit [Add V] [Mul V] [IntCast V] in
theorem next_address_grows (build : BuildState Entity) (isScalar : Bool) (first second : Entity) :
    build.nextAddress ≤ ((build.nodeFor first).2.secondNode isScalar second).2.nextAddress := by
  have grows (made : BuildState Entity) (entity : Entity) :
      made.nextAddress ≤ (made.nodeFor entity).2.nextAddress := by
    cases found : made.entityToNode entity with
    | some node => simp [BuildState.nodeFor, found]
    | none => simp [BuildState.nodeFor, found, BuildState.newOperand, BuildState.mapEntity]
  apply (grows build first).trans
  cases isScalar with
  | true => exact Nat.le_succ _
  | false => exact grows _ second

/-- The node of an operation whose operands are evaluated runs the operation once. -/
theorem evaluate_operator (exact : ExactDelegate model delegate) {operation : Operation Entity}
    (kind : RecordedKind operation) {store : Entity → V}
    (registered : ∀ entity, written operation = some entity →
      delegate.getEntity entity = some entity)
    (first : heldValue model state.world (state.entities operation.operand1) =
      some (store operation.operand1))
    (second : heldValue model state.world (state.entities operation.operand2) =
      some (store operation.operand2))
    (scalar : (state.entities operation.operand2).isScalar = true →
      store operation.operand2 = ((state.entities operation.operand2).val : V))
    (address : Nat) (left right : ASTNode Entity) (result : Option Entity)
    (unmarked : state.evaluated address = false)
    (leftSeen : isOperand left = true ∨
      (state.evaluated left.address = true ∧ isFused left = false))
    (rightSeen : isOperand right = true ∨
      (state.evaluated right.address = true ∧ isFused right = false)) :
    ∃ target reached, written operation = some target ∧
      evaluate delegate (.operator address operation operation.type left right result) state =
        (.ok (), reached) ∧
      reached.executed = state.executed ++ [operation] ∧
      (∀ other, state.evaluated other = true ∨ other = address → reached.evaluated other = true) ∧
      (∀ other, reached.evaluated other = true → state.evaluated other = true ∨
        other = left.address ∨ other = right.address ∨ other = address) ∧
      Writes model state reached target (runOperation store operation target) ∧
      ∀ entity, entity ≠ target → runOperation store operation entity = store entity := by
  obtain ⟨leftFlags, leftRan, leftKept, leftNew⟩ := evaluate_seen delegate left state leftSeen
  obtain ⟨rightFlags, rightRan, rightKept, rightNew⟩ :=
    evaluate_seen delegate right { state with evaluated := leftFlags }
      (rightSeen.imp_right (And.imp_left (leftKept _)))
  obtain ⟨target, reached, writes, ran, flags, log, wrote, others⟩ :=
    execute_writes exact { state with evaluated := rightFlags } kind registered first second
      scalar
  refine ⟨target, (reached.log operation).mark address, writes, ?_, ?_, ?_, ?_, ?_, others⟩
  · rw [evaluate, bind_look_apply, if_neg (by rw [unmarked]; exact Bool.false_ne_true),
      bind_returned leftRan, bind_returned rightRan, bind_returned ran, change_apply]
  · rw [LegacyState.mark, LegacyState.log, log]
  · intro other marked
    by_cases same : other = address
    · simp only [LegacyState.mark, same, Function.update_self]
    · simp only [LegacyState.mark, LegacyState.log, Function.update_of_ne same, flags]
      exact rightKept other (leftKept other (marked.resolve_right same))
  · intro other marked
    by_cases same : other = address
    · exact Or.inr (Or.inr (Or.inr same))
    · simp only [LegacyState.mark, LegacyState.log, Function.update_of_ne same, flags] at marked
      rcases rightNew other marked with before | isRight
      · exact (leftNew other before).imp_right Or.inl
      · exact Or.inr (Or.inr (Or.inl isRight))
  · exact ⟨wrote.written, wrote.plain, wrote.kept, wrote.held⟩

section Step

variable {entities : Entity → Fhenon Ptr} {operation : Operation Entity}
  {rest : List (Operation Entity)} {build next : BuildState Entity}
  {reached : LegacyState Entity Ptr σ} {store : Entity → V} {target : Entity}

omit [Add V] [Mul V] [IntCast V] [DecidableEq Entity] in
theorem target_plain (recorded : Recorded entities (operation :: rest))
    (writes : written operation = some target) : (entities target).isScalar = false := by
  have shape := recorded.scalarsSecond operation List.mem_cons_self
  rw [written] at writes
  split at writes
  · exact Option.some.inj writes ▸ shape.1
  · exact shape.2 target writes

omit [Add V] [Mul V] [IntCast V] [DecidableEq Entity] in
/-- The only entity an operation produces is the one it writes. -/
theorem unproduced_before (kind : RecordedKind operation)
    (writes : written operation = some target) {entity : Entity} (different : entity ≠ target)
    (unproduced : entity ∉ produced rest) : entity ∉ produced (operation :: rest) := by
  rw [produced, List.filterMap_cons]
  cases named : operation.result with
  | none => exact unproduced
  | some result =>
      have isTarget : result = target := by
        rcases kind with ⟨-, unnamed⟩ | ⟨type, -⟩
        · rw [unnamed] at named
          cases named
        · rw [written, if_neg (by rcases type with add | multiply <;> simp [*])] at writes
          rw [named] at writes
          exact Option.some.inj writes
      rw [List.mem_cons, not_or, isTarget]
      exact ⟨different, unproduced⟩

theorem step_values (kind : RecordedKind operation) (writes : written operation = some target)
    (follows : Follows model entities (operation :: rest) build state store)
    (wrote : Writes model state reached target (runOperation store operation target))
    (others : ∀ entity, entity ≠ target → runOperation store operation entity = store entity)
    (entity : Entity) (unproduced : entity ∉ produced rest) :
    heldValue model reached.world (reached.entities entity) =
      some (runOperation store operation entity) := by
  by_cases same : entity = target
  · rw [same]
    exact wrote.written
  · rw [wrote.kept entity same, others entity same]
    exact wrote.held _ _ (follows.values entity (unproduced_before kind writes same unproduced))

theorem step_scalars (recorded : Recorded entities (operation :: rest))
    (writes : written operation = some target)
    (follows : Follows model entities (operation :: rest) build state store)
    (wrote : Writes model state reached target (runOperation store operation target))
    (others : ∀ entity, entity ≠ target → runOperation store operation entity = store entity)
    (entity : Entity) (isScalar : (entities entity).isScalar = true) :
    reached.entities entity = entities entity ∧
      runOperation store operation entity = ((entities entity).val : V) := by
  have different : entity ≠ target := by
    intro same
    rw [same, target_plain recorded writes] at isScalar
    cases isScalar
  rw [wrote.kept entity different, others entity different]
  exact follows.scalars entity isScalar

omit [Add V] [Mul V] in
theorem operands_seen {remaining : List (Operation Entity)}
    (follows : Follows model entities remaining build state store)
    (operation : Operation Entity) :
    let left := build.nodeFor operation.operand1
    let right := left.2.secondNode (entities operation.operand2).isScalar operation.operand2
    (isOperand left.1 = true ∨ (state.evaluated left.1.address = true ∧ isFused left.1 = false)) ∧
      (isOperand right.1 = true ∨
        (state.evaluated right.1.address = true ∧ isFused right.1 = false)) := by
  obtain ⟨_, _, _, _, traced⟩ := follows.traced
  have seen {node : ASTNode Entity} (below : isOperand node = true ∨ node ∈ build.roots) :
      isOperand node = true ∨ (state.evaluated node.address = true ∧ isFused node = false) :=
    below.imp_right (follows.done node)
  obtain ⟨-, leftRoots, -⟩ := node_for_frame build operation.operand1
  obtain ⟨_, _, leftTraced⟩ := node_for_traced traced operation.operand1
  exact ⟨seen (node_for_seen traced operation.operand1),
    seen (leftRoots ▸ second_node_seen leftTraced (entities operation.operand2).isScalar
      operation.operand2)⟩

theorem operation_follows (exact : ExactDelegate model delegate)
    (recorded : Recorded entities (operation :: rest))
    (registered : ∀ entity, written operation = some entity →
      delegate.getEntity entity = some entity)
    (follows : Follows model entities (operation :: rest) build state store)
    (built : buildOperation entities operation build = .ok next) :
    ∃ root reached, next.roots = build.roots ++ [root] ∧
      evaluate delegate root state = (.ok (), reached) ∧
      reached.executed = state.executed ++ [operation] ∧
      Follows model entities rest next reached (runOperation store operation) := by
  obtain ⟨position, histories, place, known, traced⟩ := follows.traced
  obtain ⟨_, _, -, nextTraced, -⟩ := operation_traced traced built
  obtain ⟨_, _, operands⟩ := operands_traced entities traced operation
  have kind := recorded.kinds operation List.mem_cons_self
  obtain ⟨firstFresh, secondFresh, -⟩ := recorded.fresh
  have made := built_operator built
  have grows := next_address_grows build (entities operation.operand2).isScalar
    operation.operand1 operation.operand2
  have unmarked : state.evaluated ((build.nodeFor operation.operand1).2.secondNode
      (entities operation.operand2).isScalar operation.operand2).2.nextAddress = false := by
    rw [← Bool.not_eq_true]
    intro marked
    have below := follows.flags _ marked
    omega
  have scalar : (state.entities operation.operand2).isScalar = true →
      store operation.operand2 = ((state.entities operation.operand2).val : V) := by
    intro isScalar
    rw [follows.plain] at isScalar
    rw [(follows.scalars _ isScalar).1]
    exact (follows.scalars _ isScalar).2
  obtain ⟨leftSeen, rightSeen⟩ := operands_seen follows operation
  obtain ⟨target, reached, writes, ran, log, kept, only, wrote, others⟩ :=
    evaluate_operator exact kind registered (follows.values _ firstFresh)
      (follows.values _ secondFresh) scalar _ _ _ (written operation) unmarked leftSeen rightSeen
  have roots := operator_root operands.traced operation operation.type
    (build.nodeFor operation.operand1).1 ((build.nodeFor operation.operand1).2.secondNode
      (entities operation.operand2).isScalar operation.operand2).1 (written operation)
  rw [operands.roots, ← made] at roots
  have address : next.nextAddress = ((build.nodeFor operation.operand1).2.secondNode
      (entities operation.operand2).isScalar operation.operand2).2.nextAddress + 1 := by
    rw [made]
    rfl
  refine ⟨_, reached, roots, ran, log, ⟨_, _, _, _, nextTraced⟩,
    step_values kind writes follows wrote others, step_scalars recorded writes follows wrote others,
    ?_, ?_, ?_⟩
  · intro entity
    by_cases same : entity = target
    · rw [same, wrote.plain]
      exact follows.plain target
    · rw [wrote.kept entity same]
      exact follows.plain entity
  · intro other marked
    have leftBelow := covered_below operands.traced operands.leftCovers operands.leftKnown _
      (own_address _)
    have rightBelow := covered_below operands.traced operands.rightCovers operands.rightKnown _
      (own_address _)
    rw [address]
    rcases only other marked with before | isLeft | isRight | isNew
    · have below := follows.flags other before
      omega
    · omega
    · omega
    · omega
  · intro root member
    rw [roots] at member
    rcases List.mem_append.mp member with old | new
    · exact ⟨kept _ (Or.inl (follows.done root old).1), (follows.done root old).2⟩
    · rw [List.mem_singleton.mp new]
      exact ⟨kept _ (Or.inr rfl), rfl⟩

end Step

omit [Add V] [Mul V] [IntCast V] [DecidableEq Entity] in
theorem recorded_tail {entities : Entity → Fhenon Ptr} {operation : Operation Entity}
    {rest : List (Operation Entity)} (recorded : Recorded entities (operation :: rest)) :
    Recorded entities rest where
  kinds := fun other member => recorded.kinds other (List.mem_cons_of_mem _ member)
  fresh := recorded.fresh.2.2
  scalarsSecond := fun other member => recorded.scalarsSecond other (List.mem_cons_of_mem _ member)

omit [Add V] [Mul V] [IntCast V] in
theorem recorded_built {entities : Entity → Fhenon Ptr} (operations : List (Operation Entity))
    (recorded : Recorded entities operations) (build : BuildState Entity) :
    ∃ final, buildOperations entities operations build = .ok final := by
  induction operations generalizing build with
  | nil => exact ⟨build, rfl⟩
  | cons operation rest induction =>
      have step : ∃ next, buildOperation entities operation build = .ok next := by
        rw [buildOperation]
        rcases recorded.kinds operation List.mem_cons_self with ⟨type, -⟩ | ⟨type | type, -⟩
        · rw [type]
          exact ⟨_, rfl⟩
        · rw [type]
          exact ⟨_, rfl⟩
        · rw [type]
          exact ⟨_, rfl⟩
      obtain ⟨next, built⟩ := step
      rw [buildOperations, built]
      exact induction (recorded_tail recorded) next

/-- Each root runs its own operation, in recording order. -/
theorem operations_follow (exact : ExactDelegate model delegate) {entities : Entity → Fhenon Ptr}
    (operations : List (Operation Entity)) {build final : BuildState Entity} {store : Entity → V}
    (recorded : Recorded entities operations)
    (registered : ∀ operation ∈ operations, ∀ entity, written operation = some entity →
      delegate.getEntity entity = some entity)
    (follows : Follows model entities operations build state store)
    (built : buildOperations entities operations build = .ok final) :
    ∃ added reached, final.roots = build.roots ++ added ∧
      each (evaluate delegate) added state = (.ok (), reached) ∧
      reached.executed = state.executed ++ operations ∧
      Follows model entities [] final reached (runOperations operations store) := by
  induction operations generalizing build state store with
  | nil =>
      cases built
      refine ⟨[], state, ?_, rfl, ?_, follows⟩
      · rw [List.append_nil]
      · rw [List.append_nil]
  | cons operation rest induction =>
      rw [buildOperations] at built
      cases step : buildOperation entities operation build with
      | error message =>
          rw [step] at built
          cases built
      | ok next =>
          rw [step] at built
          obtain ⟨root, middle, roots, ran, log, nextFollows⟩ := operation_follows exact recorded
            (registered operation List.mem_cons_self) follows step
          obtain ⟨added, reached, allRoots, allRan, allLog, last⟩ :=
            induction (recorded_tail recorded)
              (fun other member => registered other (List.mem_cons_of_mem _ member)) nextFollows
              built
          refine ⟨root :: added, reached, ?_, ?_, ?_, last⟩
          · rw [allRoots, roots, List.append_assoc, List.singleton_append]
          · rw [each, bind_returned ran]
            exact allRan
          · rw [allLog, log, List.append_assoc, List.singleton_append]

/-- The legacy path gives every entity the value that the recorded operations give it,
executing each of them once and in order. -/
theorem legacy_computes (exact : ExactDelegate model delegate) {entities : Entity → Fhenon Ptr}
    {operations : List (Operation Entity)} (recorded : Recorded entities operations)
    (registered : ∀ operation ∈ operations, ∀ entity, written operation = some entity →
      delegate.getEntity entity = some entity)
    {initial : Entity → V} (scalars : ScalarsHold entities initial) {world : σ}
    (holds : ∀ entity, entity ∉ produced operations →
      heldValue model world (entities entity) = some (initial entity)) :
    ∃ reached, optimizeLegacy delegate none operations
        { entities := entities, world := world } = (.ok (), reached) ∧
      reached.executed = operations ∧
      ∀ entity, heldValue model reached.world (reached.entities entity) =
        some (runOperations operations initial entity) := by
  by_cases empty : operations = []
  · subst empty
    refine ⟨_, rfl, rfl, ?_⟩
    intro entity
    exact holds entity (by simp [produced])
  · obtain ⟨final, built⟩ := recorded_built operations recorded {}
    have started : Follows model entities operations {}
        ({ entities := entities, world := world } : LegacyState Entity Ptr σ) initial := by
      refine ⟨⟨_, _, _, _, traced_start⟩, holds, ?_, fun _ => rfl, ?_, ?_⟩
      · intro entity isScalar
        exact ⟨rfl, scalars entity isScalar⟩
      · intro address marked
        cases marked
      · intro root member
        cases member
    obtain ⟨added, reached, roots, ran, log, last⟩ :=
      operations_follow exact operations recorded registered started built
    refine ⟨reached, ?_, log, fun entity => last.values entity (by simp [produced])⟩
    have count := (operations_traced operations traced_start built).2.1
    have same : final.roots = added := roots
    have nonempty : added ≠ [] := by
      intro none
      rw [same, none, List.length_nil, Nat.zero_add] at count
      exact empty (List.length_eq_zero_iff.mp count.symm)
    have graph : buildAST entities operations = .ok added := by
      rw [buildAST, built, ← same]
      rfl
    simp only [optimizeLegacy, bind_look_apply, List.isEmpty_iff, empty, if_false, graph,
      evaluateGraph, nonempty]
    exact ran

open Fhenomenon.DefaultExecutor Fhenomenon.MovementPlanner Fhenomenon.LoweringSound
open Fhenomenon.PlanAwareRefinement Fhenomenon.SessionRuntime Fhenomenon.ProgramRefinement

/-- Evaluating the graph and executing its program leave every entity with the same
value, that of the recorded operations run one by one. -/
theorem paths_agree [DecidableEq Ptr] (operations : List (Operation Entity))
    (entities : Entity → Fhenon Ptr) (recorded : Recorded entities operations)
    (model : DeviceModel Ptr σ V κ) (hooks : FhnMovementHooks Ptr σ)
    (alloc : σ → Option Ptr × σ) (free : Option Ptr → σ → σ) (dispatch : Dispatch Ptr σ)
    (hookLaws : HookLaws model hooks alloc free) (kernelLaw : KernelLaw model dispatch)
    (exactKernels : ExactKernels model dispatch) (delegate : Delegate Entity Ptr σ)
    (exactDelegate : ExactDelegate model delegate)
    (registered : ∀ operation ∈ operations, ∀ entity, written operation = some entity →
      delegate.getEntity entity = some entity)
    (backend nextControl : Nat) (world : σ) (initial : Entity → V)
    (scalars : ScalarsHold entities initial)
    (supplies : ∀ entity, entity ∉ produced operations →
      Supplies model hooks backend world (entities entity) (initial entity)) :
    ∃ evaluated final,
      optimizeLegacy delegate none operations { entities := entities, world := world } =
          (.ok (), evaluated) ∧
        optimize backend hooks dispatch none operations
            { entities := entities, nextControl := nextControl, world := world } =
          (.ok true, final) ∧
        evaluated.executed = operations ∧
        ∀ entity,
          heldValue model evaluated.world (evaluated.entities entity) =
              heldValue model final.world (final.entities entity) ∧
            heldValue model final.world (final.entities entity) =
              some (runOperations operations initial entity) := by
  obtain ⟨evaluated, ran, log, values⟩ := legacy_computes exactDelegate recorded registered scalars
    (fun entity unproduced => supplies_value (supplies entity unproduced))
  obtain ⟨final, completed, finals⟩ := optimize_computes hookLaws kernelLaw exactKernels recorded
    scalars (fun _ _ unproduced => unproduced) supplies nextControl
  refine ⟨evaluated, final, ran, completed, log, ?_⟩
  intro entity
  have held : heldValue model final.world (final.entities entity) =
      some (runOperations operations initial entity) := by
    apply finals
    by_cases created : entity ∈ produced operations
    · exact Or.inr created
    · exact Or.inl created
  rw [values, held]
  exact ⟨rfl, rfl⟩

section SumAndDouble

open Fhenomenon.MovementWorld Fhenomenon.SessionWorld

def combineHeld (operator : Int → Int → Int) (first second : Fhenon Nat) (world : World) :
    Except String (Option (Fhenon Nat)) × World :=
  match heldValue exactModel world first, heldValue exactModel world second with
  | some x, some y =>
      (.ok (some (owning 0 world.length)), world ++ [some ⟨false, operator x y⟩])
  | _, _ => (.error "operand is not encrypted", world)

def exactDelegate : Delegate (Fin 6) Nat World where
  add := combineHeld (· + ·)
  multiply := combineHeld (· * ·)
  transform := fun target _ world => (.ok target, world)
  getEntity := some
  fused := fun _ => pure ()

theorem combine_held_produces (operator : Int → Int → Int) (first second : Fhenon Nat)
    (world : World) (x y : Int) (firstHeld : heldValue exactModel world first = some x)
    (secondHeld : heldValue exactModel world second = some y) :
    Produces exactModel world (combineHeld operator first second world) (operator x y) := by
  refine ⟨_, _, by rw [combineHeld, firstHeld, secondHeld], ?_, ?_⟩
  · simp [heldValue, owning, DeviceModel.contents, exactModel, cellAt]
  · intro other held same
    rw [heldValue] at same ⊢
    split at same
    · rename_i encrypted
      rw [if_pos encrypted]
      rw [Option.bind_eq_some_iff] at same ⊢
      obtain ⟨ciphertext, stored, same⟩ := same
      refine ⟨ciphertext, stored, ?_⟩
      rw [Option.bind_eq_some_iff] at same ⊢
      obtain ⟨buffer, raw, same⟩ := same
      refine ⟨buffer, raw, ?_⟩
      rw [DeviceModel.contents, Option.map_eq_some_iff] at same ⊢
      obtain ⟨cell, live, contents⟩ := same
      refine ⟨cell, ?_, contents⟩
      have bound := cell_lt live
      rw [← live]
      simp [exactModel, cellAt, List.getElem?_append_left bound]
    · cases same

theorem sum_and_double_agree : ∃ evaluated final,
    optimizeLegacy exactDelegate none sumAndDouble { entities := sumEntities, world := sumWorld } =
        (.ok (), evaluated) ∧
      optimize 1 movementHooks exactTable none sumAndDouble
          { entities := sumEntities, nextControl := 4, world := sumWorld } = (.ok true, final) ∧
      evaluated.executed = sumAndDouble ∧
      heldValue exactModel evaluated.world (evaluated.entities 0) = some 24 ∧
      heldValue exactModel final.world (final.entities 0) = some 24 := by
  obtain ⟨evaluated, final, ran, completed, log, values⟩ := paths_agree sumAndDouble sumEntities
    sum_recorded exactModel movementHooks movementAlloc movementFree exactTable exact_hook_laws
    exact_kernel_law exact_kernels exactDelegate
    ⟨fun first second world x y held other _ => combine_held_produces _ _ _ _ _ _ held other,
      fun first second world x y held other _ => combine_held_produces _ _ _ _ _ _ held other⟩
    (fun _ _ _ _ => rfl) 1 4 sumWorld ![5, 7, 9, 2, 0, 0]
    (by intro entity scalar; fin_cases entity <;> first | rfl | cases scalar) sum_supplied
  refine ⟨evaluated, final, ran, completed, log, ?_, (values 0).2⟩
  rw [(values 0).1]
  exact (values 0).2

end SumAndDouble

end Fhenomenon.LegacyEvaluation
