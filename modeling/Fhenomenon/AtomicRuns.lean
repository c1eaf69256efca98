import Fhenomenon.BufferOwnership
import Fhenomenon.UntouchedBuffers
import Fhenomenon.ValueSemantics

/-!
# Failed runs

A run that throws leaves the caller's variables as they were. Recording writes
objects of its own only, the runtime writes entities after its last failure, and
execution writes no live buffer of an input.
-/

namespace Fhenomenon.AtomicRuns

open Fhenomenon.Lib.Fallible Fhenomenon.InstructionStream Fhenomenon.MovementPlanner
open Fhenomenon.DefaultExecutor Fhenomenon.RecordedGraph Fhenomenon.Lowering
open Fhenomenon.SessionRuntime Fhenomenon.Recording Fhenomenon.SessionBodies
open Fhenomenon.RecordingSteps Fhenomenon.RecordingFrame Fhenomenon.BufferOwnership
open Fhenomenon.UntouchedBuffers

section Graphs

variable {Entity Ptr : Type*}

/-- A node of operands and binary operators. -/
def Built : ASTNode Entity → Prop
  | .operand _ _ => True
  | .operator _ _ _ left right _ => Built left ∧ Built right
  | .unary _ _ _ _ _ | .fused _ => False

structure BuiltGraph (build : BuildState Entity) : Prop where
  mapped : ∀ entity node, build.entityToNode entity = some node → Built node
  roots : ∀ root ∈ build.roots, Built root

theorem add_instruction_bindings (state : LoweringState Entity) (address : Nat)
    (inst : FhnInstruction) (result : Option Entity) :
    (state.addInstruction address inst result).bindings ≠ [] := by
  simp [LoweringState.addInstruction]

theorem add_assignment_bindings {state : LoweringState Entity} (bound : state.bindings ≠ [])
    (address : Nat) (value : ASTNode Entity) (result : Option Entity) :
    (state.addAssignment address value result).bindings ≠ [] := by
  unfold LoweringState.addAssignment
  split
  · simp
  · exact bound

theorem add_assignment_supported (state : LoweringState Entity) (address : Nat)
    (value : ASTNode Entity) (result : Option Entity) :
    (state.addAssignment address value result).supported = state.supported := by
  unfold LoweringState.addAssignment
  split <;> rfl

theorem lower_built_supported (entities : Entity → Fhenon Ptr) (node : ASTNode Entity)
    (built : Built node) (state : LoweringState Entity) :
    (lowerNode entities node state).supported = state.supported := by
  induction node generalizing state with
  | operand address entity =>
      simp only [lowerNode]
      split <;> rfl
  | operator address operation type left right result first second =>
      simp only [lowerNode]
      split
      · rfl
      · have lowered : (if (scalarOperand entities type right).isSome = true then
            lowerNode entities left state
          else lowerNode entities right (lowerNode entities left state)).supported =
            state.supported := by
          split
          · exact first built.1 state
          · rw [second built.2, first built.1]
        split
        · rw [add_assignment_supported]
          exact lowered
        · exact lowered
  | unary address operation type left result => cases built
  | fused address => cases built

theorem lower_keeps_bindings (entities : Entity → Fhenon Ptr) (node : ASTNode Entity)
    (built : Built node) (state : LoweringState Entity) (bound : state.bindings ≠ []) :
    (lowerNode entities node state).bindings ≠ [] := by
  induction node generalizing state with
  | operand address entity =>
      simp only [lowerNode]
      split
      · exact bound
      · simp [LoweringState.addInput]
  | operator address operation type left right result first second =>
      simp only [lowerNode]
      split
      · exact bound
      · have lowered : (if (scalarOperand entities type right).isSome = true then
            lowerNode entities left state
          else lowerNode entities right (lowerNode entities left state)).bindings ≠ [] := by
          split
          · exact first built.1 state bound
          · exact second built.2 _ (first built.1 state bound)
        split
        · exact add_assignment_bindings lowered _ _ _
        · exact add_instruction_bindings _ _ _ _
  | unary address operation type left result => cases built
  | fused address => cases built

theorem first_node_binds (entities : Entity → Fhenon Ptr) (node : ASTNode Entity)
    (built : Built node) (state : LoweringState Entity)
    (unlowered : ∀ address, state.nodeIds address = none) :
    (lowerNode entities node state).bindings ≠ [] := by
  induction node generalizing state with
  | operand address entity => simp [lowerNode, unlowered, LoweringState.addInput]
  | operator address operation type left right result first second =>
      simp only [lowerNode, unlowered, Option.isSome_none, Bool.false_eq_true, if_false]
      have bound := first built.1 state unlowered
      have lowered : (if (scalarOperand entities type right).isSome = true then
          lowerNode entities left state
        else lowerNode entities right (lowerNode entities left state)).bindings ≠ [] := by
        split
        · exact bound
        · exact lower_keeps_bindings entities right built.2 _ bound
      split
      · exact add_assignment_bindings lowered _ _ _
      · exact add_instruction_bindings _ _ _ _
  | unary address operation type left result => cases built
  | fused address => cases built

theorem lower_roots_answers (entities : Entity → Fhenon Ptr) (roots : List (ASTNode Entity))
    (built : ∀ root ∈ roots, Built root) (state : LoweringState Entity)
    (supported : state.supported = true) (bound : state.bindings ≠ []) :
    (lowerRoots entities roots state).supported = true ∧
      (lowerRoots entities roots state).bindings ≠ [] := by
  induction roots generalizing state with
  | nil => exact ⟨supported, bound⟩
  | cons root rest induction =>
      have first := built root List.mem_cons_self
      apply induction fun other member => built other (List.mem_cons_of_mem _ member)
      · rw [lower_built_supported entities root first]
        exact supported
      · exact lower_keeps_bindings entities root first state bound

theorem built_lowers (entities : Entity → Fhenon Ptr) {roots : List (ASTNode Entity)}
    (built : ∀ root ∈ roots, Built root) (nonempty : roots ≠ []) :
    ∃ program bindings, lower entities roots = (some program, bindings) ∧
      bindings.isEmpty = false := by
  obtain ⟨root, rest, rfl⟩ := List.exists_cons_of_ne_nil nonempty
  have first := built root List.mem_cons_self
  obtain ⟨supported, bound⟩ := lower_roots_answers entities rest
    (fun other member => built other (List.mem_cons_of_mem _ member))
    (lowerNode entities root {}) (lower_built_supported entities root first {})
    (first_node_binds entities root first {} fun _ => rfl)
  refine ⟨_, _, if_pos supported, ?_⟩
  rw [List.isEmpty_eq_false_iff]
  exact bound

variable [DecidableEq Entity]

theorem node_for_built {build : BuildState Entity} (graph : BuiltGraph build) (entity : Entity) :
    Built (build.nodeFor entity).1 ∧ BuiltGraph (build.nodeFor entity).2 := by
  unfold BuildState.nodeFor
  split
  · rename_i node found
    exact ⟨graph.mapped entity node found, graph⟩
  · refine ⟨trivial, ?_, graph.roots⟩
    intro other node found
    by_cases same : other = entity
    · simp only [BuildState.mapEntity, same, Function.update_self, Option.some.injEq] at found
      rw [← found]
      trivial
    · simp only [BuildState.mapEntity, Function.update_of_ne same] at found
      exact graph.mapped other node found

theorem second_node_built {build : BuildState Entity} (graph : BuiltGraph build) (scalar : Bool)
    (entity : Entity) : Built (build.secondNode scalar entity).1 ∧
      BuiltGraph (build.secondNode scalar entity).2 := by
  cases scalar with
  | false => exact node_for_built graph entity
  | true => exact ⟨trivial, graph.mapped, graph.roots⟩

theorem new_operator_built {build : BuildState Entity} (graph : BuiltGraph build)
    (operation : Operation Entity) (type : OperationType) {left right : ASTNode Entity}
    (first : Built left) (second : Built right) (result : Option Entity) :
    BuiltGraph (build.newOperator operation type left right result) ∧
      (build.newOperator operation type left right result).roots ≠ [] := by
  refine ⟨⟨?_, ?_⟩, ?_⟩
  · intro entity node found
    cases result with
    | none => exact graph.mapped entity node found
    | some named =>
        by_cases same : entity = named
        · simp only [BuildState.newOperator, same, Function.update_self, Option.some.injEq] at found
          rw [← found]
          exact ⟨first, second⟩
        · simp only [BuildState.newOperator, Function.update_of_ne same] at found
          exact graph.mapped entity node found
  · intro root member
    simp only [BuildState.newOperator, addRoot] at member
    split at member
    · exact graph.roots root member
    · rcases List.mem_append.mp member with old | new
      · exact graph.roots root old
      · rw [List.mem_singleton.mp new]
        exact ⟨first, second⟩
  · simp only [BuildState.newOperator, addRoot]
    split
    · rename_i known
      intro empty
      rw [empty] at known
      cases known
    · simp

theorem build_operation_built {entities : Entity → Fhenon Ptr} {operation : Operation Entity}
    {build made : BuildState Entity} (graph : BuiltGraph build)
    (built : buildOperation entities operation build = .ok made) :
    BuiltGraph made ∧ made.roots ≠ [] := by
  obtain ⟨first, middle⟩ := node_for_built graph operation.operand1
  obtain ⟨second, last⟩ := second_node_built middle (entities operation.operand2).isScalar
    operation.operand2
  unfold buildOperation at built
  cases type : operation.type with
  | add =>
      simp only [type] at built
      exact Except.ok.inj built ▸ new_operator_built last operation _ first second _
  | multiply =>
      simp only [type] at built
      exact Except.ok.inj built ▸ new_operator_built last operation _ first second _
  | assignment =>
      simp only [type] at built
      exact Except.ok.inj built ▸ new_operator_built last operation _ first second _
  | refresh | leftRotate | rightRotate | conjugate | sub =>
      simp only [type] at built
      cases built

theorem build_operations_built {entities : Entity → Fhenon Ptr}
    (operations : List (Operation Entity)) {build made : BuildState Entity}
    (graph : BuiltGraph build) (built : buildOperations entities operations build = .ok made) :
    BuiltGraph made ∧ (operations ≠ [] ∨ build.roots ≠ [] → made.roots ≠ []) := by
  induction operations generalizing build with
  | nil =>
      obtain rfl := Except.ok.inj built
      exact ⟨graph, fun nonempty => nonempty.resolve_left fun absurdity => absurdity rfl⟩
  | cons operation rest induction =>
      rw [buildOperations] at built
      cases step : buildOperation entities operation build with
      | error message =>
          rw [step] at built
          cases built
      | ok next =>
          rw [step] at built
          obtain ⟨grown, rooted⟩ := build_operation_built graph step
          obtain ⟨final, keeps⟩ := induction grown built
          exact ⟨final, fun _ => keeps (Or.inr rooted)⟩

/-- The graph of a recording is never handed to the fallback. -/
theorem built_graph_lowers {entities : Entity → Fhenon Ptr} {operations : List (Operation Entity)}
    (nonempty : operations ≠ []) {roots : List (ASTNode Entity)}
    (built : buildAST entities operations = .ok roots) :
    ∃ program bindings, lower entities roots = (some program, bindings) ∧
      bindings.isEmpty = false := by
  unfold buildAST at built
  cases made : buildOperations entities operations {} with
  | error message =>
      rw [made] at built
      cases built
  | ok build =>
      rw [made] at built
      obtain rfl : build.roots = roots := Except.ok.inj built
      have start : BuiltGraph ({} : BuildState Entity) := by
        constructor
        · intro entity node found
          cases found
        · intro root member
          cases member
      obtain ⟨graph, rooted⟩ := build_operations_built operations start made
      exact built_lowers entities graph.roots (rooted (Or.inl nonempty))

end Graphs

section Runtime

variable {Entity Ptr σ V : Type*} [DecidableEq Entity] {contents : σ → Ptr → Option V}
  {hooks : FhnMovementHooks Ptr σ} {dispatch : Dispatch Ptr σ} {backend : Nat}
  {state final : RunState Entity Ptr σ}

theorem session_execution_preserves (laws : ContentsLaws contents hooks dispatch)
    {entities : Entity → Fhenon Ptr} {program : FhnProgram} {bindings : Bindings Entity}
    {plan : FhnMovementPlan} {hold : Nat → SharedBuffer Ptr}
    (analyzed : analyze program (program.inputIds ++ (latestBindings bindings).map (·.2)) 0
      .belady none = some plan)
    (provisioned : holdInputs backend entities program.inputIds bindings (fun _ => {}) = .ok hold)
    (world : σ) : Preserves contents world
      (execute hooks dispatch program plan (fun id => (hold id).raw) world).2.world := by
  intro buffer value held
  apply execute_untouched laws _ _ held
  · exact analysis_spares analyzed fun id input => List.mem_append_left _ input
  · intro id absent
    rcases hold_inputs_source provisioned id with empty | ⟨input, -⟩
    · rw [empty]
    · exact absurd input absent

theorem runtime_failed (laws : ContentsLaws contents hooks dispatch)
    {roots : List (ASTNode Entity)} {message : String}
    (failed : executeThroughFhnRuntime backend hooks dispatch roots state =
      (.error message, final)) :
    final.entities = state.entities ∧ Preserves contents state.world final.world := by
  have unchanged : Preserves contents state.world state.world := fun _ _ held => held
  rcases lowered : lower state.entities roots with ⟨none | program, bindings⟩
  · simp only [executeThroughFhnRuntime, lowered] at failed
    cases (Prod.mk.inj failed).1
  simp only [executeThroughFhnRuntime, lowered] at failed
  split_ifs at failed with unbound
  · cases (Prod.mk.inj failed).1
  split at failed
  · rw [← (Prod.mk.inj failed).2]
    exact ⟨rfl, unchanged⟩
  rename_i plan analyzed
  split at failed
  · rw [← (Prod.mk.inj failed).2]
    exact ⟨rfl, unchanged⟩
  rename_i hold provisioned
  split_ifs at failed with missing nonzero
  · rw [← (Prod.mk.inj failed).2]
    exact ⟨rfl, unchanged⟩
  · rw [← (Prod.mk.inj failed).2]
    exact ⟨rfl, session_execution_preserves laws analyzed provisioned state.world⟩
  · cases (Prod.mk.inj failed).1

theorem runtime_answers {roots : List (ASTNode Entity)} {program : FhnProgram}
    {bindings : Bindings Entity} (lowered : lower state.entities roots = (some program, bindings))
    (bound : bindings.isEmpty = false) :
    (executeThroughFhnRuntime backend hooks dispatch roots state).1 ≠ .ok false := by
  intro refused
  simp only [executeThroughFhnRuntime, lowered, bound, Bool.false_eq_true, if_false] at refused
  split at refused
  · cases refused
  split at refused
  · cases refused
  split_ifs at refused
  cases refused

theorem optimize_failed (laws : ContentsLaws contents hooks dispatch)
    {poison : Option String} {operations : List (Operation Entity)} {message : String}
    (failed : optimize backend hooks dispatch poison operations state = (.error message, final)) :
    final.entities = state.entities ∧ Preserves contents state.world final.world := by
  have unchanged : Preserves contents state.world state.world := fun _ _ held => held
  unfold optimize at failed
  split at failed
  · rw [← (Prod.mk.inj failed).2]
    exact ⟨rfl, unchanged⟩
  split_ifs at failed
  · cases (Prod.mk.inj failed).1
  split at failed
  · rw [← (Prod.mk.inj failed).2]
    exact ⟨rfl, unchanged⟩
  · exact runtime_failed laws failed

/-- A recording is run by the runtime or refused, and never falls back. -/
theorem optimize_answers (poison : Option String) (operations : List (Operation Entity)) :
    (optimize backend hooks dispatch poison operations state).1 ≠ .ok false := by
  unfold optimize
  split
  · exact fun refused => by cases refused
  split_ifs with empty
  · exact fun refused => by cases refused
  split
  · exact fun refused => by cases refused
  · rename_i roots built
    have nonempty : operations ≠ [] := fun same => empty (List.isEmpty_iff.mpr same)
    obtain ⟨program, bindings, lowered, bound⟩ := built_graph_lowers nonempty built
    exact runtime_answers lowered bound

end Runtime

variable {Address Ptr Profile σ V : Type} [DecidableEq Address]
  {host : Host Address Ptr Profile σ} {outer : Address → Prop} {contents : σ → Ptr → Option V}
  {start state : State Address Ptr Profile σ} {Value Result : Type}

/-- The caller's variables and all live buffers are as they were in `start`. -/
structure Unharmed (outer : Address → Prop) (contents : σ → Ptr → Option V)
    (start state : State Address Ptr Profile σ) : Prop where
  alive : ∀ address, outer address → address ∈ state.live
  objects : ∀ address, outer address → state.objects address = start.objects address
  automatic : ∀ address ∈ state.locals ++ state.temporaries, ¬outer address
  contents : Preserves contents start.world state.world

/-- Recording that harms no variable of the caller, whether it returns or fails, with a
fact about the value it returns. -/
def Harmless (outer : Address → Prop) (contents : σ → Ptr → Option V)
    (start : State Address Ptr Profile σ) (made : Value → Prop)
    (run : Recorder Address Ptr Profile σ Value) : Prop :=
  ∀ state, Unharmed outer contents start state →
    Ends run (fun value reached => Unharmed outer contents start reached ∧ made value)
      (fun _ reached => Unharmed outer contents start reached) state

omit [DecidableEq Address] in
theorem harmless_pure {made : Value → Prop} {value : Value} (holds : made value) :
    Harmless outer contents start made (pure value : Recorder Address Ptr Profile σ Value) :=
  fun _ unharmed => ends_of_eq rfl ⟨unharmed, holds⟩

omit [DecidableEq Address] in
theorem harmless_fail {made : Value → Prop} (failure : Failure) :
    Harmless outer contents start made
      (fail failure : Recorder Address Ptr Profile σ Value) :=
  fun _ unharmed => ends_of_failed rfl unharmed

omit [DecidableEq Address] in
theorem harmless_change {update : State Address Ptr Profile σ → State Address Ptr Profile σ}
    (keeps : ∀ state, Unharmed outer contents start state →
      Unharmed outer contents start (update state)) :
    Harmless outer contents start (fun _ => True) (change update) :=
  fun state unharmed => ends_of_eq rfl ⟨keeps state unharmed, trivial⟩

omit [DecidableEq Address] in
theorem harmless_bind {made : Value → Prop} {final : Result → Prop}
    {first : Recorder Address Ptr Profile σ Value}
    {next : Value → Recorder Address Ptr Profile σ Result}
    (before : Harmless outer contents start made first)
    (after : ∀ value, made value → Harmless outer contents start final (next value)) :
    Harmless outer contents start final (first >>= next) := by
  intro state unharmed
  rw [ends_bind]
  apply ends_mono (before state unharmed)
  · exact fun value reached holds => after value holds.2 reached holds.1
  · exact fun _ _ holds => holds

omit [DecidableEq Address] in
theorem harmless_after_look {final : Result → Prop}
    {next : State Address Ptr Profile σ → Recorder Address Ptr Profile σ Result}
    (after : ∀ seen, Harmless outer contents start final (next seen)) :
    Harmless outer contents start final (look >>= next) :=
  harmless_bind (fun _ unharmed => ends_of_eq rfl ⟨unharmed, trivial⟩) fun seen _ => after seen

omit [DecidableEq Address] in
theorem harmless_ensuring {made : Value → Prop} {run : Recorder Address Ptr Profile σ Value}
    {cleanup : State Address Ptr Profile σ → State Address Ptr Profile σ}
    (before : Harmless outer contents start made run)
    (keeps : ∀ state, Unharmed outer contents start state →
      Unharmed outer contents start (cleanup state)) :
    Harmless outer contents start made (ensuring run cleanup) := by
  intro state unharmed
  rw [ends_ensuring]
  apply ends_mono (before state unharmed)
  · exact fun value reached holds => ⟨keeps reached holds.1, holds.2⟩
  · exact fun _ reached holds => keeps reached holds

omit [DecidableEq Address] in
theorem harmless_on_failure {made : Value → Prop} {run : Recorder Address Ptr Profile σ Value}
    {cleanup : State Address Ptr Profile σ → State Address Ptr Profile σ}
    (before : Harmless outer contents start made run)
    (keeps : ∀ state, Unharmed outer contents start state →
      Unharmed outer contents start (cleanup state)) :
    Harmless outer contents start made (onFailure run cleanup) := by
  intro state unharmed
  rw [ends_on_failure]
  apply ends_mono (before state unharmed)
  · exact fun _ _ holds => holds
  · exact fun _ reached holds => keeps reached holds

omit [DecidableEq Address] in
theorem unharmed_session (unharmed : Unharmed outer contents start state)
    (update : Session Address → Session Address) :
    Unharmed outer contents start (state.onSession update) :=
  ⟨unharmed.alive, unharmed.objects, unharmed.automatic, unharmed.contents⟩

theorem unharmed_object (unharmed : Unharmed outer contents start state) {address : Address}
    (own : ¬outer address) (update : Object Ptr Profile → Object Ptr Profile) :
    Unharmed outer contents start (state.onObject address update) where
  alive := unharmed.alive
  objects := by
    intro other caller
    have different : other ≠ address := fun same => own (same ▸ caller)
    simp only [State.onObject, Function.update_of_ne different]
    exact unharmed.objects other caller
  automatic := unharmed.automatic
  contents := unharmed.contents

theorem unharmed_construct (unharmed : Unharmed outer contents start state) {address : Address}
    (own : ¬outer address) (object : Object Ptr Profile) :
    Unharmed outer contents start (state.construct address object) where
  alive := fun other caller => Finset.mem_insert_of_mem (unharmed.alive other caller)
  objects := by
    intro other caller
    have different : other ≠ address := fun same => own (same ▸ caller)
    simp only [State.construct, Function.update_of_ne different]
    exact unharmed.objects other caller
  automatic := unharmed.automatic
  contents := unharmed.contents

theorem unharmed_destroy (unharmed : Unharmed outer contents start state) {address : Address}
    (own : ¬outer address) : Unharmed outer contents start (state.destroy address) where
  alive := by
    intro other caller
    have different : other ≠ address := fun same => own (same ▸ caller)
    exact Finset.mem_erase.mpr ⟨different, unharmed.alive other caller⟩
  objects := unharmed.objects
  automatic := unharmed.automatic
  contents := unharmed.contents

theorem unharmed_destroy_each (addresses : List Address)
    (own : ∀ address ∈ addresses, ¬outer address)
    (unharmed : Unharmed outer contents start state) :
    Unharmed outer contents start
      (addresses.foldl (fun reached address => reached.destroy address) state) := by
  induction addresses generalizing state with
  | nil => exact unharmed
  | cons address rest induction =>
      rw [List.foldl_cons]
      apply induction fun other member => own other (List.mem_cons_of_mem _ member)
      exact unharmed_destroy unharmed (own address List.mem_cons_self)

omit [DecidableEq Address] in
theorem unharmed_listed (unharmed : Unharmed outer contents start state)
    {locals temporaries : List Address}
    (own : ∀ address ∈ locals ++ temporaries, ¬outer address) :
    Unharmed outer contents start
      { state with locals := locals, temporaries := temporaries } :=
  ⟨unharmed.alive, unharmed.objects, own, unharmed.contents⟩

theorem unharmed_temporaries (unharmed : Unharmed outer contents start state) :
    Unharmed outer contents start state.destroyTemporaries := by
  have own : ∀ address ∈ state.temporaries, ¬outer address :=
    fun address member => unharmed.automatic address (List.mem_append_right _ member)
  have destroyed := unharmed_destroy_each state.temporaries own unharmed
  refine ⟨destroyed.alive, destroyed.objects, ?_, destroyed.contents⟩
  intro address member
  apply destroyed.automatic address
  rw [State.destroyTemporaries, List.append_nil] at member
  exact List.mem_append_left _ member

theorem unharmed_locals (unharmed : Unharmed outer contents start state) :
    Unharmed outer contents start state.destroyLocals := by
  have own : ∀ address ∈ state.locals.reverse, ¬outer address :=
    fun address member => unharmed.automatic address
      (List.mem_append_left _ (List.mem_reverse.mp member))
  have destroyed := unharmed_destroy_each state.locals.reverse own unharmed
  refine ⟨destroyed.alive, destroyed.objects, ?_, destroyed.contents⟩
  intro address member
  apply destroyed.automatic address
  rw [State.destroyLocals, List.nil_append] at member
  exact List.mem_append_right _ member

omit [DecidableEq Address] in
theorem harmless_session (update : Session Address → Session Address) :
    Harmless outer contents start (fun _ => True)
      (change (State.onSession update) : Recorder Address Ptr Profile σ Unit) :=
  harmless_change fun _ unharmed => unharmed_session unharmed update

theorem harmless_save (entity : Address) :
    Harmless outer contents start (fun _ => True)
      (change (State.save entity) : Recorder Address Ptr Profile σ Unit) :=
  harmless_session _

theorem harmless_construct (object : Object Ptr Profile) :
    Harmless outer contents start (fun address => ¬outer address) (construct host object) := by
  intro state unharmed
  have own : ¬outer (state.nextAddress host) :=
    fun caller => next_unused host state (unharmed.alive _ caller)
  exact ends_of_eq rfl ⟨unharmed_construct unharmed own object, own⟩

theorem harmless_track (entity : Address) :
    Harmless outer contents start (fun _ => True)
      (trackEntity entity : Recorder Address Ptr Profile σ Address) := by
  apply harmless_after_look
  intro seen
  apply harmless_bind (harmless_save entity)
  intro _ _
  split
  · exact harmless_pure trivial
  · exact harmless_fail _

theorem harmless_copy (other : Address) :
    Harmless outer contents start (fun address => ¬outer address) (copyConstruct host other) := by
  apply harmless_after_look
  intro seen
  simp only
  split_ifs
  · apply harmless_bind (harmless_construct _)
    intro address own
    exact harmless_bind (harmless_session _) fun _ _ => harmless_pure own
  · exact harmless_fail _
  · exact harmless_fail _
  · exact harmless_construct _

/-- Encryption leaves the live buffers alone, whether it throws or not. -/
def EncryptPreserves (contents : σ → Ptr → Option V) (host : Host Address Ptr Profile σ) : Prop :=
  ∀ profile value world, Preserves contents world (host.encrypt profile value world).2

theorem harmless_transform (encrypts : EncryptPreserves contents host) (profile : Profile)
    {entity : Address} (own : ¬outer entity) :
    Harmless outer contents start (fun _ => True) (transform host profile entity) := by
  intro state unharmed
  have preserved := encrypts profile (state.objects entity).val state.world
  have carried : Preserves contents start.world
      (host.encrypt profile (state.objects entity).val state.world).2 :=
    fun buffer value held => preserved buffer value (unharmed.contents buffer value held)
  unfold Ends transform
  rcases outcome : host.encrypt profile (state.objects entity).val state.world with
    ⟨message | buffer, world⟩
  · rw [outcome] at carried
    exact ⟨unharmed.alive, unharmed.objects, unharmed.automatic, carried⟩
  · rw [outcome] at carried
    have changed := unharmed_object unharmed own fun object =>
      { object with
        ciphertext := some
          { buffer := { raw := some buffer, control := state.nextControl }
            owner := host.backend }
        isEncrypted := true }
    exact ⟨⟨changed.alive, changed.objects, changed.automatic, carried⟩, trivial⟩

theorem harmless_belong (encrypts : EncryptPreserves contents host) {this : Address}
    (own : ¬outer this) (profile : Option Profile) :
    Harmless outer contents start (fun _ => True) (belong host this profile) := by
  apply harmless_bind (harmless_change fun _ unharmed => unharmed_object unharmed own _)
  intro _ _
  cases profile with
  | none => exact harmless_fail _
  | some profile =>
      exact harmless_bind (harmless_transform encrypts profile own) fun _ _ => harmless_save this

theorem harmless_literal (encrypts : EncryptPreserves contents host) {entity : Address}
    (own : ¬outer entity) (profile : Option Profile) :
    Harmless outer contents start (fun _ => True)
      (onFailure (belong host entity profile) (State.destroy entity)) :=
  harmless_on_failure (harmless_belong encrypts own profile)
    fun _ unharmed => unharmed_destroy unharmed own

theorem harmless_assign (this other : Address) :
    Harmless outer contents start (fun _ => True)
      (assign this other : Recorder Address Ptr Profile σ Unit) := by
  apply harmless_bind (harmless_track this)
  intro op1 _
  apply harmless_bind (harmless_track other)
  intro op2 _
  exact harmless_session _

theorem harmless_assign_scalar (encrypts : EncryptPreserves contents host) (this : Address)
    (scalar : Int) :
    Harmless outer contents start (fun _ => True) (assignScalar host this scalar) := by
  apply harmless_bind (harmless_save this)
  intro _ _
  apply harmless_bind (harmless_track this)
  intro op1 _
  apply harmless_bind (harmless_construct _)
  intro tmp own
  apply harmless_after_look
  intro seen
  exact harmless_bind (harmless_literal encrypts own _) fun _ _ => harmless_session _

theorem harmless_combine (operator : Arithmetic) (this other : Address) :
    Harmless outer contents start (fun address => ¬outer address)
      (combine host operator this other) := by
  apply harmless_bind (harmless_track this)
  intro op1 _
  apply harmless_bind (harmless_track other)
  intro op2 _
  apply harmless_bind (harmless_construct _)
  intro result _
  apply harmless_bind (harmless_save result)
  intro _ _
  apply harmless_bind (harmless_track result)
  intro _ _
  exact harmless_bind (harmless_session _) fun _ _ => harmless_copy result

theorem harmless_combine_scalar (encrypts : EncryptPreserves contents host)
    (operator : Arithmetic) (this : Address) (scalar : Int) :
    Harmless outer contents start (fun address => ¬outer address)
      (combineScalar host operator this scalar) := by
  apply harmless_bind (harmless_construct _)
  intro entity own
  apply harmless_after_look
  intro seen
  exact harmless_bind (harmless_literal encrypts own _) fun _ _ => harmless_combine _ _ _

omit [DecidableEq Address] in
theorem harmless_locate (name : Variable Address) :
    Harmless outer contents start (fun _ => True)
      (locate name : Recorder Address Ptr Profile σ Address) := by
  intro state unharmed
  cases name with
  | outer address => exact ends_of_eq rfl ⟨unharmed, trivial⟩
  | inner index =>
      cases found : state.locals[index]? with
      | none =>
          have missing : locate (.inner index) state = (.error .undeclared, state) := by
            simp only [locate, found]
          exact ends_of_failed missing unharmed
      | some address =>
          have located : locate (.inner index) state = (.ok address, state) := by
            simp only [locate, found]
          exact ends_of_eq located ⟨unharmed, trivial⟩

omit [DecidableEq Address] in
theorem harmless_hold {address : Address} (own : ¬outer address) :
    Harmless outer contents start (fun _ => True)
      (holdTemporary address : Recorder Address Ptr Profile σ Address) := by
  intro state unharmed
  refine ends_of_eq rfl ⟨unharmed_listed unharmed ?_, trivial⟩
  intro other member
  rcases List.mem_append.mp member with isLocal | isTemporary
  · exact unharmed.automatic other (List.mem_append_left _ isLocal)
  · rcases List.mem_cons.mp isTemporary with same | old
    · exact same ▸ own
    · exact unharmed.automatic other (List.mem_append_right _ old)

theorem harmless_evaluate (encrypts : EncryptPreserves contents host) (value : Expr Address) :
    Harmless outer contents start (fun _ => True) (evaluate host value) := by
  induction value with
  | read name => exact harmless_locate name
  | combine operator lhs rhs left right =>
      apply harmless_bind left
      intro this _
      apply harmless_bind right
      intro other _
      exact harmless_bind (harmless_combine operator this other) fun _ own => harmless_hold own
  | combineScalar operator lhs scalar left =>
      apply harmless_bind left
      intro this _
      exact harmless_bind (harmless_combine_scalar encrypts operator this scalar)
        fun _ own => harmless_hold own

theorem harmless_initializer (encrypts : EncryptPreserves contents host) (value : Expr Address) :
    Harmless outer contents start (fun address => ¬outer address) (initializer host value) := by
  cases value with
  | read name => exact harmless_bind (harmless_locate name) fun other _ => harmless_copy other
  | combine operator lhs rhs =>
      apply harmless_bind (harmless_evaluate encrypts lhs)
      intro this _
      exact harmless_bind (harmless_evaluate encrypts rhs)
        fun other _ => harmless_combine operator this other
  | combineScalar operator lhs scalar =>
      exact harmless_bind (harmless_evaluate encrypts lhs)
        fun this _ => harmless_combine_scalar encrypts operator this scalar

theorem harmless_perform (encrypts : EncryptPreserves contents host)
    (statement : Statement Address) :
    Harmless outer contents start (fun _ => True) (perform host statement) := by
  have temporaries : ∀ state : State Address Ptr Profile σ, Unharmed outer contents start state →
      Unharmed outer contents start state.destroyTemporaries :=
    fun _ unharmed => unharmed_temporaries unharmed
  cases statement with
  | declare value =>
      apply harmless_bind (harmless_ensuring (harmless_initializer encrypts value) temporaries)
      intro made own
      apply harmless_change
      intro state unharmed
      refine unharmed_listed unharmed ?_
      intro other member
      rw [List.append_assoc] at member
      rcases List.mem_append.mp member with isLocal | later
      · exact unharmed.automatic other (List.mem_append_left _ isLocal)
      · rcases List.mem_append.mp later with new | isTemporary
        · exact List.mem_singleton.mp new ▸ own
        · exact unharmed.automatic other (List.mem_append_right _ isTemporary)
  | assign target value =>
      apply harmless_ensuring _ temporaries
      apply harmless_bind (harmless_evaluate encrypts value)
      intro other _
      exact harmless_bind (harmless_locate target) fun this _ => harmless_assign this other
  | assignScalar target scalar =>
      exact harmless_bind (harmless_locate target)
        fun this _ => harmless_assign_scalar encrypts this scalar
  | raise message => exact harmless_fail _

theorem harmless_each (encrypts : EncryptPreserves contents host)
    (body : List (Statement Address)) :
    Harmless outer contents start (fun _ => True) (each (perform host) body) := by
  induction body with
  | nil => exact harmless_pure trivial
  | cons statement rest induction =>
      exact harmless_bind (harmless_perform encrypts statement) fun _ _ => induction

theorem harmless_record (encrypts : EncryptPreserves contents host)
    (body : List (Statement Address)) :
    Harmless outer contents start (fun _ => True) (record host body) :=
  harmless_ensuring (harmless_each encrypts body) fun _ unharmed => unharmed_locals unharmed

/-- Between two statements there are no temporaries. -/
def NoTemporaries (state : State Address Ptr Profile σ) : Prop := state.temporaries = []

theorem track_temporaries (entity : Address) :
    Persists NoTemporaries (trackEntity entity : Recorder Address Ptr Profile σ Address) := by
  apply persists_after_look
  intro seen
  refine persists_after_change (fun _ none => none) ?_
  split
  · exact persists_pure _
  · exact persists_fail _

theorem transform_temporaries (profile : Profile) (entity : Address) :
    Persists NoTemporaries (transform host profile entity) := by
  constructor
  intro state none
  simp only [transform]
  split
  · exact none
  · exact none

theorem belong_temporaries (this : Address) (profile : Option Profile) :
    Persists NoTemporaries (belong host this profile) := by
  refine persists_after_change (fun _ none => none) ?_
  cases profile with
  | none => exact persists_fail _
  | some profile =>
      exact persists_bind (transform_temporaries profile this)
        fun _ => persists_change fun _ none => none

theorem assign_scalar_temporaries (this : Address) (scalar : Int) :
    Persists NoTemporaries (assignScalar host this scalar) := by
  refine persists_after_change (fun _ none => none) ?_
  apply persists_bind (track_temporaries this)
  intro op1
  refine persists_bind ⟨fun _ none => none⟩ fun tmp => ?_
  apply persists_after_look
  intro seen
  exact persists_bind (persists_on_failure (belong_temporaries tmp _) fun _ none => none)
    fun _ => persists_change fun _ none => none

omit [DecidableEq Address] in
theorem locate_temporaries (name : Variable Address) :
    Persists NoTemporaries (locate name : Recorder Address Ptr Profile σ Address) := by
  constructor
  intro state none
  unfold locate
  split
  · exact none
  · split
    · exact none
    · exact none

theorem perform_temporaries (statement : Statement Address) :
    Persists NoTemporaries (perform host statement) := by
  cases statement with
  | declare value =>
      exact persists_bind ⟨fun _ _ => rfl⟩ fun _ => persists_change fun _ none => none
  | assign target value => exact ⟨fun _ _ => rfl⟩
  | assignScalar target scalar =>
      exact persists_bind (locate_temporaries target) fun this =>
        assign_scalar_temporaries this scalar
  | raise message => exact persists_fail _

theorem destroy_locals_temporaries (none : NoTemporaries state) :
    NoTemporaries state.destroyLocals := by
  have each (addresses : List Address) (reached : State Address Ptr Profile σ) :
      (addresses.foldl (fun reached address => reached.destroy address) reached).temporaries =
        reached.temporaries := by
    induction addresses generalizing reached with
    | nil => rfl
    | cons address rest induction => exact induction (reached.destroy address)
  exact (each state.locals.reverse state).trans none

theorem record_temporaries (body : List (Statement Address)) :
    Persists NoTemporaries (record host body) := by
  refine persists_ensuring ?_ fun _ none => destroy_locals_temporaries none
  induction body with
  | nil => exact persists_pure _
  | cons statement rest induction =>
      exact persists_bind (perform_temporaries statement) fun _ => induction

/-- The caller's variables and the session after a run that failed. -/
structure Atomic (outer : Address → Prop) (contents : σ → Ptr → Option V)
    (before after : State Address Ptr Profile σ) : Prop where
  flags : ∀ address, outer address →
    (after.objects address).isEncrypted = (before.objects address).isEncrypted
  buffers : ∀ address, outer address →
    (after.objects address).ciphertext = (before.objects address).ciphertext
  contents : ∀ address ciphertext buffer, outer address →
    (before.objects address).ciphertext = some ciphertext →
      ciphertext.buffer.raw = some buffer → (contents before.world buffer).isSome →
        contents after.world buffer = contents before.world buffer
  session : after.session = {}
  ready : Ready outer after

omit [DecidableEq Address] in
theorem activate_unharmed (ready : Ready outer state) :
    Unharmed outer contents state (activate state) where
  alive := fun address caller => (ready.outerAlive address caller).1
  objects := fun _ _ => rfl
  automatic := by
    intro address member
    have none : (activate state).locals ++ (activate state).temporaries = [] := by
      simp only [activate, State.onSession, ready.noLocals, ready.noTemporaries, List.append_nil]
    rw [none] at member
    cases member
  contents := fun _ _ held => held

variable {hooks : FhnMovementHooks Ptr σ} {dispatch : Dispatch Ptr σ} {backend : Nat}
  {evaluateGraph : Recorder Address Ptr Profile σ Unit} {final : State Address Ptr Profile σ}

theorem optimize_session_unharmed (laws : ContentsLaws contents hooks dispatch)
    (unharmed : Unharmed outer contents start state) {failure : Failure}
    (failed : optimizeSession backend hooks dispatch evaluateGraph state =
      (.error failure, final)) :
    Unharmed outer contents start final ∧ final.locals = state.locals ∧
      final.temporaries = state.temporaries := by
  have answers : (optimize backend hooks dispatch state.session.poison state.session.operations
      (runState state)).1 ≠ .ok false := optimize_answers _ _
  unfold optimizeSession at failed
  rcases ran : optimize backend hooks dispatch state.session.poison state.session.operations
    (runState state) with ⟨message | answer, after⟩
  · rw [ran] at failed
    obtain ⟨entities, preserved⟩ := optimize_failed laws ran
    obtain rfl := (Prod.mk.inj failed).2
    refine ⟨⟨unharmed.alive, ?_, unharmed.automatic, ?_⟩, rfl, rfl⟩
    · intro address caller
      rw [← unharmed.objects address caller]
      simp only [entities]
      rfl
    · exact fun buffer value held => preserved buffer value (unharmed.contents buffer value held)
  · rw [ran] at failed answers
    cases answer with
    | false => exact absurd rfl answers
    | true => cases (Prod.mk.inj failed).1

theorem end_run_atomic (ready : Ready outer start) (unharmed : Unharmed outer contents start state)
    (noLocals : state.locals = []) (noTemporaries : state.temporaries = []) :
    Atomic outer contents start (endRun state) where
  flags := fun address caller => congrArg (·.isEncrypted) (unharmed.objects address caller)
  buffers := fun address caller => congrArg (·.ciphertext) (unharmed.objects address caller)
  contents := by
    intro address ciphertext buffer _ _ _ live
    obtain ⟨value, held⟩ := Option.isSome_iff_exists.mp live
    rw [held]
    exact unharmed.contents buffer value held
  session := rfl
  ready :=
    { noOperations := rfl
      unpoisoned := rfl
      ownEntries := by
        intro key target entry
        cases entry
      outerAlive := by
        intro address caller
        have single : (state.objects address).shared = false := by
          rw [unharmed.objects address caller]
          exact (ready.outerAlive address caller).2
        have unowned : ¬ownedByOperations state address = true := by
          rw [ownedByOperations, single, Bool.false_and]
          exact Bool.false_ne_true
        exact ⟨Finset.mem_filter.mpr ⟨unharmed.alive address caller, unowned⟩, single⟩
      noLocals := noLocals
      noTemporaries := noTemporaries }

/-- A run that throws, wherever it does, leaves every variable of the caller with its flag,
its buffer and the buffer's contents, and the session as a new one. -/
theorem failed_run_atomic (contents : σ → Ptr → Option V) (hooks : FhnMovementHooks Ptr σ)
    (dispatch : Dispatch Ptr σ) (laws : ContentsLaws contents hooks dispatch)
    (host : Host Address Ptr Profile σ) (encrypts : EncryptPreserves contents host)
    (backend : Nat) (evaluateGraph : Recorder Address Ptr Profile σ Unit)
    (outer : Address → Prop) (state final : State Address Ptr Profile σ)
    (ready : Ready outer state) (body : List (Statement Address)) (message : String)
    (threw : run host backend hooks dispatch evaluateGraph body state =
      (.error (.thrown message), final)) : Atomic outer contents state final := by
  rw [run, bind_change_apply, ensuring] at threw
  obtain ⟨failed, ended⟩ := Prod.mk.inj threw
  rw [← ended]
  have unharmed := harmless_record encrypts body (activate state)
    (activate_unharmed ready)
  have none : NoTemporaries (record host body (activate state)).2 :=
    (record_temporaries body).keeps (activate state) ready.noTemporaries
  have noLocals : (record host body (activate state)).2.locals = [] := rfl
  rcases recorded : record host body (activate state) with ⟨failure | returned, reached⟩
  · rw [recorded] at none noLocals
    have safe := ends_failed unharmed recorded
    rw [bind_failed recorded]
    exact end_run_atomic ready safe noLocals none
  · rw [recorded] at none noLocals
    rw [bind_returned recorded] at failed ⊢
    obtain ⟨safe, locals, temporaries⟩ := optimize_session_unharmed laws
      (ends_returned unharmed recorded).1 (Prod.ext failed rfl)
    exact end_run_atomic ready safe (locals.trans noLocals) (temporaries.trans none)

section MovementWorld

open Fhenomenon.DeviceAbi Fhenomenon.MovementWorld Fhenomenon.ValueSemantics

theorem overwrite_keeps {world : World} {buffer : Nat} {cell : Cell Int}
    (live : cellAt world buffer = some cell) (resident : Bool) :
    Preserves movementModel.contents world
      (world.set buffer (some ⟨resident, cell.contents⟩)) := by
  intro other value held
  have seen : (cellAt world other).map (·.contents) = some value := held
  change (cellAt (world.set buffer (some ⟨resident, cell.contents⟩)) other).map (·.contents) =
    some value
  rw [cell_set world buffer other _ (cell_lt live)]
  by_cases same : other = buffer
  · rw [same, live] at seen
    rw [if_pos same]
    exact seen
  · rw [if_neg same]
    exact seen

theorem append_keeps (world : World) (cell : Cell Int) :
    Preserves movementModel.contents world (world ++ [some cell]) := by
  intro other value held
  have seen : (cellAt world other).map (·.contents) = some value := held
  change (cellAt (world ++ [some cell]) other).map (·.contents) = some value
  rw [cell_append, if_neg]
  · exact seen
  · intro same
    rw [same, cellAt, List.getElem?_eq_none (le_refl _)] at seen
    cases seen

theorem movement_contents_laws :
    ContentsLaws movementModel.contents movementHooks movementTable where
  allocated := by
    intro alloc registered world made returned
    obtain rfl : movementAlloc = alloc := Option.some.inj registered
    obtain rfl : world.length = made := Option.some.inj returned
    constructor
    · simp [DeviceModel.contents, movementModel, cellAt]
    · simp [DeviceModel.contents, movementModel, movementAlloc, cell_append]
  allocates := by
    intro alloc registered world
    obtain rfl : movementAlloc = alloc := Option.some.inj registered
    exact append_keeps world _
  freed := by
    intro free registered world buffer live other value different held
    obtain rfl : movementFree = free := Option.some.inj registered
    obtain ⟨kept, found⟩ := Option.isSome_iff_exists.mp live
    obtain ⟨cell, present, -⟩ := Option.map_eq_some_iff.mp found
    have seen : (cellAt world other).map (·.contents) = some value := held
    change (cellAt (world.set buffer none) other).map (·.contents) = some value
    rw [cell_set world buffer other none (cell_lt present), if_neg different]
    exact seen
  freesNull := by
    intro free registered world
    obtain rfl : movementFree = free := Option.some.inj registered
    exact fun _ _ held => held
  evicted := by
    intro evict registered buffer world
    obtain rfl : movementEvict = evict := Option.some.inj registered
    cases buffer with
    | none => exact fun _ _ held => held
    | some buffer =>
        simp only [movementEvict]
        split
        · rename_i found
          exact overwrite_keeps found false
        · exact fun _ _ held => held
  prefetched := by
    intro prefetch registered buffer world
    obtain rfl : movementPrefetch = prefetch := Option.some.inj registered
    cases buffer with
    | none => exact fun _ _ held => held
    | some buffer =>
        simp only [movementPrefetch]
        split
        · rename_i found
          exact overwrite_keeps found true
        · exact fun _ _ held => held
  called := by
    intro opcode fn registered result operands params fparams world buffer value held
    obtain rfl := movement_table_add registered
    simp only [movementAddKernel]
    split
    · rename_i first second target old _ _ found
      simp only [deviceVal, Option.bind_some] at found
      split at found
      · rename_i kept live
        have seen : (cellAt world buffer).map (·.contents) = some value := held
        have written (cell : Cell Int) :
            movementModel.contents (world.set target (some cell)) buffer =
              if buffer = target then some cell.contents else some value := by
          change (cellAt (world.set target (some cell)) buffer).map (·.contents) = _
          rw [cell_set world target buffer _ (cell_lt live)]
          split
          · rfl
          · exact seen
        rw [written]
        constructor
        · split <;> rfl
        · intro apart
          rw [if_neg fun same => apart (congrArg some same.symm)]
      · cases found
    · exact ⟨by rw [held]; rfl, fun _ => held⟩

theorem appending_preserves : EncryptPreserves movementModel.contents appendingHost :=
  fun _ value world => append_keeps world ⟨true, value⟩

/-- `c = a + b; a = c * b` for a backend that only adds. -/
def sumThenProduct : List (Statement Nat) :=
  [.assign (.outer 2) (.combine .add (.read (.outer 0)) (.read (.outer 1))),
    .assign (.outer 0) (.combine .multiply (.read (.outer 2)) (.read (.outer 1)))]

theorem sum_then_product_atomic :
    ∃ final, run appendingHost 1 movementHooks movementTable fallsBack sumThenProduct
        heldVariables = (.error (.thrown "Session: FHN executor failed with rc=-1"), final) ∧
      Atomic (· < 3) movementModel.contents heldVariables final := by
  have threw : (run appendingHost 1 movementHooks movementTable fallsBack sumThenProduct
      heldVariables).1 = .error (.thrown "Session: FHN executor failed with rc=-1") := by
    decide
  exact ⟨_, Prod.ext threw rfl, failed_run_atomic movementModel.contents movementHooks
    movementTable movement_contents_laws appendingHost appending_preserves 1 fallsBack (· < 3)
    heldVariables _ held_ready sumThenProduct _ (Prod.ext threw rfl)⟩

end MovementWorld

end Fhenomenon.AtomicRuns
