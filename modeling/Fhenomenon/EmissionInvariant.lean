import Fhenomenon.LoweringWalk
import Fhenomenon.LoweringSound

/-!
# The invariant of the lowering walk

Every visited node emits once. An instruction or an input takes the next id, a
renaming takes the id of its value, and that id holds what the node denotes.
-/

namespace Fhenomenon.EmissionInvariant

open Fhenomenon.InstructionStream Fhenomenon.RecordedGraph Fhenomenon.Lowering
open Fhenomenon.DeviceAbi Fhenomenon.NodeGraphs Fhenomenon.RecordedMeaning
open Fhenomenon.LoweringWalk

variable {Entity Ptr V : Type*}

def idOf (state : LoweringState Entity) (node : ASTNode Entity) : Nat :=
  (state.nodeIds node.address).getD 0

/-- `emitters` are the nodes lowered so far, in order. -/
structure Emitted (entities : Entity → Fhenon Ptr) (state : LoweringState Entity)
    (emitters : List (ASTNode Entity)) : Prop where
  supported : state.supported = true
  nodup : (emitters.map (·.address)).Nodup
  known : ∀ address, (state.nodeIds address).isSome = true ↔ address ∈ emitters.map (·.address)
  bindings : state.bindings = emitters.map (fun node => (idOf state node, boundEntity node))
  inputs : state.inputs = (emitters.filter isOperand).map (idOf state)
  results : state.instructions.map (·.resultId) =
    (emitters.filter isComputation).map (idOf state)
  closed : ∀ node ∈ emitters, ∀ child ∈ loweredChildren entities node, child ∈ emitters

variable {entities : Entity → Fhenon Ptr} {state : LoweringState Entity}
  {emitters : List (ASTNode Entity)}

theorem emitted_start : Emitted entities ({} : LoweringState Entity) [] where
  supported := rfl
  nodup := List.nodup_nil
  known := by simp
  bindings := rfl
  inputs := rfl
  results := rfl
  closed := by simp

theorem unknown_not_emitted (emitted : Emitted entities state emitters) {node : ASTNode Entity}
    (fresh : state.nodeIds node.address = none) : node.address ∉ emitters.map (·.address) := by
  rw [← emitted.known, fresh]
  exact Bool.false_ne_true

theorem id_kept (emitted : Emitted entities state emitters) {node : ASTNode Entity}
    (fresh : state.nodeIds node.address = none) {next : LoweringState Entity} {id : Nat}
    (ids : next.nodeIds = Function.update state.nodeIds node.address (some id)) :
    ∀ other ∈ emitters, idOf next other = idOf state other := by
  intro other member
  have different : other.address ≠ node.address := by
    intro same
    apply unknown_not_emitted emitted fresh
    rw [← same]
    exact List.mem_map_of_mem member
  rw [idOf, ids, Function.update_of_ne different, idOf]

theorem emitted_grows (emitted : Emitted entities state emitters) (node : ASTNode Entity)
    (fresh : state.nodeIds node.address = none)
    (children : ∀ child ∈ loweredChildren entities node, child ∈ emitters)
    (next : LoweringState Entity) (id : Nat) (supported : next.supported = true)
    (ids : next.nodeIds = Function.update state.nodeIds node.address (some id))
    (bindings : next.bindings = state.bindings ++ [(id, boundEntity node)])
    (inputs : next.inputs = state.inputs ++ if isOperand node then [id] else [])
    (results : next.instructions.map (·.resultId) =
      state.instructions.map (·.resultId) ++ if isComputation node then [id] else []) :
    Emitted entities next (emitters ++ [node]) := by
  have kept := id_kept emitted fresh ids
  have own : idOf next node = id := by
    rw [idOf, ids, Function.update_self, Option.getD_some]
  have filtered (keep : ASTNode Entity → Bool) :
      ((emitters ++ [node]).filter keep).map (idOf next) =
        (emitters.filter keep).map (idOf state) ++ if keep node then [id] else [] := by
    have same : (emitters.filter keep).map (idOf next) = (emitters.filter keep).map (idOf state) :=
      List.map_congr_left (fun other member => kept other (List.mem_of_mem_filter member))
    rw [List.filter_append, List.map_append, same]
    congr 1
    cases keeps : keep node with
    | true => simp [keeps, own]
    | false => simp [keeps]
  constructor
  · exact supported
  · rw [List.map_append, List.map_singleton]
    apply List.Nodup.append emitted.nodup (List.nodup_singleton _)
    rw [List.disjoint_singleton]
    exact unknown_not_emitted emitted fresh
  · intro address
    rw [ids, List.map_append, List.mem_append, ← emitted.known, List.map_singleton,
      List.mem_singleton]
    by_cases same : address = node.address
    · simp [same]
    · simp [same]
  · have same : emitters.map (fun other => (idOf next other, boundEntity other)) =
        emitters.map (fun other => (idOf state other, boundEntity other)) := by
      apply List.map_congr_left
      intro other member
      rw [kept other member]
    rw [bindings, List.map_append, List.map_singleton, own, same, emitted.bindings]
  · rw [inputs, filtered, emitted.inputs]
  · rw [results, filtered, emitted.results]
  · intro other member child next
    apply List.mem_append_left
    rcases List.mem_append.mp member with old | new
    · exact emitted.closed other old child next
    · rw [List.mem_singleton.mp new] at next
      exact children child next

variable {arithmetic : Arithmetic V} {store : Entity → V} {meaning : Nat → V}

/-- The program so far is single assignment, and `meaning` gives every id what
the nodes with that id denote. -/
structure Holds (arithmetic : Arithmetic V) (entities : Entity → Fhenon Ptr)
    (store : Entity → V) (state : LoweringState Entity) (emitters : List (ASTNode Entity))
    (meaning : Nat → V) : Prop where
  next : state.nextId = state.program.definedIds.length + 1
  below : ∀ id ∈ state.program.definedIds, id < state.nextId
  valid : SsaValid state.program
  solves : ∀ inst ∈ state.instructions, Solves arithmetic meaning inst
  defined : ∀ node ∈ emitters, idOf state node ∈ state.program.definedIds
  denotes : ∀ node ∈ emitters,
    meaning (idOf state node) = denote arithmetic entities store node
  provisioned : ∀ id ∈ state.inputs, ∃ entity,
    firstBound state.bindings id = some (some entity) ∧ meaning id = store entity

theorem holds_start (meaning : Nat → V) :
    Holds arithmetic entities store ({} : LoweringState Entity) [] meaning := by
  have start : LoweringSound.Lowered ({} : LoweringState Entity) (fun _ => (0 : Int)) :=
    LoweringSound.lowered_start _
  constructor
  · rfl
  · exact start.below
  · exact start.valid
  · simp
  · simp
  · simp
  · simp

structure Walk (arithmetic : Arithmetic V) (entities : Entity → Fhenon Ptr)
    (store : Entity → V) (state : LoweringState Entity) (emitters : List (ASTNode Entity))
    (meaning : Nat → V) : Prop where
  emitted : Emitted entities state emitters
  holds : Holds arithmetic entities store state emitters meaning

theorem fresh_undefined (walk : Walk arithmetic entities store state emitters meaning) :
    state.nextId ∉ state.program.definedIds := by
  intro member
  exact absurd (walk.holds.below _ member) (lt_irrefl _)

theorem next_positive (walk : Walk arithmetic entities store state emitters meaning) :
    state.nextId ≠ 0 := by
  rw [walk.holds.next]
  exact Nat.succ_ne_zero _

theorem old_meaning (walk : Walk arithmetic entities store state emitters meaning) (value : V)
    {id : Nat} (defined : id ∈ state.program.definedIds) :
    Function.update meaning state.nextId value id = meaning id :=
  Function.update_of_ne (ne_of_mem_of_not_mem defined (fresh_undefined walk)) _ _

theorem bound_defined (walk : Walk arithmetic entities store state emitters meaning) :
    ∀ binding ∈ state.bindings, binding.1 ∈ state.program.definedIds := by
  intro binding member
  rw [walk.emitted.bindings] at member
  obtain ⟨node, nodeMember, same⟩ := List.mem_map.mp member
  rw [← same]
  exact walk.holds.defined node nodeMember

theorem old_solves (walk : Walk arithmetic entities store state emitters meaning) (value : V) :
    ∀ inst ∈ state.instructions,
      Solves arithmetic (Function.update meaning state.nextId value) inst := by
  intro inst member
  apply solves_congr (walk.holds.solves inst member)
  · apply old_meaning walk
    exact List.mem_append_right _ (List.mem_map_of_mem member)
  · intro id used
    obtain ⟨position, get⟩ := List.mem_iff_getElem?.mp member
    apply old_meaning walk
    exact defined_before_subset _ position
      (walk.holds.valid.operandsDefined position _ ⟨inst, get, used⟩)

/-- An input or an instruction takes the next id and gives it the value of its
node. -/
theorem walk_defines (walk : Walk arithmetic entities store state emitters meaning)
    (node : ASTNode Entity) (fresh : state.nodeIds node.address = none)
    {next : LoweringState Entity} (emitted : Emitted entities next (emitters ++ [node]))
    (ids : next.nodeIds = Function.update state.nodeIds node.address (some state.nextId))
    (counter : next.nextId = state.nextId + 1)
    (defined : ∀ id, id ∈ next.program.definedIds ↔
      id ∈ state.program.definedIds ∨ id = state.nextId)
    (length : next.program.definedIds.length = state.program.definedIds.length + 1)
    (valid : SsaValid next.program)
    (solves : ∀ inst ∈ next.instructions, Solves arithmetic
      (Function.update meaning state.nextId (denote arithmetic entities store node)) inst)
    (provisioned : ∀ id ∈ next.inputs, ∃ entity,
      firstBound next.bindings id = some (some entity) ∧ Function.update meaning state.nextId
        (denote arithmetic entities store node) id = store entity) :
    Walk arithmetic entities store next (emitters ++ [node])
      (Function.update meaning state.nextId (denote arithmetic entities store node)) := by
  have own : idOf next node = state.nextId := by
    rw [idOf, ids, Function.update_self, Option.getD_some]
  have kept := id_kept walk.emitted fresh ids
  refine ⟨emitted, ?_⟩
  constructor
  · rw [counter, length, walk.holds.next]
  · intro id member
    rw [counter]
    rcases (defined id).mp member with old | new
    · exact Nat.lt_succ_of_lt (walk.holds.below id old)
    · omega
  · exact valid
  · exact solves
  · intro other member
    rw [defined]
    rcases List.mem_append.mp member with old | new
    · rw [kept other old]
      exact Or.inl (walk.holds.defined other old)
    · rw [List.mem_singleton.mp new, own]
      exact Or.inr rfl
  · intro other member
    rcases List.mem_append.mp member with old | new
    · rw [kept other old, old_meaning walk _ (walk.holds.defined other old)]
      exact walk.holds.denotes other old
    · rw [List.mem_singleton.mp new, own]
      exact Function.update_self _ _ _
  · exact provisioned

theorem old_provisioned (walk : Walk arithmetic entities store state emitters meaning)
    (more : Bindings Entity) (value : V) : ∀ id ∈ state.inputs, ∃ entity,
      firstBound (state.bindings ++ more) id = some (some entity) ∧
        Function.update meaning state.nextId value id = store entity := by
  intro id member
  obtain ⟨entity, found, meant⟩ := walk.holds.provisioned id member
  refine ⟨entity, first_bound_append found more, ?_⟩
  rw [old_meaning walk value (List.mem_append_left _ member)]
  exact meant

theorem walk_input (walk : Walk arithmetic entities store state emitters meaning) (address : Nat)
    (entity : Entity) (fresh : state.nodeIds address = none) :
    Walk arithmetic entities store (state.addInput address entity)
      (emitters ++ [.operand address entity])
      (Function.update meaning state.nextId (store entity)) := by
  have emitted : Emitted entities (state.addInput address entity)
      (emitters ++ [.operand address entity]) := by
    apply emitted_grows walk.emitted (.operand address entity) fresh (by simp [loweredChildren])
      (state.addInput address entity) state.nextId
    · exact walk.emitted.supported
    · rfl
    · rfl
    · rfl
    · simp [LoweringState.addInput, isComputation, nodeType?]
  apply walk_defines walk (.operand address entity) fresh emitted
  · rfl
  · rfl
  · exact LoweringSound.add_input_defined state address entity
  · simp only [FhnProgram.definedIds, FhnProgram.resultIds, LoweringState.program,
      LoweringState.toProgram, LoweringState.addInput, List.length_append, List.length_singleton]
    omega
  · exact ssa_add_input walk.holds.valid state.nextId (next_positive walk) (fresh_undefined walk)
  · exact old_solves walk _
  · intro id member
    rcases List.mem_append.mp member with old | new
    · exact old_provisioned walk _ _ id old
    · rw [List.mem_singleton.mp new]
      refine ⟨entity, ?_, Function.update_self _ _ _⟩
      apply first_bound_new
      intro binding bound
      exact ne_of_mem_of_not_mem (bound_defined walk binding bound) (fresh_undefined walk)

theorem walk_instruction (walk : Walk arithmetic entities store state emitters meaning)
    {node : ASTNode Entity} (fresh : state.nodeIds node.address = none)
    (children : ∀ child ∈ loweredChildren entities node, child ∈ emitters)
    (computes : isComputation node = true) (inst : FhnInstruction)
    (named : inst.resultId = state.nextId)
    (used : ∀ id ∈ inst.usedOperands, id ∈ state.program.definedIds)
    (present : ∀ slot ∈ readSlots inst.opcode, inst.operands slot ≠ 0)
    (value : resultValue arithmetic meaning inst = some (denote arithmetic entities store node)) :
    Walk arithmetic entities store
      (state.addInstruction node.address inst (boundEntity node)) (emitters ++ [node])
      (Function.update meaning state.nextId (denote arithmetic entities store node)) := by
  have operand : isOperand node = false := by
    cases node with
    | operand address entity => cases computes
    | operator => rfl
    | unary => rfl
    | fused => rfl
  have emitted : Emitted entities
      (state.addInstruction node.address inst (boundEntity node)) (emitters ++ [node]) := by
    apply emitted_grows walk.emitted node fresh children _ state.nextId
    · exact walk.emitted.supported
    · rw [← named]
      rfl
    · rw [← named]
      rfl
    · rw [operand]
      simp [LoweringState.addInstruction]
    · simp [LoweringState.addInstruction, computes, named]
  apply walk_defines walk node fresh emitted
  · rw [← named]
    rfl
  · rfl
  · intro id
    rw [← named]
    exact LoweringSound.add_instruction_defined state node.address inst (boundEntity node) id
  · simp only [FhnProgram.definedIds, FhnProgram.resultIds, LoweringState.program,
      LoweringState.toProgram, LoweringState.addInstruction, List.map_append, List.map_singleton,
      List.length_append, List.length_singleton]
    omega
  · exact ssa_add_instruction walk.holds.valid inst (named ▸ next_positive walk)
      (named ▸ fresh_undefined walk) used
  · intro other member
    rcases List.mem_append.mp member with old | new
    · exact old_solves walk _ other old
    · rw [List.mem_singleton.mp new]
      refine ⟨present, ?_⟩
      rw [named, Function.update_self, ← value]
      apply result_value_congr
      intro slot reads
      exact old_meaning walk _ (used _ ((mem_used_operands inst _).mpr
        ⟨present slot reads, slot, rfl⟩))
  · exact old_provisioned walk _ _

theorem known_id (walk : Walk arithmetic entities store state emitters meaning)
    {node : ASTNode Entity} (member : node ∈ emitters) :
    state.nodeIds node.address = some (idOf state node) := by
  have known := (walk.emitted.known node.address).mpr (List.mem_map_of_mem member)
  obtain ⟨id, found⟩ := Option.isSome_iff_exists.mp known
  rw [idOf, found, Option.getD_some]

/-- The state after a renaming to a known id. -/
def renamed (state : LoweringState Entity) (node : ASTNode Entity) (id : Nat) :
    LoweringState Entity :=
  { state with
    nodeIds := Function.update state.nodeIds node.address (some id)
    bindings := state.bindings ++ [(id, boundEntity node)] }

theorem assignment_renames {node value : ASTNode Entity} {id : Nat}
    (found : state.nodeIds value.address = some id) :
    state.addAssignment node.address value (boundEntity node) = renamed state node id := by
  rw [LoweringState.addAssignment, found]
  rfl

theorem walk_assignment (walk : Walk arithmetic entities store state emitters meaning)
    {node value : ASTNode Entity} (fresh : state.nodeIds node.address = none)
    (children : ∀ child ∈ loweredChildren entities node, child ∈ emitters)
    (operand : isOperand node = false) (renames : isComputation node = false)
    (member : value ∈ emitters)
    (same : denote arithmetic entities store node = denote arithmetic entities store value) :
    Walk arithmetic entities store
      (state.addAssignment node.address value (boundEntity node)) (emitters ++ [node])
      meaning := by
  rw [assignment_renames (known_id walk member)]
  have emitted : Emitted entities (renamed state node (idOf state value))
      (emitters ++ [node]) := by
    apply emitted_grows walk.emitted node fresh children _ (idOf state value)
    · exact walk.emitted.supported
    · rfl
    · rfl
    · simp [renamed, operand]
    · simp [renamed, renames]
  have ids : (renamed state node (idOf state value)).nodeIds =
      Function.update state.nodeIds node.address (some (idOf state value)) := rfl
  have kept := id_kept walk.emitted fresh ids
  have own : idOf (renamed state node (idOf state value)) node = idOf state value := by
    rw [idOf, ids, Function.update_self, Option.getD_some]
  refine ⟨emitted, ?_⟩
  constructor
  · exact walk.holds.next
  · exact walk.holds.below
  · exact walk.holds.valid
  · exact walk.holds.solves
  · intro other otherMember
    rcases List.mem_append.mp otherMember with old | new
    · rw [kept other old]
      exact walk.holds.defined other old
    · rw [List.mem_singleton.mp new, own]
      exact walk.holds.defined value member
  · intro other otherMember
    rcases List.mem_append.mp otherMember with old | new
    · rw [kept other old]
      exact walk.holds.denotes other old
    · rw [List.mem_singleton.mp new, own, same]
      exact walk.holds.denotes value member
  · intro id input
    obtain ⟨entity, found, meant⟩ := walk.holds.provisioned id input
    exact ⟨entity, first_bound_append found _, meant⟩

theorem looked_up_defined (walk : Walk arithmetic entities store state emitters meaning)
    (node : ASTNode Entity) (nonzero : idOf state node ≠ 0) :
    idOf state node ∈ state.program.definedIds := by
  cases found : state.nodeIds node.address with
  | none =>
      rw [idOf, found] at nonzero
      exact absurd rfl nonzero
  | some id =>
      have known := (walk.emitted.known node.address).mp (by rw [found]; rfl)
      obtain ⟨other, member, same⟩ := List.mem_map.mp known
      have equal : idOf state other = idOf state node := by rw [idOf, idOf, same]
      rw [← equal]
      exact walk.holds.defined other member

theorem lowered_nonzero (walk : Walk arithmetic entities store state emitters meaning)
    {node : ASTNode Entity} (member : node ∈ emitters) : idOf state node ≠ 0 :=
  walk.holds.valid.nonzero _ (walk.holds.defined node member)

theorem folded_type {type : OperationType} {node : ASTNode Entity} {scalar : Entity}
    (folded : scalarOperand entities type node = some scalar) :
    type = .add ∨ type = .multiply := by
  cases node with
  | operand address entity =>
      rw [scalarOperand] at folded
      split at folded
      · rename_i both
        exact both.1
      · cases folded
  | operator => cases folded
  | unary => cases folded
  | fused => cases folded

section Instructions

variable (operation : Operation Entity) (type : OperationType) (left right : ASTNode Entity)
  (result : Option Entity) (address : Nat)

theorem operator_value (computes : type ≠ .assignment) (supported : type ≠ .refresh)
    (first : meaning (idOf state left) = denote arithmetic entities store left)
    (second : scalarOperand entities type right = none →
      meaning (idOf state right) = denote arithmetic entities store right) :
    resultValue arithmetic meaning (operatorInstruction entities operation type left right
        (scalarOperand entities type right) state) =
      some (denote arithmetic entities store
        (.operator address operation type left right result)) := by
  rw [idOf] at first
  cases folded : scalarOperand entities type right with
  | some scalar =>
      rcases folded_type folded with add | multiply
      · subst add
        simp [resultValue, operatorInstruction, denote, Arithmetic.apply, folded, first]
      · subst multiply
        simp [resultValue, operatorInstruction, denote, Arithmetic.apply, folded, first]
  | none =>
      have right := second folded
      rw [idOf] at right
      cases type with
      | assignment => exact absurd rfl computes
      | refresh => exact absurd rfl supported
      | add | sub | multiply | conjugate | leftRotate | rightRotate =>
          simp [resultValue, operatorInstruction, mapOpType, denote, Arithmetic.apply, folded,
            first, right]

theorem operator_present (first : idOf state left ≠ 0)
    (second : scalarOperand entities type right = none → idOf state right ≠ 0) :
    ∀ slot ∈ readSlots (operatorInstruction entities operation type left right
        (scalarOperand entities type right) state).opcode,
      (operatorInstruction entities operation type left right
        (scalarOperand entities type right) state).operands slot ≠ 0 := by
  intro slot reads
  cases folded : scalarOperand entities type right with
  | some scalar =>
      rw [folded] at reads
      have only : slot = 0 := by
        simp only [operatorInstruction] at reads
        split at reads
        · exact List.mem_singleton.mp reads
        · exact List.mem_singleton.mp reads
      rw [only]
      exact first
  | none =>
      have right := second folded
      rw [folded] at reads
      have either : slot = 0 ∨ slot = 1 := by
        cases type <;> simp [operatorInstruction, mapOpType, readSlots] at reads <;> tauto
      rcases either with zero | one
      · rw [zero]
        exact first
      · rw [one]
        exact right

theorem operator_used (walk : Walk arithmetic entities store state emitters meaning)
    (scalar : Option Entity) :
    ∀ id ∈ (operatorInstruction entities operation type left right scalar state).usedOperands,
      id ∈ state.program.definedIds := by
  intro id used
  obtain ⟨nonzero, slot, same⟩ := (mem_used_operands _ id).mp used
  rw [← same] at nonzero ⊢
  fin_cases slot
  · exact looked_up_defined walk left nonzero
  · exact looked_up_defined walk right nonzero
  · exact absurd rfl nonzero
  · exact absurd rfl nonzero

theorem unary_value
    (complete : isComplete (.unary address operation type left result) = true)
    (supported : type ≠ .refresh)
    (first : meaning (idOf state left) = denote arithmetic entities store left) :
    resultValue arithmetic meaning (unaryInstruction operation type left state) =
      some (denote arithmetic entities store (.unary address operation type left result)) := by
  rw [idOf] at first
  cases type with
  | assignment | add | sub | multiply => cases complete
  | refresh => exact absurd rfl supported
  | conjugate | leftRotate | rightRotate =>
      simp [resultValue, unaryInstruction, mapOpType, denote, Arithmetic.apply, first]

theorem unary_present (complete : isComplete (.unary address operation type left result) = true)
    (first : idOf state left ≠ 0) :
    ∀ slot ∈ readSlots (unaryInstruction operation type left state).opcode,
      (unaryInstruction operation type left state).operands slot ≠ 0 := by
  intro slot reads
  have only : slot = 0 := by
    cases type with
    | assignment | add | sub | multiply => cases complete
    | refresh => cases reads
    | conjugate | leftRotate | rightRotate => exact List.mem_singleton.mp reads
  rw [only]
  exact first

theorem unary_used (walk : Walk arithmetic entities store state emitters meaning) :
    ∀ id ∈ (unaryInstruction operation type left state).usedOperands,
      id ∈ state.program.definedIds := by
  intro id used
  obtain ⟨nonzero, slot, same⟩ := (mem_used_operands _ id).mp used
  rw [← same] at nonzero ⊢
  fin_cases slot
  · exact looked_up_defined walk left nonzero
  · exact absurd rfl nonzero
  · exact absurd rfl nonzero
  · exact absurd rfl nonzero

end Instructions

theorem walk_emit (walk : Walk arithmetic entities store state emitters meaning)
    (node : ASTNode Entity) (fresh : state.nodeIds node.address = none)
    (children : ∀ child ∈ loweredChildren entities node, child ∈ emitters)
    (complete : isComplete node = true) (supported : isSupported node = true) :
    ∃ meaning, Walk arithmetic entities store (emit entities node state) (emitters ++ [node])
      meaning := by
  cases node with
  | operand address entity => exact ⟨_, walk_input walk address entity fresh⟩
  | operator address operation type left right result =>
      have first : left ∈ emitters := by
        apply children
        rw [loweredChildren]
        split
        · exact List.mem_singleton_self _
        · exact List.mem_cons_self
      have second : scalarOperand entities type right = none → right ∈ emitters := by
        intro kept
        apply children
        rw [loweredChildren, kept]
        simp
      have refresh : type ≠ .refresh := by
        intro same
        subst same
        cases supported
      by_cases renames : type = .assignment
      · subst renames
        have kept : scalarOperand entities .assignment right = none :=
          LoweringSound.scalar_operand_assignment right
        rw [emit, if_pos rfl]
        refine ⟨meaning, walk_assignment walk fresh children rfl rfl (second kept) ?_⟩
        rw [denote, kept]
        rfl
      · rw [emit, if_neg renames]
        have computes :
            isComputation (.operator address operation type left right result) = true := by
          simpa [isComputation, nodeType?] using renames
        refine ⟨_, walk_instruction walk fresh children computes _ rfl ?_ ?_ ?_⟩
        · exact operator_used operation type left right walk _
        · exact operator_present operation type left right (lowered_nonzero walk first)
            (fun kept => lowered_nonzero walk (second kept))
        · exact operator_value operation type left right result address renames refresh
            (walk.holds.denotes left first) (fun kept => walk.holds.denotes right (second kept))
  | unary address operation type left result =>
      have first : left ∈ emitters := children left (List.mem_singleton_self _)
      have refresh : type ≠ .refresh := by
        intro same
        subst same
        cases supported
      have renames : type ≠ .assignment := by
        intro same
        subst same
        cases complete
      rw [emit, if_neg renames]
      have computes : isComputation (.unary address operation type left result) = true := by
        simpa [isComputation, nodeType?] using renames
      refine ⟨_, walk_instruction walk fresh children computes _ rfl ?_ ?_ ?_⟩
      · exact unary_used operation type left walk
      · exact unary_present operation type left result address complete (lowered_nonzero walk first)
      · exact unary_value operation type left result address complete refresh
          (walk.holds.denotes left first)
  | fused address => cases supported

/-- The nodes have emitted, and nothing else but the nodes below them. -/
def WalksTo (arithmetic : Arithmetic V) (entities : Entity → Fhenon Ptr) (store : Entity → V)
    (emitters nodes : List (ASTNode Entity)) (state : LoweringState Entity) : Prop :=
  ∃ next meaning, Walk arithmetic entities store state next meaning ∧ emitters ⊆ next ∧
    nodes ⊆ next ∧ ∀ other ∈ next, other ∈ emitters ∨ other ∈ visited entities nodes

theorem walk_roots {graph : List (ASTNode Entity)} (shared : Shared entities graph)
    (nodes : List (ASTNode Entity)) (inside : nodes ⊆ graph)
    (each : ∀ node ∈ nodes, ∀ (state : LoweringState Entity) emitters meaning,
      Walk arithmetic entities store state emitters meaning → emitters ⊆ graph →
      WalksTo arithmetic entities store emitters [node] (lowerNode entities node state))
    (state : LoweringState Entity) (emitters : List (ASTNode Entity)) (meaning : Nat → V)
    (walk : Walk arithmetic entities store state emitters meaning) (within : emitters ⊆ graph) :
    WalksTo arithmetic entities store emitters nodes (lowerRoots entities nodes state) := by
  induction nodes generalizing state emitters meaning with
  | nil =>
      refine ⟨emitters, meaning, walk, List.Subset.refl _, List.nil_subset _, ?_⟩
      intro other member
      exact Or.inl member
  | cons node rest induction =>
      obtain ⟨first, firstMeaning, firstWalk, firstKept, firstNode, firstOnly⟩ :=
        each node List.mem_cons_self state emitters meaning walk within
      have firstWithin : first ⊆ graph := by
        intro other member
        rcases firstOnly other member with old | new
        · exact within old
        · apply visited_inside shared _ new
          simpa using inside List.mem_cons_self
      obtain ⟨next, nextMeaning, nextWalk, nextKept, nextNodes, nextOnly⟩ :=
        induction (List.Subset.trans (List.subset_cons_self _ _) inside)
          (fun other member => each other (List.mem_cons_of_mem _ member))
          (lowerNode entities node state) first firstMeaning firstWalk firstWithin
      rw [lower_roots_cons]
      refine ⟨next, nextMeaning, nextWalk, List.Subset.trans firstKept nextKept, ?_, ?_⟩
      · rw [List.cons_subset]
        exact ⟨nextKept (firstNode (List.mem_singleton_self _)), nextNodes⟩
      · intro other member
        have split : visited entities (node :: rest) =
            visited entities [node] ++ visited entities rest := by
          simp [visited]
        rw [split, List.mem_append]
        rcases nextOnly other member with old | new
        · exact (firstOnly other old).imp_right Or.inl
        · exact Or.inr (Or.inr new)

theorem walk_node {graph : List (ASTNode Entity)} (shared : Shared entities graph)
    (complete : ∀ node ∈ graph, isComplete node = true)
    (supported : ∀ node ∈ graph, isSupported node = true) (node : ASTNode Entity) :
    node ∈ graph → ∀ (state : LoweringState Entity) emitters meaning,
      Walk arithmetic entities store state emitters meaning → emitters ⊆ graph →
      WalksTo arithmetic entities store emitters [node] (lowerNode entities node state) := by
  induction node using children_induction entities with
  | step node holds =>
      intro inside state emitters meaning walk within
      -- an address the memo knows is the address of an emitter, which is then the node
      have recognized (other : ASTNode Entity) (member : other ∈ graph)
          (same : other.address = node.address) : other = node :=
        shared.same other member node inside same
      rw [lower_node_emits]
      split
      · rename_i seen
        obtain ⟨other, member, same⟩ :=
          List.mem_map.mp ((walk.emitted.known node.address).mp seen)
        rw [recognized other (within member) same] at member
        refine ⟨emitters, meaning, walk, List.Subset.refl _, by simpa using member, ?_⟩
        intro other old
        exact Or.inl old
      · rename_i unseen
        have childrenInside : loweredChildren entities node ⊆ graph := shared.closed node inside
        obtain ⟨next, nextMeaning, nextWalk, nextKept, nextNodes, nextOnly⟩ :=
          walk_roots shared (loweredChildren entities node) childrenInside
            (fun child member => holds child member (childrenInside member)) state emitters
            meaning walk within
        have fresh : (lowerRoots entities (loweredChildren entities node) state).nodeIds
            node.address = none := by
          rw [← Option.not_isSome_iff_eq_none, nextWalk.emitted.known]
          intro known
          obtain ⟨other, member, same⟩ := List.mem_map.mp known
          rcases nextOnly other member with old | new
          · rw [recognized other (within old) same] at old
            exact unseen ((walk.emitted.known node.address).mpr (List.mem_map_of_mem old))
          · rw [recognized other (visited_inside shared childrenInside new) same] at new
            exact not_below_children node new
        obtain ⟨last, lastWalk⟩ := walk_emit nextWalk node fresh
          (fun child member => nextNodes member) (complete node inside) (supported node inside)
        refine ⟨next ++ [node], last, lastWalk,
          List.Subset.trans nextKept (List.subset_append_left _ _), ?_, ?_⟩
        · exact List.subset_append_right _ _
        · intro other member
          have split : visited entities [node] =
              node :: visited entities (loweredChildren entities node) := by
            rw [visited, List.flatMap_singleton, lowered_cons]
            rfl
          rw [split, List.mem_cons]
          rcases List.mem_append.mp member with old | new
          · exact (nextOnly other old).imp_right Or.inr
          · exact Or.inr (Or.inl (List.mem_singleton.mp new))

end Fhenomenon.EmissionInvariant
