import Fhenomenon.EmissionInvariant
import Fhenomenon.PlanAcceptance

/-!
# Lowering is faithful

The program of a supported graph is single assignment, has one instruction for
each computing node and gives every node the value it denotes. A fused node makes
lowering refuse the graph. A refresh does not: it becomes a `nop` that defines
nothing.
-/

namespace Fhenomenon.FaithfulLowering

open Fhenomenon.InstructionStream Fhenomenon.RecordedGraph Fhenomenon.Lowering
open Fhenomenon.NodeGraphs Fhenomenon.RecordedMeaning Fhenomenon.LoweringWalk
open Fhenomenon.EmissionInvariant

variable {Entity Ptr V : Type*} {entities : Entity → Fhenon Ptr} {arithmetic : Arithmetic V}
  {store : Entity → V}

/-- The program stands for the graph: `emitters` are its visited nodes and `id`
names their values. -/
structure Represents (arithmetic : Arithmetic V) (entities : Entity → Fhenon Ptr)
    (store : Entity → V) (roots : List (ASTNode Entity)) (program : FhnProgram)
    (bindings : Bindings Entity) (emitters : List (ASTNode Entity)) (id : ASTNode Entity → Nat) :
    Prop where
  single : SsaValid program
  accepted : ∀ pinned policy,
    ∃ plan, MovementPlanner.analyze program pinned 0 policy none = some plan
  /-- The counter takes at most one step for each visited node. -/
  bounded : ∀ defined ∈ program.definedIds, defined ≤ emitters.length
  once : (emitters.map (·.address)).Nodup
  complete : ∀ node, node ∈ emitters ↔ node ∈ visited entities roots
  operators : ∀ node ∈ reachable roots, isComputation node = true → node ∈ emitters
  instructions : program.resultIds = (emitters.filter isComputation).map id
  inputs : program.inputIds = (emitters.filter isOperand).map id
  outputs : program.outputIds = roots.map id
  bound : bindings = emitters.map (fun node => (id node, boundEntity node))
  values : ∀ node ∈ emitters,
    evalInstructions arithmetic program.instructions (provision arithmetic store bindings)
      (id node) = denote arithmetic entities store node

def Faithful (arithmetic : Arithmetic V) (entities : Entity → Fhenon Ptr) (store : Entity → V)
    (roots : List (ASTNode Entity)) : Prop :=
  ∃ program bindings emitters id, lower entities roots = (some program, bindings) ∧
    Represents arithmetic entities store roots program bindings emitters id

theorem well_formed_shared {roots : List (ASTNode Entity)} (wellFormed : WellFormed roots) :
    Shared entities (visited entities roots) where
  same := fun first firstMember second secondMember =>
    wellFormed.shared first (visited_reachable firstMember) second
      (visited_reachable secondMember)
  closed := fun _ member _ child => visited_child member child

theorem emitted_count (list : List (ASTNode Entity)) :
    (list.filter isOperand).length + (list.filter isComputation).length ≤ list.length := by
  induction list with
  | nil => exact Nat.le_refl _
  | cons node rest induction =>
      cases operand : isOperand node with
      | false =>
          cases computes : isComputation node with
          | false => simp [operand, computes]; omega
          | true => simp [operand, computes]; omega
      | true =>
          have renames : isComputation node = false := by
            cases node with
            | operand => rfl
            | operator => cases operand
            | unary => cases operand
            | fused => rfl
          simp [operand, renames]
          omega

theorem represents_of_walk {roots : List (ASTNode Entity)} {state : LoweringState Entity}
    {emitters : List (ASTNode Entity)} {meaning : Nat → V}
    (walk : Walk arithmetic entities store state emitters meaning)
    (complete : ∀ node, node ∈ emitters ↔ node ∈ visited entities roots) :
    Represents arithmetic entities store roots (state.toProgram (roots.map (idOf state)))
      state.bindings emitters (idOf state) := by
  have valid : SsaValid (state.toProgram (roots.map (idOf state))) :=
    ⟨walk.holds.valid.nonzero, walk.holds.valid.nodup, walk.holds.valid.operandsDefined⟩
  constructor
  · exact valid
  · intro pinned policy
    exact PlanAcceptance.analyze_unlimited_accepts _ pinned policy valid
  · intro defined member
    have below := walk.holds.below defined member
    have count : state.program.definedIds.length =
        (emitters.filter isOperand).length + (emitters.filter isComputation).length := by
      rw [FhnProgram.definedIds, List.length_append]
      have inputs : state.program.inputIds = (emitters.filter isOperand).map (idOf state) :=
        walk.emitted.inputs
      have results : state.program.resultIds =
          (emitters.filter isComputation).map (idOf state) := walk.emitted.results
      rw [inputs, results, List.length_map, List.length_map]
    have bound := emitted_count emitters
    rw [walk.holds.next] at below
    omega
  · exact walk.emitted.nodup
  · exact complete
  · intro node member computes
    rw [complete]
    apply reachable_operator_visited member
    cases node with
    | operand => cases computes
    | operator => rfl
    | unary => rfl
    | fused => rfl
  · exact walk.emitted.results
  · exact walk.emitted.inputs
  · rfl
  · exact walk.emitted.bindings
  · intro node member
    rw [← walk.holds.denotes node member]
    have computed := eval_solved valid walk.holds.solves state.instructions.length 0
      (Nat.zero_add _) (provision arithmetic store state.bindings)
    rw [List.drop_zero] at computed
    apply computed _ _ (walk.holds.defined node member)
    intro id before
    have input : id ∈ state.inputs := by
      simpa [FhnProgram.definedBefore, LoweringState.toProgram] using before
    obtain ⟨entity, found, meant⟩ := walk.holds.provisioned id input
    rw [provision, found, meant]

theorem supported_faithful {roots : List (ASTNode Entity)} (wellFormed : WellFormed roots)
    (supported : ∀ node ∈ visited entities roots, isSupported node = true) :
    Faithful arithmetic entities store roots := by
  have shared : Shared entities (visited entities roots) := well_formed_shared wellFormed
  have inside : roots ⊆ visited entities roots := fun root member => root_visited member
  have started : Walk arithmetic entities store {} [] (fun _ => arithmetic.plain 0) :=
    ⟨emitted_start, holds_start _⟩
  obtain ⟨emitters, meaning, walk, -, rootsEmitted, only⟩ :=
    walk_roots shared roots inside (fun root member => walk_node shared
      (fun node found => wellFormed.complete node (visited_reachable found)) supported root
      (inside member)) {} [] _ started (List.nil_subset _)
  have complete (node : ASTNode Entity) : node ∈ emitters ↔ node ∈ visited entities roots := by
    constructor
    · intro member
      exact (only node member).resolve_left List.not_mem_nil
    · intro member
      have closed : Shared entities emitters := by
        refine ⟨?_, walk.emitted.closed⟩
        intro first firstMember second secondMember
        exact shared.same first ((only first firstMember).resolve_left List.not_mem_nil) second
          ((only second secondMember).resolve_left List.not_mem_nil)
      exact visited_inside closed rootsEmitted member
  refine ⟨_, _, emitters, _, ?_, represents_of_walk walk complete⟩
  have outputs : roots.filterMap (fun root =>
        (lowerRoots entities roots {}).nodeIds root.address) =
      roots.map (idOf (lowerRoots entities roots {})) := by
    rw [← List.filterMap_eq_map]
    apply List.filterMap_congr
    intro root member
    exact known_id walk (rootsEmitted member)
  rw [lower, if_pos walk.emitted.supported, outputs]

/-- A supported graph gets a faithful program, any other graph gets none. -/
def LoweringLaw (arithmetic : Arithmetic V) (entities : Entity → Fhenon Ptr) (store : Entity → V)
    (roots : List (ASTNode Entity)) : Prop :=
  ((∀ node ∈ visited entities roots, isSupported node = true) →
      Faithful arithmetic entities store roots) ∧
    ((∃ node ∈ visited entities roots, isSupported node = false) →
      lower entities roots = (none, []))

theorem lowers_iff_clean {roots : List (ASTNode Entity)} (wellFormed : WellFormed roots) :
    (lowerRoots entities roots {}).supported = true ↔
      ∀ node ∈ visited entities roots, isFused node = false := by
  have shared : Shared entities (visited entities roots) := well_formed_shared wellFormed
  have started : Remembers entities (visited entities roots) {} := by
    intro supported node member seen
    cases seen
  have exact := (lower_roots_supported roots (fun root member =>
    lower_node_supported shared root (root_visited member)) {} started).2
  rw [exact]
  constructor
  · intro clean node member
    obtain ⟨root, rootMember, found⟩ := List.mem_flatMap.mp member
    exact clean.2 root rootMember node found
  · intro clean
    refine ⟨rfl, ?_⟩
    intro root member below found
    exact clean below (List.mem_flatMap.mpr ⟨root, member, found⟩)

/-- Only a refresh breaks the law, and only in a graph without fused nodes. -/
theorem lowering_law_iff {roots : List (ASTNode Entity)} (wellFormed : WellFormed roots) :
    LoweringLaw arithmetic entities store roots ↔
      (∀ node ∈ visited entities roots, isRefresh node = false) ∨
        ∃ node ∈ visited entities roots, isFused node = true := by
  have lowers : (lowerRoots entities roots {}).supported = true ↔
      ∀ node ∈ visited entities roots, isFused node = false := lowers_iff_clean wellFormed
  constructor
  · intro law
    by_contra neither
    push Not at neither
    obtain ⟨⟨node, member, refresh⟩, unfused⟩ := neither
    have supported := lowers.mpr (fun other found => Bool.not_eq_true _ ▸ unfused other found)
    have refused := law.2 ⟨node, member, by
      rw [isSupported, Bool.eq_true_of_not_eq_false refresh, Bool.not_true, Bool.and_false]⟩
    rw [lower, if_pos supported] at refused
    cases refused
  · intro condition
    refine ⟨supported_faithful wellFormed, ?_⟩
    intro unsupported
    have fused : ∃ node ∈ visited entities roots, isFused node = true := by
      rcases condition with kept | fused
      · obtain ⟨node, member, unsupported⟩ := unsupported
        refine ⟨node, member, ?_⟩
        rw [isSupported, kept node member, Bool.not_false, Bool.and_true] at unsupported
        simpa using unsupported
      · exact fused
    obtain ⟨node, member, fused⟩ := fused
    have refused : ¬(lowerRoots entities roots {}).supported = true := by
      intro supported
      rw [lowers.mp supported node member] at fused
      cases fused
    rw [lower, if_neg refused]

def pairArithmetic : Arithmetic (Rat × Rat) where
  add := (· + ·)
  sub := (· - ·)
  mul := (· * ·)
  conjugate := id
  rotate := fun distance value => if distance % 2 = 0 then value else value.swap
  plain := fun value => (value, value)

/-- `(a + a) * 3` rotated right by one, with `a` and the sum shared; entity 1 is
the scalar. -/
def sharedGraph : List (ASTNode Nat) :=
  let leaf := ASTNode.operand 0 0
  let sum := ASTNode.operator 1 { type := .add, operand1 := 0, operand2 := 0, result := some 2 }
    .add leaf leaf (some 2)
  let product := ASTNode.operator 3
    { type := .multiply, operand1 := 2, operand2 := 1, result := some 3 } .multiply sum
    (.operand 2 1) (some 3)
  let turned := ASTNode.unary 4
    { type := .rightRotate, operand1 := 3, operand2 := 3, result := some 4, param := 1 }
    .rightRotate product (some 4)
  [sum, turned]

def sharedEntities (entity : Nat) : Fhenon Unit := { val := 3, isScalar := entity == 1 }

theorem shared_graph_lowered : LoweringLaw pairArithmetic sharedEntities (fun _ => (1, 2))
    sharedGraph :=
  (lowering_law_iff ⟨by decide, by decide⟩).mpr (Or.inl (by decide))

def refreshGraph : List (ASTNode Nat) :=
  [.unary 1 { type := .refresh, operand1 := 0, operand2 := 0, result := some 2 } .refresh
    (.operand 0 0) (some 2)]

theorem refresh_lowered : WellFormed refreshGraph ∧
    ¬LoweringLaw pairArithmetic sharedEntities (fun _ => (1, 2)) refreshGraph := by
  refine ⟨⟨by decide, by decide⟩, ?_⟩
  intro law
  have refused := law.2 ⟨_, List.mem_cons_self, rfl⟩
  cases refused

end Fhenomenon.FaithfulLowering
