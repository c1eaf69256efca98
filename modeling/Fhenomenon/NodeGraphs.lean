import Fhenomenon.Lowering

/-!
# Graphs of shared nodes

The source shares nodes by pointer; here two nodes of one graph with the same
address are the same node. Lowering skips a scalar operand that it folds, so it
visits fewer nodes than the graph has.
-/

namespace Fhenomenon.NodeGraphs

open Fhenomenon.RecordedGraph Fhenomenon.Lowering

variable {Entity Ptr V : Type*}

/-- Every path from the node, depth first, in the order `print` takes. -/
def subtree : ASTNode Entity → List (ASTNode Entity)
  | .operator address operation type left right result =>
      .operator address operation type left right result :: (subtree left ++ subtree right)
  | .unary address operation type left result =>
      .unary address operation type left result :: subtree left
  | node => [node]

def reachable (roots : List (ASTNode Entity)) : List (ASTNode Entity) :=
  roots.flatMap subtree

def loweredChildren (entities : Entity → Fhenon Ptr) : ASTNode Entity → List (ASTNode Entity)
  | .operator _ _ type left right _ =>
      if (scalarOperand entities type right).isSome then [left] else [left, right]
  | .unary _ _ _ left _ => [left]
  | _ => []

/-- The nodes that lowering reaches from a node. -/
def lowered (entities : Entity → Fhenon Ptr) : ASTNode Entity → List (ASTNode Entity)
  | .operator address operation type left right result =>
      .operator address operation type left right result ::
        (lowered entities left ++
          if (scalarOperand entities type right).isSome then [] else lowered entities right)
  | .unary address operation type left result =>
      .unary address operation type left result :: lowered entities left
  | node => [node]

def visited (entities : Entity → Fhenon Ptr) (roots : List (ASTNode Entity)) :
    List (ASTNode Entity) :=
  roots.flatMap (lowered entities)

def isFused : ASTNode Entity → Bool
  | .fused _ => true
  | _ => false

def isOperand : ASTNode Entity → Bool
  | .operand _ _ => true
  | _ => false

def nodeType? : ASTNode Entity → Option OperationType
  | .operator _ _ type _ _ _ => some type
  | .unary _ _ type _ _ => some type
  | _ => none

def isRefresh (node : ASTNode Entity) : Bool := nodeType? node == some .refresh

/-- An operator node that computes: no assignment. -/
def isComputation (node : ASTNode Entity) : Bool :=
  match nodeType? node with
  | some type => type != .assignment
  | none => false

/-- Operand nodes, and operator nodes of a type that lowering has an opcode or
a renaming for. -/
def isSupported (node : ASTNode Entity) : Bool := !isFused node && !isRefresh node

def boundEntity : ASTNode Entity → Option Entity
  | .operand _ entity => some entity
  | .operator _ _ _ _ _ result => result
  | .unary _ _ _ _ result => result
  | .fused _ => none

/-- Binary operations have both children. -/
def isComplete : ASTNode Entity → Bool
  | .unary _ _ type _ _ =>
      type != .add && type != .sub && type != .multiply && type != .assignment
  | _ => true

structure WellFormed (roots : List (ASTNode Entity)) : Prop where
  shared : ∀ first ∈ reachable roots, ∀ second ∈ reachable roots,
    first.address = second.address → first = second
  complete : ∀ node ∈ reachable roots, isComplete node = true

/-- The arithmetic of a backend; `plain` is the value of a plaintext. -/
structure Arithmetic (V : Type*) where
  add : V → V → V
  sub : V → V → V
  mul : V → V → V
  conjugate : V → V
  rotate : Int → V → V
  plain : Rat → V

/-- A refresh denotes its operand. -/
def Arithmetic.apply (arithmetic : Arithmetic V) (type : OperationType) (param : Int)
    (first second : V) : V :=
  match type with
  | .add => arithmetic.add first second
  | .sub => arithmetic.sub first second
  | .multiply => arithmetic.mul first second
  | .conjugate => arithmetic.conjugate first
  | .leftRotate => arithmetic.rotate param first
  | .rightRotate => arithmetic.rotate (-param) first
  | .assignment => second
  | .refresh => first

def denote (arithmetic : Arithmetic V) (entities : Entity → Fhenon Ptr) (store : Entity → V) :
    ASTNode Entity → V
  | .operand _ entity => store entity
  | .operator _ operation type left right _ =>
      arithmetic.apply type operation.param (denote arithmetic entities store left)
        (match scalarOperand entities type right with
        | some scalar => arithmetic.plain (entities scalar).val
        | none => denote arithmetic entities store right)
  | .unary _ operation type left _ =>
      arithmetic.apply type operation.param (denote arithmetic entities store left)
        (denote arithmetic entities store left)
  | .fused _ => arithmetic.plain 0

variable {entities : Entity → Fhenon Ptr}

theorem lowered_cons (node : ASTNode Entity) : lowered entities node =
    node :: (loweredChildren entities node).flatMap (lowered entities) := by
  cases node with
  | operand address entity => rfl
  | operator address operation type left right result =>
      simp only [lowered, loweredChildren]
      split
      · simp
      · simp
  | unary address operation type left result => simp [lowered, loweredChildren]
  | fused address => rfl

theorem lowered_self (node : ASTNode Entity) : node ∈ lowered entities node := by
  rw [lowered_cons]
  exact List.mem_cons_self

theorem child_lowered {node child : ASTNode Entity}
    (member : child ∈ loweredChildren entities node) {below : ASTNode Entity}
    (found : below ∈ lowered entities child) : below ∈ lowered entities node := by
  rw [lowered_cons]
  exact List.mem_cons_of_mem _ (List.mem_flatMap.mpr ⟨child, member, found⟩)

/-- Induction on the children that lowering visits. -/
theorem children_induction (entities : Entity → Fhenon Ptr) {motive : ASTNode Entity → Prop}
    (step : ∀ node, (∀ child ∈ loweredChildren entities node, motive child) → motive node) :
    ∀ node, motive node := by
  intro node
  induction node with
  | operand address entity =>
      apply step
      intro child member
      cases member
  | operator address operation type left right result leftHolds rightHolds =>
      apply step
      intro child member
      rw [loweredChildren] at member
      split at member
      · exact List.mem_singleton.mp member ▸ leftHolds
      · rcases List.mem_cons.mp member with first | second
        · exact first ▸ leftHolds
        · exact List.mem_singleton.mp second ▸ rightHolds
  | unary address operation type left result holds =>
      apply step
      intro child member
      exact List.mem_singleton.mp member ▸ holds
  | fused address =>
      apply step
      intro child member
      cases member

theorem lowered_trans {root : ASTNode Entity} :
    ∀ middle ∈ lowered entities root, ∀ child ∈ loweredChildren entities middle,
      child ∈ lowered entities root := by
  induction root using children_induction entities with
  | step node holds =>
      intro middle member child next
      rw [lowered_cons] at member
      rcases List.mem_cons.mp member with same | later
      · subst same
        exact child_lowered next (lowered_self child)
      · obtain ⟨parent, parentMember, found⟩ := List.mem_flatMap.mp later
        exact child_lowered parentMember (holds parent parentMember middle found child next)

theorem child_smaller {node child : ASTNode Entity}
    (member : child ∈ loweredChildren entities node) : sizeOf child < sizeOf node := by
  cases node with
  | operand address entity => cases member
  | operator address operation type left right result =>
      have either : child = left ∨ child = right := by
        rw [loweredChildren] at member
        split at member
        · exact Or.inl (List.mem_singleton.mp member)
        · simpa using member
      rcases either with first | second
      · subst first
        simp only [ASTNode.operator.sizeOf_spec]
        omega
      · subst second
        simp only [ASTNode.operator.sizeOf_spec]
        omega
  | unary address operation type left result =>
      have only : child = left := List.mem_singleton.mp member
      subst only
      simp only [ASTNode.unary.sizeOf_spec]
      omega
  | fused address => cases member

theorem lowered_size (node : ASTNode Entity) :
    ∀ below ∈ lowered entities node, sizeOf below ≤ sizeOf node := by
  induction node using children_induction entities with
  | step node holds =>
      intro below member
      rw [lowered_cons] at member
      rcases List.mem_cons.mp member with same | later
      · rw [same]
      · obtain ⟨child, childMember, found⟩ := List.mem_flatMap.mp later
        exact (holds child childMember below found).trans (child_smaller childMember).le

theorem not_below_children (node : ASTNode Entity) :
    node ∉ visited entities (loweredChildren entities node) := by
  intro member
  obtain ⟨child, childMember, found⟩ := List.mem_flatMap.mp member
  have smaller := child_smaller childMember
  have size := lowered_size child node found
  omega

theorem visited_child {roots : List (ASTNode Entity)} {node child : ASTNode Entity}
    (member : node ∈ visited entities roots) (next : child ∈ loweredChildren entities node) :
    child ∈ visited entities roots := by
  obtain ⟨root, rootMember, found⟩ := List.mem_flatMap.mp member
  exact List.mem_flatMap.mpr ⟨root, rootMember, lowered_trans node found child next⟩

theorem root_visited {roots : List (ASTNode Entity)} {root : ASTNode Entity}
    (member : root ∈ roots) : root ∈ visited entities roots :=
  List.mem_flatMap.mpr ⟨root, member, lowered_self root⟩

theorem lowered_reachable (node : ASTNode Entity) : lowered entities node ⊆ subtree node := by
  induction node with
  | operand address entity => exact List.Subset.refl _
  | operator address operation type left right result leftHolds rightHolds =>
      rw [lowered, subtree]
      apply List.cons_subset_cons
      intro below member
      rcases List.mem_append.mp member with first | second
      · exact List.mem_append_left _ (leftHolds first)
      · split at second
        · cases second
        · exact List.mem_append_right _ (rightHolds second)
  | unary address operation type left result holds =>
      rw [lowered, subtree]
      exact List.cons_subset_cons _ holds
  | fused address => exact List.Subset.refl _

theorem visited_reachable {roots : List (ASTNode Entity)} {node : ASTNode Entity}
    (member : node ∈ visited entities roots) : node ∈ reachable roots := by
  obtain ⟨root, rootMember, found⟩ := List.mem_flatMap.mp member
  exact List.mem_flatMap.mpr ⟨root, rootMember, lowered_reachable root found⟩

/-- Folding skips operand nodes only: every operator node is visited. -/
theorem reachable_operator_lowered {node below : ASTNode Entity} (found : below ∈ subtree node)
    (operator : isOperand below = false) : below ∈ lowered entities node := by
  induction node with
  | operand address entity => exact found
  | operator address operation type left right result leftHolds rightHolds =>
      rw [subtree] at found
      rw [lowered]
      rcases List.mem_cons.mp found with same | deeper
      · exact same ▸ List.mem_cons_self
      · apply List.mem_cons_of_mem
        rcases List.mem_append.mp deeper with first | second
        · exact List.mem_append_left _ (leftHolds first)
        · apply List.mem_append_right
          split
          · rename_i folded
            cases right with
            | operand address entity =>
                rw [List.mem_singleton.mp second] at operator
                cases operator
            | operator => cases folded
            | unary => cases folded
            | fused => cases folded
          · exact rightHolds second
  | unary address operation type left result holds =>
      rw [subtree] at found
      rw [lowered]
      rcases List.mem_cons.mp found with same | deeper
      · exact same ▸ List.mem_cons_self
      · exact List.mem_cons_of_mem _ (holds deeper)
  | fused address => exact found

theorem reachable_operator_visited {roots : List (ASTNode Entity)} {node : ASTNode Entity}
    (member : node ∈ reachable roots) (operator : isOperand node = false) :
    node ∈ visited entities roots := by
  obtain ⟨root, rootMember, found⟩ := List.mem_flatMap.mp member
  exact List.mem_flatMap.mpr ⟨root, rootMember, reachable_operator_lowered found operator⟩

end Fhenomenon.NodeGraphs
