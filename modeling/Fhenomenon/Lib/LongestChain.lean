import Mathlib

/-!
# Longest chains

Chains of a relation that end at a given point, weighted point by point. The
heaviest chain ending at a point extends the heaviest chain ending at one of its
predecessors, which is the recurrence a one-pass analysis computes.
-/

namespace Fhenomenon.Lib.LongestChain

variable {Node : Type*}

/-- A non-empty path, newest point first; each point is preceded by the next. -/
inductive Chain (precedes : Node → Node → Prop) : Node → List Node → Prop
  | single (node : Node) : Chain precedes node [node]
  | extend {node earlier : Node} {path : List Node} (step : precedes earlier node)
      (before : Chain precedes earlier path) : Chain precedes node (node :: path)

def pathWeight (weight : Node → Nat) (path : List Node) : Nat := (path.map weight).sum

@[simp] theorem path_weight_cons (weight : Node → Nat) (node : Node) (path : List Node) :
    pathWeight weight (node :: path) = weight node + pathWeight weight path := by
  rw [pathWeight, List.map_cons, List.sum_cons, pathWeight]

@[simp] theorem path_weight_nil (weight : Node → Nat) : pathWeight weight [] = 0 := rfl

/-- The weights of all chains ending at a point. -/
def chainWeights (precedes : Node → Node → Prop) (weight : Node → Nat) (node : Node) : Set Nat :=
  {total | ∃ path, Chain precedes node path ∧ pathWeight weight path = total}

theorem single_weight (precedes : Node → Node → Prop) (weight : Node → Nat) (node : Node) :
    weight node ∈ chainWeights precedes weight node := by
  exact ⟨[node], Chain.single node, by simp⟩

theorem extended_weight {precedes : Node → Node → Prop} {weight : Node → Nat}
    {node earlier : Node} (step : precedes earlier node) {total : Nat}
    (before : total ∈ chainWeights precedes weight earlier) :
    weight node + total ∈ chainWeights precedes weight node := by
  obtain ⟨path, chain, rfl⟩ := before
  exact ⟨node :: path, Chain.extend step chain, by simp⟩

theorem chain_weight_cases {precedes : Node → Node → Prop} {weight : Node → Nat} {node : Node}
    {total : Nat} (member : total ∈ chainWeights precedes weight node) :
    total = weight node ∨ ∃ earlier before, precedes earlier node ∧
      before ∈ chainWeights precedes weight earlier ∧ total = weight node + before := by
  obtain ⟨path, chain, rfl⟩ := member
  cases chain with
  | single => exact Or.inl (by simp)
  | @extend _ earlier path step before =>
      exact Or.inr ⟨earlier, pathWeight weight path, step, ⟨path, before, rfl⟩, by simp⟩

/-- The greatest depth among a list of points, zero when there is none. -/
def deepest (depth : Node → Nat) (nodes : List Node) : Nat :=
  nodes.foldr (fun node best => max (depth node) best) 0

theorem le_deepest (depth : Node → Nat) (nodes : List Node) (node : Node) (member : node ∈ nodes) :
    depth node ≤ deepest depth nodes := by
  induction nodes with
  | nil => cases member
  | cons first rest induction =>
      rw [deepest, List.foldr_cons]
      rcases List.mem_cons.mp member with same | later
      · rw [same]
        exact le_max_left _ _
      · exact (induction later).trans (le_max_right _ _)

theorem deepest_attained (depth : Node → Nat) (nodes : List Node) :
    deepest depth nodes = 0 ∨ ∃ node ∈ nodes, depth node = deepest depth nodes := by
  induction nodes with
  | nil => exact Or.inl rfl
  | cons first rest induction =>
      have unfolded : deepest depth (first :: rest) = max (depth first) (deepest depth rest) := rfl
      rw [unfolded]
      rcases le_total (depth first) (deepest depth rest) with less | more
      · rw [max_eq_right less]
        rcases induction with zero | ⟨node, member, attained⟩
        · exact Or.inl zero
        · exact Or.inr ⟨node, List.mem_cons_of_mem _ member, attained⟩
      · rw [max_eq_left more]
        exact Or.inr ⟨first, List.mem_cons_self, rfl⟩

/-- The recurrence: own weight plus the deepest predecessor. -/
theorem greatest_step {precedes : Node → Node → Prop} {weight depth : Node → Nat} {node : Node}
    {preceding : List Node} (complete : ∀ earlier, precedes earlier node ↔ earlier ∈ preceding)
    (known : ∀ earlier ∈ preceding,
      IsGreatest (chainWeights precedes weight earlier) (depth earlier)) :
    IsGreatest (chainWeights precedes weight node) (weight node + deepest depth preceding) := by
  constructor
  · rcases deepest_attained depth preceding with zero | ⟨earlier, member, attained⟩
    · rw [zero, Nat.add_zero]
      exact single_weight precedes weight node
    · rw [← attained]
      exact extended_weight ((complete earlier).mpr member) (known earlier member).1
  · intro total member
    rcases chain_weight_cases member with own | ⟨earlier, before, step, reached, same⟩
    · omega
    · have predecessor := (complete earlier).mp step
      have bound := (known earlier predecessor).2 reached
      have below := le_deepest depth preceding earlier predecessor
      omega

end Fhenomenon.Lib.LongestChain
