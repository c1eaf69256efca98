import Mathlib

/-!
# Stack inclusion for caches that serve sets

Two caches of different capacity serve the same requests, each request a set of
items that must be present together, after which some of them leave for good.
When both always evict the worst items of one common ranking, and no more than
they must, the contents of the smaller cache stay inside those of the larger.
-/

namespace Fhenomenon.Lib.StackInclusion

variable {α : Type*} [DecidableEq α]

/-- One request: the worst items outside the working set make way for it. -/
structure Service (worse : α → α → Prop) (capacity : ℕ)
    (held working freed evicted after : Finset α) : Prop where
  candidates : evicted ⊆ held \ working
  worst : ∀ victim ∈ evicted, ∀ survivor ∈ (held \ working) \ evicted, worse victim survivor
  count : evicted.card = (held ∪ working).card - capacity
  leaves : freed ⊆ working
  after : after = ((held \ evicted) ∪ working) \ freed

/-- The smaller cache is inside the larger, which holds no more than its extra room. -/
structure Nested (small large : ℕ) (inner outer : Finset α) : Prop where
  subset : inner ⊆ outer
  surplus : outer.card + small ≤ inner.card + large

section Service

variable {worse : α → α → Prop} {capacity : ℕ} {held working freed evicted after : Finset α}

theorem evicted_held (service : Service worse capacity held working freed evicted after) :
    evicted ⊆ held :=
  service.candidates.trans Finset.sdiff_subset

theorem served_card (service : Service worse capacity held working freed evicted after) :
    ((held \ evicted) ∪ working).card + evicted.card = (held ∪ working).card := by
  have apart : Disjoint ((held \ evicted) ∪ working) evicted := by
    rw [Finset.disjoint_union_left]
    constructor
    · exact Finset.sdiff_disjoint
    · rw [Finset.disjoint_left]
      intro item requested gone
      exact (Finset.mem_sdiff.mp (service.candidates gone)).2 requested
  rw [← Finset.card_union_of_disjoint apart]
  congr 1
  ext item
  have inside : item ∈ evicted → item ∈ held := fun gone => evicted_held service gone
  simp only [Finset.mem_union, Finset.mem_sdiff]
  tauto

theorem after_card (service : Service worse capacity held working freed evicted after) :
    after.card + freed.card + evicted.card = (held ∪ working).card := by
  have covered : freed ⊆ (held \ evicted) ∪ working :=
    service.leaves.trans Finset.subset_union_right
  rw [← served_card service, service.after, Finset.card_sdiff_add_card_eq_card covered]

end Service

section Pair

variable {worse : α → α → Prop} {small large : ℕ} {inner outer working freed : Finset α}
  {gone lost innerAfter outerAfter : Finset α}

/-- Together with a common working set the larger cache exceeds the smaller by
no more than before. -/
theorem requested_surplus (nested : Nested small large inner outer) (working : Finset α) :
    (outer ∪ working).card + small ≤ (inner ∪ working).card + large := by
  have extra : (outer ∪ working) \ (inner ∪ working) ⊆ outer \ inner := by
    intro item member
    simp only [Finset.mem_sdiff, Finset.mem_union, not_or] at member ⊢
    exact ⟨member.1.resolve_right member.2.2, member.2.1⟩
  have fewer := Finset.card_le_card extra
  rw [Finset.card_sdiff_of_subset (Finset.union_subset_union_left nested.subset),
    Finset.card_sdiff_of_subset nested.subset] at fewer
  have inside := Finset.card_le_card
    (Finset.union_subset_union_left nested.subset : inner ∪ working ⊆ outer ∪ working)
  have surplus := nested.surplus
  have below := Finset.card_le_card nested.subset
  omega

theorem evicts_fewer (nested : Nested small large inner outer)
    (first : Service worse small inner working freed gone innerAfter)
    (second : Service worse large outer working freed lost outerAfter) :
    lost.card ≤ gone.card := by
  have surplus := requested_surplus nested working
  rw [first.count, second.count]
  omega

/-- What the smaller cache keeps, the larger keeps. -/
theorem survivors_nested (asymmetric : ∀ x y, worse x y → ¬worse y x)
    (nested : Nested small large inner outer)
    (first : Service worse small inner working freed gone innerAfter)
    (second : Service worse large outer working freed lost outerAfter) :
    (inner \ working) \ gone ⊆ (outer \ working) \ lost := by
  intro item kept
  have held := Finset.mem_sdiff.mp (Finset.mem_sdiff.mp kept).1
  rw [Finset.mem_sdiff, Finset.mem_sdiff]
  refine ⟨⟨nested.subset held.1, held.2⟩, ?_⟩
  intro dropped
  -- Everything the smaller cache evicted is worse, so the larger evicted it as well.
  have covered : gone ⊆ lost := by
    intro victim out
    have candidate := Finset.mem_sdiff.mp (first.candidates out)
    by_contra stays
    have above := first.worst victim out item kept
    have below := second.worst item dropped victim (Finset.mem_sdiff.mpr
      ⟨Finset.mem_sdiff.mpr ⟨nested.subset candidate.1, candidate.2⟩, stays⟩)
    exact asymmetric _ _ above below
  have strict : gone ⊂ lost := by
    rw [Finset.ssubset_iff_of_subset covered]
    exact ⟨item, dropped, (Finset.mem_sdiff.mp kept).2⟩
  have more := Finset.card_lt_card strict
  have fewer := evicts_fewer nested first second
  omega

theorem service_nested (asymmetric : ∀ x y, worse x y → ¬worse y x)
    (nested : Nested small large inner outer)
    (first : Service worse small inner working freed gone innerAfter)
    (second : Service worse large outer working freed lost outerAfter) :
    Nested small large innerAfter outerAfter := by
  have survivors := survivors_nested asymmetric nested first second
  constructor
  · rw [first.after, second.after]
    apply Finset.sdiff_subset_sdiff _ (Finset.Subset.refl freed)
    intro item member
    rw [Finset.mem_union] at member ⊢
    by_cases requested : item ∈ working
    · exact Or.inr requested
    · have kept := Finset.mem_sdiff.mp (member.resolve_right requested)
      have stays := survivors (Finset.mem_sdiff.mpr
        ⟨Finset.mem_sdiff.mpr ⟨kept.1, requested⟩, kept.2⟩)
      rw [Finset.mem_sdiff, Finset.mem_sdiff] at stays
      exact Or.inl (Finset.mem_sdiff.mpr ⟨stays.1.1, stays.2⟩)
  · have surplus := requested_surplus nested working
    have firstCard := after_card first
    have secondCard := after_card second
    have firstCount := first.count
    have secondCount := second.count
    omega

end Pair

/-- A cache serving `n` requests, one state before each. -/
structure Run (α : Type*) where
  held : ℕ → Finset α
  evicted : ℕ → Finset α

/-- Every request is served by the ranking in force at it. -/
def Serves (worse : ℕ → α → α → Prop) (working freed : ℕ → Finset α) (capacity n : ℕ)
    (run : Run α) : Prop :=
  ∀ i < n, Service (worse i) capacity (run.held i) (working i) (freed i) (run.evicted i)
    (run.held (i + 1))

section Runs

variable {worse : ℕ → α → α → Prop} {working freed : ℕ → Finset α} {small large n : ℕ}
  {inner outer : Run α}

theorem runs_nested (asymmetric : ∀ i x y, worse i x y → ¬worse i y x)
    (start : Nested small large (inner.held 0) (outer.held 0))
    (first : Serves worse working freed small n inner)
    (second : Serves worse working freed large n outer) (i : ℕ) (bound : i ≤ n) :
    Nested small large (inner.held i) (outer.held i) := by
  induction i with
  | zero => exact start
  | succ i induction =>
      exact service_nested (asymmetric i) (induction (by omega)) (first i (by omega))
        (second i (by omega))

theorem runs_evict_fewer (asymmetric : ∀ i x y, worse i x y → ¬worse i y x)
    (start : Nested small large (inner.held 0) (outer.held 0))
    (first : Serves worse working freed small n inner)
    (second : Serves worse working freed large n outer) (i : ℕ) (bound : i < n) :
    (outer.evicted i).card ≤ (inner.evicted i).card :=
  evicts_fewer (runs_nested asymmetric start first second i bound.le) (first i bound)
    (second i bound)

end Runs

end Fhenomenon.Lib.StackInclusion
