import Mathlib

/-!
# Farthest-next-use is optimal for set requests

Each request names a set of items that must be held together, some of them
created on the spot. Items may leave for free after a request, and any held
item may be evicted. Among all runs within a budget, loading on demand and
evicting the items needed farthest ahead makes the fewest loads, and the fewest
loads plus evictions.
-/

namespace Fhenomenon.Lib.FarthestUse

variable {α β : Type*} [DecidableEq α] [LinearOrder β]

/-- `nextUse i x` is the first request at or after `i` that names `x`. -/
structure Requests (α β : Type*) [DecidableEq α] [LinearOrder β] where
  operands : ℕ → Finset α
  fresh : ℕ → Finset α
  dead : ℕ → Finset α
  now : ℕ → β
  nextUse : ℕ → α → β
  apart : ∀ i, Disjoint (operands i) (fresh i)
  deadWorking : ∀ i, dead i ⊆ operands i ∪ fresh i
  dueNow : ∀ i item, nextUse i item ≤ now i ↔ item ∈ operands i
  unchanged : ∀ i item, item ∉ operands i ∪ fresh i → nextUse (i + 1) item = nextUse i item

structure Run (α : Type*) where
  resident : ℕ → Finset α
  evict : ℕ → Finset α
  prefetch : ℕ → Finset α

variable (requests : Requests α β)

def Requests.working (i : ℕ) : Finset α := requests.operands i ∪ requests.fresh i

/-- What request `i` finds held when it is served. -/
def dispatch (run : Run α) (i : ℕ) : Finset α :=
  (run.resident i \ run.evict i) ∪ (requests.fresh i ∪ run.prefetch i)

structure Legal (budget n : ℕ) (run : Run α) : Prop where
  start : run.resident 0 = ∅
  evicted : ∀ i < n, run.evict i ⊆ run.resident i
  newcomer : ∀ i < n, Disjoint (requests.fresh i) (run.resident i)
  loaded : ∀ i < n, Disjoint (run.prefetch i) ((run.resident i \ run.evict i) ∪ requests.fresh i)
  served : ∀ i < n, requests.working i ⊆ dispatch requests run i
  within : ∀ i < n, (dispatch requests run i).card ≤ budget
  next : ∀ i < n, run.resident (i + 1) = dispatch requests run i \ requests.dead i

structure Farthest (budget n : ℕ) (run : Run α) : Prop where
  demand : ∀ i < n, run.prefetch i = requests.operands i \ run.resident i
  spares : ∀ i < n, Disjoint (run.evict i) (requests.working i)
  full : ∀ i < n, (run.evict i).Nonempty → budget ≤ (dispatch requests run i).card
  farthest : ∀ i < n, ∀ victim ∈ run.evict i, ∀ item ∈ run.resident i, item ∉ run.evict i →
    item ∉ requests.working i → requests.nextUse i item ≤ requests.nextUse i victim

/-- How many of `items` are needed again by `horizon`. -/
def due (i : ℕ) (horizon : β) (items : Finset α) : ℕ :=
  (items.filter fun item => requests.nextUse i item ≤ horizon).card

def prefetches (run : Run α) (n : ℕ) : ℕ := ∑ i ∈ Finset.range n, (run.prefetch i).card

def evictions (run : Run α) (n : ℕ) : ℕ := ∑ i ∈ Finset.range n, (run.evict i).card

theorem due_le_card (i : ℕ) (horizon : β) (items : Finset α) :
    due requests i horizon items ≤ items.card :=
  Finset.card_filter_le items _

theorem due_mono (i : ℕ) (horizon : β) {small large : Finset α} (subset : small ⊆ large) :
    due requests i horizon small ≤ due requests i horizon large :=
  Finset.card_le_card (Finset.filter_subset_filter _ subset)

theorem due_union_le (i : ℕ) (horizon : β) (left right : Finset α) :
    due requests i horizon (left ∪ right) ≤
      due requests i horizon left + due requests i horizon right := by
  rw [due, Finset.filter_union]
  exact Finset.card_union_le _ _

theorem due_disjoint_union (i : ℕ) (horizon : β) {left right : Finset α}
    (apart : Disjoint left right) :
    due requests i horizon (left ∪ right) =
      due requests i horizon left + due requests i horizon right := by
  rw [due, Finset.filter_union, Finset.card_union_of_disjoint]
  · rfl
  · exact Finset.disjoint_filter_filter apart

theorem due_eq_card (i : ℕ) (horizon : β) (items : Finset α)
    (soon : ∀ item ∈ items, requests.nextUse i item ≤ horizon) :
    due requests i horizon items = items.card := by
  rw [due, Finset.filter_true_of_mem soon]

/-- Items requested now are due by every horizon that has not passed. -/
theorem due_split (i : ℕ) (horizon : β) (reached : requests.now i ≤ horizon)
    (items : Finset α) :
    due requests i horizon items =
      (requests.operands i ∩ items).card +
        due requests i horizon (items \ requests.operands i) := by
  have parts : items = (requests.operands i ∩ items) ∪ (items \ requests.operands i) := by
    ext item
    simp only [Finset.mem_union, Finset.mem_inter, Finset.mem_sdiff]
    tauto
  have apart : Disjoint (requests.operands i ∩ items) (items \ requests.operands i) :=
    Finset.disjoint_of_subset_left Finset.inter_subset_left Finset.disjoint_sdiff
  calc
    due requests i horizon items =
        due requests i horizon ((requests.operands i ∩ items) ∪ (items \ requests.operands i)) := by
      rw [← parts]
    _ = _ := by
      rw [due_disjoint_union requests i horizon apart,
        due_eq_card requests i horizon (requests.operands i ∩ items)]
      intro item member
      exact ((requests.dueNow i item).mpr (Finset.mem_inter.mp member).1).trans reached

theorem due_now (i : ℕ) (items : Finset α) :
    due requests i (requests.now i) items = (requests.operands i ∩ items).card := by
  rw [due]
  congr 1
  ext item
  rw [Finset.mem_filter, Finset.mem_inter, requests.dueNow, and_comm]

theorem due_past (i : ℕ) (horizon : β) (past : horizon < requests.now i) (items : Finset α)
    (idle : Disjoint items (requests.operands i)) : due requests i horizon items = 0 := by
  rw [due, Finset.card_eq_zero, Finset.filter_eq_empty_iff]
  intro item member soon
  have named := (requests.dueNow i item).mp (soon.trans past.le)
  exact Finset.disjoint_left.mp idle member named

theorem operands_split (i : ℕ) (items : Finset α) :
    (requests.operands i).card =
      (requests.operands i ∩ items).card + (requests.operands i \ items).card := by
  rw [Nat.add_comm, Finset.card_sdiff_add_card_inter]

section Run

variable {requests} {budget n : ℕ} {run other : Run α}

theorem prefetch_covers (legal : Legal requests budget n run) {i : ℕ} (bound : i < n) :
    requests.operands i \ run.resident i ⊆ run.prefetch i := by
  intro item member
  obtain ⟨named, absent⟩ := Finset.mem_sdiff.mp member
  have held := legal.served i bound (Finset.mem_union_left _ named)
  rw [dispatch, Finset.mem_union, Finset.mem_union, Finset.mem_sdiff] at held
  rcases held with ⟨old, -⟩ | created | fetched
  · exact absurd old absent
  · exact absurd created (Finset.disjoint_left.mp (requests.apart i) named)
  · exact fetched

/-- Loading ahead of demand is paid for: items outside the request that become
due were either held already or loaded beyond the request. -/
theorem legal_debt (legal : Legal requests budget n run) {i : ℕ} (bound : i < n) (horizon : β)
    (reached : requests.now i ≤ horizon) :
    due requests i horizon (dispatch requests run i \ requests.working i) +
        (requests.operands i).card ≤
      due requests i horizon (run.resident i) + (run.prefetch i).card := by
  have outside : dispatch requests run i \ requests.working i ⊆
      (run.resident i \ requests.operands i) ∪ (run.prefetch i \ requests.operands i) := by
    intro item member
    simp only [dispatch, Requests.working, Finset.mem_sdiff, Finset.mem_union, not_or] at member ⊢
    tauto
  have spread := (due_mono requests i horizon outside).trans
    (due_union_le requests i horizon _ _)
  have extra := due_le_card requests i horizon
    (run.prefetch i \ requests.operands i)
  have split := due_split requests i horizon reached (run.resident i)
  have named := operands_split requests i (run.resident i)
  have demanded : (requests.operands i \ run.resident i).card ≤
      (requests.operands i ∩ run.prefetch i).card := by
    refine Finset.card_le_card fun item member => Finset.mem_inter.mpr ⟨?_, ?_⟩
    · exact (Finset.mem_sdiff.mp member).1
    · exact prefetch_covers legal bound member
  have loads := Finset.card_sdiff_add_card_inter (run.prefetch i) (requests.operands i)
  rw [Finset.inter_comm] at loads
  omega

/-- While no victim is due by the horizon, the farthest rule owes nothing more. -/
theorem farthest_debt (legal : Legal requests budget n run)
    (rule : Farthest requests budget n run) {i : ℕ} (bound : i < n) (horizon : β)
    (reached : requests.now i ≤ horizon)
    (late : ∀ victim ∈ run.evict i, horizon < requests.nextUse i victim) :
    due requests i horizon (run.resident i) + (run.prefetch i).card ≤
      due requests i horizon (dispatch requests run i \ requests.working i) +
        (requests.operands i).card := by
  have split := due_split requests i horizon reached (run.resident i)
  have named := operands_split requests i (run.resident i)
  have kept : due requests i horizon (run.resident i \ requests.operands i) ≤
      due requests i horizon (dispatch requests run i \ requests.working i) := by
    refine Finset.card_le_card fun item member => ?_
    rw [Finset.mem_filter, Finset.mem_sdiff] at member
    obtain ⟨⟨held, unnamed⟩, soon⟩ := member
    have survives : item ∉ run.evict i := fun victim => absurd soon (not_le.mpr (late item victim))
    have old : item ∉ requests.fresh i := fun created =>
      Finset.disjoint_left.mp (legal.newcomer i bound) created held
    rw [Finset.mem_filter, Finset.mem_sdiff, dispatch, Requests.working]
    refine ⟨⟨?_, ?_⟩, soon⟩
    · exact Finset.mem_union_left _ (Finset.mem_sdiff.mpr ⟨held, survives⟩)
    · simp only [Finset.mem_union, not_or]
      exact ⟨unnamed, old⟩
  rw [rule.demand i bound]
  omega

/-- A victim due by the horizon means everything kept is due by it as well, and
the budget is used up. -/
theorem farthest_full (legal : Legal requests budget n run)
    (rule : Farthest requests budget n run) {i : ℕ} (bound : i < n) (horizon : β) {victim : α}
    (evicted : victim ∈ run.evict i) (soon : requests.nextUse i victim ≤ horizon) :
    budget ≤ due requests i horizon (dispatch requests run i \ requests.working i) +
      (requests.working i).card := by
  have kept : ∀ item ∈ dispatch requests run i \ requests.working i,
      requests.nextUse i item ≤ horizon := by
    intro item member
    obtain ⟨held, outside⟩ := Finset.mem_sdiff.mp member
    rw [dispatch, rule.demand i bound, Finset.mem_union, Finset.mem_union, Finset.mem_sdiff,
      Finset.mem_sdiff] at held
    rcases held with ⟨old, survives⟩ | created | ⟨named, -⟩
    · exact (rule.farthest i bound victim evicted item old survives outside).trans soon
    · exact absurd (Finset.mem_union_right _ created) outside
    · exact absurd (Finset.mem_union_left _ named) outside
  rw [due_eq_card requests i horizon _ kept,
    Finset.card_sdiff_add_card_eq_card (legal.served i bound)]
  exact rule.full i bound ⟨victim, evicted⟩

/-- The items held after a request, counted by next use. -/
theorem due_next (legal : Legal requests budget n run) {i : ℕ} (bound : i < n) (horizon : β) :
    due requests (i + 1) horizon (run.resident (i + 1)) =
      due requests (i + 1) horizon (requests.working i \ requests.dead i) +
        due requests i horizon (dispatch requests run i \ requests.working i) := by
  have parts : run.resident (i + 1) =
      (requests.working i \ requests.dead i) ∪ (dispatch requests run i \ requests.working i) := by
    rw [legal.next i bound]
    ext item
    have served : item ∈ requests.working i → item ∈ dispatch requests run i :=
      fun member => legal.served i bound member
    have leaves : item ∈ requests.dead i → item ∈ requests.working i :=
      fun member => requests.deadWorking i member
    simp only [Finset.mem_sdiff, Finset.mem_union]
    tauto
  have apart : Disjoint (requests.working i \ requests.dead i)
      (dispatch requests run i \ requests.working i) :=
    Finset.disjoint_of_subset_left Finset.sdiff_subset Finset.disjoint_sdiff
  rw [parts, due_disjoint_union requests (i + 1) horizon apart]
  congr 1
  rw [due, due]
  congr 1
  apply Finset.filter_congr
  intro item member
  rw [requests.unchanged i item (Finset.mem_sdiff.mp member).2]

/-- The farthest rule is never ahead in loads, and behind in held items only by
loads the other run has already paid for. -/
structure Behind (requests : Requests α β) (run other : Run α) (i : ℕ) : Prop where
  fewer : prefetches run i ≤ prefetches other i
  owed : ∀ horizon, prefetches run i + due requests i horizon (other.resident i) ≤
    prefetches other i + due requests i horizon (run.resident i)

omit [DecidableEq α] in
theorem prefetches_succ (run : Run α) (i : ℕ) :
    prefetches run (i + 1) = prefetches run i + (run.prefetch i).card :=
  Finset.sum_range_succ _ i

omit [DecidableEq α] in
theorem evictions_succ (run : Run α) (i : ℕ) :
    evictions run (i + 1) = evictions run i + (run.evict i).card :=
  Finset.sum_range_succ _ i

theorem behind_step (legal : Legal requests budget n run)
    (rule : Farthest requests budget n run) (otherLegal : Legal requests budget n other) {i : ℕ}
    (bound : i < n) (holds : Behind requests run other i) :
    Behind requests run other (i + 1) := by
  have fewer : prefetches run (i + 1) ≤ prefetches other (i + 1) := by
    have owed := holds.owed (requests.now i)
    rw [due_now, due_now] at owed
    have demanded := Finset.card_le_card (prefetch_covers otherLegal bound)
    have mine := operands_split requests i (run.resident i)
    have theirs := operands_split requests i (other.resident i)
    rw [prefetches_succ, prefetches_succ, rule.demand i bound]
    omega
  refine ⟨fewer, fun horizon => ?_⟩
  rw [due_next legal bound, due_next otherLegal bound]
  have idle (run : Run α) :
      Disjoint (dispatch requests run i \ requests.working i) (requests.operands i) :=
    Finset.disjoint_of_subset_right Finset.subset_union_left Finset.sdiff_disjoint
  rcases lt_or_ge horizon (requests.now i) with past | reached
  · rw [due_past requests i horizon past _ (idle run),
      due_past requests i horizon past _ (idle other)]
    omega
  · by_cases late : ∀ victim ∈ run.evict i, horizon < requests.nextUse i victim
    · have mine := farthest_debt legal rule bound horizon reached late
      have theirs := legal_debt otherLegal bound horizon reached
      have owed := holds.owed horizon
      rw [prefetches_succ, prefetches_succ]
      omega
    · push Not at late
      obtain ⟨victim, evicted, soon⟩ := late
      have mine := farthest_full legal rule bound horizon evicted soon
      have small := due_le_card requests i horizon
        (dispatch requests other i \ requests.working i)
      have size := Finset.card_sdiff_add_card_eq_card (otherLegal.served i bound)
      have within := otherLegal.within i bound
      omega

theorem behind (legal : Legal requests budget n run) (rule : Farthest requests budget n run)
    (otherLegal : Legal requests budget n other) (i : ℕ) (bound : i ≤ n) :
    Behind requests run other i := by
  induction i with
  | zero => exact ⟨le_refl _, fun horizon => by simp [legal.start, otherLegal.start, prefetches]⟩
  | succ i induction =>
      exact behind_step legal rule otherLegal (by omega) (induction (by omega))

theorem prefetches_le (legal : Legal requests budget n run)
    (rule : Farthest requests budget n run) (otherLegal : Legal requests budget n other) :
    prefetches run n ≤ prefetches other n :=
  (behind legal rule otherLegal n (le_refl n)).fewer

/-- Everything that enters leaves for free, by eviction, or is still held. -/
theorem flow_balance (legal : Legal requests budget n run) (i : ℕ) (bound : i ≤ n) :
    (run.resident i).card + evictions run i + ∑ j ∈ Finset.range i, (requests.dead j).card =
      prefetches run i + ∑ j ∈ Finset.range i, (requests.fresh j).card := by
  induction i with
  | zero => simp [legal.start, evictions, prefetches]
  | succ i induction =>
      have previous := induction (by omega)
      have inRange : i < n := by omega
      have leaves : requests.dead i ⊆ dispatch requests run i :=
        (requests.deadWorking i).trans (legal.served i inRange)
      have after := Finset.card_sdiff_add_card_eq_card leaves
      have entering := Finset.card_union_of_disjoint (legal.loaded i inRange).symm
      have creating : ((run.resident i \ run.evict i) ∪ requests.fresh i).card =
          (run.resident i \ run.evict i).card + (requests.fresh i).card :=
        Finset.card_union_of_disjoint (Finset.disjoint_of_subset_left Finset.sdiff_subset
          (legal.newcomer i inRange).symm)
      have leaving := Finset.card_sdiff_add_card_eq_card (legal.evicted i inRange)
      have whole : dispatch requests run i =
          ((run.resident i \ run.evict i) ∪ requests.fresh i) ∪ run.prefetch i := by
        rw [dispatch, Finset.union_assoc]
      rw [whole] at after
      rw [legal.next i inRange, whole, evictions_succ, prefetches_succ, Finset.sum_range_succ,
        Finset.sum_range_succ]
      omega

theorem transfers_le [OrderTop β] (legal : Legal requests budget n run)
    (rule : Farthest requests budget n run) (otherLegal : Legal requests budget n other) :
    prefetches run n + evictions run n ≤ prefetches other n + evictions other n := by
  obtain ⟨fewer, owed⟩ := behind legal rule otherLegal n (le_refl n)
  have all := owed ⊤
  rw [due_eq_card requests n ⊤ _ (fun _ _ => le_top),
    due_eq_card requests n ⊤ _ (fun _ _ => le_top)] at all
  have mine := flow_balance legal n (le_refl n)
  have theirs := flow_balance otherLegal n (le_refl n)
  omega

end Run

end Fhenomenon.Lib.FarthestUse
