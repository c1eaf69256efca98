import Fhenomenon.Lib.Removals
import Fhenomenon.PlannerSteps

/-!
# Replaying action lists

A plan is only its action lists. `replay` runs them over a set of resident ids,
independently of the counters the planner kept; `Legal` says no update repeats
what already holds.
-/

namespace Fhenomenon.DeviceReplay

open Fhenomenon.Lib Fhenomenon.InstructionStream Fhenomenon.MovementPlanner
open Fhenomenon.PlannerSteps

def replayMove (resident : Finset Nat) : Move → Finset Nat
  | .evict id => resident.erase id
  | .alloc id => insert id resident
  | .prefetch id => insert id resident
  | .free id => resident.erase id

def replay (resident : Finset Nat) (ms : List Move) : Finset Nat := ms.foldl replayMove resident

def legalMove (resident : Finset Nat) : Move → Prop
  | .evict id => id ∈ resident
  | .alloc id => id ∉ resident
  | .prefetch id => id ∉ resident
  | .free id => id ∈ resident

def Legal : Finset Nat → List Move → Prop
  | _, [] => True
  | resident, move :: rest => legalMove resident move ∧ Legal (replayMove resident move) rest

instance decidableLegalMove (resident : Finset Nat) :
    (move : Move) → Decidable (legalMove resident move)
  | .evict id => inferInstanceAs (Decidable (id ∈ resident))
  | .alloc id => inferInstanceAs (Decidable (id ∉ resident))
  | .prefetch id => inferInstanceAs (Decidable (id ∉ resident))
  | .free id => inferInstanceAs (Decidable (id ∈ resident))

instance decidableLegal : (resident : Finset Nat) → (ms : List Move) →
    Decidable (Legal resident ms)
  | _, [] => isTrue trivial
  | resident, move :: rest =>
      have := decidableLegal (replayMove resident move) rest
      inferInstanceAs (Decidable (legalMove resident move ∧
        Legal (replayMove resident move) rest))

theorem replay_append (resident : Finset Nat) (first second : List Move) :
    replay resident (first ++ second) = replay (replay resident first) second :=
  List.foldl_append

theorem legal_append (resident : Finset Nat) (first second : List Move) :
    Legal resident (first ++ second) ↔
      Legal resident first ∧ Legal (replay resident first) second := by
  induction first generalizing resident with
  | nil => simp [Legal, replay]
  | cons move rest induction =>
      simp only [List.cons_append, Legal, induction, and_assoc, replay, List.foldl_cons]

theorem replay_evicts (resident : Finset Nat) (ids : List Nat) :
    replay resident (ids.map Move.evict) = resident \ ids.toFinset := by
  induction ids generalizing resident with
  | nil => simp [replay]
  | cons id rest induction =>
      have step : replay resident ((id :: rest).map Move.evict) =
          replay (resident.erase id) (rest.map Move.evict) := rfl
      rw [step, induction, Lib.Removals.sdiff_cons]

theorem replay_frees (resident : Finset Nat) (ids : List Nat) :
    replay resident (ids.map Move.free) = resident \ ids.toFinset := by
  have same : replay resident (ids.map Move.free) = replay resident (ids.map Move.evict) := by
    simp only [replay, List.foldl_map, replayMove]
  rw [same, replay_evicts]

theorem replay_prefetches (resident : Finset Nat) (ids : List Nat) :
    replay resident (ids.map Move.prefetch) = resident ∪ ids.toFinset := by
  induction ids generalizing resident with
  | nil => simp [replay]
  | cons id rest induction =>
      have step : replay resident ((id :: rest).map Move.prefetch) =
          replay (insert id resident) (rest.map Move.prefetch) := rfl
      rw [step, induction]
      ext other
      simp

theorem replay_allocs (resident : Finset Nat) (ids : List Nat) :
    replay resident (ids.map Move.alloc) = resident ∪ ids.toFinset := by
  have same : replay resident (ids.map Move.alloc) = replay resident (ids.map Move.prefetch) := by
    simp only [replay, List.foldl_map, replayMove]
  rw [same, replay_prefetches]

theorem mem_replay_loads (resident : Finset Nat) (act : FhnMovementActions) (id : Nat) :
    id ∈ replay resident (loadMoves act) ↔
      (id ∈ resident ∧ id ∉ act.evict) ∨ id ∈ act.alloc ∨ id ∈ act.prefetch := by
  rw [loadMoves, replay_append, replay_append, replay_evicts, replay_allocs, replay_prefetches]
  simp

theorem replay_moves (resident : Finset Nat) (act : FhnMovementActions) :
    replay resident (moves act) = replay resident (loadMoves act) \ act.free.toFinset := by
  rw [moves, replay_append, replay_frees]

theorem legal_evicts (resident : Finset Nat) (ids : List Nat) (nodup : ids.Nodup)
    (members : ∀ id ∈ ids, id ∈ resident) : Legal resident (ids.map Move.evict) := by
  induction ids generalizing resident with
  | nil => trivial
  | cons id rest induction =>
      obtain ⟨absent, nodup⟩ := List.nodup_cons.mp nodup
      refine ⟨members id (by simp), induction (resident.erase id) nodup ?_⟩
      intro other later
      have different : other ≠ id := fun same => absent (same ▸ later)
      exact Finset.mem_erase.mpr ⟨different, members other (by simp [later])⟩

theorem legal_frees (resident : Finset Nat) (ids : List Nat) (nodup : ids.Nodup)
    (members : ∀ id ∈ ids, id ∈ resident) : Legal resident (ids.map Move.free) := by
  induction ids generalizing resident with
  | nil => trivial
  | cons id rest induction =>
      obtain ⟨absent, nodup⟩ := List.nodup_cons.mp nodup
      refine ⟨members id (by simp), induction (resident.erase id) nodup ?_⟩
      intro other later
      have different : other ≠ id := fun same => absent (same ▸ later)
      exact Finset.mem_erase.mpr ⟨different, members other (by simp [later])⟩

theorem legal_prefetches (resident : Finset Nat) (ids : List Nat) (nodup : ids.Nodup)
    (absent : ∀ id ∈ ids, id ∉ resident) : Legal resident (ids.map Move.prefetch) := by
  induction ids generalizing resident with
  | nil => trivial
  | cons id rest induction =>
      obtain ⟨fresh, nodup⟩ := List.nodup_cons.mp nodup
      refine ⟨absent id (by simp), induction (insert id resident) nodup ?_⟩
      intro other later
      have different : other ≠ id := fun same => fresh (same ▸ later)
      simp only [Finset.mem_insert, not_or]
      exact ⟨different, absent other (by simp [later])⟩

theorem part_append {α : Type*} (part first second : List α) (early : part <+: first ++ second) :
    part <+: first ∨ ∃ rest, part = first ++ rest ∧ rest <+: second := by
  obtain ⟨tail, whole⟩ := early
  rcases List.append_eq_append_iff.mp whole with ⟨more, within, -⟩ | ⟨rest, beyond, split⟩
  · exact Or.inl ⟨more, within.symm⟩
  · exact Or.inr ⟨rest, beyond, ⟨tail, split.symm⟩⟩

/-- Updates that only take ids off the device. -/
def drops : Move → Bool
  | .evict _ => true
  | .free _ => true
  | .alloc _ => false
  | .prefetch _ => false

theorem replay_drops_subset (resident : Finset Nat) (ms : List Move)
    (dropping : ∀ move ∈ ms, drops move = true) : replay resident ms ⊆ resident := by
  induction ms generalizing resident with
  | nil => exact Finset.Subset.refl _
  | cons move rest induction =>
      obtain ⟨head, tail⟩ := List.forall_mem_cons.mp dropping
      refine (induction (replayMove resident move) tail).trans ?_
      cases move with
      | evict id => exact Finset.erase_subset id resident
      | free id => exact Finset.erase_subset id resident
      | alloc id => cases head
      | prefetch id => cases head

theorem subset_replay_loads (resident : Finset Nat) (ms : List Move)
    (loading : ∀ move ∈ ms, drops move = false) : resident ⊆ replay resident ms := by
  induction ms generalizing resident with
  | nil => exact Finset.Subset.refl _
  | cons move rest induction =>
      obtain ⟨head, tail⟩ := List.forall_mem_cons.mp loading
      refine Finset.Subset.trans ?_ (induction (replayMove resident move) tail)
      cases move with
      | evict id => cases head
      | free id => cases head
      | alloc id => exact Finset.subset_insert id resident
      | prefetch id => exact Finset.subset_insert id resident

/-- Part of an instruction's updates leaves no more than it found, or no more
than what dispatch sees. -/
theorem replay_part_subset (resident : Finset Nat) (act : FhnMovementActions) (ms : List Move)
    (part : ms <+: moves act) :
    replay resident ms ⊆ resident ∨ replay resident ms ⊆ replay resident (loadMoves act) := by
  have frees : ∀ move ∈ act.free.map Move.free, drops move = true := by simp [drops]
  have evicts : ∀ move ∈ act.evict.map Move.evict, drops move = true := by simp [drops]
  have loads : ∀ move ∈ act.alloc.map Move.alloc ++ act.prefetch.map Move.prefetch,
      drops move = false := by
    intro move member
    rcases List.mem_append.mp member with allocated | fetched
    · obtain ⟨id, -, rfl⟩ := List.mem_map.mp allocated
      rfl
    · obtain ⟨id, -, rfl⟩ := List.mem_map.mp fetched
      rfl
  rw [moves] at part
  rcases part_append _ _ _ part with loaded | ⟨freed, rfl, freeing⟩
  · rw [loadMoves, List.append_assoc] at loaded ⊢
    rcases part_append _ _ _ loaded with evicting | ⟨fetched, rfl, ⟨rest, whole⟩⟩
    · left
      exact replay_drops_subset resident ms fun move member => evicts move (evicting.subset member)
    · right
      rw [← whole, ← List.append_assoc, replay_append resident (_ ++ fetched)]
      apply subset_replay_loads
      intro move member
      exact loads move (whole ▸ List.mem_append_right fetched member)
  · right
    rw [replay_append]
    exact replay_drops_subset _ freed fun move member => frees move (freeing.subset member)

/-- The updates of all instructions before position `i`. -/
def movesBefore (plan : FhnMovementPlan) (i : Nat) : List Move :=
  (plan.actions.take i).flatMap moves

def allMoves (plan : FhnMovementPlan) : List Move := plan.actions.flatMap moves

def residentBefore (plan : FhnMovementPlan) (i : Nat) : Finset Nat :=
  replay ∅ (movesBefore plan i)

theorem moves_before_succ (plan : FhnMovementPlan) (i : Nat) (act : FhnMovementActions)
    (found : plan.actions[i]? = some act) :
    movesBefore plan (i + 1) = movesBefore plan i ++ moves act := by
  simp [movesBefore, List.take_add_one, found]

theorem resident_before_succ (plan : FhnMovementPlan) (i : Nat) (act : FhnMovementActions)
    (found : plan.actions[i]? = some act) :
    residentBefore plan (i + 1) = replay (residentBefore plan i) (moves act) := by
  rw [residentBefore, moves_before_succ plan i act found, replay_append, residentBefore]

theorem flat_map_part {α β : Type*} (f : α → List β) (items : List α) (part : List β)
    (early : part <+: items.flatMap f) :
    part = [] ∨ ∃ i item rest, items[i]? = some item ∧ rest <+: f item ∧
      part = (items.take i).flatMap f ++ rest := by
  induction items generalizing part with
  | nil => exact Or.inl (List.prefix_nil.mp (by simpa using early))
  | cons item items induction =>
      rw [List.flatMap_cons] at early
      rcases part_append _ _ _ early with within | ⟨later, rfl, tail⟩
      · exact Or.inr ⟨0, item, part, rfl, within, by simp⟩
      · rcases induction later tail with rfl | ⟨i, other, final, get, piece, rfl⟩
        · exact Or.inr ⟨0, item, f item, rfl, List.prefix_rfl, by simp⟩
        · exact Or.inr ⟨i + 1, other, final, by simpa using get, piece, by simp⟩

theorem moment_cases (plan : FhnMovementPlan) (ms : List Move) (moment : ms <+: allMoves plan) :
    ms = [] ∨ ∃ i act part, plan.actions[i]? = some act ∧ part <+: moves act ∧
      ms = movesBefore plan i ++ part := flat_map_part moves plan.actions ms moment

theorem moment_of_part (plan : FhnMovementPlan) (i : Nat) (act : FhnMovementActions)
    (found : plan.actions[i]? = some act) (part : List Move) (early : part <+: moves act) :
    movesBefore plan i ++ part <+: allMoves plan := by
  have inside : movesBefore plan i ++ part <+: movesBefore plan (i + 1) := by
    rw [moves_before_succ plan i act found]
    exact (List.prefix_append_right_inj _).mpr early
  refine inside.trans ⟨(plan.actions.drop (i + 1)).flatMap moves, ?_⟩
  rw [movesBefore, ← List.flatMap_append, List.take_append_drop, allMoves]

/-- The largest total weight resident at any moment of the replay. -/
def peak (plan : FhnMovementPlan) (weight : Nat → Nat) : Nat :=
  ((allMoves plan).inits.map fun ms => ∑ id ∈ replay ∅ ms, weight id).foldr max 0

theorem le_peak (plan : FhnMovementPlan) (weight : Nat → Nat) (ms : List Move)
    (moment : ms <+: allMoves plan) : ∑ id ∈ replay ∅ ms, weight id ≤ peak plan weight := by
  apply List.le_max_of_le' 0 (List.mem_map.mpr ⟨ms, List.mem_inits ms _ |>.mpr moment, rfl⟩)
  exact le_refl _

theorem peak_le (plan : FhnMovementPlan) (weight : Nat → Nat) (bound : Nat)
    (within : ∀ ms, ms <+: allMoves plan → ∑ id ∈ replay ∅ ms, weight id ≤ bound) :
    peak plan weight ≤ bound := by
  apply List.max_le_of_forall_le
  intro total member
  obtain ⟨ms, moment, rfl⟩ := List.mem_map.mp member
  exact within ms ((List.mem_inits ms _).mp moment)

end Fhenomenon.DeviceReplay
