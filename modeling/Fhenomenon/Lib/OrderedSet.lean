import Mathlib

/-!
# Finite sets iterated in ascending order

A strictly ascending list is a value of this type, so iteration order is fixed
by the members and no duplicate can be stored. Every operation is read through
`toFinset`; the list itself only matters where the visiting order does.
-/

namespace Fhenomenon.Lib

structure OrderedSet (α : Type*) [LinearOrder α] where
  elems : List α
  sorted : elems.Pairwise (· < ·)

namespace OrderedSet

variable {α : Type*} [LinearOrder α]

instance : DecidableEq (OrderedSet α) := fun left right =>
  decidable_of_iff (left.elems = right.elems) (by cases left; cases right; simp)

def empty : OrderedSet α where
  elems := []
  sorted := List.Pairwise.nil

def toFinset (set : OrderedSet α) : Finset α := set.elems.toFinset

def contains (set : OrderedSet α) (item : α) : Bool := decide (item ∈ set.elems)

def size (set : OrderedSet α) : Nat := set.elems.length

theorem pairwise_lt_of_le_nodup {items : List α} (ordered : items.Pairwise (· ≤ ·))
    (nodup : items.Nodup) : items.Pairwise (· < ·) := by
  have both := List.Pairwise.and ordered nodup
  exact both.imp fun pair => lt_of_le_of_ne pair.1 pair.2

def insert (set : OrderedSet α) (item : α) : OrderedSet α :=
  if member : item ∈ set.elems then set
  else
    { elems := set.elems.orderedInsert (· ≤ ·) item
      sorted := by
        apply pairwise_lt_of_le_nodup
        · exact List.Pairwise.orderedInsert item _ (set.sorted.imp le_of_lt)
        · have nodup : (item :: set.elems).Nodup :=
            List.nodup_cons.mpr ⟨member, set.sorted.imp ne_of_lt⟩
          exact (List.perm_orderedInsert (· ≤ ·) item set.elems).nodup_iff.mpr nodup }

def erase (set : OrderedSet α) (item : α) : OrderedSet α where
  elems := set.elems.filter (· ≠ item)
  sorted := set.sorted.filter _

def ofList (items : List α) : OrderedSet α := items.foldl insert empty

theorem nodup (set : OrderedSet α) : set.elems.Nodup := set.sorted.imp ne_of_lt

@[simp] theorem mem_to_finset (set : OrderedSet α) (item : α) :
    item ∈ set.toFinset ↔ item ∈ set.elems := by
  simp [toFinset]

@[simp] theorem contains_iff (set : OrderedSet α) (item : α) :
    set.contains item = true ↔ item ∈ set.elems := by
  simp [contains]

@[simp] theorem to_finset_empty : (empty : OrderedSet α).toFinset = ∅ := rfl

@[simp] theorem elems_empty : (empty : OrderedSet α).elems = [] := rfl

@[simp] theorem mem_insert (set : OrderedSet α) (item other : α) :
    other ∈ (set.insert item).elems ↔ other = item ∨ other ∈ set.elems := by
  unfold insert
  split
  · constructor
    · exact Or.inr
    · rintro (rfl | member)
      · assumption
      · exact member
  · exact List.mem_orderedInsert (· ≤ ·)

@[simp] theorem to_finset_insert (set : OrderedSet α) (item : α) :
    (set.insert item).toFinset = Insert.insert item set.toFinset := by
  ext other
  simp

@[simp] theorem mem_erase (set : OrderedSet α) (item other : α) :
    other ∈ (set.erase item).elems ↔ other ≠ item ∧ other ∈ set.elems := by
  simp [erase, and_comm]

@[simp] theorem to_finset_erase (set : OrderedSet α) (item : α) :
    (set.erase item).toFinset = set.toFinset.erase item := by
  ext other
  simp

theorem mem_foldl_insert (items : List α) (set : OrderedSet α) (other : α) :
    other ∈ (items.foldl insert set).elems ↔ other ∈ items ∨ other ∈ set.elems := by
  induction items generalizing set with
  | nil => simp
  | cons item items induction =>
      rw [List.foldl_cons, induction, mem_insert, List.mem_cons]
      tauto

@[simp] theorem mem_of_list (items : List α) (other : α) :
    other ∈ (ofList items).elems ↔ other ∈ items := by
  simp [ofList, mem_foldl_insert]

theorem card_to_finset (set : OrderedSet α) : set.toFinset.card = set.size :=
  List.toFinset_card_of_nodup set.nodup

theorem size_erase_lt (set : OrderedSet α) (item : α) (member : item ∈ set.elems) :
    (set.erase item).size < set.size := by
  rw [← card_to_finset, ← card_to_finset, to_finset_erase]
  exact Finset.card_erase_lt_of_mem ((mem_to_finset set item).mpr member)

end OrderedSet

end Fhenomenon.Lib
