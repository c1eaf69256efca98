import Mathlib

/-!
# Cyclic shifts by signed distances

A shift to the left by a signed distance. The shifts of a list are an action of
the integers, and distances equal modulo the length shift alike.
-/

namespace Fhenomenon.Lib.CyclicShift

variable {α β : Type*}

/-- Position `i` takes what stood at `i + distance`. -/
def shift (list : List α) (distance : Int) : List α :=
  list.rotate (distance % list.length).toNat

@[simp] theorem length_shift (list : List α) (distance : Int) :
    (shift list distance).length = list.length :=
  List.length_rotate list _

theorem shift_congr (list : List α) {first second : Int}
    (congruent : first ≡ second [ZMOD list.length]) : shift list first = shift list second := by
  rw [shift, congruent]
  rfl

theorem shift_nat (list : List α) (distance : Nat) :
    shift list distance = list.rotate distance := by
  have residue : ((distance : Int) % list.length).toNat = distance % list.length := by
    rw [← Int.natCast_mod, Int.toNat_natCast]
  rw [shift, residue, List.rotate_mod]

theorem shift_shift (list : List α) (first second : Int) :
    shift (shift list first) second = shift list (first + second) := by
  by_cases empty : list = []
  · rw [empty]
    simp [shift]
  · have positive : (0 : Int) < list.length := by
      exact_mod_cast List.length_pos_of_ne_nil empty
    have firstCast := Int.toNat_of_nonneg (Int.emod_nonneg first positive.ne')
    have secondCast := Int.toNat_of_nonneg (Int.emod_nonneg second positive.ne')
    have congruent : (((first % list.length).toNat + (second % list.length).toNat : Nat) : Int) ≡
        first + second [ZMOD list.length] := by
      push_cast
      rw [firstCast, secondCast]
      exact (Int.mod_modEq first _).add (Int.mod_modEq second _)
    calc shift (shift list first) second
        = list.rotate ((first % list.length).toNat + (second % list.length).toNat) := by
          rw [shift, length_shift, shift, List.rotate_rotate]
      _ = shift list ((first % list.length).toNat + (second % list.length).toNat : Nat) :=
          (shift_nat list _).symm
      _ = shift list (first + second) := shift_congr list congruent

theorem shift_of_dvd (list : List α) {distance : Int} (divides : (list.length : Int) ∣ distance) :
    shift list distance = list := by
  rw [shift, Int.emod_eq_zero_of_dvd divides, Int.toNat_zero, List.rotate_zero]

theorem shift_back (list : List α) (distance : Int) :
    shift (shift list distance) (-distance) = list := by
  rw [shift_shift, add_neg_cancel]
  exact shift_of_dvd list (dvd_zero _)

theorem shift_map (list : List α) (distance : Int) (fn : α → β) :
    shift (list.map fn) distance = (shift list distance).map fn := by
  rw [shift, shift, List.length_map, List.map_rotate]

section Windows

variable {M : Type*} [AddCommMonoid M]

/-- The entry at a position counted cyclically. -/
def entry (list : List M) (index : Nat) : M := list.getD (index % list.length) 0

/-- The sum of `width` consecutive entries. -/
def window (list : List M) (start width : Nat) : M :=
  ∑ offset ∈ Finset.range width, entry list (start + offset)

/-- Each entry and the one `distance` places further on. -/
def folded (list : List M) (distance : Int) : List M :=
  List.zipWith (· + ·) (shift list distance) list

theorem length_folded (list : List M) (distance : Int) :
    (folded list distance).length = list.length := by
  rw [folded, List.length_zipWith, length_shift, min_self]

theorem entry_of_lt {list : List M} {index : Nat} (bound : index < list.length) :
    list[index]? = some (entry list index) := by
  rw [entry, Nat.mod_eq_of_lt bound, List.getD_eq_getElem _ _ bound,
    List.getElem?_eq_getElem bound]

theorem entry_mod (list : List M) (index : Nat) :
    entry list (index % list.length) = entry list index := by
  rw [entry, entry, Nat.mod_mod]

theorem entry_shift (list : List M) (distance index : Nat) :
    entry (shift list distance) index = entry list (index + distance) := by
  by_cases empty : list = []
  · rw [empty]
    simp [entry, shift]
  · have positive := List.length_pos_of_ne_nil empty
    have bound := Nat.mod_lt index positive
    rw [entry, length_shift, List.getD_eq_getElem?_getD, shift_nat, List.getElem?_rotate bound,
      Nat.mod_add_mod, entry, List.getD_eq_getElem?_getD]

theorem entry_folded (list : List M) (distance index : Nat) :
    entry (folded list distance) index = entry list (index + distance) + entry list index := by
  by_cases empty : list = []
  · rw [empty]
    simp [entry, folded, shift]
  · have bound := Nat.mod_lt index (List.length_pos_of_ne_nil empty)
    have left := entry_of_lt (by rw [length_shift]; exact bound : _ < (shift list distance).length)
    have right := entry_of_lt bound
    rw [entry_shift, entry, Nat.mod_add_mod, ← entry] at left
    rw [entry_mod] at right
    rw [entry, length_folded, List.getD_eq_getElem?_getD, folded, List.getElem?_zipWith, left,
      right]
    rfl

theorem window_folded (list : List M) (start width : Nat) :
    window (folded list width) start width = window list start (width + width) := by
  rw [window, window, Finset.sum_range_add, add_comm, ← Finset.sum_add_distrib]
  apply Finset.sum_congr rfl
  intro offset _
  rw [entry_folded]
  ring_nf

theorem window_one (list : List M) (start : Nat) : window list start 1 = entry list start := by
  rw [window, Finset.sum_range_one, add_zero]

theorem window_shift (list : List M) (start width : Nat) :
    window list start width = window (shift list start) 0 width := by
  apply Finset.sum_congr rfl
  intro offset _
  rw [entry_shift, zero_add, add_comm]

theorem window_whole (list : List M) : window list 0 list.length = list.sum := by
  have listed : window list 0 list.length =
      ∑ index ∈ Finset.range list.length, list.getD index 0 := by
    apply Finset.sum_congr rfl
    intro index member
    rw [zero_add, entry, Nat.mod_eq_of_lt (Finset.mem_range.mp member)]
  rw [listed]
  clear listed
  induction list with
  | nil => rfl
  | cons first rest induction =>
      rw [List.length_cons, Finset.sum_range_succ', List.sum_cons, ← induction, add_comm]
      rfl

theorem window_full (list : List M) (start : Nat) :
    window list start list.length = list.sum := by
  have whole := window_whole (shift list start)
  rw [length_shift] at whole
  rw [window_shift, whole, shift_nat]
  exact (List.rotate_perm list start).sum_eq

theorem all_entries {list : List M} {total : M} (same : ∀ start, window list start 1 = total) :
    list = List.replicate list.length total := by
  apply List.ext_getElem?
  intro index
  by_cases bound : index < list.length
  · rw [entry_of_lt bound, ← window_one, same, List.getElem?_replicate, if_pos bound]
  · rw [List.getElem?_eq_none (by omega), List.getElem?_replicate, if_neg bound]

end Windows

end Fhenomenon.Lib.CyclicShift
