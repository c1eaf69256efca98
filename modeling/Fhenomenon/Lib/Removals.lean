import Mathlib

/-!
# Taking out one by one

A fold over distinct members of a set that takes one of them out at each step, with
an invariant that speaks of the members still there.
-/

namespace Fhenomenon.Lib.Removals

variable {α State : Type*} [DecidableEq α]

theorem sdiff_cons (set : Finset α) (item : α) (rest : List α) :
    set \ (item :: rest).toFinset = set.erase item \ rest.toFinset := by
  rw [List.toFinset_cons, Finset.sdiff_insert, Finset.erase_sdiff_comm]

theorem foldl_removes {holds : Finset α → State → Prop} {admits : α → Prop}
    {step : State → α → State}
    (removes : ∀ set item state, item ∈ set → admits item → holds set state →
      holds (set.erase item) (step state item))
    {set : Finset α} (items : List α) (nodup : items.Nodup) (members : ∀ item ∈ items, item ∈ set)
    (admitted : ∀ item ∈ items, admits item) (state : State) (start : holds set state) :
    holds (set \ items.toFinset) (items.foldl step state) := by
  induction items generalizing set state with
  | nil =>
      rw [List.toFinset_nil, Finset.sdiff_empty]
      exact start
  | cons item rest induction =>
      obtain ⟨absent, nodup⟩ := List.nodup_cons.mp nodup
      have later (other : α) (member : other ∈ rest) : other ∈ set.erase item := by
        refine Finset.mem_erase.mpr ⟨?_, members other (List.mem_cons_of_mem _ member)⟩
        rintro rfl
        exact absent member
      have removed := removes set item state (members item List.mem_cons_self)
        (admitted item List.mem_cons_self) start
      rw [sdiff_cons, List.foldl_cons]
      exact induction nodup later
        (fun other member => admitted other (List.mem_cons_of_mem _ member)) _ removed

end Fhenomenon.Lib.Removals
