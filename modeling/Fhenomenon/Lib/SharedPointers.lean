import Fhenomenon.Lib.RefCounts

/-!
# Shared pointers

Variables that are empty or hold a counted block. Every count is kept right by the
operations on the variables, and clearing a variable disposes of what it alone kept.
-/

namespace Fhenomenon.Lib.SharedPointers

open Fhenomenon.Lib.RefCounts

/-- Only finitely many variables hold something. -/
structure Pointers (ι : Type*) where
  value : ι → Option Nat
  scope : Finset ι
  contained : ∀ name, value name ≠ none → name ∈ scope

/-- What a variable adds to the holders. -/
def hold : Option Nat → Multiset Nat
  | none => 0
  | some block => {block}

namespace Pointers

variable {ι : Type*}

def holders (pointers : Pointers ι) : Multiset Nat :=
  ∑ name ∈ pointers.scope, hold (pointers.value name)

theorem holders_none {pointers : Pointers ι} (none : ∀ name, pointers.value name = none) :
    pointers.holders = 0 :=
  Finset.sum_eq_zero fun name _ => by rw [none name, hold]

def empty : Pointers ι where
  value := fun _ => none
  scope := ∅
  contained := fun _ held => absurd rfl held

variable [DecidableEq ι]

def set (name : ι) (new : Option Nat) (pointers : Pointers ι) : Pointers ι where
  value := Function.update pointers.value name new
  scope := insert name pointers.scope
  contained := by
    intro other held
    by_cases same : other = name
    · exact Finset.mem_insert.mpr (Or.inl same)
    · rw [Function.update_of_ne same] at held
      exact Finset.mem_insert_of_mem (pointers.contained other held)

@[simp] theorem set_value (name other : ι) (new : Option Nat) (pointers : Pointers ι) :
    (pointers.set name new).value other = if other = name then new else pointers.value other :=
  Function.update_apply ..

theorem holders_eq (pointers : Pointers ι) (name : ι) :
    pointers.holders = hold (pointers.value name) +
      ∑ other ∈ (insert name pointers.scope).erase name, hold (pointers.value other) := by
  have member : name ∈ insert name pointers.scope := Finset.mem_insert_self name _
  rw [Finset.add_sum_erase _ (fun other => hold (pointers.value other)) member]
  apply Finset.sum_subset (Finset.subset_insert name pointers.scope)
  intro other _ outside
  have none : pointers.value other = none := by
    by_contra held
    exact outside (pointers.contained other held)
  rw [none, hold]

theorem holders_set (name : ι) (new : Option Nat) (pointers : Pointers ι) :
    (pointers.set name new).holders + hold (pointers.value name) =
      pointers.holders + hold new := by
  have others : ∑ other ∈ (insert name (pointers.set name new).scope).erase name,
      hold ((pointers.set name new).value other) =
        ∑ other ∈ (insert name pointers.scope).erase name, hold (pointers.value other) := by
    apply Finset.sum_congr
    · simp [set]
    · intro other member
      rw [set_value, if_neg (Finset.ne_of_mem_erase member)]
  rw [holders_eq (pointers.set name new) name, holders_eq pointers name, others, set_value,
    if_pos rfl]
  abel

theorem holders_fill {name : ι} {pointers : Pointers ι} (free : pointers.value name = none)
    (block : Nat) : (pointers.set name (some block)).holders = block ::ₘ pointers.holders := by
  have trade := holders_set name (some block) pointers
  rw [free, hold, hold, add_zero, add_comm, Multiset.singleton_add] at trade
  exact trade

theorem holders_clear {name : ι} {pointers : Pointers ι} {block : Nat}
    (held : pointers.value name = some block) :
    pointers.holders = block ::ₘ (pointers.set name none).holders := by
  have trade := holders_set name none pointers
  rw [held, hold, hold, add_zero, add_comm, Multiset.singleton_add] at trade
  exact trade.symm

theorem mem_holders {name : ι} {pointers : Pointers ι} {block : Nat}
    (held : pointers.value name = some block) : block ∈ pointers.holders := by
  rw [holders_clear held]
  exact Multiset.mem_cons_self block _

end Pointers

structure Heap (ι : Type*) where
  blocks : Blocks
  pointers : Pointers ι

namespace Heap

variable {ι : Type*}

def empty : Heap ι where
  blocks := Blocks.empty
  pointers := Pointers.empty

variable [DecidableEq ι]

/-- An empty variable gets a new block, which shares `parent`. -/
def make (name : ι) (parent : Option Nat) (heap : Heap ι) : Heap ι where
  blocks := heap.blocks.create parent
  pointers := heap.pointers.set name (some heap.blocks.next)

/-- An empty variable gets what another one holds. -/
def copy (name source : ι) (heap : Heap ι) : Heap ι :=
  match heap.pointers.value source with
  | none => heap
  | some block =>
      { blocks := heap.blocks.share block
        pointers := heap.pointers.set name (some block) }

/-- An empty variable takes over what another one holds. -/
def move (name source : ι) (heap : Heap ι) : Heap ι :=
  { heap with
    pointers := (heap.pointers.set source none).set name (heap.pointers.value source) }

/-- A variable lets go. Returns what is released, in order. -/
def reset (name : ι) (heap : Heap ι) : Heap ι × List Nat :=
  match heap.pointers.value name with
  | none => (heap, [])
  | some block =>
      let dropped := heap.blocks.drop block
      ({ blocks := dropped.1, pointers := heap.pointers.set name none }, dropped.2)

end Heap

/-- Every count is that of the variables and of the live blocks that hold the block. -/
def WellCounted {ι : Type*} (heap : Heap ι) : Prop :=
  Balanced heap.blocks heap.pointers.holders

section Rules

variable {ι : Type*} {heap : Heap ι}

theorem empty_counted : WellCounted (Heap.empty : Heap ι) := by
  have none : (Pointers.empty : Pointers ι).holders = 0 := Pointers.holders_none fun _ => rfl
  rw [WellCounted, Heap.empty, none]
  exact balanced_empty

/-- When every variable is empty, every block is gone. -/
theorem all_empty_gone (counted : WellCounted heap)
    (none : ∀ name, heap.pointers.value name = none) : heap.blocks.live = ∅ := by
  rw [WellCounted, Pointers.holders_none none] at counted
  exact unheld_gone counted

variable [DecidableEq ι] {name source : ι}

theorem value_live (counted : WellCounted heap) {block : Nat}
    (held : heap.pointers.value name = some block) : block ∈ heap.blocks.live :=
  held_live counted (Pointers.mem_holders held)

theorem make_counted (counted : WellCounted heap) {parent : Option Nat}
    (free : heap.pointers.value name = none)
    (live : ∀ block, parent = some block → block ∈ heap.blocks.live) :
    WellCounted (heap.make name parent) := by
  rw [WellCounted, Heap.make, Pointers.holders_fill free]
  exact balanced_create counted live

theorem copy_counted (counted : WellCounted heap) (free : heap.pointers.value name = none) :
    WellCounted (heap.copy name source) := by
  unfold Heap.copy
  split
  · exact counted
  · rename_i block held
    rw [WellCounted, Pointers.holders_fill free]
    exact balanced_share counted (value_live counted held)

theorem move_holders (free : heap.pointers.value name = none) (apart : name ≠ source) :
    (heap.move name source).pointers.holders = heap.pointers.holders := by
  have out := Pointers.holders_set source none heap.pointers
  have empty : (heap.pointers.set source none).value name = none := by
    rw [Pointers.set_value, if_neg apart, free]
  have into := Pointers.holders_set name (heap.pointers.value source)
    (heap.pointers.set source none)
  rw [empty, hold, add_zero] at into
  rw [hold, add_zero] at out
  rw [Heap.move, into, out]

theorem move_counted (counted : WellCounted heap) (free : heap.pointers.value name = none)
    (apart : name ≠ source) : WellCounted (heap.move name source) := by
  rw [WellCounted, move_holders free apart]
  exact counted

/-- Clearing a variable disposes of what it alone kept, and of nothing else. -/
theorem reset_disposes {State : Type*} {dispose : Nat → State → Option State}
    {tracks : Finset Nat → State → Prop} (counted : WellCounted heap)
    (disposes : Disposes dispose tracks heap.blocks.parent) {state : State}
    (tracked : tracks heap.blocks.live state) :
    ∃ final,
      (heap.reset name).2.foldlM (fun state block => dispose block state) state = some final ∧
        tracks (heap.reset name).1.blocks.live final ∧ WellCounted (heap.reset name).1 := by
  unfold Heap.reset
  split
  · exact ⟨state, rfl, tracked, counted⟩
  · rename_i block held
    rw [WellCounted, Pointers.holders_clear held] at counted
    exact drop_disposes disposes counted tracked

@[simp] theorem make_value (parent : Option Nat) (other : ι) :
    (heap.make name parent).pointers.value other =
      if other = name then some heap.blocks.next else heap.pointers.value other :=
  Pointers.set_value ..

theorem copy_value (free : heap.pointers.value name = none) (other : ι) :
    (heap.copy name source).pointers.value other =
      if other = name then heap.pointers.value source else heap.pointers.value other := by
  unfold Heap.copy
  split
  · rename_i empty
    split_ifs with same
    · rw [same, free, empty]
    · rfl
  · rename_i block held
    rw [held]
    exact Pointers.set_value ..

@[simp] theorem move_value (other : ι) :
    (heap.move name source).pointers.value other =
      if other = name then heap.pointers.value source
      else if other = source then none else heap.pointers.value other := by
  rw [Heap.move, Pointers.set_value, Pointers.set_value]

@[simp] theorem reset_value (other : ι) :
    (heap.reset name).1.pointers.value other =
      if other = name then none else heap.pointers.value other := by
  unfold Heap.reset
  split
  · rename_i empty
    split_ifs with same
    · rw [same, empty]
    · rfl
  · exact Pointers.set_value ..

@[simp] theorem copy_blocks :
    (heap.copy name source).blocks.live = heap.blocks.live ∧
      (heap.copy name source).blocks.parent = heap.blocks.parent := by
  unfold Heap.copy
  split <;> exact ⟨rfl, rfl⟩

@[simp] theorem reset_parent : (heap.reset name).1.blocks.parent = heap.blocks.parent := by
  unfold Heap.reset
  split
  · rfl
  · exact release_parent _ _ _

theorem value_older (counted : WellCounted heap) {block : Nat}
    (held : heap.pointers.value name = some block) : block < heap.blocks.next :=
  counted.numbered block (value_live counted held)

end Rules

end Fhenomenon.Lib.SharedPointers
