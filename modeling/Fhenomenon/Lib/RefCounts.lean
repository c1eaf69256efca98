import Mathlib

/-!
# Counted blocks

Blocks are shared by holders, and a block may itself hold an older block until it is
released. Letting go of a block may release it, then the block it held, and so on. At
every single release nothing holds the block any more.
-/

namespace Fhenomenon.Lib.RefCounts

/-- `parent` is the block that a block holds. -/
structure Blocks where
  live : Finset Nat
  parent : Nat → Option Nat
  count : Nat → Nat
  next : Nat

namespace Blocks

def empty : Blocks where
  live := ∅
  parent := fun _ => none
  count := fun _ => 0
  next := 0

/-- A new block with one holder, which shares `parent`. -/
def create (parent : Option Nat) (blocks : Blocks) : Blocks where
  live := insert blocks.next blocks.live
  parent := Function.update blocks.parent blocks.next parent
  count := fun block =>
    if block = blocks.next then 1
    else if parent = some block then blocks.count block + 1 else blocks.count block
  next := blocks.next + 1

def share (block : Nat) (blocks : Blocks) : Blocks :=
  { blocks with count := Function.update blocks.count block (blocks.count block + 1) }

def lessen (block : Nat) (blocks : Blocks) : Blocks :=
  { blocks with count := Function.update blocks.count block (blocks.count block - 1) }

def remove (block : Nat) (blocks : Blocks) : Blocks :=
  { blocks.lessen block with live := blocks.live.erase block }

/-- A holder lets go of `block`. Returns what is released, in order. -/
def release : Nat → Nat → Blocks → Blocks × List Nat
  | 0, _, blocks => (blocks, [])
  | fuel + 1, block, blocks =>
      if 1 < blocks.count block then (blocks.lessen block, [])
      else
        match blocks.parent block with
        | none => (blocks.remove block, [block])
        | some parent =>
            let rest := release fuel parent (blocks.remove block)
            (rest.1, block :: rest.2)

/-- A block only holds an older one, so no chain is longer than `next`. -/
def drop (block : Nat) (blocks : Blocks) : Blocks × List Nat :=
  release blocks.next block blocks

end Blocks

def children (blocks : Blocks) (block : Nat) : Finset Nat :=
  blocks.live.filter fun child => blocks.parent child = some block

/-- Every count is that of the holders outside and of the live blocks that hold it. -/
structure Balanced (blocks : Blocks) (holders : Multiset Nat) : Prop where
  counted : ∀ block, blocks.count block = holders.count block + (children blocks block).card
  live : ∀ block, block ∈ blocks.live ↔ 0 < blocks.count block
  older : ∀ block ∈ blocks.live, ∀ parent, blocks.parent block = some parent → parent < block
  numbered : ∀ block ∈ blocks.live, block < blocks.next

section Rules

variable {blocks : Blocks} {holders : Multiset Nat} {block : Nat}

theorem mem_children {child : Nat} :
    child ∈ children blocks block ↔ child ∈ blocks.live ∧ blocks.parent child = some block :=
  Finset.mem_filter

@[simp] theorem share_count (other : Nat) :
    (blocks.share block).count other =
      if other = block then blocks.count block + 1 else blocks.count other :=
  Function.update_apply ..

@[simp] theorem lessen_count (other : Nat) :
    (blocks.lessen block).count other =
      if other = block then blocks.count block - 1 else blocks.count other :=
  Function.update_apply ..

theorem balanced_empty : Balanced Blocks.empty 0 := by
  constructor <;> simp [Blocks.empty, children]

theorem held_live (balanced : Balanced blocks holders) (held : block ∈ holders) :
    block ∈ blocks.live := by
  rw [balanced.live, balanced.counted]
  have positive := Multiset.count_pos.mpr held
  omega

theorem last_unheld (balanced : Balanced blocks (block ::ₘ holders))
    (last : blocks.count block ≤ 1) : block ∉ holders ∧ children blocks block = ∅ := by
  have counted := balanced.counted block
  rw [Multiset.count_cons_self] at counted
  constructor
  · intro held
    have positive := Multiset.count_pos.mpr held
    omega
  · apply Finset.card_eq_zero.mp
    omega

theorem balanced_share (balanced : Balanced blocks holders) (held : block ∈ blocks.live) :
    Balanced (blocks.share block) (block ::ₘ holders) where
  counted := by
    intro other
    have counted := balanced.counted other
    have same : children (blocks.share block) other = children blocks other := rfl
    rw [same, share_count, Multiset.count_cons]
    split_ifs with equal
    · subst equal
      omega
    · exact counted
  live := by
    intro other
    have live := balanced.live other
    rw [share_count]
    split_ifs with equal
    · subst equal
      exact ⟨fun _ => Nat.succ_pos _, fun _ => held⟩
    · exact live
  older := balanced.older
  numbered := balanced.numbered

theorem balanced_lessen (balanced : Balanced blocks (block ::ₘ holders))
    (shared : 1 < blocks.count block) : Balanced (blocks.lessen block) holders where
  counted := by
    intro other
    have counted := balanced.counted other
    have same : children (blocks.lessen block) other = children blocks other := rfl
    rw [Multiset.count_cons] at counted
    rw [same, lessen_count]
    split_ifs at counted ⊢ with equal
    · subst equal
      omega
    · exact counted
  live := by
    intro other
    have live := balanced.live other
    rw [lessen_count]
    split_ifs with equal
    · subst equal
      exact live.trans (by omega)
    · exact live
  older := balanced.older
  numbered := balanced.numbered

/-- Who is left to let go when `block` is released. -/
def inherited (blocks : Blocks) (block : Nat) (holders : Multiset Nat) : Multiset Nat :=
  match blocks.parent block with
  | none => holders
  | some parent => parent ::ₘ holders

theorem inherited_count (other : Nat) :
    (inherited blocks block holders).count other =
      holders.count other + if blocks.parent block = some other then 1 else 0 := by
  unfold inherited
  cases blocks.parent block with
  | none => simp
  | some parent =>
      rw [Multiset.count_cons]
      simp [eq_comm]

theorem children_remove (other : Nat) :
    children (blocks.remove block) other = (children blocks other).erase block := by
  ext child
  rw [Finset.mem_erase, mem_children, mem_children]
  simp only [Blocks.remove, Blocks.lessen, Finset.mem_erase, and_assoc]

theorem balanced_remove (balanced : Balanced blocks (block ::ₘ holders))
    (last : blocks.count block ≤ 1) :
    Balanced (blocks.remove block) (inherited blocks block holders) where
  counted := by
    intro other
    have counted := balanced.counted other
    have live := held_live balanced (Multiset.mem_cons_self block holders)
    have changed : (blocks.remove block).count other = (blocks.lessen block).count other := rfl
    rw [Multiset.count_cons] at counted
    rw [changed, lessen_count, children_remove, inherited_count]
    by_cases holds : blocks.parent block = some other
    · -- The parent trades the block for the hold that is left over.
      have child : block ∈ children blocks other := mem_children.mpr ⟨live, holds⟩
      have apart : other ≠ block := (balanced.older block live other holds).ne
      have positive := Finset.card_pos.mpr ⟨block, child⟩
      rw [Finset.card_erase_of_mem child, if_neg apart, if_pos holds]
      rw [if_neg apart] at counted
      omega
    · have childless : block ∉ children blocks other :=
        fun child => holds (mem_children.mp child).2
      rw [Finset.erase_eq_of_notMem childless, if_neg holds]
      split_ifs at counted ⊢ with equal
      · subst equal
        omega
      · exact counted
  live := by
    intro other
    have live := balanced.live other
    have changed : (blocks.remove block).count other = (blocks.lessen block).count other := rfl
    rw [changed, lessen_count]
    simp only [Blocks.remove, Finset.mem_erase]
    split_ifs with equal
    · subst equal
      exact ⟨fun both => absurd rfl both.1, fun positive => absurd last (by omega)⟩
    · exact ⟨fun both => live.mp both.2, fun positive => ⟨equal, live.mpr positive⟩⟩
  older := fun other member => balanced.older other (Finset.mem_of_mem_erase member)
  numbered := fun other member => balanced.numbered other (Finset.mem_of_mem_erase member)

theorem children_create {parent : Option Nat} (balanced : Balanced blocks holders) (other : Nat) :
    children (blocks.create parent) other =
      if parent = some other then insert blocks.next (children blocks other)
      else children blocks other := by
  have unused : ∀ child ∈ blocks.live, child ≠ blocks.next :=
    fun child member => (balanced.numbered child member).ne
  ext child
  rw [mem_children]
  by_cases new : child = blocks.next
  · subst new
    have absent : blocks.next ∉ blocks.live := fun member => unused _ member rfl
    split_ifs with holds <;> simp [mem_children, Blocks.create, absent, holds]
  · split_ifs with holds <;> simp [mem_children, Blocks.create, new]

theorem balanced_create {parent : Option Nat} (balanced : Balanced blocks holders)
    (held : ∀ block, parent = some block → block ∈ blocks.live) :
    Balanced (blocks.create parent) (blocks.next ::ₘ holders) where
  counted := by
    intro other
    have counted := balanced.counted other
    have absent : blocks.next ∉ blocks.live :=
      fun member => lt_irrefl _ (balanced.numbered _ member)
    have unheld : parent ≠ some blocks.next := fun holds => absent (held _ holds)
    rw [children_create balanced, Multiset.count_cons]
    simp only [Blocks.create]
    by_cases new : other = blocks.next
    · subst new
      have none := mt (balanced.live _).mpr absent
      rw [if_pos rfl, if_pos rfl, if_neg unheld]
      omega
    · rw [if_neg new, if_neg new]
      split_ifs with holds
      · have childless : blocks.next ∉ children blocks other :=
          fun child => absent (mem_children.mp child).1
        rw [Finset.card_insert_of_notMem childless]
        omega
      · omega
  live := by
    intro other
    have live := balanced.live other
    simp only [Blocks.create, Finset.mem_insert]
    split_ifs with new holds
    · exact ⟨fun _ => Nat.one_pos, fun _ => Or.inl new⟩
    · exact ⟨fun _ => Nat.succ_pos _, fun _ => Or.inr (held _ holds)⟩
    · refine ⟨?_, fun positive => Or.inr (live.mpr positive)⟩
      exact fun either => live.mp (either.resolve_left new)
  older := by
    intro other member above holds
    rcases Finset.mem_insert.mp member with new | member
    · subst new
      simp only [Blocks.create, Function.update_self] at holds
      exact balanced.numbered above (held above holds)
    · have apart : other ≠ blocks.next := (balanced.numbered other member).ne
      simp only [Blocks.create, Function.update_of_ne apart] at holds
      exact balanced.older other member above holds
  numbered := by
    intro other member
    rcases Finset.mem_insert.mp member with new | member
    · exact new.trans_lt (Nat.lt_succ_self _)
    · exact Nat.lt_succ_of_lt (balanced.numbered other member)

/-- What nobody holds is gone: the youngest live block would have no holder. -/
theorem unheld_gone (balanced : Balanced blocks 0) : blocks.live = ∅ := by
  by_contra some
  obtain ⟨youngest, live, last⟩ :=
    blocks.live.exists_max_image id (Finset.nonempty_iff_ne_empty.mpr some)
  have counted := balanced.counted youngest
  have positive := (balanced.live youngest).mp live
  rw [Multiset.count_zero, Nat.zero_add] at counted
  obtain ⟨child, member⟩ := Finset.card_pos.mp (counted ▸ positive)
  obtain ⟨childLive, holds⟩ := mem_children.mp member
  have older := balanced.older child childLive youngest holds
  exact absurd (last child childLive) (Nat.not_le.mpr older)

@[simp] theorem release_parent (fuel block : Nat) (blocks : Blocks) :
    (blocks.release fuel block).1.parent = blocks.parent := by
  induction fuel generalizing block blocks with
  | zero => rfl
  | succ fuel induction =>
      simp only [Blocks.release]
      split_ifs
      · rfl
      · split
        · rfl
        · exact induction _ _

variable {State : Type*} {dispose : Nat → State → Option State}
  {tracks : Finset Nat → State → Prop}

/-- `dispose` takes any live block that no live block holds. -/
def Disposes (dispose : Nat → State → Option State) (tracks : Finset Nat → State → Prop)
    (parent : Nat → Option Nat) : Prop :=
  ∀ (live : Finset Nat) (block : Nat) (state : State), tracks live state → block ∈ live →
    (∀ child ∈ live, parent child ≠ some block) →
      ∃ next, dispose block state = some next ∧ tracks (live.erase block) next

/-- What is released is disposed of in its order, and the counts are right at the end. -/
theorem release_disposes (disposes : Disposes dispose tracks blocks.parent) :
    ∀ (fuel : Nat) (block : Nat) (reached : Blocks) (state : State),
      reached.parent = blocks.parent → block < fuel → Balanced reached (block ::ₘ holders) →
        tracks reached.live state →
          let after := reached.release fuel block
          ∃ final, after.2.foldlM (fun state block => dispose block state) state = some final ∧
            tracks after.1.live final ∧ Balanced after.1 holders := by
  intro fuel
  induction fuel with
  | zero =>
      intro block _ _ _ bound
      exact absurd bound (Nat.not_lt_zero block)
  | succ fuel induction =>
      intro block reached state same bound balanced tracked
      have live := held_live balanced (Multiset.mem_cons_self block holders)
      simp only [Blocks.release]
      split_ifs with shared
      · exact ⟨state, rfl, tracked, balanced_lessen balanced shared⟩
      · have last : reached.count block ≤ 1 := Nat.not_lt.mp shared
        have removed := balanced_remove balanced last
        obtain ⟨_, childless⟩ := last_unheld balanced last
        obtain ⟨next, disposed, rest⟩ := disposes reached.live block state tracked live
          (fun child member holds => by
            have present := mem_children.mpr ⟨member, same ▸ holds⟩
            rw [childless] at present
            exact Finset.notMem_empty child present)
        cases holds : reached.parent block with
        | none =>
            rw [inherited, holds] at removed
            exact ⟨next, by simp [disposed], rest, removed⟩
        | some parent =>
            rw [inherited, holds] at removed
            have older := balanced.older block live parent holds
            obtain ⟨final, follows, kept, settled⟩ := induction parent (reached.remove block) next
              same (by omega) removed rest
            exact ⟨final, by simp [disposed, follows], kept, settled⟩

theorem drop_disposes (disposes : Disposes dispose tracks blocks.parent)
    (balanced : Balanced blocks (block ::ₘ holders)) {state : State}
    (tracked : tracks blocks.live state) :
    ∃ final, (blocks.drop block).2.foldlM (fun state block => dispose block state) state =
        some final ∧
      tracks (blocks.drop block).1.live final ∧ Balanced (blocks.drop block).1 holders :=
  release_disposes disposes blocks.next block blocks state rfl
    (balanced.numbered block (held_live balanced (Multiset.mem_cons_self block holders)))
    balanced tracked

end Rules

end Fhenomenon.Lib.RefCounts
