import Mathlib

/-!
# Ownership ledgers

A log of acquisitions and releases, where a released resource may be handed out
again. A ledger ties the log to a table of current holders: every acquisition
is either still held or was released exactly once before its next acquisition,
and nothing is released twice.
-/

namespace Fhenomenon.Lib.Ownership

inductive Act (α : Type*)
  | acquire (resource : α)
  | release (resource : α)
deriving DecidableEq

def isAcquire {α : Type*} : Act α → Bool
  | .acquire _ => true
  | .release _ => false

/-- The number of acquisitions; the next one has this index. -/
def acquisitions {α : Type*} (log : List (Act α)) : Nat := log.countP isAcquire

theorem acquisitions_acquire {α : Type*} (log : List (Act α)) (resource : α) :
    acquisitions (log ++ [.acquire resource]) = acquisitions log + 1 := by
  simp [acquisitions, isAcquire]

theorem acquisitions_release {α : Type*} (log : List (Act α)) (resource : α) :
    acquisitions (log ++ [.release resource]) = acquisitions log := by
  simp [acquisitions, isAcquire]

theorem acquisitions_lt {α : Type*} (before after : List (Act α)) (resource : α) :
    acquisitions before < acquisitions (before ++ .acquire resource :: after) := by
  simp only [acquisitions, List.countP_append, List.countP_cons, isAcquire, if_true]
  omega

variable {ι α : Type*} [DecidableEq α]

/-- How often `resource` is released before it is acquired again. -/
def releasedBeforeReuse (resource : α) : List (Act α) → Nat
  | [] => 0
  | .acquire other :: rest => if other = resource then 0 else releasedBeforeReuse resource rest
  | .release other :: rest =>
      if other = resource then releasedBeforeReuse resource rest + 1
      else releasedBeforeReuse resource rest

theorem released_then_acquire (log : List (Act α)) (resource other : α) :
    releasedBeforeReuse resource (log ++ [.acquire other]) = releasedBeforeReuse resource log := by
  induction log with
  | nil => simp [releasedBeforeReuse]
  | cons act rest induction =>
      cases act with
      | acquire first => simp only [List.cons_append, releasedBeforeReuse, induction]
      | release first => simp only [List.cons_append, releasedBeforeReuse, induction]

theorem released_then_other (log : List (Act α)) {resource other : α}
    (different : other ≠ resource) :
    releasedBeforeReuse resource (log ++ [.release other]) = releasedBeforeReuse resource log := by
  induction log with
  | nil => simp [releasedBeforeReuse, different]
  | cons act rest induction =>
      cases act with
      | acquire first => simp only [List.cons_append, releasedBeforeReuse, induction]
      | release first => simp only [List.cons_append, releasedBeforeReuse, induction]

theorem released_after_reuse (log : List (Act α)) (resource other : α)
    (reused : .acquire resource ∈ log) :
    releasedBeforeReuse resource (log ++ [.release other]) = releasedBeforeReuse resource log := by
  induction log with
  | nil => cases reused
  | cons act rest induction =>
      cases act with
      | acquire first =>
          simp only [List.cons_append, releasedBeforeReuse]
          by_cases same : first = resource
          · rw [if_pos same, if_pos same]
          · rw [if_neg same, if_neg same]
            apply induction
            rcases List.mem_cons.mp reused with here | later
            · exact absurd (Act.acquire.inj here).symm same
            · exact later
      | release first =>
          have later : .acquire resource ∈ rest := by
            rcases List.mem_cons.mp reused with here | later
            · cases here
            · exact later
          simp only [List.cons_append, releasedBeforeReuse, induction later]

theorem released_last (log : List (Act α)) (resource : α) (fresh : .acquire resource ∉ log)
    (kept : .release resource ∉ log) :
    releasedBeforeReuse resource (log ++ [.release resource]) = 1 := by
  induction log with
  | nil => simp [releasedBeforeReuse]
  | cons act rest induction =>
      rw [List.mem_cons, not_or] at fresh kept
      cases act with
      | acquire first =>
          have different : first ≠ resource := fun same => fresh.1 (by rw [same])
          simp [releasedBeforeReuse, different, induction fresh.2 kept.2]
      | release first =>
          have different : first ≠ resource := fun same => kept.1 (by rw [same])
          simp [releasedBeforeReuse, different, induction fresh.2 kept.2]

theorem split_concat {β : Type*} {log before after : List β} {last entry : β}
    (split : log ++ [last] = before ++ entry :: after) :
    (log = before ∧ last = entry ∧ after = []) ∨
      ∃ early, after = early ++ [last] ∧ log = before ++ entry :: early := by
  rcases List.eq_nil_or_concat after with empty | ⟨early, final, rfl⟩
  · subst empty
    obtain ⟨same, lastSame⟩ := List.append_inj' split rfl
    exact Or.inl ⟨same, (List.cons.inj lastSame).1, rfl⟩
  · rw [List.concat_eq_append] at split ⊢
    rw [← List.cons_append, ← List.append_assoc] at split
    obtain ⟨same, lastSame⟩ := List.append_inj' split rfl
    right
    exact ⟨early, by rw [(List.cons.inj lastSame).1], same⟩

/-- `owner k` is the holder the `k`-th acquisition is for, `entry` what each
holder has, and `holding` who has something. -/
structure Ledger (owner : Nat → Option ι) (entry : ι → Option α) (holding : ι → Prop)
    (log : List (Act α)) : Prop where
  acquired : ∀ before resource after, log = before ++ .acquire resource :: after →
    ∃ id, owner (acquisitions before) = some id ∧
      ((holding id ∧ entry id = some resource ∧ .acquire resource ∉ after ∧
          .release resource ∉ after) ∨
        (¬holding id ∧ releasedBeforeReuse resource after = 1 ∧
          (.acquire resource ∉ after → ∀ other, holding other → entry other ≠ some resource)))
  released : ∀ before resource after, log = before ++ .release resource :: after →
    releasedBeforeReuse resource after = 0 ∧
      (.acquire resource ∉ after → ∀ other, holding other → entry other ≠ some resource)
  untouched : ∀ id resource, holding id → (∀ k, owner k ≠ some id) → entry id = some resource →
    .acquire resource ∉ log ∧ .release resource ∉ log

variable {owner : Nat → Option ι} {entry : ι → Option α} {holding : ι → Prop}
  {log : List (Act α)}

theorem ledger_start (owner : Nat → Option ι) (entry : ι → Option α) (holding : ι → Prop) :
    Ledger owner entry holding ([] : List (Act α)) where
  acquired := fun before resource after split => by simp at split
  released := fun before resource after split => by simp at split
  untouched := fun _ _ _ _ _ => ⟨List.not_mem_nil, List.not_mem_nil⟩

theorem ledger_congr {other : ι → Option α} {still : ι → Prop}
    (ledger : Ledger owner entry holding log) (same : ∀ id, still id ↔ holding id)
    (entries : ∀ id, holding id → other id = entry id) : Ledger owner other still log where
  acquired := by
    intro before resource after split
    obtain ⟨id, owned, outcome⟩ := ledger.acquired before resource after split
    refine ⟨id, owned, ?_⟩
    rcases outcome with ⟨holds, stored, fresh, kept⟩ | ⟨gone, once, unheld⟩
    · exact Or.inl ⟨(same id).mpr holds, (entries id holds).trans stored, fresh, kept⟩
    · refine Or.inr ⟨fun holds => gone ((same id).mp holds), once, ?_⟩
      intro fresh one holds
      rw [entries one ((same one).mp holds)]
      exact unheld fresh one ((same one).mp holds)
  released := by
    intro before resource after split
    obtain ⟨once, unheld⟩ := ledger.released before resource after split
    refine ⟨once, ?_⟩
    intro fresh one holds
    rw [entries one ((same one).mp holds)]
    exact unheld fresh one ((same one).mp holds)
  untouched := by
    intro id resource holds unowned stored
    rw [entries id ((same id).mp holds)] at stored
    exact ledger.untouched id resource ((same id).mp holds) unowned stored

section Steps

variable [DecidableEq ι]

theorem ledger_acquire (ledger : Ledger owner entry holding log) {id : ι} {resource : α}
    (owned : owner (acquisitions log) = some id) (idle : ¬holding id)
    (first : ∀ k < acquisitions log, owner k ≠ some id)
    (unheld : ∀ other, holding other → entry other ≠ some resource) :
    Ledger owner (Function.update entry id (some resource))
      (fun other => other = id ∨ holding other) (log ++ [.acquire resource]) where
  acquired := by
    intro before other after split
    rcases split_concat split with ⟨rfl, same, rfl⟩ | ⟨early, rfl, rfl⟩
    · obtain rfl := Act.acquire.inj same
      refine ⟨id, owned, Or.inl ⟨Or.inl rfl, Function.update_self _ _ _, ?_, ?_⟩⟩ <;> simp
    · obtain ⟨one, oneOwned, outcome⟩ := ledger.acquired before other early rfl
      have different : one ≠ id := by
        rintro rfl
        exact first _ (acquisitions_lt before early other) oneOwned
      refine ⟨one, oneOwned, ?_⟩
      rcases outcome with ⟨holds, stored, fresh, kept⟩ | ⟨gone, once, unheldAfter⟩
      · have apart : other ≠ resource := fun same => unheld one holds (same ▸ stored)
        refine Or.inl ⟨Or.inr holds, by rw [Function.update_of_ne different, stored], ?_, ?_⟩
        · simp [fresh, apart]
        · simp [kept]
      · refine Or.inr ⟨?_, by rw [released_then_acquire, once], ?_⟩
        · simp [different, gone]
        · intro fresh two holds
          rw [List.mem_append, List.mem_singleton, not_or] at fresh
          rcases holds with rfl | holds
          · rw [Function.update_self]
            intro same
            exact fresh.2 (by rw [Option.some.inj same])
          · have apart : two ≠ id := fun same => idle (same ▸ holds)
            rw [Function.update_of_ne apart]
            exact unheldAfter fresh.1 two holds
  released := by
    intro before other after split
    rcases split_concat split with ⟨-, impossible, -⟩ | ⟨early, rfl, rfl⟩
    · cases impossible
    · obtain ⟨once, unheldAfter⟩ := ledger.released before other early rfl
      refine ⟨by rw [released_then_acquire, once], ?_⟩
      intro fresh two holds
      rw [List.mem_append, List.mem_singleton, not_or] at fresh
      rcases holds with rfl | holds
      · rw [Function.update_self]
        intro same
        exact fresh.2 (by rw [Option.some.inj same])
      · have apart : two ≠ id := fun same => idle (same ▸ holds)
        rw [Function.update_of_ne apart]
        exact unheldAfter fresh.1 two holds
  untouched := by
    intro one other holds unowned stored
    have different : one ≠ id := by
      rintro rfl
      exact unowned _ owned
    rw [Function.update_of_ne different] at stored
    rcases holds with same | holds
    · exact absurd same different
    · obtain ⟨fresh, kept⟩ := ledger.untouched one other holds unowned stored
      have apart : other ≠ resource := fun same => unheld one holds (same ▸ stored)
      simp [fresh, kept, apart]

theorem ledger_release (ledger : Ledger owner entry holding log) {id : ι} {resource : α}
    (holds : holding id) (stored : entry id = some resource)
    (alone : ∀ other, holding other → entry other = some resource → other = id) :
    Ledger owner (Function.update entry id none) (fun other => other ≠ id ∧ holding other)
      (log ++ [.release resource]) where
  acquired := by
    intro before other after split
    rcases split_concat split with ⟨-, impossible, -⟩ | ⟨early, rfl, rfl⟩
    · cases impossible
    · obtain ⟨one, owned, outcome⟩ := ledger.acquired before other early rfl
      refine ⟨one, owned, ?_⟩
      rcases outcome with ⟨oneHolds, oneStored, fresh, kept⟩ | ⟨gone, once, unheld⟩
      · by_cases same : one = id
        · subst same
          obtain rfl := Option.some.inj (stored.symm.trans oneStored)
          refine Or.inr ⟨by simp, released_last early resource fresh kept, ?_⟩
          intro _ two twoHolds
          rw [Function.update_of_ne twoHolds.1]
          intro twoStored
          exact twoHolds.1 (alone two twoHolds.2 twoStored)
        · have apart : other ≠ resource := fun equal =>
            same (alone one oneHolds (equal ▸ oneStored))
          refine Or.inl ⟨⟨same, oneHolds⟩, by rw [Function.update_of_ne same, oneStored], ?_, ?_⟩
          · simp [fresh]
          · simp [kept, apart]
      · refine Or.inr ⟨fun still => gone still.2, ?_, ?_⟩
        · by_cases reused : .acquire other ∈ early
          · rw [released_after_reuse early other resource reused, once]
          · have apart : resource ≠ other := fun equal =>
              unheld reused id holds (equal ▸ stored)
            rw [released_then_other early apart, once]
        · intro fresh two twoHolds
          rw [List.mem_append, not_or] at fresh
          rw [Function.update_of_ne twoHolds.1]
          exact unheld fresh.1 two twoHolds.2
  released := by
    intro before other after split
    rcases split_concat split with ⟨rfl, same, rfl⟩ | ⟨early, rfl, rfl⟩
    · obtain rfl := Act.release.inj same
      refine ⟨rfl, ?_⟩
      intro _ two twoHolds
      rw [Function.update_of_ne twoHolds.1]
      intro twoStored
      exact twoHolds.1 (alone two twoHolds.2 twoStored)
    · obtain ⟨once, unheld⟩ := ledger.released before other early rfl
      refine ⟨?_, ?_⟩
      · by_cases reused : .acquire other ∈ early
        · rw [released_after_reuse early other resource reused, once]
        · have apart : resource ≠ other := fun equal =>
            unheld reused id holds (equal ▸ stored)
          rw [released_then_other early apart, once]
      · intro fresh two twoHolds
        rw [List.mem_append, not_or] at fresh
        rw [Function.update_of_ne twoHolds.1]
        exact unheld fresh.1 two twoHolds.2
  untouched := by
    intro one other oneHolds unowned oneStored
    rw [Function.update_of_ne oneHolds.1] at oneStored
    obtain ⟨fresh, kept⟩ := ledger.untouched one other oneHolds.2 unowned oneStored
    have apart : other ≠ resource := fun equal =>
      oneHolds.1 (alone one oneHolds.2 (equal ▸ oneStored))
    simp [fresh, kept, apart]

end Steps

end Fhenomenon.Lib.Ownership
