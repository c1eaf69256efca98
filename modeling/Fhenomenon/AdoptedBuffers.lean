import Fhenomenon.LoweringSound
import Fhenomenon.WriteBack

/-!
# Adoption

Which owner each entity gets when results are written back: inputs keep theirs,
and every other id gets one new control block, shared by all entities bound to it.
-/

namespace Fhenomenon.AdoptedBuffers

open Fhenomenon.InstructionStream Fhenomenon.DefaultExecutor Fhenomenon.RecordedGraph
open Fhenomenon.Lowering Fhenomenon.LoweringSound Fhenomenon.SessionRuntime Fhenomenon.WriteBack

variable {Entity Ptr : Type*}

variable {state : LoweringState Entity}

theorem lower_node_named (entities : Entity → Fhenon Ptr) (node : ASTNode Entity)
    (named : Named state) : Named (lowerNode entities node state) := by
  induction node generalizing state with
  | operand address entity =>
      simp only [lowerNode]
      split
      · exact named
      · exact named_add_input named address entity
  | operator address operation type left right result first second =>
      simp only [lowerNode]
      have lowered : Named (if (scalarOperand entities type right).isSome
          then lowerNode entities left state
          else lowerNode entities right (lowerNode entities left state)) := by
        split
        · exact first named
        · exact second (first named)
      split
      · exact named
      · split
        · exact named_add_assignment lowered _ _ _
        · exact named_add_instruction lowered _ _ _
  | unary address operation type left result first =>
      simp only [lowerNode]
      split
      · exact named
      · split
        · exact named_add_assignment (first named) _ _ _
        · exact named_add_instruction (first named) _ _ _
  | fused address =>
      simp only [lowerNode]
      split
      · exact named
      · exact ⟨named.known, named.bound⟩

theorem lower_roots_named (entities : Entity → Fhenon Ptr) (roots : List (ASTNode Entity))
    (named : Named state) : Named (lowerRoots entities roots state) := by
  induction roots generalizing state with
  | nil => exact named
  | cons root rest induction => exact induction (lower_node_named entities root named)

/-- The program and the bindings of any graph that is lowered. -/
theorem lower_bound (entities : Entity → Fhenon Ptr) (roots : List (ASTNode Entity))
    {program : FhnProgram} {bindings : Bindings Entity}
    (lowered : lower entities roots = (some program, bindings)) :
    ∀ binding ∈ bindings, binding.1 ∈ program.definedIds := by
  have named := lower_roots_named entities roots named_start
  simp only [lower] at lowered
  split at lowered
  · obtain ⟨same, sameBindings⟩ := Prod.mk.inj lowered
    rw [← Option.some.inj same, ← sameBindings]
    exact named.bound
  · cases (Prod.mk.inj lowered).1

/-- Adopted ids wrap their own entry of the table, each in a control block of its own made
since `start`. -/
structure Adopting (start : Nat) (buffers : Buffers Ptr) (adoption : Adoption Ptr) : Prop where
  faithful : Faithful buffers adoption
  since : start ≤ adoption.nextControl
  fresh : ∀ id, (adoption.adopted id).raw.isSome →
    start ≤ (adoption.adopted id).control ∧ (adoption.adopted id).control < adoption.nextControl
  apart : ∀ first second, (adoption.adopted first).raw.isSome →
    (adoption.adopted second).raw.isSome →
      (adoption.adopted first).control = (adoption.adopted second).control → first = second

/-- The owner of an id after adoption. -/
def finalOwner (hold : Nat → SharedBuffer Ptr) (adoption : Adoption Ptr) (id : Nat) :
    SharedBuffer Ptr :=
  if (hold id).raw.isSome then hold id else adoption.adopted id

/-- What was adopted stays as it was. -/
def Persists (before after : Adoption Ptr) : Prop :=
  ∀ id, (before.adopted id).raw.isSome → after.adopted id = before.adopted id

variable {hold : Nat → SharedBuffer Ptr} {buffers : Buffers Ptr} {start : Nat}
  {adoption : Adoption Ptr}

theorem adopting_start (buffers : Buffers Ptr) (start : Nat) :
    Adopting start buffers { nextControl := start } where
  faithful := by
    intro id absent
    cases absent
  since := le_refl _
  fresh := by
    intro id absent
    cases absent
  apart := by
    intro first _ absent
    cases absent

/-- The owner of the id is settled by adopting it. -/
structure Settles (start : Nat) (hold : Nat → SharedBuffer Ptr) (buffers : Buffers Ptr) (id : Nat)
    (before : Adoption Ptr) (adopted : SharedBuffer Ptr × Adoption Ptr) : Prop where
  adopting : Adopting start buffers adopted.2
  persists : Persists before adopted.2
  owner : adopted.1 = finalOwner hold adopted.2 id
  present : (finalOwner hold adopted.2 id).raw.isSome

theorem adopt_settles (adopting : Adopting start buffers adoption) {id : Nat}
    (stored : (hold id).raw = none → (buffers id).isSome) :
    Settles start hold buffers id adoption (adopt hold buffers id adoption) := by
  unfold adopt
  split
  · rename_i held
    refine ⟨adopting, fun _ _ => rfl, ?_, ?_⟩
    · exact (if_pos held).symm
    · rw [finalOwner, if_pos held]
      exact held
  · rename_i unheld
    have none : (hold id).raw = none := Option.not_isSome_iff_eq_none.mp unheld
    split
    · rename_i adopted
      refine ⟨adopting, fun _ _ => rfl, ?_, ?_⟩
      · exact (if_neg unheld).symm
      · rw [finalOwner, if_neg unheld]
        exact adopted
    · rename_i unadopted
      have since := adopting.since
      have old (other : Nat) (different : other ≠ id) :
          Function.update adoption.adopted id
            { raw := buffers id, control := adoption.nextControl } other =
              adoption.adopted other := Function.update_of_ne different _ _
      have new : Function.update adoption.adopted id
          { raw := buffers id, control := adoption.nextControl } id =
            { raw := buffers id, control := adoption.nextControl } := Function.update_self _ _ _
      constructor
      · constructor
        · intro other held
          by_cases same : other = id
          · simp only [same, new]
          · simp only [old other same] at held ⊢
            exact adopting.faithful other held
        · exact since.trans (Nat.le_succ _)
        · intro other held
          by_cases same : other = id
          · simp only [same, new]
            omega
          · simp only [old other same] at held ⊢
            have bounds := adopting.fresh other held
            omega
        · intro first second one two equal
          by_cases firstNew : first = id
          · by_cases secondNew : second = id
            · exact firstNew.trans secondNew.symm
            · simp only [firstNew, new, old second secondNew] at two equal
              have bounds := adopting.fresh second two
              omega
          · by_cases secondNew : second = id
            · simp only [secondNew, new, old first firstNew] at one equal
              have bounds := adopting.fresh first one
              omega
            · simp only [old first firstNew, old second secondNew] at one two equal
              exact adopting.apart first second one two equal
      · intro other held
        apply old
        intro same
        rw [same] at held
        exact unadopted held
      · simp only [finalOwner, if_neg unheld, new]
      · simp only [finalOwner, if_neg unheld, new]
        exact stored none

theorem persists_owner {before after : Adoption Ptr} (persists : Persists before after) {id : Nat}
    (present : (finalOwner hold before id).raw.isSome) :
    finalOwner hold after id = finalOwner hold before id := by
  unfold finalOwner at present ⊢
  split_ifs at present ⊢ with held
  · rfl
  · exact persists id present

variable [DecidableEq Entity]

/-- Every bound entity gets the owner of its id, and no other entity changes. -/
theorem write_back_owners (backend : Nat) (latest : List (Entity × Nat))
    (entities : Entity → Fhenon Ptr) (adopting : Adopting start buffers adoption)
    (nodup : (latest.map (·.1)).Nodup)
    (stored : ∀ bound ∈ latest, (hold bound.2).raw = none → (buffers bound.2).isSome) :
    let written := writeBack backend hold buffers latest entities adoption
    Adopting start buffers written.2 ∧ Persists adoption written.2 ∧
      ∀ bound ∈ latest, (finalOwner hold written.2 bound.2).raw.isSome ∧
        written.1 bound.1 =
          { entities bound.1 with
            ciphertext := some { buffer := finalOwner hold written.2 bound.2, owner := backend }
            isEncrypted := true } := by
  induction latest generalizing entities adoption with
  | nil => exact ⟨adopting, fun _ _ => rfl, fun _ absent => by cases absent⟩
  | cons head rest induction =>
      obtain ⟨entity, id⟩ := head
      rw [List.map_cons, List.nodup_cons] at nodup
      have settles := adopt_settles adopting (stored (entity, id) List.mem_cons_self)
      obtain ⟨last, persists, owners⟩ := induction
        (Function.update entities entity
          { entities entity with
            ciphertext := some { buffer := (adopt hold buffers id adoption).1, owner := backend }
            isEncrypted := true }) settles.adopting nodup.2
        (fun bound member => stored bound (List.mem_cons_of_mem _ member))
      have kept := persists_owner persists settles.present
      refine ⟨last, ?_, ?_⟩
      · intro other held
        have before := settles.persists other held
        have still : ((adopt hold buffers id adoption).2.adopted other).raw.isSome := by
          rw [before]
          exact held
        exact (persists other still).trans before
      · intro bound member
        rcases List.mem_cons.mp member with same | later
        · rw [same]
          refine ⟨?_, ?_⟩
          · simp only [writeBack]
            rw [kept]
            exact settles.present
          · simp only [writeBack]
            rw [write_back_other backend hold buffers rest _ _ entity nodup.1,
              Function.update_self, kept, ← settles.owner]
        · have different : bound.1 ≠ entity := by
            intro same
            exact nodup.1 (List.mem_map.mpr ⟨bound, later, same⟩)
          obtain ⟨present, written⟩ := owners bound later
          refine ⟨present, ?_⟩
          simp only [writeBack]
          rw [written, Function.update_of_ne different]

end Fhenomenon.AdoptedBuffers
