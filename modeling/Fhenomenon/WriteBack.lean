import Fhenomenon.RecordedMeaning
import Fhenomenon.SessionRuntime

/-!
# Provisioning and write-back

The table handed to the executor holds, under each input id, the buffer of the
entity first bound to it; afterwards each entity owns the buffer of the id last
bound to it.
-/

namespace Fhenomenon.WriteBack

open Fhenomenon.InstructionStream Fhenomenon.DefaultExecutor Fhenomenon.RecordedGraph
open Fhenomenon.Lowering Fhenomenon.SessionRuntime Fhenomenon.RecordedMeaning

variable {Entity Ptr : Type*}

structure Encrypted (backend : Nat) (entity : Fhenon Ptr) (ciphertext : FhnCiphertext Ptr) :
    Prop where
  flag : entity.isEncrypted = true
  stored : entity.ciphertext = some ciphertext
  owner : ciphertext.owner = backend
  buffer : ciphertext.buffer.raw.isSome

/-- The first entity bound to `id` can supply it. -/
def Provides (backend : Nat) (entities : Entity → Fhenon Ptr) (bindings : Bindings Entity)
    (id : Nat) (buffer : SharedBuffer Ptr) : Prop :=
  ∃ entity ciphertext, firstBound bindings id = some (some entity) ∧
    Encrypted backend (entities entity) ciphertext ∧ buffer = ciphertext.buffer

theorem first_bound_cons (bindings : Bindings Entity) (id other : Nat) (bound : Option Entity) :
    firstBound ((id, bound) :: bindings) other =
      if id = other then some bound else firstBound bindings other := by
  rw [firstBound, List.find?_cons]
  by_cases same : id = other
  · simp [same]
  · have apart : (id == other) = false := beq_false_of_ne same
    simp only [apart, if_neg same, firstBound]

theorem hold_inputs_provides (backend : Nat) (entities : Entity → Fhenon Ptr)
    (inputIds : List Nat) (bindings : Bindings Entity) (hold : Nat → SharedBuffer Ptr)
    (ready : ∀ id ∈ inputIds, (hold id).raw = none →
      ∃ buffer, Provides backend entities bindings id buffer) :
    ∃ final, holdInputs backend entities inputIds bindings hold = .ok final ∧
      (∀ id ∈ inputIds, (hold id).raw = none →
        Provides backend entities bindings id (final id)) ∧
      ∀ id, id ∉ inputIds ∨ (hold id).raw.isSome → final id = hold id := by
  induction bindings generalizing hold with
  | nil =>
      refine ⟨hold, rfl, ?_, fun _ _ => rfl⟩
      intro id input empty
      obtain ⟨buffer, entity, ciphertext, first, -⟩ := ready id input empty
      cases first
  | cons binding rest induction =>
      obtain ⟨id, bound⟩ := binding
      by_cases skipped : id ∉ inputIds ∨ (hold id).raw.isSome
      · have apart (other : Nat) (input : other ∈ inputIds) (empty : (hold other).raw = none) :
            ¬id = other := by
          intro same
          subst same
          rcases skipped with outside | held
          · exact outside input
          · rw [empty] at held
            cases held
        have shifted (other : Nat) (input : other ∈ inputIds) (empty : (hold other).raw = none)
            (buffer : SharedBuffer Ptr) :
            Provides backend entities ((id, bound) :: rest) other buffer ↔
              Provides backend entities rest other buffer := by
          simp only [Provides, first_bound_cons, if_neg (apart other input empty)]
        obtain ⟨final, ran, provided, kept⟩ := induction hold (fun other input empty => by
          obtain ⟨buffer, provides⟩ := ready other input empty
          exact ⟨buffer, (shifted other input empty buffer).mp provides⟩)
        refine ⟨final, ?_, ?_, kept⟩
        · simp only [holdInputs, if_pos skipped]
          exact ran
        · intro other input empty
          exact (shifted other input empty _).mpr (provided other input empty)
      · have here : id ∈ inputIds ∧ (hold id).raw = none := by
          push Not at skipped
          exact ⟨skipped.1, Option.not_isSome_iff_eq_none.mp (by simpa using skipped.2)⟩
        obtain ⟨buffer, entity, ciphertext, first, encrypted, rfl⟩ := ready id here.1 here.2
        rw [first_bound_cons, if_pos rfl, Option.some.injEq] at first
        subst first
        have filled : (Function.update hold id ciphertext.buffer id).raw.isSome := by
          rw [Function.update_self]
          exact encrypted.buffer
        have apart (other : Nat) (empty : (Function.update hold id ciphertext.buffer other).raw =
            none) : ¬id = other := by
          intro same
          rw [← same] at empty
          rw [empty] at filled
          cases filled
        obtain ⟨final, ran, provided, kept⟩ := induction
          (Function.update hold id ciphertext.buffer) (fun other input empty => by
            have different := apart other empty
            rw [Function.update_of_ne (Ne.symm different)] at empty
            obtain ⟨buffer, otherEntity, otherCiphertext, otherFirst, rest⟩ :=
              ready other input empty
            rw [first_bound_cons, if_neg different] at otherFirst
            exact ⟨buffer, otherEntity, otherCiphertext, otherFirst, rest⟩)
        have own : final id = ciphertext.buffer := by
          rw [kept id (Or.inr filled), Function.update_self]
        refine ⟨final, ?_, ?_, ?_⟩
        · simp only [holdInputs, if_neg skipped, encrypted.flag, encrypted.stored,
            encrypted.owner, if_true, ne_eq, not_true_eq_false, if_false]
          exact ran
        · intro other input empty
          by_cases same : id = other
          · subst same
            refine ⟨entity, ciphertext, ?_, encrypted, own⟩
            rw [first_bound_cons, if_pos rfl]
          · obtain ⟨otherEntity, otherCiphertext, otherFirst, rest⟩ := provided other input (by
              rw [Function.update_of_ne (Ne.symm same)]
              exact empty)
            refine ⟨otherEntity, otherCiphertext, ?_, rest⟩
            rw [first_bound_cons, if_neg same]
            exact otherFirst
        · intro other settled
          have different : other ≠ id := by
            intro same
            subst same
            rcases settled with outside | held
            · exact outside here.1
            · rw [here.2] at held
              cases held
          rw [kept other (by rwa [Function.update_of_ne different]),
            Function.update_of_ne different]

variable [DecidableEq Entity]

theorem latest_bindings_append (bindings : Bindings Entity) (id : Nat) (bound : Option Entity) :
    latestBindings (bindings ++ [(id, bound)]) =
      match bound with
      | some entity =>
          (latestBindings bindings).filter (fun other => other.1 ≠ entity) ++ [(entity, id)]
      | none => latestBindings bindings := by
  rw [latestBindings, List.foldl_append]
  cases bound <;> rfl

theorem mem_latest_bindings (bindings : Bindings Entity) (entity : Entity) (id : Nat) :
    (entity, id) ∈ latestBindings bindings ↔ latestId bindings entity = some id := by
  induction bindings using List.reverseRecOn with
  | nil => simp [latestBindings, latestId]
  | append_singleton bindings binding induction =>
      obtain ⟨last, bound⟩ := binding
      rw [latest_bindings_append]
      cases bound with
      | none =>
          have same : latestId (bindings ++ [(last, none)]) entity = latestId bindings entity := by
            rw [latestId, List.foldl_append]
            rfl
          rw [same]
          exact induction
      | some other =>
          rw [latest_id_append, List.mem_append, List.mem_filter, induction]
          by_cases same : entity = other
          · simp [same, eq_comm]
          · simp [same]

theorem latest_bindings_nodup (bindings : Bindings Entity) :
    ((latestBindings bindings).map (·.1)).Nodup := by
  induction bindings using List.reverseRecOn with
  | nil => exact List.nodup_nil
  | append_singleton bindings binding induction =>
      obtain ⟨last, bound⟩ := binding
      rw [latest_bindings_append]
      cases bound with
      | none => exact induction
      | some entity =>
          rw [List.map_append, List.map_cons, List.map_nil]
          apply List.nodup_append.mpr
          refine ⟨induction.sublist (List.filter_sublist.map _), List.nodup_singleton _, ?_⟩
          intro one member two other same
          rw [List.mem_singleton] at other
          obtain ⟨bound, kept, rfl⟩ := List.mem_map.mp member
          have different := (List.mem_filter.mp kept).2
          simp [same, other] at different

def finalBuffer (hold : Nat → SharedBuffer Ptr) (buffers : Buffers Ptr) (id : Nat) : Option Ptr :=
  if (hold id).raw.isSome then (hold id).raw else buffers id

/-- Adopted owners wrap the table's own buffers. -/
def Faithful (buffers : Buffers Ptr) (state : Adoption Ptr) : Prop :=
  ∀ id, (state.adopted id).raw.isSome → (state.adopted id).raw = buffers id

theorem adopt_raw (hold : Nat → SharedBuffer Ptr) (buffers : Buffers Ptr) (id : Nat)
    (state : Adoption Ptr) (faithful : Faithful buffers state) :
    (adopt hold buffers id state).1.raw = finalBuffer hold buffers id ∧
      Faithful buffers (adopt hold buffers id state).2 := by
  unfold adopt finalBuffer
  split
  · exact ⟨rfl, faithful⟩
  · split
    · rename_i adopted
      exact ⟨faithful id adopted, faithful⟩
    · refine ⟨rfl, ?_⟩
      intro other held
      by_cases same : other = id
      · subst same
        simp only [Function.update_self]
      · simp only [Function.update_of_ne same] at held ⊢
        exact faithful other held

theorem write_back_other (backend : Nat) (hold : Nat → SharedBuffer Ptr) (buffers : Buffers Ptr)
    (latest : List (Entity × Nat)) (entities : Entity → Fhenon Ptr) (state : Adoption Ptr)
    (entity : Entity) (unbound : entity ∉ latest.map (·.1)) :
    (writeBack backend hold buffers latest entities state).1 entity = entities entity := by
  induction latest generalizing entities state with
  | nil => rfl
  | cons bound rest induction =>
      rw [List.map_cons] at unbound
      obtain ⟨different, later⟩ := List.ne_and_not_mem_of_not_mem_cons unbound
      simp only [writeBack]
      rw [induction _ _ later, Function.update_of_ne different]

theorem write_back_bound (backend : Nat) (hold : Nat → SharedBuffer Ptr) (buffers : Buffers Ptr)
    (latest : List (Entity × Nat)) (entities : Entity → Fhenon Ptr) (state : Adoption Ptr)
    (faithful : Faithful buffers state) (nodup : (latest.map (·.1)).Nodup) (entity : Entity)
    (id : Nat) (bound : (entity, id) ∈ latest) :
    ∃ ciphertext, (writeBack backend hold buffers latest entities state).1 entity =
        { entities entity with ciphertext := some ciphertext, isEncrypted := true } ∧
      ciphertext.owner = backend ∧ ciphertext.buffer.raw = finalBuffer hold buffers id := by
  induction latest generalizing entities state with
  | nil => cases bound
  | cons head rest induction =>
      obtain ⟨other, otherId⟩ := head
      rw [List.map_cons, List.nodup_cons] at nodup
      obtain ⟨raw, still⟩ := adopt_raw hold buffers otherId state faithful
      simp only [writeBack]
      rcases List.mem_cons.mp bound with same | later
      · obtain ⟨rfl, rfl⟩ := Prod.mk.inj same
        rw [write_back_other backend hold buffers rest _ _ entity nodup.1, Function.update_self]
        exact ⟨_, rfl, rfl, raw⟩
      · have different : entity ≠ other := by
          intro same
          exact nodup.1 (List.mem_map.mpr ⟨_, later, same⟩)
        obtain ⟨ciphertext, written, rest⟩ := induction (Function.update entities other
          { entities other with
            ciphertext := some { buffer := (adopt hold buffers otherId state).1, owner := backend }
            isEncrypted := true }) _ still nodup.2 later
        rw [Function.update_of_ne different] at written
        exact ⟨ciphertext, written, rest⟩

end Fhenomenon.WriteBack
