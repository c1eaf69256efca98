import Fhenomenon.Recording

/-!
# The entity map while objects come and go

A live key stands for a live object: for itself, or for a shared object that
stands for itself. Every operand of a recorded operation is alive and either
shared, so that the operation keeps it, or has an entry of its own, so that its
death poisons the recording.
-/

namespace Fhenomenon.EntityMap

open Fhenomenon.Lib.Fallible Fhenomenon.RecordedGraph Fhenomenon.Recording

variable {Address Ptr Profile σ : Type} [DecidableEq Address]

/-- The objects that an operation keeps a pointer to. -/
def Holds (operation : Operation Address) (entity : Address) : Prop :=
  operation.operand1 = entity ∨ operation.operand2 = entity ∨ operation.result = some entity

instance (operation : Operation Address) (entity : Address) : Decidable (Holds operation entity) :=
  inferInstanceAs (Decidable (_ ∨ _ ∨ _))

/-- What a live key stands for. -/
structure Resolves (state : State Address Ptr Profile σ) (key : Address) : Prop where
  alive : state.session.canonical key ∈ state.live
  owned : state.session.canonical key = key ∨
    (state.objects (state.session.canonical key)).shared = true
  oneHop : state.session.canonical (state.session.canonical key) = state.session.canonical key

/-- An operand survives until the operations run, or its death is noticed. -/
structure Kept (state : State Address Ptr Profile σ) (entity : Address) : Prop where
  alive : entity ∈ state.live
  noticed : (state.objects entity).shared = true ∨ state.session.entityMap entity = some entity

structure Sound (state : State Address Ptr Profile σ) : Prop where
  dead : ∀ key, key ∉ state.live → state.session.canonical key = key
  resolves : ∀ key ∈ state.live, Resolves state key
  operands : ∀ operation ∈ state.session.operations, ∀ entity, Holds operation entity →
    Kept state entity

variable {state : State Address Ptr Profile σ} {host : Host Address Ptr Profile σ}

omit [DecidableEq Address] in
theorem canonical_eq_self {session : Session Address} {key : Address} :
    session.canonical key = key ↔
      session.entityMap key = none ∨ session.entityMap key = some key := by
  unfold Session.canonical
  cases entry : session.entityMap key with
  | none => simp
  | some target => simp

@[simp] theorem save_live (entity : Address) : (state.save entity).live = state.live := rfl

@[simp] theorem save_objects (entity : Address) : (state.save entity).objects = state.objects :=
  rfl

@[simp] theorem construct_session (address : Address) (object : Object Ptr Profile) :
    (state.construct address object).session = state.session :=
  rfl

theorem on_object_self (address : Address) (update : Object Ptr Profile → Object Ptr Profile) :
    (state.onObject address update).objects address = update (state.objects address) := by
  simp only [State.onObject, Function.update_self]

theorem on_object_other {address other : Address} (different : other ≠ address)
    (update : Object Ptr Profile → Object Ptr Profile) :
    (state.onObject address update).objects other = state.objects other := by
  simp only [State.onObject, Function.update_of_ne different]

theorem construct_self (address : Address) (object : Object Ptr Profile) :
    (state.construct address object).objects address = object := by
  simp only [State.construct, Function.update_self]

theorem construct_other {address other : Address} (different : other ≠ address)
    (object : Object Ptr Profile) :
    (state.construct address object).objects other = state.objects other := by
  simp only [State.construct, Function.update_of_ne different]

theorem save_entity_map (entity key : Address) :
    (state.save entity).session.entityMap key =
      if key = entity then some (state.session.canonical entity)
      else state.session.entityMap key := by
  simp only [State.save, State.onSession, Session.saveEntity, Session.canonical]
  cases entry : state.session.entityMap entity with
  | none =>
      simp only [Option.isSome_none, Bool.false_eq_true, if_false, Session.setEntity,
        Option.getD_none, Function.update_apply]
  | some target =>
      simp only [Option.isSome_some, if_true, Option.getD_some]
      by_cases same : key = entity
      · rw [if_pos same, same, entry]
      · rw [if_neg same]

theorem save_save (entity : Address) : (state.save entity).save entity = state.save entity := by
  have present : ((state.save entity).session.entityMap entity).isSome := by
    rw [save_entity_map, if_pos rfl]
    rfl
  rw [State.save, State.onSession, Session.saveEntity, if_pos present]

@[simp] theorem save_canonical (entity key : Address) :
    (state.save entity).session.canonical key = state.session.canonical key := by
  unfold Session.canonical
  rw [save_entity_map]
  split
  · rename_i same
    rw [same]
    rfl
  · rfl

@[simp] theorem save_operations (entity : Address) :
    (state.save entity).session.operations = state.session.operations := by
  simp only [State.save, State.onSession, Session.saveEntity]
  split <;> rfl

@[simp] theorem save_poison (entity : Address) :
    (state.save entity).session.poison = state.session.poison := by
  simp only [State.save, State.onSession, Session.saveEntity]
  split <;> rfl

@[simp] theorem save_active (entity : Address) :
    (state.save entity).session.active = state.session.active := by
  simp only [State.save, State.onSession, Session.saveEntity]
  split <;> rfl

theorem set_entity_canonical (session : Session Address) (key entity other : Address) :
    (session.setEntity key entity).canonical other =
      if other = key then entity else session.canonical other := by
  simp only [Session.setEntity, Session.canonical, Function.update_apply]
  split <;> rfl

theorem destroy_entity_map (recording : state.session.active = true) (address key : Address) :
    (state.destroy address).session.entityMap key =
      if key = address then none else state.session.entityMap key := by
  simp only [State.destroy, if_pos recording]
  cases entry : state.session.entityMap address with
  | none =>
      by_cases same : key = address
      · rw [if_pos same, same, entry]
      · rw [if_neg same]
  | some target =>
      simp only [Session.eraseEntity, Function.update_apply, Session.poisonRecording]
      split_ifs <;> rfl

theorem destroy_canonical (recording : state.session.active = true) (address key : Address) :
    (state.destroy address).session.canonical key =
      if key = address then address else state.session.canonical key := by
  unfold Session.canonical
  rw [destroy_entity_map recording]
  split
  · rename_i same
    rw [same]
    rfl
  · rfl

@[simp] theorem destroy_operations (address : Address) :
    (state.destroy address).session.operations = state.session.operations := by
  simp only [State.destroy]
  split
  · cases state.session.entityMap address with
    | none => rfl
    | some target =>
        simp only [Session.eraseEntity, Session.poisonRecording]
        split_ifs <;> rfl
  · rfl

@[simp] theorem destroy_active (address : Address) :
    (state.destroy address).session.active = state.session.active := by
  simp only [State.destroy]
  split
  · cases state.session.entityMap address with
    | none => rfl
    | some target =>
        simp only [Session.eraseEntity, Session.poisonRecording]
        split_ifs <;> rfl
  · rfl

/-- A death is noticed exactly when the object has an entry of its own. -/
theorem destroy_poison {address : Address} (recording : state.session.active = true)
    (unregistered : state.session.entityMap address ≠ some address) :
    (state.destroy address).session.poison = state.session.poison := by
  simp only [State.destroy, if_pos recording]
  cases entry : state.session.entityMap address with
  | none => rfl
  | some target =>
      have different : target ≠ address := by
        intro same
        rw [entry, same] at unregistered
        exact unregistered rfl
      simp only [if_neg different, Session.eraseEntity]

theorem destroy_poisons {address : Address} (recording : state.session.active = true)
    (registered : state.session.entityMap address = some address) :
    (state.destroy address).session.poison.isSome := by
  simp only [State.destroy, if_pos recording, registered, if_true, Session.eraseEntity,
    Session.poisonRecording]
  split_ifs with poisoned
  · exact poisoned
  · rfl

omit [DecidableEq Address] in
theorem sound_of_same {other : State Address Ptr Profile σ} (sound : Sound state)
    (live : other.live = state.live)
    (shared : ∀ entity, (other.objects entity).shared = (state.objects entity).shared)
    (session : other.session = state.session) : Sound other where
  dead := by
    rw [live, session]
    exact sound.dead
  resolves := by
    intro key alive
    rw [live] at alive
    have resolves := sound.resolves key alive
    constructor
    · rw [live, session]
      exact resolves.alive
    · rw [session, shared]
      exact resolves.owned
    · rw [session]
      exact resolves.oneHop
  operands := by
    intro operation member entity holds
    rw [session] at member
    have kept := sound.operands operation member entity holds
    constructor
    · rw [live]
      exact kept.alive
    · rw [session, shared]
      exact kept.noticed

theorem save_sound (sound : Sound state) (entity : Address) : Sound (state.save entity) where
  dead := by
    intro key gone
    rw [save_canonical]
    exact sound.dead key gone
  resolves := by
    intro key alive
    have resolves := sound.resolves key alive
    constructor
    · rw [save_canonical]
      exact resolves.alive
    · rw [save_canonical]
      exact resolves.owned
    · rw [save_canonical, save_canonical]
      exact resolves.oneHop
  operands := by
    intro operation member held holds
    rw [save_operations] at member
    have kept := sound.operands operation member held holds
    refine ⟨kept.alive, ?_⟩
    rcases kept.noticed with shared | entry
    · exact Or.inl shared
    · right
      rw [save_entity_map]
      split
      · rename_i same
        rw [← same, canonical_eq_self.mpr (Or.inr entry)]
      · exact entry

theorem canonical_kept (sound : Sound state) {entity : Address} (alive : entity ∈ state.live) :
    Kept (state.save entity) (state.session.canonical entity) := by
  have resolves := sound.resolves entity alive
  refine ⟨resolves.alive, ?_⟩
  rcases resolves.owned with same | shared
  · right
    rw [same, save_entity_map, if_pos rfl, same]
  · exact Or.inl shared

theorem save_keeps {entity other : Address} (kept : Kept state entity) :
    Kept (state.save other) entity := by
  refine ⟨kept.alive, ?_⟩
  rcases kept.noticed with shared | entry
  · exact Or.inl shared
  · right
    rw [save_entity_map]
    split
    · rename_i same
      rw [← same, canonical_eq_self.mpr (Or.inr entry)]
    · exact entry

omit [DecidableEq Address] in
theorem record_sound (sound : Sound state) (operation : Operation Address)
    (kept : ∀ entity, Holds operation entity → Kept state entity) :
    Sound (state.record operation) where
  dead := sound.dead
  resolves := fun key alive => ⟨(sound.resolves key alive).alive, (sound.resolves key alive).owned,
    (sound.resolves key alive).oneHop⟩
  operands := by
    intro other member entity holds
    simp only [State.record, State.onSession, Session.saveOp, List.mem_append,
      List.mem_singleton] at member
    have fine : Kept state entity := by
      rcases member with earlier | same
      · exact sound.operands other earlier entity holds
      · rw [same] at holds
        exact kept entity holds
    exact ⟨fine.alive, fine.noticed⟩

variable {address : Address}

theorem construct_keeps (unused : address ∉ state.live) (object : Object Ptr Profile)
    {entity : Address} (kept : Kept state entity) :
    Kept (state.construct address object) entity := by
  have different : entity ≠ address := fun same => unused (same ▸ kept.alive)
  refine ⟨Finset.mem_insert_of_mem kept.alive, ?_⟩
  simp only [State.construct, Function.update_of_ne different]
  exact kept.noticed

theorem construct_sound (sound : Sound state) (unused : address ∉ state.live)
    (object : Object Ptr Profile) : Sound (state.construct address object) where
  dead := fun key gone => sound.dead key (fun alive => gone (Finset.mem_insert_of_mem alive))
  resolves := by
    intro key alive
    rcases Finset.mem_insert.mp alive with same | before
    · subst same
      have itself : state.session.canonical key = key := sound.dead key unused
      constructor
      · simp only [State.construct, itself]
        exact alive
      · exact Or.inl itself
      · exact congrArg state.session.canonical itself
    · have resolves := sound.resolves key before
      have different : state.session.canonical key ≠ address :=
        fun same => unused (same ▸ resolves.alive)
      constructor
      · exact Finset.mem_insert_of_mem resolves.alive
      · simp only [State.construct, Function.update_of_ne different]
        exact resolves.owned
      · exact resolves.oneHop
  operands := fun operation member entity holds =>
    construct_keeps unused object (sound.operands operation member entity holds)

theorem copy_sound (sound : Sound state) (unused : address ∉ state.live)
    (object : Object Ptr Profile) {source : Address} (alive : source ∈ state.live)
    (shared : (state.objects source).shared = true)
    (itself : state.session.canonical source = source) :
    Sound ((state.construct address object).onSession fun session =>
      session.setEntity address source) := by
  have constructed := construct_sound sound unused object
  have apart : source ≠ address := fun same => unused (same ▸ alive)
  have unchanged (key : Address) (different : key ≠ address) :
      (state.session.setEntity address source).canonical key = state.session.canonical key := by
    rw [set_entity_canonical, if_neg different]
  constructor
  · intro key gone
    have different : key ≠ address := by
      intro same
      exact gone (same ▸ Finset.mem_insert_self _ _)
    simp only [State.onSession, construct_session, unchanged key different]
    exact constructed.dead key gone
  · intro key member
    by_cases same : key = address
    · have stands : (state.session.setEntity address source).canonical key = source := by
        rw [set_entity_canonical, if_pos same]
      constructor
      · simp only [State.onSession, construct_session, stands]
        exact Finset.mem_insert_of_mem alive
      · right
        simp only [State.onSession, construct_session, stands]
        simp only [State.construct, Function.update_of_ne apart]
        exact shared
      · simp only [State.onSession, construct_session, stands]
        rw [unchanged source apart]
        exact itself
    · have before : key ∈ state.live := by
        rcases Finset.mem_insert.mp member with new | old
        · exact absurd new same
        · exact old
      have resolves := sound.resolves key before
      have elsewhere : state.session.canonical key ≠ address :=
        fun equal => unused (equal ▸ resolves.alive)
      constructor
      · simp only [State.onSession, construct_session, unchanged key same]
        exact Finset.mem_insert_of_mem resolves.alive
      · simp only [State.onSession, construct_session, unchanged key same]
        simp only [State.construct, Function.update_of_ne elsewhere]
        exact resolves.owned
      · simp only [State.onSession, construct_session, unchanged key same]
        rw [unchanged _ elsewhere]
        exact resolves.oneHop
  · intro operation member entity holds
    have kept := sound.operands operation member entity holds
    have different : entity ≠ address := fun same => unused (same ▸ kept.alive)
    refine ⟨Finset.mem_insert_of_mem kept.alive, ?_⟩
    simp only [State.onSession, State.construct, Function.update_of_ne different,
      Session.setEntity]
    exact kept.noticed

/-- No other live key stands for the object. -/
def Unreferenced (state : State Address Ptr Profile σ) (address : Address) : Prop :=
  ∀ key ∈ state.live, key ≠ address → state.session.canonical key ≠ address

omit [DecidableEq Address] in
/-- An object that stands for another one is not referenced itself. -/
theorem collapsed_unreferenced (sound : Sound state)
    (elsewhere : state.session.canonical address ≠ address) : Unreferenced state address := by
  intro key alive _ stands
  have oneHop := (sound.resolves key alive).oneHop
  rw [stands] at oneHop
  exact elsewhere oneHop

theorem destroy_sound (sound : Sound state) (recording : state.session.active = true)
    (unreferenced : Unreferenced state address)
    (unheld : ∀ operation ∈ state.session.operations, ¬Holds operation address) :
    Sound (state.destroy address) where
  dead := by
    intro key gone
    rw [destroy_canonical recording]
    split
    · rename_i same
      exact same.symm
    · rename_i different
      exact sound.dead key (fun alive => gone (Finset.mem_erase.mpr ⟨different, alive⟩))
  resolves := by
    intro key alive
    obtain ⟨different, before⟩ := Finset.mem_erase.mp alive
    have resolves := sound.resolves key before
    have elsewhere := unreferenced key before different
    constructor
    · rw [destroy_canonical recording, if_neg different]
      exact Finset.mem_erase.mpr ⟨elsewhere, resolves.alive⟩
    · rw [destroy_canonical recording, if_neg different]
      exact resolves.owned
    · simp only [destroy_canonical recording, if_neg different, if_neg elsewhere]
      exact resolves.oneHop
  operands := by
    intro operation member entity holds
    rw [destroy_operations] at member
    have kept := sound.operands operation member entity holds
    have different : entity ≠ address := by
      intro same
      rw [same] at holds
      exact unheld operation member holds
    refine ⟨Finset.mem_erase.mpr ⟨different, kept.alive⟩, ?_⟩
    rw [destroy_entity_map recording, if_neg different]
    exact kept.noticed

end Fhenomenon.EntityMap
