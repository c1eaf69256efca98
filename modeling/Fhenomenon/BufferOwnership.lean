import Fhenomenon.AdoptedBuffers
import Fhenomenon.Lib.SharedOwners
import Fhenomenon.SessionRefinement
import Fhenomenon.SparedBuffers

/-!
# Who releases a buffer

A session run provisions the table with the entities' own buffers and adopts what
the plan leaves. Every buffer that is allocated on the way is freed by the plan or
has exactly one owner afterwards, and the entities' buffers are never the plan's.
-/

namespace Fhenomenon.BufferOwnership

open Fhenomenon.Lib.Ownership Fhenomenon.Lib.SharedOwners Fhenomenon.InstructionStream
open Fhenomenon.MovementPlanner Fhenomenon.PlanLegality Fhenomenon.DefaultExecutor
open Fhenomenon.RecordedExecution Fhenomenon.ExecutorCleanup Fhenomenon.SparedBuffers
open Fhenomenon.RecordedGraph Fhenomenon.Lowering Fhenomenon.SessionRuntime
open Fhenomenon.RecordedMeaning Fhenomenon.WriteBack Fhenomenon.AdoptedBuffers

variable {Entity Ptr σ : Type*}

/-- The buffer that an entity's ciphertext owns, with its control block. -/
def owned (entity : Fhenon Ptr) : Option (Ptr × Nat) :=
  entity.ciphertext.bind fun ciphertext =>
    ciphertext.buffer.raw.map fun buffer => (buffer, ciphertext.buffer.control)

/-- Owned buffers are allocated, and each has one control block. -/
structure WellOwned (held : σ → Ptr → Prop) (entities : Entity → Fhenon Ptr) (nextControl : Nat)
    (world : σ) : Prop where
  alive : ∀ entity buffer control, owned (entities entity) = some (buffer, control) →
    held world buffer
  numbered : ∀ entity buffer control, owned (entities entity) = some (buffer, control) →
    control < nextControl
  single : ∀ first second buffer control other otherControl,
    owned (entities first) = some (buffer, control) →
      owned (entities second) = some (other, otherControl) →
        (buffer = other ↔ control = otherControl)

theorem hold_inputs_source {backend : Nat} {entities : Entity → Fhenon Ptr} {inputIds : List Nat}
    {bindings : Bindings Entity} {hold final : Nat → SharedBuffer Ptr}
    (ran : holdInputs backend entities inputIds bindings hold = .ok final) (id : Nat) :
    final id = hold id ∨ (id ∈ inputIds ∧ ∃ source ciphertext, (id, some source) ∈ bindings ∧
      (entities source).ciphertext = some ciphertext ∧ final id = ciphertext.buffer) := by
  induction bindings generalizing hold with
  | nil =>
      rw [← Except.ok.inj ran]
      exact Or.inl rfl
  | cons binding rest induction =>
      obtain ⟨bound, target⟩ := binding
      have later (ran : holdInputs backend entities inputIds rest hold = .ok final) :
          final id = hold id ∨ (id ∈ inputIds ∧ ∃ source ciphertext,
            (id, some source) ∈ (bound, target) :: rest ∧
              (entities source).ciphertext = some ciphertext ∧
                final id = ciphertext.buffer) := by
        rcases induction ran with same | ⟨input, source, ciphertext, member, stored, equal⟩
        · exact Or.inl same
        · exact Or.inr ⟨input, source, ciphertext, List.mem_cons_of_mem _ member, stored, equal⟩
      simp only [holdInputs] at ran
      split_ifs at ran with skipped
      · exact later ran
      · cases target with
        | none => exact later ran
        | some entity =>
            simp only at ran
            split_ifs at ran with encrypted
            · cases stored : (entities entity).ciphertext with
              | none =>
                  rw [stored] at ran
                  exact later ran
              | some ciphertext =>
                  simp only [stored] at ran
                  split_ifs at ran with foreign
                  rcases induction ran with same | ⟨input, source, other, member, found, equal⟩
                  · by_cases here : id = bound
                    · right
                      rw [here] at same ⊢
                      rw [Function.update_self] at same
                      push Not at skipped
                      exact ⟨skipped.1, entity, ciphertext, List.mem_cons_self, stored, same⟩
                    · rw [Function.update_of_ne here] at same
                      exact Or.inl same
                  · exact Or.inr ⟨input, source, other, List.mem_cons_of_mem _ member, found, equal⟩
            · exact later ran

variable [DecidableEq Entity]

structure Stages (backend : Nat) (roots : List (ASTNode Entity)) (entities : Entity → Fhenon Ptr)
    (program : FhnProgram) (bindings : Bindings Entity) (plan : FhnMovementPlan)
    (hold : Nat → SharedBuffer Ptr) : Prop where
  lowered : lower entities roots = (some program, bindings)
  bound : bindings.isEmpty = false
  analyzed : analyze program (program.inputIds ++ (latestBindings bindings).map (·.2)) 0 .belady
    none = some plan
  provisioned : holdInputs backend entities program.inputIds bindings (fun _ => {}) = .ok hold
  encrypted : program.inputIds.any (fun id => (hold id).raw.isNone) = false

theorem stages_run {backend : Nat} {hooks : FhnMovementHooks Ptr σ} {dispatch : Dispatch Ptr σ}
    {roots : List (ASTNode Entity)} {state : RunState Entity Ptr σ} {program : FhnProgram}
    {bindings : Bindings Entity} {plan : FhnMovementPlan} {hold : Nat → SharedBuffer Ptr}
    (stages : Stages backend roots state.entities program bindings plan hold)
    (success : (execute hooks dispatch program plan (fun id => (hold id).raw) state.world).1 = 0) :
    executeThroughFhnRuntime backend hooks dispatch roots state =
      (.ok true,
        { entities := (writeBack backend hold
            (execute hooks dispatch program plan (fun id => (hold id).raw) state.world).2.buffers
            (latestBindings bindings) state.entities { nextControl := state.nextControl }).1
          nextControl := (writeBack backend hold
            (execute hooks dispatch program plan (fun id => (hold id).raw) state.world).2.buffers
            (latestBindings bindings) state.entities
            { nextControl := state.nextControl }).2.nextControl
          world := (execute hooks dispatch program plan (fun id => (hold id).raw)
            state.world).2.world }) := by
  simp only [executeThroughFhnRuntime, stages.lowered, stages.bound, stages.analyzed,
    stages.provisioned, stages.encrypted, success, Bool.false_eq_true, if_false, ne_eq,
    not_true_eq_false]

theorem run_stages {backend : Nat} {hooks : FhnMovementHooks Ptr σ} {dispatch : Dispatch Ptr σ}
    {roots : List (ASTNode Entity)} {state final : RunState Entity Ptr σ}
    (ran : executeThroughFhnRuntime backend hooks dispatch roots state = (.ok true, final)) :
    ∃ program bindings plan hold, Stages backend roots state.entities program bindings plan hold ∧
      (execute hooks dispatch program plan (fun id => (hold id).raw) state.world).1 = 0 := by
  rcases lowered : lower state.entities roots with ⟨none | program, bindings⟩
  · simp only [executeThroughFhnRuntime, lowered] at ran
    cases (Prod.mk.inj ran).1
  simp only [executeThroughFhnRuntime, lowered] at ran
  split_ifs at ran with unbound
  · cases (Prod.mk.inj ran).1
  split at ran
  · cases (Prod.mk.inj ran).1
  rename_i plan analyzed
  split at ran
  · cases (Prod.mk.inj ran).1
  rename_i hold provisioned
  split_ifs at ran with missing failed
  · cases (Prod.mk.inj ran).1
  · cases (Prod.mk.inj ran).1
  · exact ⟨program, bindings, plan, hold,
      ⟨lowered, Bool.eq_false_of_not_eq_true unbound, analyzed, provisioned,
        Bool.eq_false_of_not_eq_true missing⟩, not_not.mp failed⟩

section Finished

variable [DecidableEq Ptr] {held : σ → Ptr → Prop} {entities final : Entity → Fhenon Ptr}
  {nextControl backend : Nat} {program : FhnProgram} {bindings : Bindings Entity}
  {hold : Nat → SharedBuffer Ptr} {live : Finset Nat} {buffers : Buffers Ptr}
  {recorded : Recorded Ptr σ} {adoption : Adoption Ptr}

/-- Table, log and entities after a successful run. -/
structure Finished (held : σ → Ptr → Prop) (entities final : Entity → Fhenon Ptr)
    (nextControl backend : Nat) (program : FhnProgram) (bindings : Bindings Entity)
    (hold : Nat → SharedBuffer Ptr) (live : Finset Nat) (buffers : Buffers Ptr)
    (recorded : Recorded Ptr σ) (adoption : Adoption Ptr) : Prop where
  wellOwned : ∃ world, WellOwned held entities nextControl world
  sources : ∀ id ∈ program.inputIds, ∃ source buffer, (id, some source) ∈ bindings ∧
    (hold id).raw = some buffer ∧ owned (entities source) = some (buffer, (hold id).control)
  outside : ∀ id ∉ program.inputIds, (hold id).raw = none
  defined : ∀ binding ∈ bindings, binding.1 ∈ program.definedIds
  results : ∀ id ∈ program.resultIds, id ∉ program.inputIds
  holds : ∃ shared : Nat → Prop, (∀ id, shared id → id ∈ program.inputIds) ∧
    Holds program held (fun id => (hold id).raw) shared live program.instructions.length buffers
      recorded
  kept : ∀ id ∈ program.resultIds, id ∈ live ↔ ∃ entity, latestId bindings entity = some id
  spared : ∀ source buffer control, owned (entities source) = some (buffer, control) →
    Spared held program buffer buffers recorded
  adopting : Adopting nextControl buffers adoption
  bound : ∀ entity id, latestId bindings entity = some id →
    (finalOwner hold adoption id).raw.isSome ∧ final entity =
      { entities entity with
        ciphertext := some { buffer := finalOwner hold adoption id, owner := backend }
        isEncrypted := true }
  unbound : ∀ entity, latestId bindings entity = none → final entity = entities entity

/-- Where an owned buffer comes from: an entity before the run, or a result that is left. -/
def Origin (entities : Entity → Fhenon Ptr) (program : FhnProgram) (live : Finset Nat)
    (buffers : Buffers Ptr) (adoption : Adoption Ptr) (buffer : Ptr) (control : Nat) : Prop :=
  (∃ source, owned (entities source) = some (buffer, control)) ∨
    ∃ id ∈ live, id ∈ program.resultIds ∧ buffers id = some buffer ∧
      (adoption.adopted id).raw.isSome ∧ (adoption.adopted id).control = control

variable (finished : Finished held entities final nextControl backend program bindings hold live
  buffers recorded adoption)

include finished

theorem bound_owned {entity : Entity} {id : Nat} (latest : latestId bindings entity = some id) :
    ∃ buffer, (finalOwner hold adoption id).raw = some buffer ∧
      owned (final entity) = some (buffer, (finalOwner hold adoption id).control) := by
  obtain ⟨present, written⟩ := finished.bound entity id latest
  obtain ⟨buffer, raw⟩ := Option.isSome_iff_exists.mp present
  refine ⟨buffer, raw, ?_⟩
  rw [written]
  simp only [owned, Option.bind_some, raw, Option.map_some]

theorem input_owner {id : Nat} (input : id ∈ program.inputIds) :
    finalOwner hold adoption id = hold id := by
  obtain ⟨_, buffer, -, raw, -⟩ := finished.sources id input
  rw [finalOwner, raw]
  exact if_pos rfl

theorem result_owner {id : Nat} (result : id ∈ program.resultIds) :
    finalOwner hold adoption id = adoption.adopted id := by
  rw [finalOwner, finished.outside id (finished.results id result)]
  exact if_neg Bool.false_ne_true

theorem final_origin {entity : Entity} {buffer : Ptr} {control : Nat}
    (owns : owned (final entity) = some (buffer, control)) :
    Origin entities program live buffers adoption buffer control := by
  cases latest : latestId bindings entity with
  | none =>
      rw [finished.unbound entity latest] at owns
      exact Or.inl ⟨entity, owns⟩
  | some id =>
      obtain ⟨other, raw, written⟩ := bound_owned finished latest
      rw [written, Option.some.injEq, Prod.mk.injEq] at owns
      obtain ⟨sameBuffer, sameControl⟩ := owns
      have defined := finished.defined _ (latest_id_mem latest)
      rcases List.mem_append.mp defined with input | result
      · obtain ⟨source, found, -, held, owner⟩ := finished.sources id input
        rw [input_owner finished input] at raw sameControl
        rw [held] at raw
        rw [← sameBuffer, ← sameControl, ← Option.some.inj raw]
        exact Or.inl ⟨source, owner⟩
      · rw [result_owner finished result] at raw sameControl
        have present : (adoption.adopted id).raw.isSome := by
          rw [raw]
          rfl
        have stored := finished.adopting.faithful id present
        refine Or.inr ⟨id, (finished.kept id result).mpr ⟨entity, latest⟩, result, ?_, present,
          sameControl⟩
        rw [← stored, raw, sameBuffer]

/-- A result that is left stands in a buffer of its own. -/
theorem result_apart {first second : Nat} (one : first ∈ live) (two : second ∈ live)
    (result : first ∈ program.resultIds) (same : buffers first = buffers second) :
    first = second := by
  obtain ⟨shared, onlyInputs, holds⟩ := finished.holds
  rcases holds.apart first one second two same with equal | ⟨isShared, -⟩
  · exact equal
  · exact absurd (onlyInputs first isShared) (finished.results first result)

theorem origin_numbered {buffer : Ptr} {control : Nat}
    (origin : Origin entities program live buffers adoption buffer control) :
    control < adoption.nextControl := by
  obtain ⟨_, wellOwned⟩ := finished.wellOwned
  rcases origin with ⟨source, owns⟩ | ⟨id, -, -, -, present, same⟩
  · exact lt_of_lt_of_le (wellOwned.numbered source buffer control owns) finished.adopting.since
  · rw [← same]
    exact (finished.adopting.fresh id present).2

/-- Different buffers have different control blocks, and the other way round. -/
theorem origin_single {buffer other : Ptr} {control otherControl : Nat}
    (first : Origin entities program live buffers adoption buffer control)
    (second : Origin entities program live buffers adoption other otherControl) :
    buffer = other ↔ control = otherControl := by
  obtain ⟨_, wellOwned⟩ := finished.wellOwned
  have mixed {buffer other : Ptr} {control otherControl : Nat} {source : Entity} {id : Nat}
      (owns : owned (entities source) = some (buffer, control)) (result : id ∈ program.resultIds)
      (stored : buffers id = some other) (present : (adoption.adopted id).raw.isSome)
      (same : (adoption.adopted id).control = otherControl) :
      buffer ≠ other ∧ control ≠ otherControl := by
    have numbered := wellOwned.numbered source buffer control owns
    have fresh := (finished.adopting.fresh id present).1
    constructor
    · intro equal
      rw [← equal] at stored
      exact finished.results id result
        ((finished.spared source buffer control owns).inputs id stored)
    · omega
  rcases first with ⟨source, owns⟩ | ⟨id, member, result, stored, present, same⟩
  · rcases second with ⟨otherSource, otherOwns⟩ | ⟨otherId, -, otherResult, otherStored,
      otherPresent, otherSame⟩
    · exact wellOwned.single source otherSource buffer control other otherControl owns otherOwns
    · obtain ⟨apart, distinct⟩ := mixed owns otherResult otherStored otherPresent otherSame
      exact ⟨fun equal => absurd equal apart, fun equal => absurd equal distinct⟩
  · rcases second with ⟨otherSource, otherOwns⟩ | ⟨otherId, otherMember, otherResult, otherStored,
      otherPresent, otherSame⟩
    · obtain ⟨apart, distinct⟩ := mixed otherOwns result stored present same
      exact ⟨fun equal => absurd equal.symm apart, fun equal => absurd equal.symm distinct⟩
    · constructor
      · intro equal
        have ids := result_apart finished member otherMember result
          (stored.trans ((congrArg some equal).trans otherStored.symm))
        rw [← same, ← otherSame, ids]
      · intro equal
        rw [← same, ← otherSame] at equal
        have ids := finished.adopting.apart id otherId present otherPresent equal
        rw [ids, otherStored] at stored
        exact (Option.some.inj stored).symm

theorem finished_well_owned :
    WellOwned held final adoption.nextControl recorded.world where
  alive := by
    intro entity buffer control owns
    rcases final_origin finished owns with ⟨source, before⟩ | ⟨id, member, -, stored, -⟩
    · exact (finished.spared source buffer control before).alive
    · obtain ⟨shared, -, holds⟩ := finished.holds
      obtain ⟨other, found, alive⟩ := holds.entries id member
      rw [stored, Option.some.injEq] at found
      rw [found]
      exact alive
  numbered := fun entity buffer control owns =>
    origin_numbered finished (final_origin finished owns)
  single := fun first second buffer control other otherControl owns otherOwns =>
    origin_single finished (final_origin finished owns) (final_origin finished otherOwns)

/-- The two fates of an allocation. -/
theorem freed_or_adopted {before after : List (Act Ptr)} {buffer : Ptr}
    (split : ownershipLog recorded.events = before ++ .acquire buffer :: after) :
    (releasedBeforeReuse buffer after = 1 ∧ (.acquire buffer ∉ after →
      ∀ entity control, owned (final entity) ≠ some (buffer, control))) ∨
    (.release buffer ∉ after ∧ ∃ control, nextControl ≤ control ∧
      (∃ entity, owned (final entity) = some (buffer, control)) ∧
      ∀ entity other, owned (final entity) = some (buffer, other) → other = control) := by
  have acquired : .acquire buffer ∈ ownershipLog recorded.events := by
    rw [split]
    exact List.mem_append_right _ List.mem_cons_self
  obtain ⟨shared, -, holds⟩ := finished.holds
  have result {entity : Entity} {control : Nat}
      (owns : owned (final entity) = some (buffer, control)) :
      ∃ id ∈ live, buffers id = some buffer := by
    rcases final_origin finished owns with ⟨source, before⟩ | ⟨id, member, -, stored, -⟩
    · exact absurd acquired (finished.spared source buffer control before).unacquired
    · exact ⟨id, member, stored⟩
  obtain ⟨id, owner, outcome⟩ := holds.ledger.acquired before buffer after split
  rw [resultOwner, Option.map_eq_some_iff] at owner
  obtain ⟨inst, get, same⟩ := owner
  have isResult : id ∈ program.resultIds := by
    rw [← same]
    exact List.mem_map_of_mem (List.mem_of_getElem? get)
  rcases outcome with ⟨member, stored, -, unreleased⟩ | ⟨-, once, unheld⟩
  · right
    obtain ⟨entity, latest⟩ := (finished.kept id isResult).mp member
    obtain ⟨other, raw, owns⟩ := bound_owned finished latest
    rw [result_owner finished isResult] at raw owns
    have present : (adoption.adopted id).raw.isSome := by
      rw [raw]
      rfl
    have stands := finished.adopting.faithful id present
    rw [raw, stored, Option.some.injEq] at stands
    rw [stands] at owns
    refine ⟨unreleased, (adoption.adopted id).control, (finished.adopting.fresh id present).1,
      ⟨entity, owns⟩, ?_⟩
    intro another control alsoOwns
    exact ((origin_single finished (final_origin finished alsoOwns)
      (final_origin finished owns)).mp rfl)
  · left
    refine ⟨once, ?_⟩
    intro fresh entity control owns
    obtain ⟨kept, member, entry⟩ := result owns
    exact unheld fresh kept member entry

theorem released_once (order : List Entity) {buffer : Ptr} {control : Nat}
    (owns : (∃ entity ∈ order, owned (entities entity) = some (buffer, control)) ∨
      ∃ entity ∈ order, owned (final entity) = some (buffer, control)) :
    ((lifetimeReleases (fun entity => owned (entities entity)) (fun entity => owned (final entity))
      order).map Prod.fst).count buffer = 1 := by
  have origin (owner : Ptr × Nat) (member : owner ∈ lifetimeReleases
      (fun entity => owned (entities entity)) (fun entity => owned (final entity)) order) :
      Origin entities program live buffers adoption owner.1 owner.2 := by
    rcases (mem_lifetime_releases owner).mp member with ⟨entity, -, before⟩ | ⟨entity, -, after⟩
    · exact Or.inl ⟨entity, before⟩
    · exact final_origin finished after
  apply resource_released_once Prod.fst _ owns
  intro first one second two same
  exact Prod.ext same ((origin_single finished (origin first one) (origin second two)).mp same)

end Finished

/-- `log` is what the run allocated and freed. -/
structure ExactOwnership [DecidableEq Ptr] (held : σ → Ptr → Prop) (program : FhnProgram)
    (bindings : Bindings Entity) (log : List (Act Ptr)) (start final : RunState Entity Ptr σ) :
    Prop where
  freedOrAdopted : ∀ before buffer after, log = before ++ .acquire buffer :: after →
    (releasedBeforeReuse buffer after = 1 ∧ (.acquire buffer ∉ after →
      ∀ entity control, owned (final.entities entity) ≠ some (buffer, control))) ∨
    (.release buffer ∉ after ∧ ∃ control, start.nextControl ≤ control ∧
      (∃ entity, owned (final.entities entity) = some (buffer, control)) ∧
      ∀ entity other, owned (final.entities entity) = some (buffer, other) → other = control)
  sameId : ∀ first second id, latestId bindings first = some id →
    latestId bindings second = some id →
      ∃ owner, owned (final.entities first) = some owner ∧
        owned (final.entities second) = some owner
  inputsShared : ∀ entity id, latestId bindings entity = some id → id ∈ program.inputIds →
    ∃ source owner, (id, some source) ∈ bindings ∧ owned (start.entities source) = some owner ∧
      owned (final.entities entity) = some owner
  entitiesKept : ∀ entity buffer control, owned (start.entities entity) = some (buffer, control) →
    held final.world buffer ∧ .acquire buffer ∉ log ∧ .release buffer ∉ log
  wellOwned : WellOwned held final.entities final.nextControl final.world
  releasedOnce : ∀ order : List Entity,
    (∀ entity, (owned (start.entities entity)).isSome ∨ (owned (final.entities entity)).isSome →
      entity ∈ order) →
    ∀ buffer, (∃ entity control, owned (start.entities entity) = some (buffer, control) ∨
      owned (final.entities entity) = some (buffer, control)) →
        ((lifetimeReleases (fun entity => owned (start.entities entity))
          (fun entity => owned (final.entities entity)) order).map Prod.fst).count buffer = 1

theorem stages_outside {backend : Nat} {roots : List (ASTNode Entity)}
    {entities : Entity → Fhenon Ptr} {program : FhnProgram} {bindings : Bindings Entity}
    {plan : FhnMovementPlan} {hold : Nat → SharedBuffer Ptr}
    (stages : Stages backend roots entities program bindings plan hold) (id : Nat)
    (absent : id ∉ program.inputIds) : (hold id).raw = none := by
  rcases hold_inputs_source stages.provisioned id with same | ⟨input, -⟩
  · rw [same]
  · exact absurd input absent

theorem stages_sources {backend : Nat} {roots : List (ASTNode Entity)}
    {entities : Entity → Fhenon Ptr} {program : FhnProgram} {bindings : Bindings Entity}
    {plan : FhnMovementPlan} {hold : Nat → SharedBuffer Ptr}
    (stages : Stages backend roots entities program bindings plan hold) (id : Nat)
    (input : id ∈ program.inputIds) : ∃ source buffer, (id, some source) ∈ bindings ∧
      (hold id).raw = some buffer ∧ owned (entities source) = some (buffer, (hold id).control) := by
  cases raw : (hold id).raw with
  | none =>
      have present := List.any_eq_false.mp stages.encrypted id input
      rw [raw] at present
      exact absurd rfl present
  | some buffer =>
      rcases hold_inputs_source stages.provisioned id with same | ⟨-, source, ciphertext, member,
        stored, same⟩
      · rw [same] at raw
        cases raw
      · refine ⟨source, buffer, member, rfl, ?_⟩
        rw [same] at raw ⊢
        simp only [owned, stored, Option.bind_some, raw, Option.map_some]

theorem result_outside {program : FhnProgram} (valid : SsaValid program) (id : Nat)
    (result : id ∈ program.resultIds) : id ∉ program.inputIds := by
  obtain ⟨inst, member, same⟩ := List.mem_map.mp result
  obtain ⟨position, get⟩ := List.mem_iff_getElem?.mp member
  rw [← same]
  exact fun input => result_not_defined_before valid position inst get
    (List.mem_append_left _ input)

/-- The results that are left are the final values of entities. -/
theorem results_left {program : FhnProgram} {bindings : Bindings Entity} {plan : FhnMovementPlan}
    (legal : PlanLegal program (program.inputIds ++ (latestBindings bindings).map (·.2)) plan)
    (id : Nat) (result : id ∈ program.resultIds) :
    id ∈ liveBefore program plan program.instructions.length ↔
      ∃ entity, latestId bindings entity = some id := by
  have latest : id ∈ program.inputIds ++ (latestBindings bindings).map (·.2) ↔
      ∃ entity, latestId bindings entity = some id := by
    rw [List.mem_append, List.mem_map]
    constructor
    · rintro (input | ⟨⟨entity, other⟩, bound, same⟩)
      · exact absurd input (result_outside legal.valid id result)
      · exact ⟨entity, (mem_latest_bindings bindings entity id).mp (same ▸ bound)⟩
    · rintro ⟨entity, latest⟩
      exact Or.inr ⟨(entity, id), (mem_latest_bindings bindings entity id).mpr latest, rfl⟩
  rw [← latest]
  constructor
  · intro member
    by_contra unpinned
    exact legal.freesResults id result unpinned member
  · intro pinned
    apply pinned_live legal _ (le_refl _) id pinned
    rw [defined_before_length]
    exact List.mem_append_right _ result

theorem stages_unfreed {backend : Nat} {roots : List (ASTNode Entity)}
    {entities : Entity → Fhenon Ptr} {program : FhnProgram} {bindings : Bindings Entity}
    {plan : FhnMovementPlan} {hold : Nat → SharedBuffer Ptr}
    (stages : Stages backend roots entities program bindings plan hold) (id : Nat)
    (input : id ∈ program.inputIds) : Unfreed plan id := by
  intro act member freed
  exact (analyze_legal stages.analyzed).keepsPinned act member id freed
    (List.mem_append_left _ input)

theorem stages_table {held : σ → Ptr → Prop} {backend nextControl : Nat}
    {roots : List (ASTNode Entity)} {entities : Entity → Fhenon Ptr} {program : FhnProgram}
    {bindings : Bindings Entity} {plan : FhnMovementPlan} {hold : Nat → SharedBuffer Ptr}
    {world : σ}
    (wellOwned : WellOwned held entities nextControl world)
    (stages : Stages backend roots entities program bindings plan hold) :
    InputTable held program plan (fun id => (hold id).raw) world where
  filled := by
    intro id input
    obtain ⟨source, buffer, -, raw, owns⟩ := stages_sources stages id input
    exact ⟨buffer, raw, wellOwned.alive source buffer _ owns⟩
  empty := stages_outside stages
  apart := fun first one second two _ =>
    Or.inr ⟨stages_unfreed stages first one, stages_unfreed stages second two⟩

theorem latest_stored [DecidableEq Ptr] {held : σ → Ptr → Prop} {backend : Nat}
    {roots : List (ASTNode Entity)} {entities : Entity → Fhenon Ptr} {program : FhnProgram}
    {bindings : Bindings Entity} {plan : FhnMovementPlan} {hold : Nat → SharedBuffer Ptr}
    {shared : Nat → Prop}
    {buffers table : Buffers Ptr} {recorded : Recorded Ptr σ}
    (stages : Stages backend roots entities program bindings plan hold)
    (holds : Holds program held table shared
      (liveBefore program plan program.instructions.length) program.instructions.length buffers
      recorded) :
    ∀ bound ∈ latestBindings bindings, (hold bound.2).raw = none → (buffers bound.2).isSome := by
  intro bound member unheld
  have latest := (mem_latest_bindings bindings bound.1 bound.2).mp member
  have defined := lower_bound entities roots stages.lowered _ (latest_id_mem latest)
  rcases List.mem_append.mp defined with input | result
  · obtain ⟨_, buffer, -, raw, -⟩ := stages_sources stages bound.2 input
    rw [unheld] at raw
    cases raw
  · obtain ⟨buffer, entry, -⟩ := holds.entries bound.2
      ((results_left (analyze_legal stages.analyzed) bound.2 result).mpr ⟨bound.1, latest⟩)
    rw [entry]
    rfl

/-- A successful execution, written back, leaves everything in its place. -/
theorem stages_finished [DecidableEq Ptr] {held : σ → Ptr → Prop} {hooks : FhnMovementHooks Ptr σ}
    {dispatch : Dispatch Ptr σ} (laws : AllocatorLaws held hooks dispatch)
    {backend nextControl : Nat} {roots : List (ASTNode Entity)} {entities : Entity → Fhenon Ptr}
    {program : FhnProgram} {bindings : Bindings Entity} {plan : FhnMovementPlan}
    {hold : Nat → SharedBuffer Ptr} {world : σ} {last : ExecState Ptr (Recorded Ptr σ)}
    (wellOwned : WellOwned held entities nextControl world)
    (stages : Stages backend roots entities program bindings plan hold)
    (outcome : recordExecute hooks dispatch program plan (fun id => (hold id).raw) world =
      (0, last)) :
    let written := writeBack backend hold last.buffers (latestBindings bindings) entities
      { nextControl := nextControl }
    Finished held entities written.1 nextControl backend program bindings hold
      (liveBefore program plan program.instructions.length) last.buffers last.world written.2 := by
  have legal := analyze_legal stages.analyzed
  obtain ⟨holds, spares⟩ := successful_execution legal laws (stages_table wellOwned stages)
    (stages_unfreed stages) outcome
  obtain ⟨adopting, -, owners⟩ := write_back_owners backend (latestBindings bindings) entities
    (adopting_start last.buffers nextControl) (latest_bindings_nodup bindings)
    (latest_stored stages holds)
  constructor
  · exact ⟨world, wellOwned⟩
  · exact stages_sources stages
  · exact stages_outside stages
  · exact lower_bound entities roots stages.lowered
  · exact result_outside legal.valid
  · exact ⟨_, fun _ isShared => isShared.1, holds⟩
  · exact results_left legal
  · intro source buffer control owns
    apply spares buffer (wellOwned.alive source buffer control owns)
    intro id raw
    by_contra absent
    rw [stages_outside stages id absent] at raw
    cases raw
  · exact adopting
  · intro entity id latest
    exact owners (entity, id) ((mem_latest_bindings bindings entity id).mpr latest)
  · intro entity unbound
    apply write_back_other
    intro member
    obtain ⟨⟨other, id⟩, bound, rfl⟩ := List.mem_map.mp member
    rw [mem_latest_bindings, unbound] at bound
    cases bound

theorem finished_exact [DecidableEq Ptr] {held : σ → Ptr → Prop} {backend : Nat}
    {program : FhnProgram} {bindings : Bindings Entity} {hold : Nat → SharedBuffer Ptr}
    {live : Finset Nat} {buffers : Buffers Ptr} {recorded : Recorded Ptr σ}
    {adoption : Adoption Ptr} {start : RunState Entity Ptr σ} {final : Entity → Fhenon Ptr}
    (finished : Finished held start.entities final start.nextControl backend program bindings hold
      live buffers recorded adoption) :
    ExactOwnership held program bindings (ownershipLog recorded.events) start
      { entities := final
        nextControl := adoption.nextControl
        world := recorded.world } where
  freedOrAdopted := fun before buffer after split => freed_or_adopted finished split
  sameId := by
    intro first second id one two
    obtain ⟨buffer, raw, firstOwns⟩ := bound_owned finished one
    obtain ⟨other, otherRaw, secondOwns⟩ := bound_owned finished two
    rw [raw, Option.some.injEq] at otherRaw
    rw [← otherRaw] at secondOwns
    exact ⟨_, firstOwns, secondOwns⟩
  inputsShared := by
    intro entity id latest input
    obtain ⟨source, buffer, member, raw, owns⟩ := finished.sources id input
    obtain ⟨other, otherRaw, written⟩ := bound_owned finished latest
    rw [input_owner finished input] at otherRaw written
    rw [raw, Option.some.injEq] at otherRaw
    rw [← otherRaw] at written
    exact ⟨source, _, member, owns, written⟩
  entitiesKept := by
    intro entity buffer control owns
    have spared := finished.spared entity buffer control owns
    exact ⟨spared.alive, spared.unacquired, spared.unreleased⟩
  wellOwned := finished_well_owned finished
  releasedOnce := by
    intro order covers buffer owns
    obtain ⟨entity, control, owns⟩ := owns
    have listed : entity ∈ order := by
      apply covers
      rcases owns with before | after
      · rw [before]
        exact Or.inl rfl
      · rw [after]
        exact Or.inr rfl
    apply released_once finished order
    rcases owns with before | after
    · exact Or.inl ⟨entity, listed, before⟩
    · exact Or.inr ⟨entity, listed, after⟩

/-- Every buffer a successful run touches ends with exactly one owner, or was freed once. -/
theorem session_ownership_exact [DecidableEq Ptr] (held : σ → Ptr → Prop)
    (hooks : FhnMovementHooks Ptr σ) (dispatch : Dispatch Ptr σ)
    (laws : AllocatorLaws held hooks dispatch) (backend : Nat) (roots : List (ASTNode Entity))
    (start final : RunState Entity Ptr σ)
    (wellOwned : WellOwned held start.entities start.nextControl start.world)
    (ran : executeThroughFhnRuntime backend hooks dispatch roots start = (.ok true, final)) :
    ∃ program bindings events, lower start.entities roots = (some program, bindings) ∧
      executeThroughFhnRuntime backend (recordHooks hooks) (recordKernels dispatch) roots
          { entities := start.entities
            nextControl := start.nextControl
            world := { world := start.world } } =
        (.ok true,
          { entities := final.entities
            nextControl := final.nextControl
            world := { world := final.world, events := events } }) ∧
      ExactOwnership held program bindings (ownershipLog events) start final := by
  obtain ⟨program, bindings, plan, hold, stages, success⟩ := run_stages ran
  rw [stages_run stages success] at ran
  rcases outcome : recordExecute hooks dispatch program plan (fun id => (hold id).raw)
    start.world with ⟨rc, last⟩
  -- forgetting the record gives back the run, so both succeed and end in the same table
  have plain := record_execute hooks dispatch program plan (fun id => (hold id).raw) start.world
  rw [outcome] at plain
  rw [plain] at success ran
  have zero : rc = 0 := success
  subst zero
  have exactly := finished_exact (stages_finished laws wellOwned stages outcome)
  let recordedStart : RunState Entity Ptr (Recorded Ptr σ) :=
    { entities := start.entities
      nextControl := start.nextControl
      world := { world := start.world } }
  have recordedStages : Stages backend roots recordedStart.entities program bindings plan hold :=
    stages
  have recordedLast : execute (recordHooks hooks) (recordKernels dispatch) program plan
      (fun id => (hold id).raw) recordedStart.world = (0, last) := outcome
  have recordedRan := stages_run recordedStages (congrArg Prod.fst recordedLast)
  rw [recordedLast] at recordedRan
  obtain rfl := (Prod.mk.inj ran).2
  exact ⟨program, bindings, last.world.events, stages.lowered, recordedRan, exactly⟩

section SumAndDouble

open Fhenomenon.MovementWorld Fhenomenon.SessionWorld Fhenomenon.SessionRefinement

def cellHeld (world : World) (buffer : Nat) : Prop := (cellAt world buffer).isSome = true

theorem exact_allocator_laws : AllocatorLaws cellHeld movementHooks exactTable where
  allocated := movement_allocator_laws.allocated
  refused := movement_allocator_laws.refused
  freed := movement_allocator_laws.freed
  evicted := movement_allocator_laws.evicted
  prefetched := movement_allocator_laws.prefetched
  called := by
    intro opcode fn registered result operands params fparams world other
    have kernel : exactKernel opcode = fn := by
      rw [exactTable] at registered
      split at registered
      · exact Option.some.inj registered
      · cases registered
    rw [← kernel]
    simp only [exactKernel, cellHeld]
    split
    · rename_i present
      simp only [deviceVal, Option.bind_some] at present
      split at present
      · rename_i live
        exact cell_overwrite live _ other
      · cases present
    · exact Iff.rfl

/-- The graph of `c = a + b; a = c * 2`. -/
def sumRoots : List (ASTNode (Fin 6)) :=
  match buildAST sumEntities sumAndDouble with
  | .ok roots => roots
  | .error _ => []

def sumStart : RunState (Fin 6) Nat World where
  entities := sumEntities
  nextControl := 4
  world := sumWorld

def sumFinal : RunState (Fin 6) Nat World :=
  (executeThroughFhnRuntime 1 movementHooks exactTable sumRoots sumStart).2

theorem sum_well_owned : WellOwned cellHeld sumEntities 4 sumWorld where
  alive := by
    intro entity buffer control owns
    fin_cases entity <;> cases owns <;> rfl
  numbered := by
    intro entity buffer control owns
    fin_cases entity <;> cases owns <;> decide
  single := by
    intro first second buffer control other otherControl one two
    fin_cases first <;> cases one <;> fin_cases second <;> cases two <;> decide

theorem sum_and_double_owned :
    ∃ program bindings events, lower sumEntities sumRoots = (some program, bindings) ∧
      executeThroughFhnRuntime 1 (recordHooks movementHooks) (recordKernels exactTable) sumRoots
          { entities := sumEntities
            nextControl := 4
            world := { world := sumWorld } } =
        (.ok true,
          { entities := sumFinal.entities
            nextControl := sumFinal.nextControl
            world := { world := sumFinal.world, events := events } }) ∧
      ExactOwnership cellHeld program bindings (ownershipLog events) sumStart sumFinal :=
  session_ownership_exact cellHeld movementHooks exactTable exact_allocator_laws 1 sumRoots sumStart
    sumFinal sum_well_owned (Prod.ext rfl rfl)

/-- `c` and the hidden result of the sum share an owner; so do `a` and the hidden product. -/
example : (List.finRange 6).map (fun entity => owned (sumFinal.entities entity)) =
    [some (5, 5), some (1, 1), some (4, 4), some (3, 3), some (4, 4), some (5, 5)] :=
  rfl

end SumAndDouble

end Fhenomenon.BufferOwnership
