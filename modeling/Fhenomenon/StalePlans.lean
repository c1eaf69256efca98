import Fhenomenon.PlanLegality
import Fhenomenon.DefaultExecutor

/-!
# Executing a plan against another program

The plan-aware overload compares instruction counts and nothing else before it
follows the plan. A plan analysed from one program is harmless for another of
the same length exactly when the two define the same ids in the same order and
the second never reads an id after its last use in the first.
-/

namespace Fhenomenon.StalePlans

open Fhenomenon.Lib Fhenomenon.InstructionStream Fhenomenon.MovementPlanner
open Fhenomenon.PlannerSteps
open Fhenomenon.PlanLifetimes Fhenomenon.DeviceReplay Fhenomenon.PlanReplay
open Fhenomenon.PlanSoundness Fhenomenon.PlanLegality Fhenomenon.DefaultExecutor

variable {Ptr σ : Type*}

/-- `id` is an input, a result or an operand of the program. -/
def Names (program : FhnProgram) (id : Nat) : Prop :=
  id ∈ program.definedIds ∨ ∃ i, program.ReadsAt i id

def ActsOn (act : FhnMovementActions) (id : Nat) : Prop :=
  id ∈ act.evict ∨ id ∈ act.alloc ∨ id ∈ act.prefetch ∨ id ∈ act.free

/-- A buffer of the caller's, or the one that instruction `i` allocated for `id`. An
allocation makes a new buffer, also at an address that was in use before. -/
inductive Held (Ptr : Type*)
  | supplied (buffer : Ptr)
  | allocated (i id : Nat)

/-- The buffers that the entries of a table stand for, and those freed so far. -/
structure Holdings (Ptr : Type*) where
  table : Nat → Option (Held Ptr)
  freed : Set (Held Ptr)

namespace Holdings

def allocate (holdings : Holdings Ptr) (i : Nat) (ids : List Nat) : Holdings Ptr :=
  { holdings with
    table := fun id => if id ∈ ids then some (.allocated i id) else holdings.table id }

def free (holdings : Holdings Ptr) (ids : List Nat) : Holdings Ptr where
  table := fun id => if id ∈ ids then none else holdings.table id
  freed := holdings.freed ∪ {held | ∃ id ∈ ids, holdings.table id = some held}

/-- The entry of `id` is a buffer that nothing has freed, through this entry or another. -/
def Live (holdings : Holdings Ptr) (id : Nat) : Prop :=
  ∃ held, holdings.table id = some held ∧ held ∉ holdings.freed

end Holdings

/-- What the caller's table has become before instruction `i`. -/
def holdingsBefore (plan : FhnMovementPlan) (buffers : Buffers Ptr) : Nat → Holdings Ptr
  | 0 => { table := fun id => (buffers id).map .supplied, freed := ∅ }
  | i + 1 =>
      match plan.actions[i]? with
      | none => holdingsBefore plan buffers i
      | some act => ((holdingsBefore plan buffers i).allocate i act.alloc).free act.free

/-- A plan's actions are legal for a program that is run on the table `buffers`. -/
structure LegalFor (program : FhnProgram) (plan : FhnMovementPlan) (buffers : Buffers Ptr) :
    Prop where
  named : ∀ act ∈ plan.actions, ∀ id, ActsOn act id → Names program id
  allocates : ∀ (i : Nat) (inst : FhnInstruction) (act : FhnMovementActions),
    program.instructions[i]? = some inst → plan.actions[i]? = some act →
      act.alloc = [inst.resultId]
  operandsHeld : ∀ (i : Nat) (inst : FhnInstruction) (act : FhnMovementActions),
    program.instructions[i]? = some inst → plan.actions[i]? = some act →
      ∀ id ∈ inst.usedOperands,
        ((holdingsBefore plan buffers i).allocate i act.alloc).Live id

/-- The call passes every check that precedes the first hook. -/
structure Admitted (hooks : FhnMovementHooks Ptr σ) (program : FhnProgram) (count : Nat) :
    Prop where
  alloc : hooks.bufferAlloc.isSome = true
  free : hooks.bufferFree.isSome = true
  version : program.version = fhnAbiVersion
  length : count = program.instructions.length

/-- Either the call is refused untouched or the plan is legal for the program. -/
def NeverStale (hooks : FhnMovementHooks Ptr σ) (dispatch : Dispatch Ptr σ)
    (program : FhnProgram) (plan : FhnMovementPlan) (buffers : Buffers Ptr) (world : σ) : Prop :=
  (Admitted hooks program plan.actions.length →
    LegalFor program plan buffers) ∧
  (¬Admitted hooks program plan.actions.length →
    (execute hooks dispatch program plan buffers world).1 ≠ 0 ∧
      (execute hooks dispatch program plan buffers world).2 =
        { world := world, buffers := buffers })

/-- `id` is the result of an instruction up to `i`. -/
def DefinedBy (program : FhnProgram) (i id : Nat) : Prop :=
  ∃ j inst, j ≤ i ∧ program.instructions[j]? = some inst ∧ inst.resultId = id

/-- A plan of the program does not free `id` before instruction `i`. -/
def SparedUntil (program : FhnProgram) (pinned : List Nat) (i id : Nat) : Prop :=
  id ∈ pinned ∨ ∀ j, j < i → ¬DiesAt program id j

/-- `program` may run under a plan of `analysed`. -/
structure Interchangeable (program analysed : FhnProgram) (pinned : List Nat)
    (buffers : Buffers Ptr) : Prop where
  results : program.resultIds = analysed.resultIds
  inputs : analysed.instructions ≠ [] → ∀ id ∈ analysed.inputIds,
    id ∉ pinned ∨ (∃ i, analysed.ReadsAt i id) → Names program id
  filled : ∀ i id, program.ReadsAt i id → buffers id ≠ none ∨ DefinedBy analysed i id
  spared : ∀ i id, program.ReadsAt i id → SparedUntil analysed pinned i id
  unshared : ∀ i id, program.ReadsAt i id → ¬DefinedBy analysed i id →
    ∀ other ∈ analysed.inputIds, buffers other = buffers id → SparedUntil analysed pinned i other

theorem evict_all_table (hooks : FhnMovementHooks Ptr σ) (ids : List Nat)
    (state next : ExecState Ptr σ) (finished : evictAll hooks ids state = .ok next) :
    next.buffers = state.buffers := by
  induction ids generalizing state with
  | nil =>
      cases finished
      rfl
  | cons id rest induction =>
      simp only [evictAll] at finished
      split at finished
      · exact induction state finished
      · split at finished
        · cases finished
        · have kept := induction _ finished
          exact kept

theorem prefetch_all_table (hooks : FhnMovementHooks Ptr σ) (ids : List Nat)
    (state next : ExecState Ptr σ) (finished : prefetchAll hooks ids state = .ok next) :
    next.buffers = state.buffers := by
  rw [prefetch_all_eq] at finished
  exact evict_all_table _ ids state next finished

theorem alloc_all_table (alloc : σ → Option Ptr × σ) (ids : List Nat)
    (state next : ExecState Ptr σ) (finished : allocAll alloc ids state = .ok next) (id : Nat) :
    (id ∈ ids → next.buffers id ≠ none) ∧ (id ∉ ids → next.buffers id = state.buffers id) := by
  induction ids generalizing state with
  | nil =>
      cases finished
      simp
  | cons head rest induction =>
      simp only [allocAll] at finished
      cases allocated : (alloc state.world).1 with
      | none =>
          rw [allocated] at finished
          cases finished
      | some buffer =>
          simp only [allocated] at finished
          obtain ⟨filled, kept⟩ := induction _ finished
          by_cases later : id ∈ rest
          · exact ⟨fun _ => filled later, fun absent => absurd (List.mem_cons_of_mem _ later) absent⟩
          · rw [kept later, List.mem_cons]
            by_cases same : id = head
            · simp [same]
            · simp [same, later]

theorem free_all_table (free : Option Ptr → σ → σ) (ids : List Nat) (state : ExecState Ptr σ)
    (id : Nat) : (ids.foldl (freeId free) state).buffers id =
      if id ∈ ids then none else state.buffers id := by
  induction ids generalizing state with
  | nil => simp
  | cons head rest induction =>
      rw [List.foldl_cons, induction]
      by_cases same : id = head
      · simp [freeId, same]
      · simp [freeId, same]

/-- Between the moves of an instruction and its dispatch the table has the new entries,
whatever the hooks do. -/
theorem loaded_table (hooks : FhnMovementHooks Ptr σ) (alloc : σ → Option Ptr × σ)
    (act : FhnMovementActions) {before evicted allocated loaded : ExecState Ptr σ}
    (evicting : evictAll hooks act.evict before = .ok evicted)
    (allocating : allocAll alloc act.alloc evicted = .ok allocated)
    (loading : prefetchAll hooks act.prefetch allocated = .ok loaded) (id : Nat) :
    (id ∈ act.alloc → loaded.buffers id ≠ none) ∧
      (id ∉ act.alloc → loaded.buffers id = before.buffers id) := by
  rw [prefetch_all_table hooks _ _ _ loading, ← evict_all_table hooks _ _ _ evicting]
  exact alloc_all_table alloc _ _ _ allocating id

/-- What one instruction leaves in the table; `returned` are the allocated entries. -/
theorem instruction_table (hooks : FhnMovementHooks Ptr σ) (alloc : σ → Option Ptr × σ)
    (free : Option Ptr → σ → σ) (dispatch : Dispatch Ptr σ) (inst : FhnInstruction)
    (act : FhnMovementActions) (before after : ExecState Ptr σ)
    (finished : executeInstruction hooks alloc free dispatch inst act before = .ok after) :
    ∃ returned : Buffers Ptr, (∀ id ∈ act.alloc, returned id ≠ none) ∧
      ∀ id, after.buffers id = if id ∈ act.free then none
        else if id ∈ act.alloc then returned id else before.buffers id := by
  simp only [executeInstruction] at finished
  cases evicting : evictAll hooks act.evict before with
  | error failure =>
      rw [evicting] at finished
      cases finished
  | ok evicted =>
      rw [evicting] at finished
      simp only [Except.bind] at finished
      cases allocating : allocAll alloc act.alloc evicted with
      | error failure =>
          rw [allocating] at finished
          cases finished
      | ok allocated =>
          rw [allocating] at finished
          simp only at finished
          cases loading : prefetchAll hooks act.prefetch allocated with
          | error failure =>
              rw [loading] at finished
              cases finished
          | ok loaded =>
              rw [loading] at finished
              simp only [dispatchStep] at finished
              split at finished
              · cases finished
              · cases finished
                have table := loaded_table hooks alloc act evicting allocating loading
                refine ⟨loaded.buffers, fun id => (table id).1, ?_⟩
                intro id
                rw [free_all_table]
                by_cases new : id ∈ act.alloc
                · rw [if_pos new]
                · rw [if_neg new, ← (table id).2 new]

section Holdings

variable {plan : FhnMovementPlan} {buffers : Buffers Ptr} {i : Nat}

theorem allocate_table (holdings : Holdings Ptr) (i : Nat) (ids : List Nat) (id : Nat) :
    (holdings.allocate i ids).table id =
      if id ∈ ids then some (.allocated i id) else holdings.table id := rfl

theorem holdings_succ {act : FhnMovementActions} (found : plan.actions[i]? = some act) :
    holdingsBefore plan buffers (i + 1) =
      ((holdingsBefore plan buffers i).allocate i act.alloc).free act.free := by
  simp only [holdingsBefore, found]

theorem holdings_past (absent : plan.actions[i]? = none) :
    holdingsBefore plan buffers (i + 1) = holdingsBefore plan buffers i := by
  simp only [holdingsBefore, absent]

theorem earlier_succ {property : FhnMovementActions → Prop} {act : FhnMovementActions}
    (found : plan.actions[i]? = some act) :
    (∀ j earlier, j < i + 1 → plan.actions[j]? = some earlier → property earlier) ↔
      (∀ j earlier, j < i → plan.actions[j]? = some earlier → property earlier) ∧
        property act := by
  constructor
  · intro all
    exact ⟨fun j earlier order => all j earlier (by omega), all i act (by omega) found⟩
  · rintro ⟨old, new⟩ j earlier order get
    by_cases last : j = i
    · rw [last, found, Option.some.injEq] at get
      exact get ▸ new
    · exact old j earlier (by omega) get

/-- An entry is still the caller's when no instruction has allocated or freed it. -/
theorem table_supplied {id : Nat} {buffer : Ptr} :
    (holdingsBefore plan buffers i).table id = some (.supplied buffer) ↔
      buffers id = some buffer ∧ ∀ j act, j < i → plan.actions[j]? = some act →
        id ∉ act.alloc ∧ id ∉ act.free := by
  induction i with
  | zero => simp [holdingsBefore]
  | succ i induction =>
      cases found : plan.actions[i]? with
      | none =>
          rw [holdings_past found, induction]
          refine and_congr_right fun _ => forall₂_congr fun j act => ?_
          by_cases last : j = i
          · simp [last, found]
          · have same : j < i + 1 ↔ j < i := by omega
            rw [same]
      | some act =>
          rw [holdings_succ found, earlier_succ found, ← and_assoc, ← induction]
          simp only [Holdings.free, allocate_table]
          split_ifs with gone new <;> simp [*]

/-- An allocated entry stands for the allocation of its own id. -/
theorem table_allocated {id j owner : Nat}
    (entry : (holdingsBefore plan buffers i).table id = some (.allocated j owner)) :
    owner = id ∧ j < i ∧ ∃ act, plan.actions[j]? = some act ∧ id ∈ act.alloc := by
  induction i with
  | zero => simp [holdingsBefore] at entry
  | succ i induction =>
      cases found : plan.actions[i]? with
      | none =>
          rw [holdings_past found] at entry
          obtain ⟨same, order, facts⟩ := induction entry
          exact ⟨same, by omega, facts⟩
      | some act =>
          rw [holdings_succ found] at entry
          simp only [Holdings.free, allocate_table] at entry
          split_ifs at entry with gone new
          · simp only [Option.some.injEq, Held.allocated.injEq] at entry
            obtain ⟨rfl, rfl⟩ := entry
            exact ⟨rfl, by omega, act, found, new⟩
          · obtain ⟨same, order, facts⟩ := induction entry
            exact ⟨same, by omega, facts⟩

/-- An entry is filled when it was supplied or allocated and not freed since. -/
theorem table_kept {j id : Nat} {act : FhnMovementActions} (found : plan.actions[j]? = some act)
    (allocated : id ∈ act.alloc) (order : j < i)
    (unfreed : ∀ k later, j ≤ k → k < i → plan.actions[k]? = some later → id ∉ later.free)
    (once : ∀ k later, j < k → k < i → plan.actions[k]? = some later → id ∉ later.alloc) :
    (holdingsBefore plan buffers i).table id = some (.allocated j id) := by
  induction i with
  | zero => omega
  | succ i induction =>
      by_cases last : j = i
      · subst last
        rw [holdings_succ found]
        simp only [Holdings.free, allocate_table, if_pos allocated,
          if_neg (unfreed j act le_rfl (by omega) found)]
      · have earlier := induction (by omega)
          (fun k later lower upper => unfreed k later lower (by omega))
          (fun k later lower upper => once k later lower (by omega))
        cases present : plan.actions[i]? with
        | none => rw [holdings_past present, earlier]
        | some later =>
            rw [holdings_succ present]
            simp only [Holdings.free, allocate_table,
              if_neg (unfreed i later (by omega) (by omega) present),
              if_neg (once i later (by omega) (by omega) present), earlier]

theorem table_gone {k id : Nat} (gone : (holdingsBefore plan buffers k).table id = none)
    (order : k ≤ i)
    (unfilled : ∀ n act, k ≤ n → n < i → plan.actions[n]? = some act → id ∉ act.alloc) :
    (holdingsBefore plan buffers i).table id = none := by
  induction i, order using Nat.le_induction with
  | base => exact gone
  | succ n lower induction =>
      have earlier := induction fun m act lower' upper => unfilled m act lower' (by omega)
      cases present : plan.actions[n]? with
      | none => rw [holdings_past present, earlier]
      | some next =>
          rw [holdings_succ present]
          simp only [Holdings.free, allocate_table,
            if_neg (unfilled n next lower (by omega) present), earlier, ite_self]

theorem mem_freed {held : Held Ptr} :
    held ∈ (holdingsBefore plan buffers i).freed ↔ ∃ j act id, j < i ∧
      plan.actions[j]? = some act ∧ id ∈ act.free ∧
        ((holdingsBefore plan buffers j).allocate j act.alloc).table id = some held := by
  induction i with
  | zero => simp [holdingsBefore]
  | succ i induction =>
      cases found : plan.actions[i]? with
      | none =>
          rw [holdings_past found, induction]
          refine exists₃_congr fun j act id => ?_
          by_cases last : j = i
          · simp [last, found]
          · have same : j < i + 1 ↔ j < i := by omega
            rw [same]
      | some act =>
          rw [holdings_succ found]
          constructor
          · rintro (old | ⟨id, freed, entry⟩)
            · obtain ⟨j, earlier, id, order, rest⟩ := induction.mp old
              exact ⟨j, earlier, id, by omega, rest⟩
            · exact ⟨i, act, id, by omega, found, freed, entry⟩
          · rintro ⟨j, earlier, id, order, get, freed, entry⟩
            by_cases last : j = i
            · subst last
              rw [found, Option.some.injEq] at get
              subst get
              exact Or.inr ⟨id, freed, entry⟩
            · exact Or.inl (induction.mpr ⟨j, earlier, id, by omega, get, freed, entry⟩)

/-- The pointer in an entry; `returned i id` is what `buffer_alloc` gave. -/
def place (returned : Nat → Buffers Ptr) : Held Ptr → Option Ptr
  | .supplied buffer => some buffer
  | .allocated i id => returned i id

end Holdings

theorem execute_all_append (hooks : FhnMovementHooks Ptr σ) (alloc : σ → Option Ptr × σ)
    (free : Option Ptr → σ → σ) (dispatch : Dispatch Ptr σ)
    (first second : List (FhnInstruction × FhnMovementActions)) (start : ExecState Ptr σ) :
    executeAll hooks alloc free dispatch (first ++ second) start =
      (executeAll hooks alloc free dispatch first start).bind
        (executeAll hooks alloc free dispatch second) := by
  induction first generalizing start with
  | nil => rfl
  | cons head rest induction =>
      simp only [List.cons_append, executeAll]
      cases executeInstruction hooks alloc free dispatch head.1 head.2 start with
      | error failure => rfl
      | ok next => exact induction next

/-- After `i` completed instructions the executor's table is that of `holdingsBefore`,
whatever the hooks and kernels do. -/
theorem executed_table (hooks : FhnMovementHooks Ptr σ) (alloc : σ → Option Ptr × σ)
    (free : Option Ptr → σ → σ) (dispatch : Dispatch Ptr σ) (program : FhnProgram)
    (plan : FhnMovementPlan) (buffers : Buffers Ptr) (world : σ) (i : Nat)
    (bound : i ≤ program.instructions.length)
    (length : plan.actions.length = program.instructions.length) (state : ExecState Ptr σ)
    (finished : executeAll hooks alloc free dispatch
      ((program.instructions.zip plan.actions).take i) { world := world, buffers := buffers } =
        .ok state) :
    ∃ returned : Nat → Buffers Ptr,
      (∀ j act id, j < i → plan.actions[j]? = some act → id ∈ act.alloc →
        returned j id ≠ none) ∧
      ∀ id, state.buffers id =
        ((holdingsBefore plan buffers i).table id).bind (place returned) := by
  induction i generalizing state with
  | zero =>
      cases finished
      refine ⟨fun _ _ => none, fun j act id order => absurd order (by omega), ?_⟩
      intro id
      cases entry : buffers id <;> simp [holdingsBefore, entry, place]
  | succ i induction =>
      have get := List.getElem?_eq_getElem (show i < program.instructions.length by omega)
      have found := List.getElem?_eq_getElem (show i < plan.actions.length by omega)
      have paired : (program.instructions.zip plan.actions)[i]? =
          some (program.instructions[i], plan.actions[i]) := by
        rw [List.getElem?_zip_eq_some]
        exact ⟨get, found⟩
      rw [List.take_add_one, paired, Option.toList_some, execute_all_append] at finished
      cases earlier : executeAll hooks alloc free dispatch
          ((program.instructions.zip plan.actions).take i)
          { world := world, buffers := buffers } with
      | error failure =>
          rw [earlier] at finished
          cases finished
      | ok before =>
          rw [earlier] at finished
          simp only [Except.bind, executeAll] at finished
          cases stepped : executeInstruction hooks alloc free dispatch program.instructions[i]
              plan.actions[i] before with
          | error failure =>
              rw [stepped] at finished
              cases finished
          | ok after =>
              rw [stepped] at finished
              cases finished
              obtain ⟨returned, filled, table⟩ := induction (by omega) before earlier
              obtain ⟨entries, new, next⟩ :=
                instruction_table hooks alloc free dispatch _ _ _ _ stepped
              refine ⟨Function.update returned i entries, ?_, ?_⟩
              · intro j act id order planned allocated
                by_cases last : j = i
                · subst last
                  rw [found, Option.some.injEq] at planned
                  subst planned
                  rw [Function.update_self]
                  exact new id allocated
                · rw [Function.update_of_ne last]
                  exact filled j act id (by omega) planned allocated
              · intro id
                rw [next id, holdings_succ found]
                simp only [Holdings.free, allocate_table]
                split_ifs with gone fresh
                · rfl
                · simp [place]
                · rw [table id]
                  cases entry : (holdingsBefore plan buffers i).table id with
                  | none => rfl
                  | some held =>
                      cases held with
                      | supplied buffer => rfl
                      | allocated j owner =>
                          have older := (table_allocated entry).2.1
                          simp [place, Function.update_of_ne older.ne]

section Analysis

variable {program : FhnProgram} {pinned : List Nat} {ctx : PlanContext} {plan : FhnMovementPlan}
  {acts : List FhnMovementActions} {states : Nat → PlanState}

theorem acted_ids (run : Analysis program pinned ctx plan acts states) (id : Nat)
    (acted : ∃ act ∈ plan.actions, ActsOn act id) :
    id ∈ program.resultIds ∨
      (id ∈ program.inputIds ∧ (id ∉ pinned ∨ ∃ i, program.ReadsAt i id)) := by
  obtain ⟨act, member, acts⟩ := acted
  obtain ⟨i, found⟩ := List.mem_iff_getElem?.mp member
  have bound : i < program.instructions.length := by
    rw [← analysis_plan_length run]
    exact (List.getElem?_eq_some_iff.mp found).1
  have get := List.getElem?_eq_getElem bound
  have sound := instruction_sound run i _ act get found
  have sorted (defined : id ∈ program.definedIds)
      (input : id ∈ program.inputIds → id ∉ pinned ∨ ∃ j, program.ReadsAt j id) :
      id ∈ program.resultIds ∨
        (id ∈ program.inputIds ∧ (id ∉ pinned ∨ ∃ j, program.ReadsAt j id)) := by
    rcases List.mem_append.mp defined with given | result
    · exact Or.inr ⟨given, input given⟩
    · exact Or.inl result
  rcases acts with evicted | allocated | prefetched | freed
  · have resident := (sound.evicted id evicted).1
    rw [resident_before_eq run i bound.le, OrderedSet.mem_to_finset] at resident
    have holds := device_invariant run i bound.le
    apply sorted
    · exact defined_before_subset program i (holds.defined id resident)
    · intro input
      obtain ⟨j, -, reads⟩ := holds.read id resident input
      exact Or.inr ⟨j, reads⟩
  · rw [sound.allocated, List.mem_singleton] at allocated
    left
    rw [allocated]
    exact List.mem_map_of_mem (List.mem_of_getElem? get)
  · have loads := sound.prefetched id prefetched
    apply sorted
    · exact defined_before_subset program i loads.2.2.1
    · intro input
      exact Or.inr ⟨i, _, get, loads.1⟩
  · obtain ⟨unpinned, dies⟩ := (mem_free_iff run i act found id).mp freed
    apply sorted
    · exact dies_at_defined run.valid dies
    · intro input
      exact Or.inl unpinned

/-- Every input the program reads is prefetched by its first reader. -/
theorem read_input_acted (run : Analysis program pinned ctx plan acts states) (id : Nat)
    (input : id ∈ program.inputIds) (read : ∃ i, program.ReadsAt i id) :
    ∃ act ∈ plan.actions, ActsOn act id := by
  classical
  have reads := Nat.find_spec read
  have bound := reads_at_lt reads
  have get := List.getElem?_eq_getElem bound
  obtain ⟨act, facts, planned⟩ := analysis_at run _ _ get
  have absent : id ∉ (states (Nat.find read)).resident.elems := by
    intro resident
    obtain ⟨j, earlier, readsEarlier⟩ := (device_invariant run _ bound.le).read id resident input
    exact Nat.find_min read earlier readsEarlier
  have incoming : id ∈ act.prefetch := by
    rw [facts.prefetch, mem_to_prefetch]
    exact ⟨(reads_working get id).mp reads, absent⟩
  exact ⟨_, List.mem_of_getElem? planned, Or.inr (Or.inr (Or.inl incoming))⟩

theorem dropped_input_acted (run : Analysis program pinned ctx plan acts states)
    (nonempty : program.instructions ≠ []) (id : Nat) (input : id ∈ program.inputIds)
    (unpinned : id ∉ pinned) : ∃ act ∈ plan.actions, ActsOn act id := by
  have freed := (mem_all_frees_iff run nonempty id).mpr ⟨List.mem_append_left _ input, unpinned⟩
  obtain ⟨act, member, listed⟩ := List.mem_flatMap.mp freed
  exact ⟨act, member, Or.inr (Or.inr (Or.inr listed))⟩

theorem planned_alloc (run : Analysis program pinned ctx plan acts states) (i : Nat)
    (act : FhnMovementActions) (found : plan.actions[i]? = some act) :
    ∃ inst, program.instructions[i]? = some inst ∧ act.alloc = [inst.resultId] := by
  have bound : i < program.instructions.length := by
    rw [← analysis_plan_length run]
    exact (List.getElem?_eq_some_iff.mp found).1
  have get := List.getElem?_eq_getElem bound
  exact ⟨_, get, (instruction_sound run i _ act get found).allocated⟩

theorem planned_once (run : Analysis program pinned ctx plan acts states) {j k id : Nat}
    {first second : FhnMovementActions} (left : plan.actions[j]? = some first)
    (right : plan.actions[k]? = some second) (one : id ∈ first.alloc) (two : id ∈ second.alloc) :
    j = k := by
  obtain ⟨inst, get, alloc⟩ := planned_alloc run j first left
  obtain ⟨other, otherGet, otherAlloc⟩ := planned_alloc run k second right
  rw [alloc, List.mem_singleton] at one
  rw [otherAlloc, List.mem_singleton] at two
  exact result_position_unique run.valid get otherGet (one.symm.trans two)

theorem allocated_before_freed (run : Analysis program pinned ctx plan acts states) {j k id : Nat}
    {first second : FhnMovementActions} (left : plan.actions[j]? = some first)
    (right : plan.actions[k]? = some second) (freed : id ∈ first.free)
    (allocated : id ∈ second.alloc) : k ≤ j := by
  obtain ⟨inst, get, alloc⟩ := planned_alloc run k second right
  rw [alloc, List.mem_singleton] at allocated
  by_contra later
  exact freed_before_redefined run j first id left freed k inst (by omega) get allocated.symm

theorem spared_until_iff (run : Analysis program pinned ctx plan acts states) {i id : Nat}
    (bound : i ≤ plan.actions.length) :
    SparedUntil program pinned i id ↔
      ∀ j act, j < i → plan.actions[j]? = some act → id ∉ act.free := by
  constructor
  · intro spared j act order found freed
    obtain ⟨unpinned, dies⟩ := (mem_free_iff run j act found id).mp freed
    rcases spared with isPinned | never
    · exact unpinned isPinned
    · exact never j order dies
  · intro unfreed
    by_cases isPinned : id ∈ pinned
    · exact Or.inl isPinned
    · right
      intro j order dies
      have found := List.getElem?_eq_getElem (show j < plan.actions.length by omega)
      exact unfreed j _ order found ((mem_free_iff run j _ found id).mpr ⟨isPinned, dies⟩)

theorem defined_by_iff (run : Analysis program pinned ctx plan acts states) {i id : Nat}
    (bound : i < plan.actions.length) :
    DefinedBy program i id ↔
      ∃ j act, j ≤ i ∧ plan.actions[j]? = some act ∧ id ∈ act.alloc := by
  constructor
  · rintro ⟨j, inst, order, get, rfl⟩
    have found := List.getElem?_eq_getElem (show j < plan.actions.length by omega)
    obtain ⟨planned, plannedGet, alloc⟩ := planned_alloc run j _ found
    rw [get, Option.some.injEq] at plannedGet
    exact ⟨j, _, order, found, by rw [alloc, plannedGet]; exact List.mem_singleton_self _⟩
  · rintro ⟨j, act, order, found, allocated⟩
    obtain ⟨inst, get, alloc⟩ := planned_alloc run j act found
    rw [alloc, List.mem_singleton] at allocated
    exact ⟨j, inst, order, get, allocated.symm⟩

/-- An entry that an instruction up to `i` has filled is live until it is freed itself. -/
theorem live_defined (run : Analysis program pinned ctx plan acts states) (buffers : Buffers Ptr)
    {i id : Nat} {act : FhnMovementActions} (found : plan.actions[i]? = some act)
    (defined : DefinedBy program i id) :
    ((holdingsBefore plan buffers i).allocate i act.alloc).Live id ↔
      SparedUntil program pinned i id := by
  have bound := (List.getElem?_eq_some_iff.mp found).1
  obtain ⟨j, earlier, order, get, allocated⟩ := (defined_by_iff run bound).mp defined
  rw [spared_until_iff run bound.le]
  -- only the entry of `id` ever stands for the buffer allocated for `id`
  have only {k other owner : Nat} {later : FhnMovementActions}
      (entry : ((holdingsBefore plan buffers k).allocate k later.alloc).table other =
        some (.allocated j owner)) : owner = other := by
    rw [allocate_table] at entry
    split_ifs at entry with new
    · simp only [Option.some.injEq, Held.allocated.injEq] at entry
      exact entry.2.symm
    · exact (table_allocated entry).1
  have stands (unfreed : ∀ k later, k < i → plan.actions[k]? = some later → id ∉ later.free) :
      ((holdingsBefore plan buffers i).allocate i act.alloc).table id =
        some (.allocated j id) := by
    rw [allocate_table]
    by_cases here : j = i
    · subst here
      rw [found, Option.some.injEq] at get
      subst get
      rw [if_pos allocated]
    · rw [if_neg fun again => here (planned_once run get found allocated again)]
      apply table_kept get allocated (by omega)
      · exact fun k later _ upper => unfreed k later upper
      · intro k later lower _ planned again
        exact lower.ne (planned_once run get planned allocated again)
  constructor
  · rintro ⟨held, entry, -⟩ k later upper planned freed
    have position := allocated_before_freed run planned get freed allocated
    rw [allocate_table] at entry
    have apart : id ∉ act.alloc := by
      intro again
      have last := allocated_before_freed run planned found freed again
      omega
    rw [if_neg apart] at entry
    cases held with
    | supplied buffer =>
        exact ((table_supplied.mp entry).2 k later upper planned).2 freed
    | allocated m owner =>
        -- freed at `k`, the entry is empty from then on
        have gone : (holdingsBefore plan buffers (k + 1)).table id = none := by
          rw [holdings_succ planned]
          simp only [Holdings.free, if_pos freed]
        rw [table_gone gone (by omega)] at entry
        · cases entry
        · intro n next lower _ present again
          have last := planned_once run get present allocated again
          omega
  · intro unfreed
    refine ⟨.allocated j id, stands unfreed, ?_⟩
    intro freed
    obtain ⟨k, later, other, upper, planned, release, entry⟩ := mem_freed.mp freed
    have same := only entry
    exact unfreed k later upper planned (same ▸ release)

theorem input_unallocated (run : Analysis program pinned ctx plan acts states) {k id : Nat}
    {act : FhnMovementActions} (input : id ∈ program.inputIds)
    (found : plan.actions[k]? = some act) : id ∉ act.alloc := by
  intro allocated
  obtain ⟨inst, get, alloc⟩ := planned_alloc run k act found
  rw [alloc, List.mem_singleton] at allocated
  exact result_not_input run.valid get (allocated ▸ input)

/-- What is freed without having been allocated is an input. -/
theorem freed_input (run : Analysis program pinned ctx plan acts states) {j id : Nat}
    {act : FhnMovementActions} (found : plan.actions[j]? = some act) (freed : id ∈ act.free)
    (unallocated : ∀ k earlier, k ≤ j → plan.actions[k]? = some earlier → id ∉ earlier.alloc) :
    id ∈ program.inputIds := by
  obtain ⟨-, dies⟩ := (mem_free_iff run j act found id).mp freed
  rcases List.mem_append.mp (dies_at_defined run.valid dies) with input | result
  · exact input
  · obtain ⟨inst, member, rfl⟩ := List.mem_map.mp result
    obtain ⟨k, get⟩ := List.mem_iff_getElem?.mp member
    have inRange := (List.getElem?_eq_some_iff.mp get).1
    rw [← analysis_plan_length run] at inRange
    have planned := List.getElem?_eq_getElem inRange
    obtain ⟨same, sameGet, alloc⟩ := planned_alloc run k _ planned
    rw [get, Option.some.injEq] at sameGet
    have allocated : inst.resultId ∈ plan.actions[k].alloc := by
      rw [alloc, sameGet]
      exact List.mem_singleton_self _
    have position := allocated_before_freed run found planned freed allocated
    exact absurd allocated (unallocated k _ position planned)

/-- A plan frees a buffer of the caller's through the inputs that name it. -/
theorem supplied_freed_iff (run : Analysis program pinned ctx plan acts states)
    (buffers : Buffers Ptr) {i : Nat} (bound : i ≤ plan.actions.length) (buffer : Ptr) :
    Held.supplied buffer ∈ (holdingsBefore plan buffers i).freed ↔
      ∃ other ∈ program.inputIds, buffers other = some buffer ∧
        ¬SparedUntil program pinned i other := by
  rw [mem_freed]
  constructor
  · rintro ⟨j, act, other, order, found, freed, entry⟩
    have unfilled : other ∉ act.alloc := by
      intro new
      rw [allocate_table, if_pos new] at entry
      cases entry
    rw [allocate_table, if_neg unfilled] at entry
    obtain ⟨supplied, kept⟩ := table_supplied.mp entry
    refine ⟨other, freed_input run found freed ?_, supplied, ?_⟩
    · intro k earlier upper get
      by_cases here : k = j
      · rw [here, found, Option.some.injEq] at get
        exact get ▸ unfilled
      · exact (kept k earlier (by omega) get).1
    · intro spared
      exact (spared_until_iff run bound).mp spared j act order found freed
  · rintro ⟨other, input, supplied, unspared⟩
    rw [spared_until_iff run bound] at unspared
    push Not at unspared
    obtain ⟨j, act, order, found, freed⟩ := unspared
    refine ⟨j, act, other, order, found, freed, ?_⟩
    rw [allocate_table, if_neg (input_unallocated run input found), table_supplied]
    refine ⟨supplied, fun k earlier before get => ⟨input_unallocated run input get, ?_⟩⟩
    intro again
    have first := ((mem_free_iff run j act found other).mp freed).2
    have second := ((mem_free_iff run k earlier get other).mp again).2
    exact before.ne (dies_at_unique run.valid second first)

/-- An entry of the caller's is live until one of the ids that name its buffer is freed. -/
theorem live_supplied (run : Analysis program pinned ctx plan acts states) (buffers : Buffers Ptr)
    {i id : Nat} {act : FhnMovementActions} (found : plan.actions[i]? = some act)
    (undefined : ¬DefinedBy program i id) :
    ((holdingsBefore plan buffers i).allocate i act.alloc).Live id ↔
      buffers id ≠ none ∧ SparedUntil program pinned i id ∧
        ∀ other ∈ program.inputIds, buffers other = buffers id →
          SparedUntil program pinned i other := by
  have bound := (List.getElem?_eq_some_iff.mp found).1
  have unallocated : ∀ j earlier, j ≤ i → plan.actions[j]? = some earlier → id ∉ earlier.alloc :=
    fun j earlier order get allocated =>
      undefined ((defined_by_iff run bound).mpr ⟨j, earlier, order, get, allocated⟩)
  have table := allocate_table (holdingsBefore plan buffers i) i act.alloc id
  rw [if_neg (unallocated i act le_rfl found)] at table
  constructor
  · rintro ⟨held, entry, alive⟩
    rw [table] at entry
    cases held with
    | supplied buffer =>
        obtain ⟨supplied, kept⟩ := table_supplied.mp entry
        refine ⟨by simp [supplied], ?_, ?_⟩
        · exact (spared_until_iff run bound.le).mpr fun j earlier order get =>
            (kept j earlier order get).2
        · intro other input shared
          by_contra unspared
          exact alive ((supplied_freed_iff run buffers bound.le buffer).mpr
            ⟨other, input, shared.trans supplied, unspared⟩)
    | allocated j owner =>
        obtain ⟨-, order, earlier, get, allocated⟩ := table_allocated entry
        exact absurd allocated (unallocated j earlier order.le get)
  · rintro ⟨filled, spared, unshared⟩
    obtain ⟨buffer, supplied⟩ := Option.ne_none_iff_exists'.mp filled
    have unfreed := (spared_until_iff run bound.le).mp spared
    refine ⟨.supplied buffer, ?_, ?_⟩
    · rw [table, table_supplied]
      exact ⟨supplied, fun j earlier order get =>
        ⟨unallocated j earlier order.le get, unfreed j earlier order get⟩⟩
    · intro freed
      obtain ⟨other, input, same, unspared⟩ :=
        (supplied_freed_iff run buffers bound.le buffer).mp freed
      exact unspared (unshared other input (same.trans supplied.symm))

/-- When an operand's buffer is live at a dispatch under an analysed plan. -/
theorem live_iff (run : Analysis program pinned ctx plan acts states) (buffers : Buffers Ptr)
    {i id : Nat} {act : FhnMovementActions} (found : plan.actions[i]? = some act) :
    ((holdingsBefore plan buffers i).allocate i act.alloc).Live id ↔
      (buffers id ≠ none ∨ DefinedBy program i id) ∧ SparedUntil program pinned i id ∧
        (¬DefinedBy program i id → ∀ other ∈ program.inputIds, buffers other = buffers id →
          SparedUntil program pinned i other) := by
  by_cases defined : DefinedBy program i id
  · rw [live_defined run buffers found defined]
    simp [defined]
  · rw [live_supplied run buffers found defined]
    simp [defined]

theorem legal_for_iff (run : Analysis program pinned ctx plan acts states) (other : FhnProgram)
    (length : plan.actions.length = other.instructions.length) (buffers : Buffers Ptr) :
    LegalFor other plan buffers ↔ Interchangeable other program pinned buffers := by
  have lengths := analysis_plan_length run
  constructor
  · intro legal
    have held (i id : Nat) (reads : other.ReadsAt i id) :
        (buffers id ≠ none ∨ DefinedBy program i id) ∧ SparedUntil program pinned i id ∧
          (¬DefinedBy program i id → ∀ shared ∈ program.inputIds, buffers shared = buffers id →
            SparedUntil program pinned i shared) := by
      obtain ⟨inst, get, operand⟩ := reads
      have bound := (List.getElem?_eq_some_iff.mp get).1
      have found := List.getElem?_eq_getElem (show i < plan.actions.length by omega)
      exact (live_iff run buffers found).mp (legal.operandsHeld i inst _ get found id operand)
    constructor
    · apply List.ext_getElem?
      intro i
      simp only [FhnProgram.resultIds, List.getElem?_map]
      by_cases inRange : i < other.instructions.length
      · have get := List.getElem?_eq_getElem inRange
        have found := List.getElem?_eq_getElem (show i < plan.actions.length by omega)
        obtain ⟨inst, instGet, same⟩ := planned_alloc run i _ found
        rw [legal.allocates i _ _ get found, List.cons.injEq] at same
        rw [get, instGet, Option.map_some, Option.map_some, same.1]
      · rw [List.getElem?_eq_none (by omega), List.getElem?_eq_none (by omega)]
    · intro nonempty id input needed
      have acted : ∃ act ∈ plan.actions, ActsOn act id := by
        rcases needed with unpinned | read
        · exact dropped_input_acted run nonempty id input unpinned
        · exact read_input_acted run id input read
      obtain ⟨act, member, actsOn⟩ := acted
      exact legal.named act member id actsOn
    · exact fun i id reads => (held i id reads).1
    · exact fun i id reads => (held i id reads).2.1
    · exact fun i id reads => (held i id reads).2.2
  · intro same
    constructor
    · intro act member id actsOn
      have nonempty : program.instructions ≠ [] := by
        intro empty
        rw [empty, List.length_nil, List.length_eq_zero_iff] at lengths
        rw [lengths] at member
        cases member
      rcases acted_ids run id ⟨act, member, actsOn⟩ with result | ⟨input, needed⟩
      · left
        apply List.mem_append_right
        rw [same.results]
        exact result
      · exact same.inputs nonempty id input needed
    · intro i inst act get found
      obtain ⟨planned, plannedGet, alloc⟩ := planned_alloc run i act found
      have results := congrArg (fun ids => ids[i]?) same.results
      simp only [FhnProgram.resultIds, List.getElem?_map, get, plannedGet, Option.map_some,
        Option.some.injEq] at results
      rw [alloc, results]
    · intro i inst act get found id operand
      have reads : other.ReadsAt i id := ⟨inst, get, operand⟩
      exact (live_iff run buffers found).mpr
        ⟨same.filled i id reads, same.spared i id reads, same.unshared i id reads⟩

end Analysis

theorem refused_untouched (hooks : FhnMovementHooks Ptr σ) (dispatch : Dispatch Ptr σ)
    (program : FhnProgram) (plan : FhnMovementPlan) (buffers : Buffers Ptr) (world : σ)
    (refused : ¬Admitted hooks program plan.actions.length) :
    execute hooks dispatch program plan buffers world =
      (-1, { world := world, buffers := buffers }) := by
  unfold execute
  cases alloc : hooks.bufferAlloc with
  | none => rfl
  | some allocate =>
      cases free : hooks.bufferFree with
      | none => rfl
      | some release =>
          by_cases version : program.version = fhnAbiVersion
          · by_cases length : plan.actions.length = program.instructions.length
            · exfalso
              apply refused
              constructor
              · rw [alloc]
                rfl
              · rw [free]
                rfl
              · exact version
              · exact length
            · simp only [ne_eq, version, not_true_eq_false, if_false, length, not_false_eq_true,
                if_true]
          · simp only [ne_eq, version, not_false_eq_true, if_true]

/-- A plan analysed from `analysed` is refused or legal for `program` exactly
when the guards refuse it or the two programs are interchangeable. -/
theorem never_stale_iff (hooks : FhnMovementHooks Ptr σ) (dispatch : Dispatch Ptr σ)
    (program analysed : FhnProgram) (pinned : List Nat) (deviceBudget : UInt64)
    (policy : FhnEvictionPolicy) (model : Option FhnLevelModel) (plan : FhnMovementPlan)
    (buffers : Buffers Ptr) (world : σ)
    (analyzed : analyze analysed pinned deviceBudget policy model = some plan) :
    NeverStale hooks dispatch program plan buffers world ↔
      (Admitted hooks program analysed.instructions.length →
        Interchangeable program analysed pinned buffers) := by
  obtain ⟨levelOf, acts, states, -, run⟩ := analyze_run analyzed
  rw [NeverStale, ← analysis_plan_length run]
  constructor
  · intro safe admitted
    exact (legal_for_iff run program admitted.length _).mp (safe.1 admitted)
  · intro same
    constructor
    · intro admitted
      exact (legal_for_iff run program admitted.length _).mpr (same admitted)
    · intro refused
      rw [refused_untouched hooks dispatch program plan buffers world refused]
      exact ⟨by simp, rfl⟩

def oneSum (result : Nat) : FhnProgram where
  instructions := [{ opcode := .addCC, resultId := result, operands := ![1, 2, 0, 0] }]
  inputIds := [1, 2]

def oneSumPlan (result : Nat) : FhnMovementPlan where
  actions := [{ evict := [], alloc := [result], prefetch := [1, 2], free := [1, 2] }]
  stats := { highWater := 3, allocCount := 1, prefetchCount := 2, evictCount := 0 }

def countingHooks : FhnMovementHooks Nat Nat where
  bufferAlloc := some fun world => (some world, world + 1)
  bufferFree := some fun _ world => world

def twoInputs : Buffers Nat := fun id => if id = 1 ∨ id = 2 then some id else none

theorem analyze_one_sum_nine :
    analyze (oneSum 9) [9] 0 .belady none = some (oneSumPlan 9) := by
  decide

/-- Both programs have one instruction, so the call is admitted, and the plan
allocates an id the program does not have. -/
theorem renamed_result_admitted :
    analyze (oneSum 9) [9] 0 .belady none = some (oneSumPlan 9) ∧
      Admitted countingHooks (oneSum 4) (oneSumPlan 9).actions.length ∧
      ¬NeverStale countingHooks (fun _ => none) (oneSum 4) (oneSumPlan 9) twoInputs 3 := by
  have admitted : Admitted countingHooks (oneSum 4) (oneSumPlan 9).actions.length := by
    constructor
    · rfl
    · rfl
    · rfl
    · rfl
  refine ⟨analyze_one_sum_nine, admitted, ?_⟩
  intro safe
  have alloc := (safe.1 admitted).allocates 0 _ _ rfl rfl
  simp at alloc

theorem renamed_result_conditions :
    NeverStale countingHooks (fun _ => none) (oneSum 9) (oneSumPlan 9) twoInputs 3 ↔
      (Admitted countingHooks (oneSum 9) (oneSum 9).instructions.length →
        Interchangeable (oneSum 9) (oneSum 9) [9] twoInputs) :=
  never_stale_iff countingHooks (fun _ => none) (oneSum 9) (oneSum 9) [9] 0 .belady none
    (oneSumPlan 9) twoInputs 3 analyze_one_sum_nine

end Fhenomenon.StalePlans
