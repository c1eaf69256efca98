import Fhenomenon.DispatchRecipes
import Fhenomenon.PlanLegality

/-!
# Buffers that an execution does not write

Hooks and kernels may fail at any call. A live buffer that the table holds for
inputs only keeps its contents wherever the execution stops: kernels write
results, plans that keep the inputs free results, and the failure path frees
what the plan allocated.
-/

namespace Fhenomenon.UntouchedBuffers

open Fhenomenon.InstructionStream Fhenomenon.MovementPlanner Fhenomenon.DefaultExecutor
open Fhenomenon.DispatchRecipes Fhenomenon.PlanLifetimes Fhenomenon.PlanLegality

variable {Ptr σ V : Type*}

/-- Live buffers stay live and keep their contents. -/
def Preserves (contents : σ → Ptr → Option V) (before after : σ) : Prop :=
  ∀ buffer value, contents before buffer = some value → contents after buffer = some value

/-- What hooks and kernels may do to contents, whatever they return; `contents` is `none`
for a pointer that names no live buffer. A kernel writes its result only, and freeing
null does nothing. -/
structure ContentsLaws (contents : σ → Ptr → Option V) (hooks : FhnMovementHooks Ptr σ)
    (dispatch : Dispatch Ptr σ) : Prop where
  allocated : ∀ alloc, hooks.bufferAlloc = some alloc → ∀ world made,
    (alloc world).1 = some made →
      contents world made = none ∧ (contents (alloc world).2 made).isSome
  allocates : ∀ alloc, hooks.bufferAlloc = some alloc → ∀ world,
    Preserves contents world (alloc world).2
  freed : ∀ free, hooks.bufferFree = some free → ∀ world buffer,
    (contents world buffer).isSome → ∀ other value, other ≠ buffer →
      contents world other = some value → contents (free (some buffer) world) other = some value
  freesNull : ∀ free, hooks.bufferFree = some free → ∀ world,
    Preserves contents world (free none world)
  evicted : ∀ evict, hooks.evict = some evict → ∀ buffer world,
    Preserves contents world (evict buffer world).2
  prefetched : ∀ prefetch, hooks.prefetch = some prefetch → ∀ buffer world,
    Preserves contents world (prefetch buffer world).2
  called : ∀ opcode fn, dispatch opcode = some fn →
    ∀ result operands params fparams world buffer value, contents world buffer = some value →
      (contents (fn result operands params fparams world).2 buffer).isSome ∧
        (result ≠ some buffer →
          contents (fn result operands params fparams world).2 buffer = some value)

/-- The buffer holds `value`, and the table names it for inputs only. Results have live
buffers of their own. -/
structure Untouched (contents : σ → Ptr → Option V) (inputIds : List Nat) (buffer : Ptr)
    (value : V) (state : ExecState Ptr σ) : Prop where
  kept : contents state.world buffer = some value
  inputs : ∀ id, state.buffers id = some buffer → id ∈ inputIds
  live : ∀ id, id ∉ inputIds → ∀ other, state.buffers id = some other →
    (contents state.world other).isSome
  apart : ∀ first, first ∉ inputIds → ∀ second, second ∉ inputIds → ∀ other,
    state.buffers first = some other → state.buffers second = some other → first = second
  owned : ∀ id ∈ state.owned, id ∉ inputIds

/-- The property holds wherever the calls stop. -/
def Leaves (property : ExecState Ptr σ → Prop) : Outcome Ptr σ → Prop
  | .ok state => property state
  | .error (_, state) => property state

theorem leaves_bind {property : ExecState Ptr σ → Prop} {outcome : Outcome Ptr σ}
    {next : ExecState Ptr σ → Outcome Ptr σ} (first : Leaves property outcome)
    (later : ∀ state, property state → Leaves property (next state)) :
    Leaves property (outcome.bind next) := by
  cases outcome with
  | error failure => exact first
  | ok state => exact later state first

theorem leaves_map {property : ExecState Ptr σ → Prop} {outcome : Outcome Ptr σ}
    {next : ExecState Ptr σ → ExecState Ptr σ} (first : Leaves property outcome)
    (later : ∀ state, property state → property (next state)) :
    Leaves property (outcome.map next) := by
  cases outcome with
  | error failure => exact first
  | ok state => exact later state first

section Laws

variable {contents : σ → Ptr → Option V} {hooks : FhnMovementHooks Ptr σ}
  {dispatch : Dispatch Ptr σ} {inputIds : List Nat} {buffer : Ptr} {value : V}

theorem preserves_live {before after : σ} (preserves : Preserves contents before after)
    {other : Ptr} (live : (contents before other).isSome) : (contents after other).isSome := by
  obtain ⟨held, found⟩ := Option.isSome_iff_exists.mp live
  rw [preserves other held found]
  rfl

theorem untouched_preserved {state : ExecState Ptr σ}
    (untouched : Untouched contents inputIds buffer value state) {world : σ}
    (preserves : Preserves contents state.world world) :
    Untouched contents inputIds buffer value { state with world := world } where
  kept := preserves buffer value untouched.kept
  inputs := untouched.inputs
  live := fun id absent other stored =>
    preserves_live preserves (untouched.live id absent other stored)
  apart := untouched.apart
  owned := untouched.owned

theorem evict_all_untouched (laws : ContentsLaws contents hooks dispatch) (ids : List Nat)
    (state : ExecState Ptr σ) (untouched : Untouched contents inputIds buffer value state) :
    Leaves (Untouched contents inputIds buffer value) (evictAll hooks ids state) := by
  induction ids generalizing state with
  | nil => exact untouched
  | cons id rest induction =>
      cases registered : hooks.evict with
      | none =>
          simp only [evictAll, registered]
          exact induction state untouched
      | some evict =>
          have moved := untouched_preserved untouched
            (laws.evicted evict registered (state.buffers id) state.world)
          simp only [evictAll, registered]
          split
          · exact moved
          · exact induction _ moved

theorem prefetch_all_untouched (laws : ContentsLaws contents hooks dispatch) (ids : List Nat)
    (state : ExecState Ptr σ) (untouched : Untouched contents inputIds buffer value state) :
    Leaves (Untouched contents inputIds buffer value) (prefetchAll hooks ids state) := by
  have swapped : ContentsLaws contents { hooks with evict := hooks.prefetch } dispatch :=
    { laws with evicted := laws.prefetched }
  rw [prefetch_all_eq]
  exact evict_all_untouched swapped ids state untouched

theorem run_call_untouched (laws : ContentsLaws contents hooks dispatch) (inst : FhnInstruction)
    (result : inst.resultId ∉ inputIds) (kernel : KernelCall) (state : ExecState Ptr σ)
    (untouched : Untouched contents inputIds buffer value state) :
    Untouched contents inputIds buffer value
      { state with world := (runCall dispatch inst state.buffers kernel state.world).2 } := by
  unfold runCall call
  cases registered : dispatch kernel.opcode with
  | none => exact untouched
  | some fn =>
      have law := laws.called kernel.opcode fn registered
      refine { untouched with kept := ?_, live := ?_ }
      · apply (law _ _ _ _ _ buffer value untouched.kept).2
        exact fun named => result (untouched.inputs inst.resultId named)
      · intro id absent other stored
        obtain ⟨held, found⟩ := Option.isSome_iff_exists.mp (untouched.live id absent other stored)
        exact (law _ _ _ _ _ other held found).1

theorem run_calls_untouched (laws : ContentsLaws contents hooks dispatch) (inst : FhnInstruction)
    (result : inst.resultId ∉ inputIds) (calls : List KernelCall) (state : ExecState Ptr σ)
    (untouched : Untouched contents inputIds buffer value state) :
    Untouched contents inputIds buffer value
      { state with world := (runCalls dispatch inst state.buffers calls state.world).2 } := by
  induction calls generalizing state with
  | nil => exact untouched
  | cons kernel rest induction =>
      have called := run_call_untouched laws inst result kernel state untouched
      rw [run_calls_cons]
      split
      · exact called
      · exact induction _ called

theorem dispatch_step_untouched (laws : ContentsLaws contents hooks dispatch)
    (inst : FhnInstruction) (result : inst.resultId ∉ inputIds) (state : ExecState Ptr σ)
    (untouched : Untouched contents inputIds buffer value state) :
    Leaves (Untouched contents inputIds buffer value) (dispatchStep dispatch inst state) := by
  have ran := run_calls_untouched laws inst result (kernelCalls dispatch inst) state untouched
  simp only [dispatchStep, dispatch_instruction_eq]
  split
  · exact ran
  · exact ran

theorem alloc_untouched (laws : ContentsLaws contents hooks dispatch)
    {alloc : σ → Option Ptr × σ} (registered : hooks.bufferAlloc = some alloc) (id : Nat)
    (state : ExecState Ptr σ)
    (untouched : Untouched contents inputIds buffer value state) {owned : List Nat}
    (results : ∀ other ∈ owned, other ∉ inputIds) :
    Untouched contents inputIds buffer value
      { world := (alloc state.world).2
        buffers := Function.update state.buffers id (alloc state.world).1
        owned := owned } := by
  have preserves := laws.allocates alloc registered state.world
  have fresh (made : Ptr) (returned : (alloc state.world).1 = some made) :=
    laws.allocated alloc registered state.world made returned
  have separate (other : Nat) (old : other ∉ inputIds) (made : Ptr)
      (returned : (alloc state.world).1 = some made) : state.buffers other ≠ some made := by
    intro stored
    have live := untouched.live other old made stored
    rw [(fresh made returned).1] at live
    cases live
  constructor
  · exact preserves buffer value untouched.kept
  · intro other stored
    by_cases same : other = id
    · simp only [same, Function.update_self] at stored
      have unused := (fresh buffer stored).1
      rw [untouched.kept] at unused
      cases unused
    · simp only [Function.update_of_ne same] at stored
      exact untouched.inputs other stored
  · intro other old made stored
    by_cases same : other = id
    · simp only [same, Function.update_self] at stored
      exact (fresh made stored).2
    · simp only [Function.update_of_ne same] at stored
      exact preserves_live preserves (untouched.live other old made stored)
  · intro first firstOld second secondOld made firstStored secondStored
    by_cases firstSame : first = id
    · by_cases secondSame : second = id
      · rw [firstSame, secondSame]
      · simp only [firstSame, Function.update_self] at firstStored
        simp only [Function.update_of_ne secondSame] at secondStored
        exact absurd secondStored (separate second secondOld made firstStored)
    · simp only [Function.update_of_ne firstSame] at firstStored
      by_cases secondSame : second = id
      · simp only [secondSame, Function.update_self] at secondStored
        exact absurd firstStored (separate first firstOld made secondStored)
      · simp only [Function.update_of_ne secondSame] at secondStored
        exact untouched.apart first firstOld second secondOld made firstStored secondStored
  · exact results

theorem alloc_all_untouched (laws : ContentsLaws contents hooks dispatch)
    {alloc : σ → Option Ptr × σ} (registered : hooks.bufferAlloc = some alloc) (ids : List Nat)
    (absent : ∀ id ∈ ids, id ∉ inputIds) (state : ExecState Ptr σ)
    (untouched : Untouched contents inputIds buffer value state) :
    Leaves (Untouched contents inputIds buffer value) (allocAll alloc ids state) := by
  induction ids generalizing state with
  | nil => exact untouched
  | cons id rest induction =>
      have results : ∀ other ∈ state.owned ++ [id], other ∉ inputIds := by
        intro other member
        rcases List.mem_append.mp member with old | new
        · exact untouched.owned other old
        · exact List.mem_singleton.mp new ▸ absent id List.mem_cons_self
      have refused := alloc_untouched laws registered id state untouched untouched.owned
      have stored := alloc_untouched laws registered id state untouched results
      simp only [allocAll]
      split
      · exact refused
      · exact induction (fun other member => absent other (List.mem_cons_of_mem _ member)) _ stored

theorem release_untouched (laws : ContentsLaws contents hooks dispatch)
    {free : Option Ptr → σ → σ} (registered : hooks.bufferFree = some free) {id : Nat}
    (absent : id ∉ inputIds) (state : ExecState Ptr σ)
    (untouched : Untouched contents inputIds buffer value state) {owned : List Nat}
    (results : ∀ other ∈ owned, other ∉ inputIds) :
    Untouched contents inputIds buffer value
      { world := free (state.buffers id) state.world
        buffers := Function.update state.buffers id none
        owned := owned } := by
  have spared (other : Ptr) (apart : state.buffers id ≠ some other) (held : V)
      (found : contents state.world other = some held) :
      contents (free (state.buffers id) state.world) other = some held := by
    cases stored : state.buffers id with
    | none => exact laws.freesNull free registered state.world other held found
    | some freed =>
        have live := untouched.live id absent freed stored
        rw [stored] at apart
        exact laws.freed free registered state.world freed live other held
          (fun same => apart (congrArg some same.symm)) found
  constructor
  · exact spared buffer (fun named => absent (untouched.inputs id named)) value untouched.kept
  · intro other stored
    by_cases same : other = id
    · simp only [same, Function.update_self] at stored
      cases stored
    · simp only [Function.update_of_ne same] at stored
      exact untouched.inputs other stored
  · intro other old made stored
    by_cases same : other = id
    · simp only [same, Function.update_self] at stored
      cases stored
    · simp only [Function.update_of_ne same] at stored
      obtain ⟨held, found⟩ := Option.isSome_iff_exists.mp (untouched.live other old made stored)
      have kept := spared made
        (fun named => same (untouched.apart other old id absent made stored named)) held found
      simp only [kept, Option.isSome_some]
  · intro first firstOld second secondOld made firstStored secondStored
    by_cases firstSame : first = id
    · simp only [firstSame, Function.update_self] at firstStored
      cases firstStored
    · by_cases secondSame : second = id
      · simp only [secondSame, Function.update_self] at secondStored
        cases secondStored
      · simp only [Function.update_of_ne firstSame] at firstStored
        simp only [Function.update_of_ne secondSame] at secondStored
        exact untouched.apart first firstOld second secondOld made firstStored secondStored
  · exact results

theorem free_all_untouched (laws : ContentsLaws contents hooks dispatch)
    {free : Option Ptr → σ → σ} (registered : hooks.bufferFree = some free) (ids : List Nat)
    (absent : ∀ id ∈ ids, id ∉ inputIds) (state : ExecState Ptr σ)
    (untouched : Untouched contents inputIds buffer value state) :
    Untouched contents inputIds buffer value (ids.foldl (freeId free) state) := by
  induction ids generalizing state with
  | nil => exact untouched
  | cons id rest induction =>
      rw [List.foldl_cons]
      apply induction fun other member => absent other (List.mem_cons_of_mem _ member)
      apply release_untouched laws registered (absent id List.mem_cons_self) state untouched
      exact fun other member => untouched.owned other (List.mem_of_mem_filter member)

theorem fail_cleanup_untouched (laws : ContentsLaws contents hooks dispatch)
    {free : Option Ptr → σ → σ} (registered : hooks.bufferFree = some free)
    (state : ExecState Ptr σ) (untouched : Untouched contents inputIds buffer value state) :
    Untouched contents inputIds buffer value (failCleanup free state) := by
  have each (ids : List Nat) (absent : ∀ id ∈ ids, id ∉ inputIds) (reached : ExecState Ptr σ)
      (untouched : Untouched contents inputIds buffer value reached) :
      Untouched contents inputIds buffer value (ids.foldl (failId free) reached) := by
    induction ids generalizing reached with
    | nil => exact untouched
    | cons id rest induction =>
        rw [List.foldl_cons]
        apply induction fun other member => absent other (List.mem_cons_of_mem _ member)
        have released := release_untouched laws registered (absent id List.mem_cons_self) reached
          untouched untouched.owned
        unfold failId
        split
        · exact untouched
        · rename_i freed stored
          rw [stored] at released
          exact released
  exact each state.owned untouched.owned state untouched

/-- An instruction and its actions define, allocate and free results only. -/
structure SparesInputs (inputIds : List Nat) (inst : FhnInstruction) (act : FhnMovementActions) :
    Prop where
  result : inst.resultId ∉ inputIds
  alloc : ∀ id ∈ act.alloc, id ∉ inputIds
  free : ∀ id ∈ act.free, id ∉ inputIds

theorem instruction_untouched (laws : ContentsLaws contents hooks dispatch)
    {alloc : σ → Option Ptr × σ} {free : Option Ptr → σ → σ}
    (allocHook : hooks.bufferAlloc = some alloc) (freeHook : hooks.bufferFree = some free)
    {inst : FhnInstruction} {act : FhnMovementActions} (spares : SparesInputs inputIds inst act)
    (state : ExecState Ptr σ) (untouched : Untouched contents inputIds buffer value state) :
    Leaves (Untouched contents inputIds buffer value)
      (executeInstruction hooks alloc free dispatch inst act state) := by
  unfold executeInstruction
  apply leaves_bind (evict_all_untouched laws act.evict state untouched)
  intro evicted afterEvict
  apply leaves_bind
    (alloc_all_untouched laws allocHook act.alloc spares.alloc evicted afterEvict)
  intro allocated afterAlloc
  apply leaves_bind (prefetch_all_untouched laws act.prefetch allocated afterAlloc)
  intro loaded afterPrefetch
  apply leaves_map (dispatch_step_untouched laws inst spares.result loaded afterPrefetch)
  exact free_all_untouched laws freeHook act.free spares.free

theorem execute_all_untouched (laws : ContentsLaws contents hooks dispatch)
    {alloc : σ → Option Ptr × σ} {free : Option Ptr → σ → σ}
    (allocHook : hooks.bufferAlloc = some alloc) (freeHook : hooks.bufferFree = some free)
    (steps : List (FhnInstruction × FhnMovementActions))
    (spares : ∀ step ∈ steps, SparesInputs inputIds step.1 step.2) (state : ExecState Ptr σ)
    (untouched : Untouched contents inputIds buffer value state) :
    Leaves (Untouched contents inputIds buffer value)
      (executeAll hooks alloc free dispatch steps state) := by
  induction steps generalizing state with
  | nil => exact untouched
  | cons step rest induction =>
      obtain ⟨inst, act⟩ := step
      have first := instruction_untouched laws allocHook freeHook
        (spares (inst, act) List.mem_cons_self) state untouched
      simp only [executeAll]
      cases outcome : executeInstruction hooks alloc free dispatch inst act state with
      | error failure =>
          rw [outcome] at first
          exact first
      | ok next =>
          rw [outcome] at first
          exact induction (fun other member => spares other (List.mem_cons_of_mem _ member)) next
            first

/-- A live buffer that the table names for inputs only has its contents after an execution,
however it ends. -/
theorem execute_untouched (laws : ContentsLaws contents hooks dispatch) {program : FhnProgram}
    {plan : FhnMovementPlan}
    (spares : ∀ step ∈ program.instructions.zip plan.actions,
      SparesInputs program.inputIds step.1 step.2) {table : Buffers Ptr} {world : σ}
    (inputsOnly : ∀ id, id ∉ program.inputIds → table id = none)
    (held : contents world buffer = some value) :
    contents (execute hooks dispatch program plan table world).2.world buffer = some value := by
  have start : Untouched contents program.inputIds buffer value
      { world := world, buffers := table } := by
    have named (id : Nat) (other : Ptr) (stored : table id = some other) :
        id ∈ program.inputIds := by
      by_contra absent
      rw [inputsOnly id absent] at stored
      cases stored
    constructor
    · exact held
    · exact fun id stored => named id buffer stored
    · exact fun id absent other stored => absurd (named id other stored) absent
    · exact fun first absent _ _ other stored _ => absurd (named first other stored) absent
    · intro id member
      cases member
  unfold execute
  cases allocHook : hooks.bufferAlloc with
  | none => exact held
  | some alloc =>
      cases freeHook : hooks.bufferFree with
      | none => exact held
      | some free =>
          have ran := execute_all_untouched laws allocHook freeHook _ spares _ start
          simp only
          split_ifs
          · exact held
          · exact held
          · split
            · rename_i reached finished
              rw [finished] at ran
              exact ran.kept
            · rename_i rc reached failed
              rw [failed] at ran
              exact (fail_cleanup_untouched laws freeHook reached ran).kept

end Laws

/-- Plans that keep the inputs spare them. -/
theorem analysis_spares {program : FhnProgram} {pinned : List Nat} {plan : FhnMovementPlan}
    (analyzed : analyze program pinned 0 .belady none = some plan)
    (inputsPinned : ∀ id ∈ program.inputIds, id ∈ pinned) :
    ∀ step ∈ program.instructions.zip plan.actions,
      SparesInputs program.inputIds step.1 step.2 := by
  obtain ⟨levelOf, acts, states, -, run⟩ := analyze_run analyzed
  rintro ⟨inst, act⟩ member
  obtain ⟨i, found⟩ := List.mem_iff_getElem?.mp member
  obtain ⟨get, planned⟩ := List.getElem?_zip_eq_some.mp found
  obtain ⟨raw, facts, same⟩ := analysis_at run i inst get
  have result := result_not_input run.valid get
  refine ⟨result, ?_, ?_⟩
  · intro id allocated
    rw [planned, Option.some.injEq] at same
    rw [same, facts.alloc, List.mem_singleton] at allocated
    exact allocated ▸ result
  · intro id freed input
    exact ((mem_free_iff run i act planned id).mp freed).1 (inputsPinned id input)

end Fhenomenon.UntouchedBuffers
