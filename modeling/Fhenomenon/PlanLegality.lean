import Fhenomenon.PlanSoundness

/-!
# The contract between plans and their execution

`StepLegal` is all an executor needs to know about one instruction's action
list: which ids own a buffer, which are resident, and that the lists respect
both. Every analysed plan satisfies it at every instruction.
-/

namespace Fhenomenon.PlanLegality

open Fhenomenon.Lib Fhenomenon.InstructionStream Fhenomenon.MovementPlanner
open Fhenomenon.PlannerTables Fhenomenon.PlannerSteps Fhenomenon.PlanLifetimes
open Fhenomenon.DeviceReplay Fhenomenon.PlanReplay Fhenomenon.PlanSoundness

/-- The ids that own a buffer before instruction `i`. -/
def liveBefore (program : FhnProgram) (plan : FhnMovementPlan) : Nat → Finset Nat
  | 0 => program.inputIds.toFinset
  | i + 1 =>
      match plan.actions[i]? with
      | none => liveBefore program plan i
      | some act => (liveBefore program plan i ∪ act.alloc.toFinset) \ act.free.toFinset

/-- The table entries that are filled before instruction `i`, when the caller
supplies `supplied` and only the action lists change the table. -/
def filledBefore (plan : FhnMovementPlan) (supplied : Set Nat) : Nat → Set Nat
  | 0 => supplied
  | i + 1 =>
      match plan.actions[i]? with
      | none => filledBefore plan supplied i
      | some act => (filledBefore plan supplied i ∪ {id | id ∈ act.alloc}) \ {id | id ∈ act.free}

theorem mem_filled_before {plan : FhnMovementPlan}
    (once : ∀ (i : Nat) (act : FhnMovementActions) (id : Nat), plan.actions[i]? = some act →
      id ∈ act.free → ∀ (j : Nat) (later : FhnMovementActions), i < j →
        plan.actions[j]? = some later → id ∉ later.alloc)
    (supplied : Set Nat) (i : Nat) (id : Nat) :
    id ∈ filledBefore plan supplied i ↔
      (id ∈ supplied ∨ ∃ j act, j < i ∧ plan.actions[j]? = some act ∧ id ∈ act.alloc) ∧
        ∀ j act, j < i → plan.actions[j]? = some act → id ∉ act.free := by
  induction i with
  | zero => simp [filledBefore]
  | succ i induction =>
      have splitEx (holds : FhnMovementActions → Prop) :
          (∃ j act, j < i + 1 ∧ plan.actions[j]? = some act ∧ holds act) ↔
            (∃ j act, j < i ∧ plan.actions[j]? = some act ∧ holds act) ∨
              ∃ act, plan.actions[i]? = some act ∧ holds act := by
        constructor
        · intro found
          obtain ⟨j, act, order, get, holding⟩ := found
          by_cases last : j = i
          · exact Or.inr ⟨act, last ▸ get, holding⟩
          · exact Or.inl ⟨j, act, by omega, get, holding⟩
        · intro found
          rcases found with ⟨j, act, order, get, holding⟩ | ⟨act, get, holding⟩
          · exact ⟨j, act, by omega, get, holding⟩
          · exact ⟨i, act, by omega, get, holding⟩
      have splitAll : (∀ j act, j < i + 1 → plan.actions[j]? = some act → id ∉ act.free) ↔
          (∀ j act, j < i → plan.actions[j]? = some act → id ∉ act.free) ∧
            ∀ act, plan.actions[i]? = some act → id ∉ act.free := by
        constructor
        · intro all
          exact ⟨fun j act order get => all j act (by omega) get,
            fun act get => all i act (by omega) get⟩
        · intro both j act order get
          by_cases last : j = i
          · exact both.2 act (last ▸ get)
          · exact both.1 j act (by omega) get
      rw [splitEx, splitAll]
      cases found : plan.actions[i]? with
      | none =>
          simp only [filledBefore, found, induction]
          simp
      | some act =>
          simp only [filledBefore, found]
          rw [Set.mem_sdiff, Set.mem_union, induction, Set.mem_ofPred_eq, Set.mem_ofPred_eq]
          simp only [Option.some.injEq, exists_eq_left', forall_eq']
          constructor
          · intro held
            obtain ⟨old | allocated, kept⟩ := held
            · exact ⟨old.1.imp_right Or.inl, old.2, kept⟩
            · refine ⟨Or.inr (Or.inr allocated), ?_, kept⟩
              intro j earlier order get freed
              exact once j earlier id get freed i act order found allocated
          · intro held
            obtain ⟨origin, kept, last⟩ := held
            refine ⟨?_, last⟩
            rcases origin with given | earlier | allocated
            · exact Or.inl ⟨Or.inl given, kept⟩
            · exact Or.inl ⟨Or.inr earlier, kept⟩
            · exact Or.inr allocated

theorem live_before_filled (program : FhnProgram) (plan : FhnMovementPlan) (i : Nat) (id : Nat) :
    id ∈ liveBefore program plan i ↔
      id ∈ filledBefore plan {id | id ∈ program.inputIds} i := by
  induction i with
  | zero => simp [liveBefore, filledBefore]
  | succ i induction =>
      cases found : plan.actions[i]? with
      | none => simp only [liveBefore, filledBefore, found, induction]
      | some act =>
          simp only [liveBefore, filledBefore, found]
          simp [induction]

structure StepLegal (inst : FhnInstruction) (act : FhnMovementActions)
    (live resident : Finset Nat) : Prop where
  residentLive : resident ⊆ live
  operandsLive : ∀ id ∈ inst.usedOperands, id ∈ live
  freshResult : inst.resultId ∉ live
  evictNodup : act.evict.Nodup
  evicted : ∀ id ∈ act.evict, id ∈ resident ∧ id ∉ (workingSet inst).elems
  alloc : act.alloc = [inst.resultId]
  prefetched : ∀ id ∈ act.prefetch, id ∈ live
  loaded : (workingSet inst).toFinset ⊆ replay resident (loadMoves act)
  freeNodup : act.free.Nodup
  freed : ∀ id ∈ act.free, id = inst.resultId ∨ id ∈ live

structure PlanLegal (program : FhnProgram) (pinned : List Nat) (plan : FhnMovementPlan) :
    Prop where
  valid : SsaValid program
  length : plan.actions.length = program.instructions.length
  steps : ∀ i inst act, program.instructions[i]? = some inst → plan.actions[i]? = some act →
    StepLegal inst act (liveBefore program plan i) (residentBefore plan i)
  keepsPinned : ∀ act ∈ plan.actions, ∀ id ∈ act.free, id ∉ pinned
  freesResults : ∀ id ∈ program.resultIds, id ∉ pinned →
    id ∉ liveBefore program plan program.instructions.length

theorem mem_live_before {program : FhnProgram} {plan : FhnMovementPlan}
    (length : plan.actions.length = program.instructions.length)
    (allocs : ∀ (i : Nat) (inst : FhnInstruction) (act : FhnMovementActions),
      program.instructions[i]? = some inst → plan.actions[i]? = some act →
        act.alloc = [inst.resultId])
    (defined : ∀ (i : Nat) (act : FhnMovementActions) (id : Nat),
      plan.actions[i]? = some act → id ∈ act.free →
        ∀ (j : Nat) (inst : FhnInstruction), i < j →
          program.instructions[j]? = some inst → inst.resultId ≠ id)
    (i : Nat) (bound : i ≤ program.instructions.length) (id : Nat) :
    id ∈ liveBefore program plan i ↔ id ∈ program.definedBefore i ∧
      ∀ j act, j < i → plan.actions[j]? = some act → id ∉ act.free := by
  have allocated (j : Nat) (act : FhnMovementActions) (found : plan.actions[j]? = some act) :
      ∃ inst, program.instructions[j]? = some inst ∧ act.alloc = [inst.resultId] := by
    have inRange : j < program.instructions.length := by
      rw [← length]
      exact (List.getElem?_eq_some_iff.mp found).1
    have get := List.getElem?_eq_getElem inRange
    exact ⟨_, get, allocs j _ act get found⟩
  rw [live_before_filled, mem_filled_before, FhnProgram.definedBefore, List.mem_append]
  · apply and_congr_left'
    apply or_congr_right
    constructor
    · intro origin
      obtain ⟨j, act, order, found, member⟩ := origin
      obtain ⟨inst, get, same⟩ := allocated j act found
      rw [same, List.mem_singleton] at member
      rw [member]
      apply List.mem_map_of_mem
      apply List.mem_of_getElem?
      rw [List.getElem?_take_of_lt order]
      exact get
    · intro taken
      obtain ⟨inst, member, same⟩ := List.mem_map.mp taken
      obtain ⟨j, get⟩ := List.mem_iff_getElem?.mp member
      have order := (List.getElem?_eq_some_iff.mp get).1
      rw [List.length_take] at order
      rw [List.getElem?_take_of_lt (by omega)] at get
      have found := List.getElem?_eq_getElem (show j < plan.actions.length by omega)
      refine ⟨j, _, by omega, found, ?_⟩
      rw [allocs j inst _ get found, List.mem_singleton]
      exact same.symm
  · intro j act freedId found freed k later order foundLater member
    obtain ⟨inst, get, same⟩ := allocated k later foundLater
    rw [same, List.mem_singleton] at member
    exact defined j act freedId found freed k inst order get member.symm

def Kept (plan : FhnMovementPlan) (id : Nat) : Prop :=
  ∀ act ∈ plan.actions, id ∉ act.evict ∧ id ∉ act.free

theorem live_defined {program : FhnProgram} {pinned : List Nat} {plan : FhnMovementPlan}
    (legal : PlanLegal program pinned plan) (i : Nat) (bound : i ≤ program.instructions.length)
    (id : Nat) (member : id ∈ liveBefore program plan i) : id ∈ program.definedBefore i := by
  induction i with
  | zero => simpa [liveBefore, FhnProgram.definedBefore] using member
  | succ i induction =>
      have get := List.getElem?_eq_getElem (show i < program.instructions.length by omega)
      have found := List.getElem?_eq_getElem
        (show i < plan.actions.length by rw [legal.length]; omega)
      have step := legal.steps i _ _ get found
      simp only [liveBefore, found, step.alloc] at member
      rw [defined_before_succ program i _ get, List.mem_append]
      rcases Finset.mem_union.mp (Finset.mem_sdiff.mp member).1 with old | result
      · exact Or.inl (induction (by omega) old)
      · exact Or.inr (by simpa using result)

theorem pinned_live {program : FhnProgram} {pinned : List Nat} {plan : FhnMovementPlan}
    (legal : PlanLegal program pinned plan) (i : Nat) (bound : i ≤ program.instructions.length)
    (id : Nat) (isPinned : id ∈ pinned) (defined : id ∈ program.definedBefore i) :
    id ∈ liveBefore program plan i := by
  induction i with
  | zero => simpa [liveBefore, FhnProgram.definedBefore] using defined
  | succ i induction =>
      have get := List.getElem?_eq_getElem (show i < program.instructions.length by omega)
      have found := List.getElem?_eq_getElem
        (show i < plan.actions.length by rw [legal.length]; omega)
      have step := legal.steps i _ _ get found
      rw [defined_before_succ program i _ get, List.mem_append, List.mem_singleton] at defined
      simp only [liveBefore, found, step.alloc]
      rw [Finset.mem_sdiff, Finset.mem_union, List.mem_toFinset, List.mem_toFinset,
        List.mem_singleton]
      refine ⟨?_, fun freed => legal.keepsPinned _ (List.getElem_mem _) id freed isPinned⟩
      rcases defined with old | result
      · exact Or.inl (induction (by omega) old)
      · exact Or.inr result

section Analysis

variable {program : FhnProgram} {pinned : List Nat} {ctx : PlanContext} {plan : FhnMovementPlan}
  {acts : List FhnMovementActions} {states : Nat → PlanState}

theorem freed_before_redefined (run : Analysis program pinned ctx plan acts states) (i : Nat)
    (act : FhnMovementActions) (id : Nat) (found : plan.actions[i]? = some act)
    (freed : id ∈ act.free) (j : Nat) (inst : FhnInstruction) (later : i < j)
    (get : program.instructions[j]? = some inst) : inst.resultId ≠ id := by
  rintro rfl
  obtain ⟨-, dies⟩ := (mem_free_iff run i act found _).mp freed
  rcases dies with ⟨reads, -⟩ | ⟨-, ⟨other, otherGet, same⟩ | ⟨input, -⟩⟩
  · have early := result_read_later run.valid get reads
    omega
  · have position := result_position_unique run.valid otherGet get same
    omega
  · exact result_not_input run.valid get input

theorem mem_live_iff (run : Analysis program pinned ctx plan acts states) (i : Nat)
    (bound : i ≤ program.instructions.length) (id : Nat) :
    id ∈ liveBefore program plan i ↔ id ∈ program.definedBefore i ∧
      ∀ j act, j < i → plan.actions[j]? = some act → id ∉ act.free :=
  mem_live_before (analysis_plan_length run)
    (fun i inst act get found => (instruction_sound run i inst act get found).allocated)
    (freed_before_redefined run) i bound id

theorem read_is_live (run : Analysis program pinned ctx plan acts states) (i j id : Nat)
    (order : i ≤ j) (reads : program.ReadsAt j id) (defined : id ∈ program.definedBefore i) :
    id ∈ liveBefore program plan i := by
  have bound := reads_at_lt reads
  rw [mem_live_iff run i (by omega)]
  refine ⟨defined, ?_⟩
  intro k act before found freed
  obtain ⟨-, dies⟩ := (mem_free_iff run k act found id).mp freed
  rcases dies with ⟨-, last⟩ | ⟨unread, -⟩
  · have late := last j reads
    omega
  · exact unread j reads

theorem resident_is_live (run : Analysis program pinned ctx plan acts states) (i : Nat)
    (bound : i ≤ program.instructions.length) :
    residentBefore plan i ⊆ liveBefore program plan i := by
  intro id held
  rw [resident_before_eq run i bound, OrderedSet.mem_to_finset] at held
  have facts := device_invariant run i bound
  have defined := facts.defined id held
  rcases facts.live id held with kept | ⟨j, order, reads⟩
  · rw [mem_live_iff run i bound]
    refine ⟨defined, ?_⟩
    intro k act before found freed
    exact ((mem_free_iff run k act found id).mp freed).1 kept
  · exact read_is_live run i j id order reads defined

theorem step_legal_of (run : Analysis program pinned ctx plan acts states) (i : Nat)
    (inst : FhnInstruction) (act : FhnMovementActions)
    (get : program.instructions[i]? = some inst) (found : plan.actions[i]? = some act) :
    StepLegal inst act (liveBefore program plan i) (residentBefore plan i) := by
  have bound := (List.getElem?_eq_some_iff.mp get).1
  have sound := instruction_sound run i inst act get found
  have operandLive (id : Nat) (operand : id ∈ inst.usedOperands) :
      id ∈ liveBefore program plan i := by
    have reads := (reads_working get id).mpr operand
    exact read_is_live run i i id (le_refl i) reads (run.valid.operandsDefined i id reads)
  constructor
  · exact resident_is_live run i (by omega)
  · exact operandLive
  · intro live
    exact result_not_defined_before run.valid i inst get
      ((mem_live_iff run i (by omega) _).mp live).1
  · exact sound.evictNodup
  · exact sound.evicted
  · exact sound.allocated
  · intro id incoming
    exact operandLive id (sound.prefetched id incoming).1
  · exact sound.loaded
  · exact free_nodup run i act found
  · intro id freed
    obtain ⟨kept, dies⟩ := (mem_free_iff run i act found id).mp freed
    have defined : id ∈ program.definedBefore (i + 1) := by
      rcases dies with ⟨reads, -⟩ | ⟨-, ⟨other, otherGet, rfl⟩ | ⟨input, -⟩⟩
      · exact defined_before_mono program (Nat.le_succ i)
          (run.valid.operandsDefined i id reads)
      · rw [defined_before_succ program i other otherGet]
        simp
      · exact List.mem_append_left _ input
    rw [defined_before_succ program i inst get, List.mem_append, List.mem_singleton] at defined
    rcases defined with old | result
    · right
      rw [mem_live_iff run i (by omega)]
      refine ⟨old, ?_⟩
      intro j earlier order foundEarlier freedEarlier
      have first := (mem_free_iff run j earlier foundEarlier id).mp freedEarlier
      have same := dies_at_unique run.valid first.2 dies
      omega
    · exact Or.inl result

theorem result_freed (run : Analysis program pinned ctx plan acts states) (id : Nat)
    (result : id ∈ program.resultIds) (unpinned : id ∉ pinned) :
    id ∉ liveBefore program plan program.instructions.length := by
  have nonempty : program.instructions ≠ [] := by
    intro empty
    rw [FhnProgram.resultIds, empty] at result
    cases result
  obtain ⟨i, dies⟩ := dies_at_exists nonempty (List.mem_append_right program.inputIds result)
  have bound := dies_at_lt dies
  have found := List.getElem?_eq_getElem
    (show i < plan.actions.length by rw [analysis_plan_length run]; exact bound)
  intro live
  exact ((mem_live_iff run _ (le_refl _) id).mp live).2 i _ bound found
    ((mem_free_iff run i _ found id).mpr ⟨unpinned, dies⟩)

theorem plan_legal (run : Analysis program pinned ctx plan acts states) :
    PlanLegal program pinned plan where
  valid := run.valid
  length := analysis_plan_length run
  steps := step_legal_of run
  keepsPinned := by
    intro act member id freed
    obtain ⟨i, found⟩ := List.mem_iff_getElem?.mp member
    exact ((mem_free_iff run i act found id).mp freed).1
  freesResults := result_freed run

theorem unlimited_evicts_nothing (run : Analysis program pinned ctx plan acts states)
    (unlimited : ctx.deviceBudget = 0) : ∀ act ∈ plan.actions, act.evict = [] := by
  intro act member
  obtain ⟨i, found⟩ := List.mem_iff_getElem?.mp member
  obtain ⟨inst, raw, get, facts, rfl⟩ := analysis_published run found
  obtain ⟨roomy, made⟩ := facts.room
  rw [makeRoom, unlimited, if_neg (by simp), Option.some.injEq, Prod.mk.injEq] at made
  exact made.1.symm

end Analysis

theorem analyze_legal {program : FhnProgram} {pinned : List Nat} {deviceBudget : UInt64}
    {policy : FhnEvictionPolicy} {model : Option FhnLevelModel} {plan : FhnMovementPlan}
    (analyzed : analyze program pinned deviceBudget policy model = some plan) :
    PlanLegal program pinned plan := by
  obtain ⟨levelOf, acts, states, -, run⟩ := analyze_run analyzed
  exact plan_legal run

theorem analyze_unlimited {program : FhnProgram} {pinned : List Nat}
    {policy : FhnEvictionPolicy} {model : Option FhnLevelModel} {plan : FhnMovementPlan}
    (analyzed : analyze program pinned 0 policy model = some plan) :
    ∀ act ∈ plan.actions, act.evict = [] := by
  obtain ⟨levelOf, acts, states, -, run⟩ := analyze_run analyzed
  exact unlimited_evicts_nothing run rfl

end Fhenomenon.PlanLegality
