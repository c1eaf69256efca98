import Fhenomenon.MirroredBodies

/-!
# Value semantics of a run

What a run leaves in the caller's variables, against executing the same body
eagerly. A copy of a local shares its object, so a local that is assigned through
another one is stale; a variable of the caller into which no stale value flows
decrypts to its eager value.
-/

namespace Fhenomenon.ValueSemantics

open Fhenomenon.Lib.Fallible Fhenomenon.DefaultExecutor Fhenomenon.DeviceAbi
open Fhenomenon.RecordedGraph Fhenomenon.RecordedMeaning Fhenomenon.GraphSimulation
open Fhenomenon.SessionRuntime Fhenomenon.SessionRefinement Fhenomenon.Recording
open Fhenomenon.EntityMap Fhenomenon.RecordingSteps Fhenomenon.SessionBodies
open Fhenomenon.RecordingFrame Fhenomenon.LiteralRecording Fhenomenon.RecordedStore
open Fhenomenon.BodyMeaning
open Fhenomenon.LoweringSound
open Fhenomenon.MirroredExpressions Fhenomenon.MirroredBodies

variable {Address Ptr Profile σ V κ : Type} [DecidableEq Address] [Add V] [Mul V] [IntCast V]
  {model : DeviceModel Ptr σ V κ} {hooks : FhnMovementHooks Ptr σ}
  {host : Host Address Ptr Profile σ} {state later last : State Address Ptr Profile σ}
  {outer : Address → Prop} {values : Address → V} {flow : Flow Address}
  {env : Environment Address V} {this other : Address}

/-- The caller's variables before a run: encrypted, with buffers that hold `values`. -/
structure Supplied (model : DeviceModel Ptr σ V κ) (hooks : FhnMovementHooks Ptr σ)
    (backend : Nat) (outer : Address → Prop) (values : Address → V)
    (state : State Address Ptr Profile σ) : Prop where
  buffers : ∀ address, outer address →
    Supplies model hooks backend state.world (state.objects address).toFhenon (values address)
  plain : ∀ address, outer address → (state.objects address).isScalar = false

theorem activate_mirrors (ready : Ready outer state)
    (supplied : Supplied model hooks host.backend outer values state) :
    Mirrors model hooks host.backend outer values ({} : Flow Address) { outer := values }
      (activate state) := by
  have none : (activate state).session.operations = [] := ready.noOperations
  have start (address : Address) (caller : outer address) :
      startValue values (activate state) address = values address := by
    have single : ((activate state).objects address).shared = false :=
      (ready.outerAlive address caller).2
    have plain : ((activate state).objects address).isScalar = false :=
      supplied.plain address caller
    rw [startValue, single, plain]
    rfl
  have locals : (activate state).locals = [] := ready.noLocals
  have grounded : Grounded model hooks host.backend outer values (activate state) := by
    constructor
    · rw [none]
      constructor
      · exact fun operation absent => by cases absent
      · trivial
      · exact fun operation absent => by cases absent
    · intro address source
      rw [none] at source
      rcases source with caller | ⟨⟨operation, absent, -⟩, -⟩
      · rw [start address caller]
        exact supplied.buffers address caller
      · cases absent
    · exact supplied.plain
  have callers (name : Variable Address) (address : Address)
      (located : Located outer (activate state) name address) :
      outer address ∧ name = .outer address := by
    cases name with
    | outer caller =>
        obtain ⟨callers, same⟩ := located
        rw [same]
        exact ⟨callers, rfl⟩
    | inner index =>
        rw [Located, locals] at located
        cases located
  have itself (address : Address) (caller : outer address) :
      (activate state).session.canonical address = address :=
    ((activate_ongoing ready).outerAlive address caller).2.1
  constructor
  · exact activate_ongoing ready
  · exact grounded
  · rw [locals]
    rfl
  · rw [locals]
    rfl
  · exact fun origin absent => by cases absent
  · rw [none]
    exact fun address absent => by cases absent
  · rw [locals]
    exact fun address absent => by cases absent
  · intro name other first second one two
    obtain ⟨callerFirst, sameFirst⟩ := callers name first one
    obtain ⟨callerSecond, sameSecond⟩ := callers other second two
    rw [itself first callerFirst, itself second callerSecond, sameFirst, sameSecond]
    simp [Flow.shares]
  · intro name address located _
    obtain ⟨caller, same⟩ := callers name address located
    have value := start address caller
    rw [itself address caller, same, store, none, get_outer]
    exact congrArg some value.symm

/-- When the lambda ends its locals are gone and nothing else changed. -/
theorem locals_end (mirrors : Mirrors model hooks host.backend outer values flow env state) :
    state.destroyLocals.session.operations = state.session.operations ∧
      state.destroyLocals.objects = state.objects ∧
      runState state.destroyLocals = runState state ∧
      state.destroyLocals.session.poison = none := by
  let nothing : State Address Ptr Profile σ := { state with live := ∅ }
  have extended : Extends nothing state :=
    ⟨Finset.empty_subset _, fun _ _ => rfl, fun _ _ => rfl, rfl, rfl⟩
  have nodup := mirrors.ongoing.nodup
  rw [List.nodup_append] at nodup
  have copies : ∀ address ∈ state.locals.reverse, Collapsed state address := by
    intro address member
    exact mirrors.ongoing.automatic address
      (List.mem_append_left _ (List.mem_reverse.mp member))
  obtain ⟨-, later, operations, objects, seen⟩ := destroy_each state.locals.reverse
    mirrors.ongoing.active copies (List.nodup_reverse.mpr nodup.1) extended
    (fun address _ => Finset.notMem_empty address)
  exact ⟨operations, objects, seen, later.poison.trans mirrors.ongoing.unpoisoned⟩

variable {alloc : σ → Option Ptr × σ} {free : Option Ptr → σ → σ} {dispatch : Dispatch Ptr σ}

/-- A recorded body runs, and leaves every variable of the caller with its entry of the store. -/
theorem optimize_stores [DecidableEq Ptr] (hookLaws : HookLaws model hooks alloc free)
    (kernelLaw : KernelLaw model dispatch) (exact : ExactKernels model dispatch)
    (evaluateGraph : Recorder Address Ptr Profile σ Unit)
    (mirrors : Mirrors model hooks host.backend outer values flow env state) :
    ∃ final, optimizeSession host.backend hooks dispatch evaluateGraph state.destroyLocals =
        (.ok (), final) ∧
      ∀ address, outer address → heldValue model final.world (final.objects address).toFhenon =
        some (store values state address) := by
  obtain ⟨operations, objects, seen, clean⟩ := locals_end mirrors
  have scalars : ScalarsHold (runState state).entities (startValue values state) := by
    intro address scalar
    have marked : (state.objects address).isScalar = true := scalar
    rw [startValue, marked, Bool.or_true]
    rfl
  obtain ⟨final, ran, held⟩ := optimize_computes hookLaws kernelLaw exact
    mirrors.grounded.recorded scalars
    (fun address mentions unproduced => Or.inr ⟨mentions, unproduced⟩)
    mirrors.grounded.supplied state.nextControl
  have optimized : optimize host.backend hooks dispatch state.destroyLocals.session.poison
      state.destroyLocals.session.operations (runState state.destroyLocals) =
        (.ok true, final) := by
    rw [clean, operations, seen]
    exact ran
  refine ⟨_, by simp only [optimizeSession, optimized]; rfl, ?_⟩
  intro address caller
  exact held address (Or.inl (Or.inl caller))

/-- A body whose recording returns is run, and leaves the recorded store. -/
theorem run_stores [DecidableEq Ptr] (hookLaws : HookLaws model hooks alloc free)
    (kernelLaw : KernelLaw model dispatch) (exact : ExactKernels model dispatch)
    (law : EncryptLaw model hooks host) (evaluateGraph : Recorder Address Ptr Profile σ Unit)
    (ready : Ready outer state) (supplied : Supplied model hooks host.backend outer values state)
    (body : List (Statement Address)) (uses : ∀ statement ∈ body, Uses outer statement)
    (recorded : each (perform host) body (activate state) = (.ok (), later)) :
    ∃ final after,
      run host host.backend hooks dispatch evaluateGraph body state = (.ok (), final) ∧
      executeBody body { outer := values } = some after ∧
      Mirrors model hooks host.backend outer values (flowOf body) after later ∧
      ∀ address, outer address → heldValue model final.world (final.objects address).toFhenon =
        some (store values later address) := by
  obtain ⟨after, executes, mirrors, -⟩ := each_mirrors law body uses
    (activate_mirrors ready supplied) ready.noTemporaries recorded
  obtain ⟨final, optimized, held⟩ :=
    optimize_stores hookLaws kernelLaw exact evaluateGraph mirrors
  refine ⟨endRun final, after, ?_, executes, mirrors, held⟩
  have records : record host body (activate state) = (.ok (), later.destroyLocals) := by
    rw [record, ensuring, recorded]
  have inside : (do
      record host body
      optimizeSession host.backend hooks dispatch evaluateGraph :
        Recorder Address Ptr Profile σ Unit) (activate state) = (.ok (), final) := by
    rw [bind_returned records]
    exact optimized
  rw [run, bind_change_apply, ensuring, inside]

/-- A run that returns leaves every variable of the caller into which no stale value flows with
the value it has when the body is executed eagerly. -/
theorem run_computes_eager_values [DecidableEq Ptr] (model : DeviceModel Ptr σ V κ)
    (hooks : FhnMovementHooks Ptr σ) (alloc : σ → Option Ptr × σ) (free : Option Ptr → σ → σ)
    (dispatch : Dispatch Ptr σ) (hookLaws : HookLaws model hooks alloc free)
    (kernelLaw : KernelLaw model dispatch) (exact : ExactKernels model dispatch)
    (host : Host Address Ptr Profile σ) (law : EncryptLaw model hooks host)
    (evaluateGraph : Recorder Address Ptr Profile σ Unit) (outer : Address → Prop)
    (values : Address → V) (state : State Address Ptr Profile σ) (ready : Ready outer state)
    (supplied : Supplied model hooks host.backend outer values state)
    (body : List (Statement Address)) (uses : ∀ statement ∈ body, Uses outer statement)
    (final : State Address Ptr Profile σ)
    (returned : run host host.backend hooks dispatch evaluateGraph body state = (.ok (), final)) :
    ∃ after, executeBody body { outer := values } = some after ∧
      ∀ address, outer address → (flowOf body).stale (.outer address) = false →
        heldValue model final.world (final.objects address).toFhenon =
          some (after.outer address) := by
  rw [run, bind_change_apply] at returned
  obtain ⟨reached, inside, -⟩ := returned_ensuring returned
  obtain ⟨_, recorded, records, -⟩ := returned_bind inside
  obtain ⟨later, performed, -⟩ := returned_ensuring records
  obtain ⟨last, after, ran, executes, mirrors, held⟩ := run_stores hookLaws kernelLaw exact law
    evaluateGraph ready supplied body uses performed
  have same : last = final := by
    rw [run, bind_change_apply, returned] at ran
    exact (Prod.mk.inj ran).2.symm
  refine ⟨after, executes, ?_⟩
  intro address caller fresh
  have agreed := mirrors.agrees (.outer address) address ⟨caller, rfl⟩ fresh
  rw [(mirrors.ongoing.outerAlive address caller).2.1, get_outer] at agreed
  rw [← same, held address caller]
  exact agreed.symm

section SharedCopies

open Fhenomenon.MovementWorld Fhenomenon.SessionWorld

def appendingHost : Host Nat Nat Unit World :=
  { place := countingHost.place
    unused := countingHost.unused
    backend := 1
    encrypt := fun _ value world => (.ok world.length, world ++ [some ⟨true, value⟩])
    eager := fun _ _ _ world => (.error "not supported", world) }

def heldVariables : State Nat Nat Unit World where
  live := {0, 1, 2}
  objects := fun address => callersVariable (5 + address) address
  nextControl := 3
  world := [some ⟨true, 5⟩, some ⟨true, 6⟩, some ⟨true, 7⟩]

def fallsBack : Recorder Nat Nat Unit World Unit := pure ()

theorem appending_law : EncryptLaw exactModel movementHooks appendingHost where
  keeps := by
    intro _ value world buffer cell live
    have bound := cell_lt live
    have same : (world ++ [some ⟨true, value⟩])[buffer]? = world[buffer]? :=
      List.getElem?_append_left bound
    have looked : cellAt (world ++ [some ⟨true, value⟩]) buffer = cellAt world buffer := by
      rw [cellAt, cellAt, same]
    exact looked.trans live
  filled := by
    intro _ value world buffer after made
    obtain ⟨place, final⟩ := Prod.mk.inj made
    refine ⟨⟨true, value⟩, ?_, rfl, fun _ => rfl⟩
    have appended : (world ++ [some ⟨true, value⟩])[world.length]? = some (some ⟨true, value⟩) :=
      List.getElem?_concat_length
    rw [← final, ← Except.ok.inj place]
    have looked : cellAt (world ++ [some ⟨true, value⟩]) world.length = some ⟨true, value⟩ := by
      rw [cellAt, appended]
      rfl
    exact looked

theorem held_ready : Ready (· < 3) heldVariables where
  noOperations := rfl
  unpoisoned := rfl
  ownEntries := by
    intro key target entry
    cases entry
  outerAlive := by
    intro address caller
    refine ⟨?_, rfl⟩
    have cases : address = 0 ∨ address = 1 ∨ address = 2 := by omega
    rcases cases with rfl | rfl | rfl <;> decide
  noLocals := rfl
  noTemporaries := rfl

def heldValues (address : Nat) : Int := 5 + address

theorem held_supplied :
    Supplied exactModel movementHooks 1 (· < 3) heldValues heldVariables where
  buffers := by
    intro address caller
    refine ⟨_, address, ⟨true, heldValues address⟩, ⟨rfl, rfl, rfl, rfl⟩, rfl, ?_, rfl,
      fun _ => rfl⟩
    have cases : address = 0 ∨ address = 1 ∨ address = 2 := by omega
    rcases cases with rfl | rfl | rfl <;> rfl
  plain := fun _ _ => rfl

/-- `t = a + b; u = t; c = u * t` -/
def copiedSum : List (Statement Nat) :=
  [.declare (.combine .add (.read (.outer 0)) (.read (.outer 1))),
    .declare (.read (.inner 0)),
    .assign (.outer 2) (.combine .multiply (.read (.inner 1)) (.read (.inner 0)))]

/-- `t = a + b; u = t; u = u + b; c = t` -/
def changedCopy : List (Statement Nat) :=
  [.declare (.combine .add (.read (.outer 0)) (.read (.outer 1))),
    .declare (.read (.inner 0)),
    .assign (.inner 1) (.combine .add (.read (.inner 1)) (.read (.outer 1))),
    .assign (.outer 2) (.read (.inner 0))]

theorem copied_uses : ∀ statement ∈ copiedSum, Uses (· < 3) statement := by
  intro statement member
  simp only [copiedSum, List.mem_cons, List.not_mem_nil, or_false] at member
  rcases member with rfl | rfl | rfl <;> simp [Uses, Reads, OfCaller]

theorem changed_uses : ∀ statement ∈ changedCopy, Uses (· < 3) statement := by
  intro statement member
  simp only [changedCopy, List.mem_cons, List.not_mem_nil, or_false] at member
  rcases member with rfl | rfl | rfl | rfl <;> simp [Uses, Reads, OfCaller]

theorem copied_records : (each (perform appendingHost) copiedSum (activate heldVariables)).1 =
    .ok () :=
  rfl

theorem changed_records : (each (perform appendingHost) changedCopy (activate heldVariables)).1 =
    .ok () :=
  rfl

/-- `c` decrypts to `(5 + 6) * (5 + 6)`. -/
theorem copied_sum_runs :
    ∃ final, run appendingHost 1 movementHooks exactTable fallsBack copiedSum heldVariables =
        (.ok (), final) ∧
      heldValue exactModel final.world (final.objects 2).toFhenon = some 121 := by
  obtain ⟨final, _, ran, -⟩ := run_stores exact_hook_laws exact_kernel_law exact_kernels
    appending_law fallsBack held_ready held_supplied copiedSum copied_uses
    (Prod.ext copied_records rfl)
  obtain ⟨after, executes, decrypts⟩ := run_computes_eager_values exactModel movementHooks
    movementAlloc movementFree exactTable exact_hook_laws exact_kernel_law exact_kernels
    appendingHost appending_law fallsBack (· < 3) heldValues heldVariables held_ready
    held_supplied copiedSum copied_uses final ran
  have value : after.outer 2 = 121 := by
    have same : (executeBody copiedSum { outer := heldValues }).map (·.outer 2) = some 121 := rfl
    rw [executes] at same
    exact Option.some.inj same
  refine ⟨final, ran, ?_⟩
  rw [decrypts 2 (by decide) rfl, value]

/-- `c` decrypts to `5 + 6 + 6`; executed eagerly it is `5 + 6`. -/
theorem changed_copy_flows_back :
    (∃ final, run appendingHost 1 movementHooks exactTable fallsBack changedCopy heldVariables =
        (.ok (), final) ∧
      heldValue exactModel final.world (final.objects 2).toFhenon = some 17) ∧
    (executeBody changedCopy { outer := heldValues }).map (·.outer 2) = some 11 := by
  obtain ⟨final, _, ran, -, -, held⟩ := run_stores exact_hook_laws exact_kernel_law exact_kernels
    appending_law fallsBack held_ready held_supplied changedCopy changed_uses
    (Prod.ext changed_records rfl)
  refine ⟨⟨final, ran, ?_⟩, rfl⟩
  rw [held 2 (by decide)]
  rfl

end SharedCopies

end Fhenomenon.ValueSemantics
