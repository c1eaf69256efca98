import Fhenomenon.BuiltinErasure
import Fhenomenon.BuiltinLaws
import Fhenomenon.CertifiedScalars
import Fhenomenon.RelatedMeaning

/-!
# Programs over the builtin backend

A caller's program over ToyFHE, declarations, sessions and all. The exact values
and the noise of its ciphertexts follow from the program text; whatever variable
is found to fit decrypts to its exact value.
-/

namespace Fhenomenon.BuiltinSessions

open Fhenomenon.Lib.Fallible Fhenomenon.Lib.Erasure Fhenomenon.DefaultExecutor
open Fhenomenon.DeviceAbi Fhenomenon.RecordedGraph Fhenomenon.SessionRefinement
open Fhenomenon.Recording Fhenomenon.SessionBodies Fhenomenon.BodyMeaning
open Fhenomenon.MirroredExpressions Fhenomenon.UntouchedBuffers Fhenomenon.AtomicRuns
open Fhenomenon.ToyFhe Fhenomenon.ToyFheNoise Fhenomenon.ToyFheKernels
open Fhenomenon.ToyFheExecution Fhenomenon.KernelContracts Fhenomenon.ExecutorErasure
open Fhenomenon.RecordingErasure Fhenomenon.CertifiedNoise Fhenomenon.CertifiedContents
open Fhenomenon.TrackedDevice Fhenomenon.CertifiedScalars Fhenomenon.SuccessiveRuns
open Fhenomenon.BuiltinBackend Fhenomenon.BuiltinErasure Fhenomenon.OutsideMeaning
open Fhenomenon.BuiltinLaws Fhenomenon.CallerPrograms Fhenomenon.RelatedMeaning

section Exports

variable {Ptr ρ : Type} [DecidableEq Ptr] (draw : Int → Int → ρ → Int × ρ) (engine : Engine)
  (fresh : Finset Ptr → Ptr)

/-- What is encrypted is known. -/
noncomputable def trackedEncrypt (out : Option Ptr) (value : Int) (world : Tracked Ptr ρ engine) :
    Int × Tracked Ptr ρ engine :=
  let outcome := toyfheEncryptI64 draw engine out value world.device
  (outcome.1, settle outcome.2 (match out with
    | none => world.known
    | some buffer => Function.update world.known buffer (.ciphertext (literal engine value))))

noncomputable def trackedExports : Exports Ptr (Tracked Ptr ρ engine) where
  bufferAlloc := trackedAlloc engine fresh
  bufferFree := trackedFree engine
  encryptI64 := trackedEncrypt draw engine
  kernels := trackedTable draw engine

theorem tracked_exports_erase :
    ExportsErase (Tracked.device : Tracked Ptr ρ engine → Device Ptr ρ)
      (trackedExports draw engine fresh) (toyfheExports draw engine fresh) where
  bufferAlloc := fun _ => rfl
  bufferFree := fun _ _ => rfl
  encryptI64 := fun _ _ _ => rfl
  kernels := tracked_table_erases

variable {draw engine fresh}

omit [DecidableEq Ptr] in
theorem restrict_contents {σ V W κ : Type*} (model : DeviceModel Ptr σ V κ) (view : V → Option W)
    (embed : W → V) (failed : W) (world : σ) (buffer : Ptr) :
    (restrict model view embed failed).contents world buffer =
      (model.contents world buffer).bind view := by
  simp only [DeviceModel.contents, restrict]
  cases model.cell world buffer with
  | none => rfl
  | some cell =>
      simp only [Option.bind_some, Option.map_some, Option.map_map]
      cases view cell.contents <;> rfl

theorem contents_seen (world after : Tracked Ptr ρ engine)
    (preserves : Preserves (contentsModel Ptr ρ engine).contents world after) :
    Preserves (scalarModel Ptr ρ engine).contents world after := by
  intro buffer value held
  rw [scalarModel, restrict_contents] at held ⊢
  obtain ⟨whole, found, viewed⟩ := Option.bind_eq_some_iff.mp held
  rw [preserves buffer whole found, Option.bind_some, viewed]

theorem contents_some {world : Tracked Ptr ρ engine} {buffer : Ptr} {value : Contents engine}
    (held : (contentsModel Ptr ρ engine).contents world buffer = some value) :
    buffer ∈ world.device.live ∧ world.known buffer = value := by
  by_cases live : buffer ∈ world.device.live
  · rw [TrackedDevice.contents_live live, Option.some.injEq] at held
    exact ⟨live, held⟩
  · rw [DeviceModel.contents, contents_dead live] at held
    cases held

theorem tracked_encrypts (works : Workable draw engine) :
    EncryptsI64 (scalarModel Ptr ρ engine) (contentsModel Ptr ρ engine).contents
      (trackedExports draw engine fresh) where
  elsewhere := by
    intro buffer value world other held apart found
    obtain ⟨live, same⟩ := contents_some found
    have stays : other ∈ (trackedEncrypt draw engine (some buffer) value world).2.device.live :=
      live
    have kept : (trackedEncrypt draw engine (some buffer) value world).2.known other =
        world.known other :=
      settle_elsewhere live (Function.update_of_ne apart _ _) (Function.update_of_ne apart _ _)
    rw [← same, ← kept]
    exact TrackedDevice.contents_live stays
  stays := by
    intro buffer value world live
    obtain ⟨held, found⟩ := Option.isSome_iff_exists.mp live
    have stays : buffer ∈ (trackedEncrypt draw engine (some buffer) value world).2.device.live :=
      (contents_some found).1
    change ((contentsModel Ptr ρ engine).contents
      (trackedEncrypt draw engine (some buffer) value world).2 buffer).isSome
    rw [TrackedDevice.contents_live stays]
    rfl
  filled := by
    intro buffer value world live _
    obtain ⟨held, found⟩ := Option.isSome_iff_exists.mp live
    rw [scalarModel, restrict_contents] at found
    obtain ⟨whole, inside, -⟩ := Option.bind_eq_some_iff.mp found
    have stays : buffer ∈ (trackedEncrypt draw engine (some buffer) value world).2.device.live :=
      (contents_some inside).1
    have known : (trackedEncrypt draw engine (some buffer) value world).2.known buffer =
        .ciphertext (literal engine value) := by
      have kind : ((toyfheEncryptI64 draw engine (some buffer) value world.device).2.world.heap
          buffer).kind = .ciphertext := (encrypt_establishes value).2.1
      have ct : ((toyfheEncryptI64 draw engine (some buffer) value world.device).2.world.heap
          buffer).ct = (engine.encryptInt draw value world.device.world.rng).1 :=
        (encrypt_establishes value).2.2.1
      simp only [trackedEncrypt]
      rw [settle_known, Function.update_self]
      rw [Function.update_self]
      refine ⟨kind, ?_⟩
      rw [ct]
      exact holds_encrypt works value world.device.world.rng
    change (scalarModel Ptr ρ engine).contents
      (trackedEncrypt draw engine (some buffer) value world).2 buffer = _
    rw [scalarModel, restrict_contents, TrackedDevice.contents_live stays, known]
    rfl

theorem tracked_export_laws (works : Workable draw engine) (pointers : FreshPointers fresh) :
    ExportLaws (scalarModel Ptr ρ engine) (contentsModel Ptr ρ engine).contents
      (trackedHooks engine fresh) (trackedExports draw engine fresh) where
  hookLaws := scalar_hook_laws pointers
  kernelLaw := scalar_kernel_law works
  exact := scalar_exact_kernels
  contentsLaws := tracked_contents_laws pointers
  seen := contents_seen
  encrypts := tracked_encrypts works
  resident := fun _ _ _ live => (scalar_cell live).2.1

end Exports

section Erasure

variable {Address Ptr Profile σ τ : Type} [DecidableEq Address] {forget : σ → τ}

structure RuntimeErases (forget : σ → τ) (rich : Runtime Address Ptr Profile σ)
    (plain : Runtime Address Ptr Profile τ) : Prop where
  host : HostErases forget rich.host plain.host
  compute : ComputesErase forget rich.compute plain.compute
  hooks : HooksErase forget rich.hooks plain.hooks
  dispatch : TableErases forget rich.dispatch plain.dispatch
  evaluateGraph : SessionErases forget rich.evaluateGraph plain.evaluateGraph

variable {rich : Runtime Address Ptr Profile σ} {plain : Runtime Address Ptr Profile τ}

omit [DecidableEq Address] in
theorem attempt_erases {act : Recorder Address Ptr Profile σ Unit}
    {plainAct : Recorder Address Ptr Profile τ Unit} (erases : SessionErases forget act plainAct) :
    SessionErases forget (attempt act) (attempt plainAct) := by
  intro state
  simp only [attempt, erases state]
  rcases act state with ⟨failure | done, reached⟩
  · cases failure <;> rfl
  · rfl

theorem step_erases (erases : RuntimeErases forget rich plain) (step : Step Address) :
    SessionErases forget (performStep rich step) (performStep plain step) := by
  cases step with
  | run body =>
      simp only [performStep]
      rw [erases.host.backend]
      exact run_erases erases.host erases.hooks erases.dispatch erases.evaluateGraph _ body
  | outside statement => exact perform_outside_erases erases.host erases.compute statement

theorem steps_erase (erases : RuntimeErases forget rich plain) (steps : List (Step Address)) :
    SessionErases forget (performSteps rich steps) (performSteps plain steps) := by
  induction steps with
  | nil => exact erases_pure []
  | cons step rest induction =>
      apply erases_bind (attempt_erases (step_erases erases step))
      intro completed
      apply erases_bind induction
      intro others
      exact erases_pure _

theorem declare_all_erases {host : Host Address Ptr Profile σ}
    {plainHost : Host Address Ptr Profile τ} (hosts : HostErases forget host plainHost)
    (declared : List (Int × Profile)) :
    SessionErases forget (declareAll host declared) (declareAll plainHost declared) := by
  induction declared with
  | nil => exact erases_pure []
  | cons first rest induction =>
      have declares : SessionErases forget (declare host first.1 first.2)
          (declare plainHost first.1 first.2) := by
        apply erases_bind (construct_erases hosts _)
        intro address
        apply erases_bind (belong_erases hosts address _)
        intro _
        exact erases_pure address
      apply erases_bind declares
      intro address
      apply erases_bind induction
      intro others
      exact erases_pure _

theorem program_erases (erases : RuntimeErases forget rich plain) (declared : List (Int × Profile))
    (steps : List Address → List (Step Address)) :
    SessionErases forget (callerProgram rich declared steps)
      (callerProgram plain declared steps) := by
  apply erases_bind (declare_all_erases erases.host declared)
  intro addresses
  apply erases_bind (steps_erase erases (steps addresses))
  intro completed
  exact erases_pure _

end Erasure

section Runtimes

variable {Address Ptr Profile ρ : Type} [DecidableEq Ptr]

/-- The builtin backend with its own exports, hooks and kernels. -/
def builtinRuntime {σ : Type} (exports : Exports Ptr σ) (hooks : FhnMovementHooks Ptr σ)
    (this : Nat) (place : Nat → Finset Address → Address)
    (unused : ∀ count live, place count live ∉ live)
    (evaluateGraph : Recorder Address Ptr Profile σ Unit) : Runtime Address Ptr Profile σ where
  host := builtinHost exports this place unused
  compute := evaluator exports this
  hooks := hooks
  dispatch := exports.kernels
  evaluateGraph := evaluateGraph

def toyfheRuntime (draw : Int → Int → ρ → Int × ρ) (engine : Engine) (fresh : Finset Ptr → Ptr)
    (this : Nat) (place : Nat → Finset Address → Address)
    (unused : ∀ count live, place count live ∉ live)
    (evaluateGraph : Recorder Address Ptr Profile (Device Ptr ρ) Unit) :
    Runtime Address Ptr Profile (Device Ptr ρ) :=
  builtinRuntime (toyfheExports draw engine fresh) (toyfheHooks fresh) this place unused
    evaluateGraph

/-- The same state, and of its buffers nothing is known. -/
noncomputable def untold {Address : Type} (engine : Engine)
    (state : State Address Ptr Profile (Device Ptr ρ)) :
    State Address Ptr Profile (Tracked Ptr ρ engine) where
  session := state.session
  live := state.live
  objects := state.objects
  locals := state.locals
  temporaries := state.temporaries
  placements := state.placements
  nextControl := state.nextControl
  world := settle state.world fun _ => .empty

omit [DecidableEq Ptr] in
theorem untold_fresh {Address : Type} (engine : Engine)
    {state : State Address Ptr Profile (Device Ptr ρ)} (start : CallerPrograms.Fresh state) :
    CallerPrograms.Fresh (untold engine state) where
  ready :=
    { noOperations := start.ready.noOperations
      unpoisoned := start.ready.unpoisoned
      ownEntries := start.ready.ownEntries
      outerAlive := fun _ absent => absent.elim
      noLocals := start.ready.noLocals
      noTemporaries := start.ready.noTemporaries }
  inactive := start.inactive

/-- `evaluateGraph` on the device; of what it changes nothing is known. -/
noncomputable def trackedGraph {engine : Engine}
    (evaluateGraph : Recorder Address Ptr Profile (Device Ptr ρ) Unit) :
    Recorder Address Ptr Profile (Tracked Ptr ρ engine) Unit :=
  fun state =>
    let ran := evaluateGraph (forgetSession Tracked.device state)
    (ran.1,
      { session := ran.2.session
        live := ran.2.live
        objects := ran.2.objects
        locals := ran.2.locals
        temporaries := ran.2.temporaries
        placements := ran.2.placements
        nextControl := ran.2.nextControl
        world := settle ran.2.world state.world.known })

variable {draw : Int → Int → ρ → Int × ρ} {engine : Engine} {fresh : Finset Ptr → Ptr}
  {this : Nat} {place : Nat → Finset Address → Address}
  {unused : ∀ count live, place count live ∉ live}
  {evaluateGraph : Recorder Address Ptr Profile (Device Ptr ρ) Unit}

/-- The same runtime over the tracked device. -/
noncomputable def trackedRuntime (draw : Int → Int → ρ → Int × ρ) (engine : Engine)
    (fresh : Finset Ptr → Ptr) (this : Nat) (place : Nat → Finset Address → Address)
    (unused : ∀ count live, place count live ∉ live)
    (evaluateGraph : Recorder Address Ptr Profile (Device Ptr ρ) Unit) :
    Runtime Address Ptr Profile (Tracked Ptr ρ engine) :=
  builtinRuntime (trackedExports draw engine fresh) (trackedHooks engine fresh) this place unused
    (trackedGraph evaluateGraph)

theorem tracked_runtime_erases [DecidableEq Address] :
    RuntimeErases Tracked.device
      (trackedRuntime draw engine fresh this place unused evaluateGraph)
      (toyfheRuntime draw engine fresh this place unused evaluateGraph) where
  host := builtin_hosts_erase (tracked_exports_erase draw engine fresh) this place unused
  compute := fun operator a b =>
    evaluator_erases (tracked_exports_erase draw engine fresh) this operator a b
  hooks := tracked_hooks_erase fresh
  dispatch := tracked_table_erases
  evaluateGraph := fun _ => rfl

theorem tracked_promises (works : Workable draw engine) (pointers : FreshPointers fresh) :
    KeepsPromises (scalarModel Ptr ρ engine) (contentsModel Ptr ρ engine).contents
      (trackedRuntime draw engine fresh this place unused evaluateGraph).hooks
      (trackedAlloc engine fresh) (trackedFree engine)
      (trackedRuntime draw engine fresh this place unused evaluateGraph).dispatch
      (trackedRuntime draw engine fresh this place unused evaluateGraph).host where
  hookLaws := scalar_hook_laws pointers
  kernelLaw := scalar_kernel_law works
  exact := scalar_exact_kernels
  contentsLaws := tracked_contents_laws pointers
  encryptPreserves := fun _ value world =>
    encrypt_keeps (tracked_export_laws works pointers) value world
  encryptLaw := builtin_encrypt_law (tracked_export_laws works pointers) place unused
  seen := contents_seen
  oneMemory := resident_memory (tracked_export_laws works pointers)

theorem tracked_compute_law (works : Workable draw engine) (pointers : FreshPointers fresh) :
    ComputeLaw (scalarModel Ptr ρ engine)
      (trackedRuntime draw engine fresh this place unused evaluateGraph).hooks
      (trackedRuntime draw engine fresh this place unused evaluateGraph).host.backend
      (trackedRuntime draw engine fresh this place unused evaluateGraph).compute :=
  builtin_compute_law (tracked_export_laws works pointers)

end Runtimes

section Certificates

variable {Address : Type} [DecidableEq Address] {engine : Engine}

end Certificates

section Decryption

variable {Address Ptr Profile ρ : Type} [DecidableEq Ptr] [DecidableEq Address]

end Decryption

def above (_ : Nat) (live : Finset Nat) : Nat := live.sup id + 1

theorem above_unused (count : Nat) (live : Finset Nat) : above count live ∉ live := by
  intro alive
  have bound : live.sup id + 1 ≤ live.sup id := Finset.le_sup (f := id) alive
  omega

def undeclared : State Nat Nat Unit (Device Nat Unit) where
  objects := fun _ => { val := 0 }
  world := { world := { heap := fun _ => {}, rng := () }, live := ∅ }

/-- `c = a + b; c = c * a`, then a body that throws after `a = b`, and `c = c + b` outside. -/
def sumsAndProduct : List Nat → List (Step Nat)
  | [a, b, c] =>
      [.run [.assign (.outer c) (.combine .add (.read (.outer a)) (.read (.outer b))),
          .assign (.outer c) (.combine .multiply (.read (.outer c)) (.read (.outer a)))],
        .run [.assign (.outer a) (.read (.outer b)), .raise "stop"],
        .outside (.assign c (.combine .add (.read (.outer c)) (.read (.outer b))))]
  | _ => []

def smallRuntime : Runtime Nat Nat Unit (Device Nat Unit) :=
  toyfheRuntime FusedDispatch.bottomDraw (createdEngine 1) (above 0) 1 above above_unused (pure ())

def declaredValue : Nat → Int
  | 1 => 5
  | 2 => 7
  | _ => 0

theorem small_fresh : CallerPrograms.Fresh undeclared where
  ready :=
    { noOperations := rfl
      unpoisoned := rfl
      ownEntries := fun _ _ found => nomatch found
      outerAlive := fun _ absent => absent.elim
      noLocals := rfl
      noTemporaries := rfl }
  inactive := rfl

theorem sums_and_product_uses (addresses : List Nat) :
    ∀ step ∈ sumsAndProduct addresses, UsesStep (fun other => other ∈ addresses) step := by
  intro step member
  unfold sumsAndProduct at member
  split at member
  · simp only [List.mem_cons, List.not_mem_nil, or_false] at member
    rcases member with rfl | rfl | rfl <;>
      simp [UsesStep, Step.body, statementOf, Uses, Reads, OfCaller]
  · cases member

theorem sums_and_product_returns :
    ∃ reached, callerProgram smallRuntime [(5, ()), (7, ()), (0, ())] sumsAndProduct undeclared =
      (.ok ([1, 2, 3], [true, false, true]), reached) := by
  have some : (callerProgram smallRuntime [(5, ()), (7, ()), (0, ())] sumsAndProduct
      undeclared).1.toOption = some ([1, 2, 3], [true, false, true]) := by
    decide +kernel
  rcases ran : callerProgram smallRuntime [(5, ()), (7, ()), (0, ())] sumsAndProduct undeclared
    with ⟨failure | outcome, reached⟩
  · rw [ran] at some
    cases some
  · rw [ran] at some
    exact ⟨reached, congrArg (fun both => (Except.ok both, reached)) (Option.some.inj some)⟩

theorem bottom_draws : DrawsInRange FusedDispatch.bottomDraw :=
  fun low _ _ order => ⟨le_refl low, order⟩

theorem sums_and_product_computes :
    ∃ reached, callerProgram (trackedRuntime FusedDispatch.bottomDraw (createdEngine 1) (above 0) 1
          above above_unused (pure ())) [(5, ()), (7, ()), (0, ())] sumsAndProduct
          (untold (createdEngine 1) undeclared) =
        (.ok ([1, 2, 3], [true, false, true]), reached) ∧
      ∃ after, executeCompleted (sumsAndProduct [1, 2, 3]) [true, false, true]
          (fun name => ((declaredValue name : Int) : Scalar (createdEngine 1))) = some after ∧
        heldValue (scalarModel Nat Unit (createdEngine 1)) reached.world
          (reached.objects 3).toFhenon = some (after 3) := by
  obtain ⟨last, returned⟩ := sums_and_product_returns
  have erases : SessionErases Tracked.device
      (callerProgram (trackedRuntime FusedDispatch.bottomDraw (createdEngine 1) (above 0) 1 above
        above_unused (pure ())) [(5, ()), (7, ()), (0, ())] sumsAndProduct)
      (callerProgram smallRuntime [(5, ()), (7, ()), (0, ())] sumsAndProduct) :=
    program_erases tracked_runtime_erases _ _
  have begun : callerProgram smallRuntime [(5, ()), (7, ()), (0, ())] sumsAndProduct
      (forgetSession Tracked.device (untold (createdEngine 1) undeclared)) =
        (.ok ([1, 2, 3], [true, false, true]), last) := returned
  obtain ⟨reached, ran, -⟩ := returned_of_erases erases begun
  have works := created_workable bottom_draws 1
  obtain ⟨after, computes, holds⟩ := caller_program_computes _ _ _ _ _
    (tracked_promises works (above_unused 0)) (tracked_compute_law works (above_unused 0))
    (untold (createdEngine 1) undeclared) (untold_fresh (createdEngine 1) small_fresh)
    [(5, ()), (7, ()), (0, ())] sumsAndProduct
    sums_and_product_uses [1, 2, 3] [true, false, true] reached ran
    (fun name => ((declaredValue name : Int) : Scalar (createdEngine 1))) rfl
  exact ⟨reached, ran, after, computes, holds 3 (by decide) (by decide)⟩

end Fhenomenon.BuiltinSessions
