import Fhenomenon.Lib.Fallible
import Fhenomenon.Lib.Removals
import Fhenomenon.MatvecNoise
import Fhenomenon.NumberedPrograms

/-!
# The matrix-vector benchmark

`main` of `fhn-bench-matvec` without its clock and its report: buffers and
encryption, both dispatch paths with their checks, the movement plan, and the
timed repetitions on the same buffers.
-/

namespace Fhenomenon.MatvecBench

open Fhenomenon.Lib.Fallible Fhenomenon.InstructionStream Fhenomenon.MovementPlanner
open Fhenomenon.DefaultExecutor Fhenomenon.DispatchRecipes Fhenomenon.DeviceAbi
open Fhenomenon.ToyFhe Fhenomenon.ToyFheNoise Fhenomenon.ToyFheKernels
open Fhenomenon.KernelContracts Fhenomenon.ToyFheExecution Fhenomenon.RotateReduction
open Fhenomenon.CertifiedNoise Fhenomenon.CertifiedContents Fhenomenon.TrackedDevice
open Fhenomenon.CertifiedPrograms Fhenomenon.MatvecNoise Fhenomenon.NumberedPrograms
open Fhenomenon.PlannerThreshold Fhenomenon.ExecutorErasure

section Main

variable {Ptr ρ : Type} [DecidableEq Ptr] (draw : Int → Int → ρ → Int × ρ) (engine : Engine)
  (fresh : Finset Ptr → Ptr)

/-- Fails with the lines of the error stream; the process then exits with 1. -/
abbrev Main (Ptr ρ Value : Type) := Computation (Device Ptr ρ) (List String) Value

def allocBuffer : Main Ptr ρ (Option Ptr) := fun device =>
  let allocated := toyfheBufferAlloc fresh device
  (.ok allocated.1, allocated.2)

def allocBuffers : Nat → Main Ptr ρ (List (Option Ptr))
  | 0 => return []
  | count + 1 => do
      let buffer ← allocBuffer fresh
      let others ← allocBuffers count
      return buffer :: others

/-- `bufs` as the executors index it. -/
def bufferTable (bufs : List (Option Ptr)) : Buffers Ptr := fun id => (bufs[id]?).join

def encryptVec (buffers : Buffers Ptr) (id : Nat) (values : List Int) (line : String) :
    Main Ptr ρ Unit := fun device =>
  let encrypted := toyfheEncryptVecI64 draw engine (buffers id) values device
  (if encrypted.1 ≠ 0 then .error [line] else .ok (), encrypted.2)

def encryptRows (buffers : Buffers Ptr) (rows : List (List Int)) : Main Ptr ρ Unit :=
  each (fun item => encryptVec draw engine buffers (item.2 + 1) item.1
    s!"FATAL: failed to encrypt row {item.2}") rows.zipIdx

/-- Decrypt slot 0 of every output and compare. -/
def checkOutputs (label : String) (n : Nat) (buffers : Buffers Ptr) (device : Device Ptr ρ) :
    List ((Nat × Int) × Nat) → Except String Unit
  | [] => .ok ()
  | ((output, expected), i) :: rest =>
      match (buffers output).bind fun buffer =>
        toyfheDecryptVecI64 engine (device.world.heap buffer) n with
      | none => .error s!"FATAL [{label}]: failed to decrypt output row {i}"
      | some slots =>
          let got := slots.headD 0
          if got ≠ expected then
            .error s!"FATAL [{label}]: row {i} slot 0 decrypted to {got}, expected {expected}"
          else checkOutputs label n buffers device rest

def checkedPath (label : String) (dispatch : Dispatch Ptr (Device Ptr ρ)) (n : Nat)
    (buffers : Buffers Ptr) (expected : List Int) : Main Ptr ρ Unit := fun device =>
  let failed := s!"FATAL: {label} path failed correctness check"
  let ran := executePlain dispatch (matvecProgram n) buffers device
  if ran.1 ≠ 0 then (.error [failed], ran.2)
  else
    match checkOutputs engine label n buffers ran.2
      ((matvecProgram n).outputIds.zip expected).zipIdx with
    | .error line => (.error [line, failed], ran.2)
    | .ok () => (.ok (), ran.2)

def reportMovementPlan (program : FhnProgram) (budget : UInt32) : Main Ptr ρ Unit :=
  match analyze program program.outputIds budget.toUInt64 .belady none with
  | none => fail [s!"error: movement analysis failed (budget {budget} infeasible?)"]
  | some _ => pure ()

def timedExecution (dispatch : Dispatch Ptr (Device Ptr ρ)) (program : FhnProgram)
    (buffers : Buffers Ptr) (line : String) : Main Ptr ρ Unit := fun device =>
  let ran := executePlain dispatch program buffers device
  (if ran.1 ≠ 0 then .error [line] else .ok (), ran.2)

/-- Warmup once, then `reps` executions. -/
def timePath (label : String) (dispatch : Dispatch Ptr (Device Ptr ρ)) (program : FhnProgram)
    (buffers : Buffers Ptr) (reps : Nat) : Main Ptr ρ Unit := do
  timedExecution dispatch program buffers s!"FATAL: warmup execution failed on the {label} path"
  each (fun r => timedExecution dispatch program buffers
    s!"FATAL: timed execution failed on the {label} path (rep {r})") (List.range reps)

/-- The table without the fused opcodes. -/
def primitiveTable : Dispatch Ptr (Device Ptr ρ) :=
  dispatchTable (filteredEntries primitive ((toyfheKernels draw engine).map fun entry =>
    { opcode := entry.opcode, fn := entry.fn.map onDevice }))

def freeBuffers (bufs : List (Option Ptr)) (device : Device Ptr ρ) : Device Ptr ρ :=
  bufs.foldl (fun device buffer => toyfheBufferFree buffer device) device

/-- `main` with the matrix and the vector that it draws. -/
def matvecMain (n reps : Nat) (budget : UInt32) (rows : List (List Int)) (vec : List Int) :
    Main Ptr ρ Unit :=
  if n = 0 ∨ n &&& (n - 1) ≠ 0 then fail [s!"error: --n must be a power of two (got {n})"]
  else if reps = 0 then fail ["error: --reps must be >= 1"]
  else do
    let expected := rows.map fun row => dot row vec
    let bufs ← allocBuffers fresh (matvecBuffers n)
    let buffers := bufferTable bufs
    encryptRows draw engine buffers rows
    encryptVec draw engine buffers (n + 1) vec "FATAL: failed to encrypt v"
    checkedPath engine "fused" (toyfheTable draw engine) n buffers expected
    checkedPath engine "decomposed" (primitiveTable draw engine) n buffers expected
    reportMovementPlan (matvecProgram n) budget
    timePath "fused" (toyfheTable draw engine) (matvecProgram n) buffers reps
    timePath "decomposed" (primitiveTable draw engine) (matvecProgram n) buffers reps
    change (freeBuffers bufs)

end Main

section Live

variable {Ptr ρ : Type} [DecidableEq Ptr] {draw : Int → Int → ρ → Int × ρ} {engine : Engine}

theorem call_live {keep : FhnOpCode → Bool} (inst : FhnInstruction) (buffers : Buffers Ptr)
    (kernel : KernelCall) (device : Device Ptr ρ) :
    (runCall (filtered keep (toyfheTable draw engine)) inst buffers kernel device).2.live =
      device.live := by
  simp only [runCall, call]
  cases registered : filtered keep (toyfheTable draw engine : Dispatch Ptr (Device Ptr ρ))
      kernel.opcode with
  | none => rfl
  | some fn =>
      rw [filtered] at registered
      split at registered
      · obtain ⟨entry, -, plain, -, -, rfl⟩ := toyfhe_table_entry registered
        rfl
      · cases registered

theorem calls_live {keep : FhnOpCode → Bool} (inst : FhnInstruction) (buffers : Buffers Ptr)
    (kernels : List KernelCall) (device : Device Ptr ρ) :
    (runCalls (filtered keep (toyfheTable draw engine)) inst buffers kernels device).2.live =
      device.live := by
  induction kernels generalizing device with
  | nil => rfl
  | cons kernel rest induction =>
      rw [run_calls_cons]
      split
      · exact call_live inst buffers kernel device
      · rw [induction, call_live]

theorem execution_live {keep : FhnOpCode → Bool} (program : FhnProgram) (buffers : Buffers Ptr)
    (device : Device Ptr ρ) :
    (executePlain (filtered keep (toyfheTable draw engine)) program buffers device).2.live =
      device.live := by
  have dispatched (insts : List FhnInstruction) (device : Device Ptr ρ) :
      (dispatchAll (filtered keep (toyfheTable draw engine)) buffers insts device).2.live =
        device.live := by
    induction insts generalizing device with
    | nil => rfl
    | cons inst rest induction =>
        simp only [dispatchAll, dispatch_instruction_eq]
        split
        · exact calls_live inst buffers _ device
        · rw [induction]
          exact calls_live inst buffers _ device
  rw [executePlain]
  split
  · rfl
  · exact dispatched program.instructions device

end Live

section Buffers

variable {Ptr ρ : Type} [DecidableEq Ptr] {fresh : Finset Ptr → Ptr}

theorem alloc_buffers_returns (pointers : FreshPointers fresh) (count : Nat)
    (device : Device Ptr ρ) :
    ∃ (ptrs : List Ptr) (final : Device Ptr ρ),
      allocBuffers fresh count device = (.ok (ptrs.map some), final) ∧
      ptrs.length = count ∧ ptrs.Nodup ∧ (∀ buffer ∈ ptrs, buffer ∉ device.live) ∧
      final.live = device.live ∪ ptrs.toFinset := by
  induction count generalizing device with
  | zero => exact ⟨[], device, rfl, rfl, List.nodup_nil, by simp, by simp⟩
  | succ count induction =>
      obtain ⟨ptrs, final, ran, length, nodup, unused, live⟩ :=
        induction (toyfheBufferAlloc fresh device).2
      have first : fresh device.live ∉ ptrs := fun member =>
        unused _ member (Finset.mem_insert_self _ _)
      refine ⟨fresh device.live :: ptrs, final, ?_, ?_, ?_, ?_, ?_⟩
      · have allocated : allocBuffer fresh device =
            (.ok (some (fresh device.live)), (toyfheBufferAlloc fresh device).2) := rfl
        rw [allocBuffers, bind_returned allocated, bind_returned ran]
        rfl
      · rw [List.length_cons, length]
      · exact List.nodup_cons.mpr ⟨first, nodup⟩
      · intro buffer member
        rcases List.mem_cons.mp member with rfl | later
        · exact pointers device.live
        · exact fun old => unused buffer later (Finset.mem_insert_of_mem old)
      · rw [live, toyfheBufferAlloc, List.toFinset_cons, Finset.insert_union, Finset.union_insert]

omit [DecidableEq Ptr] in
theorem buffer_table_eq (ptrs : List Ptr) (id : Nat) :
    bufferTable (ptrs.map some) id = ptrs[id]? := by
  rw [bufferTable, List.getElem?_map]
  cases ptrs[id]? <;> rfl

theorem free_buffers_live (ptrs : List Ptr) (device : Device Ptr ρ) :
    (freeBuffers (ptrs.map some) device).live = device.live \ ptrs.toFinset := by
  induction ptrs generalizing device with
  | nil => simp [freeBuffers]
  | cons first rest induction =>
      have later := induction (toyfheBufferFree (some first) device)
      rw [freeBuffers, List.map_cons, List.foldl_cons, ← freeBuffers, later]
      rw [Lib.Removals.sdiff_cons]
      rfl

end Buffers

section Stock

variable {Ptr ρ : Type} [DecidableEq Ptr] {draw : Int → Int → ρ → Int × ρ} {engine : Engine}
  {ptrs : List Ptr}

theorem encrypt_vec_returns (works : Workable draw engine) (world : Tracked Ptr ρ engine)
    {id : Nat} {buffer : Ptr} (found : ptrs[id]? = some buffer) {values : List Int}
    (filled : values ≠ []) (line : String) :
    ∃ after : Tracked Ptr ρ engine,
      encryptVec draw engine (bufferTable (ptrs.map some)) id values line world.device =
        (.ok (), after.device) ∧
      after.device.live = world.device.live ∧
      after.known buffer = .vector (values.map (literal engine)) ∧
      ∀ other ∈ world.device.live, other ≠ buffer → after.known other = world.known other := by
  obtain ⟨code, live, after, device, known, kept⟩ := encrypted_known works world buffer filled
  refine ⟨after, ?_, by rw [device, live], known, kept⟩
  simp only [encryptVec, buffer_table_eq, found, code, device]
  rfl

theorem encrypt_rows_return (works : Workable draw engine) (nodup : ptrs.Nodup)
    (world : Tracked Ptr ρ engine) (live : ∀ buffer ∈ ptrs, buffer ∈ world.device.live)
    (rows : List (List Int)) (filled : ∀ row ∈ rows, row ≠ []) (start : Nat)
    (enough : start + rows.length < ptrs.length) :
    ∃ after : Tracked Ptr ρ engine,
      each (fun item => encryptVec draw engine (bufferTable (ptrs.map some)) (item.2 + 1) item.1
          s!"FATAL: failed to encrypt row {item.2}") (rows.zipIdx start) world.device =
        (.ok (), after.device) ∧
      after.device.live = world.device.live ∧
      (∀ i row, rows[i]? = some row → ∃ buffer, ptrs[start + i + 1]? = some buffer ∧
        after.known buffer = .vector (row.map (literal engine))) ∧
      ∀ id ≤ start, ∀ buffer, ptrs[id]? = some buffer →
        after.known buffer = world.known buffer := by
  induction rows generalizing start world with
  | nil =>
      refine ⟨world, rfl, rfl, ?_, fun _ _ _ _ => rfl⟩
      intro i row impossible
      cases impossible
  | cons first rest induction =>
      rw [List.length_cons] at enough
      have bound : start + 1 < ptrs.length := by omega
      have found := List.getElem?_eq_getElem bound
      obtain ⟨middle, ran, same, known, kept⟩ := encrypt_vec_returns works world found
        (filled first (List.mem_cons_self ..)) s!"FATAL: failed to encrypt row {start}"
      obtain ⟨after, later, last, others, before⟩ := induction middle
        (fun buffer member => by rw [same]; exact live buffer member)
        (fun row member => filled row (List.mem_cons_of_mem _ member)) (start + 1) (by omega)
      refine ⟨after, ?_, last.trans same, ?_, ?_⟩
      · rw [List.zipIdx_cons, each, bind_returned ran]
        exact later
      · intro i row listed
        cases i with
        | zero =>
            rw [List.getElem?_cons_zero, Option.some.injEq] at listed
            rw [← listed]
            exact ⟨_, found, (before (start + 1) (le_refl _) _ found).trans known⟩
        | succ i =>
            rw [List.getElem?_cons_succ] at listed
            obtain ⟨buffer, there, holds⟩ := others i row listed
            refine ⟨buffer, ?_, holds⟩
            rw [← there]
            congr 1
            omega
      · intro id below buffer there
        rw [before id (by omega) buffer there]
        apply kept buffer (live buffer (List.mem_of_getElem? there))
        intro equal
        have inside := (List.getElem?_eq_some_iff.mp there).1
        rw [equal, ← found] at there
        have sameId := (List.getElem?_inj inside nodup).mp there
        omega

structure Stocked (engine : Engine) (n : Nat) (rows : List (List Int)) (vec : List Int)
    (ptrs : List Ptr) (world : Tracked Ptr ρ engine) : Prop where
  live : ∀ buffer ∈ ptrs, buffer ∈ world.device.live
  row : ∀ i row, rows[i]? = some row → ∃ buffer, ptrs[i + 1]? = some buffer ∧
    world.known buffer = .vector (row.map (literal engine))
  vec : ∃ buffer, ptrs[n + 1]? = some buffer ∧
    world.known buffer = .vector (vec.map (literal engine))

/-- The arguments that the benchmark accepts, with the data that it draws. -/
structure Drawn (engine : Engine) (m : Nat) (rows : List (List Int)) (vec : List Int) : Prop where
  rowCount : rows.length = 2 ^ m
  fits : ∀ row ∈ rows, RowFits engine m row vec

variable {m : Nat} {rows : List (List Int)} {vec : List Int}

theorem drawn_filled (drawn : Drawn engine m rows vec) (row : List Int) (member : row ∈ rows) :
    row ≠ [] ∧ vec ≠ [] := by
  have fits := drawn.fits row member
  have power := Nat.two_pow_pos m
  constructor
  · intro empty
    have length := fits.rowLength
    rw [empty, List.length_nil] at length
    omega
  · intro empty
    have length := fits.vecLength
    rw [empty, List.length_nil] at length
    omega

omit [DecidableEq Ptr] in
theorem matvec_provided (length : ptrs.length = matvecBuffers (2 ^ m)) (nodup : ptrs.Nodup)
    {live : Finset Ptr} (alive : ∀ buffer ∈ ptrs, buffer ∈ live) :
    Provided (matvecProgram (2 ^ m)) (bufferTable (ptrs.map some)) live := by
  have inside (id : Nat) (defined : id ∈ (matvecProgram (2 ^ m)).definedIds) :
      id < ptrs.length := by
    rw [length]
    exact (((matvec_numbered m).covers id).mp defined).2
  constructor
  · intro id defined
    have found := List.getElem?_eq_getElem (inside id defined)
    exact ⟨_, alive _ (List.getElem_mem _), (buffer_table_eq ptrs id).trans found⟩
  · intro id defined result _ equal
    rw [buffer_table_eq, buffer_table_eq] at equal
    exact (List.getElem?_inj (inside id defined) nodup).mp equal

theorem matvec_input (m i : Nat) (bound : i ≤ 2 ^ m) :
    i + 1 ∈ (matvecProgram (2 ^ m)).inputIds := by
  simp only [matvecProgram, List.mem_append, List.mem_map, List.mem_range, List.mem_singleton]
  by_cases last : i = 2 ^ m
  · exact Or.inr (by omega)
  · exact Or.inl ⟨i, by omega, rfl⟩

omit [DecidableEq Ptr] in
theorem stocked_encrypted {world : Tracked Ptr ρ engine} (drawn : Drawn engine m rows vec)
    (stocked : Stocked engine (2 ^ m) rows vec ptrs world) :
    MatvecNoise.Encrypted engine (2 ^ m) (fun i => rows.getD i []) vec
      (knownInputs (matvecProgram (2 ^ m)) (bufferTable (ptrs.map some)) world.known) := by
  constructor
  · intro i bound
    have listed : rows[i]? = some (rows.getD i []) := by
      have inside : i < rows.length := by rw [drawn.rowCount]; exact bound
      rw [List.getD_eq_getElem _ _ inside]
      exact List.getElem?_eq_getElem inside
    obtain ⟨buffer, found, known⟩ := stocked.row i _ listed
    rw [knownInputs, if_pos (matvec_input m i bound.le), buffer_table_eq, found, Option.map_some,
      known]
  · obtain ⟨buffer, found, known⟩ := stocked.vec
    rw [knownInputs, if_pos (matvec_input m _ (le_refl _)), buffer_table_eq, found, Option.map_some,
      known]

/-- Either path succeeds, keeps the inputs, and fills the outputs with the dot products. -/
theorem path_runs (works : Workable draw engine) {keep : FhnOpCode → Bool} (path : Path keep)
    (length : ptrs.length = matvecBuffers (2 ^ m)) (nodup : ptrs.Nodup)
    (drawn : Drawn engine m rows vec) {world : Tracked Ptr ρ engine}
    (stocked : Stocked engine (2 ^ m) rows vec ptrs world) :
    ∃ after : Tracked Ptr ρ engine,
      executePlain (filtered keep (toyfheTable draw engine)) (matvecProgram (2 ^ m))
        (bufferTable (ptrs.map some)) world.device = (0, after.device) ∧
      after.device.live = world.device.live ∧
      Stocked engine (2 ^ m) rows vec ptrs after ∧
      ∀ (k : Nat) (row : List Int), rows[k]? = some row → ∃ output buffer slots,
        (matvecProgram (2 ^ m)).outputIds[k]? = some output ∧ ptrs[output]? = some buffer ∧
        buffer ∈ after.device.live ∧ after.known buffer = .vector slots ∧
        slotValues slots = (List.replicate (2 ^ m) (dot row vec)).map some := by
  have provided := matvec_provided length nodup stocked.live
  have fits (i : Nat) (bound : i < 2 ^ m) : RowFits engine m (rows.getD i []) vec := by
    have inside : i < rows.length := by rw [drawn.rowCount]; exact bound
    rw [List.getD_eq_getElem _ _ inside]
    exact drawn.fits _ (List.getElem_mem _)
  have encrypted := stocked_encrypted drawn stocked
  obtain ⟨table, told, kept, outputs⟩ := matvec_rows_foretold path m fits (2 ^ m) 0 (2 ^ m + 2)
    (by omega) (le_refl _) encrypted
  have same : foretold engine keep (matvecProgram (2 ^ m)) (bufferTable (ptrs.map some))
      world.known = (0, table) := told
  obtain ⟨code, results⟩ := @plain_as_foretold Ptr ρ _ draw engine _ _ keep works
    (matvec_numbered m).valid (matvec_present m) rfl world provided
  rw [same] at code results
  have table : TableErases (Tracked.device : Tracked Ptr ρ engine → Device Ptr ρ)
      (filtered keep (trackedTable draw engine)) (filtered keep (toyfheTable draw engine)) :=
    filtered_erases tracked_table_erases keep
  have erased := execute_plain_erases table (matvecProgram (2 ^ m)) (bufferTable (ptrs.map some))
    world
  have live := @execution_live Ptr ρ _ draw engine keep (matvecProgram (2 ^ m))
    (bufferTable (ptrs.map some)) world.device
  rcases ran : executePlain (filtered keep (trackedTable draw engine)) (matvecProgram (2 ^ m))
    (bufferTable (ptrs.map some)) world with ⟨rc, after⟩
  rw [ran] at code results erased
  rw [erased] at live
  obtain rfl : rc = 0 := code
  have holds := results rfl
  refine ⟨after, erased, live, ⟨?_, ?_, ?_⟩, ?_⟩
  · intro buffer member
    have kept : after.device.live = world.device.live := live
    rw [kept]
    exact stocked.live buffer member
  · intro i row listed
    have bound : i < 2 ^ m := by
      rw [← drawn.rowCount]
      exact (List.getElem?_eq_some_iff.mp listed).1
    have value : rows.getD i [] = row := by
      rw [List.getD_eq_getElem?_getD, listed, Option.getD_some]
    have told := encrypted.row i bound
    rw [← kept _ (by omega), value] at told
    obtain ⟨buffer, -, found, known⟩ :=
      holds (i + 1) (List.mem_append_left _ (matvec_input m i bound.le)) _ told
    rw [buffer_table_eq] at found
    exact ⟨buffer, found, known⟩
  · have told := encrypted.vec
    rw [← kept _ (by omega)] at told
    obtain ⟨buffer, -, found, known⟩ :=
      holds (2 ^ m + 1) (List.mem_append_left _ (matvec_input m _ (le_refl _))) _ told
    rw [buffer_table_eq] at found
    exact ⟨buffer, found, known⟩
  · intro k row listed
    have bound : k < 2 ^ m := by
      rw [← drawn.rowCount]
      exact (List.getElem?_eq_some_iff.mp listed).1
    have value : rows.getD (0 + k) [] = row := by
      rw [Nat.zero_add, List.getD_eq_getElem?_getD, listed, Option.getD_some]
    obtain ⟨output, named, slots, told, values⟩ := outputs k bound
    obtain ⟨buffer, alive, found, known⟩ := holds output
      (matvec_outputs m output (List.mem_of_getElem? named)) _ told
    rw [buffer_table_eq] at found
    rw [value] at values
    exact ⟨output, buffer, slots, named, found, alive, known, values⟩

omit [DecidableEq Ptr] in
theorem check_passes {n : Nat} {buffers : Buffers Ptr} {device : Device Ptr ρ} (label : String)
    (items : List ((Nat × Int) × Nat))
    (right : ∀ item ∈ items, ∃ buffer slots, buffers item.1.1 = some buffer ∧
      toyfheDecryptVecI64 engine (device.world.heap buffer) n = some slots ∧
      slots.headD 0 = item.1.2) :
    checkOutputs engine label n buffers device items = .ok () := by
  induction items with
  | nil => rfl
  | cons item rest induction =>
      obtain ⟨⟨output, expected⟩, i⟩ := item
      obtain ⟨buffer, slots, found, decrypted, value⟩ := right _ (List.mem_cons_self ..)
      simp only at found value
      simp only [checkOutputs, found, Option.bind_some, decrypted, value, ne_eq,
        not_true_eq_false, if_false]
      exact induction fun other member => right other (List.mem_cons_of_mem _ member)

/-- A run between two stocked devices with the same live buffers. -/
def Keeps (engine : Engine) (n : Nat) (rows : List (List Int)) (vec : List Int) (ptrs : List Ptr)
    (act : Main Ptr ρ Unit) : Prop :=
  ∀ world : Tracked Ptr ρ engine, Stocked engine n rows vec ptrs world →
    ∃ after : Tracked Ptr ρ engine, act world.device = (.ok (), after.device) ∧
      after.device.live = world.device.live ∧ Stocked engine n rows vec ptrs after

omit [DecidableEq Ptr] in
theorem keeps_bind {n : Nat} {first second : Main Ptr ρ Unit}
    (one : Keeps engine n rows vec ptrs first) (two : Keeps engine n rows vec ptrs second) :
    Keeps engine n rows vec ptrs (first >>= fun _ => second) := by
  intro world stocked
  obtain ⟨middle, ran, live, still⟩ := one world stocked
  obtain ⟨after, later, last, holds⟩ := two middle still
  exact ⟨after, (bind_returned ran).trans later, last.trans live, holds⟩

omit [DecidableEq Ptr] in
theorem keeps_each {Item : Type} {n : Nat} {act : Item → Main Ptr ρ Unit}
    (keeps : ∀ item, Keeps engine n rows vec ptrs (act item)) (items : List Item) :
    Keeps engine n rows vec ptrs (each act items) := by
  induction items with
  | nil => exact fun world stocked => ⟨world, rfl, rfl, stocked⟩
  | cons item rest induction => exact keeps_bind (keeps item) induction

variable {keep : FhnOpCode → Bool}

theorem checked_path_keeps (works : Workable draw engine) (path : Path keep)
    (length : ptrs.length = matvecBuffers (2 ^ m)) (nodup : ptrs.Nodup)
    (drawn : Drawn engine m rows vec) (label : String) :
    Keeps engine (2 ^ m) rows vec ptrs
      (checkedPath engine label (filtered keep (toyfheTable draw engine)) (2 ^ m)
        (bufferTable (ptrs.map some)) (rows.map fun row => dot row vec)) := by
  intro world stocked
  obtain ⟨after, ran, live, still, outputs⟩ := path_runs works path length nodup drawn stocked
  refine ⟨after, ?_, live, still⟩
  have passes : checkOutputs engine label (2 ^ m) (bufferTable (ptrs.map some)) after.device
      ((matvecProgram (2 ^ m)).outputIds.zip (rows.map fun row => dot row vec)).zipIdx =
        .ok () := by
    apply check_passes
    rintro ⟨⟨output, expected⟩, k⟩ member
    obtain ⟨named, listed⟩ := List.getElem?_zip_eq_some.mp
      (List.mem_zipIdx_iff_getElem?.mp member)
    rw [List.getElem?_map] at listed
    obtain ⟨row, there, value⟩ := Option.map_eq_some_iff.mp listed
    obtain ⟨id, buffer, slots, same, found, alive, known, values⟩ := outputs k row there
    obtain rfl : id = output := Option.some.inj (same.symm.trans named)
    have describes := after.describes buffer alive
    rw [known] at describes
    have decrypted := decodes_vector (described_decodes works.admissible describes) values
    rw [List.length_replicate] at decrypted
    refine ⟨buffer, _, (buffer_table_eq ptrs id).trans found, decrypted, ?_⟩
    have power := Nat.two_pow_pos m
    obtain ⟨count, size⟩ : ∃ count, 2 ^ m = count + 1 := ⟨2 ^ m - 1, by omega⟩
    rw [size, List.replicate_succ, List.headD_cons]
    exact value
  simp only [checkedPath, ran, ne_eq, not_true_eq_false, if_false, passes]

theorem timed_execution_keeps (works : Workable draw engine) (path : Path keep)
    (length : ptrs.length = matvecBuffers (2 ^ m)) (nodup : ptrs.Nodup)
    (drawn : Drawn engine m rows vec) (line : String) :
    Keeps engine (2 ^ m) rows vec ptrs
      (timedExecution (filtered keep (toyfheTable draw engine)) (matvecProgram (2 ^ m))
        (bufferTable (ptrs.map some)) line) := by
  intro world stocked
  obtain ⟨after, ran, live, still, -⟩ := path_runs works path length nodup drawn stocked
  refine ⟨after, ?_, live, still⟩
  simp only [timedExecution, ran, ne_eq, not_true_eq_false, if_false]

theorem time_path_keeps (works : Workable draw engine) (path : Path keep)
    (length : ptrs.length = matvecBuffers (2 ^ m)) (nodup : ptrs.Nodup)
    (drawn : Drawn engine m rows vec) (label : String) (reps : Nat) :
    Keeps engine (2 ^ m) rows vec ptrs
      (timePath label (filtered keep (toyfheTable draw engine)) (matvecProgram (2 ^ m))
        (bufferTable (ptrs.map some)) reps) :=
  keeps_bind (timed_execution_keeps works path length nodup drawn _)
    (keeps_each (fun _ => timed_execution_keeps works path length nodup drawn _) _)

omit [DecidableEq Ptr] in
theorem report_returns (m : Nat) (budget : UInt32) (device : Device Ptr ρ) :
    reportMovementPlan (matvecProgram (2 ^ m)) budget device =
      (if budget = 1 ∨ budget = 2 then
          .error [s!"error: movement analysis failed (budget {budget} infeasible?)"]
        else .ok (), device) := by
  have accepted := matvec_accepted m (matvecProgram (2 ^ m)).outputIds budget.toUInt64 .belady
  have bound : (budget.toUInt64 = 0 ∨ 3 ≤ budget.toUInt64.toNat) ↔ ¬(budget = 1 ∨ budget = 2) := by
    rw [← UInt64.toNat_inj, ← UInt32.toNat_inj, ← UInt32.toNat_inj, UInt32.toNat_toUInt64]
    simp only [UInt64.toNat_zero, UInt32.toNat_one]
    have two : (2 : UInt32).toNat = 2 := rfl
    rw [two]
    omega
  rw [bound] at accepted
  rw [reportMovementPlan]
  rcases analyzed : analyze (matvecProgram (2 ^ m)) (matvecProgram (2 ^ m)).outputIds
    budget.toUInt64 .belady none with _ | plan
  · rw [analyzed] at accepted
    have refused : budget = 1 ∨ budget = 2 := by
      by_contra other
      obtain ⟨plan, impossible⟩ := accepted.mpr other
      cases impossible
    rw [if_pos refused]
    rfl
  · rw [if_neg (accepted.mp ⟨plan, analyzed⟩)]
    rfl

theorem filtered_all : filtered (fun _ => true) (toyfheTable draw engine) =
    (toyfheTable draw engine : Dispatch Ptr (Device Ptr ρ)) := by
  funext opcode
  exact if_pos rfl

theorem primitive_table_filtered : primitiveTable draw engine =
    (filtered primitive (toyfheTable draw engine) : Dispatch Ptr (Device Ptr ρ)) :=
  filtered_entries_table _ _

theorem stock_returns (works : Workable draw engine) {fresh : Finset Ptr → Ptr}
    (pointers : FreshPointers fresh) (drawn : Drawn engine m rows vec) (device : Device Ptr ρ) :
    ∃ (ptrs : List Ptr) (allocated encrypted : Device Ptr ρ) (after : Tracked Ptr ρ engine),
      allocBuffers fresh (matvecBuffers (2 ^ m)) device = (.ok (ptrs.map some), allocated) ∧
      encryptRows draw engine (bufferTable (ptrs.map some)) rows allocated = (.ok (), encrypted) ∧
      encryptVec draw engine (bufferTable (ptrs.map some)) (2 ^ m + 1) vec
        "FATAL: failed to encrypt v" encrypted = (.ok (), after.device) ∧
      ptrs.length = matvecBuffers (2 ^ m) ∧ ptrs.Nodup ∧ (∀ buffer ∈ ptrs, buffer ∉ device.live) ∧
      after.device.live = device.live ∪ ptrs.toFinset ∧
      Stocked engine (2 ^ m) rows vec ptrs after := by
  obtain ⟨ptrs, allocated, ran, length, nodup, unused, live⟩ :=
    alloc_buffers_returns pointers (matvecBuffers (2 ^ m)) device
  have enough : 2 ^ m + 2 ≤ ptrs.length := by
    rw [length, matvecBuffers]
    omega
  have alive (buffer : Ptr) (member : buffer ∈ ptrs) : buffer ∈ allocated.live := by
    rw [live]
    exact Finset.mem_union_right _ (List.mem_toFinset.mpr member)
  obtain ⟨middle, rowsRan, rowsLive, rowsKnown, -⟩ := encrypt_rows_return works nodup
    (settle allocated fun _ => .empty) alive rows
    (fun row member => (drawn_filled drawn row member).1) 0 (by rw [drawn.rowCount]; omega)
  have found := List.getElem?_eq_getElem (show 2 ^ m + 1 < ptrs.length by omega)
  have filled : vec ≠ [] := by
    have power := Nat.two_pow_pos m
    have inside : 0 < rows.length := by rw [drawn.rowCount]; exact power
    exact (drawn_filled drawn _ (List.getElem_mem inside)).2
  obtain ⟨after, vecRan, vecLive, vecKnown, kept⟩ := encrypt_vec_returns works middle found filled
    "FATAL: failed to encrypt v"
  have sameLive : after.device.live = allocated.live := vecLive.trans rowsLive
  refine ⟨ptrs, allocated, middle.device, after, ran, rowsRan, vecRan, length, nodup, unused, ?_,
    ⟨?_, ?_, ⟨_, found, vecKnown⟩⟩⟩
  · rw [sameLive, live]
  · intro buffer member
    rw [sameLive]
    exact alive buffer member
  · intro i row listed
    obtain ⟨buffer, there, known⟩ := rowsKnown i row listed
    rw [Nat.zero_add] at there
    have bound : i < 2 ^ m := by
      rw [← drawn.rowCount]
      exact (List.getElem?_eq_some_iff.mp listed).1
    refine ⟨buffer, there, ?_⟩
    rw [kept buffer]
    · exact known
    · rw [rowsLive]
      exact alive buffer (List.mem_of_getElem? there)
    · intro equal
      rw [equal, ← found] at there
      have sameId := (List.getElem?_inj (by omega) nodup).mp there
      omega

end Stock

section Exits

variable {Ptr ρ : Type} [DecidableEq Ptr]

def matvecExit (n reps : Nat) (budget : UInt32) : Except (List String) Unit :=
  if ¬n.isPowerOfTwo then .error [s!"error: --n must be a power of two (got {n})"]
  else if reps = 0 then .error ["error: --reps must be >= 1"]
  else if budget = 1 ∨ budget = 2 then
    .error [s!"error: movement analysis failed (budget {budget} infeasible?)"]
  else .ok ()

/-- With digits for data and at most `2 ^ 17` slots, the benchmark never reports a wrong or failed
execution on either path, however often it repeats and whatever noise it draws. It exits as its
arguments say, and a run to the end has freed what it allocated. -/
theorem matvec_main_exits (secret : Int) (draw : Int → Int → ρ → Int × ρ)
    (draws : DrawsInRange draw) (fresh : Finset Ptr → Ptr) (pointers : FreshPointers fresh)
    (n reps : Nat) (budget : UInt32) (bounded : n ≤ 2 ^ 17) (rows : List (List Int))
    (vec : List Int) (rowCount : rows.length = n)
    (drawnRows : ∀ row ∈ rows, row.length = n ∧ Digits row)
    (drawnVec : vec.length = n ∧ Digits vec) (device : Device Ptr ρ) :
    let ran := matvecMain draw (createdEngine secret) fresh n reps budget rows vec device
    ran.1 = matvecExit n reps budget ∧ (ran.1 = .ok () → ran.2.live = device.live) := by
  have works := created_workable draws secret
  have accepted : (n = 0 ∨ n &&& (n - 1) ≠ 0) ↔ ¬n.isPowerOfTwo := by
    rw [← Nat.ne_zero_and_sub_one_eq_zero_iff_isPowerOfTwo, not_and_or, not_not]
  simp only [matvecMain, matvecExit]
  by_cases power : n.isPowerOfTwo
  · by_cases repeated : reps = 0
    · rw [if_neg (by rw [accepted]; simpa using power), if_pos repeated,
        if_neg (by simpa using power), if_pos repeated]
      exact ⟨rfl, fun impossible => nomatch impossible⟩
    · rw [if_neg (by rw [accepted]; simpa using power), if_neg repeated,
        if_neg (by simpa using power), if_neg repeated]
      obtain ⟨m, rfl⟩ := power
      have small : m ≤ 17 := (Nat.pow_le_pow_iff_right (by decide)).mp bounded
      have drawn : Drawn (createdEngine secret) m rows vec := by
        refine ⟨rowCount, ?_⟩
        intro row member
        exact digits_fit secret small (drawnRows row member).1 drawnVec.1 (drawnRows row member).2
          drawnVec.2
      obtain ⟨ptrs, allocated, encrypted, stocked, allocRan, rowsRan, vecRan, length, nodup, unused,
        live, holds⟩ := stock_returns works pointers drawn device
      obtain ⟨fused, fusedRan, fusedLive, fusedHolds⟩ := checked_path_keeps works (Or.inl rfl)
        length nodup drawn "fused" stocked holds
      obtain ⟨decomposed, decomposedRan, decomposedLive, decomposedHolds⟩ :=
        checked_path_keeps works (Or.inr rfl) length nodup drawn "decomposed" fused fusedHolds
      obtain ⟨first, firstRan, firstLive, firstHolds⟩ := time_path_keeps works (Or.inl rfl)
        length nodup drawn "fused" reps decomposed decomposedHolds
      obtain ⟨last, lastRan, lastLive, -⟩ := time_path_keeps works (Or.inr rfl)
        length nodup drawn "decomposed" reps first firstHolds
      have report := report_returns m budget decomposed.device
      rw [filtered_all] at fusedRan firstRan
      rw [bind_returned allocRan, bind_returned rowsRan, bind_returned vecRan,
        bind_returned fusedRan, primitive_table_filtered, bind_returned decomposedRan]
      by_cases refused : budget = 1 ∨ budget = 2
      · rw [if_pos refused] at report ⊢
        rw [bind_failed report]
        exact ⟨rfl, fun impossible => nomatch impossible⟩
      · rw [if_neg refused] at report ⊢
        rw [bind_returned report, bind_returned firstRan, bind_returned lastRan]
        refine ⟨rfl, fun _ => ?_⟩
        have freed := free_buffers_live ptrs last.device
        rw [lastLive, firstLive, decomposedLive, fusedLive, live] at freed
        have apart : Disjoint device.live ptrs.toFinset := by
          rw [Finset.disjoint_right]
          intro buffer member
          exact unused buffer (List.mem_toFinset.mp member)
        exact freed.trans (Finset.union_sdiff_cancel_right apart)
  · rw [if_pos (by rw [accepted]; exact power), if_pos power]
    exact ⟨rfl, fun impossible => nomatch impossible⟩

/-- Two rows on both paths, with three buffers on the device. -/
theorem two_rows_exit :
    let ran := matvecMain FusedDispatch.bottomDraw (createdEngine 1) (fun live => live.sup id + 1)
      2 5 3 [[1, 2], [3, 4]] [5, 6] { world := { heap := fun _ => {}, rng := () }, live := {7} }
    ran.1 = .ok () ∧ ran.2.live = {7} := by
  have pointers : FreshPointers fun live : Finset Nat => live.sup id + 1 := by
    intro live alive
    have bound : live.sup id + 1 ≤ live.sup id := Finset.le_sup (f := id) alive
    omega
  have draws : DrawsInRange FusedDispatch.bottomDraw :=
    fun low _ _ order => ⟨le_refl low, order⟩
  obtain ⟨outcome, freed⟩ := matvec_main_exits 1 FusedDispatch.bottomDraw draws _ pointers 2 5 3
    (by decide) [[1, 2], [3, 4]] [5, 6] rfl (by simp [Digits]) ⟨rfl, by simp [Digits]⟩
    { world := { heap := fun _ => {}, rng := () }, live := {7} }
  have accepted : matvecExit 2 5 3 = .ok () := by
    have power : Nat.isPowerOfTwo 2 := ⟨1, rfl⟩
    rw [matvecExit, if_neg (by simpa using power)]
    rfl
  rw [accepted] at outcome
  exact ⟨outcome, freed outcome⟩

end Exits

end Fhenomenon.MatvecBench
