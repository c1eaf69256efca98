import Fhenomenon.OutsideMeaning

/-!
# What the builtin backend keeps to

Over exports that follow the ABI the backend's encryption and its operators do
what sessions and the caller rely on: other buffers keep their contents, also
when a call fails, and a returned buffer holds the result.
-/

namespace Fhenomenon.BuiltinLaws

open Fhenomenon.Lib.Fallible Fhenomenon.InstructionStream Fhenomenon.MovementPlanner
open Fhenomenon.DefaultExecutor Fhenomenon.DispatchRecipes Fhenomenon.DeviceAbi
open Fhenomenon.ExecutorRefinement Fhenomenon.LoweringSound Fhenomenon.RecordedGraph
open Fhenomenon.SessionRefinement Fhenomenon.Recording Fhenomenon.RecordedStore
open Fhenomenon.BodyMeaning Fhenomenon.MirroredExpressions Fhenomenon.UntouchedBuffers
open Fhenomenon.SuccessiveRuns Fhenomenon.BuiltinBackend Fhenomenon.OutsideMeaning

variable {Address Ptr Profile σ V W κ : Type}

section Kernels

variable {contents : σ → Ptr → Option V} {hooks : FhnMovementHooks Ptr σ}
  {dispatch : Dispatch Ptr σ} {inst : FhnInstruction} {buffers : Buffers Ptr} {buffer : Ptr}

theorem calls_keep (laws : ContentsLaws contents hooks dispatch)
    (apart : buffers inst.resultId ≠ some buffer) (calls : List KernelCall) {world : σ} {value : V}
    (held : contents world buffer = some value) :
    contents (runCalls dispatch inst buffers calls world).2 buffer = some value := by
  induction calls generalizing world with
  | nil => exact held
  | cons kernel rest induction =>
      have called : contents (runCall dispatch inst buffers kernel world).2 buffer =
          some value := by
        unfold runCall call
        cases registered : dispatch kernel.opcode with
        | none => exact held
        | some fn => exact (laws.called _ fn registered _ _ _ _ _ buffer value held).2 apart
      rw [run_calls_cons]
      split
      · exact called
      · exact induction called

theorem calls_stay (laws : ContentsLaws contents hooks dispatch) (calls : List KernelCall)
    {world : σ} (live : (contents world buffer).isSome) :
    (contents (runCalls dispatch inst buffers calls world).2 buffer).isSome := by
  induction calls generalizing world with
  | nil => exact live
  | cons kernel rest induction =>
      have called : (contents (runCall dispatch inst buffers kernel world).2 buffer).isSome := by
        unfold runCall call
        cases registered : dispatch kernel.opcode with
        | none => exact live
        | some fn =>
            obtain ⟨value, held⟩ := Option.isSome_iff_exists.mp live
            exact (laws.called _ fn registered _ _ _ _ _ buffer value held).1
      rw [run_calls_cons]
      split
      · exact called
      · exact induction called

def singleInstruction (op : FhnOpCode) (binary : Bool) (fparam : Rat) : FhnInstruction where
  opcode := op
  resultId := if binary then 3 else 2
  operands := ![1, if binary then 2 else 0, 0, 0]
  fparams := ![fparam, 0]

theorem single_op_dispatched (op : FhnOpCode) (binary : Bool) (fparam : Rat) (world : σ) :
    executePlain dispatch (singleOp op binary fparam) buffers world =
      dispatchInstruction dispatch (singleInstruction op binary fparam) buffers world := by
  have version : (singleOp op binary fparam).version = fhnAbiVersion := rfl
  have single : (singleOp op binary fparam).instructions = [singleInstruction op binary fparam] :=
    rfl
  rw [executePlain, if_neg fun apart => apart version, single]
  simp only [dispatchAll]
  by_cases failed :
      (dispatchInstruction dispatch (singleInstruction op binary fparam) buffers world).1 = 0
  · rw [if_neg fun apart => apart failed]
    exact Prod.ext failed.symm rfl
  · rw [if_pos failed]

theorem single_result (a b : Option Ptr) (result : Ptr) (op : FhnOpCode) (fparam : Rat) :
    singleBuffers a b result (singleInstruction op b.isSome fparam).resultId = some result := by
  cases b <;> rfl

end Kernels

section Filling

variable {contents : σ → Ptr → Option V} {exports : Exports Ptr σ} {hooks : FhnMovementHooks Ptr σ}
  {fill : Ptr → Computation σ String Unit}

/-- Filling writes its own buffer only, which stays live. -/
structure Fills (contents : σ → Ptr → Option V) (fill : Ptr → Computation σ String Unit) :
    Prop where
  elsewhere : ∀ buffer world other value, other ≠ buffer → contents world other = some value →
    contents (fill buffer world).2 other = some value
  stays : ∀ buffer world, (contents world buffer).isSome →
    (contents (fill buffer world).2 buffer).isSome

theorem fill_buffer_keeps (allocs : hooks.bufferAlloc = some exports.bufferAlloc)
    (frees : hooks.bufferFree = some exports.bufferFree)
    (laws : ContentsLaws contents hooks exports.kernels) (fills : Fills contents fill) (world : σ) :
    Preserves contents world (fillBuffer exports fill world).2 := by
  rcases made : exports.bufferAlloc world with ⟨none | buffer, allocated⟩
  all_goals
    have kept := laws.allocates _ allocs world
    rw [made] at kept
  · have failed : makeBuffer exports world =
        (.error "BuiltinBackend: toyfhe_fhn_buffer_alloc failed", allocated) := by
      simp only [makeBuffer, made]
    rw [fillBuffer, bind_failed failed]
    exact kept
  · have fresh := laws.allocated _ allocs world buffer (by rw [made])
    rw [made] at fresh
    have returned : makeBuffer exports world = (.ok buffer, allocated) := by
      simp only [makeBuffer, made]
    have others : ∀ other value, contents world other = some value → other ≠ buffer := by
      rintro other value held rfl
      rw [fresh.1] at held
      cases held
    rw [fillBuffer, bind_returned returned]
    rcases filled : fill buffer allocated with ⟨message | done, after⟩
    all_goals
      have elsewhere := fills.elsewhere buffer allocated
      have stays := fills.stays buffer allocated fresh.2
      rw [filled] at elsewhere stays
    · have freed : onFailure (fill buffer) (exports.bufferFree (some buffer)) allocated =
          (.error message, exports.bufferFree (some buffer) after) := by
        simp only [onFailure, filled]
      rw [bind_failed freed]
      intro other value held
      exact laws.freed _ frees after buffer stays other value (others other value held)
        (elsewhere other value (others other value held) (kept other value held))
    · have returns : onFailure (fill buffer) (exports.bufferFree (some buffer)) allocated =
          (.ok done, after) := by
        simp only [onFailure, filled]
      rw [bind_returned returns]
      intro other value held
      exact elsewhere other value (others other value held) (kept other value held)

theorem fill_buffer_filled {world after : σ} {buffer : Ptr}
    (returned : fillBuffer exports fill world = (.ok buffer, after)) :
    ∃ allocated, exports.bufferAlloc world = (some buffer, allocated) ∧
      fill buffer allocated = (.ok (), after) := by
  obtain ⟨raw, allocated, made, rest⟩ := returned_bind returned
  obtain ⟨_, filled, succeeded, final⟩ := returned_bind rest
  obtain ⟨rfl, rfl⟩ : raw = buffer ∧ filled = after := by
    obtain ⟨value, state⟩ := Prod.mk.inj final
    exact ⟨Except.ok.inj value, state⟩
  refine ⟨allocated, ?_, ?_⟩
  · rcases allocation : exports.bufferAlloc world with ⟨none | fresh, next⟩
    · simp only [makeBuffer, allocation] at made
      cases (Prod.mk.inj made).1
    · simp only [makeBuffer, allocation] at made
      obtain ⟨value, state⟩ := Prod.mk.inj made
      rw [Except.ok.inj value, state]
  · rcases outcome : fill raw allocated with ⟨message | done, next⟩
    · simp only [onFailure, outcome] at succeeded
      cases (Prod.mk.inj succeeded).1
    · simp only [onFailure, outcome] at succeeded
      exact Prod.ext rfl (Prod.mk.inj succeeded).2

end Filling

/-- `encrypt_i64` writes the buffer it is given. -/
structure EncryptsI64 [IntCast V] (model : DeviceModel Ptr σ V κ) (whole : σ → Ptr → Option W)
    (exports : Exports Ptr σ) : Prop where
  elsewhere : ∀ buffer value world other held, other ≠ buffer → whole world other = some held →
    whole (exports.encryptI64 (some buffer) value world).2 other = some held
  stays : ∀ buffer value world, (whole world buffer).isSome →
    (whole (exports.encryptI64 (some buffer) value world).2 buffer).isSome
  filled : ∀ buffer value world, (model.contents world buffer).isSome →
    (exports.encryptI64 (some buffer) value world).1 = 0 →
      model.contents (exports.encryptI64 (some buffer) value world).2 buffer =
        some ((value : Int) : V)

/-- The exports follow the ABI, and all live buffers are on the device. -/
structure ExportLaws [DecidableEq Ptr] [Add V] [Mul V] [IntCast V] (model : DeviceModel Ptr σ V κ)
    (whole : σ → Ptr → Option W) (hooks : FhnMovementHooks Ptr σ) (exports : Exports Ptr σ) :
    Prop where
  hookLaws : HookLaws model hooks exports.bufferAlloc exports.bufferFree
  kernelLaw : KernelLaw model exports.kernels
  exact : ExactKernels model exports.kernels
  contentsLaws : ContentsLaws whole hooks exports.kernels
  seen : ∀ world after, Preserves whole world after → Preserves model.contents world after
  encrypts : EncryptsI64 model whole exports
  resident : ∀ world buffer cell, model.cell world buffer = some cell → cell.resident = true

variable [DecidableEq Ptr] [Add V] [Mul V] [IntCast V] {model : DeviceModel Ptr σ V κ}
  {whole : σ → Ptr → Option W} {hooks : FhnMovementHooks Ptr σ} {exports : Exports Ptr σ} {this : Nat}

theorem resident_memory (laws : ExportLaws model whole hooks exports) : OneMemory model hooks :=
  fun _ => laws.resident

theorem resident_keeps (laws : ExportLaws model whole hooks exports) {world after : σ}
    (preserves : Preserves model.contents world after) : KeepsCells model world after := by
  intro buffer cell live
  have held : model.contents world buffer = some cell.contents := by
    rw [DeviceModel.contents, live, Option.map_some]
  obtain ⟨kept, still, same⟩ := Option.map_eq_some_iff.mp (preserves buffer _ held)
  have here := laws.resident world buffer cell live
  have there := laws.resident after buffer kept still
  rw [still]
  cases kept
  cases cell
  simp only at same here there
  rw [same, here, there]

theorem encrypt_fills (laws : ExportLaws model whole hooks exports) (value : Int) :
    Fills whole fun buffer world =>
      (if (exports.encryptI64 (some buffer) value world).1 ≠ 0 then
          .error "BuiltinBackend: toyfhe_fhn_encrypt_i64 failed" else .ok (),
        (exports.encryptI64 (some buffer) value world).2) where
  elsewhere := fun buffer world other held apart kept =>
    laws.encrypts.elsewhere buffer value world other held apart kept
  stays := fun buffer world live => laws.encrypts.stays buffer value world live

theorem allocated_seen (laws : ExportLaws model whole hooks exports) {world allocated : σ}
    {buffer : Ptr} (made : exports.bufferAlloc world = (some buffer, allocated)) :
    model.contents world buffer = none ∧ (model.contents allocated buffer).isSome ∧
      Preserves model.contents world allocated := by
  obtain ⟨fresh, value, returned, dead, cells, -⟩ := laws.hookLaws.allocated world
  rw [made] at returned cells
  obtain rfl : buffer = fresh := Option.some.inj returned
  refine ⟨?_, ?_, ?_⟩
  · rw [DeviceModel.contents, dead, Option.map_none]
  · rw [DeviceModel.contents, cells, if_pos rfl]
    rfl
  · intro other held live
    have apart : other ≠ buffer := by
      rintro rfl
      rw [DeviceModel.contents, dead] at live
      cases live
    rw [DeviceModel.contents, cells, if_neg apart]
    exact live

theorem encrypt_keeps (laws : ExportLaws model whole hooks exports) (value : Int) (world : σ) :
    Preserves whole world (encrypt exports value world).2 :=
  fill_buffer_keeps laws.hookLaws.allocHook laws.hookLaws.freeHook laws.contentsLaws
    (encrypt_fills laws value) world

theorem builtin_encrypt_law (laws : ExportLaws model whole hooks exports)
    (place : Nat → Finset Address → Address) (unused : ∀ count live, place count live ∉ live) :
    EncryptLaw model hooks
      (builtinHost exports this place unused : Host Address Ptr Profile σ) where
  keeps := by
    intro profile value world
    exact resident_keeps laws (laws.seen _ _ (encrypt_keeps laws value world))
  filled := by
    intro profile value world buffer after returned
    obtain ⟨allocated, made, filled⟩ := fill_buffer_filled returned
    obtain ⟨-, fresh, -⟩ := allocated_seen laws made
    obtain ⟨code, final⟩ := Prod.mk.inj filled
    have success : (exports.encryptI64 (some buffer) value allocated).1 = 0 := by
      by_contra failed
      rw [if_pos failed] at code
      cases code
    have holds := laws.encrypts.filled buffer value allocated fresh success
    rw [final] at holds
    obtain ⟨cell, live, same⟩ := Option.map_eq_some_iff.mp holds
    exact ⟨cell, live, same, fun _ => laws.resident after buffer cell live⟩

theorem single_op_fills (laws : ExportLaws model whole hooks exports) (op : FhnOpCode) (a b : Option Ptr)
    (fparam : Rat) :
    Fills whole fun result world =>
      (if (executePlain exports.kernels (singleOp op b.isSome fparam) (singleBuffers a b result)
            world).1 ≠ 0 then
          .error s!"BuiltinBackend: FHN executor failed with rc={(executePlain exports.kernels
            (singleOp op b.isSome fparam) (singleBuffers a b result) world).1}" else .ok (),
        (executePlain exports.kernels (singleOp op b.isSome fparam) (singleBuffers a b result)
          world).2) where
  elsewhere := by
    intro result world other held apart kept
    simp only [single_op_dispatched, dispatch_instruction_eq]
    apply calls_keep laws.contentsLaws _ _ kept
    rw [single_result]
    exact fun same => apart (Option.some.inj same).symm
  stays := by
    intro result world live
    simp only [single_op_dispatched, dispatch_instruction_eq]
    exact calls_stay laws.contentsLaws _ live

theorem single_op_keeps (laws : ExportLaws model whole hooks exports) (op : FhnOpCode) (a b : Option Ptr)
    (fparam : Rat) (world : σ) :
    Preserves model.contents world (runSingleOp exports op a b fparam world).2 :=
  laws.seen _ _ (fill_buffer_keeps laws.hookLaws.allocHook laws.hookLaws.freeHook
    laws.contentsLaws (single_op_fills laws op a b fparam) world)

theorem single_op_filled (laws : ExportLaws model whole hooks exports) (op : FhnOpCode)
    (reads : readSlots op = [0, 1]) {a b buffer : Ptr} {first second value : V} {world after : σ}
    (left : model.contents world a = some first) (right : model.contents world b = some second)
    (computes : ∀ state : ValueState V κ, state.values 1 = some first →
      state.values 2 = some second →
        Computes model exports.kernels (singleInstruction op true 0) state value)
    (returned : runSingleOp exports op (some a) (some b) 0 world = (.ok buffer, after)) :
    model.contents after buffer = some value := by
  obtain ⟨allocated, made, filled⟩ := fill_buffer_filled returned
  obtain ⟨dead, fresh, kept⟩ := allocated_seen laws made
  have apart {other : Ptr} {held : V} (live : model.contents world other = some held) :
      other ≠ buffer := by
    rintro rfl
    rw [dead] at live
    cases live
  obtain ⟨code, final⟩ := Prod.mk.inj filled
  simp only [single_op_dispatched, Option.isSome_some] at code final
  have held {id : Nat} {raw : Ptr} {contents : V}
      (stored : singleBuffers (some a) (some b) buffer id = some raw)
      (live : model.contents allocated raw = some contents)
      (known : Option V) (agrees : ∀ value, known = some value → contents = value) :
      ∃ raw cell, singleBuffers (some a) (some b) buffer id = some raw ∧
        model.cell allocated raw = some cell ∧ (True → cell.resident = true) ∧
        ∀ value, known = some value → cell.contents = value := by
    obtain ⟨cell, found, same⟩ := Option.map_eq_some_iff.mp live
    exact ⟨raw, cell, stored, found, fun _ => laws.resident allocated raw cell found,
      fun value known => same.trans (agrees value known)⟩
  obtain ⟨rest, restLive⟩ := Option.isSome_iff_exists.mp fresh
  let values : ValueState V κ :=
    { context := model.context allocated
      values := fun id => if id = 1 then some first else if id = 2 then some second else none }
  have tracks : Tracks model (fun id => id = 1 ∨ id = 2) {1, 2, 3} (fun _ => True)
      (singleBuffers (some a) (some b) buffer) allocated values := by
    refine ⟨rfl, ?_, ?_⟩
    · intro id member
      simp only [Finset.mem_insert, Finset.mem_singleton] at member
      rcases member with rfl | rfl | rfl
      · exact held rfl (kept a first left) _ fun value known => Option.some.inj known
      · exact held rfl (kept b second right) _ fun value known => Option.some.inj known
      · exact held rfl restLive _ fun value known => by cases known
    · intro one first two second same
      simp only [Finset.mem_insert, Finset.mem_singleton] at first second
      rcases first with rfl | rfl | rfl <;> rcases second with rfl | rfl | rfl
      · exact Or.inl rfl
      · exact Or.inr ⟨Or.inl rfl, Or.inr rfl⟩
      · exact absurd (Option.some.inj same) (apart left)
      · exact Or.inr ⟨Or.inr rfl, Or.inl rfl⟩
      · exact Or.inl rfl
      · exact absurd (Option.some.inj same) (apart right)
      · exact absurd (Option.some.inj same).symm (apart left)
      · exact absurd (Option.some.inj same).symm (apart right)
      · exact Or.inl rfl
  have operands : OperandsTracked (singleInstruction op true 0) {1, 2, 3} (fun _ => True)
      values := by
    intro slot used
    fin_cases slot
    · exact ⟨by simp [singleInstruction], trivial, rfl⟩
    · exact ⟨by simp [singleInstruction], trivial, rfl⟩
    · exact absurd rfl used
    · exact absurd rfl used
  have present : ∀ slot ∈ readSlots (singleInstruction op true 0).opcode,
      (singleInstruction op true 0).operands slot ≠ 0 := by
    have slots : readSlots (singleInstruction op true 0).opcode = [0, 1] := reads
    rw [slots]
    intro slot member
    simp only [List.mem_cons, List.not_mem_nil, or_false] at member
    rcases member with rfl | rfl <;> simp [singleInstruction]
  obtain ⟨-, -, next⟩ := dispatch_tracks laws.kernelLaw (fun _ => True)
    (fun _ _ _ _ _ => trivial) present (by simp [singleInstruction]) trivial
    (by simp [singleInstruction]) allocated values operands tracks trivial
  obtain ⟨success, computed⟩ := computes values rfl rfl
  have finished := next success
  rw [final] at finished
  obtain ⟨raw, cell, stored, live, -, agrees⟩ := finished.held 3 (by simp)
  obtain rfl : buffer = raw := Option.some.inj stored
  have same := agrees value computed
  rw [DeviceModel.contents, live, Option.map_some, same]

omit [DecidableEq Ptr] [Add V] [Mul V] [IntCast V] in
theorem supplied_operand {backend : Nat} {world : σ} {entity : Object Ptr Profile} {value : V}
    (supplies : Supplies model hooks backend world entity.toFhenon value) (opName : String) :
    holdsCiphertext entity = true ∧ ∃ shared buffer, bufferOf backend entity opName world =
        (.ok shared, world) ∧ shared.raw = some buffer ∧
      model.contents world buffer = some value := by
  obtain ⟨ciphertext, buffer, cell, crypted, raw, live, same, -⟩ := supplies
  refine ⟨?_, ciphertext.buffer, buffer, ?_, raw, ?_⟩
  · rw [holdsCiphertext, crypted.flag, crypted.stored]
    rfl
  · simp only [bufferOf, crypted.stored, crypted.owner, ne_eq, not_true_eq_false, if_false]
    rfl
  · rw [DeviceModel.contents, live, Option.map_some, same]

omit [DecidableEq Ptr] in
theorem buffer_of_keeps (this : Nat) (entity : Object Ptr Profile) (opName : String) (world : σ) :
    (bufferOf this entity opName world).2 = world := by
  unfold bufferOf
  cases entity.ciphertext with
  | none => rfl
  | some ct =>
      dsimp only
      split_ifs <;> rfl

def binaryOperator (exports : Exports Ptr σ) (this : Nat) (op : FhnOpCode)
    (refusal opName : String) (a b : Object Ptr Profile) : Computation σ String Ptr :=
  if !holdsCiphertext a || !holdsCiphertext b then fail refusal
  else do
    let ctA ← bufferOf this a opName
    let ctB ← bufferOf this b opName
    runSingleOp exports op ctA.raw ctB.raw 0

theorem binary_keeps (laws : ExportLaws model whole hooks exports) (op : FhnOpCode)
    (refusal opName : String) (a b : Object Ptr Profile) (world : σ) :
    Preserves model.contents world (binaryOperator exports this op refusal opName a b world).2 := by
  have unchanged : Preserves model.contents world world := fun _ _ held => held
  unfold binaryOperator
  split
  · exact unchanged
  rcases first : bufferOf this a opName world with ⟨message | ctA, reached⟩
  all_goals
    obtain rfl : reached = world := by
      have same := buffer_of_keeps this a opName world
      rw [first] at same
      exact same
  · rw [bind_failed first]
    exact unchanged
  rw [bind_returned first]
  rcases second : bufferOf this b opName reached with ⟨message | ctB, last⟩
  all_goals
    obtain rfl : last = reached := by
      have same := buffer_of_keeps this b opName reached
      rw [second] at same
      exact same
  · rw [bind_failed second]
    exact unchanged
  · rw [bind_returned second]
    exact single_op_keeps laws op ctA.raw ctB.raw 0 last

theorem binary_filled (laws : ExportLaws model whole hooks exports) (op : FhnOpCode)
    (reads : readSlots op = [0, 1]) (refusal opName : String) {a b : Object Ptr Profile}
    {world after : σ} {first second value : V} {buffer : Ptr}
    (left : Supplies model hooks this world a.toFhenon first)
    (right : Supplies model hooks this world b.toFhenon second)
    (computes : ∀ state : ValueState V κ, state.values 1 = some first →
      state.values 2 = some second →
        Computes model exports.kernels (singleInstruction op true 0) state value)
    (returned : binaryOperator exports this op refusal opName a b world = (.ok buffer, after)) :
    model.contents after buffer = some value := by
  obtain ⟨holdsA, ctA, rawA, bufferA, storedA, contentsA⟩ := supplied_operand left opName
  obtain ⟨holdsB, ctB, rawB, bufferB, storedB, contentsB⟩ := supplied_operand right opName
  unfold binaryOperator at returned
  rw [holdsA, holdsB] at returned
  simp only [Bool.not_true, Bool.or_self, Bool.false_eq_true, if_false] at returned
  rw [bind_returned bufferA, bind_returned bufferB, storedA, storedB] at returned
  exact single_op_filled laws op reads contentsA contentsB computes returned

theorem builtin_compute_law (laws : ExportLaws model whole hooks exports) :
    ComputeLaw model hooks this
      (evaluator exports this : Arithmetic → Object Ptr Profile → Object Ptr Profile → _) where
  keeps := by
    intro operator a b world
    cases operator with
    | add => exact binary_keeps laws .addCC _ _ a b world
    | multiply => exact binary_keeps laws .hmult _ _ a b world
  filled := by
    intro operator a b world first second buffer after left right returned
    have operand {op : FhnOpCode} {state : ValueState V κ} {slot : Fin 4} {id : Nat} {value : V}
        (nonzero : id ≠ 0) (named : (singleInstruction op true 0).operands slot = id)
        (known : state.values id = some value) :
        OperandValue (singleInstruction op true 0) state slot value := by
      rw [OperandValue, named]
      exact ⟨nonzero, known⟩
    cases operator with
    | add =>
        refine binary_filled laws .addCC rfl _ _ left right ?_ returned
        exact fun state one two => laws.exact.addCC _ state first second rfl
          (operand (by decide) rfl one) (operand (by decide) rfl two)
    | multiply =>
        refine binary_filled laws .hmult rfl _ _ left right ?_ returned
        exact fun state one two => laws.exact.hmult _ state first second rfl
          (operand (by decide) rfl one) (operand (by decide) rfl two)

end Fhenomenon.BuiltinLaws
