import Fhenomenon.AtomicRuns

/-!
# Runs one after another

What a caller who gives one body after another to a session finds in his
variables. A run that returns gives every variable a ciphertext of the backend,
with the eager value unless a stale one flowed into it; a run that throws leaves
the ciphertexts as they were. Either way the next run may begin.
-/

namespace Fhenomenon.SuccessiveRuns

open Fhenomenon.Lib.Fallible Fhenomenon.DefaultExecutor Fhenomenon.DeviceAbi
open Fhenomenon.RecordedGraph Fhenomenon.LoweringSound Fhenomenon.SessionRuntime
open Fhenomenon.SessionRefinement Fhenomenon.WriteBack Fhenomenon.Recording
open Fhenomenon.SessionBodies Fhenomenon.RecordingFrame Fhenomenon.RecordedStore
open Fhenomenon.BodyMeaning Fhenomenon.MirroredExpressions Fhenomenon.MirroredBodies
open Fhenomenon.ValueSemantics Fhenomenon.UntouchedBuffers Fhenomenon.AtomicRuns

section Entities

variable {Entity Ptr σ : Type*} [DecidableEq Entity] {backend : Nat}

/-- The entity is left alone, or gets a ciphertext of this backend. -/
def Rewritten (backend : Nat) (before after : Fhenon Ptr) : Prop :=
  after = before ∨ ∃ ciphertext, ciphertext.owner = backend ∧
    after = { before with ciphertext := some ciphertext, isEncrypted := true }

theorem rewritten_refl (entity : Fhenon Ptr) : Rewritten backend entity entity := Or.inl rfl

theorem rewritten_trans {before middle after : Fhenon Ptr} (first : Rewritten backend before middle)
    (second : Rewritten backend middle after) : Rewritten backend before after := by
  rcases second with rfl | ⟨ciphertext, owner, rfl⟩
  · exact first
  · rcases first with rfl | ⟨earlier, _, rfl⟩
    · exact Or.inr ⟨ciphertext, owner, rfl⟩
    · exact Or.inr ⟨ciphertext, owner, rfl⟩

theorem write_back_rewrites (hold : Nat → SharedBuffer Ptr) (buffers : Buffers Ptr)
    (latest : List (Entity × Nat)) (entities : Entity → Fhenon Ptr) (state : Adoption Ptr)
    (entity : Entity) :
    Rewritten backend (entities entity)
      ((writeBack backend hold buffers latest entities state).1 entity) := by
  induction latest generalizing entities state with
  | nil => exact rewritten_refl _
  | cons bound rest induction =>
      obtain ⟨other, id⟩ := bound
      apply rewritten_trans _ (induction _ _)
      by_cases same : entity = other
      · rw [same, Function.update_self]
        exact Or.inr ⟨_, rfl, rfl⟩
      · rw [Function.update_of_ne same]
        exact rewritten_refl _

variable {hooks : FhnMovementHooks Ptr σ} {dispatch : Dispatch Ptr σ}
  {state final : RunState Entity Ptr σ}

theorem runtime_rewrites {roots : List (ASTNode Entity)} {answer : Bool}
    (ran : executeThroughFhnRuntime backend hooks dispatch roots state = (.ok answer, final))
    (entity : Entity) : Rewritten backend (state.entities entity) (final.entities entity) := by
  rcases lowered : Lowering.lower state.entities roots with ⟨none | program, bindings⟩
  · simp only [executeThroughFhnRuntime, lowered] at ran
    rw [← (Prod.mk.inj ran).2]
    exact rewritten_refl _
  simp only [executeThroughFhnRuntime, lowered] at ran
  split_ifs at ran with unbound
  · rw [← (Prod.mk.inj ran).2]
    exact rewritten_refl _
  split at ran
  · cases (Prod.mk.inj ran).1
  split at ran
  · cases (Prod.mk.inj ran).1
  split_ifs at ran with missing nonzero
  · cases (Prod.mk.inj ran).1
  · cases (Prod.mk.inj ran).1
  · rw [← (Prod.mk.inj ran).2]
    exact write_back_rewrites _ _ _ _ _ _

theorem optimize_rewrites {poison : Option String} {operations : List (Operation Entity)}
    {answer : Bool}
    (ran : optimize backend hooks dispatch poison operations state = (.ok answer, final))
    (entity : Entity) : Rewritten backend (state.entities entity) (final.entities entity) := by
  unfold optimize at ran
  split at ran
  · cases (Prod.mk.inj ran).1
  split_ifs at ran with empty
  · rw [← (Prod.mk.inj ran).2]
    exact rewritten_refl _
  split at ran
  · cases (Prod.mk.inj ran).1
  · exact runtime_rewrites ran entity

end Entities

variable {Address Ptr Profile σ V W κ : Type} [DecidableEq Address] [Add V] [Mul V] [IntCast V]

/-- Without a prefetch hook there is one memory, so all live buffers are on the device. -/
def OneMemory (model : DeviceModel Ptr σ V κ) (hooks : FhnMovementHooks Ptr σ) : Prop :=
  hooks.prefetch = none → ∀ world buffer cell, model.cell world buffer = some cell →
    cell.resident = true

/-- Hooks, kernels and encryption keep what the ABI promises, on failures too. What a failure
leaves alone is said of `whole`, of which `model` may see a part. -/
structure KeepsPromises [DecidableEq Ptr] (model : DeviceModel Ptr σ V κ)
    (whole : σ → Ptr → Option W) (hooks : FhnMovementHooks Ptr σ) (alloc : σ → Option Ptr × σ)
    (free : Option Ptr → σ → σ) (dispatch : Dispatch Ptr σ) (host : Host Address Ptr Profile σ) :
    Prop where
  hookLaws : HookLaws model hooks alloc free
  kernelLaw : KernelLaw model dispatch
  exact : ExactKernels model dispatch
  contentsLaws : ContentsLaws whole hooks dispatch
  encryptPreserves : EncryptPreserves whole host
  encryptLaw : EncryptLaw model hooks host
  seen : ∀ world after, Preserves whole world after → Preserves model.contents world after
  oneMemory : OneMemory model hooks

/-- The caller's variables hold `values`, and a run may begin. -/
structure Standing (model : DeviceModel Ptr σ V κ) (hooks : FhnMovementHooks Ptr σ)
    (backend : Nat) (outer : Address → Prop) (values : Address → V)
    (state : State Address Ptr Profile σ) : Prop where
  ready : Ready outer state
  inactive : state.session.active = false
  supplied : Supplied model hooks backend outer values state
  profiled : ∀ address, outer address → (state.objects address).profile.isSome

variable {model : DeviceModel Ptr σ V κ} {hooks : FhnMovementHooks Ptr σ}
  {host : Host Address Ptr Profile σ} {outer : Address → Prop} {values : Address → V}
  {state later final : State Address Ptr Profile σ}

omit [DecidableEq Address] [Add V] [Mul V] [IntCast V] in
theorem keeps_cells_preserves {world after : σ} (keeps : KeepsCells model world after) :
    Preserves model.contents world after := by
  intro buffer value held
  obtain ⟨cell, live, contents⟩ := Option.map_eq_some_iff.mp held
  rw [DeviceModel.contents, keeps buffer cell live, Option.map_some, contents]

omit [DecidableEq Address] [Add V] [Mul V] [IntCast V] in
theorem preserves_trans {contents : σ → Ptr → Option V} {first second third : σ}
    (one : Preserves contents first second) (two : Preserves contents second third) :
    Preserves contents first third :=
  fun buffer value held => two buffer value (one buffer value held)

omit [Add V] [Mul V] [DecidableEq Address] in
theorem encrypt_preserves (law : EncryptLaw model hooks host) :
    EncryptPreserves model.contents host :=
  fun profile value world => keeps_cells_preserves (law.keeps profile value world)

omit [DecidableEq Address] [Add V] [Mul V] [IntCast V] in
theorem supplies_preserved (memory : OneMemory model hooks) {backend : Nat} {world after : σ}
    (preserves : Preserves model.contents world after) {entity : Fhenon Ptr} {value : V}
    (supplies : Supplies model hooks backend world entity value) :
    Supplies model hooks backend after entity value := by
  obtain ⟨ciphertext, buffer, cell, encrypted, raw, live, contents, -⟩ := supplies
  have held : model.contents world buffer = some value := by
    rw [DeviceModel.contents, live, Option.map_some, contents]
  obtain ⟨kept, still, same⟩ := Option.map_eq_some_iff.mp (preserves buffer value held)
  exact ⟨ciphertext, buffer, kept, encrypted, raw, still, same,
    fun absent => memory absent after buffer kept still⟩

omit [DecidableEq Address] [Add V] [Mul V] [IntCast V] in
theorem rewritten_supplies (memory : OneMemory model hooks) {backend : Nat} {world after : σ}
    {entity written : Fhenon Ptr} {value held : V}
    (supplies : Supplies model hooks backend world entity value)
    (rewritten : Rewritten backend entity written)
    (holds : heldValue model after written = some held) :
    Supplies model hooks backend after written held := by
  have encrypted : ∃ ciphertext, written.isEncrypted = true ∧
      written.ciphertext = some ciphertext ∧ ciphertext.owner = backend := by
    rcases rewritten with rfl | ⟨ciphertext, owner, rfl⟩
    · obtain ⟨ciphertext, -, -, own, -⟩ := supplies
      exact ⟨ciphertext, own.flag, own.stored, own.owner⟩
    · exact ⟨ciphertext, rfl, rfl, owner⟩
  obtain ⟨ciphertext, flag, stored, owner⟩ := encrypted
  rw [heldValue, if_pos flag, stored, Option.bind_some] at holds
  obtain ⟨buffer, raw, contents⟩ := Option.bind_eq_some_iff.mp holds
  obtain ⟨cell, live, same⟩ := Option.map_eq_some_iff.mp contents
  refine ⟨ciphertext, buffer, cell, ⟨flag, stored, owner, ?_⟩, raw, live, same,
    fun absent => memory absent after buffer cell live⟩
  rw [raw]
  rfl

omit [DecidableEq Address] [Add V] [Mul V] [IntCast V] in
theorem rewritten_plain {backend : Nat} {entity written : Fhenon Ptr}
    (rewritten : Rewritten backend entity written) : written.isScalar = entity.isScalar := by
  rcases rewritten with rfl | ⟨ciphertext, _, rfl⟩ <;> rfl

omit [Add V] [Mul V] [IntCast V] in
theorem end_run_ready (alive : ∀ address, outer address → address ∈ state.live)
    (single : ∀ address, outer address → (state.objects address).shared = false)
    (noLocals : state.locals = []) (noTemporaries : state.temporaries = []) :
    Ready outer (endRun state) where
  noOperations := rfl
  unpoisoned := rfl
  ownEntries := by
    intro key target entry
    cases entry
  outerAlive := by
    intro address caller
    have unowned : ¬ownedByOperations state address = true := by
      rw [ownedByOperations, single address caller, Bool.false_and]
      exact Bool.false_ne_true
    exact ⟨Finset.mem_filter.mpr ⟨alive address caller, unowned⟩, single address caller⟩
  noLocals := noLocals
  noTemporaries := noTemporaries

theorem optimize_session_rewrites {dispatch : Dispatch Ptr σ} {backend : Nat}
    {evaluateGraph : Recorder Address Ptr Profile σ Unit}
    (ran : optimizeSession backend hooks dispatch evaluateGraph state = (.ok (), final)) :
    final.live = state.live ∧ final.locals = state.locals ∧
      final.temporaries = state.temporaries ∧
      ∀ address, (final.objects address).shared = (state.objects address).shared ∧
        (final.objects address).profile = (state.objects address).profile ∧
        Rewritten backend (state.objects address).toFhenon (final.objects address).toFhenon := by
  have answers : (optimize backend hooks dispatch state.session.poison state.session.operations
      (runState state)).1 ≠ .ok false := optimize_answers _ _
  unfold optimizeSession at ran
  rcases outcome : optimize backend hooks dispatch state.session.poison state.session.operations
    (runState state) with ⟨message | answer, after⟩
  · rw [outcome] at ran
    cases (Prod.mk.inj ran).1
  · rw [outcome] at ran answers
    cases answer with
    | false => exact absurd rfl answers
    | true =>
        obtain rfl := (Prod.mk.inj ran).2
        exact ⟨rfl, rfl, rfl, fun address => ⟨rfl, rfl, optimize_rewrites outcome address⟩⟩

variable {backend : Nat} {dispatch : Dispatch Ptr σ}
  {evaluateGraph : Recorder Address Ptr Profile σ Unit} {body : List (Statement Address)}

omit [Add V] [Mul V] [IntCast V] in
/-- Where a failed run ends, for any failure. -/
theorem failed_run_unharmed {contents : σ → Ptr → Option V}
    (laws : ContentsLaws contents hooks dispatch) (encrypts : EncryptPreserves contents host)
    (ready : Ready outer state) {failure : Failure}
    (failed : run host backend hooks dispatch evaluateGraph body state =
      (.error failure, final)) :
    ∃ reached, final = endRun reached ∧ Unharmed outer contents state reached ∧
      reached.locals = [] ∧ reached.temporaries = [] := by
  rw [run, bind_change_apply, ensuring] at failed
  obtain ⟨threw, ended⟩ := Prod.mk.inj failed
  refine ⟨_, ended.symm, ?_⟩
  have unharmed := harmless_record encrypts body (activate state) (activate_unharmed ready)
  have none : NoTemporaries (record host body (activate state)).2 :=
    (record_temporaries body).keeps (activate state) ready.noTemporaries
  have noLocals : (record host body (activate state)).2.locals = [] := rfl
  rcases recorded : record host body (activate state) with ⟨failure | returned, reached⟩
  · rw [recorded] at none noLocals
    have safe := ends_failed unharmed recorded
    rw [bind_failed recorded]
    exact ⟨safe, noLocals, none⟩
  · rw [recorded] at none noLocals
    rw [bind_returned recorded] at threw ⊢
    obtain ⟨safe, locals, temporaries⟩ := optimize_session_unharmed laws
      (ends_returned unharmed recorded).1 (Prod.ext threw rfl)
    exact ⟨safe, locals.trans noLocals, temporaries.trans none⟩

omit [Add V] [Mul V] [IntCast V] in
/-- A run that throws leaves the caller's variables with the values they had. -/
theorem failed_run_stands {whole : σ → Ptr → Option W}
    (laws : ContentsLaws whole hooks dispatch) (encrypts : EncryptPreserves whole host)
    (seen : ∀ world after, Preserves whole world after → Preserves model.contents world after)
    (memory : OneMemory model hooks)
    (standing : Standing model hooks host.backend outer values state) {failure : Failure}
    (failed : run host backend hooks dispatch evaluateGraph body state =
      (.error failure, final)) :
    Standing model hooks host.backend outer values final := by
  obtain ⟨reached, rfl, unharmed, noLocals, noTemporaries⟩ :=
    failed_run_unharmed laws encrypts standing.ready failed
  refine ⟨end_run_ready unharmed.alive ?_ noLocals noTemporaries, rfl, ⟨?_, ?_⟩, ?_⟩
  · intro address caller
    rw [unharmed.objects address caller]
    exact (standing.ready.outerAlive address caller).2
  · intro address caller
    have same : (endRun reached).objects address = state.objects address :=
      unharmed.objects address caller
    rw [same]
    exact supplies_preserved memory (seen _ _ unharmed.contents)
      (standing.supplied.buffers address caller)
  · intro address caller
    have same : (endRun reached).objects address = state.objects address :=
      unharmed.objects address caller
    rw [same]
    exact standing.supplied.plain address caller
  · intro address caller
    have same : (endRun reached).objects address = state.objects address :=
      unharmed.objects address caller
    rw [same]
    exact standing.profiled address caller

/-- The flow of a body that begins with stale variables of the caller. -/
def staleFlow (stale : Address → Bool) : Flow Address where
  stale
    | .outer address => stale address
    | .inner _ => false

/-- The caller's variables that are stale after a body. -/
def staleAfter (stale : Address → Bool) (body : List (Statement Address)) (address : Address) :
    Bool :=
  (body.foldl Flow.through (staleFlow stale)).stale (.outer address)

/-- The variables that are not stale have the expected values. -/
def Expected (outer : Address → Prop) (stale : Address → Bool) (expected values : Address → V) :
    Prop :=
  ∀ address, outer address → stale address = false → values address = expected address

theorem activate_expected (ready : Ready outer state)
    (supplied : Supplied model hooks host.backend outer values state) {stale : Address → Bool}
    {expected : Address → V} (agrees : Expected outer stale expected values) :
    Mirrors model hooks host.backend outer values (staleFlow stale) { outer := expected }
      (activate state) := by
  have start := activate_mirrors ready supplied
  constructor
  · exact start.ongoing
  · exact start.grounded
  · exact start.declared
  · exact start.tracked
  · exact start.numbered
  · exact start.owned
  · exact start.results
  · intro name other first second one two
    rw [start.shared name other first second one two]
    cases name <;> cases other <;> exact Iff.rfl
  · intro name address located fresh
    cases name with
    | outer caller =>
        have before := start.agrees (.outer caller) address located rfl
        have same : values caller = expected caller := agrees caller located.1 fresh
        rw [get_outer] at before ⊢
        exact (congrArg some same).symm.trans before
    | inner index => exact start.agrees (.inner index) address located rfl

variable [DecidableEq Ptr] {whole : σ → Ptr → Option W} {alloc : σ → Option Ptr × σ}
  {free : Option Ptr → σ → σ}

/-- A run that returns leaves the caller's variables with values of the backend, those that are
not stale with the eager ones. -/
theorem returned_run_stands (promises : KeepsPromises model whole hooks alloc free dispatch host)
    (standing : Standing model hooks host.backend outer values state) {stale : Address → Bool}
    {expected : Address → V} (agrees : Expected outer stale expected values)
    (uses : ∀ statement ∈ body, Uses outer statement)
    (returned : run host host.backend hooks dispatch evaluateGraph body state =
      (.ok (), final)) :
    ∃ after now, executeBody body { outer := expected } = some after ∧
      Standing model hooks host.backend outer now final ∧
      Expected outer (staleAfter stale body) after.outer now := by
  have ready := standing.ready
  rw [run, bind_change_apply] at returned
  obtain ⟨reached, inside, ended⟩ := returned_ensuring returned
  obtain ⟨_, recorded, records, optimizes⟩ := returned_bind inside
  obtain ⟨later, performed, destroyed⟩ := returned_ensuring records
  obtain ⟨after, executes, mirrors, none⟩ := each_mirrors promises.encryptLaw body uses
    (activate_expected ready standing.supplied agrees) ready.noTemporaries performed
  obtain ⟨last, optimized, held⟩ := optimize_stores promises.hookLaws promises.kernelLaw
    promises.exact evaluateGraph mirrors
  rw [destroyed, optimized] at optimizes
  obtain rfl : last = reached := (Prod.mk.inj optimizes).2
  rw [destroyed] at records
  have unharmed := (ends_returned (harmless_record (encrypt_preserves promises.encryptLaw) body
    (activate state) (activate_unharmed ready)) records).1
  obtain ⟨live, locals, temporaries, objects⟩ := optimize_session_rewrites optimized
  have same (address : Address) (caller : outer address) :
      later.destroyLocals.objects address = state.objects address :=
    unharmed.objects address caller
  rw [ended]
  refine ⟨after, store values later, executes,
    ⟨end_run_ready ?_ ?_ ?_ ?_, rfl, ⟨?_, ?_⟩, ?_⟩, ?_⟩
  · intro address caller
    rw [live]
    exact unharmed.alive address caller
  · intro address caller
    rw [(objects address).1, same address caller]
    exact (ready.outerAlive address caller).2
  · rw [locals]
    rfl
  · rw [temporaries]
    exact destroy_locals_temporaries none
  · intro address caller
    have rewritten := (objects address).2.2
    rw [same address caller] at rewritten
    exact rewritten_supplies promises.oneMemory (standing.supplied.buffers address caller)
      rewritten (held address caller)
  · intro address caller
    have rewritten := (objects address).2.2
    rw [same address caller] at rewritten
    exact (rewritten_plain rewritten).trans (standing.supplied.plain address caller)
  · intro address caller
    have profile : ((endRun last).objects address).profile = (state.objects address).profile :=
      (objects address).2.1.trans (congrArg (·.profile) (same address caller))
    rw [profile]
    exact standing.profiled address caller
  · intro address caller fresh
    have agreed := mirrors.agrees (.outer address) address ⟨caller, rfl⟩ fresh
    rw [(mirrors.ongoing.outerAlive address caller).2.1, get_outer] at agreed
    exact (Option.some.inj agreed).symm

end Fhenomenon.SuccessiveRuns
