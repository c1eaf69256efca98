import Fhenomenon.ValueSemantics

/-!
# Bodies with immediate operators

`operator&` and its siblings call the backend while a session records. They read
the ciphertexts from before the run, and their result object is gone before the
recording can refer to it.
-/

namespace Fhenomenon.MixedBodies

open Fhenomenon.Lib.Fallible Fhenomenon.RecordedGraph Fhenomenon.Recording
open Fhenomenon.EntityMap Fhenomenon.RecordingSteps Fhenomenon.RecordingFrame
open Fhenomenon.SessionBodies Fhenomenon.BodyMeaning Fhenomenon.DefaultExecutor
open Fhenomenon.LiteralRecording Fhenomenon.DeviceAbi Fhenomenon.LoweringSound
open Fhenomenon.SessionRefinement Fhenomenon.RecordedStore Fhenomenon.MirroredExpressions
open Fhenomenon.ValueSemantics

inductive MixedExpr (Address : Type)
  | read (address : Address)
  | combine (operator : Arithmetic) (lhs rhs : MixedExpr Address)
  | immediate (operator : EagerOperator) (lhs rhs : MixedExpr Address)
deriving DecidableEq

/-- Assignments to variables of the caller. -/
inductive MixedStatement (Address : Type)
  | assign (target : Address) (value : MixedExpr Address)
  | assignScalar (target : Address) (scalar : Int)
deriving DecidableEq

variable {Address Ptr Profile σ : Type} [DecidableEq Address]

def evaluateMixed (host : Host Address Ptr Profile σ) :
    MixedExpr Address → Recorder Address Ptr Profile σ Address
  | .read address => pure address
  | .combine operator lhs rhs => do
      let this ← evaluateMixed host lhs
      let other ← evaluateMixed host rhs
      let made ← combine host operator this other
      holdTemporary made
  | .immediate operator lhs rhs => do
      let this ← evaluateMixed host lhs
      let other ← evaluateMixed host rhs
      let made ← evaluateEagerly host operator this other
      holdTemporary made

def performMixed (host : Host Address Ptr Profile σ) :
    MixedStatement Address → Recorder Address Ptr Profile σ Unit
  | .assign target value =>
      ensuring (do
        let other ← evaluateMixed host value
        assign target other) State.destroyTemporaries
  | .assignScalar target scalar => assignScalar host target scalar

/-- `Session::run` on such a body. -/
def runMixed (host : Host Address Ptr Profile σ) (backend : Nat) (hooks : FhnMovementHooks Ptr σ)
    (dispatch : Dispatch Ptr σ) (evaluateGraph : Recorder Address Ptr Profile σ Unit)
    (body : List (MixedStatement Address)) : Recorder Address Ptr Profile σ Unit := do
  change activate
  ensuring (do
    ensuring (each (performMixed host) body) State.destroyLocals
    optimizeSession backend hooks dispatch evaluateGraph) endRun

section Values

variable {V : Type} [Add V] [Mul V] [IntCast V]

/-- `compute` is what the immediate operators compute. -/
def mixedValue (compute : EagerOperator → V → V → V) (values : Address → V) :
    MixedExpr Address → V
  | .read address => values address
  | .combine operator lhs rhs =>
      apply operator (mixedValue compute values lhs) (mixedValue compute values rhs)
  | .immediate operator lhs rhs =>
      compute operator (mixedValue compute values lhs) (mixedValue compute values rhs)

def executeOne (compute : EagerOperator → V → V → V) (values : Address → V) :
    MixedStatement Address → Address → V
  | .assign target value => Function.update values target (mixedValue compute values value)
  | .assignScalar target scalar => Function.update values target (scalar : V)

def executeMixed (compute : EagerOperator → V → V → V) (body : List (MixedStatement Address))
    (values : Address → V) : Address → V :=
  body.foldl (executeOne compute) values

end Values

def usesImmediate : MixedExpr Address → Bool
  | .read _ => false
  | .combine _ lhs rhs => usesImmediate lhs || usesImmediate rhs
  | .immediate _ _ _ => true

def statementImmediate : MixedStatement Address → Bool
  | .assign _ value => usesImmediate value
  | .assignScalar _ _ => false

/-- The body applies only operators that are recorded. -/
def OnlyRecorded (body : List (MixedStatement Address)) : Prop :=
  ∀ statement ∈ body, statementImmediate statement = false

def ReadsOuter (outer : Address → Prop) : MixedExpr Address → Prop
  | .read address => outer address
  | .combine _ lhs rhs => ReadsOuter outer lhs ∧ ReadsOuter outer rhs
  | .immediate _ lhs rhs => ReadsOuter outer lhs ∧ ReadsOuter outer rhs

def AssignsOuter (outer : Address → Prop) : MixedStatement Address → Prop
  | .assign target value => outer target ∧ ReadsOuter outer value
  | .assignScalar target _ => outer target

variable {host : Host Address Ptr Profile σ} {state : State Address Ptr Profile σ}

/-- A session that records; a dead object has no entry but its own. -/
structure Bare (state : State Address Ptr Profile σ) : Prop where
  recording : state.session.active = true
  dead : ∀ key, key ∉ state.live → state.session.canonical key = key

/-- The state after the result of an immediate operator was copied out and dropped. -/
def dropped (host : Host Address Ptr Profile σ) (object : Object Ptr Profile) (world : σ)
    (state : State Address Ptr Profile σ) : State Address Ptr Profile σ :=
  let made : State Address Ptr Profile σ :=
    State.construct (state.nextAddress host) { object with shared := true }
      { state with world := world }
  (copied host (state.nextAddress host) made).destroy (state.nextAddress host)

def copyPlace (host : Host Address Ptr Profile σ) (object : Object Ptr Profile) (world : σ)
    (state : State Address Ptr Profile σ) : Address :=
  (State.construct (state.nextAddress host) { object with shared := true }
    { state with world := world }).nextAddress host

/-- A property of states that recording expressions keeps. -/
structure Stable (host : Host Address Ptr Profile σ)
    (property : State Address Ptr Profile σ → Prop) : Prop where
  bare : ∀ state, property state → Bare state
  world : ∀ state world, property state → property { state with world := world }
  save : ∀ state entity, property state → property (state.save entity)
  record : ∀ state operation, property state → property (state.record operation)
  construct : ∀ state object, property state →
    property (state.construct (state.nextAddress host) object)
  copies : ∀ state object source, property state →
    property ((state.construct (state.nextAddress host) object).onSession fun session =>
      session.setEntity (state.nextAddress host) source)
  drops : ∀ state object world, property state → property (dropped host object world state)
  holds : ∀ state address, property state → property (held address state)

variable {property : State Address Ptr Profile σ → Prop}

theorem evaluate_eagerly_drops (bare : Bare state) (operator : EagerOperator)
    (this other : Address) {object : Object Ptr Profile} {world : σ}
    (evaluated : host.eager operator (state.objects this) (state.objects other) state.world =
      (.ok object, world)) :
    evaluateEagerly host operator this other state =
      (.ok (copyPlace host object world state), dropped host object world state) := by
  let made : State Address Ptr Profile σ :=
    State.construct (state.nextAddress host) { object with shared := true }
      { state with world := world }
  have itself : made.session.canonical (state.nextAddress host) = state.nextAddress host :=
    bare.dead _ (next_unused host state)
  have alive : state.nextAddress host ∈ made.live := Finset.mem_insert_self _ _
  have shared : (made.objects (state.nextAddress host)).shared = true :=
    congrArg Object.shared (construct_self _ _)
  have recording : made.session.active = true := bare.recording
  have copies : copyConstruct host (state.nextAddress host) made =
      (.ok (made.nextAddress host), copied host (state.nextAddress host) made) := by
    simp only [copyConstruct, bind_look_apply, recording, if_true, itself, if_pos alive, shared]
    rw [bind_returned (construct_eq _), bind_change_apply, pure_apply, copied, itself]
    rfl
  have makes : makeShared host object { state with world := world } =
      (.ok (state.nextAddress host), made) := rfl
  simp only [evaluateEagerly, bind_look_apply, bind_change_apply, evaluated]
  rw [bind_returned makes, ensuring, copies]
  rfl

theorem stable_track (stable : Stable host property) (entity : Address) :
    Persists property (trackEntity entity : Recorder Address Ptr Profile σ Address) := by
  apply persists_after_look
  intro state
  refine persists_after_change (fun before => stable.save before entity) ?_
  split
  · exact persists_pure _
  · exact persists_fail _

theorem stable_construct (stable : Stable host property) (object : Object Ptr Profile) :
    Persists property (construct host object) := by
  constructor
  intro state holds
  rw [construct_eq]
  exact stable.construct state object holds

theorem stable_copy (stable : Stable host property) (other : Address) :
    Persists property (copyConstruct host other) := by
  constructor
  intro state holds
  simp only [copyConstruct, bind_look_apply]
  split_ifs
  · rw [bind_returned (construct_eq _), bind_change_apply]
    exact stable.copies state _ _ holds
  · exact holds
  · exact holds
  · exact stable.construct state _ holds

theorem stable_combine (stable : Stable host property) (operator : Arithmetic)
    (this other : Address) : Persists property (combine host operator this other) := by
  apply persists_bind (stable_track stable this)
  intro op1
  apply persists_bind (stable_track stable other)
  intro op2
  apply persists_bind (stable_construct stable _)
  intro result
  refine persists_after_change (fun before => stable.save before result) ?_
  apply persists_bind (stable_track stable result)
  intro _
  exact persists_after_change (fun before => stable.record before _) (stable_copy stable result)

theorem stable_eager (stable : Stable host property) (operator : EagerOperator)
    (this other : Address) : Persists property (evaluateEagerly host operator this other) := by
  constructor
  intro state holds
  rcases evaluated : host.eager operator (state.objects this) (state.objects other) state.world
    with ⟨message | object, world⟩
  · simp only [evaluateEagerly, bind_look_apply, bind_change_apply, evaluated, fail_apply]
    exact stable.world state world holds
  · rw [evaluate_eagerly_drops (stable.bare state holds) operator this other evaluated]
    exact stable.drops state object world holds

theorem stable_hold (stable : Stable host property) (address : Address) :
    Persists property (holdTemporary address : Recorder Address Ptr Profile σ Address) := by
  constructor
  intro state holds
  rw [hold_temporary_eq]
  exact stable.holds state address holds

theorem stable_evaluate (stable : Stable host property) (value : MixedExpr Address) :
    Persists property (evaluateMixed host value) := by
  induction value with
  | read address => exact persists_pure _
  | combine operator lhs rhs left right =>
      apply persists_bind left
      intro this
      apply persists_bind right
      intro other
      exact persists_bind (stable_combine stable operator this other) (stable_hold stable)
  | immediate operator lhs rhs left right =>
      apply persists_bind left
      intro this
      apply persists_bind right
      intro other
      exact persists_bind (stable_eager stable operator this other) (stable_hold stable)

omit [DecidableEq Address] in
theorem bare_of_same {later : State Address Ptr Profile σ} (bare : Bare state)
    (session : later.session = state.session) (live : state.live ⊆ later.live) : Bare later where
  recording := by
    rw [session]
    exact bare.recording
  dead := by
    intro key gone
    rw [session]
    exact bare.dead key fun alive => gone (live alive)

theorem bare_save (bare : Bare state) (entity : Address) : Bare (state.save entity) where
  recording := by
    rw [EntityMap.save_active]
    exact bare.recording
  dead := by
    intro key gone
    rw [save_canonical]
    exact bare.dead key gone

theorem bare_construct (bare : Bare state) (address : Address) (object : Object Ptr Profile) :
    Bare (state.construct address object) :=
  bare_of_same bare rfl (Finset.subset_insert _ _)

theorem bare_copies (bare : Bare state) (address : Address) (object : Object Ptr Profile)
    (source : Address) :
    Bare ((state.construct address object).onSession fun session =>
      session.setEntity address source) where
  recording := bare.recording
  dead := by
    intro key gone
    have different : key ≠ address := by
      intro same
      exact gone (same ▸ Finset.mem_insert_self _ _)
    simp only [State.onSession]
    rw [set_entity_canonical, if_neg different]
    exact bare.dead key fun alive => gone (Finset.mem_insert_of_mem alive)

theorem bare_destroy (bare : Bare state) (address : Address) : Bare (state.destroy address) where
  recording := by
    rw [destroy_active]
    exact bare.recording
  dead := by
    intro key gone
    rw [destroy_canonical bare.recording]
    split
    · rename_i same
      exact same.symm
    · rename_i different
      exact bare.dead key fun alive => gone (Finset.mem_erase.mpr ⟨different, alive⟩)

theorem stable_bare (host : Host Address Ptr Profile σ) : Stable host Bare where
  bare := fun _ bare => bare
  world := fun _ _ bare => bare_of_same bare rfl subset_rfl
  save := fun _ entity bare => bare_save bare entity
  record := fun _ _ bare => ⟨bare.recording, bare.dead⟩
  construct := fun _ object bare => bare_construct bare _ object
  copies := fun _ object source bare => bare_copies bare _ object source
  drops := by
    intro state object world bare
    have moved : Bare { state with world := world } := bare_of_same bare rfl subset_rfl
    have made := bare_construct moved (state.nextAddress host) { object with shared := true }
    exact bare_destroy (bare_copies made _ _ _) _
  holds := fun _ _ bare => bare_of_same bare rfl subset_rfl

theorem bare_temporaries (bare : Bare state) : Bare state.destroyTemporaries := by
  have each (addresses : List Address) : ∀ state : State Address Ptr Profile σ, Bare state →
      Bare (addresses.foldl (fun state address => state.destroy address) state) := by
    induction addresses with
    | nil => exact fun _ bare => bare
    | cons address rest induction =>
        exact fun _ bare => induction _ (bare_destroy bare address)
  exact bare_of_same (each state.temporaries state bare) rfl subset_rfl

theorem bare_transform (profile : Profile) (entity : Address) :
    Persists Bare (transform host profile entity) := by
  constructor
  intro state bare
  simp only [transform]
  split
  · exact bare_of_same bare rfl subset_rfl
  · exact bare_of_same bare rfl subset_rfl

theorem bare_belong (this : Address) (profile : Option Profile) :
    Persists Bare (belong host this profile) := by
  refine persists_after_change (fun _ bare => bare_of_same bare rfl subset_rfl) ?_
  cases profile with
  | none => exact persists_fail _
  | some profile =>
      apply persists_bind (bare_transform profile this)
      intro _
      exact persists_change fun _ bare => bare_save bare this

theorem bare_assign_scalar (this : Address) (scalar : Int) :
    Persists Bare (assignScalar host this scalar) := by
  refine persists_after_change (fun _ bare => bare_save bare this) ?_
  apply persists_bind (stable_track (stable_bare host) this)
  intro op1
  apply persists_bind (stable_construct (stable_bare host) _)
  intro tmp
  apply persists_after_look
  intro state
  apply persists_bind (persists_on_failure (bare_belong tmp _) fun _ bare => bare_destroy bare tmp)
  intro _
  exact persists_change fun _ bare => ⟨bare.recording, bare.dead⟩

theorem bare_perform (host : Host Address Ptr Profile σ) (statement : MixedStatement Address) :
    Persists Bare (performMixed host statement) := by
  cases statement with
  | assign target value =>
      refine persists_ensuring ?_ fun _ bare => bare_temporaries bare
      apply persists_bind (stable_evaluate (stable_bare host) value)
      intro other
      apply persists_bind (stable_track (stable_bare host) target)
      intro op1
      apply persists_bind (stable_track (stable_bare host) other)
      intro op2
      exact persists_change fun _ bare => ⟨bare.recording, bare.dead⟩
  | assignScalar target scalar => exact bare_assign_scalar target scalar

section Lost

variable {Ptr Profile σ : Type} {host : Host Nat Ptr Profile σ}
  {state later : State Nat Ptr Profile σ}

/-- Objects are placed above all live ones. -/
def Above (host : Host Nat Ptr Profile σ) : Prop :=
  ∀ count live, ∀ address ∈ live, address < host.place count live

/-- `copy` stands for an object that is gone, and nothing takes its place. -/
structure Lost (copy gone : Nat) (state : State Nat Ptr Profile σ) : Prop where
  bare : Bare state
  alive : copy ∈ state.live
  dead : gone ∉ state.live
  below : gone < copy
  entry : state.session.entityMap copy = some gone

theorem lost_of_same {copy gone : Nat} (lost : Lost copy gone state)
    (session : later.session = state.session) (live : later.live = state.live) :
    Lost copy gone later where
  bare := bare_of_same lost.bare session live.ge
  alive := by
    rw [live]
    exact lost.alive
  dead := by
    rw [live]
    exact lost.dead
  below := lost.below
  entry := by
    rw [session]
    exact lost.entry

theorem lost_save {copy gone : Nat} (lost : Lost copy gone state) (entity : Nat) :
    Lost copy gone (state.save entity) where
  bare := bare_save lost.bare entity
  alive := lost.alive
  dead := lost.dead
  below := lost.below
  entry := by
    rw [save_entity_map]
    split
    · rename_i same
      rw [← same, Session.canonical, lost.entry]
      rfl
    · exact lost.entry

theorem lost_construct (above : Above host) {copy gone : Nat} (lost : Lost copy gone state)
    (object : Object Ptr Profile) :
    Lost copy gone (state.construct (state.nextAddress host) object) where
  bare := bare_construct lost.bare _ object
  alive := Finset.mem_insert_of_mem lost.alive
  dead := by
    have placed : copy < state.nextAddress host := above _ _ copy lost.alive
    have under := lost.below
    intro member
    rcases Finset.mem_insert.mp member with same | before
    · omega
    · exact lost.dead before
  below := lost.below
  entry := lost.entry

theorem lost_copies (above : Above host) {copy gone : Nat} (lost : Lost copy gone state)
    (object : Object Ptr Profile) (source : Nat) :
    Lost copy gone ((state.construct (state.nextAddress host) object).onSession fun session =>
      session.setEntity (state.nextAddress host) source) where
  bare := bare_copies lost.bare _ object source
  alive := (lost_construct above lost object).alive
  dead := (lost_construct above lost object).dead
  below := lost.below
  entry := by
    have different : copy ≠ state.nextAddress host := ne_next lost.alive
    have unchanged : (state.session.setEntity (state.nextAddress host) source).entityMap copy =
        state.session.entityMap copy := Function.update_of_ne different _ _
    exact unchanged.trans lost.entry

theorem lost_destroy {copy gone : Nat} (lost : Lost copy gone state) {address : Nat}
    (different : copy ≠ address) : Lost copy gone (state.destroy address) where
  bare := bare_destroy lost.bare address
  alive := Finset.mem_erase.mpr ⟨different, lost.alive⟩
  dead := fun alive => lost.dead (Finset.mem_of_mem_erase alive)
  below := lost.below
  entry := by
    rw [destroy_entity_map lost.bare.recording, if_neg different]
    exact lost.entry

theorem stable_lost (above : Above host) (copy gone : Nat) : Stable host (Lost copy gone) where
  bare := fun _ lost => lost.bare
  world := fun _ _ lost => lost_of_same lost rfl rfl
  save := fun _ entity lost => lost_save lost entity
  record := fun _ _ lost =>
    ⟨⟨lost.bare.recording, lost.bare.dead⟩, lost.alive, lost.dead, lost.below, lost.entry⟩
  construct := fun _ object lost => lost_construct above lost object
  copies := fun _ object source lost => lost_copies above lost object source
  drops := by
    intro state object world lost
    have moved : Lost copy gone { state with world := world } := lost_of_same lost rfl rfl
    have made := lost_construct above moved { object with shared := true }
    exact lost_destroy (lost_copies above made _ _) (ne_next lost.alive)
  holds := fun _ _ lost => lost_of_same lost rfl rfl

theorem dropped_lost (above : Above host) (bare : Bare state) (object : Object Ptr Profile)
    (world : σ) :
    Lost (copyPlace host object world state) (state.nextAddress host)
      (dropped host object world state) := by
  let made : State Nat Ptr Profile σ :=
    State.construct (state.nextAddress host) { object with shared := true }
      { state with world := world }
  have alive : state.nextAddress host ∈ made.live := Finset.mem_insert_self _ _
  have placed : state.nextAddress host < made.nextAddress host := above _ _ _ alive
  have itself : made.session.canonical (state.nextAddress host) = state.nextAddress host :=
    bare.dead _ (next_unused host state)
  have copies : Bare (copied host (state.nextAddress host) made) := by
    have moved : Bare { state with world := world } := bare_of_same bare rfl subset_rfl
    exact bare_copies (bare_construct moved _ _) _ _ _
  have entry : (copied host (state.nextAddress host) made).session.entityMap
      (made.nextAddress host) = some (state.nextAddress host) := by
    have set : (copied host (state.nextAddress host) made).session.entityMap
        (made.nextAddress host) = some (made.session.canonical (state.nextAddress host)) :=
      Function.update_self (made.nextAddress host) _ made.session.entityMap
    exact set.trans (congrArg some itself)
  constructor
  · exact bare_destroy copies _
  · exact Finset.mem_erase.mpr ⟨placed.ne', Finset.mem_insert_self _ _⟩
  · exact Finset.notMem_erase _ _
  · exact placed
  · have unchanged := destroy_entity_map copies.recording (state.nextAddress host)
      (made.nextAddress host)
    rw [if_neg placed.ne'] at unchanged
    exact unchanged.trans entry

theorem lost_untracked {copy gone : Nat} (lost : Lost copy gone state) {address : Nat} :
    trackEntity copy state ≠ (.ok address, later) := by
  have stands : state.session.canonical copy = gone := by
    rw [Session.canonical, lost.entry]
    rfl
  intro tracked
  simp only [trackEntity, bind_look_apply, bind_change_apply, stands, if_neg lost.dead,
    fail_apply] at tracked
  cases (Prod.mk.inj tracked).1

theorem lost_combine (above : Above host) {copy gone : Nat} (lost : Lost copy gone state)
    (operator : Arithmetic) {this other address : Nat} (operand : this = copy ∨ other = copy) :
    combine host operator this other state ≠ (.ok address, later) := by
  intro combines
  obtain ⟨op1, middle, first, rest⟩ := returned_bind combines
  obtain ⟨op2, last, second, -⟩ := returned_bind rest
  rcases operand with same | same
  · rw [same] at first
    exact lost_untracked lost first
  · have kept := (stable_track (stable_lost above copy gone) this).keeps state lost
    rw [first] at kept
    rw [same] at second
    exact lost_untracked kept second

/-- An expression with an immediate operator has no value that could be recorded. -/
theorem immediate_loses (above : Above host) (value : MixedExpr Nat)
    (immediate : usesImmediate value = true) (bare : Bare state) {address : Nat}
    (ran : evaluateMixed host value state = (.ok address, later)) :
    ∃ gone, Lost address gone later := by
  induction value generalizing state later address with
  | read address => cases immediate
  | combine operator lhs rhs left right =>
      obtain ⟨this, middle, ranLeft, rest⟩ := returned_bind ran
      obtain ⟨other, last, ranRight, rest⟩ := returned_bind rest
      obtain ⟨made, _, combines, -⟩ := returned_bind rest
      exfalso
      rw [usesImmediate, Bool.or_eq_true] at immediate
      rcases immediate with first | second
      · obtain ⟨gone, lost⟩ := left first bare ranLeft
        have kept := (stable_evaluate (stable_lost above this gone) rhs).keeps middle lost
        rw [ranRight] at kept
        exact lost_combine above kept operator (Or.inl rfl) combines
      · have between := (stable_evaluate (stable_bare host) lhs).keeps state bare
        rw [ranLeft] at between
        obtain ⟨gone, lost⟩ := right second between ranRight
        exact lost_combine above lost operator (Or.inr rfl) combines
  | immediate operator lhs rhs left right =>
      obtain ⟨this, middle, ranLeft, rest⟩ := returned_bind ran
      obtain ⟨other, last, ranRight, rest⟩ := returned_bind rest
      obtain ⟨made, reached, evaluates, holding⟩ := returned_bind rest
      have between := (stable_evaluate (stable_bare host) lhs).keeps state bare
      rw [ranLeft] at between
      have before := (stable_evaluate (stable_bare host) rhs).keeps middle between
      rw [ranRight] at before
      rcases evaluated : host.eager operator (last.objects this) (last.objects other) last.world
        with ⟨message | object, world⟩
      · simp only [evaluateEagerly, bind_look_apply, bind_change_apply, evaluated,
          fail_apply] at evaluates
        cases (Prod.mk.inj evaluates).1
      · rw [evaluate_eagerly_drops before operator this other evaluated] at evaluates
        obtain ⟨place, final⟩ := Prod.mk.inj evaluates
        obtain ⟨same, reachedLater⟩ := Prod.mk.inj holding
        rw [← Except.ok.inj same, ← reachedLater, ← final, ← Except.ok.inj place]
        exact ⟨_, lost_of_same (dropped_lost above before object world) rfl rfl⟩

theorem immediate_fails (above : Above host) (statement : MixedStatement Nat)
    (immediate : statementImmediate statement = true) (bare : Bare state) :
    performMixed host statement state ≠ (.ok (), later) := by
  intro performed
  cases statement with
  | assignScalar target scalar => cases immediate
  | assign target value =>
      obtain ⟨reached, inside, -⟩ := returned_ensuring performed
      obtain ⟨other, middle, evaluates, assigns⟩ := returned_bind inside
      obtain ⟨op1, last, first, rest⟩ := returned_bind assigns
      obtain ⟨op2, _, second, -⟩ := returned_bind rest
      obtain ⟨gone, lost⟩ := immediate_loses above value immediate bare evaluates
      have kept := (stable_track (stable_lost above other gone) target).keeps middle lost
      rw [first] at kept
      exact lost_untracked kept second

theorem body_fails (above : Above host) (body : List (MixedStatement Nat))
    (immediate : ∃ statement ∈ body, statementImmediate statement = true) (bare : Bare state) :
    each (performMixed host) body state ≠ (.ok (), later) := by
  induction body generalizing state with
  | nil =>
      obtain ⟨statement, absent, -⟩ := immediate
      cases absent
  | cons statement rest induction =>
      intro performed
      obtain ⟨_, middle, first, others⟩ := returned_bind performed
      obtain ⟨culprit, member, calls⟩ := immediate
      rcases List.mem_cons.mp member with same | before
      · rw [same] at calls
        exact immediate_fails above statement calls bare first
      · have kept := (bare_perform host statement).keeps state bare
        rw [first] at kept
        exact induction ⟨culprit, before, calls⟩ kept others

end Lost

section Recorded

variable {V : Type} [Add V] [Mul V] [IntCast V] {compute : EagerOperator → V → V → V}
  {outer : Address → Prop}

def Fresh (flow : Flow Address) : Prop :=
  ∀ address, flow.stale (.outer address) = false

/-- `form` records `value`. -/
structure Form (host : Host Address Ptr Profile σ) (compute : EagerOperator → V → V → V)
    (outer : Address → Prop) (value : MixedExpr Address) (form : Expr Address) : Prop where
  evaluates : evaluateMixed host value = evaluate host form
  callers : Over outer form
  follows : FollowsVariables form
  means : ∀ env : Environment Address V,
    valueOf env form = some (mixedValue compute env.outer value)
  fresh : ∀ flow, Fresh flow → flow.tainted form = false

theorem recorded_form (host : Host Address Ptr Profile σ)
    (compute : EagerOperator → V → V → V) (value : MixedExpr Address)
    (recorded : usesImmediate value = false) (reads : ReadsOuter outer value) :
    ∃ form, Form host compute outer value form := by
  induction value with
  | read address =>
      exact ⟨.read (.outer address), rfl, reads, trivial, fun _ => rfl,
        fun _ fresh => fresh address⟩
  | combine operator lhs rhs left right =>
      rw [usesImmediate, Bool.or_eq_false_iff] at recorded
      obtain ⟨first, one⟩ := left recorded.1 reads.1
      obtain ⟨second, two⟩ := right recorded.2 reads.2
      refine ⟨.combine operator first second, ?_, ⟨one.callers, two.callers⟩,
        ⟨one.follows, two.follows⟩, ?_, ?_⟩
      · rw [evaluateMixed, evaluate, one.evaluates, two.evaluates]
      · intro env
        rw [valueOf, one.means env, two.means env]
        rfl
      · intro flow fresh
        rw [Flow.tainted, one.fresh flow fresh, two.fresh flow fresh]
        rfl
  | immediate operator lhs rhs left right => cases recorded

structure StatementForm (host : Host Address Ptr Profile σ) (compute : EagerOperator → V → V → V)
    (outer : Address → Prop) (statement : MixedStatement Address) (form : Statement Address) :
    Prop where
  performs : performMixed host statement = perform host form
  assigns : Assigns outer form
  follows : StatementFollows form
  means : ∀ env : Environment Address V, BodyMeaning.executeStatement env form =
    some { env with outer := executeOne compute env.outer statement }
  fresh : ∀ flow, Fresh flow → Fresh (flow.through form)

theorem shared_variable (flow : Flow Address) {address target : Address}
    (different : address ≠ target) : flow.shares (.outer address) (.outer target) = false := by
  simp only [Flow.shares, decide_eq_false_iff_not, Variable.outer.injEq]
  exact different

theorem fresh_assign {flow : Flow Address} (fresh : Fresh flow) (target : Address)
    (changes : Bool) : Fresh (flow.assign (.outer target) false changes) := by
  intro address
  simp only [Flow.assign]
  split
  · rfl
  · rename_i different
    have apart : address ≠ target := fun same => different (congrArg Variable.outer same)
    rw [fresh address, shared_variable flow apart, Bool.and_false]
    rfl

theorem recorded_statement (host : Host Address Ptr Profile σ)
    (compute : EagerOperator → V → V → V) (statement : MixedStatement Address)
    (recorded : statementImmediate statement = false) (assigns : AssignsOuter outer statement) :
    ∃ form, StatementForm host compute outer statement form := by
  cases statement with
  | assign target value =>
      obtain ⟨form, records⟩ := recorded_form host compute value recorded
        assigns.2
      refine ⟨.assign (.outer target) form, ?_, ⟨assigns.1, records.callers⟩, records.follows,
        ?_, ?_⟩
      · rw [performMixed, perform, records.evaluates]
        rfl
      · intro env
        rw [BodyMeaning.executeStatement, records.means env]
        rfl
      · intro flow fresh
        rw [Flow.through, records.fresh flow fresh]
        exact fresh_assign fresh target _
  | assignScalar target scalar =>
      exact ⟨.assignScalar (.outer target) scalar, rfl, assigns, trivial, fun _ => rfl,
        fun _ fresh => fresh_assign fresh target true⟩

structure BodyForm (host : Host Address Ptr Profile σ) (compute : EagerOperator → V → V → V)
    (outer : Address → Prop) (body : List (MixedStatement Address))
    (forms : List (Statement Address)) : Prop where
  performs : each (performMixed host) body = each (perform host) forms
  assigns : ∀ form ∈ forms, Assigns outer form
  follows : LiteralsFollowVariables forms
  means : ∀ env : Environment Address V,
    executeBody forms env = some { env with outer := executeMixed compute body env.outer }
  fresh : ∀ flow, Fresh flow → Fresh (forms.foldl Flow.through flow)

theorem recorded_body (host : Host Address Ptr Profile σ) (compute : EagerOperator → V → V → V)
    (body : List (MixedStatement Address)) (recorded : OnlyRecorded body)
    (assigns : ∀ statement ∈ body, AssignsOuter outer statement) :
    ∃ forms, BodyForm host compute outer body forms := by
  induction body with
  | nil =>
      refine ⟨[], rfl, ?_, ?_, fun _ => rfl, fun _ fresh => fresh⟩
      · exact fun _ absent => by cases absent
      · exact fun _ absent => by cases absent
  | cons statement rest induction =>
      obtain ⟨form, one⟩ := recorded_statement host compute statement
        (recorded statement List.mem_cons_self) (assigns statement List.mem_cons_self)
      obtain ⟨forms, others⟩ := induction
        (fun other member => recorded other (List.mem_cons_of_mem _ member))
        (fun other member => assigns other (List.mem_cons_of_mem _ member))
      refine ⟨form :: forms, ?_, ?_, ?_, ?_, ?_⟩
      · rw [each, each, one.performs, others.performs]
      · exact List.forall_mem_cons.mpr ⟨one.assigns, others.assigns⟩
      · exact List.forall_mem_cons.mpr ⟨one.follows, others.follows⟩
      · intro env
        rw [executeBody, List.foldlM_cons, one.means env]
        exact others.means _
      · intro flow fresh
        exact others.fresh _ (one.fresh flow fresh)

omit [DecidableEq Address] in
theorem over_reads (value : Expr Address) (callers : Over outer value) : Reads outer value := by
  induction value with
  | read name =>
      cases name with
      | outer address => exact callers
      | inner index => trivial
  | combine operator lhs rhs left right => exact ⟨left callers.1, right callers.2⟩
  | combineScalar operator lhs scalar left => exact left callers

omit [DecidableEq Address] in
theorem assigns_uses {statement : Statement Address} (assigns : Assigns outer statement) :
    Uses outer statement := by
  cases statement with
  | declare value => cases assigns
  | raise message => cases assigns
  | assign target value =>
      cases target with
      | outer target => exact ⟨assigns.1, over_reads value assigns.2⟩
      | inner index => cases assigns
  | assignScalar target scalar =>
      cases target with
      | outer target => exact assigns
      | inner index => cases assigns

variable {κ : Type} {model : DeviceModel Ptr σ V κ} {hooks : FhnMovementHooks Ptr σ}
  {alloc : σ → Option Ptr × σ} {free : Option Ptr → σ → σ} {dispatch : Dispatch Ptr σ}
  {values : Address → V}

/-- A body that is recorded as a whole leaves what eager execution leaves. -/
theorem recorded_computes [DecidableEq Ptr] (host : Host Address Ptr Profile σ)
    (hookLaws : HookLaws model hooks alloc free) (kernelLaw : KernelLaw model dispatch)
    (exact : ExactKernels model dispatch)
    (law : EncryptLaw model hooks host) (encrypts : Encrypts host)
    (evaluateGraph : Recorder Address Ptr Profile σ Unit) (ready : Ready outer state)
    (supplied : Supplied model hooks host.backend outer values state)
    (belonged : Belonged outer state) (body : List (MixedStatement Address))
    (assigns : ∀ statement ∈ body, AssignsOuter outer statement) (recorded : OnlyRecorded body) :
    ∃ final, runMixed host host.backend hooks dispatch evaluateGraph body state = (.ok (), final) ∧
      ∀ address, outer address → heldValue model final.world (final.objects address).toFhenon =
        some (executeMixed compute body values address) := by
  obtain ⟨forms, records⟩ := recorded_body host compute body recorded assigns
  have between : Between outer (activate state) :=
    ⟨activate_ongoing ready, belonged, ready.noTemporaries⟩
  obtain ⟨later, performed, -, -⟩ :=
    (body_records encrypts forms records.assigns between).1 records.follows
  obtain ⟨final, after, ran, executes, mirrors, held⟩ := run_stores hookLaws kernelLaw exact law
    evaluateGraph ready supplied forms
    (fun form member => assigns_uses (records.assigns form member)) performed
  have same : runMixed host host.backend hooks dispatch evaluateGraph body state =
      run host host.backend hooks dispatch evaluateGraph forms state := by
    rw [runMixed, records.performs]
    rfl
  refine ⟨final, same.trans ran, ?_⟩
  intro address caller
  have fresh : (flowOf forms).stale (.outer address) = false :=
    records.fresh {} (fun _ => rfl) address
  have agreed := mirrors.agrees (.outer address) address ⟨caller, rfl⟩ fresh
  have eager := records.means { outer := values }
  rw [executes, Option.some.injEq] at eager
  rw [(mirrors.ongoing.outerAlive address caller).2.1, get_outer, eager] at agreed
  rw [held address caller]
  exact agreed.symm

omit [Add V] [Mul V] in
theorem forms_extend (encrypts : Encrypts host) (forms : List (Statement Address))
    (assigns : ∀ form ∈ forms, Assigns outer form) (follows : LiteralsFollowVariables forms)
    (between : Between outer state) :
    ∃ later, each (perform host) forms state = (.ok (), later) ∧ Extends state later := by
  induction forms generalizing state with
  | nil => exact ⟨state, rfl, extends_refl state⟩
  | cons form rest induction =>
      obtain ⟨middle, ran, next, first, -⟩ := perform_records encrypts form
        (assigns form List.mem_cons_self) (follows form List.mem_cons_self) between
      obtain ⟨later, others, second⟩ := induction
        (fun other member => assigns other (List.mem_cons_of_mem _ member))
        (fun other member => follows other (List.mem_cons_of_mem _ member)) next
      refine ⟨later, ?_, extends_trans first second⟩
      rw [each, bind_returned ran]
      exact others

/-- What an immediate operator would read after recorded statements: the variables of the
caller as they were before the run. -/
theorem recorded_writes_unseen (encrypts : Encrypts host) (ready : Ready outer state)
    (belonged : Belonged outer state) (body : List (MixedStatement Address))
    (assigns : ∀ statement ∈ body, AssignsOuter outer statement) (recorded : OnlyRecorded body) :
    ∃ later, each (performMixed host) body (activate state) = (.ok (), later) ∧
      ∀ address, outer address → later.objects address = state.objects address := by
  obtain ⟨forms, records⟩ := recorded_body host
    (fun _ (first _ : Int) => first) body recorded assigns
  have between : Between outer (activate state) :=
    ⟨activate_ongoing ready, belonged, ready.noTemporaries⟩
  obtain ⟨later, ran, extended⟩ := forms_extend encrypts forms records.assigns records.follows
    between
  refine ⟨later, ?_, ?_⟩
  · rw [records.performs]
    exact ran
  · intro address caller
    exact extended.objects address (ready.outerAlive address caller).1

end Recorded

section Observes

variable {Ptr Profile σ V κ : Type} [Add V] [Mul V] [IntCast V]

/-- The run returns, and the variables of the caller hold what executing the statements eagerly
gives, wherever the objects of the recording are placed. -/
def ObservesWrites (model : DeviceModel Ptr σ V κ) (hooks : FhnMovementHooks Ptr σ)
    (dispatch : Dispatch Ptr σ) (host : Host Nat Ptr Profile σ)
    (evaluateGraph : Recorder Nat Ptr Profile σ Unit) (compute : EagerOperator → V → V → V)
    (outer : Nat → Prop) (values : Nat → V) (state : State Nat Ptr Profile σ)
    (body : List (MixedStatement Nat)) : Prop :=
  ∀ (place : Nat → Finset Nat → Nat) (unused : ∀ count live, place count live ∉ live),
    ∃ final, runMixed { host with place := place, unused := unused } host.backend hooks dispatch
        evaluateGraph body state = (.ok (), final) ∧
      ∀ address, outer address → heldValue model final.world (final.objects address).toFhenon =
        some (executeMixed compute body values address)

/-- Operators observe earlier writes exactly in the bodies without immediate operators. -/
theorem observes_writes_iff [DecidableEq Ptr] (model : DeviceModel Ptr σ V κ)
    (hooks : FhnMovementHooks Ptr σ) (alloc : σ → Option Ptr × σ) (free : Option Ptr → σ → σ)
    (dispatch : Dispatch Ptr σ) (hookLaws : HookLaws model hooks alloc free)
    (kernelLaw : KernelLaw model dispatch) (exact : ExactKernels model dispatch)
    (host : Host Nat Ptr Profile σ) (law : EncryptLaw model hooks host) (encrypts : Encrypts host)
    (evaluateGraph : Recorder Nat Ptr Profile σ Unit) (compute : EagerOperator → V → V → V)
    (outer : Nat → Prop) (values : Nat → V) (state : State Nat Ptr Profile σ)
    (ready : Ready outer state) (belonged : Belonged outer state)
    (supplied : Supplied model hooks host.backend outer values state)
    (body : List (MixedStatement Nat))
    (assigns : ∀ statement ∈ body, AssignsOuter outer statement) :
    ObservesWrites model hooks dispatch host evaluateGraph compute outer values state body ↔
      OnlyRecorded body := by
  constructor
  · intro observes statement member
    by_contra immediate
    rw [Bool.not_eq_false] at immediate
    let higher : Host Nat Ptr Profile σ :=
      { host with place := countingHost.place, unused := countingHost.unused }
    have above : Above higher := by
      intro _ live address alive
      exact Nat.lt_succ_of_le (Finset.le_sup (f := id) alive)
    have bare : Bare (activate state) :=
      ⟨rfl, (activate_ongoing ready).active.sound.dead⟩
    obtain ⟨final, ran, -⟩ := observes countingHost.place countingHost.unused
    rw [runMixed, bind_change_apply] at ran
    obtain ⟨reached, inside, -⟩ := returned_ensuring ran
    obtain ⟨_, recorded, records, -⟩ := returned_bind inside
    obtain ⟨later, performed, -⟩ := returned_ensuring records
    exact body_fails above body ⟨statement, member, immediate⟩ bare performed
  · intro recorded place unused
    let placed : Host Nat Ptr Profile σ := { host with place := place, unused := unused }
    have placedLaw : EncryptLaw model hooks placed := ⟨law.keeps, law.filled⟩
    exact recorded_computes placed hookLaws kernelLaw exact placedLaw encrypts
      evaluateGraph ready supplied belonged body assigns recorded

structure EagerLaw (model : DeviceModel Ptr σ V κ) (compute : EagerOperator → V → V → V)
    (host : Host Nat Ptr Profile σ) : Prop where
  computes : ∀ operator (this other : Object Ptr Profile) world first second,
    heldValue model world this.toFhenon = some first →
      heldValue model world other.toFhenon = some second →
        ∃ object after, host.eager operator this other world = (.ok object, after) ∧
          heldValue model after object.toFhenon = some (compute operator first second) ∧
          KeepsCells model world after

end Observes

section ComparedWrite

open Fhenomenon.MovementWorld Fhenomenon.SessionWorld

def exactEager : EagerOperator → Int → Int → Int
  | .bitAnd => Int.land
  | .bitOr => Int.lor
  | .bitXor => Int.xor
  | .compareEq => fun first second => if first = second then 1 else 0
  | .compareLt => fun first second => if first < second then 1 else 0
  | .compareLe => fun first second => if first ≤ second then 1 else 0

/-- A backend that has the immediate operators; their results are new buffers. -/
def comparingHost : Host Nat Nat Unit World :=
  { appendingHost with
    eager := fun operator this other world =>
      match heldValue exactModel world this.toFhenon, heldValue exactModel world other.toFhenon with
      | some first, some second =>
          (.ok
            { val := 0
              ciphertext := some
                { buffer := { raw := some world.length, control := world.length }, owner := 1 }
              isEncrypted := true
              profile := this.profile },
            world ++ [some ⟨true, exactEager operator first second⟩])
      | _, _ => (.error "not encrypted", world) }

theorem comparing_law : EagerLaw exactModel exactEager comparingHost where
  computes := by
    intro operator this other world first second one two
    refine ⟨_, _, by simp only [comparingHost, one, two]; rfl, ?_, ?_⟩
    · have appended : (world ++ [some (⟨true, exactEager operator first second⟩ : Cell Int)])[
          world.length]? = some (some ⟨true, exactEager operator first second⟩) :=
        List.getElem?_concat_length
      have looked : cellAt (world ++ [some ⟨true, exactEager operator first second⟩])
          world.length = some ⟨true, exactEager operator first second⟩ := by
        rw [cellAt, appended]
        rfl
      exact congrArg (Option.map Cell.contents) looked
    · exact appending_law.keeps () (exactEager operator first second) world

/-- `a = b; c = a == b` -/
def comparedWrite : List (MixedStatement Nat) :=
  [.assign 0 (.read 1), .assign 2 (.immediate .compareEq (.read 0) (.read 1))]

/-- `a = b; c = a * b` -/
def multipliedWrite : List (MixedStatement Nat) :=
  [.assign 0 (.read 1), .assign 2 (.combine .multiply (.read 0) (.read 1))]

theorem multiplied_write_observed :
    ObservesWrites exactModel movementHooks exactTable comparingHost fallsBack exactEager (· < 3)
      heldValues heldVariables multipliedWrite := by
  apply (observes_writes_iff exactModel movementHooks movementAlloc movementFree exactTable
    exact_hook_laws exact_kernel_law exact_kernels comparingHost
    ⟨appending_law.keeps, appending_law.filled⟩ (fun _ _ _ => ⟨_, _, rfl⟩) fallsBack exactEager
    (· < 3) heldValues heldVariables held_ready (fun address _ => ⟨(), rfl⟩) held_supplied
    multipliedWrite ?_).mpr
  · intro statement member
    simp only [multipliedWrite, List.mem_cons, List.not_mem_nil, or_false] at member
    rcases member with rfl | rfl <;> rfl
  · intro statement member
    simp only [multipliedWrite, List.mem_cons, List.not_mem_nil, or_false] at member
    rcases member with rfl | rfl <;> simp [AssignsOuter, ReadsOuter]

/-- Executed eagerly `c` is 1. In the run the comparison reads 5 and 6, and its result is gone
before the assignment to `c`. -/
theorem compared_write_unseen :
    EagerLaw exactModel exactEager comparingHost ∧
      executeMixed exactEager comparedWrite heldValues 2 = 1 ∧
      (let later := (each (performMixed comparingHost) [.assign 0 (.read 1)]
          (activate heldVariables)).2
        let compared := comparingHost.eager .compareEq (later.objects 0) (later.objects 1)
          later.world
        compared.1.map (fun made => heldValue exactModel compared.2 made.toFhenon) =
          .ok (some 0)) ∧
      (runMixed comparingHost 1 movementHooks exactTable fallsBack comparedWrite
        heldVariables).1 = .error .dangling ∧
      ¬ObservesWrites exactModel movementHooks exactTable comparingHost fallsBack exactEager (· < 3)
        heldValues heldVariables comparedWrite := by
  have dangles : (runMixed comparingHost 1 movementHooks exactTable fallsBack comparedWrite
      heldVariables).1 = .error .dangling := rfl
  refine ⟨comparing_law, rfl, rfl, dangles, ?_⟩
  intro observes
  obtain ⟨final, ran, -⟩ := observes comparingHost.place comparingHost.unused
  have failed : (.ok () : Except Failure Unit) = .error .dangling :=
    (congrArg Prod.fst ran).symm.trans dangles
  cases failed

end ComparedWrite

end Fhenomenon.MixedBodies
