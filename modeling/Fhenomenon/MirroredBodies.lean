import Fhenomenon.MirroredExpressions

/-!
# Recorded bodies against eager ones

Assignments, declarations and the end of a full expression keep the store of the
recording a mirror of the eager values, apart from what the flow calls stale.
-/

namespace Fhenomenon.MirroredBodies

open Fhenomenon.Lib.Fallible Fhenomenon.DefaultExecutor Fhenomenon.DeviceAbi
open Fhenomenon.RecordedGraph Fhenomenon.RecordedMeaning Fhenomenon.GraphSimulation
open Fhenomenon.SessionRuntime Fhenomenon.SessionRefinement Fhenomenon.Recording
open Fhenomenon.EntityMap Fhenomenon.RecordingSteps Fhenomenon.SessionBodies
open Fhenomenon.RecordingFrame Fhenomenon.LiteralRecording Fhenomenon.RecordedStore
open Fhenomenon.BodyMeaning
open Fhenomenon.MirroredExpressions

variable {Address Ptr Profile σ V κ : Type} [DecidableEq Address] [Add V] [Mul V] [IntCast V]
  {model : DeviceModel Ptr σ V κ} {hooks : FhnMovementHooks Ptr σ}
  {host : Host Address Ptr Profile σ} {state later last : State Address Ptr Profile σ}
  {outer : Address → Prop} {values : Address → V} {flow : Flow Address}
  {env : Environment Address V} {this other : Address}

section Assignments

variable (mirrors : Mirrors model hooks host.backend outer values flow env state)
  {target : Variable Address} {source : Address}
  (located : Located outer state target this) (extended : Extends state later)
  (operations : later.session.operations = state.session.operations ++
    [{ type := .assignment, operand1 := state.session.canonical this, operand2 := source }])
  (alive : source ∈ state.live)

include mirrors located extended operations alive

theorem written_store {address : Address} (held : address ∈ state.live) :
    store values later address =
      if address = state.session.canonical this then store values state source
      else store values state address := by
  have resolved := (mirrors.ongoing.active.sound.resolves this
    (located_alive mirrors.ongoing located)).alive
  rw [store_recorded mirrors.ongoing.active extended operations resolved alive held]
  exact Function.update_apply _ _ _ _

/-- An assignment changes one object, and makes the other variables that share it stale. -/
theorem written_mirrors (active : Active later)
    (temporaries : later.temporaries = state.temporaries)
    (keeps : KeepsCells model state.world later.world)
    (right : Sourced outer state source ∨ Supplies model hooks host.backend state.world
      (state.objects source).toFhenon (startValue values state source))
    {stale changes : Bool} {result : V} (fresh : stale = false → store values state source = result)
    (unchanged : changes = false → source = state.session.canonical this) :
    Mirrors model hooks host.backend outer values (flow.assign target stale changes)
      (env.set target result) later where
  ongoing := ongoing_extends mirrors.ongoing extended active temporaries
  grounded := by
    have resolved := (mirrors.ongoing.active.sound.resolves this
      (located_alive mirrors.ongoing located)).alive
    apply grounded_recorded mirrors.grounded mirrors.ongoing extended keeps operations
      (Or.inl ⟨rfl, rfl⟩) resolved alive (located_sourced mirrors located) right
    intro address named
    cases named
  declared := by
    rw [set_length, extended.locals]
    exact mirrors.declared
  tracked := by
    rw [extended.locals]
    exact mirrors.tracked
  numbered := mirrors.numbered
  owned := by
    intro address made
    rw [operations, produced_append, List.mem_append] at made
    rcases made with before | new
    · rw [extended.objects address (produced_alive mirrors.ongoing.active before)]
      exact mirrors.owned address before
    · cases new
  results := by
    rw [extended.locals, operations, produced_append]
    intro address listed
    have alive := (mirrors.ongoing.automatic address (List.mem_append_left _ listed)).alive
    rw [extended.canonical address alive]
    exact List.mem_append_left _ (mirrors.results address listed)
  shared := by
    intro name other first second one two
    rw [located_locals extended.locals] at one two
    rw [extended.canonical first (located_alive mirrors.ongoing one),
      extended.canonical second (located_alive mirrors.ongoing two)]
    exact mirrors.shared name other first second one two
  agrees := by
    intro name address found clean
    rw [located_locals extended.locals] at found
    have held := located_alive mirrors.ongoing found
    have resolved := (mirrors.ongoing.active.sound.resolves address held).alive
    have declared : (env.get target).isSome := by
      obtain ⟨result, known, -⟩ := located_value mirrors located
      rw [known]
      rfl
    rw [extended.canonical address held, get_set env result declared,
      written_store mirrors located extended operations alive resolved]
    by_cases same : name = target
    · subst same
      rw [located_unique found located, if_pos rfl, if_pos rfl]
      simp only [Flow.assign, if_true] at clean
      rw [fresh clean]
    · simp only [Flow.assign, if_neg same, Bool.or_eq_false_iff, Bool.and_eq_false_iff] at clean
      rw [if_neg same, mirrors.agrees name address found clean.1]
      have sharing := mirrors.shared name target address this found located
      by_cases stands : state.session.canonical address = state.session.canonical this
      · rcases clean.2 with still | apart
        · rw [if_pos stands, unchanged still, stands]
        · rw [sharing.mp stands] at apart
          cases apart
      · rw [if_neg stands]

end Assignments

theorem temporaries_spare (ongoing : Ongoing outer state) {address : Address}
    (alive : address ∈ state.live) (unlisted : address ∉ state.temporaries) :
    address ∈ state.destroyTemporaries.live ∧
      state.destroyTemporaries.session.canonical address = state.session.canonical address := by
  let spared : State Address Ptr Profile σ :=
    { state with live := state.live.filter (· ∉ state.temporaries) }
  have extended : Extends spared state :=
    ⟨Finset.filter_subset _ _, fun _ _ => rfl, fun _ _ => rfl, rfl, rfl⟩
  have nodup := ongoing.nodup
  rw [List.nodup_append] at nodup
  have copies : ∀ other ∈ state.temporaries, Collapsed state other :=
    fun other member => ongoing.automatic other (List.mem_append_right _ member)
  have gone : ∀ other ∈ state.temporaries, other ∉ spared.live := by
    intro other member alive
    exact (Finset.mem_filter.mp alive).2 member
  obtain ⟨-, later, -⟩ := destroy_each state.temporaries ongoing.active copies nodup.2.1 extended
    gone
  have member : address ∈ spared.live := Finset.mem_filter.mpr ⟨alive, unlisted⟩
  exact ⟨later.live member, later.canonical address member⟩

omit [DecidableEq Address] [Add V] [Mul V] [IntCast V] in
theorem located_spared (ongoing : Ongoing outer state) {name : Variable Address}
    {address : Address} (located : Located outer state name address) :
    address ∉ state.temporaries := by
  intro temporary
  cases name with
  | outer caller =>
      obtain ⟨callers, same⟩ := located
      have elsewhere := (ongoing.automatic address (List.mem_append_right _ temporary)).elsewhere
      rw [same] at elsewhere
      exact elsewhere (ongoing.outerAlive caller callers).2.1
  | inner index =>
      have nodup := ongoing.nodup
      rw [List.nodup_append] at nodup
      exact nodup.2.2 address (List.mem_of_getElem? located) address temporary rfl

omit [DecidableEq Address] [Add V] [Mul V] in
theorem grounded_same (grounded : Grounded model hooks host.backend outer values state)
    (operations : later.session.operations = state.session.operations)
    (objects : later.objects = state.objects) (seen : runState later = runState state) :
    Grounded model hooks host.backend outer values later where
  recorded := by
    rw [operations, seen]
    exact grounded.recorded
  supplied := by
    intro address source
    have world : later.world = state.world := congrArg RunState.world seen
    rw [operations] at source
    rw [startValue, objects, world]
    exact grounded.supplied address source
  plain := by
    rw [objects]
    exact grounded.plain

theorem store_same (operations : later.session.operations = state.session.operations)
    (objects : later.objects = state.objects) : store values later = store values state := by
  have start : startValue values later = startValue values state := by
    funext address
    rw [startValue, objects]
    rfl
  rw [store, operations, start]
  rfl

theorem ended_mirrors (ongoing : Ongoing outer state) (start : state.temporaries = [])
    (within : Within outer state later)
    (mirrors : Mirrors model hooks host.backend outer values flow env later) :
    Mirrors model hooks host.backend outer values flow env later.destroyTemporaries := by
  obtain ⟨ended, extended, -, operations, objects, seen⟩ := temporaries_end within start ongoing
  apply mirrors_transfer mirrors ended (grounded_same mirrors.grounded operations objects seen)
    (extended.locals.trans within.extended.locals.symm)
  · intro name address located
    exact (temporaries_spare mirrors.ongoing (located_alive mirrors.ongoing located)
      (located_spared mirrors.ongoing located)).2
  · intro name address located
    rw [store_same operations objects]
  · rw [operations]
    exact fun _ made => made
  · rw [operations, objects]
    exact mirrors.owned

def declaring (made : Address) (state : State Address Ptr Profile σ) :
    State Address Ptr Profile σ :=
  { state with locals := state.locals ++ [made] }

omit [DecidableEq Address] [Add V] [Mul V] [IntCast V] in
theorem located_declaring {made : Address} {name : Variable Address} {address : Address}
    (located : Located outer (declaring made state) name address) :
    (Located outer state name address ∧ name ≠ .inner state.locals.length) ∨
      (name = .inner state.locals.length ∧ address = made) := by
  cases name with
  | outer caller => exact Or.inl ⟨located, fun same => by cases same⟩
  | inner index =>
      simp only [Located, declaring, snoc_lookup] at located
      split_ifs at located with position
      · rw [position]
        exact Or.inr ⟨rfl, (Option.some.inj located).symm⟩
      · exact Or.inl ⟨located, fun same => position (Variable.inner.inj same)⟩

omit [DecidableEq Address] in
theorem declaring_ongoing (ongoing : Ongoing outer state) {made : Address}
    (collapsed : Collapsed state made) (unlisted : made ∉ state.locals ++ state.temporaries) :
    Ongoing outer (declaring made state) where
  active := ⟨sound_of_same ongoing.active.sound rfl (fun _ => rfl) rfl, ongoing.active.recording⟩
  unpoisoned := ongoing.unpoisoned
  outerAlive := ongoing.outerAlive
  automatic := by
    intro address member
    have cases : address = made ∨ address ∈ state.locals ++ state.temporaries := by
      simp only [declaring, List.mem_append, List.mem_singleton] at member ⊢
      tauto
    have fine : Collapsed state address := by
      rcases cases with same | before
      · rw [same]
        exact collapsed
      · exact ongoing.automatic address before
    exact ⟨fine.alive, fine.elsewhere, fine.single, fine.bare⟩
  nodup := by
    have reordered : ((state.locals ++ [made]) ++ state.temporaries).Perm
        (made :: (state.locals ++ state.temporaries)) := by
      rw [List.append_assoc]
      exact List.perm_middle
    exact reordered.nodup_iff.mpr (List.nodup_cons.mpr ⟨unlisted, ongoing.nodup⟩)

theorem declared_mirrors (mirrors : Mirrors model hooks host.backend outer values flow env state)
    {made : Address} (collapsed : Collapsed state made)
    (unlisted : made ∉ state.locals ++ state.temporaries)
    (result : state.session.canonical made ∈ produced state.session.operations)
    {origin : Nat} (numbered : origin ≤ flow.origins.length)
    (sharing : ∀ (index : Nat) (address : Address), state.locals[index]? = some address →
      (state.session.canonical address = state.session.canonical made ↔
        flow.origins[index]? = some origin))
    {stale : Bool} {value : V}
    (fresh : stale = false → store values state (state.session.canonical made) = value) :
    Mirrors model hooks host.backend outer values (flow.declare origin stale)
      (env.declare value) (declaring made state) := by
  have tracked := mirrors.tracked
  have againstNew : ∀ name address, Located outer state name address →
      name ≠ .inner state.locals.length →
      (state.session.canonical address = state.session.canonical made ↔
        (flow.declare origin stale).shares name (.inner state.locals.length) = true) := by
    intro name address located old
    cases name with
    | outer caller =>
        obtain ⟨callers, same⟩ := located
        obtain ⟨-, itself, single⟩ := mirrors.ongoing.outerAlive caller callers
        have owned := mirrors.owned _ result
        constructor
        · intro stands
          rw [same, itself] at stands
          rw [← stands, single] at owned
          cases owned
        · intro shares
          simp [Flow.shares] at shares
    | inner index =>
        rw [← tracked] at old ⊢
        rw [declare_shares_new flow origin stale fun same => old (congrArg Variable.inner same)]
        exact sharing index address located
  constructor
  · exact declaring_ongoing mirrors.ongoing collapsed unlisted
  · exact grounded_same mirrors.grounded rfl rfl rfl
  · simp only [Environment.declare, declaring, List.length_append, mirrors.declared,
      List.length_singleton]
  · simp only [Flow.declare, declaring, List.length_append, tracked, List.length_singleton]
  · intro other member
    rw [Flow.declare, List.length_append, List.length_singleton]
    rcases List.mem_append.mp member with before | new
    · have bound := mirrors.numbered other before
      omega
    · have same : other = origin := List.mem_singleton.mp new
      omega
  · exact mirrors.owned
  · intro address listed
    rcases List.mem_append.mp listed with before | new
    · exact mirrors.results address before
    · rw [List.mem_singleton.mp new]
      exact result
  · intro name other first second one two
    rcases located_declaring one with ⟨one, oldName⟩ | ⟨newName, place⟩
    · rcases located_declaring two with ⟨two, oldOther⟩ | ⟨newOther, place⟩
      · rw [declare_shares flow origin stale (tracked ▸ oldName) (tracked ▸ oldOther)]
        exact mirrors.shared name other first second one two
      · rw [place, newOther]
        exact againstNew name first one oldName
    · rcases located_declaring two with ⟨two, oldOther⟩ | ⟨newOther, placeOther⟩
      · rw [place, newName, shares_comm, eq_comm]
        exact againstNew other second two oldOther
      · rw [place, placeOther, newName, newOther, shares_self]
        exact ⟨fun _ => rfl, fun _ => rfl⟩
  · intro name address located clean
    rcases located_declaring located with ⟨before, old⟩ | ⟨new, place⟩
    · have apart : name ≠ .inner flow.origins.length := tracked ▸ old
      simp only [Flow.declare, Function.update_of_ne apart] at clean
      have agreed := mirrors.agrees name address before clean
      cases name with
      | outer caller => exact agreed
      | inner index =>
          have position : index ≠ env.locals.length := by
            rw [mirrors.declared]
            exact fun same => old (congrArg Variable.inner same)
          rw [get_inner] at agreed ⊢
          rw [Environment.declare, snoc_lookup, if_neg position]
          exact agreed
    · simp only [new, Flow.declare, ← tracked, Function.update_self] at clean
      rw [new, place, get_inner, ← mirrors.declared, Environment.declare, snoc_lookup, if_pos rfl,
        ← fresh clean]
      rfl

theorem initialized_mirrors (ongoing : Ongoing outer state) (start : state.temporaries = [])
    (within : Within outer state later)
    (mirrors : Mirrors model hooks host.backend outer values flow env later)
    {made : Address} (collapsed : Collapsed later made)
    (unlisted : made ∉ later.locals ++ later.temporaries)
    (result : later.session.canonical made ∈ produced later.session.operations)
    {origin : Nat} (numbered : origin ≤ flow.origins.length)
    (sharing : ∀ (index : Nat) (address : Address), later.locals[index]? = some address →
      (later.session.canonical address = later.session.canonical made ↔
        flow.origins[index]? = some origin))
    {stale : Bool} {value : V}
    (fresh : stale = false → store values later (later.session.canonical made) = value) :
    Mirrors model hooks host.backend outer values (flow.declare origin stale)
      (env.declare value) (declaring made later.destroyTemporaries) := by
  rw [List.mem_append, not_or] at unlisted
  obtain ⟨-, extended, none, operations, objects, -⟩ := temporaries_end within start ongoing
  have locals := extended.locals.trans within.extended.locals.symm
  obtain ⟨alive, stands⟩ := temporaries_spare mirrors.ongoing collapsed.alive unlisted.2
  apply declared_mirrors (ended_mirrors ongoing start within mirrors)
  · constructor
    · exact alive
    · rw [stands]
      exact collapsed.elsewhere
    · rw [objects]
      exact collapsed.single
    · rw [objects]
      exact collapsed.bare
  · rw [locals, none, List.append_nil]
    exact unlisted.1
  · rw [stands, operations]
    exact result
  · exact numbered
  · intro index address listed
    rw [locals] at listed
    have located : Located outer later (.inner index) address := listed
    rw [stands, (temporaries_spare mirrors.ongoing (located_alive mirrors.ongoing located)
      (located_spared mirrors.ongoing located)).2]
    exact sharing index address listed
  · intro clean
    rw [store_same operations objects, stands]
    exact fresh clean

omit [Add V] [Mul V] [IntCast V] in
/-- The result of an operator is made in place: the expression would hold it as a temporary. -/
theorem initializer_evaluates {value : Expr Address} (compound : ∀ name, value ≠ .read name)
    {made : Address} (ran : initializer host value state = (.ok made, later)) :
    evaluate host value state = (.ok made, held made later) := by
  cases value with
  | read name => exact absurd rfl (compound name)
  | combine operator lhs rhs =>
      obtain ⟨this, middle, ranLeft, rest⟩ := returned_bind ran
      obtain ⟨other, late, ranRight, combines⟩ := returned_bind rest
      rw [evaluate, bind_returned ranLeft, bind_returned ranRight, bind_returned combines]
      rfl
  | combineScalar operator lhs scalar =>
      obtain ⟨this, middle, ranLeft, combines⟩ := returned_bind ran
      rw [evaluate, bind_returned ranLeft, bind_returned combines]
      rfl

omit [DecidableEq Address] [Add V] [Mul V] [IntCast V] in
theorem unheld_ongoing {made : Address} (ongoing : Ongoing outer (held made state)) :
    Ongoing outer state ∧ Collapsed state made ∧ made ∉ state.locals ++ state.temporaries := by
  have reordered : (state.locals ++ made :: state.temporaries).Perm
      (made :: (state.locals ++ state.temporaries)) := List.perm_middle
  have nodup := List.nodup_cons.mp (reordered.nodup_iff.mp ongoing.nodup)
  have automatic : ∀ address ∈ made :: (state.locals ++ state.temporaries),
      Collapsed state address := by
    intro address member
    have fine := ongoing.automatic address (reordered.mem_iff.mpr member)
    exact ⟨fine.alive, fine.elsewhere, fine.single, fine.bare⟩
  refine ⟨⟨⟨sound_of_same ongoing.active.sound rfl (fun _ => rfl) rfl, ongoing.active.recording⟩,
    ongoing.unpoisoned, ongoing.outerAlive, ?_, nodup.2⟩, automatic made List.mem_cons_self,
    nodup.1⟩
  intro address member
  exact automatic address (List.mem_cons_of_mem _ member)

/-- `Fhenon<int> t = lhs + rhs` -/
theorem declare_result_mirrors (law : EncryptLaw model hooks host)
    (mirrors : Mirrors model hooks host.backend outer values flow env state)
    (start : state.temporaries = []) {value : Expr Address} (reads : Reads outer value)
    (compound : ∀ name, value ≠ .read name) {made : Address}
    (ran : initializer host value state = (.ok made, later)) :
    ∃ result, valueOf env value = some result ∧
      Mirrors model hooks host.backend outer values
        (flow.declare flow.origins.length (flow.tainted value)) (env.declare result)
        (declaring made later.destroyTemporaries) := by
  have evaluated := evaluate_mirrors law value reads mirrors (initializer_evaluates compound ran)
  obtain ⟨ongoing, collapsed, unlisted⟩ := unheld_ongoing evaluated.within.ongoing
  obtain ⟨new, result⟩ := evaluated.made compound
  obtain ⟨known, computes, fresh⟩ := evaluated.computes
  have extended : Extends state later :=
    ⟨evaluated.within.extended.live, evaluated.within.extended.objects,
      evaluated.within.extended.canonical, evaluated.within.extended.poison,
      evaluated.within.extended.locals⟩
  have within : Within outer state later := by
    refine ⟨ongoing, extended, ?_⟩
    obtain ⟨temporaries, same, fresh⟩ := evaluated.within.temporaries
    rw [start, List.append_nil] at same
    refine ⟨later.temporaries, by rw [start, List.append_nil], ?_⟩
    intro address member
    apply fresh address
    rw [← same]
    exact List.mem_cons_of_mem _ member
  have unheld : Mirrors model hooks host.backend outer values flow env later :=
    mirrors_transfer evaluated.mirrors ongoing
      ⟨evaluated.mirrors.grounded.recorded, evaluated.mirrors.grounded.supplied,
        evaluated.mirrors.grounded.plain⟩ rfl
      (fun _ _ _ => rfl) (fun _ _ _ => rfl) (fun _ made => made) evaluated.mirrors.owned
  refine ⟨known, computes, ?_⟩
  apply initialized_mirrors mirrors.ongoing start within unheld collapsed unlisted result le_rfl ?_
    fresh
  intro index address listed
  rw [extended.locals] at listed
  have located : Located outer state (.inner index) address := listed
  have alive := located_alive mirrors.ongoing located
  have resolved := (mirrors.ongoing.active.sound.resolves address alive).alive
  rw [extended.canonical address alive]
  constructor
  · intro stands
    rw [stands] at resolved
    exact absurd resolved new
  · intro numbered
    have bound := mirrors.numbered _ (List.mem_of_getElem? numbered)
    exact absurd bound (Nat.lt_irrefl _)

/-- `Fhenon<int> u = t`: only a copy of a local is recorded. -/
theorem declare_copy_mirrors
    (mirrors : Mirrors model hooks host.backend outer values flow env state)
    (start : state.temporaries = []) {name : Variable Address} (callers : OfCaller outer name)
    {made : Address} (ran : initializer host (.read name) state = (.ok made, later)) :
    ∃ result, valueOf env (.read name) = some result ∧
      Mirrors model hooks host.backend outer values
        (flow.declare (flow.origin (.read name)) (flow.tainted (.read name))) (env.declare result)
        (declaring made later.destroyTemporaries) := by
  obtain ⟨other, middle, located, copies⟩ := returned_bind ran
  obtain ⟨same, located⟩ := locate_returned callers located
  subst same
  have ongoing := mirrors.ongoing
  have alive := located_alive ongoing located
  cases shared : (middle.objects (middle.session.canonical other)).shared with
  | false =>
      rw [copy_construct_throws ongoing.active alive shared] at copies
      cases (Prod.mk.inj copies).1
  | true =>
      rw [copy_construct_eq ongoing.active alive shared] at copies
      obtain ⟨place, final⟩ := Prod.mk.inj copies
      rw [← Except.ok.inj place, ← final]
      cases name with
      | outer caller =>
          obtain ⟨callers, same⟩ := located
          obtain ⟨-, itself, single⟩ := ongoing.outerAlive caller callers
          rw [same, itself, single] at shared
          cases shared
      | inner index =>
          have listed : middle.locals[index]? = some other := located
          have extended : Extends middle (copied host other middle) := copied_extends other
          have active : Active (copied host other middle) :=
            copied_active ongoing.active alive shared
          have new : middle.nextAddress host ∉ middle.live := next_unused host middle
          have stands : (copied host other middle).session.canonical (middle.nextAddress host) =
              middle.session.canonical other := by
            simp only [copied, State.onSession, construct_session]
            rw [set_entity_canonical, if_pos rfl]
          have object : (copied host other middle).objects (middle.nextAddress host) =
              copyOf middle other := construct_self _ _
          have resolved := (ongoing.active.sound.resolves other alive).alive
          have collapsed : Collapsed (copied host other middle) (middle.nextAddress host) := by
            constructor
            · exact Finset.mem_insert_self _ _
            · rw [stands]
              exact ne_next resolved
            · rw [object]
              rfl
            · rw [object]
              exact (ongoing.automatic other
                (List.mem_append_left _ (List.mem_of_getElem? listed))).bare
          have known : flow.origins[index]? = some (flow.origin (.read (.inner index))) := by
            have bound := (List.getElem?_eq_some_iff.mp listed).1
            rw [← mirrors.tracked] at bound
            rw [Flow.origin, List.getD_eq_getElem?_getD, List.getElem?_eq_getElem bound,
              Option.getD_some]
          obtain ⟨result, computes, fresh⟩ := located_value mirrors located
          refine ⟨result, computes, ?_⟩
          have copiedMirrors :=
            prepared_mirrors mirrors extended active rfl rfl (fun _ _ live => live)
          apply initialized_mirrors ongoing start (within_extends ongoing extended active rfl)
            copiedMirrors collapsed (automatic_alive ongoing new)
          · rw [stands]
            exact mirrors.results other (List.mem_of_getElem? listed)
          · exact (mirrors.numbered _ (List.mem_of_getElem? known)).le
          · intro second address named
            have place : Located outer middle (.inner second) address := named
            rw [stands, extended.canonical address (located_alive ongoing place),
              mirrors.shared _ _ address other place located, Flow.shares, known,
              decide_eq_true_eq]
          · intro clean
            rw [stands, store_extends ongoing.active extended rfl resolved]
            exact fresh clean

theorem assign_mirrors (law : EncryptLaw model hooks host)
    (mirrors : Mirrors model hooks host.backend outer values flow env state)
    (start : state.temporaries = []) {target : Variable Address} {value : Expr Address}
    (callers : OfCaller outer target) (reads : Reads outer value)
    (ran : perform host (.assign target value) state = (.ok (), later)) :
    ∃ after, executeStatement env (.assign target value) = some after ∧
      Mirrors model hooks host.backend outer values
        (flow.assign target (flow.tainted value) (!flow.rereads target value)) after later ∧
      later.temporaries = [] := by
  obtain ⟨reached, inside, final⟩ := returned_ensuring ran
  obtain ⟨other, middle, evaluates, rest⟩ := returned_bind inside
  obtain ⟨this, same, located, assigns⟩ := returned_bind rest
  obtain ⟨stays, located⟩ := locate_returned callers located
  subst stays
  have evaluated := evaluate_mirrors law value reads mirrors evaluates
  have reading := evaluated.mirrors
  have ongoing := reading.ongoing
  have alive := located_alive ongoing located
  rw [assign_eq ongoing.active alive evaluated.alive] at assigns
  have written : reached = assigned this other same := (Prod.mk.inj assigns).2.symm
  subst written
  have extended : Extends same (assigned this other same) := assigned_extends this other
  have active : Active (assigned this other same) :=
    assigned_active ongoing.active alive evaluated.alive
  have operations : (assigned this other same).session.operations = same.session.operations ++
      [{ type := .assignment
         operand1 := same.session.canonical this
         operand2 := same.session.canonical other }] := by
    simp only [assigned, State.record, State.onSession, Session.saveOp, save_operations]
  have unchanged : (!flow.rereads target value) = false →
      same.session.canonical other = same.session.canonical this := by
    intro still
    rw [Bool.not_eq_false'] at still
    cases value with
    | read name =>
        obtain ⟨-, source⟩ := locate_returned reads evaluates
        rw [← located_locals evaluated.continues.extended.locals] at source
        exact (reading.shared name target other this source located).mpr still
    | combine operator lhs rhs => cases still
    | combineScalar operator lhs scalar => cases still
  obtain ⟨result, known, fresh⟩ := evaluated.computes
  have after : Mirrors model hooks host.backend outer values
      (flow.assign target (flow.tainted value) (!flow.rereads target value))
      (env.set target result) (assigned this other same) :=
    written_mirrors reading located extended operations
      (ongoing.active.sound.resolves other evaluated.alive).alive active rfl
      (fun _ _ live => live) (Or.inl evaluated.sourced) fresh unchanged
  have within := within_trans evaluated.within (within_extends ongoing extended active rfl)
  rw [final]
  refine ⟨env.set target result, ?_, ended_mirrors mirrors.ongoing start within after, rfl⟩
  obtain ⟨_, declared, -⟩ := located_value reading located
  rw [executeStatement, known, Option.bind_some, Environment.assign, declared]
  rfl

omit [Add V] [Mul V] [IntCast V] in
theorem assign_scalar_returned (active : Active state) (alive : this ∈ state.live) {scalar : Int}
    (ran : assignScalar host this scalar state = (.ok (), later)) :
    ∃ profile buffer world, host.encrypt profile scalar state.world = (.ok buffer, world) ∧
      later = assignedScalar host this scalar profile buffer world state := by
  cases present : (state.objects (state.session.canonical this)).profile with
  | none =>
      rw [assign_scalar_null active alive scalar present] at ran
      cases (Prod.mk.inj ran).1
  | some profile =>
      rcases encrypts : host.encrypt profile scalar state.world with ⟨message | buffer, world⟩
      · rw [assign_scalar_throws active alive scalar present encrypts] at ran
        cases (Prod.mk.inj ran).1
      · rw [assign_scalar_eq active alive scalar present encrypts] at ran
        exact ⟨profile, buffer, world, encrypts, (Prod.mk.inj ran).2.symm⟩

theorem assign_scalar_mirrors (law : EncryptLaw model hooks host)
    (mirrors : Mirrors model hooks host.backend outer values flow env state)
    (start : state.temporaries = []) {target : Variable Address} {scalar : Int}
    (callers : OfCaller outer target)
    (ran : perform host (.assignScalar target scalar) state = (.ok (), later)) :
    ∃ after, executeStatement env (.assignScalar target scalar) = some after ∧
      Mirrors model hooks host.backend outer values (flow.assign target false true) after later ∧
      later.temporaries = [] := by
  obtain ⟨this, middle, located, assigns⟩ := returned_bind ran
  obtain ⟨stays, located⟩ := locate_returned callers located
  subst stays
  have ongoing := mirrors.ongoing
  have alive := located_alive ongoing located
  obtain ⟨profile, buffer, world, encrypts, written⟩ :=
    assign_scalar_returned ongoing.active alive assigns
  have extended : Extends middle (assignReady host this scalar profile buffer world middle) :=
    assign_ready_extends this scalar profile buffer world
  have active : Active (assignReady host this scalar profile buffer world middle) :=
    assign_ready_active ongoing.active this scalar profile buffer world
  have prepared : (assignReady host this scalar profile buffer world middle).session.operations =
      middle.session.operations := assign_ready_operations this scalar profile buffer world
  have ready := prepared_mirrors mirrors extended active rfl prepared
    (encrypt_keeps law encrypts)
  have found : Located outer (assignReady host this scalar profile buffer world middle) target
      this := (located_locals extended.locals).mpr located
  have operations : later.session.operations =
      (assignReady host this scalar profile buffer world middle).session.operations ++
        [{ type := .assignment
           operand1 := (assignReady host this scalar profile buffer world middle).session.canonical
             this
           operand2 := middle.nextAddress host }] := by
    rw [written, extended.canonical this alive]
    rfl
  have literal : startValue values (assignReady host this scalar profile buffer world middle)
      (middle.nextAddress host) = (scalar : V) := by
    rw [startValue, assign_ready_object]
    rfl
  have recording : Extends (assignReady host this scalar profile buffer world middle) later := by
    rw [written]
    exact record_extends _
  have after : Mirrors model hooks host.backend outer values (flow.assign target false true)
      (env.set target (scalar : V)) later := by
    apply written_mirrors ready found recording operations (Finset.mem_insert_self _ _)
    · rw [written]
      exact assigned_scalar_active ongoing.active alive scalar profile buffer world
    · rw [written]
      rfl
    · rw [written]
      exact fun _ _ live => live
    · right
      rw [literal, assign_ready_object]
      exact encrypted_supplies law encrypts _
    · intro _
      rw [unmentioned_store ongoing.active prepared (next_unused host middle), literal]
    · intro absurd
      cases absurd
  obtain ⟨_, declared, -⟩ := located_value mirrors located
  refine ⟨env.set target (scalar : V), ?_, after, ?_⟩
  · rw [executeStatement, Environment.assign, declared]
    rfl
  · rw [written]
    exact start

/-- One statement is recorded as it is executed. -/
theorem perform_mirrors (law : EncryptLaw model hooks host) (statement : Statement Address)
    (uses : Uses outer statement)
    (mirrors : Mirrors model hooks host.backend outer values flow env state)
    (start : state.temporaries = []) (ran : perform host statement state = (.ok (), later)) :
    ∃ after, executeStatement env statement = some after ∧
      Mirrors model hooks host.backend outer values (flow.through statement) after later ∧
      later.temporaries = [] := by
  cases statement with
  | declare value =>
      obtain ⟨made, ended, inside, declares⟩ := returned_bind ran
      obtain ⟨reached, initializes, final⟩ := returned_ensuring inside
      have last : later = declaring made reached.destroyTemporaries := by
        rw [← final]
        exact (Prod.mk.inj declares).2.symm
      have declared : ∃ result, valueOf env value = some result ∧
          Mirrors model hooks host.backend outer values (flow.through (.declare value))
            (env.declare result) (declaring made reached.destroyTemporaries) := by
        cases value with
        | read name => exact declare_copy_mirrors mirrors start uses initializes
        | combine operator lhs rhs =>
            exact declare_result_mirrors law mirrors start uses (fun name same => by cases same)
              initializes
        | combineScalar operator lhs scalar =>
            exact declare_result_mirrors law mirrors start uses (fun name same => by cases same)
              initializes
      obtain ⟨result, known, after⟩ := declared
      rw [last]
      refine ⟨env.declare result, ?_, after, rfl⟩
      rw [executeStatement, known, Option.map_some]
  | assign target value => exact assign_mirrors law mirrors start uses.1 uses.2 ran
  | assignScalar target scalar => exact assign_scalar_mirrors law mirrors start uses ran
  | raise message => cases (Prod.mk.inj ran).1

theorem each_mirrors (law : EncryptLaw model hooks host) (body : List (Statement Address))
    (uses : ∀ statement ∈ body, Uses outer statement)
    (mirrors : Mirrors model hooks host.backend outer values flow env state)
    (start : state.temporaries = []) (ran : each (perform host) body state = (.ok (), later)) :
    ∃ after, executeBody body env = some after ∧
      Mirrors model hooks host.backend outer values (body.foldl Flow.through flow) after later ∧
      later.temporaries = [] := by
  induction body generalizing flow env state with
  | nil =>
      have same : state = later := (Prod.mk.inj ran).2
      rw [← same]
      exact ⟨env, rfl, mirrors, start⟩
  | cons statement rest induction =>
      obtain ⟨_, middle, first, others⟩ := returned_bind ran
      obtain ⟨between, executes, recorded, none⟩ :=
        perform_mirrors law statement (uses statement List.mem_cons_self) mirrors start first
      obtain ⟨after, remaining, final, noTemporaries⟩ := induction
        (fun other member => uses other (List.mem_cons_of_mem _ member)) recorded none others
      refine ⟨after, ?_, final, noTemporaries⟩
      rw [executeBody, List.foldlM_cons, executes]
      exact remaining

end Fhenomenon.MirroredBodies
