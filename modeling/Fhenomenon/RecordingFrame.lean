import Fhenomenon.RecordingSteps
import Fhenomenon.SessionBodies

/-!
# What recording leaves alone

Recording adds objects, entries and operations. Objects that were alive keep
their fields and what they stand for, and the locals and temporaries that a
lambda makes are copies that stand for shared objects, so their deaths are not
noticed.
-/

namespace Fhenomenon.RecordingFrame

open Fhenomenon.Lib.Fallible Fhenomenon.RecordedGraph Fhenomenon.Recording
open Fhenomenon.EntityMap Fhenomenon.RecordingSteps Fhenomenon.SessionBodies

variable {Address Ptr Profile σ : Type} [DecidableEq Address]
  {host : Host Address Ptr Profile σ} {state later last : State Address Ptr Profile σ}

/-- `later` comes after `state` in one recording. -/
structure Extends (state later : State Address Ptr Profile σ) : Prop where
  live : state.live ⊆ later.live
  objects : ∀ address ∈ state.live, later.objects address = state.objects address
  canonical : ∀ address ∈ state.live,
    later.session.canonical address = state.session.canonical address
  poison : later.session.poison = state.session.poison
  locals : later.locals = state.locals

omit [DecidableEq Address] in
theorem extends_refl (state : State Address Ptr Profile σ) : Extends state state :=
  ⟨fun _ alive => alive, fun _ _ => rfl, fun _ _ => rfl, rfl, rfl⟩

omit [DecidableEq Address] in
theorem extends_trans (first : Extends state later) (second : Extends later last) :
    Extends state last where
  live := fun _ alive => second.live (first.live alive)
  objects := by
    intro address alive
    rw [second.objects address (first.live alive), first.objects address alive]
  canonical := by
    intro address alive
    rw [second.canonical address (first.live alive), first.canonical address alive]
  poison := second.poison.trans first.poison
  locals := second.locals.trans first.locals

theorem save_extends (entity : Address) : Extends state (state.save entity) :=
  ⟨fun _ alive => alive, fun _ _ => rfl, fun _ _ => save_canonical _ _, save_poison _, rfl⟩

omit [DecidableEq Address] in
theorem record_extends (operation : Operation Address) :
    Extends state (state.record operation) :=
  ⟨fun _ alive => alive, fun _ _ => rfl, fun _ _ => rfl, rfl, rfl⟩

omit [DecidableEq Address] in
theorem ne_next {address : Address} (alive : address ∈ state.live) :
    address ≠ state.nextAddress host := by
  intro same
  rw [same] at alive
  exact next_unused host state alive

theorem construct_extends (object : Object Ptr Profile) :
    Extends state (state.construct (state.nextAddress host) object) where
  live := fun _ alive => Finset.mem_insert_of_mem alive
  objects := by
    intro address alive
    exact construct_other (ne_next alive) object
  canonical := fun _ _ => rfl
  poison := rfl
  locals := rfl

theorem copied_extends (other : Address) : Extends state (copied host other state) where
  live := fun _ alive => Finset.mem_insert_of_mem alive
  objects := by
    intro address alive
    exact construct_other (ne_next alive) _
  canonical := by
    intro address alive
    simp only [copied, State.onSession, construct_session]
    rw [set_entity_canonical, if_neg (ne_next alive)]
  poison := rfl
  locals := rfl

theorem recorded_extends (operator : Arithmetic) (this other : Address) :
    Extends state (recorded host operator this other state) := by
  have saved : Extends state ((state.save this).save other) :=
    extends_trans (save_extends this) (save_extends other)
  have made : Extends ((state.save this).save other) (((state.save this).save other).construct
      (state.nextAddress host) { val := 1234, shared := true }) := construct_extends _
  exact extends_trans saved (extends_trans made (extends_trans (save_extends _)
    (record_extends _)))

theorem combined_extends (operator : Arithmetic) (this other : Address) :
    Extends state (combined host operator this other state) :=
  extends_trans (recorded_extends operator this other) (copied_extends _)

theorem belonging_extends {this : Address} (new : this ∉ state.live)
    (extended : Extends state later) (profile : Profile) (buffer : Ptr) (world : σ) :
    Extends state (belonging host this profile buffer world later) where
  live := extended.live
  objects := by
    intro address alive
    have different : address ≠ this := by
      intro same
      rw [same] at alive
      exact new alive
    simp only [belonging, save_objects]
    rw [on_object_other different, extended.objects address alive]
  canonical := by
    intro address alive
    simp only [belonging]
    rw [save_canonical]
    exact extended.canonical address alive
  poison := by
    simp only [belonging]
    rw [save_poison]
    exact extended.poison
  locals := extended.locals

theorem with_literal_extends (object : Object Ptr Profile) :
    Extends state (withLiteral host object state) :=
  construct_extends _

def literalReady (host : Host Address Ptr Profile σ) (scalar : Int) (profile : Profile)
    (buffer : Ptr) (world : σ) (state : State Address Ptr Profile σ) :
    State Address Ptr Profile σ :=
  belonging host (state.nextAddress host) profile buffer world
    (withLiteral host { val := scalar, isScalar := true } state)

theorem literal_ready_extends (scalar : Int) (profile : Profile) (buffer : Ptr) (world : σ) :
    Extends state (literalReady host scalar profile buffer world state) :=
  belonging_extends (next_unused host state) (with_literal_extends _) profile buffer world

theorem literal_ready_active (active : Active state) (scalar : Int) (profile : Profile)
    (buffer : Ptr) (world : σ) : Active (literalReady host scalar profile buffer world state) :=
  belonging_active (with_literal_active active _) _ _ _ _

theorem literal_ready_object (scalar : Int) (profile : Profile) (buffer : Ptr) (world : σ) :
    (literalReady host scalar profile buffer world state).objects (state.nextAddress host) =
      encrypted host state buffer
        { val := scalar, isScalar := true, profile := some profile, shared := true } := by
  simp only [literalReady, belonging, save_objects, on_object_self, withLiteral, construct_self]
  rfl

theorem literal_ready_canonical (active : Active state) (scalar : Int) (profile : Profile)
    (buffer : Ptr) (world : σ) :
    (literalReady host scalar profile buffer world state).session.canonical
      (state.nextAddress host) = state.nextAddress host := by
  simp only [literalReady, belonging]
  rw [save_canonical]
  exact active.sound.dead _ (next_unused host state)

theorem literal_ready_alive (scalar : Int) (profile : Profile) (buffer : Ptr) (world : σ) :
    state.nextAddress host ∈ (literalReady host scalar profile buffer world state).live :=
  Finset.mem_insert_self _ _

theorem literal_ready_operations (scalar : Int) (profile : Profile) (buffer : Ptr) (world : σ) :
    (literalReady host scalar profile buffer world state).session.operations =
      state.session.operations := by
  simp only [literalReady, belonging]
  rw [save_operations]
  rfl

theorem assigned_scalar_extends (this : Address) (scalar : Int) (profile : Profile)
    (buffer : Ptr) (world : σ) :
    Extends state (assignedScalar host this scalar profile buffer world state) := by
  have made : Extends (state.save this) (withLiteral host { val := scalar } (state.save this)) :=
    with_literal_extends _
  have belongs : Extends (state.save this) (belonging host (state.nextAddress host) profile buffer
      world (withLiteral host { val := scalar } (state.save this))) :=
    belonging_extends (next_unused host (state.save this)) made _ _ _
  exact extends_trans (save_extends this) (extends_trans belongs (record_extends _))

/-- A copy of the lambda: it stands for another object. -/
structure Collapsed (state : State Address Ptr Profile σ) (address : Address) : Prop where
  alive : address ∈ state.live
  elsewhere : state.session.canonical address ≠ address
  single : (state.objects address).shared = false
  bare : (state.objects address).profile = none

/-- A recording that is not poisoned, with the caller's variables `outer`. -/
structure Ongoing (outer : Address → Prop) (state : State Address Ptr Profile σ) : Prop where
  active : Active state
  unpoisoned : state.session.poison = none
  outerAlive : ∀ address, outer address → address ∈ state.live ∧
    state.session.canonical address = address ∧ (state.objects address).shared = false
  automatic : ∀ address ∈ state.locals ++ state.temporaries, Collapsed state address
  nodup : (state.locals ++ state.temporaries).Nodup

variable {outer : Address → Prop}

omit [DecidableEq Address] in
theorem collapsed_extends (extended : Extends state later) {address : Address}
    (collapsed : Collapsed state address) : Collapsed later address where
  alive := extended.live collapsed.alive
  elsewhere := by
    rw [extended.canonical address collapsed.alive]
    exact collapsed.elsewhere
  single := by
    rw [extended.objects address collapsed.alive]
    exact collapsed.single
  bare := by
    rw [extended.objects address collapsed.alive]
    exact collapsed.bare

omit [DecidableEq Address] in
theorem ongoing_extends (ongoing : Ongoing outer state) (extended : Extends state later)
    (active : Active later) (temporaries : later.temporaries = state.temporaries) :
    Ongoing outer later where
  active := active
  unpoisoned := extended.poison.trans ongoing.unpoisoned
  outerAlive := by
    intro address caller
    obtain ⟨alive, itself, single⟩ := ongoing.outerAlive address caller
    refine ⟨extended.live alive, ?_, ?_⟩
    · rw [extended.canonical address alive, itself]
    · rw [extended.objects address alive, single]
  automatic := by
    rw [temporaries, extended.locals]
    exact fun address member => collapsed_extends extended (ongoing.automatic address member)
  nodup := by
    rw [temporaries, extended.locals]
    exact ongoing.nodup

theorem ready_ongoing (ongoing : Ongoing outer state) (scalar : Int) (profile : Profile)
    (buffer : Ptr) (world : σ) :
    Ongoing outer (literalReady host scalar profile buffer world state) :=
  ongoing_extends ongoing (literal_ready_extends _ _ _ _)
    (literal_ready_active ongoing.active _ _ _ _) rfl

theorem destroy_collapsed (active : Active later) {address : Address}
    (collapsed : Collapsed later address) (extended : Extends state later)
    (new : address ∉ state.live) :
    Active (later.destroy address) ∧ Extends state (later.destroy address) := by
  have unregistered : later.session.entityMap address ≠ some address := by
    intro entry
    exact collapsed.elsewhere (canonical_eq_self.mpr (Or.inr entry))
  constructor
  · refine ⟨destroy_sound active.sound active.recording
      (collapsed_unreferenced active.sound collapsed.elsewhere) ?_, ?_⟩
    · intro operation member holds
      rcases (active.sound.operands operation member address holds).noticed with shared | entry
      · rw [collapsed.single] at shared
        cases shared
      · exact unregistered entry
    · rw [destroy_active]
      exact active.recording
  · have different (other : Address) (alive : other ∈ state.live) : other ≠ address := by
      intro same
      rw [same] at alive
      exact new alive
    constructor
    · intro other alive
      exact Finset.mem_erase.mpr ⟨different other alive, extended.live alive⟩
    · exact fun other alive => extended.objects other alive
    · intro other alive
      rw [destroy_canonical active.recording, if_neg (different other alive)]
      exact extended.canonical other alive
    · rw [destroy_poison active.recording unregistered]
      exact extended.poison
    · exact extended.locals

theorem destroy_each (addresses : List Address) (active : Active later)
    (collapsed : ∀ address ∈ addresses, Collapsed later address) (nodup : addresses.Nodup)
    (extended : Extends state later) (new : ∀ address ∈ addresses, address ∉ state.live) :
    Active (addresses.foldl (fun reached address => reached.destroy address) later) ∧
      Extends state (addresses.foldl (fun reached address => reached.destroy address) later) ∧
      (addresses.foldl (fun reached address => reached.destroy address) later).session.operations =
        later.session.operations ∧
      (addresses.foldl (fun reached address => reached.destroy address) later).objects =
        later.objects ∧
      runState (addresses.foldl (fun reached address => reached.destroy address) later) =
        runState later := by
  induction addresses generalizing later with
  | nil => exact ⟨active, extended, rfl, rfl, rfl⟩
  | cons address rest induction =>
      rw [List.nodup_cons] at nodup
      obtain ⟨stillActive, stillExtends⟩ := destroy_collapsed active
        (collapsed address List.mem_cons_self) extended (new address List.mem_cons_self)
      have remaining : ∀ other ∈ rest, Collapsed (later.destroy address) other := by
        intro other member
        have before := collapsed other (List.mem_cons_of_mem _ member)
        have different : other ≠ address := by
          intro same
          rw [same] at member
          exact nodup.1 member
        constructor
        · exact Finset.mem_erase.mpr ⟨different, before.alive⟩
        · rw [destroy_canonical active.recording, if_neg different]
          exact before.elsewhere
        · exact before.single
        · exact before.bare
      obtain ⟨lastActive, lastExtends, operations, objects, seen⟩ := induction stillActive remaining
        nodup.2 stillExtends (fun other member => new other (List.mem_cons_of_mem _ member))
      refine ⟨lastActive, lastExtends, ?_, ?_, ?_⟩
      · rw [List.foldl_cons, operations, destroy_operations]
      · rw [List.foldl_cons, objects]
        rfl
      · rw [List.foldl_cons, seen]
        rfl

/-- `later` is reached inside one full expression that began in `state`. -/
structure Within (outer : Address → Prop) (state later : State Address Ptr Profile σ) : Prop where
  ongoing : Ongoing outer later
  extended : Extends state later
  temporaries : ∃ made, later.temporaries = made ++ state.temporaries ∧
    ∀ address ∈ made, address ∉ state.live

omit [DecidableEq Address] in
theorem within_refl (ongoing : Ongoing outer state) : Within outer state state :=
  ⟨ongoing, extends_refl state, [], rfl, fun _ absent => by cases absent⟩

omit [DecidableEq Address] in
theorem within_trans (first : Within outer state later) (second : Within outer later last) :
    Within outer state last := by
  obtain ⟨earlier, earlierEq, earlierNew⟩ := first.temporaries
  obtain ⟨made, madeEq, madeNew⟩ := second.temporaries
  refine ⟨second.ongoing, extends_trans first.extended second.extended, made ++ earlier, ?_, ?_⟩
  · rw [madeEq, earlierEq, List.append_assoc]
  · intro address member
    rcases List.mem_append.mp member with new | old
    · exact fun alive => madeNew address new (first.extended.live alive)
    · exact earlierNew address old

omit [DecidableEq Address] in
theorem within_extends (ongoing : Ongoing outer state) (extended : Extends state later)
    (active : Active later) (temporaries : later.temporaries = state.temporaries) :
    Within outer state later :=
  ⟨ongoing_extends ongoing extended active temporaries, extended, [], temporaries,
    fun _ absent => by cases absent⟩

def held (address : Address) (state : State Address Ptr Profile σ) : State Address Ptr Profile σ :=
  { state with temporaries := address :: state.temporaries }

omit [DecidableEq Address] in
theorem hold_temporary_eq (address : Address) :
    holdTemporary address state = (.ok address, held address state) :=
  rfl

omit [DecidableEq Address] in
theorem held_within (within : Within outer state later) {address : Address}
    (collapsed : Collapsed later address) (new : address ∉ state.live)
    (unlisted : address ∉ later.locals ++ later.temporaries) :
    Within outer state (held address later) where
  ongoing :=
    { active := ⟨sound_of_same within.ongoing.active.sound rfl (fun _ => rfl) rfl,
        within.ongoing.active.recording⟩
      unpoisoned := within.ongoing.unpoisoned
      outerAlive := within.ongoing.outerAlive
      automatic := by
        intro other member
        have cases : other = address ∨ other ∈ later.locals ++ later.temporaries := by
          simp only [held, List.mem_append, List.mem_cons] at member ⊢
          tauto
        have fine : Collapsed later other := by
          rcases cases with same | before
          · rw [same]
            exact collapsed
          · exact within.ongoing.automatic other before
        exact ⟨fine.alive, fine.elsewhere, fine.single, fine.bare⟩
      nodup := by
        have reordered : (later.locals ++ address :: later.temporaries).Perm
            (address :: (later.locals ++ later.temporaries)) := List.perm_middle
        exact reordered.nodup_iff.mpr (List.nodup_cons.mpr ⟨unlisted, within.ongoing.nodup⟩) }
  extended := ⟨within.extended.live, within.extended.objects, within.extended.canonical,
    within.extended.poison, within.extended.locals⟩
  temporaries := by
    obtain ⟨made, madeEq, madeNew⟩ := within.temporaries
    refine ⟨address :: made, ?_, ?_⟩
    · rw [held, madeEq]
      rfl
    · intro other member
      rcases List.mem_cons.mp member with same | before
      · rw [same]
        exact new
      · exact madeNew other before

/-- Where the copy of the result is. -/
def returned (host : Host Address Ptr Profile σ) (operator : Arithmetic) (this other : Address)
    (state : State Address Ptr Profile σ) : Address :=
  (recorded host operator this other state).nextAddress host

variable {this other : Address}

omit [DecidableEq Address] in
theorem result_next (active : Active state) :
    state.session.canonical (state.nextAddress host) = state.nextAddress host :=
  active.sound.dead _ (next_unused host state)

theorem returned_canonical (active : Active state) (operator : Arithmetic) :
    (combined host operator this other state).session.canonical
      (returned host operator this other state) = state.nextAddress host := by
  simp only [combined, copied, State.onSession, construct_session]
  rw [set_entity_canonical, returned, if_pos rfl, recorded_canonical]
  exact result_next active

theorem result_recorded (operator : Arithmetic) :
    state.nextAddress host ∈ (recorded host operator this other state).live :=
  Finset.mem_insert_self _ _

theorem returned_collapsed (active : Active state) (operator : Arithmetic) :
    Collapsed (combined host operator this other state)
      (returned host operator this other state) where
  alive := Finset.mem_insert_self _ _
  elsewhere := by
    rw [returned_canonical active]
    exact ne_next (result_recorded operator)
  single := by
    have fresh : (combined host operator this other state).objects
        (returned host operator this other state) =
          copyOf (recorded host operator this other state) (state.nextAddress host) :=
      construct_self _ _
    rw [fresh]
    rfl
  bare := by
    have fresh : (combined host operator this other state).objects
        (returned host operator this other state) =
          copyOf (recorded host operator this other state) (state.nextAddress host) :=
      construct_self _ _
    rw [fresh, copyOf, recorded_result]

theorem returned_new (operator : Arithmetic) :
    returned host operator this other state ∉ state.live := by
  intro alive
  exact next_unused host _ ((recorded_extends operator this other).live alive)

theorem combined_result (operator : Arithmetic) :
    (combined host operator this other state).objects (state.nextAddress host) =
      { val := 1234, shared := true } := by
  have before : (recorded host operator this other state).objects (state.nextAddress host) =
      { val := 1234, shared := true } := recorded_result operator
  rw [← before]
  exact (copied_extends _).objects _ (result_recorded operator)

omit [DecidableEq Address] in
theorem automatic_alive (ongoing : Ongoing outer state) {address : Address}
    (dead : address ∉ state.live) : address ∉ state.locals ++ state.temporaries :=
  fun member => dead (ongoing.automatic address member).alive

theorem combined_within (ongoing : Ongoing outer state) (operator : Arithmetic)
    (first : this ∈ state.live) (second : other ∈ state.live) :
    Within outer state (combined host operator this other state) :=
  within_extends ongoing (combined_extends operator this other)
    (combined_active ongoing.active operator first second) rfl

theorem combined_held (ongoing : Ongoing outer state) (operator : Arithmetic)
    (first : this ∈ state.live) (second : other ∈ state.live) :
    Within outer state (held (returned host operator this other state)
      (combined host operator this other state)) :=
  held_within (combined_within ongoing operator first second)
    (returned_collapsed ongoing.active operator) (returned_new operator)
    (automatic_alive ongoing (returned_new operator))

theorem evaluate_combine {operator : Arithmetic} {lhs rhs : Expr Address}
    {middle : State Address Ptr Profile σ} (ranLeft : evaluate host lhs state = (.ok this, middle))
    (ranRight : evaluate host rhs middle = (.ok other, later)) (active : Active later)
    (first : this ∈ later.live) (second : other ∈ later.live) :
    evaluate host (.combine operator lhs rhs) state =
      (.ok (returned host operator this other later),
        held (returned host operator this other later)
          (combined host operator this other later)) := by
  rw [evaluate, bind_returned ranLeft, bind_returned ranRight,
    bind_returned (combine_eq active operator first second)]
  exact hold_temporary_eq _

theorem combine_literal_eq (active : Active state) (operator : Arithmetic)
    (alive : this ∈ state.live) (scalar : Int) {profile : Profile}
    (present : (state.objects this).profile = some profile) {buffer : Ptr} {world : σ}
    (encrypts : host.encrypt profile scalar state.world = (.ok buffer, world)) :
    combineScalar host operator this scalar state =
      (.ok (returned host operator this (state.nextAddress host)
          (literalReady host scalar profile buffer world state)),
        combined host operator this (state.nextAddress host)
          (literalReady host scalar profile buffer world state)) :=
  combine_scalar_eq active operator alive scalar present encrypts

theorem evaluate_scalar {operator : Arithmetic} {lhs : Expr Address} {scalar : Int}
    (ran : evaluate host lhs state = (.ok this, later)) (active : Active later)
    (alive : this ∈ later.live) {profile : Profile}
    (present : (later.objects this).profile = some profile) {buffer : Ptr} {world : σ}
    (encrypts : host.encrypt profile scalar later.world = (.ok buffer, world)) :
    evaluate host (.combineScalar operator lhs scalar) state =
      (.ok (returned host operator this (later.nextAddress host)
          (literalReady host scalar profile buffer world later)),
        held (returned host operator this (later.nextAddress host)
            (literalReady host scalar profile buffer world later))
          (combined host operator this (later.nextAddress host)
            (literalReady host scalar profile buffer world later))) := by
  rw [evaluate, bind_returned ran,
    bind_returned (combine_literal_eq active operator alive scalar present encrypts)]
  exact hold_temporary_eq _

/-- When a full expression ends, its temporaries are gone and nothing else changed. -/
theorem temporaries_end (within : Within outer state later) (start : state.temporaries = [])
    (ongoing : Ongoing outer state) :
    Ongoing outer later.destroyTemporaries ∧ Extends state later.destroyTemporaries ∧
      later.destroyTemporaries.temporaries = [] ∧
      later.destroyTemporaries.session.operations = later.session.operations ∧
      later.destroyTemporaries.objects = later.objects ∧
      runState later.destroyTemporaries = runState later := by
  obtain ⟨made, madeEq, new⟩ := within.temporaries
  rw [start, List.append_nil] at madeEq
  have nodup := within.ongoing.nodup
  rw [List.nodup_append] at nodup
  have copies : ∀ address ∈ later.temporaries, Collapsed later address :=
    fun address member => within.ongoing.automatic address (List.mem_append_right _ member)
  obtain ⟨active, extended, operations, objects, seen⟩ := destroy_each later.temporaries
    within.ongoing.active copies nodup.2.1 within.extended (by
      rw [madeEq]
      exact new)
  have whole : Extends state later.destroyTemporaries :=
    ⟨extended.live, extended.objects, extended.canonical, extended.poison, extended.locals⟩
  refine ⟨?_, whole, rfl, operations, objects, seen⟩
  have ended := ongoing_extends ongoing whole
    ⟨sound_of_same active.sound rfl (fun _ => rfl) rfl, active.recording⟩
  exact ended (by rw [start]; rfl)

/-- A session between two runs, with the caller's variables `outer`. Entries of objects that
died in the meantime may be left. -/
structure Ready (outer : Address → Prop) (state : State Address Ptr Profile σ) : Prop where
  noOperations : state.session.operations = []
  unpoisoned : state.session.poison = none
  ownEntries : ∀ key target, state.session.entityMap key = some target → target = key
  outerAlive : ∀ address, outer address →
    address ∈ state.live ∧ (state.objects address).shared = false
  noLocals : state.locals = []
  noTemporaries : state.temporaries = []

omit [DecidableEq Address] in
theorem activate_ongoing (ready : Ready outer state) : Ongoing outer (activate state) := by
  have itself (key : Address) : (activate state).session.canonical key = key := by
    rw [canonical_eq_self]
    cases entry : state.session.entityMap key with
    | none => exact Or.inl entry
    | some target =>
        right
        have same := ready.ownEntries key target entry
        rw [same] at entry
        exact entry
  have none : (activate state).locals ++ (activate state).temporaries = [] := by
    simp only [activate, State.onSession, ready.noLocals, ready.noTemporaries, List.append_nil]
  constructor
  · refine ⟨⟨fun key _ => itself key, ?_, ?_⟩, rfl⟩
    · intro key alive
      constructor
      · rw [itself]
        exact alive
      · exact Or.inl (itself key)
      · rw [itself, itself]
    · intro operation member
      have empty : (activate state).session.operations = [] := ready.noOperations
      rw [empty] at member
      cases member
  · exact ready.unpoisoned
  · intro address caller
    obtain ⟨alive, single⟩ := ready.outerAlive address caller
    exact ⟨alive, itself address, single⟩
  · rw [none]
    intro address member
    cases member
  · rw [none]
    exact List.nodup_nil

section ThreeVariables

/-- Objects at the numbers above all live ones; buffers numbered by the world. -/
def countingHost : Host Nat Nat Unit Nat where
  place := fun _ live => live.sup id + 1
  unused := by
    intro _ live alive
    have bound : live.sup id + 1 ≤ live.sup id := Finset.le_sup (f := id) alive
    omega
  backend := 1
  encrypt := fun _ _ next => (.ok next, next + 1)
  eager := fun _ _ _ next => (.error "not supported", next)

def callersVariable (val : Int) (buffer : Nat) : Object Nat Unit where
  val := val
  ciphertext := some { buffer := { raw := some buffer, control := buffer }, owner := 1 }
  isEncrypted := true
  profile := some ()

def threeVariables : State Nat Nat Unit Nat where
  live := {0, 1, 2}
  objects := fun address => callersVariable (5 + address) address
  nextControl := 3
  world := 3

theorem three_ready : Ready (· < 3) threeVariables where
  noOperations := rfl
  unpoisoned := rfl
  ownEntries := by
    intro key target entry
    cases entry
  outerAlive := by
    intro address caller
    refine ⟨?_, rfl⟩
    have cases : address = 0 ∨ address = 1 ∨ address = 2 := by omega
    rcases cases with rfl | rfl | rfl <;> decide
  noLocals := rfl
  noTemporaries := rfl

end ThreeVariables

end Fhenomenon.RecordingFrame
