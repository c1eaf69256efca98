import Fhenomenon.Lib.GuardedRuns
import Fhenomenon.LibraryResources

/-!
# Corpus backends that move

A `CorpusBackend` is moved from object to object, into itself too, and what is moved from is
left empty. Its context and its library go once, with whatever object has them last.
-/

namespace Fhenomenon.CorpusHandles

open Fhenomenon.Lib.Fallible Fhenomenon.Lib.GuardedRuns Fhenomenon.Lib.RefCounts
open Fhenomenon.LibraryContract Fhenomenon.LibraryLoading Fhenomenon.LibraryResources

variable {Symbol : Type}

structure Objects (Symbol : Type) where
  backend : Nat → Option (CorpusBackend Symbol) := fun _ => none
  process : Option Process := some {}

/-- The two guards of the destructor, which the move assignment repeats. -/
def tearDown (backend : CorpusBackend Symbol) (process : Option Process) : Option Process :=
  let destroyed :=
    match backend.ctx, backend.destroy with
    | some ctx, some _ => process.bind (step (.destroy (backend.dl.getD 0) ctx))
    | _, _ => process
  match backend.dl with
  | none => destroyed
  | some handle => destroyed.bind (step (.dlclose handle))

namespace Objects

def destroy (this : Nat) (objects : Objects Symbol) : Objects Symbol :=
  match objects.backend this with
  | none => objects
  | some backend =>
      { backend := Function.update objects.backend this none
        process := tearDown backend objects.process }

/-- The source is left with null pointers only. -/
def moveConstruct (this other : Nat) (objects : Objects Symbol) : Objects Symbol :=
  match objects.backend other with
  | none => objects
  | some backend =>
      { objects with
        backend := Function.update (Function.update objects.backend other (some {})) this
          (some backend) }

/-- `operator=`; into itself it does nothing. -/
def moveAssign (this other : Nat) (objects : Objects Symbol) : Objects Symbol :=
  if this = other then objects
  else
    match objects.backend this, objects.backend other with
    | some mine, some theirs =>
        { backend := Function.update (Function.update objects.backend this (some theirs)) other
            (some {})
          process := tearDown mine objects.process }
    | _, _ => objects

/-- `load` moves its local into what it returns, and then destroys the local. -/
def load (this : Nat) (dlopen : Except String (Library Symbol)) (symbolPrefix : String)
    (objects : Objects Symbol) : Objects Symbol :=
  match LibraryLoading.load dlopen symbolPrefix objects.process with
  | (.error _, process) => { objects with process := process }
  | (.ok backend, process) =>
      { backend := Function.update objects.backend this (some backend)
        process := tearDown ({} : CorpusBackend Symbol) process }

end Objects

/-- Each object that is not empty has a core of its own, and each live core an object. -/
structure Owners (backend : Nat → Option (CorpusBackend Symbol)) (core : Nat → Option Nat)
    (resource : Nat → Resource) (live : Finset Nat) : Prop where
  absent : ∀ this, backend this = none → core this = none
  shell : ∀ this found, backend this = some found → core this = none →
    found.dl = none ∧ found.ctx = none
  whole : ∀ this block found, core this = some block → backend this = some found →
    block ∈ live ∧ ∃ handle ctx, found.dl = some handle ∧ found.ctx = some ctx ∧
      found.destroy ≠ none ∧ resource block = .libCore handle ctx
  once : ∀ this other block, core this = some block → core other = some block → this = other
  held : ∀ block ∈ live, ∃ this, core this = some block

/-- The process has what the objects have, and nothing else. -/
def Settled (objects : Objects Symbol) : Prop :=
  ∃ core resource live process, objects.process = some process ∧
    Tracks resource (fun _ => none) live process ∧ Owners objects.backend core resource live

/-- The live cores without the one that an object had. -/
def leftover (live : Finset Nat) : Option Nat → Finset Nat
  | none => live
  | some block => live.erase block

theorem mem_leftover {live : Finset Nat} {last : Option Nat} {block : Nat} :
    block ∈ leftover live last ↔ block ∈ live ∧ last ≠ some block := by
  cases last with
  | none => simp [leftover]
  | some gone =>
      rw [leftover, Finset.mem_erase, and_comm]
      exact and_congr_right fun _ => not_congr (by rw [Option.some.injEq, eq_comm])

theorem update_none_some {Value : Type} {values : Nat → Option Value} {this target : Nat}
    {found : Value} (stored : Function.update values this none target = some found) :
    target ≠ this ∧ values target = some found := by
  by_cases same : target = this
  · rw [same, Function.update_self] at stored
    cases stored
  · rw [Function.update_of_ne same] at stored
    exact ⟨same, stored⟩

section Moves

variable {backend : Nat → Option (CorpusBackend Symbol)} {core : Nat → Option Nat}
  {resource : Nat → Resource} {live : Finset Nat} {process : Process} {this other : Nat}

theorem owner_present (owners : Owners backend core resource live) {block : Nat}
    (owns : core this = some block) : ∃ found, backend this = some found := by
  cases found : backend this with
  | none =>
      rw [owners.absent this found] at owns
      cases owns
  | some object => exact ⟨object, rfl⟩

theorem core_alive (owners : Owners backend core resource live) {block : Nat}
    (owns : core this = some block) : block ∈ live := by
  obtain ⟨found, known⟩ := owner_present owners owns
  exact (owners.whole this block found owns known).1

theorem owners_destroy (owners : Owners backend core resource live) (this : Nat) :
    Owners (Function.update backend this none) (Function.update core this none) resource
      (leftover live (core this)) where
  absent := by
    intro target none
    by_cases same : target = this
    · rw [same, Function.update_self]
    · rw [Function.update_of_ne same] at none ⊢
      exact owners.absent target none
  shell := by
    intro target found known empty
    obtain ⟨apart, stored⟩ := update_none_some known
    rw [Function.update_of_ne apart] at empty
    exact owners.shell target found stored empty
  whole := by
    intro target block found owns known
    obtain ⟨apart, stored⟩ := update_none_some known
    rw [Function.update_of_ne apart] at owns
    obtain ⟨member, rest⟩ := owners.whole target block found owns stored
    refine ⟨mem_leftover.mpr ⟨member, ?_⟩, rest⟩
    intro gone
    exact apart (owners.once target this block owns gone)
  once := by
    intro first second block one two
    exact owners.once first second block (update_none_some one).2 (update_none_some two).2
  held := by
    intro block member
    obtain ⟨alive, different⟩ := mem_leftover.mp member
    obtain ⟨target, owns⟩ := owners.held block alive
    have apart : target ≠ this := by
      rintro rfl
      exact different owns
    exact ⟨target, by rw [Function.update_of_ne apart, owns]⟩

theorem tear_down_tracks (tracks : Tracks resource (fun _ => none) live process)
    (owners : Owners backend core resource live) {found : CorpusBackend Symbol}
    (known : backend this = some found) :
    ∃ next, tearDown found (some process) = some next ∧
      Tracks resource (fun _ => none) (leftover live (core this)) next := by
  cases owns : core this with
  | none =>
      obtain ⟨noLibrary, noContext⟩ := owners.shell this found known owns
      exact ⟨process, by simp only [tearDown, noLibrary, noContext], tracks⟩
  | some block =>
      obtain ⟨member, handle, ctx, library, context, destroys, resourceOf⟩ :=
        owners.whole this block found owns known
      obtain ⟨next, disposed, remaining⟩ := tracks_disposes live block process tracks member
        fun _ _ impossible => absurd impossible.symm (Option.some_ne_none _)
      obtain ⟨function, exported⟩ := Option.ne_none_iff_exists'.mp destroys
      refine ⟨next, ?_, remaining⟩
      rw [dispose, resourceOf] at disposed
      simp only [tearDown, library, context, exported, Option.getD_some, Option.bind_some]
      exact disposed

theorem owners_permute (owners : Owners backend core resource live) (places : Equiv.Perm Nat) :
    Owners (backend ∘ places) (core ∘ places) resource live where
  absent := fun target => owners.absent (places target)
  shell := fun target => owners.shell (places target)
  whole := fun target => owners.whole (places target)
  once := by
    intro first second block one two
    apply places.injective
    exact owners.once (places first) (places second) block one two
  held := by
    intro block member
    obtain ⟨target, owns⟩ := owners.held block member
    exact ⟨places.symm target, by rw [Function.comp_apply, Equiv.apply_symm_apply, owns]⟩

theorem owners_hollow (owners : Owners backend core resource live)
    (absent : backend this = none) :
    Owners (Function.update backend this (some {})) core resource live where
  absent := by
    intro target none
    by_cases same : target = this
    · rw [same, Function.update_self] at none
      cases none
    · rw [Function.update_of_ne same] at none
      exact owners.absent target none
  shell := by
    intro target found known empty
    by_cases same : target = this
    · rw [same, Function.update_self] at known
      obtain rfl := Option.some.inj known
      exact ⟨rfl, rfl⟩
    · rw [Function.update_of_ne same] at known
      exact owners.shell target found known empty
  whole := by
    intro target block found owns known
    have apart : target ≠ this := by
      rintro rfl
      rw [owners.absent target absent] at owns
      cases owns
    rw [Function.update_of_ne apart] at known
    exact owners.whole target block found owns known
  once := owners.once
  held := owners.held

theorem owners_move (owners : Owners backend core resource live) {found : CorpusBackend Symbol}
    (absent : backend this = none) (known : backend other = some found) :
    Owners (Function.update (Function.update backend other (some {})) this (some found))
      (Function.update (Function.update core other none) this (core other)) resource live := by
  have empty := owners.absent this absent
  -- The two places are swapped, and the source is then an empty object.
  have backends : Function.update (Function.update backend other (some {})) this (some found) =
      Function.update (backend ∘ Equiv.swap this other) other (some {}) := by
    funext target
    simp only [Function.update_apply, Function.comp_apply, Equiv.swap_apply_def]
    split_ifs with left right
    · rw [← left, right, known] at absent
      cases absent
    · exact known.symm
    · rfl
    · rfl
  have cores : Function.update (Function.update core other none) this (core other) =
      core ∘ Equiv.swap this other := by
    funext target
    simp only [Function.update_apply, Function.comp_apply, Equiv.swap_apply_def]
    split_ifs
    · rfl
    · exact empty.symm
    · rfl
  have source : (backend ∘ Equiv.swap this other) other = none := by
    rw [Function.comp_apply, Equiv.swap_apply_right, absent]
  rw [backends, cores]
  exact owners_hollow (owners_permute owners (Equiv.swap this other)) source

theorem owners_load (owners : Owners backend core resource live)
    (absent : backend this = none) {block handle ctx : Nat} (fresh : block ∉ live)
    {loaded : CorpusBackend Symbol} (library : loaded.dl = some handle)
    (context : loaded.ctx = some ctx) (destroys : loaded.destroy ≠ none) :
    Owners (Function.update backend this (some loaded)) (Function.update core this (some block))
      (Function.update resource block (.libCore handle ctx)) (insert block live) := by
  constructor
  · intro target none
    by_cases same : target = this
    · rw [same, Function.update_self] at none
      cases none
    · rw [Function.update_of_ne same] at none ⊢
      exact owners.absent target none
  · intro target object stored empty
    by_cases same : target = this
    · rw [same, Function.update_self] at empty
      cases empty
    · rw [Function.update_of_ne same] at stored empty
      exact owners.shell target object stored empty
  · intro target last object owns stored
    by_cases same : target = this
    · rw [same, Function.update_self] at owns stored
      obtain rfl := Option.some.inj owns
      obtain rfl := Option.some.inj stored
      exact ⟨Finset.mem_insert_self _ _, handle, ctx, library, context, destroys,
        Function.update_self ..⟩
    · rw [Function.update_of_ne same] at owns stored
      obtain ⟨member, handle', ctx', rest⟩ := owners.whole target last object owns stored
      have apart : last ≠ block := fun equal => fresh (equal ▸ member)
      rw [Function.update_of_ne apart]
      exact ⟨Finset.mem_insert_of_mem member, handle', ctx', rest⟩
  · intro first second last one two
    by_cases left : first = this
    · by_cases right : second = this
      · exact left.trans right.symm
      · rw [left, Function.update_self] at one
        rw [Function.update_of_ne right] at two
        exact absurd (Option.some.inj one ▸ core_alive owners two) fresh
    · rw [Function.update_of_ne left] at one
      by_cases right : second = this
      · rw [right, Function.update_self] at two
        exact absurd (Option.some.inj two ▸ core_alive owners one) fresh
      · rw [Function.update_of_ne right] at two
        exact owners.once first second last one two
  · intro last member
    rcases Finset.mem_insert.mp member with new | old
    · exact ⟨this, by rw [Function.update_self, new]⟩
    · obtain ⟨target, owns⟩ := owners.held last old
      have apart : target ≠ this := by
        rintro rfl
        rw [owners.absent target absent] at owns
        cases owns
      exact ⟨target, by rw [Function.update_of_ne apart, owns]⟩

end Moves

inductive Action (Symbol : Type)
  | load (this : Nat) (dlopen : Except String (Library Symbol)) (symbolPrefix : String)
  | moveConstruct (this other : Nat)
  | moveAssign (this other : Nat)
  | destroy (this : Nat)

def act : Action Symbol → Objects Symbol → Objects Symbol
  | .load this dlopen symbolPrefix => Objects.load this dlopen symbolPrefix
  | .moveConstruct this other => Objects.moveConstruct this other
  | .moveAssign this other => Objects.moveAssign this other
  | .destroy this => Objects.destroy this

def FreshContext (dlopen : Except String (Library Symbol)) (objects : Objects Symbol) : Prop :=
  ∀ library ∈ dlopen.toOption, ∀ ctx ∈ library.create none,
    ∀ process ∈ objects.process, ∀ context ∈ process.contexts, context.1 ≠ ctx

instance (dlopen : Except String (Library Symbol)) (objects : Objects Symbol) :
    Decidable (FreshContext dlopen objects) :=
  inferInstanceAs (Decidable (∀ library ∈ dlopen.toOption, _))

/-- An object is made where there is none, and used where there is one. -/
def Possible (action : Action Symbol) (objects : Objects Symbol) : Prop :=
  match action with
  | .load this dlopen _ => (objects.backend this).isNone = true ∧ FreshContext dlopen objects
  | .moveConstruct this other =>
      (objects.backend this).isNone = true ∧ (objects.backend other).isSome = true
  | .moveAssign this other =>
      (objects.backend this).isSome = true ∧ (objects.backend other).isSome = true
  | .destroy this => (objects.backend this).isSome = true

instance (action : Action Symbol) (objects : Objects Symbol) :
    Decidable (Possible action objects) :=
  match action with
  | .load _ _ _ => inferInstanceAs (Decidable (_ ∧ FreshContext _ _))
  | .moveConstruct _ _ | .moveAssign _ _ => inferInstanceAs (Decidable (_ = true ∧ _ = true))
  | .destroy _ => inferInstanceAs (Decidable (_ = true))

def step (action : Action Symbol) (objects : Objects Symbol) : Option (Objects Symbol) :=
  if Possible action objects then some (act action objects) else none

section Actions

variable {objects : Objects Symbol} {this other : Nat}

theorem start_settled : Settled ({} : Objects Symbol) := by
  refine ⟨fun _ => none, fun _ => .buffer 0 0, ∅, {}, rfl, tracks_nothing, ?_⟩
  constructor
  · exact fun _ _ => rfl
  · exact fun _ _ impossible => absurd impossible.symm (Option.some_ne_none _)
  · exact fun _ _ _ impossible => absurd impossible.symm (Option.some_ne_none _)
  · exact fun _ _ _ impossible => absurd impossible.symm (Option.some_ne_none _)
  · exact fun block member => absurd member (Finset.notMem_empty block)

theorem destroy_settled (settled : Settled objects) (this : Nat) :
    Settled (objects.destroy this) := by
  unfold Objects.destroy
  split
  · exact settled
  · rename_i found known
    obtain ⟨core, resource, live, process, running, tracks, owners⟩ := settled
    obtain ⟨next, torn, remaining⟩ := tear_down_tracks tracks owners known
    rw [running]
    exact ⟨_, resource, _, next, torn, remaining, owners_destroy owners this⟩

theorem move_construct_settled (settled : Settled objects) (absent : objects.backend this = none)
    (other : Nat) : Settled (objects.moveConstruct this other) := by
  unfold Objects.moveConstruct
  split
  · exact settled
  · rename_i found known
    obtain ⟨core, resource, live, process, running, tracks, owners⟩ := settled
    exact ⟨_, resource, live, process, running, tracks, owners_move owners absent known⟩

theorem move_assign_eq {mine theirs : CorpusBackend Symbol} (apart : this ≠ other)
    (first : objects.backend this = some mine) (second : objects.backend other = some theirs) :
    objects.moveAssign this other = (objects.destroy this).moveConstruct this other := by
  have source : Function.update objects.backend this none other = some theirs := by
    rw [Function.update_of_ne apart.symm, second]
  have backends : Function.update (Function.update objects.backend this (some theirs)) other
      (some {}) = Function.update (Function.update (Function.update objects.backend this none)
        other (some {})) this (some theirs) := by
    funext target
    simp only [Function.update_apply]
    split_ifs with left right
    · exact absurd (right.symm.trans left) apart
    · rfl
    · rfl
    · rfl
  simp only [Objects.moveAssign, if_neg apart, Objects.destroy, first, second,
    Objects.moveConstruct, source, backends]

theorem load_settled (settled : Settled objects) (absent : objects.backend this = none)
    {dlopen : Except String (Library Symbol)} (fresh : FreshContext dlopen objects)
    (symbolPrefix : String) : Settled (objects.load this dlopen symbolPrefix) := by
  obtain ⟨core, resource, live, process, running, tracks, owners⟩ := settled
  unfold Objects.load
  rw [running]
  cases dlopen with
  | error text => exact ⟨core, resource, live, process, rfl, tracks, owners⟩
  | ok library =>
      have ends := @load_ends Symbol process library symbolPrefix (tracks_sound tracks)
        (fun ctx created => fresh library rfl ctx created process running)
      revert ends
      unfold Ends
      rcases LibraryLoading.load (.ok library) symbolPrefix (some process) with
        ⟨text | loaded, reached⟩
      · rintro ⟨_, rfl⟩
        exact ⟨core, resource, live, process, rfl, tracks, owners⟩
      · rintro ⟨loadable, ctx, table, created, kernels, fields, rfl⟩
        obtain ⟨block, unused⟩ := Infinite.exists_notMem_finset live
        have exported : (resolveVTable library symbolPrefix).destroy ≠ none :=
          loadable.exported "fhn_destroy" (by decide)
        have apart : ∀ last ∈ live, last ≠ block := fun last member equal =>
          unused (equal ▸ member)
        have same := tracks_congr tracks
          (fun last member => Function.update_of_ne (apart last member)
            (Resource.libCore library.handle ctx) resource) fun _ _ => rfl
        have grown := tracks_core same unused (Function.update_self ..)
          (fresh library rfl ctx created process running)
        exact ⟨_, _, _, _, rfl, grown, owners_load owners absent unused
          (by rw [fields]) (by rw [fields]) (by rw [fields]; exact exported)⟩

end Actions

/-- Every call so far was one that the libraries allow. When every object is gone or empty,
every context is destroyed and every library closed. -/
def Safe (objects : Objects Symbol) : Prop :=
  objects.process.isSome = true ∧
    ((∀ this found, objects.backend this = some found → found.dl = none) →
      objects.process = some {})

theorem settled_safe {objects : Objects Symbol} (settled : Settled objects) : Safe objects := by
  obtain ⟨core, resource, live, process, running, tracks, owners⟩ := settled
  refine ⟨by rw [running, Option.isSome_some], ?_⟩
  intro hollow
  have gone : live = ∅ := by
    by_contra some
    obtain ⟨block, member⟩ := Finset.nonempty_iff_ne_empty.mpr some
    obtain ⟨this, owns⟩ := owners.held block member
    obtain ⟨found, known⟩ := owner_present owners owns
    obtain ⟨_, handle, _, library, _⟩ := owners.whole this block found owns known
    rw [hollow this found known] at library
    cases library
  rw [gone] at tracks
  rw [running, nothing_tracked tracks]

theorem act_settled {action : Action Symbol} {objects : Objects Symbol}
    (settled : Settled objects) (possible : Possible action objects) :
    Settled (act action objects) := by
  cases action with
  | load this dlopen symbolPrefix =>
      obtain ⟨absent, fresh⟩ := possible
      exact load_settled settled (Option.isNone_iff_eq_none.mp absent) fresh symbolPrefix
  | moveConstruct this other =>
      exact move_construct_settled settled (Option.isNone_iff_eq_none.mp possible.1) other
  | moveAssign this other =>
      obtain ⟨mine, first⟩ := Option.isSome_iff_exists.mp possible.1
      obtain ⟨theirs, second⟩ := Option.isSome_iff_exists.mp possible.2
      by_cases same : this = other
      · rw [act, Objects.moveAssign, if_pos same]
        exact settled
      · have absent : (objects.destroy this).backend this = none := by
          simp [Objects.destroy, first]
        rw [act, move_assign_eq same first second]
        exact move_construct_settled (destroy_settled settled this) absent other
  | destroy this => exact destroy_settled settled this

/-- In any order of loading, moving and destroying, no library is called against its
contract, and a context and a library are gone when no object has them any more. -/
theorem moved_backends_released_once (actions : List (Action Symbol)) :
    Always step Safe actions {} := by
  refine always_of_guarded (fun _ => settled_safe) ?_ actions _ start_settled
    (guarded_trivial step actions _)
  intro action objects next settled stepped _
  unfold step at stepped
  split_ifs at stepped with possible
  obtain rfl := Option.some.inj stepped
  exact act_settled settled possible

/-- A move, an assignment into itself, and the two destructors. -/
example :
    (([.load 0 (.ok ⟨7, some, 1, fun _ => some 3, fun _ => some 0⟩) "", .moveConstruct 1 0,
        .moveAssign 1 1, .destroy 0, .destroy 1] : List (Action String)).foldlM
      (fun objects action => step action objects) ({} : Objects String)).map
        (fun objects => objects.process) = some (some {}) := by
  decide

end Fhenomenon.CorpusHandles
