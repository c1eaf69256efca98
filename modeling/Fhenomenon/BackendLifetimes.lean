import Fhenomenon.BackendHosts
import Fhenomenon.Lib.GuardedRuns

/-!
# Backends and the ciphertexts that outlive them

A backend holds its core, and so does the deleter of every buffer, so the library stays
until the last buffer is freed, in whatever order backends and ciphertexts come and go.
-/

namespace Fhenomenon.BackendLifetimes

open Fhenomenon.Lib.Fallible Fhenomenon.Lib.GuardedRuns Fhenomenon.Lib.RefCounts
open Fhenomenon.Lib.SharedPointers
open Fhenomenon.LibraryContract Fhenomenon.LibraryLoading Fhenomenon.LibraryResources
open Fhenomenon.BackendHosts

variable {Symbol : Type}

inductive Action (Symbol : Type)
  | construct (this : Nat) (dlopen : Except String (Library Symbol)) (configJson : Option String)
      (symbolPrefix : String)
  | destroyBackend (this : Nat)
  | transform (this entity : Nat) (type : EntityType) (address : Option Nat) (code : Int)
  | decrypt (this entity : Nat) (type : EntityType) (code : Int)
  | flush (this : Nat) (inputs : List Nat) (addresses : List (Option Nat)) (code : Int)
      (latest : List (Nat × Nat))
  | copyEntity (entity other : Nat)
  | dropEntity (entity : Nat)

def withBackend (this : Nat)
    (run : ExternalBackend Symbol → Computation (Host Symbol) String Unit) :
    Computation (Host Symbol) String Unit :=
  fun host =>
    match host.backends this with
    | none => (.ok (), host)
    | some backend => run backend host

def act : Action Symbol → Computation (Host Symbol) String Unit
  | .construct this dlopen configJson symbolPrefix =>
      constructBackend this dlopen configJson symbolPrefix
  | .destroyBackend this => change (Host.destroyBackend this)
  | .transform this entity type address code =>
      withBackend this fun backend => transform this backend entity type address code
  | .decrypt this entity type code =>
      withBackend this fun backend => decrypt this backend entity type code
  | .flush this inputs addresses code latest =>
      withBackend this fun backend => flush this backend inputs addresses code latest
  | .copyEntity entity other => change (Host.copyEntity entity other)
  | .dropEntity entity => change (Host.dropEntity entity)

def FreshContext (dlopen : Except String (Library Symbol)) (configJson : Option String)
    (host : Host Symbol) : Prop :=
  ∀ library ∈ dlopen.toOption, ∀ ctx ∈ library.create configJson,
    ∀ process ∈ host.process, ∀ context ∈ process.contexts, context.1 ≠ ctx

instance (dlopen : Except String (Library Symbol)) (configJson : Option String)
    (host : Host Symbol) : Decidable (FreshContext dlopen configJson host) :=
  inferInstanceAs (Decidable (∀ library ∈ dlopen.toOption, _))

/-- The library hands out addresses that are not in use, each once. -/
def Unshared (addresses : List (Option Nat)) (host : Host Symbol) : Prop :=
  (∀ raw ∈ addresses.reduceOption, Unused raw host) ∧ addresses.reduceOption.Nodup

instance (addresses : List (Option Nat)) (host : Host Symbol) :
    Decidable (Unshared addresses host) :=
  inferInstanceAs (Decidable ((∀ raw ∈ addresses.reduceOption, Unused raw host) ∧ _))

/-- A program calls only backends that exist, no allocator hands out an address that is in use,
and a session's bindings name entries of its table. -/
def Possible (action : Action Symbol) (host : Host Symbol) : Prop :=
  match action with
  | .construct this dlopen configJson _ =>
      (host.backends this).isNone = true ∧ FreshContext dlopen configJson host
  | .destroyBackend this | .decrypt this _ _ _ => (host.backends this).isSome = true
  | .transform this _ _ address _ =>
      (host.backends this).isSome = true ∧ ∀ raw ∈ address, Unused raw host
  | .flush this inputs addresses _ latest =>
      (host.backends this).isSome = true ∧ Unshared addresses host ∧
        ∀ bound ∈ latest, bound.2 < inputs.length + addresses.length
  | .copyEntity _ _ | .dropEntity _ => True

instance (action : Action Symbol) (host : Host Symbol) : Decidable (Possible action host) :=
  match action with
  | .construct _ _ _ _ => inferInstanceAs (Decidable (_ ∧ FreshContext _ _ _))
  | .destroyBackend _ | .decrypt _ _ _ _ => inferInstanceAs (Decidable (_ = true))
  | .transform _ _ _ _ _ => inferInstanceAs (Decidable (_ ∧ ∀ raw ∈ _, Unused raw _))
  | .flush _ _ _ _ _ => inferInstanceAs (Decidable (_ ∧ Unshared _ _ ∧ _))
  | .copyEntity _ _ | .dropEntity _ => inferInstanceAs (Decidable True)

/-- What throws leaves a state to go on from. -/
def step (action : Action Symbol) (host : Host Symbol) : Option (Host Symbol) :=
  if Possible action host then some (act action host).2 else none

/-- However the run ends, it ends between two actions. -/
def Settles (run : Computation (Host Symbol) String Unit) (host : Host Symbol) : Prop :=
  Ends run (fun _ reached => Settled reached) (fun _ reached => Settled reached) host

section Actions

variable {host : Host Symbol} {this entity index : Nat} {raws : Nat → Option Nat}
  {backend : ExternalBackend Symbol}

theorem settles_change {update : Host Symbol → Host Symbol} (after : Settled (update host)) :
    Settles (change update) host :=
  ends_of_eq (change_apply update host) after

theorem settles_then_fail {update : Host Symbol → Host Symbol} (after : Settled (update host))
    (text : String) :
    Settles (do change update; fail text) host := by
  rw [Settles, ends_bind]
  exact ends_of_eq (change_apply update host) (ends_of_failed (fail_apply text _) after)

/-- Either the library refuses, or the function holds one more buffer of its backend. -/
theorem make_buffer_ends (holding : Holding backend.fhnCtx raws host)
    (entry : raws index = none) (found : host.backends this = some backend)
    {holder : Pointer} (core : holder = .core this ∨ holder = .keepalive this)
    {address : Option Nat} (unused : ∀ raw ∈ address, Unused raw host) (text : String) :
    Ends (makeBuffer holder backend.fhnCtx index address text)
      (fun raw reached => address = some raw ∧
        Holding backend.fhnCtx (Function.update raws index (some raw)) reached ∧
        reached.backends = host.backends ∧
        reached.process = (host.tell (.bufferAlloc backend.fhnCtx raw)).process)
      (fun _ reached => Holding backend.fhnCtx raws reached ∧ reached.backends = host.backends)
      host := by
  unfold makeBuffer
  cases address with
  | none =>
      obtain ⟨core', held, _, owns⟩ := holding.layout.cores this backend found
      have called : Holding backend.fhnCtx raws (host.tell (.call backend.fhnCtx)) := by
        refine ⟨grounded_call holding.grounded held owns, ?_, holding.holds⟩
        exact layout_congr holding.layout rfl rfl (fun _ _ => rfl) fun _ _ _ => rfl
      rw [ends_bind]
      exact ends_of_eq (change_apply _ host) (ends_of_failed (fail_apply text _) ⟨called, rfl⟩)
  | some raw =>
      have made := holding_make holding entry found core (unused raw rfl)
      rw [ends_bind]
      exact ends_of_eq (change_apply _ host)
        (ends_of_eq (pure_apply raw _) ⟨rfl, made, rfl, rfl⟩)

theorem encrypt_settles (settled : Settled host) (found : host.backends this = some backend)
    (encrypt : Option Symbol) (name : String) {address : Option Nat}
    (unused : ∀ raw ∈ address, Unused raw host) (code : Int) :
    Settles (encryptWith this backend entity encrypt name address code) host := by
  unfold encryptWith
  split
  · exact ends_of_failed (fail_apply _ host) settled
  · rw [Settles, ends_bind]
    refine ends_mono (make_buffer_ends (settled_holding settled _) rfl found (Or.inl rfl) unused _)
      ?_ fun _ _ failed => holding_settled failed.1 fun _ => rfl
    rintro raw reached ⟨-, holding, backends, -⟩
    have used := holding_use holding (Function.update_self ..)
    rw [ends_bind]
    apply ends_of_eq (change_apply _ reached)
    split_ifs with failed
    · exact settles_then_fail (settled_reset used) _
    · have known : (reached.tell (.use backend.fhnCtx raw)).backends this = some backend :=
        (congrFun backends this).trans found
      have assigned := holding_assign used (Function.update_self ..) known entity
      rw [ends_bind]
      apply ends_of_eq (change_apply _ _)
      exact settles_change (settled_reset assigned)

theorem transform_settles (settled : Settled host) (found : host.backends this = some backend)
    (type : EntityType) {address : Option Nat} (unused : ∀ raw ∈ address, Unused raw host)
    (code : Int) : Settles (transform this backend entity type address code) host := by
  unfold transform
  split
  · exact encrypt_settles settled found _ _ unused code
  · exact encrypt_settles settled found _ _ unused code
  · exact ends_of_failed (fail_apply _ host) settled

theorem tagged_buffer (layout : Layout host) (found : host.backends this = some backend)
    (tag : (host.entities entity).owner = some this) :
    ∃ block raw, host.value (.ciphertext entity) = some block ∧
      host.resource block = .buffer backend.fhnCtx raw ∧ host.raw (.ciphertext entity) = raw := by
  cases held : host.value (.ciphertext entity) with
  | none =>
      have untagged := (layout.owned entity).mpr held
      rw [tag] at untagged
      cases untagged
  | some block =>
      obtain ⟨raw, owns⟩ := layout.tags entity this backend block tag found held
      exact ⟨block, raw, rfl, owns, by simp [Host.raw, held, owns]⟩

theorem holding_copy (holding : Holding backend.fhnCtx raws host) (entry : raws index = none)
    (found : host.backends this = some backend)
    (tag : (host.entities entity).owner = some this) :
    ∃ raw, Holding backend.fhnCtx (Function.update raws index (some raw))
      (host.copy (.buffer index) (.ciphertext entity)) := by
  obtain ⟨block, raw, held, owns, _⟩ := tagged_buffer holding.layout found tag
  have empty := holding_empty holding entry
  refine ⟨raw, grounded_copy holding.grounded empty, ?_, ?_⟩
  · refine layout_congr holding.layout rfl rfl ?_ fun _ _ _ => rfl
    intro name other
    rw [copy_host_value empty, if_neg (other index)]
  · intro other
    rw [copy_host_value empty]
    by_cases same : other = index
    · rw [same, if_pos rfl, Function.update_self, held]
      exact congrArg some owns
    · rw [if_neg (by simp [same]), Function.update_of_ne same]
      exact holding.holds other

theorem holding_raw {ctx raw : Nat} (holding : Holding ctx raws host)
    (entry : raws index = some raw) : host.raw (.buffer index) = raw := by
  obtain ⟨block, held, owns⟩ := holding_entry holding entry
  simp [Host.raw, held, owns]

theorem decrypt_with_settles {raw : Nat}
    (holding : Holding backend.fhnCtx (Function.update (fun _ => none) 0 (some raw)) host)
    (decrypt : Option Symbol) (name : String) (code : Int) :
    Settles (decryptWith backend decrypt name code) host := by
  unfold decryptWith
  split
  · exact settles_then_fail (settled_reset holding) _
  · have used := holding_use holding (Function.update_self ..)
    rw [Settles, ends_bind]
    apply ends_of_eq (change_apply _ host)
    rw [holding_raw holding (Function.update_self ..), ends_bind]
    apply ends_of_eq (change_apply _ _)
    have released := settled_reset used
    split_ifs
    · exact ends_of_failed (fail_apply _ _) released
    · exact ends_of_eq (pure_apply () _) released

theorem decrypt_settles (settled : Settled host) (found : host.backends this = some backend)
    (type : EntityType) (code : Int) : Settles (decrypt this backend entity type code) host := by
  unfold decrypt
  rw [Settles, ends_bind]
  apply ends_of_eq (look_apply host)
  split_ifs with plain foreign
  · exact ends_of_eq (pure_apply () host) settled
  · exact ends_of_failed (fail_apply _ host) settled
  · obtain ⟨raw, holding⟩ : ∃ raw, Holding backend.fhnCtx
        (Function.update (fun _ => none) 0 (some raw))
        (host.copy (.buffer 0) (.ciphertext entity)) :=
      holding_copy (settled_holding settled _) rfl found (not_not.mp foreign)
    rw [ends_bind]
    apply ends_of_eq (change_apply _ host)
    split
    · exact decrypt_with_settles holding _ _ code
    · exact decrypt_with_settles holding _ _ code
    · exact settles_then_fail (settled_reset holding) _

end Actions

/-- A session's table, all of it below `count`. -/
structure Tabled (this : Nat) (backend : ExternalBackend Symbol) (count : Nat)
    (host : Host Symbol) : Prop where
  found : host.backends this = some backend
  holding : ∃ raws, Holding backend.fhnCtx raws host ∧ ∀ index, count ≤ index → raws index = none

/-- The same, with every entry filled. -/
structure Filled (this : Nat) (backend : ExternalBackend Symbol) (count : Nat)
    (host : Host Symbol) : Prop where
  found : host.backends this = some backend
  holding : ∃ raws, Holding backend.fhnCtx raws host ∧
    ∀ index, (raws index).isSome ↔ index < count

section Tables

variable {host : Host Symbol} {this count : Nat} {backend : ExternalBackend Symbol}

theorem filled_tabled (filled : Filled this backend count host) :
    Tabled this backend count host := by
  obtain ⟨found, raws, holding, bounds⟩ := filled
  refine ⟨found, raws, holding, fun index beyond => ?_⟩
  rw [← Option.not_isSome_iff_eq_none, bounds]
  exact Nat.not_lt.mpr beyond

theorem tabled_mono (tabled : Tabled this backend count host) {larger : Nat}
    (within : count ≤ larger) : Tabled this backend larger host := by
  obtain ⟨found, raws, holding, beyond⟩ := tabled
  exact ⟨found, raws, holding, fun index past => beyond index (within.trans past)⟩

theorem released_settled (tabled : Tabled this backend count host) :
    Settled (host.release count) := by
  obtain ⟨-, raws, holding, beyond⟩ := tabled
  induction count generalizing host raws with
  | zero => exact holding_settled holding fun index => beyond index (Nat.zero_le index)
  | succ count induction =>
      refine induction _ (holding_reset holding count) fun index past => ?_
      by_cases same : index = count
      · rw [same, Function.update_self]
      · rw [Function.update_of_ne same]
        exact beyond index (by omega)

theorem hold_input_ends (tabled : Tabled this backend count host) (entity : Nat) :
    Ends (holdInput this (entity, count))
      (fun _ reached => Tabled this backend (count + 1) reached ∧ reached.process = host.process)
      (fun _ reached => Tabled this backend (count + 1) reached) host := by
  have wider := tabled_mono tabled (Nat.le_succ count)
  unfold holdInput
  rw [ends_bind]
  apply ends_of_eq (look_apply host)
  split_ifs with plain foreign
  · exact ends_of_eq (pure_apply () host) ⟨wider, rfl⟩
  · exact ends_of_failed (fail_apply _ host) wider
  · obtain ⟨found, raws, holding, beyond⟩ := tabled
    obtain ⟨raw, held⟩ := holding_copy holding (beyond count (le_refl count)) found
      (not_not.mp foreign)
    refine ends_of_eq (change_apply _ host) ⟨⟨found, _, held, fun index past => ?_⟩, rfl⟩
    rw [Function.update_of_ne (by omega)]
    exact beyond index (by omega)

theorem hold_inputs_ends (inputs : List Nat) (tabled : Tabled this backend count host) :
    Ends (each (holdInput this) (inputs.zipIdx count))
      (fun _ reached => Tabled this backend (count + inputs.length) reached ∧
        reached.process = host.process)
      (fun _ reached => Tabled this backend (count + inputs.length) reached) host := by
  induction inputs generalizing count host with
  | nil => exact ends_of_eq (pure_apply () host) ⟨tabled, rfl⟩
  | cons entity rest induction =>
      have size : count + (entity :: rest).length = count + 1 + rest.length := by
        rw [List.length_cons]
        omega
      rw [size, List.zipIdx_cons, each, ends_bind]
      refine ends_mono (hold_input_ends tabled entity) ?_
        fun _ _ failed => tabled_mono failed (Nat.le_add_right _ _)
      rintro _ reached ⟨held, process⟩
      rw [← process]
      exact induction held

theorem check_inputs_ends (indices : List Nat) (host : Host Symbol) :
    Ends (each checkInput indices)
      (fun _ reached => reached = host ∧ ∀ index ∈ indices, host.value (.buffer index) ≠ none)
      (fun _ reached => reached = host) host := by
  induction indices with
  | nil => exact ends_of_eq (pure_apply () host) ⟨rfl, by simp⟩
  | cons index rest induction =>
      have first : Ends (checkInput index)
          (fun _ reached => reached = host ∧ host.value (.buffer index) ≠ none)
          (fun _ reached => reached = host) host := by
        unfold checkInput
        rw [ends_bind]
        apply ends_of_eq (look_apply host)
        split_ifs with missing
        · exact ends_of_failed (fail_apply _ host) rfl
        · exact ends_of_eq (pure_apply () host) ⟨rfl, missing⟩
      rw [each, ends_bind]
      refine ends_mono first ?_ fun _ _ => id
      rintro _ _ ⟨rfl, present⟩
      refine ends_mono induction ?_ fun _ _ => id
      rintro _ _ ⟨rfl, later⟩
      exact ⟨rfl, List.forall_mem_cons.mpr ⟨present, later⟩⟩

theorem checked_filled (tabled : Tabled this backend count host)
    (present : ∀ index < count, host.value (.buffer index) ≠ none) :
    Filled this backend count host := by
  obtain ⟨found, raws, holding, beyond⟩ := tabled
  refine ⟨found, raws, holding, fun index => ⟨fun filled => ?_, fun within => ?_⟩⟩
  · by_contra past
    rw [beyond index (Nat.not_lt.mp past)] at filled
    cases filled
  · by_contra empty
    exact present index within
      (holding_empty holding (Option.not_isSome_iff_eq_none.mp empty))

theorem unused_after {ctx raw other : Nat} (different : other ≠ raw)
    (unused : Unused other host) {reached : Host Symbol}
    (process : reached.process = (host.tell (.bufferAlloc ctx raw)).process) :
    Unused other reached := by
  intro final ran held member
  rw [process] at ran
  obtain ⟨start, running, stepped⟩ := Option.bind_eq_some_iff.mp ran
  unfold LibraryContract.step at stepped
  split_ifs at stepped
  obtain rfl := Option.some.inj stepped
  rcases Finset.mem_insert.mp member with new | old
  · rw [new]
    exact different.symm
  · exact unused start running held old

theorem allocate_entry_ends (filled : Filled this backend count host) {address : Option Nat}
    (unused : ∀ raw ∈ address, Unused raw host) (code : Int) :
    Ends (allocateEntry this backend code (address, count))
      (fun _ reached => Filled this backend (count + 1) reached ∧ ∃ raw, address = some raw ∧
        reached.process = (host.tell (.bufferAlloc backend.fhnCtx raw)).process)
      (fun _ reached => Tabled this backend (count + 1) reached) host := by
  obtain ⟨found, raws, holding, bounds⟩ := filled
  have beyond (index : Nat) (past : count ≤ index) : raws index = none := by
    rw [← Option.not_isSome_iff_eq_none, bounds]
    exact Nat.not_lt.mpr past
  unfold allocateEntry
  rw [ends_bind]
  refine ends_mono (make_buffer_ends holding (beyond count (le_refl count)) found (Or.inr rfl)
    unused _) ?_ ?_
  · rintro raw reached ⟨given, made, backends, process⟩
    refine ends_of_eq (pure_apply () reached) ⟨⟨?_, _, made, fun index => ?_⟩, raw, given, process⟩
    · rw [backends]
      exact found
    · by_cases same : index = count
      · rw [same, Function.update_self]
        exact ⟨fun _ => Nat.lt_succ_self count, fun _ => rfl⟩
      · rw [Function.update_of_ne same, bounds]
        omega
  · rintro _ reached ⟨kept, backends⟩
    refine ⟨?_, raws, kept, fun index past => beyond index (by omega)⟩
    rw [backends]
    exact found

theorem allocate_entries_ends (addresses : List (Option Nat))
    (filled : Filled this backend count host) (unshared : Unshared addresses host) (code : Int) :
    Ends (each (allocateEntry this backend code) (addresses.zipIdx count))
      (fun _ reached => Filled this backend (count + addresses.length) reached)
      (fun _ reached => Tabled this backend (count + addresses.length) reached) host := by
  induction addresses generalizing count host with
  | nil => exact ends_of_eq (pure_apply () host) filled
  | cons address rest induction =>
      obtain ⟨unused, distinct⟩ := unshared
      have first : ∀ raw ∈ address, Unused raw host := by
        rintro raw rfl
        exact unused raw List.mem_cons_self
      have size : count + (address :: rest).length = count + 1 + rest.length := by
        rw [List.length_cons]
        omega
      rw [size, List.zipIdx_cons, each, ends_bind]
      refine ends_mono (allocate_entry_ends filled first code) ?_
        fun _ _ failed => tabled_mono failed (Nat.le_add_right _ _)
      rintro _ reached ⟨made, raw, rfl, process⟩
      rw [List.reduceOption_cons_of_some] at unused distinct
      obtain ⟨apart, later⟩ := List.nodup_cons.mp distinct
      refine induction made ⟨fun other member => ?_, later⟩
      refine unused_after ?_ (unused other (List.mem_cons_of_mem _ member)) process
      rintro rfl
      exact apart member

theorem use_table_filled (filled : Filled this backend count host) (indices : List Nat)
    (within : ∀ index ∈ indices, index < count) :
    Filled this backend count (indices.foldl
      (fun host index => host.tell (.use backend.fhnCtx (host.raw (.buffer index)))) host) := by
  induction indices generalizing host with
  | nil => exact filled
  | cons index rest induction =>
      obtain ⟨first, later⟩ := List.forall_mem_cons.mp within
      obtain ⟨found, raws, holding, bounds⟩ := filled
      obtain ⟨raw, entry⟩ := Option.isSome_iff_exists.mp ((bounds index).mpr first)
      have used : Holding backend.fhnCtx raws
          (host.tell (.use backend.fhnCtx (host.raw (.buffer index)))) := by
        rw [holding_raw holding entry]
        exact holding_use holding entry
      exact induction ⟨found, raws, used, bounds⟩ later

theorem write_back_filled (filled : Filled this backend count host) (latest : List (Nat × Nat))
    (within : ∀ bound ∈ latest, bound.2 < count) :
    Filled this backend count (host.writeBack this latest) := by
  induction latest generalizing host with
  | nil => exact filled
  | cons bound rest induction =>
      obtain ⟨first, later⟩ := List.forall_mem_cons.mp within
      obtain ⟨found, raws, holding, bounds⟩ := filled
      obtain ⟨raw, entry⟩ := Option.isSome_iff_exists.mp ((bounds bound.2).mpr first)
      exact induction ⟨found, raws, holding_assign holding entry found bound.1, bounds⟩ later

theorem flush_settles (settled : Settled host) (found : host.backends this = some backend)
    (inputs : List Nat) {addresses : List (Option Nat)} (unshared : Unshared addresses host)
    (code : Int) {latest : List (Nat × Nat)}
    (within : ∀ bound ∈ latest, bound.2 < inputs.length + addresses.length) :
    Settles (flush this backend inputs addresses code latest) host := by
  have start : Tabled this backend 0 host :=
    ⟨found, _, settled_holding settled _, fun _ _ => rfl⟩
  have wide {reached : Host Symbol} (tabled : Tabled this backend inputs.length reached) :
      Tabled this backend (inputs.length + addresses.length) reached :=
    tabled_mono tabled (Nat.le_add_right _ _)
  unfold flush
  rw [Settles, ends_ensuring]
  -- wherever the run stops, what it holds is below the table's size
  suffices ends : Ends _ (fun _ reached => Tabled this backend (inputs.length + addresses.length)
      reached) (fun _ reached => Tabled this backend (inputs.length + addresses.length) reached)
      host from
    ends_mono ends (fun _ _ => released_settled) fun _ _ => released_settled
  rw [ends_bind]
  have held := hold_inputs_ends inputs start
  rw [Nat.zero_add] at held
  refine ends_mono held ?_ fun _ _ => wide
  rintro _ holding ⟨tabled, process⟩
  rw [ends_bind]
  refine ends_mono (check_inputs_ends _ holding) ?_ fun _ _ same => same ▸ wide tabled
  rintro _ checked ⟨rfl, present⟩
  have filled := checked_filled tabled fun index below => present index (List.mem_range.mpr below)
  have fresh : Unshared addresses checked := by
    unfold Unshared Unused
    rw [process]
    exact unshared
  rw [ends_bind]
  refine ends_mono (allocate_entries_ends addresses filled fresh code) ?_ fun _ _ => id
  intro _ reached whole
  have used := use_table_filled whole (List.range (inputs.length + addresses.length))
    fun index => List.mem_range.mp
  rw [ends_bind]
  apply ends_of_eq (change_apply _ reached)
  split_ifs
  · exact ends_of_failed (fail_apply _ _) (filled_tabled used)
  · exact ends_of_eq (change_apply _ _) (filled_tabled (write_back_filled used latest within))

end Tables

section Constructions

variable {host : Host Symbol} {this : Nat}

theorem construct_settles (settled : Settled host) (idle : host.backends this = none)
    (untagged : ∀ entity, (host.entities entity).owner ≠ some this)
    {dlopen : Except String (Library Symbol)} {configJson : Option String}
    (fresh : FreshContext dlopen configJson host) (symbolPrefix : String) :
    Settled (constructBackend this dlopen configJson symbolPrefix host).2 := by
  obtain ⟨_, process, running, tracks⟩ := settled.grounded
  have unchanged : { host with process := some process } = host := by rw [← running]
  unfold constructBackend
  rw [running]
  cases dlopen with
  | error text =>
      change Settled { host with process := some process }
      rw [unchanged]
      exact settled
  | ok library =>
      have ends := @construct_ends Symbol process library symbolPrefix configJson
        (tracks_sound tracks) (fun ctx created => fresh library rfl ctx created process running)
      revert ends
      unfold Ends
      rcases construct (.ok library) configJson symbolPrefix (some process) with
        ⟨text | backend, reached⟩
      · rintro ⟨_, rfl⟩
        change Settled { host with process := some process }
        rw [unchanged]
        exact settled
      · rintro ⟨_, created, _, handle, _, rfl⟩
        have unused := fresh library rfl backend.fhnCtx created process running
        rw [← handle]
        exact settled_adopt settled running idle untagged unused

end Constructions

/-- No backend is constructed where a ciphertext still carries the address as its tag. -/
def Untagged (action : Action Symbol) (host : Host Symbol) : Prop :=
  match action with
  | .construct this _ _ _ => ∀ entity, (host.entities entity).owner ≠ some this
  | _ => True

theorem settles_state {run : Computation (Host Symbol) String Unit} {host : Host Symbol}
    (settles : Settles run host) : Settled (run host).2 := by
  revert settles
  unfold Settles Ends
  rcases run host with ⟨_ | _, _⟩ <;> exact id

theorem act_settled {action : Action Symbol} {host : Host Symbol} (settled : Settled host)
    (possible : Possible action host) (untagged : Untagged action host) :
    Settled (act action host).2 := by
  cases action with
  | construct this dlopen configJson symbolPrefix =>
      obtain ⟨idle, fresh⟩ := possible
      exact construct_settles settled (Option.isNone_iff_eq_none.mp idle) untagged fresh _
  | destroyBackend this => exact settled_destroy settled this
  | transform this entity type address code =>
      obtain ⟨exists', unused⟩ := possible
      obtain ⟨backend, found⟩ := Option.isSome_iff_exists.mp exists'
      rw [act, withBackend, found]
      exact settles_state (transform_settles settled found type unused code)
  | decrypt this entity type code =>
      obtain ⟨backend, found⟩ := Option.isSome_iff_exists.mp possible
      rw [act, withBackend, found]
      exact settles_state (decrypt_settles settled found type code)
  | flush this inputs addresses code latest =>
      obtain ⟨exists', unshared, within⟩ := possible
      obtain ⟨backend, found⟩ := Option.isSome_iff_exists.mp exists'
      rw [act, withBackend, found]
      exact settles_state (flush_settles settled found inputs unshared code within)
  | copyEntity entity other => exact settled_copy settled other
  | dropEntity entity => exact settled_drop settled entity

theorem start_settled : Settled ({} : Host Symbol) where
  grounded := ⟨empty_counted, {}, rfl, tracks_nothing⟩
  layout := by
    constructor
    · exact fun _ _ => ⟨rfl, rfl⟩
    · exact fun _ _ impossible => absurd impossible.symm (Option.some_ne_none _)
    · exact fun _ => ⟨fun _ => rfl, fun _ => rfl⟩
    · exact fun _ _ _ _ impossible => absurd impossible.symm (Option.some_ne_none _)
    · rfl
  empty := fun _ => rfl

/-- Every call so far was one that the libraries allow. When no backend is left and no
entity holds a ciphertext, every buffer is freed, every context destroyed and every library
closed. -/
def Safe (host : Host Symbol) : Prop :=
  host.process.isSome = true ∧
    ((∀ this, host.backends this = none) → (∀ entity, (host.entities entity).owner = none) →
      host.process = some {})

theorem settled_safe {host : Host Symbol} (settled : Settled host) : Safe host := by
  obtain ⟨⟨counted, process, running, tracks⟩, layout, empty⟩ := settled
  refine ⟨by rw [running, Option.isSome_some], ?_⟩
  intro backends entities
  have none (name : Pointer) : host.heap.pointers.value name = none := by
    cases name with
    | core this => exact (layout.idle this (backends this)).1
    | keepalive this => exact (layout.idle this (backends this)).2
    | ciphertext entity => exact (layout.owned entity).mp (entities entity)
    | buffer index => exact empty index
    | replaced => exact layout.replaced
  rw [all_empty_gone counted none] at tracks
  rw [running, nothing_tracked tracks]

/-- In any order of constructing and destroying backends, encrypting, decrypting, running
sessions and copying and dropping ciphertexts, no library is called against its contract,
and nothing is left when the last holder is gone. -/
theorem libraries_outlive_ciphertexts (actions : List (Action Symbol))
    (untagged : Guarded step Untagged actions {}) : Always step Safe actions {} := by
  refine always_of_guarded (fun _ => settled_safe) ?_ actions _ start_settled untagged
  intro action host next settled stepped allowed
  unfold step at stepped
  split_ifs at stepped with possible
  obtain rfl := Option.some.inj stepped
  exact act_settled settled possible allowed

def completeLibrary (handle ctx : Nat) : Library String where
  handle := handle
  dlsym := some
  getAbiVersion := 1
  create := fun _ => some ctx
  getKernels := fun _ => some 0

/-- A session adopts two buffers; they and the copy of its input outlive the backend. -/
def survivingCiphertext : List (Action String) :=
  [.construct 0 (.ok (completeLibrary 7 3)) none "", .transform 0 4 .int (some 9) 0,
    .copyEntity 5 4, .flush 0 [4] [some 10, some 11] 0 [(6, 1), (7, 2), (8, 1), (4, 2)],
    .destroyBackend 0, .dropEntity 4, .dropEntity 5, .dropEntity 6, .dropEntity 7, .dropEntity 8]

theorem surviving_ciphertext_freed :
    Always step Safe survivingCiphertext {} ∧
      (survivingCiphertext.foldlM (fun host action => step action host)
        ({} : Host String)).map (fun host => host.process) = some (some {}) := by
  refine ⟨libraries_outlive_ciphertexts survivingCiphertext ?_, ?_⟩
  · simp [survivingCiphertext, Guarded, Untagged]
  · decide

/-- The address of a destroyed backend is used again while its ciphertext lives on: the tag
lets the new backend decrypt a buffer that it never made. -/
theorem reused_address_misfires :
    (([.construct 0 (.ok (completeLibrary 7 3)) none "", .transform 0 4 .int (some 9) 0,
        .destroyBackend 0, .construct 0 (.ok (completeLibrary 7 6)) none "",
        .decrypt 0 4 .int 0] : List (Action String)).foldlM (fun host action => step action host)
      ({} : Host String)).map (fun host => host.process) = some none := by
  decide

end Fhenomenon.BackendLifetimes
