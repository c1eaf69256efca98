import Fhenomenon.Lib.SharedPointers
import Fhenomenon.LibraryLoading

/-!
# What the control blocks of a backend own

A core owns a context and a library, and the deleter of a buffer holds the core of its
context. Whatever block goes when nothing holds it, the libraries are called as their
contract allows.
-/

namespace Fhenomenon.LibraryResources

open Fhenomenon.Lib.RefCounts
open Fhenomenon.LibraryContract Fhenomenon.LibraryLoading

/-- A `LibCore`, or the buffer that a deleter frees. -/
inductive Resource
  | libCore (handle ctx : Nat)
  | buffer (ctx raw : Nat)
deriving DecidableEq

def Resource.handles : Resource → Multiset Nat
  | .libCore handle _ => {handle}
  | .buffer _ _ => 0

/-- `~LibCore`, or the deleter of a buffer. -/
def dispose (resource : Nat → Resource) (block : Nat) (process : Process) : Option Process :=
  match resource block with
  | .libCore handle ctx => (step (.destroy handle ctx) process).bind (step (.dlclose handle))
  | .buffer ctx raw => step (.bufferFree ctx raw) process

/-- The process has what the live blocks own, and nothing else. A buffer's block holds the
block of its context. -/
structure Tracks (resource : Nat → Resource) (parent : Nat → Option Nat) (live : Finset Nat)
    (process : Process) : Prop where
  contexts : ∀ context, context ∈ process.contexts ↔
    ∃ block ∈ live, resource block = .libCore context.2 context.1
  buffers : ∀ held, held ∈ process.buffers ↔
    ∃ block ∈ live, resource block = .buffer held.2 held.1
  opened : process.opened = ∑ block ∈ live, (resource block).handles
  oneContext : ∀ first ∈ live, ∀ second ∈ live, ∀ handle other ctx,
    resource first = .libCore handle ctx → resource second = .libCore other ctx → first = second
  oneBuffer : ∀ first ∈ live, ∀ second ∈ live, ∀ ctx other raw,
    resource first = .buffer ctx raw → resource second = .buffer other raw → first = second
  owned : ∀ block ∈ live, ∀ ctx raw, resource block = .buffer ctx raw →
    ∃ core ∈ live, parent block = some core ∧ ∃ handle, resource core = .libCore handle ctx

section Tracking

variable {resource : Nat → Resource} {parent : Nat → Option Nat} {live : Finset Nat}
  {process : Process} {block : Nat}

theorem tracks_nothing : Tracks resource parent ∅ {} := by
  constructor <;> simp

theorem nothing_tracked (tracks : Tracks resource parent ∅ process) : process = {} := by
  have contexts : process.contexts = ∅ := by
    ext context
    simp [tracks.contexts]
  have buffers : process.buffers = ∅ := by
    ext held
    simp [tracks.buffers]
  have opened : process.opened = 0 := by simp [tracks.opened]
  cases process
  simp_all

theorem handle_opened (tracks : Tracks resource parent live process) (member : block ∈ live)
    {handle ctx : Nat} (core : resource block = .libCore handle ctx) :
    handle ∈ process.opened := by
  rw [tracks.opened]
  apply Multiset.mem_sum.mpr
  exact ⟨block, member, by simp [core, Resource.handles]⟩

theorem tracks_sound (tracks : Tracks resource parent live process) : Sound process where
  contexts := by
    intro context member
    obtain ⟨block, alive, core⟩ := (tracks.contexts context).mp member
    exact handle_opened tracks alive core
  buffers := by
    intro held member
    obtain ⟨block, alive, buffer⟩ := (tracks.buffers held).mp member
    obtain ⟨core, coreAlive, _, handle, owns⟩ := tracks.owned block alive _ _ buffer
    exact ⟨handle, (tracks.contexts _).mpr ⟨core, coreAlive, owns⟩⟩

theorem buffer_usable (tracks : Tracks resource parent live process) (member : block ∈ live)
    {ctx raw : Nat} (buffer : resource block = .buffer ctx raw) :
    Usable ctx process ∧ (raw, ctx) ∈ process.buffers := by
  obtain ⟨core, alive, _, handle, owns⟩ := tracks.owned block member ctx raw buffer
  have context : (ctx, handle) ∈ process.contexts := (tracks.contexts _).mpr ⟨core, alive, owns⟩
  exact ⟨usable_of_mem (tracks_sound tracks) context,
    (tracks.buffers _).mpr ⟨block, member, buffer⟩⟩

theorem opened_erase (tracks : Tracks resource parent live process) (member : block ∈ live) :
    process.opened = (resource block).handles + ∑ other ∈ live.erase block,
      (resource other).handles := by
  rw [tracks.opened, Finset.add_sum_erase live (fun other => (resource other).handles) member]

theorem exists_erase {target : Resource} (different : resource block ≠ target) :
    (∃ other ∈ live.erase block, resource other = target) ↔
      ∃ other ∈ live, resource other = target := by
  constructor
  · rintro ⟨other, remains, owns⟩
    exact ⟨other, Finset.mem_of_mem_erase remains, owns⟩
  · rintro ⟨other, alive, owns⟩
    have apart : other ≠ block := by
      rintro rfl
      exact different owns
    exact ⟨other, Finset.mem_erase.mpr ⟨apart, alive⟩, owns⟩

theorem owned_erase (tracks : Tracks resource parent live process)
    (childless : ∀ child ∈ live, parent child ≠ some block) :
    ∀ other ∈ live.erase block, ∀ ctx raw, resource other = .buffer ctx raw →
      ∃ core ∈ live.erase block, parent other = some core ∧
        ∃ handle, resource core = .libCore handle ctx := by
  intro other remains ctx raw buffer
  have alive := Finset.mem_of_mem_erase remains
  obtain ⟨core, coreAlive, holds, owns⟩ := tracks.owned other alive ctx raw buffer
  have apart : core ≠ block := fun same => childless other alive (same ▸ holds)
  exact ⟨core, Finset.mem_erase.mpr ⟨apart, coreAlive⟩, holds, owns⟩

theorem one_context_erase (tracks : Tracks resource parent live process) (block : Nat) :
    ∀ first ∈ live.erase block, ∀ second ∈ live.erase block, ∀ handle other ctx,
      resource first = .libCore handle ctx → resource second = .libCore other ctx →
        first = second :=
  fun first one second two => tracks.oneContext first (Finset.mem_of_mem_erase one) second
    (Finset.mem_of_mem_erase two)

theorem one_buffer_erase (tracks : Tracks resource parent live process) (block : Nat) :
    ∀ first ∈ live.erase block, ∀ second ∈ live.erase block, ∀ ctx other raw,
      resource first = .buffer ctx raw → resource second = .buffer other raw → first = second :=
  fun first one second two => tracks.oneBuffer first (Finset.mem_of_mem_erase one) second
    (Finset.mem_of_mem_erase two)

theorem tracks_free (tracks : Tracks resource parent live process) (member : block ∈ live)
    (childless : ∀ child ∈ live, parent child ≠ some block) {ctx raw : Nat}
    (owns : resource block = .buffer ctx raw) :
    ∃ next, step (.bufferFree ctx raw) process = some next ∧
      Tracks resource parent (live.erase block) next := by
  have allowed : Allowed process (.bufferFree ctx raw) := buffer_usable tracks member owns
  refine ⟨_, step_allowed allowed, ?_, ?_, ?_, one_context_erase tracks block,
    one_buffer_erase tracks block, owned_erase tracks childless⟩
  · intro context
    rw [exists_erase (by rw [owns]; exact Resource.noConfusion)]
    exact tracks.contexts context
  · intro held
    rw [after, Finset.mem_erase]
    by_cases same : held = (raw, ctx)
    · -- The only block with this buffer is the one that goes.
      subst same
      refine ⟨fun both => absurd rfl both.1, ?_⟩
      rintro ⟨other, remains, buffer⟩
      obtain ⟨apart, alive⟩ := Finset.mem_erase.mp remains
      exact absurd (tracks.oneBuffer other alive block member _ _ _ buffer owns) apart
    · rw [exists_erase, tracks.buffers held]
      · exact and_iff_right same
      · rw [owns]
        intro equal
        obtain ⟨ctxs, raws⟩ := Resource.buffer.inj equal
        exact same (Prod.ext raws.symm ctxs.symm)
  · have split := opened_erase tracks member
    rw [owns, Resource.handles, zero_add] at split
    exact split

/-- `~LibCore`: the context has no buffer left, and the library closes once more. -/
theorem tracks_unload (tracks : Tracks resource parent live process) (member : block ∈ live)
    (childless : ∀ child ∈ live, parent child ≠ some block) {handle ctx : Nat}
    (owns : resource block = .libCore handle ctx) :
    ∃ next, (step (.destroy handle ctx) process).bind (step (.dlclose handle)) = some next ∧
      Tracks resource parent (live.erase block) next := by
  have unheld : ∀ held ∈ process.buffers, held.2 ≠ ctx := by
    intro held stored same
    obtain ⟨child, alive, buffer⟩ := (tracks.buffers held).mp stored
    obtain ⟨core, coreAlive, holds, other, coreOwns⟩ := tracks.owned child alive _ _ buffer
    rw [same] at coreOwns
    have whole := tracks.oneContext core coreAlive block member _ _ _ coreOwns owns
    exact childless child alive (whole ▸ holds)
  have destroyed : Allowed process (.destroy handle ctx) :=
    ⟨handle_opened tracks member owns, (tracks.contexts _).mpr ⟨block, member, owns⟩, unheld⟩
  have remaining : ∀ other, other ∈ process.contexts.erase (ctx, handle) ↔
      ∃ core ∈ live.erase block, resource core = .libCore other.2 other.1 := by
    intro other
    rw [Finset.mem_erase]
    by_cases same : other = (ctx, handle)
    · subst same
      refine ⟨fun both => absurd rfl both.1, ?_⟩
      rintro ⟨core, remains, coreOwns⟩
      obtain ⟨apart, alive⟩ := Finset.mem_erase.mp remains
      exact absurd (tracks.oneContext core alive block member _ _ _ coreOwns owns) apart
    · rw [exists_erase, tracks.contexts other]
      · exact and_iff_right same
      · rw [owns]
        intro equal
        obtain ⟨handles, ctxs⟩ := Resource.libCore.inj equal
        exact same (Prod.ext ctxs.symm handles.symm)
  have left : process.opened.erase handle =
      ∑ other ∈ live.erase block, (resource other).handles := by
    rw [opened_erase tracks member, owns, Resource.handles, Multiset.singleton_add,
      Multiset.erase_cons_head]
  have closed : Allowed (after process (.destroy handle ctx)) (.dlclose handle) := by
    refine ⟨handle_opened tracks member owns, ?_⟩
    intro other stored
    obtain ⟨core, remains, coreOwns⟩ := (remaining other).mp stored
    change other.2 ∈ process.opened.erase handle
    rw [left]
    apply Multiset.mem_sum.mpr
    exact ⟨core, remains, by simp [coreOwns, Resource.handles]⟩
  refine ⟨after (after process (.destroy handle ctx)) (.dlclose handle), ?_, remaining, ?_,
    left, one_context_erase tracks block, one_buffer_erase tracks block,
    owned_erase tracks childless⟩
  · rw [step_allowed destroyed, Option.bind_some, step_allowed closed]
  · intro held
    rw [exists_erase (by rw [owns]; exact Resource.noConfusion)]
    exact tracks.buffers held

/-- A live block that no live block holds can be disposed of. -/
theorem tracks_disposes : Disposes (dispose resource) (Tracks resource parent) parent := by
  intro live block process tracks member childless
  unfold dispose
  cases owns : resource block with
  | buffer ctx raw => exact tracks_free tracks member childless owns
  | libCore handle ctx => exact tracks_unload tracks member childless owns

theorem tracks_congr {others : Nat → Resource} {parents : Nat → Option Nat}
    (tracks : Tracks resource parent live process)
    (same : ∀ block ∈ live, others block = resource block)
    (held : ∀ block ∈ live, parents block = parent block) :
    Tracks others parents live process where
  contexts := fun context => (tracks.contexts context).trans
    (exists_congr fun block => and_congr_right fun alive => by rw [same block alive])
  buffers := fun buffer => (tracks.buffers buffer).trans
    (exists_congr fun block => and_congr_right fun alive => by rw [same block alive])
  opened := tracks.opened.trans
    (Finset.sum_congr rfl fun block alive => by rw [same block alive])
  oneContext := by
    intro first one second two handle other ctx
    rw [same first one, same second two]
    exact tracks.oneContext first one second two handle other ctx
  oneBuffer := by
    intro first one second two ctx other raw
    rw [same first one, same second two]
    exact tracks.oneBuffer first one second two ctx other raw
  owned := by
    intro block alive ctx raw
    rw [same block alive, held block alive]
    intro buffer
    obtain ⟨core, coreAlive, holds, handle, owns⟩ := tracks.owned block alive ctx raw buffer
    exact ⟨core, coreAlive, holds, handle, (same core coreAlive).trans owns⟩

theorem exists_insert {property : Nat → Prop} :
    (∃ other ∈ insert block live, property other) ↔
      property block ∨ ∃ other ∈ live, property other := by
  simp

theorem once_insert {owner : Nat → Nat → Prop}
    (once : ∀ first ∈ live, ∀ second ∈ live, ∀ key, owner first key → owner second key →
      first = second)
    (unshared : ∀ key, owner block key → ∀ other ∈ live, ¬ owner other key) :
    ∀ first ∈ insert block live, ∀ second ∈ insert block live, ∀ key, owner first key →
      owner second key → first = second := by
  intro first one second two key left right
  rcases Finset.mem_insert.mp one with rfl | old
  · rcases Finset.mem_insert.mp two with rfl | older
    · rfl
    · exact absurd right (unshared key left second older)
  · rcases Finset.mem_insert.mp two with rfl | older
    · exact absurd left (unshared key right first old)
    · exact once first old second older key left right

theorem one_context_insert (tracks : Tracks resource parent live process)
    (unshared : ∀ handle ctx, resource block = .libCore handle ctx →
      ∀ other ∈ live, ∀ old, resource other ≠ .libCore old ctx) :
    ∀ first ∈ insert block live, ∀ second ∈ insert block live, ∀ handle other ctx,
      resource first = .libCore handle ctx → resource second = .libCore other ctx →
        first = second := by
  intro first one second two handle other ctx left right
  refine @once_insert _ _ (fun core ctx => ∃ handle, resource core = .libCore handle ctx)
    ?_ ?_ first one second two ctx ⟨handle, left⟩ ⟨other, right⟩
  · rintro first' one' second' two' ctx' ⟨handle', left'⟩ ⟨other', right'⟩
    exact tracks.oneContext first' one' second' two' handle' other' ctx' left' right'
  · rintro ctx' ⟨handle', owns⟩ core alive ⟨old, shared⟩
    exact unshared handle' ctx' owns core alive old shared

theorem one_buffer_insert (tracks : Tracks resource parent live process)
    (unshared : ∀ ctx raw, resource block = .buffer ctx raw →
      ∀ other ∈ live, ∀ old, resource other ≠ .buffer old raw) :
    ∀ first ∈ insert block live, ∀ second ∈ insert block live, ∀ ctx other raw,
      resource first = .buffer ctx raw → resource second = .buffer other raw →
        first = second := by
  intro first one second two ctx other raw left right
  refine @once_insert _ _ (fun held raw => ∃ ctx, resource held = .buffer ctx raw)
    ?_ ?_ first one second two raw ⟨ctx, left⟩ ⟨other, right⟩
  · rintro first' one' second' two' raw' ⟨ctx', left'⟩ ⟨other', right'⟩
    exact tracks.oneBuffer first' one' second' two' ctx' other' raw' left' right'
  · rintro raw' ⟨ctx', owns⟩ held alive ⟨old, shared⟩
    exact unshared ctx' raw' owns held alive old shared

theorem tracks_core (tracks : Tracks resource parent live process) (fresh : block ∉ live)
    {handle ctx : Nat} (owns : resource block = .libCore handle ctx)
    (unused : ∀ context ∈ process.contexts, context.1 ≠ ctx) :
    Tracks resource parent (insert block live) (withContext handle ctx process) where
  contexts := by
    intro context
    rw [withContext, Finset.mem_insert, exists_insert, tracks.contexts, owns]
    refine or_congr_left ⟨?_, ?_⟩
    · rintro rfl
      rfl
    · intro same
      obtain ⟨handles, ctxs⟩ := Resource.libCore.inj same
      exact Prod.ext ctxs.symm handles.symm
  buffers := by
    intro held
    rw [exists_insert, owns]
    refine (tracks.buffers held).trans ⟨Or.inr, ?_⟩
    rintro (impossible | old)
    · cases impossible
    · exact old
  opened := by
    rw [Finset.sum_insert fresh, owns, Resource.handles, Multiset.singleton_add, ← tracks.opened]
    rfl
  oneContext := one_context_insert tracks (by
    intro handle' ctx' core other alive old shared
    obtain ⟨_, same⟩ := Resource.libCore.inj (owns.symm.trans core)
    exact unused (ctx, old) ((tracks.contexts _).mpr ⟨other, alive, same ▸ shared⟩) rfl)
  oneBuffer := one_buffer_insert tracks (by
    intro ctx' raw buffer
    cases owns.symm.trans buffer)
  owned := by
    intro other member ctx' raw buffer
    rcases Finset.mem_insert.mp member with rfl | old
    · rw [owns] at buffer
      cases buffer
    · obtain ⟨core, alive, rest⟩ := tracks.owned other old ctx' raw buffer
      exact ⟨core, Finset.mem_insert_of_mem alive, rest⟩

theorem tracks_buffer (tracks : Tracks resource parent live process) (fresh : block ∉ live)
    {ctx raw core handle : Nat} (owns : resource block = .buffer ctx raw)
    (holds : parent block = some core) (alive : core ∈ live)
    (coreOwns : resource core = .libCore handle ctx)
    (unused : ∀ held ∈ process.buffers, held.1 ≠ raw) :
    Tracks resource parent (insert block live) (after process (.bufferAlloc ctx raw)) where
  contexts := by
    intro context
    rw [exists_insert, owns]
    refine (tracks.contexts context).trans ⟨Or.inr, ?_⟩
    rintro (impossible | old)
    · cases impossible
    · exact old
  buffers := by
    intro held
    rw [after, Finset.mem_insert, exists_insert, tracks.buffers, owns]
    refine or_congr_left ⟨?_, ?_⟩
    · rintro rfl
      rfl
    · intro same
      obtain ⟨ctxs, raws⟩ := Resource.buffer.inj same
      exact Prod.ext raws.symm ctxs.symm
  opened := by
    rw [Finset.sum_insert fresh, owns, Resource.handles, zero_add, ← tracks.opened]
    rfl
  oneContext := one_context_insert tracks (by
    intro handle' ctx' core
    cases owns.symm.trans core)
  oneBuffer := one_buffer_insert tracks (by
    intro ctx' raw' buffer other live' old shared
    obtain ⟨_, same⟩ := Resource.buffer.inj (owns.symm.trans buffer)
    exact unused (raw, old) ((tracks.buffers _).mpr ⟨other, live', same ▸ shared⟩) rfl)
  owned := by
    intro other member ctx' raw' buffer
    rcases Finset.mem_insert.mp member with rfl | old
    · rw [owns] at buffer
      obtain ⟨rfl, rfl⟩ := Resource.buffer.inj buffer
      exact ⟨core, Finset.mem_insert_of_mem alive, holds, handle, coreOwns⟩
    · obtain ⟨core', alive', rest⟩ := tracks.owned other old ctx' raw' buffer
      exact ⟨core', Finset.mem_insert_of_mem alive', rest⟩

end Tracking

end Fhenomenon.LibraryResources
