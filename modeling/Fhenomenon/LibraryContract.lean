import Mathlib

/-!
# What a host may ask of a loaded library

The entry points of the backend header as events of one process. A context may be used
while its library is open, a buffer while its context is live; a context may be destroyed
once its buffers are freed, and a library closed once its contexts are destroyed. An
address may be handed out again when what was there is gone.
-/

namespace Fhenomenon.LibraryContract

/-- `leaf` stands for a call without a context that leaves nothing behind: of
`fhn_get_abi_version`, of `fhn_get_info`, and of `fhn_create` when it returns null. `call`
stands for one with a context: of `fhn_get_kernels`, and of `fhn_buffer_alloc` when it
returns null. `use` stands for a call that reads or writes a buffer. -/
inductive Event
  | dlopen (handle : Nat)
  | leaf (handle : Nat)
  | create (handle ctx : Nat)
  | call (ctx : Nat)
  | bufferAlloc (ctx buffer : Nat)
  | use (ctx buffer : Nat)
  | bufferFree (ctx buffer : Nat)
  | destroy (handle ctx : Nat)
  | dlclose (handle : Nat)
deriving DecidableEq

/-- A library is open as often as its handle is in `opened`. Each context comes with its
library's handle, each buffer with its context. -/
structure Process where
  opened : Multiset Nat := 0
  contexts : Finset (Nat × Nat) := ∅
  buffers : Finset (Nat × Nat) := ∅
deriving DecidableEq

def Usable (ctx : Nat) (process : Process) : Prop :=
  ∃ context ∈ process.contexts, context.1 = ctx ∧ context.2 ∈ process.opened

instance (ctx : Nat) (process : Process) : Decidable (Usable ctx process) :=
  inferInstanceAs (Decidable (∃ context ∈ process.contexts, _))

def Allowed (process : Process) : Event → Prop
  | .dlopen _ => True
  | .leaf handle => handle ∈ process.opened
  | .create handle ctx => handle ∈ process.opened ∧ ∀ context ∈ process.contexts, context.1 ≠ ctx
  | .call ctx => Usable ctx process
  | .bufferAlloc ctx buffer => Usable ctx process ∧ ∀ held ∈ process.buffers, held.1 ≠ buffer
  | .use ctx buffer => Usable ctx process ∧ (buffer, ctx) ∈ process.buffers
  | .bufferFree ctx buffer => Usable ctx process ∧ (buffer, ctx) ∈ process.buffers
  | .destroy handle ctx =>
      handle ∈ process.opened ∧ (ctx, handle) ∈ process.contexts ∧
        ∀ held ∈ process.buffers, held.2 ≠ ctx
  | .dlclose handle =>
      handle ∈ process.opened ∧ ∀ context ∈ process.contexts,
        context.2 ∈ process.opened.erase handle

instance (process : Process) (event : Event) : Decidable (Allowed process event) := by
  cases event <;> unfold Allowed <;> infer_instance

def after (process : Process) : Event → Process
  | .dlopen handle => { process with opened := handle ::ₘ process.opened }
  | .create handle ctx => { process with contexts := insert (ctx, handle) process.contexts }
  | .bufferAlloc ctx buffer => { process with buffers := insert (buffer, ctx) process.buffers }
  | .bufferFree ctx buffer => { process with buffers := process.buffers.erase (buffer, ctx) }
  | .destroy handle ctx => { process with contexts := process.contexts.erase (ctx, handle) }
  | .dlclose handle => { process with opened := process.opened.erase handle }
  | .leaf _ | .call _ | .use _ _ => process

def step (event : Event) (process : Process) : Option Process :=
  if Allowed process event then some (after process event) else none

theorem step_allowed {event : Event} {process : Process} (allowed : Allowed process event) :
    step event process = some (after process event) :=
  if_pos allowed

/-- Every context is in an open library, and every buffer has a live context. -/
structure Sound (process : Process) : Prop where
  contexts : ∀ context ∈ process.contexts, context.2 ∈ process.opened
  buffers : ∀ held ∈ process.buffers, ∃ handle, (held.2, handle) ∈ process.contexts

section Rules

variable {process : Process} {handle ctx buffer : Nat}

theorem usable_of_mem (sound : Sound process) (live : (ctx, handle) ∈ process.contexts) :
    Usable ctx process :=
  ⟨(ctx, handle), live, rfl, sound.contexts _ live⟩

theorem open_close (sound : Sound process) :
    step (.dlclose handle) { process with opened := handle ::ₘ process.opened } =
      some process := by
  have restored : (handle ::ₘ process.opened).erase handle = process.opened :=
    Multiset.erase_cons_head _ _
  rw [step_allowed]
  · simp only [after, restored]
  · refine ⟨Multiset.mem_cons_self _ _, ?_⟩
    rw [restored]
    exact sound.contexts

theorem create_destroy (sound : Sound process) (opened : handle ∈ process.opened)
    (fresh : ∀ context ∈ process.contexts, context.1 ≠ ctx) :
    step (.destroy handle ctx)
      { process with contexts := insert (ctx, handle) process.contexts } = some process := by
  have absent : (ctx, handle) ∉ process.contexts := fun live => fresh _ live rfl
  rw [step_allowed]
  · simp only [after, Finset.erase_insert absent]
  · refine ⟨opened, Finset.mem_insert_self _ _, ?_⟩
    intro held member same
    obtain ⟨other, live⟩ := sound.buffers held member
    exact fresh _ live same

end Rules

end Fhenomenon.LibraryContract
