import Fhenomenon.Lib.SharedPointers
import Fhenomenon.LibraryResources

/-!
# Backends, ciphertexts and the variables that hold them

The member functions of `ExternalBackend` and the end of a session, over variables of type
`shared_ptr`. While they run, the counts are right, the process has what the live blocks
own, and a ciphertext's tag tells whose buffer it is.
-/

namespace Fhenomenon.BackendHosts

open Fhenomenon.Lib.Fallible Fhenomenon.Lib.RefCounts Fhenomenon.Lib.SharedPointers
open Fhenomenon.LibraryContract Fhenomenon.LibraryLoading Fhenomenon.LibraryResources

/-- The variables that hold a control block: the two of a backend, the ciphertext of an
entity, a function's own buffers (a session has a table of them), and the value that an
assignment replaces. -/
inductive Pointer
  | core (this : Nat)
  | keepalive (this : Nat)
  | ciphertext (entity : Nat)
  | buffer (index : Nat)
  | replaced
deriving DecidableEq

inductive EntityType
  | int
  | double
  | other
deriving DecidableEq

/-- `owner` is the tag of the `FhnCiphertext` that the entity holds, if it holds one. -/
structure Fhenon where
  owner : Option Nat := none
  isEncrypted : Bool := false
deriving DecidableEq

/-- `process` is `none` once the contract of a library is broken. -/
structure Host (Symbol : Type) where
  heap : Heap Pointer := Heap.empty
  resource : Nat → Resource := fun _ => .buffer 0 0
  backends : Nat → Option (ExternalBackend Symbol) := fun _ => none
  entities : Nat → Fhenon := fun _ => {}
  process : Option Process := some {}

variable {Symbol : Type}

namespace Host

def value (host : Host Symbol) (name : Pointer) : Option Nat := host.heap.pointers.value name

def tell (event : Event) (host : Host Symbol) : Host Symbol :=
  { host with process := host.process.bind (step event) }

def make (name : Pointer) (parent : Option Nat) (resource : Resource) (host : Host Symbol) :
    Host Symbol :=
  { host with
    heap := host.heap.make name parent
    resource := Function.update host.resource host.heap.blocks.next resource }

def copy (name source : Pointer) (host : Host Symbol) : Host Symbol :=
  { host with heap := host.heap.copy name source }

def move (name source : Pointer) (host : Host Symbol) : Host Symbol :=
  { host with heap := host.heap.move name source }

def reset (name : Pointer) (host : Host Symbol) : Host Symbol :=
  let cleared := host.heap.reset name
  { host with
    heap := cleared.1
    process := host.process.bind fun process =>
      cleared.2.foldlM (fun process block => dispose host.resource block process) process }

/-- The raw buffer that a variable points to, null as 0. -/
def raw (host : Host Symbol) (name : Pointer) : Nat :=
  match (host.value name).map host.resource with
  | some (.buffer _ raw) => raw
  | _ => 0

/-- `entity.ciphertext_ = FhnCiphertext{buffer, this}`: the old value goes last. -/
def assignCiphertext (entity this index : Nat) (host : Host Symbol) : Host Symbol :=
  let swapped :=
    (host.move .replaced (.ciphertext entity)).copy (.ciphertext entity) (.buffer index)
  reset .replaced { swapped with
    entities := Function.update host.entities entity { owner := some this, isEncrypted := true } }

/-- `entity.ciphertext_ = other.ciphertext_`, and the flag with it. -/
def copyEntity (entity other : Nat) (host : Host Symbol) : Host Symbol :=
  let held := host.copy (.buffer 0) (.ciphertext other)
  let swapped := (held.move .replaced (.ciphertext entity)).move (.ciphertext entity) (.buffer 0)
  reset .replaced { swapped with
    entities := Function.update host.entities entity (host.entities other) }

/-- The entity dies, or its ciphertext is reset. -/
def dropEntity (entity : Nat) (host : Host Symbol) : Host Symbol :=
  reset (.ciphertext entity) { host with entities := Function.update host.entities entity {} }

/-- `~ExternalBackend`: `core_` goes first, and then the runtime with its keepalive. -/
def destroyBackend (this : Nat) (host : Host Symbol) : Host Symbol :=
  { (host.reset (.core this)).reset (.keepalive this) with
    backends := Function.update host.backends this none }

/-- The end of the constructor: `core_` and the keepalive of the runtime. -/
def adoptCore (this : Nat) (backend : ExternalBackend Symbol) (host : Host Symbol) :
    Host Symbol :=
  { (host.make (.core this) none (.libCore backend.dlHandle backend.fhnCtx)).copy
      (.keepalive this) (.core this) with
    backends := Function.update host.backends this (some backend) }

end Host

def constructBackend (this : Nat) (dlopen : Except String (Library Symbol))
    (configJson : Option String) (symbolPrefix : String) :
    Computation (Host Symbol) String Unit :=
  fun host =>
    match construct dlopen configJson symbolPrefix host.process with
    | (.error text, process) => (.error text, { host with process := process })
    | (.ok backend, process) =>
        (.ok (), Host.adoptCore this backend { host with process := process })

/-- The deleter shares what `holder` holds: `core_` here, the keepalive in a session. -/
def makeBuffer (holder : Pointer) (ctx index : Nat) (address : Option Nat) (text : String) :
    Computation (Host Symbol) String Nat :=
  match address with
  | none => do
      change (Host.tell (.call ctx))
      fail text
  | some raw => do
      change fun host =>
        (host.tell (.bufferAlloc ctx raw)).make (.buffer index) (host.value holder)
          (.buffer ctx raw)
      pure raw

def encryptWith (this : Nat) (backend : ExternalBackend Symbol) (entity : Nat)
    (encrypt : Option Symbol) (name : String) (address : Option Nat) (code : Int) :
    Computation (Host Symbol) String Unit :=
  match encrypt with
  | none => fail ("ExternalBackend: backend does not export " ++ name ++ " (no key material)")
  | some _ => do
      let raw ← makeBuffer (.core this) backend.fhnCtx 0 address
        "ExternalBackend: fhn_buffer_alloc failed"
      change (Host.tell (.use backend.fhnCtx raw))
      if code ≠ 0 then do
        change (Host.reset (.buffer 0))
        fail ("ExternalBackend: " ++ name ++ " failed")
      else do
        change (Host.assignCiphertext entity this 0)
        change (Host.reset (.buffer 0))

/-- `address` and `code` are what the library's functions return. -/
def transform (this : Nat) (backend : ExternalBackend Symbol) (entity : Nat)
    (type : EntityType) (address : Option Nat) (code : Int) :
    Computation (Host Symbol) String Unit :=
  match type with
  | .int =>
      encryptWith this backend entity backend.vtable.encryptI64 "fhn_encrypt_i64" address code
  | .double =>
      encryptWith this backend entity backend.vtable.encryptF64 "fhn_encrypt_f64" address code
  | .other => fail "ExternalBackend: unsupported type for encryption"

def decryptWith (backend : ExternalBackend Symbol) (decrypt : Option Symbol) (name : String)
    (code : Int) : Computation (Host Symbol) String Unit :=
  match decrypt with
  | none => do
      change (Host.reset (.buffer 0))
      fail ("ExternalBackend: backend does not export " ++ name ++ " (no key material)")
  | some _ => do
      change fun host => host.tell (.use backend.fhnCtx (host.raw (.buffer 0)))
      change (Host.reset (.buffer 0))
      if code ≠ 0 then fail ("ExternalBackend: " ++ name ++ " failed") else pure ()

/-- An entity that is not encrypted gives its plaintext, without the library. -/
def decrypt (this : Nat) (backend : ExternalBackend Symbol) (entity : Nat)
    (type : EntityType) (code : Int) : Computation (Host Symbol) String Unit := do
  let host ← look
  if (host.entities entity).isEncrypted = false ∨ (host.entities entity).owner = none then pure ()
  else if (host.entities entity).owner ≠ some this then
    fail "ExternalBackend: decrypt: operand was not encrypted by this backend"
  else do
    change (Host.copy (.buffer 0) (.ciphertext entity))
    match type with
    | .int => decryptWith backend backend.vtable.decryptI64 "fhn_decrypt_i64" code
    | .double => decryptWith backend backend.vtable.decryptF64 "fhn_decrypt_f64" code
    | .other => do
        change (Host.reset (.buffer 0))
        fail "ExternalBackend: unsupported type for decryption"

/-- A session holds the buffer of an input id, an entity of its own, while it runs. -/
def holdInput (this : Nat) (input : Nat × Nat) : Computation (Host Symbol) String Unit := do
  let host ← look
  if (host.entities input.1).isEncrypted = false ∨ (host.entities input.1).owner = none then
    pure ()
  else if (host.entities input.1).owner ≠ some this then
    fail "Session: operand was encrypted by a different backend"
  else change (Host.copy (.buffer input.2) (.ciphertext input.1))

def checkInput (index : Nat) : Computation (Host Symbol) String Unit := do
  let host ← look
  if host.value (.buffer index) = none then
    fail "Session: operand is not encrypted — call belong() before using it in a session"
  else pure ()

def allocateEntry (this : Nat) (backend : ExternalBackend Symbol) (code : Int)
    (entry : Option Nat × Nat) : Computation (Host Symbol) String Unit := do
  let _ ← makeBuffer (.keepalive this) backend.fhnCtx entry.2 entry.1
    ("Session: FHN executor failed with rc=" ++ toString code)

namespace Host

def useTable (ctx count : Nat) (host : Host Symbol) : Host Symbol :=
  (List.range count).foldl
    (fun host index => host.tell (.use ctx (host.raw (.buffer index)))) host

/-- Each entity takes the buffer of the id that it is bound to. -/
def writeBack (this : Nat) (latest : List (Nat × Nat)) (host : Host Symbol) : Host Symbol :=
  latest.foldl (fun host bound => host.assignCiphertext bound.1 this bound.2) host

/-- The table goes out of scope: the adopted buffers, and then the inputs'. -/
def release : Nat → Host Symbol → Host Symbol
  | 0, host => host
  | count + 1, host => release count (host.reset (.buffer count))

end Host

/-- A run of a session. The table has the inputs' buffers first and then the allocated ones;
`latest` gives each entity that is written back the entry it is bound to. An allocated entry
that nobody is bound to is an intermediate, and the executor frees what it allocated itself
when it fails. -/
def flush (this : Nat) (backend : ExternalBackend Symbol) (inputs : List Nat)
    (addresses : List (Option Nat)) (code : Int) (latest : List (Nat × Nat)) :
    Computation (Host Symbol) String Unit :=
  ensuring (do
    each (holdInput this) inputs.zipIdx
    each checkInput (List.range inputs.length)
    each (allocateEntry this backend code) (addresses.zipIdx inputs.length)
    change (Host.useTable backend.fhnCtx (inputs.length + addresses.length))
    if code ≠ 0 then fail ("Session: FHN executor failed with rc=" ++ toString code)
    else change (Host.writeBack this latest))
  (Host.release (inputs.length + addresses.length))

/-- The counts are right, and the process has what the live blocks own. -/
def Grounded (host : Host Symbol) : Prop :=
  WellCounted host.heap ∧ ∃ process, host.process = some process ∧
    Tracks host.resource host.heap.blocks.parent host.heap.blocks.live process

def Unused (raw : Nat) (host : Host Symbol) : Prop :=
  ∀ process ∈ host.process, ∀ held ∈ process.buffers, held.1 ≠ raw

instance (raw : Nat) (host : Host Symbol) : Decidable (Unused raw host) :=
  inferInstanceAs (Decidable (∀ process ∈ host.process, _))

section Grounds

variable {host : Host Symbol} {name source : Pointer} {block ctx raw handle index : Nat}

theorem grounded_reset (grounded : Grounded host) : Grounded (host.reset name) := by
  obtain ⟨counted, process, running, tracks⟩ := grounded
  obtain ⟨final, follows, kept, settled⟩ :
      ∃ final, (host.heap.reset name).2.foldlM
          (fun process block => dispose host.resource block process) process = some final ∧
        Tracks host.resource host.heap.blocks.parent (host.heap.reset name).1.blocks.live final ∧
          WellCounted (host.heap.reset name).1 :=
    reset_disposes counted tracks_disposes tracks
  refine ⟨settled, final, ?_, ?_⟩
  · simp only [Host.reset, running, Option.bind_some]
    exact follows
  · simp only [Host.reset, reset_parent]
    exact kept

theorem grounded_copy (grounded : Grounded host) (free : host.value name = none) :
    Grounded (host.copy name source) := by
  obtain ⟨counted, process, running, tracks⟩ := grounded
  refine ⟨copy_counted counted free, process, running, ?_⟩
  obtain ⟨live, parent⟩ := @copy_blocks Pointer host.heap _ name source
  simp only [Host.copy, live, parent]
  exact tracks

theorem grounded_move (grounded : Grounded host) (free : host.value name = none)
    (apart : name ≠ source) : Grounded (host.move name source) := by
  obtain ⟨counted, process, running, tracks⟩ := grounded
  exact ⟨move_counted counted free apart, process, running, tracks⟩

theorem grounded_use (grounded : Grounded host) (held : host.value name = some block)
    (owns : host.resource block = .buffer ctx raw) : Grounded (host.tell (.use ctx raw)) := by
  obtain ⟨counted, process, running, tracks⟩ := grounded
  have allowed : Allowed process (.use ctx raw) :=
    buffer_usable tracks (value_live counted held) owns
  refine ⟨counted, process, ?_, tracks⟩
  rw [Host.tell, running, Option.bind_some, step_allowed allowed]
  rfl

theorem grounded_call (grounded : Grounded host) (held : host.value name = some block)
    (owns : host.resource block = .libCore handle ctx) : Grounded (host.tell (.call ctx)) := by
  obtain ⟨counted, process, running, tracks⟩ := grounded
  have context : (ctx, handle) ∈ process.contexts :=
    (tracks.contexts _).mpr ⟨block, value_live counted held, owns⟩
  have allowed : Allowed process (.call ctx) := usable_of_mem (tracks_sound tracks) context
  refine ⟨counted, process, ?_, tracks⟩
  rw [Host.tell, running, Option.bind_some, step_allowed allowed]
  rfl

theorem next_unused (counted : WellCounted host.heap) :
    host.heap.blocks.next ∉ host.heap.blocks.live :=
  fun member => lt_irrefl _ (counted.numbered _ member)

theorem tracks_next {process : Process} {resource : Resource} {parent : Option Nat}
    (counted : WellCounted host.heap)
    (tracks : Tracks host.resource host.heap.blocks.parent host.heap.blocks.live process) :
    Tracks (Function.update host.resource host.heap.blocks.next resource)
      (Function.update host.heap.blocks.parent host.heap.blocks.next parent)
      host.heap.blocks.live process := by
  have apart : ∀ block ∈ host.heap.blocks.live, block ≠ host.heap.blocks.next :=
    fun block member => (counted.numbered block member).ne
  apply tracks_congr tracks
  · intro block member
    rw [Function.update_of_ne (apart block member)]
  · intro block member
    rw [Function.update_of_ne (apart block member)]

theorem grounded_buffer (grounded : Grounded host) (free : host.value (.buffer index) = none)
    (held : host.value name = some block) (owns : host.resource block = .libCore handle ctx)
    (unused : Unused raw host) :
    Grounded ((host.tell (.bufferAlloc ctx raw)).make (.buffer index) (host.value name)
      (.buffer ctx raw)) := by
  obtain ⟨counted, process, running, tracks⟩ := grounded
  have alive := value_live counted held
  have context : (ctx, handle) ∈ process.contexts := (tracks.contexts _).mpr ⟨block, alive, owns⟩
  have unheld := unused process running
  have allowed : Allowed process (.bufferAlloc ctx raw) :=
    ⟨usable_of_mem (tracks_sound tracks) context, unheld⟩
  have apart : block ≠ host.heap.blocks.next := (value_older counted held).ne
  have older : ∀ parent, host.value name = some parent → parent ∈ host.heap.blocks.live :=
    fun parent same => Option.some.inj (held.symm.trans same) ▸ alive
  have parents : Function.update host.heap.blocks.parent host.heap.blocks.next (host.value name)
      host.heap.blocks.next = some block := by
    rw [Function.update_self]
    exact held
  have cores : Function.update host.resource host.heap.blocks.next (.buffer ctx raw) block =
      .libCore handle ctx := by
    rw [Function.update_of_ne apart]
    exact owns
  refine ⟨make_counted counted free older, after process (.bufferAlloc ctx raw), ?_, ?_⟩
  · simp only [Host.make, Host.tell, running, Option.bind_some, step_allowed allowed]
  · exact tracks_buffer (tracks_next counted tracks) (next_unused counted)
      (Function.update_self ..) parents alive cores unheld

theorem grounded_core {process : Process} (counted : WellCounted host.heap)
    (tracks : Tracks host.resource host.heap.blocks.parent host.heap.blocks.live process)
    (free : host.value name = none)
    (unused : ∀ context ∈ process.contexts, context.1 ≠ ctx) :
    Grounded ({ host with process := some (withContext handle ctx process) }.make name none
      (.libCore handle ctx)) := by
  refine ⟨make_counted counted free (by simp), withContext handle ctx process, rfl, ?_⟩
  exact tracks_core (tracks_next counted tracks) (next_unused counted)
    (Function.update_self ..) unused

end Grounds

/-- Both variables of a backend hold its core, and a ciphertext tagged with a backend's
address has a buffer of that backend's context. -/
structure Layout (host : Host Symbol) : Prop where
  idle : ∀ this, host.backends this = none →
    host.value (.core this) = none ∧ host.value (.keepalive this) = none
  cores : ∀ this backend, host.backends this = some backend →
    ∃ core, host.value (.core this) = some core ∧ host.value (.keepalive this) = some core ∧
      host.resource core = .libCore backend.dlHandle backend.fhnCtx
  owned : ∀ entity, (host.entities entity).owner = none ↔ host.value (.ciphertext entity) = none
  tags : ∀ entity this backend block, (host.entities entity).owner = some this →
    host.backends this = some backend → host.value (.ciphertext entity) = some block →
      ∃ raw, host.resource block = .buffer backend.fhnCtx raw
  replaced : host.value .replaced = none

/-- Between two actions. -/
structure Settled (host : Host Symbol) : Prop where
  grounded : Grounded host
  layout : Layout host
  empty : ∀ index, host.value (.buffer index) = none

/-- Inside a function, whose own variables hold the buffers `raws` of one context. -/
structure Holding (ctx : Nat) (raws : Nat → Option Nat) (host : Host Symbol) : Prop where
  grounded : Grounded host
  layout : Layout host
  holds : ∀ index, (host.value (.buffer index)).map host.resource =
    (raws index).map (Resource.buffer ctx)

section Layouts

variable {host other : Host Symbol} {ctx raw this entity index : Nat} {raws : Nat → Option Nat}
  {backend : ExternalBackend Symbol}

theorem layout_congr (layout : Layout host) (backends : other.backends = host.backends)
    (entities : other.entities = host.entities)
    (values : ∀ name, (∀ index, name ≠ .buffer index) → other.value name = host.value name)
    (resources : ∀ name block, host.value name = some block →
      other.resource block = host.resource block) : Layout other where
  idle := by
    intro this none
    rw [backends] at none
    rw [values _ (by simp), values _ (by simp)]
    exact layout.idle this none
  cores := by
    intro this backend found
    rw [backends] at found
    obtain ⟨core, first, second, owns⟩ := layout.cores this backend found
    rw [values _ (by simp), values _ (by simp)]
    exact ⟨core, first, second, (resources _ core first).trans owns⟩
  owned := by
    intro entity
    rw [entities, values _ (by simp)]
    exact layout.owned entity
  tags := by
    intro entity this backend block
    rw [entities, backends, values _ (by simp)]
    intro tag found held
    obtain ⟨raw, owns⟩ := layout.tags entity this backend block tag found held
    exact ⟨raw, (resources _ block held).trans owns⟩
  replaced := by
    rw [values _ (by simp)]
    exact layout.replaced

theorem layout_entity (layout : Layout host) {object : Fhenon} {held : Option Nat}
    (backends : other.backends = host.backends) (resources : other.resource = host.resource)
    (entities : other.entities = Function.update host.entities entity object)
    (values : ∀ name, other.value name =
      if name = .ciphertext entity then held else host.value name)
    (owned : object.owner = none ↔ held = none)
    (tags : ∀ this backend block, object.owner = some this → host.backends this = some backend →
      held = some block → ∃ raw, host.resource block = .buffer backend.fhnCtx raw) :
    Layout other where
  idle := by
    intro address none
    rw [backends] at none
    rw [values, values, if_neg (by simp), if_neg (by simp)]
    exact layout.idle address none
  cores := by
    intro address made known
    rw [backends] at known
    rw [values, values, resources, if_neg (by simp), if_neg (by simp)]
    exact layout.cores address made known
  owned := by
    intro target
    rw [values, entities]
    by_cases same : target = entity
    · subst same
      rw [Function.update_self, if_pos rfl]
      exact owned
    · rw [Function.update_of_ne same, if_neg (by simp [same])]
      exact layout.owned target
  tags := by
    intro target address made block tag known stored
    rw [backends] at known
    rw [entities] at tag
    rw [values] at stored
    rw [resources]
    by_cases same : target = entity
    · subst same
      rw [Function.update_self] at tag
      rw [if_pos rfl] at stored
      exact tags address made block tag known stored
    · rw [Function.update_of_ne same] at tag
      rw [if_neg (by simp [same])] at stored
      exact layout.tags target address made block tag known stored
  replaced := by
    rw [values, if_neg (by simp)]
    exact layout.replaced

theorem reset_host_value (name source : Pointer) :
    (host.reset name).value source = if source = name then none else host.value source :=
  reset_value source

theorem move_host_value (name source target : Pointer) :
    (host.move name source).value target = if target = name then host.value source
      else if target = source then none else host.value target :=
  move_value target

theorem copy_host_value {name : Pointer} (free : host.value name = none)
    (source target : Pointer) :
    (host.copy name source).value target =
      if target = name then host.value source else host.value target :=
  copy_value free target

theorem holding_entry (holding : Holding ctx raws host) (entry : raws index = some raw) :
    ∃ block, host.value (.buffer index) = some block ∧ host.resource block = .buffer ctx raw := by
  have holds := holding.holds index
  rw [entry] at holds
  exact Option.map_eq_some_iff.mp holds

theorem holding_empty (holding : Holding ctx raws host) (entry : raws index = none) :
    host.value (.buffer index) = none := by
  have holds := holding.holds index
  rw [entry] at holds
  exact Option.map_eq_none_iff.mp holds

theorem settled_holding (settled : Settled host) (ctx : Nat) :
    Holding ctx (fun _ => none) host where
  grounded := settled.grounded
  layout := settled.layout
  holds := by
    intro index
    rw [settled.empty]
    rfl

theorem holding_reset (holding : Holding ctx raws host) (index : Nat) :
    Holding ctx (Function.update raws index none) (host.reset (.buffer index)) where
  grounded := grounded_reset holding.grounded
  layout := by
    refine layout_congr holding.layout rfl rfl ?_ fun _ _ _ => rfl
    intro name other
    rw [reset_host_value, if_neg (other index)]
  holds := by
    intro other
    rw [reset_host_value]
    by_cases same : other = index
    · rw [same, if_pos rfl, Function.update_self]
      rfl
    · rw [if_neg (by simp [same]), Function.update_of_ne same]
      exact holding.holds other

theorem holding_settled (holding : Holding ctx raws host) (nothing : ∀ index, raws index = none) :
    Settled host :=
  ⟨holding.grounded, holding.layout, fun index => holding_empty holding (nothing index)⟩

theorem settled_reset {held : Option Nat}
    (holding : Holding ctx (Function.update (fun _ => none) 0 held) host) :
    Settled (host.reset (.buffer 0)) := by
  refine holding_settled (holding_reset holding 0) fun index => ?_
  rw [Function.update_idem]
  exact congrFun (Function.update_eq_self 0 fun _ => none) index

theorem holding_use (holding : Holding ctx raws host) (entry : raws index = some raw) :
    Holding ctx raws (host.tell (.use ctx raw)) := by
  obtain ⟨block, held, owns⟩ := holding_entry holding entry
  refine ⟨grounded_use holding.grounded held owns, ?_, holding.holds⟩
  exact layout_congr holding.layout rfl rfl (fun _ _ => rfl) fun _ _ _ => rfl

theorem holding_make (holding : Holding backend.fhnCtx raws host) (entry : raws index = none)
    (found : host.backends this = some backend) {holder : Pointer}
    (core : holder = .core this ∨ holder = .keepalive this) (unused : Unused raw host) :
    Holding backend.fhnCtx (Function.update raws index (some raw))
      ((host.tell (.bufferAlloc backend.fhnCtx raw)).make (.buffer index) (host.value holder)
        (.buffer backend.fhnCtx raw)) := by
  obtain ⟨core', first, second, owns⟩ := holding.layout.cores this backend found
  have held : host.value holder = some core' := by
    rcases core with rfl | rfl
    · exact first
    · exact second
  have resources (name : Pointer) (block : Nat) (held : host.value name = some block) :
      Function.update host.resource host.heap.blocks.next (.buffer backend.fhnCtx raw) block =
        host.resource block :=
    Function.update_of_ne (value_older holding.grounded.1 held).ne _ _
  refine ⟨grounded_buffer holding.grounded (holding_empty holding entry) held owns unused, ?_, ?_⟩
  · refine layout_congr holding.layout rfl rfl ?_ resources
    intro name other
    exact (make_value _ name).trans (if_neg (other index))
  · intro other
    by_cases same : other = index
    · have made : ((host.tell (.bufferAlloc backend.fhnCtx raw)).make (.buffer index)
          (host.value holder) (.buffer backend.fhnCtx raw)).value (.buffer other) =
          some host.heap.blocks.next := (make_value _ _).trans (if_pos (by rw [same]))
      rw [made, same, Function.update_self]
      exact congrArg some (Function.update_self ..)
    · have kept : ((host.tell (.bufferAlloc backend.fhnCtx raw)).make (.buffer index)
          (host.value holder) (.buffer backend.fhnCtx raw)).value (.buffer other) =
          host.value (.buffer other) := (make_value _ _).trans (if_neg (by simp [same]))
      rw [kept, Function.update_of_ne same, ← holding.holds other]
      cases value : host.value (.buffer other) with
      | none => rfl
      | some block => exact congrArg some (resources _ block value)

theorem assign_value (replaced : host.value .replaced = none) (name : Pointer) :
    (host.assignCiphertext entity this index).value name =
      if name = .ciphertext entity then host.value (.buffer index) else host.value name := by
  have free : (host.move .replaced (.ciphertext entity)).value (.ciphertext entity) = none := by
    rw [move_host_value, if_neg (by simp), if_pos rfl]
  have cleared : (host.assignCiphertext entity this index).value name =
      if name = .replaced then none
      else ((host.move .replaced (.ciphertext entity)).copy (.ciphertext entity)
        (.buffer index)).value name := reset_host_value _ _
  rw [cleared, copy_host_value free, move_host_value, move_host_value]
  by_cases gone : name = .replaced
  · subst gone
    simp [replaced]
  · simp only [if_neg gone]
    split_ifs <;> simp_all

theorem assign_grounded (grounded : Grounded host) (replaced : host.value .replaced = none) :
    Grounded (host.assignCiphertext entity this index) := by
  have free : (host.move .replaced (.ciphertext entity)).value (.ciphertext entity) = none := by
    rw [move_host_value, if_neg (by simp), if_pos rfl]
  have moved : Grounded (host.move .replaced (.ciphertext entity)) :=
    grounded_move grounded replaced (by simp)
  have swapped : Grounded { (host.move .replaced (.ciphertext entity)).copy (.ciphertext entity)
      (.buffer index) with
      entities := Function.update host.entities entity
        { owner := some this, isEncrypted := true } } :=
    grounded_copy moved free
  exact grounded_reset swapped

/-- An entity takes a buffer, tagged with its backend. What it held before is let go. -/
theorem holding_assign (holding : Holding backend.fhnCtx raws host)
    (entry : raws index = some raw) (found : host.backends this = some backend) (entity : Nat) :
    Holding backend.fhnCtx raws (host.assignCiphertext entity this index) := by
  obtain ⟨block, held, owns⟩ := holding_entry holding entry
  have layout := holding.layout
  have values := @assign_value Symbol host this entity index layout.replaced
  have entities : (host.assignCiphertext entity this index).entities =
      Function.update host.entities entity { owner := some this, isEncrypted := true } := rfl
  refine ⟨assign_grounded holding.grounded layout.replaced, ?_, ?_⟩
  · refine layout_entity layout rfl rfl entities values ?_ ?_
    · simp [held]
    · intro address made stored tag known same
      obtain rfl := Option.some.inj tag
      obtain rfl := Option.some.inj (held.symm.trans same)
      obtain rfl := Option.some.inj (found.symm.trans known)
      exact ⟨raw, owns⟩
  · intro other
    rw [values, if_neg (by simp)]
    exact holding.holds other

theorem copy_entity_value (settled : Settled host) (source : Nat) (name : Pointer) :
    (host.copyEntity entity source).value name =
      if name = .ciphertext entity then host.value (.ciphertext source) else host.value name := by
  have cleared : (host.copyEntity entity source).value name =
      if name = .replaced then none
      else (((host.copy (.buffer 0) (.ciphertext source)).move .replaced (.ciphertext entity)).move
        (.ciphertext entity) (.buffer 0)).value name := reset_host_value _ _
  have empty := settled.empty 0
  have replaced := settled.layout.replaced
  rw [cleared, move_host_value, move_host_value, move_host_value, copy_host_value empty,
    copy_host_value empty, copy_host_value empty]
  by_cases gone : name = .replaced
  · subst gone
    simp [replaced]
  · simp only [if_neg gone]
    split_ifs <;> simp_all

theorem settled_copy (settled : Settled host) (source : Nat) :
    Settled (host.copyEntity entity source) := by
  have values := @copy_entity_value Symbol host entity settled source
  have entities : (host.copyEntity entity source).entities =
      Function.update host.entities entity (host.entities source) := rfl
  have layout := settled.layout
  refine ⟨?_, ?_, ?_⟩
  · have held : Grounded (host.copy (.buffer 0) (.ciphertext source)) :=
      grounded_copy settled.grounded (settled.empty 0)
    have moved : Grounded ((host.copy (.buffer 0) (.ciphertext source)).move .replaced
        (.ciphertext entity)) := by
      apply grounded_move held _ (by simp)
      rw [copy_host_value (settled.empty 0), if_neg (by simp)]
      exact layout.replaced
    have swapped : Grounded {
        (((host.copy (.buffer 0) (.ciphertext source)).move .replaced (.ciphertext entity)).move
          (.ciphertext entity) (.buffer 0)) with
        entities := Function.update host.entities entity (host.entities source) } := by
      apply grounded_move moved _ (by simp)
      rw [move_host_value, if_neg (by simp), if_pos rfl]
    exact grounded_reset swapped
  · exact layout_entity layout rfl rfl entities values (layout.owned source)
      (layout.tags source)
  · intro index
    rw [values, if_neg (by simp)]
    exact settled.empty index

theorem settled_drop (settled : Settled host) (entity : Nat) :
    Settled (host.dropEntity entity) := by
  have values (name : Pointer) : (host.dropEntity entity).value name =
      if name = .ciphertext entity then none else host.value name := reset_host_value _ name
  have entities : (host.dropEntity entity).entities =
      Function.update host.entities entity {} := rfl
  have layout := settled.layout
  refine ⟨?_, ?_, ?_⟩
  · have changed : Grounded { host with entities := Function.update host.entities entity {} } :=
      settled.grounded
    exact grounded_reset changed
  · exact layout_entity layout rfl rfl entities values ⟨fun _ => rfl, fun _ => rfl⟩
      fun _ _ _ impossible => absurd impossible.symm (Option.some_ne_none _)
  · intro index
    rw [values, if_neg (by simp)]
    exact settled.empty index

/-- The ciphertexts stay, and with them the core. -/
theorem settled_destroy (settled : Settled host) (this : Nat) :
    Settled (host.destroyBackend this) := by
  have values (name : Pointer) : (host.destroyBackend this).value name =
      if name = .keepalive this then none
      else if name = .core this then none else host.value name :=
    (reset_host_value _ name).trans (by rw [reset_host_value])
  have backends : (host.destroyBackend this).backends =
      Function.update host.backends this none := rfl
  have layout := settled.layout
  refine ⟨?_, ?_, ?_⟩
  · have first : Grounded (host.reset (.core this)) := grounded_reset settled.grounded
    have second : Grounded ((host.reset (.core this)).reset (.keepalive this)) :=
      grounded_reset first
    exact second
  · constructor
    · intro other none
      rw [values, values]
      by_cases same : other = this
      · subst same
        simp
      · rw [backends, Function.update_of_ne same] at none
        simpa [same] using layout.idle other none
    · intro other made known
      have apart : other ≠ this := by
        rintro rfl
        rw [backends, Function.update_self] at known
        cases known
      rw [backends, Function.update_of_ne apart] at known
      obtain ⟨core, first, second, owns⟩ := layout.cores other made known
      refine ⟨core, ?_, ?_, owns⟩
      · simpa [values, apart] using first
      · simpa [values, apart] using second
    · intro target
      rw [values, if_neg (by simp), if_neg (by simp)]
      exact layout.owned target
    · intro target address made block tag known stored
      have apart : address ≠ this := by
        rintro rfl
        rw [backends, Function.update_self] at known
        cases known
      rw [backends, Function.update_of_ne apart] at known
      rw [values, if_neg (by simp), if_neg (by simp)] at stored
      exact layout.tags target address made block tag known stored
    · rw [values, if_neg (by simp), if_neg (by simp)]
      exact layout.replaced
  · intro index
    rw [values, if_neg (by simp), if_neg (by simp)]
    exact settled.empty index

/-- The two variables of a new backend hold one core, and the others what they held. -/
theorem layout_adopt (layout : Layout host) {adopted : Host Symbol} {fresh : Nat}
    (untagged : ∀ entity, (host.entities entity).owner ≠ some this)
    (backends : adopted.backends = Function.update host.backends this (some backend))
    (entities : adopted.entities = host.entities)
    (values : ∀ name, adopted.value name = if name = .keepalive this then some fresh
      else if name = .core this then some fresh else host.value name)
    (core : adopted.resource fresh = .libCore backend.dlHandle backend.fhnCtx)
    (resources : ∀ name block, host.value name = some block →
      adopted.resource block = host.resource block) : Layout adopted where
  idle := by
    intro other none
    have apart : other ≠ this := by
      rintro rfl
      rw [backends, Function.update_self] at none
      cases none
    rw [backends, Function.update_of_ne apart] at none
    simpa [values, apart] using layout.idle other none
  cores := by
    intro other found known
    rw [backends] at known
    by_cases same : other = this
    · rw [same, Function.update_self] at known
      obtain rfl := Option.some.inj known
      exact ⟨fresh, by simp [values, same], by simp [values, same], core⟩
    · rw [Function.update_of_ne same] at known
      obtain ⟨block, first, second, owns⟩ := layout.cores other found known
      refine ⟨block, ?_, ?_, (resources _ block first).trans owns⟩
      · simpa [values, same] using first
      · simpa [values, same] using second
  owned := by
    intro target
    rw [entities, values, if_neg (by simp), if_neg (by simp)]
    exact layout.owned target
  tags := by
    intro target address found block tag known stored
    rw [entities] at tag
    have apart : address ≠ this := by
      rintro rfl
      exact untagged target tag
    rw [backends, Function.update_of_ne apart] at known
    rw [values, if_neg (by simp), if_neg (by simp)] at stored
    obtain ⟨raw, owns⟩ := layout.tags target address found block tag known stored
    exact ⟨raw, (resources _ block stored).trans owns⟩
  replaced := by
    rw [values, if_neg (by simp), if_neg (by simp)]
    exact layout.replaced

/-- A constructed backend gets its core, where no ciphertext is tagged with the address. -/
theorem settled_adopt (settled : Settled host) {process : Process}
    (running : host.process = some process) (idle : host.backends this = none)
    (untagged : ∀ entity, (host.entities entity).owner ≠ some this)
    (unused : ∀ context ∈ process.contexts, context.1 ≠ backend.fhnCtx) :
    Settled (Host.adoptCore this backend
      { host with process := some (withContext backend.dlHandle backend.fhnCtx process) }) := by
  obtain ⟨noCore, noKeepalive⟩ := settled.layout.idle this idle
  obtain ⟨counted, process', running', tracks⟩ := settled.grounded
  obtain rfl := Option.some.inj (running.symm.trans running')
  have grounded : Grounded ({ host with
      process := some (withContext backend.dlHandle backend.fhnCtx process) }.make
        (.core this) none (.libCore backend.dlHandle backend.fhnCtx)) :=
    grounded_core counted tracks noCore unused
  have made (name : Pointer) :
      ({ host with process := some (withContext backend.dlHandle backend.fhnCtx process) }.make
        (.core this) none (.libCore backend.dlHandle backend.fhnCtx)).value name =
        if name = .core this then some host.heap.blocks.next else host.value name :=
    make_value _ name
  have free : ({ host with
      process := some (withContext backend.dlHandle backend.fhnCtx process) }.make
        (.core this) none (.libCore backend.dlHandle backend.fhnCtx)).value (.keepalive this) =
      none := by
    rw [made, if_neg (by simp)]
    exact noKeepalive
  have values (name : Pointer) : (Host.adoptCore this backend { host with
      process := some (withContext backend.dlHandle backend.fhnCtx process) }).value name =
      if name = .keepalive this then some host.heap.blocks.next
      else if name = .core this then some host.heap.blocks.next else host.value name := by
    refine (copy_host_value free _ name).trans ?_
    rw [made, made, if_pos rfl]
  have resources (name : Pointer) (block : Nat) (held : host.value name = some block) :
      Function.update host.resource host.heap.blocks.next
        (.libCore backend.dlHandle backend.fhnCtx) block = host.resource block :=
    Function.update_of_ne (value_older counted held).ne _ _
  refine ⟨grounded_copy grounded free, ?_, ?_⟩
  · exact layout_adopt settled.layout untagged rfl rfl values (Function.update_self ..) resources
  · intro index
    rw [values, if_neg (by simp), if_neg (by simp)]
    exact settled.empty index

end Layouts

end Fhenomenon.BackendHosts
