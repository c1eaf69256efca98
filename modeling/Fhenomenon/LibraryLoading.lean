import Fhenomenon.InstructionStream
import Fhenomenon.Lib.Fallible
import Fhenomenon.LibraryContract

/-!
# Loading a backend

`ExternalBackend` and the corpus open the same libraries, each with its own checks. A
load that fails closes what it opened, whichever check fails, and what both accept they
resolve alike.
-/

namespace Fhenomenon.LibraryLoading

open Fhenomenon.Lib.Fallible
open Fhenomenon.InstructionStream Fhenomenon.LibraryContract

/-- What a path leads to. `create` and `getKernels` tell what the library's functions
return, null as `none`. -/
structure Library (Symbol : Type) where
  handle : Nat
  dlsym : String → Option Symbol
  getAbiVersion : Nat
  create : Option String → Option Nat
  getKernels : Nat → Option Nat

/-- Null functions are `none`. -/
structure FhnBackendVTable (Symbol : Type) where
  getAbiVersion : Option Symbol
  getInfo : Option Symbol
  create : Option Symbol
  destroy : Option Symbol
  getKernels : Option Symbol
  bufferAlloc : Option Symbol
  bufferFree : Option Symbol
  prefetch : Option Symbol
  evict : Option Symbol
  encryptI64 : Option Symbol
  encryptF64 : Option Symbol
  decryptI64 : Option Symbol
  decryptF64 : Option Symbol
  submit : Option Symbol
  poll : Option Symbol
  wait : Option Symbol
  getOutputs : Option Symbol
  execFree : Option Symbol
  freshLevel : Option Symbol
  levelBytes : Option Symbol
  opcodeLevelEffect : Option Symbol
deriving DecidableEq

abbrev Loader := Computation (Option Process) String

def emit (event : Event) : Loader Unit := change fun process => process.bind (step event)

variable {Symbol Value : Type}

/-- Every check that fails closes the library before it reports. -/
def refuse (handle : Nat) (text : String) : Loader Value := do
  emit (.dlclose handle)
  fail text

def handshake (loader : String) (library : Library Symbol) (symbolPrefix : String) :
    Loader Unit :=
  match library.dlsym (symbolPrefix ++ "fhn_get_abi_version") with
  | none =>
      refuse library.handle
        (loader ++ ": library missing fhn_get_abi_version (pre-versioning binary?)")
  | some _ => do
      emit (.leaf library.handle)
      if library.getAbiVersion ≠ fhnAbiVersion then
        refuse library.handle
          (loader ++ ": ABI version mismatch (library " ++ toString library.getAbiVersion ++
            ", host " ++ toString fhnAbiVersion ++ ")")
      else pure ()

/-- A half-pair is worse than neither. -/
def movementHooks (prefetch evict : Option Symbol) : Option Symbol × Option Symbol :=
  if prefetch.isSome ≠ evict.isSome then (none, none) else (prefetch, evict)

def levelModelCount (freshLevel levelBytes opcodeLevelEffect : Option Symbol) : Nat :=
  freshLevel.isSome.toNat + levelBytes.isSome.toNat + opcodeLevelEffect.isSome.toNat

/-- All three or none. -/
def levelModel (freshLevel levelBytes opcodeLevelEffect : Option Symbol) :
    Option Symbol × Option Symbol × Option Symbol :=
  let count := levelModelCount freshLevel levelBytes opcodeLevelEffect
  if count ≠ 0 ∧ count ≠ 3 then (none, none, none)
  else (freshLevel, levelBytes, opcodeLevelEffect)

def createContext (loader : String) (library : Library Symbol) (configJson : Option String) :
    Loader (Nat × Nat) :=
  match library.create configJson with
  | none => do
      emit (.leaf library.handle)
      refuse library.handle (loader ++ ": fhn_create returned null")
  | some ctx => do
      emit (.create library.handle ctx)
      emit (.call ctx)
      match library.getKernels ctx with
      | none => do
          emit (.destroy library.handle ctx)
          refuse library.handle (loader ++ ": fhn_get_kernels returned null")
      | some table => pure (ctx, table)

structure ExternalBackend (Symbol : Type) where
  dlHandle : Nat
  fhnCtx : Nat
  fhnTable : Nat
  vtable : FhnBackendVTable Symbol
deriving DecidableEq

/-- What the constructor leaves in `vtable_`. -/
def resolveVTable (library : Library Symbol) (symbolPrefix : String) :
    FhnBackendVTable Symbol :=
  let sym := fun base => library.dlsym (symbolPrefix ++ base)
  let hooks := movementHooks (sym "fhn_buffer_prefetch") (sym "fhn_buffer_evict")
  let levels := levelModel (sym "fhn_fresh_level") (sym "fhn_level_bytes")
    (sym "fhn_opcode_level_effect")
  { getAbiVersion := sym "fhn_get_abi_version"
    getInfo := sym "fhn_get_info"
    create := sym "fhn_create"
    destroy := sym "fhn_destroy"
    getKernels := sym "fhn_get_kernels"
    bufferAlloc := sym "fhn_buffer_alloc"
    bufferFree := sym "fhn_buffer_free"
    prefetch := hooks.1
    evict := hooks.2
    encryptI64 := sym "fhn_encrypt_i64"
    encryptF64 := sym "fhn_encrypt_f64"
    decryptI64 := sym "fhn_decrypt_i64"
    decryptF64 := sym "fhn_decrypt_f64"
    submit := sym "fhn_submit"
    poll := sym "fhn_poll"
    wait := sym "fhn_wait"
    getOutputs := sym "fhn_get_outputs"
    execFree := sym "fhn_exec_free"
    freshLevel := levels.1
    levelBytes := levels.2.1
    opcodeLevelEffect := levels.2.2 }

/-- The constructor. `dlopen` is what opening the path gives, or the text of `dlerror`. -/
def construct (dlopen : Except String (Library Symbol)) (configJson : Option String)
    (symbolPrefix : String) : Loader (ExternalBackend Symbol) :=
  match dlopen with
  | .error dlerror => fail ("ExternalBackend: dlopen failed: " ++ dlerror)
  | .ok library => do
      emit (.dlopen library.handle)
      handshake "ExternalBackend" library symbolPrefix
      let vtable := resolveVTable library symbolPrefix
      if vtable.getInfo = none ∨ vtable.create = none ∨ vtable.destroy = none ∨
          vtable.getKernels = none then
        refuse library.handle "ExternalBackend: library missing required fhn_* symbols"
      else if vtable.bufferAlloc = none ∨ vtable.bufferFree = none then
        refuse library.handle
          "ExternalBackend: library missing required fhn_buffer_alloc/fhn_buffer_free"
      else do
        emit (.leaf library.handle)
        let made ← createContext "ExternalBackend" library configJson
        pure { dlHandle := library.handle, fhnCtx := made.1, fhnTable := made.2, vtable := vtable }

/-- Null pointers are `none`. -/
structure CorpusBackend (Symbol : Type) where
  dl : Option Nat := none
  ctx : Option Nat := none
  kernels : Option Nat := none
  destroy : Option Symbol := none
  bufferAlloc : Option Symbol := none
  bufferFree : Option Symbol := none
  encryptI64 : Option Symbol := none
  decryptI64 : Option Symbol := none
  prefetch : Option Symbol := none
  evict : Option Symbol := none
  freshLevel : Option Symbol := none
  levelBytes : Option Symbol := none
  opcodeLevelEffect : Option Symbol := none
deriving DecidableEq

/-- `CorpusBackend::load`; the text is what it leaves in `*error`. -/
def load (dlopen : Except String (Library Symbol)) (symbolPrefix : String) :
    Loader (CorpusBackend Symbol) :=
  match dlopen with
  | .error dlerror => fail dlerror
  | .ok library => do
      emit (.dlopen library.handle)
      handshake "CorpusBackend" library symbolPrefix
      let sym := fun base => library.dlsym (symbolPrefix ++ base)
      let create := sym "fhn_create"
      let destroy := sym "fhn_destroy"
      let getKernels := sym "fhn_get_kernels"
      let bufferAlloc := sym "fhn_buffer_alloc"
      let bufferFree := sym "fhn_buffer_free"
      let encryptI64 := sym "fhn_encrypt_i64"
      let decryptI64 := sym "fhn_decrypt_i64"
      if create = none ∨ destroy = none ∨ getKernels = none ∨ bufferAlloc = none ∨
          bufferFree = none ∨ encryptI64 = none ∨ decryptI64 = none then
        refuse library.handle "CorpusBackend: library missing required fhn_* symbols"
      else do
        let hooks := movementHooks (sym "fhn_buffer_prefetch") (sym "fhn_buffer_evict")
        let levels := levelModel (sym "fhn_fresh_level") (sym "fhn_level_bytes")
          (sym "fhn_opcode_level_effect")
        let made ← createContext "CorpusBackend" library none
        pure {
          dl := some library.handle
          ctx := some made.1
          kernels := some made.2
          destroy := destroy
          bufferAlloc := bufferAlloc
          bufferFree := bufferFree
          encryptI64 := encryptI64
          decryptI64 := decryptI64
          prefetch := hooks.1
          evict := hooks.2
          freshLevel := levels.1
          levelBytes := levels.2.1
          opcodeLevelEffect := levels.2.2 }

/-- The process with the library open once more, and a context in it. -/
def withContext (handle ctx : Nat) (process : Process) : Process :=
  { process with
    opened := handle ::ₘ process.opened
    contexts := insert (ctx, handle) process.contexts }

/-- What a load from `library` needs, when it requires the names. -/
structure Loadable (library : Library Symbol) (symbolPrefix : String)
    (configJson : Option String) (required : List String) : Prop where
  exported : ∀ name ∈ "fhn_get_abi_version" :: required,
    library.dlsym (symbolPrefix ++ name) ≠ none
  current : library.getAbiVersion = fhnAbiVersion
  created : ∃ ctx table, library.create configJson = some ctx ∧
    library.getKernels ctx = some table

def externalRequired : List String :=
  ["fhn_get_info", "fhn_create", "fhn_destroy", "fhn_get_kernels", "fhn_buffer_alloc",
    "fhn_buffer_free"]

def corpusRequired : List String :=
  ["fhn_create", "fhn_destroy", "fhn_get_kernels", "fhn_buffer_alloc", "fhn_buffer_free",
    "fhn_encrypt_i64", "fhn_decrypt_i64"]

section Stages

variable {process : Process} {library : Library Symbol} {symbolPrefix : String}
  {loader : String} {configJson : Option String}

/-- The process while a load runs. -/
def opening (library : Library Symbol) (process : Process) : Process :=
  { process with opened := library.handle ::ₘ process.opened }

theorem opening_sound (sound : Sound process) : Sound (opening library process) :=
  ⟨fun context live => Multiset.mem_cons_of_mem (sound.contexts context live), sound.buffers⟩

theorem opening_mem : library.handle ∈ (opening library process).opened :=
  Multiset.mem_cons_self _ _

theorem emit_allowed {event : Event} (allowed : Allowed process event) :
    emit event (some process) = (.ok (), some (after process event)) := by
  rw [emit, change_apply, Option.bind_some, step_allowed allowed]

theorem leaf_opening : emit (.leaf library.handle) (some (opening library process)) =
    (.ok (), some (opening library process)) :=
  emit_allowed opening_mem

theorem refuse_opening (sound : Sound process) (text : String) :
    (refuse library.handle text : Loader Value) (some (opening library process)) =
      (.error text, some process) := by
  have closed : emit (.dlclose library.handle) (some (opening library process)) =
      (.ok (), some process) := by
    rw [emit, change_apply, Option.bind_some, opening, open_close sound]
  rw [refuse, bind_returned closed, fail_apply]

theorem handshake_ends (sound : Sound process) :
    Ends (handshake loader library symbolPrefix)
      (fun _ reached => library.dlsym (symbolPrefix ++ "fhn_get_abi_version") ≠ none ∧
        library.getAbiVersion = fhnAbiVersion ∧ reached = some (opening library process))
      (fun _ reached => (library.dlsym (symbolPrefix ++ "fhn_get_abi_version") = none ∨
        library.getAbiVersion ≠ fhnAbiVersion) ∧ reached = some process)
      (some (opening library process)) := by
  unfold handshake
  split
  · rename_i missing
    exact ends_of_failed (refuse_opening sound _) ⟨Or.inl missing, rfl⟩
  · rename_i function found
    rw [ends_bind]
    apply ends_of_eq leaf_opening
    split_ifs with same
    · exact ends_of_failed (refuse_opening sound _) ⟨Or.inr same, rfl⟩
    · refine ends_of_eq (pure_apply () _) ⟨?_, not_not.mp same, rfl⟩
      rw [found]
      exact Option.some_ne_none function

theorem unloadable_of_missing {required : List String} {name : String} (needed : name ∈ required)
    (missing : library.dlsym (symbolPrefix ++ name) = none) :
    ¬Loadable library symbolPrefix configJson required := by
  intro loadable
  exact loadable.exported name (List.mem_cons_of_mem _ needed) missing

theorem unloadable_of_version {required : List String}
    (refused : library.dlsym (symbolPrefix ++ "fhn_get_abi_version") = none ∨
      library.getAbiVersion ≠ fhnAbiVersion) :
    ¬Loadable library symbolPrefix configJson required := by
  intro loadable
  rcases refused with missing | other
  · exact loadable.exported _ List.mem_cons_self missing
  · exact other loadable.current

theorem create_context_ends (sound : Sound process)
    (fresh : ∀ ctx, library.create configJson = some ctx →
      ∀ context ∈ process.contexts, context.1 ≠ ctx) :
    Ends (createContext loader library configJson)
      (fun made reached => library.create configJson = some made.1 ∧
        library.getKernels made.1 = some made.2 ∧
          reached = some (withContext library.handle made.1 process))
      (fun _ reached => (¬∃ ctx table, library.create configJson = some ctx ∧
        library.getKernels ctx = some table) ∧ reached = some process)
      (some (opening library process)) := by
  unfold createContext
  cases created : library.create configJson with
  | none =>
      rw [ends_bind]
      apply ends_of_eq leaf_opening
      apply ends_of_failed (refuse_opening sound _)
      exact ⟨fun ⟨_, _, impossible, _⟩ => Option.some_ne_none _ impossible.symm, rfl⟩
  | some ctx =>
      have unused := fresh ctx created
      have creates : Allowed (opening library process) (.create library.handle ctx) :=
        ⟨opening_mem, unused⟩
      have usable : Usable ctx (withContext library.handle ctx process) :=
        ⟨(ctx, library.handle), Finset.mem_insert_self _ _, rfl, Multiset.mem_cons_self _ _⟩
      have asks : emit (.call ctx) (some (withContext library.handle ctx process)) =
          (.ok (), some (withContext library.handle ctx process)) := emit_allowed usable
      rw [ends_bind]
      apply ends_of_eq (emit_allowed creates)
      rw [ends_bind]
      apply ends_of_eq asks
      cases kernels : library.getKernels ctx with
      | none =>
          have destroyed : emit (.destroy library.handle ctx)
              (some (withContext library.handle ctx process)) =
                (.ok (), some (opening library process)) := by
            rw [emit, change_apply, Option.bind_some]
            exact congrArg (Prod.mk _)
              (create_destroy (opening_sound sound) opening_mem unused)
          rw [ends_bind]
          apply ends_of_eq destroyed
          apply ends_of_failed (refuse_opening sound _)
          refine ⟨?_, rfl⟩
          rintro ⟨other, table, same, found⟩
          rw [← Option.some.inj same, kernels] at found
          exact Option.some_ne_none table found.symm
      | some table => exact ends_of_eq (pure_apply (ctx, table) _) ⟨rfl, kernels, rfl⟩

theorem emit_dlopen : emit (.dlopen library.handle) (some process) =
    (.ok (), some (opening library process)) :=
  emit_allowed trivial

/-- A constructor returns exactly where the library has what it needs, and otherwise leaves
the process as it was. -/
theorem construct_ends (sound : Sound process)
    (fresh : ∀ ctx, library.create configJson = some ctx →
      ∀ context ∈ process.contexts, context.1 ≠ ctx) :
    Ends (construct (.ok library) configJson symbolPrefix)
      (fun backend reached => Loadable library symbolPrefix configJson externalRequired ∧
        library.create configJson = some backend.fhnCtx ∧
        library.getKernels backend.fhnCtx = some backend.fhnTable ∧
        backend.dlHandle = library.handle ∧
        backend.vtable = resolveVTable library symbolPrefix ∧
        reached = some (withContext library.handle backend.fhnCtx process))
      (fun _ reached => ¬Loadable library symbolPrefix configJson externalRequired ∧
        reached = some process)
      (some process) := by
  unfold construct
  rw [ends_bind]
  apply ends_of_eq emit_dlopen
  rw [ends_bind]
  refine ends_mono (handshake_ends sound) ?_ ?_
  · rintro _ _ ⟨version, current, rfl⟩
    dsimp only
    split_ifs with missing absent
    · apply ends_of_failed (refuse_opening sound _)
      refine ⟨?_, rfl⟩
      rcases missing with none | none | none | none <;>
        exact unloadable_of_missing (by decide) none
    · apply ends_of_failed (refuse_opening sound _)
      refine ⟨?_, rfl⟩
      rcases absent with none | none <;>
        exact unloadable_of_missing (by decide) none
    · rw [ends_bind]
      apply ends_of_eq leaf_opening
      rw [ends_bind]
      refine ends_mono (create_context_ends sound fresh) ?_ ?_
      · rintro made _ ⟨created, kernels, rfl⟩
        refine ends_of_eq (pure_apply _ _) ⟨⟨?_, current, ?_⟩, created, kernels, rfl, rfl, rfl⟩
        · simp only [not_or] at missing absent
          simpa [externalRequired] using ⟨version, missing.1, missing.2.1, missing.2.2.1,
            missing.2.2.2, absent⟩
        · exact ⟨made.1, made.2, created, kernels⟩
      · rintro _ _ ⟨unmade, rfl⟩
        exact ⟨fun loadable => unmade loadable.created, rfl⟩
  · rintro _ _ ⟨refused, rfl⟩
    exact ⟨unloadable_of_version refused, rfl⟩

theorem load_ends (sound : Sound process)
    (fresh : ∀ ctx, library.create none = some ctx →
      ∀ context ∈ process.contexts, context.1 ≠ ctx) :
    Ends (load (.ok library) symbolPrefix)
      (fun backend reached => Loadable library symbolPrefix none corpusRequired ∧
        ∃ ctx table, library.create none = some ctx ∧ library.getKernels ctx = some table ∧
          let vtable := resolveVTable library symbolPrefix
          backend = {
            dl := some library.handle
            ctx := some ctx
            kernels := some table
            destroy := vtable.destroy
            bufferAlloc := vtable.bufferAlloc
            bufferFree := vtable.bufferFree
            encryptI64 := vtable.encryptI64
            decryptI64 := vtable.decryptI64
            prefetch := vtable.prefetch
            evict := vtable.evict
            freshLevel := vtable.freshLevel
            levelBytes := vtable.levelBytes
            opcodeLevelEffect := vtable.opcodeLevelEffect } ∧
          reached = some (withContext library.handle ctx process))
      (fun _ reached => ¬Loadable library symbolPrefix none corpusRequired ∧
        reached = some process)
      (some process) := by
  unfold load
  rw [ends_bind]
  apply ends_of_eq emit_dlopen
  rw [ends_bind]
  refine ends_mono (handshake_ends sound) ?_ ?_
  · rintro _ _ ⟨version, current, rfl⟩
    dsimp only
    split_ifs with missing
    · apply ends_of_failed (refuse_opening sound _)
      refine ⟨?_, rfl⟩
      rcases missing with none | none | none | none | none | none | none <;>
        exact unloadable_of_missing (by decide) none
    · rw [ends_bind]
      refine ends_mono (create_context_ends sound fresh) ?_ ?_
      · rintro made _ ⟨created, kernels, rfl⟩
        refine ends_of_eq (pure_apply _ _) ⟨⟨?_, current, ?_⟩, made.1, made.2, created, kernels,
          rfl, rfl⟩
        · simp only [not_or] at missing
          simpa [corpusRequired] using And.intro version missing
        · exact ⟨made.1, made.2, created, kernels⟩
      · rintro _ _ ⟨unmade, rfl⟩
        exact ⟨fun loadable => unmade loadable.created, rfl⟩
  · rintro _ _ ⟨refused, rfl⟩
    exact ⟨unloadable_of_version refused, rfl⟩

end Stages

structure SameRuntime (backend : ExternalBackend Symbol) (other : CorpusBackend Symbol) :
    Prop where
  library : other.dl = some backend.dlHandle ∧ other.ctx = some backend.fhnCtx ∧
    other.kernels = some backend.fhnTable ∧ other.destroy = backend.vtable.destroy
  buffers : other.bufferAlloc = backend.vtable.bufferAlloc ∧
    other.bufferFree = backend.vtable.bufferFree
  keys : other.encryptI64 = backend.vtable.encryptI64 ∧
    other.decryptI64 = backend.vtable.decryptI64
  movement : other.prefetch = backend.vtable.prefetch ∧ other.evict = backend.vtable.evict
  levels : other.freshLevel = backend.vtable.freshLevel ∧
    other.levelBytes = backend.vtable.levelBytes ∧
    other.opcodeLevelEffect = backend.vtable.opcodeLevelEffect

/-- An optional group is resolved when the library exports all of it. -/
structure WholeGroups (library : Library Symbol) (symbolPrefix : String)
    (vtable : FhnBackendVTable Symbol) : Prop where
  movement :
    let exported := library.dlsym (symbolPrefix ++ "fhn_buffer_prefetch") ≠ none ∧
      library.dlsym (symbolPrefix ++ "fhn_buffer_evict") ≠ none
    (vtable.prefetch ≠ none ↔ exported) ∧ (vtable.evict ≠ none ↔ exported)
  levels :
    let exported := library.dlsym (symbolPrefix ++ "fhn_fresh_level") ≠ none ∧
      library.dlsym (symbolPrefix ++ "fhn_level_bytes") ≠ none ∧
      library.dlsym (symbolPrefix ++ "fhn_opcode_level_effect") ≠ none
    (vtable.freshLevel ≠ none ↔ exported) ∧ (vtable.levelBytes ≠ none ↔ exported) ∧
      (vtable.opcodeLevelEffect ≠ none ↔ exported)

theorem movement_hooks_whole (prefetch evict : Option Symbol) :
    ((movementHooks prefetch evict).1 ≠ none ↔ prefetch ≠ none ∧ evict ≠ none) ∧
      ((movementHooks prefetch evict).2 ≠ none ↔ prefetch ≠ none ∧ evict ≠ none) := by
  cases prefetch <;> cases evict <;> simp [movementHooks]

theorem level_model_whole (freshLevel levelBytes opcodeLevelEffect : Option Symbol) :
    let exported := freshLevel ≠ none ∧ levelBytes ≠ none ∧ opcodeLevelEffect ≠ none
    let levels := levelModel freshLevel levelBytes opcodeLevelEffect
    (levels.1 ≠ none ↔ exported) ∧ (levels.2.1 ≠ none ↔ exported) ∧
      (levels.2.2 ≠ none ↔ exported) := by
  cases freshLevel <;> cases levelBytes <;> cases opcodeLevelEffect <;>
    simp [levelModel, levelModelCount]

theorem resolved_whole (library : Library Symbol) (symbolPrefix : String) :
    WholeGroups library symbolPrefix (resolveVTable library symbolPrefix) where
  movement := movement_hooks_whole _ _
  levels := level_model_whole _ _ _

section Loaders

variable {process : Process} {library : Library Symbol} {symbolPrefix : String}

theorem settled_outcome {run : Loader Value} {loadable : Prop}
    {returns : Value → Option Process → Prop}
    (ends : Ends run (fun value reached => loadable ∧ returns value reached)
      (fun _ reached => ¬loadable ∧ reached = some process) (some process)) :
    ((run (some process)).1.isOk = true ↔ loadable) ∧
      ((run (some process)).1.isOk = false → (run (some process)).2 = some process) ∧
      ∀ value, (run (some process)).1 = .ok value → returns value (run (some process)).2 := by
  revert ends
  unfold Ends
  rcases run (some process) with ⟨text | value, reached⟩
  · rintro ⟨refused, rfl⟩
    refine ⟨⟨fun ok => absurd ok Bool.false_ne_true, fun able => absurd able refused⟩,
      fun _ => rfl, ?_⟩
    intro value impossible
    cases impossible
  · rintro ⟨able, holds⟩
    refine ⟨⟨fun _ => able, fun _ => rfl⟩,
      fun failed => absurd failed (Bool.false_ne_true ∘ Eq.symm), ?_⟩
    intro other same
    cases same
    exact holds

/-- Each loader accepts exactly the libraries that have what it needs. A refused library is
closed and the process as it was, and from a library that both accept they get the same
functions, in the same state of the process. -/
theorem loaders_settle_alike (sound : Sound process)
    (fresh : ∀ ctx, library.create none = some ctx →
      ∀ context ∈ process.contexts, context.1 ≠ ctx) :
    let external := construct (.ok library) none symbolPrefix (some process)
    let corpus := load (.ok library) symbolPrefix (some process)
    (external.1.isOk = true ↔ Loadable library symbolPrefix none externalRequired) ∧
      (corpus.1.isOk = true ↔ Loadable library symbolPrefix none corpusRequired) ∧
      (external.1.isOk = false → external.2 = some process) ∧
      (corpus.1.isOk = false → corpus.2 = some process) ∧
      ∀ backend other, external.1 = .ok backend → corpus.1 = .ok other →
        external.2 = some (withContext library.handle backend.fhnCtx process) ∧
          corpus.2 = external.2 ∧ SameRuntime backend other ∧
            WholeGroups library symbolPrefix backend.vtable := by
  obtain ⟨externalIff, externalKept, externalReturns⟩ :=
    settled_outcome (@construct_ends Symbol process library symbolPrefix none sound fresh)
  obtain ⟨corpusIff, corpusKept, corpusReturns⟩ :=
    settled_outcome (@load_ends Symbol process library symbolPrefix sound fresh)
  refine ⟨externalIff, corpusIff, externalKept, corpusKept, ?_⟩
  intro backend other first second
  obtain ⟨created, kernels, handle, vtable, reached⟩ := externalReturns backend first
  obtain ⟨ctx, table, sameCtx, sameTable, fields, after⟩ := corpusReturns other second
  have ctxs : ctx = backend.fhnCtx := Option.some.inj (sameCtx.symm.trans created)
  subst ctxs
  have tables : table = backend.fhnTable := Option.some.inj (sameTable.symm.trans kernels)
  subst tables
  refine ⟨reached, after.trans reached.symm, ?_, vtable ▸ resolved_whole library symbolPrefix⟩
  constructor <;> simp [fields, handle, vtable]

end Loaders

/-- A library with one hook of the pair and all else that the corpus needs. -/
def halfPaired : Library String where
  handle := 7
  dlsym := fun name => if name = "toyfhe_fhn_buffer_prefetch" then none else some name
  getAbiVersion := 1
  create := fun _ => some 3
  getKernels := fun _ => some 5

theorem half_pair_loads :
    let external := construct (.ok halfPaired) none "toyfhe_" (some {})
    let corpus := load (.ok halfPaired) "toyfhe_" (some {})
    external.1.isOk = true ∧ corpus.1.isOk = true ∧ corpus.2 = external.2 := by
  have sound : Sound {} := ⟨by simp, by simp⟩
  obtain ⟨externalIff, corpusIff, _, _, alike⟩ :=
    @loaders_settle_alike String {} halfPaired "toyfhe_" sound (by simp)
  have one : Loadable halfPaired "toyfhe_" none externalRequired :=
    ⟨by simp [externalRequired, halfPaired], rfl, 3, 5, rfl, rfl⟩
  have two : Loadable halfPaired "toyfhe_" none corpusRequired :=
    ⟨by simp [corpusRequired, halfPaired], rfl, 3, 5, rfl, rfl⟩
  refine ⟨externalIff.mpr one, corpusIff.mpr two, ?_⟩
  have first := externalIff.mpr one
  have second := corpusIff.mpr two
  cases external : (construct (.ok halfPaired) none "toyfhe_" (some {})).1 with
  | error text => rw [external] at first; cases first
  | ok backend =>
      cases corpus : (load (.ok halfPaired) "toyfhe_" (some {})).1 with
      | error text => rw [corpus] at second; cases second
      | ok other => exact (alike backend other external corpus).2.1

end Fhenomenon.LibraryLoading
