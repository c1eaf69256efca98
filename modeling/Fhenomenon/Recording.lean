import Fhenomenon.Lib.Fallible
import Fhenomenon.RecordedGraph

/-!
# Recording

`Session` and the constructors, destructor and operators of `Fhenon` while a
session records. Objects live at addresses that are used again once an object
is gone; the entity map is keyed by address. `nullProfile` and `dangling` are
undefined behaviour, so nothing is meant by what follows them.
-/

namespace Fhenomenon.Recording

open Fhenomenon.Lib.Fallible Fhenomenon.RecordedGraph

/-- `shared` holds for an object that `make_shared` owns. The alias a session makes of
a caller's variable carries `SessionAliasDeleter` and does not count. -/
structure Object (Ptr Profile : Type) extends Fhenon Ptr where
  profile : Option Profile := none
  shared : Bool := false

structure Session (Address : Type) where
  active : Bool := false
  operations : List (Operation Address) := []
  entityMap : Address → Option Address := fun _ => none
  poison : Option String := none

/-- `locals` are the variables of the lambda, oldest first; `temporaries` those of the
current full expression, newest first. -/
structure State (Address Ptr Profile σ : Type) where
  session : Session Address := {}
  live : Finset Address := ∅
  objects : Address → Object Ptr Profile
  locals : List Address := []
  temporaries : List Address := []
  placements : Nat := 0
  nextControl : Nat := 0
  world : σ

/-- `undeclared` is a name the compiler refuses. -/
inductive Failure
  | thrown (message : String)
  | nullProfile
  | dangling
  | undeclared
deriving DecidableEq

/-- The operators that never look at the session. -/
inductive EagerOperator
  | bitAnd | bitOr | bitXor | compareEq | compareLt | compareLe
deriving DecidableEq

/-- Where the next object is placed, and `Backend::getInstance()`: `encrypt` is what
`transform` does with a new buffer, `eager` the result object of an eager operator. -/
structure Host (Address Ptr Profile σ : Type) where
  place : Nat → Finset Address → Address
  unused : ∀ count live, place count live ∉ live
  backend : Nat
  encrypt : Profile → Int → σ → Except String Ptr × σ
  eager : EagerOperator → Object Ptr Profile → Object Ptr Profile → σ →
    Except String (Object Ptr Profile) × σ

abbrev Recorder (Address Ptr Profile σ Value : Type) :=
  Computation (State Address Ptr Profile σ) Failure Value

variable {Address Ptr Profile σ : Type} [DecidableEq Address]

namespace Session

def setEntity (session : Session Address) (key entity : Address) : Session Address :=
  { session with entityMap := Function.update session.entityMap key (some entity) }

/-- A key that has an entry keeps it. -/
def saveEntity (session : Session Address) (key entity : Address) : Session Address :=
  if (session.entityMap key).isSome then session else session.setEntity key entity

def eraseEntity (session : Session Address) (key : Address) : Session Address :=
  { session with entityMap := Function.update session.entityMap key none }

/-- The first reason stays. -/
def poisonRecording (session : Session Address) (reason : String) : Session Address :=
  if session.poison.isSome then session else { session with poison := some reason }

def saveOp (session : Session Address) (operation : Operation Address) : Session Address :=
  { session with operations := session.operations ++ [operation] }

/-- The object a key stands for; a key without an entry stands for itself. -/
def canonical (session : Session Address) (key : Address) : Address :=
  (session.entityMap key).getD key

end Session

namespace State

def onSession (update : Session Address → Session Address)
    (state : State Address Ptr Profile σ) : State Address Ptr Profile σ :=
  { state with session := update state.session }

def onObject (address : Address) (update : Object Ptr Profile → Object Ptr Profile)
    (state : State Address Ptr Profile σ) : State Address Ptr Profile σ :=
  { state with
    objects := Function.update state.objects address (update (state.objects address)) }

/-- Saves an entity under its own address. -/
def save (entity : Address) (state : State Address Ptr Profile σ) :
    State Address Ptr Profile σ :=
  state.onSession fun session => session.saveEntity entity entity

def record (operation : Operation Address) (state : State Address Ptr Profile σ) :
    State Address Ptr Profile σ :=
  state.onSession fun session => session.saveOp operation

/-- Where the next object begins its life. -/
def nextAddress (host : Host Address Ptr Profile σ) (state : State Address Ptr Profile σ) :
    Address :=
  host.place state.placements state.live

def construct (address : Address) (object : Object Ptr Profile)
    (state : State Address Ptr Profile σ) : State Address Ptr Profile σ :=
  { state with
    live := insert address state.live
    objects := Function.update state.objects address object
    placements := state.placements + 1 }

/-- `~Fhenon` -/
def destroy (address : Address) (state : State Address Ptr Profile σ) :
    State Address Ptr Profile σ :=
  { state with
    live := state.live.erase address
    session :=
      if state.session.active then
        match state.session.entityMap address with
        | none => state.session
        | some canonical =>
            (if canonical = address then
              state.session.poisonRecording
                ("Session: a session-tracked Fhenon died before run() executed — " ++
                  "declare variables in a scope enclosing run()")
            else state.session).eraseEntity address
      else state.session }

def destroyTemporaries (state : State Address Ptr Profile σ) : State Address Ptr Profile σ :=
  { state.temporaries.foldl (fun state address => state.destroy address) state with
    temporaries := [] }

def destroyLocals (state : State Address Ptr Profile σ) : State Address Ptr Profile σ :=
  { state.locals.reverse.foldl (fun state address => state.destroy address) state with
    locals := [] }

end State

/-- A new object, at the address the host chooses. -/
def construct (host : Host Address Ptr Profile σ) (object : Object Ptr Profile) :
    Recorder Address Ptr Profile σ Address := do
  let state ← look
  change (State.construct (state.nextAddress host) object)
  return state.nextAddress host

def makeShared (host : Host Address Ptr Profile σ) (object : Object Ptr Profile) :
    Recorder Address Ptr Profile σ Address :=
  construct host { object with shared := true }

/-- A key is saved before it is resolved; reading the canonical object needs it alive. -/
def trackEntity (entity : Address) : Recorder Address Ptr Profile σ Address := do
  let state ← look
  let canonical := state.session.canonical entity
  change (State.save entity)
  if canonical ∈ state.live then return canonical else fail .dangling

/-- `Fhenon(const Fhenon &other)`: the copy stands for what `other` stands for. -/
def copyConstruct (host : Host Address Ptr Profile σ) (other : Address) :
    Recorder Address Ptr Profile σ Address := do
  let state ← look
  let copied : Object Ptr Profile :=
    { state.objects other with isScalar := false, shared := false }
  if state.session.active then
    let source := state.session.canonical other
    if source ∈ state.live then
      if (state.objects source).shared then
        let this ← construct host copied
        change (State.onSession fun session => session.setEntity this source)
        return this
      else
        fail (.thrown ("Session: copying a session variable inside run() is not supported — " ++
          "assign to a variable declared outside run() instead"))
    else fail .dangling
  else construct host copied

/-- `Fhenon(Fhenon &&other)`; the shell keeps its scalar mark. -/
def moveConstruct (host : Host Address Ptr Profile σ) (other : Address) :
    Recorder Address Ptr Profile σ Address := do
  let state ← look
  let stolen : Object Ptr Profile :=
    { state.objects other with isScalar := false, shared := false }
  let this ← construct host stolen
  change (State.onObject other fun shell =>
    { shell with val := 0, ciphertext := none, isEncrypted := false, profile := none })
  if state.session.active then
    let source := state.session.canonical other
    if source ∈ state.live then
      change (State.onSession fun session =>
        if (state.objects source).shared then session.setEntity this source
        else session.poisonRecording
          "Session: a session variable was moved inside run() — declare and assign instead")
      return this
    else fail .dangling
  else return this

/-- `Backend::transform`: a new buffer with the encrypted value, owned by a control
block of its own. -/
def transform (host : Host Address Ptr Profile σ) (profile : Profile) (entity : Address) :
    Recorder Address Ptr Profile σ Unit :=
  fun state =>
    let encrypted := host.encrypt profile (state.objects entity).val state.world
    match encrypted.1 with
    | .error message => (.error (.thrown message), { state with world := encrypted.2 })
    | .ok buffer =>
        (.ok (),
          { state.onObject entity fun object =>
              { object with
                ciphertext := some
                  { buffer := { raw := some buffer, control := state.nextControl }
                    owner := host.backend }
                isEncrypted := true } with
            nextControl := state.nextControl + 1
            world := encrypted.2 })

def belong (host : Host Address Ptr Profile σ) (this : Address) (newProfile : Option Profile) :
    Recorder Address Ptr Profile σ Unit := do
  change (State.onObject this fun object => { object with profile := newProfile })
  match newProfile with
  | none => fail .nullProfile
  | some profile =>
      transform host profile this
      change (State.save this)

/-- `operator=(const Fhenon &other)` while recording. -/
def assign (this other : Address) : Recorder Address Ptr Profile σ Unit := do
  let op1 ← trackEntity this
  let op2 ← trackEntity other
  change (State.record { type := .assignment, operand1 := op1, operand2 := op2 })

/-- `operator=(Fhenon &&other)` while recording. -/
def moveAssign (this other : Address) : Recorder Address Ptr Profile σ Unit :=
  if this = other then pure () else assign this other

/-- `operator=(const T &scalar)` while recording. -/
def assignScalar (host : Host Address Ptr Profile σ) (this : Address) (scalar : Int) :
    Recorder Address Ptr Profile σ Unit := do
  change (State.save this)
  let op1 ← trackEntity this
  let tmp ← makeShared host { val := scalar }
  let state ← look
  onFailure (belong host tmp (state.objects op1).profile) (State.destroy tmp)
  change (State.record { type := .assignment, operand1 := op1, operand2 := tmp })

/-- The two operators that record. -/
inductive Arithmetic
  | add | multiply
deriving DecidableEq

def Arithmetic.operationType : Arithmetic → OperationType
  | .add => .add
  | .multiply => .multiply

/-- `operator+` and `operator*` while recording. The hidden result object has no profile;
the caller gets a copy of it. -/
def combine (host : Host Address Ptr Profile σ) (operator : Arithmetic) (this other : Address) :
    Recorder Address Ptr Profile σ Address := do
  let op1 ← trackEntity this
  let op2 ← trackEntity other
  let result ← makeShared host { val := 1234 }
  change (State.save result)
  let _ ← trackEntity result
  change (State.record
    { type := operator.operationType, operand1 := op1, operand2 := op2, result := some result })
  copyConstruct host result

/-- `operator+` and `operator*` with a literal on the right. -/
def combineScalar (host : Host Address Ptr Profile σ) (operator : Arithmetic) (this : Address)
    (scalar : Int) : Recorder Address Ptr Profile σ Address := do
  let entity ← makeShared host { val := scalar, isScalar := true }
  let state ← look
  onFailure (belong host entity (state.objects this).profile) (State.destroy entity)
  combine host operator this entity

/-- `operator&` and its siblings: the backend's result object is copied out and dropped. -/
def evaluateEagerly (host : Host Address Ptr Profile σ) (operator : EagerOperator)
    (this other : Address) : Recorder Address Ptr Profile σ Address := do
  let state ← look
  let evaluated := host.eager operator (state.objects this) (state.objects other) state.world
  change fun state => { state with world := evaluated.2 }
  match evaluated.1 with
  | .error message => fail (.thrown message)
  | .ok object =>
      let result ← makeShared host object
      ensuring (copyConstruct host result) (State.destroy result)

end Fhenomenon.Recording
