import Fhenomenon.Recording
import Fhenomenon.SessionRuntime

/-!
# Lambdas given to a session

Straight-line bodies of `Session::run` and what running them does: operands are
evaluated from left to right, temporaries die with their full expression and
locals with the lambda, whether it returns or throws.
-/

namespace Fhenomenon.SessionBodies

open Fhenomenon.Lib.Fallible Fhenomenon.RecordedGraph Fhenomenon.DefaultExecutor
open Fhenomenon.SessionRuntime Fhenomenon.Recording

/-- An outer variable is its object; locals are numbered in the order of declaration. -/
inductive Variable (Address : Type)
  | outer (address : Address)
  | inner (index : Nat)
deriving DecidableEq

inductive Expr (Address : Type)
  | read (name : Variable Address)
  | combine (operator : Arithmetic) (lhs rhs : Expr Address)
  | combineScalar (operator : Arithmetic) (lhs : Expr Address) (scalar : Int)
deriving DecidableEq

inductive Statement (Address : Type)
  | declare (value : Expr Address)
  | assign (target : Variable Address) (value : Expr Address)
  | assignScalar (target : Variable Address) (scalar : Int)
  | raise (message : String)
deriving DecidableEq

variable {Address Ptr Profile σ : Type} [DecidableEq Address]

def locate (name : Variable Address) : Recorder Address Ptr Profile σ Address :=
  fun state =>
    match name with
    | .outer address => (.ok address, state)
    | .inner index =>
        match state.locals[index]? with
        | some address => (.ok address, state)
        | none => (.error .undeclared, state)

/-- A new object that lives until the full expression ends. -/
def holdTemporary (address : Address) : Recorder Address Ptr Profile σ Address := do
  change fun state => { state with temporaries := address :: state.temporaries }
  return address

def evaluate (host : Host Address Ptr Profile σ) :
    Expr Address → Recorder Address Ptr Profile σ Address
  | .read name => locate name
  | .combine operator lhs rhs => do
      let this ← evaluate host lhs
      let other ← evaluate host rhs
      let made ← combine host operator this other
      holdTemporary made
  | .combineScalar operator lhs scalar => do
      let this ← evaluate host lhs
      let made ← combineScalar host operator this scalar
      holdTemporary made

/-- `Fhenon<int> t = value`: the result of an operator is made in place. -/
def initializer (host : Host Address Ptr Profile σ) :
    Expr Address → Recorder Address Ptr Profile σ Address
  | .read name => do
      let other ← locate name
      copyConstruct host other
  | .combine operator lhs rhs => do
      let this ← evaluate host lhs
      let other ← evaluate host rhs
      combine host operator this other
  | .combineScalar operator lhs scalar => do
      let this ← evaluate host lhs
      combineScalar host operator this scalar

def perform (host : Host Address Ptr Profile σ) :
    Statement Address → Recorder Address Ptr Profile σ Unit
  | .declare value => do
      let made ← ensuring (initializer host value) State.destroyTemporaries
      change fun state => { state with locals := state.locals ++ [made] }
  | .assign target value =>
      ensuring (do
        let other ← evaluate host value
        let this ← locate target
        assign this other) State.destroyTemporaries
  | .assignScalar target scalar => do
      let this ← locate target
      assignScalar host this scalar
  | .raise message => fail (.thrown message)

/-- The lambda; its locals die when it returns or throws. -/
def record (host : Host Address Ptr Profile σ) (body : List (Statement Address)) :
    Recorder Address Ptr Profile σ Unit :=
  ensuring (each (perform host) body) State.destroyLocals

/-- What `Session::optimize` sees of the objects. -/
def runState (state : State Address Ptr Profile σ) : RunState Address Ptr σ where
  entities := fun address => (state.objects address).toFhenon
  nextControl := state.nextControl
  world := state.world

/-- `Session::optimize`, which falls back to `evaluateGraph` for a backend without a
runtime or a graph that lowers to nothing. -/
def optimizeSession (backend : Nat) (hooks : FhnMovementHooks Ptr σ) (dispatch : Dispatch Ptr σ)
    (evaluateGraph : Recorder Address Ptr Profile σ Unit) : Recorder Address Ptr Profile σ Unit :=
  fun state =>
    let ran := optimize backend hooks dispatch state.session.poison state.session.operations
      (runState state)
    let reached : State Address Ptr Profile σ :=
      { state with
        objects := fun address =>
          { state.objects address with toFhenon := ran.2.entities address }
        nextControl := ran.2.nextControl
        world := ran.2.world }
    match ran.1 with
    | .error message => (.error (.thrown message), reached)
    | .ok true => (.ok (), reached)
    | .ok false => evaluateGraph reached

/-- The objects that only operations own. -/
def ownedByOperations (state : State Address Ptr Profile σ) (address : Address) : Bool :=
  (state.objects address).shared &&
    state.session.operations.any fun operation =>
      operation.operand1 = address || operation.operand2 = address ||
        operation.result = some address

/-- `Session::endRun`: the session stops recording before it drops its operations, so
their objects die unnoticed. -/
def endRun (state : State Address Ptr Profile σ) : State Address Ptr Profile σ :=
  { state with
    session := {}
    live := state.live.filter fun address => ¬ownedByOperations state address }

/-- `Session::run` makes the session record. -/
def activate (state : State Address Ptr Profile σ) : State Address Ptr Profile σ :=
  state.onSession fun session => { session with active := true }

/-- `Session::run` -/
def run (host : Host Address Ptr Profile σ) (backend : Nat) (hooks : FhnMovementHooks Ptr σ)
    (dispatch : Dispatch Ptr σ) (evaluateGraph : Recorder Address Ptr Profile σ Unit)
    (body : List (Statement Address)) : Recorder Address Ptr Profile σ Unit := do
  change activate
  ensuring (do
    record host body
    optimizeSession backend hooks dispatch evaluateGraph) endRun

end Fhenomenon.SessionBodies
