import Fhenomenon.SessionBodies

/-!
# What a body means

A body executed eagerly, where every variable is its own, and where a recording
departs from it: a local declared as a copy of another one shares its object, so
assigning to one of them leaves the others with a stale value.
-/

namespace Fhenomenon.BodyMeaning

open Fhenomenon.Recording Fhenomenon.SessionBodies

variable {Address V : Type} [DecidableEq Address]

structure Environment (Address V : Type) where
  outer : Address → V
  locals : List V := []

namespace Environment

def get (env : Environment Address V) : Variable Address → Option V
  | .outer address => some (env.outer address)
  | .inner index => env.locals[index]?

def set (env : Environment Address V) (target : Variable Address) (value : V) :
    Environment Address V :=
  match target with
  | .outer address => { env with outer := Function.update env.outer address value }
  | .inner index => { env with locals := env.locals.set index value }

def declare (env : Environment Address V) (value : V) : Environment Address V :=
  { env with locals := env.locals ++ [value] }

/-- Only a declared variable is assigned. -/
def assign (env : Environment Address V) (target : Variable Address) (value : V) :
    Option (Environment Address V) :=
  if (env.get target).isSome then some (env.set target value) else none

end Environment

section Values

variable [Add V] [Mul V] [IntCast V]

def apply : Arithmetic → V → V → V
  | .add => (· + ·)
  | .multiply => (· * ·)

def valueOf (env : Environment Address V) : Expr Address → Option V
  | .read name => env.get name
  | .combine operator lhs rhs => do
      let first ← valueOf env lhs
      let second ← valueOf env rhs
      return apply operator first second
  | .combineScalar operator lhs scalar => do
      let first ← valueOf env lhs
      return apply operator first (scalar : V)

def executeStatement (env : Environment Address V) :
    Statement Address → Option (Environment Address V)
  | .declare value => (valueOf env value).map env.declare
  | .assign target value => (valueOf env value).bind (env.assign target)
  | .assignScalar target scalar => env.assign target (scalar : V)
  | .raise _ => none

def executeBody (body : List (Statement Address)) (env : Environment Address V) :
    Option (Environment Address V) :=
  body.foldlM executeStatement env

end Values

/-- `origins` numbers the objects that the locals share; `stale` marks the variables whose
object was assigned through another variable, or computed from such a variable. -/
structure Flow (Address : Type) where
  origins : List Nat := []
  stale : Variable Address → Bool := fun _ => false

namespace Flow

def shares (flow : Flow Address) : Variable Address → Variable Address → Bool
  | .inner first, .inner second => flow.origins[first]? = flow.origins[second]?
  | first, second => first = second

def tainted (flow : Flow Address) : Expr Address → Bool
  | .read name => flow.stale name
  | .combine _ lhs rhs => flow.tainted lhs || flow.tainted rhs
  | .combineScalar _ lhs _ => flow.tainted lhs

/-- A copy of a local shares its object; any other local has an object of its own. -/
def origin (flow : Flow Address) : Expr Address → Nat
  | .read (.inner index) => flow.origins.getD index flow.origins.length
  | _ => flow.origins.length

/-- The value is what the object of `target` has already. -/
def rereads (flow : Flow Address) (target : Variable Address) : Expr Address → Bool
  | .read name => flow.shares name target
  | _ => false

/-- Assigns to `target`; `changes` says whether its object changes. -/
def assign (flow : Flow Address) (target : Variable Address) (stale changes : Bool) :
    Flow Address :=
  { flow with
    stale := fun name =>
      if name = target then stale
      else flow.stale name || (changes && flow.shares name target) }

def declare (flow : Flow Address) (origin : Nat) (stale : Bool) : Flow Address where
  origins := flow.origins ++ [origin]
  stale := Function.update flow.stale (.inner flow.origins.length) stale

def through (flow : Flow Address) : Statement Address → Flow Address
  | .declare value => flow.declare (flow.origin value) (flow.tainted value)
  | .assign target value => flow.assign target (flow.tainted value) (!flow.rereads target value)
  | .assignScalar target _ => flow.assign target false true
  | .raise _ => flow

end Flow

def flowOf (body : List (Statement Address)) : Flow Address :=
  body.foldl Flow.through {}

def OfCaller (outer : Address → Prop) : Variable Address → Prop
  | .outer address => outer address
  | .inner _ => True

def Reads (outer : Address → Prop) : Expr Address → Prop
  | .read name => OfCaller outer name
  | .combine _ lhs rhs => Reads outer lhs ∧ Reads outer rhs
  | .combineScalar _ lhs _ => Reads outer lhs

def Uses (outer : Address → Prop) : Statement Address → Prop
  | .declare value => Reads outer value
  | .assign target value => OfCaller outer target ∧ Reads outer value
  | .assignScalar target _ => OfCaller outer target
  | .raise _ => True

omit [DecidableEq Address] in
@[simp] theorem get_outer (env : Environment Address V) (address : Address) :
    env.get (.outer address) = some (env.outer address) :=
  rfl

omit [DecidableEq Address] in
@[simp] theorem get_inner (env : Environment Address V) (index : Nat) :
    env.get (.inner index) = env.locals[index]? :=
  rfl

theorem get_set (env : Environment Address V) {target : Variable Address} (value : V)
    (declared : (env.get target).isSome) (name : Variable Address) :
    (env.set target value).get name = if name = target then some value else env.get name := by
  cases target with
  | outer address =>
      cases name with
      | outer other =>
          simp only [Environment.set, Environment.get, Function.update_apply,
            Variable.outer.injEq]
          split_ifs <;> rfl
      | inner index => simp only [Environment.set, Environment.get, reduceCtorEq, if_false]
  | inner index =>
      have bound : index < env.locals.length := by
        simpa using declared
      cases name with
      | outer other => simp only [Environment.set, Environment.get, reduceCtorEq, if_false]
      | inner other =>
          simp only [Environment.set, Environment.get, Variable.inner.injEq]
          rw [List.getElem?_set]
          by_cases same : index = other
          · rw [if_pos same, if_pos bound, if_pos same.symm]
          · rw [if_neg same, if_neg (Ne.symm same)]

theorem set_length (env : Environment Address V) (target : Variable Address) (value : V) :
    (env.set target value).locals.length = env.locals.length := by
  cases target with
  | outer address => rfl
  | inner index => exact List.length_set

theorem shares_self (flow : Flow Address) (name : Variable Address) :
    flow.shares name name = true := by
  cases name <;> simp [Flow.shares]

theorem shares_comm (flow : Flow Address) (first second : Variable Address) :
    flow.shares first second = flow.shares second first := by
  cases first <;> cases second <;> simp [Flow.shares, eq_comm]

theorem snoc_lookup {Item : Type} (items : List Item) (last : Item) (index : Nat) :
    (items ++ [last])[index]? = if index = items.length then some last else items[index]? := by
  split_ifs with same
  · rw [same]
    exact List.getElem?_concat_length
  · rcases Nat.lt_or_gt_of_ne same with before | after
    · exact List.getElem?_append_left before
    · rw [List.getElem?_eq_none (by rw [List.length_append, List.length_singleton]; omega),
        List.getElem?_eq_none (by omega)]

theorem declare_shares (flow : Flow Address) (origin : Nat) (stale : Bool)
    {first second : Variable Address} (one : first ≠ .inner flow.origins.length)
    (two : second ≠ .inner flow.origins.length) :
    (flow.declare origin stale).shares first second = flow.shares first second := by
  cases first with
  | outer address => cases second <;> rfl
  | inner index =>
      cases second with
      | outer address => rfl
      | inner other =>
          rw [Ne, Variable.inner.injEq] at one two
          simp only [Flow.shares, Flow.declare, snoc_lookup, if_neg one, if_neg two]

theorem declare_shares_new (flow : Flow Address) (origin : Nat) (stale : Bool) {index : Nat}
    (old : index ≠ flow.origins.length) :
    (flow.declare origin stale).shares (.inner index) (.inner flow.origins.length) = true ↔
      flow.origins[index]? = some origin := by
  simp only [Flow.shares, Flow.declare, snoc_lookup, if_neg old, if_true, decide_eq_true_eq]

end Fhenomenon.BodyMeaning
