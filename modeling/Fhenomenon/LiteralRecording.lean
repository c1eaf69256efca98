import Fhenomenon.RecordingFrame

/-!
# Recording expressions with literals

A literal is encrypted with the profile of the object on its left. A variable of
the caller has one; the temporary that `+` or `*` returns is a copy of a hidden
result object that never had any, so a literal can only follow a variable.
-/

namespace Fhenomenon.LiteralRecording

open Fhenomenon.Lib.Fallible Fhenomenon.RecordedGraph Fhenomenon.Recording
open Fhenomenon.EntityMap Fhenomenon.RecordingSteps Fhenomenon.SessionBodies
open Fhenomenon.RecordingFrame

variable {Address Ptr Profile σ : Type} [DecidableEq Address]
  {host : Host Address Ptr Profile σ} {state later last : State Address Ptr Profile σ}
  {outer : Address → Prop}

/-- The literals of an expression, in the order in which they are recorded. -/
def literals : Expr Address → List Int
  | .read _ => []
  | .combine _ lhs rhs => literals lhs ++ literals rhs
  | .combineScalar _ lhs scalar => literals lhs ++ [scalar]

def statementLiterals : Statement Address → List Int
  | .declare value => literals value
  | .assign _ value => literals value
  | .assignScalar _ scalar => [scalar]
  | .raise _ => []

def bodyLiterals (body : List (Statement Address)) : List Int :=
  body.flatMap statementLiterals

/-- Every variable read is one of the caller's. -/
def Over (outer : Address → Prop) : Expr Address → Prop
  | .read (.outer address) => outer address
  | .read (.inner _) => False
  | .combine _ lhs rhs => Over outer lhs ∧ Over outer rhs
  | .combineScalar _ lhs _ => Over outer lhs

/-- Assignments to the caller's variables. -/
def Assigns (outer : Address → Prop) : Statement Address → Prop
  | .assign (.outer target) value => outer target ∧ Over outer value
  | .assignScalar (.outer target) _ => outer target
  | _ => False

/-- Every literal follows a variable. -/
def FollowsVariables : Expr Address → Prop
  | .read _ => True
  | .combine _ lhs rhs => FollowsVariables lhs ∧ FollowsVariables rhs
  | .combineScalar _ (.read _) _ => True
  | .combineScalar _ _ _ => False

/-- Every literal of a statement is assigned or follows a variable. -/
def StatementFollows : Statement Address → Prop
  | .assign _ value => FollowsVariables value
  | _ => True

def LiteralsFollowVariables (body : List (Statement Address)) : Prop :=
  ∀ statement ∈ body, StatementFollows statement

/-- The value of an encrypted object that the session made for a literal. -/
def literalValue (operand : Object Ptr Profile) : Option Int :=
  if operand.shared && operand.isEncrypted then some operand.val else none

/-- The literal that an operation stores as its second operand. -/
def storedLiteral (objects : Address → Object Ptr Profile) (operation : Operation Address) :
    Option Int :=
  literalValue (objects operation.operand2)

def storedLiterals (state : State Address Ptr Profile σ) : List Int :=
  state.session.operations.filterMap (storedLiteral state.objects)

omit [DecidableEq Address] in
theorem stored_extends (active : Active state) (extended : Extends state later)
    {more : List (Operation Address)}
    (operations : later.session.operations = state.session.operations ++ more) :
    storedLiterals later =
      storedLiterals state ++ more.filterMap (storedLiteral later.objects) := by
  rw [storedLiterals, operations, List.filterMap_append]
  congr 1
  apply List.filterMap_congr
  intro operation member
  have kept := active.sound.operands operation member operation.operand2 (Or.inr (Or.inl rfl))
  rw [storedLiteral, extended.objects _ kept.alive]
  rfl

/-- The value does not stand for a literal's object. -/
def Plain (state : State Address Ptr Profile σ) (address : Address) : Prop :=
  (state.objects (state.session.canonical address)).shared = false ∨
    (state.objects (state.session.canonical address)).isEncrypted = false

theorem combined_operations (operator : Arithmetic) (this other : Address) :
    (combined host operator this other state).session.operations =
      state.session.operations ++ [arithmeticOperation host operator this other state] := by
  simp only [combined, copied, recorded, State.record, State.onSession, construct_session,
    Session.setEntity, Session.saveOp, save_operations]

theorem stored_combined (active : Active state) (operator : Arithmetic) (this : Address)
    {other : Address} (alive : other ∈ state.live) :
    storedLiterals (combined host operator this other state) =
      storedLiterals state ++ (storedLiteral state.objects
        (arithmeticOperation host operator this other state)).toList := by
  have extended : Extends state (combined host operator this other state) := combined_extends _ _ _
  rw [stored_extends active extended (combined_operations operator this other)]
  have resolved := (active.sound.resolves other alive).alive
  have same := extended.objects _ resolved
  have unchanged : storedLiteral (combined host operator this other state).objects
      (arithmeticOperation host operator this other state) =
        storedLiteral state.objects (arithmeticOperation host operator this other state) :=
    congrArg literalValue same
  rw [List.filterMap_cons, List.filterMap_nil, unchanged]
  cases storedLiteral state.objects (arithmeticOperation host operator this other state) <;> rfl

omit [DecidableEq Address] in
theorem stored_plain {other : Address} (plain : Plain state other) {operation : Operation Address}
    (operand : operation.operand2 = state.session.canonical other) :
    storedLiteral state.objects operation = none := by
  unfold storedLiteral literalValue
  rw [operand]
  rcases plain with owned | unencrypted
  · simp only [owned, Bool.false_and, Bool.false_eq_true, if_false]
  · simp only [unencrypted, Bool.and_false, Bool.false_eq_true, if_false]

/-- `address` is the value of an expression: a variable of the caller, or a temporary. -/
structure Value (outer : Address → Prop) (state : State Address Ptr Profile σ)
    (value : Expr Address) (address : Address) : Prop where
  alive : address ∈ state.live
  plain : Plain state address
  named : ∀ name, value = .read name → name = .outer address
  bare : (∀ name, value ≠ .read name) → (state.objects address).profile = none

/-- What evaluating an expression of variables comes to. -/
structure Evaluated (outer : Address → Prop) (state : State Address Ptr Profile σ)
    (value : Expr Address) (address : Address) (later : State Address Ptr Profile σ) : Prop where
  within : Within outer state later
  known : Value outer later value address
  stored : storedLiterals later = storedLiterals state ++ literals value

omit [DecidableEq Address] in
theorem value_extends {value : Expr Address} {address : Address} (active : Active state)
    (extended : Extends state later) (known : Value outer state value address) :
    Value outer later value address where
  alive := extended.live known.alive
  plain := by
    rw [Plain, extended.canonical address known.alive,
      extended.objects _ (active.sound.resolves address known.alive).alive]
    exact known.plain
  named := known.named
  bare := by
    intro compound
    rw [extended.objects address known.alive]
    exact known.bare compound

theorem combined_value (ongoing : Ongoing outer state) (operator : Arithmetic)
    (this other : Address) {value : Expr Address} (compound : ∀ name, value ≠ .read name) :
    Value outer (held (returned host operator this other state)
      (combined host operator this other state)) value
        (returned host operator this other state) where
  alive := (returned_collapsed ongoing.active operator).alive
  plain := by
    right
    have stands : (combined host operator this other state).session.canonical
        (returned host operator this other state) = state.nextAddress host :=
      returned_canonical ongoing.active operator
    simp only [held, stands, combined_result]
  named := fun name read => absurd read (compound name)
  bare := fun _ => (returned_collapsed ongoing.active operator).bare

def Encrypts (host : Host Address Ptr Profile σ) : Prop :=
  ∀ profile value world, ∃ buffer after, host.encrypt profile value world = (.ok buffer, after)

/-- The caller's variables belong to a profile. -/
def Belonged (outer : Address → Prop) (state : State Address Ptr Profile σ) : Prop :=
  ∀ address, outer address → ∃ profile, (state.objects address).profile = some profile

omit [DecidableEq Address] in
theorem belonged_extends (ongoing : Ongoing outer state) (belonged : Belonged outer state)
    (extended : Extends state later) : Belonged outer later := by
  intro address caller
  rw [extended.objects address (ongoing.outerAlive address caller).1]
  exact belonged address caller

theorem stored_literal (active : Active state) (operator : Arithmetic) (this : Address)
    (scalar : Int) (profile : Profile) (buffer : Ptr) (world : σ) :
    storedLiterals (combined host operator this (state.nextAddress host)
      (literalReady host scalar profile buffer world state)) =
        storedLiterals state ++ [scalar] := by
  have ready : Active (literalReady host scalar profile buffer world state) :=
    literal_ready_active active _ _ _ _
  have before : storedLiterals (literalReady host scalar profile buffer world state) =
      storedLiterals state := by
    have extended : Extends state (literalReady host scalar profile buffer world state) :=
      literal_ready_extends _ _ _ _
    have none : (literalReady host scalar profile buffer world state).session.operations =
        state.session.operations ++ [] := by
      rw [literal_ready_operations, List.append_nil]
    rw [stored_extends active extended none]
    exact List.append_nil _
  have operand : storedLiteral (literalReady host scalar profile buffer world state).objects
      (arithmeticOperation host operator this (state.nextAddress host)
        (literalReady host scalar profile buffer world state)) = some scalar := by
    rw [storedLiteral, arithmeticOperation, literal_ready_canonical active, literal_ready_object]
    rfl
  rw [stored_combined ready operator this (literal_ready_alive _ _ _ _), before, operand]
  rfl

theorem evaluate_records (encrypts : Encrypts host) (value : Expr Address)
    (callers : Over outer value) (follows : FollowsVariables value)
    (state : State Address Ptr Profile σ) (ongoing : Ongoing outer state)
    (belonged : Belonged outer state) :
    ∃ address later, evaluate host value state = (.ok address, later) ∧
      Evaluated outer state value address later := by
  induction value generalizing state with
  | read name =>
      cases name with
      | inner index => cases callers
      | outer address =>
          obtain ⟨alive, itself, single⟩ := ongoing.outerAlive address callers
          refine ⟨address, state, rfl, within_refl ongoing, ⟨alive, ?_, ?_, ?_⟩, ?_⟩
          · left
            rw [itself, single]
          · intro name read
            exact (Expr.read.inj read).symm
          · intro compound
            exact absurd rfl (compound _)
          · exact (List.append_nil _).symm
  | combine operator lhs rhs left right =>
      obtain ⟨this, middle, ranLeft, first⟩ := left callers.1 follows.1 state ongoing belonged
      have carried := belonged_extends ongoing belonged first.within.extended
      obtain ⟨other, late, ranRight, second⟩ :=
        right callers.2 follows.2 middle first.within.ongoing carried
      have operands := value_extends first.within.ongoing.active second.within.extended first.known
      have both := second.within.ongoing
      refine ⟨_, _, evaluate_combine ranLeft ranRight both.active operands.alive
        second.known.alive, ?_⟩
      constructor
      · exact within_trans (within_trans first.within second.within)
          (combined_held both operator operands.alive second.known.alive)
      · exact combined_value both operator this other (fun name read => by cases read)
      · have same : storedLiterals (combined host operator this other late) =
            storedLiterals late := by
          rw [stored_combined both.active operator this second.known.alive,
            stored_plain second.known.plain rfl]
          exact List.append_nil _
        rw [literals, ← List.append_assoc, ← first.stored, ← second.stored, ← same]
        rfl
  | combineScalar operator lhs scalar left =>
      cases lhs with
      | combine => cases follows
      | combineScalar => cases follows
      | read name =>
          obtain ⟨this, middle, ran, first⟩ := left callers trivial state ongoing belonged
          cases name with
          | inner index => cases callers
          | outer address =>
              obtain ⟨profile, present⟩ := belonged address callers
              obtain ⟨alive, -, -⟩ := ongoing.outerAlive address callers
              obtain ⟨buffer, world, made⟩ := encrypts profile scalar state.world
              have ready : Ongoing outer (literalReady host scalar profile buffer world state) :=
                ready_ongoing ongoing _ _ _ _
              have operand : address ∈
                  (literalReady host scalar profile buffer world state).live :=
                Finset.mem_insert_of_mem alive
              refine ⟨_, _, evaluate_scalar rfl ongoing.active alive present made, ?_⟩
              constructor
              · exact within_trans (within_extends ongoing (literal_ready_extends _ _ _ _)
                  ready.active rfl) (combined_held ready operator operand
                    (literal_ready_alive _ _ _ _))
              · exact combined_value ready operator address _ (fun name read => by cases read)
              · exact stored_literal ongoing.active operator address scalar profile buffer world

theorem evaluate_dereferences_null (encrypts : Encrypts host) (value : Expr Address)
    (callers : Over outer value) (misplaced : ¬FollowsVariables value)
    (state : State Address Ptr Profile σ) (ongoing : Ongoing outer state)
    (belonged : Belonged outer state) :
    ∃ later, evaluate host value state = (.error .nullProfile, later) := by
  induction value generalizing state with
  | read name => exact absurd trivial misplaced
  | combine operator lhs rhs left right =>
      by_cases followsLeft : FollowsVariables lhs
      · have misplacedRight : ¬FollowsVariables rhs :=
          fun followsRight => misplaced ⟨followsLeft, followsRight⟩
        obtain ⟨this, middle, ran, first⟩ :=
          evaluate_records encrypts lhs callers.1 followsLeft state ongoing belonged
        have carried := belonged_extends ongoing belonged first.within.extended
        obtain ⟨later, failed⟩ :=
          right callers.2 misplacedRight middle first.within.ongoing carried
        refine ⟨later, ?_⟩
        rw [evaluate, bind_returned ran]
        exact bind_failed failed
      · obtain ⟨later, failed⟩ := left callers.1 followsLeft state ongoing belonged
        refine ⟨later, ?_⟩
        rw [evaluate]
        exact bind_failed failed
  | combineScalar operator lhs scalar left =>
      by_cases followsLeft : FollowsVariables lhs
      · obtain ⟨this, middle, ran, first⟩ :=
          evaluate_records encrypts lhs callers followsLeft state ongoing belonged
        have compound : ∀ name, lhs ≠ .read name := by
          intro name read
          rw [read] at misplaced
          exact misplaced trivial
        have failed : combineScalar host operator this scalar middle =
            (.error .nullProfile,
              dropped host { val := scalar, isScalar := true } none middle.world middle) :=
          combine_scalar_null operator first.known.alive scalar (first.known.bare compound)
        refine ⟨dropped host { val := scalar, isScalar := true } none middle.world middle, ?_⟩
        rw [evaluate, bind_returned ran]
        exact bind_failed failed
      · obtain ⟨later, failed⟩ := left callers followsLeft state ongoing belonged
        refine ⟨later, ?_⟩
        rw [evaluate]
        exact bind_failed failed

/-- Between two statements no temporaries are left. -/
structure Between (outer : Address → Prop) (state : State Address Ptr Profile σ) : Prop where
  ongoing : Ongoing outer state
  belonged : Belonged outer state
  noTemporaries : state.temporaries = []

def assigned (target value : Address) (state : State Address Ptr Profile σ) :
    State Address Ptr Profile σ :=
  ((state.save target).save value).record
    { type := .assignment
      operand1 := state.session.canonical target
      operand2 := state.session.canonical value }

theorem assigned_extends (target value : Address) : Extends state (assigned target value state) :=
  extends_trans (save_extends target) (extends_trans (save_extends value) (record_extends _))

theorem stored_assigned (active : Active state) (target : Address) {value : Address}
    (plain : Plain state value) :
    storedLiterals (assigned target value state) = storedLiterals state := by
  have operations : (assigned target value state).session.operations =
      state.session.operations ++ [{ type := .assignment
                                     operand1 := state.session.canonical target
                                     operand2 := state.session.canonical value }] := by
    simp only [assigned, State.record, State.onSession, Session.saveOp, save_operations]
  rw [stored_extends active (assigned_extends target value) operations, List.filterMap_cons,
    List.filterMap_nil]
  have nothing : storedLiteral (assigned target value state).objects
      { type := .assignment
        operand1 := state.session.canonical target
        operand2 := state.session.canonical value } = none := stored_plain plain rfl
  rw [nothing]
  exact List.append_nil _

theorem stored_assigned_scalar (active : Active state) (this : Address) (scalar : Int)
    (profile : Profile) (buffer : Ptr) (world : σ) :
    storedLiterals (assignedScalar host this scalar profile buffer world state) =
      storedLiterals state ++ [scalar] := by
  have operations : (assignedScalar host this scalar profile buffer world
      state).session.operations = state.session.operations ++
        [{ type := .assignment
           operand1 := state.session.canonical this
           operand2 := state.nextAddress host }] := by
    simp only [assignedScalar, State.record, State.onSession, Session.saveOp, belonging,
      save_operations, withLiteral, State.onObject, construct_session]
  have object : (assignedScalar host this scalar profile buffer world state).objects
      (state.nextAddress host) =
        encrypted host (state.save this) buffer
          { val := scalar, profile := some profile, shared := true } := by
    have placed : (withLiteral host { val := scalar } (state.save this)).objects
        (state.nextAddress host) = { val := scalar, shared := true } :=
      construct_self (state.nextAddress host) _
    simp only [assignedScalar, State.record, State.onSession, belonging, save_objects,
      on_object_self, placed]
    rfl
  rw [stored_extends active (assigned_scalar_extends this scalar profile buffer world) operations,
    List.filterMap_cons, List.filterMap_nil, storedLiteral, object]
  rfl

theorem perform_records (encrypts : Encrypts host) (statement : Statement Address)
    (assigns : Assigns outer statement) (follows : StatementFollows statement)
    (between : Between outer state) :
    ∃ later, perform host statement state = (.ok (), later) ∧ Between outer later ∧
      Extends state later ∧
      storedLiterals later = storedLiterals state ++ statementLiterals statement := by
  have ongoing := between.ongoing
  cases statement with
  | declare value => cases assigns
  | raise message => cases assigns
  | assign target value =>
      cases target with
      | inner index => cases assigns
      | outer target =>
          obtain ⟨caller, callers⟩ := assigns
          obtain ⟨source, middle, ran, evaluated⟩ :=
            evaluate_records encrypts value callers follows state ongoing between.belonged
          have reached := evaluated.within.ongoing
          have targetAlive := (reached.outerAlive target caller).1
          have assigning := assign_eq reached.active targetAlive evaluated.known.alive
          have active : Active (assigned target source middle) :=
            assigned_active reached.active targetAlive evaluated.known.alive
          have within := within_trans evaluated.within
            (within_extends reached (assigned_extends target source) active rfl)
          obtain ⟨ended, extended, empty, operations, objects, -⟩ :=
            temporaries_end within between.noTemporaries ongoing
          refine ⟨(assigned target source middle).destroyTemporaries, ?_, ⟨ended, ?_, empty⟩,
            extended, ?_⟩
          · have inside : (do
                let other ← evaluate host value
                let this ← locate (.outer target)
                assign this other : Recorder Address Ptr Profile σ Unit) state =
                  (.ok (), assigned target source middle) := by
              rw [bind_returned ran]
              exact assigning
            rw [perform, ensuring, inside]
          · exact belonged_extends ongoing between.belonged extended
          · have same : storedLiterals (assigned target source middle).destroyTemporaries =
                storedLiterals (assigned target source middle) := by
              rw [storedLiterals, operations, objects]
              rfl
            rw [same, stored_assigned reached.active target evaluated.known.plain,
              evaluated.stored]
            rfl
  | assignScalar target scalar =>
      cases target with
      | inner index => cases assigns
      | outer target =>
          obtain ⟨alive, itself, -⟩ := ongoing.outerAlive target assigns
          obtain ⟨profile, present⟩ := between.belonged target assigns
          obtain ⟨buffer, world, made⟩ := encrypts profile scalar state.world
          have given : (state.objects (state.session.canonical target)).profile = some profile := by
            rw [itself, present]
          have extended : Extends state
              (assignedScalar host target scalar profile buffer world state) :=
            assigned_scalar_extends _ _ _ _ _
          have active : Active (assignedScalar host target scalar profile buffer world state) :=
            assigned_scalar_active ongoing.active alive _ _ _ _
          have later := ongoing_extends ongoing extended active rfl
          refine ⟨_, assign_scalar_eq ongoing.active alive scalar given made, ⟨later, ?_, ?_⟩,
            extended, ?_⟩
          · exact belonged_extends ongoing between.belonged extended
          · exact between.noTemporaries
          · exact stored_assigned_scalar ongoing.active target scalar profile buffer world

theorem perform_dereferences_null (encrypts : Encrypts host) (statement : Statement Address)
    (assigns : Assigns outer statement) (misplaced : ¬StatementFollows statement)
    (between : Between outer state) :
    ∃ later, perform host statement state = (.error .nullProfile, later) := by
  cases statement with
  | declare value => cases assigns
  | raise message => cases assigns
  | assignScalar target scalar => exact absurd trivial misplaced
  | assign target value =>
      cases target with
      | inner index => cases assigns
      | outer target =>
          obtain ⟨later, failed⟩ := evaluate_dereferences_null encrypts value assigns.2 misplaced
            state between.ongoing between.belonged
          refine ⟨later.destroyTemporaries, ?_⟩
          rw [perform, ensuring, bind_failed failed]

/-- The statements run to the end when every literal follows a variable, and stop at a null
profile otherwise. -/
theorem body_records (encrypts : Encrypts host) (body : List (Statement Address))
    (assigns : ∀ statement ∈ body, Assigns outer statement) (between : Between outer state) :
    (LiteralsFollowVariables body → ∃ later, each (perform host) body state = (.ok (), later) ∧
      later.locals = state.locals ∧
      storedLiterals later = storedLiterals state ++ bodyLiterals body) ∧
    (¬LiteralsFollowVariables body →
      ∃ later, each (perform host) body state = (.error .nullProfile, later)) := by
  induction body generalizing state with
  | nil =>
      constructor
      · intro _
        exact ⟨state, rfl, rfl, (List.append_nil _).symm⟩
      · intro misplaced
        exact absurd (fun statement member => by cases member) misplaced
  | cons statement rest induction =>
      have first := assigns statement List.mem_cons_self
      have others : ∀ other ∈ rest, Assigns outer other :=
        fun other member => assigns other (List.mem_cons_of_mem _ member)
      by_cases follows : StatementFollows statement
      · obtain ⟨middle, ran, next, extended, stored⟩ :=
          perform_records encrypts statement first follows between
        obtain ⟨onReturn, onNull⟩ := induction others next
        have split : LiteralsFollowVariables (statement :: rest) ↔
            LiteralsFollowVariables rest := by
          simp only [LiteralsFollowVariables, List.forall_mem_cons, follows, true_and]
        constructor
        · intro all
          obtain ⟨later, ranRest, locals, storedRest⟩ := onReturn (split.mp all)
          refine ⟨later, ?_, locals.trans extended.locals, ?_⟩
          · rw [each, bind_returned ran]
            exact ranRest
          · rw [storedRest, stored, List.append_assoc]
            rfl
        · intro misplaced
          obtain ⟨later, failed⟩ := onNull (fun all => misplaced (split.mpr all))
          refine ⟨later, ?_⟩
          rw [each, bind_returned ran]
          exact failed
      · constructor
        · intro all
          exact absurd (all statement List.mem_cons_self) follows
        · intro _
          obtain ⟨later, failed⟩ := perform_dereferences_null encrypts statement first follows
            between
          refine ⟨later, ?_⟩
          rw [each]
          exact bind_failed failed

/-- Recording reaches its end with every literal stored exactly when every literal is assigned
or follows a variable. -/
theorem records_every_literal_iff (host : Host Address Ptr Profile σ) (encrypts : Encrypts host)
    (outer : Address → Prop) (state : State Address Ptr Profile σ) (ready : Ready outer state)
    (belonged : Belonged outer state) (body : List (Statement Address))
    (assigns : ∀ statement ∈ body, Assigns outer statement) :
    ((record host body (activate state)).1 = .ok () ∧
      storedLiterals (record host body (activate state)).2 = bodyLiterals body) ↔
        LiteralsFollowVariables body := by
  have between : Between outer (activate state) :=
    ⟨activate_ongoing ready, belonged, ready.noTemporaries⟩
  obtain ⟨onReturn, onNull⟩ := body_records encrypts body assigns between
  constructor
  · intro recorded
    by_contra misplaced
    obtain ⟨later, failed⟩ := onNull misplaced
    have thrown := recorded.1
    rw [record, ensuring, failed] at thrown
    cases thrown
  · intro follows
    obtain ⟨later, ran, locals, stored⟩ := onReturn follows
    have none : later.locals = [] := locals.trans ready.noLocals
    have empty : storedLiterals (activate state) = [] := by
      have noOperations : (activate state).session.operations = [] := ready.noOperations
      rw [storedLiterals, noOperations]
      rfl
    rw [record, ensuring, ran]
    refine ⟨rfl, ?_⟩
    have same : storedLiterals later.destroyLocals = storedLiterals later := by
      simp only [storedLiterals, State.destroyLocals, none, List.reverse_nil, List.foldl_nil]
    rw [same, stored, empty, List.nil_append]

section DoubledSum

/-- `c = (a + b) * 2` -/
def doubledSum : List (Statement Nat) :=
  [.assign (.outer 2)
    (.combineScalar .multiply (.combine .add (.read (.outer 0)) (.read (.outer 1))) 2)]

/-- `c = a * 2 + b; a = 3` -/
def doubledVariable : List (Statement Nat) :=
  [.assign (.outer 2)
      (.combine .add (.combineScalar .multiply (.read (.outer 0)) 2) (.read (.outer 1))),
    .assignScalar (.outer 0) 3]

theorem doubled_sum_dereferences_null :
    Ready (· < 3) threeVariables ∧ Belonged (· < 3) threeVariables ∧
      (∀ statement ∈ doubledSum, Assigns (· < 3) statement) ∧
      (record countingHost doubledSum (activate threeVariables)).1 = .error .nullProfile := by
  refine ⟨three_ready, fun address _ => ⟨(), rfl⟩, ?_, rfl⟩
  intro statement member
  rw [doubledSum, List.mem_singleton] at member
  subst member
  exact ⟨by decide, (by decide : 0 < 3), (by decide : 1 < 3)⟩

theorem doubled_variable_recorded :
    (record countingHost doubledVariable (activate threeVariables)).1 = .ok () ∧
      storedLiterals (record countingHost doubledVariable (activate threeVariables)).2 =
        [2, 3] := by
  apply (records_every_literal_iff countingHost (fun _ _ world => ⟨world, world + 1, rfl⟩)
    (· < 3) threeVariables three_ready (fun address _ => ⟨(), rfl⟩) doubledVariable ?_).mpr
  · intro statement member
    rw [doubledVariable, List.mem_cons, List.mem_singleton] at member
    rcases member with rfl | rfl
    · exact ⟨trivial, trivial⟩
    · trivial
  · intro statement member
    rw [doubledVariable, List.mem_cons, List.mem_singleton] at member
    rcases member with rfl | rfl
    · exact ⟨by decide, (by decide : 0 < 3), (by decide : 1 < 3)⟩
    · exact (by decide : 0 < 3)

end DoubledSum

end Fhenomenon.LiteralRecording
