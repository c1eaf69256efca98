import Fhenomenon.ToyFheNoise
import Fhenomenon.InstructionStream

/-!
# The plaintext oracle

`corpus_oracle.cpp`: the corpus runner's interpreter of instruction streams on
vectors of `int64_t` slots. Beside it, single-slot programs get exact integers,
with the noise bound that their ciphertexts carry; while the integers stay below
`t / 2` the oracle computes them.
-/

namespace Fhenomenon.CorpusOracle

open Fhenomenon.InstructionStream Fhenomenon.ToyFhe Fhenomenon.ToyFheNoise

abbrev Slots := List Int

/-- `static_cast<int64_t>` of a `double` drops the fraction. -/
def scalarOf (inst : FhnInstruction) : Int :=
  (inst.fparams 0).num.tdiv (inst.fparams 0).den

theorem scalar_of_integer {inst : FhnInstruction} {scalar : Int}
    (integer : inst.fparams 0 = scalar) : scalarOf inst = scalar := by
  rw [scalarOf, integer]
  simp

/-- Two operands of one slot count. -/
def binary (fn : Int → Int → Int) (a : Slots) (b : Option Slots) : Option Slots :=
  match b with
  | none => none
  | some b => if b.length ≠ a.length then none else some (List.zipWith fn a b)

def unary (fn : Int → Int) (a : Slots) : Slots := a.map fn

/-- Positive distances rotate to the left. -/
def rotate (a : Slots) (distance : Int) : Slots :=
  let n : Int := a.length
  let d := (distance.tmod n + n).tmod n
  List.ofFn fun s : Fin a.length => a.getD ((s + d).tmod n).toNat 0

def flag (condition : Bool) : Int := if condition then 1 else 0

/-- The `switch` on the opcode; fused and lifecycle opcodes are not modeled. -/
def evaluateOpcode (inst : FhnInstruction) (a : Slots) (b : Option Slots) : Option Slots :=
  match inst.opcode with
  | .addCC => binary (fun x y => i64 (x + y)) a b
  | .subCC => binary (fun x y => i64 (x - y)) a b
  | .multCC => binary (fun x y => i64 (x * y)) a b
  | .addCS => some (unary (fun x => i64 (x + scalarOf inst)) a)
  | .multCS => some (unary (fun x => i64 (x * scalarOf inst)) a)
  | .subSC => some (unary (fun x => i64 (scalarOf inst - x)) a)
  | .negate => some (unary (fun x => i64 (-x)) a)
  | .rotate => some (rotate a (inst.params 0))
  | .eq => binary (fun x y => flag (x = y)) a b
  | .lt => binary (fun x y => flag (x < y)) a b
  | .le => binary (fun x y => flag (x ≤ y)) a b
  | .and => binary Int.land a b
  | .or => binary Int.lor a b
  | .xor => binary Int.xor a b
  | _ => none

def evaluateInstruction (inst : FhnInstruction) (vals : Nat → Option Slots) : Option Slots :=
  match vals (inst.operands 0) with
  | none => none
  | some a => evaluateOpcode inst a (vals (inst.operands 1))

def evaluateAll : List FhnInstruction → (Nat → Option Slots) → Option (Nat → Option Slots)
  | [], vals => some vals
  | inst :: rest, vals =>
      match evaluateInstruction inst vals with
      | none => none
      | some out => evaluateAll rest (Function.update vals inst.resultId (some out))

def evaluate (program : FhnProgram) (inputs : Nat → Option Slots) :
    Option (Nat → Option Slots) :=
  evaluateAll program.instructions inputs

/-- The exact integer behind an id and the noise bound of its ciphertext. -/
structure Bound where
  value : Int
  noise : Rat

/-- Small enough to be decrypted exactly. -/
def Bound.Decryptable (engine : Engine) (bound : Bound) : Prop :=
  2 * |bound.value| < engine.params.t ∧ bound.noise < engine.delta / 2

instance (engine : Engine) (bound : Bound) : Decidable (bound.Decryptable engine) :=
  inferInstanceAs (Decidable (_ ∧ _))

/-- The noise of a product; a fresh mask adds the fresh noise. -/
def multipliedNoise (engine : Engine) (a b : Bound) : Rat :=
  |(a.value : Rat)| * b.noise + |(b.value : Rat)| * a.noise + a.noise * b.noise / engine.delta +
    1 / 2 + engine.params.noiseBound

def boundOpcode (engine : Engine) (inst : FhnInstruction) (a : Bound) (b : Option Bound) :
    Option Bound :=
  match inst.opcode with
  | .addCC => b.map fun b => ⟨a.value + b.value, a.noise + b.noise⟩
  | .subCC => b.map fun b => ⟨a.value - b.value, a.noise + b.noise⟩
  | .multCC => b.map fun b => ⟨a.value * b.value, multipliedNoise engine a b⟩
  | .addCS => some ⟨a.value + scalarOf inst, a.noise⟩
  | .multCS => some ⟨scalarOf inst * a.value, |(scalarOf inst : Rat)| * a.noise⟩
  | .negate => some ⟨-a.value, a.noise⟩
  | _ => none

def boundInstruction (engine : Engine) (inst : FhnInstruction) (bounds : Nat → Option Bound) :
    Option Bound :=
  match bounds (inst.operands 0) with
  | none => none
  | some a => boundOpcode engine inst a (bounds (inst.operands 1))

def boundAll (engine : Engine) :
    List FhnInstruction → (Nat → Option Bound) → Option (Nat → Option Bound)
  | [], bounds => some bounds
  | inst :: rest, bounds =>
      match boundInstruction engine inst bounds with
      | none => none
      | some out => boundAll engine rest (Function.update bounds inst.resultId (some out))

/-- Inputs start with the noise of a fresh encryption. -/
def inputBounds (engine : Engine) (inputs : Nat → Option Int) (id : Nat) : Option Bound :=
  (inputs id).map fun value => ⟨value, engine.params.noiseBound⟩

theorem bound_all_other (engine : Engine) (insts : List FhnInstruction)
    {bounds final : Nat → Option Bound} (computed : boundAll engine insts bounds = some final)
    (id : Nat) (unwritten : ∀ inst ∈ insts, inst.resultId ≠ id) : final id = bounds id := by
  induction insts generalizing bounds with
  | nil =>
      rw [boundAll, Option.some.injEq] at computed
      rw [computed]
  | cons inst rest induction =>
      rw [boundAll] at computed
      cases stepped : boundInstruction engine inst bounds with
      | none =>
          rw [stepped] at computed
          cases computed
      | some out =>
          rw [stepped] at computed
          have kept := induction computed
            (fun other member => unwritten other (List.mem_cons_of_mem _ member))
          have apart := unwritten inst (List.mem_cons_self ..)
          rw [kept, Function.update_of_ne apart.symm]

/-- Every integer in the table is its own slot. -/
def Agrees (vals : Nat → Option Slots) (bounds : Nat → Option Bound) : Prop :=
  ∀ id, vals id = (bounds id).map fun bound => [bound.value]

theorem decryptable_fits {engine : Engine} (admissible : Admissible engine) {bound : Bound}
    (small : bound.Decryptable engine) : i64 bound.value = bound.value := by
  have modulus : engine.params.t ≤ 2 ^ 62 :=
    (Int.le_of_dvd admissible.positive admissible.divides).trans admissible.bounded
  have magnitude := small.1
  apply fits_of_abs
  omega

theorem evaluate_agrees {engine : Engine} (admissible : Admissible engine)
    (inst : FhnInstruction) {vals : Nat → Option Slots} {bounds : Nat → Option Bound}
    (agrees : Agrees vals bounds) {out : Bound}
    (computed : boundInstruction engine inst bounds = some out)
    (small : out.Decryptable engine) : evaluateInstruction inst vals = some [out.value] := by
  have fits := decryptable_fits admissible small
  have first := agrees (inst.operands 0)
  have second := agrees (inst.operands 1)
  rw [boundInstruction] at computed
  rw [evaluateInstruction, first, second]
  cases left : bounds (inst.operands 0) with
  | none =>
      rw [left] at computed
      cases computed
  | some a =>
      rw [left] at computed
      simp only [Option.map_some]
      have paired (operation : Int → Int → Int) (noise : Bound → Rat)
          (result : (bounds (inst.operands 1)).map
            (fun b => (⟨operation a.value b.value, noise b⟩ : Bound)) = some out) :
          binary (fun x y => i64 (operation x y)) [a.value]
            ((bounds (inst.operands 1)).map fun bound => [bound.value]) = some [out.value] := by
        cases right : bounds (inst.operands 1) with
        | none =>
            rw [right] at result
            cases result
        | some b =>
            rw [right, Option.map_some, Option.some.injEq] at result
            rw [← result] at fits ⊢
            simp only [Option.map_some, binary, List.length_singleton, ne_eq, not_true_eq_false,
              if_false, List.zipWith_cons_cons, List.zipWith_nil_left]
            rw [fits]
      cases opcode : inst.opcode with
      | addCC =>
          simp only [boundOpcode, opcode] at computed
          simp only [evaluateOpcode, opcode]
          exact paired (fun x y => x + y) _ computed
      | subCC =>
          simp only [boundOpcode, opcode] at computed
          simp only [evaluateOpcode, opcode]
          exact paired (fun x y => x - y) _ computed
      | multCC =>
          simp only [boundOpcode, opcode] at computed
          simp only [evaluateOpcode, opcode]
          exact paired (fun x y => x * y) _ computed
      | addCS =>
          simp only [boundOpcode, opcode, Option.some.injEq] at computed
          rw [← computed] at fits ⊢
          simp only [evaluateOpcode, opcode, unary, List.map_cons, List.map_nil]
          rw [fits]
      | multCS =>
          simp only [boundOpcode, opcode, Option.some.injEq] at computed
          rw [← computed] at fits ⊢
          simp only [evaluateOpcode, opcode, unary, List.map_cons, List.map_nil]
          rw [mul_comm, fits]
      | negate =>
          simp only [boundOpcode, opcode, Option.some.injEq] at computed
          rw [← computed] at fits ⊢
          simp only [evaluateOpcode, opcode, unary, List.map_cons, List.map_nil]
          rw [fits]
      | _ =>
          simp only [boundOpcode, opcode] at computed
          cases computed

theorem agrees_update {vals : Nat → Option Slots} {bounds : Nat → Option Bound}
    (agrees : Agrees vals bounds) (id : Nat) (out : Bound) :
    Agrees (Function.update vals id (some [out.value])) (Function.update bounds id (some out)) := by
  intro other
  by_cases same : other = id
  · rw [same, Function.update_self, Function.update_self, Option.map_some]
  · rw [Function.update_of_ne same, Function.update_of_ne same]
    exact agrees other

/-- While every result is small, the oracle's table holds the exact integers. -/
theorem evaluate_all_agrees {engine : Engine} (admissible : Admissible engine)
    (insts : List FhnInstruction) (once : (insts.map (·.resultId)).Nodup)
    {vals : Nat → Option Slots} {bounds final : Nat → Option Bound} (agrees : Agrees vals bounds)
    (computed : boundAll engine insts bounds = some final)
    (small : ∀ inst ∈ insts, ∀ bound, final inst.resultId = some bound →
      bound.Decryptable engine) :
    ∃ table, evaluateAll insts vals = some table ∧ Agrees table final := by
  induction insts generalizing vals bounds with
  | nil =>
      rw [boundAll, Option.some.injEq] at computed
      exact ⟨vals, rfl, computed ▸ agrees⟩
  | cons inst rest induction =>
      rw [List.map_cons, List.nodup_cons] at once
      rw [boundAll] at computed
      cases stepped : boundInstruction engine inst bounds with
      | none =>
          rw [stepped] at computed
          cases computed
      | some out =>
          rw [stepped] at computed
          have written : final inst.resultId = some out := by
            rw [bound_all_other engine rest computed inst.resultId, Function.update_self]
            intro other member same
            exact once.1 (List.mem_map.mpr ⟨other, member, same⟩)
          have decryptable := small inst (List.mem_cons_self ..) out written
          have evaluated := evaluate_agrees admissible inst agrees stepped decryptable
          obtain ⟨table, found, matching⟩ := induction once.2
            (agrees_update agrees inst.resultId out) computed
            (fun other member => small other (List.mem_cons_of_mem _ member))
          refine ⟨table, ?_, matching⟩
          rw [evaluateAll, evaluated]
          exact found

end Fhenomenon.CorpusOracle
