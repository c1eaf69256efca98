import Fhenomenon.CorpusOracle

/-!
# The oracle's failures

`corpus_oracle.cpp` once more, undefined where it would divide by zero or index
outside a vector, with the reduction of `int64_t` results as a parameter: `id`
for unbounded integers. Slot counts alone decide where it is defined and where
it returns no value.
-/

namespace Fhenomenon.OracleTotality

open Fhenomenon.InstructionStream Fhenomenon.ToyFhe
open Fhenomenon.CorpusOracle hiding binary unary rotate evaluateOpcode evaluateInstruction
  evaluateAll evaluate

abbrev Table := Nat → Option Slots

/-- `a[index]`, undefined outside the vector. -/
def element (a : Slots) (index : Int) : Option Int :=
  if index < 0 then none else a[index.toNat]?

def fill (slot : Nat → Option Int) : List Nat → Option Slots
  | [] => some []
  | s :: rest => do
      let value ← slot s
      let values ← fill slot rest
      some (value :: values)

/-- The outer `none` is undefined behaviour, the inner one is `nullopt`. -/
def binary (fn : Int → Int → Int) (a : Slots) (b : Option Slots) : Option (Option Slots) :=
  match b with
  | none => some none
  | some b =>
      if b.length ≠ a.length then some none
      else do
        let out ← fill (fun s => do
          let x ← element a s
          let y ← element b s
          some (fn x y)) (List.range a.length)
        some (some out)

def unary (fn : Int → Int) (a : Slots) : Option (Option Slots) := do
  let out ← fill (fun s => do
    let x ← element a s
    some (fn x)) (List.range a.length)
  some (some out)

def rotate (a : Slots) (distance : Int) : Option (Option Slots) :=
  let n : Int := a.length
  if n = 0 then none
  else do
    let d := (distance.tmod n + n).tmod n
    let rotated ← fill (fun s => element a ((s + d).tmod n)) (List.range a.length)
    some (some rotated)

section Evaluation

variable (reduce : Int → Int)

def evaluateOpcode (inst : FhnInstruction) (a : Slots) (b : Option Slots) :
    Option (Option Slots) :=
  match inst.opcode with
  | .addCC => binary (fun x y => reduce (x + y)) a b
  | .subCC => binary (fun x y => reduce (x - y)) a b
  | .multCC => binary (fun x y => reduce (x * y)) a b
  | .addCS => unary (fun x => reduce (x + scalarOf inst)) a
  | .multCS => unary (fun x => reduce (x * scalarOf inst)) a
  | .subSC => unary (fun x => reduce (scalarOf inst - x)) a
  | .negate => unary (fun x => reduce (-x)) a
  | .rotate => rotate a (inst.params 0)
  | .eq => binary (fun x y => flag (x = y)) a b
  | .lt => binary (fun x y => flag (x < y)) a b
  | .le => binary (fun x y => flag (x ≤ y)) a b
  | .and => binary Int.land a b
  | .or => binary Int.lor a b
  | .xor => binary Int.xor a b
  | _ => some none

def evaluateInstruction (inst : FhnInstruction) (vals : Table) : Option (Option Slots) :=
  match vals (inst.operands 0) with
  | none => some none
  | some a => evaluateOpcode reduce inst a (vals (inst.operands 1))

/-- The loop over the instructions; `step` is its body. -/
def evaluateAll (step : FhnInstruction → Table → Option (Option Slots)) :
    List FhnInstruction → Table → Option (Option Table)
  | [], vals => some (some vals)
  | inst :: rest, vals => do
      let out ← step inst vals
      match out with
      | none => some none
      | some slots => evaluateAll step rest (Function.update vals inst.resultId (some slots))

def evaluate (program : FhnProgram) (inputs : Table) : Option (Option Table) :=
  evaluateAll (evaluateInstruction reduce) program.instructions inputs

end Evaluation

abbrev Counts := Nat → Option Nat

def slotCounts (vals : Table) : Counts := fun id => (vals id).map List.length

/-- A result has as many slots as the first operand. -/
def countAfter (counts : Counts) (inst : FhnInstruction) : Counts :=
  Function.update counts inst.resultId (counts (inst.operands 0))

/-- The operands that an opcode requires; none for an opcode that is not modeled. -/
def required : FhnOpCode → Option (List (Fin 4))
  | .addCC | .subCC | .multCC | .eq | .lt | .le | .and | .or | .xor => some [0, 1]
  | .addCS | .multCS | .subSC | .negate | .rotate => some [0]
  | _ => none

/-- The documented failures of one instruction. -/
inductive Fails (counts : Counts) (inst : FhnInstruction) : Prop
  | unmodeled (opcode : required inst.opcode = none)
  | undefinedOperand (slots : List (Fin 4)) (opcode : required inst.opcode = some slots)
      (slot : Fin 4) (member : slot ∈ slots) (missing : counts (inst.operands slot) = none)
  | mismatched (opcode : required inst.opcode = some [0, 1])
      (apart : counts (inst.operands 0) ≠ counts (inst.operands 1))

/-- Some instruction fails, on the slot counts that reach it. -/
def SomeFails : List FhnInstruction → Counts → Prop
  | [], _ => False
  | inst :: rest, counts => Fails counts inst ∨ SomeFails rest (countAfter counts inst)

/-- No rotation that is reached before a failure has an empty operand. -/
def RotatesSlots : List FhnInstruction → Counts → Prop
  | [], _ => True
  | inst :: rest, counts =>
      (inst.opcode = .rotate → counts (inst.operands 0) ≠ some 0) ∧
        (¬Fails counts inst → RotatesSlots rest (countAfter counts inst))

/-- The evaluation is defined, fails exactly on a documented failure, and
otherwise has a value for every input and every result. -/
structure Total (program : FhnProgram) (inputs : Table) (outcome : Option (Option Table)) :
    Prop where
  defined : outcome ≠ none
  fails : outcome = some none ↔ SomeFails program.instructions (slotCounts inputs)
  values : ∀ table, outcome = some (some table) →
    ∀ id, inputs id ≠ none ∨ id ∈ program.resultIds → table id ≠ none

theorem fill_values {slot : Nat → Option Int} {values : Nat → Int} (positions : List Nat)
    (found : ∀ s ∈ positions, slot s = some (values s)) :
    fill slot positions = some (positions.map values) := by
  induction positions with
  | nil => rfl
  | cons s rest induction =>
      rw [fill, found s List.mem_cons_self,
        induction fun other member => found other (List.mem_cons_of_mem _ member)]
      rfl

theorem element_inside {a : Slots} {index : Int} (lower : 0 ≤ index) (upper : index < a.length) :
    element a index = some (a.getD index.toNat 0) := by
  rw [element, if_neg (by omega), List.getD_eq_getElem _ _ (by omega),
    List.getElem?_eq_getElem (by omega)]

theorem element_at {a : Slots} {s : Nat} (bound : s < a.length) :
    element a s = some (a.getD s 0) :=
  element_inside (by omega) (by exact_mod_cast bound)

theorem unary_eq (fn : Int → Int) (a : Slots) :
    unary fn a = some (some (CorpusOracle.unary fn a)) := by
  have filled := @fill_values (fun s => do
      let x ← element a s
      some (fn x)) (fun s => fn (a.getD s 0)) (List.range a.length) (by
    intro s member
    rw [element_at (List.mem_range.mp member)]
    rfl)
  have mapped : (List.range a.length).map (fun s => fn (a.getD s 0)) = a.map fn := by
    apply List.ext_getElem
    · simp
    · intro s left right
      simp [List.getElem?_eq_getElem (List.length_map fn ▸ right)]
  rw [unary, filled, mapped]
  rfl

theorem binary_eq (fn : Int → Int → Int) (a : Slots) (b : Option Slots) :
    binary fn a b = some (CorpusOracle.binary fn a b) := by
  cases b with
  | none => rfl
  | some b =>
      by_cases same : b.length = a.length
      · have filled := @fill_values (fun s => do
            let x ← element a s
            let y ← element b s
            some (fn x y)) (fun s => fn (a.getD s 0) (b.getD s 0)) (List.range a.length) (by
          intro s member
          have bound := List.mem_range.mp member
          rw [element_at bound, element_at (by rw [same]; exact bound)]
          rfl)
        have zipped : (List.range a.length).map (fun s => fn (a.getD s 0) (b.getD s 0)) =
            List.zipWith fn a b := by
          apply List.ext_getElem
          · simp [same]
          · intro s left right
            have bound : s < a.length := by simpa using left
            have other : s < b.length := by rw [same]; exact bound
            simp [List.getElem?_eq_getElem bound, List.getElem?_eq_getElem other]
        simp only [binary, CorpusOracle.binary, same, ne_eq, not_true_eq_false, if_false]
        rw [filled, zipped]
        rfl
      · simp only [binary, CorpusOracle.binary, ne_eq, same, not_false_eq_true, if_true]

theorem rotate_eq {a : Slots} (filled : a.length ≠ 0) (distance : Int) :
    rotate a distance = some (some (CorpusOracle.rotate a distance)) := by
  have positive : (0 : Int) < a.length := by exact_mod_cast Nat.pos_of_ne_zero filled
  have lower := Int.lt_tmod_of_pos distance positive
  have sign : 0 ≤ (distance.tmod a.length + a.length).tmod a.length :=
    Int.tmod_nonneg _ (by omega)
  generalize turn : (distance.tmod a.length + a.length).tmod a.length = d at sign
  have turned := @fill_values (fun s => element a ((s + d).tmod a.length))
    (fun s => a.getD ((s + d).tmod a.length).toNat 0) (List.range a.length) (by
    intro s member
    exact element_inside (Int.tmod_nonneg _ (by omega)) (Int.tmod_lt_of_pos _ positive))
  have listed : (List.range a.length).map (fun s : Nat => a.getD ((s + d).tmod a.length).toNat 0) =
      CorpusOracle.rotate a distance := by
    apply List.ext_getElem <;> simp [CorpusOracle.rotate, turn]
  simp only [rotate, if_neg positive.ne', turn]
  rw [turned, listed]
  rfl

theorem length_rotate (a : Slots) (distance : Int) :
    (CorpusOracle.rotate a distance).length = a.length :=
  List.length_ofFn

section Runs

variable {reduce : Int → Int}

/-- The branch that the `switch` takes. -/
inductive Branch (reduce : Int → Int) (inst : FhnInstruction) : Prop
  | unmodeled (requires : required inst.opcode = none)
      (result : ∀ a b, evaluateOpcode reduce inst a b = some none)
  | unary (requires : required inst.opcode = some [0]) (other : inst.opcode ≠ .rotate)
      (fn : Int → Int) (result : ∀ a b, evaluateOpcode reduce inst a b = unary fn a)
  | rotation (requires : required inst.opcode = some [0]) (rotates : inst.opcode = .rotate)
      (result : ∀ a b, evaluateOpcode reduce inst a b = rotate a (inst.params 0))
  | binary (requires : required inst.opcode = some [0, 1]) (other : inst.opcode ≠ .rotate)
      (fn : Int → Int → Int) (result : ∀ a b, evaluateOpcode reduce inst a b = binary fn a b)

theorem branch (reduce : Int → Int) (inst : FhnInstruction) : Branch reduce inst := by
  cases opcode : inst.opcode with
  | addCC | subCC | multCC | eq | lt | le | and | or | xor =>
      exact .binary (by rw [opcode]; rfl) (by rw [opcode]; decide) _ fun a b => by
        rw [evaluateOpcode, opcode]
  | addCS | multCS | subSC | negate =>
      exact .unary (by rw [opcode]; rfl) (by rw [opcode]; decide) _ fun a b => by
        rw [evaluateOpcode, opcode]
  | rotate =>
      exact .rotation (by rw [opcode]; rfl) opcode fun a b => by
        rw [evaluateOpcode, opcode]
  | _ =>
      exact .unmodeled (by rw [opcode]; rfl) fun a b => by
        rw [evaluateOpcode, opcode]

theorem slot_count_none {vals : Table} {id : Nat} (missing : slotCounts vals id = none) :
    vals id = none :=
  Option.map_eq_none_iff.mp missing

theorem slot_count_some {vals : Table} {id : Nat} {a : Slots} (found : vals id = some a) :
    slotCounts vals id = some a.length := by
  rw [slotCounts, found, Option.map_some]

theorem empty_rotation {inst : FhnInstruction} {vals : Table} (rotates : inst.opcode = .rotate)
    (empty : slotCounts vals (inst.operands 0) = some 0) :
    evaluateInstruction reduce inst vals = none := by
  obtain ⟨a, found, length⟩ := Option.map_eq_some_iff.mp empty
  rw [evaluateInstruction, found]
  simp only [evaluateOpcode, rotates, rotate, length, Nat.cast_zero, if_true]

theorem failing_instruction {inst : FhnInstruction} {vals : Table}
    (fails : Fails (slotCounts vals) inst) : evaluateInstruction reduce inst vals = some none := by
  rw [evaluateInstruction]
  cases first : vals (inst.operands 0) with
  | none => rfl
  | some a =>
      have known := slot_count_some first
      cases fails with
      | unmodeled opcode =>
          cases branch reduce inst with
          | unmodeled requires result => exact result a _
          | unary requires => rw [opcode] at requires; cases requires
          | rotation requires => rw [opcode] at requires; cases requires
          | binary requires => rw [opcode] at requires; cases requires
      | undefinedOperand slots opcode slot member missing =>
          cases branch reduce inst with
          | unmodeled requires => rw [opcode] at requires; cases requires
          | unary requires =>
              rw [opcode, Option.some.injEq] at requires
              rw [requires, List.mem_singleton] at member
              rw [member, known] at missing
              cases missing
          | rotation requires =>
              rw [opcode, Option.some.injEq] at requires
              rw [requires, List.mem_singleton] at member
              rw [member, known] at missing
              cases missing
          | binary requires other fn result =>
              rw [opcode, Option.some.injEq] at requires
              rw [requires, List.mem_cons, List.mem_singleton] at member
              rcases member with zero | one
              · rw [zero, known] at missing
                cases missing
              · rw [one] at missing
                simp only [result, slot_count_none missing, binary]
      | mismatched opcode apart =>
          cases branch reduce inst with
          | unmodeled requires => rw [opcode] at requires; cases requires
          | unary requires => rw [opcode] at requires; cases requires
          | rotation requires => rw [opcode] at requires; cases requires
          | binary requires other fn result =>
              simp only [result, binary]
              cases second : vals (inst.operands 1) with
              | none => rfl
              | some b =>
                  rw [known, slot_count_some second, ne_eq, Option.some.injEq] at apart
                  exact if_pos (Ne.symm apart)

theorem passing_instruction {inst : FhnInstruction} {vals : Table}
    (passes : ¬Fails (slotCounts vals) inst)
    (rotates : inst.opcode = .rotate → slotCounts vals (inst.operands 0) ≠ some 0) :
    ∃ out, evaluateInstruction reduce inst vals = some (some out) ∧
      slotCounts vals (inst.operands 0) = some out.length := by
  have operand (slots : List (Fin 4)) (requires : required inst.opcode = some slots)
      (slot : Fin 4) (member : slot ∈ slots) : ∃ a, vals (inst.operands slot) = some a := by
    apply Option.ne_none_iff_exists'.mp
    intro missing
    apply passes
    exact .undefinedOperand slots requires slot member (by
      rw [slotCounts, missing, Option.map_none])
  cases branch reduce inst with
  | unmodeled requires => exact absurd (.unmodeled requires) passes
  | unary requires other fn result =>
      obtain ⟨a, found⟩ := operand [0] requires 0 List.mem_cons_self
      refine ⟨CorpusOracle.unary fn a, ?_, ?_⟩
      · rw [evaluateInstruction, found]
        exact (result a _).trans (unary_eq fn a)
      · rw [slot_count_some found, CorpusOracle.unary, List.length_map]
  | rotation requires opcode result =>
      obtain ⟨a, found⟩ := operand [0] requires 0 List.mem_cons_self
      have filled := rotates opcode
      rw [slot_count_some found, ne_eq, Option.some.injEq] at filled
      refine ⟨CorpusOracle.rotate a (inst.params 0), ?_, ?_⟩
      · rw [evaluateInstruction, found]
        exact (result a _).trans (rotate_eq filled _)
      · rw [slot_count_some found, length_rotate]
  | binary requires other fn result =>
      obtain ⟨a, found⟩ := operand [0, 1] requires 0 List.mem_cons_self
      obtain ⟨b, second⟩ := operand [0, 1] requires 1 (by simp)
      have same : b.length = a.length := by
        by_contra apart
        apply passes
        refine .mismatched requires ?_
        rw [slot_count_some found, slot_count_some second, ne_eq, Option.some.injEq]
        exact Ne.symm apart
      have zipped : CorpusOracle.binary fn a (some b) = some (List.zipWith fn a b) := by
        simp only [CorpusOracle.binary, same, ne_eq, not_true_eq_false, if_false]
      refine ⟨List.zipWith fn a b, ?_, ?_⟩
      · rw [evaluateInstruction, found]
        simp only [result, second]
        rw [binary_eq, zipped]
      · rw [slot_count_some found, List.length_zipWith, same, min_self]

theorem counts_after {inst : FhnInstruction} {vals : Table} {out : Slots}
    (length : slotCounts vals (inst.operands 0) = some out.length) :
    slotCounts (Function.update vals inst.resultId (some out)) =
      countAfter (slotCounts vals) inst := by
  funext id
  rw [countAfter, length]
  by_cases same : id = inst.resultId
  · simp only [slotCounts, same, Function.update_self, Option.map_some]
  · simp only [slotCounts, Function.update_of_ne same]

theorem evaluate_all_cons (step : FhnInstruction → Table → Option (Option Slots))
    (inst : FhnInstruction) (rest : List FhnInstruction) (vals : Table) :
    evaluateAll step (inst :: rest) vals = (do
      let out ← step inst vals
      match out with
      | none => some none
      | some slots => evaluateAll step rest (Function.update vals inst.resultId (some slots))) :=
  rfl

theorem rotates_cons (inst : FhnInstruction) (rest : List FhnInstruction) (counts : Counts) :
    RotatesSlots (inst :: rest) counts ↔
      (inst.opcode = .rotate → counts (inst.operands 0) ≠ some 0) ∧
        (¬Fails counts inst → RotatesSlots rest (countAfter counts inst)) := Iff.rfl

theorem some_fails_cons (inst : FhnInstruction) (rest : List FhnInstruction) (counts : Counts) :
    SomeFails (inst :: rest) counts ↔
      Fails counts inst ∨ SomeFails rest (countAfter counts inst) := Iff.rfl

theorem failing_cons {inst : FhnInstruction} {vals : Table}
    (fails : Fails (slotCounts vals) inst) (rest : List FhnInstruction) :
    evaluateAll (evaluateInstruction reduce) (inst :: rest) vals = some none := by
  rw [evaluate_all_cons, failing_instruction fails]
  rfl

theorem passing_cons {inst : FhnInstruction} {vals : Table}
    (passes : ¬Fails (slotCounts vals) inst)
    (rotates : inst.opcode = .rotate → slotCounts vals (inst.operands 0) ≠ some 0)
    (rest : List FhnInstruction) :
    ∃ out, evaluateAll (evaluateInstruction reduce) (inst :: rest) vals =
        evaluateAll (evaluateInstruction reduce) rest
          (Function.update vals inst.resultId (some out)) ∧
      slotCounts (Function.update vals inst.resultId (some out)) =
        countAfter (slotCounts vals) inst := by
  obtain ⟨out, computed, length⟩ := @passing_instruction reduce inst vals passes rotates
  refine ⟨out, ?_, counts_after length⟩
  rw [evaluate_all_cons, computed]
  rfl

theorem failing_rotates {inst : FhnInstruction} {vals : Table}
    (fails : Fails (slotCounts vals) inst) :
    inst.opcode = .rotate → slotCounts vals (inst.operands 0) ≠ some 0 := by
  intro rotates empty
  have undefinedRun := @empty_rotation id inst vals rotates empty
  rw [failing_instruction fails] at undefinedRun
  cases undefinedRun

theorem evaluate_all_defined_iff (insts : List FhnInstruction) (vals : Table) :
    evaluateAll (evaluateInstruction reduce) insts vals ≠ none ↔
      RotatesSlots insts (slotCounts vals) := by
  induction insts generalizing vals with
  | nil => exact iff_of_true (Option.some_ne_none _) trivial
  | cons inst rest induction =>
      by_cases fails : Fails (slotCounts vals) inst
      · rw [failing_cons fails, rotates_cons]
        exact ⟨fun _ => ⟨failing_rotates fails, fun passes => absurd fails passes⟩,
          fun _ => Option.some_ne_none _⟩
      · by_cases rotates : inst.opcode = .rotate → slotCounts vals (inst.operands 0) ≠ some 0
        · obtain ⟨out, stepped, counts⟩ := @passing_cons reduce inst vals fails rotates rest
          rw [stepped, induction, counts, rotates_cons]
          exact ⟨fun later => ⟨rotates, fun _ => later⟩, fun all => all.2 fails⟩
        · have stopped : evaluateAll (evaluateInstruction reduce) (inst :: rest) vals = none := by
            push Not at rotates
            rw [evaluate_all_cons, empty_rotation rotates.1 rotates.2]
            rfl
          rw [stopped, rotates_cons]
          exact ⟨fun some => absurd rfl some, fun all => absurd all.1 rotates⟩

theorem evaluate_all_fails_iff (insts : List FhnInstruction) (vals : Table)
    (rotates : RotatesSlots insts (slotCounts vals)) :
    evaluateAll (evaluateInstruction reduce) insts vals = some none ↔
      SomeFails insts (slotCounts vals) := by
  induction insts generalizing vals with
  | nil => exact iff_of_false (by rintro ⟨⟩) not_false
  | cons inst rest induction =>
      by_cases fails : Fails (slotCounts vals) inst
      · rw [failing_cons fails, some_fails_cons]
        exact ⟨fun _ => Or.inl fails, fun _ => rfl⟩
      · obtain ⟨out, stepped, counts⟩ := @passing_cons reduce inst vals fails rotates.1 rest
        rw [stepped, induction _ (by rw [counts]; exact rotates.2 fails), counts,
          some_fails_cons]
        exact ⟨Or.inr, fun some => some.resolve_left fails⟩

theorem evaluate_all_values (insts : List FhnInstruction) (vals table : Table)
    (computed : evaluateAll (evaluateInstruction reduce) insts vals = some (some table)) (id : Nat)
    (known : vals id ≠ none ∨ id ∈ insts.map (·.resultId)) : table id ≠ none := by
  induction insts generalizing vals with
  | nil =>
      obtain rfl : vals = table := Option.some.inj (Option.some.inj computed)
      simpa using known
  | cons inst rest induction =>
      have rotates := ((@evaluate_all_defined_iff reduce (inst :: rest) vals).mp
        (by rw [computed]; exact Option.some_ne_none _)).1
      by_cases fails : Fails (slotCounts vals) inst
      · rw [failing_cons fails] at computed
        cases computed
      · obtain ⟨out, stepped, -⟩ := @passing_cons reduce inst vals fails rotates rest
        rw [stepped] at computed
        apply induction _ computed
        by_cases same : id = inst.resultId
        · left
          rw [same, Function.update_self]
          exact Option.some_ne_none _
        · rw [Function.update_of_ne same]
          rcases known with before | result
          · exact Or.inl before
          · rw [List.map_cons, List.mem_cons] at result
            exact Or.inr (result.resolve_left same)

theorem machine_instruction {inst : FhnInstruction} {vals : Table}
    (rotates : inst.opcode = .rotate → slotCounts vals (inst.operands 0) ≠ some 0) :
    evaluateInstruction i64 inst vals = some (CorpusOracle.evaluateInstruction inst vals) := by
  rw [evaluateInstruction, CorpusOracle.evaluateInstruction]
  cases found : vals (inst.operands 0) with
  | none => rfl
  | some a =>
      rw [slot_count_some found, ne_eq, Option.some.injEq] at rotates
      cases opcode : inst.opcode with
      | rotate =>
          simp only [evaluateOpcode, CorpusOracle.evaluateOpcode, opcode]
          exact rotate_eq (rotates opcode) _
      | addCS | multCS | subSC | negate =>
          simp only [evaluateOpcode, CorpusOracle.evaluateOpcode, opcode]
          exact unary_eq _ a
      | addCC | subCC | multCC | eq | lt | le | and | or | xor =>
          simp only [evaluateOpcode, CorpusOracle.evaluateOpcode, opcode]
          exact binary_eq _ a _
      | _ => simp only [evaluateOpcode, CorpusOracle.evaluateOpcode, opcode]

/-- On `int64_t` slots and where it is defined, this is the oracle. -/
theorem machine_evaluation (insts : List FhnInstruction) (vals : Table)
    (rotates : RotatesSlots insts (slotCounts vals)) :
    evaluateAll (evaluateInstruction i64) insts vals =
      some (CorpusOracle.evaluateAll insts vals) := by
  induction insts generalizing vals with
  | nil => rfl
  | cons inst rest induction =>
      have machine := machine_instruction rotates.1
      by_cases fails : Fails (slotCounts vals) inst
      · rw [failing_instruction fails, Option.some.injEq] at machine
        rw [failing_cons fails, CorpusOracle.evaluateAll, ← machine]
      · obtain ⟨out, computed, length⟩ := @passing_instruction i64 inst vals fails rotates.1
        rw [computed, Option.some.injEq] at machine
        rw [evaluate_all_cons, computed, CorpusOracle.evaluateAll, ← machine]
        exact induction _ (by rw [counts_after length]; exact rotates.2 fails)

/-- The oracle keeps its contract exactly where no rotation meets an empty vector. -/
theorem oracle_total_iff (reduce : Int → Int) (program : FhnProgram) (inputs : Table) :
    Total program inputs (evaluate reduce program inputs) ↔
      RotatesSlots program.instructions (slotCounts inputs) := by
  constructor
  · intro total
    exact (evaluate_all_defined_iff _ _).mp total.defined
  · intro rotates
    refine ⟨(evaluate_all_defined_iff _ _).mpr rotates, evaluate_all_fails_iff _ _ rotates, ?_⟩
    intro table computed id known
    exact evaluate_all_values _ _ _ computed id known

def rotateNothing : FhnProgram where
  instructions := [{ opcode := .rotate, resultId := 2, operands := ![1, 0, 0, 0] }]
  inputIds := [1]
  outputIds := [2]

theorem empty_rotation_undefined :
    evaluate id rotateNothing (fun input => if input = 1 then some [] else none) = none ∧
      ¬Total rotateNothing (fun input => if input = 1 then some [] else none)
        (evaluate id rotateNothing (fun input => if input = 1 then some [] else none)) := by
  have stopped :
      evaluate id rotateNothing (fun input => if input = 1 then some [] else none) = none := by
    decide
  exact ⟨stopped, fun total => total.defined stopped⟩

end Runs

end Fhenomenon.OracleTotality
