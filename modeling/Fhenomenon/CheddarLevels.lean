import Fhenomenon.LevelInference
import Fhenomenon.DefaultExecutor
import Fhenomenon.Lib.MachineInt

/-!
# LEVEL_DOWN on the Cheddar backend

`cheddar_level_down` checks its target level after converting `params[0]` to an
`int`; the planner checks the 64-bit parameter. Cheddar itself is a parameter:
the level of a ciphertext, and the call that lowers it.
-/

namespace Fhenomenon.CheddarLevels

open Fhenomenon.Lib.MachineInt
open Fhenomenon.InstructionStream Fhenomenon.MovementPlanner Fhenomenon.DefaultExecutor
open Fhenomenon.LevelInference

inductive CheddarBufKind
  | empty | ciphertext | plaintext | message
deriving DecidableEq, Repr

structure FhnBuffer (Ct : Type*) where
  kind : CheddarBufKind := .empty
  ct : Ct

/-- What the kernel uses of cheddar. -/
structure Cheddar (Ct Np : Type*) where
  getNp : Ct → Np
  npToLevel : Np → Int
  levelDown : Ct → Int → Ct

def Cheddar.level {Ct Np : Type*} (cheddar : Cheddar Ct Np) (ct : Ct) : Int :=
  cheddar.npToLevel (cheddar.getNp ct)

/-- Levels are `int` values, and `LevelDown` sets the level it is asked for. -/
structure Documented {Ct Np : Type*} (cheddar : Cheddar Ct Np) : Prop where
  reports : ∀ ct, Fits 32 (cheddar.level ct)
  sets : ∀ ct target, 0 ≤ target → target ≤ cheddar.level ct →
    cheddar.level (cheddar.levelDown ct target) = target

/-- `lowered` lists the targets that `LevelDown` was called with. -/
structure World (Ptr Ct : Type*) where
  heap : Ptr → FhnBuffer Ct
  lowered : List Int := []
  faulted : Bool := false

variable {Ptr Ct Np : Type*} [DecidableEq Ptr]

def isCiphertext (world : World Ptr Ct) (buf : Option Ptr) : Bool :=
  match buf with
  | none => false
  | some buffer => decide ((world.heap buffer).kind = .ciphertext)

def cheddarLevelDown (cheddar : Cheddar Ct Np) : FhnKernelFn Ptr (World Ptr Ct) :=
  fun result operands params _ world =>
    match operands 0 with
    | none => (-1, world)
    | some source =>
        if !isCiphertext world (some source) then (-1, world)
        else
          let ct := (world.heap source).ct
          let targetLevel := wrap 32 (params 0)
          let currentLevel := cheddar.npToLevel (cheddar.getNp ct)
          if targetLevel < 0 ∨ targetLevel > currentLevel then (-1, world)
          else
            match result with
            | none => (-1, { world with faulted := true })
            | some buffer =>
                (0, { world with
                  heap := Function.update world.heap buffer
                    { kind := .ciphertext, ct := cheddar.levelDown ct targetLevel }
                  lowered := world.lowered ++ [targetLevel] })

/-- `FHN_LEVEL_DOWN` of one operand, declared with `FHN_LEVEL_SET_PARAM0`. -/
structure LowersLevel (model : FhnLevelModel) (inst : FhnInstruction) (operand : Nat) : Prop where
  opcode : inst.opcode = .levelDown
  effect : model.effects .levelDown = some .setParam0
  used : inst.usedOperands = [operand]

/-- The kernel and the planner agree on an instruction whose operand is the
ciphertext in `source`, at the level that the planner has for it. -/
structure RulesAgree (cheddar : Cheddar Ct Np) (model : FhnLevelModel)
    (levelOf : Nat → Option Int) (inst : FhnInstruction) (operands : Fin 4 → Option Ptr)
    (source result : Ptr) (world : World Ptr Ct) : Prop where
  kernel : (cheddarLevelDown cheddar (some result) operands inst.params inst.fparams world).1 = 0 ↔
    0 ≤ inst.params 0 ∧ inst.params 0 ≤ cheddar.level (world.heap source).ct
  planner : (∃ level, resultLevel model levelOf inst = some level) ↔
    0 ≤ inst.params 0 ∧ inst.params 0 ≤ cheddar.level (world.heap source).ct
  level :
    (cheddarLevelDown cheddar (some result) operands inst.params inst.fparams world).1 = 0 →
      let lowered := (cheddarLevelDown cheddar (some result) operands inst.params inst.fparams
        world).2
      lowered.lowered = world.lowered ++ [inst.params 0] ∧
        cheddar.level (lowered.heap result).ct = inst.params 0 ∧
        resultLevel model levelOf inst = some (inst.params 0)

theorem kernel_accepts (cheddar : Cheddar Ct Np) {operands : Fin 4 → Option Ptr}
    {source : Ptr} {world : World Ptr Ct} (operand : operands 0 = some source)
    (kind : (world.heap source).kind = .ciphertext) (result : Ptr) (params : Fin 4 → Int)
    (fparams : Fin 2 → Rat) :
    cheddarLevelDown cheddar (some result) operands params fparams world =
      if 0 ≤ wrap 32 (params 0) ∧ wrap 32 (params 0) ≤ cheddar.level (world.heap source).ct then
        (0, { world with
          heap := Function.update world.heap result
            { kind := .ciphertext
              ct := cheddar.levelDown (world.heap source).ct (wrap 32 (params 0)) }
          lowered := world.lowered ++ [wrap 32 (params 0)] })
      else (-1, world) := by
  have reported : cheddar.npToLevel (cheddar.getNp (world.heap source).ct) =
      cheddar.level (world.heap source).ct := rfl
  simp only [cheddarLevelDown, operand, isCiphertext, kind, decide_true, Bool.not_true,
    Bool.false_eq_true, if_false, reported]
  by_cases accepted : 0 ≤ wrap 32 (params 0) ∧
      wrap 32 (params 0) ≤ cheddar.level (world.heap source).ct
  · rw [if_pos accepted, if_neg (by omega)]
  · rw [if_neg accepted, if_pos (by omega)]

theorem planner_accepts {model : FhnLevelModel} {levelOf : Nat → Option Int}
    {inst : FhnInstruction} {operand : Nat} {level : Int} (lowers : LowersLevel model inst operand)
    (known : levelOf operand = some level) (declared : level ≤ model.freshLevel) :
    resultLevel model levelOf inst =
      if 0 ≤ inst.params 0 ∧ inst.params 0 ≤ level then some (inst.params 0) else none := by
  have floor : minOperandLevel model levelOf inst = level := by
    rw [minOperandLevel, lowers.used, List.foldl_cons, List.foldl_nil, known, Option.getD_some,
      min_eq_right declared]
  simp only [resultLevel, floor, lowers.opcode, lowers.effect]
  by_cases accepted : 0 ≤ inst.params 0 ∧ inst.params 0 ≤ level
  · have fits : ¬(inst.params 0 < 0 ∨ inst.params 0 > model.freshLevel) := by omega
    rw [if_neg (by omega), if_pos accepted]
    exact if_neg fits
  · rw [if_neg accepted]
    by_cases high : inst.params 0 > level
    · rw [if_pos high]
    · rw [if_neg high]
      exact if_pos (by omega)

/-- The rules agree exactly when the conversion to `int` keeps the parameter, or
moves it out of the range of levels. -/
theorem level_down_rules_agree_iff (cheddar : Cheddar Ct Np) (documented : Documented cheddar)
    (model : FhnLevelModel) (levelOf : Nat → Option Int) (inst : FhnInstruction)
    (operands : Fin 4 → Option Ptr) (source result : Ptr) (world : World Ptr Ct) (operand : Nat)
    (lowers : LowersLevel model inst operand) (placed : operands 0 = some source)
    (kind : (world.heap source).kind = .ciphertext)
    (known : levelOf operand = some (cheddar.level (world.heap source).ct))
    (declared : cheddar.level (world.heap source).ct ≤ model.freshLevel) :
    RulesAgree cheddar model levelOf inst operands source result world ↔
      Fits 32 (inst.params 0) ∨
        ¬(0 ≤ wrap 32 (inst.params 0) ∧
          wrap 32 (inst.params 0) ≤ cheddar.level (world.heap source).ct) := by
  have kernel := kernel_accepts cheddar placed kind result inst.params inst.fparams
  have planner := planner_accepts lowers known declared
  have small := documented.reports (world.heap source).ct
  have inRange : 0 ≤ inst.params 0 ∧ inst.params 0 ≤ cheddar.level (world.heap source).ct →
      Fits 32 (inst.params 0) := by
    rintro ⟨lower, upper⟩
    exact ⟨by norm_num; omega, lt_of_le_of_lt upper small.2⟩
  have plannerAccepts : (∃ level, resultLevel model levelOf inst = some level) ↔
      0 ≤ inst.params 0 ∧ inst.params 0 ≤ cheddar.level (world.heap source).ct := by
    rw [planner]
    split_ifs with accepted <;> simp [accepted]
  constructor
  · intro agree
    by_contra neither
    push Not at neither
    obtain ⟨wide, accepted⟩ := neither
    have returned := agree.kernel
    rw [kernel, if_pos accepted] at returned
    exact wide (inRange (returned.mp rfl))
  · rintro (fits | outside)
    · have same : wrap 32 (inst.params 0) = inst.params 0 := wrap_of_fits (by decide) fits
      rw [same] at kernel
      refine ⟨?_, plannerAccepts, ?_⟩
      · rw [kernel]
        split_ifs with accepted <;> simp [accepted]
      · rw [kernel]
        split_ifs with accepted
        · intro _
          refine ⟨rfl, ?_, ?_⟩
          · simp only [Function.update_self]
            exact documented.sets _ _ accepted.1 accepted.2
          · rw [planner, if_pos accepted]
        · intro impossible
          cases impossible
    · have refused : ¬(0 ≤ inst.params 0 ∧
          inst.params 0 ≤ cheddar.level (world.heap source).ct) := by
        intro accepted
        have same := wrap_of_fits (by decide) (inRange accepted)
        rw [same] at outside
        exact outside accepted
      rw [if_neg outside] at kernel
      refine ⟨?_, plannerAccepts, ?_⟩
      · rw [kernel]
        simp [refused]
      · rw [kernel]
        intro impossible
        cases impossible

/-- Ciphertexts are their levels, up to seven. -/
def shallow : Cheddar Nat Nat where
  getNp ct := ct
  npToLevel np := (min np 7 : Nat)
  levelDown _ target := target.toNat

theorem shallow_documented : Documented shallow := by
  constructor
  · intro ct
    constructor <;> simp only [Cheddar.level, shallow] <;> norm_num
  · intro ct target lower upper
    simp only [Cheddar.level, shallow] at upper ⊢
    omega

def shallowModel : FhnLevelModel where
  freshLevel := 3
  bytesByLevel := [10, 20, 30, 40]
  effects opcode := if opcode = .levelDown then some .setParam0 else none

def lowerTo (target : Int) : FhnInstruction where
  opcode := .levelDown
  resultId := 2
  operands := ![1, 0, 0, 0]
  params := ![target, 0, 0, 0]

def shallowWorld : World Nat Nat where
  heap buffer := if buffer = 1 then { kind := .ciphertext, ct := 3 } else { ct := 0 }

theorem lower_to_lowers (target : Int) : LowersLevel shallowModel (lowerTo target) 1 :=
  ⟨rfl, rfl, rfl⟩

theorem lower_to_one_agrees :
    RulesAgree shallow shallowModel (fun _ => some 3) (lowerTo 1) ![some 1, none, none, none] 1 2
      shallowWorld :=
  (level_down_rules_agree_iff shallow shallow_documented shallowModel (fun _ => some 3) (lowerTo 1)
    ![some 1, none, none, none] 1 2 shallowWorld 1 (lower_to_lowers 1) rfl rfl rfl
    (by decide)).mpr (Or.inl (by decide))

/-- `2 ^ 32 + 1` becomes level one instead of an error. -/
theorem wide_target_is_lowered :
    Documented shallow ∧ Fits 64 ((lowerTo (2 ^ 32 + 1)).params 0) ∧
      LowersLevel shallowModel (lowerTo (2 ^ 32 + 1)) 1 ∧
      resultLevel shallowModel (fun _ => some 3) (lowerTo (2 ^ 32 + 1)) = none ∧
      (cheddarLevelDown shallow (some 2) ![some 1, none, none, none]
        (lowerTo (2 ^ 32 + 1)).params ![0, 0] shallowWorld).1 = 0 ∧
      (cheddarLevelDown shallow (some 2) ![some 1, none, none, none]
        (lowerTo (2 ^ 32 + 1)).params ![0, 0] shallowWorld).2.lowered = [1] ∧
      ¬RulesAgree shallow shallowModel (fun _ => some 3) (lowerTo (2 ^ 32 + 1))
        ![some 1, none, none, none] 1 2 shallowWorld := by
  have accepted : (cheddarLevelDown shallow (some 2) ![some 1, none, none, none]
      (lowerTo (2 ^ 32 + 1)).params (lowerTo (2 ^ 32 + 1)).fparams shallowWorld).1 = 0 := by
    decide +kernel
  have outside : ¬(0 ≤ (lowerTo (2 ^ 32 + 1)).params 0 ∧
      (lowerTo (2 ^ 32 + 1)).params 0 ≤ shallow.level (shallowWorld.heap 1).ct) := by
    decide +kernel
  refine ⟨shallow_documented, by decide, lower_to_lowers _, ?_, ?_, ?_, ?_⟩
  · decide +kernel
  · decide +kernel
  · decide +kernel
  · intro agree
    exact outside (agree.kernel.mp accepted)

end Fhenomenon.CheddarLevels
