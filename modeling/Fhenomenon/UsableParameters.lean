import Fhenomenon.CheckedEngine

/-!
# Parameters that an engine can use

`Engine::initialize` compares the moduli and the scale. What the engine needs of its
parameters is more: a plaintext modulus with room for a key, residues whose sums fit
`int64_t`, and a noise bound below half of `delta`.
-/

namespace Fhenomenon.UsableParameters

open Fhenomenon.Lib.MachineInt Fhenomenon.Lib.Rounding
open Fhenomenon.ToyFhe hiding initializeEngine mod mulMod centeredMod generateKeys
open Fhenomenon.ToyFheNoise Fhenomenon.CheckedEngine

/-- `initialize` throws nothing. -/
def Accepted (params : Parameters) : Prop :=
  ∀ message, initializeEngine params ≠ some (.error message)

/-- An engine with a key from the range that `generateKeys` draws from. -/
structure Keyed (params : Parameters) (engine : Engine) : Prop where
  configured : engine.params = params
  lower : 1 ≤ engine.secretKey
  upper : engine.secretKey ≤ params.t - 1

/-- Nothing that the engine does with accepted parameters is undefined, and a fresh
encryption decrypts to the centred representative. -/
structure Usable (params : Parameters) : Prop where
  initializes : initializeEngine params = some (.ok params)
  keys : ∀ (ρ : Type) (draw : Int → Int → ρ → Int × ρ) rng, generateKeys draw params rng ≠ none
  masks : ∀ engine, Keyed params engine → ∀ (ρ : Type) (draw : Int → Int → ρ → Int × ρ) rng,
    sampleUniform draw engine rng ≠ none
  noises : ∀ engine, Keyed params engine → ∀ (ρ : Type) (draw : Int → Int → ρ → Int × ρ) rng,
    sampleNoise draw engine rng ≠ none
  scaled : ∀ engine, Keyed params engine → ∃ quotient, delta engine = some quotient ∧ 1 ≤ quotient
  encodes : ∀ engine, Keyed params engine → ∀ (ρ : Type) (draw : Int → Int → ρ → Int × ρ),
    DrawsInRange draw → ∀ value, 0 ≤ value → value < params.q → ∀ encoding scalePower rng,
      encodeRaw draw engine value encoding scalePower rng ≠ none
  reduces : ∀ value, 0 ≤ value → value < params.q →
    mod value params.q ≠ none ∧ centeredMod value params.q ≠ none
  adds : ∀ engine, Keyed params engine → ∀ lhs rhs, Reduced engine lhs → Reduced engine rhs →
    add engine lhs rhs ≠ none
  decodes : ∀ engine, Keyed params engine → ∀ cipher, Reduced engine cipher →
    decodeRaw engine cipher ≠ none
  decrypts : ∀ engine, Keyed params engine → ∀ (ρ : Type) (draw : Int → Int → ρ → Int × ρ),
    DrawsInRange draw → ∀ rng value, Fits 64 value → ∃ cipher plain,
      encryptInt draw engine value rng = some cipher ∧ decryptInt engine cipher.1 = some plain ∧
        plain ≡ value [ZMOD params.t] ∧ -params.t < 2 * plain ∧ 2 * plain ≤ params.t

/-- The relations that `initialize` does not check. -/
structure Sized (params : Parameters) : Prop where
  plain : 2 ≤ params.t
  modulus : params.q ≤ 2 ^ 62
  noise : 0 ≤ params.noiseBound
  budget : 2 * params.noiseBound < params.q / params.t

theorem accepted_divides {params : Parameters} (accepted : Accepted params)
    (plain : 2 ≤ params.t) (modulus : params.q ≤ 2 ^ 62) :
    params.t < params.q ∧ params.t ∣ params.q ∧
      initializeEngine params = some (.ok params) := by
  unfold Accepted at accepted
  by_cases order : params.q ≤ params.t
  · unfold initializeEngine at accepted
    rw [if_pos order] at accepted
    exact absurd rfl (accepted _)
  · have positive : 0 < params.t := by omega
    have fits : Fits 64 params.q := by
      constructor <;> norm_num <;> omega
    have unfolded : initializeEngine params =
        if params.q.tmod params.t ≠ 0 then
          some (.error
            "ToyFHE: ciphertext modulus q must be a multiple of plaintext modulus t")
        else if params.scale ≤ 1 then some (.error "ToyFHE: scale must be greater than 1")
        else some (.ok params) := by
      unfold initializeEngine
      rw [if_neg order, remainder_pos fits positive]
      rfl
    rw [unfolded] at accepted ⊢
    by_cases divides : params.q.tmod params.t ≠ 0
    · rw [if_pos divides] at accepted
      exact absurd rfl (accepted _)
    · rw [if_neg divides] at accepted ⊢
      by_cases scale : params.scale ≤ 1
      · rw [if_pos scale] at accepted
        exact absurd rfl (accepted _)
      · rw [if_neg scale]
        push Not at order divides
        exact ⟨order, Int.dvd_of_tmod_eq_zero divides, rfl⟩

theorem sized_bounded {params : Parameters} (sized : Sized params) (order : params.t < params.q)
    (divides : params.t ∣ params.q) {engine : Engine} (keyed : Keyed params engine) :
    Bounded engine ∧ 2 * engine.params.noiseBound < engine.delta := by
  obtain ⟨plain, modulus, noise, budget⟩ := sized
  have quotient : engine.delta = params.q / params.t := by
    unfold Engine.delta
    rw [keyed.configured]
    exact Int.tdiv_eq_ediv_of_nonneg (by omega)
  have small : params.q / params.t ≤ params.q := Int.ediv_le_self _ (by omega)
  refine ⟨⟨⟨?_, ?_, ?_, ?_, ?_⟩, ?_, ?_⟩, ?_⟩
  · rw [keyed.configured]
    exact plain
  · rw [keyed.configured]
    exact divides
  · rw [keyed.configured]
    omega
  · rw [keyed.configured]
    exact modulus
  · rw [keyed.configured]
    exact noise
  · have lower := keyed.lower
    have upper := keyed.upper
    constructor <;> norm_num <;> omega
  · rw [keyed.configured]
    omega
  · rw [quotient, keyed.configured]
    exact budget

theorem sized_usable {params : Parameters} (accepted : Accepted params) (sized : Sized params)
    (scale : Fits 64 params.scale) : Usable params := by
  obtain ⟨order, divides, initializes⟩ := accepted_divides accepted sized.plain sized.modulus
  have plain := sized.plain
  have modulus := sized.modulus
  have bounded (engine : Engine) (keyed : Keyed params engine) :=
    (sized_bounded sized order divides keyed).1
  constructor
  case initializes => exact initializes
  case keys =>
    intro ρ draw rng
    have fits : Fits 64 (params.t - 1) := by
      constructor <;> norm_num <;> omega
    have room : (1 : Int) ≤ params.t - 1 := by omega
    simp only [generateKeys, exact_of_fits fits, uniform, if_pos room, Option.bind_eq_bind,
      Option.bind_some]
    exact Option.some_ne_none _
  case masks =>
    intro engine keyed ρ draw rng
    have fits : Fits 64 (engine.params.q - 1) := by
      rw [keyed.configured]
      constructor <;> norm_num <;> omega
    have room : (0 : Int) ≤ engine.params.q - 1 := by
      rw [keyed.configured]
      omega
    simp only [sampleUniform, exact_of_fits fits, uniform, if_pos room, Option.bind_eq_bind,
      Option.bind_some]
    exact Option.some_ne_none _
  case noises =>
    intro engine keyed ρ draw rng
    have lower := (bounded engine keyed).admissible.noise
    have upper := (bounded engine keyed).fresh
    have fits : Fits 64 (-engine.params.noiseBound) := by
      constructor <;> norm_num <;> omega
    have room : -engine.params.noiseBound ≤ engine.params.noiseBound := by omega
    simp only [sampleNoise, exact_of_fits fits, uniform, if_pos room, Option.bind_eq_bind,
      Option.bind_some]
    exact Option.some_ne_none _
  case scaled =>
    intro engine keyed
    exact ⟨_, delta_defined (bounded engine keyed),
      (delta_mul (bounded engine keyed).admissible).2⟩
  case encodes =>
    intro engine keyed ρ draw draws value lower upper encoding scalePower rng
    rw [← keyed.configured] at upper
    rw [encode_raw_defined (bounded engine keyed) draws lower upper]
    exact Option.some_ne_none _
  case reduces =>
    intro value lower upper
    have fits : Fits 64 value := by
      constructor <;> norm_num <;> omega
    rw [mod_defined fits (by omega) modulus, centered_mod_defined fits (by omega) modulus]
    exact ⟨Option.some_ne_none _, Option.some_ne_none _⟩
  case adds =>
    intro engine keyed lhs rhs left right
    rw [← keyed.configured] at scale
    rw [add_defined (bounded engine keyed) scale left.signed right.signed]
    exact Option.some_ne_none _
  case decodes =>
    intro engine keyed cipher reduced
    rw [decode_raw_defined (bounded engine keyed) reduced.signed]
    exact Option.some_ne_none _
  case decrypts =>
    intro engine keyed ρ draw draws rng value fits
    obtain ⟨ready, small⟩ := sized_bounded sized order divides keyed
    have budget : (engine.params.noiseBound : Rat) < engine.delta / 2 := by
      have cast : 2 * (engine.params.noiseBound : Rat) < engine.delta := by exact_mod_cast small
      linarith
    have encrypts := (encrypt_int_spec ready.admissible draws budget value rng).carries
    have decrypted := decrypt_int_spec ready.admissible encrypts budget
    rw [keyed.configured] at decrypted
    exact ⟨_, _, encrypt_encoded_defined ready draws fits .integer 0 rng,
      decrypt_int_defined ready encrypts.signed, decrypted⟩

def spikeDraw (noise low high : Int) (rng : Unit) : Int × Unit :=
  (max low (min high (if low = 0 then 0 else noise)), rng)

theorem spike_in_range (noise : Int) : DrawsInRange (spikeDraw noise) := by
  intro low high rng order
  exact ⟨le_max_left _ _, max_le order (min_le_left _ _)⟩

def unitEngine (params : Parameters) : Engine where
  params := params
  secretKey := 1

theorem unit_engine_params (params : Parameters) : (unitEngine params).params = params := rfl

theorem unit_engine_key (params : Parameters) : (unitEngine params).secretKey = 1 := rfl

section Spike

variable {params : Parameters} {noise : Int}

structure Spikes (params : Parameters) (noise : Int) : Prop where
  plain : 2 ≤ params.t
  order : params.t < params.q
  modulus : params.q ≤ 2 ^ 62
  lowest : Fits 64 (-params.noiseBound)
  positive : 0 < noise
  drawn : noise ≤ params.noiseBound
  residue : noise < params.q

theorem mod_small {value modulus : Int} (bounded : modulus ≤ 2 ^ 62) (lower : 0 ≤ value)
    (upper : value < modulus) : mod value modulus = some value := by
  have fits : Fits 64 value := by
    constructor <;> norm_num <;> omega
  rw [mod_defined fits (by omega) bounded, mod_eq_emod _ (by omega), Int.emod_eq_of_lt lower upper]

theorem mul_mod_zero {lhs rhs modulus : Int} (positive : 0 < modulus) (bounded : modulus ≤ 2 ^ 62)
    (left : Fits 64 lhs) (right : Fits 64 rhs) (zero : lhs * rhs = 0) :
    mulMod lhs rhs modulus = some 0 := by
  rw [mul_mod_defined left right positive bounded, ToyFhe.mulMod, zero, mod_eq_emod _ positive,
    Int.zero_emod]

theorem unit_delta (spikes : Spikes params noise) :
    delta (unitEngine params) = some (params.q.tdiv params.t) := by
  have plain := spikes.plain
  have order := spikes.order
  have modulus := spikes.modulus
  have fits : Fits 64 params.q := by
    constructor <;> norm_num <;> omega
  have positive : 0 < params.t := by omega
  exact quotient_pos fits positive

theorem quotient_range (spikes : Spikes params noise) :
    1 ≤ params.q.tdiv params.t ∧ params.q.tdiv params.t ≤ params.q := by
  have plain := spikes.plain
  have order := spikes.order
  rw [Int.tdiv_eq_ediv_of_nonneg (by omega)]
  exact ⟨(Int.le_ediv_iff_mul_le (by omega)).mpr (by omega), Int.ediv_le_self _ (by omega)⟩

theorem spiked_encryption (spikes : Spikes params noise) :
    encryptInt (spikeDraw noise) (unitEngine params) 0 () =
      some ({ c0 := noise, c1 := 0, scalePower := 0, encoding := .integer }, ()) := by
  have delta := unit_delta spikes
  obtain ⟨deltaLower, deltaUpper⟩ := quotient_range spikes
  obtain ⟨plain, order, modulus, lowest, positive, drawn, residue⟩ := spikes
  have zeroFits : Fits 64 0 := by decide
  have oneFits : Fits 64 1 := by decide
  have noiseFits : Fits 64 noise := by
    constructor <;> norm_num <;> omega
  have deltaFits : Fits 64 (params.q.tdiv params.t) := by
    constructor <;> norm_num <;> omega
  have plainZero : mod 0 params.t = some 0 := mod_small (by omega) (le_refl 0) (by omega)
  have scaledZero : mulMod (params.q.tdiv params.t) 0 params.q = some 0 :=
    mul_mod_zero (by omega) modulus deltaFits zeroFits (mul_zero _)
  have maskZero : sampleUniform (spikeDraw noise) (unitEngine params) () = some (0, ()) := by
    have fits : Fits 64 (params.q - 1) := by
      constructor <;> norm_num <;> omega
    have room : (0 : Int) ≤ params.q - 1 := by omega
    simp only [sampleUniform, unit_engine_params, exact_of_fits fits, uniform, if_pos room,
      spikeDraw, if_true, min_eq_right room, max_self, Option.bind_eq_bind, Option.bind_some]
  have noiseDrawn :
      sampleNoise (spikeDraw noise) (unitEngine params) () = some (noise, ()) := by
    have room : -params.noiseBound ≤ params.noiseBound := by omega
    have apart : ¬-params.noiseBound = 0 := by omega
    have above : -params.noiseBound ≤ noise := by omega
    simp only [sampleNoise, unit_engine_params, exact_of_fits lowest, uniform, if_pos room,
      spikeDraw, if_neg apart, min_eq_right drawn, max_eq_right above, Option.bind_eq_bind,
      Option.bind_some]
  have secretZero : mulMod 0 1 params.q = some 0 :=
    mul_mod_zero (by omega) modulus zeroFits oneFits (zero_mul _)
  have reduced : mod noise params.q = some noise := mod_small modulus positive.le residue
  have raw : encodeRaw (spikeDraw noise) (unitEngine params) 0 .integer 0 () =
      some ({ c0 := noise, c1 := 0, scalePower := 0, encoding := .integer }, ()) := by
    simp only [encodeRaw, maskZero, noiseDrawn, Option.bind_eq_bind, Option.bind_some,
      unit_engine_params, unit_engine_key, secretZero, sub_self, exact_of_fits zeroFits, zero_add,
      exact_of_fits noiseFits, reduced]
  simp only [encryptInt, encryptEncoded, unit_engine_params, plainZero, delta, scaledZero,
    Option.bind_eq_bind, Option.bind_some]
  exact raw

/-- Half of `delta`, rounded up, decrypts to one. -/
theorem spiked_decryption (spikes : Spikes params noise)
    (half : noise = (params.q.tdiv params.t + 1) / 2) :
    decryptInt (unitEngine params)
      { c0 := noise, c1 := 0, scalePower := 0, encoding := .integer } = some 1 := by
  have delta := unit_delta spikes
  obtain ⟨deltaLower, deltaUpper⟩ := quotient_range spikes
  obtain ⟨plain, order, modulus, lowest, positive, drawn, residue⟩ := spikes
  have zeroFits : Fits 64 0 := by decide
  have oneFits : Fits 64 1 := by decide
  have noiseFits : Fits 64 noise := by
    constructor <;> norm_num <;> omega
  have secretZero : mulMod 0 1 params.q = some 0 :=
    mul_mod_zero (by omega) modulus zeroFits oneFits (zero_mul _)
  have reduced : mod noise params.q = some noise := mod_small modulus positive.le residue
  have rounded : llround ((noise : Rat) / (params.q.tdiv params.t : Int)) = 1 := by
    have doubleLower : params.q.tdiv params.t ≤ 2 * noise := by omega
    have doubleUpper : 2 * noise ≤ params.q.tdiv params.t + 1 := by omega
    generalize params.q.tdiv params.t = quotient at *
    have positiveCast : (0 : Rat) < quotient := by exact_mod_cast deltaLower
    have lowerCast : (quotient : Rat) ≤ 2 * noise := by exact_mod_cast doubleLower
    have upperCast : 2 * (noise : Rat) ≤ quotient + 1 := by exact_mod_cast doubleUpper
    have unitCast : (1 : Rat) ≤ quotient := by exact_mod_cast deltaLower
    have sign : (0 : Rat) ≤ noise / quotient := div_nonneg (by linarith) positiveCast.le
    unfold llround
    rw [if_pos sign, Int.floor_eq_iff]
    constructor
    · have below : (1 : Rat) / 2 ≤ noise / quotient := by
        rw [le_div_iff₀ positiveCast]
        linarith
      push_cast
      linarith
    · have above : (noise : Rat) / quotient < 3 / 2 := by
        rw [div_lt_iff₀ positiveCast]
        linarith
      push_cast
      linarith
  have centred : centeredMod 1 params.t = some 1 := by
    have less : ¬1 > params.t.tdiv 2 := by
      rw [Int.tdiv_eq_ediv_of_nonneg (by omega)]
      omega
    have small : mod 1 params.t = some 1 := mod_small (by omega) (by decide) (by omega)
    simp only [centeredMod, small, Option.bind_eq_bind, Option.bind_some, if_neg less]
  have nonzero : ¬params.q.tdiv params.t = 0 := by omega
  simp only [decryptInt, decodeRaw, unit_engine_params, unit_engine_key, secretZero, add_zero,
    exact_of_fits noiseFits, reduced, delta, Option.bind_eq_bind, Option.bind_some, if_neg nonzero,
    rounded, exact_of_fits oneFits, centred]

end Spike

theorem uniform_room {ρ : Type} {draw : Int → Int → ρ → Int × ρ} {low high : Int} {rng : ρ}
    (defined : uniform draw low high rng ≠ none) : low ≤ high := by
  by_contra empty
  apply defined
  unfold uniform
  exact if_neg empty

theorem usable_order {params : Parameters} (usable : Usable params) : params.t < params.q := by
  by_contra order
  have initializes := usable.initializes
  unfold initializeEngine at initializes
  rw [if_pos (by omega)] at initializes
  cases initializes

theorem usable_plain {params : Parameters} (usable : Usable params) : 2 ≤ params.t := by
  have defined := usable.keys Unit (spikeDraw 0) ()
  obtain ⟨high, fits, drawn⟩ := bind_defined defined
  obtain ⟨secret, room, -⟩ := bind_defined drawn
  have least := uniform_room (by rw [room]; exact Option.some_ne_none _ :
    uniform (spikeDraw 0) 1 high () ≠ none)
  have top := (exact_eq_some.mp fits).2
  omega

theorem unit_engine_keyed {params : Parameters} (plain : 2 ≤ params.t) :
    Keyed params (unitEngine params) :=
  ⟨rfl, le_refl 1, by rw [unit_engine_key]; omega⟩

theorem usable_modulus {params : Parameters} (usable : Usable params) :
    params.q ≤ 2 ^ 62 := by
  have plain := usable_plain usable
  have order := usable_order usable
  have reduced : Reduced (unitEngine params) { c0 := params.q - 1 } := by
    constructor <;> simp only [unit_engine_params] <;> omega
  have defined := usable.adds _ (unit_engine_keyed plain) { c0 := params.q - 1 }
    { c0 := params.q - 1 } reduced reduced
  -- ciphertexts of one scale power need no alignment
  obtain ⟨first, summed, -⟩ := bind_defined defined
  have upper := (exact_eq_some.mp summed).1.2
  norm_num at upper
  omega

theorem usable_noise {params : Parameters} (usable : Usable params) :
    Fits 64 (-params.noiseBound) ∧ 0 ≤ params.noiseBound := by
  have defined := usable.noises _ (unit_engine_keyed (usable_plain usable)) Unit (spikeDraw 0) ()
  obtain ⟨low, fits, drawn⟩ := bind_defined defined
  have room := uniform_room drawn
  obtain ⟨lowest, same⟩ := exact_eq_some.mp fits
  rw [unit_engine_params] at room same lowest
  exact ⟨lowest, by omega⟩

/-- With a larger noise, zero can be encrypted and decrypted as one. -/
theorem usable_budget {params : Parameters} (usable : Usable params) :
    2 * params.noiseBound < params.q / params.t := by
  have plain := usable_plain usable
  have order := usable_order usable
  have modulus := usable_modulus usable
  obtain ⟨lowest, sign⟩ := usable_noise usable
  have truncated : params.q.tdiv params.t = params.q / params.t :=
    Int.tdiv_eq_ediv_of_nonneg (by omega)
  have atLeast : 1 ≤ params.q / params.t := (Int.le_ediv_iff_mul_le (by omega)).mpr (by omega)
  have atMost : params.q / params.t ≤ params.q := Int.ediv_le_self _ (by omega)
  by_contra large
  have spikes : Spikes params ((params.q.tdiv params.t + 1) / 2) := by
    rw [truncated]
    exact ⟨plain, order, modulus, lowest, by omega, by omega, by omega⟩
  obtain ⟨cipher, decrypted, encrypted, result, congruent, -, -⟩ := usable.decrypts _
    (unit_engine_keyed plain) Unit _ (spike_in_range ((params.q.tdiv params.t + 1) / 2)) () 0
    (by decide)
  rw [spiked_encryption spikes, Option.some.injEq] at encrypted
  rw [← encrypted, spiked_decryption spikes rfl, Option.some.injEq] at result
  rw [← result] at congruent
  have divides : params.t ∣ 1 := by
    have difference := congruent.symm.dvd
    rwa [sub_zero] at difference
  have small := Int.le_of_dvd (by decide) divides
  omega

theorem usable_sized {params : Parameters} (usable : Usable params) : Sized params where
  plain := usable_plain usable
  modulus := usable_modulus usable
  noise := (usable_noise usable).2
  budget := usable_budget usable

/-- Accepted parameters can be used exactly when the unchecked relations hold as well. -/
theorem usable_iff_sized (params : Parameters) (accepted : Accepted params)
    (scale : Fits 64 params.scale) : Usable params ↔ Sized params :=
  ⟨usable_sized, fun sized => sized_usable accepted sized scale⟩

theorem accepted_of_ok {params : Parameters} (ok : initializeEngine params = some (.ok params)) :
    Accepted params := by
  intro message
  rw [ok]
  exact fun same => by cases same

theorem default_parameters_usable : Usable {} :=
  (usable_iff_sized {} (accepted_of_ok rfl) (by decide)).mpr (by constructor <;> decide)

/-- A plaintext modulus of one leaves no key, one of zero is divided by, and a noise
bound of half of `delta` loses the message. -/
theorem unchecked_relations :
    (Accepted { t := 1 } ∧ ¬Usable { t := 1 }) ∧
      (Accepted { t := 0 } ∧ initializeEngine { t := 0 } = none ∧ ¬Usable { t := 0 }) ∧
      Accepted { noiseBound := 2 ^ 25 } ∧ ¬Usable { noiseBound := 2 ^ 25 } := by
  have undefinedCheck : initializeEngine { t := 0 } = none := rfl
  refine ⟨⟨accepted_of_ok rfl, ?_⟩, ⟨?_, undefinedCheck, ?_⟩, accepted_of_ok rfl, ?_⟩
  · intro usable
    exact absurd (usable_plain usable) (by decide)
  · intro message
    rw [undefinedCheck]
    exact fun same => by cases same
  · intro usable
    exact absurd (usable_plain usable) (by decide)
  · intro usable
    exact absurd (usable_budget usable) (by decide)

end Fhenomenon.UsableParameters
