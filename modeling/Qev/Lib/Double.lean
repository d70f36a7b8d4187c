import Mathlib.Algebra.Order.Field.Power
import Mathlib.Data.Int.Log
import Mathlib.Data.Rat.Floor
import Mathlib.Tactic.FieldSimp
import Mathlib.Tactic.Linarith
import Mathlib.Tactic.NormNum
import Mathlib.Tactic.Positivity
import Mathlib.Tactic.Ring

/-! Double precision numbers. The bits below the sign of a finite one, read as a
number, order the magnitudes: an exponent of eleven bits and a fraction of 52. -/

namespace Qev

inductive Double where
  | nan
  | infinity (negative : Bool)
  | finite (negative : Bool) (bits : Fin (2047 * 2 ^ 52))
  deriving DecidableEq, Repr

namespace Double

/-- The exponent field, which starts at one for numbers with no leading bit. -/
def field (bits : Nat) : Nat := max 1 (bits / 2 ^ 52)

def mantissa (bits : Nat) : Nat := bits - (field bits - 1) * 2 ^ 52

def magnitude (bits : Nat) : ℚ := mantissa bits * 2 ^ ((field bits : ℤ) - 1075)

/-- The nearest integer, the even one where two are equally near. -/
def roundHalfEven (q : ℚ) : ℤ :=
  if q - ⌊q⌋ < 1 / 2 then ⌊q⌋
  else if 1 / 2 < q - ⌊q⌋ then ⌊q⌋ + 1
  else ⌊q⌋ + ⌊q⌋ % 2

/-- The exponent of the leading bit, from that of the smallest normal number on. -/
def leading (q : ℚ) : ℤ := if q < 2 ^ (-1022 : ℤ) then -1022 else Int.log 2 q

/-- The bits of the magnitude nearest to `q`. A mantissa that is rounded up to
the next power of two carries over into the exponent field. -/
def nearest (q : ℚ) : Nat :=
  (leading q + 1022).toNat * 2 ^ 52 + (roundHalfEven (q / 2 ^ (leading q - 52))).toNat

/-- `q` rounded, with the given sign. -/
def ofMagnitude (negative : Bool) (q : ℚ) : Double :=
  if h : nearest q < 2047 * 2 ^ 52 then .finite negative ⟨nearest q, h⟩ else .infinity negative

def ofNat (n : Nat) : Double := ofMagnitude false n

def value (negative : Bool) (bits : Nat) : ℚ :=
  if negative then -magnitude bits else magnitude bits

/-- `x < q`, which is false where `x` is no number. -/
def lt (x : Double) (q : ℚ) : Bool :=
  match x with
  | nan => false
  | infinity negative => negative
  | finite negative bits => value negative bits < q

/-- `x > q`. -/
def gt (x : Double) (q : ℚ) : Bool :=
  match x with
  | nan => false
  | infinity negative => !negative
  | finite negative bits => q < value negative bits

@[simp] theorem roundHalfEven_natCast (n : Nat) : roundHalfEven n = n := by
  simp [roundHalfEven]

theorem bits_eq (bits : Nat) : (field bits - 1) * 2 ^ 52 + mantissa bits = bits := by
  have below : (field bits - 1) * 2 ^ 52 ≤ bits := by
    simp only [field]
    omega
  rw [mantissa]
  omega

theorem leading_magnitude (bits : Nat) : leading (magnitude bits) = (field bits : ℤ) - 1023 := by
  have two : (2 : ℚ) ≠ 0 := by norm_num
  by_cases small : bits < 2 ^ 52
  · have one : field bits = 1 := by
      simp only [field]
      omega
    have same : mantissa bits = bits := by simp [mantissa, one]
    have below : magnitude bits < 2 ^ (-1022 : ℤ) := by
      rw [magnitude, same, one]
      calc (bits : ℚ) * 2 ^ (((1 : Nat) : ℤ) - 1075)
          < 2 ^ 52 * 2 ^ (((1 : Nat) : ℤ) - 1075) := by
            apply mul_lt_mul_of_pos_right _ (by positivity)
            exact_mod_cast small
        _ = 2 ^ (-1022 : ℤ) := by
            rw [← zpow_natCast, ← zpow_add₀ two]
            norm_num
    rw [leading, if_pos below, one]
    norm_num
  · have least : 1 ≤ field bits := le_max_left _ _
    have lower : 2 ^ 52 ≤ mantissa bits := by
      simp only [mantissa, field]
      omega
    have upper : mantissa bits < 2 ^ 53 := by
      simp only [mantissa, field]
      omega
    have scale : (0 : ℚ) < 2 ^ ((field bits : ℤ) - 1075) := by positivity
    have from_below : (2 : ℚ) ^ ((field bits : ℤ) - 1023) ≤ magnitude bits := by
      calc (2 : ℚ) ^ ((field bits : ℤ) - 1023)
          = 2 ^ 52 * 2 ^ ((field bits : ℤ) - 1075) := by
            rw [← zpow_natCast, ← zpow_add₀ two]
            congr 1
            push_cast
            ring
        _ ≤ magnitude bits := by
            apply mul_le_mul_of_nonneg_right _ scale.le
            exact_mod_cast lower
    have from_above : magnitude bits < (2 : ℚ) ^ ((field bits : ℤ) - 1022) := by
      calc magnitude bits
          < 2 ^ 53 * 2 ^ ((field bits : ℤ) - 1075) := by
            apply mul_lt_mul_of_pos_right _ scale
            exact_mod_cast upper
        _ = (2 : ℚ) ^ ((field bits : ℤ) - 1022) := by
            rw [← zpow_natCast, ← zpow_add₀ two]
            congr 1
            push_cast
            ring
    have positive : 0 < magnitude bits := lt_of_lt_of_le (by positivity) from_below
    have normal : ¬ magnitude bits < 2 ^ (-1022 : ℤ) := by
      rw [not_lt]
      refine le_trans (zpow_le_zpow_right₀ (by norm_num) ?_) from_below
      omega
    rw [leading, if_neg normal]
    apply le_antisymm
    · have bound : Int.log 2 (magnitude bits) < (field bits : ℤ) - 1022 := by
        rw [← Int.lt_zpow_iff_log_lt Nat.one_lt_two positive]
        exact from_above
      omega
    · rw [← Int.zpow_le_iff_le_log Nat.one_lt_two positive]
      exact from_below

/-- A number that is representable is not moved. -/
theorem nearest_magnitude (bits : Nat) : nearest (magnitude bits) = bits := by
  have least : 1 ≤ field bits := le_max_left _ _
  have unscaled : magnitude bits / 2 ^ ((field bits : ℤ) - 1023 - 52) = mantissa bits := by
    have scale : (2 : ℚ) ^ ((field bits : ℤ) - 1075) ≠ 0 := by positivity
    rw [show (field bits : ℤ) - 1023 - 52 = (field bits : ℤ) - 1075 by ring, magnitude,
      mul_div_cancel_right₀ _ scale]
  rw [nearest, leading_magnitude, unscaled, roundHalfEven_natCast, Int.toNat_natCast]
  have whole := bits_eq bits
  have shift : ((field bits : ℤ) - 1023 + 1022).toNat = field bits - 1 := by omega
  rw [shift]
  exact whole

theorem ofMagnitude_magnitude (negative : Bool) (bits : Fin (2047 * 2 ^ 52)) :
    ofMagnitude negative (magnitude bits) = .finite negative bits := by
  have back := nearest_magnitude bits.val
  simp only [ofMagnitude, back, bits.isLt, ↓reduceDIte]

theorem magnitude_pos {bits : Nat} (h : 0 < bits) : 0 < magnitude bits := by
  have some_bit : 0 < mantissa bits := by
    have whole := bits_eq bits
    by_contra none
    have zero : mantissa bits = 0 := by omega
    simp only [mantissa, field] at zero whole
    omega
  rw [magnitude]
  positivity

end Double

end Qev
