import FileProcessing.Lib.Json
import Mathlib.Data.Int.Log
import Mathlib.Data.Rat.Floor
import Mathlib.Tactic.Linarith
import Mathlib.Tactic.NormNum
import Mathlib.Tactic.Positivity

/-!
# Double precision

The double nearest to a rational, with 53 bits of precision, ties to even, and beyond the range infinite; and what the operators of
JavaScript make of two doubles. Integers up to `2 ^ 53` are doubles, and what is beyond `2 ^ 53` stays beyond.
-/

/-- The integer nearest to a rational, the even one of two. -/
def roundEven (x : ℚ) : ℤ :=
  if x - ⌊x⌋ < 1 / 2 then ⌊x⌋
  else if 1 / 2 < x - ⌊x⌋ then ⌊x⌋ + 1
  else if ⌊x⌋ % 2 = 0 then ⌊x⌋ else ⌊x⌋ + 1

/-- The exponent of the last bit a double keeps of a rational. -/
def quantumExponent (x : ℚ) : ℤ := max (Int.log 2 |x| - 52) (-1074)

namespace JsNumber

/-- The double nearest to a rational. -/
def round (x : ℚ) : JsNumber :=
  let rounded : ℚ := roundEven (x / 2 ^ quantumExponent x) * 2 ^ quantumExponent x
  if |rounded| < 2 ^ 1024 then .finite rounded else .infinite (x < 0)

/-- `x * y`; `none` is `NaN`. -/
def mul : JsNumber → JsNumber → Option JsNumber
  | .finite x, .finite y => some (round (x * y))
  | .infinite s, .finite y | .finite y, .infinite s => if y = 0 then none else some (.infinite (s ^^ decide (y < 0)))
  | .infinite s, .infinite t => some (.infinite (s ^^ t))

/-- `x + y`; `none` is `NaN`. -/
def add : JsNumber → JsNumber → Option JsNumber
  | .finite x, .finite y => some (round (x + y))
  | .infinite s, .finite _ | .finite _, .infinite s => some (.infinite s)
  | .infinite s, .infinite t => if s = t then some (.infinite s) else none

/-- `x < y`. -/
def lt : JsNumber → JsNumber → Bool
  | .finite x, .finite y => x < y
  | .infinite s, .finite _ => s
  | .finite _, .infinite t => !t
  | .infinite s, .infinite t => s && !t

end JsNumber

/-! ## Rounding to an integer -/

theorem roundEven_intCast (z : ℤ) : roundEven (z : ℚ) = z := by
  have hfloor : (z : ℚ) - ⌊(z : ℚ)⌋ < 1 / 2 := by
    rw [Int.floor_intCast, sub_self]
    norm_num
  rw [roundEven, if_pos hfloor, Int.floor_intCast]

/-- What is at least an integer is rounded to at least that integer. -/
theorem le_roundEven {z : ℤ} {x : ℚ} (h : (z : ℚ) ≤ x) : z ≤ roundEven x := by
  have hfloor : z ≤ ⌊x⌋ := Int.le_floor.mpr h
  unfold roundEven
  split_ifs <;> omega

/-! ## Rounding to a double -/

namespace JsNumber

/-- An integer of at most 53 bits is a multiple of the last bit that is kept of it. -/
theorem intCast_div_quantum {z : ℤ} (hz : |z| ≤ 2 ^ 53) : ∃ m : ℤ, (z : ℚ) / 2 ^ quantumExponent z = m := by
  have hcast : |(z : ℚ)| ≤ 2 ^ (53 : ℤ) := by exact_mod_cast hz
  by_cases hexp : quantumExponent z ≤ 0
  · obtain ⟨k, hk⟩ := Int.eq_ofNat_of_zero_le (neg_nonneg.mpr hexp)
    refine ⟨z * 2 ^ k, ?_⟩
    have hpow : quantumExponent z = -(k : ℤ) := by omega
    rw [hpow, zpow_neg, zpow_natCast, div_inv_eq_mul]
    push_cast
    rfl
  · -- Beyond 53 bits there is only `2 ^ 53`, and its last bit is zero.
    have hlog : 53 ≤ Int.log 2 |(z : ℚ)| := by
      unfold quantumExponent at hexp
      omega
    have hpos : 0 < |(z : ℚ)| := by
      by_contra hneg
      rw [Int.log_of_right_le_zero 2 (not_lt.mp hneg)] at hlog
      omega
    have hge : (2 : ℚ) ^ (53 : ℤ) ≤ |(z : ℚ)| := (zpow_le_zpow_right₀ one_le_two hlog).trans (by
      exact_mod_cast Int.zpow_log_le_self one_lt_two hpos)
    have heq : |(z : ℚ)| = 2 ^ (53 : ℤ) := le_antisymm hcast hge
    have hexp1 : quantumExponent (z : ℚ) = 1 := by
      have hpow := Int.log_zpow (R := ℚ) (b := 2) one_lt_two 53
      rw [Nat.cast_ofNat] at hpow
      rw [quantumExponent, heq, hpow]
      norm_num
    have habs : |z| = 2 ^ 53 := by exact_mod_cast heq
    rcases abs_eq (by positivity : (0 : ℤ) ≤ 2 ^ 53) |>.mp habs with rfl | rfl
    · exact ⟨2 ^ 52, by rw [hexp1]; norm_num⟩
    · exact ⟨-2 ^ 52, by rw [hexp1]; norm_num⟩

/-- An integer of at most 53 bits is a double. -/
theorem round_intCast {z : ℤ} (hz : |z| ≤ 2 ^ 53) : round z = .finite z := by
  obtain ⟨m, hm⟩ := intCast_div_quantum hz
  have hquantum : (2 : ℚ) ^ quantumExponent z ≠ 0 := (zpow_pos two_pos _).ne'
  have hrounded : (roundEven ((z : ℚ) / 2 ^ quantumExponent z) : ℚ) * 2 ^ quantumExponent z = z := by
    rw [hm, roundEven_intCast, ← hm, div_mul_cancel₀ _ hquantum]
  have hrange : |(z : ℚ)| < 2 ^ 1024 := by
    have hcast : |(z : ℚ)| ≤ 2 ^ 53 := by exact_mod_cast hz
    exact hcast.trans_lt (pow_lt_pow_right₀ one_lt_two (by norm_num))
  simp only [round, hrounded, if_pos hrange]

/-- The number is at least `2 ^ 53`. -/
def Huge : JsNumber → Prop
  | .finite x => 2 ^ 53 ≤ x
  | .infinite negative => negative = false

/-- What is at least `2 ^ 53` stays so. -/
theorem huge_round {x : ℚ} (h : 2 ^ 53 ≤ x) : (round x).Huge := by
  have hpos : 0 < x := lt_of_lt_of_le (by positivity) h
  have hlog : 53 ≤ Int.log 2 x := by
    rw [← Int.zpow_le_iff_le_log one_lt_two hpos]
    exact_mod_cast h
  have hexp : quantumExponent x = Int.log 2 x - 52 := by
    rw [quantumExponent, abs_of_pos hpos]
    omega
  have hquantum : (0 : ℚ) < 2 ^ quantumExponent x := zpow_pos two_pos _
  have hmant : ((2 ^ 52 : ℤ) : ℚ) ≤ x / 2 ^ quantumExponent x := by
    rw [le_div_iff₀ hquantum, hexp]
    have hcast : ((2 ^ 52 : ℤ) : ℚ) = 2 ^ (52 : ℤ) := by norm_num
    rw [hcast, ← zpow_add₀ two_ne_zero, add_sub_cancel]
    exact_mod_cast Int.zpow_log_le_self one_lt_two hpos
  have hround : ((2 ^ 52 : ℤ) : ℚ) ≤ (roundEven (x / 2 ^ quantumExponent x) : ℚ) := by exact_mod_cast le_roundEven hmant
  have hone : (2 : ℚ) ≤ 2 ^ quantumExponent x := by
    have hexp1 : (1 : ℤ) ≤ quantumExponent x := by omega
    have hpow := zpow_le_zpow_right₀ (one_le_two (α := ℚ)) hexp1
    rwa [zpow_one] at hpow
  have hprod : (2 : ℚ) ^ 53 ≤ roundEven (x / 2 ^ quantumExponent x) * 2 ^ quantumExponent x := by
    have hmul := mul_le_mul hround hone (by norm_num) (le_trans (by norm_num) hround)
    norm_num at hmul ⊢
    exact hmul
  simp only [round]
  split
  · exact hprod
  · exact decide_eq_false (not_lt.mpr hpos.le)

/-- No number of at most 53 bits is above one that is huge. -/
theorem lt_finite_of_huge {n : JsNumber} (h : n.Huge) {y : ℚ} (hy : y ≤ 2 ^ 53) : n.lt (.finite y) = false := by
  cases n with
  | finite x => exact decide_eq_false (not_lt.mpr (le_trans hy h))
  | infinite negative => exact h

end JsNumber
