import Mathlib.Algebra.Order.Field.Power
import Mathlib.Data.Int.Log
import Mathlib.Data.Rat.Floor
import Mathlib.Tactic.Linarith
import Mathlib.Tactic.Positivity

-- Floating-point arithmetic where every exponent is in range: the exact result of an operation is
-- rounded to a number of significant bits.
namespace Rounding

variable {p : ℕ} {a q x : ℚ} {n : ℤ}

-- Of two integers that are equally near, the even one is taken.
def nearestEven (q : ℚ) : ℤ :=
  if q - ⌊q⌋ < 1 / 2 then ⌊q⌋
  else if 1 / 2 < q - ⌊q⌋ then ⌊q⌋ + 1
  else if ⌊q⌋ % 2 = 0 then ⌊q⌋ else ⌊q⌋ + 1

theorem nearestEven_intCast : nearestEven (n : ℚ) = n := by
  rw [nearestEven, Int.floor_intCast, sub_self, if_pos one_half_pos]

theorem abs_nearestEven_sub_le : |nearestEven q - q| ≤ 1 / 2 := by
  have hl : (⌊q⌋ : ℚ) ≤ q := Int.floor_le q
  have hg : q < ⌊q⌋ + 1 := Int.lt_floor_add_one q
  rw [nearestEven, abs_le]
  split_ifs <;> push_cast <;> constructor <;> linarith

-- What the last of the significant bits of a number is worth.
def lastBit (p : ℕ) (x : ℚ) : ℚ := 2 ^ (Int.log 2 |x| + 1 - p)

theorem lastBit_pos : 0 < lastBit p x := by
  rw [lastBit]
  positivity

theorem lastBit_le (h : x ≠ 0) : lastBit p x ≤ 2 * (|x| / 2 ^ p) := by
  have hl : (2 : ℚ) ^ Int.log 2 |x| ≤ |x| :=
    mod_cast Int.zpow_log_le_self (Nat.lt_succ_self 1) (abs_pos.mpr h)
  calc lastBit p x
      = 2 * (2 ^ Int.log 2 |x| / 2 ^ p) := by
        rw [lastBit, zpow_sub₀ two_ne_zero, zpow_add₀ two_ne_zero, zpow_one, zpow_natCast]
        ring
    _ ≤ 2 * (|x| / 2 ^ p) := by gcongr

def round (p : ℕ) (x : ℚ) : ℚ := nearestEven (x / lastBit p x) * lastBit p x

-- The result is off by at most half of the last bit.
theorem abs_round_sub_le : |round p x - x| ≤ |x| / 2 ^ p := by
  by_cases h : x = 0
  case pos =>
    rw [h, round, zero_div, ← Int.cast_zero, nearestEven_intCast]
    simp
  case neg =>
    have hp : 0 < lastBit p x := lastBit_pos
    have hd : round p x - x = (nearestEven (x / lastBit p x) - x / lastBit p x) * lastBit p x := by
      rw [sub_mul, div_mul_cancel₀ _ hp.ne', round]
    calc |round p x - x|
        = |nearestEven (x / lastBit p x) - x / lastBit p x| * lastBit p x := by
          rw [hd, abs_mul, abs_of_pos hp]
      _ ≤ 1 / 2 * lastBit p x := by
          gcongr
          exact abs_nearestEven_sub_le
      _ ≤ |x| / 2 ^ p := by linarith [lastBit_le (p := p) h]

-- A product with a rounded factor, rounded itself.
theorem abs_round_mul_round_sub_le :
    |round p (a * round p x) - a * x| ≤ 3 * (|a * x| / 2 ^ p) := by
  have hx : |a * round p x - a * x| ≤ |a * x| / 2 ^ p := by
    rw [← mul_sub, abs_mul, abs_mul, mul_div_assoc]
    exact mul_le_mul_of_nonneg_left abs_round_sub_le (abs_nonneg a)
  have hl : |a * round p x| ≤ 2 * |a * x| := by
    have hs : |a * x| / 2 ^ p ≤ |a * x| := div_le_self (abs_nonneg _) (one_le_pow₀ one_le_two)
    linarith [abs_sub_abs_le_abs_sub (a * round p x) (a * x)]
  have hr : |round p (a * round p x) - a * round p x| ≤ 2 * (|a * x| / 2 ^ p) :=
    calc |round p (a * round p x) - a * round p x|
        ≤ |a * round p x| / 2 ^ p := abs_round_sub_le
      _ ≤ 2 * |a * x| / 2 ^ p     := by gcongr
      _ = 2 * (|a * x| / 2 ^ p)   := mul_div_assoc ..
  linarith [abs_sub_le (round p (a * round p x)) (a * round p x) (a * x)]

-- An integer that fits into the significant bits stays as it is.
theorem round_intCast (h : |n| < 2 ^ p) : round p n = n := by
  have hp : 0 < lastBit p (n : ℚ) := lastBit_pos
  by_cases hz : n = 0
  case pos =>
    subst hz
    simpa using abs_round_sub_le (p := p) (x := 0)
  case neg =>
    have hl : ((2 : ℕ) : ℚ) ^ Int.log 2 |(n : ℚ)| ≤ |(n : ℚ)| :=
      Int.zpow_log_le_self (Nat.lt_succ_self 1) <| abs_pos.mpr <| Int.cast_ne_zero.mpr hz
    have hb : (2 : ℚ) ^ Int.log 2 |(n : ℚ)| < 2 ^ p := hl.trans_lt <| mod_cast h
    rw [← zpow_natCast, zpow_lt_zpow_iff_right₀ one_lt_two] at hb
    obtain ⟨k, hk⟩ := Int.eq_ofNat_of_zero_le (sub_nonneg.mpr <| Int.add_one_le_of_lt hb)
    have he : (n : ℚ) / lastBit p n = (n * 2 ^ k : ℤ) := by
      rw [lastBit, ← neg_sub, hk, zpow_neg, div_inv_eq_mul, zpow_natCast]
      push_cast
      rfl
    rw [round, he, nearestEven_intCast, ← he, div_mul_cancel₀ _ hp.ne']

end Rounding
