import LearningOS.Lib.Word
import LearningOS.Lib.Dyadic
import Mathlib.Data.Nat.Log

/-!
# `Utility.Math` — `utility/math.h` and the page constants of `mm.h`

The rounding and masking helpers the memory manager computes with, as the header defines them on `size_t`
(a `Nat` below `2 ^ 64`), and one lemma per helper that says what it computes.
-/

namespace LearningOS

open Word

/-- `PAGE_ORDER`. -/
abbrev pageOrder : Nat := 12

/-- `PAGE_SIZE`. -/
abbrev pageSize : Nat := 0x1000

/-- `MASK_FOR_FIRST_N_BITS(n)`, for `n < 64`. -/
def maskForFirstNBits (n : Nat) : Nat := 2 ^ n - 1

/-- `round_up_shift_right`. -/
def roundUpShiftRight (x shift : Nat) : Nat :=
  let shifted := x >>> shift
  if x &&& maskForFirstNBits shift ≠ 0 then shifted + 1 else shifted

/-- `bit_order`: `__builtin_clz` of a non-zero `u32_t` is `31 - log2 x`. -/
def bitOrder (x : Nat) : Nat :=
  let leadingZeros := 31 - Nat.log2 x
  let order := 31 - leadingZeros
  if x = 2 ^ order then order else order + 1

/-- `trunc_n_bits`. -/
def truncNBits (x n : Nat) : Nat := x &&& not64 (maskForFirstNBits n)

theorem truncNBits_eq {x n : Nat} (hx : x < 2 ^ 64) (hn : n < 64) :
    truncNBits x n = x / 2 ^ n * 2 ^ n := and_not64_mask hx hn

theorem roundUpShiftRight_eq (x shift : Nat) :
    roundUpShiftRight x shift = (x + 2 ^ shift - 1) / 2 ^ shift := by
  have hpos : 0 < 2 ^ shift := Nat.two_pow_pos shift
  have hdm := Nat.div_add_mod x (2 ^ shift)
  have hlt := Nat.mod_lt x hpos
  simp only [roundUpShiftRight, maskForFirstNBits, and_mask, Nat.shiftRight_eq_div_pow, ne_eq]
  by_cases hm : x % 2 ^ shift = 0
  · rw [if_neg (not_not.mpr hm)]
    have he : x + 2 ^ shift - 1 = 2 ^ shift * (x / 2 ^ shift) + (2 ^ shift - 1) := by omega
    have hz : (2 ^ shift - 1) / 2 ^ shift = 0 := Nat.div_eq_of_lt (by omega)
    rw [he, Nat.mul_add_div hpos, hz, Nat.add_zero]
  · rw [if_pos hm]
    have he : x + 2 ^ shift - 1 = 2 ^ shift * (x / 2 ^ shift + 1) + (x % 2 ^ shift - 1) := by
      rw [Nat.mul_add, Nat.mul_one]
      omega
    have hz : (x % 2 ^ shift - 1) / 2 ^ shift = 0 := Nat.div_eq_of_lt (by omega)
    rw [he, Nat.mul_add_div hpos, hz, Nat.add_zero]

/-- **`bit_order` is the least order whose block holds `x` pages.** -/
theorem bitOrder_spec {x : Nat} (h0 : 0 < x) (h32 : x < 2 ^ 32) :
    x ≤ 2 ^ bitOrder x ∧ (0 < bitOrder x → 2 ^ (bitOrder x - 1) < x) := by
  have hlo : 2 ^ Nat.log2 x ≤ x := Nat.log2_self_le h0.ne'
  have hhi : x < 2 ^ (Nat.log2 x + 1) := Nat.lt_log2_self
  have hlog : Nat.log2 x < 32 := (Nat.pow_lt_pow_iff_right (by decide)).mp (lt_of_le_of_lt hlo h32)
  have hz : 31 - (31 - Nat.log2 x) = Nat.log2 x := by omega
  simp only [bitOrder, hz]
  by_cases he : x = 2 ^ Nat.log2 x
  · rw [if_pos he]
    refine ⟨he.le, fun hpos => ?_⟩
    have : 2 ^ (Nat.log2 x - 1) < 2 ^ Nat.log2 x := Nat.pow_lt_pow_right (by decide) (by omega)
    omega
  · rw [if_neg he]
    refine ⟨hhi.le, fun _ => ?_⟩
    rw [Nat.add_sub_cancel]
    omega

end LearningOS
