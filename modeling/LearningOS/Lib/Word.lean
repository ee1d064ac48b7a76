import Mathlib.Data.Nat.Bitwise
import Mathlib.Tactic.Ring

/-!
# `Lib.Word` — machine words as natural numbers

Fixed-width C arithmetic on `Nat`, the wrap-around written out: `add64`/`sub64`/`shl64`/`not64` are the
`unsigned long` operators, `addW`/`subW`/`notW` those of a narrower type, `sll1` is the `int` expression `1 << k` with the shift count taken mod 32 as x86
does. The lemmas say when an operation does not wrap and what masking with a run of low bits keeps.
-/

namespace Word

/-- `a + b` on 64-bit words. -/
def add64 (a b : Nat) : Nat := (a + b) % 2 ^ 64

/-- `a - b` on 64-bit words. -/
def sub64 (a b : Nat) : Nat := (a + 2 ^ 64 - b % 2 ^ 64) % 2 ^ 64

/-- `a << k` on 64-bit words. -/
def shl64 (a k : Nat) : Nat := (a <<< k) % 2 ^ 64

/-- `~a` on 64-bit words. -/
def not64 (a : Nat) : Nat := 2 ^ 64 - 1 - a % 2 ^ 64

/-- `a + b` on words of `w` bits. -/
def addW (w a b : Nat) : Nat := (a + b) % 2 ^ w

/-- `a - b` on words of `w` bits. -/
def subW (w a b : Nat) : Nat := (a + 2 ^ w - b % 2 ^ w) % 2 ^ w

/-- `~a` on words of `w` bits. -/
def notW (w a : Nat) : Nat := 2 ^ w - 1 - a % 2 ^ w

/-- The difference of two pointers, a signed 64-bit number. -/
def ptrDiff (p q : Nat) : Int := if sub64 p q < 2 ^ 63 then sub64 p q else (sub64 p q : Int) - 2 ^ 64

/-- The signed `int` value of `1 << k`, with the count taken mod 32. -/
def sll1 (k : Nat) : Int := if k % 32 = 31 then -(2 ^ 31) else 2 ^ (k % 32)

/-! ## Wrap-around -/

theorem add64_of_lt {a b : Nat} (h : a + b < 2 ^ 64) : add64 a b = a + b := Nat.mod_eq_of_lt h

theorem sub64_of_le {a b : Nat} (ha : a < 2 ^ 64) (hb : b ≤ a) : sub64 a b = a - b := by
  unfold sub64
  omega

theorem shl64_of_lt {a k : Nat} (h : a * 2 ^ k < 2 ^ 64) : shl64 a k = a * 2 ^ k := by
  unfold shl64
  rw [Nat.shiftLeft_eq]
  exact Nat.mod_eq_of_lt h

/-- Subtracting what was added gives the other summand back, whatever wrapped. -/
theorem sub64_add64 {a b : Nat} (hb : b < 2 ^ 64) : sub64 (add64 a b) a = b := by
  unfold sub64 add64
  omega

theorem add64_lt (a b : Nat) : add64 a b < 2 ^ 64 := Nat.mod_lt _ (by decide)

theorem sub64_lt (a b : Nat) : sub64 a b < 2 ^ 64 := Nat.mod_lt _ (by decide)

theorem addW_of_lt {w a b : Nat} (h : a + b < 2 ^ w) : addW w a b = a + b := Nat.mod_eq_of_lt h

theorem subW_of_le {w a b : Nat} (ha : a < 2 ^ w) (hb : b ≤ a) : subW w a b = a - b := by
  unfold subW
  rw [Nat.mod_eq_of_lt (Nat.lt_of_le_of_lt hb ha)]
  have he : a + 2 ^ w - b = a - b + 2 ^ w := by omega
  rw [he, Nat.add_mod_right]
  exact Nat.mod_eq_of_lt (by omega)

/-- Counting up keeps a counter the remainder of what it counts. -/
theorem addW_mod (w a b : Nat) : addW w (a % 2 ^ w) b = (a + b) % 2 ^ w := Nat.mod_add_mod a (2 ^ w) b

/-- So does counting down by one. -/
theorem subW_one_mod {w a : Nat} (hw : 0 < w) : subW w ((a + 1) % 2 ^ w) 1 = a % 2 ^ w := by
  have hone : 1 % 2 ^ w = 1 := Nat.mod_eq_of_lt (Nat.one_lt_two_pow hw.ne')
  have hpos : 1 ≤ 2 ^ w := Nat.one_le_two_pow
  have he : (a + 1) % 2 ^ w + 2 ^ w - 1 = (a + 1) % 2 ^ w + (2 ^ w - 1) := by omega
  unfold subW
  rw [hone, he, Nat.mod_add_mod]
  have he' : a + 1 + (2 ^ w - 1) = a + 2 ^ w := by omega
  rw [he', Nat.add_mod_right]

theorem ptrDiff_of_le {p q : Nat} (hp : p < 2 ^ 64) (hq : q ≤ p) (hd : p - q < 2 ^ 63) :
    ptrDiff p q = ((p - q : Nat) : Int) := by
  unfold ptrDiff
  rw [sub64_of_le hp hq, if_pos hd]

/-! ## `1 << k` -/

theorem sll1_of_lt {k : Nat} (h : k < 31) : sll1 k = ((2 ^ k : Nat) : Int) := by
  have hk : k % 32 = k := Nat.mod_eq_of_lt (by omega)
  unfold sll1
  rw [hk, if_neg (by omega)]
  push_cast
  rfl

/-! ## Masks -/

theorem testBit_notW {w a i : Nat} (ha : a < 2 ^ w) (hi : i < w) : (notW w a).testBit i = !a.testBit i := by
  have he : notW w a = 2 ^ w - (a + 1) := by
    unfold notW
    rw [Nat.mod_eq_of_lt ha]
    omega
  rw [he, Nat.testBit_two_pow_sub_succ ha]
  simp [hi]

/-- Clearing the low `k` bits of a word rounds it down to a multiple of `2 ^ k`. -/
theorem and_notW_mask {w x k : Nat} (hx : x < 2 ^ w) (hk : k < w) :
    x &&& notW w (2 ^ k - 1) = x / 2 ^ k * 2 ^ k := by
  have hm : 2 ^ k - 1 < 2 ^ w := by
    have : 2 ^ k < 2 ^ w := Nat.pow_lt_pow_right (by decide) hk
    omega
  apply Nat.eq_of_testBit_eq
  intro i
  rw [Nat.testBit_and, Nat.testBit_mul_two_pow, Nat.testBit_div_two_pow]
  by_cases hi : i < w
  · rw [testBit_notW hm hi, Nat.testBit_two_pow_sub_one]
    by_cases hik : k ≤ i
    · have h1 : ¬ i < k := by omega
      have h2 : i - k + k = i := by omega
      simp [hik, h1, h2]
    · have h1 : i < k := by omega
      simp [hik, h1]
  · have hxi : x.testBit i = false :=
      Nat.testBit_lt_two_pow (Nat.lt_of_lt_of_le hx (Nat.pow_le_pow_right (by decide) (by omega)))
    by_cases hik : k ≤ i
    · have h2 : i - k + k = i := by omega
      simp [hik, hxi, h2]
    · simp [hik, hxi]

theorem and_not64_mask {x k : Nat} (hx : x < 2 ^ 64) (hk : k < 64) :
    x &&& not64 (2 ^ k - 1) = x / 2 ^ k * 2 ^ k :=
  and_notW_mask hx hk

theorem and_mask {x k : Nat} : x &&& (2 ^ k - 1) = x % 2 ^ k := Nat.and_two_pow_sub_one_eq_mod x k

/-- Setting bit `k` of a multiple of `2 ^ k` gives the odd multiple of its pair. -/
theorem mul_two_pow_or (q k : Nat) : (q * 2 ^ k) ||| 2 ^ k = (2 * (q / 2) + 1) * 2 ^ k := by
  apply Nat.eq_of_testBit_eq
  intro i
  rw [Nat.testBit_or, Nat.testBit_mul_two_pow, Nat.testBit_mul_two_pow, Nat.testBit_two_pow]
  by_cases hki : k = i
  · subst hki
    simp
  · by_cases hle : k ≤ i
    · obtain ⟨j, hj⟩ : ∃ j, i - k = j + 1 := ⟨i - k - 1, by omega⟩
      rw [hj, Nat.testBit_succ, Nat.testBit_succ]
      have h2 : (2 * (q / 2) + 1) / 2 = q / 2 := by omega
      simp [hki, h2]
    · simp [hle, hki]

end Word
