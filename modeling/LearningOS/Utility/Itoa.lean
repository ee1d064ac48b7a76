import LearningOS.Utility.Strings

/-!
# `Utility.Itoa` — `itoa` in every base

`itoa` divides a signed number. In base ten it does so after the sign is taken off; in the other bases, where a number
is meant to count as unsigned, it divides the negative number itself: the remainders are negative, and the characters
they give lie below `'0'`. The same happens in base ten to the one number that is its own opposite.
`itoa_numeral_iff`: these are all the values for which the string is not the numeral.
-/

namespace LearningOS.Strings

open Word Run CString Numeral

/-- The value as an unsigned number of 64 bits. -/
def reinterpret (value : Int) : Nat := (value % 2 ^ 64).toNat

/-- **`itoa` writes the numeral of the value**: in base ten a sign and the digits of the magnitude, which `atoi` reads
    back; in every other base what `utoa` writes for the value as an unsigned number. -/
def WritesNumeral (value : Int) (str base : Nat) (m : Memory) : Prop :=
  ∃ m' s, itoa value str base m = .ok (1, m') ∧ m'.HasText str s ∧
    (base = 10 → s = (if value < 0 then [45] else []) ++ numeral 10 value.natAbs ∧ atoi s = value) ∧
    (base ≠ 10 → s = numeral base (reinterpret value) ∧
      ∃ m'', utoa (reinterpret value) str base m = .ok (1, m'') ∧ m''.HasText str s)

/-! ## Negative digits -/

/-- The character of a negative digit lies below `'0'` and is no terminator. -/
theorem digitByte_neg {d : Nat} (hd : d ≠ 0) (h : d < 36) : digitByte (-1 * (d : Int)) < 48 ∧ digitByte (-1 * (d : Int)) ≠ 0 := by
  unfold digitByte
  rw [if_neg (by omega)]
  omega

/-- Among the digits of a number other than zero is one that is not zero. -/
theorem exists_signedDigit_lt {base n : Nat} (hb : 1 < base) (hb' : base ≤ 36) (hn : n ≠ 0) :
    ∃ c ∈ signedDigits base (-1) n, c < 48 := by
  have hne : Nat.digits base n ≠ [] := Nat.digits_ne_nil_iff_ne_zero.mpr hn
  have hlast : (Nat.digits base n).getLast hne ≠ 0 := Nat.getLast_digit_ne_zero base hn
  have hmem := List.getLast_mem hne
  have hlt : (Nat.digits base n).getLast hne < base := Nat.digits_lt_base hb hmem
  exact ⟨_, List.mem_map_of_mem hmem, (digitByte_neg hlast (by omega)).1⟩

theorem zero_notMem_negativeDigits {base n : Nat} (hb : 1 < base) (hb' : base ≤ 36) :
    0 ∉ signedDigits base (-1) n := by
  intro h
  obtain ⟨d, hd, hzero⟩ := List.mem_map.mp h
  have hlt : d < base := Nat.digits_lt_base hb hd
  by_cases hd0 : d = 0
  · subst hd0
    exact absurd hzero (by decide)
  · exact (digitByte_neg hd0 (by omega)).2 hzero

/-- The characters of a negative number are not those of a numeral. -/
theorem negativeDigits_ne_numeral {base base' n n' : Nat} (hb : 1 < base) (hb' : base ≤ 36) (hn : n ≠ 0) :
    (signedDigits base (-1) n).reverse ≠ numeral base' n' := by
  intro h
  obtain ⟨c, hc, hlt⟩ := exists_signedDigit_lt hb hb' hn
  have hmem : c ∈ numeral base' n' := h ▸ List.mem_reverse.mpr hc
  have hge := numeral_ge hmem
  omega

/-! ## What `itoa` writes -/

section

variable {value : Int} {str base : Nat} {m : Memory}

/-- The digits of a number of 64 bits fit in 64 characters. -/
theorem numeral_length_le_64 {n : Nat} (hb : 1 < base) (hn : n < 2 ^ 64) : (numeral base n).length ≤ 64 :=
  numeral_length_le hb (by decide) (Nat.lt_of_lt_of_le hn (Nat.pow_le_pow_left hb 64))

/-- **A negative number in a base other than ten** is written with negative digits. -/
theorem itoa_negative_base (hmin : -2 ^ 63 ≤ value) (hneg : value < 0) (hb : 1 < base) (hb' : base ≤ 36)
    (hten : base ≠ 10) (hlo : m.lo ≤ str) (hhi : str + 64 < m.hi) :
    ∃ m', itoa value str base m = .ok (1, m') ∧ m'.HasText str (signedDigits base (-1) value.natAbs).reverse := by
  have hlen : (Nat.digits base value.natAbs).length < 65 := digits_length_lt hb (by omega)
  have hvalue : value = -1 * (value.natAbs : Int) := by omega
  obtain ⟨m1, hput, hholds, hsame⟩ := putDigits_eq [] hb (.inr rfl) hlen hlo
    (by rw [List.length_nil]; omega) (holds_nil m.byte str)
  rw [List.length_nil, Nat.zero_add, ← hvalue] at hput
  rw [List.nil_append] at hholds
  have hlo1 := hsame.lo
  have hhi1 := hsame.hi
  have hcount := signedDigits_length base (-1) value.natAbs
  obtain ⟨m', hend, htext, -⟩ := terminate_reverse (m := m1) (by omega) (by omega) hholds
    (zero_notMem_negativeDigits hb hb')
  rw [hcount] at hend
  refine ⟨m', ?_, htext⟩
  rw [itoa, if_neg (by omega), if_neg (by omega)]
  simp only [hten, decide_false, Bool.and_false, Bool.false_eq_true, if_false, hput, ok_bind]
  exact hend

/-- A value that is not negative is written as `utoa` writes it. -/
theorem writesNumeral_of_nonneg (hmax : value < 2 ^ 63) (h : 0 ≤ value) (hb : 1 < base) (hb' : base ≤ 36)
    (hlo : m.lo ≤ str) (hhi : str + 64 < m.hi) : WritesNumeral value str base m := by
  obtain ⟨n, rfl⟩ := Int.eq_ofNat_of_zero_le h
  have hn : n < 2 ^ 64 := by omega
  have hlen := numeral_length_le_64 hb hn
  have hsame : reinterpret n = n := by
    unfold reinterpret
    omega
  obtain ⟨m', hutoa, htext, -, -⟩ := utoa_eq (m := m) hb (by omega) hn hlo (by omega)
  refine ⟨m', numeral base n, ?_, htext, ?_, ?_⟩
  · rw [itoa_natCast hb]
    exact hutoa
  · rintro rfl
    rw [if_neg (by omega), List.nil_append, Int.natAbs_natCast]
    exact ⟨rfl, atoi_numeral (by omega)⟩
  · intro _
    rw [hsame]
    exact ⟨rfl, m', hutoa, htext⟩

/-- `atoi` reads a negative numeral back. -/
theorem atoi_neg_numeral {n : Nat} (h : n < 2 ^ 63) : atoi (45 :: numeral 10 n) = -n := by
  have hread : readFrom 0 (numeral 10 n) < 2 ^ 63 := by rwa [readFrom_numeral]
  have hloop : atoiLoop 0 (numeral 10 n) = n := by
    have heq := atoiLoop_eq_readFrom (fun c hc => isdigit_of_mem_numeral hc) hread
    rwa [readFrom_numeral] at heq
  show (-atoiLoop 0 (numeral 10 n)).bmod (2 ^ 64) = -n
  rw [hloop, Int.bmod_eq_of_le (by omega) (by omega)]

/-- So is a negative value in base ten that has an opposite, behind a sign. -/
theorem writesNumeral_ten (hmin : -2 ^ 63 < value) (hneg : value < 0) (hlo : m.lo ≤ str) (hhi : str + 64 < m.hi) :
    WritesNumeral value str 10 m := by
  have htext : itoaText value = 45 :: numeral 10 value.natAbs := by
    unfold itoaText
    rw [if_neg (by omega), if_pos hneg]
    rfl
  have hlen : (numeral 10 value.natAbs).length ≤ 19 := numeral_length_le (by decide) (by decide) (by omega)
  obtain ⟨m', hitoa, hstr, -, -⟩ := itoa_eq (m := m) (by omega) (by omega) hlo
    (show str + (itoaText value).length < m.hi by rw [htext, List.length_cons]; omega)
  refine ⟨m', itoaText value, hitoa, hstr, ?_, fun h => absurd rfl h⟩
  intro _
  rw [htext, if_pos hneg, atoi_neg_numeral (by omega)]
  exact ⟨rfl, by omega⟩

/-- **The other negative values are not written as numerals.** -/
theorem not_writesNumeral (hmin : -2 ^ 63 ≤ value) (hneg : value < 0) (hb : 1 < base) (hb' : base ≤ 36)
    (hcase : base = 10 → value = -2 ^ 63) (hlo : m.lo ≤ str) (hhi : str + 64 < m.hi) :
    ¬ WritesNumeral value str base m := by
  rintro ⟨m', s, hitoa, htext, hten, hother⟩
  by_cases hbase : base = 10
  · -- the least value is its own opposite
    subst hbase
    obtain rfl := hcase rfl
    have hroom : str + (itoaText (-2 ^ 63)).length < m.hi := by
      have hlen : (itoaText (-2 ^ 63)).length = 20 := by
        rw [itoaText, if_pos rfl, List.length_cons, List.length_reverse, signedDigits_length]
        simp
      omega
    obtain ⟨m1, hitoa1, htext1, -, -⟩ := itoa_eq (by decide) (by decide) hlo hroom
    obtain ⟨-, rfl⟩ := Prod.mk.inj (Except.ok.inj (hitoa.symm.trans hitoa1))
    have hs := htext.text.unique htext1.text
    rw [(hten rfl).1, itoaText, if_pos rfl, if_pos (by decide)] at hs
    exact negativeDigits_ne_numeral (by decide) (by decide) (by decide) (List.cons.inj hs).2.symm
  · obtain ⟨m1, hitoa1, htext1⟩ := itoa_negative_base hmin hneg hb hb' hbase hlo hhi
    obtain ⟨-, rfl⟩ := Prod.mk.inj (Except.ok.inj (hitoa.symm.trans hitoa1))
    have hs := htext.text.unique htext1.text
    rw [(hother hbase).1] at hs
    exact negativeDigits_ne_numeral hb hb' (by omega) hs.symm

/-- **When `itoa` writes the numeral**: for the values that are not negative, and in base ten for the negative ones that
    have an opposite. -/
theorem itoa_numeral_iff (hmin : -2 ^ 63 ≤ value) (hmax : value < 2 ^ 63) (hb : 2 ≤ base) (hb' : base ≤ 36)
    (hlo : m.lo ≤ str) (hhi : str + 64 < m.hi) :
    WritesNumeral value str base m ↔ 0 ≤ value ∨ (base = 10 ∧ value ≠ -2 ^ 63) := by
  constructor
  · intro h
    by_contra hcond
    obtain ⟨hneg, hcase⟩ := not_or.mp hcond
    refine not_writesNumeral hmin (by omega) hb hb' (fun hten => ?_) hlo hhi h
    by_contra hne
    exact hcase ⟨hten, hne⟩
  · rintro (h | ⟨rfl, hne⟩)
    · exact writesNumeral_of_nonneg hmax h hb hb' hlo hhi
    · by_cases h : 0 ≤ value
      · exact writesNumeral_of_nonneg hmax h hb hb' hlo hhi
      · exact writesNumeral_ten (by omega) (by omega) hlo hhi

/-- The least value but one, in base ten. -/
theorem itoa_numeral_near_least : WritesNumeral (-2 ^ 63 + 1) 0 10 ⟨0, 100, fun _ => 0⟩ :=
  (itoa_numeral_iff (by decide) (by decide) (by decide) (by decide) (by decide) (by decide)).mpr
    (.inr ⟨rfl, by decide⟩)

/-- The base address of the kernel in base 16, as `ptr_to_hex` asks for it. -/
theorem itoa_numeral_kernel_address :
    ¬ ∀ (value : Int) (str base : Nat) (m : Memory), -2 ^ 63 ≤ value → value < 2 ^ 63 → 2 ≤ base → base ≤ 36 →
      m.lo ≤ str → str + 64 < m.hi → WritesNumeral value str base m := by
  intro h
  have hwrites : WritesNumeral (-2147483648) 0 16 ⟨0, 100, fun _ => 0⟩ :=
    h _ _ _ _ (by decide) (by decide) (by decide) (by decide) (by decide) (by decide)
  exact not_writesNumeral (by decide) (by decide) (by decide) (by decide) (fun hten => absurd hten (by decide))
    (by decide) (by decide) hwrites

end

end LearningOS.Strings
