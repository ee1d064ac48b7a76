import Mathlib.Data.Nat.Digits.Lemmas

/-!
# `Lib.Numeral` — numerals in a base, as character codes

`numeral base n` is the usual way to write `n`: its digits, most significant first and without leading zeros, `0` as
a single zero, the digits from ten on as capital letters. Two kinds of facts are wanted of it: how long it is
(`numeral_length_le`, `lt_numeral_length`), and that reading it digit by digit gives `n` back (`readFrom_numeral`).
-/

namespace Numeral

/-- The character of a digit. -/
def digitChar (d : Nat) : Nat := if d > 9 then d - 10 + 65 else d + 48

/-- The digits of `n`, least significant first, as characters; `0` has none. -/
def digitChars (base n : Nat) : List Nat := (Nat.digits base n).map digitChar

/-- `n` written in the base. -/
def numeral (base n : Nat) : List Nat := if n = 0 then [48] else (digitChars base n).reverse

theorem numeral_of_ne_zero {n : Nat} (hn : n ≠ 0) (base : Nat) :
    numeral base n = (digitChars base n).reverse := if_neg hn

theorem digitChar_of_lt {d : Nat} (h : d < 10) : digitChar d = d + 48 := if_neg (by omega)

theorem digitChar_ge (d : Nat) : 48 ≤ digitChar d := by
  unfold digitChar
  split <;> omega

theorem numeral_ge {base n c : Nat} (hc : c ∈ numeral base n) : 48 ≤ c := by
  by_cases hn : n = 0
  · subst hn
    have h48 : c = 48 := List.mem_singleton.mp hc
    omega
  · rw [numeral_of_ne_zero hn, List.mem_reverse] at hc
    obtain ⟨d, -, rfl⟩ := List.mem_map.mp hc
    exact digitChar_ge d

/-- In base ten every character is one of `0` to `9`. -/
theorem numeral_ten_le {n c : Nat} (hc : c ∈ numeral 10 n) : c ≤ 57 := by
  by_cases hn : n = 0
  · subst hn
    have h48 : c = 48 := List.mem_singleton.mp hc
    omega
  · rw [numeral_of_ne_zero hn, List.mem_reverse] at hc
    obtain ⟨d, hd, rfl⟩ := List.mem_map.mp hc
    have hlt : d < 10 := Nat.digits_lt_base (by decide) hd
    rw [digitChar_of_lt hlt]
    omega

/-- Only the digit zero is written `0`. -/
theorem digitChar_eq_48 {d : Nat} : digitChar d = 48 ↔ d = 0 := by
  unfold digitChar
  split <;> omega

/-- A numeral does not start with a zero, unless it is zero. -/
theorem numeral_head_ne_zero {base n : Nat} (hn : n ≠ 0) : (numeral base n).headD 0 ≠ 48 := by
  have hne : Nat.digits base n ≠ [] := Nat.digits_ne_nil_iff_ne_zero.mpr hn
  have hlast : (numeral base n).headD 0 = digitChar ((Nat.digits base n).getLast hne) := by
    rw [numeral_of_ne_zero hn, digitChars, ← List.map_reverse]
    obtain ⟨ds, d, hds⟩ : ∃ ds d, Nat.digits base n = ds ++ [d] := ⟨_, _, (List.dropLast_append_getLast hne).symm⟩
    simp [hds]
  rw [hlast, ne_eq, digitChar_eq_48]
  exact Nat.getLast_digit_ne_zero base hn

/-! ## Lengths -/

theorem digitChars_length (base n : Nat) : (digitChars base n).length = (Nat.digits base n).length := List.length_map _

theorem numeral_length_of_ne_zero {n : Nat} (hn : n ≠ 0) (base : Nat) :
    (numeral base n).length = (Nat.digits base n).length := by
  rw [numeral_of_ne_zero hn, List.length_reverse, digitChars_length]

theorem numeral_length_pos (base n : Nat) : 0 < (numeral base n).length := by
  by_cases hn : n = 0
  · subst hn
    exact Nat.one_pos
  · rw [numeral_length_of_ne_zero hn]
    exact List.length_pos_iff.mpr (Nat.digits_ne_nil_iff_ne_zero.mpr hn)

theorem numeral_length_le {base n k : Nat} (hb : 1 < base) (hk : 0 < k) (h : n < base ^ k) :
    (numeral base n).length ≤ k := by
  by_cases hn : n = 0
  · subst hn
    exact hk
  · rw [numeral_length_of_ne_zero hn]
    exact (Nat.digits_length_le_iff hb n).mpr h

theorem lt_numeral_length {base n k : Nat} (hb : 1 < base) (hn : n ≠ 0) (h : base ^ k ≤ n) :
    k < (numeral base n).length := by
  rw [numeral_length_of_ne_zero hn]
  exact (Nat.lt_digits_length_iff hb n).mpr h

/-! ## Reading -/

/-- Read one more decimal character after the value `v`. -/
def readDigit (v c : Nat) : Nat := v * 10 + (c - 48)

/-- Read decimal characters after the value `v`. -/
def readFrom (v : Nat) (cs : List Nat) : Nat := cs.foldl readDigit v

theorem readFrom_cons (v c : Nat) (cs : List Nat) : readFrom v (c :: cs) = readFrom (readDigit v c) cs :=
  List.foldl_cons

theorem readFrom_reverse_digits (ds : List Nat) (h : ∀ d ∈ ds, d < 10) :
    readFrom 0 (ds.map digitChar).reverse = Nat.ofDigits 10 ds := by
  induction ds with
  | nil => rfl
  | cons d ds ih =>
      have hd : digitChar d - 48 = d := by
        rw [digitChar_of_lt (h d List.mem_cons_self)]
        omega
      have htail := ih (fun e he => h e (List.mem_cons_of_mem d he))
      have hlast : readFrom 0 ((d :: ds).map digitChar).reverse =
          readDigit (readFrom 0 (ds.map digitChar).reverse) (digitChar d) := by
        rw [List.map_cons, List.reverse_cons]
        exact List.foldl_concat readDigit 0 (digitChar d) _
      rw [hlast, htail, readDigit, hd, Nat.ofDigits_cons]
      omega

/-- **A decimal numeral reads back.** -/
theorem readFrom_numeral (n : Nat) : readFrom 0 (numeral 10 n) = n := by
  by_cases hn : n = 0
  · subst hn
    rfl
  · rw [numeral_of_ne_zero hn]
    show readFrom 0 ((Nat.digits 10 n).map digitChar).reverse = n
    rw [readFrom_reverse_digits _ (fun d hd => Nat.digits_lt_base (by decide) hd), Nat.ofDigits_digits]

/-! ## Reading in any base -/

/-- The digit a character stands for. -/
def charDigit (c : Nat) : Nat := if c > 57 then c - 65 + 10 else c - 48

/-- Read characters in a base. -/
def readBase (base : Nat) (cs : List Nat) : Nat := cs.foldl (fun v c => v * base + charDigit c) 0

theorem charDigit_digitChar (d : Nat) : charDigit (digitChar d) = d := by
  unfold charDigit digitChar
  split <;> split <;> omega

theorem readBase_reverse_digits (base : Nat) (ds : List Nat) :
    readBase base (ds.map digitChar).reverse = Nat.ofDigits base ds := by
  induction ds with
  | nil => rfl
  | cons d ds ih =>
      have hlast : readBase base ((d :: ds).map digitChar).reverse =
          readBase base (ds.map digitChar).reverse * base + charDigit (digitChar d) := by
        rw [List.map_cons, List.reverse_cons]
        exact List.foldl_concat _ 0 (digitChar d) _
      rw [hlast, ih, charDigit_digitChar, Nat.ofDigits_cons, Nat.mul_comm, Nat.add_comm]

/-- The characters `cs` are the numeral of `n` in the base, as one would define it. -/
structure IsNumeral (base n : Nat) (cs : List Nat) : Prop where
  digits : ∀ c ∈ cs, ∃ d < base, c = digitChar d
  noLeadingZero : cs = [48] ∨ cs.headD 48 ≠ 48
  value : readBase base cs = n

/-- **`numeral` is the numeral.** -/
theorem numeral_isNumeral {base : Nat} (hb : 1 < base) (n : Nat) : IsNumeral base n (numeral base n) := by
  by_cases hn : n = 0
  · subst hn
    refine ⟨?_, .inl rfl, ?_⟩
    · intro c hc
      exact ⟨0, by omega, List.mem_singleton.mp hc⟩
    · show 0 * base + charDigit 48 = 0
      rw [Nat.zero_mul]
      rfl
  · refine ⟨?_, .inr ?_, ?_⟩
    · intro c hc
      rw [numeral_of_ne_zero hn, List.mem_reverse] at hc
      obtain ⟨d, hd, rfl⟩ := List.mem_map.mp hc
      exact ⟨d, Nat.digits_lt_base hb hd, rfl⟩
    · have hhead : (numeral base n).headD 0 ≠ 48 := numeral_head_ne_zero hn
      have hpos := numeral_length_pos base n
      cases hcs : numeral base n with
      | nil =>
          rw [hcs] at hpos
          exact absurd hpos (Nat.lt_irrefl 0)
      | cons c cs =>
          rw [hcs] at hhead
          exact hhead
    · rw [numeral_of_ne_zero hn, digitChars, readBase_reverse_digits, Nat.ofDigits_digits]

end Numeral
