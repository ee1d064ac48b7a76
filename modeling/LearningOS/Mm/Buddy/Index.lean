import LearningOS.Mm.Buddy.Primitives
import Mathlib.Tactic.IntervalCases

/-!
# `Mm.Buddy.Index` — the pair bitmap, pair by pair

`buddy_bmp_index_of` numbers the buddy pairs: 255 bits per 256 pages, the pairs of order `k` at the odd
multiples of `2 ^ k`. Two blocks share a bit exactly when they have the same order and the same parent
(`buddyBmpIndexOf_inj`), so that `pairBit m k o` is the bit of *the pair of order `k` around `o`*, and
toggling or setting one pair's bit leaves every other pair's alone.
-/

namespace LearningOS

open Word Dyadic

variable {V : Type}

/-! ## The index -/

theorem buddyBmpSizeBits_eq (numPages : Nat) : buddyBmpSizeBits numPages = (numPages + 255) / 256 * 255 := by
  unfold buddyBmpSizeBits maxBlockBits
  rw [roundUpShiftRight_eq]
  rfl

theorem buddyBmpIndexOf_eq {o k : Nat} (ho : o < 2 ^ 64) (hk : k ≤ maxOrder) :
    buddyBmpIndexOf o k = o / 256 * 255 + (2 * (o % 256 / 2 ^ (k + 1)) + 1) * 2 ^ k - 1 := by
  have hr : o % 256 < 2 ^ 64 := lt_of_le_of_lt (Nat.mod_le o 256) ho
  have h256 : o >>> (maxOrder + 1) = o / 256 := Nat.shiftRight_eq_div_pow o 8
  have hm : o &&& maskForFirstNBits (maxOrder + 1) = o % 256 := and_mask (k := 8)
  have hb : o % 256 &&& not64 (maskForFirstNBits k) = o % 256 / 2 ^ k * 2 ^ k :=
    and_not64_mask hr (by unfold maxOrder at hk; omega)
  have hdiv : o % 256 / 2 ^ k / 2 = o % 256 / 2 ^ (k + 1) := by
    rw [Nat.div_div_eq_div_mul, pow_succ]
  simp only [buddyBmpIndexOf, h256, hm, hb, mul_two_pow_or, hdiv]

/-- Where the pair lies among the 255 of its 256 pages. -/
theorem pairSlot_le {o k : Nat} (hk : k ≤ maxOrder) : (2 * (o % 256 / 2 ^ (k + 1)) + 1) * 2 ^ k ≤ 255 := by
  unfold maxOrder at hk
  interval_cases k <;> simp only [Nat.reduceAdd, Nat.reducePow] <;> omega

/-- The 256 pages and the place among them determine the parent. -/
theorem parent_eq_iff {o o' k : Nat} (hk : k ≤ maxOrder) :
    parent k o = parent k o' ↔
      o / 256 = o' / 256 ∧ o % 256 / 2 ^ (k + 1) = o' % 256 / 2 ^ (k + 1) := by
  unfold maxOrder at hk
  unfold parent
  interval_cases k <;> simp only [Nat.reduceAdd, Nat.reducePow] <;> omega

/-- **Two blocks share a pair bit iff they have the same order and the same parent.** -/
theorem buddyBmpIndexOf_inj {o k o' k' : Nat} (ho : o < 2 ^ 64) (ho' : o' < 2 ^ 64) (hk : k ≤ maxOrder)
    (hk' : k' ≤ maxOrder) :
    buddyBmpIndexOf o k = buddyBmpIndexOf o' k' ↔ k = k' ∧ parent k o = parent k' o' := by
  rw [buddyBmpIndexOf_eq ho hk, buddyBmpIndexOf_eq ho' hk']
  have hle := pairSlot_le (o := o) hk
  have hle' := pairSlot_le (o := o') hk'
  have hpos : 0 < (2 * (o % 256 / 2 ^ (k + 1)) + 1) * 2 ^ k := Nat.mul_pos (by omega) (Nat.two_pow_pos k)
  have hpos' : 0 < (2 * (o' % 256 / 2 ^ (k' + 1)) + 1) * 2 ^ k' :=
    Nat.mul_pos (by omega) (Nat.two_pow_pos k')
  constructor
  · intro h
    have hw : o / 256 = o' / 256 := by omega
    have hr : (2 * (o % 256 / 2 ^ (k + 1)) + 1) * 2 ^ k
        = (2 * (o' % 256 / 2 ^ (k' + 1)) + 1) * 2 ^ k' := by omega
    obtain ⟨rfl, hq⟩ := odd_mul_two_pow_inj hr
    exact ⟨rfl, (parent_eq_iff hk).mpr ⟨hw, hq⟩⟩
  · rintro ⟨rfl, hp⟩
    obtain ⟨hw, hq⟩ := (parent_eq_iff hk).mp hp
    rw [hw, hq]

/-- The pair of a block inside the first `n` pages has its bit inside the bitmap of `n` pages. -/
theorem buddyBmpIndexOf_lt {o k n : Nat} (ho : o < 2 ^ 64) (hk : k ≤ maxOrder) (hn : o / 256 * 256 < n) :
    buddyBmpIndexOf o k < buddyBmpSizeBits n := by
  have hle := pairSlot_le (o := o) hk
  have hpos : 0 < (2 * (o % 256 / 2 ^ (k + 1)) + 1) * 2 ^ k := Nat.mul_pos (by omega) (Nat.two_pow_pos k)
  rw [buddyBmpIndexOf_eq ho hk, buddyBmpSizeBits_eq]
  omega

/-! ## Pair bits -/

/-- The bit of the pair of order `k` that `o` lies in. -/
def pairBit (m : Machine V) (k o : Nat) : Bool := bitAt m.buddyStateMap (buddyBmpIndexOf o k)

/-- The pair of order `k` around `o` has a bit in the bitmap. -/
def HasBit (m : Machine V) (k o : Nat) : Prop := m.buddyStateMap.InRange (buddyBmpIndexOf o k)

theorem pairBit_toggleBit {m : Machine V} {k o k' o' : Nat} (hb : HasBit m k o) (ho : o < 2 ^ 64)
    (ho' : o' < 2 ^ 64) (hk : k ≤ maxOrder) (hk' : k' ≤ maxOrder) :
    pairBit (m.toggleBit (buddyBmpIndexOf o k)) k' o'
      = (pairBit m k' o' ^^ decide (k' = k ∧ parent k' o' = parent k o)) := by
  unfold pairBit Machine.toggleBit
  rw [bitAt_bmpToggleBit]
  by_cases h : k' = k ∧ parent k' o' = parent k o
  · have hi := (buddyBmpIndexOf_inj ho' ho hk' hk).mpr h
    rw [if_pos ⟨hi, hb⟩, hi, decide_eq_true h, Bool.xor_true]
  · rw [if_neg (fun hc => h ((buddyBmpIndexOf_inj ho' ho hk' hk).mp hc.1))]
    rw [decide_eq_false h, Bool.xor_false]

theorem pairBit_setBit {m : Machine V} {k o k' o' : Nat} (v : Nat) (hb : HasBit m k o) (ho : o < 2 ^ 64)
    (ho' : o' < 2 ^ 64) (hk : k ≤ maxOrder) (hk' : k' ≤ maxOrder) :
    pairBit (m.setBit (buddyBmpIndexOf o k) v) k' o'
      = if k' = k ∧ parent k' o' = parent k o then decide (0 < v) else pairBit m k' o' := by
  unfold pairBit Machine.setBit
  rw [bitAt_bmpSetBit]
  by_cases h : k' = k ∧ parent k' o' = parent k o
  · rw [if_pos h, if_pos ⟨(buddyBmpIndexOf_inj ho' ho hk' hk).mpr h, hb⟩]
  · rw [if_neg h, if_neg (fun hc => h ((buddyBmpIndexOf_inj ho' ho hk' hk).mp hc.1))]

/-- `__buddy_page_offset` is the buddy. -/
theorem buddyPageOffset_eq {o k : Nat} (hd : 2 ^ k ∣ o) (ho : o + 2 ^ k < 2 ^ 64) :
    buddyPageOffset o k = buddy k o := by
  have hm : o &&& maskForFirstNBits (k + 1) = o % 2 ^ (k + 1) := and_mask
  simp only [buddyPageOffset, hm, ne_eq]
  unfold buddy
  by_cases hz : o % 2 ^ (k + 1) = 0
  · rw [if_neg (not_not.mpr hz), if_pos hz, add64_of_lt ho]
  · have hle : 2 ^ k ≤ o := Nat.le_of_dvd (Nat.pos_of_ne_zero (fun h => hz (by rw [h, Nat.zero_mod]))) hd
    rw [if_pos hz, if_neg hz, sub64_of_le (by omega) hle]

end LearningOS
