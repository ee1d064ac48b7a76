import LearningOS.Mm.Buddy.Index
import Mathlib.Data.Nat.Factorization.Basic

/-!
# `Mm.Buddy.PairMap` — the pair bitmap as a map from pairs to bits

`buddy_bmp_index_of` numbers the pairs of a stretch of pages without gaps and without repetition, so that the bitmap
of `buddy_bmp_size_bits` bits is a map from pairs to bits: whoever reads, sets and toggles the bits of pairs gets the
answers such a map would give (`bitmap_is_pair_map`).
-/

namespace LearningOS

open Word Run Dyadic

/-! ## The map -/

/-- A pair of buddies: the order of the two, and the number of the block they make up. -/
structure BuddyPair where
  order : Nat
  block : Nat
deriving DecidableEq, Repr

/-- The pair that a page lies in, at an order. -/
def pairOf (pageOffset order : Nat) : BuddyPair := ⟨order, pageOffset / 2 ^ (order + 1)⟩

/-- A bit for every pair. -/
abbrev PairMap := BuddyPair → Bool

/-- The calls on the bit of a pair. -/
inductive PairCall where
  | get (pageOffset order : Nat)
  | set (pageOffset order value : Nat)
  | toggle (pageOffset order : Nat)
deriving DecidableEq, Repr

/-- What the map answers: the bit, 1 for the bit being there, or the new bit. -/
def PairMap.answer (map : PairMap) : PairCall → Nat × PairMap
  | .get pageOffset order => ((map (pairOf pageOffset order)).toNat, map)
  | .set pageOffset order value => (1, Function.update map (pairOf pageOffset order) (decide (0 < value)))
  | .toggle pageOffset order =>
    ((!map (pairOf pageOffset order)).toNat,
      Function.update map (pairOf pageOffset order) (!map (pairOf pageOffset order)))

/-- What the bitmap answers: `bmp_get_bit`, `bmp_set_bit` and `bmp_toggle_bit` at the index of the pair. -/
def Bitmap.answer (bmp : Bitmap) : PairCall → Nat × Bitmap
  | .get pageOffset order => (bmpGetBit bmp (buddyBmpIndexOf pageOffset order), bmp)
  | .set pageOffset order value => bmpSetBit bmp (buddyBmpIndexOf pageOffset order) value
  | .toggle pageOffset order => bmpToggleBit bmp (buddyBmpIndexOf pageOffset order)

/-- The number of pages, rounded up to whole blocks of order `MAX_ORDER + 1`. -/
def roundedPages (numPages : Nat) : Nat := (numPages + 255) / 2 ^ (maxOrder + 1) * 2 ^ (maxOrder + 1)

/-- A page of the rounded stretch and an order. -/
def InPages (numPages pageOffset order : Nat) : Prop := pageOffset < roundedPages numPages ∧ order ≤ maxOrder

/-- The call is about a pair of the rounded stretch. -/
def PairCall.InPages (numPages : Nat) : PairCall → Prop
  | .get pageOffset order => LearningOS.InPages numPages pageOffset order
  | .set pageOffset order _ => LearningOS.InPages numPages pageOffset order
  | .toggle pageOffset order => LearningOS.InPages numPages pageOffset order

/-- **Each pair owns one bit**, each bit belongs to a pair, and the bitmap behaves as the map. No number on the way to
    its size is too large for its word. -/
structure BitmapIsPairMap (numPages : Nat) : Prop where
  word : buddyBmpSizeBits numPages + 7 < 2 ^ 64
  below : ∀ o k, InPages numPages o k → buddyBmpIndexOf o k < buddyBmpSizeBits numPages
  same : ∀ o k o' k', InPages numPages o k → InPages numPages o' k' →
    (buddyBmpIndexOf o k = buddyBmpIndexOf o' k' ↔ k = k' ∧ o / 2 ^ (k + 1) = o' / 2 ^ (k' + 1))
  onto : ∀ i < buddyBmpSizeBits numPages, ∃ o k, InPages numPages o k ∧ buddyBmpIndexOf o k = i
  map : ∀ calls : List PairCall, (∀ call ∈ calls, call.InPages numPages) →
    answers Bitmap.answer (bmpInit (buddyBmpSizeBits numPages)) calls = answers PairMap.answer (fun _ => false) calls

/-! ## The indices -/

variable {numPages o k o' k' : Nat}

theorem roundedPages_eq (numPages : Nat) : roundedPages numPages = (numPages + 255) / 256 * 256 := rfl

theorem InPages.word (hn : numPages < 2 ^ 64) (h : InPages numPages o k) : o < 2 ^ 64 := by
  have hlt := h.1
  rw [roundedPages_eq] at hlt
  omega

theorem InPages.index_lt (hn : numPages < 2 ^ 64) (h : InPages numPages o k) :
    buddyBmpIndexOf o k < buddyBmpSizeBits numPages := by
  apply buddyBmpIndexOf_lt (h.word hn) h.2
  have hlt := h.1
  rw [roundedPages_eq] at hlt
  omega

theorem parent_eq_parent_iff : parent k o = parent k o' ↔ o / 2 ^ (k + 1) = o' / 2 ^ (k + 1) := by
  unfold parent
  constructor
  · intro h
    exact Nat.eq_of_mul_eq_mul_right (Nat.two_pow_pos (k + 1)) h
  · intro h
    rw [h]

/-- **Two calls give one index** for one pair. -/
theorem InPages.index_eq_iff (hn : numPages < 2 ^ 64) (h : InPages numPages o k) (h' : InPages numPages o' k') :
    buddyBmpIndexOf o k = buddyBmpIndexOf o' k' ↔ pairOf o k = pairOf o' k' := by
  rw [buddyBmpIndexOf_inj (h.word hn) (h'.word hn) h.2 h'.2, pairOf, pairOf, BuddyPair.mk.injEq]
  refine and_congr_right ?_
  rintro rfl
  exact parent_eq_parent_iff

/-- The places among 255 are the odd multiples of the powers of two up to `2 ^ MAX_ORDER`. -/
theorem exists_slot {r : Nat} (hpos : 0 < r) (hle : r ≤ 255) :
    ∃ k ≤ maxOrder, ∃ q, r = (2 * q + 1) * 2 ^ k ∧ q * 2 ^ (k + 1) < 256 := by
  obtain ⟨k, odd, ⟨q, rfl⟩, rfl⟩ := Nat.exists_eq_two_pow_mul_odd hpos.ne'
  have hk : k ≤ maxOrder := by
    by_contra hk
    have h256 : 2 ^ 8 ≤ 2 ^ k := Nat.pow_le_pow_right (by decide) (Nat.lt_of_not_le hk)
    have hmul : 2 ^ k ≤ 2 ^ k * (2 * q + 1) := Nat.le_mul_of_pos_right (2 ^ k) (Nat.succ_pos _)
    omega
  refine ⟨k, hk, q, Nat.mul_comm _ _, ?_⟩
  have hstart : q * 2 ^ (k + 1) ≤ 2 ^ k * (2 * q + 1) := by
    rw [pow_succ, Nat.mul_add, Nat.mul_one, Nat.mul_left_comm, Nat.mul_comm q]
    exact Nat.le_add_right _ _
  omega

/-- **Every bit belongs to a pair.** -/
theorem exists_pair {i : Nat} (hn : numPages < 2 ^ 64) (hi : i < buddyBmpSizeBits numPages) :
    ∃ o k, InPages numPages o k ∧ buddyBmpIndexOf o k = i := by
  rw [buddyBmpSizeBits_eq] at hi
  -- the 256 pages the bit is one of, and its place there
  obtain ⟨k, hk, q, hr, hq⟩ := exists_slot (r := i % 255 + 1) (Nat.succ_pos _) (by omega)
  have hmod : (i / 255 * 256 + q * 2 ^ (k + 1)) % 256 = q * 2 ^ (k + 1) := by omega
  have hdiv : (i / 255 * 256 + q * 2 ^ (k + 1)) / 256 = i / 255 := by omega
  have hin : InPages numPages (i / 255 * 256 + q * 2 ^ (k + 1)) k := by
    refine ⟨?_, hk⟩
    rw [roundedPages_eq]
    omega
  refine ⟨_, k, hin, ?_⟩
  rw [buddyBmpIndexOf_eq (hin.word hn) hk, hmod, hdiv, Nat.mul_div_cancel q (Nat.two_pow_pos (k + 1)), ← hr]
  omega

/-! ## The bits -/

/-- The bitmap holds the map: the bits of all pairs are in it, and as the map has them. -/
structure HoldsMap (numPages : Nat) (bmp : Bitmap) (map : PairMap) : Prop where
  inRange : ∀ o k, InPages numPages o k → bmp.InRange (buddyBmpIndexOf o k)
  bit : ∀ o k, InPages numPages o k → bitAt bmp (buddyBmpIndexOf o k) = map (pairOf o k)

/-- After `bmp_init` it holds the map without any bit set. -/
theorem holdsMap_bmpInit (hn : numPages < 2 ^ 64) :
    HoldsMap numPages (bmpInit (buddyBmpSizeBits numPages)) (fun _ => false) := by
  refine ⟨?_, ?_⟩
  · intro o k h
    have hlt := h.index_lt hn
    unfold Bitmap.InRange
    rw [sizeBytes_bmpInit]
    omega
  · intro o k _
    exact bitAt_bmpInit _ _

variable {bmp bmp' : Bitmap} {map : PairMap}

/-- **An update of one pair**: if the bitmap changes in the bit of a pair only, the map changes in that pair only. -/
theorem HoldsMap.update (hn : numPages < 2 ^ 64) (h : HoldsMap numPages bmp map) (hin : InPages numPages o k) {b : Bool}
    (hsize : bmp'.sizeBytes = bmp.sizeBytes)
    (hbit : ∀ j, bitAt bmp' j = if j = buddyBmpIndexOf o k then b else bitAt bmp j) :
    HoldsMap numPages bmp' (Function.update map (pairOf o k) b) := by
  refine ⟨?_, ?_⟩
  · intro o' k' hin'
    have hold := h.inRange o' k' hin'
    unfold Bitmap.InRange at hold ⊢
    rw [hsize]
    exact hold
  · intro o' k' hin'
    rw [hbit]
    by_cases hp : pairOf o' k' = pairOf o k
    · rw [if_pos ((hin'.index_eq_iff hn hin).mpr hp), hp, Function.update_self]
    · rw [if_neg (fun hi => hp ((hin'.index_eq_iff hn hin).mp hi)), Function.update_of_ne hp]
      exact h.bit o' k' hin'

/-- `bmp_set_bit` answers 1 inside the bitmap. -/
theorem bmpSetBit_fst {index : Nat} (value : Nat) (h : bmp.InRange index) : (bmpSetBit bmp index value).1 = 1 := by
  unfold bmpSetBit
  dsimp only
  rw [if_neg (Nat.not_le_of_lt h)]
  split <;> rfl

/-- `bmp_toggle_bit` answers the new bit. -/
theorem bmpToggleBit_fst {index : Nat} (h : bmp.InRange index) :
    (bmpToggleBit bmp index).1 = (!bitAt bmp index).toNat := by
  unfold bmpToggleBit
  dsimp only
  rw [if_neg (Nat.not_le_of_lt h)]
  by_cases hb : bitAt bmp index = true
  · rw [if_pos (byte_and_mask_ne_zero.mpr hb), hb]
    rfl
  · rw [if_neg (fun hc => hb (byte_and_mask_ne_zero.mp hc)), Bool.eq_false_of_not_eq_true hb]
    rfl

/-- **One call**: the bitmap answers as the map does, and holds the map after it. -/
theorem HoldsMap.answer (hn : numPages < 2 ^ 64) (h : HoldsMap numPages bmp map) {call : PairCall}
    (hin : call.InPages numPages) :
    (bmp.answer call).1 = (map.answer call).1 ∧ HoldsMap numPages (bmp.answer call).2 (map.answer call).2 := by
  cases call with
  | get o k =>
      refine ⟨?_, h⟩
      show bmpGetBit bmp (buddyBmpIndexOf o k) = (map (pairOf o k)).toNat
      rw [bmpGetBit_eq, h.bit o k hin]
      cases map (pairOf o k) <;> rfl
  | set o k value =>
      have hrange := h.inRange o k hin
      refine ⟨bmpSetBit_fst value hrange, h.update hn hin (sizeBytes_bmpSetBit _ _ _) ?_⟩
      intro j
      rw [Bitmap.answer, bitAt_bmpSetBit]
      simp only [hrange, and_true]
  | toggle o k =>
      have hrange := h.inRange o k hin
      refine ⟨?_, h.update hn hin (sizeBytes_bmpToggleBit _ _) ?_⟩
      · show (bmpToggleBit bmp (buddyBmpIndexOf o k)).1 = (!map (pairOf o k)).toNat
        rw [bmpToggleBit_fst hrange, h.bit o k hin]
      · intro j
        rw [Bitmap.answer, bitAt_bmpToggleBit, h.bit o k hin]
        simp only [hrange, and_true]

/-- **The bitmap is a map from pairs to bits**, for every number of pages. -/
theorem bitmap_is_pair_map (hn : numPages < 2 ^ 64) : BitmapIsPairMap numPages where
  word := by
    rw [buddyBmpSizeBits_eq]
    omega
  below := fun o k h => h.index_lt hn
  same := by
    intro o k o' k' h h'
    rw [h.index_eq_iff hn h', pairOf, pairOf, BuddyPair.mk.injEq]
  onto := fun i hi => exists_pair hn hi
  map := by
    intro calls hcalls
    refine answers_eq (HoldsMap numPages) (PairCall.InPages numPages) ?_ (holdsMap_bmpInit hn) calls hcalls
    intro bmp map call h hin
    exact h.answer hn hin

/-- The 1024 pages of a test. -/
theorem bitmap_is_pair_map_1024 : BitmapIsPairMap 1024 := bitmap_is_pair_map (by decide)

end LearningOS
