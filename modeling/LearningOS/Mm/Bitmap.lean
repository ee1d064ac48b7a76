import Mathlib.Data.List.Basic
import Mathlib.Tactic.Common

/-!
# `Mm.Bitmap` — `mm/bitmap.c`

A bitmap is the `size_bytes` bytes at `base`; every access outside them is ignored, as the bounds tests of the
source do. The source reports through the returned `u8_t` whether the access was in range (`bmp_set_bit`) or
what the bit now is (`bmp_toggle_bit`).

`bitAt` reads one bit without the byte arithmetic. The `bitAt_*` lemmas are all a client needs: an update
changes the one bit it names, if that bit is in range, and no other.
-/

namespace LearningOS

/-- `bitmap_t`: the bytes at `base`, so that `size_bytes` is their number. -/
structure Bitmap where
  bytes : List (BitVec 8)
deriving DecidableEq, Repr

/-- `size_bytes`. -/
def Bitmap.sizeBytes (bmp : Bitmap) : Nat := bmp.bytes.length

/-- `bmp->base[byte_index]`. -/
def Bitmap.byte (bmp : Bitmap) (byteIndex : Nat) : BitVec 8 := bmp.bytes.getD byteIndex 0

/-- `bmp_init`: `size_bytes` bytes, all cleared. -/
def bmpInit (sizeBits : Nat) : Bitmap := ⟨List.replicate ((sizeBits + 7) / 8) 0⟩

/-- `bmp_get_bit`. -/
def bmpGetBit (bmp : Bitmap) (index : Nat) : Nat :=
  let byteIndex := index / 8
  if byteIndex ≥ bmp.sizeBytes then 0
  else ((bmp.byte byteIndex >>> (index % 8)) &&& 1#8).toNat

/-- `bmp_set_bit`, with the returned flag. -/
def bmpSetBit (bmp : Bitmap) (index value : Nat) : Nat × Bitmap :=
  let byteIndex := index / 8
  if byteIndex ≥ bmp.sizeBytes then (0, bmp)
  else
    let byte := bmp.byte byteIndex
    if value > 0 then (1, ⟨bmp.bytes.set byteIndex (byte ||| (1#8 <<< (index % 8)))⟩)
    else (1, ⟨bmp.bytes.set byteIndex (byte &&& ~~~(1#8 <<< (index % 8)))⟩)

/-- `bmp_toggle_bit`, with the returned bit. -/
def bmpToggleBit (bmp : Bitmap) (index : Nat) : Nat × Bitmap :=
  let byteIndex := index / 8
  let bitMask := 1#8 <<< (index % 8)
  if byteIndex ≥ bmp.sizeBytes then (0, bmp)
  else
    let byte := bmp.byte byteIndex
    if byte &&& bitMask ≠ 0 then (0, ⟨bmp.bytes.set byteIndex (byte &&& ~~~bitMask)⟩)
    else (1, ⟨bmp.bytes.set byteIndex (byte ||| bitMask)⟩)

/-! ## Single bits -/

/-- Bit `index` of the bitmap; `false` outside it. -/
def bitAt (bmp : Bitmap) (index : Nat) : Bool := (bmp.byte (index / 8)).getLsbD (index % 8)

/-- The index addresses a byte of the bitmap. -/
def Bitmap.InRange (bmp : Bitmap) (index : Nat) : Prop := index / 8 < bmp.sizeBytes

instance (bmp : Bitmap) (index : Nat) : Decidable (bmp.InRange index) :=
  inferInstanceAs (Decidable (index / 8 < bmp.sizeBytes))

theorem bitAt_of_not_inRange {bmp : Bitmap} {index : Nat} (h : ¬ bmp.InRange index) :
    bitAt bmp index = false := by
  have hb : bmp.byte (index / 8) = 0 := by
    unfold Bitmap.byte
    rw [List.getD_eq_getElem?_getD, List.getElem?_eq_none (Nat.le_of_not_lt h)]
    rfl
  simp [bitAt, hb]

theorem bmpGetBit_eq (bmp : Bitmap) (index : Nat) :
    bmpGetBit bmp index = if bitAt bmp index then 1 else 0 := by
  by_cases h : bmp.InRange index
  · have hlt : ¬ index / 8 ≥ bmp.sizeBytes := Nat.not_le_of_lt h
    have hbit : (bmp.byte (index / 8) >>> (index % 8)) &&& 1#8
        = if bitAt bmp index then 1#8 else 0#8 := by
      apply BitVec.eq_of_getLsbD_eq
      intro i hi
      rw [BitVec.getLsbD_and, BitVec.getLsbD_ushiftRight]
      by_cases h0 : i = 0
      · subst h0
        cases hb : bitAt bmp index <;> simpa [bitAt] using hb
      · have h1 : (1#8).getLsbD i = false := by simp [h0]
        cases bitAt bmp index <;> simp [h1]
    unfold bmpGetBit
    rw [if_neg hlt, hbit]
    cases bitAt bmp index <;> rfl
  · rw [bitAt_of_not_inRange h]
    unfold bmpGetBit
    rw [if_pos (Nat.le_of_not_lt h)]
    rfl

theorem bmpGetBit_eq_one {bmp : Bitmap} {index : Nat} :
    bmpGetBit bmp index = 1 ↔ bitAt bmp index = true := by
  rw [bmpGetBit_eq]
  cases bitAt bmp index <;> simp

@[simp] theorem bitAt_bmpInit (sizeBits index : Nat) : bitAt (bmpInit sizeBits) index = false := by
  have hb : (bmpInit sizeBits).byte (index / 8) = 0 := by
    unfold Bitmap.byte bmpInit
    rw [List.getD_eq_getElem?_getD, List.getElem?_replicate]
    split <;> rfl
  simp [bitAt, hb]

/-- Rewriting one byte: the bit read afterwards. -/
theorem bitAt_set {bmp : Bitmap} {index : Nat} (h : bmp.InRange index) (v : BitVec 8) (j : Nat) :
    bitAt ⟨bmp.bytes.set (index / 8) v⟩ j
      = if j / 8 = index / 8 then v.getLsbD (j % 8) else bitAt bmp j := by
  unfold bitAt Bitmap.byte
  by_cases hj : j / 8 = index / 8
  · rw [if_pos hj, List.getD_eq_getElem?_getD, hj, List.getElem?_set_self h]
    rfl
  · rw [if_neg hj, List.getD_eq_getElem?_getD, List.getElem?_set_ne (fun hc => hj hc.symm),
      ← List.getD_eq_getElem?_getD]

/-- The mask `1 << (index % 8)` picks bit `index` out of its byte. -/
theorem getLsbD_mask {i j : Nat} (h : j / 8 = i / 8) :
    (1#8 <<< (i % 8)).getLsbD (j % 8) = decide (j = i) := by
  rw [BitVec.getLsbD_shiftLeft]
  have hj : j % 8 < 8 := Nat.mod_lt j (by decide)
  by_cases hlt : j % 8 < i % 8
  · have hne : ¬ j = i := by rintro rfl; omega
    simp [hlt, hne]
  · by_cases hji : j = i
    · subst hji
      simp [hj]
    · have hsub : ¬ j % 8 - i % 8 = 0 := by omega
      simp [hji, hsub]

/-- Or-ing the mask of `index` into its byte sets that bit only. -/
theorem bitAt_or_mask {bmp : Bitmap} {index : Nat} (h : bmp.InRange index) (j : Nat) :
    bitAt ⟨bmp.bytes.set (index / 8) (bmp.byte (index / 8) ||| (1#8 <<< (index % 8)))⟩ j
      = if j = index then true else bitAt bmp j := by
  rw [bitAt_set h]
  by_cases hj : j / 8 = index / 8
  · rw [if_pos hj, BitVec.getLsbD_or, getLsbD_mask hj]
    by_cases hji : j = index
    · simp [hji]
    · simp [hji, bitAt, hj]
  · rw [if_neg hj, if_neg (fun hc => hj (by rw [hc]))]

/-- And-ing the complement of the mask of `index` into its byte clears that bit only. -/
theorem bitAt_and_not_mask {bmp : Bitmap} {index : Nat} (h : bmp.InRange index) (j : Nat) :
    bitAt ⟨bmp.bytes.set (index / 8) (bmp.byte (index / 8) &&& ~~~(1#8 <<< (index % 8)))⟩ j
      = if j = index then false else bitAt bmp j := by
  rw [bitAt_set h]
  by_cases hj : j / 8 = index / 8
  · have hlt : j % 8 < 8 := Nat.mod_lt j (by decide)
    rw [if_pos hj, BitVec.getLsbD_and, BitVec.getLsbD_not, getLsbD_mask hj]
    by_cases hji : j = index
    · simp [hji]
    · simp [hji, hlt, bitAt, hj]
  · rw [if_neg hj, if_neg (fun hc => hj (by rw [hc]))]

/-- Testing a byte against the mask of `index` reads the bit. -/
theorem byte_and_mask_ne_zero {bmp : Bitmap} {index : Nat} :
    bmp.byte (index / 8) &&& (1#8 <<< (index % 8)) ≠ 0 ↔ bitAt bmp index = true := by
  constructor
  · intro hne
    by_contra hb
    apply hne
    apply BitVec.eq_of_getLsbD_eq
    intro i hi
    have hdiv : (index / 8 * 8 + i) / 8 = index / 8 := by omega
    have hmod : (index / 8 * 8 + i) % 8 = i := by omega
    have hmask := getLsbD_mask (i := index) hdiv
    rw [hmod] at hmask
    rw [BitVec.getLsbD_and, hmask]
    by_cases hi' : index / 8 * 8 + i = index
    · have hbit : (bmp.byte (index / 8)).getLsbD i = false := by
        have he : i = index % 8 := by omega
        rw [he]
        simpa [bitAt] using hb
      simp [hbit]
    · simp [hi']
  · intro hb h0
    have hz := congrArg (fun v => v.getLsbD (index % 8)) h0
    simp only [BitVec.getLsbD_and, getLsbD_mask rfl, decide_true, Bool.and_true] at hz
    unfold bitAt at hb
    rw [hb] at hz
    simp at hz

/-- **`bmp_set_bit` writes the bit it names and no other.** -/
theorem bitAt_bmpSetBit (bmp : Bitmap) (index value j : Nat) :
    bitAt (bmpSetBit bmp index value).2 j
      = if j = index ∧ bmp.InRange index then decide (0 < value) else bitAt bmp j := by
  by_cases h : bmp.InRange index
  · have hlt : ¬ index / 8 ≥ bmp.sizeBytes := Nat.not_le_of_lt h
    simp only [bmpSetBit, if_neg hlt, h, and_true]
    by_cases hv : value > 0
    · rw [if_pos hv, bitAt_or_mask h]
      simp [hv]
    · rw [if_neg hv, bitAt_and_not_mask h]
      simp [hv]
  · simp only [bmpSetBit, if_pos (Nat.le_of_not_lt h)]
    rw [if_neg (fun hc => h hc.2)]

/-- **`bmp_toggle_bit` flips the bit it names and no other.** -/
theorem bitAt_bmpToggleBit (bmp : Bitmap) (index j : Nat) :
    bitAt (bmpToggleBit bmp index).2 j
      = if j = index ∧ bmp.InRange index then !bitAt bmp index else bitAt bmp j := by
  by_cases h : bmp.InRange index
  · have hlt : ¬ index / 8 ≥ bmp.sizeBytes := Nat.not_le_of_lt h
    simp only [bmpToggleBit, if_neg hlt, h, and_true]
    by_cases hb : bitAt bmp index = true
    · rw [if_pos (byte_and_mask_ne_zero.mpr hb), bitAt_and_not_mask h, hb]
      simp
    · rw [if_neg (fun hc => hb (byte_and_mask_ne_zero.mp hc)), bitAt_or_mask h]
      simp [hb]
  · simp only [bmpToggleBit, if_pos (Nat.le_of_not_lt h)]
    rw [if_neg (fun hc => h hc.2)]

@[simp] theorem sizeBytes_bmpSetBit (bmp : Bitmap) (index value : Nat) :
    (bmpSetBit bmp index value).2.sizeBytes = bmp.sizeBytes := by
  by_cases h : index / 8 ≥ bmp.sizeBytes
  · simp only [bmpSetBit, if_pos h]
  · by_cases hv : value > 0
    · simp only [bmpSetBit, if_neg h, if_pos hv]
      exact List.length_set
    · simp only [bmpSetBit, if_neg h, if_neg hv]
      exact List.length_set

@[simp] theorem sizeBytes_bmpToggleBit (bmp : Bitmap) (index : Nat) :
    (bmpToggleBit bmp index).2.sizeBytes = bmp.sizeBytes := by
  by_cases h : index / 8 ≥ bmp.sizeBytes
  · simp only [bmpToggleBit, if_pos h]
  · by_cases hb : bmp.byte (index / 8) &&& 1#8 <<< (index % 8) ≠ 0
    · simp only [bmpToggleBit, if_neg h, if_pos hb]
      exact List.length_set
    · simp only [bmpToggleBit, if_neg h, if_neg hb]
      exact List.length_set

@[simp] theorem sizeBytes_bmpInit (sizeBits : Nat) :
    (bmpInit sizeBits).sizeBytes = (sizeBits + 7) / 8 := by
  simp [bmpInit, Bitmap.sizeBytes]

end LearningOS
