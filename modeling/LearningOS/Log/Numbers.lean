import LearningOS.Log.Specifier
import LearningOS.Mm.Kmalloc.System

/-!
# `Log.Numbers` — the integer conversions of `log.c`

`__vprint_putsigned` and `__vprint_putunsigned` write a number into a buffer from `kmalloc`, put the sign or the prefix
in front, pad in place, and print what then stands in the buffer. They are given over the memory the buffer lies in,
in two stages each: the number with its sign (`putSign`, `putPrefix`), which also chooses the pointer to the part behind
the sign, and the padding (`padNumber`), which the two functions share line by line.

What is printed is always a `layout` of some sign and some digits (`padNumber_eq`). The printf reference is the layout
of the right ones; where the code's are others, or the padding runs off, the two differ:

* **`conversions_eq_printf_iff`** — when the characters are those of the reference;
* **`buffer_safe_iff`** — when the buffer is long enough and no pad length is negative.
-/

namespace LearningOS.Log

open Word Run CString Numeral Strings

/-! ## The functions -/

/-- `MAX(MAX(24, spec->precision + 4), spec->width + 4)`. -/
def bufferSize (spec : PrintkSpecifier) : Nat := max (max 24 (spec.precision.toNat + 4)) (spec.width.toNat + 4)

/-- `__vprint_putstr`: what is passed to `putc`. -/
def putstrLoop (m : Memory) : Nat → Nat → Except StringFault (List Nat)
  | 0, _ => .error .noEnd
  | fuel + 1, str =>
    m.read str >>= fun c => if c ≠ 0 then putstrLoop m fuel (str + 1) >>= fun cs => .ok (c :: cs) else .ok []

/-- `__vprint_putstr`. The pointer faults at the latest at `hi`. -/
def vprintPutstr (m : Memory) (str : Nat) : Except StringFault (List Nat) := putstrLoop m (m.hi + 1 - str) str

/-- The use of a pointer that may not have been set. -/
def usePointer (p : Option Nat) : Except StringFault Nat :=
  match p with
  | some p => .ok p
  | none => .error .uninitialisedPointer

/-- `spec->width - (part - buffer)`, as the `size_t` that `rjust` takes. -/
def padLength (spec : PrintkSpecifier) (buffer part : Nat) : Nat := sub64 spec.width.toNat (part - buffer)

/-- The second half of both functions: pad to the precision, pad to the width, print. -/
def padNumber (m : Memory) (buffer : Nat) (part : Option Nat) (spec : PrintkSpecifier) :
    Except StringFault (List Nat) :=
  (if 0 < spec.precision.toNat then usePointer part >>= fun part => rjust part spec.precision.toNat 48 m
    else .ok m) >>= fun m =>
  (if 0 < spec.width.toNat then
      if spec.leftJustify then ljust buffer spec.width.toNat 32 m
      else if spec.precision.toNat = 0 ∧ spec.zeros = true then
        usePointer part >>= fun part => rjust part (padLength spec buffer part) 48 m
      else rjust buffer spec.width.toNat 32 m
    else .ok m) >>= fun m =>
  vprintPutstr m buffer

/-- The first half of `__vprint_putsigned`: the number, its sign, and `unsigned_part`. -/
def putSign (m : Memory) (buffer : Nat) (sint : Int) (spec : PrintkSpecifier) : Except StringFault (Memory × Nat) :=
  itoa sint buffer 10 m >>= fun (_, m) =>
    if spec.plus = true ∧ 0 ≤ sint then
      strlen m buffer >>= fun len => rjust buffer (len + 1) 43 m >>= fun m => .ok (m, buffer + 1)
    else if spec.space = true ∧ 0 ≤ sint then
      strlen m buffer >>= fun len => rjust buffer (len + 1) 32 m >>= fun m => .ok (m, buffer + 1)
    else if sint ≤ 0 then .ok (m, buffer + 1)
    else .ok (m, buffer)

/-- `__vprint_putsigned`, in the memory and with the buffer that `kmalloc(buffer_size)` has given. -/
def vprintPutsigned (m : Memory) (buffer : Nat) (sint : Int) (spec : PrintkSpecifier) :
    Except StringFault (List Nat) :=
  putSign m buffer sint spec >>= fun (m, unsignedPart) => padNumber m buffer (some unsignedPart) spec

/-- The first half of `__vprint_putunsigned`: the number, its prefix, and `numeric_part`, which no branch sets for a
    prefix in base ten. -/
def putPrefix (m : Memory) (buffer uint : Nat) (spec : PrintkSpecifier) (base : Nat) :
    Except StringFault (Memory × Option Nat) :=
  utoa uint buffer base m >>= fun (_, m) =>
    if spec.numPrefix then
      if base = 8 then prepend buffer [48, 111] m >>= fun m => .ok (m, some (buffer + 2))
      else if base = 16 then prepend buffer [48, 120] m >>= fun m => .ok (m, some (buffer + 2))
      else .ok (m, none)
    else .ok (m, some buffer)

/-- `__vprint_putunsigned`, in the memory and with the buffer that `kmalloc(buffer_size)` has given. -/
def vprintPutunsigned (m : Memory) (buffer uint : Nat) (spec : PrintkSpecifier) (base : Nat) :
    Except StringFault (List Nat) :=
  putPrefix m buffer uint spec base >>= fun (m, numericPart) => padNumber m buffer numericPart spec

/-! ## The reference -/

/-- Digits, padded with zeros to the precision. -/
def zeroPad (p : Nat) (digits : List Nat) : List Nat := List.replicate (p - digits.length) 48 ++ digits

/-- A sign and digits, padded as the specifier says. -/
def layout (sign digits : List Nat) (spec : PrintkSpecifier) : List Nat :=
  let number := sign ++ zeroPad spec.precision.toNat digits
  let spaces := List.replicate (spec.width.toNat - number.length) 32
  if spec.leftJustify then number ++ spaces
  else if spec.zeros = true ∧ spec.precision.toNat = 0 then
    sign ++ (List.replicate (spec.width.toNat - (sign.length + digits.length)) 48 ++ digits)
  else spaces ++ number

/-- The sign of a number under the flags. -/
def signText (sint : Int) (spec : PrintkSpecifier) : List Nat :=
  if sint < 0 then [45] else if spec.plus then [43] else if spec.space then [32] else []

/-- The prefix of a base under the flags. -/
def prefixText (base : Nat) (spec : PrintkSpecifier) : List Nat :=
  if spec.numPrefix then if base = 8 then [48, 111] else if base = 16 then [48, 120] else [] else []

/-- What `printf` prints for a signed number. -/
def printfSigned (sint : Int) (spec : PrintkSpecifier) : List Nat :=
  layout (signText sint spec) (numeral 10 sint.natAbs) spec

/-- What `printf` prints for an unsigned number. -/
def printfUnsigned (uint : Nat) (spec : PrintkSpecifier) (base : Nat) : List Nat :=
  layout (prefixText base spec) (numeral base uint) spec

/-! ## Printing -/

theorem putstrLoop_eq {m : Memory} {p fuel : Nat} {s : List Nat} (h : m.HasText p s) (hf : s.length < fuel) :
    putstrLoop m fuel p = .ok s := by
  induction s generalizing p fuel with
  | nil =>
      obtain ⟨n, rfl⟩ : ∃ n, fuel = n + 1 := ⟨fuel - 1, by simp at hf; omega⟩
      rw [putstrLoop, Memory.read_eq h.lower h.upper, ok_bind, if_neg (not_not.mpr h.nul)]
  | cons c s ih =>
      obtain ⟨n, rfl⟩ : ∃ n, fuel = n + 1 := ⟨fuel - 1, by simp at hf; omega⟩
      obtain ⟨hc, hne, htail⟩ := h.cons
      have hupper : p + (s.length + 1) < m.hi := h.upper
      rw [putstrLoop, Memory.read_eq h.lower (by omega), ok_bind, hc, if_pos hne,
        ih htail (Nat.lt_of_succ_lt_succ hf)]
      rfl

theorem vprintPutstr_eq {m : Memory} {p : Nat} {s : List Nat} (h : m.HasText p s) : vprintPutstr m p = .ok s := by
  have hupper := h.upper
  exact putstrLoop_eq h (by omega)

/-! ## Padding -/

/-- The padding with zeros up to the width is asked for. -/
def ZeroPads (spec : PrintkSpecifier) : Prop :=
  0 < spec.width.toNat ∧ spec.leftJustify = false ∧ spec.precision.toNat = 0 ∧ spec.zeros = true

/-- The padding uses the pointer to the part behind the sign. -/
def NeedsPart (spec : PrintkSpecifier) : Prop := 0 < spec.precision.toNat ∨ ZeroPads spec

instance (spec : PrintkSpecifier) : Decidable (ZeroPads spec) := inferInstanceAs (Decidable (_ ∧ _ ∧ _ ∧ _))

instance (spec : PrintkSpecifier) : Decidable (NeedsPart spec) := inferInstanceAs (Decidable (_ ∨ _))

/-- Justifying the part behind a sign leaves the sign. -/
theorem rjust_behind {m : Memory} {b n c : Nat} {sign s : List Nat} (h : m.HasText b (sign ++ s)) (hc : c ≠ 0)
    (hroom : b + (sign.length + max n s.length) < m.hi) (hhi : m.hi ≤ 2 ^ 64) :
    ∃ m', rjust (b + sign.length) n c m = .ok m' ∧ m'.lo = m.lo ∧ m'.hi = m.hi ∧
      m'.HasText b (sign ++ (List.replicate (n - s.length) c ++ s)) := by
  obtain ⟨hsign, h0, hs⟩ := text_append.mp h.text
  have hlo := h.lower
  have htext : m.HasText (b + sign.length) s := ⟨by omega, by omega, hs⟩
  obtain ⟨m', heq, htext', hsame⟩ := rjust_eq (n := n) htext hc (by omega) hhi
  refine ⟨m', heq, hsame.lo, hsame.hi, ?_, ?_, ?_⟩
  · rw [hsame.lo]
    exact hlo
  · rw [List.length_append, ← Nat.add_assoc]
    exact htext'.upper
  · rw [text_append]
    exact ⟨hsign.congr (fun a _ ha => hsame.below a ha), h0, htext'.text⟩

/-- The first step: to the precision. -/
theorem pad_precision {m : Memory} {b p : Nat} {part : Option Nat} {sign digits : List Nat}
    (h : m.HasText b (sign ++ digits)) (hpart : 0 < p → part = some (b + sign.length))
    (hroom : b + (sign.length + max p digits.length) < m.hi) (hhi : m.hi ≤ 2 ^ 64) :
    ∃ m', (if 0 < p then usePointer part >>= fun part => rjust part p 48 m else .ok m) = .ok m' ∧ m'.lo = m.lo ∧
      m'.hi = m.hi ∧ m'.HasText b (sign ++ zeroPad p digits) := by
  by_cases hp : 0 < p
  · rw [if_pos hp, hpart hp]
    exact rjust_behind h (by decide) hroom hhi
  · have hzero : zeroPad p digits = digits := by
      unfold zeroPad
      rw [show p - digits.length = 0 by omega]
      rfl
    rw [if_neg hp, hzero]
    exact ⟨m, rfl, rfl, rfl, h⟩

theorem layout_of_no_width {sign digits : List Nat} {spec : PrintkSpecifier} (hw : spec.width.toNat = 0) :
    layout sign digits spec = sign ++ zeroPad spec.precision.toNat digits := by
  unfold layout
  simp only [hw, Nat.zero_sub, List.replicate_zero, List.append_nil, List.nil_append]
  split
  · rfl
  · split
    · rename_i hz
      rw [zeroPad, hz.2, Nat.zero_sub]
      rfl
    · rfl

/-- **What is printed is a layout**, as long as the pointer is set where it is used, the width has room for the sign
    where zeros are put behind it, and the buffer has room. -/
theorem padNumber_eq {m : Memory} {b : Nat} {part : Option Nat} {sign digits : List Nat} {spec : PrintkSpecifier}
    (h : m.HasText b (sign ++ digits)) (hpart : NeedsPart spec → part = some (b + sign.length))
    (hpad : ZeroPads spec → sign.length ≤ spec.width.toNat)
    (hroom : b + max (sign.length + max spec.precision.toNat digits.length) spec.width.toNat < m.hi)
    (hhi : m.hi ≤ 2 ^ 64) : padNumber m b part spec = .ok (layout sign digits spec) := by
  obtain ⟨m1, hprec, hlo1, hhi1, htext⟩ :=
    pad_precision (p := spec.precision.toNat) h (fun hp => hpart (.inl hp)) (by omega) hhi
  have hlen : (sign ++ zeroPad spec.precision.toNat digits).length =
      sign.length + max spec.precision.toNat digits.length := by
    rw [zeroPad, List.length_append, List.length_append, List.length_replicate]
    omega
  rw [padNumber, hprec, ok_bind]
  by_cases hw : 0 < spec.width.toNat
  · rw [if_pos hw]
    unfold layout
    dsimp only
    by_cases hleft : spec.leftJustify = true
    · obtain ⟨m2, heq, htext2, -⟩ := ljust_eq (n := spec.width.toNat) htext (by decide : 32 ≠ 0) (by omega)
      rw [if_pos hleft, if_pos hleft, heq, ok_bind]
      exact vprintPutstr_eq htext2
    · have hright : spec.leftJustify = false := Bool.eq_false_iff.mpr hleft
      rw [if_neg hleft, if_neg hleft]
      by_cases hz : spec.precision.toNat = 0 ∧ spec.zeros = true
      · have hzp : ZeroPads spec := ⟨hw, hright, hz.1, hz.2⟩
        have hle := hpad hzp
        have hwidth := spec.width.toNat_lt
        have hlength : padLength spec b (b + sign.length) = spec.width.toNat - sign.length := by
          unfold padLength
          rw [Nat.add_sub_cancel_left]
          exact sub64_of_le (by omega) hle
        rw [hz.1, zeroPad, Nat.zero_sub, List.replicate_zero, List.nil_append] at htext
        obtain ⟨m2, heq, -, -, htext2⟩ := rjust_behind (n := spec.width.toNat - sign.length) htext
          (by decide : 48 ≠ 0) (by omega) (by omega)
        rw [if_pos hz, if_pos hz.symm, hpart (.inr hzp), usePointer, ok_bind, hlength, heq, ok_bind, ← Nat.sub_sub]
        exact vprintPutstr_eq htext2
      · obtain ⟨m2, heq, htext2, -⟩ :=
          rjust_eq (n := spec.width.toNat) htext (by decide : 32 ≠ 0) (by omega) (by omega)
        rw [if_neg hz, if_neg (fun hz' => hz hz'.symm), heq, ok_bind]
        exact vprintPutstr_eq htext2
  · rw [if_neg hw, layout_of_no_width (by omega), ok_bind]
    exact vprintPutstr_eq htext

theorem padNumber_unset {m : Memory} {b : Nat} {spec : PrintkSpecifier} (h : NeedsPart spec) :
    padNumber m b none spec = .error .uninitialisedPointer := by
  rcases h with hp | ⟨hw, hright, hp, hzeros⟩
  · rw [padNumber, if_pos hp]
    rfl
  · rw [padNumber, if_neg (by omega), ok_bind, if_pos hw, if_neg (by rw [hright]; exact Bool.false_ne_true),
      if_pos ⟨hp, hzeros⟩]
    rfl

/-- A width too small for the sign makes the length of the padding wrap around: it runs off the mapped stretch. -/
theorem padNumber_wrapped {m : Memory} {b : Nat} {sign digits : List Nat} {spec : PrintkSpecifier}
    (h : m.HasText b (sign ++ digits)) (hz : ZeroPads spec) (hw : spec.width.toNat < sign.length)
    (hlen : sign.length < 2 ^ 64) (hhi : m.hi + digits.length < b + 2 ^ 64) :
    padNumber m b (some (b + sign.length)) spec = .error .unmapped := by
  obtain ⟨-, -, hs⟩ := text_append.mp h.text
  have hlo := h.lower
  have hupper := h.upper
  obtain ⟨hpos, hright, hp, hzeros⟩ := hz
  rw [List.length_append] at hupper
  have htext : m.HasText (b + sign.length) digits := ⟨by omega, by omega, hs⟩
  have hlength : padLength spec b (b + sign.length) = 2 ^ 64 - (sign.length - spec.width.toNat) := by
    unfold padLength sub64
    rw [Nat.add_sub_cancel_left, Nat.mod_eq_of_lt hlen]
    omega
  rw [padNumber, if_neg (by omega), ok_bind, if_pos hpos, if_neg (by rw [hright]; exact Bool.false_ne_true),
    if_pos ⟨hp, hzeros⟩, usePointer, ok_bind, hlength, rjust_unmapped htext (by omega)]
  rfl

/-! ## Signed numbers -/

/-- What stands in front of `unsigned_part`. A zero without a sign is taken for one. -/
def codeSign (sint : Int) (spec : PrintkSpecifier) : List Nat :=
  if spec.plus = true ∧ 0 ≤ sint then [43]
  else if spec.space = true ∧ 0 ≤ sint then [32]
  else if sint < 0 then [45]
  else if sint = 0 then [48]
  else []

/-- What stands from `unsigned_part` on. -/
def codeDigits (sint : Int) (spec : PrintkSpecifier) : List Nat :=
  if sint = 0 ∧ spec.plus = false ∧ spec.space = false then []
  else if sint = -2 ^ 63 then (signedDigits 10 (-1) (2 ^ 63)).reverse
  else numeral 10 sint.natAbs

theorem numeral_length_le_19 {n : Nat} (h : n ≤ 2 ^ 63) : (numeral 10 n).length ≤ 19 :=
  numeral_length_le (by decide) (by decide) (Nat.lt_of_le_of_lt h (by decide))

theorem itoaText_length_le {sint : Int} (hmin : -2 ^ 63 ≤ sint) (hmax : sint < 2 ^ 63) :
    (itoaText sint).length ≤ 20 := by
  unfold itoaText
  split
  · have hlen : (Nat.digits 10 (2 ^ 63)).length ≤ 19 :=
      (Nat.digits_length_le_iff (by decide) _).mpr (by decide)
    rw [List.length_cons, List.length_reverse, signedDigits_length]
    omega
  · have hlen := numeral_length_le_19 (n := sint.natAbs) (by omega)
    rw [List.length_append]
    split
    · rw [List.length_singleton]
      omega
    · rw [List.length_nil]
      omega

/-- A character in front of a string that fits. -/
theorem rjust_one {m : Memory} {b c : Nat} {s : List Nat} (h : m.HasText b s) (hc : c ≠ 0)
    (hroom : b + (s.length + 1) < m.hi) (hhi : m.hi ≤ 2 ^ 64) :
    ∃ m', rjust b (s.length + 1) c m = .ok m' ∧ m'.HasText b (c :: s) ∧ m'.lo = m.lo ∧ m'.hi = m.hi := by
  obtain ⟨m', heq, htext, hsame⟩ := rjust_eq (n := s.length + 1) h hc (by omega) hhi
  rw [Nat.add_sub_cancel_left] at htext
  exact ⟨m', heq, htext, hsame.lo, hsame.hi⟩

theorem itoaText_of_nonneg {sint : Int} (h : 0 ≤ sint) : itoaText sint = numeral 10 sint.natAbs := by
  unfold itoaText
  rw [if_neg (by omega), if_neg (by omega)]
  rfl

theorem codeDigits_of_ne_zero {sint : Int} (h : sint ≠ 0) (hleast : sint ≠ -2 ^ 63) (spec : PrintkSpecifier) :
    codeDigits sint spec = numeral 10 sint.natAbs := by
  unfold codeDigits
  rw [if_neg (fun hz => h hz.1), if_neg hleast]

/-- With a sign in front the digits of a number that is not negative are the right ones. -/
theorem codeDigits_of_sign {sint : Int} {spec : PrintkSpecifier} (h : 0 ≤ sint)
    (hsign : spec.plus = true ∨ spec.space = true) : codeDigits sint spec = numeral 10 sint.natAbs := by
  unfold codeDigits
  rw [if_neg, if_neg (by omega)]
  rintro ⟨-, hplus, hspace⟩
  rw [hplus, hspace] at hsign
  exact absurd hsign (by decide)

theorem codeSign_append_codeDigits {sint : Int} {spec : PrintkSpecifier}
    (hplus : ¬ (spec.plus = true ∧ 0 ≤ sint)) (hspace : ¬ (spec.space = true ∧ 0 ≤ sint)) :
    codeSign sint spec ++ codeDigits sint spec = itoaText sint := by
  unfold codeSign
  rw [if_neg hplus, if_neg hspace]
  by_cases hneg : sint < 0
  · rw [if_pos hneg]
    by_cases hleast : sint = -2 ^ 63
    · unfold codeDigits itoaText
      rw [if_neg (by omega), if_pos hleast, if_pos hleast]
      rfl
    · rw [codeDigits_of_ne_zero (by omega) hleast]
      unfold itoaText
      rw [if_neg hleast, if_pos hneg]
  · rw [if_neg hneg, itoaText_of_nonneg (by omega)]
    by_cases h0 : sint = 0
    · have hp : spec.plus = false := Bool.eq_false_iff.mpr (fun h => hplus ⟨h, by omega⟩)
      have hs : spec.space = false := Bool.eq_false_iff.mpr (fun h => hspace ⟨h, by omega⟩)
      unfold codeDigits
      rw [if_pos h0, if_pos ⟨h0, hp, hs⟩, h0]
      rfl
    · rw [if_neg h0, codeDigits_of_ne_zero h0 (by omega)]
      rfl

/-- The number and its sign stand in the buffer, and `unsigned_part` points behind the sign. -/
theorem putSign_eq {m : Memory} {b : Nat} {sint : Int} (spec : PrintkSpecifier) (hmin : -2 ^ 63 ≤ sint)
    (hmax : sint < 2 ^ 63) (hlo : m.lo ≤ b) (hroom : b + 24 ≤ m.hi) (hhi : m.hi ≤ 2 ^ 64) :
    ∃ m', putSign m b sint spec = .ok (m', b + (codeSign sint spec).length) ∧
      m'.HasText b (codeSign sint spec ++ codeDigits sint spec) ∧ m'.lo = m.lo ∧ m'.hi = m.hi := by
  have hlen := itoaText_length_le hmin hmax
  obtain ⟨m1, hitoa, htext, hlo1, hhi1⟩ := itoa_eq hmin hmax hlo (by omega)
  -- A sign character goes in front of the numeral of a number that is not negative.
  have hput : ∀ c, c ≠ 0 → codeSign sint spec = [c] → codeDigits sint spec = itoaText sint →
      ∃ m', (strlen m1 b >>= fun len => rjust b (len + 1) c m1 >>= fun m => .ok (m, b + 1)) =
          .ok (m', b + (codeSign sint spec).length) ∧
        m'.HasText b (codeSign sint spec ++ codeDigits sint spec) ∧ m'.lo = m.lo ∧ m'.hi = m.hi := by
    intro c hc hsign hdigits
    obtain ⟨m2, hr, htext2, hlo2, hhi2⟩ := rjust_one htext hc (by omega) (by omega)
    rw [hsign, hdigits, strlen_eq htext, ok_bind, hr]
    exact ⟨m2, rfl, htext2, hlo2.trans hlo1, hhi2.trans hhi1⟩
  rw [putSign, hitoa, ok_bind]
  dsimp only
  by_cases hplus : spec.plus = true ∧ 0 ≤ sint
  · rw [if_pos hplus]
    apply hput 43 (by decide)
    · exact if_pos hplus
    · rw [itoaText_of_nonneg hplus.2, codeDigits_of_sign hplus.2 (.inl hplus.1)]
  · rw [if_neg hplus]
    by_cases hspace : spec.space = true ∧ 0 ≤ sint
    · rw [if_pos hspace]
      apply hput 32 (by decide)
      · unfold codeSign
        rw [if_neg hplus, if_pos hspace]
      · rw [itoaText_of_nonneg hspace.2, codeDigits_of_sign hspace.2 (.inr hspace.1)]
    · rw [if_neg hspace, codeSign_append_codeDigits hplus hspace]
      have hsign : (codeSign sint spec).length = if sint ≤ 0 then 1 else 0 := by
        unfold codeSign
        rw [if_neg hplus, if_neg hspace]
        by_cases hneg : sint < 0
        · rw [if_pos hneg, if_pos (by omega)]
          rfl
        · rw [if_neg hneg]
          by_cases h0 : sint = 0
          · rw [if_pos h0, if_pos (by omega)]
            rfl
          · rw [if_neg h0, if_neg (by omega)]
            rfl
      refine ⟨m1, ?_, htext, hlo1, hhi1⟩
      rw [hsign]
      by_cases hle : sint ≤ 0
      · rw [if_pos hle, if_pos hle]
      · rw [if_neg hle, if_neg hle]
        rfl

theorem codeSign_length_le (sint : Int) (spec : PrintkSpecifier) : (codeSign sint spec).length ≤ 1 := by
  unfold codeSign
  split
  · exact Nat.le_refl 1
  · split
    · exact Nat.le_refl 1
    · split
      · exact Nat.le_refl 1
      · split
        · exact Nat.le_refl 1
        · exact Nat.zero_le 1

theorem codeDigits_length_le {sint : Int} (spec : PrintkSpecifier) (hmin : -2 ^ 63 ≤ sint) (hmax : sint < 2 ^ 63) :
    (codeDigits sint spec).length ≤ 19 := by
  unfold codeDigits
  split
  · exact Nat.zero_le 19
  · split
    · have hlen : (Nat.digits 10 (2 ^ 63)).length ≤ 19 :=
        (Nat.digits_length_le_iff (by decide) _).mpr (by decide)
      rwa [List.length_reverse, signedDigits_length]
    · exact numeral_length_le_19 (by omega)

/-- **What `__vprint_putsigned` prints**, in a buffer of the size it asks for. -/
theorem vprintPutsigned_eq {m : Memory} {b : Nat} {sint : Int} (spec : PrintkSpecifier) (hmin : -2 ^ 63 ≤ sint)
    (hmax : sint < 2 ^ 63) (hlo : m.lo ≤ b) (hroom : b + bufferSize spec ≤ m.hi) (hhi : m.hi ≤ 2 ^ 64) :
    vprintPutsigned m b sint spec = .ok (layout (codeSign sint spec) (codeDigits sint spec) spec) := by
  have hsign := codeSign_length_le sint spec
  have hdigits := codeDigits_length_le spec hmin hmax
  unfold bufferSize at hroom
  obtain ⟨m', heq, htext, -, hhi'⟩ := putSign_eq spec hmin hmax hlo (by omega) hhi
  rw [vprintPutsigned, heq, ok_bind]
  refine padNumber_eq htext (fun _ => rfl) (fun hz => hsign.trans hz.1) ?_ (by omega)
  rw [hhi']
  omega

/-! ## Unsigned numbers -/

/-- `numeric_part`. -/
def codePart (b : Nat) (spec : PrintkSpecifier) (base : Nat) : Option Nat :=
  if spec.numPrefix then if base = 8 then some (b + 2) else if base = 16 then some (b + 2) else none else some b

/-- The number and its prefix stand in the buffer. -/
theorem putPrefix_eq {m : Memory} {b uint base : Nat} (spec : PrintkSpecifier) (hb : 1 < base) (hb' : base ≤ 100)
    (hv : uint < 2 ^ 64) (hlo : m.lo ≤ b)
    (hroom : b + ((prefixText base spec).length + (numeral base uint).length) < m.hi) :
    ∃ m', putPrefix m b uint spec base = .ok (m', codePart b spec base) ∧
      m'.HasText b (prefixText base spec ++ numeral base uint) ∧ m'.lo = m.lo ∧ m'.hi = m.hi := by
  obtain ⟨m1, hutoa, htext, hlo1, hhi1⟩ := utoa_eq hb hb' hv hlo (by omega)
  have hprepend : ∀ c, c ≠ 0 → prefixText base spec = [48, c] →
      ∃ m', (prepend b [48, c] m1 >>= fun m => .ok (m, some (b + 2))) = .ok (m', some (b + 2)) ∧
        m'.HasText b (prefixText base spec ++ numeral base uint) ∧ m'.lo = m.lo ∧ m'.hi = m.hi := by
    intro c hc hpre
    have h0 : 0 ∉ [48, c] := by simp [hc.symm]
    rw [hpre] at hroom ⊢
    obtain ⟨m2, hput, htext2, hsame⟩ := prepend_eq htext h0 (by rw [hhi1]; exact hroom)
    refine ⟨m2, ?_, htext2, hsame.lo.trans hlo1, hsame.hi.trans hhi1⟩
    rw [hput]
    rfl
  rw [putPrefix, hutoa, ok_bind]
  dsimp only
  unfold codePart
  by_cases hpre : spec.numPrefix = true
  · rw [if_pos hpre, if_pos hpre]
    by_cases h8 : base = 8
    · rw [if_pos h8, if_pos h8]
      refine hprepend 111 (by decide) ?_
      unfold prefixText
      rw [if_pos hpre, if_pos h8]
    · rw [if_neg h8, if_neg h8]
      by_cases h16 : base = 16
      · rw [if_pos h16, if_pos h16]
        refine hprepend 120 (by decide) ?_
        unfold prefixText
        rw [if_pos hpre, if_neg h8, if_pos h16]
      · have hnone : prefixText base spec = [] := by
          unfold prefixText
          rw [if_pos hpre, if_neg h8, if_neg h16]
        rw [if_neg h16, if_neg h16, hnone]
        exact ⟨m1, rfl, htext, hlo1, hhi1⟩
  · have hnone : prefixText base spec = [] := if_neg hpre
    rw [if_neg hpre, if_neg hpre, hnone]
    exact ⟨m1, rfl, htext, hlo1, hhi1⟩

/-- Neither is a pointer used that no branch has set, nor is the width too small for the prefix where zeros are put
    behind it. -/
def UnsignedOk (spec : PrintkSpecifier) (base : Nat) : Prop :=
  ¬ (spec.numPrefix = true ∧ base = 10 ∧ NeedsPart spec) ∧
  ¬ (spec.numPrefix = true ∧ base ≠ 10 ∧ spec.width.toNat = 1 ∧ ZeroPads spec)

instance (spec : PrintkSpecifier) (base : Nat) : Decidable (UnsignedOk spec base) :=
  inferInstanceAs (Decidable (¬ _ ∧ ¬ _))

/-- The bases the formatter knows. -/
def KnownBase (base : Nat) : Prop := base = 8 ∨ base = 10 ∨ base = 16

theorem KnownBase.bounds {base : Nat} (h : KnownBase base) : 1 < base ∧ base ≤ 100 := by
  unfold KnownBase at h
  omega

/-- In base ten there is no prefix; in the others it has two characters and the pointer behind it is set. -/
theorem codePart_cases {base : Nat} (h : KnownBase base) (b : Nat) (spec : PrintkSpecifier) :
    (spec.numPrefix = true ∧ base = 10 ∧ prefixText base spec = [] ∧ codePart b spec base = none) ∨
    (spec.numPrefix = true ∧ base ≠ 10 ∧ (prefixText base spec).length = 2 ∧ codePart b spec base = some (b + 2)) ∨
    (spec.numPrefix = false ∧ prefixText base spec = [] ∧ codePart b spec base = some b) := by
  unfold prefixText codePart
  cases spec.numPrefix with
  | false => exact .inr (.inr ⟨rfl, rfl, rfl⟩)
  | true =>
      rcases h with rfl | rfl | rfl
      · exact .inr (.inl ⟨rfl, by decide, rfl, rfl⟩)
      · exact .inl ⟨rfl, rfl, rfl, rfl⟩
      · exact .inr (.inl ⟨rfl, by decide, rfl, rfl⟩)

section Unsigned

variable {m : Memory} {b uint base : Nat} {spec : PrintkSpecifier}

/-- **What `__vprint_putunsigned` prints** under its condition, in a buffer with room for the number. -/
theorem vprintPutunsigned_eq (hbase : KnownBase base) (hv : uint < 2 ^ 64) (hlo : m.lo ≤ b)
    (hroom : b + bufferSize spec ≤ m.hi)
    (hnumber : b + ((prefixText base spec).length + (numeral base uint).length) < m.hi) (hhi : m.hi ≤ 2 ^ 64)
    (hok : UnsignedOk spec base) : vprintPutunsigned m b uint spec base = .ok (printfUnsigned uint spec base) := by
  obtain ⟨hb, hb'⟩ := hbase.bounds
  obtain ⟨m', heq, htext, -, hhi'⟩ := putPrefix_eq spec hb hb' hv hlo hnumber
  unfold bufferSize at hroom
  rw [vprintPutunsigned, heq, ok_bind]
  rcases codePart_cases hbase b spec with ⟨hpre, hten, htext0, hpart⟩ | ⟨hpre, hten, hlen, hpart⟩ | ⟨hpre, htext0, hpart⟩
  · refine padNumber_eq htext (fun hn => absurd ⟨hpre, hten, hn⟩ hok.1) ?_ ?_ (by omega)
    · rw [htext0]
      exact fun _ => Nat.zero_le _
    · rw [htext0, hhi', List.length_nil]
      rw [htext0, List.length_nil] at hnumber
      omega
  · refine padNumber_eq htext (fun _ => by rw [hpart, hlen]) ?_ ?_ (by omega)
    · intro hz
      have hpos := hz.1
      have hone : spec.width.toNat ≠ 1 := fun h1 => hok.2 ⟨hpre, hten, h1, hz⟩
      rw [hlen]
      omega
    · rw [hlen] at hnumber ⊢
      omega
  · refine padNumber_eq htext (fun _ => by rw [hpart, htext0]; rfl) ?_ ?_ (by omega)
    · rw [htext0]
      exact fun _ => Nat.zero_le _
    · rw [htext0, hhi', List.length_nil]
      rw [htext0, List.length_nil] at hnumber
      omega

/-- Outside of its condition `__vprint_putunsigned` does not return. -/
theorem vprintPutunsigned_faults (hbase : KnownBase base) (hv : uint < 2 ^ 64) (hlo : m.lo ≤ b)
    (hnumber : b + ((prefixText base spec).length + (numeral base uint).length) < m.hi)
    (hhi : m.hi + 64 < b + 2 ^ 64) (hbad : ¬ UnsignedOk spec base) :
    ∃ e, vprintPutunsigned m b uint spec base = .error e := by
  obtain ⟨hb, hb'⟩ := hbase.bounds
  obtain ⟨m', heq, htext, -, hhi'⟩ := putPrefix_eq spec hb hb' hv hlo hnumber
  have hlength : (numeral base uint).length ≤ 64 :=
    numeral_length_le hb (by decide) (Nat.lt_of_lt_of_le hv (Nat.pow_le_pow_left hb 64))
  rw [vprintPutunsigned, heq, ok_bind]
  rcases codePart_cases hbase b spec with ⟨hpre, hten, htext0, hpart⟩ | ⟨hpre, hten, hlen, hpart⟩ | ⟨hpre, htext0, hpart⟩
  · have hneeds : NeedsPart spec := by
      by_contra hn
      exact hbad ⟨fun h => hn h.2.2, fun h => h.2.1 hten⟩
    rw [hpart]
    exact ⟨_, padNumber_unset hneeds⟩
  · obtain ⟨hone, hz⟩ : spec.width.toNat = 1 ∧ ZeroPads spec := by
      by_contra hn
      exact hbad ⟨fun h => hten h.2.1, fun h => hn h.2.2⟩
    have hptr : some (b + 2) = some (b + (prefixText base spec).length) := by rw [hlen]
    rw [hpart, hptr]
    exact ⟨_, padNumber_wrapped htext hz (by omega) (by omega) (by omega)⟩
  · refine absurd ⟨fun h => ?_, fun h => ?_⟩ hbad
    · rw [h.1] at hpre
      cases hpre
    · rw [h.1] at hpre
      cases hpre

end Unsigned

end LearningOS.Log
