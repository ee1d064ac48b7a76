import LearningOS.Utility.Strings

/-!
# `Utility.InPlace` — the in-place functions of `utility/strings.c`, pointer by pointer

`prepend` and `rjust` shift a string over itself: the last byte first, with two pointers that count down until one is
below the string. `Utility.Strings` has that shift as a count of bytes. Here it is the loop of the source, and the
prefix is a string in the same memory, which may be empty; `rjust_refines` and `prepend_refines` take the functions to
those of `Utility.Strings`. What all of them leave in memory, byte by byte, is `in_place_strings`.
-/

namespace LearningOS.InPlace

open Word Run CString Numeral Strings

/-! ## Model -/

/-- `while (end >= str) *(shifted--) = *(end--);`, for at most `n` rounds. -/
def shiftLoop (str : Nat) : Nat → Nat → Nat → Memory → Except StringFault Memory
  | 0, _, _, _ => .error .noEnd
  | n + 1, last, shifted, m =>
    if str ≤ last then
      m.read last >>= fun c => m.write shifted c >>= fun m => shiftLoop str n (sub64 last 1) (sub64 shifted 1) m
    else .ok m

/-- `while (*prefix) *(end++) = *(prefix++);`, for at most `n` rounds. -/
def copyLoop : Nat → Nat → Nat → Memory → Except StringFault Memory
  | 0, _, _, _ => .error .noEnd
  | n + 1, pre, last, m =>
    m.read pre >>= fun c =>
      if c ≠ 0 then m.write last c >>= fun m => copyLoop n (pre + 1) (last + 1) m else .ok m

/-- `prepend`. -/
def prepend (str pre : Nat) (m : Memory) : Except StringFault Memory :=
  strlen m pre >>= fun shift =>
    strlen m str >>= fun length =>
      let last := add64 str length
      shiftLoop str (m.hi + 1 - str) last (add64 last shift) m >>= fun m => copyLoop (m.hi + 1 - pre) pre str m

/-- `rjust`. -/
def rjust (str n padChar : Nat) (m : Memory) : Except StringFault Memory :=
  strlen m str >>= fun length =>
    if length < n then
      let pad := n - length
      let last := add64 str length
      shiftLoop str (m.hi + 1 - str) last (add64 last pad) m >>= fun m => padFrom padChar pad str m
    else .ok m

/-! ## The shift -/

/-- From the last of `k` bytes on, the loop shifts the `k` bytes and stops below the first. -/
theorem shiftLoop_eq {str dst k fuel : Nat} (hstr : 0 < str) (hle : str ≤ dst) (hwrap : dst + k ≤ 2 ^ 64)
    (hf : k < fuel) (m : Memory) :
    shiftLoop str fuel (str + k - 1) (dst + k - 1) m = shiftRight str dst k m := by
  induction k generalizing fuel m with
  | zero =>
      -- `last` has come to the byte below the string: the loop ends.
      obtain ⟨fuel, rfl⟩ := Nat.exists_eq_succ_of_ne_zero (Nat.ne_of_gt hf)
      have hstop : ¬ str ≤ str + 0 - 1 := by omega
      rw [shiftLoop, if_neg hstop]
      rfl
  | succ k ih =>
      obtain ⟨fuel, rfl⟩ := Nat.exists_eq_succ_of_ne_zero (Nat.ne_of_gt (Nat.zero_lt_of_lt hf))
      rw [← Nat.add_assoc, ← Nat.add_assoc, Nat.add_sub_cancel, Nat.add_sub_cancel]
      rw [shiftLoop, if_pos (Nat.le_add_right str k), sub64_of_le (by omega) (by omega),
        sub64_of_le (by omega) (by omega)]
      have hrest : ∀ m, shiftLoop str fuel (str + k - 1) (dst + k - 1) m = shiftRight str dst k m :=
        fun m => ih (by omega) (Nat.lt_of_succ_lt_succ hf) m
      simp only [hrest]
      rfl

/-- The whole string moves, with its terminator. -/
theorem shiftLoop_text {m : Memory} {str shift : Nat} {s : List Nat} (hlo : 0 < m.lo) (hhi : m.hi ≤ 2 ^ 64)
    (h : m.HasText str s) (hroom : str + (shift + s.length) < m.hi) :
    shiftLoop str (m.hi + 1 - str) (add64 str s.length) (add64 (add64 str s.length) shift) m =
      shiftRight str (str + shift) (s.length + 1) m := by
  have hlower := h.lower
  have hlast : add64 str s.length = str + (s.length + 1) - 1 := by
    rw [add64_of_lt (by omega)]
    omega
  have hshifted : add64 (add64 str s.length) shift = str + shift + (s.length + 1) - 1 := by
    rw [add64_of_lt (by omega), add64_of_lt (by omega)]
    omega
  rw [hshifted, hlast]
  exact shiftLoop_eq (by omega) (Nat.le_add_right str shift) (by omega) (by omega) m

/-! ## Refinement -/

/-- The copy of a prefix that stands elsewhere. -/
theorem copyLoop_eq {m : Memory} {q a fuel : Nat} {pre : List Nat} (h : m.HasText q pre)
    (hapart : q + pre.length < a ∨ a + pre.length ≤ q) (hlo : m.lo ≤ a) (hhi : a + pre.length ≤ m.hi)
    (hf : pre.length < fuel) : copyLoop fuel q a m = copyString pre a m := by
  induction pre generalizing m q a fuel with
  | nil =>
      obtain ⟨fuel, rfl⟩ := Nat.exists_eq_succ_of_ne_zero (Nat.ne_of_gt hf)
      rw [copyLoop, Memory.read_eq h.lower h.upper, ok_bind, h.nul]
      rfl
  | cons c pre ih =>
      -- The byte that is written is outside the rest of the prefix, which the loop still has to read.
      obtain ⟨fuel, rfl⟩ := Nat.exists_eq_succ_of_ne_zero (Nat.ne_of_gt (Nat.zero_lt_of_lt hf))
      obtain ⟨hc, hne, htail⟩ := h.cons
      have hupper := h.upper
      rw [List.length_cons] at hapart hhi hf hupper
      have htail' := htail.update (a := a) c (by omega)
      have hrest := ih htail' (a := a + 1) (by omega) (Nat.le_succ_of_le hlo) (show a + 1 + pre.length ≤ m.hi by omega)
        (Nat.lt_of_succ_lt_succ hf)
      rw [copyLoop, Memory.read_eq h.lower (by omega), ok_bind, hc, if_pos hne, copyString,
        Memory.write_eq hlo (by omega), ok_bind, ok_bind]
      exact hrest

section

variable {m : Memory} {str : Nat} {s : List Nat}

/-- **`rjust`, refined.** -/
theorem rjust_refines {n : Nat} (hlo : 0 < m.lo) (hhi : m.hi ≤ 2 ^ 64) (h : m.HasText str s) (c : Nat)
    (hroom : str + max n s.length < m.hi) : rjust str n c m = Strings.rjust str n c m := by
  rw [rjust, Strings.rjust, strlen_eq h, ok_bind, ok_bind]
  by_cases hn : s.length < n
  · have hptr : add64 str (n - s.length) = str + (n - s.length) := add64_of_lt (by omega)
    rw [if_pos hn, if_pos hn]
    dsimp only
    rw [hptr, shiftLoop_text hlo hhi h (by omega)]
  · rw [if_neg hn, if_neg hn]

/-- **`prepend`, refined**, where the prefix is a string apart from the bytes that are written. -/
theorem prepend_refines {q : Nat} {pre : List Nat} (hlo : 0 < m.lo) (hhi : m.hi ≤ 2 ^ 64) (h : m.HasText str s)
    (hpre : m.HasText q pre) (hroom : str + (pre.length + s.length) < m.hi)
    (hapart : q + pre.length < str ∨ str + (pre.length + s.length) < q) :
    prepend str q m = Strings.prepend str pre m := by
  have hlower := h.lower
  have hupper := hpre.upper
  rw [prepend, Strings.prepend, strlen_eq hpre, strlen_eq h, ok_bind, ok_bind, ok_bind]
  dsimp only
  rw [shiftLoop_text hlo hhi h hroom, shiftRight_eq hlower (Nat.le_add_right _ _) (by omega), ok_bind, ok_bind]
  -- The shift has left the prefix alone.
  have hmoved : Memory.HasText ⟨m.lo, m.hi, move m.byte (str + pre.length) str (s.length + 1)⟩ q pre := by
    refine ⟨hpre.lower, hpre.upper, ?_, hpre.text.2⟩
    apply hpre.text.1.congr
    intro a ha ha'
    rw [List.length_append, List.length_singleton] at ha'
    exact move_of_outside (by omega)
  apply copyLoop_eq hmoved
  · omega
  · exact hlower
  · show str + pre.length ≤ m.hi
    omega
  · show pre.length < m.hi + 1 - q
    omega

end

/-! ## What is left in memory -/

/-- **In-place strings.** Each function leaves the text it is to leave, with a terminator, and every other byte as it was:
    `rjust` and `ljust` for every length and pad character, `prepend` for every prefix, and `utoa` for every value and
    base the one numeral of the value. -/
theorem in_place_strings {m : Memory} (hlo : 0 < m.lo) (hhi : m.hi ≤ 2 ^ 64) :
    (∀ str s, m.HasText str s →
      (∀ n c, str + max n s.length < m.hi →
        ∃ m', rjust str n c m = .ok m' ∧ m.Leaves m' str (List.replicate (n - s.length) c ++ s)) ∧
      (∀ n c, str + max n s.length < m.hi →
        ∃ m', ljust str n c m = .ok m' ∧ m.Leaves m' str (s ++ List.replicate (n - s.length) c)) ∧
      ∀ q pre, m.HasText q pre → str + (pre.length + s.length) < m.hi →
        q + pre.length < str ∨ str + (pre.length + s.length) < q →
        ∃ m', prepend str q m = .ok m' ∧ m.Leaves m' str (pre ++ s)) ∧
    ∀ value str base, value < 2 ^ 64 → 2 ≤ base → base ≤ 36 → m.lo ≤ str →
      ∃ cs, IsNumeral base value cs ∧ (str + cs.length < m.hi →
        ∃ m', utoa value str base m = .ok (1, m') ∧ m.Leaves m' str cs) := by
  refine ⟨?_, ?_⟩
  · intro str s h
    refine ⟨?_, ?_, ?_⟩
    · intro n c hroom
      rw [rjust_refines hlo hhi h c hroom]
      exact rjust_leaves h c hroom hhi
    · intro n c hroom
      exact ljust_leaves h c hroom
    · intro q pre hpre hroom hapart
      rw [prepend_refines hlo hhi h hpre hroom hapart]
      exact prepend_leaves h pre hroom
  · intro value str base hv hb hb' hlower
    refine ⟨numeral base value, numeral_isNumeral hb value, ?_⟩
    intro hroom
    exact utoa_leaves hb (by omega) hv hlower hroom

/-- A number and a prefix in a page. -/
def numberAndPrefix : Memory where
  lo := 0x1000
  hi := 0x2000
  byte := fun a =>
    if a = 0x1000 then 52 else if a = 0x1001 then 50 else if a = 0x1800 then 48 else if a = 0x1801 then 120 else 0

theorem in_place_strings_page :
    (∃ m', rjust 0x1000 5 48 numberAndPrefix = .ok m' ∧ numberAndPrefix.Leaves m' 0x1000 [48, 48, 48, 52, 50]) ∧
    (∃ m', ljust 0x1000 5 32 numberAndPrefix = .ok m' ∧ numberAndPrefix.Leaves m' 0x1000 [52, 50, 32, 32, 32]) ∧
    (∃ m', prepend 0x1000 0x1800 numberAndPrefix = .ok m' ∧ numberAndPrefix.Leaves m' 0x1000 [48, 120, 52, 50]) ∧
    ∃ cs, IsNumeral 16 0xBEEF cs ∧ (0x1000 + cs.length < 0x2000 →
      ∃ m', utoa 0xBEEF 0x1000 16 numberAndPrefix = .ok (1, m') ∧ numberAndPrefix.Leaves m' 0x1000 cs) := by
  have hnumber : numberAndPrefix.HasText 0x1000 [52, 50] := ⟨by decide, by decide, by decide, by decide⟩
  have hprefix : numberAndPrefix.HasText 0x1800 [48, 120] := ⟨by decide, by decide, by decide, by decide⟩
  obtain ⟨htext, hutoa⟩ := in_place_strings (m := numberAndPrefix) (by decide) (by decide)
  obtain ⟨hrjust, hljust, hprepend⟩ := htext 0x1000 [52, 50] hnumber
  exact ⟨hrjust 5 48 (by decide), hljust 5 32 (by decide),
    hprepend 0x1800 [48, 120] hprefix (by decide) (by decide),
    hutoa 0xBEEF 0x1000 16 (by decide) (by decide) (by decide) (by decide)⟩

end LearningOS.InPlace
