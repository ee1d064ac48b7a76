import LearningOS.Lib.CString
import LearningOS.Lib.Numeral
import LearningOS.Lib.Run
import LearningOS.Lib.Word

/-!
# `Utility.Strings` — `utility/strings.c`

The string functions that work in place, over a stretch of mapped memory: a byte for every address, of which those from
`lo` up to `hi` may be read and written and the others fault. Each function is first given as the code computes it,
loop by loop, and then the effect it has on a string that stands in the memory with room behind it.

Characters are their codes. A loop that runs until it meets a terminator carries the number of steps after which it
must have faulted; the two loops that the code writes in several functions, the shift of a block and the run of pad
characters, are one definition each.
-/

namespace LearningOS.Strings

open Word Run CString Numeral

/-! ## Characters -/

/-- `isdigit`. -/
def isdigit (c : Nat) : Bool := decide (48 ≤ c ∧ c ≤ 57)

theorem isdigit_of_mem_numeral {n c : Nat} (h : c ∈ numeral 10 n) : isdigit c = true :=
  decide_eq_true ⟨numeral_ge h, numeral_ten_le h⟩

/-- The loop of `atoi`. The digit is a `u8_t`; the value is an `s64_t`. -/
def atoiLoop : Int → List Nat → Int
  | value, [] => value
  | value, c :: str => atoiLoop ((value * 10 + ((c + 208) % 256 : Nat)).bmod (2 ^ 64)) str

/-- `atoi` on the characters before the terminator. -/
def atoi (str : List Nat) : Int :=
  match str with
  | 45 :: str => (-atoiLoop 0 str).bmod (2 ^ 64)
  | str => atoiLoop 0 str

theorem readFrom_ge (v : Nat) (cs : List Nat) : v ≤ readFrom v cs := by
  induction cs generalizing v with
  | nil => exact Nat.le_refl v
  | cons c cs ih =>
      have hdigit : v ≤ readDigit v c := by
        unfold readDigit
        omega
      rw [readFrom_cons]
      exact hdigit.trans (ih (readDigit v c))

/-- One more digit, as long as the value fits. -/
theorem atoi_step {v c : Nat} (hd : isdigit c = true) (h : readDigit v c < 2 ^ 63) :
    ((v : Int) * 10 + ((c + 208) % 256 : Nat)).bmod (2 ^ 64) = (readDigit v c : Int) := by
  obtain ⟨h48, h57⟩ := of_decide_eq_true hd
  have hdigit : (c + 208) % 256 = c - 48 := by omega
  unfold readDigit at h ⊢
  rw [hdigit, Int.bmod_eq_of_le (by omega) (by omega)]
  push_cast
  rfl

theorem atoiLoop_eq_readFrom {v : Nat} {cs : List Nat} (hd : ∀ c ∈ cs, isdigit c = true)
    (h : readFrom v cs < 2 ^ 63) : atoiLoop v cs = readFrom v cs := by
  induction cs generalizing v with
  | nil => rfl
  | cons c cs ih =>
      rw [readFrom_cons] at h ⊢
      have hfits : readDigit v c < 2 ^ 63 := Nat.lt_of_le_of_lt (readFrom_ge (readDigit v c) cs) h
      rw [atoiLoop, atoi_step (hd c List.mem_cons_self) hfits]
      exact ih (fun e he => hd e (List.mem_cons_of_mem c he)) h

/-- **`atoi` reads decimal numerals back.** -/
theorem atoi_numeral {n : Nat} (h : n < 2 ^ 63) : atoi (numeral 10 n) = n := by
  have hloop : atoiLoop 0 (numeral 10 n) = n := by
    have hread : readFrom 0 (numeral 10 n) < 2 ^ 63 := by rwa [readFrom_numeral]
    have heq := atoiLoop_eq_readFrom (fun c hc => isdigit_of_mem_numeral hc) hread
    rwa [readFrom_numeral] at heq
  unfold atoi
  split
  · rename_i str heq
    -- A numeral does not start with a minus sign.
    have h45 : 48 ≤ 45 := numeral_ge (heq ▸ List.mem_cons_self)
    exact absurd h45 (by decide)
  · exact hloop

/-! ## Memory -/

/-- Why a string function does not return. -/
inductive StringFault where
  /-- An address outside the mapped stretch is read or written. -/
  | unmapped
  /-- A pointer that no branch has set is used. -/
  | uninitialisedPointer
  /-- A number is divided by a base of zero. -/
  | divisionByZero
  /-- A loop does not end. -/
  | noEnd
deriving DecidableEq, Repr

/-- A stretch of mapped memory: the addresses from `lo` up to `hi`. -/
structure Memory where
  lo : Nat
  hi : Nat
  byte : Nat → Nat

/-- `*a`. -/
def Memory.read (m : Memory) (a : Nat) : Except StringFault Nat :=
  if m.lo ≤ a ∧ a < m.hi then .ok (m.byte a) else .error .unmapped

/-- `*a = c`. -/
def Memory.write (m : Memory) (a c : Nat) : Except StringFault Memory :=
  if m.lo ≤ a ∧ a < m.hi then .ok { m with byte := Function.update m.byte a c } else .error .unmapped

/-- The string `s` stands at `p`, mapped with its terminator. -/
structure Memory.HasText (m : Memory) (p : Nat) (s : List Nat) : Prop where
  lower : m.lo ≤ p
  upper : p + s.length < m.hi
  text : Text m.byte p s

theorem Memory.HasText.nul {m : Memory} {p : Nat} (h : m.HasText p []) : m.byte p = 0 := (text_iff.mp h.text).2.1

/-- A string that is not empty: its first character, which is not the terminator, and the rest. -/
theorem Memory.HasText.cons {m : Memory} {p c : Nat} {s : List Nat} (h : m.HasText p (c :: s)) :
    m.byte p = c ∧ c ≠ 0 ∧ m.HasText (p + 1) s := by
  have hupper : p + (s.length + 1) < m.hi := h.upper
  obtain ⟨hhead, h0, hrest⟩ := text_append.mp (show Text m.byte p ([c] ++ s) from h.text)
  refine ⟨holds_singleton.mp hhead, ?_, Nat.le_succ_of_le h.lower, by omega, hrest⟩
  rintro rfl
  exact h0 List.mem_cons_self

/-- A write elsewhere leaves a string as it is. -/
theorem Memory.HasText.update {m : Memory} {p a : Nat} {s : List Nat} (h : m.HasText p s) (c : Nat)
    (ha : a < p ∨ p + s.length < a) : Memory.HasText ⟨m.lo, m.hi, Function.update m.byte a c⟩ p s := by
  refine ⟨h.lower, h.upper, ?_, h.text.2⟩
  apply h.text.1.update
  rw [List.length_append, List.length_singleton]
  omega

theorem Memory.read_eq {m : Memory} {a : Nat} (h : m.lo ≤ a) (h' : a < m.hi) : m.read a = .ok (m.byte a) :=
  if_pos ⟨h, h'⟩

theorem Memory.write_eq {m : Memory} {a : Nat} (h : m.lo ≤ a) (h' : a < m.hi) (c : Nat) :
    m.write a c = .ok { m with byte := Function.update m.byte a c } := if_pos ⟨h, h'⟩

/-- What a write can do. -/
theorem Memory.write_cases (m : Memory) (a c : Nat) :
    m.write a c = .error .unmapped ∨ ∃ m', m.write a c = .ok m' ∧ m'.lo = m.lo ∧ m'.hi = m.hi ∧ a < m.hi := by
  by_cases h : m.lo ≤ a ∧ a < m.hi
  · exact .inr ⟨_, if_pos h, rfl, rfl, h.2⟩
  · exact .inl (if_neg h)

/-! ## Length -/

/-- The loop of `strlen`: the cursor at the terminator. -/
def strlenLoop (m : Memory) : Nat → Nat → Except StringFault Nat
  | 0, _ => .error .noEnd
  | fuel + 1, cursor => m.read cursor >>= fun c => if c ≠ 0 then strlenLoop m fuel (cursor + 1) else .ok cursor

/-- `strlen`. The cursor faults at the latest at `hi`. -/
def strlen (m : Memory) (str : Nat) : Except StringFault Nat :=
  strlenLoop m (m.hi + 1 - str) str >>= fun cursor => .ok (cursor - str)

theorem strlenLoop_eq {m : Memory} {p fuel : Nat} {s : List Nat} (h : m.HasText p s) (hf : s.length < fuel) :
    strlenLoop m fuel p = .ok (p + s.length) := by
  induction s generalizing p fuel with
  | nil =>
      obtain ⟨n, rfl⟩ : ∃ n, fuel = n + 1 := ⟨fuel - 1, by simp at hf; omega⟩
      rw [strlenLoop, Memory.read_eq h.lower h.upper, ok_bind, if_neg (not_not.mpr h.nul)]
      rfl
  | cons c s ih =>
      obtain ⟨n, rfl⟩ : ∃ n, fuel = n + 1 := ⟨fuel - 1, by simp at hf; omega⟩
      obtain ⟨hc, hne, htail⟩ := h.cons
      have hupper : p + (s.length + 1) < m.hi := h.upper
      rw [strlenLoop, Memory.read_eq h.lower (by omega), ok_bind, hc, if_pos hne,
        ih htail (Nat.lt_of_succ_lt_succ hf), List.length_cons]
      congr 1
      omega

theorem strlen_eq {m : Memory} {p : Nat} {s : List Nat} (h : m.HasText p s) : strlen m p = .ok s.length := by
  have hupper := h.upper
  unfold strlen
  rw [strlenLoop_eq h (by omega), ok_bind]
  congr 1
  omega

/-! ## Blocks -/

/-- `while (last >= str) *(shifted--) = *(last--);` for the `n` bytes from `src` on, which go to `dst`. -/
def shiftRight (src dst : Nat) : Nat → Memory → Except StringFault Memory
  | 0, m => .ok m
  | n + 1, m => m.read (src + n) >>= fun c => m.write (dst + n) c >>= fun m => shiftRight src dst n m

/-- `pad_char` into the `n` bytes from `a` on, lowest first. -/
def padFrom (padChar : Nat) : Nat → Nat → Memory → Except StringFault Memory
  | 0, _, m => .ok m
  | n + 1, a, m => m.write a padChar >>= fun m => padFrom padChar n (a + 1) m

theorem shiftRight_eq {m : Memory} {src dst n : Nat} (hlo : m.lo ≤ src) (hle : src ≤ dst) (hhi : dst + n ≤ m.hi) :
    shiftRight src dst n m = .ok { m with byte := move m.byte dst src n } := by
  induction n generalizing m with
  | zero =>
      rw [move_zero]
      rfl
  | succ n ih =>
      show (m.read (src + n) >>= fun c => m.write (dst + n) c >>= fun m => shiftRight src dst n m) = _
      rw [Memory.read_eq (by omega) (by omega), ok_bind, Memory.write_eq (by omega) (by omega), ok_bind,
        ← move_last m.byte hle]
      have hrest : dst + n ≤ m.hi := by omega
      exact ih (m := ⟨m.lo, m.hi, Function.update m.byte (dst + n) (m.byte (src + n))⟩) hlo hrest

theorem padFrom_eq {m : Memory} {c n a : Nat} (hlo : m.lo ≤ a) (hhi : a + n ≤ m.hi) :
    padFrom c n a m = .ok { m with byte := fill m.byte a n c } := by
  induction n generalizing a m with
  | zero =>
      rw [fill_zero]
      rfl
  | succ n ih =>
      show (m.write a c >>= fun m => padFrom c n (a + 1) m) = _
      rw [Memory.write_eq hlo (by omega), ok_bind, ← fill_first]
      have hrest : a + 1 + n ≤ m.hi := by omega
      exact ih (m := ⟨m.lo, m.hi, Function.update m.byte a c⟩) (Nat.le_succ_of_le hlo) hrest

/-- Whatever it shifts, the loop either faults or leaves the same stretch mapped. -/
theorem shiftRight_cases (src dst n : Nat) (m : Memory) (hlo : m.lo ≤ src) (hhi : src + n ≤ m.hi) :
    shiftRight src dst n m = .error .unmapped ∨ ∃ m', shiftRight src dst n m = .ok m' ∧ m'.lo = m.lo ∧ m'.hi = m.hi := by
  induction n generalizing m with
  | zero => exact .inr ⟨m, rfl, rfl, rfl⟩
  | succ n ih =>
      have hread : shiftRight src dst (n + 1) m =
          (m.write (dst + n) (m.byte (src + n)) >>= fun m => shiftRight src dst n m) := by
        rw [shiftRight, Memory.read_eq (by omega) (by omega), ok_bind]
      rw [hread]
      rcases Memory.write_cases m (dst + n) (m.byte (src + n)) with hw | ⟨m1, hw, hlo1, hhi1, -⟩
      · exact .inl (by rw [hw]; rfl)
      · rw [hw, ok_bind]
        rcases ih m1 (by omega) (by omega) with hs | ⟨m2, hs, hlo2, hhi2⟩
        · exact .inl hs
        · exact .inr ⟨m2, hs, hlo2.trans hlo1, hhi2.trans hhi1⟩

/-- A run of pad characters that does not fit below `hi` faults. -/
theorem padFrom_unmapped {m : Memory} {c n a : Nat} (ha : a ≤ m.hi) (h : m.hi < a + n) :
    padFrom c n a m = .error .unmapped := by
  induction n generalizing a m with
  | zero => exact absurd h (Nat.not_lt.mpr ha)
  | succ n ih =>
      show (m.write a c >>= fun m => padFrom c n (a + 1) m) = _
      rcases Memory.write_cases m a c with hw | ⟨m1, hw, -, hhi, hlt⟩
      · rw [hw]
        rfl
      · rw [hw, ok_bind]
        exact ih (by omega) (by omega)

/-- What a function that works in place from `p` on leaves alone: the stretch, and the bytes below `p`. -/
structure Memory.SameBelow (m m' : Memory) (p : Nat) : Prop where
  lo : m'.lo = m.lo
  hi : m'.hi = m.hi
  below : ∀ a < p, m'.byte a = m.byte a

/-- What it leaves alone when it does not come to `q` either. -/
structure Memory.SameOutside (m m' : Memory) (p q : Nat) : Prop extends Memory.SameBelow m m' p where
  above : ∀ a, q ≤ a → m'.byte a = m.byte a

/-- What a function that works in place on a string leaves: the bytes, a terminator, and everything else as it was. -/
structure Memory.Leaves (m m' : Memory) (str : Nat) (bytes : List Nat) : Prop extends
    Memory.SameOutside m m' str (str + bytes.length + 1) where
  holds : Holds m'.byte str (bytes ++ [0])

theorem Memory.SameOutside.refl (m : Memory) (p q : Nat) : m.SameOutside m p q :=
  ⟨⟨rfl, rfl, fun _ _ => rfl⟩, fun _ _ => rfl⟩

/-- One run after the other. -/
theorem Memory.SameOutside.trans {m m' m'' : Memory} {p q q' : Nat} (h : m.SameOutside m' p q)
    (h' : m'.SameOutside m'' p q') (hle : q ≤ q') : m.SameOutside m'' p q' where
  lo := h'.lo.trans h.lo
  hi := h'.hi.trans h.hi
  below := fun a ha => (h'.below a ha).trans (h.below a ha)
  above := fun a ha => (h'.above a ha).trans (h.above a (hle.trans ha))

/-- A write in between. -/
theorem Memory.SameOutside.update (m : Memory) {p q a : Nat} (c : Nat) (ha : p ≤ a) (ha' : a < q) :
    m.SameOutside ⟨m.lo, m.hi, Function.update m.byte a c⟩ p q :=
  ⟨⟨rfl, rfl, fun b hb => Function.update_of_ne (by omega) _ _⟩, fun b hb => Function.update_of_ne (by omega) _ _⟩

/-- The bytes are a string if none of them is the terminator. -/
theorem Memory.Leaves.hasText {m m' : Memory} {str : Nat} {bytes : List Nat} (h : m.Leaves m' str bytes)
    (h0 : 0 ∉ bytes) (hlo : m.lo ≤ str) (hroom : str + bytes.length < m.hi) : m'.HasText str bytes where
  lower := by
    rw [h.lo]
    exact hlo
  upper := by
    rw [h.hi]
    exact hroom
  text := ⟨h.holds, h0⟩

/-! ## Justifying -/

/-- `ljust`. -/
def ljust (str n padChar : Nat) (m : Memory) : Except StringFault Memory :=
  strlen m str >>= fun length =>
    padFrom padChar (n - length) (str + length) m >>= fun m => m.write (str + length + (n - length)) 0

/-- `rjust`. Without a terminator in sight nothing tells whether the buffer is long enough; the sum of pointers wraps
    around when `pad` is the difference of a small number and a larger one. -/
def rjust (str n padChar : Nat) (m : Memory) : Except StringFault Memory :=
  strlen m str >>= fun length =>
    if length < n then
      let pad := n - length
      shiftRight str (add64 str pad) (length + 1) m >>= fun m => padFrom padChar pad str m
    else .ok m

/-- **`ljust`.** -/
theorem ljust_leaves {m : Memory} {str n : Nat} {s : List Nat} (h : m.HasText str s) (c : Nat)
    (hroom : str + max n s.length < m.hi) :
    ∃ m', ljust str n c m = .ok m' ∧ m.Leaves m' str (s ++ List.replicate (n - s.length) c) := by
  have hlo := h.lower
  obtain ⟨hs, -, -⟩ := text_iff.mp h.text
  let filled : Memory := ⟨m.lo, m.hi, fill m.byte (str + s.length) (n - s.length) c⟩
  let ended : Memory := ⟨m.lo, m.hi, Function.update filled.byte (str + s.length + (n - s.length)) 0⟩
  have hother : ∀ a, a < str ∨ str + s.length + (n - s.length) < a → ended.byte a = m.byte a := by
    intro a ha
    show Function.update (fill m.byte (str + s.length) (n - s.length) c) (str + s.length + (n - s.length)) 0 a = _
    rw [Function.update_of_ne (by omega), fill_of_outside (by omega)]
  refine ⟨ended, ?_, ⟨⟨rfl, rfl, fun a ha => hother a (.inl ha)⟩, ?_⟩, holds_fill_end hs (n - s.length) c⟩
  · have hwrite : filled.write (str + s.length + (n - s.length)) 0 = .ok ended :=
      Memory.write_eq (m := filled) (show m.lo ≤ _ by omega) (show _ < m.hi by omega) 0
    rw [ljust, strlen_eq h, ok_bind, padFrom_eq (by omega) (by omega), ok_bind]
    exact hwrite
  · intro a ha
    rw [List.length_append, List.length_replicate] at ha
    exact hother a (.inr (by omega))

/-- **`rjust`.** The string moves up with its terminator, last byte first, and the gap is filled. -/
theorem rjust_leaves {m : Memory} {str n : Nat} {s : List Nat} (h : m.HasText str s) (c : Nat)
    (hroom : str + max n s.length < m.hi) (hhi : m.hi ≤ 2 ^ 64) :
    ∃ m', rjust str n c m = .ok m' ∧ m.Leaves m' str (List.replicate (n - s.length) c ++ s) := by
  have hlo := h.lower
  rw [rjust, strlen_eq h, ok_bind]
  by_cases hn : s.length < n
  · have hptr : add64 str (n - s.length) = str + (n - s.length) := add64_of_lt (by omega)
    let moved : Memory := ⟨m.lo, m.hi, move m.byte (str + (n - s.length)) str (s.length + 1)⟩
    let filled : Memory := ⟨m.lo, m.hi, fill moved.byte str (n - s.length) c⟩
    have hother : ∀ a, a < str ∨ str + (n - s.length) + (s.length + 1) ≤ a → filled.byte a = m.byte a := by
      intro a ha
      show fill (move m.byte (str + (n - s.length)) str (s.length + 1)) str (n - s.length) c a = _
      rw [fill_of_outside (by omega), move_of_outside (by omega)]
    refine ⟨filled, ?_, ⟨⟨rfl, rfl, fun a ha => hother a (.inl ha)⟩, ?_⟩, ?_⟩
    · have hpad : padFrom c (n - s.length) str moved = .ok filled :=
        padFrom_eq (show m.lo ≤ str from hlo) (show str + (n - s.length) ≤ m.hi by omega)
      rw [if_pos hn]
      dsimp only
      rw [hptr, shiftRight_eq hlo (by omega) (by omega), ok_bind]
      exact hpad
    · intro a ha
      rw [List.length_append, List.length_replicate] at ha
      exact hother a (.inr (by omega))
    · have hholds := holds_fill_move h.text.1 (n - s.length) c
      rw [List.length_append, List.length_singleton, ← List.append_assoc] at hholds
      exact hholds
  · rw [if_neg hn, show n - s.length = 0 by omega]
    exact ⟨m, rfl, Memory.SameOutside.refl m str _, h.text.1⟩

theorem zero_notMem_replicate {n c : Nat} (hc : c ≠ 0) : 0 ∉ List.replicate n c :=
  fun h => hc (List.eq_of_mem_replicate h).symm

theorem ljust_eq {m : Memory} {str n c : Nat} {s : List Nat} (h : m.HasText str s) (hc : c ≠ 0)
    (hroom : str + max n s.length < m.hi) :
    ∃ m', ljust str n c m = .ok m' ∧ m'.HasText str (s ++ List.replicate (n - s.length) c) ∧ m.SameBelow m' str := by
  obtain ⟨m', heq, hleaves⟩ := ljust_leaves h c hroom
  refine ⟨m', heq, hleaves.hasText ?_ h.lower ?_, hleaves.toSameBelow⟩
  · rw [List.mem_append, not_or]
    exact ⟨h.text.2, zero_notMem_replicate hc⟩
  · rw [List.length_append, List.length_replicate]
    omega

theorem rjust_eq {m : Memory} {str n c : Nat} {s : List Nat} (h : m.HasText str s) (hc : c ≠ 0)
    (hroom : str + max n s.length < m.hi) (hhi : m.hi ≤ 2 ^ 64) :
    ∃ m', rjust str n c m = .ok m' ∧ m'.HasText str (List.replicate (n - s.length) c ++ s) ∧ m.SameBelow m' str := by
  obtain ⟨m', heq, hleaves⟩ := rjust_leaves h c hroom hhi
  refine ⟨m', heq, hleaves.hasText ?_ h.lower ?_, hleaves.toSameBelow⟩
  · rw [List.mem_append, not_or]
    exact ⟨zero_notMem_replicate hc, h.text.2⟩
  · rw [List.length_append, List.length_replicate]
    omega

/-- A justification to a length that does not fit below `hi` faults. -/
theorem rjust_unmapped {m : Memory} {str n c : Nat} {s : List Nat} (h : m.HasText str s)
    (hn : m.hi < str + (n - s.length)) : rjust str n c m = .error .unmapped := by
  have hupper := h.upper
  rw [rjust, strlen_eq h, ok_bind, if_pos (by omega)]
  dsimp only
  rcases shiftRight_cases str (add64 str (n - s.length)) (s.length + 1) m h.lower (by omega) with hs | ⟨m1, hs, -, hhi⟩
  · rw [hs]
    rfl
  · rw [hs, ok_bind]
    exact padFrom_unmapped (by omega) (by omega)

/-! ## Putting in front -/

/-- `while (*prefix) *(end++) = *(prefix++);` -/
def copyString : List Nat → Nat → Memory → Except StringFault Memory
  | [], _, m => .ok m
  | c :: pre, a, m => m.write a c >>= fun m => copyString pre (a + 1) m

/-- `prepend`; the prefix is a string literal. -/
def prepend (str : Nat) (pre : List Nat) (m : Memory) : Except StringFault Memory :=
  strlen m str >>= fun length =>
    shiftRight str (str + pre.length) (length + 1) m >>= fun m => copyString pre str m

theorem copyString_eq (pre : List Nat) {a : Nat} {m : Memory} (hlo : m.lo ≤ a) (hhi : a + pre.length ≤ m.hi) :
    ∃ m', copyString pre a m = .ok m' ∧ Holds m'.byte a pre ∧ m.SameBelow m' a ∧
      ∀ b, a + pre.length ≤ b → m'.byte b = m.byte b := by
  induction pre generalizing a m with
  | nil => exact ⟨m, rfl, holds_nil _ _, ⟨rfl, rfl, fun _ _ => rfl⟩, fun _ _ => rfl⟩
  | cons c pre ih =>
      rw [List.length_cons] at hhi ⊢
      have hnext := ih (a := a + 1) (m := ⟨m.lo, m.hi, Function.update m.byte a c⟩) (Nat.le_succ_of_le hlo)
        (show a + 1 + pre.length ≤ m.hi by omega)
      obtain ⟨m', heq, hholds, hsame, habove⟩ := hnext
      refine ⟨m', ?_, ?_, ⟨hsame.lo, hsame.hi, ?_⟩, ?_⟩
      · rw [copyString, Memory.write_eq hlo (by omega), ok_bind]
        exact heq
      · rw [holds_cons, hsame.below a (Nat.lt_succ_self a)]
        exact ⟨Function.update_self .., hholds⟩
      · intro b hb
        rw [hsame.below b (by omega)]
        exact Function.update_of_ne (by omega) ..
      · intro b hb
        rw [habove b (by omega)]
        exact Function.update_of_ne (by omega) ..

/-- **`prepend`.** The string moves up with its terminator, last byte first, and the prefix is put in front. -/
theorem prepend_leaves {m : Memory} {str : Nat} {s : List Nat} (h : m.HasText str s) (pre : List Nat)
    (hroom : str + (pre.length + s.length) < m.hi) :
    ∃ m', prepend str pre m = .ok m' ∧ m.Leaves m' str (pre ++ s) := by
  have hlo := h.lower
  have hmoved := holds_move h.text.1 (str + pre.length)
  rw [List.length_append, List.length_singleton] at hmoved
  obtain ⟨m', heq, hholds, hsame, habove⟩ := copyString_eq pre (a := str)
    (m := ⟨m.lo, m.hi, move m.byte (str + pre.length) str (s.length + 1)⟩) hlo (show str + pre.length ≤ m.hi by omega)
  refine ⟨m', ?_, ⟨⟨hsame.lo, hsame.hi, ?_⟩, ?_⟩, ?_⟩
  · rw [prepend, strlen_eq h, ok_bind, shiftRight_eq hlo (by omega) (by omega), ok_bind]
    exact heq
  · intro a ha
    rw [hsame.below a ha]
    exact move_of_outside (by omega)
  · intro a ha
    rw [List.length_append] at ha
    rw [habove a (by omega)]
    exact move_of_outside (by omega)
  · rw [List.append_assoc, holds_append]
    exact ⟨hholds, hmoved.congr (fun a ha _ => habove a ha)⟩

theorem prepend_eq {m : Memory} {str : Nat} {pre s : List Nat} (h : m.HasText str s) (h0 : 0 ∉ pre)
    (hroom : str + (pre.length + s.length) < m.hi) :
    ∃ m', prepend str pre m = .ok m' ∧ m'.HasText str (pre ++ s) ∧ m.SameBelow m' str := by
  obtain ⟨m', heq, hleaves⟩ := prepend_leaves h pre hroom
  refine ⟨m', heq, hleaves.hasText ?_ h.lower ?_, hleaves.toSameBelow⟩
  · rw [List.mem_append, not_or]
    exact ⟨h0, h.text.2⟩
  · rw [List.length_append]
    exact hroom

/-- A string that is shifted past `hi` faults. -/
theorem prepend_unmapped {m : Memory} {str : Nat} {pre s : List Nat} (h : m.HasText str s)
    (hroom : m.hi ≤ str + (pre.length + s.length)) : prepend str pre m = .error .unmapped := by
  have hlo := h.lower
  have hupper := h.upper
  have hwrite : m.write (str + pre.length + s.length) (m.byte (str + s.length)) = .error .unmapped := if_neg (by omega)
  rw [prepend, strlen_eq h, ok_bind, shiftRight, Memory.read_eq (by omega) (by omega), ok_bind, hwrite]
  rfl

/-! ## Turning round -/

/-- `while (end > str)` of `reverse`: swap the outer characters. -/
def reverseLoop : Nat → Nat → Nat → Memory → Except StringFault Memory
  | 0, _, _, _ => .error .noEnd
  | fuel + 1, str, last, m =>
    if str < last then
      m.read last >>= fun temp =>
        m.read str >>= fun c =>
          m.write last c >>= fun m => m.write str temp >>= fun m => reverseLoop fuel (str + 1) (last - 1) m
    else .ok m

/-- `reverse`. -/
def reverse (str : Nat) (m : Memory) : Except StringFault Memory :=
  strlen m str >>= fun len => reverseLoop (len + 1) str (str + len - 1) m

theorem reverseLoop_eq {fuel p : Nat} {s : List Nat} {m : Memory} (hf : s.length < fuel) (hlo : m.lo ≤ p)
    (hhi : p + s.length ≤ m.hi) (h : Holds m.byte p s) :
    ∃ m', reverseLoop fuel p (p + s.length - 1) m = .ok m' ∧ Holds m'.byte p s.reverse ∧ m.SameBelow m' p ∧
      ∀ a, p + s.length ≤ a → m'.byte a = m.byte a := by
  induction fuel generalizing p s m with
  | zero => exact absurd hf (Nat.not_lt_zero _)
  | succ fuel ih =>
      have hstop : ¬ p < p + s.length - 1 → s.reverse = s →
          ∃ m', reverseLoop (fuel + 1) p (p + s.length - 1) m = .ok m' ∧ Holds m'.byte p s.reverse ∧
            m.SameBelow m' p ∧ ∀ a, p + s.length ≤ a → m'.byte a = m.byte a := by
        intro hlast hrev
        rw [hrev]
        exact ⟨m, if_neg hlast, h, ⟨rfl, rfl, fun _ _ => rfl⟩, fun _ _ => rfl⟩
      rcases s with _ | ⟨c, rest⟩
      · exact hstop (by simp) rfl
      · rcases List.eq_nil_or_concat' rest with rfl | ⟨mid, d, rfl⟩
        · exact hstop (by simp) rfl
        · -- Swap the ends `c` and `d`; the loop goes on with what is between them.
          obtain ⟨hc, hrest⟩ := holds_cons.mp h
          obtain ⟨hmid, hd⟩ := holds_append.mp hrest
          have hd : m.byte (p + 1 + mid.length) = d := holds_singleton.mp hd
          have hlast : p + (c :: (mid ++ [d])).length - 1 = p + 1 + mid.length := by
            simp only [List.length_cons, List.length_append, List.length_nil]
            omega
          simp only [List.length_cons, List.length_append, List.length_nil] at hf hhi
          let swapped : Memory :=
            ⟨m.lo, m.hi, Function.update (Function.update m.byte (p + 1 + mid.length) c) p d⟩
          have hmid' : Holds swapped.byte (p + 1) mid := (hmid.update (.inr (Nat.le_refl _))).update (.inl (by omega))
          obtain ⟨m', heq, hholds, hsame, habove⟩ := ih (s := mid) (m := swapped) (by omega)
            (show m.lo ≤ p + 1 by omega) (show p + 1 + mid.length ≤ m.hi by omega) hmid'
          have hfirst : m'.byte p = d := by
            rw [hsame.below p (Nat.lt_succ_self p)]
            exact Function.update_self ..
          have hend : m'.byte (p + 1 + mid.length) = c := by
            rw [habove _ (Nat.le_refl _)]
            show Function.update (Function.update m.byte (p + 1 + mid.length) c) p d (p + 1 + mid.length) = c
            rw [Function.update_of_ne (by omega), Function.update_self]
          have hother : ∀ a, a < p ∨ p + 1 + mid.length < a → swapped.byte a = m.byte a := by
            intro a ha
            show Function.update (Function.update m.byte (p + 1 + mid.length) c) p d a = m.byte a
            rw [Function.update_of_ne (by omega), Function.update_of_ne (by omega)]
          refine ⟨m', ?_, ?_, ⟨hsame.lo, hsame.hi, ?_⟩, ?_⟩
          · let half : Memory := ⟨m.lo, m.hi, Function.update m.byte (p + 1 + mid.length) c⟩
            have hwrite : half.write p d = .ok swapped :=
              Memory.write_eq (m := half) (show m.lo ≤ p from hlo) (show p < m.hi by omega) d
            rw [hlast, reverseLoop, if_pos (by omega), Memory.read_eq (by omega) (by omega), ok_bind,
              Memory.read_eq hlo (by omega), ok_bind, Memory.write_eq (by omega) (by omega), ok_bind, hc, hd, hwrite,
              ok_bind]
            exact heq
          · have hrev : (c :: (mid ++ [d])).reverse = d :: (mid.reverse ++ [c]) := by simp
            rw [hrev, holds_cons, holds_append, List.length_reverse, holds_singleton]
            exact ⟨hfirst, hholds, hend⟩
          · intro a ha
            rw [hsame.below a (by omega), hother a (.inl ha)]
          · intro a ha
            simp only [List.length_cons, List.length_append, List.length_nil] at ha
            rw [habove a (by omega), hother a (.inr (by omega))]

theorem reverse_eq {m : Memory} {p : Nat} {s : List Nat} (h : m.HasText p s) :
    ∃ m', reverse p m = .ok m' ∧ m'.HasText p s.reverse ∧ m.SameOutside m' p (p + s.length) := by
  have hupper := h.upper
  obtain ⟨hs, hnul, h0⟩ := text_iff.mp h.text
  obtain ⟨m', heq, hholds, hsame, habove⟩ :=
    reverseLoop_eq (Nat.lt_succ_self s.length) h.lower (Nat.le_of_lt hupper) hs
  refine ⟨m', ?_, ⟨?_, ?_, ?_⟩, hsame, habove⟩
  · rw [reverse, strlen_eq h, ok_bind]
    exact heq
  · rw [hsame.lo]
    exact h.lower
  · rw [hsame.hi, List.length_reverse]
    exact hupper
  · rw [text_iff, List.length_reverse, List.mem_reverse, habove _ (Nat.le_refl _)]
    exact ⟨hholds, hnul, h0⟩

/-! ## Writing numbers -/

/-- `(rem > 9) ? (rem-10) + 'A' : rem + '0'`, cut to a `char`. -/
def digitByte (rem : Int) : Nat := ((if rem > 9 then rem - 10 + 65 else rem + 48) % 256).toNat

/-- `while (value != 0)` of `itoa` and `utoa`: the digits, least significant first. A value of 64 bits has at most 64
    of them in any base from two on; a base of one never uses it up. -/
def putDigits (base str : Nat) : Nat → Int → Nat → Memory → Except StringFault (Memory × Nat)
  | 0, _, _, _ => .error .noEnd
  | fuel + 1, value, i, m =>
    if value = 0 then .ok (m, i)
    else if base = 0 then .error .divisionByZero
    else
      m.write (str + i) (digitByte (value.tmod base)) >>= fun m =>
        putDigits base str fuel (value.tdiv base) (i + 1) m

/-- `itoa`: the returned number and the memory. -/
def itoa (value : Int) (str base : Nat) (m : Memory) : Except StringFault (Nat × Memory) :=
  if base ≤ 1 then .ok (0, m)
  else if value = 0 then m.write str 48 >>= fun m => m.write (str + 1) 0 >>= fun m => .ok (1, m)
  else
    let isNegative := decide (value < 0) && decide (base = 10)
    let value := if isNegative then (-value).bmod (2 ^ 64) else value
    putDigits base str 65 value 0 m >>= fun (m, i) =>
      (if isNegative then m.write (str + i) 45 >>= fun m => .ok (m, i + 1) else .ok (m, i)) >>= fun (m, i) =>
        m.write (str + i) 0 >>= fun m => reverse str m >>= fun m => .ok (1, m)

/-- `utoa`: the returned number and the memory. -/
def utoa (value str base : Nat) (m : Memory) : Except StringFault (Nat × Memory) :=
  if value = 0 then m.write str 48 >>= fun m => m.write (str + 1) 0 >>= fun m => .ok (1, m)
  else
    putDigits base str 65 value 0 m >>= fun (m, i) =>
      m.write (str + i) 0 >>= fun m => reverse str m >>= fun m => .ok (1, m)

/-- The characters of the digits of `n`, least significant first, as the loop writes them for `sign * n`. -/
def signedDigits (base : Nat) (sign : Int) (n : Nat) : List Nat :=
  (Nat.digits base n).map (fun d : Nat => digitByte (sign * (d : Int)))

theorem putDigits_eq (xs : List Nat) {base str : Nat} {sign : Int} (hb : 1 < base) (hsign : sign = 1 ∨ sign = -1) {fuel n : Nat}
    {m : Memory} (hf : (Nat.digits base n).length < fuel) (hlo : m.lo ≤ str)
    (hhi : str + (xs.length + (Nat.digits base n).length) ≤ m.hi) (h : Holds m.byte str xs) :
    ∃ m', putDigits base str fuel (sign * n) xs.length m = .ok (m', xs.length + (Nat.digits base n).length) ∧
      Holds m'.byte str (xs ++ signedDigits base sign n) ∧
      m.SameOutside m' str (str + (xs.length + (Nat.digits base n).length)) := by
  induction fuel generalizing n xs m with
  | zero => exact absurd hf (Nat.not_lt_zero _)
  | succ fuel ih =>
      by_cases hn : n = 0
      · subst hn
        have hzero : sign * ((0 : Nat) : Int) = 0 := Int.mul_zero sign
        refine ⟨m, ?_, ?_, Memory.SameOutside.refl m str _⟩
        · rw [putDigits, if_pos hzero]
          simp
        · simpa [signedDigits] using h
      · have hdigits : Nat.digits base n = (n % base) :: Nat.digits base (n / base) :=
          Nat.digits_def' hb (Nat.pos_of_ne_zero hn)
        have hne : sign * (n : Int) ≠ 0 := by
          rcases hsign with rfl | rfl <;> omega
        -- Remainder and quotient of a negative number are those of its opposite, negated.
        have hmod : (sign * (n : Int)).tmod base = sign * ((n % base : Nat) : Int) := by
          rcases hsign with rfl | rfl
          · rw [one_mul, one_mul]
            rfl
          · rw [neg_one_mul, neg_one_mul, Int.neg_tmod]
            rfl
        have hdiv : (sign * (n : Int)).tdiv base = sign * ((n / base : Nat) : Int) := by
          rcases hsign with rfl | rfl
          · rw [one_mul, one_mul]
            rfl
          · rw [neg_one_mul, neg_one_mul, Int.neg_tdiv]
            rfl
        rw [hdigits, List.length_cons] at hf hhi
        let written : Memory := ⟨m.lo, m.hi, Function.update m.byte (str + xs.length)
          (digitByte (sign * ((n % base : Nat) : Int)))⟩
        obtain ⟨m', heq, hholds, hsame⟩ := ih (n := n / base) (m := written)
          (xs ++ [digitByte (sign * ((n % base : Nat) : Int))]) (Nat.lt_of_succ_lt_succ hf) hlo
          (by rw [List.length_append, List.length_singleton]; show _ ≤ m.hi; omega) h.snoc
        rw [List.length_append, List.length_singleton] at heq
        refine ⟨m', ?_, ?_, ?_⟩
        · rw [putDigits, if_neg hne, if_neg (by omega), hmod, hdiv, Memory.write_eq (by omega) (by omega), ok_bind,
            hdigits, List.length_cons]
          rw [heq]
          congr 2
          omega
        · rw [List.append_assoc] at hholds
          have hlist : signedDigits base sign n =
              [digitByte (sign * ((n % base : Nat) : Int))] ++ signedDigits base sign (n / base) := by
            unfold signedDigits
            rw [hdigits, List.map_cons]
            rfl
          rw [hlist]
          exact hholds
        · rw [hdigits, List.length_cons]
          have hwritten : m.SameOutside written str (str + (xs.length + 1)) :=
            Memory.SameOutside.update m _ (Nat.le_add_right _ _) (by omega)
          rw [List.length_append, List.length_singleton, Nat.add_assoc xs.length, Nat.add_comm 1] at hsame
          exact hwritten.trans hsame (by omega)

/-- The end of `itoa` and `utoa`: the terminator, and the characters turned round. -/
theorem terminate_reverse {m : Memory} {str : Nat} {xs : List Nat} (hlo : m.lo ≤ str)
    (hhi : str + xs.length < m.hi) (h : Holds m.byte str xs) (h0 : 0 ∉ xs) :
    ∃ m', (m.write (str + xs.length) 0 >>= fun m => reverse str m >>= fun m => .ok (1, m)) = .ok (1, m') ∧
      m'.HasText str xs.reverse ∧ m.SameOutside m' str (str + xs.length + 1) := by
  let ended : Memory := ⟨m.lo, m.hi, Function.update m.byte (str + xs.length) 0⟩
  obtain ⟨m', heq, htext, hsame⟩ := reverse_eq (m := ended) ⟨hlo, hhi, h.snoc, h0⟩
  have hended : m.SameOutside ended str (str + xs.length + 1) :=
    Memory.SameOutside.update m 0 (Nat.le_add_right _ _) (Nat.lt_succ_self _)
  refine ⟨m', ?_, htext, ⟨hsame.lo, hsame.hi, ?_⟩, ?_⟩
  · rw [Memory.write_eq (by omega) hhi, ok_bind]
    show (reverse str ended >>= fun m => Except.ok (1, m)) = _
    rw [heq]
    rfl
  · intro a ha
    rw [hsame.below a ha, hended.below a ha]
  · intro a ha
    rw [hsame.above a (by omega), hended.above a ha]

theorem write_zero_leaves {m : Memory} {str : Nat} (hlo : m.lo ≤ str) (hhi : str + 1 < m.hi) :
    ∃ m', (m.write str 48 >>= fun m => m.write (str + 1) 0 >>= fun m => Except.ok (1, m)) = .ok (1, m') ∧
      m.Leaves m' str [48] := by
  let first : Memory := ⟨m.lo, m.hi, Function.update m.byte str 48⟩
  let both : Memory := ⟨m.lo, m.hi, Function.update first.byte (str + 1) 0⟩
  have hwrite : first.write (str + 1) 0 = .ok both := Memory.write_eq (m := first) (show m.lo ≤ str + 1 by omega) hhi 0
  have hfirst : Holds first.byte str [48] := by
    rw [holds_singleton]
    exact Function.update_self ..
  have hsame : m.SameOutside both str (str + 2) :=
    (Memory.SameOutside.update m 48 (Nat.le_refl str) (by omega)).trans
      (Memory.SameOutside.update first 0 (Nat.le_succ str) (Nat.lt_succ_self _)) (Nat.le_refl _)
  refine ⟨both, ?_, hsame, hfirst.snoc⟩
  rw [Memory.write_eq hlo (by omega), ok_bind]
  show (first.write (str + 1) 0 >>= fun m => Except.ok (1, m)) = _
  rw [hwrite]
  rfl

theorem digitByte_natCast {d : Nat} (h : d < 100) : digitByte (d : Int) = digitChar d := by
  unfold digitByte digitChar
  by_cases h9 : d > 9
  · rw [if_pos (by omega), if_pos h9]
    omega
  · rw [if_neg (by omega), if_neg h9]
    omega

theorem signedDigits_one {base : Nat} (hb : 1 < base) (hb' : base ≤ 100) (n : Nat) :
    signedDigits base 1 n = digitChars base n := by
  apply List.map_congr_left
  intro d hd
  have hlt : d < base := Nat.digits_lt_base hb hd
  rw [one_mul]
  exact digitByte_natCast (by omega)

theorem zero_notMem_digitChars (base n : Nat) : 0 ∉ digitChars base n := by
  intro h
  obtain ⟨d, -, hd⟩ := List.mem_map.mp h
  have hge := digitChar_ge d
  omega

/-- The digits of a value of 64 bits fit the loop. -/
theorem digits_length_lt {base n : Nat} (hb : 1 < base) (hn : n < 2 ^ 64) : (Nat.digits base n).length < 65 := by
  have hpow : 2 ^ 64 ≤ base ^ 64 := Nat.pow_le_pow_left hb 64
  exact Nat.lt_succ_of_le ((Nat.digits_length_le_iff hb n).mpr (Nat.lt_of_lt_of_le hn hpow))

theorem zero_notMem_numeral (base n : Nat) : 0 ∉ numeral base n := by
  intro h
  have hge := numeral_ge h
  omega

/-- **`utoa` writes the numeral.** -/
theorem utoa_leaves {value str base : Nat} {m : Memory} (hb : 1 < base) (hb' : base ≤ 100) (hv : value < 2 ^ 64)
    (hlo : m.lo ≤ str) (hhi : str + (numeral base value).length < m.hi) :
    ∃ m', utoa value str base m = .ok (1, m') ∧ m.Leaves m' str (numeral base value) := by
  by_cases h0 : value = 0
  · subst h0
    obtain ⟨m', heq, hleaves⟩ := write_zero_leaves hlo hhi
    exact ⟨m', by rw [utoa, if_pos rfl, heq], hleaves⟩
  · have hlen := numeral_length_of_ne_zero h0 base
    rw [hlen] at hhi
    obtain ⟨m1, hput, hholds, hsame⟩ := putDigits_eq [] hb (.inl rfl) (digits_length_lt hb hv) hlo
      (by rw [List.length_nil]; omega) (holds_nil m.byte str)
    rw [List.length_nil, Nat.zero_add, one_mul] at hput
    rw [List.nil_append, signedDigits_one hb hb'] at hholds
    rw [List.length_nil, Nat.zero_add] at hsame
    have hlo1 := hsame.lo
    have hhi1 := hsame.hi
    obtain ⟨m', hend, htext, hsame'⟩ := terminate_reverse (m := m1) (by omega)
      (by rw [digitChars_length]; omega) hholds (zero_notMem_digitChars base value)
    rw [digitChars_length] at hend hsame'
    refine ⟨m', ?_, ?_, ?_⟩
    · rw [utoa, if_neg h0, hput, ok_bind]
      exact hend
    · rw [hlen]
      exact hsame.trans hsame' (Nat.le_succ _)
    · rw [numeral_of_ne_zero h0]
      exact htext.text.1

theorem utoa_eq {value str base : Nat} {m : Memory} (hb : 1 < base) (hb' : base ≤ 100) (hv : value < 2 ^ 64)
    (hlo : m.lo ≤ str) (hhi : str + (numeral base value).length < m.hi) :
    ∃ m', utoa value str base m = .ok (1, m') ∧ m'.HasText str (numeral base value) ∧ m'.lo = m.lo ∧ m'.hi = m.hi := by
  obtain ⟨m', heq, hleaves⟩ := utoa_leaves hb hb' hv hlo hhi
  exact ⟨m', heq, hleaves.hasText (zero_notMem_numeral base value) hlo hhi, hleaves.lo, hleaves.hi⟩

/-- What `itoa` writes in base ten. The negation of the least `s64_t` is that number again, and the digits come from
    its negative remainders. -/
def itoaText (value : Int) : List Nat :=
  if value = -2 ^ 63 then 45 :: (signedDigits 10 (-1) (2 ^ 63)).reverse
  else (if value < 0 then [45] else []) ++ numeral 10 value.natAbs

theorem signedDigits_length (base : Nat) (sign : Int) (n : Nat) :
    (signedDigits base sign n).length = (Nat.digits base n).length := List.length_map _

theorem zero_notMem_signedDigits {sign : Int} (hsign : sign = 1 ∨ sign = -1) (n : Nat) :
    0 ∉ signedDigits 10 sign n := by
  intro h
  obtain ⟨d, hd, hzero⟩ := List.mem_map.mp h
  have hlt : d < 10 := Nat.digits_lt_base (by decide) hd
  unfold digitByte at hzero
  rcases hsign with rfl | rfl
  · rw [if_neg (by omega)] at hzero
    omega
  · rw [if_neg (by omega)] at hzero
    omega

theorem itoa_negative {value sign : Int} {n str : Nat} {m : Memory} (hneg : value < 0)
    (hval : (-value).bmod (2 ^ 64) = sign * n) (hsign : sign = 1 ∨ sign = -1) (hn : n < 2 ^ 64) (hlo : m.lo ≤ str)
    (hhi : str + ((Nat.digits 10 n).length + 1) < m.hi) :
    ∃ m', itoa value str 10 m = .ok (1, m') ∧ m'.HasText str (45 :: (signedDigits 10 sign n).reverse) ∧
      m'.lo = m.lo ∧ m'.hi = m.hi := by
  obtain ⟨m1, hput, hholds, hsame⟩ := putDigits_eq [] (by decide : 1 < 10) hsign
    (digits_length_lt (by decide) hn) hlo (by rw [List.length_nil]; omega) (holds_nil m.byte str)
  rw [List.length_nil, Nat.zero_add] at hput
  rw [List.nil_append] at hholds
  have hlo1 := hsame.lo
  have hhi1 := hsame.hi
  have hlen := signedDigits_length 10 sign n
  let signed : Memory := ⟨m1.lo, m1.hi, Function.update m1.byte (str + (Nat.digits 10 n).length) 45⟩
  have hwrite : m1.write (str + (Nat.digits 10 n).length) 45 = .ok signed := Memory.write_eq (by omega) (by omega) 45
  have hsigned : Holds signed.byte str (signedDigits 10 sign n ++ [45]) := by
    have h := hholds.snoc (c := 45)
    rwa [hlen] at h
  have h0 : 0 ∉ signedDigits 10 sign n ++ [45] := by
    rw [List.mem_append, not_or]
    exact ⟨zero_notMem_signedDigits hsign n, by decide⟩
  have hroom : str + (signedDigits 10 sign n ++ [45]).length < signed.hi := by
    rw [List.length_append, hlen, List.length_singleton]
    show _ < m1.hi
    omega
  obtain ⟨m', hend, htext, hsame'⟩ := terminate_reverse (m := signed) (show m1.lo ≤ str by omega) hroom hsigned h0
  rw [List.length_append, hlen, List.length_singleton] at hend
  refine ⟨m', ?_, ?_, hsame'.lo.trans hlo1, hsame'.hi.trans hhi1⟩
  · rw [itoa, if_neg (by decide), if_neg (by omega)]
    simp only [hneg, decide_true, Bool.and_self, if_true, hval, hput, ok_bind, hwrite]
    exact hend
  · rw [List.reverse_append] at htext
    exact htext

/-- On values that are not negative `itoa` and `utoa` run the same code. -/
theorem itoa_natCast {base : Nat} (hb : 1 < base) (n str : Nat) (m : Memory) :
    itoa n str base m = utoa n str base m := by
  have hneg : ¬ (n : Int) < 0 := by omega
  rw [itoa, utoa, if_neg (by omega)]
  by_cases h0 : n = 0
  · subst h0
    rfl
  · rw [if_neg (by omega), if_neg h0]
    simp only [hneg, decide_false, Bool.false_and, Bool.false_eq_true, if_false, ok_bind]

/-- **`itoa` in base ten writes `itoaText`.** -/
theorem itoa_eq {value : Int} {str : Nat} {m : Memory} (hmin : -2 ^ 63 ≤ value) (hmax : value < 2 ^ 63)
    (hlo : m.lo ≤ str) (hhi : str + (itoaText value).length < m.hi) :
    ∃ m', itoa value str 10 m = .ok (1, m') ∧ m'.HasText str (itoaText value) ∧ m'.lo = m.lo ∧ m'.hi = m.hi := by
  unfold itoaText at hhi ⊢
  by_cases hleast : value = -2 ^ 63
  · rw [if_pos hleast, List.length_cons, List.length_reverse, signedDigits_length] at hhi
    rw [if_pos hleast]
    subst hleast
    exact itoa_negative (by decide) (by decide) (.inr rfl) (by decide) hlo hhi
  · rw [if_neg hleast] at hhi ⊢
    by_cases hneg : value < 0
    · have hn : value.natAbs ≠ 0 := by omega
      rw [if_pos hneg, numeral_of_ne_zero hn, List.length_append, List.length_singleton, List.length_reverse,
        digitChars_length] at hhi
      have hval : (-value).bmod (2 ^ 64) = 1 * (value.natAbs : Int) := by
        rw [Int.bmod_eq_of_le (by omega) (by omega)]
        omega
      rw [if_pos hneg, numeral_of_ne_zero hn, ← signedDigits_one (by decide) (by decide)]
      exact itoa_negative hneg hval (.inl rfl) (by omega) hlo (by omega)
    · obtain ⟨n, rfl⟩ := Int.eq_ofNat_of_zero_le (Int.not_lt.mp hneg)
      rw [if_neg hneg, List.nil_append] at hhi ⊢
      rw [Int.natAbs_natCast] at hhi ⊢
      rw [itoa_natCast (by decide)]
      exact utoa_eq (by decide) (by decide) (by omega) hlo hhi

end LearningOS.Strings
