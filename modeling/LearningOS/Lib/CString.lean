import Mathlib.Data.List.Basic
import Mathlib.Logic.Function.Basic

/-!
# `Lib.CString` — strings in memory and the block operations on them

A memory gives a byte for every address. `Holds mem p xs` says that the bytes `xs` stand from `p` on, and
`Text mem p s` that the NUL-terminated string `s` does. Two operations move bytes about: `move` copies a block, also
over itself, and `fill` writes one byte many times. Code that works in place on a string is a loop that amounts to one
of the two; what it leaves in memory then follows from `holds_move`, `holds_fill` and the frame lemmas.
-/

namespace CString

/-- The bytes `xs` stand from `p` on. -/
def Holds (mem : Nat → Nat) (p : Nat) (xs : List Nat) : Prop := ∀ i < xs.length, mem (p + i) = xs.getD i 0

instance (mem : Nat → Nat) (p : Nat) (xs : List Nat) : Decidable (Holds mem p xs) :=
  inferInstanceAs (Decidable (∀ i < xs.length, mem (p + i) = xs.getD i 0))

/-- The string `s` stands at `p`, with its terminator. -/
def Text (mem : Nat → Nat) (p : Nat) (s : List Nat) : Prop := Holds mem p (s ++ [0]) ∧ 0 ∉ s

/-! ## Bytes in a row -/

theorem holds_nil (mem : Nat → Nat) (p : Nat) : Holds mem p [] := fun _ h => absurd h (Nat.not_lt_zero _)

theorem holds_cons {mem : Nat → Nat} {p x : Nat} {xs : List Nat} :
    Holds mem p (x :: xs) ↔ mem p = x ∧ Holds mem (p + 1) xs := by
  constructor
  · intro h
    refine ⟨h 0 (Nat.zero_lt_succ _), ?_⟩
    intro i hi
    have hnext := h (i + 1) (Nat.succ_lt_succ hi)
    rw [show p + (i + 1) = p + 1 + i by omega, List.getD_cons_succ] at hnext
    exact hnext
  · rintro ⟨hx, hxs⟩ i hi
    cases i with
    | zero => exact hx
    | succ i =>
        rw [show p + (i + 1) = p + 1 + i by omega, List.getD_cons_succ]
        exact hxs i (Nat.lt_of_succ_lt_succ hi)

theorem holds_singleton {mem : Nat → Nat} {p x : Nat} : Holds mem p [x] ↔ mem p = x := by
  rw [holds_cons]
  exact and_iff_left (holds_nil mem (p + 1))

theorem holds_append {mem : Nat → Nat} {p : Nat} {xs ys : List Nat} :
    Holds mem p (xs ++ ys) ↔ Holds mem p xs ∧ Holds mem (p + xs.length) ys := by
  induction xs generalizing p with
  | nil => exact ⟨fun h => ⟨holds_nil mem p, h⟩, fun h => h.2⟩
  | cons x xs ih =>
      rw [List.cons_append, holds_cons, holds_cons, ih, List.length_cons, and_assoc,
        show p + 1 + xs.length = p + (xs.length + 1) by omega]

/-- Only the bytes in question matter. -/
theorem Holds.congr {mem mem' : Nat → Nat} {p : Nat} {xs : List Nat} (h : Holds mem p xs)
    (heq : ∀ a, p ≤ a → a < p + xs.length → mem' a = mem a) : Holds mem' p xs := by
  intro i hi
  rw [heq (p + i) (Nat.le_add_right p i) (Nat.add_lt_add_left hi p)]
  exact h i hi

/-- A write elsewhere leaves them as they are. -/
theorem Holds.update {mem : Nat → Nat} {p a c : Nat} {xs : List Nat} (h : Holds mem p xs)
    (ha : a < p ∨ p + xs.length ≤ a) : Holds (Function.update mem a c) p xs := by
  apply h.congr
  intro b hb hb'
  apply Function.update_of_ne
  omega

/-- A write at the end adds a byte. -/
theorem Holds.snoc {mem : Nat → Nat} {p c : Nat} {xs : List Nat} (h : Holds mem p xs) :
    Holds (Function.update mem (p + xs.length) c) p (xs ++ [c]) := by
  rw [holds_append]
  refine ⟨h.update (.inr (Nat.le_refl _)), ?_⟩
  rw [holds_singleton, Function.update_self]

/-! ## Strings -/

theorem text_iff {mem : Nat → Nat} {p : Nat} {s : List Nat} :
    Text mem p s ↔ Holds mem p s ∧ mem (p + s.length) = 0 ∧ 0 ∉ s := by
  unfold Text
  rw [holds_append, holds_singleton, and_assoc]

/-- A string behind other bytes is a string that starts with them. -/
theorem text_append {mem : Nat → Nat} {p : Nat} {xs s : List Nat} :
    Text mem p (xs ++ s) ↔ Holds mem p xs ∧ 0 ∉ xs ∧ Text mem (p + xs.length) s := by
  unfold Text
  rw [List.append_assoc, holds_append, List.mem_append, not_or]
  constructor
  · rintro ⟨⟨h1, h2⟩, h3, h4⟩
    exact ⟨h1, h3, h2, h4⟩
  · rintro ⟨h1, h3, h2, h4⟩
    exact ⟨⟨h1, h2⟩, h3, h4⟩

/-- One string stands at one address. -/
theorem Text.unique {mem : Nat → Nat} {p : Nat} {s s' : List Nat} (h : Text mem p s) (h' : Text mem p s') : s = s' := by
  induction s generalizing p s' with
  | nil =>
      have hnul : mem p = 0 := (text_iff.mp h).2.1
      cases s' with
      | nil => rfl
      | cons c s' =>
          obtain ⟨hhead, h0, -⟩ := text_append.mp (show Text mem p ([c] ++ s') from h')
          rw [holds_singleton, hnul] at hhead
          exact absurd (hhead ▸ List.mem_cons_self) h0
  | cons c s ih =>
      obtain ⟨hhead, h0, hrest⟩ := text_append.mp (show Text mem p ([c] ++ s) from h)
      rw [holds_singleton] at hhead
      cases s' with
      | nil =>
          have hnul : mem p = 0 := (text_iff.mp h').2.1
          rw [hnul] at hhead
          exact absurd (hhead ▸ List.mem_cons_self) h0
      | cons c' s' =>
          obtain ⟨hhead', -, hrest'⟩ := text_append.mp (show Text mem p ([c'] ++ s') from h')
          rw [holds_singleton, hhead] at hhead'
          rw [hhead', ih hrest hrest']

/-! ## Blocks -/

/-- Copy `n` bytes from `src` to `dst`. -/
def move (mem : Nat → Nat) (dst src n : Nat) : Nat → Nat :=
  fun a => if dst ≤ a ∧ a < dst + n then mem (a - dst + src) else mem a

/-- Write `c` to `n` bytes from `p` on. -/
def fill (mem : Nat → Nat) (p n c : Nat) : Nat → Nat :=
  fun a => if p ≤ a ∧ a < p + n then c else mem a

theorem move_of_outside {mem : Nat → Nat} {dst src n a : Nat} (h : a < dst ∨ dst + n ≤ a) :
    move mem dst src n a = mem a := if_neg (by omega)

theorem fill_of_outside {mem : Nat → Nat} {p n c a : Nat} (h : a < p ∨ p + n ≤ a) : fill mem p n c a = mem a :=
  if_neg (by omega)

theorem move_zero (mem : Nat → Nat) (dst src : Nat) : move mem dst src 0 = mem := by
  funext a
  exact move_of_outside (by omega)

theorem fill_zero (mem : Nat → Nat) (p c : Nat) : fill mem p 0 c = mem := by
  funext a
  exact fill_of_outside (by omega)

theorem holds_move {mem : Nat → Nat} {src : Nat} {xs : List Nat} (h : Holds mem src xs) (dst : Nat) :
    Holds (move mem dst src xs.length) dst xs := by
  intro i hi
  have hin : dst ≤ dst + i ∧ dst + i < dst + xs.length := by omega
  show (if dst ≤ dst + i ∧ dst + i < dst + xs.length then mem (dst + i - dst + src) else mem (dst + i)) = _
  rw [if_pos hin, show dst + i - dst + src = src + i by omega]
  exact h i hi

theorem holds_fill (mem : Nat → Nat) (p n c : Nat) : Holds (fill mem p n c) p (List.replicate n c) := by
  intro i hi
  rw [List.length_replicate] at hi
  have hin : p ≤ p + i ∧ p + i < p + n := by omega
  show (if p ≤ p + i ∧ p + i < p + n then c else mem (p + i)) = _
  rw [if_pos hin]
  simp [hi]

/-- Copying a block from its last byte down: first the last byte, then the rest. -/
theorem move_last (mem : Nat → Nat) {dst src n : Nat} (h : src ≤ dst) :
    move (Function.update mem (dst + n) (mem (src + n))) dst src n = move mem dst src (n + 1) := by
  funext a
  unfold move
  by_cases hn : a = dst + n
  · subst hn
    rw [if_neg (by omega), if_pos (by omega), Function.update_self, show dst + n - dst + src = src + n by omega]
  · by_cases hin : dst ≤ a ∧ a < dst + n
    · rw [if_pos hin, if_pos (by omega), Function.update_of_ne (by omega)]
    · rw [if_neg hin, if_neg (by omega), Function.update_of_ne hn]

/-- Filling a block from its first byte up: first one byte, then the rest. -/
theorem fill_first (mem : Nat → Nat) (p n c : Nat) :
    fill (Function.update mem p c) (p + 1) n c = fill mem p (n + 1) c := by
  funext a
  unfold fill
  by_cases hp : a = p
  · subst hp
    rw [if_neg (by omega), if_pos (by omega), Function.update_self]
  · by_cases hin : p + 1 ≤ a ∧ a < p + 1 + n
    · rw [if_pos hin, if_pos (by omega)]
    · rw [if_neg hin, if_neg (by omega), Function.update_of_ne hp]

/-- **Justifying to the right.** Move bytes up and fill the gap. -/
theorem holds_fill_move {mem : Nat → Nat} {p : Nat} {xs : List Nat} (h : Holds mem p xs) (n c : Nat) :
    Holds (fill (move mem (p + n) p xs.length) p n c) p (List.replicate n c ++ xs) := by
  rw [holds_append, List.length_replicate]
  refine ⟨holds_fill _ p n c, ?_⟩
  apply (holds_move h (p + n)).congr
  intro a ha _
  exact fill_of_outside (.inr ha)

/-- **Justifying to the left.** Fill behind bytes and end them there. -/
theorem holds_fill_end {mem : Nat → Nat} {p : Nat} {xs : List Nat} (h : Holds mem p xs) (n c : Nat) :
    Holds (Function.update (fill mem (p + xs.length) n c) (p + xs.length + n) 0) p
      (xs ++ List.replicate n c ++ [0]) := by
  have hfilled : Holds (fill mem (p + xs.length) n c) p (xs ++ List.replicate n c) := by
    rw [holds_append]
    refine ⟨?_, holds_fill mem (p + xs.length) n c⟩
    apply h.congr
    intro a _ ha
    exact fill_of_outside (.inl ha)
  have hended := hfilled.snoc (c := 0)
  rwa [List.length_append, List.length_replicate, ← Nat.add_assoc] at hended

end CString
