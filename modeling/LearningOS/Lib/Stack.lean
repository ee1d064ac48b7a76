import Mathlib.Algebra.Group.Nat.Defs
import Mathlib.Logic.Function.Basic

/-!
# `Lib.Stack` — a stack of words in memory that grows downwards

Memory is a word for every address, the words of a stack 8 bytes apart. `slot top i` is the address of the `i`-th word
below `top`; a stack pointer of depth `i` is at `slot top i`, so that pushing writes slot `i + 1`. Slots are addresses
modulo `2 ^ 64`, and different as long as the depth stays below `2 ^ 60`. `Holds mem top ws` says that the words `ws`
are on the stack, the one pushed last first; pushing is then consing, and whoever writes elsewhere keeps it.
-/

namespace Stack

/-- A word for every address. -/
abbrev Words := BitVec 64 → BitVec 64

/-- The address of the `i`-th word below `top`. -/
def slot (top : BitVec 64) (i : Nat) : BitVec 64 := top - BitVec.ofNat 64 (8 * i)

/-- The words `ws` are on the stack, the last one pushed first. -/
def Holds (mem : Words) (top : BitVec 64) : List (BitVec 64) → Prop
  | [] => True
  | w :: ws => mem (slot top (ws.length + 1)) = w ∧ Holds mem top ws

variable {mem mem' : Words} {top w : BitVec 64} {ws : List (BitVec 64)} {i j : Nat}

/-! ## Addresses -/

theorem slot_sub_eight : slot top i - 8 = slot top (i + 1) := by
  unfold slot
  bv_omega

theorem slot_add (h : j ≤ i) : slot top i + BitVec.ofNat 64 (8 * j) = slot top (i - j) := by
  unfold slot
  bv_omega

/-- Slots differ. -/
theorem slot_inj (hi : i < 2 ^ 60) (hj : j < 2 ^ 60) : slot top i = slot top j ↔ i = j := by
  constructor
  · intro h
    have hsub : BitVec.ofNat 64 (8 * i) = BitVec.ofNat 64 (8 * j) := by
      unfold slot at h
      bv_omega
    have hnat := congrArg BitVec.toNat hsub
    rw [BitVec.toNat_ofNat, BitVec.toNat_ofNat] at hnat
    omega
  · rintro rfl
    rfl

/-- Writing one slot leaves the others. -/
theorem update_slot_of_ne (hi : i < 2 ^ 60) (hj : j < 2 ^ 60) (hne : j ≠ i) (w : BitVec 64) :
    Function.update mem (slot top i) w (slot top j) = mem (slot top j) :=
  Function.update_of_ne (fun he => hne ((slot_inj hj hi).mp he)) w mem

/-! ## What is on the stack -/

/-- Memory that agrees on the slots in use holds the same words. -/
theorem Holds.congr (h : Holds mem top ws) (heq : ∀ i < ws.length, mem' (slot top (i + 1)) = mem (slot top (i + 1))) :
    Holds mem' top ws := by
  induction ws with
  | nil => trivial
  | cons w ws ih =>
      obtain ⟨hw, hws⟩ := h
      refine ⟨?_, ?_⟩
      · rw [heq ws.length (Nat.lt_succ_self _)]
        exact hw
      · refine ih hws ?_
        intro i hi
        exact heq i (Nat.lt_succ_of_lt hi)

/-- **Pushing** a word. -/
theorem Holds.push (h : Holds mem top ws) (hdeep : ws.length + 1 < 2 ^ 60) (w : BitVec 64) :
    Holds (Function.update mem (slot top (ws.length + 1)) w) top (w :: ws) := by
  refine ⟨Function.update_self _ _ _, ?_⟩
  refine h.congr ?_
  intro i hi
  exact update_slot_of_ne hdeep (by omega) (by omega) w

theorem Holds.append_right {us : List (BitVec 64)} (h : Holds mem top (us ++ ws)) : Holds mem top ws := by
  induction us with
  | nil => exact h
  | cons u us ih => exact ih h.2

/-- **Reading** the word at a distance from the stack pointer. -/
theorem Holds.get (h : Holds mem top ws) (hi : i < ws.length) :
    mem (slot top ws.length + BitVec.ofNat 64 (8 * i)) = ws[i] := by
  induction ws generalizing i with
  | nil => exact absurd hi (Nat.not_lt_zero i)
  | cons w ws ih =>
      obtain ⟨hw, hws⟩ := h
      rw [slot_add (Nat.le_of_lt hi), List.length_cons]
      cases i with
      | zero => exact hw
      | succ i =>
          have hi' : i < ws.length := Nat.lt_of_succ_lt_succ hi
          have hread := ih hws hi'
          rw [slot_add (Nat.le_of_lt hi')] at hread
          rw [Nat.add_sub_add_right]
          exact hread

end Stack
