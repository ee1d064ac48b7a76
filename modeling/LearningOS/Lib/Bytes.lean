import Mathlib.Algebra.Group.Nat.Defs
import Mathlib.Data.Nat.Basic
import Mathlib.Logic.Function.Basic

/-!
# `Lib.Bytes` — byte memory with little-endian words

A memory is a byte for every address. `load n mem a` reads the `n` bytes from `a` as a little-endian number and
`store n mem a v` writes them. Three facts are enough to reason about it: a word reads back as it was written
(`load_store`), a store leaves every byte outside its `n` alone (`store_frame`), and a load looks at nothing but
its `n` bytes (`load_congr`).
-/

namespace Bytes

/-- A byte for every address. -/
abbrev Mem := Nat → UInt8

/-- The `n` bytes from `a`, least significant first. -/
def load : Nat → Mem → Nat → Nat
  | 0, _, _ => 0
  | n + 1, mem, a => (mem a).toNat + 256 * load n mem (a + 1)

/-- Write the `n` low bytes of `v` from `a` on. -/
def store : Nat → Mem → Nat → Nat → Mem
  | 0, mem, _, _ => mem
  | n + 1, mem, a, v => store n (Function.update mem a (UInt8.ofNat v)) (a + 1) (v / 256)

/-- The byte at `x` is not one of the `n` from `a` on. -/
def Outside (n a x : Nat) : Prop := x < a ∨ a + n ≤ x

theorem store_frame {n a x : Nat} (h : Outside n a x) (mem : Mem) (v : Nat) : store n mem a v x = mem x := by
  induction n generalizing a mem v with
  | zero => rfl
  | succ n ih =>
      have hx : x ≠ a := by
        rintro rfl
        rcases h with h | h
        · exact lt_irrefl _ h
        · omega
      have h' : Outside n (a + 1) x := by
        rcases h with h | h
        · exact .inl (by omega)
        · exact .inr (by omega)
      show store n (Function.update mem a (UInt8.ofNat v)) (a + 1) (v / 256) x = mem x
      rw [ih h', Function.update_of_ne hx]

theorem load_congr {n a : Nat} {mem mem' : Mem} (h : ∀ x, a ≤ x → x < a + n → mem' x = mem x) :
    load n mem' a = load n mem a := by
  induction n generalizing a with
  | zero => rfl
  | succ n ih =>
      show (mem' a).toNat + 256 * load n mem' (a + 1) = (mem a).toNat + 256 * load n mem (a + 1)
      rw [h a le_rfl (by omega), ih (fun x h1 h2 => h x (by omega) (by omega))]

theorem load_lt (n : Nat) (mem : Mem) (a : Nat) : load n mem a < 256 ^ n := by
  induction n generalizing a with
  | zero => exact Nat.one_pos
  | succ n ih =>
      have hb : (mem a).toNat < 256 := (mem a).toNat_lt
      have hrec := ih (a + 1)
      show (mem a).toNat + 256 * load n mem (a + 1) < 256 ^ (n + 1)
      rw [Nat.pow_succ]
      omega

/-- **A word reads back as it was written.** -/
theorem load_store {n v : Nat} (hv : v < 256 ^ n) (mem : Mem) (a : Nat) : load n (store n mem a v) a = v := by
  induction n generalizing mem a v with
  | zero =>
      rw [Nat.pow_zero] at hv
      show 0 = v
      omega
  | succ n ih =>
      have hdiv : v / 256 < 256 ^ n := by
        rw [Nat.pow_succ] at hv
        exact Nat.div_lt_of_lt_mul (by rw [Nat.mul_comm]; exact hv)
      show (store n (Function.update mem a (UInt8.ofNat v)) (a + 1) (v / 256) a).toNat +
        256 * load n (store n (Function.update mem a (UInt8.ofNat v)) (a + 1) (v / 256)) (a + 1) = v
      rw [ih hdiv, store_frame (.inl (Nat.lt_succ_self a)), Function.update_self]
      have hb : (UInt8.ofNat v).toNat = v % 256 := by simp
      rw [hb]
      omega

/-- A store into other bytes does not change a load. -/
theorem load_store_of_disjoint {n k a b : Nat} (h : a + n ≤ b ∨ b + k ≤ a) (mem : Mem) (v : Nat) :
    load n (store k mem b v) a = load n mem a := by
  refine load_congr (fun x h1 h2 => store_frame ?_ mem v)
  rcases h with h | h
  · exact .inl (by omega)
  · exact .inr (by omega)

/-- A load in two parts. -/
theorem load_add (n k : Nat) (mem : Mem) (a : Nat) :
    load (n + k) mem a = load n mem a + 256 ^ n * load k mem (a + n) := by
  induction n generalizing a with
  | zero =>
      rw [Nat.zero_add, Nat.pow_zero, Nat.one_mul]
      exact (Nat.zero_add _).symm
  | succ n ih =>
      rw [Nat.succ_add]
      show (mem a).toNat + 256 * load (n + k) mem (a + 1) =
        (mem a).toNat + 256 * load n mem (a + 1) + 256 ^ (n + 1) * load k mem (a + (n + 1))
      rw [ih, Nat.mul_add, ← Nat.mul_assoc, ← Nat.pow_succ', Nat.add_assoc a 1 n, Nat.add_comm 1 n, Nat.add_assoc]

end Bytes
