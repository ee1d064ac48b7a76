import Mathlib.Data.List.Nodup
import Mathlib.Logic.Function.Basic

/-!
# `Lib.Table` — an array in memory and the entries a program writes

A table has an entry for every index, also for those the program should not touch, and remembers which indices were
written. A loop over indices that changes one entry at a time is `modifyAll`; what it leaves of an entry and of the
record of writes does not depend on the order of the loop.
-/

namespace Tables

/-- The entries, and the indices written. -/
structure Table (α : Type) where
  entry : Nat → α
  written : List Nat

variable {α : Type}

/-- Change one entry. -/
def Table.modify (t : Table α) (i : Nat) (f : α → α) : Table α :=
  ⟨Function.update t.entry i (f (t.entry i)), i :: t.written⟩

/-- Change the entries of a list of indices, one after the other. -/
def Table.modifyAll (t : Table α) (f : Nat → α → α) (indices : List Nat) : Table α :=
  indices.foldl (fun t i => t.modify i (f i)) t

/-- Write the same value to the first `n` entries. -/
def Table.fill (t : Table α) (n : Nat) (a : α) : Table α :=
  ⟨fun i => if i < n then a else t.entry i, List.range n ++ t.written⟩

variable {t : Table α} {f : Nat → α → α} {indices : List Nat} {j : Nat}

theorem mem_written_modifyAll : j ∈ (t.modifyAll f indices).written ↔ j ∈ indices ∨ j ∈ t.written := by
  induction indices generalizing t with
  | nil => simp [Table.modifyAll]
  | cons i indices ih =>
      show j ∈ ((t.modify i (f i)).modifyAll f indices).written ↔ _
      rw [ih]
      simp only [Table.modify, List.mem_cons]
      tauto

theorem mem_written_fill {n : Nat} {a : α} : j ∈ (t.fill n a).written ↔ j < n ∨ j ∈ t.written := by
  simp [Table.fill]

/-- The other entries stay. -/
theorem modifyAll_of_not_mem (h : j ∉ indices) : (t.modifyAll f indices).entry j = t.entry j := by
  induction indices generalizing t with
  | nil => rfl
  | cons i indices ih =>
      have hji : j ≠ i := by
        rintro rfl
        exact h List.mem_cons_self
      have hrest : j ∉ indices := fun hmem => h (List.mem_cons_of_mem _ hmem)
      show ((t.modify i (f i)).modifyAll f indices).entry j = t.entry j
      rw [ih hrest]
      exact Function.update_of_ne hji _ _

/-- **An entry visited once** is changed once. -/
theorem modifyAll_of_mem (hnodup : indices.Nodup) (h : j ∈ indices) :
    (t.modifyAll f indices).entry j = f j (t.entry j) := by
  induction indices generalizing t with
  | nil => cases h
  | cons i indices ih =>
      obtain ⟨hi, hnodup⟩ := List.nodup_cons.mp hnodup
      show ((t.modify i (f i)).modifyAll f indices).entry j = f j (t.entry j)
      rcases List.mem_cons.mp h with rfl | hrest
      · rw [modifyAll_of_not_mem hi]
        exact Function.update_self _ _ _
      · have hji : j ≠ i := by
          rintro rfl
          exact hi hrest
        rw [ih hnodup hrest]
        simp only [Table.modify]
        rw [Function.update_of_ne hji]

/-- **A mark**: after a loop that sets it and never clears it, it is on the entries visited and where it was before. -/
theorem modifyAll_mark (Marked : α → Prop) (hset : ∀ i a, Marked (f i a)) :
    Marked ((t.modifyAll f indices).entry j) ↔ j ∈ indices ∨ Marked (t.entry j) := by
  induction indices generalizing t with
  | nil => simp [Table.modifyAll]
  | cons i indices ih =>
      show Marked (((t.modify i (f i)).modifyAll f indices).entry j) ↔ _
      rw [ih, List.mem_cons]
      simp only [Table.modify]
      by_cases hji : j = i
      · subst hji
        rw [Function.update_self]
        exact iff_of_true (.inr (hset _ _)) (.inl (.inl rfl))
      · rw [Function.update_of_ne hji]
        tauto

end Tables
