import Mathlib.Data.Set.Lattice
import Mathlib.Order.CompletePartialOrder

/-!
# `Lib.Arena` — ranges handed out behind a cursor

A bump allocator owns some disjoint arenas, each with a cursor: what it hands out next from an arena starts at the
cursor and the cursor moves past it. `Behind granted arena cursor` is the invariant that keeps what is handed out
disjoint: of the ranges granted so far, those that meet the arena lie behind its cursor.
-/

namespace Arena

variable {α : Type} [LinearOrder α]

/-- Every granted range that meets the arena lies behind the cursor. -/
def Behind (granted : List (Set α)) (arena : Set α) (cursor : α) : Prop :=
  ∀ range ∈ granted, Disjoint range arena ∨ ∀ x ∈ range, x < cursor

variable {granted : List (Set α)} {range arena : Set α} {cursor cursor' : α}

theorem behind_nil : Behind [] arena cursor := by
  intro range hrange
  cases hrange

/-- **What is taken at the cursor is new**: it meets no range granted before. -/
theorem Behind.apart (h : Behind granted arena cursor) (hin : range ⊆ arena) (hfrom : ∀ x ∈ range, cursor ≤ x) :
    ∀ old ∈ granted, Disjoint range old := by
  intro old hold
  rcases h old hold with hout | hbelow
  · exact (hout.mono_right hin).symm
  · -- an element of both would be on either side of the cursor
    rw [Set.disjoint_left]
    intro x hx hx'
    exact absurd (hbelow x hx') (not_lt.mpr (hfrom x hx))

/-- A cursor that moves past the new range stays ahead of all of them. -/
theorem Behind.advance (h : Behind granted arena cursor) (hle : cursor ≤ cursor')
    (hpast : ∀ x ∈ range, x < cursor') : Behind (range :: granted) arena cursor' := by
  intro r hr
  rcases List.mem_cons.mp hr with rfl | hold
  · exact .inr hpast
  · rcases h r hold with hout | hbelow
    · exact .inl hout
    · exact .inr fun x hx => lt_of_lt_of_le (hbelow x hx) hle

/-- A range taken elsewhere changes nothing here. -/
theorem Behind.elsewhere (h : Behind granted arena cursor) (hout : Disjoint range arena) :
    Behind (range :: granted) arena cursor := by
  intro r hr
  rcases List.mem_cons.mp hr with rfl | hold
  · exact .inl hout
  · exact h r hold

end Arena
