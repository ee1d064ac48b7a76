import Mathlib.Data.List.Nodup
import Mathlib.Logic.Function.Basic
import LearningOS.Lib.Run

/-!
# `Lib.Retry` — compare-and-swap retry loops on one cell

Any number of calls update one cell. Each reads it once, computes the new value from what it saw, and tries to swap
it in; a swap that finds another value gives that value back and the call tries again with it. One step of the system
is one read or one swap of one call, so a run is an interleaving.

* `State` — the cell, where each call is, and the calls whose swap has succeeded, the latest first;
* `Linear` — the cell is what the successful calls give when they are applied one after the other, and each saw
  exactly what the earlier ones left;
* `linear_initial`, `linear_step` — so it is in every state of every interleaving.
-/

namespace Retry

open Run

variable {ι α : Type}

/-- Where a call is: not begun, about to swap what it saw, or returned, with the value its swap replaced. -/
inductive Phase (α : Type) where
  | start
  | holding (seen : α)
  | done (before : α)
deriving DecidableEq

/-- The cell and its calls. -/
structure State (ι α : Type) where
  cell : α
  phase : ι → Phase α
  log : List ι

/-- A call that has returned has no further step. -/
inductive Finished where
  | returned
deriving DecidableEq

/-- The next step of call `i`. -/
def step [DecidableEq ι] [DecidableEq α] (update : ι → α → α) (s : State ι α) (i : ι) :
    Except Finished (State ι α) :=
  match s.phase i with
  | .start => .ok { s with phase := Function.update s.phase i (.holding s.cell) }
  | .holding seen =>
    if s.cell = seen then
      .ok { cell := update i seen, phase := Function.update s.phase i (.done seen), log := i :: s.log }
    else .ok { s with phase := Function.update s.phase i (.holding s.cell) }
  | .done _ => .error .returned

/-- The state before any call has begun. -/
def State.initial (cell : α) : State ι α := ⟨cell, fun _ => .start, []⟩

/-- What the calls of a log make of a value, the oldest first. -/
def replay (update : ι → α → α) (cell : α) (log : List ι) : α := log.foldr update cell

@[simp] theorem replay_nil (update : ι → α → α) (cell : α) : replay update cell [] = cell := rfl

@[simp] theorem replay_cons (update : ι → α → α) (cell : α) (i : ι) (log : List ι) :
    replay update cell (i :: log) = update i (replay update cell log) := rfl

/-- The calls took effect one after the other. -/
structure Linear (update : ι → α → α) (cell : α) (s : State ι α) : Prop where
  cell_eq : s.cell = replay update cell s.log
  nodup : s.log.Nodup
  returned : ∀ i, i ∈ s.log ↔ ∃ before, s.phase i = .done before
  before : ∀ later i earlier, s.log = later ++ i :: earlier → s.phase i = .done (replay update cell earlier)

variable {update : ι → α → α} {cell : α} {s s' : State ι α} {i : ι}

theorem linear_initial : Linear update cell (State.initial cell : State ι α) where
  cell_eq := rfl
  nodup := List.nodup_nil
  returned := by
    intro i
    refine iff_of_false List.not_mem_nil ?_
    rintro ⟨before, h⟩
    cases h
  before := by
    intro later i earlier h
    have h : [] = later ++ i :: earlier := h
    simp at h

variable [DecidableEq ι] [DecidableEq α]

/-- A step moves one call from a value it holds to another, or lets its swap succeed. -/
theorem step_cases (h : step update s i = .ok s') :
    ((∀ before, s.phase i ≠ .done before) ∧
        s' = { s with phase := Function.update s.phase i (.holding s.cell) }) ∨
      ((∀ before, s.phase i ≠ .done before) ∧
        s' = { cell := update i s.cell, phase := Function.update s.phase i (.done s.cell), log := i :: s.log }) := by
  unfold step at h
  cases hphase : s.phase i with
  | start =>
      rw [hphase] at h
      cases h
      exact Or.inl ⟨nofun, rfl⟩
  | holding seen =>
      rw [hphase] at h
      by_cases hseen : s.cell = seen
      · simp only [if_pos hseen] at h
        cases h
        subst hseen
        exact Or.inr ⟨nofun, rfl⟩
      · simp only [if_neg hseen] at h
        cases h
        exact Or.inl ⟨nofun, rfl⟩
  | done before =>
      rw [hphase] at h
      cases h

/-- **One step keeps the order.** -/
theorem linear_step (h : Linear update cell s) (hstep : step update s i = .ok s') : Linear update cell s' := by
  rcases step_cases hstep with ⟨hrunning, rfl⟩ | ⟨hrunning, rfl⟩
  · -- The call is still running, and was before.
    have hnew : i ∉ s.log := by
      intro hmem
      obtain ⟨before, hdone⟩ := (h.returned i).mp hmem
      exact hrunning before hdone
    refine ⟨h.cell_eq, h.nodup, ?_, ?_⟩
    · intro j
      show j ∈ s.log ↔ ∃ before, Function.update s.phase i (.holding s.cell) j = .done before
      by_cases hji : j = i
      · subst hji
        rw [Function.update_self]
        refine iff_of_false hnew ?_
        rintro ⟨before, hb⟩
        cases hb
      · rw [Function.update_of_ne hji]
        exact h.returned j
    · intro later j earlier hlog
      have hlog : s.log = later ++ j :: earlier := hlog
      have hji : j ≠ i := by
        rintro rfl
        apply hnew
        rw [hlog]
        exact List.mem_append_right _ List.mem_cons_self
      show Function.update s.phase i (.holding s.cell) j = _
      rw [Function.update_of_ne hji]
      exact h.before later j earlier hlog
  · -- Its swap succeeds: what it saw is what the earlier calls left.
    have hnew : i ∉ s.log := by
      intro hmem
      obtain ⟨before, hdone⟩ := (h.returned i).mp hmem
      exact hrunning before hdone
    refine ⟨?_, List.nodup_cons.mpr ⟨hnew, h.nodup⟩, ?_, ?_⟩
    · show update i s.cell = update i (replay update cell s.log)
      rw [h.cell_eq]
    · intro j
      show j ∈ i :: s.log ↔ ∃ before, Function.update s.phase i (.done s.cell) j = .done before
      by_cases hji : j = i
      · subst hji
        rw [Function.update_self]
        exact iff_of_true List.mem_cons_self ⟨_, rfl⟩
      · rw [Function.update_of_ne hji, List.mem_cons, ← h.returned j]
        exact or_iff_right hji
    · intro later j earlier hlog
      have hlog : i :: s.log = later ++ j :: earlier := hlog
      show Function.update s.phase i (.done s.cell) j = _
      cases later with
      | nil =>
          obtain ⟨rfl, rfl⟩ := List.cons.inj hlog
          rw [Function.update_self, h.cell_eq]
      | cons k later =>
          obtain ⟨rfl, hrest⟩ := List.cons.inj hlog
          have hrest : s.log = later ++ j :: earlier := hrest
          have hji : j ≠ i := by
            rintro rfl
            apply hnew
            rw [hrest]
            exact List.mem_append_right _ List.mem_cons_self
          rw [Function.update_of_ne hji]
          exact h.before later j earlier hrest

end Retry
