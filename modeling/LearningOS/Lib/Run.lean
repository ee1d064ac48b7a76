import Mathlib.Data.List.Basic

/-!
# `Lib.Run` — runs of a partial, labelled step function

A component whose operations can stop short is a function `step : S → A → Except E S`: the state, the
operation asked for, and either the next state or the reason why there is none. This module fixes what a
*run* of such a component is and gives the one induction every safety argument needs.

* `Reaches step meets s₀ s` — `s` is reached from `s₀` by successful steps each of which meets the side
  condition `meets` at the state it starts from (`fun _ _ => True` for no condition);
* `Reaches.invariant` — a property of `s₀` kept by every such step holds of every reached state;
* `runActs` — the executable run of a list of operations, and `Reaches.of_runActs` back to `Reaches`;
* `answers` — what a component that always answers says to a list of operations, and `answers_eq`: two components
  related step by step say the same.
-/

namespace Run

variable {S A E : Type}

/-! ## Inversion of the error monad -/

theorem bind_eq_ok {α β : Type} {x : Except E α} {f : α → Except E β} {b : β} :
    (x >>= f) = .ok b ↔ ∃ a, x = .ok a ∧ f a = .ok b := by
  cases x with
  | error e => simp [bind, Except.bind]
  | ok a => simp [bind, Except.bind]

theorem bind_eq_error {α β : Type} {x : Except E α} {f : α → Except E β} {e : E} :
    (x >>= f) = .error e ↔ x = .error e ∨ ∃ a, x = .ok a ∧ f a = .error e := by
  cases x with
  | error e' => simp [bind, Except.bind]
  | ok a => simp [bind, Except.bind]

@[simp] theorem ok_bind {α β : Type} (a : α) (f : α → Except E β) : ((.ok a : Except E α) >>= f) = f a :=
  rfl

@[simp] theorem error_bind {α β : Type} (e : E) (f : α → Except E β) :
    ((.error e : Except E α) >>= f) = .error e :=
  rfl

/-- The result is the error `e`. -/
def failsWith [DecidableEq E] {α : Type} (x : Except E α) (e : E) : Bool :=
  match x with
  | .error e' => decide (e' = e)
  | .ok _ => false

theorem eq_error_of_failsWith [DecidableEq E] {α : Type} {x : Except E α} {e : E}
    (h : failsWith x e = true) : x = .error e := by
  cases x with
  | error e' => rw [of_decide_eq_true h]
  | ok a => cases h

theorem exists_ok_of_isOk {α : Type} {x : Except E α} (h : x.isOk = true) : ∃ a, x = .ok a := by
  cases x with
  | error e => cases h
  | ok a => exact ⟨a, rfl⟩

/-! ## Reachability under a side condition -/

/-- `s` is reached from `s₀` by successful steps, each meeting `meets` at its own start state. -/
inductive Reaches (step : S → A → Except E S) (meets : S → A → Prop) (s₀ : S) : S → Prop where
  | refl : Reaches step meets s₀ s₀
  | tail {s s' : S} {a : A} :
      Reaches step meets s₀ s → meets s a → step s a = .ok s' → Reaches step meets s₀ s'

variable {step : S → A → Except E S} {meets : S → A → Prop} {s₀ : S}

/-- **The invariant rule.** What holds at the start and survives every step holds of every state reached. -/
theorem Reaches.invariant (I : S → Prop) (h0 : I s₀)
    (hstep : ∀ s a s', I s → meets s a → step s a = .ok s' → I s')
    {s : S} (h : Reaches step meets s₀ s) : I s := by
  induction h with
  | refl => exact h0
  | tail _ hm hs ih => exact hstep _ _ _ ih hm hs

/-- A run under a condition is a run under every weaker one. -/
theorem Reaches.mono {meets' : S → A → Prop} (hw : ∀ s a, meets s a → meets' s a) {s : S}
    (h : Reaches step meets s₀ s) : Reaches step meets' s₀ s := by
  induction h with
  | refl => exact .refl
  | tail _ hm hs ih => exact .tail ih (hw _ _ hm) hs

/-! ## Executable runs -/

/-- Run a list of operations; the first one that stops short ends the run. -/
def runActs (step : S → A → Except E S) (s : S) : List A → Except E S
  | [] => .ok s
  | a :: as => step s a >>= fun s' => runActs step s' as

/-- The side condition, checked along the run of a list of operations. -/
def actsMeet (step : S → A → Except E S) (check : S → A → Bool) (s : S) : List A → Bool
  | [] => true
  | a :: as =>
    check s a && match step s a with
      | .ok s' => actsMeet step check s' as
      | .error _ => false

/-- Two runs compose. -/
theorem Reaches.trans {s s' : S} (h : Reaches step meets s₀ s) (h' : Reaches step meets s s') :
    Reaches step meets s₀ s' := by
  induction h' with
  | refl => exact h
  | tail _ hm hs ih => exact .tail ih hm hs

/-- A list of operations that runs to the end, meeting a checked condition, is a run. -/
theorem Reaches.of_runActs {check : S → A → Bool} (hc : ∀ s a, check s a = true → meets s a) :
    ∀ (as : List A) {s s' : S}, actsMeet step check s as = true → runActs step s as = .ok s' →
      Reaches step meets s s'
  | [], s, s', _, hr => by cases hr; exact .refl
  | a :: as, s, s', hm, hr => by
      simp only [actsMeet, Bool.and_eq_true] at hm
      obtain ⟨s1, hs1, hr⟩ := bind_eq_ok.mp hr
      rw [hs1] at hm
      have h1 : Reaches step meets s s1 := .tail .refl (hc _ _ hm.1) hs1
      exact h1.trans (Reaches.of_runActs hc as hm.2 hr)

/-- Initialise, run a list of operations each of which must pass `check`, and test the outcome. -/
def sample {M : Type} (init : Except E M) (start : M → S) (step : S → A → Except E S) (check : S → A → Bool)
    (as : List A) (post : M → S → Bool) : Bool :=
  match init with
  | .error _ => false
  | .ok m =>
    actsMeet step check (start m) as &&
      match runActs step (start m) as with
      | .ok s => post m s
      | .error _ => false

/-- A sample that passes is a run with that outcome. -/
theorem exists_of_sample {M : Type} (init : Except E M) (start : M → S) (step : S → A → Except E S)
    (check : S → A → Bool) (as : List A) (post : M → S → Bool) (hc : ∀ s a, check s a = true → meets s a)
    (h : sample init start step check as post = true) :
    ∃ m s, init = .ok m ∧ Reaches step meets (start m) s ∧ post m s = true := by
  cases init with
  | error e => cases h
  | ok m =>
      obtain ⟨hacts, hpost⟩ := Bool.and_eq_true_iff.mp h
      cases hs : runActs step (start m) as with
      | error e =>
          rw [hs] at hpost
          cases hpost
      | ok s =>
          rw [hs] at hpost
          exact ⟨m, s, rfl, Reaches.of_runActs hc as hacts hs, hpost⟩

/-! ## Components that answer -/

section Answers

variable {T O : Type} {answer : S → A → O × S} {answer' : T → A → O × T}

/-- The answers to a list of operations. -/
def answers (answer : S → A → O × S) (s : S) : List A → List O
  | [] => []
  | a :: as => (answer s a).1 :: answers answer (answer s a).2 as

/-- **The simulation rule.** If related states give the same answer and stay related, all answers are the same. -/
theorem answers_eq (R : S → T → Prop) (admits : A → Prop)
    (hstep : ∀ s t a, R s t → admits a → (answer s a).1 = (answer' t a).1 ∧ R (answer s a).2 (answer' t a).2)
    {s : S} {t : T} (h0 : R s t) (as : List A) (has : ∀ a ∈ as, admits a) :
    answers answer s as = answers answer' t as := by
  induction as generalizing s t with
  | nil => rfl
  | cons a as ih =>
      obtain ⟨hout, hnext⟩ := hstep s t a h0 (has a List.mem_cons_self)
      have hrest := ih hnext (fun b hb => has b (List.mem_cons_of_mem a hb))
      rw [answers, answers, hout, hrest]

end Answers

end Run
