import Mathlib.Data.List.Nodup

/-!
# `Lib.Chain` — singly linked lists

Nodes of any type with one field that names the next node, or none. `Chain next head l` says that the nodes from `head`
on are those of `l`. The list is determined by the head and the field, and the list from a node of a chain is the rest of
it, so a chain that starts elsewhere in another one is shorter.
-/

namespace Singly

variable {α : Type} {next next' : α → Option α}

/-- The nodes from `head` on are `l`, and there is none after them. -/
def Chain (next : α → Option α) : Option α → List α → Prop
  | head, [] => head = none
  | head, a :: l => head = some a ∧ Chain next (next a) l

theorem Chain.congr {head : Option α} {l : List α} (h : Chain next head l) (hsame : ∀ a ∈ l, next' a = next a) :
    Chain next' head l := by
  induction l generalizing head with
  | nil => exact h
  | cons a l ih =>
      obtain ⟨hhead, hl⟩ := h
      refine ⟨hhead, ?_⟩
      rw [hsame a List.mem_cons_self]
      apply ih hl
      intro b hb
      exact hsame b (List.mem_cons_of_mem _ hb)

theorem Chain.unique {head : Option α} {l l' : List α} (h : Chain next head l) (h' : Chain next head l') : l = l' := by
  induction l generalizing head l' with
  | nil =>
      cases l' with
      | nil => rfl
      | cons a l' =>
          rw [h] at h'
          cases h'.1
  | cons a l ih =>
      cases l' with
      | nil =>
          rw [h'] at h
          cases h.1
      | cons b l' =>
          obtain rfl := Option.some.inj (h.1.symm.trans h'.1)
          rw [ih h.2 h'.2]

theorem Chain.head_eq {head : Option α} {l : List α} (h : Chain next head l) : head = l.head? := by
  cases l with
  | nil => exact h
  | cons a l => exact h.1

/-- Nodes in a row, each linked to the one after it. -/
theorem Chain.of_seq {f : Nat → α} (n : Nat) {s : Nat} (hlink : ∀ i, s ≤ i → i < s + n → next (f i) = some (f (i + 1)))
    (hlast : next (f (s + n)) = none) : Chain next (some (f s)) ((List.range' s (n + 1)).map f) := by
  induction n generalizing s with
  | zero => exact ⟨rfl, hlast⟩
  | succ n ih =>
      refine ⟨rfl, ?_⟩
      rw [hlink s (Nat.le_refl s) (Nat.lt_add_of_pos_right (Nat.succ_pos n))]
      apply ih
      · intro i hi hi'
        exact hlink i (Nat.le_of_succ_le hi) (by omega)
      · rw [show s + 1 + n = s + (n + 1) by omega]
        exact hlast

/-- What a node of a chain is linked to is in the chain. -/
theorem Chain.next_mem {head : Option α} {a b : α} {l : List α} (h : Chain next head l) (ha : a ∈ l)
    (hnext : next a = some b) : b ∈ l := by
  induction l generalizing head with
  | nil => cases ha
  | cons c l ih =>
      obtain ⟨-, hl⟩ := h
      rcases List.mem_cons.mp ha with rfl | ha
      · rw [hnext] at hl
        cases l with
        | nil => cases hl
        | cons d l =>
            obtain rfl := Option.some.inj hl.1
            exact List.mem_cons_of_mem _ List.mem_cons_self
      · exact List.mem_cons_of_mem _ (ih hl ha)

/-- So is a row of linked nodes that begins in it. -/
theorem Chain.seq_mem {head : Option α} {l : List α} (h : Chain next head l) {f : Nat → α} {s n : Nat} (hs : f s ∈ l)
    (hlink : ∀ i, s ≤ i → i < s + n → next (f i) = some (f (i + 1))) : f (s + n) ∈ l := by
  induction n with
  | zero => exact hs
  | succ n ih =>
      have hprev := ih (fun i hi hi' => hlink i hi (Nat.lt_succ_of_lt hi'))
      exact h.next_mem hprev (hlink (s + n) (Nat.le_add_right s n) (Nat.lt_succ_self _))

/-- The chain from a node of a chain is the rest of it. -/
theorem Chain.suffix {head : Option α} {a : α} {l l' : List α} (h : Chain next head l) (ha : a ∈ l)
    (h' : Chain next (some a) l') : ∃ front, l = front ++ l' := by
  induction l generalizing head with
  | nil => cases ha
  | cons b l ih =>
      obtain ⟨hhead, hl⟩ := h
      by_cases hab : a = b
      · subst hab
        refine ⟨[], ?_⟩
        cases l' with
        | nil => cases h'
        | cons c l' =>
            obtain ⟨hc, hl'⟩ := h'
            obtain rfl := Option.some.inj hc
            rw [hl.unique hl']
            rfl
      · have ha : a ∈ l := (List.mem_cons.mp ha).resolve_left hab
        obtain ⟨front, rfl⟩ := ih hl ha
        exact ⟨b :: front, rfl⟩

/-! ## Updates -/

/-- A new node in front. -/
theorem Chain.push {head : Option α} {a : α} {l : List α} (h : Chain next head l) (ha : next' a = head)
    (hsame : ∀ b ∈ l, next' b = next b) : Chain next' (some a) (a :: l) := by
  refine ⟨rfl, ?_⟩
  rw [ha]
  exact h.congr hsame

/-- What follows the nodes in front. -/
theorem Chain.drop {head : Option α} {a : α} {front rest : List α} (h : Chain next head (front ++ a :: rest)) :
    Chain next (next a) rest := by
  induction front generalizing head with
  | nil => exact h.2
  | cons b front ih => exact ih h.2

/-- **Unlinking** the node after `p`: its link goes to `p`, the others stay. -/
theorem Chain.unlink {head : Option α} {p a : α} {front rest : List α} (h : Chain next head (front ++ p :: a :: rest))
    (hp : next' p = next a) (hsame : ∀ b ∈ front ++ rest, next' b = next b) : Chain next' head (front ++ p :: rest) := by
  induction front generalizing head with
  | nil =>
      obtain ⟨hhead, -, hrest⟩ := h
      refine ⟨hhead, ?_⟩
      rw [hp]
      exact hrest.congr hsame
  | cons b front ih =>
      obtain ⟨hhead, htail⟩ := h
      refine ⟨hhead, ?_⟩
      rw [hsame b List.mem_cons_self]
      exact ih htail (fun c hc => hsame c (List.mem_cons_of_mem b hc))

end Singly
