import LearningOS.Lib.Dyadic
import Mathlib.Algebra.BigOperators.Group.Finset.Piecewise

/-!
# `Lib.Exchange` — which blocks an operation gives and takes

The lists of a buddy system change by whole blocks: some leave, some are put back. `Exchange fl removed added
fl'` states that as one equation per weight, `weigh f fl' + total f removed = weigh f fl + total f added`,
which is equality of multisets of blocks without naming them. Exchanges compose (`Exchange.trans`), single
pushes and pops are exchanges, and every fact a client wants is the equation at one weight: at `tally b` the
number of times a block is listed, at the constant `1` the number of entries, at an additive weight the pages.

The second half is about the three ways a block falls apart: into the right halves a split leaves behind
(`rightHalves`), into the pieces of a length (`Dyadic.pieces`), and into what those leave over (`leftovers`).
-/

namespace Dyadic

/-- `fl'` lists the blocks of `fl` without `removed` and with `added`. -/
def Exchange (K : Nat) (fl : Nat → List Nat) (removed added : List Block) (fl' : Nat → List Nat) : Prop :=
  ∀ f : Nat → Nat → Nat, weigh K f fl' + total f removed = weigh K f fl + total f added

section Exchange

variable {K : Nat} {fl fl' fl'' : Nat → List Nat}

theorem Exchange.refl (fl : Nat → List Nat) : Exchange K fl [] [] fl := fun _ => rfl

/-- One exchange after another. -/
theorem Exchange.trans {r a r' a' : List Block} (h : Exchange K fl r a fl')
    (h' : Exchange K fl' r' a' fl'') : Exchange K fl (r ++ r') (a ++ a') fl'' := by
  intro f
  have h1 := h f
  have h2 := h' f
  rw [total_append, total_append]
  omega

theorem Exchange.push {k : Nat} (hk : k ≤ K) (o : Nat) :
    Exchange K fl [] [⟨o, k⟩] (Function.update fl k (o :: fl k)) := by
  intro f
  rw [weigh_push hk]
  rfl

theorem Exchange.tail {k o : Nat} {rest : List Nat} (hk : k ≤ K) (hl : fl k = o :: rest) :
    Exchange K fl [⟨o, k⟩] [] (Function.update fl k rest) := fun _ => weigh_tail hk hl

theorem Exchange.erase {k o : Nat} (hk : k ≤ K) (ho : o ∈ fl k) :
    Exchange K fl [⟨o, k⟩] [] (Function.update fl k ((fl k).erase o)) := fun _ => weigh_erase hk ho

/-! ### Reading an exchange -/

/-- `1` for the block `b` and `0` for every other. -/
def tally (b : Block) (k o : Nat) : Nat := if k = b.order ∧ o = b.offset then 1 else 0

theorem total_tally (b : Block) (bs : List Block) : total (tally b) bs = bs.count b := by
  induction bs with
  | nil => rfl
  | cons c cs ih =>
      rw [total_cons, ih, List.count_cons, Nat.add_comm]
      by_cases h : c = b
      · subst h
        simp [tally]
      · have hne : ¬ (c.order = b.order ∧ c.offset = b.offset) :=
          fun hc => h (by cases b; cases c; simp_all)
        simp [tally, h, hne]

theorem weigh_tally (b : Block) (fl : Nat → List Nat) :
    weigh K (tally b) fl = if b.order ≤ K then (fl b.order).count b.offset else 0 := by
  have hlist : ∀ k, ((fl k).map (tally b k)).sum
      = if k = b.order then (fl k).count b.offset else 0 := by
    intro k
    induction fl k with
    | nil => simp
    | cons o l ih =>
        rw [List.map_cons, List.sum_cons, ih, List.count_cons]
        by_cases hk : k = b.order
        · by_cases ho : o = b.offset
          · simp [tally, hk, ho, Nat.add_comm]
          · simp [tally, hk, ho]
        · simp [tally, hk]
  unfold weigh
  rw [Finset.sum_congr rfl (fun k _ => hlist k), Finset.sum_ite_eq']
  simp only [Finset.mem_range, Nat.lt_succ_iff]

/-- How often a block is listed, before and after. -/
theorem Exchange.count {r a : List Block} (h : Exchange K fl r a fl') {b : Block} (hb : b.order ≤ K) :
    (fl' b.order).count b.offset + r.count b = (fl b.order).count b.offset + a.count b := by
  have := h (tally b)
  rw [weigh_tally, weigh_tally, total_tally, total_tally, if_pos hb, if_pos hb] at this
  exact this

/-- A block listed afterwards was listed before or is new. -/
theorem Exchange.mem {r a : List Block} (h : Exchange K fl r a fl') {b : Block} (hb : b.order ≤ K)
    (hm : b.offset ∈ fl' b.order) : b.offset ∈ fl b.order ∨ b ∈ a := by
  have hc := h.count hb
  have hpos : 0 < (fl' b.order).count b.offset := List.count_pos_iff.mpr hm
  by_cases ha : b ∈ a
  · exact .inr ha
  · refine .inl (List.count_pos_iff.mp ?_)
    have : a.count b = 0 := List.count_eq_zero.mpr ha
    omega

end Exchange

/-! ## How blocks fall apart -/

/-- The right halves of orders `t + 1 … j` that remain when a block of order `j + 1` at `o` is split down to
    order `t + 1`, the largest first. -/
def rightHalves (o t : Nat) : Nat → List Block
  | 0 => []
  | j + 1 => if j + 1 > t then ⟨o + 2 ^ (j + 1), j + 1⟩ :: rightHalves o t j else []

theorem rightHalves_of_le {o t : Nat} : ∀ {j : Nat}, j ≤ t → rightHalves o t j = []
  | 0, _ => rfl
  | j + 1, h => by
      unfold rightHalves
      rw [if_neg (by omega)]

theorem mem_rightHalves {o t : Nat} {b : Block} :
    ∀ {j : Nat}, b ∈ rightHalves o t j ↔ t < b.order ∧ b.order ≤ j ∧ b.offset = o + 2 ^ b.order
  | 0 => by
      simp only [rightHalves, List.not_mem_nil, false_iff]
      omega
  | j + 1 => by
      unfold rightHalves
      by_cases hj : j + 1 > t
      · rw [if_pos hj, List.mem_cons, mem_rightHalves]
        constructor
        · rintro (rfl | ⟨h1, h2, h3⟩)
          · exact ⟨hj, le_rfl, rfl⟩
          · exact ⟨h1, by omega, h3⟩
        · rintro ⟨h1, h2, h3⟩
          by_cases he : b.order = j + 1
          · left
            cases b
            simp_all
          · exact .inr ⟨h1, by omega, h3⟩
      · rw [if_neg hj]
        simp only [List.not_mem_nil, false_iff]
        omega

/-- The right halves and the block left over at order `t + 1` weigh as much as the block split. -/
theorem SplitAdditive.rightHalves {f : Nat → Nat → Nat} (hf : SplitAdditive f) (o t : Nat) :
    ∀ j, t ≤ j → total f (rightHalves o t j) + f (t + 1) o = f (j + 1) o
  | 0, h => by
      obtain rfl : t = 0 := by omega
      simp [Dyadic.rightHalves]
  | j + 1, h => by
      by_cases hj : j + 1 > t
      · have ih := hf.rightHalves o t j (by omega)
        have hs := hf (j + 1) o
        unfold Dyadic.rightHalves
        rw [if_pos hj, total_cons]
        dsimp only
        omega
      · obtain rfl : t = j + 1 := by omega
        rw [rightHalves_of_le le_rfl, total_nil, Nat.zero_add]

/-- The `n` buddies a block of order `s` at `o` merges with on its way up to order `s + n`. -/
def buddiesUp (o s n : Nat) : List Block := (List.range' s n).map fun j => ⟨buddy j (baseAt j o), j⟩

theorem buddiesUp_succ {o s : Nat} (h : 2 ^ s ∣ o) (n : Nat) :
    buddiesUp o s (n + 1) = ⟨buddy s o, s⟩ :: buddiesUp (parent s o) (s + 1) n := by
  unfold buddiesUp
  rw [List.range'_succ, List.map_cons, baseAt_of_dvd h]
  congr 1
  refine List.map_congr_left (fun j hj => ?_)
  have hj' : s < j := by
    obtain ⟨i, _, rfl⟩ := List.mem_range'.mp hj
    omega
  rw [baseAt_parent hj']

/-- The merged block weighs as much as the block and the buddies. -/
theorem SplitAdditive.buddiesUp {f : Nat → Nat → Nat} (hf : SplitAdditive f) :
    ∀ (n s o : Nat), 2 ^ s ∣ o → f (s + n) (baseAt (s + n) o) = f s o + total f (buddiesUp o s n)
  | 0, s, o, h => by
      rw [Nat.add_zero, baseAt_of_dvd h]
      rfl
  | n + 1, s, o, h => by
      have ih := hf.buddiesUp n (s + 1) (parent s o) (parent_dvd s o)
      have hm := hf.merge h
      have he : s + (n + 1) = s + 1 + n := by omega
      rw [he, ← baseAt_parent (by omega : s < s + 1 + n), ih, buddiesUp_succ h, total_cons]
      dsimp only
      omega

/-- Merging back what a split left behind: the buddies of the right half handed out are the left half of
    its own order and the right halves above. -/
theorem total_buddiesUp_right (f : Nat → Nat → Nat) {o k : Nat} :
    ∀ n, 2 ^ (k + n + 1) ∣ o →
      total f (buddiesUp (o + 2 ^ k) k (n + 1)) = f k o + total f (rightHalves o k (k + n))
  | 0, hd => by
      have hdk : 2 ^ k ∣ o + 2 ^ k := Nat.dvd_add ((pow_dvd_pow 2 (Nat.le_succ k)).trans hd) dvd_rfl
      rw [Nat.add_zero] at hd
      rw [buddiesUp_succ hdk, buddy_of_right hd, rightHalves_of_le (Nat.le_of_eq (Nat.add_zero k))]
      rfl
  | n + 1, hd => by
      rw [← Nat.add_assoc] at hd
      have hd' : 2 ^ (k + n + 1) ∣ o := (pow_dvd_pow 2 (Nat.le_succ _)).trans hd
      have ih := total_buddiesUp_right f n hd'
      have hpos := Nat.two_pow_pos k
      have hlt : 2 ^ k < 2 ^ (k + n + 1) := Nat.pow_lt_pow_right (by decide) (by omega)
      have hbase : baseAt (k + n + 1) (o + 2 ^ k) = o := baseAt_of_inside hd' (by omega) (by omega)
      have hlast : buddiesUp (o + 2 ^ k) k (n + 1 + 1)
          = buddiesUp (o + 2 ^ k) k (n + 1) ++ [⟨o + 2 ^ (k + n + 1), k + n + 1⟩] := by
        unfold buddiesUp
        rw [List.range'_1_concat, List.map_append, List.map_singleton, ← Nat.add_assoc, hbase,
          buddy_of_left hd]
      rw [hlast, total_append, ih, ← Nat.add_assoc k n 1, rightHalves, if_pos (by omega), total_cons]
      simp only [total_cons, total_nil]
      omega

/-- What remains of the block of order `k` at `o` when its first `n` pages are kept. -/
def leftovers : Nat → Nat → Nat → List Block
  | 0, _, _ => []
  | k + 1, o, n =>
    if n = 2 ^ (k + 1) then []
    else if 2 ^ k < n then leftovers k (o + 2 ^ k) (n - 2 ^ k)
    else ⟨o + 2 ^ k, k⟩ :: leftovers k o n

theorem pieces_zero : ∀ (k o : Nat), pieces o 0 k = []
  | 0, _ => rfl
  | k + 1, o => by
      unfold pieces
      rw [Nat.zero_testBit, if_neg Bool.false_ne_true]
      exact pieces_zero k o

/-- A power of two is one piece. -/
theorem pieces_two_pow (k o : Nat) : pieces o (2 ^ k) (k + 1) = [⟨o, k⟩] := by
  unfold pieces
  rw [Nat.testBit_two_pow_self, if_pos rfl]
  have hz : pieces (o + 2 ^ k) (2 ^ k) k = pieces (o + 2 ^ k) 0 k := by
    refine pieces_congr k _ (fun i hi => ?_)
    rw [Nat.zero_testBit]
    exact Nat.testBit_two_pow_of_ne (by omega)
  rw [hz, pieces_zero]

/-- The first piece of a length between `2 ^ k` and `2 ^ (k + 1)` is the left half. -/
theorem pieces_left {k o n : Nat} (h1 : 2 ^ k ≤ n) (h2 : n < 2 ^ (k + 1)) :
    pieces o n (k + 1) = ⟨o, k⟩ :: pieces (o + 2 ^ k) (n - 2 ^ k) k := by
  obtain ⟨r, rfl⟩ := Nat.exists_eq_add_of_le h1
  have hr : r < 2 ^ k := by rw [pow_succ] at h2; omega
  have htop : (2 ^ k + r).testBit k = true := by
    rw [Nat.testBit_two_pow_add_eq, Nat.testBit_lt_two_pow hr]
    rfl
  conv_lhs => unfold pieces
  rw [if_pos htop, Nat.add_sub_cancel_left]
  congr 1
  refine pieces_congr k _ (fun i hi => ?_)
  exact Nat.testBit_two_pow_add_gt hi r

/-- Digits above the length add no piece. -/
theorem pieces_of_lt {k o n : Nat} (h : n < 2 ^ k) : pieces o n (k + 1) = pieces o n k := by
  conv_lhs => unfold pieces
  rw [Nat.testBit_lt_two_pow h, if_neg Bool.false_ne_true]

/-- A piece is aligned and lies inside the length. -/
theorem mem_pieces {b : Block} :
    ∀ {k o n : Nat}, n < 2 ^ k → 2 ^ k ∣ o → b ∈ pieces o n k →
      b.order < k ∧ 2 ^ b.order ∣ b.offset ∧ o ≤ b.offset ∧ b.offset + 2 ^ b.order ≤ o + n
  | 0, _, _, _, _, hb => by cases hb
  | k + 1, o, n, hn, hd, hb => by
      have hdk : 2 ^ k ∣ o := (pow_dvd_pow 2 (Nat.le_succ k)).trans hd
      by_cases hlt : n < 2 ^ k
      · rw [pieces_of_lt hlt] at hb
        obtain ⟨h1, h2⟩ := mem_pieces hlt hdk hb
        exact ⟨by omega, h2⟩
      · rw [pieces_left (Nat.le_of_not_lt hlt) hn] at hb
        rcases List.mem_cons.mp hb with rfl | hb
        · exact ⟨Nat.lt_succ_self k, hdk, le_rfl, by dsimp only; omega⟩
        · rw [two_pow_succ'] at hn
          obtain ⟨h1, h2, h3, h4⟩ := mem_pieces (by omega) (Nat.dvd_add hdk dvd_rfl) hb
          exact ⟨by omega, h2, by omega, by omega⟩

/-- A piece is the left half of its pair. -/
theorem dvd_of_mem_pieces {b : Block} :
    ∀ {k o n : Nat}, n < 2 ^ k → 2 ^ k ∣ o → b ∈ pieces o n k → 2 ^ (b.order + 1) ∣ b.offset
  | 0, _, _, _, _, hb => by cases hb
  | k + 1, o, n, hn, hd, hb => by
      have hdk : 2 ^ k ∣ o := (pow_dvd_pow 2 (Nat.le_succ k)).trans hd
      by_cases hlt : n < 2 ^ k
      · rw [pieces_of_lt hlt] at hb
        exact dvd_of_mem_pieces hlt hdk hb
      · rw [pieces_left (Nat.le_of_not_lt hlt) hn] at hb
        rcases List.mem_cons.mp hb with rfl | hb
        · exact hd
        · rw [two_pow_succ'] at hn
          exact dvd_of_mem_pieces (by omega) (Nat.dvd_add hdk dvd_rfl) hb

/-- The pieces cover each page of the length once. -/
theorem total_hit_pieces (p : Nat) :
    ∀ {k o n : Nat}, n < 2 ^ k → total (hit p) (pieces o n k) = if o ≤ p ∧ p < o + n then 1 else 0
  | 0, o, n, hn => by
      rw [pow_zero] at hn
      rw [if_neg (by omega)]
      rfl
  | k + 1, o, n, hn => by
      by_cases hlt : n < 2 ^ k
      · rw [pieces_of_lt hlt, total_hit_pieces p hlt]
      · have h2 := two_pow_succ' k
        rw [pieces_left (Nat.le_of_not_lt hlt) hn, total_cons, total_hit_pieces p (by omega)]
        dsimp only [hit]
        by_cases h1 : o ≤ p ∧ p < o + 2 ^ k
        · rw [if_pos h1, if_neg (by omega), if_pos (by omega)]
        · rw [if_neg h1, Nat.zero_add]
          refine if_congr (by omega) rfl rfl

/-- The pieces have the length's size. -/
theorem total_size_pieces (c : Nat) :
    ∀ {k o n : Nat}, n < 2 ^ k → total (fun j _ => c * 2 ^ j) (pieces o n k) = c * n
  | 0, _, n, hn => by
      obtain rfl : n = 0 := by rw [pow_zero] at hn; omega
      rfl
  | k + 1, o, n, hn => by
      by_cases hlt : n < 2 ^ k
      · rw [pieces_of_lt hlt, total_size_pieces c hlt]
      · have h2 := two_pow_succ' k
        rw [pieces_left (Nat.le_of_not_lt hlt) hn, total_cons, total_size_pieces c (by omega), ← Nat.mul_add]
        congr 1
        dsimp only
        omega

/-- **The pieces kept and the leftovers make up the block.** -/
theorem SplitAdditive.leftovers {f : Nat → Nat → Nat} (hf : SplitAdditive f) :
    ∀ (k o n : Nat), 1 ≤ n → n ≤ 2 ^ k → total f (leftovers k o n) + total f (pieces o n (k + 1)) = f k o
  | 0, o, n, h1, h2 => by
      obtain rfl : n = 2 ^ 0 := by rw [pow_zero] at h2 ⊢; omega
      rw [pieces_two_pow]
      simp [Dyadic.leftovers]
  | k + 1, o, n, h1, h2 => by
      unfold Dyadic.leftovers
      by_cases he : n = 2 ^ (k + 1)
      · subst he
        rw [if_pos rfl, pieces_two_pow]
        simp
      · have hlt : n < 2 ^ (k + 1) := by omega
        rw [if_neg he, pieces_of_lt hlt, hf k o]
        by_cases hn : 2 ^ k < n
        · have hle : n - 2 ^ k ≤ 2 ^ k := by rw [pow_succ] at h2; omega
          have hlt' : n - 2 ^ k < 2 ^ k := by rw [pow_succ] at hlt; omega
          have ih := hf.leftovers k (o + 2 ^ k) (n - 2 ^ k) (by omega) hle
          rw [pieces_of_lt hlt'] at ih
          rw [if_pos hn, pieces_left hn.le hlt, total_cons]
          dsimp only
          omega
        · have ih := hf.leftovers k o n h1 (by omega)
          rw [if_neg hn, total_cons]
          dsimp only
          omega

/-- A leftover is aligned and lies inside the block. -/
theorem mem_leftovers {b : Block} :
    ∀ {k o n : Nat}, 2 ^ k ∣ o → b ∈ leftovers k o n →
      b.order < k ∧ 2 ^ b.order ∣ b.offset ∧ o ≤ b.offset ∧ b.offset + 2 ^ b.order ≤ o + 2 ^ k
  | 0, _, _, _, hb => by cases hb
  | k + 1, o, n, hd, hb => by
      have hdk : 2 ^ k ∣ o := (pow_dvd_pow 2 (Nat.le_succ k)).trans hd
      have h2 := two_pow_succ' k
      unfold leftovers at hb
      by_cases he : n = 2 ^ (k + 1)
      · rw [if_pos he] at hb
        cases hb
      · rw [if_neg he] at hb
        by_cases hn : 2 ^ k < n
        · rw [if_pos hn] at hb
          obtain ⟨h3, h4, h5, h6⟩ := mem_leftovers (Nat.dvd_add hdk dvd_rfl) hb
          exact ⟨by omega, h4, by omega, by omega⟩
        · rw [if_neg hn] at hb
          rcases List.mem_cons.mp hb with rfl | hb
          · exact ⟨Nat.lt_succ_self k, Nat.dvd_add hdk dvd_rfl, Nat.le_add_right _ _, by dsimp only; omega⟩
          · obtain ⟨h3, h4, h5, h6⟩ := mem_leftovers hdk hb
            exact ⟨by omega, h4, by omega, by omega⟩

/-- A leftover is the right half of a pair whose left half starts with a kept page. -/
theorem left_of_mem_leftovers {b : Block} :
    ∀ {k o n : Nat}, 2 ^ k ∣ o → 1 ≤ n → n ≤ 2 ^ k → b ∈ leftovers k o n →
      ∃ y, b.offset = y + 2 ^ b.order ∧ 2 ^ (b.order + 1) ∣ y ∧ o ≤ y ∧ y < o + n
  | 0, _, _, _, _, _, hb => by cases hb
  | k + 1, o, n, hd, h1, h2, hb => by
      have hdk : 2 ^ k ∣ o := (pow_dvd_pow 2 (Nat.le_succ k)).trans hd
      have hp := two_pow_succ' k
      unfold leftovers at hb
      by_cases he : n = 2 ^ (k + 1)
      · rw [if_pos he] at hb
        cases hb
      · rw [if_neg he] at hb
        by_cases hn : 2 ^ k < n
        · rw [if_pos hn] at hb
          obtain ⟨y, h3, h4, h5, h6⟩ :=
            left_of_mem_leftovers (Nat.dvd_add hdk dvd_rfl) (by omega) (by omega) hb
          exact ⟨y, h3, h4, by omega, by omega⟩
        · rw [if_neg hn] at hb
          rcases List.mem_cons.mp hb with rfl | hb
          · exact ⟨o, rfl, hd, le_rfl, by omega⟩
          · obtain ⟨y, h3, h4, h5, h6⟩ := left_of_mem_leftovers hdk h1 (by omega) hb
            exact ⟨y, h3, h4, h5, h6⟩

/-- The size of the last piece of a length `1 ≤ n ≤ 2 ^ k`. -/
def lastPiece : Nat → Nat → Nat
  | 0, n => n
  | k + 1, n =>
    if n = 2 ^ (k + 1) then n else if 2 ^ k < n then lastPiece k (n - 2 ^ k) else lastPiece k n

theorem lastPiece_le : ∀ k n, lastPiece k n ≤ n
  | 0, n => le_rfl
  | k + 1, n => by
      unfold lastPiece
      split
      · exact le_rfl
      · split
        · exact (lastPiece_le k _).trans (Nat.sub_le _ _)
        · exact lastPiece_le k n

theorem lastPiece_pos : ∀ {k n : Nat}, 1 ≤ n → 1 ≤ lastPiece k n
  | 0, _, h => h
  | k + 1, n, h => by
      unfold lastPiece
      split
      · exact h
      · split
        · exact lastPiece_pos (by omega)
        · exact lastPiece_pos h

/-- Only a power of two is its own last piece. -/
theorem lastPiece_eq_iff : ∀ {k n : Nat}, 1 ≤ n → n ≤ 2 ^ k → (lastPiece k n = n ↔ ∃ j, n = 2 ^ j)
  | 0, n, h1, h2 => by
      have hn : n = 2 ^ 0 := by rw [pow_zero] at h2 ⊢; omega
      exact ⟨fun _ => ⟨0, hn⟩, fun _ => rfl⟩
  | k + 1, n, h1, h2 => by
      unfold lastPiece
      by_cases he : n = 2 ^ (k + 1)
      · rw [if_pos he]
        exact ⟨fun _ => ⟨k + 1, he⟩, fun _ => rfl⟩
      · rw [if_neg he]
        by_cases hn : 2 ^ k < n
        · rw [if_pos hn]
          have hle := lastPiece_le k (n - 2 ^ k)
          have hpos := Nat.two_pow_pos k
          refine ⟨fun h => by omega, ?_⟩
          rintro ⟨j, rfl⟩
          have hkj : k < j := (Nat.pow_lt_pow_iff_right (by decide)).mp hn
          have hjk : j ≤ k + 1 := (Nat.pow_le_pow_iff_right (by decide)).mp h2
          exact absurd (by rw [(by omega : j = k + 1)]) he
        · rw [if_neg hn]
          exact lastPiece_eq_iff h1 (by omega)

end Dyadic
