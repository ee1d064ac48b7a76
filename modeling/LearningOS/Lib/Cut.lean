import LearningOS.Lib.Exchange

/-!
# `Lib.Cut` — the blocks the end of a length cuts through

Keep the first `n` pages of a block: of the blocks inside it those stay whole whose pages are all kept or all given
up. `CutAt` are the others, the blocks the end of the kept pages lies in. There is at most one of each order, and
going down from the whole block they are exactly the ones the decomposition into `leftovers` has to split
(`cutAt_succ`).
-/

namespace Dyadic

/-- The block of order `j + 1` at `p`, inside the block of order `k` at `o`, of which the first `n` pages of the
    latter hold a part. -/
structure CutAt (o k n j p : Nat) : Prop where
  aligned : 2 ^ (j + 1) ∣ p
  inside : o ≤ p ∧ p + 2 ^ (j + 1) ≤ o + 2 ^ k
  cut : p < o + n ∧ o + n < p + 2 ^ (j + 1)

/-- An aligned block that starts before a multiple of its size ends there at the latest. -/
theorem add_two_pow_le_of_dvd {i p q : Nat} (hp : 2 ^ i ∣ p) (hq : 2 ^ i ∣ q) (h : p < q) : p + 2 ^ i ≤ q := by
  obtain ⟨a, rfl⟩ := hp
  obtain ⟨b, rfl⟩ := hq
  have hab : a + 1 ≤ b := Nat.lt_of_mul_lt_mul_left h
  calc 2 ^ i * a + 2 ^ i = 2 ^ i * (a + 1) := by ring
    _ ≤ 2 ^ i * b := Nat.mul_le_mul_left _ hab

section Cut

variable {o k n j p : Nat}

theorem CutAt.lt (h : CutAt o k n j p) : j < k := by
  have hle : 2 ^ (j + 1) ≤ 2 ^ k := by
    have := h.inside
    omega
  exact (Nat.pow_le_pow_iff_right (by decide)).mp hle

/-- Nothing is cut when the whole block is kept. -/
theorem not_cutAt_whole (h : CutAt o k (2 ^ k) j p) : False := by
  have h1 := h.inside
  have h2 := h.cut
  omega

/-- **One level down.** The block itself is cut, and in it the blocks of the half in which the end lies. -/
theorem cutAt_succ (hd : 2 ^ (k + 1) ∣ o) (h1 : 1 ≤ n) (hn : n < 2 ^ (k + 1)) :
    CutAt o (k + 1) n j p ↔
      j = k ∧ p = o ∨ (if 2 ^ k < n then CutAt (o + 2 ^ k) k (n - 2 ^ k) j p else CutAt o k n j p) := by
  have h2 := two_pow_succ' k
  have hdk : 2 ^ k ∣ o := (pow_dvd_pow 2 (Nat.le_succ k)).trans hd
  constructor
  · intro h
    have hin := h.inside
    have hcut := h.cut
    by_cases hj : j = k
    · subst hj
      exact .inl ⟨rfl, by omega⟩
    · have hjk : j + 1 ≤ k := by
        have := h.lt
        omega
      have hmid : 2 ^ (j + 1) ∣ o + 2 ^ k :=
        Nat.dvd_add ((pow_dvd_pow 2 hjk).trans hdk) (pow_dvd_pow 2 hjk)
      right
      by_cases hlt : 2 ^ k < n
      · rw [if_pos hlt]
        have hp : o + 2 ^ k ≤ p := by
          by_contra hp
          have := add_two_pow_le_of_dvd h.aligned hmid (by omega)
          omega
        exact ⟨h.aligned, by omega, by omega⟩
      · rw [if_neg hlt]
        have hp := add_two_pow_le_of_dvd h.aligned hmid (by omega)
        exact ⟨h.aligned, by omega, by omega⟩
  · rintro (⟨rfl, rfl⟩ | h)
    · exact ⟨hd, ⟨le_rfl, le_rfl⟩, by omega, by omega⟩
    · by_cases hlt : 2 ^ k < n
      · rw [if_pos hlt] at h
        have hin := h.inside
        have hcut := h.cut
        exact ⟨h.aligned, by omega, by omega⟩
      · rw [if_neg hlt] at h
        have hin := h.inside
        have hcut := h.cut
        exact ⟨h.aligned, by omega, by omega⟩

end Cut

/-! ## What is left over -/

/-- The leftovers have different orders, the largest first. -/
theorem leftovers_orders : ∀ {k o n : Nat}, 2 ^ k ∣ o →
    (leftovers k o n).Pairwise (fun a b => b.order < a.order)
  | 0, _, _, _ => .nil
  | k + 1, o, n, hd => by
      have hdk : 2 ^ k ∣ o := (pow_dvd_pow 2 (Nat.le_succ k)).trans hd
      unfold leftovers
      by_cases he : n = 2 ^ (k + 1)
      · rw [if_pos he]
        exact .nil
      · rw [if_neg he]
        by_cases hn : 2 ^ k < n
        · rw [if_pos hn]
          exact leftovers_orders (Nat.dvd_add hdk dvd_rfl)
        · rw [if_neg hn]
          exact .cons (fun b hb => (mem_leftovers hdk hb).1) (leftovers_orders hdk)

/-- **The leftovers cover what is not kept**, every page of it once. -/
theorem cover_leftovers {k o n : Nat} (h1 : 1 ≤ n) (h2 : n ≤ 2 ^ k) (p : Nat) :
    cover (leftovers k o n) p = if o + n ≤ p ∧ p < o + 2 ^ k then 1 else 0 := by
  have hsum := (hit_additive p).leftovers k o n h1 h2
  have hlt : n < 2 ^ (k + 1) := by
    have := two_pow_succ' k
    have := Nat.two_pow_pos k
    omega
  have hblock : hit p k o = if o ≤ p ∧ p < o + 2 ^ k then 1 else 0 := rfl
  rw [total_hit_pieces p hlt, hblock] at hsum
  rw [cover_eq_total]
  by_cases hin : o ≤ p ∧ p < o + 2 ^ k
  · rw [if_pos hin] at hsum
    by_cases hkept : o ≤ p ∧ p < o + n
    · rw [if_pos hkept] at hsum
      rw [if_neg (by omega)]
      omega
    · rw [if_neg hkept] at hsum
      rw [if_pos (by omega)]
      omega
  · rw [if_neg hin] at hsum
    rw [if_neg (by omega)]
    omega

/-- The right half of a block that is cut is left over if the end is not beyond its start. -/
theorem rightHalf_mem_leftovers {j p : Nat} : ∀ {k o n : Nat}, 2 ^ k ∣ o → 1 ≤ n → n ≤ 2 ^ k → CutAt o k n j p →
    o + n ≤ p + 2 ^ j → (⟨p + 2 ^ j, j⟩ : Block) ∈ leftovers k o n
  | 0, _, _, _, _, _, hc, _ => absurd hc.lt (Nat.not_lt_zero _)
  | k + 1, o, n, hd, h1, h2, hc, hle => by
      have hdk : 2 ^ k ∣ o := (pow_dvd_pow 2 (Nat.le_succ k)).trans hd
      have hp := two_pow_succ' k
      unfold leftovers
      by_cases he : n = 2 ^ (k + 1)
      · subst he
        exact absurd hc not_cutAt_whole
      · rw [if_neg he]
        rcases (cutAt_succ hd h1 (by omega)).mp hc with ⟨rfl, rfl⟩ | hc
        · rw [if_neg (by omega)]
          exact List.mem_cons_self
        · by_cases hn : 2 ^ k < n
          · rw [if_pos hn] at hc ⊢
            exact rightHalf_mem_leftovers (Nat.dvd_add hdk dvd_rfl) (by omega) (by omega) hc (by omega)
          · rw [if_neg hn] at hc ⊢
            exact List.mem_cons_of_mem _ (rightHalf_mem_leftovers hdk h1 (by omega) hc hle)

/-- **Of the halves of a block that is cut** the left one is never left over, the right one if the end is not
    beyond its start. -/
theorem halves_of_cutAt {k o n j p : Nat} (hd : 2 ^ k ∣ o) (h1 : 1 ≤ n) (h2 : n ≤ 2 ^ k) (hc : CutAt o k n j p) :
    (⟨p, j⟩ : Block) ∉ leftovers k o n ∧ ((⟨p + 2 ^ j, j⟩ : Block) ∈ leftovers k o n ↔ o + n ≤ p + 2 ^ j) := by
  have hfirst : ∀ x, (⟨x, j⟩ : Block) ∈ leftovers k o n → o + n ≤ x := by
    intro x hx
    have hpos : 0 < cover (leftovers k o n) x :=
      cover_pos_iff.mpr ⟨_, hx, Block.has_iff.mpr ⟨le_rfl, Nat.lt_add_of_pos_right (Nat.two_pow_pos j)⟩⟩
    rw [cover_leftovers h1 h2] at hpos
    by_contra hlt
    rw [if_neg (by omega)] at hpos
    omega
  refine ⟨fun hmem => ?_, hfirst _, rightHalf_mem_leftovers hd h1 h2 hc⟩
  have := hfirst p hmem
  have := hc.cut
  omega

end Dyadic
