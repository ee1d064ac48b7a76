import LearningOS.Mm.Buddy.Conservation

/-!
# `Mm.Buddy.Placement` — where the blocks of a reachable state lie

Conservation of pages places every block: a block in play lies in the prefix `buddy_init` took of its window.
Over separated regions that prefix is usable as a whole, so every block in play is usable, and the left
neighbour of a right half is too. Two blocks in play share no page, which is how a block that is live, or
half live, is known not to be on a list.
-/

namespace LearningOS

open Word Run Dyadic

variable {V : Type}

/-! ## Conserved states -/

/-- The pages in play are the pages of the initial blocks, each once. -/
def Conserved (s : Sys V) : Prop := ∀ p, cover s.blocks p = cover (initialBlocks s.machine) p

theorem Booted.conserved {m : Machine V} (h : Booted m) (hp : m.maxPageOffset ≤ 2 ^ 24) :
    Conserved (⟨m, []⟩ : Sys V) := by
  intro p
  unfold Sys.blocks
  rw [List.append_nil]
  exact h.cover_blocks hp p

theorem StepEffect.conserved {s s' : Sys V} {removed added : List Block}
    (h : StepEffect s s' removed added) (hc : Conserved s) : Conserved s' := by
  intro p
  rw [initialBlocks_congr h.effect.layout, ← hc p, cover_eq_total, cover_eq_total,
    h.total_blocks (hit_additive p)]

theorem Conserved.cover_le_one {s : Sys V} (h : Conserved s) (p : Nat) : cover s.blocks p ≤ 1 := by
  rw [h p]
  exact cover_initialBlocks_le_one s.machine p

theorem mem_blocks_of_listed {s : Sys V} {k o : Nat} (hk : k ≤ maxOrder) (ho : o ∈ s.machine.freelists k) :
    (⟨o, k⟩ : Block) ∈ s.blocks := List.mem_append_left _ (mem_blocksOf.mpr ⟨hk, ho⟩)

/-- Two different blocks in play share no page. -/
theorem Conserved.no_common_page {s : Sys V} (h : Conserved s) {b c : Block} {p : Nat} (hb : b ∈ s.blocks)
    (hc : c ∈ s.blocks) (hne : b ≠ c) (hbp : b.has p = true) (hcp : c.has p = true) : False := by
  have h1 := two_le_cover hb hc hne hbp hcp
  have h2 := h.cover_le_one p
  omega

/-- A block that shares a page with a live block is not on a list. -/
theorem Conserved.not_listed {s : Sys V} (h : Conserved s) {b : Block} {k o p : Nat} (hb : b ∈ s.live)
    (hk : k ≤ maxOrder) (hbp : b.has p = true) (hop : (⟨o, k⟩ : Block).has p = true) :
    o ∉ s.machine.freelists k := by
  intro ho
  have h1 : 0 < cover (blocksOf maxOrder s.machine.freelists) p :=
    cover_pos_iff.mpr ⟨⟨o, k⟩, mem_blocksOf.mpr ⟨hk, ho⟩, hop⟩
  have h2 : 0 < cover s.live p := cover_pos_iff.mpr ⟨b, hb, hbp⟩
  have h3 := h.cover_le_one p
  unfold Sys.blocks at h3
  rw [cover_append] at h3
  omega

/-- No block is listed twice. -/
theorem Conserved.count_le_one {s : Sys V} (h : Conserved s) {k o : Nat} (hk : k ≤ maxOrder) :
    (s.machine.freelists k).count o ≤ 1 := by
  have h1 : cover (blocksOf maxOrder s.machine.freelists) o ≤ 1 := by
    have := h.cover_le_one o
    unfold Sys.blocks at this
    rw [cover_append] at this
    omega
  have h2 := Dyadic.count_le_one (b := ⟨o, k⟩) h1
  rw [← total_tally, total_blocksOf, weigh_tally, if_pos hk] at h2
  exact h2

/-! ## Usable blocks -/

/-- The memory layouts the bitmap can keep up with: addresses that do not wrap, regions that do not touch,
    and at most as many pages as `page_offset` can number. -/
structure Orderly (m : Machine V) : Prop where
  noWrap : NoWrap m
  separated : Separated m.regions
  pages : m.maxPageOffset ≤ 2 ^ 24

theorem SameLayout.orderly {m m' : Machine V} (h : SameLayout m m') (ho : Orderly m) : Orderly m' := by
  obtain ⟨h1, h2, h3⟩ := ho
  refine ⟨?_, ?_, ?_⟩
  · unfold NoWrap at h1 ⊢
    rw [h.baseAddr]
    exact h1
  · rw [h.regions]
    exact h2
  · rw [h.maxPageOffset]
    exact h3

/-- A page in play lies in the prefix taken of its window. -/
theorem Conserved.window {s : Sys V} (h : Conserved s) {b : Block} {p : Nat} (hb : b ∈ s.blocks)
    (hp : b.has p = true) :
    p / 128 < numWindows s.machine ∧ p % 128 < windowOf s.machine (p / 128) := by
  have hpos : 0 < cover s.blocks p := cover_pos_iff.mpr ⟨b, hb, hp⟩
  rw [h p, initialBlocks, cover_windowsFrom (windowOf_le s.machine)] at hpos
  by_cases hc : 0 ≤ p / 128 ∧ p / 128 < 0 + numWindows s.machine ∧ p % 128 < windowOf s.machine (p / 128)
  · exact ⟨by omega, hc.2.2⟩
  · rw [if_neg hc] at hpos
    cases hpos

/-- **From the start of its window up to a block in play everything is usable.** -/
theorem Conserved.usable_up_to {s : Sys V} (h : Conserved s) (ho : Orderly s.machine) {b : Block}
    (hb : b ∈ s.blocks) {p x n : Nat} (hp : b.has p = true) (hx : p / 128 * 128 ≤ x)
    (hend : x + n ≤ p + 1) : usablePages s.machine x n = true := by
  have h128 : (2 : Nat) ^ maxOrder = 128 := by decide
  have hpages := ho.pages
  obtain ⟨hw, hlen⟩ := h.window hb hp
  have hle := windowOf_le s.machine (p / 128)
  have hcur : p / 128 * 2 ^ maxOrder + 2 ^ maxOrder ≤ 2 ^ 24 := by
    unfold numWindows at hw
    rw [h128]
    omega
  have hu := windowLen_usable ho.noWrap ho.separated hcur (maxOrder + 1) 0 le_rfl (dvd_zero _)
    (Nat.zero_le _) (lt_of_le_of_lt (Nat.zero_le _) hlen)
  rw [Nat.zero_add, ← windowOf] at hu
  rw [h128] at hu hcur
  exact usablePages_mono ho.noWrap (by omega) hu hx (by omega)

theorem Block.has_last (b : Block) : b.has (b.offset + 2 ^ b.order - 1) = true := by
  have := Nat.two_pow_pos b.order
  exact Block.has_iff.mpr ⟨by omega, by omega⟩

/-- The last page of a sound block lies in its first page's window. -/
theorem Sound.last_div {pages o k : Nat} (h : Sound pages o k) : (o + 2 ^ k - 1) / 128 = o / 128 := by
  have hpos := Nat.two_pow_pos k
  have hk : k ≤ 7 := h.order_le
  have hb := baseAt_of_inside h.aligned (x := o + 2 ^ k - 1) (by omega) (by omega)
  have hd := baseAt_div hk (o + 2 ^ k - 1)
  rw [hb] at hd
  exact hd.symm

/-- Every block in play is usable. -/
theorem Conserved.usable {s : Sys V} (h : Conserved s) (ho : Orderly s.machine) {b : Block}
    (hb : b ∈ s.blocks) (hs : Sound s.machine.maxPageOffset b.offset b.order) :
    usableAt s.machine b.order b.offset = true := by
  have hpos := Nat.two_pow_pos b.order
  have hlast := hs.last_div
  rw [usableAt_eq]
  exact h.usable_up_to ho hb (Block.has_last b) (by omega) (by omega)

/-- The parent of a right half in play is usable. -/
theorem Conserved.usable_parent_of_right {s : Sys V} (h : Conserved s) (ho : Orderly s.machine) {b : Block}
    (hb : b ∈ s.blocks) (hs : Sound s.machine.maxPageOffset b.offset b.order) (hk : b.order < maxOrder)
    (hr : b.offset = parent b.order b.offset + 2 ^ b.order) :
    usableAt s.machine (b.order + 1) (parent b.order b.offset) = true := by
  have hpos := Nat.two_pow_pos b.order
  have hlast := hs.last_div
  have hk' : b.order + 1 ≤ 7 := hk
  have hdiv : parent b.order b.offset / 128 = b.offset / 128 := parent_div (n := 7) hk' b.offset
  have h2 := two_pow_succ' b.order
  rw [usableAt_eq]
  exact h.usable_up_to ho hb (Block.has_last b) (by omega) (by omega)

/-- Two usable halves make a usable parent. -/
theorem usableAt_parent {m : Machine V} (ho : Orderly m) {k o : Nat} (hs : Sound m.maxPageOffset o k)
    (h1 : usableAt m k o = true) (h2 : usableAt m k (buddy k o) = true) :
    usableAt m (k + 1) (parent k o) = true := by
  have hd := parent_dvd k o
  have hp := two_pow_succ' k
  have hk : k + 1 ≤ 24 := Nat.succ_le_succ (hs.order_le.trans (by decide))
  have hend := add_two_pow_le hk hd (lt_of_le_of_lt (parent_le k o) hs.lt)
  rw [usableAt_eq] at h1 h2 ⊢
  have hjoin : usablePages m (parent k o) (2 ^ k) = true → usablePages m (parent k o + 2 ^ k) (2 ^ k) = true →
      usablePages m (parent k o) (2 ^ (k + 1)) = true := by
    intro hl hr
    have := usablePages_join ho.noWrap ho.separated (by omega) (by omega) (by omega) hl hr
    rw [(by omega : parent k o + 2 ^ k + 2 ^ k - parent k o = 2 ^ (k + 1))] at this
    exact this
  rcases left_or_right hs.aligned with he | he
  · rw [he, buddy_of_left hd] at h2
    rw [he] at h1
    exact hjoin h1 h2
  · rw [he, buddy_of_right hd] at h2
    rw [he] at h1
    exact hjoin h2 h1

/-- The halves of a usable parent are usable. -/
theorem usableAt_of_parent {m : Machine V} (ho : Orderly m) {k o : Nat} (hs : Sound m.maxPageOffset o k)
    (h : usableAt m (k + 1) (parent k o) = true) : usableAt m k o = true := by
  have hd := parent_dvd k o
  have hp := two_pow_succ' k
  have hk : k + 1 ≤ 24 := Nat.succ_le_succ (hs.order_le.trans (by decide))
  have hend := add_two_pow_le hk hd (lt_of_le_of_lt (parent_le k o) hs.lt)
  rw [usableAt_eq] at h ⊢
  rcases left_or_right hs.aligned with he | he
  · exact usablePages_mono ho.noWrap hend h (by omega) (by omega)
  · exact usablePages_mono ho.noWrap hend h (by omega) (by omega)

/-! ## Counting the halves of a pair -/

/-- The entries of a pair are its two halves. -/
theorem pairCount_eq {m : Machine V} (hl : SoundLists m) {k q : Nat} (hk : k ≤ maxOrder)
    (hq : 2 ^ (k + 1) ∣ q) :
    pairCount m k q = (m.freelists k).count q + (m.freelists k).count (q + 2 ^ k) := by
  have hsum : pairCount m k q
      = weigh maxOrder (fun k' o' => tally ⟨q, k⟩ k' o' + tally ⟨q + 2 ^ k, k⟩ k' o') m.freelists := by
    refine weigh_congr (fun k' hk' o' ho' => ?_)
    have hs := hl k' hk' o' ho'
    have hpq : parent k q = q := parent_of_left hq
    have hpos := Nat.two_pow_pos k
    unfold pairHit tally
    by_cases hkk : k' = k
    · subst hkk
      rw [hpq]
      by_cases hp : parent k' o' = q
      · rcases left_or_right hs.aligned with he | he
        · rw [if_pos ⟨rfl, hp⟩, if_pos ⟨rfl, he.trans hp⟩, if_neg (by dsimp only; omega)]
        · rw [if_pos ⟨rfl, hp⟩, if_neg (by dsimp only; omega), if_pos ⟨rfl, by rw [← hp]; exact he⟩]
      · have h1 : ¬ o' = q := fun h => hp (by rw [h, hpq])
        have h2 : ¬ o' = q + 2 ^ k' := fun h => hp (by rw [h, parent_of_right hq])
        rw [if_neg (fun h => hp h.2), if_neg (fun h => h1 h.2), if_neg (fun h => h2 h.2)]
    · rw [if_neg (fun h => hkk h.1), if_neg (fun h => hkk h.1), if_neg (fun h => hkk h.1)]
  rw [hsum, weigh_add, weigh_tally, weigh_tally, if_pos hk, if_pos hk]

end LearningOS
