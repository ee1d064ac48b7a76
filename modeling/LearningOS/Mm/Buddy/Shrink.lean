import LearningOS.Mm.Buddy.Free

/-!
# `Mm.Buddy.Shrink` — what `buddy_shrink_block` does

The loop halves the block and goes on in the half that holds the end of the kept pages; the right halves it
leaves behind are the `leftovers` of the length, and its page counter ends at the last piece. `shrinkLoop_succ`
is one round without the `u8_t` and `int` conversions, which change nothing for the sizes in play.
-/

namespace LearningOS

open Word Run Dyadic

variable {V : Type}

/-! ## One round -/

/-- `split_order` of a block of order `k`. -/
def splitOrderOf (k : Nat) : Nat := (k + 255) % 256

theorem splitOrderOf_succ {k : Nat} (hk : k < 256) : splitOrderOf (k + 1) = k := by
  unfold splitOrderOf
  omega

theorem sll1_splitOrderOf {k : Nat} (hk : k < 31) : sll1 (splitOrderOf k + 1) = ((2 ^ k : Nat) : Int) := by
  cases k with
  | zero => decide
  | succ k => rw [splitOrderOf_succ (by omega), sll1_of_lt hk]

theorem addInt_two_pow {o k : Nat} (h : o + 2 ^ k < 2 ^ 64) : addInt o ((2 ^ k : Nat) : Int) = o + 2 ^ k := by
  unfold addInt
  have he : (o : Int) + ((2 ^ k : Nat) : Int) = ((o + 2 ^ k : Nat) : Int) := (Nat.cast_add o (2 ^ k)).symm
  rw [he, Int.emod_eq_of_lt (Int.natCast_nonneg _) (by exact_mod_cast h), Int.toNat_natCast]

theorem subInt8_two_pow {n k : Nat} (h1 : 2 ^ k ≤ n) (h2 : n < 256) :
    subInt8 n ((2 ^ k : Nat) : Int) = n - 2 ^ k := by
  unfold subInt8
  have hlt : n - 2 ^ k < 2 ^ 8 := lt_of_le_of_lt (Nat.sub_le _ _) h2
  rw [← Nat.cast_sub h1, Int.emod_eq_of_lt (Int.natCast_nonneg _) (by exact_mod_cast hlt),
    Int.toNat_natCast]

theorem two_pow_le_128 {k : Nat} (hk : k ≤ maxOrder) : 2 ^ k ≤ 128 :=
  Nat.pow_le_pow_right (by decide) hk

/-- The loop ends at once when the whole block is kept. -/
theorem shrinkLoop_whole (create : Callback V) (fuel : Nat) (m : Machine V) (o : Nat) {k : Nat}
    (hk : k ≤ maxOrder) : shrinkLoop create (fuel + 1) m o (splitOrderOf k) (2 ^ k) = .ok (m, 2 ^ k) := by
  have hk' : k ≤ 7 := hk
  simp only [shrinkLoop, sll1_splitOrderOf (by omega : k < 31)]
  simp

/-- A round that splits the block of order `k + 1` at `o`. -/
theorem shrinkLoop_succ (create : Callback V) (fuel : Nat) (m : Machine V) {o n k : Nat}
    (hk : k + 1 ≤ maxOrder) (hn : n < 2 ^ (k + 1)) (ho : o + 2 ^ k < 2 ^ 64) :
    shrinkLoop create (fuel + 1) m o (splitOrderOf (k + 1)) n =
      if 2 ^ k < n then
        shrinkLoop create fuel (m.setBit (buddyBmpIndexOf o k) 0) (o + 2 ^ k) (splitOrderOf k) (n - 2 ^ k)
      else
        allocateFreelistEntry create m (o + 2 ^ k) k >>= fun m' =>
          shrinkLoop create fuel (m'.setBit (buddyBmpIndexOf o k) 1) o (splitOrderOf k) n := by
  have hk' : k + 1 ≤ 7 := hk
  have h128 := two_pow_le_128 hk
  have hsplit : sll1 (splitOrderOf (k + 1) + 1) = ((2 ^ (k + 1) : Nat) : Int) :=
    sll1_splitOrderOf (by omega)
  have hso : splitOrderOf (k + 1) = k := splitOrderOf_succ (by omega)
  have hs : sll1 k = ((2 ^ k : Nat) : Int) := sll1_of_lt (by omega)
  have hne : ((n : Nat) : Int) ≠ ((2 ^ (k + 1) : Nat) : Int) := by exact_mod_cast hn.ne
  rw [hso] at hsplit ⊢
  simp only [shrinkLoop, hsplit, if_pos hne, hs, addInt_two_pow ho]
  by_cases hlt : 2 ^ k < n
  · have hgt : ((n : Nat) : Int) > ((2 ^ k : Nat) : Int) := by exact_mod_cast hlt
    rw [if_pos hgt, if_pos hlt, subInt8_two_pow hlt.le (by omega)]
    rfl
  · have hgt : ¬ ((n : Nat) : Int) > ((2 ^ k : Nat) : Int) := by exact_mod_cast hlt
    rw [if_neg hgt, if_neg hlt]
    rfl

/-! ## The loop -/

/-- **The loop frees the leftovers and ends at the last piece.** -/
theorem shrinkLoop_effect :
    ∀ (k fuel : Nat) {m m' : Machine V} {o n n' : Nat},
      shrinkLoop noSlab fuel m o (splitOrderOf k) n = .ok (m', n') → k < fuel → 1 ≤ n → n ≤ 2 ^ k →
      Sound m.maxPageOffset o k → Effect m [] (leftovers k o n) m' ∧ n' = lastPiece k n
  | k, 0, _, _, _, _, _, _, hf, _, _, _ => by omega
  | 0, fuel + 1, m, m', o, n, n', h, hf, h1, h2, ho => by
      obtain rfl : n = 2 ^ 0 := by rw [pow_zero] at h2 ⊢; omega
      rw [shrinkLoop_whole noSlab fuel m o ho.order_le] at h
      cases h
      exact ⟨.refl m, rfl⟩
  | k + 1, fuel + 1, m, m', o, n, n', h, hf, h1, h2, ho => by
      unfold leftovers lastPiece
      by_cases he : n = 2 ^ (k + 1)
      · subst he
        rw [shrinkLoop_whole noSlab fuel m o ho.order_le] at h
        cases h
        rw [if_pos rfl, if_pos rfl]
        exact ⟨.refl m, rfl⟩
      · have hx := ho.rightHalf (Nat.lt_succ_self k)
        have hlt : n < 2 ^ (k + 1) := by omega
        have h2k := two_pow_succ' k
        rw [if_neg he, if_neg he]
        rw [shrinkLoop_succ noSlab fuel m ho.order_le hlt hx.lt64] at h
        by_cases hn : 2 ^ k < n
        · rw [if_pos hn] at h ⊢
          rw [if_pos hn]
          have he1 := (Effect.refl m).setBit (buddyBmpIndexOf o k) 0
          have hrec := shrinkLoop_effect k fuel h (by omega) (by omega) (by omega) hx
          exact ⟨he1.trans hrec.1, hrec.2⟩
        · rw [if_neg hn] at h ⊢
          rw [if_neg hn]
          obtain ⟨m1, h3, h4⟩ := bind_eq_ok.mp h
          obtain ⟨hc, hk, rfl⟩ := allocateFreelistEntry_ok.mp h3
          have he1 := (Effect.addEntry hc hk hx.stored).setBit (buddyBmpIndexOf o k) 1
          have hrec := shrinkLoop_effect k fuel h4 (by omega) h1 (by omega) (ho.lower (Nat.le_succ k))
          exact ⟨he1.trans hrec.1, hrec.2⟩

/-! ## The bits of the split pairs -/

/-- Nothing inside the block of order `k` at `o` is on a freelist. -/
def FreshInside (m : Machine V) (k o : Nat) : Prop :=
  ∀ j < k, ∀ x, baseAt k x = o → pairCount m j x = 0

theorem FreshInside.half {m m1 : Machine V} {k o h : Nat} (hf : FreshInside m (k + 1) o)
    (hh : ∀ x, baseAt k x = h → baseAt (k + 1) x = o)
    (hc : ∀ j < k, ∀ x, pairCount m1 j x = pairCount m j x) : FreshInside m1 k h := by
  intro j hj x hx
  rw [hc j hj x]
  exact hf j (by omega) x (hh x hx)

/-- A pair's bit written to what its halves say. -/
theorem setBit_defect {m m1 : Machine V} {k o v : Nat} (hk : k ≤ maxOrder) (hb : HasBit m1 k o)
    (ho : o < 2 ^ 64) (hmap : m1.buddyStateMap = m.buddyStateMap)
    (hown : ∀ x, parent k x = parent k o → decide (pairCount m1 k x % 2 = 1) = decide (0 < v))
    (hother : ∀ k' ≤ maxOrder, ∀ x, ¬ (k' = k ∧ parent k' x = parent k o) →
      pairCount m1 k' x = pairCount m k' x) :
    ∀ k' ≤ maxOrder, ∀ x < 2 ^ 64, defect m k' x = false →
      defect (m1.setBit (buddyBmpIndexOf o k) v) k' x = false := by
  intro k' hk' x hx hd
  have hbit := pairBit_setBit v hb ho hx hk hk'
  have hcount : pairCount (m1.setBit (buddyBmpIndexOf o k) v) k' x = pairCount m1 k' x := rfl
  unfold defect at hd ⊢
  rw [hbit, hcount]
  by_cases hp : k' = k ∧ parent k' x = parent k o
  · obtain ⟨rfl, hpx⟩ := hp
    rw [if_pos ⟨rfl, hpx⟩, hown x hpx, Bool.xor_self]
  · rw [if_neg hp, hother k' hk' x hp]
    have : pairBit m1 k' x = pairBit m k' x := by unfold pairBit; rw [hmap]
    rw [this]
    exact hd

/-- A block of order `k` in the left or right half of the block of order `k + 1` lies in that block. -/
theorem baseAt_succ_of_half {k o x : Nat} (hd : 2 ^ (k + 1) ∣ o)
    (hx : baseAt k x = o ∨ baseAt k x = o + 2 ^ k) : baseAt (k + 1) x = o := by
  have hb : baseAt (k + 1) (baseAt k x) = baseAt (k + 1) x := baseAt_baseAt (Nat.le_succ k) x
  rcases hx with hx | hx
  · rw [← hb, hx]
    exact baseAt_of_dvd hd
  · rw [← hb, hx]
    exact parent_of_right hd

/-- **Shrinking keeps every right bit right**, as nothing inside the block is listed before. -/
theorem shrinkLoop_defect :
    ∀ (k fuel : Nat) {m m' : Machine V} {o n n' : Nat},
      shrinkLoop noSlab fuel m o (splitOrderOf k) n = .ok (m', n') → k < fuel → 1 ≤ n → n ≤ 2 ^ k →
      Charted m → Sound m.maxPageOffset o k → FreshInside m k o →
      ∀ k' ≤ maxOrder, ∀ x < 2 ^ 64, defect m k' x = false → defect m' k' x = false
  | k, 0, _, _, _, _, _, _, hf, _, _, _, _, _ => by omega
  | 0, fuel + 1, m, m', o, n, n', h, hf, h1, h2, hm, ho, hfr => by
      obtain rfl : n = 2 ^ 0 := by rw [pow_zero] at h2 ⊢; omega
      rw [shrinkLoop_whole noSlab fuel m o ho.order_le] at h
      cases h
      exact fun _ _ _ _ hd => hd
  | k + 1, fuel + 1, m, m', o, n, n', h, hf, h1, h2, hm, ho, hfr => by
      by_cases he : n = 2 ^ (k + 1)
      · subst he
        rw [shrinkLoop_whole noSlab fuel m o ho.order_le] at h
        cases h
        exact fun _ _ _ _ hd => hd
      · have hx := ho.rightHalf (Nat.lt_succ_self k)
        have hok := ho.lower (Nat.le_succ k)
        have hlt : n < 2 ^ (k + 1) := by omega
        have h2k := two_pow_succ' k
        have hpo : parent k o = o := parent_of_left ho.aligned
        -- Both halves of the split pair are off the lists before the round.
        have hzero : ∀ x, parent k x = parent k o → pairCount m k x = 0 := by
          intro x hpx
          exact hfr k (Nat.lt_succ_self k) x (hpx.trans hpo)
        rw [shrinkLoop_succ noSlab fuel m ho.order_le hlt hx.lt64] at h
        by_cases hn : 2 ^ k < n
        · rw [if_pos hn] at h
          have he1 := (Effect.refl m).setBit (buddyBmpIndexOf o k) 0
          have hset := setBit_defect (v := 0) hok.order_le (hok.hasBit hm) ho.lt64 rfl
            (fun x hpx => by rw [hzero x hpx]; rfl) (fun _ _ _ _ => rfl)
          have hrec := shrinkLoop_defect k fuel h (by omega) (by omega) (by omega) (he1.layout.charted hm) hx
            (hfr.half (fun x hb => baseAt_succ_of_half ho.aligned (.inr hb)) (fun _ _ _ => rfl))
          exact fun k' hk' x hx' hd => hrec k' hk' x hx' (hset k' hk' x hx' hd)
        · rw [if_neg hn] at h
          obtain ⟨m1, h3, h4⟩ := bind_eq_ok.mp h
          obtain ⟨hc, hk, rfl⟩ := allocateFreelistEntry_ok.mp h3
          have he0 := Effect.addEntry hc hk hx.stored
          have he1 := he0.setBit (buddyBmpIndexOf o k) 1
          have hcount : ∀ k' x, pairCount (m.addEntry k (o + 2 ^ k)) k' x
              = pairCount m k' x + pairHit k' x k (o + 2 ^ k) := fun k' x => by
            have := he0.lists (pairHit k' x)
            simp only [total_nil, total_cons, Nat.add_zero] at this
            exact this
          have hpr : parent k (o + 2 ^ k) = parent k o := by rw [parent_of_right ho.aligned, hpo]
          have hset := setBit_defect (v := 1) (m := m) hok.order_le
            (Sound.hasBit (m := m.addEntry k (o + 2 ^ k)) (he0.layout.charted hm) hok) ho.lt64 rfl
            (fun x hpx => by
              rw [hcount, hzero x hpx, pairHit, if_pos ⟨rfl, hpr.trans hpx.symm⟩]
              rfl)
            (fun k' _ x hne => by
              have h0 : pairHit k' x k (o + 2 ^ k) = 0 := by
                refine if_neg fun hh => hne ⟨hh.1.symm, ?_⟩
                obtain ⟨rfl, hpx⟩ := hh
                exact hpx.symm.trans hpr
              rw [hcount, h0, Nat.add_zero])
          have hrec := shrinkLoop_defect k fuel h4 (by omega) h1 (by omega) (he1.layout.charted hm) hok
            (hfr.half (fun x hb => baseAt_succ_of_half ho.aligned (.inl hb)) (fun j hj x => by
              have : pairHit j x k (o + 2 ^ k) = 0 := if_neg fun hh => by omega
              rw [← Nat.add_zero (pairCount m j x), ← this]
              exact hcount j x))
          exact fun k' hk' x hx' hd => hrec k' hk' x hx' (hset k' hk' x hx' hd)

end LearningOS
