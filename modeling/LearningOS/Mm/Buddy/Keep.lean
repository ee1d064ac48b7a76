import LearningOS.Lib.Cut
import LearningOS.Mm.Buddy.Shrink
import LearningOS.Mm.Buddy.Split

/-!
# `Mm.Buddy.Keep` — a shrink, page for page and bit for bit

`buddy_shrink_block` keeps the first pages of a block. The blocks it gives up are the `leftovers`, and the pairs it
has to split are the blocks `Lib.Cut` names: those the end of the kept pages lies in. `shrinkLoop_keep` follows both
through the loop, for any way of creating a slab as long as the node cache lasts.
-/

namespace LearningOS

open Word Run Dyadic

variable {V : Type}

/-! ## The bits of the split pairs -/

/-- The bit of every pair that is split says whether its right half was given up; the other bits stay. -/
structure CutBits (m m' : Machine V) (k o n : Nat) : Prop where
  cut : ∀ j p, CutAt o k n j p → bitAt m'.buddyStateMap (buddyBmpIndexOf p j) = decide (o + n ≤ p + 2 ^ j)
  others : ∀ i, (∀ j p, CutAt o k n j p → i ≠ buddyBmpIndexOf p j) →
    bitAt m'.buddyStateMap i = bitAt m.buddyStateMap i

theorem CutBits.whole (m : Machine V) (k o : Nat) : CutBits m m k o (2 ^ k) where
  cut := fun _ _ h => absurd h not_cutAt_whole
  others := fun _ _ => rfl

/-- Different blocks that are split have different pair bits. -/
theorem cutAt_index_ne {o k j p : Nat} (ho : o < 2 ^ 64) (hk : k ≤ maxOrder)
    (hp : p < 2 ^ 64) (hj : j < k) : buddyBmpIndexOf o k ≠ buddyBmpIndexOf p j := by
  intro he
  have := ((buddyBmpIndexOf_inj ho hp hk (by omega)).mp he).1
  omega

/-- **One round.** The bit of the block's own pair is set, and the loop goes on in the half where the end lies. -/
theorem CutBits.round {m m1 m' : Machine V} {k o n h l v : Nat} (hd : 2 ^ (k + 1) ∣ o) (hk : k ≤ maxOrder)
    (ho : o + 2 ^ (k + 1) < 2 ^ 64) (h1 : 1 ≤ n) (hn : n < 2 ^ (k + 1)) (hb : HasBit m1 k o)
    (hmap : m1.buddyStateMap = m.buddyStateMap)
    (hhalf : ∀ j p, CutAt o (k + 1) n j p ↔ j = k ∧ p = o ∨ CutAt h k l j p) (hend : h + l = o + n)
    (hv : decide (0 < v) = decide (o + n ≤ o + 2 ^ k))
    (hrec : CutBits (m1.setBit (buddyBmpIndexOf o k) v) m' k h l) : CutBits m m' (k + 1) o n := by
  have h64 : o < 2 ^ 64 := by omega
  have hlow : ∀ j p, CutAt h k l j p → buddyBmpIndexOf o k ≠ buddyBmpIndexOf p j := by
    intro j p hc
    have hin := ((hhalf j p).mpr (.inr hc)).inside
    have hpos := Nat.two_pow_pos (j + 1)
    exact cutAt_index_ne h64 hk (by omega) hc.lt
  have hset : ∀ i, bitAt (m1.setBit (buddyBmpIndexOf o k) v).buddyStateMap i
      = if i = buddyBmpIndexOf o k ∧ m1.buddyStateMap.InRange (buddyBmpIndexOf o k) then decide (0 < v)
        else bitAt m1.buddyStateMap i := fun i => bitAt_bmpSetBit _ _ _ i
  constructor
  · intro j p hc
    rcases (hhalf j p).mp hc with ⟨rfl, rfl⟩ | hc
    · rw [hrec.others _ hlow, hset, if_pos ⟨rfl, hb⟩, hv]
    · rw [hrec.cut j p hc, hend]
  · intro i hi
    have hne : i ≠ buddyBmpIndexOf o k := hi k o ((hhalf k o).mpr (.inl ⟨rfl, rfl⟩))
    rw [hrec.others i (fun j p hc => hi j p ((hhalf j p).mpr (.inr hc))), hset, if_neg (fun h => hne h.1), hmap]

/-! ## The loop -/

/-- A number of rounds that is not 0. -/
theorem exists_succ_of_lt {k fuel : Nat} (h : k < fuel) : ∃ f, fuel = f + 1 ∧ k ≤ f := ⟨fuel - 1, by omega, by omega⟩

/-- **The loop gives up the leftovers and sets the bits of the pairs it splits**, whoever creates slabs; a round for
    each order below the block's is enough. -/
theorem shrinkLoop_keep (create : Callback V) :
    ∀ (k : Nat) {m : Machine V} {o n : Nat}, 1 ≤ n → n ≤ 2 ^ k → Charted m → Sound m.maxPageOffset o k →
      (leftovers k o n).length ≤ m.freelistCache.cells →
      ∃ m', (∀ fuel, k < fuel → shrinkLoop create fuel m o (splitOrderOf k) n = .ok (m', lastPiece k n)) ∧
        Effect m [] (leftovers k o n) m' ∧ CutBits m m' k o n
  | 0, m, o, n, h1, h2, hm, ho, hc => by
      obtain rfl : n = 2 ^ 0 := by rw [pow_zero] at h2 ⊢; omega
      refine ⟨m, fun fuel hf => ?_, .refl m, .whole m 0 o⟩
      obtain ⟨f, rfl, -⟩ := exists_succ_of_lt hf
      exact shrinkLoop_whole create f m o ho.order_le
  | k + 1, m, o, n, h1, h2, hm, ho, hc => by
      by_cases he : n = 2 ^ (k + 1)
      · subst he
        have hnil : leftovers (k + 1) o (2 ^ (k + 1)) = [] := if_pos rfl
        have hlast : lastPiece (k + 1) (2 ^ (k + 1)) = 2 ^ (k + 1) := if_pos rfl
        rw [hnil, hlast]
        refine ⟨m, fun fuel hf => ?_, .refl m, .whole m (k + 1) o⟩
        obtain ⟨f, rfl, -⟩ := exists_succ_of_lt hf
        exact shrinkLoop_whole create f m o ho.order_le
      · have hx := ho.rightHalf (Nat.lt_succ_self k)
        have hok := ho.lower (Nat.le_succ k)
        have hlt : n < 2 ^ (k + 1) := by omega
        have h2k := two_pow_succ' k
        have hend : o + 2 ^ (k + 1) < 2 ^ 64 := lt_of_le_of_lt ho.fits (by decide)
        by_cases hn : 2 ^ k < n
        · -- The left half is kept; its pair has no free half.
          have hleft : leftovers (k + 1) o n = leftovers k (o + 2 ^ k) (n - 2 ^ k) := by
            rw [leftovers, if_neg he, if_pos hn]
          have hlast : lastPiece (k + 1) n = lastPiece k (n - 2 ^ k) := by
            rw [lastPiece, if_neg he, if_pos hn]
          have hcut : ∀ j p, CutAt o (k + 1) n j p ↔ j = k ∧ p = o ∨ CutAt (o + 2 ^ k) k (n - 2 ^ k) j p := by
            intro j p
            rw [cutAt_succ ho.aligned h1 hlt, if_pos hn]
          rw [hleft] at hc ⊢
          rw [hlast]
          have he1 := (Effect.refl m).setBit (buddyBmpIndexOf o k) 0
          obtain ⟨m', hrun, heff, hbits⟩ := shrinkLoop_keep create k (by omega) (by omega) (he1.layout.charted hm) hx hc
          refine ⟨m', fun fuel hf => ?_, he1.trans heff, ?_⟩
          · obtain ⟨f, rfl, hkf⟩ := exists_succ_of_lt hf
            rw [shrinkLoop_succ create f m ho.order_le hlt hx.lt64, if_pos hn]
            exact hrun f hkf
          · exact hbits.round ho.aligned hok.order_le hend h1 hlt (hok.hasBit hm) rfl hcut (by omega)
              (by rw [decide_eq_false (by omega), decide_eq_false (by omega)])
        · -- The right half is given up.
          have hleft : leftovers (k + 1) o n = ⟨o + 2 ^ k, k⟩ :: leftovers k o n := by
            rw [leftovers, if_neg he, if_neg hn]
          have hlast : lastPiece (k + 1) n = lastPiece k n := by
            rw [lastPiece, if_neg he, if_neg hn]
          have hcut : ∀ j p, CutAt o (k + 1) n j p ↔ j = k ∧ p = o ∨ CutAt o k n j p := by
            intro j p
            rw [cutAt_succ ho.aligned h1 hlt, if_neg hn]
          rw [hleft, List.length_cons] at hc
          have hpos : 0 < m.freelistCache.cells := by omega
          have hcells := cells_take hpos
          have he0 := Effect.addEntry hpos hok.order_le hx.stored
          have he1 := he0.setBit (buddyBmpIndexOf o k) 1
          rw [hleft, hlast]
          obtain ⟨m', hrun, heff, hbits⟩ := shrinkLoop_keep create k h1 (by omega) (he1.layout.charted hm) hok
            (by rw [setBit_cache, addEntry_cache]; omega)
          refine ⟨m', fun fuel hf => ?_, he1.trans heff, ?_⟩
          · obtain ⟨f, rfl, hkf⟩ := exists_succ_of_lt hf
            rw [shrinkLoop_succ create f m ho.order_le hlt hx.lt64, if_neg hn,
              allocateFreelistEntry_of_cells create hpos hok.order_le, ok_bind]
            exact hrun f hkf
          · exact hbits.round ho.aligned hok.order_le hend h1 hlt
              (Sound.hasBit (m := m.addEntry k (o + 2 ^ k)) (he0.layout.charted hm) hok) rfl hcut rfl
              (by rw [decide_eq_true (by omega), decide_eq_true (by omega)])

/-! ## The shrink -/

/-- The first `n` pages of the block of order `b` at `o` are kept: the blocks `added` to the lists are the rest of
    it, one of an order at most, and the bits of the split pairs are those of their halves. -/
structure KeepsFirst (m m' : Machine V) (b o n : Nat) (added : List Block) : Prop where
  lists : ∀ k ≤ maxOrder, ∀ x, (m'.freelists k).count x = (m.freelists k).count x + added.count ⟨x, k⟩
  aligned : ∀ x ∈ added, x.Aligned
  lower : ∀ x ∈ added, x.order < b
  orders : (added.map Block.order).Nodup
  pages : ∀ p, cover added p = if o + n ≤ p ∧ p < o + 2 ^ b then 1 else 0
  split : ∀ j p, CutAt o b n j p →
    bitAt m'.buddyStateMap (buddyBmpIndexOf p j) = (decide (⟨p, j⟩ ∈ added) ^^ decide (⟨p + 2 ^ j, j⟩ ∈ added))
  others : ∀ i, (∀ j p, CutAt o b n j p → i ≠ buddyBmpIndexOf p j) →
    bitAt m'.buddyStateMap i = bitAt m.buddyStateMap i

/-- Only the lists and the bitmap count. -/
theorem KeepsFirst.of_same {m m' m'' : Machine V} {b o n : Nat} {added : List Block}
    (h : KeepsFirst m m' b o n added) (hl : m''.freelists = m'.freelists)
    (hmap : m''.buddyStateMap = m'.buddyStateMap) : KeepsFirst m m'' b o n added where
  lists := hl ▸ h.lists
  aligned := h.aligned
  lower := h.lower
  orders := h.orders
  pages := h.pages
  split := hmap ▸ h.split
  others := hmap ▸ h.others

theorem keepsFirst_of_effect {m m' : Machine V} {b o n : Nat} (ho : Sound m.maxPageOffset o b) (h1 : 1 ≤ n)
    (h2 : n ≤ 2 ^ b) (heff : Effect m [] (leftovers b o n) m') (hbits : CutBits m m' b o n) :
    KeepsFirst m m' b o n (leftovers b o n) where
  lists := fun k hk x => by
    have := heff.lists.count (b := ⟨x, k⟩) hk
    rw [List.count_nil, Nat.add_zero] at this
    exact this
  aligned := fun x hx => (mem_leftovers ho.aligned hx).2.1
  lower := fun x hx => (mem_leftovers ho.aligned hx).1
  orders := by
    rw [List.Nodup, List.pairwise_map]
    exact (leftovers_orders ho.aligned).imp (fun h => h.ne')
  pages := cover_leftovers h1 h2
  split := fun j p hc => by
    obtain ⟨hleft, hright⟩ := halves_of_cutAt ho.aligned h1 h2 hc
    rw [hbits.cut j p hc, decide_eq_false hleft, Bool.false_xor, decide_eq_decide.mpr hright]
  others := hbits.others

/-- **`buddy_shrink_block` keeps exactly the first `n` pages**, given a node for each block it adds: its loop is over
    after at most `b` rounds, and what it adds is the rest of the block. -/
theorem shrink_keeps_first (create : Callback V) {m : Machine V} {b o n blockBase : Nat} (hm : Charted m)
    (ho : Sound m.maxPageOffset o b) (hbase : o ≤ m.pageOf blockBase ∧ m.pageOf blockBase < o + 2 ^ b)
    (h1 : 1 ≤ n) (h2 : n ≤ 2 ^ b) (hnodes : (leftovers b o n).length ≤ m.freelistCache.cells) :
    ∃ m' m1 n', buddyShrinkBlock create m blockBase b n = .ok m' ∧
      shrinkLoop create (b + 1) m o (splitOrderOf b) n = .ok (m1, n') ∧ m' = accountShrink m1 b n' ∧
      KeepsFirst m m' b o n (leftovers b o n) := by
  have hb : b ≤ 7 := ho.order_le
  have hpage : m.pageOf blockBase < 2 ^ 64 := lt_of_lt_of_le hbase.2 (ho.fits.trans (by decide))
  have htrunc : truncNBits (m.pageOf blockBase) b = o := by
    rw [truncNBits_eq hpage (by omega)]
    exact baseAt_of_inside ho.aligned hbase.1 hbase.2
  obtain ⟨m1, hrun, heff, hbits⟩ := shrinkLoop_keep create b h1 h2 hm ho hnodes
  refine ⟨accountShrink m1 b (lastPiece b n), m1, lastPiece b n, ?_, hrun (b + 1) (by omega), rfl, ?_⟩
  · unfold buddyShrinkBlock
    rw [htrunc]
    show (shrinkLoop create 256 m o (splitOrderOf b) n >>= _) = _
    rw [hrun 256 (by omega)]
    rfl
  · unfold accountShrink
    exact (keepsFirst_of_effect ho h1 h2 heff hbits).of_same (setCounters_freelists ..) (setCounters_map ..)

theorem nineBlocks_charted (cells : Nat) : Charted (nineBlocks cells) := by
  have hpages : (nineBlocks cells).maxPageOffset = 256 := by
    show sub64 0x200000 0x100000 >>> pageOrder = 256
    decide
  unfold Charted
  rw [hpages]
  exact sizeBytes_bmpInit (buddyBmpSizeBits 256)

theorem three_pages_of_eight : ∃ m' m1 n', buddyShrinkBlock noSlab (nineBlocks 2) 0x142000 3 3 = .ok m' ∧
    shrinkLoop noSlab 4 (nineBlocks 2) 64 (splitOrderOf 3) 3 = .ok (m1, n') ∧ m' = accountShrink m1 3 n' ∧
    KeepsFirst (nineBlocks 2) m' 3 64 3 (leftovers 3 64 3) :=
  shrink_keeps_first noSlab (nineBlocks_charted 2) ⟨by decide, by decide, by decide, by decide⟩ (by decide) (by decide)
    (by decide) (by decide)

/-- Without a node for the half it gives up the call comes back to the allocator: the slab and its own bookkeeping
    take all the free blocks there are. -/
theorem shrink_reenters :
    ¬ ∀ (m : Machine Vm) (b o n blockBase : Nat), Charted m → Sound m.maxPageOffset o b →
      o ≤ m.pageOf blockBase ∧ m.pageOf blockBase < o + 2 ^ b → 1 ≤ n → n ≤ 2 ^ b →
      ∃ m' added, buddyShrinkBlock (vmAllocBlockIn (physAlloc 40) .kernelSlab) m blockBase b n = .ok m' ∧
        KeepsFirst m m' b o n added := by
  intro h
  obtain ⟨m', added, hrun, hkeeps⟩ := h (nineBlocks 0) 1 64 1 0x140000 (nineBlocks_charted 0)
    ⟨by decide, by decide, by decide, by decide⟩ (by decide) (by decide) (by decide)
  have hleft : (match buddyShrinkBlock (vmAllocBlockIn (physAlloc 40) .kernelSlab) (nineBlocks 0) 0x140000 1 1 with
      | .ok m' => decide ((m'.freelists 2).count 0 = 0)
      | .error _ => false) = true := by decide +kernel
  rw [hrun] at hleft
  have hzero : (m'.freelists 2).count 0 = 0 := of_decide_eq_true hleft
  have hone : ((nineBlocks 0).freelists 2).count 0 = 1 := by decide
  have := hkeeps.lists 2 (by decide) 0
  omega

end LearningOS
