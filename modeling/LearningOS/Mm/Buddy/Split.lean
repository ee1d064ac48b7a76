import LearningOS.Mm.Buddy.Alloc
import LearningOS.Mm.Phys.Model

/-!
# `Mm.Buddy.Split` — an allocation, entry for entry

`takeBlock_effect` says which blocks an allocation moves; here the freelists after `buddy_alloc_block` are given as
they are, in their order, and the bitmap as the result of the toggles one after the other. The block comes off the
head of the least non-empty list, its halves are the only entries of the lists between, and every other list is as
it was.

The nodes of the right halves have to be there: `slab_alloc` on an empty cache goes to `__slab_create` and that
back into `buddy_alloc_block`, which then finds the lists in the middle of the split (`split_reenters`).
-/

namespace LearningOS

open Word Run Dyadic

variable {V : Type}

/-! ## Toggles in a row -/

/-- `bmp_toggle_bit` for one index after the other. -/
def toggleAll : Bitmap → List Nat → Bitmap
  | bmp, [] => bmp
  | bmp, i :: is => toggleAll (bmpToggleBit bmp i).2 is

theorem toggleAll_append : ∀ (bmp : Bitmap) (is js : List Nat),
    toggleAll bmp (is ++ js) = toggleAll (toggleAll bmp is) js
  | _, [], _ => rfl
  | bmp, i :: is, js => toggleAll_append (bmpToggleBit bmp i).2 is js

theorem sizeBytes_toggleAll : ∀ (bmp : Bitmap) (is : List Nat), (toggleAll bmp is).sizeBytes = bmp.sizeBytes
  | _, [] => rfl
  | bmp, i :: is => (sizeBytes_toggleAll _ is).trans (sizeBytes_bmpToggleBit bmp i)

/-- **Different indices in a row flip the bits they name, and no other.** -/
theorem bitAt_toggleAll : ∀ (bmp : Bitmap) (is : List Nat), is.Nodup → ∀ j,
    bitAt (toggleAll bmp is) j = (bitAt bmp j ^^ decide (j ∈ is ∧ bmp.InRange j))
  | bmp, [], _, j => by simp [toggleAll]
  | bmp, i :: is, hnodup, j => by
      obtain ⟨hi, his⟩ := List.nodup_cons.mp hnodup
      have hrange : (bmpToggleBit bmp i).2.InRange j ↔ bmp.InRange j := by
        unfold Bitmap.InRange
        rw [sizeBytes_bmpToggleBit]
      unfold toggleAll
      rw [bitAt_toggleAll _ is his j, bitAt_bmpToggleBit]
      by_cases hji : j = i
      · subst hji
        by_cases hr : bmp.InRange j
        · simp [hi, hr]
        · simp [hi, hr]
      · simp [hji, hrange]

/-! ## The chain of a block -/

/-- The pair bits of the block at `o` for the orders from `j` down to `t + 1`. -/
def chainAbove (o t : Nat) : Nat → List Nat
  | 0 => []
  | j + 1 => if j + 1 > t then buddyBmpIndexOf o (j + 1) :: chainAbove o t j else []

/-- The pair bits of the block at `o` for the orders from `k` down to `t`. -/
def chain (o t k : Nat) : List Nat := chainAbove o t k ++ [buddyBmpIndexOf o t]

theorem mem_chainAbove {o t i : Nat} :
    ∀ {j : Nat}, i ∈ chainAbove o t j ↔ ∃ l, t < l ∧ l ≤ j ∧ i = buddyBmpIndexOf o l
  | 0 => by
      simp only [chainAbove, List.not_mem_nil, false_iff]
      rintro ⟨l, h1, h2, -⟩
      omega
  | j + 1 => by
      unfold chainAbove
      by_cases hj : j + 1 > t
      · rw [if_pos hj, List.mem_cons, mem_chainAbove]
        constructor
        · rintro (rfl | ⟨l, h1, h2, h3⟩)
          · exact ⟨j + 1, hj, le_rfl, rfl⟩
          · exact ⟨l, h1, by omega, h3⟩
        · rintro ⟨l, h1, h2, rfl⟩
          by_cases hl : l = j + 1
          · exact .inl (by rw [hl])
          · exact .inr ⟨l, h1, by omega, rfl⟩
      · rw [if_neg hj]
        simp only [List.not_mem_nil, false_iff]
        rintro ⟨l, h1, h2, -⟩
        omega

theorem mem_chain {o t k i : Nat} (htk : t ≤ k) :
    i ∈ chain o t k ↔ ∃ l, t ≤ l ∧ l ≤ k ∧ i = buddyBmpIndexOf o l := by
  unfold chain
  rw [List.mem_append, mem_chainAbove, List.mem_singleton]
  constructor
  · rintro (⟨l, h1, h2, h3⟩ | rfl)
    · exact ⟨l, h1.le, h2, h3⟩
    · exact ⟨t, le_rfl, htk, rfl⟩
  · rintro ⟨l, h1, h2, rfl⟩
    by_cases hl : l = t
    · exact .inr (by rw [hl])
    · exact .inl ⟨l, by omega, h2, rfl⟩

theorem chainAbove_nodup {o t : Nat} (ho : o < 2 ^ 64) : ∀ {j : Nat}, j ≤ maxOrder → (chainAbove o t j).Nodup
  | 0, _ => List.nodup_nil
  | j + 1, hj => by
      unfold chainAbove
      by_cases hjt : j + 1 > t
      · rw [if_pos hjt, List.nodup_cons]
        refine ⟨fun hmem => ?_, chainAbove_nodup ho (by omega)⟩
        obtain ⟨l, -, hl, he⟩ := mem_chainAbove.mp hmem
        have := ((buddyBmpIndexOf_inj ho ho hj (by omega)).mp he).1
        omega
      · rw [if_neg hjt]
        exact List.nodup_nil

/-- No pair bit is in the chain twice. -/
theorem chain_nodup {o t k : Nat} (ho : o < 2 ^ 64) (htk : t ≤ k) (hk : k ≤ maxOrder) : (chain o t k).Nodup := by
  refine List.Nodup.append (chainAbove_nodup ho hk) (List.nodup_singleton _) ?_
  intro i hi hit
  obtain ⟨l, h1, h2, rfl⟩ := mem_chainAbove.mp hi
  have := ((buddyBmpIndexOf_inj ho ho (h2.trans hk) (htk.trans hk)).mp (List.mem_singleton.mp hit)).1
  omega

/-! ## The split -/

/-- What the split loop leaves: a right half in front of every list from `t + 1` to `j`, and the bits toggled. -/
structure SplitDown (m m' : Machine V) (o t j : Nat) : Prop where
  layout : SameLayout m m'
  lists : ∀ i, m'.freelists i = if t < i ∧ i ≤ j then (o + 2 ^ i) :: m.freelists i else m.freelists i
  map : m'.buddyStateMap = toggleAll m.buddyStateMap (chainAbove o t j)

/-- A round of the split loop that finds a node. -/
theorem splitBlock_succ (create : Callback V) {m : Machine V} {o t j : Nat} (hjt : j + 1 > t)
    (hc : 0 < m.freelistCache.cells) (hj : j + 1 ≤ maxOrder) :
    splitBlock create o t (j + 1) m
      = splitBlock create o t j ((m.addEntry (j + 1) (o + 2 ^ (j + 1))).toggleBit (buddyBmpIndexOf o (j + 1))) := by
  conv_lhs => unfold splitBlock
  rw [if_pos hjt]
  show (allocateFreelistEntry create m (o + 2 ^ (j + 1)) (j + 1) >>= _) = _
  rw [allocateFreelistEntry_of_cells create hc hj]
  rfl

theorem splitBlock_exact (create : Callback V) {o t : Nat} (ho : o < 2 ^ 24) :
    ∀ (j : Nat) {m : Machine V}, j ≤ maxOrder → 2 ^ (j + 1) ∣ o → j - t ≤ m.freelistCache.cells →
      ∃ m', splitBlock create o t j m = .ok m' ∧ SplitDown m m' o t j
  | 0, m, _, _, _ => by
      refine ⟨m, rfl, .refl m, fun i => ?_, rfl⟩
      rw [if_neg (by omega)]
  | j + 1, m, hj, hd, hc => by
      by_cases hjt : j + 1 > t
      · have hchain : chainAbove o t (j + 1) = buddyBmpIndexOf o (j + 1) :: chainAbove o t j := if_pos hjt
        have hj7 : j + 1 ≤ 7 := hj
        have hend : o + 2 ^ (j + 1 + 1) ≤ 2 ^ 24 := add_two_pow_le (by omega) hd ho
        have hhalf := two_pow_succ' (j + 1)
        have hpos := Nat.two_pow_pos (j + 1)
        have hstored : storedOffset (o + 2 ^ (j + 1)) = o + 2 ^ (j + 1) := Nat.mod_eq_of_lt (by omega)
        have hcells := cells_take (c := m.freelistCache) (by omega)
        have hrest : j - t ≤ ((m.addEntry (j + 1) (o + 2 ^ (j + 1))).toggleBit
            (buddyBmpIndexOf o (j + 1))).freelistCache.cells := by
          rw [toggleBit_cache, addEntry_cache]
          omega
        rw [splitBlock_succ create hjt (by omega) hj]
        obtain ⟨m', hrun, hs⟩ := splitBlock_exact create ho j (by omega)
          ((pow_dvd_pow 2 (Nat.le_succ (j + 1))).trans hd) hrest
        refine ⟨m', hrun, ((SameLayout.addEntry m _ _).trans (.toggleBit _ _)).trans hs.layout, fun i => ?_,
          by rw [hchain]; exact hs.map⟩
        rw [hs.lists, toggleBit_freelists, addEntry_freelists, hstored]
        by_cases hi : i = j + 1
        · subst hi
          rw [if_neg (by omega), if_pos ⟨hjt, le_rfl⟩, Function.update_self]
        · rw [Function.update_of_ne hi]
          exact if_congr (by omega) rfl rfl
      · have hchain : chainAbove o t (j + 1) = [] := if_neg hjt
        refine ⟨m, if_neg hjt, .refl m, fun i => ?_, by rw [hchain]; rfl⟩
        rw [if_neg (by omega)]

/-! ## The allocation -/

/-- The freelists hold naturally aligned blocks; the first page of each is a value of the 24 bits of
    `page_offset`. -/
def AlignedLists (m : Machine V) : Prop := ∀ k ≤ maxOrder, ∀ o ∈ m.freelists k, 2 ^ k ∣ o ∧ o < 2 ^ 24

instance (m : Machine V) : Decidable (AlignedLists m) :=
  inferInstanceAs (Decidable (∀ k ≤ maxOrder, ∀ o ∈ m.freelists k, 2 ^ k ∣ o ∧ o < 2 ^ 24))

/-- Where the free block of order `j` starts that remains of the block at `o`: the left half at the order asked
    for, the right half above it. -/
def remainderAt (o t j : Nat) : Nat := if j = t then o else o + 2 ^ j

/-- The free blocks that remain of a block of order `k` at `o`, one at each order from `t` to `k - 1`. -/
def remainders (o t k : Nat) : List Block := (List.range' t (k - t)).map fun j => ⟨remainderAt o t j, j⟩

/-- The block `x` of order `t` was taken from the head `o` of the list of order `k`: what remains of that head is
    the only entry of each list between, every other list is as it was, and the bits of the chain are toggled. -/
structure TakenFrom (m m' : Machine V) (t k o : Nat) (rest : List Nat) (x : Nat) : Prop where
  aligned : 2 ^ t ∣ x
  inside : o ≤ x ∧ x + 2 ^ t ≤ o + 2 ^ k
  source : m'.freelists k = rest
  halves : ∀ j, t ≤ j → j < k → m'.freelists j = [remainderAt o t j] ∧ 2 ^ j ∣ remainderAt o t j
  others : ∀ j, j < t ∨ k < j → m'.freelists j = m.freelists j
  partition : ∀ p, cover (⟨x, t⟩ :: remainders o t k) p = if o ≤ p ∧ p < o + 2 ^ k then 1 else 0
  toggles : m'.buddyStateMap = toggleAll m.buddyStateMap (chain o t k)
  once : (chain o t k).Nodup
  bits : ∀ i, m.buddyStateMap.InRange i →
    (bitAt m'.buddyStateMap i ≠ bitAt m.buddyStateMap i ↔ ∃ l, t ≤ l ∧ l ≤ k ∧ i = buddyBmpIndexOf o l)

/-- Only the lists and the bitmap count. -/
theorem TakenFrom.of_same {m m' m'' : Machine V} {t k o x : Nat} {rest : List Nat}
    (h : TakenFrom m m' t k o rest x) (hl : m''.freelists = m'.freelists)
    (hmap : m''.buddyStateMap = m'.buddyStateMap) : TakenFrom m m'' t k o rest x where
  aligned := h.aligned
  inside := h.inside
  source := hl ▸ h.source
  halves := hl ▸ h.halves
  others := hl ▸ h.others
  partition := h.partition
  toggles := hmap ▸ h.toggles
  once := h.once
  bits := hmap ▸ h.bits

/-- The right half at the order asked for and what remains make up the block. -/
theorem total_remainders {f : Nat → Nat → Nat} (hf : SplitAdditive f) (o t : Nat) :
    ∀ n, f t (o + 2 ^ t) + total f (remainders o t (t + (n + 1))) = f (t + (n + 1)) o := by
  intro n
  induction n with
  | zero =>
      have hone : remainders o t (t + (0 + 1)) = [⟨o, t⟩] := by
        unfold remainders
        rw [Nat.zero_add, Nat.add_sub_cancel_left, List.range'_one, List.map_singleton, remainderAt, if_pos rfl]
      rw [hone, total_cons, total_nil]
      have := hf t o
      show f t (o + 2 ^ t) + (f t o + 0) = f (t + 1) o
      omega
  | succ n ih =>
      have hlast : remainders o t (t + (n + 1 + 1))
          = remainders o t (t + (n + 1)) ++ [⟨o + 2 ^ (t + (n + 1)), t + (n + 1)⟩] := by
        unfold remainders
        rw [Nat.add_sub_cancel_left, Nat.add_sub_cancel_left, List.range'_1_concat, List.map_append,
          List.map_singleton, remainderAt, if_neg (by omega)]
      rw [hlast, total_append, total_cons, total_nil]
      have := hf (t + (n + 1)) o
      show f t (o + 2 ^ t) + (_ + (f (t + (n + 1)) (o + 2 ^ (t + (n + 1))) + 0)) = f (t + (n + 1) + 1) o
      omega

theorem cover_taken (p : Nat) {t k o : Nat} (htk : t < k) :
    cover (⟨o + 2 ^ t, t⟩ :: remainders o t k) p = if o ≤ p ∧ p < o + 2 ^ k then 1 else 0 := by
  obtain ⟨n, rfl⟩ : ∃ n, k = t + (n + 1) := ⟨k - t - 1, by omega⟩
  rw [cover_eq_total, total_cons]
  exact total_remainders (hit_additive p) o t n

theorem cover_whole (p o k : Nat) :
    cover (⟨o, k⟩ :: remainders o k k) p = if o ≤ p ∧ p < o + 2 ^ k then 1 else 0 := by
  unfold remainders
  rw [Nat.sub_self, List.range'_zero, List.map_nil, cover_eq_total, total_cons, total_nil, Nat.add_zero]
  rfl

/-- The bits that differ after the toggles of a chain are those of the chain. -/
theorem bits_of_toggles {bmp bmp' : Bitmap} {o t k : Nat} (htk : t ≤ k) (hnodup : (chain o t k).Nodup)
    (hmap : bmp' = toggleAll bmp (chain o t k)) (i : Nat) (hi : bmp.InRange i) :
    bitAt bmp' i ≠ bitAt bmp i ↔ ∃ l, t ≤ l ∧ l ≤ k ∧ i = buddyBmpIndexOf o l := by
  rw [hmap, bitAt_toggleAll _ _ hnodup, ← mem_chain htk]
  by_cases hmem : i ∈ chain o t k
  · simp [hmem, hi]
  · simp [hmem]

/-- The block comes off a list of the order asked for. -/
theorem takeBlock_whole (create : Callback V) {m : Machine V} {k o : Nat} {rest : List Nat}
    (hk : k ≤ maxOrder) (ho : 2 ^ k ∣ o ∧ o < 2 ^ 24) (hl : m.freelists k = o :: rest) :
    ∃ m', takeBlock create m k = .ok (o, m') ∧ SameLayout m m' ∧ TakenFrom m m' k k o rest o := by
  have h64 : o < 2 ^ 64 := lt_trans ho.2 (by decide)
  have hnodup := chain_nodup h64 (le_refl k) hk
  have hchain : chain o k k = [buddyBmpIndexOf o k] := by
    unfold chain
    cases k with
    | zero => rfl
    | succ k => rw [chainAbove, if_neg (by omega), List.nil_append]
  refine ⟨(slabFree (m.setFreelist k rest)).toggleBit (buddyBmpIndexOf o k), ?_, ?_, ?_⟩
  · unfold takeBlock
    rw [hl]
  · exact ((SameLayout.setFreelist m k rest).trans (.slabFree _)).trans (.toggleBit _ _)
  · have hmap : ((slabFree (m.setFreelist k rest)).toggleBit (buddyBmpIndexOf o k)).buddyStateMap
        = toggleAll m.buddyStateMap (chain o k k) := by
      rw [hchain]
      rfl
    refine ⟨ho.1, ⟨le_rfl, le_rfl⟩, ?_, fun j h1 h2 => by omega, fun j hj => ?_, fun p => cover_whole p o k, hmap,
      hnodup, bits_of_toggles le_rfl hnodup hmap⟩
    · exact Function.update_self ..
    · exact Function.update_of_ne (by omega) ..

/-- The block is split off the first block of a higher order. -/
theorem takeBlock_split (create : Callback V) {m : Machine V} {t k o : Nat} {rest : List Nat}
    (hs : Source m t k o rest) (htk : t < k) (ho : 2 ^ k ∣ o ∧ o < 2 ^ 24)
    (hc : k - t - 1 ≤ m.freelistCache.cells) :
    ∃ m', takeBlock create m t = .ok (o + 2 ^ t, m') ∧ SameLayout m m' ∧
      TakenFrom m m' t k o rest (o + 2 ^ t) := by
  have hkm := hs.order_le
  have h64 : o < 2 ^ 64 := lt_trans ho.2 (by decide)
  have hnodup := chain_nodup h64 htk.le hkm
  have hsearch : searchOrder m (maxOrder + 1) (t + 1) = k :=
    searchOrder_eq hkm (by rw [hs.list]; exact List.cons_ne_nil _ _) _ _ htk (by omega)
      (fun j h1 h2 => hs.least j (by omega) h2)
  obtain ⟨j, rfl⟩ : ∃ j, k = j + 1 := ⟨k - 1, by omega⟩
  have hjt : j + 1 > t := htk
  obtain ⟨m2, hrun, hsplit⟩ := splitBlock_exact create ho.2 j (t := t)
    (m := (m.setFreelist (j + 1) rest).toggleBit (buddyBmpIndexOf o (j + 1))) (by omega) ho.1
    (by rw [toggleBit_cache, setFreelist_cache]; omega)
  have hdt : ∀ i, i ≤ j + 1 → 2 ^ i ∣ o := fun i hi => (pow_dvd_pow 2 hi).trans ho.1
  have hmap : ((m2.setFreelist t (o :: m2.freelists t)).toggleBit (buddyBmpIndexOf o t)).buddyStateMap
      = toggleAll m.buddyStateMap (chain o t (j + 1)) := by
    show (bmpToggleBit m2.buddyStateMap (buddyBmpIndexOf o t)).2 = _
    have hchain : chain o t (j + 1)
        = buddyBmpIndexOf o (j + 1) :: chainAbove o t j ++ [buddyBmpIndexOf o t] := by
      rw [chain, chainAbove, if_pos hjt]
    rw [hsplit.map, hchain, toggleAll_append]
    rfl
  have hlists : ∀ i, i ≠ t → ((m2.setFreelist t (o :: m2.freelists t)).toggleBit (buddyBmpIndexOf o t)).freelists i
      = if t < i ∧ i ≤ j then (o + 2 ^ i) :: m.freelists i
        else if i = j + 1 then rest else m.freelists i := by
    intro i hi
    show Function.update m2.freelists t _ i = _
    rw [Function.update_of_ne hi, hsplit.lists]
    show (if _ then _ :: Function.update m.freelists (j + 1) rest i
      else Function.update m.freelists (j + 1) rest i) = _
    by_cases hij : i = j + 1
    · subst hij
      rw [if_neg (by omega), if_neg (by omega), if_pos rfl, Function.update_self]
    · rw [Function.update_of_ne hij, if_neg hij]
  refine ⟨(m2.setFreelist t (o :: m2.freelists t)).toggleBit (buddyBmpIndexOf o t), ?_, ?_, ?_⟩
  · unfold takeBlock findOrSplitBlock
    simp only [hs.least t le_rfl htk, hsearch, if_neg (Nat.not_lt.mpr hkm), hs.list]
    rw [Nat.add_sub_cancel, hrun, ok_bind, linkEntry_ok.mpr ⟨by omega, rfl⟩, ok_bind]
  · exact (((SameLayout.setFreelist m _ _).trans (.toggleBit _ _)).trans hsplit.layout).trans
      ((SameLayout.setFreelist m2 _ _).trans (.toggleBit _ _))
  · refine ⟨Nat.dvd_add (hdt t htk.le) dvd_rfl, ⟨Nat.le_add_right _ _, ?_⟩, ?_, fun i h1 h2 => ?_, fun i hi => ?_,
      fun p => cover_taken p htk, hmap, hnodup, bits_of_toggles htk.le hnodup hmap⟩
    · have h2 := two_pow_succ' t
      have hle : 2 ^ (t + 1) ≤ 2 ^ (j + 1) := Nat.pow_le_pow_right (by decide) htk
      omega
    · rw [hlists (j + 1) (by omega), if_neg (by omega), if_pos rfl]
    · unfold remainderAt
      by_cases hit : i = t
      · subst hit
        rw [if_pos rfl]
        refine ⟨?_, hdt i h2.le⟩
        show Function.update m2.freelists i _ i = _
        rw [Function.update_self, hsplit.lists, if_neg (by omega)]
        show o :: Function.update m.freelists (j + 1) rest i = _
        rw [Function.update_of_ne (by omega), hs.least i le_rfl h2]
      · rw [if_neg hit, hlists i hit, if_pos (by omega), hs.least i h1 h2]
        exact ⟨rfl, Nat.dvd_add (hdt i h2.le) dvd_rfl⟩
    · rw [hlists i (by omega), if_neg (by omega), if_neg (by omega)]

/-- **`buddy_alloc_block` takes the smallest sufficient block and splits it exactly**, given a node for each right
    half above the order asked for. -/
theorem alloc_takes_smallest (create : Callback V) {m : Machine V} {t k o : Nat} {rest : List Nat}
    (hlists : AlignedLists m) (hs : Source m t k o rest) (hnodes : k - t - 1 ≤ m.freelistCache.cells) :
    ∃ x m', buddyAllocBlock create m t = .ok (m.addrOf x, m') ∧ TakenFrom m m' t k o rest x := by
  have ho := hlists k hs.order_le o (mem_freelists_of_source hs)
  obtain ⟨x, m', hrun, hlayout, htaken⟩ : ∃ x m', takeBlock create m t = .ok (x, m') ∧ SameLayout m m' ∧
      TakenFrom m m' t k o rest x := by
    rcases Nat.eq_or_lt_of_le hs.le with htk | htk
    · subst htk
      exact ⟨o, takeBlock_whole create hs.order_le ho hs.list⟩
    · exact ⟨o + 2 ^ t, takeBlock_split create hs htk ho hnodes⟩
  refine ⟨x, accountAlloc m' t, ?_, ?_⟩
  · unfold buddyAllocBlock
    rw [hrun, ok_bind, ← hlayout.addrOf]
  · unfold accountAlloc
    exact htaken.of_same (setCounters_freelists ..) (setCounters_map ..)

/-! ### Nine blocks of four pages -/

/-- The first 36 pages as free blocks of order 2, and a node cache with the given number of free cells. -/
def nineBlocks (cells : Nat) : Machine Vm where
  buddyStateMap := bmpInit (buddyBmpSizeBits 256)
  freelistCache := ⟨cells, 0, 9, cells⟩
  freelists := fun k => if k = 2 then (List.range 9).map (4 * ·) else []
  baseAddr := 0x100000
  endAddr := 0x200000
  freeSpaceBytes := 36 * pageSize
  allocatedBytes := 0
  regions := [⟨0x100000, 0x200000⟩]
  vm := .fresh

theorem nineBlocks_disjoint (cells : Nat) :
    (blocksOf maxOrder (nineBlocks cells).freelists).Pairwise Block.Disjoint := by
  have hblocks : blocksOf maxOrder (nineBlocks cells).freelists = (List.range 9).map fun i => ⟨4 * i, 2⟩ := rfl
  rw [hblocks, List.pairwise_map]
  refine List.pairwise_lt_range.imp (fun {i j} hij p hp => ?_)
  have h1 := Block.has_iff.mp hp.1
  have h2 := Block.has_iff.mp hp.2
  have h1 : 4 * i ≤ p ∧ p < 4 * i + 2 ^ 2 := h1
  have h2 : 4 * j ≤ p ∧ p < 4 * j + 2 ^ 2 := h2
  omega

theorem nineBlocks_source (cells : Nat) : Source (nineBlocks cells) 0 2 0 [4, 8, 12, 16, 20, 24, 28, 32] where
  le := by decide
  order_le := by decide
  least := fun j _ hj => if_neg (by omega)
  list := rfl

theorem one_page_of_four : ∃ x m', buddyAllocBlock noSlab (nineBlocks 1) 0 = .ok ((nineBlocks 1).addrOf x, m') ∧
    TakenFrom (nineBlocks 1) m' 0 2 0 [4, 8, 12, 16, 20, 24, 28, 32] x :=
  alloc_takes_smallest noSlab (by decide) (nineBlocks_source 1) (by decide)

/-- Without a node for the right half the call comes back to the allocator in the middle of the split: the slab
    and its own bookkeeping take all the other blocks of the list. -/
theorem split_reenters :
    ¬ ∀ (m : Machine Vm) (t k o : Nat) (rest : List Nat), AlignedLists m →
      (blocksOf maxOrder m.freelists).Pairwise Block.Disjoint → Source m t k o rest →
      ∃ x m', buddyAllocBlock (vmAllocBlockIn (physAlloc 40) .kernelSlab) m t = .ok (m.addrOf x, m') ∧
        TakenFrom m m' t k o rest x := by
  intro h
  obtain ⟨x, m', hrun, htaken⟩ := h (nineBlocks 0) 0 2 0 _ (by decide) (nineBlocks_disjoint 0) (nineBlocks_source 0)
  have hleft : (match buddyAllocBlock (vmAllocBlockIn (physAlloc 40) .kernelSlab) (nineBlocks 0) 0 with
      | .ok r => decide (r.2.freelists 2 = [])
      | .error _ => false) = true := by decide +kernel
  rw [hrun] at hleft
  have hnil : m'.freelists 2 = [] := of_decide_eq_true hleft
  rw [htaken.source] at hnil
  cases hnil

end LearningOS
