import LearningOS.Mm.Buddy.Alloc

/-!
# `Mm.Buddy.Free` — what `buddy_free_block` does

The block either goes on its own list or merges: its buddy leaves the list, then the buddies above it as long
as `__can_coalesce` says so, and the merged block is linked with the node of the first buddy. `coalesceLoop_effect`
is one induction over the loop; `mergeBlock_effect` and `insertBlock_effect` are the two branches. Every merge
leaves all agreements alone as long as the loop ends below `MAX_ORDER`; past that `bmp_index` is stale.
-/

namespace LearningOS

open Word Run Dyadic

variable {V : Type}

/-! ## The decision to merge -/

/-- The block of order `k` at page `o` lies in one usable region. -/
def usableAt (m : Machine V) (k o : Nat) : Bool := isBlockUsable m.regions (m.addrOf o) (2 ^ (pageOrder + k))

theorem canCoalesce_eq {m : Machine V} {k o : Nat} (h : Sound m.maxPageOffset o k) :
    canCoalesce m o k = (pairBit m k o && usableAt m k (buddy k o)) := by
  have ho : o + 2 ^ k < 2 ^ 64 := lt_of_le_of_lt h.fits (by decide)
  unfold canCoalesce usableAt pairBit
  simp only [buddyPageOffset_eq h.aligned ho, bmpGetBit_eq_one, Bool.decide_eq_true]

theorem pairBit_of_mergesFirst {m : Machine V} {k o : Nat} (h : Sound m.maxPageOffset o k)
    (hf : mergesFirst m (m.addrOf o) k = true) : pairBit m k o = true := by
  simp only [mergesFirst, Bool.and_eq_true, decide_eq_true_eq, bmpGetBit_eq_one,
    pageOf_addrOf m (lt_trans h.lt (by decide))] at hf
  exact hf.1

theorem SameLayout.usableAt {m m' : Machine V} (h : SameLayout m m') (k o : Nat) :
    usableAt m' k o = usableAt m k o := by
  unfold LearningOS.usableAt
  rw [h.regions, h.addrOf]

/-! ## One merge -/

/-- The buddy popped and the pair's bit, which was set, cleared. -/
theorem erase_setBit_steady {m m1 : Machine V} (hm : Charted m) {k o : Nat}
    (ho : Sound m.maxPageOffset o k) (hbit : pairBit m k o = true) (hb : buddy k o ∈ m.freelists k)
    (he : SameLayout m m1) (hmap : m1.buddyStateMap = m.buddyStateMap)
    (hf : m1.freelists = Function.update m.freelists k ((m.freelists k).erase (buddy k o))) :
    Flips m (m1.setBit (buddyBmpIndexOf o k) 0) k o ∧ Steady m (m1.setBit (buddyBmpIndexOf o k) 0) := by
  have hb1 : HasBit m1 k o := Sound.hasBit (he.charted hm) (by rw [he.maxPageOffset]; exact ho)
  have hbit1 : pairBit m1 k o = !decide (0 < 0) := by
    unfold pairBit at hbit ⊢
    rw [hmap, hbit]
    rfl
  have hflip := (Flips.setBit hb1 ho.lt64 ho.order_le hbit1).of_map hmap
  refine ⟨hflip, hflip.steady (parent_buddy ho.aligned) (.inl ?_)⟩
  rw [setBit_freelists, hf]
  exact Exchange.erase ho.order_le hb

/-- Levels above a merge are decided as before it. -/
theorem Flips.canCoalesce_eq {m m' : Machine V} {k o j x : Nat} (hf : Flips m m' k o)
    (he : SameLayout m m') (hx : Sound m.maxPageOffset x j) (hkj : k < j) :
    canCoalesce m' x j = canCoalesce m x j := by
  have hx' : Sound m'.maxPageOffset x j := by rw [he.maxPageOffset]; exact hx
  have hne : ¬ (j = k ∧ parent j x = parent k o) := fun hc => by omega
  rw [LearningOS.canCoalesce_eq hx, LearningOS.canCoalesce_eq hx', he.usableAt,
    hf j hx.order_le x hx.lt64, decide_eq_false hne, Bool.xor_false]

/-! ## The loop -/

/-- The block `off` of order `ord` that merging upwards from the block of order `s` at `o` ends in: every
    level passed can be coalesced, and the last one not, unless it is `MAX_ORDER`. -/
structure MergesTo (m : Machine V) (s o ord off : Nat) : Prop where
  le : s ≤ ord
  sound : Sound m.maxPageOffset off ord
  offset : off = baseAt ord o
  passed : ∀ j, s ≤ j → j < ord → canCoalesce m (baseAt j o) j = true
  stopped : ord < maxOrder → canCoalesce m off ord = false

theorem coalesceLoop_effect :
    ∀ (n : Nat) {m m' : Machine V} {off ord index : Nat} {c : Coalesced}, Charted m →
      Sound m.maxPageOffset off (ord + 1) → coalesceLoop n m ⟨off, ord, index⟩ = .ok (m', c) →
      Effect m (buddiesUp off (ord + 1) (c.coalescedOrder - (ord + 1))) [] m' ∧ Steady m m' ∧
        MergesTo m (ord + 1) off c.coalescedOrder c.coalescedOffset ∧
        (c.coalescedOrder < maxOrder → c.bmpIndex = buddyBmpIndexOf c.coalescedOffset c.coalescedOrder)
  | 0, _, _, _, _, _, _, _, _, h => by cases h
  | n + 1, m, m', off, ord, index, c, hm, ho, h => by
      simp only [coalesceLoop] at h
      by_cases hlt : ord + 1 < maxOrder
      · rw [if_pos hlt] at h
        by_cases hcan : canCoalesce m off (ord + 1) = true
        · -- One level up: the buddy leaves its list, the parent goes round again.
          rw [if_pos hcan] at h
          have hbits := canCoalesce_eq ho
          rw [hcan] at hbits
          obtain ⟨hbit, _⟩ := Bool.and_eq_true_iff.mp hbits.symm
          have h64 : off + 2 ^ (ord + 1) < 2 ^ 64 := lt_of_le_of_lt ho.fits (by decide)
          rw [buddyPageOffset_eq ho.aligned h64] at h
          obtain ⟨⟨found, m1⟩, hpop, h⟩ := bind_eq_ok.mp h
          rcases (popFreelistEntry_ok.mp hpop).2 with ⟨rfl, hmem, rfl⟩ | ⟨rfl, -, -⟩
          · simp only [if_true] at h
            have he := Effect.unlink ho.order_le hmem
            have hs := erase_setBit_steady hm ho hbit hmem he.layout rfl rfl
            have he' := he.setBit (buddyBmpIndexOf off (ord + 1)) 0
            have hpar := ho.parent hlt
            rw [min_buddy ho.aligned] at h
            obtain ⟨hre, hrs, hto, hidx⟩ := coalesceLoop_effect n (he'.layout.charted hm)
              (by rw [he'.layout.maxPageOffset]; exact hpar) h
            have hle := hto.le
            refine ⟨?_, hs.2.trans hrs, ?_, hidx⟩
            · have hn : c.coalescedOrder - (ord + 1) = c.coalescedOrder - (ord + 1 + 1) + 1 := by omega
              rw [hn, buddiesUp_succ ho.aligned]
              exact he'.trans hre
            · have hsound : Sound m.maxPageOffset c.coalescedOffset c.coalescedOrder := by
                rw [← he'.layout.maxPageOffset]; exact hto.sound
              have hbase : c.coalescedOffset = baseAt c.coalescedOrder off := by
                rw [hto.offset, baseAt_parent (by omega)]
              refine ⟨by omega, hsound, hbase, ?_, ?_⟩
              · intro j h1 h2
                by_cases hj : j = ord + 1
                · rw [hj, baseAt_of_dvd ho.aligned]
                  exact hcan
                · have := hto.passed j (by omega) h2
                  rw [baseAt_parent (by omega)] at this
                  rw [← hs.1.canCoalesce_eq he'.layout (ho.baseAt (by have := hto.sound.order_le; omega))
                    (by omega)]
                  exact this
              · intro hmax
                rw [← hs.1.canCoalesce_eq he'.layout hsound (by omega)]
                exact hto.stopped hmax
          · cases h
        · rw [if_neg hcan] at h
          cases h
          have hz : ord + 1 - (ord + 1) = 0 := Nat.sub_self _
          dsimp only
          rw [hz]
          exact ⟨.refl m, .refl m, ⟨le_rfl, ho, (baseAt_of_dvd ho.aligned).symm, fun j h1 h2 => by omega,
            fun _ => Bool.eq_false_iff.mpr hcan⟩, fun _ => rfl⟩
      · rw [if_neg hlt] at h
        cases h
        have hz : ord + 1 - (ord + 1) = 0 := Nat.sub_self _
        dsimp only
        rw [hz]
        exact ⟨.refl m, .refl m, ⟨le_rfl, ho, (baseAt_of_dvd ho.aligned).symm, fun j h1 h2 => by omega,
          fun hc => absurd hc hlt⟩, fun hc => absurd hc hlt⟩

/-- At every level a merge from order `k` at `o` passes, the buddy is on its list. -/
def FindsBuddies (m : Machine V) (k o : Nat) : Prop :=
  ∀ j, k ≤ j → j < maxOrder → (∀ i, k ≤ i → i ≤ j → canCoalesce m (baseAt i o) i = true) →
    buddy j (baseAt j o) ∈ m.freelists j

/-- If every buddy is there, the loop returns. -/
theorem coalesceLoop_total :
    ∀ (n : Nat) {m : Machine V} {off ord : Nat} (index : Nat), maxOrder < n + (ord + 1) → Charted m →
      Sound m.maxPageOffset off (ord + 1) → FindsBuddies m (ord + 1) off →
      ∃ r, coalesceLoop n m ⟨off, ord, index⟩ = .ok r
  | 0, m, off, ord, _, hn, _, ho, _ => by
      have := ho.order_le
      omega
  | n + 1, m, off, ord, index, hn, hm, ho, hfind => by
      simp only [coalesceLoop]
      by_cases hlt : ord + 1 < maxOrder
      · rw [if_pos hlt]
        by_cases hcan : canCoalesce m off (ord + 1) = true
        · rw [if_pos hcan]
          have hbits := canCoalesce_eq ho
          rw [hcan] at hbits
          obtain ⟨hbit, _⟩ := Bool.and_eq_true_iff.mp hbits.symm
          have h64 : off + 2 ^ (ord + 1) < 2 ^ 64 := lt_of_le_of_lt ho.fits (by decide)
          have hown : ∀ i, ord + 1 ≤ i → i ≤ ord + 1 → canCoalesce m (baseAt i off) i = true := by
            intro i h1 h2
            rw [(by omega : i = ord + 1), baseAt_of_dvd ho.aligned]
            exact hcan
          have hmem : buddy (ord + 1) off ∈ m.freelists (ord + 1) := by
            have := hfind (ord + 1) le_rfl hlt hown
            rw [baseAt_of_dvd ho.aligned] at this
            exact this
          have hpop := popFreelistEntry_ok.mpr ⟨ho.order_le, .inl ⟨rfl, hmem, rfl⟩⟩
          have he := Effect.unlink ho.order_le hmem
          have hs := erase_setBit_steady hm ho hbit hmem he.layout rfl rfl
          have he' := he.setBit (buddyBmpIndexOf off (ord + 1)) 0
          rw [buddyPageOffset_eq ho.aligned h64, hpop, ok_bind]
          simp only [if_true]
          rw [min_buddy ho.aligned]
          refine coalesceLoop_total n _ (by omega) (he'.layout.charted hm)
            (by rw [he'.layout.maxPageOffset]; exact ho.parent hlt) ?_
          intro j h1 h2 hc
          rw [baseAt_parent (by omega)]
          have hj := hfind j (by omega) h2 (fun i h3 h4 => by
            by_cases hi : i = ord + 1
            · exact hown i h3 (by omega)
            · have := hc i (by omega) h4
              rw [baseAt_parent (by omega),
                hs.1.canCoalesce_eq he'.layout (ho.baseAt (by omega)) (by omega)] at this
              exact this)
          rw [setBit_freelists, slabFree_freelists, setFreelist_freelists,
            Function.update_of_ne (by omega)]
          exact hj
        · rw [if_neg hcan]
          exact ⟨_, rfl⟩
      · rw [if_neg hlt]
        exact ⟨_, rfl⟩

/-! ## The two branches -/

/-- The block goes on its own list. If its pair's bit was clear all agreements stay; if it was set, its
    own pair's agreement is the only one that changes. -/
theorem insertBlock_effect {m : Machine V} (hm : Charted m) {k o : Nat} (ho : Sound m.maxPageOffset o k)
    (hc : 0 < m.freelistCache.cells) :
    Effect m [] [⟨o, k⟩] ((m.addEntry k o).setBit (buddyBmpIndexOf o k) 1) ∧
    (pairBit m k o = false → Steady m ((m.addEntry k o).setBit (buddyBmpIndexOf o k) 1)) ∧
    (∀ k' ≤ maxOrder, ∀ o' < 2 ^ 64, ¬ (k' = k ∧ parent k' o' = parent k o) →
      defect ((m.addEntry k o).setBit (buddyBmpIndexOf o k) 1) k' o' = defect m k' o') := by
  have he := Effect.addEntry hc ho.order_le ho.stored
  have hb : HasBit (m.addEntry k o) k o := Sound.hasBit (m := m.addEntry k o) (he.layout.charted hm) ho
  refine ⟨he.setBit _ 1, fun hbit => ?_, fun k' hk' o' ho' hne => ?_⟩
  · have hflip := Flips.setBit (v := 1) hb ho.lt64 ho.order_le hbit
    exact (hflip.of_map (m := m) rfl).steady rfl (.inr he.lists)
  · have h0 : pairHit k' o' k o = 0 := if_neg fun hh => hne ⟨hh.1.symm, by rw [hh.1]; exact hh.2.symm ▸ rfl⟩
    have hcount := he.lists (pairHit k' o')
    simp only [total_nil, total_cons, h0] at hcount
    have hbit := pairBit_setBit 1 hb ho.lt64 ho' ho.order_le hk'
    rw [if_neg hne] at hbit
    unfold defect
    rw [hbit]
    unfold pairCount
    rw [setBit_freelists, show weigh maxOrder (pairHit k' o') (m.addEntry k o).freelists
      = weigh maxOrder (pairHit k' o') m.freelists from hcount]
    rfl

/-- The block merges, first with its buddy and then upwards. -/
theorem mergeBlock_effect {m m' : Machine V} (hm : Charted m) {k o : Nat} (ho : Sound m.maxPageOffset o k)
    (hk : k < maxOrder) (hbit : pairBit m k o = true)
    (h : mergeBlock m o k (buddyBmpIndexOf o k) (buddy k o) = .ok m') :
    ∃ ord, buddy k o ∈ m.freelists k ∧ MergesTo m (k + 1) o ord (baseAt ord o) ∧
      Effect m (buddiesUp o k (ord - k)) [⟨baseAt ord o, ord⟩] m' ∧ (ord < maxOrder → Steady m m') := by
  unfold mergeBlock at h
  obtain ⟨⟨found, m1⟩, hpop, h1⟩ := bind_eq_ok.mp h
  obtain ⟨⟨m2, c⟩, hloop, h2⟩ := bind_eq_ok.mp h1
  dsimp only at hloop h2
  rcases (popFreelistEntry_ok.mp hpop).2 with ⟨rfl, hmem, rfl⟩ | ⟨rfl, -, -⟩
  · have hlay := SameLayout.setFreelist m k ((m.freelists k).erase (buddy k o))
    have hs := erase_setBit_steady hm ho hbit hmem hlay rfl rfl
    have he1 := (Effect.refl (m.setFreelist k ((m.freelists k).erase (buddy k o)))).setBit
      (buddyBmpIndexOf o k) 0
    rw [min_buddy ho.aligned] at hloop
    obtain ⟨he2, hs2, hto, hidx⟩ := coalesceLoop_effect (maxOrder + 1)
      (he1.layout.charted (hlay.charted hm)) (ho.parent hk) hloop
    have hlay1 := hlay.trans he1.layout
    have hle := hto.le
    have hsound : Sound m.maxPageOffset c.coalescedOffset c.coalescedOrder := by
      rw [← hlay1.maxPageOffset]; exact hto.sound
    have hoff : c.coalescedOffset = baseAt c.coalescedOrder o := by
      rw [hto.offset, baseAt_parent (by omega)]
    rw [if_neg (Nat.not_lt.mpr hsound.order_le), if_pos rfl, hsound.stored] at h2
    obtain ⟨m3, hlink, h3⟩ := bind_eq_ok.mp h2
    obtain ⟨hord, rfl⟩ := linkEntry_ok.mp hlink
    cases h3
    refine ⟨c.coalescedOrder, hmem, ⟨hle, hoff ▸ hsound, rfl, ?_, ?_⟩, ?_, ?_⟩
    · intro j h1 h2
      have := hto.passed j h1 h2
      rw [baseAt_parent (by omega)] at this
      rw [← hs.1.canCoalesce_eq hlay1 (ho.baseAt (by omega)) (by omega)]
      exact this
    · intro hmax
      rw [← hoff, ← hs.1.canCoalesce_eq hlay1 hsound (by omega)]
      exact hto.stopped hmax
    · have hn : c.coalescedOrder - k = c.coalescedOrder - (k + 1) + 1 := by omega
      have he := Effect.relink (x := c.coalescedOffset) (Exchange.erase ho.order_le hmem) (he1.trans he2) hord
      rw [hn, buddiesUp_succ ho.aligned, ← hoff]
      exact he.toggleBit _
    · intro hmax
      have hlay2 := hlay1.trans he2.layout
      rw [hidx hmax]
      refine (hs.2.trans hs2).trans (link_toggleBit_steady (hlay2.charted hm) ?_)
      rw [hlay2.maxPageOffset]
      exact hsound
  · rw [if_neg (Bool.false_ne_true)] at h2
    split at h2 <;> cases h2

/-- At `MAX_ORDER` the guard of the loop increments the order past the array before it fails. -/
theorem mergeBlock_top (m : Machine V) (o index buddyOffset : Nat) :
    mergeBlock m o maxOrder index buddyOffset = .error (.freelistsIndex (maxOrder + 1)) := by
  obtain ⟨found, m1, hpop⟩ := popFreelistEntry_total m buddyOffset (le_refl maxOrder)
  unfold mergeBlock
  rw [hpop, ok_bind]
  rfl

theorem mergeBlock_total {m : Machine V} (hm : Charted m) {k o : Nat} (ho : Sound m.maxPageOffset o k)
    (hk : k < maxOrder) (hbit : pairBit m k o = true) (hmem : buddy k o ∈ m.freelists k)
    (hfind : FindsBuddies m (k + 1) o) :
    ∃ m', mergeBlock m o k (buddyBmpIndexOf o k) (buddy k o) = .ok m' := by
  have hpop := popFreelistEntry_ok.mpr ⟨ho.order_le, .inl ⟨rfl, hmem, rfl⟩⟩
  have hlay := SameLayout.setFreelist m k ((m.freelists k).erase (buddy k o))
  have hs := erase_setBit_steady hm ho hbit hmem hlay rfl rfl
  have he1 := (Effect.refl (m.setFreelist k ((m.freelists k).erase (buddy k o)))).setBit
    (buddyBmpIndexOf o k) 0
  have hlay1 := hlay.trans he1.layout
  obtain ⟨⟨m2, c⟩, hloop⟩ := coalesceLoop_total (maxOrder + 1) (buddyBmpIndexOf o k)
    (by omega : maxOrder < maxOrder + 1 + (k + 1)) (hlay1.charted hm) (ho.parent hk) (by
      intro j h1 h2 hc
      rw [baseAt_parent (by omega), setBit_freelists, setFreelist_freelists,
        Function.update_of_ne (by omega)]
      refine hfind j h1 h2 (fun i h3 h4 => ?_)
      have := hc i h3 h4
      rw [baseAt_parent (by omega), hs.1.canCoalesce_eq hlay1 (ho.baseAt (by omega)) (by omega)] at this
      exact this)
  obtain ⟨-, -, hto, -⟩ := coalesceLoop_effect (maxOrder + 1) (hlay1.charted hm) (ho.parent hk) hloop
  have hord := hto.sound.order_le
  unfold mergeBlock
  rw [hpop, ok_bind, min_buddy ho.aligned]
  dsimp only
  rw [hloop, ok_bind]
  dsimp only
  rw [if_neg (Nat.not_lt.mpr hord), if_pos rfl, linkEntry_ok.mpr ⟨hord, rfl⟩, ok_bind]
  exact ⟨_, rfl⟩

/-! ## The whole function -/

/-- `buddy_free_block` of the block of order `k` at page `o` is one branch or the other, then accounting. -/
theorem buddyFreeBlock_eq {m : Machine V} {k o : Nat} (create : Callback V)
    (ho : Sound m.maxPageOffset o k) :
    buddyFreeBlock create m (m.addrOf o) k =
      (if mergesFirst m (m.addrOf o) k then mergeBlock m o k (buddyBmpIndexOf o k) (buddy k o)
        else allocateFreelistEntry create m o k >>= fun m' => .ok (m'.setBit (buddyBmpIndexOf o k) 1)) >>=
        fun m' => .ok (accountFree m' k) := by
  have hp : m.pageOf (m.addrOf o) = o := pageOf_addrOf m (lt_trans ho.lt (by decide))
  have h64 : o + 2 ^ k < 2 ^ 64 := lt_of_le_of_lt ho.fits (by decide)
  simp only [buddyFreeBlock, hp, buddyPageOffset_eq ho.aligned h64]

theorem buddyFreeBlock_ok {m m' : Machine V} {k o : Nat} (ho : Sound m.maxPageOffset o k)
    (h : buddyFreeBlock noSlab m (m.addrOf o) k = .ok m') :
    ∃ m1, m' = accountFree m1 k ∧
      (mergesFirst m (m.addrOf o) k = true ∧
          mergeBlock m o k (buddyBmpIndexOf o k) (buddy k o) = .ok m1 ∨
        mergesFirst m (m.addrOf o) k = false ∧ 0 < m.freelistCache.cells ∧
          m1 = (m.addEntry k o).setBit (buddyBmpIndexOf o k) 1) := by
  rw [buddyFreeBlock_eq noSlab ho] at h
  obtain ⟨m1, h1, h2⟩ := bind_eq_ok.mp h
  refine ⟨m1, (Except.ok.inj h2).symm, ?_⟩
  by_cases hf : mergesFirst m (m.addrOf o) k = true
  · rw [if_pos hf] at h1
    exact .inl ⟨hf, h1⟩
  · rw [if_neg hf] at h1
    obtain ⟨m2, h3, h4⟩ := bind_eq_ok.mp h1
    obtain ⟨hc, -, rfl⟩ := allocateFreelistEntry_ok.mp h3
    exact .inr ⟨Bool.eq_false_iff.mpr hf, hc, (Except.ok.inj h4).symm⟩

/-- **`buddy_free_block`, list by list.** The block and the buddies it merges with become one block. -/
theorem buddyFreeBlock_effect {m m' : Machine V} (hm : Charted m) {k o : Nat}
    (ho : Sound m.maxPageOffset o k) (h : buddyFreeBlock noSlab m (m.addrOf o) k = .ok m') :
    ∃ ord m1, m' = accountFree m1 k ∧ k ≤ ord ∧ Sound m.maxPageOffset (baseAt ord o) ord ∧
      Effect m (buddiesUp o k (ord - k)) [⟨baseAt ord o, ord⟩] m1 ∧
      (mergesFirst m (m.addrOf o) k = true ∧ MergesTo m (k + 1) o ord (baseAt ord o) ∨
        mergesFirst m (m.addrOf o) k = false ∧ ord = k) := by
  obtain ⟨m1, hm', ⟨hf, hmerge⟩ | ⟨hf, hc, rfl⟩⟩ := buddyFreeBlock_ok ho h
  · have hk : k < maxOrder := by
      refine lt_of_le_of_ne ho.order_le (fun htop => ?_)
      rw [htop, mergeBlock_top] at hmerge
      cases hmerge
    obtain ⟨ord, -, hto, he, -⟩ := mergeBlock_effect hm ho hk (pairBit_of_mergesFirst ho hf) hmerge
    exact ⟨ord, m1, hm', by have := hto.le; omega, hto.sound, he, .inl ⟨hf, hto⟩⟩
  · refine ⟨k, _, hm', le_rfl, ?_, ?_, .inr ⟨hf, rfl⟩⟩
    · rw [baseAt_of_dvd ho.aligned]
      exact ho
    · rw [baseAt_of_dvd ho.aligned, Nat.sub_self]
      exact (insertBlock_effect hm ho hc).1

/-- It returns if every buddy it looks for is there and a node is left for the other branch. -/
theorem buddyFreeBlock_total {m : Machine V} (hm : Charted m) {k o : Nat} (ho : Sound m.maxPageOffset o k)
    (hk : k < maxOrder)
    (hmerge : mergesFirst m (m.addrOf o) k = true → buddy k o ∈ m.freelists k ∧ FindsBuddies m (k + 1) o)
    (hnode : mergesFirst m (m.addrOf o) k = false → 0 < m.freelistCache.cells) :
    ∃ m', buddyFreeBlock noSlab m (m.addrOf o) k = .ok m' := by
  rw [buddyFreeBlock_eq noSlab ho]
  by_cases hf : mergesFirst m (m.addrOf o) k = true
  · obtain ⟨hmem, hfind⟩ := hmerge hf
    obtain ⟨m1, h1⟩ := mergeBlock_total hm ho hk (pairBit_of_mergesFirst ho hf) hmem hfind
    rw [if_pos hf, h1, ok_bind]
    exact ⟨_, rfl⟩
  · have hc := hnode (Bool.eq_false_iff.mpr hf)
    rw [if_neg hf, allocateFreelistEntry_of_cells noSlab hc ho.order_le, ok_bind, ok_bind]
    exact ⟨_, rfl⟩

end LearningOS
