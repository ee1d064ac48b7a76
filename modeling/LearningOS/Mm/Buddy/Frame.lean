import LearningOS.Mm.Buddy.PairBits

/-!
# `Mm.Buddy.Frame` — what a free leaves alone

`buddy_free_block` should stay inside `freelists` and never touch `base_addr`, the word right behind the
array: all addresses handed out so far depend on it. The guard of the merging loop increments the order before
it compares it with `MAX_ORDER`, so a block of order `MAX_ORDER` that is merged at all is linked into slot
`MAX_ORDER + 1`. `free_frame` says that this is the one way to leave the array, in every reachable state.
-/

namespace LearningOS

open Word Run Dyadic

variable {V : Type}

/-! ## Indices -/

/-- Started below `MAX_ORDER` the merging loop stays inside the array and ends in it. -/
theorem coalesceLoop_index :
    ∀ (n : Nat) (m : Machine V) (off index : Nat) {ord : Nat}, ord < maxOrder →
      (∀ i, coalesceLoop n m ⟨off, ord, index⟩ ≠ .error (.freelistsIndex i)) ∧
      ∀ m' c, coalesceLoop n m ⟨off, ord, index⟩ = .ok (m', c) → c.coalescedOrder ≤ maxOrder
  | 0, _, _, _, _, _ => by
      refine ⟨fun i h => ?_, fun m' c h => ?_⟩
      · cases h
      · cases h
  | n + 1, m, off, index, ord, hord => by
      simp only [coalesceLoop]
      by_cases hlt : ord + 1 < maxOrder
      · rw [if_pos hlt]
        by_cases hcan : canCoalesce m off (ord + 1) = true
        · rw [if_pos hcan]
          obtain ⟨found, m1, hpop⟩ := popFreelistEntry_total m (buddyPageOffset off (ord + 1)) hlt.le
          rw [hpop, ok_bind]
          cases found with
          | true => exact coalesceLoop_index n _ _ _ hlt
          | false =>
              refine ⟨fun i h => ?_, fun m' c h => ?_⟩
              · cases h
              · cases h
        · rw [if_neg hcan]
          refine ⟨fun i h => ?_, fun m' c h => ?_⟩
          · cases h
          · cases h
            exact hlt.le
      · rw [if_neg hlt]
        refine ⟨fun i h => ?_, fun m' c h => ?_⟩
        · cases h
        · cases h
          exact hord

/-- Below `MAX_ORDER` a merge links its block inside the array. -/
theorem mergeBlock_index (m : Machine V) {o k index buddyOffset : Nat} (hk : k < maxOrder) (i : Nat) :
    mergeBlock m o k index buddyOffset ≠ .error (.freelistsIndex i) := by
  obtain ⟨found, m1, hpop⟩ := popFreelistEntry_total m buddyOffset hk.le
  obtain ⟨hloop, hends⟩ := coalesceLoop_index (maxOrder + 1) (m1.setBit index 0) (min o buddyOffset) index hk
  intro h
  unfold mergeBlock at h
  rw [hpop, ok_bind] at h
  rcases bind_eq_error.mp h with h1 | ⟨⟨m2, c⟩, h1, h2⟩
  · exact hloop i h1
  · have hle := hends m2 c h1
    dsimp only at h2
    rw [if_neg (Nat.not_lt.mpr hle)] at h2
    cases found with
    | true =>
        obtain ⟨m3, hlink⟩ : ∃ m3, linkEntry m2 c.coalescedOrder (storedOffset c.coalescedOffset) = .ok m3 :=
          ⟨_, linkEntry_ok.mpr ⟨hle, rfl⟩⟩
        rw [if_pos rfl, hlink, ok_bind] at h2
        cases h2
    | false => cases h2

/-- Linking a block on its own list stays inside the array. -/
theorem allocateFreelistEntry_index (m : Machine V) {o k : Nat} (hk : k ≤ maxOrder) (i : Nat) :
    allocateFreelistEntry noSlab m o k ≠ .error (.freelistsIndex i) := by
  by_cases hc : 0 < m.freelistCache.cells
  · rw [allocateFreelistEntry_of_cells noSlab hc hk]
    intro h
    cases h
  · unfold allocateFreelistEntry
    rw [slabAlloc_of_empty noSlab (by omega), noSlab, error_bind]
    intro h
    cases h

/-! ## The frame -/

/-- Freeing the block indexes `freelists` inside its bounds, and every address means what it meant before. -/
def FreeFrames (s : Sys V) (b : Block) : Prop :=
  (∀ i, step s (.free b) ≠ .error (.freelistsIndex i)) ∧
    ∀ s', step s (.free b) = .ok s' →
      s'.machine.baseAddr = s.machine.baseAddr ∧ s'.machine.endAddr = s.machine.endAddr ∧
        ∀ o, s'.machine.addrOf o = s.machine.addrOf o

/-- A block of order `MAX_ORDER` whose pair bit is set, in front of `2 ^ MAX_ORDER` usable pages. -/
def TopMerge (m : Machine V) (b : Block) : Prop :=
  b.order = maxOrder ∧ pairBit m maxOrder b.offset = true ∧
    usableAt m maxOrder (b.offset + 2 ^ maxOrder) = true

instance (m : Machine V) (b : Block) : Decidable (TopMerge m b) := by
  unfold TopMerge
  infer_instance

theorem buddyFreeBlock_index {m : Machine V} {b : Block} (hb : Sound m.maxPageOffset b.offset b.order)
    (i : Nat) : buddyFreeBlock noSlab m (m.addrOf b.offset) b.order = .error (.freelistsIndex i) ↔
      TopMerge m b ∧ i = maxOrder + 1 := by
  rw [buddyFreeBlock_eq noSlab hb, bind_eq_error]
  have hno : ∀ m' : Machine V, (.ok (accountFree m' b.order) : Except Fault (Machine V))
      ≠ .error (.freelistsIndex i) := fun m' h => by cases h
  by_cases hf : mergesFirst m (m.addrOf b.offset) b.order = true
  · rw [if_pos hf]
    rcases Nat.lt_or_ge b.order maxOrder with hk | hk
    · constructor
      · rintro (h | ⟨m', -, h⟩)
        · exact absurd h (mergeBlock_index m hk i)
        · exact absurd h (hno m')
      · rintro ⟨⟨htop, -⟩, -⟩
        exact absurd htop hk.ne
    · have htop : b.order = maxOrder := le_antisymm hb.order_le hk
      have hmerge := mergesFirst_eq hb
      rw [hf, htop] at hmerge
      obtain ⟨hbit, hnext⟩ := Bool.and_eq_true_iff.mp hmerge.symm
      rw [htop, mergeBlock_top]
      constructor
      · rintro (h | ⟨m', h, -⟩)
        · cases h
          exact ⟨⟨htop, hbit, hnext⟩, rfl⟩
        · cases h
      · rintro ⟨-, rfl⟩
        exact .inl rfl
  · rw [if_neg hf]
    constructor
    · rintro (h | ⟨m', -, h⟩)
      · rcases bind_eq_error.mp h with h | ⟨m', -, h⟩
        · exact absurd h (allocateFreelistEntry_index m hb.order_le i)
        · cases h
      · exact absurd h (hno m')
    · rintro ⟨⟨htop, hbit, hnext⟩, -⟩
      rw [mergesFirst_eq hb, htop, hbit, hnext] at hf
      exact absurd rfl hf

/-- No allowed step moves the allocator's range. -/
theorem reaches_layout {limit : Nat} {s₀ s : Sys V} (h₀ : Sane s₀) (h : Reaches step (Allowed limit) s₀ s) :
    Sane s ∧ SameLayout s₀.machine s.machine := by
  refine h.invariant (fun s => Sane s ∧ SameLayout s₀.machine s.machine) ⟨h₀, .refl _⟩ ?_
  rintro s a s' ⟨hs, hl⟩ ha hstep
  obtain ⟨removed, added, he⟩ := step_exchange hs ha hstep
  exact ⟨he.sane hs, hl.trans he.effect.layout⟩

theorem freeFrames_iff {s : Sys V} (hs : Sane s) {b : Block} (hb : b ∈ s.live) :
    FreeFrames s b ↔ ¬ TopMerge s.machine b := by
  have hindex := buddyFreeBlock_index (hs.live b hb)
  constructor
  · rintro ⟨hno, -⟩ htop
    exact hno (maxOrder + 1) (bind_eq_error.mpr (.inl ((hindex _).mpr ⟨htop, rfl⟩)))
  · intro htop
    refine ⟨fun i h => ?_, fun s' h => ?_⟩
    · rcases bind_eq_error.mp h with h | ⟨m', -, h⟩
      · exact htop ((hindex i).mp h).1
      · cases h
    · obtain ⟨ord, -, he, -⟩ := free_stepEffect hs hb h
      have hl := he.effect.layout
      exact ⟨hl.baseAddr, hl.endAddr, hl.addrOf⟩

/-- **The frame of `buddy_free_block`.** In every state a client can reach from `buddy_init`, freeing blocks
    of every order, the allocator's range is still the initial one, and freeing a live block stays inside
    `freelists` and keeps the range exactly if the block is not one that merges at `MAX_ORDER`. -/
theorem free_frame {regions : List PhysmemRegion} {vm : V} {poolSlabs baseAddr endAddr : Nat}
    {m₀ : Machine V} {s : Sys V}
    (hinit : buddyInit noSlab regions vm poolSlabs baseAddr endAddr = .ok m₀)
    (hrun : Reaches step (Allowed (maxOrder + 1)) ⟨m₀, []⟩ s) {b : Block} (hb : b ∈ s.live) :
    s.machine.baseAddr = baseAddr ∧ s.machine.endAddr = endAddr ∧
      (FreeFrames s b ↔ ¬ TopMerge s.machine b) := by
  obtain ⟨hboot, -, hbase, hend⟩ := booted_of_buddyInit hinit
  obtain ⟨hs, hl⟩ := reaches_layout hboot.sane hrun
  exact ⟨hl.baseAddr.trans hbase, hl.endAddr.trans hend, freeFrames_iff hs hb⟩

/-- One block of `2 ^ MAX_ORDER` pages at the end of memory can be freed. -/
theorem free_frame_top_block :
    ∃ m₀ s, buddyInit noSlab [⟨0x100000, 0x180000⟩] () 1 0x100000 0x180000 = .ok m₀ ∧
      Reaches step (Allowed (maxOrder + 1)) ⟨m₀, []⟩ s ∧ (⟨0, 7⟩ : Block) ∈ s.live ∧
      s.machine.baseAddr = 0x100000 ∧ ¬ TopMerge s.machine ⟨0, 7⟩ ∧ FreeFrames s ⟨0, 7⟩ := by
  obtain ⟨m₀, s, hinit, hrun, hpost⟩ := exists_of_sample
    (buddyInit noSlab [⟨0x100000, 0x180000⟩] () 1 0x100000 0x180000) (⟨·, []⟩) step
    (fun s a => decide (Allowed (maxOrder + 1) s a)) [.alloc 7]
    (fun _ s => decide ((⟨0, 7⟩ : Block) ∈ s.live ∧ ¬ TopMerge s.machine ⟨0, 7⟩))
    (fun _ _ => of_decide_eq_true) (by decide)
  obtain ⟨h1, h2⟩ := of_decide_eq_true hpost
  obtain ⟨hbase, -, hiff⟩ := free_frame hinit hrun h1
  exact ⟨m₀, s, hinit, hrun, h1, hbase, h2, hiff.mpr h2⟩

/-- Two blocks of `2 ^ MAX_ORDER` pages: freeing the upper and then the lower one writes slot 8. -/
theorem free_writes_past_freelists :
    ∃ m₀ s, buddyInit noSlab [⟨0x100000, 0x200000⟩] () 1 0x100000 0x200000 = .ok m₀ ∧
      Reaches step (Allowed (maxOrder + 1)) ⟨m₀, []⟩ s ∧ (⟨0, 7⟩ : Block) ∈ s.live ∧
      step s (.free ⟨0, 7⟩) = .error (.freelistsIndex 8) ∧ ¬ FreeFrames s ⟨0, 7⟩ := by
  obtain ⟨m₀, s, hinit, hrun, hpost⟩ := exists_of_sample
    (buddyInit noSlab [⟨0x100000, 0x200000⟩] () 1 0x100000 0x200000) (⟨·, []⟩) step
    (fun s a => decide (Allowed (maxOrder + 1) s a)) [.alloc 7, .alloc 7, .free ⟨128, 7⟩]
    (fun _ s => decide ((⟨0, 7⟩ : Block) ∈ s.live) && failsWith (step s (.free ⟨0, 7⟩)) (.freelistsIndex 8))
    (fun _ _ => of_decide_eq_true) (by decide)
  obtain ⟨h1, h2⟩ := Bool.and_eq_true_iff.mp hpost
  have herr := eq_error_of_failsWith h2
  exact ⟨m₀, s, hinit, hrun, of_decide_eq_true h1, herr, fun h => h.1 8 herr⟩

end LearningOS
