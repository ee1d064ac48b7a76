import LearningOS.Mm.Buddy.Placement

/-!
# `Mm.Buddy.PairBits` — when the pair bitmap is exact

`buddy_state_map` is meant to hold, for each pair of buddies, the exclusive or of their states. This module
follows that through whole runs. Allocations and shrinks always keep it. A free keeps it unless it does one of
two things (`KeepsBits` rules both out): it leaves a block unmerged although its buddy is free, because the
block *after* it is not usable, or its merges reach `MAX_ORDER`, where `bmp_index` is stale.

`pair_bits_exact` is the invariant over runs that do neither; `merge_finds_buddy` is what it is for: a merge
decided by the bit finds its buddy on the list. Two short runs show that both fail without the condition.
-/

namespace LearningOS

open Word Run Dyadic

variable {V : Type}

/-! ## The condition on a free -/

/-- The pages after the block, which the first merge of `buddy_free_block` tests for usability. -/
theorem add64_addrOf (m : Machine V) (o k : Nat) :
    add64 (m.addrOf o) (2 ^ (pageOrder + k)) = m.addrOf (o + 2 ^ k) := by
  unfold Machine.addrOf add64 shl64
  rw [Nat.shiftLeft_eq, Nat.shiftLeft_eq, Nat.add_mul, pow_add, Nat.mul_comm (2 ^ pageOrder)]
  omega

theorem mergesFirst_eq {m : Machine V} {k o : Nat} (h : Sound m.maxPageOffset o k) :
    mergesFirst m (m.addrOf o) k = (pairBit m k o && usableAt m k (o + 2 ^ k)) := by
  unfold mergesFirst usableAt pairBit
  simp only [pageOf_addrOf m (lt_trans h.lt (by decide)), bmpGetBit_eq_one, Bool.decide_eq_true, add64_addrOf]

/-- Freeing the block leaves the pair bits right: its own bit says that the buddy is not free; or the block
    merges and some level below `MAX_ORDER` stops the merging; or its parent is not usable anyway. -/
def KeepsBits (m : Machine V) (b : Block) : Prop :=
  pairBit m b.order b.offset = false ∨
  (mergesFirst m (m.addrOf b.offset) b.order = true ∧
    ∃ j ∈ List.range maxOrder, b.order < j ∧ canCoalesce m (baseAt j b.offset) j = false) ∨
  (mergesFirst m (m.addrOf b.offset) b.order = false ∧
    usableAt m (b.order + 1) (parent b.order b.offset) = false)

instance (m : Machine V) (b : Block) : Decidable (KeepsBits m b) := by
  unfold KeepsBits
  infer_instance

/-- The condition as one on calls. -/
def SafeFree (s : Sys V) : Act → Prop
  | .free b => KeepsBits s.machine b
  | _ => True

instance (s : Sys V) (a : Act) : Decidable (SafeFree s a) :=
  match a with
  | .alloc _ => inferInstanceAs (Decidable True)
  | .free b => inferInstanceAs (Decidable (KeepsBits s.machine b))
  | .shrink _ _ => inferInstanceAs (Decidable True)

/-- An allowed call that keeps the bits. -/
def AllowedSafe (s : Sys V) (a : Act) : Prop := Allowed maxOrder s a ∧ SafeFree s a

instance (s : Sys V) (a : Act) : Decidable (AllowedSafe s a) :=
  inferInstanceAs (Decidable (Allowed maxOrder s a ∧ SafeFree s a))

/-! ## Exactness -/

/-- The bits of the pairs up to order `K` with a usable parent agree with the lists. -/
def ExactUpTo (K : Nat) (m : Machine V) : Prop :=
  ∀ k ≤ K, ∀ q < 2 ^ 64, 2 ^ (k + 1) ∣ q → usableAt m (k + 1) q = true → defect m k q = false

/-- The states the argument goes through. -/
structure Tidy (K : Nat) (s : Sys V) : Prop where
  sane : Sane s
  conserved : Conserved s
  orderly : Orderly s.machine
  exact : ExactUpTo K s.machine

theorem defect_parent {m : Machine V} {k o : Nat} (hk : k ≤ maxOrder) (ho : o < 2 ^ 64) :
    defect m k (parent k o) = defect m k o := by
  have hpp : parent k (parent k o) = parent k o := parent_of_left (parent_dvd k o)
  have hb : pairBit m k (parent k o) = pairBit m k o :=
    pairBit_congr hk (lt_of_le_of_lt (parent_le k o) ho) ho hpp
  have hc : pairCount m k (parent k o) = pairCount m k o := by
    unfold pairCount pairHit
    rw [hpp]
  unfold defect
  rw [hb, hc]

theorem defect_setCounters (m : Machine V) (free alloc k o : Nat) :
    defect (m.setCounters free alloc) k o = defect m k o := rfl

theorem ExactUpTo.setCounters {K : Nat} {m : Machine V} (h : ExactUpTo K m) (free alloc : Nat) :
    ExactUpTo K (m.setCounters free alloc) := by
  intro k hk q hq hd hu
  rw [defect_setCounters]
  exact h k hk q hq hd hu

theorem Steady.exactUpTo {K : Nat} {m m' : Machine V} (hK : K ≤ maxOrder) (h : Steady m m')
    (hl : SameLayout m m') (he : ExactUpTo K m) : ExactUpTo K m' := by
  intro k hk q hq hd hu
  rw [h k (hk.trans hK) q hq]
  exact he k hk q hq hd (by rw [← hl.usableAt]; exact hu)

/-- Pairs with no listed half and a clear bit are exact. -/
theorem defect_of_not_listed {m : Machine V} (hl : SoundLists m) {k q : Nat} (hk : k ≤ maxOrder)
    (hq : 2 ^ (k + 1) ∣ q) (hb : pairBit m k q = false) (h1 : q ∉ m.freelists k)
    (h2 : q + 2 ^ k ∉ m.freelists k) : defect m k q = false := by
  unfold defect
  rw [pairCount_eq hl hk hq, List.count_eq_zero.mpr h1, List.count_eq_zero.mpr h2, hb]
  rfl

theorem Booted.mem_initialBlocks {m : Machine V} (h : Booted m) (hp : m.maxPageOffset ≤ 2 ^ 24) {k o : Nat}
    (hk : k ≤ maxOrder) : o ∈ m.freelists k ↔ (⟨o, k⟩ : Block) ∈ initialBlocks m := by
  have hc := h.lists (tally ⟨o, k⟩)
  rw [weigh_tally, if_pos hk, map_storedBlock_initialBlocks hp, total_tally] at hc
  rw [← List.count_pos_iff, ← List.count_pos_iff, ← hc]

/-- Below `MAX_ORDER` `buddy_init` lists no half of a usable pair. -/
theorem Booted.exact_below {m : Machine V} (h : Booted m) (ho : Orderly m) {k q : Nat} (hk : k < maxOrder)
    (hq : 2 ^ (k + 1) ∣ q) (hu : usableAt m (k + 1) q = true) : defect m k q = false := by
  have hpos := Nat.two_pow_pos k
  refine defect_of_not_listed h.soundLists hk.le hq (h.bits k q) ?_ ?_
  · intro hmem
    have hb := (h.mem_initialBlocks ho.pages hk.le).mp hmem
    have := (initialBlocks_unmergeable ho.noWrap ho.separated ho.pages hb hk).2
    rw [hu] at this
    cases this
  · intro hmem
    have hb := (h.mem_initialBlocks ho.pages hk.le).mp hmem
    have hd : 2 ^ (k + 1) ∣ q + 2 ^ k :=
      (initialBlocks_unmergeable ho.noWrap ho.separated ho.pages hb hk).1
    have hdk : 2 ^ (k + 1) ∣ 2 ^ k := (Nat.dvd_add_right hq).mp hd
    have := Nat.le_of_dvd hpos hdk
    have := two_pow_succ' k
    omega

/-- At `MAX_ORDER` it lists both halves of a usable pair, as long as no region reaches past the range. -/
theorem Booted.exact_top {m : Machine V} (h : Booted m) (ho : Orderly m) (he64 : m.endAddr < 2 ^ 64)
    (hend : ∀ r ∈ m.regions, r.regionEnd ≤ m.endAddr) {q : Nat} (hq : 2 ^ (maxOrder + 1) ∣ q)
    (hu : usableAt m (maxOrder + 1) q = true) : defect m maxOrder q = false := by
  by_cases hlt : q < 2 ^ 24
  · have hfit : q + 2 ^ (maxOrder + 1) ≤ 2 ^ 24 := add_two_pow_le (by decide) hq hlt
    have h256 : (2 : Nat) ^ (maxOrder + 1) = 256 := by decide
    have h128 : (2 : Nat) ^ maxOrder = 128 := by decide
    rw [usableAt_eq] at hu
    -- The parent ends inside the range, so both its windows were gone through.
    obtain ⟨r, hr, -, hr2⟩ := (usablePages_iff ho.noWrap hfit).mp hu
    have hpages : q + 256 ≤ m.maxPageOffset := by
      have hle := hr2.trans (hend r hr)
      rw [h256] at hle
      have hbase : m.baseAddr ≤ m.endAddr := le_trans (Nat.le_add_right _ _) hle
      unfold Machine.maxPageOffset
      rw [sub64_of_le he64 hbase, Nat.shiftRight_eq_div_pow, Nat.le_div_iff_mul_le (by decide)]
      exact Nat.le_sub_of_add_le' hle
    have hlisted : ∀ w, w * 128 = q ∨ w * 128 = q + 128 → w * 128 ∈ m.freelists maxOrder := by
      intro w hw
      rw [h.mem_initialBlocks ho.pages le_rfl, LearningOS.mem_initialBlocks]
      refine ⟨w, by unfold numWindows; omega, ?_⟩
      have hwin : windowOf m w = 2 ^ maxOrder := by
        refine windowOf_of_usable ?_
        rw [usableAt_eq]
        exact usablePages_mono ho.noWrap hfit hu (by rw [h128]; omega) (by rw [h128, h256]; omega)
      rw [hwin, pieces_two_pow, h128]
      exact List.mem_singleton.mpr rfl
    rw [h256] at hq
    obtain ⟨v, rfl⟩ := hq
    have hsane := h.sane
    have hc := h.conserved ho.pages
    have h1 := hlisted (2 * v) (.inl (by omega))
    have h2 := hlisted (2 * v + 1) (.inr (by omega))
    rw [(by omega : 2 * v * 128 = 256 * v)] at h1
    rw [(by omega : (2 * v + 1) * 128 = 256 * v + 128)] at h2
    have hc1 := hc.count_le_one (k := maxOrder) (o := 256 * v) le_rfl
    have hc2 := hc.count_le_one (k := maxOrder) (o := 256 * v + 128) le_rfl
    have hp1 := List.count_pos_iff.mpr h1
    have hp2 := List.count_pos_iff.mpr h2
    dsimp only at hc1 hc2
    unfold defect
    rw [h.bits, pairCount_eq h.soundLists le_rfl (by rw [h256]; exact Dvd.intro _ rfl), h128]
    have : (List.count (256 * v) (m.freelists maxOrder)
        + List.count (256 * v + 128) (m.freelists maxOrder)) % 2 = 0 := by omega
    rw [this]
    rfl
  · refine defect_of_not_listed h.soundLists le_rfl hq (h.bits _ _) ?_ ?_
    · intro hmem
      have := (h.soundLists maxOrder le_rfl _ hmem).lt
      omega
    · intro hmem
      have := (h.soundLists maxOrder le_rfl _ hmem).lt
      omega

/-! ## Steps -/

/-- A free that keeps the bits keeps exactness. -/
theorem free_exactUpTo {K : Nat} {s : Sys V} (hK : K ≤ maxOrder) (ht : Tidy K s) {b : Block}
    (hb : b ∈ s.live) (hbo : b.order < maxOrder) (hkeep : KeepsBits s.machine b) {m' : Machine V}
    (h : buddyFreeBlock noSlab s.machine (s.machine.addrOf b.offset) b.order = .ok m') :
    ExactUpTo K m' := by
  have hs := ht.sane.live b hb
  obtain ⟨m1, rfl, ⟨hf, hmerge⟩ | ⟨hf, hc, rfl⟩⟩ := buddyFreeBlock_ok hs h
  · have hbit := pairBit_of_mergesFirst hs hf
    obtain ⟨ord, -, hto, he, hsteady⟩ := mergeBlock_effect ht.sane.charted hs hbo hbit hmerge
    rcases hkeep with h0 | ⟨-, j, hj7, hj, hstop⟩ | ⟨hf', -⟩
    · rw [hbit] at h0
      cases h0
    · have hord : ord < maxOrder := by
        by_contra hge
        have := hto.passed j hj (by have := List.mem_range.mp hj7; omega)
        rw [hstop] at this
        cases this
      exact ((hsteady hord).exactUpTo hK he.layout ht.exact).setCounters _ _
    · rw [hf] at hf'
      cases hf'
  · obtain ⟨he, hsteady, hother⟩ := insertBlock_effect ht.sane.charted hs hc
    refine ExactUpTo.setCounters ?_ _ _
    intro k hk q hq hd hu
    have hu' : usableAt s.machine (k + 1) q = true := by
      rw [← he.layout.usableAt]
      exact hu
    by_cases hown : k = b.order ∧ parent k q = parent b.order b.offset
    · -- Its own pair: by the condition the bit was clear, or the parent is not usable.
      obtain ⟨rfl, hp⟩ := hown
      rw [parent_of_left hd] at hp
      rcases hkeep with h0 | ⟨hf', -⟩ | ⟨-, hun⟩
      · exact (hsteady h0).exactUpTo hK he.layout ht.exact _ hk q hq hd hu
      · rw [hf] at hf'
        cases hf'
      · rw [← hp, hu'] at hun
        cases hun
    · rw [hother k (hk.trans hK) q hq hown]
      exact ht.exact k hk q hq hd hu'

/-- A live block has nothing listed inside it. -/
theorem Conserved.freshInside {s : Sys V} (h : Conserved s) (hs : Sane s) {b : Block} (hb : b ∈ s.live) :
    FreshInside s.machine b.order b.offset := by
  intro j hj x hx
  have hsound := hs.live b hb
  have hj7 : j ≤ maxOrder := hj.le.trans hsound.order_le
  have hpar : baseAt b.order (parent j x) = b.offset := (baseAt_parent hj x).trans hx
  have hpd := parent_dvd j x
  have hpp : pairCount s.machine j x = pairCount s.machine j (parent j x) := by
    unfold pairCount pairHit
    rw [parent_of_left hpd]
  have hin : ∀ y, baseAt b.order y = b.offset → b.has y = true := by
    intro y hy
    have hdm := Nat.div_add_mod y (2 ^ b.order)
    have hmod := Nat.mod_lt y (Nat.two_pow_pos b.order)
    rw [baseAt, Nat.mul_comm] at hy
    exact Block.has_iff.mpr ⟨by omega, by omega⟩
  have hright : baseAt b.order (parent j x + 2 ^ j) = b.offset := by
    rw [← hpar, ← baseAt_parent hj (parent j x + 2 ^ j), parent_of_right hpd]
  have hpos := Nat.two_pow_pos j
  have hself : ∀ o, (⟨o, j⟩ : Block).has o = true :=
    fun o => Block.has_iff.mpr ⟨le_rfl, Nat.lt_add_of_pos_right hpos⟩
  rw [hpp, pairCount_eq hs.lists hj7 hpd, List.count_eq_zero.mpr (h.not_listed hb hj7 (hin _ hpar) (hself _)),
    List.count_eq_zero.mpr (h.not_listed hb hj7 (hin _ hright) (hself _))]

theorem step_tidy {K : Nat} {s s' : Sys V} {a : Act} (hK : K ≤ maxOrder) (ht : Tidy K s)
    (ha : AllowedSafe s a) (h : step s a = .ok s') : Tidy K s' := by
  obtain ⟨ha, hsafe⟩ := ha
  obtain ⟨removed, added, he⟩ := step_exchange ht.sane ha h
  refine ⟨he.sane ht.sane, he.conserved ht.conserved, he.effect.layout.orderly ht.orderly, ?_⟩
  cases a with
  | alloc t =>
      obtain ⟨k, o, rest, x, m1, hsrc, htake, -, rfl⟩ := step_alloc ht.sane ha.2 h
      have hsteady := (takeBlock_effect ht.sane.charted ht.sane.lists hsrc htake).2
      have hlay : SameLayout s.machine m1 := by
        rcases (takeBlock_effect ht.sane.charted ht.sane.lists hsrc htake).1 with ⟨-, -, h1⟩ | ⟨-, -, h1⟩
        · exact h1.layout
        · exact h1.layout
      exact (hsteady.exactUpTo hK hlay ht.exact).setCounters _ _
  | free b =>
      obtain ⟨m', h1, rfl⟩ := step_free h
      exact free_exactUpTo hK ht ha.1 ha.2 hsafe h1
  | shrink b n =>
      obtain ⟨m1, hloop, he1, rfl⟩ := step_shrink ht.sane ha h
      obtain ⟨hb, h1, h2⟩ := ha
      have hsound := ht.sane.live b hb
      have hdef := shrinkLoop_defect b.order 256 hloop (lt_of_le_of_lt hsound.order_le (by decide)) h1 h2
        ht.sane.charted hsound (ht.conserved.freshInside ht.sane hb)
      refine ExactUpTo.setCounters ?_ _ _
      intro k hk q hq hd hu
      refine hdef k (hk.trans hK) q hq (ht.exact k hk q hq hd ?_)
      rw [← he1.layout.usableAt]
      exact hu

/-- The bit of a pair is the exclusive or of its halves' states. -/
def PairExact (m : Machine V) (k q : Nat) : Prop :=
  bmpGetBit m.buddyStateMap (buddyBmpIndexOf q k)
    = (decide (q ∈ m.freelists k) ^^ decide (q + 2 ^ k ∈ m.freelists k)).toNat

instance (m : Machine V) (k q : Nat) : Decidable (PairExact m k q) :=
  inferInstanceAs (Decidable (_ = _))

theorem decide_mem_eq {l : List Nat} {o : Nat} (h : l.count o ≤ 1) :
    decide (o ∈ l) = decide (l.count o = 1) := by
  by_cases hm : o ∈ l
  · have := List.count_pos_iff.mpr hm
    simp [hm, (by omega : l.count o = 1)]
  · simp [hm, List.count_eq_zero.mpr hm]

/-- In a tidy state the bits that count are exclusive ors. -/
theorem Tidy.pairExact {K : Nat} {s : Sys V} (hK : K ≤ maxOrder) (ht : Tidy K s) {k q : Nat} (hk : k ≤ K)
    (hq : q < 2 ^ 64) (hd : 2 ^ (k + 1) ∣ q) (hu : usableAt s.machine (k + 1) q = true) :
    PairExact s.machine k q := by
  have hk7 := hk.trans hK
  have hdef := ht.exact k hk q hq hd hu
  have h1 := ht.conserved.count_le_one (o := q) hk7
  have h2 := ht.conserved.count_le_one (o := q + 2 ^ k) hk7
  unfold defect at hdef
  rw [pairCount_eq ht.sane.lists hk7 hd] at hdef
  unfold PairExact
  rw [bmpGetBit_eq, ← pairBit, decide_mem_eq h1, decide_mem_eq h2]
  rcases Nat.le_one_iff_eq_zero_or_eq_one.mp h1 with hc1 | hc1 <;>
    rcases Nat.le_one_iff_eq_zero_or_eq_one.mp h2 with hc2 | hc2 <;>
    simp [hc1, hc2] at hdef ⊢ <;> simp [hdef]

/-! ## The bitmap over runs -/

theorem orderly_of_buddyInit {regions : List PhysmemRegion} {vm : V} {poolSlabs baseAddr endAddr : Nat}
    {m₀ : Machine V} (hinit : buddyInit noSlab regions vm poolSlabs baseAddr endAddr = .ok m₀)
    (hpages : m₀.maxPageOffset ≤ 2 ^ 24) (hwrap : baseAddr + 2 ^ 36 < 2 ^ 64) (hsep : Separated regions) :
    Orderly m₀ := by
  obtain ⟨-, hr, hbase, -⟩ := booted_of_buddyInit hinit
  refine ⟨?_, ?_, hpages⟩
  · unfold NoWrap
    rw [hbase]
    exact hwrap
  · rw [hr]
    exact hsep

/-- Below `MAX_ORDER` every run that keeps the bits stays tidy. -/
theorem tidy_of_reaches {m₀ : Machine V} {s : Sys V} (hb : Booted m₀) (ho : Orderly m₀)
    (hrun : Reaches step AllowedSafe ⟨m₀, []⟩ s) : Tidy 6 s := by
  refine hrun.invariant (Tidy 6) ⟨hb.sane, hb.conserved ho.pages, ho, ?_⟩
    (fun s a s' hs ha hstep => step_tidy (by decide) hs ha hstep)
  exact fun k hk q _ hd hu => hb.exact_below ho (Nat.lt_succ_of_le hk) hd hu

/-- **The pair bitmap is exact in every state of a run whose frees keep the bits**, over regions that neither
    touch nor reach past the allocator's range: the bit of every pair with a usable parent is the exclusive
    or of its two halves being listed. -/
theorem pair_bits_exact {regions : List PhysmemRegion} {vm : V} {poolSlabs baseAddr endAddr : Nat}
    {m₀ : Machine V} {s : Sys V}
    (hinit : buddyInit noSlab regions vm poolSlabs baseAddr endAddr = .ok m₀)
    (hpages : m₀.maxPageOffset ≤ 2 ^ 24) (hwrap : baseAddr + 2 ^ 36 < 2 ^ 64) (he64 : endAddr < 2 ^ 64)
    (hsep : Separated regions) (hend : ∀ r ∈ regions, r.regionEnd ≤ endAddr)
    (hrun : Reaches step AllowedSafe ⟨m₀, []⟩ s) :
    ∀ k ≤ maxOrder, ∀ q < 2 ^ 64, 2 ^ (k + 1) ∣ q → usableAt s.machine (k + 1) q = true →
      PairExact s.machine k q := by
  obtain ⟨hb, hr, -, hea⟩ := booted_of_buddyInit hinit
  have ho := orderly_of_buddyInit hinit hpages hwrap hsep
  have htidy : Tidy maxOrder s := by
    refine hrun.invariant (Tidy maxOrder) ⟨hb.sane, hb.conserved hpages, ho, ?_⟩
      (fun s a s' hs ha hstep => step_tidy le_rfl hs ha hstep)
    intro k hk q _ hd hu
    rcases Nat.lt_or_eq_of_le hk with hlt | rfl
    · exact hb.exact_below ho hlt hd hu
    · exact hb.exact_top ho (by rw [hea]; exact he64) (by rw [hr, hea]; exact hend) hd hu
  exact fun k hk q hq hd hu => htidy.pairExact le_rfl hk hq hd hu

/-- Four pages: a page allocated, its neighbours taken, and the page freed into a merge. -/
theorem pair_bits_exact_four_pages :
    ∃ m₀ s, buddyInit noSlab [⟨0x100000, 0x104000⟩] () 1 0x100000 0x104000 = .ok m₀ ∧
      Reaches step AllowedSafe ⟨m₀, []⟩ s ∧ s.live = [⟨3, 0⟩, ⟨2, 0⟩] ∧ usableAt s.machine 1 0 = true ∧
      PairExact s.machine 0 0 := by
  obtain ⟨m₀, s, hinit, hrun, hpost⟩ := exists_of_sample
    (buddyInit noSlab [⟨0x100000, 0x104000⟩] () 1 0x100000 0x104000) (⟨·, []⟩) step
    (fun s a => decide (AllowedSafe s a))
    [.alloc 0, .alloc 1, .shrink ⟨2, 1⟩ 1, .alloc 0, .free ⟨1, 0⟩]
    (fun m s => decide (m.maxPageOffset ≤ 2 ^ 24 ∧ s.live = [⟨3, 0⟩, ⟨2, 0⟩] ∧ usableAt s.machine 1 0 = true))
    (fun _ _ => of_decide_eq_true) (by decide)
  obtain ⟨h1, h2, h3⟩ := of_decide_eq_true hpost
  exact ⟨m₀, s, hinit, hrun, h2, h3, pair_bits_exact hinit h1 (by decide) (by decide) (by decide) (by decide)
    hrun 0 (by decide) 0 (by decide) (by decide) h3⟩

/-- Two pages: the right one, freed, is not merged with the left one, as the page after it is not usable.
    Both are then listed and their bit is set. -/
theorem right_buddy_left_unmerged :
    ∃ m₀ s, buddyInit noSlab [⟨0x100000, 0x102000⟩] () 1 0x100000 0x102000 = .ok m₀ ∧
      Reaches step (Allowed maxOrder) ⟨m₀, []⟩ s ∧ usableAt s.machine 1 0 = true ∧
      s.machine.freelists 0 = [1, 0] ∧ bmpGetBit s.machine.buddyStateMap (buddyBmpIndexOf 0 0) = 1 ∧
      ¬ PairExact s.machine 0 0 := by
  obtain ⟨m₀, s, hinit, hrun, hpost⟩ := exists_of_sample
    (buddyInit noSlab [⟨0x100000, 0x102000⟩] () 1 0x100000 0x102000) (⟨·, []⟩) step
    (fun s a => decide (Allowed maxOrder s a)) [.alloc 0, .free ⟨1, 0⟩]
    (fun _ s => decide (usableAt s.machine 1 0 = true ∧ s.machine.freelists 0 = [1, 0] ∧
      bmpGetBit s.machine.buddyStateMap (buddyBmpIndexOf 0 0) = 1 ∧ ¬ PairExact s.machine 0 0))
    (fun _ _ => of_decide_eq_true) (by decide)
  exact ⟨m₀, s, hinit, hrun, of_decide_eq_true hpost⟩

/-! ## Merges find their buddy -/

/-- A block around the first page of a live block is not listed. -/
theorem Conserved.base_not_listed {s : Sys V} (h : Conserved s) {b : Block} (hb : b ∈ s.live) {j : Nat}
    (hj : j ≤ maxOrder) : baseAt j b.offset ∉ s.machine.freelists j := by
  refine h.not_listed hb hj (p := b.offset) ?_ ?_
  · exact Block.has_iff.mpr ⟨le_rfl, Nat.lt_add_of_pos_right (Nat.two_pow_pos _)⟩
  · have hdm := Nat.div_add_mod b.offset (2 ^ j)
    have hmod := Nat.mod_lt b.offset (Nat.two_pow_pos j)
    rw [Nat.mul_comm] at hdm
    refine Block.has_iff.mpr ⟨Nat.div_mul_le_self _ _, ?_⟩
    dsimp only [baseAt]
    omega

theorem listed_iff_of_xor {bit : Bool} {A B : Prop} [Decidable A] [Decidable B]
    (h : (if bit = true then 1 else 0) = (decide A ^^ decide B).toNat) (hA : ¬ A) : B ↔ bit = true := by
  cases bit <;> by_cases hB : B <;> simp [hA, hB] at h ⊢

/-- At a level whose parent is usable, the buddy of a block that holds live pages is listed iff the bit is
    set. -/
theorem Tidy.buddy_listed_iff {s : Sys V} (ht : Tidy 6 s) {b : Block} (hb : b ∈ s.live) {j : Nat}
    (hj : j < maxOrder) (hu : usableAt s.machine (j + 1) (parent j (baseAt j b.offset)) = true) :
    buddy j (baseAt j b.offset) ∈ s.machine.freelists j ↔
      pairBit s.machine j (baseAt j b.offset) = true := by
  have hs := (ht.sane.live b hb).baseAt hj.le
  have hd := parent_dvd j (baseAt j b.offset)
  have hown : baseAt j b.offset ∉ s.machine.freelists j := ht.conserved.base_not_listed hb hj.le
  have hp64 : parent j (baseAt j b.offset) < 2 ^ 64 := lt_of_le_of_lt (parent_le j _) hs.lt64
  have hex := ht.pairExact (by decide) (Nat.le_of_lt_succ hj) hp64 hd hu
  rw [← pairBit_congr hj.le hp64 hs.lt64 (parent_of_left hd)]
  unfold PairExact at hex
  rw [bmpGetBit_eq, ← pairBit] at hex
  rcases left_or_right hs.aligned with he | he
  · have hbud : buddy j (baseAt j b.offset) = parent j (baseAt j b.offset) + 2 ^ j := by
      conv_lhs => rw [he, buddy_of_left hd]
    rw [hbud]
    exact listed_iff_of_xor hex (fun hc => hown (by rw [he]; exact hc))
  · have hbud : buddy j (baseAt j b.offset) = parent j (baseAt j b.offset) := by
      conv_lhs => rw [he, buddy_of_right hd]
    rw [hbud]
    rw [Bool.xor_comm] at hex
    exact listed_iff_of_xor hex (fun hc => hown (by rw [he]; exact hc))

/-- If a free decides to merge, the parent is usable. -/
theorem Tidy.usable_parent {s : Sys V} (ht : Tidy 6 s) {b : Block} (hb : b ∈ s.live)
    (hbo : b.order < maxOrder) (hf : mergesFirst s.machine (s.machine.addrOf b.offset) b.order = true) :
    usableAt s.machine (b.order + 1) (parent b.order b.offset) = true := by
  have hs := ht.sane.live b hb
  have hmem : b ∈ s.blocks := List.mem_append_right _ hb
  rcases left_or_right hs.aligned with he | he
  · rw [mergesFirst_eq hs] at hf
    have hnext := (Bool.and_eq_true_iff.mp hf).2
    have hd : 2 ^ (b.order + 1) ∣ b.offset := by rw [he]; exact parent_dvd _ _
    rw [← buddy_of_left hd] at hnext
    exact usableAt_parent ht.orderly hs (ht.conserved.usable ht.orderly hmem hs) hnext
  · exact ht.conserved.usable_parent_of_right ht.orderly hmem hs hbo he

/-- Each level that can be coalesced makes the next block usable. -/
theorem usable_levels {m : Machine V} (ho : Orderly m) {k o : Nat} (hs : Sound m.maxPageOffset o k)
    (hu : usableAt m (k + 1) (parent k o) = true) :
    ∀ j, k ≤ j → j < maxOrder → (∀ i, k + 1 ≤ i → i ≤ j → canCoalesce m (baseAt i o) i = true) →
      usableAt m (j + 1) (parent j (baseAt j o)) = true := by
  intro j hj hj7 hc
  induction j, hj using Nat.le_induction with
  | base =>
      rw [baseAt_of_dvd hs.aligned]
      exact hu
  | succ j hkj ih =>
      have hprev := ih (by omega) (fun i h1 h2 => hc i h1 (by omega))
      have hpar : parent j (baseAt j o) = baseAt (j + 1) o := baseAt_baseAt (Nat.le_succ j) o
      have hsj : Sound m.maxPageOffset (baseAt (j + 1) o) (j + 1) := hs.baseAt hj7.le
      have hcan := hc (j + 1) (by omega) le_rfl
      rw [canCoalesce_eq hsj] at hcan
      rw [hpar] at hprev
      exact usableAt_parent ho hsj hprev (Bool.and_eq_true_iff.mp hcan).2

/-- In a tidy state a free that merges finds every buddy it looks for. -/
theorem Tidy.finds_buddies {s : Sys V} (ht : Tidy 6 s) {b : Block} (hb : b ∈ s.live)
    (hbo : b.order < maxOrder) (hf : mergesFirst s.machine (s.machine.addrOf b.offset) b.order = true) :
    buddy b.order b.offset ∈ s.machine.freelists b.order ∧
      FindsBuddies s.machine (b.order + 1) b.offset := by
  have hs := ht.sane.live b hb
  have hu := ht.usable_parent hb hbo hf
  constructor
  · have hbase := baseAt_of_dvd hs.aligned
    have := ht.buddy_listed_iff hb hbo (by rw [hbase]; exact hu)
    rw [hbase] at this
    exact this.mpr (pairBit_of_mergesFirst hs hf)
  · intro j hj hj7 hc
    have hbits := hc j hj le_rfl
    rw [canCoalesce_eq (hs.baseAt hj7.le)] at hbits
    exact (ht.buddy_listed_iff hb hj7 (usable_levels ht.orderly hs hu j (by omega) hj7 hc)).mpr
      (Bool.and_eq_true_iff.mp hbits).1

/-- In a tidy state freeing a live block returns, unless the node it needs is missing. -/
theorem Tidy.free_total {s : Sys V} (ht : Tidy 6 s) {b : Block} (hb : b ∈ s.live) (hbo : b.order < maxOrder)
    (hnode : mergesFirst s.machine (s.machine.addrOf b.offset) b.order = false →
      0 < s.machine.freelistCache.cells) :
    ∃ m', buddyFreeBlock noSlab s.machine (s.machine.addrOf b.offset) b.order = .ok m' :=
  buddyFreeBlock_total ht.sane.charted (ht.sane.live b hb) hbo (ht.finds_buddies hb hbo) hnode

/-- **A merge never misses its buddy** after a run over one region whose frees keep the bits. -/
theorem merge_finds_buddy {region : PhysmemRegion} {vm : V} {poolSlabs baseAddr endAddr : Nat}
    {m₀ : Machine V} {s : Sys V}
    (hinit : buddyInit noSlab [region] vm poolSlabs baseAddr endAddr = .ok m₀)
    (hpages : m₀.maxPageOffset ≤ 2 ^ 24) (hwrap : baseAddr + 2 ^ 36 < 2 ^ 64)
    (hrun : Reaches step AllowedSafe ⟨m₀, []⟩ s) {b : Block} (hb : b ∈ s.live) (hbo : b.order < maxOrder) :
    step s (.free b) ≠ .error .nullEntry := by
  have hsep : Separated [region] := by
    intro r hr t ht hne
    rw [List.mem_singleton] at hr ht
    exact absurd (hr.trans ht.symm) hne
  have ht := tidy_of_reaches (booted_of_buddyInit hinit).1 (orderly_of_buddyInit hinit hpages hwrap hsep) hrun
  have hs := ht.sane.live b hb
  intro herr
  have hfail : buddyFreeBlock noSlab s.machine (s.machine.addrOf b.offset) b.order = .error .nullEntry := by
    rcases bind_eq_error.mp herr with h1 | ⟨m', -, h2⟩
    · exact h1
    · cases h2
  by_cases hnode : mergesFirst s.machine (s.machine.addrOf b.offset) b.order = false →
      0 < s.machine.freelistCache.cells
  · obtain ⟨m', hm'⟩ := ht.free_total hb hbo hnode
    rw [hm'] at hfail
    cases hfail
  · -- Without a node the call fails too, but for that reason.
    obtain ⟨hf, hc⟩ := Classical.not_imp.mp hnode
    rw [buddyFreeBlock_eq noSlab hs, if_neg (by rw [hf]; exact Bool.false_ne_true)] at hfail
    unfold allocateFreelistEntry at hfail
    rw [slabAlloc_of_empty noSlab (by omega), noSlab, error_bind, error_bind, error_bind, error_bind] at hfail
    cases hfail

/-- Four pages: after a page and its neighbours were taken, the page is freed. -/
theorem merge_finds_buddy_four_pages :
    ∃ m₀ s, buddyInit noSlab [⟨0x100000, 0x104000⟩] () 1 0x100000 0x104000 = .ok m₀ ∧
      Reaches step AllowedSafe ⟨m₀, []⟩ s ∧ (⟨1, 0⟩ : Block) ∈ s.live ∧
      mergesFirst s.machine (s.machine.addrOf 1) 0 = true ∧ step s (.free ⟨1, 0⟩) ≠ .error .nullEntry := by
  obtain ⟨m₀, s, hinit, hrun, hpost⟩ := exists_of_sample
    (buddyInit noSlab [⟨0x100000, 0x104000⟩] () 1 0x100000 0x104000) (⟨·, []⟩) step
    (fun s a => decide (AllowedSafe s a)) [.alloc 0, .alloc 1]
    (fun m s => decide (m.maxPageOffset ≤ 2 ^ 24 ∧ (⟨1, 0⟩ : Block) ∈ s.live ∧
      mergesFirst s.machine (s.machine.addrOf 1) 0 = true))
    (fun _ _ => of_decide_eq_true) (by decide)
  obtain ⟨h1, h2, h3⟩ := of_decide_eq_true hpost
  exact ⟨m₀, s, hinit, hrun, h2, h3, merge_finds_buddy hinit h1 (by decide) hrun h2 (by decide)⟩

/-- Two pages: after the right one was freed without merging, both are allocated again, and then freeing the
    left one follows the bit to a buddy that is not there. -/
theorem merge_misses_buddy :
    ∃ m₀ s, buddyInit noSlab [⟨0x100000, 0x102000⟩] () 1 0x100000 0x102000 = .ok m₀ ∧
      Reaches step (Allowed maxOrder) ⟨m₀, []⟩ s ∧ (⟨0, 0⟩ : Block) ∈ s.live ∧
      step s (.free ⟨0, 0⟩) = .error .nullEntry := by
  obtain ⟨m₀, s, hinit, hrun, hpost⟩ := exists_of_sample
    (buddyInit noSlab [⟨0x100000, 0x102000⟩] () 1 0x100000 0x102000) (⟨·, []⟩) step
    (fun s a => decide (Allowed maxOrder s a)) [.alloc 0, .free ⟨1, 0⟩, .alloc 0, .alloc 0]
    (fun _ s => decide ((⟨0, 0⟩ : Block) ∈ s.live) && failsWith (step s (.free ⟨0, 0⟩)) .nullEntry)
    (fun _ _ => of_decide_eq_true) (by decide)
  obtain ⟨h1, h2⟩ := Bool.and_eq_true_iff.mp hpost
  exact ⟨m₀, s, hinit, hrun, of_decide_eq_true h1, eq_error_of_failsWith h2⟩

end LearningOS
