import LearningOS.Mm.Buddy.Populate

/-!
# `Mm.Buddy.Coverage` — which pages the initial freelists hold

`__populate_initial_freelists` takes blocks from the start of each window on, from high to low order, and goes on in
a window only behind a block it could take. `windowLen_greatest` says what that amounts to: of all lengths whose
binary pieces are usable it takes the greatest. Where the regions are apart this is the longest usable prefix of
the window; what is usable further on in the window is never taken.
-/

namespace LearningOS

open Word Run Dyadic

variable {V : Type}

/-! ## Pages and regions -/

/-- Page `p`, counted from `base_addr`, lies in the region as a whole. -/
def InRegion (m : Machine V) (r : PhysmemRegion) (p : Nat) : Prop :=
  r.freeStart ≤ m.baseAddr + p * pageSize ∧ m.baseAddr + (p + 1) * pageSize ≤ r.regionEnd

instance (m : Machine V) (r : PhysmemRegion) (p : Nat) : Decidable (InRegion m r p) :=
  inferInstanceAs (Decidable (_ ∧ _))

/-- Page `p` lies in one usable region as a whole. -/
def WholePage (m : Machine V) (p : Nat) : Prop := ∃ r ∈ m.regions, InRegion m r p

instance (m : Machine V) (p : Nat) : Decidable (WholePage m p) :=
  inferInstanceAs (Decidable (∃ r ∈ m.regions, InRegion m r p))

/-- Between the pages of two regions there is always one that is not usable as a whole. -/
def PagesSeparated (m : Machine V) : Prop :=
  ∀ r ∈ m.regions, ∀ s ∈ m.regions, r ≠ s → ∀ x y, InRegion m r x → InRegion m s y → x ≤ y →
    ∃ p, x < p ∧ p < y ∧ ¬ WholePage m p

/-- The addresses of the windows do not wrap around. -/
def WindowsFit (m : Machine V) : Prop := m.baseAddr + numWindows m * 2 ^ maxOrder * pageSize < 2 ^ 64

instance (m : Machine V) : Decidable (WindowsFit m) := inferInstanceAs (Decidable (_ < _))

theorem addrOf_of_fit {m : Machine V} {o : Nat} (h : m.baseAddr + o * pageSize < 2 ^ 64) :
    m.addrOf o = m.baseAddr + o * pageSize := by
  have hmul : o * 2 ^ pageOrder < 2 ^ 64 := lt_of_le_of_lt (Nat.le_add_left _ m.baseAddr) h
  unfold Machine.addrOf
  rw [shl64_of_lt hmul]
  exact add64_of_lt h

theorem usablePages_iff_of_fit {m : Machine V} {o n : Nat} (h : m.baseAddr + (o + n) * pageSize < 2 ^ 64) :
    usablePages m o n = true ↔
      ∃ r ∈ m.regions, r.freeStart ≤ m.baseAddr + o * pageSize ∧
        m.baseAddr + (o + n) * pageSize ≤ r.regionEnd := by
  rw [Nat.add_mul, ← Nat.add_assoc] at h
  unfold usablePages
  rw [addrOf_of_fit (lt_of_le_of_lt (Nat.le_add_right _ _) h), isBlockUsable_iff h, Nat.add_mul]
  simp only [Nat.add_assoc]

/-- The pages of a range that are each usable are usable in one region. -/
theorem one_region_of_whole {m : Machine V} (hsep : PagesSeparated m) {o : Nat} :
    ∀ n, (∀ i, i ≤ n → WholePage m (o + i)) → ∃ r ∈ m.regions, InRegion m r o ∧ InRegion m r (o + n)
  | 0, h => by
      obtain ⟨r, hr, hin⟩ := h 0 le_rfl
      exact ⟨r, hr, hin, hin⟩
  | n + 1, h => by
      obtain ⟨r, hr, hfirst, hlast⟩ := one_region_of_whole hsep n (fun i hi => h i (by omega))
      obtain ⟨s, hs, hnext⟩ := h (n + 1) le_rfl
      by_cases hrs : r = s
      · exact ⟨r, hr, hfirst, hrs ▸ hnext⟩
      · obtain ⟨p, h1, h2, -⟩ := hsep r hr s hs hrs _ _ hlast hnext (by omega)
        omega

/-- **Over separated regions a range is usable if each of its pages is.** -/
theorem usablePages_iff_whole {m : Machine V} (hsep : PagesSeparated m) {o n : Nat} (hn : 0 < n)
    (hfit : m.baseAddr + (o + n) * pageSize < 2 ^ 64) :
    usablePages m o n = true ↔ ∀ i, i < n → WholePage m (o + i) := by
  rw [usablePages_iff_of_fit hfit]
  constructor
  · rintro ⟨r, hr, h1, h2⟩ i hi
    have hlow : o * pageSize ≤ (o + i) * pageSize := Nat.mul_le_mul_right _ (Nat.le_add_right _ _)
    have hhigh : (o + i + 1) * pageSize ≤ (o + n) * pageSize := Nat.mul_le_mul_right _ (by omega)
    exact ⟨r, hr, h1.trans (Nat.add_le_add_left hlow _), (Nat.add_le_add_left hhigh _).trans h2⟩
  · intro h
    obtain ⟨r, hr, hfirst, hlast⟩ := one_region_of_whole hsep (o := o) (n - 1) (fun i hi => h i (by omega))
    have he : o + (n - 1) + 1 = o + n := by omega
    exact ⟨r, hr, hfirst.1, he ▸ hlast.2⟩

/-! ## What is taken of a window -/

/-- All blocks taken are usable. -/
theorem usable_of_mem_windowLen {m : Machine V} {cursor : Nat} {b : Block} :
    ∀ order inner, b ∈ pieces (inner + cursor) (windowLen m cursor order inner) order →
      usableAt m b.order b.offset = true
  | 0, _, hb => by cases hb
  | order + 1, inner, hb => by
      unfold windowLen at hb
      by_cases hlt : inner < 2 ^ maxOrder
      · rw [if_pos hlt] at hb
        by_cases hu : usableAt m order (inner + cursor) = true
        · have hll := windowLen_lt m cursor order (inner + 2 ^ order)
          have h2 := two_pow_succ' order
          have hswap : inner + cursor + 2 ^ order = inner + 2 ^ order + cursor := by omega
          rw [if_pos hu, pieces_left (Nat.le_add_right _ _) (by omega), Nat.add_sub_cancel_left, hswap] at hb
          rcases List.mem_cons.mp hb with rfl | hb
          · exact hu
          · exact usable_of_mem_windowLen order (inner + 2 ^ order) hb
        · rw [if_neg hu, pieces_of_lt (windowLen_lt m cursor order inner)] at hb
          exact usable_of_mem_windowLen order inner hb
      · rw [if_neg hlt, pieces_zero] at hb
        cases hb

/-- **What is taken is the greatest length whose pieces are usable.** -/
theorem windowLen_greatest {m : Machine V} {cursor : Nat} :
    ∀ order inner n, n < 2 ^ order → inner + n ≤ 2 ^ maxOrder →
      (∀ b ∈ pieces (inner + cursor) n order, usableAt m b.order b.offset = true) →
      n ≤ windowLen m cursor order inner
  | 0, _, n, hn, _, _ => by
      rw [pow_zero] at hn
      omega
  | order + 1, inner, n, hn, hend, hu => by
      have h2 := two_pow_succ' order
      unfold windowLen
      by_cases hlt : inner < 2 ^ maxOrder
      · rw [if_pos hlt]
        by_cases hn' : n < 2 ^ order
        · rw [pieces_of_lt hn'] at hu
          by_cases hblock : usableAt m order (inner + cursor) = true
          · rw [if_pos hblock]
            omega
          · rw [if_neg hblock]
            exact windowLen_greatest order inner n hn' hend hu
        · have hswap : inner + cursor + 2 ^ order = inner + 2 ^ order + cursor := by omega
          rw [pieces_left (by omega) hn, hswap] at hu
          have hblock : usableAt m order (inner + cursor) = true := hu ⟨inner + cursor, order⟩ List.mem_cons_self
          have hrec := windowLen_greatest order (inner + 2 ^ order) (n - 2 ^ order) (by omega) (by omega)
            (fun b hb => hu b (List.mem_cons_of_mem _ hb))
          rw [if_pos hblock]
          omega
      · rw [if_neg hlt]
        omega

/-- The first `n` pages of window `w` can be filled with usable blocks, one for each binary digit of `n`. -/
def Tiled (m : Machine V) (w n : Nat) : Prop :=
  ∀ b ∈ pieces (w * 2 ^ maxOrder) n (maxOrder + 1), usableAt m b.order b.offset = true

instance (m : Machine V) (w n : Nat) : Decidable (Tiled m w n) :=
  inferInstanceAs (Decidable (∀ b ∈ pieces (w * 2 ^ maxOrder) n (maxOrder + 1), usableAt m b.order b.offset = true))

theorem tiled_windowOf (m : Machine V) (w : Nat) : Tiled m w (windowOf m w) := by
  intro b hb
  refine usable_of_mem_windowLen (maxOrder + 1) 0 (show b ∈ pieces (0 + w * 2 ^ maxOrder) _ _ from ?_)
  rw [Nat.zero_add]
  exact hb

theorem le_windowOf {m : Machine V} {w n : Nat} (hn : n ≤ 2 ^ maxOrder) (h : Tiled m w n) : n ≤ windowOf m w := by
  refine windowLen_greatest (maxOrder + 1) 0 n (lt_of_le_of_lt hn (by decide)) (by omega) ?_
  rw [Nat.zero_add]
  exact h

/-- The longest prefix of window `w` whose pages are all usable. -/
structure UsablePrefix (m : Machine V) (w n : Nat) : Prop where
  le : n ≤ 2 ^ maxOrder
  usable : ∀ i, i < n → WholePage m (w * 2 ^ maxOrder + i)
  longest : n < 2 ^ maxOrder → ¬ WholePage m (w * 2 ^ maxOrder + n)

/-- **Over separated regions** what is taken of a window is its longest usable prefix: from `inner` on, the part of
    the prefix that is left. -/
theorem windowLen_of_prefix {m : Machine V} (hsep : PagesSeparated m) {w n : Nat} (hpre : UsablePrefix m w n)
    (hfit : m.baseAddr + (w * 2 ^ maxOrder + 2 ^ maxOrder) * pageSize < 2 ^ 64) :
    ∀ order inner, order ≤ maxOrder + 1 → 2 ^ order ∣ inner → inner ≤ n → n < inner + 2 ^ order →
      windowLen m (w * 2 ^ maxOrder) order inner = n - inner
  | 0, inner, _, _, h1, h2 => by
      rw [pow_zero] at h2
      show 0 = n - inner
      omega
  | order + 1, inner, ho, hd, h1, h2 => by
      have hp := two_pow_succ' order
      have hle := hpre.le
      have hdk : 2 ^ order ∣ inner := (pow_dvd_pow 2 (Nat.le_succ order)).trans hd
      unfold windowLen
      by_cases hlt : inner < 2 ^ maxOrder
      · have hend : inner + 2 ^ order ≤ 2 ^ maxOrder := add_two_pow_le (by omega) hdk hlt
        have hfit' : m.baseAddr + (inner + w * 2 ^ maxOrder + 2 ^ order) * pageSize < 2 ^ 64 :=
          lt_of_le_of_lt (Nat.add_le_add_left (Nat.mul_le_mul_right _ (by omega)) _) hfit
        -- The next block is usable exactly if the prefix reaches its end.
        have hblock : usableAt m order (inner + w * 2 ^ maxOrder) = true ↔ inner + 2 ^ order ≤ n := by
          rw [usableAt_eq, usablePages_iff_whole hsep (Nat.two_pow_pos order) hfit']
          constructor
          · intro h
            by_contra hshort
            refine hpre.longest (by omega) ?_
            have hi := h (n - inner) (by omega)
            rw [show inner + w * 2 ^ maxOrder + (n - inner) = w * 2 ^ maxOrder + n by omega] at hi
            exact hi
          · intro h i hi
            rw [show inner + w * 2 ^ maxOrder + i = w * 2 ^ maxOrder + (inner + i) by omega]
            exact hpre.usable _ (by omega)
        rw [if_pos hlt]
        by_cases hu : inner + 2 ^ order ≤ n
        · rw [if_pos (hblock.mpr hu), windowLen_of_prefix hsep hpre hfit order (inner + 2 ^ order) (by omega)
            (Nat.dvd_add hdk dvd_rfl) hu (by omega)]
          omega
        · rw [if_neg (fun h => hu (hblock.mp h)), windowLen_of_prefix hsep hpre hfit order inner (by omega) hdk h1
            (by omega)]
      · rw [if_neg hlt]
        omega

/-- Every window has a longest usable prefix. -/
theorem exists_usablePrefix (m : Machine V) (w : Nat) : ∃ n, UsablePrefix m w n := by
  classical
  have hex : ∃ n, n = 2 ^ maxOrder ∨ ¬ WholePage m (w * 2 ^ maxOrder + n) := ⟨_, .inl rfl⟩
  refine ⟨Nat.find hex, Nat.find_min' hex (.inl rfl), fun i hi => ?_, fun hlt => ?_⟩
  · exact not_not.mp (fun h => Nat.find_min hex hi (.inr h))
  · exact (Nat.find_spec hex).resolve_left hlt.ne

theorem windowOf_eq_length {m : Machine V} (hsep : PagesSeparated m) (hfit : WindowsFit m) {w n : Nat}
    (hw : w < numWindows m) (hpre : UsablePrefix m w n) : windowOf m w = n := by
  have hend : m.baseAddr + (w * 2 ^ maxOrder + 2 ^ maxOrder) * pageSize < 2 ^ 64 := by
    refine lt_of_le_of_lt (Nat.add_le_add_left (Nat.mul_le_mul_right _ ?_) _) hfit
    rw [← Nat.succ_mul]
    exact Nat.mul_le_mul_right _ hw
  have hle := hpre.le
  have h128 : (2 : Nat) ^ maxOrder < 2 ^ (maxOrder + 1) := by decide
  have h := windowLen_of_prefix hsep hpre hend (maxOrder + 1) 0 le_rfl (dvd_zero _) (Nat.zero_le _) (by omega)
  rw [Nat.sub_zero] at h
  exact h

/-! ## The loops come to their end -/

/-- With a node for every block the inner loop returns, whoever creates slabs. -/
theorem populateWindow_served (create : Callback V) {cursor : Nat} :
    ∀ (order : Nat) {inner : Nat} {m : Machine V}, order ≤ maxOrder + 1 →
      (pieces (inner + cursor) (windowLen m cursor order inner) order).length ≤ m.freelistCache.cells →
      ∃ m', populateWindow create cursor order inner m = .ok m' ∧ populateWindow noSlab cursor order inner m = .ok m'
  | 0, _, m, _, _ => ⟨m, rfl, rfl⟩
  | order + 1, inner, m, ho, hc => by
      unfold windowLen at hc
      unfold populateWindow
      by_cases hlt : inner < 2 ^ maxOrder
      · rw [if_pos hlt] at hc
        rw [if_pos hlt, if_pos hlt]
        by_cases hu : usableAt m order (inner + cursor) = true
        · have hu' : isBlockUsable m.regions (m.addrOf (inner + cursor)) (2 ^ (12 + order)) = true := hu
          have hll := windowLen_lt m cursor order (inner + 2 ^ order)
          have h2 := two_pow_succ' order
          have hswap : inner + cursor + 2 ^ order = inner + 2 ^ order + cursor := by omega
          rw [if_pos hu, pieces_left (Nat.le_add_right _ _) (by omega), Nat.add_sub_cancel_left, hswap,
            List.length_cons] at hc
          have hpos : 0 < m.freelistCache.cells := by omega
          have hcells := cells_take hpos
          have hk : order ≤ maxOrder := by omega
          have hlayout := (Filled.addEntry (inner + cursor) hpos hk).effect.layout
          simp only [if_pos hu', allocateFreelistEntry_of_cells _ hpos hk, ok_bind]
          refine populateWindow_served create order (by omega) ?_
          rw [windowLen_congr hlayout, setCounters_cache, addEntry_cache]
          omega
        · have hu' : ¬ isBlockUsable m.regions (m.addrOf (inner + cursor)) (2 ^ (12 + order)) = true := hu
          rw [if_neg hu, pieces_of_lt (windowLen_lt m cursor order inner)] at hc
          simp only [if_neg hu']
          exact populateWindow_served create order (by omega) hc
      · rw [if_neg hlt, if_neg hlt]
        exact ⟨m, rfl, rfl⟩

/-- So does the outer loop, with a round for every window left and one to stop. -/
theorem populateFrom_served (create : Callback V) (max : Nat) :
    ∀ (n w : Nat) {m : Machine V}, (max + 127) / 128 ≤ n + w →
      (windowsFrom (windowOf m) ((max + 127) / 128 - w) w).length ≤ m.freelistCache.cells →
      ∃ m', populateFrom create max (n + 1) (w * 2 ^ maxOrder) m = .ok m' ∧
        populateFrom noSlab max (n + 1) (w * 2 ^ maxOrder) m = .ok m'
  | 0, w, m, hn, _ => by
      have h128 : (2 : Nat) ^ maxOrder = 128 := by decide
      have hstop : ¬ w * 2 ^ maxOrder < max := by
        rw [h128]
        omega
      unfold populateFrom
      rw [if_neg hstop, if_neg hstop]
      exact ⟨m, rfl, rfl⟩
  | n + 1, w, m, hn, hc => by
      have h128 : (2 : Nat) ^ maxOrder = 128 := by decide
      unfold populateFrom
      by_cases hlt : w * 2 ^ maxOrder < max
      · have hnext : w * 2 ^ maxOrder + 2 ^ maxOrder = (w + 1) * 2 ^ maxOrder := by ring
        have hcount : (max + 127) / 128 - w = (max + 127) / 128 - (w + 1) + 1 := by
          rw [h128] at hlt
          omega
        rw [hcount, windowsFrom, List.length_append] at hc
        have hfirst : (pieces (0 + w * 2 ^ maxOrder) (windowLen m (w * 2 ^ maxOrder) (maxOrder + 1) 0)
            (maxOrder + 1)).length ≤ m.freelistCache.cells := by
          rw [Nat.zero_add]
          exact le_trans (Nat.le_add_right _ _) hc
        obtain ⟨m1, hrun, hrun'⟩ := populateWindow_served create (maxOrder + 1) le_rfl hfirst
        have hf := populateWindow_filled (maxOrder + 1) hrun'
        have hcong : windowOf m1 = windowOf m := funext fun i => windowLen_congr hf.effect.layout _ _ _
        have hcells := hf.effect.nodes.cells
        rw [List.length_map, List.length_nil, Nat.zero_add] at hcells
        rw [if_pos hlt, if_pos hlt, hrun, hrun', ok_bind, ok_bind, hnext]
        refine populateFrom_served create max n (w + 1) (by omega) ?_
        rw [hcong]
        have hw : windowOf m w = windowLen m (w * 2 ^ maxOrder) (maxOrder + 1) 0 := rfl
        rw [hw] at hc
        omega
      · rw [if_neg hlt, if_neg hlt]
        exact ⟨m, rfl, rfl⟩

/-- **With a node for every block `__populate_initial_freelists` returns**, and puts the blocks on the lists. -/
theorem populateInitialFreelists_served (create : Callback V) {m : Machine V}
    (hc : (initialBlocks m).length ≤ m.freelistCache.cells) :
    ∃ m', populateInitialFreelists create m = .ok m' ∧ populateInitialFreelists noSlab m = .ok m' ∧
      Filled m m' ((initialBlocks m).map storedBlock) := by
  have h128 : (2 : Nat) ^ maxOrder = 128 := by decide
  have hzero : (0 : Nat) = 0 * 2 ^ maxOrder := (Nat.zero_mul _).symm
  obtain ⟨m', hrun, hrun'⟩ := populateFrom_served create m.maxPageOffset (m.maxPageOffset / 2 ^ maxOrder + 1) 0
    (by rw [h128]; omega) hc
  rw [← hzero] at hrun hrun'
  refine ⟨m', hrun, hrun', ?_⟩
  have hf := populateFrom_filled (m.maxPageOffset / 2 ^ maxOrder + 2) 0 (by rw [← hzero]; exact hrun')
  exact hf

/-! ## The usable prefix of every window -/

/-- The blocks of the windows, window by window. -/
theorem initialBlocks_eq (m : Machine V) :
    initialBlocks m
      = (List.range (numWindows m)).flatMap fun w => pieces (w * 2 ^ maxOrder) (windowOf m w) (maxOrder + 1) := by
  have hfrom : ∀ n w, windowsFrom (windowOf m) n w
      = (List.range' w n).flatMap fun w => pieces (w * 2 ^ maxOrder) (windowOf m w) (maxOrder + 1) := by
    intro n
    induction n with
    | zero => exact fun _ => rfl
    | succ n ih =>
        intro w
        rw [windowsFrom, ih, List.range'_succ, List.flatMap_cons]
  rw [List.range_eq_range']
  exact hfrom _ _

/-- The orders of the pieces are the places of the binary digits 1. -/
theorem map_order_pieces (n : Nat) : ∀ k o, (pieces o n k).map Block.order = (List.range k).reverse.filter n.testBit
  | 0, _ => rfl
  | k + 1, o => by
      rw [List.range_succ, List.reverse_append, List.reverse_singleton, List.singleton_append, pieces]
      by_cases hb : n.testBit k = true
      · rw [if_pos hb, List.map_cons, map_order_pieces n k, List.filter_cons_of_pos hb]
      · rw [if_neg hb, map_order_pieces n k, List.filter_cons_of_neg hb]

/-- The blocks of a window are aligned and disjoint and cover its first `n` pages, with one block for each binary
    digit 1 of `n`. -/
structure FillsPrefix (w n : Nat) (blocks : List Block) : Prop where
  order_le : ∀ b ∈ blocks, b.order ≤ maxOrder
  aligned : ∀ b ∈ blocks, b.Aligned
  disjoint : blocks.Pairwise Block.Disjoint
  pages : ∀ p, cover blocks p = if w * 2 ^ maxOrder ≤ p ∧ p < w * 2 ^ maxOrder + n then 1 else 0
  digits : blocks.map Block.order = (List.range (maxOrder + 1)).reverse.filter n.testBit

theorem fillsPrefix_pieces {w n : Nat} (hn : n ≤ 2 ^ maxOrder) :
    FillsPrefix w n (pieces (w * 2 ^ maxOrder) n (maxOrder + 1)) := by
  have hlt : n < 2 ^ (maxOrder + 1) := lt_of_le_of_lt hn (by decide)
  have hcover : ∀ p, cover (pieces (w * 2 ^ maxOrder) n (maxOrder + 1)) p
      = if w * 2 ^ maxOrder ≤ p ∧ p < w * 2 ^ maxOrder + n then 1 else 0 := by
    intro p
    rw [cover_eq_total, total_hit_pieces p hlt]
  have hshape : ∀ b ∈ pieces (w * 2 ^ maxOrder) n (maxOrder + 1), b.order ≤ maxOrder ∧ b.Aligned := by
    intro b hb
    rcases Nat.eq_or_lt_of_le hn with rfl | hn
    · rw [pieces_two_pow, List.mem_singleton] at hb
      subst hb
      exact ⟨le_rfl, Dvd.intro_left _ rfl⟩
    · rw [pieces_of_lt hn] at hb
      obtain ⟨h1, h2, -⟩ := mem_pieces hn (Dvd.intro_left _ rfl) hb
      exact ⟨h1.le, h2⟩
  refine ⟨fun b hb => (hshape b hb).1, fun b hb => (hshape b hb).2, ?_, hcover, map_order_pieces n _ _⟩
  refine pairwise_disjoint_of_cover (fun p => ?_)
  rw [hcover]
  split <;> omega

/-- Of every window the longest usable prefix was put on the lists, and `free_space_bytes` grew by as much. -/
def PrefixesFree (m m' : Machine V) : Prop :=
  ∃ (len : Nat → Nat) (blocks : Nat → List Block),
    (∀ w < numWindows m, UsablePrefix m w (len w) ∧ FillsPrefix w (len w) (blocks w)) ∧
    (∀ k ≤ maxOrder, ∀ x, (m'.freelists k).count x
      = (m.freelists k).count x + ((List.range (numWindows m)).flatMap blocks).count ⟨x, k⟩) ∧
    m'.freeSpaceBytes = add64 m.freeSpaceBytes (total blockBytes ((List.range (numWindows m)).flatMap blocks))

/-- **The initial freelists cover the usable prefix of every window.** -/
theorem populate_usable_prefixes (create : Callback V) {m : Machine V} (hpages : m.maxPageOffset ≤ 2 ^ 24)
    (hsep : PagesSeparated m) (hfit : WindowsFit m) (hbytes : m.freeSpaceBytes < 2 ^ 64)
    (hnodes : (initialBlocks m).length ≤ m.freelistCache.cells) :
    ∃ m', populateInitialFreelists create m = .ok m' ∧ PrefixesFree m m' := by
  obtain ⟨m', hrun, -, hf⟩ := populateInitialFreelists_served create hnodes
  rw [map_storedBlock_initialBlocks hpages] at hf
  refine ⟨m', hrun, windowOf m, fun w => pieces (w * 2 ^ maxOrder) (windowOf m w) (maxOrder + 1), fun w hw => ?_,
    fun k hk x => ?_, ?_⟩
  · obtain ⟨n, hpre⟩ := exists_usablePrefix m w
    have hlen := windowOf_eq_length hsep hfit hw hpre
    exact ⟨hlen.symm ▸ hpre, fillsPrefix_pieces (windowOf_le m w)⟩
  · have := hf.effect.lists.count (b := ⟨x, k⟩) hk
    rw [List.count_nil, Nat.add_zero] at this
    rw [← initialBlocks_eq]
    exact this
  · rw [← initialBlocks_eq]
    exact hf.freeBytes hbytes

/-- An allocator over 256 pages from 1MB on. -/
def overOneMegabyte (regions : List PhysmemRegion) : Machine Unit := emptyAllocator regions () 1 0x100000 0x200000

/-- Eleven pages and a bit, and a window. -/
def twoRegions : List PhysmemRegion := [⟨0x100000, 0x10b400⟩, ⟨0x180000, 0x200000⟩]

theorem twoRegions_separated : PagesSeparated (overOneMegabyte twoRegions) := by
  have hfirst : ∀ x, InRegion (overOneMegabyte twoRegions) ⟨0x100000, 0x10b400⟩ x → x < 11 := by
    rintro x ⟨-, h⟩
    have h : 0x100000 + (x + 1) * 4096 ≤ 0x10b400 := h
    omega
  have hsecond : ∀ x, InRegion (overOneMegabyte twoRegions) ⟨0x180000, 0x200000⟩ x → 128 ≤ x := by
    rintro x ⟨h, -⟩
    have h : 0x180000 ≤ 0x100000 + x * 4096 := h
    omega
  have hmem : ∀ r, r ∈ (overOneMegabyte twoRegions).regions → r = ⟨0x100000, 0x10b400⟩ ∨ r = ⟨0x180000, 0x200000⟩ :=
    fun r hr => List.mem_pair.mp hr
  intro r hr s hs hrs x y hx hy hxy
  rcases hmem r hr with rfl | rfl
  · rcases hmem s hs with rfl | rfl
    · exact absurd rfl hrs
    · have h1 := hfirst x hx
      have h2 := hsecond y hy
      exact ⟨11, h1, by omega, by decide⟩
  · rcases hmem s hs with rfl | rfl
    · have h1 := hfirst y hy
      have h2 := hsecond x hx
      omega
    · exact absurd rfl hrs

theorem two_prefixes_free : ∃ m', populateInitialFreelists noSlab (overOneMegabyte twoRegions) = .ok m' ∧
    PrefixesFree (overOneMegabyte twoRegions) m' :=
  populate_usable_prefixes noSlab (by decide) twoRegions_separated (by decide) (by decide) (by decide)

/-- 127 pages at the end of the address space, and no region near them. -/
def lastWindow : Machine Unit := emptyAllocator [⟨0x1000, 0x100000⟩] () 1 (2 ^ 64 - 0x80000) (2 ^ 64 - 0x1000)

theorem lastWindow_no_page (p : Nat) : ¬ WholePage lastWindow p := by
  rintro ⟨r, hr, hin⟩
  obtain rfl := List.mem_singleton.mp hr
  have hend : 2 ^ 64 - 0x80000 + (p + 1) * 4096 ≤ 0x100000 := hin.2
  omega

/-- At the end of the address space the end of a block wraps around to 0 and passes the test of `is_block_usable`:
    a block of pages that are in no region is put on the lists. -/
theorem wrapped_window_taken :
    ¬ ∀ m : Machine Unit, m.maxPageOffset ≤ 2 ^ 24 → PagesSeparated m → m.freeSpaceBytes < 2 ^ 64 →
      (initialBlocks m).length ≤ m.freelistCache.cells →
      ∃ m', populateInitialFreelists noSlab m = .ok m' ∧ PrefixesFree m m' := by
  intro h
  obtain ⟨m', hrun, len, blocks, hwin, hlists, -⟩ := h lastWindow (by decide)
    (fun r hr _ _ _ x _ hx _ _ => absurd ⟨r, hr, hx⟩ (lastWindow_no_page x)) (by decide) (by decide)
  have hone : numWindows lastWindow = 1 := by decide
  rw [hone] at hwin hlists
  obtain ⟨hpre, hfill⟩ := hwin 0 (by decide)
  have hlen : len 0 = 0 := by
    by_contra hne
    exact lastWindow_no_page _ (hpre.usable 0 (by omega))
  -- No block can be there, but one is.
  have hcount : (blocks 0).count ⟨0, 7⟩ = 0 := by
    refine List.count_eq_zero.mpr (fun hmem => ?_)
    have hpos : 0 < cover (blocks 0) 0 := cover_pos_iff.mpr ⟨_, hmem, by decide⟩
    rw [hfill.pages, hlen, if_neg (by omega)] at hpos
    omega
  have hlisted : (match populateInitialFreelists noSlab lastWindow with
      | .ok m' => decide ((m'.freelists 7).count 0 = 1)
      | .error _ => false) = true := by decide
  rw [hrun] at hlisted
  have hlisted : (m'.freelists 7).count 0 = 1 := of_decide_eq_true hlisted
  have hold : (lastWindow.freelists 7).count 0 = 0 := rfl
  have h7 := hlists 7 (by decide) 0
  have hrange : (List.range 1).flatMap blocks = blocks 0 := by simp
  rw [hlisted, hold, hrange, hcount] at h7
  omega

/-! ## Usable memory that is lost -/

/-- Every usable page of the range belongs to exactly one free block. -/
def NothingLost (m : Machine V) : Prop :=
  ∀ p, p < m.maxPageOffset → WholePage m p → cover (blocksOf maxOrder m.freelists) p = 1

/-- Every usable page of the range is in a part of its window, from the start of the window on, that usable blocks
    can fill. -/
def UsableFromStart (m : Machine V) : Prop :=
  ∀ p, p < m.maxPageOffset → WholePage m p →
    ∃ n, n ≤ 2 ^ maxOrder ∧ p % 2 ^ maxOrder < n ∧ Tiled m (p / 2 ^ maxOrder) n

/-- A page is in a free block exactly if what was taken of its window reaches beyond it. -/
theorem cover_of_filled {m₀ m : Machine V} (hpages : m.maxPageOffset ≤ 2 ^ 24) (hnil : ∀ k, m₀.freelists k = [])
    (hf : Filled m₀ m ((initialBlocks m).map storedBlock)) {p : Nat} (hp : p < m.maxPageOffset) :
    cover (blocksOf maxOrder m.freelists) p = if p % 2 ^ maxOrder < windowOf m (p / 2 ^ maxOrder) then 1 else 0 := by
  have h128 : (2 : Nat) ^ maxOrder = 128 := by decide
  have hlists := hf.effect.lists (hit p)
  have hempty : weigh maxOrder (hit p) m₀.freelists = 0 := by simp [weigh, hnil]
  rw [map_storedBlock_initialBlocks hpages, hempty, total_nil, Nat.add_zero, Nat.zero_add] at hlists
  rw [cover_eq_total, total_blocksOf, hlists, ← cover_eq_total, initialBlocks, cover_windowsFrom (windowOf_le m), h128]
  have hwin : p / 128 < numWindows m := by
    unfold numWindows
    omega
  exact if_congr (by omega) rfl rfl

theorem SameLayout.wholePage {m m' : Machine V} (h : SameLayout m m') (p : Nat) : WholePage m' p ↔ WholePage m p := by
  unfold WholePage InRegion
  rw [h.regions, h.baseAddr]

theorem SameLayout.tiled {m m' : Machine V} (h : SameLayout m m') (w n : Nat) : Tiled m' w n ↔ Tiled m w n := by
  unfold Tiled
  simp only [h.usableAt]

theorem SameLayout.usableFromStart {m m' : Machine V} (h : SameLayout m m') :
    UsableFromStart m' ↔ UsableFromStart m := by
  unfold UsableFromStart
  simp only [h.wholePage, h.tiled, h.maxPageOffset]

/-- **`buddy_init` loses no usable page exactly if the usable pages of every window can be filled from its start
    on.** -/
theorem nothing_lost_iff (create : Callback V) {regions : List PhysmemRegion} {vm : V}
    {poolSlabs baseAddr endAddr : Nat} (hpages : sub64 endAddr baseAddr >>> pageOrder ≤ 2 ^ 24)
    (hnodes : (initialBlocks (emptyAllocator regions vm poolSlabs baseAddr endAddr)).length
      ≤ poolSlabs % 2 ^ 8 * objsPerSlab) :
    ∃ m, buddyInit create regions vm poolSlabs baseAddr endAddr = .ok m ∧
      (NothingLost m ↔ UsableFromStart (emptyAllocator regions vm poolSlabs baseAddr endAddr)) := by
  have hcells : (emptyAllocator regions vm poolSlabs baseAddr endAddr).freelistCache.cells
      = poolSlabs % 2 ^ 8 * objsPerSlab := Nat.zero_add _
  obtain ⟨m, hrun, -, hf⟩ := populateInitialFreelists_served create (hnodes.trans_eq hcells.symm)
  have hm : m.maxPageOffset ≤ 2 ^ 24 := by
    rw [hf.effect.layout.maxPageOffset]
    exact hpages
  rw [← hf.effect.layout.usableFromStart]
  rw [← initialBlocks_congr hf.effect.layout] at hf
  have hcover := fun p => cover_of_filled (p := p) hm (fun _ => rfl) hf
  refine ⟨m, hrun, fun h p hp hu => ?_, fun h p hp hu => ?_⟩
  · have hone := h p hp hu
    rw [hcover p hp] at hone
    refine ⟨windowOf m (p / 2 ^ maxOrder), windowOf_le m _, ?_, tiled_windowOf m _⟩
    by_contra hlt
    rw [if_neg hlt] at hone
    omega
  · obtain ⟨n, hn, hlt, htiled⟩ := h p hp hu
    rw [hcover p hp, if_pos (lt_of_lt_of_le hlt (le_windowOf hn htiled))]

theorem nothing_lost_iff_two_regions :
    ∃ m, buddyInit noSlab twoRegions () 1 0x100000 0x200000 = .ok m ∧
      (NothingLost m ↔ UsableFromStart (emptyAllocator twoRegions () 1 0x100000 0x200000)) :=
  nothing_lost_iff noSlab (by decide) (by decide)

/-- The second window begins with a page that is not usable: the 127 pages behind it are on no list. -/
theorem pages_behind_hole_lost :
    ∃ m, buddyInit noSlab [⟨0x100000, 0x180000⟩, ⟨0x181000, 0x200000⟩] () 1 0x100000 0x200000 = .ok m ∧
      WholePage m 129 ∧ ¬ NothingLost m := by
  have hrun : (match buddyInit noSlab [⟨0x100000, 0x180000⟩, ⟨0x181000, 0x200000⟩] () 1 0x100000 0x200000 with
      | .ok m => decide (129 < m.maxPageOffset ∧ WholePage m 129 ∧ cover (blocksOf maxOrder m.freelists) 129 = 0)
      | .error _ => false) = true := by decide
  cases hm : buddyInit noSlab [⟨0x100000, 0x180000⟩, ⟨0x181000, 0x200000⟩] () 1 0x100000 0x200000 with
  | error e =>
      rw [hm] at hrun
      cases hrun
  | ok m =>
      rw [hm] at hrun
      obtain ⟨hin, hwhole, hcover⟩ := of_decide_eq_true hrun
      refine ⟨m, rfl, hwhole, fun h => ?_⟩
      have := h 129 hin hwhole
      omega

/-- **Over separated regions** the condition says that in every window the usable pages come first. -/
theorem usableFromStart_iff {m : Machine V} (hsep : PagesSeparated m) (hfit : WindowsFit m) :
    UsableFromStart m ↔ ∀ p, p < m.maxPageOffset → WholePage m p →
      ∀ q, p / 2 ^ maxOrder * 2 ^ maxOrder ≤ q → q ≤ p → WholePage m q := by
  have h128 : (2 : Nat) ^ maxOrder = 128 := by decide
  have hwin : ∀ p, p < m.maxPageOffset → p / 2 ^ maxOrder < numWindows m := by
    intro p hp
    unfold numWindows
    rw [h128]
    omega
  constructor
  · intro h p hp hu q h1 h2
    obtain ⟨n, hn, hlt, htiled⟩ := h p hp hu
    obtain ⟨l, hpre⟩ := exists_usablePrefix m (p / 2 ^ maxOrder)
    have hle := le_windowOf hn htiled
    rw [windowOf_eq_length hsep hfit (hwin p hp) hpre] at hle
    have hq := hpre.usable (q - p / 2 ^ maxOrder * 2 ^ maxOrder) (by rw [h128] at *; omega)
    rwa [Nat.add_sub_cancel' h1] at hq
  · intro h p hp hu
    obtain ⟨l, hpre⟩ := exists_usablePrefix m (p / 2 ^ maxOrder)
    have hlen := windowOf_eq_length hsep hfit (hwin p hp) hpre
    refine ⟨windowOf m (p / 2 ^ maxOrder), windowOf_le m _, ?_, tiled_windowOf m _⟩
    rw [hlen]
    by_contra hshort
    have hle := hpre.le
    refine hpre.longest (by rw [h128] at *; omega) (h p hp hu _ (Nat.le_add_right _ _) ?_)
    rw [h128] at *
    omega

end LearningOS
