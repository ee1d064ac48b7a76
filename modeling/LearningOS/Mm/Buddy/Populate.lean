import LearningOS.Mm.Buddy.Shrink

/-!
# `Mm.Buddy.Populate` — the freelists `buddy_init` starts with

`__populate_initial_freelists` goes through the range in windows of `2 ^ MAX_ORDER` pages and takes from each
the largest usable blocks, from high to low order. What it takes of a window is a prefix, `windowLen` pages
long, cut into its binary pieces; so the initial lists are a function of the regions (`initialBlocks`), cover
no page twice, and hold usable blocks only.
-/

namespace LearningOS

open Word Run Dyadic

variable {V : Type}

/-! ## Usable page ranges -/

/-- The `n` pages from page `o` on lie in one usable region. -/
def usablePages (m : Machine V) (o n : Nat) : Bool := isBlockUsable m.regions (m.addrOf o) (n * pageSize)

theorem usableAt_eq (m : Machine V) (k o : Nat) : usableAt m k o = usablePages m o (2 ^ k) := by
  unfold usableAt usablePages
  rw [pow_add, Nat.mul_comm (2 ^ pageOrder)]
  rfl

/-- The addresses of the first `2 ^ 24` pages do not wrap around. -/
def NoWrap (m : Machine V) : Prop := m.baseAddr + 2 ^ 36 < 2 ^ 64

theorem addrOf_of_noWrap {m : Machine V} (hw : NoWrap m) {o : Nat} (ho : o ≤ 2 ^ 24) :
    m.addrOf o = m.baseAddr + o * pageSize := by
  have hp : o * 2 ^ pageOrder ≤ 2 ^ 36 := by
    have : (2 : Nat) ^ 36 = 2 ^ 24 * 2 ^ pageOrder := by decide
    rw [this]
    exact Nat.mul_le_mul_right _ ho
  have h36 : (2 : Nat) ^ 36 < 2 ^ 64 := by decide
  unfold NoWrap at hw
  unfold Machine.addrOf
  rw [shl64_of_lt (lt_of_le_of_lt hp h36), add64_of_lt (lt_of_le_of_lt (Nat.add_le_add_left hp _) hw)]
  rfl

theorem usablePages_iff {m : Machine V} (hw : NoWrap m) {o n : Nat} (h : o + n ≤ 2 ^ 24) :
    usablePages m o n = true ↔
      ∃ r ∈ m.regions, r.freeStart ≤ m.baseAddr + o * pageSize ∧
        m.baseAddr + (o + n) * pageSize ≤ r.regionEnd := by
  have hp : (o + n) * pageSize ≤ 2 ^ 36 := by
    have : (2 : Nat) ^ 36 = 2 ^ 24 * pageSize := by decide
    rw [this]
    exact Nat.mul_le_mul_right _ h
  unfold NoWrap at hw
  have hlt : m.baseAddr + o * pageSize + n * pageSize < 2 ^ 64 := by
    rw [Nat.add_mul] at hp
    omega
  unfold usablePages
  rw [addrOf_of_noWrap hw (by omega), isBlockUsable_iff hlt, Nat.add_mul]
  simp only [Nat.add_assoc]

/-- A part of a usable range is usable. -/
theorem usablePages_mono {m : Machine V} (hw : NoWrap m) {o n x j : Nat} (h : o + n ≤ 2 ^ 24)
    (hu : usablePages m o n = true) (h1 : o ≤ x) (h2 : x + j ≤ o + n) : usablePages m x j = true := by
  obtain ⟨r, hr, hr1, hr2⟩ := (usablePages_iff hw h).mp hu
  refine (usablePages_iff hw (by omega)).mpr ⟨r, hr, ?_, ?_⟩
  · exact hr1.trans (Nat.add_le_add_left (Nat.mul_le_mul_right _ h1) _)
  · exact le_trans (Nat.add_le_add_left (Nat.mul_le_mul_right _ h2) _) hr2

/-- Over separated regions two usable ranges that share or border pages form a usable range. -/
theorem usablePages_join {m : Machine V} (hw : NoWrap m) (hs : Separated m.regions) {o n x j : Nat}
    (h : x + j ≤ 2 ^ 24) (hx : x ≤ o + n) (hxj : o + n ≤ x + j)
    (h1 : usablePages m o n = true) (h2 : usablePages m x j = true) :
    usablePages m o (x + j - o) = true := by
  obtain ⟨r, hr, hr1, hr2⟩ := (usablePages_iff hw (by omega)).mp h1
  obtain ⟨s, hs', hs1, hs2⟩ := (usablePages_iff hw h).mp h2
  have hmul : x * pageSize ≤ (o + n) * pageSize := Nat.mul_le_mul_right _ hx
  have hmul2 : o * pageSize ≤ (x + j) * pageSize := Nat.mul_le_mul_right _ (by omega)
  have he : o + (x + j - o) = x + j := by omega
  refine (usablePages_iff hw (by omega)).mpr ⟨s, hs', ?_, by rw [he]; exact hs2⟩
  by_cases hrs : r = s
  · rw [← hrs]
    exact hr1
  · rcases hs r hr s hs' hrs with hlt | hlt
    · exact absurd (lt_of_lt_of_le hlt (hs1.trans ((Nat.add_le_add_left hmul _).trans hr2))) (lt_irrefl _)
    · exact absurd (lt_of_lt_of_le hlt (hr1.trans ((Nat.add_le_add_left hmul2 _).trans hs2))) (lt_irrefl _)

/-! ## One window -/

/-- How many pages `__populate_initial_freelists` takes from `inner` on, trying the orders below `order`. -/
def windowLen (m : Machine V) (cursor : Nat) : Nat → Nat → Nat
  | 0, _ => 0
  | order + 1, inner =>
    if inner < 2 ^ maxOrder then
      if usableAt m order (inner + cursor) then 2 ^ order + windowLen m cursor order (inner + 2 ^ order)
      else windowLen m cursor order inner
    else 0

theorem windowLen_congr {m m' : Machine V} (h : SameLayout m m') (cursor : Nat) :
    ∀ order inner, windowLen m' cursor order inner = windowLen m cursor order inner
  | 0, _ => rfl
  | order + 1, inner => by
      unfold windowLen
      rw [h.usableAt, windowLen_congr h cursor order, windowLen_congr h cursor order]

theorem windowLen_lt (m : Machine V) (cursor : Nat) :
    ∀ order inner, windowLen m cursor order inner < 2 ^ order
  | 0, _ => by simp [windowLen]
  | order + 1, inner => by
      have h2 := two_pow_succ' order
      have h1 := windowLen_lt m cursor order (inner + 2 ^ order)
      have h3 := windowLen_lt m cursor order inner
      unfold windowLen
      split
      · split <;> omega
      · omega

/-- What is taken stays inside the window. -/
theorem windowLen_le (m : Machine V) (cursor : Nat) :
    ∀ order inner, order ≤ maxOrder + 1 → 2 ^ order ∣ inner → inner ≤ 2 ^ maxOrder →
      inner + windowLen m cursor order inner ≤ 2 ^ maxOrder
  | 0, inner, _, _, h => h
  | order + 1, inner, ho, hd, hi => by
      have hdk : 2 ^ order ∣ inner := (pow_dvd_pow 2 (Nat.le_succ order)).trans hd
      unfold windowLen
      by_cases hlt : inner < 2 ^ maxOrder
      · rw [if_pos hlt]
        by_cases hu : usableAt m order (inner + cursor) = true
        · have hend : inner + 2 ^ order ≤ 2 ^ maxOrder := add_two_pow_le (by omega) hdk hlt
          have := windowLen_le m cursor order (inner + 2 ^ order) (by omega) (Nat.dvd_add hdk dvd_rfl) hend
          rw [if_pos hu]
          omega
        · rw [if_neg hu]
          exact windowLen_le m cursor order inner (by omega) hdk hi
      · rw [if_neg hlt]
        exact hi

section Separated

variable {m : Machine V} (hw : NoWrap m) (hs : Separated m.regions) {cursor : Nat}
  (hcur : cursor + 2 ^ maxOrder ≤ 2 ^ 24)

include hw hs hcur

/-- Over separated regions the prefix taken of a window is usable as a whole. -/
theorem windowLen_usable :
    ∀ order inner, order ≤ maxOrder + 1 → 2 ^ order ∣ inner → inner ≤ 2 ^ maxOrder →
      0 < windowLen m cursor order inner →
      usablePages m (inner + cursor) (windowLen m cursor order inner) = true
  | 0, _, _, _, _, h => by cases h
  | order + 1, inner, ho, hd, hi, h => by
      have hdk : 2 ^ order ∣ inner := (pow_dvd_pow 2 (Nat.le_succ order)).trans hd
      unfold windowLen at h ⊢
      by_cases hlt : inner < 2 ^ maxOrder
      · rw [if_pos hlt] at h ⊢
        by_cases hu : usableAt m order (inner + cursor) = true
        · rw [if_pos hu]
          rw [usableAt_eq] at hu
          have hend : inner + 2 ^ order ≤ 2 ^ maxOrder := add_two_pow_le (by omega) hdk hlt
          have hd' : 2 ^ order ∣ inner + 2 ^ order := Nat.dvd_add hdk dvd_rfl
          have hle := windowLen_le m cursor order (inner + 2 ^ order) (by omega) hd' hend
          by_cases hz : windowLen m cursor order (inner + 2 ^ order) = 0
          · rw [hz, Nat.add_zero]
            exact hu
          · have hrec := windowLen_usable order (inner + 2 ^ order) (by omega) hd' hend (by omega)
            have hj := usablePages_join hw hs (by omega) (by omega) (by omega) hu hrec
            have he : inner + 2 ^ order + cursor + windowLen m cursor order (inner + 2 ^ order)
                - (inner + cursor) = 2 ^ order + windowLen m cursor order (inner + 2 ^ order) := by omega
            rw [he] at hj
            exact hj
        · rw [if_neg hu] at h ⊢
          exact windowLen_usable order inner (by omega) hdk hi h
      · rw [if_neg hlt] at h
        cases h

/-- Each block taken is as large as usable memory allows at its offset. -/
theorem windowLen_maximal :
    ∀ order inner, order ≤ maxOrder + 1 → 2 ^ order ∣ inner → inner ≤ 2 ^ maxOrder →
      (order ≤ maxOrder → inner < 2 ^ maxOrder → usableAt m order (inner + cursor) = false) →
      ∀ b ∈ pieces (inner + cursor) (windowLen m cursor order inner) order, b.order < maxOrder →
        usableAt m (b.order + 1) b.offset = false
  | 0, _, _, _, _, _, b, hb, _ => by cases hb
  | order + 1, inner, ho, hd, hi, hH, b, hb, hbo => by
      have hdk : 2 ^ order ∣ inner := (pow_dvd_pow 2 (Nat.le_succ order)).trans hd
      have h2 := two_pow_succ' order
      unfold windowLen at hb
      by_cases hlt : inner < 2 ^ maxOrder
      · rw [if_pos hlt] at hb
        by_cases hu : usableAt m order (inner + cursor) = true
        · have hll := windowLen_lt m cursor order (inner + 2 ^ order)
          have hend : inner + 2 ^ order ≤ 2 ^ maxOrder := add_two_pow_le (by omega) hdk hlt
          rw [if_pos hu, pieces_left (Nat.le_add_right _ _) (by omega), Nat.add_sub_cancel_left,
            (by omega : inner + cursor + 2 ^ order = inner + 2 ^ order + cursor)] at hb
          rcases List.mem_cons.mp hb with rfl | hb
          · exact hH hbo hlt
          · refine windowLen_maximal order (inner + 2 ^ order) (by omega) (Nat.dvd_add hdk dvd_rfl) hend ?_
              b hb hbo
            -- Were the next block usable too, the two would have been taken as one.
            intro hle7 hin
            by_contra hc
            have hne : order ≠ maxOrder := by
              rintro rfl
              omega
            have hbig := hH (by omega) hlt
            rw [Bool.not_eq_false, usableAt_eq] at hc
            rw [usableAt_eq] at hu hbig
            have hend2 : inner + 2 ^ (order + 1) ≤ 2 ^ maxOrder := add_two_pow_le (by omega) hd hlt
            have hj := usablePages_join hw hs (by omega) (by omega) (by omega) hu hc
            rw [(by omega : inner + 2 ^ order + cursor + 2 ^ order - (inner + cursor) = 2 ^ (order + 1)),
              hbig] at hj
            cases hj
        · rw [if_neg hu, pieces_of_lt (windowLen_lt m cursor order inner)] at hb
          exact windowLen_maximal order inner (by omega) hdk hi (fun _ _ => Bool.eq_false_iff.mpr hu) b hb hbo
      · rw [if_neg hlt, pieces_zero] at hb
        cases hb

end Separated

/-- The bytes of a block. -/
def blockBytes (k _o : Nat) : Nat := 2 ^ (k + pageOrder)

/-- The state after some blocks were put on the lists and counted. -/
structure Filled (m m' : Machine V) (blocks : List Block) : Prop where
  effect : ListEffect m [] blocks m'
  map : m'.buddyStateMap = m.buddyStateMap
  freeBytes : m.freeSpaceBytes < 2 ^ 64 →
    m'.freeSpaceBytes = (m.freeSpaceBytes + total blockBytes blocks) % 2 ^ 64
  allocBytes : m'.allocatedBytes = m.allocatedBytes

theorem Filled.refl (m : Machine V) : Filled m m [] :=
  ⟨.refl m, rfl, fun h => (Nat.mod_eq_of_lt h).symm, rfl⟩

theorem Filled.trans {m m' m'' : Machine V} {bs bs' : List Block} (h : Filled m m' bs)
    (h' : Filled m' m'' bs') : Filled m m'' (bs ++ bs') := by
  refine ⟨h.effect.trans h'.effect, h'.map.trans h.map, fun hlt => ?_, h'.allocBytes.trans h.allocBytes⟩
  have h1 := h.freeBytes hlt
  have h2 := h'.freeBytes (by rw [h1]; exact Nat.mod_lt _ (by decide))
  rw [h2, h1, total_append, Nat.mod_add_mod, Nat.add_assoc]

/-- One block taken. -/
theorem Filled.addEntry {m : Machine V} {k : Nat} (o : Nat) (hc : 0 < m.freelistCache.cells)
    (hk : k ≤ maxOrder) :
    Filled m ((m.addEntry k o).setCounters
      (add64 (m.addEntry k o).freeSpaceBytes (2 ^ (12 + k))) (m.addEntry k o).allocatedBytes)
      [storedBlock ⟨o, k⟩] where
  effect := (Effect.addStored o hc hk).toListEffect.setCounters _ _
  map := rfl
  freeBytes := fun _ => by
    rw [setCounters_freeSpaceBytes, (Effect.addStored o hc hk).freeBytes, Nat.add_comm 12]
    rfl
  allocBytes := (setCounters_allocatedBytes _ _ _).trans (Effect.addStored o hc hk).allocBytes

theorem populateWindow_filled {cursor : Nat} :
    ∀ (order : Nat) {inner : Nat} {m m' : Machine V},
      populateWindow noSlab cursor order inner m = .ok m' →
      Filled m m' ((pieces (inner + cursor) (windowLen m cursor order inner) order).map storedBlock)
  | 0, inner, m, m', h => by
      cases h
      exact .refl m
  | order + 1, inner, m, m', h => by
      unfold populateWindow at h
      unfold windowLen
      by_cases hlt : inner < 2 ^ maxOrder
      · rw [if_pos hlt] at h ⊢
        by_cases hu : usableAt m order (inner + cursor) = true
        · have hu' : isBlockUsable m.regions (m.addrOf (inner + cursor)) (2 ^ (12 + order)) = true := hu
          rw [if_pos hu]
          simp only [if_pos hu'] at h
          obtain ⟨m1, h1, h2⟩ := bind_eq_ok.mp h
          obtain ⟨hc, hk, rfl⟩ := allocateFreelistEntry_ok.mp h1
          have hf := Filled.addEntry (inner + cursor) hc hk
          have hrec := populateWindow_filled order h2
          rw [windowLen_congr hf.effect.layout] at hrec
          have hll := windowLen_lt m cursor order (inner + 2 ^ order)
          rw [pieces_left (Nat.le_add_right _ _) (by rw [two_pow_succ']; omega), Nat.add_sub_cancel_left,
            (by omega : inner + cursor + 2 ^ order = inner + 2 ^ order + cursor)]
          exact hf.trans hrec
        · have hu' : ¬ isBlockUsable m.regions (m.addrOf (inner + cursor)) (2 ^ (12 + order)) = true := hu
          rw [if_neg hu]
          simp only [if_neg hu'] at h
          have hrec := populateWindow_filled order h
          rw [pieces_of_lt (windowLen_lt m cursor order inner)]
          exact hrec
      · rw [if_neg hlt] at h ⊢
        cases h
        rw [pieces_zero]
        exact .refl m

/-! ## All windows -/

/-- The blocks of the windows `w … w + n - 1`, each a prefix of the given length. -/
def windowsFrom (len : Nat → Nat) : Nat → Nat → List Block
  | 0, _ => []
  | n + 1, w => pieces (w * 2 ^ maxOrder) (len w) (maxOrder + 1) ++ windowsFrom len n (w + 1)

/-- How much of window `w` is taken. -/
def windowOf (m : Machine V) (w : Nat) : Nat := windowLen m (w * 2 ^ maxOrder) (maxOrder + 1) 0

/-- The number of windows of the allocator's range. -/
def numWindows (m : Machine V) : Nat := (m.maxPageOffset + 127) / 128

/-- The blocks `buddy_init` puts on the freelists. -/
def initialBlocks (m : Machine V) : List Block := windowsFrom (windowOf m) (numWindows m) 0

theorem mem_windowsFrom {len : Nat → Nat} {b : Block} :
    ∀ {n w : Nat}, b ∈ windowsFrom len n w ↔
      ∃ i, w ≤ i ∧ i < w + n ∧ b ∈ pieces (i * 2 ^ maxOrder) (len i) (maxOrder + 1)
  | 0, w => by
      simp only [windowsFrom, List.not_mem_nil, false_iff, not_exists]
      rintro i ⟨h1, h2, -⟩
      omega
  | n + 1, w => by
      unfold windowsFrom
      rw [List.mem_append, mem_windowsFrom]
      constructor
      · rintro (hb | ⟨i, h1, h2, hb⟩)
        · exact ⟨w, le_rfl, by omega, hb⟩
        · exact ⟨i, by omega, by omega, hb⟩
      · rintro ⟨i, h1, h2, hb⟩
        by_cases hi : i = w
        · subst hi
          exact .inl hb
        · exact .inr ⟨i, by omega, by omega, hb⟩

/-- A page is covered once if it lies in the prefix taken of its window, else not at all. -/
theorem cover_windowsFrom {len : Nat → Nat} (hlen : ∀ w, len w ≤ 128) (p : Nat) :
    ∀ (n w : Nat), cover (windowsFrom len n w) p
      = if w ≤ p / 128 ∧ p / 128 < w + n ∧ p % 128 < len (p / 128) then 1 else 0
  | 0, w => by
      rw [if_neg (by omega)]
      rfl
  | n + 1, w => by
      have hl := hlen w
      unfold windowsFrom
      rw [cover_append, cover_windowsFrom hlen p n (w + 1), cover_eq_total,
        total_hit_pieces p (lt_of_le_of_lt hl (by decide))]
      have h128 : (2 : Nat) ^ maxOrder = 128 := by decide
      rw [h128]
      by_cases hw : p / 128 = w
      · rw [if_neg (c := w + 1 ≤ p / 128 ∧ _) (by omega), Nat.add_zero, hw]
        exact if_congr (by omega) rfl rfl
      · rw [if_neg (c := w * 128 ≤ p ∧ _) (by omega), Nat.zero_add]
        exact if_congr (by omega) rfl rfl

theorem windowOf_le (m : Machine V) (w : Nat) : windowOf m w ≤ 128 := by
  have h := windowLen_le m (w * 2 ^ maxOrder) (maxOrder + 1) 0 le_rfl (dvd_zero _) (Nat.zero_le _)
  rw [Nat.zero_add] at h
  exact h

/-- **The initial blocks cover no page twice.** -/
theorem cover_initialBlocks_le_one (m : Machine V) (p : Nat) : cover (initialBlocks m) p ≤ 1 := by
  unfold initialBlocks
  rw [cover_windowsFrom (windowOf_le m)]
  split <;> omega

theorem mem_initialBlocks {m : Machine V} {b : Block} :
    b ∈ initialBlocks m ↔
      ∃ w < numWindows m, b ∈ pieces (w * 2 ^ maxOrder) (windowOf m w) (maxOrder + 1) := by
  unfold initialBlocks
  rw [mem_windowsFrom]
  constructor
  · rintro ⟨i, -, h2, hb⟩
    exact ⟨i, by omega, hb⟩
  · rintro ⟨i, h2, hb⟩
    exact ⟨i, Nat.zero_le _, by omega, hb⟩

/-- The initial blocks are aligned blocks below `MAX_ORDER`, in the part of the range the bitmap charts. -/
theorem initialBlocks_shape {m : Machine V} {b : Block} (hb : b ∈ initialBlocks m) :
    b.order ≤ maxOrder ∧ 2 ^ b.order ∣ b.offset ∧ b.offset / 256 * 256 < m.maxPageOffset ∧
      b.offset + 2 ^ b.order ≤ numWindows m * 128 := by
  have h128 : (2 : Nat) ^ maxOrder = 128 := by decide
  obtain ⟨w, hw, hb⟩ := mem_initialBlocks.mp hb
  have hle := windowOf_le m w
  -- A window of 128 pages starts inside the range, and its blocks share its 256 pages.
  have hshape : b.order ≤ maxOrder ∧ 2 ^ b.order ∣ b.offset ∧ w * 128 ≤ b.offset ∧
      b.offset + 2 ^ b.order ≤ w * 128 + 128 := by
    by_cases hfull : windowOf m w = 2 ^ maxOrder
    · rw [hfull, pieces_two_pow, List.mem_singleton] at hb
      subst hb
      exact ⟨le_rfl, Dvd.intro_left _ rfl, le_rfl, le_rfl⟩
    · rw [pieces_of_lt (by omega)] at hb
      obtain ⟨h1, h2, h3, h4⟩ := mem_pieces (by omega) (Dvd.intro_left _ rfl) hb
      rw [h128] at h3 h4
      exact ⟨by omega, h2, h3, by omega⟩
  obtain ⟨h1, h2, h3, h4⟩ := hshape
  have hpos := Nat.two_pow_pos b.order
  unfold numWindows at hw ⊢
  exact ⟨h1, h2, by omega, by omega⟩

/-- What an entry records of an initial block is a sound block. -/
theorem sound_storedBlock {m : Machine V} {b : Block} (hb : b ∈ initialBlocks m) :
    Sound m.maxPageOffset (storedBlock b).offset (storedBlock b).order := by
  obtain ⟨h1, h2, h3, -⟩ := initialBlocks_shape hb
  have h24 : b.order ≤ 24 := h1.trans (by decide)
  have hd : 2 ^ b.order ∣ storedOffset b.offset := (Nat.dvd_mod_iff (pow_dvd_pow 2 h24)).mpr h2
  refine ⟨h1, hd, add_two_pow_le h24 hd (Nat.mod_lt _ (by decide)), ?_⟩
  have hle : storedOffset b.offset ≤ b.offset := Nat.mod_le _ _
  exact lt_of_le_of_lt (Nat.mul_le_mul_right _ (Nat.div_le_div_right hle)) h3

/-- Up to `2 ^ 24` pages the 24 bits of `page_offset` lose nothing. -/
theorem map_storedBlock_initialBlocks {m : Machine V} (hp : m.maxPageOffset ≤ 2 ^ 24) :
    (initialBlocks m).map storedBlock = initialBlocks m := by
  refine (List.map_congr_left (fun b hb => ?_)).trans (List.map_id _)
  obtain ⟨-, -, -, h4⟩ := initialBlocks_shape hb
  have hpos := Nat.two_pow_pos b.order
  have hlt : b.offset < 2 ^ 24 := by
    unfold numWindows at h4
    omega
  show Block.mk (b.offset % 2 ^ 24) b.order = b
  rw [Nat.mod_eq_of_lt hlt]

theorem populateFrom_filled {max : Nat} :
    ∀ (n w : Nat) {m m' : Machine V}, populateFrom noSlab max n (w * 2 ^ maxOrder) m = .ok m' →
      Filled m m' ((windowsFrom (windowOf m) ((max + 127) / 128 - w) w).map storedBlock)
  | 0, _, _, _, h => by cases h
  | n + 1, w, m, m', h => by
      have h128 : (2 : Nat) ^ maxOrder = 128 := by decide
      unfold populateFrom at h
      by_cases hlt : w * 2 ^ maxOrder < max
      · rw [if_pos hlt] at h
        obtain ⟨m1, h1, h2⟩ := bind_eq_ok.mp h
        have hf := populateWindow_filled (maxOrder + 1) h1
        have hnext : w * 2 ^ maxOrder + 2 ^ maxOrder = (w + 1) * 2 ^ maxOrder := by ring
        rw [hnext] at h2
        have hrec := populateFrom_filled n (w + 1) h2
        have hcong : windowOf m1 = windowOf m := by
          funext i
          exact windowLen_congr hf.effect.layout _ _ _
        have hcount : (max + 127) / 128 - w = (max + 127) / 128 - (w + 1) + 1 := by
          rw [h128] at hlt
          omega
        rw [hcong] at hrec
        rw [Nat.zero_add] at hf
        rw [hcount, windowsFrom, List.map_append]
        exact hf.trans hrec
      · rw [if_neg hlt] at h
        cases h
        have hcount : (max + 127) / 128 - w = 0 := by
          rw [h128] at hlt
          omega
        rw [hcount]
        exact .refl m

/-- What the usability test says about an initial block below `MAX_ORDER`: it is the left half of a pair
    that is not usable as a whole. -/
theorem initialBlocks_unmergeable {m : Machine V} (hw : NoWrap m) (hs : Separated m.regions)
    (hp : m.maxPageOffset ≤ 2 ^ 24) {b : Block} (hb : b ∈ initialBlocks m) (hbo : b.order < maxOrder) :
    2 ^ (b.order + 1) ∣ b.offset ∧ usableAt m (b.order + 1) b.offset = false := by
  have h128 : (2 : Nat) ^ maxOrder = 128 := by decide
  obtain ⟨w, hwin, hb⟩ := mem_initialBlocks.mp hb
  have hcur : w * 2 ^ maxOrder + 2 ^ maxOrder ≤ 2 ^ 24 := by
    unfold numWindows at hwin
    rw [h128]
    omega
  have hle := windowOf_le m w
  refine ⟨?_, ?_⟩
  · by_cases hfull : windowOf m w = 2 ^ maxOrder
    · rw [hfull, pieces_two_pow, List.mem_singleton] at hb
      subst hb
      exact absurd hbo (lt_irrefl _)
    · rw [pieces_of_lt (by omega)] at hb
      exact dvd_of_mem_pieces (by omega) (Dvd.intro_left _ rfl) hb
  · have := windowLen_maximal hw hs hcur (maxOrder + 1) 0 le_rfl (dvd_zero _) (Nat.zero_le _)
      (fun h => absurd h (by omega)) b
    rw [Nat.zero_add] at this
    exact this hb hbo

/-- A window that is usable as a whole is taken as a whole. -/
theorem windowOf_of_usable {m : Machine V} {w : Nat} (h : usableAt m maxOrder (w * 2 ^ maxOrder) = true) :
    windowOf m w = 2 ^ maxOrder := by
  unfold windowOf windowLen
  rw [if_pos (by decide), Nat.zero_add, if_pos h]
  unfold windowLen
  rw [if_neg (by decide)]
  rfl

/-! ## After `buddy_init` -/

theorem initialBlocks_congr {m m' : Machine V} (h : SameLayout m m') : initialBlocks m' = initialBlocks m := by
  have hw : windowOf m' = windowOf m := by
    funext i
    exact windowLen_congr h _ _ _
  unfold initialBlocks numWindows
  rw [hw, h.maxPageOffset]

/-- **`buddy_init` puts exactly the initial blocks on the empty freelists.** -/
theorem buddyInit_filled {regions : List PhysmemRegion} {vm : V} {poolSlabs baseAddr endAddr : Nat}
    {m : Machine V} (h : buddyInit noSlab regions vm poolSlabs baseAddr endAddr = .ok m) :
    Filled (emptyAllocator regions vm poolSlabs baseAddr endAddr) m ((initialBlocks m).map storedBlock) := by
  unfold buddyInit populateInitialFreelists at h
  have hf := populateFrom_filled _ 0 (by rw [Nat.zero_mul]; exact h)
  rw [initialBlocks_congr hf.effect.layout]
  exact hf

/-- What holds of the allocator when `buddy_init` returns. -/
structure Booted (m : Machine V) : Prop where
  charted : Charted m
  lists : ∀ f, weigh maxOrder f m.freelists = total f ((initialBlocks m).map storedBlock)
  bits : ∀ k o, pairBit m k o = false
  objects : m.freelistCache.allocatedObjects = (initialBlocks m).length
  nodes : m.freelistCache.cells + (initialBlocks m).length ≤ 255 * objsPerSlab
  freeBytes : m.freeSpaceBytes = total blockBytes ((initialBlocks m).map storedBlock) % 2 ^ 64
  allocBytes : m.allocatedBytes = 0

theorem booted_of_buddyInit {regions : List PhysmemRegion} {vm : V} {poolSlabs baseAddr endAddr : Nat}
    {m : Machine V} (h : buddyInit noSlab regions vm poolSlabs baseAddr endAddr = .ok m) :
    Booted m ∧ m.regions = regions ∧ m.baseAddr = baseAddr ∧ m.endAddr = endAddr := by
  have hf := buddyInit_filled h
  have hl := hf.effect.layout
  have hempty : ∀ f, weigh maxOrder f (emptyAllocator regions vm poolSlabs baseAddr endAddr).freelists = 0 := by
    intro f
    simp [weigh, emptyAllocator]
  have hcells := hf.effect.nodes.cells
  have hobj := hf.effect.nodes.objects
  have hwidth := hf.effect.nodes.width (by simp [emptyAllocator])
  rw [List.length_map] at hcells hobj
  have hnodes : m.freelistCache.cells + (initialBlocks m).length ≤ 255 * objsPerSlab := by
    simp only [emptyAllocator, FreelistCache.cells, List.length_nil] at hcells
    have h255 : poolSlabs % 2 ^ 8 ≤ 255 := Nat.le_of_lt_succ (Nat.mod_lt _ (by decide))
    have := Nat.mul_le_mul_right objsPerSlab h255
    unfold FreelistCache.cells
    omega
  refine ⟨⟨?_, ?_, ?_, ?_, ?_, ?_, ?_⟩, hl.regions, hl.baseAddr, hl.endAddr⟩
  · refine hl.charted ?_
    exact sizeBytes_bmpInit _
  · intro f
    have := hf.effect.lists f
    rw [hempty, total_nil, Nat.add_zero, Nat.zero_add] at this
    exact this
  · intro k o
    unfold pairBit
    rw [hf.map]
    exact bitAt_bmpInit _ _
  · simp only [emptyAllocator, List.length_nil, Nat.add_zero, Nat.zero_add] at hobj
    have hlt : (initialBlocks m).length < 2 ^ 32 :=
      lt_of_le_of_lt (le_trans (Nat.le_add_left _ _) hnodes) (by decide)
    rw [Nat.mod_eq_of_lt hwidth, Nat.mod_eq_of_lt hlt] at hobj
    exact hobj
  · exact hnodes
  · have := hf.freeBytes (by simp [emptyAllocator])
    rw [this]
    simp [emptyAllocator]
  · exact hf.allocBytes

theorem Booted.soundLists {m : Machine V} (h : Booted m) : SoundLists m := by
  intro k hk o ho
  have hcount := h.lists (tally ⟨o, k⟩)
  rw [weigh_tally, if_pos hk, total_tally] at hcount
  have hpos : 0 < (m.freelists k).count o := List.count_pos_iff.mpr ho
  have hmem : (⟨o, k⟩ : Block) ∈ (initialBlocks m).map storedBlock :=
    List.count_pos_iff.mp (by dsimp only at hcount; omega)
  obtain ⟨b, hb, hbe⟩ := List.mem_map.mp hmem
  have := sound_storedBlock hb
  rw [hbe] at this
  exact this

end LearningOS
