import LearningOS.Mm.Buddy.Coverage
import LearningOS.Mm.Phys.Model

/-!
# `Mm.Phys.PoolSize` — the memory set aside for `buddy_init`

`buddy_estimate_pool_size` estimates two things before there is an allocator: the pages of the pair bitmap and the
slabs of freelist nodes. Both estimates fall short of what `buddy_init` then uses, the first where rounding down to
bytes crosses a page, the second where many windows end in a hole; `bitmap_fits_iff` and `estimate_suffices_iff` say
exactly when they do not.
-/

namespace LearningOS

open Word Run Dyadic

variable {V : Type}

/-! ## The bitmap -/

/-- The bytes `reserve_physmem_region` sets aside for the bitmap. -/
def bitmapBytesReserved (numPages : Nat) : Nat := (buddyEstimatePoolSize numPages).bitmapAndStructPages * pageSize

/-- The bitmap of `buddy_init` lies in the reserved pages, and so does every byte its operations access. -/
structure BitmapFits (numPages : Nat) : Prop where
  size : (bmpInit (buddyBmpSizeBits numPages)).sizeBytes ≤ bitmapBytesReserved numPages
  accesses : ∀ bmp : Bitmap, bmp.sizeBytes = (bmpInit (buddyBmpSizeBits numPages)).sizeBytes →
    ∀ index, bmp.InRange index → index / 8 < bitmapBytesReserved numPages

theorem bitmapBytesReserved_eq {numPages : Nat} (h : numPages ≤ 2 ^ 24) :
    bitmapBytesReserved numPages = ((numPages + 255) / 256 * 255 / 8 + 4095) / 4096 * 4096 := by
  have hpages : (buddyEstimatePoolSize numPages).bitmapAndStructPages
      = ((numPages + 255) / 256 * 255 / 8 + 4095) / 4096 % 2 ^ 16 := by
    show roundUpShiftRight (buddyBmpSizeBits numPages >>> 3) pageOrder % 2 ^ 16 = _
    rw [buddyBmpSizeBits_eq, roundUpShiftRight_eq, Nat.shiftRight_eq_div_pow]
    rfl
  unfold bitmapBytesReserved
  rw [hpages, Nat.mod_eq_of_lt (by omega)]

/-- The numbers of 256-page groups, up to multiples of `2 ^ 15`, for which the bitmap ends one byte behind the
    reserved pages. -/
def shortGroups : List Nat := [30969, 31226, 31483, 31740, 31997, 32254, 32511]

/-- 255 is invertible modulo `2 ^ 15`: the bits in the last byte determine the number of groups. -/
theorem mem_shortGroups {q : Nat} : q % 32768 ∈ shortGroups ↔ 1 ≤ q * 255 % 32768 ∧ q * 255 % 32768 ≤ 7 := by
  have hmod : q * 255 % 32768 = q % 32768 * 255 % 32768 := by omega
  have hlt : q % 32768 < 32768 := Nat.mod_lt _ (by decide)
  unfold shortGroups
  simp only [List.mem_cons, List.not_mem_nil, or_false]
  rw [hmod]
  generalize q % 32768 = s at hlt
  constructor
  · omega
  · rintro ⟨h1, h2⟩
    have hdiv := Nat.div_add_mod (s * 255) 32768
    generalize s * 255 % 32768 = r at h1 h2 hdiv
    generalize s * 255 / 32768 = d at hdiv
    interval_cases r <;> omega

/-- Rounding up to bytes fits into rounding down to bytes and up to pages, unless one to seven bits are left of a
    full page. -/
theorem round_bytes_le_iff (x : Nat) :
    (x + 7) / 8 ≤ (x / 8 + 4095) / 4096 * 4096 ↔ ¬ (1 ≤ x % 32768 ∧ x % 32768 ≤ 7) := by
  have hx : x = 32768 * (x / 32768) + x % 32768 := (Nat.div_add_mod x 32768).symm
  have hlt : x % 32768 < 32768 := Nat.mod_lt _ (by decide)
  generalize x / 32768 = a at hx
  generalize x % 32768 = r at hx hlt ⊢
  subst hx
  have hdown : (32768 * a + r) / 8 = 4096 * a + r / 8 := by omega
  have hup : (32768 * a + r + 7) / 8 = 4096 * a + (r + 7) / 8 := by omega
  rw [hdown, hup]
  by_cases hr : r < 8
  · have hpages : (4096 * a + r / 8 + 4095) / 4096 = a := by omega
    rw [hpages]
    omega
  · have hpages : (4096 * a + r / 8 + 4095) / 4096 = a + 1 := by omega
    rw [hpages]
    omega

/-- **The reserved pages hold the bitmap exactly if its size is not one to seven bits past a full page.** -/
theorem bitmap_fits_iff {numPages : Nat} (h : numPages ≤ 2 ^ 24) :
    BitmapFits numPages ↔ (numPages + 255) / 256 % 32768 ∉ shortGroups := by
  have hsize : (bmpInit (buddyBmpSizeBits numPages)).sizeBytes = ((numPages + 255) / 256 * 255 + 7) / 8 := by
    rw [sizeBytes_bmpInit, buddyBmpSizeBits_eq]
  have hreserved := bitmapBytesReserved_eq h
  have hround := round_bytes_le_iff ((numPages + 255) / 256 * 255)
  rw [← hsize, ← hreserved] at hround
  rw [mem_shortGroups, ← hround]
  constructor
  · exact fun hfit => hfit.size
  · intro hfit
    refine ⟨hfit, fun bmp hbmp index hin => ?_⟩
    unfold Bitmap.InRange at hin
    omega

theorem bitmap_fits_iff_four_gigabytes : BitmapFits 0x100000 ↔ (0x100000 + 255) / 256 % 32768 ∉ shortGroups :=
  bitmap_fits_iff (by decide)

/-- 987137 bytes of bitmap on 241 pages. -/
theorem bitmap_past_reserved_pages : ¬ BitmapFits 7927809 := by
  intro h
  have hsize := h.size
  rw [sizeBytes_bmpInit] at hsize
  revert hsize
  decide

/-! ## The freelist nodes -/

/-- The slabs `buddy_estimate_pool_size` asks for. -/
def estimatedSlabs (bounds : AllocBounds) : Nat :=
  (buddyEstimatePoolSize (sub64 bounds.stop bounds.start >>> pageOrder)).freelistPoolSlabs

/-- `buddy_init` with the estimated slabs never comes to `__slab_create`: it takes no more nodes than they hold. -/
def EstimateSuffices (regions : List PhysmemRegion) (vm : V) (bounds : AllocBounds) : Prop :=
  ∃ m, buddyInit noSlab regions vm (estimatedSlabs bounds) bounds.start bounds.stop = .ok m ∧
    m.freelistCache.allocatedObjects ≤ estimatedSlabs bounds * objsPerSlab

/-- How many pages of window `w`, from its start on, usable blocks can fill. -/
def usableLen (m : Machine V) (w : Nat) : Nat := Nat.findGreatest (Tiled m w) (2 ^ maxOrder)

/-- The binary digits 1 of a length up to `2 ^ MAX_ORDER`. -/
def binaryOnes (n : Nat) : Nat := ((List.range (maxOrder + 1)).filter n.testBit).length

/-- The nodes the windows need beyond one each: a window that is usable from its start for part of its length needs
    one for each binary digit of that part. -/
def extraNodes (m : Machine V) : Nat :=
  ((List.range (numWindows m)).map fun w => binaryOnes (usableLen m w) - 1).sum

/-- The windows that need no node, as their first page is not usable. -/
def emptyWindows (m : Machine V) : Nat := (List.range (numWindows m)).countP fun w => usableLen m w = 0

/-- The nodes the estimate has beyond one for each window: the `3 * (MAX_ORDER + 1)` it adds, and what rounding up
    to slabs adds. -/
def spareNodes (windows : Nat) : Nat := 24 + (1020 - (windows + 23) % 1021)

theorem usableLen_eq (m : Machine V) (w : Nat) : usableLen m w = windowOf m w := by
  refine Nat.le_antisymm ?_ (Nat.le_findGreatest (windowOf_le m w) (tiled_windowOf m w))
  refine le_windowOf (Nat.findGreatest_le _) ?_
  exact Nat.findGreatest_spec (Nat.zero_le _) (fun b hb => by rw [pieces_zero] at hb; cases hb)

theorem length_pieces (n o : Nat) : (pieces o n (maxOrder + 1)).length = binaryOnes n := by
  rw [← List.length_map (f := Block.order), map_order_pieces]
  unfold binaryOnes
  rw [List.filter_reverse, List.length_reverse]

theorem binaryOnes_eq_zero {n : Nat} (hn : n ≤ 2 ^ maxOrder) : binaryOnes n = 0 ↔ n = 0 := by
  constructor
  · intro h
    have hnil := List.length_eq_zero_iff.mp ((length_pieces n 0).trans h)
    have hsum := total_size_pieces 1 (o := 0) (lt_of_le_of_lt hn (by decide : 2 ^ maxOrder < 2 ^ (maxOrder + 1)))
    rw [hnil, total_nil, Nat.one_mul] at hsum
    exact hsum.symm
  · rintro rfl
    decide

/-- The nodes taken, counted window by window. -/
theorem length_initialBlocks (m : Machine V) :
    (initialBlocks m).length + emptyWindows m = numWindows m + extraNodes m := by
  have hsum : ∀ ws : List Nat,
      (ws.map fun w => (pieces (w * 2 ^ maxOrder) (windowOf m w) (maxOrder + 1)).length).sum
        + ws.countP (fun w => usableLen m w = 0)
      = ws.length + (ws.map fun w => binaryOnes (usableLen m w) - 1).sum := by
    intro ws
    induction ws with
    | nil => rfl
    | cons w ws ih =>
        have hzero := binaryOnes_eq_zero (windowOf_le m w)
        rw [List.map_cons, List.map_cons, List.sum_cons, List.sum_cons, List.countP_cons, List.length_cons,
          length_pieces, usableLen_eq]
        by_cases hw : windowOf m w = 0
        · rw [if_pos (decide_eq_true hw), hzero.mpr hw]
          omega
        · rw [if_neg (by simpa using hw)]
          have := mt hzero.mp hw
          omega
  have h := hsum (List.range (numWindows m))
  rw [List.length_range] at h
  rw [initialBlocks_eq, List.length_flatMap]
  exact h

/-- What is left of the estimate, as numbers. -/
theorem le_slabs_iff {taken empty windows extra slabs : Nat} (hcount : taken + empty = windows + extra)
    (hslabs : slabs = (windows + 24 + 1020) / 1021) :
    taken ≤ slabs * objsPerSlab ↔ extra ≤ empty + spareNodes windows := by
  unfold spareNodes objsPerSlab
  omega

/-- The number of slabs changes nothing of the layout. -/
theorem emptyAllocator_layout (regions : List PhysmemRegion) (vm : V) (slabs slabs' start stop : Nat) :
    SameLayout (emptyAllocator regions vm slabs start stop) (emptyAllocator regions vm slabs' start stop) :=
  ⟨rfl, rfl, rfl, rfl, rfl⟩

theorem numWindows_emptyAllocator (regions : List PhysmemRegion) (vm : V) (slabs start stop : Nat) :
    numWindows (emptyAllocator regions vm slabs start stop) = (sub64 stop start >>> pageOrder + 127) / 128 := rfl

section Estimate

variable {regions : List PhysmemRegion} {vm : V} {bounds : AllocBounds}

theorem estimatedSlabs_eq (h : sub64 bounds.stop bounds.start >>> pageOrder ≤ 2 ^ 24) :
    estimatedSlabs bounds
      = ((sub64 bounds.stop bounds.start >>> pageOrder + 127) / 128 + 24 + 1020) / 1021 ∧
    estimatedSlabs bounds < 2 ^ 8 := by
  have hslabs : estimatedSlabs bounds
      = (roundUpShiftRight (sub64 bounds.stop bounds.start >>> pageOrder) maxOrder + 24 + 1021 - 1) / 1021 % 2 ^ 16 :=
    rfl
  rw [roundUpShiftRight_eq] at hslabs
  have h128 : (2 : Nat) ^ maxOrder = 128 := by decide
  rw [h128] at hslabs
  generalize sub64 bounds.stop bounds.start >>> pageOrder = n at h hslabs ⊢
  omega

/-- `buddy_init` returns if the slabs hold a node for every block, and only then. -/
theorem estimateSuffices_iff_length (h : sub64 bounds.stop bounds.start >>> pageOrder ≤ 2 ^ 24) :
    EstimateSuffices regions vm bounds ↔
      (initialBlocks (emptyAllocator regions vm (estimatedSlabs bounds) bounds.start bounds.stop)).length
        ≤ estimatedSlabs bounds * objsPerSlab := by
  have hmod : estimatedSlabs bounds % 2 ^ 8 = estimatedSlabs bounds := Nat.mod_eq_of_lt (estimatedSlabs_eq h).2
  have hcells : (emptyAllocator regions vm (estimatedSlabs bounds) bounds.start bounds.stop).freelistCache.cells
      = estimatedSlabs bounds * objsPerSlab := by
    show 0 + estimatedSlabs bounds % 2 ^ 8 * objsPerSlab = _
    rw [hmod, Nat.zero_add]
  constructor
  · rintro ⟨m, hrun, -⟩
    have hf := buddyInit_filled hrun
    have hnodes := hf.effect.nodes.cells
    rw [List.length_map, List.length_nil, hcells, initialBlocks_congr hf.effect.layout] at hnodes
    omega
  · intro hlen
    obtain ⟨m, -, hrun, hf⟩ := populateInitialFreelists_served noSlab (hlen.trans_eq hcells.symm)
    refine ⟨m, hrun, ?_⟩
    have hobj := (booted_of_buddyInit hrun).1.objects
    rw [hobj, initialBlocks_congr hf.effect.layout]
    exact hlen

/-- **The estimate suffices exactly if the windows that are usable in part do not need more extra nodes than the
    empty windows save and the estimate has to spare.** -/
theorem estimate_suffices_iff (h : sub64 bounds.stop bounds.start >>> pageOrder ≤ 2 ^ 24) :
    EstimateSuffices regions vm bounds ↔
      extraNodes (emptyAllocator regions vm 0 bounds.start bounds.stop)
        ≤ emptyWindows (emptyAllocator regions vm 0 bounds.start bounds.stop)
          + spareNodes (numWindows (emptyAllocator regions vm 0 bounds.start bounds.stop)) := by
  obtain ⟨hslabs, -⟩ := estimatedSlabs_eq h
  rw [← numWindows_emptyAllocator regions vm 0] at hslabs
  rw [estimateSuffices_iff_length h, initialBlocks_congr (emptyAllocator_layout regions vm 0 (estimatedSlabs bounds) _ _)]
  exact le_slabs_iff (length_initialBlocks _) hslabs

end Estimate

theorem estimate_suffices_two_regions :
    EstimateSuffices [⟨0x100000, 0x10b400⟩, ⟨0x180000, 0x200000⟩] () ⟨0x100000, 0x200000⟩ ↔
      extraNodes (emptyAllocator [⟨0x100000, 0x10b400⟩, ⟨0x180000, 0x200000⟩] () 0 0x100000 0x200000)
        ≤ emptyWindows (emptyAllocator [⟨0x100000, 0x10b400⟩, ⟨0x180000, 0x200000⟩] () 0 0x100000 0x200000)
          + spareNodes (numWindows
            (emptyAllocator [⟨0x100000, 0x10b400⟩, ⟨0x180000, 0x200000⟩] () 0 0x100000 0x200000)) :=
  estimate_suffices_iff (by decide)

/-- Low memory, then five windows whose last page is missing, then 992 whole windows. -/
def holesInFiveWindows : List PhysmemRegion :=
  [⟨0x1000, 0x9f000⟩, ⟨0x100000, 0x17f000⟩, ⟨0x180000, 0x1ff000⟩, ⟨0x200000, 0x27f000⟩, ⟨0x280000, 0x2ff000⟩,
    ⟨0x300000, 0x37f000⟩, ⟨0x380000, 0x1f380000⟩]

/-- 997 windows, and six nodes too few. -/
theorem estimate_too_small :
    holesInFiveWindows.length ≤ 11 ∧ findAllocatableRegion holesInFiveWindows = some ⟨0x100000, 0x1f380000⟩ ∧
      sub64 0x1f380000 0x100000 >>> pageOrder ≤ 2 ^ 24 ∧
      ¬ EstimateSuffices holesInFiveWindows () ⟨0x100000, 0x1f380000⟩ := by
  refine ⟨by decide, by decide, by decide, fun h => ?_⟩
  have hlen := (estimateSuffices_iff_length (by decide)).mp h
  have hcount : (initialBlocks (emptyAllocator holesInFiveWindows () 1 0x100000 0x1f380000)).length = 1027 := by
    decide +kernel
  have hslabs : estimatedSlabs ⟨0x100000, 0x1f380000⟩ = 1 := by decide
  rw [hslabs] at hlen
  have hlen : (initialBlocks (emptyAllocator holesInFiveWindows () 1 0x100000 0x1f380000)).length ≤ 1021 := hlen
  omega

end LearningOS
