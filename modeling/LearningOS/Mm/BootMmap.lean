import LearningOS.Utility.Math

/-!
# `Mm.BootMmap` — `mm/boot_mmap.c`

The list of usable physical regions built from the multiboot memory map, the early reservation cursor that
moves through it, and the usability test every block of the buddy allocator goes through.

The multiboot tag is taken as the list of its entries. The static `regions` pointer of
`load_physmem_regions` is part of the machine state of the allocators: the list is built once and from then
on only `reserve_physmem_region` changes it.
-/

namespace LearningOS

open Word

/-- `E820_USABLE_RAM`. -/
abbrev e820UsableRam : Nat := 1

/-- `struct multiboot_mmap_entry`. -/
structure MmapEntry where
  addr : Nat
  len : Nat
  type : Nat
deriving DecidableEq, Repr

/-- `physmem_region_t`, less the link to the next region. -/
structure PhysmemRegion where
  freeStart : Nat
  regionEnd : Nat
deriving DecidableEq, Repr

/-- `clamp_up_to_page`. -/
def clampUpToPage (addr : Nat) : Nat := add64 addr (pageSize - 1) &&& not64 (maskForFirstNBits pageOrder)

/-- The region `load_physmem_regions` makes of one usable entry. `kernelStart` is already clamped up to a
    page, and is clamped again here. -/
def physmemRegion (kernelStart kernelEnd : Nat) (entry : MmapEntry) : PhysmemRegion :=
  -- Avoid the first page of memory.
  let regionBase := max entry.addr pageSize
  let regionEnd := add64 entry.addr entry.len
  let freeStart :=
    if regionBase ≥ kernelStart ∧ regionBase ≤ kernelEnd then clampUpToPage kernelStart else regionBase
  ⟨freeStart, regionEnd⟩

/-- `load_physmem_regions`: one region per usable entry, in the order of the map. With no usable entry the
    list is the zeroed first element of `region_pool`. -/
def loadPhysmemRegions (kernelStart kernelEnd : Nat) (entries : List MmapEntry) : List PhysmemRegion :=
  let kernelStart := clampUpToPage kernelStart
  match (entries.filter (·.type = e820UsableRam)).map (physmemRegion kernelStart kernelEnd) with
  | [] => [⟨0, 0⟩]
  | regions => regions

/-- The walk of `reserve_physmem_region`: the first region with more than `reservationSize` bytes left gives
    them up; `NULL` if there is none. -/
def reserveFrom : List PhysmemRegion → Nat → Nat × List PhysmemRegion
  | [], _ => (0, [])
  | region :: rest, reservationSize =>
    if sub64 region.regionEnd region.freeStart ≤ reservationSize then
      let (start, rest') := reserveFrom rest reservationSize
      (start, region :: rest')
    else
      (region.freeStart, { region with freeStart := add64 region.freeStart reservationSize } :: rest)

/-- `reserve_physmem_region`. -/
def reservePhysmemRegion (regions : List PhysmemRegion) (numPages : Nat) : Nat × List PhysmemRegion :=
  reserveFrom regions (numPages * pageSize % 2 ^ 64)

/-- `is_block_usable`: the block is fully contained in one region. -/
def isBlockUsable (regions : List PhysmemRegion) (blockBase numBytes : Nat) : Bool :=
  let blockEnd := add64 blockBase numBytes
  regions.any fun region => decide (region.freeStart ≤ blockBase ∧ blockEnd ≤ region.regionEnd)

/-! ## The usability test -/

theorem isBlockUsable_iff {regions : List PhysmemRegion} {blockBase numBytes : Nat}
    (h : blockBase + numBytes < 2 ^ 64) :
    isBlockUsable regions blockBase numBytes = true ↔
      ∃ r ∈ regions, r.freeStart ≤ blockBase ∧ blockBase + numBytes ≤ r.regionEnd := by
  simp only [isBlockUsable, add64_of_lt h, List.any_eq_true, decide_eq_true_eq]

/-- A part of a usable block is usable. -/
theorem isBlockUsable_mono {regions : List PhysmemRegion} {a n b k : Nat} (h : a + n < 2 ^ 64)
    (hu : isBlockUsable regions a n = true) (hab : a ≤ b) (hend : b + k ≤ a + n) :
    isBlockUsable regions b k = true := by
  obtain ⟨r, hr, h1, h2⟩ := (isBlockUsable_iff h).mp hu
  exact (isBlockUsable_iff (by omega)).mpr ⟨r, hr, by omega, by omega⟩

/-- No two regions of the list touch or overlap. -/
def Separated (regions : List PhysmemRegion) : Prop :=
  ∀ r ∈ regions, ∀ s ∈ regions, r ≠ s → r.regionEnd < s.freeStart ∨ s.regionEnd < r.freeStart

instance (regions : List PhysmemRegion) : Decidable (Separated regions) :=
  inferInstanceAs (Decidable (∀ r ∈ regions, ∀ s ∈ regions,
    r ≠ s → r.regionEnd < s.freeStart ∨ s.regionEnd < r.freeStart))

/-- Over separated regions two usable blocks that meet form a usable block. -/
theorem isBlockUsable_join {regions : List PhysmemRegion} (hsep : Separated regions) {a n k : Nat}
    (h : a + n + k < 2 ^ 64) (hn : 0 < n) (hk : 0 < k) (h1 : isBlockUsable regions a n = true)
    (h2 : isBlockUsable regions (a + n) k = true) :
    isBlockUsable regions a (n + k) = true := by
  obtain ⟨r, hr, hr1, hr2⟩ := (isBlockUsable_iff (by omega)).mp h1
  obtain ⟨s, hs, hs1, hs2⟩ := (isBlockUsable_iff (by omega)).mp h2
  by_cases hrs : r = s
  · subst hrs
    exact (isBlockUsable_iff (by omega)).mpr ⟨r, hr, hr1, by omega⟩
  · rcases hsep r hr s hs hrs with hlt | hlt
    · omega
    · omega

end LearningOS
