import LearningOS.Mm.BootMmap

/-!
# `Mm.KernelImage` — the kernel's own memory and the region list

`load_physmem_regions` means to keep the kernel image out of the usable regions: a region that starts inside
the image is made to start elsewhere. It is made to start at the *start* of the image, and a region that
starts before the image is not changed at all, so the region list holds the image wherever it lies. The global
page map that `init_global_page_map` puts right behind the image is not mentioned at all.

`kernel_memory_usable` is that fact for every memory map and every placement of the image.
-/

namespace LearningOS

open Word

/-- `__KERNEL_PHYSICAL_START`: 16M in `kernel.ld`. -/
abbrev kernelPhysicalStart : Nat := 0x1000000

/-- The usable entries of a map. -/
def usableEntries (entries : List MmapEntry) : List MmapEntry := entries.filter (·.type = e820UsableRam)

/-! ## The global page map -/

/-- `sizeof(page_info_t)`. -/
abbrev pageInfoSize : Nat := 32

/-- `mem_end` of `init_global_page_map`: the end of the last usable entry of the map. -/
def memEnd (entries : List MmapEntry) : Nat :=
  entries.foldl (fun memEnd entry => if entry.type = e820UsableRam then add64 entry.addr entry.len else memEnd) 0

theorem memEnd_lt (entries : List MmapEntry) : memEnd entries < 2 ^ 64 := by
  have hfold : ∀ (es : List MmapEntry) (e : Nat), e < 2 ^ 64 →
      es.foldl (fun memEnd entry => if entry.type = e820UsableRam then add64 entry.addr entry.len else memEnd) e
        < 2 ^ 64 := by
    intro es
    induction es with
    | nil => exact fun e he => he
    | cons entry es ih =>
        intro e he
        apply ih
        dsimp only
        split
        · exact add64_lt _ _
        · exact he
  exact hfold entries 0 (by decide)

/-- `start_of_global_map`: the end of the image, aligned for a `page_info_t`. -/
def startOfGlobalMap (kernelEnd : Nat) : Nat := add64 kernelEnd 7 &&& not64 7

/-- `gpm_size`. -/
def gpmSize (entries : List MmapEntry) : Nat := (memEnd entries >>> pageOrder) * pageInfoSize % 2 ^ 64

/-! ## What must not be handed out -/

/-- The `numBytes` bytes from `base` meet the range from `start` up to `stop`. -/
def Meets (base numBytes start stop : Nat) : Prop := base < stop ∧ start < base + numBytes

/-- The bytes are outside the kernel image and the global page map. -/
def ClearOfKernel (kernelStart kernelEnd : Nat) (entries : List MmapEntry) (base numBytes : Nat) : Prop :=
  ¬ Meets base numBytes kernelStart kernelEnd ∧
    ¬ Meets base numBytes (startOfGlobalMap kernelEnd) (startOfGlobalMap kernelEnd + gpmSize entries)

/-- The regions after a number of early reservations. -/
def reserveAll (regions : List PhysmemRegion) (counts : List Nat) : List PhysmemRegion :=
  counts.foldl (fun regions numPages => (reservePhysmemRegion regions numPages).2) regions

/-- No block that passes `is_block_usable` and no range that `reserve_physmem_region` returns, after whatever
    earlier reservations, meets the kernel's memory. -/
def KernelProtected (kernelStart kernelEnd : Nat) (entries : List MmapEntry) : Prop :=
  let regions := loadPhysmemRegions kernelStart kernelEnd entries
  (∀ base numBytes, base + numBytes < 2 ^ 64 → isBlockUsable regions base numBytes = true →
    ClearOfKernel kernelStart kernelEnd entries base numBytes) ∧
  ∀ counts numPages start regions',
    reservePhysmemRegion (reserveAll regions counts) numPages = (start, regions') → start ≠ 0 →
      ClearOfKernel kernelStart kernelEnd entries start (numPages * pageSize)

/-! ## The region of the image -/

theorem clampUpToPage_eq (addr : Nat) : clampUpToPage addr = add64 addr 0xFFF / 0x1000 * 0x1000 :=
  and_not64_mask (add64_lt _ _) (by decide)

/-- Clamping twice is clamping once. -/
theorem clampUpToPage_idem (addr : Nat) : clampUpToPage (clampUpToPage addr) = clampUpToPage addr := by
  have hlt : add64 addr 0xFFF < 2 ^ 64 := add64_lt _ _
  rw [clampUpToPage_eq (clampUpToPage addr), clampUpToPage_eq addr]
  generalize add64 addr 0xFFF = x at hlt
  rw [add64_of_lt (by omega)]
  omega

theorem clampUpToPage_kernelPhysicalStart : clampUpToPage kernelPhysicalStart = kernelPhysicalStart := by
  decide

/-- Whatever the relation of the region to the image, the region starts at the image or before it. -/
theorem physmemRegion_freeStart_le {kernelStart kernelEnd : Nat} {entry : MmapEntry}
    (h : max entry.addr pageSize ≤ kernelStart) :
    (physmemRegion (clampUpToPage kernelStart) kernelEnd entry).freeStart ≤ kernelStart := by
  simp only [physmemRegion]
  split
  · next hin =>
      rw [clampUpToPage_idem]
      exact hin.1.trans h
  · exact h

/-- Without a usable entry the list is one empty region. -/
theorem loadPhysmemRegions_of_none {kernelStart kernelEnd : Nat} {entries : List MmapEntry}
    (h : usableEntries entries = []) : loadPhysmemRegions kernelStart kernelEnd entries = [⟨0, 0⟩] := by
  unfold loadPhysmemRegions
  unfold usableEntries at h
  rw [h]
  rfl

/-- Otherwise it has a region for every usable entry. -/
theorem loadPhysmemRegions_of_usable {kernelStart kernelEnd : Nat} {entries : List MmapEntry}
    (h : usableEntries entries ≠ []) : loadPhysmemRegions kernelStart kernelEnd entries =
      (usableEntries entries).map (physmemRegion (clampUpToPage kernelStart) kernelEnd) := by
  unfold loadPhysmemRegions
  dsimp only
  split
  · next hnil => exact absurd (List.map_eq_nil_iff.mp hnil) h
  · rfl

theorem mem_loadPhysmemRegions {kernelStart kernelEnd : Nat} {entries : List MmapEntry} {entry : MmapEntry}
    (hmem : entry ∈ entries) (htype : entry.type = e820UsableRam) :
    physmemRegion (clampUpToPage kernelStart) kernelEnd entry ∈
      loadPhysmemRegions kernelStart kernelEnd entries := by
  have hin : entry ∈ usableEntries entries := List.mem_filter.mpr ⟨hmem, decide_eq_true htype⟩
  rw [loadPhysmemRegions_of_usable (List.ne_nil_of_mem hin)]
  exact List.mem_map_of_mem hin

/-- **The kernel image passes for usable memory**, wherever in a usable entry it lies. -/
theorem kernel_image_usable {entries : List MmapEntry} {kernelStart kernelEnd : Nat} {entry : MmapEntry}
    (hmem : entry ∈ entries) (htype : entry.type = e820UsableRam)
    (hstart : max entry.addr pageSize ≤ kernelStart) (hlt : kernelStart < kernelEnd)
    (hend : kernelEnd ≤ entry.addr + entry.len) (hwrap : entry.addr + entry.len < 2 ^ 64) :
    isBlockUsable (loadPhysmemRegions kernelStart kernelEnd entries) kernelStart (kernelEnd - kernelStart)
      = true := by
  have hsum : kernelStart + (kernelEnd - kernelStart) = kernelEnd := by omega
  refine (isBlockUsable_iff (by omega)).mpr ⟨_, mem_loadPhysmemRegions hmem htype, ?_, ?_⟩
  · exact physmemRegion_freeStart_le hstart
  · rw [hsum]
    show kernelEnd ≤ add64 entry.addr entry.len
    rw [add64_of_lt hwrap]
    exact hend

/-- **The kernel's memory is never protected**: for every memory map and every placement of a non-empty image
    in a usable entry, past the first page of memory. -/
theorem kernel_memory_usable {entries : List MmapEntry} {kernelStart kernelEnd : Nat} {entry : MmapEntry}
    (hmem : entry ∈ entries) (htype : entry.type = e820UsableRam)
    (hstart : max entry.addr pageSize ≤ kernelStart) (hlt : kernelStart < kernelEnd)
    (hend : kernelEnd ≤ entry.addr + entry.len) (hwrap : entry.addr + entry.len < 2 ^ 64) :
    ¬ KernelProtected kernelStart kernelEnd entries := by
  rintro ⟨hblocks, -⟩
  have hsum : kernelStart + (kernelEnd - kernelStart) = kernelEnd := by omega
  have hclear := hblocks kernelStart (kernelEnd - kernelStart) (by omega)
    (kernel_image_usable hmem htype hstart hlt hend hwrap)
  exact hclear.1 ⟨hlt, by omega⟩

/-- The map of a small virtual machine with its kernel at 1MB. -/
theorem kernel_memory_usable_at_one_mb :
    ¬ KernelProtected 0x100000 0x120000 [⟨0, 0x9fc00, 1⟩, ⟨0xf0000, 0x10000, 2⟩, ⟨0x100000, 0x7ee0000, 1⟩] :=
  kernel_memory_usable (List.mem_cons_of_mem _ (List.mem_cons_of_mem _ List.mem_cons_self)) rfl (by decide)
    (by decide) (by decide) (by decide)

/-- On that map a reservation of 256 pages, too large for the memory below 1MB, is given the kernel image, and
    a block of `MAX_ORDER` over image and page map passes for usable. -/
theorem reservation_is_kernel_image :
    reservePhysmemRegion (loadPhysmemRegions 0x100000 0x120000
        [⟨0, 0x9fc00, 1⟩, ⟨0xf0000, 0x10000, 2⟩, ⟨0x100000, 0x7ee0000, 1⟩]) 256
      = (0x100000, [⟨0x1000, 0x9fc00⟩, ⟨0x200000, 0x7fe0000⟩]) ∧
    Meets 0x100000 (256 * pageSize) 0x100000 0x120000 ∧
    isBlockUsable (loadPhysmemRegions 0x100000 0x120000
        [⟨0, 0x9fc00, 1⟩, ⟨0xf0000, 0x10000, 2⟩, ⟨0x100000, 0x7ee0000, 1⟩]) 0x100000 0x80000 = true ∧
    Meets 0x100000 0x80000 (startOfGlobalMap 0x120000) (startOfGlobalMap 0x120000 +
      gpmSize [⟨0, 0x9fc00, 1⟩, ⟨0xf0000, 0x10000, 2⟩, ⟨0x100000, 0x7ee0000, 1⟩]) ∧
    ¬ KernelProtected 0x100000 0x120000
      [⟨0, 0x9fc00, 1⟩, ⟨0xf0000, 0x10000, 2⟩, ⟨0x100000, 0x7ee0000, 1⟩] := by
  have husable : isBlockUsable (loadPhysmemRegions 0x100000 0x120000
      [⟨0, 0x9fc00, 1⟩, ⟨0xf0000, 0x10000, 2⟩, ⟨0x100000, 0x7ee0000, 1⟩]) 0x100000 0x80000 = true := by
    decide
  refine ⟨by decide, by unfold Meets; decide, husable, by unfold Meets; decide, ?_⟩
  rintro ⟨hblocks, -⟩
  have hclear := hblocks 0x100000 0x80000 (by decide) husable
  refine hclear.1 ?_
  unfold Meets
  decide

end LearningOS
