import LearningOS.Lib.Table
import LearningOS.Mm.KernelImage

/-!
# `Mm.GlobalPageMap` — `init_global_page_map`

The page map has an entry for every page of physical memory below the end of the last usable entry. It lies right behind
the kernel image, and memory goes on behind it: the table that models it has an entry for every index, and a write to an
index that is not a page of the map is a write to that memory.

A non-usable entry is taken to reach up to 1MB, if it begins below, and to be empty otherwise: its length is not looked
at. The pages of the image and of the page map are marked up to one page past the last. `page_map_marks_iff` says for which
memory maps the marks are right all the same.

The memory map has fewer than 256 entries, as many as the `u8_t` index of the loops can count.
-/

namespace LearningOS

open Word Tables

/-! ## Pages -/

/-- `PAGE_UNUSABLE`. -/
abbrev pageUnusable : BitVec 16 := 1

/-- `PAGE_KERNEL`. -/
abbrev pageKernel : BitVec 16 := 2

/-- `PAGE_READONLY`. -/
abbrev pageReadonly : BitVec 16 := 4

/-- `PAGE_FREELIST`. -/
abbrev pageFreelist : BitVec 16 := 16

/-- `page_info_t`, of the union the link of the list of free pages: another page by its index. -/
structure PageInfo where
  flags : BitVec 16
  refcount : BitVec 16
  nextFree : Option Nat
deriving DecidableEq

/-- One of the flags is set. -/
def PageInfo.Has (info : PageInfo) (flag : BitVec 16) : Prop := info.flags &&& flag ≠ 0

instance (info : PageInfo) (flag : BitVec 16) : Decidable (info.Has flag) :=
  inferInstanceAs (Decidable (info.flags &&& flag ≠ 0))

/-- The page map and the memory behind it. -/
abbrev PageMap := Table PageInfo

/-- The addresses that the linker script defines. -/
structure KernelSymbols where
  physicalEnd : Nat
  rodataStart : Nat
  rodataEnd : Nat

/-! ## Initialisation -/

/-- `physmem_pages`: the length of the page map. -/
def physmemPages (entries : List MmapEntry) : Nat := memEnd entries >>> pageOrder

/-- `kernel_start_idx`. -/
def kernelStartIdx : Nat := kernelPhysicalStart >>> pageOrder

/-- The address behind the page map. -/
def gpmEnd (symbols : KernelSymbols) (entries : List MmapEntry) : Nat :=
  add64 (startOfGlobalMap symbols.physicalEnd) (gpmSize entries)

/-- `gpm_end_idx`. -/
def gpmEndIdx (symbols : KernelSymbols) (entries : List MmapEntry) : Nat :=
  add64 (gpmEnd symbols entries) (pageSize - 1) >>> pageOrder

/-- The pages that a non-usable entry marks: those from its address up to 1MB. -/
def reservedPages (entry : MmapEntry) : List Nat :=
  let endAddr := max 0x100000 entry.addr
  let numPages := (endAddr - entry.addr) >>> pageOrder
  let startIdx := entry.addr >>> pageOrder
  (List.range numPages).map fun offset => startIdx + offset

/-- The loop over the entries: its body. -/
def markEntry (memEnd : Nat) (map : PageMap) (entry : MmapEntry) : PageMap :=
  if entry.type ≠ e820UsableRam ∧ entry.addr < memEnd then
    map.modifyAll (fun _ info => { info with flags := pageUnusable }) (reservedPages entry)
  else map

/-- The loop over the kernel's pages: its body. -/
def markKernelPage (symbols : KernelSymbols) (idx : Nat) (info : PageInfo) : PageInfo :=
  let flags := info.flags ||| pageKernel ||| pageUnusable
  let pageAddr := idx <<< pageOrder
  let flags := if symbols.rodataStart < pageAddr ∧ symbols.rodataEnd > pageAddr then flags ||| pageReadonly else flags
  { info with flags }

/-- The indices from the kernel's first page to `gpm_end_idx`. -/
def kernelPages (symbols : KernelSymbols) (entries : List MmapEntry) : List Nat :=
  List.range' kernelStartIdx (gpmEndIdx symbols entries + 1 - kernelStartIdx)

/-- The map before the two loops that mark: zeroed, and its first page unusable. -/
def clearedPageMap (entries : List MmapEntry) (before : Nat → PageInfo) : PageMap :=
  Table.modify (Table.fill ⟨before, []⟩ (physmemPages entries) ⟨0, 0, none⟩) 0
    fun info => { info with flags := pageUnusable }

/-- `init_global_page_map`. `before` is the memory behind the image. -/
def initGlobalPageMap (symbols : KernelSymbols) (entries : List MmapEntry) (before : Nat → PageInfo) : PageMap :=
  (entries.foldl (markEntry (memEnd entries)) (clearedPageMap entries before)).modifyAll (markKernelPage symbols)
    (kernelPages symbols entries)

/-- `last_kernel_page`, which `init_global_page_map` sets. -/
def lastKernelPage (symbols : KernelSymbols) (entries : List MmapEntry) : Nat :=
  gpmEndIdx symbols entries <<< pageOrder

/-! ## Which pages are marked -/

/-- The page is marked on behalf of a non-usable entry that begins below the end of memory. -/
def MarkedBy (memEnd : Nat) (entries : List MmapEntry) (page : Nat) : Prop :=
  ∃ entry ∈ entries, (entry.type ≠ e820UsableRam ∧ entry.addr < memEnd) ∧ page ∈ reservedPages entry

/-- The page is marked on behalf of an entry of the map. -/
abbrev MarkedReserved (entries : List MmapEntry) (page : Nat) : Prop := MarkedBy (memEnd entries) entries page

/-- The page is one the loop over the kernel's pages visits. -/
def MarkedKernel (symbols : KernelSymbols) (entries : List MmapEntry) (page : Nat) : Prop :=
  kernelStartIdx ≤ page ∧ page ≤ gpmEndIdx symbols entries

variable {symbols : KernelSymbols} {entries : List MmapEntry} {before : Nat → PageInfo} {page : Nat}

/-- The page an address is in. -/
theorem shiftRight_pageOrder (a : Nat) : a >>> pageOrder = a / 4096 := Nat.shiftRight_eq_div_pow a 12

theorem kernelStartIdx_eq : kernelStartIdx = 0x1000 := by decide

theorem mem_kernelPages : page ∈ kernelPages symbols entries ↔ MarkedKernel symbols entries page := by
  unfold kernelPages MarkedKernel
  rw [List.mem_range'_1]
  omega

theorem markedBy_cons {memEnd : Nat} {entry : MmapEntry} {es : List MmapEntry} :
    MarkedBy memEnd (entry :: es) page ↔
      ((entry.type ≠ e820UsableRam ∧ entry.addr < memEnd) ∧ page ∈ reservedPages entry) ∨ MarkedBy memEnd es page :=
  List.exists_mem_cons_iff _ _ _

theorem has_of_or (info : PageInfo) (flags flag : BitVec 16) (hflag : flag ≠ 0) :
    PageInfo.Has { info with flags := flags ||| flag } flag := by
  unfold PageInfo.Has
  intro h
  apply hflag
  have habsorb : (flags ||| flag) &&& flag = flag := by
    ext i hi
    rw [BitVec.getElem_and, BitVec.getElem_or]
    cases flags[i] <;> cases flag[i] <;> rfl
  rw [← habsorb]
  exact h

/-- A page of the kernel is unusable whatever it was, read-only or not. -/
theorem markKernelPage_has (symbols : KernelSymbols) (idx : Nat) (info : PageInfo) :
    (markKernelPage symbols idx info).Has pageUnusable := by
  unfold markKernelPage
  dsimp only
  split
  · rw [BitVec.or_assoc, BitVec.or_comm pageUnusable, ← BitVec.or_assoc]
    exact has_of_or info _ _ (by decide)
  · exact has_of_or info _ _ (by decide)

theorem unusable_has (info : PageInfo) : PageInfo.Has { info with flags := pageUnusable } pageUnusable := by
  show pageUnusable &&& pageUnusable ≠ 0
  decide

/-- The pages of the kernel are marked. -/
theorem markKernelPages_unusable (map : PageMap) (indices : List Nat) :
    ((map.modifyAll (markKernelPage symbols) indices).entry page).Has pageUnusable ↔
      page ∈ indices ∨ (map.entry page).Has pageUnusable :=
  modifyAll_mark (fun info : PageInfo => info.Has pageUnusable) (markKernelPage_has symbols)

/-- **One entry**: it adds its pages to the marks and to what was written. -/
theorem markEntry_cases (memEnd : Nat) (map : PageMap) (entry : MmapEntry) (page : Nat) :
    (((markEntry memEnd map entry).entry page).Has pageUnusable ↔
        ((entry.type ≠ e820UsableRam ∧ entry.addr < memEnd) ∧ page ∈ reservedPages entry) ∨
          (map.entry page).Has pageUnusable) ∧
      (page ∈ (markEntry memEnd map entry).written ↔
        ((entry.type ≠ e820UsableRam ∧ entry.addr < memEnd) ∧ page ∈ reservedPages entry) ∨ page ∈ map.written) := by
  unfold markEntry
  by_cases hmark : entry.type ≠ e820UsableRam ∧ entry.addr < memEnd
  · rw [if_pos hmark, and_iff_right hmark]
    exact ⟨modifyAll_mark (fun info : PageInfo => info.Has pageUnusable) (fun _ => unusable_has), mem_written_modifyAll⟩
  · rw [if_neg hmark, or_iff_right (fun h => hmark h.1), or_iff_right (fun h => hmark h.1)]
    exact ⟨Iff.rfl, Iff.rfl⟩

/-- **All entries**, by induction on those still to come. -/
theorem markEntries_cases (memEnd : Nat) (map : PageMap) (es : List MmapEntry) (page : Nat) :
    (((es.foldl (markEntry memEnd) map).entry page).Has pageUnusable ↔
        MarkedBy memEnd es page ∨ (map.entry page).Has pageUnusable) ∧
      (page ∈ (es.foldl (markEntry memEnd) map).written ↔ MarkedBy memEnd es page ∨ page ∈ map.written) := by
  induction es generalizing map with
  | nil => simp [MarkedBy]
  | cons entry es ih =>
      obtain ⟨hmark, hwritten⟩ := markEntry_cases memEnd map entry page
      obtain ⟨hmarks, hwrites⟩ := ih (markEntry memEnd map entry)
      rw [List.foldl_cons, markedBy_cons]
      constructor
      · rw [hmarks, hmark, or_assoc]
        exact or_left_comm
      · rw [hwrites, hwritten, or_assoc]
        exact or_left_comm

theorem clearedPageMap_unusable :
    ((clearedPageMap entries before).entry page).Has pageUnusable ↔
      page = 0 ∨ (physmemPages entries ≤ page ∧ (before page).Has pageUnusable) := by
  unfold clearedPageMap
  simp only [Table.modify, Table.fill]
  by_cases hzero : page = 0
  · subst hzero
    rw [Function.update_self]
    exact iff_of_true (unusable_has _) (.inl rfl)
  rw [Function.update_of_ne hzero]
  by_cases hpage : page < physmemPages entries
  · rw [if_pos hpage]
    refine iff_of_false (by decide) ?_
    rintro (h | ⟨h, -⟩)
    · exact hzero h
    · exact absurd hpage (not_lt.mpr h)
  · rw [if_neg hpage, or_iff_right hzero, and_iff_right (not_lt.mp hpage)]

/-- **Which pages are marked** when the initialisation is done: behind the map also those that were. -/
theorem initGlobalPageMap_has :
    ((initGlobalPageMap symbols entries before).entry page).Has pageUnusable ↔
      MarkedKernel symbols entries page ∨ MarkedReserved entries page ∨ page = 0 ∨
        (physmemPages entries ≤ page ∧ (before page).Has pageUnusable) := by
  rw [initGlobalPageMap, markKernelPages_unusable, mem_kernelPages, (markEntries_cases _ _ _ _).1,
    clearedPageMap_unusable]

/-- **Which pages of the map are marked.** -/
theorem initGlobalPageMap_unusable (hpage : page < physmemPages entries) :
    ((initGlobalPageMap symbols entries before).entry page).Has pageUnusable ↔
      page = 0 ∨ MarkedReserved entries page ∨ MarkedKernel symbols entries page := by
  rw [initGlobalPageMap_has]
  -- what was behind the map does not count inside it
  constructor
  · rintro (hkernel | hreserved | hzero | ⟨hbehind, -⟩)
    · exact .inr (.inr hkernel)
    · exact .inr (.inl hreserved)
    · exact .inl hzero
    · exact absurd hpage (not_lt.mpr hbehind)
  · rintro (hzero | hreserved | hkernel)
    · exact .inr (.inr (.inl hzero))
    · exact .inr (.inl hreserved)
    · exact .inl hkernel

/-- **What is written**: the entries of the map, page 0, and every page that is marked. -/
theorem initGlobalPageMap_written :
    page ∈ (initGlobalPageMap symbols entries before).written ↔
      page < physmemPages entries ∨ page = 0 ∨ MarkedReserved entries page ∨ MarkedKernel symbols entries page := by
  have hcleared : page ∈ (clearedPageMap entries before).written ↔ page < physmemPages entries ∨ page = 0 := by
    unfold clearedPageMap
    refine List.mem_cons.trans ?_
    rw [mem_written_fill, or_iff_left List.not_mem_nil, or_comm]
  rw [initGlobalPageMap, mem_written_modifyAll, mem_kernelPages, (markEntries_cases _ _ _ _).2, hcleared, or_comm,
    or_comm (a := MarkedBy _ _ _), or_assoc, or_assoc]

/-! ## When the marks are right -/

/-- The page has a byte of a non-usable entry. -/
def OverlapsReserved (entries : List MmapEntry) (page : Nat) : Prop :=
  ∃ entry ∈ entries, entry.type ≠ e820UsableRam ∧ 0 < entry.len ∧
    Meets (page * pageSize) pageSize entry.addr (entry.addr + entry.len)

/-- The marks are right, the pages of the kernel being those from its start to `lastPage`, and nothing is written outside
    the map. -/
structure PageMapMarks (symbols : KernelSymbols) (entries : List MmapEntry) (before : Nat → PageInfo) (lastPage : Nat) :
    Prop where
  marks : ∀ page < physmemPages entries,
    ((initGlobalPageMap symbols entries before).entry page).Has pageUnusable ↔
      page = 0 ∨ OverlapsReserved entries page ∨ (kernelStartIdx ≤ page ∧ page ≤ lastPage)
  written : ∀ page ∈ (initGlobalPageMap symbols entries before).written, page < physmemPages entries

/-- The last page with a byte of the page map. -/
def lastMapPage (symbols : KernelSymbols) (entries : List MmapEntry) : Nat := (gpmEnd symbols entries - 1) / pageSize

/-- A memory map that the marking fits: below 1MB all is reserved from the first non-usable entry on, above 1MB only the
    kernel's pages are, and the page map reaches past `gpm_end_idx`. -/
structure MarkableMap (symbols : KernelSymbols) (entries : List MmapEntry) : Prop where
  low : ∀ entry ∈ entries, entry.type ≠ e820UsableRam → entry.addr < memEnd entries →
    ∀ page, entry.addr / pageSize ≤ page → (page + 1) * pageSize + entry.addr % pageSize ≤ 0x100000 →
      page < physmemPages entries ∧ (page = 0 ∨ OverlapsReserved entries page)
  high : ∀ page < physmemPages entries, 0x100000 ≤ page * pageSize → OverlapsReserved entries page →
    MarkedKernel symbols entries page
  /-- The last page below 1MB is marked only for an entry that begins on a page boundary. -/
  edge : 255 < physmemPages entries → OverlapsReserved entries 255 →
    ∃ entry ∈ entries, entry.type ≠ e820UsableRam ∧ entry.addr < memEnd entries ∧ entry.addr < 0x100000 ∧
      entry.addr % pageSize = 0
  kernel : gpmEndIdx symbols entries < physmemPages entries

/-- The pages an entry marks, from its first to 1MB. -/
theorem mem_reservedPages {entry : MmapEntry} :
    page ∈ reservedPages entry ↔
      entry.addr / pageSize ≤ page ∧ (page + 1) * pageSize + entry.addr % pageSize ≤ 0x100000 := by
  have hpage : pageSize = 4096 := rfl
  unfold reservedPages
  simp only [List.mem_map, List.mem_range, shiftRight_pageOrder, hpage]
  constructor
  · rintro ⟨offset, hoffset, rfl⟩
    omega
  · rintro ⟨hfirst, hlast⟩
    refine ⟨page - entry.addr / 4096, ?_, ?_⟩
    · omega
    · omega

/-- An entry that marks a page marks one below 1MB. -/
theorem MarkedBy.below {memEnd : Nat} (h : MarkedBy memEnd entries page) : page < 256 := by
  obtain ⟨entry, -, -, hpage⟩ := h
  have hlast := (mem_reservedPages.mp hpage).2
  have hsize : pageSize = 4096 := rfl
  rw [hsize] at hlast
  omega

/-- A page of the map that a non-usable entry overlaps, below the last one under 1MB, is marked for it. -/
theorem OverlapsReserved.marked (h : OverlapsReserved entries page) (hpage : page < physmemPages entries)
    (hlow : page < 255) : MarkedReserved entries page := by
  obtain ⟨entry, hmem, htype, -, -, hbegin⟩ := h
  have hsize : pageSize = 4096 := rfl
  have hpages : physmemPages entries = memEnd entries / 4096 := shiftRight_pageOrder _
  rw [hpages] at hpage
  rw [hsize] at hbegin
  refine ⟨entry, hmem, ⟨htype, ?_⟩, mem_reservedPages.mpr ?_⟩
  · omega
  rw [hsize]
  constructor
  · omega
  · omega

/-- The image, its symbols within the 2GB that the linker script leaves it. -/
structure KernelFits (symbols : KernelSymbols) : Prop where
  start_le : kernelPhysicalStart ≤ symbols.physicalEnd
  end_le : symbols.physicalEnd ≤ 2 ^ 31

/-- The page map lies behind the start of the image, and `gpm_end_idx` is the page after its last one. -/
theorem gpmEndIdx_eq (h : KernelFits symbols) (entries : List MmapEntry) :
    kernelStartIdx ≤ gpmEndIdx symbols entries ∧ gpmEndIdx symbols entries = lastMapPage symbols entries + 1 := by
  have hstart := h.start_le
  have hend := h.end_le
  have hkernel : kernelPhysicalStart = 0x1000000 := rfl
  have hstartIdx := kernelStartIdx_eq
  have hsize : pageSize = 4096 := rfl
  -- the map begins 8-aligned behind the image and has 32 bytes a page, so that no sum here wraps
  have hmap : startOfGlobalMap symbols.physicalEnd = (symbols.physicalEnd + 7) / 2 ^ 3 * 2 ^ 3 := by
    unfold startOfGlobalMap
    rw [add64_of_lt (by omega)]
    exact and_not64_mask (k := 3) (by omega) (by decide)
  have hmemEnd := memEnd_lt entries
  have hgpm : gpmSize entries ≤ 2 ^ 57 := by
    have hinfo : pageInfoSize = 32 := rfl
    unfold gpmSize
    rw [shiftRight_pageOrder, hinfo]
    omega
  have hgpmEnd : gpmEnd symbols entries = startOfGlobalMap symbols.physicalEnd + gpmSize entries :=
    add64_of_lt (by omega)
  have hidx : gpmEndIdx symbols entries = (gpmEnd symbols entries + 4095) / 4096 := by
    unfold gpmEndIdx
    rw [add64_of_lt (by omega)]
    exact shiftRight_pageOrder _
  unfold lastMapPage
  rw [hsize]
  omega

/-- A page marked for an entry is not one of the kernel's. -/
theorem MarkedBy.not_kernel {memEnd : Nat} (h : MarkedBy memEnd entries page) : ¬ kernelStartIdx ≤ page := by
  have hbelow := h.below
  have hstart := kernelStartIdx_eq
  omega

/-- The entry that marks a page is one of the hypotheses of `MarkableMap.low`. -/
theorem MarkableMap.of_marked (h : MarkableMap symbols entries) (hmarked : MarkedReserved entries page) :
    page < physmemPages entries ∧ (page = 0 ∨ OverlapsReserved entries page) := by
  obtain ⟨entry, hmem, ⟨htype, haddr⟩, hpage⟩ := hmarked
  obtain ⟨hfirst, hlast⟩ := mem_reservedPages.mp hpage
  exact h.low entry hmem htype haddr page hfirst hlast

/-- On such a memory map every page of the map that a non-usable entry overlaps is marked. -/
theorem MarkableMap.marked (h : MarkableMap symbols entries) (hpage : page < physmemPages entries)
    (hoverlap : OverlapsReserved entries page) : MarkedReserved entries page ∨ MarkedKernel symbols entries page := by
  have hsize : pageSize = 4096 := rfl
  by_cases hhigh : 256 ≤ page
  · have habove : 0x100000 ≤ page * pageSize := by
      rw [hsize]
      omega
    exact .inr (h.high page hpage habove hoverlap)
  by_cases hlow : page < 255
  · exact .inl (hoverlap.marked hpage hlow)
  · -- the last page below 1MB
    obtain rfl : page = 255 := by omega
    obtain ⟨entry, hmem, htype, haddr, hbelow, halign⟩ := h.edge hpage hoverlap
    refine .inl ⟨entry, hmem, ⟨htype, haddr⟩, mem_reservedPages.mpr ⟨?_, ?_⟩⟩
    · rw [hsize]
      omega
    · rw [halign]
      decide

/-- Correct marks, whichever page counts as the last of the kernel, take a memory map that the marking fits. -/
theorem MarkableMap.of_marks {lastPage : Nat} (hfits : KernelFits symbols)
    (h : PageMapMarks symbols entries before lastPage) : MarkableMap symbols entries := by
  have hsize : pageSize = 4096 := rfl
  constructor
  · intro entry hmem htype haddr page hfirst hend
    have hmarked : MarkedReserved entries page :=
      ⟨entry, hmem, ⟨htype, haddr⟩, mem_reservedPages.mpr ⟨hfirst, hend⟩⟩
    have hpage := h.written page (initGlobalPageMap_written.mpr (.inr (.inr (.inl hmarked))))
    refine ⟨hpage, ?_⟩
    -- the mark is right, and for an entry below 1MB it is not the kernel's
    rcases (h.marks page hpage).mp ((initGlobalPageMap_unusable hpage).mpr (.inr (.inl hmarked))) with
      hzero | hoverlap | hkernel
    · exact .inl hzero
    · exact .inr hoverlap
    · exact absurd hkernel.1 hmarked.not_kernel
  · intro page hpage hhigh hoverlap
    rw [hsize] at hhigh
    rcases (initGlobalPageMap_unusable hpage).mp ((h.marks page hpage).mpr (.inr (.inl hoverlap))) with
      hzero | hmarked | hkernel
    · omega
    · have hbelow := hmarked.below
      omega
    · exact hkernel
  · intro hpage hoverlap
    rcases (initGlobalPageMap_unusable hpage).mp ((h.marks 255 hpage).mpr (.inr (.inl hoverlap))) with
      hzero | hmarked | hkernel
    · cases hzero
    · obtain ⟨entry, hmem, ⟨htype, haddr⟩, hin⟩ := hmarked
      obtain ⟨hfirst, hend⟩ := mem_reservedPages.mp hin
      rw [hsize] at hfirst hend
      refine ⟨entry, hmem, htype, haddr, ?_, ?_⟩
      · omega
      · rw [hsize]
        omega
    · exact absurd hkernel.1 (by decide)
  · exact h.written _ (initGlobalPageMap_written.mpr (.inr (.inr (.inr ⟨(gpmEndIdx_eq hfits entries).1, le_rfl⟩))))

/-- **The marks are right** on such a memory map if the pages of the kernel past `lastPage` are reserved anyway. -/
theorem MarkableMap.marks {lastPage : Nat} (h : MarkableMap symbols entries)
    (hlast : lastPage ≤ gpmEndIdx symbols entries)
    (hrest : ∀ page, lastPage < page → MarkedKernel symbols entries page → OverlapsReserved entries page) :
    PageMapMarks symbols entries before lastPage := by
  constructor
  · intro page hpage
    rw [initGlobalPageMap_unusable hpage]
    constructor
    · rintro (hzero | hmarked | hkernel)
      · exact .inl hzero
      · rcases (h.of_marked hmarked).2 with hzero | hoverlap
        · exact .inl hzero
        · exact .inr (.inl hoverlap)
      · by_cases hin : page ≤ lastPage
        · exact .inr (.inr ⟨hkernel.1, hin⟩)
        · exact .inr (.inl (hrest page (not_le.mp hin) hkernel))
    · rintro (hzero | hoverlap | ⟨hstart, hin⟩)
      · exact .inl hzero
      · exact .inr (h.marked hpage hoverlap)
      · exact .inr (.inr ⟨hstart, hin.trans hlast⟩)
  · intro page hwritten
    have hkernel := h.kernel
    rcases initGlobalPageMap_written.mp hwritten with hpage | hzero | hmarked | hin
    · exact hpage
    · omega
    · exact (h.of_marked hmarked).1
    · exact lt_of_le_of_lt hin.2 hkernel

/-- **When the page map marks exactly the unusable pages**: on a memory map that the marking fits, whose page at
    `gpm_end_idx` is reserved; that page is behind the page map, and if it counts as the kernel's the first condition is
    enough. -/
theorem page_map_marks_iff (hfits : KernelFits symbols) :
    (PageMapMarks symbols entries before (lastMapPage symbols entries) ↔
        MarkableMap symbols entries ∧ OverlapsReserved entries (gpmEndIdx symbols entries)) ∧
      (PageMapMarks symbols entries before (gpmEndIdx symbols entries) ↔ MarkableMap symbols entries) := by
  obtain ⟨hstart, hnext⟩ := gpmEndIdx_eq hfits entries
  have hle : lastMapPage symbols entries ≤ gpmEndIdx symbols entries := by omega
  constructor
  · constructor
    · intro h
      have hmap := MarkableMap.of_marks hfits h
      refine ⟨hmap, ?_⟩
      have hmarked :
          ((initGlobalPageMap symbols entries before).entry (gpmEndIdx symbols entries)).Has pageUnusable :=
        (initGlobalPageMap_unusable hmap.kernel).mpr (.inr (.inr ⟨hstart, le_rfl⟩))
      have hpos : 0 < kernelStartIdx := by decide
      rcases (h.marks _ hmap.kernel).mp hmarked with hzero | hoverlap | hkernel
      · omega
      · exact hoverlap
      · omega
    · rintro ⟨hmap, hoverlap⟩
      refine hmap.marks hle ?_
      intro page hlast hkernel
      obtain rfl : page = gpmEndIdx symbols entries := by
        have hin := hkernel.2
        omega
      exact hoverlap
  · constructor
    · exact MarkableMap.of_marks hfits
    · intro hmap
      refine hmap.marks le_rfl ?_
      intro page hlast hkernel
      exact absurd hkernel.2 (not_le.mpr hlast)

/-- A reserved page right behind the page map, and nothing else reserved. -/
theorem page_map_marks_reserved_behind :
    PageMapMarks ⟨0x1100000, 0x1080000, 0x1090000⟩
      [⟨0, 0x1140000, 1⟩, ⟨0x1140000, 0x1000, 2⟩, ⟨0x1141000, 0xebf000, 1⟩] (fun _ => ⟨0, 0, none⟩)
      (lastMapPage ⟨0x1100000, 0x1080000, 0x1090000⟩
        [⟨0, 0x1140000, 1⟩, ⟨0x1140000, 0x1000, 2⟩, ⟨0x1141000, 0xebf000, 1⟩]) := by
  have hidx : gpmEndIdx ⟨0x1100000, 0x1080000, 0x1090000⟩
      [⟨0, 0x1140000, 1⟩, ⟨0x1140000, 0x1000, 2⟩, ⟨0x1141000, 0xebf000, 1⟩] = 0x1140 := by decide
  have hpages : physmemPages [⟨0, 0x1140000, 1⟩, ⟨0x1140000, 0x1000, 2⟩, ⟨0x1141000, 0xebf000, 1⟩] = 0x2000 := by
    decide
  have hsize : pageSize = 4096 := rfl
  have hone : ∀ page, OverlapsReserved [⟨0, 0x1140000, 1⟩, ⟨0x1140000, 0x1000, 2⟩, ⟨0x1141000, 0xebf000, 1⟩] page →
      page = 0x1140 := by
    rintro page ⟨entry, hmem, htype, -, hbegin, hend⟩
    rw [hsize] at hbegin hend
    rcases hmem with _ | ⟨_, _ | ⟨_, _ | ⟨_, hmem⟩⟩⟩
    · exact absurd rfl htype
    · dsimp only at hbegin hend
      omega
    · exact absurd rfl htype
    · cases hmem
  refine (page_map_marks_iff ⟨by decide, by decide⟩).1.mpr ⟨⟨?_, ?_, ?_, ?_⟩, ?_⟩
  · intro entry hmem htype _ page hfirst hlast
    rw [hsize] at hfirst hlast
    rcases hmem with _ | ⟨_, _ | ⟨_, _ | ⟨_, hmem⟩⟩⟩
    · exact absurd rfl htype
    · dsimp only at hfirst hlast
      omega
    · exact absurd rfl htype
    · cases hmem
  · intro page _ _ hoverlap
    obtain rfl := hone page hoverlap
    rw [MarkedKernel, hidx]
    exact ⟨by decide, le_rfl⟩
  · intro _ hoverlap
    exact absurd (hone 255 hoverlap) (by decide)
  · rw [hidx, hpages]
    decide
  · rw [hidx]
    exact ⟨_, .tail _ (.head _), by decide, by decide, by unfold Meets; decide⟩

/-- The map of a small virtual machine: the kilobyte below 640KB that its firmware reserves marks the video memory, of
    which the map says nothing. -/
theorem page_map_marks_video_memory :
    ¬ ∀ (symbols : KernelSymbols) (entries : List MmapEntry) (before : Nat → PageInfo), KernelFits symbols →
      entries.Pairwise (fun e e' => e.addr + e.len ≤ e'.addr) → entries.length < 256 →
      PageMapMarks symbols entries before (lastMapPage symbols entries) ∨
        PageMapMarks symbols entries before (gpmEndIdx symbols entries) := by
  intro h
  have hmarked : MarkedReserved [⟨0, 0x9fc00, 1⟩, ⟨0x9fc00, 0x400, 2⟩, ⟨0xf0000, 0x10000, 2⟩, ⟨0x100000, 0x7ee0000, 1⟩]
      0xa0 :=
    ⟨_, .tail _ (.head _), ⟨by decide, by decide⟩, mem_reservedPages.mpr ⟨by decide, by decide⟩⟩
  have hpage : 0xa0 < physmemPages
      [⟨0, 0x9fc00, 1⟩, ⟨0x9fc00, 0x400, 2⟩, ⟨0xf0000, 0x10000, 2⟩, ⟨0x100000, 0x7ee0000, 1⟩] := by
    decide
  have hclear : ¬ OverlapsReserved
      [⟨0, 0x9fc00, 1⟩, ⟨0x9fc00, 0x400, 2⟩, ⟨0xf0000, 0x10000, 2⟩, ⟨0x100000, 0x7ee0000, 1⟩] 0xa0 := by
    unfold OverlapsReserved Meets
    decide
  have hkernel : ∀ lastPage, ¬ (kernelStartIdx ≤ 0xa0 ∧ 0xa0 ≤ lastPage) := fun _ hin => absurd hin.1 (by decide)
  have hwrong : ∀ lastPage, ¬ PageMapMarks ⟨0x1100000, 0x1080000, 0x1090000⟩
      [⟨0, 0x9fc00, 1⟩, ⟨0x9fc00, 0x400, 2⟩, ⟨0xf0000, 0x10000, 2⟩, ⟨0x100000, 0x7ee0000, 1⟩] (fun _ => ⟨0, 0, none⟩)
      lastPage := by
    intro lastPage hmarks
    rcases (hmarks.marks 0xa0 hpage).mp ((initGlobalPageMap_unusable hpage).mpr (.inr (.inl hmarked))) with
      hzero | hoverlap | hin
    · cases hzero
    · exact hclear hoverlap
    · exact hkernel lastPage hin
  rcases h ⟨0x1100000, 0x1080000, 0x1090000⟩
      [⟨0, 0x9fc00, 1⟩, ⟨0x9fc00, 0x400, 2⟩, ⟨0xf0000, 0x10000, 2⟩, ⟨0x100000, 0x7ee0000, 1⟩] (fun _ => ⟨0, 0, none⟩)
      ⟨by decide, by decide⟩ (by decide) (by decide) with hmarks | hmarks
  · exact hwrong _ hmarks
  · exact hwrong _ hmarks

end LearningOS
