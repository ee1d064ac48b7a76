import LearningOS.Lib.Chain
import LearningOS.Mm.Buddy.Model
import LearningOS.Mm.GlobalPageMap

/-!
# `Mm.GeneralPages` — `page_alloc_init`

The first list of free pages holds the pages below `DMA_ZONE_BEGIN` but the first, and those between the kernel and the
beginning of the buddy allocator's memory. Two loops link each page to the page after it, without a look at its flags, and
the last page of the second loop to the page at `buddy_start`. `general_freelist_iff` says when the list comes out right:
when there is nothing to leave out, neither a reserved page in the first segment nor anything in the second.
-/

namespace LearningOS

open Word Tables Singly

/-- `DMA_ZONE_BEGIN`. -/
abbrev dmaZoneBegin : Nat := 0x400000

/-! ## The two loops -/

/-- `buddy_start` of `page_alloc_init`: past the kernel, aligned for a block of `MAX_ORDER`. -/
def buddyStart (lastKernelPage : Nat) : Nat :=
  add64 (add64 lastKernelPage pageSize) (maskForFirstNBits (pageOrder + maxOrder)) &&&
    not64 (maskForFirstNBits (pageOrder + maxOrder))

/-- The page joins the list, in front of the page after it. -/
def linkPage (idx : Nat) (info : PageInfo) : PageInfo :=
  { info with flags := info.flags ||| pageFreelist, nextFree := some (idx + 1) }

/-- The pages of the first loop: from `PAGE_SIZE` to `DMA_ZONE_BEGIN`. -/
def dmaPages : List Nat := List.range' 1 (dmaZoneBegin / pageSize - 1)

/-- The pages of the second loop: those after the last page of the kernel, up to `buddy_start`. -/
def pkPages (lastKernelPage : Nat) : List Nat :=
  let first := add64 lastKernelPage pageSize
  List.range' (first / pageSize) ((buddyStart lastKernelPage - first + pageSize - 1) / pageSize)

/-- The list and the page map it is in. -/
structure GeneralPages where
  freelistHead : Option Nat
  map : PageMap

/-- `page_alloc_init` with `__init_general_pages`. -/
def pageAllocInit (map : PageMap) (lastKernelPage : Nat) : GeneralPages :=
  let map := (map.modifyAll linkPage dmaPages).modifyAll linkPage (pkPages lastKernelPage)
  let firstPkpage := (pkPages lastKernelPage).head?
  -- the last page of the first loop is linked to the second segment
  ⟨some 1, map.modify (dmaZoneBegin / pageSize - 1) fun info => { info with nextFree := firstPkpage }⟩

/-- The links of the pages. -/
def GeneralPages.next (s : GeneralPages) (page : Nat) : Option Nat := (s.map.entry page).nextFree

/-! ## What the list should be -/

/-- The page is one for the list: in the first segment or in the second. -/
def GeneralPage (lastKernelPage page : Nat) : Prop :=
  (pageSize ≤ page * pageSize ∧ page * pageSize < dmaZoneBegin) ∨
    (lastKernelPage < page * pageSize ∧ page * pageSize < buddyStart lastKernelPage)

/-- **The list of free pages is well formed**: it ends, visits no page twice, and visits exactly the general pages that
    are not unusable, all of them flagged. -/
def FreelistWellFormed (s : GeneralPages) (lastKernelPage : Nat) : Prop :=
  ∃ pages, Chain s.next s.freelistHead pages ∧ pages.Nodup ∧
    (∀ page, page ∈ pages ↔ GeneralPage lastKernelPage page ∧ ¬ (s.map.entry page).Has pageUnusable) ∧
    ∀ page ∈ pages, (s.map.entry page).Has pageFreelist

/-! ## What the loops leave -/

variable {map : PageMap} {lastKernelPage page : Nat}

theorem mem_dmaPages : page ∈ dmaPages ↔ 1 ≤ page ∧ page < 0x400 := by
  unfold dmaPages
  rw [List.mem_range'_1]
  have hlen : 1 + (dmaZoneBegin / pageSize - 1) = 0x400 := by decide
  rw [hlen]

/-- The last page of the kernel, at or above `DMA_ZONE_BEGIN`. -/
structure KernelPage (lastKernelPage : Nat) : Prop where
  aligned : lastKernelPage % pageSize = 0
  above : dmaZoneBegin ≤ lastKernelPage
  word : lastKernelPage < 2 ^ 64

theorem buddyStart_eq : buddyStart lastKernelPage =
    add64 (add64 lastKernelPage pageSize) 0x7FFFF / 2 ^ 19 * 2 ^ 19 :=
  and_not64_mask (add64_lt _ _) (by decide)

/-- `buddy_start` is the next multiple of 512KB, or 0 where there is none. -/
theorem buddyStart_cases (h : KernelPage lastKernelPage) :
    buddyStart lastKernelPage = 0 ∨
      (add64 lastKernelPage pageSize = lastKernelPage + pageSize ∧
        lastKernelPage + pageSize ≤ buddyStart lastKernelPage ∧ buddyStart lastKernelPage % pageSize = 0) := by
  have halign := h.aligned
  have hword := h.word
  have hsize : pageSize = 4096 := rfl
  rw [hsize] at halign
  rw [buddyStart_eq, hsize]
  by_cases hlast : lastKernelPage + 4096 < 2 ^ 64
  · rw [add64_of_lt hlast]
    by_cases hwrap : lastKernelPage + 4096 + 0x7FFFF < 2 ^ 64
    · right
      rw [add64_of_lt hwrap]
      omega
    · left
      unfold add64
      omega
  · left
    unfold add64
    omega

theorem mem_pkPages (h : KernelPage lastKernelPage) :
    page ∈ pkPages lastKernelPage ↔
      lastKernelPage < page * pageSize ∧ page * pageSize < buddyStart lastKernelPage := by
  have halign := h.aligned
  have hsize : pageSize = 4096 := rfl
  unfold pkPages
  rw [List.mem_range'_1]
  rcases buddyStart_cases h with hzero | ⟨hfirst, hle, hmod⟩
  · rw [hzero, hsize]
    omega
  · rw [hfirst]
    rw [hsize] at halign hle hmod ⊢
    omega

/-- The second loop runs unless `buddy_start` is the page after the kernel's last. -/
theorem pkPages_eq_nil (h : KernelPage lastKernelPage) :
    pkPages lastKernelPage = [] ↔ buddyStart lastKernelPage ≤ lastKernelPage + pageSize := by
  have halign := h.aligned
  have hsize : pageSize = 4096 := rfl
  rw [List.eq_nil_iff_forall_not_mem]
  constructor
  · intro hnone
    by_contra hlt
    refine hnone (lastKernelPage / pageSize + 1) ((mem_pkPages h).mpr ?_)
    rw [hsize] at halign hlt ⊢
    omega
  · intro hle page hpage
    have hin := (mem_pkPages h).mp hpage
    rw [hsize] at halign hle hin
    omega

theorem head?_pkPages (hpk : pkPages lastKernelPage ≠ []) :
    (pkPages lastKernelPage).head? = some (add64 lastKernelPage pageSize / pageSize) := by
  unfold pkPages at hpk ⊢
  rw [List.head?_range', if_neg (fun hzero => hpk (List.range'_eq_nil_iff.mpr hzero))]

/-- A page of the second loop is not one of the first. -/
theorem dmaZone_of_mem_pkPages (h : KernelPage lastKernelPage) (hpage : page ∈ pkPages lastKernelPage) :
    0x400 < page := by
  have habove := h.above
  have hin := (mem_pkPages h).mp hpage
  have hsize : pageSize = 4096 := rfl
  have hdma : dmaZoneBegin = 0x400000 := rfl
  rw [hsize] at hin
  omega

theorem generalPage_iff (h : KernelPage lastKernelPage) :
    GeneralPage lastKernelPage page ↔ page ∈ dmaPages ∨ page ∈ pkPages lastKernelPage := by
  have hsize : pageSize = 4096 := rfl
  have hdma : dmaZoneBegin = 0x400000 := rfl
  unfold GeneralPage
  rw [mem_pkPages h, mem_dmaPages]
  refine or_congr ?_ Iff.rfl
  rw [hsize, hdma]
  omega

/-! ## What the loops leave -/

theorem nodup_dmaPages : dmaPages.Nodup := List.nodup_range'

theorem nodup_pkPages : (pkPages lastKernelPage).Nodup := List.nodup_range'

/-- The entry of a page when the list is made. -/
theorem pageAllocInit_entry (h : KernelPage lastKernelPage) :
    (pageAllocInit map lastKernelPage).map.entry page =
      if page = 0x3ff then
        { linkPage page (map.entry page) with nextFree := (pkPages lastKernelPage).head? }
      else if page ∈ dmaPages ∨ page ∈ pkPages lastKernelPage then linkPage page (map.entry page)
      else map.entry page := by
  have hidx : dmaZoneBegin / pageSize - 1 = 0x3ff := by decide
  have hloops : ((map.modifyAll linkPage dmaPages).modifyAll linkPage (pkPages lastKernelPage)).entry page =
      if page ∈ dmaPages ∨ page ∈ pkPages lastKernelPage then linkPage page (map.entry page) else map.entry page := by
    by_cases hpk : page ∈ pkPages lastKernelPage
    · have hdma : page ∉ dmaPages := fun hmem => by
        have habove := dmaZone_of_mem_pkPages h hpk
        have hbelow := (mem_dmaPages.mp hmem).2
        omega
      rw [if_pos (.inr hpk), modifyAll_of_mem nodup_pkPages hpk, modifyAll_of_not_mem hdma]
    · rw [modifyAll_of_not_mem hpk]
      by_cases hdma : page ∈ dmaPages
      · rw [if_pos (.inl hdma), modifyAll_of_mem nodup_dmaPages hdma]
      · rw [if_neg (fun hmem => hmem.elim hdma hpk), modifyAll_of_not_mem hdma]
  unfold pageAllocInit
  simp only [Table.modify, hidx]
  by_cases hlast : page = 0x3ff
  · subst hlast
    rw [if_pos rfl, Function.update_self, hloops, if_pos (.inl (mem_dmaPages.mpr ⟨by decide, by decide⟩))]
  · rw [if_neg hlast, Function.update_of_ne hlast, hloops]

/-- The flag of the list does not change the one of the unusable pages. -/
theorem or_pageFreelist_and_pageUnusable (flags : BitVec 16) :
    (flags ||| pageFreelist) &&& pageUnusable = flags &&& pageUnusable := by
  rw [BitVec.and_or_distrib_right]
  have hnone : pageFreelist &&& pageUnusable = 0 := by decide
  rw [hnone]
  exact BitVec.or_zero

section

variable (h : KernelPage lastKernelPage)

include h

/-- The flags of a page when the list is made. -/
theorem pageAllocInit_flags :
    ((pageAllocInit map lastKernelPage).map.entry page).flags =
      if page ∈ dmaPages ∨ page ∈ pkPages lastKernelPage then (map.entry page).flags ||| pageFreelist
      else (map.entry page).flags := by
  rw [pageAllocInit_entry h]
  by_cases hlast : page = 0x3ff
  · have hdma : page ∈ dmaPages := by
      rw [hlast]
      exact mem_dmaPages.mpr ⟨by decide, by decide⟩
    rw [if_pos hlast, if_pos (.inl hdma)]
    rfl
  rw [if_neg hlast]
  split
  · rfl
  · rfl

theorem pageAllocInit_unusable :
    ((pageAllocInit map lastKernelPage).map.entry page).Has pageUnusable ↔ (map.entry page).Has pageUnusable := by
  unfold PageInfo.Has
  rw [pageAllocInit_flags h]
  split
  · rw [or_pageFreelist_and_pageUnusable]
  · exact Iff.rfl

theorem pageAllocInit_freelist (hpage : GeneralPage lastKernelPage page) :
    ((pageAllocInit map lastKernelPage).map.entry page).Has pageFreelist := by
  unfold PageInfo.Has
  rw [pageAllocInit_flags h, if_pos ((generalPage_iff h).mp hpage)]
  exact has_of_or (map.entry page) _ _ (by decide)

/-- A page of either loop, less the last of the first, is linked to the page after it. -/
theorem pageAllocInit_next (hpage : page ∈ dmaPages ∨ page ∈ pkPages lastKernelPage) (hlast : page ≠ 0x3ff) :
    (pageAllocInit map lastKernelPage).next page = some (page + 1) := by
  rw [GeneralPages.next, pageAllocInit_entry h, if_neg hlast, if_pos hpage]
  rfl

/-- The last page of the first loop is linked to the first of the second. -/
theorem pageAllocInit_next_last (hlast : page = 0x3ff) :
    (pageAllocInit map lastKernelPage).next page = (pkPages lastKernelPage).head? := by
  rw [GeneralPages.next, pageAllocInit_entry h, if_pos hlast]

/-! ## When the list is well formed -/

/-- The list has every page below `DMA_ZONE_BEGIN` but the first. -/
theorem dmaPages_subset {pages : List Nat}
    (hchain : Chain (pageAllocInit map lastKernelPage).next (pageAllocInit map lastKernelPage).freelistHead pages)
    (hpage : page ∈ dmaPages) : page ∈ pages := by
  obtain ⟨hfirst, hlast⟩ := mem_dmaPages.mp hpage
  have hone : 1 ∈ pages := by
    cases pages with
    | nil => cases hchain
    | cons a pages =>
        obtain rfl : 1 = a := Option.some.inj hchain.1
        exact List.mem_cons_self
  obtain ⟨n, rfl⟩ : ∃ n, page = 1 + n := ⟨page - 1, by omega⟩
  refine hchain.seq_mem (f := fun i => i) hone fun i hi hi' => ?_
  exact pageAllocInit_next h (.inl (mem_dmaPages.mpr ⟨hi, by omega⟩)) (by omega)

/-- **If the second loop runs**, the list has the page at `buddy_start`. -/
theorem buddyStart_mem {pages : List Nat}
    (hchain : Chain (pageAllocInit map lastKernelPage).next (pageAllocInit map lastKernelPage).freelistHead pages)
    (hpk : pkPages lastKernelPage ≠ []) : buddyStart lastKernelPage / pageSize ∈ pages := by
  have halign := h.aligned
  have hsize : pageSize = 4096 := rfl
  have hlt : lastKernelPage + pageSize < buddyStart lastKernelPage :=
    not_le.mp fun hle => hpk ((pkPages_eq_nil h).mpr hle)
  obtain ⟨hfirst, -, hmod⟩ := (buddyStart_cases h).resolve_left (fun hzero => by omega)
  rw [hsize] at halign hlt hmod
  have hmem : ∀ i, lastKernelPage / 4096 + 1 ≤ i → i < buddyStart lastKernelPage / 4096 →
      i ∈ pkPages lastKernelPage := fun i hi hi' => (mem_pkPages h).mpr (by rw [hsize]; omega)
  -- the first page of the second segment follows the last of the first
  have hhead : (pkPages lastKernelPage).head? = some (lastKernelPage / 4096 + 1) := by
    have hpage : (lastKernelPage + 4096) / 4096 = lastKernelPage / 4096 + 1 := Nat.add_div_right _ (by decide)
    rw [head?_pkPages hpk, hfirst, hsize, hpage]
  have hstart : lastKernelPage / 4096 + 1 ∈ pages := by
    have hlast : 0x3ff ∈ pages := dmaPages_subset h hchain (mem_dmaPages.mpr ⟨by decide, by decide⟩)
    refine hchain.next_mem hlast ?_
    rw [pageAllocInit_next_last h rfl, hhead]
  obtain ⟨n, hn⟩ : ∃ n, buddyStart lastKernelPage / pageSize = lastKernelPage / 4096 + 1 + n :=
    ⟨buddyStart lastKernelPage / pageSize - (lastKernelPage / 4096 + 1), by rw [hsize]; omega⟩
  rw [hn]
  refine hchain.seq_mem (f := fun i => i) hstart fun i hi hi' => ?_
  have hin : i ∈ pkPages lastKernelPage := hmem i hi (by rw [hsize] at hn; omega)
  have habove := dmaZone_of_mem_pkPages h hin
  exact pageAllocInit_next h (.inr hin) (by omega)

/-- The list is well formed if there is nothing to leave out. -/
theorem freelistWellFormed_iff :
    FreelistWellFormed (pageAllocInit map lastKernelPage) lastKernelPage ↔
      pkPages lastKernelPage = [] ∧ ∀ page ∈ dmaPages, ¬ (map.entry page).Has pageUnusable := by
  have hsize : pageSize = 4096 := rfl
  constructor
  · rintro ⟨pages, hchain, -, hpages, -⟩
    constructor
    · by_contra hpk
      -- the page at `buddy_start` is in the list, and in no segment
      obtain ⟨hgeneral, -⟩ := (hpages _).mp (buddyStart_mem h hchain hpk)
      have hle := (buddyStart_cases h).resolve_left fun hzero => hpk ((pkPages_eq_nil h).mpr (by omega))
      have habove := h.above
      rw [GeneralPage, Nat.div_mul_cancel (Nat.dvd_of_mod_eq_zero hle.2.2)] at hgeneral
      omega
    · intro page hpage hunusable
      have hclear := ((hpages page).mp (dmaPages_subset h hchain hpage)).2
      exact hclear ((pageAllocInit_unusable h).mpr hunusable)
  · rintro ⟨hpk, hclear⟩
    have hgeneral : ∀ page, GeneralPage lastKernelPage page ↔ page ∈ dmaPages := by
      intro page
      rw [generalPage_iff h, hpk, or_iff_left List.not_mem_nil]
    refine ⟨dmaPages, ?_, nodup_dmaPages, ?_, ?_⟩
    · have hchain : Chain (pageAllocInit map lastKernelPage).next (some 1) ((List.range' 1 (0x3fe + 1)).map fun i => i) := by
        refine Chain.of_seq (f := fun i => i) (s := 1) 0x3fe ?_ ?_
        · intro i hi hi'
          exact pageAllocInit_next h (.inl (mem_dmaPages.mpr ⟨hi, by omega⟩)) (by omega)
        · show (pageAllocInit map lastKernelPage).next 0x3ff = none
          rw [pageAllocInit_next_last h rfl, hpk]
          rfl
      rw [List.map_id'] at hchain
      exact hchain
    · intro page
      rw [hgeneral, pageAllocInit_unusable h]
      exact ⟨fun hpage => ⟨hpage, hclear page hpage⟩, fun hpage => hpage.1⟩
    · intro page hpage
      exact pageAllocInit_freelist h ((hgeneral page).mpr hpage)

end

/-- Which pages of the first segment are marked: none for an entry that begins in the last page below 1MB or above. -/
theorem dmaPages_clear_iff {symbols : KernelSymbols} {entries : List MmapEntry} {before : Nat → PageInfo} :
    (∀ page ∈ dmaPages, ¬ ((initGlobalPageMap symbols entries before).entry page).Has pageUnusable) ↔
      (∀ entry ∈ entries, entry.type ≠ e820UsableRam → entry.addr < memEnd entries →
          0x100000 < entry.addr + pageSize) ∧
        ∀ page ∈ dmaPages, physmemPages entries ≤ page → ¬ (before page).Has pageUnusable := by
  have hsize : pageSize = 4096 := rfl
  constructor
  · intro hclear
    constructor
    · intro entry hmem htype haddr
      by_contra hle
      rw [hsize] at hle
      -- the entry's first page is marked, or the page after it where that is page 0
      have hpage : max (entry.addr / 4096) 1 ∈ dmaPages := mem_dmaPages.mpr ⟨le_max_right _ _, by omega⟩
      refine hclear _ hpage (initGlobalPageMap_has.mpr (.inr (.inl ⟨entry, hmem, ⟨htype, haddr⟩, ?_⟩)))
      rw [mem_reservedPages, hsize]
      omega
    · intro page hpage hbehind hunusable
      exact hclear page hpage (initGlobalPageMap_has.mpr (.inr (.inr (.inr ⟨hbehind, hunusable⟩))))
  · rintro ⟨hentries, hbehind⟩ page hpage hunusable
    obtain ⟨hfirst, hlast⟩ := mem_dmaPages.mp hpage
    rcases initGlobalPageMap_has.mp hunusable with hkernel | ⟨entry, hmem, ⟨htype, haddr⟩, hin⟩ | hzero | ⟨hle, hbefore⟩
    · have hstart := kernelStartIdx_eq
      have hle := hkernel.1
      omega
    · have hlate := hentries entry hmem htype haddr
      rw [mem_reservedPages, hsize] at hin
      rw [hsize] at hlate
      omega
    · omega
    · exact hbehind page hpage hle hbefore

/-- **When the list of general pages is well formed** after the initialisation: `buddy_start` is right behind the kernel's
    last page, no entry below 1MB is reserved, and where the map ends before `DMA_ZONE_BEGIN` the memory behind it
    happens not to have the flag. -/
theorem general_freelist_iff {symbols : KernelSymbols} {entries : List MmapEntry} {before : Nat → PageInfo}
    (h : KernelPage lastKernelPage) :
    FreelistWellFormed (pageAllocInit (initGlobalPageMap symbols entries before) lastKernelPage) lastKernelPage ↔
      buddyStart lastKernelPage ≤ lastKernelPage + pageSize ∧
        (∀ entry ∈ entries, entry.type ≠ e820UsableRam → entry.addr < memEnd entries →
          0x100000 < entry.addr + pageSize) ∧
        ∀ page ∈ dmaPages, physmemPages entries ≤ page → ¬ (before page).Has pageUnusable := by
  rw [freelistWellFormed_iff h, pkPages_eq_nil h, dmaPages_clear_iff]

/-- A map without reserved memory below 1MB and a kernel that ends 4KB before a multiple of 512KB. -/
theorem general_freelist_nothing_reserved :
    FreelistWellFormed (pageAllocInit (initGlobalPageMap ⟨0x1100000, 0x1080000, 0x1090000⟩ [⟨0, 0x2000000, 1⟩]
      fun _ => ⟨0, 0, none⟩) 0x117f000) 0x117f000 := by
  refine (general_freelist_iff ⟨by decide, by decide, by decide⟩).mpr ⟨by decide, ?_, ?_⟩
  · intro entry hmem htype
    rcases hmem with _ | ⟨_, hmem⟩
    · exact absurd rfl htype
    · cases hmem
  · intro page _ _
    show ¬ (PageInfo.Has ⟨0, 0, none⟩ pageUnusable)
    decide

/-- The map of a small virtual machine: the pages reserved below 1MB are on the list. -/
theorem general_freelist_reserved_pages :
    ¬ ∀ (symbols : KernelSymbols) (entries : List MmapEntry) (before : Nat → PageInfo) (lastKernelPage : Nat),
      KernelPage lastKernelPage →
      FreelistWellFormed (pageAllocInit (initGlobalPageMap symbols entries before) lastKernelPage) lastKernelPage := by
  intro hall
  have hkernel : KernelPage 0x1140000 := ⟨by decide, by decide, by decide⟩
  have hwell := hall ⟨0x1100000, 0x1080000, 0x1090000⟩
    [⟨0, 0x9fc00, 1⟩, ⟨0x9fc00, 0x400, 2⟩, ⟨0xf0000, 0x10000, 2⟩, ⟨0x100000, 0x7ee0000, 1⟩] (fun _ => ⟨0, 0, none⟩)
    0x1140000 hkernel
  have hclear := (dmaPages_clear_iff.mp ((freelistWellFormed_iff hkernel).mp hwell).2).1
  have hlate := hclear ⟨0xf0000, 0x10000, 2⟩ (.tail _ (.tail _ (.head _))) (by decide) (by decide)
  exact absurd hlate (by decide)

end LearningOS
