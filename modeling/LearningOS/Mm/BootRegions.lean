import LearningOS.Lib.Bytes
import LearningOS.Lib.Chain
import LearningOS.Mm.KernelImage

/-!
# `Mm.BootRegions` — the first call of `load_physmem_regions`

The list-level model of the region list takes the entries of the memory map as given. Here they are read from the bytes of
the multiboot tag, and the list is built in the slots of `region_pool`, the slot after the last region always zeroed one
entry ahead. A slot is an integer: the twelve slots of the array are 0 to 11, and the loop does not stop at either end.

`loadRegionPool_list` relates the two: the chain from the first slot holds `loadPhysmemRegions` of the entries that were
read. `regions_loaded_iff` says when that is what the tag means: the entries are read 24 bytes apart whatever the tag's
`entry_size`, with no usable entry the slot before the array is written, with twelve the slot after it.
-/

namespace LearningOS

open Bytes Singly Word

/-! ## The memory-map tag -/

/-- `sizeof(struct multiboot_tag_mmap)`. -/
abbrev mmapTagSize : Nat := 16

/-- `sizeof(struct multiboot_mmap_entry)`. -/
abbrev mmapEntrySize : Nat := 24

/-- The field `size` of a tag. -/
def tagSize (mem : Mem) (tag : Nat) : Nat := load 4 mem (tag + 4)

/-- The field `entry_size` of a memory-map tag. -/
def tagEntrySize (mem : Mem) (tag : Nat) : Nat := load 4 mem (tag + 8)

/-- `__num_mmap_entries`. -/
def numMmapEntries (mem : Mem) (tag : Nat) : Nat := sub64 (tagSize mem tag) mmapTagSize / tagEntrySize mem tag % 2 ^ 32

/-- The fields of an entry. -/
def mmapEntryAt (mem : Mem) (a : Nat) : MmapEntry := ⟨load 8 mem a, load 8 mem (a + 8), load 4 mem (a + 16)⟩

/-- Entries that many bytes apart, from the first of the tag on. -/
def tagEntries (mem : Mem) (tag stride count : Nat) : List MmapEntry :=
  (List.range count).map fun i => mmapEntryAt mem (tag + mmapTagSize + i * stride)

/-- A memory-map tag with `count` entries. -/
structure WellFormedMmapTag (mem : Mem) (tag count : Nat) : Prop where
  entrySize_le : mmapEntrySize ≤ tagEntrySize mem tag
  entrySize_mod : tagEntrySize mem tag % 8 = 0
  size : tagSize mem tag = mmapTagSize + count * tagEntrySize mem tag

/-! ## The pool -/

/-- `physmem_region_t`, the next region by its slot. -/
structure RegionNode where
  region : PhysmemRegion
  nextRegion : Option Int
deriving DecidableEq

/-- `region_pool` and what is around it, with the slots that were written. -/
structure RegionPool where
  node : Int → RegionNode
  written : List Int

/-- `PHYSMEM_REGION_POOL_SIZE`, or what it stands for: `region_pool` has twelve slots. -/
abbrev regionPoolSize : Int := 12

/-- Write a slot. -/
def RegionPool.set (pool : RegionPool) (slot : Int) (node : RegionNode) : RegionPool :=
  ⟨Function.update pool.node slot node, slot :: pool.written⟩

/-- A slot after `memset`. -/
def RegionNode.zero : RegionNode := ⟨⟨0, 0⟩, none⟩

/-- The body of the loop. -/
def loadEntry (kernelStart kernelEnd : Nat) (s : RegionPool × Int) (entry : MmapEntry) : RegionPool × Int :=
  let (pool, currentRegion) := s
  if entry.type = e820UsableRam then
    let pool := pool.set currentRegion ⟨physmemRegion kernelStart kernelEnd entry, some (currentRegion + 1)⟩
    (pool.set (currentRegion + 1) .zero, currentRegion + 1)
  else
    (pool, currentRegion)

/-- What follows the loop: the last region is linked to the extra one, which is not needed. -/
def cutAfterLast (s : RegionPool × Int) : RegionPool :=
  let (pool, currentRegion) := s
  let lastRegion := currentRegion - 1
  pool.set lastRegion { pool.node lastRegion with nextRegion := none }

/-- `load_physmem_regions`, called for the first time; it returns the first slot. -/
def loadRegionPool (node : Int → RegionNode) (mem : Mem) (tag kernelStart kernelEnd : Nat) : RegionPool :=
  let kernelStart := clampUpToPage kernelStart
  let pool := RegionPool.set ⟨node, []⟩ 0 .zero
  let entries := tagEntries mem tag mmapEntrySize (numMmapEntries mem tag)
  cutAfterLast (entries.foldl (loadEntry kernelStart kernelEnd) (pool, 0))

/-- The field that links the list. -/
def RegionPool.next (pool : RegionPool) (slot : Int) : Option Int := (pool.node slot).nextRegion

/-! ## Building the list -/

/-- The slots before `currentRegion` hold the regions, each linked to the next slot; the slot itself is zeroed, and no
    other one was written. -/
structure Built (pool : RegionPool) (currentRegion : Int) (regions : List PhysmemRegion) : Prop where
  current : currentRegion = regions.length
  node : ∀ (i : Nat) r, regions[i]? = some r → pool.node i = ⟨r, some (i + 1)⟩
  zeroed : pool.node currentRegion = .zero
  written : ∀ slot, slot ∈ pool.written ↔ 0 ≤ slot ∧ slot ≤ currentRegion

variable {pool : RegionPool} {currentRegion : Int} {regions : List PhysmemRegion} {kernelStart kernelEnd : Nat}

theorem built_start (node : Int → RegionNode) : Built (RegionPool.set ⟨node, []⟩ 0 .zero) 0 [] := by
  constructor
  · rfl
  · intro i r hr
    cases hr
  · simp [RegionPool.set]
  · intro slot
    simp only [RegionPool.set, List.mem_singleton]
    omega

/-- **One entry**: a usable one appends its region, any other is passed over. -/
theorem Built.loadEntry (h : Built pool currentRegion regions) (entry : MmapEntry) :
    Built (loadEntry kernelStart kernelEnd (pool, currentRegion) entry).1
      (loadEntry kernelStart kernelEnd (pool, currentRegion) entry).2
      (regions ++ (usableEntries [entry]).map (physmemRegion kernelStart kernelEnd)) := by
  by_cases hu : entry.type = e820UsableRam
  · have happend : (usableEntries [entry]).map (physmemRegion kernelStart kernelEnd) =
        [physmemRegion kernelStart kernelEnd entry] := by
      simp [usableEntries, hu]
    unfold LearningOS.loadEntry
    rw [happend]
    simp only [if_pos hu]
    have hcur := h.current
    constructor
    · rw [List.length_append, hcur]
      rfl
    · intro i r hr
      simp only [RegionPool.set]
      by_cases hi : i < regions.length
      · -- a slot written before
        rw [List.getElem?_append_left hi] at hr
        rw [Function.update_of_ne (by omega), Function.update_of_ne (by omega)]
        exact h.node i r hr
      · have hlen := (List.getElem?_eq_some_iff.mp hr).1
        rw [List.length_append, List.length_singleton] at hlen
        obtain rfl : i = regions.length := by omega
        rw [List.getElem?_concat_length] at hr
        obtain rfl := Option.some.inj hr
        rw [Function.update_of_ne (by omega), hcur, Function.update_self]
    · simp [RegionPool.set]
    · intro slot
      simp only [RegionPool.set, List.mem_cons, h.written slot]
      omega
  · have hnone : (usableEntries [entry]).map (physmemRegion kernelStart kernelEnd) = [] := by
      simp [usableEntries, hu]
    unfold LearningOS.loadEntry
    rw [hnone, List.append_nil]
    simp only [if_neg hu]
    exact h

/-- **The loop**: by induction on the entries. -/
theorem Built.loadEntries (h : Built pool currentRegion regions) (entries : List MmapEntry) :
    Built (entries.foldl (LearningOS.loadEntry kernelStart kernelEnd) (pool, currentRegion)).1
      (entries.foldl (LearningOS.loadEntry kernelStart kernelEnd) (pool, currentRegion)).2
      (regions ++ (usableEntries entries).map (physmemRegion kernelStart kernelEnd)) := by
  induction entries generalizing pool currentRegion regions with
  | nil =>
      rw [show usableEntries [] = [] from rfl, List.map_nil, List.append_nil]
      exact h
  | cons entry entries ih =>
      have hsplit : usableEntries ([entry] ++ entries) = usableEntries [entry] ++ usableEntries entries :=
        List.filter_append ..
      rw [List.singleton_append] at hsplit
      rw [hsplit, List.map_append, ← List.append_assoc]
      exact ih (h.loadEntry entry)

/-! ## The list that is returned -/

/-- The regions of a pool whose list is linked from the first slot. -/
def Lists (pool : RegionPool) (regions : List PhysmemRegion) : Prop :=
  ∃ slots, Chain pool.next (some 0) slots ∧ slots.map (fun slot => (pool.node slot).region) = regions

/-- A pool lists one thing only. -/
theorem Lists.unique {regions' : List PhysmemRegion} (h : Lists pool regions) (h' : Lists pool regions') :
    regions = regions' := by
  obtain ⟨slots, hchain, rfl⟩ := h
  obtain ⟨slots', hchain', rfl⟩ := h'
  rw [hchain.unique hchain']

/-- The link of the last region cut, the pool lists what was built. -/
theorem Built.lists (h : Built pool currentRegion regions) (hne : regions ≠ []) :
    Lists (cutAfterLast (pool, currentRegion)) regions := by
  obtain ⟨n, hn⟩ : ∃ n, regions.length = n + 1 := Nat.exists_eq_succ_of_ne_zero (fun h0 => hne (List.length_eq_zero_iff.mp h0))
  have hlast : currentRegion - 1 = (n : Int) := by
    have hcur := h.current
    omega
  have hnode : ∀ i (hi : i < regions.length), pool.node i = ⟨regions[i], some (i + 1)⟩ :=
    fun i hi => h.node i _ (List.getElem?_eq_getElem hi)
  unfold cutAfterLast
  simp only [hlast]
  have hchain : Chain (pool.set n { pool.node n with nextRegion := none }).next (some ((0 : Nat) : Int))
      ((List.range' 0 (n + 1)).map fun i : Nat => (i : Int)) := by
    apply Chain.of_seq (f := fun i : Nat => (i : Int)) (s := 0) n
    · intro i _ hi
      have hlt : i < n := by omega
      have hne : (i : Int) ≠ n := by omega
      simp only [RegionPool.next, RegionPool.set, Function.update_of_ne hne]
      rw [hnode i (by omega)]
      rfl
    · rw [Nat.zero_add]
      simp only [RegionPool.next, RegionPool.set, Function.update_self]
  refine ⟨_, hchain, ?_⟩
  apply List.ext_getElem
  · rw [List.length_map, List.length_map, List.length_range', hn]
  · intro i hi hi'
    have hindex : 0 + 1 * i = i := by omega
    simp only [List.getElem_map, List.getElem_range', RegionPool.set, hindex]
    by_cases hin : i = n
    · subst hin
      rw [Function.update_self, hnode i hi']
    · rw [Function.update_of_ne (by omega), hnode i hi']

section

variable (kernelStart kernelEnd) (node : Int → RegionNode) (mem : Mem) (tag : Nat)

/-- The usable entries that the loop reads. -/
def readEntries : List MmapEntry := usableEntries (tagEntries mem tag mmapEntrySize (numMmapEntries mem tag))

/-- The pool when the loop is done. -/
theorem built_loop :
    ∃ s, Built s.1 s.2 ((readEntries mem tag).map (physmemRegion (clampUpToPage kernelStart) kernelEnd)) ∧
      loadRegionPool node mem tag kernelStart kernelEnd = cutAfterLast s := by
  have hbuilt : Built _ _ ([] ++ (readEntries mem tag).map (physmemRegion (clampUpToPage kernelStart) kernelEnd)) :=
    (built_start node).loadEntries (tagEntries mem tag mmapEntrySize (numMmapEntries mem tag))
  rw [List.nil_append] at hbuilt
  exact ⟨_, hbuilt, rfl⟩

/-- **What the call writes**: a slot for every region and one more, and the link of the last region, which without a
    region is in the slot before the pool. -/
theorem mem_written (slot : Int) :
    slot ∈ (loadRegionPool node mem tag kernelStart kernelEnd).written ↔
      0 ≤ slot ∧ slot ≤ (readEntries mem tag).length ∨ slot = (readEntries mem tag).length - 1 := by
  obtain ⟨⟨pool, currentRegion⟩, hbuilt, hpool⟩ := built_loop kernelStart kernelEnd node mem tag
  have hcur := hbuilt.current
  rw [List.length_map] at hcur
  rw [hpool]
  simp only [cutAfterLast, RegionPool.set, List.mem_cons, hbuilt.written slot]
  omega

/-- **The list is `loadPhysmemRegions` of the entries that were read.** -/
theorem loadRegionPool_list :
    Lists (loadRegionPool node mem tag kernelStart kernelEnd)
      (loadPhysmemRegions kernelStart kernelEnd (tagEntries mem tag mmapEntrySize (numMmapEntries mem tag))) := by
  obtain ⟨⟨pool, currentRegion⟩, hbuilt, hpool⟩ := built_loop kernelStart kernelEnd node mem tag
  rw [hpool]
  by_cases hempty : readEntries mem tag = []
  · -- the zeroed first slot stands for the list
    rw [loadPhysmemRegions_of_none hempty]
    rw [hempty] at hbuilt
    obtain rfl : currentRegion = 0 := hbuilt.current
    have hfirst : (cutAfterLast (pool, 0)).node 0 = .zero := by
      simp only [cutAfterLast, RegionPool.set]
      rw [Function.update_of_ne (by decide)]
      exact hbuilt.zeroed
    refine ⟨[0], ⟨rfl, ?_⟩, ?_⟩
    · show ((cutAfterLast (pool, 0)).node 0).nextRegion = none
      rw [hfirst]
      rfl
    · rw [List.map_singleton, hfirst]
      rfl
  · rw [loadPhysmemRegions_of_usable hempty]
    exact hbuilt.lists (fun hnil => hempty (List.map_eq_nil_iff.mp hnil))

end

/-! ## What the tag means -/

/-- The entry and the image have a byte in common or lie next to each other. -/
def TouchesKernel (kernelEnd : Nat) (entry : MmapEntry) : Prop :=
  kernelPhysicalStart ≤ entry.addr + entry.len ∧ entry.addr ≤ kernelEnd

/-- The region of a usable entry: it ends with the entry, and begins with it, past the first page, where the kernel is
    not concerned. -/
def RegionMatches (kernelEnd : Nat) (entry : MmapEntry) (region : PhysmemRegion) : Prop :=
  region.regionEnd = add64 entry.addr entry.len ∧
    (¬ TouchesKernel kernelEnd entry → region.freeStart = max entry.addr pageSize)

/-- **The region list is the usable part of the boot map**, and only `region_pool` was written. -/
structure RegionsLoaded (node : Int → RegionNode) (mem : Mem) (tag count kernelEnd : Nat) : Prop where
  written : ∀ slot ∈ (loadRegionPool node mem tag kernelPhysicalStart kernelEnd).written,
    0 ≤ slot ∧ slot < regionPoolSize
  list : ∃ regions, Lists (loadRegionPool node mem tag kernelPhysicalStart kernelEnd) regions ∧
    List.Forall₂ (RegionMatches kernelEnd) (usableEntries (tagEntries mem tag (tagEntrySize mem tag) count)) regions

/-- Two entries that end at one address and, unless the first touches the kernel, begin at one, past the first page. -/
def SameRegion (kernelEnd : Nat) (entry entry' : MmapEntry) : Prop :=
  add64 entry'.addr entry'.len = add64 entry.addr entry.len ∧
    (¬ TouchesKernel kernelEnd entry → max entry'.addr pageSize = max entry.addr pageSize)

theorem sameRegion_refl (kernelEnd : Nat) (entry : MmapEntry) : SameRegion kernelEnd entry entry :=
  ⟨rfl, fun _ => rfl⟩

/-- The region made of one entry is that of another if the two are the same to `load_physmem_regions`. -/
theorem regionMatches_iff {entry entry' : MmapEntry} :
    RegionMatches kernelEnd entry (physmemRegion (clampUpToPage kernelPhysicalStart) kernelEnd entry') ↔
      SameRegion kernelEnd entry entry' := by
  unfold RegionMatches SameRegion
  refine and_congr Iff.rfl (forall_congr' fun hout => ?_)
  rw [clampUpToPage_kernelPhysicalStart]
  simp only [physmemRegion, clampUpToPage_kernelPhysicalStart]
  have hpage : pageSize < kernelPhysicalStart := by decide
  -- the entry begins before the image or after it
  have hbegin : max entry.addr pageSize < kernelPhysicalStart ∨ kernelEnd < max entry.addr pageSize := by
    by_cases hbefore : entry.addr + entry.len < kernelPhysicalStart
    · exact .inl (max_lt (Nat.lt_of_le_of_lt (Nat.le_add_right _ _) hbefore) hpage)
    · have hafter : kernelEnd < entry.addr := not_le.mp fun hle => hout ⟨not_lt.mp hbefore, hle⟩
      exact .inr (lt_of_lt_of_le hafter (le_max_left _ _))
  split
  · next hin =>
      -- a clamped region begins with the image, an entry in the image is not outside
      constructor
      · intro h
        rw [← h] at hbegin
        rcases hbegin with hlt | hlt
        · exact absurd hlt (lt_irrefl _)
        · exact absurd (hin.1.trans hin.2) (not_le.mpr hlt)
      · intro h
        rw [h] at hin
        rcases hbegin with hlt | hlt
        · exact absurd hin.1 (not_le.mpr hlt)
        · exact absurd hin.2 (not_le.mpr hlt)
  · exact Iff.rfl

section

variable {node : Int → RegionNode} {mem : Mem} {tag count : Nat}

/-- The number of entries comes out right. -/
theorem numMmapEntries_eq (h : WellFormedMmapTag mem tag count) : numMmapEntries mem tag = count := by
  have hlt : tagSize mem tag < 256 ^ 4 := load_lt 4 mem (tag + 4)
  have hsize := h.size
  have hpos : 0 < tagEntrySize mem tag := Nat.lt_of_lt_of_le (by decide) h.entrySize_le
  have hcount : count ≤ count * tagEntrySize mem tag := Nat.le_mul_of_pos_right count hpos
  have hsub : sub64 (tagSize mem tag) mmapTagSize = count * tagEntrySize mem tag := by
    rw [sub64_of_le (by omega) (by omega)]
    omega
  unfold numMmapEntries
  rw [hsub, Nat.mul_div_cancel _ hpos]
  exact Nat.mod_eq_of_lt (by omega)

/-- What is written is inside `region_pool` with one to eleven usable entries. -/
theorem written_inside_iff :
    (∀ slot ∈ (loadRegionPool node mem tag kernelStart kernelEnd).written, 0 ≤ slot ∧ slot < regionPoolSize) ↔
      1 ≤ (readEntries mem tag).length ∧ (readEntries mem tag).length ≤ 11 := by
  have hpool : regionPoolSize = 12 := rfl
  constructor
  · intro h
    have hlast := h ((readEntries mem tag).length - 1) ((mem_written kernelStart kernelEnd node mem tag _).mpr (.inr rfl))
    have hextra := h (readEntries mem tag).length ((mem_written kernelStart kernelEnd node mem tag _).mpr (.inl ⟨Int.natCast_nonneg _, le_rfl⟩))
    omega
  · rintro ⟨hfirst, hlast⟩ slot hslot
    rcases (mem_written kernelStart kernelEnd node mem tag slot).mp hslot with hin | hcut
    · omega
    · omega

/-- With a usable entry the list is that of the tag if what is read 24 bytes apart is. -/
theorem list_matches_iff (hne : readEntries mem tag ≠ []) (entries : List MmapEntry) :
    (∃ regions, Lists (loadRegionPool node mem tag kernelPhysicalStart kernelEnd) regions ∧
        List.Forall₂ (RegionMatches kernelEnd) entries regions) ↔
      List.Forall₂ (SameRegion kernelEnd) entries (readEntries mem tag) := by
  have hlist : Lists (loadRegionPool node mem tag kernelPhysicalStart kernelEnd)
      ((readEntries mem tag).map (physmemRegion (clampUpToPage kernelPhysicalStart) kernelEnd)) := by
    have hall := loadRegionPool_list kernelPhysicalStart kernelEnd node mem tag
    rw [loadPhysmemRegions_of_usable hne] at hall
    exact hall
  have hmap : List.Forall₂ (RegionMatches kernelEnd) entries
        ((readEntries mem tag).map (physmemRegion (clampUpToPage kernelPhysicalStart) kernelEnd)) ↔
      List.Forall₂ (SameRegion kernelEnd) entries (readEntries mem tag) := by
    rw [List.forall₂_map_right_iff]
    simp only [regionMatches_iff]
  rw [← hmap]
  constructor
  · rintro ⟨regions, hregions, hmatch⟩
    rw [← hregions.unique hlist]
    exact hmatch
  · intro hmatch
    exact ⟨_, hlist, hmatch⟩

/-- The entries the loop reads, by the number of the tag's entries. -/
theorem readEntries_eq (h : WellFormedMmapTag mem tag count) :
    readEntries mem tag = usableEntries (tagEntries mem tag mmapEntrySize count) := by
  unfold readEntries
  rw [numMmapEntries_eq h]

/-- A tag whose entries are as long as the C struct, or with one entry only, is read as it is meant. -/
theorem sameRegions_of_stride (h : tagEntrySize mem tag = mmapEntrySize ∨ count ≤ 1) :
    List.Forall₂ (SameRegion kernelEnd) (usableEntries (tagEntries mem tag (tagEntrySize mem tag) count))
      (usableEntries (tagEntries mem tag mmapEntrySize count)) := by
  have hsame : tagEntries mem tag (tagEntrySize mem tag) count = tagEntries mem tag mmapEntrySize count := by
    rcases h with hstride | hcount
    · rw [hstride]
    · refine List.map_congr_left fun i hi => ?_
      obtain rfl : i = 0 := by
        have hlt := List.mem_range.mp hi
        omega
      rw [Nat.zero_mul, Nat.zero_mul]
  rw [hsame]
  exact List.forall₂_same.mpr fun entry _ => sameRegion_refl kernelEnd entry

/-- **When the region list is the usable part of the boot map**: one to eleven usable entries are read 24 bytes apart,
    and to `load_physmem_regions` they are those the tag has at its own stride. -/
theorem regions_loaded_iff (h : WellFormedMmapTag mem tag count) :
    RegionsLoaded node mem tag count kernelEnd ↔
      (1 ≤ (usableEntries (tagEntries mem tag mmapEntrySize count)).length ∧
        (usableEntries (tagEntries mem tag mmapEntrySize count)).length ≤ 11) ∧
      List.Forall₂ (SameRegion kernelEnd) (usableEntries (tagEntries mem tag (tagEntrySize mem tag) count))
        (usableEntries (tagEntries mem tag mmapEntrySize count)) := by
  rw [← readEntries_eq h]
  constructor
  · rintro ⟨hwritten, hlist⟩
    have hlen := written_inside_iff.mp hwritten
    have hne : readEntries mem tag ≠ [] := List.ne_nil_of_length_pos hlen.1
    exact ⟨hlen, (list_matches_iff hne _).mp hlist⟩
  · rintro ⟨hlen, hsame⟩
    have hne : readEntries mem tag ≠ [] := List.ne_nil_of_length_pos hlen.1
    exact ⟨written_inside_iff.mpr hlen, (list_matches_iff hne _).mpr hsame⟩

/-- A tag with 640KB of usable memory and nothing else. -/
theorem regions_loaded_single_entry :
    RegionsLoaded (fun _ => .zero)
      (fun a => ([6, 0, 0, 0, 40, 0, 0, 0, 24, 0, 0, 0, 0, 0, 0, 0,
        0, 0, 0, 0, 0, 0, 0, 0, 0, 0, 10, 0, 0, 0, 0, 0, 1, 0, 0, 0, 0, 0, 0, 0] : List UInt8).getD a 0) 0 1 0x1200000 :=
  (regions_loaded_iff ⟨by decide, by decide, by decide⟩).mpr
    ⟨by decide, sameRegions_of_stride (.inr le_rfl)⟩

/-- With one entry, and that a reserved one, the slot before `region_pool` is written. -/
theorem regions_loaded_none_usable :
    ¬ ∀ (node : Int → RegionNode) (mem : Mem) (tag count kernelEnd : Nat), WellFormedMmapTag mem tag count →
      RegionsLoaded node mem tag count kernelEnd := by
  intro h
  have hloaded := h (fun _ => .zero)
    (fun a => ([6, 0, 0, 0, 40, 0, 0, 0, 24, 0, 0, 0, 0, 0, 0, 0,
      0, 0, 0, 0, 0, 0, 0, 0, 0, 0, 10, 0, 0, 0, 0, 0, 2, 0, 0, 0, 0, 0, 0, 0] : List UInt8).getD a 0) 0 1 0x1200000
    ⟨by decide, by decide, by decide⟩
  have hslot := hloaded.written (-1) (by decide)
  omega

end

end LearningOS
