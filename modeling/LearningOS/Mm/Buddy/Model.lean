import LearningOS.Lib.Run
import LearningOS.Mm.Bitmap
import LearningOS.Mm.BootMmap

/-!
# `Mm.Buddy.Model` — `mm/buddy_alloc.h` and `mm/buddy_alloc.c`

The buddy allocator as the source computes it: page offsets and addresses are `Nat`s with the 64-bit
wrap-around written out, the pair bitmap is the byte array of `Mm.Bitmap`, and each `freelists[order]` is the
list of the `page_offset`s on it, first entry first. A function that can stop short returns `Except Fault`.

Three things the C leaves to the machine are spelled out.
* `freelists` has `MAX_ORDER + 1` slots. An access past them is the fault `freelistsIndex`; the one read of
  slot `MAX_ORDER + 1` that the search of `__find_or_split_block` makes sees the next word, `base_addr`.
* Dereferencing or releasing a `NULL` entry is the fault `nullEntry`.
* List nodes come from a slab cache. `slab_alloc` on a cache without a free cell goes to `__slab_create`,
  which calls back into the physical allocator: that call is the argument `create` of every function here.

`flags` of an entry and the local `block_size` of `buddy_shrink_block` are read by nothing and left out.
-/

namespace LearningOS

open Word Run Dyadic

/-- `MAX_ORDER`. -/
abbrev maxOrder : Nat := 7

/-- `PAGE_OFFSET_OOB`. -/
def pageOffsetOob : Nat := 0xFFFFFFFFFFFFFFFF

/-- `MAX_BLOCK_BITS`. -/
abbrev maxBlockBits : Nat := 255

/-- `OBJS_PER_SLAB(freelist_entry_t)`: an 8 KiB slab less its 24-byte header, in 8-byte entries. -/
abbrev objsPerSlab : Nat := 1021

/-- Why a call does not return. -/
inductive Fault where
  /-- `slab_alloc` has no free cell and no slab can be created. -/
  | nodeCacheEmpty
  /-- A `NULL` freelist entry is dereferenced or released. -/
  | nullEntry
  /-- `freelists` is indexed past its last slot. -/
  | freelistsIndex (index : Nat)
  /-- The node pool has to be expanded and cannot be. -/
  | poolExpansion
  /-- No region starts at or above 1MB, and the `NULL` at the end of the list is dereferenced. -/
  | nullRegion
  /-- The loop or the recursion did not end within the given number of steps. -/
  | outOfFuel
deriving DecidableEq, Repr

/-! ## State -/

/-- What the allocator uses of its `freelist_cache`: the free cells on the partial slabs, the number of
    wholly free slabs, and the two counters (`u32_t`). The cells of a slab that becomes wholly free again
    stay counted as partial: `slab_alloc` looks there first, and it is the sum that can run out. -/
structure FreelistCache where
  partialCells : Nat
  freeSlabs : Nat
  allocatedObjects : Nat
  totalFreeObjects : Nat
deriving DecidableEq, Repr

/-- The free cells `slab_alloc` can hand out without creating a slab. -/
def FreelistCache.cells (c : FreelistCache) : Nat := c.partialCells + c.freeSlabs * objsPerSlab

/-- `buddy_allocator_t`. -/
structure BuddyAllocator where
  buddyStateMap : Bitmap
  freelistCache : FreelistCache
  freelists : Nat → List Nat
  baseAddr : Nat
  endAddr : Nat
  freeSpaceBytes : Nat
  allocatedBytes : Nat

/-- The allocator, the region list `is_block_usable` walks, and the rest of the memory manager, which only
    `create` looks at. -/
structure Machine (V : Type) extends BuddyAllocator where
  regions : List PhysmemRegion
  vm : V

variable {V : Type}

/-- A call back into the memory manager, such as `__slab_create`. -/
abbrev Callback (V : Type) := Machine V → Except Fault (Machine V)

/-- No slab can be created: the node cache must not run empty. -/
def noSlab : Callback V := fun _ => .error .nodeCacheEmpty

/-! ## Bitmap indices -/

/-- `buddy_bmp_size_bits`. -/
def buddyBmpSizeBits (numPages : Nat) : Nat := roundUpShiftRight numPages (maxOrder + 1) * maxBlockBits

/-- `buddy_bmp_index_of`. -/
def buddyBmpIndexOf (pageOffset order : Nat) : Nat :=
  let maxBlockOffset := pageOffset >>> (maxOrder + 1)
  let maskTest := maskForFirstNBits (maxOrder + 1)
  let maxBlockRemainder := pageOffset &&& maskTest
  let bitOffset := (maxBlockRemainder &&& not64 (maskForFirstNBits order)) ||| 2 ^ order
  maxBlockOffset * maxBlockBits + bitOffset - 1

/-- `__buddy_page_offset`. -/
def buddyPageOffset (pageOffset order : Nat) : Nat :=
  let alignmentMask := maskForFirstNBits (order + 1)
  if pageOffset &&& alignmentMask ≠ 0 then sub64 pageOffset (2 ^ order)
  else add64 pageOffset (2 ^ order)

/-- `bmp_toggle_bit(&allocator->buddy_state_map, index)`. -/
def Machine.toggleBit (m : Machine V) (index : Nat) : Machine V :=
  { m with buddyStateMap := (bmpToggleBit m.buddyStateMap index).2 }

/-- `bmp_set_bit(&allocator->buddy_state_map, index, value)`. -/
def Machine.setBit (m : Machine V) (index value : Nat) : Machine V :=
  { m with buddyStateMap := (bmpSetBit m.buddyStateMap index value).2 }

/-! ## Freelist nodes -/

/-- Take a cell off the partial slabs, refilled to `partialCells`, with `freeSlabs` slabs left. -/
def FreelistCache.takeCell (c : FreelistCache) (partialCells freeSlabs : Nat) : FreelistCache where
  partialCells := partialCells - 1
  freeSlabs := freeSlabs
  allocatedObjects := (c.allocatedObjects + 1) % 2 ^ 32
  totalFreeObjects := (c.totalFreeObjects + (2 ^ 32 - 1)) % 2 ^ 32

/-- `slab_alloc(&allocator->freelist_cache)`: a partial slab first, else a free slab becomes the partial
    one, else `__slab_create` provides it. The created slab replaces whatever the call back left on the
    partial list, and its cells are not added to `total_free_objects`. -/
def slabAlloc (create : Callback V) (m : Machine V) : Except Fault (Machine V) :=
  let c := m.freelistCache
  if c.partialCells ≠ 0 then .ok { m with freelistCache := c.takeCell c.partialCells c.freeSlabs }
  else if c.freeSlabs ≠ 0 then .ok { m with freelistCache := c.takeCell objsPerSlab (c.freeSlabs - 1) }
  else
    create m >>= fun m' =>
      let c' := m'.freelistCache
      .ok { m' with freelistCache := c'.takeCell objsPerSlab c'.freeSlabs }

/-- `slab_free(&allocator->freelist_cache, entry)`, which is `__release_freelist_entry`. -/
def slabFree (m : Machine V) : Machine V :=
  let c := m.freelistCache
  { m with freelistCache := {
      partialCells := c.partialCells + 1
      freeSlabs := c.freeSlabs
      allocatedObjects := (c.allocatedObjects + (2 ^ 32 - 1)) % 2 ^ 32
      totalFreeObjects := (c.totalFreeObjects + 1) % 2 ^ 32 } }

/-- `slab_cache_prealloc(&allocator->freelist_cache, pages, num_slabs)`. -/
def slabCachePrealloc (m : Machine V) (numSlabs : Nat) : Machine V :=
  let c := m.freelistCache
  { m with freelistCache := { c with
      freeSlabs := c.freeSlabs + numSlabs
      totalFreeObjects := (c.totalFreeObjects + numSlabs * objsPerSlab) % 2 ^ 32 } }

/-! ## Freelists -/

/-- The value an entry keeps of a page offset: the field `page_offset` has 24 bits. -/
def storedOffset (pageOffset : Nat) : Nat := pageOffset % 2 ^ 24

/-- Replace `freelists[order]`. -/
def Machine.setFreelist (m : Machine V) (order : Nat) (entries : List Nat) : Machine V :=
  { m with freelists := Function.update m.freelists order entries }

/-- Link an entry in front of `freelists[order]`. -/
def linkEntry (m : Machine V) (order entry : Nat) : Except Fault (Machine V) :=
  if order ≤ maxOrder then .ok (m.setFreelist order (entry :: m.freelists order))
  else .error (.freelistsIndex order)

/-- `__allocate_freelist_entry`. -/
def allocateFreelistEntry (create : Callback V) (m : Machine V) (pageOffset order : Nat) :
    Except Fault (Machine V) :=
  slabAlloc create m >>= fun m' => linkEntry m' order (storedOffset pageOffset)

/-- The walk of `__pop_freelist_entry`: the list without its first entry for `pageOffset`. -/
def unlinkEntry : List Nat → Nat → Option (List Nat)
  | [], _ => none
  | entry :: rest, pageOffset =>
    if entry = pageOffset then some rest
    else (unlinkEntry rest pageOffset).map (entry :: ·)

/-- `__pop_freelist_entry`; the flag says whether an entry (and not `NULL`) is returned. -/
def popFreelistEntry (m : Machine V) (pageOffset order : Nat) : Except Fault (Bool × Machine V) :=
  if order ≤ maxOrder then
    match unlinkEntry (m.freelists order) pageOffset with
    | none => .ok (false, m)
    | some entries => .ok (true, m.setFreelist order entries)
  else .error (.freelistsIndex order)

/-! ## Allocation -/

/-- `allocator->freelists[order] == NULL`. Slot `MAX_ORDER + 1` is the word after the array, `base_addr`. -/
def slotIsNull (m : Machine V) (order : Nat) : Bool :=
  if order ≤ maxOrder then (m.freelists order).isEmpty else m.baseAddr == 0

/-- The search loop of `__find_or_split_block`, for at most `n` rounds: the value of `order` at its exit. -/
def searchOrder (m : Machine V) : Nat → Nat → Nat
  | 0, order => order
  | n + 1, order =>
    if slotIsNull m order then
      if order < maxOrder then searchOrder m n (order + 1) else order + 1
    else order

/-- The split loop of `__find_or_split_block`, from `order` down to `targetOrder + 1`. -/
def splitBlock (create : Callback V) (freeBlock targetOrder : Nat) :
    Nat → Machine V → Except Fault (Machine V)
  | 0, m => .ok m
  | order + 1, m =>
    if order + 1 > targetOrder then
      -- Page offset of the buddy of the block.
      let buddyOffset := freeBlock + 2 ^ (order + 1)
      allocateFreelistEntry create m buddyOffset (order + 1) >>= fun m' =>
        splitBlock create freeBlock targetOrder order
          (m'.toggleBit (buddyBmpIndexOf freeBlock (order + 1)))
    else .ok m

/-- `__find_or_split_block`. The entry of the block found is re-used for the left half that stays free at
    `targetOrder`. -/
def findOrSplitBlock (create : Callback V) (m : Machine V) (targetOrder : Nat) :
    Except Fault (Nat × Machine V) :=
  let order := searchOrder m (maxOrder + 1) (targetOrder + 1)
  if order > maxOrder then .ok (pageOffsetOob, m)
  else
    match m.freelists order with
    | [] => .error .nullEntry
    | freeBlock :: rest =>
      let m1 := (m.setFreelist order rest).toggleBit (buddyBmpIndexOf freeBlock order)
      splitBlock create freeBlock targetOrder (order - 1) m1 >>= fun m2 =>
        linkEntry m2 targetOrder freeBlock >>= fun m3 =>
          .ok (freeBlock + 2 ^ targetOrder, m3.toggleBit (buddyBmpIndexOf freeBlock targetOrder))

/-- Write the two byte counters. -/
def Machine.setCounters (m : Machine V) (freeSpaceBytes allocatedBytes : Nat) : Machine V :=
  { m with freeSpaceBytes := freeSpaceBytes, allocatedBytes := allocatedBytes }

/-- The memory accounting of `buddy_alloc_block`. -/
def accountAlloc (m : Machine V) (order : Nat) : Machine V :=
  m.setCounters (sub64 m.freeSpaceBytes (2 ^ (order + pageOrder)))
    (add64 m.allocatedBytes (2 ^ (order + pageOrder)))

/-- `allocator->base_addr + (page_offset << PAGE_ORDER)`. -/
def Machine.addrOf (m : Machine V) (pageOffset : Nat) : Nat :=
  add64 m.baseAddr (shl64 pageOffset pageOrder)

/-- `(block_base - allocator->base_addr) >> PAGE_ORDER`. -/
def Machine.pageOf (m : Machine V) (blockBase : Nat) : Nat :=
  sub64 blockBase m.baseAddr >>> pageOrder

/-- The page offset `buddy_alloc_block` settles on, before the accounting. -/
def takeBlock (create : Callback V) (m : Machine V) (order : Nat) : Except Fault (Nat × Machine V) :=
  match m.freelists order with
  | pageOffset :: rest =>
    .ok (pageOffset, (slabFree (m.setFreelist order rest)).toggleBit (buddyBmpIndexOf pageOffset order))
  | [] => findOrSplitBlock create m order

/-- `buddy_alloc_block`. -/
def buddyAllocBlock (create : Callback V) (m : Machine V) (order : Nat) :
    Except Fault (Nat × Machine V) :=
  takeBlock create m order >>= fun (pageOffset, m') =>
    .ok (m'.addrOf pageOffset, accountAlloc m' order)

/-! ## Freeing -/

/-- `__can_coalesce`, less the index it also reports. -/
def canCoalesce (m : Machine V) (coalescedOffset order : Nat) : Bool :=
  let bmpIndex := buddyBmpIndexOf coalescedOffset order
  let buddyPairState := bmpGetBit m.buddyStateMap bmpIndex
  let buddyOffset := buddyPageOffset coalescedOffset order
  decide (buddyPairState = 1) && isBlockUsable m.regions (m.addrOf buddyOffset) (2 ^ (pageOrder + order))

/-- Where the coalescing loop of `buddy_free_block` stops. -/
structure Coalesced where
  coalescedOffset : Nat
  coalescedOrder : Nat
  bmpIndex : Nat
deriving DecidableEq, Repr

/-- The loop of `buddy_free_block`, for at most `n` rounds. `bmp_index` is only assigned by
    `__can_coalesce`, which the guard does not reach once `coalesced_order` is `MAX_ORDER`. -/
def coalesceLoop : Nat → Machine V → Coalesced → Except Fault (Machine V × Coalesced)
  | 0, _, _ => .error .outOfFuel
  | n + 1, m, ⟨off, ord, bmpIndex⟩ =>
    let order := ord + 1
    if order < maxOrder then
      let index := buddyBmpIndexOf off order
      if canCoalesce m off order then
        let buddyOffset := buddyPageOffset off order
        popFreelistEntry m buddyOffset order >>= fun (upperBuddy, m') =>
          if upperBuddy then
            coalesceLoop n ((slabFree m').setBit index 0) ⟨min off buddyOffset, order, index⟩
          else .error .nullEntry
      else .ok (m, ⟨off, order, index⟩)
    else .ok (m, ⟨off, order, bmpIndex⟩)

/-- The first merge of `buddy_free_block` and everything after it. The entry popped for the buddy is
    dereferenced only after the loop, when it is moved to its final list. -/
def mergeBlock (m : Machine V) (pageOffset order bmpIndex buddyOffset : Nat) :
    Except Fault (Machine V) :=
  popFreelistEntry m buddyOffset order >>= fun (buddy, m1) =>
    coalesceLoop (maxOrder + 1) (m1.setBit bmpIndex 0) ⟨min pageOffset buddyOffset, order, bmpIndex⟩ >>=
      fun (m2, c) =>
        if c.coalescedOrder > maxOrder then .error (.freelistsIndex c.coalescedOrder)
        else if buddy then
          linkEntry m2 c.coalescedOrder (storedOffset c.coalescedOffset) >>= fun m3 =>
            .ok (m3.toggleBit c.bmpIndex)
        else .error .nullEntry

/-- The memory accounting of `buddy_free_block`. -/
def accountFree (m : Machine V) (order : Nat) : Machine V :=
  m.setCounters (add64 m.freeSpaceBytes (2 ^ (order + pageOrder)))
    (sub64 m.allocatedBytes (2 ^ (order + pageOrder)))

/-- The condition under which `buddy_free_block` merges the block at all: the pair bit, and the usability
    of the block that follows `block_base` (not of the buddy). -/
def mergesFirst (m : Machine V) (blockBase order : Nat) : Bool :=
  let orderBytes := 2 ^ (pageOrder + order)
  decide (bmpGetBit m.buddyStateMap (buddyBmpIndexOf (m.pageOf blockBase) order) = 1) &&
    isBlockUsable m.regions (add64 blockBase orderBytes) orderBytes

/-- `buddy_free_block`. -/
def buddyFreeBlock (create : Callback V) (m : Machine V) (blockBase order : Nat) :
    Except Fault (Machine V) :=
  let pageOffset := m.pageOf blockBase
  let bmpIndex := buddyBmpIndexOf pageOffset order
  let buddyOffset := buddyPageOffset pageOffset order
  let freed :=
    if mergesFirst m blockBase order then mergeBlock m pageOffset order bmpIndex buddyOffset
    else allocateFreelistEntry create m pageOffset order >>= fun m' => .ok (m'.setBit bmpIndex 1)
  freed >>= fun m' => .ok (accountFree m' order)

/-! ## Shrinking -/

/-- `x + i` for a `size_t` and an `int`. -/
def addInt (x : Nat) (i : Int) : Nat := ((x + i) % 2 ^ 64).toNat

/-- `x -= i` for a `u8_t` and an `int`. -/
def subInt8 (x : Nat) (i : Int) : Nat := ((x - i) % 2 ^ 8).toNat

/-- The loop of `buddy_shrink_block`, for at most `n` rounds; it leaves `num_pages` changed. `split_order` is
    a `u8_t`, so it counts down from 0 to 255. -/
def shrinkLoop (create : Callback V) :
    Nat → Machine V → Nat → Nat → Nat → Except Fault (Machine V × Nat)
  | 0, _, _, _, _ => .error .outOfFuel
  | n + 1, m, blockOffset, splitOrder, numPages =>
    if (numPages : Int) ≠ sll1 (splitOrder + 1) then
      let bmpIndex := buddyBmpIndexOf blockOffset splitOrder
      let nextOrder := (splitOrder + 255) % 256
      if (numPages : Int) > sll1 splitOrder then
        -- Both halves stay allocated; go on in the right one.
        shrinkLoop create n (m.setBit bmpIndex 0) (addInt blockOffset (sll1 splitOrder)) nextOrder
          (subInt8 numPages (sll1 splitOrder))
      else
        -- The right half is freed; go on in the left one.
        allocateFreelistEntry create m (addInt blockOffset (sll1 splitOrder)) splitOrder >>= fun m' =>
          shrinkLoop create n (m'.setBit bmpIndex 1) blockOffset nextOrder numPages
    else .ok (m, numPages)

/-- The memory accounting of `buddy_shrink_block`, from the value `num_pages` has after the loop. -/
def accountShrink (m : Machine V) (blockOrder numPages : Nat) : Machine V :=
  let bytesFreed := shl64 (sub64 (2 ^ blockOrder) numPages) pageOrder
  m.setCounters (add64 m.freeSpaceBytes bytesFreed) (sub64 m.allocatedBytes bytesFreed)

/-- `buddy_shrink_block`. One round per value of the `u8_t` loop variable is enough for every
    `1 ≤ num_pages ≤ 2 ^ block_order`. -/
def buddyShrinkBlock (create : Callback V) (m : Machine V) (blockBase blockOrder numPages : Nat) :
    Except Fault (Machine V) :=
  let blockOffset := truncNBits (m.pageOf blockBase) blockOrder
  let splitOrder := (blockOrder + 255) % 256
  shrinkLoop create 256 m blockOffset splitOrder numPages >>= fun (m', numPages') =>
    .ok (accountShrink m' blockOrder numPages')

/-! ## Initialisation -/

/-- The inner loop of `__populate_initial_freelists`, with `order + 1` as its counter. -/
def populateWindow (create : Callback V) (cursorPageOffset : Nat) :
    Nat → Nat → Machine V → Except Fault (Machine V)
  | 0, _, m => .ok m
  | order + 1, innerPageOffset, m =>
    if innerPageOffset < 2 ^ maxOrder then
      let currOffset := innerPageOffset + cursorPageOffset
      if isBlockUsable m.regions (m.addrOf currOffset) (2 ^ (12 + order)) then
        allocateFreelistEntry create m currOffset order >>= fun m' =>
          populateWindow create cursorPageOffset order (innerPageOffset + 2 ^ order)
            (m'.setCounters (add64 m'.freeSpaceBytes (2 ^ (12 + order))) m'.allocatedBytes)
      else populateWindow create cursorPageOffset order innerPageOffset m
    else .ok m

/-- The outer loop of `__populate_initial_freelists`, for at most `n` windows. -/
def populateFrom (create : Callback V) (maxPageOffset : Nat) :
    Nat → Nat → Machine V → Except Fault (Machine V)
  | 0, _, _ => .error .outOfFuel
  | n + 1, cursorPageOffset, m =>
    if cursorPageOffset < maxPageOffset then
      populateWindow create cursorPageOffset (maxOrder + 1) 0 m >>= fun m' =>
        populateFrom create maxPageOffset n (cursorPageOffset + 2 ^ maxOrder) m'
    else .ok m

/-- `page_offset_of(allocator->end_addr - allocator->base_addr)`, the pages of the allocator's range. -/
def Machine.maxPageOffset (m : Machine V) : Nat := sub64 m.endAddr m.baseAddr >>> pageOrder

/-- `__populate_initial_freelists`. -/
def populateInitialFreelists (create : Callback V) (m : Machine V) : Except Fault (Machine V) :=
  populateFrom create m.maxPageOffset (m.maxPageOffset / 2 ^ maxOrder + 2) 0 m

/-- The allocator before its freelists are populated: everything zeroed, the bitmap and the node cache
    initialised from the pool (`num_slabs` of `slab_cache_prealloc` is a `u8_t`). -/
def emptyAllocator (regions : List PhysmemRegion) (vm : V) (poolSlabs baseAddr endAddr : Nat) :
    Machine V where
  buddyStateMap := bmpInit (buddyBmpSizeBits (sub64 endAddr baseAddr >>> pageOrder))
  freelistCache := {
    partialCells := 0
    freeSlabs := poolSlabs % 2 ^ 8
    allocatedObjects := 0
    totalFreeObjects := poolSlabs % 2 ^ 8 * objsPerSlab }
  freelists := fun _ => []
  baseAddr := baseAddr
  endAddr := endAddr
  freeSpaceBytes := 0
  allocatedBytes := 0
  regions := regions
  vm := vm

/-- `buddy_init`. -/
def buddyInit (create : Callback V) (regions : List PhysmemRegion) (vm : V)
    (poolSlabs baseAddr endAddr : Nat) : Except Fault (Machine V) :=
  populateInitialFreelists create (emptyAllocator regions vm poolSlabs baseAddr endAddr)

end LearningOS
