import LearningOS.Mm.Buddy.Model

/-!
# `Mm.Phys.Model` — `mm/phys_alloc.c` and the part of `mm/vm.c` it calls

`phys_alloc` rounds its request up to a block and shrinks it; `phys_free` and `phys_block_shrink` take an
allocation apart along the binary digits of its size. After each of them `__freespace_check` maps another slab
for the freelist nodes when few are left, and mapping a slab needs memory: `vm_alloc_block` calls `phys_alloc`
for the block and for every page table that is missing on the way. The recursion is tied here with a fuel
argument, one unit per call of `phys_alloc`; running out of it is the fault `outOfFuel`.

Of a virtual memory zone only what decides the calls of `phys_alloc` is kept: the position of its cursor and
how many of its page directories and page tables exist. Both zones in play hand out blocks of two pages, never
take one back, and start out with one directory and one table.
-/

namespace LearningOS

open Word Run Dyadic

/-! ## Zones -/

/-- The pages of a block of `VMZONE_BUDDY_MEM` and of `VMZONE_KERNEL_SLAB`: both have `block_order` 1. -/
abbrev zoneBlockPages : Nat := 2

/-- The blocks under one page table of 512 entries. -/
abbrev blocksPerTable : Nat := 256

/-- A block zone: `cursor_addr` in blocks from the start of the zone, and the page directories and page
    tables present below it. -/
structure BlockZone where
  cursor : Nat
  directories : Nat
  tables : Nat
deriving DecidableEq, Repr

/-- A zone as `vmspace_init` sets it up. -/
def BlockZone.fresh : BlockZone := ⟨0, 1, 1⟩

/-- The height at which the walk of `__find_or_allocate_pt` for a block stops: 0 if the page table is there,
    1 if it is missing, 2 if its directory is missing too. -/
def BlockZone.missing (z : BlockZone) (block : Nat) : Nat :=
  if block / blocksPerTable < z.tables then 0
  else if block / blocksPerTable / 512 < z.directories then 1
  else 2

/-- Map a new, empty table of the given height on the way to a block. -/
def BlockZone.mapTable (z : BlockZone) (block height : Nat) : BlockZone :=
  let table := block / blocksPerTable
  if height = 1 then { z with tables := max z.tables (table + 1) }
  else
    { z with
      directories := max z.directories (table / 512 + 1)
      tables := min z.tables (table / 512 * 512) }

/-- The zones whose blocks hold freelist nodes. -/
structure Vm where
  buddyMem : BlockZone
  kernelSlab : BlockZone
deriving DecidableEq, Repr

/-- The zones after `vmspace_init`. -/
def Vm.fresh : Vm := ⟨.fresh, .fresh⟩

/-- `VMZONE_BUDDY_MEM` and `VMZONE_KERNEL_SLAB`. -/
inductive Zone where
  | buddyMem
  | kernelSlab
deriving DecidableEq, Repr

/-- `vmzone_info`. -/
def Vm.zone (vm : Vm) : Zone → BlockZone
  | .buddyMem => vm.buddyMem
  | .kernelSlab => vm.kernelSlab

def Vm.setZone (vm : Vm) (z : BlockZone) : Zone → Vm
  | .buddyMem => { vm with buddyMem := z }
  | .kernelSlab => { vm with kernelSlab := z }

section VmAllocBlock

-- What a mapping is made on: the zones, and an allocator of physical pages that may change them.
variable {S : Type} (zoneOf : S → BlockZone) (setZone : S → BlockZone → S)
  (allocPages : S → Nat → Except Fault S)

/-- The loop of `__find_or_allocate_pt` from the given height down. -/
def findOrAllocatePt (block : Nat) : Nat → S → Except Fault S
  | 0, s => .ok s
  | height + 1, s =>
    allocPages s 1 >>= fun s' =>
      findOrAllocatePt block height (setZone s' ((zoneOf s').mapTable block (height + 1)))

/-- `vm_alloc_block`. The cursor is read before the page tables are allocated and moved before the pages
    are. -/
def vmAllocBlock (s : S) : Except Fault S :=
  let block := (zoneOf s).cursor
  findOrAllocatePt zoneOf setZone allocPages block ((zoneOf s).missing block) s >>= fun s' =>
    allocPages (setZone s' { zoneOf s' with cursor := block + 1 }) zoneBlockPages

end VmAllocBlock

/-! ## The physical allocator -/

variable {V : Type}

/-- `FREELIST_EXPANSION_THRESHOLD`. -/
abbrev freelistExpansionThreshold : Nat := maxOrder + 1

/-- `buddy_freelist_pool_expand`. -/
def buddyFreelistPoolExpand (m : Machine V) : Machine V := slabCachePrealloc m 1

/-- `__freespace_check`; `expand` maps the new slab. -/
def freespaceCheck (expand : Callback V) (m : Machine V) : Except Fault (Machine V) :=
  if m.freelistCache.totalFreeObjects < freelistExpansionThreshold then
    expand m >>= fun m' => .ok (buddyFreelistPoolExpand m')
  else .ok m

/-- `phys_alloc`, for given ways of creating a slab and of mapping one for the node pool. -/
def physAllocWith (create expand : Callback V) (m : Machine V) (numPages : Nat) :
    Except Fault (Nat × Machine V) :=
  if numPages > 2 ^ maxOrder then .ok (0, m)
  else
    let allocOrder := bitOrder numPages
    buddyAllocBlock create m allocOrder >>= fun (blockBase, m1) =>
      buddyShrinkBlock create m1 blockBase allocOrder numPages >>= fun m2 =>
        freespaceCheck expand m2 >>= fun m3 => .ok (blockBase, m3)

/-- The loop of `phys_block_shrink`, with `order + 1` as its counter. -/
def shrinkPieces (create : Callback V) (blockSize : Nat) :
    Nat → Machine V → Nat → Nat → Except Fault (Machine V)
  | 0, m, _, _ => .ok m
  | order + 1, m, blockAddr, targetSize =>
    if (blockSize >>> order) &&& 1 ≠ 0 then
      let nextAddr := add64 blockAddr (2 ^ (order + pageOrder))
      if targetSize = 0 then
        buddyFreeBlock create m blockAddr order >>= fun m' =>
          shrinkPieces create blockSize order m' nextAddr 0
      else if targetSize ≤ 2 ^ order then
        -- The target ends in this piece: all later ones are freed.
        buddyShrinkBlock create m blockAddr order targetSize >>= fun m' =>
          shrinkPieces create blockSize order m' nextAddr 0
      else shrinkPieces create blockSize order m nextAddr (targetSize - 2 ^ order)
    else shrinkPieces create blockSize order m blockAddr targetSize

/-- `phys_block_shrink`, for given callbacks. -/
def physBlockShrinkWith (create expand : Callback V) (m : Machine V) (blockAddr blockSize targetSize : Nat) :
    Except Fault (Machine V) :=
  shrinkPieces create blockSize (bitOrder blockSize + 1) m blockAddr targetSize >>= freespaceCheck expand

/-- `phys_free`, for given callbacks. -/
def physFreeWith (create expand : Callback V) (m : Machine V) (blockAddr numPages : Nat) :
    Except Fault (Machine V) :=
  physBlockShrinkWith create expand m blockAddr numPages 0

/-- The node pool cannot be expanded: the check must not trigger. -/
def noExpansion : Callback V := fun _ => .error .poolExpansion

/-! ## The recursion -/

/-- `vm_alloc_block(VM_ALLOW_WRITE, zone)` over a given `phys_alloc`. -/
def vmAllocBlockIn (physAlloc : Machine Vm → Nat → Except Fault (Nat × Machine Vm)) (zone : Zone) :
    Callback Vm :=
  vmAllocBlock (fun m => m.vm.zone zone) (fun m z => { m with vm := m.vm.setZone z zone })
    (fun m numPages => physAlloc m numPages >>= fun r => .ok r.2)

/-- `phys_alloc`, to a depth of `fuel` calls. -/
def physAlloc : Nat → Machine Vm → Nat → Except Fault (Nat × Machine Vm)
  | 0 => fun _ _ => .error .outOfFuel
  | fuel + 1 =>
    physAllocWith (vmAllocBlockIn (physAlloc fuel) .kernelSlab) (vmAllocBlockIn (physAlloc fuel) .buddyMem)

/-- `phys_block_shrink`, with `phys_alloc` to a depth of `fuel` calls. -/
def physBlockShrink (fuel : Nat) : Machine Vm → Nat → Nat → Nat → Except Fault (Machine Vm) :=
  physBlockShrinkWith (vmAllocBlockIn (physAlloc fuel) .kernelSlab) (vmAllocBlockIn (physAlloc fuel) .buddyMem)

/-- `phys_free`, with `phys_alloc` to a depth of `fuel` calls. -/
def physFree (fuel : Nat) (m : Machine Vm) (blockAddr numPages : Nat) : Except Fault (Machine Vm) :=
  physBlockShrink fuel m blockAddr numPages 0

/-! ## Initialisation -/

/-- `_alloc_bounds_t`. -/
structure AllocBounds where
  start : Nat
  stop : Nat
deriving DecidableEq, Repr

/-- `__find_allocatable_region`: from the first region after 1MB to the end of the last one. Without such a
    region the source dereferences `NULL`. -/
def findAllocatableRegion (regions : List PhysmemRegion) : Option AllocBounds :=
  match regions.dropWhile (·.freeStart < 0x100000) with
  | [] => none
  | region :: rest => some ⟨region.freeStart, ((region :: rest).getLast (List.cons_ne_nil _ _)).regionEnd⟩

/-- `buddy_prealloc_vector`. -/
structure BuddyPreallocVector where
  bitmapAndStructPages : Nat
  freelistPoolSlabs : Nat
deriving DecidableEq, Repr

/-- `buddy_estimate_pool_size`; both fields are `u16_t`. -/
def buddyEstimatePoolSize (numPages : Nat) : BuddyPreallocVector :=
  let bitmapStructBytes := buddyBmpSizeBits numPages >>> 3
  let numMaxBlocks := roundUpShiftRight numPages maxOrder
  let freelistNodesEstimate := numMaxBlocks + 3 * (maxOrder + 1)
  ⟨roundUpShiftRight bitmapStructBytes pageOrder % 2 ^ 16,
    (freelistNodesEstimate + objsPerSlab - 1) / objsPerSlab % 2 ^ 16⟩

/-- The memory before the buddy allocator is up: the regions and the zones. -/
structure EarlyMem where
  regions : List PhysmemRegion
  vm : Vm
deriving DecidableEq, Repr

/-- `reserve_physmem_region` of pages for a mapping. -/
def EarlyMem.reserve (e : EarlyMem) (numPages : Nat) : EarlyMem :=
  { e with regions := (reservePhysmemRegion e.regions numPages).2 }

/-- `vm_alloc_block(VM_ALLOC_EARLY | VM_ALLOW_WRITE, VMZONE_BUDDY_MEM)`, for a number of slabs in turn. -/
def preallocSlabs : Nat → EarlyMem → Except Fault EarlyMem
  | 0, e => .ok e
  | n + 1, e =>
    vmAllocBlock (fun e => e.vm.buddyMem) (fun e z => { e with vm := { e.vm with buddyMem := z } })
      (fun e numPages => .ok (e.reserve numPages)) e >>= preallocSlabs n

/-- `__prealloc_buddy_pool`: the memory for the bitmap, then one slab and as many more as were estimated.
    Their counter is a `u8_t`, so it never reaches an estimate of 256 or more. -/
def preallocBuddyPool (e : EarlyMem) (bounds : AllocBounds) : Except Fault (Nat × EarlyMem) :=
  let numPages := sub64 bounds.stop bounds.start >>> pageOrder
  let vector := buddyEstimatePoolSize numPages
  if vector.freelistPoolSlabs < 2 ^ 8 then
    preallocSlabs (max 1 vector.freelistPoolSlabs) (e.reserve vector.bitmapAndStructPages) >>= fun e' =>
      .ok (vector.freelistPoolSlabs, e')
  else .error .outOfFuel

/-- `phys_alloc_init`. The node pool must last through `buddy_init`, whose allocator cannot serve a call of
    `__slab_create` yet. -/
def physAllocInit (e : EarlyMem) : Except Fault (Machine Vm) :=
  match findAllocatableRegion e.regions with
  | none => .error .nullRegion
  | some bounds =>
    preallocBuddyPool e bounds >>= fun (poolSlabs, e') =>
      match findAllocatableRegion e'.regions with
      | none => .error .nullRegion
      | some bounds' => buddyInit noSlab e'.regions e'.vm poolSlabs bounds'.start bounds'.stop

end LearningOS
