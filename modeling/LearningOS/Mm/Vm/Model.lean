import LearningOS.Lib.Radix
import LearningOS.Lib.Run
import LearningOS.Mm.Vm.Entry

/-!
# `Mm.Vm.Model` — `mm/vm.c`, `mm/vmzone.c` and the boot page tables

The page tables live in physical memory: a table is named by its physical address, the pointer the code has to it
being `KPHYS_ADDR` of that, and `NULL` is `none`. Following `NULL` is the fault `nullTable`.

`reserve_physmem_region` and `phys_alloc` are outside. The answers they give for page tables are the queue `frames`
of the state, and the answer for the pages of a block is an argument; the calls that give memory back are written to
the log `calls`.
-/

namespace LearningOS.Paging

open Word Run Radix

/-! ## Zones -/

/-- The zones of `mm/vmzone.h`, in the order of their numbers. A number beyond them has no `vmzone_t`. -/
inductive Zone where
  | kernelHeap
  | kernelStack
  | userShared
  | kernelSlab
  | buddyMem
deriving DecidableEq, Repr

/-- `VMZFLAG_CONTIGUOUS`, `VMZFLAG_BLOCK_ALLOC`, `VMZFLAG_ALLOW_EXECUTE` and `VMZFLAG_INITIALIZED`. -/
structure VmzFlags where
  contiguous : Bool := false
  blockAlloc : Bool := false
  allowExecute : Bool := false
  initialized : Bool := false
deriving DecidableEq, Repr

/-- `vmzone_t`. -/
structure VmZone where
  startAddress : Nat
  endAddress : Nat
  cursorAddr : Nat
  vmFlags : VmFlags
  blockOrder : Nat
  flags : VmzFlags
deriving DecidableEq, Repr

/-- `KERNEL_NORMAL_MEM`. -/
abbrev kernelNormalMem : Nat := 0xFFFFFF0000000000

/-- `KERNEL_SENSITIVE_MEM`. -/
abbrev kernelSensitiveMem : Nat := 0xFFFFFF8000000000

/-- `KERNEL_VMA`. -/
abbrev kernelVma : Nat := 0xFFFFFFFF80000000

/-- `__define_vmzone`. -/
def defineVmzone (base zoneSizeGb : Nat) (flags : VmzFlags) (blockOrder : Nat) : VmZone where
  startAddress := base
  endAddress := add64 base (shl64 zoneSizeGb 30)
  cursorAddr := base
  vmFlags := { allowWrite := true, allowExec := flags.allowExecute }
  blockOrder := blockOrder
  flags := flags

/-- `vmzone_init`; `SLAB_ORDER` is 1. -/
def vmzoneInit : Zone → VmZone
  | .kernelHeap => defineVmzone kernelSensitiveMem 8 { contiguous := true } 0
  | .kernelSlab => defineVmzone (kernelSensitiveMem + 8 <<< 30) 8 { blockAlloc := true } 1
  | .kernelStack => defineVmzone kernelNormalMem 128 { blockAlloc := true } 1
  | .buddyMem => defineVmzone (kernelNormalMem + 128 <<< 30) 1 { blockAlloc := true } 1
  | .userShared => defineVmzone (kernelNormalMem + 256 <<< 30) 256 { allowExecute := true } 0

/-! ## State -/

/-- A call that gives physical pages back. -/
inductive PhysCall where
  | free (blockAddr numPages : Nat)
  | shrink (blockAddr blockSize targetSize : Nat)
deriving DecidableEq, Repr

/-- Why a call has no result. -/
inductive VmFault where
  /-- `NULL` was used as a page table. -/
  | nullTable
  /-- The physical allocator gave no answer. -/
  | noFrame
  /-- A walk down the address space did not come to an end. -/
  | noEnd
  /-- The call reported that it failed. -/
  | refused
deriving DecidableEq, Repr

/-- The address space: the page tables by physical address, `cr3`, the `zones` and the two cached tables of
    `vmzone.c`; what the physical allocator will answer for page tables, the tables there are, and the calls made to
    it, the latest first. -/
structure VmSpace where
  tables : Mem Nat PtEntry
  pml4t : Nat
  zones : Zone → VmZone
  sensitiveMemPdpt : Option Nat
  normalMemPdpt : Option Nat
  frames : List Nat
  pageTables : List Nat
  calls : List PhysCall

/-- `pt->entries[offset] = entry`. -/
def VmSpace.store (vm : VmSpace) (table offset : Nat) (entry : PtEntry) : VmSpace :=
  { vm with tables := Radix.set vm.tables table offset entry }

/-- `zone->cursor_addr = cursor`. -/
def VmSpace.setCursor (vm : VmSpace) (zone : Zone) (cursor : Nat) : VmSpace :=
  { vm with zones := Function.update vm.zones zone { vm.zones zone with cursorAddr := cursor } }

/-- A call to the physical allocator. -/
def VmSpace.call (vm : VmSpace) (c : PhysCall) : VmSpace := { vm with calls := c :: vm.calls }

/-! ## Page tables -/

/-- The first entry of table `i` of `numPages` that were allocated together. -/
def firstEntry (flags : VmFlags) (i numPages : Nat) : PtEntry where
  earlyAlloc := flags.allocEarly
  pageBehind := decide (i > 0)
  pageAhead := decide (i < numPages - 1)

/-- A cleared table with its first entry. -/
def newTable (flags : VmFlags) (i numPages : Nat) : Nat → PtEntry :=
  Function.update (fun _ => .zero) 0 (firstEntry flags i numPages)

/-- `_alloc_page_tables`. -/
def allocPageTables (vm : VmSpace) (numPages : Nat) (flags : VmFlags) : Except VmFault (Nat × VmSpace) :=
  match vm.frames with
  | [] => .error .noFrame
  | allocBase :: frames =>
    let tableAt := fun i => allocBase + i * pageSize
    .ok (allocBase,
      { vm with
        tables := (List.range numPages).foldl
          (fun tables i => Function.update tables (tableAt i) (newTable flags i numPages)) vm.tables
        frames := frames
        pageTables := (List.range numPages).map tableAt ++ vm.pageTables })

/-- The loop of `__traverse_with_status` from a table at the given height: where it stops, at which height, and
    why. -/
def traverseWithStatus (tables : Mem Nat PtEntry) (virtAddr : Nat) (flags : VmFlags) :
    Nat → Nat → Nat × Nat × Option VmError
  | 0, table => (table, 0, none)
  | height + 1, table =>
    let entry := tables table (heightOffset virtAddr (height + 1))
    match vmCheckStatus entry flags with
    | some error => (table, height + 1, some error)
    | none => traverseWithStatus tables virtAddr flags height entry.addr

/-- The loop of `__find_or_allocate_pt` that makes the missing tables below a table at the given height. -/
def allocateMissing (virtAddr : Nat) (flags : VmFlags) : Nat → Nat → VmSpace → Except VmFault (Nat × VmSpace)
  | 0, table, vm => .ok (table, vm)
  | height + 1, table, vm =>
    let offset := heightOffset virtAddr (height + 1)
    allocPageTables vm 1 flags >>= fun (newPageTable, vm') =>
      allocateMissing virtAddr flags height newPageTable
        (vm'.store table offset (mapPhysPage (vm'.tables table offset) newPageTable flags))

/-- `__find_or_allocate_pt`: the table, `NULL` after an error of privilege, and the number of tables made. -/
def findOrAllocatePt (vm : VmSpace) (virtAddr : Nat) (flags : VmFlags) :
    Except VmFault (Option Nat × Nat × VmSpace) :=
  match traverseWithStatus vm.tables virtAddr flags 3 vm.pml4t with
  | (table, _, none) => .ok (some table, 0, vm)
  | (table, height, some .unmapped) =>
    allocateMissing virtAddr flags height table vm >>= fun (table', vm') => .ok (some table', height, vm')
  | (_, _, some _) => .ok (none, 0, vm)

/-- `*error` after `__find_or_allocate_pt`. -/
def findOrAllocateError (vm : VmSpace) (virtAddr : Nat) (flags : VmFlags) : Option VmError :=
  match traverseWithStatus vm.tables virtAddr flags 3 vm.pml4t with
  | (_, _, some .unmapped) => none
  | (_, _, status) => status

/-- The loop of `__find_pt_or_null` from a table at the given height. -/
def findBelow (tables : Mem Nat PtEntry) (virtAddr : Nat) : Nat → Nat → Option Nat
  | 0, table => some table
  | height + 1, table =>
    let entry := tables table (heightOffset virtAddr (height + 1))
    if !entry.present then none else findBelow tables virtAddr height entry.addr

/-- `__find_pt_or_null`. -/
def findPtOrNull (vm : VmSpace) (virtAddr : Nat) : Option Nat := findBelow vm.tables virtAddr 3 vm.pml4t

/-- A page table that is dereferenced. -/
def deref : Option Nat → Except VmFault Nat
  | none => .error .nullTable
  | some table => .ok table

/-! ## Mapping at a given address -/

/-- `__check_vm_region_boundary`; no error is the status 0. The number of pages is a `u16_t`. -/
def checkVmRegionBoundary (virtBase pages : Nat) (flags : VmFlags) : Option VmError :=
  let pages := if flags.writeGuard then addW 16 pages 1 else pages
  if pages > 512 then some .boundary
  else
    let virtEnd := add64 virtBase (pages <<< pageOrder)
    let offsetMask := shl64 0x8FFFFFF (12 + 9)
    if virtBase &&& offsetMask = virtEnd &&& offsetMask then none else some .boundary

/-- The calls of `__map_phys_page` in `vm_map_pages`, in order: the offset, the physical address and the flags of
    each. The guard page is the last one. -/
def mapPagesStores (physBase pages startOffset : Nat) (flags : VmFlags) : List (Nat × Nat × VmFlags) :=
  (List.range pages).map (fun page => (startOffset + page, add64 physBase (page <<< 12), flags)) ++
    if flags.writeGuard then
      [(startOffset + pages, add64 physBase (pages <<< 12), { flags with allowWrite := false })]
    else []

/-- `__map_phys_page`, at any offset: past the end of the table are the frames behind it. -/
def mapPhysPageAt (vm : VmSpace) (pt offset physAddr : Nat) (flags : VmFlags) : VmSpace :=
  let table := pt + offset / 512 * pageSize
  vm.store table (offset % 512) (mapPhysPage (vm.tables table (offset % 512)) physAddr flags)

/-- The calls one after the other. -/
def mapAll (pt : Nat) : List (Nat × Nat × VmFlags) → VmSpace → VmSpace
  | [], vm => vm
  | (offset, physAddr, flags) :: rest, vm => mapAll pt rest (mapPhysPageAt vm pt offset physAddr flags)

/-- `vm_map_pages`. The error of the traversal is not looked at. -/
def vmMapPages (vm : VmSpace) (physBase pages virtBase : Nat) (flags : VmFlags) : Option VmError × VmSpace :=
  match checkVmRegionBoundary virtBase pages flags with
  | some _ => (some .boundary, vm)
  | none =>
    let (pt, _, _) := traverseWithStatus vm.tables virtBase flags 3 vm.pml4t
    (none, mapAll pt (mapPagesStores physBase pages (ptOffset virtBase) flags) vm)

/-- `vm_space_pt_init`, for the page `pt`. An `offset` is set for the heights 1, 2 and 3. -/
def vmSpacePtInit (vm : VmSpace) (pt pathOffset : Nat) (flags : VmFlags) (maxDepth : Nat) :
    Option VmError × VmSpace :=
  let (parentTable, height, err) := traverseWithStatus vm.tables pathOffset flags 3 vm.pml4t
  let reachedDepth := 4 - height
  if err = none ∨ reachedDepth > maxDepth then (some .alreadyMapped, vm)
  else if height = 0 then (some .alreadyMapped, vm)
  else
    let offset := heightOffset pathOffset height
    let vm1 := vm.store parentTable offset (mapPhysPage (vm.tables parentTable offset) pt flags)
    (none, { vm1 with tables := Function.update vm1.tables pt (fun _ => .zero) })

/-! ## Physical blocks -/

/-- `__free_phys_block`. -/
def freePhysBlock (vm : VmSpace) (baseEntry : PtEntry) (numPages : Nat) : VmSpace :=
  if baseEntry.dataEarly then vm else vm.call (.free baseEntry.addr numPages)

/-- `__shrink_phys_block`. It computes the base of the block and passes the whole entry. -/
def shrinkPhysBlock (vm : VmSpace) (baseEntry : PtEntry) (blockSize targetSize : Nat) : VmSpace :=
  if baseEntry.dataEarly then vm else vm.call (.shrink baseEntry.word blockSize targetSize)

/-! ## Contiguous zones -/

/-- The loop of `vmzone_extend`, with the number of pages left to map. -/
def extendLoop (pages : Nat) (flags : VmFlags) :
    Nat → VmSpace → Option Nat → Nat → Nat → Nat → Except VmFault (Nat × VmSpace)
  | 0, vm, _, _, _, cursor => .ok (cursor, vm)
  | left + 1, vm, pt, nextPtOffset, physBlock, cursor =>
    deref pt >>= fun table =>
      let marked := (vm.tables table nextPtOffset).or (dataAllocFlags (pages - (left + 1)) pages flags)
      let vm1 := vm.store table nextPtOffset (mapPhysPage marked physBlock flags)
      let physBlock' := add64 physBlock pageSize
      let cursor' := add64 cursor pageSize
      if nextPtOffset + 1 ≥ 512 then
        findOrAllocatePt vm1 cursor' flags >>= fun (pt', _, vm2) =>
          extendLoop pages flags left vm2 pt' 0 physBlock' cursor'
      else extendLoop pages flags left vm1 pt (nextPtOffset + 1) physBlock' cursor'

/-- `vmzone_extend`; `physBlock` is what the physical allocator answers for the pages. `NULL` is `none`. -/
def vmzoneExtend (vm : VmSpace) (pages : Nat) (flags : VmFlags) (zone : Zone) (physBlock : Nat) :
    Except VmFault (Option Nat × VmSpace) :=
  if !(vm.zones zone).flags.contiguous then .ok (none, vm)
  else
    let cursor := (vm.zones zone).cursorAddr
    findOrAllocatePt vm cursor flags >>= fun (pt, _, vm1) =>
      extendLoop pages flags pages vm1 pt (ptOffset cursor) physBlock cursor >>= fun (cursor', vm2) =>
        .ok (some cursor, vm2.setCursor zone cursor')

/-- The state of the first loop of `vmzone_shrink`. The table is that of the last mapped page throughout: the
    variable the loop assigns at a boundary is another one of the same name. -/
structure ShrinkState where
  vm : VmSpace
  nextOffset : Nat
  cursor : Nat
  currentBlockSize : Nat

/-- One turn of the first loop of `vmzone_shrink`. -/
def shrinkTurn (pt : Nat) (s : ShrinkState) : Except (VmError × VmSpace) ShrinkState :=
  let entry := { s.vm.tables pt s.nextOffset with present := false }
  let vm1 := s.vm.store pt s.nextOffset entry
  let size := addW 8 s.currentBlockSize 1
  let vm2 := if !entry.dataBehind then freePhysBlock vm1 entry size else vm1
  let size' := if !entry.dataBehind then 0 else size
  let cursor := sub64 s.cursor pageSize
  if s.nextOffset = 0 then
    match findPtOrNull vm2 cursor with
    | none => .error (.unmapped, vm2)
    | some _ => .ok ⟨vm2, 511, cursor, size'⟩
  else .ok ⟨vm2, s.nextOffset - 1, cursor, size'⟩

/-- The first loop of `vmzone_shrink`. -/
def shrinkLoop (pt : Nat) : Nat → ShrinkState → Except (VmError × VmSpace) ShrinkState
  | 0, s => .ok s
  | pages + 1, s => shrinkTurn pt s >>= shrinkLoop pt pages

/-- The second loop of `vmzone_shrink`: the first entry of the block the shrink ends in, and the size of the block.
    `fuel` bounds the turns, one for each page below the cursor. -/
def blockStart (vm : VmSpace) (pt : Nat) :
    Nat → Nat → Nat → Nat → Except VmFault (Except VmError (PtEntry × Nat))
  | 0, _, _, _ => .error .noEnd
  | fuel + 1, nextOffset, cursor, size =>
    let entry := vm.tables pt nextOffset
    let size' := addW 8 size 1
    let cursor' := sub64 cursor pageSize
    if entry.dataBehind then
      if nextOffset = 0 then
        match findPtOrNull vm cursor' with
        | none => .ok (.error .unmapped)
        | some _ => blockStart vm pt fuel 511 cursor' size'
      else blockStart vm pt fuel (nextOffset - 1) cursor' size'
    else .ok (.ok (entry, size'))

/-- `vmzone_shrink`; no error is the status 0. -/
def vmzoneShrink (vm : VmSpace) (pages : Nat) (zone : Zone) : Except VmFault (Option VmError × VmSpace) :=
  if !(vm.zones zone).flags.contiguous then .ok (some .contiguous, vm)
  else
    let cursor := sub64 (vm.zones zone).cursorAddr pageSize
    match findPtOrNull vm cursor with
    | none => .ok (some .unmapped, vm)
    | some pt =>
      match shrinkLoop pt pages ⟨vm, ptOffset cursor, cursor, 0⟩ with
      | .error (error, vm1) => .ok (some error, vm1)
      | .ok s =>
        let vm1 := s.vm.setCursor zone (add64 s.cursor pageSize)
        if s.currentBlockSize > 0 then
          blockStart vm1 pt (s.cursor / pageSize) s.nextOffset s.cursor s.currentBlockSize >>= fun found =>
            match found with
            | .error error => .ok (some error, vm1)
            | .ok (entry, size) => .ok (none, shrinkPhysBlock vm1 entry size (subW 8 size s.currentBlockSize))
        else .ok (none, vm1)

/-! ## Block zones -/

/-- `_prepare_block_pt`. -/
def prepareBlockPt (vm : VmSpace) (zone : VmZone) (pt : Nat) : VmSpace :=
  let blockPages := 2 ^ zone.blockOrder
  (List.range (512 / blockPages)).foldl
    (fun vm i =>
      vm.store pt (i * blockPages) ((vm.tables pt (i * blockPages)).or (.ofWord (blockPages <<< 12)))) vm

/-- The loop of `vm_alloc_block`, with the number of pages left to map. The size it passes to `__data_alloc_flags` is
    the address of the page. -/
def mapBlock (pt blockPtOffset allocSize : Nat) (entry : PtEntry) (flags : VmFlags) :
    Nat → VmSpace → Nat → VmSpace
  | 0, vm, _ => vm
  | left + 1, vm, blockBase =>
    let i := allocSize - (left + 1)
    let newEntry := ((vmPtEntryCreate blockBase flags).or (dataAllocFlags i blockBase flags)).or (ptAllocFlags entry)
    mapBlock pt blockPtOffset allocSize entry flags left (vm.store pt (blockPtOffset + i) newEntry)
      (add64 blockBase pageSize)

/-- `vm_alloc_block`; `blockBase` is what the physical allocator answers for the pages. -/
def vmAllocBlock (vm : VmSpace) (flags : VmFlags) (zone : Zone) (blockBase : Nat) :
    Except VmFault (Nat × VmSpace) :=
  let blockAddr := (vm.zones zone).cursorAddr
  let blockPtOffset := ptOffset blockAddr
  findOrAllocatePt vm blockAddr flags >>= fun (pt, allocatedPages, vm1) =>
    deref pt >>= fun table =>
      let vm2 := if allocatedPages > 0 then prepareBlockPt vm1 (vm1.zones zone) table else vm1
      let entry := vm2.tables table blockPtOffset
      let vm3 := vm2.setCursor zone (nextFreeEntry entry blockAddr)
      let allocSize := 2 ^ (vm.zones zone).blockOrder
      .ok (blockAddr, mapBlock table blockPtOffset allocSize entry flags allocSize vm3 blockBase)

/-- The entry of the first page with the link to the block at the cursor, as `vm_free_block` stores it before its
    loop. -/
def nextFreeLink (entry : PtEntry) (addr nextFreeAddr : Nat) : PtEntry :=
  let nextOffset := if nextFreeAddr > addr then sub64 nextFreeAddr addr else sub64 addr nextFreeAddr
  { ({ entry with addr := 0 } : PtEntry).or (.ofWord nextOffset) with
    offsetNegative := decide (nextFreeAddr < addr) }

/-- The loop of `vm_free_block`, with the number of turns left. Each turn clears the present bit of the entry at
    `offset`. -/
def unmapLoop (pt offset : Nat) : Nat → VmSpace → VmSpace
  | 0, vm => vm
  | left + 1, vm => unmapLoop pt offset left (vm.store pt offset { vm.tables pt offset with present := false })

/-- `vm_free_block`. Its number of pages is a `u8_t`. -/
def vmFreeBlock (vm : VmSpace) (addr : Nat) (zone : Zone) : Option VmError × VmSpace :=
  let addr := truncNBits addr ((vm.zones zone).blockOrder + pageOrder)
  let offset := ptOffset addr
  match findPtOrNull vm addr with
  | none => (some .unmapped, vm)
  | some pt =>
    let numPages := 2 ^ (vm.zones zone).blockOrder % 2 ^ 8
    let vm1 := freePhysBlock vm (vm.tables pt offset) numPages
    let vm2 := vm1.store pt offset (nextFreeLink (vm.tables pt offset) addr (vm.zones zone).cursorAddr)
    (none, unmapLoop pt offset numPages (vm2.setCursor zone addr))

/-! ## Boot -/

/-- The page tables of `init_pt.asm`, at the address of `page_tables_begin`: the top table, the identity mapping in
    its entry 0 and the last 2GB in its entry 511. -/
def bootTables (pageTablesBegin : Nat) : Mem Nat PtEntry := fun table i =>
  let entry := fun k => ({ present := true, writable := true, addr := pageTablesBegin + k * 0x1000 } : PtEntry)
  let hugePages := fun base =>
    ({ present := true, writable := true, hugepage := true, addr := base + i * 0x200000 } : PtEntry)
  if table = pageTablesBegin then if i = 0 then entry 1 else if i = 511 then entry 3 else .zero
  else if table = pageTablesBegin + 0x1000 then if i = 0 then entry 2 else .zero
  else if table = pageTablesBegin + 0x2000 then hugePages 0
  else if table = pageTablesBegin + 0x3000 then
    if i = 510 then entry 4 else if i = 511 then entry 5 else .zero
  else if table = pageTablesBegin + 0x4000 then hugePages 0
  else if table = pageTablesBegin + 0x5000 then hugePages 0x40000000
  else .zero

/-- The address space the kernel starts in, after `vmzone_init`. -/
def VmSpace.boot (pageTablesBegin : Nat) (frames : List Nat) : VmSpace where
  tables := bootTables pageTablesBegin
  pml4t := pageTablesBegin
  zones := vmzoneInit
  sensitiveMemPdpt := none
  normalMemPdpt := none
  frames := frames
  pageTables := (List.range 6).map (fun k => pageTablesBegin + k * 0x1000)
  calls := []

/-- What `vmspace_init` does for one of its two cached tables: read it off the top table or allocate it, and link it
    if it is not there. -/
def initPdpt (vm : VmSpace) (offset : Nat) (cached : Option Nat) (flags : VmFlags) :
    Except VmFault (Nat × VmSpace) :=
  let link := fun (pdpt : Nat) (vm : VmSpace) =>
    let entry := vm.tables vm.pml4t offset
    if !entry.present then
      vm.store vm.pml4t offset (entry.or (vmPtEntryCreate pdpt { allowExec := true, allowWrite := true }))
    else vm
  match cached with
  | some pdpt => .ok (pdpt, link pdpt vm)
  | none =>
    let entry := vm.tables vm.pml4t offset
    if entry.present then .ok (entry.addr, vm)
    else allocPageTables vm 1 flags.earlyOnly >>= fun (pdpt, vm') => .ok (pdpt, link pdpt vm')

/-- The body of the last loop of `vmspace_init`. -/
def initZone (flags : VmFlags) (vm : VmSpace) (zone : Zone) : Except VmFault VmSpace :=
  let info := vm.zones zone
  if info.flags.initialized then .ok vm
  else
    allocPageTables vm 2 flags.earlyOnly >>= fun (pdt, vm1) =>
      let vm2 := vm1.store pdt 0 ((vm1.tables pdt 0).or (vmPtEntryCreate (pdt + pageSize) info.vmFlags))
      let vm3 := { vm2 with
        zones := Function.update vm2.zones zone { info with flags := { info.flags with initialized := true } } }
      let vm4 := if info.flags.blockAlloc then prepareBlockPt vm3 info (pdt + pageSize) else vm3
      let pdptOff := heightOffset info.startAddress 2
      let zonePdpt := (vm4.tables vm4.pml4t (heightOffset info.startAddress 3)).addr
      .ok (vm4.store zonePdpt pdptOff ((vm4.tables zonePdpt pdptOff).or (vmPtEntryCreate pdt info.vmFlags)))

/-- The loop over the zones. -/
def initZones (flags : VmFlags) : List Zone → VmSpace → Except VmFault VmSpace
  | [], vm => .ok vm
  | zone :: zones, vm => initZone flags vm zone >>= initZones flags zones

/-- The mapping of the last 2GB, for an address space that does not have it. -/
def initKernelMapping (flags : VmFlags) (sensitiveMemPdpt : Nat) (vm : VmSpace) : Except VmFault VmSpace :=
  if (vm.tables sensitiveMemPdpt 511).present then .ok vm
  else
    allocPageTables vm 1 flags.earlyOnly >>= fun (pt, vm1) =>
      -- `vm_space_pt_init` on the way to `KERNEL_VMA`, down to a page directory.
      let kernelFlags : VmFlags := { allowWrite := true, allowExec := true }
      let vm2 := match traverseWithStatus vm1.tables kernelVma kernelFlags 3 vm1.pml4t with
        | (parent, height, some _) =>
          if 4 - height > 2 then vm1
          else
            let offset := heightOffset kernelVma height
            let linked := vm1.store parent offset (mapPhysPage (vm1.tables parent offset) pt kernelFlags)
            { linked with tables := Function.update linked.tables pt (fun _ => .zero) }
        | _ => vm1
      .ok ((List.range 512).foldl (fun vm i =>
        vm.store pt i ((vm.tables pt i).or
          (vmPtEntryCreate (i * 0x200000) { kernelFlags with hugepage := true }))) vm2)

/-- `vmspace_init`. -/
def vmspaceInit (vm : VmSpace) (flags : VmFlags) : Except VmFault VmSpace :=
  initPdpt vm (heightOffset kernelSensitiveMem 3) vm.sensitiveMemPdpt flags >>= fun (sensitive, vm1) =>
    initPdpt { vm1 with sensitiveMemPdpt := some sensitive } (heightOffset kernelNormalMem 3) vm1.normalMemPdpt flags
      >>= fun (normal, vm2) =>
        initKernelMapping flags sensitive { vm2 with normalMemPdpt := some normal } >>=
          initZones flags [.kernelHeap, .kernelStack, .userShared, .kernelSlab, .buddyMem]

/-- `vm_init`. -/
def vmInit (pageTablesBegin : Nat) (frames : List Nat) : Except VmFault VmSpace :=
  vmspaceInit (.boot pageTablesBegin frames) { allocEarly := true }

end LearningOS.Paging
