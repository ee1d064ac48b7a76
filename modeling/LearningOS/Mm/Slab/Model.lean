import LearningOS.Lib.Bytes
import LearningOS.Lib.Run
import LearningOS.Utility.Math

/-!
# `Mm.Slab.Model` — `mm/slab.h` and `mm/slab.c`

The slab allocator over byte memory. A slab is 8 KiB, aligned to its size: a 24-byte `slab_header_t` with the two
list links, the index of the first free cell, the number of free cells and the cache id, then the cells. A free
cell holds in its first eight bytes the address of the next free one. Headers, free cells and the bytes of the
objects that clients hold all live in one memory; the `kmem_cache_t` is a record beside it.

`vm_alloc_block` answers with the address of a slab: the answers are arguments of the functions that ask for
them. Pointers inside a slab do not leave it, so their sums are plain; the difference of two pointers is the
signed one, since the end of a free chain subtracts a slab's address from `NULL`.

The `reserved` half word of the header is read and written by nothing and left out.
-/

namespace LearningOS.Slab

open Word Run Bytes

/-- `sizeof(slab_header_t)`. -/
abbrev slabHeaderSize : Nat := 24

/-- `sizeof(slab_t)`. -/
abbrev slabSize : Nat := 8192

/-- `SLAB_ORDER`. -/
abbrev slabOrder : Nat := 1

/-- Why a call of the slab allocator does not return. -/
inductive SlabFault where
  /-- A cell size or a number of cells of zero is divided by. -/
  | divisionByZero
  /-- `__slab_init` stores through the pointer its loop should have set. -/
  | uninitialisedPointer
  /-- `vm_alloc_block` did not give as many slabs as were asked for. -/
  | missingSlab
  /-- `__caches` is indexed past its last entry. -/
  | cachesIndex (index : Nat)
deriving DecidableEq, Repr

/-! ## Headers -/

/-- The fields of `slab_header_t`. -/
inductive HeaderField where
  | prev
  | next
  | firstFreeIdx
  | freeCount
  | cacheId
deriving DecidableEq, Repr

/-- Where the field starts. -/
def HeaderField.offset : HeaderField → Nat
  | .prev => 0
  | .next => 8
  | .firstFreeIdx => 16
  | .freeCount => 18
  | .cacheId => 20

/-- How many bytes it has. -/
def HeaderField.width : HeaderField → Nat
  | .prev => 8
  | .next => 8
  | .firstFreeIdx => 2
  | .freeCount => 2
  | .cacheId => 2

/-- `slab->header.f`. -/
def header (f : HeaderField) (mem : Mem) (slab : Nat) : Nat := load f.width mem (slab + f.offset)

/-- `slab->header.f = v`, cut to the width of the field. -/
def setHeader (f : HeaderField) (mem : Mem) (slab v : Nat) : Mem := store f.width mem (slab + f.offset) v

/-- `slab->__slab_data + i * cell`. -/
def cellAddr (cell slab i : Nat) : Nat := slab + slabHeaderSize + i * cell

/-- `((u8_t*)ptr - slab->__slab_data) / cell`, stored in a `u16_t`. -/
def cellIndex (cell slab ptr : Nat) : Nat :=
  ((ptrDiff ptr (slab + slabHeaderSize)).tdiv cell % 2 ^ 16).toNat

/-- `obj->header.if_free.next_free`. -/
def nextFree (mem : Mem) (obj : Nat) : Nat := load 8 mem obj

/-- `obj->header.if_free.next_free = p`. -/
def setNextFree (mem : Mem) (obj p : Nat) : Mem := store 8 mem obj p

/-! ## Lists of slabs -/

/-- `__unlink_slab`: the memory and the new head of the list. -/
@[irreducible] def unlinkSlab (mem : Mem) (slab listHead : Nat) : Mem × Nat :=
  let r :=
    if header .prev mem slab ≠ 0 then
      (setHeader .next mem (header .prev mem slab) (header .next mem slab), listHead)
    else (mem, header .next mem slab)
  let mem := r.1
  if header .next mem slab ≠ 0 then
    (setHeader .prev mem (header .next mem slab) (header .prev mem slab), r.2)
  else (mem, r.2)

/-- `__link_slab`: the memory; the new head of the list is the slab. -/
@[irreducible] def linkSlab (mem : Mem) (slab listHead : Nat) : Mem :=
  let mem := setHeader .prev (setHeader .next mem slab listHead) slab 0
  if listHead ≠ 0 then setHeader .prev mem listHead slab else mem

/-! ## The cache -/

/-- `kmem_cache_t`. -/
structure KmemCache where
  alignPadding : Nat
  objSize : Nat
  objCellSize : Nat
  totalFreeSlabs : Nat
  totalPartialSlabs : Nat
  totalFullSlabs : Nat
  allocatedObjects : Nat
  totalFreeObjects : Nat
  objsPerSlab : Nat
  cacheId : Nat
  vmzone : Nat
  slabOverhead : Nat
  freeSlabs : Nat
  partialSlabs : Nat
  fullSlabs : Nat
deriving DecidableEq, Repr

/-- `slab_cache_init`. The sizes are `int` expressions cut to `u16_t`. -/
def slabCacheInit (objSize objAlign cacheId vmzone : Nat) : Except SlabFault KmemCache :=
  let cell := (sub64 (objSize + objAlign) 1 &&& not64 (sub64 objAlign 1)) % 2 ^ 16
  if cell = 0 then .error .divisionByZero
  else
    let objsPerSlab := (slabSize - slabHeaderSize) / cell
    .ok
      { alignPadding := subW 16 cell objSize
        objSize := objSize
        objCellSize := cell
        totalFreeSlabs := 0
        totalPartialSlabs := 0
        totalFullSlabs := 0
        allocatedObjects := 0
        totalFreeObjects := 0
        objsPerSlab := objsPerSlab
        cacheId := cacheId
        vmzone := vmzone
        slabOverhead := slabSize - objsPerSlab * cell
        freeSlabs := 0
        partialSlabs := 0
        fullSlabs := 0 }

/-- The loop of `__slab_init` from cell `i` on: it links each cell to the one after it. -/
def initCells (cell slab : Nat) : Nat → Nat → Mem → Mem
  | 0, _, mem => mem
  | n + 1, i, mem =>
    let obj := cellAddr cell slab i
    initCells cell slab n (i + 1) (setNextFree mem obj (obj + cell))

/-- `__slab_init`. After the loop `obj` is the last cell; a loop without a turn leaves it unset. -/
def slabInit (cache : KmemCache) (mem : Mem) (slab : Nat) : Except SlabFault Mem :=
  let mem := setHeader .firstFreeIdx mem slab 0
  let mem := setHeader .freeCount mem slab cache.objsPerSlab
  let mem := setHeader .cacheId mem slab cache.cacheId
  if cache.objsPerSlab ≤ 1 then .error .uninitialisedPointer
  else
    let last := cache.objsPerSlab - 1
    .ok (setNextFree (initCells cache.objCellSize slab last 0 mem) (cellAddr cache.objCellSize slab last) 0)

/-- The body of the loops of `slab_cache_reserve` and `slab_cache_prealloc`: initialise a slab and put it on
    `free_slabs`. -/
def addFreeSlab (cache : KmemCache) (mem : Mem) (slab : Nat) : Except SlabFault (KmemCache × Mem) :=
  slabInit cache mem slab >>= fun mem =>
    .ok
      ({ cache with
          freeSlabs := slab
          totalFreeObjects := addW 32 cache.totalFreeObjects cache.objsPerSlab },
        linkSlab mem slab cache.freeSlabs)

/-- Both loops, over the slabs in turn. -/
def addFreeSlabs (cache : KmemCache) (mem : Mem) : List Nat → Except SlabFault (KmemCache × Mem)
  | [] => .ok (cache, mem)
  | slab :: slabs => addFreeSlab cache mem slab >>= fun r => addFreeSlabs r.1 r.2 slabs

/-- `num_slabs` of `slab_cache_reserve`. -/
def reserveSlabs (objsPerSlab numObjects : Nat) : Nat := (numObjects + objsPerSlab - 1) / objsPerSlab % 2 ^ 16

/-- `slab_cache_reserve`; `vmBlocks` are the answers of `vm_alloc_block`. -/
def slabCacheReserve (cache : KmemCache) (mem : Mem) (numObjects : Nat) (vmBlocks : List Nat) :
    Except SlabFault (KmemCache × Mem) :=
  if cache.objsPerSlab = 0 then .error .divisionByZero
  else
    let numSlabs := reserveSlabs cache.objsPerSlab numObjects
    if vmBlocks.length ≠ numSlabs then .error .missingSlab
    else
      addFreeSlabs cache mem vmBlocks >>= fun (cache, mem) =>
        .ok ({ cache with totalFreeSlabs := addW 16 cache.totalFreeSlabs numSlabs }, mem)

/-- The slabs in `num_slabs` slabs of memory at `pages`. -/
def slabsAt (pages numSlabs : Nat) : List Nat := (List.range numSlabs).map (fun i => pages + i * slabSize)

/-- `slab_cache_prealloc`. -/
def slabCachePrealloc (cache : KmemCache) (mem : Mem) (pages numSlabs : Nat) :
    Except SlabFault (KmemCache × Mem) :=
  addFreeSlabs cache mem (slabsAt pages numSlabs)

/-- The first half of `slab_alloc`: the slab to take a cell from, at the head of `partial_slabs`. `vmBlock` is
    the answer of `vm_alloc_block`, should it be asked. -/
def pickSlab (cache : KmemCache) (mem : Mem) (vmBlock : Nat) : Except SlabFault (Nat × KmemCache × Mem) :=
  if cache.partialSlabs ≠ 0 then .ok (cache.partialSlabs, cache, mem)
  else if cache.freeSlabs = 0 then
    slabInit cache mem vmBlock >>= fun mem =>
      .ok
        (vmBlock,
          { cache with
            partialSlabs := vmBlock
            totalPartialSlabs := addW 16 cache.totalPartialSlabs 1 },
          setHeader .next (setHeader .prev mem vmBlock 0) vmBlock 0)
  else
    let slab := cache.freeSlabs
    let (mem, freeSlabs) := unlinkSlab mem slab cache.freeSlabs
    let mem := linkSlab mem slab cache.partialSlabs
    .ok
      (slab,
        { cache with
          freeSlabs := freeSlabs
          partialSlabs := slab
          totalFreeSlabs := subW 16 cache.totalFreeSlabs 1
          totalPartialSlabs := addW 16 cache.totalPartialSlabs 1 },
        setHeader .next (setHeader .prev mem slab 0) slab 0)

/-- The second half of `slab_alloc`: take the first free cell of a slab on `partial_slabs`. -/
def takeCell (cache : KmemCache) (mem : Mem) (slab : Nat) : Nat × KmemCache × Mem :=
  let cell := cache.objCellSize
  let obj := cellAddr cell slab (header .firstFreeIdx mem slab)
  let mem := setHeader .firstFreeIdx mem slab (cellIndex cell slab (nextFree mem obj))
  let mem := setHeader .freeCount mem slab (subW 16 (header .freeCount mem slab) 1)
  let cache :=
    { cache with
      allocatedObjects := addW 32 cache.allocatedObjects 1
      totalFreeObjects := subW 32 cache.totalFreeObjects 1 }
  if header .freeCount mem slab = 0 then
    let (mem, partialSlabs) := unlinkSlab mem slab cache.partialSlabs
    let mem := linkSlab mem slab cache.fullSlabs
    (obj,
      { cache with
        partialSlabs := partialSlabs
        fullSlabs := slab
        totalPartialSlabs := subW 16 cache.totalPartialSlabs 1
        totalFullSlabs := addW 16 cache.totalFullSlabs 1 },
      mem)
  else (obj, cache, mem)

/-- `slab_alloc`. -/
def slabAlloc (cache : KmemCache) (mem : Mem) (vmBlock : Nat) : Except SlabFault (Nat × KmemCache × Mem) :=
  pickSlab cache mem vmBlock >>= fun (slab, cache, mem) => .ok (takeCell cache mem slab)

/-- The slab of an object: `aligndown(ptr, SLAB_ORDER + 12)`. -/
def slabOf (ptr : Nat) : Nat := truncNBits ptr (slabOrder + pageOrder)

/-- `slab_free`. Both moves end with the same two lines on the counters. -/
def slabFree (cache : KmemCache) (mem : Mem) (ptr : Nat) : KmemCache × Mem :=
  let cell := cache.objCellSize
  let slab := slabOf ptr
  let mem :=
    setNextFree mem ptr
      (if header .freeCount mem slab = 0 then 0 else cellAddr cell slab (header .firstFreeIdx mem slab))
  let mem := setHeader .firstFreeIdx mem slab (cellIndex cell slab ptr)
  let freeCount := header .freeCount mem slab
  let mem := setHeader .freeCount mem slab (addW 16 freeCount 1)
  let cache :=
    { cache with
      allocatedObjects := subW 32 cache.allocatedObjects 1
      totalFreeObjects := addW 32 cache.totalFreeObjects 1 }
  if freeCount = 0 then
    let (mem, fullSlabs) := unlinkSlab mem slab cache.fullSlabs
    let mem := linkSlab mem slab cache.partialSlabs
    ({ cache with
        fullSlabs := fullSlabs
        partialSlabs := slab
        totalFullSlabs := subW 16 cache.totalFullSlabs 1
        totalPartialSlabs := addW 16 cache.totalPartialSlabs 1 },
      mem)
  else if header .freeCount mem slab = cache.objsPerSlab then
    let (mem, partialSlabs) := unlinkSlab mem slab cache.partialSlabs
    let mem := linkSlab mem slab cache.freeSlabs
    ({ cache with
        partialSlabs := partialSlabs
        freeSlabs := slab
        totalFullSlabs := subW 16 cache.totalFullSlabs 1
        totalPartialSlabs := addW 16 cache.totalPartialSlabs 1 },
      mem)
  else (cache, mem)

/-- `cache_id_for_alloc`. -/
def cacheIdForAlloc (mem : Mem) (ptr : Nat) : Nat := header .cacheId mem (slabOf ptr)

end LearningOS.Slab
