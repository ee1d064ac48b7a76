import LearningOS.Mm.Slab.Objects

/-!
# `Mm.Kmalloc.Model` — `mm/kmalloc.h` and `mm/kmalloc.c`

Ten slab caches behind a table of 255 bytes that maps a size in eights to the cache of the smallest class it fits.
The table is a function on all indices, of which those below `cacheIdxMapSize` are the array: an index past it
reads and writes the byte that happens to lie there. Which indices the code touches is kept in `accesses`.
-/

namespace LearningOS.Kmalloc

open Word Run Bytes Slab

/-- `MAX_KMALLOC_SIZE`. -/
abbrev maxKmallocSize : Nat := 2040

/-- `kmalloc_sizes`. -/
def kmallocSizes : List Nat := [8, 16, 24, 48, 96, 120, 240, 480, 1016, 2040]

/-- `NUM_CACHE_SIZES`. -/
abbrev numCacheSizes : Nat := 10

/-- `NUM_SLABS_RESERVED`. -/
abbrev numSlabsReserved : Nat := 3

/-- `VMZONE_KERNEL_SLAB`. -/
abbrev vmzoneKernelSlab : Nat := 3

/-- The number of entries `__cache_idx_map` is declared with. -/
abbrev cacheIdxMapSize : Nat := maxKmallocSize / 8

/-- `kmalloc_sizes[i]`. -/
def classSize (i : Nat) : Nat := kmallocSizes.getD i 0

/-- `__cache_idx_map`, `__caches` and the memory; `accesses` are the indices of the map read or written so far,
    latest first. -/
structure Kmalloc where
  cacheIdxMap : Nat → Nat
  caches : Nat → KmemCache
  mem : Mem
  accesses : List Nat

/-- `__cache_idx_map[j] = v`. -/
def Kmalloc.setMap (k : Kmalloc) (j v : Nat) : Kmalloc :=
  { k with cacheIdxMap := Function.update k.cacheIdxMap j v, accesses := j :: k.accesses }

/-- Replace a cache and the memory. -/
def Kmalloc.setCache (k : Kmalloc) (i : Nat) (cache : KmemCache) (mem : Mem) : Kmalloc :=
  { k with caches := Function.update k.caches i cache, mem := mem }

/-- The first loop of `kmalloc_init` from class `i` on: initialise a cache and reserve three slabs for it, which
    `vm_alloc_block` gives as `vmBlocks i`. -/
def initCaches (vmBlocks : Nat → List Nat) : Nat → Nat → Kmalloc → Except SlabFault Kmalloc
  | 0, _, k => .ok k
  | n + 1, i, k =>
    slabCacheInit (classSize i) 8 i vmzoneKernelSlab >>= fun cache =>
      slabCacheReserve cache k.mem (cache.objsPerSlab * numSlabsReserved % 2 ^ 16) (vmBlocks i) >>= fun (cache, mem) =>
        initCaches vmBlocks n (i + 1) (k.setCache i cache mem)

/-- The inner loop over the table: the entries from `j` on get the class `i`. -/
def fillClass (i : Nat) : Nat → Nat → Kmalloc → Kmalloc
  | 0, _, k => k
  | n + 1, j, k => fillClass i n (j + 1) (k.setMap j i)

/-- The second loop of `kmalloc_init` from class `i` on. -/
def fillMap : Nat → Nat → Nat → Kmalloc → Kmalloc
  | 0, _, _, k => k
  | n + 1, i, prevSizeEights, k =>
    let sizeInEights := classSize i / 8
    fillMap n (i + 1) sizeInEights (fillClass i (sizeInEights - prevSizeEights) (prevSizeEights + 1) k)

/-- The statics before `kmalloc_init`: zero, like all of `.bss`. -/
def Kmalloc.zero (mem : Mem) : Kmalloc :=
  ⟨fun _ => 0, fun _ => ⟨0, 0, 0, 0, 0, 0, 0, 0, 0, 0, 0, 0, 0, 0, 0⟩, mem, []⟩

/-- `kmalloc_init`. -/
def kmallocInit (mem : Mem) (vmBlocks : Nat → List Nat) : Except SlabFault Kmalloc :=
  initCaches vmBlocks numCacheSizes 0 (.zero mem) >>= fun k => .ok (fillMap numCacheSizes 0 0 k)

/-- The index of a size in the map. -/
def mapIndex (size : Nat) : Nat := (size + 7) >>> 3

/-- `kmalloc`; `vmBlock` is the answer of `vm_alloc_block`, should it be asked. -/
def kmalloc (k : Kmalloc) (size vmBlock : Nat) : Except SlabFault (Nat × Kmalloc) :=
  if size > maxKmallocSize then .ok (0, k)
  else
    let cache := k.cacheIdxMap (mapIndex size)
    if cache < numCacheSizes then
      Slab.slabAlloc (k.caches cache) k.mem vmBlock >>= fun (obj, c, mem) =>
        .ok (obj, { (k.setCache cache c mem) with accesses := mapIndex size :: k.accesses })
    else .error (.cachesIndex cache)

/-- `kfree`. -/
def kfree (k : Kmalloc) (ptr : Nat) : Kmalloc :=
  let cacheIdx := cacheIdForAlloc k.mem ptr
  if cacheIdx < numCacheSizes then
    let r := Slab.slabFree (k.caches cacheIdx) k.mem ptr
    k.setCache cacheIdx r.1 r.2
  else k

/-! ## The table -/

/-- The class the map gives for a size in eights: the first one that is large enough. -/
def classOf (eights : Nat) : Nat := kmallocSizes.findIdx (fun size => eights ≤ size / 8)

theorem fillClass_fields (i n j : Nat) (k : Kmalloc) :
    (fillClass i n j k).caches = k.caches ∧ (fillClass i n j k).mem = k.mem ∧
    ((fillClass i n j k).accesses = (List.range' j n).reverse ++ k.accesses) ∧
    ∀ x, (fillClass i n j k).cacheIdxMap x = if j ≤ x ∧ x < j + n then i else k.cacheIdxMap x := by
  induction n generalizing j k with
  | zero =>
      refine ⟨rfl, rfl, rfl, fun x => ?_⟩
      rw [if_neg (by omega)]
      rfl
  | succ n ih =>
      obtain ⟨h1, h2, h3, h4⟩ := ih (j + 1) (k.setMap j i)
      refine ⟨h1, h2, ?_, fun x => ?_⟩
      · show (fillClass i n (j + 1) (k.setMap j i)).accesses = _
        rw [h3, List.range'_succ, List.reverse_cons, List.append_assoc]
        rfl
      · show (fillClass i n (j + 1) (k.setMap j i)).cacheIdxMap x = _
        rw [h4]
        by_cases hx : j + 1 ≤ x ∧ x < j + 1 + n
        · rw [if_pos hx, if_pos (by omega)]
        · rw [if_neg hx]
          by_cases hxj : x = j
          · rw [if_pos (by omega), hxj]
            exact Function.update_self ..
          · rw [if_neg (by omega)]
            exact Function.update_of_ne hxj ..

/-- What the second loop leaves at an index that held `v`. -/
def filledAt : Nat → Nat → Nat → Nat → Nat → Nat
  | 0, _, _, _, v => v
  | n + 1, i, prev, x, v =>
    filledAt n (i + 1) (classSize i / 8) x
      (if prev + 1 ≤ x ∧ x < prev + 1 + (classSize i / 8 - prev) then i else v)

/-- The indices the second loop writes, latest first. -/
def writes : Nat → Nat → Nat → List Nat
  | 0, _, _ => []
  | n + 1, i, prev => writes n (i + 1) (classSize i / 8) ++ (List.range' (prev + 1) (classSize i / 8 - prev)).reverse

/-- The table is filled class by class, whatever the caches are. -/
theorem fillMap_fields (n i prev : Nat) (k : Kmalloc) :
    (fillMap n i prev k).caches = k.caches ∧ (fillMap n i prev k).mem = k.mem ∧
    (fillMap n i prev k).accesses = writes n i prev ++ k.accesses ∧
    ∀ x, (fillMap n i prev k).cacheIdxMap x = filledAt n i prev x (k.cacheIdxMap x) := by
  induction n generalizing i prev k with
  | zero => exact ⟨rfl, rfl, rfl, fun _ => rfl⟩
  | succ n ih =>
      obtain ⟨h1, h2, h3, h4⟩ := ih (i + 1) (classSize i / 8) (fillClass i (classSize i / 8 - prev) (prev + 1) k)
      obtain ⟨h5, h6, h7, h8⟩ := fillClass_fields i (classSize i / 8 - prev) (prev + 1) k
      refine ⟨h1.trans h5, h2.trans h6, ?_, fun x => ?_⟩
      · show (fillMap n (i + 1) (classSize i / 8) _).accesses = _
        rw [h3, h7, ← List.append_assoc]
        rfl
      · show (fillMap n (i + 1) (classSize i / 8) _).cacheIdxMap x = _
        rw [h4, h8]
        rfl

/-- Filled from zero, the table gives every size in eights its class. -/
theorem filledAt_eq_classOf : ∀ x < 256, filledAt numCacheSizes 0 0 x 0 = classOf x := by
  decide +kernel

/-- The class of a size in eights is the first one that is large enough. -/
theorem classOf_spec : ∀ e < 256, classOf e < numCacheSizes ∧ e ≤ classSize (classOf e) / 8 ∧
    ∀ i < numCacheSizes, e ≤ classSize i / 8 → classSize (classOf e) ≤ classSize i := by
  decide +kernel

theorem classSize_bounds : ∀ i < numCacheSizes, classSize i % 8 = 0 ∧ 8 ≤ classSize i ∧ classSize i ≤ 2040 := by
  decide

/-- **The class of a size.** It is large enough, and no smaller class is. -/
theorem classOf_smallest {size : Nat} (h : size ≤ maxKmallocSize) :
    classOf (mapIndex size) < numCacheSizes ∧ size ≤ classSize (classOf (mapIndex size)) ∧
    ∀ i < numCacheSizes, size ≤ classSize i → classSize (classOf (mapIndex size)) ≤ classSize i := by
  have hindex : mapIndex size = (size + 7) / 8 := by
    unfold mapIndex
    rw [Nat.shiftRight_eq_div_pow]
  have hmax : size ≤ 2040 := h
  have hlt : mapIndex size < 256 := by omega
  obtain ⟨h1, h2, h3⟩ := classOf_spec _ hlt
  obtain ⟨h4, -, -⟩ := classSize_bounds _ h1
  refine ⟨h1, by omega, fun i hi hle => h3 i hi ?_⟩
  obtain ⟨h5, -, -⟩ := classSize_bounds i hi
  omega

end LearningOS.Kmalloc
