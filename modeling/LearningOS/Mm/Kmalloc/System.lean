import LearningOS.Mm.Kmalloc.Model

/-!
# `Mm.Kmalloc.System` — the contract of `kmalloc` and `kfree`

The ten caches with the objects their clients hold. Each cache is in order by itself (`Slab.Holds`); an operation
on one of them touches only its own slabs, so the others keep their order by the frame lemma, and the header of a
slab says which cache it belongs to.

`kmalloc_init` writes entry 255 of the table, one past its end, and a request of more than 2032 bytes reads it.
Whatever lies there belongs to someone else, so the contract is stated for the requests below.
-/

namespace LearningOS.Kmalloc

open Word Run Bytes Slab

/-! ## Calls -/

/-- The allocator, the slabs of each cache and the objects each of them serves. -/
structure KSys where
  k : Kmalloc
  slabs : Nat → List Nat
  live : Nat → List Nat

/-- A call or a write of a client. -/
inductive KAct where
  | kmalloc (size vmBlock : Nat)
  | kfree (ptr : Nat)
  | write (addr : Nat) (byte : UInt8)

/-- The cache that serves a size. -/
def KSys.classFor (s : KSys) (size : Nat) : Nat := s.k.cacheIdxMap (mapIndex size)

/-- One call or write. A request that is too large is refused with `NULL`. -/
def kstep (s : KSys) : KAct → Except SlabFault KSys
  | .kmalloc size vmBlock =>
    kmalloc s.k size vmBlock >>= fun (obj, k) =>
      if size > maxKmallocSize then .ok s
      else
        let i := s.classFor size
        .ok
          { k := k
            slabs := Function.update s.slabs i
              (if MustCreate (s.k.caches i) then vmBlock :: s.slabs i else s.slabs i)
            live := Function.update s.live i (obj :: s.live i) }
  | .kfree ptr => .ok ⟨kfree s.k ptr, s.slabs, fun i => (s.live i).erase ptr⟩
  | .write addr byte => .ok { s with k := { s.k with mem := Function.update s.k.mem addr byte } }

/-- A slab no cache owns. -/
def FreshFor (s : KSys) (t : Nat) : Prop := SlabAddr t ∧ ∀ i < numCacheSizes, t ∉ s.slabs i

/-- The contract of the clients and of `vm_alloc_block`, for requests of up to `limit` bytes. -/
def KAllowed (limit : Nat) (s : KSys) : KAct → Prop
  | .kmalloc size vmBlock => size ≤ limit ∧ (MustCreate (s.k.caches (s.classFor size)) → FreshFor s vmBlock)
  | .kfree ptr => ∃ i < numCacheSizes, ptr ∈ s.live i
  | .write addr _ =>
    (∀ i < numCacheSizes, ∀ t ∈ s.slabs i, ¬ SlabByte t addr) ∨
      ∃ i < numCacheSizes, ∃ o ∈ s.live i, ObjByte (classSize i) o addr

/-! ## The invariant -/

/-- Every cache is in order, has the size and the identity of its class, and shares no slab with another; the
    table maps every size in eights to its class. -/
structure KInv (s : KSys) : Prop where
  holds : ∀ i < numCacheSizes, ∃ p, Holds (s.k.caches i) s.k.mem p (s.slabs i) (s.live i)
  cell : ∀ i < numCacheSizes, (s.k.caches i).objCellSize = classSize i
  id : ∀ i < numCacheSizes, (s.k.caches i).cacheId = i
  apart : ∀ i < numCacheSizes, ∀ j < numCacheSizes, i ≠ j → ∀ t ∈ s.slabs i, t ∉ s.slabs j
  map : ∀ e < cacheIdxMapSize, s.k.cacheIdxMap e = classOf e

/-- The slabs `vm_alloc_block` gives to `kmalloc_init`: three for each cache, all different. -/
structure FreshBlocks (vmBlocks : Nat → List Nat) : Prop where
  three : ∀ i < numCacheSizes, (vmBlocks i).length = numSlabsReserved
  nodup : ∀ i < numCacheSizes, (vmBlocks i).Nodup
  addr : ∀ i < numCacheSizes, ∀ t ∈ vmBlocks i, SlabAddr t
  apart : ∀ i < numCacheSizes, ∀ j < numCacheSizes, i ≠ j → ∀ t ∈ vmBlocks i, t ∉ vmBlocks j

/-! ## `kmalloc_init` -/

/-- A cache of a class, as `slab_cache_init` sets it up. -/
theorem classCache {i : Nat} (hi : i < numCacheSizes) :
    ∃ c, slabCacheInit (classSize i) 8 i vmzoneKernelSlab = .ok c ∧ c.objCellSize = classSize i ∧ c.cacheId = i ∧
      8 ≤ c.objCellSize ∧ 2 ≤ c.objsPerSlab ∧ c.objsPerSlab ≤ 1021 := by
  have hall : ∀ i < numCacheSizes, (sub64 (classSize i + 8) 1 &&& not64 (sub64 8 1)) % 2 ^ 16 = classSize i ∧
      2 ≤ (slabSize - slabHeaderSize) / classSize i ∧ (slabSize - slabHeaderSize) / classSize i ≤ 1021 := by
    decide
  obtain ⟨hcell, hobjs, hmax⟩ := hall i hi
  obtain ⟨-, hpos, -⟩ := classSize_bounds i hi
  unfold slabCacheInit
  rw [hcell, if_neg (by omega)]
  exact ⟨_, rfl, rfl, rfl, hpos, hobjs, hmax⟩

/-- Three slabs' worth of objects take three slabs. -/
theorem reserveSlabs_three {objs : Nat} (h1 : 2 ≤ objs) (h2 : objs ≤ 1021) :
    reserveSlabs objs (objs * numSlabsReserved % 2 ^ 16) = numSlabsReserved := by
  have hmod : objs * numSlabsReserved % 2 ^ 16 = objs * 3 := Nat.mod_eq_of_lt (by show objs * 3 < 2 ^ 16; omega)
  have hdiv : (objs * 3 + objs - 1) / objs = 3 := by
    refine Nat.div_eq_of_lt_le ?_ ?_
    · rw [Nat.mul_comm]
      omega
    · rw [Nat.mul_comm]
      omega
  unfold reserveSlabs
  rw [hmod, hdiv]
  rfl

/-- The caches below class `i` are set up, each with its three slabs. -/
def SetUp (vmBlocks : Nat → List Nat) (i : Nat) (k : Kmalloc) : Prop :=
  ∀ j < i, (∃ p, Holds (k.caches j) k.mem p (vmBlocks j).reverse []) ∧
    (k.caches j).objCellSize = classSize j ∧ (k.caches j).cacheId = j

theorem initCaches_spec {vmBlocks : Nat → List Nat} (hfresh : FreshBlocks vmBlocks) (n i : Nat)
    (hn : i + n = numCacheSizes) (k : Kmalloc) (hset : SetUp vmBlocks i k) :
    ∃ k', initCaches vmBlocks n i k = .ok k' ∧ SetUp vmBlocks numCacheSizes k' ∧
      k'.cacheIdxMap = k.cacheIdxMap ∧ k'.accesses = k.accesses := by
  induction n generalizing i k with
  | zero =>
      refine ⟨k, rfl, ?_, rfl, rfl⟩
      have hi : i = numCacheSizes := hn
      rw [← hi]
      exact hset
  | succ n ih =>
      have hi : i < numCacheSizes := by omega
      obtain ⟨c, hinit, hcell, hid, h8, h2, hmax⟩ := classCache hi
      have hi16 : i < 2 ^ 16 := Nat.lt_trans hi (by decide)
      obtain ⟨hholds, -⟩ := holds_init hinit hi16 h8 h2 k.mem
      have hlen : (vmBlocks i).length = reserveSlabs c.objsPerSlab (c.objsPerSlab * numSlabsReserved % 2 ^ 16) := by
        rw [reserveSlabs_three h2 hmax]
        exact hfresh.three i hi
      obtain ⟨c', mem', hrun, hshape, hholds', hbytes, -⟩ :=
        hholds.reserve hlen (hfresh.nodup i hi) (hfresh.addr i hi) (fun t _ hm => by cases hm)
      rw [List.append_nil] at hholds'
      have hset' : SetUp vmBlocks (i + 1) (k.setCache i c' mem') := by
        intro j hj
        by_cases hji : j = i
        · subst hji
          have hself : (k.setCache j c' mem').caches j = c' := Function.update_self ..
          rw [hself]
          exact ⟨⟨_, hholds'⟩, hshape.cell.trans hcell, hshape.id.trans hid⟩
        · have hother : (k.setCache i c' mem').caches j = k.caches j := Function.update_of_ne hji ..
          have hjlt : j < i := by omega
          obtain ⟨⟨p, hp⟩, h3, h4⟩ := hset j hjlt
          rw [hother]
          refine ⟨⟨p, hp.frame_of_changes hbytes (fun t ht => by cases ht) (fun x hx => ?_)⟩, h3, h4⟩
          obtain ⟨t, ht, hb⟩ := hx
          refine ⟨t, hfresh.addr i hi t ht, fun hm => ?_, hb⟩
          exact hfresh.apart i hi j (by omega) (fun he => hji he.symm) t ht (List.mem_reverse.mp hm)
      obtain ⟨k', hk', hset'', hmap, hacc⟩ := ih (i + 1) (by omega) (k.setCache i c' mem') hset'
      refine ⟨k', ?_, hset'', hmap, hacc⟩
      show (slabCacheInit (classSize i) 8 i vmzoneKernelSlab >>= _) = _
      rw [hinit]
      show (slabCacheReserve c k.mem _ (vmBlocks i) >>= _) = _
      rw [hrun]
      exact hk'

/-- The state after `kmalloc_init`. -/
def KSys.boot (k : Kmalloc) (vmBlocks : Nat → List Nat) : KSys := ⟨k, fun i => (vmBlocks i).reverse, fun _ => []⟩

/-- **`kmalloc_init`** returns with every cache in order and the table filled; it writes entry 255. -/
theorem kmallocInit_spec {vmBlocks : Nat → List Nat} (hfresh : FreshBlocks vmBlocks) (mem : Mem) :
    ∃ k, kmallocInit mem vmBlocks = .ok k ∧ KInv (.boot k vmBlocks) ∧ cacheIdxMapSize ∈ k.accesses := by
  obtain ⟨k, hk, hset, hmap, hacc⟩ :=
    initCaches_spec hfresh numCacheSizes 0 rfl (.zero mem) (fun j hj => absurd hj (Nat.not_lt_zero j))
  obtain ⟨h1, h2, h3, h4⟩ := fillMap_fields numCacheSizes 0 0 k
  refine ⟨fillMap numCacheSizes 0 0 k, ?_, ⟨fun i hi => ?_, fun i hi => ?_, fun i hi => ?_, ?_, fun e he => ?_⟩, ?_⟩
  · unfold kmallocInit
    rw [hk]
    rfl
  · obtain ⟨p, hp⟩ := (hset i hi).1
    refine ⟨p, ?_⟩
    show Holds ((fillMap numCacheSizes 0 0 k).caches i) (fillMap numCacheSizes 0 0 k).mem p (vmBlocks i).reverse []
    rw [h1, h2]
    exact hp
  · show ((fillMap numCacheSizes 0 0 k).caches i).objCellSize = classSize i
    rw [h1]
    exact (hset i hi).2.1
  · show ((fillMap numCacheSizes 0 0 k).caches i).cacheId = i
    rw [h1]
    exact (hset i hi).2.2
  · intro i hi j hj hne t ht hm
    exact hfresh.apart i hi j hj hne t (List.mem_reverse.mp ht) (List.mem_reverse.mp hm)
  · show (fillMap numCacheSizes 0 0 k).cacheIdxMap e = classOf e
    have he' : e < 256 := Nat.lt_trans he (by decide)
    rw [h4, hmap, ← filledAt_eq_classOf e he']
    rfl
  · rw [h3]
    exact List.mem_append_left _ (by decide)

/-! ## One call -/

section Step

variable {s : KSys}

/-- An operation on the slabs of cache `i`, and perhaps on one that nobody owns, leaves another cache in order. -/
theorem KInv.other (h : KInv s) {i j : Nat} (hi : i < numCacheSizes) (hj : j < numCacheSizes) (hji : j ≠ i) {p : Pool}
    (hp : Holds (s.k.caches i) s.k.mem p (s.slabs i) (s.live i)) {mem' : Mem} {extra : Nat → Prop}
    (hbytes : ChangesOnly s.k.mem mem' p.slabs extra)
    (hextra : ∀ x, extra x → ∃ t, SlabAddr t ∧ t ∉ s.slabs j ∧ SlabByte t x) :
    ∃ q, Holds (s.k.caches j) mem' q (s.slabs j) (s.live j) := by
  obtain ⟨q, hq⟩ := h.holds j hj
  refine ⟨q, hq.frame_of_changes hbytes (fun t ht => ⟨hp.rep.addr t ht, ?_⟩) hextra⟩
  exact h.apart i hi j hj (fun he => hji he.symm) t (hp.perm.mem_iff.mp ht)

/-- **One cache changes**: it stays in order, takes at most slabs that nobody owned, and writes to its own slabs and
    to those. -/
theorem KInv.change (h : KInv s) {s' : KSys} {i : Nat} (hi : i < numCacheSizes) {p q : Pool}
    (hp : Holds (s.k.caches i) s.k.mem p (s.slabs i) (s.live i))
    (hq : Holds (s'.k.caches i) s'.k.mem q (s'.slabs i) (s'.live i))
    (hshape : SameShape (s.k.caches i) (s'.k.caches i))
    (hothers : ∀ j < numCacheSizes, j ≠ i →
      s'.k.caches j = s.k.caches j ∧ s'.live j = s.live j ∧ s'.slabs j = s.slabs j)
    (hslabs : ∀ t ∈ s'.slabs i, t ∈ s.slabs i ∨ ∀ j < numCacheSizes, t ∉ s.slabs j)
    (hmap : s'.k.cacheIdxMap = s.k.cacheIdxMap) {extra : Nat → Prop}
    (hbytes : ChangesOnly s.k.mem s'.k.mem p.slabs extra)
    (hextra : ∀ j < numCacheSizes, j ≠ i → ∀ x, extra x → ∃ t, SlabAddr t ∧ t ∉ s.slabs j ∧ SlabByte t x) :
    KInv s' := by
  -- A slab of the cache is on no other list, whether it is an old one or not.
  have hapart : ∀ j < numCacheSizes, j ≠ i → ∀ t ∈ s'.slabs i, t ∉ s.slabs j := by
    intro j hj hji t ht
    rcases hslabs t ht with hold | hnew
    · exact h.apart i hi j hj (fun he => hji he.symm) t hold
    · exact hnew j hj
  refine ⟨?_, ?_, ?_, ?_, ?_⟩
  · intro j hj
    by_cases hji : j = i
    · rw [hji]
      exact ⟨q, hq⟩
    · obtain ⟨h1, h2, h3⟩ := hothers j hj hji
      rw [h1, h2, h3]
      exact h.other hi hj hji hp hbytes (hextra j hj hji)
  · intro j hj
    by_cases hji : j = i
    · rw [hji, hshape.cell]
      exact h.cell i hi
    · rw [(hothers j hj hji).1]
      exact h.cell j hj
  · intro j hj
    by_cases hji : j = i
    · rw [hji, hshape.id]
      exact h.id i hi
    · rw [(hothers j hj hji).1]
      exact h.id j hj
  · intro a ha b hb hab t hta htb
    by_cases hai : a = i
    · have hbi : b ≠ i := fun he => hab (hai.trans he.symm)
      rw [hai] at hta
      rw [(hothers b hb hbi).2.2] at htb
      exact hapart b hb hbi t hta htb
    · rw [(hothers a ha hai).2.2] at hta
      by_cases hbi : b = i
      · rw [hbi] at htb
        exact hapart a ha hai t htb hta
      · rw [(hothers b hb hbi).2.2] at htb
        exact h.apart a ha b hb hab t hta htb
  · rw [hmap]
    exact h.map

/-- A live object of one cache and a cell of another are apart. -/
theorem KInv.disjoint (h : KInv s) {i j : Nat} (hi : i < numCacheSizes) (hj : j < numCacheSizes) {o o' : Nat}
    (ho : o ∈ s.live i) (ho' : o' ∈ s.live j) (hne : i ≠ j ∨ o ≠ o') :
    o + classSize i ≤ o' ∨ o' + classSize j ≤ o := by
  obtain ⟨p, hp⟩ := h.holds i hi
  by_cases hij : i = j
  · subst hij
    have hoo : o ≠ o' := hne.resolve_left (fun hn => hn rfl)
    have hdis := hp.disjoint ho ho' hoo
    rw [h.cell i hi] at hdis
    exact hdis
  · obtain ⟨q, hq⟩ := h.holds j hj
    obtain ⟨t, n, ht, hn, -, rfl⟩ := (hp.mem_live o).mp ho
    obtain ⟨t', n', ht', hn', -, rfl⟩ := (hq.mem_live o').mp ho'
    obtain ⟨h1, h2⟩ := cellAddr_bounds (s := t) hp.geometry.fits hn
    obtain ⟨h3, h4⟩ := cellAddr_bounds (s := t') hq.geometry.fits hn'
    rw [h.cell i hi] at h2
    rw [h.cell j hj] at h4
    have hne : t ≠ t' := by
      rintro rfl
      exact h.apart i hi j hj hij t (hp.perm.mem_iff.mp ht) (hq.perm.mem_iff.mp ht')
    rw [h.cell i hi, h.cell j hj] at *
    rcases slabs_apart (hp.rep.addr t ht).aligned (hq.rep.addr t' ht').aligned hne with hap | hap
    · exact .inl (by omega)
    · exact .inr (by omega)

/-- Objects of all classes start at multiples of eight. -/
theorem cellAddr_aligned {i t n : Nat} (hi : i < numCacheSizes) (ht : SlabAddr t) :
    8 ∣ cellAddr (classSize i) t n := by
  obtain ⟨h8, -, -⟩ := classSize_bounds i hi
  obtain ⟨a, ha⟩ := ht.aligned
  have hmul : 8 ∣ n * classSize i := Dvd.dvd.mul_left (Nat.dvd_of_mod_eq_zero h8) n
  rw [cellAddr_eq]
  omega

/-- What `kmalloc(size)` promises: an object of the smallest class that fits, aligned, a cell of a slab of that
    class, apart from everything live, found through an entry inside the table; the other caches are as before. -/
structure Served (s s' : KSys) (size obj : Nat) : Prop where
  index : mapIndex size < cacheIdxMapSize
  accesses : s'.k.accesses = mapIndex size :: s.k.accesses
  fits : size ≤ classSize (s.classFor size)
  smallest : ∀ i < numCacheSizes, size ≤ classSize i → classSize (s.classFor size) ≤ classSize i
  live : s'.live (s.classFor size) = obj :: s.live (s.classFor size)
  aligned : 8 ∣ obj
  isCell : ∃ t ∈ s'.slabs (s.classFor size), ∃ n < (s.k.caches (s.classFor size)).objsPerSlab,
    obj = cellAddr (classSize (s.classFor size)) t n
  apart : ∀ j < numCacheSizes, ∀ o ∈ s.live j, obj + classSize (s.classFor size) ≤ o ∨ o + classSize j ≤ obj
  others : ∀ j, j ≠ s.classFor size → s'.k.caches j = s.k.caches j ∧ s'.live j = s.live j ∧ s'.slabs j = s.slabs j

theorem kmalloc_step (h : KInv s) {size vmBlock : Nat} (ha : KAllowed 2032 s (.kmalloc size vmBlock)) :
    ∃ s' obj, kstep s (.kmalloc size vmBlock) = .ok s' ∧ KInv s' ∧ Served s s' size obj := by
  obtain ⟨hsize, hneed⟩ := ha
  have hindex : mapIndex size < cacheIdxMapSize := by
    show mapIndex size < 255
    unfold mapIndex
    rw [Nat.shiftRight_eq_div_pow]
    omega
  have hsize' : size ≤ maxKmallocSize := Nat.le_trans hsize (by decide)
  obtain ⟨hi, hfits, hsmallest⟩ := classOf_smallest hsize'
  have hclass : s.classFor size = classOf (mapIndex size) := h.map _ hindex
  rw [← hclass] at hi hfits hsmallest
  generalize hci : s.classFor size = i at *
  obtain ⟨p, hp⟩ := h.holds i hi
  obtain ⟨obj, c', mem', q, hrun, hshape, hholds, hbytes, -, -⟩ := hp.alloc (b := vmBlock)
    (fun hm => (hneed hm).imp id (fun hb => hb i hi))
  have hk : kmalloc s.k size vmBlock = .ok (obj, { (s.k.setCache i c' mem') with
      accesses := mapIndex size :: s.k.accesses }) := by
    unfold kmalloc
    rw [if_neg (Nat.not_lt.mpr hsize'), show s.k.cacheIdxMap (mapIndex size) = i from hci]
    simp only [if_pos hi, hrun]
    rfl
  let s' : KSys :=
    { k := { (s.k.setCache i c' mem') with accesses := mapIndex size :: s.k.accesses }
      slabs := Function.update s.slabs i (if MustCreate (s.k.caches i) then vmBlock :: s.slabs i else s.slabs i)
      live := Function.update s.live i (obj :: s.live i) }
  have hself : s'.k.caches i = c' ∧ s'.live i = obj :: s.live i ∧
      s'.slabs i = if MustCreate (s.k.caches i) then vmBlock :: s.slabs i else s.slabs i :=
    ⟨Function.update_self .., Function.update_self .., Function.update_self ..⟩
  have hothers : ∀ j, j ≠ i → s'.k.caches j = s.k.caches j ∧ s'.live j = s.live j ∧ s'.slabs j = s.slabs j :=
    fun j hj => ⟨Function.update_of_ne hj .., Function.update_of_ne hj .., Function.update_of_ne hj ..⟩
  have hslabs : ∀ t, t ∈ s'.slabs i → t ∈ s.slabs i ∨ MustCreate (s.k.caches i) ∧ t = vmBlock := by
    intro t ht
    rw [hself.2.2] at ht
    by_cases hm : MustCreate (s.k.caches i)
    · rw [if_pos hm] at ht
      rcases List.mem_cons.mp ht with rfl | ht
      · exact .inr ⟨hm, rfl⟩
      · exact .inl ht
    · rw [if_neg hm] at ht
      exact .inl ht
  have hholds' : Holds (s'.k.caches i) s'.k.mem q (s'.slabs i) (s'.live i) := by
    rw [hself.1, hself.2.1, hself.2.2]
    exact hholds
  have hinv : KInv s' := by
    have hshape' : SameShape (s.k.caches i) (s'.k.caches i) := by
      rw [hself.1]
      exact hshape
    apply h.change hi hp hholds' hshape' (fun j _ hji => hothers j hji) ?_ rfl hbytes
    · rintro j hj - x ⟨hm, hx⟩
      obtain ⟨haddr, hnew⟩ := hneed hm
      exact ⟨vmBlock, haddr, hnew j hj, hx⟩
    · intro t ht
      rcases hslabs t ht with hold | ⟨hm, rfl⟩
      · exact .inl hold
      · exact .inr (hneed hm).2
  have hobj : obj ∈ s'.live i := hself.2.1 ▸ List.mem_cons_self
  obtain ⟨t, n, ht, hn, -, hcell⟩ := (hholds'.mem_live obj).mp hobj
  rw [hself.1, hshape.objs] at hn
  rw [hinv.cell i hi] at hcell
  refine ⟨s', obj, ?_, hinv, ⟨hindex, rfl, ?_, ?_, ?_, ?_, ?_, ?_, ?_⟩⟩
  · show (kmalloc s.k size vmBlock >>= _) = _
    rw [hk]
    show (if size > maxKmallocSize then Except.ok s else _) = _
    rw [if_neg (Nat.not_lt.mpr hsize'), hci]
  · rw [hci]
    exact hfits
  · rw [hci]
    exact hsmallest
  · rw [hci]
    exact hself.2.1
  · rw [hcell]
    exact cellAddr_aligned hi (hholds'.rep.addr t ht)
  · rw [hci]
    exact ⟨t, hholds'.perm.mem_iff.mp ht, n, hn, hcell⟩
  · rw [hci]
    intro j hj o ho
    have ho' : o ∈ s'.live j := by
      by_cases hji : j = i
      · rw [hji, hself.2.1]
        exact List.mem_cons_of_mem _ (hji ▸ ho)
      · rw [(hothers j hji).2.1]
        exact ho
    refine hinv.disjoint hi hj hobj ho' ?_
    by_cases hji : j = i
    · refine .inr (fun he => ?_)
      have hnodup := hholds'.nodup
      rw [hself.2.1] at hnodup
      exact (List.nodup_cons.mp hnodup).1 (he ▸ hji ▸ ho)
    · exact .inl (fun he => hji he.symm)
  · rw [hci]
    exact hothers

/-- What `kfree(ptr)` promises for an object of class `i`: the slab header leads to that cache, which takes the
    object back, and the other caches keep their records, their objects and every byte of their slabs. -/
structure Released (s s' : KSys) (ptr i : Nat) : Prop where
  found : cacheIdForAlloc s.k.mem ptr = i
  cache : s'.k.caches i = (Slab.slabFree (s.k.caches i) s.k.mem ptr).1
  live : s'.live i = (s.live i).erase ptr ∧ ptr ∉ s'.live i
  others : ∀ j < numCacheSizes, j ≠ i → s'.k.caches j = s.k.caches j ∧ s'.live j = s.live j ∧
    ∀ t ∈ s.slabs j, ∀ x, SlabByte t x → s'.k.mem x = s.k.mem x

theorem kfree_step (h : KInv s) {i ptr : Nat} (hi : i < numCacheSizes) (hptr : ptr ∈ s.live i) :
    ∃ s', kstep s (.kfree ptr) = .ok s' ∧ KInv s' ∧ Released s s' ptr i := by
  obtain ⟨p, hp⟩ := h.holds i hi
  obtain ⟨t, c', mem', q, hrun, hshape, ht, hslab, hholds, hbytes, -, -⟩ := hp.free hptr
  have hfound : cacheIdForAlloc s.k.mem ptr = i := by
    unfold cacheIdForAlloc
    rw [hslab, hp.rep.ids t ht]
    exact h.id i hi
  have hk : kfree s.k ptr = s.k.setCache i c' mem' := by
    unfold kfree
    rw [hfound, if_pos hi, hrun]
  have hself : (s.k.setCache i c' mem').caches i = c' := Function.update_self ..
  have hothers : ∀ j, j ≠ i → (s.k.setCache i c' mem').caches j = s.k.caches j :=
    fun j hj => Function.update_of_ne hj ..
  -- The object is live in its own cache only.
  have herase : ∀ j < numCacheSizes, j ≠ i → (s.live j).erase ptr = s.live j := by
    intro j hj hji
    refine List.erase_of_not_mem (fun hm => ?_)
    obtain ⟨-, h8, -⟩ := classSize_bounds i hi
    obtain ⟨-, h8', -⟩ := classSize_bounds j hj
    rcases h.disjoint hi hj hptr hm (.inl (fun he => hji he.symm)) with hd | hd
    · omega
    · omega
  -- The bytes that change lie in slabs of this cache.
  have hobj : ∀ x, ObjByte (s.k.caches i).objCellSize ptr x → SlabByte t x := by
    obtain ⟨u, n, hu, hn, -, rfl⟩ := (hp.mem_live ptr).mp hptr
    obtain ⟨h1, h2⟩ := cellAddr_bounds (s := u) hp.geometry.fits hn
    have hcell := hp.geometry.cell
    have hut : u = t := by
      rw [← hslab]
      exact (slabOf_eq (hp.rep.addr u hu) (by omega) (by omega)).symm
    rintro x ⟨h3, h4⟩
    exact ⟨by omega, by omega⟩
  have hextra : ∀ j < numCacheSizes, j ≠ i → ∀ x, ObjByte (s.k.caches i).objCellSize ptr x →
      ∃ u, SlabAddr u ∧ u ∉ s.slabs j ∧ SlabByte u x := by
    intro j hj hji x hx
    refine ⟨t, hp.rep.addr t ht, ?_, hobj x hx⟩
    exact h.apart i hi j hj (fun he => hji he.symm) t (hp.perm.mem_iff.mp ht)
  let s' : KSys := ⟨s.k.setCache i c' mem', s.slabs, fun j => (s.live j).erase ptr⟩
  have hholds' : Holds (s'.k.caches i) s'.k.mem q (s'.slabs i) (s'.live i) := by
    show Holds ((s.k.setCache i c' mem').caches i) mem' q (s.slabs i) ((s.live i).erase ptr)
    rw [hself]
    exact hholds
  have hinv : KInv s' := by
    have hshape' : SameShape (s.k.caches i) (s'.k.caches i) := by
      show SameShape (s.k.caches i) ((s.k.setCache i c' mem').caches i)
      rw [hself]
      exact hshape
    have hothers' : ∀ j < numCacheSizes, j ≠ i →
        s'.k.caches j = s.k.caches j ∧ s'.live j = s.live j ∧ s'.slabs j = s.slabs j :=
      fun j hj hji => ⟨hothers j hji, herase j hj hji, rfl⟩
    exact h.change hi hp hholds' hshape' hothers' (fun t ht => .inl ht) rfl hbytes hextra
  refine ⟨s', ?_, hinv, ⟨hfound, ?_, ⟨rfl, ?_⟩, fun j hj hji => ?_⟩⟩
  · show Except.ok _ = _
    rw [hk]
  · show (s.k.setCache i c' mem').caches i = _
    rw [hself, hrun]
  · exact hp.nodup.not_mem_erase
  · refine ⟨hothers j hji, herase j hj hji, fun u hu x hx => ?_⟩
    have hapart : ∀ v ∈ p.slabs, ¬ SlabByte v x := by
      rintro v hv ⟨h1, h2⟩
      obtain ⟨h3, h4⟩ := hx
      obtain ⟨p', hp'⟩ := h.holds j hj
      have hne : v ≠ u := fun he =>
        h.apart i hi j hj (fun he => hji he.symm) v (hp.perm.mem_iff.mp hv) (he ▸ hu)
      rcases slabs_apart (hp.rep.addr v hv).aligned (hp'.addr u hu).aligned hne with hap | hap
      · omega
      · omega
    refine hbytes x (fun v hv hb => hapart v hv ⟨hb.1, ?_⟩) (fun hb => hapart t ht (hobj x hb))
    have := hb.2
    omega

theorem write_step (h : KInv s) {limit addr : Nat} {byte : UInt8} (ha : KAllowed limit s (.write addr byte)) :
    KInv { s with k := { s.k with mem := Function.update s.k.mem addr byte } } := by
  refine ⟨fun i hi => ?_, h.cell, h.id, h.apart, h.map⟩
  obtain ⟨p, hp⟩ := h.holds i hi
  refine ⟨p, hp.frame (fun x hx => ?_)⟩
  have hxa : x = addr := by
    by_contra hne
    exact hx (Function.update_of_ne hne ..)
  rw [hxa]
  rcases ha with hout | ⟨j, hj, o, ho, hb⟩
  · exact .inl (hout i hi)
  · by_cases hij : i = j
    · subst hij
      rw [h.cell i hi]
      exact .inr ⟨o, ho, hb⟩
    · -- The object belongs to another cache, so the byte is in none of this one's slabs.
      refine .inl (fun t ht hbt => ?_)
      obtain ⟨q, hq⟩ := h.holds j hj
      refine hq.objByte_not_slab ho (by rw [h.cell j hj]; exact hb) (hp.addr t ht) (fun hm => ?_) hbt
      exact h.apart i hi j hj hij t ht (hq.perm.mem_iff.mp hm)

end Step

/-! ## Runs -/

theorem kstep_inv {s s' : KSys} {a : KAct} (h : KInv s) (ha : KAllowed 2032 s a) (hs : kstep s a = .ok s') :
    KInv s' := by
  cases a with
  | kmalloc size vmBlock =>
      obtain ⟨s1, obj, hs1, hinv, -⟩ := kmalloc_step h ha
      obtain rfl : s1 = s' := Except.ok.inj (hs1.symm.trans hs)
      exact hinv
  | kfree ptr =>
      obtain ⟨i, hi, hptr⟩ := ha
      obtain ⟨s1, hs1, hinv, -⟩ := kfree_step h hi hptr
      obtain rfl : s1 = s' := Except.ok.inj (hs1.symm.trans hs)
      exact hinv
  | write addr byte =>
      obtain rfl : _ = s' := Except.ok.inj hs
      exact write_step h ha

/-- No call takes an index off the record. -/
theorem kstep_accesses {s s' : KSys} {a : KAct} (hs : kstep s a = .ok s') {j : Nat} (hj : j ∈ s.k.accesses) :
    j ∈ s'.k.accesses := by
  cases a with
  | kmalloc size vmBlock =>
      obtain ⟨⟨obj, k⟩, hk, hrest⟩ := bind_eq_ok.mp hs
      dsimp only at hrest
      by_cases hbig : size > maxKmallocSize
      · rw [if_pos hbig] at hrest
        cases hrest
        exact hj
      · rw [if_neg hbig] at hrest
        cases hrest
        unfold kmalloc at hk
        rw [if_neg hbig] at hk
        by_cases hc : s.k.cacheIdxMap (mapIndex size) < numCacheSizes
        · simp only [if_pos hc] at hk
          obtain ⟨r, -, hr⟩ := bind_eq_ok.mp hk
          cases hr
          exact List.mem_cons_of_mem _ hj
        · simp only [if_neg hc] at hk
          cases hk
  | kfree ptr =>
      cases hs
      show j ∈ (kfree s.k ptr).accesses
      unfold kfree
      by_cases hc : cacheIdForAlloc s.k.mem ptr < numCacheSizes
      · rw [if_pos hc]
        exact hj
      · rw [if_neg hc]
        exact hj
  | write addr byte =>
      cases hs
      exact hj

/-- **The contract of `kmalloc` and `kfree`.** The table is accessed past its end in every run, since `kmalloc_init`
    writes entry 255. All the rest of the contract holds in every run of requests of at most 2032 bytes: each of
    them is served by a cell of the smallest class that fits, apart from all live objects of all classes and found
    inside the table, and `kfree` gives an object back to the cache that served it and leaves the others alone. -/
theorem kmalloc_contract {mem : Mem} {vmBlocks : Nat → List Nat} (hfresh : FreshBlocks vmBlocks) {k : Kmalloc}
    (hinit : kmallocInit mem vmBlocks = .ok k) :
    (∀ s, Reaches kstep (KAllowed maxKmallocSize) (.boot k vmBlocks) s →
      ¬ ∀ j ∈ s.k.accesses, j < cacheIdxMapSize) ∧
    ∀ s, Reaches kstep (KAllowed 2032) (.boot k vmBlocks) s →
      (∀ size vmBlock, KAllowed 2032 s (.kmalloc size vmBlock) →
        ∃ s' obj, kstep s (.kmalloc size vmBlock) = .ok s' ∧ Served s s' size obj) ∧
      ∀ i < numCacheSizes, ∀ ptr ∈ s.live i, ∃ s', kstep s (.kfree ptr) = .ok s' ∧ Released s s' ptr i := by
  obtain ⟨k', hk', hinv, hwrite⟩ := kmallocInit_spec hfresh mem
  obtain rfl : k' = k := Except.ok.inj (hk'.symm.trans hinit)
  refine ⟨fun s hr hall => ?_, fun s hr => ?_⟩
  · have hmem : cacheIdxMapSize ∈ s.k.accesses :=
      hr.invariant (fun s => cacheIdxMapSize ∈ s.k.accesses) hwrite (fun _ _ _ hj _ hs => kstep_accesses hs hj)
    exact absurd (hall _ hmem) (lt_irrefl _)
  · have hs : KInv s := hr.invariant KInv hinv (fun _ _ _ h hm hstep => kstep_inv h hm hstep)
    refine ⟨fun size vmBlock ha => ?_, fun i hi ptr hptr => ?_⟩
    · obtain ⟨s', obj, h1, -, h2⟩ := kmalloc_step hs ha
      exact ⟨s', obj, h1, h2⟩
    · obtain ⟨s', h1, -, h2⟩ := kfree_step hs hi hptr
      exact ⟨s', h1, h2⟩

/-- Thirty slabs in a row. -/
def slabsInARow (i : Nat) : List Nat := slabsAt (0xFFFFFF8200000000 + i * 0x6000) 3

theorem freshBlocks_inARow : FreshBlocks slabsInARow := by
  refine ⟨?_, ?_, ?_, ?_⟩
  · decide
  · decide
  · intro i hi t ht
    obtain ⟨n, hn, rfl⟩ := List.mem_map.mp ht
    have hn3 : n < 3 := List.mem_range.mp hn
    have hi10 : i < 10 := hi
    refine ⟨?_, ?_, ?_⟩
    · simp only [slabSize]
      omega
    · omega
    · simp only [slabSize]
      omega
  · intro i _ j _ hij t ht htj
    obtain ⟨n, hn, rfl⟩ := List.mem_map.mp ht
    obtain ⟨m, hm, hnm⟩ := List.mem_map.mp htj
    have hn3 : n < 3 := List.mem_range.mp hn
    have hm3 : m < 3 := List.mem_range.mp hm
    simp only [slabSize] at hnm
    omega

theorem kmalloc_contract_in_a_row :
    ∃ k, kmallocInit (fun _ => 0) slabsInARow = .ok k ∧ ¬ (∀ j ∈ k.accesses, j < cacheIdxMapSize) ∧
      ∀ size vmBlock, KAllowed 2032 (.boot k slabsInARow) (.kmalloc size vmBlock) →
        ∃ s' obj, kstep (.boot k slabsInARow) (.kmalloc size vmBlock) = .ok s' ∧
          Served (.boot k slabsInARow) s' size obj := by
  obtain ⟨k, hk, -⟩ := kmallocInit_spec freshBlocks_inARow (fun _ => 0)
  have hcontract := kmalloc_contract freshBlocks_inARow hk
  exact ⟨k, hk, hcontract.1 _ .refl, (hcontract.2 _ .refl).1⟩

/-- `kmalloc_init` writes `__cache_idx_map[255]`, and `kmalloc(2040)` reads it; the table ends at index 254. -/
theorem map_accessed_past_end :
    ∃ k, kmallocInit (fun _ => 0) slabsInARow = .ok k ∧ 255 ∈ k.accesses ∧ mapIndex maxKmallocSize = 255 ∧
      ¬ 255 < cacheIdxMapSize := by
  obtain ⟨k, hk, -, hwrite⟩ := kmallocInit_spec freshBlocks_inARow (fun _ => 0)
  exact ⟨k, hk, hwrite, by decide, by decide⟩

end LearningOS.Kmalloc
