import LearningOS.Mm.Phys.Model
import LearningOS.Mm.Slab.Objects

/-!
# `Mm.Slab.System` — a slab cache and its client

A cache does not record which objects are out; the client does. `SlabSys` is the cache and the memory together
with the slabs it was given and the live objects, `step` one call or one write of the client, and `Allowed` the
contract: `vm_alloc_block` and the caller of `slab_cache_prealloc` give slabs nobody owns, the client frees what
is live and writes only to live objects and outside the slabs.

* `slab_cache_safe` — the lists, the chains and the objects are in order in every reachable state;
* `list_counters_exact`, `free_objects_exact` — the counters, in the runs whose steps keep them.
-/

namespace LearningOS.Slab

open Word Run Bytes Linked

/-! ## Calls -/

/-- A cache, the memory, the slabs the cache was given and the objects its client holds. -/
structure SlabSys where
  cache : KmemCache
  mem : Mem
  slabs : List Nat
  live : List Nat

/-- A call or a write of the client. The slabs are the answers of `vm_alloc_block`. -/
inductive SlabAct where
  | reserve (numObjects : Nat) (vmBlocks : List Nat)
  | prealloc (pages numSlabs : Nat)
  | alloc (vmBlock : Nat)
  | free (ptr : Nat)
  | write (addr : Nat) (byte : UInt8)
deriving DecidableEq

/-- One call or write. -/
def step (s : SlabSys) : SlabAct → Except SlabFault SlabSys
  | .reserve numObjects vmBlocks =>
    slabCacheReserve s.cache s.mem numObjects vmBlocks >>= fun (cache, mem) =>
      .ok ⟨cache, mem, vmBlocks.reverse ++ s.slabs, s.live⟩
  | .prealloc pages numSlabs =>
    slabCachePrealloc s.cache s.mem pages numSlabs >>= fun (cache, mem) =>
      .ok ⟨cache, mem, (slabsAt pages numSlabs).reverse ++ s.slabs, s.live⟩
  | .alloc vmBlock =>
    slabAlloc s.cache s.mem vmBlock >>= fun (obj, cache, mem) =>
      .ok ⟨cache, mem, if MustCreate s.cache then vmBlock :: s.slabs else s.slabs, obj :: s.live⟩
  | .free ptr =>
    .ok ⟨(slabFree s.cache s.mem ptr).1, (slabFree s.cache s.mem ptr).2, s.slabs, s.live.erase ptr⟩
  | .write addr byte => .ok { s with mem := Function.update s.mem addr byte }

/-- A slab nobody owns. -/
def Fresh (s : SlabSys) (t : Nat) : Prop := SlabAddr t ∧ t ∉ s.slabs

/-- The contract of the client and of those who provide the slabs. -/
def Allowed (s : SlabSys) : SlabAct → Prop
  | .reserve numObjects vmBlocks =>
    numObjects < 2 ^ 16 ∧ vmBlocks.length = reserveSlabs s.cache.objsPerSlab numObjects ∧ vmBlocks.Nodup ∧
      ∀ t ∈ vmBlocks, Fresh s t
  | .prealloc pages numSlabs => numSlabs < 2 ^ 8 ∧ ∀ t ∈ slabsAt pages numSlabs, Fresh s t
  | .alloc vmBlock => MustCreate s.cache → Fresh s vmBlock
  | .free ptr => ptr ∈ s.live
  | .write addr _ =>
    (∀ t ∈ s.slabs, ¬ SlabByte t addr) ∨ ∃ o ∈ s.live, ObjByte s.cache.objCellSize o addr

instance (t : Nat) : Decidable (SlabAddr t) :=
  decidable_of_iff (slabSize ∣ t ∧ 0 < t ∧ t + slabSize ≤ 2 ^ 64)
    ⟨fun h => ⟨h.1, h.2.1, h.2.2⟩, fun h => ⟨h.1, h.2, h.3⟩⟩

instance (t x : Nat) : Decidable (SlabByte t x) := inferInstanceAs (Decidable (_ ∧ _))

instance (cell o x : Nat) : Decidable (ObjByte cell o x) := inferInstanceAs (Decidable (_ ∧ _))

instance (s : SlabSys) (t : Nat) : Decidable (Fresh s t) := inferInstanceAs (Decidable (_ ∧ _))

instance (s : SlabSys) (a : SlabAct) : Decidable (Allowed s a) :=
  match a with
  | .reserve numObjects vmBlocks =>
    inferInstanceAs (Decidable (numObjects < 2 ^ 16 ∧
      vmBlocks.length = reserveSlabs s.cache.objsPerSlab numObjects ∧ vmBlocks.Nodup ∧ ∀ t ∈ vmBlocks, Fresh s t))
  | .prealloc pages numSlabs =>
    inferInstanceAs (Decidable (numSlabs < 2 ^ 8 ∧ ∀ t ∈ slabsAt pages numSlabs, Fresh s t))
  | .alloc vmBlock => inferInstanceAs (Decidable (MustCreate s.cache → Fresh s vmBlock))
  | .free ptr => inferInstanceAs (Decidable (ptr ∈ s.live))
  | .write addr _ =>
    inferInstanceAs (Decidable ((∀ t ∈ s.slabs, ¬ SlabByte t addr) ∨
      ∃ o ∈ s.live, ObjByte s.cache.objCellSize o addr))

/-- The state after `slab_cache_init`. -/
def SlabSys.boot (cache : KmemCache) (mem : Mem) : SlabSys := ⟨cache, mem, [], []⟩

/-! ## One step -/

/-- The state is in order, with the given pool. -/
def Orderly (s : SlabSys) (p : Pool) : Prop := Holds s.cache s.mem p s.slabs s.live

/-- A step that counts the lists it changes: no slab is preallocated, and no free empties a slab. -/
def KeepsListCounts (s : SlabSys) : SlabAct → Prop
  | .prealloc _ numSlabs => numSlabs = 0
  | .free ptr => header .freeCount s.mem (slabOf ptr) + 1 ≠ s.cache.objsPerSlab
  | _ => True

/-- A step that counts the objects it changes: no slab has to be created to serve an allocation. -/
def KeepsFreeObjects (s : SlabSys) : SlabAct → Prop
  | .alloc _ => ¬ MustCreate s.cache
  | _ => True

instance (s : SlabSys) (a : SlabAct) : Decidable (KeepsListCounts s a) :=
  match a with
  | .reserve _ _ => isTrue trivial
  | .prealloc _ numSlabs => inferInstanceAs (Decidable (numSlabs = 0))
  | .alloc _ => isTrue trivial
  | .free ptr =>
    inferInstanceAs (Decidable (header .freeCount s.mem (slabOf ptr) + 1 ≠ s.cache.objsPerSlab))
  | .write _ _ => isTrue trivial

instance (s : SlabSys) (a : SlabAct) : Decidable (KeepsFreeObjects s a) :=
  match a with
  | .reserve _ _ => isTrue trivial
  | .prealloc _ _ => isTrue trivial
  | .alloc _ => inferInstanceAs (Decidable (¬ MustCreate s.cache))
  | .free _ => isTrue trivial
  | .write _ _ => isTrue trivial

/-- `allocated_objects` is the number of live objects, in `u32_t`. -/
def AllocatedExact (s : SlabSys) : Prop := s.cache.allocatedObjects = s.live.length % 2 ^ 32

/-- What a step does to the pool, the objects and the counters. -/
structure StepEffect (s s' : SlabSys) (a : SlabAct) (p q : Pool) : Prop where
  orderly : Orderly s' q
  shape : SameShape s.cache s'.cache
  keeps : (∀ addr byte, a ≠ .write addr byte) → ∀ o ∈ s.live, o ∈ s'.live → ∀ x,
    ObjByte s.cache.objCellSize o x → s'.mem x = s.mem x
  gains : ∀ b, a = .alloc b → ∃ obj, s'.live = obj :: s.live
  counted : KeepsListCounts s a → Counted s.cache p → Counted s'.cache q
  balanced : KeepsFreeObjects s a → Balanced s.cache p → Balanced s'.cache q
  allocated : AllocatedExact s → AllocatedExact s'

section Step

variable {s : SlabSys} {p : Pool}

/-- The slabs of `slab_cache_prealloc` are distinct. -/
theorem slabsAt_nodup (pages numSlabs : Nat) : (slabsAt pages numSlabs).Nodup := by
  refine List.Nodup.map_on (fun i _ j _ hij => ?_) List.nodup_range
  simp only [slabSize] at hij
  omega

/-- New slabs leave the bytes of live objects alone. -/
theorem addSlabs_keeps (h : Orderly s p) {l : List Nat} (hfresh : ∀ t ∈ l, Fresh s t) {mem' : Mem}
    (hbytes : ChangesOnly s.mem mem' p.slabs (fun x => ∃ t ∈ l, SlabByte t x)) :
    ∀ o ∈ s.live, ∀ x, ObjByte s.cache.objCellSize o x → mem' x = s.mem x := by
  intro o ho x hx
  refine hbytes x (Holds.objByte_not_header h ho hx) ?_
  rintro ⟨t, ht, hb⟩
  obtain ⟨haddr, hnew⟩ := hfresh t ht
  exact Holds.objByte_not_slab h ho hx haddr (fun hm => hnew (h.perm.mem_iff.mp hm)) hb

theorem reserve_effect (h : Orderly s p) {numObjects : Nat} {vmBlocks : List Nat}
    (ha : Allowed s (.reserve numObjects vmBlocks)) :
    ∃ s', step s (.reserve numObjects vmBlocks) = .ok s' ∧
      StepEffect s s' (.reserve numObjects vmBlocks) p (p.addAll s.cache.objsPerSlab vmBlocks) := by
  obtain ⟨-, hlen, hnodup, hfresh⟩ := ha
  obtain ⟨c', mem', hrun, hshape, hholds, hbytes, hcounted, hallocated, hbal⟩ :=
    Holds.reserve h hlen hnodup (fun t ht => (hfresh t ht).1) (fun t ht => (hfresh t ht).2)
  refine ⟨⟨c', mem', vmBlocks.reverse ++ s.slabs, s.live⟩, ?_, ⟨hholds, hshape, ?_, ?_, fun _ hc => hcounted hc,
    fun _ hb => hbal hb, fun hb => hallocated.trans hb⟩⟩
  · show (slabCacheReserve s.cache s.mem numObjects vmBlocks >>= _) = _
    rw [hrun]
    rfl
  · exact fun _ o ho _ => addSlabs_keeps h hfresh hbytes o ho
  · intro b hb
    cases hb

theorem prealloc_effect (h : Orderly s p) {pages numSlabs : Nat} (ha : Allowed s (.prealloc pages numSlabs)) :
    ∃ s', step s (.prealloc pages numSlabs) = .ok s' ∧
      StepEffect s s' (.prealloc pages numSlabs) p (p.addAll s.cache.objsPerSlab (slabsAt pages numSlabs)) := by
  obtain ⟨-, hfresh⟩ := ha
  obtain ⟨c', mem', hrun, hshape, hholds, hbytes, h1, h2, h3, h4, hbal⟩ :=
    Holds.addFreeSlabs h (slabsAt_nodup pages numSlabs) (fun t ht => (hfresh t ht).1) (fun t ht => (hfresh t ht).2)
  refine ⟨⟨c', mem', (slabsAt pages numSlabs).reverse ++ s.slabs, s.live⟩, ?_, ⟨hholds, hshape, ?_, ?_, ?_,
    fun _ hb => hbal hb, fun hb => h4.trans hb⟩⟩
  · show (slabCachePrealloc s.cache s.mem pages numSlabs >>= _) = _
    unfold slabCachePrealloc
    rw [hrun]
    rfl
  · exact fun _ o ho _ => addSlabs_keeps h hfresh hbytes o ho
  · intro b hb
    cases hb
  · intro hzero hc
    have hnil : slabsAt pages numSlabs = [] := by
      rw [show numSlabs = 0 from hzero]
      rfl
    rw [hnil]
    exact ⟨h1.trans hc.frees, h2.trans hc.partials, h3.trans hc.fulls⟩

theorem alloc_effect (h : Orderly s p) {vmBlock : Nat} (ha : Allowed s (.alloc vmBlock)) :
    ∃ s' q, step s (.alloc vmBlock) = .ok s' ∧ StepEffect s s' (.alloc vmBlock) p q := by
  obtain ⟨obj, c', mem', q, hrun, hshape, hholds, hbytes, hcounts, hcells⟩ := Holds.alloc h ha
  refine ⟨⟨c', mem', if MustCreate s.cache then vmBlock :: s.slabs else s.slabs, obj :: s.live⟩, q, ?_,
    ⟨hholds, hshape, ?_, fun b _ => ⟨obj, rfl⟩, fun _ hc => hcounts.counted hc, fun hno hb => ?_, fun hb => ?_⟩⟩
  · show (slabAlloc s.cache s.mem vmBlock >>= _) = _
    rw [hrun]
    rfl
  · intro _ o ho _ x hx
    refine hbytes x (Holds.objByte_not_header h ho hx) ?_
    rintro ⟨hmust, hb⟩
    obtain ⟨haddr, hnew⟩ := ha hmust
    exact Holds.objByte_not_slab h ho hx haddr (fun hm => hnew (h.perm.mem_iff.mp hm)) hb
  · show c'.totalFreeObjects = q.freeCells % 2 ^ 32
    rw [hcounts.freeObjects, show s.cache.totalFreeObjects = p.freeCells % 2 ^ 32 from hb, ← hcells hno]
    exact subW_one_mod (by decide)
  · show c'.allocatedObjects = (obj :: s.live).length % 2 ^ 32
    rw [hcounts.allocated, show s.cache.allocatedObjects = s.live.length % 2 ^ 32 from hb, addW_mod,
      List.length_cons]

theorem free_effect (h : Orderly s p) {ptr : Nat} (ha : Allowed s (.free ptr)) :
    ∃ s' q, step s (.free ptr) = .ok s' ∧ StepEffect s s' (.free ptr) p q := by
  obtain ⟨t, c', mem', q, hrun, hshape, ht, hslab, hholds, hbytes, hcounts, hcells⟩ := Holds.free h ha
  refine ⟨⟨c', mem', s.slabs, s.live.erase ptr⟩, q, ?_, ⟨hholds, hshape, ?_, ?_, fun hkeep hc => ?_, fun _ hb => ?_,
    fun hb => ?_⟩⟩
  · show Except.ok _ = _
    rw [hrun]
  · intro _ o ho ho' x hx
    have hne : o ≠ ptr := (h.nodup.mem_erase_iff.mp ho').1
    refine hbytes x (Holds.objByte_not_header h ho hx) ?_
    rintro ⟨h1, h2⟩
    obtain ⟨h3, h4⟩ := hx
    rcases Holds.disjoint h ho ha hne with hap | hap
    · omega
    · omega
  · intro b hb
    cases hb
  · refine hcounts.counted ?_ hc
    have hcount : header .freeCount s.mem t = (p.chain t).length := (h.rep.slab t ht).count
    rw [← hcount, ← hslab]
    exact hkeep
  · show c'.totalFreeObjects = q.freeCells % 2 ^ 32
    rw [hcounts.freeObjects, show s.cache.totalFreeObjects = p.freeCells % 2 ^ 32 from hb, addW_mod, hcells]
  · show c'.allocatedObjects = (s.live.erase ptr).length % 2 ^ 32
    have hlen : s.live.length = (s.live.erase ptr).length + 1 := by
      rw [List.length_erase_of_mem ha]
      have := List.length_pos_of_mem ha
      omega
    rw [hcounts.allocated, show s.cache.allocatedObjects = s.live.length % 2 ^ 32 from hb, hlen]
    exact subW_one_mod (by decide)

theorem write_effect (h : Orderly s p) {addr : Nat} {byte : UInt8} (ha : Allowed s (.write addr byte)) :
    ∃ s', step s (.write addr byte) = .ok s' ∧ StepEffect s s' (.write addr byte) p p := by
  refine ⟨_, rfl, ⟨Holds.frame h (fun x hx => ?_), .refl _, fun hno => absurd rfl (hno addr byte), ?_, fun _ hc => hc,
    fun _ hb => hb, fun hb => hb⟩⟩
  · have hxa : x = addr := by
      by_contra hne
      exact hx (Function.update_of_ne hne ..)
    rw [hxa]
    exact ha
  · intro b hb
    cases hb

/-- **One step.** An allowed call returns and keeps the state in order. -/
theorem step_effect (h : Orderly s p) {a : SlabAct} (ha : Allowed s a) :
    ∃ s' q, step s a = .ok s' ∧ StepEffect s s' a p q := by
  cases a with
  | reserve numObjects vmBlocks =>
      obtain ⟨s', h1, h2⟩ := reserve_effect h ha
      exact ⟨s', _, h1, h2⟩
  | prealloc pages numSlabs =>
      obtain ⟨s', h1, h2⟩ := prealloc_effect h ha
      exact ⟨s', _, h1, h2⟩
  | alloc vmBlock => exact alloc_effect h ha
  | free ptr => exact free_effect h ha
  | write addr byte =>
      obtain ⟨s', h1, h2⟩ := write_effect h ha
      exact ⟨s', _, h1, h2⟩

end Step

/-! ## Runs -/

section Runs

variable {objSize objAlign cacheId vmzone : Nat} {cache : KmemCache} {mem : Mem} {s : SlabSys}

theorem boot_orderly (hinit : slabCacheInit objSize objAlign cacheId vmzone = .ok cache) (hid : cacheId < 2 ^ 16)
    (hcell : 8 ≤ cache.objCellSize) (hobjs : 2 ≤ cache.objsPerSlab) (mem : Mem) :
    Orderly (.boot cache mem) .empty ∧ Counted cache .empty ∧ Balanced cache .empty ∧
      AllocatedExact (.boot cache mem) := by
  obtain ⟨h1, h2, h3, h4⟩ := holds_init hinit hid hcell hobjs mem
  exact ⟨h1, h2, h3, h4⟩

/-- What holds of the pool at the start and survives every step under a condition holds in every state reached. -/
theorem reaches_orderly {meets : SlabSys → SlabAct → Prop} {K : SlabSys → Pool → Prop} {s₀ : SlabSys} {p₀ : Pool}
    (h0 : Orderly s₀ p₀) (hK0 : K s₀ p₀) (hallowed : ∀ s a, meets s a → Allowed s a)
    (hK : ∀ s s' a p q, meets s a → StepEffect s s' a p q → K s p → K s' q) (hr : Reaches step meets s₀ s) :
    ∃ p, Orderly s p ∧ SameShape s₀.cache s.cache ∧ K s p := by
  refine hr.invariant (fun s => ∃ p, Orderly s p ∧ SameShape s₀.cache s.cache ∧ K s p) ⟨p₀, h0, .refl _, hK0⟩ ?_
  rintro s a s' ⟨p, hord, hshape, hk⟩ hm hs
  obtain ⟨s1, q, hs1, heff⟩ := step_effect hord (hallowed s a hm)
  obtain rfl : s1 = s' := Except.ok.inj (hs1.symm.trans hs)
  exact ⟨q, heff.orderly, hshape.trans heff.shape, hK _ _ _ _ _ hm heff hk⟩

/-- The lists, the chains and the objects of a cache in order. -/
structure CacheSafe (s : SlabSys) (fs ps us : List Nat) : Prop where
  frees : Spells (slabLinks s.mem) 0 s.cache.freeSlabs fs
  partials : Spells (slabLinks s.mem) 0 s.cache.partialSlabs ps
  fulls : Spells (slabLinks s.mem) 0 s.cache.fullSlabs us
  once : (fs ++ (ps ++ us)).Nodup ∧ (fs ++ (ps ++ us)).Perm s.slabs
  onFrees : ∀ t ∈ fs, header .freeCount s.mem t = s.cache.objsPerSlab
  onPartials : ∀ t ∈ ps, 0 < header .freeCount s.mem t ∧ header .freeCount s.mem t < s.cache.objsPerSlab
  onFulls : ∀ t ∈ us, header .freeCount s.mem t = 0
  chains : ∀ t ∈ s.slabs, ∃ chain, SlabRep s.cache.objCellSize s.mem t chain ∧ chain.Nodup ∧
    ∀ i ∈ chain, i < s.cache.objsPerSlab
  objects : s.live.Pairwise (fun o o' => o + s.cache.objCellSize ≤ o' ∨ o' + s.cache.objCellSize ≤ o)

theorem Orderly.cacheSafe {p : Pool} (h : Orderly s p) : CacheSafe s p.frees p.partials p.fulls := by
  have hcount : ∀ t ∈ p.slabs, header .freeCount s.mem t = (p.chain t).length := fun t ht => (h.rep.slab t ht).count
  refine ⟨h.rep.frees, h.rep.partials, h.rep.fulls, ⟨h.ok.nodup, h.perm⟩, fun t ht => ?_, fun t ht => ?_, fun t ht => ?_,
    fun t ht => ?_, ?_⟩
  · rw [hcount t (Pool.mem_slabs.mpr (.inl ht))]
    exact h.ok.onFrees t ht
  · rw [hcount t (Pool.mem_slabs.mpr (.inr (.inl ht)))]
    exact h.ok.onPartials t ht
  · rw [hcount t (Pool.mem_slabs.mpr (.inr (.inr ht))), h.ok.onFulls t ht]
    rfl
  · have htp : t ∈ p.slabs := h.perm.mem_iff.mpr ht
    exact ⟨p.chain t, h.rep.slab t htp, h.ok.distinct t htp, h.ok.inRange t htp⟩
  · refine h.nodup.imp_of_mem (fun ho ho' hne => ?_)
    exact Holds.disjoint h ho ho' hne

/-- **Slab cache safety.** In every state a cache reaches: every slab is on exactly one of the three lists, the one
    its `free_count` says; the lists are well-formed; each chain has `free_count` distinct cells in range; live
    objects are disjoint. Every further allowed call returns, changes no byte of an object that stays live, and
    `slab_alloc` returns a cell that is not live. -/
theorem slab_cache_safe (hinit : slabCacheInit objSize objAlign cacheId vmzone = .ok cache) (hid : cacheId < 2 ^ 16)
    (hcell : 8 ≤ cache.objCellSize) (hobjs : 2 ≤ cache.objsPerSlab)
    (hr : Reaches step Allowed (.boot cache mem) s) :
    (∃ frees partials fulls, CacheSafe s frees partials fulls) ∧
    ∀ a, Allowed s a → ∃ s', step s a = .ok s' ∧
      ((∀ addr byte, a ≠ .write addr byte) → ∀ o ∈ s.live, o ∈ s'.live → ∀ x,
        ObjByte s.cache.objCellSize o x → s'.mem x = s.mem x) ∧
      ∀ b, a = .alloc b → ∃ obj, s'.live = obj :: s.live ∧ obj ∉ s.live ∧
        ∃ t ∈ s'.slabs, ∃ i < s.cache.objsPerSlab, obj = cellAddr s.cache.objCellSize t i := by
  obtain ⟨h0, -⟩ := boot_orderly hinit hid hcell hobjs mem
  obtain ⟨p, hord, -, -⟩ := reaches_orderly (K := fun _ _ => True) h0 trivial (fun _ _ h => h)
    (fun _ _ _ _ _ _ _ _ => trivial) hr
  refine ⟨⟨_, _, _, hord.cacheSafe⟩, fun a ha => ?_⟩
  obtain ⟨s', q, hs', heff⟩ := step_effect hord ha
  refine ⟨s', hs', heff.keeps, fun b hb => ?_⟩
  obtain ⟨obj, hlive⟩ := heff.gains b hb
  have hnodup := heff.orderly.nodup
  rw [hlive] at hnodup
  obtain ⟨t, i, ht, hi, -, hobj⟩ := (heff.orderly.mem_live obj).mp (hlive ▸ List.mem_cons_self)
  rw [heff.shape.objs] at hi
  rw [heff.shape.cell] at hobj
  exact ⟨obj, hlive, (List.nodup_cons.mp hnodup).1, t, heff.orderly.perm.mem_iff.mp ht, i, hi, hobj⟩

end Runs

/-- Two slabs of four cells, two objects out and the second one given back. -/
def twoSlabs : List SlabAct :=
  [.reserve 8 [0x2000, 0x4000], .alloc 0, .alloc 0, .write 0x4018 7, .free 0x4810]

/-- The cache of a sample run has room for a pointer in every cell and for two cells in a slab. -/
def roomy (cache : KmemCache) : Bool := decide (8 ≤ cache.objCellSize) && decide (2 ≤ cache.objsPerSlab)

theorem slab_cache_safe_two_slabs :
    ∃ cache s, slabCacheInit 2040 8 0 3 = .ok cache ∧ s.live = [0x4018] ∧
      ∃ frees partials fulls, CacheSafe s frees partials fulls := by
  obtain ⟨cache, s, hinit, hr, hpost⟩ := exists_of_sample (slabCacheInit 2040 8 0 3) (SlabSys.boot · (fun _ => 0)) step
    (fun s a => decide (Allowed s a)) twoSlabs (fun cache s => roomy cache && decide (s.live = [0x4018]))
    (fun _ _ h => of_decide_eq_true h) (by decide +kernel)
  simp only [roomy, Bool.and_eq_true, decide_eq_true_eq] at hpost
  exact ⟨cache, s, hinit, hpost.2, (slab_cache_safe hinit (by decide) hpost.1.1 hpost.1.2 hr).1⟩

/-! ## Counters -/

section Counters

variable {objSize objAlign cacheId vmzone : Nat} {cache : KmemCache} {mem : Mem} {s : SlabSys}

/-- Every list counter is the length of its list, as far as a `u16_t` can say. -/
structure ListsCounted (s : SlabSys) (fs ps us : List Nat) : Prop where
  frees : fs.length < 2 ^ 16 → s.cache.totalFreeSlabs = fs.length
  partials : ps.length < 2 ^ 16 → s.cache.totalPartialSlabs = ps.length
  fulls : us.length < 2 ^ 16 → s.cache.totalFullSlabs = us.length

/-- **The list counters.** In every run that preallocates no slab and empties none by a free, the counters are the
    lengths of the lists the heads spell. -/
theorem list_counters_exact (hinit : slabCacheInit objSize objAlign cacheId vmzone = .ok cache)
    (hid : cacheId < 2 ^ 16) (hcell : 8 ≤ cache.objCellSize) (hobjs : 2 ≤ cache.objsPerSlab)
    (hr : Reaches step (fun s a => Allowed s a ∧ KeepsListCounts s a) (.boot cache mem) s) :
    ∃ frees partials fulls, Spells (slabLinks s.mem) 0 s.cache.freeSlabs frees ∧
      Spells (slabLinks s.mem) 0 s.cache.partialSlabs partials ∧ Spells (slabLinks s.mem) 0 s.cache.fullSlabs fulls ∧
      ListsCounted s frees partials fulls := by
  obtain ⟨h0, hc0, -, -⟩ := boot_orderly hinit hid hcell hobjs mem
  obtain ⟨p, hord, -, hc⟩ := reaches_orderly (K := fun s p => Counted s.cache p) h0 hc0 (fun _ _ h => h.1)
    (fun _ _ _ _ _ hm heff => heff.counted hm.2) hr
  refine ⟨p.frees, p.partials, p.fulls, hord.rep.frees, hord.rep.partials, hord.rep.fulls, fun h => ?_, fun h => ?_,
    fun h => ?_⟩
  · exact hc.frees.trans (Nat.mod_eq_of_lt h)
  · exact hc.partials.trans (Nat.mod_eq_of_lt h)
  · exact hc.fulls.trans (Nat.mod_eq_of_lt h)

theorem list_counters_exact_two_slabs :
    ∃ cache s, slabCacheInit 2040 8 0 3 = .ok cache ∧ s.live = [0x4018] ∧
      ∃ frees partials fulls, Spells (slabLinks s.mem) 0 s.cache.freeSlabs frees ∧
        Spells (slabLinks s.mem) 0 s.cache.partialSlabs partials ∧
        Spells (slabLinks s.mem) 0 s.cache.fullSlabs fulls ∧ ListsCounted s frees partials fulls := by
  obtain ⟨cache, s, hinit, hr, hpost⟩ := exists_of_sample (slabCacheInit 2040 8 0 3) (SlabSys.boot · (fun _ => 0)) step
    (fun s a => decide (Allowed s a ∧ KeepsListCounts s a)) twoSlabs
    (fun cache s => roomy cache && decide (s.live = [0x4018])) (fun _ _ h => of_decide_eq_true h) (by decide +kernel)
  simp only [roomy, Bool.and_eq_true, decide_eq_true_eq] at hpost
  exact ⟨cache, s, hinit, hpost.2, list_counters_exact hinit (by decide) hpost.1.1 hpost.1.2 hr⟩

/-- A preallocated slab is on `free_slabs` and not in `total_free_slabs`; and a free that empties a slab leaves
    `total_full_slabs` below zero. -/
theorem list_counters_off :
    (∃ cache s, slabCacheInit 2040 8 0 3 = .ok cache ∧ 2 ≤ cache.objsPerSlab ∧
      Reaches step Allowed (.boot cache (fun _ => 0)) s ∧
      ¬ ∃ frees, Spells (slabLinks s.mem) 0 s.cache.freeSlabs frees ∧ s.cache.totalFreeSlabs = frees.length) ∧
    (∃ cache s, slabCacheInit 2040 8 0 3 = .ok cache ∧ 2 ≤ cache.objsPerSlab ∧
      Reaches step Allowed (.boot cache (fun _ => 0)) s ∧
      ¬ ∃ fulls, Spells (slabLinks s.mem) 0 s.cache.fullSlabs fulls ∧ s.cache.totalFullSlabs = fulls.length) := by
  refine ⟨?_, ?_⟩
  · obtain ⟨cache, s, hinit, hr, hpost⟩ := exists_of_sample (slabCacheInit 2040 8 0 3) (SlabSys.boot · (fun _ => 0))
      step (fun s a => decide (Allowed s a)) [.prealloc 0x2000 1]
      (fun cache s => decide (2 ≤ cache.objsPerSlab ∧ s.cache.freeSlabs = 0x2000 ∧ s.cache.totalFreeSlabs = 0))
      (fun _ _ h => of_decide_eq_true h) (by decide +kernel)
    obtain ⟨hobjs, hhead, hcount⟩ := of_decide_eq_true hpost
    refine ⟨cache, s, hinit, hobjs, hr, ?_⟩
    rintro ⟨frees, hspells, hlen⟩
    have hnil : frees = [] := List.length_eq_zero_iff.mp (hlen.symm.trans hcount)
    have hzero := hspells.head_eq_null_iff.mpr hnil
    rw [hhead] at hzero
    exact absurd hzero (by decide)
  · obtain ⟨cache, s, hinit, hr, hpost⟩ := exists_of_sample (slabCacheInit 2040 8 0 3) (SlabSys.boot · (fun _ => 0))
      step (fun s a => decide (Allowed s a)) [.reserve 4 [0x2000], .alloc 0, .free 0x2018]
      (fun cache s => decide (2 ≤ cache.objsPerSlab ∧ s.cache.fullSlabs = 0 ∧ s.cache.totalFullSlabs = 65535))
      (fun _ _ h => of_decide_eq_true h) (by decide +kernel)
    obtain ⟨hobjs, hhead, hcount⟩ := of_decide_eq_true hpost
    refine ⟨cache, s, hinit, hobjs, hr, ?_⟩
    rintro ⟨fulls, hspells, hlen⟩
    have hnil := hspells.head_eq_null_iff.mp hhead
    rw [hcount, hnil] at hlen
    exact absurd hlen (by decide)

/-- The free cells of all slabs, as their headers count them. -/
def freeCountSum (s : SlabSys) : Nat := (s.slabs.map (header .freeCount s.mem)).sum

theorem Orderly.freeCountSum_eq {p : Pool} (h : Orderly s p) : freeCountSum s = p.freeCells := by
  have hmap : p.slabs.map (fun t => (p.chain t).length) = p.slabs.map (header .freeCount s.mem) :=
    List.map_congr_left (fun t ht => (h.rep.slab t ht).count.symm)
  unfold Pool.freeCells freeCountSum
  rw [hmap]
  exact ((h.perm.map _).sum_eq).symm

/-- An allocation that finds a slab finds a free cell. -/
theorem Orderly.freeCells_pos {p : Pool} (h : Orderly s p) (hno : ¬ MustCreate s.cache) : 0 < p.freeCells := by
  obtain ⟨_, _, _, q, _, _, _, _, _, hcells⟩ := Holds.alloc h (b := 0) (fun hm => absurd hm hno)
  have := hcells hno
  omega

/-- `total_free_objects` and `allocated_objects` count the free cells and the live objects, as far as a `u32_t`
    can say, so `__freespace_check` sees the number of free nodes; a free cell is there to be counted down at every
    allocation, and a live object at every free. -/
structure ObjectsCounted (s : SlabSys) : Prop where
  free : freeCountSum s < 2 ^ 32 → s.cache.totalFreeObjects = freeCountSum s
  allocated : s.live.length < 2 ^ 32 → s.cache.allocatedObjects = s.live.length
  freePos : ¬ MustCreate s.cache → 0 < freeCountSum s
  allocatedPos : ∀ ptr ∈ s.live, 0 < s.live.length
  threshold : freeCountSum s < 2 ^ 32 →
    (s.cache.totalFreeObjects < freelistExpansionThreshold ↔ freeCountSum s < freelistExpansionThreshold)

/-- **The object counters.** In every run in which no allocation has to create a slab, `total_free_objects` is the
    sum of the free counts and `allocated_objects` the number of live objects. -/
theorem free_objects_exact (hinit : slabCacheInit objSize objAlign cacheId vmzone = .ok cache)
    (hid : cacheId < 2 ^ 16) (hcell : 8 ≤ cache.objCellSize) (hobjs : 2 ≤ cache.objsPerSlab)
    (hr : Reaches step (fun s a => Allowed s a ∧ KeepsFreeObjects s a) (.boot cache mem) s) : ObjectsCounted s := by
  obtain ⟨h0, -, hb0, ha0⟩ := boot_orderly hinit hid hcell hobjs mem
  obtain ⟨p, hord, -, hb, ha⟩ := reaches_orderly (K := fun s p => Balanced s.cache p ∧ AllocatedExact s) h0
    ⟨hb0, ha0⟩ (fun _ _ h => h.1) (fun _ _ _ _ _ hm heff hk => ⟨heff.balanced hm.2 hk.1, heff.allocated hk.2⟩) hr
  have hsum := hord.freeCountSum_eq
  have hfree : freeCountSum s < 2 ^ 32 → s.cache.totalFreeObjects = freeCountSum s := by
    intro hlt
    rw [hsum] at hlt ⊢
    exact Eq.trans hb (Nat.mod_eq_of_lt hlt)
  refine ⟨hfree, fun hlt => Eq.trans ha (Nat.mod_eq_of_lt hlt), fun hno => ?_, fun ptr hp => List.length_pos_of_mem hp,
    fun hlt => by rw [hfree hlt]⟩
  rw [hsum]
  exact hord.freeCells_pos hno

theorem free_objects_exact_two_slabs :
    ∃ cache s, slabCacheInit 2040 8 0 3 = .ok cache ∧ s.live = [0x4018] ∧ ObjectsCounted s := by
  obtain ⟨cache, s, hinit, hr, hpost⟩ := exists_of_sample (slabCacheInit 2040 8 0 3) (SlabSys.boot · (fun _ => 0)) step
    (fun s a => decide (Allowed s a ∧ KeepsFreeObjects s a)) twoSlabs
    (fun cache s => roomy cache && decide (s.live = [0x4018])) (fun _ _ h => of_decide_eq_true h) (by decide +kernel)
  simp only [roomy, Bool.and_eq_true, decide_eq_true_eq] at hpost
  exact ⟨cache, s, hinit, hpost.2, free_objects_exact hinit (by decide) hpost.1.1 hpost.1.2 hr⟩

/-- The first allocation of an empty cache creates a slab of four cells and counts `total_free_objects` down from
    zero: three nodes are free, and `__freespace_check` sees more than four thousand million. -/
theorem created_slab_not_counted :
    ∃ cache s, slabCacheInit 2040 8 0 3 = .ok cache ∧ Reaches step Allowed (.boot cache (fun _ => 0)) s ∧
      s.cache.totalFreeObjects = 2 ^ 32 - 1 ∧ freeCountSum s = 3 ∧
      ¬ (s.cache.totalFreeObjects < freelistExpansionThreshold ↔ freeCountSum s < freelistExpansionThreshold) := by
  obtain ⟨cache, s, hinit, hr, hpost⟩ := exists_of_sample (slabCacheInit 2040 8 0 3) (SlabSys.boot · (fun _ => 0)) step
    (fun s a => decide (Allowed s a)) [.alloc 0x2000]
    (fun _ s => decide (s.cache.totalFreeObjects = 2 ^ 32 - 1 ∧ freeCountSum s = 3))
    (fun _ _ h => of_decide_eq_true h) (by decide +kernel)
  obtain ⟨hfree, hsum⟩ := of_decide_eq_true hpost
  refine ⟨cache, s, hinit, hr, hfree, hsum, ?_⟩
  rw [hfree, hsum]
  decide

end Counters

end LearningOS.Slab
