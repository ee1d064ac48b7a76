import LearningOS.Mm.Slab.Free

/-!
# `Mm.Slab.Objects` — a cache together with the objects its clients hold

`Holds c mem p slabs live`: the cache represents a pool in order, its slabs are `slabs`, and the live objects are
exactly the cells that are not free. Each operation is shown once to take such a state to such a state, with the
bytes it may change; whoever runs a cache (one of them here, ten of them in `kmalloc`) builds on these lemmas.
-/

namespace LearningOS.Slab

open Word Run Bytes Linked

/-- The bytes of an object: its whole cell. -/
def ObjByte (cell obj x : Nat) : Prop := obj ≤ x ∧ x < obj + cell

/-- A cell of one of the slabs that is not on its slab's chain. -/
def UsedCell (c : KmemCache) (p : Pool) (obj : Nat) : Prop :=
  ∃ t i, t ∈ p.slabs ∧ i < c.objsPerSlab ∧ i ∉ p.chain t ∧ obj = cellAddr c.objCellSize t i

/-- A cache in order, with its slabs and its live objects. -/
structure Holds (c : KmemCache) (mem : Mem) (p : Pool) (slabs live : List Nat) : Prop where
  geometry : Geometry c
  ok : p.Ok c.objsPerSlab
  rep : Represents c mem p
  perm : p.slabs.Perm slabs
  nodup : live.Nodup
  mem_live : ∀ obj, obj ∈ live ↔ UsedCell c p obj

section Cells

variable {c : KmemCache} {mem : Mem} {p : Pool} {slabs live : List Nat}

/-- A cell determines its slab and its index. -/
theorem cell_inj (g : Geometry c) {s t i j : Nat} (hs : SlabAddr s) (ht : SlabAddr t) (hi : i < c.objsPerSlab)
    (hj : j < c.objsPerSlab) (h : cellAddr c.objCellSize s i = cellAddr c.objCellSize t j) : s = t ∧ i = j := by
  have hcell := g.cell
  obtain ⟨hlo, hhi⟩ := cellAddr_bounds (s := s) g.fits hi
  obtain ⟨hlo', hhi'⟩ := cellAddr_bounds (s := t) g.fits hj
  have hst : s = t := by
    rw [← slabOf_eq (x := cellAddr c.objCellSize s i) hs (by omega) (by omega), h]
    exact slabOf_eq ht (by omega) (by omega)
  subst hst
  refine ⟨rfl, ?_⟩
  rw [← cellIndex_cellAddr hs (by omega) g.fits hi, h]
  exact cellIndex_cellAddr hs (by omega) g.fits hj

/-- Two different cells share no byte. -/
theorem cells_disjoint (g : Geometry c) {s t i j : Nat} (hs : SlabAddr s) (ht : SlabAddr t) (hi : i < c.objsPerSlab)
    (hj : j < c.objsPerSlab) (h : cellAddr c.objCellSize s i ≠ cellAddr c.objCellSize t j) :
    cellAddr c.objCellSize s i + c.objCellSize ≤ cellAddr c.objCellSize t j ∨
    cellAddr c.objCellSize t j + c.objCellSize ≤ cellAddr c.objCellSize s i := by
  obtain ⟨hlo, hhi⟩ := cellAddr_bounds (s := s) g.fits hi
  obtain ⟨hlo', hhi'⟩ := cellAddr_bounds (s := t) g.fits hj
  by_cases hst : s = t
  · subst hst
    exact cells_apart c.objCellSize s (fun he => h (by rw [he]))
  · rcases slabs_apart hs.aligned ht.aligned hst with hap | hap
    · exact .inl (by omega)
    · exact .inr (by omega)

theorem Holds.addr (h : Holds c mem p slabs live) : ∀ t ∈ slabs, SlabAddr t :=
  fun t ht => h.rep.addr t (h.perm.mem_iff.mpr ht)

/-- Live objects are apart. -/
theorem Holds.disjoint (h : Holds c mem p slabs live) {o o' : Nat} (ho : o ∈ live) (ho' : o' ∈ live) (hne : o ≠ o') :
    o + c.objCellSize ≤ o' ∨ o' + c.objCellSize ≤ o := by
  obtain ⟨t, i, ht, hi, -, rfl⟩ := (h.mem_live o).mp ho
  obtain ⟨t', i', ht', hi', -, rfl⟩ := (h.mem_live o').mp ho'
  exact cells_disjoint h.geometry (h.rep.addr t ht) (h.rep.addr t' ht') hi hi' hne

/-- The bytes of a live object lie in a slab of the cache, behind its header. -/
theorem Holds.objByte_bounds (h : Holds c mem p slabs live) {o x : Nat} (ho : o ∈ live)
    (hx : ObjByte c.objCellSize o x) : ∃ t ∈ p.slabs, t + 24 ≤ x ∧ x < t + 8192 := by
  obtain ⟨t, i, ht, hi, -, rfl⟩ := (h.mem_live o).mp ho
  obtain ⟨hlo, hhi⟩ := cellAddr_bounds (s := t) h.geometry.fits hi
  obtain ⟨h1, h2⟩ := hx
  exact ⟨t, ht, by omega, by omega⟩

/-- No byte of a live object is in a header. -/
theorem Holds.objByte_not_header (h : Holds c mem p slabs live) {o x : Nat} (ho : o ∈ live)
    (hx : ObjByte c.objCellSize o x) : ∀ u ∈ p.slabs, ¬ (u ≤ x ∧ x < u + 24) := by
  rintro u hu ⟨h3, h4⟩
  obtain ⟨t, ht, h1, h2⟩ := h.objByte_bounds ho hx
  by_cases htu : t = u
  · omega
  · rcases slabs_apart (h.rep.addr t ht).aligned (h.rep.addr u hu).aligned htu with hap | hap
    · omega
    · omega

/-- No byte of a live object is in a slab of another owner. -/
theorem Holds.objByte_not_slab (h : Holds c mem p slabs live) {o x b : Nat} (ho : o ∈ live)
    (hx : ObjByte c.objCellSize o x) (hb : SlabAddr b) (hnew : b ∉ p.slabs) : ¬ SlabByte b x := by
  rintro ⟨h3, h4⟩
  obtain ⟨t, ht, h1, h2⟩ := h.objByte_bounds ho hx
  have htb : t ≠ b := fun he => hnew (he ▸ ht)
  rcases slabs_apart (h.rep.addr t ht).aligned hb.aligned htb with hap | hap
  · omega
  · omega

/-! ## Frame -/

/-- **Frame.** Writing bytes that are not in a slab of the cache, or are in a live object of it, changes nothing
    for the cache. -/
theorem Holds.frame (h : Holds c mem p slabs live) {mem' : Mem}
    (hsame : ∀ x, mem' x ≠ mem x → (∀ t ∈ slabs, ¬ SlabByte t x) ∨ ∃ o ∈ live, ObjByte c.objCellSize o x) :
    Holds c mem' p slabs live := by
  have hcell := h.geometry.cell
  refine ⟨h.geometry, h.ok, h.rep.congr (fun t ht x h1 h2 => ?_) (fun t ht i hi x h1 h2 => ?_), h.perm, h.nodup,
    h.mem_live⟩
  · by_contra hne
    rcases hsame x hne with hout | ⟨o, ho, hx⟩
    · exact hout t (h.perm.mem_iff.mp ht) ⟨h1, by omega⟩
    · exact h.objByte_not_header ho hx t ht ⟨h1, h2⟩
  · by_contra hne
    have hirange := h.ok.inRange t ht i hi
    obtain ⟨hlo, hhi⟩ := cellByte_bounds h.geometry hirange h1 h2
    rcases hsame x hne with hout | ⟨o, ho, hx⟩
    · exact hout t (h.perm.mem_iff.mp ht) ⟨by omega, by omega⟩
    · -- The cell is free and the object is not, so they are apart.
      obtain ⟨u, j, hu, hj, hused, rfl⟩ := (h.mem_live o).mp ho
      obtain ⟨hx1, hx2⟩ := hx
      have hcells : cellAddr c.objCellSize t i ≠ cellAddr c.objCellSize u j := by
        intro he
        obtain ⟨rfl, rfl⟩ := cell_inj h.geometry (h.rep.addr t ht) (h.rep.addr u hu) hirange hj he
        exact hused hi
      rcases cells_disjoint h.geometry (h.rep.addr t ht) (h.rep.addr u hu) hirange hj hcells with hap | hap
      · omega
      · omega

/-- An operation on other slabs changes nothing for the cache. -/
theorem Holds.frame_of_changes (h : Holds c mem p slabs live) {mem' : Mem} {l : List Nat} {extra : Nat → Prop}
    (hbytes : ChangesOnly mem mem' l extra) (hl : ∀ t ∈ l, SlabAddr t ∧ t ∉ slabs)
    (hextra : ∀ x, extra x → ∃ t, SlabAddr t ∧ t ∉ slabs ∧ SlabByte t x) : Holds c mem' p slabs live := by
  refine h.frame (fun x hx => .inl (fun u hu hux => ?_))
  -- The byte that changed lies in a slab that is not one of the cache.
  have hother : ∃ t, SlabAddr t ∧ t ∉ slabs ∧ SlabByte t x := by
    by_contra hcon
    refine hx (hbytes x (fun t ht hb => hcon ⟨t, (hl t ht).1, (hl t ht).2, hb.1, ?_⟩) (fun he => hcon (hextra x he)))
    have := hb.2
    omega
  obtain ⟨t, ht, hnot, h1, h2⟩ := hother
  obtain ⟨h3, h4⟩ := hux
  have hne : t ≠ u := fun he => hnot (he ▸ hu)
  rcases slabs_apart ht.aligned (h.addr u hu).aligned hne with hap | hap
  · omega
  · omega

/-! ## Operations -/

theorem UsedCell.of_shape {c' : KmemCache} (hshape : SameShape c c') {obj : Nat} :
    UsedCell c' p obj ↔ UsedCell c p obj := by
  unfold UsedCell
  rw [hshape.cell, hshape.objs]

/-- **A fresh cache**: `slab_cache_init` with room for two pointers in a slab. -/
theorem holds_init {objSize objAlign cacheId vmzone : Nat} (hinit : slabCacheInit objSize objAlign cacheId vmzone = .ok c)
    (hid : cacheId < 2 ^ 16) (hcell : 8 ≤ c.objCellSize) (hobjs : 2 ≤ c.objsPerSlab) (mem : Mem) :
    Holds c mem .empty [] [] ∧ Counted c .empty ∧ Balanced c .empty ∧ c.allocatedObjects = 0 := by
  have hc : c.objsPerSlab = 8168 / c.objCellSize ∧ c.cacheId = cacheId ∧ c.freeSlabs = 0 ∧ c.partialSlabs = 0 ∧
      c.fullSlabs = 0 ∧ c.totalFreeSlabs = 0 ∧ c.totalPartialSlabs = 0 ∧ c.totalFullSlabs = 0 ∧
      c.allocatedObjects = 0 ∧ c.totalFreeObjects = 0 := by
    unfold slabCacheInit at hinit
    by_cases h0 : (sub64 (objSize + objAlign) 1 &&& not64 (sub64 objAlign 1)) % 2 ^ 16 = 0
    · rw [if_pos h0] at hinit
      cases hinit
    · rw [if_neg h0] at hinit
      cases hinit
      exact ⟨rfl, rfl, rfl, rfl, rfl, rfl, rfl, rfl, rfl, rfl⟩
  obtain ⟨h1, h2, h3, h4, h5, h6, h7, h8, h9, h10⟩ := hc
  have hfits : c.objsPerSlab * c.objCellSize ≤ 8168 := by
    rw [h1]
    exact Nat.div_mul_le_self _ _
  refine ⟨⟨⟨hcell, hobjs, hfits, h2 ▸ hid⟩, Pool.empty_ok _, ⟨?_, ?_, ?_, ?_, ?_, ?_⟩, List.Perm.refl _, List.nodup_nil,
    fun obj => ⟨?_, ?_⟩⟩, ⟨h6, h7, h8⟩, h10, h9⟩
  · intro s hs
    cases hs
  · rw [h3]
    exact Spells.nil _ _
  · rw [h4]
    exact Spells.nil _ _
  · rw [h5]
    exact Spells.nil _ _
  · intro s hs
    cases hs
  · intro s hs
    cases hs
  · intro hm
    cases hm
  · rintro ⟨t, i, ht, -⟩
    cases ht

/-- **New slabs** on `free_slabs` leave the live objects alone. -/
theorem Holds.addFreeSlabs (h : Holds c mem p slabs live) {l : List Nat} (hl : l.Nodup)
    (haddr : ∀ t ∈ l, SlabAddr t) (hfresh : ∀ t ∈ l, t ∉ slabs) :
    ∃ c' mem', Slab.addFreeSlabs c mem l = .ok (c', mem') ∧ SameShape c c' ∧
      Holds c' mem' (p.addAll c.objsPerSlab l) (l.reverse ++ slabs) live ∧
      ChangesOnly mem mem' p.slabs (fun x => ∃ t ∈ l, SlabByte t x) ∧
      c'.totalFreeSlabs = c.totalFreeSlabs ∧ c'.totalPartialSlabs = c.totalPartialSlabs ∧
      c'.totalFullSlabs = c.totalFullSlabs ∧ c'.allocatedObjects = c.allocatedObjects ∧
      (Balanced c p → Balanced c' (p.addAll c.objsPerSlab l)) := by
  have hnew : ∀ t ∈ l, t ∉ p.slabs := fun t ht hm => hfresh t ht (h.perm.mem_iff.mp hm)
  obtain ⟨c', mem', hrun, hshape, hrep, hok, hbytes, h1, h2, h3, h4, hbal⟩ :=
    addFreeSlabs_spec l h.rep h.geometry h.ok hl haddr hnew
  refine ⟨c', mem', hrun, hshape, ⟨hshape.geometry h.geometry, by rw [hshape.objs]; exact hok, hrep, ?_, h.nodup,
    fun obj => ?_⟩, hbytes, h1, h2, h3, h4, hbal⟩
  · rw [Pool.addAll_slabs]
    exact h.perm.append_left _
  · rw [h.mem_live obj, UsedCell.of_shape hshape]
    refine ⟨?_, ?_⟩
    · rintro ⟨t, i, ht, hi, hused, rfl⟩
      refine ⟨t, i, ?_, hi, ?_, rfl⟩
      · rw [Pool.addAll_slabs]
        exact List.mem_append_right _ ht
      · rw [Pool.addAll_chain, if_neg (fun hm => hnew t hm ht)]
        exact hused
    · rintro ⟨t, i, ht, hi, hused, rfl⟩
      rw [Pool.addAll_chain] at hused
      by_cases htl : t ∈ l
      · rw [if_pos htl] at hused
        exact absurd (List.mem_range.mpr hi) hused
      · rw [if_neg htl] at hused
        rw [Pool.addAll_slabs] at ht
        rcases List.mem_append.mp ht with hm | hm
        · exact absurd (List.mem_reverse.mp hm) htl
        · exact ⟨t, i, hm, hi, hused, rfl⟩

/-- **`slab_cache_reserve`** as far as the list counters: it adds the slabs and counts them. -/
theorem Holds.reserve (h : Holds c mem p slabs live) {numObjects : Nat} {vmBlocks : List Nat}
    (hlen : vmBlocks.length = reserveSlabs c.objsPerSlab numObjects) (hnodup : vmBlocks.Nodup)
    (haddr : ∀ t ∈ vmBlocks, SlabAddr t) (hfresh : ∀ t ∈ vmBlocks, t ∉ slabs) :
    ∃ c' mem', slabCacheReserve c mem numObjects vmBlocks = .ok (c', mem') ∧ SameShape c c' ∧
      Holds c' mem' (p.addAll c.objsPerSlab vmBlocks) (vmBlocks.reverse ++ slabs) live ∧
      ChangesOnly mem mem' p.slabs (fun x => ∃ t ∈ vmBlocks, SlabByte t x) ∧
      (Counted c p → Counted c' (p.addAll c.objsPerSlab vmBlocks)) ∧ c'.allocatedObjects = c.allocatedObjects ∧
      (Balanced c p → Balanced c' (p.addAll c.objsPerSlab vmBlocks)) := by
  obtain ⟨c', mem', hrun, hshape, hholds, hbytes, h1, h2, h3, h4, hbal⟩ := h.addFreeSlabs hnodup haddr hfresh
  have hobjs := h.geometry.objs
  obtain ⟨hl1, hl2, hl3⟩ := Pool.addAll_lists (n := c.objsPerSlab) p vmBlocks
  refine ⟨{ c' with totalFreeSlabs := addW 16 c'.totalFreeSlabs vmBlocks.length }, mem', ?_,
    ⟨hshape.cell, hshape.objs, hshape.id⟩, ?_, hbytes, fun hc => ⟨?_, ?_, ?_⟩, h4, fun hb => hbal hb⟩
  · unfold slabCacheReserve
    rw [if_neg (by omega), if_neg (not_not.mpr hlen), hrun, hlen]
    rfl
  · exact ⟨⟨hholds.geometry.cell, hholds.geometry.objs, hholds.geometry.fits, hholds.geometry.id⟩, hholds.ok,
      ⟨hholds.rep.addr, hholds.rep.frees, hholds.rep.partials, hholds.rep.fulls, hholds.rep.slab, hholds.rep.ids⟩,
      hholds.perm, hholds.nodup, hholds.mem_live⟩
  · show addW 16 c'.totalFreeSlabs vmBlocks.length = _
    rw [h1, hc.frees, addW_mod, hl1, List.length_append, List.length_reverse, Nat.add_comm]
  · show c'.totalPartialSlabs = _
    rw [h2, hl2]
    exact hc.partials
  · show c'.totalFullSlabs = _
    rw [h3, hl3]
    exact hc.fulls

/-- Taking the first cell of the slab picked adds it to the used ones. -/
theorem usedCell_take (hok : p.Ok c.objsPerSlab) {b i : Nat} {rest : List Nat}
    (hfresh : p.partials = [] → p.frees = [] → b ∉ p.slabs)
    (hpicked : (p.pick c.objsPerSlab b).2.Picked c.objsPerSlab (p.pick c.objsPerSlab b).1)
    (hchain : (p.pick c.objsPerSlab b).2.chain (p.pick c.objsPerSlab b).1 = i :: rest) (obj : Nat) :
    UsedCell c ((p.pick c.objsPerSlab b).2.take (p.pick c.objsPerSlab b).1) obj ↔
      obj = cellAddr c.objCellSize (p.pick c.objsPerSlab b).1 i ∨ UsedCell c p obj := by
  have hmem := hpicked.mem_slabs
  have hperm := Pool.take_slabs hpicked.mem
  have hrange := hpicked.inRange _ hmem
  have hdistinct := hpicked.distinct _ hmem
  have htake : ∀ t, ((p.pick c.objsPerSlab b).2.take (p.pick c.objsPerSlab b).1).chain t =
      if t = (p.pick c.objsPerSlab b).1 then rest else (p.pick c.objsPerSlab b).2.chain t := by
    intro t
    rw [Pool.take_chain, hchain]
    rfl
  rw [hchain] at hrange hdistinct
  refine ⟨?_, ?_⟩
  · rintro ⟨t, j, ht, hj, hused, rfl⟩
    rw [htake] at hused
    have htq : t ∈ (p.pick c.objsPerSlab b).2.slabs := hperm.mem_iff.mp ht
    by_cases hcase : t = (p.pick c.objsPerSlab b).1 ∧ j = i
    · rw [hcase.1, hcase.2]
      exact .inl rfl
    · refine .inr ?_
      have hnot : j ∉ (p.pick c.objsPerSlab b).2.chain t := by
        by_cases hts : t = (p.pick c.objsPerSlab b).1
        · rw [if_pos hts] at hused
          rw [hts, hchain]
          exact fun hm => (List.mem_cons.mp hm).elim (fun hji => hcase ⟨hts, hji⟩) hused
        · rw [if_neg hts] at hused
          exact hused
      rcases Pool.mem_pick_slabs htq with hold | ⟨rfl, hp, hf⟩
      · rw [(Pool.pick_chain hold hfresh).1] at hnot
        exact ⟨t, j, hold, hj, hnot, rfl⟩
      · rw [(Pool.pick_created hp hf).2] at hnot
        exact absurd (List.mem_range.mpr hj) hnot
  · rintro (rfl | ⟨t, j, ht, hj, hused, rfl⟩)
    · refine ⟨_, i, hperm.mem_iff.mpr hmem, hrange i List.mem_cons_self, ?_, rfl⟩
      rw [htake, if_pos rfl]
      exact (List.nodup_cons.mp hdistinct).1
    · obtain ⟨hsame, htq⟩ := Pool.pick_chain (n := c.objsPerSlab) ht hfresh
      refine ⟨t, j, hperm.mem_iff.mpr htq, hj, ?_, rfl⟩
      rw [htake]
      by_cases hts : t = (p.pick c.objsPerSlab b).1
      · rw [if_pos hts]
        rw [← hsame, hts, hchain] at hused
        exact fun hm => hused (List.mem_cons_of_mem _ hm)
      · rw [if_neg hts, hsame]
        exact hused

/-- No slab with a free cell is at hand. -/
def MustCreate (c : KmemCache) : Prop := c.partialSlabs = 0 ∧ c.freeSlabs = 0

instance (c : KmemCache) : Decidable (MustCreate c) := inferInstanceAs (Decidable (_ ∧ _))

theorem Holds.mustCreate_iff (h : Holds c mem p slabs live) : MustCreate c ↔ p.partials = [] ∧ p.frees = [] := by
  unfold MustCreate
  rw [h.rep.partials.head_eq_null_iff, h.rep.frees.head_eq_null_iff]

/-- **`slab_alloc`** hands out a cell that is not live. -/
theorem Holds.alloc (h : Holds c mem p slabs live) {b : Nat}
    (hfresh : MustCreate c → SlabAddr b ∧ b ∉ slabs) :
    ∃ obj c' mem' q, slabAlloc c mem b = .ok (obj, c', mem') ∧ SameShape c c' ∧
      Holds c' mem' q (if MustCreate c then b :: slabs else slabs) (obj :: live) ∧
      ChangesOnly mem mem' p.slabs (fun x => MustCreate c ∧ SlabByte b x) ∧
      AllocCounts c c' p q ∧ (¬ MustCreate c → q.freeCells + 1 = p.freeCells) := by
  have hiff := h.mustCreate_iff
  have hneeded : FreshIfNeeded p b := fun hp hf =>
    (hfresh (hiff.mpr ⟨hp, hf⟩)).imp id (fun hb hm => hb (h.perm.mem_iff.mp hm))
  have hnew : p.partials = [] → p.frees = [] → b ∉ p.slabs := fun hp hf => (hneeded hp hf).2
  have hobjs := h.geometry.objs
  have hpicked : (p.pick c.objsPerSlab b).2.Picked c.objsPerSlab (p.pick c.objsPerSlab b).1 :=
    Pool.pick_picked h.ok (by omega) hnew
  obtain ⟨i, rest, c', mem', hchain, hrun, hshape, hrep, hok, hbytes, hcounts⟩ :=
    slabAlloc_spec h.rep h.geometry h.ok hneeded
  have hused := usedCell_take h.ok hnew hpicked hchain
  refine ⟨_, c', mem', _, hrun, hshape, ⟨hshape.geometry h.geometry, by rw [hshape.objs]; exact hok, hrep, ?_, ?_, ?_⟩,
    fun x hx hextra => hbytes x hx (fun hb => hextra ⟨hiff.mpr ⟨hb.1, hb.2.1⟩, hb.2.2⟩), hcounts, fun hno => ?_⟩
  · refine (Pool.take_slabs hpicked.mem).trans ((Pool.pick_slabs_perm p b).trans ?_)
    by_cases hmust : MustCreate c
    · rw [if_pos hmust, if_pos (hiff.mp hmust)]
      exact h.perm.cons b
    · rw [if_neg hmust, if_neg (fun hh => hmust (hiff.mpr hh))]
      exact h.perm
  · refine List.nodup_cons.mpr ⟨fun hm => ?_, h.nodup⟩
    -- A live cell is on no chain, and the one handed out was.
    obtain ⟨t, j, ht, hj, hnot, heq⟩ := (h.mem_live _).mp hm
    obtain ⟨hsame, htq⟩ := Pool.pick_chain (n := c.objsPerSlab) ht hnew
    have hsq := hpicked.mem_slabs
    have hsaddr : SlabAddr (p.pick c.objsPerSlab b).1 := by
      rcases Pool.mem_pick_slabs hsq with hold | ⟨heq, hp, hf⟩
      · exact h.rep.addr _ hold
      · rw [heq]
        exact (hneeded hp hf).1
    have hir : i < c.objsPerSlab := hpicked.inRange _ hsq i (hchain ▸ List.mem_cons_self)
    obtain ⟨h1, h2⟩ := cell_inj h.geometry hsaddr (h.rep.addr t ht) hir hj heq
    rw [← hsame, ← h1, ← h2, hchain] at hnot
    exact hnot List.mem_cons_self
  · intro obj
    rw [List.mem_cons, h.mem_live obj, UsedCell.of_shape hshape, hused obj]
  · have htake := freeCells_take hpicked
    have hhas : p.partials ≠ [] ∨ p.frees ≠ [] := by
      by_contra hcon
      push Not at hcon
      exact hno (hiff.mpr hcon)
    rw [freeCells_pick hhas] at htake
    exact htake

/-- Giving a used cell back takes it from the used ones. -/
theorem usedCell_give (h : Holds c mem p slabs live) {s i : Nat} (hs : s ∈ p.slabs) (hi : i < c.objsPerSlab)
    (hused : i ∉ p.chain s) (obj : Nat) :
    UsedCell c (p.give c.objsPerSlab s i) obj ↔ UsedCell c p obj ∧ obj ≠ cellAddr c.objCellSize s i := by
  have hperm := Pool.give_slabs h.ok hs hi hused
  refine ⟨?_, ?_⟩
  · rintro ⟨t, j, ht, hj, hnot, rfl⟩
    have htp : t ∈ p.slabs := hperm.mem_iff.mp ht
    rw [Pool.give_chain] at hnot
    by_cases hts : t = s
    · rw [if_pos hts] at hnot
      refine ⟨⟨t, j, htp, hj, ?_, rfl⟩, fun he => ?_⟩
      · rw [hts]
        exact fun hm => hnot (List.mem_cons_of_mem _ hm)
      · obtain ⟨-, rfl⟩ := cell_inj h.geometry (h.rep.addr t htp) (h.rep.addr s hs) hj hi he
        exact hnot List.mem_cons_self
    · rw [if_neg hts] at hnot
      refine ⟨⟨t, j, htp, hj, hnot, rfl⟩, fun he => ?_⟩
      exact hts (cell_inj h.geometry (h.rep.addr t htp) (h.rep.addr s hs) hj hi he).1
  · rintro ⟨⟨t, j, ht, hj, hnot, rfl⟩, hne⟩
    refine ⟨t, j, hperm.mem_iff.mpr ht, hj, ?_, rfl⟩
    rw [Pool.give_chain]
    by_cases hts : t = s
    · rw [if_pos hts]
      intro hm
      rcases List.mem_cons.mp hm with hji | hm
      · exact hne (by rw [hts, hji])
      · exact hnot (hts ▸ hm)
    · rw [if_neg hts]
      exact hnot

/-- **`slab_free`** of a live object. -/
theorem Holds.free (h : Holds c mem p slabs live) {ptr : Nat} (hptr : ptr ∈ live) :
    ∃ s c' mem' q, slabFree c mem ptr = (c', mem') ∧ SameShape c c' ∧ s ∈ p.slabs ∧ slabOf ptr = s ∧
      Holds c' mem' q slabs (live.erase ptr) ∧ ChangesOnly mem mem' p.slabs (ObjByte c.objCellSize ptr) ∧
      FreeCounts c c' p q s ∧ q.freeCells = p.freeCells + 1 := by
  obtain ⟨s, i, hs, hi, hused, rfl⟩ := (h.mem_live ptr).mp hptr
  have hcell := h.geometry.cell
  obtain ⟨c', mem', hrun, hshape, hrep, hbytes, hcounts⟩ := slabFree_spec h.rep h.geometry h.ok hs hi hused
  obtain ⟨hlo, hhi⟩ := cellAddr_bounds (s := s) h.geometry.fits hi
  refine ⟨s, c', mem', p.give c.objsPerSlab s i, hrun, hshape, hs, slabOf_eq (h.rep.addr s hs) (by omega) (by omega),
    ⟨hshape.geometry h.geometry, ?_, hrep, ?_, h.nodup.erase _, fun obj => ?_⟩, fun x hx hextra => ?_, hcounts,
    freeCells_give h.ok hs hi hused⟩
  · rw [hshape.objs]
    exact Pool.give_ok h.ok h.geometry.objs hs hi hused
  · exact (Pool.give_slabs h.ok hs hi hused).trans h.perm
  · rw [h.nodup.mem_erase_iff, h.mem_live obj, UsedCell.of_shape hshape, usedCell_give h hs hi hused obj]
    exact and_comm
  · refine hbytes x hx (fun hb => hextra ⟨hb.1, ?_⟩)
    have := hb.2
    omega

end Cells

end LearningOS.Slab
