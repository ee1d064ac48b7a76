import LearningOS.Mm.Slab.Alloc

/-!
# `Mm.Slab.Free` — `slab_free` on a represented pool

Freeing puts the object in front of its slab's chain (`putBack`) and then moves the slab if it was full or is
wholly free now. The move off `full_slabs` adjusts the list counters as the lists change; the move to
`free_slabs` adjusts the same two counters, which are not those of the lists it changes.
-/

namespace LearningOS.Slab

open Word Run Bytes Linked

section Free

variable {c : KmemCache} {mem : Mem} {p : Pool} {s : Nat}

/-- The memory after an object was put in front of its slab's chain. -/
def putBack (c : KmemCache) (mem : Mem) (s ptr : Nat) : Mem :=
  let m1 := setNextFree mem ptr
    (if header .freeCount mem s = 0 then 0 else cellAddr c.objCellSize s (header .firstFreeIdx mem s))
  let m2 := setHeader .firstFreeIdx m1 s (cellIndex c.objCellSize s ptr)
  setHeader .freeCount m2 s (addW 16 (header .freeCount m2 s) 1)

/-- The number of free cells `slab_free` finds in the header. -/
def foundCount (c : KmemCache) (mem : Mem) (s ptr : Nat) : Nat :=
  header .freeCount (setHeader .firstFreeIdx (setNextFree mem ptr
    (if header .freeCount mem s = 0 then 0 else cellAddr c.objCellSize s (header .firstFreeIdx mem s))) s
    (cellIndex c.objCellSize s ptr)) s

theorem putBack_frame {ptr x : Nat} (h1 : x < s + 16 ∨ s + 20 ≤ x) (h2 : x < ptr ∨ ptr + 8 ≤ x) :
    putBack c mem s ptr x = mem x := by
  unfold putBack
  rw [setCount_frame (.inr rfl) h1, setCount_frame (.inl rfl) h1]
  exact store_frame h2 mem _

theorem chainPtr_lt (g : Geometry c) (hs : SlabAddr s) {l : List Nat} (hr : ∀ i ∈ l, i < c.objsPerSlab) :
    chainPtr c.objCellSize s l < 2 ^ 64 := by
  cases l with
  | nil => exact Nat.two_pow_pos 64
  | cons i l =>
      obtain ⟨hlo, hhi⟩ := cellAddr_bounds (s := s) g.fits (hr i List.mem_cons_self)
      have hfits := hs.fits
      have hcell := g.cell
      show cellAddr c.objCellSize s i < 2 ^ 64
      omega

/-- The object becomes the first cell of the chain. -/
theorem putBack_slabRep (g : Geometry c) (hs : SlabAddr s) {i : Nat} {l : List Nat} (hi : i < c.objsPerSlab)
    (hr : ∀ j ∈ l, j < c.objsPerSlab) (hd : l.Nodup) (hused : i ∉ l) (h : SlabRep c.objCellSize mem s l) :
    SlabRep c.objCellSize (putBack c mem s (cellAddr c.objCellSize s i)) s (i :: l) ∧
    foundCount c mem s (cellAddr c.objCellSize s i) = l.length := by
  have hobjs := g.objs_lt
  have hcell := g.cell
  obtain ⟨hlo, hhi⟩ := cellAddr_bounds (s := s) g.fits hi
  have hlen : (i :: l).length ≤ c.objsPerSlab := by
    refine length_le_of_inRange (List.nodup_cons.mpr ⟨hused, hd⟩) (fun j hj => ?_)
    rcases List.mem_cons.mp hj with rfl | hj
    · exact hi
    · exact hr j hj
  rw [List.length_cons] at hlen
  -- The pointer stored in the cell is the one to the old chain.
  have hptr : (if header .freeCount mem s = 0 then 0 else cellAddr c.objCellSize s (header .firstFreeIdx mem s)) =
      chainPtr c.objCellSize s l := by
    cases l with
    | nil =>
        have hzero : header .freeCount mem s = 0 := h.count
        rw [if_pos hzero]
        rfl
    | cons j l =>
        rw [if_neg (by rw [h.count]; exact Nat.succ_ne_zero _), h.first j rfl]
        rfl
  have hindex : cellIndex c.objCellSize s (cellAddr c.objCellSize s i) = i :=
    cellIndex_cellAddr hs (by omega) g.fits hi
  let m1 := setNextFree mem (cellAddr c.objCellSize s i) (chainPtr c.objCellSize s l)
  let m2 := setHeader .firstFreeIdx m1 s i
  have hm1 : ∀ f, header f m1 s = header f mem s := by
    intro f
    have := header_fits f
    exact header_congr (fun x h1 h2 => store_frame (.inl (by omega)) mem _)
  have hm2 : ∀ f, header f m2 s = if f = .firstFreeIdx ∧ s = s then i else header f m1 s := by
    intro f
    refine header_setHeader hs.aligned hs.aligned ?_ m1
    show i < 2 ^ 16
    omega
  have hcount : header .freeCount m2 s = l.length := by
    rw [hm2, if_neg (fun h => by cases h.1), hm1, h.count]
  have hput : putBack c mem s (cellAddr c.objCellSize s i) = setHeader .freeCount m2 s (l.length + 1) := by
    unfold putBack
    rw [hptr, hindex]
    show setHeader .freeCount m2 s (addW 16 (header .freeCount m2 s) 1) = _
    rw [hcount, addW_of_lt (by omega)]
  have hm3 : ∀ f, header f (setHeader .freeCount m2 s (l.length + 1)) s =
      if f = .freeCount ∧ s = s then l.length + 1 else header f m2 s := by
    intro f
    refine header_setHeader hs.aligned hs.aligned ?_ m2
    show l.length + 1 < 2 ^ 16
    omega
  unfold foundCount
  rw [hptr, hindex]
  refine ⟨⟨?_, fun j hj => ?_, ?_, h.chained.congr (fun j hj x h1 h2 => ?_)⟩, hcount⟩
  · rw [hput, hm3, if_pos ⟨rfl, rfl⟩, List.length_cons]
  · rw [hput, hm3, if_neg (fun h => by cases h.1), hm2, if_pos ⟨rfl, rfl⟩]
    exact Option.some.inj hj
  · rw [hput]
    have hkeep : nextFree (setHeader .freeCount m2 s (l.length + 1)) (cellAddr c.objCellSize s i) =
        nextFree m1 (cellAddr c.objCellSize s i) := by
      refine load_congr (fun x h1 h2 => ?_)
      have hx : x < s + 16 ∨ s + 20 ≤ x := .inr (by omega)
      rw [setCount_frame (.inr rfl) hx]
      exact setCount_frame (.inl rfl) hx m1 i
    rw [hkeep]
    exact load_store (chainPtr_lt g hs hr) mem _
  · obtain ⟨hlo', hhi'⟩ := cellByte_bounds g (hr j hj) h1 h2
    refine putBack_frame (.inr (by omega)) ?_
    have hne : j ≠ i := fun he => hused (he ▸ hj)
    rcases cells_apart c.objCellSize s hne with hap | hap
    · exact .inl (by omega)
    · exact .inr (by omega)

/-- `slab_free` by its three ends. -/
theorem slabFree_eq {ptr : Nat} (hslab : slabOf ptr = s) :
    slabFree c mem ptr =
      if foundCount c mem s ptr = 0 then
        ({ c with
            allocatedObjects := subW 32 c.allocatedObjects 1
            totalFreeObjects := addW 32 c.totalFreeObjects 1
            fullSlabs := (unlinkSlab (putBack c mem s ptr) s c.fullSlabs).2
            partialSlabs := s
            totalFullSlabs := subW 16 c.totalFullSlabs 1
            totalPartialSlabs := addW 16 c.totalPartialSlabs 1 },
          linkSlab (unlinkSlab (putBack c mem s ptr) s c.fullSlabs).1 s c.partialSlabs)
      else if header .freeCount (putBack c mem s ptr) s = c.objsPerSlab then
        ({ c with
            allocatedObjects := subW 32 c.allocatedObjects 1
            totalFreeObjects := addW 32 c.totalFreeObjects 1
            partialSlabs := (unlinkSlab (putBack c mem s ptr) s c.partialSlabs).2
            freeSlabs := s
            totalFullSlabs := subW 16 c.totalFullSlabs 1
            totalPartialSlabs := addW 16 c.totalPartialSlabs 1 },
          linkSlab (unlinkSlab (putBack c mem s ptr) s c.partialSlabs).1 s c.freeSlabs)
      else
        ({ c with
            allocatedObjects := subW 32 c.allocatedObjects 1
            totalFreeObjects := addW 32 c.totalFreeObjects 1 },
          putBack c mem s ptr) := by
  subst hslab
  rfl

/-- What a free does to the counters: the list counters follow the lists unless the slab becomes wholly free. -/
structure FreeCounts (c c' : KmemCache) (p q : Pool) (s : Nat) : Prop where
  counted : (p.chain s).length + 1 ≠ c.objsPerSlab → Counted c p → Counted c' q
  allocated : c'.allocatedObjects = subW 32 c.allocatedObjects 1
  freeObjects : c'.totalFreeObjects = addW 32 c.totalFreeObjects 1

/-- A cell put back is one of its slab, like those that were free. -/
theorem Pool.setChain_inRange {n i : Nat} (hok : p.Ok n) (hmem : s ∈ p.slabs) (hi : i < n) :
    ∀ t ∈ (p.setChain s (i :: p.chain s)).slabs, ∀ j ∈ (p.setChain s (i :: p.chain s)).chain t, j < n := by
  intro t ht j hj
  by_cases hts : t = s
  · rw [hts, setChain_self] at hj
    rcases List.mem_cons.mp hj with rfl | hj
    · exact hi
    · exact hok.inRange s hmem j hj
  · rw [setChain_of_ne hts] at hj
    exact hok.inRange t ht j hj

/-- A slab that was full moves from one counted list to the other. -/
theorem counted_first {c c' : KmemCache} (hc : Counted c p) (hs : s ∈ p.fulls) (chain : Nat → List Nat)
    (hfree : c'.totalFreeSlabs = c.totalFreeSlabs) (hparts : c'.totalPartialSlabs = addW 16 c.totalPartialSlabs 1)
    (hfull : c'.totalFullSlabs = subW 16 c.totalFullSlabs 1) :
    Counted c' ⟨p.frees, s :: p.partials, p.fulls.erase s, chain⟩ where
  frees := hfree.trans hc.frees
  partials := by
    rw [hparts, hc.partials, addW_mod]
    rfl
  fulls := by
    have hlen : p.fulls.length = (p.fulls.erase s).length + 1 := by
      have hpos := List.length_pos_of_mem hs
      rw [List.length_erase_of_mem hs]
      omega
    rw [hfull, hc.fulls, hlen]
    exact subW_one_mod (by decide)

/-- **`slab_free`** of a used cell of a slab of the cache. -/
theorem slabFree_spec (h : Represents c mem p) (g : Geometry c) (hok : p.Ok c.objsPerSlab) {i : Nat}
    (hmem : s ∈ p.slabs) (hi : i < c.objsPerSlab) (hused : i ∉ p.chain s) :
    ∃ c' mem', slabFree c mem (cellAddr c.objCellSize s i) = (c', mem') ∧ SameShape c c' ∧
      Represents c' mem' (p.give c.objsPerSlab s i) ∧
      ChangesOnly mem mem' p.slabs
        (fun x => cellAddr c.objCellSize s i ≤ x ∧ x < cellAddr c.objCellSize s i + 8) ∧
      FreeCounts c c' p (p.give c.objsPerSlab s i) s := by
  have hs := h.addr s hmem
  have hcell := g.cell
  have hobjs := g.objs
  obtain ⟨hlo, hhi⟩ := cellAddr_bounds (s := s) g.fits hi
  have hslab : slabOf (cellAddr c.objCellSize s i) = s := slabOf_eq hs (by omega) (by omega)
  obtain ⟨hput, hfound⟩ := putBack_slabRep g hs hi (hok.inRange s hmem) (hok.distinct s hmem) hused (h.slab s hmem)
  have hframe : ∀ x, (x < s + 16 ∨ s + 20 ≤ x) →
      (x < cellAddr c.objCellSize s i ∨ cellAddr c.objCellSize s i + 8 ≤ x) →
      putBack c mem s (cellAddr c.objCellSize s i) x = mem x := fun x h1 h2 => putBack_frame h1 h2
  generalize hm1 : putBack c mem s (cellAddr c.objCellSize s i) = m1 at hput hframe
  have h1 : Represents c m1 (p.setChain s (i :: p.chain s)) :=
    h.setChain g hok.inRange hmem hput (fun x hx => hframe x (by omega) (by omega))
  have hrange := Pool.setChain_inRange hok hmem hi
  have hbytes : ∀ x, (∀ t ∈ p.slabs, ¬ (t ≤ x ∧ x < t + 24)) →
      ¬ (cellAddr c.objCellSize s i ≤ x ∧ x < cellAddr c.objCellSize s i + 8) → m1 x = mem x := by
    intro x hx hextra
    refine hframe x ?_ ?_
    · by_contra hcon
      exact hx s hmem ⟨by omega, by omega⟩
    · by_contra hcon
      exact hextra ⟨by omega, by omega⟩
  -- The links that a move changes lie in headers.
  have hmoved : ∀ m2 : Mem, (∀ x, (∀ t ∈ p.slabs, ¬ LinkByte t x) → m2 x = m1 x) →
      ChangesOnly mem m2 p.slabs
        (fun x => cellAddr c.objCellSize s i ≤ x ∧ x < cellAddr c.objCellSize s i + 8) := by
    intro m2 hm2 x hx hextra
    rw [hm2 x (fun t ht hl => hx t ht ⟨hl.1, by have := hl.2; omega⟩), hbytes x hx hextra]
  have hperm := Pool.give_slabs hok hmem hi hused
  have hwhere := hok.mem_of_used hmem hi hused
  obtain ⟨hpf, huf, hup⟩ := hok.disjoint
  have hrun := @slabFree_eq c mem s _ hslab
  rw [hfound, hm1] at hrun
  by_cases hempty : p.chain s = []
  · -- The slab was full.
    rw [if_pos hempty] at hwhere
    rw [if_pos (by rw [hempty]; rfl)] at hrun
    have hgive := Pool.give_first (n := c.objsPerSlab) (i := i) hempty
    have hslabs : ∀ t, t ∈ p.fulls ∨ t ∈ p.partials ∨ t ∈ p.frees → t ∈ p.slabs := by
      intro t ht
      rw [Pool.mem_slabs]
      rcases ht with ht | ht | ht
      · exact .inr (.inr ht)
      · exact .inr (.inl ht)
      · exact .inl ht
    obtain ⟨l1, l2, l3, l4⟩ := move_three h1.fulls h1.partials h1.frees (fun t ht => h.addr t (hslabs t ht)) hwhere
      (fun t ht hu => hup t hu ht) (fun t ht hu => huf t hu ht) (fun t ht hp => hpf t hp ht)
    have hlinks : ∀ x, (∀ t ∈ p.slabs, ¬ LinkByte t x) →
        linkSlab (unlinkSlab m1 s c.fullSlabs).1 s c.partialSlabs x = m1 x :=
      fun x hx => l4 x (fun t ht => hx t (hslabs t ht))
    refine ⟨_, _, hrun, ⟨rfl, rfl, rfl⟩, ?_, hmoved _ hlinks, ⟨fun _ hc => ?_, rfl, rfl⟩⟩
    · refine h1.relist g hrange rfl rfl (fun t ht => hperm.mem_iff.mp ht) ?_ ?_ ?_ ?_ hlinks
      · rw [hgive, hempty]
        rfl
      · rw [hgive]
        exact l3
      · rw [hgive]
        exact l2
      · rw [hgive]
        exact l1
    · rw [hgive]
      exact counted_first hc hwhere _ rfl rfl rfl
  · rw [if_neg hempty] at hwhere
    rw [if_neg (fun h0 => hempty (List.length_eq_zero_iff.mp h0)), hput.count, List.length_cons] at hrun
    by_cases hlen : (p.chain s).length + 1 = c.objsPerSlab
    · -- The slab becomes wholly free.
      rw [if_pos hlen] at hrun
      have hgive := Pool.give_last (i := i) hempty hlen
      have hslabs : ∀ t, t ∈ p.partials ∨ t ∈ p.frees ∨ t ∈ p.fulls → t ∈ p.slabs := by
        intro t ht
        rw [Pool.mem_slabs]
        rcases ht with ht | ht | ht
        · exact .inr (.inl ht)
        · exact .inl ht
        · exact .inr (.inr ht)
      obtain ⟨l1, l2, l3, l4⟩ := move_three h1.partials h1.frees h1.fulls (fun t ht => h.addr t (hslabs t ht)) hwhere
        (fun t ht hp => hpf t hp ht) hup huf
      have hlinks : ∀ x, (∀ t ∈ p.slabs, ¬ LinkByte t x) →
          linkSlab (unlinkSlab m1 s c.partialSlabs).1 s c.freeSlabs x = m1 x :=
        fun x hx => l4 x (fun t ht => hx t (hslabs t ht))
      refine ⟨_, _, hrun, ⟨rfl, rfl, rfl⟩, ?_, hmoved _ hlinks, ⟨fun hn _ => absurd hlen hn, rfl, rfl⟩⟩
      refine h1.relist g hrange rfl rfl (fun t ht => hperm.mem_iff.mp ht) ?_ ?_ ?_ ?_ hlinks
      · rw [hgive]
        rfl
      · rw [hgive]
        exact l2
      · rw [hgive]
        exact l1
      · rw [hgive]
        exact l3
    · rw [if_neg hlen] at hrun
      have hgive := Pool.give_more (i := i) hempty hlen
      refine ⟨_, _, hrun, ⟨rfl, rfl, rfl⟩, ?_, fun x hx hextra => hbytes x hx hextra, ⟨fun _ hc => ?_, rfl, rfl⟩⟩
      · rw [hgive]
        exact ⟨h1.addr, h1.frees, h1.partials, h1.fulls, h1.slab, h1.ids⟩
      · rw [hgive]
        exact ⟨hc.frees, hc.partials, hc.fulls⟩

end Free

end LearningOS.Slab
