import LearningOS.Mm.Slab.Layout
import LearningOS.Mm.Slab.Pool

/-!
# `Mm.Slab.Refine` — the slab code carries out the operations of the pool

`Represents c mem p` relates a cache and the memory to the pool of `Mm.Slab.Pool`: the three heads spell its lists,
and in every slab `free_count`, `first_free_idx` and the pointers in the free cells spell the slab's chain. Each
function of `Mm.Slab.Model` is then shown to take a represented pool to the pool its operation gives, and to
leave every byte alone that is not in a header, in a slab it creates or in the cell it takes back.
-/

namespace LearningOS.Slab

open Word Run Bytes Linked

/-! ## Chains in memory -/

/-- The pointer to the first cell of a chain. -/
def chainPtr (cell s : Nat) : List Nat → Nat
  | [] => 0
  | i :: _ => cellAddr cell s i

/-- Every cell of the chain points to the next one, the last one to `NULL`. -/
def Chained (cell : Nat) (mem : Mem) (s : Nat) : List Nat → Prop
  | [] => True
  | i :: l => nextFree mem (cellAddr cell s i) = chainPtr cell s l ∧ Chained cell mem s l

/-- The header and the free cells of a slab spell its chain. -/
structure SlabRep (cell : Nat) (mem : Mem) (s : Nat) (chain : List Nat) : Prop where
  count : header .freeCount mem s = chain.length
  first : ∀ i, chain.head? = some i → header .firstFreeIdx mem s = i
  chained : Chained cell mem s chain

/-- The sizes of a cache with room for a pointer in every cell and two cells in every slab. -/
structure Geometry (c : KmemCache) : Prop where
  cell : 8 ≤ c.objCellSize
  objs : 2 ≤ c.objsPerSlab
  fits : c.objsPerSlab * c.objCellSize ≤ 8168
  id : c.cacheId < 2 ^ 16

/-- The cache and the memory represent the pool. -/
structure Represents (c : KmemCache) (mem : Mem) (p : Pool) : Prop where
  addr : ∀ s ∈ p.slabs, SlabAddr s
  frees : Spells (slabLinks mem) 0 c.freeSlabs p.frees
  partials : Spells (slabLinks mem) 0 c.partialSlabs p.partials
  fulls : Spells (slabLinks mem) 0 c.fullSlabs p.fulls
  slab : ∀ s ∈ p.slabs, SlabRep c.objCellSize mem s (p.chain s)
  ids : ∀ s ∈ p.slabs, header .cacheId mem s = c.cacheId

theorem Geometry.objs_lt {c : KmemCache} (g : Geometry c) : c.objsPerSlab < 2 ^ 16 := by
  have h := Nat.mul_le_mul_left c.objsPerSlab g.cell
  have := g.fits
  omega

/-- A chain is read from the free cells only. -/
theorem Chained.congr {cell s : Nat} {mem mem' : Mem} {l : List Nat} (h : Chained cell mem s l)
    (hsame : ∀ i ∈ l, ∀ x, cellAddr cell s i ≤ x → x < cellAddr cell s i + 8 → mem' x = mem x) :
    Chained cell mem' s l := by
  induction l with
  | nil => exact trivial
  | cons i l ih =>
      obtain ⟨hi, hl⟩ := h
      refine ⟨?_, ih hl (fun j hj => hsame j (List.mem_cons_of_mem _ hj))⟩
      rw [← hi]
      exact load_congr (hsame i List.mem_cons_self)

/-- What is read of a slab: its header behind the links, and its free cells. -/
theorem SlabRep.congr {cell s : Nat} {mem mem' : Mem} {l : List Nat} (h : SlabRep cell mem s l)
    (hhead : ∀ x, s + 16 ≤ x → x < s + 20 → mem' x = mem x)
    (hsame : ∀ i ∈ l, ∀ x, cellAddr cell s i ≤ x → x < cellAddr cell s i + 8 → mem' x = mem x) :
    SlabRep cell mem' s l := by
  have hcount : header .freeCount mem' s = header .freeCount mem s :=
    header_congr (fun x h1 h2 => hhead x (by simp only [HeaderField.offset] at h1; omega)
      (by simp only [HeaderField.offset, HeaderField.width] at h2; omega))
  have hfirst : header .firstFreeIdx mem' s = header .firstFreeIdx mem s :=
    header_congr (fun x h1 h2 => hhead x (by simp only [HeaderField.offset] at h1; omega)
      (by simp only [HeaderField.offset, HeaderField.width] at h2; omega))
  refine ⟨hcount.trans h.count, fun i hi => ?_, h.chained.congr hsame⟩
  exact hfirst.trans (h.first i hi)

/-! ## A new slab -/

theorem cellAddr_succ (cell s i : Nat) : cellAddr cell s (i + 1) = cellAddr cell s i + cell := by
  rw [cellAddr_eq, cellAddr_eq, Nat.succ_mul]
  omega

theorem cellAddr_mono (cell s : Nat) {i j : Nat} (h : i ≤ j) : cellAddr cell s i ≤ cellAddr cell s j := by
  rw [cellAddr_eq, cellAddr_eq]
  exact Nat.add_le_add_left (Nat.mul_le_mul_right cell h) _

theorem initCells_frame {cell s x : Nat} (hcell : 8 ≤ cell) (n : Nat) (i : Nat) (mem : Mem)
    (hx : x < cellAddr cell s i ∨ cellAddr cell s (i + n) ≤ x) : initCells cell s n i mem x = mem x := by
  induction n generalizing i mem with
  | zero => rfl
  | succ n ih =>
      have hstep : cellAddr cell s (i + 1) = cellAddr cell s i + cell := cellAddr_succ cell s i
      have hend : i + 1 + n = i + (n + 1) := by omega
      have hle : cellAddr cell s (i + 1) ≤ cellAddr cell s (i + (n + 1)) := cellAddr_mono cell s (by omega)
      show initCells cell s n (i + 1) (setNextFree mem (cellAddr cell s i) (cellAddr cell s i + cell)) x = mem x
      rw [ih]
      · refine store_frame ?_ mem _
        rcases hx with hx | hx
        · exact .inl hx
        · exact .inr (by omega)
      · rw [hend]
        rcases hx with hx | hx
        · exact .inl (by omega)
        · exact .inr hx

/-- The loop links each cell it passes to the one after it. -/
theorem initCells_next {cell s : Nat} (hcell : 8 ≤ cell) (n : Nat) (i : Nat) (mem : Mem)
    (hfits : cellAddr cell s (i + n) < 2 ^ 64) {j : Nat} (h1 : i ≤ j) (h2 : j < i + n) :
    nextFree (initCells cell s n i mem) (cellAddr cell s j) = cellAddr cell s (j + 1) := by
  induction n generalizing i mem with
  | zero => omega
  | succ n ih =>
      have hend : i + 1 + n = i + (n + 1) := by omega
      have hstep : cellAddr cell s (i + 1) = cellAddr cell s i + cell := cellAddr_succ cell s i
      show nextFree (initCells cell s n (i + 1) (setNextFree mem (cellAddr cell s i) (cellAddr cell s i + cell)))
        (cellAddr cell s j) = _
      by_cases hij : j = i
      · subst hij
        -- The turns that follow leave this cell alone.
        have hlt : cellAddr cell s (j + 1) < 2 ^ 64 := by
          have := cellAddr_mono cell s (show j + 1 ≤ j + (n + 1) by omega)
          omega
        have hkeep : nextFree (initCells cell s n (j + 1)
            (setNextFree mem (cellAddr cell s j) (cellAddr cell s j + cell))) (cellAddr cell s j) =
            nextFree (setNextFree mem (cellAddr cell s j) (cellAddr cell s j + cell)) (cellAddr cell s j) :=
          load_congr (fun x hx1 hx2 => initCells_frame hcell n (j + 1) _ (.inl (by omega)))
        rw [hkeep, hstep]
        exact load_store (by rw [← hstep]; exact hlt) mem _
      · exact ih (i + 1) _ (by rw [hend]; exact hfits) (by omega) (by omega)

/-- Cells that each point to the next one spell a run of indices. -/
theorem chained_range' {cell s : Nat} {mem : Mem} (n i : Nat)
    (hnext : ∀ j, i ≤ j → j + 1 < i + n → nextFree mem (cellAddr cell s j) = cellAddr cell s (j + 1))
    (hlast : ∀ j, j + 1 = i + n → i ≤ j → nextFree mem (cellAddr cell s j) = 0) :
    Chained cell mem s (List.range' i n) := by
  induction n generalizing i with
  | zero => exact trivial
  | succ n ih =>
      rw [List.range'_succ]
      refine ⟨?_, ih (i + 1) (fun j h1 h2 => hnext j (by omega) (by omega)) (fun j h1 h2 => hlast j (by omega) (by omega))⟩
      cases n with
      | zero => exact hlast i rfl le_rfl
      | succ n =>
          rw [List.range'_succ]
          exact hnext i le_rfl (by omega)

/-- **`__slab_init`** makes a slab whose cells are all free, and touches nothing else. -/
theorem slabInit_spec {c : KmemCache} (g : Geometry c) (mem : Mem) {s : Nat} (hs : SlabAddr s) :
    ∃ mem', slabInit c mem s = .ok mem' ∧ SlabRep c.objCellSize mem' s (List.range c.objsPerSlab) ∧
      header .cacheId mem' s = c.cacheId ∧ ∀ x, x < s ∨ s + 8192 ≤ x → mem' x = mem x := by
  obtain ⟨k, hk⟩ : ∃ k, c.objsPerSlab = k + 2 := ⟨c.objsPerSlab - 2, by have := g.objs; omega⟩
  have hlast : c.objsPerSlab - 1 = k + 1 := by omega
  have hfits := hs.fits
  have hobjs := g.objs_lt
  obtain ⟨hlo, hhi⟩ := cellAddr_bounds (s := s) g.fits (i := k + 1) (by omega)
  have hcell := g.cell
  have hzero : cellAddr c.objCellSize s 0 = s + 24 := by rw [cellAddr_eq]; omega
  -- The three header stores, then the cells.
  let m1 := setHeader .cacheId (setHeader .freeCount (setHeader .firstFreeIdx mem s 0) s c.objsPerSlab) s c.cacheId
  let m2 := initCells c.objCellSize s (k + 1) 0 m1
  let m3 := setNextFree m2 (cellAddr c.objCellSize s (k + 1)) 0
  have hm2 : ∀ x, x < s + 24 ∨ s + 8192 ≤ x → m3 x = m1 x := by
    intro x hx
    have h3 : m3 x = m2 x := by
      refine store_frame ?_ m2 0
      rcases hx with hx | hx
      · exact .inl (by omega)
      · exact .inr (by omega)
    rw [h3]
    refine initCells_frame hcell (k + 1) 0 m1 ?_
    rw [Nat.zero_add]
    rcases hx with hx | hx
    · exact .inl (by omega)
    · exact .inr (by omega)
  have hheader : ∀ f, header f m3 s = header f m1 s := by
    intro f
    have := header_fits f
    exact header_congr (fun x h1 h2 => hm2 x (.inl (by omega)))
  have hid : header .cacheId m1 s = c.cacheId := by
    rw [header_setHeader hs.aligned hs.aligned g.id, if_pos ⟨rfl, rfl⟩]
  have hcount : header .freeCount m1 s = c.objsPerSlab := by
    rw [header_setHeader hs.aligned hs.aligned g.id, if_neg (fun h => by cases h.1),
      header_setHeader hs.aligned hs.aligned hobjs, if_pos ⟨rfl, rfl⟩]
  have hfirst : header .firstFreeIdx m1 s = 0 := by
    rw [header_setHeader hs.aligned hs.aligned g.id, if_neg (fun h => by cases h.1),
      header_setHeader hs.aligned hs.aligned hobjs, if_neg (fun h => by cases h.1),
      header_setHeader hs.aligned hs.aligned (by decide), if_pos ⟨rfl, rfl⟩]
  refine ⟨m3, ?_, ⟨?_, ?_, ?_⟩, ?_, ?_⟩
  · unfold slabInit
    rw [if_neg (by omega), hlast]
  · rw [hheader, hcount, List.length_range]
  · intro i hi
    rw [hk, List.range_succ_eq_map] at hi
    rw [hheader, hfirst]
    exact Option.some.inj hi
  · rw [List.range_eq_range', hk]
    refine chained_range' (k + 2) 0 (fun j _ hj => ?_) (fun j hj _ => ?_)
    · have hj' : j < k + 1 := by omega
      have hmono := cellAddr_mono c.objCellSize s (show j + 1 ≤ k + 1 by omega)
      rw [cellAddr_succ] at hmono
      have hkeep : nextFree m3 (cellAddr c.objCellSize s j) = nextFree m2 (cellAddr c.objCellSize s j) :=
        load_store_of_disjoint (.inl (by omega)) m2 0
      rw [hkeep]
      refine initCells_next hcell (k + 1) 0 m1 ?_ (Nat.zero_le j) (by omega)
      rw [Nat.zero_add]
      omega
    · have hj' : j = k + 1 := by omega
      rw [hj']
      exact load_store (by decide) m2 _
  · rw [hheader, hid]
  · intro x hx
    have houter : x < s + 24 ∨ s + 8192 ≤ x := by omega
    rw [hm2 x houter]
    have hfield : ∀ (f : HeaderField) (m : Mem) (v : Nat), setHeader f m s v x = m x := by
      intro f m v
      have := header_fits f
      refine setHeader_frame ?_ m v
      rcases hx with hx | hx
      · exact .inl (by omega)
      · exact .inr (by omega)
    show setHeader .cacheId _ s _ x = mem x
    rw [hfield, hfield, hfield]

/-! ## What a representation does not see -/

section Frame

variable {c : KmemCache} {mem mem' : Mem} {p : Pool} {s : Nat}

/-- The bytes of a slab behind its links are not links of any slab. -/
theorem not_linkByte {t x : Nat} (hs : SlabAddr s) (ht : SlabAddr t) (h1 : s + 16 ≤ x) (h2 : x < s + 8192) :
    ¬ LinkByte t x := by
  rintro ⟨h3, h4⟩
  by_cases hst : s = t
  · omega
  · rcases slabs_apart hs.aligned ht.aligned hst with h | h
    · omega
    · omega

/-- The bytes of one slab are not those of another. -/
theorem outside_of_ne {t x : Nat} (hs : SlabAddr s) (ht : SlabAddr t) (hne : t ≠ s) (h1 : t ≤ x)
    (h2 : x < t + 8192) : x < s ∨ s + 8192 ≤ x := by
  rcases slabs_apart ht.aligned hs.aligned hne with h | h
  · exact .inl (by omega)
  · exact .inr (by omega)

/-- The first eight bytes of a cell lie in the slab, behind the header. -/
theorem cellByte_bounds (g : Geometry c) {i x : Nat} (hi : i < c.objsPerSlab) (h1 : cellAddr c.objCellSize s i ≤ x)
    (h2 : x < cellAddr c.objCellSize s i + 8) : s + 24 ≤ x ∧ x < s + 8192 := by
  obtain ⟨hlo, hhi⟩ := cellAddr_bounds (s := s) g.fits hi
  have := g.cell
  omega

/-- A slab's header and chain depend on its bytes behind the links only. -/
theorem SlabRep.of_bytes (g : Geometry c) {l : List Nat} (hr : ∀ i ∈ l, i < c.objsPerSlab)
    (h : SlabRep c.objCellSize mem s l) (hsame : ∀ x, s + 16 ≤ x → x < s + 8192 → mem' x = mem x) :
    SlabRep c.objCellSize mem' s l ∧ header .cacheId mem' s = header .cacheId mem s := by
  refine ⟨h.congr (fun x h1 h2 => hsame x h1 (by omega)) (fun i hi x h1 h2 => ?_), ?_⟩
  · obtain ⟨hlo, hhi⟩ := cellByte_bounds g (hr i hi) h1 h2
    exact hsame x (by omega) hhi
  · refine header_congr (fun x h1 h2 => ?_)
    simp only [HeaderField.offset, HeaderField.width] at h1 h2
    exact hsame x (by omega) (by omega)

/-- **Frame.** A pool stays represented when the headers and the free cells of its slabs do not change. -/
theorem Represents.congr (h : Represents c mem p)
    (hhead : ∀ t ∈ p.slabs, ∀ x, t ≤ x → x < t + 24 → mem' x = mem x)
    (hcell : ∀ t ∈ p.slabs, ∀ i ∈ p.chain t, ∀ x, cellAddr c.objCellSize t i ≤ x →
      x < cellAddr c.objCellSize t i + 8 → mem' x = mem x) : Represents c mem' p := by
  have hlinks : ∀ l : List Nat, (∀ t ∈ l, t ∈ p.slabs) → SameLinks mem mem' l := by
    intro l hl
    refine sameLinks_of_bytes (fun t ht x hx => hhead t (hl t ht) x hx.1 ?_)
    have := hx.2
    omega
  refine ⟨h.addr, spells_of_sameLinks h.frees (hlinks _ ?_), spells_of_sameLinks h.partials (hlinks _ ?_),
    spells_of_sameLinks h.fulls (hlinks _ ?_), fun t ht => ?_, fun t ht => ?_⟩
  · exact fun t ht => Pool.mem_slabs.mpr (.inl ht)
  · exact fun t ht => Pool.mem_slabs.mpr (.inr (.inl ht))
  · exact fun t ht => Pool.mem_slabs.mpr (.inr (.inr ht))
  · exact (h.slab t ht).congr (fun x h1 h2 => hhead t ht x (by omega) (by omega)) (hcell t ht)
  · rw [← h.ids t ht]
    refine header_congr (fun x h1 h2 => hhead t ht x ?_ ?_)
    · omega
    · simp only [HeaderField.offset, HeaderField.width] at h2
      omega

/-- A pool stays represented when none of the bytes of its slabs changes. -/
theorem Represents.of_slab_bytes (h : Represents c mem p) (g : Geometry c) (hok : p.Ok c.objsPerSlab)
    (hsame : ∀ t ∈ p.slabs, ∀ x, t ≤ x → x < t + 8192 → mem' x = mem x) : Represents c mem' p := by
  refine h.congr (fun t ht x h1 h2 => hsame t ht x h1 (by omega)) (fun t ht i hi x h1 h2 => ?_)
  obtain ⟨hlo, hhi⟩ := cellByte_bounds g (hok.inRange t ht i hi) h1 h2
  exact hsame t ht x (by omega) hhi

/-- One slab of a represented pool gets another chain. -/
theorem Represents.setChain (h : Represents c mem p) (g : Geometry c)
    (hr : ∀ t ∈ p.slabs, ∀ i ∈ p.chain t, i < c.objsPerSlab) (hs : s ∈ p.slabs) {l : List Nat}
    (hslab : SlabRep c.objCellSize mem' s l)
    (hsame : ∀ x, x < s + 16 ∨ s + 20 ≤ x ∧ x < s + 24 ∨ s + 8192 ≤ x → mem' x = mem x) :
    Represents c mem' (p.setChain s l) := by
  have hsaddr := h.addr s hs
  have hlinks : ∀ l : List Nat, (∀ t ∈ l, t ∈ p.slabs) → SameLinks mem mem' l := by
    intro l hl
    refine sameLinks_of_bytes (fun t ht x hx => hsame x ?_)
    obtain ⟨h1, h2⟩ := hx
    by_cases hts : t = s
    · exact .inl (by omega)
    · rcases outside_of_ne hsaddr (h.addr t (hl t ht)) hts h1 (by omega) with h | h
      · exact .inl (by omega)
      · exact .inr (.inr h)
  have hother : ∀ t ∈ p.slabs, t ≠ s → ∀ x, t ≤ x → x < t + 8192 → mem' x = mem x := by
    intro t ht hne x h1 h2
    refine hsame x ?_
    rcases outside_of_ne hsaddr (h.addr t ht) hne h1 h2 with h | h
    · exact .inl (by omega)
    · exact .inr (.inr h)
  refine ⟨h.addr, spells_of_sameLinks h.frees (hlinks _ ?_), spells_of_sameLinks h.partials (hlinks _ ?_),
    spells_of_sameLinks h.fulls (hlinks _ ?_), fun t ht => ?_, fun t ht => ?_⟩
  · exact fun t ht => Pool.mem_slabs.mpr (.inl ht)
  · exact fun t ht => Pool.mem_slabs.mpr (.inr (.inl ht))
  · exact fun t ht => Pool.mem_slabs.mpr (.inr (.inr ht))
  · by_cases hts : t = s
    · rw [hts, setChain_self]
      exact hslab
    · rw [setChain_of_ne hts]
      exact ((h.slab t ht).of_bytes g (hr t ht) (fun x h1 h2 => hother t ht hts x (by omega) h2)).1
  · rw [← h.ids t ht]
    by_cases hts : t = s
    · refine header_congr (fun x h1 h2 => hsame x ?_)
      simp only [HeaderField.offset, HeaderField.width] at h1 h2
      exact .inr (.inl (by omega))
    · exact ((h.slab t ht).of_bytes g (hr t ht) (fun x h1 h2 => hother t ht hts x (by omega) h2)).2

/-- A represented pool whose lists change by links alone. -/
theorem Represents.relist (h : Represents c mem p) (g : Geometry c)
    (hr : ∀ t ∈ p.slabs, ∀ i ∈ p.chain t, i < c.objsPerSlab) {c' : KmemCache} {q : Pool}
    (hcell : c'.objCellSize = c.objCellSize) (hid : c'.cacheId = c.cacheId)
    (hmem : ∀ t, t ∈ q.slabs → t ∈ p.slabs) (hchain : q.chain = p.chain)
    (hfrees : Spells (slabLinks mem') 0 c'.freeSlabs q.frees)
    (hpartials : Spells (slabLinks mem') 0 c'.partialSlabs q.partials)
    (hfulls : Spells (slabLinks mem') 0 c'.fullSlabs q.fulls)
    (hsame : ∀ x, (∀ t ∈ p.slabs, ¬ LinkByte t x) → mem' x = mem x) : Represents c' mem' q := by
  have hslab : ∀ t ∈ p.slabs, SlabRep c.objCellSize mem' t (p.chain t) ∧
      header .cacheId mem' t = header .cacheId mem t := by
    intro t ht
    refine (h.slab t ht).of_bytes g (hr t ht) (fun x h1 h2 => hsame x (fun u hu => ?_))
    exact not_linkByte (h.addr t ht) (h.addr u hu) h1 h2
  refine ⟨fun t ht => h.addr t (hmem t ht), hfrees, hpartials, hfulls, fun t ht => ?_, fun t ht => ?_⟩
  · rw [hcell, hchain]
    exact (hslab t (hmem t ht)).1
  · rw [hid, ← h.ids t (hmem t ht)]
    exact (hslab t (hmem t ht)).2

/-- A slab moves from one of three lists to another: all three lists, and the bytes that change. -/
theorem move_three {a b d : List Nat} {ha hb hd : Nat} (hfrom : Spells (slabLinks mem) 0 ha a)
    (hto : Spells (slabLinks mem) 0 hb b) (hrest : Spells (slabLinks mem) 0 hd d)
    (haddr : ∀ t, t ∈ a ∨ t ∈ b ∨ t ∈ d → SlabAddr t) (hs : s ∈ a) (hba : ∀ t ∈ b, t ∉ a)
    (hda : ∀ t ∈ d, t ∉ a) (hdb : ∀ t ∈ d, t ∉ b) :
    Spells (slabLinks (linkSlab (unlinkSlab mem s ha).1 s hb)) 0 (unlinkSlab mem s ha).2 (a.erase s) ∧
    Spells (slabLinks (linkSlab (unlinkSlab mem s ha).1 s hb)) 0 s (s :: b) ∧
    Spells (slabLinks (linkSlab (unlinkSlab mem s ha).1 s hb)) 0 hd d ∧
    (∀ x, (∀ t, t ∈ a ∨ t ∈ b ∨ t ∈ d → ¬ LinkByte t x) →
      linkSlab (unlinkSlab mem s ha).1 s hb x = mem x) := by
  have hab : ∀ t ∈ a ++ b, SlabAddr t := by
    intro t ht
    rcases List.mem_append.mp ht with h | h
    · exact haddr t (.inl h)
    · exact haddr t (.inr (.inl h))
  obtain ⟨h1, h2, h3⟩ := move_spells hfrom hto hab hs hba
  refine ⟨h1, h2, ?_, fun x hx => h3 x (fun t ht => ?_)⟩
  · refine spells_of_bytes hrest (fun t ht => haddr t (.inr (.inr ht))) (a ++ b) hab (fun t ht hm => ?_) h3
    rcases List.mem_append.mp hm with h | h
    · exact hda t ht h
    · exact hdb t ht h
  · rcases List.mem_append.mp ht with h | h
    · exact hx t (.inl h)
    · exact hx t (.inr (.inl h))

end Frame

end LearningOS.Slab
