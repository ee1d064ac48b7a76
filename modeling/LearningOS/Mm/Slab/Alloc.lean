import LearningOS.Mm.Slab.Refine

/-!
# `Mm.Slab.Alloc` — `slab_cache_reserve`, `slab_cache_prealloc` and `slab_alloc` on a represented pool

From a represented pool each function returns, represents the pool its operation gives, and changes no byte but
those of headers and of a slab it creates. Beside this each theorem says what becomes
of the counters: `Counted` is the relation the list counters are meant to keep, and `total_free_objects` and
`allocated_objects` are given as they are computed.
-/

namespace LearningOS.Slab

open Word Run Bytes Linked

/-- The bytes of a slab. -/
def SlabByte (s x : Nat) : Prop := s ≤ x ∧ x < s + 8192

/-- Memory changes in the headers of the slabs `l` and in the bytes `extra` only. -/
def ChangesOnly (mem mem' : Mem) (l : List Nat) (extra : Nat → Prop) : Prop :=
  ∀ x, (∀ t ∈ l, ¬ (t ≤ x ∧ x < t + 24)) → ¬ extra x → mem' x = mem x

/-- The three list counters are the lengths of the lists, in `u16_t`. -/
structure Counted (c : KmemCache) (p : Pool) : Prop where
  frees : c.totalFreeSlabs = p.frees.length % 2 ^ 16
  partials : c.totalPartialSlabs = p.partials.length % 2 ^ 16
  fulls : c.totalFullSlabs = p.fulls.length % 2 ^ 16

/-- The sizes and the identity of a cache, which no operation changes. -/
structure SameShape (c c' : KmemCache) : Prop where
  cell : c'.objCellSize = c.objCellSize
  objs : c'.objsPerSlab = c.objsPerSlab
  id : c'.cacheId = c.cacheId

theorem SameShape.refl (c : KmemCache) : SameShape c c := ⟨rfl, rfl, rfl⟩

theorem SameShape.trans {c c' c'' : KmemCache} (h : SameShape c c') (h' : SameShape c' c'') : SameShape c c'' :=
  ⟨h'.cell.trans h.cell, h'.objs.trans h.objs, h'.id.trans h.id⟩

theorem SameShape.geometry {c c' : KmemCache} (h : SameShape c c') (g : Geometry c) : Geometry c' := by
  obtain ⟨h1, h2, h3⟩ := h
  refine ⟨?_, ?_, ?_, ?_⟩
  · rw [h1]
    exact g.cell
  · rw [h2]
    exact g.objs
  · rw [h1, h2]
    exact g.fits
  · rw [h3]
    exact g.id

section Alloc

variable {c : KmemCache} {mem : Mem} {p : Pool} {s : Nat}

/-! ## A slab is added -/

/-- The pool with a new slab on `free_slabs`. -/
theorem Represents.addSlab (h : Represents c mem p) (g : Geometry c) (hok : p.Ok c.objsPerSlab) (hs : SlabAddr s)
    (hfresh : s ∉ p.slabs) {m1 : Mem} (hrep : SlabRep c.objCellSize m1 s (List.range c.objsPerSlab))
    (hid : header .cacheId m1 s = c.cacheId) (hsame : ∀ x, x < s ∨ s + 8192 ≤ x → m1 x = mem x) (k : Nat) :
    Represents { c with freeSlabs := s, totalFreeObjects := k } (linkSlab m1 s c.freeSlabs)
      (p.add c.objsPerSlab s) := by
  have hne : ∀ t ∈ p.slabs, t ≠ s := fun t ht he => hfresh (he ▸ ht)
  have h1 : Represents c m1 p := by
    refine h.of_slab_bytes g hok (fun t ht x hx1 hx2 => hsame x ?_)
    exact outside_of_ne hs (h.addr t ht) (hne t ht) hx1 hx2
  have hfaddr : ∀ t ∈ p.frees, SlabAddr t := fun t ht => h.addr t (Pool.mem_slabs.mpr (.inl ht))
  have htouched : ∀ t ∈ s :: p.frees, SlabAddr t := by
    intro t ht
    rcases List.mem_cons.mp ht with rfl | ht
    · exact hs
    · exact hfaddr t ht
  obtain ⟨hpf, huf, -⟩ := hok.disjoint
  have hbytes : ∀ x, (∀ t ∈ s :: p.frees, ¬ LinkByte t x) → linkSlab m1 s c.freeSlabs x = m1 x :=
    fun x hx => linkSlab_bytes h1.frees (hx s List.mem_cons_self) (fun t ht => hx t (List.mem_cons_of_mem _ ht))
  have hkeep : ∀ t, SlabAddr t → ∀ x, t + 16 ≤ x → x < t + 8192 → linkSlab m1 s c.freeSlabs x = m1 x :=
    fun t ht x hx1 hx2 => hbytes x (fun u hu => not_linkByte ht (htouched u hu) hx1 hx2)
  have hchain : ∀ t ∈ p.slabs, (p.add c.objsPerSlab s).chain t = p.chain t :=
    fun t ht => Function.update_of_ne (hne t ht) ..
  have hself : (p.add c.objsPerSlab s).chain s = List.range c.objsPerSlab := Function.update_self ..
  have hnew := hrep.of_bytes g (fun i hi => List.mem_range.mp hi) (hkeep s hs)
  refine ⟨fun t ht => ?_, ?_, ?_, ?_, fun t ht => ?_, fun t ht => ?_⟩
  · rcases List.mem_cons.mp ht with rfl | ht
    · exact hs
    · exact h.addr t ht
  · exact linkSlab_spells h1.frees hfaddr hs (fun hm => hfresh (Pool.mem_slabs.mpr (.inl hm)))
  · refine spells_of_bytes h1.partials (fun t ht => h.addr t (Pool.mem_slabs.mpr (.inr (.inl ht)))) _ htouched
      (fun t ht hm => ?_) hbytes
    rcases List.mem_cons.mp hm with rfl | hm
    · exact hfresh (Pool.mem_slabs.mpr (.inr (.inl ht)))
    · exact hpf t ht hm
  · refine spells_of_bytes h1.fulls (fun t ht => h.addr t (Pool.mem_slabs.mpr (.inr (.inr ht)))) _ htouched
      (fun t ht hm => ?_) hbytes
    rcases List.mem_cons.mp hm with rfl | hm
    · exact hfresh (Pool.mem_slabs.mpr (.inr (.inr ht)))
    · exact huf t ht hm
  · rcases List.mem_cons.mp ht with rfl | ht
    · rw [hself]
      exact hnew.1
    · rw [hchain t ht]
      exact ((h1.slab t ht).of_bytes g (hok.inRange t ht) (hkeep t (h.addr t ht))).1
  · rcases List.mem_cons.mp ht with rfl | ht
    · exact hnew.2.trans hid
    · exact ((h1.slab t ht).of_bytes g (hok.inRange t ht) (hkeep t (h.addr t ht))).2.trans (h1.ids t ht)

/-- **One turn of the loops of `slab_cache_reserve` and `slab_cache_prealloc`.** -/
theorem addFreeSlab_spec (h : Represents c mem p) (g : Geometry c) (hok : p.Ok c.objsPerSlab) (hs : SlabAddr s)
    (hfresh : s ∉ p.slabs) :
    ∃ mem', addFreeSlab c mem s =
        .ok ({ c with freeSlabs := s, totalFreeObjects := addW 32 c.totalFreeObjects c.objsPerSlab }, mem') ∧
      Represents { c with freeSlabs := s, totalFreeObjects := addW 32 c.totalFreeObjects c.objsPerSlab } mem'
        (p.add c.objsPerSlab s) ∧
      ChangesOnly mem mem' p.slabs (SlabByte s) := by
  obtain ⟨m1, hinit, hrep, hid, hsame⟩ := slabInit_spec g mem hs
  refine ⟨linkSlab m1 s c.freeSlabs, ?_, h.addSlab g hok hs hfresh hrep hid hsame _, fun x hx hextra => ?_⟩
  · unfold addFreeSlab
    rw [hinit]
    rfl
  · have hout : x < s ∨ s + 8192 ≤ x := by
      by_contra hcon
      exact hextra ⟨by omega, by omega⟩
    rw [← hsame x hout]
    refine linkSlab_frame (fun hl => ?_) (fun h0 hl => ?_)
    · obtain ⟨h1, h2⟩ := hl
      omega
    · obtain ⟨rest, hrest⟩ := h.frees.eq_cons h0
      obtain ⟨h1, h2⟩ := hl
      refine hx c.freeSlabs (Pool.mem_slabs.mpr (.inl (hrest ▸ List.mem_cons_self))) ⟨h1, by omega⟩

/-- `total_free_objects` is the number of free cells, in `u32_t`. -/
def Balanced (c : KmemCache) (p : Pool) : Prop := c.totalFreeObjects = p.freeCells % 2 ^ 32

/-- **The loops of `slab_cache_reserve` and `slab_cache_prealloc`.** The list counters are left to the callers. -/
theorem addFreeSlabs_spec (l : List Nat) (h : Represents c mem p) (g : Geometry c) (hok : p.Ok c.objsPerSlab)
    (hl : l.Nodup) (haddr : ∀ t ∈ l, SlabAddr t) (hfresh : ∀ t ∈ l, t ∉ p.slabs) :
    ∃ c' mem', addFreeSlabs c mem l = .ok (c', mem') ∧ SameShape c c' ∧
      Represents c' mem' (p.addAll c.objsPerSlab l) ∧ (p.addAll c.objsPerSlab l).Ok c.objsPerSlab ∧
      ChangesOnly mem mem' p.slabs (fun x => ∃ t ∈ l, SlabByte t x) ∧
      c'.totalFreeSlabs = c.totalFreeSlabs ∧ c'.totalPartialSlabs = c.totalPartialSlabs ∧
      c'.totalFullSlabs = c.totalFullSlabs ∧ c'.allocatedObjects = c.allocatedObjects ∧
      (Balanced c p → Balanced c' (p.addAll c.objsPerSlab l)) := by
  induction l generalizing c mem p with
  | nil => exact ⟨c, mem, rfl, .refl c, h, hok, fun x _ _ => rfl, rfl, rfl, rfl, rfl, fun hb => hb⟩
  | cons s l ih =>
      have hs := haddr s List.mem_cons_self
      have hsp := hfresh s List.mem_cons_self
      obtain ⟨hsl, hl⟩ := List.nodup_cons.mp hl
      obtain ⟨m1, hadd, hrep, hbytes⟩ := addFreeSlab_spec h g hok hs hsp
      have hok1 : (p.add c.objsPerSlab s).Ok c.objsPerSlab := Pool.add_ok hok hsp
      have hfresh1 : ∀ t ∈ l, t ∉ (p.add c.objsPerSlab s).slabs := by
        intro t ht hm
        rcases List.mem_cons.mp hm with rfl | hm
        · exact hsl ht
        · exact hfresh t (List.mem_cons_of_mem _ ht) hm
      obtain ⟨c', mem', hrun, hshape, hrep', hok', hbytes', hc1, hc2, hc3, hc4, hbal⟩ :=
        ih hrep ⟨g.cell, g.objs, g.fits, g.id⟩ hok1 hl (fun t ht => haddr t (List.mem_cons_of_mem _ ht)) hfresh1
      refine ⟨c', mem', ?_, ⟨hshape.cell, hshape.objs, hshape.id⟩, hrep', hok', ?_, hc1, hc2, hc3, hc4, ?_⟩
      · show (addFreeSlab c mem s >>= fun r => addFreeSlabs r.1 r.2 l) = _
        rw [hadd]
        exact hrun
      · intro x hx hextra
        have hxs : ¬ SlabByte s x := fun hb => hextra ⟨s, List.mem_cons_self, hb⟩
        rw [hbytes' x ?_ (fun hb => ?_), hbytes x hx hxs]
        · intro t ht
          rcases List.mem_cons.mp ht with rfl | ht
          · rintro ⟨h1, h2⟩
            exact hxs ⟨h1, by omega⟩
          · exact hx t ht
        · obtain ⟨t, ht, hb⟩ := hb
          exact hextra ⟨t, List.mem_cons_of_mem _ ht, hb⟩
      · intro hb
        refine hbal ?_
        show addW 32 c.totalFreeObjects c.objsPerSlab = (p.add c.objsPerSlab s).freeCells % 2 ^ 32
        rw [freeCells_add hsp, show c.totalFreeObjects = p.freeCells % 2 ^ 32 from hb, addW_mod]

/-! ## A slab is picked -/

/-- The two stores that end the picking of a slab. -/
theorem clearLinks_frame {x : Nat} (hx : ¬ LinkByte s x) (m : Mem) :
    setHeader .next (setHeader .prev m s 0) s 0 x = m x := by
  rw [setLink_frame (.inr rfl) hx, setLink_frame (.inl rfl) hx]

/-- A slab whose links are cleared is a list of its own. -/
theorem clearLinks_spells (hs : SlabAddr s) (m : Mem) :
    Spells (slabLinks (setHeader .next (setHeader .prev m s 0) s 0)) 0 s [s] := by
  refine ⟨⟨rfl, hs.ne_null, ?_, ?_⟩, List.nodup_singleton s⟩
  · show header .prev (setHeader .next (setHeader .prev m s 0) s 0) s = 0
    rw [header_setLink (.inr rfl) hs.aligned hs.aligned linkValue_null, if_neg (fun h => by cases h.1),
      header_setLink (.inl rfl) hs.aligned hs.aligned linkValue_null, if_pos ⟨rfl, rfl⟩]
  · show header .next (setHeader .next (setHeader .prev m s 0) s 0) s = 0
    rw [header_setLink (.inr rfl) hs.aligned hs.aligned linkValue_null, if_pos ⟨rfl, rfl⟩]

/-- What picking a slab does to the counters. -/
structure PickCounts (c c' : KmemCache) (p q : Pool) : Prop where
  counted : Counted c p → Counted c' q
  allocated : c'.allocatedObjects = c.allocatedObjects
  freeObjects : c'.totalFreeObjects = c.totalFreeObjects

/-- The extra bytes an allocation may change: those of the slab it has to create. -/
def CreatedByte (p : Pool) (vmBlock x : Nat) : Prop := p.partials = [] ∧ p.frees = [] ∧ SlabByte vmBlock x

/-- What an allocation is promised by `vm_alloc_block`. -/
def FreshIfNeeded (p : Pool) (vmBlock : Nat) : Prop :=
  p.partials = [] → p.frees = [] → SlabAddr vmBlock ∧ vmBlock ∉ p.slabs

/-- No slab is at hand: one is created. -/
theorem pickSlab_create (h : Represents c mem p) (g : Geometry c) (hok : p.Ok c.objsPerSlab)
    (hp : p.partials = []) (hf : p.frees = []) {b : Nat} (hb : SlabAddr b) (hfresh : b ∉ p.slabs) :
    ∃ c' mem', pickSlab c mem b = .ok (b, c', mem') ∧ SameShape c c' ∧
      Represents c' mem' { p with partials := [b], chain := Function.update p.chain b (List.range c.objsPerSlab) } ∧
      ChangesOnly mem mem' p.slabs (SlabByte b) ∧
      PickCounts c c' p { p with partials := [b], chain := Function.update p.chain b (List.range c.objsPerSlab) } := by
  have hp0 : c.partialSlabs = 0 := h.partials.head_eq_null_iff.mpr hp
  have hf0 : c.freeSlabs = 0 := h.frees.head_eq_null_iff.mpr hf
  obtain ⟨m1, hinit, hrep, hid, hsame⟩ := slabInit_spec g mem hb
  have hne : ∀ t ∈ p.slabs, t ≠ b := fun t ht he => hfresh (he ▸ ht)
  have hfull : ∀ t ∈ p.fulls, t ∈ p.slabs := fun t ht => Pool.mem_slabs.mpr (.inr (.inr ht))
  let m2 := setHeader .next (setHeader .prev m1 b 0) b 0
  have hm2 : ∀ x, x < b ∨ b + 8192 ≤ x → m2 x = mem x := by
    intro x hx
    rw [← hsame x hx]
    exact clearLinks_frame (fun hl => by obtain ⟨h1, h2⟩ := hl; omega) m1
  have h2 : Represents c m2 p :=
    h.of_slab_bytes g hok (fun t ht x hx1 hx2 => hm2 x (outside_of_ne hb (h.addr t ht) (hne t ht) hx1 hx2))
  have hnew := hrep.of_bytes g (fun i hi => List.mem_range.mp hi)
    (fun x hx1 hx2 => clearLinks_frame (not_linkByte hb hb hx1 hx2) m1)
  have hself : Function.update p.chain b (List.range c.objsPerSlab) b = List.range c.objsPerSlab :=
    Function.update_self ..
  have hother : ∀ t ∈ p.fulls, Function.update p.chain b (List.range c.objsPerSlab) t = p.chain t :=
    fun t ht => Function.update_of_ne (hne t (hfull t ht)) ..
  have hmem : ∀ t, t ∈ (p.frees ++ ([b] ++ p.fulls)) → t = b ∨ t ∈ p.fulls := by
    intro t ht
    rw [hf] at ht
    exact List.mem_cons.mp ht
  refine ⟨{ c with partialSlabs := b, totalPartialSlabs := addW 16 c.totalPartialSlabs 1 }, m2, ?_, ⟨rfl, rfl, rfl⟩,
    ⟨fun t ht => ?_, h2.frees, clearLinks_spells hb m1, h2.fulls, fun t ht => ?_, fun t ht => ?_⟩, ?_, ⟨?_, rfl, rfl⟩⟩
  · unfold pickSlab
    rw [if_neg (not_not.mpr hp0), if_pos hf0, hinit]
    rfl
  · rcases hmem t ht with rfl | ht
    · exact hb
    · exact h.addr t (hfull t ht)
  · show SlabRep c.objCellSize m2 t (Function.update p.chain b (List.range c.objsPerSlab) t)
    rcases hmem t ht with rfl | ht
    · rw [hself]
      exact hnew.1
    · rw [hother t ht]
      exact h2.slab t (hfull t ht)
  · rcases hmem t ht with rfl | ht
    · exact hnew.2.trans hid
    · exact h2.ids t (hfull t ht)
  · intro x _ hextra
    refine hm2 x ?_
    by_contra hcon
    exact hextra ⟨by omega, by omega⟩
  · intro hc
    refine ⟨hc.frees, ?_, hc.fulls⟩
    show addW 16 c.totalPartialSlabs 1 = 1 % 2 ^ 16
    rw [hc.partials, hp]
    rfl

theorem pickSlab_of_free (hp0 : c.partialSlabs = 0) (hf0 : c.freeSlabs = s) (hs0 : s ≠ 0) (b : Nat) :
    pickSlab c mem b =
      .ok (s,
        { c with
          freeSlabs := (unlinkSlab mem s s).2
          partialSlabs := s
          totalFreeSlabs := subW 16 c.totalFreeSlabs 1
          totalPartialSlabs := addW 16 c.totalPartialSlabs 1 },
        setHeader .next (setHeader .prev (linkSlab (unlinkSlab mem s s).1 s 0) s 0) s 0) := by
  unfold pickSlab
  rw [if_neg (not_not.mpr hp0), if_neg (fun h0 => hs0 (hf0 ▸ h0))]
  simp only [hf0, hp0]

/-- A free slab becomes the partly used one. -/
theorem pickSlab_move (h : Represents c mem p) (g : Geometry c) (hok : p.Ok c.objsPerSlab)
    (hp : p.partials = []) {rest : List Nat} (hf : p.frees = s :: rest) (b : Nat) :
    ∃ c' mem', pickSlab c mem b = .ok (s, c', mem') ∧ SameShape c c' ∧
      Represents c' mem' { p with frees := rest, partials := [s] } ∧ ChangesOnly mem mem' p.slabs (fun _ => False) ∧
      PickCounts c c' p { p with frees := rest, partials := [s] } := by
  have hp0 : c.partialSlabs = 0 := h.partials.head_eq_null_iff.mpr hp
  have hf0 : c.freeSlabs = s := by
    have hl := h.frees.linked
    rw [hf] at hl
    exact hl.1
  have hsf : s ∈ p.frees := hf ▸ List.mem_cons_self
  have hs : SlabAddr s := h.addr s (Pool.mem_slabs.mpr (.inl hsf))
  obtain ⟨hpf, huf, hup⟩ := hok.disjoint
  have haddr : ∀ t, t ∈ p.frees ∨ t ∈ p.partials ∨ t ∈ p.fulls → SlabAddr t :=
    fun t ht => h.addr t (Pool.mem_slabs.mpr ht)
  obtain ⟨h1, -, h3, h4⟩ := move_three (hf0 ▸ h.frees) (hp0 ▸ h.partials) h.fulls haddr hsf hpf huf hup
  have herase : p.frees.erase s = rest := by rw [hf, List.erase_cons_head]
  rw [herase] at h1
  let m1 := linkSlab (unlinkSlab mem s s).1 s 0
  let m2 := setHeader .next (setHeader .prev m1 s 0) s 0
  have htouched : ∀ t ∈ [s], SlabAddr t := fun t ht => (List.mem_singleton.mp ht) ▸ hs
  have hclear : ∀ x, (∀ t ∈ [s], ¬ LinkByte t x) → m2 x = m1 x :=
    fun x hx => clearLinks_frame (hx s List.mem_cons_self) m1
  have hsr : s ∉ rest := by
    have hn := h.frees.nodup
    rw [hf] at hn
    exact (List.nodup_cons.mp hn).1
  have hrest : ∀ t ∈ rest, t ∈ p.frees := fun t ht => hf ▸ List.mem_cons_of_mem _ ht
  have hperm : ({ p with frees := rest, partials := [s] } : Pool).slabs.Perm p.slabs := by
    show (rest ++ ([s] ++ p.fulls)).Perm (p.frees ++ (p.partials ++ p.fulls))
    rw [hf, hp]
    exact List.perm_middle
  have hbytes : ∀ x, (∀ t ∈ p.slabs, ¬ LinkByte t x) → m2 x = mem x := by
    intro x hx
    rw [hclear x (fun t ht => hx t ((List.mem_singleton.mp ht) ▸ Pool.mem_slabs.mpr (.inl hsf)))]
    exact h4 x (fun t ht => hx t (Pool.mem_slabs.mpr ht))
  refine ⟨_, m2, pickSlab_of_free hp0 hf0 hs.ne_null b, ⟨rfl, rfl, rfl⟩, ?_, ?_, ⟨?_, rfl, rfl⟩⟩
  · refine h.relist g hok.inRange rfl rfl (fun t ht => hperm.mem_iff.mp ht) rfl ?_ (clearLinks_spells hs m1) ?_ hbytes
    · show Spells (slabLinks m2) 0 (unlinkSlab mem s s).2 rest
      refine spells_of_bytes h1 (fun t ht => haddr t (.inl (hrest t ht))) [s] htouched (fun t ht hm => ?_) hclear
      exact hsr ((List.mem_singleton.mp hm) ▸ ht)
    · show Spells (slabLinks m2) 0 c.fullSlabs p.fulls
      refine spells_of_bytes h3 (fun t ht => haddr t (.inr (.inr ht))) [s] htouched (fun t ht hm => ?_) hclear
      exact huf t ht ((List.mem_singleton.mp hm) ▸ hsf)
  · intro x hx _
    refine hbytes x (fun t ht hl => hx t ht ⟨hl.1, ?_⟩)
    have := hl.2
    omega
  · intro hc
    refine ⟨?_, ?_, hc.fulls⟩
    · show subW 16 c.totalFreeSlabs 1 = rest.length % 2 ^ 16
      rw [hc.frees, hf]
      exact subW_one_mod (by decide)
    · show addW 16 c.totalPartialSlabs 1 = 1 % 2 ^ 16
      rw [hc.partials, hp]
      rfl

/-- **The first half of `slab_alloc`.** -/
theorem pickSlab_spec (h : Represents c mem p) (g : Geometry c) (hok : p.Ok c.objsPerSlab) {b : Nat}
    (hfresh : FreshIfNeeded p b) :
    ∃ c' mem', pickSlab c mem b = .ok ((p.pick c.objsPerSlab b).1, c', mem') ∧ SameShape c c' ∧
      Represents c' mem' (p.pick c.objsPerSlab b).2 ∧ ChangesOnly mem mem' p.slabs (CreatedByte p b) ∧
      PickCounts c c' p (p.pick c.objsPerSlab b).2 := by
  cases hp : p.partials with
  | cons s rest =>
      have hpick : p.pick c.objsPerSlab b = (s, p) := by
        unfold Pool.pick
        rw [hp]
      have hhead : c.partialSlabs = s := by
        have hl := h.partials.linked
        rw [hp] at hl
        exact hl.1
      have hs : SlabAddr s := h.addr s (Pool.mem_slabs.mpr (.inr (.inl (hp ▸ List.mem_cons_self))))
      rw [hpick]
      refine ⟨c, mem, ?_, .refl c, h, fun x _ _ => rfl, ⟨fun hc => hc, rfl, rfl⟩⟩
      unfold pickSlab
      rw [if_pos (fun h0 => hs.ne_null (hhead ▸ h0)), hhead]
  | nil =>
      cases hf : p.frees with
      | cons s rest =>
          have hpick : p.pick c.objsPerSlab b = (s, { p with frees := rest, partials := [s] }) := by
            unfold Pool.pick
            rw [hp, hf]
          obtain ⟨c', mem', hrun, hshape, hrep, hbytes, hcounts⟩ := pickSlab_move h g hok hp hf b
          rw [hpick]
          exact ⟨c', mem', hrun, hshape, hrep, fun x hx _ => hbytes x hx not_false, hcounts⟩
      | nil =>
          have hpick : p.pick c.objsPerSlab b = (b, { p with
              partials := [b], chain := Function.update p.chain b (List.range c.objsPerSlab) }) := by
            unfold Pool.pick
            rw [hp, hf]
          obtain ⟨hb, hnew⟩ := hfresh hp hf
          obtain ⟨c', mem', hrun, hshape, hrep, hbytes, hcounts⟩ := pickSlab_create h g hok hp hf hb hnew
          rw [hpick]
          exact ⟨c', mem', hrun, hshape, hrep, fun x hx hextra => hbytes x hx (fun hb => hextra ⟨hp, hf, hb⟩), hcounts⟩

/-! ## A cell is taken -/

/-- The memory after the header of the slab was moved on to its next free cell. -/
def advance (c : KmemCache) (mem : Mem) (s : Nat) : Mem :=
  let obj := cellAddr c.objCellSize s (header .firstFreeIdx mem s)
  let m1 := setHeader .firstFreeIdx mem s (cellIndex c.objCellSize s (nextFree mem obj))
  setHeader .freeCount m1 s (subW 16 (header .freeCount m1 s) 1)

/-- Writing `first_free_idx` or `free_count` leaves the bytes outside these two fields alone. -/
theorem setCount_frame {f : HeaderField} (hf : f = .firstFreeIdx ∨ f = .freeCount) {x : Nat}
    (hx : x < s + 16 ∨ s + 20 ≤ x) (m : Mem) (v : Nat) : setHeader f m s v x = m x := by
  refine setHeader_frame ?_ m v
  rcases hf with rfl | rfl
  · simp only [HeaderField.offset, HeaderField.width]
    omega
  · simp only [HeaderField.offset, HeaderField.width]
    omega

theorem advance_frame {x : Nat} (hx : x < s + 16 ∨ s + 20 ≤ x) : advance c mem s x = mem x := by
  unfold advance
  rw [setCount_frame (.inr rfl) hx, setCount_frame (.inl rfl) hx]

/-- Moving on drops the first cell of the chain. -/
theorem advance_slabRep (g : Geometry c) (hs : SlabAddr s) {i : Nat} {rest : List Nat}
    (hr : ∀ j ∈ i :: rest, j < c.objsPerSlab) (hd : (i :: rest).Nodup)
    (h : SlabRep c.objCellSize mem s (i :: rest)) : SlabRep c.objCellSize (advance c mem s) s rest := by
  have hlen : (i :: rest).length ≤ c.objsPerSlab := length_le_of_inRange hd hr
  have hobjs := g.objs_lt
  have hcell := g.cell
  rw [List.length_cons] at hlen
  obtain ⟨hnext, hchained⟩ := h.chained
  have hfirst : header .firstFreeIdx mem s = i := h.first i rfl
  have hcount : header .freeCount mem s = rest.length + 1 := h.count
  let m1 := setHeader .firstFreeIdx mem s
    (cellIndex c.objCellSize s (nextFree mem (cellAddr c.objCellSize s (header .firstFreeIdx mem s))))
  have hm1 : ∀ f, header f m1 s = if f = .firstFreeIdx ∧ s = s then
      cellIndex c.objCellSize s (nextFree mem (cellAddr c.objCellSize s (header .firstFreeIdx mem s)))
      else header f mem s :=
    fun f => header_setHeader hs.aligned hs.aligned (cellIndex_lt _ _ _) mem
  have hcount1 : header .freeCount m1 s = rest.length + 1 := by
    rw [hm1, if_neg (fun h => by cases h.1)]
    exact hcount
  have hsub : subW 16 (header .freeCount m1 s) 1 = rest.length := by
    rw [hcount1, subW_of_le (by omega) (by omega)]
    rfl
  have hadv : ∀ f, header f (advance c mem s) s = if f = .freeCount ∧ s = s then rest.length else header f m1 s := by
    intro f
    show header f (setHeader .freeCount m1 s (subW 16 (header .freeCount m1 s) 1)) s = _
    rw [hsub]
    refine header_setHeader hs.aligned hs.aligned ?_ m1
    show rest.length < 2 ^ 16
    omega
  refine ⟨?_, fun j hj => ?_, hchained.congr (fun j hj x h1 h2 => ?_)⟩
  · rw [hadv, if_pos ⟨rfl, rfl⟩]
  · rw [hadv, if_neg (fun h => by cases h.1), hm1, if_pos ⟨rfl, rfl⟩, hfirst, hnext]
    cases rest with
    | nil => cases hj
    | cons k rest =>
        have hkj : k = j := Option.some.inj hj
        rw [← hkj]
        exact cellIndex_cellAddr hs (by omega) g.fits (hr k (List.mem_cons_of_mem _ List.mem_cons_self))
  · obtain ⟨hlo, hhi⟩ := cellByte_bounds g (hr j (List.mem_cons_of_mem _ hj)) h1 h2
    exact advance_frame (.inr (by omega))

/-- `slab_alloc` counts an object from the free to the allocated ones. -/
def countAlloc (c : KmemCache) : KmemCache :=
  { c with
    allocatedObjects := addW 32 c.allocatedObjects 1
    totalFreeObjects := subW 32 c.totalFreeObjects 1 }

theorem takeCell_of_more (h : header .freeCount (advance c mem s) s ≠ 0) :
    takeCell c mem s = (cellAddr c.objCellSize s (header .firstFreeIdx mem s), countAlloc c, advance c mem s) := by
  unfold advance at *
  unfold takeCell countAlloc
  rw [if_neg h]

theorem takeCell_of_last (h : header .freeCount (advance c mem s) s = 0) :
    takeCell c mem s =
      (cellAddr c.objCellSize s (header .firstFreeIdx mem s),
        { countAlloc c with
          partialSlabs := (unlinkSlab (advance c mem s) s c.partialSlabs).2
          fullSlabs := s
          totalPartialSlabs := subW 16 c.totalPartialSlabs 1
          totalFullSlabs := addW 16 c.totalFullSlabs 1 },
        linkSlab (unlinkSlab (advance c mem s) s c.partialSlabs).1 s c.fullSlabs) := by
  unfold advance at *
  unfold takeCell countAlloc
  rw [if_pos h]

/-- What an allocation does to the counters of objects. -/
structure AllocCounts (c c' : KmemCache) (p q : Pool) : Prop where
  counted : Counted c p → Counted c' q
  allocated : c'.allocatedObjects = addW 32 c.allocatedObjects 1
  freeObjects : c'.totalFreeObjects = subW 32 c.totalFreeObjects 1

/-- **The second half of `slab_alloc`.** -/
theorem takeCell_spec (h : Represents c mem p) (g : Geometry c) (hpick : p.Picked c.objsPerSlab s) :
    ∃ i rest c' mem', p.chain s = i :: rest ∧
      takeCell c mem s = (cellAddr c.objCellSize s i, c', mem') ∧ SameShape c c' ∧ Represents c' mem' (p.take s) ∧
      ChangesOnly mem mem' p.slabs (fun _ => False) ∧ AllocCounts c c' p (p.take s) := by
  obtain ⟨i, rest, hchain⟩ : ∃ i rest, p.chain s = i :: rest := List.exists_cons_of_ne_nil hpick.hasCell
  have hmem := hpick.mem_slabs
  have hs := h.addr s hmem
  have hrep : SlabRep c.objCellSize mem s (i :: rest) := hchain ▸ h.slab s hmem
  have hrange : ∀ j ∈ i :: rest, j < c.objsPerSlab := hchain ▸ hpick.inRange s hmem
  have hadv : SlabRep c.objCellSize (advance c mem s) s rest :=
    advance_slabRep g hs hrange (hchain ▸ hpick.distinct s hmem) hrep
  have hfirst : header .firstFreeIdx mem s = i := hrep.first i rfl
  have hframe : ∀ x, x < s + 16 ∨ s + 20 ≤ x → advance c mem s x = mem x := fun x hx => advance_frame hx
  have h1 : Represents c (advance c mem s) (p.setChain s rest) :=
    h.setChain g hpick.inRange hmem hadv (fun x hx => hframe x (by omega))
  have hbytes : ∀ x, (∀ t ∈ p.slabs, ¬ (t ≤ x ∧ x < t + 24)) → advance c mem s x = mem x := by
    intro x hx
    refine hframe x ?_
    by_contra hcon
    exact hx s hmem ⟨by omega, by omega⟩
  refine ⟨i, rest, ?_⟩
  cases rest with
  | cons j rest =>
      have htake : p.take s = p.setChain s (j :: rest) := by
        rw [Pool.take_more (by rw [hchain]; exact List.cons_ne_nil _ _), hchain]
        rfl
      have hne : header .freeCount (advance c mem s) s ≠ 0 := by
        rw [hadv.count]
        exact Nat.succ_ne_zero _
      refine ⟨countAlloc c, advance c mem s, hchain, ?_, ⟨rfl, rfl, rfl⟩, ?_, fun x hx _ => hbytes x hx,
        ⟨fun hc => ?_, rfl, rfl⟩⟩
      · rw [takeCell_of_more hne, hfirst]
      · rw [htake]
        exact ⟨h1.addr, h1.frees, h1.partials, h1.fulls, h1.slab, h1.ids⟩
      · rw [htake]
        exact ⟨hc.frees, hc.partials, hc.fulls⟩
  | nil =>
      have htake := Pool.take_last (p := p) (s := s) (by rw [hchain]; rfl)
      have hz : header .freeCount (advance c mem s) s = 0 := hadv.count
      obtain ⟨-, hrest, hdisj⟩ := List.nodup_append'.mp hpick.nodup
      obtain ⟨-, -, hdisj'⟩ := List.nodup_append'.mp hrest
      have haddr : ∀ t, t ∈ p.partials ∨ t ∈ p.fulls ∨ t ∈ p.frees → SlabAddr t := by
        intro t ht
        refine h.addr t (Pool.mem_slabs.mpr ?_)
        rcases ht with ht | ht | ht
        · exact .inr (.inl ht)
        · exact .inr (.inr ht)
        · exact .inl ht
      obtain ⟨m1, m2, m3, m4⟩ := move_three h1.partials h1.fulls h1.frees haddr hpick.mem
        (fun t ht hp => hdisj' hp ht) (fun t ht hp => hdisj ht (List.mem_append_left _ hp))
        (fun t ht hu => hdisj ht (List.mem_append_right _ hu))
      have hperm := Pool.take_slabs (p := p) hpick.mem
      have hlinks : ∀ x, (∀ t ∈ (p.setChain s []).slabs, ¬ LinkByte t x) →
          linkSlab (unlinkSlab (advance c mem s) s c.partialSlabs).1 s c.fullSlabs x = advance c mem s x := by
        intro x hx
        refine m4 x (fun t ht => hx t (Pool.mem_slabs.mpr ?_))
        rcases ht with ht | ht | ht
        · exact .inr (.inl ht)
        · exact .inr (.inr ht)
        · exact .inl ht
      have hr1 : ∀ t ∈ (p.setChain s []).slabs, ∀ j ∈ (p.setChain s []).chain t, j < c.objsPerSlab := by
        intro t ht j hj
        by_cases hts : t = s
        · rw [hts, setChain_self] at hj
          cases hj
        · rw [setChain_of_ne hts] at hj
          exact hpick.inRange t ht j hj
      have hrun := takeCell_of_last hz
      rw [hfirst] at hrun
      refine ⟨_, _, hchain, hrun, ⟨rfl, rfl, rfl⟩, ?_, fun x hx _ => ?_, ⟨fun hc => ?_, rfl, rfl⟩⟩
      · refine h1.relist g hr1 rfl rfl (fun t ht => hperm.mem_iff.mp ht) ?_ ?_ ?_ ?_ hlinks
        · rw [htake]
          rfl
        · rw [htake]
          exact m3
        · rw [htake]
          exact m1
        · rw [htake]
          exact m2
      · rw [← hbytes x hx]
        refine hlinks x (fun t ht hl => hx t ht ⟨hl.1, ?_⟩)
        have := hl.2
        omega
      · rw [htake]
        refine ⟨hc.frees, ?_, ?_⟩
        · show subW 16 c.totalPartialSlabs 1 = (p.partials.erase s).length % 2 ^ 16
          have hlen : p.partials.length = (p.partials.erase s).length + 1 := by
            rw [List.length_erase_of_mem hpick.mem]
            have := List.length_pos_of_mem hpick.mem
            omega
          rw [hc.partials, hlen]
          exact subW_one_mod (by decide)
        · show addW 16 c.totalFullSlabs 1 = (p.fulls.length + 1) % 2 ^ 16
          rw [hc.fulls, addW_mod]

/-- **`slab_alloc`**: it returns a free cell of the slab picked, and that cell is then taken. -/
theorem slabAlloc_spec (h : Represents c mem p) (g : Geometry c) (hok : p.Ok c.objsPerSlab) {b : Nat}
    (hfresh : FreshIfNeeded p b) :
    ∃ i rest c' mem',
      (p.pick c.objsPerSlab b).2.chain (p.pick c.objsPerSlab b).1 = i :: rest ∧
      slabAlloc c mem b = .ok (cellAddr c.objCellSize (p.pick c.objsPerSlab b).1 i, c', mem') ∧ SameShape c c' ∧
      Represents c' mem' ((p.pick c.objsPerSlab b).2.take (p.pick c.objsPerSlab b).1) ∧
      ((p.pick c.objsPerSlab b).2.take (p.pick c.objsPerSlab b).1).Ok c.objsPerSlab ∧
      ChangesOnly mem mem' p.slabs (CreatedByte p b) ∧
      AllocCounts c c' p ((p.pick c.objsPerSlab b).2.take (p.pick c.objsPerSlab b).1) := by
  have hobjs := g.objs
  have hpicked : (p.pick c.objsPerSlab b).2.Picked c.objsPerSlab (p.pick c.objsPerSlab b).1 :=
    Pool.pick_picked hok (by omega) (fun h1 h2 => (hfresh h1 h2).2)
  obtain ⟨c1, m1, hpick, hshape1, hrep1, hbytes1, hcounts1⟩ := pickSlab_spec h g hok hfresh
  obtain ⟨i, rest, c', mem', hchain, htake, hshape2, hrep2, hbytes2, hcounts2⟩ :=
    takeCell_spec hrep1 (hshape1.geometry g) (by rw [hshape1.objs]; exact hpicked)
  have hok2 := Pool.take_ok hpicked
  refine ⟨i, rest, c', mem', hchain, ?_, hshape1.trans hshape2, hrep2, hok2, fun x hx hextra => ?_, ?_⟩
  · unfold slabAlloc
    rw [hpick]
    show Except.ok (takeCell c1 m1 (p.pick c.objsPerSlab b).1) = _
    rw [htake, hshape1.cell]
  · rw [hbytes2 x ?_ not_false, hbytes1 x hx hextra]
    intro t ht hb
    rcases Pool.mem_pick_slabs ht with hold | ⟨rfl, hp, hf⟩
    · exact hx t hold hb
    · exact hextra ⟨hp, hf, hb.1, by omega⟩
  · obtain ⟨hc1, ha1, hf1⟩ := hcounts1
    obtain ⟨hc2, ha2, hf2⟩ := hcounts2
    exact ⟨fun hc => hc2 (hc1 hc), by rw [ha2, ha1], by rw [hf2, hf1]⟩

end Alloc

end LearningOS.Slab
