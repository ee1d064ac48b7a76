import LearningOS.Mm.Slab.Model
import LearningOS.Lib.Linked

/-!
# `Mm.Slab.Layout` — headers, cells and list links in memory

What the accessors of `Mm.Slab.Model` do to the bytes. A slab address is a multiple of the slab size, so two
headers, two cells, or a header and a cell never overlap; from this follow the read-after-write laws of the
header fields, and that `__link_slab` and `__unlink_slab` are the updates of `Lib.Linked`.
-/

namespace LearningOS.Slab

open Word Run Bytes Linked

/-! ## Addresses -/

/-- An address `vm_alloc_block` may give for a slab: not `NULL`, aligned, and the slab fits below `2 ^ 64`. -/
structure SlabAddr (s : Nat) : Prop where
  aligned : 8192 ∣ s
  pos : 0 < s
  fits : s + 8192 ≤ 2 ^ 64

theorem SlabAddr.ne_null {s : Nat} (h : SlabAddr s) : s ≠ 0 := h.pos.ne'

theorem SlabAddr.lt {s : Nat} (h : SlabAddr s) : s < 2 ^ 64 := by
  have := h.fits
  omega

/-- Two different multiples of the slab size are a slab apart. -/
theorem slabs_apart {s t : Nat} (hs : 8192 ∣ s) (ht : 8192 ∣ t) (h : s ≠ t) :
    s + 8192 ≤ t ∨ t + 8192 ≤ s := by
  obtain ⟨a, rfl⟩ := hs
  obtain ⟨b, rfl⟩ := ht
  have hab : a ≠ b := fun he => h (by rw [he])
  rcases Nat.lt_or_gt_of_ne hab with hlt | hlt
  · exact .inl (by omega)
  · exact .inr (by omega)

theorem cellAddr_eq (cell s i : Nat) : cellAddr cell s i = s + 24 + i * cell := rfl

/-- The cells of a slab lie behind its header and inside the slab. -/
theorem cellAddr_bounds {cell n s i : Nat} (hfit : n * cell ≤ 8168) (hi : i < n) :
    s + 24 ≤ cellAddr cell s i ∧ cellAddr cell s i + cell ≤ s + 8192 := by
  have hmul : (i + 1) * cell ≤ n * cell := Nat.mul_le_mul_right cell hi
  rw [Nat.succ_mul] at hmul
  rw [cellAddr_eq]
  omega

/-- Two cells of one slab are a cell apart. -/
theorem cells_apart (cell s : Nat) {i j : Nat} (h : i ≠ j) :
    cellAddr cell s i + cell ≤ cellAddr cell s j ∨ cellAddr cell s j + cell ≤ cellAddr cell s i := by
  rw [cellAddr_eq, cellAddr_eq]
  rcases Nat.lt_or_gt_of_ne h with hlt | hlt
  · have hmul : (i + 1) * cell ≤ j * cell := Nat.mul_le_mul_right cell hlt
    rw [Nat.succ_mul] at hmul
    exact .inl (by omega)
  · have hmul : (j + 1) * cell ≤ i * cell := Nat.mul_le_mul_right cell hlt
    rw [Nat.succ_mul] at hmul
    exact .inr (by omega)

/-- `aligndown` finds the slab an address lies in. -/
theorem slabOf_eq {s x : Nat} (hs : SlabAddr s) (h1 : s ≤ x) (h2 : x < s + 8192) : slabOf x = s := by
  have hfits := hs.fits
  obtain ⟨a, ha⟩ := hs.aligned
  unfold slabOf
  rw [truncNBits_eq (by omega) (by decide)]
  show x / 8192 * 8192 = s
  omega

/-- The index of a cell is recovered from its address. -/
theorem cellIndex_cellAddr {cell n s i : Nat} (hs : SlabAddr s) (hcell : 0 < cell)
    (hfit : n * cell ≤ 8168) (hi : i < n) : cellIndex cell s (cellAddr cell s i) = i := by
  obtain ⟨hlo, hhi⟩ := cellAddr_bounds (s := s) hfit hi
  have hfits := hs.fits
  have hdiff : cellAddr cell s i - (s + 24) = i * cell := by
    rw [cellAddr_eq]
    omega
  have hmul : i * 1 ≤ i * cell := Nat.mul_le_mul_left i hcell
  have hi16 : i < 2 ^ 16 := by omega
  show ((ptrDiff (cellAddr cell s i) (s + 24)).tdiv cell % 2 ^ 16).toNat = i
  rw [ptrDiff_of_le (by omega) hlo (by omega), hdiff]
  push_cast
  rw [Int.mul_tdiv_cancel _ (by omega)]
  omega

theorem cellIndex_lt (cell s ptr : Nat) : cellIndex cell s ptr < 2 ^ 16 := by
  unfold cellIndex
  have h1 := Int.emod_nonneg ((ptrDiff ptr (s + slabHeaderSize)).tdiv cell) (show (2 ^ 16 : Int) ≠ 0 by decide)
  have h2 := Int.emod_lt_of_pos ((ptrDiff ptr (s + slabHeaderSize)).tdiv cell) (show (0 : Int) < 2 ^ 16 by decide)
  omega

/-! ## Header fields -/

theorem header_fits (f : HeaderField) : f.offset + f.width ≤ 24 := by
  cases f <;> decide

/-- Two different fields do not overlap. -/
theorem fields_apart {f g : HeaderField} (h : f ≠ g) :
    f.offset + f.width ≤ g.offset ∨ g.offset + g.width ≤ f.offset := by
  cases f <;> cases g <;> first | exact absurd rfl h | decide

/-- **Read after write**, for the fields of all headers. -/
theorem header_setHeader {f g : HeaderField} {s t v : Nat} (hs : 8192 ∣ s) (ht : 8192 ∣ t)
    (hv : v < 256 ^ g.width) (mem : Mem) :
    header f (setHeader g mem s v) t = if f = g ∧ t = s then v else header f mem t := by
  unfold header setHeader
  by_cases hst : t = s
  · subst hst
    by_cases hfg : f = g
    · subst hfg
      rw [load_store hv, if_pos ⟨rfl, rfl⟩]
    · rw [if_neg (fun h => hfg h.1)]
      refine load_store_of_disjoint ?_ mem v
      rcases fields_apart hfg with h | h
      · exact .inl (by omega)
      · exact .inr (by omega)
  · rw [if_neg (fun h => hst h.2)]
    refine load_store_of_disjoint ?_ mem v
    have hf := header_fits f
    have hg := header_fits g
    rcases slabs_apart ht hs hst with h | h
    · exact .inl (by omega)
    · exact .inr (by omega)

/-- A field is read from the header bytes only. -/
theorem header_congr {f : HeaderField} {mem mem' : Mem} {s : Nat}
    (h : ∀ x, s + f.offset ≤ x → x < s + f.offset + f.width → mem' x = mem x) :
    header f mem' s = header f mem s :=
  load_congr h

/-- Writing a field leaves the bytes outside it alone. -/
theorem setHeader_frame {f : HeaderField} {s x : Nat} (h : x < s + f.offset ∨ s + f.offset + f.width ≤ x)
    (mem : Mem) (v : Nat) : setHeader f mem s v x = mem x :=
  store_frame h mem v

/-! ## Links -/

/-- The list links of all slabs. -/
def slabLinks (mem : Mem) : Links Nat := ⟨header .prev mem, header .next mem⟩

/-- The bytes of the two link fields of a slab. -/
def LinkByte (s x : Nat) : Prop := s ≤ x ∧ x < s + 16

/-- The link fields of the slabs `l` agree in two memories. -/
def SameLinks (mem mem' : Mem) (l : List Nat) : Prop :=
  ∀ s ∈ l, header .prev mem' s = header .prev mem s ∧ header .next mem' s = header .next mem s

theorem sameLinks_of_bytes {mem mem' : Mem} {l : List Nat} (h : ∀ s ∈ l, ∀ x, LinkByte s x → mem' x = mem x) :
    SameLinks mem mem' l := by
  intro s hs
  refine ⟨header_congr (fun x h1 h2 => h s hs x ?_), header_congr (fun x h1 h2 => h s hs x ?_)⟩
  · simp only [HeaderField.offset, HeaderField.width] at h1 h2
    exact ⟨by omega, by omega⟩
  · simp only [HeaderField.offset, HeaderField.width] at h1 h2
    exact ⟨by omega, by omega⟩

theorem spells_of_sameLinks {mem mem' : Mem} {head : Nat} {l : List Nat} (h : Spells (slabLinks mem) 0 head l)
    (hsame : SameLinks mem mem' l) : Spells (slabLinks mem') 0 head l :=
  h.congr hsame

/-- A possible value of a list link: `NULL` or a slab. -/
structure LinkValue (v : Nat) : Prop where
  aligned : 8192 ∣ v
  lt : v < 2 ^ 64

theorem SlabAddr.linkValue {s : Nat} (h : SlabAddr s) : LinkValue s := ⟨h.aligned, h.lt⟩

theorem linkValue_null : LinkValue 0 := ⟨Nat.dvd_zero _, by decide⟩

/-- Setting a link, read back. -/
theorem header_setLink {f g : HeaderField} {s t v : Nat} (hg : g = .prev ∨ g = .next) (hs : 8192 ∣ s)
    (ht : 8192 ∣ t) (hv : LinkValue v) (mem : Mem) :
    header f (setHeader g mem s v) t = if f = g ∧ t = s then v else header f mem t := by
  refine header_setHeader hs ht ?_ mem
  rcases hg with rfl | rfl
  · exact hv.lt
  · exact hv.lt

/-- `__link_slab` is the push of `Lib.Linked`, seen at the addresses of slabs. -/
theorem linkSlab_links {mem : Mem} {s head b : Nat} (hs : LinkValue s) (hh : LinkValue head) (hb : 8192 ∣ b) :
    header .prev (linkSlab mem s head) b = ((slabLinks mem).push 0 head s).prev b ∧
    header .next (linkSlab mem s head) b = ((slabLinks mem).push 0 head s).next b := by
  have hnext : ∀ f, header f (setHeader .next mem s head) b = if f = .next ∧ b = s then head else header f mem b :=
    fun f => header_setLink (.inr rfl) hs.aligned hb hh mem
  have hprev : ∀ f, header f (setHeader .prev (setHeader .next mem s head) s 0) b =
      if f = .prev ∧ b = s then 0 else header f (setHeader .next mem s head) b :=
    fun f => header_setLink (.inl rfl) hs.aligned hb linkValue_null _
  rw [push_prev, push_next]
  unfold linkSlab
  by_cases hnull : head = 0
  · have hif : ¬ head ≠ 0 := not_not.mpr hnull
    simp only [if_neg hif]
    rw [hprev, hprev, hnext, hnext]
    simp [hnull, slabLinks]
  · simp only [if_pos hnull]
    rw [header_setLink (.inl rfl) hh.aligned hb hs, header_setLink (.inl rfl) hh.aligned hb hs, hprev, hprev,
      hnext, hnext]
    simp [hnull, slabLinks]

/-- Setting a link leaves the bytes that are not the slab's links alone. -/
theorem setLink_frame {f : HeaderField} (hf : f = .prev ∨ f = .next) {s x : Nat} (hs : ¬ LinkByte s x)
    (mem : Mem) (v : Nat) : setHeader f mem s v x = mem x := by
  refine setHeader_frame ?_ mem v
  by_contra hcon
  refine hs ?_
  rcases hf with rfl | rfl
  · simp only [HeaderField.offset, HeaderField.width] at hcon
    exact ⟨by omega, by omega⟩
  · simp only [HeaderField.offset, HeaderField.width] at hcon
    exact ⟨by omega, by omega⟩

/-- Linking a slab touches its links and those of the old head. -/
theorem linkSlab_frame {mem : Mem} {s head x : Nat} (hs : ¬ LinkByte s x) (hh : head ≠ 0 → ¬ LinkByte head x) :
    linkSlab mem s head x = mem x := by
  unfold linkSlab
  by_cases hnull : head = 0
  · simp only [if_neg (not_not.mpr hnull)]
    rw [setLink_frame (.inl rfl) hs, setLink_frame (.inr rfl) hs]
  · simp only [if_pos hnull]
    rw [setLink_frame (.inl rfl) (hh hnull), setLink_frame (.inl rfl) hs, setLink_frame (.inr rfl) hs]

/-- `__unlink_slab` is the unlinking of `Lib.Linked`, seen at the addresses of slabs. -/
theorem unlinkSlab_links {mem : Mem} {s head b : Nat} (hs : LinkValue s) (hp : LinkValue (header .prev mem s))
    (hn : LinkValue (header .next mem s)) (hself : header .prev mem s ≠ s) (hb : 8192 ∣ b) :
    header .prev (unlinkSlab mem s head).1 b = ((slabLinks mem).unlink 0 s).prev b ∧
    header .next (unlinkSlab mem s head).1 b = ((slabLinks mem).unlink 0 s).next b := by
  obtain ⟨hlnext, hlprev⟩ := @unlink_fields Nat _ (slabLinks mem) 0 s hself b
  rw [hlnext, hlprev]
  simp only [slabLinks]
  unfold unlinkSlab
  by_cases hp0 : header .prev mem s = 0
  · simp only [if_neg (not_not.mpr hp0)]
    by_cases hn0 : header .next mem s = 0
    · simp only [if_neg (not_not.mpr hn0)]
      simp [hp0, hn0]
    · simp only [if_pos hn0]
      rw [header_setLink (.inl rfl) hn.aligned hb hp, header_setLink (.inl rfl) hn.aligned hb hp]
      simp [hp0, hn0]
  · simp only [if_pos hp0]
    -- The predecessor's link is set first; the slab's own links are read back unchanged.
    have hset : ∀ (f : HeaderField) (t : Nat), 8192 ∣ t →
        header f (setHeader .next mem (header .prev mem s) (header .next mem s)) t =
          if f = .next ∧ t = header .prev mem s then header .next mem s else header f mem t :=
      fun f t ht => header_setLink (.inr rfl) hp.aligned ht hn mem
    have hnext : header .next (setHeader .next mem (header .prev mem s) (header .next mem s)) s =
        header .next mem s := by
      rw [hset _ s hs.aligned, if_neg (fun h => hself h.2.symm)]
    have hprev : header .prev (setHeader .next mem (header .prev mem s) (header .next mem s)) s =
        header .prev mem s := by
      rw [hset _ s hs.aligned, if_neg (fun h => by cases h.1)]
    rw [hnext, hprev]
    by_cases hn0 : header .next mem s = 0
    · simp only [if_neg (not_not.mpr hn0)]
      rw [hset _ b hb, hset _ b hb]
      simp [hp0, hn0]
    · simp only [if_pos hn0]
      rw [header_setLink (.inl rfl) hn.aligned hb hp, header_setLink (.inl rfl) hn.aligned hb hp, hset _ b hb,
        hset _ b hb]
      simp [hp0, hn0]

theorem unlinkSlab_head (mem : Mem) (s head : Nat) :
    (unlinkSlab mem s head).2 = (slabLinks mem).unlinkHead 0 head s := by
  unfold unlinkSlab Links.unlinkHead slabLinks
  by_cases hp0 : header .prev mem s = 0
  · simp only [if_neg (not_not.mpr hp0)]
    split <;> rfl
  · simp only [if_pos hp0]
    split <;> rfl

/-- Unlinking a slab touches the links of its neighbours. -/
theorem unlinkSlab_frame {mem : Mem} {s head x : Nat} (hs : LinkValue s) (hp : LinkValue (header .prev mem s))
    (hn : LinkValue (header .next mem s)) (hself : header .prev mem s ≠ s)
    (hpx : header .prev mem s ≠ 0 → ¬ LinkByte (header .prev mem s) x)
    (hnx : header .next mem s ≠ 0 → ¬ LinkByte (header .next mem s) x) :
    (unlinkSlab mem s head).1 x = mem x := by
  unfold unlinkSlab
  by_cases hp0 : header .prev mem s = 0
  · simp only [if_neg (not_not.mpr hp0)]
    by_cases hn0 : header .next mem s = 0
    · simp only [if_neg (not_not.mpr hn0)]
    · simp only [if_pos hn0]
      exact setLink_frame (.inl rfl) (hnx hn0) _ _
  · simp only [if_pos hp0]
    have hnext : header .next (setHeader .next mem (header .prev mem s) (header .next mem s)) s =
        header .next mem s := by
      rw [header_setLink (.inr rfl) hp.aligned hs.aligned hn, if_neg (fun h => hself h.2.symm)]
    rw [hnext]
    by_cases hn0 : header .next mem s = 0
    · simp only [if_neg (not_not.mpr hn0)]
      exact setLink_frame (.inr rfl) (hpx hp0) _ _
    · simp only [if_pos hn0]
      rw [setLink_frame (.inl rfl) (hnx hn0), setLink_frame (.inr rfl) (hpx hp0)]

/-! ## Moving a slab between lists -/

section Lists

variable {mem : Mem} {s head : Nat} {l : List Nat}

theorem linkValue_of_spells (h : Spells (slabLinks mem) 0 head l) (haddr : ∀ t ∈ l, SlabAddr t) :
    LinkValue head := by
  by_cases h0 : head = 0
  · rw [h0]
    exact linkValue_null
  · obtain ⟨rest, rfl⟩ := h.eq_cons h0
    exact (haddr _ List.mem_cons_self).linkValue

/-- What the links of a slab on a list can be. -/
theorem links_of_mem (h : Spells (slabLinks mem) 0 head l) (haddr : ∀ t ∈ l, SlabAddr t) (hs : s ∈ l) :
    LinkValue (header .prev mem s) ∧ LinkValue (header .next mem s) ∧ header .prev mem s ≠ s ∧
    (header .prev mem s ≠ 0 → header .prev mem s ∈ l) ∧ (header .next mem s ≠ 0 → header .next mem s ∈ l) := by
  have hnull : (0 : Nat) ∉ l := fun hm => h.linked.ne_null hm rfl
  have hprev : header .prev mem s = 0 ∨ header .prev mem s ∈ l := h.linked.prev_mem hs
  have hnext : header .next mem s = 0 ∨ header .next mem s ∈ l := h.linked.next_mem hs
  have hvalue : ∀ {v : Nat}, v = 0 ∨ v ∈ l → LinkValue v := by
    rintro v (rfl | hv)
    · exact linkValue_null
    · exact (haddr v hv).linkValue
  exact ⟨hvalue hprev, hvalue hnext, h.linked.prev_ne h.nodup hnull hs, hprev.resolve_left, hnext.resolve_left⟩

/-- `__link_slab` pushes. -/
theorem linkSlab_spells (h : Spells (slabLinks mem) 0 head l) (haddr : ∀ t ∈ l, SlabAddr t) (hs : SlabAddr s)
    (hsl : s ∉ l) : Spells (slabLinks (linkSlab mem s head)) 0 s (s :: l) := by
  refine (h.push hsl hs.ne_null).congr (fun t ht => ?_)
  refine linkSlab_links hs.linkValue (linkValue_of_spells h haddr) ?_
  rcases List.mem_cons.mp ht with rfl | ht
  · exact hs.aligned
  · exact (haddr t ht).aligned

/-- `__unlink_slab` takes out. -/
theorem unlinkSlab_spells (h : Spells (slabLinks mem) 0 head l) (haddr : ∀ t ∈ l, SlabAddr t) (hs : s ∈ l) :
    Spells (slabLinks (unlinkSlab mem s head).1) 0 (unlinkSlab mem s head).2 (l.erase s) := by
  obtain ⟨hp, hn, hself, -, -⟩ := links_of_mem h haddr hs
  rw [unlinkSlab_head]
  refine (h.unlink hs).congr (fun t ht => ?_)
  exact unlinkSlab_links (haddr s hs).linkValue hp hn hself (haddr t (List.mem_of_mem_erase ht)).aligned

theorem unlinkSlab_bytes (h : Spells (slabLinks mem) 0 head l) (haddr : ∀ t ∈ l, SlabAddr t) (hs : s ∈ l) {x : Nat}
    (hx : ∀ t ∈ l, ¬ LinkByte t x) : (unlinkSlab mem s head).1 x = mem x := by
  obtain ⟨hp, hn, hself, hpm, hnm⟩ := links_of_mem h haddr hs
  exact unlinkSlab_frame (haddr s hs).linkValue hp hn hself (fun h0 => hx _ (hpm h0)) (fun h0 => hx _ (hnm h0))

theorem linkSlab_bytes (h : Spells (slabLinks mem) 0 head l) {x : Nat} (hs : ¬ LinkByte s x)
    (hx : ∀ t ∈ l, ¬ LinkByte t x) : linkSlab mem s head x = mem x := by
  refine linkSlab_frame hs (fun h0 => hx head ?_)
  obtain ⟨rest, rfl⟩ := h.eq_cons h0
  exact List.mem_cons_self

/-- Slabs whose links lie apart keep them when only the links of others change. -/
theorem spells_of_bytes (h : Spells (slabLinks mem) 0 head l) (haddr : ∀ t ∈ l, SlabAddr t) {mem' : Mem}
    (touched : List Nat) (htaddr : ∀ t ∈ touched, SlabAddr t) (hdisj : ∀ t ∈ l, t ∉ touched)
    (hx : ∀ x, (∀ t ∈ touched, ¬ LinkByte t x) → mem' x = mem x) : Spells (slabLinks mem') 0 head l := by
  refine spells_of_sameLinks h (sameLinks_of_bytes (fun t ht x hb => hx x (fun u hu hbu => ?_)))
  have hne : t ≠ u := fun he => hdisj t ht (he ▸ hu)
  obtain ⟨h1, h2⟩ := hb
  obtain ⟨h3, h4⟩ := hbu
  rcases slabs_apart (haddr t ht).aligned (htaddr u hu).aligned hne with h | h
  · omega
  · omega

/-- **Moving a slab** from one list to the front of another: both lists, and the bytes that change. -/
theorem move_spells {toHead : Nat} {dest : List Nat} (hfrom : Spells (slabLinks mem) 0 head l)
    (hto : Spells (slabLinks mem) 0 toHead dest) (haddr : ∀ t ∈ l ++ dest, SlabAddr t) (hs : s ∈ l)
    (hdisj : ∀ t ∈ dest, t ∉ l) :
    Spells (slabLinks (linkSlab (unlinkSlab mem s head).1 s toHead)) 0 (unlinkSlab mem s head).2 (l.erase s) ∧
    Spells (slabLinks (linkSlab (unlinkSlab mem s head).1 s toHead)) 0 s (s :: dest) ∧
    (∀ x, (∀ t ∈ l ++ dest, ¬ LinkByte t x) →
      linkSlab (unlinkSlab mem s head).1 s toHead x = mem x) := by
  have hfaddr : ∀ t ∈ l, SlabAddr t := fun t ht => haddr t (List.mem_append_left _ ht)
  have htaddr : ∀ t ∈ dest, SlabAddr t := fun t ht => haddr t (List.mem_append_right _ ht)
  have hsaddr := hfaddr s hs
  have hfrom1 := unlinkSlab_spells hfrom hfaddr hs
  have hto1 : Spells (slabLinks (unlinkSlab mem s head).1) 0 toHead dest :=
    spells_of_bytes hto htaddr l hfaddr hdisj (fun x hx => unlinkSlab_bytes hfrom hfaddr hs hx)
  refine ⟨?_, linkSlab_spells hto1 htaddr hsaddr (fun hm => hdisj s hm hs), fun x hx => ?_⟩
  · refine spells_of_bytes hfrom1 (fun t ht => hfaddr t (List.mem_of_mem_erase ht)) (s :: dest) ?_ ?_ ?_
    · intro t ht
      rcases List.mem_cons.mp ht with rfl | ht
      · exact hsaddr
      · exact htaddr t ht
    · intro t ht hm
      rcases List.mem_cons.mp hm with rfl | hm
      · exact hfrom.nodup.not_mem_erase ht
      · exact hdisj t hm (List.mem_of_mem_erase ht)
    · intro x hx
      exact linkSlab_bytes hto1 (hx s List.mem_cons_self) (fun t ht => hx t (List.mem_cons_of_mem _ ht))
  · rw [linkSlab_bytes hto1 (hx s (List.mem_append_left _ hs)) (fun t ht => hx t (List.mem_append_right _ ht))]
    exact unlinkSlab_bytes hfrom hfaddr hs (fun t ht => hx t (List.mem_append_left _ ht))

end Lists

end LearningOS.Slab
