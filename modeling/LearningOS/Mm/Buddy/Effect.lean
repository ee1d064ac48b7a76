import LearningOS.Lib.Exchange
import LearningOS.Mm.Buddy.Index

/-!
# `Mm.Buddy.Effect` — what one call does to the lists, the nodes and the pair bits

Three facts describe a step of the allocator.

* `Effect m removed added m'` — which blocks leave the freelists and which join them, that the node cache
  moves by the same numbers, and that nothing else but the bitmap changes;
* `defect m k o` — whether the bit of a pair disagrees with the parity of its listed halves. A toggled bit
  together with one pushed or popped half changes neither side of the comparison (`Steady`), which is how
  all of the source's loops keep the bitmap in step;
* `Sound` — the shape of every block in play: aligned, within the 24 bits of `page_offset`, charted by the
  bitmap. Halves, parents and buddies of sound blocks are sound.
-/

namespace LearningOS

open Word Run Dyadic

variable {V : Type}

/-! ## Sound blocks -/

/-- The bitmap covers the allocator's range. -/
def Charted (m : Machine V) : Prop :=
  m.buddyStateMap.sizeBytes = (buddyBmpSizeBits m.maxPageOffset + 7) / 8

/-- The block of order `k` at `o` is one the allocator can deal with: its order, its alignment, the width of
    `page_offset`, and a place among the `pages` the bitmap was made for. -/
structure Sound (pages o k : Nat) : Prop where
  order_le : k ≤ maxOrder
  aligned : 2 ^ k ∣ o
  fits : o + 2 ^ k ≤ 2 ^ 24
  mapped : o / 256 * 256 < pages

section Sound

variable {pages o k j : Nat}

theorem Sound.lower (h : Sound pages o k) (hj : j ≤ k) : Sound pages o j where
  order_le := hj.trans h.order_le
  aligned := (pow_dvd_pow 2 hj).trans h.aligned
  fits := le_trans (Nat.add_le_add_left (Nat.pow_le_pow_right (by decide) hj) o) h.fits
  mapped := h.mapped

theorem Sound.lt (h : Sound pages o k) : o < 2 ^ 24 :=
  lt_of_lt_of_le (Nat.lt_add_of_pos_right (Nat.two_pow_pos k)) h.fits

/-- Both halves of an aligned pair are sound once a page of it is in range. -/
theorem Sound.ofPair {p : Nat} (hk : k ≤ maxOrder) (hd : 2 ^ (k + 1) ∣ p) (hp : p < 2 ^ 24)
    (hm : p / 256 * 256 < pages) : Sound pages p k ∧ Sound pages (p + 2 ^ k) k := by
  have hk' : k ≤ 7 := hk
  have hend : p + 2 ^ (k + 1) ≤ 2 ^ 24 := add_two_pow_le (by omega) hd hp
  have hdk : 2 ^ k ∣ p := (pow_dvd_pow 2 (Nat.le_succ k)).trans hd
  have h2 := two_pow_succ' k
  have hpos := Nat.two_pow_pos k
  have hdiv : (p + 2 ^ k) / 256 = p / 256 := by
    have h1 := parent_div (k := k) (n := 8) (by omega) (p + 2 ^ k)
    rw [parent_of_right hd] at h1
    exact h1.symm
  exact ⟨⟨hk, hdk, by omega, hm⟩,
    ⟨hk, Nat.dvd_add hdk dvd_rfl, by omega, by rw [hdiv]; exact hm⟩⟩

theorem Sound.rightHalf (h : Sound pages o k) (hj : j < k) : Sound pages (o + 2 ^ j) j := by
  have h' := h.lower (Nat.succ_le_of_lt hj)
  exact (Sound.ofPair (hj.le.trans h.order_le) h'.aligned h.lt h.mapped).2

theorem Sound.baseAt_mapped (h : Sound pages o k) (hj : j ≤ maxOrder + 1) :
    Dyadic.baseAt j o / 256 * 256 < pages := by
  have hd : Dyadic.baseAt j o / 256 = o / 256 := baseAt_div (n := 8) hj o
  rw [hd]
  exact h.mapped

/-- The block of a higher order around a sound block is sound. -/
theorem Sound.baseAt (h : Sound pages o k) (hj : j ≤ maxOrder) : Sound pages (Dyadic.baseAt j o) j where
  order_le := hj
  aligned := Dvd.intro_left _ rfl
  fits := by
    have hj' : j ≤ 7 := hj
    exact add_two_pow_le (by omega) (Dvd.intro_left _ rfl) (lt_of_le_of_lt (Nat.div_mul_le_self _ _) h.lt)
  mapped := h.baseAt_mapped (by omega)

/-- An aligned block inside a sound block is sound. -/
theorem Sound.inside {x : Nat} (h : Sound pages o k) (hd : 2 ^ j ∣ x) (h1 : o ≤ x)
    (h2 : x + 2 ^ j ≤ o + 2 ^ k) : Sound pages x j where
  order_le := by
    have hle : 2 ^ j ≤ 2 ^ k := by omega
    exact ((Nat.pow_le_pow_iff_right (by decide)).mp hle).trans h.order_le
  aligned := hd
  fits := h2.trans h.fits
  mapped := by
    have hpos := Nat.two_pow_pos j
    have hk : k ≤ 8 := h.order_le.trans (by decide)
    have hx : x / 256 = o / 256 := by
      rw [← baseAt_of_inside h.aligned h1 (by omega)]
      exact (baseAt_div (n := 8) hk x).symm
    rw [hx]
    exact h.mapped

theorem Sound.parent (h : Sound pages o k) (hk : k < maxOrder) : Sound pages (Dyadic.parent k o) (k + 1) :=
  h.baseAt hk

theorem Sound.buddy (h : Sound pages o k) : Sound pages (Dyadic.buddy k o) k := by
  have hd := parent_dvd k o
  have hs := Sound.ofPair h.order_le hd (lt_of_le_of_lt (parent_le k o) h.lt)
    (h.baseAt_mapped (Nat.succ_le_succ h.order_le))
  rcases left_or_right h.aligned with ho | ho
  · rw [ho, buddy_of_left hd]
    exact hs.2
  · rw [ho, buddy_of_right hd]
    exact hs.1

theorem Sound.lt64 (h : Sound pages o k) : o < 2 ^ 64 := lt_trans h.lt (by decide)

theorem Sound.stored (h : Sound pages o k) : storedOffset o = o := Nat.mod_eq_of_lt h.lt

/-- A sound block's pair has its bit. -/
theorem Sound.hasBit {m : Machine V} (hm : Charted m) (h : Sound m.maxPageOffset o k) : HasBit m k o := by
  have hlt : buddyBmpIndexOf o k < buddyBmpSizeBits m.maxPageOffset :=
    buddyBmpIndexOf_lt h.lt64 h.order_le h.mapped
  unfold HasBit Bitmap.InRange
  rw [hm]
  omega

end Sound

/-- Every entry on the freelists is a sound block. -/
def SoundLists (m : Machine V) : Prop :=
  ∀ k ≤ maxOrder, ∀ o ∈ m.freelists k, Sound m.maxPageOffset o k

/-! ## Nodes -/

/-- The node cache after `taken` cells were handed out and `returned` given back. -/
structure NodesMove (c : FreelistCache) (taken returned : Nat) (c' : FreelistCache) : Prop where
  cells : c'.cells + taken = c.cells + returned
  objects : (c'.allocatedObjects + returned) % 2 ^ 32 = (c.allocatedObjects + taken) % 2 ^ 32
  width : c.allocatedObjects < 2 ^ 32 → c'.allocatedObjects < 2 ^ 32

theorem NodesMove.refl (c : FreelistCache) : NodesMove c 0 0 c := ⟨rfl, rfl, id⟩

theorem NodesMove.trans {c c' c'' : FreelistCache} {t r t' r' : Nat} (h : NodesMove c t r c')
    (h' : NodesMove c' t' r' c'') : NodesMove c (t + t') (r + r') c'' := by
  have h1 := h.cells
  have h2 := h'.cells
  have h3 := h.objects
  have h4 := h'.objects
  exact ⟨by omega, by omega, fun hw => h'.width (h.width hw)⟩

theorem NodesMove.take {c : FreelistCache} (h : 0 < c.cells) : NodesMove c 1 0 c.take := by
  refine ⟨cells_take h, ?_, fun _ => ?_⟩
  · rw [allocatedObjects_take]
    omega
  · rw [allocatedObjects_take]
    exact Nat.mod_lt _ (by decide)

theorem NodesMove.slabFree (m : Machine V) : NodesMove m.freelistCache 0 1 (slabFree m).freelistCache := by
  constructor
  · simp only [LearningOS.slabFree, FreelistCache.cells]
    omega
  · simp only [LearningOS.slabFree]
    omega
  · intro _
    exact Nat.mod_lt _ (by decide)

/-! ## Effects -/

/-- The blocks `removed` left the freelists and `added` joined them; the nodes moved with them, and nothing
    but lists, nodes, bitmap and byte counters changed. -/
structure ListEffect (m : Machine V) (removed added : List Block) (m' : Machine V) : Prop where
  layout : SameLayout m m'
  lists : Exchange maxOrder m.freelists removed added m'.freelists
  nodes : NodesMove m.freelistCache added.length removed.length m'.freelistCache

/-- The same before any accounting: the byte counters are unchanged too. -/
structure Effect (m : Machine V) (removed added : List Block) (m' : Machine V) : Prop
    extends ListEffect m removed added m' where
  freeBytes : m'.freeSpaceBytes = m.freeSpaceBytes
  allocBytes : m'.allocatedBytes = m.allocatedBytes

section Effect

variable {m m' m'' : Machine V} {r a r' a' : List Block}

theorem ListEffect.refl (m : Machine V) : ListEffect m [] [] m := ⟨.refl m, .refl _, .refl _⟩

theorem ListEffect.trans (h : ListEffect m r a m') (h' : ListEffect m' r' a' m'') :
    ListEffect m (r ++ r') (a ++ a') m'' where
  layout := h.layout.trans h'.layout
  lists := h.lists.trans h'.lists
  nodes := by
    rw [List.length_append, List.length_append]
    exact h.nodes.trans h'.nodes

theorem ListEffect.setCounters (h : ListEffect m r a m') (free alloc : Nat) :
    ListEffect m r a (m'.setCounters free alloc) :=
  ⟨h.layout.trans (.setCounters m' free alloc), h.lists, h.nodes⟩

theorem Effect.refl (m : Machine V) : Effect m [] [] m := ⟨.refl m, rfl, rfl⟩

theorem Effect.trans (h : Effect m r a m') (h' : Effect m' r' a' m'') :
    Effect m (r ++ r') (a ++ a') m'' :=
  ⟨h.toListEffect.trans h'.toListEffect, h'.freeBytes.trans h.freeBytes,
    h'.allocBytes.trans h.allocBytes⟩

theorem Effect.toggleBit (h : Effect m r a m') (index : Nat) : Effect m r a (m'.toggleBit index) :=
  ⟨⟨h.layout.trans (.toggleBit m' index), h.lists, h.nodes⟩, h.freeBytes, h.allocBytes⟩

theorem Effect.setBit (h : Effect m r a m') (index value : Nat) : Effect m r a (m'.setBit index value) :=
  ⟨⟨h.layout.trans (.setBit m' index value), h.lists, h.nodes⟩, h.freeBytes, h.allocBytes⟩

/-- The block an entry records. -/
def storedBlock (b : Block) : Block := ⟨storedOffset b.offset, b.order⟩

theorem Effect.addStored {k : Nat} (o : Nat) (hc : 0 < m.freelistCache.cells) (hk : k ≤ maxOrder) :
    Effect m [] [storedBlock ⟨o, k⟩] (m.addEntry k o) where
  layout := .addEntry m k o
  lists := .push hk (storedOffset o)
  nodes := .take hc
  freeBytes := rfl
  allocBytes := rfl

theorem Effect.addEntry {k o : Nat} (hc : 0 < m.freelistCache.cells) (hk : k ≤ maxOrder)
    (ho : storedOffset o = o) : Effect m [] [⟨o, k⟩] (m.addEntry k o) := by
  have h := Effect.addStored o hc hk
  rw [storedBlock, ho] at h
  exact h

/-- The first entry of a list is taken and its node released. -/
theorem Effect.head {k o : Nat} {rest : List Nat} (hk : k ≤ maxOrder) (hl : m.freelists k = o :: rest) :
    Effect m [⟨o, k⟩] [] (slabFree (m.setFreelist k rest)) where
  layout := (SameLayout.setFreelist m k rest).trans (.slabFree _)
  lists := .tail hk hl
  nodes := .slabFree (m.setFreelist k rest)
  freeBytes := rfl
  allocBytes := rfl

/-- An entry is unlinked and its node released. -/
theorem Effect.unlink {k o : Nat} (hk : k ≤ maxOrder) (ho : o ∈ m.freelists k) :
    Effect m [⟨o, k⟩] [] (slabFree (m.setFreelist k ((m.freelists k).erase o))) where
  layout := (SameLayout.setFreelist m k _).trans (.slabFree _)
  lists := .erase hk ho
  nodes := .slabFree (m.setFreelist k _)
  freeBytes := rfl
  allocBytes := rfl

/-- An entry is unlinked, other things happen, and the same node is linked again for another block. -/
theorem Effect.relink {k o j x : Nat} {l : List Nat}
    (hl : Exchange maxOrder m.freelists [⟨o, k⟩] [] (Function.update m.freelists k l))
    (h : Effect (m.setFreelist k l) r a m') (hj : j ≤ maxOrder) :
    Effect m (⟨o, k⟩ :: r) (a ++ [⟨x, j⟩]) (m'.setFreelist j (x :: m'.freelists j)) where
  layout := ((SameLayout.setFreelist m k l).trans h.layout).trans (.setFreelist m' j _)
  lists := by
    have h1 := (hl.trans h.lists).trans (Exchange.push hj x)
    simpa using h1
  nodes := by
    have h1 := h.nodes
    have hc := h1.cells
    have ho := h1.objects
    rw [setFreelist_cache] at hc ho
    simp only [List.length_append, List.length_cons, List.length_nil, setFreelist_cache]
    exact ⟨by omega, by omega, h1.width⟩
  freeBytes := h.freeBytes
  allocBytes := h.allocBytes

end Effect

/-! ## Defects -/

/-- `1` for the two halves of the pair of order `k` around `o`. -/
def pairHit (k o : Nat) (k' o' : Nat) : Nat := if k' = k ∧ parent k o' = parent k o then 1 else 0

/-- How many entries the pair of order `k` around `o` has on the freelists. -/
def pairCount (m : Machine V) (k o : Nat) : Nat := weigh maxOrder (pairHit k o) m.freelists

/-- The pair bit and the parity of the listed halves disagree. -/
def defect (m : Machine V) (k o : Nat) : Bool := pairBit m k o ^^ decide (pairCount m k o % 2 = 1)

/-- No pair's agreement changes. -/
def Steady (m m' : Machine V) : Prop := ∀ k ≤ maxOrder, ∀ o < 2 ^ 64, defect m' k o = defect m k o

theorem Steady.refl (m : Machine V) : Steady m m := fun _ _ _ _ => rfl

theorem Steady.trans {m m' m'' : Machine V} (h : Steady m m') (h' : Steady m' m'') : Steady m m'' :=
  fun k hk o ho => (h' k hk o ho).trans (h k hk o ho)

/-- The bit of the pair of order `k` around `o` flips and no other. -/
def Flips (m m' : Machine V) (k o : Nat) : Prop :=
  ∀ k' ≤ maxOrder, ∀ o' < 2 ^ 64,
    pairBit m' k' o' = (pairBit m k' o' ^^ decide (k' = k ∧ parent k' o' = parent k o))

theorem Flips.toggleBit {m : Machine V} {k o : Nat} (hb : HasBit m k o) (ho : o < 2 ^ 64)
    (hk : k ≤ maxOrder) : Flips m (m.toggleBit (buddyBmpIndexOf o k)) k o :=
  fun _ hk' _ ho' => pairBit_toggleBit hb ho ho' hk hk'

/-- The halves of a pair share its bit. -/
theorem pairBit_congr {m : Machine V} {k o o' : Nat} (hk : k ≤ maxOrder) (ho : o < 2 ^ 64)
    (ho' : o' < 2 ^ 64) (hp : parent k o = parent k o') : pairBit m k o = pairBit m k o' := by
  unfold pairBit
  rw [(buddyBmpIndexOf_inj ho ho' hk hk).mpr ⟨rfl, hp⟩]

/-- Writing the other value flips the bit. -/
theorem Flips.setBit {m : Machine V} {k o v : Nat} (hb : HasBit m k o) (ho : o < 2 ^ 64)
    (hk : k ≤ maxOrder) (hv : pairBit m k o = !decide (0 < v)) :
    Flips m (m.setBit (buddyBmpIndexOf o k) v) k o := by
  intro k' hk' o' ho'
  rw [pairBit_setBit v hb ho ho' hk hk']
  by_cases h : k' = k ∧ parent k' o' = parent k o
  · obtain ⟨rfl, hp⟩ := h
    rw [if_pos ⟨rfl, hp⟩, pairBit_congr hk ho' ho hp, hv]
    simp [hp]
  · rw [if_neg h, decide_eq_false h, Bool.xor_false]

/-- **One half pushed or popped and the pair's bit flipped: no agreement changes.** -/
theorem Flips.steady {m m' : Machine V} {k o x : Nat} (hf : Flips m m' k o) (hp : parent k x = parent k o)
    (hx : Exchange maxOrder m.freelists [⟨x, k⟩] [] m'.freelists ∨
      Exchange maxOrder m.freelists [] [⟨x, k⟩] m'.freelists) : Steady m m' := by
  intro k' hk' o' ho'
  unfold defect
  rw [hf k' hk' o' ho']
  by_cases h : k' = k ∧ parent k' o' = parent k o
  · have h1 : pairHit k' o' k x = 1 := by
      obtain ⟨rfl, hp'⟩ := h
      exact if_pos ⟨rfl, hp.trans hp'.symm⟩
    have hc : (pairCount m' k' o' % 2 = 1) = ¬ (pairCount m k' o' % 2 = 1) := by
      rcases hx with hx | hx
      · have := hx (pairHit k' o')
        simp only [total_cons, total_nil, h1] at this
        unfold pairCount
        exact propext (by omega)
      · have := hx (pairHit k' o')
        simp only [total_cons, total_nil, h1] at this
        unfold pairCount
        exact propext (by omega)
    rw [decide_eq_true h]
    by_cases hq : pairCount m k' o' % 2 = 1
    · simp [hc, hq]
    · simp [hc, hq]
  · have h0 : pairHit k' o' k x = 0 := by
      unfold pairHit
      rw [if_neg]
      rintro ⟨rfl, hp'⟩
      exact h ⟨rfl, hp'.symm.trans hp⟩
    have hc : pairCount m' k' o' = pairCount m k' o' := by
      rcases hx with hx | hx
      · have := hx (pairHit k' o')
        simp only [total_cons, total_nil, h0] at this
        exact this
      · have := hx (pairHit k' o')
        simp only [total_cons, total_nil, h0] at this
        exact this
    rw [decide_eq_false h, Bool.xor_false, hc]

end LearningOS
