import Mathlib.Algebra.BigOperators.Group.Finset.Basic
import Mathlib.Algebra.BigOperators.Group.List.Basic
import Mathlib.Data.Nat.Bitwise
import Mathlib.Tactic.Ring
import Mathlib.Tactic.Linarith

/-!
# `Lib.Dyadic` — blocks of `2 ^ order` pages

The arithmetic under every buddy system: blocks of a power-of-two number of pages, the two halves of a
block, the buddy of a block, and the binary decomposition of a length. Nothing here knows what the pages are
or which allocator hands them out.

The main device is the **additive weight**: a function `f order offset` with
`f (k + 1) o = f k o + f k (o + 2 ^ k)`. The number of times a page is covered (`hit p`) and the size of a
block are additive, so one equation per operation (`total f` after `= total f` before) says at once that no
page is lost or duplicated and that the byte counts are right. `weigh` is the total over a family of lists
indexed by order.
-/

namespace Dyadic

/-- The block of `2 ^ order` pages that starts at page `offset`. -/
structure Block where
  offset : Nat
  order : Nat
deriving DecidableEq, Repr

/-- Page `p` lies in the block. -/
def Block.has (b : Block) (p : Nat) : Bool := decide (b.offset ≤ p ∧ p < b.offset + 2 ^ b.order)

/-- The block starts at a multiple of its own size. -/
def Block.Aligned (b : Block) : Prop := 2 ^ b.order ∣ b.offset

instance (b : Block) : Decidable b.Aligned := inferInstanceAs (Decidable (2 ^ b.order ∣ b.offset))

/-- No page lies in both blocks. -/
def Block.Disjoint (a b : Block) : Prop := ∀ p, ¬ (a.has p = true ∧ b.has p = true)

theorem Block.has_iff {b : Block} {p : Nat} :
    b.has p = true ↔ b.offset ≤ p ∧ p < b.offset + 2 ^ b.order := by
  simp [Block.has]

/-- How many of the blocks hold page `p`. -/
def cover (bs : List Block) (p : Nat) : Nat := bs.countP (·.has p)

/-! ## Covering -/

@[simp] theorem cover_nil (p : Nat) : cover [] p = 0 := rfl

theorem cover_append (as bs : List Block) (p : Nat) :
    cover (as ++ bs) p = cover as p + cover bs p := by
  simp [cover, List.countP_append]

theorem cover_pos_iff {bs : List Block} {p : Nat} : 0 < cover bs p ↔ ∃ b ∈ bs, b.has p = true := by
  unfold cover
  rw [List.countP_pos_iff]

/-- Blocks that cover no page twice are pairwise disjoint. -/
theorem pairwise_disjoint_of_cover {bs : List Block} (h : ∀ p, cover bs p ≤ 1) :
    bs.Pairwise Block.Disjoint := by
  induction bs with
  | nil => exact List.Pairwise.nil
  | cons a as ih =>
      have hcons : ∀ p, cover (a :: as) p = cover [a] p + cover as p := fun p => cover_append [a] as p
      refine List.Pairwise.cons ?_ (ih (fun p => by have := h p; have := hcons p; omega))
      intro b hb p ⟨ha, hbp⟩
      have h1 : 0 < cover [a] p := cover_pos_iff.mpr ⟨a, List.mem_singleton.mpr rfl, ha⟩
      have h2 : 0 < cover as p := cover_pos_iff.mpr ⟨b, hb, hbp⟩
      have := h p
      have := hcons p
      omega

/-! ## SplitAdditive weights -/

/-- A weight of blocks that splitting a block into its halves does not change. -/
def SplitAdditive (f : Nat → Nat → Nat) : Prop := ∀ k o, f (k + 1) o = f k o + f k (o + 2 ^ k)

/-- The weight of a list of blocks. -/
def total (f : Nat → Nat → Nat) (bs : List Block) : Nat := (bs.map fun b => f b.order b.offset).sum

/-- `1` if page `p` lies in the block of order `k` at `o`, else `0`. -/
def hit (p k o : Nat) : Nat := if o ≤ p ∧ p < o + 2 ^ k then 1 else 0

@[simp] theorem total_nil (f : Nat → Nat → Nat) : total f [] = 0 := rfl

@[simp] theorem total_cons (f : Nat → Nat → Nat) (b : Block) (bs : List Block) :
    total f (b :: bs) = f b.order b.offset + total f bs := rfl

theorem total_append (f : Nat → Nat → Nat) (as bs : List Block) :
    total f (as ++ bs) = total f as + total f bs := by
  simp [total]

theorem total_erase (f : Nat → Nat → Nat) {b : Block} {bs : List Block} (h : b ∈ bs) :
    total f (bs.erase b) + f b.order b.offset = total f bs := by
  have hp := (List.perm_cons_erase h).map (fun b : Block => f b.order b.offset)
  have hs := hp.sum_eq
  simp only [total, List.map_cons, List.sum_cons] at hs ⊢
  omega

theorem hit_additive (p : Nat) : SplitAdditive (hit p) := by
  intro k o
  have h2 : 2 ^ (k + 1) = 2 ^ k + 2 ^ k := by rw [pow_succ]; omega
  unfold hit
  by_cases h1 : o ≤ p
  · by_cases h3 : p < o + 2 ^ k
    · rw [if_pos ⟨h1, by omega⟩, if_pos ⟨h1, h3⟩, if_neg (by omega)]
    · by_cases h4 : p < o + 2 ^ (k + 1)
      · rw [if_pos ⟨h1, h4⟩, if_neg (by omega), if_pos (by omega)]
      · rw [if_neg (by omega), if_neg (by omega), if_neg (by omega)]
  · rw [if_neg (by omega), if_neg (by omega), if_neg (by omega)]

theorem cover_eq_total (bs : List Block) (p : Nat) : cover bs p = total (hit p) bs := by
  induction bs with
  | nil => rfl
  | cons b bs ih =>
      unfold cover at ih ⊢
      rw [List.countP_cons, total_cons, ih]
      by_cases h : b.offset ≤ p ∧ p < b.offset + 2 ^ b.order
      · simp [Block.has, hit, h, Nat.add_comm]
      · simp [Block.has, hit, h]

/-- A page two different listed blocks share is covered twice. -/
theorem two_le_cover {bs : List Block} {b c : Block} {p : Nat} (hb : b ∈ bs) (hc : c ∈ bs) (hne : b ≠ c)
    (hbp : b.has p = true) (hcp : c.has p = true) : 2 ≤ cover bs p := by
  have hc' : c ∈ bs.erase b := (List.mem_erase_of_ne (Ne.symm hne)).mpr hc
  have h1 : 0 < cover (bs.erase b) p := cover_pos_iff.mpr ⟨c, hc', hcp⟩
  have h2 := total_erase (hit p) hb
  have h3 : hit p b.order b.offset = 1 := if_pos (Block.has_iff.mp hbp)
  rw [← cover_eq_total, ← cover_eq_total] at h2
  omega

/-- A block listed twice covers its pages twice. -/
theorem count_le_one {bs : List Block} {b : Block} (h : cover bs b.offset ≤ 1) : bs.count b ≤ 1 := by
  have hown : b.has b.offset = true := Block.has_iff.mpr ⟨le_rfl, Nat.lt_add_of_pos_right (Nat.two_pow_pos _)⟩
  have hle : bs.count b ≤ cover bs b.offset := by
    unfold cover List.count
    refine List.countP_mono_left (fun c _ hc => ?_)
    rw [eq_of_beq hc]
    exact hown
  omega

/-! ## Families of lists indexed by order -/

section Family

variable (K : Nat) (f : Nat → Nat → Nat)

/-- The total weight of the blocks listed at orders `0 … K`. -/
def weigh (fl : Nat → List Nat) : Nat := ∑ k ∈ Finset.range (K + 1), ((fl k).map (f k)).sum

/-- The blocks listed at orders `0 … K`. -/
def blocksOf (fl : Nat → List Nat) : List Block :=
  (List.range (K + 1)).flatMap fun k => (fl k).map (Block.mk · k)

variable {K f}

theorem mem_blocksOf {fl : Nat → List Nat} {b : Block} :
    b ∈ blocksOf K fl ↔ b.order ≤ K ∧ b.offset ∈ fl b.order := by
  simp only [blocksOf, List.mem_flatMap, List.mem_range, List.mem_map]
  constructor
  · rintro ⟨k, hk, o, ho, rfl⟩
    exact ⟨Nat.le_of_lt_succ hk, ho⟩
  · rintro ⟨hk, ho⟩
    exact ⟨b.order, by omega, b.offset, ho, rfl⟩

theorem total_blocksOf (fl : Nat → List Nat) : total f (blocksOf K fl) = weigh K f fl := by
  have hks : ∀ ks : List Nat, total f (ks.flatMap fun k => (fl k).map (Block.mk · k))
      = (ks.map fun k => ((fl k).map (f k)).sum).sum := by
    intro ks
    induction ks with
    | nil => rfl
    | cons k ks ih =>
        rw [List.flatMap_cons, total_append, ih, List.map_cons, List.sum_cons]
        simp [total, Function.comp_def]
  exact hks _

theorem weigh_congr {g : Nat → Nat → Nat} {fl : Nat → List Nat} (h : ∀ k ≤ K, ∀ o ∈ fl k, f k o = g k o) :
    weigh K f fl = weigh K g fl := by
  refine Finset.sum_congr rfl (fun k hk => ?_)
  rw [List.map_congr_left (h k (Nat.le_of_lt_succ (Finset.mem_range.mp hk)))]

theorem weigh_add (g : Nat → Nat → Nat) (fl : Nat → List Nat) :
    weigh K (fun k o => f k o + g k o) fl = weigh K f fl + weigh K g fl := by
  unfold weigh
  rw [← Finset.sum_add_distrib]
  refine Finset.sum_congr rfl (fun k _ => ?_)
  exact List.sum_map_add

/-- Replacing one list changes the weight by the difference of the two. -/
theorem weigh_update (fl : Nat → List Nat) {k : Nat} (hk : k ≤ K) (l : List Nat) :
    weigh K f (Function.update fl k l) + ((fl k).map (f k)).sum
      = weigh K f fl + (l.map (f k)).sum := by
  have hmem : k ∈ Finset.range (K + 1) := Finset.mem_range.mpr (by omega)
  unfold weigh
  rw [← Finset.add_sum_erase _ _ hmem, ← Finset.add_sum_erase _ (fun j => ((fl j).map (f j)).sum) hmem]
  have hrest : ∑ j ∈ (Finset.range (K + 1)).erase k, ((Function.update fl k l j).map (f j)).sum
      = ∑ j ∈ (Finset.range (K + 1)).erase k, ((fl j).map (f j)).sum := by
    refine Finset.sum_congr rfl (fun j hj => ?_)
    rw [Function.update_of_ne (Finset.ne_of_mem_erase hj)]
  rw [hrest, Function.update_self]
  omega

/-- Putting a block in front of its list adds its weight. -/
theorem weigh_push {fl : Nat → List Nat} {k : Nat} (hk : k ≤ K) (o : Nat) :
    weigh K f (Function.update fl k (o :: fl k)) = weigh K f fl + f k o := by
  have h := weigh_update (f := f) fl hk (o :: fl k)
  simp only [List.map_cons, List.sum_cons] at h
  omega

/-- Taking the first block of a list removes its weight. -/
theorem weigh_tail {fl : Nat → List Nat} {k o : Nat} {rest : List Nat} (hk : k ≤ K)
    (hl : fl k = o :: rest) :
    weigh K f (Function.update fl k rest) + f k o = weigh K f fl := by
  have h := weigh_update (f := f) fl hk rest
  rw [hl] at h
  simp only [List.map_cons, List.sum_cons] at h
  omega

/-- Taking a block out of the middle of a list removes its weight. -/
theorem weigh_erase {fl : Nat → List Nat} {k o : Nat} (hk : k ≤ K) (ho : o ∈ fl k) :
    weigh K f (Function.update fl k ((fl k).erase o)) + f k o = weigh K f fl := by
  have h := weigh_update (f := f) fl hk ((fl k).erase o)
  have hp := ((List.perm_cons_erase ho).map (f k)).sum_eq
  simp only [List.map_cons, List.sum_cons] at hp
  omega

end Family

/-! ## Buddies -/

/-- The other half of the block of order `k + 1` that the block of order `k` at `o` is a half of. -/
def buddy (k o : Nat) : Nat := if o % 2 ^ (k + 1) = 0 then o + 2 ^ k else o - 2 ^ k

/-- Start of the block of order `k + 1` around `o`. -/
def parent (k o : Nat) : Nat := o / 2 ^ (k + 1) * 2 ^ (k + 1)

theorem two_pow_succ' (k : Nat) : 2 ^ (k + 1) = 2 ^ k + 2 ^ k := by rw [pow_succ]; omega

/-- An aligned block that starts below `2 ^ n` ends there at the latest. -/
theorem add_two_pow_le {k n o : Nat} (hk : k ≤ n) (hd : 2 ^ k ∣ o) (ho : o < 2 ^ n) :
    o + 2 ^ k ≤ 2 ^ n := by
  obtain ⟨q, rfl⟩ := hd
  obtain ⟨d, rfl⟩ := Nat.exists_eq_add_of_le hk
  rw [pow_add] at ho ⊢
  have hq : q + 1 ≤ 2 ^ d := Nat.lt_of_mul_lt_mul_left ho
  calc 2 ^ k * q + 2 ^ k = 2 ^ k * (q + 1) := by ring
    _ ≤ 2 ^ k * 2 ^ d := Nat.mul_le_mul_left _ hq

/-- Start of the block of order `j` around `o`. -/
def baseAt (j o : Nat) : Nat := o / 2 ^ j * 2 ^ j

theorem baseAt_of_dvd {j o : Nat} (h : 2 ^ j ∣ o) : baseAt j o = o := Nat.div_mul_cancel h

/-- A block lies in the same block of a higher order as its pages. -/
theorem baseAt_div {j n : Nat} (hj : j ≤ n) (o : Nat) : baseAt j o / 2 ^ n = o / 2 ^ n := by
  obtain ⟨d, rfl⟩ := Nat.exists_eq_add_of_le hj
  unfold baseAt
  rw [pow_add, ← Nat.div_div_eq_div_mul, ← Nat.div_div_eq_div_mul,
    Nat.mul_div_cancel _ (Nat.two_pow_pos _)]

/-- The pages of a block have the block's start as their base. -/
theorem baseAt_of_inside {k o x : Nat} (hd : 2 ^ k ∣ o) (h1 : o ≤ x) (h2 : x < o + 2 ^ k) :
    baseAt k x = o := by
  obtain ⟨q, rfl⟩ := hd
  have hx : x / 2 ^ k = q := Nat.div_eq_of_lt_le (by rw [Nat.mul_comm]; exact h1) (by
    rw [Nat.add_mul, Nat.one_mul, Nat.mul_comm]; exact h2)
  unfold baseAt
  rw [hx, Nat.mul_comm]

theorem parent_div {k n : Nat} (hk : k < n) (o : Nat) : parent k o / 2 ^ n = o / 2 ^ n := baseAt_div hk o

/-- An odd number times a power of two determines both. -/
theorem odd_mul_two_pow_inj {a b k l : Nat} (h : (2 * a + 1) * 2 ^ k = (2 * b + 1) * 2 ^ l) :
    k = l ∧ a = b := by
  have key : ∀ {a b k l : Nat}, (2 * a + 1) * 2 ^ k = (2 * b + 1) * 2 ^ l → ¬ k < l := by
    intro a b k l h hlt
    obtain ⟨d, rfl⟩ := Nat.exists_eq_add_of_lt hlt
    have he : (2 * b + 1) * 2 ^ (k + d + 1) = (2 * ((2 * b + 1) * 2 ^ d)) * 2 ^ k := by ring
    have := Nat.eq_of_mul_eq_mul_right (Nat.two_pow_pos k) (h.trans he)
    omega
  have hkl : k = l := Nat.le_antisymm (Nat.le_of_not_lt (key h.symm)) (Nat.le_of_not_lt (key h))
  subst hkl
  have := Nat.eq_of_mul_eq_mul_right (Nat.two_pow_pos k) h
  exact ⟨rfl, by omega⟩

/-- An aligned offset is the left or the right half of its parent. -/
theorem left_or_right {k o : Nat} (h : 2 ^ k ∣ o) : o = parent k o ∨ o = parent k o + 2 ^ k := by
  obtain ⟨q, rfl⟩ := h
  unfold parent
  have hpos : 0 < 2 ^ k := Nat.two_pow_pos k
  have hq : 2 ^ k * q / 2 ^ (k + 1) = q / 2 := by
    rw [pow_succ, Nat.mul_div_mul_left _ _ hpos]
  rw [hq]
  rcases Nat.even_or_odd' q with ⟨c, hc | hc⟩
  · left
    subst hc
    have : 2 * c / 2 = c := by omega
    rw [this]
    ring
  · right
    subst hc
    have : (2 * c + 1) / 2 = c := by omega
    rw [this]
    ring

theorem parent_dvd (k o : Nat) : 2 ^ (k + 1) ∣ parent k o := Dvd.intro_left _ rfl

theorem parent_le (k o : Nat) : parent k o ≤ o := Nat.div_mul_le_self o _

theorem buddy_of_left {k o : Nat} (h : 2 ^ (k + 1) ∣ o) : buddy k o = o + 2 ^ k := by
  unfold buddy
  rw [if_pos (Nat.mod_eq_zero_of_dvd h)]

theorem buddy_of_right {k o : Nat} (h : 2 ^ (k + 1) ∣ o) : buddy k (o + 2 ^ k) = o := by
  have hm : (o + 2 ^ k) % 2 ^ (k + 1) = 2 ^ k := by
    rw [Nat.add_mod, Nat.mod_eq_zero_of_dvd h, Nat.zero_add, Nat.mod_mod]
    exact Nat.mod_eq_of_lt (by rw [two_pow_succ']; have := Nat.two_pow_pos k; omega)
  unfold buddy
  rw [hm, if_neg (Nat.two_pow_pos k).ne']
  omega

theorem parent_of_left {k o : Nat} (h : 2 ^ (k + 1) ∣ o) : parent k o = o := by
  unfold parent
  exact Nat.div_mul_cancel h

theorem parent_of_right {k o : Nat} (h : 2 ^ (k + 1) ∣ o) : parent k (o + 2 ^ k) = o := by
  obtain ⟨q, rfl⟩ := h
  have hpos := Nat.two_pow_pos k
  unfold parent
  rw [two_pow_succ']
  have : ((2 ^ k + 2 ^ k) * q + 2 ^ k) / (2 ^ k + 2 ^ k) = q := by
    rw [Nat.add_comm, Nat.add_mul_div_left _ _ (by omega), Nat.div_eq_of_lt (by omega), Nat.zero_add]
  rw [this]
  ring

/-- The smaller of a block and its buddy is their common parent. -/
theorem min_buddy {k o : Nat} (h : 2 ^ k ∣ o) : min o (buddy k o) = parent k o := by
  have hd := parent_dvd k o
  rcases left_or_right h with ho | ho
  · rw [ho, parent_of_left hd, buddy_of_left hd]
    omega
  · rw [ho, parent_of_right hd, buddy_of_right hd]
    omega

theorem parent_buddy {k o : Nat} (h : 2 ^ k ∣ o) : parent k (buddy k o) = parent k o := by
  have hd := parent_dvd k o
  rcases left_or_right h with ho | ho
  · conv_lhs => rw [ho, buddy_of_left hd, parent_of_right hd]
  · conv_lhs => rw [ho, buddy_of_right hd, parent_of_left hd]

theorem baseAt_baseAt {i j : Nat} (h : i ≤ j) (o : Nat) : baseAt j (baseAt i o) = baseAt j o :=
  congrArg (· * 2 ^ j) (baseAt_div h o)

theorem baseAt_parent {j k : Nat} (hk : k < j) (o : Nat) : baseAt j (parent k o) = baseAt j o :=
  baseAt_baseAt hk o

/-- Merging a block with its buddy keeps every additive weight. -/
theorem SplitAdditive.merge {f : Nat → Nat → Nat} (hf : SplitAdditive f) {k o : Nat} (h : 2 ^ k ∣ o) :
    f (k + 1) (parent k o) = f k o + f k (buddy k o) := by
  have hd := parent_dvd k o
  rw [hf]
  rcases left_or_right h with ho | ho
  · rw [ho, parent_of_left hd, buddy_of_left hd]
  · rw [ho, parent_of_right hd, buddy_of_right hd, Nat.add_comm]

/-! ## Binary decomposition -/

/-- The blocks of orders below `k` that the binary digits of `n` pick out, from high to low, the first one
    at `o`. -/
def pieces (o n : Nat) : Nat → List Block
  | 0 => []
  | k + 1 => if n.testBit k then ⟨o, k⟩ :: pieces (o + 2 ^ k) n k else pieces o n k

/-- The pieces depend only on the digits below `k`. -/
theorem pieces_congr {n n' : Nat} :
    ∀ (k o : Nat), (∀ i < k, n.testBit i = n'.testBit i) → pieces o n k = pieces o n' k
  | 0, _, _ => rfl
  | k + 1, o, h => by
      unfold pieces
      rw [h k (Nat.lt_succ_self k)]
      by_cases hb : n'.testBit k = true
      · rw [if_pos hb, if_pos hb, pieces_congr k _ (fun i hi => h i (by omega))]
      · rw [if_neg hb, if_neg hb, pieces_congr k _ (fun i hi => h i (by omega))]

end Dyadic
