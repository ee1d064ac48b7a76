import LearningOS.Mm.Buddy.Effect

/-!
# `Mm.Buddy.Alloc` — what `buddy_alloc_block` does

`Source m t k o rest` says where the block comes from: `k` is the least order from `t` on with a non-empty
list and `o` is the first entry of that list. `takeBlock_effect` is the whole function before its
accounting: the source block leaves its list and, if it is larger than asked for, its left half at order `t`
and the right halves above it join the lists; the block handed out is what is left.
-/

namespace LearningOS

open Word Run Dyadic

variable {V : Type}

/-! ## Layout facts the loops carry -/

theorem SameLayout.maxPageOffset {m m' : Machine V} (h : SameLayout m m') :
    m'.maxPageOffset = m.maxPageOffset := by
  unfold Machine.maxPageOffset
  rw [h.baseAddr, h.endAddr]

theorem SameLayout.charted {m m' : Machine V} (h : SameLayout m m') (hm : Charted m) : Charted m' := by
  unfold Charted at hm ⊢
  rw [h.sizeBytes, h.maxPageOffset, hm]

/-- The lists stay sound if everything added is. -/
theorem ListEffect.soundLists {m m' : Machine V} {r a : List Block} (h : ListEffect m r a m') (hl : SoundLists m)
    (ha : ∀ b ∈ a, Sound m.maxPageOffset b.offset b.order) : SoundLists m' := by
  intro k hk o ho
  rw [h.layout.maxPageOffset]
  rcases h.lists.mem (b := ⟨o, k⟩) hk ho with hold | hnew
  · exact hl k hk o hold
  · exact ha _ hnew

/-- Flips seen from a machine with the same bitmap. -/
theorem Flips.of_map {m m1 m' : Machine V} {k o : Nat} (he : m1.buddyStateMap = m.buddyStateMap)
    (h : Flips m1 m' k o) : Flips m m' k o := by
  intro k' hk' o' ho'
  have := h k' hk' o' ho'
  unfold pairBit at this ⊢
  rw [← he]
  exact this

/-! ## The search -/

/-- The block an allocation of order `t` is served from: the first entry `o` of the least non-empty list
    `k` from `t` on. -/
structure Source (m : Machine V) (t k o : Nat) (rest : List Nat) : Prop where
  le : t ≤ k
  order_le : k ≤ maxOrder
  least : ∀ j, t ≤ j → j < k → m.freelists j = []
  list : m.freelists k = o :: rest

/-- Some list of order `t` or higher is not empty. -/
def HasBlock (m : Machine V) (t : Nat) : Prop := ∃ k ∈ List.range (maxOrder + 1), t ≤ k ∧ m.freelists k ≠ []

instance (m : Machine V) (t : Nat) : Decidable (HasBlock m t) :=
  inferInstanceAs (Decidable (∃ k ∈ List.range (maxOrder + 1), t ≤ k ∧ m.freelists k ≠ []))

theorem source_of_hasBlock {m : Machine V} {t : Nat} (h : HasBlock m t) :
    ∃ k o rest, Source m t k o rest := by
  classical
  obtain ⟨k₀, hk₀, hmin⟩ : ∃ k, (t ≤ k ∧ k ≤ maxOrder ∧ m.freelists k ≠ []) ∧
      ∀ j < k, ¬ (t ≤ j ∧ j ≤ maxOrder ∧ m.freelists j ≠ []) := by
    have hex : ∃ k, t ≤ k ∧ k ≤ maxOrder ∧ m.freelists k ≠ [] := by
      obtain ⟨k, hk, htk, hne⟩ := h
      exact ⟨k, htk, Nat.le_of_lt_succ (List.mem_range.mp hk), hne⟩
    exact ⟨Nat.find hex, Nat.find_spec hex, fun j hj => Nat.find_min hex hj⟩
  obtain ⟨htk, hk7, hne⟩ := hk₀
  obtain ⟨o, rest, hl⟩ := List.exists_cons_of_ne_nil hne
  refine ⟨k₀, o, rest, htk, hk7, fun j h1 h2 => ?_, hl⟩
  by_contra hc
  exact hmin j h2 ⟨h1, by omega, hc⟩

theorem slotIsNull_of_le {m : Machine V} {k : Nat} (hk : k ≤ maxOrder) :
    slotIsNull m k = (m.freelists k).isEmpty := by
  unfold slotIsNull
  rw [if_pos hk]

/-- The search stops at the first non-empty list. -/
theorem searchOrder_eq {m : Machine V} {k : Nat} (hk : k ≤ maxOrder) (hne : m.freelists k ≠ []) :
    ∀ n s, s ≤ k → k < s + n → (∀ j, s ≤ j → j < k → m.freelists j = []) → searchOrder m n s = k
  | 0, s, hs, hn, _ => by omega
  | n + 1, s, hs, hn, hnil => by
      unfold searchOrder
      by_cases he : s = k
      · subst he
        rw [slotIsNull_of_le hk, if_neg (by simpa using hne)]
      · have hlt : s < k := by omega
        rw [slotIsNull_of_le (by omega), hnil s le_rfl hlt, List.isEmpty_nil, if_pos rfl, if_pos (by omega)]
        exact searchOrder_eq hk hne n (s + 1) (by omega) (by omega) (fun j h1 h2 => hnil j (by omega) h2)

/-- With nothing left from `s` on it leaves the array. -/
theorem searchOrder_gt {m : Machine V} :
    ∀ n s, maxOrder < s + n → (∀ j, s ≤ j → j ≤ maxOrder → m.freelists j = []) →
      maxOrder < searchOrder m n s
  | 0, s, hn, _ => by simpa [searchOrder] using hn
  | n + 1, s, hn, hnil => by
      unfold searchOrder
      by_cases hs : s ≤ maxOrder
      · rw [slotIsNull_of_le hs, hnil s le_rfl hs, List.isEmpty_nil, if_pos rfl]
        by_cases hlt : s < maxOrder
        · rw [if_pos hlt]
          exact searchOrder_gt n (s + 1) (by omega) (fun j h1 h2 => hnil j (by omega) h2)
        · rw [if_neg hlt]
          omega
      · split
        · rw [if_neg (by omega)]
          omega
        · omega

/-! ## Splitting -/

/-- A half pushed and its pair's bit toggled. -/
theorem addEntry_toggleBit_steady {m : Machine V} (hm : Charted m) {k o x : Nat}
    (hc : 0 < m.freelistCache.cells) (ho : Sound m.maxPageOffset o k) (hx : Sound m.maxPageOffset x k)
    (hp : parent k x = parent k o) : Steady m ((m.addEntry k x).toggleBit (buddyBmpIndexOf o k)) := by
  have he := Effect.addEntry hc ho.order_le hx.stored
  have hb : HasBit (m.addEntry k x) k o := Sound.hasBit (m := m.addEntry k x) (he.layout.charted hm) ho
  exact ((Flips.toggleBit hb ho.lt64 ho.order_le).of_map (m := m) rfl).steady hp (.inr he.lists)

theorem splitBlock_effect {o t : Nat} :
    ∀ (j : Nat) {m m' : Machine V}, Charted m → Sound m.maxPageOffset o (j + 1) →
      splitBlock noSlab o t j m = .ok m' → Effect m [] (rightHalves o t j) m' ∧ Steady m m'
  | 0, m, m', _, _, h => by
      cases h
      exact ⟨.refl m, .refl m⟩
  | j + 1, m, m', hm, ho, h => by
      unfold splitBlock at h
      unfold rightHalves
      by_cases hj : j + 1 > t
      · rw [if_pos hj] at h ⊢
        obtain ⟨m1, h1, h2⟩ := bind_eq_ok.mp h
        obtain ⟨hc, hk, rfl⟩ := allocateFreelistEntry_ok.mp h1
        have hx : Sound m.maxPageOffset (o + 2 ^ (j + 1)) (j + 1) := ho.rightHalf (Nat.lt_succ_self _)
        have hoj := ho.lower (Nat.le_succ (j + 1))
        have hp : parent (j + 1) (o + 2 ^ (j + 1)) = parent (j + 1) o := by
          rw [parent_of_right ho.aligned, parent_of_left ho.aligned]
        have he := (Effect.addEntry hc hk hx.stored).toggleBit (buddyBmpIndexOf o (j + 1))
        have hs := addEntry_toggleBit_steady hm hc hoj hx hp
        have hrec := splitBlock_effect j (he.layout.charted hm)
          (by rw [he.layout.maxPageOffset]; exact hoj) h2
        exact ⟨he.trans hrec.1, hs.trans hrec.2⟩
      · rw [if_neg hj] at h ⊢
        cases h
        exact ⟨.refl m, .refl m⟩

/-! ## Taking a block -/

theorem mem_freelists_of_source {m : Machine V} {t k o : Nat} {rest : List Nat}
    (hs : Source m t k o rest) : o ∈ m.freelists k := by
  rw [hs.list]
  exact List.mem_cons_self

/-- A list popped and its pair's bit toggled. -/
theorem tail_toggleBit_steady {m m1 : Machine V} (hm : Charted m) {k o : Nat} {rest : List Nat}
    (ho : Sound m.maxPageOffset o k) (hl : m.freelists k = o :: rest) (he : SameLayout m m1)
    (hmap : m1.buddyStateMap = m.buddyStateMap) (hf : m1.freelists = Function.update m.freelists k rest) :
    Steady m (m1.toggleBit (buddyBmpIndexOf o k)) := by
  have hb : HasBit m1 k o := Sound.hasBit (he.charted hm) (by rw [he.maxPageOffset]; exact ho)
  refine ((Flips.toggleBit hb ho.lt64 ho.order_le).of_map hmap).steady rfl (.inl ?_)
  rw [toggleBit_freelists, hf]
  exact Exchange.tail ho.order_le hl

/-- A block linked and its pair's bit toggled. -/
theorem link_toggleBit_steady {m : Machine V} (hm : Charted m) {k o : Nat} (ho : Sound m.maxPageOffset o k) :
    Steady m ((m.setFreelist k (o :: m.freelists k)).toggleBit (buddyBmpIndexOf o k)) := by
  have hb : HasBit (m.setFreelist k (o :: m.freelists k)) k o :=
    Sound.hasBit ((SameLayout.setFreelist m k _).charted hm) ho
  exact ((Flips.toggleBit hb ho.lt64 ho.order_le).of_map (m := m) rfl).steady rfl
    (.inr (Exchange.push ho.order_le o))

/-- **`buddy_alloc_block`, the block it settles on.** It is the source block itself if that has the order
    asked for, else the right half at order `t` of what the splits leave. -/
theorem takeBlock_effect {m m' : Machine V} {t k o x : Nat} {rest : List Nat} (hm : Charted m)
    (hl : SoundLists m) (hs : Source m t k o rest) (h : takeBlock noSlab m t = .ok (x, m')) :
    (k = t ∧ x = o ∧ Effect m [⟨o, k⟩] [] m' ∨
      t < k ∧ x = o + 2 ^ t ∧ Effect m [⟨o, k⟩] (rightHalves o t (k - 1) ++ [⟨o, t⟩]) m') ∧
    Steady m m' := by
  have ho : Sound m.maxPageOffset o k := hl k hs.order_le o (mem_freelists_of_source hs)
  rcases Nat.eq_or_lt_of_le hs.le with htk | htk
  · subst htk
    unfold takeBlock at h
    rw [hs.list] at h
    cases h
    refine ⟨.inl ⟨rfl, rfl, (Effect.head hs.order_le hs.list).toggleBit _⟩, ?_⟩
    exact tail_toggleBit_steady hm ho hs.list ((SameLayout.setFreelist m t rest).trans (.slabFree _)) rfl rfl
  · have hkm := hs.order_le
    have hnil : m.freelists t = [] := hs.least t le_rfl htk
    have hsearch : searchOrder m (maxOrder + 1) (t + 1) = k :=
      searchOrder_eq hkm (by rw [hs.list]; exact List.cons_ne_nil _ _) _ _ htk (by omega)
        (fun j h1 h2 => hs.least j (by omega) h2)
    unfold takeBlock findOrSplitBlock at h
    simp only [hnil, hsearch, if_neg (Nat.not_lt.mpr hkm), hs.list] at h
    obtain ⟨m2, h1, h2⟩ := bind_eq_ok.mp h
    obtain ⟨m3, h3, h4⟩ := bind_eq_ok.mp h2
    obtain ⟨ht, rfl⟩ := linkEntry_ok.mp h3
    cases h4
    obtain ⟨j, rfl⟩ : ∃ j, k = j + 1 := ⟨k - 1, by omega⟩
    -- The popped list and the first toggle, then the splits, then the re-used entry.
    have he1 : Effect (m.setFreelist (j + 1) rest) [] []
        ((m.setFreelist (j + 1) rest).toggleBit (buddyBmpIndexOf o (j + 1))) :=
      (Effect.refl _).toggleBit _
    have hs1 : Steady m ((m.setFreelist (j + 1) rest).toggleBit (buddyBmpIndexOf o (j + 1))) :=
      tail_toggleBit_steady hm ho hs.list (.setFreelist m (j + 1) rest) rfl rfl
    obtain ⟨he2, hs2⟩ := splitBlock_effect j (he1.layout.charted ((SameLayout.setFreelist m _ _).charted hm))
      ho h1
    have he : Effect m [⟨o, j + 1⟩] (rightHalves o t j ++ [⟨o, t⟩]) _ :=
      (Effect.relink (Exchange.tail hkm hs.list) (he1.trans he2) ht (x := o)).toggleBit
        (buddyBmpIndexOf o t)
    refine ⟨.inr ⟨htk, rfl, he⟩, (hs1.trans hs2).trans ?_⟩
    have hl2 := ((SameLayout.setFreelist m (j + 1) rest).trans (he1.trans he2).layout)
    refine link_toggleBit_steady (hl2.charted hm) ?_
    rw [hl2.maxPageOffset]
    exact ho.lower (by omega)

end LearningOS
