import LearningOS.Mm.Buddy.PairBits

/-!
# `Mm.Buddy.Coalescing` — free pairs do not stay apart

With exact pair bits the merging of `buddy_free_block` is maximal: in every state of a run whose frees keep
the bits, no two buddies below `MAX_ORDER` with a usable parent are both listed (`no_free_twins`). Allocating
a block and freeing it at once then restores the lists (`alloc_free_restores`), except in the one situation
where the right half handed out has no usable block behind it (`Stuck`): its merge is not even tried.
-/

namespace LearningOS

open Word Run Dyadic

variable {V : Type}

/-! ## Twins -/

/-- No pair below `MAX_ORDER` with a usable parent has both halves listed. -/
def NoTwins (m : Machine V) : Prop :=
  ∀ k < maxOrder, ∀ q, 2 ^ (k + 1) ∣ q → usableAt m (k + 1) q = true →
    ¬ (q ∈ m.freelists k ∧ q + 2 ^ k ∈ m.freelists k)

/-- So a listed block below `MAX_ORDER` whose parent is usable does not have its buddy listed. -/
theorem NoTwins.buddy_not_listed {m : Machine V} (hn : NoTwins m) {k o : Nat} (hk : k < maxOrder) (hd : 2 ^ k ∣ o)
    (ho : o ∈ m.freelists k) (hu : usableAt m (k + 1) (parent k o) = true) : buddy k o ∉ m.freelists k := by
  intro hbuddy
  have hp := parent_dvd k o
  rcases left_or_right hd with hh | hh
  · refine hn k hk _ hp hu ⟨by rw [← hh]; exact ho, ?_⟩
    rw [hh, buddy_of_left hp] at hbuddy
    exact hbuddy
  · refine hn k hk _ hp hu ⟨?_, by rw [← hh]; exact ho⟩
    rw [hh, buddy_of_right hp] at hbuddy
    exact hbuddy

theorem Booted.noTwins {m : Machine V} (h : Booted m) (ho : Orderly m) : NoTwins m := by
  rintro k hk q hq hu ⟨hmem, -⟩
  have hb := (h.mem_initialBlocks ho.pages hk.le).mp hmem
  have := (initialBlocks_unmergeable ho.noWrap ho.separated ho.pages hb hk).2
  rw [hu] at this
  cases this

/-- The lists of `s'` hold no block together with its buddy if no added block has its buddy listed. -/
theorem noTwins_of_added {s s' : Sys V} {removed added : List Block} (he : StepEffect s s' removed added)
    (hn : NoTwins s.machine)
    (hadd : ∀ b ∈ added, b.order < maxOrder →
      usableAt s.machine (b.order + 1) (parent b.order b.offset) = true →
      buddy b.order b.offset ∉ s'.machine.freelists b.order) : NoTwins s'.machine := by
  rintro k hk q hq hu ⟨h1, h2⟩
  rw [he.effect.layout.usableAt] at hu
  rcases he.effect.lists.mem (b := ⟨q, k⟩) hk.le h1 with hold | hnew
  · rcases he.effect.lists.mem (b := ⟨q + 2 ^ k, k⟩) hk.le h2 with hold2 | hnew2
    · exact hn k hk q hq hu ⟨hold, hold2⟩
    · refine hadd _ hnew2 hk ?_ ?_
      · dsimp only
        rw [parent_of_right hq]
        exact hu
      · dsimp only
        rw [buddy_of_right hq]
        exact h1
  · refine hadd _ hnew hk ?_ ?_
    · dsimp only
      rw [parent_of_left hq]
      exact hu
    · dsimp only
      rw [buddy_of_left hq]
      exact h2

theorem step_noTwins {s s' : Sys V} {a : Act} (ht : Tidy 6 s) (hn : NoTwins s.machine)
    (ha : AllowedSafe s a) (h : step s a = .ok s') : NoTwins s'.machine := by
  have ht' := step_tidy (by decide) ht ha h
  obtain ⟨ha, hsafe⟩ := ha
  cases a with
  | alloc t =>
      obtain ⟨k, o, rest, x, added, hsrc, hlive, he, hcase⟩ := alloc_stepEffect ht.sane ha.2 h
      refine noTwins_of_added he hn (fun b hb hbo _ => ?_)
      rcases hcase with ⟨-, -, rfl⟩ | ⟨htk, rfl, rfl⟩
      · cases hb
      · -- The buddy of every block put back holds the first page of the block handed out.
        have ho := ht.sane.lists k hsrc.order_le o (mem_freelists_of_source hsrc)
        have hnew : (⟨o + 2 ^ t, t⟩ : Block) ∈ s'.live := by rw [hlive]; exact List.mem_cons_self
        have hpos := Nat.two_pow_pos t
        have hpage : (⟨o + 2 ^ t, t⟩ : Block).has (o + 2 ^ t) = true :=
          Block.has_iff.mpr ⟨le_rfl, by dsimp only; omega⟩
        refine ht'.conserved.not_listed hnew hbo.le hpage ?_
        rcases List.mem_append.mp hb with hb | hb
        · obtain ⟨h1, h2, h3⟩ := mem_rightHalves.mp hb
          have hd : 2 ^ (b.order + 1) ∣ o := (pow_dvd_pow 2 (by omega)).trans ho.aligned
          have hlt : 2 ^ t < 2 ^ b.order := Nat.pow_lt_pow_right (by decide) h1
          rw [h3, buddy_of_right hd]
          exact Block.has_iff.mpr ⟨by dsimp only; omega, by dsimp only; omega⟩
        · rw [List.mem_singleton] at hb
          subst hb
          have hd : 2 ^ (t + 1) ∣ o := (pow_dvd_pow 2 htk).trans ho.aligned
          dsimp only
          rw [buddy_of_left hd]
          exact Block.has_iff.mpr ⟨le_rfl, by dsimp only; omega⟩
  | free b =>
      obtain ⟨hb, hbo⟩ := ha
      have hs := ht.sane.live b hb
      obtain ⟨ord, hle, he, hhow⟩ := free_stepEffect ht.sane hb h
      refine noTwins_of_added he hn (fun c hc hco hcu hmem => ?_)
      rw [List.mem_singleton] at hc
      subst hc
      dsimp only at hco hcu hmem
      have hsc := hs.baseAt hco.le
      -- A listed buddy was listed before, so the bit was set; but the merge stopped here.
      have hold : buddy ord (baseAt ord b.offset) ∈ s.machine.freelists ord := by
        rcases he.effect.lists.mem (b := ⟨buddy ord (baseAt ord b.offset), ord⟩) hco.le hmem with h1 | h1
        · exact h1
        · have hself := (Block.mk.inj (List.mem_singleton.mp h1)).1
          have hpos := Nat.two_pow_pos ord
          have hd := parent_dvd ord (baseAt ord b.offset)
          rcases left_or_right hsc.aligned with hh | hh
          · rw [hh, buddy_of_left hd, ← hh] at hself
            omega
          · rw [hh, buddy_of_right hd] at hself
            omega
      have hbit := (ht.buddy_listed_iff hb hco hcu).mp hold
      rcases hhow with ⟨-, hto⟩ | ⟨hf, rfl⟩
      · have hstop := hto.stopped hco
        have hbuddy : usableAt s.machine ord (buddy ord (baseAt ord b.offset)) = true := by
          refine usableAt_of_parent ht.orderly hsc.buddy ?_
          rw [parent_buddy hsc.aligned]
          exact hcu
        rw [canCoalesce_eq hsc, hbit, hbuddy] at hstop
        cases hstop
      · rw [baseAt_of_dvd hs.aligned] at hbit hcu
        rcases hsafe with h0 | ⟨hf', -⟩ | ⟨-, hun⟩
        · rw [hbit] at h0
          cases h0
        · rw [hf] at hf'
          cases hf'
        · rw [hcu] at hun
          cases hun
  | shrink b n =>
      have he := shrink_stepEffect ht.sane ha h
      obtain ⟨m1, -, -, rfl⟩ := step_shrink ht.sane ha h
      obtain ⟨hb, h1, h2⟩ := ha
      have hs := ht.sane.live b hb
      refine noTwins_of_added he hn (fun c hc hco _ => ?_)
      obtain ⟨y, hy, hd, hy1, hy2⟩ := left_of_mem_leftovers hs.aligned h1 h2 hc
      -- The left half starts with a kept page, which one of the pieces holds.
      have hcov : 0 < cover (pieces b.offset n (b.order + 1)) y := by
        rw [cover_eq_total, total_hit_pieces y (by have := two_pow_succ' b.order; omega),
          if_pos ⟨hy1, hy2⟩]
        exact Nat.one_pos
      obtain ⟨d, hdm, hdy⟩ := cover_pos_iff.mp hcov
      refine ht'.conserved.not_listed (List.mem_append_left _ hdm) hco.le hdy ?_
      rw [hy, buddy_of_right hd]
      exact Block.has_iff.mpr ⟨le_rfl, Nat.lt_add_of_pos_right (Nat.two_pow_pos _)⟩

/-- No free twins in any state of a run whose frees keep the bits. -/
theorem noTwins_of_reaches {m₀ : Machine V} {s : Sys V} (hb : Booted m₀) (ho : Orderly m₀)
    (hrun : Reaches step AllowedSafe ⟨m₀, []⟩ s) : Tidy 6 s ∧ NoTwins s.machine := by
  refine hrun.invariant (fun s => Tidy 6 s ∧ NoTwins s.machine)
    ⟨tidy_of_reaches hb ho .refl, hb.noTwins ho⟩ ?_
  rintro s a s' ⟨ht, hn⟩ ha hstep
  exact ⟨step_tidy (by decide) ht ha hstep, step_noTwins ht hn ha hstep⟩

/-! ## Allocating and freeing again -/

/-- An allocation of order `k` would split the pair at the head of `freelists[k + 1]`, and the pages behind
    that pair are not usable. -/
def Stuck (m : Machine V) (k : Nat) : Prop :=
  m.freelists k = [] ∧ ∃ o ∈ (m.freelists (k + 1)).head?, usableAt m k (o + 2 ^ (k + 1)) = false

instance (m : Machine V) (k : Nat) : Decidable (Stuck m k) := by
  unfold Stuck
  infer_instance

/-- The lists of two machines hold the same blocks, each as often. -/
def SameBlocks (m m' : Machine V) : Prop :=
  ∀ f, weigh maxOrder f m'.freelists = weigh maxOrder f m.freelists

theorem SameBlocks.mem_iff {m m' : Machine V} (h : SameBlocks m m') {k o : Nat} (hk : k ≤ maxOrder) :
    o ∈ m'.freelists k ↔ o ∈ m.freelists k := by
  have hc := h (tally ⟨o, k⟩)
  rw [weigh_tally, weigh_tally, if_pos hk, if_pos hk] at hc
  rw [← List.count_pos_iff, ← List.count_pos_iff, hc]

section Restore

variable {s s₁ : Sys V} {k : Nat}

/-- A block of the order asked for is put back where it was. -/
theorem restore_same_order (hn : NoTwins s.machine) (ht₁ : Tidy 6 s₁) {o : Nat}
    (hk : k < maxOrder) (ho : o ∈ s.machine.freelists k) (hlive : s₁.live = ⟨o, k⟩ :: s.live)
    (he : StepEffect s s₁ [⟨o, k⟩] []) :
    ∃ s₂, step s₁ (.free ⟨o, k⟩) = .ok s₂ ∧ s₂.live = s.live ∧ SameBlocks s.machine s₂.machine := by
  have hmem : (⟨o, k⟩ : Block) ∈ s₁.live := by rw [hlive]; exact List.mem_cons_self
  have hs : Sound s₁.machine.maxPageOffset o k := ht₁.sane.live _ hmem
  have hnomerge : mergesFirst s₁.machine (s₁.machine.addrOf o) k = false := by
    by_contra hc
    have hf := Bool.eq_true_of_not_eq_false hc
    have hbuddy := (ht₁.finds_buddies hmem hk hf).1
    have hu := ht₁.usable_parent hmem hk hf
    dsimp only at hbuddy hu
    rw [he.effect.layout.usableAt] at hu
    have hold : buddy k o ∈ s.machine.freelists k := by
      rcases he.effect.lists.mem (b := ⟨buddy k o, k⟩) hk.le hbuddy with h1 | h1
      · exact h1
      · cases h1
    exact hn.buddy_not_listed hk hs.aligned ho hu hold
  have hcells : 0 < s₁.machine.freelistCache.cells := by
    have := he.effect.nodes.cells
    simp only [List.length_nil, List.length_singleton] at this
    omega
  obtain ⟨m', hm'⟩ := ht₁.free_total hmem hk (fun _ => hcells)
  have hstep : step s₁ (.free ⟨o, k⟩) = .ok ⟨m', s₁.live.erase ⟨o, k⟩⟩ := by
    unfold step
    dsimp only
    rw [hm', ok_bind]
  refine ⟨_, hstep, by rw [hlive]; exact List.erase_cons_head _ _, fun f => ?_⟩
  obtain ⟨ord, -, he₂, hhow⟩ := free_stepEffect ht₁.sane hmem hstep
  rcases hhow with ⟨hf, -⟩ | ⟨-, rfl⟩
  · rw [hnomerge] at hf
    cases hf
  · have h1 := he.effect.lists f
    have h2 := he₂.effect.lists f
    dsimp only at h2
    rw [Nat.sub_self, baseAt_of_dvd hs.aligned] at h2
    simp only [total_cons, total_nil, buddiesUp, List.range'_zero, List.map_nil] at h1 h2
    dsimp only
    omega

/-- The state after a right half of order `k` is handed out of a listed block of order `k'`. -/
structure SplitOff (s s₁ : Sys V) (k k' o : Nat) : Prop where
  tidy : Tidy 6 s
  tidy' : Tidy 6 s₁
  order_lt : k < k'
  order_le : k' ≤ maxOrder
  source : o ∈ s.machine.freelists k'
  live : s₁.live = ⟨o + 2 ^ k, k⟩ :: s.live
  effect : StepEffect s s₁ [⟨o, k'⟩] (rightHalves o k (k' - 1) ++ [⟨o, k⟩])

namespace SplitOff

variable {k' o i : Nat}

theorem mem_live (h : SplitOff s s₁ k k' o) : (⟨o + 2 ^ k, k⟩ : Block) ∈ s₁.live := by
  rw [h.live]
  exact List.mem_cons_self

theorem sound (h : SplitOff s s₁ k k' o) : Sound s.machine.maxPageOffset o k' :=
  h.tidy.sane.lists k' h.order_le o h.source

theorem dvd (h : SplitOff s s₁ k k' o) (hi : i ≤ k') : 2 ^ i ∣ o := (pow_dvd_pow 2 hi).trans h.sound.aligned

theorem base (h : SplitOff s s₁ k k' o) (hk : k < i) (hi : i ≤ k') : baseAt i (o + 2 ^ k) = o := by
  have hlt : 2 ^ k < 2 ^ i := Nat.pow_lt_pow_right (by decide) hk
  exact baseAt_of_inside (h.dvd hi) (Nat.le_add_right o _) (Nat.add_lt_add_left hlt o)

/-- The source block was usable, and with it every block at its start. -/
theorem usable (h : SplitOff s s₁ k k' o) (hi : i ≤ k') : usableAt s₁.machine i o = true := by
  have hu := h.tidy.conserved.usable h.tidy.orderly (mem_blocks_of_listed h.order_le h.source) h.sound
  have hle : 2 ^ i ≤ 2 ^ k' := Nat.pow_le_pow_right (by decide) hi
  rw [h.effect.effect.layout.usableAt]
  rw [usableAt_eq] at hu ⊢
  exact usablePages_mono h.tidy.orderly.noWrap h.sound.fits hu le_rfl (by omega)

/-- The halves that are put back are listed. -/
theorem listed (h : SplitOff s s₁ k k' o) {b : Block} (hb : b ∈ rightHalves o k (k' - 1) ++ [⟨o, k⟩]) :
    b.offset ∈ s₁.machine.freelists b.order := by
  have hk := h.order_lt
  have hk7 := h.order_le
  have hbo : b.order < k' := by
    rcases List.mem_append.mp hb with hb | hb
    · have := (mem_rightHalves.mp hb).2.1
      omega
    · rw [List.mem_singleton] at hb
      subst hb
      exact hk
  have hc := h.effect.effect.lists.count (b := b) (by omega)
  have hpos := List.count_pos_iff.mpr hb
  have hz : List.count b [(⟨o, k'⟩ : Block)] = 0 := by
    refine List.count_eq_zero.mpr (fun hm => ?_)
    rw [List.mem_singleton] at hm
    rw [hm] at hbo
    exact lt_irrefl _ hbo
  exact List.count_pos_iff.mp (by omega)

/-- At its own level the left half is listed, so the bit is set and the merge is tried. -/
theorem merges (h : SplitOff s s₁ k k' o) (hnext : usableAt s.machine k (o + 2 ^ (k + 1)) = true) :
    mergesFirst s₁.machine (s₁.machine.addrOf (o + 2 ^ k)) k = true := by
  have hk : k < maxOrder := h.order_lt.trans_le h.order_le
  have hs : Sound s₁.machine.maxPageOffset (o + 2 ^ k) k := h.tidy'.sane.live _ h.mem_live
  have hd := h.dvd (Nat.succ_le_of_lt h.order_lt)
  have hiff := h.tidy'.buddy_listed_iff h.mem_live hk
  dsimp only at hiff
  rw [baseAt_of_dvd hs.aligned, parent_of_right hd, buddy_of_right hd] at hiff
  have hbit := (hiff (h.usable h.order_lt)).mp (h.listed (List.mem_append_right _ List.mem_cons_self))
  have h2 := two_pow_succ' k
  rw [mergesFirst_eq hs, hbit, h.effect.effect.layout.usableAt, Nat.add_assoc, ← h2, hnext]
  rfl

/-- Below the source order the right half is listed: the merge does not stop there. -/
theorem merge_goes_on (h : SplitOff s s₁ k k' o) {ord : Nat}
    (hto : MergesTo s₁.machine (k + 1) (o + 2 ^ k) ord (baseAt ord (o + 2 ^ k))) : k' ≤ ord := by
  by_contra hlt
  have hk7 := h.order_le
  have hle := hto.le
  have hsound := hto.sound
  have hstop := hto.stopped (by omega)
  have hiff := h.tidy'.buddy_listed_iff h.mem_live (by omega : ord < maxOrder)
  have hd := h.dvd (i := ord + 1) (by omega)
  dsimp only at hiff
  rw [h.base (by omega) (by omega)] at hstop hiff hsound
  rw [parent_of_left hd, buddy_of_left hd] at hiff
  have hright := h.listed (b := ⟨o + 2 ^ ord, ord⟩)
    (List.mem_append_left _ (mem_rightHalves.mpr ⟨by dsimp only; omega, by dsimp only; omega, rfl⟩))
  have hbit := (hiff (h.usable (by omega))).mp hright
  have hbu : usableAt s₁.machine ord (buddy ord o) = true := by
    refine usableAt_of_parent h.tidy'.orderly hsound.buddy ?_
    rw [parent_buddy hsound.aligned, parent_of_left hd]
    exact h.usable (by omega)
  rw [canCoalesce_eq hsound, hbit, hbu] at hstop
  cases hstop

/-- At the source order a set bit would make the buddy a free twin of the source: the merge does not pass it. -/
theorem merge_stops (h : SplitOff s s₁ k k' o) (hn : NoTwins s.machine) {ord : Nat}
    (hto : MergesTo s₁.machine (k + 1) (o + 2 ^ k) ord (baseAt ord (o + 2 ^ k))) : ord ≤ k' := by
  by_contra hgt
  have hlay := h.effect.effect.layout
  have hk7 : k' < maxOrder := lt_of_lt_of_le (Nat.lt_of_not_le hgt) hto.sound.order_le
  have hpass := hto.passed k' h.order_lt (Nat.lt_of_not_le hgt)
  have hso : Sound s₁.machine.maxPageOffset o k' := by
    rw [hlay.maxPageOffset]
    exact h.sound
  rw [h.base h.order_lt le_rfl, canCoalesce_eq hso] at hpass
  obtain ⟨hbit, hbu⟩ := Bool.and_eq_true_iff.mp hpass
  have hup := usableAt_parent h.tidy'.orderly hso (h.usable le_rfl) hbu
  have hiff := h.tidy'.buddy_listed_iff h.mem_live hk7
  dsimp only at hiff
  rw [h.base h.order_lt le_rfl] at hiff
  have hbuddy := (hiff hup).mpr hbit
  -- What is listed at the source order was listed before.
  have hold : buddy k' o ∈ s.machine.freelists k' := by
    rcases h.effect.effect.lists.mem (b := ⟨buddy k' o, k'⟩) hk7.le hbuddy with h1 | h1
    · exact h1
    · have hk := h.order_lt
      rcases List.mem_append.mp h1 with h1 | h1
      · have := (mem_rightHalves.mp h1).2.1
        dsimp only at this
        omega
      · have := (Block.mk.inj (List.mem_singleton.mp h1)).2
        omega
  rw [hlay.usableAt] at hup
  exact hn.buddy_not_listed hk7 h.sound.aligned h.source hup hold

end SplitOff

/-- A right half handed out of a larger block merges back into that block. -/
theorem restore_split (ht : Tidy 6 s) (hn : NoTwins s.machine) (ht₁ : Tidy 6 s₁) {k' o : Nat}
    (hk : k < k') (hk7 : k' ≤ maxOrder) (ho : o ∈ s.machine.freelists k')
    (hnext : usableAt s.machine k (o + 2 ^ (k + 1)) = true)
    (hlive : s₁.live = ⟨o + 2 ^ k, k⟩ :: s.live)
    (he : StepEffect s s₁ [⟨o, k'⟩] (rightHalves o k (k' - 1) ++ [⟨o, k⟩])) :
    ∃ s₂, step s₁ (.free ⟨o + 2 ^ k, k⟩) = .ok s₂ ∧ s₂.live = s.live ∧ SameBlocks s.machine s₂.machine := by
  have hsplit : SplitOff s s₁ k k' o := ⟨ht, ht₁, hk, hk7, ho, hlive, he⟩
  have hmem := hsplit.mem_live
  have hf := hsplit.merges hnext
  obtain ⟨m', hm'⟩ := ht₁.free_total hmem (by dsimp only; omega)
    (fun hc => by dsimp only at hc; rw [hf] at hc; cases hc)
  have hstep : step s₁ (.free ⟨o + 2 ^ k, k⟩) = .ok ⟨m', s₁.live.erase ⟨o + 2 ^ k, k⟩⟩ := by
    unfold step
    dsimp only
    rw [hm', ok_bind]
  refine ⟨_, hstep, by rw [hlive]; exact List.erase_cons_head _ _, fun f => ?_⟩
  obtain ⟨ord, -, he₂, hhow⟩ := free_stepEffect ht₁.sane hmem hstep
  dsimp only at he₂ hhow
  rcases hhow with ⟨-, hto⟩ | ⟨hf', -⟩
  · obtain rfl : ord = k' := le_antisymm (hsplit.merge_stops hn hto) (hsplit.merge_goes_on hto)
    have h1 := he.effect.lists f
    have h2 := he₂.effect.lists f
    rw [hsplit.base hk le_rfl] at h2
    obtain ⟨n, rfl⟩ : ∃ n, ord = k + n + 1 := ⟨ord - k - 1, by omega⟩
    have hup := total_buddiesUp_right f (o := o) (k := k) n hsplit.sound.aligned
    rw [(by omega : k + n + 1 - k = n + 1)] at h2
    rw [(by omega : k + n + 1 - 1 = k + n), total_append] at h1
    simp only [total_cons, total_nil] at h1 h2
    dsimp only
    omega
  · rw [hf] at hf'
    cases hf'

end Restore

/-- **Maximal coalescing over runs.** In every state of a run whose frees keep the bits, no two buddies below
    `MAX_ORDER` with a usable parent are both free; and allocating a block below `MAX_ORDER` and freeing it at
    once returns and restores every list, unless the state is stuck at that order. -/
theorem no_free_twins {regions : List PhysmemRegion} {vm : V} {poolSlabs baseAddr endAddr : Nat}
    {m₀ : Machine V} {s : Sys V}
    (hinit : buddyInit noSlab regions vm poolSlabs baseAddr endAddr = .ok m₀)
    (hpages : m₀.maxPageOffset ≤ 2 ^ 24) (hwrap : baseAddr + 2 ^ 36 < 2 ^ 64) (hsep : Separated regions)
    (hrun : Reaches step AllowedSafe ⟨m₀, []⟩ s) :
    (∀ k < maxOrder, ∀ q, 2 ^ (k + 1) ∣ q → usableAt s.machine (k + 1) q = true →
      ¬ (q ∈ s.machine.freelists k ∧ q + 2 ^ k ∈ s.machine.freelists k)) ∧
    ∀ k < maxOrder, HasBlock s.machine k → ¬ Stuck s.machine k → ∀ s₁, step s (.alloc k) = .ok s₁ →
      ∃ b s₂, s₁.live = b :: s.live ∧ step s₁ (.free b) = .ok s₂ ∧ s₂.live = s.live ∧
        ∀ j ≤ maxOrder, ∀ o, o ∈ s₂.machine.freelists j ↔ o ∈ s.machine.freelists j := by
  have hb := (booted_of_buddyInit hinit).1
  obtain ⟨ht, hn⟩ := noTwins_of_reaches hb (orderly_of_buddyInit hinit hpages hwrap hsep) hrun
  refine ⟨hn, fun k hk hhas hstuck s₁ hstep => ?_⟩
  have ht₁ : Tidy 6 s₁ := step_tidy (a := .alloc k) (by decide) ht ⟨⟨hk.le, hhas⟩, trivial⟩ hstep
  obtain ⟨k', o, rest, x, added, hsrc, hlive, he, hcase⟩ := alloc_stepEffect ht.sane hhas hstep
  have ho := mem_freelists_of_source hsrc
  rcases hcase with ⟨rfl, rfl, rfl⟩ | ⟨hkk, rfl, rfl⟩
  · obtain ⟨s₂, h1, h2, h3⟩ := restore_same_order hn ht₁ hk ho hlive he
    exact ⟨_, s₂, hlive, h1, h2, fun j hj o => h3.mem_iff hj⟩
  · have hnext : usableAt s.machine k (o + 2 ^ (k + 1)) = true := by
      by_cases hk' : k' = k + 1
      · subst hk'
        by_contra hc
        refine hstuck ⟨hsrc.least k le_rfl hkk, o, ?_, Bool.eq_false_iff.mpr hc⟩
        rw [hsrc.list]
        rfl
      · -- The pages behind the pair are the rest of the source block.
        have hso := ht.sane.lists k' hsrc.order_le o ho
        have hu := ht.conserved.usable ht.orderly (mem_blocks_of_listed hsrc.order_le ho) hso
        rw [usableAt_eq] at hu ⊢
        have hle : 2 ^ (k + 1 + 1) ≤ 2 ^ k' := Nat.pow_le_pow_right (by decide) (by omega)
        have h1 := two_pow_succ' (k + 1)
        have h2 := two_pow_succ' k
        have hpos := Nat.two_pow_pos k
        exact usablePages_mono ht.orderly.noWrap hso.fits hu (by omega) (by omega)
    obtain ⟨s₂, h1, h2, h3⟩ := restore_split ht hn ht₁ hkk hsrc.order_le ho hnext hlive he
    exact ⟨_, s₂, hlive, h1, h2, fun j hj o => h3.mem_iff hj⟩

/-- Four pages, one allocated: another page can be allocated and freed again. -/
theorem no_free_twins_four_pages :
    ∃ m₀ s s₁, buddyInit noSlab [⟨0x100000, 0x104000⟩] () 1 0x100000 0x104000 = .ok m₀ ∧
      Reaches step AllowedSafe ⟨m₀, []⟩ s ∧ s.live = [⟨1, 0⟩] ∧
      ¬ (0 ∈ s.machine.freelists 0 ∧ 1 ∈ s.machine.freelists 0) ∧ step s (.alloc 0) = .ok s₁ ∧
      ∃ b s₂, s₁.live = b :: s.live ∧ step s₁ (.free b) = .ok s₂ ∧ s₂.live = s.live ∧
        ∀ j ≤ maxOrder, ∀ o, o ∈ s₂.machine.freelists j ↔ o ∈ s.machine.freelists j := by
  obtain ⟨m₀, s, hinit, hrun, hpost⟩ := exists_of_sample
    (buddyInit noSlab [⟨0x100000, 0x104000⟩] () 1 0x100000 0x104000) (⟨·, []⟩) step
    (fun s a => decide (AllowedSafe s a)) [.alloc 0]
    (fun m s => decide (m.maxPageOffset ≤ 2 ^ 24 ∧ s.live = [⟨1, 0⟩] ∧ usableAt s.machine 1 0 = true ∧
      HasBlock s.machine 0 ∧ ¬ Stuck s.machine 0) && (step s (.alloc 0)).isOk)
    (fun _ _ => of_decide_eq_true) (by decide)
  obtain ⟨hpost, hok⟩ := Bool.and_eq_true_iff.mp hpost
  obtain ⟨h1, h2, h3, h4, h5⟩ := of_decide_eq_true hpost
  obtain ⟨htwins, hrestore⟩ := no_free_twins hinit h1 (by decide) (by decide) hrun
  obtain ⟨s₁, hs₁⟩ := exists_ok_of_isOk hok
  exact ⟨m₀, s, s₁, hinit, hrun, h2, htwins 0 (by decide) 0 (by decide) h3, hs₁,
    hrestore 0 (by decide) h4 h5 s₁ hs₁⟩

/-- Two pages: allocating one and freeing it leaves two free pages where a block of two was. -/
theorem alloc_free_leaves_twins :
    ∃ m₀ s, buddyInit noSlab [⟨0x100000, 0x102000⟩] () 1 0x100000 0x102000 = .ok m₀ ∧
      Reaches step (Allowed maxOrder) ⟨m₀, []⟩ s ∧ m₀.freelists 0 = [] ∧ m₀.freelists 1 = [0] ∧
      s.live = [] ∧ usableAt s.machine 1 0 = true ∧ s.machine.freelists 0 = [1, 0] ∧
      s.machine.freelists 1 = [] := by
  obtain ⟨m₀, s, hinit, hrun, hpost⟩ := exists_of_sample
    (buddyInit noSlab [⟨0x100000, 0x102000⟩] () 1 0x100000 0x102000) (⟨·, []⟩) step
    (fun s a => decide (Allowed maxOrder s a)) [.alloc 0, .free ⟨1, 0⟩]
    (fun m s => decide (m.freelists 0 = [] ∧ m.freelists 1 = [0] ∧ s.live = [] ∧
      usableAt s.machine 1 0 = true ∧ s.machine.freelists 0 = [1, 0] ∧ s.machine.freelists 1 = []))
    (fun _ _ => of_decide_eq_true) (by decide)
  exact ⟨m₀, s, hinit, hrun, of_decide_eq_true hpost⟩

end LearningOS
