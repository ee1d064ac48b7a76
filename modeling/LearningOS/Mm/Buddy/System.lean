import LearningOS.Mm.Buddy.Populate

/-!
# `Mm.Buddy.System` — the allocator and its client

The allocator does not record which blocks it handed out; the client does. `Sys` is the allocator together
with the live blocks, `step` one call of `buddy_alloc_block`, `buddy_free_block` or `buddy_shrink_block` on it,
and `Allowed` the contract under which a client may make the call. A run is `Run.Reaches step`. Nodes come
from the preallocated pool only (`noSlab`): a call that finds the node cache empty is not a step.

`step_exchange` is the one fact all conservation arguments rest on: an allowed step moves blocks between the
freelists and the live blocks without changing any additive weight of the whole.
-/

namespace LearningOS

open Word Run Dyadic

variable {V : Type}

/-! ## Calls -/

/-- The allocator and the blocks its client holds. -/
structure Sys (V : Type) where
  machine : Machine V
  live : List Block

/-- A call of the client. -/
inductive Act where
  | alloc (order : Nat)
  | free (b : Block)
  | shrink (b : Block) (numPages : Nat)
deriving DecidableEq, Repr

/-- One call. What is left of a shrunk block is the binary decomposition of its first `numPages` pages. -/
def step (s : Sys V) : Act → Except Fault (Sys V)
  | .alloc order =>
    buddyAllocBlock noSlab s.machine order >>= fun (addr, m) =>
      .ok ⟨m, ⟨m.pageOf addr, order⟩ :: s.live⟩
  | .free b =>
    buddyFreeBlock noSlab s.machine (s.machine.addrOf b.offset) b.order >>= fun m =>
      .ok ⟨m, s.live.erase b⟩
  | .shrink b numPages =>
    buddyShrinkBlock noSlab s.machine (s.machine.addrOf b.offset) b.order numPages >>= fun m =>
      .ok ⟨m, pieces b.offset numPages (b.order + 1) ++ s.live.erase b⟩

/-- The client's side of the contract: it asks for what is there, frees live blocks of an order below
    `limit`, and shrinks live blocks to at least one page. -/
def Allowed (limit : Nat) (s : Sys V) : Act → Prop
  | .alloc order => order ≤ maxOrder ∧ HasBlock s.machine order
  | .free b => b ∈ s.live ∧ b.order < limit
  | .shrink b numPages => b ∈ s.live ∧ 1 ≤ numPages ∧ numPages ≤ 2 ^ b.order

instance (limit : Nat) (s : Sys V) (a : Act) : Decidable (Allowed limit s a) :=
  match a with
  | .alloc order => inferInstanceAs (Decidable (order ≤ maxOrder ∧ HasBlock s.machine order))
  | .free b => inferInstanceAs (Decidable (b ∈ s.live ∧ b.order < limit))
  | .shrink b numPages => inferInstanceAs (Decidable (b ∈ s.live ∧ 1 ≤ numPages ∧ numPages ≤ 2 ^ b.order))

/-- All blocks in play: those on the freelists and the live ones. -/
def Sys.blocks (s : Sys V) : List Block := blocksOf maxOrder s.machine.freelists ++ s.live

/-- The shape every reachable state has. -/
structure Sane (s : Sys V) : Prop where
  charted : Charted s.machine
  lists : SoundLists s.machine
  live : ∀ b ∈ s.live, Sound s.machine.maxPageOffset b.offset b.order

theorem Booted.sane {m : Machine V} (h : Booted m) : Sane (⟨m, []⟩ : Sys V) :=
  ⟨h.charted, h.soundLists, fun _ hb => by cases hb⟩

/-! ## Inversion -/

theorem pageOf_setCounters (m : Machine V) (free alloc addr : Nat) :
    (m.setCounters free alloc).pageOf addr = m.pageOf addr := rfl

theorem step_alloc {s s' : Sys V} {t : Nat} (hs : Sane s) (ha : HasBlock s.machine t)
    (h : step s (.alloc t) = .ok s') :
    ∃ k o rest x m1, Source s.machine t k o rest ∧ takeBlock noSlab s.machine t = .ok (x, m1) ∧
      Sound s.machine.maxPageOffset x t ∧ s' = ⟨accountAlloc m1 t, ⟨x, t⟩ :: s.live⟩ := by
  obtain ⟨⟨addr, m⟩, h1, h2⟩ := bind_eq_ok.mp h
  obtain ⟨⟨x, m1⟩, h3, h4⟩ := bind_eq_ok.mp h1
  obtain ⟨k, o, rest, hsrc⟩ := source_of_hasBlock ha
  have ho : Sound s.machine.maxPageOffset o k := hs.lists k hsrc.order_le o (mem_freelists_of_source hsrc)
  have hx : Sound s.machine.maxPageOffset x t := by
    rcases (takeBlock_effect hs.charted hs.lists hsrc h3).1 with ⟨rfl, rfl, -⟩ | ⟨htk, rfl, -⟩
    · exact ho
    · exact ho.rightHalf htk
  refine ⟨k, o, rest, x, m1, hsrc, h3, hx, ?_⟩
  cases h4
  cases h2
  dsimp only [accountAlloc]
  rw [pageOf_setCounters, pageOf_addrOf m1 (lt_trans hx.lt (by decide))]

theorem step_free {s s' : Sys V} {b : Block} (h : step s (.free b) = .ok s') :
    ∃ m', buddyFreeBlock noSlab s.machine (s.machine.addrOf b.offset) b.order = .ok m' ∧
      s' = ⟨m', s.live.erase b⟩ := by
  obtain ⟨m', h1, h2⟩ := bind_eq_ok.mp h
  cases h2
  exact ⟨m', h1, rfl⟩

theorem buddyShrinkBlock_eq {m : Machine V} (create : Callback V) {k o n : Nat}
    (ho : Sound m.maxPageOffset o k) :
    buddyShrinkBlock create m (m.addrOf o) k n =
      shrinkLoop create 256 m o (splitOrderOf k) n >>= fun r => .ok (accountShrink r.1 k r.2) := by
  have hk : k < 64 := lt_of_le_of_lt ho.order_le (by decide)
  have ht : truncNBits (m.pageOf (m.addrOf o)) k = o := by
    rw [pageOf_addrOf m (lt_trans ho.lt (by decide)), truncNBits_eq ho.lt64 hk]
    exact Nat.div_mul_cancel ho.aligned
  unfold buddyShrinkBlock
  rw [ht]
  rfl

theorem step_shrink {limit : Nat} {s s' : Sys V} {b : Block} {n : Nat} (hs : Sane s)
    (ha : Allowed limit s (.shrink b n)) (h : step s (.shrink b n) = .ok s') :
    ∃ m1, shrinkLoop noSlab 256 s.machine b.offset (splitOrderOf b.order) n
        = .ok (m1, lastPiece b.order n) ∧
      Effect s.machine [] (leftovers b.order b.offset n) m1 ∧
      s' = ⟨accountShrink m1 b.order (lastPiece b.order n),
        pieces b.offset n (b.order + 1) ++ s.live.erase b⟩ := by
  obtain ⟨hb, h1, h2⟩ := ha
  have hsound := hs.live b hb
  obtain ⟨m, h3, h4⟩ := bind_eq_ok.mp h
  rw [buddyShrinkBlock_eq noSlab hsound] at h3
  obtain ⟨⟨m1, n'⟩, h5, h6⟩ := bind_eq_ok.mp h3
  have hk : b.order < 256 := lt_of_le_of_lt hsound.order_le (by decide)
  obtain ⟨he, rfl⟩ := shrinkLoop_effect b.order 256 h5 hk h1 h2 hsound
  cases h6
  cases h4
  exact ⟨m1, h5, he, rfl⟩

/-! ## What a step exchanges -/

/-- The pieces of a sound block are sound. -/
theorem Sound.pieces {pages o k n : Nat} (h : Sound pages o k) (hn : n ≤ 2 ^ k) {b : Block}
    (hb : b ∈ Dyadic.pieces o n (k + 1)) : Sound pages b.offset b.order := by
  by_cases he : n = 2 ^ k
  · rw [he, pieces_two_pow, List.mem_singleton] at hb
    subst hb
    exact h
  · rw [pieces_of_lt (by omega)] at hb
    obtain ⟨-, h2, h3, h4⟩ := mem_pieces (by omega) h.aligned hb
    exact h.inside h2 h3 (by omega)

/-- What an allowed step moves: `removed` leaves and `added` joins the freelists, and what the lists and the
    live blocks weigh together is the same before and after. -/
structure StepEffect (s s' : Sys V) (removed added : List Block) : Prop where
  effect : ListEffect s.machine removed added s'.machine
  sound : ∀ b ∈ added, Sound s.machine.maxPageOffset b.offset b.order
  live : ∀ b ∈ s'.live, Sound s.machine.maxPageOffset b.offset b.order
  balance : ∀ f, SplitAdditive f → total f added + total f s'.live = total f removed + total f s.live

/-- An allocation removes its source block and puts back what it splits off. -/
theorem alloc_stepEffect {s s' : Sys V} {t : Nat} (hs : Sane s) (ha : HasBlock s.machine t)
    (h : step s (.alloc t) = .ok s') :
    ∃ k o rest x added, Source s.machine t k o rest ∧ s'.live = ⟨x, t⟩ :: s.live ∧
      StepEffect s s' [⟨o, k⟩] added ∧
      (k = t ∧ x = o ∧ added = [] ∨
        t < k ∧ x = o + 2 ^ t ∧ added = rightHalves o t (k - 1) ++ [⟨o, t⟩]) := by
  obtain ⟨k, o, rest, x, m1, hsrc, htake, hx, rfl⟩ := step_alloc hs ha h
  have ho : Sound s.machine.maxPageOffset o k :=
    hs.lists k hsrc.order_le o (mem_freelists_of_source hsrc)
  have hlive : ∀ b ∈ (⟨x, t⟩ : Block) :: s.live, Sound s.machine.maxPageOffset b.offset b.order := by
    intro b hb
    rcases List.mem_cons.mp hb with rfl | hb
    · exact hx
    · exact hs.live b hb
  rcases (takeBlock_effect hs.charted hs.lists hsrc htake).1 with ⟨rfl, rfl, he⟩ | ⟨htk, rfl, he⟩
  · refine ⟨k, x, rest, x, [], hsrc, rfl, ⟨he.toListEffect.setCounters _ _, fun b hb => (by cases hb), hlive,
      fun f _ => ?_⟩, .inl ⟨rfl, rfl, rfl⟩⟩
    simp only [total_cons, total_nil]
    omega
  · refine ⟨k, o, rest, _, _, hsrc, rfl, ⟨he.toListEffect.setCounters _ _, ?_, hlive, fun f hf => ?_⟩,
      .inr ⟨htk, rfl, rfl⟩⟩
    · intro b hb
      rcases List.mem_append.mp hb with hb | hb
      · obtain ⟨h1, h2, h3⟩ := mem_rightHalves.mp hb
        rw [h3]
        exact ho.rightHalf (by omega)
      · rw [List.mem_singleton] at hb
        subst hb
        exact ho.lower htk.le
    · have hsplit := hf.rightHalves o t (k - 1) (by omega)
      have hlast := hf t o
      rw [(by omega : k - 1 + 1 = k)] at hsplit
      rw [total_append]
      simp only [total_cons, total_nil]
      omega

/-- A free turns the block and the buddies it merges with into one listed block. -/
theorem free_stepEffect {s s' : Sys V} {b : Block} (hs : Sane s) (hb : b ∈ s.live)
    (h : step s (.free b) = .ok s') :
    ∃ ord, b.order ≤ ord ∧
      StepEffect s s' (buddiesUp b.offset b.order (ord - b.order)) [⟨baseAt ord b.offset, ord⟩] ∧
      (mergesFirst s.machine (s.machine.addrOf b.offset) b.order = true ∧
          MergesTo s.machine (b.order + 1) b.offset ord (baseAt ord b.offset) ∨
        mergesFirst s.machine (s.machine.addrOf b.offset) b.order = false ∧ ord = b.order) := by
  have hsound := hs.live b hb
  obtain ⟨m', h1, rfl⟩ := step_free h
  obtain ⟨ord, m1, rfl, hle, hord, he, hhow⟩ := buddyFreeBlock_effect hs.charted hsound h1
  refine ⟨ord, hle, ⟨he.toListEffect.setCounters _ _, ?_, ?_, fun f hf => ?_⟩, hhow⟩
  · intro c hc
    rw [List.mem_singleton] at hc
    subst hc
    exact hord
  · intro c hc
    exact hs.live c (List.mem_of_mem_erase hc)
  · have hup := hf.buddiesUp (ord - b.order) b.order b.offset hsound.aligned
    have herase := total_erase f hb
    rw [(by omega : b.order + (ord - b.order) = ord)] at hup
    simp only [total_cons, total_nil]
    omega

/-- A shrink lists the leftovers. -/
theorem shrink_stepEffect {limit : Nat} {s s' : Sys V} {b : Block} {n : Nat} (hs : Sane s)
    (ha : Allowed limit s (.shrink b n)) (h : step s (.shrink b n) = .ok s') :
    StepEffect s s' [] (leftovers b.order b.offset n) := by
  obtain ⟨m1, -, he, rfl⟩ := step_shrink hs ha h
  obtain ⟨hb, h1, h2⟩ := ha
  have hsound := hs.live b hb
  refine ⟨he.toListEffect.setCounters _ _, ?_, ?_, fun f hf => ?_⟩
  · intro c hc
    obtain ⟨h3, h4, h5, h6⟩ := mem_leftovers hsound.aligned hc
    exact hsound.inside h4 h5 h6
  · intro c hc
    rcases List.mem_append.mp hc with hc | hc
    · exact hsound.pieces h2 hc
    · exact hs.live c (List.mem_of_mem_erase hc)
  · have hleft := hf.leftovers b.order b.offset n h1 h2
    have herase := total_erase f hb
    rw [total_append, total_nil]
    omega

/-- **An allowed step conserves every additive weight of lists and live blocks together.** -/
theorem step_exchange {limit : Nat} {s s' : Sys V} {a : Act} (hs : Sane s) (ha : Allowed limit s a)
    (h : step s a = .ok s') : ∃ removed added, StepEffect s s' removed added := by
  cases a with
  | alloc t =>
      obtain ⟨k, o, rest, x, added, -, -, he, -⟩ := alloc_stepEffect hs ha.2 h
      exact ⟨_, added, he⟩
  | free b =>
      obtain ⟨ord, -, he, -⟩ := free_stepEffect hs ha.1 h
      exact ⟨_, _, he⟩
  | shrink b n => exact ⟨_, _, shrink_stepEffect hs ha h⟩

theorem StepEffect.sane {s s' : Sys V} {removed added : List Block} (hs : Sane s)
    (h : StepEffect s s' removed added) : Sane s' where
  charted := h.effect.layout.charted hs.charted
  lists := h.effect.soundLists hs.lists h.sound
  live := fun b hb => by
    rw [h.effect.layout.maxPageOffset]
    exact h.live b hb

/-- The weight of all blocks in play does not change. -/
theorem StepEffect.total_blocks {s s' : Sys V} {removed added : List Block}
    (h : StepEffect s s' removed added) {f : Nat → Nat → Nat} (hf : SplitAdditive f) :
    total f s'.blocks = total f s.blocks := by
  have h1 := h.effect.lists f
  have h2 := h.balance f hf
  unfold Sys.blocks
  rw [total_append, total_append, total_blocksOf, total_blocksOf]
  omega

end LearningOS
