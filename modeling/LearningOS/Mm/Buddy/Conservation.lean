import LearningOS.Mm.Buddy.System

/-!
# `Mm.Buddy.Conservation` — pages and bytes over whole runs

Two invariants of every run from `buddy_init`. The pages of the freelists and the live blocks together are
the pages that were free at the start, each once (`pages_conserved`). The byte and node counters follow the
lists as long as no block is shrunk to a length that is not a power of two
(`accounted_of_power_shrinks`): `buddy_shrink_block` subtracts the page counter its loop ends with, which is
only the last piece of the length.
-/

namespace LearningOS

open Word Run Dyadic

variable {V : Type}

/-! ## Pages -/

/-- Every run keeps the shape and every additive weight. -/
theorem reaches_conserves {limit : Nat} {s₀ s : Sys V} (h₀ : Sane s₀)
    (h : Reaches step (Allowed limit) s₀ s) :
    Sane s ∧ ∀ f, SplitAdditive f → total f s.blocks = total f s₀.blocks := by
  refine h.invariant (fun s => Sane s ∧ ∀ f, SplitAdditive f → total f s.blocks = total f s₀.blocks)
    ⟨h₀, fun _ _ => rfl⟩ ?_
  rintro s a s' ⟨hs, hw⟩ ha hstep
  obtain ⟨removed, added, he⟩ := step_exchange hs ha hstep
  exact ⟨he.sane hs, fun f hf => (he.total_blocks hf).trans (hw f hf)⟩

theorem Sane.aligned {s : Sys V} (h : Sane s) {b : Block} (hb : b ∈ s.blocks) : b.Aligned := by
  rcases List.mem_append.mp hb with hb | hb
  · obtain ⟨hk, ho⟩ := mem_blocksOf.mp hb
    exact (h.lists b.order hk b.offset ho).aligned
  · exact (h.live b hb).aligned

/-- The pages the freelists of a freshly initialised allocator cover. -/
theorem Booted.cover_blocks {m : Machine V} (h : Booted m) (hp : m.maxPageOffset ≤ 2 ^ 24) (p : Nat) :
    cover (blocksOf maxOrder m.freelists) p = cover (initialBlocks m) p := by
  rw [cover_eq_total, cover_eq_total, total_blocksOf, h.lists, map_storedBlock_initialBlocks hp]

/-- In every state reached no page is covered twice, and the pages covered are the initial ones. -/
theorem cover_conserved {m₀ : Machine V} {s : Sys V} (hb : Booted m₀) (hp : m₀.maxPageOffset ≤ 2 ^ 24)
    (h : Reaches step (Allowed maxOrder) ⟨m₀, []⟩ s) (p : Nat) :
    cover s.blocks p = cover (blocksOf maxOrder m₀.freelists) p ∧ cover s.blocks p ≤ 1 := by
  have hcons := (reaches_conserves hb.sane h).2 (hit p) (hit_additive p)
  have hstart : cover (⟨m₀, []⟩ : Sys V).blocks p = cover (blocksOf maxOrder m₀.freelists) p := by
    unfold Sys.blocks
    rw [List.append_nil]
  have heq : cover s.blocks p = cover (blocksOf maxOrder m₀.freelists) p := by
    rw [← hstart, cover_eq_total, cover_eq_total, hcons]
  refine ⟨heq, ?_⟩
  rw [heq, hb.cover_blocks hp]
  exact cover_initialBlocks_le_one m₀ p

/-- **Page conservation.** In every state a client can reach from `buddy_init`, the blocks on the freelists
    and the live blocks are pairwise disjoint and aligned, and together they are exactly the pages that were
    free right after `buddy_init`. -/
theorem pages_conserved {regions : List PhysmemRegion} {vm : V} {poolSlabs baseAddr endAddr : Nat}
    {m₀ : Machine V} {s : Sys V}
    (hinit : buddyInit noSlab regions vm poolSlabs baseAddr endAddr = .ok m₀)
    (hpages : m₀.maxPageOffset ≤ 2 ^ 24) (hrun : Reaches step (Allowed maxOrder) ⟨m₀, []⟩ s) :
    s.blocks.Pairwise Block.Disjoint ∧ (∀ b ∈ s.blocks, b.Aligned) ∧
      ∀ p, (∃ b ∈ s.blocks, b.has p = true) ↔ ∃ b ∈ blocksOf maxOrder m₀.freelists, b.has p = true := by
  have hb := (booted_of_buddyInit hinit).1
  refine ⟨?_, fun b hmem => (reaches_conserves hb.sane hrun).1.aligned hmem, fun p => ?_⟩
  · exact pairwise_disjoint_of_cover fun p => (cover_conserved hb hpages hrun p).2
  · rw [← cover_pos_iff, ← cover_pos_iff, (cover_conserved hb hpages hrun p).1]

/-- Eight pages: split down to one page, shrink the other half, free the page again. -/
theorem pages_conserved_eight_pages :
    ∃ m₀ s, buddyInit noSlab [⟨0x100000, 0x108000⟩] () 1 0x100000 0x108000 = .ok m₀ ∧
      Reaches step (Allowed maxOrder) ⟨m₀, []⟩ s ∧
      s.live = [⟨2, 0⟩] ∧ s.blocks.Pairwise Block.Disjoint ∧ (∀ b ∈ s.blocks, b.Aligned) ∧
      ∀ p, (∃ b ∈ s.blocks, b.has p = true) ↔ ∃ b ∈ blocksOf maxOrder m₀.freelists, b.has p = true := by
  obtain ⟨m₀, s, hinit, hrun, hpost⟩ := exists_of_sample
    (buddyInit noSlab [⟨0x100000, 0x108000⟩] () 1 0x100000 0x108000) (⟨·, []⟩) step
    (fun s a => decide (Allowed maxOrder s a)) [.alloc 0, .alloc 1, .shrink ⟨2, 1⟩ 1, .free ⟨1, 0⟩]
    (fun m s => decide (m.maxPageOffset ≤ 2 ^ 24) && decide (s.live = [⟨2, 0⟩]))
    (fun _ _ => of_decide_eq_true) (by decide)
  obtain ⟨hpages, hlive⟩ := Bool.and_eq_true_iff.mp hpost
  exact ⟨m₀, s, hinit, hrun, of_decide_eq_true hlive,
    pages_conserved hinit (of_decide_eq_true hpages) hrun⟩

/-! ## Bytes and nodes -/

/-- The counters say what the lists and the live blocks say. -/
structure Accounted (s : Sys V) : Prop where
  freeBytes : s.machine.freeSpaceBytes = total blockBytes (blocksOf maxOrder s.machine.freelists)
  allocBytes : s.machine.allocatedBytes = total blockBytes s.live
  objects : (blocksOf maxOrder s.machine.freelists).length = s.machine.freelistCache.allocatedObjects

/-- A shrink keeps a power of two of pages. -/
def PowerShrink : Act → Prop
  | .shrink _ numPages => numPages = 2 ^ Nat.log2 numPages
  | _ => True

instance : (a : Act) → Decidable (PowerShrink a)
  | .alloc _ => inferInstanceAs (Decidable True)
  | .free _ => inferInstanceAs (Decidable True)
  | .shrink _ numPages => inferInstanceAs (Decidable (numPages = 2 ^ Nat.log2 numPages))

theorem blockBytes_additive : SplitAdditive blockBytes := by
  intro k o
  unfold blockBytes
  rw [(by omega : k + 1 + pageOrder = k + pageOrder + 1), pow_succ]
  omega

theorem total_blockBytes (bs : List Block) : total blockBytes bs = total (fun j _ => pageSize * 2 ^ j) bs := by
  unfold total blockBytes
  congr 1
  refine List.map_congr_left (fun b _ => ?_)
  rw [pow_add, Nat.mul_comm]
  rfl

theorem total_blockBytes_pieces {k o n : Nat} (hn : n < 2 ^ k) :
    total blockBytes (pieces o n k) = pageSize * n := by
  rw [total_blockBytes, total_size_pieces pageSize hn]

theorem length_eq_total (bs : List Block) : bs.length = total (fun _ _ => 1) bs := by
  induction bs with
  | nil => rfl
  | cons b bs ih =>
      rw [total_cons, ← ih, List.length_cons]
      omega

/-- At most `2 ^ 19` bytes per block. -/
theorem total_blockBytes_le {bs : List Block} (h : ∀ b ∈ bs, b.order ≤ maxOrder) :
    total blockBytes bs ≤ bs.length * 2 ^ 19 := by
  induction bs with
  | nil => exact Nat.zero_le _
  | cons b bs ih =>
      have h1 : blockBytes b.order b.offset ≤ 2 ^ 19 :=
        Nat.pow_le_pow_right (by decide) (Nat.add_le_add_right (h b List.mem_cons_self) 12)
      have h2 := ih (fun c hc => h c (List.mem_cons_of_mem _ hc))
      rw [total_cons, List.length_cons, Nat.add_mul, Nat.one_mul]
      omega

/-- The invariant that carries the counters: they are right, all bytes together stay `bytes`, and the node
    cells in use and free stay within the pool. -/
structure Ledger (bytes : Nat) (s : Sys V) : Prop where
  sane : Sane s
  accounted : Accounted s
  bytes_lt : bytes < 2 ^ 64
  balance : total blockBytes s.blocks = bytes
  nodes : s.machine.freelistCache.cells + (blocksOf maxOrder s.machine.freelists).length ≤ 255 * objsPerSlab
  width : s.machine.freelistCache.allocatedObjects < 2 ^ 32

theorem Booted.ledger {m : Machine V} (h : Booted m) :
    Ledger (total blockBytes ((initialBlocks m).map storedBlock)) (⟨m, []⟩ : Sys V) := by
  have hlists : ∀ f, total f (blocksOf maxOrder m.freelists) = total f ((initialBlocks m).map storedBlock) :=
    fun f => (total_blocksOf m.freelists).trans (h.lists f)
  have hlen : (blocksOf maxOrder m.freelists).length = (initialBlocks m).length := by
    rw [length_eq_total, hlists, ← length_eq_total, List.length_map]
  have hnodes := h.nodes
  have hlt : total blockBytes ((initialBlocks m).map storedBlock) < 2 ^ 64 := by
    have hle : total blockBytes ((initialBlocks m).map storedBlock)
        ≤ ((initialBlocks m).map storedBlock).length * 2 ^ 19 := by
      refine total_blockBytes_le (fun b hb => ?_)
      obtain ⟨c, hc, rfl⟩ := List.mem_map.mp hb
      exact (sound_storedBlock hc).order_le
    rw [List.length_map] at hle
    have hcap : (initialBlocks m).length * 2 ^ 19 ≤ 255 * objsPerSlab * 2 ^ 19 :=
      Nat.mul_le_mul_right _ (by omega)
    exact lt_of_le_of_lt (hle.trans hcap) (by decide)
  refine ⟨h.sane, ⟨?_, ?_, ?_⟩, hlt, ?_, ?_, ?_⟩
  · rw [hlists, h.freeBytes, Nat.mod_eq_of_lt hlt]
  · exact h.allocBytes
  · rw [hlen, h.objects]
  · unfold Sys.blocks
    rw [List.append_nil, hlists]
  · rw [hlen]
    exact hnodes
  · rw [h.objects]
    exact lt_of_le_of_lt (by omega) (by decide : 255 * objsPerSlab < 2 ^ 32)

/-- Nodes follow the entries in every allowed step. -/
theorem StepEffect.nodes {s s' : Sys V} {removed added : List Block} (h : StepEffect s s' removed added) :
    s'.machine.freelistCache.cells + (blocksOf maxOrder s'.machine.freelists).length
        = s.machine.freelistCache.cells + (blocksOf maxOrder s.machine.freelists).length ∧
      (s'.machine.freelistCache.allocatedObjects + (blocksOf maxOrder s.machine.freelists).length) % 2 ^ 32
        = (s.machine.freelistCache.allocatedObjects + (blocksOf maxOrder s'.machine.freelists).length) % 2 ^ 32
      := by
  have hl := h.effect.lists (fun _ _ => 1)
  rw [← length_eq_total, ← length_eq_total, ← total_blocksOf, ← total_blocksOf, ← length_eq_total,
    ← length_eq_total] at hl
  have hc := h.effect.nodes.cells
  have ho := h.effect.nodes.objects
  exact ⟨by omega, by omega⟩

/-- The two counters move by the bytes the live blocks lose. -/
theorem ledger_of_counters {bytes : Nat} {s s' : Sys V} {removed added : List Block} (hl : Ledger bytes s)
    (he : StepEffect s s' removed added)
    (hc : s'.machine.allocatedBytes = total blockBytes s'.live ∧
      s'.machine.freeSpaceBytes = bytes - total blockBytes s'.live) : Ledger bytes s' := by
  have hbal := (he.total_blocks blockBytes_additive).trans hl.balance
  obtain ⟨hn, ho⟩ := he.nodes
  have hnodes := hl.nodes
  have hobj := hl.accounted.objects
  have hwidth := he.effect.nodes.width hl.width
  have hsum : total blockBytes (blocksOf maxOrder s'.machine.freelists) + total blockBytes s'.live = bytes := by
    rw [← total_append]
    exact hbal
  have hcap : 255 * objsPerSlab < 2 ^ 32 := by decide
  refine ⟨he.sane hl.sane, ⟨by omega, hc.1, ?_⟩, hl.bytes_lt, hbal, by omega, hwidth⟩
  omega

/-- A shrink to a power of two frees what it accounts for. -/
theorem total_pieces_of_powerShrink {k o n : Nat} (h1 : 1 ≤ n) (h2 : n ≤ 2 ^ k) (hpow : n = 2 ^ Nat.log2 n) :
    lastPiece k n = n ∧ total blockBytes (pieces o n (k + 1)) = pageSize * n := by
  refine ⟨(lastPiece_eq_iff h1 h2).mpr ⟨_, hpow⟩, total_blockBytes_pieces ?_⟩
  have := two_pow_succ' k
  have := Nat.two_pow_pos k
  omega

theorem step_ledger {bytes : Nat} {s s' : Sys V} {a : Act} (hl : Ledger bytes s)
    (ha : Allowed maxOrder s a ∧ PowerShrink a) (h : step s a = .ok s') : Ledger bytes s' := by
  obtain ⟨ha, hpow⟩ := ha
  obtain ⟨removed, added, he⟩ := step_exchange hl.sane ha h
  refine ledger_of_counters hl he ?_
  have hlt := hl.bytes_lt
  have hfree := hl.accounted.freeBytes
  have halloc := hl.accounted.allocBytes
  have hsum : total blockBytes (blocksOf maxOrder s.machine.freelists) + total blockBytes s.live = bytes := by
    rw [← total_append]
    exact hl.balance
  have hsum' : total blockBytes (blocksOf maxOrder s'.machine.freelists) + total blockBytes s'.live = bytes := by
    rw [← total_append]
    exact (he.total_blocks blockBytes_additive).trans hl.balance
  cases a with
  | alloc t =>
      obtain ⟨k, o, rest, x, m1, hsrc, htake, -, rfl⟩ := step_alloc hl.sane ha.2 h
      have hcnt : m1.freeSpaceBytes = s.machine.freeSpaceBytes ∧
          m1.allocatedBytes = s.machine.allocatedBytes := by
        rcases (takeBlock_effect hl.sane.charted hl.sane.lists hsrc htake).1 with ⟨-, -, he'⟩ | ⟨-, -, he'⟩
        · exact ⟨he'.freeBytes, he'.allocBytes⟩
        · exact ⟨he'.freeBytes, he'.allocBytes⟩
      rw [total_cons, blockBytes] at hsum' ⊢
      dsimp only [accountAlloc] at hsum' ⊢
      rw [setCounters_allocatedBytes, setCounters_freeSpaceBytes, hcnt.1, hcnt.2, hfree, halloc]
      rw [add64_of_lt (by omega), sub64_of_le (by omega) (by omega)]
      omega
  | free b =>
      obtain ⟨hb, hk⟩ := ha
      obtain ⟨m', h1, rfl⟩ := step_free h
      obtain ⟨ord, m1, rfl, -, -, he', -⟩ :=
        buddyFreeBlock_effect hl.sane.charted (hl.sane.live b hb) h1
      have herase := total_erase blockBytes hb
      rw [blockBytes] at herase
      dsimp only [accountFree] at hsum' ⊢
      rw [setCounters_allocatedBytes, setCounters_freeSpaceBytes, he'.freeBytes, he'.allocBytes, hfree, halloc]
      rw [add64_of_lt (by omega), sub64_of_le (by omega) (by omega)]
      omega
  | shrink b n =>
      obtain ⟨m1, -, he', rfl⟩ := step_shrink hl.sane ha h
      obtain ⟨hb, h1, h2⟩ := ha
      obtain ⟨hlast, hpieces⟩ := total_pieces_of_powerShrink (o := b.offset) h1 h2 hpow
      have herase := total_erase blockBytes hb
      have hbytes : blockBytes b.order b.offset = pageSize * 2 ^ b.order := by
        rw [blockBytes, pow_add, Nat.mul_comm]
        rfl
      have hk := two_pow_le_128 (hl.sane.live b hb).order_le
      have hfreed : shl64 (sub64 (2 ^ b.order) n) pageOrder = pageSize * 2 ^ b.order - pageSize * n := by
        rw [sub64_of_le (lt_of_le_of_lt hk (by decide)) h2, ← Nat.mul_sub, Nat.mul_comm]
        refine shl64_of_lt ?_
        have : (2 ^ b.order - n) * 2 ^ pageOrder ≤ 128 * 2 ^ pageOrder :=
          Nat.mul_le_mul_right _ (by omega)
        exact lt_of_le_of_lt this (by decide)
      have hmul : pageSize * n ≤ pageSize * 2 ^ b.order := Nat.mul_le_mul_left _ h2
      rw [total_append, hpieces] at hsum' ⊢
      rw [hbytes] at herase
      dsimp only [accountShrink] at hsum' ⊢
      rw [setCounters_allocatedBytes, setCounters_freeSpaceBytes, he'.freeBytes, he'.allocBytes, hfree, halloc,
        hlast, hfreed]
      rw [add64_of_lt (by omega), sub64_of_le (by omega) (by omega)]
      omega

/-- **Memory accounting over runs.** As long as every shrink keeps a power of two of pages, the counters are
    right in every state reached: `free_space_bytes` is the size of the listed blocks, `allocated_bytes` the
    size of the live ones, and there is one allocated node per entry. -/
theorem accounted_of_power_shrinks {regions : List PhysmemRegion} {vm : V}
    {poolSlabs baseAddr endAddr : Nat} {m₀ : Machine V} {s : Sys V}
    (hinit : buddyInit noSlab regions vm poolSlabs baseAddr endAddr = .ok m₀)
    (hrun : Reaches step (fun s a => Allowed maxOrder s a ∧ PowerShrink a) ⟨m₀, []⟩ s) : Accounted s := by
  have hb := (booted_of_buddyInit hinit).1
  have hl : Ledger (total blockBytes ((initialBlocks m₀).map storedBlock)) s :=
    hrun.invariant _ hb.ledger (fun s a s' hs ha hstep => step_ledger hs ha hstep)
  exact hl.accounted

/-- Four pages allocated, shrunk to two and freed. -/
theorem accounted_of_power_shrinks_four_pages :
    ∃ m₀ s, buddyInit noSlab [⟨0x100000, 0x104000⟩] () 1 0x100000 0x104000 = .ok m₀ ∧
      Reaches step (fun s a => Allowed maxOrder s a ∧ PowerShrink a) ⟨m₀, []⟩ s ∧
      s.live = [⟨1, 0⟩] ∧ Accounted s := by
  obtain ⟨m₀, s, hinit, hrun, hpost⟩ := exists_of_sample
    (buddyInit noSlab [⟨0x100000, 0x104000⟩] () 1 0x100000 0x104000) (⟨·, []⟩) step
    (fun s a => decide (Allowed maxOrder s a ∧ PowerShrink a))
    [.alloc 2, .shrink ⟨0, 2⟩ 2, .free ⟨0, 1⟩, .alloc 0] (fun _ s => decide (s.live = [⟨1, 0⟩]))
    (fun _ _ => of_decide_eq_true) (by decide)
  exact ⟨m₀, s, hinit, hrun, of_decide_eq_true hpost, accounted_of_power_shrinks hinit hrun⟩

/-- Four pages allocated and shrunk to three: one page is freed, but three are accounted as freed. -/
theorem shrink_to_three_miscounts :
    ∃ m₀ s, buddyInit noSlab [⟨0x100000, 0x104000⟩] () 1 0x100000 0x104000 = .ok m₀ ∧
      Reaches step (Allowed maxOrder) ⟨m₀, []⟩ s ∧ s.machine.allocatedBytes = 0x1000 ∧
      total blockBytes s.live = 0x3000 ∧ s.machine.freeSpaceBytes = 0x3000 ∧
      total blockBytes (blocksOf maxOrder s.machine.freelists) = 0x1000 ∧ ¬ Accounted s := by
  obtain ⟨m₀, s, hinit, hrun, hpost⟩ := exists_of_sample
    (buddyInit noSlab [⟨0x100000, 0x104000⟩] () 1 0x100000 0x104000) (⟨·, []⟩) step
    (fun s a => decide (Allowed maxOrder s a)) [.alloc 2, .shrink ⟨0, 2⟩ 3]
    (fun _ s => decide (s.machine.allocatedBytes = 0x1000 ∧ total blockBytes s.live = 0x3000 ∧
      s.machine.freeSpaceBytes = 0x3000 ∧ total blockBytes (blocksOf maxOrder s.machine.freelists) = 0x1000))
    (fun _ _ => of_decide_eq_true) (by decide)
  obtain ⟨h1, h2, h3, h4⟩ := of_decide_eq_true hpost
  exact ⟨m₀, s, hinit, hrun, h1, h2, h3, h4, fun h => by have := h.allocBytes; omega⟩

end LearningOS
