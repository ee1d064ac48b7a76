import LearningOS.Mm.Buddy.Frame
import LearningOS.Mm.Phys.Model

/-!
# `Mm.Phys.Exhaustion` — an allocation that finds nothing

`__find_or_split_block` reports failure with `PAGE_OFFSET_OOB`, but its caller takes that for a page offset:
`buddy_alloc_block` accounts for a block that does not exist and returns an address below the allocator's
range, and `phys_alloc` goes on to shrink that block. `exhaustion_never_reported` says that it is so in every
reachable state: a request for which no block is left is never answered with `NULL` and an unchanged allocator.
-/

namespace LearningOS

open Word Run Dyadic

variable {V : Type}

/-! ## The failing path -/

theorem freelists_eq_nil_of_not_hasBlock {m : Machine V} {t k : Nat} (h : ¬ HasBlock m t) (htk : t ≤ k)
    (hk : k ≤ maxOrder) : m.freelists k = [] := by
  by_contra hne
  exact h ⟨k, List.mem_range.mpr (Nat.lt_succ_of_le hk), htk, hne⟩

/-- Without a block the search leaves the array and nothing is touched. -/
theorem takeBlock_exhausted (create : Callback V) {m : Machine V} {t : Nat} (ht : t ≤ maxOrder)
    (h : ¬ HasBlock m t) : takeBlock create m t = .ok (pageOffsetOob, m) := by
  have hgt : maxOrder < searchOrder m (maxOrder + 1) (t + 1) :=
    searchOrder_gt (maxOrder + 1) (t + 1) (by omega)
      (fun j h1 h2 => freelists_eq_nil_of_not_hasBlock h (by omega) h2)
  unfold takeBlock
  rw [freelists_eq_nil_of_not_hasBlock h le_rfl ht]
  dsimp only [findOrSplitBlock]
  rw [if_pos hgt]

theorem buddyAllocBlock_exhausted (create : Callback V) {m : Machine V} {t : Nat} (ht : t ≤ maxOrder)
    (h : ¬ HasBlock m t) :
    buddyAllocBlock create m t = .ok (m.addrOf pageOffsetOob, accountAlloc m t) := by
  unfold buddyAllocBlock
  rw [takeBlock_exhausted create ht h, ok_bind]

/-- The sentinel, scaled to bytes, steps one page below the range. -/
theorem addrOf_pageOffsetOob {m : Machine V} (h1 : 0x1000 ≤ m.baseAddr) (h2 : m.baseAddr < 2 ^ 64) :
    m.addrOf pageOffsetOob = m.baseAddr - 0x1000 := by
  have hshl : shl64 pageOffsetOob pageOrder = 2 ^ 64 - 0x1000 := by decide
  unfold Machine.addrOf add64
  rw [hshl]
  omega

theorem sub64_ne {a b : Nat} (h1 : 0 < b) (h2 : b < 2 ^ 64) : sub64 a b ≠ a := by
  unfold sub64
  omega

/-! ## Where the allocator's range starts -/

theorem findAllocatableRegion_start {regions : List PhysmemRegion} {bounds : AllocBounds}
    (h : findAllocatableRegion regions = some bounds) :
    0x100000 ≤ bounds.start ∧ ∃ r ∈ regions, r.freeStart = bounds.start := by
  unfold findAllocatableRegion at h
  split at h
  · cases h
  · next region rest hdrop =>
      cases h
      have hmem : region ∈ regions.dropWhile (·.freeStart < 0x100000) := by
        rw [hdrop]
        exact List.mem_cons_self
      have hne : regions.dropWhile (·.freeStart < 0x100000) ≠ [] := by
        rw [hdrop]
        exact List.cons_ne_nil _ _
      have hhead := List.head_dropWhile_not (fun r : PhysmemRegion => decide (r.freeStart < 0x100000)) hne
      simp only [hdrop, List.head_cons, decide_eq_false_iff_not, Nat.not_lt] at hhead
      exact ⟨hhead, region, (List.dropWhile_sublist _).subset hmem, rfl⟩

/-- Region starts stay 64-bit values when a part is reserved. -/
theorem reserveFrom_lt {n : Nat} :
    ∀ {regions : List PhysmemRegion}, (∀ r ∈ regions, r.freeStart < 2 ^ 64) →
      ∀ r ∈ (reserveFrom regions n).2, r.freeStart < 2 ^ 64
  | [], _, r, hr => by cases hr
  | region :: rest, h, r, hr => by
      unfold reserveFrom at hr
      split at hr
      · rcases List.mem_cons.mp hr with rfl | hr
        · exact h _ List.mem_cons_self
        · exact reserveFrom_lt (fun s hs => h s (List.mem_cons_of_mem _ hs)) r hr
      · rcases List.mem_cons.mp hr with rfl | hr
        · exact add64_lt _ _
        · exact h r (List.mem_cons_of_mem _ hr)

section Preserve

variable {S : Type} {zoneOf : S → BlockZone} {setZone : S → BlockZone → S}
  {allocPages : S → Nat → Except Fault S} {I : S → Prop}

/-- What page allocations and zone updates keep, `vm_alloc_block` keeps. -/
theorem vmAllocBlock_invariant (hzone : ∀ s z, I s → I (setZone s z))
    (hpages : ∀ s n s', I s → allocPages s n = .ok s' → I s') {s s' : S} (hs : I s)
    (h : vmAllocBlock zoneOf setZone allocPages s = .ok s') : I s' := by
  have htables : ∀ (block height : Nat) (s s' : S), I s →
      findOrAllocatePt zoneOf setZone allocPages block height s = .ok s' → I s' := by
    intro block height
    induction height with
    | zero =>
        intro s s' hs h
        cases h
        exact hs
    | succ height ih =>
        intro s s' hs h
        obtain ⟨s1, h1, h2⟩ := bind_eq_ok.mp h
        exact ih _ s' (hzone _ _ (hpages _ _ _ hs h1)) h2
  obtain ⟨s1, h1, h2⟩ := bind_eq_ok.mp h
  exact hpages _ _ _ (hzone _ _ (htables _ _ _ _ hs h1)) h2

end Preserve

theorem preallocSlabs_lt :
    ∀ (n : Nat) {e e' : EarlyMem}, (∀ r ∈ e.regions, r.freeStart < 2 ^ 64) → preallocSlabs n e = .ok e' →
      ∀ r ∈ e'.regions, r.freeStart < 2 ^ 64
  | 0, e, e', h, he => by
      cases he
      exact h
  | n + 1, e, e', h, he => by
      obtain ⟨e1, h1, h2⟩ := bind_eq_ok.mp he
      refine preallocSlabs_lt n ?_ h2
      refine vmAllocBlock_invariant (I := fun e : EarlyMem => ∀ r ∈ e.regions, r.freeStart < 2 ^ 64)
        ?_ ?_ h h1
      · intro s z hs
        exact hs
      · intro s k s' hs hk
        cases hk
        exact reserveFrom_lt hs

/-- `phys_alloc_init` sets the allocator up from a region after 1MB on. -/
theorem physAllocInit_base {e : EarlyMem} {m : Machine Vm} (he : ∀ r ∈ e.regions, r.freeStart < 2 ^ 64)
    (h : physAllocInit e = .ok m) : Booted m ∧ 0x100000 ≤ m.baseAddr ∧ m.baseAddr < 2 ^ 64 := by
  unfold physAllocInit at h
  split at h
  · cases h
  · obtain ⟨⟨slabs, e'⟩, h1, h2⟩ := bind_eq_ok.mp h
    dsimp only at h2
    split at h2
    · cases h2
    · next bounds hbounds =>
        obtain ⟨hboot, -, hbase, -⟩ := booted_of_buddyInit h2
        obtain ⟨hlow, r, hr, hstart⟩ := findAllocatableRegion_start hbounds
        have hlt : ∀ r ∈ e'.regions, r.freeStart < 2 ^ 64 := by
          unfold preallocBuddyPool at h1
          dsimp only at h1
          split at h1
          · obtain ⟨e1, h3, h4⟩ := bind_eq_ok.mp h1
            cases h4
            exact preallocSlabs_lt _ (reserveFrom_lt he) h3
          · cases h1
        have := hlt r hr
        exact ⟨hboot, by omega, by omega⟩

/-! ## What the caller sees -/

/-- The call returned `NULL` and left lists, bitmap and byte counters as they were. -/
def Reported (m : Machine V) (result : Except Fault (Nat × Machine V)) : Prop :=
  ∃ m', result = .ok (0, m') ∧ m'.freelists = m.freelists ∧ m'.buddyStateMap = m.buddyStateMap ∧
    m'.freeSpaceBytes = m.freeSpaceBytes ∧ m'.allocatedBytes = m.allocatedBytes

theorem buddyAllocBlock_not_reported (create : Callback V) {m : Machine V} {t : Nat} (ht : t ≤ maxOrder)
    (h : ¬ HasBlock m t) : ¬ Reported m (buddyAllocBlock create m t) := by
  rw [buddyAllocBlock_exhausted create ht h]
  rintro ⟨m', heq, -, -, hfree, -⟩
  have hm := congrArg Prod.snd (Except.ok.inj heq)
  dsimp only [accountAlloc] at hm
  rw [← hm, setCounters_freeSpaceBytes] at hfree
  have ht' : t + pageOrder ≤ 19 := Nat.add_le_add_right ht 12
  have hlt : 2 ^ (t + pageOrder) < 2 ^ 64 := Nat.pow_lt_pow_right (by decide) (by omega)
  exact sub64_ne (Nat.two_pow_pos _) hlt hfree

theorem physAllocWith_not_reported (create expand : Callback V) {m : Machine V} {n : Nat}
    (h1 : 1 ≤ n) (h2 : n ≤ 2 ^ maxOrder) (h : ¬ HasBlock m (bitOrder n)) (hlow : 0x100000 ≤ m.baseAddr)
    (hhigh : m.baseAddr < 2 ^ 64) : ¬ Reported m (physAllocWith create expand m n) := by
  have hn : n ≤ 128 := h2
  have horder : bitOrder n ≤ maxOrder := by
    by_contra hc
    have hlt : maxOrder < bitOrder n := Nat.lt_of_not_le hc
    have h3 := (bitOrder_spec h1 (by omega)).2 (by omega)
    have h4 : 2 ^ maxOrder ≤ 2 ^ (bitOrder n - 1) := Nat.pow_le_pow_right (by decide) (by omega)
    omega
  rintro ⟨m', heq, -⟩
  unfold physAllocWith at heq
  rw [if_neg (Nat.not_lt.mpr h2)] at heq
  dsimp only at heq
  rw [buddyAllocBlock_exhausted create horder h, ok_bind] at heq
  -- Whatever the shrink and the check do, the address is the one computed from the sentinel.
  obtain ⟨m2, -, heq⟩ := bind_eq_ok.mp heq
  obtain ⟨m3, -, heq⟩ := bind_eq_ok.mp heq
  have haddr := congrArg Prod.fst (Except.ok.inj heq)
  dsimp only at haddr
  rw [addrOf_pageOffsetOob (by omega) hhigh] at haddr
  omega

/-- **Exhaustion is never reported.** In every state reached after `phys_alloc_init`, a request for which no
    freelist of its order or higher holds a block, by `buddy_alloc_block` or by `phys_alloc`, does not come
    back with `NULL` and an untouched allocator. -/
theorem exhaustion_never_reported {e : EarlyMem} {m₀ : Machine Vm} {s : Sys Vm}
    (he : ∀ r ∈ e.regions, r.freeStart < 2 ^ 64) (hinit : physAllocInit e = .ok m₀)
    (hrun : Reaches step (Allowed (maxOrder + 1)) ⟨m₀, []⟩ s) :
    (∀ k ≤ maxOrder, ¬ HasBlock s.machine k → ¬ Reported s.machine (buddyAllocBlock noSlab s.machine k)) ∧
    ∀ n, 1 ≤ n → n ≤ 2 ^ maxOrder → ¬ HasBlock s.machine (bitOrder n) →
      ∀ fuel, ¬ Reported s.machine (physAlloc fuel s.machine n) := by
  obtain ⟨hboot, hlow, hhigh⟩ := physAllocInit_base he hinit
  have hbase := (reaches_layout hboot.sane hrun).2.baseAddr
  dsimp only at hbase
  refine ⟨fun k hk hno => buddyAllocBlock_not_reported noSlab hk hno, fun n h1 h2 hno fuel => ?_⟩
  cases fuel with
  | zero =>
      rintro ⟨m', h, -⟩
      cases h
  | succ fuel =>
      exact physAllocWith_not_reported _ _ h1 h2 hno (by omega) (by omega)

/-- One page of memory after 1MB, allocated: nothing is left for a second one. -/
theorem exhaustion_never_reported_one_page :
    ∃ m₀ s, physAllocInit ⟨[⟨0x1000, 0x9f000⟩, ⟨0x100000, 0x101000⟩], .fresh⟩ = .ok m₀ ∧
      Reaches step (Allowed (maxOrder + 1)) ⟨m₀, []⟩ s ∧ ¬ HasBlock s.machine 0 ∧
      ¬ Reported s.machine (buddyAllocBlock noSlab s.machine 0) ∧
      ¬ Reported s.machine (physAlloc 1 s.machine 1) := by
  obtain ⟨m₀, s, hinit, hrun, hpost⟩ := exists_of_sample
    (physAllocInit ⟨[⟨0x1000, 0x9f000⟩, ⟨0x100000, 0x101000⟩], .fresh⟩) (⟨·, []⟩) step
    (fun s a => decide (Allowed (maxOrder + 1) s a)) [.alloc 0] (fun _ s => decide (¬ HasBlock s.machine 0))
    (fun _ _ => of_decide_eq_true) (by decide)
  have hno := of_decide_eq_true hpost
  obtain ⟨h1, h2⟩ := exhaustion_never_reported (by decide) hinit hrun
  exact ⟨m₀, s, hinit, hrun, hno, h1 0 (by decide) hno, h2 1 le_rfl (by decide) hno 1⟩

/-- The second request is answered with the page below 1MB, which is accounted for as well. -/
theorem exhausted_alloc_returns_page_below :
    ∃ m₀ s m', physAllocInit ⟨[⟨0x1000, 0x9f000⟩, ⟨0x100000, 0x101000⟩], .fresh⟩ = .ok m₀ ∧
      Reaches step (Allowed (maxOrder + 1)) ⟨m₀, []⟩ s ∧ ¬ HasBlock s.machine 0 ∧
      physAlloc 1 s.machine 1 = .ok (0xFF000, m') ∧ s.machine.allocatedBytes = 0x1000 ∧
      m'.allocatedBytes = 0x2000 ∧ m'.freeSpaceBytes = 0xFFFFFFFFFFFFF000 := by
  obtain ⟨m₀, s, hinit, hrun, hpost⟩ := exists_of_sample
    (physAllocInit ⟨[⟨0x1000, 0x9f000⟩, ⟨0x100000, 0x101000⟩], .fresh⟩) (⟨·, []⟩) step
    (fun s a => decide (Allowed (maxOrder + 1) s a)) [.alloc 0]
    (fun _ s => decide (¬ HasBlock s.machine 0 ∧ s.machine.allocatedBytes = 0x1000) &&
      match physAlloc 1 s.machine 1 with
      | .ok (addr, m') =>
        decide (addr = 0xFF000 ∧ m'.allocatedBytes = 0x2000 ∧ m'.freeSpaceBytes = 0xFFFFFFFFFFFFF000)
      | .error _ => false)
    (fun _ _ => of_decide_eq_true) (by decide)
  obtain ⟨h1, h2⟩ := Bool.and_eq_true_iff.mp hpost
  obtain ⟨hno, halloc⟩ := of_decide_eq_true h1
  split at h2
  · next addr m' hok =>
      obtain ⟨rfl, h3, h4⟩ := of_decide_eq_true h2
      exact ⟨m₀, s, m', hinit, hrun, hno, hok, halloc, h3, h4⟩
  · cases h2

end LearningOS
