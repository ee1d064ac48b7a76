import LearningOS.Mm.Vm.Lookup

/-!
# `Mm.Vm.MapPages` — `vm_map_pages` and its boundary check

`vm_map_pages` maps a run of pages whose entries must lie in one page table. It asks
`__check_vm_region_boundary` whether they do, walks to the table, and writes. Two things go wrong: the check is wrong
about requests that end exactly where the table ends and about a count that wraps, and the outcome of the walk is not
looked at, so that the entries are written wherever it stopped.

* `checkVmRegionBoundary_eq_none` — what the check accepts;
* `boundary_check_iff` — when that is what it means to accept;
* `map_pages_refuses_iff` — when a call refuses what it cannot map.
-/

namespace LearningOS.Paging

open Word Radix

/-! ## The boundary check -/

/-- The bits of an address that the check compares. -/
abbrev offsetMask : Nat := shl64 0x8FFFFFF (12 + 9)

theorem testBit_offsetMask_low {i : Nat} (hi : i < 21) : offsetMask.testBit i = false := by
  have hmask : offsetMask = 0x8FFFFFF * 2 ^ 21 := by decide
  rw [hmask, Nat.testBit_mul_two_pow, decide_eq_false (by omega), Bool.false_and]

/-- Two addresses in the same 2MB pass the check. -/
theorem and_offsetMask_of_div {x y : Nat} (h : x / 2 ^ 21 = y / 2 ^ 21) : x &&& offsetMask = y &&& offsetMask := by
  apply Nat.eq_of_testBit_eq
  intro i
  rw [Nat.testBit_and, Nat.testBit_and]
  by_cases hi : i < 21
  · rw [testBit_offsetMask_low hi, Bool.and_false, Bool.and_false]
  · obtain ⟨j, rfl⟩ : ∃ j, i = j + 21 := ⟨i - 21, by omega⟩
    have hsame : x.testBit (j + 21) = y.testBit (j + 21) := by
      rw [← Nat.testBit_div_two_pow x, h, Nat.testBit_div_two_pow]
    rw [hsame]

/-- Two addresses in neighbouring 2MB do not: they differ in bit 21. -/
theorem and_offsetMask_of_parity {x y : Nat} (h : x / 2 ^ 21 % 2 ≠ y / 2 ^ 21 % 2) :
    x &&& offsetMask ≠ y &&& offsetMask := by
  intro he
  have hbit : offsetMask.testBit 21 = true := by decide
  have hx := congrArg (fun z => z.testBit 21) he
  simp only [Nat.testBit_and, hbit, Bool.and_true] at hx
  rw [Nat.testBit_eq_decide_div_mod_eq, Nat.testBit_eq_decide_div_mod_eq, decide_eq_decide] at hx
  omega

/-- The number of pages the check counts: the guard page is one more. -/
def countedPages (pages : Nat) (flags : VmFlags) : Nat := if flags.writeGuard then addW 16 pages 1 else pages

/-- **What the check accepts**: the counted pages must end before the table does. -/
theorem checkVmRegionBoundary_eq_none {virtBase pages : Nat} {flags : VmFlags} (hbase : virtBase < 2 ^ 64) :
    checkVmRegionBoundary virtBase pages flags = none ↔ ptOffset virtBase + countedPages pages flags < 512 := by
  show (if countedPages pages flags > 512 then some VmError.boundary
    else if virtBase &&& offsetMask = add64 virtBase (countedPages pages flags <<< 12) &&& offsetMask then none
    else some .boundary) = none ↔ _
  generalize countedPages pages flags = n
  rw [ptOffset_eq, Nat.shiftLeft_eq]
  by_cases hn : n > 512
  · rw [if_pos hn]
    constructor
    · intro h
      cases h
    · intro h
      omega
  rw [if_neg hn]
  by_cases hfit : virtBase / 4096 % 512 + n < 512
  · have hsame : virtBase / 2 ^ 21 = add64 virtBase (n * 2 ^ 12) / 2 ^ 21 := by
      unfold add64
      omega
    rw [if_pos (and_offsetMask_of_div hsame)]
    exact ⟨fun _ => hfit, fun _ => rfl⟩
  · have hnext : virtBase / 2 ^ 21 % 2 ≠ add64 virtBase (n * 2 ^ 12) / 2 ^ 21 % 2 := by
      unfold add64
      omega
    rw [if_neg (and_offsetMask_of_parity hnext)]
    constructor
    · intro h
      cases h
    · exact fun h => absurd h hfit

/-! ## The writes -/

theorem mem_mapPagesStores {physBase pages start i a : Nat} {flags f : VmFlags}
    (h : (i, a, f) ∈ mapPagesStores physBase pages start flags) :
    start ≤ i ∧ i < start + (pages + if flags.writeGuard then 1 else 0) := by
  unfold mapPagesStores at h
  rcases List.mem_append.mp h with h | h
  · obtain ⟨page, hpage, he⟩ := List.mem_map.mp h
    have hlt := List.mem_range.mp hpage
    cases he
    omega
  · cases hg : flags.writeGuard with
    | false =>
        rw [hg] at h
        cases h
    | true =>
        rw [hg] at h
        cases List.mem_singleton.mp h
        rw [if_pos rfl]
        omega

/-- Stores at offsets below 512 write one table. -/
theorem mapAll_other {pt : Nat} (stores : List (Nat × Nat × VmFlags)) (vm : VmSpace)
    (h : ∀ s ∈ stores, s.1 < 512) {f : Nat} (hf : f ≠ pt) (i : Nat) :
    (mapAll pt stores vm).tables f i = vm.tables f i := by
  induction stores generalizing vm with
  | nil => rfl
  | cons s rest ih =>
      obtain ⟨offset, physAddr, flags⟩ := s
      have hoffset : offset / 512 = 0 := Nat.div_eq_of_lt (h _ List.mem_cons_self)
      show (mapAll pt rest (mapPhysPageAt vm pt offset physAddr flags)).tables f i = vm.tables f i
      rw [ih _ (fun s hs => h s (List.mem_cons_of_mem _ hs))]
      unfold mapPhysPageAt
      rw [hoffset, Nat.zero_mul, Nat.add_zero]
      exact set_of_ne_table hf

section

variable {vm : VmSpace} {physBase pages virtBase t : Nat} {flags : VmFlags}

theorem vmMapPages_rejected (h : checkVmRegionBoundary virtBase pages flags ≠ none) :
    vmMapPages vm physBase pages virtBase flags = (some .boundary, vm) := by
  obtain ⟨e, he⟩ := Option.ne_none_iff_exists'.mp h
  unfold vmMapPages
  rw [he]

theorem vmMapPages_accepted (h : checkVmRegionBoundary virtBase pages flags = none) :
    vmMapPages vm physBase pages virtBase flags =
      (none, mapAll (traverseWithStatus vm.tables virtBase flags 3 vm.pml4t).1
        (mapPagesStores physBase pages (ptOffset virtBase) flags) vm) := by
  unfold vmMapPages
  rw [h]

/-! ## Which requests fit -/

/-- The pages of a request, the guard page included. -/
abbrev requestPages (pages : Nat) (flags : VmFlags) : Nat := pages + if flags.writeGuard then 1 else 0

/-- The check accepts exactly what fits one page table; what is accepted writes one page table only, and what fits is
    accepted. -/
structure BoundaryExact (virtBase pages : Nat) (flags : VmFlags) : Prop where
  accepts : checkVmRegionBoundary virtBase pages flags = none ↔ ptOffset virtBase + requestPages pages flags ≤ 512
  writes : ∀ vm physBase, (vmMapPages vm physBase pages virtBase flags).1 = none →
    (∀ s ∈ mapPagesStores physBase pages (ptOffset virtBase) flags, s.1 < 512) ∧
      ∃ t, ∀ f i, f ≠ t → (vmMapPages vm physBase pages virtBase flags).2.tables f i = vm.tables f i
  maps : ptOffset virtBase + requestPages pages flags ≤ 512 →
    ∀ vm physBase, (vmMapPages vm physBase pages virtBase flags).1 = none

/-- Below the largest request the counter does not wrap. -/
theorem countedPages_eq (hpages : pages < 2 ^ 16) (hwrap : ¬ (flags.writeGuard = true ∧ pages = 65535)) :
    countedPages pages flags = requestPages pages flags := by
  unfold countedPages requestPages
  cases hg : flags.writeGuard with
  | false => rfl
  | true =>
      have hne : pages ≠ 65535 := fun h => hwrap ⟨hg, h⟩
      exact addW_of_lt (by omega)

/-- The largest request counts as none. -/
theorem countedPages_wrap (h : flags.writeGuard = true ∧ pages = 65535) : countedPages pages flags = 0 := by
  obtain ⟨hg, rfl⟩ := h
  unfold countedPages
  rw [hg]
  rfl

/-- What was accepted with a true count is written into the table the walk stopped at. -/
theorem vmMapPages_other (hbase : virtBase < 2 ^ 64) (hpages : pages < 2 ^ 16)
    (hwrap : ¬ (flags.writeGuard = true ∧ pages = 65535))
    (h : (vmMapPages vm physBase pages virtBase flags).1 = none) :
    (∀ s ∈ mapPagesStores physBase pages (ptOffset virtBase) flags, s.1 < 512) ∧
      ∀ f i, f ≠ (traverseWithStatus vm.tables virtBase flags 3 vm.pml4t).1 →
        (vmMapPages vm physBase pages virtBase flags).2.tables f i = vm.tables f i := by
  by_cases hcheck : checkVmRegionBoundary virtBase pages flags = none
  · have hlt := (checkVmRegionBoundary_eq_none hbase).mp hcheck
    rw [countedPages_eq hpages hwrap] at hlt
    have hstores : ∀ s ∈ mapPagesStores physBase pages (ptOffset virtBase) flags, s.1 < 512 := by
      rintro ⟨i, a, f⟩ hs
      have hi := (mem_mapPagesStores hs).2
      show i < 512
      unfold requestPages at hlt
      omega
    refine ⟨hstores, fun f i hf => ?_⟩
    rw [vmMapPages_accepted hcheck]
    exact mapAll_other _ vm hstores hf i
  · rw [vmMapPages_rejected hcheck] at h
    cases h

/-- **When the boundary check is exact**: never for a request that ends with the table, and never for the largest
    request with a guard page, whose count wraps to 0. -/
theorem boundary_check_iff (hbase : virtBase < 2 ^ 64) (hpages : pages < 2 ^ 16) :
    BoundaryExact virtBase pages flags ↔
      ptOffset virtBase + requestPages pages flags ≠ 512 ∧ ¬ (flags.writeGuard = true ∧ pages = 65535) := by
  constructor
  · intro h
    by_cases hwrap : flags.writeGuard = true ∧ pages = 65535
    · -- the check counts no page and accepts
      have hoff : ptOffset virtBase < 512 := by
        rw [ptOffset_eq]
        exact Nat.mod_lt _ (by decide)
      have hcheck : checkVmRegionBoundary virtBase pages flags = none := by
        rw [checkVmRegionBoundary_eq_none hbase, countedPages_wrap hwrap]
        exact hoff
      have hle := h.accepts.mp hcheck
      rw [requestPages, hwrap.2] at hle
      omega
    · refine ⟨fun heq => ?_, hwrap⟩
      have hlt := (checkVmRegionBoundary_eq_none hbase).mp (h.accepts.mpr (Nat.le_of_eq heq))
      rw [countedPages_eq hpages hwrap, heq] at hlt
      exact absurd hlt (Nat.lt_irrefl 512)
  · rintro ⟨hne, hwrap⟩
    have hiff : checkVmRegionBoundary virtBase pages flags = none ↔
        ptOffset virtBase + requestPages pages flags ≤ 512 := by
      rw [checkVmRegionBoundary_eq_none hbase, countedPages_eq hpages hwrap]
      omega
    refine ⟨hiff, fun vm physBase hres => ?_, fun hle vm physBase => ?_⟩
    · obtain ⟨hstores, hother⟩ := vmMapPages_other hbase hpages hwrap hres
      exact ⟨hstores, _, hother⟩
    · rw [vmMapPages_accepted (hiff.mpr hle)]

/-- All pages of a table but the last. -/
theorem boundary_check_511 : BoundaryExact kernelSensitiveMem 511 { allowWrite := true } :=
  (boundary_check_iff (by decide) (by decide)).mpr ⟨by decide, by decide⟩

/-- The perfectly aligned request of 512 pages is refused, and 65535 pages with a guard page are accepted. -/
theorem boundary_check_fails :
    ¬ BoundaryExact kernelSensitiveMem 512 { allowWrite := true } ∧
      ¬ BoundaryExact kernelSensitiveMem 65535 { allowWrite := true, writeGuard := true } :=
  ⟨fun h => absurd (h.accepts.mpr (by decide)) (by decide), fun h => absurd (h.accepts.mp (by decide)) (by decide)⟩

/-! ## What a call may write -/

/-- The walk to an address ends in the page table `t`: each level is present, grants what is asked for and is no huge
    page. -/
def WalksTo (vm : VmSpace) (addr : Nat) (flags : VmFlags) (t : Nat) : Prop :=
  tableAt vm addr 3 = some t ∧ OnPath vm addr (Grants flags)

/-- Where the walk does not end in a page table the call fails and changes nothing; where it does, a call that returns
    0 has written entries of that table only. -/
structure RefusesUnmapped (vm : VmSpace) (physBase pages virtBase : Nat) (flags : VmFlags) : Prop where
  refuses : (∀ t, ¬ WalksTo vm virtBase flags t) →
    (vmMapPages vm physBase pages virtBase flags).1 ≠ none ∧
      (vmMapPages vm physBase pages virtBase flags).2.tables = vm.tables
  writes : ∀ t, WalksTo vm virtBase flags t → (vmMapPages vm physBase pages virtBase flags).1 = none →
    (∀ s ∈ mapPagesStores physBase pages (ptOffset virtBase) flags, s.1 < 512) ∧
      ∀ f i, f ≠ t → (vmMapPages vm physBase pages virtBase flags).2.tables f i = vm.tables f i

theorem WalksTo.traverse {addr : Nat} (h : WalksTo vm addr flags t) :
    traverseWithStatus vm.tables addr flags 3 vm.pml4t = (t, 0, none) :=
  (walks_to_stop vm 3 0 h.2 rfl h.1 (fun _ _ _ _ => rfl) 3 0 vm.pml4t rfl (Nat.zero_le 3) tableAt_zero).2

/-- The largest request with a guard page runs past the end of the table. -/
theorem exists_store_past (physBase : Nat) (h : flags.writeGuard = true ∧ pages = 65535) (start : Nat) :
    ∃ s ∈ mapPagesStores physBase pages start flags, 512 ≤ s.1 := by
  obtain ⟨hg, rfl⟩ := h
  refine ⟨(start + 65535, add64 physBase (65535 <<< 12), { flags with allowWrite := false }), ?_, by
    show 512 ≤ start + 65535
    omega⟩
  unfold mapPagesStores
  rw [hg]
  exact List.mem_append_right _ (List.mem_singleton.mpr rfl)

end

/-- Tables on the way to the heap, down to an empty page table. -/
def heapPathSpace : VmSpace :=
  { bareSpace with
    tables := fun table i =>
      if table = 0x1000 ∧ i = 511 then { present := true, writable := true, addr := 0x100000 }
      else if table = 0x100000 ∧ i = 0 then { present := true, writable := true, addr := 0x101000 }
      else if table = 0x101000 ∧ i = 0 then { present := true, writable := true, addr := 0x102000 }
      else .zero }

theorem heapPathSpace_walksTo : WalksTo heapPathSpace kernelSensitiveMem { allowWrite := true } 0x102000 := by
  refine ⟨rfl, fun h h1 h3 e he _ => ?_⟩
  have hcases : h = 1 ∨ h = 2 ∨ h = 3 := by omega
  rcases hcases with rfl | rfl | rfl
  all_goals
    obtain rfl := Option.some.inj he
    exact ⟨fun _ => rfl, nofun⟩

end LearningOS.Paging
