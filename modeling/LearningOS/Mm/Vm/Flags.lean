import LearningOS.Mm.Vm.Release

/-!
# `Mm.Vm.Flags` — the boundary flags of the allocations

Each leaf entry says whether its page has another page of the same allocation behind it and ahead of it, and whether
the allocation was an early one. `vmzone_extend` ORs these flags into what the entry had, `vmzone_shrink` leaves them
where it clears the present bit, and `vm_alloc_block` passes the address of the page where the size is meant.

* `heap_flags_exact` — the flags are exact, in a run without `vm_alloc_block` in which no stale flag is met;
* `block_page_ahead` — `vm_alloc_block` gives the last page of a block a page ahead.
-/

namespace LearningOS.Paging

open Word Run Radix

/-! ## Exact flags -/

/-- The entry of page `i` of an allocation. -/
def ExactPage (a : Alloc) (i : Nat) (e : PtEntry) : Prop :=
  e.addr = a.base + i * 4096 ∧ e.dataBehind = decide (i > 0) ∧ e.dataAhead = decide (i < a.pages - 1) ∧
    e.dataEarly = a.early

/-- The physical allocations that are live, of the heap and of the blocks. -/
def VmSys.allocations (s : VmSys) : List Alloc := s.allocs ++ s.blocks.map Prod.snd

/-- Every present leaf that maps page `i` of a live allocation has the flags of that page. -/
def FlagsExact (s : VmSys) : Prop :=
  ∀ v, OwnPage v → (leaf s.vm v).present = true → ∀ a ∈ s.allocations, ∀ i, i < a.pages →
    (leaf s.vm v).addr = a.base + i * 4096 → ExactPage a i (leaf s.vm v)

/-! ## The calls -/

/-- The call has a result. -/
def Succeeds {ε α : Type} (r : Except ε α) : Prop := ∃ x, r = .ok x

instance {ε α : Type} (r : Except ε α) : Decidable (Succeeds r) :=
  match r with
  | .ok x => isTrue ⟨x, rfl⟩
  | .error _ => isFalse nofun

/-- Any call: the physical allocator answers with fresh frames and with blocks apart from the live ones, only live
    blocks are freed, and a shrink succeeds. -/
def ZoneCall (s : VmSys) : VmAct → Prop
  | .alloc zone flags frames block =>
    (vmzoneInit zone).flags.blockAlloc = true ∧ FreshFrames (s.vm.given frames) ∧ block % 4096 = 0 ∧
      block + 2 * 4096 ≤ 2 ^ 52 ∧ ∀ a ∈ s.allocations, a.Apart ⟨block, 2, flags.allocEarly⟩
  | .free zone addr => addr < 2 ^ 64 ∧ addr / 8192 * 8192 ∈ s.live zone
  | .extend _ pages flags frames block =>
    1 ≤ pages ∧ pages ≤ 128 ∧ FreshFrames (s.vm.given frames) ∧ block % 4096 = 0 ∧ block + pages * 4096 ≤ 2 ^ 52 ∧
      ∀ a ∈ s.allocations, a.Apart ⟨block, pages, flags.allocEarly⟩
  | .shrink zone pages => pages ≤ s.mapped ∧ Succeeds (step s (.shrink zone pages))

/-- The flags left in the entry are among those that page `i` of the new allocation gets. -/
def LeftoverFits (e : PtEntry) (i pages : Nat) (early : Bool) : Prop :=
  (e.dataBehind = true → i > 0) ∧ (e.dataAhead = true → i < pages - 1) ∧ (e.dataEarly = true → early = true)

instance (e : PtEntry) (i pages : Nat) (early : Bool) : Decidable (LeftoverFits e i pages early) :=
  inferInstanceAs (Decidable (_ ∧ _ ∧ _))

/-- No block is allocated, the entries a growing call takes have no other flags than it sets, and a shrink removes
    whole allocations from one page table. -/
def MeetsNoFlag (s : VmSys) : VmAct → Prop
  | .alloc .. => False
  | .free .. => True
  | .extend zone pages flags frames block =>
    (vmzoneInit zone).flags.contiguous = true →
      WithinTable s (.extend zone pages flags frames block) ∧
        ∀ i, i < pages → LeftoverFits (leaf s.vm ((s.vm.zones zone).cursorAddr / 4096 + i)) i pages flags.allocEarly
  | .shrink zone pages => ShrinksWhole s (.shrink zone pages)

instance (s : VmSys) (a : VmAct) : Decidable (ZoneCall s a) :=
  match a with
  | .alloc .. => inferInstanceAs (Decidable (_ ∧ _ ∧ _ ∧ _ ∧ _))
  | .free .. => inferInstanceAs (Decidable (_ ∧ _))
  | .extend .. => inferInstanceAs (Decidable (_ ∧ _ ∧ _ ∧ _ ∧ _ ∧ _))
  | .shrink .. => inferInstanceAs (Decidable (_ ∧ _))

instance (s : VmSys) (a : VmAct) : Decidable (MeetsNoFlag s a) :=
  match a with
  | .alloc .. => isFalse id
  | .free .. => isTrue trivial
  | .extend .. => inferInstanceAs (Decidable (_ → _ ∧ _))
  | .shrink zone pages => inferInstanceAs (Decidable (ShrinksWhole s (.shrink zone pages)))

/-! ## Runs -/

/-- What the proof keeps along a run: there are no blocks, and the heap has exact entries. -/
structure FlagInv (s : VmSys) : Prop where
  heap : HeapInv ExactPage s
  kinds : ∀ z, (s.vm.zones z).flags.contiguous = (vmzoneInit z).flags.contiguous
  live : ∀ z, s.live z = []
  blocks : s.blocks = []
  sizes : ∀ a ∈ s.allocs, 1 ≤ a.pages
  apart : s.allocs.Pairwise Alloc.Apart

/-- A new page whose entry had no other flags gets exact ones. -/
theorem exactPage_mapPage {e : PtEntry} {i pages block : Nat} {flags : VmFlags}
    (hleft : LeftoverFits e i pages flags.allocEarly) (hi : i < pages) (hmax : pages ≤ 128)
    (haligned : block % 4096 = 0) (hblock : block + pages * 4096 ≤ 2 ^ 52) :
    ExactPage ⟨block, pages, flags.allocEarly⟩ i (mapPage e i pages flags (block + i * 4096)) := by
  obtain ⟨hbehind, hahead, hearly⟩ := hleft
  have hpage : PageAddr (block + i * 4096) := ⟨by omega, by omega⟩
  refine ⟨mapPage_addr _ _ _ _ _ hpage, ?_, ?_, ?_⟩
  · rw [mapPage_dataBehind]
    cases hb : e.dataBehind with
    | false => rfl
    | true => rw [decide_eq_true (hbehind hb)]; rfl
  · rw [mapPage_dataAhead _ _ _ _ _ (by omega) hmax]
    cases ha : e.dataAhead with
    | false => rfl
    | true => rw [decide_eq_true (hahead ha)]; rfl
  · rw [mapPage_dataEarly]
    cases he : e.dataEarly with
    | false => rfl
    | true => exact (hearly he).symm

namespace HeapInv

variable {Q : Alloc → Nat → PtEntry → Prop} {s : VmSys}

/-- Answers for page tables that are not used keep the invariant. -/
theorem given {frames : List Nat} (h : HeapInv Q s) (hfr : FreshFrames (s.vm.given frames)) :
    HeapInv Q { s with vm := s.vm.given frames } where
  ok := treeOk_given h.ok
  fresh := hfr
  count := h.count
  below := h.below
  zone := h.zone
  present := h.present
  slots := h.slots

end HeapInv

namespace FlagInv

variable {s s' : VmSys}

theorem boot {vm : VmSpace} (h : BootSpace vm) (hframes : vm.frames = []) : FlagInv (.boot vm) where
  heap := HeapInv.boot h hframes
  kinds := fun z => by
    show (vm.zones z).flags.contiguous = _
    rw [h.zones z]
    rfl
  live := fun _ => rfl
  blocks := rfl
  sizes := nofun
  apart := List.Pairwise.nil

theorem allocations_eq (h : FlagInv s) : s.allocations = s.allocs := by
  unfold VmSys.allocations
  rw [h.blocks, List.map_nil, List.append_nil]

/-- Every mapped page belongs to an allocation and has its flags. -/
theorem page_exact (h : FlagInv s) {v : Nat} (hv : OwnPage v) (hpresent : (leaf s.vm v).present = true) :
    ∃ a ∈ s.allocs, ∃ i, i < a.pages ∧ ExactPage a i (leaf s.vm v) := by
  rw [h.heap.present v hv] at hpresent
  obtain ⟨above, a, below, i, hallocs, hi, hv'⟩ := slot_of_page s.allocs (v - startPage .kernelHeap) (by omega)
  have hslot := h.heap.slots above a below hallocs i hi
  rw [show startPage .kernelHeap + totalPages below + i = v by omega] at hslot
  refine ⟨a, ?_, i, hi, hslot⟩
  rw [hallocs]
  exact List.mem_append_right above List.mem_cons_self

/-- **The flags are exact.** -/
theorem exact (h : FlagInv s) : FlagsExact s := by
  intro v hv hpresent b hb j hj haddr
  rw [h.allocations_eq] at hb
  obtain ⟨a, ha, i, hi, hexact⟩ := h.page_exact hv hpresent
  have hsame : a.base + i * 4096 = b.base + j * 4096 := hexact.1.symm.trans haddr
  -- Two allocations do not share a frame, so it is the allocation the page belongs to.
  by_cases hab : a = b
  · subst hab
    obtain rfl : i = j := by omega
    exact hexact
  · have hapart : a.Apart b := h.apart.forall ha hb hab
    exact (hapart.frames_disjoint (Alloc.mem_frames.mpr ⟨i, hi, rfl⟩) (Alloc.mem_frames.mpr ⟨j, hj, hsame⟩)).elim

/-- One growing call. -/
theorem extend {pages block : Nat} {flags : VmFlags} {frames : List Nat} {r : Option Nat} {vm' : VmSpace}
    (h : FlagInv s) (hcall : ZoneCall s (.extend .kernelHeap pages flags frames block))
    (hmeets : MeetsNoFlag s (.extend .kernelHeap pages flags frames block))
    (hrun : vmzoneExtend (s.vm.given frames) pages flags .kernelHeap block = .ok (r, vm')) :
    r ≠ none ∧ FlagInv { s with
      vm := vm'
      allocs := ⟨block, pages, flags.allocEarly⟩ :: s.allocs
      extended := s.extended + pages } := by
  obtain ⟨hpages, hmax, hfr, haligned, hblock, hapart⟩ := hcall
  obtain ⟨hwithin, hleft⟩ := hmeets rfl
  have hcursor : (s.vm.zones .kernelHeap).cursorAddr / 4096 = startPage .kernelHeap + totalPages s.allocs := by
    rw [h.heap.zone]
    exact Nat.mul_div_cancel _ (by decide)
  rw [hcursor] at hleft
  have hexact : ∀ i, i < pages → ExactPage ⟨block, pages, flags.allocEarly⟩ i
      (mapPage (leaf s.vm (startPage .kernelHeap + totalPages s.allocs + i)).core i pages flags
        (block + i * 4096)) :=
    fun i hi => exactPage_mapPage (hleft i hi) hi hmax haligned hblock
  obtain ⟨rfl, -, hheap, -, -, hzones⟩ := h.heap.extend hfr (h.heap.below_extend hwithin) hblock hexact hrun
  refine ⟨Option.some_ne_none _, hheap, fun z => ?_, h.live, h.blocks, fun a ha => ?_, ?_⟩
  · by_cases hz : z = .kernelHeap
    · subst hz
      rw [hheap.zone]
      rfl
    · show (vm'.zones z).flags.contiguous = _
      rw [hzones z hz]
      exact h.kinds z
  · rcases List.mem_cons.mp ha with rfl | ha
    · exact hpages
    · exact h.sizes a ha
  · refine List.pairwise_cons.mpr ⟨fun a ha => (hapart a ?_).symm, h.apart⟩
    rw [h.allocations_eq]
    exact ha

/-- One shrinking call. -/
theorem shrink {pages : Nat} {vm' : VmSpace} (h : FlagInv s) (hpages : pages ≤ s.mapped)
    (hwhole : ShrinksWhole s (.shrink .kernelHeap pages))
    (hrun : vmzoneShrink s.vm pages .kernelHeap = .ok (none, vm')) :
    FlagInv { s with vm := vm', allocs := dropPages pages s.allocs, shrunk := s.shrunk + pages } := by
  obtain ⟨htable, hwhole⟩ := hwhole
  have htable : pages = 0 ∨ (s.mapped - 1) / 512 = (s.mapped - pages) / 512 := htable
  obtain ⟨popped, rest, hallocs, rfl, -⟩ := WholeAllocs.split hwhole
  have hmem : ∀ a ∈ rest, a ∈ s.allocs := fun a ha => hallocs ▸ List.mem_append_right popped ha
  have hdrop : dropPages (totalPages popped) s.allocs = rest := by
    rw [hallocs]
    exact dropPages_append (fun a ha => h.sizes a (hmem a ha)) popped
  have hrest : ∀ above a below, dropPages (totalPages popped) s.allocs = above ++ a :: below → ∀ i, i < a.pages →
      ExactPage a i (leaf s.vm (startPage .kernelHeap + totalPages below + i)).core := by
    intro above a below he i hi
    rw [hdrop] at he
    exact h.heap.slots (popped ++ above) a below (by rw [hallocs, he, List.append_assoc]) i hi
  rw [h.heap.mapped_eq] at htable hpages
  obtain ⟨hheap, -, -, hzones⟩ := h.heap.shrink hpages htable hrest hrun
  refine ⟨hheap, fun z => ?_, h.live, h.blocks, fun a ha => ?_, ?_⟩
  · by_cases hz : z = .kernelHeap
    · subst hz
      rw [hheap.zone]
      rfl
    · show (vm'.zones z).flags.contiguous = _
      rw [hzones z hz]
      exact h.kinds z
  · rw [hdrop] at ha
    exact h.sizes a (hmem a ha)
  · show (dropPages (totalPages popped) s.allocs).Pairwise Alloc.Apart
    rw [hdrop]
    have hapart := h.apart
    rw [hallocs] at hapart
    exact (List.pairwise_append.mp hapart).2.1

/-- **One call keeps the invariant.** -/
theorem step {a : VmAct} (h : FlagInv s) (hcall : ZoneCall s a) (hmeets : MeetsNoFlag s a)
    (hstep : stepAny s a = .ok s') : FlagInv s' := by
  obtain ⟨ok, hperform⟩ := stepAny_ok hstep
  cases a with
  | alloc => exact hmeets.elim
  | free zone addr =>
      -- There is no live block to free.
      have hlive : addr / 8192 * 8192 ∈ s.live zone := hcall.2
      rw [h.live] at hlive
      cases hlive
  | extend zone pages flags frames block =>
      obtain ⟨⟨r, vm'⟩, hrun, hs'⟩ := bind_eq_ok.mp hperform
      by_cases hz : (vmzoneInit zone).flags.contiguous = true
      · obtain rfl := eq_kernelHeap hz
        obtain ⟨hsome, hinv⟩ := h.extend hcall hmeets hrun
        cases r with
        | none => exact absurd rfl hsome
        | some r =>
            cases hs'
            exact hinv
      · -- The call returns `NULL`.
        have hkind : ((s.vm.given frames).zones zone).flags.contiguous = false :=
          (h.kinds zone).trans (Bool.not_eq_true _ ▸ hz)
        unfold vmzoneExtend at hrun
        rw [hkind] at hrun
        cases hrun
        cases hs'
        exact ⟨h.heap.given hcall.2.2.1, h.kinds, h.live, h.blocks, h.sizes, h.apart⟩
  | shrink zone pages =>
      obtain ⟨hle, s1, hok⟩ := hcall
      have hok := step_ok hok
      rw [hperform] at hok
      cases hok
      obtain ⟨⟨r, vm'⟩, hrun, hs'⟩ := bind_eq_ok.mp hperform
      cases r with
      | some e => cases hs'
      | none =>
          by_cases hz : (vmzoneInit zone).flags.contiguous = true
          · obtain rfl := eq_kernelHeap hz
            cases hs'
            exact h.shrink hle hmeets hrun
          · -- On another zone the call would have failed.
            have hkind : (s.vm.zones zone).flags.contiguous = false :=
              (h.kinds zone).trans (Bool.not_eq_true _ ▸ hz)
            unfold vmzoneShrink at hrun
            rw [hkind] at hrun
            cases hrun

end FlagInv

end LearningOS.Paging
