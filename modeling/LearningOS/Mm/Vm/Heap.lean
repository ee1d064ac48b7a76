import LearningOS.Mm.Vm.System

/-!
# `Mm.Vm.Heap` — the contiguous zone

The heap is the one zone that grows and shrinks at its end. `HeapInv Q` is the invariant of its runs: the cursor is
where the allocations end, exactly the pages below it are present, and the entry of page `i` of each allocation
satisfies `Q`. `HeapInv.extend` and `HeapInv.shrink` keep it for any `Q` that the new entries satisfy, and say what
they write.

* `contiguous_zone_mapped` — mapped exactly up to the cursor, if no shrink crosses a page table.
-/

namespace LearningOS.Paging

open Word Run Radix

/-! ## Allocations -/

/-- The pages of a list of allocations. -/
def totalPages (allocs : List Alloc) : Nat := (allocs.map Alloc.pages).sum

@[simp] theorem totalPages_nil : totalPages [] = 0 := rfl

@[simp] theorem totalPages_cons (a : Alloc) (allocs : List Alloc) :
    totalPages (a :: allocs) = a.pages + totalPages allocs := rfl

theorem totalPages_append (xs ys : List Alloc) : totalPages (xs ++ ys) = totalPages xs + totalPages ys := by
  unfold totalPages
  rw [List.map_append, List.sum_append]

theorem totalPages_dropPages : ∀ allocs pages, totalPages (dropPages pages allocs) = totalPages allocs - pages := by
  intro allocs
  induction allocs with
  | nil => exact fun pages => (Nat.zero_sub pages).symm
  | cons a allocs ih =>
      intro pages
      unfold dropPages
      by_cases hlt : pages < a.pages
      · rw [if_pos hlt, totalPages_cons, totalPages_cons]
        show a.pages - pages + totalPages allocs = _
        omega
      · rw [if_neg hlt, ih, totalPages_cons]
        omega

/-- Giving back whole allocations leaves the others as they are. -/
theorem dropPages_append {rest : List Alloc} (hpos : ∀ a ∈ rest, 0 < a.pages) :
    ∀ popped : List Alloc, dropPages (totalPages popped) (popped ++ rest) = rest := by
  intro popped
  induction popped with
  | nil =>
      cases rest with
      | nil => rfl
      | cons a rest =>
          show dropPages 0 (a :: rest) = _
          unfold dropPages
          rw [if_pos (hpos a List.mem_cons_self)]
          rfl
  | cons a popped ih =>
      rw [List.cons_append, totalPages_cons]
      unfold dropPages
      rw [if_neg (by omega), show a.pages + totalPages popped - a.pages = totalPages popped by omega, ih]

/-- Every mapped page is a page of an allocation. -/
theorem slot_of_page :
    ∀ (allocs : List Alloc) (k : Nat), k < totalPages allocs →
      ∃ above a below i, allocs = above ++ a :: below ∧ i < a.pages ∧ k = totalPages below + i := by
  intro allocs
  induction allocs with
  | nil => exact fun k hk => absurd hk (Nat.not_lt_zero k)
  | cons a allocs ih =>
      intro k hk
      by_cases hlt : k < totalPages allocs
      · obtain ⟨above, b, below, i, rfl, hi, hk⟩ := ih k hlt
        exact ⟨a :: above, b, below, i, rfl, hi, hk⟩
      · rw [totalPages_cons] at hk
        exact ⟨[], a, allocs, k - totalPages allocs, rfl, by omega, by omega⟩

/-! ## The entries `vmzone_extend` writes -/

section MapPage

variable (e : PtEntry) (i pages : Nat) (flags : VmFlags) (phys : Nat)

theorem mapPage_present : (mapPage e i pages flags phys).present = true := by
  simp [mapPage, mapPhysPage, PtEntry.or, vmPtEntryCreate]

theorem mapPage_addr (h : PageAddr phys) : (mapPage e i pages flags phys).addr = phys := by
  show 0 ||| (phys &&& PtEntry.addrMask) = phys
  rw [Nat.zero_or, h.and_addrMask]

theorem mapPage_dataBehind :
    (mapPage e i pages flags phys).dataBehind = (e.dataBehind || decide (i > 0)) := by
  simp [mapPage, mapPhysPage, PtEntry.or, PtEntry.unreserved, vmPtEntryCreate, dataAllocFlags]

theorem mapPage_dataEarly :
    (mapPage e i pages flags phys).dataEarly = (e.dataEarly || flags.allocEarly) := by
  simp [mapPage, mapPhysPage, PtEntry.or, PtEntry.unreserved, vmPtEntryCreate, dataAllocFlags]

theorem mapPage_dataAhead (hpages : 1 ≤ pages) (hpages' : pages ≤ 128) :
    (mapPage e i pages flags phys).dataAhead = (e.dataAhead || decide (i < pages - 1)) := by
  have hsub : sub64 (pages % 256) 1 = pages - 1 := by
    rw [Nat.mod_eq_of_lt (by omega)]
    exact sub64_of_le (by omega) hpages
  simp [mapPage, mapPhysPage, PtEntry.or, PtEntry.unreserved, vmPtEntryCreate, dataAllocFlags, hsub]

end MapPage

/-! ## The invariant -/

/-- The heap: its cursor, its pages, and the entries of the pages of each allocation. -/
structure HeapInv (Q : Alloc → Nat → PtEntry → Prop) (s : VmSys) : Prop where
  ok : TreeOk s.vm
  fresh : FreshFrames s.vm
  count : s.shrunk + totalPages s.allocs = s.extended
  below : startPage .kernelHeap + totalPages s.allocs < 0xFFFFFFFF80000
  zone : s.vm.zones .kernelHeap =
    { initializedZone .kernelHeap with cursorAddr := (startPage .kernelHeap + totalPages s.allocs) * 4096 }
  present : ∀ v, OwnPage v → ((leaf s.vm v).present = true ↔
    startPage .kernelHeap ≤ v ∧ v < startPage .kernelHeap + totalPages s.allocs)
  slots : ∀ above a below, s.allocs = above ++ a :: below → ∀ i, i < a.pages →
    Q a i (leaf s.vm (startPage .kernelHeap + totalPages below + i)).core

namespace HeapInv

variable {Q : Alloc → Nat → PtEntry → Prop} {s : VmSys}

theorem boot {vm : VmSpace} (h : BootSpace vm) (hframes : vm.frames = []) : HeapInv Q (.boot vm) := by
  obtain ⟨-, -, hlt, -, hhi, hstart, -⟩ := zone_layout .kernelHeap
  have hnone : totalPages (VmSys.boot vm).allocs = 0 := rfl
  refine ⟨SpaceReady.ok h, ⟨?_, ?_, ?_⟩, rfl, ?_, ?_, fun v hv => ?_, fun above a below he => ?_⟩
  · show vm.frames.Nodup
    rw [hframes]
    exact List.nodup_nil
  · show ∀ f ∈ vm.frames, _
    rw [hframes]
    exact nofun
  · show ∀ f ∈ vm.frames, _
    rw [hframes]
    exact nofun
  · rw [hnone]
    omega
  · have hcursor : (initializedZone .kernelHeap).cursorAddr = startPage .kernelHeap * 4096 := hstart
    show vm.zones .kernelHeap = _
    rw [h.zones, hnone, Nat.add_zero, ← hcursor]
  · have hp : (leaf (VmSys.boot vm).vm v).present = false := h.not_present hv
    rw [hnone, hp]
    constructor
    · exact nofun
    · rintro ⟨h1, h2⟩
      omega
  · have he : [] = above ++ a :: below := he
    simp at he

theorem own (h : HeapInv Q s) {v : Nat} (hlo : startPage .kernelHeap ≤ v)
    (hhi : v ≤ startPage .kernelHeap + totalPages s.allocs) : OwnPage v := by
  have hbelow := h.below
  obtain ⟨-, -, -, hlow, -⟩ := zone_layout .kernelHeap
  exact ownPage_iff.mpr (by omega)

theorem mapped_eq (h : HeapInv Q s) : s.mapped = totalPages s.allocs := by
  have hcount := h.count
  unfold VmSys.mapped
  omega

/-- A call of `vmzone_extend` in this state, for entries that satisfy `Q`: it keeps the invariant and writes the new
    pages only. -/
theorem extend (h : HeapInv Q s) {pages block : Nat} {flags : VmFlags} {frames : List Nat} {r : Option Nat}
    {vm' : VmSpace} (hfr : FreshFrames (s.vm.given frames))
    (hbelow : startPage .kernelHeap + totalPages s.allocs + pages < 0xFFFFFFFF80000)
    (hblock : block + pages * 4096 ≤ 2 ^ 52)
    (hQ : ∀ i, i < pages → Q ⟨block, pages, flags.allocEarly⟩ i
      (mapPage (leaf s.vm (startPage .kernelHeap + totalPages s.allocs + i)).core i pages flags (block + i * 4096)))
    (hrun : vmzoneExtend (s.vm.given frames) pages flags .kernelHeap block = .ok (r, vm')) :
    r = some ((startPage .kernelHeap + totalPages s.allocs) * 4096) ∧ vm'.calls = s.vm.calls ∧
      HeapInv Q { s with
        vm := vm'
        allocs := ⟨block, pages, flags.allocEarly⟩ :: s.allocs
        extended := s.extended + pages } ∧
      (∀ v, OwnPage v → ¬ (startPage .kernelHeap + totalPages s.allocs ≤ v ∧
        v < startPage .kernelHeap + totalPages s.allocs + pages) → (leaf vm' v).core = (leaf s.vm v).core) ∧
      (∀ i, i < pages → (leaf vm' (startPage .kernelHeap + totalPages s.allocs + i)).core =
        mapPage (leaf s.vm (startPage .kernelHeap + totalPages s.allocs + i)).core i pages flags
          (block + i * 4096)) ∧
      ∀ z, z ≠ .kernelHeap → vm'.zones z = s.vm.zones z := by
  obtain ⟨-, -, -, hlow, -⟩ := zone_layout .kernelHeap
  have hcontig : ((s.vm.given frames).zones .kernelHeap).flags.contiguous = true := by
    show (s.vm.zones .kernelHeap).flags.contiguous = true
    rw [h.zone]
    rfl
  have hcursor : ((s.vm.given frames).zones .kernelHeap).cursorAddr =
      (startPage .kernelHeap + totalPages s.allocs) * 4096 := by
    show (s.vm.zones .kernelHeap).cursorAddr = _
    rw [h.zone]
  obtain ⟨hr, hzones, hkeeps, hmapped, hcalls⟩ := vmzoneExtend_spec (treeOk_given h.ok) hfr hcontig hcursor
    (fun j hj => ownPage_iff.mpr (by omega)) (Nat.lt_of_le_of_lt hblock (by decide)) hrun
  have hmapped : ∀ j, j < pages → (leaf vm' (startPage .kernelHeap + totalPages s.allocs + j)).core =
      mapPage (leaf s.vm (startPage .kernelHeap + totalPages s.allocs + j)).core j pages flags (block + j * 4096) :=
    hmapped
  have hcore : ∀ v, OwnPage v → ¬ (startPage .kernelHeap + totalPages s.allocs ≤ v ∧
      v < startPage .kernelHeap + totalPages s.allocs + pages) → (leaf vm' v).core = (leaf s.vm v).core :=
    fun v hv hW => hkeeps.core v hv hW
  refine ⟨hr, hcalls, ⟨hkeeps.ok, hkeeps.fresh, ?_, ?_, ?_, fun v hv => ?_, fun above a below he i hi => ?_⟩, hcore,
    hmapped, fun z hz => by rw [hzones, Function.update_of_ne hz]; rfl⟩
  · have hcount := h.count
    show s.shrunk + (pages + totalPages s.allocs) = s.extended + pages
    omega
  · show startPage .kernelHeap + (pages + totalPages s.allocs) < _
    omega
  · show vm'.zones .kernelHeap = { initializedZone .kernelHeap with
      cursorAddr := (startPage .kernelHeap + (pages + totalPages s.allocs)) * 4096 }
    have hold : (s.vm.given frames).zones .kernelHeap = { initializedZone .kernelHeap with
      cursorAddr := (startPage .kernelHeap + totalPages s.allocs) * 4096 } := h.zone
    rw [hzones, Function.update_self, hold, show startPage .kernelHeap + totalPages s.allocs + pages =
      startPage .kernelHeap + (pages + totalPages s.allocs) by omega]
  · show (leaf vm' v).core.present = true ↔ _ ∧ v < startPage .kernelHeap + (pages + totalPages s.allocs)
    by_cases hin : startPage .kernelHeap + totalPages s.allocs ≤ v ∧
        v < startPage .kernelHeap + totalPages s.allocs + pages
    · obtain ⟨j, rfl⟩ : ∃ j, v = startPage .kernelHeap + totalPages s.allocs + j :=
        ⟨v - (startPage .kernelHeap + totalPages s.allocs), by omega⟩
      rw [hmapped j (by omega), mapPage_present]
      exact ⟨fun _ => by omega, fun _ => rfl⟩
    · rw [hcore v hv hin]
      have hold := h.present v hv
      show (leaf s.vm v).present = true ↔ _
      rw [hold]
      omega
  · -- The new allocation is on top, all others keep their entries.
    cases above with
    | nil =>
        obtain ⟨rfl, rfl⟩ := List.cons.inj he
        rw [hmapped i hi]
        exact hQ i hi
    | cons b above =>
        obtain ⟨rfl, hrest⟩ := List.cons.inj he
        have hrest : s.allocs = above ++ a :: below := hrest
        have htotal : totalPages s.allocs = totalPages above + (a.pages + totalPages below) := by
          rw [hrest, totalPages_append]
          rfl
        rw [hcore _ (h.own (by omega) (by omega)) (by omega)]
        exact h.slots above a below hrest i hi

/-- A call of `vmzone_shrink` in this state that stays in one page table: it keeps the invariant, gives back what the
    flags of the removed pages say and unmaps those pages only. -/
theorem shrink (h : HeapInv Q s) {pages : Nat} {vm' : VmSpace} (hpages : pages ≤ totalPages s.allocs)
    (htable : pages = 0 ∨ (totalPages s.allocs - 1) / 512 = (totalPages s.allocs - pages) / 512)
    (hslots : ∀ above a below, dropPages pages s.allocs = above ++ a :: below → ∀ i, i < a.pages →
      Q a i (leaf s.vm (startPage .kernelHeap + totalPages below + i)).core)
    (hrun : vmzoneShrink s.vm pages .kernelHeap = .ok (none, vm')) :
    HeapInv Q { s with vm := vm', allocs := dropPages pages s.allocs, shrunk := s.shrunk + pages } ∧
      ((walkBack (leaf s.vm) pages (startPage .kernelHeap + totalPages s.allocs - 1) 0).2 = 0 →
        vm'.calls = (walkBack (leaf s.vm) pages (startPage .kernelHeap + totalPages s.allocs - 1) 0).1 ++
          s.vm.calls) ∧
      (∀ v, OwnPage v → leaf vm' v =
        if startPage .kernelHeap + (totalPages s.allocs - pages) ≤ v ∧
          v < startPage .kernelHeap + totalPages s.allocs then (leaf s.vm v).cleared else leaf s.vm v) ∧
      ∀ z, z ≠ .kernelHeap → vm'.zones z = s.vm.zones z := by
  obtain ⟨hs, -, -, hlow, -⟩ := zone_layout .kernelHeap
  have hbelow := h.below
  have hcontig : (s.vm.zones .kernelHeap).flags.contiguous = true := by
    rw [h.zone]
    rfl
  have hcursor : (s.vm.zones .kernelHeap).cursorAddr =
      (startPage .kernelHeap + totalPages s.allocs - 1 + 1) * 4096 := by
    rw [h.zone, show startPage .kernelHeap + totalPages s.allocs - 1 + 1 =
      startPage .kernelHeap + totalPages s.allocs by omega]
  have hown : OwnPage (startPage .kernelHeap + totalPages s.allocs - 1) := by
    obtain ⟨-, -, -, hnormal, -⟩ := zone_layout .kernelStack
    have hheap : startPage .kernelHeap = 0xFFFFFF8000000 := by decide
    exact ownPage_iff.mpr (by omega)
  obtain ⟨hok, hfresh, hzones, hleaf, hcalls⟩ := vmzoneShrink_within h.ok h.fresh hcontig hcursor hown
    (by omega) hrun
  have htotal := totalPages_dropPages s.allocs pages
  have hleaf : ∀ v, OwnPage v → leaf vm' v =
      if startPage .kernelHeap + (totalPages s.allocs - pages) ≤ v ∧
        v < startPage .kernelHeap + totalPages s.allocs then (leaf s.vm v).cleared else leaf s.vm v := by
    intro v hv
    rw [hleaf v hv]
    refine if_congr ?_ rfl rfl
    omega
  refine ⟨⟨hok, hfresh, ?_, ?_, ?_, fun v hv => ?_, fun above a below he i hi => ?_⟩, hcalls, hleaf,
    fun z hz => by rw [hzones, Function.update_of_ne hz]⟩
  · have hcount := h.count
    show s.shrunk + pages + totalPages (dropPages pages s.allocs) = s.extended
    omega
  · show startPage .kernelHeap + totalPages (dropPages pages s.allocs) < _
    omega
  · show vm'.zones .kernelHeap = { initializedZone .kernelHeap with
      cursorAddr := (startPage .kernelHeap + totalPages (dropPages pages s.allocs)) * 4096 }
    rw [hzones, Function.update_self, h.zone, htotal,
      show startPage .kernelHeap + totalPages s.allocs - 1 + 1 - pages =
        startPage .kernelHeap + (totalPages s.allocs - pages) by omega]
  · show (leaf vm' v).present = true ↔
      startPage .kernelHeap ≤ v ∧ v < startPage .kernelHeap + totalPages (dropPages pages s.allocs)
    have hold := h.present v hv
    rw [hleaf v hv, htotal]
    by_cases hin : startPage .kernelHeap + (totalPages s.allocs - pages) ≤ v ∧
        v < startPage .kernelHeap + totalPages s.allocs
    · rw [if_pos hin]
      show false = true ↔ _
      constructor
      · exact nofun
      · rintro ⟨h1, h2⟩
        omega
    · rw [if_neg hin, hold]
      omega
  · have he : dropPages pages s.allocs = above ++ a :: below := he
    have hsplit : totalPages (dropPages pages s.allocs) = totalPages above + (a.pages + totalPages below) := by
      rw [he, totalPages_append]
      rfl
    rw [hleaf _ (h.own (by omega) (by omega)), if_neg (by omega)]
    exact hslots above a below he i hi

end HeapInv

/-! ## Mapped up to the cursor -/

/-- A call on a contiguous zone: the physical allocator answers with fresh frames, and no more pages are removed than
    are mapped. -/
def HeapCall (z : Zone) (s : VmSys) : VmAct → Prop
  | .alloc .. => False
  | .free .. => False
  | .extend zone pages _ frames block =>
    zone = z ∧ 1 ≤ pages ∧ pages ≤ 128 ∧ FreshFrames (s.vm.given frames) ∧ block + pages * 4096 ≤ 2 ^ 52
  | .shrink zone pages => zone = z ∧ pages ≤ s.mapped

/-- The call removes pages of one page table only, and leaves the zone below `KERNEL_VMA`. -/
def WithinTable (s : VmSys) : VmAct → Prop
  | .extend zone pages _ _ _ => (s.vm.zones zone).cursorAddr + pages * 4096 < kernelVma
  | .shrink _ pages => pages = 0 ∨ (s.mapped - 1) / 512 = (s.mapped - pages) / 512
  | _ => True

instance (z : Zone) (s : VmSys) (a : VmAct) : Decidable (HeapCall z s a) :=
  match a with
  | .alloc .. => isFalse id
  | .free .. => isFalse id
  | .extend .. => inferInstanceAs (Decidable (_ ∧ _ ∧ _ ∧ _ ∧ _))
  | .shrink .. => inferInstanceAs (Decidable (_ ∧ _))

instance (s : VmSys) (a : VmAct) : Decidable (WithinTable s a) :=
  match a with
  | .alloc .. => isTrue trivial
  | .free .. => isTrue trivial
  | .extend .. => inferInstanceAs (Decidable (_ < _))
  | .shrink .. => inferInstanceAs (Decidable (_ ∨ _))

/-- The heap is the only contiguous zone. -/
theorem eq_kernelHeap {z : Zone} (hz : (vmzoneInit z).flags.contiguous = true) : z = .kernelHeap := by
  revert hz
  cases z <;> decide

/-- The state before a growing call, as `HeapInv.extend` wants it. -/
theorem HeapInv.below_extend {Q : Alloc → Nat → PtEntry → Prop} {s : VmSys} (h : HeapInv Q s) {pages : Nat}
    (hroom : (s.vm.zones .kernelHeap).cursorAddr + pages * 4096 < kernelVma) :
    startPage .kernelHeap + totalPages s.allocs + pages < 0xFFFFFFFF80000 := by
  rw [h.zone] at hroom
  have hroom : (startPage .kernelHeap + totalPages s.allocs) * 4096 + pages * 4096 < 0xFFFFFFFF80000 * 4096 := hroom
  omega

/-- **One call keeps the pages below the cursor mapped**, whatever its flags. -/
theorem heapInv_step {s s' : VmSys} {a : VmAct} (h : HeapInv (fun _ _ _ => True) s) (hcall : HeapCall .kernelHeap s a)
    (hwithin : WithinTable s a) (hstep : step s a = .ok s') : HeapInv (fun _ _ _ => True) s' := by
  have hperform := step_ok hstep
  cases a with
  | alloc => exact hcall.elim
  | free => exact hcall.elim
  | extend zone pages flags frames block =>
      obtain ⟨rfl, -, -, hfr, hblock⟩ := hcall
      obtain ⟨⟨r, vm'⟩, hrun, hs'⟩ := bind_eq_ok.mp hperform
      obtain ⟨rfl, -, hinv, -⟩ := h.extend hfr (h.below_extend hwithin) hblock (fun _ _ => trivial) hrun
      cases hs'
      exact hinv
  | shrink zone pages =>
      obtain ⟨rfl, hle⟩ := hcall
      obtain ⟨⟨r, vm'⟩, hrun, hs'⟩ := bind_eq_ok.mp hperform
      have hwithin : pages = 0 ∨ (s.mapped - 1) / 512 = (s.mapped - pages) / 512 := hwithin
      rw [h.mapped_eq] at hle hwithin
      cases r with
      | some e => cases hs'
      | none =>
          obtain ⟨hinv, -⟩ := h.shrink hle hwithin (fun _ _ _ _ _ _ => trivial) hrun
          cases hs'
          exact hinv

end LearningOS.Paging
