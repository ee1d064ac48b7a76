import LearningOS.Mm.Vm.Heap

/-!
# `Mm.Vm.Release` — what a shrink of the contiguous zone gives back

`vmzone_shrink` finds the allocations it removes by the flags in the page-table entries, from the last page down. A
page without `PT_DATA_PAGE_BEHIND` is taken for the first one of an allocation, its address for the base and the pages
counted so far for the size. `walkBack_whole` says that this is right for allocations whose first page has no such
flag, and `Released` what follows for the whole call.

* `heap_shrink_releases` — a shrink by whole allocations gives back exactly the frames it unmaps;
* `shrink_inside_allocation` — one that ends inside an allocation passes an entry where an address is meant.
-/

namespace LearningOS.Paging

open Word Run Radix

/-! ## Frames -/

/-- The physical pages of an allocation. -/
def Alloc.frames (a : Alloc) : List Nat := (List.range a.pages).map (fun i => a.base + i * 4096)

/-- The physical pages a call gives back. -/
def PhysCall.frames : PhysCall → List Nat
  | .free base pages => (List.range pages).map (fun i => base + i * 4096)
  | .shrink base size target => (List.range (size - target)).map (fun i => base + (target + i) * 4096)

/-- Two allocations share no page. -/
def Alloc.Apart (a b : Alloc) : Prop := a.base + a.pages * 4096 ≤ b.base ∨ b.base + b.pages * 4096 ≤ a.base

instance (a b : Alloc) : Decidable (a.Apart b) := inferInstanceAs (Decidable (_ ∨ _))

theorem Alloc.mem_frames {a : Alloc} {w : Nat} : w ∈ a.frames ↔ ∃ i, i < a.pages ∧ w = a.base + i * 4096 := by
  unfold Alloc.frames
  simp only [List.mem_map, List.mem_range]
  exact ⟨fun ⟨i, hi, he⟩ => ⟨i, hi, he.symm⟩, fun ⟨i, hi, he⟩ => ⟨i, hi, he.symm⟩⟩

theorem Alloc.frames_nodup (a : Alloc) : a.frames.Nodup := by
  refine List.Nodup.map (fun i j h => ?_) List.nodup_range
  have h : a.base + i * 4096 = a.base + j * 4096 := h
  omega

theorem Alloc.Apart.symm {a b : Alloc} (h : a.Apart b) : b.Apart a := Or.symm h

instance : Std.Symm Alloc.Apart := ⟨fun _ _ h => h.symm⟩

/-- Allocations that share no page and start on page boundaries have different frames. -/
theorem Alloc.Apart.frames_disjoint {a b : Alloc} (h : a.Apart b) : a.frames.Disjoint b.frames := by
  intro w hwa hwb
  obtain ⟨i, hi, rfl⟩ := Alloc.mem_frames.mp hwa
  obtain ⟨j, hj, he⟩ := Alloc.mem_frames.mp hwb
  rcases h with h | h <;> omega

theorem frames_nodup {allocs : List Alloc} (h : allocs.Pairwise Alloc.Apart) :
    (allocs.flatMap Alloc.frames).Nodup :=
  List.nodup_flatMap.mpr ⟨fun a _ => a.frames_nodup, h.imp (fun hab => hab.frames_disjoint)⟩

/-! ## The first loop on whole allocations -/

/-- The entries of the pages of some allocations, the lowest one from page `lo` on: the address of each page, a page
    behind it but for the first one, and no early allocation. -/
def AllocEntries (entries : Nat → PtEntry) (lo : Nat) (allocs : List Alloc) : Prop :=
  ∀ above a below, allocs = above ++ a :: below → ∀ i, i < a.pages →
    (entries (lo + totalPages below + i)).addr = a.base + i * 4096 ∧
      (entries (lo + totalPages below + i)).dataBehind = decide (0 < i) ∧
      (entries (lo + totalPages below + i)).dataEarly = false

theorem AllocEntries.tail {entries : Nat → PtEntry} {lo : Nat} {a : Alloc} {allocs : List Alloc}
    (h : AllocEntries entries lo (a :: allocs)) : AllocEntries entries lo allocs :=
  fun above b below he => h (a :: above) b below (congrArg (a :: ·) he)

/-- Down to the first page of an allocation the loop only counts. -/
theorem walkBack_alloc {entries : Nat → PtEntry} {lo : Nat} (hfirst : (entries lo).dataBehind = false)
    (hearly : (entries lo).dataEarly = false) (rest : Nat) :
    ∀ k size, (∀ i, 0 < i → i ≤ k → (entries (lo + i)).dataBehind = true) → size + k + 1 < 2 ^ 8 →
      walkBack entries (rest + (k + 1)) (lo + k) size =
        ((walkBack entries rest (lo - 1) 0).1 ++ [.free (entries lo).addr (size + k + 1)],
          (walkBack entries rest (lo - 1) 0).2) := by
  intro k
  induction k with
  | zero =>
      intro size _ hsize
      rw [Nat.add_zero lo, Nat.add_zero size, show rest + (0 + 1) = rest + 1 by omega, walkBack_start hfirst, hearly,
        addW_of_lt (show size + 1 < 2 ^ 8 from hsize)]
      rfl
  | succ k ih =>
      intro size hbehind hsize
      rw [show rest + (k + 1 + 1) = rest + (k + 1) + 1 by omega, walkBack_behind (hbehind (k + 1) (by omega) (by omega)),
        show lo + (k + 1) - 1 = lo + k by omega, addW_of_lt (by omega),
        ih (size + 1) (fun i h0 hi => hbehind i h0 (by omega)) (by omega),
        show size + 1 + k + 1 = size + (k + 1) + 1 by omega]

/-- **Over whole allocations the loop frees each of them**, from the last one down, and no page is left over. -/
theorem walkBack_whole {entries : Nat → PtEntry} {lo : Nat} :
    ∀ allocs : List Alloc, (∀ a ∈ allocs, 1 ≤ a.pages ∧ a.pages ≤ 128) → AllocEntries entries lo allocs →
      walkBack entries (totalPages allocs) (lo + totalPages allocs - 1) 0 =
        ((allocs.map (fun a => PhysCall.free a.base a.pages)).reverse, 0) := by
  intro allocs
  induction allocs with
  | nil => exact fun _ _ => rfl
  | cons a allocs ih =>
      intro hsizes hentries
      obtain ⟨hpos, hmax⟩ := hsizes a List.mem_cons_self
      have hslot := hentries [] a allocs rfl
      obtain ⟨haddr, hfirst, hearly⟩ := hslot 0 (by omega)
      rw [Nat.add_zero] at haddr hfirst hearly
      have hrest := ih (fun b hb => hsizes b (List.mem_cons_of_mem _ hb)) hentries.tail
      obtain ⟨k, hk⟩ : ∃ k, a.pages = k + 1 := ⟨a.pages - 1, by omega⟩
      rw [totalPages_cons, hk, show k + 1 + totalPages allocs = totalPages allocs + (k + 1) by omega,
        show lo + (totalPages allocs + (k + 1)) - 1 = lo + totalPages allocs + k by omega,
        walkBack_alloc hfirst hearly _ k 0 (fun i h0 hi => ?_) (by omega), hrest, haddr, List.map_cons,
        List.reverse_cons, hk, show 0 + k + 1 = k + 1 by omega]
      · rfl
      · obtain ⟨-, hbehind, -⟩ := hslot i (by omega)
        rw [hbehind, decide_eq_true h0]

/-- The frames of the allocations, the lowest one first, are the addresses in the entries. -/
theorem frames_eq {entries : Nat → PtEntry} {lo : Nat} :
    ∀ allocs : List Alloc, AllocEntries entries lo allocs →
      allocs.reverse.flatMap Alloc.frames =
        (List.range (totalPages allocs)).map (fun j => (entries (lo + j)).addr) := by
  intro allocs
  induction allocs with
  | nil => exact fun _ => rfl
  | cons a allocs ih =>
      intro hentries
      have hslot := hentries [] a allocs rfl
      rw [List.reverse_cons, List.flatMap_append, ih hentries.tail, totalPages_cons,
        show a.pages + totalPages allocs = totalPages allocs + a.pages by omega, List.range_add, List.map_append,
        List.map_map, List.flatMap_singleton]
      refine congrArg _ (List.map_congr_left (fun i hi => ?_))
      have hi : i < a.pages := List.mem_range.mp hi
      show a.base + i * 4096 = (entries (lo + (totalPages allocs + i))).addr
      rw [← (hslot i hi).1, Nat.add_assoc]

/-! ## The calls -/

/-- The answer of the physical allocator for a growing call that is not early: a block on a page boundary, apart from
    all that the zone holds. -/
def PhysAnswer (s : VmSys) : VmAct → Prop
  | .extend _ pages flags _ block =>
    flags.allocEarly = false ∧ block % 4096 = 0 ∧ ∀ a ∈ s.allocs, a.Apart ⟨block, pages, false⟩
  | _ => True

/-- The last `pages` pages are whole allocations, and the first page of each has no page behind it. -/
def WholeAllocs (entries : Nat → PtEntry) : Nat → List Alloc → Prop
  | pages, [] => pages = 0
  | pages, a :: rest =>
    pages = 0 ∨ (a.pages ≤ pages ∧ (entries (startPage .kernelHeap + totalPages rest)).dataBehind = false ∧
      WholeAllocs entries (pages - a.pages) rest)

/-- The call leaves the zone below `KERNEL_VMA`, or removes whole allocations from one page table. -/
def ShrinksWhole (s : VmSys) (a : VmAct) : Prop :=
  WithinTable s a ∧
    match a with
    | .shrink _ pages => WholeAllocs (leaf s.vm) pages s.allocs
    | _ => True

instance (s : VmSys) (a : VmAct) : Decidable (PhysAnswer s a) :=
  match a with
  | .alloc .. => isTrue trivial
  | .free .. => isTrue trivial
  | .extend .. => inferInstanceAs (Decidable (_ ∧ _ ∧ _))
  | .shrink .. => isTrue trivial

instance decidableWholeAllocs (entries : Nat → PtEntry) :
    ∀ (pages : Nat) (allocs : List Alloc), Decidable (WholeAllocs entries pages allocs)
  | pages, [] => inferInstanceAs (Decidable (pages = 0))
  | pages, a :: rest =>
    have := decidableWholeAllocs entries (pages - a.pages) rest
    inferInstanceAs (Decidable (_ ∨ _ ∧ _ ∧ _))

instance (s : VmSys) (a : VmAct) : Decidable (ShrinksWhole s a) :=
  match a with
  | .alloc .. => inferInstanceAs (Decidable (_ ∧ True))
  | .free .. => inferInstanceAs (Decidable (_ ∧ True))
  | .extend .. => inferInstanceAs (Decidable (_ ∧ True))
  | .shrink .. => inferInstanceAs (Decidable (_ ∧ WholeAllocs _ _ _))

/-- Whole allocations are the first ones of the list. -/
theorem WholeAllocs.split {entries : Nat → PtEntry} :
    ∀ {allocs : List Alloc} {pages : Nat}, WholeAllocs entries pages allocs →
      ∃ popped rest, allocs = popped ++ rest ∧ pages = totalPages popped ∧
        ∀ above a below, popped = above ++ a :: below →
          (entries (startPage .kernelHeap + totalPages rest + totalPages below)).dataBehind = false := by
  intro allocs
  induction allocs with
  | nil =>
      rintro pages rfl
      exact ⟨[], [], rfl, rfl, fun above a below he => by simp at he⟩
  | cons a allocs ih =>
      rintro pages (rfl | ⟨hle, hfirst, hwhole⟩)
      · exact ⟨[], a :: allocs, rfl, rfl, fun above b below he => by simp at he⟩
      · obtain ⟨popped, rest, rfl, hpages, hbehind⟩ := ih hwhole
        refine ⟨a :: popped, rest, rfl, by rw [totalPages_cons]; omega, fun above b below he => ?_⟩
        cases above with
        | nil =>
            obtain ⟨rfl, rfl⟩ := List.cons.inj he
            rw [totalPages_append] at hfirst
            rw [show startPage .kernelHeap + totalPages rest + totalPages popped =
              startPage .kernelHeap + (totalPages popped + totalPages rest) by omega]
            exact hfirst
        | cons c above =>
            obtain ⟨-, he⟩ := List.cons.inj he
            exact hbehind above b below he

/-! ## Runs -/

/-- The entry of page `i` of an allocation leads to that page, and a page that is not the first one says so. -/
def HoldsPage (a : Alloc) (i : Nat) (e : PtEntry) : Prop :=
  e.addr = a.base + i * 4096 ∧ (0 < i → e.dataBehind = true)

/-- What the proof keeps along a run: the heap, the addresses and flags in its entries, and the frames it holds. -/
structure ReleaseInv (s : VmSys) : Prop where
  heap : HeapInv HoldsPage s
  early : ∀ v, OwnPage v → (leaf s.vm v).core.dataEarly = false
  sizes : ∀ a ∈ s.allocs, 1 ≤ a.pages ∧ a.pages ≤ 128
  aligned : ∀ a ∈ s.allocs, a.base % 4096 = 0
  apart : s.allocs.Pairwise Alloc.Apart

/-- What a shrink by `pages` pages gives back: whole allocations, by their base and size; exactly the frames of the
    pages it unmaps, each once; and no frame of a page that stays. -/
structure Released (z : Zone) (s s' : VmSys) (pages : Nat) (new : List PhysCall) : Prop where
  calls : s'.vm.calls = new ++ s.vm.calls
  whole : ∀ c ∈ new, ∃ a ∈ s.allocs, a.base % 4096 = 0 ∧ c = .free a.base a.pages
  frames : new.flatMap PhysCall.frames =
    (List.range pages).map (fun j => (leaf s.vm (startPage z + (s.mapped - pages) + j)).addr)
  once : (new.flatMap PhysCall.frames).Nodup
  removed : ∀ j, j < pages → (leaf s.vm (startPage z + (s.mapped - pages) + j)).present = true ∧
    (leaf s'.vm (startPage z + (s.mapped - pages) + j)).present = false
  kept : ∀ v, OwnPage v → (leaf s'.vm v).present = true →
    leaf s'.vm v = leaf s.vm v ∧ (leaf s.vm v).addr ∉ new.flatMap PhysCall.frames

namespace ReleaseInv

variable {s s' : VmSys}

theorem boot {vm : VmSpace} (h : BootSpace vm) (hframes : vm.frames = []) : ReleaseInv (.boot vm) where
  heap := HeapInv.boot h hframes
  early := fun v hv => by
    show (leaf vm v).core.dataEarly = false
    rw [SpaceReady.entries h v hv]
    unfold initialEntry
    split <;> rfl
  sizes := nofun
  aligned := nofun
  apart := List.Pairwise.nil

/-- One growing call. -/
theorem extend {pages block : Nat} {flags : VmFlags} {frames : List Nat} {r : Option Nat} {vm' : VmSpace}
    (h : ReleaseInv s) (hpages : 1 ≤ pages) (hmax : pages ≤ 128) (hfr : FreshFrames (s.vm.given frames))
    (hblock : block + pages * 4096 ≤ 2 ^ 52) (hearly : flags.allocEarly = false) (haligned : block % 4096 = 0)
    (hapart : ∀ a ∈ s.allocs, a.Apart ⟨block, pages, false⟩)
    (hbelow : startPage .kernelHeap + totalPages s.allocs + pages < 0xFFFFFFFF80000)
    (hrun : vmzoneExtend (s.vm.given frames) pages flags .kernelHeap block = .ok (r, vm')) :
    r ≠ none ∧ ReleaseInv { s with
      vm := vm'
      allocs := ⟨block, pages, flags.allocEarly⟩ :: s.allocs
      extended := s.extended + pages } := by
  have hholds : ∀ i, i < pages → HoldsPage ⟨block, pages, flags.allocEarly⟩ i
      (mapPage (leaf s.vm (startPage .kernelHeap + totalPages s.allocs + i)).core i pages flags
        (block + i * 4096)) := by
    intro i hi
    have hpage : PageAddr (block + i * 4096) := ⟨by omega, by omega⟩
    refine ⟨mapPage_addr _ _ _ _ _ hpage, fun hi0 => ?_⟩
    rw [mapPage_dataBehind, decide_eq_true hi0, Bool.or_true]
  obtain ⟨rfl, -, hheap, hcore, hmapped, -⟩ := h.heap.extend hfr hbelow hblock hholds hrun
  refine ⟨Option.some_ne_none _, hheap, fun v hv => ?_, fun a ha => ?_, fun a ha => ?_, ?_⟩
  · show (leaf vm' v).core.dataEarly = false
    by_cases hin : startPage .kernelHeap + totalPages s.allocs ≤ v ∧
        v < startPage .kernelHeap + totalPages s.allocs + pages
    · obtain ⟨i, rfl⟩ : ∃ i, v = startPage .kernelHeap + totalPages s.allocs + i :=
        ⟨v - (startPage .kernelHeap + totalPages s.allocs), by omega⟩
      rw [hmapped i (by omega), mapPage_dataEarly, h.early _ hv, hearly]
      rfl
    · rw [hcore v hv hin]
      exact h.early v hv
  · rcases List.mem_cons.mp ha with rfl | ha
    · exact ⟨hpages, hmax⟩
    · exact h.sizes a ha
  · rcases List.mem_cons.mp ha with rfl | ha
    · exact haligned
    · exact h.aligned a ha
  · exact List.pairwise_cons.mpr ⟨fun a ha => (hapart a ha).symm, h.apart⟩

/-- The entries of the allocations a shrink by whole allocations removes. -/
theorem entries {popped rest : List Alloc} (h : ReleaseInv s) (hallocs : s.allocs = popped ++ rest)
    (hfirst : ∀ above a below, popped = above ++ a :: below →
      (leaf s.vm (startPage .kernelHeap + totalPages rest + totalPages below)).dataBehind = false) :
    AllocEntries (leaf s.vm) (startPage .kernelHeap + totalPages rest) popped := by
  intro above a below he i hi
  have hsplit : s.allocs = above ++ a :: (below ++ rest) := by
    rw [hallocs, he, List.append_assoc, List.cons_append]
  have hpage : startPage .kernelHeap + totalPages (below ++ rest) + i =
      startPage .kernelHeap + totalPages rest + totalPages below + i := by
    rw [totalPages_append]
    omega
  have htotal : totalPages s.allocs = totalPages above + (a.pages + totalPages (below ++ rest)) := by
    rw [hsplit, totalPages_append]
    rfl
  obtain ⟨haddr, hbehind⟩ := h.heap.slots above a (below ++ rest) hsplit i hi
  have hearly := h.early _ (h.heap.own (v := startPage .kernelHeap + totalPages (below ++ rest) + i) (by omega)
    (by omega))
  rw [hpage] at haddr hbehind hearly
  refine ⟨haddr, ?_, hearly⟩
  by_cases hi0 : 0 < i
  · rw [decide_eq_true hi0]
    exact hbehind hi0
  · obtain rfl : i = 0 := by omega
    exact hfirst above a below he

/-- **One shrinking call** by whole allocations of one page table. -/
theorem shrink {pages : Nat} {vm' : VmSpace} (h : ReleaseInv s) (hpages : pages ≤ s.mapped)
    (hwhole : ShrinksWhole s (.shrink .kernelHeap pages))
    (hrun : vmzoneShrink s.vm pages .kernelHeap = .ok (none, vm')) :
    ReleaseInv { s with vm := vm', allocs := dropPages pages s.allocs, shrunk := s.shrunk + pages } ∧
      ∃ new, Released .kernelHeap s
        { s with vm := vm', allocs := dropPages pages s.allocs, shrunk := s.shrunk + pages } pages new := by
  obtain ⟨htable, hwhole⟩ := hwhole
  have htable : pages = 0 ∨ (s.mapped - 1) / 512 = (s.mapped - pages) / 512 := htable
  obtain ⟨popped, rest, hallocs, rfl, hfirst⟩ := WholeAllocs.split hwhole
  have hmem : ∀ a ∈ rest, a ∈ s.allocs := fun a ha => hallocs ▸ List.mem_append_right popped ha
  have hmem' : ∀ a ∈ popped, a ∈ s.allocs := fun a ha => hallocs ▸ List.mem_append_left rest ha
  have hdrop : dropPages (totalPages popped) s.allocs = rest := by
    rw [hallocs]
    exact dropPages_append (fun a ha => (h.sizes a (hmem a ha)).1) popped
  have htotal : totalPages s.allocs = totalPages popped + totalPages rest := by
    rw [hallocs, totalPages_append]
  have hmapped := h.heap.mapped_eq
  rw [hmapped] at htable hpages
  have hrest : ∀ above a below, dropPages (totalPages popped) s.allocs = above ++ a :: below → ∀ i, i < a.pages →
      HoldsPage a i (leaf s.vm (startPage .kernelHeap + totalPages below + i)).core := by
    intro above a below he i hi
    rw [hdrop] at he
    exact h.heap.slots (popped ++ above) a below (by rw [hallocs, he, List.append_assoc]) i hi
  obtain ⟨hheap, hcalls, hleaf, -⟩ := h.heap.shrink hpages htable hrest hrun
  have hentries := h.entries hallocs hfirst
  have hwalk := walkBack_whole popped (fun a ha => h.sizes a (hmem' a ha)) hentries
  rw [show startPage .kernelHeap + totalPages rest + totalPages popped - 1 =
    startPage .kernelHeap + totalPages s.allocs - 1 by omega] at hwalk
  rw [hwalk] at hcalls
  have hcalls := hcalls rfl
  have hfirstPage : startPage .kernelHeap + (s.mapped - totalPages popped) =
      startPage .kernelHeap + totalPages rest := by omega
  -- The frames of the calls are those of the removed allocations.
  have hback : ((popped.map (fun a => PhysCall.free a.base a.pages)).reverse).flatMap PhysCall.frames =
      popped.reverse.flatMap Alloc.frames := by
    rw [← List.map_reverse, List.flatMap_map]
    rfl
  have hnodup := frames_nodup h.apart
  rw [hallocs, List.flatMap_append, List.nodup_append] at hnodup
  obtain ⟨hpopped, -, hdisjoint⟩ := hnodup
  refine ⟨⟨hheap, fun v hv => ?_, fun a ha => ?_, fun a ha => ?_, ?_⟩, _, hcalls, fun c hc => ?_, ?_, ?_,
    fun j hj => ?_, fun v hv hpresent => ?_⟩
  · show (leaf vm' v).core.dataEarly = false
    have hold := h.early v hv
    rw [hleaf v hv]
    split
    · exact hold
    · exact hold
  · rw [hdrop] at ha
    exact h.sizes a (hmem a ha)
  · rw [hdrop] at ha
    exact h.aligned a (hmem a ha)
  · show (dropPages (totalPages popped) s.allocs).Pairwise Alloc.Apart
    rw [hdrop]
    have hapart := h.apart
    rw [hallocs] at hapart
    exact (List.pairwise_append.mp hapart).2.1
  · obtain ⟨a, ha, rfl⟩ := List.mem_map.mp (List.mem_reverse.mp hc)
    exact ⟨a, hmem' a ha, h.aligned a (hmem' a ha), rfl⟩
  · rw [hback, frames_eq popped hentries, hfirstPage]
  · rw [hback]
    exact ((List.reverse_perm popped).flatMap_right Alloc.frames).nodup_iff.mpr hpopped
  · rw [hfirstPage]
    have hown := h.heap.own (v := startPage .kernelHeap + totalPages rest + j) (by omega) (by omega)
    refine ⟨(h.heap.present _ hown).mpr (by omega), ?_⟩
    show (leaf vm' _).present = false
    rw [hleaf _ hown, if_pos (by omega)]
    rfl
  · have hpresent : (leaf vm' v).present = true := hpresent
    show leaf vm' v = _ ∧ _
    rw [hleaf v hv] at hpresent ⊢
    by_cases hin : startPage .kernelHeap + (totalPages s.allocs - totalPages popped) ≤ v ∧
        v < startPage .kernelHeap + totalPages s.allocs
    · rw [if_pos hin] at hpresent
      cases hpresent
    · rw [if_neg hin] at hpresent ⊢
      refine ⟨rfl, fun hfreed => ?_⟩
      rw [h.heap.present v hv] at hpresent
      obtain ⟨above, a, below, i, hrest, hi, hv'⟩ :=
        slot_of_page rest (v - startPage .kernelHeap) (by omega)
      obtain ⟨haddr, -⟩ := h.heap.slots (popped ++ above) a below
        (by rw [hallocs, hrest, List.append_assoc]) i hi
      rw [show startPage .kernelHeap + totalPages below + i = v by omega] at haddr
      have haddr : (leaf s.vm v).addr = a.base + i * 4096 := haddr
      rw [hback, haddr] at hfreed
      obtain ⟨b, hb, hw⟩ := List.mem_flatMap.mp hfreed
      refine hdisjoint _ (List.mem_flatMap.mpr ⟨b, List.mem_reverse.mp hb, hw⟩) _
        (List.mem_flatMap.mpr ⟨a, ?_, Alloc.mem_frames.mpr ⟨i, hi, rfl⟩⟩) rfl
      rw [hrest]
      exact List.mem_append_right above List.mem_cons_self

/-- **One call keeps the invariant.** -/
theorem step {a : VmAct} (h : ReleaseInv s) (hcall : HeapCall .kernelHeap s a) (hanswer : PhysAnswer s a)
    (hwhole : ShrinksWhole s a) (hstep : Paging.step s a = .ok s') : ReleaseInv s' := by
  have hperform := step_ok hstep
  cases a with
  | alloc => exact hcall.elim
  | free => exact hcall.elim
  | extend zone pages flags frames block =>
      obtain ⟨rfl, hpages, hmax, hfr, hblock⟩ := hcall
      obtain ⟨hearly, haligned, hapart⟩ := hanswer
      obtain ⟨⟨r, vm'⟩, hrun, hs'⟩ := bind_eq_ok.mp hperform
      obtain ⟨hsome, hinv⟩ := h.extend hpages hmax hfr hblock hearly haligned hapart
        (h.heap.below_extend hwhole.1) hrun
      cases r with
      | none => exact absurd rfl hsome
      | some r =>
          cases hs'
          exact hinv
  | shrink zone pages =>
      obtain ⟨rfl, hle⟩ := hcall
      obtain ⟨⟨r, vm'⟩, hrun, hs'⟩ := bind_eq_ok.mp hperform
      cases r with
      | some e => cases hs'
      | none =>
          cases hs'
          exact (h.shrink hle hwhole hrun).1

end ReleaseInv

end LearningOS.Paging
