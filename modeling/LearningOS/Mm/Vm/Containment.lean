import LearningOS.Mm.Vm.Heap
import LearningOS.Mm.Vm.FreeStack

/-!
# `Mm.Vm.Containment` — the zones keep to themselves

The zones lie next to each other and nothing compares a cursor with `end_address`. `Contained` says what a call that
keeps to its zone does: the addresses it returns and the leaf entries it writes are of its zone, and no other cursor
moves. `ZonesInv` is what a run of any calls keeps.

* `zones_contained` — as long as each call finds room in its zone, no zone leaks into another;
* `full_zone_leaks` — from a full zone `vm_alloc_block` hands out the pages after it.
-/

namespace LearningOS.Paging

open Word Run Radix

/-! ## The calls -/

/-- The zone of a call. -/
def VmAct.zone : VmAct → Zone
  | .alloc zone .. => zone
  | .free zone _ => zone
  | .extend zone .. => zone
  | .shrink zone _ => zone

/-- The bytes a call asks for; a block is two pages. -/
def VmAct.size : VmAct → Nat
  | .alloc .. => 2 * 4096
  | .extend _ pages .. => pages * 4096
  | _ => 0

/-- The address a call returns. -/
def answer (s : VmSys) : VmAct → Option Nat
  | .alloc zone flags frames block =>
    match vmAllocBlock (s.vm.given frames) flags zone block with
    | .ok (addr, _) => some addr
    | .error _ => none
  | .extend zone pages flags frames block =>
    match vmzoneExtend (s.vm.given frames) pages flags zone block with
    | .ok (addr, _) => addr
    | .error _ => none
  | _ => none

/-- A call as `mm/vm.h` allows it: blocks for zones of blocks, live blocks freed, numbers of pages that are bytes; the
    physical allocator answers with fresh frames. -/
def AnyCall (s : VmSys) : VmAct → Prop
  | .alloc zone _ frames _ => (vmzoneInit zone).flags.blockAlloc = true ∧ FreshFrames (s.vm.given frames)
  | .free zone addr =>
    (vmzoneInit zone).flags.blockAlloc = true ∧ addr < 2 ^ 64 ∧ addr / 8192 * 8192 ∈ s.live zone
  | .extend _ pages _ frames block =>
    pages < 2 ^ 8 ∧ FreshFrames (s.vm.given frames) ∧ block + pages * 4096 < 2 ^ 64
  | .shrink _ pages => pages < 2 ^ 8

/-- What the call asks for fits between the cursor and the end of its zone. -/
def HasRoom (s : VmSys) : VmAct → Prop
  | .alloc zone .. => (s.vm.zones zone).cursorAddr < (vmzoneInit zone).endAddress
  | .extend zone pages .. =>
    (vmzoneInit zone).flags.contiguous = true →
      (s.vm.zones zone).cursorAddr + pages * 4096 ≤ (vmzoneInit zone).endAddress
  | _ => True

/-- What a call that keeps to its zone does. -/
structure Contained (s s' : VmSys) (a : VmAct) : Prop where
  answered : ∀ addr, answer s a = some addr →
    (vmzoneInit a.zone).startAddress ≤ addr ∧ addr + a.size ≤ (vmzoneInit a.zone).endAddress
  leaves : ∀ v, OwnPage v → ¬ InZone a.zone v → leaf s'.vm v = leaf s.vm v
  cursors : ∀ z, z ≠ a.zone → s'.vm.zones z = s.vm.zones z
  cursor : (vmzoneInit a.zone).startAddress ≤ (s'.vm.zones a.zone).cursorAddr ∧
    (s'.vm.zones a.zone).cursorAddr ≤ (vmzoneInit a.zone).endAddress

/-! ## The state of a run -/

/-- What the proof keeps along a run. -/
structure ZonesInv (s : VmSys) : Prop where
  ok : TreeOk s.vm
  fresh : FreshFrames s.vm
  blocks : ∀ z, (vmzoneInit z).flags.blockAlloc = true → BlockInv s.vm z (s.live z) (s.freed z)
  heap : ∃ p, startPage .kernelHeap ≤ p ∧ p ≤ endPage .kernelHeap ∧
    s.vm.zones .kernelHeap = { initializedZone .kernelHeap with cursorAddr := p * 4096 }
  shared : s.vm.zones .userShared = initializedZone .userShared
  /-- The first page table of each zone is there from the start. -/
  first : ∀ z, leafTable s.vm (tableOf z) ≠ none
  /-- The page table before the heap is the last one of a zone nobody maps pages in. -/
  before : leafTable s.vm ((startPage .kernelHeap - 1) / 512) = none

/-- A page in the page table of a page of the zone is in the zone. -/
theorem InZone.of_table {z : Zone} {v w : Nat} (h : InZone z w) (hvw : v / 512 = w / 512) : InZone z v := by
  obtain ⟨hs, he, -⟩ := zone_layout z
  have h : startPage z ≤ w ∧ w < endPage z := h
  show startPage z ≤ v ∧ v < endPage z
  omega

theorem first_inZone (z : Zone) : InZone z (startPage z) := by
  obtain ⟨-, -, hlt, -⟩ := zone_layout z
  exact ⟨Nat.le_refl _, hlt⟩

/-- The page before the heap is one of `VMZONE_USER_SHARED`. -/
theorem before_inZone : InZone .userShared (startPage .kernelHeap - 1) := by decide

/-- The other two zones are no zones of blocks. -/
theorem block_zone_ne {z : Zone} (h : (vmzoneInit z).flags.blockAlloc = true) :
    z ≠ .userShared ∧ z ≠ .kernelHeap := by
  revert h
  cases z <;> decide

theorem blockAddr_zero (z : Zone) : blockAddr z 0 = (vmzoneInit z).startAddress := by
  obtain ⟨-, -, -, -, -, hstart, -⟩ := zone_layout z
  rw [hstart]
  rfl

theorem blockAddr_capacity (z : Zone) : blockAddr z (capacity z) = (vmzoneInit z).endAddress := by
  obtain ⟨hs, he, hlt, -, -, -, hend⟩ := zone_layout z
  rw [hend]
  unfold blockAddr blockPage capacity
  omega

theorem blockAddr_mono {z : Zone} {j k : Nat} (h : j ≤ k) : blockAddr z j ≤ blockAddr z k := by
  unfold blockAddr blockPage
  omega

namespace ZonesInv

variable {s s' : VmSys}

theorem boot {vm : VmSpace} (h : BootSpace vm) (hframes : vm.frames = []) : ZonesInv (.boot vm) where
  ok := SpaceReady.ok h
  fresh := (blockSys_boot h hframes true).fresh
  blocks := (blockSys_boot h hframes true).zones
  heap := by
    obtain ⟨-, -, hlt, -, -, hstart, -⟩ := zone_layout .kernelHeap
    refine ⟨startPage .kernelHeap, Nat.le_refl _, Nat.le_of_lt hlt, ?_⟩
    show vm.zones .kernelHeap = _
    rw [h.zones, ← hstart]
    rfl
  shared := h.zones .userShared
  first := fun z => by
    refine (SpaceReady.tables h _ (own_tableOf z)).mpr ⟨z, ?_, rfl⟩
    cases z <;> decide
  before := by
    by_contra hne
    have hown : Own 3 ((startPage .kernelHeap - 1) / 512) := before_inZone.own
    obtain ⟨z, -, hz⟩ := (SpaceReady.tables h _ hown).mp hne
    revert hz
    cases z <;> decide

/-- The cursor of a block zone is at a block of the zone or at its end. -/
theorem block_cursor (h : ZonesInv s) {z : Zone} (hz : (vmzoneInit z).flags.blockAlloc = true) :
    (vmzoneInit z).startAddress ≤ (s.vm.zones z).cursorAddr ∧
      (s.vm.zones z).cursorAddr ≤ (vmzoneInit z).endAddress := by
  have hinv := h.blocks z hz
  obtain ⟨k, hk, hcursor, -⟩ := hinv.cursor
  rw [hcursor, ← blockAddr_zero, ← blockAddr_capacity]
  exact ⟨blockAddr_mono (Nat.zero_le k), blockAddr_mono (Nat.le_trans hk hinv.room)⟩

/-- With room in the zone there is a block to take. -/
theorem room (h : ZonesInv s) {z : Zone} (hz : (vmzoneInit z).flags.blockAlloc = true)
    (hroom : (s.vm.zones z).cursorAddr < (vmzoneInit z).endAddress) :
    s.freed z = [] → (s.live z).length < capacity z := by
  intro hnil
  have hinv := h.blocks z hz
  rw [hinv.zone, hnil, ← blockAddr_capacity] at hroom
  have hroom : blockAddr z (s.live z).length < blockAddr z (capacity z) := hroom
  by_contra hge
  exact Nat.lt_irrefl _ (Nat.lt_of_lt_of_le hroom (blockAddr_mono (Nat.le_of_not_lt hge)))

end ZonesInv

/-- The call of `vmzone_extend` on a zone that is not contiguous returns `NULL` and does nothing. -/
theorem vmzoneExtend_refused {vm : VmSpace} {pages block : Nat} {flags : VmFlags} {z : Zone}
    (h : (vm.zones z).flags.contiguous = false) : vmzoneExtend vm pages flags z block = .ok (none, vm) := by
  unfold vmzoneExtend
  rw [h]
  rfl

/-- The call of `vmzone_shrink` on a zone that is not contiguous returns an error and does nothing. -/
theorem vmzoneShrink_refused {vm : VmSpace} {pages : Nat} {z : Zone}
    (h : (vm.zones z).flags.contiguous = false) : vmzoneShrink vm pages z = .ok (some .contiguous, vm) := by
  unfold vmzoneShrink
  rw [h]
  rfl

namespace ZonesInv

variable {s s' : VmSys}

/-- The flag of a contiguous zone is the one `vmzone_init` set. -/
theorem kind (h : ZonesInv s) (z : Zone) :
    (s.vm.zones z).flags.contiguous = (vmzoneInit z).flags.contiguous := by
  by_cases hz : (vmzoneInit z).flags.blockAlloc = true
  · rw [(h.blocks z hz).zone]
    rfl
  · obtain ⟨p, -, -, hheap⟩ := h.heap
    have hshared := h.shared
    cases z with
    | kernelHeap => rw [hheap]; rfl
    | userShared => rw [hshared]; rfl
    | kernelStack => exact absurd rfl hz
    | kernelSlab => exact absurd rfl hz
    | buddyMem => exact absurd rfl hz

/-- Another state of the tables in which only entries and tables of a zone are new keeps the invariant, if it keeps it
    for the zone. -/
theorem of_keeps {vm' : VmSpace} {W T : Nat → Prop} {z : Zone} (h : ZonesInv s) (hk : Keeps s.vm vm' W T)
    (hz : z ≠ .userShared) (hzones : ∀ z', z' ≠ z → vm'.zones z' = s.vm.zones z')
    (hW : ∀ v, OwnPage v → ¬ InZone z v → ¬ W v)
    (hT : ∀ v, OwnPage v → ¬ InZone z v → T (v / 512) → leafTable s.vm (v / 512) ≠ none)
    (hlive : ∀ z', z' ≠ z → s'.live z' = s.live z') (hfreed : ∀ z', z' ≠ z → s'.freed z' = s.freed z')
    (hvm : s'.vm = vm')
    (hblock : (vmzoneInit z).flags.blockAlloc = true → BlockInv vm' z (s'.live z) (s'.freed z))
    (hheap : z = .kernelHeap → ∃ p, startPage .kernelHeap ≤ p ∧ p ≤ endPage .kernelHeap ∧
      vm'.zones .kernelHeap = { initializedZone .kernelHeap with cursorAddr := p * 4096 }) : ZonesInv s' := by
  have hout : ∀ {z'}, z' ≠ z → ∀ v, InZone z' v → ¬ InZone z v := by
    intro z' hne v hv hin
    exact hv.table_ne hin hne rfl
  constructor
  · rw [hvm]
    exact hk.ok
  · rw [hvm]
    exact hk.fresh
  · intro z' hz'
    by_cases he : z' = z
    · subst he
      rw [hvm]
      exact hblock hz'
    · rw [hvm, hlive z' he, hfreed z' he]
      exact hk.blockInv_other (h.blocks z' hz') (hzones z' he) (fun v hv => hW v hv.own (hout he v hv))
        (fun v hv => hT v hv.own (hout he v hv))
  · rw [hvm]
    by_cases he : z = .kernelHeap
    · exact hheap he
    · rw [hzones _ (Ne.symm he)]
      exact h.heap
  · rw [hvm, hzones _ (Ne.symm hz)]
    exact h.shared
  · intro z'
    obtain ⟨f, hf⟩ := Option.ne_none_iff_exists'.mp (h.first z')
    rw [hvm, hk.tables _ f (own_tableOf z') hf]
    exact Option.some_ne_none f
  · rw [hvm]
    refine hk.missing _ before_inZone.own (fun ht => ?_) h.before
    exact hT _ before_inZone.own (hout (Ne.symm hz) _ before_inZone) ht h.before

/-- The leaves outside the zone are as before. -/
theorem leaves_of_keeps {vm' : VmSpace} {W T : Nat → Prop} {z : Zone} (hk : Keeps s.vm vm' W T)
    (hW : ∀ v, OwnPage v → ¬ InZone z v → ¬ W v)
    (hT : ∀ v, OwnPage v → ¬ InZone z v → T (v / 512) → leafTable s.vm (v / 512) ≠ none) :
    ∀ v, OwnPage v → ¬ InZone z v → leaf vm' v = leaf s.vm v :=
  fun v hv hout => hk.leaf_eq hv (hW v hv hout) (hT v hv hout)

/-- A call of `vm_alloc_block`. -/
theorem alloc {z : Zone} {flags : VmFlags} {frames : List Nat} {block : Nat} (h : ZonesInv s)
    (hcall : AnyCall s (.alloc z flags frames block)) (hroom : HasRoom s (.alloc z flags frames block))
    (hstep : stepAny s (.alloc z flags frames block) = .ok s') :
    ZonesInv s' ∧ Contained s s' (.alloc z flags frames block) := by
  obtain ⟨hz, hfr⟩ := hcall
  obtain ⟨ok, hperform⟩ := stepAny_ok hstep
  obtain ⟨⟨addr, vm'⟩, hrun, hs'⟩ := bind_eq_ok.mp hperform
  cases hs'
  have hinv := h.blocks z hz
  obtain ⟨hinv', -, -, k, hk, ha, halloc⟩ := hinv.alloc hz h.ok hfr (h.room hz hroom) hrun
  have hin := blockPage_inZone hk
  have heven := blockPage_even z k
  have hkeeps := halloc.keeps.of_given
  have hW : ∀ v, OwnPage v → ¬ InZone z v → ¬ (v = blockPage z k ∨ v = blockPage z k + 1 ∨
      (leafTable (s.vm.given frames) (blockPage z k / 512) = none ∧ v / 512 = blockPage z k / 512)) := by
    rintro v - hout (rfl | rfl | ⟨-, hv⟩)
    · exact hout hin
    · exact hout (hin.of_table (by omega))
    · exact hout (hin.of_table hv)
  have hT : ∀ v, OwnPage v → ¬ InZone z v → v / 512 = blockPage z k / 512 →
      leafTable s.vm (v / 512) ≠ none := fun v _ hout hv => absurd (hin.of_table hv) hout
  have hzones : ∀ z', z' ≠ z → vm'.zones z' = s.vm.zones z' := by
    intro z' hne
    rw [halloc.zones, Function.update_of_ne hne]
    rfl
  have hnot := block_zone_ne hz
  have hinvs : ZonesInv { s with
      vm := vm'
      live := Function.update s.live z (addr :: s.live z)
      freed := Function.update s.freed z ((s.freed z).erase addr)
      blocks := (addr, ⟨block, 2 ^ (s.vm.zones z).blockOrder, flags.allocEarly⟩) :: s.blocks } := by
    refine h.of_keeps hkeeps hnot.1 hzones hW hT (fun z' hne => Function.update_of_ne hne _ _)
      (fun z' hne => Function.update_of_ne hne _ _) rfl (fun _ => ?_) (fun he => absurd he hnot.2)
    simpa only [Function.update_self] using hinv'
  refine ⟨hinvs, fun a hans => ?_, leaves_of_keeps hkeeps hW hT, hzones, hinvs.block_cursor hz⟩
  have hans : (match vmAllocBlock (s.vm.given frames) flags z block with
      | .ok (addr, _) => some addr
      | .error _ => none) = some a := hans
  rw [hrun] at hans
  obtain rfl := Option.some.inj hans
  show _ ≤ addr ∧ addr + 2 * 4096 ≤ _
  have hlast : blockAddr z k + 2 * 4096 ≤ blockAddr z (capacity z) := by
    unfold blockAddr blockPage
    omega
  rw [ha, ← blockAddr_zero, ← blockAddr_capacity]
  exact ⟨blockAddr_mono (Nat.zero_le k), hlast⟩

/-- A call of `vm_free_block`. -/
theorem free {z : Zone} {addr : Nat} (h : ZonesInv s) (hcall : AnyCall s (.free z addr))
    (hstep : stepAny s (.free z addr) = .ok s') : ZonesInv s' ∧ Contained s s' (.free z addr) := by
  obtain ⟨hz, haddr, hlive⟩ := hcall
  obtain ⟨ok, hperform⟩ := stepAny_ok hstep
  have hinv := h.blocks z hz
  obtain ⟨hnone, hinv', k, hk, hblk, hkeeps, hzones, -, -⟩ := hinv.free hz h.ok h.fresh haddr hlive
  have htrunc : truncNBits addr ((s.vm.zones z).blockOrder + pageOrder) = addr / 8192 * 8192 := by
    rw [hinv.order hz]
    show truncNBits addr 13 = _
    rw [truncNBits_eq haddr (by decide)]
    rfl
  obtain rfl := perform_free hperform hnone htrunc
  have hin := blockPage_inZone hk
  have hW : ∀ v, OwnPage v → ¬ InZone z v → ¬ v = blockPage z k := by
    rintro v - hout rfl
    exact hout hin
  have hT : ∀ v, OwnPage v → ¬ InZone z v → False → leafTable s.vm (v / 512) ≠ none := fun _ _ _ hf => hf.elim
  have hothers : ∀ z', z' ≠ z → (vmFreeBlock s.vm addr z).2.zones z' = s.vm.zones z' := by
    intro z' hne
    rw [hzones, Function.update_of_ne hne]
  have hnot := block_zone_ne hz
  have hinvs : ZonesInv { s with
      vm := (vmFreeBlock s.vm addr z).2
      live := Function.update s.live z ((s.live z).erase (addr / 8192 * 8192))
      freed := Function.update s.freed z (addr / 8192 * 8192 :: s.freed z)
      blocks := s.blocks.filter (fun b => b.1 ≠ addr / 8192 * 8192) } := by
    refine h.of_keeps hkeeps hnot.1 hothers hW hT (fun z' hne => Function.update_of_ne hne _ _)
      (fun z' hne => Function.update_of_ne hne _ _) rfl (fun _ => ?_) (fun he => absurd he hnot.2)
    simpa only [Function.update_self] using hinv'
  exact ⟨hinvs, nofun, leaves_of_keeps hkeeps hW hT, hothers, hinvs.block_cursor hz⟩

/-- The cursor of any zone is in the zone or at its end. -/
theorem cursor_inZone (h : ZonesInv s) (z : Zone) :
    (vmzoneInit z).startAddress ≤ (s.vm.zones z).cursorAddr ∧
      (s.vm.zones z).cursorAddr ≤ (vmzoneInit z).endAddress := by
  by_cases hz : (vmzoneInit z).flags.blockAlloc = true
  · exact h.block_cursor hz
  · obtain ⟨p, hlo, hhi, hheap⟩ := h.heap
    have hshared := h.shared
    cases z with
    | kernelHeap =>
        obtain ⟨-, -, -, -, -, hstart, hend⟩ := zone_layout .kernelHeap
        rw [hheap, hstart, hend]
        exact ⟨Nat.mul_le_mul_right 4096 hlo, Nat.mul_le_mul_right 4096 hhi⟩
    | userShared =>
        rw [hshared]
        decide
    | kernelStack => exact absurd rfl hz
    | kernelSlab => exact absurd rfl hz
    | buddyMem => exact absurd rfl hz

/-- A call that only takes new answers of the physical allocator. -/
theorem unchanged {a : VmAct} (h : ZonesInv s) {frames : List Nat} (hfr : FreshFrames (s.vm.given frames))
    (hans : answer s a = none) :
    ZonesInv { s with vm := s.vm.given frames } ∧ Contained s { s with vm := s.vm.given frames } a := by
  have hinv : ZonesInv { s with vm := s.vm.given frames } :=
    ⟨treeOk_given h.ok, hfr, fun z hz => (h.blocks z hz).frame rfl (fun _ _ _ => rfl) (fun _ _ h => h), h.heap,
      h.shared, h.first, h.before⟩
  refine ⟨hinv, fun addr haddr => ?_, fun _ _ _ => rfl, fun _ _ => rfl, h.cursor_inZone _⟩
  rw [hans] at haddr
  cases haddr

/-- A call of `vmzone_extend`. -/
theorem extend {z : Zone} {pages block : Nat} {flags : VmFlags} {frames : List Nat} (h : ZonesInv s)
    (hcall : AnyCall s (.extend z pages flags frames block)) (hroom : HasRoom s (.extend z pages flags frames block))
    (hstep : stepAny s (.extend z pages flags frames block) = .ok s') :
    ZonesInv s' ∧ Contained s s' (.extend z pages flags frames block) := by
  obtain ⟨-, hfr, hblock⟩ := hcall
  obtain ⟨ok, hperform⟩ := stepAny_ok hstep
  obtain ⟨⟨r, vm'⟩, hrun, hs'⟩ := bind_eq_ok.mp hperform
  by_cases hz : (vmzoneInit z).flags.contiguous = true
  · obtain rfl := eq_kernelHeap hz
    obtain ⟨p, hlo, hhi, hheap⟩ := h.heap
    obtain ⟨hs, he, -, hlow, hhigh, hstart, hend⟩ := zone_layout .kernelHeap
    have hcursor : ((s.vm.given frames).zones .kernelHeap).cursorAddr = p * 4096 := by
      show (s.vm.zones .kernelHeap).cursorAddr = _
      rw [hheap]
    have hroom : (s.vm.zones .kernelHeap).cursorAddr + pages * 4096 ≤ (vmzoneInit .kernelHeap).endAddress := hroom rfl
    have hfits : p + pages ≤ endPage .kernelHeap := by
      rw [hend, hheap] at hroom
      have hroom : p * 4096 + pages * 4096 ≤ endPage .kernelHeap * 4096 := hroom
      omega
    have hcontig : ((s.vm.given frames).zones .kernelHeap).flags.contiguous = true := h.kind .kernelHeap
    obtain ⟨rfl, hzones, hkeeps, -, -⟩ := vmzoneExtend_spec (treeOk_given h.ok) hfr hcontig hcursor
      (fun j hj => ownPage_iff.mpr (by omega)) hblock hrun
    have hkeeps := hkeeps.of_given
    have hW : ∀ v, OwnPage v → ¬ InZone .kernelHeap v → ¬ (p ≤ v ∧ v < p + pages) := by
      rintro v - hout ⟨h1, h2⟩
      exact hout ⟨by omega, by omega⟩
    have hT : ∀ v, OwnPage v → ¬ InZone .kernelHeap v → TablesBetween p (p + pages) (v / 512) →
        leafTable s.vm (v / 512) ≠ none := by
      rintro v - hout ⟨h1, h2⟩
      -- The loop also asks for the table after the last page, which may be the first one of the next zone.
      have hv : v / 512 = tableOf .kernelSlab := by
        have hnext : tableOf .kernelSlab = endPage .kernelHeap / 512 := by decide
        have hout : ¬ (startPage .kernelHeap ≤ v ∧ v < endPage .kernelHeap) := hout
        omega
      rw [hv]
      exact h.first .kernelSlab
    have hothers : ∀ z', z' ≠ .kernelHeap → vm'.zones z' = s.vm.zones z' := by
      intro z' hne
      rw [hzones, Function.update_of_ne hne]
      rfl
    cases hs'
    have hinvs : ZonesInv { s with
        vm := vm'
        allocs := ⟨block, pages, flags.allocEarly⟩ :: s.allocs
        extended := s.extended + pages } := by
      refine h.of_keeps hkeeps (by decide) hothers hW hT (fun _ _ => rfl) (fun _ _ => rfl) rfl nofun
        (fun _ => ⟨p + pages, by omega, hfits, ?_⟩)
      rw [hzones, Function.update_self]
      show { s.vm.zones .kernelHeap with cursorAddr := (p + pages) * 4096 } = _
      rw [hheap]
    refine ⟨hinvs, fun a hans => ?_, leaves_of_keeps hkeeps hW hT, hothers, hinvs.cursor_inZone _⟩
    have hans : (match vmzoneExtend (s.vm.given frames) pages flags .kernelHeap block with
        | .ok (addr, _) => addr
        | .error _ => none) = some a := hans
    rw [hrun] at hans
    obtain rfl := Option.some.inj hans
    show (vmzoneInit .kernelHeap).startAddress ≤ p * 4096 ∧ p * 4096 + pages * 4096 ≤ (vmzoneInit .kernelHeap).endAddress
    rw [hstart, hend]
    omega
  · have hkind : ((s.vm.given frames).zones z).flags.contiguous = false :=
      (h.kind z).trans (Bool.not_eq_true _ ▸ hz)
    rw [vmzoneExtend_refused hkind] at hrun
    cases hrun
    cases hs'
    refine h.unchanged hfr ?_
    show (match vmzoneExtend (s.vm.given frames) pages flags z block with
      | .ok (addr, _) => addr
      | .error _ => none) = none
    rw [vmzoneExtend_refused hkind]

/-- A call of `vmzone_shrink`, whether it succeeds or not. -/
theorem shrink {z : Zone} {pages : Nat} (h : ZonesInv s) (hstep : stepAny s (.shrink z pages) = .ok s') :
    ZonesInv s' ∧ Contained s s' (.shrink z pages) := by
  obtain ⟨ok, hperform⟩ := stepAny_ok hstep
  obtain ⟨⟨r, vm'⟩, hrun, hs'⟩ := bind_eq_ok.mp hperform
  by_cases hz : (vmzoneInit z).flags.contiguous = true
  · obtain rfl := eq_kernelHeap hz
    obtain ⟨p, hlo, hhi, hheap⟩ := h.heap
    obtain ⟨hs, he, hlt, hlow, hhigh, hstart, hend⟩ := zone_layout .kernelHeap
    have hbefore : startPage .userShared ≤ startPage .kernelHeap - 1 ∧
        startPage .kernelHeap - 1 < endPage .userShared := before_inZone
    have hpos : 0 < startPage .kernelHeap := by decide
    have hcursor : (s.vm.zones .kernelHeap).cursorAddr = (p - 1 + 1) * 4096 := by
      rw [hheap, Nat.sub_add_cancel (by omega)]
    have hbound := ownPage_iff.mp before_inZone.own
    obtain ⟨hkeeps, c, hclo, hchi, hzones⟩ := vmzoneShrink_keeps h.ok h.fresh (h.kind .kernelHeap) hcursor
      (ownPage_iff.mpr (by omega)) hs (first_inZone .kernelHeap).own before_inZone.own (by omega) h.before hrun
    have hW : ∀ v, OwnPage v → ¬ InZone .kernelHeap v →
        ¬ (startPage .kernelHeap ≤ v ∧ v / 512 = (p - 1) / 512) := by
      rintro v - hout ⟨h1, h2⟩
      refine hout ⟨h1, ?_⟩
      omega
    have hT : ∀ v, OwnPage v → ¬ InZone .kernelHeap v → False → leafTable s.vm (v / 512) ≠ none :=
      fun _ _ _ hf => hf.elim
    have hothers : ∀ z', z' ≠ .kernelHeap → vm'.zones z' = s.vm.zones z' := by
      intro z' hne
      rw [hzones, Function.update_of_ne hne]
    have hheap' : vm'.zones .kernelHeap = { initializedZone .kernelHeap with cursorAddr := c * 4096 } := by
      rw [hzones, Function.update_self, hheap]
    -- The clients only learn whether the call succeeded.
    have hboth : ∀ s'' : VmSys, s''.vm = vm' → s''.live = s.live → s''.freed = s.freed →
        ZonesInv s'' ∧ Contained s s'' (.shrink .kernelHeap pages) := by
      intro s'' hvm hlive hfreed
      have hinvs : ZonesInv s'' := by
        refine h.of_keeps hkeeps (by decide) hothers hW hT (fun z' _ => congrFun hlive z')
          (fun z' _ => congrFun hfreed z') hvm nofun (fun _ => ⟨c, hclo, by omega, hheap'⟩)
      refine ⟨hinvs, nofun, ?_, ?_, hinvs.cursor_inZone _⟩
      · rw [hvm]
        exact leaves_of_keeps hkeeps hW hT
      · rw [hvm]
        exact hothers
    cases r with
    | some e =>
        cases hs'
        exact hboth _ rfl rfl rfl
    | none =>
        cases hs'
        exact hboth _ rfl rfl rfl
  · have hkind : (s.vm.zones z).flags.contiguous = false := (h.kind z).trans (Bool.not_eq_true _ ▸ hz)
    rw [vmzoneShrink_refused hkind] at hrun
    cases hrun
    cases hs'
    exact ⟨h, nofun, fun _ _ _ => rfl, fun _ _ => rfl, h.cursor_inZone _⟩

/-- **One call keeps the state and keeps to its zone.** -/
theorem step {a : VmAct} (h : ZonesInv s) (hcall : AnyCall s a) (hroom : HasRoom s a)
    (hstep : stepAny s a = .ok s') : ZonesInv s' ∧ Contained s s' a := by
  cases a with
  | alloc => exact h.alloc hcall hroom hstep
  | free => exact h.free hcall hstep
  | extend => exact h.extend hcall hroom hstep
  | shrink => exact h.shrink hstep

end ZonesInv

instance (s : VmSys) (a : VmAct) : Decidable (AnyCall s a) :=
  match a with
  | .alloc .. => inferInstanceAs (Decidable (_ ∧ _))
  | .free .. => inferInstanceAs (Decidable (_ ∧ _ ∧ _))
  | .extend .. => inferInstanceAs (Decidable (_ ∧ _ ∧ _))
  | .shrink .. => inferInstanceAs (Decidable (_ < _))

instance (s : VmSys) (a : VmAct) : Decidable (HasRoom s a) :=
  match a with
  | .alloc .. => inferInstanceAs (Decidable (_ < _))
  | .free .. => isTrue trivial
  | .extend .. => inferInstanceAs (Decidable (_ → _))
  | .shrink .. => isTrue trivial

/-- Three fresh frames for the page tables of block `k`. -/
def fillFrames (k : Nat) : List Nat :=
  (List.range 3).map (fun j => 0x10000000 + (3 * k + j) * 4096)

theorem mem_fillFrames {k f : Nat} : f ∈ fillFrames k ↔ ∃ j, j < 3 ∧ 0x10000000 + (3 * k + j) * 4096 = f := by
  unfold fillFrames
  simp only [List.mem_map, List.mem_range]

theorem fill_mono (k : Nat) : 0x10000000 + 3 * k * 4096 ≤ 0x10000000 + 3 * (k + 1) * 4096 := by omega

theorem lt_of_mem_fillFrames {k f : Nat} (h : f ∈ fillFrames k) : f < 0x10000000 + 3 * (k + 1) * 4096 := by
  obtain ⟨j, hj, rfl⟩ := mem_fillFrames.mp h
  omega

/-- The call that takes block `k`. -/
def fillCall (z : Zone) (k : Nat) : VmAct := .alloc z { allowWrite := true } (fillFrames k) (0x80000000 + k * 8192)

/-- `k` blocks of a zone are taken. -/
structure Filled (s : VmSys) (z : Zone) (k : Nat) : Prop where
  sys : BlockSys true s
  freed : s.freed z = []
  live : (s.live z).length = k
  tables : ∀ g ∈ s.vm.pageTables, g < 0x10000000 + 3 * k * 4096

theorem Filled.fresh {s : VmSys} {z : Zone} {k : Nat} (h : Filled s z k) (hk : k ≤ 2 ^ 24) :
    FreshFrames (s.vm.given (fillFrames k)) := by
  constructor
  · refine List.Nodup.map (fun i j hij => ?_) List.nodup_range
    have hij : 0x10000000 + (3 * k + i) * 4096 = 0x10000000 + (3 * k + j) * 4096 := hij
    omega
  · intro f hf
    obtain ⟨j, hj, rfl⟩ := mem_fillFrames.mp hf
    exact ⟨by omega, by omega⟩
  · intro f hf hused
    obtain ⟨j, hj, rfl⟩ := mem_fillFrames.mp hf
    have := h.tables _ hused
    omega

/-- The next block can be had. -/
theorem Filled.call {s : VmSys} {z : Zone} {k : Nat} (h : Filled s z k)
    (hz : (vmzoneInit z).flags.blockAlloc = true) (hk : k ≤ 2 ^ 24) :
    ∃ vm', AnyCall s (fillCall z k) ∧
      vmAllocBlock (s.vm.given (fillFrames k)) { allowWrite := true } z (0x80000000 + k * 8192) =
        .ok (blockAddr z k, vm') := by
  have hinv := h.sys.zones z hz
  have hcursor : ((s.vm.given (fillFrames k)).zones z).cursorAddr = blockPage z k * 4096 := by
    show (s.vm.zones z).cursorAddr = _
    rw [hinv.zone, h.freed, h.live]
    rfl
  have hown : OwnPage (blockPage z k) := by
    obtain ⟨-, -, hlt, hlo, hhi, -, -⟩ := zone_layout z
    have hroom := hinv.room
    rw [h.freed, h.live] at hroom
    have hroom : k + 0 ≤ (endPage z - startPage z) / 2 := hroom
    refine ownPage_iff.mpr ?_
    unfold blockPage
    omega
  obtain ⟨a, vm', hrun⟩ : ∃ a vm', vmAllocBlock (s.vm.given (fillFrames k)) { allowWrite := true } z
      (0x80000000 + k * 8192) = .ok (a, vm') :=
    vmAllocBlock_total hcursor hown (fun _ => h.sys.writable rfl) rfl (Nat.le_refl 3) _
  obtain ⟨ha, -⟩ := vmAllocBlock_spec (treeOk_given h.sys.ok) (h.fresh hk) (hinv.order hz) hcursor hown
    (blockPage_even z k) hrun
  subst ha
  exact ⟨vm', ⟨hz, h.fresh hk⟩, hrun⟩

theorem Filled.next {s : VmSys} {z : Zone} {k : Nat} (h : Filled s z k)
    (hz : (vmzoneInit z).flags.blockAlloc = true) (hk : k ≤ 2 ^ 24) (hcap : k < capacity z) :
    ∃ s', AnyCall s (fillCall z k) ∧ stepAny s (fillCall z k) = .ok s' ∧ Filled s' z (k + 1) := by
  obtain ⟨vm', hcall, hrun⟩ := h.call hz hk
  have hroom : (s.live z).length + (s.freed z).length < capacity z := by
    rw [h.live, h.freed]
    exact hcap
  have hinv := h.sys.zones z hz
  obtain ⟨-, -, -, k', -, -, halloc⟩ := hinv.alloc hz h.sys.ok hcall.2
    (fun hnil => by rw [hnil] at hroom; exact hroom) hrun
  have hperform : perform s (fillCall z k) = .ok (true, { s with
      vm := vm'
      live := Function.update s.live z (blockAddr z k :: s.live z)
      freed := Function.update s.freed z ((s.freed z).erase (blockAddr z k))
      blocks := (blockAddr z k, ⟨0x80000000 + k * 8192, 2 ^ (s.vm.zones z).blockOrder, false⟩) :: s.blocks }) := by
    show (vmAllocBlock (s.vm.given (fillFrames k)) { allowWrite := true } z (0x80000000 + k * 8192) >>= _) = _
    rw [hrun]
    rfl
  have hblock : BlockCall true s (fillCall z k) := ⟨hz, rfl, hcall.2, hroom⟩
  refine ⟨_, hcall, stepAny_of_perform hperform, blockSys_step h.sys hblock (step_of_perform hperform), ?_, ?_,
    fun g hg => ?_⟩
  · show Function.update s.freed z ((s.freed z).erase (blockAddr z k)) z = []
    rw [Function.update_self, h.freed]
    rfl
  · show (Function.update s.live z (blockAddr z k :: s.live z) z).length = k + 1
    rw [Function.update_self, List.length_cons, h.live]
  · show g < 0x10000000 + 3 * (k + 1) * 4096
    rcases halloc.pageTables g hg with hg | hg
    · have hold : g < 0x10000000 + 3 * k * 4096 := h.tables g hg
      exact Nat.lt_of_lt_of_le hold (fill_mono k)
    · exact lt_of_mem_fillFrames hg

/-- A zone of blocks can be filled. -/
theorem filled {vm : VmSpace} {z : Zone} (h : Filled (.boot vm) z 0) (hz : (vmzoneInit z).flags.blockAlloc = true) :
    ∀ k, k ≤ 2 ^ 24 → k ≤ capacity z → ∃ s, Reaches stepAny AnyCall (.boot vm) s ∧ Filled s z k := by
  intro k
  induction k with
  | zero => exact fun _ _ => ⟨.boot vm, .refl, h⟩
  | succ k ih =>
      intro hk hcap
      obtain ⟨s, hrun, hfilled⟩ := ih (by omega) (by omega)
      obtain ⟨s', hcall, hstep, hnext⟩ := hfilled.next hz (by omega) (by omega)
      exact ⟨s', hrun.tail hcall hstep, hnext⟩

end LearningOS.Paging
