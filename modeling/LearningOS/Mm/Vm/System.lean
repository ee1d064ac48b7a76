import LearningOS.Mm.Vm.Init

/-!
# `Mm.Vm.System` — the zones and their clients

The address space does not record who holds what. `VmSys` puts beside it what the clients know from the answers they
got: the blocks of each zone that are live and those that were freed, the physical pages behind the live blocks, the
allocations the heap was grown by, the latest first, and how many pages it was grown and shrunk by. `perform` is one
call and says whether it reported success; a run of calls that all report success is a run of `step`, a run of any
calls one of `stepAny`.
-/

namespace LearningOS.Paging

open Word Run Radix

/-- An allocation of physical pages. -/
structure Alloc where
  base : Nat
  pages : Nat
  early : Bool
deriving DecidableEq, Repr

/-- The address space and what its clients know. -/
structure VmSys where
  vm : VmSpace
  live : Zone → List Nat
  freed : Zone → List Nat
  blocks : List (Nat × Alloc)
  allocs : List Alloc
  extended : Nat
  shrunk : Nat

/-- The state after `vm_init`. -/
def VmSys.boot (vm : VmSpace) : VmSys := ⟨vm, fun _ => [], fun _ => [], [], [], 0, 0⟩

/-- The number of pages the heap was grown by and not shrunk by. -/
def VmSys.mapped (s : VmSys) : Nat := s.extended - s.shrunk

/-- A call. `frames` are the answers of the physical allocator for page tables, `block` is its answer for the pages
    of the block. -/
inductive VmAct where
  | alloc (zone : Zone) (flags : VmFlags) (frames : List Nat) (block : Nat)
  | free (zone : Zone) (addr : Nat)
  | extend (zone : Zone) (pages : Nat) (flags : VmFlags) (frames : List Nat) (block : Nat)
  | shrink (zone : Zone) (pages : Nat)
deriving DecidableEq

/-- The allocations that are left when the last `pages` pages are given back. -/
def dropPages : Nat → List Alloc → List Alloc
  | _, [] => []
  | pages, a :: allocs =>
    if pages < a.pages then { a with pages := a.pages - pages } :: allocs else dropPages (pages - a.pages) allocs

/-- The address space with the answers for page tables. -/
def VmSpace.given (vm : VmSpace) (frames : List Nat) : VmSpace := { vm with frames := frames }

/-- One call: whether it reported success, and the state after it. -/
def perform (s : VmSys) : VmAct → Except VmFault (Bool × VmSys)
  | .alloc zone flags frames block =>
    vmAllocBlock (s.vm.given frames) flags zone block >>= fun (addr, vm) =>
      .ok (true, { s with
        vm := vm
        live := Function.update s.live zone (addr :: s.live zone)
        freed := Function.update s.freed zone ((s.freed zone).erase addr)
        blocks := (addr, ⟨block, 2 ^ (s.vm.zones zone).blockOrder, flags.allocEarly⟩) :: s.blocks })
  | .free zone addr =>
    match vmFreeBlock s.vm addr zone with
    | (some _, vm) => .ok (false, { s with vm := vm })
    | (none, vm) =>
      let block := truncNBits addr ((s.vm.zones zone).blockOrder + pageOrder)
      .ok (true, { s with
        vm := vm
        live := Function.update s.live zone ((s.live zone).erase block)
        freed := Function.update s.freed zone (block :: s.freed zone)
        blocks := s.blocks.filter (fun b => b.1 ≠ block) })
  | .extend zone pages flags frames block =>
    vmzoneExtend (s.vm.given frames) pages flags zone block >>= fun (addr, vm) =>
      match addr with
      | none => .ok (false, { s with vm := vm })
      | some _ => .ok (true, { s with
          vm := vm
          allocs := ⟨block, pages, flags.allocEarly⟩ :: s.allocs
          extended := s.extended + pages })
  | .shrink zone pages =>
    vmzoneShrink s.vm pages zone >>= fun (error, vm) =>
      match error with
      | some _ => .ok (false, { s with vm := vm })
      | none => .ok (true, { s with
          vm := vm
          allocs := dropPages pages s.allocs
          shrunk := s.shrunk + pages })

/-- One call that reports success. -/
def step (s : VmSys) (a : VmAct) : Except VmFault VmSys :=
  perform s a >>= fun (ok, s') => if ok then .ok s' else .error .refused

/-- One call, whatever it reports. -/
def stepAny (s : VmSys) (a : VmAct) : Except VmFault VmSys := perform s a >>= fun r => .ok r.2

theorem step_ok {s s' : VmSys} {a : VmAct} (h : step s a = .ok s') : perform s a = .ok (true, s') := by
  obtain ⟨⟨ok, s1⟩, hperform, h⟩ := bind_eq_ok.mp h
  cases ok with
  | false => cases h
  | true =>
      cases h
      exact hperform

theorem stepAny_ok {s s' : VmSys} {a : VmAct} (h : stepAny s a = .ok s') : ∃ ok, perform s a = .ok (ok, s') := by
  obtain ⟨⟨ok, s1⟩, hperform, h⟩ := bind_eq_ok.mp h
  cases h
  exact ⟨ok, hperform⟩

theorem step_of_perform {s s' : VmSys} {a : VmAct} (h : perform s a = .ok (true, s')) : step s a = .ok s' := by
  unfold step
  rw [h]
  rfl

theorem stepAny_of_perform {s s' : VmSys} {a : VmAct} {ok : Bool} (h : perform s a = .ok (ok, s')) :
    stepAny s a = .ok s' := by
  unfold stepAny
  rw [h]
  rfl

/-- The state after a free that succeeds. -/
theorem perform_free {s s' : VmSys} {z : Zone} {addr block : Nat} {ok : Bool}
    (h : perform s (.free z addr) = .ok (ok, s')) (hnone : (vmFreeBlock s.vm addr z).1 = none)
    (hblock : truncNBits addr ((s.vm.zones z).blockOrder + pageOrder) = block) :
    s' = { s with
      vm := (vmFreeBlock s.vm addr z).2
      live := Function.update s.live z ((s.live z).erase block)
      freed := Function.update s.freed z (block :: s.freed z)
      blocks := s.blocks.filter (fun b => b.1 ≠ block) } := by
  have hresult : vmFreeBlock s.vm addr z = (none, (vmFreeBlock s.vm addr z).2) := Prod.ext hnone rfl
  unfold perform at h
  simp only at h
  rw [hresult] at h
  subst hblock
  exact (Prod.mk.inj (Except.ok.inj h)).2.symm

instance (vm : VmSpace) : Decidable (FreshFrames vm) :=
  decidable_of_iff
    (vm.frames.Nodup ∧ (∀ f ∈ vm.frames, PageAddr f) ∧ ∀ f ∈ vm.frames, f ∉ vm.pageTables)
    ⟨fun h => ⟨h.1, h.2.1, h.2.2⟩, fun h => ⟨h.1, h.2, h.3⟩⟩

/-! ## Given frames -/

section Given

variable {vm : VmSpace} {frames : List Nat}

theorem treeOk_given (h : TreeOk vm) : TreeOk (vm.given frames) := ⟨h.separate, h.made⟩

/-- A run of stores and new tables from the state with its frames is one from the state. -/
theorem Keeps.of_given {vm' : VmSpace} {W T : Nat → Prop} (h : Keeps (vm.given frames) vm' W T) : Keeps vm vm' W T :=
  ⟨h.ok, h.fresh, h.tables, h.missing, h.entry, h.core⟩

end Given

/-! ## The pages of the zones -/

/-- The first page of a zone. -/
def startPage (z : Zone) : Nat := (vmzoneInit z).startAddress / 4096

/-- The first page after a zone. -/
def endPage (z : Zone) : Nat := (vmzoneInit z).endAddress / 4096

/-- The zones are made of whole page tables, lie in the part of the address space the tree covers, and their addresses
    are page addresses. -/
theorem zone_layout (z : Zone) :
    startPage z % 512 = 0 ∧ endPage z % 512 = 0 ∧ startPage z < endPage z ∧ 0xFFFFFF0000000 ≤ startPage z ∧
      endPage z < 0xFFFFFFFF80000 ∧ (vmzoneInit z).startAddress = startPage z * 4096 ∧
      (vmzoneInit z).endAddress = endPage z * 4096 := by
  cases z <;> decide

theorem zones_apart {z z' : Zone} (h : z ≠ z') : endPage z ≤ startPage z' ∨ endPage z' ≤ startPage z := by
  revert h
  cases z <;> cases z' <;> decide

theorem blockOrder_of_block {z : Zone} (h : (vmzoneInit z).flags.blockAlloc = true) :
    (initializedZone z).blockOrder = 1 := by
  revert h
  cases z <;> decide

/-- A page of a zone. -/
def InZone (z : Zone) (v : Nat) : Prop := startPage z ≤ v ∧ v < endPage z

instance (z : Zone) (v : Nat) : Decidable (InZone z v) := inferInstanceAs (Decidable (_ ∧ _))

theorem InZone.own {z : Zone} {v : Nat} (h : InZone z v) : OwnPage v := by
  obtain ⟨-, -, -, hlo, hhi, -, -⟩ := zone_layout z
  have h : startPage z ≤ v ∧ v < endPage z := h
  exact ownPage_iff.mpr (by omega)

/-- Two zones share no page table. -/
theorem InZone.table_ne {z z' : Zone} {v v' : Nat} (h : InZone z v) (h' : InZone z' v') (hne : z ≠ z') :
    v / 512 ≠ v' / 512 := by
  obtain ⟨hs, he, -⟩ := zone_layout z
  obtain ⟨hs', he', -⟩ := zone_layout z'
  have h : startPage z ≤ v ∧ v < endPage z := h
  have h' : startPage z' ≤ v' ∧ v' < endPage z' := h'
  rcases zones_apart hne with hd | hd <;> omega

/-! ## A machine -/

/-- Frames of a machine with its free memory from 4MB on. -/
def sampleFrames : List Nat := [0x401000, 0x402000, 0x404000, 0x406000, 0x408000, 0x40a000]

theorem sampleFrames_boot : BootFrames 0x100000 0x401000 [0x402000, 0x404000, 0x406000, 0x408000, 0x40a000] where
  length := rfl
  nodup := by decide
  aligned := by decide
  unused := by decide

end LearningOS.Paging
