import LearningOS.Utility.Math

/-!
# `Mm.Vm.Entry` — page-table entries and the flags of `mm.h` and `mm/vm.h`

A `pt_entry_t` is a 64-bit word. The code only ever sets, clears and tests whole fields of it, so the model keeps
the fields: one `Bool` for each flag bit that is used and the address in bits 12–51 as a number. `PtEntry.word` and
`PtEntry.ofWord` go to the word and back where the source mixes the two: an offset that is OR-ed into an entry, and
an entry that is passed where an address is meant. The bits nothing sets (write-through, cache, accessed, dirty,
global, `PT_KERNEL_GLOBAL`) are left out.
-/

namespace LearningOS.Paging

open Word

/-- The mapping flags of `mm/vm.h`, a `u8_t`. -/
structure VmFlags where
  allowWrite : Bool := false
  allowExec : Bool := false
  allowUser : Bool := false
  writeGuard : Bool := false
  allocEarly : Bool := false
  hugepage : Bool := false
deriving DecidableEq, Repr

/-- `flags & VM_ALLOC_EARLY`. -/
def VmFlags.earlyOnly (flags : VmFlags) : VmFlags := { allocEarly := flags.allocEarly }

/-- The error codes of `mm/vm.h` that the modelled functions return. -/
inductive VmError where
  | unmapped
  | privilege
  | boundary
  | alreadyMapped
  | contiguous
deriving DecidableEq, Repr

/-- The fields of a `pt_entry_t`. -/
structure PtEntry where
  present : Bool := false
  writable : Bool := false
  userAccessible : Bool := false
  hugepage : Bool := false
  pageAhead : Bool := false
  pageBehind : Bool := false
  earlyAlloc : Bool := false
  /-- Bits 12–51, as the number `entry & ENTRY_ADDR_MASK`. -/
  addr : Nat := 0
  dataAhead : Bool := false
  dataBehind : Bool := false
  dataEarly : Bool := false
  offsetNegative : Bool := false
  noExecute : Bool := false
deriving DecidableEq, Repr

namespace PtEntry

/-- The entry `0`. -/
def zero : PtEntry := {}

/-- `ENTRY_ADDR_MASK`, which is also the `PAGE_ADDRESS_MASK` of `vm.c`. -/
def addrMask : Nat := maskForFirstNBits 40 <<< 12

/-- The fields of a word. -/
def ofWord (w : Nat) : PtEntry where
  present := w.testBit 0
  writable := w.testBit 1
  userAccessible := w.testBit 2
  hugepage := w.testBit 7
  pageAhead := w.testBit 9
  pageBehind := w.testBit 10
  earlyAlloc := w.testBit 11
  addr := w &&& addrMask
  dataAhead := w.testBit 54
  dataBehind := w.testBit 55
  dataEarly := w.testBit 56
  offsetNegative := w.testBit 58
  noExecute := w.testBit 63

/-- The word of an entry. -/
def word (e : PtEntry) : Nat :=
  e.present.toNat + e.writable.toNat <<< 1 + e.userAccessible.toNat <<< 2 + e.hugepage.toNat <<< 7 +
    e.pageAhead.toNat <<< 9 + e.pageBehind.toNat <<< 10 + e.earlyAlloc.toNat <<< 11 + e.addr +
    e.dataAhead.toNat <<< 54 + e.dataBehind.toNat <<< 55 + e.dataEarly.toNat <<< 56 +
    e.offsetNegative.toNat <<< 58 + e.noExecute.toNat <<< 63

/-- `a | b`. -/
def or (a b : PtEntry) : PtEntry where
  present := a.present || b.present
  writable := a.writable || b.writable
  userAccessible := a.userAccessible || b.userAccessible
  hugepage := a.hugepage || b.hugepage
  pageAhead := a.pageAhead || b.pageAhead
  pageBehind := a.pageBehind || b.pageBehind
  earlyAlloc := a.earlyAlloc || b.earlyAlloc
  addr := a.addr ||| b.addr
  dataAhead := a.dataAhead || b.dataAhead
  dataBehind := a.dataBehind || b.dataBehind
  dataEarly := a.dataEarly || b.dataEarly
  offsetNegative := a.offsetNegative || b.offsetNegative
  noExecute := a.noExecute || b.noExecute

/-- `entry & MASK_UNRESERVED_BITS`: bits 9–11 and 52–62 stay. -/
def unreserved (e : PtEntry) : PtEntry :=
  { e with
    present := false, writable := false, userAccessible := false, hugepage := false, addr := 0
    noExecute := false }

end PtEntry

/-- `pt_alloc_flags`. -/
def ptAllocFlags (e : PtEntry) : PtEntry :=
  { pageAhead := e.pageAhead, pageBehind := e.pageBehind, earlyAlloc := e.earlyAlloc }

/-- `next_free_entry`. -/
def nextFreeEntry (freeEntry : PtEntry) (entryAddr : Nat) : Nat :=
  if freeEntry.offsetNegative then sub64 entryAddr freeEntry.addr else add64 entryAddr freeEntry.addr

/-- `vm_check_status`; no error is the status 0. -/
def vmCheckStatus (entry : PtEntry) (flags : VmFlags) : Option VmError :=
  if !entry.present then some .unmapped
  else if flags.allowWrite && !entry.writable then some .privilege
  else if flags.allowUser && !entry.userAccessible then some .privilege
  else none

/-- `vm_pt_entry_create`. -/
def vmPtEntryCreate (physAddr : Nat) (flags : VmFlags) : PtEntry where
  present := true
  writable := flags.allowWrite
  userAccessible := flags.allowUser
  noExecute := !flags.allowExec
  hugepage := flags.hugepage
  addr := physAddr &&& PtEntry.addrMask

/-- The value `__map_phys_page` gives to an entry. -/
def mapPhysPage (entry : PtEntry) (physAddr : Nat) (flags : VmFlags) : PtEntry :=
  entry.unreserved.or (vmPtEntryCreate physAddr flags)

/-- `__data_alloc_flags`. The size is a `u8_t` and `alloc_size - 1` an `int` that is compared as a `size_t`: for a
    size of 0 it is the largest one. -/
def dataAllocFlags (indexInAlloc allocSize : Nat) (flags : VmFlags) : PtEntry where
  dataEarly := flags.allocEarly
  dataBehind := decide (indexInAlloc > 0)
  dataAhead := decide (indexInAlloc < sub64 (allocSize % 2 ^ 8) 1)

/-- `height_offset`, and with heights 3, 2, 1, 0 the functions `pml4t_offset`, `pdpt_offset`, `pdt_offset` and
    `pt_offset`. -/
def heightOffset (addr height : Nat) : Nat := (addr >>> (12 + height * 9)) &&& 0x1FF

/-- `pt_offset`. -/
def ptOffset (addr : Nat) : Nat := heightOffset addr 0

/-! ## What the helpers compute -/

theorem heightOffset_eq (addr height : Nat) : heightOffset addr height = addr / 2 ^ (12 + height * 9) % 512 := by
  show (addr >>> (12 + height * 9)) &&& (2 ^ 9 - 1) = _
  rw [and_mask, Nat.shiftRight_eq_div_pow]
  rfl

theorem ptOffset_eq (addr : Nat) : ptOffset addr = addr / 4096 % 512 := heightOffset_eq addr 0

theorem vmCheckStatus_unmapped {entry : PtEntry} {flags : VmFlags} :
    vmCheckStatus entry flags = some .unmapped ↔ entry.present = false := by
  unfold vmCheckStatus
  cases entry.present with
  | false => simp
  | true =>
      simp only [Bool.not_true, Bool.false_eq_true, if_false]
      split
      · simp
      · split <;> simp

theorem present_of_vmCheckStatus {entry : PtEntry} {flags : VmFlags} (h : vmCheckStatus entry flags = none) :
    entry.present = true := by
  by_contra hp
  rw [vmCheckStatus_unmapped.mpr (Bool.eq_false_iff.mpr hp)] at h
  cases h

theorem vmCheckStatus_none {entry : PtEntry} {flags : VmFlags} (hp : entry.present = true)
    (hw : flags.allowWrite = true → entry.writable = true) (hu : flags.allowUser = false) :
    vmCheckStatus entry flags = none := by
  unfold vmCheckStatus
  rw [hp, hu]
  cases hf : flags.allowWrite with
  | false => simp
  | true => simp [hw hf]

/-- An address of a frame: page-aligned and below `2 ^ 52`. -/
def PageAddr (w : Nat) : Prop := w % 4096 = 0 ∧ w < 2 ^ 52

instance (w : Nat) : Decidable (PageAddr w) := inferInstanceAs (Decidable (_ ∧ _))

namespace PageAddr

theorem testBit_low {w k : Nat} (h : PageAddr w) (hk : k < 12) : w.testBit k = false := by
  obtain ⟨q, rfl⟩ : ∃ q, w = q * 2 ^ 12 := ⟨w / 4096, by have := h.1; omega⟩
  rw [Nat.testBit_mul_two_pow, decide_eq_false (by omega), Bool.false_and]

theorem testBit_high {w k : Nat} (h : PageAddr w) (hk : 52 ≤ k) : w.testBit k = false :=
  Nat.testBit_lt_two_pow (h.2.trans_le (Nat.pow_le_pow_right (by decide) hk))

/-- The address mask keeps an address of a frame. -/
theorem and_addrMask {w : Nat} (h : PageAddr w) : w &&& PtEntry.addrMask = w := by
  apply Nat.eq_of_testBit_eq
  intro k
  have hmask : PtEntry.addrMask = (2 ^ 40 - 1) * 2 ^ 12 := by decide
  rw [Nat.testBit_and, hmask, Nat.testBit_mul_two_pow, Nat.testBit_two_pow_sub_one]
  by_cases hlow : k < 12
  · rw [h.testBit_low hlow, Bool.false_and]
  · by_cases hhigh : 52 ≤ k
    · rw [h.testBit_high hhigh, Bool.false_and]
    · rw [decide_eq_true (by omega), decide_eq_true (by omega), Bool.and_true, Bool.and_true]

/-- OR-ing an address of a frame into an entry meets the address field only. -/
theorem ofWord_eq {w : Nat} (h : PageAddr w) : PtEntry.ofWord w = { addr := w } := by
  unfold PtEntry.ofWord
  rw [h.and_addrMask, h.testBit_low (by decide), h.testBit_low (by decide), h.testBit_low (by decide),
    h.testBit_low (by decide), h.testBit_low (by decide), h.testBit_low (by decide), h.testBit_low (by decide),
    h.testBit_high (by decide), h.testBit_high (by decide), h.testBit_high (by decide),
    h.testBit_high (by decide), h.testBit_high (by decide)]

end PageAddr

theorem mapPhysPage_writable (e : PtEntry) (physAddr : Nat) (flags : VmFlags) :
    (mapPhysPage e physAddr flags).writable = flags.allowWrite := Bool.false_or _

/-! ## What the table knows about itself

The first entry of a table also tells how the table was allocated. Nothing that concerns the mapped pages depends on
these bits. -/

/-- An entry without the metadata of its table. -/
def PtEntry.core (e : PtEntry) : PtEntry := { e with pageAhead := false, pageBehind := false, earlyAlloc := false }

theorem mapPhysPage_core (e : PtEntry) (physAddr : Nat) (flags : VmFlags) :
    (mapPhysPage e physAddr flags).core = mapPhysPage e.core physAddr flags := by
  simp [mapPhysPage, PtEntry.core, PtEntry.or, PtEntry.unreserved, vmPtEntryCreate]

theorem or_dataAllocFlags_core (e : PtEntry) (i n : Nat) (flags : VmFlags) :
    (e.or (dataAllocFlags i n flags)).core = e.core.or (dataAllocFlags i n flags) := by
  simp [PtEntry.core, PtEntry.or, dataAllocFlags]

end LearningOS.Paging
