import LearningOS.Lib.Run
import LearningOS.Mm.Vm.Model

/-!
# `Mm.Translate` — `virt_to_phys` and the page-table walk

Memory as words by table and index, a table being named by its physical address. `virtToPhys` walks the tree below
`KERNEL_PML4T` through the kernel's alias of the first 2GB, `hardwareWalk` is the walk of the processor, and `Agrees`
says that they give the same answer. The last exit of `virt_to_phys` turns the frame of the page into a kernel address,
where the one for 2MB pages takes it as it is.
-/

namespace LearningOS.Paging

open Word Run

/-- The words of the page tables. -/
abbrev TableWords := Nat → Nat → Nat

/-- `entry & PT_PRESENT`. -/
def presentBit (entry : Nat) : Bool := entry.testBit 0

/-- `entry & PT_HUGEPAGE`. -/
def hugeBit (entry : Nat) : Bool := entry.testBit 7

/-- `phys_addr_for_entry`. -/
def physAddrForEntry (entry : Nat) : Nat := entry &&& PtEntry.addrMask

/-- `KPHYS_ADDR`. -/
def kphysAddr (addr : Nat) : Nat := add64 kernelVma addr

/-- `kphys_addr_for_entry`. -/
def kphysAddrForEntry (entry : Nat) : Nat := kphysAddr (entry &&& PtEntry.addrMask)

/-- The physical address of `KERNEL_PML4T`. -/
abbrev kernelPml4t : Nat := 0x1000

/-- A pointer that is not in the kernel's alias of the first 2GB was followed. -/
inductive TranslateFault where
  | outsideAlias
deriving DecidableEq, Repr

/-- `((page_table_t *)table)->entries[i]`. -/
def readEntry (mem : TableWords) (table i : Nat) : Except TranslateFault Nat :=
  if kernelVma ≤ table then .ok (mem (table - kernelVma) i) else .error .outsideAlias

/-- `virt_to_phys`; `NULL` is 0. -/
def virtToPhys (mem : TableWords) (virtAddr : Nat) : Except TranslateFault Nat :=
  readEntry mem (kphysAddr kernelPml4t) ((virtAddr >>> (12 + 27)) &&& 0x1FF) >>= fun pml4tEntry =>
    if !presentBit pml4tEntry then .ok 0
    else readEntry mem (kphysAddrForEntry pml4tEntry) ((virtAddr >>> (12 + 18)) &&& 0x1FF) >>= fun pdptEntry =>
      if !presentBit pdptEntry then .ok 0
      else readEntry mem (kphysAddrForEntry pdptEntry) ((virtAddr >>> (12 + 9)) &&& 0x1FF) >>= fun pdtEntry =>
        if !presentBit pdtEntry then .ok 0
        else if hugeBit pdtEntry then .ok (add64 (physAddrForEntry pdtEntry) (virtAddr &&& 0x1FFFFF))
        else readEntry mem (kphysAddrForEntry pdtEntry) ((virtAddr >>> 12) &&& 0x1FF) >>= fun ptEntry =>
          if !presentBit ptEntry then .ok 0
          else .ok (add64 (kphysAddrForEntry ptEntry) (virtAddr &&& 0xFFF))

/-! ## The walk of the processor -/

/-- The frame of an entry, bits 12 to 51. -/
def frameOf (entry : Nat) : Nat := entry % 2 ^ 52 / 2 ^ 12 * 2 ^ 12

/-- The frame of an entry that maps 2MB, bits 21 to 51. -/
def largeFrameOf (entry : Nat) : Nat := entry % 2 ^ 52 / 2 ^ 21 * 2 ^ 21

/-- The entry of the page-map level 4 for an address. -/
def entry3 (mem : TableWords) (v : Nat) : Nat := mem kernelPml4t (v / 2 ^ 39 % 512)

/-- The entry of the page-directory-pointer table. -/
def entry2 (mem : TableWords) (v : Nat) : Nat := mem (frameOf (entry3 mem v)) (v / 2 ^ 30 % 512)

/-- The entry of the page directory. -/
def entry1 (mem : TableWords) (v : Nat) : Nat := mem (frameOf (entry2 mem v)) (v / 2 ^ 21 % 512)

/-- The entry of the page table. -/
def entry0 (mem : TableWords) (v : Nat) : Nat := mem (frameOf (entry1 mem v)) (v / 2 ^ 12 % 512)

/-- The physical address behind a virtual one. -/
def hardwareWalk (mem : TableWords) (v : Nat) : Option Nat :=
  if presentBit (entry3 mem v) && presentBit (entry2 mem v) && presentBit (entry1 mem v) then
    if hugeBit (entry1 mem v) then some (largeFrameOf (entry1 mem v) + v % 2 ^ 21)
    else if presentBit (entry0 mem v) then some (frameOf (entry0 mem v) + v % 2 ^ 12) else none
  else none

/-- The tables on the way to an address lie below 2GB. -/
structure TablesBelow2GB (mem : TableWords) (v : Nat) : Prop where
  pdpt : presentBit (entry3 mem v) = true → frameOf (entry3 mem v) < 2 ^ 31
  pdt : presentBit (entry2 mem v) = true → frameOf (entry2 mem v) < 2 ^ 31
  pt : presentBit (entry1 mem v) = true → hugeBit (entry1 mem v) = false → frameOf (entry1 mem v) < 2 ^ 31

/-- `virt_to_phys` gives the address of the walk, and `NULL` exactly if there is none. -/
def Agrees (mem : TableWords) (v : Nat) : Prop :=
  ∃ r, virtToPhys mem v = .ok r ∧ (r = 0 ↔ hardwareWalk mem v = none) ∧ ∀ p, hardwareWalk mem v = some p → r = p

/-- An entry on the way is not present. -/
def Absent (mem : TableWords) (v : Nat) : Prop :=
  presentBit (entry3 mem v) = false ∨ presentBit (entry2 mem v) = false ∨ presentBit (entry1 mem v) = false ∨
    (hugeBit (entry1 mem v) = false ∧ presentBit (entry0 mem v) = false)

/-- The address is in a 2MB page whose entry has no bit set below its frame, and is not mapped to address 0. -/
structure InLargePage (mem : TableWords) (v : Nat) : Prop where
  present : presentBit (entry3 mem v) = true ∧ presentBit (entry2 mem v) = true ∧ presentBit (entry1 mem v) = true
  huge : hugeBit (entry1 mem v) = true
  aligned : frameOf (entry1 mem v) % 2 ^ 21 = 0
  nonzero : frameOf (entry1 mem v) + v % 2 ^ 21 ≠ 0

/-! ## The walk through the alias -/

theorem physAddrForEntry_eq (entry : Nat) : physAddrForEntry entry = frameOf entry := by
  have hmask : PtEntry.addrMask = (2 ^ 40 - 1) <<< 12 := rfl
  unfold physAddrForEntry frameOf
  rw [hmask]
  apply Nat.eq_of_testBit_eq
  intro i
  rw [Nat.testBit_and, Nat.testBit_shiftLeft, Nat.testBit_two_pow_sub_one, Nat.testBit_mul_two_pow,
    Nat.testBit_div_two_pow, Nat.testBit_mod_two_pow]
  by_cases hi : 12 ≤ i
  · have hback : i - 12 + 12 = i := by omega
    have hlt : (i - 12 < 40) ↔ i < 52 := by omega
    simp only [hi, hback, hlt, decide_true, Bool.true_and]
    exact Bool.and_comm _ _
  · simp [hi]

theorem offset_eq (v k : Nat) : (v >>> k) &&& 0x1FF = v / 2 ^ k % 512 := by
  rw [Nat.shiftRight_eq_div_pow]
  exact Nat.and_two_pow_sub_one_eq_mod _ 9

theorem frameOf_lt (entry : Nat) : frameOf entry < 2 ^ 52 := by
  unfold frameOf
  omega

/-- A table below 2GB is read through the alias. -/
theorem readEntry_alias (mem : TableWords) {table : Nat} (h : table < 2 ^ 31) (i : Nat) :
    readEntry mem (kphysAddr table) i = .ok (mem table i) := by
  have hlt : kernelVma + table < 2 ^ 64 := by
    show 0xFFFFFFFF80000000 + table < 2 ^ 64
    omega
  have hsum : kphysAddr table = 0xFFFFFFFF80000000 + table := add64_of_lt hlt
  have hle : kernelVma ≤ 0xFFFFFFFF80000000 + table := Nat.le_add_right _ _
  have hback : 0xFFFFFFFF80000000 + table - kernelVma = table := Nat.add_sub_cancel_left _ _
  unfold readEntry
  rw [hsum, if_pos hle, hback]

/-- `virt_to_phys`, with the entries of the walk. -/
theorem virtToPhys_eq {mem : TableWords} {v : Nat} (h : TablesBelow2GB mem v) :
    virtToPhys mem v =
      if presentBit (entry3 mem v) && presentBit (entry2 mem v) && presentBit (entry1 mem v) then
        if hugeBit (entry1 mem v) then .ok (add64 (frameOf (entry1 mem v)) (v % 2 ^ 21))
        else if presentBit (entry0 mem v) then .ok (add64 (kphysAddr (frameOf (entry0 mem v))) (v % 2 ^ 12)) else .ok 0
      else .ok 0 := by
  have hlarge : v &&& 0x1FFFFF = v % 2 ^ 21 := Nat.and_two_pow_sub_one_eq_mod v 21
  have hsmall : v &&& 0xFFF = v % 2 ^ 12 := Nat.and_two_pow_sub_one_eq_mod v 12
  have hkphys : ∀ entry, kphysAddrForEntry entry = kphysAddr (frameOf entry) := by
    intro entry
    rw [← physAddrForEntry_eq]
    rfl
  unfold virtToPhys
  rw [readEntry_alias mem (by decide), offset_eq, ok_bind]
  show (if !presentBit (entry3 mem v) then _ else _) = _
  cases h3 : presentBit (entry3 mem v) with
  | false => rfl
  | true =>
      have hread2 : readEntry mem (kphysAddrForEntry (entry3 mem v)) ((v >>> (12 + 18)) &&& 0x1FF) =
          .ok (entry2 mem v) := by
        rw [hkphys, readEntry_alias mem (h.pdpt h3), offset_eq]
        rfl
      show readEntry mem (kphysAddrForEntry (entry3 mem v)) _ >>= _ = _
      rw [hread2, ok_bind]
      cases h2 : presentBit (entry2 mem v) with
      | false => rfl
      | true =>
          have hread1 : readEntry mem (kphysAddrForEntry (entry2 mem v)) ((v >>> (12 + 9)) &&& 0x1FF) =
              .ok (entry1 mem v) := by
            rw [hkphys, readEntry_alias mem (h.pdt h2), offset_eq]
            rfl
          show readEntry mem (kphysAddrForEntry (entry2 mem v)) _ >>= _ = _
          rw [hread1, ok_bind]
          cases h1 : presentBit (entry1 mem v) with
          | false => rfl
          | true =>
              cases hhuge : hugeBit (entry1 mem v) with
              | true =>
                  show (Except.ok (add64 (physAddrForEntry (entry1 mem v)) (v &&& 0x1FFFFF)) : Except _ _) = _
                  rw [physAddrForEntry_eq, hlarge]
                  rfl
              | false =>
                  have hread0 : readEntry mem (kphysAddrForEntry (entry1 mem v)) ((v >>> 12) &&& 0x1FF) =
                      .ok (entry0 mem v) := by
                    rw [hkphys, readEntry_alias mem (h.pt h1 hhuge), offset_eq]
                    rfl
                  show readEntry mem (kphysAddrForEntry (entry1 mem v)) _ >>= _ = _
                  rw [hread0, ok_bind]
                  cases h0 : presentBit (entry0 mem v) with
                  | false => rfl
                  | true =>
                      show (Except.ok (add64 (kphysAddrForEntry (entry0 mem v)) (v &&& 0xFFF)) : Except _ _) = _
                      rw [hkphys, hsmall]
                      rfl

/-! ## Agreement -/

theorem hardwareWalk_eq_none_iff {mem : TableWords} {v : Nat} : hardwareWalk mem v = none ↔ Absent mem v := by
  unfold hardwareWalk Absent
  cases presentBit (entry3 mem v) <;> cases presentBit (entry2 mem v) <;> cases presentBit (entry1 mem v) <;>
    cases hugeBit (entry1 mem v) <;> cases presentBit (entry0 mem v) <;> simp

/-- Where the walk ends at a missing entry, `virt_to_phys` gives `NULL`. -/
theorem agrees_of_absent {mem : TableWords} {v : Nat} (h : TablesBelow2GB mem v) (habsent : Absent mem v) :
    Agrees mem v := by
  have hnone := hardwareWalk_eq_none_iff.mpr habsent
  refine ⟨0, ?_, iff_of_true rfl hnone, ?_⟩
  · rw [virtToPhys_eq h]
    unfold Absent at habsent
    cases h3 : presentBit (entry3 mem v) <;> cases h2 : presentBit (entry2 mem v) <;>
      cases h1 : presentBit (entry1 mem v) <;> cases hhuge : hugeBit (entry1 mem v) <;>
      cases h0 : presentBit (entry0 mem v) <;> simp_all
  · intro p hp
    rw [hnone] at hp
    cases hp

/-- The address behind a 2MB page, with the frame as the code takes it. -/
theorem agrees_large_iff {mem : TableWords} {v : Nat} (h : TablesBelow2GB mem v)
    (hpresent : presentBit (entry3 mem v) = true ∧ presentBit (entry2 mem v) = true ∧ presentBit (entry1 mem v) = true)
    (hhuge : hugeBit (entry1 mem v) = true) :
    Agrees mem v ↔ frameOf (entry1 mem v) % 2 ^ 21 = 0 ∧ frameOf (entry1 mem v) + v % 2 ^ 21 ≠ 0 := by
  obtain ⟨h3, h2, h1⟩ := hpresent
  have hlt := frameOf_lt (entry1 mem v)
  have hcode : virtToPhys mem v = .ok (frameOf (entry1 mem v) + v % 2 ^ 21) := by
    rw [virtToPhys_eq h, h3, h2, h1, hhuge, add64_of_lt (by omega)]
    rfl
  have hwalk : hardwareWalk mem v = some (largeFrameOf (entry1 mem v) + v % 2 ^ 21) := by
    unfold hardwareWalk
    rw [h3, h2, h1, hhuge]
    rfl
  have hlarge : largeFrameOf (entry1 mem v) = frameOf (entry1 mem v) ↔ frameOf (entry1 mem v) % 2 ^ 21 = 0 := by
    unfold largeFrameOf frameOf
    omega
  unfold Agrees
  rw [hcode, hwalk]
  constructor
  · rintro ⟨r, hr, hnull, hp⟩
    obtain rfl := Except.ok.inj hr
    have hsame := hp _ rfl
    refine ⟨hlarge.mp (by omega), ?_⟩
    intro hzero
    cases hnull.mp hzero
  · rintro ⟨haligned, hnonzero⟩
    refine ⟨_, rfl, iff_of_false hnonzero nofun, ?_⟩
    intro p hp
    obtain rfl := Option.some.inj hp
    rw [hlarge.mpr haligned]

/-- Behind a 4KB page there is no agreement: the frame is turned into an address of the alias. -/
theorem not_agrees_small {mem : TableWords} {v : Nat} (h : TablesBelow2GB mem v)
    (hpresent : presentBit (entry3 mem v) = true ∧ presentBit (entry2 mem v) = true ∧ presentBit (entry1 mem v) = true)
    (hhuge : hugeBit (entry1 mem v) = false) (h0 : presentBit (entry0 mem v) = true) : ¬ Agrees mem v := by
  obtain ⟨h3, h2, h1⟩ := hpresent
  have hlt := frameOf_lt (entry0 mem v)
  rintro ⟨r, hr, -, hp⟩
  have hcode : virtToPhys mem v = .ok (add64 (kphysAddr (frameOf (entry0 mem v))) (v % 2 ^ 12)) := by
    rw [virtToPhys_eq h, h3, h2, h1, hhuge, h0]
    rfl
  have hwalk : hardwareWalk mem v = some (frameOf (entry0 mem v) + v % 2 ^ 12) := by
    unfold hardwareWalk
    rw [h3, h2, h1, hhuge, h0]
    rfl
  obtain rfl := Except.ok.inj (hcode.symm.trans hr)
  have hsame : ((0xFFFFFFFF80000000 + frameOf (entry0 mem v)) % 2 ^ 64 + v % 2 ^ 12) % 2 ^ 64 =
      frameOf (entry0 mem v) + v % 2 ^ 12 := hp _ hwalk
  omega

/-- **Where software translation agrees with the walk**: where there is nothing mapped, and in the 2MB pages that are
    not the one at address 0 and whose entries have no flag between the frame and bit 11. -/
theorem virt_to_phys_agrees_iff {mem : TableWords} {v : Nat} (h : TablesBelow2GB mem v) :
    Agrees mem v ↔ Absent mem v ∨ InLargePage mem v := by
  by_cases habsent : Absent mem v
  · exact iff_of_true (agrees_of_absent h habsent) (Or.inl habsent)
  · have hpresent : presentBit (entry3 mem v) = true ∧ presentBit (entry2 mem v) = true ∧
        presentBit (entry1 mem v) = true := by
      unfold Absent at habsent
      cases h3 : presentBit (entry3 mem v) <;> cases h2 : presentBit (entry2 mem v) <;>
        cases h1 : presentBit (entry1 mem v) <;> simp_all
    rw [or_iff_right habsent]
    cases hhuge : hugeBit (entry1 mem v) with
    | true =>
        rw [agrees_large_iff h hpresent hhuge]
        constructor
        · rintro ⟨haligned, hnonzero⟩
          exact ⟨hpresent, hhuge, haligned, hnonzero⟩
        · intro hlarge
          exact ⟨hlarge.aligned, hlarge.nonzero⟩
    | false =>
        have h0 : presentBit (entry0 mem v) = true := by
          by_contra hnot
          exact habsent (Or.inr (Or.inr (Or.inr ⟨hhuge, Bool.eq_false_iff.mpr hnot⟩)))
        refine iff_of_false (not_agrees_small h hpresent hhuge h0) ?_
        intro hlarge
        rw [hlarge.huge] at hhuge
        cases hhuge

/-- A tree that maps 2MB at `0x200000`, and one that maps a page at `0x5000`. -/
def sampleTree (large : Bool) : TableWords := fun table i =>
  if i ≠ 0 then 0
  else if table = 0x3000 ∧ large then 0x200083
  else if table ≤ 0x4000 then table + 0x1001
  else 0

theorem large_page_agrees :
    virtToPhys (sampleTree true) 0x12345 = .ok 0x212345 ∧ Agrees (sampleTree true) 0x12345 := by
  have hbelow : TablesBelow2GB (sampleTree true) 0x12345 := ⟨by decide, by decide, by decide⟩
  refine ⟨by decide, (virt_to_phys_agrees_iff hbelow).mpr (Or.inr ?_)⟩
  exact ⟨by decide, by decide, by decide, by decide⟩

/-- **A 4KB page is translated to its alias.** -/
theorem small_page_disagrees :
    TablesBelow2GB (sampleTree false) 0x123 ∧ hardwareWalk (sampleTree false) 0x123 = some 0x5123 ∧
      virtToPhys (sampleTree false) 0x123 = .ok 0xFFFFFFFF80005123 ∧ ¬ Agrees (sampleTree false) 0x123 := by
  have hbelow : TablesBelow2GB (sampleTree false) 0x123 := ⟨by decide, by decide, by decide⟩
  exact ⟨hbelow, by decide, by decide, not_agrees_small hbelow (by decide) (by decide) (by decide)⟩

end LearningOS.Paging
