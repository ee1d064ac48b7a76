import Mathlib.Order.Interval.Set.Disjoint
import LearningOS.Lib.Arena
import LearningOS.Lib.Run
import LearningOS.Mm.KernelImage

/-!
# `Mm.Reservations` — the early reservations of a boot

Before any allocator is up, memory is taken with `reserve_physmem_region`, which moves a cursor through the first
region with enough space left. A boot is a run of such calls over the regions of one memory map.

A region serves sound ranges only if it begins where its entry lets it begin: on a page boundary and inside the entry.
`load_physmem_regions` does not see to either. An entry that is not page-aligned keeps its odd start; one that ends
inside the first page of memory is made to start at the end of that page, behind its own end, and the free space, an
unsigned difference, comes out huge; one that begins inside the kernel image is made to start at the image's start,
before the entry. `SaneEntry` excludes these, `SafeCall` asks for it of the region that answers only, and
`reservations_sound` is the claim for every run of such calls.
-/

namespace LearningOS

open Word Arena

/-! ## Runs of reservations -/

/-- The bytes of an entry. -/
def MmapEntry.range (entry : MmapEntry) : Set Nat := Set.Ico entry.addr (entry.addr + entry.len)

/-- The regions as they stand, and what the calls that did not return `NULL` returned, with their page counts, the
    latest first. -/
structure Reservations where
  regions : List PhysmemRegion
  granted : List (Nat × Nat)

/-- The state before the first call. -/
def bootReservations (kernelEnd : Nat) (entries : List MmapEntry) : Reservations :=
  ⟨loadPhysmemRegions kernelPhysicalStart kernelEnd entries, []⟩

/-- One call of `reserve_physmem_region`. -/
def reserveStep (s : Reservations) (numPages : Nat) : Except Unit Reservations :=
  let (start, regions) := reservePhysmemRegion s.regions numPages
  .ok ⟨regions, if start = 0 then s.granted else (start, numPages) :: s.granted⟩

/-- The bytes of a reservation. -/
def grantRange (grant : Nat × Nat) : Set Nat := Set.Ico grant.1 (grant.1 + grant.2 * pageSize)

/-- What a boot needs of its reservations. -/
structure ReservationsSound (entries : List MmapEntry) (granted : List (Nat × Nat)) : Prop where
  aligned : ∀ grant ∈ granted, grant.1 % pageSize = 0
  abovePage : ∀ grant ∈ granted, pageSize ≤ grant.1
  disjoint : granted.Pairwise fun grant grant' => Disjoint (grantRange grant) (grantRange grant')
  contained : ∀ grant ∈ granted, ∃ entry ∈ entries, entry.type = e820UsableRam ∧ grantRange grant ⊆ entry.range

/-! ## Which calls are safe -/

/-- The usable part of the entry begins on a page boundary and inside the entry: the entry is page-aligned unless it
    begins in the first page, reaches past the first page, does not begin inside the kernel image, and ends within the
    address space. -/
def SaneEntry (kernelEnd : Nat) (entry : MmapEntry) : Prop :=
  (entry.addr ≤ pageSize ∨ entry.addr % pageSize = 0) ∧ pageSize ≤ entry.addr + entry.len ∧
    ¬ (kernelPhysicalStart < entry.addr ∧ entry.addr ≤ kernelEnd) ∧ entry.addr + entry.len ≤ 2 ^ 64

instance (kernelEnd : Nat) (entry : MmapEntry) : Decidable (SaneEntry kernelEnd entry) :=
  inferInstanceAs (Decidable (_ ∧ _ ∧ _ ∧ _))

/-- The entry whose region answers a request of that many bytes. -/
def answeringEntry : List MmapEntry → List PhysmemRegion → Nat → Option MmapEntry
  | entry :: entries, region :: regions, reservationSize =>
    if sub64 region.regionEnd region.freeStart ≤ reservationSize then
      answeringEntry entries regions reservationSize
    else
      some entry
  | _, _, _ => none

/-- The call is for at least one page and, if a region answers it, its size in bytes is a word and the region's entry
    is sane. -/
def SafeCall (kernelEnd : Nat) (entries : List MmapEntry) (s : Reservations) (numPages : Nat) : Prop :=
  1 ≤ numPages ∧ ∀ entry,
    answeringEntry (usableEntries entries) s.regions (numPages * pageSize % 2 ^ 64) = some entry →
      numPages * pageSize < 2 ^ 64 ∧ SaneEntry kernelEnd entry

instance (kernelEnd : Nat) (entries : List MmapEntry) (s : Reservations) (numPages : Nat) :
    Decidable (SafeCall kernelEnd entries s numPages) :=
  inferInstanceAs (Decidable (1 ≤ numPages ∧ ∀ entry ∈
    answeringEntry (usableEntries entries) s.regions (numPages * pageSize % 2 ^ 64), _))

/-! ## The region of an entry -/

/-- Where the region of an entry begins, and that it stays what it is: it ends with its entry; if the entry is sane,
    the cursor is on a page boundary inside the entry, past the first page, and ahead of all that was granted. -/
structure RegionOf (kernelEnd : Nat) (granted : List (Nat × Nat)) (entry : MmapEntry) (region : PhysmemRegion) :
    Prop where
  ends : region.regionEnd = add64 entry.addr entry.len
  aligned : SaneEntry kernelEnd entry → region.freeStart % pageSize = 0
  abovePage : SaneEntry kernelEnd entry → pageSize ≤ region.freeStart
  inside : SaneEntry kernelEnd entry → entry.addr ≤ region.freeStart ∧ region.freeStart ≤ entry.addr + entry.len
  behind : SaneEntry kernelEnd entry → Behind (granted.map grantRange) entry.range region.freeStart

/-- The region `load_physmem_regions` makes of a sane entry begins in it. -/
theorem regionOf_physmemRegion (kernelEnd : Nat) (entry : MmapEntry) :
    RegionOf kernelEnd [] entry (physmemRegion (clampUpToPage kernelPhysicalStart) kernelEnd entry) := by
  have hbegin : SaneEntry kernelEnd entry →
      (physmemRegion (clampUpToPage kernelPhysicalStart) kernelEnd entry).freeStart = max entry.addr pageSize := by
    rintro ⟨-, -, hkernel, -⟩
    rw [clampUpToPage_kernelPhysicalStart]
    simp only [physmemRegion, clampUpToPage_kernelPhysicalStart]
    split
    · next hin =>
        -- only an entry that begins with the image is clamped
        have hpage : pageSize < kernelPhysicalStart := by decide
        have haddr : kernelPhysicalStart ≤ entry.addr := (le_max_iff.mp hin.1).resolve_right (not_le.mpr hpage)
        have hwithin : entry.addr ≤ kernelEnd := (le_max_left _ _).trans hin.2
        have heq : entry.addr = kernelPhysicalStart :=
          haddr.antisymm' (not_lt.mp fun hlt => hkernel ⟨hlt, hwithin⟩)
        rw [heq, max_eq_left hpage.le]
    · rfl
  constructor
  · rfl
  · intro hsane
    rw [hbegin hsane]
    rcases hsane.1 with hlow | halign
    · rw [max_eq_right hlow, Nat.mod_self]
    · rcases max_choice entry.addr pageSize with hmax | hmax
      · rw [hmax, halign]
      · rw [hmax, Nat.mod_self]
  · intro hsane
    rw [hbegin hsane]
    exact le_max_right _ _
  · intro hsane
    rw [hbegin hsane]
    exact ⟨le_max_left _ _, max_le (Nat.le_add_right _ _) hsane.2.1⟩
  · intro _
    exact behind_nil

/-! ## One call -/

section

variable {kernelEnd : Nat} {granted : List (Nat × Nat)} {entry : MmapEntry} {region : PhysmemRegion}

/-- What a region of a sane entry has left is what lies between its cursor and the end of its entry. -/
theorem RegionOf.space (h : RegionOf kernelEnd granted entry region) (hsane : SaneEntry kernelEnd entry) {size : Nat}
    (hspace : ¬ sub64 region.regionEnd region.freeStart ≤ size) :
    region.freeStart + size < entry.addr + entry.len := by
  obtain ⟨-, hle⟩ := h.inside hsane
  have hpage := h.abovePage hsane
  have hend := hsane.2.2.2
  rw [h.ends] at hspace
  unfold sub64 add64 at hspace
  omega

/-- The bytes of a grant that the region of a sane entry has room for lie in the entry. -/
theorem RegionOf.grant_subset (h : RegionOf kernelEnd granted entry region) (hsane : SaneEntry kernelEnd entry)
    {numPages : Nat} (hspace : ¬ sub64 region.regionEnd region.freeStart ≤ numPages * pageSize) :
    grantRange (region.freeStart, numPages) ⊆ entry.range := by
  have hlt := h.space hsane hspace
  exact Set.Ico_subset_Ico (h.inside hsane).1 hlt.le

/-- The region that answered is ahead of the new grant too. -/
theorem RegionOf.advance (h : RegionOf kernelEnd granted entry region) (hsane : SaneEntry kernelEnd entry)
    {numPages : Nat} (hspace : ¬ sub64 region.regionEnd region.freeStart ≤ numPages * pageSize) :
    RegionOf kernelEnd ((region.freeStart, numPages) :: granted) entry
      { region with freeStart := add64 region.freeStart (numPages * pageSize) } := by
  have hlt := h.space hsane hspace
  have hend := hsane.2.2.2
  have hnew : add64 region.freeStart (numPages * pageSize) = region.freeStart + numPages * pageSize :=
    add64_of_lt (by omega)
  have hstart := h.inside hsane
  constructor
  · exact h.ends
  · intro _
    show add64 region.freeStart (numPages * pageSize) % pageSize = 0
    rw [hnew, Nat.add_mul_mod_self_right]
    exact h.aligned hsane
  · intro _
    show pageSize ≤ add64 region.freeStart (numPages * pageSize)
    rw [hnew]
    exact Nat.le_add_right_of_le (h.abovePage hsane)
  · intro _
    show _ ≤ add64 region.freeStart (numPages * pageSize) ∧ add64 region.freeStart (numPages * pageSize) ≤ _
    rw [hnew]
    exact ⟨Nat.le_add_right_of_le hstart.1, hlt.le⟩
  · intro _
    show Behind _ _ (add64 region.freeStart (numPages * pageSize))
    rw [hnew]
    exact (h.behind hsane).advance (Nat.le_add_right _ _) fun x hx => hx.2

/-- A region elsewhere is not concerned. -/
theorem RegionOf.elsewhere (h : RegionOf kernelEnd granted entry region) {grant : Nat × Nat}
    (hout : Disjoint (grantRange grant) entry.range) : RegionOf kernelEnd (grant :: granted) entry region where
  ends := h.ends
  aligned := h.aligned
  abovePage := h.abovePage
  inside := h.inside
  behind hsane := (h.behind hsane).elsewhere hout

end

section

variable {kernelEnd : Nat} {granted : List (Nat × Nat)}

/-- A request that no region answers returns `NULL` and changes nothing. -/
theorem reserveFrom_none {entries : List MmapEntry} {regions : List PhysmemRegion} {size : Nat}
    (h : List.Forall₂ (RegionOf kernelEnd granted) entries regions)
    (hnone : answeringEntry entries regions size = none) : reserveFrom regions size = (0, regions) := by
  induction h with
  | nil => rfl
  | @cons entry region entries regions hregion hrest ih =>
      unfold answeringEntry at hnone
      unfold reserveFrom
      split at hnone
      · next hfull => rw [if_pos hfull, ih hnone]
      · cases hnone

/-- Regions none of whose entries meets the grant are not concerned. -/
theorem forall₂_elsewhere {entries : List MmapEntry} {regions : List PhysmemRegion} {grant : Nat × Nat}
    (h : List.Forall₂ (RegionOf kernelEnd granted) entries regions)
    (hout : ∀ entry ∈ entries, Disjoint (grantRange grant) entry.range) :
    List.Forall₂ (RegionOf kernelEnd (grant :: granted)) entries regions := by
  induction h with
  | nil => exact .nil
  | cons hregion _ ih =>
      have hrest := ih fun entry hentry => hout entry (List.mem_cons_of_mem _ hentry)
      exact .cons (hregion.elsewhere (hout _ List.mem_cons_self)) hrest

/-- **A request that is answered for a sane entry** gets the cursor of the entry's region; every region keeps its
    relation to its entry. The induction is on the regions the walk passes. -/
theorem reserveFrom_some {entries : List MmapEntry} {regions : List PhysmemRegion} {numPages : Nat} {entry : MmapEntry}
    (h : List.Forall₂ (RegionOf kernelEnd granted) entries regions)
    (hapart : entries.Pairwise fun e e' => Disjoint e.range e'.range)
    (hanswer : answeringEntry entries regions (numPages * pageSize) = some entry) (hsane : SaneEntry kernelEnd entry) :
    ∃ region, entry ∈ entries ∧ RegionOf kernelEnd granted entry region ∧
      ¬ sub64 region.regionEnd region.freeStart ≤ numPages * pageSize ∧
      (reserveFrom regions (numPages * pageSize)).1 = region.freeStart ∧
      List.Forall₂ (RegionOf kernelEnd ((region.freeStart, numPages) :: granted)) entries
        (reserveFrom regions (numPages * pageSize)).2 := by
  induction h with
  | nil => cases hanswer
  | @cons head region entries regions hregion hrest ih =>
      obtain ⟨hhead, hapart⟩ := List.pairwise_cons.mp hapart
      unfold answeringEntry at hanswer
      unfold reserveFrom
      split at hanswer
      · next hfull =>
          obtain ⟨answering, hmem, hof, hspace, hstart, hregions⟩ := ih hapart hanswer
          rw [if_pos hfull]
          -- the region passed over belongs to another entry
          have hout : Disjoint (grantRange (answering.freeStart, numPages)) head.range :=
            ((hhead entry hmem).symm.mono_left (hof.grant_subset hsane hspace))
          exact ⟨answering, List.mem_cons_of_mem _ hmem, hof, hspace, hstart, .cons (hregion.elsewhere hout) hregions⟩
      · next hspace =>
          obtain rfl := Option.some.inj hanswer
          rw [if_neg hspace]
          have hin := hregion.grant_subset hsane hspace
          refine ⟨region, List.mem_cons_self, hregion, hspace, rfl, .cons (hregion.advance hsane hspace) ?_⟩
          have hothers : ∀ e ∈ entries, Disjoint (grantRange (region.freeStart, numPages)) e.range :=
            fun e he => (hhead e he).mono_left hin
          exact forall₂_elsewhere hrest hothers

end

/-! ## Runs -/

/-- The invariant of a run: every region is that of its entry, with no region at all made into one empty region, and
    what was granted is sound. -/
structure ReservationsInv (kernelEnd : Nat) (entries : List MmapEntry) (s : Reservations) : Prop where
  regions : List.Forall₂ (RegionOf kernelEnd s.granted) (usableEntries entries) s.regions ∨
    usableEntries entries = [] ∧ s.regions = [⟨0, 0⟩]
  sound : ReservationsSound entries s.granted

theorem reservationsInv_boot (kernelEnd : Nat) (entries : List MmapEntry) :
    ReservationsInv kernelEnd entries (bootReservations kernelEnd entries) := by
  refine ⟨?_, ⟨by simp [bootReservations], by simp [bootReservations], .nil, by simp [bootReservations]⟩⟩
  by_cases hempty : usableEntries entries = []
  · exact .inr ⟨hempty, loadPhysmemRegions_of_none hempty⟩
  · left
    have hregions : (bootReservations kernelEnd entries).regions =
        (usableEntries entries).map (physmemRegion (clampUpToPage kernelPhysicalStart) kernelEnd) :=
      loadPhysmemRegions_of_usable hempty
    rw [hregions]
    refine List.forall₂_map_right_iff.mpr (List.forall₂_same.mpr ?_)
    intro entry _
    exact regionOf_physmemRegion kernelEnd entry

/-- Without a region that answers the call leaves the state. -/
theorem reserveStep_none {kernelEnd : Nat} {entries : List MmapEntry} {s : Reservations} {numPages : Nat}
    (h : ReservationsInv kernelEnd entries s)
    (hnone : answeringEntry (usableEntries entries) s.regions (numPages * pageSize % 2 ^ 64) = none) :
    reserveStep s numPages = .ok s := by
  have hnull : reservePhysmemRegion s.regions numPages = (0, s.regions) := by
    unfold reservePhysmemRegion
    rcases h.regions with hregions | ⟨-, hzero⟩
    · exact reserveFrom_none hregions hnone
    · rw [hzero]
      simp [reserveFrom, sub64]
  unfold reserveStep
  rw [hnull]
  rfl

/-- **Every safe call keeps the invariant.** -/
theorem reservationsInv_step {kernelEnd : Nat} {entries : List MmapEntry}
    (hapart : entries.Pairwise fun e e' => Disjoint e.range e'.range) {s s' : Reservations} {numPages : Nat}
    (h : ReservationsInv kernelEnd entries s) (hsafe : SafeCall kernelEnd entries s numPages)
    (hstep : reserveStep s numPages = .ok s') : ReservationsInv kernelEnd entries s' := by
  obtain ⟨-, hanswered⟩ := hsafe
  cases hanswer : answeringEntry (usableEntries entries) s.regions (numPages * pageSize % 2 ^ 64) with
  | none =>
      rw [reserveStep_none h hanswer] at hstep
      cases hstep
      exact h
  | some entry =>
      obtain ⟨hword, hsane⟩ := hanswered entry hanswer
      rw [Nat.mod_eq_of_lt hword] at hanswer
      have hregions : List.Forall₂ (RegionOf kernelEnd s.granted) (usableEntries entries) s.regions := by
        rcases h.regions with hregions | ⟨hempty, -⟩
        · exact hregions
        · rw [hempty] at hanswer
          cases hanswer
      have hapart' : (usableEntries entries).Pairwise fun e e' => Disjoint e.range e'.range :=
        hapart.sublist List.filter_sublist
      obtain ⟨region, hmem, hof, hspace, hstart, hkept⟩ := reserveFrom_some hregions hapart' hanswer hsane
      have hpage := hof.abovePage hsane
      have hne : region.freeStart ≠ 0 := (Nat.lt_of_lt_of_le (by decide) hpage).ne'
      have hin := hof.grant_subset hsane hspace
      obtain ⟨hentry, htype⟩ := List.mem_filter.mp hmem
      have hs' : s' = ⟨(reserveFrom s.regions (numPages * pageSize)).2, (region.freeStart, numPages) :: s.granted⟩ := by
        unfold reserveStep reservePhysmemRegion at hstep
        rw [Nat.mod_eq_of_lt hword] at hstep
        simp only [hstart, if_neg hne] at hstep
        exact (Except.ok.inj hstep).symm
      subst hs'
      refine ⟨.inl hkept, ⟨?_, ?_, ?_, ?_⟩⟩
      · exact List.forall_mem_cons.mpr ⟨hof.aligned hsane, h.sound.aligned⟩
      · exact List.forall_mem_cons.mpr ⟨hpage, h.sound.abovePage⟩
      · refine List.pairwise_cons.mpr ⟨?_, h.sound.disjoint⟩
        intro old hold
        exact (hof.behind hsane).apart hin (fun x hx => hx.1) _ (List.mem_map_of_mem hold)
      · exact List.forall_mem_cons.mpr ⟨⟨entry, hentry, of_decide_eq_true htype, hin⟩, h.sound.contained⟩

/-- **Early reservations are sound** in every run whose calls are answered, if at all, for sane entries. -/
theorem reservations_sound {kernelEnd : Nat} {entries : List MmapEntry}
    (hapart : entries.Pairwise fun e e' => Disjoint e.range e'.range) {s : Reservations}
    (h : Run.Reaches reserveStep (SafeCall kernelEnd entries) (bootReservations kernelEnd entries) s) :
    ReservationsSound entries s.granted := by
  have hinv := h.invariant (ReservationsInv kernelEnd entries) (reservationsInv_boot kernelEnd entries)
    fun s numPages s' => reservationsInv_step hapart
  exact hinv.sound

/-- Three reservations on the map of a small virtual machine: the second is too large for the memory below 1MB. -/
theorem reservations_sound_three_calls :
    ∃ s, Run.Reaches reserveStep
        (SafeCall 0x1200000 [⟨0, 0x9fc00, 1⟩, ⟨0xf0000, 0x10000, 2⟩, ⟨0x100000, 0x7ee0000, 1⟩])
        (bootReservations 0x1200000 [⟨0, 0x9fc00, 1⟩, ⟨0xf0000, 0x10000, 2⟩, ⟨0x100000, 0x7ee0000, 1⟩]) s ∧
      s.granted = [(0x3000, 1), (0x100000, 0x200), (0x1000, 2)] ∧
      ReservationsSound [⟨0, 0x9fc00, 1⟩, ⟨0xf0000, 0x10000, 2⟩, ⟨0x100000, 0x7ee0000, 1⟩] s.granted := by
  have hrun : Run.Reaches reserveStep
      (SafeCall 0x1200000 [⟨0, 0x9fc00, 1⟩, ⟨0xf0000, 0x10000, 2⟩, ⟨0x100000, 0x7ee0000, 1⟩])
      (bootReservations 0x1200000 [⟨0, 0x9fc00, 1⟩, ⟨0xf0000, 0x10000, 2⟩, ⟨0x100000, 0x7ee0000, 1⟩])
      ⟨[⟨0x4000, 0x9fc00⟩, ⟨0x300000, 0x7fe0000⟩], [(0x3000, 1), (0x100000, 0x200), (0x1000, 2)]⟩ :=
    ((Run.Reaches.refl.tail (a := 2) (by decide) rfl).tail (a := 0x200) (by decide) rfl).tail
      (a := 1) (by decide) rfl
  refine ⟨_, hrun, rfl, reservations_sound ?_ hrun⟩
  simp [MmapEntry.range, Set.Ico_disjoint_Ico]

/-- The one usable entry of the map begins at 0x1800: so does the first reservation. -/
theorem reservation_unaligned :
    ¬ ∀ (kernelEnd : Nat) (entries : List MmapEntry),
      entries.Pairwise (fun e e' => Disjoint e.range e'.range) →
      ∀ s, Run.Reaches reserveStep (fun _ numPages => 1 ≤ numPages) (bootReservations kernelEnd entries) s →
        ReservationsSound entries s.granted := by
  intro h
  have hrun : Run.Reaches reserveStep (fun _ numPages => 1 ≤ numPages) (bootReservations 0x1200000 [⟨0x1800, 0x10000, 1⟩])
      ⟨[⟨0x2800, 0x11800⟩], [(0x1800, 1)]⟩ := Run.Reaches.refl.tail (a := 1) (le_refl 1) rfl
  have hsound := h 0x1200000 [⟨0x1800, 0x10000, 1⟩] (List.pairwise_singleton _ _) _ hrun
  exact absurd (hsound.aligned _ List.mem_cons_self) (by decide)

end LearningOS
