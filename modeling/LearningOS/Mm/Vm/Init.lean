import LearningOS.Mm.Vm.Blocks

/-!
# `Mm.Vm.Init` — the address space after `vm_init`

`vmspace_init` finds the table of `KERNEL_SENSITIVE_MEM` in the boot tables, makes that of `KERNEL_NORMAL_MEM`, and
gives every zone a page directory and a page table. `SpaceReady` says what that amounts to: the tables form a tree,
all entries on the way to a page allow writing, the only page tables are those of the first pages of the zones, and
their entries are links in the block zones and 0 elsewhere. `vmInit_ready` is proved zone by zone.
-/

namespace LearningOS.Paging

open Word Run Radix

/-! ## Where the zones start -/

/-- The position of the first page table of a zone. -/
def tableOf (z : Zone) : Nat := (vmzoneInit z).startAddress / 4096 / 512

/-- The position of the first page directory of a zone. -/
def dirOf (z : Zone) : Nat := tableOf z / 512

theorem dirOf_injective {z z' : Zone} (h : dirOf z = dirOf z') : z = z' := by
  revert h
  cases z <;> cases z' <;> decide

theorem own_tableOf (z : Zone) : Own 3 (tableOf z) := by
  cases z <;> decide

theorem own_dirOf (z : Zone) : Own 2 (dirOf z) := own_positions.up 2 _ (own_tableOf z)

theorem tableOf_mod (z : Zone) : tableOf z % 512 = 0 := by
  cases z <;> decide

/-- The entry of a page in the first page table of an initialised block zone is a link; all others are 0. -/
def initialEntry (ready : List Zone) (v : Nat) : PtEntry :=
  if ∃ z ∈ ready, (vmzoneInit z).flags.blockAlloc = true ∧ v / 512 = tableOf z ∧ v % 2 = 0 then preparedEntry
  else .zero

theorem initialEntry_cons (ready : List Zone) (z : Zone) (v : Nat) :
    initialEntry (z :: ready) v =
      if v / 512 = tableOf z then
        if (vmzoneInit z).flags.blockAlloc = true ∧ v % 2 = 0 then preparedEntry else .zero
      else initialEntry ready v := by
  unfold initialEntry
  by_cases hv : v / 512 = tableOf z
  · rw [if_pos hv]
    have hiff : (∃ z' ∈ z :: ready, (vmzoneInit z').flags.blockAlloc = true ∧ v / 512 = tableOf z' ∧ v % 2 = 0) ↔
        (vmzoneInit z).flags.blockAlloc = true ∧ v % 2 = 0 := by
      constructor
      · rintro ⟨z', -, hblock, hv', heven⟩
        obtain rfl : z = z' := dirOf_injective (by unfold dirOf; rw [← hv, hv'])
        exact ⟨hblock, heven⟩
      · exact fun h => ⟨z, List.mem_cons_self, h.1, hv, h.2⟩
    simp only [hiff]
  · rw [if_neg hv]
    have hiff : (∃ z' ∈ z :: ready, (vmzoneInit z').flags.blockAlloc = true ∧ v / 512 = tableOf z' ∧ v % 2 = 0) ↔
        ∃ z' ∈ ready, (vmzoneInit z').flags.blockAlloc = true ∧ v / 512 = tableOf z' ∧ v % 2 = 0 := by
      simp [hv]
    simp only [hiff]

/-- A zone that `vmspace_init` is done with. -/
def initializedZone (z : Zone) : VmZone :=
  { vmzoneInit z with flags := { (vmzoneInit z).flags with initialized := true } }

/-- The address space with some of the zones initialised. -/
structure SpaceReady (vm : VmSpace) (ready : List Zone) : Prop where
  ok : TreeOk vm
  writable : AllWritable vm
  pdpts : ∀ p, Own 1 p → nodeOf vm 1 p ≠ none
  /-- Where a page directory is missing there is nothing but metadata in the entry. -/
  blank : ∀ p f, Own 2 p → nodeOf vm 1 (p / 512) = some f → nodeOf vm 2 p = none → (vm.tables f (p % 512)).addr = 0
  dirs : ∀ p, Own 2 p → nodeOf vm 2 p ≠ none → ∃ z ∈ ready, p = dirOf z
  tables : ∀ t, Own 3 t → (leafTable vm t ≠ none ↔ ∃ z ∈ ready, t = tableOf z)
  entries : ∀ v, OwnPage v → (leaf vm v).core = initialEntry ready v
  zones : ∀ z, vm.zones z = if z ∈ ready then initializedZone z else vmzoneInit z
  calls : vm.calls = []

/-! ## The boot tables -/

section Boot

variable {pageTablesBegin : Nat} {frames : List Nat}

/-- The boot tables have one table of the kernel zones besides the top one. -/
theorem nodeOf_boot {d p : Nat} (hp : Own d p) :
    nodeOf (.boot pageTablesBegin frames) d p =
      if d = 0 then some pageTablesBegin
      else if d = 1 ∧ p = 0x1FFFFFF then some (pageTablesBegin + 0x3000) else none := by
  have h1 : ∀ p, Own 1 p → nodeOf (.boot pageTablesBegin frames) 1 p =
      if p = 0x1FFFFFF then some (pageTablesBegin + 0x3000) else none := by
    intro p hp
    have hp : 0x1FFFFFE ≤ p ∧ p ≤ 0x1FFFFFF := hp
    show childOf (bootTables pageTablesBegin pageTablesBegin (p % 512)) = _
    by_cases hlast : p = 0x1FFFFFF
    · subst hlast
      simp [bootTables, childOf]
    · have hmod : p % 512 = 510 := by omega
      rw [hmod, if_neg hlast]
      simp [bootTables, childOf, PtEntry.zero]
  have h2 : ∀ p, Own 2 p → nodeOf (.boot pageTablesBegin frames) 2 p = none := by
    intro p hp
    have hup := own_positions.up 1 p hp
    have hp : 0x3FFFFFC00 ≤ p ∧ p < 0x3FFFFFFFE := hp
    rw [nodeOf_succ, h1 _ hup]
    by_cases hlast : p / 512 = 0x1FFFFFF
    · rw [if_pos hlast]
      show childOf (bootTables pageTablesBegin (pageTablesBegin + 0x3000) (p % 512)) = none
      have hne : p % 512 ≠ 510 ∧ p % 512 ≠ 511 := by omega
      simp [bootTables, childOf, PtEntry.zero, hne.1, hne.2]
    · rw [if_neg hlast]
      rfl
  rcases d with _ | _ | _ | _ | d
  · rfl
  · refine (h1 p hp).trans ?_
    by_cases hlast : p = 0x1FFFFFF
    · rw [if_pos hlast, if_neg (by decide), if_pos ⟨rfl, hlast⟩]
    · rw [if_neg hlast, if_neg (by decide), if_neg (fun h => hlast h.2)]
  · refine (h2 p hp).trans ?_
    rw [if_neg (by decide), if_neg (by omega)]
  · rw [nodeOf_succ, h2 _ (own_positions.up 2 p hp), if_neg (by omega), if_neg (by omega)]
    rfl
  · exact hp.elim

theorem treeOk_boot : TreeOk (.boot pageTablesBegin frames) := by
  constructor
  · intro d p d' p' f hp hp' h h'
    have h := (nodeOf_boot hp).symm.trans h
    have h' := (nodeOf_boot hp').symm.trans h'
    have hzero : ∀ p, Own 0 p → p = 0xFFFF := fun _ h => h
    split at h
    · rename_i hd
      split at h'
      · rename_i hd'
        subst hd
        subst hd'
        exact ⟨rfl, (hzero p hp).trans (hzero p' hp').symm⟩
      · split at h'
        · cases h
          cases h'
        · cases h'
    · split at h
      · rename_i hd
        split at h'
        · cases h
          cases h'
        · split at h'
          · rename_i hd'
            exact ⟨hd.1.trans hd'.1.symm, hd.2.trans hd'.2.symm⟩
          · cases h'
      · cases h
  · intro d p f hp h
    rw [nodeOf_boot hp] at h
    show f ∈ (List.range 6).map (fun k => pageTablesBegin + k * 0x1000)
    split at h
    · cases h
      exact List.mem_map.mpr ⟨0, by decide, by simp⟩
    · split at h
      · cases h
        exact List.mem_map.mpr ⟨3, by decide, by simp⟩
      · cases h

theorem bootTables_zero {i : Nat} (hi : i < 510) :
    bootTables pageTablesBegin (pageTablesBegin + 0x3000) i = .zero := by
  have hne : i ≠ 510 ∧ i ≠ 511 := by omega
  simp [bootTables, hne.1, hne.2]

/-- Every entry of the boot tables that is present allows writing. -/
theorem bootTables_writable (table i : Nat) :
    (bootTables pageTablesBegin table i).writable = (bootTables pageTablesBegin table i).present := by
  unfold bootTables
  dsimp only
  repeat' split
  all_goals rfl

theorem allWritable_boot : AllWritable (.boot pageTablesBegin frames) :=
  fun _ p f _ _ hpresent => (bootTables_writable f (p % 512)).trans hpresent

/-- The flags of the link `vmspace_init` makes in the top table, with those of the new table. -/
def pdptEntry (pdpt : Nat) : PtEntry := vmPtEntryCreate pdpt { allowExec := true, allowWrite := true }

/-- The address space with both tables below the top one. -/
def withPdpts (pageTablesBegin n : Nat) (rest : List Nat) : VmSpace :=
  { linked (.boot pageTablesBegin (n :: rest)) n rest (newTable { allocEarly := true } 0 1) pageTablesBegin
      (0x1FFFFFE % 512) (PtEntry.zero.or (pdptEntry n)) with
    sensitiveMemPdpt := some (pageTablesBegin + 0x3000), normalMemPdpt := some n }

theorem linkable_pdpt {n : Nat} {rest : List Nat} (hn : PageAddr n)
    (hnew : n ∉ (List.range 6).map (fun k => pageTablesBegin + k * 0x1000)) :
    Linkable (.boot pageTablesBegin (n :: rest)) n (newTable { allocEarly := true } 0 1) 0 0x1FFFFFE pageTablesBegin
      (PtEntry.zero.or (pdptEntry n)) where
  ok := treeOk_boot
  unused := hnew
  blank := present_newTable _ 0 1
  own := by decide
  parent := rfl
  empty := by
    show childOf (bootTables pageTablesBegin pageTablesBegin 510) = none
    simp [bootTables, childOf, PtEntry.zero]
  points := by
    have haddr : (PtEntry.zero.or (pdptEntry n)).addr = n := by
      show 0 ||| (n &&& PtEntry.addrMask) = n
      rw [Nat.zero_or, hn.and_addrMask]
    rw [childOf, haddr, if_pos]
    rfl

theorem newTable_addr (flags : VmFlags) (i n j : Nat) : (newTable flags i n j).addr = 0 := by
  have h := congrArg PtEntry.addr (newTable_core flags i n j)
  exact h

/-- Before the loop over the zones there is no page directory yet. -/
theorem spaceReady_pdpts {n : Nat} {rest : List Nat} (hn : PageAddr n)
    (hnew : n ∉ (List.range 6).map (fun k => pageTablesBegin + k * 0x1000)) :
    SpaceReady (withPdpts pageTablesBegin n rest) [] := by
  have hl := @linkable_pdpt pageTablesBegin n rest hn hnew
  have hnode : ∀ d p, Own d p → nodeOf (withPdpts pageTablesBegin n rest) d p =
      if d = 0 then some pageTablesBegin
      else if d = 1 then (if p = 0x1FFFFFE then some n else some (pageTablesBegin + 0x3000)) else none := by
    intro d p hp
    refine (hl.nodeOf_eq hp).trans ?_
    rw [nodeOf_boot hp]
    by_cases hd0 : d = 0
    · rw [if_pos hd0, if_neg (by omega), if_pos hd0]
    · rw [if_neg hd0, if_neg hd0]
      by_cases hd1 : d = 1
      · subst hd1
        have hp : 0x1FFFFFE ≤ p ∧ p ≤ 0x1FFFFFF := hp
        rw [if_pos rfl]
        by_cases hpe : p = 0x1FFFFFE
        · rw [if_pos ⟨rfl, hpe⟩, if_pos hpe]
        · rw [if_neg (fun h => hpe h.2), if_pos ⟨rfl, by omega⟩, if_neg hpe]
      · rw [if_neg hd1, if_neg (fun h => hd1 h.1), if_neg (fun h => hd1 h.1)]
  have hdirs : ∀ p, Own 2 p → nodeOf (withPdpts pageTablesBegin n rest) 2 p = none := by
    intro p hp
    rw [hnode 2 p hp, if_neg (by decide), if_neg (by decide)]
  have htables : ∀ t, Own 3 t → leafTable (withPdpts pageTablesBegin n rest) t = none := by
    intro t ht
    refine (hnode 3 t ht).trans ?_
    rw [if_neg (by decide), if_neg (by decide)]
  refine ⟨⟨hl.treeOk.separate, hl.treeOk.made⟩, hl.allWritable allWritable_boot rfl, fun p hp => ?_,
    fun p f hp hf _ => ?_, fun p hp hne => absurd (hdirs p hp) hne, fun t ht => ?_, fun v hv => ?_, fun z => rfl, rfl⟩
  · rw [hnode 1 p hp, if_neg (by decide), if_pos rfl]
    split <;> exact Option.some_ne_none _
  · rw [hnode 1 _ (own_positions.up 1 p hp), if_neg (by decide), if_pos rfl] at hf
    by_cases hpe : p / 512 = 0x1FFFFFE
    · rw [if_pos hpe] at hf
      cases hf
      have hcontent : (withPdpts pageTablesBegin n rest).tables n = newTable { allocEarly := true } 0 1 :=
        hl.tables_new
      rw [hcontent]
      exact newTable_addr _ _ _ _
    · rw [if_neg hpe] at hf
      cases hf
      have hne : pageTablesBegin + 0x3000 ≠ n := fun he =>
        hnew (List.mem_map.mpr ⟨3, by decide, by rw [← he]⟩)
      have hsame : (withPdpts pageTablesBegin n rest).tables (pageTablesBegin + 0x3000) =
          bootTables pageTablesBegin (pageTablesBegin + 0x3000) :=
        Linkable.tables_eq (by omega) hne
      have hp : 0x3FFFFFC00 ≤ p ∧ p < 0x3FFFFFFFE := hp
      have hup : 0x1FFFFFE ≤ p / 512 ∧ p / 512 ≤ 0x1FFFFFF := own_positions.up 1 p hp
      rw [hsame, bootTables_zero (by omega)]
      rfl
  · rw [htables t ht]
    simp
  · rw [leaf_of_missing (htables _ hv)]
    rfl

/-- **`vmspace_init` up to its loop over the zones.** -/
theorem vmInit_eq {n : Nat} {rest : List Nat}
    (hnew : n ∉ (List.range 6).map (fun k => pageTablesBegin + k * 0x1000)) :
    vmInit pageTablesBegin (n :: rest) =
      initZones { allocEarly := true } [.kernelHeap, .kernelStack, .userShared, .kernelSlab, .buddyMem]
        (withPdpts pageTablesBegin n rest) := by
  have hpb : pageTablesBegin ≠ n := fun he => hnew (List.mem_map.mpr ⟨0, by decide, by rw [← he]; omega⟩)
  have hpb3 : pageTablesBegin + 0x3000 ≠ n := fun he => hnew (List.mem_map.mpr ⟨3, by decide, by rw [← he]⟩)
  have hsens : (VmSpace.boot pageTablesBegin (n :: rest)).tables pageTablesBegin 511 =
      { present := true, writable := true, addr := pageTablesBegin + 0x3000 } := by
    show bootTables pageTablesBegin pageTablesBegin 511 = _
    simp [bootTables]
  have hnorm : bootTables pageTablesBegin pageTablesBegin 510 = .zero := by simp [bootTables]
  have h1 : initPdpt (.boot pageTablesBegin (n :: rest)) (heightOffset kernelSensitiveMem 3) none
      { allocEarly := true } = .ok (pageTablesBegin + 0x3000, .boot pageTablesBegin (n :: rest)) := by
    have hoff : heightOffset kernelSensitiveMem 3 = 511 := by decide
    rw [hoff]
    unfold initPdpt
    have hroot : (VmSpace.boot pageTablesBegin (n :: rest)).pml4t = pageTablesBegin := rfl
    simp only [hroot, hsens, if_true]
  have h2 : initPdpt { VmSpace.boot pageTablesBegin (n :: rest) with
        sensitiveMemPdpt := some (pageTablesBegin + 0x3000) } (heightOffset kernelNormalMem 3) none
      { allocEarly := true } =
      .ok (n, { withPdpts pageTablesBegin n rest with normalMemPdpt := none }) := by
    have hoff : heightOffset kernelNormalMem 3 = 510 := by decide
    rw [hoff]
    unfold initPdpt
    have hz : ({ VmSpace.boot pageTablesBegin (n :: rest) with
        sensitiveMemPdpt := some (pageTablesBegin + 0x3000) } : VmSpace).tables pageTablesBegin 510 = .zero := hnorm
    have hz' : Function.update (bootTables pageTablesBegin) n (newTable { allocEarly := true } 0 1) pageTablesBegin
        510 = .zero := by
      rw [Function.update_of_ne hpb, hnorm]
    rw [allocPageTables_one _ rfl]
    simp only [VmSpace.boot, hnorm, PtEntry.zero, VmSpace.withTable, VmFlags.earlyOnly] at hz' ⊢
    simp [hz', withPdpts, linked, VmSpace.withTable, VmSpace.store, VmSpace.boot, pdptEntry, PtEntry.zero]
  have h3 : initKernelMapping { allocEarly := true } (pageTablesBegin + 0x3000) (withPdpts pageTablesBegin n rest) =
      .ok (withPdpts pageTablesBegin n rest) := by
    have hsame : (withPdpts pageTablesBegin n rest).tables (pageTablesBegin + 0x3000) =
        bootTables pageTablesBegin (pageTablesBegin + 0x3000) :=
      Linkable.tables_eq (by omega) hpb3
    unfold initKernelMapping
    rw [hsame, if_pos]
    simp [bootTables]
  unfold vmInit vmspaceInit
  rw [show (VmSpace.boot pageTablesBegin (n :: rest)).sensitiveMemPdpt = none from rfl, h1, ok_bind]
  show initPdpt _ _ none _ >>= _ = _
  rw [h2, ok_bind]
  show initKernelMapping _ _ (withPdpts pageTablesBegin n rest) >>= _ = _
  rw [h3, ok_bind]

end Boot


/-! ## One zone -/

section InitZone

variable {vm : VmSpace} {ready : List Zone} {z : Zone} {flags : VmFlags} {pdt : Nat} {rest : List Nat}

/-- The first page table of a zone. -/
def zoneTable (z : Zone) (flags : VmFlags) : Nat → PtEntry :=
  if (vmzoneInit z).flags.blockAlloc then preparedTable (newTable flags.earlyOnly 1 2)
  else newTable flags.earlyOnly 1 2

/-- The entry of the page directory that points to the page table. -/
def zoneTableEntry (z : Zone) (flags : VmFlags) (pt : Nat) : PtEntry :=
  (newTable flags.earlyOnly 0 2 0).or (vmPtEntryCreate pt (vmzoneInit z).vmFlags)

/-- The tables of a zone before they are linked. -/
def zoneTables (vm : VmSpace) (z : Zone) (flags : VmFlags) (pdt : Nat) : Mem Nat PtEntry := fun g =>
  if g = pdt then Function.update (newTable flags.earlyOnly 0 2) 0 (zoneTableEntry z flags (pdt + 4096))
  else if g = pdt + 4096 then zoneTable z flags
  else vm.tables g

/-- The state before the tables of a zone are linked. -/
def beforeLink (vm : VmSpace) (z : Zone) (flags : VmFlags) (pdt : Nat) (rest : List Nat) : VmSpace :=
  { vm with
    tables := zoneTables vm z flags pdt
    frames := rest
    pageTables := pdt :: (pdt + 4096) :: vm.pageTables
    zones := Function.update vm.zones z (initializedZone z) }

/-- The last line of the loop over the zones: the page directory is linked. -/
def linkZone (vm : VmSpace) (z : Zone) (pdt : Nat) : VmSpace :=
  let zonePdpt := (vm.tables vm.pml4t (dirOf z / 512 % 512)).addr
  vm.store zonePdpt (dirOf z % 512)
    ((vm.tables zonePdpt (dirOf z % 512)).or (vmPtEntryCreate pdt (vmzoneInit z).vmFlags))

/-- The body of the loop over the zones makes both tables and links them. -/
theorem initZone_eq (hzone : vm.zones z = vmzoneInit z) (hframes : vm.frames = pdt :: rest) :
    initZone flags vm z = .ok (linkZone (beforeLink vm z flags pdt rest) z pdt) := by
  have hoff2 : heightOffset (vmzoneInit z).startAddress 2 = dirOf z % 512 := by cases z <;> decide
  have hoff3 : heightOffset (vmzoneInit z).startAddress 3 = dirOf z / 512 % 512 := by cases z <;> decide
  have hinit : (vmzoneInit z).flags.initialized = false := by cases z <;> rfl
  have hpt : pdt + 4096 ≠ pdt := by omega
  have halloc : allocPageTables vm 2 flags.earlyOnly = .ok (pdt,
      { vm with
        tables := Function.update (Function.update vm.tables pdt (newTable flags.earlyOnly 0 2)) (pdt + 4096)
          (newTable flags.earlyOnly 1 2)
        frames := rest
        pageTables := pdt :: (pdt + 4096) :: vm.pageTables }) := by
    simp [allocPageTables, hframes, List.range_succ]
  have hdir : Function.update (Function.update vm.tables pdt (newTable flags.earlyOnly 0 2)) (pdt + 4096)
      (newTable flags.earlyOnly 1 2) pdt = newTable flags.earlyOnly 0 2 := by
    rw [Function.update_of_ne hpt.symm, Function.update_self]
  -- The page table as it is after `_prepare_block_pt`, if the zone has blocks.
  have htables : ∀ content, (∀ g, (if g = pdt then Function.update (newTable flags.earlyOnly 0 2) 0
        (zoneTableEntry z flags (pdt + 4096)) else if g = pdt + 4096 then content else vm.tables g) =
      Function.update (Radix.set (Function.update (Function.update vm.tables pdt (newTable flags.earlyOnly 0 2))
        (pdt + 4096) (newTable flags.earlyOnly 1 2)) pdt 0 (zoneTableEntry z flags (pdt + 4096))) (pdt + 4096)
        content g) := by
    intro content g
    by_cases hg : g = pdt + 4096
    · subst hg
      rw [if_neg hpt, if_pos rfl, Function.update_self]
    · rw [if_neg hg, Function.update_of_ne hg]
      unfold Radix.set
      rw [hdir]
      by_cases hg' : g = pdt
      · subst hg'
        rw [if_pos rfl, Function.update_self]
      · rw [if_neg hg', Function.update_of_ne hg', Function.update_of_ne hg, Function.update_of_ne hg']
  have hbefore : (if (vmzoneInit z).flags.blockAlloc = true then
        prepareBlockPt
          { vm with
            tables := Radix.set (Function.update (Function.update vm.tables pdt (newTable flags.earlyOnly 0 2))
              (pdt + 4096) (newTable flags.earlyOnly 1 2)) pdt 0 (zoneTableEntry z flags (pdt + 4096))
            frames := rest
            pageTables := pdt :: (pdt + 4096) :: vm.pageTables
            zones := Function.update vm.zones z (initializedZone z) } (vmzoneInit z) (pdt + 4096)
      else
        { vm with
          tables := Radix.set (Function.update (Function.update vm.tables pdt (newTable flags.earlyOnly 0 2))
            (pdt + 4096) (newTable flags.earlyOnly 1 2)) pdt 0 (zoneTableEntry z flags (pdt + 4096))
          frames := rest
          pageTables := pdt :: (pdt + 4096) :: vm.pageTables
          zones := Function.update vm.zones z (initializedZone z) }) = beforeLink vm z flags pdt rest := by
    have hold : Radix.set (Function.update (Function.update vm.tables pdt (newTable flags.earlyOnly 0 2))
        (pdt + 4096) (newTable flags.earlyOnly 1 2)) pdt 0 (zoneTableEntry z flags (pdt + 4096)) (pdt + 4096) =
        newTable flags.earlyOnly 1 2 := by
      funext i
      rw [set_of_ne_table hpt, Function.update_self]
    unfold beforeLink zoneTables zoneTable
    by_cases hblock : (vmzoneInit z).flags.blockAlloc = true
    · have horder : (vmzoneInit z).blockOrder = 1 := by
        revert hblock
        cases z <;> decide
      simp only [if_pos hblock, prepareBlockPt_tables horder, hold, htables]
    · have hself := Function.update_eq_self (pdt + 4096)
        (Radix.set (Function.update (Function.update vm.tables pdt (newTable flags.earlyOnly 0 2)) (pdt + 4096)
          (newTable flags.earlyOnly 1 2)) pdt 0 (zoneTableEntry z flags (pdt + 4096)))
      rw [hold] at hself
      simp only [if_neg hblock, htables]
      rw [show (fun g => Function.update (Radix.set (Function.update (Function.update vm.tables pdt
        (newTable flags.earlyOnly 0 2)) (pdt + 4096) (newTable flags.earlyOnly 1 2)) pdt 0
        (zoneTableEntry z flags (pdt + 4096))) (pdt + 4096) (newTable flags.earlyOnly 1 2) g) = _ from hself]
  rw [← hbefore]
  have hentry : (Function.update (Function.update vm.tables pdt (newTable flags.earlyOnly 0 2)) (pdt + 4096)
      (newTable flags.earlyOnly 1 2) pdt 0).or (vmPtEntryCreate (pdt + 4096) (vmzoneInit z).vmFlags) =
      zoneTableEntry z flags (pdt + 4096) := by
    rw [hdir]
    rfl
  unfold initZone linkZone
  simp only [hzone, hinit, hoff2, hoff3, Bool.false_eq_true, if_false]
  rw [halloc, ← hentry]
  rfl

theorem zoneTable_core (z : Zone) (flags : VmFlags) {i : Nat} (hi : i < 512) :
    (zoneTable z flags i).core =
      if (vmzoneInit z).flags.blockAlloc = true ∧ i % 2 = 0 then preparedEntry else .zero := by
  have hor : ((newTable flags.earlyOnly 1 2 i).or preparedEntry).core =
      (newTable flags.earlyOnly 1 2 i).core.or preparedEntry := by
    simp [PtEntry.core, PtEntry.or, preparedEntry]
  unfold zoneTable
  by_cases hblock : (vmzoneInit z).flags.blockAlloc = true
  · rw [if_pos hblock]
    unfold preparedTable
    by_cases heven : i % 2 = 0
    · rw [if_pos ⟨heven, by omega⟩, if_pos ⟨hblock, heven⟩, hor, newTable_core]
      rfl
    · rw [if_neg (fun h => heven h.1), if_neg (fun h => heven h.2), newTable_core]
  · rw [if_neg hblock, if_neg (fun h => hblock h.1), newTable_core]

theorem present_zoneTable (z : Zone) (flags : VmFlags) (i : Nat) : (zoneTable z flags i).present = false := by
  unfold zoneTable
  split
  · unfold preparedTable
    split
    · show ((newTable flags.earlyOnly 1 2 i).present || false) = false
      rw [present_newTable]
      rfl
    · exact present_newTable _ _ _ _
  · exact present_newTable _ _ _ _

/-- An entry that held no address, with the link OR-ed in, points to the table. -/
theorem childOf_or_create {e : PtEntry} (he : e.addr = 0) {g : Nat} (hg : PageAddr g) (flags : VmFlags) :
    childOf (e.or (vmPtEntryCreate g flags)) = some g := by
  have haddr : (e.or (vmPtEntryCreate g flags)).addr = g := by
    show e.addr ||| (g &&& PtEntry.addrMask) = g
    rw [he, Nat.zero_or, hg.and_addrMask]
  rw [childOf, haddr, if_pos]
  show (_ || true) = true
  exact Bool.or_true _

/-- The same tables under another log, with other cursors, and with at least the same tables known. -/
theorem TreeOk.congr {vm vm' : VmSpace} (h : TreeOk vm) (htables : vm'.tables = vm.tables)
    (hroot : vm'.pml4t = vm.pml4t) (hmade : ∀ f ∈ vm.pageTables, f ∈ vm'.pageTables) : TreeOk vm' := by
  constructor
  · rw [htables, hroot]
    exact h.separate
  · intro d p f hp hf
    refine hmade f (h.made d p f hp ?_)
    unfold nodeOf at hf ⊢
    rw [← htables, ← hroot]
    exact hf

/-- The two links `vmspace_init` makes for a zone, each in a state where it may be made: the page directory below
    `pdpt`, and the page table below the page directory. -/
structure ZoneLinks (vm : VmSpace) (z : Zone) (flags : VmFlags) (pdt : Nat) (rest : List Nat) (pdpt : Nat)
    (entry : PtEntry) : Prop where
  entry_eq : entry = (vm.tables pdpt (dirOf z % 512)).or (vmPtEntryCreate pdt (vmzoneInit z).vmFlags)
  addr_eq : (vm.tables vm.pml4t (dirOf z / 512 % 512)).addr = pdpt
  unused : pdt + 4096 ∉ vm.pageTables
  dir : Linkable vm pdt (newTable flags.earlyOnly 0 2) 1 (dirOf z) pdpt entry
  table : Linkable (linked vm pdt rest (newTable flags.earlyOnly 0 2) pdpt (dirOf z % 512) entry) (pdt + 4096)
    (zoneTable z flags) 2 (tableOf z) pdt (zoneTableEntry z flags (pdt + 4096))

theorem zoneLinks (h : SpaceReady vm ready) (hz : z ∉ ready) (hpdt : PageAddr pdt) (hpt : PageAddr (pdt + 4096))
    (hnew : pdt ∉ vm.pageTables) (hnew' : pdt + 4096 ∉ vm.pageTables) :
    ∃ pdpt entry, ZoneLinks vm z flags pdt rest pdpt entry := by
  have howndir := own_dirOf z
  have hupdir := own_positions.up 1 _ howndir
  obtain ⟨pdpt, hpdpt⟩ := Option.ne_none_iff_exists'.mp (h.pdpts _ hupdir)
  have hlinkaddr : (vm.tables vm.pml4t (dirOf z / 512 % 512)).addr = pdpt := by
    have hchild : childOf (vm.tables vm.pml4t (dirOf z / 512 % 512)) = some pdpt := hpdpt
    unfold childOf at hchild
    split at hchild
    · exact Option.some.inj hchild
    · cases hchild
  have hmissing : nodeOf vm 2 (dirOf z) = none := by
    by_contra hne
    obtain ⟨z', hz', he⟩ := h.dirs _ howndir hne
    obtain rfl := dirOf_injective he
    exact hz hz'
  have hdir : Linkable vm pdt (newTable flags.earlyOnly 0 2) 1 (dirOf z) pdpt
      ((vm.tables pdpt (dirOf z % 512)).or (vmPtEntryCreate pdt (vmzoneInit z).vmFlags)) := by
    refine ⟨h.ok, hnew, present_newTable _ _ _, howndir, hpdpt, ?_, ?_⟩
    · have hnode := @nodeOf_succ vm 1 (dirOf z)
      rw [hmissing, hpdpt] at hnode
      exact hnode.symm
    · exact childOf_or_create (h.blank _ _ howndir hpdpt hmissing) hpdt _
  refine ⟨pdpt, _, rfl, hlinkaddr, hnew', hdir, hdir.treeOk, ?_, present_zoneTable z flags, own_tableOf z, ?_, ?_, ?_⟩
  · show pdt + 4096 ∉ pdt :: vm.pageTables
    rw [List.mem_cons, not_or]
    exact ⟨by omega, hnew'⟩
  · show nodeOf _ 2 (dirOf z) = _
    rw [hdir.nodeOf_eq howndir, if_pos ⟨rfl, rfl⟩]
  · rw [hdir.tables_new, childOf, present_newTable]
    rfl
  · exact childOf_or_create (newTable_addr _ _ _ _) hpt _

namespace ZoneLinks

variable {pdpt : Nat} {entry : PtEntry} (hl : ZoneLinks vm z flags pdt rest pdpt entry)
include hl

theorem pdpt_mem : pdpt ∈ vm.pageTables := hl.dir.ok.made 1 _ _ hl.dir.up hl.dir.parent

/-- The order in which `vmspace_init` writes the tables of a zone does not matter. -/
theorem tables_eq :
    (linkZone (beforeLink vm z flags pdt rest) z pdt).tables =
      (linked (linked vm pdt rest (newTable flags.earlyOnly 0 2) pdpt (dirOf z % 512) entry) (pdt + 4096) rest
        (zoneTable z flags) pdt (tableOf z % 512) (zoneTableEntry z flags (pdt + 4096))).tables := by
  have hpt : pdt + 4096 ≠ pdt := by omega
  have hp1 : pdpt ≠ pdt := hl.dir.parent_ne
  have hp2 : pdpt ≠ pdt + 4096 := fun he => hl.unused (he ▸ hl.pdpt_mem)
  have hsame : ∀ g ∈ vm.pageTables, zoneTables vm z flags pdt g = vm.tables g := by
    intro g hg
    have h1 : g ≠ pdt := by
      rintro rfl
      exact hl.dir.unused hg
    have h2 : g ≠ pdt + 4096 := by
      rintro rfl
      exact hl.unused hg
    rw [zoneTables, if_neg h1, if_neg h2]
  have hrootmem : vm.pml4t ∈ vm.pageTables := hl.dir.ok.made 0 0xFFFF _ rfl rfl
  show Radix.set (zoneTables vm z flags pdt) (zoneTables vm z flags pdt vm.pml4t (dirOf z / 512 % 512)).addr
    (dirOf z % 512) ((zoneTables vm z flags pdt
      (zoneTables vm z flags pdt vm.pml4t (dirOf z / 512 % 512)).addr (dirOf z % 512)).or
        (vmPtEntryCreate pdt (vmzoneInit z).vmFlags)) = _
  rw [hsame _ hrootmem, hl.addr_eq, hsame _ hl.pdpt_mem, ← hl.entry_eq, tableOf_mod]
  funext g i
  by_cases hg1 : g = pdt + 4096
  · subst hg1
    rw [set_of_ne_table hp2.symm, zoneTables, if_neg hpt, if_pos rfl]
    exact (congrFun hl.table.tables_new i).symm
  · by_cases hg2 : g = pdt
    · subst hg2
      rw [set_of_ne_table hp1.symm, zoneTables, if_pos rfl]
      show _ = Radix.set (Function.update
        (linked vm g rest (newTable flags.earlyOnly 0 2) pdpt (dirOf z % 512) entry).tables (g + 4096) _) g 0 _ g i
      by_cases hi : i = 0
      · subst hi
        rw [set_self, Function.update_self]
      · rw [set_of_ne_index hi, Function.update_of_ne hi, Function.update_of_ne hpt.symm]
        exact (congrFun hl.dir.tables_new i).symm
    · rw [Linkable.tables_eq hg2 hg1]
      show Radix.set _ pdpt (dirOf z % 512) entry g i =
        Radix.set (Function.update vm.tables pdt _) pdpt (dirOf z % 512) entry g i
      by_cases hg3 : g = pdpt
      · subst hg3
        by_cases hi : i = dirOf z % 512
        · rw [hi, set_self, set_self]
        · rw [set_of_ne_index hi, set_of_ne_index hi, hsame _ hl.pdpt_mem, Function.update_of_ne hp1]
      · rw [set_of_ne_table hg3, set_of_ne_table hg3, Function.update_of_ne hg2, zoneTables, if_neg hg2,
          if_neg hg1]

/-- Two tables are added. -/
theorem nodeOf_eq {d p : Nat} (hp : Own d p) :
    nodeOf (linkZone (beforeLink vm z flags pdt rest) z pdt) d p =
      if d = 3 ∧ p = tableOf z then some (pdt + 4096)
      else if d = 2 ∧ p = dirOf z then some pdt else nodeOf vm d p := by
  have hsame : nodeOf (linkZone (beforeLink vm z flags pdt rest) z pdt) d p =
      nodeOf (linked (linked vm pdt rest (newTable flags.earlyOnly 0 2) pdpt (dirOf z % 512) entry) (pdt + 4096) rest
        (zoneTable z flags) pdt (tableOf z % 512) (zoneTableEntry z flags (pdt + 4096))) d p := by
    unfold nodeOf
    rw [hl.tables_eq]
    rfl
  rw [hsame, hl.table.nodeOf_eq hp, hl.dir.nodeOf_eq hp]

theorem leafTable_eq {t : Nat} (ht : Own 3 t) :
    leafTable (linkZone (beforeLink vm z flags pdt rest) z pdt) t =
      if t = tableOf z then some (pdt + 4096) else leafTable vm t := by
  refine (hl.nodeOf_eq ht).trans ?_
  by_cases he : t = tableOf z
  · rw [if_pos ⟨rfl, he⟩, if_pos he]
  · rw [if_neg (fun h => he h.2), if_neg (by omega), if_neg he]
    rfl

theorem treeOk : TreeOk (linkZone (beforeLink vm z flags pdt rest) z pdt) := by
  refine hl.table.treeOk.congr hl.tables_eq rfl (fun f hf => ?_)
  have hf : f ∈ (pdt + 4096) :: pdt :: vm.pageTables := hf
  show f ∈ pdt :: (pdt + 4096) :: vm.pageTables
  simp only [List.mem_cons] at hf ⊢
  tauto

theorem allWritable (hw : AllWritable vm) : AllWritable (linkZone (beforeLink vm z flags pdt rest) z pdt) := by
  have hflag : (vmzoneInit z).vmFlags.allowWrite = true := by cases z <;> rfl
  have hcreate : ∀ (e : PtEntry) g, (e.or (vmPtEntryCreate g (vmzoneInit z).vmFlags)).writable = true := by
    intro e g
    show (e.writable || (vmzoneInit z).vmFlags.allowWrite) = true
    rw [hflag, Bool.or_true]
  have hw1 : AllWritable (linked vm pdt rest (newTable flags.earlyOnly 0 2) pdpt (dirOf z % 512) entry) :=
    hl.dir.allWritable hw (by rw [hl.entry_eq]; exact hcreate _ _)
  have hw2 := @Linkable.allWritable _ _ _ _ _ rest _ _ hl.table hw1 (hcreate _ _)
  intro d p f hp hf hpresent
  unfold nodeOf at hf
  rw [hl.tables_eq] at hf hpresent ⊢
  exact hw2 d p f hp hf hpresent

/-- The entries of the pages: those of the new page table, and all others as before. -/
theorem leaf_core {v : Nat} (hv : OwnPage v) (hold : (leaf vm v).core = initialEntry ready v) :
    (leaf (linkZone (beforeLink vm z flags pdt rest) z pdt) v).core = initialEntry (z :: ready) v := by
  rw [initialEntry_cons]
  have htable := hl.leafTable_eq hv
  by_cases hvz : v / 512 = tableOf z
  · rw [if_pos hvz] at htable
    rw [leaf_of_table htable, if_pos hvz, hl.tables_eq, hl.table.tables_new,
      zoneTable_core z flags (Nat.mod_lt _ (by decide)), show v % 512 % 2 = v % 2 by omega]
  · rw [if_neg hvz] at htable
    rw [if_neg hvz, ← hold]
    cases hg : leafTable vm (v / 512) with
    | none => rw [leaf_of_missing (htable.trans hg), leaf_of_missing hg]
    | some g =>
        have hg1 : leafTable (linked vm pdt rest (newTable flags.earlyOnly 0 2) pdpt (dirOf z % 512) entry)
            (v / 512) = some g := by
          refine (hl.dir.nodeOf_eq hv).trans ?_
          rw [if_neg (by omega)]
          exact hg
        rw [leaf_of_table (htable.trans hg), leaf_of_table hg, hl.tables_eq, hl.table.tables_leaf (by omega) hv hg1,
          hl.dir.tables_leaf (by omega) hv hg]

/-- The missing page directories are still blank. -/
theorem blank (h : SpaceReady vm ready) {p f : Nat} (hp : Own 2 p)
    (hf : nodeOf (linkZone (beforeLink vm z flags pdt rest) z pdt) 1 (p / 512) = some f)
    (hnone : nodeOf (linkZone (beforeLink vm z flags pdt rest) z pdt) 2 p = none) :
    ((linkZone (beforeLink vm z flags pdt rest) z pdt).tables f (p % 512)).addr = 0 := by
  have hup := own_positions.up 1 p hp
  rw [hl.nodeOf_eq hup, if_neg (by omega), if_neg (by omega)] at hf
  rw [hl.nodeOf_eq hp, if_neg (by omega)] at hnone
  have hpz : p ≠ dirOf z := by
    rintro rfl
    rw [if_pos ⟨rfl, rfl⟩] at hnone
    cases hnone
  rw [if_neg (fun h => hpz h.2)] at hnone
  have hfmem := h.ok.made 1 _ _ hup hf
  have hf1 : f ≠ pdt := by
    rintro rfl
    exact hl.dir.unused hfmem
  have hf2 : f ≠ pdt + 4096 := by
    rintro rfl
    exact hl.unused hfmem
  rw [hl.tables_eq, Linkable.tables_eq hf1 hf2]
  by_cases hfp : f = pdpt
  · subst hfp
    obtain ⟨-, hdiv⟩ := h.ok.separate _ _ _ _ _ hup hl.dir.up hf hl.dir.parent
    have hmod : p % 512 ≠ dirOf z % 512 := fun he => hpz (by omega)
    show PtEntry.addr (Radix.set (Function.update vm.tables pdt _) f (dirOf z % 512) entry f (p % 512)) = 0
    rw [set_of_ne_index hmod, Function.update_of_ne hf1]
    exact h.blank p f hp hf hnone
  · rw [Linkable.tables_eq hfp hf1]
    exact h.blank p f hp hf hnone

end ZoneLinks

/-- **The loop over the zones, one turn.** -/
theorem initZone_ready (h : SpaceReady vm ready) (hz : z ∉ ready) (hframes : vm.frames = pdt :: rest)
    (hpdt : PageAddr pdt) (hpt : PageAddr (pdt + 4096)) (hnew : pdt ∉ vm.pageTables)
    (hnew' : pdt + 4096 ∉ vm.pageTables) :
    ∃ vm', initZone flags vm z = .ok vm' ∧ SpaceReady vm' (z :: ready) ∧ vm'.frames = rest ∧
      vm'.pageTables = pdt :: (pdt + 4096) :: vm.pageTables := by
  have hzone : vm.zones z = vmzoneInit z := by rw [h.zones z, if_neg hz]
  obtain ⟨pdpt, entry, hl⟩ := @zoneLinks vm ready z flags pdt rest h hz hpdt hpt hnew hnew'
  refine ⟨_, initZone_eq hzone hframes, ?_, rfl, rfl⟩
  refine ⟨hl.treeOk, hl.allWritable h.writable, fun p hp => ?_, fun p f hp hf hnone => hl.blank h hp hf hnone,
    fun p hp hne => ?_, fun t ht => ?_, fun v hv => hl.leaf_core hv (h.entries v hv), fun z' => ?_, h.calls⟩
  · rw [hl.nodeOf_eq hp, if_neg (by omega), if_neg (by omega)]
    exact h.pdpts p hp
  · rw [hl.nodeOf_eq hp, if_neg (by omega)] at hne
    by_cases hpz : p = dirOf z
    · exact ⟨z, List.mem_cons_self, hpz⟩
    · rw [if_neg (fun h => hpz h.2)] at hne
      obtain ⟨z', hz', he⟩ := h.dirs p hp hne
      exact ⟨z', List.mem_cons_of_mem _ hz', he⟩
  · rw [hl.leafTable_eq ht]
    by_cases he : t = tableOf z
    · rw [if_pos he]
      exact ⟨fun _ => ⟨z, List.mem_cons_self, he⟩, fun _ => Option.some_ne_none _⟩
    · rw [if_neg he, h.tables t ht]
      simp [he]
  · show Function.update vm.zones z (initializedZone z) z' = _
    by_cases he : z' = z
    · subst he
      rw [Function.update_self, if_pos List.mem_cons_self]
    · rw [Function.update_of_ne he, h.zones z']
      simp [he]

end InitZone

/-! ## All zones -/

/-- The two tables of a zone. -/
def tablePair (pdt : Nat) : List Nat := [pdt, pdt + 4096]

/-- The loop over the zones. -/
theorem initZones_ready (flags : VmFlags) :
    ∀ (zones : List Zone) (pdts : List Nat) (vm : VmSpace) (ready : List Zone), SpaceReady vm ready →
      zones.Nodup → (∀ z ∈ zones, z ∉ ready) → vm.frames = pdts → pdts.length = zones.length →
      (pdts.flatMap tablePair).Nodup → (∀ f ∈ pdts.flatMap tablePair, f ∉ vm.pageTables ∧ PageAddr f) →
      ∃ vm', initZones flags zones vm = .ok vm' ∧ SpaceReady vm' (zones.reverse ++ ready) ∧
        vm'.frames = [] ∧ ∀ f ∈ vm'.pageTables, f ∈ pdts.flatMap tablePair ∨ f ∈ vm.pageTables := by
  intro zones
  induction zones with
  | nil =>
      intro pdts vm ready h _ _ hframes hlen _ _
      exact ⟨vm, rfl, h, hframes.trans (List.length_eq_zero_iff.mp hlen), fun f hf => Or.inr hf⟩
  | cons z zones ih =>
      intro pdts vm ready h hnodup hnew hframes hlen hpairs hunused
      cases pdts with
      | nil => cases hlen
      | cons pdt pdts =>
          obtain ⟨hz, hnodup⟩ := List.nodup_cons.mp hnodup
          have hflat : (pdt :: pdts).flatMap tablePair = pdt :: (pdt + 4096) :: pdts.flatMap tablePair := rfl
          rw [hflat] at hpairs hunused
          obtain ⟨h1, hpairs⟩ := List.nodup_cons.mp hpairs
          obtain ⟨h2, hpairs⟩ := List.nodup_cons.mp hpairs
          obtain ⟨hnew1, hpdt⟩ := hunused pdt List.mem_cons_self
          obtain ⟨hnew2, hpt⟩ := hunused (pdt + 4096) (List.mem_cons_of_mem _ List.mem_cons_self)
          obtain ⟨vm1, hinit, hready1, hframes1, hmade1⟩ := @initZone_ready vm ready z flags pdt pdts h
            (hnew z List.mem_cons_self) hframes hpdt hpt hnew1 hnew2
          obtain ⟨vm', hrest, hready, hempty, hmade⟩ := ih pdts vm1 (z :: ready) hready1 hnodup
            (fun z' hz' hmem => by
              rcases List.mem_cons.mp hmem with rfl | hmem
              · exact hz hz'
              · exact hnew z' (List.mem_cons_of_mem _ hz') hmem)
            hframes1 (Nat.succ.inj hlen) hpairs (fun f hf => by
              obtain ⟨hf1, hf2⟩ := hunused f (List.mem_cons_of_mem _ (List.mem_cons_of_mem _ hf))
              refine ⟨?_, hf2⟩
              rw [hmade1, List.mem_cons, List.mem_cons, not_or, not_or]
              exact ⟨fun he => h1 (he ▸ List.mem_cons_of_mem _ hf), fun he => h2 (he ▸ hf), hf1⟩)
          refine ⟨vm', ?_, ?_, hempty, fun f hf => ?_⟩
          · show initZone flags vm z >>= _ = _
            rw [hinit]
            exact hrest
          · rw [List.reverse_cons, List.append_assoc]
            exact hready
          · rw [hflat]
            rcases hmade f hf with hf | hf
            · exact Or.inl (List.mem_cons_of_mem _ (List.mem_cons_of_mem _ hf))
            · rw [hmade1] at hf
              rcases List.mem_cons.mp hf with rfl | hf
              · exact Or.inl List.mem_cons_self
              · rcases List.mem_cons.mp hf with rfl | hf
                · exact Or.inl (List.mem_cons_of_mem _ List.mem_cons_self)
                · exact Or.inr hf

/-- The frames `vm_init` gets: one for the table of `KERNEL_NORMAL_MEM` and a pair for each zone, all different and
    none of them a boot table. -/
structure BootFrames (pageTablesBegin : Nat) (n : Nat) (pdts : List Nat) : Prop where
  length : pdts.length = 5
  nodup : (n :: pdts.flatMap tablePair).Nodup
  aligned : ∀ f ∈ n :: pdts.flatMap tablePair, PageAddr f
  unused : ∀ f ∈ n :: pdts.flatMap tablePair, f ∉ (List.range 6).map (fun k => pageTablesBegin + k * 0x1000)

/-- The address space after `vm_init`: all zones are initialised. -/
def BootSpace (vm : VmSpace) : Prop := SpaceReady vm [.buddyMem, .kernelSlab, .userShared, .kernelStack, .kernelHeap]

/-- **`vm_init` succeeds and leaves all zones initialised.** -/
theorem vmInit_ready {pageTablesBegin n : Nat} {pdts : List Nat} (h : BootFrames pageTablesBegin n pdts) :
    ∃ vm, vmInit pageTablesBegin (n :: pdts) = .ok vm ∧ BootSpace vm ∧ vm.frames = [] ∧
      ∀ f ∈ vm.pageTables, f ∈ n :: pdts.flatMap tablePair ∨
        f ∈ (List.range 6).map (fun k => pageTablesBegin + k * 0x1000) := by
  have hn := h.unused n List.mem_cons_self
  obtain ⟨hnmem, hnodup⟩ := List.nodup_cons.mp h.nodup
  have hready := @spaceReady_pdpts pageTablesBegin n pdts (h.aligned n List.mem_cons_self) hn
  obtain ⟨vm, hrun, hspace, hempty, hmade⟩ := initZones_ready { allocEarly := true }
    [.kernelHeap, .kernelStack, .userShared, .kernelSlab, .buddyMem] pdts _ [] hready (by decide) (by simp) rfl
    h.length hnodup (fun f hf => by
      refine ⟨?_, h.aligned f (List.mem_cons_of_mem _ hf)⟩
      show f ∉ n :: (List.range 6).map (fun k => pageTablesBegin + k * 0x1000)
      rw [List.mem_cons, not_or]
      exact ⟨fun he => hnmem (he ▸ hf), h.unused f (List.mem_cons_of_mem _ hf)⟩)
  refine ⟨vm, (vmInit_eq hn).trans hrun, hspace, hempty, fun f hf => ?_⟩
  rcases hmade f hf with hf | hf
  · exact Or.inl (List.mem_cons_of_mem _ hf)
  · rcases List.mem_cons.mp hf with rfl | hf
    · exact Or.inl List.mem_cons_self
    · exact Or.inr hf

namespace BootSpace

variable {vm : VmSpace}

theorem zones (h : BootSpace vm) (z : Zone) : vm.zones z = initializedZone z := by
  have hz := SpaceReady.zones h z
  rw [hz, if_pos]
  cases z <;> decide

/-- No page is mapped. -/
theorem not_present (h : BootSpace vm) {v : Nat} (hv : OwnPage v) : (leaf vm v).present = false := by
  have hcore := SpaceReady.entries h v hv
  show (leaf vm v).core.present = false
  rw [hcore]
  unfold initialEntry
  split <;> rfl

/-- Outside the first page tables of the other zones every block is linked to the next one. -/
theorem nextFree_eq (h : BootSpace vm) {v : Nat} (hv : OwnPage v) (heven : v % 2 = 0)
    (hzone : ∀ z, v / 512 = tableOf z → (vmzoneInit z).flags.blockAlloc = true) :
    nextFree vm v = (v + 2) * 4096 := by
  have hb := ownPage_iff.mp hv
  have hprepared : nextFreeEntry preparedEntry (v * 4096) = (v + 2) * 4096 := by
    show add64 (v * 4096) 8192 = _
    rw [add64_of_lt (by omega)]
    omega
  cases hg : leafTable vm (v / 512) with
  | none => rw [nextFree_of_missing hg, hprepared]
  | some f =>
      have hne : leafTable vm (v / 512) ≠ none := by
        rw [hg]
        exact Option.some_ne_none f
      obtain ⟨z, hz, hvz⟩ := (SpaceReady.tables h _ hv).mp hne
      rw [nextFree_of_table hg, ← leaf_of_table hg, ← hprepared]
      refine nextFreeEntry_core ?_ _
      rw [SpaceReady.entries h v hv, initialEntry, if_pos ⟨z, hz, hzone z hvz, hvz, heven⟩]
      rfl

end BootSpace

end LearningOS.Paging
