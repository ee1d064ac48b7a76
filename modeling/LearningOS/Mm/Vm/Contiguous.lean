import LearningOS.Mm.Vm.Tables

/-!
# `Mm.Vm.Contiguous` — `vmzone_extend` and `vmzone_shrink`

What the two calls do to the map from pages to entries. `vmzone_extend` maps the pages from the cursor on, whatever
page tables they fall into (`vmzoneExtend_spec`). `vmzone_shrink` clears entries of one page table only, that of the
last mapped page: `shrunkPage` is the page of that table whose entry turn `i` clears, and it is the page the turn
should remove as long as no boundary was crossed.
-/

namespace LearningOS.Paging

open Word Run Radix

/-- The value `vmzone_extend` gives to the entry of page `i` of `pages`. -/
def mapPage (e : PtEntry) (i pages : Nat) (flags : VmFlags) (phys : Nat) : PtEntry :=
  mapPhysPage (e.or (dataAllocFlags i pages flags)) phys flags

theorem mapPage_core (e : PtEntry) (i pages : Nat) (flags : VmFlags) (phys : Nat) :
    (mapPage e i pages flags phys).core = mapPage e.core i pages flags phys := by
  unfold mapPage
  rw [mapPhysPage_core, or_dataAllocFlags_core]

/-- The address of a page of the kernel zones does not wrap around. -/
theorem OwnPage.add64_next {v : Nat} (hv : OwnPage v) : add64 (v * 4096) 4096 = (v + 1) * 4096 := by
  have h := ownPage_iff.mp hv
  rw [add64_of_lt (by omega)]
  omega

/-! ## `vmzone_extend` -/

section Extend

variable {pages : Nat} {flags : VmFlags}

/-- The page tables from that of page `v` to that of page `w`. -/
def TablesBetween (v w t : Nat) : Prop := v / 512 ≤ t ∧ t ≤ w / 512

/-- One turn of the loop: store the entry, then go on in the same table or look the next one up. -/
theorem extendLoop_succ (left : Nat) (vm : VmSpace) (f offset phys cursor : Nat) :
    extendLoop pages flags (left + 1) vm (some f) offset phys cursor =
      if offset + 1 ≥ 512 then
        findOrAllocatePt (vm.store f offset (mapPage (vm.tables f offset) (pages - (left + 1)) pages flags phys))
            (add64 cursor 4096) flags >>= fun r =>
          extendLoop pages flags left r.2.2 r.1 0 (add64 phys 4096) (add64 cursor 4096)
      else
        extendLoop pages flags left
          (vm.store f offset (mapPage (vm.tables f offset) (pages - (left + 1)) pages flags phys)) (some f)
          (offset + 1) (add64 phys 4096) (add64 cursor 4096) := rfl

/-- The loop of `vmzone_extend`, with `left` pages to go from page `v` on. -/
theorem extendLoop_spec :
    ∀ left (vm : VmSpace) pt phys v c' vm', left ≤ pages → TreeOk vm → FreshFrames vm →
      (∀ j, j ≤ left → OwnPage (v + j)) → phys + left * 4096 < 2 ^ 64 →
      (∀ f, pt = some f → leafTable vm (v / 512) = some f) →
      extendLoop pages flags left vm pt (v % 512) phys (v * 4096) = .ok (c', vm') →
      c' = (v + left) * 4096 ∧
        Keeps vm vm' (fun w => v ≤ w ∧ w < v + left) (TablesBetween v (v + left)) ∧
        (∀ j, j < left → (leaf vm' (v + j)).core =
          mapPage (leaf vm (v + j)).core (pages - left + j) pages flags (phys + j * 4096)) ∧
        vm'.zones = vm.zones ∧ vm'.calls = vm.calls := by
  intro left
  induction left with
  | zero =>
      intro vm pt phys v c' vm' _ hok hfr _ _ _ hrun
      cases hrun
      exact ⟨rfl, (Keeps.refl hok hfr).mono (fun _ h => h.elim) (fun _ h => h.elim), fun j hj => by omega, rfl, rfl⟩
  | succ left ih =>
      intro vm pt phys v c' vm' hle hok hfr hown hphys hpt hrun
      have hv : OwnPage v := hown 0 (by omega)
      cases pt with
      | none =>
        obtain ⟨f, hf, -⟩ := bind_eq_ok.mp hrun
        cases hf
      | some f =>
        have hf := hpt f rfl
        have hmod : v % 512 < 512 := Nat.mod_lt _ (by decide)
        have hvi : v / 512 * 512 + v % 512 = v := by omega
        have hphys0 : phys + 4096 < 2 ^ 64 := by omega
        have hphys1 : add64 phys 4096 = phys + 4096 := add64_of_lt hphys0
        rw [extendLoop_succ, hv.add64_next, hphys1] at hrun
        have hk1 := keeps_store hok hfr hv hf hmod
          (mapPage (vm.tables f (v % 512)) (pages - (left + 1)) pages flags phys)
        have hleaf1 : leaf (vm.store f (v % 512)
            (mapPage (vm.tables f (v % 512)) (pages - (left + 1)) pages flags phys)) v =
            mapPage (leaf vm v) (pages - (left + 1)) pages flags phys := by
          rw [leaf_store hok hv hf hv hmod, if_pos hvi.symm, leaf_of_table hf]
        have hf1 := hk1.tables _ f hv hf
        revert hk1 hleaf1 hf1 hrun
        generalize hvm1 : vm.store f (v % 512)
          (mapPage (vm.tables f (v % 512)) (pages - (left + 1)) pages flags phys) = vm1
        have hz1 : vm1.zones = vm.zones := by rw [← hvm1]; rfl
        have hc1 : vm1.calls = vm.calls := by rw [← hvm1]; rfl
        intro hrun hk1 hleaf1 hf1
        -- The page table the next turn uses: the same one, or the one that is looked up at the boundary.
        obtain ⟨vm2, pt', hk2, hpt', hz2, hc2, hrun⟩ : ∃ vm2 pt',
            Keeps vm1 vm2 (fun _ => False) (fun t => t = (v + 1) / 512) ∧
            (∀ f, pt' = some f → leafTable vm2 ((v + 1) / 512) = some f) ∧ vm2.zones = vm1.zones ∧
            vm2.calls = vm1.calls ∧
            extendLoop pages flags left vm2 pt' ((v + 1) % 512) (phys + 4096) ((v + 1) * 4096) = .ok (c', vm') := by
          by_cases hcross : v % 512 + 1 ≥ 512
          · rw [if_pos hcross] at hrun
            obtain ⟨⟨pt', n, vm2⟩, hfind, hrun⟩ := bind_eq_ok.mp hrun
            have haddr : (v + 1) * 4096 / 4096 = v + 1 := by omega
            have hown1 : Own 3 ((v + 1) * 4096 / 4096 / 512) := by
              rw [haddr]
              exact hown 1 (by omega)
            obtain ⟨hk2, hpt', hz2, hc2⟩ := findOrAllocatePt_keeps hk1.ok hk1.fresh hown1 hfind
            rw [haddr] at hk2 hpt'
            have hmod0 : (v + 1) % 512 = 0 := by omega
            rw [hmod0]
            exact ⟨vm2, pt', hk2, hpt', hz2, hc2, hrun⟩
          · rw [if_neg hcross] at hrun
            have hmod1 : (v + 1) % 512 = v % 512 + 1 := by omega
            have hdiv1 : (v + 1) / 512 = v / 512 := by omega
            rw [hmod1, hdiv1]
            exact ⟨vm1, some f, (Keeps.refl hk1.ok hk1.fresh).mono (fun _ h => h) (fun _ h => h.elim),
              fun f' hf' => Option.some.inj hf' ▸ hf1, rfl, rfl, hrun⟩
        obtain ⟨hc', hk3, hmapped, hz3, hc3⟩ := ih vm2 pt' (phys + 4096) (v + 1) c' vm' (by omega) hk2.ok hk2.fresh
          (fun j hj => by rw [show v + 1 + j = v + (j + 1) by omega]; exact hown (j + 1) (by omega)) (by omega)
          hpt' hrun
        refine ⟨by rw [hc', show v + 1 + left = v + (left + 1) by omega], ((hk1.trans hk2).trans hk3).mono ?_ ?_, fun j hj => ?_,
          hz3.trans (hz2.trans hz1), hc3.trans (hc2.trans hc1)⟩
        · rintro w ((hw | hw) | hw)
          · omega
          · exact hw.elim
          · omega
        · rintro t ((ht | ht) | ht)
          · exact ht.elim
          · show v / 512 ≤ t ∧ t ≤ (v + (left + 1)) / 512
            omega
          · have ht : (v + 1) / 512 ≤ t ∧ t ≤ (v + 1 + left) / 512 := ht
            show v / 512 ≤ t ∧ t ≤ (v + (left + 1)) / 512
            omega
        · cases j with
          | zero =>
              show (leaf vm' v).core = mapPage (leaf vm v).core (pages - (left + 1)) pages flags phys
              rw [hk3.core v hv (fun h => by omega), hk2.core v hv (fun h => h), hleaf1, mapPage_core]
          | succ j =>
              have hvj : OwnPage (v + (j + 1)) := hown (j + 1) (by omega)
              have hm := hmapped j (by omega)
              rw [show v + 1 + j = v + (j + 1) by omega] at hm
              rw [hm, hk2.core _ hvj (fun h => h), hk1.core _ hvj (fun h => by omega),
                show pages - left + j = pages - (left + 1) + (j + 1) by omega,
                show phys + 4096 + j * 4096 = phys + (j + 1) * 4096 by omega]

/-- **`vmzone_extend` maps the pages at the cursor**, each to its page of the block, and moves the cursor past
    them. -/
theorem vmzoneExtend_spec {vm vm' : VmSpace} {zone : Zone} {phys v : Nat} {r : Option Nat} (hok : TreeOk vm)
    (hfr : FreshFrames vm) (hzone : (vm.zones zone).flags.contiguous = true)
    (hcursor : (vm.zones zone).cursorAddr = v * 4096) (hown : ∀ j, j ≤ pages → OwnPage (v + j))
    (hphys : phys + pages * 4096 < 2 ^ 64) (hrun : vmzoneExtend vm pages flags zone phys = .ok (r, vm')) :
    r = some (v * 4096) ∧
      vm'.zones = Function.update vm.zones zone { vm.zones zone with cursorAddr := (v + pages) * 4096 } ∧
      Keeps vm vm' (fun w => v ≤ w ∧ w < v + pages) (TablesBetween v (v + pages)) ∧
      (∀ j, j < pages →
        (leaf vm' (v + j)).core = mapPage (leaf vm (v + j)).core j pages flags (phys + j * 4096)) ∧
      vm'.calls = vm.calls := by
  unfold vmzoneExtend at hrun
  rw [hzone, hcursor] at hrun
  obtain ⟨⟨pt, n, vm1⟩, hfind, hrun⟩ := bind_eq_ok.mp hrun
  obtain ⟨⟨c', vm2⟩, hloop, hrun⟩ := bind_eq_ok.mp hrun
  have haddr : v * 4096 / 4096 = v := by omega
  have hown0 : Own 3 (v * 4096 / 4096 / 512) := by
    rw [haddr]
    exact hown 0 (Nat.zero_le _)
  obtain ⟨hk1, hpt, hz1, hc1⟩ := findOrAllocatePt_keeps hok hfr hown0 hfind
  rw [haddr] at hk1 hpt
  rw [show ptOffset (v * 4096) = v % 512 by rw [ptOffset_eq, haddr]] at hloop
  obtain ⟨rfl, hk2, hmapped, hz2, hc2⟩ :=
    extendLoop_spec pages vm1 pt phys v c' vm2 (Nat.le_refl _) hk1.ok hk1.fresh hown hphys hpt hloop
  cases hrun
  refine ⟨rfl, ?_, ?_, fun j hj => ?_, hc2.trans hc1⟩
  · show Function.update vm2.zones zone { vm2.zones zone with cursorAddr := (v + pages) * 4096 } = _
    rw [hz2, hz1]
  · refine ((hk1.trans hk2).mono ?_ ?_).of_same_tables rfl rfl rfl rfl
    · rintro w (hw | hw)
      · exact hw.elim
      · exact hw
    · rintro t (ht | ht)
      · show v / 512 ≤ t ∧ t ≤ (v + pages) / 512
        omega
      · exact ht
  · have hm := hmapped j hj
    rw [hk1.core _ (hown j (Nat.le_of_lt hj)) (fun h => h), Nat.sub_self, Nat.zero_add] at hm
    exact hm

end Extend

/-! ## `vmzone_shrink` -/

section Shrink

/-- The state one turn of the first loop leaves, and the pages it counts. -/
def afterTurn (pt : Nat) (s : ShrinkState) : VmSpace × Nat :=
  let entry := { s.vm.tables pt s.nextOffset with present := false }
  let vm1 := s.vm.store pt s.nextOffset entry
  let size := addW 8 s.currentBlockSize 1
  (if !entry.dataBehind then freePhysBlock vm1 entry size else vm1, if !entry.dataBehind then 0 else size)

theorem shrinkTurn_eq (pt : Nat) (s : ShrinkState) :
    shrinkTurn pt s =
      if s.nextOffset = 0 then
        match findPtOrNull (afterTurn pt s).1 (sub64 s.cursor pageSize) with
        | none => .error (.unmapped, (afterTurn pt s).1)
        | some _ => .ok ⟨(afterTurn pt s).1, 511, sub64 s.cursor pageSize, (afterTurn pt s).2⟩
      else .ok ⟨(afterTurn pt s).1, s.nextOffset - 1, sub64 s.cursor pageSize, (afterTurn pt s).2⟩ := rfl

/-- An entry that is no longer present. -/
def PtEntry.cleared (e : PtEntry) : PtEntry := { e with present := false }

theorem afterTurn_behind {pt : Nat} {s : ShrinkState} (h : (s.vm.tables pt s.nextOffset).dataBehind = true) :
    afterTurn pt s =
      (s.vm.store pt s.nextOffset (s.vm.tables pt s.nextOffset).cleared, addW 8 s.currentBlockSize 1) := by
  simp [afterTurn, h, PtEntry.cleared]

theorem afterTurn_start {pt : Nat} {s : ShrinkState} (h : (s.vm.tables pt s.nextOffset).dataBehind = false) :
    afterTurn pt s =
      (freePhysBlock (s.vm.store pt s.nextOffset (s.vm.tables pt s.nextOffset).cleared)
        (s.vm.tables pt s.nextOffset).cleared (addW 8 s.currentBlockSize 1), 0) := by
  simp [afterTurn, h, PtEntry.cleared]

/-- Two states that differ in the log only. -/
structure SameTables (vm vm' : VmSpace) : Prop where
  tables : vm'.tables = vm.tables
  pml4t : vm'.pml4t = vm.pml4t
  frames : vm'.frames = vm.frames
  pageTables : vm'.pageTables = vm.pageTables
  zones : vm'.zones = vm.zones

theorem freePhysBlock_same (vm : VmSpace) (e : PtEntry) (n : Nat) : SameTables vm (freePhysBlock vm e n) := by
  unfold freePhysBlock
  by_cases he : e.dataEarly
  · rw [if_pos he]
    exact ⟨rfl, rfl, rfl, rfl, rfl⟩
  · rw [if_neg he]
    exact ⟨rfl, rfl, rfl, rfl, rfl⟩

theorem shrinkPhysBlock_same (vm : VmSpace) (e : PtEntry) (n m : Nat) :
    SameTables vm (shrinkPhysBlock vm e n m) := by
  unfold shrinkPhysBlock
  by_cases he : e.dataEarly
  · rw [if_pos he]
    exact ⟨rfl, rfl, rfl, rfl, rfl⟩
  · rw [if_neg he]
    exact ⟨rfl, rfl, rfl, rfl, rfl⟩

/-- Apart from the log, a turn is one store. -/
theorem afterTurn_same (pt : Nat) (s : ShrinkState) :
    SameTables (s.vm.store pt s.nextOffset (s.vm.tables pt s.nextOffset).cleared) (afterTurn pt s).1 := by
  cases h : (s.vm.tables pt s.nextOffset).dataBehind with
  | true =>
      rw [afterTurn_behind h]
      exact ⟨rfl, rfl, rfl, rfl, rfl⟩
  | false =>
      rw [afterTurn_start h]
      exact freePhysBlock_same _ _ _

theorem SameTables.leaf_eq {vm vm' : VmSpace} (h : SameTables vm vm') (v : Nat) : leaf vm' v = leaf vm v := by
  unfold leaf leafTable nodeOf
  rw [h.tables, h.pml4t]

theorem SameTables.leafTable_eq {vm vm' : VmSpace} (h : SameTables vm vm') (t : Nat) :
    leafTable vm' t = leafTable vm t := by
  unfold leafTable nodeOf
  rw [h.tables, h.pml4t]

theorem Keeps.of_same {vm vm' vm'' : VmSpace} {W T : Nat → Prop} (h : Keeps vm vm' W T) (h' : SameTables vm' vm'') :
    Keeps vm vm'' W T :=
  h.of_same_tables h'.tables h'.pml4t h'.frames h'.pageTables

variable {t f : Nat}

/-- A turn writes one entry of the page table. -/
theorem keeps_afterTurn {s : ShrinkState} (hok : TreeOk s.vm) (hfr : FreshFrames s.vm) (ht : Own 3 t)
    (hf : leafTable s.vm t = some f) (hoff : s.nextOffset < 512) :
    Keeps s.vm (afterTurn f s).1 (fun v => v = t * 512 + s.nextOffset) (fun _ => False) :=
  (keeps_store hok hfr ht hf hoff _).of_same (afterTurn_same f s)

/-- What a turn that goes on does. -/
theorem shrinkTurn_ok {s s' : ShrinkState} (h : shrinkTurn f s = .ok s') :
    s'.vm = (afterTurn f s).1 ∧ s'.cursor = sub64 s.cursor pageSize ∧ s'.currentBlockSize = (afterTurn f s).2 ∧
      s'.nextOffset = (if s.nextOffset = 0 then 511 else s.nextOffset - 1) := by
  rw [shrinkTurn_eq] at h
  by_cases h0 : s.nextOffset = 0
  · rw [if_pos h0] at h
    rw [if_pos h0]
    cases hp : findPtOrNull (afterTurn f s).1 (sub64 s.cursor pageSize) with
    | none =>
        rw [hp] at h
        cases h
    | some p =>
        rw [hp] at h
        cases h
        exact ⟨rfl, rfl, rfl, rfl⟩
  · rw [if_neg h0] at h
    rw [if_neg h0]
    cases h
    exact ⟨rfl, rfl, rfl, rfl⟩

theorem shrinkTurn_error {s : ShrinkState} {r : VmError × VmSpace} (h : shrinkTurn f s = .error r) :
    r.2 = (afterTurn f s).1 := by
  rw [shrinkTurn_eq] at h
  by_cases h0 : s.nextOffset = 0
  · rw [if_pos h0] at h
    cases hp : findPtOrNull (afterTurn f s).1 (sub64 s.cursor pageSize) with
    | none =>
        rw [hp] at h
        cases h
        rfl
    | some p =>
        rw [hp] at h
        cases h
  · rw [if_neg h0] at h
    cases h

/-- **The first loop of `vmzone_shrink` stays in one page table**, whether it comes to its end or not. -/
theorem shrinkLoop_keeps (ht : Own 3 t) :
    ∀ pages s, TreeOk s.vm → FreshFrames s.vm → leafTable s.vm t = some f → s.nextOffset < 512 →
      (∀ s', shrinkLoop f pages s = .ok s' →
        Keeps s.vm s'.vm (fun v => v / 512 = t) (fun _ => False) ∧ s'.vm.zones = s.vm.zones) ∧
      (∀ r, shrinkLoop f pages s = .error r →
        Keeps s.vm r.2 (fun v => v / 512 = t) (fun _ => False) ∧ r.2.zones = s.vm.zones) := by
  intro pages
  induction pages with
  | zero =>
      intro s hok hfr _ _
      refine ⟨fun s' h => ?_, fun r h => by cases h⟩
      cases h
      exact ⟨(Keeps.refl hok hfr).mono (fun _ h => h.elim) (fun _ h => h), rfl⟩
  | succ pages ih =>
      intro s hok hfr hf hoff
      have hk := keeps_afterTurn hok hfr ht hf hoff
      have hk1 : Keeps s.vm (afterTurn f s).1 (fun v => v / 512 = t) (fun _ => False) :=
        hk.mono (fun v hv => by omega) (fun _ h => h)
      have hz1 : (afterTurn f s).1.zones = s.vm.zones := (afterTurn_same f s).zones
      cases hturn : shrinkTurn f s with
      | error r1 =>
          have hloop : shrinkLoop f (pages + 1) s = .error r1 := by
            show shrinkTurn f s >>= _ = _
            rw [hturn]
            rfl
          rw [hloop]
          refine ⟨nofun, fun r h => ?_⟩
          cases h
          rw [shrinkTurn_error hturn]
          exact ⟨hk1, hz1⟩
      | ok s1 =>
          have hloop : shrinkLoop f (pages + 1) s = shrinkLoop f pages s1 := by
            show shrinkTurn f s >>= _ = _
            rw [hturn]
            rfl
          rw [hloop]
          obtain ⟨hvm, -, -, hoff1⟩ := shrinkTurn_ok hturn
          have hoff' : s1.nextOffset < 512 := by
            rw [hoff1]
            split <;> omega
          rw [← hvm] at hk1 hz1
          obtain ⟨h1, h2⟩ := ih s1 hk1.ok hk1.fresh (hk1.tables t f ht hf) hoff'
          refine ⟨fun s' h => ?_, fun r h => ?_⟩
          · obtain ⟨hk2, hz2⟩ := h1 s' h
            exact ⟨(hk1.trans hk2).mono (fun _ h => h.elim id id) (fun _ h => h.elim id id), hz2.trans hz1⟩
          · obtain ⟨hk2, hz2⟩ := h2 r h
            exact ⟨(hk1.trans hk2).mono (fun _ h => h.elim id id) (fun _ h => h.elim id id), hz2.trans hz1⟩

/-- The state of the loop at page `u`: cursor and offset are those of the page. -/
structure AtPage (s : ShrinkState) (u : Nat) : Prop where
  cursor : s.cursor = u * 4096
  offset : s.nextOffset = u % 512

theorem AtPage.next {s s' : ShrinkState} {u : Nat} (h : AtPage s (u + 1)) (hu : OwnPage (u + 1))
    (hturn : shrinkTurn f s = .ok s') : AtPage s' u := by
  obtain ⟨-, hcursor, -, hoff⟩ := shrinkTurn_ok hturn
  have hbound := ownPage_iff.mp hu
  have hsub : sub64 ((u + 1) * 4096) 4096 = (u + 1) * 4096 - 4096 := sub64_of_le (by omega) (by omega)
  constructor
  · rw [hcursor, h.cursor]
    show sub64 ((u + 1) * 4096) 4096 = _
    rw [hsub]
    omega
  · rw [hoff, h.offset]
    split <;> omega

theorem shrinkLoop_atPage :
    ∀ pages s u s', AtPage s u → (∀ j, j < pages → OwnPage (u - j)) → pages ≤ u → shrinkLoop f pages s = .ok s' →
      AtPage s' (u - pages) := by
  intro pages
  induction pages with
  | zero =>
      intro s u s' hat _ _ h
      cases h
      exact hat
  | succ pages ih =>
      intro s u s' hat hown hle h
      obtain ⟨s1, hturn, h⟩ := bind_eq_ok.mp h
      obtain ⟨u', rfl⟩ : ∃ u', u = u' + 1 := ⟨u - 1, by omega⟩
      rw [show u' + 1 - (pages + 1) = u' - pages by omega]
      refine ih s1 u' s' (hat.next (hown 0 (by omega)) hturn) (fun j hj => ?_) (by omega) h
      rw [show u' - j = u' + 1 - (j + 1) by omega]
      exact hown (j + 1) (by omega)

/-- **A shrink does not get below a page whose predecessor has no page table**: it reports an error there. -/
theorem shrinkLoop_stops {low : Nat} (ht : Own 3 t) (hlow : low % 512 = 0) (hlow0 : OwnPage low)
    (hbelow : OwnPage (low - 1)) :
    ∀ pages s u s', TreeOk s.vm → FreshFrames s.vm → leafTable s.vm t = some f → AtPage s u → OwnPage u →
      low ≤ u → leafTable s.vm ((low - 1) / 512) = none → shrinkLoop f pages s = .ok s' → pages + low ≤ u := by
  have hlowb := ownPage_iff.mp hlow0
  intro pages
  induction pages with
  | zero =>
      intro s u s' _ _ _ _ _ hle _ _
      omega
  | succ pages ih =>
      intro s u s' hok hfr hf hat hu hle hmissing h
      obtain ⟨s1, hturn, h⟩ := bind_eq_ok.mp h
      have hoff : s.nextOffset < 512 := by
        rw [hat.offset]
        exact Nat.mod_lt _ (by decide)
      have hk := keeps_afterTurn hok hfr ht hf hoff
      obtain ⟨hvm, -, -, -⟩ := shrinkTurn_ok hturn
      have hmissing1 : leafTable (afterTurn f s).1 ((low - 1) / 512) = none :=
        hk.missing _ hbelow (fun h => h) hmissing
      by_cases hul : u = low
      · -- The turn at `low` looks for the page table before it.
        subst hul
        exfalso
        rw [shrinkTurn_eq, hat.offset, hlow, if_pos rfl, findPtOrNull_eq, hat.cursor] at hturn
        have hsub : sub64 (u * 4096) 4096 = u * 4096 - 4096 := sub64_of_le (by omega) (by omega)
        have haddr : sub64 (u * 4096) pageSize / 4096 / 512 = (u - 1) / 512 := by
          show sub64 (u * 4096) 4096 / 4096 / 512 = _
          rw [hsub]
          omega
        rw [haddr, hmissing1] at hturn
        cases hturn
      · obtain ⟨u', rfl⟩ : ∃ u', u = u' + 1 := ⟨u - 1, by omega⟩
        have hat1 := hat.next hu hturn
        have hu1 : OwnPage u' := by
          have := ownPage_iff.mp hu
          exact ownPage_iff.mpr (by omega)
        rw [← hvm] at hk hmissing1
        have := ih s1 u' s' hk.ok hk.fresh (hk.tables t f ht hf) hat1 hu1 (by omega) hmissing1 h
        omega

/-- The pages the loop gives back, read off the entries: the calls, the latest first, and the pages counted since the
    last one. -/
def walkBack (entries : Nat → PtEntry) : Nat → Nat → Nat → List PhysCall × Nat
  | 0, _, size => ([], size)
  | pages + 1, u, size =>
    if (entries u).dataBehind then walkBack entries pages (u - 1) (addW 8 size 1)
    else
      ((walkBack entries pages (u - 1) 0).1 ++
          (if (entries u).dataEarly then [] else [.free (entries u).addr (addW 8 size 1)]),
        (walkBack entries pages (u - 1) 0).2)

theorem walkBack_behind {entries : Nat → PtEntry} {u : Nat} (h : (entries u).dataBehind = true) (pages size : Nat) :
    walkBack entries (pages + 1) u size = walkBack entries pages (u - 1) (addW 8 size 1) := by
  rw [walkBack, if_pos h]

theorem walkBack_start {entries : Nat → PtEntry} {u : Nat} (h : (entries u).dataBehind = false) (pages size : Nat) :
    walkBack entries (pages + 1) u size =
      ((walkBack entries pages (u - 1) 0).1 ++
          (if (entries u).dataEarly then [] else [.free (entries u).addr (addW 8 size 1)]),
        (walkBack entries pages (u - 1) 0).2) := by
  rw [walkBack, if_neg (by rw [h]; exact Bool.false_ne_true)]

theorem walkBack_congr {entries entries' : Nat → PtEntry} :
    ∀ pages u size, (∀ v, v ≤ u → u < v + pages → entries v = entries' v) →
      walkBack entries pages u size = walkBack entries' pages u size := by
  intro pages
  induction pages with
  | zero => exact fun _ _ _ => rfl
  | succ pages ih =>
      intro u size h
      have hrec : ∀ size, walkBack entries pages (u - 1) size = walkBack entries' pages (u - 1) size := by
        intro size
        cases pages with
        | zero => rfl
        | succ pages =>
            refine ih (u - 1) size (fun v hv hv' => h v (by omega) ?_)
            omega
      unfold walkBack
      rw [h u (Nat.le_refl u) (by omega), hrec, hrec]

/-- Within one page table the first loop clears the entries of the pages it should and gives back what their flags
    say. -/
theorem shrinkLoop_within :
    ∀ pages s u s', TreeOk s.vm → FreshFrames s.vm → leafTable s.vm (u / 512) = some f → AtPage s u → OwnPage u →
      pages ≤ u % 512 + 1 → shrinkLoop f pages s = .ok s' →
      (∀ v, OwnPage v →
        leaf s'.vm v = if v ≤ u ∧ u < v + pages then (leaf s.vm v).cleared else leaf s.vm v) ∧
      s'.vm.calls = (walkBack (leaf s.vm) pages u s.currentBlockSize).1 ++ s.vm.calls ∧
      s'.currentBlockSize = (walkBack (leaf s.vm) pages u s.currentBlockSize).2 := by
  intro pages
  induction pages with
  | zero =>
      intro s u s' _ _ _ _ _ _ h
      cases h
      refine ⟨fun v _ => ?_, rfl, rfl⟩
      rw [if_neg (by omega)]
  | succ pages ih =>
      intro s u s' hok hfr hf hat hu hle h
      obtain ⟨s1, hturn, h⟩ := bind_eq_ok.mp h
      obtain ⟨hvm, hcursor, hsize, hoff1⟩ := shrinkTurn_ok hturn
      have hmod : u % 512 < 512 := Nat.mod_lt _ (by decide)
      have hoff : s.nextOffset < 512 := by
        rw [hat.offset]
        exact hmod
      have hk := keeps_afterTurn hok hfr hu hf hoff
      have hentry : s.vm.tables f s.nextOffset = leaf s.vm u := by
        rw [leaf_of_table hf, hat.offset]
      have hleaf1 : ∀ v, OwnPage v → leaf s1.vm v = if v = u then (leaf s.vm u).cleared else leaf s.vm v := by
        intro v hv
        rw [hvm, (afterTurn_same f s).leaf_eq, leaf_store hok hu hf hv hoff, hentry, hat.offset]
        rw [show u / 512 * 512 + u % 512 = u by omega]
      have hu0 := ownPage_iff.mp hu
      have hbelow : ∀ v, v ≤ u - 1 → u - 1 < v + pages → OwnPage v := by
        intro v hv hv'
        show Own 3 (v / 512)
        rw [show v / 512 = u / 512 by omega]
        exact hu
      have hwalk : ∀ size, walkBack (leaf s1.vm) pages (u - 1) size = walkBack (leaf s.vm) pages (u - 1) size := by
        intro size
        refine walkBack_congr pages (u - 1) size (fun v hv hv' => ?_)
        rw [hleaf1 v (hbelow v hv hv'), if_neg (by omega)]
      -- What is left of the loop, in the two cases of the turn.
      have hrest : (∀ v, OwnPage v → leaf s'.vm v =
            if v ≤ u - 1 ∧ u - 1 < v + pages then (leaf s1.vm v).cleared else leaf s1.vm v) ∧
          s'.vm.calls = (walkBack (leaf s.vm) pages (u - 1) s1.currentBlockSize).1 ++ s1.vm.calls ∧
          s'.currentBlockSize = (walkBack (leaf s.vm) pages (u - 1) s1.currentBlockSize).2 := by
        cases pages with
        | zero =>
            cases h
            refine ⟨fun v _ => ?_, rfl, rfl⟩
            rw [if_neg (by omega)]
        | succ pages =>
            obtain ⟨u', rfl⟩ : ∃ u', u = u' + 1 := ⟨u - 1, by omega⟩
            have hdiv : (u' + 1) / 512 = u' / 512 := by omega
            have hu' : OwnPage u' := by
              show Own 3 (u' / 512)
              rw [← hdiv]
              exact hu
            have hk' : Keeps s.vm s1.vm (fun v => v = (u' + 1) / 512 * 512 + s.nextOffset) (fun _ => False) :=
              hvm ▸ hk
            have := ih s1 u' s' hk'.ok hk'.fresh (hdiv ▸ hk'.tables _ f hu hf) (hat.next hu hturn) hu' (by omega) h
            rw [← hwalk]
            exact this
      obtain ⟨hleaf', hcalls', hsize'⟩ := hrest
      refine ⟨fun v hv => ?_, ?_⟩
      · rw [hleaf' v hv, hleaf1 v hv]
        by_cases hvu : v = u
        · subst hvu
          rw [if_neg (by omega), if_pos rfl, if_pos (by omega)]
        · rw [if_neg hvu]
          by_cases hin : v ≤ u - 1 ∧ u - 1 < v + pages
          · rw [if_pos hin, if_pos (by omega)]
          · rw [if_neg hin, if_neg (by omega)]
      · rw [hcalls', hsize', hsize, hvm]
        cases hb : (leaf s.vm u).dataBehind with
        | true =>
            rw [afterTurn_behind (by rw [hentry]; exact hb), walkBack_behind hb]
            exact ⟨rfl, rfl⟩
        | false =>
            rw [afterTurn_start (by rw [hentry]; exact hb), hentry, walkBack_start hb]
            refine ⟨?_, rfl⟩
            show _ ++ (freePhysBlock _ (leaf s.vm u).cleared _).calls = _
            have hearly : (leaf s.vm u).cleared.dataEarly = (leaf s.vm u).dataEarly := rfl
            unfold freePhysBlock
            rw [hearly]
            cases he : (leaf s.vm u).dataEarly with
            | true => simp [VmSpace.store]
            | false => simp [VmSpace.store, VmSpace.call, PtEntry.cleared]

section Call

variable {vm vm' : VmSpace} {zone : Zone} {pages u : Nat}

/-- The loops of a call of `vmzone_shrink`, taken apart. -/
theorem vmzoneShrink_cases {r : Option VmError} (hzone : (vm.zones zone).flags.contiguous = true)
    (hcursor : (vm.zones zone).cursorAddr = (u + 1) * 4096) (hu : OwnPage u)
    (hrun : vmzoneShrink vm pages zone = .ok (r, vm')) :
    (leafTable vm (u / 512) = none ∧ r = some .unmapped ∧ vm' = vm) ∨
      ∃ f, leafTable vm (u / 512) = some f ∧
        ((∃ e, shrinkLoop f pages ⟨vm, u % 512, u * 4096, 0⟩ = .error (e, vm') ∧ r = some e) ∨
          ∃ s', shrinkLoop f pages ⟨vm, u % 512, u * 4096, 0⟩ = .ok s' ∧
            SameTables (s'.vm.setCursor zone (add64 s'.cursor 4096)) vm' ∧
            (s'.currentBlockSize = 0 → vm'.calls = s'.vm.calls)) := by
  have hb := ownPage_iff.mp hu
  have hsub : sub64 ((u + 1) * 4096) 4096 = u * 4096 := by
    rw [sub64_of_le (by omega) (by omega)]
    omega
  unfold vmzoneShrink at hrun
  rw [hzone, hcursor] at hrun
  have hsub' : sub64 ((u + 1) * 4096) pageSize = u * 4096 := hsub
  simp only [Bool.not_true, Bool.false_eq_true, if_false, hsub'] at hrun
  have haddr : u * 4096 / 4096 = u := by omega
  rw [findPtOrNull_eq, haddr, ptOffset_eq, haddr] at hrun
  cases hf : leafTable vm (u / 512) with
  | none =>
      rw [hf] at hrun
      cases hrun
      exact Or.inl ⟨rfl, rfl, rfl⟩
  | some f =>
      rw [hf] at hrun
      refine Or.inr ⟨f, rfl, ?_⟩
      cases hloop : shrinkLoop f pages ⟨vm, u % 512, u * 4096, 0⟩ with
      | error r1 =>
          simp only [hloop] at hrun
          cases hrun
          exact Or.inl ⟨r1.1, rfl, rfl⟩
      | ok s' =>
          simp only [hloop] at hrun
          refine Or.inr ⟨s', rfl, ?_⟩
          by_cases hsize : s'.currentBlockSize > 0
          · rw [if_pos hsize] at hrun
            obtain ⟨found, -, hrun⟩ := bind_eq_ok.mp hrun
            cases found with
            | error e =>
                cases hrun
                exact ⟨⟨rfl, rfl, rfl, rfl, rfl⟩, fun h => by omega⟩
            | ok p =>
                cases hrun
                exact ⟨shrinkPhysBlock_same _ _ _ _, fun h => by omega⟩
          · rw [if_neg hsize] at hrun
            cases hrun
            exact ⟨⟨rfl, rfl, rfl, rfl, rfl⟩, fun _ => rfl⟩

theorem zones_setCursor {vm1 : VmSpace} {c : Nat} (h : SameTables (vm1.setCursor zone c) vm')
    (hz : vm1.zones = vm.zones) :
    vm'.zones = Function.update vm.zones zone { vm.zones zone with cursorAddr := c } := by
  rw [h.zones, ← hz]
  rfl

/-- **`vmzone_shrink` writes into the page table of the last mapped page only**, and keeps the cursor above the first
    page whose predecessor has no page table. -/
theorem vmzoneShrink_keeps {r : Option VmError} {low : Nat} (hok : TreeOk vm) (hfr : FreshFrames vm)
    (hzone : (vm.zones zone).flags.contiguous = true) (hcursor : (vm.zones zone).cursorAddr = (u + 1) * 4096)
    (hu : OwnPage u) (hlow : low % 512 = 0) (hlow0 : OwnPage low) (hbelow : OwnPage (low - 1)) (hle : low ≤ u + 1)
    (hmissing : leafTable vm ((low - 1) / 512) = none) (hrun : vmzoneShrink vm pages zone = .ok (r, vm')) :
    Keeps vm vm' (fun v => low ≤ v ∧ v / 512 = u / 512) (fun _ => False) ∧
      ∃ c, low ≤ c ∧ c ≤ u + 1 ∧
        vm'.zones = Function.update vm.zones zone { vm.zones zone with cursorAddr := c * 4096 } := by
  have hlowb := ownPage_iff.mp hlow0
  have hsame : vm.zones = Function.update vm.zones zone { vm.zones zone with cursorAddr := (u + 1) * 4096 } := by
    rw [← hcursor]
    exact (Function.update_eq_self zone vm.zones).symm
  rcases vmzoneShrink_cases hzone hcursor hu hrun with ⟨-, -, rfl⟩ | ⟨f, hf, hloop⟩
  · exact ⟨(Keeps.refl hok hfr).mono (fun _ h => h.elim) (fun _ h => h), u + 1, hle, Nat.le_refl _, hsame⟩
  · have hul : low ≤ u := by
      by_contra hlt
      rw [show u / 512 = (low - 1) / 512 by omega, hmissing] at hf
      cases hf
    have hw : ∀ v, v / 512 = u / 512 → low ≤ v ∧ v / 512 = u / 512 := fun v hv => ⟨by omega, hv⟩
    have hat : AtPage ⟨vm, u % 512, u * 4096, 0⟩ u := ⟨rfl, rfl⟩
    obtain ⟨hgood, hbad⟩ :=
      shrinkLoop_keeps hu pages ⟨vm, u % 512, u * 4096, 0⟩ hok hfr hf (Nat.mod_lt _ (by decide))
    rcases hloop with ⟨e, hloop, -⟩ | ⟨s', hloop, hsame', -⟩
    · obtain ⟨hk, hz⟩ := hbad _ hloop
      exact ⟨hk.mono hw (fun _ h => h), u + 1, hle, Nat.le_refl _, hz.trans hsame⟩
    · obtain ⟨hk, hz⟩ := hgood _ hloop
      have hstop := shrinkLoop_stops hu hlow hlow0 hbelow pages _ u s' hok hfr hf hat hu hul hmissing hloop
      have hub := ownPage_iff.mp hu
      have hat' := shrinkLoop_atPage pages _ u s' hat (fun j hj => ownPage_iff.mpr (by omega)) (by omega) hloop
      have hadd : add64 s'.cursor 4096 = (u - pages + 1) * 4096 := by
        rw [hat'.cursor, add64_of_lt (by omega)]
        omega
      rw [hadd] at hsame'
      refine ⟨(hk.mono hw (fun _ h => h)).of_same_tables hsame'.tables hsame'.pml4t hsame'.frames hsame'.pageTables,
        u - pages + 1, by omega, by omega, zones_setCursor hsame' hz⟩

/-- **`vmzone_shrink` inside one page table** unmaps the last pages and gives back what their flags say. -/
theorem vmzoneShrink_within (hok : TreeOk vm) (hfr : FreshFrames vm)
    (hzone : (vm.zones zone).flags.contiguous = true) (hcursor : (vm.zones zone).cursorAddr = (u + 1) * 4096)
    (hu : OwnPage u) (hpages : pages ≤ u % 512 + 1) (hrun : vmzoneShrink vm pages zone = .ok (none, vm')) :
    TreeOk vm' ∧ FreshFrames vm' ∧
      vm'.zones = Function.update vm.zones zone { vm.zones zone with cursorAddr := (u + 1 - pages) * 4096 } ∧
      (∀ v, OwnPage v → leaf vm' v = if v ≤ u ∧ u < v + pages then (leaf vm v).cleared else leaf vm v) ∧
      ((walkBack (leaf vm) pages u 0).2 = 0 → vm'.calls = (walkBack (leaf vm) pages u 0).1 ++ vm.calls) := by
  rcases vmzoneShrink_cases hzone hcursor hu hrun with ⟨-, hr, -⟩ | ⟨f, hf, ⟨e, -, hr⟩ | ⟨s', hloop, hsame, hcalls⟩⟩
  · cases hr
  · cases hr
  · have hat : AtPage ⟨vm, u % 512, u * 4096, 0⟩ u := ⟨rfl, rfl⟩
    have hub := ownPage_iff.mp hu
    obtain ⟨hgood, -⟩ :=
      shrinkLoop_keeps hu pages ⟨vm, u % 512, u * 4096, 0⟩ hok hfr hf (Nat.mod_lt _ (by decide))
    obtain ⟨hk, hz⟩ := hgood s' hloop
    obtain ⟨hleaf, hcalls', hsize⟩ := shrinkLoop_within pages _ u s' hok hfr hf hat hu hpages hloop
    have hat' : AtPage s' (u - pages) := by
      refine shrinkLoop_atPage pages _ u s' hat (fun j hj => ?_) (by omega) hloop
      show Own 3 ((u - j) / 512)
      rw [show (u - j) / 512 = u / 512 by omega]
      exact hu
    have hadd : add64 s'.cursor 4096 = (u + 1 - pages) * 4096 := by
      rw [hat'.cursor, add64_of_lt (by omega)]
      omega
    rw [hadd] at hsame
    have hk' := hk.of_same_tables hsame.tables hsame.pml4t hsame.frames hsame.pageTables
    refine ⟨hk'.ok, hk'.fresh, zones_setCursor hsame hz, fun v hv => ?_, fun h0 => ?_⟩
    · rw [hsame.leaf_eq]
      exact hleaf v hv
    · rw [hcalls (hsize.trans h0), hcalls']

end Call

end Shrink

end LearningOS.Paging
