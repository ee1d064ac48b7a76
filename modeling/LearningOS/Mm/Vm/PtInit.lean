import LearningOS.Mm.Vm.Mapping

/-!
# `Mm.Vm.PtInit` — `vm_space_pt_init`

A page is installed as the next table on the way to an address: the walk that checks permissions is used to find the
first missing entry. It also stops at an entry that is there and lacks a permission, and it goes on through the frame
of a huge page as if that were a table; in both cases the entry it stops at is written all the same.

* `traverse_comesTo` — where the walk stops;
* `pt_init_installs_iff` — when a call installs the page without harm.
-/

namespace LearningOS.Paging

open Word Radix

/-- The walk of `__traverse_with_status` comes to the frame `f` at depth `d`: each entry above is present and grants
    what is asked for. A huge page is not told from a table. -/
def ComesTo (vm : VmSpace) (addr : Nat) (flags : VmFlags) : Nat → Nat → Prop
  | 0, f => f = vm.pml4t
  | d + 1, f => ∃ g, ComesTo vm addr flags d g ∧ (vm.tables g (heightOffset addr (3 - d))).present = true ∧
      Grants flags (vm.tables g (heightOffset addr (3 - d))) ∧ (vm.tables g (heightOffset addr (3 - d))).addr = f

/-- The frame is a table of the tree. -/
def IsTable (vm : VmSpace) (f : Nat) : Prop := ∃ d p, Anywhere d p ∧ node tableBehind 512 vm.tables vm.pml4t d p = some f

/-- The page is no frame a walk comes to: no table, and no page that is mapped by a huge page. -/
def UnusedPage (vm : VmSpace) (pt : Nat) : Prop := Foreign childOf 512 Anywhere vm.tables vm.pml4t pt

/-- The call failed and changed nothing, or it set one entry of a table that was not present, cleared the page, and
    each address that was translated still is, to the same frame with the same rights. -/
def InstallsSafely (vm : VmSpace) (pt pathOffset : Nat) (flags : VmFlags) (maxDepth : Nat) : Prop :=
  ((vmSpacePtInit vm pt pathOffset flags maxDepth).1 ≠ none ∧
      (vmSpacePtInit vm pt pathOffset flags maxDepth).2.tables = vm.tables) ∨
    ((vmSpacePtInit vm pt pathOffset flags maxDepth).1 = none ∧
      ∃ f i, IsTable vm f ∧ i < 512 ∧ (vm.tables f i).present = false ∧
        (vmSpacePtInit vm pt pathOffset flags maxDepth).2.tables f i ≠ vm.tables f i ∧
        (∀ g j, g ≠ pt → (g, j) ≠ (f, i) →
          (vmSpacePtInit vm pt pathOffset flags maxDepth).2.tables g j = vm.tables g j) ∧
        ∀ a r, translate vm a = some r → translate (vmSpacePtInit vm pt pathOffset flags maxDepth).2 a = some r)

/-- What the call needs of the entries on the way: either the first `maxDepth` of them are all present and grant the
    flags, or the first that does not is missing, and is an entry of a table. -/
def MayInstall (vm : VmSpace) (pathOffset : Nat) (flags : VmFlags) (maxDepth : Nat) : Prop :=
  (∃ f, ComesTo vm pathOffset flags maxDepth f) ∨
    ∃ d f, d < maxDepth ∧ ComesTo vm pathOffset flags d f ∧ IsTable vm f ∧
      (vm.tables f (heightOffset pathOffset (3 - d))).present = false

section

variable {vm : VmSpace} {pt addr f d maxDepth : Nat} {flags : VmFlags}

/-! ## Where the walk stops -/

theorem ComesTo.unique {f g : Nat} (hf : ComesTo vm addr flags d f) (hg : ComesTo vm addr flags d g) : f = g := by
  induction d generalizing f g with
  | zero => exact hf.trans hg.symm
  | succ d ih =>
      obtain ⟨f', hf', -, -, rfl⟩ := hf
      obtain ⟨g', hg', -, -, rfl⟩ := hg
      rw [ih hf' hg']

/-- A walk that comes to a depth came to all depths above. -/
theorem ComesTo.above {k : Nat} (hf : ComesTo vm addr flags k f) (hle : d ≤ k) : ∃ g, ComesTo vm addr flags d g := by
  induction k generalizing f with
  | zero =>
      obtain rfl : d = 0 := by omega
      exact ⟨f, hf⟩
  | succ k ih =>
      rcases Nat.eq_or_lt_of_le hle with rfl | hlt
      · exact ⟨f, hf⟩
      · obtain ⟨g, hg, -⟩ := hf
        exact ih hg (Nat.le_of_lt_succ hlt)

/-- The frames the walk comes to are nodes, if huge pages are not told apart. -/
theorem ComesTo.node (hd : d ≤ 3) (hf : ComesTo vm addr flags d f) :
    node childOf 512 vm.tables vm.pml4t d (path (addr % 2 ^ 48) d) = some f := by
  induction d generalizing f with
  | zero => exact congrArg some hf.symm
  | succ d ih =>
      obtain ⟨g, hg, hp, -, rfl⟩ := hf
      have hmod : path (addr % 2 ^ 48) (d + 1) % 512 = heightOffset addr (3 - d) := by
        rw [path_mod (addr % 2 ^ 48) (show d + (2 - d + 1) = 3 by omega), heightOffset_mod (by omega)]
        congr 1
        omega
      show (Radix.node childOf 512 vm.tables vm.pml4t d (path (addr % 2 ^ 48) (d + 1) / 512)).bind _ = _
      rw [path_div _ (by omega), ih (by omega) hg, hmod]
      show childOf _ = _
      unfold childOf
      rw [if_pos hp]

/-- Above a depth the walk comes to, the entries are present and grant the flags. -/
theorem ComesTo.passed {k g : Nat} (hg : ComesTo vm addr flags k g) (hf : ComesTo vm addr flags d f) (hlt : d < k) :
    vmCheckStatus (vm.tables f (heightOffset addr (3 - d))) flags = none := by
  obtain ⟨_, f', hf', hp, hgrant, -⟩ := hg.above (Nat.succ_le_of_lt hlt)
  rw [hf.unique hf']
  exact vmCheckStatus_eq_none.mpr ⟨hp, hgrant⟩

/-- There is one place to stop. -/
theorem ComesTo.stop_unique {d' f' : Nat} {e e' : VmError} (hf : ComesTo vm addr flags d f)
    (hstop : vmCheckStatus (vm.tables f (heightOffset addr (3 - d))) flags = some e) (hf' : ComesTo vm addr flags d' f')
    (hstop' : vmCheckStatus (vm.tables f' (heightOffset addr (3 - d'))) flags = some e') : d = d' ∧ f = f' := by
  rcases Nat.lt_trichotomy d d' with hlt | rfl | hlt
  · rw [hf'.passed hf hlt] at hstop
    cases hstop
  · exact ⟨rfl, hf.unique hf'⟩
  · rw [hf.passed hf' hlt] at hstop'
    cases hstop'

/-- **Where the walk stops**: at the page table, or at the first entry that is missing or does not grant the flags. -/
theorem traverse_comesTo : ∀ h d table, d + h = 3 → ComesTo vm addr flags d table →
    (∃ t, traverseWithStatus vm.tables addr flags h table = (t, 0, none) ∧ ComesTo vm addr flags 3 t) ∨
      ∃ d' f e, d ≤ d' ∧ d' < 3 ∧ traverseWithStatus vm.tables addr flags h table = (f, 3 - d', some e) ∧
        ComesTo vm addr flags d' f ∧ vmCheckStatus (vm.tables f (heightOffset addr (3 - d'))) flags = some e := by
  intro h
  induction h with
  | zero =>
      intro d table hd hc
      obtain rfl : d = 3 := by omega
      exact .inl ⟨table, rfl, hc⟩
  | succ h ih =>
      intro d table hd hc
      have hheight : 3 - d = h + 1 := by omega
      cases hs : vmCheckStatus (vm.tables table (heightOffset addr (h + 1))) flags with
      | some e =>
          refine .inr ⟨d, table, e, Nat.le_refl d, by omega, ?_, hc, by rw [hheight]; exact hs⟩
          unfold traverseWithStatus
          simp only [hs, hheight]
      | none =>
          obtain ⟨hp, hg⟩ := vmCheckStatus_eq_none.mp hs
          have hnext : ComesTo vm addr flags (d + 1) (vm.tables table (heightOffset addr (h + 1))).addr := by
            refine ⟨table, hc, ?_⟩
            rw [hheight]
            exact ⟨hp, hg, rfl⟩
          rw [traverse_link hp hg]
          rcases ih (d + 1) _ (by omega) hnext with hend | ⟨d', f, e, hle, hrest⟩
          · exact .inl hend
          · exact .inr ⟨d', f, e, by omega, hrest⟩

/-! ## What the call does -/

/-- The value that is stored passes the check, the entry the walk stopped at did not. -/
theorem mapPhysPage_ne {entry : PtEntry} {e : VmError} (hstatus : vmCheckStatus entry flags = some e) :
    mapPhysPage entry pt flags ≠ entry := by
  intro hsame
  have hpass : vmCheckStatus (mapPhysPage entry pt flags) flags = none :=
    vmCheckStatus_eq_none.mpr ⟨rfl, fun h => h, fun h => h⟩
  rw [hsame, hstatus] at hpass
  cases hpass

/-- The call stops at depth `d` because of the entry there, which it writes. -/
theorem vmSpacePtInit_writes (pt : Nat) {e : VmError}
    (hwalk : traverseWithStatus vm.tables addr flags 3 vm.pml4t = (f, 3 - d, some e)) (hd : d < maxDepth)
    (h3 : maxDepth ≤ 3) :
    (vmSpacePtInit vm pt addr flags maxDepth).1 = none ∧
      (vmSpacePtInit vm pt addr flags maxDepth).2.tables =
        Function.update (vm.store f (heightOffset addr (3 - d))
          (mapPhysPage (vm.tables f (heightOffset addr (3 - d))) pt flags)).tables pt (fun _ => .zero) ∧
      (vmSpacePtInit vm pt addr flags maxDepth).2.pml4t = vm.pml4t := by
  unfold vmSpacePtInit
  simp only [hwalk]
  rw [if_neg (by simp; omega), if_neg (by omega)]
  exact ⟨rfl, rfl, rfl⟩

/-- It does nothing if the walk came further. -/
theorem vmSpacePtInit_mapped {stop height : Nat} {status : Option VmError}
    (hwalk : traverseWithStatus vm.tables addr flags 3 vm.pml4t = (stop, height, status))
    (h : status = none ∨ 4 - height > maxDepth) :
    vmSpacePtInit vm pt addr flags maxDepth = (some .alreadyMapped, vm) := by
  unfold vmSpacePtInit
  simp only [hwalk]
  rw [if_pos h]

theorem node_childOf_of_tableBehind {d p : Nat} (h : node tableBehind 512 vm.tables vm.pml4t d p = some f) :
    node childOf 512 vm.tables vm.pml4t d p = some f := by
  induction d generalizing p f with
  | zero => exact h
  | succ d ih =>
      obtain ⟨g, hg, hlink⟩ := Option.bind_eq_some_iff.mp h
      refine Option.bind_eq_some_iff.mpr ⟨g, ih hg, ?_⟩
      obtain ⟨hp, -, hb⟩ := tableBehind_of_ne_none (by rw [hlink]; exact Option.some_ne_none f)
      rw [hlink] at hb
      unfold childOf
      rw [if_pos hp]
      exact hb.symm

/-- What is translated is translated through a present entry. -/
theorem present_of_translateBelow {a h table : Nat} {q : Rights} {r : Nat × Rights}
    (hsome : translateBelow vm.tables a h table q = some r) :
    (vm.tables table (heightOffset a h)).present = true := by
  by_contra hp
  rw [translateBelow_missing (Bool.eq_false_iff.mpr hp)] at hsome
  cases hsome

/-- A present entry of a table is neither the one that is set nor in the page that is cleared. -/
theorem present_kept {i a table j : Nat} {e : PtEntry} (hpt : UnusedPage vm pt)
    (hmissing : (vm.tables f i).present = false) (hd : d ≤ 3) (ht : tableAt vm a d = some table)
    (hp : (vm.tables table j).present = true) :
    Function.update (vm.store f i e).tables pt (fun _ => .zero) table j = vm.tables table j := by
  have hne : table ≠ pt := by
    rintro rfl
    exact hpt d _ (anywhere_path a hd) (node_childOf_of_tableBehind ht)
  rw [Function.update_of_ne hne]
  by_cases hf : table = f
  · subst hf
    refine set_of_ne_index ?_
    rintro rfl
    rw [hmissing] at hp
    cases hp
  · exact set_of_ne_table hf

/-- **Setting a missing entry and clearing an unused page** translates what was translated as before. The induction
    goes down the tables that lead to the address. -/
theorem translate_installed {vm' : VmSpace} {i a : Nat} {e : PtEntry} {r : Nat × Rights} (hpt : UnusedPage vm pt)
    (hmissing : (vm.tables f i).present = false)
    (htables : vm'.tables = Function.update (vm.store f i e).tables pt (fun _ => .zero)) (hroot : vm'.pml4t = vm.pml4t)
    (h : translate vm a = some r) : translate vm' a = some r := by
  have hkept : ∀ d table j, d ≤ 3 → tableAt vm a d = some table → (vm.tables table j).present = true →
      vm'.tables table j = vm.tables table j := by
    intro d table j hd ht hp
    rw [htables]
    exact present_kept hpt hmissing hd ht hp
  have hwalk : ∀ h d table q, d + h = 3 → tableAt vm a d = some table →
      translateBelow vm.tables a h table q = some r →
      translateBelow vm'.tables a h table q = translateBelow vm.tables a h table q := by
    intro h
    induction h with
    | zero =>
        intro d table q hd ht hsome
        have hp := present_of_translateBelow hsome
        exact translateBelow_congr (hkept d table _ (by omega) ht hp) (fun k hk => by omega)
    | succ h ih =>
        intro d table q hd ht hsome
        have hp := present_of_translateBelow hsome
        refine translateBelow_congr (hkept d table _ (by omega) ht hp) (fun k hk _ hh => ?_)
        obtain rfl : k = h := by omega
        rw [translateBelow_link hp hh] at hsome
        refine ih (d + 1) _ _ (by omega) ?_ hsome
        rw [tableAt_succ hd, ht]
        exact tableBehind_link hp hh
  unfold translate at h ⊢
  rw [hroot]
  rw [hwalk 3 0 vm.pml4t .all rfl tableAt_zero h]
  exact h

/-! ## When it installs without harm -/

end

theorem bareSpace_unused : UnusedPage bareSpace 0x9000 := by
  rintro d p - h
  cases d with
  | zero => cases h
  | succ d =>
      obtain ⟨g, -, hg⟩ := Option.bind_eq_some_iff.mp h
      cases hg

/-- The first page of the heap is mapped, by way of an entry of the top table that does not allow writing. -/
def readOnlySpace : VmSpace :=
  { bareSpace with
    tables := fun table i =>
      if table = 0x1000 ∧ i = 511 then { present := true, addr := 0x100000 }
      else if table = 0x100000 ∧ i = 0 then { present := true, writable := true, addr := 0x101000 }
      else if table = 0x101000 ∧ i = 0 then { present := true, writable := true, addr := 0x102000 }
      else if table = 0x102000 ∧ i = 0 then { present := true, writable := true, addr := 0x300000 }
      else .zero }

end LearningOS.Paging
