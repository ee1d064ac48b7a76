import LearningOS.Mm.Vm.Tables

/-!
# `Mm.Vm.Lookup` — finding and making a page table anywhere

`Mm.Vm.Tables` looks at the kernel zones only. Here the tree is that of the whole address space: a position is a path
of up to three indices, and the frame of a huge page is no table (`tableBehind`). The walks read 48 bits of an address,
so `tableAt` is the table at a depth on the way to any 64-bit address.

* `traverse_granted`, `traverse_denied` — where `__traverse_with_status` stops;
* `allocateMissing_made` — the second loop, which indexes by height, makes what is missing below that table;
* `find_or_allocate_pt_exact` — the call as a whole.
-/

namespace LearningOS.Paging

open Word Run Radix

/-! ## The tree of the whole address space -/

/-- The table an entry points to. -/
def tableBehind (e : PtEntry) : Option Nat := if e.present && !e.hugepage then some e.addr else none

/-- The positions of tables. -/
def Anywhere (d p : Nat) : Prop := d ≤ 3 ∧ p < 512 ^ d

theorem anywhere_positions : Positions 512 Anywhere where
  up := by
    rintro d p ⟨hd, hp⟩
    exact ⟨by omega, Nat.div_lt_of_lt_mul (by rwa [Nat.mul_comm, ← pow_succ])⟩

/-- The tables form a tree. -/
def TableTree (vm : VmSpace) : Prop := Separate tableBehind 512 Anywhere vm.tables vm.pml4t

/-- The table at a depth on the way to an address. -/
def tableAt (vm : VmSpace) (addr d : Nat) : Option Nat :=
  node tableBehind 512 vm.tables vm.pml4t d (path (addr % 2 ^ 48) d)

/-- The entry of a height on the way to an address. -/
def entryAt (vm : VmSpace) (addr height : Nat) : Option PtEntry :=
  (tableAt vm addr (3 - height)).map (fun f => vm.tables f (heightOffset addr height))

/-- The entries `P` holds of, among those on the way to a page table that are present. -/
def OnPath (vm : VmSpace) (addr : Nat) (P : PtEntry → Prop) : Prop :=
  ∀ h, 1 ≤ h → h ≤ 3 → ∀ e, entryAt vm addr h = some e → e.present = true → P e

/-- No huge page is on the way. -/
def NoHuge (vm : VmSpace) (addr : Nat) : Prop := OnPath vm addr (fun e => e.hugepage = false)

/-- The entry allows what is asked for. -/
def Grants (flags : VmFlags) (e : PtEntry) : Prop :=
  (flags.allowWrite = true → e.writable = true) ∧ (flags.allowUser = true → e.userAccessible = true)

instance (flags : VmFlags) (e : PtEntry) : Decidable (Grants flags e) := inferInstanceAs (Decidable (_ ∧ _))

/-- A present entry, met before a missing one, does not allow what is asked for. -/
def Denied (vm : VmSpace) (addr : Nat) (flags : VmFlags) : Prop :=
  ∃ h e, 1 ≤ h ∧ h ≤ 3 ∧ entryAt vm addr h = some e ∧ e.present = true ∧ ¬ Grants flags e

/-- The number of levels at which an address has no table. -/
def missingLevels (vm : VmSpace) (addr : Nat) : Nat := (List.range 3).countP (fun d => tableAt vm addr (d + 1) = none)

/-- What the physical allocator will answer for page tables: frames that are no table. -/
structure FramesApart (vm : VmSpace) : Prop where
  nodup : vm.frames.Nodup
  aligned : ∀ f ∈ vm.frames, PageAddr f
  apart : ∀ f ∈ vm.frames, Foreign tableBehind 512 Anywhere vm.tables vm.pml4t f

section

variable {vm vm' : VmSpace} {addr : Nat} {flags : VmFlags}

theorem anywhere_path (addr : Nat) {d : Nat} (hd : d ≤ 3) : Anywhere d (path (addr % 2 ^ 48) d) := by
  refine ⟨hd, ?_⟩
  unfold path
  have h48 : addr % 2 ^ 48 < 2 ^ 48 := Nat.mod_lt _ (by decide)
  have hpow : (2 : Nat) ^ (48 - 9 * d) * 512 ^ d = 2 ^ 48 := by
    rw [show (512 : Nat) = 2 ^ 9 by decide, ← pow_mul, ← pow_add]
    congr 1
    omega
  exact Nat.div_lt_of_lt_mul (by rwa [hpow])

theorem heightOffset_mod {h : Nat} (hh : h ≤ 3) : heightOffset (addr % 2 ^ 48) h = heightOffset addr h := by
  rw [heightOffset_eq, heightOffset_eq]
  rcases h with _ | _ | _ | _ | h
  · omega
  · omega
  · omega
  · omega
  · omega

theorem tableAt_zero : tableAt vm addr 0 = some vm.pml4t := rfl

/-- One level down. -/
theorem tableAt_succ {d h : Nat} (hd : d + (h + 1) = 3) :
    tableAt vm addr (d + 1) =
      (tableAt vm addr d).bind (fun f => tableBehind (vm.tables f (heightOffset addr (h + 1)))) := by
  show (node tableBehind 512 vm.tables vm.pml4t d (path (addr % 2 ^ 48) (d + 1) / 512)).bind _ = _
  rw [path_div _ (by omega), path_mod _ hd, heightOffset_mod (by omega)]
  rfl

theorem entryAt_of_table {d h table : Nat} (hd : d + h = 3) (ht : tableAt vm addr d = some table) :
    entryAt vm addr h = some (vm.tables table (heightOffset addr h)) := by
  obtain rfl : d = 3 - h := by omega
  unfold entryAt
  rw [ht]
  rfl

theorem exists_of_entryAt {h : Nat} {e : PtEntry} (he : entryAt vm addr h = some e) :
    ∃ f, tableAt vm addr (3 - h) = some f ∧ e = vm.tables f (heightOffset addr h) := by
  obtain ⟨f, hf, rfl⟩ := Option.map_eq_some_iff.mp he
  exact ⟨f, hf, rfl⟩

theorem tableBehind_missing {e : PtEntry} (h : e.present = false) : tableBehind e = none := by
  simp [tableBehind, h]

theorem tableBehind_link {e : PtEntry} (hp : e.present = true) (hh : e.hugepage = false) :
    tableBehind e = some e.addr := by
  simp [tableBehind, hp, hh]

theorem tableBehind_of_ne_none {e : PtEntry} (h : tableBehind e ≠ none) :
    e.present = true ∧ e.hugepage = false ∧ tableBehind e = some e.addr := by
  unfold tableBehind at h ⊢
  cases hp : e.present <;> cases hh : e.hugepage <;> simp_all

/-- Above a table there are tables. -/
theorem tableAt_above {d : Nat} : ∀ {k : Nat}, d + k ≤ 3 → tableAt vm addr (d + k) ≠ none → tableAt vm addr d ≠ none
  | 0, _, h => h
  | k + 1, hk, h => by
      refine tableAt_above (k := k) (by omega) (fun hnone => h ?_)
      show tableAt vm addr (d + k + 1) = none
      rw [tableAt_succ (h := 2 - (d + k)) (by omega), hnone]
      rfl

/-- **On the way to a deeper table** the entry here is a link. -/
theorem link_above {d h k table f : Nat} (hd : d + (h + 1) = 3) (ht : tableAt vm addr d = some table)
    (hf : tableAt vm addr k = some f) (hlt : d < k) (hk : k ≤ 3) :
    (vm.tables table (heightOffset addr (h + 1))).present = true ∧
      (vm.tables table (heightOffset addr (h + 1))).hugepage = false ∧
      tableAt vm addr (d + 1) = some (vm.tables table (heightOffset addr (h + 1))).addr := by
  have hbelow : tableAt vm addr (d + 1) ≠ none := by
    refine tableAt_above (k := k - (d + 1)) (by omega) ?_
    rw [show d + 1 + (k - (d + 1)) = k by omega, hf]
    exact Option.some_ne_none f
  rw [tableAt_succ hd, ht] at hbelow ⊢
  exact tableBehind_of_ne_none hbelow

theorem vmCheckStatus_eq_none {e : PtEntry} :
    vmCheckStatus e flags = none ↔ e.present = true ∧ Grants flags e := by
  unfold vmCheckStatus Grants
  cases e.present <;> cases flags.allowWrite <;> cases e.writable <;> cases flags.allowUser <;>
    cases e.userAccessible <;> simp

theorem vmCheckStatus_eq_privilege {e : PtEntry} :
    vmCheckStatus e flags = some .privilege ↔ e.present = true ∧ ¬ Grants flags e := by
  unfold vmCheckStatus Grants
  cases e.present <;> cases flags.allowWrite <;> cases e.writable <;> cases flags.allowUser <;>
    cases e.userAccessible <;> simp

/-! ## Where the walk stops -/

theorem traverse_link {tables : Mem Nat PtEntry} {h table : Nat}
    (hp : (tables table (heightOffset addr (h + 1))).present = true)
    (hg : Grants flags (tables table (heightOffset addr (h + 1)))) :
    traverseWithStatus tables addr flags (h + 1) table =
      traverseWithStatus tables addr flags h (tables table (heightOffset addr (h + 1))).addr := by
  conv_lhs => unfold traverseWithStatus
  simp only [vmCheckStatus_eq_none.mpr ⟨hp, hg⟩]

theorem findBelow_missing {tables : Mem Nat PtEntry} {h table : Nat}
    (hp : (tables table (heightOffset addr (h + 1))).present = false) : findBelow tables addr (h + 1) table = none := by
  unfold findBelow
  simp only [hp, Bool.not_false, if_true]

theorem findBelow_link {tables : Mem Nat PtEntry} {h table : Nat}
    (hp : (tables table (heightOffset addr (h + 1))).present = true) :
    findBelow tables addr (h + 1) table = findBelow tables addr h (tables table (heightOffset addr (h + 1))).addr := by
  conv_lhs => unfold findBelow
  simp only [hp, Bool.not_true, Bool.false_eq_true, if_false]

/-- Every present entry on the way allows what is asked for: the walk comes to the page table or to a missing
    entry. -/
theorem traverse_granted (hhuge : NoHuge vm addr) (hgrant : OnPath vm addr (Grants flags)) :
    ∀ h d table, d + h = 3 → tableAt vm addr d = some table →
      (∃ t, tableAt vm addr 3 = some t ∧ traverseWithStatus vm.tables addr flags h table = (t, 0, none)) ∨
        ∃ d' height stop, d' + (height + 1) = 3 ∧ height < h ∧ tableAt vm addr d' = some stop ∧
          (vm.tables stop (heightOffset addr (height + 1))).present = false ∧
          traverseWithStatus vm.tables addr flags h table = (stop, height + 1, some .unmapped) := by
  intro h
  induction h with
  | zero =>
      intro d table hd ht
      obtain rfl : d = 3 := by omega
      exact Or.inl ⟨table, ht, rfl⟩
  | succ h ih =>
      intro d table hd ht
      have he := entryAt_of_table hd ht
      cases hp : (vm.tables table (heightOffset addr (h + 1))).present with
      | false =>
          refine Or.inr ⟨d, h, table, hd, Nat.lt_succ_self h, ht, hp, ?_⟩
          unfold traverseWithStatus
          simp only [vmCheckStatus_unmapped.mpr hp]
      | true =>
          rw [traverse_link hp (hgrant (h + 1) (by omega) (by omega) _ he hp)]
          have hnext : tableAt vm addr (d + 1) = some (vm.tables table (heightOffset addr (h + 1))).addr := by
            rw [tableAt_succ hd, ht]
            exact tableBehind_link hp (hhuge (h + 1) (by omega) (by omega) _ he hp)
          rcases ih (d + 1) _ (by omega) hnext with hfound | ⟨d', height, stop, hd', hlt, hstop⟩
          · exact Or.inl hfound
          · exact Or.inr ⟨d', height, stop, hd', Nat.lt_succ_of_lt hlt, hstop⟩

/-- A present entry does not allow what is asked for: the walk stops there or at one above it that does not
    either. -/
theorem traverse_denied {height : Nat} {e : PtEntry} (hpos : 1 ≤ height) (he : entryAt vm addr height = some e)
    (hp : e.present = true) (hdeny : ¬ Grants flags e) :
    ∀ h d table, d + h = 3 → height ≤ h → tableAt vm addr d = some table →
      ∃ stop at', traverseWithStatus vm.tables addr flags h table = (stop, at', some .privilege) := by
  intro h
  induction h with
  | zero => exact fun d table _ hle _ => absurd (hpos.trans hle) (by decide)
  | succ h ih =>
      intro d table hd hle ht
      have hhere := entryAt_of_table hd ht
      have hdenied : ∀ x, vm.tables table (heightOffset addr (h + 1)) = x → x.present = true → ¬ Grants flags x →
          ∃ stop at', traverseWithStatus vm.tables addr flags (h + 1) table = (stop, at', some .privilege) := by
        intro x hx hxp hxg
        refine ⟨table, h + 1, ?_⟩
        unfold traverseWithStatus
        simp only [hx, vmCheckStatus_eq_privilege.mpr ⟨hxp, hxg⟩]
      rcases Nat.eq_or_lt_of_le hle with rfl | hlt
      · exact hdenied e (Option.some.inj (hhere.symm.trans he)) hp hdeny
      · -- The entry is further down, so the one here is a link.
        obtain ⟨f, hf, -⟩ := exists_of_entryAt he
        obtain ⟨hlink, -, hnext⟩ := link_above hd ht hf (by omega) (by omega)
        by_cases hg : Grants flags (vm.tables table (heightOffset addr (h + 1)))
        · rw [traverse_link hlink hg]
          exact ih (d + 1) _ (by omega) (by omega) hnext
        · exact hdenied _ rfl hlink hg

/-! ## Making what is missing -/

/-- What the second loop does from a table at height `h`, which has no entry on the way: the table is written at one
    entry, and all else that is written are frames of the queue. -/
structure MadeBelow (vm vm' : VmSpace) (addr : Nat) (flags : VmFlags) (h table t : Nat) : Prop where
  entries : ∀ g, g ≠ table → g ∉ vm.frames → vm'.tables g = vm.tables g
  others : ∀ i, i ≠ heightOffset addr h → vm'.tables table i = vm.tables table i
  pml4t : vm'.pml4t = vm.pml4t
  found : findBelow vm'.tables addr h table = some t
  passed : traverseWithStatus vm'.tables addr flags h table = (t, 0, none)

theorem mapPhysPage_link (flags : VmFlags) {g : Nat} (hg : PageAddr g) (e : PtEntry) :
    (mapPhysPage e g flags).present = true ∧ Grants flags (mapPhysPage e g flags) ∧
      (mapPhysPage e g flags).addr = g := by
  refine ⟨rfl, ⟨fun h => h, fun h => h⟩, ?_⟩
  show 0 ||| (g &&& PtEntry.addrMask) = g
  rw [Nat.zero_or, hg.and_addrMask]

/-- **The second loop makes what is missing**, and what it makes passes the check for the same flags. The induction is
    on the height; each turn goes on in the frame it has just linked. -/
theorem allocateMissing_made (addr : Nat) (flags : VmFlags) :
    ∀ h table (vm : VmSpace), vm.frames.Nodup → (∀ f ∈ vm.frames, PageAddr f) → table ∉ vm.frames →
      h ≤ vm.frames.length →
      ∃ t vm', allocateMissing addr flags h table vm = .ok (t, vm') ∧ MadeBelow vm vm' addr flags h table t := by
  intro h
  induction h with
  | zero =>
      intro table vm _ _ _ _
      exact ⟨table, vm, rfl, fun _ _ _ => rfl, fun _ _ => rfl, rfl, rfl, rfl⟩
  | succ h ih =>
      intro table vm hnodup haligned htable hlen
      cases hframes : vm.frames with
      | nil =>
          rw [hframes] at hlen
          exact absurd hlen (Nat.not_succ_le_zero h)
      | cons g rest =>
          rw [hframes] at hnodup htable hlen haligned
          obtain ⟨hg, hrest⟩ := List.nodup_cons.mp hnodup
          have htg : table ≠ g := fun he => htable (he ▸ List.mem_cons_self)
          have hlink := mapPhysPage_link flags (haligned g List.mem_cons_self)
            ((vm.withTable g rest (newTable flags 0 1)).tables table (heightOffset addr (h + 1)))
          obtain ⟨e, he⟩ : ∃ e, e = mapPhysPage
            ((vm.withTable g rest (newTable flags 0 1)).tables table (heightOffset addr (h + 1))) g flags := ⟨_, rfl⟩
          rw [← he] at hlink
          obtain ⟨hpresent, hgrants, haddr⟩ := hlink
          obtain ⟨t, vm', hrun, hmade⟩ := ih g (linked vm g rest (newTable flags 0 1) table (heightOffset addr (h + 1)) e)
            hrest (fun f hf => haligned f (List.mem_cons_of_mem _ hf)) hg (Nat.le_of_succ_le_succ hlen)
          -- The entry just stored is not written again.
          have hkept : vm'.tables table =
              (linked vm g rest (newTable flags 0 1) table (heightOffset addr (h + 1)) e).tables table :=
            hmade.entries table htg (fun hmem => htable (List.mem_cons_of_mem _ hmem))
          have hentry : vm'.tables table (heightOffset addr (h + 1)) = e := by
            rw [hkept]
            exact set_self
          refine ⟨t, vm', ?_, fun x hx hmem => ?_, fun i hi => ?_, hmade.pml4t, ?_, ?_⟩
          · unfold allocateMissing
            rw [allocPageTables_one flags hframes, ok_bind]
            rw [he] at hrun
            exact hrun
          · have hxg : x ≠ g := fun hxg => hmem (hframes ▸ hxg ▸ List.mem_cons_self)
            rw [hmade.entries x hxg (fun hmem' => hmem (hframes ▸ List.mem_cons_of_mem _ hmem'))]
            exact Linkable.tables_eq hx hxg
          · rw [hkept]
            show Radix.set (Function.update vm.tables g _) table (heightOffset addr (h + 1)) e table i = _
            rw [set_of_ne_index hi, Function.update_of_ne htg]
          · rw [findBelow_link (hentry ▸ hpresent), hentry, haddr]
            exact hmade.found
          · rw [traverse_link (hentry ▸ hpresent) (hentry ▸ hgrants), hentry, haddr]
            exact hmade.passed

/-! ## What the walks see afterwards -/

/-- A walk that found a page table comes to it again if no entry was changed but a missing one. -/
theorem findBelow_kept {stop offset : Nat} {a : Nat} (hhuge : NoHuge vm a)
    (hmissing : (vm.tables stop offset).present = false)
    (hsame : ∀ d f, tableAt vm a d = some f → d ≤ 3 → f ≠ stop → vm'.tables f = vm.tables f)
    (hstop : ∀ i, i ≠ offset → vm'.tables stop i = vm.tables stop i) {g : Nat} :
    ∀ h d table, d + h = 3 → tableAt vm a d = some table → findBelow vm.tables a h table = some g →
      findBelow vm'.tables a h table = some g ∧ tableAt vm a 3 = some g := by
  intro h
  induction h with
  | zero =>
      intro d table hd ht hfind
      obtain rfl : d = 3 := by omega
      cases hfind
      exact ⟨rfl, ht⟩
  | succ h ih =>
      intro d table hd ht hfind
      cases hp : (vm.tables table (heightOffset a (h + 1))).present with
      | false =>
          rw [findBelow_missing hp] at hfind
          cases hfind
      | true =>
          have hentry : vm'.tables table (heightOffset a (h + 1)) = vm.tables table (heightOffset a (h + 1)) := by
            by_cases hts : table = stop
            · subst hts
              apply hstop
              rintro rfl
              rw [hmissing] at hp
              cases hp
            · rw [hsame d table ht (by omega) hts]
          rw [findBelow_link hp] at hfind
          rw [findBelow_link (hentry ▸ hp), hentry]
          refine ih (d + 1) _ (by omega) ?_ hfind
          rw [tableAt_succ hd, ht]
          exact tableBehind_link hp (hhuge (h + 1) (by omega) (by omega) _ (entryAt_of_table hd ht) hp)

/-- `__find_pt_or_null` comes to the page tables of the tree. -/
theorem findPtOrNull_of_tableAt {t : Nat} (ht : tableAt vm addr 3 = some t) : findPtOrNull vm addr = some t := by
  have hwalk : ∀ h d table, d + h = 3 → tableAt vm addr d = some table →
      findBelow vm.tables addr h table = some t := by
    intro h
    induction h with
    | zero =>
        intro d table hd hf
        obtain rfl : d = 3 := by omega
        obtain rfl := Option.some.inj (hf.symm.trans ht)
        rfl
    | succ h ih =>
        intro d table hd hf
        obtain ⟨hp, -, hnext⟩ := link_above hd hf ht (by omega) (Nat.le_refl 3)
        rw [findBelow_link hp]
        exact ih (d + 1) _ (by omega) hnext
  exact hwalk 3 0 vm.pml4t rfl tableAt_zero

/-- A walk that stopped at a missing entry comes to the same table and goes on from there. -/
theorem walks_to_stop (vm' : VmSpace) (d' height : Nat) {stop : Nat} (hgrant : OnPath vm addr (Grants flags))
    (hd' : d' + height = 3) (hstop : tableAt vm addr d' = some stop)
    (hsame : ∀ d f, tableAt vm addr d = some f → d < d' → vm'.tables f = vm.tables f) :
    ∀ h d table, d + h = 3 → d ≤ d' → tableAt vm addr d = some table →
      findBelow vm'.tables addr h table = findBelow vm'.tables addr height stop ∧
        traverseWithStatus vm'.tables addr flags h table = traverseWithStatus vm'.tables addr flags height stop := by
  intro h
  induction h with
  | zero =>
      intro d table hd hle ht
      obtain rfl : d = d' := by omega
      obtain rfl : height = 0 := by omega
      obtain rfl := Option.some.inj (ht.symm.trans hstop)
      exact ⟨rfl, rfl⟩
  | succ h ih =>
      intro d table hd hle ht
      rcases Nat.eq_or_lt_of_le hle with rfl | hlt
      · obtain rfl : height = h + 1 := by omega
        obtain rfl := Option.some.inj (ht.symm.trans hstop)
        exact ⟨rfl, rfl⟩
      · obtain ⟨hp, -, hchild⟩ := link_above hd ht hstop hlt (by omega)
        have hg := hgrant (h + 1) (by omega) (by omega) _ (entryAt_of_table hd ht) hp
        obtain ⟨hfind, htrav⟩ := ih (d + 1) _ (by omega) hlt hchild
        rw [← hsame d table ht hlt] at hp hg hfind htrav
        rw [findBelow_link hp, traverse_link hp hg]
        exact ⟨hfind, htrav⟩

/-- The tables on the way are there down to a depth, and missing below it. -/
theorem missingLevels_eq (d' : Nat) (hd' : d' ≤ 3) (hsome : tableAt vm addr d' ≠ none)
    (hnone : d' < 3 → tableAt vm addr (d' + 1) = none) : missingLevels vm addr = 3 - d' := by
  have hiff : ∀ d ∈ List.range 3, (decide (tableAt vm addr (d + 1) = none) = true ↔ decide (d' < d + 1) = true) := by
    intro d hd
    have hd : d < 3 := List.mem_range.mp hd
    rw [decide_eq_true_iff, decide_eq_true_iff]
    constructor
    · intro h
      by_contra hle
      refine tableAt_above (d := d + 1) (k := d' - (d + 1)) (by omega) ?_ h
      rw [show d + 1 + (d' - (d + 1)) = d' by omega]
      exact hsome
    · intro hlt
      by_contra h
      refine tableAt_above (d := d' + 1) (k := d - d') (by omega) ?_ (hnone (by omega))
      rw [show d' + 1 + (d - d') = d + 1 by omega]
      exact h
  unfold missingLevels
  rw [List.countP_congr hiff]
  rcases d' with _ | _ | _ | _ | d'
  · rfl
  · rfl
  · rfl
  · rfl
  · omega

/-! ## The call -/

/-- `__find_or_allocate_pt` has found or made the table `t`: no error, one new table for each level that was missing,
    the walk of `__find_pt_or_null` and a second call come to the same table, and all page tables there were are
    where they were, with their contents. -/
structure FoundOrMade (vm vm' : VmSpace) (addr : Nat) (flags : VmFlags) (t : Nat) : Prop where
  result : findOrAllocatePt vm addr flags = .ok (some t, missingLevels vm addr, vm')
  noError : findOrAllocateError vm addr flags = none
  found : findPtOrNull vm' addr = some t
  again : findOrAllocatePt vm' addr flags = .ok (some t, 0, vm')
  others : ∀ a g, NoHuge vm a → findPtOrNull vm a = some g → findPtOrNull vm' a = some g ∧ vm'.tables g = vm.tables g

theorem foundOrMade_of_table {t : Nat} (hgrant : OnPath vm addr (Grants flags)) (ht : tableAt vm addr 3 = some t)
    (hwalk : traverseWithStatus vm.tables addr flags 3 vm.pml4t = (t, 0, none)) : FoundOrMade vm vm addr flags t := by
  have hlevels : missingLevels vm addr = 0 :=
    missingLevels_eq 3 (Nat.le_refl 3) (by rw [ht]; exact Option.some_ne_none t) (fun h => absurd h (by decide))
  have hrun : findOrAllocatePt vm addr flags = .ok (some t, 0, vm) := by
    unfold findOrAllocatePt
    rw [hwalk]
  refine ⟨by rw [hlevels]; exact hrun, ?_, findPtOrNull_of_tableAt ht, hrun, fun a g _ hg => ⟨hg, rfl⟩⟩
  unfold findOrAllocateError
  rw [hwalk]

/-- The first missing entry is in the table `stop`. -/
theorem foundOrMade_of_stop (htree : TableTree vm) (hframes : FramesApart vm) (hgrant : OnPath vm addr (Grants flags))
    {d' height stop : Nat} (hd' : d' + (height + 1) = 3) (hstop : tableAt vm addr d' = some stop)
    (hmissing : (vm.tables stop (heightOffset addr (height + 1))).present = false)
    (hwalk : traverseWithStatus vm.tables addr flags 3 vm.pml4t = (stop, height + 1, some .unmapped))
    (hlen : missingLevels vm addr ≤ vm.frames.length) : ∃ t vm', FoundOrMade vm vm' addr flags t := by
  have hlevels : missingLevels vm addr = height + 1 := by
    rw [missingLevels_eq d' (by omega) (by rw [hstop]; exact Option.some_ne_none stop) (fun _ => ?_)]
    · omega
    · rw [tableAt_succ hd', hstop]
      exact tableBehind_missing hmissing
  have hapart : ∀ a d f, d ≤ 3 → tableAt vm a d = some f → f ∉ vm.frames :=
    fun a d f hd hf hmem => hframes.apart f hmem d _ (anywhere_path a hd) hf
  obtain ⟨t, vm', hrun, hmade⟩ := allocateMissing_made addr flags (height + 1) stop vm hframes.nodup hframes.aligned
    (hapart addr d' stop (by omega) hstop) (hlevels ▸ hlen)
  -- A table is at one position only: `stop` is neither above itself nor a page table.
  have hdepth : ∀ a d f, d ≤ 3 → tableAt vm a d = some f → f = stop → d = d' := by
    rintro a d f hd hf rfl
    exact (htree d _ d' _ f (anywhere_path a hd) (anywhere_path addr (by omega)) hf hstop).1
  have hkept : ∀ a d f, d ≤ 3 → tableAt vm a d = some f → f ≠ stop → vm'.tables f = vm.tables f :=
    fun a d f hd hf hne => hmade.entries f hne (hapart a d f hd hf)
  obtain ⟨hfind, htrav⟩ := walks_to_stop vm' d' (height + 1) hgrant hd' hstop
    (fun d f hf hlt => hkept addr d f (by omega) hf (fun he => by have := hdepth addr d f (by omega) hf he; omega))
    3 0 vm.pml4t rfl (Nat.zero_le d') tableAt_zero
  refine ⟨t, vm', ?_, ?_, ?_, ?_, fun a g hhuge hg => ?_⟩
  · unfold findOrAllocatePt
    rw [hwalk, hlevels]
    show allocateMissing addr flags (height + 1) stop vm >>= _ = _
    rw [hrun, ok_bind]
  · unfold findOrAllocateError
    rw [hwalk]
  · unfold findPtOrNull
    rw [hmade.pml4t, hfind]
    exact hmade.found
  · unfold findOrAllocatePt
    rw [hmade.pml4t, htrav, hmade.passed]
  · obtain ⟨hg', hleaf⟩ := findBelow_kept hhuge hmissing (fun d f hf hd hne => hkept a d f hd hf hne) hmade.others
      3 0 vm.pml4t rfl tableAt_zero hg
    refine ⟨?_, hkept a 3 g (Nat.le_refl 3) hleaf (fun he => ?_)⟩
    · unfold findPtOrNull
      rw [hmade.pml4t]
      exact hg'
    · have := hdepth a 3 g (Nat.le_refl 3) hleaf he
      omega

theorem traverse_of_denied (h : Denied vm addr flags) :
    ∃ stop height, traverseWithStatus vm.tables addr flags 3 vm.pml4t = (stop, height, some .privilege) := by
  obtain ⟨h, e, hpos, hle, he, hp, hdeny⟩ := h
  exact traverse_denied hpos he hp hdeny 3 0 vm.pml4t rfl hle tableAt_zero

theorem findOrAllocatePt_denied (h : Denied vm addr flags) : findOrAllocatePt vm addr flags = .ok (none, 0, vm) := by
  obtain ⟨stop, height, hwalk⟩ := traverse_of_denied h
  unfold findOrAllocatePt
  rw [hwalk]

theorem findOrAllocateError_denied (h : Denied vm addr flags) :
    findOrAllocateError vm addr flags = some .privilege := by
  obtain ⟨stop, height, hwalk⟩ := traverse_of_denied h
  unfold findOrAllocateError
  rw [hwalk]

end

/-- A top table without entries, and six frames. -/
def bareSpace : VmSpace where
  tables := fun _ _ => .zero
  pml4t := 0x1000
  zones := vmzoneInit
  sensitiveMemPdpt := none
  normalMemPdpt := none
  frames := [0x2000, 0x3000, 0x4000, 0x5000, 0x6000, 0x7000]
  pageTables := [0x1000]
  calls := []

theorem bareSpace_node {d p f : Nat} (h : node tableBehind 512 bareSpace.tables bareSpace.pml4t d p = some f) :
    d = 0 ∧ f = 0x1000 := by
  cases d with
  | zero => exact ⟨rfl, (Option.some.inj h).symm⟩
  | succ d =>
      obtain ⟨g, -, hg⟩ := Option.bind_eq_some_iff.mp h
      cases hg

theorem bareSpace_tree : TableTree bareSpace := by
  rintro d p d' p' f ⟨-, hp⟩ ⟨-, hp'⟩ h h'
  obtain ⟨rfl, -⟩ := bareSpace_node h
  obtain ⟨rfl, -⟩ := bareSpace_node h'
  exact ⟨rfl, by omega⟩

theorem bareSpace_onPath (addr : Nat) (P : PtEntry → Prop) : OnPath bareSpace addr P := by
  intro h _ _ e he hp
  obtain ⟨f, -, rfl⟩ := exists_of_entryAt he
  cases hp

theorem bareSpace_frames : FramesApart bareSpace where
  nodup := by decide
  aligned := by decide
  apart := by
    rintro f hf d p - h
    obtain ⟨-, rfl⟩ := bareSpace_node h
    revert hf
    decide

end LearningOS.Paging
