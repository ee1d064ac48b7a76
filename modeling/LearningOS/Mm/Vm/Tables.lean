import LearningOS.Mm.Vm.Model

/-!
# `Mm.Vm.Tables` — the page tables as one map from pages to entries

The kernel zones are the part of the address space from `KERNEL_NORMAL_MEM` to `KERNEL_VMA`; above it the tables of
the last 2GB hold huge pages. `Own` are the positions of that part in the tree of `Lib.Radix`, and `TreeOk` says that
the tables form a tree there. `leaf` then is what the rest of the development looks at: the page-table entry of a
page, given by its number `addr / 4096`, with `0` where the page table is missing.

* `findPtOrNull_eq`, `findOrAllocatePt_spec` — the two walks find the leaf table, the second makes it;
* `leaf_store`, `MadeTable.leaf_eq` — how a store and a new table change the map;
* `findOrAllocatePt_total` — when the second walk does not fail.
-/

namespace LearningOS.Paging

open Word Run Radix

/-! ## Positions -/

/-- The table an entry points to. -/
def childOf (e : PtEntry) : Option Nat := if e.present then some e.addr else none

/-- The positions of the tables of the kernel zones, from `KERNEL_NORMAL_MEM` to below `KERNEL_VMA`. -/
def Own : Nat → Nat → Prop
  | 0, p => p = 0xFFFF
  | 1, p => 0x1FFFFFE ≤ p ∧ p ≤ 0x1FFFFFF
  | 2, p => 0x3FFFFFC00 ≤ p ∧ p < 0x3FFFFFFFE
  | 3, p => 0x7FFFFF80000 ≤ p ∧ p < 0x7FFFFFFFC00
  | _ + 4, _ => False

instance (d p : Nat) : Decidable (Own d p) :=
  match d with
  | 0 => inferInstanceAs (Decidable (_ = _))
  | 1 => inferInstanceAs (Decidable (_ ∧ _))
  | 2 => inferInstanceAs (Decidable (_ ∧ _))
  | 3 => inferInstanceAs (Decidable (_ ∧ _))
  | _ + 4 => inferInstanceAs (Decidable False)

theorem own_positions : Positions 512 Own where
  up := by
    rintro (_ | _ | _ | d) p h
    · have h : 0x1FFFFFE ≤ p ∧ p ≤ 0x1FFFFFF := h
      show p / 512 = 0xFFFF
      omega
    · have h : 0x3FFFFFC00 ≤ p ∧ p < 0x3FFFFFFFE := h
      show 0x1FFFFFE ≤ p / 512 ∧ p / 512 ≤ 0x1FFFFFF
      omega
    · have h : 0x7FFFFF80000 ≤ p ∧ p < 0x7FFFFFFFC00 := h
      show 0x3FFFFFC00 ≤ p / 512 ∧ p / 512 < 0x3FFFFFFFE
      omega
    · exact h.elim

theorem own_depth {d p : Nat} (h : Own d p) : d ≤ 3 := by
  rcases d with _ | _ | _ | _ | d
  · omega
  · omega
  · omega
  · omega
  · exact h.elim

theorem own_leaf {t : Nat} : Own 3 t ↔ 0x7FFFFF80000 ≤ t ∧ t < 0x7FFFFFFFC00 := Iff.rfl

/-- A page of the kernel zones. -/
def OwnPage (v : Nat) : Prop := Own 3 (v / 512)

theorem ownPage_iff {v : Nat} : OwnPage v ↔ 0xFFFFFF0000000 ≤ v ∧ v < 0xFFFFFFFF80000 := by
  unfold OwnPage
  rw [own_leaf]
  omega

/-- The path from the top table to the table an address needs at the given depth. -/
def path (addr d : Nat) : Nat := addr / 2 ^ (48 - 9 * d)

theorem path_three (addr : Nat) : path addr 3 = addr / 4096 / 512 := by
  show addr / 2 ^ 21 = _
  omega

theorem path_div (addr : Nat) {d : Nat} (hd : d < 3) : path addr (d + 1) / 512 = path addr d := by
  rcases d with _ | _ | _ | d
  · show addr / 2 ^ 39 / 512 = addr / 2 ^ 48
    omega
  · show addr / 2 ^ 30 / 512 = addr / 2 ^ 39
    omega
  · show addr / 2 ^ 21 / 512 = addr / 2 ^ 30
    omega
  · omega

theorem path_mod (addr : Nat) {d h : Nat} (hd : d + (h + 1) = 3) :
    path addr (d + 1) % 512 = heightOffset addr (h + 1) := by
  have he : 48 - 9 * (d + 1) = 12 + (h + 1) * 9 := by omega
  rw [heightOffset_eq, path, he]

theorem own_path {addr d : Nat} (h : Own 3 (path addr 3)) (hd : d ≤ 3) : Own d (path addr d) := by
  have h2 : Own 2 (path addr 2) := path_div addr (d := 2) (by omega) ▸ own_positions.up 2 _ h
  have h1 : Own 1 (path addr 1) := path_div addr (d := 1) (by omega) ▸ own_positions.up 1 _ h2
  have h0 : Own 0 (path addr 0) := path_div addr (d := 0) (by omega) ▸ own_positions.up 0 _ h1
  rcases d with _ | _ | _ | _ | d
  · exact h0
  · exact h1
  · exact h2
  · exact h
  · omega

/-! ## The tree -/

/-- The table at a position. -/
def nodeOf (vm : VmSpace) (d p : Nat) : Option Nat := node childOf 512 vm.tables vm.pml4t d p

/-- The page table at a position. -/
def leafTable (vm : VmSpace) (t : Nat) : Option Nat := nodeOf vm 3 t

/-- The page-table entry of a page. -/
def leaf (vm : VmSpace) (v : Nat) : PtEntry :=
  match leafTable vm (v / 512) with
  | none => .zero
  | some f => vm.tables f (v % 512)

/-- The tables of the kernel zones form a tree, and are tables the kernel made. -/
structure TreeOk (vm : VmSpace) : Prop where
  separate : Separate childOf 512 Own vm.tables vm.pml4t
  made : ∀ d p f, Own d p → nodeOf vm d p = some f → f ∈ vm.pageTables

/-- The frames the physical allocator will answer for page tables are in use as none. -/
structure FreshFrames (vm : VmSpace) : Prop where
  nodup : vm.frames.Nodup
  aligned : ∀ f ∈ vm.frames, PageAddr f
  unused : ∀ f ∈ vm.frames, f ∉ vm.pageTables

/-- Every entry on the way to a page table of the kernel zones allows writing. -/
def AllWritable (vm : VmSpace) : Prop :=
  ∀ d p f, Own (d + 1) p → nodeOf vm d (p / 512) = some f → (vm.tables f (p % 512)).present = true →
    (vm.tables f (p % 512)).writable = true

section

variable {vm vm' : VmSpace}

theorem leaf_of_table {v f : Nat} (h : leafTable vm (v / 512) = some f) : leaf vm v = vm.tables f (v % 512) := by
  unfold leaf
  rw [h]

theorem leaf_of_missing {v : Nat} (h : leafTable vm (v / 512) = none) : leaf vm v = .zero := by
  unfold leaf
  rw [h]

theorem nodeOf_succ (d p : Nat) :
    nodeOf vm (d + 1) p = (nodeOf vm d (p / 512)).bind (fun f => childOf (vm.tables f (p % 512))) := rfl

/-- A missing table has no table below it. -/
theorem leafTable_none_of_missing {addr d : Nat} (hd : d < 3)
    (h : nodeOf vm (d + 1) (path addr (d + 1)) = none) : leafTable vm (path addr 3) = none := by
  have hdown : ∀ k, d + 1 + k ≤ 3 → nodeOf vm (d + 1 + k) (path addr (d + 1 + k)) = none := by
    intro k
    induction k with
    | zero => exact fun _ => h
    | succ k ih =>
        intro hk
        show nodeOf vm (d + 1 + k + 1) (path addr (d + 1 + k + 1)) = none
        rw [nodeOf_succ, path_div addr (by omega), ih (by omega)]
        rfl
  have h3 := hdown (2 - d) (by omega)
  have he : d + 1 + (2 - d) = 3 := by omega
  rwa [he] at h3

/-- The walk of `__find_pt_or_null` follows the path. -/
theorem findBelow_eq (addr : Nat) :
    ∀ h d table, d + h = 3 → nodeOf vm d (path addr d) = some table →
      findBelow vm.tables addr h table = nodeOf vm 3 (path addr 3) := by
  intro h
  induction h with
  | zero =>
      intro d table hd hnode
      obtain rfl : d = 3 := by omega
      exact hnode.symm
  | succ h ih =>
      intro d table hd hnode
      have hnext : nodeOf vm (d + 1) (path addr (d + 1)) =
          childOf (vm.tables table (heightOffset addr (h + 1))) := by
        rw [nodeOf_succ, path_div addr (by omega), hnode, path_mod addr hd]
        rfl
      show (if !(vm.tables table (heightOffset addr (h + 1))).present then none else _) = _
      by_cases hp : (vm.tables table (heightOffset addr (h + 1))).present
      · rw [hp]
        refine ih (d + 1) _ (by omega) ?_
        rw [hnext, childOf, if_pos hp]
      · have hmissing : nodeOf vm (d + 1) (path addr (d + 1)) = none := by
          rw [hnext, childOf, if_neg hp]
        have hleaf := leafTable_none_of_missing (by omega) hmissing
        rw [Bool.eq_false_iff.mpr hp]
        exact hleaf.symm

/-- **`__find_pt_or_null` finds the page table.** -/
theorem findPtOrNull_eq (addr : Nat) : findPtOrNull vm addr = leafTable vm (addr / 4096 / 512) := by
  rw [← path_three]
  exact findBelow_eq addr 3 0 vm.pml4t rfl rfl

/-! ## Stores into page tables -/

section Store

variable {t f i : Nat} {e : PtEntry}

/-- A store into a page table moves no table. -/
theorem nodeOf_store (hok : TreeOk vm) (ht : Own 3 t) (hf : leafTable vm t = some f) {d p : Nat} (hp : Own d p) :
    nodeOf (vm.store f i e) d p = nodeOf vm d p :=
  node_set_leaf own_positions hok.separate (fun _ _ h => own_depth h) ht hf i e d p hp

theorem leafTable_store (hok : TreeOk vm) (ht : Own 3 t) (hf : leafTable vm t = some f) {t' : Nat}
    (ht' : Own 3 t') : leafTable (vm.store f i e) t' = leafTable vm t' :=
  nodeOf_store hok ht hf ht'

theorem treeOk_store (hok : TreeOk vm) (ht : Own 3 t) (hf : leafTable vm t = some f) :
    TreeOk (vm.store f i e) where
  separate := hok.separate.congr (fun _ _ hp => nodeOf_store hok ht hf hp)
  made := fun d p g hp hg => hok.made d p g hp ((nodeOf_store hok ht hf hp).symm.trans hg)

theorem allWritable_store (hok : TreeOk vm) (ht : Own 3 t) (hf : leafTable vm t = some f) (hw : AllWritable vm) :
    AllWritable (vm.store f i e) := by
  intro d p g hp hg
  rw [nodeOf_store hok ht hf (own_positions.up d p hp)] at hg
  have hgf : g ≠ f := by
    rintro rfl
    obtain ⟨hd, -⟩ := hok.separate _ _ _ _ _ (own_positions.up d p hp) ht hg hf
    have := own_depth hp
    omega
  have hsame : (vm.store f i e).tables g (p % 512) = vm.tables g (p % 512) := set_of_ne_table hgf
  rw [hsame]
  exact hw d p g hp hg

/-- **A store into a page table** changes the entry of one page. -/
theorem leaf_store (hok : TreeOk vm) (ht : Own 3 t) (hf : leafTable vm t = some f) {v : Nat} (hv : OwnPage v)
    (hi : i < 512) : leaf (vm.store f i e) v = if v = t * 512 + i then e else leaf vm v := by
  have hsame := leafTable_store (i := i) (e := e) hok ht hf hv
  cases hg : leafTable vm (v / 512) with
  | none =>
      rw [leaf_of_missing (hsame.trans hg), leaf_of_missing hg, if_neg]
      intro hv'
      have htv : v / 512 = t := by omega
      rw [htv, hf] at hg
      cases hg
  | some g =>
      rw [leaf_of_table (hsame.trans hg), leaf_of_table hg]
      show Radix.set vm.tables f i e g (v % 512) = _
      by_cases hgf : g = f
      · subst hgf
        obtain ⟨-, htv⟩ := hok.separate _ _ _ _ _ hv ht hg hf
        by_cases hiv : v % 512 = i
        · rw [if_pos (by omega), hiv, set_self]
        · rw [if_neg (by omega), set_of_ne_index hiv]
      · rw [set_of_ne_table hgf, if_neg]
        intro hv'
        have htv : v / 512 = t := by omega
        rw [htv, hf] at hg
        exact hgf (Option.some.inj hg).symm

end Store

/-! ## New page tables -/

theorem present_newTable (flags : VmFlags) (i n j : Nat) : (newTable flags i n j).present = false := by
  unfold newTable
  by_cases hj : j = 0
  · subst hj
    rw [Function.update_self]
    rfl
  · rw [Function.update_of_ne hj]
    rfl

theorem childOf_mapPhysPage {g : Nat} (hg : PageAddr g) (e : PtEntry) (flags : VmFlags) :
    childOf (mapPhysPage e g flags) = some g := by
  have haddr : (mapPhysPage e g flags).addr = g := by
    show 0 ||| (g &&& PtEntry.addrMask) = g
    rw [Nat.zero_or, hg.and_addrMask]
  rw [childOf, haddr, if_pos]
  rfl

/-- The state after one new page table. -/
def VmSpace.withTable (vm : VmSpace) (g : Nat) (rest : List Nat) (content : Nat → PtEntry) : VmSpace :=
  { vm with
    tables := Function.update vm.tables g content
    frames := rest
    pageTables := g :: vm.pageTables }

theorem allocPageTables_one (flags : VmFlags) {g : Nat} {rest : List Nat} (h : vm.frames = g :: rest) :
    allocPageTables vm 1 flags = .ok (g, vm.withTable g rest (newTable flags 0 1)) := by
  simp [allocPageTables, h, VmSpace.withTable]

theorem allocPageTables_one_ok {flags : VmFlags} {g : Nat} (h : allocPageTables vm 1 flags = .ok (g, vm')) :
    ∃ rest, vm.frames = g :: rest ∧ vm' = vm.withTable g rest (newTable flags 0 1) := by
  cases hf : vm.frames with
  | nil =>
      simp only [allocPageTables, hf] at h
      cases h
  | cons g' rest =>
      rw [allocPageTables_one flags hf] at h
      cases h
      exact ⟨rest, rfl, rfl⟩

/-- A frame that is no page table is at no position. -/
theorem TreeOk.foreign (hok : TreeOk vm) {g : Nat} (hg : g ∉ vm.pageTables) :
    Foreign childOf 512 Own vm.tables vm.pml4t g :=
  fun d p hp hnode => hg (hok.made d p g hp hnode)

/-- What making the page table at position `t` does: everything else stays. -/
structure MadeTable (vm vm' : VmSpace) (t : Nat) (flags : VmFlags) (f : Nat) : Prop where
  ok : TreeOk vm'
  fresh : FreshFrames vm'
  here : leafTable vm' t = some f
  other : ∀ t', Own 3 t' → t' ≠ t → leafTable vm' t' = leafTable vm t'
  entries : ∀ t' g, Own 3 t' → leafTable vm t' = some g → vm'.tables g = vm.tables g
  content : vm'.tables f = newTable flags 0 1
  writable : AllWritable vm → flags.allowWrite = true → AllWritable vm'
  zones : vm'.zones = vm.zones
  calls : vm'.calls = vm.calls
  pageTables : ∀ g ∈ vm'.pageTables, g ∈ vm.pageTables ∨ g ∈ vm.frames

section Link

variable {g d q table : Nat} {rest : List Nat} {content : Nat → PtEntry} {e : PtEntry}

/-- The state after a new table was linked below `table`. -/
def linked (vm : VmSpace) (g : Nat) (rest : List Nat) (content : Nat → PtEntry) (table offset : Nat) (e : PtEntry) :
    VmSpace :=
  (vm.withTable g rest content).store table offset e

/-- The table `g` is new and empty, and `e` points to it; the table at depth `d` has no entry yet where `e` goes. -/
structure Linkable (vm : VmSpace) (g : Nat) (content : Nat → PtEntry) (d q table : Nat) (e : PtEntry) : Prop where
  ok : TreeOk vm
  unused : g ∉ vm.pageTables
  blank : ∀ i, (content i).present = false
  own : Own (d + 1) q
  parent : nodeOf vm d (q / 512) = some table
  empty : childOf (vm.tables table (q % 512)) = none
  points : childOf e = some g

namespace Linkable

variable (h : Linkable vm g content d q table e)
include h

theorem up : Own d (q / 512) := own_positions.up d q h.own

theorem parent_ne : table ≠ g := fun he => h.unused (he ▸ h.ok.made d _ _ h.up h.parent)

theorem blank_child (i : Nat) : childOf (content i) = none := by
  unfold childOf
  rw [h.blank i]
  rfl

/-- Linking a new table below an empty entry adds one table. -/
theorem nodeOf_eq {d' p : Nat} (hp : Own d' p) :
    nodeOf (linked vm g rest content table (q % 512) e) d' p =
      if d' = d + 1 ∧ p = q then some g else nodeOf vm d' p :=
  node_graft own_positions h.ok.separate h.own h.parent h.empty h.points (h.ok.foreign h.unused) h.blank_child d' p hp

theorem treeOk : TreeOk (linked vm g rest content table (q % 512) e) := by
  constructor
  · exact separate_graft own_positions h.ok.separate h.own h.parent h.empty h.points (h.ok.foreign h.unused)
      h.blank_child
  · intro d' p f hp hf
    rw [h.nodeOf_eq hp] at hf
    show f ∈ g :: vm.pageTables
    by_cases hc : d' = d + 1 ∧ p = q
    · rw [if_pos hc] at hf
      exact Option.some.inj hf ▸ List.mem_cons_self
    · rw [if_neg hc] at hf
      exact List.mem_cons_of_mem _ (h.ok.made d' p f hp hf)

omit h in
/-- The entries of all other tables stay. -/
theorem tables_eq {f offset : Nat} (hft : f ≠ table) (hfg : f ≠ g) :
    (linked vm g rest content table offset e).tables f = vm.tables f := graft_of_ne hft hfg

/-- The new table has its content. -/
theorem tables_new {offset : Nat} : (linked vm g rest content table offset e).tables g = content :=
  graft_new h.parent_ne

/-- The page tables that were there keep their entries. -/
theorem tables_leaf {t f : Nat} (hd : d < 3) (ht : Own 3 t) (hf : leafTable vm t = some f) :
    (linked vm g rest content table (q % 512) e).tables f = vm.tables f := by
  refine tables_eq ?_ (fun he => h.unused (he ▸ h.ok.made 3 t _ ht hf))
  rintro rfl
  obtain ⟨hd3, -⟩ := h.ok.separate _ _ _ _ _ ht h.up hf h.parent
  omega

theorem allWritable (hw : AllWritable vm) (he : e.writable = true) :
    AllWritable (linked vm g rest content table (q % 512) e) := by
  intro d' p f hp hf hpresent
  rw [h.nodeOf_eq (own_positions.up d' p hp)] at hf
  by_cases hc : d' = d + 1 ∧ p / 512 = q
  · -- The new table has no entry that is present.
    rw [if_pos hc] at hf
    obtain rfl := Option.some.inj hf
    rw [h.tables_new, h.blank] at hpresent
    cases hpresent
  · rw [if_neg hc] at hf
    have hfg : f ≠ g := fun he => h.unused (he ▸ h.ok.made d' _ _ (own_positions.up d' p hp) hf)
    by_cases hft : f = table
    · subst hft
      by_cases hi : p % 512 = q % 512
      · rw [hi]
        show PtEntry.writable (Radix.set _ f (q % 512) _ f (q % 512)) = true
        rw [set_self]
        exact he
      · have hsame : (linked vm g rest content f (q % 512) e).tables f (p % 512) = vm.tables f (p % 512) := by
          show Radix.set (Function.update vm.tables g content) f (q % 512) _ f (p % 512) = _
          rw [set_of_ne_index hi, Function.update_of_ne hfg]
        rw [hsame] at hpresent ⊢
        exact hw d' p f hp hf hpresent
    · rw [tables_eq hft hfg] at hpresent ⊢
      exact hw d' p f hp hf hpresent

end Linkable

end Link

/-- A frame of the queue is taken by linking it. -/
theorem freshFrames_linked {g : Nat} {rest : List Nat} {content : Nat → PtEntry} {table offset : Nat} {e : PtEntry}
    (hfr : FreshFrames vm) (hframes : vm.frames = g :: rest) :
    FreshFrames (linked vm g rest content table offset e) := by
  have hnodup := hfr.nodup
  rw [hframes] at hnodup
  have hmem : ∀ f ∈ rest, f ∈ vm.frames := fun f hf => hframes ▸ List.mem_cons_of_mem _ hf
  refine ⟨(List.nodup_cons.mp hnodup).2, fun f hf => hfr.aligned f (hmem f hf), fun f hf => ?_⟩
  show f ∉ g :: vm.pageTables
  rw [List.mem_cons, not_or]
  exact ⟨fun he => (List.nodup_cons.mp hnodup).1 (he ▸ hf), hfr.unused f (hmem f hf)⟩

/-- The loop of `__find_or_allocate_pt` makes the page table. The induction is on the height: each turn links one
    new table below the last one. -/
theorem allocateMissing_spec (addr : Nat) (flags : VmFlags) (hown : Own 3 (path addr 3)) :
    ∀ h d table vm f vm', d + h = 3 → TreeOk vm → FreshFrames vm → nodeOf vm d (path addr d) = some table →
      (0 < h → childOf (vm.tables table (heightOffset addr h)) = none) →
      (h = 0 → vm.tables table = newTable flags 0 1) →
      allocateMissing addr flags h table vm = .ok (f, vm') → MadeTable vm vm' (path addr 3) flags f := by
  intro h
  induction h with
  | zero =>
      intro d table vm f vm' hd hok hfr hnode _ hcontent hrun
      obtain rfl : d = 3 := by omega
      cases hrun
      exact ⟨hok, hfr, hnode, fun _ _ _ => rfl, fun _ _ _ _ => rfl, hcontent rfl, fun hw _ => hw, rfl, rfl,
        fun g hg => Or.inl hg⟩
  | succ h ih =>
      intro d table vm f vm' hd hok hfr hnode hempty _ hrun
      obtain ⟨⟨g, vm1⟩, halloc, hrun⟩ := bind_eq_ok.mp hrun
      obtain ⟨rest, hframes, rfl⟩ := allocPageTables_one_ok halloc
      have hgmem : g ∈ vm.frames := hframes ▸ List.mem_cons_self
      rw [← path_mod addr hd] at hrun hempty
      obtain ⟨entry, hentry⟩ : ∃ entry, entry = mapPhysPage ((vm.withTable g rest (newTable flags 0 1)).tables table
        (path addr (d + 1) % 512)) g flags := ⟨_, rfl⟩
      have hrun : allocateMissing addr flags h g
          (linked vm g rest (newTable flags 0 1) table (path addr (d + 1) % 512) entry) = .ok (f, vm') := by
        rw [hentry]
        exact hrun
      have hlink : Linkable vm g (newTable flags 0 1) d (path addr (d + 1)) table entry := by
        refine ⟨hok, hfr.unused g hgmem, present_newTable flags 0 1, own_path hown (by omega), ?_,
          hempty (by omega), ?_⟩
        · rw [path_div addr (by omega)]
          exact hnode
        · rw [hentry]
          exact childOf_mapPhysPage (hfr.aligned g hgmem) _ flags
      have hmade : MadeTable (linked vm g rest (newTable flags 0 1) table (path addr (d + 1) % 512) entry) vm'
          (path addr 3) flags f := by
        refine ih (d + 1) g _ f vm' (by omega) hlink.treeOk (freshFrames_linked hfr hframes) ?_ (fun _ => ?_)
          (fun _ => hlink.tables_new) hrun
        · rw [hlink.nodeOf_eq hlink.own, if_pos ⟨rfl, rfl⟩]
        · rw [hlink.tables_new, childOf, present_newTable]
          rfl
      have hother : ∀ t', Own 3 t' → t' ≠ path addr 3 →
          leafTable (linked vm g rest (newTable flags 0 1) table (path addr (d + 1) % 512) entry) t' =
            leafTable vm t' := by
        intro t' ht' hne
        refine (hlink.nodeOf_eq ht').trans (if_neg ?_)
        rintro ⟨hd3, rfl⟩
        exact hne (by rw [← hd3])
      refine ⟨hmade.ok, hmade.fresh, hmade.here, fun t' ht' hne => ?_, fun t' g' ht' hg' => ?_, hmade.content,
        fun hw hflags => ?_, hmade.zones, hmade.calls, fun x hx => ?_⟩
      · exact (hmade.other t' ht' hne).trans (hother t' ht' hne)
      · have hne : t' ≠ path addr 3 := by
          rintro rfl
          have hmissing : nodeOf vm (d + 1) (path addr (d + 1)) = none := by
            rw [nodeOf_succ, hlink.parent]
            exact hlink.empty
          rw [leafTable_none_of_missing (by omega) hmissing] at hg'
          cases hg'
        rw [hmade.entries t' g' ht' ((hother t' ht' hne).trans hg')]
        exact hlink.tables_leaf (by omega) ht' hg'
      · refine hmade.writable (hlink.allWritable hw ?_) hflags
        rw [hentry, mapPhysPage_writable]
        exact hflags
      · rcases hmade.pageTables x hx with hx | hx
        · rcases List.mem_cons.mp hx with rfl | hx
          · exact Or.inr hgmem
          · exact Or.inl hx
        · exact Or.inr (hframes ▸ List.mem_cons_of_mem _ hx)

/-- Where the walk of `__find_or_allocate_pt` stops. -/
theorem traverseWithStatus_spec (addr : Nat) (flags : VmFlags) :
    ∀ h d table, d + h = 3 → nodeOf vm d (path addr d) = some table →
      ∀ stop height status, traverseWithStatus vm.tables addr flags h table = (stop, height, status) →
        (status = none → leafTable vm (path addr 3) = some stop) ∧
        (status = some .unmapped → ∃ d', d' + height = 3 ∧ 0 < height ∧ nodeOf vm d' (path addr d') = some stop ∧
          childOf (vm.tables stop (heightOffset addr height)) = none) := by
  intro h
  induction h with
  | zero =>
      intro d table hd hnode stop height status hrun
      obtain rfl : d = 3 := by omega
      cases hrun
      exact ⟨fun _ => hnode, nofun⟩
  | succ h ih =>
      intro d table hd hnode stop height status hrun
      unfold traverseWithStatus at hrun
      cases hs : vmCheckStatus (vm.tables table (heightOffset addr (h + 1))) flags with
      | some error =>
          simp only [hs] at hrun
          cases hrun
          refine ⟨nofun, fun he => ⟨d, hd, by omega, hnode, ?_⟩⟩
          cases he
          rw [childOf, vmCheckStatus_unmapped.mp hs]
          rfl
      | none =>
          simp only [hs] at hrun
          refine ih (d + 1) _ (by omega) ?_ stop height status hrun
          rw [nodeOf_succ, path_div addr (by omega), hnode, path_mod addr hd]
          show childOf _ = _
          rw [childOf, if_pos (present_of_vmCheckStatus hs)]

/-- **`__find_or_allocate_pt` finds the page table or makes it.** -/
theorem findOrAllocatePt_spec (hok : TreeOk vm) (hfr : FreshFrames vm) {addr : Nat} {flags : VmFlags}
    (hown : Own 3 (addr / 4096 / 512)) {f n : Nat} (hrun : findOrAllocatePt vm addr flags = .ok (some f, n, vm')) :
    (n = 0 ∧ vm' = vm ∧ leafTable vm (addr / 4096 / 512) = some f) ∨
      (0 < n ∧ leafTable vm (addr / 4096 / 512) = none ∧ MadeTable vm vm' (addr / 4096 / 512) flags f) := by
  rw [← path_three] at hown ⊢
  unfold findOrAllocatePt at hrun
  have hspec := @traverseWithStatus_spec vm addr flags 3 0 vm.pml4t rfl rfl
  rcases ht : traverseWithStatus vm.tables addr flags 3 vm.pml4t with ⟨stop, height, status⟩
  obtain ⟨hnone, hunmapped⟩ := hspec stop height status ht
  rw [ht] at hrun
  cases status with
  | none =>
      cases hrun
      exact Or.inl ⟨rfl, rfl, hnone rfl⟩
  | some error =>
      cases error with
      | unmapped =>
          obtain ⟨d', hd', hpos, hnode, hempty⟩ := hunmapped rfl
          obtain ⟨⟨f', vm1⟩, halloc, hrun⟩ := bind_eq_ok.mp hrun
          cases hrun
          refine Or.inr ⟨hpos, ?_, ?_⟩
          · obtain ⟨h, rfl⟩ : ∃ h, n = h + 1 := ⟨n - 1, by omega⟩
            refine leafTable_none_of_missing (d := d') (by omega) ?_
            rw [nodeOf_succ, path_div addr (by omega), hnode, path_mod addr hd']
            exact hempty
          · exact allocateMissing_spec addr flags hown n d' stop vm f vm' hd' hok hfr hnode (fun _ => hempty)
              (fun he => by omega) halloc
      | _ => cases hrun

namespace MadeTable

variable {t f : Nat} {flags : VmFlags}

/-- **A new page table** changes the entries of its own pages, which were 0, and no other. -/
theorem leaf_eq (h : MadeTable vm vm' t flags f) {v : Nat} (hv : OwnPage v) :
    leaf vm' v = if v / 512 = t then newTable flags 0 1 (v % 512) else leaf vm v := by
  by_cases hvt : v / 512 = t
  · rw [if_pos hvt, leaf_of_table (hvt ▸ h.here), h.content]
  · rw [if_neg hvt]
    have hsame := h.other (v / 512) hv hvt
    cases hg : leafTable vm (v / 512) with
    | none => rw [leaf_of_missing (hsame.trans hg), leaf_of_missing hg]
    | some g => rw [leaf_of_table (hsame.trans hg), leaf_of_table hg, h.entries _ g hv hg]

/-- Page tables that were there stay. -/
theorem keeps (h : MadeTable vm vm' t flags f) (hmissing : leafTable vm t = none) {t' g : Nat} (ht' : Own 3 t')
    (hg : leafTable vm t' = some g) : leafTable vm' t' = some g := by
  have hne : t' ≠ t := by
    rintro rfl
    rw [hmissing] at hg
    cases hg
  rw [h.other t' ht' hne, hg]

end MadeTable

/-! ## What stays -/

/-- From `vm` to `vm'` only the entries of the pages in `W` are written and only the page tables in `T` are made. -/
structure Keeps (vm vm' : VmSpace) (W T : Nat → Prop) : Prop where
  ok : TreeOk vm'
  fresh : FreshFrames vm'
  tables : ∀ t g, Own 3 t → leafTable vm t = some g → leafTable vm' t = some g
  missing : ∀ t, Own 3 t → ¬ T t → leafTable vm t = none → leafTable vm' t = none
  entry : ∀ v, OwnPage v → ¬ W v → leafTable vm (v / 512) ≠ none → leaf vm' v = leaf vm v
  core : ∀ v, OwnPage v → ¬ W v → (leaf vm' v).core = (leaf vm v).core

namespace Keeps

variable {vm'' : VmSpace} {W T W' T' : Nat → Prop}

theorem refl (hok : TreeOk vm) (hfr : FreshFrames vm) : Keeps vm vm (fun _ => False) (fun _ => False) :=
  ⟨hok, hfr, fun _ _ _ h => h, fun _ _ _ h => h, fun _ _ _ _ => rfl, fun _ _ _ => rfl⟩

theorem trans (h : Keeps vm vm' W T) (h' : Keeps vm' vm'' W' T') :
    Keeps vm vm'' (fun v => W v ∨ W' v) (fun t => T t ∨ T' t) where
  ok := h'.ok
  fresh := h'.fresh
  tables := fun t g ht hg => h'.tables t g ht (h.tables t g ht hg)
  missing := fun t ht hT hg => h'.missing t ht (fun h => hT (Or.inr h)) (h.missing t ht (fun h => hT (Or.inl h)) hg)
  entry := by
    intro v hv hW hg
    obtain ⟨f, hf⟩ := Option.ne_none_iff_exists'.mp hg
    have hf' : leafTable vm' (v / 512) ≠ none := by
      rw [h.tables _ f hv hf]
      exact Option.some_ne_none f
    rw [h'.entry v hv (fun h => hW (Or.inr h)) hf', h.entry v hv (fun h => hW (Or.inl h)) hg]
  core := fun v hv hW =>
    (h'.core v hv (fun h => hW (Or.inr h))).trans (h.core v hv (fun h => hW (Or.inl h)))

/-- Larger sets say less. -/
theorem mono (h : Keeps vm vm' W T) (hW : ∀ v, W v → W' v) (hT : ∀ t, T t → T' t) : Keeps vm vm' W' T' where
  ok := h.ok
  fresh := h.fresh
  tables := h.tables
  missing := fun t ht hT' => h.missing t ht (fun h => hT' (hT t h))
  entry := fun v hv hW' => h.entry v hv (fun h => hW' (hW v h))
  core := fun v hv hW' => h.core v hv (fun h => hW' (hW v h))

/-- Away from both sets nothing changes. -/
theorem leaf_eq (h : Keeps vm vm' W T) {v : Nat} (hv : OwnPage v) (hW : ¬ W v)
    (hT : T (v / 512) → leafTable vm (v / 512) ≠ none) : leaf vm' v = leaf vm v := by
  by_cases hg : leafTable vm (v / 512) = none
  · rw [leaf_of_missing hg, leaf_of_missing (h.missing _ hv (fun ht => hT ht hg) hg)]
  · exact h.entry v hv hW hg

/-- The cursors and the log are no part of the tables. -/
theorem of_same_tables (h : Keeps vm vm' W T) (htables : vm''.tables = vm'.tables) (hroot : vm''.pml4t = vm'.pml4t)
    (hframes : vm''.frames = vm'.frames) (hmade : vm''.pageTables = vm'.pageTables) : Keeps vm vm'' W T := by
  have hnode : ∀ d p, nodeOf vm'' d p = nodeOf vm' d p := by
    intro d p
    unfold nodeOf
    rw [htables, hroot]
  have hleaf : ∀ v, leaf vm'' v = leaf vm' v := by
    intro v
    unfold leaf leafTable
    rw [hnode, htables]
  refine ⟨⟨?_, fun d p f hp hf => ?_⟩, ⟨?_, ?_, ?_⟩, fun t g ht hg => ?_, fun t ht hT hg => ?_,
    fun v hv hW hg => ?_, fun v hv hW => ?_⟩
  · rw [htables, hroot]
    exact h.ok.separate
  · rw [hmade]
    exact h.ok.made d p f hp ((hnode d p).symm.trans hf)
  · rw [hframes]
    exact h.fresh.nodup
  · rw [hframes]
    exact h.fresh.aligned
  · rw [hframes, hmade]
    exact h.fresh.unused
  · exact (hnode 3 t).trans (h.tables t g ht hg)
  · exact (hnode 3 t).trans (h.missing t ht hT hg)
  · exact (hleaf v).trans (h.entry v hv hW hg)
  · rw [hleaf v]
    exact h.core v hv hW

end Keeps

/-- A store writes one entry. -/
theorem keeps_store {t f i : Nat} (hok : TreeOk vm) (hfr : FreshFrames vm) (ht : Own 3 t)
    (hf : leafTable vm t = some f) (hi : i < 512) (e : PtEntry) :
    Keeps vm (vm.store f i e) (fun v => v = t * 512 + i) (fun _ => False) where
  ok := treeOk_store hok ht hf
  fresh := ⟨hfr.nodup, hfr.aligned, hfr.unused⟩
  tables := fun t' g ht' hg => (leafTable_store hok ht hf ht').trans hg
  missing := fun t' ht' _ hg => (leafTable_store hok ht hf ht').trans hg
  entry := fun v hv hW _ => by rw [leaf_store hok ht hf hv hi, if_neg hW]
  core := fun v hv hW => by rw [leaf_store hok ht hf hv hi, if_neg hW]

theorem newTable_core (flags : VmFlags) (i n j : Nat) : (newTable flags i n j).core = .zero := by
  unfold newTable
  by_cases hj : j = 0
  · subst hj
    rw [Function.update_self]
    rfl
  · rw [Function.update_of_ne hj]
    rfl

/-- A new table writes nothing but the metadata in its first entry. -/
theorem MadeTable.keeps' {t f : Nat} {flags : VmFlags} (h : MadeTable vm vm' t flags f)
    (hmissing : leafTable vm t = none) : Keeps vm vm' (fun _ => False) (fun t' => t' = t) where
  ok := h.ok
  fresh := h.fresh
  tables := fun _ _ ht' hg => h.keeps hmissing ht' hg
  missing := fun t' ht' hne hg => (h.other t' ht' hne).trans hg
  entry := fun v hv _ hg => by
    rw [h.leaf_eq hv, if_neg]
    intro he
    exact hg (he ▸ hmissing)
  core := fun v hv _ => by
    rw [h.leaf_eq hv]
    by_cases he : v / 512 = t
    · rw [if_pos he, newTable_core, leaf_of_missing (he ▸ hmissing)]
      rfl
    · rw [if_neg he]

theorem findOrAllocatePt_null {addr n : Nat} {flags : VmFlags}
    (hrun : findOrAllocatePt vm addr flags = .ok (none, n, vm')) : vm' = vm := by
  unfold findOrAllocatePt at hrun
  rcases ht : traverseWithStatus vm.tables addr flags 3 vm.pml4t with ⟨stop, height, status⟩
  rw [ht] at hrun
  cases status with
  | none => cases hrun
  | some error =>
      cases error with
      | unmapped =>
          obtain ⟨⟨f, vm1⟩, -, hrun⟩ := bind_eq_ok.mp hrun
          cases hrun
      | _ =>
          cases hrun
          rfl

/-- **`__find_or_allocate_pt` writes no entry of a page.** -/
theorem findOrAllocatePt_keeps (hok : TreeOk vm) (hfr : FreshFrames vm) {addr n : Nat} {flags : VmFlags}
    (hown : Own 3 (addr / 4096 / 512)) {pt : Option Nat} (hrun : findOrAllocatePt vm addr flags = .ok (pt, n, vm')) :
    Keeps vm vm' (fun _ => False) (fun t => t = addr / 4096 / 512) ∧
      (∀ f, pt = some f → leafTable vm' (addr / 4096 / 512) = some f) ∧ vm'.zones = vm.zones ∧
      vm'.calls = vm.calls := by
  have hsame : Keeps vm vm (fun _ => False) (fun t => t = addr / 4096 / 512) :=
    (Keeps.refl hok hfr).mono (fun _ h => h) (fun _ h => h.elim)
  cases pt with
  | none =>
      obtain rfl := findOrAllocatePt_null hrun
      exact ⟨hsame, nofun, rfl, rfl⟩
  | some f =>
      rcases findOrAllocatePt_spec hok hfr hown hrun with ⟨-, rfl, hf⟩ | ⟨-, hmissing, hmade⟩
      · exact ⟨hsame, fun f' hf' => Option.some.inj hf' ▸ hf, rfl, rfl⟩
      · exact ⟨hmade.keeps' hmissing, fun f' hf' => Option.some.inj hf' ▸ hmade.here, hmade.zones, hmade.calls⟩

/-! ## When the walk does not fail -/

/-- On tables that allow what is asked for, the walk stops only where a table is missing. -/
theorem traverseWithStatus_status {flags : VmFlags} (addr : Nat) (hown : Own 3 (path addr 3))
    (hw : flags.allowWrite = true → AllWritable vm) (hu : flags.allowUser = false) :
    ∀ h d table, d + h = 3 → nodeOf vm d (path addr d) = some table →
      ∃ stop height, height ≤ h ∧ (traverseWithStatus vm.tables addr flags h table = (stop, height, none) ∨
        traverseWithStatus vm.tables addr flags h table = (stop, height, some .unmapped)) := by
  intro h
  induction h with
  | zero => exact fun d table _ _ => ⟨table, 0, Nat.le_refl _, Or.inl rfl⟩
  | succ h ih =>
      intro d table hd hnode
      unfold traverseWithStatus
      cases hp : (vm.tables table (heightOffset addr (h + 1))).present with
      | false =>
          simp only [vmCheckStatus_unmapped.mpr hp]
          exact ⟨table, h + 1, Nat.le_refl _, Or.inr rfl⟩
      | true =>
          have hwrite : flags.allowWrite = true →
              (vm.tables table (heightOffset addr (h + 1))).writable = true := by
            intro hf
            rw [← path_mod addr hd] at hp ⊢
            refine hw hf d (path addr (d + 1)) table (own_path hown (by omega)) ?_ hp
            rw [path_div addr (by omega)]
            exact hnode
          simp only [vmCheckStatus_none hp hwrite hu]
          obtain ⟨stop, height, hle, hcase⟩ := ih (d + 1) _ (by omega) (by
            rw [nodeOf_succ, path_div addr (by omega), hnode, path_mod addr hd]
            show childOf _ = _
            rw [childOf, if_pos hp])
          exact ⟨stop, height, by omega, hcase⟩

theorem allocateMissing_total (addr : Nat) (flags : VmFlags) :
    ∀ h table (vm : VmSpace), h ≤ vm.frames.length → ∃ f vm', allocateMissing addr flags h table vm = .ok (f, vm') := by
  intro h
  induction h with
  | zero => exact fun table vm _ => ⟨table, vm, rfl⟩
  | succ h ih =>
      intro table vm hlen
      cases hframes : vm.frames with
      | nil =>
          rw [hframes] at hlen
          exact absurd hlen (by simp)
      | cons g rest =>
          rw [hframes] at hlen
          unfold allocateMissing
          rw [allocPageTables_one flags hframes]
          exact ih g _ (Nat.le_of_succ_le_succ hlen)

/-- **`__find_or_allocate_pt` finds or makes a table** when the tables on the way allow it and the physical allocator
    answers. -/
theorem findOrAllocatePt_total {flags : VmFlags} {addr : Nat} (hown : Own 3 (addr / 4096 / 512))
    (hw : flags.allowWrite = true → AllWritable vm) (hu : flags.allowUser = false) (hlen : 3 ≤ vm.frames.length) :
    ∃ f n vm', findOrAllocatePt vm addr flags = .ok (some f, n, vm') := by
  rw [← path_three] at hown
  obtain ⟨stop, height, hle, hcase⟩ := traverseWithStatus_status addr hown hw hu 3 0 vm.pml4t rfl rfl
  unfold findOrAllocatePt
  rcases hcase with hcase | hcase
  · rw [hcase]
    exact ⟨stop, 0, vm, rfl⟩
  · obtain ⟨f, vm', halloc⟩ := allocateMissing_total addr flags height stop vm (by omega)
    rw [hcase]
    refine ⟨f, height, vm', ?_⟩
    show allocateMissing addr flags height stop vm >>= _ = _
    rw [halloc]
    rfl

end

end LearningOS.Paging
