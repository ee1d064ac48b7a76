import LearningOS.Mm.Vm.Containment

/-!
# `Mm.Vm.Edits` — what a call can do to the tables

Whatever a call on a zone does to the page tables, it does by stores into page tables of the kernel zones and by
linking new tables below entries that were not present. `Edit` is one of these, and `edits_step` says that every call
is a run of them. `Frozen` is what such a run cannot reach: a set of entries in tables that lead to no page table of
the kernel zones, or that are present already.

* **`edits_step`** — every call is a run of edits;
* **`Edits.frozen`** — a run of edits leaves a frozen set of entries as it is.
-/

namespace LearningOS.Paging

open Word Run Radix

/-! ## One edit -/

/-- One thing a call does to the state, where the entries of links and those of new tables satisfy `Q`. -/
inductive Edit (Q : PtEntry → Prop) : VmSpace → VmSpace → Prop where
  /-- A store into a page table of the kernel zones. -/
  | store {vm : VmSpace} {t f : Nat} (i : Nat) (e : PtEntry) (ht : Own 3 t) (hf : leafTable vm t = some f) :
      Edit Q vm (vm.store f i e)
  /-- A new table below an entry that is not present. -/
  | link {vm : VmSpace} {g d q table : Nat} (rest : List Nat) {content : Nat → PtEntry} {e : PtEntry}
      (h : Linkable vm g content d q table e) (he : Q e) (hcontent : ∀ i, Q (content i)) :
      Edit Q vm (linked vm g rest content table (q % 512) e)
  /-- Cursors, queue and log. -/
  | aside {vm : VmSpace} (zones : Zone → VmZone) (frames : List Nat) (calls : List PhysCall) :
      Edit Q vm { vm with zones := zones, frames := frames, calls := calls }

/-- A run of edits. -/
abbrev Edits (Q : PtEntry → Prop) : VmSpace → VmSpace → Prop := Relation.ReflTransGen (Edit Q)

/-- The entries that `__find_or_allocate_pt` makes for some flags satisfy `Q`. -/
structure LinksAre (Q : PtEntry → Prop) (flags : VmFlags) : Prop where
  link : ∀ e g, Q (mapPhysPage e g flags)
  content : ∀ i, Q (newTable flags 0 1 i)

theorem linksAre_any (flags : VmFlags) : LinksAre (fun _ => True) flags := ⟨fun _ _ => trivial, fun _ => trivial⟩

/-- The entries a call makes on the way to a page table satisfy `Q`. -/
def CallLinks (Q : PtEntry → Prop) : VmAct → Prop
  | .alloc _ flags _ _ => LinksAre Q flags
  | .extend _ _ flags _ _ => LinksAre Q flags
  | .free _ _ => True
  | .shrink _ _ => True

theorem callLinks_any (a : VmAct) : CallLinks (fun _ => True) a := by
  cases a with
  | alloc z flags frames block => exact linksAre_any flags
  | free => trivial
  | extend z pages flags frames block => exact linksAre_any flags
  | shrink => trivial

section

variable {Q : PtEntry → Prop} {vm vm' : VmSpace}

theorem Edit.treeOk (h : Edit Q vm vm') (hok : TreeOk vm) : TreeOk vm' := by
  cases h with
  | store i e ht hf => exact treeOk_store hok ht hf
  | link rest hlink he hcontent => exact hlink.treeOk
  | aside zones frames calls => exact hok.congr rfl rfl (fun _ hf => hf)

theorem Edits.treeOk (h : Edits Q vm vm') (hok : TreeOk vm) : TreeOk vm' := by
  induction h with
  | refl => exact hok
  | tail _ hedit ih => exact hedit.treeOk ih

/-- What no edit touches: the top table is the same one, and so are the two cached tables. -/
structure SameRoot (vm vm' : VmSpace) : Prop where
  pml4t : vm'.pml4t = vm.pml4t
  sensitive : vm'.sensitiveMemPdpt = vm.sensitiveMemPdpt
  normal : vm'.normalMemPdpt = vm.normalMemPdpt
  pageTables : ∀ f ∈ vm.pageTables, f ∈ vm'.pageTables

theorem Edit.sameRoot (h : Edit Q vm vm') : SameRoot vm vm' := by
  cases h with
  | store i e ht hf => exact ⟨rfl, rfl, rfl, fun _ hf => hf⟩
  | link rest hlink he hcontent => exact ⟨rfl, rfl, rfl, fun _ hf => List.mem_cons_of_mem _ hf⟩
  | aside zones frames calls => exact ⟨rfl, rfl, rfl, fun _ hf => hf⟩

theorem Edits.sameRoot (h : Edits Q vm vm') : SameRoot vm vm' := by
  induction h with
  | refl => exact ⟨rfl, rfl, rfl, fun _ hf => hf⟩
  | tail _ hedit ih =>
      have hlast := hedit.sameRoot
      exact ⟨hlast.pml4t.trans ih.pml4t, hlast.sensitive.trans ih.sensitive, hlast.normal.trans ih.normal,
        fun f hf => hlast.pageTables f (ih.pageTables f hf)⟩

/-! ## Frozen entries -/

/-- The entries in `F` are those of `ref`. Their tables are tables of the kernel, none of them a page table of the
    kernel zones; an entry on the way to one is present. -/
structure Frozen (F : Nat → Nat → Prop) (ref : Mem Nat PtEntry) (vm : VmSpace) : Prop where
  same : ∀ f i, F f i → vm.tables f i = ref f i
  made : ∀ f i, F f i → f ∈ vm.pageTables
  apart : ∀ f i d p, F f i → Own d p → nodeOf vm d p = some f →
    d < 3 ∧ (i < 512 → Own (d + 1) (p * 512 + i) → (ref f i).present = true)

variable {F : Nat → Nat → Prop} {ref : Mem Nat PtEntry}

/-- A store into a page table of the kernel zones is in no frozen table. -/
theorem Frozen.store {t f i : Nat} {e : PtEntry} (h : Frozen F ref vm) (hok : TreeOk vm) (ht : Own 3 t)
    (hf : leafTable vm t = some f) : Frozen F ref (vm.store f i e) where
  same := fun g j hg => by
    have hgf : g ≠ f := by
      rintro rfl
      exact Nat.lt_irrefl 3 (h.apart g j 3 t hg ht hf).1
    show Radix.set vm.tables f i e g j = ref g j
    rw [set_of_ne_table hgf]
    exact h.same g j hg
  made := h.made
  apart := fun g j d p hg hp hnode => h.apart g j d p hg hp ((nodeOf_store hok ht hf hp).symm.trans hnode)

/-- A new table is no frozen one, and the entry it is linked at is not present. -/
theorem Frozen.linked {g d q table : Nat} {rest : List Nat} {content : Nat → PtEntry} {e : PtEntry}
    (h : Frozen F ref vm) (hlink : Linkable vm g content d q table e) :
    Frozen F ref (linked vm g rest content table (q % 512) e) where
  same := fun f i hf => by
    have hfg : f ≠ g := fun he => hlink.unused (he ▸ h.made f i hf)
    show Radix.set (Function.update vm.tables g content) table (q % 512) e f i = ref f i
    by_cases hft : f = table
    · subst hft
      have hi : i ≠ q % 512 := by
        rintro rfl
        have hpos : q / 512 * 512 + q % 512 = q := by omega
        have hpresent := (h.apart f (q % 512) d (q / 512) hf hlink.up hlink.parent).2 (Nat.mod_lt _ (by decide))
          (hpos.symm ▸ hlink.own)
        have hempty := hlink.empty
        rw [childOf, h.same f _ hf, if_pos hpresent] at hempty
        cases hempty
      rw [set_of_ne_index hi, Function.update_of_ne hfg]
      exact h.same f i hf
    · rw [set_of_ne_table hft, Function.update_of_ne hfg]
      exact h.same f i hf
  made := fun f i hf => List.mem_cons_of_mem _ (h.made f i hf)
  apart := fun f i d' p hf hp hnode => by
    rw [hlink.nodeOf_eq hp] at hnode
    by_cases hc : d' = d + 1 ∧ p = q
    · rw [if_pos hc] at hnode
      obtain rfl := Option.some.inj hnode
      exact absurd (h.made _ i hf) hlink.unused
    · rw [if_neg hc] at hnode
      exact h.apart f i d' p hf hp hnode

/-- **A run of edits leaves frozen entries as they are.** -/
theorem Edits.frozen (h : Edits Q vm vm') (hok : TreeOk vm) (hfrozen : Frozen F ref vm) : Frozen F ref vm' := by
  induction h with
  | refl => exact hfrozen
  | tail hrun hedit ih =>
      cases hedit with
      | store i e ht hf => exact ih.store (Edits.treeOk hrun hok) ht hf
      | link rest hlink he hcontent => exact ih.linked hlink
      | aside zones frames calls => exact ⟨ih.same, ih.made, ih.apart⟩

end

/-! ## Loops of stores -/

section Loops

variable {Q : PtEntry → Prop} {vm : VmSpace} {t f : Nat}

theorem edits_setCursor (zone : Zone) (cursor : Nat) : Edits Q vm (vm.setCursor zone cursor) :=
  .single (.aside (Function.update vm.zones zone { vm.zones zone with cursorAddr := cursor }) vm.frames vm.calls)

theorem edits_freePhysBlock (e : PtEntry) (n : Nat) : Edits Q vm (freePhysBlock vm e n) := by
  unfold freePhysBlock
  by_cases he : e.dataEarly
  · rw [if_pos he]
  · rw [if_neg he]
    exact .single (.aside vm.zones vm.frames (.free e.addr n :: vm.calls))

theorem edits_shrinkPhysBlock (e : PtEntry) (n m : Nat) : Edits Q vm (shrinkPhysBlock vm e n m) := by
  unfold shrinkPhysBlock
  by_cases he : e.dataEarly
  · rw [if_pos he]
  · rw [if_neg he]
    exact .single (.aside vm.zones vm.frames (.shrink e.word n m :: vm.calls))

/-- A store followed by edits from a state with the same page table at hand. -/
theorem edits_head {vm' : VmSpace} {i : Nat} {e : PtEntry} (ht : Own 3 t) (hok : TreeOk vm)
    (hf : leafTable vm t = some f)
    (hnext : TreeOk (vm.store f i e) → leafTable (vm.store f i e) t = some f → Edits Q (vm.store f i e) vm') :
    Edits Q vm vm' :=
  .head (.store i e ht hf) (hnext (treeOk_store hok ht hf) ((leafTable_store hok ht hf ht).trans hf))

/-- A loop each turn of which is a store into one page table, which stays where it is. -/
theorem edits_foldl {α : Type} (turn : VmSpace → α → VmSpace) (ht : Own 3 t)
    (hturn : ∀ vm a, ∃ i e, turn vm a = vm.store f i e) :
    ∀ (l : List α) (vm : VmSpace), TreeOk vm → leafTable vm t = some f →
      Edits Q vm (l.foldl turn vm) ∧ leafTable (l.foldl turn vm) t = some f := by
  intro l
  induction l with
  | nil => exact fun vm _ hf => ⟨.refl, hf⟩
  | cons a l ih =>
      intro vm hok hf
      obtain ⟨i, e, he⟩ := hturn vm a
      rw [List.foldl_cons, he]
      obtain ⟨hedits, hlast⟩ := ih (vm.store f i e) (treeOk_store hok ht hf) ((leafTable_store hok ht hf ht).trans hf)
      exact ⟨.head (.store i e ht hf) hedits, hlast⟩

theorem edits_prepareBlockPt (zone : VmZone) (ht : Own 3 t) (hok : TreeOk vm) (hf : leafTable vm t = some f) :
    Edits Q vm (prepareBlockPt vm zone f) ∧ leafTable (prepareBlockPt vm zone f) t = some f :=
  edits_foldl _ ht (fun _ _ => ⟨_, _, rfl⟩) _ vm hok hf

theorem edits_mapBlock (offset size : Nat) (entry : PtEntry) (flags : VmFlags) (ht : Own 3 t) :
    ∀ left (vm : VmSpace) base, TreeOk vm → leafTable vm t = some f →
      Edits Q vm (mapBlock f offset size entry flags left vm base) := by
  intro left
  induction left with
  | zero => exact fun vm _ _ _ => .refl
  | succ left ih => exact fun vm base hok hf => edits_head ht hok hf (fun hok' hf' => ih _ _ hok' hf')

theorem edits_unmapLoop (offset : Nat) (ht : Own 3 t) :
    ∀ left (vm : VmSpace), TreeOk vm → leafTable vm t = some f → Edits Q vm (unmapLoop f offset left vm) := by
  intro left
  induction left with
  | zero => exact fun vm _ _ => .refl
  | succ left ih => exact fun vm hok hf => edits_head ht hok hf (ih _)

/-- One turn of the first loop of `vmzone_shrink`. -/
theorem edits_afterTurn {s : ShrinkState} (ht : Own 3 t) (hf : leafTable s.vm t = some f) :
    Edits Q s.vm (afterTurn f s).1 := by
  have hstore : Edits Q s.vm (s.vm.store f s.nextOffset (s.vm.tables f s.nextOffset).cleared) :=
    .single (.store s.nextOffset _ ht hf)
  cases h : (s.vm.tables f s.nextOffset).dataBehind with
  | true =>
      rw [afterTurn_behind h]
      exact hstore
  | false =>
      rw [afterTurn_start h]
      exact hstore.trans (edits_freePhysBlock _ _)

/-- The first loop of `vmzone_shrink`, whether it comes to its end or not. -/
theorem edits_shrinkLoop (ht : Own 3 t) :
    ∀ pages s, TreeOk s.vm → leafTable s.vm t = some f →
      (∀ s', shrinkLoop f pages s = .ok s' → Edits Q s.vm s'.vm) ∧
      ∀ r, shrinkLoop f pages s = .error r → Edits Q s.vm r.2 := by
  intro pages
  induction pages with
  | zero =>
      intro s _ _
      refine ⟨fun s' h => ?_, fun r h => by cases h⟩
      cases h
      exact .refl
  | succ pages ih =>
      intro s hok hf
      have hedits : Edits Q s.vm (afterTurn f s).1 := edits_afterTurn ht hf
      have hf1 : leafTable (afterTurn f s).1 t = some f := by
        rw [(afterTurn_same f s).leafTable_eq, leafTable_store hok ht hf ht]
        exact hf
      refine ⟨fun s' h => ?_, fun r h => ?_⟩
      · obtain ⟨s1, hturn, h⟩ := bind_eq_ok.mp h
        have hvm := (shrinkTurn_ok hturn).1
        rw [← hvm] at hedits hf1
        exact hedits.trans ((ih s1 (hedits.treeOk hok) hf1).1 s' h)
      · rcases bind_eq_error.mp h with hturn | ⟨s1, hturn, h⟩
        · rw [shrinkTurn_error hturn]
          exact hedits
        · have hvm := (shrinkTurn_ok hturn).1
          rw [← hvm] at hedits hf1
          exact hedits.trans ((ih s1 (hedits.treeOk hok) hf1).2 r h)

end Loops

/-! ## The walks -/

section Walks

variable {Q : PtEntry → Prop} {vm vm' : VmSpace}

/-- The loop of `__find_or_allocate_pt`: each turn links one new table. -/
theorem edits_allocateMissing (addr : Nat) {flags : VmFlags} (hQ : LinksAre Q flags) (hown : Own 3 (path addr 3)) :
    ∀ h d table vm f vm', d + h = 3 → TreeOk vm → FreshFrames vm → nodeOf vm d (path addr d) = some table →
      (0 < h → childOf (vm.tables table (heightOffset addr h)) = none) →
      allocateMissing addr flags h table vm = .ok (f, vm') → Edits Q vm vm' := by
  intro h
  induction h with
  | zero =>
      intro d table vm f vm' _ _ _ _ _ hrun
      cases hrun
      exact .refl
  | succ h ih =>
      intro d table vm f vm' hd hok hfr hnode hempty hrun
      obtain ⟨⟨g, vm1⟩, halloc, hrun⟩ := bind_eq_ok.mp hrun
      obtain ⟨rest, hframes, rfl⟩ := allocPageTables_one_ok halloc
      have hgmem : g ∈ vm.frames := hframes ▸ List.mem_cons_self
      rw [← path_mod addr hd] at hrun hempty
      obtain ⟨entry, hentry⟩ : ∃ entry, entry = mapPhysPage ((vm.withTable g rest (newTable flags 0 1)).tables table
        (path addr (d + 1) % 512)) g flags := ⟨_, rfl⟩
      have hlink : Linkable vm g (newTable flags 0 1) d (path addr (d + 1)) table entry := by
        refine ⟨hok, hfr.unused g hgmem, present_newTable flags 0 1, own_path hown (by omega), ?_,
          hempty (by omega), ?_⟩
        · rw [path_div addr (by omega)]
          exact hnode
        · rw [hentry]
          exact childOf_mapPhysPage (hfr.aligned g hgmem) _ flags
      have hrun : allocateMissing addr flags h g
          (linked vm g rest (newTable flags 0 1) table (path addr (d + 1) % 512) entry) = .ok (f, vm') := by
        rw [hentry]
        exact hrun
      refine .head (.link rest hlink (hentry ▸ hQ.link _ g) hQ.content) (ih (d + 1) g _ f vm' (by omega) hlink.treeOk
        (freshFrames_linked hfr hframes) ?_ (fun _ => ?_) hrun)
      · rw [hlink.nodeOf_eq hlink.own, if_pos ⟨rfl, rfl⟩]
      · rw [hlink.tables_new, childOf, present_newTable]
        rfl

/-- `__find_or_allocate_pt`. -/
theorem edits_findOrAllocatePt (hok : TreeOk vm) (hfr : FreshFrames vm) {addr n : Nat} {flags : VmFlags}
    {pt : Option Nat} (hQ : LinksAre Q flags) (hown : Own 3 (addr / 4096 / 512)) (hrun : findOrAllocatePt vm addr flags = .ok (pt, n, vm')) :
    Edits Q vm vm' := by
  cases pt with
  | none =>
      obtain rfl := findOrAllocatePt_null hrun
      exact .refl
  | some f =>
      rw [← path_three] at hown
      unfold findOrAllocatePt at hrun
      have hspec := @traverseWithStatus_spec vm addr flags 3 0 vm.pml4t rfl rfl
      rcases ht : traverseWithStatus vm.tables addr flags 3 vm.pml4t with ⟨stop, height, status⟩
      obtain ⟨-, hunmapped⟩ := hspec stop height status ht
      rw [ht] at hrun
      cases status with
      | none =>
          cases hrun
          exact .refl
      | some error =>
          cases error with
          | unmapped =>
              obtain ⟨d', hd', -, hnode, hempty⟩ := hunmapped rfl
              obtain ⟨⟨f', vm1⟩, halloc, hrun⟩ := bind_eq_ok.mp hrun
              cases hrun
              exact edits_allocateMissing addr hQ hown n d' stop vm f vm' hd' hok hfr hnode (fun _ => hempty) halloc
          | _ => cases hrun

end Walks

/-! ## The calls -/

section Calls

variable {Q : PtEntry → Prop} {vm vm' : VmSpace} {zone : Zone}

theorem edits_vmAllocBlock {flags : VmFlags} {v block a : Nat} (hQ : LinksAre Q flags) (hok : TreeOk vm)
    (hfr : FreshFrames vm)
    (hcursor : (vm.zones zone).cursorAddr = v * 4096) (hv : OwnPage v)
    (hrun : vmAllocBlock vm flags zone block = .ok (a, vm')) : Edits Q vm vm' := by
  unfold vmAllocBlock at hrun
  rw [hcursor] at hrun
  obtain ⟨⟨pt, n, vm1⟩, hfind, hrun⟩ := bind_eq_ok.mp hrun
  obtain ⟨f, hpt, hrun⟩ := bind_eq_ok.mp hrun
  cases pt with
  | none => cases hpt
  | some f' =>
      cases hpt
      have haddr : v * 4096 / 4096 = v := by omega
      have hown : Own 3 (v * 4096 / 4096 / 512) := by
        rw [haddr]
        exact hv
      have hfound := edits_findOrAllocatePt hok hfr hQ hown hfind
      have hok1 := hfound.treeOk hok
      have hf1 := (findOrAllocatePt_keeps hok hfr hown hfind).2.1 f rfl
      obtain ⟨hprep, hf2⟩ : Edits Q vm1 (if n > 0 then prepareBlockPt vm1 (vm1.zones zone) f else vm1) ∧
          leafTable (if n > 0 then prepareBlockPt vm1 (vm1.zones zone) f else vm1) (v * 4096 / 4096 / 512) = some f := by
        by_cases hn : n > 0
        · rw [if_pos hn]
          exact edits_prepareBlockPt _ hown hok1 hf1
        · rw [if_neg hn]
          exact ⟨.refl, hf1⟩
      cases hrun
      generalize (if n > 0 then prepareBlockPt vm1 (vm1.zones zone) f else vm1) = vm2 at hprep hf2 ⊢
      have hok2 := hprep.treeOk hok1
      refine (hfound.trans hprep).trans ((edits_setCursor zone (nextFreeEntry (vm2.tables f (ptOffset (v * 4096)))
        (v * 4096))).trans ?_)
      exact edits_mapBlock _ _ _ flags hown _ _ block (hok2.congr rfl rfl (fun _ h => h)) hf2

theorem edits_vmFreeBlock {addr : Nat} (hok : TreeOk vm)
    (hown : Own 3 (truncNBits addr ((vm.zones zone).blockOrder + pageOrder) / 4096 / 512)) :
    Edits Q vm (vmFreeBlock vm addr zone).2 := by
  unfold vmFreeBlock
  dsimp only
  rw [findPtOrNull_eq]
  generalize truncNBits addr ((vm.zones zone).blockOrder + pageOrder) = addr at hown ⊢
  cases hf : leafTable vm (addr / 4096 / 512) with
  | none => exact .refl
  | some f =>
      dsimp only
      have hfree : Edits Q vm _ := edits_freePhysBlock (vm.tables f (ptOffset addr)) (2 ^ (vm.zones zone).blockOrder % 2 ^ 8)
      have hf1 := ((freePhysBlock_same vm (vm.tables f (ptOffset addr))
        (2 ^ (vm.zones zone).blockOrder % 2 ^ 8)).leafTable_eq (addr / 4096 / 512)).trans hf
      refine hfree.trans (edits_head (i := ptOffset addr)
        (e := nextFreeLink (vm.tables f (ptOffset addr)) addr (vm.zones zone).cursorAddr) hown (hfree.treeOk hok) hf1 ?_)
      intro hok2 hf2
      exact (edits_setCursor zone addr).trans
        (edits_unmapLoop _ hown _ _ (hok2.congr rfl rfl (fun _ h => h)) hf2)

/-- The loop of `vmzone_extend`, with `left` pages to go from page `v` on. -/
theorem edits_extendLoop (pages : Nat) {flags : VmFlags} (hQ : LinksAre Q flags) :
    ∀ left (vm : VmSpace) pt phys v c' vm', TreeOk vm → FreshFrames vm → (∀ j, j ≤ left → OwnPage (v + j)) →
      (∀ f, pt = some f → leafTable vm (v / 512) = some f) →
      extendLoop pages flags left vm pt (v % 512) phys (v * 4096) = .ok (c', vm') → Edits Q vm vm' := by
  intro left
  induction left with
  | zero =>
      intro vm pt phys v c' vm' _ _ _ _ hrun
      cases hrun
      exact .refl
  | succ left ih =>
      intro vm pt phys v c' vm' hok hfr hown hpt hrun
      have hv : OwnPage v := hown 0 (by omega)
      have hown' : ∀ j, j ≤ left → OwnPage (v + 1 + j) := fun j hj => by
        rw [show v + 1 + j = v + (j + 1) by omega]
        exact hown (j + 1) (by omega)
      cases pt with
      | none =>
          obtain ⟨f, hf, -⟩ := bind_eq_ok.mp hrun
          cases hf
      | some f =>
          have hf := hpt f rfl
          rw [extendLoop_succ, hv.add64_next] at hrun
          generalize mapPage (vm.tables f (v % 512)) (pages - (left + 1)) pages flags phys = e at hrun
          refine edits_head (i := v % 512) (e := e) hv hok hf (fun hok1 hf1 => ?_)
          have hfr1 : FreshFrames (vm.store f (v % 512) e) := ⟨hfr.nodup, hfr.aligned, hfr.unused⟩
          by_cases hcross : v % 512 + 1 ≥ 512
          · -- The next page is the first one of another page table.
            rw [if_pos hcross] at hrun
            obtain ⟨⟨pt', n, vm2⟩, hfind, hrun⟩ := bind_eq_ok.mp hrun
            have haddr : (v + 1) * 4096 / 4096 = v + 1 := by omega
            have hmod : (v + 1) % 512 = 0 := by omega
            have hown1 : Own 3 ((v + 1) * 4096 / 4096 / 512) := by
              rw [haddr]
              exact hown 1 (by omega)
            obtain ⟨hk, hpt', -, -⟩ := findOrAllocatePt_keeps hok1 hfr1 hown1 hfind
            rw [haddr] at hpt'
            refine (edits_findOrAllocatePt hok1 hfr1 hQ hown1 hfind).trans ?_
            refine ih vm2 pt' (add64 phys 4096) (v + 1) c' vm' hk.ok hk.fresh hown' hpt' ?_
            rw [hmod]
            exact hrun
          · rw [if_neg hcross] at hrun
            have hmod : (v + 1) % 512 = v % 512 + 1 := by omega
            have hdiv : (v + 1) / 512 = v / 512 := by omega
            refine ih _ (some f) (add64 phys 4096) (v + 1) c' vm' hok1 hfr1 hown' (fun f' hf' => ?_) ?_
            · rw [hdiv, ← Option.some.inj hf']
              exact hf1
            · rw [hmod]
              exact hrun

theorem edits_vmzoneExtend {pages v phys : Nat} {flags : VmFlags} {r : Option Nat} (hQ : LinksAre Q flags) (hok : TreeOk vm)
    (hfr : FreshFrames vm) (hcursor : (vm.zones zone).cursorAddr = v * 4096)
    (hown : ∀ j, j ≤ pages → OwnPage (v + j)) (hrun : vmzoneExtend vm pages flags zone phys = .ok (r, vm')) :
    Edits Q vm vm' := by
  unfold vmzoneExtend at hrun
  rw [hcursor] at hrun
  by_cases hzone : (vm.zones zone).flags.contiguous = true
  · rw [hzone] at hrun
    obtain ⟨⟨pt, n, vm1⟩, hfind, hrun⟩ := bind_eq_ok.mp hrun
    obtain ⟨⟨c', vm2⟩, hloop, hrun⟩ := bind_eq_ok.mp hrun
    have haddr : v * 4096 / 4096 = v := by omega
    have hown0 : Own 3 (v * 4096 / 4096 / 512) := by
      rw [haddr]
      exact hown 0 (Nat.zero_le _)
    obtain ⟨hk, hpt, -, -⟩ := findOrAllocatePt_keeps hok hfr hown0 hfind
    rw [haddr] at hpt
    rw [show ptOffset (v * 4096) = v % 512 by rw [ptOffset_eq, haddr]] at hloop
    have hedits := edits_extendLoop pages hQ pages vm1 pt phys v c' vm2 hk.ok hk.fresh hown hpt hloop
    cases hrun
    exact ((edits_findOrAllocatePt hok hfr hQ hown0 hfind).trans hedits).trans (edits_setCursor zone c')
  · rw [Bool.eq_false_iff.mpr hzone] at hrun
    cases hrun
    exact .refl

theorem edits_vmzoneShrink {pages u : Nat} {r : Option VmError} (hok : TreeOk vm)
    (hcursor : sub64 (vm.zones zone).cursorAddr pageSize = u * 4096) (hu : OwnPage u)
    (hrun : vmzoneShrink vm pages zone = .ok (r, vm')) : Edits Q vm vm' := by
  have haddr : u * 4096 / 4096 = u := by omega
  unfold vmzoneShrink at hrun
  rw [hcursor] at hrun
  dsimp only at hrun
  rw [findPtOrNull_eq, haddr] at hrun
  by_cases hzone : (vm.zones zone).flags.contiguous = true
  · simp only [hzone, Bool.not_true, Bool.false_eq_true, if_false] at hrun
    cases hf : leafTable vm (u / 512) with
    | none =>
        rw [hf] at hrun
        cases hrun
        exact .refl
    | some f =>
        obtain ⟨hgood, hbad⟩ := edits_shrinkLoop (Q := Q) hu pages ⟨vm, ptOffset (u * 4096), u * 4096, 0⟩ hok hf
        simp only [hf] at hrun
        cases hloop : shrinkLoop f pages ⟨vm, ptOffset (u * 4096), u * 4096, 0⟩ with
        | error r1 =>
            simp only [hloop] at hrun
            cases hrun
            exact hbad _ hloop
        | ok s' =>
            simp only [hloop] at hrun
            have hcleared := (hgood s' hloop).trans (edits_setCursor zone (add64 s'.cursor pageSize))
            by_cases hsize : s'.currentBlockSize > 0
            · rw [if_pos hsize] at hrun
              obtain ⟨found, -, hrun⟩ := bind_eq_ok.mp hrun
              cases found with
              | error e =>
                  cases hrun
                  exact hcleared
              | ok p =>
                  cases hrun
                  exact hcleared.trans (edits_shrinkPhysBlock _ _ _)
            · rw [if_neg hsize] at hrun
              cases hrun
              exact hcleared
  · rw [Bool.eq_false_iff.mpr hzone] at hrun
    cases hrun
    exact .refl

end Calls

/-! ## A run -/

section Run

variable {Q : PtEntry → Prop} {s s' : VmSys}

theorem edits_given (vm : VmSpace) (frames : List Nat) : Edits Q vm (vm.given frames) :=
  .single (.aside vm.zones frames vm.calls)

/-- **Every call is a run of edits**, in a state that a run of calls with room in their zones reaches. -/
theorem edits_step {a : VmAct} (h : ZonesInv s) (hcall : AnyCall s a) (hroom : HasRoom s a)
    (hQ : CallLinks Q a) (hstep : stepAny s a = .ok s') : Edits Q s.vm s'.vm := by
  obtain ⟨ok, hperform⟩ := stepAny_ok hstep
  cases a with
  | alloc z flags frames block =>
      obtain ⟨hz, hfr⟩ := hcall
      obtain ⟨⟨addr, vm'⟩, hrun, hs'⟩ := bind_eq_ok.mp hperform
      cases hs'
      have hinv := h.blocks z hz
      obtain ⟨k, hk, hcursor, -, -⟩ := hinv.cursor
      have hcap : k < capacity z := by
        have hroom : (s.vm.zones z).cursorAddr < (vmzoneInit z).endAddress := hroom
        rw [hcursor, ← blockAddr_capacity] at hroom
        by_contra hge
        exact Nat.lt_irrefl _ (Nat.lt_of_lt_of_le hroom (blockAddr_mono (Nat.le_of_not_lt hge)))
      exact (edits_given s.vm frames).trans
        (edits_vmAllocBlock hQ (treeOk_given h.ok) hfr hcursor (blockPage_inZone hcap).own hrun)
  | free z addr =>
      obtain ⟨hz, haddr, hlive⟩ := hcall
      have hinv := h.blocks z hz
      obtain ⟨hnone, -, k, hk, hblk, -⟩ := hinv.free hz h.ok h.fresh haddr hlive
      have htrunc : truncNBits addr ((s.vm.zones z).blockOrder + pageOrder) = addr / 8192 * 8192 := by
        rw [hinv.order hz]
        show truncNBits addr 13 = _
        rw [truncNBits_eq haddr (by decide)]
        rfl
      obtain rfl := perform_free hperform hnone htrunc
      refine edits_vmFreeBlock h.ok ?_
      have hpage : blockAddr z k / 4096 = blockPage z k := by
        unfold blockAddr
        omega
      rw [htrunc, hblk, hpage]
      exact (blockPage_inZone hk).own
  | extend z pages flags frames block =>
      obtain ⟨-, hfr, -⟩ := hcall
      obtain ⟨⟨r, vm'⟩, hrun, hs'⟩ := bind_eq_ok.mp hperform
      have hvm : s'.vm = vm' := by
        cases r <;> cases hs' <;> rfl
      rw [hvm]
      refine (edits_given s.vm frames).trans ?_
      by_cases hz : (vmzoneInit z).flags.contiguous = true
      · obtain rfl := eq_kernelHeap hz
        obtain ⟨p, hlo, hhi, hheap⟩ := h.heap
        obtain ⟨-, -, -, hlow, hhigh, -, hend⟩ := zone_layout .kernelHeap
        have hcursor : ((s.vm.given frames).zones .kernelHeap).cursorAddr = p * 4096 := by
          show (s.vm.zones .kernelHeap).cursorAddr = _
          rw [hheap]
        have hroom : (s.vm.zones .kernelHeap).cursorAddr + pages * 4096 ≤ (vmzoneInit .kernelHeap).endAddress :=
          hroom rfl
        rw [hend, hheap] at hroom
        have hroom : p * 4096 + pages * 4096 ≤ endPage .kernelHeap * 4096 := hroom
        exact edits_vmzoneExtend hQ (treeOk_given h.ok) hfr hcursor (fun j hj => ownPage_iff.mpr (by omega)) hrun
      · have hkind : ((s.vm.given frames).zones z).flags.contiguous = false :=
          (h.kind z).trans (Bool.not_eq_true _ ▸ hz)
        rw [vmzoneExtend_refused hkind] at hrun
        cases hrun
        exact .refl
  | shrink z pages =>
      obtain ⟨⟨r, vm'⟩, hrun, hs'⟩ := bind_eq_ok.mp hperform
      have hvm : s'.vm = vm' := by
        cases r <;> cases hs' <;> rfl
      rw [hvm]
      by_cases hz : (vmzoneInit z).flags.contiguous = true
      · obtain rfl := eq_kernelHeap hz
        obtain ⟨p, hlo, hhi, hheap⟩ := h.heap
        have hpos : 0 < startPage .kernelHeap := by decide
        have hbefore := ownPage_iff.mp before_inZone.own
        obtain ⟨-, -, -, -, hhigh, -, -⟩ := zone_layout .kernelHeap
        have hcursor : sub64 (s.vm.zones .kernelHeap).cursorAddr pageSize = (p - 1) * 4096 := by
          rw [hheap]
          show sub64 (p * 4096) 4096 = _
          rw [sub64_of_le (by omega) (by omega)]
          omega
        exact edits_vmzoneShrink h.ok hcursor (ownPage_iff.mpr (by omega)) hrun
      · have hkind : (s.vm.zones z).flags.contiguous = false := (h.kind z).trans (Bool.not_eq_true _ ▸ hz)
        rw [vmzoneShrink_refused hkind] at hrun
        cases hrun
        exact .refl

end Run

end LearningOS.Paging
