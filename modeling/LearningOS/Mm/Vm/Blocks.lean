import LearningOS.Mm.Vm.Contiguous

/-!
# `Mm.Vm.Blocks` — `vm_alloc_block` and `vm_free_block`

The free blocks of a zone are linked through their own entries. `nextFree` is the link of a block as `vm_alloc_block`
will read it: where the page table is still missing, it is the link `_prepare_block_pt` will write. The specifications
say that both calls follow or set the link at the cursor and leave the links of all other blocks as they are. Every
block zone has blocks of two pages.
-/

namespace LearningOS.Paging

open Word Run Radix

/-- The entry `_prepare_block_pt` makes for a free block: the next one is two pages ahead. -/
def preparedEntry : PtEntry := { addr := 8192 }

/-- The entry that holds the link of the block at page `v`. -/
def linkEntry (vm : VmSpace) (v : Nat) : PtEntry :=
  if leafTable vm (v / 512) = none then preparedEntry else leaf vm v

/-- `next_free_entry` of the block at page `v`. -/
def nextFree (vm : VmSpace) (v : Nat) : Nat := nextFreeEntry (linkEntry vm v) (v * 4096)

theorem nextFreeEntry_core {e e' : PtEntry} (h : e.core = e'.core) (addr : Nat) :
    nextFreeEntry e addr = nextFreeEntry e' addr := by
  have haddr : e.core.addr = e'.core.addr := by rw [h]
  have hneg : e.core.offsetNegative = e'.core.offsetNegative := by rw [h]
  have haddr : e.addr = e'.addr := haddr
  have hneg : e.offsetNegative = e'.offsetNegative := hneg
  unfold nextFreeEntry
  rw [haddr, hneg]

section

variable {vm vm' : VmSpace} {t f : Nat}

/-! ## `_prepare_block_pt` -/

/-- One turn of the loop of `_prepare_block_pt`, for blocks of two pages. -/
def prepareTurn (pt : Nat) (vm : VmSpace) (i : Nat) : VmSpace :=
  vm.store pt (i * 2) ((vm.tables pt (i * 2)).or preparedEntry)

theorem prepareBlockPt_eq {zone : VmZone} (horder : zone.blockOrder = 1) (pt : Nat) :
    prepareBlockPt vm zone pt = (List.range 256).foldl (prepareTurn pt) vm := by
  have hword : PtEntry.ofWord (2 <<< 12) = preparedEntry := PageAddr.ofWord_eq (by decide)
  have hturn : prepareTurn pt = fun vm i =>
      vm.store pt (i * 2) ((vm.tables pt (i * 2)).or (.ofWord (2 <<< 12))) := by
    funext vm i
    rw [hword]
    rfl
  unfold prepareBlockPt
  rw [horder, hturn]
  rfl

/-- The turns as one update of the table. -/
theorem prepareTurns_tables (pt : Nat) :
    ∀ n, let vm' := (List.range n).foldl (prepareTurn pt) vm
      vm'.tables = Function.update vm.tables pt (fun i =>
        if i % 2 = 0 ∧ i < n * 2 then (vm.tables pt i).or preparedEntry else vm.tables pt i) ∧
      vm' = { vm with tables := vm'.tables } := by
  intro n
  induction n with
  | zero =>
      refine ⟨?_, rfl⟩
      have hsame : (fun i => if i % 2 = 0 ∧ i < 0 * 2 then (vm.tables pt i).or preparedEntry else vm.tables pt i) =
          vm.tables pt := by
        funext i
        rw [if_neg (by omega)]
      rw [hsame, Function.update_eq_self]
      rfl
  | succ n ih =>
      obtain ⟨htables, hrest⟩ := ih
      intro vm'
      have hvm' : vm' = prepareTurn pt ((List.range n).foldl (prepareTurn pt) vm) n := by
        show (List.range (n + 1)).foldl (prepareTurn pt) vm = _
        rw [List.range_succ, List.foldl_append]
        rfl
      rw [hvm']
      refine ⟨?_, ?_⟩
      · show Radix.set _ pt (n * 2) _ = _
        rw [htables]
        unfold Radix.set
        rw [Function.update_idem, Function.update_self]
        congr 1
        funext i
        by_cases hi : i = n * 2
        · subst hi
          rw [Function.update_self, if_neg (by omega), if_pos (by omega)]
        · rw [Function.update_of_ne hi]
          by_cases hin : i % 2 = 0 ∧ i < n * 2
          · rw [if_pos hin, if_pos (by omega)]
          · rw [if_neg hin, if_neg (by omega)]
      · rw [hrest]
        rfl

/-- A table with the links of its blocks. -/
def preparedTable (content : Nat → PtEntry) : Nat → PtEntry := fun i =>
  if i % 2 = 0 ∧ i < 256 * 2 then (content i).or preparedEntry else content i

theorem prepareBlockPt_tables {zone : VmZone} (horder : zone.blockOrder = 1) (pt : Nat) :
    prepareBlockPt vm zone pt =
      { vm with tables := Function.update vm.tables pt (preparedTable (vm.tables pt)) } := by
  obtain ⟨htables, hrest⟩ := @prepareTurns_tables vm pt 256
  rw [prepareBlockPt_eq horder, hrest, htables]
  rfl

/-- The turns write the links of the first blocks of the table. -/
theorem prepareTurns_spec (hok : TreeOk vm) (hfr : FreshFrames vm) (ht : Own 3 t) (hf : leafTable vm t = some f) :
    ∀ n, n ≤ 256 →
      Keeps vm ((List.range n).foldl (prepareTurn f) vm) (fun v => v / 512 = t) (fun _ => False) ∧
      (∀ v, OwnPage v → leaf ((List.range n).foldl (prepareTurn f) vm) v =
        if v / 512 = t ∧ v % 2 = 0 ∧ v % 512 < n * 2 then (leaf vm v).or preparedEntry else leaf vm v) ∧
      ((List.range n).foldl (prepareTurn f) vm).zones = vm.zones ∧
      ((List.range n).foldl (prepareTurn f) vm).calls = vm.calls ∧
      (AllWritable vm → AllWritable ((List.range n).foldl (prepareTurn f) vm)) ∧
      ((List.range n).foldl (prepareTurn f) vm).pageTables = vm.pageTables := by
  intro n
  induction n with
  | zero =>
      intro _
      refine ⟨(Keeps.refl hok hfr).mono (fun _ h => h.elim) (fun _ h => h), fun v _ => ?_, rfl, rfl, fun h => h, rfl⟩
      rw [if_neg (by omega)]
      rfl
  | succ n ih =>
      intro hn
      obtain ⟨hk, hleaf, hz, hc, hw, hp⟩ := ih (by omega)
      rw [List.range_succ, List.foldl_append]
      generalize (List.range n).foldl (prepareTurn f) vm = vm1 at hk hleaf hz hc hw hp ⊢
      have hf1 := hk.tables t f ht hf
      have hoff : n * 2 < 512 := by omega
      have hk1 := keeps_store hk.ok hk.fresh ht hf1 hoff ((vm1.tables f (n * 2)).or preparedEntry)
      show Keeps vm (prepareTurn f vm1 n) _ _ ∧ _
      refine ⟨(hk.trans hk1).mono ?_ (fun _ h => h.elim id id), fun v hv => ?_, hz, hc,
        fun h => allWritable_store hk.ok ht hf1 (hw h), hp⟩
      · rintro v (hv | hv)
        · exact hv
        · omega
      · have hentry : vm1.tables f (n * 2) = leaf vm1 (t * 512 + n * 2) := by
          have hdiv : (t * 512 + n * 2) / 512 = t := by omega
          rw [leaf_of_table (hdiv.symm ▸ hf1), show (t * 512 + n * 2) % 512 = n * 2 by omega]
        show leaf (vm1.store f (n * 2) _) v = _
        rw [leaf_store hk.ok ht hf1 hv hoff, hentry]
        by_cases hvn : v = t * 512 + n * 2
        · have hrest : leaf vm1 v = leaf vm v := by
            rw [hleaf v hv, if_neg (by omega)]
          rw [if_pos hvn, ← hvn, hrest, if_pos (by omega)]
        · rw [if_neg hvn, hleaf v hv]
          by_cases hin : v / 512 = t ∧ v % 2 = 0 ∧ v % 512 < n * 2
          · rw [if_pos hin, if_pos (by omega)]
          · rw [if_neg hin, if_neg (by omega)]

/-- **`_prepare_block_pt` links every block of the table to the next one.** -/
theorem prepareBlockPt_spec {zone : VmZone} (horder : zone.blockOrder = 1) (hok : TreeOk vm) (hfr : FreshFrames vm)
    (ht : Own 3 t) (hf : leafTable vm t = some f) :
    Keeps vm (prepareBlockPt vm zone f) (fun v => v / 512 = t) (fun _ => False) ∧
      (∀ v, OwnPage v → leaf (prepareBlockPt vm zone f) v =
        if v / 512 = t ∧ v % 2 = 0 then (leaf vm v).or preparedEntry else leaf vm v) ∧
      (prepareBlockPt vm zone f).zones = vm.zones ∧ (prepareBlockPt vm zone f).calls = vm.calls ∧
      (AllWritable vm → AllWritable (prepareBlockPt vm zone f)) ∧
      (prepareBlockPt vm zone f).pageTables = vm.pageTables := by
  rw [prepareBlockPt_eq horder]
  obtain ⟨hk, hleaf, hrest⟩ := prepareTurns_spec hok hfr ht hf 256 (Nat.le_refl _)
  refine ⟨hk, fun v hv => ?_, hrest⟩
  rw [hleaf v hv]
  have hmod : v % 512 < 256 * 2 := Nat.mod_lt _ (by decide)
  by_cases hin : v / 512 = t ∧ v % 2 = 0
  · rw [if_pos hin, if_pos ⟨hin.1, hin.2, hmod⟩]
  · rw [if_neg hin, if_neg (fun h => hin ⟨h.1, h.2.1⟩)]

/-! ## Links -/

/-- A link stays where neither the entry is written nor the table is made. -/
theorem Keeps.nextFree_eq {W T : Nat → Prop} (h : Keeps vm vm' W T) {w : Nat} (hw : OwnPage w) (hW : ¬ W w)
    (hT : T (w / 512) → leafTable vm (w / 512) ≠ none) : nextFree vm' w = nextFree vm w := by
  have hentry : linkEntry vm' w = linkEntry vm w := by
    unfold linkEntry
    cases hg : leafTable vm (w / 512) with
    | none => rw [h.missing _ hw (fun ht => hT ht hg) hg, if_pos rfl, if_pos rfl]
    | some g => rw [h.tables _ g hw hg, h.entry w hw hW (by rw [hg]; exact Option.some_ne_none g)]
  unfold nextFree
  rw [hentry]

theorem nextFree_of_table {v : Nat} (h : leafTable vm (v / 512) = some f) :
    nextFree vm v = nextFreeEntry (vm.tables f (v % 512)) (v * 4096) := by
  unfold nextFree linkEntry
  rw [h, if_neg (Option.some_ne_none f), leaf_of_table h]

theorem nextFree_of_missing {v : Nat} (h : leafTable vm (v / 512) = none) :
    nextFree vm v = nextFreeEntry preparedEntry (v * 4096) := by
  unfold nextFree linkEntry
  rw [if_pos h]

/-- What holds before `vm_alloc_block` reads the entry at the cursor: its page table is there and prepared. -/
structure TableReady (vm vm' : VmSpace) (v : Nat) (flags : VmFlags) (f : Nat) : Prop where
  keeps : Keeps vm vm' (fun w => leafTable vm (v / 512) = none ∧ w / 512 = v / 512) (fun t => t = v / 512)
  here : leafTable vm' (v / 512) = some f
  links : ∀ w, OwnPage w → w % 2 = 0 → nextFree vm' w = nextFree vm w
  zones : vm'.zones = vm.zones
  calls : vm'.calls = vm.calls
  writable : AllWritable vm → flags.allowWrite = true → AllWritable vm'
  pageTables : ∀ g ∈ vm'.pageTables, g ∈ vm.pageTables ∨ g ∈ vm.frames

theorem tableReady_found (hok : TreeOk vm) (hfr : FreshFrames vm) {v : Nat} {flags : VmFlags}
    (hf : leafTable vm (v / 512) = some f) : TableReady vm vm v flags f where
  keeps := (Keeps.refl hok hfr).mono (fun _ h => h.elim) (fun _ h => h.elim)
  here := hf
  links := fun _ _ _ => rfl
  zones := rfl
  calls := rfl
  writable := fun h _ => h
  pageTables := fun _ h => Or.inl h

/-- A new page table, prepared, holds the links that were expected of it. -/
theorem tableReady_made {v : Nat} {flags : VmFlags} {zone : VmZone} (horder : zone.blockOrder = 1) (hv : OwnPage v)
    (hmissing : leafTable vm (v / 512) = none) (hmade : MadeTable vm vm' (v / 512) flags f) :
    TableReady vm (prepareBlockPt vm' zone f) v flags f := by
  obtain ⟨hk, hleaf, hz, hc, hw, hp⟩ := prepareBlockPt_spec horder hmade.ok hmade.fresh hv hmade.here
  have hk' := (hmade.keeps' hmissing).trans hk
  have hhere := hk.tables _ f hv hmade.here
  refine ⟨hk'.mono ?_ ?_, hhere, fun w hw heven => ?_, hz.trans hmade.zones, hc.trans hmade.calls,
    fun h hflags => hw (hmade.writable h hflags), fun g hg => hmade.pageTables g (hp ▸ hg)⟩
  · rintro w (hw | hw)
    · exact hw.elim
    · exact ⟨hmissing, hw⟩
  · rintro t (ht | ht)
    · exact ht
    · exact ht.elim
  · by_cases hwt : w / 512 = v / 512
    · -- Before: the link the table will be prepared with. After: that link, in the table.
      have hbefore : leafTable vm (w / 512) = none := by
        rw [hwt]
        exact hmissing
      have hafter : leafTable (prepareBlockPt vm' zone f) (w / 512) = some f := by
        rw [hwt]
        exact hhere
      rw [nextFree_of_missing hbefore, nextFree_of_table hafter]
      refine nextFreeEntry_core ?_ _
      rw [← leaf_of_table hafter, hleaf w hw, if_pos ⟨hwt, heven⟩, hmade.leaf_eq hw, if_pos hwt]
      have hnew := newTable_core flags 0 1 (w % 512)
      have hor : ((newTable flags 0 1 (w % 512)).or preparedEntry).core =
          (newTable flags 0 1 (w % 512)).core.or preparedEntry := by
        simp [PtEntry.core, PtEntry.or, preparedEntry]
      rw [hor, hnew]
      rfl
    · refine hk'.nextFree_eq hw ?_ ?_
      · exact fun h => h.elim id hwt
      · exact fun h => h.elim (fun h => absurd h hwt) False.elim

/-! ## `vm_alloc_block` -/

/-- The entry `vm_alloc_block` gives to page `i` of a block. -/
def blockEntry (entry : PtEntry) (i blockBase : Nat) (flags : VmFlags) : PtEntry :=
  ((vmPtEntryCreate blockBase flags).or (dataAllocFlags i blockBase flags)).or (ptAllocFlags entry)

/-- The two pages of a block. -/
theorem mapBlock_two (vm : VmSpace) (pt offset : Nat) (entry : PtEntry) (flags : VmFlags) (blockBase : Nat) :
    mapBlock pt offset 2 entry flags 2 vm blockBase =
      (vm.store pt offset (blockEntry entry 0 blockBase flags)).store pt (offset + 1)
        (blockEntry entry 1 (add64 blockBase pageSize) flags) := rfl

/-- What a successful `vm_alloc_block` does. -/
structure BlockAllocated (vm vm' : VmSpace) (zone : Zone) (v : Nat) (flags : VmFlags) : Prop where
  keeps : Keeps vm vm'
    (fun w => w = v ∨ w = v + 1 ∨ (leafTable vm (v / 512) = none ∧ w / 512 = v / 512)) (fun t => t = v / 512)
  here : leafTable vm' (v / 512) ≠ none
  links : ∀ w, OwnPage w → w % 2 = 0 → w ≠ v → nextFree vm' w = nextFree vm w
  zones : vm'.zones = Function.update vm.zones zone { vm.zones zone with cursorAddr := nextFree vm v }
  calls : vm'.calls = vm.calls
  writable : AllWritable vm → flags.allowWrite = true → AllWritable vm'
  pageTables : ∀ g ∈ vm'.pageTables, g ∈ vm.pageTables ∨ g ∈ vm.frames

/-- With the page table at hand, the rest of the call is two stores. -/
theorem TableReady.allocated {v : Nat} {flags : VmFlags} {zone : Zone} (h : TableReady vm vm' v flags f)
    (hv : OwnPage v) (heven : v % 2 = 0) (blockBase : Nat) :
    BlockAllocated vm
      (mapBlock f (v % 512) 2 (vm'.tables f (v % 512)) flags 2
        (vm'.setCursor zone (nextFreeEntry (vm'.tables f (v % 512)) (v * 4096))) blockBase) zone v flags := by
  rw [mapBlock_two]
  have hmod : v % 512 + 1 < 512 := by omega
  have hk0 : Keeps vm' (vm'.setCursor zone (nextFreeEntry (vm'.tables f (v % 512)) (v * 4096)))
      (fun _ => False) (fun _ => False) :=
    (Keeps.refl h.keeps.ok h.keeps.fresh).of_same_tables rfl rfl rfl rfl
  have hk1 := keeps_store hk0.ok hk0.fresh hv (hk0.tables _ f hv h.here) (Nat.lt_of_succ_lt hmod)
    (blockEntry (vm'.tables f (v % 512)) 0 blockBase flags)
  have hk2 := keeps_store hk1.ok hk1.fresh hv (hk1.tables _ f hv (hk0.tables _ f hv h.here)) hmod
    (blockEntry (vm'.tables f (v % 512)) 1 (add64 blockBase pageSize) flags)
  have hk := (hk0.trans hk1).trans hk2
  have hpages : ∀ w, ((False ∨ w = v / 512 * 512 + v % 512) ∨ w = v / 512 * 512 + (v % 512 + 1)) →
      w = v ∨ w = v + 1 := by
    rintro w ((hw | hw) | hw)
    · exact hw.elim
    · exact Or.inl (by omega)
    · exact Or.inr (by omega)
  refine ⟨(h.keeps.trans hk).mono ?_ ?_, ?_, fun w hw hweven hne => ?_, ?_, h.calls, fun hall hflags => ?_,
    h.pageTables⟩
  · rintro w (hw | hw)
    · exact Or.inr (Or.inr hw)
    · exact (hpages w hw).elim Or.inl (fun h => Or.inr (Or.inl h))
  · rintro t (ht | ((ht | ht) | ht))
    · exact ht
    · exact ht.elim
    · exact ht.elim
    · exact ht.elim
  · rw [hk.tables _ f hv h.here]
    exact Option.some_ne_none f
  · rw [hk.nextFree_eq hw ?_ ?_, h.links w hw hweven]
    · intro hin
      have := hpages w hin
      omega
    · rintro ((ht | ht) | ht)
      · exact ht.elim
      · exact ht.elim
      · exact ht.elim
  · show Function.update vm'.zones zone { vm'.zones zone with cursorAddr := _ } = _
    rw [h.zones, ← h.links v hv heven, nextFree_of_table h.here]
  · refine allWritable_store hk1.ok hv (hk1.tables _ f hv (hk0.tables _ f hv h.here)) ?_
    refine allWritable_store hk0.ok hv (hk0.tables _ f hv h.here) ?_
    exact h.writable hall hflags

/-- **`vm_alloc_block` returns the block at the cursor and moves the cursor along its link.** -/
theorem vmAllocBlock_spec {v a blockBase : Nat} {flags : VmFlags} {zone : Zone} (hok : TreeOk vm)
    (hfr : FreshFrames vm) (horder : (vm.zones zone).blockOrder = 1) (hcursor : (vm.zones zone).cursorAddr = v * 4096)
    (hv : OwnPage v) (heven : v % 2 = 0) (hrun : vmAllocBlock vm flags zone blockBase = .ok (a, vm')) :
    a = v * 4096 ∧ BlockAllocated vm vm' zone v flags := by
  unfold vmAllocBlock at hrun
  rw [hcursor, horder] at hrun
  obtain ⟨⟨pt, n, vm1⟩, hfind, hrun1⟩ := bind_eq_ok.mp hrun
  obtain ⟨f, hf, hrun2⟩ := bind_eq_ok.mp hrun1
  cases pt with
  | none => cases hf
  | some f' =>
      cases hf
      have haddr : v * 4096 / 4096 = v := by omega
      have hoff : ptOffset (v * 4096) = v % 512 := by rw [ptOffset_eq, haddr]
      have hown : Own 3 (v * 4096 / 4096 / 512) := by
        rw [haddr]
        exact hv
      have hspec := findOrAllocatePt_spec hok hfr hown hfind
      rw [haddr] at hspec
      simp only [hoff] at hrun2
      rcases hspec with ⟨rfl, rfl, hf⟩ | ⟨hn, hmissing, hmade⟩
      · have hn : ¬ 0 > 0 := Nat.lt_irrefl 0
        simp only [if_neg hn] at hrun2
        cases hrun2
        exact ⟨rfl, (tableReady_found hok hfr hf).allocated hv heven blockBase⟩
      · have hn : n > 0 := hn
        simp only [if_pos hn] at hrun2
        cases hrun2
        refine ⟨rfl, (tableReady_made ?_ hv hmissing hmade).allocated hv heven blockBase⟩
        rw [hmade.zones]
        exact horder

/-- **`vm_alloc_block` succeeds** when the tables on the way allow what is asked for. -/
theorem vmAllocBlock_total {v : Nat} {flags : VmFlags} {zone : Zone}
    (hcursor : (vm.zones zone).cursorAddr = v * 4096) (hv : OwnPage v)
    (hw : flags.allowWrite = true → AllWritable vm) (hu : flags.allowUser = false) (hlen : 3 ≤ vm.frames.length)
    (blockBase : Nat) : ∃ a vm', vmAllocBlock vm flags zone blockBase = .ok (a, vm') := by
  have haddr : v * 4096 / 4096 = v := by omega
  have hown : Own 3 ((vm.zones zone).cursorAddr / 4096 / 512) := by
    rw [hcursor, haddr]
    exact hv
  obtain ⟨f, n, vm1, hfind⟩ := findOrAllocatePt_total hown hw hu hlen
  simp only [vmAllocBlock, hfind]
  exact ⟨_, _, rfl⟩

/-! ## `vm_free_block` -/

/-- The entry a freed block is left with. -/
def freedEntry (entry : PtEntry) (addr nextFreeAddr : Nat) : PtEntry :=
  { nextFreeLink entry addr nextFreeAddr with present := false }

theorem store_store (t i : Nat) (e e' : PtEntry) : (vm.store t i e).store t i e' = vm.store t i e' := by
  unfold VmSpace.store
  rw [set_set]

/-- All turns of the loop of `vm_free_block` store the same entry at the same place. -/
theorem unmapLoop_succ (t i left : Nat) (vm : VmSpace) :
    unmapLoop t i (left + 1) vm = vm.store t i { vm.tables t i with present := false } := by
  induction left generalizing vm with
  | zero => rfl
  | succ left ih =>
      have hself : (vm.store t i { vm.tables t i with present := false }).tables t i =
          { vm.tables t i with present := false } := set_self
      rw [unmapLoop, ih, store_store, hself]

/-- The loop after the link has been stored: with any number of pages it clears one bit. -/
theorem unmapLoop_link (t i n a : Nat) (zone : Zone) (e : PtEntry) (vm : VmSpace) :
    unmapLoop t i n ((vm.store t i e).setCursor zone a) =
      (vm.store t i (if n = 0 then e else { e with present := false })).setCursor zone a := by
  cases n with
  | zero => rfl
  | succ n =>
      have hself : ((vm.store t i e).setCursor zone a).tables t i = e := set_self
      rw [unmapLoop_succ, hself, if_neg (Nat.succ_ne_zero n)]
      exact congrArg (fun vm => vm.setCursor zone a) (store_store t i e { e with present := false })

/-- The link `vm_free_block` writes leads to the block at the cursor, in either direction. -/
theorem nextFreeEntry_freedEntry {v c : Nat} (hv : OwnPage v) (hc : OwnPage c) (e : PtEntry) :
    nextFreeEntry (freedEntry e (v * 4096) (c * 4096)) (v * 4096) = c * 4096 := by
  have hvb := ownPage_iff.mp hv
  have hcb := ownPage_iff.mp hc
  have hoff : (if c * 4096 > v * 4096 then sub64 (c * 4096) (v * 4096) else sub64 (v * 4096) (c * 4096)) =
      if c > v then (c - v) * 4096 else (v - c) * 4096 := by
    by_cases hcv : c > v
    · rw [if_pos (by omega), if_pos hcv, sub64_of_le (by omega) (by omega)]
      omega
    · rw [if_neg (by omega), if_neg hcv, sub64_of_le (by omega) (by omega)]
      omega
  have hpage : PageAddr (if c > v then (c - v) * 4096 else (v - c) * 4096) := by
    unfold PageAddr
    split <;> omega
  unfold freedEntry nextFreeLink nextFreeEntry
  simp only [hoff, hpage.ofWord_eq, PtEntry.or, Nat.zero_or, decide_eq_true_eq]
  by_cases hlt : c < v
  · rw [if_pos (by omega), if_neg (by omega), sub64_of_le (by omega) (by omega)]
    omega
  · rw [if_neg (by omega)]
    by_cases hgt : c > v
    · rw [if_pos hgt, add64_of_lt (by omega)]
      omega
    · rw [if_neg hgt, add64_of_lt (by omega)]
      omega

/-- **`vm_free_block` puts the block in front of the one at the cursor.** -/
theorem vmFreeBlock_spec {v c addr : Nat} {zone : Zone} (hok : TreeOk vm) (hfr : FreshFrames vm)
    (horder : (vm.zones zone).blockOrder = 1) (hcursor : (vm.zones zone).cursorAddr = c * 4096) (hc : OwnPage c)
    (hv : OwnPage v) (haddr : addr < 2 ^ 64) (hblock : addr / 8192 * 2 = v)
    (hf : leafTable vm (v / 512) ≠ none) :
    (vmFreeBlock vm addr zone).1 = none ∧
      Keeps vm (vmFreeBlock vm addr zone).2 (fun w => w = v) (fun _ => False) ∧
      nextFree (vmFreeBlock vm addr zone).2 v = c * 4096 ∧
      (vmFreeBlock vm addr zone).2.zones =
        Function.update vm.zones zone { vm.zones zone with cursorAddr := v * 4096 } ∧
      (AllWritable vm → AllWritable (vmFreeBlock vm addr zone).2) ∧
      (vmFreeBlock vm addr zone).2.pageTables = vm.pageTables := by
  obtain ⟨f, hf⟩ := Option.ne_none_iff_exists'.mp hf
  have htrunc : truncNBits addr (1 + pageOrder) = v * 4096 := by
    show truncNBits addr 13 = _
    rw [truncNBits_eq haddr (by decide)]
    omega
  have hdiv : v * 4096 / 4096 = v := by omega
  have hrun : vmFreeBlock vm addr zone =
      (none, ((freePhysBlock vm (vm.tables f (v % 512)) 2).store f (v % 512)
        (freedEntry (vm.tables f (v % 512)) (v * 4096) (c * 4096))).setCursor zone (v * 4096)) := by
    simp only [vmFreeBlock, horder, htrunc, hcursor, findPtOrNull_eq, hdiv, hf, ptOffset_eq]
    exact congrArg (Prod.mk none) (unmapLoop_link _ _ _ _ _ _ _)
  rw [hrun]
  have hsame := freePhysBlock_same vm (vm.tables f (v % 512)) 2
  have hmod : v % 512 < 512 := Nat.mod_lt _ (by decide)
  have hvi : v / 512 * 512 + v % 512 = v := by omega
  have hk0 := (Keeps.refl hok hfr).of_same hsame
  have hf0 := hk0.tables _ f hv hf
  have hk1 := keeps_store hk0.ok hk0.fresh hv hf0 hmod
    (freedEntry (vm.tables f (v % 512)) (v * 4096) (c * 4096))
  have hk : Keeps vm (((freePhysBlock vm (vm.tables f (v % 512)) 2).store f (v % 512)
      (freedEntry (vm.tables f (v % 512)) (v * 4096) (c * 4096))).setCursor zone (v * 4096))
      (fun w => w = v) (fun _ => False) := by
    refine ((hk0.trans hk1).mono ?_ (fun _ h => h.elim id id)).of_same_tables rfl rfl rfl rfl
    rintro w (hw | hw)
    · exact hw.elim
    · omega
  refine ⟨rfl, hk, ?_, ?_, fun hw => ?_, hsame.pageTables⟩
  · rw [nextFree_of_table (hk.tables _ f hv hf)]
    have hentry : (((freePhysBlock vm (vm.tables f (v % 512)) 2).store f (v % 512)
        (freedEntry (vm.tables f (v % 512)) (v * 4096) (c * 4096))).setCursor zone (v * 4096)).tables f (v % 512) =
        freedEntry (vm.tables f (v % 512)) (v * 4096) (c * 4096) := set_self
    rw [hentry]
    exact nextFreeEntry_freedEntry hv hc _
  · show Function.update (freePhysBlock vm _ 2).zones zone { (freePhysBlock vm _ 2).zones zone with
      cursorAddr := v * 4096 } = _
    rw [hsame.zones]
  · refine allWritable_store (e := freedEntry _ _ _) hk0.ok hv hf0 ?_
    intro d p g hp hg
    have hnode : nodeOf (freePhysBlock vm (vm.tables f (v % 512)) 2) d (p / 512) = nodeOf vm d (p / 512) := by
      unfold nodeOf
      rw [hsame.tables, hsame.pml4t]
    rw [hnode] at hg
    rw [hsame.tables]
    exact hw d p g hp hg

end

end LearningOS.Paging
