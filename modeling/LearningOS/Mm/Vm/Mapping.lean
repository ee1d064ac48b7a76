import LearningOS.Mm.Vm.Contiguous
import LearningOS.Mm.Vm.Lookup

/-!
# `Mm.Vm.Mapping` — what `vmzone_extend` does to the translation of addresses

`translate` is the walk of the processor: the frame of the page an address is in, and the rights that all entries on
the way grant together. A huge page ends the walk early, and the bit means nothing in the last level.

* `translate_store`, `translate_stored` — an entry of a page table is one page;
* `translate_graft` — a new empty table below a missing entry maps nothing;
* `findOrAllocatePt_grows` — so `__find_or_allocate_pt` changes no translation;
* `vmzone_extend_maps` — the pages of the range are mapped as asked for, and no other page is touched.
-/

namespace LearningOS.Paging

open Word Run Radix

/-! ## The walk of the processor -/

/-- What the entries of a walk grant together. -/
structure Rights where
  writable : Bool
  user : Bool
  exec : Bool
deriving DecidableEq, Repr

/-- The rights before the first entry. -/
def Rights.all : Rights := ⟨true, true, true⟩

/-- One entry more. -/
def Rights.meet (r : Rights) (e : PtEntry) : Rights :=
  ⟨r.writable && e.writable, r.user && e.userAccessible, r.exec && !e.noExecute⟩

/-- The rights flags ask for. -/
def VmFlags.rights (flags : VmFlags) : Rights := ⟨flags.allowWrite, flags.allowUser, flags.allowExec⟩

/-- The frame of the page of an address inside a huge page, whose entry is at height `h`. -/
def hugeFrame (e : PtEntry) (addr h : Nat) : Nat :=
  e.addr / 2 ^ (12 + 9 * h) * 2 ^ (12 + 9 * h) + addr % 2 ^ (12 + 9 * h) / 4096 * 4096

/-- The walk from a table at the given height. In the top table the bit of a huge page is reserved. -/
def translateBelow (tables : Mem Nat PtEntry) (addr : Nat) : Nat → Nat → Rights → Option (Nat × Rights)
  | 0, table, r =>
    let entry := tables table (ptOffset addr)
    if entry.present then some (entry.addr, r.meet entry) else none
  | h + 1, table, r =>
    let entry := tables table (heightOffset addr (h + 1))
    if !entry.present then none
    else if entry.hugepage then if h + 1 = 3 then none else some (hugeFrame entry addr (h + 1), r.meet entry)
    else translateBelow tables addr h entry.addr (r.meet entry)

/-- The frame an address is translated to, and with which rights. -/
def translate (vm : VmSpace) (addr : Nat) : Option (Nat × Rights) := translateBelow vm.tables addr 3 vm.pml4t .all

/-- The number of the page of an address. -/
def pageNumber (addr : Nat) : Nat := addr % 2 ^ 48 / 4096

/-- The entry allows all that is asked for, execution too. -/
def GrantsAll (flags : VmFlags) (e : PtEntry) : Prop :=
  Grants flags e ∧ (flags.allowExec = true → e.noExecute = false)

section

variable {vm vm' : VmSpace} {addr a : Nat} {flags : VmFlags}

theorem translateBelow_missing {tables : Mem Nat PtEntry} {h table : Nat} {r : Rights}
    (hp : (tables table (heightOffset a h)).present = false) : translateBelow tables a h table r = none := by
  cases h with
  | zero =>
      have hp : (tables table (ptOffset a)).present = false := hp
      unfold translateBelow
      simp [hp]
  | succ h =>
      unfold translateBelow
      simp [hp]

theorem translateBelow_link {tables : Mem Nat PtEntry} {h table : Nat} {r : Rights}
    (hp : (tables table (heightOffset a (h + 1))).present = true)
    (hh : (tables table (heightOffset a (h + 1))).hugepage = false) :
    translateBelow tables a (h + 1) table r =
      translateBelow tables a h (tables table (heightOffset a (h + 1))).addr
        (r.meet (tables table (heightOffset a (h + 1)))) := by
  conv_lhs => unfold translateBelow
  simp [hp, hh]

/-- The walk reads one entry of each table it comes to. -/
theorem translateBelow_congr {tables tables' : Mem Nat PtEntry} {h table : Nat} {r : Rights}
    (he : tables' table (heightOffset a h) = tables table (heightOffset a h))
    (hnext : ∀ k, h = k + 1 → (tables table (heightOffset a h)).present = true →
      (tables table (heightOffset a h)).hugepage = false →
      translateBelow tables' a k (tables table (heightOffset a h)).addr (r.meet (tables table (heightOffset a h))) =
        translateBelow tables a k (tables table (heightOffset a h)).addr
          (r.meet (tables table (heightOffset a h)))) :
    translateBelow tables' a h table r = translateBelow tables a h table r := by
  cases h with
  | zero =>
      have he : tables' table (ptOffset a) = tables table (ptOffset a) := he
      unfold translateBelow
      rw [he]
  | succ h =>
      cases hp : (tables table (heightOffset a (h + 1))).present with
      | false => rw [translateBelow_missing hp, translateBelow_missing (he ▸ hp)]
      | true =>
          cases hh : (tables table (heightOffset a (h + 1))).hugepage with
          | false =>
              rw [translateBelow_link hp hh, translateBelow_link (he ▸ hp) (he ▸ hh), he]
              exact hnext h rfl hp hh
          | true =>
              unfold translateBelow
              simp [he, hp, hh]

/-- The page of an address is where its page table is and which entry of it is its own. -/
theorem pageNumber_eq (addr : Nat) : pageNumber addr = path (addr % 2 ^ 48) 3 * 512 + ptOffset addr := by
  rw [path_three, ptOffset_eq]
  unfold pageNumber
  omega

/-! ## Stores into page tables -/

section Store

variable {t : Nat} {e : PtEntry}

/-- A page table is on no higher level. -/
theorem TableTree.upper_ne (htree : TableTree vm) (ht : tableAt vm addr 3 = some t) {d f : Nat} (hd : d < 3)
    (hf : tableAt vm a d = some f) : f ≠ t := by
  rintro rfl
  obtain ⟨h3, -⟩ := htree _ _ _ _ _ (anywhere_path a (by omega)) (anywhere_path addr (Nat.le_refl 3)) hf ht
  omega

theorem node_store (htree : TableTree vm) (ht : tableAt vm addr 3 = some t) {i d p : Nat} (hp : Anywhere d p) :
    node tableBehind 512 (vm.store t i e).tables (vm.store t i e).pml4t d p =
      node tableBehind 512 vm.tables vm.pml4t d p :=
  node_set_leaf anywhere_positions htree (fun _ _ h => h.1) (anywhere_path addr (Nat.le_refl 3)) ht i e d p hp

theorem tableAt_store (htree : TableTree vm) (ht : tableAt vm addr 3 = some t) {i d : Nat} (hd : d ≤ 3) :
    tableAt (vm.store t i e) a d = tableAt vm a d :=
  node_store htree ht (anywhere_path a hd)

theorem tableTree_store (htree : TableTree vm) (ht : tableAt vm addr 3 = some t) {i : Nat} :
    TableTree (vm.store t i e) :=
  htree.congr (fun _ _ hp => node_store htree ht hp)

theorem framesApart_store (htree : TableTree vm) (hframes : FramesApart vm) (ht : tableAt vm addr 3 = some t)
    {i : Nat} : FramesApart (vm.store t i e) where
  nodup := hframes.nodup
  aligned := hframes.aligned
  apart := fun f hf d p hp hnode => hframes.apart f hf d p hp ((node_store htree ht hp).symm.trans hnode)

/-- The entries above the page tables stay. -/
theorem onPath_store (htree : TableTree vm) (ht : tableAt vm addr 3 = some t) {i : Nat} {P : PtEntry → Prop}
    (h : OnPath vm a P) : OnPath (vm.store t i e) a P := by
  intro k hk hk3 x hx hp
  obtain ⟨f, hf, rfl⟩ := exists_of_entryAt hx
  rw [tableAt_store htree ht (by omega)] at hf
  have hft : f ≠ t := htree.upper_ne ht (by omega) hf
  have hsame : (vm.store t i e).tables f = vm.tables f := by
    funext j
    exact set_of_ne_table hft
  rw [hsame] at hp ⊢
  exact h k hk hk3 _ (entryAt_of_table (by omega) hf) hp

/-- A store into a page table leaves the entries of all other pages. -/
theorem entry_of_other_page (htree : TableTree vm) (ht : tableAt vm addr 3 = some t) {g : Nat}
    (hg : tableAt vm a 3 = some g)
    (hne : pageNumber a ≠ pageNumber addr) :
    (vm.store t (ptOffset addr) e).tables g (ptOffset a) = vm.tables g (ptOffset a) := by
  by_cases hgt : g = t
  · subst hgt
    obtain ⟨-, hpath⟩ := htree _ _ _ _ _ (anywhere_path a (Nat.le_refl 3)) (anywhere_path addr (Nat.le_refl 3)) hg ht
    refine set_of_ne_index (fun hi => hne ?_)
    rw [pageNumber_eq, pageNumber_eq, hpath, hi]
  · exact set_of_ne_table hgt

/-- The other pages are translated as before. -/
theorem translate_store (htree : TableTree vm) (ht : tableAt vm addr 3 = some t)
    (hne : pageNumber a ≠ pageNumber addr) : translate (vm.store t (ptOffset addr) e) a = translate vm a := by
  have hwalk : ∀ h d table r, d + h = 3 → tableAt vm a d = some table →
      translateBelow (vm.store t (ptOffset addr) e).tables a h table r = translateBelow vm.tables a h table r := by
    intro h
    induction h with
    | zero =>
        intro d table r hd hf
        obtain rfl : d = 3 := by omega
        exact translateBelow_congr (entry_of_other_page htree ht hf hne) (fun k hk => by omega)
    | succ h ih =>
        intro d table r hd hf
        refine translateBelow_congr (set_of_ne_table (htree.upper_ne ht (by omega) hf)) (fun k hk hp hh => ?_)
        obtain rfl : k = h := by omega
        refine ih (d + 1) _ _ (by omega) ?_
        rw [tableAt_succ hd, hf]
        exact tableBehind_link hp hh
  exact hwalk 3 0 vm.pml4t .all rfl tableAt_zero

end Store

/-- What the entries above a page table grant leaves the rights of the flags to its own entry. -/
theorem translateBelow_granted {t phys : Nat} {e : PtEntry} (hgrant : OnPath vm addr (GrantsAll flags))
    (ht : tableAt vm addr 3 = some t) (he : vm.tables t (ptOffset addr) = e) (hp : e.present = true) (haddr : e.addr = phys)
    (hw : e.writable = flags.allowWrite) (hu : e.userAccessible = flags.allowUser)
    (hx : e.noExecute = !flags.allowExec) :
    ∀ h d table r, d + h = 3 → tableAt vm addr d = some table →
      (flags.allowWrite = true → r.writable = true) → (flags.allowUser = true → r.user = true) →
      (flags.allowExec = true → r.exec = true) →
      translateBelow vm.tables addr h table r = some (phys, flags.rights) := by
  intro h
  induction h with
  | zero =>
      intro d table r hd hf hrw hru hrx
      obtain rfl : d = 3 := by omega
      obtain rfl := Option.some.inj (hf.symm.trans ht)
      unfold translateBelow
      simp only [he, hp, if_true, haddr, Rights.meet, VmFlags.rights, hw, hu, hx, Bool.not_not]
      congr 2
      simp only [Rights.mk.injEq, Bool.and_eq_right_iff_imp]
      exact ⟨hrw, hru, hrx⟩
  | succ h ih =>
      intro d table r hd hf hrw hru hrx
      have hentry := entryAt_of_table hd hf
      obtain ⟨hpres, hhu, hnext⟩ := link_above hd hf ht (by omega) (Nat.le_refl 3)
      obtain ⟨⟨hgw, hgu⟩, hgx⟩ := hgrant (h + 1) (by omega) (by omega) _ hentry hpres
      rw [translateBelow_link hpres hhu]
      refine ih (d + 1) _ _ (by omega) hnext (fun hf' => ?_) (fun hf' => ?_) (fun hf' => ?_)
      · simp [Rights.meet, hrw hf', hgw hf']
      · simp [Rights.meet, hru hf', hgu hf']
      · simp [Rights.meet, hrx hf', hgx hf']

/-- **An entry of a page table is one page**: after the store its page is translated to the frame that was stored,
    with the rights of the flags. -/
theorem translate_stored {t phys i pages : Nat} {e : PtEntry} (htree : TableTree vm)
    (hgrant : OnPath vm addr (GrantsAll flags)) (ht : tableAt vm addr 3 = some t) (hphys : PageAddr phys) :
    translate (vm.store t (ptOffset addr) (mapPage e i pages flags phys)) addr = some (phys, flags.rights) := by
  have ht' : tableAt (vm.store t (ptOffset addr) (mapPage e i pages flags phys)) addr 3 = some t :=
    (tableAt_store htree ht (Nat.le_refl 3)).trans ht
  have hgrant' := onPath_store (e := mapPage e i pages flags phys) (i := ptOffset addr) htree ht hgrant
  refine translateBelow_granted hgrant' ht' set_self rfl ?_ ?_ ?_ ?_ 3 0 vm.pml4t .all
    rfl tableAt_zero (fun _ => rfl) (fun _ => rfl) (fun _ => rfl)
  · show 0 ||| (phys &&& PtEntry.addrMask) = phys
    rw [Nat.zero_or, hphys.and_addrMask]
  · exact mapPhysPage_writable _ _ _
  · exact Bool.false_or _
  · exact Bool.false_or _

/-! ## New page tables -/

/-- From `vm` to `vm'` the tree of tables has grown: nothing that was there has moved and no page is translated
    otherwise. -/
structure Grows (vm vm' : VmSpace) (flags : VmFlags) (levels : Nat) : Prop where
  tree : TableTree vm'
  frames : FramesApart vm'
  count : vm.frames.length ≤ vm'.frames.length + levels
  translate : ∀ a, translate vm' a = translate vm a
  tables : ∀ a d f, d ≤ 3 → tableAt vm a d = some f → tableAt vm' a d = some f
  onPath : ∀ a P, (∀ x g, PageAddr g → P (mapPhysPage x g flags)) → OnPath vm a P → OnPath vm' a P
  zones : vm'.zones = vm.zones
  big : flags.hugepage = true → vm' = vm

theorem Grows.refl (htree : TableTree vm) (hframes : FramesApart vm) (levels : Nat) : Grows vm vm flags levels :=
  ⟨htree, hframes, Nat.le_add_right _ _, fun _ => rfl, fun _ _ _ _ h => h, fun _ _ _ h => h, rfl,
    fun _ => rfl⟩

section Graft

theorem tableBehind_mapPhysPage {g : Nat} (hg : PageAddr g) (hflags : flags.hugepage = false) (e : PtEntry) :
    tableBehind (mapPhysPage e g flags) = some g := by
  obtain ⟨hpres, -, haddr⟩ := mapPhysPage_link flags hg e
  rw [tableBehind_link hpres ((Bool.false_or _).trans hflags), haddr]

variable {d h g stop : Nat} {rest : List Nat}

theorem heightOffset_path (hd : d + (h + 1) = 3) :
    path (addr % 2 ^ 48) (d + 1) % 512 = heightOffset addr (h + 1) := by
  rw [path_mod _ hd, heightOffset_mod (by omega)]

/-- One turn of the loop that makes tables: `g` is linked below `stop`. -/
abbrev grafted (vm : VmSpace) (addr : Nat) (flags : VmFlags) (h g : Nat) (rest : List Nat) (stop : Nat) : VmSpace :=
  linked vm g rest (newTable flags 0 1) stop (heightOffset addr (h + 1))
    (mapPhysPage (vm.tables stop (heightOffset addr (h + 1))) g flags)

/-- The entry of `stop` on the way is missing, and `g` is the next answer of the physical allocator. -/
structure AtMissing (vm : VmSpace) (addr : Nat) (flags : VmFlags) (d h g : Nat) (rest : List Nat) (stop : Nat) :
    Prop where
  tree : TableTree vm
  frames : FramesApart vm
  depth : d + (h + 1) = 3
  table : tableAt vm addr d = some stop
  missing : (vm.tables stop (heightOffset addr (h + 1))).present = false
  queue : vm.frames = g :: rest
  small : flags.hugepage = false

namespace AtMissing

variable (hat : AtMissing vm addr flags d h g rest stop)
include hat

theorem mem : g ∈ vm.frames := hat.queue ▸ List.mem_cons_self

theorem stop_ne : stop ≠ g := by
  rintro rfl
  have hd := hat.depth
  exact hat.frames.apart stop hat.mem _ _ (anywhere_path addr (by omega)) hat.table

/-- The tree has one table more, and still is one. -/
theorem node_grafted :
    (∀ d' p, Anywhere d' p →
      node tableBehind 512 (grafted vm addr flags h g rest stop).tables (grafted vm addr flags h g rest stop).pml4t d' p =
        if d' = d + 1 ∧ p = path (addr % 2 ^ 48) (d + 1) then some g
        else node tableBehind 512 vm.tables vm.pml4t d' p) ∧
      TableTree (grafted vm addr flags h g rest stop) := by
  have hd := hat.depth
  have hq : Anywhere (d + 1) (path (addr % 2 ^ 48) (d + 1)) := anywhere_path addr (by omega)
  have hparent : node tableBehind 512 vm.tables vm.pml4t d (path (addr % 2 ^ 48) (d + 1) / 512) = some stop := by
    rw [path_div _ (by omega)]
    exact hat.table
  have hempty : tableBehind (vm.tables stop (path (addr % 2 ^ 48) (d + 1) % 512)) = none := by
    rw [heightOffset_path hd]
    exact tableBehind_missing hat.missing
  have hlink := tableBehind_mapPhysPage (hat.frames.aligned g hat.mem) hat.small
    (vm.tables stop (heightOffset addr (h + 1)))
  have hblank : ∀ i, tableBehind (newTable flags 0 1 i) = none :=
    fun i => tableBehind_missing (present_newTable flags 0 1 i)
  have hgraft := node_graft anywhere_positions hat.tree hq hparent hempty hlink (hat.frames.apart g hat.mem) hblank
  have htree := separate_graft anywhere_positions hat.tree hq hparent hempty hlink (hat.frames.apart g hat.mem) hblank
  rw [heightOffset_path hd] at hgraft htree
  exact ⟨hgraft, htree⟩

theorem tableAt_new : tableAt (grafted vm addr flags h g rest stop) addr (d + 1) = some g := by
  have hd := hat.depth
  exact (hat.node_grafted.1 _ _ (anywhere_path addr (by omega))).trans (if_pos ⟨rfl, rfl⟩)

/-- A table that was there is still there. -/
theorem tableAt_kept {d' f : Nat} (hd' : d' ≤ 3) (hf : tableAt vm a d' = some f) :
    tableAt (grafted vm addr flags h g rest stop) a d' = some f := by
  have hd := hat.depth
  refine (hat.node_grafted.1 _ _ (anywhere_path a hd')).trans ?_
  rw [if_neg]
  · exact hf
  · -- At the position of the new table there was none.
    rintro ⟨rfl, hpath⟩
    have hnone : tableAt vm addr (d + 1) = none := by
      rw [tableAt_succ hd, hat.table]
      exact tableBehind_missing hat.missing
    have hsame : tableAt vm a (d + 1) = tableAt vm addr (d + 1) := by
      unfold tableAt
      rw [hpath]
    rw [hsame, hnone] at hf
    cases hf

theorem framesApart : FramesApart (grafted vm addr flags h g rest stop) := by
  obtain ⟨hg, hrest⟩ := List.nodup_cons.mp (hat.queue ▸ hat.frames.nodup)
  have hmem : ∀ f ∈ rest, f ∈ vm.frames := fun f hf => hat.queue ▸ List.mem_cons_of_mem _ hf
  refine ⟨hrest, fun f hf => hat.frames.aligned f (hmem f hf), fun f hf d' p hp hnode => ?_⟩
  rw [hat.node_grafted.1 d' p hp] at hnode
  by_cases hnew : d' = d + 1 ∧ p = path (addr % 2 ^ 48) (d + 1)
  · rw [if_pos hnew] at hnode
    exact hg (Option.some.inj hnode ▸ hf)
  · rw [if_neg hnew] at hnode
    exact hat.frames.apart f (hmem f hf) d' p hp hnode

/-- The entries of the tables that were there stay, but for the one that was missing. -/
theorem entry_kept {f i : Nat} (hfg : f ≠ g) (hi : f = stop → i ≠ heightOffset addr (h + 1)) :
    (grafted vm addr flags h g rest stop).tables f i = vm.tables f i := by
  by_cases hfs : f = stop
  · subst hfs
    exact graft_of_ne_index hfg (hi rfl)
  · show graft vm.tables g _ stop _ _ f i = _
    rw [graft_of_ne hfs hfg]

theorem table_ne {d' f : Nat} (hd' : d' ≤ 3) (hf : tableAt vm a d' = some f) : f ≠ g := by
  rintro rfl
  exact hat.frames.apart f hat.mem d' _ (anywhere_path a hd') hf

/-- **A new empty table maps nothing**: an address that comes to the missing entry had no translation and has none. -/
theorem translate_grafted (a : Nat) : translate (grafted vm addr flags h g rest stop) a = translate vm a := by
  have hd := hat.depth
  have hwalk : ∀ h' d' table r, d' + h' = 3 → tableAt vm a d' = some table →
      translateBelow (grafted vm addr flags h g rest stop).tables a h' table r =
        translateBelow vm.tables a h' table r := by
    intro h'
    induction h' with
    | zero =>
        intro d' table r hd' hf
        refine translateBelow_congr (hat.entry_kept (hat.table_ne (by omega) hf) (fun he => ?_)) (fun k hk => by omega)
        -- `stop` is no page table.
        subst he
        obtain ⟨hdd, -⟩ := hat.tree _ _ _ _ _ (anywhere_path a (by omega)) (anywhere_path addr (by omega)) hf hat.table
        omega
    | succ h' ih =>
        intro d' table r hd' hf
        by_cases hhere : table = stop ∧ heightOffset a (h' + 1) = heightOffset addr (h + 1)
        · obtain ⟨rfl, hi⟩ := hhere
          obtain ⟨rfl, -⟩ :=
            hat.tree _ _ _ _ _ (anywhere_path a (by omega)) (anywhere_path addr (by omega)) hf hat.table
          obtain rfl : h' = h := by omega
          obtain ⟨hpres, -, haddr⟩ := mapPhysPage_link flags (hat.frames.aligned g hat.mem)
            (vm.tables table (heightOffset addr (h' + 1)))
          have hentry : (grafted vm addr flags h' g rest table).tables table (heightOffset a (h' + 1)) =
              mapPhysPage (vm.tables table (heightOffset addr (h' + 1))) g flags := by
            rw [hi]
            exact graft_self
          have hold : translateBelow vm.tables a (h' + 1) table r = none :=
            translateBelow_missing (by rw [hi]; exact hat.missing)
          rw [hold, translateBelow_link (hentry ▸ hpres) (hentry ▸ (Bool.false_or _).trans hat.small), hentry, haddr]
          refine translateBelow_missing ?_
          show (graft vm.tables g (newTable flags 0 1) table _ _ g _).present = false
          rw [graft_new hat.stop_ne]
          exact present_newTable flags 0 1 _
        · refine translateBelow_congr (hat.entry_kept (hat.table_ne (by omega) hf) (fun he hi => hhere ⟨he, ?_⟩))
            (fun k hk hp hh => ?_)
          · exact hi
          · obtain rfl : k = h' := by omega
            refine ih (d' + 1) _ _ (by omega) ?_
            rw [tableAt_succ hd', hf]
            exact tableBehind_link hp hh
  exact hwalk 3 0 vm.pml4t .all rfl tableAt_zero

/-- The present entries on the way to an address are those there were and the new one. -/
theorem onPath_grafted {P : PtEntry → Prop} (hnew : ∀ x g, PageAddr g → P (mapPhysPage x g flags))
    (h' : OnPath vm a P) : OnPath (grafted vm addr flags h g rest stop) a P := by
  intro k hk hk3 x hx hp
  obtain ⟨f, hf, rfl⟩ := exists_of_entryAt hx
  have hnode := hat.node_grafted.1 (3 - k) _ (anywhere_path a (by omega))
  by_cases hthere : 3 - k = d + 1 ∧ path (a % 2 ^ 48) (3 - k) = path (addr % 2 ^ 48) (d + 1)
  · rw [if_pos hthere] at hnode
    obtain rfl := Option.some.inj (hf.symm.trans hnode)
    have hcontent : (grafted vm addr flags h f rest stop).tables f = newTable flags 0 1 := graft_new hat.stop_ne
    rw [hcontent, present_newTable] at hp
    cases hp
  · rw [if_neg hthere] at hnode
    have hold : tableAt vm a (3 - k) = some f := hnode.symm.trans hf
    by_cases hhere : f = stop ∧ heightOffset a k = heightOffset addr (h + 1)
    · obtain ⟨rfl, hi⟩ := hhere
      have hentry : (grafted vm addr flags h g rest f).tables f (heightOffset a k) =
          mapPhysPage (vm.tables f (heightOffset addr (h + 1))) g flags := by
        rw [hi]
        exact graft_self
      rw [hentry]
      exact hnew _ g (hat.frames.aligned g hat.mem)
    · rw [hat.entry_kept (hat.table_ne (by omega) hold) (fun he hi => hhere ⟨he, hi⟩)] at hp ⊢
      exact h' k hk hk3 _ (entryAt_of_table (by omega) hold) hp

theorem grows : Grows vm (grafted vm addr flags h g rest stop) flags 1 where
  tree := hat.node_grafted.2
  frames := hat.framesApart
  count := by
    rw [hat.queue]
    exact Nat.le_refl _
  translate := hat.translate_grafted
  tables := fun _ _ _ hd' hf => hat.tableAt_kept hd' hf
  onPath := fun _ _ hnew h' => hat.onPath_grafted hnew h'
  zones := rfl
  big := fun hbig => absurd hbig (by rw [hat.small]; decide)

end AtMissing

end Graft

theorem Grows.trans {vm'' : VmSpace} {m n : Nat} (h : Grows vm vm' flags m) (h' : Grows vm' vm'' flags n) :
    Grows vm vm'' flags (m + n) where
  tree := h'.tree
  frames := h'.frames
  count := by
    have h1 := h.count
    have h2 := h'.count
    omega
  translate := fun a => (h'.translate a).trans (h.translate a)
  tables := fun a d f hd hf => h'.tables a d f hd (h.tables a d f hd hf)
  onPath := fun a P hP hold => h'.onPath a P hP (h.onPath a P hP hold)
  zones := h'.zones.trans h.zones
  big := fun hbig => (h'.big hbig).trans (h.big hbig)

theorem Grows.mono {m n : Nat} (h : Grows vm vm' flags m) (hmn : m ≤ n) : Grows vm vm' flags n :=
  ⟨h.tree, h.frames, h.count.trans (Nat.add_le_add_left hmn _), h.translate, h.tables, h.onPath, h.zones, h.big⟩

/-- The loop that makes the missing tables only lets the tree grow. -/
theorem allocateMissing_grows (hsmall : flags.hugepage = false) :
    ∀ h d table (vm : VmSpace), d + h = 3 → TableTree vm → FramesApart vm → tableAt vm addr d = some table →
      (0 < h → (vm.tables table (heightOffset addr h)).present = false) → h ≤ vm.frames.length →
      ∃ t vm', allocateMissing addr flags h table vm = .ok (t, vm') ∧ Grows vm vm' flags h ∧
        tableAt vm' addr 3 = some t := by
  intro h
  induction h with
  | zero =>
      intro d table vm hd htree hframes hf _ _
      obtain rfl : d = 3 := by omega
      exact ⟨table, vm, rfl, .refl htree hframes 0, hf⟩
  | succ h ih =>
      intro d table vm hd htree hframes hf hmissing hlen
      cases hqueue : vm.frames with
      | nil =>
          rw [hqueue] at hlen
          exact absurd hlen (Nat.not_succ_le_zero h)
      | cons g rest =>
          rw [hqueue] at hlen
          have hat : AtMissing vm addr flags d h g rest table :=
            ⟨htree, hframes, hd, hf, hmissing (Nat.succ_pos h), hqueue, hsmall⟩
          have hblank : 0 < h →
              ((grafted vm addr flags h g rest table).tables g (heightOffset addr h)).present = false := by
            intro _
            show (graft vm.tables g (newTable flags 0 1) table _ _ g _).present = false
            rw [graft_new hat.stop_ne]
            exact present_newTable flags 0 1 _
          obtain ⟨t, vm', hrun, hgrows, ht⟩ := ih (d + 1) g (grafted vm addr flags h g rest table) (by omega)
            hat.grows.tree hat.grows.frames hat.tableAt_new hblank (Nat.le_of_succ_le_succ hlen)
          refine ⟨t, vm', ?_, (hat.grows.trans hgrows).mono (Nat.le_of_eq (Nat.add_comm 1 h)), ht⟩
          unfold allocateMissing
          rw [allocPageTables_one flags hqueue, ok_bind]
          have hentry : (vm.withTable g rest (newTable flags 0 1)).tables table (heightOffset addr (h + 1)) =
              vm.tables table (heightOffset addr (h + 1)) := by
            show Function.update vm.tables g _ table _ = _
            rw [Function.update_of_ne hat.stop_ne]
          show allocateMissing addr flags h g ((vm.withTable g rest (newTable flags 0 1)).store table _
            (mapPhysPage ((vm.withTable g rest (newTable flags 0 1)).tables table _) g flags)) = _
          rw [hentry]
          exact hrun

/-- **`__find_or_allocate_pt` changes no translation**, whatever it makes, and finds or makes the page table if the
    present entries on the way allow it. Page tables below a huge entry would not be tables, so with `VM_HUGEPAGE` it
    must have nothing to make. -/
theorem findOrAllocatePt_grows (flags : VmFlags) (htree : TableTree vm) (hframes : FramesApart vm)
    (hhuge : NoHuge vm addr) (hsmall : flags.hugepage = true → tableAt vm addr 3 ≠ none)
    (hlen : 3 ≤ vm.frames.length) :
    ∃ pt n vm', findOrAllocatePt vm addr flags = .ok (pt, n, vm') ∧ Grows vm vm' flags 3 ∧
      (OnPath vm addr (Grants flags) → ∃ t, pt = some t ∧ tableAt vm' addr 3 = some t) := by
  by_cases hgrant : OnPath vm addr (Grants flags)
  · rcases traverse_granted hhuge hgrant 3 0 vm.pml4t rfl tableAt_zero with
      ⟨t, ht, hwalk⟩ | ⟨d', height, stop, hd', hlt, hstop, hmissing, hwalk⟩
    · refine ⟨some t, 0, vm, ?_, .refl htree hframes 3, fun _ => ⟨t, rfl, ht⟩⟩
      unfold findOrAllocatePt
      rw [hwalk]
    · have hnone : tableAt vm addr (d' + 1) = none := by
        rw [tableAt_succ hd', hstop]
        exact tableBehind_missing hmissing
      have hflags : flags.hugepage = false := by
        by_contra hbig
        refine tableAt_above (d := d' + 1) (k := height) (by omega) ?_ hnone
        rw [show d' + 1 + height = 3 by omega]
        exact hsmall (Bool.not_eq_false _ ▸ hbig)
      obtain ⟨t, vm', hrun, hgrows, ht⟩ := allocateMissing_grows hflags (height + 1) d' stop vm hd' htree hframes hstop
        (fun _ => hmissing) (by omega)
      refine ⟨some t, height + 1, vm', ?_, hgrows.mono (by omega), fun _ => ⟨t, rfl, ht⟩⟩
      unfold findOrAllocatePt
      rw [hwalk]
      show allocateMissing addr flags (height + 1) stop vm >>= _ = _
      rw [hrun, ok_bind]
  · have hdeny : Denied vm addr flags := by
      by_contra hnot
      exact hgrant (fun h h1 h3 e he hp => by_contra (fun hg => hnot ⟨h, e, h1, h3, he, hp, hg⟩))
    exact ⟨none, 0, vm, findOrAllocatePt_denied hdeny, .refl htree hframes 3, fun h => absurd h hgrant⟩

/-! ## The range of `vmzone_extend` -/

/-- Page `i` from an address on. -/
abbrev pageFrom (c i : Nat) : Nat := add64 c (i * pageSize)

/-- What `vmzone_extend` needs of the tables on the way to its pages and to the one behind them: no huge page is met,
    the entries there are allow what is asked for, and with `VM_HUGEPAGE` there is no table to make. -/
structure RangeReady (vm : VmSpace) (flags : VmFlags) (n c : Nat) : Prop where
  paths : ∀ i, i ≤ n → NoHuge vm (pageFrom c i)
  grants : ∀ i, i < n → OnPath vm (pageFrom c i) (GrantsAll flags)
  tables : flags.hugepage = true → ∀ i, i ≤ n → tableAt vm (pageFrom c i) 3 ≠ none

/-- The pages from `c` on are mapped to the frames from `phys` on, and no other page is. -/
structure MapsRange (vm vm' : VmSpace) (flags : VmFlags) (n phys c : Nat) : Prop where
  pages : ∀ i, i < n → translate vm' (pageFrom c i) = some (phys + i * pageSize, flags.rights)
  others : ∀ a, (∀ i, i < n → pageNumber a ≠ pageNumber (pageFrom c i)) → translate vm' a = translate vm a
  zones : vm'.zones = vm.zones

section Range

variable {c n left pages phys t : Nat}

theorem pageFrom_zero (hc : c < 2 ^ 64) : pageFrom c 0 = c := by
  unfold pageFrom add64
  rw [Nat.zero_mul, Nat.add_zero]
  exact Nat.mod_eq_of_lt hc

theorem pageFrom_succ (c i : Nat) : pageFrom (pageFrom c 1) i = pageFrom c (i + 1) := by
  show (((c + 1 * 4096) % 2 ^ 64) + i * 4096) % 2 ^ 64 = (c + (i + 1) * 4096) % 2 ^ 64
  omega

theorem pageNumber_pageFrom (c i : Nat) : pageNumber (pageFrom c i) = (c / 4096 + i) % 2 ^ 36 := by
  show (c + i * 4096) % 2 ^ 64 % 2 ^ 48 / 4096 = _
  omega

theorem ptOffset_next (c : Nat) : ptOffset (pageFrom c 1) = if ptOffset c + 1 ≥ 512 then 0 else ptOffset c + 1 := by
  rw [ptOffset_eq, ptOffset_eq]
  show (c + 1 * 4096) % 2 ^ 64 / 4096 % 512 = _
  by_cases h : c / 4096 % 512 + 1 ≥ 512
  · rw [if_pos h]
    omega
  · rw [if_neg h]
    omega

/-- Within a page table the next page has the same one. -/
theorem tableAt_next (h : ptOffset c + 1 < 512) : tableAt vm (pageFrom c 1) 3 = tableAt vm c 3 := by
  rw [ptOffset_eq] at h
  have hpath : path (pageFrom c 1 % 2 ^ 48) 3 = path (c % 2 ^ 48) 3 := by
    rw [path_three, path_three]
    show (c + 1 * 4096) % 2 ^ 64 % 2 ^ 48 / 4096 / 512 = _
    omega
  unfold tableAt
  rw [hpath]

theorem RangeReady.next (h : RangeReady vm flags (n + 1) c) : RangeReady vm flags n (pageFrom c 1) where
  paths := fun i hi => by
    rw [pageFrom_succ]
    exact h.paths (i + 1) (by omega)
  grants := fun i hi => by
    rw [pageFrom_succ]
    exact h.grants (i + 1) (by omega)
  tables := fun hf i hi => by
    rw [pageFrom_succ]
    exact h.tables hf (i + 1) (by omega)

theorem RangeReady.store {e : PtEntry} {i : Nat} (h : RangeReady vm flags n c) (htree : TableTree vm)
    (ht : tableAt vm addr 3 = some t) : RangeReady (vm.store t i e) flags n c where
  paths := fun j hj => onPath_store htree ht (h.paths j hj)
  grants := fun j hj => onPath_store htree ht (h.grants j hj)
  tables := fun hf j hj => by
    rw [tableAt_store htree ht (Nat.le_refl 3)]
    exact h.tables hf j hj

theorem RangeReady.grows {m : Nat} (h : RangeReady vm flags n c) (hg : Grows vm vm' flags m) :
    RangeReady vm' flags n c := by
  cases hf : flags.hugepage with
  | true => exact hg.big hf ▸ h
  | false =>
      have hnew : ∀ x g, PageAddr g → GrantsAll flags (mapPhysPage x g flags) := by
        intro x g hx
        refine ⟨(mapPhysPage_link flags hx x).2.1, fun hexec => ?_⟩
        show (false || !flags.allowExec) = false
        rw [hexec]
        rfl
      exact ⟨fun i hi => hg.onPath _ _ (fun _ _ _ => (Bool.false_or _).trans hf) (h.paths i hi),
        fun i hi => hg.onPath _ _ hnew (h.grants i hi), fun hbig => absurd hbig (by rw [hf]; decide)⟩

/-- **The loop of `vmzone_extend` maps its pages**, in one page table or across a boundary. The induction is on the
    pages left; the page of a turn is not written again, as the later ones have other numbers. -/
theorem extendLoop_maps (pages : Nat) (flags : VmFlags) :
    ∀ left (vm : VmSpace) t phys c, left ≤ pages → left ≤ 2 ^ 20 → TableTree vm → FramesApart vm →
      tableAt vm c 3 = some t → c < 2 ^ 64 → 3 * ((ptOffset c + left) / 512) ≤ vm.frames.length →
      RangeReady vm flags left c → phys % 4096 = 0 → phys + left * 4096 ≤ 2 ^ 52 →
      ∃ vm', extendLoop pages flags left vm (some t) (ptOffset c) phys c = .ok (pageFrom c left, vm') ∧
        MapsRange vm vm' flags left phys c := by
  intro left
  induction left with
  | zero =>
      intro vm t phys c _ _ _ _ _ hc _ _ _ _
      refine ⟨vm, ?_, fun i hi => absurd hi (Nat.not_lt_zero i), fun _ _ => rfl, rfl⟩
      rw [pageFrom_zero hc]
      rfl
  | succ left ih =>
      intro vm t phys c hle hsmall htree hframes ht hc hlen hready hphys hfit
      have hnow := hready.grants 0 (Nat.succ_pos left)
      rw [pageFrom_zero hc] at hnow
      obtain ⟨vm1, hvm1⟩ : ∃ vm1, vm1 = vm.store t (ptOffset c)
        (mapPage (vm.tables t (ptOffset c)) (pages - (left + 1)) pages flags phys) := ⟨_, rfl⟩
      have htree1 : TableTree vm1 := hvm1 ▸ tableTree_store htree ht
      have hframes1 : FramesApart vm1 := hvm1 ▸ framesApart_store htree hframes ht
      have hready1 : RangeReady vm1 flags left (pageFrom c 1) := (hvm1 ▸ hready.store htree ht).next
      have hstored : translate vm1 c = some (phys, flags.rights) :=
        hvm1 ▸ translate_stored htree hnow ht ⟨hphys, by omega⟩
      have hothers1 : ∀ a, pageNumber a ≠ pageNumber c → translate vm1 a = translate vm a :=
        fun a ha => hvm1 ▸ translate_store htree ht ha
      have hc1 : pageFrom c 1 < 2 ^ 64 := add64_lt _ _
      -- The page table of the next turn: the same, or the one that is looked up at the boundary.
      obtain ⟨vm2, pt', levels, hgrows, hpt', hroom, hnext⟩ : ∃ vm2 pt' levels, Grows vm1 vm2 flags levels ∧
          (0 < left → ∃ t', pt' = some t' ∧ tableAt vm2 (pageFrom c 1) 3 = some t') ∧
          3 * ((ptOffset (pageFrom c 1) + left) / 512) ≤ vm2.frames.length ∧
          extendLoop pages flags (left + 1) vm (some t) (ptOffset c) phys c =
            extendLoop pages flags left vm2 pt' (ptOffset (pageFrom c 1)) (add64 phys 4096) (pageFrom c 1) := by
        rw [extendLoop_succ, ← hvm1, ptOffset_next]
        by_cases hcross : ptOffset c + 1 ≥ 512
        · rw [if_pos hcross, if_pos hcross]
          obtain ⟨pt', k, vm2, hfind, hgrows, hpt'⟩ := findOrAllocatePt_grows flags htree1 hframes1
            (pageFrom_zero hc1 ▸ hready1.paths 0 (Nat.zero_le left))
            (fun hbig => pageFrom_zero hc1 ▸ hready1.tables hbig 0 (Nat.zero_le left)) (by
              have hsame : vm1.frames = vm.frames := by rw [hvm1]; rfl
              rw [hsame]
              omega)
          refine ⟨vm2, pt', 3, hgrows, fun hpos => hpt' ?_, ?_, ?_⟩
          · have hall := hready1.grants 0 hpos
            rw [pageFrom_zero hc1] at hall
            exact fun h h1 h3 e he hp => (hall h h1 h3 e he hp).1
          · have hcount := hgrows.count
            have hsame : vm1.frames = vm.frames := by rw [hvm1]; rfl
            rw [hsame] at hcount
            omega
          · show findOrAllocatePt vm1 (pageFrom c 1) flags >>= _ = _
            rw [hfind]
            rfl
        · rw [if_neg hcross, if_neg hcross]
          refine ⟨vm1, some t, 0, .refl htree1 hframes1 0, fun _ => ⟨t, rfl, ?_⟩, ?_, rfl⟩
          · rw [tableAt_next (by omega), hvm1, tableAt_store htree ht (Nat.le_refl 3)]
            exact ht
          · have hsame : vm1.frames = vm.frames := by rw [hvm1]; rfl
            rw [hsame]
            omega
      have hphys1 : add64 phys 4096 = phys + 4096 := add64_of_lt (by omega)
      rw [hphys1] at hnext
      have hready2 := hready1.grows hgrows
      obtain ⟨vm', hrun, hmaps⟩ : ∃ vm', extendLoop pages flags left vm2 pt' (ptOffset (pageFrom c 1)) (phys + 4096)
            (pageFrom c 1) = .ok (pageFrom (pageFrom c 1) left, vm') ∧
          MapsRange vm2 vm' flags left (phys + 4096) (pageFrom c 1) := by
        cases left with
        | zero =>
            refine ⟨vm2, ?_, fun i hi => absurd hi (Nat.not_lt_zero i), fun _ _ => rfl, rfl⟩
            rw [pageFrom_zero hc1]
            rfl
        | succ left =>
            obtain ⟨t', rfl, ht'⟩ := hpt' (Nat.succ_pos left)
            exact ih vm2 t' (phys + 4096) (pageFrom c 1) (by omega) (by omega) hgrows.tree hgrows.frames ht' hc1 hroom
              hready2 (by omega) (by omega)
      have hfar : ∀ i, i < left → pageNumber c ≠ pageNumber (pageFrom (pageFrom c 1) i) := by
        intro i hi
        rw [pageFrom_succ, pageNumber_pageFrom]
        show c % 2 ^ 48 / 4096 ≠ _
        omega
      refine ⟨vm', ?_, fun i hi => ?_, fun a ha => ?_, ?_⟩
      · rw [hnext, hrun, pageFrom_succ]
      · cases i with
        | zero =>
            rw [pageFrom_zero hc, hmaps.others c hfar, hgrows.translate, hstored, Nat.zero_mul, Nat.add_zero]
        | succ i =>
            have hi' := hmaps.pages i (by omega)
            rw [pageFrom_succ] at hi'
            have hsum : phys + 4096 + i * pageSize = phys + (i + 1) * pageSize := by
              show phys + 4096 + i * 4096 = phys + (i + 1) * 4096
              omega
            rw [hi', hsum]
      · have hzero := ha 0 (Nat.succ_pos left)
        rw [pageFrom_zero hc] at hzero
        rw [hmaps.others a (fun i hi => ?_), hgrows.translate, hothers1 a hzero]
        rw [pageFrom_succ]
        exact ha (i + 1) (by omega)
      · rw [hmaps.zones, hgrows.zones, hvm1]
        rfl

/-- What `vmzone_extend` is for: it returns the old cursor and moves it past the pages, maps each page to its page of
    the block with the rights of the flags, and changes the translation of no other page. -/
structure ExtendsExactly (vm vm' : VmSpace) (pages : Nat) (flags : VmFlags) (zone : Zone) (physBlock : Nat) : Prop where
  result : vmzoneExtend vm pages flags zone physBlock = .ok (some (vm.zones zone).cursorAddr, vm')
  cursor : vm'.zones = Function.update vm.zones zone
    { vm.zones zone with cursorAddr := pageFrom (vm.zones zone).cursorAddr pages }
  mapped : ∀ i, i < pages →
    translate vm' (pageFrom (vm.zones zone).cursorAddr i) = some (physBlock + i * pageSize, flags.rights)
  others : ∀ a, (∀ i, i < pages → pageNumber a ≠ pageNumber (pageFrom (vm.zones zone).cursorAddr i)) →
    translate vm' a = translate vm a

end Range

end

/-- The tables on the way to the heap, where the directory maps its first 2MB as a huge page. -/
def hugeHeapSpace : VmSpace :=
  { bareSpace with
    tables := fun table i =>
      if table = 0x1000 ∧ i = 511 then { present := true, writable := true, addr := 0x100000 }
      else if table = 0x100000 ∧ i = 0 then { present := true, writable := true, addr := 0x101000 }
      else if table = 0x101000 ∧ i = 0 then { present := true, writable := true, hugepage := true, addr := 0x400000 }
      else .zero }

end LearningOS.Paging
