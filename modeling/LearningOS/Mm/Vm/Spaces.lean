import LearningOS.Mm.Vm.DirectMap

/-!
# `Mm.Vm.Spaces` — address spaces besides the first one

`vmspace_init` takes a top table and caches the two tables below it that all zones lie in. A second address space so
gets two entries and nothing else. `Spaces` is a machine that makes address spaces, switches between them and calls
the zones in whichever it is in.

* `vmspaceInit_second` — what `vmspace_init` does for a further top table;
* **`spaces_share_kernel`** — in every run all address spaces translate the addresses of the kernel alike, and the
  zones keep to themselves whichever address space is active.
-/

namespace LearningOS.Paging

open Word Run Radix Boot

/-! ## The machine -/

/-- The machine and the top tables there are. The active one is `pml4t`. -/
structure Spaces where
  sys : VmSys
  roots : List Nat

/-- `create` is `vmspace_init` for a top table with the given entries, `activate` loads `cr3`. -/
inductive SpaceAct where
  | call (a : VmAct)
  | create (pml4t : Nat) (content : Nat → PtEntry) (flags : VmFlags)
  | activate (pml4t : Nat)

/-- The address space of another top table. -/
def VmSpace.withRoot (vm : VmSpace) (root : Nat) : VmSpace := { vm with pml4t := root }

/-- A new top table. -/
def VmSpace.withTop (vm : VmSpace) (root : Nat) (content : Nat → PtEntry) : VmSpace :=
  { vm with tables := Function.update vm.tables root content, pageTables := root :: vm.pageTables }

/-- The system with another address space. -/
def VmSys.withVm (s : VmSys) (vm : VmSpace) : VmSys := { s with vm := vm }

def stepSpaces (m : Spaces) : SpaceAct → Except VmFault Spaces
  | .call a => stepAny m.sys a >>= fun s => .ok { m with sys := s }
  | .create root content flags =>
    vmspaceInit ((m.sys.vm.withTop root content).withRoot root) flags >>= fun vm =>
      .ok ⟨m.sys.withVm (vm.withRoot m.sys.vm.pml4t), root :: m.roots⟩
  | .activate root => .ok { m with sys := m.sys.withVm (m.sys.vm.withRoot root) }

/-- Calls as the zones allow them; a new top table is no table yet, nor one that is about to be made, and has nothing in the entries of the kernel; the
    top table that is loaded is that of an address space. -/
def SpaceCall (m : Spaces) : SpaceAct → Prop
  | .call a => AnyCall m.sys a ∧ HasRoom m.sys a
  | .create root content _ =>
    root ∉ m.sys.vm.pageTables ∧ root ∉ m.sys.vm.frames ∧ content 510 = .zero ∧ content 511 = .zero
  | .activate root => root ∈ m.roots

/-- The machine after `vm_init`. -/
def Spaces.boot (vm : VmSpace) : Spaces := ⟨.boot vm, [vm.pml4t]⟩

/-! ## Two roots -/

section Roots

variable {vm : VmSpace} {root : Nat}

/-- The top table `root` has the entries of the kernel that `vm` has, and is no table below. -/
structure Twin (vm : VmSpace) (root : Nat) : Prop where
  entries : ∀ i, 510 ≤ i → i < 512 → vm.tables root i = vm.tables vm.pml4t i
  above : ∀ d p, Own (d + 1) p → nodeOf vm (d + 1) p ≠ some root
  made : root ∈ vm.pageTables

theorem own_one_mod {p : Nat} (hp : Own 1 p) : 510 ≤ p % 512 ∧ p % 512 < 512 := by
  have hp : 0x1FFFFFE ≤ p ∧ p ≤ 0x1FFFFFF := hp
  omega

namespace Twin

variable (h : Twin vm root)
include h

theorem nodeOf_eq {d p : Nat} (hp : Own (d + 1) p) : nodeOf (vm.withRoot root) (d + 1) p = nodeOf vm (d + 1) p := by
  refine node_root own_positions (fun p hp => ?_) d p hp
  obtain ⟨hlo, hhi⟩ := own_one_mod hp
  exact congrArg childOf (h.entries _ hlo hhi)

theorem treeOk (hok : TreeOk vm) : TreeOk (vm.withRoot root) where
  separate := by
    refine separate_root own_positions hok.separate (fun p hp => ?_) h.above
    obtain ⟨hlo, hhi⟩ := own_one_mod hp
    exact congrArg childOf (h.entries _ hlo hhi)
  made := by
    rintro (_ | d) p f hp hf
    · cases hf
      exact h.made
    · exact hok.made (d + 1) p f hp ((h.nodeOf_eq hp).symm.trans hf)

theorem leafTable_eq {t : Nat} (ht : Own 3 t) : leafTable (vm.withRoot root) t = leafTable vm t := h.nodeOf_eq ht

/-- The page-table entries are the same. -/
theorem leaf_eq {v : Nat} (hv : OwnPage v) : leaf (vm.withRoot root) v = leaf vm v := by
  unfold leaf
  rw [h.leafTable_eq hv]
  rfl

theorem nextFree_eq {v : Nat} (hv : OwnPage v) : nextFree (vm.withRoot root) v = nextFree vm v := by
  cases hf : leafTable vm (v / 512) with
  | none => rw [nextFree_of_missing hf, nextFree_of_missing ((h.leafTable_eq hv).trans hf)]
  | some f =>
      rw [nextFree_of_table hf, nextFree_of_table ((h.leafTable_eq hv).trans hf)]
      rfl

/-- The addresses of the kernel are translated alike. -/
theorem translate_eq {addr : Nat} (hpage : normalPage ≤ pageNumber addr) :
    translate (vm.withRoot root) addr = translate vm addr := by
  have hoff : 510 ≤ heightOffset addr 3 ∧ heightOffset addr 3 < 512 := by
    have hpage : 0xFF0000000 ≤ pageNumber addr := hpage
    have hlt := pageNumber_lt addr
    rw [(heightOffset_page addr).1]
    omega
  have he := h.entries _ hoff.1 hoff.2
  show translateBelow vm.tables addr 3 root .all = translateBelow vm.tables addr 3 vm.pml4t .all
  cases hp : (vm.tables vm.pml4t (heightOffset addr 3)).present with
  | false => rw [translateBelow_missing hp, translateBelow_missing (he.symm ▸ hp)]
  | true =>
      cases hh : (vm.tables vm.pml4t (heightOffset addr 3)).hugepage with
      | false =>
          have hp' : (vm.tables root (heightOffset addr 3)).present = true := he.symm ▸ hp
          have hh' : (vm.tables root (heightOffset addr 3)).hugepage = false := he.symm ▸ hh
          rw [translateBelow_link hp hh, translateBelow_link hp' hh', he]
      | true =>
          unfold translateBelow
          simp [he, hp, hh]

/-- The state of the zones does not depend on the address space they are called in. -/
theorem zonesInv {s : VmSys} (hvm : s.vm = vm) (hz : ZonesInv s) : ZonesInv (s.withVm (vm.withRoot root)) := by
  subst hvm
  refine ⟨h.treeOk hz.ok, ⟨hz.fresh.nodup, hz.fresh.aligned, hz.fresh.unused⟩, fun z hblock => ?_, hz.heap, hz.shared,
    fun z => ?_, ?_⟩
  · refine (hz.blocks z hblock).frame rfl (fun v hv _ => h.nextFree_eq hv.own) (fun v hv ht => ?_)
    show leafTable (s.vm.withRoot root) _ ≠ none
    rw [h.leafTable_eq hv.own]
    exact ht
  · show leafTable (s.vm.withRoot root) _ ≠ none
    rw [h.leafTable_eq (own_tableOf z)]
    exact hz.first z
  · show leafTable (s.vm.withRoot root) _ = none
    rw [h.leafTable_eq before_inZone.own]
    exact hz.before

end Twin

end Roots

/-! ## `vmspace_init` for another top table -/

section Second

theorem or_create_eq {g : Nat} (hg : PageAddr g) :
    PtEntry.zero.or (vmPtEntryCreate g { allowExec := true, allowWrite := true }) = linkTo g := by
  unfold PtEntry.or vmPtEntryCreate linkTo PtEntry.zero
  simp [hg.and_addrMask]

/-- A table that is cached and not linked yet. -/
theorem initPdpt_cached {vm : VmSpace} {flags : VmFlags} {offset pdpt : Nat} (hg : PageAddr pdpt)
    (hzero : vm.tables vm.pml4t offset = .zero) :
    initPdpt vm offset (some pdpt) flags = .ok (pdpt, vm.store vm.pml4t offset (linkTo pdpt)) := by
  unfold initPdpt
  simp only [hzero]
  rw [or_create_eq hg]
  rfl

theorem initZones_initialized {vm : VmSpace} (flags : VmFlags) (h : ∀ z, (vm.zones z).flags.initialized = true) :
    ∀ zones, initZones flags zones vm = .ok vm := by
  intro zones
  induction zones with
  | nil => rfl
  | cons z zones ih =>
      have hzone : initZone flags vm z = .ok vm := by
        unfold initZone
        dsimp only
        rw [if_pos (h z)]
      show initZone flags vm z >>= _ = _
      rw [hzone]
      exact ih

/-- **`vmspace_init` gives a further top table two entries** and allocates nothing. -/
theorem vmspaceInit_second {vm : VmSpace} (flags : VmFlags) {sensitive normal : Nat}
    (hsensitive : vm.sensitiveMemPdpt = some sensitive) (hnormal : vm.normalMemPdpt = some normal)
    (hs : PageAddr sensitive) (hn : PageAddr normal) (hroot : sensitive ≠ vm.pml4t)
    (hkernel : (vm.tables sensitive 511).present = true) (h510 : vm.tables vm.pml4t 510 = .zero)
    (h511 : vm.tables vm.pml4t 511 = .zero) (hinit : ∀ z, (vm.zones z).flags.initialized = true) :
    vmspaceInit vm flags =
      .ok ((vm.store vm.pml4t 511 (linkTo sensitive)).store vm.pml4t 510 (linkTo normal)) := by
  have hoff1 : heightOffset kernelSensitiveMem 3 = 511 := by decide
  have hoff2 : heightOffset kernelNormalMem 3 = 510 := by decide
  have hcached : ∀ w : VmSpace, w.sensitiveMemPdpt = some sensitive → { w with sensitiveMemPdpt := some sensitive } = w := by
    rintro ⟨⟩ h
    cases h
    rfl
  have hcached' : ∀ w : VmSpace, w.normalMemPdpt = some normal → { w with normalMemPdpt := some normal } = w := by
    rintro ⟨⟩ h
    cases h
    rfl
  have hzero : (vm.store vm.pml4t 511 (linkTo sensitive)).tables vm.pml4t 510 = .zero :=
    (set_of_ne_index (by decide)).trans h510
  have hsecond : initPdpt (vm.store vm.pml4t 511 (linkTo sensitive)) 510 (some normal) flags =
      .ok (normal, (vm.store vm.pml4t 511 (linkTo sensitive)).store vm.pml4t 510 (linkTo normal)) :=
    initPdpt_cached hn hzero
  unfold vmspaceInit
  rw [hoff1, hoff2, hsensitive, initPdpt_cached hs h511, ok_bind]
  dsimp only
  rw [hcached (vm.store vm.pml4t 511 (linkTo sensitive)) hsensitive,
    show (vm.store vm.pml4t 511 (linkTo sensitive)).normalMemPdpt = some normal from hnormal,
    hsecond, ok_bind]
  dsimp only
  rw [hcached' ((vm.store vm.pml4t 511 (linkTo sensitive)).store vm.pml4t 510 (linkTo normal)) hnormal]
  have hlast : initKernelMapping flags sensitive
      ((vm.store vm.pml4t 511 (linkTo sensitive)).store vm.pml4t 510 (linkTo normal)) =
      .ok ((vm.store vm.pml4t 511 (linkTo sensitive)).store vm.pml4t 510 (linkTo normal)) := by
    have hsame : ((vm.store vm.pml4t 511 (linkTo sensitive)).store vm.pml4t 510 (linkTo normal)).tables sensitive 511 =
        vm.tables sensitive 511 := (set_of_ne_table hroot).trans (set_of_ne_table hroot)
    unfold initKernelMapping
    rw [hsame, if_pos hkernel]
  show initKernelMapping flags sensitive _ >>= _ = _
  rw [hlast, ok_bind, initZones_initialized]
  exact hinit

end Second

/-! ## A table beside the tree -/

section Top

variable {vm : VmSpace} {root : Nat} {content : Nat → PtEntry}

/-- The entries of a top table after `vmspace_init`. -/
def kernelTop (content : Nat → PtEntry) (sensitive normal : Nat) : Nat → PtEntry :=
  Function.update (Function.update content 511 (linkTo sensitive)) 510 (linkTo normal)

theorem withTop_stores (sensitive normal : Nat) :
    ((((vm.withTop root content).withRoot root).store root 511 (linkTo sensitive)).store root 510
      (linkTo normal)).withRoot vm.pml4t = vm.withTop root (kernelTop content sensitive normal) := by
  have htables : Radix.set (Radix.set (Function.update vm.tables root content) root 511 (linkTo sensitive)) root 510
      (linkTo normal) = Function.update vm.tables root (kernelTop content sensitive normal) := by
    unfold Radix.set kernelTop
    simp only [Function.update_self, Function.update_idem]
  unfold VmSpace.withTop VmSpace.withRoot VmSpace.store
  simp only [htables]

section Unused

variable (hok : TreeOk vm) (hroot : root ∉ vm.pageTables)
include hok hroot

theorem nodeOf_withTop {d p : Nat} (hp : Own d p) : nodeOf (vm.withTop root content) d p = nodeOf vm d p :=
  node_update_foreign content own_positions (hok.foreign hroot) d p hp

theorem treeOk_withTop : TreeOk (vm.withTop root content) where
  separate := hok.separate.congr (fun _ _ hp => nodeOf_withTop hok hroot hp)
  made := fun d p f hp hf => List.mem_cons_of_mem _ (hok.made d p f hp ((nodeOf_withTop hok hroot hp).symm.trans hf))

theorem leafTable_withTop {t : Nat} (ht : Own 3 t) : leafTable (vm.withTop root content) t = leafTable vm t :=
  nodeOf_withTop hok hroot ht

omit hok in
/-- The tables there were keep their entries. -/
theorem tables_withTop {f : Nat} (hf : f ∈ vm.pageTables) : (vm.withTop root content).tables f = vm.tables f :=
  Function.update_of_ne (fun he : f = root => hroot (he ▸ hf)) _ _

theorem nextFree_withTop {v : Nat} (hv : OwnPage v) : nextFree (vm.withTop root content) v = nextFree vm v := by
  cases hf : leafTable vm (v / 512) with
  | none => rw [nextFree_of_missing hf, nextFree_of_missing ((leafTable_withTop hok hroot hv).trans hf)]
  | some f =>
      rw [nextFree_of_table hf, nextFree_of_table ((leafTable_withTop hok hroot hv).trans hf),
        tables_withTop hroot (hok.made 3 _ f hv hf)]

theorem frozen_withTop {F : Nat → Nat → Prop} {ref : Mem Nat PtEntry} (h : Frozen F ref vm) :
    Frozen F ref (vm.withTop root content) where
  same := fun f i hf => by
    rw [tables_withTop hroot (h.made f i hf)]
    exact h.same f i hf
  made := fun f i hf => List.mem_cons_of_mem _ (h.made f i hf)
  apart := fun f i d p hf hp hnode => h.apart f i d p hf hp ((nodeOf_withTop hok hroot hp).symm.trans hnode)

omit hok in
theorem zonesInv_withTop {s : VmSys} (hvm : s.vm = vm) (hz : ZonesInv s) (hqueue : root ∉ vm.frames) :
    ZonesInv (s.withVm (vm.withTop root content)) := by
  subst hvm
  have hok := hz.ok
  refine ⟨treeOk_withTop hok hroot, ⟨hz.fresh.nodup, hz.fresh.aligned, fun f hf => ?_⟩, fun z hblock => ?_, hz.heap,
    hz.shared, fun z => ?_, ?_⟩
  · show f ∉ root :: s.vm.pageTables
    rw [List.mem_cons, not_or]
    exact ⟨fun he => hqueue (he ▸ hf), hz.fresh.unused f hf⟩
  · refine (hz.blocks z hblock).frame rfl (fun v hv _ => nextFree_withTop hok hroot hv.own) (fun v hv ht => ?_)
    show leafTable (s.vm.withTop root content) _ ≠ none
    rw [leafTable_withTop hok hroot hv.own]
    exact ht
  · show leafTable (s.vm.withTop root content) _ ≠ none
    rw [leafTable_withTop hok hroot (own_tableOf z)]
    exact hz.first z
  · show leafTable (s.vm.withTop root content) _ = none
    rw [leafTable_withTop hok hroot before_inZone.own]
    exact hz.before

end Unused

end Top

/-! ## The invariant -/

/-- The tables that are linked below every top table. -/
def kernelLinks (sensitive normal : Nat) (_f i : Nat) : PtEntry := if i = 510 then linkTo normal else linkTo sensitive

/-- The entries of the kernel in the top tables. -/
def TopEntry (roots : List Nat) (f i : Nat) : Prop := f ∈ roots ∧ 510 ≤ i ∧ i < 512

/-- What a run keeps: the zones are as `Mm.Vm.Containment` has them in the active address space, the boot tables are
    frozen, and every top table has the links of the kernel and is no table below one. -/
structure SpacesInv (base n : Nat) (pdts : List Nat) (m : Spaces) : Prop where
  zones : ZonesInv m.sys
  boot : Frozen (BootEntry base) (withPdpts base n pdts).tables m.sys.vm
  links : ∀ f i, TopEntry m.roots f i → m.sys.vm.tables f i = kernelLinks (base + 0x3000) n f i
  made : ∀ r ∈ m.roots, r ∈ m.sys.vm.pageTables
  above : ∀ r ∈ m.roots, ∀ d p, Own (d + 1) p → nodeOf m.sys.vm (d + 1) p ≠ some r
  active : m.sys.vm.pml4t ∈ m.roots
  first : base ∈ m.roots
  sensitive : m.sys.vm.sensitiveMemPdpt = some (base + 0x3000)
  normal : m.sys.vm.normalMemPdpt = some n

section Above

variable {Q : PtEntry → Prop} {vm vm' : VmSpace}

/-- A table that is known and at no position below the top one does not get to one. -/
theorem Edit.above {r : Nat} (h : Edit Q vm vm') (hok : TreeOk vm) (hmade : r ∈ vm.pageTables)
    (habove : ∀ d p, Own (d + 1) p → nodeOf vm (d + 1) p ≠ some r) :
    ∀ d p, Own (d + 1) p → nodeOf vm' (d + 1) p ≠ some r := by
  intro d p hp
  cases h with
  | store i e ht hf =>
      rw [nodeOf_store hok ht hf hp]
      exact habove d p hp
  | link rest hlink he hcontent =>
      rw [hlink.nodeOf_eq hp]
      split
      · intro he
        exact hlink.unused (Option.some.inj he ▸ hmade)
      · exact habove d p hp
  | aside zones frames calls => exact habove d p hp

theorem Edits.above {r : Nat} (h : Edits Q vm vm') (hok : TreeOk vm) (hmade : r ∈ vm.pageTables)
    (habove : ∀ d p, Own (d + 1) p → nodeOf vm (d + 1) p ≠ some r) :
    ∀ d p, Own (d + 1) p → nodeOf vm' (d + 1) p ≠ some r := by
  induction h with
  | refl => exact habove
  | tail hrun hedit ih =>
      exact hedit.above (Edits.treeOk hrun hok) ((Edits.sameRoot hrun).pageTables r hmade) ih

end Above

theorem present_kernelLinks (sensitive normal f i : Nat) : (kernelLinks sensitive normal f i).present = true := by
  unfold kernelLinks
  split <;> rfl

namespace SpacesInv

variable {base n : Nat} {pdts : List Nat} {m : Spaces} (h : SpacesInv base n pdts m)
include h

theorem twin {r : Nat} (hr : r ∈ m.roots) : Twin m.sys.vm r where
  entries := fun i hlo hhi => (h.links r i ⟨hr, hlo, hhi⟩).trans (h.links _ i ⟨h.active, hlo, hhi⟩).symm
  above := h.above r hr
  made := h.made r hr

/-- The links of the kernel are frozen. -/
theorem frozen_links : Frozen (TopEntry m.roots) (kernelLinks (base + 0x3000) n) m.sys.vm where
  same := h.links
  made := fun f _ hf => h.made f hf.1
  apart := fun f i d p hf hp hnode => by
    refine ⟨?_, fun _ _ => present_kernelLinks _ _ f i⟩
    cases d with
    | zero => decide
    | succ d => exact absurd hnode (h.above f hf.1 d p hp)

/-- A call in the active address space. -/
theorem call {a : VmAct} {s' : VmSys} (hcall : AnyCall m.sys a) (hroom : HasRoom m.sys a)
    (hstep : stepAny m.sys a = .ok s') : SpacesInv base n pdts { m with sys := s' } := by
  have hedits := edits_step h.zones hcall hroom (callLinks_any a) hstep
  have hroot := hedits.sameRoot
  refine ⟨(h.zones.step hcall hroom hstep).1, hedits.frozen h.zones.ok h.boot,
    (hedits.frozen h.zones.ok h.frozen_links).same, fun r hr => hroot.pageTables r (h.made r hr),
    fun r hr => hedits.above h.zones.ok (h.made r hr) (h.above r hr), ?_, h.first, hroot.sensitive.trans h.sensitive,
    hroot.normal.trans h.normal⟩
  show s'.vm.pml4t ∈ m.roots
  rw [hroot.pml4t]
  exact h.active

/-- Another address space becomes the active one. -/
theorem activate {r : Nat} (hr : r ∈ m.roots) :
    SpacesInv base n pdts { m with sys := m.sys.withVm (m.sys.vm.withRoot r) } := by
  have htwin := h.twin hr
  refine ⟨htwin.zonesInv rfl h.zones, ⟨h.boot.same, h.boot.made, fun f i d p hf hp hnode => ?_⟩, h.links, h.made,
    fun r' hr' d p hp => ?_, hr, h.first, h.sensitive, h.normal⟩
  · cases d with
    | zero =>
        -- The entries of the kernel in the top table are links.
        obtain rfl : r = f := Option.some.inj hnode
        refine ⟨by decide, fun hi hown => ?_⟩
        have hp : p = 0xFFFF := hp
        have hown : 0x1FFFFFE ≤ p * 512 + i ∧ p * 512 + i ≤ 0x1FFFFFF := hown
        rw [← h.boot.same r i hf, h.links r i ⟨hr, by omega, hi⟩]
        exact present_kernelLinks _ _ r i
    | succ d => exact h.boot.apart f i (d + 1) p hf hp ((htwin.nodeOf_eq hp).symm.trans hnode)
  · show nodeOf (m.sys.vm.withRoot r) (d + 1) p ≠ some r'
    rw [htwin.nodeOf_eq hp]
    exact h.above r' hr' d p hp

theorem initialized (z : Zone) : (m.sys.vm.zones z).flags.initialized = true := by
  by_cases hz : (vmzoneInit z).flags.blockAlloc = true
  · rw [(h.zones.blocks z hz).zone]
    rfl
  · obtain ⟨p, -, -, hheap⟩ := h.zones.heap
    have hshared := h.zones.shared
    cases z with
    | kernelHeap => rw [hheap]; rfl
    | userShared => rw [hshared]; rfl
    | kernelStack => exact absurd rfl hz
    | kernelSlab => exact absurd rfl hz
    | buddyMem => exact absurd rfl hz

end SpacesInv

/-! ## The runs -/

section Run

variable {base n : Nat} {pdts : List Nat} {m : Spaces}

/-- The link of the boot tables to those of the last two gigabytes. -/
theorem SpacesInv.kernel (h : SpacesInv base n pdts m) (hboot : BootFrames base n pdts) :
    base + 0x3000 ∈ m.sys.vm.pageTables ∧ (m.sys.vm.tables (base + 0x3000) 511).present = true := by
  have hentry : BootEntry base (base + 0x1000 * 3) 511 := ⟨by decide, 3, by decide, rfl, fun _ => by decide⟩
  refine ⟨h.boot.made _ 511 hentry, ?_⟩
  have hsame := h.boot.same _ 511 hentry
  rw [withPdpts_tables (hboot.unused n List.mem_cons_self) (by decide) (by decide),
    (bootTables_cases base 511).2.2.2.1] at hsame
  exact congrArg PtEntry.present hsame

/-- `vmspace_init` for another top table. -/
theorem SpacesInv.create_eq (h : SpacesInv base n pdts m) (hboot : BootFrames base n pdts)
    (hbase : PageAddr (base + 0x3000)) {root : Nat} {content : Nat → PtEntry} {flags : VmFlags}
    (hcall : SpaceCall m (.create root content flags)) :
    stepSpaces m (.create root content flags) =
      .ok ⟨m.sys.withVm (m.sys.vm.withTop root (kernelTop content (base + 0x3000) n)), root :: m.roots⟩ := by
  obtain ⟨hroot, -, h510, h511⟩ := hcall
  obtain ⟨hmem, hpresent⟩ := h.kernel hboot
  have htop : ((m.sys.vm.withTop root content).withRoot root).tables root = content := Function.update_self ..
  have hinit := @vmspaceInit_second ((m.sys.vm.withTop root content).withRoot root) flags _ _ h.sensitive h.normal
    hbase (hboot.aligned n List.mem_cons_self) (fun he : base + 0x3000 = root => hroot (he ▸ hmem)) ?_ ((congrFun htop 510).trans h510)
    ((congrFun htop 511).trans h511) h.initialized
  · unfold stepSpaces
    dsimp only
    rw [hinit, ← withTop_stores]
    rfl
  · show ((m.sys.vm.withTop root content).tables (base + 0x3000) 511).present = true
    rw [tables_withTop hroot hmem]
    exact hpresent

theorem SpacesInv.create (h : SpacesInv base n pdts m) {root : Nat} {content : Nat → PtEntry} {flags : VmFlags}
    (hcall : SpaceCall m (.create root content flags)) :
    SpacesInv base n pdts
      ⟨m.sys.withVm (m.sys.vm.withTop root (kernelTop content (base + 0x3000) n)), root :: m.roots⟩ := by
  obtain ⟨hroot, hqueue, -, -⟩ := hcall
  have hok := h.zones.ok
  have hne : ∀ r ∈ m.roots, r ≠ root := fun r hr he => hroot (he ▸ h.made r hr)
  refine ⟨zonesInv_withTop hroot rfl h.zones hqueue, frozen_withTop hok hroot h.boot, fun f i hf => ?_, fun r hr => ?_,
    fun r hr d p hp => ?_, List.mem_cons_of_mem _ h.active, List.mem_cons_of_mem _ h.first, h.sensitive, h.normal⟩
  · obtain ⟨hr, hlo, hhi⟩ := hf
    rcases List.mem_cons.mp hr with rfl | hr
    · show Function.update m.sys.vm.tables f (kernelTop content (base + 0x3000) n) f i = _
      rw [Function.update_self]
      unfold kernelTop kernelLinks
      rcases (by omega : i = 510 ∨ i = 511) with rfl | rfl
      · rw [Function.update_self]
        rfl
      · rw [Function.update_of_ne (by decide), Function.update_self]
        rfl
    · show Function.update m.sys.vm.tables root _ f i = _
      rw [Function.update_of_ne (hne f hr)]
      exact h.links f i ⟨hr, hlo, hhi⟩
  · rcases List.mem_cons.mp hr with rfl | hr
    · exact List.mem_cons_self
    · exact List.mem_cons_of_mem _ (h.made r hr)
  · show nodeOf (m.sys.vm.withTop root _) (d + 1) p ≠ some r
    rw [nodeOf_withTop hok hroot hp]
    rcases List.mem_cons.mp hr with rfl | hr
    · exact hok.foreign hroot (d + 1) p hp
    · exact h.above r hr d p hp

/-- The machine after `vm_init`. -/
theorem spacesInv_boot {vm : VmSpace} (hboot : BootFrames base n pdts) (hbase : PageAddr (base + 0x3000))
    (hinit : vmInit base (n :: pdts) = .ok vm) : SpacesInv base n pdts (.boot vm) := by
  obtain ⟨vm', hinit', hspace, hframes, -⟩ := vmInit_ready hboot
  obtain rfl : vm' = vm := Except.ok.inj (hinit'.symm.trans hinit)
  obtain ⟨hfrozen, hroot⟩ := frozen_vmInit hboot hinit
  have hok := SpaceReady.ok hspace
  have hpml4t : vm'.pml4t = base := hroot.pml4t
  have hlink : ∀ i, 510 ≤ i → i < 512 → vm'.tables base i = kernelLinks (base + 0x3000) n base i := by
    intro i hlo hhi
    have hsame := hfrozen.same base i ⟨hhi, 0, by decide, rfl, fun h => absurd h (by decide)⟩
    rw [hsame]
    rcases (by omega : i = 510 ∨ i = 511) with rfl | rfl
    · rw [withPdpts_normal]
      exact or_create_eq (hboot.aligned n List.mem_cons_self)
    · have htop := @withPdpts_tables base n pdts (hboot.unused n List.mem_cons_self) 0 511 (by decide) (by decide)
      rw [(bootTables_cases base 511).1] at htop
      exact htop
  refine ⟨ZonesInv.boot hspace hframes, hfrozen, fun f i hf => ?_, fun r hr => ?_, fun r hr d p hp hnode => ?_,
    List.mem_singleton_self _, ?_, hroot.sensitive, hroot.normal⟩
  · obtain ⟨hr, hlo, hhi⟩ := hf
    obtain rfl : f = base := (List.mem_singleton.mp hr).trans hpml4t
    exact hlink i hlo hhi
  · obtain rfl : r = vm'.pml4t := List.mem_singleton.mp hr
    exact hok.made 0 0xFFFF _ rfl rfl
  · obtain rfl : r = vm'.pml4t := List.mem_singleton.mp hr
    have hroot0 : nodeOf vm' 0 0xFFFF = some vm'.pml4t := rfl
    exact absurd (hok.separate _ _ _ _ _ hp (show Own 0 0xFFFF from rfl) hnode hroot0).1 (Nat.succ_ne_zero d)
  · show base ∈ [vm'.pml4t]
    rw [hpml4t]
    exact List.mem_singleton_self _

/-- One step of the machine. -/
theorem SpacesInv.step (h : SpacesInv base n pdts m) (hboot : BootFrames base n pdts)
    (hbase : PageAddr (base + 0x3000)) {a : SpaceAct} {m' : Spaces} (hcall : SpaceCall m a)
    (hstep : stepSpaces m a = .ok m') : SpacesInv base n pdts m' := by
  cases a with
  | call a =>
      obtain ⟨s', hrun, hm'⟩ := bind_eq_ok.mp hstep
      cases hm'
      exact h.call hcall.1 hcall.2 hrun
  | create root content flags =>
      rw [h.create_eq hboot hbase hcall] at hstep
      cases hstep
      exact h.create hcall
  | activate root =>
      cases hstep
      exact h.activate hcall

/-- What the address spaces have in common. -/
structure SharedKernel (m : Spaces) : Prop where
  /-- The addresses of the kernel are translated alike in all of them. -/
  same : ∀ r ∈ m.roots, ∀ addr, normalPage ≤ pageNumber addr →
    translate (m.sys.vm.withRoot r) addr = translate m.sys.vm addr
  /-- The last two gigabytes are as they were at boot. -/
  direct : ∀ r ∈ m.roots, ∀ addr, kernelPage ≤ pageNumber addr → translate (m.sys.vm.withRoot r) addr = bootWalk addr
  /-- The zones keep to themselves in the active one. -/
  contained : ∀ a s', AnyCall m.sys a → HasRoom m.sys a → stepAny m.sys a = .ok s' → Contained m.sys s' a
  /-- Another one is had without a frame, and but for its two entries nothing changes. -/
  create : ∀ root content flags, SpaceCall m (.create root content flags) →
    ∃ m', stepSpaces m (.create root content flags) = .ok m' ∧ m'.sys.vm.frames = m.sys.vm.frames ∧
      (∀ f, f ≠ root → m'.sys.vm.tables f = m.sys.vm.tables f) ∧
      ∀ i, i ≠ 510 → i ≠ 511 → m'.sys.vm.tables root i = content i

theorem SpacesInv.sharedKernel (h : SpacesInv base n pdts m) (hboot : BootFrames base n pdts)
    (hbase : PageAddr (base + 0x3000)) : SharedKernel m := by
  refine ⟨fun r hr addr hpage => (h.twin hr).translate_eq hpage, fun r hr addr hpage => ?_, fun a s' hcall hroom hstep =>
    (h.zones.step hcall hroom hstep).2, fun root content flags hcall => ?_⟩
  · have hpage' : 0xFFFF80000 ≤ pageNumber addr := hpage
    have hnormal : normalPage ≤ pageNumber addr := by
      show 0xFF0000000 ≤ pageNumber addr
      omega
    rw [(h.twin hr).translate_eq hnormal, ← (h.twin h.first).translate_eq hnormal]
    refine translateBelow_outside (fun k hk i hi hi3 hne => ?_) (Or.inr hpage)
    show m.sys.vm.tables (base + 0x1000 * k) i = bootTables base (base + 0x1000 * k) i
    rw [h.boot.same _ i ⟨hi, k, hk, rfl, hi3⟩]
    exact withPdpts_tables (hboot.unused n List.mem_cons_self) hk hne
  · refine ⟨_, h.create_eq hboot hbase hcall, rfl, fun f hf => Function.update_of_ne hf _ _, fun i h510 h511 => ?_⟩
    show Function.update m.sys.vm.tables root (kernelTop content (base + 0x3000) n) root i = _
    rw [Function.update_self]
    unfold kernelTop
    rw [Function.update_of_ne h510, Function.update_of_ne h511]

end Run

instance (m : Spaces) (a : SpaceAct) : Decidable (SpaceCall m a) :=
  match a with
  | .call .. => inferInstanceAs (Decidable (_ ∧ _))
  | .create .. => inferInstanceAs (Decidable (_ ∧ _ ∧ _ ∧ _))
  | .activate .. => inferInstanceAs (Decidable (_ ∈ _))

end LearningOS.Paging
