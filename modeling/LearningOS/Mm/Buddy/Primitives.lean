import LearningOS.Mm.Buddy.Model

/-!
# `Mm.Buddy.Primitives` — what the list and node primitives do

Every function of the allocator changes the machine through a handful of primitives: take a node, link an
entry, unlink an entry, flip or set a pair bit, account. This module says once what each of them does
(`*_ok`: when it returns and with which machine), so that no later proof unfolds them. `noSlab` is the node
cache that is never refilled; with a node left the callback is not called at all (`slabAlloc_of_cells`).
-/

namespace LearningOS

open Word Run Dyadic

variable {V : Type}

/-! ## Field reads of the setters -/

section Setters

variable (m : Machine V) (index value order : Nat) (entries : List Nat)

@[simp] theorem toggleBit_freelists : (m.toggleBit index).freelists = m.freelists := rfl
@[simp] theorem toggleBit_cache : (m.toggleBit index).freelistCache = m.freelistCache := rfl
@[simp] theorem toggleBit_baseAddr : (m.toggleBit index).baseAddr = m.baseAddr := rfl
@[simp] theorem toggleBit_endAddr : (m.toggleBit index).endAddr = m.endAddr := rfl
@[simp] theorem toggleBit_regions : (m.toggleBit index).regions = m.regions := rfl
@[simp] theorem toggleBit_vm : (m.toggleBit index).vm = m.vm := rfl

@[simp] theorem setBit_freelists : (m.setBit index value).freelists = m.freelists := rfl
@[simp] theorem setBit_cache : (m.setBit index value).freelistCache = m.freelistCache := rfl
@[simp] theorem setBit_baseAddr : (m.setBit index value).baseAddr = m.baseAddr := rfl
@[simp] theorem setBit_endAddr : (m.setBit index value).endAddr = m.endAddr := rfl
@[simp] theorem setBit_regions : (m.setBit index value).regions = m.regions := rfl
@[simp] theorem setBit_vm : (m.setBit index value).vm = m.vm := rfl

@[simp] theorem setFreelist_freelists :
    (m.setFreelist order entries).freelists = Function.update m.freelists order entries := rfl
@[simp] theorem setFreelist_cache : (m.setFreelist order entries).freelistCache = m.freelistCache := rfl
@[simp] theorem setFreelist_map : (m.setFreelist order entries).buddyStateMap = m.buddyStateMap := rfl
@[simp] theorem setFreelist_baseAddr : (m.setFreelist order entries).baseAddr = m.baseAddr := rfl
@[simp] theorem setFreelist_endAddr : (m.setFreelist order entries).endAddr = m.endAddr := rfl
@[simp] theorem setFreelist_regions : (m.setFreelist order entries).regions = m.regions := rfl
@[simp] theorem setFreelist_vm : (m.setFreelist order entries).vm = m.vm := rfl

@[simp] theorem slabFree_freelists : (slabFree m).freelists = m.freelists := rfl
@[simp] theorem slabFree_map : (slabFree m).buddyStateMap = m.buddyStateMap := rfl
@[simp] theorem slabFree_baseAddr : (slabFree m).baseAddr = m.baseAddr := rfl
@[simp] theorem slabFree_endAddr : (slabFree m).endAddr = m.endAddr := rfl
@[simp] theorem slabFree_regions : (slabFree m).regions = m.regions := rfl
@[simp] theorem slabFree_vm : (slabFree m).vm = m.vm := rfl

@[simp] theorem setCounters_freelists : (m.setCounters index value).freelists = m.freelists := rfl
@[simp] theorem setCounters_map : (m.setCounters index value).buddyStateMap = m.buddyStateMap := rfl
@[simp] theorem setCounters_cache : (m.setCounters index value).freelistCache = m.freelistCache := rfl
@[simp] theorem setCounters_baseAddr : (m.setCounters index value).baseAddr = m.baseAddr := rfl
@[simp] theorem setCounters_endAddr : (m.setCounters index value).endAddr = m.endAddr := rfl
@[simp] theorem setCounters_regions : (m.setCounters index value).regions = m.regions := rfl
@[simp] theorem setCounters_vm : (m.setCounters index value).vm = m.vm := rfl
@[simp] theorem setCounters_freeSpaceBytes : (m.setCounters index value).freeSpaceBytes = index := rfl
@[simp] theorem setCounters_allocatedBytes : (m.setCounters index value).allocatedBytes = value := rfl

end Setters

/-! ## Nodes -/

/-- The cache after `slab_alloc` took a cell that was there. -/
def FreelistCache.take (c : FreelistCache) : FreelistCache :=
  if c.partialCells ≠ 0 then c.takeCell c.partialCells c.freeSlabs
  else c.takeCell objsPerSlab (c.freeSlabs - 1)

/-- The machine after `slab_alloc` took a cell that was there. -/
def Machine.takeNode (m : Machine V) : Machine V := { m with freelistCache := m.freelistCache.take }

section TakeNode

variable (m : Machine V)

@[simp] theorem takeNode_freelists : m.takeNode.freelists = m.freelists := rfl
@[simp] theorem takeNode_map : m.takeNode.buddyStateMap = m.buddyStateMap := rfl
@[simp] theorem takeNode_cache : m.takeNode.freelistCache = m.freelistCache.take := rfl
@[simp] theorem takeNode_baseAddr : m.takeNode.baseAddr = m.baseAddr := rfl
@[simp] theorem takeNode_endAddr : m.takeNode.endAddr = m.endAddr := rfl
@[simp] theorem takeNode_regions : m.takeNode.regions = m.regions := rfl
@[simp] theorem takeNode_vm : m.takeNode.vm = m.vm := rfl

end TakeNode

theorem cells_pos_iff {c : FreelistCache} : 0 < c.cells ↔ c.partialCells ≠ 0 ∨ c.freeSlabs ≠ 0 := by
  unfold FreelistCache.cells objsPerSlab
  omega

theorem cells_take {c : FreelistCache} (h : 0 < c.cells) : c.take.cells + 1 = c.cells := by
  unfold FreelistCache.take
  by_cases hp : c.partialCells ≠ 0
  · rw [if_pos hp]
    simp only [FreelistCache.cells, FreelistCache.takeCell]
    omega
  · have hs : c.freeSlabs ≠ 0 := (cells_pos_iff.mp h).resolve_left hp
    rw [if_neg hp]
    simp only [FreelistCache.cells, FreelistCache.takeCell, objsPerSlab]
    omega

@[simp] theorem allocatedObjects_take (c : FreelistCache) :
    c.take.allocatedObjects = (c.allocatedObjects + 1) % 2 ^ 32 := by
  unfold FreelistCache.take
  split <;> rfl

@[simp] theorem totalFreeObjects_take (c : FreelistCache) :
    c.take.totalFreeObjects = (c.totalFreeObjects + (2 ^ 32 - 1)) % 2 ^ 32 := by
  unfold FreelistCache.take
  split <;> rfl

/-- With a cell left, `slab_alloc` takes it and creates nothing. -/
theorem slabAlloc_of_cells (create : Callback V) {m : Machine V} (h : 0 < m.freelistCache.cells) :
    slabAlloc create m = .ok m.takeNode := by
  unfold slabAlloc Machine.takeNode FreelistCache.take
  by_cases hp : m.freelistCache.partialCells ≠ 0
  · simp only [if_pos hp]
  · have hs : m.freelistCache.freeSlabs ≠ 0 := (cells_pos_iff.mp h).resolve_left hp
    simp only [if_neg hp, if_pos hs]

/-- Without one, it is `__slab_create` that decides. -/
theorem slabAlloc_of_empty (create : Callback V) {m : Machine V} (h : m.freelistCache.cells = 0) :
    slabAlloc create m = create m >>= fun m' =>
      .ok { m' with freelistCache := m'.freelistCache.takeCell objsPerSlab m'.freelistCache.freeSlabs } := by
  have hp : m.freelistCache.partialCells = 0 := by unfold FreelistCache.cells at h; omega
  have hs : m.freelistCache.freeSlabs = 0 := by unfold FreelistCache.cells objsPerSlab at h; omega
  simp [slabAlloc, hp, hs]

theorem slabAlloc_ok {m m' : Machine V} :
    slabAlloc noSlab m = .ok m' ↔ 0 < m.freelistCache.cells ∧ m' = m.takeNode := by
  by_cases h : 0 < m.freelistCache.cells
  · rw [slabAlloc_of_cells noSlab h]
    simp [h, eq_comm]
  · rw [slabAlloc_of_empty noSlab (by omega)]
    simp [noSlab, h]

/-! ## Entries -/

theorem linkEntry_ok {m m' : Machine V} {order entry : Nat} :
    linkEntry m order entry = .ok m' ↔
      order ≤ maxOrder ∧ m' = m.setFreelist order (entry :: m.freelists order) := by
  unfold linkEntry
  by_cases h : order ≤ maxOrder
  · simp [h, eq_comm]
  · simp [h]

/-- The machine after `__allocate_freelist_entry` with a node at hand. -/
def Machine.addEntry (m : Machine V) (order pageOffset : Nat) : Machine V :=
  m.takeNode.setFreelist order (storedOffset pageOffset :: m.freelists order)

section AddEntry

variable (m : Machine V) (order pageOffset : Nat)

@[simp] theorem addEntry_freelists : (m.addEntry order pageOffset).freelists
    = Function.update m.freelists order (storedOffset pageOffset :: m.freelists order) := rfl
@[simp] theorem addEntry_map : (m.addEntry order pageOffset).buddyStateMap = m.buddyStateMap := rfl
@[simp] theorem addEntry_cache : (m.addEntry order pageOffset).freelistCache = m.freelistCache.take := rfl
@[simp] theorem addEntry_baseAddr : (m.addEntry order pageOffset).baseAddr = m.baseAddr := rfl
@[simp] theorem addEntry_endAddr : (m.addEntry order pageOffset).endAddr = m.endAddr := rfl
@[simp] theorem addEntry_regions : (m.addEntry order pageOffset).regions = m.regions := rfl
@[simp] theorem addEntry_vm : (m.addEntry order pageOffset).vm = m.vm := rfl

end AddEntry

theorem allocateFreelistEntry_of_cells (create : Callback V) {m : Machine V} {pageOffset order : Nat}
    (hc : 0 < m.freelistCache.cells) (ho : order ≤ maxOrder) :
    allocateFreelistEntry create m pageOffset order = .ok (m.addEntry order pageOffset) := by
  unfold allocateFreelistEntry
  rw [slabAlloc_of_cells create hc, ok_bind]
  exact linkEntry_ok.mpr ⟨ho, rfl⟩

theorem allocateFreelistEntry_ok {m m' : Machine V} {pageOffset order : Nat} :
    allocateFreelistEntry noSlab m pageOffset order = .ok m' ↔
      0 < m.freelistCache.cells ∧ order ≤ maxOrder ∧ m' = m.addEntry order pageOffset := by
  unfold allocateFreelistEntry
  rw [bind_eq_ok]
  constructor
  · rintro ⟨m1, h1, h2⟩
    obtain ⟨hc, rfl⟩ := slabAlloc_ok.mp h1
    obtain ⟨ho, rfl⟩ := linkEntry_ok.mp h2
    exact ⟨hc, ho, rfl⟩
  · rintro ⟨hc, ho, rfl⟩
    exact ⟨m.takeNode, slabAlloc_ok.mpr ⟨hc, rfl⟩, linkEntry_ok.mpr ⟨ho, rfl⟩⟩

/-- Unlinking by page offset erases the first entry that has it. -/
theorem unlinkEntry_eq (l : List Nat) (o : Nat) :
    unlinkEntry l o = if o ∈ l then some (l.erase o) else none := by
  induction l with
  | nil => rfl
  | cons e l ih =>
      unfold unlinkEntry
      by_cases he : e = o
      · subst he
        simp
      · have hne : ¬ o = e := fun hc => he hc.symm
        rw [if_neg he, ih]
        by_cases ho : o ∈ l
        · simp [ho, he]
        · simp [ho, hne]

theorem popFreelistEntry_ok {m m' : Machine V} {pageOffset order : Nat} {found : Bool} :
    popFreelistEntry m pageOffset order = .ok (found, m') ↔
      order ≤ maxOrder ∧
        (found = true ∧ pageOffset ∈ m.freelists order ∧
            m' = m.setFreelist order ((m.freelists order).erase pageOffset) ∨
          found = false ∧ pageOffset ∉ m.freelists order ∧ m' = m) := by
  unfold popFreelistEntry
  rw [unlinkEntry_eq]
  by_cases h : order ≤ maxOrder
  · by_cases ho : pageOffset ∈ m.freelists order
    · simp [h, ho, eq_comm]
    · simp [h, ho, eq_comm]
  · simp [h]

/-- Below the end of the array a pop returns, with an entry or with `NULL`. -/
theorem popFreelistEntry_total (m : Machine V) (pageOffset : Nat) {order : Nat} (h : order ≤ maxOrder) :
    ∃ found m', popFreelistEntry m pageOffset order = .ok (found, m') := by
  by_cases ho : pageOffset ∈ m.freelists order
  · exact ⟨true, _, popFreelistEntry_ok.mpr ⟨h, .inl ⟨rfl, ho, rfl⟩⟩⟩
  · exact ⟨false, _, popFreelistEntry_ok.mpr ⟨h, .inr ⟨rfl, ho, rfl⟩⟩⟩

/-! ## Addresses -/

theorem pageOf_addrOf (m : Machine V) {o : Nat} (h : o < 2 ^ 52) : m.pageOf (m.addrOf o) = o := by
  unfold Machine.pageOf Machine.addrOf
  have hlt : o * 2 ^ pageOrder < 2 ^ 64 := by
    have he : (2 : Nat) ^ 64 = 2 ^ 52 * 2 ^ pageOrder := by decide
    rw [he]
    exact Nat.mul_lt_mul_of_pos_right h (by decide)
  rw [shl64_of_lt hlt, sub64_add64 hlt, Nat.shiftRight_eq_div_pow]
  exact Nat.mul_div_cancel o (by decide)

/-- The parts of the machine no list operation touches. -/
structure SameLayout (m m' : Machine V) : Prop where
  baseAddr : m'.baseAddr = m.baseAddr
  endAddr : m'.endAddr = m.endAddr
  regions : m'.regions = m.regions
  vm : m'.vm = m.vm
  sizeBytes : m'.buddyStateMap.sizeBytes = m.buddyStateMap.sizeBytes

theorem SameLayout.refl (m : Machine V) : SameLayout m m := ⟨rfl, rfl, rfl, rfl, rfl⟩

theorem SameLayout.trans {m m' m'' : Machine V} (h : SameLayout m m') (h' : SameLayout m' m'') :
    SameLayout m m'' :=
  ⟨h'.baseAddr.trans h.baseAddr, h'.endAddr.trans h.endAddr, h'.regions.trans h.regions,
    h'.vm.trans h.vm, h'.sizeBytes.trans h.sizeBytes⟩

theorem SameLayout.toggleBit (m : Machine V) (index : Nat) : SameLayout m (m.toggleBit index) :=
  ⟨rfl, rfl, rfl, rfl, sizeBytes_bmpToggleBit _ _⟩

theorem SameLayout.setBit (m : Machine V) (index value : Nat) : SameLayout m (m.setBit index value) :=
  ⟨rfl, rfl, rfl, rfl, sizeBytes_bmpSetBit _ _ _⟩

theorem SameLayout.setFreelist (m : Machine V) (order : Nat) (entries : List Nat) :
    SameLayout m (m.setFreelist order entries) := ⟨rfl, rfl, rfl, rfl, rfl⟩

theorem SameLayout.addEntry (m : Machine V) (order pageOffset : Nat) :
    SameLayout m (m.addEntry order pageOffset) := ⟨rfl, rfl, rfl, rfl, rfl⟩

theorem SameLayout.setCounters (m : Machine V) (free alloc : Nat) :
    SameLayout m (m.setCounters free alloc) := ⟨rfl, rfl, rfl, rfl, rfl⟩

theorem SameLayout.slabFree (m : Machine V) : SameLayout m (slabFree m) := ⟨rfl, rfl, rfl, rfl, rfl⟩

theorem SameLayout.addrOf {m m' : Machine V} (h : SameLayout m m') (o : Nat) :
    m'.addrOf o = m.addrOf o := by
  unfold Machine.addrOf
  rw [h.baseAddr]

end LearningOS
