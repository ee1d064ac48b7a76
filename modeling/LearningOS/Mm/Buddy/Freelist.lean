import LearningOS.Lib.Chain
import LearningOS.Mm.Buddy.Primitives

/-!
# `Mm.Buddy.Freelist` — freelists in memory, linked by offsets

`Mm.Buddy.Model` has a freelist as the list of its page offsets. In memory it is a chain of `freelist_entry_t`s of 8
bytes, each with the distance to the next one in entries, as an `s32_t`, and 0 for none. This module has the two
functions that work on the links, as the code computes them on pointers:

* `Encodes` — a chain of entries as the allocator may have it, less than 1GB apart;
* `freelist_pop_push` — what `__pop_freelist_entry` and `__allocate_freelist_entry` do to such a chain;
* `Represents` — the chain stands for the list of the model, and stays so under both functions.
-/

namespace LearningOS.Freelist

open Word Run Singly

/-! ## Model -/

/-- `freelist_entry_t`. -/
structure FreelistEntry where
  nextEntry : Int
  pageOffset : Nat
  flags : Nat
deriving DecidableEq, Repr

/-- The entries in memory, by address, and `freelists`. -/
structure EntryHeap where
  entry : Nat → FreelistEntry
  freelists : Nat → Nat

/-- A number cut to an `s32_t`. -/
def toS32 (n : Int) : Int := n.bmod (2 ^ 32)

/-- `a - b`, in entries. -/
def entryDiff (a b : Nat) : Int := ptrDiff a b / 8

/-- `a + n`, in entries. -/
def entryAdd (a : Nat) (n : Int) : Nat := ((a + 8 * n) % 2 ^ 64).toNat

/-- `entry->next_entry == NULL ? NULL : entry + entry->next_entry`. -/
def EntryHeap.successor (h : EntryHeap) (entry : Nat) : Nat :=
  if (h.entry entry).nextEntry = 0 then 0 else entryAdd entry (h.entry entry).nextEntry

/-- `allocator->freelists[order] = entry`. -/
def EntryHeap.setHead (h : EntryHeap) (order entry : Nat) : EntryHeap :=
  { h with freelists := Function.update h.freelists order entry }

/-- `entry->next_entry = n`. -/
def EntryHeap.setNext (h : EntryHeap) (entry : Nat) (n : Int) : EntryHeap :=
  { h with entry := Function.update h.entry entry { h.entry entry with nextEntry := toS32 n } }

/-- `entry->page_offset = page_offset`. -/
def EntryHeap.setPageOffset (h : EntryHeap) (entry pageOffset : Nat) : EntryHeap :=
  { h with entry := Function.update h.entry entry { h.entry entry with pageOffset := storedOffset pageOffset } }

/-- `__allocate_freelist_entry`, with the entry that `slab_alloc` returned. -/
def allocateFreelistEntry (h : EntryHeap) (entry pageOffset order : Nat) : Except Fault EntryHeap :=
  if order > maxOrder then .error (.freelistsIndex order)
  else if entry = 0 then .error .nullEntry
  else
    let next := if h.freelists order = 0 then 0 else entryDiff (h.freelists order) entry
    .ok (((h.setNext entry next).setPageOffset entry pageOffset).setHead order entry)

/-- The loop of `__pop_freelist_entry`, for at most `n` rounds: `prev` and `entry` at its exit. -/
def popLoop (h : EntryHeap) (pageOffset : Nat) : Nat → Nat → Nat → Except Fault (Nat × Nat)
  | 0, _, _ => .error .outOfFuel
  | n + 1, prev, entry =>
    if entry ≠ 0 ∧ (h.entry entry).pageOffset ≠ pageOffset then popLoop h pageOffset n entry (h.successor entry)
    else .ok (prev, entry)

/-- `__pop_freelist_entry`, with at most `n` rounds of its loop. -/
def popFreelistEntry (n : Nat) (h : EntryHeap) (pageOffset order : Nat) : Except Fault (Nat × EntryHeap) :=
  if order > maxOrder then .error (.freelistsIndex order)
  else
    popLoop h pageOffset n 0 (h.freelists order) >>= fun (prev, entry) =>
      if entry = 0 then .ok (0, h)
      else if entry = h.freelists order then .ok (entry, h.setHead order (h.successor entry))
      else if prev = 0 then .error .nullEntry
      else
        let next := if (h.entry entry).nextEntry = 0 then 0 else entryDiff (entryAdd entry (h.entry entry).nextEntry) prev
        .ok (entry, h.setNext prev next)

/-! ## Chains of entries -/

/-- A pointer, or none. -/
def pointer (p : Nat) : Option Nat := if p = 0 then none else some p

/-- Where an entry is linked to: 0 for the end. -/
def EntryHeap.next (h : EntryHeap) (entry : Nat) : Option Nat :=
  if (h.entry entry).nextEntry = 0 then none else some (entryAdd entry (h.entry entry).nextEntry)

/-- Places for entries: aligned, and less than 1GB apart. -/
structure Placed (addrs : List Nat) : Prop where
  nodup : addrs.Nodup
  aligned : ∀ a ∈ addrs, a ≠ 0 ∧ a % 8 = 0 ∧ a < 2 ^ 64
  near : ∀ a ∈ addrs, ∀ b ∈ addrs, a < b + 2 ^ 30

/-- The freelist of an order is the chain of the entries at `addrs`, linked by distances that fit their field. -/
structure Encodes (h : EntryHeap) (order : Nat) (addrs : List Nat) : Prop where
  chain : Chain h.next (pointer (h.freelists order)) addrs
  placed : Placed addrs
  fits : ∀ a ∈ addrs, -2 ^ 31 ≤ (h.entry a).nextEntry ∧ (h.entry a).nextEntry < 2 ^ 31

variable {h h' heap : EntryHeap} {order pageOffset n : Nat} {addrs front rest : List Nat} {a b : Nat}

theorem pointer_eq_some : pointer a = some b ↔ a = b ∧ a ≠ 0 := by
  unfold pointer
  by_cases ha : a = 0
  · simp [ha]
  · simp [ha]

theorem pointer_eq_none : pointer a = none ↔ a = 0 := by
  unfold pointer
  by_cases ha : a = 0
  · simp [ha]
  · simp [ha]

theorem pointer_of_ne (ha : a ≠ 0) : pointer a = some a := pointer_eq_some.mpr ⟨rfl, ha⟩

/-! ## Links -/

/-- The distance between two places, in entries, is what the code computes, and fits. -/
theorem Placed.toS32_entryDiff (h : Placed addrs) (ha : a ∈ addrs) (hb : b ∈ addrs) :
    8 * toS32 (entryDiff b a) = (b : Int) - a ∧ -2 ^ 31 ≤ toS32 (entryDiff b a) ∧ toS32 (entryDiff b a) < 2 ^ 31 := by
  obtain ⟨-, ha8, haw⟩ := h.aligned a ha
  obtain ⟨-, hb8, hbw⟩ := h.aligned b hb
  have hab := h.near a ha b hb
  have hba := h.near b hb a ha
  -- The pointers are less than 1GB apart, so that their distance has a sign in 64 bits.
  have hdiff : ptrDiff b a = (b : Int) - a := by
    unfold ptrDiff sub64
    split <;> omega
  have hexact : entryDiff b a = ((b : Int) - a) / 8 := by
    unfold entryDiff
    rw [hdiff]
  -- In entries it is less than 2 ^ 27.
  have hcut : toS32 (entryDiff b a) = ((b : Int) - a) / 8 := by
    unfold toS32
    rw [hexact, Int.bmod_eq_of_le (by omega) (by omega)]
  rw [hcut]
  omega

/-- A link that is the distance to another place leads there. -/
theorem next_eq_some (hb : b < 2 ^ 64) (hne : b ≠ a) (hlink : 8 * (h.entry a).nextEntry = (b : Int) - a) :
    h.next a = some b := by
  have hnonzero : (h.entry a).nextEntry ≠ 0 := by omega
  unfold EntryHeap.next entryAdd
  rw [if_neg hnonzero, hlink]
  congr 1
  omega

theorem next_eq_none : h.next a = none ↔ (h.entry a).nextEntry = 0 := by
  unfold EntryHeap.next
  by_cases hzero : (h.entry a).nextEntry = 0
  · simp [hzero]
  · simp [hzero]

/-- Every link is the distance to the next entry: the field cut nothing off it. -/
def ExactLinks (h : EntryHeap) (addrs : List Nat) : Prop :=
  ∀ a ∈ addrs, ∀ b ∈ addrs, h.next a = some b → 8 * (h.entry a).nextEntry = (b : Int) - a

theorem Encodes.exactLinks (h : Encodes heap order addrs) : ExactLinks heap addrs := by
  intro a ha b hb hnext
  obtain ⟨-, ha8, haw⟩ := h.placed.aligned a ha
  obtain ⟨-, hb8, hbw⟩ := h.placed.aligned b hb
  have hab := h.placed.near a ha b hb
  have hba := h.placed.near b hb a ha
  obtain ⟨hlo, hhi⟩ := h.fits a ha
  unfold EntryHeap.next at hnext
  by_cases hzero : (heap.entry a).nextEntry = 0
  · rw [if_pos hzero] at hnext
    cases hnext
  · rw [if_neg hzero, Option.some.injEq, entryAdd] at hnext
    omega

/-- The pointer the code follows is the link. -/
theorem pointer_successor (hchain : Chain h.next (h.next a) rest) (hrest : ∀ b ∈ rest, b ≠ 0) :
    pointer (h.successor a) = h.next a := by
  unfold EntryHeap.successor
  by_cases hzero : (h.entry a).nextEntry = 0
  · rw [if_pos hzero, next_eq_none.mpr hzero]
    rfl
  · rw [if_neg hzero]
    have hnext : h.next a = some (entryAdd a (h.entry a).nextEntry) := if_neg hzero
    rw [hnext]
    apply pointer_of_ne
    apply hrest
    have hhead := hchain.head_eq
    rw [hnext] at hhead
    exact List.mem_of_mem_head? hhead.symm

/-! ## The walk -/

/-- The walk past the end of the chain: no entry is for the page offset. -/
theorem popLoop_absent {prev entry : Nat} (hchain : Chain h.next (pointer entry) addrs) (hne : ∀ a ∈ addrs, a ≠ 0)
    (habsent : ∀ a ∈ addrs, (h.entry a).pageOffset ≠ pageOffset) (hn : addrs.length < n) :
    ∃ last, popLoop h pageOffset n prev entry = .ok (last, 0) := by
  induction addrs generalizing n prev entry with
  | nil =>
      obtain ⟨n, rfl⟩ := Nat.exists_eq_succ_of_ne_zero (Nat.ne_of_gt hn)
      obtain rfl := pointer_eq_none.mp hchain
      exact ⟨prev, rfl⟩
  | cons a addrs ih =>
      obtain ⟨n, rfl⟩ := Nat.exists_eq_succ_of_ne_zero (Nat.ne_of_gt (Nat.zero_lt_of_lt hn))
      obtain ⟨hhead, htail⟩ := hchain
      obtain ⟨rfl, ha⟩ := pointer_eq_some.mp hhead
      have hrest : ∀ b ∈ addrs, b ≠ 0 := fun b hb => hne b (List.mem_cons_of_mem _ hb)
      have hgoOn : entry ≠ 0 ∧ (h.entry entry).pageOffset ≠ pageOffset := ⟨ha, habsent entry List.mem_cons_self⟩
      rw [popLoop, if_pos hgoOn]
      rw [← pointer_successor htail hrest] at htail
      apply ih htail hrest
      · intro b hb
        exact habsent b (List.mem_cons_of_mem _ hb)
      · exact Nat.lt_of_succ_lt_succ hn

/-- The walk to the first entry for the page offset: it stops there, one entry behind with `prev`. -/
theorem popLoop_found {prev entry : Nat} (hchain : Chain h.next (pointer entry) (front ++ a :: rest))
    (hne : ∀ b ∈ front ++ a :: rest, b ≠ 0) (hfront : ∀ b ∈ front, (h.entry b).pageOffset ≠ pageOffset)
    (ha : (h.entry a).pageOffset = pageOffset) (hn : front.length < n) :
    popLoop h pageOffset n prev entry = .ok (front.getLastD prev, a) := by
  induction front generalizing n prev entry with
  | nil =>
      obtain ⟨n, rfl⟩ := Nat.exists_eq_succ_of_ne_zero (Nat.ne_of_gt hn)
      obtain ⟨rfl, -⟩ := pointer_eq_some.mp hchain.1
      have hstop : ¬(entry ≠ 0 ∧ (h.entry entry).pageOffset ≠ pageOffset) := fun hgoOn => hgoOn.2 ha
      rw [popLoop, if_neg hstop]
      rfl
  | cons c front ih =>
      obtain ⟨n, rfl⟩ := Nat.exists_eq_succ_of_ne_zero (Nat.ne_of_gt (Nat.zero_lt_of_lt hn))
      obtain ⟨hhead, htail⟩ := hchain
      obtain ⟨rfl, hc⟩ := pointer_eq_some.mp hhead
      have hrest : ∀ b ∈ front ++ a :: rest, b ≠ 0 := fun b hb => hne b (List.mem_cons_of_mem _ hb)
      have hgoOn : entry ≠ 0 ∧ (h.entry entry).pageOffset ≠ pageOffset := ⟨hc, hfront entry List.mem_cons_self⟩
      rw [popLoop, if_pos hgoOn]
      rw [← pointer_successor htail hrest] at htail
      have hstep : popLoop h pageOffset n entry (h.successor entry) = .ok (front.getLastD entry, a) := by
        apply ih htail hrest
        · intro b hb
          exact hfront b (List.mem_cons_of_mem _ hb)
        · exact Nat.lt_of_succ_lt_succ hn
      rw [hstep, List.getLastD_cons]

/-! ## Heaps after an update -/

theorem next_setHead {entry : Nat} : (h.setHead order entry).next = h.next := rfl

theorem entry_setNext_self {link : Int} :
    (h.setNext a link).entry a = { h.entry a with nextEntry := toS32 link } :=
  Function.update_self _ _ _

theorem entry_setNext {link : Int} (hab : b ≠ a) : (h.setNext a link).entry b = h.entry b :=
  Function.update_of_ne hab _ _

theorem next_congr (hsame : (h'.entry b).nextEntry = (h.entry b).nextEntry) : h'.next b = h.next b := by
  unfold EntryHeap.next
  rw [hsame]

/-- What is in an entry besides the link stays. -/
theorem content_setNext {link : Int} :
    ((h.setNext a link).entry b).pageOffset = (h.entry b).pageOffset ∧
      ((h.setNext a link).entry b).flags = (h.entry b).flags := by
  by_cases hab : b = a
  · subst hab
    rw [entry_setNext_self]
    exact ⟨rfl, rfl⟩
  · rw [entry_setNext hab]
    exact ⟨rfl, rfl⟩

/-! ## Removal -/

/-- The heap after the entry `a` is taken off the freelist at `addrs`. -/
structure Popped (h h' : EntryHeap) (order : Nat) (addrs : List Nat) (a : Nat) : Prop where
  encodes : Encodes h' order (addrs.erase a)
  content : ∀ b, (h'.entry b).pageOffset = (h.entry b).pageOffset ∧ (h'.entry b).flags = (h.entry b).flags
  frame : ∀ b ∉ addrs.erase a, h'.entry b = h.entry b
  heads : ∀ other, other ≠ order → h'.freelists other = h.freelists other

theorem Placed.sublist {addrs' : List Nat} (h : Placed addrs) (hsub : addrs'.Sublist addrs) : Placed addrs' where
  nodup := h.nodup.sublist hsub
  aligned := fun a ha => h.aligned a (hsub.subset ha)
  near := fun a ha b hb => h.near a (hsub.subset ha) b (hsub.subset hb)

theorem Placed.ne_zero (h : Placed addrs) : ∀ a ∈ addrs, a ≠ 0 := fun a ha => (h.aligned a ha).1

/-- The first entry: the head moves to the one after it. -/
theorem popped_first (h : Encodes heap order (a :: rest)) :
    Popped heap (heap.setHead order (heap.successor a)) order (a :: rest) a := by
  have hplaced : Placed rest := h.placed.sublist (List.sublist_cons_self a rest)
  obtain ⟨-, htail⟩ := h.chain
  rw [← pointer_successor htail hplaced.ne_zero] at htail
  refine ⟨?_, fun b => ⟨rfl, rfl⟩, fun b _ => rfl, ?_⟩
  · rw [List.erase_cons_head]
    refine ⟨?_, hplaced, ?_⟩
    · rw [next_setHead]
      show Chain heap.next (pointer (Function.update heap.freelists order _ order)) rest
      rw [Function.update_self]
      exact htail
    · intro b hb
      exact h.fits b (List.mem_cons_of_mem _ hb)
  · intro other hother
    exact Function.update_of_ne hother _ _

/-- The link that replaces the one of `prev`. -/
def EntryHeap.relink (h : EntryHeap) (prev entry : Nat) : Int :=
  if (h.entry entry).nextEntry = 0 then 0 else entryDiff (entryAdd entry (h.entry entry).nextEntry) prev

/-- It leads where the link of the entry did, and fits. -/
theorem next_relink {prev : Nat} (h : Encodes heap order (front ++ prev :: a :: rest)) :
    (heap.setNext prev (heap.relink prev a)).next prev = heap.next a ∧ -2 ^ 31 ≤ toS32 (heap.relink prev a) ∧
      toS32 (heap.relink prev a) < 2 ^ 31 := by
  have hprev : prev ∈ front ++ prev :: a :: rest := by simp
  by_cases hzero : (heap.entry a).nextEntry = 0
  · have hlink : heap.relink prev a = 0 := if_pos hzero
    rw [hlink, next_eq_none.mpr hzero, next_eq_none, entry_setNext_self]
    show toS32 0 = 0 ∧ -2 ^ 31 ≤ toS32 0 ∧ toS32 0 < 2 ^ 31
    decide
  · have hnext : heap.next a = some (entryAdd a (heap.entry a).nextEntry) := if_neg hzero
    have hlink : heap.relink prev a = entryDiff (entryAdd a (heap.entry a).nextEntry) prev := if_neg hzero
    generalize entryAdd a (heap.entry a).nextEntry = b at hnext hlink
    have hb : b ∈ rest := by
      obtain ⟨-, hrest⟩ := h.chain.drop
      have hhead := hrest.head_eq
      rw [hnext] at hhead
      exact List.mem_of_mem_head? hhead.symm
    have hbmem : b ∈ front ++ prev :: a :: rest := by simp [hb]
    -- The entry after `a` is another one than `prev`, so that their distance is not the 0 of the end.
    have hne : b ≠ prev := by
      rintro rfl
      have hnodup := (List.nodup_append.mp h.placed.nodup).2.1
      exact (List.nodup_cons.mp hnodup).1 (List.mem_cons_of_mem _ hb)
    obtain ⟨hdist, hfits⟩ := h.placed.toS32_entryDiff hprev hbmem
    rw [hlink, hnext]
    refine ⟨?_, hfits⟩
    apply next_eq_some (h.placed.aligned b hbmem).2.2 hne
    rw [entry_setNext_self]
    exact hdist

/-- A later entry: the one in front of it is linked past it. -/
theorem popped_later {prev : Nat} (h : Encodes heap order (front ++ prev :: a :: rest)) :
    Popped heap (heap.setNext prev (heap.relink prev a)) order (front ++ prev :: a :: rest) a := by
  obtain ⟨hnext, hfits⟩ := next_relink h
  have hnodup := h.placed.nodup
  have hassoc : front ++ prev :: a :: rest = (front ++ [prev]) ++ a :: rest := by simp
  have herase : (front ++ prev :: a :: rest).erase a = front ++ prev :: rest := by
    have ha : a ∉ front ++ [prev] := by
      rw [hassoc] at hnodup
      intro hmem
      exact (List.nodup_append.mp hnodup).2.2 a hmem a List.mem_cons_self rfl
    rw [hassoc, List.erase_append_right _ ha, List.erase_cons_head]
    simp
  have hprev : prev ∉ front ++ rest := by
    intro hmem
    apply (List.nodup_cons.mp (List.nodup_middle.mp hnodup)).1
    rcases List.mem_append.mp hmem with hmem | hmem
    · exact List.mem_append_left _ hmem
    · exact List.mem_append_right _ (List.mem_cons_of_mem a hmem)
  refine ⟨?_, fun b => content_setNext, ?_, fun other _ => rfl⟩
  · rw [herase]
    refine ⟨?_, ?_, ?_⟩
    · -- Only the link of `prev` is another one.
      show Chain _ (pointer (heap.freelists order)) _
      apply h.chain.unlink hnext
      intro b hb
      apply next_congr
      rw [entry_setNext]
      rintro rfl
      exact hprev hb
    · rw [← herase]
      exact h.placed.sublist List.erase_sublist
    · intro b hb
      by_cases hbp : b = prev
      · subst hbp
        rw [entry_setNext_self]
        exact hfits
      · rw [entry_setNext hbp]
        apply h.fits
        rw [← herase] at hb
        exact List.mem_of_mem_erase hb
  · intro b hb
    apply entry_setNext
    rintro rfl
    apply hb
    rw [herase]
    simp

/-- What `__pop_freelist_entry` does where its loop has stopped at the first entry. -/
theorem popFreelistEntry_first {prev : Nat} (ho : order ≤ maxOrder)
    (hloop : popLoop heap pageOffset n 0 (heap.freelists order) = .ok (prev, a)) (ha : a ≠ 0)
    (hhead : a = heap.freelists order) :
    popFreelistEntry n heap pageOffset order = .ok (a, heap.setHead order (heap.successor a)) := by
  unfold popFreelistEntry
  rw [if_neg (Nat.not_lt.mpr ho), hloop, ok_bind]
  dsimp only
  rw [if_neg ha, if_pos hhead]

/-- And at a later one. -/
theorem popFreelistEntry_later {prev : Nat} (ho : order ≤ maxOrder)
    (hloop : popLoop heap pageOffset n 0 (heap.freelists order) = .ok (prev, a)) (ha : a ≠ 0)
    (hhead : a ≠ heap.freelists order) (hprev : prev ≠ 0) :
    popFreelistEntry n heap pageOffset order = .ok (a, heap.setNext prev (heap.relink prev a)) := by
  unfold popFreelistEntry
  rw [if_neg (Nat.not_lt.mpr ho), hloop, ok_bind]
  dsimp only
  rw [if_neg ha, if_neg hhead, if_neg hprev]
  rfl

/-- `__pop_freelist_entry` of a page offset that no entry has. -/
theorem popFreelistEntry_absent (ho : order ≤ maxOrder) (h : Encodes heap order addrs)
    (habsent : ∀ a ∈ addrs, (heap.entry a).pageOffset ≠ pageOffset) (hn : addrs.length < n) :
    popFreelistEntry n heap pageOffset order = .ok (0, heap) := by
  obtain ⟨last, hloop⟩ := popLoop_absent h.chain h.placed.ne_zero habsent hn
  unfold popFreelistEntry
  rw [if_neg (Nat.not_lt.mpr ho), hloop]
  rfl

/-- **`__pop_freelist_entry`** of a page offset: the first entry for it is returned, unlinked. -/
theorem popFreelistEntry_present (ho : order ≤ maxOrder) (h : Encodes heap order (front ++ a :: rest))
    (hfront : ∀ b ∈ front, (heap.entry b).pageOffset ≠ pageOffset) (ha : (heap.entry a).pageOffset = pageOffset) :
    ∃ after, Popped heap after order (front ++ a :: rest) a ∧
      ∀ n, front.length < n → popFreelistEntry n heap pageOffset order = .ok (a, after) := by
  have hane : a ≠ 0 := h.placed.ne_zero a (by simp)
  have hloop : ∀ n, front.length < n →
      popLoop heap pageOffset n 0 (heap.freelists order) = .ok (front.getLastD 0, a) := by
    intro n hn
    exact popLoop_found h.chain h.placed.ne_zero hfront ha hn
  rcases List.eq_nil_or_concat' front with rfl | ⟨front, prev, rfl⟩
  · obtain ⟨hhead, -⟩ := pointer_eq_some.mp h.chain.1
    refine ⟨_, popped_first h, ?_⟩
    intro n hn
    exact popFreelistEntry_first ho (hloop n hn) hane hhead.symm
  · -- The loop has stopped behind `prev`, and the head is in front of `a`.
    have hprev : prev ≠ 0 := h.placed.ne_zero prev (by simp)
    have hhead : a ≠ heap.freelists order := by
      intro hhead
      have hfirst : pointer (heap.freelists order) = (front ++ [prev]).head? := by
        rw [h.chain.head_eq, List.head?_append_of_ne_nil]
        simp
      rw [← hhead, pointer_of_ne hane] at hfirst
      exact hfront a (List.mem_of_mem_head? hfirst.symm) ha
    rw [List.getLastD_concat] at hloop
    rw [List.append_assoc, List.singleton_append] at h ⊢
    refine ⟨_, popped_later h, ?_⟩
    intro n hn
    exact popFreelistEntry_later ho (hloop n hn) hane hhead hprev

/-! ## A new entry -/

/-- The heap after the entry is put in front of the freelist at `addrs`. -/
structure Pushed (h h' : EntryHeap) (order : Nat) (addrs : List Nat) (entry pageOffset : Nat) : Prop where
  encodes : Encodes h' order (entry :: addrs)
  offset : (h'.entry entry).pageOffset = storedOffset pageOffset
  frame : ∀ b, b ≠ entry → h'.entry b = h.entry b
  heads : ∀ other, other ≠ order → h'.freelists other = h.freelists other

/-- The link of an entry in front of the freelist. -/
def EntryHeap.frontLink (h : EntryHeap) (order entry : Nat) : Int :=
  if h.freelists order = 0 then 0 else entryDiff (h.freelists order) entry

/-- The heap with the entry in front of the freelist. -/
def EntryHeap.pushed (h : EntryHeap) (entry pageOffset order : Nat) : EntryHeap :=
  ((h.setNext entry (h.frontLink order entry)).setPageOffset entry pageOffset).setHead order entry

theorem entry_pushed_self : (h.pushed a pageOffset order).entry a =
    ⟨toS32 (h.frontLink order a), storedOffset pageOffset, (h.entry a).flags⟩ := by
  show Function.update _ a _ a = _
  rw [Function.update_self, entry_setNext_self]

theorem entry_pushed (hab : b ≠ a) : (h.pushed a pageOffset order).entry b = h.entry b := by
  show Function.update _ a _ b = _
  rw [Function.update_of_ne hab, entry_setNext hab]

/-- The link in front leads to the old head, and fits. -/
theorem next_frontLink (pageOffset : Nat) (h : Encodes heap order addrs) (hplaced : Placed (a :: addrs)) :
    (heap.pushed a pageOffset order).next a = pointer (heap.freelists order) ∧
      -2 ^ 31 ≤ toS32 (heap.frontLink order a) ∧ toS32 (heap.frontLink order a) < 2 ^ 31 := by
  by_cases hempty : heap.freelists order = 0
  · have hlink : heap.frontLink order a = 0 := if_pos hempty
    have hnone : pointer (heap.freelists order) = none := pointer_eq_none.mpr hempty
    rw [hnone, next_eq_none, entry_pushed_self, hlink]
    show toS32 0 = 0 ∧ -2 ^ 31 ≤ toS32 0 ∧ toS32 0 < 2 ^ 31
    decide
  · have hlink : heap.frontLink order a = entryDiff (heap.freelists order) a := if_neg hempty
    have hhead := h.chain.head_eq
    rw [pointer_of_ne hempty] at hhead
    have hmem : heap.freelists order ∈ addrs := List.mem_of_mem_head? hhead.symm
    have hne : heap.freelists order ≠ a := by
      intro heq
      rw [heq] at hmem
      exact (List.nodup_cons.mp hplaced.nodup).1 hmem
    obtain ⟨hdist, hfits⟩ := hplaced.toS32_entryDiff List.mem_cons_self (List.mem_cons_of_mem a hmem)
    rw [hlink, pointer_of_ne hempty]
    refine ⟨?_, hfits⟩
    apply next_eq_some (h.placed.aligned _ hmem).2.2 hne
    rw [entry_pushed_self, hlink]
    exact hdist

/-- **`__allocate_freelist_entry`** of an entry at a place of its own: it becomes the first one. -/
theorem allocateFreelistEntry_pushed (pageOffset : Nat) (ho : order ≤ maxOrder) (h : Encodes heap order addrs)
    (hplaced : Placed (a :: addrs)) :
    allocateFreelistEntry heap a pageOffset order = .ok (heap.pushed a pageOffset order) ∧
      Pushed heap (heap.pushed a pageOffset order) order addrs a pageOffset := by
  have hane : a ≠ 0 := hplaced.ne_zero a List.mem_cons_self
  have hfresh : a ∉ addrs := (List.nodup_cons.mp hplaced.nodup).1
  have hother : ∀ b ∈ addrs, b ≠ a := by
    rintro b hb rfl
    exact hfresh hb
  obtain ⟨hnext, hfits⟩ := next_frontLink pageOffset h hplaced
  constructor
  · unfold allocateFreelistEntry
    rw [if_neg (Nat.not_lt.mpr ho), if_neg hane]
    rfl
  · refine ⟨⟨?_, hplaced, ?_⟩, ?_, fun b hb => entry_pushed hb, ?_⟩
    · have hhead : (heap.pushed a pageOffset order).freelists order = a := by
        show Function.update heap.freelists order a order = a
        rw [Function.update_self]
      rw [hhead, pointer_of_ne hane]
      apply h.chain.push hnext
      intro b hb
      apply next_congr
      rw [entry_pushed (hother b hb)]
    · intro b hb
      rcases List.mem_cons.mp hb with rfl | hb
      · rw [entry_pushed_self]
        exact hfits
      · rw [entry_pushed (hother b hb)]
        exact h.fits b hb
    · rw [entry_pushed_self]
    · intro other hne
      exact Function.update_of_ne hne a heap.freelists

/-! ## Both -/

/-- The first entry for a page offset. -/
theorem exists_first {f : Nat → Nat} (hmem : pageOffset ∈ addrs.map f) :
    ∃ front a rest, addrs = front ++ a :: rest ∧ f a = pageOffset ∧ ∀ b ∈ front, f b ≠ pageOffset := by
  obtain ⟨offsets, later, hsplit, hnone⟩ := List.eq_append_cons_of_mem hmem
  obtain ⟨front, tail, rfl, rfl, htail⟩ := List.map_eq_append_iff.mp hsplit
  obtain ⟨a, rest, rfl, ha, -⟩ := List.map_eq_cons_iff.mp htail
  refine ⟨front, a, rest, rfl, ha, ?_⟩
  intro b hb hbo
  exact hnone (hbo ▸ List.mem_map_of_mem hb)

/-- **Removal from and insertion in a freelist linked by offsets.** An entry is found by its page offset and taken off,
    wherever it is; the rest stays in order. A page offset that no entry has changes nothing. A new entry comes first. All
    links of the freelist that is left are exact, so none is cut to its field. -/
theorem freelist_pop_push (ho : order ≤ maxOrder) (h : Encodes heap order addrs)
    (hdistinct : (addrs.map fun a => (heap.entry a).pageOffset).Nodup) :
    (∀ a ∈ addrs, ∃ after, Popped heap after order addrs a ∧ ExactLinks after (addrs.erase a) ∧
      ∀ n, addrs.length < n → popFreelistEntry n heap (heap.entry a).pageOffset order = .ok (a, after)) ∧
    (∀ pageOffset, (∀ a ∈ addrs, (heap.entry a).pageOffset ≠ pageOffset) →
      ∀ n, addrs.length < n → popFreelistEntry n heap pageOffset order = .ok (0, heap)) ∧
    ∀ entry pageOffset, Placed (entry :: addrs) → ∃ after, Pushed heap after order addrs entry pageOffset ∧
      ExactLinks after (entry :: addrs) ∧ allocateFreelistEntry heap entry pageOffset order = .ok after := by
  refine ⟨?_, ?_, ?_⟩
  · intro a ha
    obtain ⟨front, rest, rfl⟩ := List.append_of_mem ha
    have hfront : ∀ b ∈ front, (heap.entry b).pageOffset ≠ (heap.entry a).pageOffset := by
      rw [List.map_append, List.map_cons] at hdistinct
      intro b hb
      exact (List.nodup_append.mp hdistinct).2.2 _ (List.mem_map_of_mem hb) _ List.mem_cons_self
    obtain ⟨after, hpopped, hrun⟩ := popFreelistEntry_present ho h hfront rfl
    refine ⟨after, hpopped, hpopped.encodes.exactLinks, ?_⟩
    intro n hn
    apply hrun
    rw [List.length_append] at hn
    exact Nat.lt_of_le_of_lt (Nat.le_add_right _ _) hn
  · intro pageOffset habsent n hn
    exact popFreelistEntry_absent ho h habsent hn
  · intro entry pageOffset hplaced
    obtain ⟨hrun, hpushed⟩ := allocateFreelistEntry_pushed pageOffset ho h hplaced
    exact ⟨_, hpushed, hpushed.encodes.exactLinks, hrun⟩

/-- Three entries, the one in the middle at the highest address; the freelist of order 3. -/
def threeEntries : EntryHeap where
  entry := fun a =>
    if a = 0xA000 then ⟨0x400, 8, 0⟩ else if a = 0xC000 then ⟨-0x600, 24, 0⟩ else if a = 0x9000 then ⟨0, 40, 0⟩
    else ⟨0, 0, 0⟩
  freelists := fun order => if order = 3 then 0xA000 else 0

theorem freelist_pop_push_three :
    (∀ a ∈ [0xA000, 0xC000, 0x9000], ∃ after, Popped threeEntries after 3 [0xA000, 0xC000, 0x9000] a ∧
      ExactLinks after ([0xA000, 0xC000, 0x9000].erase a) ∧ ∀ n, 3 < n →
        popFreelistEntry n threeEntries (threeEntries.entry a).pageOffset 3 = .ok (a, after)) ∧
    (∀ n, 3 < n → popFreelistEntry n threeEntries 7 3 = .ok (0, threeEntries)) ∧
    ∃ after, Pushed threeEntries after 3 [0xA000, 0xC000, 0x9000] 0xB000 56 ∧
      ExactLinks after [0xB000, 0xA000, 0xC000, 0x9000] ∧ allocateFreelistEntry threeEntries 0xB000 56 3 = .ok after := by
  have hplaced : Placed [0xA000, 0xC000, 0x9000] := ⟨by decide, by decide, by decide⟩
  have hencodes : Encodes threeEntries 3 [0xA000, 0xC000, 0x9000] :=
    ⟨⟨rfl, rfl, rfl, rfl⟩, hplaced, by decide⟩
  have hplaced' : Placed [0xB000, 0xA000, 0xC000, 0x9000] := ⟨by decide, by decide, by decide⟩
  obtain ⟨hpop, hnull, hpush⟩ := freelist_pop_push (by decide) hencodes (by decide)
  exact ⟨hpop, hnull 7 (by decide), hpush 0xB000 56 hplaced'⟩

/-! ## The freelists of the model -/

/-- The freelists in memory are those of the machine, each at its own places. -/
structure Represents {V : Type} (h : EntryHeap) (m : Machine V) (lists : Nat → List Nat) : Prop where
  encodes : ∀ order ≤ maxOrder, Encodes h order (lists order)
  apart : ∀ order ≤ maxOrder, ∀ other ≤ maxOrder, other ≠ order → ∀ a ∈ lists order, a ∉ lists other
  offsets : ∀ order ≤ maxOrder, m.freelists order = (lists order).map fun a => (h.entry a).pageOffset

/-- A freelist none of whose entries is written is as it was. -/
theorem Encodes.congr (hencodes : Encodes h order addrs) (hhead : h'.freelists order = h.freelists order)
    (hsame : ∀ a ∈ addrs, h'.entry a = h.entry a) : Encodes h' order addrs where
  chain := by
    rw [hhead]
    apply hencodes.chain.congr
    intro a ha
    apply next_congr
    rw [hsame a ha]
  placed := hencodes.placed
  fits := by
    intro a ha
    rw [hsame a ha]
    exact hencodes.fits a ha

variable {V : Type} {m : Machine V} {lists : Nat → List Nat}

/-- One freelist is replaced, at places that are on no other one. -/
theorem Represents.update (hr : Represents heap m lists) (ho : order ≤ maxOrder) (hencodes : Encodes h order addrs)
    (hheads : ∀ other, other ≠ order → h.freelists other = heap.freelists other)
    (hframe : ∀ b ∉ addrs, h.entry b = heap.entry b)
    (hapart : ∀ other ≤ maxOrder, other ≠ order → ∀ b ∈ addrs, b ∉ lists other) :
    Represents h (m.setFreelist order (addrs.map fun a => (h.entry a).pageOffset))
      (Function.update lists order addrs) := by
  have hsame : ∀ other ≤ maxOrder, other ≠ order → ∀ b ∈ lists other, h.entry b = heap.entry b := by
    intro other hother hne b hb
    apply hframe
    intro hmem
    exact hapart other hother hne b hmem hb
  refine ⟨?_, ?_, ?_⟩
  · intro other hother
    by_cases hne : other = order
    · subst hne
      rw [Function.update_self]
      exact hencodes
    · rw [Function.update_of_ne hne]
      exact (hr.encodes other hother).congr (hheads other hne) (hsame other hother hne)
  · intro one hone other hother hne b hb
    by_cases hone' : one = order
    · subst hone'
      rw [Function.update_self] at hb
      rw [Function.update_of_ne hne]
      exact hapart other hother hne b hb
    · rw [Function.update_of_ne hone'] at hb
      by_cases hother' : other = order
      · subst hother'
        rw [Function.update_self]
        intro hmem
        exact hapart one hone hone' b hmem hb
      · rw [Function.update_of_ne hother']
        exact hr.apart one hone other hother hne b hb
  · intro other hother
    rw [setFreelist_freelists]
    by_cases hne : other = order
    · subst hne
      rw [Function.update_self, Function.update_self]
    · rw [Function.update_of_ne hne, Function.update_of_ne hne, hr.offsets other hother]
      apply List.map_congr_left
      intro b hb
      rw [hsame other hother hne b hb]

theorem erase_map_first {f : Nat → Nat} (hfront : ∀ b ∈ front, f b ≠ f a) :
    ((front ++ a :: rest).map f).erase (f a) = ((front ++ a :: rest).erase a).map f := by
  have hoffset : f a ∉ front.map f := by
    intro hmem
    obtain ⟨b, hb, hba⟩ := List.mem_map.mp hmem
    exact hfront b hb hba
  have hplace : a ∉ front := fun hmem => hfront a hmem rfl
  rw [List.map_append, List.map_cons, List.erase_append_right _ hoffset, List.erase_cons_head,
    List.erase_append_right _ hplace, List.erase_cons_head, List.map_append]

/-- **`__pop_freelist_entry` of the model is the one on the entries.** -/
theorem Represents.pop (hr : Represents heap m lists) (ho : order ≤ maxOrder) (pageOffset : Nat) :
    ∃ a after m', (∀ n, (lists order).length < n → popFreelistEntry n heap pageOffset order = .ok (a, after)) ∧
      LearningOS.popFreelistEntry m pageOffset order = .ok (decide (a ≠ 0), m') ∧
      Represents after m' (Function.update lists order ((lists order).erase a)) := by
  have hencodes := hr.encodes order ho
  have hoffsets := hr.offsets order ho
  by_cases hmem : pageOffset ∈ m.freelists order
  · have hmem' := hmem
    rw [hoffsets] at hmem'
    obtain ⟨front, a, rest, hsplit, rfl, hfront⟩ := exists_first hmem'
    rw [hsplit] at hencodes hoffsets ⊢
    obtain ⟨after, hpopped, hrun⟩ := popFreelistEntry_present ho hencodes hfront rfl
    have hane : a ≠ 0 := hencodes.placed.ne_zero a (by simp)
    refine ⟨a, after, m.setFreelist order ((m.freelists order).erase (heap.entry a).pageOffset), ?_, ?_, ?_⟩
    · intro n hn
      apply hrun
      rw [List.length_append] at hn
      exact Nat.lt_of_le_of_lt (Nat.le_add_right _ _) hn
    · rw [decide_eq_true hane, popFreelistEntry_ok]
      exact ⟨ho, .inl ⟨rfl, hmem, rfl⟩⟩
    · have hcontent : (fun b => (heap.entry b).pageOffset) = fun b => (after.entry b).pageOffset := by
        funext b
        rw [(hpopped.content b).1]
      have herase : (m.freelists order).erase (heap.entry a).pageOffset =
          ((front ++ a :: rest).erase a).map fun b => (after.entry b).pageOffset := by
        rw [hoffsets, ← hcontent]
        exact erase_map_first hfront
      rw [herase]
      apply hr.update ho hpopped.encodes hpopped.heads hpopped.frame
      intro other hother hne b hb
      apply hr.apart order ho other hother hne
      rw [hsplit]
      exact List.mem_of_mem_erase hb
  · have habsent : ∀ a ∈ lists order, (heap.entry a).pageOffset ≠ pageOffset := by
      rintro a ha rfl
      apply hmem
      rw [hoffsets]
      exact List.mem_map_of_mem ha
    refine ⟨0, heap, m, fun n hn => popFreelistEntry_absent ho hencodes habsent hn, ?_, ?_⟩
    · rw [popFreelistEntry_ok]
      exact ⟨ho, .inr ⟨rfl, hmem, rfl⟩⟩
    · have hzero : 0 ∉ lists order := fun h0 => hencodes.placed.ne_zero 0 h0 rfl
      rw [List.erase_of_not_mem hzero, Function.update_eq_self]
      exact hr

/-- **So is `__allocate_freelist_entry`**, with an entry that is on no freelist. -/
theorem Represents.push {entry : Nat} (hr : Represents heap m lists) (ho : order ≤ maxOrder) (pageOffset : Nat)
    (hplaced : Placed (entry :: lists order)) (hfresh : ∀ other ≤ maxOrder, entry ∉ lists other) :
    ∃ after m', allocateFreelistEntry heap entry pageOffset order = .ok after ∧
      linkEntry m order (storedOffset pageOffset) = .ok m' ∧
      Represents after m' (Function.update lists order (entry :: lists order)) := by
  obtain ⟨hrun, hpushed⟩ := allocateFreelistEntry_pushed pageOffset ho (hr.encodes order ho) hplaced
  refine ⟨_, _, hrun, linkEntry_ok.mpr ⟨ho, rfl⟩, ?_⟩
  generalize heap.pushed entry pageOffset order = after at hpushed
  have hoffsets : storedOffset pageOffset :: m.freelists order =
      (entry :: lists order).map fun a => (after.entry a).pageOffset := by
    rw [List.map_cons, hpushed.offset, hr.offsets order ho]
    congr 1
    apply List.map_congr_left
    rintro b hb
    rw [hpushed.frame b]
    rintro rfl
    exact hfresh order ho hb
  rw [hoffsets]
  apply hr.update ho hpushed.encodes hpushed.heads
  · intro b hb
    apply hpushed.frame
    rintro rfl
    exact hb List.mem_cons_self
  · intro other hother hne b hb
    rcases List.mem_cons.mp hb with rfl | hb
    · exact hfresh other hother
    · exact hr.apart order ho other hother hne b hb

end LearningOS.Freelist
