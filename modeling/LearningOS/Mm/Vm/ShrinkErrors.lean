import LearningOS.Mm.Vm.Containment

/-!
# `Mm.Vm.ShrinkErrors` — when `vmzone_shrink` fails and what it has done by then

Both loops of `vmzone_shrink` walk down page by page, and at the first entry of a page table they look up the table
below, whether more pages remain or not. `TableBelow` is that there is one. The entries that are read are all of the
page table of the last mapped page.

* `shrinkLoop_finds`, `shrinkLoop_fails` — the first loop comes to its end exactly if each table it asks for is there;
* `shrinkLoop_error_iff` — what a loop that fails has changed;
* `blockStart_iff` — the second loop finds the first entry of its block or asks for a table that is missing;
* `shrink_errors_iff` — both for runs that grow and shrink the heap and for any state.
-/

namespace LearningOS.Paging

open Word Run Radix

/-! ## Pages below the cursor -/

/-- The `i`-th page below an address. -/
abbrev pageBelow (c i : Nat) : Nat := sub64 c (i * pageSize)

/-- Where a page table begins at page `i` below the cursor, the page below has a page table too. -/
def TableBelow (vm : VmSpace) (c i : Nat) : Prop :=
  ptOffset (pageBelow c i) = 0 → findPtOrNull vm (pageBelow c (i + 1)) ≠ none

instance (vm : VmSpace) (c i : Nat) : Decidable (TableBelow vm c i) := inferInstanceAs (Decidable (_ → _))

/-- The walk to an address does not pass through the table `f` on a higher level. -/
def ApartFrom (vm : VmSpace) (f addr : Nat) : Prop := ∀ d, d < 3 → nodeOf vm d (path addr d) ≠ some f

theorem pageBelow_zero {c : Nat} (hc : c < 2 ^ 64) : pageBelow c 0 = c := by
  unfold pageBelow
  rw [Nat.zero_mul]
  exact sub64_of_le hc (Nat.zero_le c)

theorem pageBelow_add (c i j : Nat) : pageBelow (pageBelow c i) j = pageBelow c (i + j) := by
  show (((c + 2 ^ 64 - i * 4096 % 2 ^ 64) % 2 ^ 64) + 2 ^ 64 - j * 4096 % 2 ^ 64) % 2 ^ 64 =
    (c + 2 ^ 64 - (i + j) * 4096 % 2 ^ 64) % 2 ^ 64
  omega

theorem ptOffset_below (c : Nat) :
    ptOffset (pageBelow c 1) = if ptOffset c = 0 then 511 else ptOffset c - 1 := by
  rw [ptOffset_eq, ptOffset_eq]
  show (c + 2 ^ 64 - 1 * 4096 % 2 ^ 64) % 2 ^ 64 / 4096 % 512 = _
  by_cases h : c / 4096 % 512 = 0
  · rw [if_pos h]
    omega
  · rw [if_neg h]
    omega

/-- A lookup does not see what is written into a table it does not pass through. -/
theorem findPtOrNull_apart {vm vm' : VmSpace} {f addr : Nat} (hroot : vm'.pml4t = vm.pml4t)
    (hsame : ∀ g, g ≠ f → vm'.tables g = vm.tables g) (hapart : ApartFrom vm f addr) :
    findPtOrNull vm' addr = findPtOrNull vm addr := by
  have hwalk : ∀ h d table, d + h = 3 → nodeOf vm d (path addr d) = some table →
      findBelow vm'.tables addr h table = findBelow vm.tables addr h table := by
    intro h
    induction h with
    | zero => exact fun _ _ _ _ => rfl
    | succ h ih =>
        intro d table hd hnode
        have hne : table ≠ f := fun he => hapart d (by omega) (he ▸ hnode)
        unfold findBelow
        simp only [hsame table hne]
        cases hp : (vm.tables table (heightOffset addr (h + 1))).present with
        | false => rfl
        | true =>
            refine ih (d + 1) _ (by omega) ?_
            rw [nodeOf_succ, path_div addr (by omega), hnode, path_mod addr hd]
            show childOf _ = _
            rw [childOf, if_pos hp]
  unfold findPtOrNull
  rw [hroot]
  exact hwalk 3 0 vm.pml4t rfl rfl

/-! ## The first loop -/

section FirstLoop

variable {f : Nat}

/-- Only the present bits of entries of `f`, and the log, can be different. -/
structure OnlyPresent (f : Nat) (vm vm' : VmSpace) : Prop where
  tables : ∀ g, g ≠ f → vm'.tables g = vm.tables g
  behind : ∀ i, (vm'.tables f i).dataBehind = (vm.tables f i).dataBehind
  pml4t : vm'.pml4t = vm.pml4t
  zones : vm'.zones = vm.zones

theorem OnlyPresent.refl (f : Nat) (vm : VmSpace) : OnlyPresent f vm vm :=
  ⟨fun _ _ => rfl, fun _ => rfl, rfl, rfl⟩

theorem OnlyPresent.trans {vm vm' vm'' : VmSpace} (h : OnlyPresent f vm vm') (h' : OnlyPresent f vm' vm'') :
    OnlyPresent f vm vm'' :=
  ⟨fun g hg => (h'.tables g hg).trans (h.tables g hg), fun i => (h'.behind i).trans (h.behind i),
    h'.pml4t.trans h.pml4t, h'.zones.trans h.zones⟩

theorem OnlyPresent.lookup {vm vm' : VmSpace} (h : OnlyPresent f vm vm') {addr : Nat} (hapart : ApartFrom vm f addr) :
    findPtOrNull vm' addr = findPtOrNull vm addr :=
  findPtOrNull_apart h.pml4t h.tables hapart

/-- A turn of the loop clears one present bit. -/
theorem onlyPresent_afterTurn (s : ShrinkState) : OnlyPresent f s.vm (afterTurn f s).1 := by
  have hsame := afterTurn_same f s
  refine ⟨fun g hg => ?_, fun i => ?_, hsame.pml4t, hsame.zones⟩
  · rw [hsame.tables]
    funext j
    exact set_of_ne_table hg
  · rw [hsame.tables]
    show (Radix.set s.vm.tables f s.nextOffset _ f i).dataBehind = _
    by_cases hi : i = s.nextOffset
    · subst hi
      rw [set_self]
      rfl
    · rw [set_of_ne_index hi]

/-- A path node that is not `f` is where it was. -/
theorem ApartFrom.keep {vm vm' : VmSpace} {addr : Nat} (h : ApartFrom vm f addr) (hk : OnlyPresent f vm vm') :
    ApartFrom vm' f addr := by
  have hnode : ∀ d, d ≤ 3 → nodeOf vm' d (path addr d) = nodeOf vm d (path addr d) := by
    intro d
    induction d with
    | zero =>
        intro _
        show some vm'.pml4t = some vm.pml4t
        rw [hk.pml4t]
    | succ d ih =>
        intro hd
        rw [nodeOf_succ, nodeOf_succ, path_div addr (by omega), ih (by omega)]
        cases hn : nodeOf vm d (path addr d) with
        | none => rfl
        | some g =>
            have hg : g ≠ f := fun he => h d (by omega) (he ▸ hn)
            show childOf (vm'.tables g _) = childOf (vm.tables g _)
            rw [hk.tables g hg]
  intro d hd
  rw [hnode d (by omega)]
  exact h d hd

theorem TableBelow.congr {vm vm' : VmSpace} {c i : Nat} (hk : OnlyPresent f vm vm')
    (hapart : ApartFrom vm f (pageBelow c (i + 1))) : TableBelow vm' c i ↔ TableBelow vm c i := by
  unfold TableBelow
  rw [hk.lookup hapart]

/-- What the first loop leaves when it has come to its end. -/
structure Walked (f pages : Nat) (s s' : ShrinkState) : Prop where
  cursor : s'.cursor = pageBelow s.cursor pages
  offset : s'.nextOffset = ptOffset s'.cursor
  same : OnlyPresent f s.vm s'.vm
  small : s'.currentBlockSize ≤ s.currentBlockSize + pages
  size : 0 < pages → (0 < s'.currentBlockSize ↔
    (s.vm.tables f (ptOffset (pageBelow s.cursor (pages - 1)))).dataBehind = true)
  rest : pages = 0 → s'.currentBlockSize = s.currentBlockSize

/-- The state of the first loop at an address: the offset is its own, and the count of pages does not wrap around. -/
structure AtAddress (s : ShrinkState) (pages : Nat) : Prop where
  offset : s.nextOffset = ptOffset s.cursor
  cursor : s.cursor < 2 ^ 64
  size : s.currentBlockSize + pages < 256

/-- A turn goes on if the page table below is there, should it be asked for. -/
theorem shrinkTurn_finds {s : ShrinkState} (hat : AtAddress s 1) (hapart : ApartFrom s.vm f (pageBelow s.cursor 1))
    (hbelow : TableBelow s.vm s.cursor 0) : ∃ s1, shrinkTurn f s = .ok s1 ∧ Walked f 1 s s1 := by
  have hk := onlyPresent_afterTurn (f := f) s
  have hlook := hk.lookup hapart
  have hcur : sub64 s.cursor pageSize = pageBelow s.cursor 1 := rfl
  have hsize := hat.size
  have hcount : (afterTurn f s).2 ≤ s.currentBlockSize + 1 ∧
      (0 < (afterTurn f s).2 ↔ (s.vm.tables f (ptOffset s.cursor)).dataBehind = true) := by
    rw [← hat.offset]
    have hsum : addW 8 s.currentBlockSize 1 = s.currentBlockSize + 1 := addW_of_lt (by omega)
    cases hb : (s.vm.tables f s.nextOffset).dataBehind with
    | true =>
        rw [afterTurn_behind hb, hsum]
        exact ⟨Nat.le_refl _, fun _ => rfl, fun _ => Nat.succ_pos _⟩
    | false =>
        rw [afterTurn_start hb]
        exact ⟨Nat.zero_le _, fun h => absurd h (Nat.lt_irrefl 0), nofun⟩
  have hwalked : ∀ s1 : ShrinkState, s1.vm = (afterTurn f s).1 → s1.cursor = pageBelow s.cursor 1 →
      s1.currentBlockSize = (afterTurn f s).2 → s1.nextOffset = ptOffset (pageBelow s.cursor 1) → Walked f 1 s s1 := by
    intro s1 hvm hc hs ho
    refine ⟨hc, by rw [ho, hc], hvm ▸ hk, by rw [hs]; exact hcount.1, fun _ => ?_, nofun⟩
    rw [hs, Nat.sub_self, pageBelow_zero hat.cursor]
    exact hcount.2
  rw [shrinkTurn_eq]
  by_cases h0 : s.nextOffset = 0
  · rw [if_pos h0, hcur, hlook]
    have hsome := hbelow (by rw [pageBelow_zero hat.cursor, ← hat.offset]; exact h0)
    obtain ⟨t, ht⟩ := Option.ne_none_iff_exists'.mp hsome
    rw [ht]
    refine ⟨_, rfl, hwalked _ rfl rfl rfl ?_⟩
    rw [ptOffset_below, if_pos (by rw [← hat.offset]; exact h0)]
  · rw [if_neg h0]
    refine ⟨_, rfl, hwalked _ rfl rfl rfl ?_⟩
    rw [ptOffset_below, if_neg (by rw [← hat.offset]; exact h0), hat.offset]

/-- A turn fails if the page table below is asked for and missing, after the bit was cleared. -/
theorem shrinkTurn_fails {s : ShrinkState} (hat : AtAddress s 1) (hapart : ApartFrom s.vm f (pageBelow s.cursor 1))
    (hbelow : ¬ TableBelow s.vm s.cursor 0) : shrinkTurn f s = .error (.unmapped, (afterTurn f s).1) := by
  have hlook := (onlyPresent_afterTurn (f := f) s).lookup hapart
  have hcur : sub64 s.cursor pageSize = pageBelow s.cursor 1 := rfl
  unfold TableBelow at hbelow
  rw [pageBelow_zero hat.cursor, ← hat.offset, Classical.not_imp, not_not] at hbelow
  rw [shrinkTurn_eq, if_pos hbelow.1, hcur, hlook, hbelow.2]

theorem Walked.atAddress {s s1 : ShrinkState} {pages : Nat} (h : Walked f 1 s s1) (hat : AtAddress s (pages + 1)) :
    AtAddress s1 pages where
  offset := h.offset
  cursor := by
    rw [h.cursor]
    exact sub64_lt _ _
  size := by
    have h1 := h.small
    have h2 := hat.size
    omega

theorem Walked.step {s s1 s' : ShrinkState} {pages : Nat} (h : Walked f 1 s s1) (h' : Walked f pages s1 s') :
    Walked f (pages + 1) s s' where
  cursor := by
    rw [h'.cursor, h.cursor, pageBelow_add, Nat.add_comm]
  offset := h'.offset
  same := h.same.trans h'.same
  small := by
    have h1 := h.small
    have h2 := h'.small
    omega
  size := fun _ => by
    rw [Nat.add_sub_cancel]
    rcases Nat.eq_zero_or_pos pages with rfl | hpos
    · rw [h'.rest rfl]
      exact h.size Nat.one_pos
    · rw [h'.size hpos, h.cursor, pageBelow_add, show 1 + (pages - 1) = pages by omega, h.same.behind]
  rest := nofun

section Shift

variable {s s1 : ShrinkState} (h : Walked f 1 s s1)
include h

theorem Walked.shift (j : Nat) : pageBelow s1.cursor j = pageBelow s.cursor (j + 1) := by
  rw [h.cursor, pageBelow_add, Nat.add_comm]

theorem Walked.apart {pages : Nat} (hapart : ∀ j, j ≤ pages + 1 → ApartFrom s.vm f (pageBelow s.cursor j)) :
    ∀ j, j ≤ pages → ApartFrom s1.vm f (pageBelow s1.cursor j) := by
  intro j hj
  rw [h.shift]
  exact (hapart (j + 1) (Nat.succ_le_succ hj)).keep h.same

theorem Walked.tableBelow {j : Nat} (hapart : ApartFrom s.vm f (pageBelow s.cursor (j + 1 + 1))) :
    TableBelow s1.vm s1.cursor j ↔ TableBelow s.vm s.cursor (j + 1) := by
  unfold TableBelow
  rw [h.shift, h.shift, h.same.lookup hapart]

end Shift

theorem AtAddress.one {s : ShrinkState} {pages : Nat} (h : AtAddress s (pages + 1)) : AtAddress s 1 where
  offset := h.offset
  cursor := h.cursor
  size := by
    have := h.size
    omega

/-- **The first loop comes to its end** if each page table it asks for is there. -/
theorem shrinkLoop_finds :
    ∀ pages (s : ShrinkState), AtAddress s pages → (∀ j, j ≤ pages → ApartFrom s.vm f (pageBelow s.cursor j)) →
      (∀ j, j < pages → TableBelow s.vm s.cursor j) → ∃ s', shrinkLoop f pages s = .ok s' ∧ Walked f pages s s' := by
  intro pages
  induction pages with
  | zero =>
      intro s hat _ _
      refine ⟨s, rfl, ?_, hat.offset, .refl f s.vm, Nat.le_refl _, fun h => absurd h (Nat.lt_irrefl 0), fun _ => rfl⟩
      rw [pageBelow_zero hat.cursor]
  | succ pages ih =>
      intro s hat hapart hbelow
      obtain ⟨s1, hturn, hw⟩ := shrinkTurn_finds hat.one (hapart 1 (by omega)) (hbelow 0 (Nat.succ_pos pages))
      obtain ⟨s', hloop, hw'⟩ := ih s1 (hw.atAddress hat) (hw.apart hapart)
        (fun j hj => (hw.tableBelow (hapart (j + 1 + 1) (by omega))).mpr (hbelow (j + 1) (by omega)))
      refine ⟨s', ?_, hw.step hw'⟩
      unfold shrinkLoop
      rw [hturn, ok_bind]
      exact hloop

/-- **The first loop fails** if one of them is missing. -/
theorem shrinkLoop_fails :
    ∀ pages (s : ShrinkState), AtAddress s pages → (∀ j, j ≤ pages → ApartFrom s.vm f (pageBelow s.cursor j)) →
      (∃ j, j < pages ∧ ¬ TableBelow s.vm s.cursor j) → ∃ r, shrinkLoop f pages s = .error r := by
  intro pages
  induction pages with
  | zero =>
      rintro s - - ⟨j, hj, -⟩
      exact absurd hj (Nat.not_lt_zero j)
  | succ pages ih =>
      rintro s hat hapart ⟨j, hj, hmissing⟩
      unfold shrinkLoop
      by_cases hbelow : TableBelow s.vm s.cursor 0
      · obtain ⟨s1, hturn, hw⟩ := shrinkTurn_finds hat.one (hapart 1 (by omega)) hbelow
        cases j with
        | zero => exact absurd hbelow hmissing
        | succ j =>
            rw [hturn, ok_bind]
            exact ih s1 (hw.atAddress hat) (hw.apart hapart)
              ⟨j, by omega, fun h => hmissing ((hw.tableBelow (hapart (j + 1 + 1) (by omega))).mp h)⟩
      · rw [shrinkTurn_fails hat.one (hapart 1 (by omega)) hbelow]
        exact ⟨_, rfl⟩

/-! ### What a loop that fails has changed -/

/-- Clearing the present bit changes nothing, and no frames are given back. -/
def Idle (e : PtEntry) : Prop := e.present = false ∧ (e.dataBehind = true ∨ e.dataEarly = true)

instance (e : PtEntry) : Decidable (Idle e) := inferInstanceAs (Decidable (_ ∧ _))

/-- Present bits were cleared and calls made. -/
structure Fewer (vm vm' : VmSpace) : Prop where
  present : ∀ g i, (vm'.tables g i).present = true → (vm.tables g i).present = true
  calls : vm.calls.length ≤ vm'.calls.length

theorem fewer_freePhysBlock (vm : VmSpace) (e : PtEntry) (n : Nat) : Fewer vm (freePhysBlock vm e n) := by
  refine ⟨fun g i h => ?_, ?_⟩
  · rw [(freePhysBlock_same vm e n).tables] at h
    exact h
  · unfold freePhysBlock
    by_cases he : e.dataEarly = true
    · rw [if_pos he]
    · rw [if_neg he]
      exact Nat.le_succ _

theorem Fewer.trans {vm vm' vm'' : VmSpace} (h : Fewer vm vm') (h' : Fewer vm' vm'') : Fewer vm vm'' :=
  ⟨fun g i hp => h.present g i (h'.present g i hp), h.calls.trans h'.calls⟩

theorem fewer_store (vm : VmSpace) (i : Nat) : Fewer vm (vm.store f i (vm.tables f i).cleared) := by
  refine ⟨fun g j h => ?_, Nat.le_refl _⟩
  have h : (Radix.set vm.tables f i (vm.tables f i).cleared g j).present = true := h
  by_cases hg : g = f
  · subst hg
    by_cases hj : j = i
    · subst hj
      rw [set_self] at h
      cases h
    · rwa [set_of_ne_index hj] at h
  · rwa [set_of_ne_table hg] at h

theorem fewer_afterTurn (s : ShrinkState) : Fewer s.vm (afterTurn f s).1 := by
  cases hb : (s.vm.tables f s.nextOffset).dataBehind with
  | true =>
      rw [afterTurn_behind hb]
      exact fewer_store s.vm _
  | false =>
      rw [afterTurn_start hb]
      exact (fewer_store s.vm _).trans (fewer_freePhysBlock _ _ _)

theorem store_cleared {vm : VmSpace} {i : Nat} (h : (vm.tables f i).present = false) :
    vm.store f i (vm.tables f i).cleared = vm := by
  have hsame : (vm.tables f i).cleared = vm.tables f i := by
    unfold PtEntry.cleared
    rw [← h]
  have hset : Radix.set vm.tables f i (vm.tables f i) = vm.tables := by
    unfold Radix.set
    rw [Function.update_eq_self, Function.update_eq_self]
  unfold VmSpace.store
  rw [hsame, hset]

/-- Where nothing was changed in the end, the first turn changed nothing. -/
theorem idle_of_unchanged {s : ShrinkState} {vm' : VmSpace} (h : Fewer (afterTurn f s).1 vm') (he : vm' = s.vm) :
    Idle (s.vm.tables f s.nextOffset) := by
  subst he
  have hp : (s.vm.tables f s.nextOffset).present = false := by
    by_contra hpres
    have hcleared := h.present f s.nextOffset (Bool.not_eq_false _ ▸ hpres)
    rw [(afterTurn_same f s).tables] at hcleared
    have hcleared : (Radix.set s.vm.tables f s.nextOffset _ f s.nextOffset).present = true := hcleared
    rw [set_self] at hcleared
    cases hcleared
  refine ⟨hp, ?_⟩
  cases hb : (s.vm.tables f s.nextOffset).dataBehind with
  | true => exact Or.inl rfl
  | false =>
      right
      by_contra hearly
      have hcalls := h.calls
      rw [afterTurn_start hb] at hcalls
      unfold freePhysBlock at hcalls
      rw [if_neg (show ¬ (s.vm.tables f s.nextOffset).cleared.dataEarly = true from hearly)] at hcalls
      exact absurd hcalls (Nat.not_succ_le_self _)

/-- A turn changes nothing exactly if its entry is idle. -/
theorem afterTurn_eq_iff (s : ShrinkState) : (afterTurn f s).1 = s.vm ↔ Idle (s.vm.tables f s.nextOffset) := by
  constructor
  · exact idle_of_unchanged ⟨fun _ _ h => h, Nat.le_refl _⟩
  · rintro ⟨hp, hb | he⟩
    · rw [afterTurn_behind hb]
      exact store_cleared hp
    · cases hb : (s.vm.tables f s.nextOffset).dataBehind with
      | true =>
          rw [afterTurn_behind hb]
          exact store_cleared hp
      | false =>
          rw [afterTurn_start hb]
          unfold freePhysBlock
          rw [if_pos (show (s.vm.tables f s.nextOffset).cleared.dataEarly = true from he)]
          exact store_cleared hp

theorem shrinkLoop_error_fewer :
    ∀ pages (s : ShrinkState) r, shrinkLoop f pages s = .error r → Fewer s.vm r.2 := by
  intro pages
  induction pages with
  | zero => exact fun s r h => by cases h
  | succ pages ih =>
      intro s r h
      rcases bind_eq_error.mp h with hturn | ⟨s1, hturn, hrest⟩
      · rw [shrinkTurn_error hturn]
        exact fewer_afterTurn s
      · have h1 := ih s1 r hrest
        rw [(shrinkTurn_ok hturn).1] at h1
        exact (fewer_afterTurn s).trans h1

/-- **A first loop that fails leaves everything as it was** exactly if all entries down to a missing page table were
    idle. -/
theorem shrinkLoop_error_iff :
    ∀ pages (s : ShrinkState) r, AtAddress s pages → (∀ j, j ≤ pages → ApartFrom s.vm f (pageBelow s.cursor j)) →
      shrinkLoop f pages s = .error r →
      (r.2 = s.vm ↔ ∃ i, i < pages ∧ ¬ TableBelow s.vm s.cursor i ∧
        ∀ j, j ≤ i → Idle (s.vm.tables f (ptOffset (pageBelow s.cursor j)))) := by
  intro pages
  induction pages with
  | zero => exact fun s r _ _ h => by cases h
  | succ pages ih =>
      intro s r hat hapart h
      have hzero : ptOffset (pageBelow s.cursor 0) = s.nextOffset := by
        rw [pageBelow_zero hat.cursor, hat.offset]
      by_cases hbelow : TableBelow s.vm s.cursor 0
      · obtain ⟨s1, hturn, hw⟩ := shrinkTurn_finds hat.one (hapart 1 (by omega)) hbelow
        have hrest : shrinkLoop f pages s1 = .error r := by
          unfold shrinkLoop at h
          rw [hturn, ok_bind] at h
          exact h
        have hvm1 := (shrinkTurn_ok hturn).1
        have hiff := ih s1 r (hw.atAddress hat) (hw.apart hapart) hrest
        constructor
        · intro he
          have hidle := idle_of_unchanged (hvm1 ▸ shrinkLoop_error_fewer pages s1 r hrest) he
          have hsame : s1.vm = s.vm := hvm1.trans ((afterTurn_eq_iff s).mpr hidle)
          obtain ⟨i, hi, hmissing, hall⟩ := hiff.mp (he.trans hsame.symm)
          refine ⟨i + 1, by omega, fun hb => hmissing ((hw.tableBelow (hapart (i + 1 + 1) (by omega))).mpr hb),
            fun j hj => ?_⟩
          cases j with
          | zero =>
              rw [hzero]
              exact hidle
          | succ j =>
              have hj' := hall j (by omega)
              rwa [hw.shift, hsame] at hj'
        · rintro ⟨i, hi, hmissing, hall⟩
          have hidle := hall 0 (Nat.zero_le i)
          rw [hzero] at hidle
          have hsame : s1.vm = s.vm := hvm1.trans ((afterTurn_eq_iff s).mpr hidle)
          cases i with
          | zero => exact absurd hbelow hmissing
          | succ i =>
              refine (hiff.mpr ⟨i, by omega, fun hb => hmissing ((hw.tableBelow (hapart (i + 1 + 1) (by omega))).mp hb),
                fun j hj => ?_⟩).trans hsame
              rw [hw.shift, hsame]
              exact hall (j + 1) (by omega)
      · have hturn := shrinkTurn_fails hat.one (hapart 1 (by omega)) hbelow
        have hr : r = (.unmapped, (afterTurn f s).1) := by
          unfold shrinkLoop at h
          rw [hturn, error_bind] at h
          exact (Except.error.inj h).symm
        rw [hr, afterTurn_eq_iff]
        constructor
        · intro hidle
          refine ⟨0, Nat.succ_pos pages, hbelow, fun j hj => ?_⟩
          obtain rfl : j = 0 := by omega
          rw [hzero]
          exact hidle
        · rintro ⟨i, -, -, hall⟩
          rw [← hzero]
          exact hall 0 (Nat.zero_le i)

end FirstLoop

/-! ## The second loop -/

/-- **The second loop finds an entry that begins a block** exactly if there is one before a page table is missing. -/
theorem blockStart_iff (vm : VmSpace) (pt : Nat) :
    ∀ fuel c size, c < 2 ^ 64 → ((∃ p, blockStart vm pt fuel (ptOffset c) c size = .ok (.ok p)) ↔
      ∃ m, m < fuel ∧ (vm.tables pt (ptOffset (pageBelow c m))).dataBehind = false ∧
        ∀ j, j < m → TableBelow vm c j) := by
  intro fuel
  induction fuel with
  | zero =>
      intro c size _
      constructor
      · rintro ⟨p, hp⟩
        cases hp
      · rintro ⟨m, hm, -⟩
        exact absurd hm (Nat.not_lt_zero m)
  | succ fuel ih =>
      intro c size hc
      have hzero := pageBelow_zero hc
      have hcur : sub64 c pageSize = pageBelow c 1 := rfl
      cases hb : (vm.tables pt (ptOffset c)).dataBehind with
      | false =>
          refine ⟨fun _ => ⟨0, Nat.succ_pos fuel, by rw [hzero]; exact hb, fun j hj => absurd hj (Nat.not_lt_zero j)⟩,
            fun _ => ⟨(vm.tables pt (ptOffset c), addW 8 size 1), ?_⟩⟩
          unfold blockStart
          simp [hb]
      | true =>
          -- What the turns after this one find.
          have hnext := ih (pageBelow c 1) (addW 8 size 1) (sub64_lt _ _)
          have hshift : ∀ j, pageBelow (pageBelow c 1) j = pageBelow c (j + 1) := by
            intro j
            rw [pageBelow_add, Nat.add_comm]
          have hstep : TableBelow vm c 0 →
              blockStart vm pt (fuel + 1) (ptOffset c) c size =
                blockStart vm pt fuel (ptOffset (pageBelow c 1)) (pageBelow c 1) (addW 8 size 1) := by
            intro hbelow
            conv_lhs => unfold blockStart
            rw [ptOffset_below]
            by_cases h0 : ptOffset c = 0
            · obtain ⟨t, ht⟩ := Option.ne_none_iff_exists'.mp (hbelow (by rw [hzero]; exact h0))
              have hb0 : (vm.tables pt 0).dataBehind = true := h0 ▸ hb
              simp only [h0, hb0, if_true, hcur, ht]
            · simp only [hb, h0, if_true, if_false, hcur]
          constructor
          · rintro ⟨p, hp⟩
            by_cases hbelow : TableBelow vm c 0
            · rw [hstep hbelow] at hp
              obtain ⟨m, hm, hfound, hall⟩ := hnext.mp ⟨p, hp⟩
              rw [hshift] at hfound
              refine ⟨m + 1, Nat.succ_lt_succ hm, hfound, fun j hj => ?_⟩
              cases j with
              | zero => exact hbelow
              | succ j =>
                  have hj' := hall j (Nat.lt_of_succ_lt_succ hj)
                  unfold TableBelow at hj' ⊢
                  rwa [hshift, hshift] at hj'
            · -- The page table is missing, so the call returns an error.
              unfold TableBelow at hbelow
              rw [hzero, Classical.not_imp, not_not] at hbelow
              have hb0 : (vm.tables pt 0).dataBehind = true := hbelow.1 ▸ hb
              unfold blockStart at hp
              simp only [hbelow.1, hb0, if_true, hcur, hbelow.2] at hp
              cases hp
          · rintro ⟨m, hm, hfound, hall⟩
            cases m with
            | zero =>
                rw [hzero, hb] at hfound
                cases hfound
            | succ m =>
                rw [hstep (hall 0 (Nat.succ_pos m))]
                refine hnext.mpr ⟨m, Nat.lt_of_succ_lt_succ hm, by rw [hshift]; exact hfound, fun j hj => ?_⟩
                have hj' := hall (j + 1) (Nat.succ_lt_succ hj)
                unfold TableBelow at hj' ⊢
                rwa [hshift, hshift]

/-! ## The call -/

/-- Going down from the cursor the call comes to an entry without `PT_DATA_PAGE_BEHIND`, that of the last page it
    removes or one below, and each page table it asks for until then is there. All entries are read in the page table
    of the last mapped page. -/
def WalkEnds (vm : VmSpace) (c pages : Nat) : Prop :=
  ∃ pt, findPtOrNull vm (pageBelow c 1) = some pt ∧ ∃ m, pages ≤ m ∧
    (vm.tables pt (ptOffset (pageBelow c m))).dataBehind = false ∧
    ∀ i, 1 ≤ i → i < m ∨ i ≤ pages → TableBelow vm c i

/-- The call gives up before the first loop, or in it with all entries down to the missing page table idle. -/
def NothingDone (vm : VmSpace) (zone : Zone) (pages : Nat) : Prop :=
  (vm.zones zone).flags.contiguous = false ∨ findPtOrNull vm (pageBelow (vm.zones zone).cursorAddr 1) = none ∨
    ∃ pt, findPtOrNull vm (pageBelow (vm.zones zone).cursorAddr 1) = some pt ∧
      ∃ i, i < pages ∧ ¬ TableBelow vm (vm.zones zone).cursorAddr (i + 1) ∧
        ∀ j, j ≤ i → Idle (vm.tables pt (ptOffset (pageBelow (vm.zones zone).cursorAddr (j + 1))))

section Call

variable {vm vm' : VmSpace} {zone : Zone} {pages f c : Nat}

theorem pageBelow_cursor (c j : Nat) : pageBelow (pageBelow c 1) j = pageBelow c (j + 1) := by
  rw [pageBelow_add, Nat.add_comm]

theorem tableBelow_cursor {j : Nat} : TableBelow vm (pageBelow c 1) j ↔ TableBelow vm c (j + 1) := by
  unfold TableBelow
  rw [pageBelow_cursor, pageBelow_cursor]

/-- The state the first loop begins with. -/
abbrev loopStart (vm : VmSpace) (c : Nat) : ShrinkState := ⟨vm, ptOffset (pageBelow c 1), pageBelow c 1, 0⟩

theorem loopStart_atAddress (vm : VmSpace) (c : Nat) (hpages : pages < 256) : AtAddress (loopStart vm c) pages :=
  ⟨rfl, sub64_lt _ _, by show 0 + pages < 256; omega⟩

/-- The second loop of a call, whose first loop has left the state `s`. -/
abbrev secondLoop (s : ShrinkState) (zone : Zone) (f : Nat) : Except VmFault (Except VmError (PtEntry × Nat)) :=
  blockStart (s.vm.setCursor zone (add64 s.cursor pageSize)) f (s.cursor / pageSize) s.nextOffset s.cursor
    s.currentBlockSize

section Outcome

variable (hzone : (vm.zones zone).flags.contiguous = true) (hc : (vm.zones zone).cursorAddr = c)
  (hf : findPtOrNull vm (pageBelow c 1) = some f)
include hzone hc hf

theorem vmzoneShrink_of_error {r : VmError × VmSpace} (hloop : shrinkLoop f pages (loopStart vm c) = .error r) :
    vmzoneShrink vm pages zone = .ok (some r.1, r.2) := by
  have hcur : sub64 c pageSize = pageBelow c 1 := rfl
  have hloop : shrinkLoop f pages ⟨vm, ptOffset (pageBelow c 1), pageBelow c 1, 0⟩ = .error r := hloop
  unfold vmzoneShrink
  rw [hzone, hc, hcur]
  simp only [Bool.not_true, Bool.false_eq_true, if_false, hf, hloop]

theorem vmzoneShrink_of_whole {s : ShrinkState} (hloop : shrinkLoop f pages (loopStart vm c) = .ok s)
    (hsize : ¬ 0 < s.currentBlockSize) :
    vmzoneShrink vm pages zone = .ok (none, s.vm.setCursor zone (add64 s.cursor pageSize)) := by
  have hcur : sub64 c pageSize = pageBelow c 1 := rfl
  have hloop : shrinkLoop f pages ⟨vm, ptOffset (pageBelow c 1), pageBelow c 1, 0⟩ = .ok s := hloop
  unfold vmzoneShrink
  rw [hzone, hc, hcur]
  simp only [Bool.not_true, Bool.false_eq_true, if_false, hf, hloop]
  exact if_neg hsize

/-- Where a block is left in part, the second loop decides; its errors leave what the first one has done. -/
theorem vmzoneShrink_of_part {s : ShrinkState} (hloop : shrinkLoop f pages (loopStart vm c) = .ok s)
    (hsize : 0 < s.currentBlockSize) :
    ((∃ vm', vmzoneShrink vm pages zone = .ok (none, vm')) ↔ ∃ p, secondLoop s zone f = .ok (.ok p)) ∧
      ∀ e vm', vmzoneShrink vm pages zone = .ok (some e, vm') →
        vm' = s.vm.setCursor zone (add64 s.cursor pageSize) := by
  have hcur : sub64 c pageSize = pageBelow c 1 := rfl
  have hloop : shrinkLoop f pages ⟨vm, ptOffset (pageBelow c 1), pageBelow c 1, 0⟩ = .ok s := hloop
  unfold vmzoneShrink
  rw [hzone, hc, hcur]
  simp only [Bool.not_true, Bool.false_eq_true, if_false, hf, hloop]
  rw [if_pos hsize]
  refine ⟨⟨?_, ?_⟩, ?_⟩
  · rintro ⟨vm', h⟩
    obtain ⟨found, hfound, h⟩ := bind_eq_ok.mp h
    cases found with
    | error e => cases h
    | ok p => exact ⟨p, hfound⟩
  · rintro ⟨p, hp⟩
    exact ⟨_, bind_eq_ok.mpr ⟨.ok p, hp, rfl⟩⟩
  · intro e vm' h
    obtain ⟨found, -, h⟩ := bind_eq_ok.mp h
    cases found with
    | error e' =>
        cases h
        rfl
    | ok p => cases h

end Outcome

theorem vmzoneShrink_unmapped (hzone : (vm.zones zone).flags.contiguous = true)
    (hnone : findPtOrNull vm (pageBelow (vm.zones zone).cursorAddr 1) = none) :
    vmzoneShrink vm pages zone = .ok (some .unmapped, vm) := by
  have hcur : sub64 (vm.zones zone).cursorAddr pageSize = pageBelow (vm.zones zone).cursorAddr 1 := rfl
  unfold vmzoneShrink
  rw [hzone, hcur]
  simp only [Bool.not_true, Bool.false_eq_true, if_false, hnone]

/-- **When the call returns 0**, above a first page `low` that has no page table below it. -/
theorem vmzoneShrink_zero_iff {low n : Nat} (hzone : (vm.zones zone).flags.contiguous = true)
    (hc : (vm.zones zone).cursorAddr = c) (hcursor : c = (low + n) * 4096) (hlow : 1 ≤ low) (hlt : c < 2 ^ 64)
    (h1 : 1 ≤ pages) (hpages : pages ≤ n) (h256 : pages < 256) (hf : findPtOrNull vm (pageBelow c 1) = some f)
    (hapart : ∀ i, i ≤ n + 1 → ApartFrom vm f (pageBelow c i)) (hend : ¬ TableBelow vm c n) :
    (∃ vm', vmzoneShrink vm pages zone = .ok (none, vm')) ↔ WalkEnds vm c pages := by
  have hat := loopStart_atAddress vm c h256
  have hapart1 : ∀ j, j ≤ pages → ApartFrom vm f (pageBelow (pageBelow c 1) j) := by
    intro j hj
    rw [pageBelow_cursor]
    exact hapart (j + 1) (by omega)
  by_cases hall : ∀ j, j < pages → TableBelow vm (pageBelow c 1) j
  · obtain ⟨s, hloop, hw⟩ := shrinkLoop_finds pages (loopStart vm c) hat hapart1 hall
    have hin : pages < n := by
      rcases Nat.eq_or_lt_of_le hpages with he | hlt'
      · refine absurd ?_ hend
        have hlast := tableBelow_cursor.mp (hall (pages - 1) (by omega))
        rwa [show pages - 1 + 1 = n by omega] at hlast
      · exact hlt'
    have hsize := hw.size (by omega)
    have hlast : pageBelow (pageBelow c 1) (pages - 1) = pageBelow c pages := by
      rw [pageBelow_cursor, Nat.sub_add_cancel h1]
    have hcur : s.cursor = pageBelow c (pages + 1) := by
      rw [hw.cursor]
      exact pageBelow_cursor c pages
    have hsize : 0 < s.currentBlockSize ↔ (vm.tables f (ptOffset (pageBelow c pages))).dataBehind = true := by
      rw [← hlast]
      exact hsize
    have hfirst : ∀ i, 1 ≤ i → i ≤ pages → TableBelow vm c i := by
      intro i hi hle
      have := tableBelow_cursor.mp (hall (i - 1) (by omega))
      rwa [Nat.sub_add_cancel hi] at this
    by_cases hpos : 0 < s.currentBlockSize
    · have hbehind := hsize.mp hpos
      have hlt' : s.cursor < 2 ^ 64 := by
        rw [hcur]
        exact sub64_lt _ _
      have hiff := blockStart_iff (s.vm.setCursor zone (add64 s.cursor pageSize)) f
        (s.cursor / pageSize) s.cursor s.currentBlockSize hlt'
      have hpage : s.cursor / pageSize = low + n - (pages + 1) := by
        have hval : s.cursor = (low + n - (pages + 1)) * 4096 := by
          rw [hcur, hcursor]
          show ((low + n) * 4096 + 2 ^ 64 - (pages + 1) * 4096 % 2 ^ 64) % 2 ^ 64 = _
          omega
        rw [hval]
        exact Nat.mul_div_cancel _ (by decide)
      have hshift : ∀ j, pageBelow s.cursor j = pageBelow c (pages + 1 + j) := by
        intro j
        rw [hcur, pageBelow_add]
      -- What the second loop sees is what was there before the call, down to the first page.
      have hentry : ∀ j,
          ((s.vm.setCursor zone (add64 s.cursor pageSize)).tables f (ptOffset (pageBelow s.cursor j))).dataBehind =
          (vm.tables f (ptOffset (pageBelow c (pages + 1 + j)))).dataBehind := by
        intro j
        rw [hshift]
        exact hw.same.behind _
      have hbelow : ∀ j, pages + 1 + j ≤ n →
          (TableBelow (s.vm.setCursor zone (add64 s.cursor pageSize)) s.cursor j ↔ TableBelow vm c (pages + 1 + j)) := by
        intro j hj
        have hlook : findPtOrNull (s.vm.setCursor zone (add64 s.cursor pageSize)) (pageBelow c (pages + 1 + (j + 1))) =
            findPtOrNull vm (pageBelow c (pages + 1 + (j + 1))) :=
          hw.same.lookup (hapart _ (by omega))
        unfold TableBelow
        rw [hshift, hshift, hlook]
        rfl
      rw [(vmzoneShrink_of_part hzone hc hf hloop hpos).1]
      unfold secondLoop
      rw [hw.offset, hiff, hpage]
      constructor
      · rintro ⟨m, hm, hfound, hrest⟩
        rw [hentry] at hfound
        have hmn : pages + 1 + m ≤ n := by
          by_contra hout
          refine hend ?_
          have hj := (hbelow (n - (pages + 1)) (by omega)).mp (hrest (n - (pages + 1)) (by omega))
          rwa [show pages + 1 + (n - (pages + 1)) = n by omega] at hj
        refine ⟨f, hf, pages + 1 + m, by omega, hfound, fun i hi hle => ?_⟩
        by_cases hip : i ≤ pages
        · exact hfirst i hi hip
        · have hj := (hbelow (i - (pages + 1)) (by omega)).mp (hrest (i - (pages + 1)) (by omega))
          rwa [show pages + 1 + (i - (pages + 1)) = i by omega] at hj
      · rintro ⟨pt, hpt, m, hm, hfound, hrest⟩
        obtain rfl : pt = f := Option.some.inj (hpt.symm.trans hf)
        have hmn : m ≤ n := by
          by_contra hout
          exact hend (hrest n (by omega) (Or.inl (by omega)))
        have hne : m ≠ pages := by
          rintro rfl
          rw [hbehind] at hfound
          cases hfound
        refine ⟨m - (pages + 1), by omega, ?_, fun j hj => ?_⟩
        · rw [hentry, show pages + 1 + (m - (pages + 1)) = m by omega]
          exact hfound
        · exact (hbelow j (by omega)).mpr (hrest _ (by omega) (Or.inl (by omega)))
    · refine ⟨fun _ => ⟨f, hf, pages, Nat.le_refl _, ?_, fun i hi hle => hfirst i hi (by omega)⟩,
        fun _ => ⟨_, vmzoneShrink_of_whole hzone hc hf hloop hpos⟩⟩
      by_contra hb
      exact hpos (hsize.mpr (Bool.not_eq_false _ ▸ hb))
  · have hfail : ∃ j, j < pages ∧ ¬ TableBelow vm (pageBelow c 1) j := by
      by_contra hnot
      exact hall (fun j hj => by_contra (fun hb => hnot ⟨j, hj, hb⟩))
    obtain ⟨r, hloop⟩ := shrinkLoop_fails pages (loopStart vm c) hat hapart1 hfail
    rw [vmzoneShrink_of_error hzone hc hf hloop]
    constructor
    · rintro ⟨vm', h⟩
      cases h
    · rintro ⟨pt, -, m, -, -, hrest⟩
      refine absurd (fun j hj => ?_) hall
      exact tableBelow_cursor.mpr (hrest (j + 1) (by omega) (Or.inr (by omega)))

/-- **When a call that returns an error has left everything as it was.** -/
theorem vmzoneShrink_unchanged_iff {e : VmError} (hlt : (vm.zones zone).cursorAddr < 2 ^ 64) (h256 : pages < 256)
    (hapart : ∀ f, findPtOrNull vm (pageBelow (vm.zones zone).cursorAddr 1) = some f →
      ∀ i, i ≤ pages + 1 → ApartFrom vm f (pageBelow (vm.zones zone).cursorAddr i))
    (hrun : vmzoneShrink vm pages zone = .ok (some e, vm')) : vm' = vm ↔ NothingDone vm zone pages := by
  cases hzone : (vm.zones zone).flags.contiguous with
  | false =>
      unfold vmzoneShrink at hrun
      rw [hzone] at hrun
      cases hrun
      exact ⟨fun _ => Or.inl hzone, fun _ => rfl⟩
  | true =>
      cases hf : findPtOrNull vm (pageBelow (vm.zones zone).cursorAddr 1) with
      | none =>
          rw [vmzoneShrink_unmapped hzone hf] at hrun
          cases hrun
          exact ⟨fun _ => Or.inr (Or.inl hf), fun _ => rfl⟩
      | some f =>
          have hat := loopStart_atAddress vm (vm.zones zone).cursorAddr h256
          have hapart1 : ∀ j, j ≤ pages → ApartFrom vm f (pageBelow (pageBelow (vm.zones zone).cursorAddr 1) j) := by
            intro j hj
            rw [pageBelow_cursor]
            exact hapart f hf (j + 1) (by omega)
          have hdone : NothingDone vm zone pages ↔ ∃ i, i < pages ∧
              ¬ TableBelow vm (vm.zones zone).cursorAddr (i + 1) ∧
                ∀ j, j ≤ i → Idle (vm.tables f (ptOffset (pageBelow (vm.zones zone).cursorAddr (j + 1)))) := by
            unfold NothingDone
            rw [hzone, hf]
            constructor
            · rintro (h | h | ⟨pt, hpt, h⟩)
              · cases h
              · cases h
              · cases hpt
                exact h
            · exact fun h => Or.inr (Or.inr ⟨f, rfl, h⟩)
          rw [hdone]
          cases hloop : shrinkLoop f pages (loopStart vm (vm.zones zone).cursorAddr) with
          | error r =>
              rw [vmzoneShrink_of_error hzone rfl hf hloop] at hrun
              cases hrun
              rw [shrinkLoop_error_iff pages _ r hat hapart1 hloop]
              simp only [tableBelow_cursor, pageBelow_cursor]
          | ok s =>
              -- Only the second loop can fail now, and the cursor has moved.
              have hpos : 0 < s.currentBlockSize := by
                by_contra hnot
                rw [vmzoneShrink_of_whole hzone rfl hf hloop hnot] at hrun
                cases hrun
              have hvm := (vmzoneShrink_of_part hzone rfl hf hloop hpos).2 e vm' hrun
              have hbelow : ∀ j, j < pages → TableBelow vm (pageBelow (vm.zones zone).cursorAddr 1) j := by
                by_contra hnot
                have hfail : ∃ j, j < pages ∧ ¬ TableBelow vm (pageBelow (vm.zones zone).cursorAddr 1) j := by
                  by_contra hnone
                  exact hnot (fun j hj => by_contra (fun hb => hnone ⟨j, hj, hb⟩))
                obtain ⟨r, hfails⟩ := shrinkLoop_fails pages (loopStart vm _) hat hapart1 hfail
                rw [hloop] at hfails
                cases hfails
              obtain ⟨s', hloop', hw⟩ := shrinkLoop_finds pages (loopStart vm _) hat hapart1 hbelow
              obtain rfl := Except.ok.inj (hloop.symm.trans hloop')
              have hpages : 0 < pages := by
                by_contra hzero
                have hrest := hw.rest (by omega)
                rw [hrest] at hpos
                exact absurd hpos (Nat.lt_irrefl 0)
              constructor
              · intro he
                have hcur := congrArg (fun v => (v.zones zone).cursorAddr) (hvm.symm.trans he)
                simp only [VmSpace.setCursor, Function.update_self] at hcur
                have hcur' : s.cursor = pageBelow (vm.zones zone).cursorAddr (pages + 1) := by
                  rw [hw.cursor]
                  exact pageBelow_cursor _ pages
                rw [hcur'] at hcur
                generalize (vm.zones zone).cursorAddr = c at hcur hlt
                have hcur : ((c + 2 ^ 64 - (pages + 1) * 4096 % 2 ^ 64) % 2 ^ 64 + 4096) % 2 ^ 64 = c := hcur
                omega
              · rintro ⟨i, hi, hmissing, -⟩
                exact absurd (tableBelow_cursor.mp (hbelow i hi)) hmissing

end Call

/-! ## Runs -/

/-- The heap stays below `KERNEL_VMA`. -/
def StaysBelow (s : VmSys) : VmAct → Prop
  | .extend zone pages _ _ _ => (s.vm.zones zone).cursorAddr + pages * 4096 < kernelVma
  | _ => True

instance (s : VmSys) (a : VmAct) : Decidable (StaysBelow s a) :=
  match a with
  | .alloc .. => isTrue trivial
  | .free .. => isTrue trivial
  | .extend zone pages _ _ _ => inferInstanceAs (Decidable ((s.vm.zones zone).cursorAddr + pages * 4096 < kernelVma))
  | .shrink .. => isTrue trivial

/-- What runs of any successful shrinks keep: the cursor counts the pages, each of them has a page table, and there is
    none before the first. -/
structure HeapTables (s : VmSys) : Prop where
  ok : TreeOk s.vm
  fresh : FreshFrames s.vm
  count : s.shrunk ≤ s.extended
  below : startPage .kernelHeap + s.mapped < 0xFFFFFFFF80000
  zone : s.vm.zones .kernelHeap =
    { initializedZone .kernelHeap with cursorAddr := (startPage .kernelHeap + s.mapped) * 4096 }
  tables : ∀ v, startPage .kernelHeap ≤ v → v < startPage .kernelHeap + s.mapped → leafTable s.vm (v / 512) ≠ none
  before : leafTable s.vm ((startPage .kernelHeap - 1) / 512) = none

namespace HeapTables

variable {s s' : VmSys}

theorem boot {vm : VmSpace} (h : BootSpace vm) (hframes : vm.frames = []) : HeapTables (.boot vm) := by
  have hzones := ZonesInv.boot h hframes
  have hheap := HeapInv.boot (Q := fun _ _ _ => True) h hframes
  have hmapped : (VmSys.boot vm).mapped = 0 := rfl
  have hnone : totalPages (VmSys.boot vm).allocs = 0 := rfl
  refine ⟨hzones.ok, hzones.fresh, Nat.le_refl 0, ?_, ?_, fun v hlo hhi => ?_, hzones.before⟩
  · rw [hmapped, ← hnone]
    exact hheap.below
  · rw [hmapped, ← hnone]
    exact hheap.zone
  · rw [hmapped, Nat.add_zero] at hhi
    exact absurd hhi (Nat.not_lt.mpr hlo)

/-- Pages from the one before the heap to the one at the cursor. -/
theorem own (h : HeapTables s) {v : Nat} (hlo : startPage .kernelHeap - 1 ≤ v)
    (hhi : v ≤ startPage .kernelHeap + s.mapped) : OwnPage v := by
  have hbelow := h.below
  have hstart : startPage .kernelHeap = 0xFFFFFF8000000 := rfl
  exact ownPage_iff.mpr (by omega)

theorem extend (h : HeapTables s) {pages block : Nat} {flags : VmFlags} {frames : List Nat} {r : Option Nat}
    {vm' : VmSpace} (hfr : FreshFrames (s.vm.given frames))
    (hroom : startPage .kernelHeap + s.mapped + pages < 0xFFFFFFFF80000) (hblock : block + pages * 4096 ≤ 2 ^ 52)
    (hrun : vmzoneExtend (s.vm.given frames) pages flags .kernelHeap block = .ok (r, vm')) (allocs : List Alloc) :
    HeapTables { s with vm := vm', allocs := allocs, extended := s.extended + pages } := by
  obtain ⟨hlow, -⟩ := zone_layout .kernelHeap
  have hstart : startPage .kernelHeap = 0xFFFFFF8000000 := rfl
  have hcontig : ((s.vm.given frames).zones .kernelHeap).flags.contiguous = true := by
    show (s.vm.zones .kernelHeap).flags.contiguous = true
    rw [h.zone]
    rfl
  have hcursor : ((s.vm.given frames).zones .kernelHeap).cursorAddr = (startPage .kernelHeap + s.mapped) * 4096 := by
    show (s.vm.zones .kernelHeap).cursorAddr = _
    rw [h.zone]
  obtain ⟨-, hzones, hkeeps, hmapped, -⟩ := vmzoneExtend_spec (treeOk_given h.ok) hfr hcontig hcursor
    (fun j hj => ownPage_iff.mpr (by omega)) (Nat.lt_of_le_of_lt hblock (by decide)) hrun
  have hcount : s.extended + pages - s.shrunk = s.mapped + pages := by
    have := h.count
    unfold VmSys.mapped
    omega
  refine ⟨hkeeps.ok, hkeeps.fresh, Nat.le_add_right_of_le h.count, ?_, ?_, fun v hlo hhi => ?_, ?_⟩
  · show startPage .kernelHeap + (s.extended + pages - s.shrunk) < _
    omega
  · show vm'.zones .kernelHeap = { initializedZone .kernelHeap with
      cursorAddr := (startPage .kernelHeap + (s.extended + pages - s.shrunk)) * 4096 }
    have hold : (s.vm.given frames).zones .kernelHeap = { initializedZone .kernelHeap with
      cursorAddr := (startPage .kernelHeap + s.mapped) * 4096 } := h.zone
    rw [hzones, Function.update_self, hold, hcount, Nat.add_assoc]
  · have hhi : v < startPage .kernelHeap + (s.extended + pages - s.shrunk) := hhi
    rw [hcount] at hhi
    show leafTable vm' (v / 512) ≠ none
    by_cases hold : v < startPage .kernelHeap + s.mapped
    · obtain ⟨t, ht⟩ := Option.ne_none_iff_exists'.mp (h.tables v hlo hold)
      rw [hkeeps.tables _ t (h.own (by omega) (Nat.le_of_lt hold)) ht]
      exact Option.some_ne_none t
    · -- A page just mapped is present, so it has a page table.
      intro hnone
      obtain ⟨j, rfl⟩ : ∃ j, v = startPage .kernelHeap + s.mapped + j :=
        ⟨v - (startPage .kernelHeap + s.mapped), by omega⟩
      have hpage := congrArg PtEntry.present (hmapped j (by omega))
      rw [leaf_of_missing hnone, mapPage_present] at hpage
      cases hpage
  · refine hkeeps.missing _ before_inZone.own (fun ht => ?_) h.before
    have ht : (startPage .kernelHeap + s.mapped) / 512 ≤ (startPage .kernelHeap - 1) / 512 := ht.1
    omega

theorem shrink (h : HeapTables s) {pages : Nat} {vm' : VmSpace} (hle : pages ≤ s.mapped)
    (hrun : vmzoneShrink s.vm pages .kernelHeap = .ok (none, vm')) (allocs : List Alloc) :
    HeapTables { s with vm := vm', allocs := allocs, shrunk := s.shrunk + pages } := by
  obtain ⟨hlow, -, -, hlow0, -⟩ := zone_layout .kernelHeap
  have hstart : startPage .kernelHeap = 0xFFFFFF8000000 := rfl
  have hbelow := h.below
  obtain ⟨u, hu⟩ : ∃ u, u + 1 = startPage .kernelHeap + s.mapped := ⟨startPage .kernelHeap + s.mapped - 1, by omega⟩
  have huo : OwnPage u := h.own (by omega) (by omega)
  have hcontig : (s.vm.zones .kernelHeap).flags.contiguous = true := by
    rw [h.zone]
    rfl
  have hcursor : (s.vm.zones .kernelHeap).cursorAddr = (u + 1) * 4096 := by
    rw [h.zone, hu]
  have hmapped : s.extended - (s.shrunk + pages) = s.mapped - pages := by
    unfold VmSys.mapped
    omega
  obtain ⟨hkeeps, -⟩ := vmzoneShrink_keeps h.ok h.fresh hcontig hcursor huo hlow
    (h.own (Nat.sub_le _ _) (Nat.le_add_right _ _)) (h.own (Nat.le_refl _) (by omega)) (by omega) h.before hrun
  have hzones : vm'.zones = Function.update s.vm.zones .kernelHeap
      { s.vm.zones .kernelHeap with cursorAddr := (u + 1 - pages) * 4096 } := by
    rcases vmzoneShrink_cases hcontig hcursor huo hrun with ⟨-, hr, -⟩ | ⟨f, hf, ⟨e, -, hr⟩ | ⟨s1, hloop, hsame, -⟩⟩
    · cases hr
    · cases hr
    · obtain ⟨-, hz⟩ := (shrinkLoop_keeps huo pages ⟨s.vm, u % 512, u * 4096, 0⟩ h.ok h.fresh hf
        (Nat.mod_lt _ (by decide))).1 s1 hloop
      have hat := shrinkLoop_atPage pages _ u s1 ⟨rfl, rfl⟩ (fun j hj => h.own (by omega) (by omega)) (by omega) hloop
      have hadd : add64 s1.cursor 4096 = (u + 1 - pages) * 4096 := by
        rw [hat.cursor, add64_of_lt (by omega)]
        omega
      rw [hadd] at hsame
      exact zones_setCursor hsame hz
  refine ⟨hkeeps.ok, hkeeps.fresh, ?_, ?_, ?_, fun v hlo hhi => ?_, ?_⟩
  · show s.shrunk + pages ≤ s.extended
    have hcount := h.count
    unfold VmSys.mapped at hle
    omega
  · show startPage .kernelHeap + (s.extended - (s.shrunk + pages)) < _
    omega
  · show vm'.zones .kernelHeap = { initializedZone .kernelHeap with
      cursorAddr := (startPage .kernelHeap + (s.extended - (s.shrunk + pages))) * 4096 }
    rw [hzones, Function.update_self, h.zone, hmapped, hu, Nat.add_sub_assoc hle]
  · have hhi : v < startPage .kernelHeap + (s.extended - (s.shrunk + pages)) := hhi
    obtain ⟨t, ht⟩ := Option.ne_none_iff_exists'.mp (h.tables v hlo (by omega))
    show leafTable vm' (v / 512) ≠ none
    rw [hkeeps.tables _ t (h.own (by omega) (by omega)) ht]
    exact Option.some_ne_none t
  · exact hkeeps.missing _ before_inZone.own (fun ht => ht) h.before

/-- **One call keeps the page tables of the heap**, also a shrink that goes astray. -/
theorem of_step {a : VmAct} (h : HeapTables s) (hcall : HeapCall .kernelHeap s a) (hroom : StaysBelow s a)
    (hstep : step s a = .ok s') : HeapTables s' := by
  have hperform := step_ok hstep
  cases a with
  | alloc => exact hcall.elim
  | free => exact hcall.elim
  | extend zone pages flags frames block =>
      obtain ⟨rfl, -, -, hfr, hblock⟩ := hcall
      obtain ⟨⟨r, vm'⟩, hrun, hs'⟩ := bind_eq_ok.mp hperform
      have hroom : (s.vm.zones .kernelHeap).cursorAddr + pages * 4096 < 0xFFFFFFFF80000 * 4096 := hroom
      rw [h.zone] at hroom
      have hroom : (startPage .kernelHeap + s.mapped) * 4096 + pages * 4096 < 0xFFFFFFFF80000 * 4096 := hroom
      cases r with
      | none => cases hs'
      | some addr =>
          have hinv := h.extend hfr (by omega) hblock hrun (⟨block, pages, flags.allocEarly⟩ :: s.allocs)
          cases hs'
          exact hinv
  | shrink zone pages =>
      obtain ⟨rfl, hle⟩ := hcall
      obtain ⟨⟨r, vm'⟩, hrun, hs'⟩ := bind_eq_ok.mp hperform
      cases r with
      | some e => cases hs'
      | none =>
          have hinv := h.shrink hle hrun (dropPages pages s.allocs)
          cases hs'
          exact hinv

/-- The page at an address below the cursor. -/
theorem pageBelow_eq (h : HeapTables s) {i : Nat} (hi : i ≤ s.mapped + 1) :
    pageBelow (s.vm.zones .kernelHeap).cursorAddr i = (startPage .kernelHeap + s.mapped - i) * 4096 := by
  have hstart : startPage .kernelHeap = 0xFFFFFF8000000 := rfl
  have hbelow := h.below
  rw [h.zone]
  show sub64 ((startPage .kernelHeap + s.mapped) * 4096) (i * 4096) = _
  rw [sub64_of_le (by omega) (by omega)]
  omega

theorem lookup_eq (h : HeapTables s) {i : Nat} (hi : i ≤ s.mapped + 1) :
    findPtOrNull s.vm (pageBelow (s.vm.zones .kernelHeap).cursorAddr i) =
      leafTable s.vm ((startPage .kernelHeap + s.mapped - i) / 512) := by
  rw [h.pageBelow_eq hi, findPtOrNull_eq, Nat.mul_div_cancel _ (by decide)]

/-- The page table of the last page is on no higher level of a walk. -/
theorem apart (h : HeapTables s) (hpos : 1 ≤ s.mapped) {f : Nat}
    (hf : findPtOrNull s.vm (pageBelow (s.vm.zones .kernelHeap).cursorAddr 1) = some f) :
    ∀ i, i ≤ s.mapped + 1 → ApartFrom s.vm f (pageBelow (s.vm.zones .kernelHeap).cursorAddr i) := by
  have hstart : startPage .kernelHeap = 0xFFFFFF8000000 := rfl
  intro i hi d hd hnode
  have hown : ∀ k, k ≤ s.mapped + 1 → Own 3 ((startPage .kernelHeap + s.mapped - k) / 512) :=
    fun k hk => h.own (by omega) (by omega)
  rw [h.lookup_eq (by omega)] at hf
  rw [h.pageBelow_eq hi] at hnode
  have hpath : Own 3 (path ((startPage .kernelHeap + s.mapped - i) * 4096) 3) := by
    rw [path_three, Nat.mul_div_cancel _ (by decide)]
    exact hown i hi
  obtain ⟨h3, -⟩ := h.ok.separate _ _ _ _ _ (own_path hpath (by omega)) (hown 1 (by omega)) hnode hf
  omega

/-- Below the first page of the heap there is no page table. -/
theorem not_tableBelow (h : HeapTables s) : ¬ TableBelow s.vm (s.vm.zones .kernelHeap).cursorAddr s.mapped := by
  obtain ⟨hlow, -⟩ := zone_layout .kernelHeap
  unfold TableBelow
  rw [h.lookup_eq (Nat.le_refl _), h.pageBelow_eq (Nat.le_succ _), ptOffset_eq, Nat.mul_div_cancel _ (by decide),
    Nat.add_sub_cancel, show startPage .kernelHeap + s.mapped - (s.mapped + 1) = startPage .kernelHeap - 1 by omega]
  exact fun hbelow => hbelow hlow h.before

/-- **When a shrink of the heap returns 0.** -/
theorem shrink_zero_iff (h : HeapTables s) {pages : Nat} (h1 : 1 ≤ pages) (hle : pages ≤ s.mapped) (h256 : pages < 256) :
    (∃ vm', vmzoneShrink s.vm pages .kernelHeap = .ok (none, vm')) ↔
      WalkEnds s.vm (s.vm.zones .kernelHeap).cursorAddr pages := by
  have hstart : startPage .kernelHeap = 0xFFFFFF8000000 := rfl
  have hbelow := h.below
  have hcontig : (s.vm.zones .kernelHeap).flags.contiguous = true := by
    rw [h.zone]
    rfl
  have hcursor : (s.vm.zones .kernelHeap).cursorAddr = (startPage .kernelHeap + s.mapped) * 4096 := by
    rw [h.zone]
  have hpage : findPtOrNull s.vm (pageBelow (s.vm.zones .kernelHeap).cursorAddr 1) ≠ none := by
    rw [h.lookup_eq (by omega)]
    exact h.tables _ (by omega) (by omega)
  obtain ⟨f, hf⟩ := Option.ne_none_iff_exists'.mp hpage
  exact vmzoneShrink_zero_iff hcontig rfl hcursor (by omega) (by omega) h1 hle h256 hf (h.apart (by omega) hf)
    h.not_tableBelow

/-- **The heap is never shrunk to its start**: the page table below the first page is asked for too. -/
theorem not_walkEnds_all (h : HeapTables s) (hpos : 1 ≤ s.mapped) :
    ¬ WalkEnds s.vm (s.vm.zones .kernelHeap).cursorAddr s.mapped := by
  rintro ⟨-, -, m, -, -, hrest⟩
  exact h.not_tableBelow (hrest s.mapped hpos (Or.inr (Nat.le_refl _)))

end HeapTables

/-! ## The two promises -/

/-- The call fails although it has unmapped the page `v`, and its cursor is where it was. -/
def failsHalfway (s : VmSys) (pages v : Nat) : Bool :=
  match vmzoneShrink s.vm pages .kernelHeap with
  | .ok (some _, vm') =>
    decide ((leaf s.vm v).present = true ∧ (leaf vm' v).present = false ∧
      vm'.zones .kernelHeap = s.vm.zones .kernelHeap)
  | _ => false

end LearningOS.Paging
