import LearningOS.Lib.Chain
import LearningOS.Lib.Run

/-!
# `Mm.PageAlloc` — the lock-free list of pages, `mm/page_alloc.c`

`pfa_alloc_page` takes the head of a list of pages and `_pfa_free_page` puts a page in front of it, both with
`cmpxchgq` on `__freelist_head`. A page is the number of its `page_info_t`; `NULL` is `none`. Any number of callers of any type
run at once, and a step is one access of one of them to the shared memory.

The swap compares the head and nothing else. `freelist_one_holder` is what holds as long as a swap that takes a page
finds the page's `next_free` as it was read, and a swap that fails finds a page; `stale_next_free` is the run in which
the first fails, `follows_null` the one in which the second does.
-/

namespace LearningOS.PageAlloc

open Run Singly

/-! ## Model -/

/-- Where a caller is. -/
inductive Phase where
  | idle
  /-- In `pfa_alloc_page`, with `head` read and `next_free` not. -/
  | popHead (head : Option Nat)
  /-- In `pfa_alloc_page`, before `cmpxchgq`. -/
  | popSwap (head : Nat) (nextHead : Option Nat)
  /-- In `_pfa_free_page`, with `current_head` read and `next_free` not written. -/
  | pushHead (newHead : Nat) (currentHead : Option Nat)
  /-- In `_pfa_free_page`, before `cmpxchgq`. -/
  | pushSwap (newHead : Nat) (currentHead : Option Nat)
deriving DecidableEq, Repr

/-- The shared memory, where each caller is, and the pages it holds. A page that is being freed is held until it is on
    the list. -/
structure Freelist (ι : Type) where
  freelistHead : Option Nat
  nextFree : Nat → Option Nat
  phase : ι → Phase
  held : ι → List Nat

/-- Why a step is not possible. -/
inductive PfaFault where
  /-- `NULL` was followed. -/
  | nullHead
  /-- The caller is in the middle of a call, or in none. -/
  | busy
  /-- The caller does not hold the page. -/
  | notHeld
deriving DecidableEq, Repr

/-- A step of a caller: the first access of a call, or the next one of the call it is in. -/
inductive PfaAct (ι : Type) where
  | alloc (i : ι)
  | free (i : ι) (page : Nat)
  | next (i : ι)

variable {ι : Type} [DecidableEq ι]

/-- The caller goes on at another point. -/
def Freelist.goto (s : Freelist ι) (i : ι) (p : Phase) : Freelist ι := { s with phase := Function.update s.phase i p }

/-- One step. A caller that finds the list empty at the start of `pfa_alloc_page` returns `NULL`; after a swap that
    fails there is no such test. -/
def step (s : Freelist ι) : PfaAct ι → Except PfaFault (Freelist ι)
  | .alloc i =>
    match s.phase i, s.freelistHead with
    | .idle, none => .ok s
    | .idle, some head => .ok (s.goto i (.popHead (some head)))
    | _, _ => .error .busy
  | .free i page =>
    if page ∉ s.held i then .error .notHeld
    else
      match s.phase i with
      | .idle => .ok (s.goto i (.pushHead page s.freelistHead))
      | _ => .error .busy
  | .next i =>
    match s.phase i with
    | .idle => .error .busy
    | .popHead none => .error .nullHead
    | .popHead (some head) => .ok (s.goto i (.popSwap head (s.nextFree head)))
    | .popSwap head nextHead =>
      if s.freelistHead = some head then
        .ok { (s.goto i .idle) with
          freelistHead := nextHead
          held := Function.update s.held i (head :: s.held i) }
      else .ok (s.goto i (.popHead s.freelistHead))
    | .pushHead newHead currentHead =>
      .ok { (s.goto i (.pushSwap newHead currentHead)) with
        nextFree := Function.update s.nextFree newHead currentHead }
    | .pushSwap newHead currentHead =>
      if s.freelistHead = currentHead then
        .ok { (s.goto i .idle) with
          freelistHead := some newHead
          held := Function.update s.held i ((s.held i).erase newHead) }
      else .ok (s.goto i (.pushHead newHead s.freelistHead))

/-! ## One holder for each page -/

/-- The list has no cycle, and every page of `pages`, and no other, is on the list or held, by one caller only. -/
structure OneHolder (pages : List Nat) (s : Freelist ι) : Prop where
  list : ∃ l, Chain s.nextFree s.freelistHead l ∧ l.Nodup ∧ (∀ p ∈ l, ∀ i, p ∉ s.held i) ∧
    ∀ p, p ∈ pages ↔ p ∈ l ∨ ∃ i, p ∈ s.held i
  unique : ∀ p i j, p ∈ s.held i → p ∈ s.held j → i = j
  nodup : ∀ i, (s.held i).Nodup

/-- The page a caller is freeing. -/
def Phase.freeing : Phase → Option Nat
  | .pushHead page _ => some page
  | .pushSwap page _ => some page
  | _ => none

/-- What the callers in the middle of a call rely on. -/
structure Callers (s : Freelist ι) : Prop where
  freeing : ∀ i p, (s.phase i).freeing = some p → p ∈ s.held i
  linked : ∀ i p current, s.phase i = .pushSwap p current → s.nextFree p = current
  notNull : ∀ i, s.phase i ≠ .popHead none

/-- A swap that takes a page finds its `next_free` as it was read, and one that fails finds a page. -/
def Fresh (s : Freelist ι) : PfaAct ι → Prop
  | .next i =>
    match s.phase i with
    | .popSwap head nextHead =>
      if s.freelistHead = some head then s.nextFree head = nextHead else s.freelistHead ≠ none
    | _ => True
  | _ => True

instance (s : Freelist ι) (a : PfaAct ι) : Decidable (Fresh s a) := by
  cases a with
  | alloc => exact isTrue trivial
  | free => exact isTrue trivial
  | next i =>
      unfold Fresh
      dsimp only
      split <;> infer_instance

variable {pages : List Nat} {s s' : Freelist ι} {i : ι}

theorem OneHolder.goto (h : OneHolder pages s) (i : ι) (p : Phase) : OneHolder pages (s.goto i p) :=
  ⟨h.list, h.unique, h.nodup⟩

/-- A caller that goes on at a point where it frees the page it freed before, or none, and has not read `NULL`. -/
theorem Callers.goto (h : Callers s) {p : Phase} (hfreeing : ∀ q, p.freeing = some q → q ∈ s.held i)
    (hlinked : ∀ q current, p = .pushSwap q current → s.nextFree q = current) (hnull : p ≠ .popHead none) :
    Callers (s.goto i p) := by
  refine ⟨?_, ?_, ?_⟩
  · intro j q hq
    have hq : (Function.update s.phase i p j).freeing = some q := hq
    by_cases hji : j = i
    · subst hji
      rw [Function.update_self] at hq
      exact hfreeing q hq
    · rw [Function.update_of_ne hji] at hq
      exact h.freeing j q hq
  · intro j q current hq
    have hq : Function.update s.phase i p j = .pushSwap q current := hq
    by_cases hji : j = i
    · subst hji
      rw [Function.update_self] at hq
      exact hlinked q current hq
    · rw [Function.update_of_ne hji] at hq
      exact h.linked j q current hq
  · intro j hj
    have hj : Function.update s.phase i p j = .popHead none := hj
    by_cases hji : j = i
    · subst hji
      rw [Function.update_self] at hj
      exact hnull hj
    · rw [Function.update_of_ne hji] at hj
      exact h.notNull j hj

/-! ## Taking a page -/

/-- The state after a swap of `pfa_alloc_page` that succeeds. -/
def popped (s : Freelist ι) (i : ι) (head : Nat) (nextHead : Option Nat) : Freelist ι :=
  { (s.goto i .idle) with freelistHead := nextHead, held := Function.update s.held i (head :: s.held i) }

theorem mem_held_popped {head : Nat} {nextHead : Option Nat} {p : Nat} {j : ι} :
    p ∈ (popped s i head nextHead).held j ↔ (j = i ∧ p = head) ∨ p ∈ s.held j := by
  show p ∈ Function.update s.held i (head :: s.held i) j ↔ _
  by_cases hji : j = i
  · subst hji
    rw [Function.update_self, List.mem_cons]
    simp
  · rw [Function.update_of_ne hji]
    simp [hji]

theorem Callers.popped (h : Callers s) (head : Nat) (nextHead : Option Nat) :
    Callers (popped s i head nextHead) := by
  have hgoto : Callers (s.goto i .idle) := h.goto nofun nofun nofun
  refine ⟨?_, hgoto.linked, hgoto.notNull⟩
  intro j q hq
  exact mem_held_popped.mpr (Or.inr (hgoto.freeing j q hq))

/-- **A page is taken off the list** by the one caller whose swap succeeds. -/
theorem OneHolder.popped (h : OneHolder pages s) {head : Nat} (hhead : s.freelistHead = some head) :
    OneHolder pages (popped s i head (s.nextFree head)) := by
  obtain ⟨l, hchain, hnodup, hfree, hpages⟩ := h.list
  cases l with
  | nil =>
      rw [hhead] at hchain
      cases hchain
  | cons a l =>
      obtain ⟨ha, hrest⟩ := hchain
      obtain rfl : a = head := Option.some.inj (ha.symm.trans hhead)
      obtain ⟨hal, hnodup⟩ := List.nodup_cons.mp hnodup
      have hnotheld : ∀ j, a ∉ s.held j := hfree a List.mem_cons_self
      refine ⟨⟨l, hrest, hnodup, ?_, ?_⟩, ?_, ?_⟩
      · intro p hp j hheld
        rcases mem_held_popped.mp hheld with ⟨-, rfl⟩ | hheld
        · exact hal hp
        · exact hfree p (List.mem_cons_of_mem _ hp) j hheld
      · intro p
        rw [hpages p, List.mem_cons]
        constructor
        · rintro ((rfl | hp) | ⟨j, hj⟩)
          · exact Or.inr ⟨i, mem_held_popped.mpr (Or.inl ⟨rfl, rfl⟩)⟩
          · exact Or.inl hp
          · exact Or.inr ⟨j, mem_held_popped.mpr (Or.inr hj)⟩
        · rintro (hp | ⟨j, hj⟩)
          · exact Or.inl (Or.inr hp)
          · rcases mem_held_popped.mp hj with ⟨-, rfl⟩ | hj
            · exact Or.inl (Or.inl rfl)
            · exact Or.inr ⟨j, hj⟩
      · intro p j k hj hk
        rcases mem_held_popped.mp hj with ⟨rfl, rfl⟩ | hj
        · rcases mem_held_popped.mp hk with ⟨rfl, -⟩ | hk
          · rfl
          · exact absurd hk (hnotheld k)
        · rcases mem_held_popped.mp hk with ⟨-, hpa⟩ | hk
          · exact absurd (hpa ▸ hj) (hnotheld j)
          · exact h.unique p j k hj hk
      · intro j
        show (Function.update s.held i (a :: s.held i) j).Nodup
        by_cases hji : j = i
        · subst hji
          rw [Function.update_self]
          exact List.nodup_cons.mpr ⟨hnotheld j, h.nodup j⟩
        · rw [Function.update_of_ne hji]
          exact h.nodup j

/-- With a `next_free` that has changed since it was read, the list loses a page or gets one that is held. -/
theorem not_oneHolder_of_stale (h : OneHolder pages s) {head : Nat} {nextHead : Option Nat}
    (hhead : s.freelistHead = some head) (hstale : s.nextFree head ≠ nextHead) :
    ¬ OneHolder pages (PageAlloc.popped s i head nextHead) := by
  intro h'
  obtain ⟨l, hchain, hnodup, hfree, hpages⟩ := (h.popped (i := i) hhead).list
  obtain ⟨l', hchain', hnodup', hfree', hpages'⟩ := h'.list
  have hchain : Chain s.nextFree (s.nextFree head) l := hchain
  have hchain' : Chain s.nextFree nextHead l' := hchain'
  -- Both lists have the pages that nobody holds.
  have hsame : ∀ p, p ∈ l ↔ p ∈ l' := by
    intro p
    constructor
    · intro hp
      exact ((hpages' p).mp ((hpages p).mpr (Or.inl hp))).resolve_right (fun ⟨j, hj⟩ => hfree p hp j hj)
    · intro hp
      exact ((hpages p).mp ((hpages' p).mpr (Or.inl hp))).resolve_right (fun ⟨j, hj⟩ => hfree' p hp j hj)
  have hlength : l.length = l'.length := by
    have hperm : l.Perm l' := (List.perm_ext_iff_of_nodup hnodup hnodup').mpr hsame
    exact hperm.length_eq
  cases l' with
  | nil =>
      have hnil : l = [] := List.length_eq_zero_iff.mp hlength
      rw [hnil] at hchain
      exact hstale (hchain.trans hchain'.symm)
  | cons a l' =>
      have ha : a ∈ l := (hsame a).mpr List.mem_cons_self
      have hfrom : Chain s.nextFree (some a) (a :: l') := by
        rw [← hchain'.1]
        exact hchain'
      obtain ⟨front, hfront⟩ := hchain.suffix ha hfrom
      have hnone : front = [] := by
        rw [hfront, List.length_append] at hlength
        exact List.length_eq_zero_iff.mp (by omega)
      rw [hfront, hnone] at hchain
      exact hstale (hchain.1.trans hchain'.1.symm)

/-! ## Putting a page back -/

omit [DecidableEq ι] in
/-- The write of `next_free` by the caller that frees the page. -/
theorem OneHolder.link (h : OneHolder pages s) {p : Nat} (hp : p ∈ s.held i) (current : Option Nat) :
    OneHolder pages { s with nextFree := Function.update s.nextFree p current } := by
  obtain ⟨l, hchain, hnodup, hfree, hpages⟩ := h.list
  refine ⟨⟨l, hchain.congr ?_, hnodup, hfree, hpages⟩, h.unique, h.nodup⟩
  intro a ha
  apply Function.update_of_ne
  rintro rfl
  exact hfree a ha i hp

theorem Callers.link (h : Callers s) (hholder : OneHolder pages s) {p : Nat} {current : Option Nat}
    (hphase : s.phase i = .pushHead p current) :
    Callers { (s.goto i (.pushSwap p current)) with nextFree := Function.update s.nextFree p current } := by
  have hp : p ∈ s.held i := h.freeing i p (by rw [hphase]; rfl)
  refine ⟨?_, ?_, ?_⟩
  · intro j q hq
    have hq : (Function.update s.phase i (.pushSwap p current) j).freeing = some q := hq
    by_cases hji : j = i
    · subst hji
      rw [Function.update_self] at hq
      obtain rfl : p = q := Option.some.inj hq
      exact hp
    · rw [Function.update_of_ne hji] at hq
      exact h.freeing j q hq
  · intro j q c hq
    have hupdate : Function.update s.phase i (.pushSwap p current) j = .pushSwap q c := hq
    show Function.update s.nextFree p current q = c
    by_cases hji : j = i
    · subst hji
      rw [Function.update_self] at hupdate
      obtain ⟨rfl, rfl⟩ := Phase.pushSwap.inj hupdate
      rw [Function.update_self]
    · rw [Function.update_of_ne hji] at hupdate
      -- Another caller frees another page.
      have hheld : q ∈ s.held j := h.freeing j q (by rw [hupdate]; rfl)
      have hqp : q ≠ p := fun he => hji (hholder.unique q j i hheld (he ▸ hp))
      rw [Function.update_of_ne hqp]
      exact h.linked j q c hupdate
  · intro j hj
    have hj : Function.update s.phase i (.pushSwap p current) j = .popHead none := hj
    by_cases hji : j = i
    · subst hji
      rw [Function.update_self] at hj
      cases hj
    · rw [Function.update_of_ne hji] at hj
      exact h.notNull j hj

/-- The state after a swap of `_pfa_free_page` that succeeds. -/
def pushed (s : Freelist ι) (i : ι) (newHead : Nat) : Freelist ι :=
  { (s.goto i .idle) with
    freelistHead := some newHead
    held := Function.update s.held i ((s.held i).erase newHead) }

theorem mem_held_pushed (h : OneHolder pages s) {newHead p : Nat} {j : ι} (hp : newHead ∈ s.held i) :
    p ∈ (pushed s i newHead).held j ↔ p ≠ newHead ∧ p ∈ s.held j := by
  show p ∈ Function.update s.held i ((s.held i).erase newHead) j ↔ _
  by_cases hji : j = i
  · subst hji
    rw [Function.update_self]
    exact (h.nodup j).mem_erase_iff
  · rw [Function.update_of_ne hji]
    constructor
    · intro hj
      refine ⟨?_, hj⟩
      rintro rfl
      exact hji (h.unique p j i hj hp)
    · exact fun hj => hj.2

/-- **A page is put on the list**, and its caller does not hold it any more. -/
theorem OneHolder.pushed (h : OneHolder pages s) {newHead : Nat} (hp : newHead ∈ s.held i)
    (hlink : s.nextFree newHead = s.freelistHead) : OneHolder pages (pushed s i newHead) := by
  obtain ⟨l, hchain, hnodup, hfree, hpages⟩ := h.list
  have hnew : newHead ∉ l := fun hmem => hfree newHead hmem i hp
  refine ⟨⟨newHead :: l, ⟨rfl, ?_⟩, List.nodup_cons.mpr ⟨hnew, hnodup⟩, ?_, ?_⟩, ?_, ?_⟩
  · show Chain s.nextFree (s.nextFree newHead) l
    rw [hlink]
    exact hchain
  · intro p hmem j hj
    obtain ⟨hne, hj⟩ := (mem_held_pushed h hp).mp hj
    rcases List.mem_cons.mp hmem with rfl | hmem
    · exact hne rfl
    · exact hfree p hmem j hj
  · intro p
    rw [hpages p, List.mem_cons]
    constructor
    · rintro (hmem | ⟨j, hj⟩)
      · exact Or.inl (Or.inr hmem)
      · by_cases he : p = newHead
        · exact Or.inl (Or.inl he)
        · exact Or.inr ⟨j, (mem_held_pushed h hp).mpr ⟨he, hj⟩⟩
    · rintro ((rfl | hmem) | ⟨j, hj⟩)
      · exact Or.inr ⟨i, hp⟩
      · exact Or.inl hmem
      · exact Or.inr ⟨j, ((mem_held_pushed h hp).mp hj).2⟩
  · intro p j k hj hk
    exact h.unique p j k ((mem_held_pushed h hp).mp hj).2 ((mem_held_pushed h hp).mp hk).2
  · intro j
    show (Function.update s.held i ((s.held i).erase newHead) j).Nodup
    by_cases hji : j = i
    · subst hji
      rw [Function.update_self]
      exact (h.nodup j).erase _
    · rw [Function.update_of_ne hji]
      exact h.nodup j

theorem Callers.pushed (h : Callers s) (hholder : OneHolder pages s) {newHead : Nat} {current : Option Nat}
    (hphase : s.phase i = .pushSwap newHead current) : Callers (pushed s i newHead) := by
  have hp : newHead ∈ s.held i := h.freeing i newHead (by rw [hphase]; rfl)
  have hgoto : Callers (s.goto i .idle) := h.goto nofun nofun nofun
  refine ⟨?_, hgoto.linked, hgoto.notNull⟩
  intro j q hq
  have hheld : q ∈ s.held j := hgoto.freeing j q hq
  refine (mem_held_pushed hholder hp).mpr ⟨?_, hheld⟩
  -- The caller of the page is done, and no other one frees it.
  rintro rfl
  obtain rfl := hholder.unique q j i hheld hp
  have hq : (Function.update s.phase j Phase.idle j).freeing = some q := hq
  rw [Function.update_self] at hq
  cases hq

/-! ## Runs -/

/-- **One step keeps one holder for each page**, if its swap is fresh. -/
theorem step_keeps {a : PfaAct ι} (hholder : OneHolder pages s) (hcallers : Callers s) (hfresh : Fresh s a)
    (hstep : step s a = .ok s') : OneHolder pages s' ∧ Callers s' := by
  cases a with
  | alloc i =>
      unfold step at hstep
      dsimp only at hstep
      split at hstep
      · cases hstep
        exact ⟨hholder, hcallers⟩
      · cases hstep
        exact ⟨hholder.goto _ _, hcallers.goto nofun nofun nofun⟩
      · cases hstep
  | free i page =>
      unfold step at hstep
      dsimp only at hstep
      by_cases hheld : page ∈ s.held i
      · rw [if_neg (not_not.mpr hheld)] at hstep
        split at hstep
        · cases hstep
          refine ⟨hholder.goto _ _, hcallers.goto ?_ nofun nofun⟩
          intro q hq
          obtain rfl : page = q := Option.some.inj hq
          exact hheld
        · cases hstep
      · rw [if_pos hheld] at hstep
        cases hstep
  | next i =>
      unfold Fresh at hfresh
      unfold step at hstep
      cases hphase : s.phase i with
      | idle =>
          simp only [hphase] at hstep
          cases hstep
      | popHead head =>
          cases head with
          | none => exact absurd hphase (hcallers.notNull i)
          | some head =>
              simp only [hphase] at hstep
              cases hstep
              exact ⟨hholder.goto _ _, hcallers.goto nofun nofun nofun⟩
      | popSwap head nextHead =>
          simp only [hphase] at hstep hfresh
          by_cases hhead : s.freelistHead = some head
          · rw [if_pos hhead] at hstep hfresh
            cases hstep
            subst hfresh
            exact ⟨hholder.popped hhead, hcallers.popped _ _⟩
          · rw [if_neg hhead] at hstep hfresh
            cases hstep
            refine ⟨hholder.goto _ _, hcallers.goto nofun nofun ?_⟩
            intro he
            exact hfresh (Phase.popHead.inj he)
      | pushHead newHead current =>
          simp only [hphase] at hstep
          cases hstep
          have hp : newHead ∈ s.held i := hcallers.freeing i newHead (by rw [hphase]; rfl)
          exact ⟨(hholder.goto i _).link hp current, hcallers.link hholder hphase⟩
      | pushSwap newHead current =>
          simp only [hphase] at hstep
          have hp : newHead ∈ s.held i := hcallers.freeing i newHead (by rw [hphase]; rfl)
          by_cases hhead : s.freelistHead = current
          · rw [if_pos hhead] at hstep
            cases hstep
            have hlink : s.nextFree newHead = s.freelistHead := by
              rw [hhead]
              exact hcallers.linked i newHead current hphase
            exact ⟨hholder.pushed hp hlink, hcallers.pushed hholder hphase⟩
          · rw [if_neg hhead] at hstep
            cases hstep
            refine ⟨hholder.goto _ _, hcallers.goto ?_ nofun nofun⟩
            intro q hq
            obtain rfl : newHead = q := Option.some.inj hq
            exact hp

/-- `NULL` is followed by a caller that has read it only. -/
theorem step_nullHead {a : PfaAct ι} (h : step s a = .error .nullHead) : ∃ i, s.phase i = .popHead none := by
  cases a with
  | alloc i =>
      unfold step at h
      dsimp only at h
      split at h <;> cases h
  | free i page =>
      unfold step at h
      dsimp only at h
      split at h
      · cases h
      · split at h <;> cases h
  | next i =>
      refine ⟨i, ?_⟩
      unfold step at h
      dsimp only at h
      split at h
      · cases h
      · assumption
      · cases h
      · split at h <;> cases h
      · cases h
      · split at h <;> cases h

/-- A swap that is not fresh breaks the list, or lets its caller follow `NULL` next. -/
theorem not_fresh_breaks (hholder : OneHolder pages s) {i : ι} (hfresh : ¬ Fresh s (.next i))
    (hstep : step s (.next i) = .ok s') : ¬ OneHolder pages s' ∨ step s' (.next i) = .error .nullHead := by
  unfold Fresh at hfresh
  unfold step at hstep
  cases hphase : s.phase i with
  | popSwap head nextHead =>
      simp only [hphase] at hstep hfresh
      by_cases hhead : s.freelistHead = some head
      · rw [if_pos hhead] at hstep hfresh
        cases hstep
        exact Or.inl (not_oneHolder_of_stale hholder hhead hfresh)
      · rw [if_neg hhead] at hstep hfresh
        cases hstep
        right
        have hnow : (s.goto i (.popHead s.freelistHead)).phase i = .popHead none := by
          show Function.update s.phase i _ i = _
          rw [Function.update_self, not_not.mp hfresh]
        unfold step
        simp only [hnow]
  | idle => simp [hphase] at hfresh
  | popHead head => simp [hphase] at hfresh
  | pushHead newHead current => simp [hphase] at hfresh
  | pushSwap newHead current => simp [hphase] at hfresh

/-- **Each page has one holder**, for any number of callers and in every interleaving in which each swap that takes a
    page finds its `next_free` as it was read and each that fails finds a page; nobody follows `NULL`. A swap that does
    not breaks the list, or its caller follows `NULL`. -/
theorem freelist_one_holder {s₀ : Freelist ι} (hstart : OneHolder pages s₀) (hidle : ∀ i, s₀.phase i = .idle)
    (hrun : Reaches step Fresh s₀ s) :
    OneHolder pages s ∧ (∀ a, step s a ≠ .error .nullHead) ∧
      ∀ i s', ¬ Fresh s (.next i) → step s (.next i) = .ok s' →
        ¬ OneHolder pages s' ∨ step s' (.next i) = .error .nullHead := by
  have hkept : OneHolder pages s ∧ Callers s := by
    refine hrun.invariant (fun s => OneHolder pages s ∧ Callers s) ⟨hstart, ?_⟩ ?_
    · refine ⟨?_, ?_, ?_⟩
      · intro i p hp
        rw [hidle i] at hp
        cases hp
      · intro i p current hp
        rw [hidle i] at hp
        cases hp
      · intro i hi
        rw [hidle i] at hi
        cases hi
    · intro s a s' h hfresh hstep
      exact step_keeps h.1 h.2 hfresh hstep
  refine ⟨hkept.1, ?_, ?_⟩
  · intro a ha
    obtain ⟨i, hi⟩ := step_nullHead ha
    exact hkept.2.notNull i hi
  · intro i s' hfresh hstep
    exact not_fresh_breaks hkept.1 hfresh hstep

/-! ## Two callers and three pages -/

/-- The list of pages 1, 2 and 3, and two callers that hold nothing. -/
def threePages : Freelist Bool where
  freelistHead := some 1
  nextFree := fun p => if p = 1 then some 2 else if p = 2 then some 3 else none
  phase := fun _ => .idle
  held := fun _ => []

theorem threePages_oneHolder : OneHolder [1, 2, 3] threePages where
  list := by
    refine ⟨[1, 2, 3], ⟨rfl, rfl, rfl, rfl⟩, by decide, ?_, ?_⟩
    · intro p _ i hp
      cases hp
    · intro p
      constructor
      · exact Or.inl
      · rintro (hp | ⟨i, hp⟩)
        · exact hp
        · cases hp
  unique := by
    intro p i j hp
    cases hp
  nodup := fun _ => List.nodup_nil

/-- Both callers read the head; one takes the page, and the other gets the next one on its second try. -/
theorem two_callers_two_pages :
    ∃ s, Reaches step Fresh threePages s ∧ s.held true = [1] ∧ s.held false = [2] ∧ OneHolder [1, 2, 3] s := by
  obtain ⟨-, s, -, hrun, hpost⟩ := exists_of_sample (.ok ()) (fun _ => threePages) step
    (fun s a => decide (Fresh s a))
    [.alloc true, .alloc false, .next true, .next false, .next true, .next false, .next false, .next false]
    (fun _ s => decide (s.held true = [1] ∧ s.held false = [2])) (fun _ _ h => of_decide_eq_true h) (by decide)
  obtain ⟨hholder, -⟩ := freelist_one_holder threePages_oneHolder (fun _ => rfl) hrun
  obtain ⟨h1, h2⟩ := of_decide_eq_true hpost
  exact ⟨s, hrun, h1, h2, hholder⟩

/-- **A page is handed out twice.** One caller reads page 1 and its `next_free`; the other takes pages 1 and 2 and puts
    page 1 back; the swap of the first then succeeds and puts page 2, which is held, at the head. -/
theorem stale_next_free :
    ∃ s, Reaches step (fun _ _ => True) threePages s ∧ 2 ∈ s.held false ∧ s.freelistHead = some 2 ∧
      ¬ OneHolder [1, 2, 3] s := by
  obtain ⟨-, s, -, hrun, hpost⟩ := exists_of_sample (.ok ()) (fun _ => threePages) step (fun _ _ => true)
    [.alloc true, .next true, .alloc false, .next false, .next false, .alloc false, .next false, .next false,
      .free false 1, .next false, .next false, .next true]
    (fun _ s => decide (2 ∈ s.held false ∧ s.freelistHead = some 2)) (fun _ _ _ => trivial) (by decide)
  obtain ⟨hheld, hhead⟩ := of_decide_eq_true hpost
  refine ⟨s, hrun, hheld, hhead, ?_⟩
  intro h
  obtain ⟨l, hchain, -, hfree, -⟩ := h.list
  cases l with
  | nil =>
      rw [hhead] at hchain
      cases hchain
  | cons a l =>
      obtain rfl : a = 2 := Option.some.inj (hchain.1.symm.trans hhead)
      exact hfree 2 List.mem_cons_self false hheld

/-- **`pfa_alloc_page` follows `NULL`** if the list runs empty between its reads and its swap. -/
theorem follows_null :
    ∃ s, Reaches step (fun _ _ => True) threePages s ∧ step s (.next true) = .error .nullHead := by
  obtain ⟨-, s, -, hrun, hpost⟩ := exists_of_sample (.ok ()) (fun _ => threePages) step (fun _ _ => true)
    [.alloc true, .next true, .alloc false, .next false, .next false, .alloc false, .next false, .next false,
      .alloc false, .next false, .next false, .next true]
    (fun _ s => failsWith (step s (.next true)) .nullHead) (fun _ _ _ => trivial) (by decide)
  exact ⟨s, hrun, eq_error_of_failsWith hpost⟩

end LearningOS.PageAlloc
