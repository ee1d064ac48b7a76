import Mathlib.Algebra.Order.BigOperators.Group.List
import Mathlib.Algebra.Order.Ring.Nat
import Mathlib.Data.List.Nodup
import Mathlib.Data.List.Perm.Subperm
import Mathlib.Logic.Function.Basic

/-!
# `Mm.Slab.Pool` — what a slab cache is for

The abstract state of a cache: which slabs are wholly free, partly used and full, and for each slab the chain of
its free cells, first one first. Slabs are any numbers and cells are indices below `n`; there are no bytes here.

* `Pool.Ok n` — every slab is on exactly one list, the one its number of free cells says;
* `Pool.add`, `Pool.pick`, `Pool.take`, `Pool.give` — a new slab, the slab to allocate from, a cell taken, a cell
  given back, each with the lemma that it keeps `Pool.Ok`.
-/

namespace LearningOS.Slab

/-- The lists of a cache and the free cells of its slabs. -/
structure Pool where
  frees : List Nat
  partials : List Nat
  fulls : List Nat
  chain : Nat → List Nat

/-- All slabs of the cache. -/
def Pool.slabs (p : Pool) : List Nat := p.frees ++ (p.partials ++ p.fulls)

/-- The cache without slabs. -/
def Pool.empty : Pool := ⟨[], [], [], fun _ => []⟩

/-- Every slab is on one list, its free cells are distinct and in range, and their number says which list. -/
structure Pool.Ok (n : Nat) (p : Pool) : Prop where
  nodup : p.slabs.Nodup
  distinct : ∀ s ∈ p.slabs, (p.chain s).Nodup
  inRange : ∀ s ∈ p.slabs, ∀ i ∈ p.chain s, i < n
  onFrees : ∀ s ∈ p.frees, (p.chain s).length = n
  onPartials : ∀ s ∈ p.partials, 0 < (p.chain s).length ∧ (p.chain s).length < n
  onFulls : ∀ s ∈ p.fulls, p.chain s = []

theorem Pool.mem_slabs {p : Pool} {s : Nat} : s ∈ p.slabs ↔ s ∈ p.frees ∨ s ∈ p.partials ∨ s ∈ p.fulls := by
  simp only [Pool.slabs, List.mem_append]

/-- A chain without repetition has at most one entry for each cell, and all of them if it has `n`. -/
theorem length_le_of_inRange {n : Nat} {l : List Nat} (hd : l.Nodup) (hr : ∀ i ∈ l, i < n) : l.length ≤ n := by
  have hsub : l ⊆ List.range n := fun i hi => List.mem_range.mpr (hr i hi)
  simpa using (hd.subperm hsub).length_le

theorem mem_of_length_eq {n : Nat} {l : List Nat} (hd : l.Nodup) (hr : ∀ i ∈ l, i < n) (hlen : l.length = n)
    {i : Nat} (hi : i < n) : i ∈ l := by
  have hsub : l ⊆ List.range n := fun i hi => List.mem_range.mpr (hr i hi)
  have hperm : l.Perm (List.range n) := (hd.subperm hsub).perm_of_length_le (by simp [hlen])
  exact hperm.mem_iff.mpr (List.mem_range.mpr hi)

/-! ## Operations -/

/-- Give a slab another chain. -/
def Pool.setChain (p : Pool) (s : Nat) (l : List Nat) : Pool := { p with chain := Function.update p.chain s l }

/-- A new slab, all of its cells free. -/
def Pool.add (n : Nat) (p : Pool) (s : Nat) : Pool :=
  { frees := s :: p.frees
    partials := p.partials
    fulls := p.fulls
    chain := Function.update p.chain s (List.range n) }

/-- New slabs, one after the other. -/
def Pool.addAll (n : Nat) (p : Pool) : List Nat → Pool
  | [] => p
  | s :: l => (p.add n s).addAll n l

/-- The slab to allocate from, made the head of the partly used ones; `fresh` is the slab to create if there is
    none with a free cell. -/
def Pool.pick (n : Nat) (p : Pool) (fresh : Nat) : Nat × Pool :=
  match p.partials, p.frees with
  | s :: _, _ => (s, p)
  | [], s :: rest => (s, { p with frees := rest, partials := [s] })
  | [], [] =>
    (fresh, { p with partials := [fresh], chain := Function.update p.chain fresh (List.range n) })

/-- Take the first free cell of a slab; a slab without free cells goes to the full ones. -/
def Pool.take (p : Pool) (s : Nat) : Pool :=
  let rest := (p.chain s).tail
  if rest = [] then
    { (p.setChain s rest) with partials := p.partials.erase s, fulls := s :: p.fulls }
  else p.setChain s rest

/-- Give cell `i` of a slab back, and move the slab if it was full or is wholly free now. -/
def Pool.give (n : Nat) (p : Pool) (s i : Nat) : Pool :=
  let chain := i :: p.chain s
  if p.chain s = [] then
    { (p.setChain s chain) with fulls := p.fulls.erase s, partials := s :: p.partials }
  else if chain.length = n then
    { (p.setChain s chain) with partials := p.partials.erase s, frees := s :: p.frees }
  else p.setChain s chain

section Ok

variable {n : Nat} {p : Pool} {s : Nat}

@[simp] theorem setChain_self (l : List Nat) : (p.setChain s l).chain s = l := Function.update_self ..

theorem setChain_of_ne {t : Nat} (h : t ≠ s) (l : List Nat) : (p.setChain s l).chain t = p.chain t :=
  Function.update_of_ne h ..

@[simp] theorem setChain_slabs (l : List Nat) : (p.setChain s l).slabs = p.slabs := rfl

theorem Pool.empty_ok (n : Nat) : Pool.empty.Ok n := by
  refine ⟨List.nodup_nil, ?_, ?_, ?_, ?_, ?_⟩
  all_goals
    intro s hs
    cases hs

/-- The three lists are disjoint. -/
theorem Pool.Ok.disjoint (h : p.Ok n) :
    (∀ t ∈ p.partials, t ∉ p.frees) ∧ (∀ t ∈ p.fulls, t ∉ p.frees) ∧ (∀ t ∈ p.fulls, t ∉ p.partials) := by
  obtain ⟨-, hrest, hdisj⟩ := List.nodup_append'.mp h.nodup
  obtain ⟨-, -, hdisj'⟩ := List.nodup_append'.mp hrest
  refine ⟨fun t ht hf => hdisj hf (List.mem_append_left _ ht), fun t ht hf => ?_, fun t ht hp => hdisj' hp ht⟩
  exact hdisj hf (List.mem_append_right _ ht)

theorem Pool.add_ok (h : p.Ok n) (hs : s ∉ p.slabs) : (p.add n s).Ok n := by
  have hchain : ∀ t ∈ p.slabs, (p.add n s).chain t = p.chain t :=
    fun t ht => Function.update_of_ne (fun he : t = s => hs (he ▸ ht)) ..
  have hself : (p.add n s).chain s = List.range n := Function.update_self ..
  have hsplit : ∀ t, t ∈ (p.add n s).slabs → t = s ∨ t ∈ p.slabs := fun t ht => List.mem_cons.mp ht
  refine ⟨List.nodup_cons.mpr ⟨hs, h.nodup⟩, fun t ht => ?_, fun t ht => ?_, fun t ht => ?_, fun t ht => ?_,
    fun t ht => ?_⟩
  · rcases hsplit t ht with rfl | ht
    · rw [hself]
      exact List.nodup_range
    · rw [hchain t ht]
      exact h.distinct t ht
  · rcases hsplit t ht with rfl | ht
    · rw [hself]
      exact fun i hi => List.mem_range.mp hi
    · rw [hchain t ht]
      exact h.inRange t ht
  · rcases List.mem_cons.mp ht with rfl | ht
    · rw [hself, List.length_range]
    · rw [hchain t (Pool.mem_slabs.mpr (.inl ht))]
      exact h.onFrees t ht
  · rw [hchain t (Pool.mem_slabs.mpr (.inr (.inl ht)))]
    exact h.onPartials t ht
  · rw [hchain t (Pool.mem_slabs.mpr (.inr (.inr ht)))]
    exact h.onFulls t ht

theorem Pool.addAll_slabs (p : Pool) (l : List Nat) : (p.addAll n l).slabs = l.reverse ++ p.slabs := by
  induction l generalizing p with
  | nil => rfl
  | cons s l ih =>
      show ((p.add n s).addAll n l).slabs = _
      rw [ih, List.reverse_cons, List.append_assoc]
      rfl

theorem Pool.addAll_chain (p : Pool) (l : List Nat) (t : Nat) :
    (p.addAll n l).chain t = if t ∈ l then List.range n else p.chain t := by
  induction l generalizing p with
  | nil => rw [if_neg List.not_mem_nil]; rfl
  | cons s l ih =>
      show ((p.add n s).addAll n l).chain t = _
      rw [ih]
      by_cases htl : t ∈ l
      · rw [if_pos htl, if_pos (List.mem_cons_of_mem _ htl)]
      · rw [if_neg htl]
        by_cases hts : t = s
        · rw [if_pos (hts ▸ List.mem_cons_self), hts]
          exact Function.update_self ..
        · rw [if_neg (fun hm => (List.mem_cons.mp hm).elim hts htl)]
          exact Function.update_of_ne hts ..

theorem Pool.addAll_lists (p : Pool) (l : List Nat) :
    (p.addAll n l).frees = l.reverse ++ p.frees ∧ (p.addAll n l).partials = p.partials ∧
    (p.addAll n l).fulls = p.fulls := by
  induction l generalizing p with
  | nil => exact ⟨rfl, rfl, rfl⟩
  | cons s l ih =>
      obtain ⟨h1, h2, h3⟩ := ih (p.add n s)
      refine ⟨?_, h2, h3⟩
      show ((p.add n s).addAll n l).frees = _
      rw [h1, List.reverse_cons, List.append_assoc]
      rfl

/-- A pool between the two halves of an allocation: the slab picked is on the partly used ones with a free cell,
    and may still have all of them. -/
structure Pool.Picked (n : Nat) (p : Pool) (s : Nat) : Prop where
  nodup : p.slabs.Nodup
  distinct : ∀ t ∈ p.slabs, (p.chain t).Nodup
  inRange : ∀ t ∈ p.slabs, ∀ i ∈ p.chain t, i < n
  onFrees : ∀ t ∈ p.frees, (p.chain t).length = n
  onPartials : ∀ t ∈ p.partials, t ≠ s → 0 < (p.chain t).length ∧ (p.chain t).length < n
  onFulls : ∀ t ∈ p.fulls, p.chain t = []
  mem : s ∈ p.partials
  hasCell : p.chain s ≠ []

theorem Pool.Picked.mem_slabs (h : p.Picked n s) : s ∈ p.slabs := Pool.mem_slabs.mpr (.inr (.inl h.mem))

theorem range_ne_nil (hn : 0 < n) : List.range n ≠ [] := by
  intro h
  have := congrArg List.length h
  rw [List.length_range, List.length_nil] at this
  omega

/-- The slab picked is ready to be taken from. -/
theorem Pool.pick_picked (h : p.Ok n) (hn : 0 < n) {fresh : Nat} (hfresh : p.partials = [] → p.frees = [] →
    fresh ∉ p.slabs) : (p.pick n fresh).2.Picked n (p.pick n fresh).1 := by
  obtain ⟨frees, partials, fulls, chain⟩ := p
  cases partials with
  | cons s rest =>
      refine ⟨h.nodup, h.distinct, h.inRange, h.onFrees, fun t ht _ => h.onPartials t ht, h.onFulls,
        List.mem_cons_self, ?_⟩
      exact List.ne_nil_of_length_pos (h.onPartials s List.mem_cons_self).1
  | nil =>
      cases frees with
      | cons s rest =>
          -- The slabs are the same, with `s` between the free and the full ones.
          have hperm : ((rest ++ ([s] ++ fulls)) : List Nat).Perm ((s :: rest) ++ ([] ++ fulls)) :=
            List.perm_middle
          have hmem : ∀ t, t ∈ (rest ++ ([s] ++ fulls)) → t ∈ (s :: rest) ++ ([] ++ fulls) :=
            fun t ht => hperm.mem_iff.mp ht
          refine ⟨hperm.nodup_iff.mpr h.nodup, fun t ht => h.distinct t (hmem t ht),
            fun t ht => h.inRange t (hmem t ht), fun t ht => h.onFrees t (List.mem_cons_of_mem _ ht), ?_, h.onFulls,
            List.mem_cons_self, ?_⟩
          · intro t ht hne
            exact absurd (List.mem_singleton.mp ht) hne
          · have hlen := h.onFrees s List.mem_cons_self
            exact List.ne_nil_of_length_pos (hlen ▸ hn)
      | nil =>
          have hnew : fresh ∉ fulls := hfresh rfl rfl
          have hself : Function.update chain fresh (List.range n) fresh = List.range n := Function.update_self ..
          have hother : ∀ t ∈ fulls, Function.update chain fresh (List.range n) t = chain t :=
            fun t ht => Function.update_of_ne (fun he : t = fresh => hnew (he ▸ ht)) ..
          refine ⟨List.nodup_cons.mpr ⟨hnew, h.nodup⟩, fun t ht => ?_, fun t ht => ?_, fun t ht => ?_, ?_, ?_,
            List.mem_cons_self, ?_⟩
          · rcases List.mem_cons.mp ht with rfl | ht
            · show (Function.update chain t (List.range n) t).Nodup
              rw [hself]
              exact List.nodup_range
            · show (Function.update chain fresh (List.range n) t).Nodup
              rw [hother t ht]
              exact h.distinct t ht
          · rcases List.mem_cons.mp ht with rfl | ht
            · show ∀ i ∈ Function.update chain t (List.range n) t, i < n
              rw [hself]
              exact fun i hi => List.mem_range.mp hi
            · show ∀ i ∈ Function.update chain fresh (List.range n) t, i < n
              rw [hother t ht]
              exact h.inRange t ht
          · cases ht
          · intro t ht hne
            exact absurd (List.mem_singleton.mp ht) hne
          · intro t ht
            exact (hother t ht).trans (h.onFulls t ht)
          · show Function.update chain fresh (List.range n) fresh ≠ []
            rw [hself]
            exact range_ne_nil hn

/-- The slabs after picking: those of the pool, and the one created. -/
theorem Pool.mem_pick_slabs {fresh t : Nat} (ht : t ∈ (p.pick n fresh).2.slabs) :
    t ∈ p.slabs ∨ t = fresh ∧ p.partials = [] ∧ p.frees = [] := by
  obtain ⟨frees, partials, fulls, chain⟩ := p
  cases partials with
  | cons s rest => exact .inl ht
  | nil =>
      cases frees with
      | cons s rest =>
          have hperm : (rest ++ ([s] ++ fulls)).Perm (s :: rest ++ ([] ++ fulls)) := List.perm_middle
          exact .inl (hperm.mem_iff.mp ht)
      | nil =>
          rcases List.mem_cons.mp ht with rfl | ht
          · exact .inr ⟨rfl, rfl, rfl⟩
          · exact .inl ht

/-- The chains after picking: those of the pool, and the full one of a slab created. -/
theorem Pool.pick_chain {fresh t : Nat} (ht : t ∈ p.slabs) (hfresh : p.partials = [] → p.frees = [] → fresh ∉ p.slabs) :
    (p.pick n fresh).2.chain t = p.chain t ∧ t ∈ (p.pick n fresh).2.slabs := by
  obtain ⟨frees, partials, fulls, chain⟩ := p
  cases partials with
  | cons s rest => exact ⟨rfl, ht⟩
  | nil =>
      cases frees with
      | cons s rest =>
          have hperm : (rest ++ ([s] ++ fulls)).Perm (s :: rest ++ ([] ++ fulls)) := List.perm_middle
          exact ⟨rfl, hperm.mem_iff.mpr ht⟩
      | nil =>
          have hne : t ≠ fresh := fun he => hfresh rfl rfl (he ▸ ht)
          exact ⟨Function.update_of_ne hne .., List.mem_cons_of_mem _ ht⟩

/-- The slabs after picking, as a list. -/
theorem Pool.pick_slabs_perm (p : Pool) (fresh : Nat) :
    (p.pick n fresh).2.slabs.Perm (if p.partials = [] ∧ p.frees = [] then fresh :: p.slabs else p.slabs) := by
  obtain ⟨frees, partials, fulls, chain⟩ := p
  cases partials with
  | cons s rest =>
      rw [if_neg (fun h => List.cons_ne_nil _ _ h.1)]
      exact List.Perm.refl _
  | nil =>
      cases frees with
      | cons s rest =>
          rw [if_neg (fun h => List.cons_ne_nil _ _ h.2)]
          exact List.perm_middle
      | nil =>
          rw [if_pos ⟨rfl, rfl⟩]
          exact List.Perm.refl _

/-- A slab created has all its cells free. -/
theorem Pool.pick_created {fresh : Nat} (hp : p.partials = []) (hf : p.frees = []) :
    (p.pick n fresh).1 = fresh ∧ (p.pick n fresh).2.chain fresh = List.range n := by
  unfold Pool.pick
  rw [hp, hf]
  exact ⟨rfl, Function.update_self ..⟩

/-- Moving a slab from one list to the front of another keeps the slabs. -/
theorem slabs_move {a b c : List Nat} (hs : s ∈ a) : (a.erase s ++ (s :: b ++ c)).Perm (a ++ (b ++ c)) := by
  have h1 : (a.erase s ++ (s :: b ++ c)).Perm (s :: (a.erase s ++ (b ++ c))) := List.perm_middle
  have h2 : (s :: (a.erase s ++ (b ++ c))).Perm (a ++ (b ++ c)) := (List.perm_cons_erase hs).symm.append_right _
  exact h1.trans h2

/-- The last free cell is taken. -/
theorem Pool.take_last (h : (p.chain s).tail = []) :
    p.take s = { frees := p.frees, partials := p.partials.erase s, fulls := s :: p.fulls,
                 chain := Function.update p.chain s [] } := by
  simp only [Pool.take, h, if_true]
  rfl

/-- A free cell is left. -/
theorem Pool.take_more (h : (p.chain s).tail ≠ []) : p.take s = p.setChain s (p.chain s).tail := by
  simp only [Pool.take, if_neg h]

/-- A full slab gets a free cell. -/
theorem Pool.give_first {i : Nat} (h : p.chain s = []) :
    p.give n s i = { frees := p.frees, partials := s :: p.partials, fulls := p.fulls.erase s,
                     chain := Function.update p.chain s [i] } := by
  simp only [Pool.give, h, if_true]
  rfl

/-- The last used cell is given back. -/
theorem Pool.give_last {i : Nat} (h : p.chain s ≠ []) (hlen : (p.chain s).length + 1 = n) :
    p.give n s i = { frees := s :: p.frees, partials := p.partials.erase s, fulls := p.fulls,
                     chain := Function.update p.chain s (i :: p.chain s) } := by
  have hlen' : (i :: p.chain s).length = n := hlen
  simp only [Pool.give, if_neg h, if_pos hlen']
  rfl

/-- The slab stays partly used. -/
theorem Pool.give_more {i : Nat} (h : p.chain s ≠ []) (hlen : (p.chain s).length + 1 ≠ n) :
    p.give n s i = p.setChain s (i :: p.chain s) := by
  have hlen' : ¬ (i :: p.chain s).length = n := hlen
  simp only [Pool.give, if_neg h, if_neg hlen']

theorem Pool.take_slabs (hs : s ∈ p.partials) : (p.take s).slabs.Perm p.slabs := by
  by_cases hrest : (p.chain s).tail = []
  · rw [Pool.take_last hrest]
    have h := slabs_move (b := p.fulls) (c := []) hs
    rw [List.append_nil, List.append_nil] at h
    exact h.append_left _
  · rw [Pool.take_more hrest]
    exact List.Perm.refl _

/-- The chain after a cell was taken. -/
theorem Pool.take_chain (t : Nat) :
    (p.take s).chain t = if t = s then (p.chain s).tail else p.chain t := by
  by_cases hrest : (p.chain s).tail = []
  · rw [Pool.take_last hrest, hrest]
    exact Function.update_apply ..
  · rw [Pool.take_more hrest]
    exact Function.update_apply ..

/-- **Taking a cell** of the slab picked restores the invariant. -/
theorem Pool.take_ok (h : p.Picked n s) : (p.take s).Ok n := by
  have hperm := Pool.take_slabs h.mem
  have hmem : ∀ t, t ∈ (p.take s).slabs → t ∈ p.slabs := fun t ht => hperm.mem_iff.mp ht
  have hlen : (p.chain s).tail.length < n := by
    have hle := length_le_of_inRange (h.distinct s h.mem_slabs) (h.inRange s h.mem_slabs)
    have hpos := List.length_pos_of_ne_nil h.hasCell
    rw [List.length_tail]
    omega
  obtain ⟨-, hrest, hdisj⟩ := List.nodup_append'.mp h.nodup
  obtain ⟨hpn, -, hdisj'⟩ := List.nodup_append'.mp hrest
  have hsf : s ∉ p.frees := fun hf => hdisj hf (List.mem_append_left _ h.mem)
  have hsu : s ∉ p.fulls := fun hu => hdisj' h.mem hu
  have hfrees : (p.take s).frees = p.frees := by
    by_cases hrest' : (p.chain s).tail = []
    · rw [Pool.take_last hrest']
    · rw [Pool.take_more hrest']
      rfl
  have hother : ∀ t, t ≠ s → (p.take s).chain t = p.chain t := fun t ht => by rw [Pool.take_chain, if_neg ht]
  have hself : (p.take s).chain s = (p.chain s).tail := by rw [Pool.take_chain, if_pos rfl]
  refine ⟨hperm.nodup_iff.mpr h.nodup, fun t ht => ?_, fun t ht => ?_, fun t ht => ?_, fun t ht => ?_, fun t ht => ?_⟩
  · by_cases hts : t = s
    · rw [hts, hself]
      exact (h.distinct s h.mem_slabs).sublist (List.tail_sublist _)
    · rw [hother t hts]
      exact h.distinct t (hmem t ht)
  · by_cases hts : t = s
    · rw [hts, hself]
      exact fun i hi => h.inRange s h.mem_slabs i (List.mem_of_mem_tail hi)
    · rw [hother t hts]
      exact h.inRange t (hmem t ht)
  · rw [hfrees] at ht
    rw [hother t (fun he => hsf (he ▸ ht))]
    exact h.onFrees t ht
  · by_cases hrest' : (p.chain s).tail = []
    · have hpart : (p.take s).partials = p.partials.erase s := by
        rw [Pool.take_last hrest']
      rw [hpart] at ht
      have hts : t ≠ s := fun he => hpn.not_mem_erase (he ▸ ht)
      rw [hother t hts]
      exact h.onPartials t (List.mem_of_mem_erase ht) hts
    · have hpart : (p.take s).partials = p.partials := by
        rw [Pool.take_more hrest']
        rfl
      rw [hpart] at ht
      by_cases hts : t = s
      · rw [hts, hself]
        exact ⟨List.length_pos_of_ne_nil hrest', hlen⟩
      · rw [hother t hts]
        exact h.onPartials t ht hts
  · by_cases hrest' : (p.chain s).tail = []
    · have hfull : (p.take s).fulls = s :: p.fulls := by
        rw [Pool.take_last hrest']
      rw [hfull] at ht
      rcases List.mem_cons.mp ht with rfl | ht
      · rw [hself, hrest']
      · rw [hother t (fun he => hsu (he ▸ ht))]
        exact h.onFulls t ht
    · have hfull : (p.take s).fulls = p.fulls := by
        rw [Pool.take_more hrest']
        rfl
      rw [hfull] at ht
      rw [hother t (fun he => hsu (he ▸ ht))]
      exact h.onFulls t ht

/-- Where a slab with a used cell is. -/
theorem Pool.Ok.mem_of_used (h : p.Ok n) (hs : s ∈ p.slabs) {i : Nat} (hi : i < n) (hused : i ∉ p.chain s) :
    if p.chain s = [] then s ∈ p.fulls else s ∈ p.partials := by
  have hnf : s ∉ p.frees := fun hf =>
    hused (mem_of_length_eq (h.distinct s hs) (h.inRange s hs) (h.onFrees s hf) hi)
  rcases (Pool.mem_slabs.mp hs).resolve_left hnf with hp | hu
  · rw [if_neg (List.ne_nil_of_length_pos (h.onPartials s hp).1)]
    exact hp
  · rw [if_pos (h.onFulls s hu)]
    exact hu

theorem Pool.give_chain (i t : Nat) :
    (p.give n s i).chain t = if t = s then i :: p.chain s else p.chain t := by
  by_cases hempty : p.chain s = []
  · rw [Pool.give_first hempty, hempty]
    exact Function.update_apply ..
  · by_cases hlen : (p.chain s).length + 1 = n
    · rw [Pool.give_last hempty hlen]
      exact Function.update_apply ..
    · rw [Pool.give_more hempty hlen]
      exact Function.update_apply ..

theorem Pool.give_slabs (h : p.Ok n) (hs : s ∈ p.slabs) {i : Nat} (hi : i < n) (hused : i ∉ p.chain s) :
    (p.give n s i).slabs.Perm p.slabs := by
  have hwhere := h.mem_of_used hs hi hused
  by_cases hempty : p.chain s = []
  · rw [if_pos hempty] at hwhere
    rw [Pool.give_first hempty]
    refine List.Perm.append_left _ ?_
    have h1 : (s :: p.partials ++ p.fulls.erase s).Perm (p.partials ++ (s :: p.fulls.erase s)) := List.perm_middle.symm
    exact h1.trans ((List.perm_cons_erase hwhere).symm.append_left _)
  · rw [if_neg hempty] at hwhere
    by_cases hlen : (p.chain s).length + 1 = n
    · rw [Pool.give_last hempty hlen]
      have h1 : (s :: p.frees ++ (p.partials.erase s ++ p.fulls)).Perm (p.frees ++ (s :: (p.partials.erase s ++ p.fulls))) :=
        List.perm_middle.symm
      exact h1.trans (((List.perm_cons_erase hwhere).symm.append_right _).append_left _)
    · rw [Pool.give_more hempty hlen]
      exact List.Perm.refl _

/-- **Giving a cell back** keeps the invariant. -/
theorem Pool.give_ok (h : p.Ok n) (hn : 2 ≤ n) (hs : s ∈ p.slabs) {i : Nat} (hi : i < n)
    (hused : i ∉ p.chain s) : (p.give n s i).Ok n := by
  have hperm := Pool.give_slabs h hs hi hused
  have hmem : ∀ t, t ∈ (p.give n s i).slabs → t ∈ p.slabs := fun t ht => hperm.mem_iff.mp ht
  have hwhere := h.mem_of_used hs hi hused
  obtain ⟨hpf, huf, hup⟩ := h.disjoint
  obtain ⟨-, hrest, -⟩ := List.nodup_append'.mp h.nodup
  obtain ⟨hpn, hun, -⟩ := List.nodup_append'.mp hrest
  have hother : ∀ t, t ≠ s → (p.give n s i).chain t = p.chain t := fun t ht => by rw [Pool.give_chain, if_neg ht]
  have hself : (p.give n s i).chain s = i :: p.chain s := by rw [Pool.give_chain, if_pos rfl]
  have hdistinct : ∀ t ∈ (p.give n s i).slabs, ((p.give n s i).chain t).Nodup := by
    intro t ht
    by_cases hts : t = s
    · rw [hts, hself]
      exact List.nodup_cons.mpr ⟨hused, h.distinct s hs⟩
    · rw [hother t hts]
      exact h.distinct t (hmem t ht)
  have hrange : ∀ t ∈ (p.give n s i).slabs, ∀ j ∈ (p.give n s i).chain t, j < n := by
    intro t ht
    by_cases hts : t = s
    · rw [hts, hself]
      intro j hj
      rcases List.mem_cons.mp hj with rfl | hj
      · exact hi
      · exact h.inRange s hs j hj
    · rw [hother t hts]
      exact h.inRange t (hmem t ht)
  suffices hfiled : (∀ t ∈ (p.give n s i).frees, ((p.give n s i).chain t).length = n) ∧
      (∀ t ∈ (p.give n s i).partials, 0 < ((p.give n s i).chain t).length ∧ ((p.give n s i).chain t).length < n) ∧
      (∀ t ∈ (p.give n s i).fulls, (p.give n s i).chain t = []) from
    ⟨hperm.nodup_iff.mpr h.nodup, hdistinct, hrange, hfiled.1, hfiled.2.1, hfiled.2.2⟩
  by_cases hempty : p.chain s = []
  · rw [if_pos hempty] at hwhere
    have hsf := huf s hwhere
    have hsp := hup s hwhere
    have hlists : (p.give n s i).frees = p.frees ∧ (p.give n s i).partials = s :: p.partials ∧
        (p.give n s i).fulls = p.fulls.erase s := by
      rw [Pool.give_first hempty]
      exact ⟨rfl, rfl, rfl⟩
    rw [hlists.1, hlists.2.1, hlists.2.2]
    refine ⟨fun t ht => ?_, fun t ht => ?_, fun t ht => ?_⟩
    · rw [hother t (fun he => hsf (he ▸ ht))]
      exact h.onFrees t ht
    · rcases List.mem_cons.mp ht with rfl | ht
      · rw [hself, hempty]
        exact ⟨Nat.one_pos, hn⟩
      · rw [hother t (fun he => hsp (he ▸ ht))]
        exact h.onPartials t ht
    · rw [hother t (fun he => hun.not_mem_erase (he ▸ ht))]
      exact h.onFulls t (List.mem_of_mem_erase ht)
  · rw [if_neg hempty] at hwhere
    have hsf := hpf s hwhere
    have hsu : s ∉ p.fulls := fun hu => hup s hu hwhere
    have hlt := (h.onPartials s hwhere).2
    by_cases hlen : (p.chain s).length + 1 = n
    · have hlists : (p.give n s i).frees = s :: p.frees ∧ (p.give n s i).partials = p.partials.erase s ∧
          (p.give n s i).fulls = p.fulls := by
        rw [Pool.give_last hempty hlen]
        exact ⟨rfl, rfl, rfl⟩
      rw [hlists.1, hlists.2.1, hlists.2.2]
      refine ⟨fun t ht => ?_, fun t ht => ?_, fun t ht => ?_⟩
      · rcases List.mem_cons.mp ht with rfl | ht
        · rw [hself]
          exact hlen
        · rw [hother t (fun he => hsf (he ▸ ht))]
          exact h.onFrees t ht
      · rw [hother t (fun he => hpn.not_mem_erase (he ▸ ht))]
        exact h.onPartials t (List.mem_of_mem_erase ht)
      · rw [hother t (fun he => hsu (he ▸ ht))]
        exact h.onFulls t ht
    · have hlists : (p.give n s i).frees = p.frees ∧ (p.give n s i).partials = p.partials ∧
          (p.give n s i).fulls = p.fulls := by
        rw [Pool.give_more hempty hlen]
        exact ⟨rfl, rfl, rfl⟩
      rw [hlists.1, hlists.2.1, hlists.2.2]
      refine ⟨fun t ht => ?_, fun t ht => ?_, fun t ht => ?_⟩
      · rw [hother t (fun he => hsf (he ▸ ht))]
        exact h.onFrees t ht
      · by_cases hts : t = s
        · rw [hts, hself, List.length_cons]
          omega
        · rw [hother t hts]
          exact h.onPartials t ht
      · rw [hother t (fun he => hsu (he ▸ ht))]
        exact h.onFulls t ht

end Ok

/-! ## Counting -/

/-- The free cells of all slabs. -/
def Pool.freeCells (p : Pool) : Nat := (p.slabs.map (fun s => (p.chain s).length)).sum

section Count

variable {n : Nat} {p q : Pool} {s : Nat}

/-- A pool with the same slabs of which one has another chain. -/
theorem freeCells_of_perm (hperm : q.slabs.Perm p.slabs) (hn : p.slabs.Nodup) (hs : s ∈ p.slabs)
    (hother : ∀ t, t ≠ s → q.chain t = p.chain t) :
    q.freeCells + (p.chain s).length = p.freeCells + (q.chain s).length := by
  have hq : q.freeCells = (p.slabs.map (fun t => (q.chain t).length)).sum := (hperm.map _).sum_eq
  have hp := List.sum_map_erase (fun t => (p.chain t).length) hs
  have hq' := List.sum_map_erase (fun t => (q.chain t).length) hs
  have hrest : (p.slabs.erase s).map (fun t => (q.chain t).length) =
      (p.slabs.erase s).map (fun t => (p.chain t).length) := by
    refine List.map_congr_left (fun t ht => ?_)
    rw [hother t (fun he => hn.not_mem_erase (he ▸ ht))]
  rw [hrest] at hq'
  unfold Pool.freeCells at *
  omega

theorem freeCells_add (hs : s ∉ p.slabs) : (p.add n s).freeCells = p.freeCells + n := by
  have hself : (p.add n s).chain s = List.range n := Function.update_self ..
  have hother : p.slabs.map (fun t => ((p.add n s).chain t).length) = p.slabs.map (fun t => (p.chain t).length) := by
    refine List.map_congr_left (fun t ht => ?_)
    rw [show (p.add n s).chain t = p.chain t from Function.update_of_ne (fun he : t = s => hs (he ▸ ht)) ..]
  show ((s :: p.slabs).map (fun t => ((p.add n s).chain t).length)).sum = _
  rw [List.map_cons, List.sum_cons, hother, hself, List.length_range, Nat.add_comm]
  rfl

theorem freeCells_take (h : p.Picked n s) : (p.take s).freeCells + 1 = p.freeCells := by
  have hcount := freeCells_of_perm (Pool.take_slabs h.mem) h.nodup h.mem_slabs
    (fun t ht => by rw [Pool.take_chain, if_neg ht])
  rw [Pool.take_chain, if_pos rfl, List.length_tail] at hcount
  have hpos := List.length_pos_of_ne_nil h.hasCell
  omega

theorem freeCells_give (h : p.Ok n) (hs : s ∈ p.slabs) {i : Nat} (hi : i < n) (hused : i ∉ p.chain s) :
    (p.give n s i).freeCells = p.freeCells + 1 := by
  have hcount := freeCells_of_perm (Pool.give_slabs h hs hi hused) h.nodup hs
    (fun t ht => by rw [Pool.give_chain, if_neg ht])
  rw [Pool.give_chain, if_pos rfl, List.length_cons] at hcount
  omega

/-- Picking a slab that is there changes no chain. -/
theorem freeCells_pick {fresh : Nat} (hhas : p.partials ≠ [] ∨ p.frees ≠ []) :
    (p.pick n fresh).2.freeCells = p.freeCells := by
  obtain ⟨frees, partials, fulls, chain⟩ := p
  cases partials with
  | cons s rest => rfl
  | nil =>
      cases frees with
      | cons s rest =>
          have hperm : (rest ++ ([s] ++ fulls)).Perm (s :: rest ++ ([] ++ fulls)) := List.perm_middle
          exact (hperm.map _).sum_eq
      | nil =>
          rcases hhas with h | h
          · exact absurd rfl h
          · exact absurd rfl h

end Count

end LearningOS.Slab
