import Mathlib.Logic.Function.Basic

/-!
# `Lib.Radix` — radix trees whose nodes live in a flat memory

A table is an address `f : F`; its entries are `mem f i`, and `child` says which entry points to a table below.
A position in the tree is a depth and a path, the path a number whose digits in base `n` are the indices taken on
the way down. `node` follows the pointers.

The tree may share its memory with others and hold pointers that are not tables. What belongs to it is a set `Own`
of positions closed under going up; `Separate` says that no table is at two of them. Then a store into a leaf
table moves no node (`node_set_leaf`), and linking a fresh empty table adds exactly one (`node_link`).
-/

namespace Radix

variable {F E : Type}

/-- The entries of all tables. -/
abbrev Mem (F E : Type) := F → Nat → E

/-- Store an entry. -/
def set [DecidableEq F] (mem : Mem F E) (f : F) (i : Nat) (e : E) : Mem F E :=
  Function.update mem f (Function.update (mem f) i e)

section Set

variable [DecidableEq F] {mem : Mem F E} {f g : F} {i j : Nat} {e : E}

@[simp] theorem set_self : set mem f i e f i = e := by
  unfold set
  rw [Function.update_self, Function.update_self]

theorem set_of_ne_table (h : g ≠ f) : set mem f i e g j = mem g j := by
  unfold set
  rw [Function.update_of_ne h]

theorem set_of_ne_index (h : j ≠ i) : set mem f i e g j = mem g j := by
  by_cases hg : g = f
  · subst hg
    unfold set
    rw [Function.update_self, Function.update_of_ne h]
  · exact set_of_ne_table hg

theorem set_set (e' : E) : set (set mem f i e) f i e' = set mem f i e' := by
  unfold set
  rw [Function.update_self, Function.update_idem, Function.update_idem]

end Set

variable (child : E → Option F) (n : Nat)

/-- The table at a position: `depth` pointers below `root`, along the digits of the path. -/
def node (mem : Mem F E) (root : F) : Nat → Nat → Option F
  | 0, _ => some root
  | d + 1, p => (node mem root d (p / n)).bind (fun f => child (mem f (p % n)))

/-- The positions of the tree. -/
structure Positions (Own : Nat → Nat → Prop) : Prop where
  up : ∀ d p, Own (d + 1) p → Own d (p / n)

/-- No table is at two positions of the tree. -/
def Separate (Own : Nat → Nat → Prop) (mem : Mem F E) (root : F) : Prop :=
  ∀ d p d' p' f, Own d p → Own d' p' → node child n mem root d p = some f → node child n mem root d' p' = some f →
    d = d' ∧ p = p'

/-- A table that is at no position of the tree. -/
def Foreign (Own : Nat → Nat → Prop) (mem : Mem F E) (root g : F) : Prop :=
  ∀ d p, Own d p → node child n mem root d p ≠ some g

section Tree

variable {child n} {Own : Nat → Nat → Prop} {mem mem' : Mem F E} {root : F}

/-- Nodes are found through the pointers of nodes only. -/
theorem node_congr (hpos : Positions n Own)
    (h : ∀ d p f, Own (d + 1) p → node child n mem root d (p / n) = some f →
      child (mem' f (p % n)) = child (mem f (p % n))) :
    ∀ d p, Own d p → node child n mem' root d p = node child n mem root d p := by
  intro d
  induction d with
  | zero => exact fun _ _ => rfl
  | succ d ih =>
      intro p hp
      show (node child n mem' root d (p / n)).bind _ = (node child n mem root d (p / n)).bind _
      rw [ih (p / n) (hpos.up d p hp)]
      cases hf : node child n mem root d (p / n) with
      | none => rfl
      | some f => exact h d p f hp hf

/-- Nodes are found through the entries of tables of the tree. -/
theorem node_of_foreign (hpos : Positions n Own) {g : F} (hg : Foreign child n Own mem root g)
    (h : ∀ f, f ≠ g → mem' f = mem f) (d p : Nat) (hp : Own d p) :
    node child n mem' root d p = node child n mem root d p := by
  refine node_congr hpos (fun d p f hp hf => ?_) d p hp
  have hfg : f ≠ g := fun he => hg d (p / n) (hpos.up d p hp) (he ▸ hf)
  rw [h f hfg]

/-- Trees with the same nodes are separate together. -/
theorem Separate.congr (hsep : Separate child n Own mem root)
    (h : ∀ d p, Own d p → node child n mem' root d p = node child n mem root d p) :
    Separate child n Own mem' root := by
  intro d1 p1 d2 p2 f hp1 hp2 h1 h2
  rw [h d1 p1 hp1] at h1
  rw [h d2 p2 hp2] at h2
  exact hsep d1 p1 d2 p2 f hp1 hp2 h1 h2

/-- Two roots with the same pointers have the same nodes below them. -/
theorem node_root (hpos : Positions n Own) {root' : F}
    (h : ∀ p, Own 1 p → child (mem root' (p % n)) = child (mem root (p % n))) :
    ∀ d p, Own (d + 1) p → node child n mem root' (d + 1) p = node child n mem root (d + 1) p := by
  intro d
  induction d with
  | zero => exact h
  | succ d ih =>
      intro p hp
      show (node child n mem root' (d + 1) (p / n)).bind _ = (node child n mem root (d + 1) (p / n)).bind _
      rw [ih (p / n) (hpos.up (d + 1) p hp)]

/-- A root that is at no position below takes the place of the old one. -/
theorem separate_root (hpos : Positions n Own) (hsep : Separate child n Own mem root) {root' : F}
    (h : ∀ p, Own 1 p → child (mem root' (p % n)) = child (mem root (p % n)))
    (hnew : ∀ d p, Own (d + 1) p → node child n mem root (d + 1) p ≠ some root') :
    Separate child n Own mem root' := by
  have hbelow := node_root hpos h
  rintro (_ | d) p (_ | d') p' f hp hp' hf hf'
  · exact hsep 0 p 0 p' root hp hp' rfl rfl
  · cases hf
    rw [hbelow d' p' hp'] at hf'
    exact absurd hf' (hnew d' p' hp')
  · cases hf'
    rw [hbelow d p hp] at hf
    exact absurd hf (hnew d p hp)
  · rw [hbelow d p hp] at hf
    rw [hbelow d' p' hp'] at hf'
    exact hsep (d + 1) p (d' + 1) p' f hp hp' hf hf'

variable [DecidableEq F]

/-- **A store into a leaf table** moves no node. -/
theorem node_set_leaf (hpos : Positions n Own) (hsep : Separate child n Own mem root) {leaf q : Nat} {f : F}
    (hleaf : ∀ d p, Own d p → d ≤ leaf) (hq : Own leaf q) (hf : node child n mem root leaf q = some f) (i : Nat)
    (e : E) (d p : Nat) (hp : Own d p) :
    node child n (set mem f i e) root d p = node child n mem root d p := by
  refine node_congr hpos (fun d p g hp hg => ?_) d p hp
  have hgf : g ≠ f := by
    rintro rfl
    obtain ⟨hd, -⟩ := hsep _ _ _ _ _ (hpos.up d p hp) hq hg hf
    have := hleaf _ _ hp
    omega
  rw [set_of_ne_table hgf]

/-- **Linking a fresh table** below an empty entry adds one node. -/
theorem node_link (hpos : Positions n Own) (hsep : Separate child n Own mem root) {d q : Nat} {f g : F} {e : E}
    (hq : Own (d + 1) q) (hf : node child n mem root d (q / n) = some f) (hempty : child (mem f (q % n)) = none)
    (he : child e = some g) (hg : Foreign child n Own mem root g) (hblank : ∀ i, child (mem g i) = none)
    (d' p : Nat) (hp : Own d' p) :
    node child n (set mem f (q % n) e) root d' p =
      if d' = d + 1 ∧ p = q then some g else node child n mem root d' p := by
  have hfg : f ≠ g := fun hfg => hg d (q / n) (hpos.up d q hq) (hfg ▸ hf)
  have hqnone : node child n mem root (d + 1) q = none := by
    show (node child n mem root d (q / n)).bind _ = none
    rw [hf]
    exact hempty
  induction d' generalizing p with
  | zero =>
      rw [if_neg (fun h => by omega)]
      rfl
  | succ d' ih =>
      have hup := hpos.up d' p hp
      show (node child n (set mem f (q % n) e) root d' (p / n)).bind _ = _
      rw [ih (p / n) hup]
      by_cases hnew : d' = d + 1 ∧ p / n = q
      · -- Below the new table there is nothing, and there was nothing before.
        rw [if_pos hnew, if_neg (fun h => by omega)]
        have hold : node child n mem root (d' + 1) p = none := by
          show (node child n mem root d' (p / n)).bind _ = none
          rw [hnew.1, hnew.2, hqnone]
          rfl
        rw [hold]
        show child (set mem f (q % n) e g (p % n)) = none
        rw [set_of_ne_table hfg.symm]
        exact hblank _
      · rw [if_neg hnew]
        cases hparent : node child n mem root d' (p / n) with
        | none =>
            have hold : node child n mem root (d' + 1) p = none := by
              show (node child n mem root d' (p / n)).bind _ = none
              rw [hparent]
              rfl
            rw [hold, if_neg]
            · rfl
            · rintro ⟨hd, rfl⟩
              obtain rfl : d' = d := by omega
              rw [hf] at hparent
              cases hparent
        | some f' =>
            have hold : node child n mem root (d' + 1) p = child (mem f' (p % n)) := by
              show (node child n mem root d' (p / n)).bind _ = _
              rw [hparent]
              rfl
            show child (set mem f (q % n) e f' (p % n)) = _
            by_cases hff : f' = f
            · subst hff
              obtain ⟨hd, hpq⟩ := hsep _ _ _ _ _ hup (hpos.up d q hq) hparent hf
              by_cases hidx : p % n = q % n
              · have hpq' : p = q := by
                  rw [← Nat.div_add_mod p n, ← Nat.div_add_mod q n, hpq, hidx]
                rw [if_pos ⟨by omega, hpq'⟩, hidx, set_self, he]
              · rw [set_of_ne_index hidx, if_neg (fun h => hidx (by rw [h.2])), hold]
            · rw [set_of_ne_table hff, hold, if_neg]
              rintro ⟨hd, rfl⟩
              obtain rfl : d' = d := by omega
              rw [hf] at hparent
              exact hff (Option.some.inj hparent).symm

/-- The tree with a fresh table linked in is still one. -/
theorem separate_link (hpos : Positions n Own) (hsep : Separate child n Own mem root) {d q : Nat} {f g : F} {e : E}
    (hq : Own (d + 1) q) (hf : node child n mem root d (q / n) = some f) (hempty : child (mem f (q % n)) = none)
    (he : child e = some g) (hg : Foreign child n Own mem root g) (hblank : ∀ i, child (mem g i) = none) :
    Separate child n Own (set mem f (q % n) e) root := by
  intro d1 p1 d2 p2 h hp1 hp2 h1 h2
  have hlink := node_link hpos hsep hq hf hempty he hg hblank
  rw [hlink d1 p1 hp1] at h1
  rw [hlink d2 p2 hp2] at h2
  by_cases hc1 : d1 = d + 1 ∧ p1 = q
  · rw [if_pos hc1] at h1
    by_cases hc2 : d2 = d + 1 ∧ p2 = q
    · exact ⟨hc1.1.trans hc2.1.symm, hc1.2.trans hc2.2.symm⟩
    · rw [if_neg hc2] at h2
      exact absurd (h2.trans h1.symm) (hg d2 p2 hp2)
  · rw [if_neg hc1] at h1
    by_cases hc2 : d2 = d + 1 ∧ p2 = q
    · rw [if_pos hc2] at h2
      exact absurd (h1.trans h2.symm) (hg d1 p1 hp1)
    · rw [if_neg hc2] at h2
      exact hsep d1 p1 d2 p2 h hp1 hp2 h1 h2

/-! ## Grafting -/

/-- Write the content of a table and link it. -/
def graft (mem : Mem F E) (g : F) (content : Nat → E) (f : F) (i : Nat) (e : E) : Mem F E :=
  set (Function.update mem g content) f i e

section Graft

variable {f g h : F} {content : Nat → E} {i j : Nat} {e : E}

@[simp] theorem graft_self : graft mem g content f i e f i = e := set_self

theorem graft_of_ne (hf : h ≠ f) (hg : h ≠ g) : graft mem g content f i e h = mem h := by
  funext k
  show set (Function.update mem g content) f i e h k = _
  rw [set_of_ne_table hf, Function.update_of_ne hg]

theorem graft_of_ne_index (hfg : f ≠ g) (hj : j ≠ i) : graft mem g content f i e f j = mem f j := by
  show set (Function.update mem g content) f i e f j = _
  rw [set_of_ne_index hj, Function.update_of_ne hfg]

theorem graft_new (hfg : f ≠ g) : graft mem g content f i e g = content := by
  funext k
  show set (Function.update mem g content) f i e g k = _
  rw [set_of_ne_table hfg.symm, Function.update_self]

variable {d q : Nat}

/-- Writing a foreign table changes no node. -/
theorem node_update_foreign (content : Nat → E) (hpos : Positions n Own) (hg : Foreign child n Own mem root g)
    (d p : Nat) (hp : Own d p) :
    node child n (Function.update mem g content) root d p = node child n mem root d p :=
  node_of_foreign hpos hg (fun _ hf => Function.update_of_ne hf _ _) d p hp

/-- What linking asks for, after the content was written. -/
theorem ready_graft (hpos : Positions n Own) (hq : Own (d + 1) q) (hf : node child n mem root d (q / n) = some f)
    (hempty : child (mem f (q % n)) = none) (hg : Foreign child n Own mem root g)
    (hblank : ∀ i, child (content i) = none) :
    node child n (Function.update mem g content) root d (q / n) = some f ∧
      child (Function.update mem g content f (q % n)) = none ∧
      Foreign child n Own (Function.update mem g content) root g ∧
      ∀ i, child (Function.update mem g content g i) = none := by
  have hfg : f ≠ g := fun he => hg d (q / n) (hpos.up d q hq) (he ▸ hf)
  refine ⟨(node_update_foreign content hpos hg d _ (hpos.up d q hq)).trans hf, ?_, fun d' p hp hnode => ?_, fun i => ?_⟩
  · rw [Function.update_of_ne hfg]
    exact hempty
  · exact hg d' p hp ((node_update_foreign content hpos hg d' p hp).symm.trans hnode)
  · rw [Function.update_self]
    exact hblank i

/-- **Grafting an empty table** below an empty entry adds one node. -/
theorem node_graft (hpos : Positions n Own) (hsep : Separate child n Own mem root) (hq : Own (d + 1) q)
    (hf : node child n mem root d (q / n) = some f) (hempty : child (mem f (q % n)) = none) (he : child e = some g)
    (hg : Foreign child n Own mem root g) (hblank : ∀ i, child (content i) = none) (d' p : Nat) (hp : Own d' p) :
    node child n (graft mem g content f (q % n) e) root d' p =
      if d' = d + 1 ∧ p = q then some g else node child n mem root d' p := by
  obtain ⟨hf', hempty', hg', hblank'⟩ := ready_graft hpos hq hf hempty hg hblank
  have hsep' := hsep.congr (fun d p hp => node_update_foreign content hpos hg d p hp)
  refine (node_link hpos hsep' hq hf' hempty' he hg' hblank' d' p hp).trans ?_
  rw [node_update_foreign content hpos hg d' p hp]

/-- The tree with an empty table grafted in is still one. -/
theorem separate_graft (hpos : Positions n Own) (hsep : Separate child n Own mem root) (hq : Own (d + 1) q)
    (hf : node child n mem root d (q / n) = some f) (hempty : child (mem f (q % n)) = none) (he : child e = some g)
    (hg : Foreign child n Own mem root g) (hblank : ∀ i, child (content i) = none) :
    Separate child n Own (graft mem g content f (q % n) e) root := by
  obtain ⟨hf', hempty', hg', hblank'⟩ := ready_graft hpos hq hf hempty hg hblank
  have hsep' := hsep.congr (fun d p hp => node_update_foreign content hpos hg d p hp)
  exact separate_link hpos hsep' hq hf' hempty' he hg' hblank'

end Graft

end Tree

end Radix
