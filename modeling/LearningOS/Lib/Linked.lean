import Mathlib.Data.List.Nodup
import Mathlib.Logic.Function.Basic

/-!
# `Lib.Linked` — intrusive doubly linked lists

Nodes of a type `α` with one value `null` among them; `Links` are the two fields every node carries. A list of
nodes is *linked* when each node's `next` is the node after it (or `null`) and its `prev` the one before.

* `Spells L null head l` — the nodes `l`, from `head` on, form a well-formed list;
* `Links.push` / `Links.unlink` — the two updates of an intrusive list, with the new head;
* `Spells.push`, `Spells.unlink` — what they do to the list; `Spells.congr` — fields of other nodes do not matter.
-/

namespace Linked

variable {α : Type}

/-- The link fields of all nodes. -/
structure Links (α : Type) where
  prev : α → α
  next : α → α

/-- The nodes `l` are linked from `head` on, and the node before them is `p`. -/
def LinkedFrom (L : Links α) (null : α) : α → α → List α → Prop
  | _, head, [] => head = null
  | p, head, a :: l => head = a ∧ a ≠ null ∧ L.prev a = p ∧ LinkedFrom L null a (L.next a) l

/-- The nodes `l` form a doubly linked list without repetition that starts at `head`. -/
structure Spells (L : Links α) (null head : α) (l : List α) : Prop where
  linked : LinkedFrom L null null head l
  nodup : l.Nodup

/-! ## Reading a list -/

section Read

variable {L L' : Links α} {null p head : α} {l : List α}

theorem LinkedFrom.ne_null (h : LinkedFrom L null p head l) {a : α} (ha : a ∈ l) : a ≠ null := by
  induction l generalizing p head with
  | nil => cases ha
  | cons b l ih =>
      obtain ⟨-, hb, -, hl⟩ := h
      rcases List.mem_cons.mp ha with rfl | ha
      · exact hb
      · exact ih hl ha

/-- No node of the list precedes itself. -/
theorem LinkedFrom.prev_ne (h : LinkedFrom L null p head l) (hn : l.Nodup) (hp : p ∉ l) {a : α} (ha : a ∈ l) :
    L.prev a ≠ a := by
  induction l generalizing p head with
  | nil => cases ha
  | cons b l ih =>
      obtain ⟨-, -, hprev, hl⟩ := h
      obtain ⟨hb, hn⟩ := List.nodup_cons.mp hn
      rcases List.mem_cons.mp ha with rfl | ha
      · rw [hprev]
        exact fun he => hp (he ▸ List.mem_cons_self)
      · exact ih hl hn hb ha

/-- Fields of nodes outside the list do not matter. -/
theorem LinkedFrom.congr (h : LinkedFrom L null p head l)
    (heq : ∀ a ∈ l, L'.prev a = L.prev a ∧ L'.next a = L.next a) : LinkedFrom L' null p head l := by
  induction l generalizing p head with
  | nil => exact h
  | cons b l ih =>
      obtain ⟨h1, h2, h3, h4⟩ := h
      obtain ⟨hp, hn⟩ := heq b List.mem_cons_self
      refine ⟨h1, h2, hp.trans h3, ?_⟩
      rw [hn]
      exact ih h4 (fun a ha => heq a (List.mem_cons_of_mem _ ha))

theorem Spells.congr (h : Spells L null head l)
    (heq : ∀ a ∈ l, L'.prev a = L.prev a ∧ L'.next a = L.next a) : Spells L' null head l :=
  ⟨h.linked.congr heq, h.nodup⟩

theorem Spells.nil (L : Links α) (null : α) : Spells L null null [] := ⟨rfl, List.nodup_nil⟩

theorem Spells.head_eq_null_iff (h : Spells L null head l) : head = null ↔ l = [] := by
  obtain ⟨hl, -⟩ := h
  cases l with
  | nil => exact ⟨fun _ => rfl, fun _ => hl⟩
  | cons a l =>
      obtain ⟨rfl, ha, -⟩ := hl
      exact ⟨fun hn => absurd hn ha, fun hn => by cases hn⟩

/-- A list whose head is not `null` starts with it. -/
theorem Spells.eq_cons (h : Spells L null head l) (hne : head ≠ null) : ∃ rest, l = head :: rest := by
  obtain ⟨hl, -⟩ := h
  cases l with
  | nil => exact absurd hl hne
  | cons a l =>
      obtain ⟨rfl, -⟩ := hl
      exact ⟨l, rfl⟩

/-- The successor of a node of the list is `null` or in the list. -/
theorem LinkedFrom.next_mem (h : LinkedFrom L null p head l) {a : α} (ha : a ∈ l) :
    L.next a = null ∨ L.next a ∈ l := by
  induction l generalizing p head with
  | nil => cases ha
  | cons b l ih =>
      obtain ⟨-, -, -, hl⟩ := h
      rcases List.mem_cons.mp ha with rfl | ha
      · cases l with
        | nil => exact .inl hl
        | cons c l =>
            obtain ⟨hc, -⟩ := hl
            refine .inr ?_
            rw [hc]
            exact List.mem_cons_of_mem _ List.mem_cons_self
      · rcases ih hl ha with hn | hn
        · exact .inl hn
        · exact .inr (List.mem_cons_of_mem _ hn)

/-- The predecessor of a node of the list is the node before the list or in the list. -/
theorem LinkedFrom.prev_mem (h : LinkedFrom L null p head l) {a : α} (ha : a ∈ l) :
    L.prev a = p ∨ L.prev a ∈ l := by
  induction l generalizing p head with
  | nil => cases ha
  | cons b l ih =>
      obtain ⟨-, -, hp, hl⟩ := h
      rcases List.mem_cons.mp ha with rfl | ha
      · exact .inl hp
      · rcases ih hl ha with hn | hn
        · refine .inr ?_
          rw [hn]
          exact List.mem_cons_self
        · exact .inr (List.mem_cons_of_mem _ hn)

end Read

/-! ## Updates -/

variable [DecidableEq α]

/-- Set a node's predecessor. -/
def Links.setPrev (L : Links α) (a p : α) : Links α := { L with prev := Function.update L.prev a p }

/-- Set a node's successor. -/
def Links.setNext (L : Links α) (a n : α) : Links α := { L with next := Function.update L.next a n }

/-- Link a node in front of the list at `head`. -/
def Links.push (L : Links α) (null head a : α) : Links α :=
  let L := (L.setNext a head).setPrev a null
  if head ≠ null then L.setPrev head a else L

/-- Take a node out of its list. -/
def Links.unlink (L : Links α) (null a : α) : Links α :=
  let L' := if L.prev a ≠ null then L.setNext (L.prev a) (L.next a) else L
  if L'.next a ≠ null then L'.setPrev (L'.next a) (L'.prev a) else L'

/-- The head of the list after `a` was taken out. -/
def Links.unlinkHead (L : Links α) (null head a : α) : α := if L.prev a ≠ null then head else L.next a

section Update

variable {L : Links α} {null head a : α} {l : List α}

@[simp] theorem setPrev_prev (p b : α) : (L.setPrev a p).prev b = if b = a then p else L.prev b :=
  Function.update_apply ..

@[simp] theorem setPrev_next (p b : α) : (L.setPrev a p).next b = L.next b := rfl

@[simp] theorem setNext_next (n b : α) : (L.setNext a n).next b = if b = a then n else L.next b :=
  Function.update_apply ..

@[simp] theorem setNext_prev (n b : α) : (L.setNext a n).prev b = L.prev b := rfl

theorem push_prev (b : α) : (L.push null head a).prev b =
    if b = head ∧ head ≠ null then a else if b = a then null else L.prev b := by
  unfold Links.push
  by_cases hh : head = null
  · simp [hh]
  · by_cases hb : b = head
    · simp [hh, hb]
    · simp [hh, hb]

theorem push_next (b : α) : (L.push null head a).next b = if b = a then head else L.next b := by
  unfold Links.push
  by_cases hh : head = null
  · simp [hh]
  · simp [hh]

/-- **A node linked in front.** -/
theorem Spells.push (h : Spells L null head l) (ha : a ∉ l) (hne : a ≠ null) :
    Spells (L.push null head a) null a (a :: l) := by
  refine ⟨⟨rfl, hne, ?_, ?_⟩, List.nodup_cons.mpr ⟨ha, h.nodup⟩⟩
  · rw [push_prev]
    have hah : ¬ (a = head ∧ head ≠ null) := by
      rintro ⟨rfl, hn⟩
      obtain ⟨rest, rfl⟩ := h.eq_cons hn
      exact ha List.mem_cons_self
    rw [if_neg hah, if_pos rfl]
  · rw [push_next, if_pos rfl]
    cases l with
    | nil => exact h.linked
    | cons b l =>
        obtain ⟨rfl, hb, hp, hl⟩ := h.linked
        have hab : head ≠ a := fun hab => ha (hab ▸ List.mem_cons_self)
        refine ⟨rfl, hb, ?_, ?_⟩
        · rw [push_prev, if_pos ⟨rfl, hb⟩]
        · rw [push_next, if_neg hab]
          refine hl.congr (fun c hc => ?_)
          have hca : c ≠ a := fun hca => ha (List.mem_cons_of_mem _ (hca ▸ hc))
          have hch : c ≠ head := fun hch => (List.nodup_cons.mp h.nodup).1 (hch ▸ hc)
          rw [push_prev, push_next, if_neg (fun hx : c = head ∧ head ≠ null => hch hx.1), if_neg hca, if_neg hca]
          exact ⟨rfl, rfl⟩

/-- Unlinking as one update of each field; the node itself may not point to itself. -/
theorem unlink_fields (hself : L.prev a ≠ a) (b : α) :
    (L.unlink null a).next b = (if L.prev a ≠ null ∧ b = L.prev a then L.next a else L.next b) ∧
    (L.unlink null a).prev b = (if L.next a ≠ null ∧ b = L.next a then L.prev a else L.prev b) := by
  unfold Links.unlink
  by_cases hp : L.prev a = null
  · by_cases hx : L.next a = null
    · simp [hp, hx]
    · simp [hp, hx]
  · by_cases hx : L.next a = null
    · simp [hp, hx, Ne.symm hself]
    · simp [hp, hx, Ne.symm hself]

/-- Inside a list `p` precedes: the rest of the list closes over the node taken out. -/
theorem LinkedFrom.unlink {p : α} (h : LinkedFrom L null p head l) (hn : l.Nodup) (hp : p ∉ l) (ha : a ∈ l) :
    LinkedFrom (L.unlink null a) null p (if L.prev a = p then L.next a else head) (l.erase a) := by
  have hself := h.prev_ne hn hp ha
  induction l generalizing p head with
  | nil => cases ha
  | cons b l ih =>
      obtain ⟨hhead, hb, hprev, hl⟩ := h
      obtain ⟨hbl, hnl⟩ := List.nodup_cons.mp hn
      by_cases hab : a = b
      · -- The first node goes: its successor, if there is one, now follows `p`.
        subst hab
        rw [List.erase_cons_head, if_pos hprev]
        cases l with
        | nil => exact hl
        | cons c l =>
            obtain ⟨hc, hcn, -, hrest⟩ := hl
            refine ⟨hc, hcn, ?_, ?_⟩
            · rw [(unlink_fields hself c).2, if_pos ⟨fun hx => hcn (hc.symm.trans hx), hc.symm⟩]
              exact hprev
            · have hcp : c ≠ L.prev a := by
                rw [hprev]
                exact fun he => hp (he ▸ List.mem_cons_of_mem _ List.mem_cons_self)
              rw [(unlink_fields hself c).1, if_neg (fun hx => hcp hx.2)]
              refine hrest.congr (fun d hd => ?_)
              have hdc : d ≠ c := fun he => (List.nodup_cons.mp hnl).1 (he ▸ hd)
              have hdp : d ≠ L.prev a := by
                rw [hprev]
                exact fun he => hp (he ▸ List.mem_cons_of_mem _ (List.mem_cons_of_mem _ hd))
              refine ⟨?_, ?_⟩
              · rw [(unlink_fields hself d).2, if_neg (fun hx => hdc (hx.2.trans hc))]
              · rw [(unlink_fields hself d).1, if_neg (fun hx => hdp hx.2)]
      · have hal : a ∈ l := (List.mem_cons.mp ha).resolve_left hab
        have hprev_mem : L.prev a ∈ b :: l := by
          rcases hl.prev_mem hal with he | he
          · rw [he]
            exact List.mem_cons_self
          · exact List.mem_cons_of_mem _ he
        have hpa : L.prev a ≠ p := fun he => hp (he ▸ hprev_mem)
        have hnext : ¬ (L.next a ≠ null ∧ b = L.next a) := by
          rintro ⟨hx, he⟩
          rcases hl.next_mem hal with hnull | hmem
          · exact hx hnull
          · exact hbl (he ▸ hmem)
        rw [if_neg hpa, List.erase_cons_tail (by simpa using Ne.symm hab)]
        refine ⟨hhead, hb, ?_, ?_⟩
        · rw [(unlink_fields hself b).2, if_neg hnext]
          exact hprev
        · have hrec := ih hl hnl hbl hal
          have hnb : (L.unlink null a).next b = if L.prev a = b then L.next a else L.next b := by
            rw [(unlink_fields hself b).1]
            by_cases hpb : L.prev a = b
            · rw [if_pos hpb, if_pos ⟨hpb ▸ hb, hpb.symm⟩]
            · rw [if_neg hpb, if_neg (fun hx => hpb hx.2.symm)]
          rw [hnb]
          exact hrec

/-- **A node taken out of its list.** -/
theorem Spells.unlink (h : Spells L null head l) (ha : a ∈ l) :
    Spells (L.unlink null a) null (L.unlinkHead null head a) (l.erase a) := by
  have hnull : null ∉ l := fun hm => h.linked.ne_null hm rfl
  refine ⟨?_, h.nodup.erase a⟩
  have hrec := h.linked.unlink h.nodup hnull ha
  unfold Links.unlinkHead
  by_cases hp : L.prev a = null
  · rw [if_pos hp] at hrec
    rw [if_neg (not_not.mpr hp)]
    exact hrec
  · rw [if_neg hp] at hrec
    rw [if_pos hp]
    exact hrec

end Update

end Linked
