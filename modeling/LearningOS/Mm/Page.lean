import LearningOS.Lib.Retry

/-!
# `Mm.Page` — reference counts and flags of a page, `mm/page.c` and `cpu/atomic.h`

Two words of `page_info_t` that any number of callers change at once. Each call reads its word and goes through
`cmpxchgw` until one succeeds, so each is a call of `Lib.Retry` on the cell of its word. Of `drop_page_reference` this is
the part that changes `refcount`.
-/

namespace LearningOS.Page

open Run Retry

/-- `counter16_increment_atomic`: the value its `cmpxchgw` stores. -/
def counter16IncrementAtomic (incrementBy currentValue : BitVec 16) : BitVec 16 := currentValue + incrementBy

/-- `set_page_flags_atomic`: the value its `cmpxchgw` stores. -/
def setPageFlagsAtomic (flags currentFlags : BitVec 16) : BitVec 16 := currentFlags ||| flags

/-- `unset_page_flags_atomic`: the value its `cmpxchgw` stores. -/
def unsetPageFlagsAtomic (flags currentFlags : BitVec 16) : BitVec 16 := currentFlags &&& ~~~flags

/-- A call on a page. -/
inductive PageCall where
  | referencePage
  | dropPageReference
  | setPageFlags (flags : BitVec 16)
  | unsetPageFlags (flags : BitVec 16)
deriving DecidableEq

/-- The word of the page the call is about. -/
inductive PageField where
  | refcount
  | flags
deriving DecidableEq

/-- The field a call changes. -/
def PageCall.field : PageCall → PageField
  | .referencePage => .refcount
  | .dropPageReference => .refcount
  | .setPageFlags _ => .flags
  | .unsetPageFlags _ => .flags

/-- The value a call stores in the place of another. -/
def PageCall.newValue : PageCall → BitVec 16 → BitVec 16
  | .referencePage => counter16IncrementAtomic 1
  | .dropPageReference => counter16IncrementAtomic (-1)
  | .setPageFlags flags => setPageFlagsAtomic flags
  | .unsetPageFlags flags => unsetPageFlagsAtomic flags

variable {ι : Type}

/-- A page and the calls on it. -/
structure PageState (ι : Type) where
  refcount : State ι (BitVec 16)
  flags : State ι (BitVec 16)

/-- The page before any call has begun. -/
def PageState.initial (refcount flags : BitVec 16) : PageState ι := ⟨.initial refcount, .initial flags⟩

/-- The next read or `cmpxchgw` of call `i`. -/
def step [DecidableEq ι] (calls : ι → PageCall) (s : PageState ι) (i : ι) : Except Finished (PageState ι) :=
  match (calls i).field with
  | .refcount =>
    Retry.step (fun i => (calls i).newValue) s.refcount i >>= fun refcount => .ok { s with refcount := refcount }
  | .flags => Retry.step (fun i => (calls i).newValue) s.flags i >>= fun flags => .ok { s with flags := flags }

/-- The value a call has returned: what it stored. -/
def result (calls : ι → PageCall) (s : PageState ι) (i : ι) : Option (BitVec 16) :=
  match (match (calls i).field with
    | .refcount => s.refcount.phase i
    | .flags => s.flags.phase i) with
  | .done before => some ((calls i).newValue before)
  | _ => none

/-- The counter that started at `refcount` after the increments and decrements of a log. -/
def counted (calls : ι → PageCall) (refcount : BitVec 16) (log : List ι) : BitVec 16 :=
  refcount + BitVec.ofNat 16 (log.countP (fun i => calls i = .referencePage)) -
    BitVec.ofNat 16 (log.countP (fun i => calls i = .dropPageReference))

/-- The order in which the calls took effect, on both words. -/
structure Ordered (calls : ι → PageCall) (refcount flags : BitVec 16) (s : PageState ι) : Prop where
  refcount : Linear (fun i => (calls i).newValue) refcount s.refcount
  flags : Linear (fun i => (calls i).newValue) flags s.flags
  counters : ∀ i ∈ s.refcount.log, (calls i).field = .refcount

variable {calls : ι → PageCall} {refcount flags : BitVec 16} {s : PageState ι}

theorem replay_counted (log : List ι) (h : ∀ i ∈ log, (calls i).field = .refcount) :
    replay (fun i => (calls i).newValue) refcount log = counted calls refcount log := by
  induction log with
  | nil => simp [counted]
  | cons i log ih =>
      have hlog := ih (fun j hj => h j (List.mem_cons_of_mem _ hj))
      have hi := h i List.mem_cons_self
      rw [replay_cons, hlog]
      unfold counted
      cases hcall : calls i with
      | referencePage =>
          simp only [List.countP_cons, hcall, PageCall.newValue, counter16IncrementAtomic, BitVec.ofNat_add]
          simp
          grind
      | dropPageReference =>
          simp only [List.countP_cons, hcall, PageCall.newValue, counter16IncrementAtomic, BitVec.ofNat_add]
          simp
          grind
      | setPageFlags =>
          rw [hcall] at hi
          cases hi
      | unsetPageFlags =>
          rw [hcall] at hi
          cases hi

variable [DecidableEq ι]

/-- A step of the page is a step on the word of the call. -/
theorem step_cases {i : ι} {s' : PageState ι} (h : step calls s i = .ok s') :
    ((calls i).field = .refcount ∧
        Retry.step (fun i => (calls i).newValue) s.refcount i = .ok s'.refcount ∧ s'.flags = s.flags) ∨
      ((calls i).field = .flags ∧
        Retry.step (fun i => (calls i).newValue) s.flags i = .ok s'.flags ∧ s'.refcount = s.refcount) := by
  unfold step at h
  cases hfield : (calls i).field with
  | refcount =>
      rw [hfield] at h
      obtain ⟨refcount, hstep, hs'⟩ := bind_eq_ok.mp h
      cases hs'
      exact Or.inl ⟨rfl, hstep, rfl⟩
  | flags =>
      rw [hfield] at h
      obtain ⟨flags, hstep, hs'⟩ := bind_eq_ok.mp h
      cases hs'
      exact Or.inr ⟨rfl, hstep, rfl⟩

/-- **One step keeps the order on both words.** -/
theorem ordered_step {i : ι} {s' : PageState ι} (h : Ordered calls refcount flags s)
    (hstep : step calls s i = .ok s') : Ordered calls refcount flags s' := by
  rcases step_cases hstep with ⟨hfield, hword, hflags⟩ | ⟨-, hword, hrefcount⟩
  · refine ⟨linear_step h.refcount hword, hflags ▸ h.flags, ?_⟩
    intro j hj
    rcases Retry.step_cases hword with ⟨-, hsame⟩ | ⟨-, hswapped⟩
    · rw [hsame] at hj
      exact h.counters j hj
    · rw [hswapped] at hj
      rcases List.mem_cons.mp hj with rfl | hj
      · exact hfield
      · exact h.counters j hj
  · refine ⟨hrefcount ▸ h.refcount, linear_step h.flags hword, ?_⟩
    rw [hrefcount]
    exact h.counters

theorem ordered_of_reaches (h : Reaches (step calls) (fun _ _ => True) (.initial refcount flags) s) :
    Ordered calls refcount flags s := by
  refine h.invariant (Ordered calls refcount flags) ?_ ?_
  · refine ⟨linear_initial, linear_initial, ?_⟩
    intro i hi
    cases hi
  · intro s i s' h _ hstep
    exact ordered_step h hstep

end LearningOS.Page
