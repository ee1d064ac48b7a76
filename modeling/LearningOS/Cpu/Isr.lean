import LearningOS.Driver.Pic
import LearningOS.Lib.Run

/-!
# `Cpu.Isr` — interrupt registration and dispatch, `cpu/isr.c`

A table of handlers by vector, two calls that fill it, and the one routine all gates lead to. A handler is its address,
0 being none, and what it does is not part of the model: the calls made to handlers are recorded, with the frame they
got. The gates of the IDT are left out, they all lead to `root_isr_handler`.

* `registration_and_dispatch` — what holds of every registration history, and exactly which interrupts and
  registrations go wrong;
* `lines_stay_deliverable` — the lines of the master, and why those of the slave do not.
-/

namespace LearningOS.Isr

open Run

/-! ## Model -/

/-- `IDT_ENTRIES`. -/
abbrev idtEntries : Nat := 256

/-- `IRQ_OFFSET1`. -/
abbrev irqOffset1 : Nat := 32

/-- `IRQ_OFFSET2`. -/
abbrev irqOffset2 : Nat := irqOffset1 + 8

/-- `isr_stack_frame`. -/
structure IsrStackFrame where
  ds : Nat := 0
  rdi : Nat := 0
  rsi : Nat := 0
  rbp : Nat := 0
  rsp : Nat := 0
  rdx : Nat := 0
  rcx : Nat := 0
  rbx : Nat := 0
  rax : Nat := 0
  intNo : Nat
  errCode : Nat := 0
  rip : Nat := 0
  cs : Nat := 0
  eflags : Nat := 0
  useresp : Nat := 0
  ss : Nat := 0
deriving DecidableEq, Repr

/-- `exception_messages`. -/
def exceptionMessages : List String :=
  ["Division by Zero", "Debug", "Non-Maskable Interrupt", "Breakpoint", "Overflow", "Out of Bounds", "Invalid Opcode",
    "No Coprocessor",
    "Double Fault", "Coprocessor Segment Overrun", "Bad TSS", "Segment not Present", "Stack Fault",
    "General Protection Fault", "Page Fault", "Unknown Interrupt",
    "Coprocessor Fault", "Alignment Check", "Reserved", "Reserved", "Reserved", "Reserved", "Reserved",
    "Reserved", "Reserved", "Reserved", "Reserved", "Reserved", "Reserved", "Reserved", "Reserved"]

/-- `registered_handlers`, the interrupt controllers, the calls made to handlers and the texts printed, both with the
    latest first. -/
structure Cpu where
  registeredHandlers : Nat → Nat
  pics : Pics
  calls : List (Nat × IsrStackFrame)
  console : List String

/-- The values `register_isr_handler` returns. -/
inductive RegisterResult where
  | ok
  | alreadyRegistered
  | oob
deriving DecidableEq, Repr

/-- The message was looked up past the end of the table. -/
inductive IsrFault where
  | noMessage
deriving DecidableEq, Repr

/-- `kputstr`. -/
def Cpu.kputstr (c : Cpu) (text : String) : Cpu := { c with console := text :: c.console }

/-- `isr_install`: no handler is registered and all lines are masked. -/
def isrInstall (c : Cpu) : Cpu :=
  { c with
    registeredHandlers := fun _ => 0
    pics := (List.range 16).foldl picSetMask (picRemap c.pics) }

/-- `register_isr_handler`. -/
def registerIsrHandler (c : Cpu) (isrNumber handler : Nat) : RegisterResult × Cpu :=
  if isrNumber ≥ idtEntries then (.oob, c)
  else if c.registeredHandlers isrNumber ≠ 0 then (.alreadyRegistered, c)
  else (.ok, { c with registeredHandlers := Function.update c.registeredHandlers isrNumber handler })

/-- `register_irq_handler`. The vector is computed in a byte. -/
def registerIrqHandler (c : Cpu) (irqNumber handler : Nat) : RegisterResult × Cpu :=
  match registerIsrHandler c ((irqNumber + irqOffset1) % 2 ^ 8) handler with
  | (.ok, c1) => (.ok, { c1 with pics := picClearMask c1.pics irqNumber })
  | (err, c1) => (err, c1)

/-- `handle_irq`. -/
def handleIrq (c : Cpu) (regs : IsrStackFrame) (irqNumber handler : Nat) : Cpu :=
  let c1 :=
    if handler = 0 then
      (((c.kputstr "\rError: Received IRQ").kputstr (toString irqNumber)).kputstr
        "which has no registered handler").kputstr "\n"
    else { c with calls := (handler, regs) :: c.calls }
  { c1 with pics := picSendEoi c1.pics irqNumber }

/-- `root_isr_handler`. -/
def rootIsrHandler (c : Cpu) (regs : IsrStackFrame) : Except IsrFault Cpu :=
  let handler := c.registeredHandlers regs.intNo
  if irqOffset1 ≤ regs.intNo ∧ regs.intNo < irqOffset1 + 8 then
    .ok (handleIrq c regs (regs.intNo - irqOffset1) handler)
  else if irqOffset2 ≤ regs.intNo ∧ regs.intNo < irqOffset2 + 8 then
    .ok (handleIrq c regs (regs.intNo - irqOffset2) handler)
  else if handler = 0 then
    match exceptionMessages[regs.intNo]? with
    | none => .error .noMessage
    | some message =>
      .ok (((c.kputstr "\rError: Received interrupt with no handler: ").kputstr message).kputstr "\n")
  else .ok c

/-! ## Runs -/

/-- The machine, and the registrations that were tried, by vector and handler, the latest first. -/
structure IsrSys where
  cpu : Cpu
  tried : List (Nat × Nat)

/-- A call, or an interrupt. -/
inductive IsrAct where
  | registerIsr (isrNumber handler : Nat)
  | registerIrq (irqNumber handler : Nat)
  | interrupt (regs : IsrStackFrame)
deriving DecidableEq

/-- One step. The vectors from 32 to 47 come from the controllers. -/
def step (s : IsrSys) : IsrAct → Except IsrFault IsrSys
  | .registerIsr v h => .ok ⟨(registerIsrHandler s.cpu v h).2, (v, h) :: s.tried⟩
  | .registerIrq n h => .ok ⟨(registerIrqHandler s.cpu n h).2, ((n + irqOffset1) % 2 ^ 8, h) :: s.tried⟩
  | .interrupt regs =>
    let pics := if irqOffset1 ≤ regs.intNo then s.cpu.pics.deliver (regs.intNo - irqOffset1) else s.cpu.pics
    rootIsrHandler { s.cpu with pics := pics } regs >>= fun cpu => .ok { s with cpu := cpu }

/-- The state after `isr_install`. -/
def IsrSys.boot (c : Cpu) : IsrSys := ⟨isrInstall c, []⟩

/-- The handler of the first registration tried for a vector, 0 if there was none. -/
def firstTried (tried : List (Nat × Nat)) (v : Nat) : Nat :=
  ((tried.reverse.find? (fun t => t.1 = v)).map Prod.snd).getD 0

/-- A registration counts for its vector if no handler was tried there before. -/
theorem firstTried_cons {v h w : Nat} {tried : List (Nat × Nat)} (hne : ∀ t ∈ tried, t.2 ≠ 0) :
    firstTried ((v, h) :: tried) w =
      if firstTried tried w ≠ 0 then firstTried tried w else if v = w then h else 0 := by
  unfold firstTried
  rw [List.reverse_cons, List.find?_append]
  cases hfound : tried.reverse.find? (fun t => t.1 = w) with
  | none =>
      by_cases hv : v = w
      · simp [hv]
      · simp [hv]
  | some t =>
      have hmem : t ∈ tried := List.mem_reverse.mp (List.mem_of_find?_eq_some hfound)
      have hnonzero : t.2 ≠ 0 := hne t hmem
      simp [hnonzero]

/-- What the claim of a run is about: calls with any byte and a handler, interrupts on the vectors that have a
    gate. -/
def IsrCall : IsrAct → Prop
  | .registerIsr v h => v < 2 ^ 8 ∧ h ≠ 0
  | .registerIrq n h => n < 2 ^ 8 ∧ h ≠ 0
  | .interrupt regs => regs.intNo < 48

instance (a : IsrAct) : Decidable (IsrCall a) :=
  match a with
  | .registerIsr .. => inferInstanceAs (Decidable (_ ∧ _))
  | .registerIrq .. => inferInstanceAs (Decidable (_ ∧ _))
  | .interrupt .. => inferInstanceAs (Decidable (_ < _))

/-! ## The table -/

theorem registerIsrHandler_cases (c : Cpu) {v : Nat} (h : Nat) (hv : v < idtEntries) :
    (c.registeredHandlers v ≠ 0 ∧ registerIsrHandler c v h = (.alreadyRegistered, c)) ∨
      (c.registeredHandlers v = 0 ∧
        registerIsrHandler c v h = (.ok, { c with registeredHandlers := Function.update c.registeredHandlers v h })) := by
  unfold registerIsrHandler
  rw [if_neg (Nat.not_le.mpr hv)]
  by_cases h0 : c.registeredHandlers v = 0
  · rw [if_neg (not_not.mpr h0)]
    exact Or.inr ⟨h0, rfl⟩
  · rw [if_pos h0]
    exact Or.inl ⟨h0, rfl⟩

theorem registerIrqHandler_cases (c : Cpu) (n h : Nat) :
    (c.registeredHandlers ((n + 32) % 2 ^ 8) ≠ 0 ∧ registerIrqHandler c n h = (.alreadyRegistered, c)) ∨
      (c.registeredHandlers ((n + 32) % 2 ^ 8) = 0 ∧
        registerIrqHandler c n h = (.ok, { c with
          registeredHandlers := Function.update c.registeredHandlers ((n + 32) % 2 ^ 8) h
          pics := picClearMask c.pics n })) := by
  unfold registerIrqHandler
  rcases registerIsrHandler_cases c h (show (n + 32) % 2 ^ 8 < idtEntries from Nat.mod_lt _ (by decide)) with
    ⟨h0, hrun⟩ | ⟨h0, hrun⟩
  · rw [hrun]
    exact Or.inl ⟨h0, rfl⟩
  · rw [hrun]
    exact Or.inr ⟨h0, rfl⟩

/-- The table after a registration, whichever call made it. -/
theorem registerIrqHandler_table (c : Cpu) (n h : Nat) :
    (registerIrqHandler c n h).2.registeredHandlers =
      (registerIsrHandler c ((n + 32) % 2 ^ 8) h).2.registeredHandlers := by
  unfold registerIrqHandler
  cases hrun : registerIsrHandler c ((n + 32) % 2 ^ 8) h with
  | mk err c1 => cases err <;> rfl

theorem registerIsrHandler_table (c : Cpu) {v : Nat} (h w : Nat) (hv : v < idtEntries) :
    (registerIsrHandler c v h).2.registeredHandlers w =
      if c.registeredHandlers w ≠ 0 then c.registeredHandlers w else if v = w then h else 0 := by
  rcases registerIsrHandler_cases c h hv with ⟨h0, hrun⟩ | ⟨h0, hrun⟩
  · rw [hrun]
    show c.registeredHandlers w = _
    by_cases hw : c.registeredHandlers w = 0
    · have hne : v ≠ w := by
        rintro rfl
        exact h0 hw
      simp [hw, hne]
    · simp [hw]
  · rw [hrun]
    show Function.update c.registeredHandlers v h w = _
    by_cases hw : v = w
    · subst hw
      simp [h0]
    · rw [Function.update_of_ne (Ne.symm hw)]
      by_cases hz : c.registeredHandlers w = 0
      · simp [hz, hw]
      · simp [hz]

theorem handleIrq_table (c : Cpu) (regs : IsrStackFrame) (n h : Nat) :
    (handleIrq c regs n h).registeredHandlers = c.registeredHandlers := by
  unfold handleIrq
  dsimp only
  split <;> rfl

/-- An interrupt does not change the table. -/
theorem rootIsrHandler_table {c c' : Cpu} {regs : IsrStackFrame} (h : rootIsrHandler c regs = .ok c') :
    c'.registeredHandlers = c.registeredHandlers := by
  unfold rootIsrHandler at h
  dsimp only at h
  split at h
  · cases h
    exact handleIrq_table _ _ _ _
  · split at h
    · cases h
      exact handleIrq_table _ _ _ _
    · split at h
      · split at h
        · cases h
        · cases h
          rfl
      · cases h
        rfl

/-- The table holds the first handler tried for each vector. -/
structure Tabled (s : IsrSys) : Prop where
  nonzero : ∀ t ∈ s.tried, t.2 ≠ 0
  table : ∀ v, s.cpu.registeredHandlers v = firstTried s.tried v

theorem Tabled.register {s : IsrSys} (h : Tabled s) {c : Cpu} {v handler : Nat} (hne : handler ≠ 0)
    (hv : v < idtEntries)
    (htable : c.registeredHandlers = (registerIsrHandler s.cpu v handler).2.registeredHandlers) :
    Tabled ⟨c, (v, handler) :: s.tried⟩ := by
  refine ⟨?_, ?_⟩
  · intro t ht
    rcases List.mem_cons.mp ht with rfl | ht
    · exact hne
    · exact h.nonzero t ht
  · intro w
    show c.registeredHandlers w = _
    rw [htable, registerIsrHandler_table s.cpu handler w hv, firstTried_cons h.nonzero, h.table w]

theorem tabled_step {s s' : IsrSys} {a : IsrAct} (h : Tabled s) (hcall : IsrCall a) (hstep : step s a = .ok s') :
    Tabled s' := by
  cases a with
  | registerIsr v handler =>
      cases hstep
      exact h.register hcall.2 hcall.1 rfl
  | registerIrq n handler =>
      cases hstep
      exact h.register hcall.2 (Nat.mod_lt _ (by decide)) (registerIrqHandler_table _ _ _)
  | interrupt regs =>
      obtain ⟨c, hroot, hs'⟩ := bind_eq_ok.mp hstep
      cases hs'
      refine ⟨h.nonzero, ?_⟩
      intro w
      show c.registeredHandlers w = _
      rw [rootIsrHandler_table hroot]
      exact h.table w

/-! ## Dispatch -/

/-- The interrupt is handled: the handler of its vector is called, once and with the frame, and if there is none the
    message is found. -/
def Dispatched (c : Cpu) (regs : IsrStackFrame) : Prop :=
  ∃ c', rootIsrHandler c regs = .ok c' ∧
    c'.calls =
      (if c.registeredHandlers regs.intNo = 0 then [] else [(c.registeredHandlers regs.intNo, regs)]) ++ c.calls

theorem handleIrq_calls (c : Cpu) (regs : IsrStackFrame) (n h : Nat) :
    (handleIrq c regs n h).calls = (if h = 0 then [] else [(h, regs)]) ++ c.calls := by
  unfold handleIrq
  dsimp only
  split <;> rfl

/-- **Which interrupts are handled**: those of the controllers, and the exceptions that have no handler and do have a
    message. The branch of `root_isr_handler` for exceptions has no call in it. -/
theorem dispatched_iff {c : Cpu} {regs : IsrStackFrame} (hvector : regs.intNo < 48) :
    Dispatched c regs ↔ 32 ≤ regs.intNo ∨ (c.registeredHandlers regs.intNo = 0 ∧ regs.intNo ≠ 31) := by
  have hlength : exceptionMessages.length = 31 := by decide
  by_cases hirq : 32 ≤ regs.intNo
  · have hright : 32 ≤ regs.intNo ∨ (c.registeredHandlers regs.intNo = 0 ∧ regs.intNo ≠ 31) := Or.inl hirq
    refine iff_of_true ?_ hright
    by_cases hmaster : regs.intNo < 40
    · refine ⟨_, ?_, handleIrq_calls c regs (regs.intNo - 32) _⟩
      unfold rootIsrHandler
      exact if_pos ⟨hirq, hmaster⟩
    · have hslave : 40 ≤ regs.intNo ∧ regs.intNo < 48 := by omega
      have hnot : ¬ (32 ≤ regs.intNo ∧ regs.intNo < 40) := by omega
      refine ⟨_, ?_, handleIrq_calls c regs (regs.intNo - 40) _⟩
      unfold rootIsrHandler
      exact (if_neg hnot).trans (if_pos hslave)
  · have hnot1 : ¬ (32 ≤ regs.intNo ∧ regs.intNo < 40) := by omega
    have hnot2 : ¬ (40 ≤ regs.intNo ∧ regs.intNo < 48) := by omega
    have hroot : rootIsrHandler c regs =
        if c.registeredHandlers regs.intNo = 0 then
          match exceptionMessages[regs.intNo]? with
          | none => .error .noMessage
          | some message =>
            .ok (((c.kputstr "\rError: Received interrupt with no handler: ").kputstr message).kputstr "\n")
        else .ok c := by
      unfold rootIsrHandler
      exact (if_neg hnot1).trans (if_neg hnot2)
    unfold Dispatched
    rw [hroot]
    by_cases hnone : c.registeredHandlers regs.intNo = 0
    · rw [if_pos hnone, if_pos hnone]
      by_cases hlast : regs.intNo = 31
      · have hmissing : exceptionMessages[regs.intNo]? = none := List.getElem?_eq_none (by omega)
        rw [hmissing]
        refine iff_of_false ?_ (by omega)
        rintro ⟨c', h, -⟩
        cases h
      · have hlt : regs.intNo < exceptionMessages.length := by omega
        rw [List.getElem?_eq_getElem hlt]
        exact iff_of_true ⟨_, rfl, rfl⟩ (Or.inr ⟨hnone, hlast⟩)
    · rw [if_neg hnone, if_neg hnone]
      refine iff_of_false ?_ (by tauto)
      rintro ⟨c', h, hcalls⟩
      cases h
      have hlen := congrArg List.length hcalls
      simp at hlen

/-- A registration that does not report success changes nothing. -/
theorem registerIrqHandler_failed {c : Cpu} {n h : Nat} (hfail : (registerIrqHandler c n h).1 ≠ .ok) :
    (registerIrqHandler c n h).2 = c := by
  rcases registerIrqHandler_cases c n h with ⟨-, hrun⟩ | ⟨-, hrun⟩
  · rw [hrun]
  · rw [hrun] at hfail
    exact absurd rfl hfail

theorem registerIsrHandler_failed {c : Cpu} {v h : Nat} (hfail : (registerIsrHandler c v h).1 ≠ .ok) :
    (registerIsrHandler c v h).2 = c := by
  by_cases hv : v < idtEntries
  · rcases registerIsrHandler_cases c h hv with ⟨-, hrun⟩ | ⟨-, hrun⟩
    · rw [hrun]
    · rw [hrun] at hfail
      exact absurd rfl hfail
  · unfold registerIsrHandler
    rw [if_pos (Nat.not_lt.mp hv)]

/-- **Which registrations of an IRQ leave the exceptions alone**: the vector is computed in a byte, so that the lines
    from 224 on are exceptions. -/
theorem exceptions_kept_iff {c : Cpu} {n h : Nat} (hn : 16 ≤ n) (hn' : n < 2 ^ 8) (hh : h ≠ 0) :
    (∀ v < 32, (registerIrqHandler c n h).2.registeredHandlers v = c.registeredHandlers v) ↔
      n < 224 ∨ c.registeredHandlers (n - 224) ≠ 0 := by
  rcases registerIrqHandler_cases c n h with ⟨h0, hrun⟩ | ⟨h0, hrun⟩
  · rw [hrun]
    refine iff_of_true (fun _ _ => rfl) ?_
    by_cases hlt : n < 224
    · exact Or.inl hlt
    · rw [show (n + 32) % 2 ^ 8 = n - 224 by omega] at h0
      exact Or.inr h0
  · rw [hrun]
    by_cases hlt : n < 224
    · refine iff_of_true ?_ (Or.inl hlt)
      intro v hv
      exact Function.update_of_ne (by omega) _ _
    · obtain ⟨v, hv⟩ : ∃ v, (n + 32) % 2 ^ 8 = v := ⟨_, rfl⟩
      rw [show n - 224 = v by omega]
      rw [hv] at h0 ⊢
      refine iff_of_false ?_ (by tauto)
      intro hkept
      have hupdated : Function.update c.registeredHandlers v h v = c.registeredHandlers v := hkept v (by omega)
      rw [Function.update_self, h0] at hupdated
      exact hh hupdated

/-- **Registration and dispatch, after any history.** The first handler tried for a vector has it, and a registration
    that fails changes nothing. An IRQ number from 16 on stays off the exception vectors exactly if it is below 224 or
    its vector is taken, and an interrupt is handled exactly if it is an IRQ or an exception without a handler that has
    a message. -/
theorem registration_and_dispatch {c : Cpu} {s : IsrSys} (hrun : Reaches step (fun _ a => IsrCall a) (.boot c) s) :
    (∀ v, s.cpu.registeredHandlers v = firstTried s.tried v) ∧
      (∀ v h, (registerIsrHandler s.cpu v h).1 ≠ .ok → (registerIsrHandler s.cpu v h).2 = s.cpu) ∧
      (∀ n h, (registerIrqHandler s.cpu n h).1 ≠ .ok → (registerIrqHandler s.cpu n h).2 = s.cpu) ∧
      (∀ n h, 16 ≤ n → n < 2 ^ 8 → h ≠ 0 →
        ((∀ v < 32, (registerIrqHandler s.cpu n h).2.registeredHandlers v = s.cpu.registeredHandlers v) ↔
          n < 224 ∨ s.cpu.registeredHandlers (n - 224) ≠ 0)) ∧
      ∀ regs pics, regs.intNo < 48 → (Dispatched { s.cpu with pics := pics } regs ↔
        32 ≤ regs.intNo ∨ (s.cpu.registeredHandlers regs.intNo = 0 ∧ regs.intNo ≠ 31)) := by
  have htabled : Tabled s := by
    refine hrun.invariant Tabled ?_ ?_
    · refine ⟨?_, ?_⟩
      · intro t ht
        cases ht
      · intro v
        rfl
    · intro s a s' h hcall hstep
      exact tabled_step h hcall hstep
  refine ⟨htabled.table, ?_, ?_, ?_, ?_⟩
  · intro v h hfail
    exact registerIsrHandler_failed hfail
  · intro n h hfail
    exact registerIrqHandler_failed hfail
  · intro n h hn hn' hh
    exact exceptions_kept_iff hn hn' hh
  · intro regs pics hvector
    exact dispatched_iff hvector

/-- Controllers as they come, with nothing masked. -/
def samplePics : Pics := ⟨⟨0, 0⟩, ⟨0, 0⟩⟩

/-- A keyboard handler is called; a second one for its vector is refused. -/
theorem keyboard_dispatched :
    ∃ s, Reaches step (fun _ a => IsrCall a) (.boot ⟨fun _ => 0, samplePics, [], []⟩) s ∧
      s.cpu.registeredHandlers 33 = 0x1000 ∧ Dispatched s.cpu { intNo := 33 } := by
  obtain ⟨-, s, -, hrun, hpost⟩ := exists_of_sample (.ok ()) (fun _ => IsrSys.boot ⟨fun _ => 0, samplePics, [], []⟩)
    step (fun _ a => decide (IsrCall a)) [.registerIrq 1 0x1000, .registerIsr 33 0x2000]
    (fun _ s => decide (s.tried = [(33, 0x2000), (33, 0x1000)])) (fun _ _ h => of_decide_eq_true h) (by decide)
  obtain ⟨htable, -, -, -, hdispatch⟩ := registration_and_dispatch hrun
  refine ⟨s, hrun, ?_, ?_⟩
  · rw [htable, of_decide_eq_true hpost]
    rfl
  · exact (hdispatch { intNo := 33 } s.cpu.pics (by decide)).mpr (Or.inl (by decide))

/-- **Three ways to lose an interrupt.** A handler for the page fault is not called, the last exception has no message,
    and line 224 lands on the vector of the division by zero. -/
theorem exceptions_not_dispatched :
    ∃ s, Reaches step (fun _ a => IsrCall a) (.boot ⟨fun _ => 0, samplePics, [], []⟩) s ∧
      s.cpu.registeredHandlers 14 = 0x1000 ∧ s.cpu.registeredHandlers 0 = 0x2000 ∧
      ¬ Dispatched s.cpu { intNo := 14 } ∧ ¬ Dispatched s.cpu { intNo := 31 } := by
  obtain ⟨-, s, -, hrun, hpost⟩ := exists_of_sample (.ok ()) (fun _ => IsrSys.boot ⟨fun _ => 0, samplePics, [], []⟩)
    step (fun _ a => decide (IsrCall a)) [.registerIsr 14 0x1000, .registerIrq 224 0x2000]
    (fun _ s => decide (s.cpu.registeredHandlers 14 = 0x1000 ∧ s.cpu.registeredHandlers 0 = 0x2000))
    (fun _ _ h => of_decide_eq_true h) (by decide)
  obtain ⟨hfault, hzero⟩ := of_decide_eq_true hpost
  refine ⟨s, hrun, hfault, hzero, ?_, ?_⟩
  · rw [dispatched_iff (by decide)]
    show ¬ (32 ≤ 14 ∨ (s.cpu.registeredHandlers 14 = 0 ∧ 14 ≠ 31))
    rw [hfault]
    decide
  · rw [dispatched_iff (by decide)]
    show ¬ (32 ≤ 31 ∨ (s.cpu.registeredHandlers 31 = 0 ∧ 31 ≠ 31))
    omega

/-! ## The lines of the controllers -/

/-- A registration of one of the sixteen lines, or the delivery of one that is open at its controller and, for the
    slave, at the line the slave comes in through. -/
def IrqCall (s : IsrSys) : IsrAct → Prop
  | .registerIsr .. => False
  | .registerIrq n h => n < 16 ∧ h ≠ 0
  | .interrupt regs =>
    32 ≤ regs.intNo ∧ regs.intNo < 48 ∧ s.cpu.pics.masked (regs.intNo - 32) = false ∧
      (40 ≤ regs.intNo → s.cpu.pics.masked 2 = false)

instance (s : IsrSys) (a : IsrAct) : Decidable (IrqCall s a) :=
  match a with
  | .registerIsr .. => isFalse id
  | .registerIrq .. => inferInstanceAs (Decidable (_ ∧ _))
  | .interrupt .. => inferInstanceAs (Decidable (_ ∧ _ ∧ _ ∧ (_ → _)))

/-- Every line with a handler is open, and no interrupt is in service. -/
structure Deliverable (c : Cpu) : Prop where
  lines : ∀ n < 16, c.registeredHandlers (32 + n) ≠ 0 → c.pics.masked n = false ∧ (8 ≤ n → c.pics.masked 2 = false)
  idle : c.pics.inService = (0, 0)

/-- A line of the slave is registered only with line 2 of the master open, and no line of the slave is delivered. -/
def MasterLines (s : IsrSys) : IsrAct → Prop
  | .registerIrq n _ => n < 8 ∨ s.cpu.pics.masked 2 = false ∨ s.cpu.registeredHandlers (32 + n) ≠ 0
  | .interrupt regs => regs.intNo < 40
  | _ => True

instance (s : IsrSys) (a : IsrAct) : Decidable (MasterLines s a) :=
  match a with
  | .registerIsr .. => isTrue trivial
  | .registerIrq .. => inferInstanceAs (Decidable (_ ∨ _ ∨ _))
  | .interrupt .. => inferInstanceAs (Decidable (_ < _))

theorem inService_setMasks (p : Pics) : ∀ ns : List Nat, (ns.foldl picSetMask p).inService = p.inService := by
  intro ns
  induction ns generalizing p with
  | nil => rfl
  | cons n ns ih => exact (ih (picSetMask p n)).trans (inService_picUpdateMask _ p n)

theorem deliverable_install (c : Cpu) : Deliverable (isrInstall c) where
  lines := fun _ _ h => absurd rfl h
  idle := inService_setMasks _ _

theorem vector_of_line {n : Nat} (hn : n < 16) : (n + 32) % 2 ^ 8 = 32 + n := by omega

/-- A registration keeps the lines open. -/
theorem Deliverable.register {c : Cpu} (h : Deliverable c) {n handler : Nat} (hn : n < 16)
    (hsafe : n < 8 ∨ c.pics.masked 2 = false ∨ c.registeredHandlers (32 + n) ≠ 0) :
    Deliverable (registerIrqHandler c n handler).2 := by
  rcases registerIrqHandler_cases c n handler with ⟨-, hrun⟩ | ⟨h0, hrun⟩
  · rw [hrun]
    exact h
  · rw [hrun]
    rw [vector_of_line hn] at h0 ⊢
    refine ⟨?_, (inService_picUpdateMask _ _ _).trans h.idle⟩
    intro m hm hregistered
    have hregistered : Function.update c.registeredHandlers (32 + n) handler (32 + m) ≠ 0 := hregistered
    show (picClearMask c.pics n).masked m = false ∧ (8 ≤ m → (picClearMask c.pics n).masked 2 = false)
    rw [masked_picClearMask _ hn hm, masked_picClearMask _ hn (by decide)]
    by_cases hmn : n = m
    · subst hmn
      refine ⟨by simp, ?_⟩
      intro h8
      rcases hsafe with hsafe | hsafe | hsafe
      · omega
      · rw [hsafe, Bool.false_and]
      · exact absurd h0 hsafe
    · rw [Function.update_of_ne (by omega)] at hregistered
      obtain ⟨h1, h2⟩ := h.lines m hm hregistered
      refine ⟨by rw [h1, Bool.false_and], ?_⟩
      intro h8
      rw [h2 h8, Bool.false_and]

/-- A registration of a line of the slave with the way through the master closed leaves the line unreachable. -/
theorem not_deliverable_of_register {c : Cpu} {n handler : Nat} (hn : n < 16) (hh : handler ≠ 0)
    (hrisky : ¬ (n < 8 ∨ c.pics.masked 2 = false ∨ c.registeredHandlers (32 + n) ≠ 0)) :
    ¬ Deliverable (registerIrqHandler c n handler).2 := by
  obtain ⟨hslave, hrisky⟩ := not_or.mp hrisky
  obtain ⟨hclosed, htaken⟩ := not_or.mp hrisky
  have hfree : c.registeredHandlers (32 + n) = 0 := not_not.mp htaken
  rcases registerIrqHandler_cases c n handler with ⟨h0, -⟩ | ⟨-, hrun⟩
  · rw [vector_of_line hn] at h0
    exact absurd hfree h0
  · rw [hrun, vector_of_line hn]
    intro h
    have hopen := (h.lines n hn (by
      show Function.update c.registeredHandlers (32 + n) handler (32 + n) ≠ 0
      rw [Function.update_self]
      exact hh)).2 (by omega)
    have hopen : (picClearMask c.pics n).masked 2 = false := hopen
    have hne : n ≠ 2 := by omega
    rw [masked_picClearMask _ hn (by decide)] at hopen
    simp [hne] at hopen
    exact hclosed hopen

theorem handleIrq_pics (c : Cpu) (regs : IsrStackFrame) (n h : Nat) :
    (handleIrq c regs n h).pics = picSendEoi c.pics n := by
  unfold handleIrq
  dsimp only
  split <;> rfl

/-- What an interrupt of the controllers leaves in them: the master's lines are numbered as they are, those of the
    slave within the slave. -/
theorem step_interrupt {s s' : IsrSys} {regs : IsrStackFrame} (hlo : 32 ≤ regs.intNo) (hhi : regs.intNo < 48)
    (hstep : step s (.interrupt regs) = .ok s') :
    s'.cpu.registeredHandlers = s.cpu.registeredHandlers ∧
      s'.cpu.pics = picSendEoi (s.cpu.pics.deliver (regs.intNo - 32))
        (if regs.intNo < 40 then regs.intNo - 32 else regs.intNo - 40) := by
  obtain ⟨c, hroot, hs'⟩ := bind_eq_ok.mp hstep
  cases hs'
  rw [if_pos hlo] at hroot
  have htable := rootIsrHandler_table hroot
  refine ⟨htable, ?_⟩
  unfold rootIsrHandler at hroot
  by_cases hmaster : regs.intNo < 40
  · rw [if_pos hmaster]
    have hc := Except.ok.inj ((if_pos (show 32 ≤ regs.intNo ∧ regs.intNo < 40 from ⟨hlo, hmaster⟩)).symm.trans hroot)
    rw [← hc]
    exact handleIrq_pics _ _ _ _
  · rw [if_neg hmaster]
    have hnot : ¬ (32 ≤ regs.intNo ∧ regs.intNo < 40) := by omega
    have hslave : 40 ≤ regs.intNo ∧ regs.intNo < 48 := by omega
    have hc := Except.ok.inj (((if_neg hnot).trans (if_pos hslave)).symm.trans hroot)
    rw [← hc]
    exact handleIrq_pics _ _ _ _

theorem Deliverable.interrupt {s s' : IsrSys} {regs : IsrStackFrame} (h : Deliverable s.cpu) (hlo : 32 ≤ regs.intNo)
    (hhi : regs.intNo < 40) (hstep : step s (.interrupt regs) = .ok s') : Deliverable s'.cpu := by
  obtain ⟨htable, hpics⟩ := step_interrupt hlo (by omega) hstep
  rw [if_pos hhi] at hpics
  refine ⟨?_, ?_⟩
  · intro n hn hregistered
    rw [htable] at hregistered
    rw [hpics, masked_picSendEoi, masked_deliver, masked_picSendEoi, masked_deliver]
    exact h.lines n hn hregistered
  · rw [hpics]
    exact inService_eoi_deliver h.idle (by omega)

theorem not_deliverable_of_interrupt {s s' : IsrSys} {regs : IsrStackFrame} (h : Deliverable s.cpu)
    (hlo : 40 ≤ regs.intNo) (hhi : regs.intNo < 48) (hstep : step s (.interrupt regs) = .ok s') :
    ¬ Deliverable s'.cpu := by
  obtain ⟨-, hpics⟩ := step_interrupt (by omega) hhi hstep
  have hnot : ¬ regs.intNo < 40 := by omega
  rw [if_neg hnot, show regs.intNo - 40 = regs.intNo - 32 - 8 by omega] at hpics
  intro h'
  have hidle := h'.idle
  rw [hpics] at hidle
  exact inService_eoi_deliver_slave h.idle (by omega) (by omega) hidle

/-- **The lines of the master stay deliverable**, in every run in which no line of the slave is delivered, or
    registered before line 2 of the master. A step that does one of these leaves a line that cannot be delivered. -/
theorem lines_stay_deliverable {c : Cpu} {s : IsrSys}
    (hrun : Reaches step (fun s a => IrqCall s a ∧ MasterLines s a) (.boot c) s) :
    Deliverable s.cpu ∧
      ∀ a s', IrqCall s a → ¬ MasterLines s a → step s a = .ok s' → ¬ Deliverable s'.cpu := by
  have hdeliverable : Deliverable s.cpu := by
    refine hrun.invariant (fun s => Deliverable s.cpu) (deliverable_install c) ?_
    intro s a s' h hmeets hstep
    obtain ⟨hcall, hsafe⟩ := hmeets
    cases a with
    | registerIsr => exact hcall.elim
    | registerIrq n handler =>
        cases hstep
        exact h.register hcall.1 hsafe
    | interrupt regs => exact h.interrupt hcall.1 hsafe hstep
  refine ⟨hdeliverable, ?_⟩
  intro a s' hcall hrisky hstep
  cases a with
  | registerIsr => exact hcall.elim
  | registerIrq n handler =>
      cases hstep
      exact not_deliverable_of_register hcall.1 hcall.2 hrisky
  | interrupt regs =>
      have hrisky : ¬ regs.intNo < 40 := hrisky
      exact not_deliverable_of_interrupt hdeliverable (by omega) hcall.2.1 hstep

/-- The keyboard is registered and pressed twice. -/
theorem keyboard_stays_deliverable :
    ∃ s, Reaches step (fun s a => IrqCall s a ∧ MasterLines s a) (.boot ⟨fun _ => 0, samplePics, [], []⟩) s ∧
      s.cpu.calls.length = 2 ∧ Deliverable s.cpu := by
  obtain ⟨-, s, -, hrun, hpost⟩ := exists_of_sample (.ok ()) (fun _ => IsrSys.boot ⟨fun _ => 0, samplePics, [], []⟩)
    step (fun s a => decide (IrqCall s a ∧ MasterLines s a))
    [.registerIrq 1 0x1000, .interrupt { intNo := 33 }, .interrupt { intNo := 33 }]
    (fun _ s => decide (s.cpu.calls.length = 2)) (fun _ _ h => of_decide_eq_true h) (by decide)
  exact ⟨s, hrun, of_decide_eq_true hpost, (lines_stay_deliverable hrun).1⟩

/-- **A line of the slave is lost.** The clock on line 8 is registered and masked by the master; with line 2 open it is
    delivered once and stays in service. -/
theorem slave_line_lost :
    (∃ s, Reaches step IrqCall (.boot ⟨fun _ => 0, samplePics, [], []⟩) s ∧ s.cpu.registeredHandlers 40 ≠ 0 ∧
      s.cpu.pics.masked 2 = true) ∧
    ∃ s, Reaches step IrqCall (.boot ⟨fun _ => 0, samplePics, [], []⟩) s ∧ s.cpu.pics.inService = (0, 1) := by
  refine ⟨?_, ?_⟩
  · obtain ⟨-, s, -, hrun, hpost⟩ := exists_of_sample (.ok ()) (fun _ => IsrSys.boot ⟨fun _ => 0, samplePics, [], []⟩)
      step (fun s a => decide (IrqCall s a)) [.registerIrq 8 0x1000]
      (fun _ s => decide (s.cpu.registeredHandlers 40 ≠ 0 ∧ s.cpu.pics.masked 2 = true))
      (fun _ _ h => of_decide_eq_true h) (by decide)
    exact ⟨s, hrun, of_decide_eq_true hpost⟩
  · obtain ⟨-, s, -, hrun, hpost⟩ := exists_of_sample (.ok ()) (fun _ => IsrSys.boot ⟨fun _ => 0, samplePics, [], []⟩)
      step (fun s a => decide (IrqCall s a))
      [.registerIrq 2 0x1000, .registerIrq 8 0x2000, .interrupt { intNo := 40 }]
      (fun _ s => decide (s.cpu.pics.inService = (0, 1))) (fun _ _ h => of_decide_eq_true h) (by decide)
    exact ⟨s, hrun, of_decide_eq_true hpost⟩

end LearningOS.Isr
