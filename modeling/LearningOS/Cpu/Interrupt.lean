import LearningOS.Cpu.Idt
import LearningOS.Cpu.IsrDefs
import LearningOS.Driver.PicPorts

/-!
# `Cpu.Interrupt` — an interrupt from the controllers to its handler

The dispatcher of `Cpu.Isr` is given a frame and a number. Here it has to be reached: the controllers deliver a line,
with the vector that their ports have been set up for; the processor looks the vector up in the bytes of the table,
pushes its words and goes to the address it finds; the instructions there push the rest and call `root_isr_handler`,
which takes its frame off the stack. When a line may be delivered, its mask and those in service, is in `Cpu.Isr`.

* **`line_reaches_handler`** — in every state after `isr_install` and any registrations and interrupts, a line that is
  delivered gets to the first handler registered for it, with the frame of the interrupted program; and the whole machine
  does what `Cpu.Isr` says.
-/

namespace LearningOS.IsrDefs

open Bytes Isr Run

/-! ## The machine -/

/-- `registered_handlers`, the controllers behind their ports, memory, the calls made to handlers and the texts printed;
    and the registrations that were tried, the latest first. -/
structure IntSys where
  registeredHandlers : Nat → Nat
  ports : Ports
  mem : Mem
  calls : List (Nat × IsrStackFrame)
  console : List String
  tried : List (Nat × Nat)

/-- What the functions of `cpu/isr.c` work on. -/
def IntSys.cpu (k : IntSys) : Cpu := ⟨k.registeredHandlers, k.ports.pics, k.calls, k.console⟩

/-- What they leave, with the ports. -/
def IntSys.withCpu (k : IntSys) (c : Cpu) (ports : Ports) : IntSys :=
  { k with registeredHandlers := c.registeredHandlers, ports := ports, calls := c.calls, console := c.console }

/-- The machine at the call, its return address pushed, or nothing if there is no call. -/
def atCall (c : Callee) : List Instr → Machine → Option Machine
  | [], _ => none
  | .call :: _, m => some (m.push c.back)
  | i :: is, m => atCall c is (exec c m i)

/-- Where the parts are: the table, the code at an address, and what the stubs call. -/
structure Setup where
  mainIdt : Nat
  code : Nat → List Instr
  callee : Callee

/-- Why an interrupt does not get to `root_isr_handler`, or is not handled there. -/
inductive IntFault where
  | noVector
  | noGate
  | noCall
  | handler (fault : IsrFault)
deriving DecidableEq

/-- `pic_send_eoi`, as `root_isr_handler` comes to it for a number. -/
def endOfInterrupt (ports : Ports) (intNo : Nat) : Ports :=
  if irqOffset1 ≤ intNo ∧ intNo < irqOffset1 + 8 then ports.sendEoi (intNo - irqOffset1)
  else if irqOffset2 ≤ intNo ∧ intNo < irqOffset2 + 8 then ports.sendEoi (intNo - irqOffset2)
  else ports

/-- A registration, or a line delivered while the processor is in some state. -/
inductive IntEvent where
  | registerIsr (isrNumber handler : Nat)
  | registerIrq (irqNumber handler : Nat)
  | line (irqNumber : Nat) (m : Machine)

/-- From the line to the frame that `root_isr_handler` gets. -/
def takeInterrupt (setup : Setup) (k : IntSys) (irqNumber : Nat) (m : Machine) : Except IntFault IsrStackFrame :=
  match k.ports.vectorOf irqNumber with
  | none => .error .noVector
  | some vector =>
    match gateTarget (setIdt setup.mainIdt) k.mem vector with
    | none => .error .noGate
    | some target =>
      match atCall setup.callee (setup.code target) (deliver (BitVec.ofNat 64 target) none m) with
      | none => .error .noCall
      | some entry => .ok (argFrame entry)

/-- One step. -/
def intStep (setup : Setup) (k : IntSys) : IntEvent → Except IntFault IntSys
  | .registerIsr isrNumber handler =>
    .ok { k.withCpu (registerIsrHandler k.cpu isrNumber handler).2 k.ports with
      tried := (isrNumber, handler) :: k.tried }
  | .registerIrq irqNumber handler =>
    let (err, c) := registerIsrHandler k.cpu ((irqNumber + irqOffset1) % 2 ^ 8) handler
    .ok { k.withCpu c (if err = .ok then k.ports.clearMask irqNumber else k.ports) with
      tried := ((irqNumber + irqOffset1) % 2 ^ 8, handler) :: k.tried }
  | .line irqNumber m =>
    takeInterrupt setup k irqNumber m >>= fun frame =>
      (rootIsrHandler { k.cpu with pics := (k.ports.deliver irqNumber).pics } frame).mapError .handler >>= fun c =>
        .ok (k.withCpu c (endOfInterrupt (k.ports.deliver irqNumber) frame.intNo))

/-- `isr_install`; `isrAddr n` is the address of `_isr_n`. -/
def IntSys.install (setup : Setup) (isrAddr : Nat → Nat) (k : IntSys) : IntSys :=
  { k with
    registeredHandlers := fun _ => 0
    ports := k.ports.install
    mem := isrInstallGates setup.mainIdt isrAddr k.mem
    tried := [] }

/-- The registrations are made with bytes and real handlers, and the lines delivered are the fifteen that devices have. -/
def IntCall : IntEvent → Prop
  | .registerIsr v h => v < 2 ^ 8 ∧ h ≠ 0
  | .registerIrq n h => n < 2 ^ 8 ∧ h ≠ 0
  | .line n _ => n < 16 ∧ n ≠ 2

/-! ## To the call -/

/-- Code up to its first call. -/
theorem atCall_append (c : Callee) {is : List Instr} (his : Instr.call ∉ is) (rest : List Instr) (m : Machine) :
    atCall c (is ++ Instr.call :: rest) m = some ((execAll c is m).push c.back) := by
  induction is generalizing m with
  | nil => rfl
  | cons i is ih =>
      obtain ⟨hi, his⟩ := List.ne_and_not_mem_of_not_mem_cons his
      have hrec := ih his (exec c m i)
      rw [List.cons_append]
      cases i with
      | call => exact absurd rfl hi
      | _ => exact hrec

theorem call_notMem_isrEnter (n : Nat) : Instr.call ∉ isrPrefix n ++ isrEnter := by
  have henter : Instr.call ∉ isrEnter := by decide
  have hfront : Instr.call ∉ isrPrefix n := by
    unfold isrPrefix isrErrcode isrNoerrcode
    split <;> simp
  rw [List.mem_append, not_or]
  exact ⟨hfront, henter⟩

/-- **A stub gets to its call.** -/
theorem atCall_isr (c : Callee) (stub : BitVec 64) (n : Nat) (err : Option (BitVec 64)) (m : Machine) :
    atCall c (isr n) (deliver stub err m) = some (handlerEntry c stub n err m) := by
  have hcode : isr n = (isrPrefix n ++ isrEnter) ++ Instr.call :: isrLeave := by
    unfold isr isrCommon
    simp only [List.append_assoc, List.singleton_append]
  rw [hcode, atCall_append c (call_notMem_isrEnter n)]
  rfl

/-! ## Simulation -/

/-- The stubs are where `isr_install` says, and the controllers and the table are as it has left them. -/
structure Installed (setup : Setup) (isrAddr : Nat → Nat) (k : IntSys) : Prop where
  code : ∀ n < 48, setup.code (isrAddr n) = isr n
  ports : Initialised k.ports 32 40
  gates : ∀ v < 48, gateTarget (setIdt setup.mainIdt) k.mem v = some (isrAddr v)

/-- The frame of a line: of the interrupted program, with the rest of `rax` above `ds`. -/
def lineFrame (n : Nat) (m : Machine) : IsrStackFrame :=
  { namedFrame (32 + n) none m with ds := (dsWord (m.reg .rax) (m.seg .ds)).toNat }

section Simulation

variable {setup : Setup} {isrAddr : Nat → Nat} {k : IntSys}

theorem installed_install (isrAddr : Nat → Nat) (k : IntSys) (hcode : ∀ n < 48, setup.code (isrAddr n) = isr n)
    (haddr : ∀ n < 48, isrAddr n < 2 ^ 64) : Installed setup isrAddr (k.install setup isrAddr) := by
  refine ⟨hcode, (install_simulates k.ports).1, ?_⟩
  intro v hv
  have htarget := gateTarget_isrInstallGates setup.mainIdt haddr k.mem (show v < 256 by omega)
  rw [if_pos hv] at htarget
  exact htarget

/-- **A line gets to `root_isr_handler`**, with its frame. -/
theorem Installed.takeInterrupt (h : Installed setup isrAddr k) {n : Nat} (hn : n < 16) (h2 : n ≠ 2) (m : Machine) :
    takeInterrupt setup k n m = .ok (lineFrame n m) := by
  have hfits : Fits (32 + n) none := by
    have hall : ∀ n < 16, hasErrcode (32 + n) = false := by decide
    exact hall n hn
  unfold IsrDefs.takeInterrupt
  rw [h.ports.vectorOf hn h2]
  dsimp only
  rw [h.gates (32 + n) (by omega)]
  dsimp only
  rw [h.code (32 + n) (by omega), atCall_isr]
  dsimp only
  rw [argFrame_of_fits setup.callee _ (by omega) m hfits]
  rfl

theorem endOfInterrupt_simulates {ports : Ports} (h : Initialised ports 32 40) (intNo : Nat) :
    Initialised (endOfInterrupt ports intNo) 32 40 := by
  unfold endOfInterrupt
  split
  · exact (sendEoi_simulates h _).1
  · split
    · exact (sendEoi_simulates h _).1
    · exact h

/-- The dispatcher leaves the controllers as their ports show them. -/
theorem rootIsrHandler_ports {c c' : Cpu} {ports : Ports} {regs : IsrStackFrame} (h : Initialised ports 32 40)
    (hpics : c.pics = ports.pics) (hroot : rootIsrHandler c regs = .ok c') :
    c'.pics = (endOfInterrupt ports regs.intNo).pics := by
  unfold rootIsrHandler at hroot
  unfold endOfInterrupt
  dsimp only at hroot
  split at hroot
  · rename_i hmaster
    cases hroot
    rw [if_pos hmaster, (sendEoi_simulates h _).2, ← hpics]
    exact handleIrq_pics _ _ _ _
  · rename_i hmaster
    rw [if_neg hmaster]
    split at hroot
    · rename_i hslave
      cases hroot
      rw [if_pos hslave, (sendEoi_simulates h _).2, ← hpics]
      exact handleIrq_pics _ _ _ _
    · rename_i hslave
      rw [if_neg hslave]
      split at hroot
      · split at hroot
        · cases hroot
        · cases hroot
          exact hpics
      · cases hroot
        exact hpics

/-- What `Cpu.Isr` calls the event. -/
def IntEvent.act : IntEvent → IsrAct
  | .registerIsr isrNumber handler => .registerIsr isrNumber handler
  | .registerIrq irqNumber handler => .registerIrq irqNumber handler
  | .line irqNumber m => .interrupt (lineFrame irqNumber m)

/-- What `Cpu.Isr` sees of the machine. -/
def IntSys.isrSys (k : IntSys) : IsrSys := ⟨k.cpu, k.tried⟩

theorem IntCall.act {e : IntEvent} (h : IntCall e) : IsrCall e.act := by
  cases e with
  | registerIsr v handler => exact h
  | registerIrq n handler => exact h
  | line n m =>
      show 32 + n < 48
      have hn : n < 16 := h.1
      omega

theorem Installed.withCpu (h : Installed setup isrAddr k) (c : Cpu) {ports : Ports} (hports : Initialised ports 32 40)
    (tried : List (Nat × Nat)) : Installed setup isrAddr { k.withCpu c ports with tried := tried } :=
  ⟨h.code, hports, h.gates⟩

theorem cpu_withCpu (c : Cpu) {ports : Ports} (hpics : c.pics = ports.pics) (tried : List (Nat × Nat)) :
    IntSys.cpu { k.withCpu c ports with tried := tried } = c := by
  show Cpu.mk c.registeredHandlers ports.pics c.calls c.console = c
  rw [← hpics]

/-- A registration for a line, at the ports. -/
theorem registerIrq_simulates (h : Installed setup isrAddr k) {n handler : Nat} {k' : IntSys}
    (hstep : intStep setup k (.registerIrq n handler) = .ok k') :
    Installed setup isrAddr k' ∧ step k.isrSys (.registerIrq n handler) = .ok k'.isrSys := by
  obtain ⟨hclear, hclearPics⟩ := updateMask_simulates h.ports (fun mask bit => mask &&& ~~~bit) n
  have hrun := registerIsrHandler_cases k.cpu handler
    (show (n + irqOffset1) % 2 ^ 8 < idtEntries from Nat.mod_lt _ (by decide))
  have hirq := registerIrqHandler_cases k.cpu n handler
  unfold intStep at hstep
  dsimp only at hstep
  rcases hrun with ⟨h0, hrun⟩ | ⟨h0, hrun⟩
  · rw [hrun] at hstep
    cases hstep
    rcases hirq with ⟨-, hirq⟩ | ⟨h0', -⟩
    · refine ⟨h.withCpu k.cpu h.ports _, ?_⟩
      show Except.ok (IsrSys.mk (registerIrqHandler k.cpu n handler).2 _) = _
      rw [hirq]
      rfl
    · exact absurd h0' h0
  · rw [hrun] at hstep
    cases hstep
    rcases hirq with ⟨h0', -⟩ | ⟨-, hirq⟩
    · exact absurd h0 h0'
    · refine ⟨h.withCpu _ hclear _, ?_⟩
      show Except.ok (IsrSys.mk (registerIrqHandler k.cpu n handler).2 _) = _
      rw [hirq]
      have hpics : (k.ports.clearMask n).pics = picClearMask k.cpu.pics n := hclearPics
      show _ = Except.ok (IsrSys.mk ⟨_, (k.ports.clearMask n).pics, _, _⟩ _)
      rw [hpics]
      rfl

/-- **A delivered line** is an interrupt of the dispatcher. -/
theorem line_simulates (h : Installed setup isrAddr k) {n : Nat} (hn : n < 16) (h2 : n ≠ 2) (m : Machine) :
    ∃ k', intStep setup k (.line n m) = .ok k' ∧ Installed setup isrAddr k' ∧
      step k.isrSys (.interrupt (lineFrame n m)) = .ok k'.isrSys ∧
      k'.calls = (if k.registeredHandlers (32 + n) = 0 then [] else [(k.registeredHandlers (32 + n), lineFrame n m)]) ++
        k.calls := by
  obtain ⟨hdeliver, hdeliverPics⟩ := deliver_simulates h.ports n
  have hvector : (lineFrame n m).intNo = 32 + n := rfl
  obtain ⟨c, hroot, hcalls⟩ :=
    (@dispatched_iff { k.cpu with pics := (k.ports.deliver n).pics } (lineFrame n m) (by omega)).mpr (.inl (by omega))
  have hpics := rootIsrHandler_ports hdeliver rfl hroot
  refine ⟨k.withCpu c (endOfInterrupt (k.ports.deliver n) (lineFrame n m).intNo), ?_, ?_, ?_, hcalls⟩
  · show (IsrDefs.takeInterrupt setup k n m >>= _) = _
    rw [h.takeInterrupt hn h2 m, ok_bind, hroot]
    rfl
  · exact h.withCpu c (endOfInterrupt_simulates hdeliver _) k.tried
  · have hcpu : (k.withCpu c (endOfInterrupt (k.ports.deliver n) (lineFrame n m).intNo)).cpu = c :=
      cpu_withCpu c hpics k.tried
    have hlo : 32 ≤ (lineFrame n m).intNo := by omega
    have hline : (lineFrame n m).intNo - 32 = n := by omega
    have hbefore : (if irqOffset1 ≤ (lineFrame n m).intNo then
        k.isrSys.cpu.pics.deliver ((lineFrame n m).intNo - irqOffset1) else k.isrSys.cpu.pics) =
          (k.ports.deliver n).pics := by
      rw [if_pos hlo, hline, hdeliverPics]
      rfl
    show (rootIsrHandler { k.cpu with pics := ite _ _ _ } (lineFrame n m) >>= _) = _
    rw [hbefore, hroot, ok_bind]
    unfold IntSys.isrSys
    rw [hcpu]
    rfl

theorem intStep_simulates (h : Installed setup isrAddr k) {e : IntEvent} (hcall : IntCall e) {k' : IntSys}
    (hstep : intStep setup k e = .ok k') : Installed setup isrAddr k' ∧ step k.isrSys e.act = .ok k'.isrSys := by
  cases e with
  | registerIsr v handler =>
      have hpics : (registerIsrHandler k.cpu v handler).2.pics = k.ports.pics := by
        rcases registerIsrHandler_cases k.cpu handler (show v < idtEntries from hcall.1) with ⟨-, hrun⟩ | ⟨-, hrun⟩
        · rw [hrun]
          rfl
        · rw [hrun]
          rfl
      cases hstep
      refine ⟨h.withCpu _ h.ports _, ?_⟩
      unfold IntSys.isrSys
      rw [cpu_withCpu _ hpics]
      rfl
  | registerIrq n handler => exact registerIrq_simulates h hstep
  | line n m =>
      obtain ⟨k1, hline, hinstalled, hisr, -⟩ := line_simulates h hcall.1 hcall.2 m
      rw [hline] at hstep
      cases hstep
      exact ⟨hinstalled, hisr⟩

end Simulation

/-- **A line that is delivered reaches its handler.** With the stubs in their places, take any state that
    `isr_install` and any run of registrations and interrupts lead to. It is one that the dispatcher's model reaches
    with the same calls; and a line delivered then, whatever the processor is doing, gets through the controllers, the
    table, its stub and the dispatcher to the first handler registered for it, with the frame of the interrupted
    program. -/
theorem line_reaches_handler {setup : Setup} {isrAddr : Nat → Nat} (hcode : ∀ n < 48, setup.code (isrAddr n) = isr n)
    (haddr : ∀ n < 48, isrAddr n < 2 ^ 64) {k₀ k : IntSys}
    (hrun : Reaches (intStep setup) (fun _ e => IntCall e) (k₀.install setup isrAddr) k) :
    Reaches step (fun _ a => IsrCall a) (.boot k₀.cpu) k.isrSys ∧
    ∀ n m, n < 16 → n ≠ 2 → ∃ k', intStep setup k (.line n m) = .ok k' ∧
      k'.calls = (if firstTried k.tried (32 + n) = 0 then [] else [(firstTried k.tried (32 + n), lineFrame n m)]) ++
        k.calls := by
  have hboot : (k₀.install setup isrAddr).isrSys = .boot k₀.cpu := by
    unfold IntSys.isrSys IntSys.cpu IntSys.install IsrSys.boot isrInstall
    dsimp only
    rw [(install_simulates k₀.ports).2]
  have hinv : Installed setup isrAddr k ∧ Reaches step (fun _ a => IsrCall a) (.boot k₀.cpu) k.isrSys := by
    refine hrun.invariant
      (fun k => Installed setup isrAddr k ∧ Reaches step (fun _ a => IsrCall a) (.boot k₀.cpu) k.isrSys) ?_ ?_
    · refine ⟨installed_install isrAddr k₀ hcode haddr, ?_⟩
      rw [hboot]
      exact .refl
    · intro k e k' h hcall hstep
      obtain ⟨hinstalled, hisr⟩ := intStep_simulates h.1 hcall hstep
      exact ⟨hinstalled, .tail h.2 hcall.act hisr⟩
  have htabled : Tabled k.isrSys := by
    refine hinv.2.invariant Tabled ⟨fun t ht => (by cases ht), fun v => rfl⟩ ?_
    intro s a s' h hcall hstep
    exact tabled_step h hcall hstep
  refine ⟨hinv.2, ?_⟩
  intro n m hn h2
  obtain ⟨k', hstep, -, -, hcalls⟩ := line_simulates hinv.1 hn h2 m
  have htable : k.registeredHandlers (32 + n) = firstTried k.tried (32 + n) := htabled.table (32 + n)
  rw [htable] at hcalls
  exact ⟨k', hstep, hcalls⟩

/-- The stubs a byte apart from 1 MiB on, and a dispatcher that comes back at once. -/
def sampleSetup : Setup := ⟨0x1000, fun a => isr (a - 0x100000), ⟨id, 0⟩⟩

/-- Controllers that wait for the second word of their initialisation, and nothing set up. -/
def sampleIntSys : IntSys :=
  ⟨fun _ => 0, ⟨⟨.icw2, false, false, 0, 0, 0, ⟨0, 0⟩⟩, ⟨.icw2, false, false, 0, 0, 0, ⟨0, 0⟩⟩⟩, fun _ => 0, [], [], []⟩

/-- The keyboard: registered on line 1, and then a key. -/
theorem keyboard_reaches_handler :
    ∃ k k', Reaches (intStep sampleSetup) (fun _ e => IntCall e)
        (sampleIntSys.install sampleSetup (0x100000 + ·)) k ∧
      intStep sampleSetup k (.line 1 (sampleMachine 0)) = .ok k' ∧
      k'.calls = [(0x2000, lineFrame 1 (sampleMachine 0))] := by
  have hrun : Reaches (intStep sampleSetup) (fun _ e => IntCall e)
      (sampleIntSys.install sampleSetup (0x100000 + ·)) _ :=
    .tail .refl (a := .registerIrq 1 0x2000) ⟨by decide, by decide⟩ rfl
  have hcode : ∀ n < 48, sampleSetup.code (0x100000 + n) = isr n := by
    intro n hn
    show isr (0x100000 + n - 0x100000) = isr n
    rw [Nat.add_sub_cancel_left]
  obtain ⟨k', hstep, hcalls⟩ :=
    (line_reaches_handler hcode (fun n hn => by omega) hrun).2 1 (sampleMachine 0) (by decide) (by decide)
  exact ⟨_, k', hrun, hstep, hcalls⟩

end LearningOS.IsrDefs
