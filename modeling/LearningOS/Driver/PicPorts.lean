import LearningOS.Driver.Pic

/-!
# `Driver.PicPorts` — the interrupt controllers behind their ports

`Driver.Pic` takes each function of `driver/pic.c` for what it does to the registers of the controllers. Here the
functions are the port accesses they consist of, and a controller is a machine that reads its initialisation words in
their order: after the first one its data port takes the vector offset, then the cascade, then the mode, and only then
the mask again.

* **`pic_calls_through_ports`** — from any state of the controllers, `isr_install` and every run of calls and deliveries
  after it do through the ports what they do to the registers, and line `n` has the vector `32 + n` all along.
-/

namespace LearningOS.Isr

/-! ## A controller -/

/-- The word a data port takes next. -/
inductive DataWord where
  | icw2
  | icw3
  | icw4
  | ocw1
deriving DecidableEq, Repr

/-- A controller with all its registers; `wantsIcw4` and `single` are what the last initialisation command said. -/
structure Chip where
  next : DataWord
  wantsIcw4 : Bool
  single : Bool
  icw2 : BitVec 8
  icw3 : BitVec 8
  icw4 : BitVec 8
  regs : Controller

/-- A byte at the command port: an initialisation command, which clears the mask too, or an end of interrupt without a
    line. The code sends no other. -/
def Chip.command (c : Chip) (data : BitVec 8) : Chip :=
  if data.getLsbD 4 then
    { c with next := .icw2, wantsIcw4 := data.getLsbD 0, single := data.getLsbD 1, icw4 := 0, regs := ⟨0, 0⟩ }
  else if data &&& 0xF8 = 0x20 then { c with regs := c.regs.eoi }
  else c

/-- A byte at the data port. -/
def Chip.dataOut (c : Chip) (data : BitVec 8) : Chip :=
  let behindIcw3 := if c.wantsIcw4 then DataWord.icw4 else .ocw1
  match c.next with
  | .icw2 => { c with icw2 := data, next := if c.single then behindIcw3 else .icw3 }
  | .icw3 => { c with icw3 := data, next := behindIcw3 }
  | .icw4 => { c with icw4 := data, next := .ocw1 }
  | .ocw1 => { c with regs := { c.regs with mask := data } }

/-- The vector of a line, in the mode for this processor: the offset gives the five high bits. -/
def Chip.vector (c : Chip) (i : Nat) : Option Nat :=
  if c.next = .ocw1 ∧ c.icw4.getLsbD 0 then some ((c.icw2 &&& 0xF8).toNat + i) else none

/-! ## The ports -/

/-- `PIC1_CMD_PORT`, `PIC1_DATA_PORT`, `PIC2_CMD_PORT` and `PIC2_DATA_PORT`. -/
inductive Port where
  | pic1Cmd
  | pic1Data
  | pic2Cmd
  | pic2Data
deriving DecidableEq, Repr

/-- The master and the slave. -/
structure Ports where
  master : Chip
  slave : Chip

/-- `byte_out`. -/
def Ports.byteOut (p : Ports) (port : Port) (data : BitVec 8) : Ports :=
  match port with
  | .pic1Cmd => { p with master := p.master.command data }
  | .pic1Data => { p with master := p.master.dataOut data }
  | .pic2Cmd => { p with slave := p.slave.command data }
  | .pic2Data => { p with slave := p.slave.dataOut data }

/-- `byte_in` of a data port: the mask. -/
def Ports.byteIn (p : Ports) (port : Port) : BitVec 8 :=
  match port with
  | .pic1Cmd => 0
  | .pic1Data => p.master.regs.mask
  | .pic2Cmd => 0
  | .pic2Data => p.slave.regs.mask

/-- The registers. -/
def Ports.pics (p : Ports) : Pics := ⟨p.master.regs, p.slave.regs⟩

/-- The vector that a line comes in with: a line of the master that no slave hangs on, or a line of the slave if the
    master expects a slave at line 2 and the slave knows that it is there. -/
def Ports.vectorOf (p : Ports) (n : Nat) : Option Nat :=
  if n < 8 then if p.master.icw3.getLsbD n then none else p.master.vector n
  else if p.master.icw3.getLsbD 2 ∧ p.slave.icw3 = 2 then p.slave.vector (n - 8)
  else none

/-! ## The functions -/

/-- `pic_remap`. The waits between the accesses are writes to a port nothing is behind. -/
def Ports.remap (p : Ports) (offset1 offset2 : BitVec 8) : Ports :=
  let mask1 := p.byteIn .pic1Data
  let mask2 := p.byteIn .pic2Data
  [(.pic1Cmd, 0x10 ||| 0x01), (.pic2Cmd, 0x10 ||| 0x01), (.pic1Data, offset1), (.pic2Data, offset2), (.pic1Data, 4),
    (.pic2Data, 2), (.pic1Data, 0x01), (.pic2Data, 0x01), (.pic1Data, mask1), (.pic2Data, mask2)].foldl
      (fun p access => p.byteOut access.1 access.2) p

/-- `pic_send_eoi`. -/
def Ports.sendEoi (p : Ports) (irqNumber : Nat) : Ports :=
  let p1 := if irqNumber ≥ 8 then p.byteOut .pic2Cmd 0x20 else p
  p1.byteOut .pic1Cmd 0x20

/-- The body of `pic_set_mask` and `pic_clear_mask`. -/
def Ports.updateMask (change : BitVec 8 → BitVec 8 → BitVec 8) (p : Ports) (irqNumber : Nat) : Ports :=
  let (irqNumber, picPort) := if irqNumber ≥ 8 then (irqNumber - 8, Port.pic2Data) else (irqNumber, .pic1Data)
  p.byteOut picPort (change (p.byteIn picPort) (BitVec.ofNat 8 (2 ^ (irqNumber % 32))))

/-- `pic_set_mask`. -/
def Ports.setMask : Ports → Nat → Ports := Ports.updateMask (fun mask bit => mask ||| bit)

/-- `pic_clear_mask`. -/
def Ports.clearMask : Ports → Nat → Ports := Ports.updateMask (fun mask bit => mask &&& ~~~bit)

/-- What `isr_install` does to the controllers. -/
def Ports.install (p : Ports) : Ports := (List.range 16).foldl Ports.setMask (p.remap 32 40)

/-- The controllers deliver line `n`. -/
def Ports.deliver (p : Ports) (n : Nat) : Ports :=
  if n < 8 then { p with master := { p.master with regs := p.master.regs.serve n } }
  else
    { master := { p.master with regs := p.master.regs.serve 2 }
      slave := { p.slave with regs := p.slave.regs.serve (n - 8) } }

/-! ## Simulation -/

/-- The controllers are initialised as `pic_remap` does it, and take masks. -/
structure Initialised (p : Ports) (offset1 offset2 : BitVec 8) : Prop where
  masterNext : p.master.next = .ocw1
  slaveNext : p.slave.next = .ocw1
  masterIcw2 : p.master.icw2 = offset1
  slaveIcw2 : p.slave.icw2 = offset2
  masterIcw3 : p.master.icw3 = 4
  slaveIcw3 : p.slave.icw3 = 2
  masterIcw4 : p.master.icw4 = 1
  slaveIcw4 : p.slave.icw4 = 1

section Simulation

variable {p : Ports} {offset1 offset2 : BitVec 8}

/-- **`pic_remap`** initialises the controllers from any state, and gives them back the masks they had. -/
theorem remap_initialises (p : Ports) (offset1 offset2 : BitVec 8) :
    Initialised (p.remap offset1 offset2) offset1 offset2 ∧ (p.remap offset1 offset2).pics = picRemap p.pics :=
  ⟨⟨rfl, rfl, rfl, rfl, rfl, rfl, rfl, rfl⟩, rfl⟩

/-- Other registers do not matter for the initialisation. -/
theorem Initialised.withRegs (h : Initialised p offset1 offset2) (r1 r2 : Controller) :
    Initialised ⟨{ p.master with regs := r1 }, { p.slave with regs := r2 }⟩ offset1 offset2 :=
  ⟨h.masterNext, h.slaveNext, h.masterIcw2, h.slaveIcw2, h.masterIcw3, h.slaveIcw3, h.masterIcw4, h.slaveIcw4⟩

/-- In an initialised controller the data port is the mask. -/
theorem dataOut_of_ocw1 {c : Chip} (h : c.next = .ocw1) (data : BitVec 8) :
    c.dataOut data = { c with regs := { c.regs with mask := data } } := by
  unfold Chip.dataOut
  rw [h]

theorem command_eoi (c : Chip) : c.command 0x20 = { c with regs := c.regs.eoi } := rfl

theorem updateMask_simulates (h : Initialised p offset1 offset2) (change : BitVec 8 → BitVec 8 → BitVec 8) (n : Nat) :
    Initialised (p.updateMask change n) offset1 offset2 ∧ (p.updateMask change n).pics = picUpdateMask change p.pics n := by
  unfold Ports.updateMask picUpdateMask
  by_cases hslave : n ≥ 8
  · rw [if_pos hslave, if_pos hslave]
    dsimp only [Ports.byteOut, Ports.byteIn]
    rw [dataOut_of_ocw1 h.slaveNext]
    exact ⟨h.withRegs p.master.regs _, rfl⟩
  · rw [if_neg hslave, if_neg hslave]
    dsimp only [Ports.byteOut, Ports.byteIn]
    rw [dataOut_of_ocw1 h.masterNext]
    exact ⟨h.withRegs _ p.slave.regs, rfl⟩

theorem sendEoi_simulates (h : Initialised p offset1 offset2) (n : Nat) :
    Initialised (p.sendEoi n) offset1 offset2 ∧ (p.sendEoi n).pics = picSendEoi p.pics n := by
  unfold Ports.sendEoi picSendEoi
  by_cases hslave : n ≥ 8
  · rw [if_pos hslave, if_pos hslave]
    exact ⟨h.withRegs p.master.regs.eoi p.slave.regs.eoi, rfl⟩
  · rw [if_neg hslave, if_neg hslave]
    exact ⟨h.withRegs p.master.regs.eoi p.slave.regs, rfl⟩

theorem deliver_simulates (h : Initialised p offset1 offset2) (n : Nat) :
    Initialised (p.deliver n) offset1 offset2 ∧ (p.deliver n).pics = p.pics.deliver n := by
  unfold Ports.deliver Pics.deliver
  by_cases hmaster : n < 8
  · rw [if_pos hmaster, if_pos hmaster]
    exact ⟨h.withRegs (p.master.regs.serve n) p.slave.regs, rfl⟩
  · rw [if_neg hmaster, if_neg hmaster]
    exact ⟨h.withRegs (p.master.regs.serve 2) (p.slave.regs.serve (n - 8)), rfl⟩

/-- The vectors of initialised controllers. -/
theorem Initialised.vectorOf (h : Initialised p 32 40) {n : Nat} (hn : n < 16) (h2 : n ≠ 2) :
    p.vectorOf n = some (32 + n) := by
  have hvector : ∀ {c : Chip} {offset : BitVec 8} (i : Nat), c.next = .ocw1 → c.icw2 = offset → c.icw4 = 1 →
      c.vector i = some ((offset &&& 0xF8).toNat + i) := by
    intro c offset i hnext hicw2 hicw4
    unfold Chip.vector
    rw [hnext, hicw2, hicw4]
    rfl
  unfold Ports.vectorOf
  by_cases hmaster : n < 8
  · have hline : (4 : BitVec 8).getLsbD n = false := by
      have hbit := getLsbD_bit n (show 2 < 8 by decide)
      rw [decide_eq_false (Ne.symm h2)] at hbit
      exact hbit
    rw [if_pos hmaster, h.masterIcw3, hline, hvector n h.masterNext h.masterIcw2 h.masterIcw4]
    rfl
  · rw [if_neg hmaster, h.masterIcw3, h.slaveIcw3, if_pos (by decide),
      hvector (n - 8) h.slaveNext h.slaveIcw2 h.slaveIcw4]
    show some (40 + (n - 8)) = _
    congr 1
    omega

end Simulation

/-! ## Runs -/

/-- A call of the driver, or a delivery. -/
inductive PicCall where
  | setMask (irqNumber : Nat)
  | clearMask (irqNumber : Nat)
  | sendEoi (irqNumber : Nat)
  | deliver (irqNumber : Nat)
deriving DecidableEq, Repr

/-- What it does through the ports. -/
def Ports.call (p : Ports) : PicCall → Ports
  | .setMask n => p.setMask n
  | .clearMask n => p.clearMask n
  | .sendEoi n => p.sendEoi n
  | .deliver n => p.deliver n

/-- What it does to the registers. -/
def Pics.call (p : Pics) : PicCall → Pics
  | .setMask n => picSetMask p n
  | .clearMask n => picClearMask p n
  | .sendEoi n => picSendEoi p n
  | .deliver n => p.deliver n

theorem call_simulates {p : Ports} {offset1 offset2 : BitVec 8} (h : Initialised p offset1 offset2) (call : PicCall) :
    Initialised (p.call call) offset1 offset2 ∧ (p.call call).pics = p.pics.call call := by
  cases call with
  | setMask n => exact updateMask_simulates h (fun mask bit => mask ||| bit) n
  | clearMask n => exact updateMask_simulates h (fun mask bit => mask &&& ~~~bit) n
  | sendEoi n => exact sendEoi_simulates h n
  | deliver n => exact deliver_simulates h n

theorem calls_simulate {p : Ports} {offset1 offset2 : BitVec 8} (h : Initialised p offset1 offset2)
    (calls : List PicCall) :
    Initialised (calls.foldl Ports.call p) offset1 offset2 ∧
      (calls.foldl Ports.call p).pics = calls.foldl Pics.call p.pics := by
  induction calls generalizing p with
  | nil => exact ⟨h, rfl⟩
  | cons call calls ih =>
      obtain ⟨hnext, hpics⟩ := call_simulates h call
      obtain ⟨hall, heq⟩ := ih hnext
      refine ⟨hall, ?_⟩
      rw [hpics] at heq
      exact heq

theorem setMasks_simulate {p : Ports} {offset1 offset2 : BitVec 8} (h : Initialised p offset1 offset2) (ns : List Nat) :
    Initialised (ns.foldl Ports.setMask p) offset1 offset2 ∧
      (ns.foldl Ports.setMask p).pics = ns.foldl picSetMask p.pics := by
  have hrun := calls_simulate h (ns.map .setMask)
  rw [List.foldl_map, List.foldl_map] at hrun
  exact hrun

/-- `isr_install`, as `Cpu.Isr` has it. -/
theorem install_simulates (p : Ports) :
    Initialised p.install 32 40 ∧ p.install.pics = (List.range 16).foldl picSetMask (picRemap p.pics) := by
  obtain ⟨hinit, hpics⟩ := remap_initialises p 32 40
  rw [Ports.install, ← hpics]
  exact setMasks_simulate hinit (List.range 16)

/-- **The calls through the ports.** However the controllers were found, after `isr_install` and any calls and
    deliveries in any order they hold the masks and in-service lines that the register-level functions give, their data
    ports take masks, and every line but the one of the cascade comes in with the vector `32 + n`. -/
theorem pic_calls_through_ports (p : Ports) (calls : List PicCall) :
    (calls.foldl Ports.call p.install).pics =
      calls.foldl Pics.call ((List.range 16).foldl picSetMask (picRemap p.pics)) ∧
    (calls.foldl Ports.call p.install).master.next = .ocw1 ∧
    (calls.foldl Ports.call p.install).slave.next = .ocw1 ∧
    ∀ n < 16, n ≠ 2 → (calls.foldl Ports.call p.install).vectorOf n = some (32 + n) := by
  obtain ⟨hinit, hpics⟩ := install_simulates p
  obtain ⟨hall, heq⟩ := calls_simulate hinit calls
  rw [← hpics]
  exact ⟨heq, hall.masterNext, hall.slaveNext, fun n hn h2 => hall.vectorOf hn h2⟩

end LearningOS.Isr
