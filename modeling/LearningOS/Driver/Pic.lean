import Mathlib.Data.Nat.Bitwise

/-!
# `Driver.Pic` — the cascaded interrupt controllers, `driver/pic.c`

Two 8259 controllers, each with a mask register, which the data port reads and writes, and an in-service register,
which a delivery sets a bit of and an end-of-interrupt command clears one of. Lines 8 to 15 are those of the slave, and
come in through line 2 of the master.
-/

namespace LearningOS.Isr

/-! ## Controllers -/

/-- A controller. -/
structure Controller where
  mask : BitVec 8
  inService : BitVec 8
deriving DecidableEq, Repr

/-- The master and the slave. -/
structure Pics where
  master : Controller
  slave : Controller
deriving DecidableEq, Repr

/-- Line `i` of a controller is taken into service. -/
def Controller.serve (c : Controller) (i : Nat) : Controller :=
  { c with inService := c.inService ||| BitVec.ofNat 8 (2 ^ i) }

/-- `PIC_EOI` at the command port, without a line: the in-service line of highest priority, which is the one of the
    lowest number, is done. -/
def Controller.eoi (c : Controller) : Controller := { c with inService := c.inService &&& (c.inService - 1) }

/-- The controllers deliver line `n`. -/
def Pics.deliver (p : Pics) (n : Nat) : Pics :=
  if n < 8 then { p with master := p.master.serve n } else ⟨p.master.serve 2, p.slave.serve (n - 8)⟩

/-- `pic_remap`: the controllers start anew, with the masks they had. -/
def picRemap (p : Pics) : Pics := ⟨⟨p.master.mask, 0⟩, ⟨p.slave.mask, 0⟩⟩

/-- `pic_send_eoi`. -/
def picSendEoi (p : Pics) (irqNumber : Nat) : Pics :=
  let p1 := if irqNumber ≥ 8 then { p with slave := p.slave.eoi } else p
  { p1 with master := p1.master.eoi }

/-- Read the mask that has the bit of a line, change it, and write it back. The bit is `1 << irq_number`, with the
    count taken mod 32 as the machine does. -/
def picUpdateMask (change : BitVec 8 → BitVec 8 → BitVec 8) (p : Pics) (irqNumber : Nat) : Pics :=
  if irqNumber ≥ 8 then
    { p with slave := { p.slave with mask := change p.slave.mask (BitVec.ofNat 8 (2 ^ ((irqNumber - 8) % 32))) } }
  else { p with master := { p.master with mask := change p.master.mask (BitVec.ofNat 8 (2 ^ (irqNumber % 32))) } }

/-- `pic_set_mask`. -/
def picSetMask : Pics → Nat → Pics := picUpdateMask (fun mask bit => mask ||| bit)

/-- `pic_clear_mask`. -/
def picClearMask : Pics → Nat → Pics := picUpdateMask (fun mask bit => mask &&& ~~~bit)

/-- Line `n` is masked at its controller. -/
def Pics.masked (p : Pics) (n : Nat) : Bool := if n < 8 then p.master.mask.getLsbD n else p.slave.mask.getLsbD (n - 8)

/-! ## What the calls do to a line -/

theorem getLsbD_bit {k : Nat} (i : Nat) (hk : k < 8) : (BitVec.ofNat 8 (2 ^ k)).getLsbD i = decide (k = i) := by
  rw [BitVec.getLsbD_ofNat, Nat.testBit_two_pow]
  by_cases hi : i < 8
  · simp [hi]
  · have hne : k ≠ i := by omega
    simp [hi, hne]

theorem masked_picClearMask (p : Pics) {n m : Nat} (hn : n < 16) (hm : m < 16) :
    (picClearMask p n).masked m = (p.masked m && !decide (n = m)) := by
  unfold picClearMask picUpdateMask Pics.masked
  by_cases h8 : n ≥ 8
  · rw [if_pos h8]
    have hmod : (n - 8) % 32 = n - 8 := Nat.mod_eq_of_lt (by omega)
    by_cases hm8 : m < 8
    · have hne : n ≠ m := by omega
      simp [hm8, hne]
    · have hbit := getLsbD_bit (m - 8) (show n - 8 < 8 by omega)
      have heq : (n - 8 = m - 8) ↔ n = m := by omega
      have hlt : m - 8 < 8 := by omega
      simp only [if_neg hm8, hmod, BitVec.getLsbD_and, BitVec.getLsbD_not, hbit, heq, hlt, decide_true, Bool.true_and]
  · rw [if_neg h8]
    have hmod : n % 32 = n := Nat.mod_eq_of_lt (by omega)
    by_cases hm8 : m < 8
    · have hbit := getLsbD_bit m (show n < 8 by omega)
      simp only [hmod, BitVec.getLsbD_and, BitVec.getLsbD_not, hbit, hm8, decide_true, Bool.true_and, if_true]
    · have hne : n ≠ m := by omega
      simp [hm8, hne]

/-- The in-service registers of both controllers. -/
def Pics.inService (p : Pics) : BitVec 8 × BitVec 8 := (p.master.inService, p.slave.inService)

theorem inService_picUpdateMask (change : BitVec 8 → BitVec 8 → BitVec 8) (p : Pics) (n : Nat) :
    (picUpdateMask change p n).inService = p.inService := by
  unfold picUpdateMask
  split <;> rfl

theorem masked_deliver (p : Pics) (n m : Nat) : (p.deliver n).masked m = p.masked m := by
  unfold Pics.deliver
  split <;> rfl

theorem masked_picSendEoi (p : Pics) (n m : Nat) : (picSendEoi p n).masked m = p.masked m := by
  unfold picSendEoi
  split <;> rfl

/-- A register with one bit set: its end of interrupt clears it. -/
theorem eoi_of_bit : ∀ k < 8, (0#8 ||| BitVec.ofNat 8 (2 ^ k)) &&& (0#8 ||| BitVec.ofNat 8 (2 ^ k)) - 1 = 0#8 := by
  decide

/-- An end of interrupt at the master undoes the delivery of one of its lines. -/
theorem inService_eoi_deliver {p : Pics} (hidle : p.inService = (0, 0)) {n : Nat} (hn : n < 8) :
    (picSendEoi (p.deliver n) n).inService = (0, 0) := by
  obtain ⟨hmaster, hslave⟩ := Prod.mk.inj hidle
  have hnot : ¬ n ≥ 8 := by omega
  unfold picSendEoi Pics.deliver
  rw [if_pos hn, if_neg hnot]
  show ((p.master.inService ||| BitVec.ofNat 8 (2 ^ n)) &&& ((p.master.inService ||| BitVec.ofNat 8 (2 ^ n)) - 1),
    p.slave.inService) = (0, 0)
  rw [hslave, hmaster]
  exact congrArg (·, 0) (eoi_of_bit n hn)

/-- The dispatcher numbers a line of the slave within its controller, and so no end of interrupt gets to the slave. -/
theorem inService_eoi_deliver_slave {p : Pics} (hidle : p.inService = (0, 0)) {n : Nat} (hn : 8 ≤ n) (hn' : n < 16) :
    (picSendEoi (p.deliver n) (n - 8)).inService ≠ (0, 0) := by
  obtain ⟨-, hslave⟩ := Prod.mk.inj hidle
  have hnot : ¬ n - 8 ≥ 8 := by omega
  have hnot' : ¬ n < 8 := by omega
  unfold picSendEoi Pics.deliver
  rw [if_neg hnot', if_neg hnot]
  intro h
  obtain ⟨-, hzero⟩ := Prod.mk.inj h
  have hzero : p.slave.inService ||| BitVec.ofNat 8 (2 ^ (n - 8)) = 0 := hzero
  have hbit := congrArg (fun b => BitVec.getLsbD b (n - 8)) hzero
  simp only [BitVec.getLsbD_or, getLsbD_bit (n - 8) (show n - 8 < 8 by omega)] at hbit
  simp at hbit

end LearningOS.Isr
