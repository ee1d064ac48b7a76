import LearningOS.Cpu.Isr
import LearningOS.Lib.Stack

/-!
# `Cpu.IsrDefs` — the interrupt stubs, `cpu/isr_defs.asm`

The instructions of the stubs, on a machine that has the sixteen registers, the selectors, the flags and memory. An
interrupt is delivered by the processor, which pushes five words and for some vectors an error code; the stub of the
vector pushes what makes the `isr_stack_frame` complete and `_isr_common` calls `root_isr_handler`. The handler is any
function on the machine, what is known of it is what the calling convention promises.

* `Stacked` — the words the stub has on the stack, carried through the code instruction by instruction;
* `handlerEntry_stacked`, `execAll_isrLeave` — what the handler finds, and what the stub takes back from it;
* `isr_preserves_iff` — exactly when the interrupted program does not notice.
-/

namespace LearningOS.IsrDefs

open Stack Isr

/-! ## The machine -/

/-- The general registers. -/
inductive Reg where
  | rax | rbx | rcx | rdx | rsp | rbp | rsi | rdi
  | r8 | r9 | r10 | r11 | r12 | r13 | r14 | r15
deriving DecidableEq, Repr

/-- The selectors. -/
inductive Seg where
  | cs | ss | ds | es | fs | gs
deriving DecidableEq, Repr

/-- What a program can observe. `rip` is where the interrupted program goes on; it is not advanced by straight-line
    code. -/
structure Machine where
  reg : Reg → BitVec 64
  rip : BitVec 64
  rflags : BitVec 64
  seg : Seg → BitVec 16
  mem : Words

/-- The flag IF. -/
abbrev interruptFlag : BitVec 64 := 0x200

/-- The flags an interrupt gate clears: TF, IF, NT and RF. -/
abbrev gateFlags : BitVec 64 := 0x14300

/-- `KERNEL_CS`, the code segment of every gate. -/
abbrev kernelCs : BitVec 16 := 0x08

def Machine.setReg (m : Machine) (r : Reg) (w : BitVec 64) : Machine := { m with reg := Function.update m.reg r w }

def Machine.setSeg (m : Machine) (s : Seg) (w : BitVec 16) : Machine := { m with seg := Function.update m.seg s w }

/-- A word is pushed. -/
def Machine.push (m : Machine) (w : BitVec 64) : Machine :=
  { m with
    reg := Function.update m.reg .rsp (m.reg .rsp - 8)
    mem := Function.update m.mem (m.reg .rsp - 8) w }

/-- A word is popped to a register. The pointer moves first, so that `pop rsp` leaves the word in it. -/
def Machine.pop (m : Machine) (r : Reg) : Machine :=
  (m.setReg .rsp (m.reg .rsp + 8)).setReg r (m.mem (m.reg .rsp))

/-- The word `i` words above the stack pointer. -/
def Machine.word (m : Machine) (i : Nat) : BitVec 64 := m.mem (m.reg .rsp + BitVec.ofNat 64 (8 * i))

/-- A routine that `call` goes to, up to and with its `ret`, and the address it comes back to. -/
structure Callee where
  routine : Machine → Machine
  back : BitVec 64

/-- The instructions of the stubs. -/
inductive Instr where
  | push (r : Reg)
  | pop (r : Reg)
  | pushByte (n : BitVec 8)
  | movAxSeg (s : Seg)
  | movAx (w : BitVec 16)
  | movSegAx (s : Seg)
  | addRsp (n : BitVec 64)
  | call
  | cli
  | sti
  | iretq
deriving DecidableEq, Repr

/-- One instruction. Writing `ax` leaves the rest of `rax`; the byte of `push byte` is extended with its sign. -/
def exec (c : Callee) (m : Machine) : Instr → Machine
  | .push r => m.push (m.reg r)
  | .pop r => m.pop r
  | .pushByte n => m.push (n.signExtend 64)
  | .movAxSeg s => m.setReg .rax ((m.reg .rax).extractLsb' 16 48 ++ m.seg s)
  | .movAx w => m.setReg .rax ((m.reg .rax).extractLsb' 16 48 ++ w)
  | .movSegAx s => m.setSeg s ((m.reg .rax).setWidth 16)
  | .addRsp n => m.setReg .rsp (m.reg .rsp + n)
  | .call => c.routine (m.push c.back)
  | .cli => { m with rflags := m.rflags &&& ~~~interruptFlag }
  | .sti => { m with rflags := m.rflags ||| interruptFlag }
  | .iretq =>
    { m with
      reg := Function.update m.reg .rsp (m.word 3)
      rip := m.word 0
      rflags := m.word 2
      seg := Function.update (Function.update m.seg .cs ((m.word 1).setWidth 16)) .ss ((m.word 4).setWidth 16) }

/-- Straight-line code. -/
def execAll (c : Callee) (is : List Instr) (m : Machine) : Machine := is.foldl (exec c) m

/-- Where the processor starts pushing: the stack pointer of the interrupted program, aligned. The gates have no stack
    of their own and the kernel interrupts itself, so the stack is not switched. -/
def stackTop (m : Machine) : BitVec 64 := m.reg .rsp &&& ~~~15#64

/-- **Delivery** of an interrupt through the gate of a stub, with the error code if the vector has one. -/
def deliver (stub : BitVec 64) (err : Option (BitVec 64)) (m : Machine) : Machine :=
  let pushed := [(m.seg .ss).setWidth 64, m.reg .rsp, m.rflags, (m.seg .cs).setWidth 64, m.rip] ++ err.toList
  { pushed.foldl Machine.push (m.setReg .rsp (stackTop m)) with
    rip := stub
    rflags := m.rflags &&& ~~~gateFlags
    seg := Function.update m.seg .cs kernelCs }

/-! ## The code -/

/-- `PUSHALL`. -/
def pushall : List Instr :=
  [.push .rax, .push .rbx, .push .rcx, .push .rdx, .push .rsp, .push .rbp, .push .rsi, .push .rdi]

/-- `POPALL`. -/
def popall : List Instr :=
  [.pop .rdi, .pop .rsi, .pop .rbp, .pop .rsp, .pop .rdx, .pop .rcx, .pop .rbx, .pop .rax]

/-- `ax` to the four data selectors. -/
def loadSegs : List Instr := [.movSegAx .ds, .movSegAx .es, .movSegAx .fs, .movSegAx .gs]

/-- `_isr_common` up to the call. -/
def isrEnter : List Instr := pushall ++ [.movAxSeg .ds, .push .rax, .movAx 0x10] ++ loadSegs

/-- `_isr_common` after the call. -/
def isrLeave : List Instr := [.pop .rax] ++ loadSegs ++ popall ++ [.addRsp 0x10, .sti, .iretq]

/-- `_isr_common`. -/
def isrCommon : List Instr := isrEnter ++ [.call] ++ isrLeave

/-- `ISR_NOERRCODE` up to the jump. -/
def isrNoerrcode (n : Nat) : List Instr := [.cli, .pushByte 0, .pushByte (BitVec.ofNat 8 n)]

/-- `ISR_ERRCODE` up to the jump. -/
def isrErrcode (n : Nat) : List Instr := [.cli, .pushByte (BitVec.ofNat 8 n)]

/-- The vectors whose stub is made by `ISR_ERRCODE`. -/
def hasErrcode (n : Nat) : Bool := n ∈ [8, 10, 11, 12, 13, 14]

/-- `_isr_0` to `_isr_47` up to the jump. -/
def isrPrefix (n : Nat) : List Instr := if hasErrcode n then isrErrcode n else isrNoerrcode n

/-- `_isr_0` to `_isr_47`, the jump to `_isr_common` included. -/
def isr (n : Nat) : List Instr := isrPrefix n ++ isrCommon

/-- An `isr_stack_frame` is sixteen words, in the order of its fields. -/
def frameOfWords (word : Nat → BitVec 64) : IsrStackFrame :=
  { ds := (word 0).toNat, rdi := (word 1).toNat, rsi := (word 2).toNat, rbp := (word 3).toNat, rsp := (word 4).toNat
    rdx := (word 5).toNat, rcx := (word 6).toNat, rbx := (word 7).toNat, rax := (word 8).toNat
    intNo := (word 9).toNat, errCode := (word 10).toNat
    rip := (word 11).toNat, cs := (word 12).toNat, eflags := (word 13).toNat, useresp := (word 14).toNat
    ss := (word 15).toNat }

/-- The `isr_stack_frame` a routine got by value, above its return address. -/
def argFrame (m : Machine) : IsrStackFrame := frameOfWords fun i => m.word (i + 1)

variable {top w : BitVec 64} {ws us : List (BitVec 64)} {m m' : Machine} {c : Callee} {r : Reg}

/-! ## The words on the stack -/

/-- The stack pointer is below `ws`, the words pushed since `top`. -/
structure Stacked (top : BitVec 64) (ws : List (BitVec 64)) (m : Machine) : Prop where
  pointer : m.reg .rsp = slot top ws.length
  holds : Holds m.mem top ws

theorem push_reg_of_ne (hr : r ≠ .rsp) : (m.push w).reg r = m.reg r := Function.update_of_ne hr _ _

theorem push_reg_rsp : (m.push w).reg .rsp = m.reg .rsp - 8 := by
  show Function.update m.reg .rsp (m.reg .rsp - 8) .rsp = m.reg .rsp - 8
  rw [Function.update_self]

theorem setReg_reg_of_ne {q : Reg} (hq : q ≠ r) : (m.setReg r w).reg q = m.reg q := Function.update_of_ne hq _ _

theorem setReg_reg_self : (m.setReg r w).reg r = w := Function.update_self _ _ _

theorem pop_reg_self : (m.pop r).reg r = m.mem (m.reg .rsp) := setReg_reg_self

theorem pop_reg_of_ne {q : Reg} (hq : q ≠ r) (hsp : q ≠ .rsp) : (m.pop r).reg q = m.reg q := by
  unfold Machine.pop
  rw [setReg_reg_of_ne hq, setReg_reg_of_ne hsp]

theorem Stacked.push (h : Stacked top ws m) (hdeep : ws.length + 1 < 2 ^ 60) (w : BitVec 64) :
    Stacked top (w :: ws) (m.push w) := by
  have hnext : m.reg .rsp - 8 = slot top (ws.length + 1) := by
    rw [h.pointer, slot_sub_eight]
  refine ⟨?_, ?_⟩
  · exact push_reg_rsp.trans hnext
  · show Holds (Function.update m.mem (m.reg .rsp - 8) w) top (w :: ws)
    rw [hnext]
    exact h.holds.push hdeep w

/-- The word at the stack pointer. -/
theorem Stacked.head (h : Stacked top (w :: ws) m) : m.mem (m.reg .rsp) = w := by
  rw [h.pointer]
  exact h.holds.1

theorem Stacked.next (h : Stacked top (w :: ws) m) : m.reg .rsp + 8 = slot top ws.length := by
  rw [h.pointer]
  exact slot_add (j := 1) (Nat.le_add_left 1 ws.length)

theorem Stacked.setReg (h : Stacked top ws m) (hr : r ≠ .rsp) (w : BitVec 64) : Stacked top ws (m.setReg r w) :=
  ⟨(setReg_reg_of_ne (Ne.symm hr)).trans h.pointer, h.holds⟩

theorem Stacked.pop (h : Stacked top (w :: ws) m) (hr : r ≠ .rsp) : Stacked top ws (m.pop r) := by
  have hnext : Stacked top ws (m.setReg .rsp (m.reg .rsp + 8)) := ⟨setReg_reg_self.trans h.next, h.holds.2⟩
  exact hnext.setReg hr _

/-- `pop rsp` moves the pointer to where it was when `push rsp` saved it. -/
theorem Stacked.pop_rsp (h : Stacked top (slot top ws.length :: ws) m) : Stacked top ws (m.pop .rsp) :=
  ⟨pop_reg_self.trans h.head, h.holds.2⟩

/-- The word at a distance from the pointer. -/
theorem Stacked.word (h : Stacked top ws m) {i : Nat} (hi : i < ws.length) : m.word i = ws[i] := by
  unfold Machine.word
  rw [h.pointer]
  exact h.holds.get hi

/-- **A run of words pushed.** -/
theorem Stacked.pushAll (h : Stacked top ws m) (hdeep : us.length + ws.length < 2 ^ 60) :
    Stacked top (us.reverse ++ ws) (us.foldl Machine.push m) ∧
      ∀ r, r ≠ .rsp → (us.foldl Machine.push m).reg r = m.reg r := by
  induction us generalizing m ws with
  | nil => exact ⟨h, fun r _ => rfl⟩
  | cons u us ih =>
      rw [List.length_cons] at hdeep
      obtain ⟨hstacked, hreg⟩ := ih (h.push (by omega) u) (by rw [List.length_cons]; omega)
      rw [List.reverse_cons, List.append_assoc]
      refine ⟨hstacked, ?_⟩
      intro r hr
      exact (hreg r hr).trans (push_reg_of_ne hr)

/-! ## Runs of pushes and pops -/

theorem execAll_append (c : Callee) (is js : List Instr) (m : Machine) :
    execAll c (is ++ js) m = execAll c js (execAll c is m) := List.foldl_append

/-- The words that pushing the registers `rs` puts on top of `ws`: the stack pointer as it is at that moment. -/
def savedOn (top : BitVec 64) (v : Reg → BitVec 64) : List Reg → List (BitVec 64) → List (BitVec 64)
  | [], ws => ws
  | r :: rs, ws => savedOn top v rs ((if r = .rsp then slot top ws.length else v r) :: ws)

/-- **Saving registers.** The induction is on what is left to push. -/
theorem execAll_pushes (c : Callee) (rs : List Reg) {v : Reg → BitVec 64} (h : Stacked top ws m)
    (hv : ∀ r, r ≠ .rsp → m.reg r = v r) (hdeep : rs.length + ws.length < 2 ^ 60) :
    Stacked top (savedOn top v rs ws) (execAll c (rs.map .push) m) ∧
      (∀ r, r ≠ .rsp → (execAll c (rs.map .push) m).reg r = v r) ∧
      (execAll c (rs.map .push) m).seg = m.seg := by
  induction rs generalizing m ws with
  | nil => exact ⟨h, hv, rfl⟩
  | cons r rs ih =>
      rw [List.length_cons] at hdeep
      have hword : m.reg r = if r = .rsp then slot top ws.length else v r := by
        split
        · next hr =>
            rw [hr]
            exact h.pointer
        · next hr => exact hv r hr
      have hpush := h.push (by omega) (m.reg r)
      rw [hword] at hpush
      refine ih (m := m.push (m.reg r)) (by rw [hword]; exact hpush) ?_ (by rw [List.length_cons]; omega)
      intro q hq
      exact (push_reg_of_ne hq).trans (hv q hq)

/-- **Restoring registers** from the words on the stack. -/
theorem execAll_pops (c : Callee) (rs : List Reg) {v : Reg → BitVec 64} (hrsp : Reg.rsp ∉ rs) (hnodup : rs.Nodup)
    (h : Stacked top (rs.map v ++ ws) m) :
    Stacked top ws (execAll c (rs.map .pop) m) ∧ (∀ r ∈ rs, (execAll c (rs.map .pop) m).reg r = v r) ∧
      (∀ r, r ∉ rs → r ≠ .rsp → (execAll c (rs.map .pop) m).reg r = m.reg r) ∧
      (execAll c (rs.map .pop) m).seg = m.seg := by
  induction rs generalizing m with
  | nil => exact ⟨h, fun r hr => absurd hr List.not_mem_nil, fun r _ _ => rfl, rfl⟩
  | cons q rs ih =>
      obtain ⟨hq, hnodup⟩ := List.nodup_cons.mp hnodup
      have hqsp : q ≠ .rsp := by
        rintro rfl
        exact hrsp List.mem_cons_self
      obtain ⟨hstacked, hin, hout, hseg⟩ :=
        ih (m := m.pop q) (fun hmem => hrsp (List.mem_cons_of_mem q hmem)) hnodup (h.pop hqsp)
      refine ⟨hstacked, ?_, ?_, hseg⟩
      · intro r hr
        rcases List.mem_cons.mp hr with rfl | hr
        · exact (hout r hq hqsp).trans (pop_reg_self.trans h.head)
        · exact hin r hr
      · intro r hr hsp
        obtain ⟨hne, hr⟩ := not_or.mp (mt List.mem_cons.mpr hr)
        exact (hout r hr hsp).trans (pop_reg_of_ne hne hsp)

/-! ## The selector word -/

/-- What is pushed for `ds`: `mov ax, ds` leaves the upper 48 bits of `rax`. -/
def dsWord (rax : BitVec 64) (ds : BitVec 16) : BitVec 64 := rax.extractLsb' 16 48 ++ ds

theorem dsWord_setWidth (rax : BitVec 64) (ds : BitVec 16) : (dsWord rax ds).setWidth 16 = ds := by
  unfold dsWord
  exact BitVec.setWidth_append_eq_right

theorem dsWord_toNat (rax : BitVec 64) (ds : BitVec 16) :
    (dsWord rax ds).toNat = rax.toNat / 2 ^ 16 * 2 ^ 16 + ds.toNat := by
  have hrax : rax.toNat / 2 ^ 16 % 2 ^ 48 = rax.toNat / 2 ^ 16 := Nat.mod_eq_of_lt (by omega)
  unfold dsWord
  rw [BitVec.toNat_append, BitVec.extractLsb'_toNat, Nat.shiftRight_eq_div_pow, hrax,
    ← Nat.shiftLeft_add_eq_or_of_lt ds.isLt, Nat.shiftLeft_eq]

/-- The word is the selector only for a small `rax`. -/
theorem dsWord_eq_iff (rax : BitVec 64) (ds : BitVec 16) : (dsWord rax ds).toNat = ds.toNat ↔ rax.toNat < 2 ^ 16 := by
  rw [dsWord_toNat]
  omega

/-! ## The two halves of `_isr_common` -/

/-- The word `push rsp` of `PUSHALL` pushes, on top of `ws`. -/
def pushedRsp (top : BitVec 64) (ws : List (BitVec 64)) : BitVec 64 := slot top (ws.length + 4)

/-- The words `_isr_common` pushes on top of `ws`. -/
def savedWords (top : BitVec 64) (d : BitVec 64) (v : Reg → BitVec 64) (ws : List (BitVec 64)) : List (BitVec 64) :=
  d :: ([Reg.rdi, .rsi, .rbp].map v ++ (pushedRsp top ws :: ([Reg.rdx, .rcx, .rbx, .rax].map v ++ ws)))

theorem execAll_pushall (c : Callee) (h : Stacked top ws m) (hdeep : ws.length + 9 < 2 ^ 60) :
    Stacked top ([Reg.rdi, .rsi, .rbp].map m.reg ++ (pushedRsp top ws :: ([Reg.rdx, .rcx, .rbx, .rax].map m.reg ++ ws)))
        (execAll c pushall m) ∧
      (∀ r, r ≠ .rsp → (execAll c pushall m).reg r = m.reg r) ∧ (execAll c pushall m).seg = m.seg :=
  execAll_pushes c [.rax, .rbx, .rcx, .rdx, .rsp, .rbp, .rsi, .rdi] h (fun r _ => rfl)
    (show 8 + ws.length < 2 ^ 60 by omega)

/-- The selectors are loaded through `ax`. -/
theorem execAll_loadSegs (c : Callee) (m : Machine) :
    (execAll c loadSegs m).reg = m.reg ∧ (execAll c loadSegs m).mem = m.mem ∧ (execAll c loadSegs m).rip = m.rip ∧
      ∀ s, (execAll c loadSegs m).seg s = if s = .cs ∨ s = .ss then m.seg s else (m.reg .rax).setWidth 16 := by
  refine ⟨rfl, rfl, rfl, ?_⟩
  intro s
  cases s <;> rfl

/-- `ds` is saved and the kernel's selectors are loaded. -/
theorem execAll_saveDs (c : Callee) (h : Stacked top ws m) (hdeep : ws.length + 1 < 2 ^ 60) :
    Stacked top (dsWord (m.reg .rax) (m.seg .ds) :: ws)
        (execAll c ([.movAxSeg .ds, .push .rax, .movAx 0x10] ++ loadSegs) m) ∧
      ∀ r, r ≠ .rsp → r ≠ .rax →
        (execAll c ([.movAxSeg .ds, .push .rax, .movAx 0x10] ++ loadSegs) m).reg r = m.reg r := by
  let m1 := m.setReg .rax (dsWord (m.reg .rax) (m.seg .ds))
  have hpushed : Stacked top (dsWord (m.reg .rax) (m.seg .ds) :: ws) (m1.push (m1.reg .rax)) := by
    have hword : m1.reg .rax = dsWord (m.reg .rax) (m.seg .ds) := setReg_reg_self
    rw [hword]
    exact (h.setReg (by decide) _).push hdeep _
  rw [execAll_append]
  obtain ⟨hreg, hmem, -, -⟩ := execAll_loadSegs c (execAll c [.movAxSeg .ds, .push .rax, .movAx 0x10] m)
  have hloaded : Stacked top (dsWord (m.reg .rax) (m.seg .ds) :: ws)
      (execAll c [.movAxSeg .ds, .push .rax, .movAx 0x10] m) := hpushed.setReg (by decide) _
  refine ⟨⟨?_, ?_⟩, ?_⟩
  · rw [hreg]
    exact hloaded.pointer
  · rw [hmem]
    exact hloaded.holds
  · intro r hsp hrax
    rw [hreg]
    refine (setReg_reg_of_ne hrax).trans ?_
    refine (push_reg_of_ne hsp).trans ?_
    exact setReg_reg_of_ne hrax

/-- **Up to the call.** -/
theorem execAll_isrEnter (c : Callee) (h : Stacked top ws m) (hdeep : ws.length + 9 < 2 ^ 60) :
    Stacked top (savedWords top (dsWord (m.reg .rax) (m.seg .ds)) m.reg ws) (execAll c isrEnter m) ∧
      ∀ r, r ≠ .rsp → r ≠ .rax → (execAll c isrEnter m).reg r = m.reg r := by
  obtain ⟨hpushed, hreg, hseg⟩ := execAll_pushall c h hdeep
  unfold isrEnter
  rw [List.append_assoc, execAll_append]
  obtain ⟨hsaved, hkept⟩ := execAll_saveDs c hpushed (by
    show ws.length + 8 + 1 < 2 ^ 60
    exact hdeep)
  rw [hreg .rax (by decide), hseg] at hsaved
  refine ⟨hsaved, ?_⟩
  intro r hsp hrax
  exact (hkept r hsp hrax).trans (hreg r hsp)

/-- The registers `PUSHALL` saves and `POPALL` restores, the stack pointer apart. -/
def savedRegs : List Reg := [.rdi, .rsi, .rbp, .rdx, .rcx, .rbx, .rax]

theorem execAll_popall (c : Callee) {v : Reg → BitVec 64}
    (h : Stacked top ([Reg.rdi, .rsi, .rbp].map v ++ (pushedRsp top ws :: ([Reg.rdx, .rcx, .rbx, .rax].map v ++ ws))) m) :
    Stacked top ws (execAll c popall m) ∧ (∀ r ∈ savedRegs, (execAll c popall m).reg r = v r) ∧
      (∀ r, r ∉ savedRegs → r ≠ .rsp → (execAll c popall m).reg r = m.reg r) ∧
      (execAll c popall m).seg = m.seg := by
  have hcode : popall = [Reg.rdi, .rsi, .rbp].map .pop ++ ([.pop .rsp] ++ [Reg.rdx, .rcx, .rbx, .rax].map .pop) := rfl
  rw [hcode, execAll_append, execAll_append]
  obtain ⟨h1, hin1, hout1, hseg1⟩ := execAll_pops c [.rdi, .rsi, .rbp] (by decide) (by decide) h
  generalize execAll c ([Reg.rdi, .rsi, .rbp].map .pop) m = m1 at h1 hin1 hout1 hseg1 ⊢
  -- `pop rsp` finds the address of the word after it
  have h2 : Stacked top ([Reg.rdx, .rcx, .rbx, .rax].map v ++ ws) (m1.pop .rsp) := Stacked.pop_rsp h1
  have hreg2 : ∀ r, r ≠ .rsp → (m1.pop .rsp).reg r = m1.reg r := by
    intro r hr
    exact pop_reg_of_ne hr hr
  obtain ⟨h3, hin3, hout3, hseg3⟩ := execAll_pops c [.rdx, .rcx, .rbx, .rax] (by decide) (by decide) h2
  refine ⟨h3, ?_, ?_, hseg3.trans hseg1⟩
  · intro r hr
    rcases List.mem_append.mp (show r ∈ [Reg.rdi, .rsi, .rbp] ++ [.rdx, .rcx, .rbx, .rax] from hr) with hr | hr
    · have houtside : ∀ r ∈ [Reg.rdi, .rsi, .rbp], r ≠ .rsp ∧ r ∉ [Reg.rdx, .rcx, .rbx, .rax] := by decide
      obtain ⟨hsp, hlater⟩ := houtside r hr
      exact (hout3 r hlater hsp).trans ((hreg2 r hsp).trans (hin1 r hr))
    · exact hin3 r hr
  · intro r hr hsp
    obtain ⟨hr1, hr3⟩ := not_or.mp (mt List.mem_append.mpr
      (show r ∉ [Reg.rdi, .rsi, .rbp] ++ [.rdx, .rcx, .rbx, .rax] from hr))
    exact (hout3 r hr3 hsp).trans ((hreg2 r hsp).trans (hout1 r hr1 hsp))

/-- The error code and the vector are dropped. -/
theorem execAll_drop (c : Callee) {n err : BitVec 64} (h : Stacked top (n :: err :: ws) m) :
    Stacked top ws (execAll c [.addRsp 0x10, .sti] m) ∧
      (∀ r, r ≠ .rsp → (execAll c [.addRsp 0x10, .sti] m).reg r = m.reg r) ∧
      (execAll c [.addRsp 0x10, .sti] m).seg = m.seg := by
  refine ⟨⟨?_, h.holds.2.2⟩, ?_, rfl⟩
  · show Function.update m.reg .rsp (m.reg .rsp + 0x10) .rsp = slot top ws.length
    rw [Function.update_self, h.pointer]
    exact slot_add (j := 2) (Nat.le_add_left 2 ws.length)
  · intro r hr
    exact setReg_reg_of_ne hr

/-- What `iretq` takes from the stack. -/
theorem exec_iretq (c : Callee) {rip cs flags sp ss : BitVec 64} (h : Stacked top (rip :: cs :: flags :: sp :: ss :: ws) m) :
    (exec c m .iretq).reg .rsp = sp ∧ (∀ r, r ≠ .rsp → (exec c m .iretq).reg r = m.reg r) ∧
      (exec c m .iretq).rip = rip ∧ (exec c m .iretq).rflags = flags ∧
      ∀ s, (exec c m .iretq).seg s =
        if s = .cs then cs.setWidth 16 else if s = .ss then ss.setWidth 16 else m.seg s := by
  have h0 : m.word 0 = rip := h.word (i := 0) (Nat.succ_pos _)
  have h1 : m.word 1 = cs := h.word (i := 1) (by simp)
  have h2 : m.word 2 = flags := h.word (i := 2) (by simp)
  have h3 : m.word 3 = sp := h.word (i := 3) (by simp)
  have h4 : m.word 4 = ss := h.word (i := 4) (by simp)
  refine ⟨?_, ?_, h0, h2, ?_⟩
  · show Function.update m.reg .rsp (m.word 3) .rsp = sp
    rw [Function.update_self, h3]
  · intro r hr
    exact Function.update_of_ne hr _ _
  · intro s
    show Function.update (Function.update m.seg .cs ((m.word 1).setWidth 16)) .ss ((m.word 4).setWidth 16) s = _
    rw [h1, h4]
    cases s <;> rfl

/-- **From the handler's return to `iretq`.** -/
theorem execAll_isrLeave (c : Callee) {v : Reg → BitVec 64} {d n err rip cs flags sp ss : BitVec 64}
    (h : Stacked top (savedWords top d v (n :: err :: rip :: cs :: flags :: sp :: ss :: ws)) m) :
    (execAll c isrLeave m).reg .rsp = sp ∧ (∀ r ∈ savedRegs, (execAll c isrLeave m).reg r = v r) ∧
      (∀ r, r ∉ savedRegs → r ≠ .rsp → (execAll c isrLeave m).reg r = m.reg r) ∧
      (execAll c isrLeave m).rip = rip ∧ (execAll c isrLeave m).rflags = flags ∧
      ∀ s, (execAll c isrLeave m).seg s =
        if s = .cs then cs.setWidth 16 else if s = .ss then ss.setWidth 16 else d.setWidth 16 := by
  unfold isrLeave
  rw [List.append_assoc, List.append_assoc, execAll_append, execAll_append, execAll_append]
  have hds : (execAll c [.pop .rax] m).reg .rax = d := pop_reg_self.trans h.head
  have hreg1 : ∀ r, r ≠ .rax → r ≠ .rsp → (execAll c [.pop .rax] m).reg r = m.reg r := by
    intro r hrax hsp
    exact pop_reg_of_ne hrax hsp
  -- `ds` comes back through `rax`, whose own word is the last that `POPALL` takes
  have h1 := h.pop (r := .rax) (by decide)
  obtain ⟨hreg2, hmem2, -, hseg2⟩ := execAll_loadSegs c (execAll c [.pop .rax] m)
  generalize execAll c loadSegs (execAll c [.pop .rax] m) = m2 at hreg2 hmem2 hseg2 ⊢
  have h2 : Stacked top ([Reg.rdi, .rsi, .rbp].map v ++ (pushedRsp top (n :: err :: rip :: cs :: flags :: sp :: ss :: ws) ::
      ([Reg.rdx, .rcx, .rbx, .rax].map v ++ (n :: err :: rip :: cs :: flags :: sp :: ss :: ws)))) m2 := by
    refine ⟨?_, ?_⟩
    · rw [hreg2]
      exact h1.pointer
    · rw [hmem2]
      exact h1.holds
  obtain ⟨h3, hin3, hout3, hseg3⟩ := execAll_popall c h2
  generalize execAll c popall m2 = m3 at h3 hin3 hout3 hseg3 ⊢
  obtain ⟨h4, hreg4, hseg4⟩ := execAll_drop c h3
  have hcode : ∀ m, execAll c [.addRsp 0x10, .sti, .iretq] m = exec c (execAll c [.addRsp 0x10, .sti] m) .iretq := by
    intro m
    rfl
  rw [hcode]
  generalize execAll c [.addRsp 0x10, .sti] m3 = m4 at h4 hreg4 hseg4 ⊢
  obtain ⟨hsp, hreg5, hrip, hflags, hseg5⟩ := exec_iretq c h4
  have hout : ∀ r ∈ savedRegs, r ≠ .rsp := by decide
  refine ⟨hsp, ?_, ?_, hrip, hflags, ?_⟩
  · intro r hr
    refine (hreg5 r (hout r hr)).trans ?_
    rw [hreg4 r (hout r hr)]
    exact hin3 r hr
  · intro r hr hne
    have hrax : r ≠ .rax := by
      rintro rfl
      exact hr (by decide)
    refine (hreg5 r hne).trans ?_
    rw [hreg4 r hne, hout3 r hr hne, hreg2]
    exact hreg1 r hrax hne
  · intro s
    refine (hseg5 s).trans ?_
    rw [hseg4, hseg3, hseg2, hds]
    cases s <;> rfl

/-! ## From delivery to the handler -/

/-- The words the processor pushes for every interrupt. -/
def cpuWords (m : Machine) : List (BitVec 64) :=
  [m.rip, (m.seg .cs).setWidth 64, m.rflags, m.reg .rsp, (m.seg .ss).setWidth 64]

/-- The words the stub of a vector pushes. -/
def stubWords (n : Nat) : List (BitVec 64) :=
  if hasErrcode n then [BitVec.ofNat 64 n] else [BitVec.ofNat 64 n, 0]

theorem deliver_stacked (stub : BitVec 64) (err : Option (BitVec 64)) (m : Machine) :
    Stacked (stackTop m) (err.toList ++ cpuWords m) (deliver stub err m) ∧
      (∀ r, r ≠ .rsp → (deliver stub err m).reg r = m.reg r) ∧ (deliver stub err m).seg .ds = m.seg .ds := by
  have hstart : Stacked (stackTop m) [] (m.setReg .rsp (stackTop m)) := by
    refine ⟨?_, trivial⟩
    rw [setReg_reg_self]
    exact (BitVec.sub_zero _).symm
  have herr : err.toList.length ≤ 1 := Option.length_toList_le
  have hdeep : ([(m.seg .ss).setWidth 64, m.reg .rsp, m.rflags, (m.seg .cs).setWidth 64, m.rip] ++
      err.toList).length + ([] : List (BitVec 64)).length < 2 ^ 60 := by
    simp only [List.length_append, List.length_cons, List.length_nil]
    omega
  obtain ⟨hstacked, hreg⟩ := hstart.pushAll hdeep
  have hwords : ([(m.seg .ss).setWidth 64, m.reg .rsp, m.rflags, (m.seg .cs).setWidth 64, m.rip] ++
      err.toList).reverse ++ [] = err.toList ++ cpuWords m := by
    cases err <;> rfl
  rw [hwords] at hstacked
  unfold deliver
  refine ⟨⟨hstacked.pointer, hstacked.holds⟩, ?_, rfl⟩
  intro r hr
  exact (hreg r hr).trans (setReg_reg_of_ne hr)

theorem execAll_isrPrefix (c : Callee) {n : Nat} (hn : n < 48) (h : Stacked top ws m) (hdeep : ws.length + 2 < 2 ^ 60) :
    Stacked top (stubWords n ++ ws) (execAll c (isrPrefix n) m) ∧
      (∀ r, r ≠ .rsp → (execAll c (isrPrefix n) m).reg r = m.reg r) ∧
      (execAll c (isrPrefix n) m).seg = m.seg := by
  have hvector : (BitVec.ofNat 8 n).signExtend 64 = BitVec.ofNat 64 n := by
    revert n
    decide
  have hcli : Stacked top ws (exec c m .cli) := ⟨h.pointer, h.holds⟩
  unfold isrPrefix stubWords
  by_cases hcode : hasErrcode n = true
  · rw [if_pos hcode, if_pos hcode, ← hvector]
    refine ⟨hcli.push (by omega) _, ?_, rfl⟩
    intro r hr
    exact push_reg_of_ne hr
  · rw [if_neg hcode, if_neg hcode, ← hvector]
    refine ⟨(hcli.push (by omega) _).push hdeep _, ?_, rfl⟩
    intro r hr
    exact (push_reg_of_ne hr).trans (push_reg_of_ne hr)

/-- The machine when `root_isr_handler` starts. -/
def handlerEntry (c : Callee) (stub : BitVec 64) (n : Nat) (err : Option (BitVec 64)) (m : Machine) : Machine :=
  (execAll c (isrPrefix n ++ isrEnter) (deliver stub err m)).push c.back

/-- The machine after the stub's `iretq`. -/
def afterIretq (c : Callee) (stub : BitVec 64) (n : Nat) (err : Option (BitVec 64)) (m : Machine) : Machine :=
  execAll c (isr n) (deliver stub err m)

theorem afterIretq_eq (c : Callee) (stub : BitVec 64) (n : Nat) (err : Option (BitVec 64)) (m : Machine) :
    afterIretq c stub n err m = execAll c isrLeave (c.routine (handlerEntry c stub n err m)) := by
  unfold afterIretq handlerEntry isr isrCommon
  rw [← List.append_assoc, ← List.append_assoc, execAll_append, execAll_append]
  rfl

/-- The words on the stack when the handler starts, its return address apart. -/
def entryWords (n : Nat) (err : Option (BitVec 64)) (m : Machine) : List (BitVec 64) :=
  savedWords (stackTop m) (dsWord (m.reg .rax) (m.seg .ds)) m.reg (stubWords n ++ (err.toList ++ cpuWords m))

/-- **What the handler finds.** -/
theorem handlerEntry_stacked (c : Callee) (stub : BitVec 64) {n : Nat} (hn : n < 48) (err : Option (BitVec 64))
    (m : Machine) :
    Stacked (stackTop m) (c.back :: entryWords n err m) (handlerEntry c stub n err m) ∧
      ∀ r, r ≠ .rsp → r ≠ .rax → (handlerEntry c stub n err m).reg r = m.reg r := by
  obtain ⟨h0, hreg0, hds⟩ := deliver_stacked stub err m
  have herr : err.toList.length ≤ 1 := Option.length_toList_le
  have hstub : (stubWords n).length ≤ 2 := by
    unfold stubWords
    split <;> simp
  have hlength : (err.toList ++ cpuWords m).length = err.toList.length + 5 := List.length_append
  obtain ⟨h1, hreg1, hseg1⟩ := execAll_isrPrefix c hn h0 (by omega)
  obtain ⟨h2, hreg2⟩ := execAll_isrEnter c h1 (by rw [List.length_append]; omega)
  have hwords : savedWords (stackTop m) (dsWord ((execAll c (isrPrefix n) (deliver stub err m)).reg .rax)
      ((execAll c (isrPrefix n) (deliver stub err m)).seg .ds)) (execAll c (isrPrefix n) (deliver stub err m)).reg
      (stubWords n ++ (err.toList ++ cpuWords m)) = entryWords n err m := by
    have hreg : ∀ r, r ≠ .rsp → (execAll c (isrPrefix n) (deliver stub err m)).reg r = m.reg r := by
      intro r hr
      exact (hreg1 r hr).trans (hreg0 r hr)
    unfold entryWords savedWords
    simp [hreg, hseg1, hds]
  rw [hwords, ← execAll_append] at h2
  have hdepth : (entryWords n err m).length ≤ 17 := by
    show (stubWords n ++ (err.toList ++ cpuWords m)).length + 9 ≤ 17
    rw [List.length_append]
    omega
  refine ⟨h2.push (by omega) c.back, ?_⟩
  intro r hsp hrax
  refine (push_reg_of_ne hsp).trans ?_
  rw [execAll_append, hreg2 r hsp hrax, hreg1 r hsp]
  exact hreg0 r hsp

/-! ## The frame -/

/-- The frame the names of its fields ask for. `rsp` is the stack pointer of the stub when `PUSHALL` comes to it, that
    of the interrupted program is `useresp`; without an error code `err_code` is 0. -/
def namedFrame (n : Nat) (err : Option (BitVec 64)) (m : Machine) : IsrStackFrame :=
  { ds := (m.seg .ds).toNat
    rdi := (m.reg .rdi).toNat
    rsi := (m.reg .rsi).toNat
    rbp := (m.reg .rbp).toNat
    rsp := (pushedRsp (stackTop m) (stubWords n ++ (err.toList ++ cpuWords m))).toNat
    rdx := (m.reg .rdx).toNat
    rcx := (m.reg .rcx).toNat
    rbx := (m.reg .rbx).toNat
    rax := (m.reg .rax).toNat
    intNo := n
    errCode := (err.getD 0).toNat
    rip := m.rip.toNat
    cs := (m.seg .cs).toNat
    eflags := m.rflags.toNat
    useresp := (m.reg .rsp).toNat
    ss := (m.seg .ss).toNat }

/-- The macro of the stub fits what the processor pushed. -/
def Fits (n : Nat) (err : Option (BitVec 64)) : Prop := hasErrcode n = err.isSome

instance (n : Nat) (err : Option (BitVec 64)) : Decidable (Fits n err) := inferInstanceAs (Decidable (_ = _))

theorem frameOfWords_congr {f g : Nat → BitVec 64} (h : ∀ i < 16, f i = g i) : frameOfWords f = frameOfWords g := by
  unfold frameOfWords
  rw [h 0 (by decide), h 1 (by decide), h 2 (by decide), h 3 (by decide), h 4 (by decide), h 5 (by decide),
    h 6 (by decide), h 7 (by decide), h 8 (by decide), h 9 (by decide), h 10 (by decide), h 11 (by decide),
    h 12 (by decide), h 13 (by decide), h 14 (by decide), h 15 (by decide)]

/-- The words above the return address. -/
theorem Stacked.arg (h : Stacked top (w :: ws) m) {i : Nat} (hi : i < ws.length) : m.word (i + 1) = ws.getD i 0 := by
  rw [List.getD_eq_getElem ws 0 hi]
  exact h.word (Nat.succ_lt_succ hi)

theorem Fits.words {n : Nat} {err : Option (BitVec 64)} (h : Fits n err) :
    stubWords n ++ err.toList = [BitVec.ofNat 64 n, err.getD 0] := by
  have h : hasErrcode n = err.isSome := h
  unfold stubWords
  rw [h]
  cases err <;> rfl

theorem setWidth_toNat (x : BitVec 16) : (x.setWidth 64).toNat = x.toNat := by
  rw [BitVec.toNat_setWidth]
  exact Nat.mod_eq_of_lt (by omega)

/-- **The frame of a stub that fits**: only `ds` carries more than its name says. -/
theorem argFrame_of_fits (c : Callee) (stub : BitVec 64) {n : Nat} (hn : n < 48) {err : Option (BitVec 64)} (m : Machine)
    (hfits : Fits n err) :
    argFrame (handlerEntry c stub n err m) =
      { namedFrame n err m with ds := (dsWord (m.reg .rax) (m.seg .ds)).toNat } := by
  obtain ⟨hstacked, -⟩ := handlerEntry_stacked c stub hn err m
  have hcode : stubWords n ++ (err.toList ++ cpuWords m) = BitVec.ofNat 64 n :: err.getD 0 :: cpuWords m := by
    rw [← List.append_assoc, hfits.words]
    rfl
  have hwords : argFrame (handlerEntry c stub n err m) = frameOfWords fun i => (entryWords n err m).getD i 0 := by
    refine frameOfWords_congr ?_
    intro i hi
    refine hstacked.arg ?_
    show i < (stubWords n ++ (err.toList ++ cpuWords m)).length + 9
    rw [hcode]
    exact hi
  have hvector : (BitVec.ofNat 64 n).toNat = n := by
    rw [BitVec.toNat_ofNat]
    exact Nat.mod_eq_of_lt (by omega)
  rw [hwords]
  unfold entryWords namedFrame
  rw [hcode]
  unfold frameOfWords savedWords cpuWords
  simp [hvector, setWidth_toNat, -BitVec.toNat_setWidth]

/-- A frame that is named right belongs to a stub that fits: with a word too many or too few the fields from `err_code`
    on are all one off, and 0 goes down them to the flags. -/
theorem fits_of_argFrame {c : Callee} {stub : BitVec 64} {n : Nat} (hn : n < 48) {err : Option (BitVec 64)}
    (hflags : m.rflags.getLsbD 1 = true) (h : argFrame (handlerEntry c stub n err m) = namedFrame n err m) :
    Fits n err := by
  obtain ⟨hstacked, -⟩ := handlerEntry_stacked c stub hn err m
  have hlength : (entryWords n err m).length = (stubWords n).length + err.toList.length + 14 := by
    show (stubWords n ++ (err.toList ++ cpuWords m)).length + 9 = _
    rw [List.length_append, List.length_append]
    rfl
  have hstub : 1 ≤ (stubWords n).length := by
    unfold stubWords
    split <;> simp
  generalize handlerEntry c stub n err m = e at h hstacked
  have hword : ∀ i < 15, e.word (i + 1) = (entryWords n err m).getD i 0 := by
    intro i hi
    exact hstacked.arg (by omega)
  -- the four fields from `err_code` to `eflags`, and what the words there are
  have herr : (e.word 11).toNat = (err.getD 0).toNat := congrArg IsrStackFrame.errCode h
  have hrip : (e.word 12).toNat = m.rip.toNat := congrArg IsrStackFrame.rip h
  have hcs : (e.word 13).toNat = (m.seg .cs).toNat := congrArg IsrStackFrame.cs h
  have heflags : (e.word 14).toNat = m.rflags.toNat := congrArg IsrStackFrame.eflags h
  rw [hword 10 (by decide)] at herr
  rw [hword 11 (by decide)] at hrip
  rw [hword 12 (by decide)] at hcs
  rw [hword 13 (by decide)] at heflags
  have hne : m.rflags.toNat ≠ 0 := by
    intro hzero
    rw [BitVec.eq_of_toNat_eq (y := 0) hzero] at hflags
    exact absurd hflags (by decide)
  unfold Fits
  by_cases hcode : hasErrcode n = true
  · cases err with
    | some e => exact hcode
    | none =>
        -- `rip` is where the error code is looked for, and is 0
        have hwords : entryWords n none m =
            savedWords (stackTop m) (dsWord (m.reg .rax) (m.seg .ds)) m.reg (BitVec.ofNat 64 n :: cpuWords m) := by
          unfold entryWords stubWords
          rw [if_pos hcode]
          rfl
        rw [hwords] at herr hrip hcs
        have herr : m.rip.toNat = 0 := herr
        have hrip : ((m.seg .cs).setWidth 64).toNat = m.rip.toNat := hrip
        have hcs : m.rflags.toNat = (m.seg .cs).toNat := hcs
        rw [setWidth_toNat] at hrip
        exact absurd (hcs.trans (hrip.trans herr)) hne
  · cases err with
    | none => exact Bool.eq_false_of_not_eq_true hcode
    | some e =>
        -- the stub's 0 is taken for the error code, and the error code for `rip`
        have hwords : entryWords n (some e) m = savedWords (stackTop m) (dsWord (m.reg .rax) (m.seg .ds)) m.reg
            (BitVec.ofNat 64 n :: 0 :: e :: cpuWords m) := by
          unfold entryWords stubWords
          rw [if_neg hcode]
          rfl
        rw [hwords] at herr hrip hcs heflags
        have herr : 0 = e.toNat := herr
        have hrip : e.toNat = m.rip.toNat := hrip
        have hcs : m.rip.toNat = (m.seg .cs).toNat := hcs
        have heflags : ((m.seg .cs).setWidth 64).toNat = m.rflags.toNat := heflags
        rw [setWidth_toNat] at heflags
        exact absurd (herr.trans (hrip.trans (hcs.trans heflags))).symm hne

/-! ## The calling convention -/

/-- The return address lies below an aligned address. -/
def CallAligned (m : Machine) : Prop := (m.reg .rsp).toNat % 16 = 8

/-- **What the calling convention promises** of a routine that gets an `isr_stack_frame` by value: it keeps the
    registers that belong to its caller, returns, and this one does not write the frame. -/
structure ObeysAbi (f : Machine → Machine) : Prop where
  saved : ∀ m, CallAligned m → ∀ r ∈ [Reg.rbx, .rbp, .r12, .r13, .r14, .r15], (f m).reg r = m.reg r
  returned : ∀ m, CallAligned m → (f m).reg .rsp = m.reg .rsp + 8
  frame : ∀ m, CallAligned m → ∀ i < 16, (f m).mem (m.reg .rsp + BitVec.ofNat 64 (8 * (i + 1))) = m.word (i + 1)

theorem stackTop_mod (m : Machine) : (stackTop m).toNat % 16 = 0 := by
  have hand : (stackTop m).toNat % 2 ^ 4 = (stackTop m).toNat &&& (2 ^ 4 - 1) := (Nat.and_two_pow_sub_one_eq_mod _ 4).symm
  refine hand.trans ?_
  unfold stackTop
  rw [BitVec.toNat_and, Nat.and_assoc]
  exact Nat.and_zero _

/-- The stub calls with an aligned stack. -/
theorem callAligned_of_stacked {ws : List (BitVec 64)} (h : Stacked (stackTop m) (w :: ws) m') (hlength : ws.length = 16) :
    CallAligned m' := by
  have htop := stackTop_mod m
  unfold CallAligned
  rw [h.pointer, List.length_cons, hlength]
  unfold slot
  bv_omega

/-- **What the stub takes back** from a handler that keeps to the convention. -/
theorem ObeysAbi.stacked {f : Machine → Machine} (h : ObeysAbi f) (hentry : Stacked top (w :: ws) m)
    (halign : CallAligned m) (hlength : ws.length = 16) : Stacked top ws (f m) := by
  refine ⟨?_, ?_⟩
  · rw [h.returned m halign]
    exact hentry.next
  · refine hentry.holds.2.congr ?_
    intro i hi
    -- the frame lies above the return address, the slots count from the other end
    have hslot : slot top (i + 1) = m.reg .rsp + BitVec.ofNat 64 (8 * (15 - i + 1)) := by
      rw [hentry.pointer, List.length_cons, hlength, slot_add (by omega)]
      congr 1
      omega
    rw [hslot]
    exact h.frame m halign (15 - i) (by omega)

/-! ## The interrupted program -/

/-- The registers a handler may change and the stub does not save. -/
def unsavedRegs : List Reg := [.r8, .r9, .r10, .r11]

/-- The interrupted program finds its registers as they were, and the handler got the frame that is named. -/
def Preserved (c : Callee) (stub : BitVec 64) (n : Nat) (err : Option (BitVec 64)) (m : Machine) : Prop :=
  (∀ r, (afterIretq c stub n err m).reg r = m.reg r) ∧ argFrame (handlerEntry c stub n err m) = namedFrame n err m

/-- Every register is saved by the stub, by the processor, by the handler or by nobody. -/
theorem reg_saved (r : Reg) :
    r ∈ savedRegs ∨ r = .rsp ∨ r ∈ [Reg.rbx, .rbp, .r12, .r13, .r14, .r15] ∨ r ∈ unsavedRegs := by
  cases r <;> decide

/-- The handler leaves the registers nobody saved as it found them. -/
def KeepsUnsaved (c : Callee) (stub : BitVec 64) (n : Nat) (err : Option (BitVec 64)) (m : Machine) : Prop :=
  ∀ r ∈ unsavedRegs,
    (c.routine (handlerEntry c stub n err m)).reg r = (handlerEntry c stub n err m).reg r

/-- **A stub that fits** gives everything back but the registers it did not save. -/
theorem afterIretq_of_fits {c : Callee} (habi : ObeysAbi c.routine) (stub : BitVec 64) {n : Nat} (hn : n < 48)
    {err : Option (BitVec 64)} (m : Machine) (hfits : Fits n err) :
    (∀ r, r ∉ unsavedRegs → (afterIretq c stub n err m).reg r = m.reg r) ∧
      (∀ r ∈ unsavedRegs,
        (afterIretq c stub n err m).reg r = (c.routine (handlerEntry c stub n err m)).reg r) ∧
      (afterIretq c stub n err m).rip = m.rip ∧ (afterIretq c stub n err m).rflags = m.rflags ∧
      ∀ s, (afterIretq c stub n err m).seg s = if s = .cs ∨ s = .ss then m.seg s else m.seg .ds := by
  obtain ⟨hentry, hreg⟩ := handlerEntry_stacked c stub hn err m
  have hcode : stubWords n ++ (err.toList ++ cpuWords m) = BitVec.ofNat 64 n :: err.getD 0 :: cpuWords m := by
    rw [← List.append_assoc, hfits.words]
    rfl
  have hlength : (entryWords n err m).length = 16 := by
    show (stubWords n ++ (err.toList ++ cpuWords m)).length + 9 = 16
    rw [hcode]
    rfl
  have halign := callAligned_of_stacked hentry hlength
  have hback := habi.stacked hentry halign hlength
  unfold entryWords at hback
  rw [hcode] at hback
  obtain ⟨hsp, hsaved, hother, hrip, hflags, hseg⟩ := execAll_isrLeave c hback
  rw [← afterIretq_eq] at hsp hsaved hother hrip hflags hseg
  refine ⟨?_, ?_, hrip, hflags, ?_⟩
  · intro r hr
    by_cases hin : r ∈ savedRegs
    · exact hsaved r hin
    · rcases reg_saved r with hin' | rfl | hcallee | hunsaved
      · exact absurd hin' hin
      · exact hsp
      · have houtside : ∀ r ∈ [Reg.rbx, .rbp, .r12, .r13, .r14, .r15], r ≠ .rsp ∧ r ≠ .rax := by decide
        obtain ⟨hrsp, hrax⟩ := houtside r hcallee
        rw [hother r hin hrsp, habi.saved _ halign r hcallee]
        exact hreg r hrsp hrax
      · exact absurd hunsaved hr
  · have houtside : ∀ r ∈ unsavedRegs, r ∉ savedRegs ∧ r ≠ .rsp := by decide
    intro r hr
    exact hother r (houtside r hr).1 (houtside r hr).2
  · intro s
    rw [hseg s, dsWord_setWidth]
    cases s <;> simp

/-- **The stub preserves the interrupted context exactly when** the handler leaves the registers `PUSHALL` forgets as
    it found them, the stub's macro fits what the processor pushed, and the upper 48 bits of `rax`, which are pushed
    with `ds`, are 0. For a stub that fits the other registers, the place to go on at, the flags and the selectors are
    always restored, and all of the frame but those bits is as named. -/
theorem isr_preserves_iff {c : Callee} (habi : ObeysAbi c.routine) (stub : BitVec 64) {n : Nat} (hn : n < 48)
    (err : Option (BitVec 64)) {m : Machine} (hflags : m.rflags.getLsbD 1 = true) :
    (Preserved c stub n err m ↔ KeepsUnsaved c stub n err m ∧ Fits n err ∧ (m.reg .rax).toNat < 2 ^ 16) ∧
      (Fits n err →
        (∀ r, r ∉ unsavedRegs → (afterIretq c stub n err m).reg r = m.reg r) ∧
        (afterIretq c stub n err m).rip = m.rip ∧ (afterIretq c stub n err m).rflags = m.rflags ∧
        (∀ s, (afterIretq c stub n err m).seg s = if s = .cs ∨ s = .ss then m.seg s else m.seg .ds) ∧
        argFrame (handlerEntry c stub n err m) =
          { namedFrame n err m with ds := (m.reg .rax).toNat / 2 ^ 16 * 2 ^ 16 + (m.seg .ds).toNat }) := by
  have houtside : ∀ r ∈ unsavedRegs, r ≠ .rsp ∧ r ≠ .rax := by decide
  obtain ⟨-, hentry⟩ := handlerEntry_stacked c stub hn err m
  refine ⟨⟨?_, ?_⟩, ?_⟩
  · intro h
    obtain ⟨hreg, hframe⟩ := h
    have hfits := fits_of_argFrame hn hflags hframe
    obtain ⟨-, hunsaved, -⟩ := afterIretq_of_fits habi stub hn m hfits
    refine ⟨?_, hfits, ?_⟩
    · intro r hr
      rw [← hunsaved r hr, hreg r]
      exact (hentry r (houtside r hr).1 (houtside r hr).2).symm
    · rw [argFrame_of_fits c stub hn m hfits] at hframe
      have hds : (dsWord (m.reg .rax) (m.seg .ds)).toNat = (m.seg .ds).toNat := congrArg IsrStackFrame.ds hframe
      exact (dsWord_eq_iff _ _).mp hds
  · intro h
    obtain ⟨hkeeps, hfits, hrax⟩ := h
    obtain ⟨hother, hunsaved, -⟩ := afterIretq_of_fits habi stub hn m hfits
    refine ⟨?_, ?_⟩
    · intro r
      by_cases hr : r ∈ unsavedRegs
      · rw [hunsaved r hr, hkeeps r hr]
        exact hentry r (houtside r hr).1 (houtside r hr).2
      · exact hother r hr
    · rw [argFrame_of_fits c stub hn m hfits, (dsWord_eq_iff _ _).mpr hrax]
      rfl
  · intro hfits
    obtain ⟨hother, -, hrip, heflags, hseg⟩ := afterIretq_of_fits habi stub hn m hfits
    refine ⟨hother, hrip, heflags, hseg, ?_⟩
    rw [argFrame_of_fits c stub hn m hfits, dsWord_toNat]

/-- A routine that leaves 7 in `rax` and 0 in a register of its choice, and returns. -/
def sampleRoutine (r : Reg) (m : Machine) : Machine :=
  ((m.setReg .rax 7).setReg r 0).setReg .rsp (m.reg .rsp + 8)

/-- A program with a 1 in every register and its stack at 1 MiB. -/
def sampleMachine (rax : BitVec 64) : Machine :=
  { reg := fun r => if r = .rsp then 0x100000 else if r = .rax then rax else 1
    rip := 0xffffffff80100000
    rflags := 0x202
    seg := fun s => if s = .cs then 8 else 16
    mem := fun _ => 0 }

theorem sampleRoutine_obeysAbi {r : Reg} (hr : r ∉ [Reg.rbx, .rbp, .r12, .r13, .r14, .r15]) :
    ObeysAbi (sampleRoutine r) where
  saved := by
    intro m _ q hq
    have hne : q ≠ r := by
      rintro rfl
      exact hr hq
    have houtside : ∀ q ∈ [Reg.rbx, .rbp, .r12, .r13, .r14, .r15], q ≠ .rsp ∧ q ≠ .rax := by decide
    obtain ⟨hsp, hrax⟩ := houtside q hq
    unfold sampleRoutine
    rw [setReg_reg_of_ne hsp, setReg_reg_of_ne hne, setReg_reg_of_ne hrax]
  returned := by
    intro m _
    exact setReg_reg_self
  frame := by
    intro m _ i _
    rfl

/-- A page fault of a program with 1 in `rax`, handled by a routine that uses `rax` and `rcx`. -/
theorem isr_preserves_page_fault :
    Preserved ⟨sampleRoutine .rcx, 0x1000⟩ 0x2000 14 (some 2) (sampleMachine 1) := by
  refine (isr_preserves_iff (sampleRoutine_obeysAbi (by decide)) 0x2000 (by decide) (some 2) (by decide)).1.mpr ?_
  refine ⟨?_, by decide, by decide⟩
  show ∀ r ∈ unsavedRegs, (sampleRoutine .rcx _).reg r = _
  decide

/-- **Three ways to lose the context.** A timer interrupt whose handler uses `r8`; a vector with an error code the stub
    does not expect; and a pointer in `rax`, which shows in `ds`. -/
theorem isr_context_lost :
    ObeysAbi (sampleRoutine .r8) ∧ ObeysAbi (sampleRoutine .rcx) ∧
      ¬ Preserved ⟨sampleRoutine .r8, 0x1000⟩ 0x2000 32 none (sampleMachine 1) ∧
      ¬ Preserved ⟨sampleRoutine .rcx, 0x1000⟩ 0x2000 21 (some 1) (sampleMachine 1) ∧
      ¬ Preserved ⟨sampleRoutine .rcx, 0x1000⟩ 0x2000 32 none (sampleMachine 0xffffffff80200000) := by
  refine ⟨sampleRoutine_obeysAbi (by decide), sampleRoutine_obeysAbi (by decide), ?_, ?_, ?_⟩
  · intro h
    exact absurd (h.1 .r8) (by decide)
  · intro h
    exact absurd h.2 (by decide)
  · intro h
    exact absurd h.2 (by decide)

end LearningOS.IsrDefs
