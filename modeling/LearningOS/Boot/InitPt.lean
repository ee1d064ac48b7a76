import LearningOS.Lib.Bytes
import LearningOS.Mm.Translate
import LearningOS.Mm.Vm.Mapping

/-!
# `Boot.InitPt` — the page tables of `init_pt.asm`

The 32-bit code that builds the six tables the kernel starts with, over the bytes of physical memory. Only the low half
of an entry is ever stored, so what the upper halves hold is what the memory held before, or the zeros of `rep stosd`.
That clears five tables; the sixth, which maps the last gigabyte, is left to be clear already.

`Slots` is the memory of the tables as the low and the high half of each entry. One store changes one half
(`Slots.store`), a run of `page_fill_loop` a row of them (`Slots.fill`), and the whole function is a row of these
(`slots_initPtProtected`).

* **`boot_walk`** — what the processor then makes of every address, and when the last gigabyte is mapped right;
* **`boot_tables_refined`** — the tables are those that `Mm.Vm.Model` starts from.
-/

namespace LearningOS.Boot

open Word Bytes Paging

/-! ## The code -/

/-- The registers the loops use, and physical memory. -/
structure Machine where
  eax : Nat
  ebx : Nat
  ecx : Nat
  edi : Nat
  mem : Mem

/-- The machine with its control registers. -/
structure Processor extends Machine where
  cr3 : Nat
  cr4 : Nat

/-- `stosd`, which `rep` repeats until `ecx` is zero. -/
def stosd (m : Machine) : Machine :=
  { m with mem := store 4 m.mem m.edi m.eax, edi := addW 32 m.edi 4, ecx := subW 32 m.ecx 1 }

@[simp] theorem stosd_mem (m : Machine) : (stosd m).mem = store 4 m.mem m.edi m.eax := rfl

@[simp] theorem stosd_edi (m : Machine) : (stosd m).edi = addW 32 m.edi 4 := rfl

@[simp] theorem stosd_eax (m : Machine) : (stosd m).eax = m.eax := by
  cases m
  rfl

/-- `rep stosd`. -/
def repStosd (m : Machine) : Machine := stosd^[m.ecx] m

/-- `mov dword[edi], value`. -/
def Machine.movDword (m : Machine) (value : Nat) : Machine := { m with mem := store 4 m.mem m.edi value }

/-- `add edi, value`. -/
def Machine.addEdi (m : Machine) (value : Nat) : Machine := { m with edi := addW 32 m.edi value }

/-- `page_fill_loop`, with the decrement of `ecx` that `loop` does. -/
def pageFillLoop (m : Machine) : Machine :=
  { m with
    mem := store 4 m.mem m.edi m.ebx
    ebx := addW 32 m.ebx 0x200000
    edi := addW 32 m.edi 8
    ecx := subW 32 m.ecx 1 }

@[simp] theorem pageFillLoop_mem (m : Machine) : (pageFillLoop m).mem = store 4 m.mem m.edi m.ebx := rfl

@[simp] theorem pageFillLoop_edi (m : Machine) : (pageFillLoop m).edi = addW 32 m.edi 8 := rfl

@[simp] theorem pageFillLoop_ebx (m : Machine) : (pageFillLoop m).ebx = addW 32 m.ebx 0x200000 := rfl

/-- `fill_huge_pages`. The loop is entered with 512 in `ecx` and left with zero. -/
def fillHugePages (m : Machine) : Machine := pageFillLoop^[512] { m with ebx := m.ebx ||| 0x83, ecx := 512 }

/-- The three stores behind `rep stosd`: the first and the last entry of the top table, and the first one of the table
    below. -/
def linkLow (pageTablesBegin : Nat) (m : Machine) : Machine :=
  let top := m.movDword (pageTablesBegin + 0x1003)
  let top := (top.addEdi 0xFF8).movDword (pageTablesBegin + 0x3003)
  let low := (top.addEdi 0x8).movDword (pageTablesBegin + 0x2003)
  low.addEdi 0x1000

/-- The two stores into the table of the last two gigabytes. -/
def linkHigh (pageTablesBegin : Nat) (m : Machine) : Machine :=
  let high := (m.addEdi 0x1FF0).movDword (pageTablesBegin + 0x4003)
  (high.addEdi 0x8).movDword (pageTablesBegin + 0x5003)

/-- `init_pt_protected`, with the tables at `page_tables_begin`. What is pushed is popped again. -/
def initPtProtected (pageTablesBegin : Nat) (c : Processor) : Processor :=
  let cr3 := pageTablesBegin
  let cleared := repStosd { c.toMachine with edi := pageTablesBegin, eax := 0, ecx := 5 * 1024 }
  let low := linkLow pageTablesBegin { cleared with edi := cr3 }
  -- `edi` and `ebx` are on the stack during the call.
  let filled := { fillHugePages { low with ebx := 0 } with ebx := low.ebx, edi := low.edi }
  let high := linkHigh pageTablesBegin filled
  let filled := fillHugePages { high with edi := pageTablesBegin + 0x4000, ebx := 0 }
  let filled := fillHugePages { filled with edi := pageTablesBegin + 0x5000, ebx := 0x40000000 }
  -- `cr4` goes through `eax`, and `popad` restores the registers.
  ⟨{ filled with eax := c.eax, ebx := c.ebx, ecx := c.ecx, edi := c.edi }, cr3, c.cr4 ||| 1 <<< 5⟩

/-! ## The tables, half by half -/

/-- The six tables: `low` and `high` are the halves of entry `j`, counted through all of them. Around the tables the
    memory is as it was. -/
structure Slots (before mem : Mem) (base : Nat) (low high : Nat → Nat) : Prop where
  halves : ∀ j < 3072, load 4 mem (base + 8 * j) = low j ∧ load 4 mem (base + 8 * j + 4) = high j
  outside : ∀ x, x < base ∨ base + 0x6000 ≤ x → mem x = before x

/-- What the memory holds in the low half of an entry. -/
def lowHalf (mem : Mem) (base j : Nat) : Nat := load 4 mem (base + 8 * j)

/-- What it holds in the high half. -/
def highHalf (mem : Mem) (base j : Nat) : Nat := load 4 mem (base + 8 * j + 4)

section Steps

variable {before mem : Mem} {base : Nat} {low high : Nat → Nat}

theorem slots_self (mem : Mem) (base : Nat) : Slots mem mem base (lowHalf mem base) (highHalf mem base) :=
  ⟨fun _ _ => ⟨rfl, rfl⟩, fun _ _ => rfl⟩

theorem Slots.congr {low' high' : Nat → Nat} (h : Slots before mem base low high)
    (hlow : ∀ j < 3072, low' j = low j) (hhigh : ∀ j < 3072, high' j = high j) :
    Slots before mem base low' high' := by
  refine ⟨fun j hj => ?_, h.outside⟩
  rw [hlow j hj, hhigh j hj]
  exact h.halves j hj

/-- Four bytes of an entry lie between the ends of the tables. -/
theorem outside_half {k x : Nat} (hk : k < 3072) (hx : x < base ∨ base + 0x6000 ≤ x) :
    Outside 4 (base + 8 * k) x ∧ Outside 4 (base + 8 * k + 4) x := by
  unfold Outside
  omega

/-- A store into the low half of an entry. -/
theorem Slots.store (h : Slots before mem base low high) {k v : Nat} (hk : k < 3072) (hv : v < 2 ^ 32) :
    Slots before (store 4 mem (base + 8 * k) v) base (Function.update low k v) high := by
  refine ⟨fun j hj => ⟨?_, ?_⟩, fun x hx => ?_⟩
  · by_cases hjk : j = k
    · subst hjk
      rw [Function.update_self]
      exact load_store hv mem _
    · rw [Function.update_of_ne hjk, load_store_of_disjoint (by omega)]
      exact (h.halves j hj).1
  · rw [load_store_of_disjoint (by omega)]
    exact (h.halves j hj).2
  · exact (store_frame (outside_half hk hx).1 mem v).trans (h.outside x hx)

/-- A store into the high half of an entry. -/
theorem Slots.store_high (h : Slots before mem base low high) {k v : Nat} (hk : k < 3072) (hv : v < 2 ^ 32) :
    Slots before (Bytes.store 4 mem (base + 8 * k + 4) v) base low (Function.update high k v) := by
  refine ⟨fun j hj => ⟨?_, ?_⟩, fun x hx => ?_⟩
  · rw [load_store_of_disjoint (by omega)]
    exact (h.halves j hj).1
  · by_cases hjk : j = k
    · subst hjk
      rw [Function.update_self]
      exact load_store hv mem _
    · rw [Function.update_of_ne hjk, load_store_of_disjoint (by omega)]
      exact (h.halves j hj).2
  · exact (store_frame (outside_half hk hx).2 mem v).trans (h.outside x hx)

/-- The clear entries and one more. -/
theorem clear_next (f : Nat → Nat) (n j : Nat) :
    Function.update (fun j => if j < n then 0 else f j) n 0 j = if j < n + 1 then 0 else f j := by
  by_cases hj : j = n
  · subst hj
    rw [Function.update_self, if_pos (Nat.lt_succ_self j)]
  · rw [Function.update_of_ne hj]
    by_cases hlt : j < n
    · rw [if_pos hlt, if_pos (by omega)]
    · rw [if_neg hlt, if_neg (by omega)]

end Steps

/-! ## The loops -/

section Loops

variable {before : Mem} {m : Machine} {base : Nat} {low high : Nat → Nat}

/-- Two turns of `rep stosd` clear one entry. -/
theorem stosd_iterate (hslots : Slots before m.mem base low high) (hedi : m.edi = base) (heax : m.eax = 0)
    (hfit : base + 0x6000 < 2 ^ 32) :
    ∀ n ≤ 3072, (stosd^[2 * n] m).edi = base + 8 * n ∧ (stosd^[2 * n] m).eax = 0 ∧
      Slots before (stosd^[2 * n] m).mem base
        (fun j => if j < n then 0 else low j) (fun j => if j < n then 0 else high j) := by
  intro n
  induction n with
  | zero =>
      refine fun _ => ⟨hedi, heax, hslots.congr (fun j _ => ?_) (fun j _ => ?_)⟩
      · exact if_neg (Nat.not_lt_zero j)
      · exact if_neg (Nat.not_lt_zero j)
  | succ n ih =>
      intro hn
      obtain ⟨hedi', heax', hslots'⟩ := ih (Nat.le_of_succ_le hn)
      have htwice : stosd^[2 * (n + 1)] m = stosd (stosd (stosd^[2 * n] m)) := by
        rw [Nat.mul_succ, Function.iterate_succ_apply', Function.iterate_succ_apply']
      have hnext : addW 32 (base + 8 * n) 4 = base + 8 * n + 4 := addW_of_lt (by omega)
      rw [htwice]
      generalize stosd^[2 * n] m = s at hedi' heax' hslots'
      refine ⟨?_, ?_, ?_⟩
      · rw [stosd_edi, stosd_edi, hedi', hnext, addW_of_lt (by omega)]
        omega
      · rw [stosd_eax, stosd_eax, heax']
      · rw [stosd_mem, stosd_mem, stosd_edi, stosd_eax, hedi', heax', hnext]
        refine ((hslots'.store hn (Nat.two_pow_pos 32)).store_high hn (Nat.two_pow_pos 32)).congr ?_ ?_
        · exact fun j _ => (clear_next low n j).symm
        · exact fun j _ => (clear_next high n j).symm

/-- `rep stosd` clears the first entries. -/
theorem slots_repStosd {n : Nat} (hslots : Slots before m.mem base low high) (hedi : m.edi = base) (heax : m.eax = 0)
    (hecx : m.ecx = 2 * n) (hn : n ≤ 3072) (hfit : base + 0x6000 < 2 ^ 32) :
    Slots before (repStosd m).mem base
      (fun j => if j < n then 0 else low j) (fun j => if j < n then 0 else high j) := by
  unfold repStosd
  rw [hecx]
  exact (stosd_iterate hslots hedi heax hfit n hn).2.2

/-- `n` turns of `page_fill_loop` store the addresses of `n` huge pages in a row. -/
theorem pageFillLoop_iterate {k first : Nat} (hslots : Slots before m.mem base low high) (hedi : m.edi = base + 8 * k)
    (hebx : m.ebx = first) (hfit : base + 0x6000 < 2 ^ 32) :
    ∀ n, k + n ≤ 3072 → first + 0x200000 * n < 2 ^ 32 →
      (pageFillLoop^[n] m).edi = base + 8 * (k + n) ∧ (pageFillLoop^[n] m).ebx = first + 0x200000 * n ∧
      Slots before (pageFillLoop^[n] m).mem base
        (fun j => if k ≤ j ∧ j < k + n then first + 0x200000 * (j - k) else low j) high := by
  intro n
  induction n with
  | zero =>
      refine fun _ _ => ⟨hedi, ?_, hslots.congr (fun j _ => ?_) (fun _ _ => rfl)⟩
      · rw [Nat.mul_zero, Nat.add_zero]
        exact hebx
      · exact if_neg (by omega)
  | succ n ih =>
      intro hn hfirst
      have hbefore : first + 0x200000 * n < 2 ^ 32 := by omega
      obtain ⟨hedi', hebx', hslots'⟩ := ih (by omega) hbefore
      have hnext : addW 32 (base + 8 * (k + n)) 8 = base + 8 * (k + (n + 1)) := addW_of_lt (by omega)
      have hpage : addW 32 (first + 0x200000 * n) 0x200000 = first + 0x200000 * (n + 1) := by
        rw [Nat.mul_succ, ← Nat.add_assoc] at hfirst ⊢
        exact addW_of_lt hfirst
      rw [Function.iterate_succ_apply']
      generalize pageFillLoop^[n] m = s at hedi' hebx' hslots'
      refine ⟨?_, ?_, ?_⟩
      · rw [pageFillLoop_edi, hedi', hnext]
      · rw [pageFillLoop_ebx, hebx', hpage]
      · rw [pageFillLoop_mem, hedi', hebx']
        refine (hslots'.store (by omega) hbefore).congr (fun j _ => ?_) (fun _ _ => rfl)
        by_cases hj : j = k + n
        · subst hj
          rw [Function.update_self, if_pos (by omega), Nat.add_sub_cancel_left]
        · rw [Function.update_of_ne hj]
          by_cases hin : k ≤ j ∧ j < k + n
          · rw [if_pos hin, if_pos (by omega)]
          · rw [if_neg hin, if_neg (by omega)]

/-- The tables, and the entry that `edi` is at. -/
structure AtEntry (before : Mem) (base : Nat) (low high : Nat → Nat) (k : Nat) (m : Machine) : Prop where
  slots : Slots before m.mem base low high
  edi : m.edi = base + 8 * k

theorem AtEntry.movDword {k v : Nat} (h : AtEntry before base low high k m) (hk : k < 3072) (hv : v < 2 ^ 32) :
    AtEntry before base (Function.update low k v) high k (m.movDword v) := by
  refine ⟨?_, h.edi⟩
  show Slots before (store 4 m.mem m.edi v) base _ _
  rw [h.edi]
  exact h.slots.store hk hv

theorem AtEntry.addEdi {k n v : Nat} (h : AtEntry before base low high k m) (hv : v = 8 * n) (hk : k + n ≤ 3072)
    (hfit : base + 0x6000 < 2 ^ 32) : AtEntry before base low high (k + n) (m.addEdi v) := by
  refine ⟨h.slots, ?_⟩
  show addW 32 m.edi v = _
  rw [h.edi, hv, addW_of_lt (by omega), Nat.mul_add, Nat.add_assoc]

theorem atEntry_linkLow (hstart : AtEntry before base low high 0 m) (hfit : base + 0x6000 < 2 ^ 32) :
    AtEntry before base (Function.update (Function.update (Function.update low 0 (base + 0x1003)) 511 (base + 0x3003))
      512 (base + 0x2003)) high 1024 (linkLow base m) := by
  have htop := hstart.movDword (v := base + 0x1003) (by decide) (by omega)
  have htop := (htop.addEdi (v := 0xFF8) (n := 511) rfl (by decide) hfit).movDword (v := base + 0x3003) (by decide)
    (by omega)
  have hlow := (htop.addEdi (v := 0x8) (n := 1) rfl (by decide) hfit).movDword (v := base + 0x2003) (by decide)
    (by omega)
  exact hlow.addEdi (v := 0x1000) (n := 512) rfl (by decide) hfit

theorem slots_linkHigh (h : AtEntry before base low high 1024 m) (hfit : base + 0x6000 < 2 ^ 32) :
    Slots before (linkHigh base m).mem base
      (Function.update (Function.update low 2046 (base + 0x4003)) 2047 (base + 0x5003)) high := by
  have hhigh := (h.addEdi (v := 0x1FF0) (n := 1022) rfl (by decide) hfit).movDword (v := base + 0x4003) (by decide)
    (by omega)
  exact ((hhigh.addEdi (v := 0x8) (n := 1) rfl (by decide) hfit).movDword (v := base + 0x5003) (by decide)
    (by omega)).slots

/-- `fill_huge_pages` fills the table that `edi` is at. -/
theorem AtEntry.fillHugePages {k f : Nat} (b : Nat) (h : AtEntry before base low high k m) (hebx : m.ebx = b)
    (hfirst : b ||| 0x83 = f) (hk : k + 512 ≤ 3072) (hlt : f < 2 ^ 31) (hfit : base + 0x6000 < 2 ^ 32) :
    Slots before (fillHugePages m).mem base
      (fun j => if k ≤ j ∧ j < k + 512 then f + 0x200000 * (j - k) else low j) high :=
  (pageFillLoop_iterate (m := { m with ebx := m.ebx ||| 0x83, ecx := 512 }) h.slots h.edi
    (show m.ebx ||| 0x83 = f by rw [hebx, hfirst]) hfit 512 hk (by omega)).2.2

end Loops

/-! ## The function -/

/-- The low halves of the entries. -/
def bootLow (base j : Nat) : Nat :=
  if j = 0 then base + 0x1003
  else if j = 511 then base + 0x3003
  else if j = 512 then base + 0x2003
  else if 1024 ≤ j ∧ j < 1536 then 0x83 + 0x200000 * (j - 1024)
  else if j = 2046 then base + 0x4003
  else if j = 2047 then base + 0x5003
  else if 2048 ≤ j ∧ j < 2560 then 0x83 + 0x200000 * (j - 2048)
  else if 2560 ≤ j then 0x40000083 + 0x200000 * (j - 2560)
  else 0

/-- The high halves. Those of the last table are not written. -/
def bootHigh (before : Mem) (base j : Nat) : Nat := if j < 2560 then 0 else highHalf before base j

section Run

variable {base : Nat} (c : Processor)

/-- **The tables that `init_pt_protected` leaves**, half by half. -/
theorem slots_initPtProtected (hfit : base + 0x6000 < 2 ^ 32) :
    Slots c.mem (initPtProtected base c).mem base (bootLow base) (bootHigh c.mem base) := by
  have hcleared := slots_repStosd (m := { c.toMachine with edi := base, eax := 0, ecx := 5 * 1024 }) (n := 2560)
    (slots_self c.mem base) rfl rfl rfl (by decide) hfit
  unfold initPtProtected
  dsimp only
  generalize repStosd _ = cleared at hcleared ⊢
  have hlow := atEntry_linkLow (m := { cleared with edi := base }) ⟨hcleared, rfl⟩ hfit
  generalize linkLow base _ = low at hlow ⊢
  have hfilled := AtEntry.fillHugePages (m := { low with ebx := 0 }) (f := 0x83) 0 ⟨hlow.slots, hlow.edi⟩ rfl
    (by decide) (by decide) (by decide) hfit
  generalize fillHugePages { low with ebx := 0 } = filled at hfilled ⊢
  have hhigh := slots_linkHigh (m := { filled with ebx := low.ebx, edi := low.edi }) ⟨hfilled, hlow.edi⟩ hfit
  generalize linkHigh base _ = high at hhigh ⊢
  have hfirst := AtEntry.fillHugePages (m := { high with edi := base + 0x4000, ebx := 0 }) (k := 2048)
    (f := 0x83) 0 ⟨hhigh, rfl⟩ rfl (by decide) (by decide) (by decide) hfit
  generalize fillHugePages { high with edi := base + 0x4000, ebx := 0 } = first at hfirst ⊢
  have hsecond := AtEntry.fillHugePages (m := { first with edi := base + 0x5000, ebx := 0x40000000 }) (k := 2560)
    (f := 0x40000083) 0x40000000 ⟨hfirst, rfl⟩ rfl (by decide) (by decide) (by decide) hfit
  refine hsecond.congr (fun j hj => ?_) (fun j hj => rfl)
  simp only [Function.update_apply]
  unfold bootLow
  split_ifs <;> omega

end Run

/-! ## The entries -/

/-- The entries that tables in memory have. -/
def entriesOf (mem : Mem) : Radix.Mem Nat PtEntry := fun table i => .ofWord (load 8 mem (table + 8 * i))

/-- The low bits of a word and its address are enough, as long as no bit above the address is set. -/
theorem ofWord_of_lt {w : Nat} (hw : w < 2 ^ 52) :
    PtEntry.ofWord w = { PtEntry.ofWord (w % 2 ^ 12) with addr := w / 2 ^ 12 * 2 ^ 12 } := by
  have haddr : w &&& PtEntry.addrMask = w / 2 ^ 12 * 2 ^ 12 := by
    show physAddrForEntry w = _
    rw [physAddrForEntry_eq, frameOf, Nat.mod_eq_of_lt hw]
  have hlow : ∀ i < 12, (w % 2 ^ 12).testBit i = w.testBit i := by
    intro i hi
    rw [Nat.testBit_mod_two_pow, decide_eq_true hi, Bool.true_and]
  have hmod : w % 2 ^ 12 < 2 ^ 52 := Nat.lt_of_lt_of_le (Nat.mod_lt _ (by decide)) (by decide)
  have hhigh : ∀ v < 2 ^ 52, ∀ i ≥ 52, v.testBit i = false := fun v hv i hi =>
    Nat.testBit_lt_two_pow (Nat.lt_of_lt_of_le hv (Nat.pow_le_pow_right (by decide) hi))
  generalize w % 2 ^ 12 = r at hlow hmod
  unfold PtEntry.ofWord
  simp [haddr, hlow, hhigh w hw, hhigh r hmod]

/-- An entry that only links a table. -/
def linkTo (table : Nat) : PtEntry := { present := true, writable := true, addr := table }

/-- An entry that maps a huge page. -/
def hugePage (frame : Nat) : PtEntry := { present := true, writable := true, hugepage := true, addr := frame }

theorem ofWord_link {q : Nat} (hq : q % 4096 = 0) (hlt : q < 2 ^ 32) : PtEntry.ofWord (q + 3) = linkTo q := by
  have hlow : (q + 3) % 2 ^ 12 = 3 := by omega
  have hhigh : (q + 3) / 2 ^ 12 * 2 ^ 12 = q := by omega
  have hthree : PtEntry.ofWord 3 = { present := true, writable := true } := by decide
  rw [ofWord_of_lt (by omega), hlow, hhigh, hthree]
  rfl

theorem ofWord_huge {q : Nat} (hq : q % 4096 = 0) (hlt : q < 2 ^ 32) : PtEntry.ofWord (q + 0x83) = hugePage q := by
  have hlow : (q + 0x83) % 2 ^ 12 = 0x83 := by omega
  have hhigh : (q + 0x83) / 2 ^ 12 * 2 ^ 12 = q := by omega
  have hbits : PtEntry.ofWord 0x83 = { present := true, writable := true, hugepage := true } := by decide
  rw [ofWord_of_lt (by omega), hlow, hhigh, hbits]
  rfl

section Entries

variable {base : Nat} (c : Processor)

theorem entry_eq (hfit : base + 0x6000 < 2 ^ 32) {k i : Nat} (hk : k < 6) (hi : i < 512) :
    entriesOf (initPtProtected base c).mem (base + 0x1000 * k) i =
      .ofWord (bootLow base (512 * k + i) + 2 ^ 32 * bootHigh c.mem base (512 * k + i)) := by
  obtain ⟨hlow, hhigh⟩ := (slots_initPtProtected c hfit).halves (512 * k + i) (by omega)
  have haddr : base + 0x1000 * k + 8 * i = base + 8 * (512 * k + i) := by omega
  unfold entriesOf
  rw [haddr, load_add 4 4, hlow, hhigh]
  rfl

/-- The entries of the first five tables. -/
theorem entry_low (hfit : base + 0x6000 < 2 ^ 32) {k i : Nat} (hk : k < 5) (hi : i < 512) :
    entriesOf (initPtProtected base c).mem (base + 0x1000 * k) i = .ofWord (bootLow base (512 * k + i)) := by
  rw [entry_eq c hfit (by omega) hi, bootHigh, if_pos (by omega), Nat.mul_zero, Nat.add_zero]

/-- The low halves, table by table. -/
theorem bootLow_cases (base : Nat) {i : Nat} (hi : i < 512) :
    bootLow base (512 * 0 + i) = (if i = 0 then base + 0x1003 else if i = 511 then base + 0x3003 else 0) ∧
    bootLow base (512 * 1 + i) = (if i = 0 then base + 0x2003 else 0) ∧
    bootLow base (512 * 2 + i) = 0x200000 * i + 0x83 ∧
    bootLow base (512 * 3 + i) = (if i = 510 then base + 0x4003 else if i = 511 then base + 0x5003 else 0) ∧
    bootLow base (512 * 4 + i) = 0x200000 * i + 0x83 ∧
    bootLow base (512 * 5 + i) = 0x40000000 + 0x200000 * i + 0x83 := by
  unfold bootLow
  refine ⟨?_, ?_, ?_, ?_, ?_, ?_⟩ <;> split_ifs <;> omega

/-- The abstract tables, one by one. -/
theorem bootTables_cases (base i : Nat) :
    bootTables base (base + 0x1000 * 0) i =
      (if i = 0 then linkTo (base + 0x1000) else if i = 511 then linkTo (base + 0x3000) else .zero) ∧
    bootTables base (base + 0x1000 * 1) i = (if i = 0 then linkTo (base + 0x2000) else .zero) ∧
    bootTables base (base + 0x1000 * 2) i = hugePage (0x200000 * i) ∧
    bootTables base (base + 0x1000 * 3) i =
      (if i = 510 then linkTo (base + 0x4000) else if i = 511 then linkTo (base + 0x5000) else .zero) ∧
    bootTables base (base + 0x1000 * 4) i = hugePage (0x200000 * i) ∧
    bootTables base (base + 0x1000 * 5) i = hugePage (0x40000000 + 0x200000 * i) := by
  unfold bootTables linkTo hugePage
  refine ⟨?_, ?_, ?_, ?_, ?_, ?_⟩ <;> simp [Nat.mul_comm]

/-- **The first five tables are those of the abstract address space.** -/
theorem entry_bootTables (halign : base % 4096 = 0) (hfit : base + 0x6000 < 2 ^ 32) {k i : Nat} (hk : k < 5)
    (hi : i < 512) :
    entriesOf (initPtProtected base c).mem (base + 0x1000 * k) i = bootTables base (base + 0x1000 * k) i := by
  obtain ⟨h0, h1, h2, h3, h4, -⟩ := bootLow_cases base hi
  obtain ⟨t0, t1, t2, t3, t4, -⟩ := bootTables_cases base i
  have hzero : PtEntry.ofWord 0 = .zero := by decide
  have hlink : ∀ n < 6, PtEntry.ofWord (base + 0x1000 * n + 3) = linkTo (base + 0x1000 * n) :=
    fun n hn => ofWord_link (by omega) (by omega)
  have hhuge : PtEntry.ofWord (0x200000 * i + 0x83) = hugePage (0x200000 * i) := ofWord_huge (by omega) (by omega)
  rw [entry_low c hfit hk hi]
  obtain rfl | rfl | rfl | rfl | rfl : k = 0 ∨ k = 1 ∨ k = 2 ∨ k = 3 ∨ k = 4 := by omega
  · rw [h0, t0]
    split_ifs
    · exact hlink 1 (by decide)
    · exact hlink 3 (by decide)
    · exact hzero
  · rw [h1, t1]
    split_ifs
    · exact hlink 2 (by decide)
    · exact hzero
  · rw [h2, t2, hhuge]
  · rw [h3, t3]
    split_ifs
    · exact hlink 4 (by decide)
    · exact hlink 5 (by decide)
    · exact hzero
  · rw [h4, t4, hhuge]

end Entries

/-! ## The walk -/

/-- What the links of the boot tables grant together. -/
def bootRights : Rights := ⟨true, false, true⟩

/-- The first page of the last two gigabytes, and the first one of the last gigabyte. -/
abbrev kernelPage : Nat := 0xFFFF80000

@[inherit_doc kernelPage]
abbrev lastPage : Nat := 0xFFFFC0000

theorem heightOffset_page (addr : Nat) :
    heightOffset addr 3 = pageNumber addr / 2 ^ 27 ∧ heightOffset addr 2 = pageNumber addr / 2 ^ 18 % 512 ∧
      heightOffset addr 1 = pageNumber addr / 2 ^ 9 % 512 := by
  unfold pageNumber
  refine ⟨?_, ?_, ?_⟩
  · rw [heightOffset_eq]
    omega
  · rw [heightOffset_eq]
    omega
  · rw [heightOffset_eq]
    omega

theorem pageNumber_lt (addr : Nat) : pageNumber addr < 2 ^ 36 := by
  unfold pageNumber
  omega

section Walk

variable {base addr : Nat} {tables : Radix.Mem Nat PtEntry}

theorem translateBelow_linkTo {h table next : Nat} {r : Rights}
    (he : tables table (heightOffset addr (h + 1)) = linkTo next) :
    translateBelow tables addr (h + 1) table r = translateBelow tables addr h next ⟨r.writable, false, r.exec⟩ := by
  rw [translateBelow_link (by rw [he]; rfl) (by rw [he]; rfl), he]
  simp [Rights.meet, linkTo]

theorem translateBelow_hugePage {table frame : Nat} {r : Rights}
    (he : tables table (heightOffset addr 1) = hugePage frame) :
    translateBelow tables addr 1 table r = some (hugeFrame (hugePage frame) addr 1, ⟨r.writable, false, r.exec⟩) := by
  unfold translateBelow
  simp [he, Rights.meet, hugePage]

theorem translateBelow_zero {h table : Nat} {r : Rights} (he : tables table (heightOffset addr h) = .zero) :
    translateBelow tables addr h table r = none :=
  translateBelow_missing (by rw [he]; rfl)

/-- A huge page that begins at a multiple of its size. -/
theorem hugeFrame_hugePage (i addr : Nat) :
    hugeFrame (hugePage (0x200000 * i)) addr 1 = 0x200000 * i + addr % 2 ^ 21 / 4096 * 4096 := by
  show 0x200000 * i / 2 ^ 21 * 2 ^ 21 + addr % 2 ^ 21 / 4096 * 4096 = _
  omega

variable (hboot : ∀ k < 5, ∀ i < 512, tables (base + 0x1000 * k) i = bootTables base (base + 0x1000 * k) i)
include hboot

/-- The entry of the top table, and those of the tables below it. -/
theorem boot_entries (addr : Nat) :
    tables base (heightOffset addr 3) =
        (if heightOffset addr 3 = 0 then linkTo (base + 0x1000)
          else if heightOffset addr 3 = 511 then linkTo (base + 0x3000) else .zero) ∧
      tables (base + 0x1000) (heightOffset addr 2) =
        (if heightOffset addr 2 = 0 then linkTo (base + 0x2000) else .zero) ∧
      tables (base + 0x2000) (heightOffset addr 1) = hugePage (0x200000 * heightOffset addr 1) ∧
      tables (base + 0x3000) (heightOffset addr 2) =
        (if heightOffset addr 2 = 510 then linkTo (base + 0x4000)
          else if heightOffset addr 2 = 511 then linkTo (base + 0x5000) else .zero) ∧
      tables (base + 0x4000) (heightOffset addr 1) = hugePage (0x200000 * heightOffset addr 1) := by
  have hlt : ∀ h, heightOffset addr h < 512 := fun h => by
    rw [heightOffset_eq]
    exact Nat.mod_lt _ (by decide)
  have h0 := hboot 0 (by decide) _ (hlt 3)
  rw [Nat.mul_zero, Nat.add_zero] at h0
  refine ⟨h0.trans ?_, (hboot 1 (by decide) _ (hlt 2)).trans ?_, (hboot 2 (by decide) _ (hlt 1)).trans ?_,
    (hboot 3 (by decide) _ (hlt 2)).trans ?_, (hboot 4 (by decide) _ (hlt 1)).trans ?_⟩
  · exact (bootTables_cases base _).1
  · exact (bootTables_cases base _).2.1
  · exact (bootTables_cases base _).2.2.1
  · exact (bootTables_cases base _).2.2.2.1
  · exact (bootTables_cases base _).2.2.2.2.1

/-- Below the last two gigabytes the first one alone is mapped, to itself. -/
theorem translateBelow_below (hlow : pageNumber addr < kernelPage) :
    translateBelow tables addr 3 base .all =
      if pageNumber addr < 2 ^ 18 then some (pageNumber addr * 4096, bootRights) else none := by
  obtain ⟨h3, h2, h1⟩ := heightOffset_page addr
  obtain ⟨t0, t1, t2, t3, -⟩ := boot_entries hboot addr
  have hlow : pageNumber addr < 0xFFFF80000 := hlow
  by_cases hfirst : heightOffset addr 3 = 0
  · rw [if_pos hfirst] at t0
    rw [translateBelow_linkTo t0]
    by_cases hsecond : heightOffset addr 2 = 0
    · rw [if_pos hsecond] at t1
      rw [translateBelow_linkTo t1, translateBelow_hugePage t2, if_pos (by omega), hugeFrame_hugePage, h1]
      congr 2
      unfold pageNumber at h3 h2 ⊢
      omega
    · rw [if_neg hsecond] at t1
      rw [translateBelow_zero t1, if_neg (by omega)]
  · rw [if_neg hfirst] at t0
    by_cases hlast : heightOffset addr 3 = 511
    · rw [if_pos hlast] at t0
      rw [if_neg (by omega), if_neg (by omega)] at t3
      rw [translateBelow_linkTo t0, translateBelow_zero t3, if_neg (by omega)]
    · rw [if_neg hlast] at t0
      rw [translateBelow_zero t0, if_neg (by omega)]

/-- The gigabyte before the last one is the first one of physical memory. -/
theorem translateBelow_kernel (hlow : kernelPage ≤ pageNumber addr) (hhigh : pageNumber addr < lastPage) :
    translateBelow tables addr 3 base .all = some ((pageNumber addr - kernelPage) * 4096, bootRights) := by
  obtain ⟨h3, h2, h1⟩ := heightOffset_page addr
  obtain ⟨t0, -, -, t3, t4⟩ := boot_entries hboot addr
  have hlow : 0xFFFF80000 ≤ pageNumber addr := hlow
  have hhigh : pageNumber addr < 0xFFFFC0000 := hhigh
  rw [if_neg (by omega), if_pos (by omega)] at t0
  rw [if_pos (by omega)] at t3
  have hframe : 0x200000 * (pageNumber addr / 2 ^ 9 % 512) + addr % 2 ^ 21 / 4096 * 4096 =
      (pageNumber addr - 0xFFFF80000) * 4096 := by
    unfold pageNumber at hlow hhigh ⊢
    omega
  rw [translateBelow_linkTo t0, translateBelow_linkTo t3, translateBelow_hugePage t4, hugeFrame_hugePage, h1, hframe]
  rfl

/-- The last gigabyte is what the sixth table makes of it. -/
theorem translateBelow_last (hlow : lastPage ≤ pageNumber addr) :
    translateBelow tables addr 3 base .all =
      translateBelow tables addr 1 (base + 0x5000) bootRights := by
  obtain ⟨h3, h2, -⟩ := heightOffset_page addr
  obtain ⟨t0, -, -, t3, -⟩ := boot_entries hboot addr
  have hlt := pageNumber_lt addr
  have hlow : 0xFFFFC0000 ≤ pageNumber addr := hlow
  rw [if_neg (by omega), if_pos (by omega)] at t0
  rw [if_neg (by omega), if_pos (by omega)] at t3
  rw [translateBelow_linkTo t0, translateBelow_linkTo t3]
  rfl

end Walk

/-! ## The last gigabyte -/

/-- The fields of an entry whose upper half is `h`. -/
theorem ofWord_last {x h : Nat} (hx : x % 4096 = 0) (hlt : x < 2 ^ 31) :
    (PtEntry.ofWord (x + 0x83 + 2 ^ 32 * h)).present = true ∧ (PtEntry.ofWord (x + 0x83 + 2 ^ 32 * h)).writable = true ∧
      (PtEntry.ofWord (x + 0x83 + 2 ^ 32 * h)).hugepage = true ∧
      (PtEntry.ofWord (x + 0x83 + 2 ^ 32 * h)).addr = 2 ^ 32 * (h % 2 ^ 20) + x ∧
      (PtEntry.ofWord (x + 0x83 + 2 ^ 32 * h)).noExecute = h.testBit 31 := by
  have hlow : ∀ i < 12, (x + 0x83 + 2 ^ 32 * h).testBit i = (0x83 : Nat).testBit i := by
    intro i hi
    have hmod : (x + 0x83 + 2 ^ 32 * h) % 2 ^ 12 = 0x83 := by omega
    have hbit := Nat.testBit_mod_two_pow (x + 0x83 + 2 ^ 32 * h) 12 i
    rw [hmod, decide_eq_true hi, Bool.true_and] at hbit
    exact hbit.symm
  have hdiv : (x + 0x83 + 2 ^ 32 * h) / 2 ^ 32 = h := by omega
  refine ⟨hlow 0 (by decide), hlow 1 (by decide), hlow 7 (by decide), ?_, ?_⟩
  · show physAddrForEntry _ = _
    rw [physAddrForEntry_eq, frameOf]
    omega
  · show (x + 0x83 + 2 ^ 32 * h).testBit (31 + 32) = h.testBit 31
    rw [← Nat.testBit_div_two_pow, hdiv]

/-- The bits of an upper half that the address and the right to execute depend on. -/
theorem upper_bits {h : Nat} : h &&& 0x800FFFFF = 0 ↔ h % 2 ^ 20 = 0 ∧ h.testBit 31 = false := by
  have hmask : (0x800FFFFF : Nat) = (2 ^ 20 - 1) ||| 2 ^ 31 := by decide
  rw [hmask, Nat.and_or_distrib_left, Nat.or_eq_zero_iff, and_mask, Nat.and_two_pow]
  cases h.testBit 31 <;> simp

section Last

variable {base : Nat} (c : Processor)

/-- What an upper half in the sixth table makes of a page of the last gigabyte. -/
theorem translateBelow_sixth {addr : Nat} (hfit : base + 0x6000 < 2 ^ 32) :
    translateBelow (entriesOf (initPtProtected base c).mem) addr 1 (base + 0x5000) bootRights =
      some (2 ^ 32 * (highHalf c.mem base (512 * 5 + heightOffset addr 1) % 2 ^ 20) +
          (0x40000000 + 0x200000 * heightOffset addr 1) + addr % 2 ^ 21 / 4096 * 4096,
        ⟨true, false, !(highHalf c.mem base (512 * 5 + heightOffset addr 1)).testBit 31⟩) := by
  have hi : heightOffset addr 1 < 512 := by
    rw [heightOffset_eq]
    exact Nat.mod_lt _ (by decide)
  have hentry := entry_eq c hfit (by decide : 5 < 6) hi
  have hhigh : bootHigh c.mem base (512 * 5 + heightOffset addr 1) = highHalf c.mem base (512 * 5 + heightOffset addr 1) :=
    if_neg (by omega)
  rw [(bootLow_cases base hi).2.2.2.2.2, hhigh] at hentry
  generalize highHalf c.mem base (512 * 5 + heightOffset addr 1) = h at hentry
  obtain ⟨hp, hw, hhuge, haddr, hx⟩ := ofWord_last (x := 0x40000000 + 0x200000 * heightOffset addr 1) (h := h)
    (by omega) (by omega)
  have hentry : entriesOf (initPtProtected base c).mem (base + 0x5000) (heightOffset addr 1) = _ := hentry
  unfold translateBelow
  simp only [hentry, hp, hhuge, Bool.not_true, Bool.false_eq_true, if_false, if_true]
  rw [if_neg (by decide)]
  simp only [hugeFrame, Rights.meet, bootRights, haddr, hw, hx, Bool.true_and, Bool.false_and]
  congr 2
  omega

end Last

/-! ## What the processor makes of the tables -/

/-- The walk of the processor through the tables in its memory. -/
def Processor.walk (c : Processor) (addr : Nat) : Option (Nat × Rights) :=
  translateBelow (entriesOf c.mem) addr 3 c.cr3 .all

/-- The map the kernel starts with: the first gigabyte to itself, and the last two to the first two. -/
def bootWalk (addr : Nat) : Option (Nat × Rights) :=
  if pageNumber addr < 2 ^ 18 then some (pageNumber addr * 4096, bootRights)
  else if kernelPage ≤ pageNumber addr then some ((pageNumber addr - kernelPage) * 4096, bootRights)
  else none

/-- The upper half of entry `i` of the last table, before the tables are built. -/
def upperHalf (mem : Mem) (base i : Nat) : Nat := load 4 mem (base + 0x5000 + 8 * i + 4)

section Boot

variable {base : Nat} (c : Processor)

theorem highHalf_sixth (mem : Mem) (base i : Nat) : highHalf mem base (512 * 5 + i) = upperHalf mem base i := by
  unfold highHalf upperHalf
  congr 1
  omega

theorem walk_last (halign : base % 4096 = 0) (hfit : base + 0x6000 < 2 ^ 32) {addr : Nat}
    (hlow : lastPage ≤ pageNumber addr) :
    (initPtProtected base c).walk addr =
      some (2 ^ 32 * (upperHalf c.mem base (heightOffset addr 1) % 2 ^ 20) + (pageNumber addr - kernelPage) * 4096,
        ⟨true, false, !(upperHalf c.mem base (heightOffset addr 1)).testBit 31⟩) := by
  have hlt := pageNumber_lt addr
  have hframe : 0x40000000 + 0x200000 * heightOffset addr 1 + addr % 2 ^ 21 / 4096 * 4096 =
      (pageNumber addr - 0xFFFF80000) * 4096 := by
    have hlow : 0xFFFFC0000 ≤ pageNumber addr := hlow
    rw [(heightOffset_page addr).2.2]
    unfold pageNumber at hlow hlt ⊢
    omega
  show translateBelow _ addr 3 base .all = _
  rw [translateBelow_last (fun k hk i hi => entry_bootTables c halign hfit hk hi) hlow, translateBelow_sixth c hfit,
    highHalf_sixth, Nat.add_assoc, hframe]

/-- Up to the last gigabyte the walk does not depend on what the memory held. -/
theorem walk_below_last (halign : base % 4096 = 0) (hfit : base + 0x6000 < 2 ^ 32) {addr : Nat}
    (hlow : pageNumber addr < lastPage) : (initPtProtected base c).walk addr = bootWalk addr := by
  have hboot : ∀ k < 5, ∀ i < 512, _ := fun k hk i hi => entry_bootTables c halign hfit hk hi
  show translateBelow _ addr 3 base .all = _
  unfold bootWalk
  by_cases hkernel : kernelPage ≤ pageNumber addr
  · have hkernel' : 0xFFFF80000 ≤ pageNumber addr := hkernel
    rw [translateBelow_kernel hboot hkernel hlow, if_neg (by omega), if_pos hkernel]
  · rw [translateBelow_below hboot (Nat.lt_of_not_le hkernel), if_neg hkernel]

theorem bootWalk_last {addr : Nat} (hlow : lastPage ≤ pageNumber addr) :
    bootWalk addr = some ((pageNumber addr - kernelPage) * 4096, bootRights) := by
  have hlow : 0xFFFFC0000 ≤ pageNumber addr := hlow
  unfold bootWalk
  rw [if_neg (by omega), if_pos (show 0xFFFF80000 ≤ pageNumber addr by omega)]

/-- The last gigabyte is mapped right if and only if the bytes that are never written were clear. -/
theorem walk_last_iff (halign : base % 4096 = 0) (hfit : base + 0x6000 < 2 ^ 32) :
    (∀ addr, lastPage ≤ pageNumber addr → (initPtProtected base c).walk addr = bootWalk addr) ↔
      ∀ i < 512, upperHalf c.mem base i &&& 0x800FFFFF = 0 := by
  refine ⟨fun h i hi => ?_, fun h addr hlow => ?_⟩
  · -- Some address of the last gigabyte goes through entry `i`.
    have hpage : pageNumber (0xFFFFFFFFC0000000 + 0x200000 * i) = 0xFFFFC0000 + 512 * i := by
      unfold pageNumber
      omega
    have hindex : heightOffset (0xFFFFFFFFC0000000 + 0x200000 * i) 1 = i := by
      rw [(heightOffset_page _).2.2, hpage]
      omega
    have hlow : lastPage ≤ pageNumber (0xFFFFFFFFC0000000 + 0x200000 * i) := by
      rw [hpage]
      exact Nat.le_add_right _ _
    have hwalk := h _ hlow
    rw [walk_last c halign hfit hlow, bootWalk_last hlow, hindex] at hwalk
    obtain ⟨hframe, hrights⟩ := Prod.mk.inj (Option.some.inj hwalk)
    refine upper_bits.mpr ⟨by omega, ?_⟩
    simpa [bootRights] using congrArg Rights.exec hrights
  · obtain ⟨hmod, hbit⟩ := upper_bits.mp (h (heightOffset addr 1) (by
      rw [heightOffset_eq]
      exact Nat.mod_lt _ (by decide)))
    rw [walk_last c halign hfit hlow, bootWalk_last hlow, hmod, hbit, Nat.mul_zero, Nat.zero_add]
    rfl

/-- The tables that `Mm.Vm.Model` starts from give the same map. -/
theorem translate_boot (frames : List Nat) (addr : Nat) : translate (.boot base frames) addr = bootWalk addr := by
  have hboot : ∀ k < 5, ∀ i < 512, bootTables base (base + 0x1000 * k) i = bootTables base (base + 0x1000 * k) i :=
    fun _ _ _ _ => rfl
  show translateBelow (bootTables base) addr 3 base .all = _
  by_cases hlast : lastPage ≤ pageNumber addr
  · have hlt := pageNumber_lt addr
    have hsixth : bootTables base (base + 0x5000) (heightOffset addr 1) =
        hugePage (0x200000 * (512 + heightOffset addr 1)) := by
      rw [Nat.mul_add]
      exact (bootTables_cases base _).2.2.2.2.2
    have hframe : 0x200000 * (512 + heightOffset addr 1) + addr % 2 ^ 21 / 4096 * 4096 =
        (pageNumber addr - 0xFFFF80000) * 4096 := by
      have hlast : 0xFFFFC0000 ≤ pageNumber addr := hlast
      rw [(heightOffset_page addr).2.2]
      unfold pageNumber at hlast hlt ⊢
      omega
    rw [translateBelow_last hboot hlast, translateBelow_hugePage hsixth, hugeFrame_hugePage, hframe,
      bootWalk_last hlast]
    rfl
  · unfold bootWalk
    by_cases hkernel : kernelPage ≤ pageNumber addr
    · have hkernel' : 0xFFFF80000 ≤ pageNumber addr := hkernel
      rw [translateBelow_kernel hboot hkernel (Nat.lt_of_not_le hlast), if_neg (by omega), if_pos hkernel]
    · rw [translateBelow_below hboot (Nat.lt_of_not_le hkernel), if_neg hkernel]

/-- **The tables are those of the abstract address space**, if the bytes that are never written were clear. -/
theorem boot_tables_refined (frames : List Nat) (halign : base % 4096 = 0) (hfit : base + 0x6000 < 2 ^ 32)
    (hclear : ∀ i < 512, upperHalf c.mem base i &&& 0x800FFFFF = 0) (addr : Nat) :
    (initPtProtected base c).walk addr = translate (.boot base frames) addr := by
  rw [translate_boot]
  by_cases hlast : lastPage ≤ pageNumber addr
  · exact (walk_last_iff c halign hfit).mpr hclear addr hlast
  · exact walk_below_last c halign hfit (Nat.lt_of_not_le hlast)

end Boot

end LearningOS.Boot
