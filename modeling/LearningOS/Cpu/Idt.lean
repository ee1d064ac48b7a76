import Mathlib.Data.List.Induction
import LearningOS.Cpu.Isr
import LearningOS.Lib.Bytes

/-!
# `Cpu.Idt` — the interrupt descriptor table, `cpu/idt.c`

`main_idt` is 4096 bytes, sixteen for each vector. `set_idt_gate` takes a handler's address apart into the three fields
a gate has for it, and the processor puts them together again when an interrupt comes: `gateTarget` is what it makes of
the bytes.

* **`idt_gates`** — after `clear_idt` and any calls of `set_idt_gate`, an interrupt goes to the last handler set for
  its vector, and for a vector without one to none;
* `gateTarget_isrInstallGates` — after `isr_install` the first 48 vectors go to their stubs and no other goes anywhere.
-/

namespace LearningOS.Isr

open Bytes

/-! ## The table -/

/-- `KERNEL_CS`. -/
abbrev kernelCodeSelector : Nat := 0x08

/-- `INT_ATTR`. -/
abbrev intAttr : Nat := 0x8E

/-- `sizeof(idt_gate)`. -/
abbrev idtGateSize : Nat := 16

/-- `idt_gate`. -/
structure IdtGate where
  baseLow : Nat
  csSelector : Nat
  zero : Nat
  attributes : Nat
  baseMiddle : Nat
  baseHigh : Nat
  reserved : Nat
deriving DecidableEq, Repr

/-- Where the fields of a gate are. -/
def IdtGate.write (gate : IdtGate) (mem : Mem) (a : Nat) : Mem :=
  let mem := store 2 mem a gate.baseLow
  let mem := store 2 mem (a + 2) gate.csSelector
  let mem := store 1 mem (a + 4) gate.zero
  let mem := store 1 mem (a + 5) gate.attributes
  let mem := store 2 mem (a + 6) gate.baseMiddle
  let mem := store 4 mem (a + 8) gate.baseHigh
  store 4 mem (a + 12) gate.reserved

/-- A gate as it is read. -/
def IdtGate.read (mem : Mem) (a : Nat) : IdtGate :=
  ⟨load 2 mem a, load 2 mem (a + 2), load 1 mem (a + 4), load 1 mem (a + 5), load 2 mem (a + 6), load 4 mem (a + 8),
    load 4 mem (a + 12)⟩

/-- The gate that `set_idt_gate` makes. -/
def idtGate (handlerAddress : Nat) : IdtGate where
  baseLow := (handlerAddress &&& 0xFFFF) % 2 ^ 16
  csSelector := kernelCodeSelector
  zero := 0
  attributes := intAttr
  baseMiddle := ((handlerAddress >>> 16) &&& 0xFFFF) % 2 ^ 16
  baseHigh := ((handlerAddress >>> 32) &&& 0xFFFFFFFF) % 2 ^ 32
  reserved := 0

/-- `set_idt_gate`, for the table at `mainIdt`. -/
def setIdtGate (mainIdt : Nat) (mem : Mem) (gateNumber handlerAddress : Nat) : Mem :=
  (idtGate handlerAddress).write mem (mainIdt + idtGateSize * gateNumber)

/-- `clear_idt`. -/
def clearIdt (mainIdt : Nat) (mem : Mem) : Mem := fun a =>
  if mainIdt ≤ a ∧ a < mainIdt + idtGateSize * idtEntries then 0 else mem a

/-- `idt_register`, as `set_idt` loads it. -/
structure IdtRegister where
  limit : Nat
  base : Nat
deriving DecidableEq, Repr

/-- `set_idt`. -/
def setIdt (mainIdt : Nat) : IdtRegister := ⟨idtEntries * idtGateSize - 1, mainIdt⟩

/-- The part of `isr_install` that fills the table; `isr n` is the address of `_isr_n`. -/
def isrInstallGates (mainIdt : Nat) (isr : Nat → Nat) (mem : Mem) : Mem :=
  (List.range 48).foldl (fun mem n => setIdtGate mainIdt mem n (isr n)) (clearIdt mainIdt mem)

/-! ## The processor -/

/-- The address an interrupt gate leads to: the gate lies inside of the limit, is present, is a gate of type 14 on no
    stack of its own, and has the kernel's code segment. -/
def gateTarget (idtr : IdtRegister) (mem : Mem) (vector : Nat) : Option Nat :=
  let gate := IdtGate.read mem (idtr.base + idtGateSize * vector)
  if idtGateSize * vector + 15 ≤ idtr.limit ∧ gate.attributes / 128 = 1 ∧ gate.attributes % 16 = 14 ∧
      gate.zero % 8 = 0 ∧ gate.csSelector = kernelCodeSelector then
    some (gate.baseLow + 2 ^ 16 * gate.baseMiddle + 2 ^ 32 * gate.baseHigh)
  else none

/-! ## One gate -/

/-- Every field fits its place. -/
structure IdtGate.Fits (gate : IdtGate) : Prop where
  baseLow : gate.baseLow < 2 ^ 16
  csSelector : gate.csSelector < 2 ^ 16
  zero : gate.zero < 2 ^ 8
  attributes : gate.attributes < 2 ^ 8
  baseMiddle : gate.baseMiddle < 2 ^ 16
  baseHigh : gate.baseHigh < 2 ^ 32
  reserved : gate.reserved < 2 ^ 32

/-- **A gate reads back as it was written.** -/
theorem IdtGate.read_write {gate : IdtGate} (h : gate.Fits) (mem : Mem) (a : Nat) :
    IdtGate.read (gate.write mem a) a = gate := by
  obtain ⟨h1, h2, h3, h4, h5, h6, h7⟩ := h
  unfold IdtGate.read IdtGate.write
  simp (disch := omega) only [load_store_of_disjoint, load_store]

theorem IdtGate.write_frame (gate : IdtGate) (mem : Mem) {a x : Nat} (h : Outside idtGateSize a x) :
    gate.write mem a x = mem x := by
  have hparts : ∀ k n, k + n ≤ 16 → Outside n (a + k) x := by
    intro k n hk
    have h : x < a ∨ a + 16 ≤ x := h
    show x < a + k ∨ a + k + n ≤ x
    omega
  unfold IdtGate.write
  rw [store_frame (hparts 12 4 (by decide)), store_frame (hparts 8 4 (by decide)), store_frame (hparts 6 2 (by decide)),
    store_frame (hparts 5 1 (by decide)), store_frame (hparts 4 1 (by decide)), store_frame (hparts 2 2 (by decide))]
  exact store_frame (hparts 0 2 (by decide)) mem gate.baseLow

theorem IdtGate.read_congr {mem mem' : Mem} {a : Nat} (h : ∀ x, a ≤ x → x < a + 16 → mem' x = mem x) :
    IdtGate.read mem' a = IdtGate.read mem a := by
  have hpart : ∀ k n, k + n ≤ 16 → load n mem' (a + k) = load n mem (a + k) :=
    fun k n hk => load_congr (fun x h1 h2 => h x (by omega) (by omega))
  have hfirst : load 2 mem' a = load 2 mem a := hpart 0 2 (by decide)
  unfold IdtGate.read
  rw [hfirst, hpart 2 2 (by decide), hpart 4 1 (by decide), hpart 5 1 (by decide), hpart 6 2 (by decide),
    hpart 8 4 (by decide), hpart 12 4 (by decide)]

theorem idtGate_fits (handlerAddress : Nat) : (idtGate handlerAddress).Fits :=
  ⟨Nat.mod_lt _ (by decide), (by decide : 0x08 < 2 ^ 16), (by decide : 0 < 2 ^ 8), (by decide : 0x8E < 2 ^ 8),
    Nat.mod_lt _ (by decide), Nat.mod_lt _ (by decide), (by decide : 0 < 2 ^ 32)⟩

/-- It is an interrupt gate, and present. -/
theorem idtGate_present (handlerAddress : Nat) :
    (idtGate handlerAddress).attributes / 128 = 1 ∧ (idtGate handlerAddress).attributes % 16 = 14 ∧
      (idtGate handlerAddress).zero % 8 = 0 ∧ (idtGate handlerAddress).csSelector = kernelCodeSelector :=
  ⟨(by decide : 0x8E / 128 = 1), (by decide : 0x8E % 16 = 14), rfl, rfl⟩

/-- The three parts of an address, put together. -/
theorem idtGate_base {handlerAddress : Nat} (h : handlerAddress < 2 ^ 64) :
    (idtGate handlerAddress).baseLow + 2 ^ 16 * (idtGate handlerAddress).baseMiddle +
      2 ^ 32 * (idtGate handlerAddress).baseHigh = handlerAddress := by
  have hlow : handlerAddress &&& 0xFFFF = handlerAddress % 2 ^ 16 := Nat.and_two_pow_sub_one_eq_mod _ 16
  have hmiddle : (handlerAddress >>> 16) &&& 0xFFFF = handlerAddress / 2 ^ 16 % 2 ^ 16 := by
    rw [Nat.shiftRight_eq_div_pow]
    exact Nat.and_two_pow_sub_one_eq_mod _ 16
  have hhigh : (handlerAddress >>> 32) &&& 0xFFFFFFFF = handlerAddress / 2 ^ 32 % 2 ^ 32 := by
    rw [Nat.shiftRight_eq_div_pow]
    exact Nat.and_two_pow_sub_one_eq_mod _ 32
  show (handlerAddress &&& 0xFFFF) % 2 ^ 16 + 2 ^ 16 * (((handlerAddress >>> 16) &&& 0xFFFF) % 2 ^ 16) +
    2 ^ 32 * (((handlerAddress >>> 32) &&& 0xFFFFFFFF) % 2 ^ 32) = handlerAddress
  rw [hlow, hmiddle, hhigh]
  omega

/-! ## Calls -/

section Calls

variable {mainIdt : Nat} {mem : Mem}

/-- **One call**: the gate is set, and no other. -/
theorem read_setIdtGate (v w handlerAddress : Nat) :
    IdtGate.read (setIdtGate mainIdt mem v handlerAddress) (mainIdt + idtGateSize * w) =
      if v = w then idtGate handlerAddress else IdtGate.read mem (mainIdt + idtGateSize * w) := by
  by_cases hvw : v = w
  · rw [if_pos hvw, hvw]
    exact IdtGate.read_write (idtGate_fits handlerAddress) mem _
  · rw [if_neg hvw]
    refine IdtGate.read_congr (fun x h1 h2 => IdtGate.write_frame _ _ ?_)
    show x < mainIdt + 16 * v ∨ mainIdt + 16 * v + 16 ≤ x
    have h1 : mainIdt + 16 * w ≤ x := h1
    have h2 : x < mainIdt + 16 * w + 16 := h2
    omega

/-- An address set for a gate is where the gate leads. -/
theorem gateTarget_of_read {v handlerAddress : Nat} (hv : v < idtEntries) (hh : handlerAddress < 2 ^ 64)
    (h : IdtGate.read mem (mainIdt + idtGateSize * v) = idtGate handlerAddress) :
    gateTarget (setIdt mainIdt) mem v = some handlerAddress := by
  have hv : v < 256 := hv
  have hlimit : 16 * v + 15 ≤ 256 * 16 - 1 := by omega
  unfold gateTarget setIdt
  dsimp only
  rw [h, if_pos ⟨hlimit, idtGate_present handlerAddress⟩, idtGate_base hh]

/-- A gate of zeros is not present. -/
theorem gateTarget_of_cleared {v : Nat} (h : (IdtGate.read mem (mainIdt + idtGateSize * v)).attributes = 0) :
    gateTarget (setIdt mainIdt) mem v = none := by
  unfold gateTarget setIdt
  dsimp only
  rw [h, if_neg]
  exact fun hpresent => absurd hpresent.2.1 (by decide)

theorem read_clearIdt {v : Nat} (hv : v < idtEntries) :
    IdtGate.read (clearIdt mainIdt mem) (mainIdt + idtGateSize * v) = ⟨0, 0, 0, 0, 0, 0, 0⟩ := by
  have hv : v < 256 := hv
  have hzero : IdtGate.read (clearIdt mainIdt mem) (mainIdt + idtGateSize * v) =
      IdtGate.read (fun _ => 0) (mainIdt + idtGateSize * v) := by
    apply IdtGate.read_congr
    intro x h1 h2
    have h1 : mainIdt + 16 * v ≤ x := h1
    have h2 : x < mainIdt + 16 * v + 16 := h2
    exact if_pos (show mainIdt ≤ x ∧ x < mainIdt + 16 * 256 by omega)
  rw [hzero]
  rfl

/-- The calls of `set_idt_gate` one after the other. -/
def setIdtGates (mainIdt : Nat) (calls : List (Nat × Nat)) (mem : Mem) : Mem :=
  calls.foldl (fun mem call => setIdtGate mainIdt mem call.1 call.2) mem

/-- The handler of the last call for a vector. -/
def lastSet (calls : List (Nat × Nat)) (v : Nat) : Option Nat :=
  (calls.reverse.find? (fun call => call.1 = v)).map Prod.snd

theorem lastSet_concat (calls : List (Nat × Nat)) (v w handlerAddress : Nat) :
    lastSet (calls ++ [(v, handlerAddress)]) w = if v = w then some handlerAddress else lastSet calls w := by
  unfold lastSet
  rw [List.reverse_append, List.reverse_singleton, List.singleton_append, List.find?_cons]
  by_cases hvw : v = w
  · simp [hvw]
  · simp [hvw]

/-- The gates of a table after a run of calls. -/
theorem read_setIdtGates (calls : List (Nat × Nat)) {w : Nat} (hw : w < idtEntries) :
    IdtGate.read (setIdtGates mainIdt calls (clearIdt mainIdt mem)) (mainIdt + idtGateSize * w) =
      match lastSet calls w with
      | some handlerAddress => idtGate handlerAddress
      | none => ⟨0, 0, 0, 0, 0, 0, 0⟩ := by
  induction calls using List.reverseRecOn with
  | nil => exact read_clearIdt hw
  | append_singleton calls call ih =>
      rw [setIdtGates, List.foldl_concat, read_setIdtGate, lastSet_concat]
      by_cases hvw : call.1 = w
      · rw [if_pos hvw, if_pos hvw]
      · rw [if_neg hvw, if_neg hvw]
        exact ih

theorem lastSet_mem {calls : List (Nat × Nat)} {v handlerAddress : Nat} (h : lastSet calls v = some handlerAddress) :
    (v, handlerAddress) ∈ calls := by
  obtain ⟨call, hfound, rfl⟩ := Option.map_eq_some_iff.mp h
  have hv : call.1 = v := by simpa using List.find?_some hfound
  rw [← hv]
  exact List.mem_reverse.mp (List.mem_of_find?_eq_some hfound)

theorem gateTarget_setIdtGates {calls : List (Nat × Nat)} (hcalls : ∀ call ∈ calls, call.2 < 2 ^ 64) {v : Nat}
    (hv : v < idtEntries) :
    gateTarget (setIdt mainIdt) (setIdtGates mainIdt calls (clearIdt mainIdt mem)) v = lastSet calls v := by
  have hread : IdtGate.read (setIdtGates mainIdt calls (clearIdt mainIdt mem)) _ = _ := read_setIdtGates calls hv
  cases hlast : lastSet calls v with
  | none =>
      rw [hlast] at hread
      exact gateTarget_of_cleared (by rw [hread])
  | some handlerAddress =>
      rw [hlast] at hread
      exact gateTarget_of_read hv (hcalls _ (lastSet_mem hlast)) hread

/-- Calls for gates of the table write nothing else. -/
theorem setIdtGates_frame {calls : List (Nat × Nat)} (hcalls : ∀ call ∈ calls, call.1 < idtEntries) {x : Nat}
    (hx : Outside (idtGateSize * idtEntries) mainIdt x) :
    setIdtGates mainIdt calls (clearIdt mainIdt mem) x = mem x := by
  have hx : x < mainIdt ∨ mainIdt + 16 * 256 ≤ x := hx
  induction calls using List.reverseRecOn with
  | nil => exact if_neg (show ¬ (mainIdt ≤ x ∧ x < mainIdt + 16 * 256) by omega)
  | append_singleton calls call ih =>
      have hv : call.1 < 256 := hcalls call (by simp)
      have houtside : Outside idtGateSize (mainIdt + idtGateSize * call.1) x := by
        show x < mainIdt + 16 * call.1 ∨ mainIdt + 16 * call.1 + 16 ≤ x
        omega
      rw [setIdtGates, List.foldl_concat, setIdtGate, IdtGate.write_frame _ _ houtside]
      exact ih (fun c hc => hcalls c (List.mem_append_left _ hc))

end Calls

/-- **The table after any calls.** With `clear_idt` first and then `set_idt_gate` for any gates and handlers, the
    processor goes from each vector to the handler that was set last, and nowhere if none was set; no byte outside of
    the table is written. -/
theorem idt_gates (mainIdt : Nat) (mem : Mem) (calls : List (Nat × Nat))
    (hcalls : ∀ call ∈ calls, call.1 < idtEntries ∧ call.2 < 2 ^ 64) :
    (∀ v < idtEntries,
      gateTarget (setIdt mainIdt) (setIdtGates mainIdt calls (clearIdt mainIdt mem)) v = lastSet calls v) ∧
    ∀ x, Outside (idtGateSize * idtEntries) mainIdt x →
      setIdtGates mainIdt calls (clearIdt mainIdt mem) x = mem x :=
  ⟨fun _ hv => gateTarget_setIdtGates (fun call hcall => (hcalls call hcall).2) hv,
    fun _ hx => setIdtGates_frame (fun call hcall => (hcalls call hcall).1) hx⟩

/-- The page-fault gate set twice. -/
theorem idt_gates_set_twice :
    (∀ v < idtEntries,
      gateTarget (setIdt 0x1000) (setIdtGates 0x1000 [(14, 0xFFFF800000101234), (14, 0xFFFF800000105678)]
        (clearIdt 0x1000 fun _ => 170)) v = lastSet [(14, 0xFFFF800000101234), (14, 0xFFFF800000105678)] v) ∧
    ∀ x, Outside (idtGateSize * idtEntries) 0x1000 x →
      setIdtGates 0x1000 [(14, 0xFFFF800000101234), (14, 0xFFFF800000105678)] (clearIdt 0x1000 fun _ => 170) x = 170 :=
  idt_gates 0x1000 (fun _ => 170) _ (by decide)

/-! ## After `isr_install` -/

theorem isrInstallGates_eq (mainIdt : Nat) (isr : Nat → Nat) (mem : Mem) :
    isrInstallGates mainIdt isr mem =
      setIdtGates mainIdt ((List.range 48).map fun n => (n, isr n)) (clearIdt mainIdt mem) := by
  unfold isrInstallGates setIdtGates
  rw [List.foldl_map]

theorem lastSet_range (isr : Nat → Nat) (n v : Nat) :
    lastSet ((List.range n).map fun n => (n, isr n)) v = if v < n then some (isr v) else none := by
  induction n with
  | zero => rfl
  | succ n ih =>
      rw [List.range_succ, List.map_append, List.map_singleton, lastSet_concat, ih]
      by_cases hv : n = v
      · rw [if_pos hv, if_pos (by omega), hv]
      · rw [if_neg hv]
        by_cases hlt : v < n
        · rw [if_pos hlt, if_pos (by omega)]
        · rw [if_neg hlt, if_neg (by omega)]

/-- **The table after `isr_install`**: the first 48 vectors go to their stubs. -/
theorem gateTarget_isrInstallGates (mainIdt : Nat) {isr : Nat → Nat} (hisr : ∀ n < 48, isr n < 2 ^ 64) (mem : Mem)
    {v : Nat} (hv : v < idtEntries) :
    gateTarget (setIdt mainIdt) (isrInstallGates mainIdt isr mem) v = if v < 48 then some (isr v) else none := by
  rw [isrInstallGates_eq, gateTarget_setIdtGates _ hv, lastSet_range]
  intro call hcall
  obtain ⟨n, hn, rfl⟩ := List.mem_map.mp hcall
  exact hisr n (List.mem_range.mp hn)

end LearningOS.Isr
