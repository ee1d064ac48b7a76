import LearningOS.Driver.Console
import LearningOS.Log.Format
import LearningOS.Mm.BootRegions

/-!
# `Mm.PrintMmap` — the table that `print_boot_mmap` prints

A headline, and a line for each entry that is read from the memory map: its base, its length and its type. `mmapTable`
is that table with any number in the place of a length. The length is printed as an `int`, so what stands there are the
low 32 bits of it with their sign.

* **`boot_mmap_table_iff`** — what is printed, and that it is the table of the memory map exactly when every region is
  shorter than 2 GiB;
* **`boot_mmap_on_screen`** — what of it the screen shows.
-/

namespace LearningOS

open Bytes Log Numeral Run Word

/-! ## The function -/

/-- The last argument of the call that the `switch` over the type comes to. -/
def regionType (type : Nat) : List Nat :=
  match type with
  | 1 => ascii "Free Space"
  | 2 => ascii "Reserved"
  | 3 => ascii "ACPI Reclaimable"
  | 4 => ascii "ACPI NVS Memory"
  | 5 => ascii "Bad Memory"
  | _ => ascii "Unknown Type"

/-- The arguments of that call: the address, the length, and the literal, which stands at some address. -/
def entryArgs (literal : Nat) (entry : MmapEntry) : VaList :=
  ⟨fun n => [entry.addr, entry.len, literal].getD n 0, fun _ => regionType entry.type⟩

/-- The loop of `print_boot_mmap`, with the memory that the `n`-th call of `printk` finds. -/
def printEntries (kmalloc : Nat → Kmallocs) (literal : Nat) : Nat → List MmapEntry → Except PrintkFault (List Nat)
  | _, [] => .ok []
  | n, entry :: entries =>
    vprintk (kmalloc n) (ascii "%#014.12llx | %16d | %s\n") (entryArgs literal entry) >>= fun line =>
      printEntries kmalloc literal (n + 1) entries >>= fun lines => .ok (line ++ lines)

/-- `print_boot_mmap`, with what `boot_tag_by_type` has given: what is put out. -/
def printBootMmap (kmalloc : Nat → Kmallocs) (literal : Nat) (mem : Mem) (tag : Nat) :
    Except PrintkFault (List Nat) :=
  vprintk (kmalloc 0) (ascii "Base Address   | Region Length    | Region Type\n") ⟨fun _ => 0, fun _ => []⟩ >>=
    fun headline =>
      printEntries kmalloc literal 1 (tagEntries mem tag mmapEntrySize (numMmapEntries mem tag)) >>= fun lines =>
        .ok (headline ++ lines)

/-! ## The table -/

/-- A number in decimal, right-justified in sixteen columns. -/
def column16 (n : Int) : List Nat :=
  let text := (if n < 0 then [45] else []) ++ numeral 10 n.natAbs
  List.replicate (16 - text.length) 32 ++ text

/-- What stands in a line, with the number in the place of the length. -/
def entryLine (entry : MmapEntry) (len : Int) : List Nat :=
  ascii "0x" ++ zeroPad 12 (numeral 16 entry.addr) ++ ascii " | " ++ column16 len ++ ascii " | " ++
    regionType entry.type

/-- The table, with a number for each length. -/
def mmapTable (len : MmapEntry → Int) (entries : List MmapEntry) : List Nat :=
  ascii "Base Address   | Region Length    | Region Type\n" ++
    entries.flatMap fun entry => entryLine entry (len entry) ++ [10]

/-- The length as it is printed: as an `int`. -/
def shownLength (entry : MmapEntry) : Int := (entry.len : Int).bmod (2 ^ 32)

/-! ## What is printed -/

/-- `%#014.12llx`. -/
def baseDirective : Directive := ⟨[.hash, .zero], 14, some 12, .ll, .x⟩

/-- `%16d`. -/
def lengthDirective : Directive := ⟨[], 16, none, .none, .d⟩

/-- `%s`. -/
def typeDirective : Directive := ⟨[], 0, none, .none, .s⟩

/-- The format of a line, in pieces. -/
def linePieces : List Piece :=
  [.directive baseDirective, .char 32, .char 124, .char 32, .directive lengthDirective, .char 32, .char 124, .char 32,
    .directive typeDirective, .char 10]

theorem linePieces_render : renderAll linePieces = ascii "%#014.12llx | %16d | %s\n" := by
  decide

/-- There is no single `h` in it. -/
theorem linePieces_asRead : linePieces.map Piece.asRead = linePieces := rfl

theorem signedArg_length (entry : MmapEntry) : signedArg 0 entry.len = shownLength entry := signedArg_int (by decide) _

theorem shownLength_bounds (entry : MmapEntry) : -2 ^ 31 ≤ shownLength entry ∧ shownLength entry < 2 ^ 31 := by
  have hlow := Int.le_bmod (x := (entry.len : Int)) (Nat.two_pow_pos 32)
  have hhigh := Int.bmod_lt (x := (entry.len : Int)) (Nat.two_pow_pos 32)
  unfold shownLength
  omega

theorem shownLength_ne_least (entry : MmapEntry) : shownLength entry ≠ -2 ^ 63 := by
  have hlow := (shownLength_bounds entry).1
  omega

/-- The prefix and twelve digits or more fill the width. -/
theorem base_printf (args : VaList) {addr : Nat} (haddr : addr < 2 ^ 64) :
    baseDirective.printf args addr = ascii "0x" ++ zeroPad 12 (numeral 16 addr) := by
  have hargs : unsignedArg 76 addr = addr := Nat.mod_eq_of_lt haddr
  have hlen : 14 ≤ (ascii "0x" ++ zeroPad 12 (numeral 16 addr)).length := by
    rw [zeroPad, List.length_append, List.length_append, List.length_replicate]
    show 14 ≤ 2 + _
    omega
  show printfUnsigned (unsignedArg 76 addr) baseDirective.expected 16 = _
  rw [hargs]
  show List.replicate (14 - (ascii "0x" ++ zeroPad 12 (numeral 16 addr)).length) 32 ++
    (ascii "0x" ++ zeroPad 12 (numeral 16 addr)) = _
  rw [Nat.sub_eq_zero_of_le hlen]
  rfl

theorem length_printf (args : VaList) (entry : MmapEntry) :
    lengthDirective.printf args entry.len = column16 (shownLength entry) := by
  have hzero : ∀ digits, zeroPad 0 digits = digits := by
    intro digits
    rw [zeroPad, Nat.zero_sub]
    rfl
  show printfSigned (signedArg 0 entry.len) lengthDirective.expected = _
  rw [signedArg_length]
  generalize shownLength entry = n
  show List.replicate (16 - ((if n < 0 then [45] else []) ++ zeroPad 0 (numeral 10 n.natAbs)).length) 32 ++
    ((if n < 0 then [45] else []) ++ zeroPad 0 (numeral 10 n.natAbs)) = _
  rw [hzero]
  rfl

theorem type_printf (args : VaList) (literal : Nat) : typeDirective.printf args literal = args.string literal := by
  show printfString (args.string literal) typeDirective = args.string literal
  exact printfString_eq (Nat.zero_le _) (fun q hq => by cases hq)

/-- The separators of a line, put together. -/
theorem line_assoc (a b c t : List Nat) : a ++ b ++ 32 :: 124 :: 32 :: (c ++ 32 :: 124 :: 32 :: (t ++ [10])) =
    a ++ b ++ [32, 124, 32] ++ c ++ [32, 124, 32] ++ t ++ [10] := by
  simp only [List.append_assoc, List.cons_append, List.nil_append]

/-- **A line** is what `printf` prints for its pieces. -/
theorem linePieces_printf (literal : Nat) {entry : MmapEntry} (haddr : entry.addr < 2 ^ 64) :
    printfFrom (entryArgs literal entry) 0 linePieces = entryLine entry (shownLength entry) ++ [10] := by
  have hbase : (entryArgs literal entry).slot 0 = entry.addr := rfl
  have hlength : (entryArgs literal entry).slot (0 + 1) = entry.len := rfl
  have htype : (entryArgs literal entry).string ((entryArgs literal entry).slot (0 + 1 + 1)) = regionType entry.type :=
    rfl
  have hbar : ascii " | " = [32, 124, 32] := by decide
  unfold linePieces
  simp only [printfFrom, type_printf, hbase, base_printf _ haddr, hlength, length_printf, htype]
  unfold entryLine
  rw [hbar]
  exact line_assoc _ _ _ _

theorem linePieces_faithful (literal : Nat) (entry : MmapEntry) :
    FaithfulFrom (entryArgs literal entry) 0 linePieces := by
  have hbase : baseDirective.Faithful (entryArgs literal entry) entry.addr := by
    refine ⟨by decide, ?_, ⟨fun h => absurd h.2.1 (by decide), fun h => absurd h.2.2.1 (by decide)⟩⟩
    intro q hq
    cases hq
    decide
  have hlength : lengthDirective.Faithful (entryArgs literal entry) entry.len := by
    have hok : SignedOk (signedArg 0 entry.len) lengthDirective.expected := by
      rw [signedArg_length]
      exact ⟨shownLength_ne_least entry, fun _ => .inr (.inr (by decide))⟩
    exact ⟨by decide, (fun q hq => by cases hq), hok⟩
  have htype : typeDirective.Faithful (entryArgs literal entry) literal :=
    ⟨by decide, (fun q hq => by cases hq), Nat.zero_le _, fun q hq => by cases hq⟩
  have hblank : (32 : Nat) ≠ 0 ∧ (32 : Nat) ≠ 37 := by decide
  have hbar : (124 : Nat) ≠ 0 ∧ (124 : Nat) ≠ 37 := by decide
  exact ⟨hbase, hblank.1, hblank.2, hbar.1, hbar.2, hblank.1, hblank.2, hlength, hblank.1, hblank.2, hbar.1, hbar.2,
    hblank.1, hblank.2, htype, by decide, by decide, trivial⟩

/-- One call of `printk` for an entry. -/
theorem printk_entry {kmalloc : Kmallocs} (hk : Serves kmalloc) (literal : Nat) {entry : MmapEntry}
    (haddr : entry.addr < 2 ^ 64) :
    vprintk kmalloc (ascii "%#014.12llx | %16d | %s\n") (entryArgs literal entry) =
      .ok (entryLine entry (shownLength entry) ++ [10]) := by
  rw [← linePieces_printf literal haddr, ← linePieces_render]
  have hp := linePieces_faithful literal entry
  rw [← linePieces_asRead] at hp ⊢
  exact vprintkLoop_faithful hk [] hp (Nat.lt_succ_self _)

/-- The loop prints a line for each entry. -/
theorem printEntries_eq {kmalloc : Nat → Kmallocs} (hk : ∀ n, Serves (kmalloc n)) (literal : Nat)
    {entries : List MmapEntry} (haddr : ∀ entry ∈ entries, entry.addr < 2 ^ 64) (n : Nat) :
    printEntries kmalloc literal n entries =
      .ok (entries.flatMap fun entry => entryLine entry (shownLength entry) ++ [10]) := by
  induction entries generalizing n with
  | nil => rfl
  | cons entry entries ih =>
      rw [printEntries, printk_entry (hk n) literal (haddr entry List.mem_cons_self), ok_bind,
        ih (fun e he => haddr e (List.mem_cons_of_mem _ he)), ok_bind, List.flatMap_cons]

theorem tagEntries_addr_lt {mem : Mem} {tag stride count : Nat} {entry : MmapEntry}
    (h : entry ∈ tagEntries mem tag stride count) : entry.addr < 2 ^ 64 := by
  obtain ⟨i, -, rfl⟩ := List.mem_map.mp h
  exact load_lt 8 mem _

/-- A format without a percent sign is put out as it is. -/
theorem faithful_chars (args : VaList) (taken : Nat) {text : List Nat} (h : ∀ c ∈ text, c ≠ 0 ∧ c ≠ 37) :
    FaithfulFrom args taken ((text.map Piece.char).map Piece.asRead) ∧
      printfFrom args taken ((text.map Piece.char).map Piece.asRead) = text ∧ renderAll (text.map Piece.char) = text := by
  induction text with
  | nil => exact ⟨trivial, rfl, rfl⟩
  | cons c text ih =>
      obtain ⟨hp, hprintf, hrender⟩ := ih (fun e he => h e (List.mem_cons_of_mem c he))
      obtain ⟨h0, hpercent⟩ := h c List.mem_cons_self
      refine ⟨⟨h0, hpercent, hp⟩, congrArg (c :: ·) hprintf, ?_⟩
      rw [List.map_cons, renderAll_cons, hrender]
      rfl

theorem printk_chars {kmalloc : Kmallocs} (hk : Serves kmalloc) (args : VaList) {text : List Nat}
    (h : ∀ c ∈ text, c ≠ 0 ∧ c ≠ 37) : vprintk kmalloc text args = .ok text := by
  obtain ⟨hp, hprintf, hrender⟩ := faithful_chars args 0 h
  have hrun : vprintk kmalloc (renderAll (text.map Piece.char)) args = _ :=
    vprintkLoop_faithful hk [] hp (Nat.lt_succ_self _)
  rw [hprintf, hrender] at hrun
  exact hrun

/-- **The whole function**: the headline and the lines. -/
theorem printBootMmap_eq {kmalloc : Nat → Kmallocs} (hk : ∀ n, Serves (kmalloc n)) (literal : Nat) (mem : Mem)
    (tag : Nat) :
    printBootMmap kmalloc literal mem tag =
      .ok (mmapTable shownLength (tagEntries mem tag mmapEntrySize (numMmapEntries mem tag))) := by
  have hplain : ∀ c ∈ ascii "Base Address   | Region Length    | Region Type\n", c ≠ 0 ∧ c ≠ 37 := by decide
  rw [printBootMmap, printk_chars (hk 0) _ hplain, ok_bind,
    printEntries_eq hk literal (fun entry hentry => tagEntries_addr_lt hentry), ok_bind]
  rfl

/-! ## Reading the table -/

/-- Lines that end at their first newline are told apart. -/
theorem line_inj {a : Nat} {xs ys s t : List Nat} (hx : a ∉ xs) (hy : a ∉ ys) :
    xs ++ a :: s = ys ++ a :: t ↔ xs = ys ∧ s = t := by
  induction xs generalizing ys with
  | nil =>
      cases ys with
      | nil => simp
      | cons y ys =>
          have hne : a ≠ y := fun h => hy (h ▸ List.mem_cons_self)
          simp [hne]
  | cons x xs ih =>
      cases ys with
      | nil =>
          have hne : x ≠ a := fun h => hx (h ▸ List.mem_cons_self)
          simp [hne]
      | cons y ys =>
          rw [List.cons_append, List.cons_append, List.cons.injEq, List.cons.injEq,
            ih (fun h => hx (List.mem_cons_of_mem x h)) (fun h => hy (List.mem_cons_of_mem y h)), and_assoc]

theorem mem_column16 {n : Int} {c : Nat} (h : c ∈ column16 n) : c = 32 ∨ c = 45 ∨ c ∈ numeral 10 n.natAbs := by
  unfold column16 at h
  dsimp only at h
  rw [List.mem_append, List.mem_append] at h
  rcases h with h | h | h
  · exact .inl (List.eq_of_mem_replicate h)
  · split at h
    · exact .inr (.inl (List.mem_singleton.mp h))
    · exact absurd h List.not_mem_nil
  · exact .inr (.inr h)

/-- There is no control character in a line. -/
theorem entryLine_ge {entry : MmapEntry} {len : Int} {c : Nat} (hc : c ∈ entryLine entry len) : 32 ≤ c := by
  have hbar : ∀ c ∈ ascii " | ", 32 ≤ c := by decide
  have hprefix : ∀ c ∈ ascii "0x", 32 ≤ c := by decide
  have hnumeral : ∀ {base n}, c ∈ numeral base n → 32 ≤ c := fun h => Nat.le_trans (by decide) (numeral_ge h)
  have htype : ∀ c ∈ regionType entry.type, 32 ≤ c := by
    unfold regionType
    split <;> decide
  unfold entryLine zeroPad at hc
  simp only [List.mem_append] at hc
  rcases hc with ((((hc | hc | hc) | hc) | hc) | hc) | hc
  · exact hprefix c hc
  · rw [List.eq_of_mem_replicate hc]
    decide
  · exact hnumeral hc
  · exact hbar c hc
  · rcases mem_column16 hc with rfl | rfl | hc
    · decide
    · decide
    · exact hnumeral hc
  · exact hbar c hc
  · exact htype c hc

theorem newline_notMem_entryLine (entry : MmapEntry) (len : Int) : 10 ∉ entryLine entry len :=
  fun h => absurd (entryLine_ge h) (by decide)

/-- Without its blanks a column is the number. -/
theorem column16_filter (n : Int) :
    (column16 n).filter (· ≠ 32) = (if n < 0 then [45] else []) ++ numeral 10 n.natAbs := by
  have hnumeral : ∀ c ∈ numeral 10 n.natAbs, c ≠ 32 := fun c hc h => absurd (numeral_ge hc) (by rw [h]; decide)
  unfold column16
  dsimp only
  rw [List.filter_append, List.filter_append]
  have hblanks : ∀ k, (List.replicate k 32).filter (· ≠ 32) = [] := by
    intro k
    rw [List.filter_eq_nil_iff]
    intro c hc
    simp [List.eq_of_mem_replicate hc]
  have hself : (numeral 10 n.natAbs).filter (· ≠ 32) = numeral 10 n.natAbs := by
    rw [List.filter_eq_self]
    intro c hc
    simpa using hnumeral c hc
  rw [hblanks, hself, List.nil_append]
  split <;> rfl

theorem column16_inj {n m : Int} (h : column16 n = column16 m) : n = m := by
  have htext := congrArg (List.filter (· ≠ 32)) h
  rw [column16_filter, column16_filter] at htext
  have hsame : ∀ {a b : Nat}, numeral 10 a = numeral 10 b → a = b := by
    intro a b hab
    rw [← readFrom_numeral a, hab, readFrom_numeral]
  have hminus : ∀ a s, numeral 10 a ≠ 45 :: s := by
    intro a s ha
    exact absurd (numeral_ge (ha ▸ List.mem_cons_self : 45 ∈ numeral 10 a)) (by decide)
  by_cases hn : n < 0
  · by_cases hm : m < 0
    · rw [if_pos hn, if_pos hm] at htext
      have habs := hsame (List.cons.inj htext).2
      omega
    · rw [if_pos hn, if_neg hm] at htext
      exact absurd htext.symm (hminus _ _)
  · by_cases hm : m < 0
    · rw [if_neg hn, if_pos hm] at htext
      exact absurd htext (hminus _ _)
    · rw [if_neg hn, if_neg hm] at htext
      have habs := hsame htext
      omega

theorem entryLine_inj {entry : MmapEntry} {len len' : Int} : entryLine entry len = entryLine entry len' ↔ len = len' := by
  constructor
  · intro h
    unfold entryLine at h
    simp only [List.append_assoc, List.append_cancel_left_eq, List.append_cancel_right_eq] at h
    exact column16_inj h
  · intro h
    rw [h]

/-- Tables of the same entries are the same if and only if they have the same numbers for the lengths. -/
theorem mmapTable_inj {len len' : MmapEntry → Int} {entries : List MmapEntry} :
    mmapTable len entries = mmapTable len' entries ↔ ∀ entry ∈ entries, len entry = len' entry := by
  unfold mmapTable
  rw [List.append_cancel_left_eq]
  induction entries with
  | nil => simp
  | cons entry entries ih =>
      rw [List.flatMap_cons, List.flatMap_cons, List.append_assoc, List.append_assoc, List.singleton_append,
        List.singleton_append,
        line_inj (newline_notMem_entryLine entry _) (newline_notMem_entryLine entry _), entryLine_inj, ih,
        List.forall_mem_cons]

theorem shownLength_eq_iff (entry : MmapEntry) : shownLength entry = entry.len ↔ entry.len < 2 ^ 31 := by
  constructor
  · intro h
    have hlt := (shownLength_bounds entry).2
    omega
  · intro h
    exact Int.bmod_eq_of_le (by omega) (by omega)

/-- **What `print_boot_mmap` prints**: the table of the entries that are read, each length as an `int`. It is the table
    of their lengths if and only if all of them are below 2 GiB. -/
theorem boot_mmap_table_iff (kmalloc : Nat → Kmallocs) (hk : ∀ n, Serves (kmalloc n)) (literal : Nat) (mem : Mem)
    (tag : Nat) :
    printBootMmap kmalloc literal mem tag =
      .ok (mmapTable shownLength (tagEntries mem tag mmapEntrySize (numMmapEntries mem tag))) ∧
    (printBootMmap kmalloc literal mem tag =
        .ok (mmapTable (fun entry => entry.len) (tagEntries mem tag mmapEntrySize (numMmapEntries mem tag))) ↔
      ∀ entry ∈ tagEntries mem tag mmapEntrySize (numMmapEntries mem tag), entry.len < 2 ^ 31) := by
  have heq := printBootMmap_eq hk literal mem tag
  refine ⟨heq, ?_⟩
  rw [heq, Except.ok.injEq, mmapTable_inj]
  simp only [shownLength_eq_iff]

/-- A memory map of one usable entry, of 3 GiB from 1 MiB on. -/
def threeGiB : Mem := fun a =>
  ([6, 0, 0, 0, 40, 0, 0, 0, 24, 0, 0, 0, 0, 0, 0, 0,
    0, 0, 16, 0, 0, 0, 0, 0, 0, 0, 0, 192, 0, 0, 0, 0, 1, 0, 0, 0, 0, 0, 0, 0] : List UInt8).getD a 0

/-- Of 3 GiB it prints `-1073741824`. -/
theorem boot_mmap_of_three_GiB :
    printBootMmap (fun _ => sampleKmallocs) 0 threeGiB 0 ≠
      .ok (mmapTable (fun entry => entry.len) (tagEntries threeGiB 0 mmapEntrySize (numMmapEntries threeGiB 0))) := by
  rw [ne_eq, (boot_mmap_table_iff (fun _ => sampleKmallocs) (fun _ => sampleKmallocs_serve) 0 threeGiB 0).2]
  decide

/-! ## On the screen -/

/-- `__printk_putchar`, for a string: in the colours of the log, white on black. -/
def printkPuts (s : Vga.Screen) (out : List Nat) : Vga.Screen := Vga.kputstr s out 15 0

/-- The rows of the table. -/
def mmapRows (entries : List MmapEntry) : List (List Nat) :=
  ascii "Base Address   | Region Length    | Region Type" ::
    entries.map fun entry => entryLine entry (shownLength entry)

theorem column16_shownLength (entry : MmapEntry) : (column16 (shownLength entry)).length = 16 := by
  have hlen : (numeral 10 (shownLength entry).natAbs).length ≤ 10 := by
    obtain ⟨hlow, hhigh⟩ := shownLength_bounds entry
    exact numeral_length_le (by decide) (by decide) (by omega)
  have hsign : (if shownLength entry < 0 then [45] else ([] : List Nat)).length ≤ 1 := by
    split <;> decide
  unfold column16
  dsimp only
  rw [List.length_append, List.length_replicate, List.length_append]
  omega

/-- Every line of the table is shorter than a row. -/
theorem entryLine_short {entry : MmapEntry} (haddr : entry.addr < 2 ^ 64) :
    Vga.ShortLine (entryLine entry (shownLength entry)) := by
  have hbase : (numeral 16 entry.addr).length ≤ 16 :=
    numeral_length_le (by decide) (by decide) (Nat.lt_of_lt_of_le haddr (by decide))
  have htype : (regionType entry.type).length ≤ 16 := by
    unfold regionType
    split <;> decide
  have hbar : (ascii " | ").length = 3 := by decide
  have hprefix : (ascii "0x").length = 2 := by decide
  constructor
  · unfold entryLine zeroPad
    simp only [List.length_append, List.length_replicate, column16_shownLength, hbar, hprefix]
    omega
  · intro c hc
    have hge := entryLine_ge hc
    unfold Vga.Printed
    omega

theorem mmapRows_text (entries : List MmapEntry) :
    (mmapRows entries).flatMap (· ++ [10]) = mmapTable shownLength entries := by
  have hheadline : ascii "Base Address   | Region Length    | Region Type" ++ [10] =
      ascii "Base Address   | Region Length    | Region Type\n" := by decide
  unfold mmapRows mmapTable
  rw [List.flatMap_cons, hheadline, List.flatMap_map]

theorem mmapRows_short {entries : List MmapEntry} (haddr : ∀ entry ∈ entries, entry.addr < 2 ^ 64) :
    ∀ line ∈ mmapRows entries, Vga.ShortLine line := by
  intro line hline
  rcases List.mem_cons.mp hline with rfl | hline
  · unfold Vga.ShortLine Vga.Printed
    decide
  · obtain ⟨entry, hentry, rfl⟩ := List.mem_map.mp hline
    exact entryLine_short (haddr entry hentry)

/-- **The boot map on the screen.** Printed on a cleared screen, the table is shown from its headline on as far as its
    last 24 rows go, with the cursor in the row behind them. -/
theorem boot_mmap_on_screen (kmalloc : Nat → Kmallocs) (hk : ∀ n, Serves (kmalloc n)) (literal : Nat) (mem : Mem)
    (tag : Nat) (s : Vga.Screen) :
    ∃ out, printBootMmap kmalloc literal mem tag = .ok out ∧
      ∀ i j, i < 25 → j < 80 →
        (printkPuts (Vga.clearwin (Vga.setCursorPos s 0 0) 15 0) out).textArea (80 * i + j) =
          ⟨((mmapRows (tagEntries mem tag mmapEntrySize (numMmapEntries mem tag)) ++ [[]]).getD
            (numMmapEntries mem tag + 1 - 24 + i) []).getD j 32, 15⟩ := by
  refine ⟨_, printBootMmap_eq hk literal mem tag, ?_⟩
  intro i j hi hj
  have hshort : ∀ line ∈ mmapRows (tagEntries mem tag mmapEntrySize (numMmapEntries mem tag)), Vga.ShortLine line :=
    mmapRows_short (fun entry hentry => tagEntries_addr_lt hentry)
  have hlen : (mmapRows (tagEntries mem tag mmapEntrySize (numMmapEntries mem tag))).length =
      numMmapEntries mem tag + 1 := by
    unfold mmapRows tagEntries
    rw [List.length_cons, List.length_map, List.length_map, List.length_range]
  have hstyle : Vga.vgaColor 15 0 = 15 := by decide
  rw [printkPuts, ← mmapRows_text, Vga.textArea_lines s 15 0 hshort hi hj, hlen, hstyle]

/-- The map of 3 GiB again. -/
theorem boot_mmap_on_screen_three_GiB :
    ∃ out, printBootMmap (fun _ => sampleKmallocs) 0 threeGiB 0 = .ok out ∧
      ∀ i j, i < 25 → j < 80 →
        (printkPuts (Vga.clearwin (Vga.setCursorPos (Vga.Screen.at 0) 0 0) 15 0) out).textArea (80 * i + j) =
          ⟨((mmapRows (tagEntries threeGiB 0 mmapEntrySize (numMmapEntries threeGiB 0)) ++ [[]]).getD
            (numMmapEntries threeGiB 0 + 1 - 24 + i) []).getD j 32, 15⟩ :=
  boot_mmap_on_screen (fun _ => sampleKmallocs) (fun _ => sampleKmallocs_serve) 0 threeGiB 0 (Vga.Screen.at 0)

end LearningOS
