import LearningOS.Lib.Run
import LearningOS.Lib.Word

/-!
# `Driver.Vga` — the text console, `driver/vga.c`

The cursor lives in two registers of the display controller, which the code reads and writes through a pair of ports.
`Screen` is the controller, the text area, and the indices of the text area written so far, the latest first.

`advance_cursor` scrolls when the cursor leaves the last cell, and then stores the position it computed before, one
past the last cell: `console_on_screen` is the invariant for the calls that do not get there, `leaves_screen` the call
that does.
-/

namespace LearningOS.Vga

open Run

/-! ## Model -/

/-- `VGA_WIDTH`. -/
abbrev vgaWidth : Nat := 80

/-- `VGA_HEIGHT`. -/
abbrev vgaHeight : Nat := 25

/-- `VGA_EXTENT`. -/
abbrev vgaExtent : Nat := 80 * 25

/-- `vga_char`. -/
structure VgaChar where
  character : Nat
  style : Nat
deriving DecidableEq, Repr

/-- The display controller and the text area. -/
structure Screen where
  index : Nat
  regs : Nat → Nat
  textArea : Nat → VgaChar
  writes : List Nat

/-- `byte_out(CURSOR_PORT_COMMAND, data)`: choose a register. -/
def Screen.command (s : Screen) (data : Nat) : Screen := { s with index := data }

/-- `byte_out(CURSOR_PORT_DATA, data)`: write the chosen register. -/
def Screen.dataOut (s : Screen) (data : Nat) : Screen := { s with regs := Function.update s.regs s.index (data % 2 ^ 8) }

/-- `byte_in(CURSOR_PORT_DATA)`: read the chosen register. -/
def Screen.dataIn (s : Screen) : Nat := s.regs s.index % 2 ^ 8

/-- `TEXT_AREA[i] = c`. -/
def Screen.write (s : Screen) (i : Nat) (c : VgaChar) : Screen :=
  { s with textArea := Function.update s.textArea i c, writes := i :: s.writes }

/-- `vga_color`. -/
def vgaColor (fgColor bgColor : Nat) : Nat := ((bgColor <<< 4) ||| (fgColor &&& 0x0F)) % 2 ^ 8

/-- `get_cursor_pos`. -/
def getCursorPos (s : Screen) : Nat × Screen :=
  let s1 := s.command 0x0F
  let s2 := s1.command 0x0E
  (s1.dataIn ||| (s2.dataIn <<< 8), s2)

/-- The last four lines of `advance_cursor` and of `set_cursor_pos`. -/
def storeCursor (s : Screen) (pos : Nat) : Screen :=
  (((s.command 0x0F).dataOut (pos &&& 0xFF)).command 0x0E).dataOut ((pos >>> 8) &&& 0xFF)

/-- `set_cursor_pos`. -/
def setCursorPos (s : Screen) (x y : Nat) : Screen :=
  let pos := (x + vgaWidth * y) % 2 ^ 16
  storeCursor s (if pos ≥ vgaExtent then vgaExtent - 1 else pos)

/-- The body of the loops of `scroll_line` that copy a cell up. -/
def copyUp (i : Nat) (s : Screen) (j : Nat) : Screen :=
  s.write (j + (i - 1) * vgaWidth) (s.textArea (j + i * vgaWidth))

/-- The body of the loop of `scroll_line` that clears the last row. -/
def clearCell (s : Screen) (j : Nat) : Screen :=
  let pos := j + (vgaHeight - 1) * vgaWidth
  s.write pos ⟨32, (s.textArea pos).style⟩

/-- `scroll_line`. -/
def scrollLine (s : Screen) : Screen :=
  let copied := (List.range' 1 (vgaHeight - 1)).foldl
    (fun s i => (List.range vgaWidth).foldl (copyUp i) s) s
  setCursorPos ((List.range vgaWidth).foldl clearCell copied) 0 (vgaHeight - 1)

/-- `advance_cursor`. -/
def advanceCursor (s : Screen) : Screen :=
  let (position, s) := getCursorPos s
  let pos := (position + 1) % 2 ^ 16
  storeCursor (if pos ≥ vgaExtent then scrollLine s else s) pos

/-- The last branch of `kputchar`. -/
def printCharacter (s : Screen) (position character fgColor bgColor : Nat) : Screen :=
  advanceCursor (s.write position ⟨character, vgaColor fgColor bgColor⟩)

/-- `kputchar`. The four calls a tab makes to itself are with a blank, for which the last branch is taken. -/
def kputchar (s : Screen) (character fgColor bgColor : Nat) : Screen :=
  let (position, s) := getCursorPos s
  if character = 10 then
    let currentRow := (position / vgaWidth % 2 ^ 8 + 1) % 2 ^ 8
    if currentRow ≥ vgaHeight then scrollLine s else setCursorPos s 0 currentRow
  else if character = 13 then setCursorPos s 0 (position / vgaWidth % 2 ^ 8)
  else if character = 9 then
    advanceCursor ((List.range 4).foldl
      (fun s _ => printCharacter (getCursorPos s).2 (getCursorPos s).1 32 fgColor bgColor) s)
  else printCharacter s position character fgColor bgColor

/-! ## The cursor -/

/-- The position the registers hold. -/
def cursorPos (s : Screen) : Nat := (getCursorPos s).1

theorem low_or_high (pos : Nat) : pos % 256 ||| ((pos / 256) <<< 8) = pos := by
  have hlow : pos % 256 < 2 ^ 8 := Nat.mod_lt _ (by decide)
  rw [Nat.or_comm, ← Nat.shiftLeft_add_eq_or_of_lt hlow, Nat.shiftLeft_eq]
  omega

@[simp] theorem cursorPos_storeCursor {pos : Nat} (s : Screen) (h : pos < 2 ^ 16) :
    cursorPos (storeCursor s pos) = pos := by
  have hlow : pos &&& 0xFF = pos % 256 := Nat.and_two_pow_sub_one_eq_mod pos 8
  have hhigh : (pos >>> 8) &&& 0xFF = pos / 256 % 256 := by
    rw [Nat.shiftRight_eq_div_pow]
    exact Nat.and_two_pow_sub_one_eq_mod _ 8
  show ((pos &&& 0xFF) % 2 ^ 8 % 2 ^ 8) ||| (((((pos >>> 8) &&& 0xFF) % 2 ^ 8) % 2 ^ 8) <<< 8) = pos
  rw [hlow, hhigh, show pos % 256 % 2 ^ 8 % 2 ^ 8 = pos % 256 by omega,
    show pos / 256 % 256 % 2 ^ 8 % 2 ^ 8 = pos / 256 by omega]
  exact low_or_high pos

theorem cursorPos_lt (s : Screen) : cursorPos s < 2 ^ 16 := by
  have hlow : (s.command 0x0F).dataIn < 2 ^ 8 := Nat.mod_lt _ (by decide)
  have hhigh : ((s.command 0x0F).command 0x0E).dataIn < 2 ^ 8 := Nat.mod_lt _ (by decide)
  show _ ||| (_ <<< 8) < 2 ^ 16
  rw [Nat.or_comm, ← Nat.shiftLeft_add_eq_or_of_lt hlow, Nat.shiftLeft_eq]
  omega

@[simp] theorem cursorPos_write (s : Screen) (i : Nat) (c : VgaChar) : cursorPos (s.write i c) = cursorPos s := rfl

@[simp] theorem cursorPos_command (s : Screen) (data : Nat) : cursorPos (s.command data) = cursorPos s := rfl

/-- Wherever it was, and whether it scrolled or not, the cursor ends one further. -/
theorem cursorPos_advanceCursor (s : Screen) : cursorPos (advanceCursor s) = (cursorPos s + 1) % 2 ^ 16 :=
  cursorPos_storeCursor _ (Nat.mod_lt _ (by decide))

theorem cursorPos_printCharacter (s : Screen) (position character fgColor bgColor : Nat) :
    cursorPos (printCharacter s position character fgColor bgColor) = (cursorPos s + 1) % 2 ^ 16 :=
  cursorPos_advanceCursor _

theorem cursorPos_setCursorPos (s : Screen) (x y : Nat) : cursorPos (setCursorPos s x y) < vgaExtent := by
  unfold setCursorPos
  dsimp only
  split
  · rw [cursorPos_storeCursor _ (by decide)]
    decide
  · rw [cursorPos_storeCursor _ (by omega)]
    omega

theorem cursorPos_scrollLine (s : Screen) : cursorPos (scrollLine s) < vgaExtent := cursorPos_setCursorPos _ _ _

/-! ## The indices written -/

/-- Every index written so far is one of the text area. -/
def Inside (s : Screen) : Prop := ∀ i ∈ s.writes, i < vgaExtent

theorem Inside.write {s : Screen} (h : Inside s) {i : Nat} (hi : i < vgaExtent) (c : VgaChar) :
    Inside (s.write i c) := by
  intro j hj
  rcases List.mem_cons.mp hj with rfl | hj
  · exact hi
  · exact h j hj

theorem Inside.foldl {step : Screen → Nat → Screen} :
    ∀ {js : List Nat} {s : Screen}, Inside s → (∀ s j, j ∈ js → Inside s → Inside (step s j)) →
      Inside (js.foldl step s) := by
  intro js
  induction js with
  | nil => exact fun h _ => h
  | cons j js ih =>
      intro s h hstep
      refine ih (hstep s j List.mem_cons_self h) ?_
      intro s k hk
      exact hstep s k (List.mem_cons_of_mem _ hk)

theorem Inside.setCursorPos {s : Screen} (h : Inside s) (x y : Nat) : Inside (setCursorPos s x y) := h

theorem Inside.scrollLine {s : Screen} (h : Inside s) : Inside (scrollLine s) := by
  apply Inside.setCursorPos
  apply Inside.foldl
  · apply Inside.foldl h
    intro s i hi hs
    apply Inside.foldl hs
    intro s j hj hs
    have hi : ∃ k < 24, i = 1 + 1 * k := List.mem_range'.mp hi
    have hj : j < 80 := List.mem_range.mp hj
    refine hs.write ?_ _
    show j + (i - 1) * 80 < 80 * 25
    omega
  · intro s j hj hs
    have hj : j < 80 := List.mem_range.mp hj
    refine hs.write ?_ _
    show j + (25 - 1) * 80 < 80 * 25
    omega

theorem Inside.advanceCursor {s : Screen} (h : Inside s) : Inside (advanceCursor s) := by
  unfold Vga.advanceCursor
  show Inside (if _ then _ else _)
  split
  · exact Inside.scrollLine h
  · exact h

/-- A character goes to the cell of the cursor. -/
theorem Inside.printCharacter {s : Screen} (h : Inside s) (hcursor : cursorPos s < vgaExtent)
    (character fgColor bgColor : Nat) :
    Inside (printCharacter (getCursorPos s).2 (getCursorPos s).1 character fgColor bgColor) := by
  have h' : Inside (getCursorPos s).2 := h
  exact (h'.write hcursor _).advanceCursor

/-! ## Calls -/

/-- A call of `kputchar`. -/
structure Put where
  character : Nat
  fgColor : Nat
  bgColor : Nat
deriving DecidableEq, Repr

/-- One call. It always returns. -/
def step (s : Screen) (a : Put) : Except Empty Screen := .ok (kputchar s a.character a.fgColor a.bgColor)

/-- The cells the call moves the cursor over: five for a tab, one for a character that is printed, none for the others. -/
def advance (character : Nat) : Nat :=
  if character = 10 then 0 else if character = 13 then 0 else if character = 9 then 5 else 1

/-- The call does not move the cursor off the last cell. -/
def Fits (s : Screen) (a : Put) : Prop := cursorPos s + advance a.character < vgaExtent

instance (s : Screen) (a : Put) : Decidable (Fits s a) := inferInstanceAs (Decidable (_ < _))

/-- The screen as the next call may find it. -/
structure OnScreen (s : Screen) : Prop where
  cursor : cursorPos s < vgaExtent
  inside : Inside s

/-- The blanks of a tab, and how far they move the cursor. -/
def blanks (fgColor bgColor n : Nat) (s : Screen) : Screen :=
  (List.range n).foldl (fun s _ => printCharacter (getCursorPos s).2 (getCursorPos s).1 32 fgColor bgColor) s

theorem blanks_succ (fgColor bgColor n : Nat) (s : Screen) :
    blanks fgColor bgColor (n + 1) s =
      printCharacter (getCursorPos (blanks fgColor bgColor n s)).2 (getCursorPos (blanks fgColor bgColor n s)).1 32
        fgColor bgColor := by
  unfold blanks
  rw [List.range_succ, List.foldl_append]
  rfl

theorem cursorPos_blanks (fgColor bgColor : Nat) (s : Screen) :
    ∀ n, cursorPos (blanks fgColor bgColor n s) = (cursorPos s + n) % 2 ^ 16 := by
  intro n
  induction n with
  | zero => exact (Nat.mod_eq_of_lt (cursorPos_lt s)).symm
  | succ n ih =>
      rw [blanks_succ, cursorPos_printCharacter]
      show (cursorPos (blanks fgColor bgColor n s) + 1) % 2 ^ 16 = _
      rw [ih]
      omega

theorem Inside.blanks {s : Screen} (h : Inside s) (fgColor bgColor : Nat) :
    ∀ n, cursorPos s + n ≤ vgaExtent → Inside (blanks fgColor bgColor n s) := by
  intro n
  induction n with
  | zero => exact fun _ => h
  | succ n ih =>
      intro hroom
      have hroom : cursorPos s + (n + 1) ≤ 80 * 25 := hroom
      have hcursor : cursorPos (Vga.blanks fgColor bgColor n s) < vgaExtent := by
        rw [cursorPos_blanks]
        show (cursorPos s + n) % 2 ^ 16 < 80 * 25
        omega
      rw [blanks_succ]
      exact (ih (by show _ ≤ 80 * 25; omega)).printCharacter hcursor _ _ _

/-- The position after a call that moves the cursor forward. -/
theorem cursorPos_kputchar {s : Screen} {a : Put} (h : 0 < advance a.character) :
    cursorPos (kputchar s a.character a.fgColor a.bgColor) = (cursorPos s + advance a.character) % 2 ^ 16 := by
  unfold advance at h ⊢
  unfold Vga.kputchar
  dsimp only
  by_cases hnewline : a.character = 10
  · rw [if_pos hnewline] at h
    cases h
  · rw [if_neg hnewline] at h ⊢
    by_cases hreturn : a.character = 13
    · rw [if_pos hreturn] at h
      cases h
    · rw [if_neg hreturn, if_neg hnewline, if_neg hreturn]
      by_cases htab : a.character = 9
      · rw [if_pos htab, if_pos htab, cursorPos_advanceCursor]
        show (cursorPos (blanks a.fgColor a.bgColor 4 _) + 1) % 2 ^ 16 = _
        rw [cursorPos_blanks]
        show ((cursorPos s + 4) % 2 ^ 16 + 1) % 2 ^ 16 = (cursorPos s + 5) % 2 ^ 16
        omega
      · rw [if_neg htab, if_neg htab]
        exact cursorPos_printCharacter _ _ _ _ _

/-- A call that does not fit ends past the last cell. -/
theorem OnScreen.leaves {s : Screen} (h : OnScreen s) {a : Put} (hfits : ¬ Fits s a) :
    vgaExtent ≤ cursorPos (kputchar s a.character a.fgColor a.bgColor) := by
  have hcursor : cursorPos s < 80 * 25 := h.cursor
  have hfits : ¬ cursorPos s + advance a.character < 80 * 25 := hfits
  have hle : advance a.character ≤ 5 := by
    unfold advance
    split <;> [decide; (split <;> [decide; (split <;> decide)])]
  rw [cursorPos_kputchar (by omega)]
  show 80 * 25 ≤ _
  omega

/-- **One call stays on the screen**, with every character and from every cell, if the cursor does not leave the last
    cell. -/
theorem OnScreen.kputchar {s : Screen} (h : OnScreen s) {a : Put} (hfits : Fits s a) :
    OnScreen (kputchar s a.character a.fgColor a.bgColor) := by
  have hinside : Inside (getCursorPos s).2 := h.inside
  have hcursor : cursorPos s < vgaExtent := h.cursor
  have hfits : cursorPos s + advance a.character < 80 * 25 := hfits
  by_cases hadvance : advance a.character = 0
  · -- A newline or a carriage return: the position is set.
    unfold advance at hadvance
    unfold Vga.kputchar
    dsimp only
    by_cases hnewline : a.character = 10
    · rw [if_pos hnewline]
      split
      · exact ⟨cursorPos_scrollLine _, hinside.scrollLine⟩
      · exact ⟨cursorPos_setCursorPos _ _ _, hinside⟩
    · rw [if_neg hnewline]
      by_cases hreturn : a.character = 13
      · rw [if_pos hreturn]
        exact ⟨cursorPos_setCursorPos _ _ _, hinside⟩
      · rw [if_neg hnewline, if_neg hreturn] at hadvance
        split at hadvance <;> cases hadvance
  · refine ⟨?_, ?_⟩
    · rw [cursorPos_kputchar (by omega)]
      show _ < 80 * 25
      omega
    · unfold advance at hadvance hfits
      unfold Vga.kputchar
      dsimp only
      by_cases hnewline : a.character = 10
      · rw [if_pos hnewline] at hadvance
        exact absurd rfl hadvance
      · rw [if_neg hnewline] at hadvance hfits ⊢
        by_cases hreturn : a.character = 13
        · rw [if_pos hreturn] at hadvance
          exact absurd rfl hadvance
        · rw [if_neg hreturn] at hfits ⊢
          by_cases htab : a.character = 9
          · rw [if_pos htab] at hfits ⊢
            have hroom : cursorPos (getCursorPos s).2 + 4 ≤ vgaExtent := by
              show cursorPos s + 4 ≤ 80 * 25
              omega
            exact (hinside.blanks a.fgColor a.bgColor 4 hroom).advanceCursor
          · rw [if_neg htab]
            exact h.inside.printCharacter hcursor _ _ _

/-- **The console does not leave the screen**, in every run of calls none of which moves the cursor off the last
    cell; a call that does moves it past the end of the text area. -/
theorem console_on_screen {s₀ s : Screen} (hcursor : cursorPos s₀ < vgaExtent) (hwrites : s₀.writes = [])
    (hrun : Reaches step Fits s₀ s) :
    cursorPos s < vgaExtent ∧ (∀ i ∈ s.writes, i < vgaExtent) ∧
      ∀ a, ¬ Fits s a → vgaExtent ≤ cursorPos (kputchar s a.character a.fgColor a.bgColor) := by
  have hstart : OnScreen s₀ := by
    refine ⟨hcursor, ?_⟩
    intro i hi
    rw [hwrites] at hi
    cases hi
  have hscreen : OnScreen s := by
    refine hrun.invariant OnScreen hstart ?_
    intro s a s' h hfits hstep
    cases hstep
    exact h.kputchar hfits
  exact ⟨hscreen.cursor, hscreen.inside, fun a hfits => hscreen.leaves hfits⟩

/-- A cleared screen with the cursor at a position. -/
def Screen.at (pos : Nat) : Screen := storeCursor ⟨0, fun _ => 0, fun _ => ⟨32, 15⟩, []⟩ pos

/-- A tab from column 74 of the last row gets to its last cell, a newline back to its first. -/
theorem console_on_screen_last_row :
    ∃ s, Reaches step Fits (Screen.at 1994) s ∧ s.writes.length = 2004 ∧ cursorPos s < vgaExtent ∧
      ∀ i ∈ s.writes, i < vgaExtent := by
  obtain ⟨-, s, -, hrun, hpost⟩ := exists_of_sample (.ok ()) (fun _ => Screen.at 1994) step
    (fun s a => decide (Fits s a)) [⟨9, 15, 0⟩, ⟨10, 15, 0⟩] (fun _ s => decide (s.writes.length = 2004))
    (fun _ _ h => of_decide_eq_true h) (by decide +kernel)
  obtain ⟨hcursor, hinside, -⟩ := console_on_screen (by decide) rfl hrun
  exact ⟨s, hrun, of_decide_eq_true hpost, hcursor, hinside⟩

/-- **The last cell of the last row throws the cursor off the screen**: `advance_cursor` scrolls and then stores the
    position it had computed before. The next character is written past the text area. -/
theorem leaves_screen :
    ∃ s, Reaches step (fun _ _ => True) (Screen.at 1999) s ∧ cursorPos s = vgaExtent ∧
      ∃ i ∈ (kputchar s 65 15 0).writes, vgaExtent ≤ i := by
  refine ⟨kputchar (Screen.at 1999) 65 15 0, .tail .refl (a := ⟨65, 15, 0⟩) trivial rfl, by decide +kernel, 2000, ?_⟩
  decide +kernel

end LearningOS.Vga
