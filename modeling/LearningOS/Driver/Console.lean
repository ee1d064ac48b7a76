import Mathlib.Data.List.Induction
import LearningOS.Driver.Vga

/-!
# `Driver.Console` — what the console shows

A `Roll` is what the console is meant to be: rows without end, of which a window of 25 is in view. Printing behind the
last column goes on in the next row, and going below the window moves it down over a blank row.

The screen `Shows` a roll when its cells are those of the window and its cursor is at the roll's place. The operations
of `driver/vga.c` are followed over this relation one by one, `scroll_line` by the cells its loops leave.

* **`console_is_roll_iff`** — a run of calls of `kputchar` shows the roll all along exactly when no call moves the
  cursor off the last cell of the window.
* **`console_shows_last_lines`** — of lines shorter than a row the screen shows the last 25, however many there are.
-/

namespace LearningOS.Vga

open Run

/-! ## The roll -/

/-- Rows without end, the first row of the window, and the place where printing goes on. -/
structure Roll where
  cell : Nat → Nat → VgaChar
  top : Nat
  row : Nat
  col : Nat

/-- To the start of the next row. The window follows, and what comes into view is blank. -/
def Roll.lineFeed (r : Roll) : Roll :=
  if r.row + 1 < r.top + vgaHeight then { r with row := r.row + 1, col := 0 }
  else
    { cell := Function.update r.cell (r.row + 1) fun j => ⟨32, (r.cell r.row j).style⟩
      top := r.top + 1
      row := r.row + 1
      col := 0 }

/-- One column on, and behind the last one to the next row. -/
def Roll.advance (r : Roll) : Roll := if r.col + 1 < vgaWidth then { r with col := r.col + 1 } else r.lineFeed

/-- Set the cell at the place. -/
def Roll.write (r : Roll) (c : VgaChar) : Roll :=
  { r with cell := Function.update r.cell r.row (Function.update (r.cell r.row) r.col c) }

/-- Print a character. -/
def Roll.print (r : Roll) (c : VgaChar) : Roll := (r.write c).advance

/-- Print blanks. -/
def Roll.blanks (style : Nat) : Nat → Roll → Roll
  | 0, r => r
  | n + 1, r => (r.blanks style n).print ⟨32, style⟩

/-- What a call of `kputchar` is to do. A tab is four blanks and one column more. -/
def Roll.put (r : Roll) (a : Put) : Roll :=
  if a.character = 10 then r.lineFeed
  else if a.character = 13 then { r with col := 0 }
  else if a.character = 9 then (r.blanks (vgaColor a.fgColor a.bgColor) 4).advance
  else r.print ⟨a.character, vgaColor a.fgColor a.bgColor⟩

/-- The place in the window. -/
def Roll.pos (r : Roll) : Nat := 80 * (r.row - r.top) + r.col

/-- The call does not go behind the last cell of the window. -/
def Roll.Room (r : Roll) (a : Put) : Prop := r.pos + Vga.advance a.character < vgaExtent

/-- The cells of the screen are those of the window, and the cursor is at the place. -/
structure Shows (s : Screen) (r : Roll) : Prop where
  top_le : r.top ≤ r.row
  row_lt : r.row < r.top + 25
  col_lt : r.col < 80
  cursor : cursorPos s = r.pos
  cells : ∀ i j, i < 25 → j < 80 → s.textArea (80 * i + j) = r.cell (r.top + i) j

/-! ## The cells that `scroll_line` leaves -/

@[simp] theorem textArea_setCursorPos (s : Screen) (x y : Nat) : (setCursorPos s x y).textArea = s.textArea := rfl

@[simp] theorem textArea_storeCursor (s : Screen) (pos : Nat) : (storeCursor s pos).textArea = s.textArea := rfl

@[simp] theorem textArea_getCursorPos (s : Screen) : (getCursorPos s).2.textArea = s.textArea := rfl

theorem textArea_write (s : Screen) (i : Nat) (c : VgaChar) (k : Nat) :
    (s.write i c).textArea k = if k = i then c else s.textArea k := Function.update_apply ..

/-- A row copied up to a column. -/
theorem textArea_copyRow (s : Screen) (i : Nat) {n : Nat} (hn : n ≤ 80) (k : Nat) :
    ((List.range n).foldl (copyUp (i + 1)) s).textArea k =
      if 80 * i ≤ k ∧ k < 80 * i + n then s.textArea (k + 80) else s.textArea k := by
  induction n generalizing k with
  | zero => rw [if_neg (by omega)]; rfl
  | succ n ih =>
      have ih := ih (Nat.le_of_succ_le hn)
      rw [List.range_succ, List.foldl_append]
      show (Screen.write _ (n + (i + 1 - 1) * 80) (Screen.textArea _ (n + (i + 1) * 80))).textArea k = _
      rw [textArea_write, ih, ih]
      by_cases hk : k = n + (i + 1 - 1) * 80
      · rw [if_pos hk, if_neg (by omega), if_pos (by omega)]
        congr 1
        omega
      · rw [if_neg hk]
        by_cases hin : 80 * i ≤ k ∧ k < 80 * i + n
        · rw [if_pos hin, if_pos (by omega)]
        · rw [if_neg hin, if_neg (by omega)]

/-- Some rows copied up. -/
theorem textArea_copyRows (s : Screen) (m k : Nat) :
    ((List.range' 1 m).foldl (fun s i => (List.range vgaWidth).foldl (copyUp i) s) s).textArea k =
      if k < 80 * m then s.textArea (k + 80) else s.textArea k := by
  induction m generalizing k with
  | zero => rw [if_neg (by omega)]; rfl
  | succ m ih =>
      have hwidth : vgaWidth = 80 := rfl
      rw [hwidth] at ih ⊢
      rw [List.range'_1_concat, List.foldl_append, List.foldl_cons, List.foldl_nil, Nat.add_comm 1 m,
        textArea_copyRow _ m (le_refl 80), ih, ih]
      by_cases hin : 80 * m ≤ k ∧ k < 80 * m + 80
      · rw [if_pos hin, if_neg (by omega), if_pos (by omega)]
      · rw [if_neg hin]
        by_cases hk : k < 80 * m
        · rw [if_pos hk, if_pos (by omega)]
        · rw [if_neg hk, if_neg (by omega)]

/-- The last row cleared up to a column. -/
theorem textArea_clearRow (s : Screen) {n : Nat} (hn : n ≤ 80) (k : Nat) :
    ((List.range n).foldl clearCell s).textArea k =
      if 1920 ≤ k ∧ k < 1920 + n then ⟨32, (s.textArea k).style⟩ else s.textArea k := by
  induction n generalizing k with
  | zero => rw [if_neg (by omega)]; rfl
  | succ n ih =>
      have ih := ih (Nat.le_of_succ_le hn)
      rw [List.range_succ, List.foldl_append]
      show (Screen.write _ (n + 1920) ⟨32, (Screen.textArea _ (n + 1920)).style⟩).textArea k = _
      rw [textArea_write, ih, ih]
      by_cases hk : k = n + 1920
      · rw [if_pos hk, if_neg (by omega), if_pos (by omega), hk]
      · rw [if_neg hk]
        by_cases hin : 1920 ≤ k ∧ k < 1920 + n
        · rw [if_pos hin, if_pos (by omega)]
        · rw [if_neg hin, if_neg (by omega)]

/-- **`scroll_line`**: every row is the one below it, and the last is blank with the styles it had. -/
theorem textArea_scrollLine (s : Screen) {k : Nat} (hk : k < 2000) :
    (scrollLine s).textArea k = if k < 1920 then s.textArea (k + 80) else ⟨32, (s.textArea k).style⟩ := by
  have hrows : 80 * (vgaHeight - 1) = 1920 := rfl
  show ((List.range 80).foldl clearCell _).textArea k = _
  rw [textArea_clearRow _ (le_refl 80), textArea_copyRows, hrows]
  by_cases h : k < 1920
  · rw [if_neg (by omega), if_pos h, if_pos h]
  · rw [if_pos (by omega), if_neg h, if_neg h]

theorem cursorPos_set {x y : Nat} (s : Screen) (hx : x < 80) (hy : y < 25) :
    cursorPos (setCursorPos s x y) = 80 * y + x := by
  unfold setCursorPos
  have hpos : (x + vgaWidth * y) % 2 ^ 16 = 80 * y + x := by
    show (x + 80 * y) % 2 ^ 16 = _
    omega
  dsimp only
  rw [hpos, if_neg (show ¬ 80 * y + x ≥ 80 * 25 by omega), cursorPos_storeCursor _ (by omega)]

/-! ## The operations -/

section Operations

variable {s : Screen} {r : Roll}

theorem Shows.pos_lt (h : Shows s r) : r.pos < 2000 := by
  have hrow := h.row_lt
  have hcol := h.col_lt
  unfold Roll.pos
  omega

/-- The registers of the controller that the cursor does not depend on make no difference. -/
theorem Shows.getCursorPos (h : Shows s r) : Shows (getCursorPos s).2 r :=
  ⟨h.top_le, h.row_lt, h.col_lt, h.cursor, h.cells⟩

/-- The cursor moved inside of the window. -/
theorem Shows.move (h : Shows s r) {s' : Screen} {row col : Nat} (htop : r.top ≤ row) (hrow : row < r.top + 25)
    (hcol : col < 80) (hcursor : cursorPos s' = 80 * (row - r.top) + col) (hcells : s'.textArea = s.textArea) :
    Shows s' { r with row := row, col := col } :=
  ⟨htop, hrow, hcol, hcursor, fun i j hi hj => hcells ▸ h.cells i j hi hj⟩

/-- **The window moved down**, with the cursor set in the last row. -/
theorem Shows.scroll (h : Shows s r) (hlast : r.row = r.top + 24) : Shows (scrollLine s) r.lineFeed := by
  have hfeed : r.lineFeed =
      { cell := Function.update r.cell (r.row + 1) fun j => ⟨32, (r.cell r.row j).style⟩
        top := r.top + 1
        row := r.row + 1
        col := 0 } := if_neg (by show ¬ r.row + 1 < r.top + 25; omega)
  rw [hfeed]
  refine ⟨by show r.top + 1 ≤ r.row + 1; omega, by show r.row + 1 < r.top + 1 + 25; omega,
    Nat.zero_lt_succ 79, ?_, ?_⟩
  · have hset := cursorPos_set (x := 0) (y := 24) ((List.range vgaWidth).foldl clearCell
      ((List.range' 1 (vgaHeight - 1)).foldl (fun s i => (List.range vgaWidth).foldl (copyUp i) s) s))
      (by decide) (by decide)
    refine Eq.trans hset ?_
    show 80 * 24 + 0 = 80 * (r.row + 1 - (r.top + 1)) + 0
    omega
  · intro i j hi hj
    show _ = Function.update r.cell (r.row + 1) _ (r.top + 1 + i) j
    rw [textArea_scrollLine s (by omega)]
    by_cases hbottom : i < 24
    · rw [if_pos (by omega), Function.update_of_ne (by omega), show r.top + 1 + i = r.top + (i + 1) by omega,
        ← h.cells (i + 1) j (by omega) hj]
      congr 1
      omega
    · have hi : i = 24 := by omega
      subst hi
      rw [if_neg (by omega), show r.top + 1 + 24 = r.row + 1 by omega, Function.update_self,
        h.cells 24 j (by decide) hj, hlast]

/-- A cell set under the cursor. -/
theorem Shows.write (h : Shows s r) (c : VgaChar) : Shows (s.write (cursorPos s) c) (r.write c) := by
  have htop := h.top_le
  have hrow := h.row_lt
  have hcol := h.col_lt
  refine ⟨htop, hrow, hcol, h.cursor, ?_⟩
  intro i j hi hj
  show _ = Function.update r.cell r.row (Function.update (r.cell r.row) r.col c) (r.top + i) j
  rw [textArea_write, h.cursor]
  unfold Roll.pos
  by_cases hi' : r.top + i = r.row
  · rw [hi', Function.update_self]
    by_cases hj' : j = r.col
    · rw [if_pos (by omega), hj', Function.update_self]
    · rw [if_neg (by omega), Function.update_of_ne hj', ← hi']
      exact h.cells i j hi hj
  · rw [if_neg (by omega), Function.update_of_ne hi']
    exact h.cells i j hi hj

/-- The cursor moved on, as long as it does not leave the last cell. -/
theorem Shows.advance (h : Shows s r) (hroom : r.pos + 1 < 2000) : Shows (advanceCursor s) r.advance := by
  have htop := h.top_le
  have hrow := h.row_lt
  have hcol := h.col_lt
  have hcursor : cursorPos (advanceCursor s) = r.pos + 1 := by
    rw [cursorPos_advanceCursor, h.cursor]
    omega
  have hcells : (advanceCursor s).textArea = s.textArea := by
    have hnoScroll : ¬ (cursorPos s + 1) % 2 ^ 16 ≥ vgaExtent := by
      rw [h.cursor]
      show ¬ (r.pos + 1) % 2 ^ 16 ≥ 2000
      omega
    show (if (cursorPos s + 1) % 2 ^ 16 ≥ vgaExtent then scrollLine _ else _).textArea = _
    rw [if_neg hnoScroll]
    rfl
  unfold Roll.pos at hroom hcursor
  unfold Roll.advance
  by_cases hlast : r.col + 1 < vgaWidth
  · rw [if_pos hlast]
    have hlast : r.col + 1 < 80 := hlast
    exact h.move htop hrow hlast (by omega) hcells
  · -- The last column, but not the last row: the next position is the start of the next row.
    have hlast' : ¬ r.col + 1 < 80 := hlast
    have hnext : r.row + 1 < r.top + 25 := by omega
    have hfeed : r.lineFeed = { r with row := r.row + 1, col := 0 } := if_pos hnext
    rw [if_neg hlast, hfeed]
    exact h.move (by omega) hnext (by decide) (by omega) hcells

theorem Shows.pos_advance (h : Shows s r) (hroom : r.pos + 1 < 2000) : r.advance.pos = r.pos + 1 := by
  rw [← (h.advance hroom).cursor, cursorPos_advanceCursor, h.cursor]
  omega

theorem Shows.print (h : Shows s r) (character fgColor bgColor : Nat) (hroom : r.pos + 1 < 2000) :
    Shows (printCharacter (Vga.getCursorPos s).2 (Vga.getCursorPos s).1 character fgColor bgColor)
      (r.print ⟨character, vgaColor fgColor bgColor⟩) ∧
    (r.print ⟨character, vgaColor fgColor bgColor⟩).pos = r.pos + 1 := by
  have hwrite := h.getCursorPos.write ⟨character, vgaColor fgColor bgColor⟩
  exact ⟨hwrite.advance hroom, hwrite.pos_advance hroom⟩

/-- The blanks of a tab. -/
theorem Shows.blanks (h : Shows s r) (fgColor bgColor : Nat) {n : Nat} (hroom : r.pos + n < 2000) :
    Shows (Vga.blanks fgColor bgColor n s) (r.blanks (vgaColor fgColor bgColor) n) ∧
      (r.blanks (vgaColor fgColor bgColor) n).pos = r.pos + n := by
  induction n with
  | zero => exact ⟨h, rfl⟩
  | succ n ih =>
      obtain ⟨hshows, hpos⟩ := ih (by omega)
      obtain ⟨hprint, hprintPos⟩ := hshows.print 32 fgColor bgColor (by omega)
      rw [blanks_succ]
      exact ⟨hprint, by show (Roll.print _ _).pos = _; omega⟩

/-- **One call.** With room for it, the screen shows what the roll has become. -/
theorem Shows.put (h : Shows s r) {a : Put} (hroom : r.Room a) :
    Shows (kputchar s a.character a.fgColor a.bgColor) (r.put a) := by
  have htop := h.top_le
  have hrow := h.row_lt
  have hcol := h.col_lt
  have hpos : (Vga.getCursorPos s).1 = 80 * (r.row - r.top) + r.col := h.cursor
  have hrowOf : (80 * (r.row - r.top) + r.col) / vgaWidth % 2 ^ 8 = r.row - r.top := by
    show (80 * (r.row - r.top) + r.col) / 80 % 2 ^ 8 = _
    omega
  have hroom : r.pos + Vga.advance a.character < 2000 := hroom
  unfold kputchar Roll.put
  unfold Vga.advance at hroom
  dsimp only
  rw [hpos, hrowOf]
  by_cases hnewline : a.character = 10
  · rw [if_pos hnewline, if_pos hnewline]
    by_cases hlast : r.row = r.top + 24
    · rw [if_pos (show _ % 2 ^ 8 ≥ 25 by omega)]
      exact h.getCursorPos.scroll hlast
    · have hnext : (r.row - r.top + 1) % 2 ^ 8 = r.row + 1 - r.top := by omega
      have hfeed : r.lineFeed = { r with row := r.row + 1, col := 0 } :=
        if_pos (show r.row + 1 < r.top + 25 by omega)
      rw [hnext, if_neg (show ¬ r.row + 1 - r.top ≥ 25 by omega), hfeed]
      exact h.getCursorPos.move (by omega) (by omega) (by decide) (cursorPos_set _ (by decide) (by omega)) rfl
  rw [if_neg hnewline] at hroom ⊢
  rw [if_neg hnewline]
  by_cases hreturn : a.character = 13
  · rw [if_pos hreturn, if_pos hreturn]
    exact h.getCursorPos.move htop hrow (by decide) (cursorPos_set _ (by decide) (by omega)) rfl
  rw [if_neg hreturn] at hroom ⊢
  rw [if_neg hreturn]
  by_cases htab : a.character = 9
  · rw [if_pos htab] at hroom
    rw [if_pos htab, if_pos htab]
    obtain ⟨hblanks, hblanksPos⟩ := h.getCursorPos.blanks a.fgColor a.bgColor (n := 4) (by omega)
    exact hblanks.advance (by omega)
  · rw [if_neg htab] at hroom
    rw [if_neg htab, if_neg htab]
    have hprint := (h.print a.character a.fgColor a.bgColor hroom).1
    unfold printCharacter at hprint ⊢
    rwa [hpos] at hprint

/-- Without room the cursor ends outside of the text area, where the screen shows no roll. -/
theorem Shows.not_room (h : Shows s r) {a : Put} (hroom : ¬ r.Room a) (r' : Roll) :
    ¬ Shows (kputchar s a.character a.fgColor a.bgColor) r' := by
  intro h'
  have hlt := h.pos_lt
  have hroom : ¬ r.pos + Vga.advance a.character < 2000 := hroom
  have hle : Vga.advance a.character ≤ 5 := by
    unfold Vga.advance
    split <;> [decide; (split <;> [decide; (split <;> decide)])]
  have hcursor := h'.cursor
  rw [cursorPos_kputchar (by omega), h.cursor] at hcursor
  have hlt' := h'.pos_lt
  omega

end Operations

/-! ## The cleared screen -/

/-- `clearwin`. -/
def clearwin (s : Screen) (fgColor bgColor : Nat) : Screen :=
  (List.range vgaExtent).foldl (fun s i => s.write i ⟨32, vgaColor fgColor bgColor⟩) s

/-- Blank rows. -/
def Roll.blank (style : Nat) : Roll := ⟨fun _ _ => ⟨32, style⟩, 0, 0, 0⟩

theorem textArea_clearwin (s : Screen) (fgColor bgColor : Nat) {n k : Nat} (hk : k < n) :
    ((List.range n).foldl (fun s i => s.write i ⟨32, vgaColor fgColor bgColor⟩) s).textArea k =
      ⟨32, vgaColor fgColor bgColor⟩ := by
  induction n with
  | zero => exact absurd hk (Nat.not_lt_zero k)
  | succ n ih =>
      rw [List.range_succ, List.foldl_concat, textArea_write]
      by_cases hn : k = n
      · rw [if_pos hn]
      · rw [if_neg hn, ih (by omega)]

theorem cursorPos_clearwin (s : Screen) (fgColor bgColor n : Nat) :
    cursorPos ((List.range n).foldl (fun s i => s.write i ⟨32, vgaColor fgColor bgColor⟩) s) = cursorPos s := by
  induction n with
  | zero => rfl
  | succ n ih =>
      rw [List.range_succ, List.foldl_concat]
      exact ih

/-- The start of `kernel_main`: `set_cursor_pos(0, 0)` and `clearwin`. -/
theorem shows_cleared (s : Screen) (fgColor bgColor : Nat) :
    Shows (clearwin (setCursorPos s 0 0) fgColor bgColor) (Roll.blank (vgaColor fgColor bgColor)) := by
  refine ⟨le_refl 0, Nat.zero_lt_succ 24, Nat.zero_lt_succ 79, ?_, ?_⟩
  · exact (cursorPos_clearwin _ fgColor bgColor vgaExtent).trans (cursorPos_set s (by decide) (by decide))
  · intro i j hi hj
    have hk : 80 * i + j < vgaExtent := by
      show 80 * i + j < 80 * 25
      omega
    unfold clearwin
    exact textArea_clearwin _ fgColor bgColor hk

/-! ## Runs -/

/-- Calls of `kputchar` one after the other. -/
def putAll (puts : List Put) (s : Screen) : Screen :=
  puts.foldl (fun s a => kputchar s a.character a.fgColor a.bgColor) s

/-- What they are to do. -/
def Roll.putAll (puts : List Put) (r : Roll) : Roll := puts.foldl Roll.put r

theorem putAll_concat (puts : List Put) (a : Put) (s : Screen) :
    putAll (puts ++ [a]) s = kputchar (putAll puts s) a.character a.fgColor a.bgColor := List.foldl_concat ..

theorem Roll.putAll_concat (puts : List Put) (a : Put) (r : Roll) : r.putAll (puts ++ [a]) = (r.putAll puts).put a :=
  List.foldl_concat ..

/-- As long as there is room, a run shows the roll. -/
theorem Shows.putAll {s : Screen} {r : Roll} (h : Shows s r) {puts : List Put}
    (hroom : ∀ before a, before ++ [a] <+: puts → (r.putAll before).Room a) :
    Shows (putAll puts s) (r.putAll puts) := by
  induction puts using List.reverseRecOn with
  | nil => exact h
  | append_singleton puts a ih =>
      have hbefore := ih (fun before b hb => hroom before b (hb.trans (List.prefix_append puts [a])))
      rw [putAll_concat, Roll.putAll_concat]
      exact hbefore.put (hroom puts a (List.prefix_refl _))

/-- **The console is the roll** that it was at the start, through all of a run of calls of `kputchar`, if and only if
    none of them moves the cursor off the last cell of the window. -/
theorem console_is_roll_iff {s : Screen} {r : Roll} (h : Shows s r) (puts : List Put) :
    (∀ before, before <+: puts → Shows (putAll before s) (r.putAll before)) ↔
      ∀ before a, before ++ [a] <+: puts → (r.putAll before).Room a := by
  constructor
  · intro hshows before a hstart
    by_contra hroom
    have hbefore := hshows before ((List.prefix_append before [a]).trans hstart)
    have hafter := hshows (before ++ [a]) hstart
    rw [putAll_concat] at hafter
    exact hbefore.not_room hroom _ hafter
  · intro hroom before hbefore
    exact h.putAll (fun start a hstart => hroom start a (hstart.trans hbefore))

/-- An `A` on a cleared screen. -/
theorem console_is_roll_letter :
    Shows (putAll [⟨65, 15, 0⟩] (clearwin (setCursorPos (Screen.at 0) 0 0) 15 0))
      ((Roll.blank (vgaColor 15 0)).putAll [⟨65, 15, 0⟩]) := by
  refine (console_is_roll_iff (shows_cleared (Screen.at 0) 15 0) [⟨65, 15, 0⟩]).mpr ?_ _ (List.prefix_refl _)
  intro before a hstart
  have hlen := hstart.length_le
  rw [List.length_append, List.length_singleton, List.length_singleton] at hlen
  obtain rfl : before = [] := List.eq_nil_of_length_eq_zero (by omega)
  obtain rfl : a = ⟨65, 15, 0⟩ := List.singleton_inj.mp (hstart.eq_of_length rfl)
  show 80 * (0 - 0) + 0 + 1 < 2000
  decide

/-! ## Lines -/

/-- `kputstr`, the string given by its characters before the terminator. -/
def kputstr (s : Screen) (string : List Nat) (fgColor bgColor : Nat) : Screen :=
  string.foldl (fun s character => kputchar s character fgColor bgColor) s

/-- A character that `kputchar` prints. -/
def Printed (c : Nat) : Prop := c ≠ 10 ∧ c ≠ 13 ∧ c ≠ 9

/-- A line that is shorter than a row. -/
def ShortLine (line : List Nat) : Prop := line.length < 80 ∧ ∀ c ∈ line, Printed c

/-- The text of a roll: full lines, and the last one so far. -/
structure Holds (r : Roll) (style : Nat) (lines : List (List Nat)) (last : List Nat) : Prop where
  top : r.top = lines.length - 24
  row : r.row = lines.length
  col : r.col = last.length
  cell : ∀ k j, r.cell k j = ⟨((lines ++ [last]).getD k []).getD j 32, style⟩

theorem holds_blank (style : Nat) : Holds (Roll.blank style) style [] [] := by
  refine ⟨rfl, rfl, rfl, ?_⟩
  intro k j
  show VgaChar.mk 32 style = _
  cases k <;> rfl

theorem getD_concat {α : Type} (xs : List α) (a d : α) (k : Nat) :
    (xs ++ [a]).getD k d = if k = xs.length then a else xs.getD k d := by
  by_cases hk : k = xs.length
  · rw [if_pos hk, hk, List.getD_append_right _ _ _ _ (le_refl _), Nat.sub_self]
    rfl
  · rw [if_neg hk]
    by_cases hlt : k < xs.length
    · exact List.getD_append _ _ _ _ hlt
    · rw [List.getD_eq_default, List.getD_eq_default]
      · omega
      · rw [List.length_append, List.length_singleton]
        omega

section Holds

variable {r : Roll} {style : Nat} {lines : List (List Nat)} {last : List Nat}

theorem Holds.room (h : Holds r style lines last) (hlast : last.length < 79) : r.pos + 1 < 2000 := by
  have htop := h.top
  have hrow := h.row
  have hcol := h.col
  unfold Roll.pos
  omega

/-- A character at the end of the last line. -/
theorem Holds.print (h : Holds r style lines last) (hlast : last.length + 1 < 80) (c : Nat) :
    Holds (r.print ⟨c, style⟩) style lines (last ++ [c]) := by
  have hcol := h.col
  have hrow := h.row
  have hadvance : r.print ⟨c, style⟩ = { r.write ⟨c, style⟩ with col := r.col + 1 } :=
    if_pos (show r.col + 1 < 80 by omega)
  rw [hadvance]
  refine ⟨h.top, h.row, ?_, ?_⟩
  · rw [List.length_append, List.length_singleton, ← hcol]
  · intro k j
    show Function.update r.cell r.row (Function.update (r.cell r.row) r.col ⟨c, style⟩) k j = _
    rw [getD_concat, ← hrow]
    by_cases hk : k = r.row
    · rw [if_pos hk, getD_concat, ← hcol, hk, Function.update_self]
      by_cases hj : j = r.col
      · rw [if_pos hj, hj, Function.update_self]
      · rw [if_neg hj, Function.update_of_ne hj, h.cell, getD_concat, if_pos hrow]
    · rw [if_neg hk, Function.update_of_ne hk, h.cell, getD_concat, if_neg (hrow ▸ hk)]

/-- A new line. -/
theorem Holds.lineFeed (h : Holds r style lines last) : Holds r.lineFeed style (lines ++ [last]) [] := by
  have htop := h.top
  have hrow := h.row
  have hlen : (lines ++ [last]).length = lines.length + 1 := by rw [List.length_append, List.length_singleton]
  -- The empty line reads like the blank rows behind the last one.
  have hempty : ∀ k, (lines ++ [last] ++ [[]]).getD k [] = (lines ++ [last]).getD k [] := by
    intro k
    rw [getD_concat]
    split
    · rw [List.getD_eq_default _ _ (by omega)]
    · rfl
  have hcell : ∀ k j, r.cell k j = ⟨((lines ++ [last] ++ [[]]).getD k []).getD j 32, style⟩ := by
    intro k j
    rw [h.cell, hempty]
  by_cases hlast : r.row + 1 < r.top + 25
  · have hfeed : r.lineFeed = { r with row := r.row + 1, col := 0 } := if_pos hlast
    rw [hfeed]
    refine ⟨?_, ?_, rfl, hcell⟩
    · rw [hlen]
      show r.top = _
      omega
    · rw [hlen, ← hrow]
  · have hfeed : r.lineFeed =
        { cell := Function.update r.cell (r.row + 1) fun j => ⟨32, (r.cell r.row j).style⟩
          top := r.top + 1
          row := r.row + 1
          col := 0 } := if_neg hlast
    rw [hfeed]
    refine ⟨?_, ?_, rfl, ?_⟩
    · rw [hlen]
      show r.top + 1 = _
      omega
    · rw [hlen, ← hrow]
    · intro k j
      show Function.update r.cell (r.row + 1) _ k j = _
      by_cases hk : k = r.row + 1
      · have hnew : (lines ++ [last]).getD (r.row + 1) [] = [] := List.getD_eq_default _ _ (by omega)
        rw [hk, Function.update_self, h.cell, hempty, hnew]
        rfl
      · rw [Function.update_of_ne hk]
        exact hcell k j

/-- The characters of a short line, one after the other. -/
theorem Holds.kputstr_line {s : Screen} (hs : Shows s r) {fgColor bgColor : Nat}
    (h : Holds r (vgaColor fgColor bgColor) lines last) {line : List Nat} (hprinted : ∀ c ∈ line, Printed c)
    (hlen : last.length + line.length < 80) :
    ∃ r', Shows (kputstr s line fgColor bgColor) r' ∧
      Holds r' (vgaColor fgColor bgColor) lines (last ++ line) := by
  induction line generalizing s r last with
  | nil => exact ⟨r, hs, by rwa [List.append_nil]⟩
  | cons c line ih =>
      obtain ⟨hnewline, hreturn, htab⟩ := hprinted c List.mem_cons_self
      rw [List.length_cons] at hlen
      have hadvance : advance c = 1 := by
        unfold advance
        rw [if_neg hnewline, if_neg hreturn, if_neg htab]
      have hroom : r.Room ⟨c, fgColor, bgColor⟩ := by
        show r.pos + advance c < 2000
        rw [hadvance]
        exact h.room (by omega)
      have hput : r.put ⟨c, fgColor, bgColor⟩ = r.print ⟨c, vgaColor fgColor bgColor⟩ := by
        unfold Roll.put
        rw [if_neg hnewline, if_neg hreturn, if_neg htab]
      have hshows := hs.put hroom
      rw [hput] at hshows
      obtain ⟨r', hs', h'⟩ := ih hshows (h.print (by omega) c) (fun e he => hprinted e (List.mem_cons_of_mem c he))
        (by rw [List.length_append, List.length_singleton]; omega)
      rw [List.append_assoc] at h'
      exact ⟨r', hs', h'⟩

/-- Short lines, each with its newline. -/
theorem Holds.kputstr_lines {s : Screen} (hs : Shows s r) {fgColor bgColor : Nat}
    (h : Holds r (vgaColor fgColor bgColor) lines []) {more : List (List Nat)} (hshort : ∀ line ∈ more, ShortLine line) :
    ∃ r', Shows (kputstr s (more.flatMap (· ++ [10])) fgColor bgColor) r' ∧
      Holds r' (vgaColor fgColor bgColor) (lines ++ more) [] := by
  induction more generalizing s r lines with
  | nil => exact ⟨r, hs, by rwa [List.append_nil]⟩
  | cons line more ih =>
      obtain ⟨hlen, hprinted⟩ := hshort line List.mem_cons_self
      obtain ⟨r1, hs1, h1⟩ := Holds.kputstr_line hs h hprinted (by rw [List.length_nil]; omega)
      have hroom : r1.Room ⟨10, fgColor, bgColor⟩ := hs1.pos_lt
      have h2 := h1.lineFeed
      rw [List.nil_append] at h2
      obtain ⟨r', hs', h'⟩ := ih (hs1.put hroom) h2 (fun l hl => hshort l (List.mem_cons_of_mem line hl))
      rw [List.append_assoc, List.singleton_append] at h'
      refine ⟨r', ?_, h'⟩
      have htext : (line :: more).flatMap (· ++ [10]) = line ++ (10 :: more.flatMap (· ++ [10])) := by
        rw [List.flatMap_cons, List.append_assoc, List.singleton_append]
      rw [htext, kputstr, List.foldl_append]
      exact hs'

end Holds

/-- Lines on a cleared screen: the last 24 of them are left, over a blank row. -/
theorem textArea_lines (s : Screen) (fgColor bgColor : Nat) {lines : List (List Nat)}
    (hlines : ∀ line ∈ lines, ShortLine line) {i j : Nat} (hi : i < 25) (hj : j < 80) :
    (kputstr (clearwin (setCursorPos s 0 0) fgColor bgColor) (lines.flatMap (· ++ [10])) fgColor bgColor).textArea
      (80 * i + j) =
        ⟨((lines ++ [[]]).getD (lines.length - 24 + i) []).getD j 32, vgaColor fgColor bgColor⟩ := by
  obtain ⟨r, hs, h⟩ := Holds.kputstr_lines (shows_cleared s fgColor bgColor) (holds_blank _) hlines
  have hcell := hs.cells i j hi hj
  rw [h.cell, h.top] at hcell
  exact hcell

/-- **The console shows the last lines.** On a cleared screen, whatever it was before, some lines shorter than a row and
    an unfinished one are printed: then the rows of the screen are the last 25 of them, the rest is blank, and the
    cursor stands behind the last character. -/
theorem console_shows_last_lines (s : Screen) (fgColor bgColor : Nat) (lines : List (List Nat)) (last : List Nat)
    (hlines : ∀ line ∈ lines, ShortLine line) (hlast : ShortLine last) :
    (∀ i j, i < 25 → j < 80 →
      (kputstr (clearwin (setCursorPos s 0 0) fgColor bgColor) (lines.flatMap (· ++ [10]) ++ last) fgColor
        bgColor).textArea (80 * i + j) =
          ⟨((lines ++ [last]).getD (lines.length - 24 + i) []).getD j 32, vgaColor fgColor bgColor⟩) ∧
    cursorPos (kputstr (clearwin (setCursorPos s 0 0) fgColor bgColor) (lines.flatMap (· ++ [10]) ++ last) fgColor
      bgColor) = 80 * min lines.length 24 + last.length := by
  obtain ⟨r1, hs1, h1⟩ := Holds.kputstr_lines (shows_cleared s fgColor bgColor) (holds_blank _) hlines
  obtain ⟨r, hs, h⟩ := Holds.kputstr_line hs1 h1 hlast.2 (by rw [List.length_nil, Nat.zero_add]; exact hlast.1)
  rw [List.nil_append] at h
  have hcol : r.col = last.length := h.col
  rw [kputstr, List.foldl_append]
  constructor
  · intro i j hi hj
    have hcell := hs.cells i j hi hj
    rw [h.cell, h.top] at hcell
    exact hcell
  · have hcursor := hs.cursor
    unfold Roll.pos at hcursor
    rw [h.top, h.row, hcol] at hcursor
    refine Eq.trans hcursor ?_
    omega

/-- Twenty-nine lines of an `A` each and a `B`: the first five are gone, the `B` is in the last row. -/
theorem console_shows_thirty_lines :
    (kputstr (clearwin (setCursorPos (Screen.at 0) 0 0) 15 0) ((List.replicate 29 [65]).flatMap (· ++ [10]) ++ [66]) 15
      0).textArea (80 * 24 + 0) = ⟨66, vgaColor 15 0⟩ ∧
    cursorPos (kputstr (clearwin (setCursorPos (Screen.at 0) 0 0) 15 0)
      ((List.replicate 29 [65]).flatMap (· ++ [10]) ++ [66]) 15 0) = 80 * min 29 24 + 1 := by
  have hlines : ∀ line ∈ List.replicate 29 [65], ShortLine line := by
    intro line hline
    rw [List.eq_of_mem_replicate hline]
    unfold ShortLine Printed
    decide
  have hlast : ShortLine [66] := by
    unfold ShortLine Printed
    decide
  obtain ⟨hcells, hcursor⟩ := console_shows_last_lines (Screen.at 0) 15 0 (List.replicate 29 [65]) [66] hlines hlast
  exact ⟨hcells 24 0 (by decide) (by decide), hcursor⟩

end LearningOS.Vga
