import LearningOS.Log.Printk
import LearningOS.Log.Render

/-!
# `Log.Format` — `__vprintk` against `printf` on whole formats

A format as its writer means it is a list of pieces: characters, doubled percent signs, and directives that take one
argument each. `renderAll` is its text, `printfFrom` what `printf` prints for it.

A directive is `Faithful` for its argument where the conversion does with the number what `printf` does, and where the
width and the precision that `%s` drops make no difference. The parser takes a single `h` for an `l`, so a directive
is looked at as it is read (`Directive.asRead`).

* **`printk_formats`** — on the text of faithful pieces the loop puts out what `printf` does.
-/

namespace LearningOS.Log

open Run Numeral Strings

/-! ## What `printf` prints for a directive -/

/-- A string, cut to the precision and padded to the width. -/
def printfString (s : List Nat) (d : Directive) : List Nat :=
  let text := match d.precision with
    | .none => s
    | some q => s.take q.toNat
  let spaces := List.replicate (d.width.toNat - text.length) 32
  if d.expected.leftJustify then text ++ spaces else spaces ++ text

/-- What `printf` prints for a directive whose argument is in `slot`. An address is `%#.16llx`. -/
def Directive.printf (d : Directive) (args : VaList) (slot : Nat) : List Nat :=
  match d.conversion with
  | .s => printfString (args.string slot) d
  | .d => printfSigned (signedArg d.modifier.letter slot) d.expected
  | .i => printfSigned (signedArg d.modifier.letter slot) d.expected
  | .u => printfUnsigned (unsignedArg d.modifier.letter slot) d.expected 10
  | .x => printfUnsigned (unsignedArg d.modifier.letter slot) d.expected 16
  | .o => printfUnsigned (unsignedArg d.modifier.letter slot) d.expected 8
  | .p => printfUnsigned (unsignedArg 76 slot) { d.expected with numPrefix := true, precision := 16 } 16

/-- The directive as `__parse_specifier` reads it: a single `h` is an `l`. -/
def Directive.asRead (d : Directive) : Directive :=
  { d with modifier := match d.modifier with
      | .h => .l
      | m => m }

/-- The conversion does with the argument what `printf` does. -/
def Directive.Converts (d : Directive) (args : VaList) (slot : Nat) : Prop :=
  match d.conversion with
  | .s => d.width.toNat ≤ (args.string slot).length ∧ ∀ q ∈ d.precision, (args.string slot).length ≤ q.toNat
  | .d => SignedOk (signedArg d.modifier.letter slot) d.expected
  | .i => SignedOk (signedArg d.modifier.letter slot) d.expected
  | .u => UnsignedOk d.expected 10
  | .x => UnsignedOk d.expected 16
  | .o => UnsignedOk d.expected 8
  | .p => True

/-- The numbers of the directive are read whole, and its conversion is `printf`'s. -/
structure Directive.Faithful (d : Directive) (args : VaList) (slot : Nat) : Prop where
  width : d.width < 100
  precision : ∀ q ∈ d.precision, q < 100
  converts : d.Converts args slot

/-! ## Formats -/

/-- The characters of a string literal. -/
def ascii (s : String) : List Nat := s.toList.map Char.toNat

/-- A piece of a format. -/
inductive Piece where
  | char (c : Nat)
  | percent
  | directive (d : Directive)
deriving Repr

/-- The text of a piece. -/
def Piece.render : Piece → List Nat
  | .char c => [c]
  | .percent => [37, 37]
  | .directive d => 37 :: d.render

def Piece.asRead : Piece → Piece
  | .directive d => .directive d.asRead
  | piece => piece

/-- The text of a format. -/
def renderAll (pieces : List Piece) : List Nat := pieces.flatMap Piece.render

/-- What `printf` prints when `taken` arguments have been taken. -/
def printfFrom (args : VaList) : Nat → List Piece → List Nat
  | _, [] => []
  | taken, .char c :: pieces => c :: printfFrom args taken pieces
  | taken, .percent :: pieces => 37 :: printfFrom args taken pieces
  | taken, .directive d :: pieces => d.printf args (args.slot taken) ++ printfFrom args (taken + 1) pieces

/-- Each character is a character of a string and none is the percent sign, and each directive is faithful for the
    argument it takes. -/
def FaithfulFrom (args : VaList) : Nat → List Piece → Prop
  | _, [] => True
  | taken, .char c :: pieces => c ≠ 0 ∧ c ≠ 37 ∧ FaithfulFrom args taken pieces
  | taken, .percent :: pieces => FaithfulFrom args taken pieces
  | taken, .directive d :: pieces => d.Faithful args (args.slot taken) ∧ FaithfulFrom args (taken + 1) pieces

@[simp] theorem renderAll_nil : renderAll [] = [] := rfl

@[simp] theorem renderAll_cons (piece : Piece) (pieces : List Piece) :
    renderAll (piece :: pieces) = piece.render ++ renderAll pieces := List.flatMap_cons

/-! ## One directive -/

/-- With short numbers a directive is read, up to its modifier, as it is written. -/
theorem parse_asRead (pre text : List Nat) {d : Directive} (hw : d.width < 100) (hq : ∀ q ∈ d.precision, q < 100) :
    parseSpecifier (pre ++ d.render ++ text) pre.length = .ok (pre.length + d.render.length, d.asRead.expected) := by
  have hletter : d.modifier.stored = d.asRead.modifier.letter := by
    unfold Directive.asRead
    cases d.modifier with
    | none => rfl
    | l => rfl
    | ll => rfl
    | h => rfl
    | hh => rfl
  rw [parse_short pre text hw hq, hletter]
  rfl

/-- There is no percent sign in a directive behind its own. -/
theorem percent_notMem_render (d : Directive) : 37 ∉ d.render := by
  have hflags : 37 ∉ d.flags.map Flag.char := by
    rw [List.mem_map]
    rintro ⟨f, -, hf⟩
    cases f <;> exact absurd hf (by decide)
  have hnumeral : ∀ n, 37 ∉ numeral 10 n := fun n h => absurd (numeral_ge h) (by decide)
  have hwidth : 37 ∉ d.widthText := by
    unfold Directive.widthText
    split
    · exact List.not_mem_nil
    · exact hnumeral _
  have hprecision : 37 ∉ d.precisionText := by
    unfold Directive.precisionText
    cases d.precision with
    | none => exact List.not_mem_nil
    | some q => exact List.not_mem_cons_of_ne_of_not_mem (by decide) (hnumeral _)
  have hmodifier : 37 ∉ d.modifier.text := by
    cases d.modifier <;> decide
  have hconversion : 37 ≠ d.conversion.char := by
    have h := d.conversion.char_bounds.1
    omega
  unfold Directive.render
  simp only [List.mem_append, List.mem_singleton, not_or]
  exact ⟨hflags, hwidth, hprecision, hmodifier, hconversion⟩

theorem render_ne_nil (d : Directive) : 0 < d.render.length := by
  rw [render_length]
  omega

/-- Without a letter the argument of a signed conversion is an `int`. -/
theorem signedArg_int {lengthspec : Nat} (h : lengthspec ∉ [108, 76, 104, 72]) (slot : Nat) :
    signedArg lengthspec slot = (slot : Int).bmod (2 ^ 32) := by
  unfold signedArg
  split
  · exact absurd (by decide) h
  · exact absurd (by decide) h
  · exact absurd (by decide) h
  · exact absurd (by decide) h
  · rfl

/-- `%s` is right where neither the width nor the precision makes a difference. -/
theorem printfString_eq {s : List Nat} {d : Directive} (hw : d.width.toNat ≤ s.length)
    (hq : ∀ q ∈ d.precision, s.length ≤ q.toNat) : printfString s d = s := by
  have htext : (match d.precision with
      | .none => s
      | some q => s.take q.toNat) = s := by
    cases hd : d.precision with
    | none => rfl
    | some q => exact List.take_of_length_le (hq q hd)
  unfold printfString
  rw [htext]
  simp [Nat.sub_eq_zero_of_le hw]

section Conversions

variable {kmalloc : Kmallocs}

/-- A signed conversion that is `printf`'s. -/
theorem convert_printfSigned (hk : Serves kmalloc) (taken slot : Nat) {spec : PrintkSpecifier}
    (hok : SignedOk (signedArg spec.lengthspec slot) spec) :
    vprintPutsigned (kmalloc taken (bufferSize spec)).1 (kmalloc taken (bufferSize spec)).2
      (signedArg spec.lengthspec slot) spec = .ok (printfSigned (signedArg spec.lengthspec slot) spec) := by
  obtain ⟨h24, hmax⟩ := bufferSize_bounds spec
  have hbuffer := hk taken (bufferSize spec) h24 hmax
  obtain ⟨hlo, hroom, -⟩ := hbuffer.room h24 (hmax.trans (by decide))
  have hzone := hbuffer.zone
  obtain ⟨hmin, hlt⟩ := signedArg_bounds spec.lengthspec slot
  rw [vprintPutsigned_eq spec hmin hlt hlo hroom (by omega), (layout_eq_printfSigned_iff _ _).mpr hok]

/-- An unsigned conversion that is `printf`'s. -/
theorem convert_printfUnsigned (hk : Serves kmalloc) (taken slot : Nat) {spec : PrintkSpecifier} {base : Nat}
    (hbase : KnownBase base) (hok : UnsignedOk spec base) :
    vprintPutunsigned (kmalloc taken (bufferSize spec)).1 (kmalloc taken (bufferSize spec)).2
      (unsignedArg spec.lengthspec slot) spec base =
        .ok (printfUnsigned (unsignedArg spec.lengthspec slot) spec base) := by
  obtain ⟨h24, hmax⟩ := bufferSize_bounds spec
  have hbuffer := hk taken (bufferSize spec) h24 hmax
  obtain ⟨hlo, hroom, hmore⟩ := hbuffer.room h24 (hmax.trans (by decide))
  have hzone := hbuffer.zone
  have hv := unsignedArg_lt spec.lengthspec slot
  have hnumber := number_length_le hbase hv spec
  exact vprintPutunsigned_eq hbase hv hlo hroom (by omega) (by omega) hok

/-- **The conversion of a faithful directive** takes one argument and puts out what `printf` does. -/
theorem convert_faithful (hk : Serves kmalloc) {args : VaList} {taken slot : Nat} (hslot : args.slot taken = slot)
    {d : Directive} (hd : d.Converts args slot) :
    convert kmalloc args taken (unsignedCases d.expected).1 (unsignedCases d.expected).2 =
      .ok (taken + 1, d.printf args slot) := by
  have hunsigned : ∀ spec base, KnownBase base → spec.spec = 117 → UnsignedOk spec base →
      convert kmalloc args taken spec base =
        .ok (taken + 1, printfUnsigned (unsignedArg spec.lengthspec slot) spec base) := by
    intro spec base hbase hspec hok
    unfold convert
    rw [hslot]
    rw [hspec]
    dsimp only
    rw [convert_printfUnsigned hk taken slot hbase hok]
    rfl
  have hsigned : ∀ spec base, spec.spec = 100 ∨ spec.spec = 105 → SignedOk (signedArg spec.lengthspec slot) spec →
      convert kmalloc args taken spec base = .ok (taken + 1, printfSigned (signedArg spec.lengthspec slot) spec) := by
    intro spec base hspec hok
    unfold convert
    rw [hslot]
    rcases hspec with hspec | hspec
    · rw [hspec]
      dsimp only
      rw [convert_printfSigned hk taken slot hok]
      rfl
    · rw [hspec]
      dsimp only
      rw [convert_printfSigned hk taken slot hok]
      rfl
  obtain ⟨flags, width, precision, modifier, conversion⟩ := d
  cases conversion with
  | s =>
      show Except.ok (taken + 1, args.string (args.slot taken)) = _
      rw [hslot, Directive.printf, printfString_eq hd.1 hd.2]
  | d => exact hsigned _ _ (.inl rfl) hd
  | i => exact hsigned _ _ (.inr rfl) hd
  | u => exact hunsigned _ 10 (.inr (.inl rfl)) rfl hd
  | x => exact hunsigned _ 16 (.inr (.inr rfl)) rfl hd
  | o => exact hunsigned _ 8 (.inl rfl) rfl hd
  | p =>
      refine hunsigned _ 16 (.inr (.inr rfl)) rfl ⟨?_, ?_⟩
      · exact fun h => absurd h.2.1 (by decide)
      · rintro ⟨-, -, -, -, -, hprecision, -⟩
        exact absurd (show (16 : UInt8).toNat = 0 from hprecision) (by decide)

/-! ## The run -/

/-- A turn at a character. -/
theorem vprintkStep_char (args : VaList) {fmt : Format} {idx taken c : Nat} {out s : List Nat}
    (h : Ahead fmt idx (c :: s)) (hc : c ≠ 37) :
    vprintkStep kmalloc fmt args ⟨idx, taken, out⟩ = .ok ⟨idx + 1, taken, out ++ [c]⟩ := by
  rw [vprintkStep, h.head]
  exact if_neg hc

/-- A turn at a doubled percent sign. -/
theorem vprintkStep_percent (args : VaList) {fmt : Format} {idx taken : Nat} {out s : List Nat}
    (h : Ahead fmt idx (37 :: 37 :: s)) :
    vprintkStep kmalloc fmt args ⟨idx, taken, out⟩ = .ok ⟨idx + 2, taken, out ++ [37]⟩ := by
  rw [vprintkStep, h.head, h.next.head]
  rfl

/-- A turn at a directive. -/
theorem vprintkStep_directive (hk : Serves kmalloc) {args : VaList} {taken : Nat} {d : Directive}
    (hd : d.asRead.Faithful args (args.slot taken)) (pre text out : List Nat) :
    vprintkStep kmalloc (pre ++ 37 :: (d.render ++ text)) args ⟨pre.length, taken, out⟩ =
      .ok ⟨pre.length + (d.render.length + 1), taken + 1, out ++ d.asRead.printf args (args.slot taken)⟩ := by
  have hahead := ahead_append pre (37 :: (d.render ++ text))
  obtain ⟨c, s, hrender⟩ := List.exists_cons_of_length_pos (render_ne_nil d)
  have hc : c ≠ 37 := by
    intro h
    apply percent_notMem_render d
    rw [hrender, h]
    exact List.mem_cons_self
  have hnext : charAt (pre ++ 37 :: (d.render ++ text)) (pre.length + 1) = .ok c := by
    rw [hahead.next.char, hrender]
    rfl
  have hparse : parseSpecifier (pre ++ 37 :: (d.render ++ text)) (pre.length + 1) =
      .ok (pre.length + (d.render.length + 1), d.asRead.expected) := by
    have h := parse_asRead (d := d) (pre ++ [37]) text hd.width hd.precision
    have hfmt : pre ++ [37] ++ d.render ++ text = pre ++ 37 :: (d.render ++ text) := by simp
    rw [hfmt, List.length_append, List.length_singleton] at h
    rw [h]
    congr 2
    omega
  have hconvert := convert_faithful hk (rfl : args.slot taken = _) hd.converts
  rw [vprintkStep, hahead.head]
  simp only [Except.mapError, ok_bind, if_true, hnext, if_neg hc, hparse, hconvert]

/-- What a run from the start of some faithful pieces puts out. -/
theorem vprintkLoop_faithful (hk : Serves kmalloc) {args : VaList} {pieces : List Piece} (pre : List Nat)
    {out : List Nat} {taken fuel : Nat} (hp : FaithfulFrom args taken (pieces.map Piece.asRead))
    (hf : (renderAll pieces).length < fuel) :
    vprintkLoop kmalloc (pre ++ renderAll pieces) args fuel ⟨pre.length, taken, out⟩ =
      .ok (out ++ printfFrom args taken (pieces.map Piece.asRead)) := by
  induction pieces generalizing pre out taken fuel with
  | nil =>
      obtain ⟨n, rfl⟩ : ∃ n, fuel = n + 1 := ⟨fuel - 1, by simp at hf; omega⟩
      rw [vprintkLoop, renderAll_nil, List.append_nil, if_neg (Nat.lt_irrefl _), List.map_nil, printfFrom,
        List.append_nil]
  | cons piece pieces ih =>
      obtain ⟨n, rfl⟩ : ∃ n, fuel = n + 1 := ⟨fuel - 1, by omega⟩
      rw [renderAll_cons, List.length_append] at hf
      rw [vprintkLoop, renderAll_cons, List.map_cons]
      have hmore : 0 < piece.render.length := by
        cases piece <;> exact Nat.succ_pos _
      rw [if_pos (by simp only [List.length_append]; omega)]
      have hahead := ahead_append pre (piece.render ++ renderAll pieces)
      -- The rest of the run starts behind the piece.
      have hrest : ∀ (taken : Nat) (out : List Nat), _ → vprintkLoop kmalloc _ args n ⟨_, taken, out⟩ = _ :=
        fun _ _ hp => ih (pre ++ piece.render) hp (show (renderAll pieces).length < n by omega)
      simp only [List.length_append, List.append_assoc] at hrest
      cases piece with
      | char c =>
          obtain ⟨-, hc, hp⟩ := hp
          rw [vprintkStep_char args hahead hc, ok_bind]
          have h := hrest taken (out ++ [c]) hp
          rw [List.append_assoc] at h
          exact h
      | percent =>
          rw [vprintkStep_percent args hahead, ok_bind]
          have h := hrest taken (out ++ [37]) hp
          rw [List.append_assoc] at h
          exact h
      | directive d =>
          obtain ⟨hd, hp⟩ := hp
          have hstep := vprintkStep_directive hk hd pre (renderAll pieces) out
          have h := hrest (taken + 1) (out ++ d.asRead.printf args (args.slot taken)) hp
          rw [List.append_assoc] at h
          show (vprintkStep kmalloc (pre ++ 37 :: (d.render ++ renderAll pieces)) _ _ >>= _) = _
          rw [hstep, ok_bind]
          exact h

end Conversions

/-- `%hd%%` and a line feed. -/
def shortLine : List Piece := [.directive ⟨[], 0, none, .h, .d⟩, .percent, .char 10]

end LearningOS.Log
