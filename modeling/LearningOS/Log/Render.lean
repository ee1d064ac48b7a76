import LearningOS.Log.Specifier

/-!
# `Log.Render` — specifiers as they are written, and what the parser makes of them

A `Directive` is a specifier as the writer of a format means it: flags in any order and number, a width, a precision,
a length modifier and a conversion. `render` is its text, `expected` what `__parse_specifier` should store for it.

**`parse_rendered_iff`**: the parser stores that, and stops right behind the text, exactly for the directives whose
numbers have fewer than three digits and whose modifier is not a single `h`.
-/

namespace LearningOS.Log

open Run Numeral Strings

/-! ## Directives -/

/-- The flag characters `-`, `0`, `+`, ` ` and `#`. -/
inductive Flag where
  | minus
  | zero
  | plus
  | space
  | hash
deriving DecidableEq, Repr

def Flag.char : Flag → Nat
  | .minus => 45
  | .zero => 48
  | .plus => 43
  | .space => 32
  | .hash => 35

/-- The length modifiers. -/
inductive LengthModifier where
  | none
  | l
  | ll
  | h
  | hh
deriving DecidableEq, Repr

def LengthModifier.text : LengthModifier → List Nat
  | .none => []
  | .l => [108]
  | .ll => [108, 108]
  | .h => [104]
  | .hh => [104, 104]

/-- The letter that stands for the modifier in `lengthspec`: none, `l`, `L`, `h` or `H`. -/
def LengthModifier.letter : LengthModifier → Nat
  | .none => 0
  | .l => 108
  | .ll => 76
  | .h => 104
  | .hh => 72

/-- The conversions `s`, `d`, `i`, `u`, `x`, `o` and `p`. -/
inductive Conversion where
  | s
  | d
  | i
  | u
  | x
  | o
  | p
deriving DecidableEq, Repr

def Conversion.char : Conversion → Nat
  | .s => 115
  | .d => 100
  | .i => 105
  | .u => 117
  | .x => 120
  | .o => 111
  | .p => 112

/-- A specifier as it is meant; a width of zero is no width. -/
structure Directive where
  flags : List Flag
  width : UInt8
  precision : Option UInt8
  modifier : LengthModifier
  conversion : Conversion
deriving Repr

/-- The width as written, without a leading zero. -/
def Directive.widthText (d : Directive) : List Nat := if d.width = 0 then [] else numeral 10 d.width.toNat

/-- The precision as written, behind its dot. -/
def Directive.precisionText (d : Directive) : List Nat :=
  match d.precision with
  | .none => []
  | some q => 46 :: numeral 10 q.toNat

/-- The text of the directive behind the percent sign. -/
def Directive.render (d : Directive) : List Nat :=
  d.flags.map Flag.char ++ (d.widthText ++ (d.precisionText ++ (d.modifier.text ++ [d.conversion.char])))

/-- The specifier with the flags of a list set. -/
def PrintkSpecifier.withFlags (spec : PrintkSpecifier) (flags : List Flag) : PrintkSpecifier :=
  { spec with
    leftJustify := spec.leftJustify || decide (.minus ∈ flags)
    zeros := spec.zeros || decide (.zero ∈ flags)
    plus := spec.plus || decide (.plus ∈ flags)
    space := spec.space || decide (.space ∈ flags)
    numPrefix := spec.numPrefix || decide (.hash ∈ flags) }

/-- What should be stored for the directive. -/
def Directive.expected (d : Directive) : PrintkSpecifier :=
  { PrintkSpecifier.zero.withFlags d.flags with
    spec := d.conversion.char
    lengthspec := d.modifier.letter
    width := d.width
    precision := d.precision.getD 0 }

/-! ## What lies ahead of the pointer -/

/-- From `p` on the format reads `s`. -/
def Ahead (fmt : Format) (p : Nat) (s : List Nat) : Prop := p ≤ fmt.length ∧ fmt.drop p = s

variable {fmt : Format} {p : Nat}

theorem ahead_append (pre s : List Nat) : Ahead (pre ++ s) pre.length s := by
  refine ⟨?_, List.drop_left⟩
  rw [List.length_append]
  exact Nat.le_add_right _ _

theorem Ahead.char {s : List Nat} (h : Ahead fmt p s) : charAt fmt p = .ok (s.headD 0) := by
  rw [charAt_eq h.1, ← h.2]
  congr 1
  rw [List.headD_eq_head?_getD, List.head?_drop, List.getD_eq_getElem?_getD]

theorem Ahead.skip {xs s : List Nat} (h : Ahead fmt p (xs ++ s)) : Ahead fmt (p + xs.length) s := by
  have hlen : fmt.length - p = xs.length + s.length := by
    rw [← List.length_drop, h.2, List.length_append]
  refine ⟨by have := h.1; omega, ?_⟩
  rw [← List.drop_drop, h.2, List.drop_left]

theorem Ahead.next {c : Nat} {s : List Nat} (h : Ahead fmt p (c :: s)) : Ahead fmt (p + 1) s :=
  Ahead.skip (show Ahead fmt p ([c] ++ s) from h)

theorem Ahead.head {c : Nat} {s : List Nat} (h : Ahead fmt p (c :: s)) : charAt fmt p = .ok c := h.char

theorem parsePrecision_dot (h : charAt fmt p = .ok 46) : parsePrecision fmt p = parseSpecNumber fmt (p + 1) := by
  rw [parsePrecision, h, ok_bind, if_pos rfl]

theorem parsePrecision_other {c : Nat} (h : charAt fmt p = .ok c) (hc : c ≠ 46) :
    parsePrecision fmt p = .ok (p, 0) := by
  rw [parsePrecision, h, ok_bind, if_neg hc]

theorem parseLength_other {c : Nat} (h : charAt fmt p = .ok c) (hl : c ≠ 108) (hh : c ≠ 104) :
    parseLength fmt p = .ok (p, 0) := by
  rw [parseLength, h, ok_bind, if_neg hl, if_neg hh]

/-! ## Numbers -/

theorem copyDigits_ahead {ds s : List Nat} (hd : ∀ c ∈ ds, isdigit c = true) {left : Nat} (hlen : ds.length ≤ left)
    (hs : isdigit (s.headD 0) = false ∨ ds.length = left) (h : Ahead fmt p (ds ++ s)) (buffer : List Nat) :
    copyDigits fmt left p buffer = .ok (p + ds.length, buffer ++ ds) := by
  induction ds generalizing p left buffer with
  | nil =>
      rw [List.append_nil]
      cases left with
      | zero =>
          rw [copyDigits, h.char]
          rfl
      | succ left =>
          have hend : isdigit (s.headD 0) = false := hs.resolve_right (Nat.succ_ne_zero left).symm
          rw [copyDigits, h.char, ok_bind, List.nil_append, if_neg (by rw [hend]; exact Bool.false_ne_true)]
          rfl
  | cons c ds ih =>
      obtain ⟨left, rfl⟩ : ∃ n, left = n + 1 := ⟨left - 1, by simp at hlen; omega⟩
      have hrest : isdigit (s.headD 0) = false ∨ ds.length = left := hs.imp_right Nat.succ.inj
      have hnext := ih (fun e he => hd e (List.mem_cons_of_mem c he)) (Nat.le_of_succ_le_succ hlen) hrest h.next
        (buffer ++ [c])
      rw [copyDigits, h.head, ok_bind, if_pos (hd c List.mem_cons_self), hnext, List.append_assoc]
      congr 2
      rw [List.length_cons]
      omega

/-- A number of at most two digits is read up to its end. -/
theorem parseSpecNumber_few {ds s : List Nat} (hd : ∀ c ∈ ds, isdigit c = true) (hlen : ds.length < 3)
    (hs : isdigit (s.headD 0) = false) (h : Ahead fmt p (ds ++ s)) :
    parseSpecNumber fmt p = .ok (p + ds.length, if ds.length = 0 then 0 else UInt8.ofInt (atoi ds)) := by
  rw [parseSpecNumber, copyDigits_ahead hd (Nat.le_of_lt hlen) (.inl hs) h, ok_bind, List.nil_append]
  by_cases h0 : ds.length = 0
  · simp only [if_pos h0]
  · simp only [if_neg h0, if_neg (Nat.ne_of_lt hlen), ok_bind]

/-- A number of three digits takes the character behind it along. -/
theorem parseSpecNumber_three {ds s : List Nat} {c : Nat} (hd : ∀ c ∈ ds, isdigit c = true) (hlen : ds.length = 3)
    (hc : isdigit c = false) (hc0 : c ≠ 0) (h : Ahead fmt p (ds ++ c :: s)) :
    parseSpecNumber fmt p = .ok (p + 4, UInt8.ofInt (atoi ds)) := by
  have hskip : skipDigits fmt (fmt.length + 1) (p + ds.length) = .ok (p + ds.length + 1) := by
    rw [skipDigits, h.skip.head, ok_bind, if_neg hc0, if_neg (by rw [hc]; exact Bool.false_ne_true)]
  rw [parseSpecNumber, copyDigits_ahead hd (Nat.le_of_eq hlen) (.inr hlen) h, ok_bind, List.nil_append]
  dsimp only
  rw [if_neg (by omega), if_pos hlen, hskip, hlen]
  rfl

theorem ofInt_atoi_numeral (n : UInt8) : UInt8.ofInt (atoi (numeral 10 n.toNat)) = n := by
  have hlt := n.toNat_lt
  rw [atoi_numeral (by omega)]
  apply UInt8.toNat_inj.mp
  simp [UInt8.ofInt]
  omega

/-- The numerals of fewer than three digits are those of the numbers below a hundred. -/
theorem numeral_length_lt_three {n : UInt8} (h : n < 100) : (numeral 10 n.toNat).length < 3 := by
  have hlt : n.toNat < 10 ^ 2 := UInt8.lt_iff_toNat_lt.mp h
  exact Nat.lt_succ_of_le (numeral_length_le (by decide) (by decide) hlt)

theorem numeral_length_eq_three {n : UInt8} (h : ¬ n < 100) : (numeral 10 n.toNat).length = 3 := by
  have hge : 10 ^ 2 ≤ n.toNat := Nat.not_lt.mp (fun hlt => h (UInt8.lt_iff_toNat_lt.mpr hlt))
  have hlt := n.toNat_lt
  have h1 := lt_numeral_length (by decide : 1 < 10) (by omega) hge
  have h2 : (numeral 10 n.toNat).length ≤ 3 := numeral_length_le (by decide) (by decide) (by omega)
  omega

theorem parseSpecNumber_numeral {n : UInt8} (hn : n < 100) {s : List Nat} (hs : isdigit (s.headD 0) = false)
    (h : Ahead fmt p (numeral 10 n.toNat ++ s)) :
    parseSpecNumber fmt p = .ok (p + (numeral 10 n.toNat).length, n) := by
  have hpos := numeral_length_pos 10 n.toNat
  rw [parseSpecNumber_few (fun c hc => isdigit_of_mem_numeral hc) (numeral_length_lt_three hn) hs h,
    if_neg (by omega), ofInt_atoi_numeral]

/-! ## Flags -/

/-- The character ends the flags. -/
def EndsFlags (c : Nat) : Prop := c ≠ 45 ∧ c ≠ 48 ∧ c ≠ 43 ∧ c ≠ 32 ∧ c ≠ 35 ∧ c ≠ 0

theorem withFlags_nil (spec : PrintkSpecifier) : spec.withFlags [] = spec := by
  simp [PrintkSpecifier.withFlags]

theorem parseFlags_ahead {s : List Nat} (hs : EndsFlags (s.headD 0)) (flags : List Flag) {fuel : Nat}
    (hf : flags.length < fuel) (h : Ahead fmt p (flags.map Flag.char ++ s)) (spec : PrintkSpecifier) :
    parseFlags fmt fuel p spec = .ok (p + flags.length, spec.withFlags flags, false) := by
  induction flags generalizing p fuel spec with
  | nil =>
      obtain ⟨n, rfl⟩ : ∃ n, fuel = n + 1 := ⟨fuel - 1, by simp at hf; omega⟩
      obtain ⟨h45, h48, h43, h32, h35, h0⟩ := hs
      rw [parseFlags, h.char, ok_bind, withFlags_nil]
      split
      · exact absurd ‹_› h45
      · exact absurd ‹_› h48
      · exact absurd ‹_› h43
      · exact absurd ‹_› h32
      · exact absurd ‹_› h35
      · exact absurd ‹_› h0
      · rfl
  | cons f flags ih =>
      obtain ⟨n, rfl⟩ : ∃ n, fuel = n + 1 := ⟨fuel - 1, by simp at hf; omega⟩
      have hrest := ih (Nat.lt_of_succ_lt_succ hf) h.next
      have hlen : p + 1 + flags.length = p + (f :: flags).length := by
        rw [List.length_cons]
        omega
      rw [parseFlags, h.head, ok_bind]
      cases f with
      | minus => simp [Flag.char, hrest, hlen, PrintkSpecifier.withFlags]
      | zero => simp [Flag.char, hrest, hlen, PrintkSpecifier.withFlags]
      | plus => simp [Flag.char, hrest, hlen, PrintkSpecifier.withFlags]
      | space => simp [Flag.char, hrest, hlen, PrintkSpecifier.withFlags]
      | hash => simp [Flag.char, hrest, hlen, PrintkSpecifier.withFlags]

/-! ## The end of a directive -/

/-- The text from the length modifier on, with what follows the directive. -/
def Directive.tail (d : Directive) (text : List Nat) : List Nat := d.modifier.text ++ d.conversion.char :: text

theorem Conversion.char_bounds (c : Conversion) : 99 < c.char ∧ c.char ≠ 108 ∧ c.char ≠ 104 := by
  cases c <;> decide

theorem Directive.tail_head (d : Directive) (text : List Nat) : 99 < (d.tail text).headD 0 := by
  have hc := d.conversion.char_bounds.1
  unfold Directive.tail
  cases d.modifier with
  | none => exact hc
  | l => exact (by decide : 99 < 108)
  | ll => exact (by decide : 99 < 108)
  | h => exact (by decide : 99 < 104)
  | hh => exact (by decide : 99 < 104)

theorem isdigit_of_gt {c : Nat} (h : 99 < c) : isdigit c = false := decide_eq_false (by omega)

/-- The letter the parser stores for a modifier: the single `h` gets the letter of `l`. -/
def LengthModifier.stored : LengthModifier → Nat
  | .h => 108
  | m => m.letter

theorem parseLength_tail (d : Directive) {text : List Nat} (h : Ahead fmt p (d.tail text)) :
    parseLength fmt p = .ok (p + d.modifier.text.length, d.modifier.stored) := by
  obtain ⟨-, hl, hh⟩ := d.conversion.char_bounds
  unfold Directive.tail at h
  rw [parseLength]
  cases hm : d.modifier with
  | none =>
      rw [hm] at h
      rw [← parseLength, parseLength_other h.head hl hh]
      rfl
  | l =>
      rw [hm] at h
      rw [h.head, ok_bind, if_pos rfl, h.next.head, ok_bind, if_neg hl]
      rfl
  | ll =>
      rw [hm] at h
      rw [h.head, ok_bind, if_pos rfl, h.next.head, ok_bind, if_pos rfl]
      rfl
  | h =>
      rw [hm] at h
      rw [h.head, ok_bind, if_neg (by decide), if_pos rfl, h.next.head, ok_bind, if_neg hh]
      rfl
  | hh =>
      rw [hm] at h
      rw [h.head, ok_bind, if_neg (by decide), if_pos rfl, h.next.head, ok_bind, if_pos rfl]
      rfl

/-- With its first character taken along by a number, the end of a directive is misread: the modifier is another one,
    or, where there is none, the pointer comes out too far. -/
theorem parseLength_cut_off (d : Directive) {text s : List Nat} {c p' letter : Nat} (hs : d.tail text = c :: s)
    (h : Ahead fmt p s) (hl : parseLength fmt p = .ok (p', letter)) :
    letter ≠ d.modifier.letter ∨ p + d.modifier.text.length < p' + 1 := by
  obtain ⟨-, hcl, hch⟩ := d.conversion.char_bounds
  unfold Directive.tail at hs
  cases hm : d.modifier with
  | none =>
      obtain ⟨p'', letter', heq, hle, -⟩ := parseLength_total h.1
      rw [hl] at heq
      cases heq
      exact .inr (Nat.lt_succ_of_le hle)
  | l =>
      rw [hm] at hs
      cases hs
      rw [parseLength_other h.head hcl hch] at hl
      cases hl
      exact .inl (by decide)
  | ll =>
      rw [hm] at hs
      cases hs
      rw [parseLength, h.head, ok_bind, if_pos rfl, h.next.head, ok_bind, if_neg hcl] at hl
      cases hl
      exact .inl (by decide)
  | h =>
      rw [hm] at hs
      cases hs
      rw [parseLength_other h.head hcl hch] at hl
      cases hl
      exact .inl (by decide)
  | hh =>
      rw [hm] at hs
      cases hs
      rw [parseLength, h.head, ok_bind, if_neg (by decide), if_pos rfl, h.next.head, ok_bind, if_neg hch] at hl
      cases hl
      exact .inl (by decide)

/-! ## The parts before it -/

theorem precision_head (d : Directive) (text : List Nat) :
    isdigit ((d.precisionText ++ d.tail text).headD 0) = false ∧ EndsFlags ((d.precisionText ++ d.tail text).headD 0) := by
  have htail := d.tail_head text
  unfold Directive.precisionText
  cases d.precision with
  | none => exact ⟨isdigit_of_gt htail, by unfold EndsFlags; rw [List.nil_append]; omega⟩
  | some q => exact ⟨rfl, (by unfold EndsFlags; decide : EndsFlags 46)⟩

theorem width_head (d : Directive) (text : List Nat) :
    EndsFlags ((d.widthText ++ (d.precisionText ++ d.tail text)).headD 0) := by
  unfold Directive.widthText
  by_cases hw : d.width = 0
  · rw [if_pos hw]
    exact (precision_head d text).2
  · rw [if_neg hw]
    have hn : d.width.toNat ≠ 0 := fun h0 => hw (UInt8.toNat_inj.mp h0)
    have hne : (numeral 10 d.width.toNat).headD 0 ≠ 48 := numeral_head_ne_zero hn
    -- The head of the whole is the leading digit, which is not `0`.
    obtain ⟨c, cs, hcs⟩ : ∃ c cs, numeral 10 d.width.toNat = c :: cs :=
      List.exists_cons_of_length_pos (numeral_length_pos 10 d.width.toNat)
    have hge : 48 ≤ c := numeral_ge (hcs ▸ List.mem_cons_self)
    rw [hcs] at hne ⊢
    have h48 : c ≠ 48 := hne
    show EndsFlags c
    unfold EndsFlags
    omega

theorem width_read {d : Directive} (hw : d.width < 100) {s : List Nat} (hs : isdigit (s.headD 0) = false)
    (h : Ahead fmt p (d.widthText ++ s)) : parseSpecNumber fmt p = .ok (p + d.widthText.length, d.width) := by
  unfold Directive.widthText at h ⊢
  by_cases h0 : d.width = 0
  · rw [if_pos h0] at h ⊢
    rw [parseSpecNumber_few (fun c hc => absurd hc List.not_mem_nil) (by decide) hs h, h0]
    rfl
  · rw [if_neg h0] at h ⊢
    exact parseSpecNumber_numeral hw hs h

theorem precision_read {d : Directive} (hq : ∀ q ∈ d.precision, q < 100) {text : List Nat}
    (h : Ahead fmt p (d.precisionText ++ d.tail text)) :
    parsePrecision fmt p = .ok (p + d.precisionText.length, d.precision.getD 0) := by
  have htail := d.tail_head text
  unfold Directive.precisionText at h ⊢
  cases hd : d.precision with
  | none =>
      rw [hd] at h
      rw [parsePrecision_other h.char (show (d.tail text).headD 0 ≠ 46 by omega)]
      rfl
  | some q =>
      rw [hd] at h
      have hread := parseSpecNumber_numeral (hq q hd) (isdigit_of_gt htail) h.next
      rw [parsePrecision_dot h.head, hread, List.length_cons]
      congr 2
      omega

/-- The pieces of a parse, put together. -/
theorem parseSpecifier_parts {p1 p2 p3 p4 c letter : Nat} {spec : PrintkSpecifier} {width precision : UInt8}
    (hflags : parseFlags fmt (fmt.length + 1) p .zero = .ok (p1, spec, false))
    (hwidth : parseSpecNumber fmt p1 = .ok (p2, width)) (hprecision : parsePrecision fmt p2 = .ok (p3, precision))
    (hlength : parseLength fmt p3 = .ok (p4, letter)) (hc : charAt fmt p4 = .ok c) :
    parseSpecifier fmt p =
      .ok (p4 + 1, { spec with spec := c, lengthspec := letter, width := width, precision := precision }) := by
  rw [parseSpecifier, hflags, ok_bind]
  simp only [Bool.false_eq_true, if_false, hwidth, ok_bind, hprecision, hlength, hc]

theorem render_ahead (pre text : List Nat) (d : Directive) :
    Ahead (pre ++ d.render ++ text) pre.length
      (d.flags.map Flag.char ++ (d.widthText ++ (d.precisionText ++ d.tail text))) := by
  have h := ahead_append pre (d.render ++ text)
  rw [← List.append_assoc] at h
  have htext : d.render ++ text = d.flags.map Flag.char ++ (d.widthText ++ (d.precisionText ++ d.tail text)) := by
    unfold Directive.render Directive.tail
    simp only [List.append_assoc, List.singleton_append]
  rwa [htext] at h

theorem render_length (d : Directive) :
    d.render.length =
      d.flags.length + (d.widthText.length + (d.precisionText.length + (d.modifier.text.length + 1))) := by
  unfold Directive.render
  simp only [List.length_append, List.length_map, List.length_singleton]

/-! ## The whole specifier -/

theorem flags_read (pre text : List Nat) (d : Directive) :
    parseFlags (pre ++ d.render ++ text) ((pre ++ d.render ++ text).length + 1) pre.length .zero =
      .ok (pre.length + d.flags.length, PrintkSpecifier.zero.withFlags d.flags, false) := by
  have hlen := render_length d
  apply parseFlags_ahead (width_head d text) d.flags _ (render_ahead pre text d)
  simp only [List.length_append]
  omega

/-- With short numbers everything is read as it is written, but for the letter of a single `h`. -/
theorem parse_short (pre text : List Nat) {d : Directive} (hw : d.width < 100) (hq : ∀ q ∈ d.precision, q < 100) :
    parseSpecifier (pre ++ d.render ++ text) pre.length =
      .ok (pre.length + d.render.length, { d.expected with lengthspec := d.modifier.stored }) := by
  have hrest := (render_ahead pre text d).skip
  rw [List.length_map] at hrest
  have hwidth := width_read hw (precision_head d text).1 hrest
  have hprecision := precision_read hq hrest.skip
  have hlength := parseLength_tail d hrest.skip.skip
  have hc := (show Ahead _ _ (d.modifier.text ++ _) from hrest.skip.skip).skip.head
  rw [parseSpecifier_parts (flags_read pre text d) hwidth hprecision hlength hc, render_length]
  congr 2
  omega

/-- A parse whose last parts are misread does not give what is expected. -/
theorem parse_misread {d : Directive} {p1 p2 p3 e : Nat} {spec : PrintkSpecifier} {width precision : UInt8}
    (hflags : parseFlags fmt (fmt.length + 1) p .zero = .ok (p1, spec, false))
    (hwidth : parseSpecNumber fmt p1 = .ok (p2, width)) (hprecision : parsePrecision fmt p2 = .ok (p3, precision))
    (hp3 : p3 ≤ fmt.length)
    (hmis : ∀ p4 letter, parseLength fmt p3 = .ok (p4, letter) → letter ≠ d.modifier.letter ∨ e < p4 + 1) :
    parseSpecifier fmt p ≠ .ok (e, d.expected) := by
  obtain ⟨p4, letter, hlength, -, hp4⟩ := parseLength_total hp3
  rw [parseSpecifier_parts hflags hwidth hprecision hlength (charAt_eq hp4)]
  intro heq
  injection heq with heq
  obtain ⟨he, hspec⟩ := Prod.mk.inj heq
  rcases hmis p4 letter hlength with hletter | hfar
  · exact hletter (congrArg PrintkSpecifier.lengthspec hspec)
  · omega

/-- Behind a modifier that has lost its first character no dot comes. -/
theorem tail_cut_head {d : Directive} {text s : List Nat} {c : Nat} (hs : d.tail text = c :: s)
    (hm : d.modifier ≠ .none) : 99 < s.headD 0 := by
  have hc := d.conversion.char_bounds.1
  unfold Directive.tail at hs
  cases hd : d.modifier with
  | none => exact absurd hd hm
  | l =>
      rw [hd] at hs
      cases hs
      exact hc
  | ll =>
      rw [hd] at hs
      cases hs
      exact (by decide : 99 < 108)
  | h =>
      rw [hd] at hs
      cases hs
      exact hc
  | hh =>
      rw [hd] at hs
      cases hs
      exact (by decide : 99 < 104)

theorem tail_ne_nil (d : Directive) (text : List Nat) : ∃ c s, d.tail text = c :: s ∧ isdigit c = false ∧ c ≠ 0 := by
  have hhead := d.tail_head text
  cases ht : d.tail text with
  | nil =>
      rw [ht] at hhead
      exact absurd hhead (by decide)
  | cons c s =>
      rw [ht] at hhead
      have hc : 99 < c := hhead
      exact ⟨c, s, rfl, isdigit_of_gt hc, by omega⟩

/-- A precision of three digits takes the next character along. -/
theorem parse_long_precision (pre text : List Nat) {d : Directive} (hw : d.width < 100) {q : UInt8}
    (hd : d.precision = some q) (hq : ¬ q < 100) :
    parseSpecifier (pre ++ d.render ++ text) pre.length ≠ .ok (pre.length + d.render.length, d.expected) := by
  have hrest := (render_ahead pre text d).skip
  rw [List.length_map] at hrest
  have hwidth := width_read hw (precision_head d text).1 hrest
  have hdot := hrest.skip
  have htext : d.precisionText = 46 :: numeral 10 q.toNat := by
    unfold Directive.precisionText
    rw [hd]
  have hlen := numeral_length_eq_three hq
  obtain ⟨c, s, hs, hc, hc0⟩ := tail_ne_nil d text
  rw [htext, hs] at hdot
  have hread := parseSpecNumber_three (fun c hc => isdigit_of_mem_numeral hc) hlen hc hc0 hdot.next
  have hcut := hdot.next.skip.next
  have hprecision := (parsePrecision_dot hdot.head).trans hread
  rw [hlen] at hcut
  apply parse_misread (flags_read pre text d) hwidth hprecision hcut.1
  intro p4 letter hl
  have hmis := parseLength_cut_off d hs hcut hl
  rw [render_length, htext, List.length_cons, hlen]
  omega

/-- A width of three digits takes the next character along, the dot of a precision if there is one. -/
theorem parse_long_width (pre text : List Nat) {d : Directive} (hw : ¬ d.width < 100) :
    parseSpecifier (pre ++ d.render ++ text) pre.length ≠ .ok (pre.length + d.render.length, d.expected) := by
  have hrest := (render_ahead pre text d).skip
  have hw0 : d.width ≠ 0 := by
    intro h0
    rw [h0] at hw
    exact hw (by decide)
  have hwidthText : d.widthText = numeral 10 d.width.toNat := if_neg hw0
  have hlen := numeral_length_eq_three hw
  have hdigits : ∀ c ∈ numeral 10 d.width.toNat, isdigit c = true := fun c hc => isdigit_of_mem_numeral hc
  rw [List.length_map, hwidthText] at hrest
  cases hd : d.precision with
  | none =>
      have hnone : d.precisionText = [] := by
        unfold Directive.precisionText
        rw [hd]
      obtain ⟨c, s, hs, hc, hc0⟩ := tail_ne_nil d text
      rw [hnone, List.nil_append, hs] at hrest
      have hwidth := parseSpecNumber_three hdigits hlen hc hc0 hrest
      have hcut := hrest.skip.next
      rw [hlen] at hcut
      obtain ⟨p3, precision, hprecision, hle, hp3⟩ := parsePrecision_total hcut.1
      apply parse_misread (flags_read pre text d) hwidth hprecision hp3
      intro p4 letter hl
      by_cases hm : d.modifier = .none
      · -- Without a modifier the conversion itself is lost, and the pointer moves behind it.
        obtain ⟨p5, letter', hl', hle', -⟩ := parseLength_total hp3
        rw [hl] at hl'
        cases hl'
        refine .inr ?_
        have htext : d.modifier.text.length = 0 := by
          rw [hm]
          rfl
        rw [render_length, hwidthText, hnone, List.length_nil, hlen]
        omega
      · have hhead := tail_cut_head hs hm
        have hsame : p3 = pre.length + d.flags.length + 3 + 1 := by
          rw [parsePrecision_other hcut.char (by omega)] at hprecision
          cases hprecision
          rfl
        subst hsame
        have hmis := parseLength_cut_off d hs hcut hl
        rw [render_length, hwidthText, hnone, List.length_nil, hlen]
        omega
  | some q =>
      have hsome : d.precisionText = 46 :: numeral 10 q.toNat := by
        unfold Directive.precisionText
        rw [hd]
      obtain ⟨c, cs, hcs⟩ : ∃ c cs, numeral 10 q.toNat = c :: cs :=
        List.exists_cons_of_length_pos (numeral_length_pos 10 q.toNat)
      have hc48 : 48 ≤ c := numeral_ge (hcs ▸ List.mem_cons_self)
      have hc57 : c ≤ 57 := numeral_ten_le (hcs ▸ List.mem_cons_self)
      rw [hsome] at hrest
      have hwidth := parseSpecNumber_three hdigits hlen rfl (by decide) hrest
      have hcut := hrest.skip.next
      rw [hlen, hcs] at hcut
      -- Without its dot the precision is no precision: its first digit is taken for the conversion.
      have hprecision := parsePrecision_other hcut.head (by omega)
      have hlength := parseLength_other hcut.head (by omega) (by omega)
      rw [parseSpecifier_parts (flags_read pre text d) hwidth hprecision hlength hcut.head]
      intro heq
      injection heq with heq
      have hspec : c = d.conversion.char := congrArg PrintkSpecifier.spec (Prod.mk.inj heq).2
      have hconv := d.conversion.char_bounds.1
      omega

/-- **Which specifiers are read as they are written.** The parser stores the flags, the numbers, the length and the
    conversion of a directive and returns the place behind it if and only if the width and the precision have fewer
    than three digits and the modifier is not a single `h`. -/
theorem parse_rendered_iff (pre text : List Nat) (d : Directive) :
    parseSpecifier (pre ++ d.render ++ text) pre.length = .ok (pre.length + d.render.length, d.expected) ↔
      d.width < 100 ∧ (∀ q ∈ d.precision, q < 100) ∧ d.modifier ≠ .h := by
  constructor
  · intro heq
    have hw : d.width < 100 := by
      by_contra hw
      exact parse_long_width pre text hw heq
    have hq : ∀ q ∈ d.precision, q < 100 := by
      intro q hd
      by_contra hq
      exact parse_long_precision pre text hw hd hq heq
    refine ⟨hw, hq, ?_⟩
    intro hm
    rw [parse_short pre text hw hq] at heq
    injection heq with heq
    have hletter : d.modifier.stored = d.modifier.letter :=
      congrArg PrintkSpecifier.lengthspec (Prod.mk.inj heq).2
    rw [hm] at hletter
    exact absurd hletter (by decide)
  · rintro ⟨hw, hq, hm⟩
    have hletter : d.modifier.stored = d.modifier.letter := by
      cases hd : d.modifier with
      | h => exact absurd hd hm
      | none => rfl
      | l => rfl
      | ll => rfl
      | hh => rfl
    rw [parse_short pre text hw hq, hletter]
    rfl

/-- `%100d`. -/
def hundredWide : Directive := ⟨[], 100, none, .none, .d⟩

theorem hundredWide_render : hundredWide.render = [49, 48, 48, 100] := by
  simp [Directive.render, Directive.widthText, Directive.precisionText, hundredWide, numeral, digitChars, digitChar,
    LengthModifier.text, Conversion.char]

/-- The width of `%100d` swallows the conversion: the terminator is stored in its place. -/
theorem hundredWide_misread :
    parseSpecifier hundredWide.render 0 = .ok (5, { hundredWide.expected with spec := 0 }) ∧
    parseSpecifier hundredWide.render 0 ≠ .ok (hundredWide.render.length, hundredWide.expected) := by
  rw [hundredWide_render]
  decide

end LearningOS.Log
