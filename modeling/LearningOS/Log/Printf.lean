import LearningOS.Log.Numbers

/-!
# `Log.Printf` — the integer conversions against the reference and their buffer

Two questions about `__vprint_putsigned` and `__vprint_putunsigned`. In the memory of the kernel, where the buffer is
a cell of a mapped slab: are the characters those of `printf`? And with nothing mapped but the buffer itself, so that
every access outside of it faults: does the call return?
-/

namespace LearningOS.Log

open Word Run Numeral Strings Slab Kmalloc

/-! ## The buffer -/

/-- An object `kmalloc(size)` serves: a cell of the class of the size, in a slab that is mapped. Behind the slab zone
    nothing is. -/
structure Allocated (m : Memory) (buffer size : Nat) : Prop where
  cell : ∃ slab n, buffer = cellAddr (classSize (classOf (mapIndex size))) slab n ∧
    slabHeaderSize + (n + 1) * classSize (classOf (mapIndex size)) ≤ slabSize ∧
    m.lo ≤ slab ∧ slab + slabSize ≤ m.hi
  zone : m.hi ≤ 0xFFFFFF8400000000

/-- What `kmalloc` gives is allocated, wherever the slabs of its caches are mapped. -/
theorem Allocated.of_served {s s' : KSys} {size obj : Nat} {m : Memory} (h : KInv s) (hs : Served s s' size obj)
    (hsize : size ≤ maxKmallocSize)
    (hmapped : ∀ t ∈ s'.slabs (s.classFor size), m.lo ≤ t ∧ t + slabSize ≤ m.hi) (hzone : m.hi ≤ 0xFFFFFF8400000000) :
    Allocated m obj size := by
  have hclass : s.classFor size = classOf (mapIndex size) := h.map _ hs.index
  have hi := (classOf_smallest hsize).1
  obtain ⟨t, ht, n, hn, hobj⟩ := hs.isCell
  obtain ⟨p, hp⟩ := h.holds _ (hclass ▸ hi)
  have hcell := h.cell _ (hclass ▸ hi)
  have hfits := hp.geometry.fits
  have hmul := Nat.mul_le_mul_right (classSize (s.classFor size)) (Nat.succ_le_of_lt hn)
  rw [hcell] at hfits
  refine ⟨⟨t, n, ?_, ?_, hmapped t ht⟩, hzone⟩
  · rw [← hclass]
    exact hobj
  · rw [← hclass]
    exact Nat.add_le_add_left (hmul.trans hfits) slabHeaderSize

/-- The cells of 24 bytes leave some bytes of their slab unused, so one more byte than asked for is mapped. -/
theorem Allocated.room {m : Memory} {buffer size : Nat} (h : Allocated m buffer size) (h24 : 24 ≤ size)
    (hmax : size ≤ maxKmallocSize) : m.lo ≤ buffer ∧ buffer + size ≤ m.hi ∧ buffer + 25 ≤ m.hi := by
  obtain ⟨slab, n, hbuffer, hfits, hlo, hhi⟩ := h.cell
  obtain ⟨hi, hle, -⟩ := classOf_smallest hmax
  obtain ⟨hmod, -, -⟩ := classSize_bounds _ hi
  have hfits : 24 + (n + 1) * classSize (classOf (mapIndex size)) ≤ 8192 := hfits
  have hhi : slab + 8192 ≤ m.hi := hhi
  rw [cellAddr_eq] at hbuffer
  rw [Nat.succ_mul] at hfits
  by_cases hcell : classSize (classOf (mapIndex size)) = 24
  · rw [hcell] at hbuffer hfits hle
    omega
  · generalize n * classSize (classOf (mapIndex size)) = start at hbuffer hfits
    omega

theorem bufferSize_bounds (spec : PrintkSpecifier) : 24 ≤ bufferSize spec ∧ bufferSize spec ≤ 259 := by
  have hw := spec.width.toNat_lt
  have hp := spec.precision.toNat_lt
  unfold bufferSize
  omega

/-! ## How long numbers get -/

/-- In base eight a number has 22 digits from `2 ^ 63` on, and no number has more. -/
theorem octal_length {uint : Nat} (hv : uint < 2 ^ 64) :
    (numeral 8 uint).length ≤ 22 ∧ (uint < 2 ^ 63 → (numeral 8 uint).length ≤ 21) ∧
    (2 ^ 63 ≤ uint → 22 ≤ (numeral 8 uint).length) := by
  refine ⟨?_, ?_, ?_⟩
  · exact numeral_length_le (by decide) (by decide) (Nat.lt_of_lt_of_le hv (by decide))
  · intro h
    exact numeral_length_le (by decide) (by decide) (Nat.lt_of_lt_of_le h (by decide))
  · intro h
    have hne : uint ≠ 0 := by omega
    exact lt_numeral_length (by decide : 1 < 8) hne (Nat.le_trans (by decide) h)

theorem prefixText_length_le (base : Nat) (spec : PrintkSpecifier) : (prefixText base spec).length ≤ 2 := by
  unfold prefixText
  split
  · split
    · exact Nat.le_refl 2
    · split
      · exact Nat.le_refl 2
      · exact Nat.zero_le 2
  · exact Nat.zero_le 2

/-- An octal number of 22 digits with its prefix, in the smallest buffer. -/
def OctalOverflow (uint : Nat) (spec : PrintkSpecifier) (base : Nat) : Prop :=
  spec.numPrefix = true ∧ base = 8 ∧ 2 ^ 63 ≤ uint ∧ spec.width.toNat ≤ 20 ∧ spec.precision.toNat ≤ 20

/-- A number with its prefix has at most 24 characters. -/
theorem number_length_le {uint base : Nat} (hbase : KnownBase base) (hv : uint < 2 ^ 64) (spec : PrintkSpecifier) :
    (prefixText base spec).length + (numeral base uint).length ≤ 24 := by
  have hpre := prefixText_length_le base spec
  rcases hbase with rfl | rfl | rfl
  · have hlen := (octal_length hv).1
    omega
  · have hlen : (numeral 10 uint).length ≤ 20 :=
      numeral_length_le (by decide) (by decide) (Nat.lt_of_lt_of_le hv (by decide))
    omega
  · have hlen : (numeral 16 uint).length ≤ 16 :=
      numeral_length_le (by decide) (by decide) (Nat.lt_of_lt_of_le hv (by decide))
    omega

/-- Apart from that one kind it fits the buffer with its terminator. -/
theorem number_lt_bufferSize {uint base : Nat} (hbase : KnownBase base) (hv : uint < 2 ^ 64) {spec : PrintkSpecifier}
    (h : ¬ OctalOverflow uint spec base) :
    (prefixText base spec).length + (numeral base uint).length < bufferSize spec := by
  have hpre := prefixText_length_le base spec
  have hsize := (bufferSize_bounds spec).1
  rcases hbase with rfl | rfl | rfl
  · obtain ⟨hlen, hshort, -⟩ := octal_length hv
    by_cases hflag : spec.numPrefix = true
    · by_cases hbig : 2 ^ 63 ≤ uint
      · -- A long number leaves room only where the width or the precision has asked for more than 24 bytes.
        have hlong : ¬ (spec.width.toNat ≤ 20 ∧ spec.precision.toNat ≤ 20) := fun hn => h ⟨hflag, rfl, hbig, hn⟩
        unfold bufferSize
        omega
      · have hle := hshort (Nat.not_le.mp hbig)
        omega
    · have hnone : prefixText 8 spec = [] := if_neg hflag
      rw [hnone, List.length_nil]
      omega
  · have hlen : (numeral 10 uint).length ≤ 20 :=
      numeral_length_le (by decide) (by decide) (Nat.lt_of_lt_of_le hv (by decide))
    omega
  · have hlen : (numeral 16 uint).length ≤ 16 :=
      numeral_length_le (by decide) (by decide) (Nat.lt_of_lt_of_le hv (by decide))
    omega

/-! ## Layouts -/

/-- The padding is made of spaces and zeros. -/
theorem mem_layout {c : Nat} {sign digits : List Nat} {spec : PrintkSpecifier} (h : c ∈ layout sign digits spec) :
    c ∈ sign ∨ c ∈ digits ∨ c = 48 ∨ c = 32 := by
  have hpad : ∀ n d, c ∈ List.replicate n d → c = d := fun n d hc => List.eq_of_mem_replicate hc
  unfold layout zeroPad at h
  dsimp only at h
  split at h
  · simp only [List.mem_append] at h
    rcases h with (h | h | h) | h
    · exact .inl h
    · exact .inr (.inr (.inl (hpad _ _ h)))
    · exact .inr (.inl h)
    · exact .inr (.inr (.inr (hpad _ _ h)))
  · split at h
    · simp only [List.mem_append] at h
      rcases h with h | h | h
      · exact .inl h
      · exact .inr (.inr (.inl (hpad _ _ h)))
      · exact .inr (.inl h)
    · simp only [List.mem_append] at h
      rcases h with h | h | h | h
      · exact .inr (.inr (.inr (hpad _ _ h)))
      · exact .inl h
      · exact .inr (.inr (.inl (hpad _ _ h)))
      · exact .inr (.inl h)

theorem digits_subset_layout (sign digits : List Nat) (spec : PrintkSpecifier) : digits ⊆ layout sign digits spec := by
  intro c hc
  unfold layout zeroPad
  dsimp only
  split
  · exact List.mem_append_left _ (List.mem_append_right _ (List.mem_append_right _ hc))
  · split
    · exact List.mem_append_right _ (List.mem_append_right _ hc)
    · exact List.mem_append_right _ (List.mem_append_right _ (List.mem_append_right _ hc))

/-- With a precision the width adds no zeros. -/
theorem count_zero_layout {spec : PrintkSpecifier} (hp : 0 < spec.precision.toNat) (sign digits : List Nat) :
    (layout sign digits spec).count 48 =
      sign.count 48 + ((spec.precision.toNat - digits.length) + digits.count 48) := by
  have hspaces : ∀ n, (List.replicate n 32).count 48 = 0 := by
    intro n
    rw [List.count_replicate]
    rfl
  unfold layout zeroPad
  dsimp only
  split
  · simp only [List.count_append, hspaces, List.count_replicate_self, Nat.add_zero]
  · rw [if_neg (by omega)]
    simp only [List.count_append, hspaces, List.count_replicate_self, Nat.zero_add]

/-- Without a precision it makes no difference whether a lone zero is the sign or the number. -/
theorem layout_zero {spec : PrintkSpecifier} (hp : spec.precision.toNat = 0) :
    layout [48] [] spec = layout [] [48] spec := by
  unfold layout zeroPad
  dsimp only
  rw [hp]
  split
  · rfl
  · split
    · show 48 :: (List.replicate (spec.width.toNat - 1) 48 ++ []) = List.replicate (spec.width.toNat - 1) 48 ++ [48]
      rw [List.append_nil, ← List.replicate_succ, List.replicate_succ']
    · rfl

/-! ## The conversions and `printf` -/

/-- The number is not the least one, and a zero comes with a sign or without a precision. -/
def SignedOk (sint : Int) (spec : PrintkSpecifier) : Prop :=
  sint ≠ -2 ^ 63 ∧ (sint = 0 → spec.plus = true ∨ spec.space = true ∨ spec.precision.toNat = 0)

theorem codeSign_eq_signText {sint : Int} {spec : PrintkSpecifier}
    (h : sint ≠ 0 ∨ spec.plus = true ∨ spec.space = true) : codeSign sint spec = signText sint spec := by
  unfold codeSign signText
  by_cases hneg : sint < 0
  · rw [if_neg (by omega), if_neg (by omega), if_pos hneg, if_pos hneg]
  · rw [if_neg hneg, if_neg hneg]
    have hnonneg : 0 ≤ sint := Int.not_lt.mp hneg
    by_cases hplus : spec.plus = true
    · rw [if_pos ⟨hplus, hnonneg⟩, if_pos hplus]
    · rw [if_neg (fun h => hplus h.1), if_neg hplus]
      by_cases hspace : spec.space = true
      · rw [if_pos ⟨hspace, hnonneg⟩, if_pos hspace]
      · have h0 : sint ≠ 0 := h.resolve_right (fun h' => h'.elim hplus hspace)
        rw [if_neg (fun h => hspace h.1), if_neg hspace, if_neg h0]

/-- The eight among the digits of the least number turns into an opening parenthesis. -/
theorem paren_mem_codeDigits (spec : PrintkSpecifier) : 40 ∈ codeDigits (-2 ^ 63) spec := by
  have h8 : 8 ∈ Nat.digits 10 (2 ^ 63) := by
    norm_num
  unfold codeDigits
  rw [if_neg (by omega), if_pos rfl, List.mem_reverse]
  exact List.mem_map.mpr ⟨8, h8, rfl⟩

theorem paren_notMem_printfSigned (spec : PrintkSpecifier) : 40 ∉ printfSigned (-2 ^ 63) spec := by
  intro h
  rcases mem_layout h with h | h | h | h
  · have hsign : signText (-2 ^ 63) spec = [45] := if_pos (by decide)
    rw [hsign] at h
    exact absurd h (by decide)
  · exact absurd (numeral_ge h) (by decide)
  · exact absurd h (by decide)
  · exact absurd h (by decide)

theorem layout_eq_printfSigned_iff (sint : Int) (spec : PrintkSpecifier) :
    layout (codeSign sint spec) (codeDigits sint spec) spec = printfSigned sint spec ↔ SignedOk sint spec := by
  by_cases hleast : sint = -2 ^ 63
  · subst hleast
    refine ⟨fun heq => ?_, fun hok => absurd rfl hok.1⟩
    have hmem := digits_subset_layout (codeSign (-2 ^ 63) spec) _ spec (paren_mem_codeDigits spec)
    rw [heq] at hmem
    exact absurd hmem (paren_notMem_printfSigned spec)
  by_cases hsign : sint ≠ 0 ∨ spec.plus = true ∨ spec.space = true
  · have hdigits : codeDigits sint spec = numeral 10 sint.natAbs := by
      unfold codeDigits
      rw [if_neg, if_neg hleast]
      rintro ⟨h0, hplus, hspace⟩
      rw [hplus, hspace] at hsign
      exact hsign.elim (fun h => h h0) (by decide)
    rw [codeSign_eq_signText hsign, hdigits]
    exact ⟨fun _ => ⟨hleast, fun h0 => (hsign.resolve_left (not_not.mpr h0)).imp_right .inl⟩, fun _ => rfl⟩
  · -- A zero without a sign: the code has it in the place of the sign.
    obtain ⟨h0, hflags⟩ := not_or.mp hsign
    obtain ⟨hplus, hspace⟩ := not_or.mp hflags
    have h0 : sint = 0 := not_not.mp h0
    have hcode : codeSign sint spec = [48] ∧ codeDigits sint spec = [] := by
      unfold codeSign codeDigits
      rw [if_neg (fun h => hplus h.1), if_neg (fun h => hspace h.1), if_neg (by omega), if_pos h0,
        if_pos ⟨h0, Bool.eq_false_iff.mpr hplus, Bool.eq_false_iff.mpr hspace⟩]
      exact ⟨rfl, rfl⟩
    have hprintf : printfSigned sint spec = layout [] [48] spec := by
      unfold printfSigned signText
      rw [if_neg (by omega), if_neg hplus, if_neg hspace, h0]
      rfl
    rw [hcode.1, hcode.2, hprintf]
    constructor
    · intro heq
      refine ⟨hleast, fun _ => .inr (.inr ?_)⟩
      by_contra hp
      have hp : 0 < spec.precision.toNat := Nat.pos_of_ne_zero hp
      have hcount := congrArg (List.count 48) heq
      rw [count_zero_layout hp, count_zero_layout hp] at hcount
      simp at hcount
      omega
    · intro hok
      exact layout_zero (((hok.2 h0).resolve_left hplus).resolve_left hspace)

/-- **When the characters are those of `printf`.** Signed: the number is not the least one, and a zero without a sign
    has no precision. Unsigned: not the prefix flag in base ten with padding that starts behind the prefix, nor a
    prefix padded with zeros to a width of one. -/
theorem conversions_eq_printf_iff (m : Memory) (buffer : Nat) (sint : Int64) (uint : UInt64) (base : Nat)
    (spec : PrintkSpecifier) (hbase : KnownBase base) (h : Allocated m buffer (bufferSize spec)) :
    (vprintPutsigned m buffer sint.toInt spec = .ok (printfSigned sint.toInt spec) ↔ SignedOk sint.toInt spec) ∧
    (vprintPutunsigned m buffer uint.toNat spec base = .ok (printfUnsigned uint.toNat spec base) ↔
      UnsignedOk spec base) := by
  obtain ⟨h24, hmax⟩ := bufferSize_bounds spec
  obtain ⟨hlo, hroom, hmore⟩ := h.room h24 (hmax.trans (by decide))
  have hzone := h.zone
  constructor
  · rw [vprintPutsigned_eq spec sint.le_toInt sint.toInt_lt hlo hroom (by omega), Except.ok.injEq]
    exact layout_eq_printfSigned_iff sint.toInt spec
  · have hnumber := number_length_le hbase uint.toNat_lt spec
    constructor
    · intro heq
      by_contra hbad
      obtain ⟨e, hfault⟩ := vprintPutunsigned_faults hbase uint.toNat_lt hlo (by omega) (by omega) hbad
      rw [hfault] at heq
      cases heq
    · intro hok
      exact vprintPutunsigned_eq hbase uint.toNat_lt hlo hroom (by omega) (by omega) hok

/-- A slab of 24-byte objects at the start of the slab zone, alone in mapped memory, and its first object. -/
def sampleSlab : Memory := ⟨0xFFFFFF8200000000, 0xFFFFFF8200002000, fun _ => 170⟩

/-- The specifier of `%.1d`. -/
def oneDigit : PrintkSpecifier := { PrintkSpecifier.zero with spec := 100, precision := 1 }

theorem sampleSlab_allocated : Allocated sampleSlab 0xFFFFFF8200000018 24 :=
  ⟨⟨0xFFFFFF8200000000, 0, by decide, by decide, by decide, by decide⟩, by decide⟩

theorem conversions_of_seven :
    vprintPutsigned sampleSlab 0xFFFFFF8200000018 (7 : Int64).toInt oneDigit =
      .ok (printfSigned (7 : Int64).toInt oneDigit) ∧
    vprintPutunsigned sampleSlab 0xFFFFFF8200000018 (7 : UInt64).toNat oneDigit 16 =
      .ok (printfUnsigned (7 : UInt64).toNat oneDigit 16) := by
  obtain ⟨hsigned, hunsigned⟩ :=
    conversions_eq_printf_iff sampleSlab _ 7 7 16 oneDigit (.inr (.inr rfl)) sampleSlab_allocated
  refine ⟨hsigned.mpr ⟨by decide, fun h0 => absurd h0 (by decide)⟩, hunsigned.mpr ⟨?_, ?_⟩⟩
  · exact fun h => absurd h.1 (by decide)
  · exact fun h => absurd h.1 (by decide)

/-- `%.1d` prints `0` as `00`. -/
theorem zero_with_precision_doubled :
    vprintPutsigned sampleSlab 0xFFFFFF8200000018 0 oneDigit = .ok [48, 48] ∧ printfSigned 0 oneDigit = [48] := by
  decide

/-! ## The buffer is long enough -/

/-- Memory with nothing mapped but a buffer. -/
def bufferOnly (byte : Nat → Nat) (buffer size : Nat) : Memory := ⟨buffer, buffer + size, byte⟩

/-- The number of zeros is no negative difference. -/
def PadForward (spec : PrintkSpecifier) (buffer part : Nat) : Prop :=
  ZeroPads spec → part - buffer ≤ spec.width.toNat

/-- `__vprint_putsigned` accesses nothing outside of its buffer and pads by no negative length. -/
def SignedSafe (byte : Nat → Nat) (buffer : Nat) (sint : Int) (spec : PrintkSpecifier) : Prop :=
  (∃ out, vprintPutsigned (bufferOnly byte buffer (bufferSize spec)) buffer sint spec = .ok out) ∧
  ∀ m part, putSign (bufferOnly byte buffer (bufferSize spec)) buffer sint spec = .ok (m, part) →
    PadForward spec buffer part

/-- `__vprint_putunsigned` accesses nothing outside of its buffer and pads by no negative length. -/
def UnsignedSafe (byte : Nat → Nat) (buffer uint : Nat) (spec : PrintkSpecifier) (base : Nat) : Prop :=
  (∃ out, vprintPutunsigned (bufferOnly byte buffer (bufferSize spec)) buffer uint spec base = .ok out) ∧
  ∀ m part, putPrefix (bufferOnly byte buffer (bufferSize spec)) buffer uint spec base = .ok (m, some part) →
    PadForward spec buffer part

theorem signed_safe (byte : Nat → Nat) {buffer : Nat} {sint : Int} (spec : PrintkSpecifier) (hmin : -2 ^ 63 ≤ sint)
    (hmax : sint < 2 ^ 63) (haddr : buffer + bufferSize spec ≤ 2 ^ 64) : SignedSafe byte buffer sint spec := by
  have h24 := (bufferSize_bounds spec).1
  refine ⟨⟨_, vprintPutsigned_eq spec hmin hmax (Nat.le_refl buffer) (Nat.le_refl _) haddr⟩, ?_⟩
  intro m part heq hz
  obtain ⟨m', heq', -⟩ := putSign_eq (m := bufferOnly byte buffer (bufferSize spec)) spec hmin hmax
    (Nat.le_refl buffer) (Nat.add_le_add_left h24 buffer) haddr
  rw [heq] at heq'
  cases heq'
  rw [Nat.add_sub_cancel_left]
  exact (codeSign_length_le sint spec).trans hz.1

/-- The number that is too long writes its terminator behind the buffer, when it is shifted for the prefix. -/
theorem octal_overflow_faults (byte : Nat → Nat) {buffer uint base : Nat} {spec : PrintkSpecifier}
    (hv : uint < 2 ^ 64) (h : OctalOverflow uint spec base) :
    putPrefix (bufferOnly byte buffer (bufferSize spec)) buffer uint spec base = .error .unmapped := by
  obtain ⟨hflag, rfl, hbig, hw, hp⟩ := h
  obtain ⟨hmax, -, hlong⟩ := octal_length hv
  have hlen := hlong hbig
  have hsize : bufferSize spec = 24 := by
    unfold bufferSize
    omega
  rw [hsize]
  obtain ⟨m1, hutoa, htext, -, hhi⟩ := utoa_eq (m := bufferOnly byte buffer 24)
    (by decide : 1 < 8) (by decide) hv (Nat.le_refl buffer) (show _ < buffer + 24 by omega)
  have hhi : m1.hi = buffer + 24 := hhi
  have hput : prepend buffer [48, 111] m1 = .error .unmapped := by
    apply prepend_unmapped htext
    rw [hhi]
    show buffer + 24 ≤ buffer + (2 + (numeral 8 uint).length)
    omega
  rw [putPrefix, hutoa, ok_bind]
  dsimp only
  rw [if_pos hflag, if_pos rfl, hput]
  rfl

theorem unsigned_safe_iff (byte : Nat → Nat) {buffer uint base : Nat} {spec : PrintkSpecifier} (hbase : KnownBase base)
    (hv : uint < 2 ^ 64) (haddr : buffer + bufferSize spec ≤ 2 ^ 64) :
    UnsignedSafe byte buffer uint spec base ↔ UnsignedOk spec base ∧ ¬ OctalOverflow uint spec base := by
  obtain ⟨hb, hb'⟩ := hbase.bounds
  have h259 := (bufferSize_bounds spec).2
  constructor
  · rintro ⟨⟨out, hout⟩, -⟩
    have hfits : ¬ OctalOverflow uint spec base := by
      intro hlong
      rw [vprintPutunsigned, octal_overflow_faults byte hv hlong] at hout
      cases hout
    refine ⟨?_, hfits⟩
    by_contra hbad
    have hnumber := number_lt_bufferSize hbase hv hfits
    have hhi : (bufferOnly byte buffer (bufferSize spec)).hi + 64 < buffer + 2 ^ 64 := by
      show buffer + bufferSize spec + 64 < buffer + 2 ^ 64
      omega
    obtain ⟨e, hfault⟩ := vprintPutunsigned_faults (m := bufferOnly byte buffer (bufferSize spec)) hbase hv
      (Nat.le_refl buffer) (Nat.add_lt_add_left hnumber buffer) hhi hbad
    rw [hfault] at hout
    cases hout
  · rintro ⟨hok, hfits⟩
    have hnumber := number_lt_bufferSize hbase hv hfits
    refine ⟨⟨_, vprintPutunsigned_eq (m := bufferOnly byte buffer (bufferSize spec)) hbase hv (Nat.le_refl buffer)
      (Nat.le_refl _) (Nat.add_lt_add_left hnumber buffer) haddr hok⟩, ?_⟩
    intro m part heq hz
    obtain ⟨m', heq', -⟩ := putPrefix_eq (m := bufferOnly byte buffer (bufferSize spec)) spec hb hb' hv
      (Nat.le_refl buffer) (Nat.add_lt_add_left hnumber buffer)
    rw [heq] at heq'
    have hpart : some part = codePart buffer spec base := (Prod.mk.inj (Except.ok.inj heq')).2
    have hpos := hz.1
    rcases codePart_cases hbase buffer spec with ⟨-, -, -, hnone⟩ | ⟨hpre, hten, -, hsome⟩ | ⟨-, -, hsome⟩
    · rw [hnone] at hpart
      cases hpart
    · rw [hsome] at hpart
      cases hpart
      have hone : spec.width.toNat ≠ 1 := fun h1 => hok.2 ⟨hpre, hten, h1, hz⟩
      omega
    · rw [hsome] at hpart
      cases hpart
      omega

/-- **When the buffer is long enough.** For signed numbers always. For unsigned ones exactly when no unset pointer is
    used and no width is smaller than the prefix it pads behind, and the number is not an octal one of 22 digits with
    a prefix in the smallest buffer. -/
theorem buffer_safe_iff (byte : Nat → Nat) (buffer : Nat) (sint : Int64) (uint : UInt64) (base : Nat)
    (spec : PrintkSpecifier) (hbase : KnownBase base) (haddr : buffer + bufferSize spec ≤ 2 ^ 64) :
    SignedSafe byte buffer sint.toInt spec ∧
    (UnsignedSafe byte buffer uint.toNat spec base ↔
      UnsignedOk spec base ∧ ¬ OctalOverflow uint.toNat spec base) :=
  ⟨signed_safe byte spec sint.le_toInt sint.toInt_lt haddr, unsigned_safe_iff byte hbase uint.toNat_lt haddr⟩

/-- The specifier of `%#o`. -/
def octalWithPrefix : PrintkSpecifier := { PrintkSpecifier.zero with spec := 117, numPrefix := true }

theorem buffer_safe_for_seven :
    SignedSafe (fun _ => 170) 0xFFFFFF8200000018 (7 : Int64).toInt octalWithPrefix ∧
    UnsignedSafe (fun _ => 170) 0xFFFFFF8200000018 (7 : UInt64).toNat octalWithPrefix 8 := by
  obtain ⟨hsigned, hunsigned⟩ :=
    buffer_safe_iff (fun _ => 170) 0xFFFFFF8200000018 7 7 8 octalWithPrefix (.inl rfl) (by decide)
  refine ⟨hsigned, hunsigned.mpr ⟨⟨fun h => absurd h.2.1 (by decide), fun h => absurd h.2.2.1 (by decide)⟩, ?_⟩⟩
  exact fun h => absurd h.2.2.1 (by decide)

/-- `%#lo` of `2 ^ 63` writes behind its 24 bytes: 22 digits, the prefix and the terminator are 25. -/
theorem long_octal_overflows :
    ¬ UnsignedSafe (fun _ => 170) 0xFFFFFF8200000018 (2 ^ 63) octalWithPrefix 8 := by
  rintro ⟨⟨out, hout⟩, -⟩
  have hlong : OctalOverflow (2 ^ 63) octalWithPrefix 8 := ⟨rfl, rfl, by decide, by decide, by decide⟩
  rw [vprintPutunsigned, octal_overflow_faults _ (by decide) hlong] at hout
  cases hout

end LearningOS.Log
