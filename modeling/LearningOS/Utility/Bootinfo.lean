import LearningOS.Lib.Bytes
import LearningOS.Lib.Word

/-!
# `Utility.Bootinfo` — `boot_tag_by_type`

The boot loader leaves a block of tags: a header of 8 bytes, then the tags, each at the next multiple of 8 after the one
before it, the last of type 0. `boot_tag_by_type` walks from tag to tag by their rounded sizes. `TagsAt` is the layout of
the block as the format has it, over the addresses where tags *end*; the walk only ever sees sizes, and
`bootTagByType_walk` is the induction that keeps the two in step.
-/

namespace LearningOS

open Bytes Word

/-! ## The walk -/

/-- `MULTIBOOT_TAG_TYPE_END`. -/
abbrev multibootTagTypeEnd : Nat := 0

/-- The loop of `boot_tag_by_type`, with the addresses of the words it reads in order. -/
def bootTagLoop (mem : Mem) (type : Nat) : Nat → Nat → Option (Nat × List Nat)
  | 0, _ => none
  | fuel + 1, tag =>
    if load 4 mem tag = type then some (tag, [tag])
    else if load 4 mem tag = multibootTagTypeEnd then some (0, [tag, tag])
    else do
      let (result, reads) ← bootTagLoop mem type fuel (add64 tag (addW 32 (load 4 mem (tag + 4)) 7 &&& notW 32 7))
      some (result, tag :: tag :: (tag + 4) :: reads)

/-- `boot_tag_by_type`; `info` is `KPHYS_ADDR(multiboot_info_ptr)`, and `NULL` is 0. -/
def bootTagByType (fuel : Nat) (mem : Mem) (info type : Nat) : Option (Nat × List Nat) :=
  bootTagLoop mem type fuel (add64 info 8)

/-! ## The block -/

/-- `struct multiboot_tag`. -/
structure BootTag where
  type : Nat
  size : Nat
deriving DecidableEq

/-- The tag is at the address. -/
structure TagAt (mem : Mem) (tag : Nat) (t : BootTag) : Prop where
  type : load 4 mem tag = t.type
  size : load 4 mem (tag + 4) = t.size
  size_ge : 8 ≤ t.size

/-- The next multiple of 8 from the end of a tag on. -/
def nextTag (tag : Nat) (t : BootTag) : Nat := (tag + t.size + 7) / 8 * 8

/-- The tags from the address on, up to the one of type 0. -/
inductive TagsAt (mem : Mem) : Nat → List BootTag → Prop where
  | last {tag : Nat} {t : BootTag} : TagAt mem tag t → t.type = multibootTagTypeEnd → TagsAt mem tag [t]
  | cons {tag : Nat} {t : BootTag} {ts : List BootTag} :
      TagAt mem tag t → t.type ≠ multibootTagTypeEnd → TagsAt mem (nextTag tag t) ts → TagsAt mem tag (t :: ts)

/-- The tags with their addresses. -/
def tagLayout : Nat → List BootTag → List (Nat × BootTag)
  | _, [] => []
  | tag, t :: ts => (tag, t) :: tagLayout (nextTag tag t) ts

/-- The address after the last tag. -/
def tagsEnd : Nat → List BootTag → Nat
  | tag, [] => tag
  | tag, t :: ts => tagsEnd (nextTag tag t) ts

/-- A block of information as the boot loader leaves it. -/
structure WellFormedBlock (mem : Mem) (info : Nat) (tags : List BootTag) : Prop where
  aligned : info % 8 = 0
  layout : TagsAt mem (info + 8) tags
  length : tagsEnd (info + 8) tags - info < 2 ^ 32 - 8
  fits : tagsEnd (info + 8) tags ≤ 2 ^ 64

/-- The address of the first tag of that type, or `NULL`. -/
def firstOfType (type : Nat) (layout : List (Nat × BootTag)) : Nat :=
  match layout.find? (fun p => p.2.type = type) with
  | some p => p.1
  | none => 0

/-! ## The walk over a block -/

theorem le_nextTag (tag : Nat) (t : BootTag) : tag + t.size ≤ nextTag tag t := by
  unfold nextTag
  omega

theorem le_tagsEnd (tag : Nat) (ts : List BootTag) : tag ≤ tagsEnd tag ts := by
  induction ts generalizing tag with
  | nil => exact le_refl tag
  | cons t ts ih =>
      calc tag ≤ tag + t.size := Nat.le_add_right tag t.size
        _ ≤ nextTag tag t := le_nextTag tag t
        _ ≤ tagsEnd (nextTag tag t) ts := ih (nextTag tag t)

/-- **One step**: from an aligned tag the rounded size leads to the next tag. -/
theorem add_rounded_size {tag : Nat} {t : BootTag} (haligned : tag % 8 = 0) (hsize : t.size + 7 < 2 ^ 32)
    (hfits : nextTag tag t < 2 ^ 64) : add64 tag (addW 32 t.size 7 &&& notW 32 7) = nextTag tag t := by
  have hround : addW 32 t.size 7 &&& notW 32 7 = (t.size + 7) / 2 ^ 3 * 2 ^ 3 := by
    rw [addW_of_lt hsize]
    exact and_notW_mask (k := 3) hsize (by decide)
  unfold nextTag at hfits ⊢
  rw [hround, add64_of_lt (by omega)]
  omega

variable {mem : Mem} {type : Nat}

/-- Behind the address of a tag there are at least its two fields. -/
theorem TagsAt.lt_end {tag : Nat} {tags : List BootTag} (h : TagsAt mem tag tags) : tag + 8 ≤ tagsEnd tag tags := by
  have hfirst : ∀ {t : BootTag} (ts : List BootTag), TagAt mem tag t → tag + 8 ≤ tagsEnd tag (t :: ts) := by
    intro t ts ht
    calc tag + 8 ≤ tag + t.size := Nat.add_le_add_left ht.size_ge tag
      _ ≤ nextTag tag t := le_nextTag tag t
      _ ≤ tagsEnd (nextTag tag t) ts := le_tagsEnd (nextTag tag t) ts
  cases h with
  | last ht _ => exact hfirst [] ht
  | cons ht _ _ => exact hfirst _ ht

theorem firstOfType_cons (tag : Nat) (t : BootTag) (layout : List (Nat × BootTag)) :
    firstOfType type ((tag, t) :: layout) = if t.type = type then tag else firstOfType type layout := by
  unfold firstOfType
  by_cases h : t.type = type
  · rw [List.find?_cons_of_pos (by simpa using h), if_pos h]
  · rw [List.find?_cons_of_neg (by simpa using h), if_neg h]

/-- **The walk**, by induction on the tags: it finds the first tag of the type, and reads fields of tags only. The sizes
    are bounded by the distance from `start` to the end of the block. -/
theorem bootTagLoop_walk {start tag : Nat} {tags : List BootTag} (htags : TagsAt mem tag tags)
    (hstart : start ≤ tag) (haligned : tag % 8 = 0) (hlength : tagsEnd tag tags - start < 2 ^ 32 - 16)
    (hfits : tagsEnd tag tags ≤ 2 ^ 64) (htype : type ≠ multibootTagTypeEnd) {fuel : Nat} (hfuel : tags.length ≤ fuel) :
    ∃ reads, bootTagLoop mem type fuel tag = some (firstOfType type (tagLayout tag tags), reads) ∧
      ∀ a ∈ reads, ∃ p ∈ tagLayout tag tags, a = p.1 ∨ a = p.1 + 4 := by
  induction htags generalizing fuel with
  | @last tag t ht hend =>
      obtain ⟨fuel, rfl⟩ : ∃ n, fuel = n + 1 := Nat.exists_eq_succ_of_ne_zero (by rintro rfl; cases hfuel)
      have hne : ¬ t.type = type := by
        rw [hend]
        exact fun h => htype h.symm
      refine ⟨[tag, tag], ?_, ?_⟩
      · rw [bootTagLoop, ht.type, if_neg hne, if_pos hend, tagLayout, firstOfType_cons, if_neg hne]
        rfl
      · intro a ha
        refine ⟨(tag, t), List.mem_cons_self, .inl ?_⟩
        simpa using ha
  | @cons tag t ts ht hne hts ih =>
      obtain ⟨fuel, rfl⟩ : ∃ n, fuel = n + 1 := Nat.exists_eq_succ_of_ne_zero (by rintro rfl; cases hfuel)
      have hfuel : ts.length ≤ fuel := Nat.le_of_succ_le_succ hfuel
      rw [bootTagLoop, ht.type, tagLayout, firstOfType_cons]
      by_cases hfound : t.type = type
      · refine ⟨[tag], ?_, ?_⟩
        · rw [if_pos hfound, if_pos hfound]
        · intro a ha
          exact ⟨(tag, t), List.mem_cons_self, .inl (List.mem_singleton.mp ha)⟩
      · rw [if_neg hfound, if_neg hne, if_neg hfound, ht.size]
        have hend : tagsEnd tag (t :: ts) = tagsEnd (nextTag tag t) ts := rfl
        rw [hend] at hlength hfits
        have hnext := le_nextTag tag t
        have hbehind := hts.lt_end
        have hmultiple : nextTag tag t % 8 = 0 := Nat.mul_mod_left _ _
        rw [add_rounded_size haligned (by omega) (by omega)]
        obtain ⟨reads, hwalk, hreads⟩ := ih (by omega) hmultiple hlength hfits hfuel
        refine ⟨tag :: tag :: (tag + 4) :: reads, ?_, ?_⟩
        · rw [hwalk]
          rfl
        · intro a ha
          simp only [List.mem_cons] at ha
          rcases ha with ha | ha | ha | ha
          · exact ⟨(tag, t), List.mem_cons_self, .inl ha⟩
          · exact ⟨(tag, t), List.mem_cons_self, .inl ha⟩
          · exact ⟨(tag, t), List.mem_cons_self, .inr ha⟩
          · obtain ⟨p, hp, ha⟩ := hreads a ha
            exact ⟨p, List.mem_cons_of_mem _ hp, ha⟩

/-- **Boot tag lookup finds the first tag**: with as many rounds as there are tags it ends, with the address of the first
    tag of the type or `NULL`, and every word it reads is a `type` or a `size` of one of the tags. -/
theorem boot_tag_by_type_first {info : Nat} {tags : List BootTag} (h : WellFormedBlock mem info tags)
    (htype : type ≠ multibootTagTypeEnd) {fuel : Nat} (hfuel : tags.length ≤ fuel) :
    ∃ reads, bootTagByType fuel mem info type = some (firstOfType type (tagLayout (info + 8) tags), reads) ∧
      ∀ a ∈ reads, ∃ p ∈ tagLayout (info + 8) tags, a = p.1 ∨ a = p.1 + 4 := by
  have haligned := h.aligned
  have hlength := h.length
  have hfits := h.fits
  have hbehind := h.layout.lt_end
  unfold bootTagByType
  rw [add64_of_lt (by omega)]
  exact bootTagLoop_walk h.layout (le_refl _) (by omega) (by omega) hfits htype hfuel

/-- A tag of 12 bytes before the one that is looked for. -/
theorem boot_tag_by_type_after_odd_size :
    ∃ reads, bootTagByType 3
        (fun a => ([0, 0, 0, 0, 0, 0, 0, 0, 1, 0, 0, 0, 12, 0, 0, 0, 65, 66, 67, 0, 0, 0, 0, 0,
          6, 0, 0, 0, 16, 0, 0, 0, 24, 0, 0, 0, 0, 0, 0, 0, 0, 0, 0, 0, 8, 0, 0, 0] : List UInt8).getD a 0) 0 6 =
        some (firstOfType 6 (tagLayout (0 + 8) [⟨1, 12⟩, ⟨6, 16⟩, ⟨0, 8⟩]), reads) ∧
      ∀ a ∈ reads, ∃ p ∈ tagLayout (0 + 8) [⟨1, 12⟩, ⟨6, 16⟩, ⟨0, 8⟩], a = p.1 ∨ a = p.1 + 4 := by
  refine boot_tag_by_type_first ⟨by decide, ?_, by decide, by decide⟩ (by decide) (by decide)
  refine .cons ⟨by decide, by decide, by decide⟩ (by decide) ?_
  refine .cons ⟨by decide, by decide, by decide⟩ (by decide) ?_
  exact .last ⟨by decide, by decide, by decide⟩ rfl

end LearningOS
