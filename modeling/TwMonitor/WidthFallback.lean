import TwMonitor.AssemblerRefinement

/-!
# The width specifier

The assembler reads the width in many places: two flags, two macros that leave
early, and a fallback of its own in most cases of the switch. All of it comes
down to keeping the narrow forms, the wide ones or both, and to trying the
narrow ones first.
-/
namespace TwMonitor.Thumb
open ByteMemory

/-- The same instruction at another width. -/
def ThumbInstructionSpec.withWidth (spec : ThumbInstructionSpec) (width : ThumbWidthSpecifier) :
    ThumbInstructionSpec := { spec with width }

namespace Choices
variable (c : Choices)

@[simp] theorem narrowWord_restrict_narrow : (c.restrict .narrow).narrowWord = c.narrowWord := rfl

@[simp] theorem wideWord_restrict_narrow : (c.restrict .narrow).wideWord = none := rfl

@[simp] theorem narrowWord_restrict_wide : (c.restrict .wide).narrowWord = none := rfl

@[simp] theorem wideWord_restrict_wide : (c.restrict .wide).wideWord = c.wideWord := rfl

@[simp] theorem restrict_auto : c.restrict .auto = c := rfl

end Choices

/-- The width only restricts the forms, it has no part in making them. -/
theorem candidates_withWidth (spec : ThumbInstructionSpec) (width : ThumbWidthSpecifier) :
    candidates (spec.withWidth width) = (forms spec).restrict width := rfl

section
variable (into : Address) (spec : ThumbInstructionSpec) (m : Memory)

theorem thumbAssemble_narrow :
    (∃ h, (forms spec).narrowWord = some h ∧
      thumbAssemble into (spec.withWidth .narrow) m = (.narrowSuccess,store16 m into h)) ∨
    (forms spec).narrowWord = none ∧
      ∃ r, ThumbAssembleResult.succeeds r = false ∧
        thumbAssemble into (spec.withWidth .narrow) m = (r,m) := by
  have hwords := thumbAssemble_words into (spec.withWidth .narrow) m
  simp only [candidates_withWidth,Choices.narrowWord_restrict_narrow,
    Choices.wideWord_restrict_narrow] at hwords
  rcases hwords with hnarrow | ⟨_,_,hwide,_⟩ | ⟨hn,_,hrefused⟩
  · exact Or.inl hnarrow
  · exact absurd hwide (Option.some_ne_none _).symm
  · exact Or.inr ⟨hn,hrefused⟩

theorem thumbAssemble_wide :
    (∃ w, (forms spec).wideWord = some w ∧
      thumbAssemble into (spec.withWidth .wide) m = (.wideSuccess,store32 m into w)) ∨
    (forms spec).wideWord = none ∧
      ∃ r, ThumbAssembleResult.succeeds r = false ∧
        thumbAssemble into (spec.withWidth .wide) m = (r,m) := by
  have hwords := thumbAssemble_words into (spec.withWidth .wide) m
  simp only [candidates_withWidth,Choices.narrowWord_restrict_wide,
    Choices.wideWord_restrict_wide] at hwords
  rcases hwords with ⟨_,hnarrow,_⟩ | ⟨w,_,hwide,he⟩ | ⟨_,hw,hrefused⟩
  · exact absurd hnarrow (Option.some_ne_none _).symm
  · exact Or.inl ⟨w,hwide,he⟩
  · exact Or.inr ⟨hw,hrefused⟩

/-- Without a width the narrow forms come first. -/
theorem thumbAssemble_auto :
    (∃ h, (forms spec).narrowWord = some h ∧
      thumbAssemble into (spec.withWidth .auto) m = (.narrowSuccess,store16 m into h)) ∨
    (∃ w, (forms spec).narrowWord = none ∧ (forms spec).wideWord = some w ∧
      thumbAssemble into (spec.withWidth .auto) m = (.wideSuccess,store32 m into w)) ∨
    (forms spec).narrowWord = none ∧ (forms spec).wideWord = none ∧
      ∃ r, ThumbAssembleResult.succeeds r = false ∧
        thumbAssemble into (spec.withWidth .auto) m = (r,m) :=
  thumbAssemble_words into (spec.withWidth .auto) m

/-- An explicit width never gives the other one. -/
theorem thumbAssemble_narrow_ne_wideSuccess :
    (thumbAssemble into (spec.withWidth .narrow) m).1 ≠ .wideSuccess := by
  rcases thumbAssemble_narrow into spec m with ⟨h,_,he⟩ | ⟨_,r,hr,he⟩
  · simp [he]
  · rw [he]
    rintro rfl
    simp [ThumbAssembleResult.succeeds] at hr

theorem thumbAssemble_wide_ne_narrowSuccess :
    (thumbAssemble into (spec.withWidth .wide) m).1 ≠ .narrowSuccess := by
  rcases thumbAssemble_wide into spec m with ⟨w,_,he⟩ | ⟨_,r,hr,he⟩
  · simp [he]
  · rw [he]
    rintro rfl
    simp [ThumbAssembleResult.succeeds] at hr

theorem thumbAssemble_auto_of_narrow
    (hnarrow : (thumbAssemble into (spec.withWidth .narrow) m).1.succeeds = true) :
    thumbAssemble into (spec.withWidth .auto) m =
      thumbAssemble into (spec.withWidth .narrow) m := by
  rcases thumbAssemble_narrow into spec m with ⟨h,hh,he⟩ | ⟨_,r,hr,he⟩
  · rcases thumbAssemble_auto into spec m with ⟨h',hh',ha⟩ | ⟨_,hn,_⟩ | ⟨hn,_⟩
    · obtain rfl := Option.some.inj (hh.symm.trans hh')
      rw [he,ha]
    · simp [hn] at hh
    · simp [hn] at hh
  · simp [he,hr] at hnarrow

theorem thumbAssemble_auto_of_wide
    (hnarrow : (thumbAssemble into (spec.withWidth .narrow) m).1.succeeds = false)
    (hwide : (thumbAssemble into (spec.withWidth .wide) m).1.succeeds = true) :
    thumbAssemble into (spec.withWidth .auto) m =
      thumbAssemble into (spec.withWidth .wide) m := by
  rcases thumbAssemble_narrow into spec m with ⟨h,_,he⟩ | ⟨hn,_⟩
  · simp [he,ThumbAssembleResult.succeeds] at hnarrow
  rcases thumbAssemble_wide into spec m with ⟨w,hw,he⟩ | ⟨_,r,hr,he⟩
  · rcases thumbAssemble_auto into spec m with ⟨h,hh,_⟩ | ⟨w',_,hw',ha⟩ | ⟨_,hw',_⟩
    · simp [hn] at hh
    · obtain rfl := Option.some.inj (hw.symm.trans hw')
      rw [he,ha]
    · simp [hw'] at hw
  · simp [he,hr] at hwide

theorem thumbAssemble_auto_refuses
    (hnarrow : (thumbAssemble into (spec.withWidth .narrow) m).1.succeeds = false)
    (hwide : (thumbAssemble into (spec.withWidth .wide) m).1.succeeds = false) :
    (thumbAssemble into (spec.withWidth .auto) m).1.succeeds = false := by
  rcases thumbAssemble_auto into spec m with ⟨h,hh,_⟩ | ⟨w,_,hw,_⟩ | ⟨_,_,r,hr,he⟩
  · rcases thumbAssemble_narrow into spec m with ⟨_,_,he⟩ | ⟨hn,_⟩
    · simp [he,ThumbAssembleResult.succeeds] at hnarrow
    · simp [hn] at hh
  · rcases thumbAssemble_wide into spec m with ⟨_,_,he⟩ | ⟨hn,_⟩
    · simp [he,ThumbAssembleResult.succeeds] at hwide
    · simp [hn] at hw
  · rw [he]
    exact hr

/-- AUTO is NARROW with WIDE as its fallback. -/
theorem thumbAssemble_auto_fallback :
    ((thumbAssemble into (spec.withWidth .narrow) m).1.succeeds = true →
        thumbAssemble into (spec.withWidth .auto) m =
          thumbAssemble into (spec.withWidth .narrow) m) ∧
      ((thumbAssemble into (spec.withWidth .narrow) m).1.succeeds = false →
        (thumbAssemble into (spec.withWidth .wide) m).1.succeeds = true →
          thumbAssemble into (spec.withWidth .auto) m =
            thumbAssemble into (spec.withWidth .wide) m) ∧
      ((thumbAssemble into (spec.withWidth .narrow) m).1.succeeds = false →
        (thumbAssemble into (spec.withWidth .wide) m).1.succeeds = false →
          (thumbAssemble into (spec.withWidth .auto) m).1.succeeds = false) ∧
      (thumbAssemble into (spec.withWidth .narrow) m).1 ≠ .wideSuccess ∧
      (thumbAssemble into (spec.withWidth .wide) m).1 ≠ .narrowSuccess :=
  ⟨thumbAssemble_auto_of_narrow into spec m,thumbAssemble_auto_of_wide into spec m,
    thumbAssemble_auto_refuses into spec m,thumbAssemble_narrow_ne_wideSuccess into spec m,
    thumbAssemble_wide_ne_narrowSuccess into spec m⟩

end

end TwMonitor.Thumb
