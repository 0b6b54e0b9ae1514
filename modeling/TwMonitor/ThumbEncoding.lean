import TwMonitor.StoredField
import TwMonitor.T32Encode
import TwMonitor.ThumbDisassemble
import TwMonitor.WordCodec

/-!
# Narrow and wide encodings

An encoding is a codec together with the specification that the disassembler
shows for its fields. The structures carry the fact that the fixed bits of the
encoding settle its width, so that an encoded instruction is never read with
the wrong one.
-/
namespace TwMonitor.Thumb
open BitLayout BitPattern WordCodec

/-- The first of the two tests of `thumb_is_wide_instruction`. -/
def wideTop : FieldTest 32 := ⟨13,3,7⟩

/-- The second test asks that this one fails. -/
def wideLow : FieldTest 32 := ⟨11,2,0⟩

theorem thumbIsWideInstruction_eq (ins : ThumbT) :
    thumbIsWideInstruction ins = (wideTop.holds (ThumbT.narrow ins) &&
      !wideLow.holds (ThumbT.narrow ins)) := by
  have htop : (ThumbT.narrow ins >>> 13 = 7) ↔ extract 32 (ThumbT.narrow ins) 13 3 = 7 := by
    rw [← BitVec.toNat_inj,← BitVec.toNat_inj,extract_toNat _ _ _ (by omega),
      BitVec.toNat_ushiftRight,Nat.shiftRight_eq_div_pow]
    have := (ThumbT.narrow ins).isLt
    change _ = 7 ↔ _ = 7
    omega
  have hlow : (ThumbT.narrow ins >>> 11 &&& 3 = 0) ↔ extract 32 (ThumbT.narrow ins) 11 2 = 0 := by
    have hand : (ThumbT.narrow ins >>> 11 &&& 3) = extract 16 (ThumbT.narrow ins) 11 2 := by
      rw [extract,BitVec.setWidth_eq]
      rfl
    rw [hand,← BitVec.toNat_inj,← BitVec.toNat_inj,extract_toNat _ _ _ (by omega),
      extract_toNat _ _ _ (by omega)]
    rfl
  rw [thumbIsWideInstruction,Bool.eq_iff_iff]
  simp only [FieldTest.holds,wideTop,wideLow,Bool.and_eq_true,beq_iff_eq,bne_iff_ne,ne_eq,
    Bool.not_eq_true',beq_eq_false_iff_ne,htop,hlow]

/-- The tests read the first halfword only. -/
theorem holds_narrow (t : FieldTest 32) (ht : t.pos + t.width ≤ 16) (ins : ThumbT) :
    t.holds (ThumbT.narrow ins) = t.holds ins := by
  have he : extract 32 (ThumbT.narrow ins) t.pos t.width = extract 32 ins t.pos t.width := by
    apply BitVec.eq_of_getLsbD_eq
    intro i _
    simp only [getLsbD_extract,ThumbT.narrow,BitVec.getLsbD_setWidth]
    by_cases hi : i < t.width
    · simp [hi,show t.pos + i < 16 by omega]
    · simp [hi]
  rw [FieldTest.holds,FieldTest.holds,he]

/-! ## Patterns of either width -/

def fixesWide (p : Pattern 32) : Bool :=
  p.refines (wideTop.pattern 32) && p.conflicts (wideLow.pattern 32)

def fixesNarrow (p : Pattern 16) : Bool :=
  p.conflicts (wideTop.pattern 16) || p.refines (wideLow.pattern 16)

theorem isWide_of_fixesWide {p : Pattern 32} (hp : fixesWide p = true) {w : BitVec 32}
    (hw : p.Matches w) : thumbIsWideInstruction w = true := by
  rw [fixesWide,Bool.and_eq_true] at hp
  have htop : wideTop.holds w = true :=
    (FieldTest.holds_iff rfl w).mpr (Pattern.matches_of_refines hp.1 hw)
  have hlow : wideLow.holds w = false := by
    rw [← Bool.not_eq_true,FieldTest.holds_iff rfl]
    exact Pattern.not_matches_of_conflicts hp.2 hw
  rw [thumbIsWideInstruction_eq,holds_narrow _ (by decide),holds_narrow _ (by decide),htop,hlow]
  rfl

theorem isNarrow_of_fixesNarrow {p : Pattern 16} (hp : fixesNarrow p = true) {ins : ThumbT}
    (hw : p.Matches (ThumbT.narrow ins)) : thumbIsWideInstruction ins = false := by
  rw [thumbIsWideInstruction_eq]
  rw [fixesNarrow,Bool.or_eq_true] at hp
  rcases hp with hp | hp
  · have htop : wideTop.holds (ThumbT.narrow ins) = false := by
      rw [← Bool.not_eq_true,FieldTest.holds_iff rfl]
      exact Pattern.not_matches_of_conflicts hp hw
    rw [htop,Bool.false_and]
  · have hlow : wideLow.holds (ThumbT.narrow ins) = true :=
      (FieldTest.holds_iff rfl _).mpr (Pattern.matches_of_refines hp hw)
    rw [hlow,Bool.not_true,Bool.and_false]

/-! ## Encodings -/

structure NarrowEncoding extends Rule 16 32 (Option ThumbInstructionSpec) where
  narrow : fixesNarrow (Packed.fixed (encode default)) = true := by rfl

structure WideEncoding extends Rule 32 32 (Option ThumbInstructionSpec) where
  wide : fixesWide (Packed.fixed (encode default)) = true := by rfl

theorem NarrowEncoding.not_isWide (e : NarrowEncoding) {parts : e.Parts} {h : BitVec 16}
    (hword : (e.encode parts).word = some h) {ins : ThumbT} (hins : ThumbT.narrow ins = h) :
    thumbIsWideInstruction ins = false := by
  apply isNarrow_of_fixesNarrow e.narrow
  rw [hins]
  exact Codec.pattern_matches hword

theorem WideEncoding.isWide (e : WideEncoding) {parts : e.Parts} {w : BitVec 32}
    (hword : (e.encode parts).word = some w) : thumbIsWideInstruction w = true :=
  isWide_of_fixesWide e.wide (Codec.pattern_matches hword)

end TwMonitor.Thumb
