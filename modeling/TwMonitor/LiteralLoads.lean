import TwMonitor.LoadOffsets

/-!
# Loads relative to PC

A backward literal load stores its distance where the load with an eight-bit
offset has a fixed one bit, and the disassembler tries the latter first. From
2048 on the distance has that bit, so the word is read as something else, or
fails the assertion on the addressing flags. A register offset from PC is
stored in words of the literal load.
-/
namespace TwMonitor.Thumb
open BitLayout BitPattern ByteMemory WordCodec T32

/-- The magnitude is the absolute value, also of the least integer. -/
theorem magnitude_toNat (offset : BitVec 32) : ((magnitude offset).toNat : ℤ) = |offset.toInt| := by
  have hlt := offset.isLt
  rw [magnitude,slt_zero_eq,BitVec.toInt_eq_toNat_cond]
  by_cases h : 2 * offset.toNat < 2 ^ 32
  · rw [if_pos h,decide_eq_false (by omega),if_neg Bool.false_ne_true,abs_of_nonneg (by omega)]
  · have hneg : (-offset).toNat = 2 ^ 32 - offset.toNat := by bv_omega
    rw [if_neg h,decide_eq_true (by omega),if_pos rfl,abs_of_neg (by omega),hneg]
    omega

theorem slt_zero_iff (offset : BitVec 32) : offset.slt 0 = true ↔ offset.toInt < 0 := by
  rw [slt_zero_eq,decide_eq_true_eq]

/-! ## Literal loads -/

theorem ldrLiteral_guards_iff (rt offset : BitVec 32) :
    (fits rt 4 && (fits (magnitude offset) 12 && (fits (boolWord (!offset.slt 0)) 1 && true))) =
      true ↔ rt.toNat < 16 ∧ (magnitude offset).toNat < 4096 := by
  simp only [fits_boolWord,Bool.true_and,Bool.and_eq_true,fits_iff_toNat,and_true]
  rfl

theorem ldrLiteral_isSome_iff (rt offset : BitVec 32) :
    (WideForm.text ⟨.ldrLitT2,ldrLiteral rt offset⟩).isSome = true ↔
      rt.toNat < 16 ∧ (magnitude offset).toNat < 4096 :=
  WideForm.text_isSome_iff (ldrLiteral_guards_iff rt offset)

/-- The words of the backward literal loads. -/
def backwardPattern : Pattern 32 := withZero WideEncoding.ldrLitT2.pattern 7

/-- A backward literal load stores its distance, and a zero for its direction. -/
theorem ldrLiteral_backward {rt offset : BitVec 32} (hneg : offset.slt 0 = true) {w : BitVec 32}
    (hword : WideForm.word ⟨.ldrLitT2,ldrLiteral rt offset⟩ = some w) :
    backwardPattern.Matches w ∧ extract 32 w 16 12 = magnitude offset := by
  obtain ⟨_,himm,hadd,_⟩ := Packing.reads_word hword
  have hzero : w.getLsbD 7 = (boolWord (!offset.slt 0)).getLsbD 0 :=
    extract_bit hadd (i := 0) one_pos (by omega)
  rw [hneg] at hzero
  exact ⟨matches_withZero (Codec.pattern_matches hword) hzero,himm⟩

/-- With bit 11 of the distance clear the words of both encodings are told apart. -/
theorem ldrLiteral_near {rt offset : BitVec 32} (hneg : offset.slt 0 = true) {w : BitVec 32}
    (hword : WideForm.word ⟨.ldrLitT2,ldrLiteral rt offset⟩ = some w)
    (hbit : (magnitude offset).getLsbD 11 = false) :
    thumbDisassembleWide w = some (ldrSpec .offset .wide
      [.reg rt,.reg 15,.signedImmediate offset]) := by
  obtain ⟨hm,himm⟩ := ldrLiteral_backward hneg hword
  have hi : w.getLsbD 27 = (magnitude offset).getLsbD 11 := by
    rw [← himm,getLsbD_extract]
    rfl
  have hop := magnitude_mul_sign offset
  have hread := WideEncoding.ldrLitT2.decode_word hword
  rw [thumbDisassembleWide_of_resolve (r := WideEncoding.ldrLitT2.toRule) rfl
    (matches_withZero hm (hi.trans hbit)),hread]
  exact congrArg (fun simm => some (ldrSpec .offset .wide [.reg rt,.reg 15,.signedImmediate simm]))
    hop

/-- With that bit set the word is read as a load with an eight-bit offset. -/
theorem ldrLiteral_far {rt offset : BitVec 32} (hneg : offset.slt 0 = true) {w : BitVec 32}
    (hword : WideForm.word ⟨.ldrLitT2,ldrLiteral rt offset⟩ = some w)
    (hbit : (magnitude offset).getLsbD 11 = true) :
    thumbDisassembleWide w = WideEncoding.ldrIT4.read (decodeLdrIT4 w) := by
  obtain ⟨hm,himm⟩ := ldrLiteral_backward hneg hword
  have hi : w.getLsbD 27 = (magnitude offset).getLsbD 11 := by
    rw [← himm,getLsbD_extract]
    rfl
  exact thumbDisassembleWide_of_resolve (r := WideEncoding.ldrIT4.toRule) rfl
    (matches_withOne hm (hi.trans hbit))

theorem bit_eleven {v : BitVec 32} (hv : v.toNat < 4096) :
    v.getLsbD 11 = decide (2048 ≤ v.toNat) := by
  rw [BitVec.getLsbD,Nat.testBit_eq_decide_div_mod_eq]
  exact decide_eq_decide.mpr (by omega)

/-- An eight-bit offset is not the far distance. -/
theorem eightBit_ne_far {w offset : BitVec 32} (hneg : offset.slt 0 = true)
    (hfar : 2048 ≤ (magnitude offset).toNat) (add : BitVec 32) :
    bitExtract w 16 8 * (if add ≠ 0 then 1 else -1) ≠ offset := by
  have hlt : (bitExtract w 16 8).toNat < 256 := by
    rw [extract_toNat _ _ _ (by omega)]
    exact Nat.mod_lt _ (by omega)
  have hmag : magnitude offset = -offset := if_pos hneg
  rw [hmag] at hfar
  rintro rfl
  generalize bitExtract w 16 8 = imm8 at hlt hfar hneg
  rw [slt_zero_iff] at hneg
  split at hfar
  · next hadd =>
      rw [if_pos hadd,BitVec.ofNat_eq_ofNat,BitVec.mul_one] at hneg
      rw [BitVec.toInt_eq_toNat_of_lt (by omega)] at hneg
      omega
  · rw [BitVec.ofNat_eq_ofNat,BitVec.mul_neg,BitVec.mul_one,BitVec.neg_neg] at hfar
    omega

/-- So the far distance is not shown. -/
theorem ldrLiteral_far_lost {rt offset : BitVec 32} (hneg : offset.slt 0 = true) {w : BitVec 32}
    (hword : WideForm.word ⟨.ldrLitT2,ldrLiteral rt offset⟩ = some w)
    (hfar : 2048 ≤ (magnitude offset).toNat) (hsmall : (magnitude offset).toNat < 4096) :
    ¬ LoadKept .offset rt 15 (.immediate offset) (thumbDisassembleWide w) := by
  rw [ldrLiteral_far hneg hword ((bit_eleven hsmall).trans (decide_eq_true hfar))]
  rintro ⟨s,rest,hs,_,_,hops,hrest⟩
  obtain ⟨mode,_,hs⟩ := Option.bind_eq_some_iff.mp hs
  obtain rfl := Option.some.inj hs
  simp only [List.cons.injEq] at hops
  obtain ⟨_,_,rfl⟩ := hops
  have hop := LoadOffset.immediate.inj (Option.some.inj hrest)
  exact eightBit_ne_far hneg hfar _ hop

theorem ldrLiteral_backward_kept_iff {rt offset : BitVec 32} (hrt : rt.toNat < 16)
    (hneg : offset.slt 0 = true) :
    Every (LoadKept .offset rt 15 (.immediate offset))
      (WideForm.text ⟨.ldrLitT2,ldrLiteral rt offset⟩) ↔
      ¬ (2048 ≤ (magnitude offset).toNat ∧ (magnitude offset).toNat < 4096) := by
  have hsome := ldrLiteral_isSome_iff rt offset
  rw [WideForm.isSome_text] at hsome
  rw [WideForm.every_text_iff]
  constructor
  · rintro hall ⟨hfar,hsmall⟩
    obtain ⟨w,hword⟩ := Option.isSome_iff_exists.mp (hsome.mpr ⟨hrt,hsmall⟩)
    exact ldrLiteral_far_lost hneg hword hfar hsmall (hall w hword)
  · intro hnot w hword
    have hsmall := (hsome.mp (by rw [hword]; rfl)).2
    have hnear : ¬ 2048 ≤ (magnitude offset).toNat := fun hfar => hnot ⟨hfar,hsmall⟩
    rw [ldrLiteral_near hneg hword ((bit_eleven hsmall).trans (decide_eq_false hnear))]
    exact loadKept_ldrSpec_iff.mpr ⟨rfl,rfl,rfl,rfl⟩

/-- The backward distances that set bit 11 of the field. -/
def FarBackward (offset : BitVec 32) : Prop := -4096 < offset.toInt ∧ offset.toInt ≤ -2048

theorem farBackward_iff {offset : BitVec 32} (hneg : offset.slt 0 = true) :
    FarBackward offset ↔ 2048 ≤ (magnitude offset).toNat ∧ (magnitude offset).toNat < 4096 := by
  have hmag := magnitude_toNat offset
  rw [abs_of_neg ((slt_zero_iff offset).mp hneg)] at hmag
  unfold FarBackward
  omega

theorem not_farBackward {offset : BitVec 32} (hpos : offset.slt 0 = false) :
    ¬ FarBackward offset := by
  intro h
  have hneg := (slt_zero_iff offset).mpr (by unfold FarBackward at h; omega)
  rw [hpos] at hneg
  exact Bool.false_ne_true hneg

theorem ldrImmediateForms_wide_kept_iff {rt : BitVec 32} (hrt : rt.toNat < 16)
    (offset : BitVec 32) :
    Every (LoadKept .offset rt 15 (.immediate offset))
      ((ldrImmediateForms .offset rt 15 offset).wide.findSome? WideForm.text) ↔
      ¬ FarBackward offset := by
  have height := ldrEightBit_kept (by decide : AddressingMode.offset ≠ .none) rt 15 offset
  cases hneg : offset.slt 0 with
  | true =>
      rw [ldrImmediateForms_backward hneg,ldrSignedForms_pc,every_findSome?_cons,
        ldrLiteral_backward_kept_iff hrt hneg,List.findSome?_singleton,farBackward_iff hneg]
      exact ⟨fun h => h.1,fun h => ⟨h,fun _ => height⟩⟩
  | false =>
      rw [ldrImmediateForms_forward hneg,ldrSignedForms_pc]
      refine ⟨fun _ => not_farBackward hneg,fun _ => ?_⟩
      refine every_findSome?_cons.mpr ⟨ldrIT3_kept rt 15 offset,fun hnone => ?_⟩
      -- what the unsigned form refuses is too far for the literal form
      have hbig : ¬ offset.toNat < 4096 := by
        intro h
        rw [ldrIT3_text,if_pos ⟨hrt,h,by decide⟩] at hnone
        simp at hnone
      have hlit : WideForm.text ⟨.ldrLitT2,ldrLiteral rt offset⟩ = none := by
        have hmag : magnitude offset = offset := if_neg (by rw [hneg]; exact Bool.false_ne_true)
        rw [← Option.not_isSome_iff_eq_none,ldrLiteral_isSome_iff,hmag]
        exact fun h => hbig h.2
      rw [every_findSome?_cons,List.findSome?_singleton,hlit]
      exact ⟨every_none,fun _ => height⟩

/-! ## Register offsets -/

/-- A word with a register offset from PC is read as a literal load. -/
theorem ldrRT2Lsl_pc {rt rm shift : BitVec 32} {w : BitVec 32}
    (hword : WideForm.word ⟨.ldrRT2Lsl,{ rt, rn := 15, rm, lslShiftImm2 := shift }⟩ = some w) :
    thumbDisassembleWide w = WideEncoding.ldrLitT2.read (decodeLdrLitT2 w) := by
  obtain ⟨_,_,_,hr,_⟩ := Packing.reads_word hword
  have hm : WideEncoding.ldrRT2Lsl.pattern.Matches w := Codec.pattern_matches hword
  have hpc : (withOnes WideEncoding.ldrRT2Lsl.pattern 0).Matches w := matches_withOnes hm hr
  exact thumbDisassembleWide_of_resolve (r := WideEncoding.ldrLitT2.toRule) rfl hpc

theorem ldrRT2Lsl_pc_lost {rt rm shift : BitVec 32} {w : BitVec 32}
    (hword : WideForm.word ⟨.ldrRT2Lsl,{ rt, rn := 15, rm, lslShiftImm2 := shift }⟩ = some w) :
    ¬ LoadKept .offset rt 15 (.register rm shift) (thumbDisassembleWide w) := by
  rw [ldrRT2Lsl_pc hword]
  rintro ⟨s,rest,hs,_,_,hops,hrest⟩
  obtain rfl := Option.some.inj hs
  simp only [List.cons.injEq] at hops
  obtain ⟨_,_,rfl⟩ := hops
  exact LoadOffset.noConfusion (Option.some.inj hrest)

theorem ldrRT2Lsl_pc_kept_iff {rt rm shift : BitVec 32} (hrt : rt.toNat < 16)
    (hrm : rm.toNat < 16) :
    Every (LoadKept .offset rt 15 (.register rm shift))
      (WideForm.text ⟨.ldrRT2Lsl,{ rt, rn := 15, rm, lslShiftImm2 := shift }⟩) ↔
      ¬ shift.toNat < 4 := by
  have hg : (fits rt 4 && (fits shift 2 && (fits rm 4 && (fits (15 : BitVec 32) 4 && true)))) =
      true ↔ shift.toNat < 4 := by
    simp only [Bool.and_eq_true,fits_iff_toNat]
    exact ⟨fun h => h.2.1,fun h => ⟨hrt,h,hrm,by decide⟩⟩
  have hsome := WideForm.fits_iff
    (f := ⟨.ldrRT2Lsl,{ rt, rn := 15, rm, lslShiftImm2 := shift }⟩) hg
  rw [WideForm.every_text_iff,← hsome]
  constructor
  · intro hall hfits
    obtain ⟨w,hword⟩ := Option.isSome_iff_exists.mp hfits
    exact ldrRT2Lsl_pc_lost hword (hall w hword)
  · intro hnot w hword
    exact absurd (by rw [hword]; rfl) hnot

theorem ldrRT1_pc (rt rm : BitVec 32) : NarrowForm.text ⟨.ldrRT1,{ rt, rn := 15, rm }⟩ = none := by
  have hsome := NarrowForm.text_isSome_iff (f := ⟨.ldrRT1,{ rt, rn := 15, rm }⟩)
    (fields_three_iff rm 15 rt 3 3 3)
  rw [← Option.not_isSome_iff_eq_none,hsome]
  exact fun h => absurd h.2.1 (by decide)

theorem ldrRegisterForms_pc_narrow (rt rm shift : BitVec 32) :
    (ldrRegisterForms .offset rt 15 rm shift).narrow.findSome? NarrowForm.text = none := by
  rw [ldrRegisterForms,if_neg (not_not.mpr rfl)]
  dsimp only
  split
  · rw [List.findSome?_singleton,ldrRT1_pc]
  · rfl

theorem ldrRegisterForms_pc_kept_iff {rt rm : BitVec 32} (hrt : rt.toNat < 16)
    (hrm : rm.toNat < 16) (shift : BitVec 32) (width : ThumbWidthSpecifier) :
    Every (LoadKept .offset rt 15 (.register rm shift))
      ((ldrRegisterForms .offset rt 15 rm shift).restrict width).shownText ↔
      ¬ (width ≠ .narrow ∧ shift.toNat < 4) := by
  have hnarrow := ldrRegisterForms_pc_narrow rt rm shift
  have hwide : Every (LoadKept .offset rt 15 (.register rm shift))
      ((ldrRegisterForms .offset rt 15 rm shift).wide.findSome? WideForm.text) ↔
      ¬ shift.toNat < 4 := by
    rw [ldrRegisterForms,if_neg (not_not.mpr rfl),List.findSome?_singleton]
    exact ldrRT2Lsl_pc_kept_iff hrt hrm
  rw [every_shownText_iff,hnarrow,hwide]
  exact ⟨fun h hlost => h.2 hlost.1 (Or.inr rfl) hlost.2,
    fun h => ⟨fun _ => every_none,fun hw _ hs => h ⟨hw,hs⟩⟩⟩

/-! ## Literal and register offsets from PC -/

/-- The operands of a load after its base. -/
inductive LoadIndex where
  | immediate (offset : BitVec 32)
  | register (rm : BitVec 32)
  | shifted (rm shift : BitVec 32)
deriving DecidableEq, Repr

namespace LoadIndex

def operands : LoadIndex → List ThumbOperand
  | immediate offset => [.signedImmediate offset]
  | register rm => [.reg rm]
  | shifted rm shift => [.reg rm,.lslShift shift]

def offset : LoadIndex → LoadOffset
  | immediate offset => .immediate offset
  | register rm => .register rm 0
  | shifted rm shift => .register rm shift

/-- The index register, if there is one, is one of the sixteen. -/
def Valid : LoadIndex → Prop
  | immediate _ => True
  | register rm => rm.toNat < 16
  | shifted rm _ => rm.toNat < 16

/-- The offset is overlong for the narrow encoding, or far backward for the wide
one, or it is in a register and the wide encoding accepts it. -/
def Lost (width : ThumbWidthSpecifier) (rt : BitVec 32) : LoadIndex → Prop
  | immediate offset =>
      LosesOffset .offset width rt 15 offset ∨ (width ≠ .narrow ∧ FarBackward offset)
  | register _ => width ≠ .narrow
  | shifted _ shift => width ≠ .narrow ∧ shift.toNat < 4

end LoadIndex

/-- A load from an offset to PC. -/
def ldrPcSpec (width : ThumbWidthSpecifier) (rt : BitVec 32) (index : LoadIndex) :
    ThumbInstructionSpec :=
  ldrSpec .offset width (.reg rt::.reg 15::index.operands)

theorem ldrPcImmediate_kept_iff {rt : BitVec 32} (hrt : rt.toNat < 16) (offset : BitVec 32)
    (width : ThumbWidthSpecifier) :
    Every (LoadKept .offset rt 15 (.immediate offset))
      ((ldrImmediateForms .offset rt 15 offset).restrict width).shownText ↔
      ¬ (LosesOffset .offset width rt 15 offset ∨ (width ≠ .narrow ∧ FarBackward offset)) := by
  have hnarrow := ldrImmediateForms_narrow_kept_iff .offset rt 15 offset
  have hwide := ldrImmediateForms_wide_kept_iff hrt offset
  -- a backward offset has no narrow form
  have hnone : FarBackward offset →
      (ldrImmediateForms .offset rt 15 offset).narrow.findSome? NarrowForm.text = none := by
    intro hfar
    have hneg : offset.slt 0 = true := by
      by_contra hpos
      exact not_farBackward (eq_false_of_ne_true hpos) hfar
    rw [ldrImmediateForms_backward hneg]
    rfl
  rw [every_shownText_iff,hnarrow,hwide,LosesOffset]
  constructor
  · rintro h (hlost | ⟨hw,hfar⟩)
    · exact h.1 hlost.2.1 ⟨hlost.1,hlost.2.2⟩
    · exact h.2 hw (Or.inr (hnone hfar)) hfar
  · intro h
    exact ⟨fun hw hlost => h (Or.inl ⟨hlost.1,hw,hlost.2⟩),
      fun hw _ hfar => h (Or.inr ⟨hw,hfar⟩)⟩

theorem ldrPc_kept_iff {rt : BitVec 32} (hrt : rt.toNat < 16) {index : LoadIndex}
    (hindex : index.Valid) (width : ThumbWidthSpecifier) :
    Every (LoadKept .offset rt 15 index.offset) (candidates (ldrPcSpec width rt index)).shownText ↔
      ¬ index.Lost width rt := by
  cases index with
  | immediate offset =>
      have hcand := ldrImmediate_candidates (by decide : AddressingMode.offset ≠ .none) hrt
        (by decide : (15 : BitVec 32).toNat < 16) offset width
      have hspec : ldrPcSpec width rt (.immediate offset) =
          ldrImmediateSpec .offset width rt 15 offset := rfl
      rw [hspec,hcand]
      exact ldrPcImmediate_kept_iff hrt offset width
  | register rm =>
      have hcand : candidates (ldrPcSpec width rt (.register rm)) =
          (ldrRegisterForms .offset (uint8 rt) 15 (uint8 rm) 0).restrict width := rfl
      have hrm : rm.toNat < 16 := hindex
      have hkept := ldrRegisterForms_pc_kept_iff hrt hrm 0 width
      rw [hcand,uint8_of_lt hrt,uint8_of_lt hrm]
      exact hkept.trans (not_congr (and_iff_left (by decide)))
  | shifted rm shift =>
      have hcand : candidates (ldrPcSpec width rt (.shifted rm shift)) =
          (ldrRegisterForms .offset (uint8 rt) 15 (uint8 rm) shift).restrict width := rfl
      have hrm : rm.toNat < 16 := hindex
      rw [hcand,uint8_of_lt hrt,uint8_of_lt hrm]
      exact ldrRegisterForms_pc_kept_iff hrt hrm shift width

/-- A load relative to PC that assembles is shown with its registers and its
offset, unless the offset is one that the encodings lose. -/
theorem ldr_pc_kept_iff {rt : BitVec 32} (hrt : rt.toNat < 16) {index : LoadIndex}
    (hindex : index.Valid) (width : ThumbWidthSpecifier) (into : Address) (m : Memory) :
    ((thumbAssemble into (ldrPcSpec width rt index) m).1.succeeds = true →
      LoadKept .offset rt 15 index.offset (thumbDisassemble (load32
        (thumbAssemble into (ldrPcSpec width rt index) m).2 into))) ↔
      ¬ index.Lost width rt := by
  rw [shown_iff into _ m (LoadKept .offset rt 15 index.offset),ldrPc_kept_iff hrt hindex]

/-- `LDR R9, [PC, #-2047]` into zeroed memory. -/
theorem ldr_pc_kept_backward :
    LoadKept .offset 9 15 (.immediate (-2047)) (thumbDisassemble (load32 (thumbAssemble 0x20000000
      (ldrPcSpec .wide 9 (.immediate (-2047))) fun _ => 0).2 0x20000000)) := by
  have hindex : LoadIndex.Valid (.immediate (-2047)) := trivial
  have hlost : ¬ LoadIndex.Lost .wide 9 (.immediate (-2047)) := by
    rintro (h | h)
    · exact h.2.1 rfl
    · exact absurd h.2.2 (by decide)
  exact (ldr_pc_kept_iff (by decide) hindex .wide 0x20000000 fun _ => 0).mpr hlost (by decide)

/-- `LDR R0, [PC, #-2048]` assembles wide, and its word fails the assertion on
the addressing flags. -/
theorem ldr_pc_lost :
    thumbDisassemble (load32 (thumbAssemble 0x20000000 (ldrPcSpec .wide 0 (.immediate (-2048)))
        fun _ => 0).2 0x20000000) = none ∧
      ¬ ((thumbAssemble 0x20000000 (ldrPcSpec .wide 0 (.immediate (-2048)))
          fun _ => 0).1.succeeds = true →
        LoadKept .offset 0 15 (.immediate (-2048)) (thumbDisassemble (load32 (thumbAssemble
          0x20000000 (ldrPcSpec .wide 0 (.immediate (-2048))) fun _ => 0).2 0x20000000))) := by
  have hshown : thumbDisassemble (load32 (thumbAssemble 0x20000000
      (ldrPcSpec .wide 0 (.immediate (-2048))) fun _ => 0).2 0x20000000) = none := by decide
  refine ⟨hshown,fun h => ?_⟩
  obtain ⟨s,rest,hs,_⟩ := h (by decide)
  rw [hshown] at hs
  simp at hs

end TwMonitor.Thumb
