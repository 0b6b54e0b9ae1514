import TwMonitor.ReadBack

/-!
# Offsets of loads

The text of every load encoding with an immediate offset, as a condition on the
fields and the specification that comes back. The scaled encodings check their
offset against a width that is two bits larger than the field: an aligned
offset between the two is accepted and loses its top bits.
-/
namespace TwMonitor.Thumb
open BitLayout BitPattern ByteMemory WordCodec T32

theorem text_eq_ite {text : Option (Option ThumbInstructionSpec)} {accepted : Prop}
    [Decidable accepted] {shown : Option ThumbInstructionSpec}
    (hsome : text.isSome = true ↔ accepted) (hshown : ∀ s, text = some s → s = shown) :
    text = if accepted then some shown else none := by
  by_cases ha : accepted
  · obtain ⟨s,ht⟩ := Option.isSome_iff_exists.mp (hsome.mpr ha)
    rw [if_pos ha,ht,hshown s ht]
  · rw [if_neg ha]
    exact Option.not_isSome_iff_eq_none.mp (fun h => ha (hsome.mp h))

theorem NarrowForm.Legible.text_eq {f : NarrowForm} (hf : f.Legible) {accepted : Prop}
    [Decidable accepted] {shown : Option ThumbInstructionSpec}
    (hg : guards (f.1.encode f.2).steps = true ↔ accepted) (hs : f.shown = shown) :
    f.text = if accepted then some shown else none :=
  text_eq_ite (NarrowForm.text_isSome_iff hg) fun _ ht => (hf.eq_shown ht).trans hs

theorem WideForm.Legible.text_eq {f : WideForm} (hf : f.Legible) {accepted : Prop}
    [Decidable accepted] {shown : Option ThumbInstructionSpec}
    (hg : guards (f.1.encode f.2).steps = true ↔ accepted) (hs : f.shown = shown) :
    f.text = if accepted then some shown else none :=
  text_eq_ite (WideForm.text_isSome_iff hg) fun _ ht => (hf.eq_shown ht).trans hs

/-! ## The load encodings -/

def ldrSpec (mode : AddressingMode) (width : ThumbWidthSpecifier) (operands : List ThumbOperand) :
    ThumbInstructionSpec :=
  { mnemonic := .ldr, width, addressingMode := mode, operands }

theorem guards_scaled_iff (offset : BitVec 32) (width : ℕ) (rest : Bool) :
    ((bitExtract offset 0 2 == 0) && (fits (offset >>> 2) width && rest)) = true ↔
      (offset.toNat % 4 = 0 ∧ offset.toNat < 2 ^ (width + 2)) ∧ rest = true := by
  rw [Bool.and_eq_true,Bool.and_eq_true,beq_iff_eq,← scaledCheck_iff,and_assoc]

/-- The text of a scaled encoding. Its check is two bits wider than its field. -/
def scaledText (width : ℕ) (regs : Prop) [Decidable regs] (rt rn offset : BitVec 32) :
    Option (Option ThumbInstructionSpec) :=
  if (offset.toNat % 4 = 0 ∧ offset.toNat < 2 ^ (width + 4)) ∧ regs then
    some (some (ldrSpec .offset .narrow [.reg rt,.reg rn,.immediate (storedScaled offset width)]))
  else none

theorem ldrIT1_text (rt rn offset : BitVec 32) :
    NarrowForm.text ⟨.ldrIT1,{ rt, rn, imm7 := offset }⟩ =
      scaledText 5 (rn.toNat < 8 ∧ rt.toNat < 8) rt rn offset := by
  have hregs : (fits rn 3 && (fits rt 3 && true)) = true ↔ rn.toNat < 8 ∧ rt.toNat < 8 :=
    fields_two_iff rn rt 3 3
  exact (NarrowForm.legible rfl _).text_eq
    ((guards_scaled_iff offset 7 _).trans (and_congr_right' hregs)) rfl

theorem ldrIT2Sponly_text (rt offset : BitVec 32) :
    NarrowForm.text ⟨.ldrIT2Sponly,{ rt, imm10 := offset }⟩ =
      scaledText 8 (rt.toNat < 8) rt 13 offset :=
  (NarrowForm.legible rfl _).text_eq
    ((guards_scaled_iff offset 10 _).trans (and_congr_right' (field_iff rt 3))) rfl

theorem ldrLitT1_text (rt offset : BitVec 32) :
    NarrowForm.text ⟨.ldrLitT1,{ rt, imm10 := offset }⟩ =
      scaledText 8 (rt.toNat < 8) rt 15 offset :=
  (NarrowForm.legible rfl _).text_eq
    ((guards_scaled_iff offset 10 _).trans (and_congr_right' (field_iff rt 3))) rfl

theorem ldrIT3_text (rt rn offset : BitVec 32) :
    WideForm.text ⟨.ldrIT3,{ rt, rn, imm12 := offset }⟩ =
      if rt.toNat < 16 ∧ offset.toNat < 4096 ∧ rn.toNat < 16 then
        some (some (ldrSpec .offset .wide [.reg rt,.reg rn,.immediate offset]))
      else none :=
  (WideForm.legible rfl _).text_eq (fields_three_iff rt offset rn 4 12 4) rfl

/-! ## Signed offsets -/

/-- Sign and magnitude give the offset back. -/
theorem magnitude_mul_sign (offset : BitVec 32) :
    magnitude offset * (if boolWord (!offset.slt 0) ≠ 0 then 1 else -1) = offset := by
  unfold magnitude
  cases offset.slt 0 with
  | true =>
      have hadd : ¬ boolWord (!true) ≠ 0 := by decide
      rw [if_neg hadd,if_pos rfl]
      simp only [BitVec.ofNat_eq_ofNat,BitVec.mul_neg,BitVec.mul_one,BitVec.neg_neg]
  | false =>
      have hadd : boolWord (!false) ≠ 0 := by decide
      rw [if_pos hadd,if_neg Bool.false_ne_true,BitVec.ofNat_eq_ofNat,BitVec.mul_one]

theorem fits_boolWord (b : Bool) : fits (boolWord b) 1 = true := by
  cases b <;> rfl

/-- The flags always fit their bits. -/
theorem ldrEightBit_guards_iff (mode : AddressingMode) (rt rn offset : BitVec 32) :
    (fits rt 4 && (fits (boolWord (mode != .postindex)) 1 &&
      (fits (boolWord (!offset.slt 0)) 1 &&
        (fits (boolWord (mode == .preindex || mode == .postindex)) 1 &&
          (fits (magnitude offset) 8 && (fits rn 4 && true)))))) = true ↔
      rt.toNat < 16 ∧ (magnitude offset).toNat < 256 ∧ rn.toNat < 16 := by
  simp only [fits_boolWord,Bool.true_and,Bool.and_eq_true,fits_iff_toNat,and_true]
  rfl

theorem ldrEightBit_shown {mode : AddressingMode} (hmode : mode ≠ .none)
    (rt rn offset : BitVec 32) :
    WideForm.shown ⟨.ldrIT4,ldrEightBit mode rt rn offset⟩ =
      some (ldrSpec mode .wide [.reg rt,.reg rn,.signedImmediate offset]) := by
  have hop := magnitude_mul_sign offset
  have hflags : ldrIT4AddressingMode (ldrEightBit mode rt rn offset) = some mode := by
    cases mode with
    | none => exact absurd rfl hmode
    | offset => rfl
    | preindex => rfl
    | postindex => rfl
  change (ldrIT4AddressingMode (ldrEightBit mode rt rn offset)).bind _ = _
  rw [hflags]
  exact congrArg (fun simm => some (ldrSpec mode .wide [.reg rt,.reg rn,.signedImmediate simm])) hop

theorem ldrEightBit_text {mode : AddressingMode} (hmode : mode ≠ .none) (rt rn offset : BitVec 32) :
    WideForm.text ⟨.ldrIT4,ldrEightBit mode rt rn offset⟩ =
      if rt.toNat < 16 ∧ (magnitude offset).toNat < 256 ∧ rn.toNat < 16 then
        some (some (ldrSpec mode .wide [.reg rt,.reg rn,.signedImmediate offset]))
      else none :=
  (WideForm.legible rfl _).text_eq (ldrEightBit_guards_iff mode rt rn offset)
    (ldrEightBit_shown hmode rt rn offset)

/-! ## Loads that come back -/

/-- The offset of a load. A missing shift counts as a shift by zero. -/
inductive LoadOffset where
  | immediate (offset : BitVec 32)
  | register (rm shift : BitVec 32)
deriving DecidableEq, Repr

/-- The offset that the operands after the base stand for. -/
def loadOffset : List ThumbOperand → Option LoadOffset
  | [.immediate imm] => some (.immediate imm)
  | [.signedImmediate simm] => some (.immediate simm)
  | [.reg rm] => some (.register rm 0)
  | [.reg rm,.lslShift shift] => some (.register rm shift)
  | _ => none

/-- The word shows a load of the register from the base, with the offset. -/
def LoadKept (mode : AddressingMode) (rt rn : BitVec 32) (offset : LoadOffset)
    (shown : Option ThumbInstructionSpec) : Prop :=
  ∃ s rest, shown = some s ∧ s.mnemonic = .ldr ∧ s.addressingMode = mode ∧
    s.operands = .reg rt::.reg rn::rest ∧ loadOffset rest = some offset

theorem loadKept_ldrSpec_iff {mode mode' : AddressingMode} {rt rt' rn rn' : BitVec 32}
    {offset : LoadOffset} {width : ThumbWidthSpecifier} {rest : List ThumbOperand} :
    LoadKept mode rt rn offset (some (ldrSpec mode' width (.reg rt'::.reg rn'::rest))) ↔
      mode' = mode ∧ rt' = rt ∧ rn' = rn ∧ loadOffset rest = some offset := by
  constructor
  · rintro ⟨s,rest',hs,_,hmode,hops,hrest⟩
    obtain rfl := Option.some.inj hs
    simp only [ldrSpec,List.cons.injEq,ThumbOperand.reg.injEq] at hops
    obtain ⟨hrt,hrn,rfl⟩ := hops
    exact ⟨hmode,hrt,hrn,hrest⟩
  · rintro ⟨rfl,rfl,rfl,hrest⟩
    exact ⟨_,rest,rfl,rfl,rfl,rfl,hrest⟩

/-- Aligned, within the check, and outside the field. -/
def OverlongScaled (width : ℕ) (offset : BitVec 32) : Prop :=
  offset.toNat % 4 = 0 ∧ 2 ^ (width + 2) ≤ offset.toNat ∧ offset.toNat < 2 ^ (width + 4)

/-- A scaled encoding keeps the offsets it accepts, the overlong ones apart. -/
theorem scaledText_kept_iff {width : ℕ} (hw : width < 30) {regs : Prop} [Decidable regs]
    (rt rn offset : BitVec 32) :
    Every (LoadKept .offset rt rn (.immediate offset)) (scaledText width regs rt rn offset) ↔
      ¬ (regs ∧ OverlongScaled width offset) := by
  have hstored := storedScaled_eq_iff offset hw
  have hkept : LoadKept .offset rt rn (.immediate offset) (some (ldrSpec .offset .narrow
      [.reg rt,.reg rn,.immediate (storedScaled offset width)])) ↔
      storedScaled offset width = offset := by
    rw [loadKept_ldrSpec_iff]
    simp [loadOffset]
  rw [scaledText,every_ite_iff,hkept,hstored,OverlongScaled]
  constructor
  · rintro h ⟨hregs,h₁,h₂,h₃⟩
    have := (h ⟨⟨h₁,h₃⟩,hregs⟩).2
    omega
  · rintro h ⟨⟨h₁,h₂⟩,hregs⟩
    refine ⟨h₁,?_⟩
    by_contra hlt
    exact h ⟨hregs,h₁,by omega,h₂⟩

/-- The bases of the narrow loads, and the fields of their offsets. -/
def NarrowBase (rn : BitVec 32) : Prop := rn.toNat < 8 ∨ rn = 13 ∨ rn = 15

def scaleWidth (rn : BitVec 32) : ℕ := if rn = 13 ∨ rn = 15 then 8 else 5

instance (rn : BitVec 32) : Decidable (NarrowBase rn) := by
  unfold NarrowBase
  infer_instance

theorem pow_scaleWidth_le (rn : BitVec 32) : 2 ^ (scaleWidth rn + 4) ≤ 2 ^ 12 := by
  unfold scaleWidth
  split <;> decide

theorem scaledText_congr {width : ℕ} {regs regs' : Prop} [Decidable regs] [Decidable regs']
    (h : regs ↔ regs') (rt rn offset : BitVec 32) :
    scaledText width regs rt rn offset = scaledText width regs' rt rn offset := by
  unfold scaledText
  simp only [h]

theorem narrowText_pair {f g : NarrowForm} (hg : g.text = none) :
    [f,g].findSome? NarrowForm.text = f.text := by
  rw [List.findSome?_cons,List.findSome?_singleton,hg]
  cases f.text <;> rfl

theorem ldrUnsignedNarrow_text (rt rn offset : BitVec 32) :
    (ldrUnsignedNarrow rt rn offset).findSome? NarrowForm.text =
      scaledText (scaleWidth rn) (rt.toNat < 8 ∧ NarrowBase rn) rt rn offset := by
  have hscaled := ldrIT1_text rt rn offset
  by_cases hlow : rn.toNat < 8
  · have h₁ : ¬ rn = 13 := by rintro rfl; exact absurd hlow (by decide)
    have h₂ : ¬ rn = 15 := by rintro rfl; exact absurd hlow (by decide)
    rw [ldrUnsignedNarrow,if_neg h₁,if_neg h₂,List.findSome?_singleton,hscaled,scaleWidth,
      if_neg (not_or.mpr ⟨h₁,h₂⟩)]
    exact scaledText_congr (by simp [NarrowBase,hlow]) rt rn offset
  -- the general encoding has no such base, which leaves the one of SP or PC
  · have hnone : NarrowForm.text ⟨.ldrIT1,{ rt, rn, imm7 := offset }⟩ = none := by
      rw [hscaled,scaledText,if_neg (fun h => hlow h.2.1)]
    by_cases h₁ : rn = 13
    · subst h₁
      rw [ldrUnsignedNarrow,if_pos rfl,narrowText_pair hnone,ldrIT2Sponly_text]
      exact scaledText_congr (by simp [NarrowBase]) rt 13 offset
    · by_cases h₂ : rn = 15
      · subst h₂
        rw [ldrUnsignedNarrow,if_neg h₁,if_pos rfl,narrowText_pair hnone,ldrLitT1_text]
        exact scaledText_congr (by simp [NarrowBase]) rt 15 offset
      · have hbase : ¬ NarrowBase rn := fun h => h.elim hlow (fun h => h.elim h₁ h₂)
        rw [ldrUnsignedNarrow,if_neg h₁,if_neg h₂,List.findSome?_singleton,hnone,scaledText,
          if_neg (fun h => hbase h.2.2)]

/-! ## Bases other than PC -/

theorem ldrImmediateForms_backward {offset : BitVec 32} (hneg : offset.slt 0 = true)
    (mode : AddressingMode) (rt rn : BitVec 32) :
    ldrImmediateForms mode rt rn offset = { wide := ldrSignedForms mode rt rn offset } := by
  have hnot : ¬ (mode = .offset ∧ (!offset.slt 0) = true) := by
    rw [hneg]
    exact fun h => Bool.false_ne_true h.2
  exact if_neg hnot

theorem ldrImmediateForms_forward {offset : BitVec 32} (hpos : offset.slt 0 = false)
    (rt rn : BitVec 32) :
    ldrImmediateForms .offset rt rn offset =
      { narrow := ldrUnsignedNarrow rt rn offset,
        wide := ⟨.ldrIT3,{ rt, rn, imm12 := offset }⟩::ldrSignedForms .offset rt rn offset } := by
  have hforward : (!offset.slt 0) = true := by
    rw [hpos]
    rfl
  exact if_pos ⟨rfl,hforward⟩

theorem ldrSignedForms_pc (rt offset : BitVec 32) :
    ldrSignedForms .offset rt 15 offset =
      [⟨.ldrLitT2,ldrLiteral rt offset⟩,⟨.ldrIT4,ldrEightBit .offset rt 15 offset⟩] :=
  if_pos ⟨rfl,rfl⟩

/-- A load with an immediate offset, as the editor builds it. -/
def ldrImmediateSpec (mode : AddressingMode) (width : ThumbWidthSpecifier)
    (rt rn offset : BitVec 32) : ThumbInstructionSpec :=
  ldrSpec mode width [.reg rt,.reg rn,.signedImmediate offset]

/-- A narrow encoding is allowed, and the offset is overlong for it. -/
def LosesOffset (mode : AddressingMode) (width : ThumbWidthSpecifier)
    (rt rn offset : BitVec 32) : Prop :=
  mode = .offset ∧ width ≠ .wide ∧ rt.toNat < 8 ∧ NarrowBase rn ∧
    OverlongScaled (scaleWidth rn) offset

theorem ldrImmediate_candidates {mode : AddressingMode} (hmode : mode ≠ .none)
    {rt rn : BitVec 32} (hrt : rt.toNat < 16) (hrn : rn.toNat < 16) (offset : BitVec 32)
    (width : ThumbWidthSpecifier) :
    candidates (ldrImmediateSpec mode width rt rn offset) =
      (ldrImmediateForms mode rt rn offset).restrict width := by
  have hforms : forms (ldrImmediateSpec mode width rt rn offset) =
      ldrForms mode [.reg rt,.reg rn,.signedImmediate offset] := rfl
  rw [candidates,hforms,ldrForms,if_neg hmode,ldrOperandForms,uint8_of_lt hrt,uint8_of_lt hrn]
  rfl

theorem ldrIT3_kept (rt rn offset : BitVec 32) :
    Every (LoadKept .offset rt rn (.immediate offset))
      (WideForm.text ⟨.ldrIT3,{ rt, rn, imm12 := offset }⟩) := by
  rw [ldrIT3_text,every_ite_iff]
  exact fun _ => loadKept_ldrSpec_iff.mpr ⟨rfl,rfl,rfl,rfl⟩

theorem ldrEightBit_kept {mode : AddressingMode} (hmode : mode ≠ .none) (rt rn offset : BitVec 32) :
    Every (LoadKept mode rt rn (.immediate offset))
      (WideForm.text ⟨.ldrIT4,ldrEightBit mode rt rn offset⟩) := by
  rw [ldrEightBit_text hmode,every_ite_iff]
  exact fun _ => loadKept_ldrSpec_iff.mpr ⟨rfl,rfl,rfl,rfl⟩

theorem ldrImmediateForms_wide_kept {mode : AddressingMode} (hmode : mode ≠ .none)
    (rt : BitVec 32) {rn : BitVec 32} (hrn : rn ≠ 15) (offset : BitVec 32) :
    Every (LoadKept mode rt rn (.immediate offset))
      ((ldrImmediateForms mode rt rn offset).wide.findSome? WideForm.text) := by
  have height := ldrEightBit_kept hmode rt rn offset
  have hsigned : ldrSignedForms mode rt rn offset =
      [⟨.ldrIT4,ldrEightBit mode rt rn offset⟩] := if_neg (fun h => hrn h.1)
  apply every_findSome?
  intro f hf
  unfold ldrImmediateForms at hf
  rw [hsigned] at hf
  split at hf
  · next h =>
      obtain ⟨rfl,_⟩ := h
      simp only [List.mem_cons,List.not_mem_nil,or_false] at hf
      rcases hf with rfl | rfl
      · exact ldrIT3_kept rt rn offset
      · exact height
  · rw [List.mem_singleton] at hf
    rw [hf]
    exact height

theorem slt_zero_eq (v : BitVec 32) : v.slt 0 = decide (v.toInt < 0) := by
  rw [BitVec.slt_eq_decide]
  rfl

theorem not_slt_zero {v : BitVec 32} (hv : v.toNat < 2 ^ 31) : (!v.slt 0) = true := by
  rw [slt_zero_eq,Bool.not_eq_true',decide_eq_false_iff_not,
    BitVec.toInt_eq_toNat_of_lt (by omega)]
  exact not_lt.mpr (Int.natCast_nonneg _)

theorem ldrImmediateForms_narrow_kept_iff (mode : AddressingMode) (rt rn offset : BitVec 32) :
    Every (LoadKept mode rt rn (.immediate offset))
      ((ldrImmediateForms mode rt rn offset).narrow.findSome? NarrowForm.text) ↔
      ¬ (mode = .offset ∧ rt.toNat < 8 ∧ NarrowBase rn ∧
        OverlongScaled (scaleWidth rn) offset) := by
  have hw : scaleWidth rn < 30 := by
    unfold scaleWidth
    split <;> omega
  unfold ldrImmediateForms
  split
  · next h =>
      obtain ⟨rfl,_⟩ := h
      rw [ldrUnsignedNarrow_text,scaledText_kept_iff hw]
      simp only [true_and,and_assoc]
  · next h =>
      have hover : ¬ (mode = .offset ∧ OverlongScaled (scaleWidth rn) offset) := by
        rintro ⟨hm,_,_,hlt⟩
        refine h ⟨hm,?_⟩
        have hpow := pow_scaleWidth_le rn
        exact not_slt_zero (by omega)
      exact ⟨fun _ ⟨hm,_,_,ho⟩ => hover ⟨hm,ho⟩,fun _ => every_none⟩

theorem ldrImmediate_kept_iff {mode : AddressingMode} (hmode : mode ≠ .none) {rt rn : BitVec 32}
    (hrt : rt.toNat < 16) (hrn : rn.toNat < 15) (offset : BitVec 32)
    (width : ThumbWidthSpecifier) :
    Every (LoadKept mode rt rn (.immediate offset))
      (candidates (ldrImmediateSpec mode width rt rn offset)).shownText ↔
      ¬ LosesOffset mode width rt rn offset := by
  have hpc : rn ≠ 15 := by
    rintro rfl
    exact absurd hrn (by decide)
  have hnarrow := ldrImmediateForms_narrow_kept_iff mode rt rn offset
  have hwide := ldrImmediateForms_wide_kept hmode rt hpc offset
  rw [ldrImmediate_candidates hmode hrt (by omega),every_shownText_iff,hnarrow,LosesOffset]
  exact ⟨fun h hlost => h.1 hlost.2.1 ⟨hlost.1,hlost.2.2⟩,
    fun h => ⟨fun hw hlost => h ⟨hlost.1,hw,hlost.2⟩,fun _ _ => hwide⟩⟩

/-- A load with an immediate offset that assembles is shown with its registers,
its addressing mode and its offset, unless the offset is overlong for a narrow
encoding that it may take. -/
theorem ldr_offset_kept_iff {mode : AddressingMode} (hmode : mode ≠ .none) {rt rn : BitVec 32}
    (hrt : rt.toNat < 16) (hrn : rn.toNat < 15) (offset : BitVec 32)
    (width : ThumbWidthSpecifier) (into : Address) (m : Memory) :
    ((thumbAssemble into (ldrImmediateSpec mode width rt rn offset) m).1.succeeds = true →
      LoadKept mode rt rn (.immediate offset) (thumbDisassemble (load32
        (thumbAssemble into (ldrImmediateSpec mode width rt rn offset) m).2 into))) ↔
      ¬ LosesOffset mode width rt rn offset := by
  rw [shown_iff into _ m (LoadKept mode rt rn (.immediate offset)),
    ldrImmediate_kept_iff hmode hrt hrn]

/-- `LDR R2, [SP, #1020]` into zeroed memory. -/
theorem ldr_offset_kept_sp :
    LoadKept .offset 2 13 (.immediate 1020) (thumbDisassemble (load32 (thumbAssemble 0x20000000
      (ldrImmediateSpec .offset .auto 2 13 1020) fun _ => 0).2 0x20000000)) :=
  (ldr_offset_kept_iff (by decide) (by decide) (by decide) 1020 .auto 0x20000000 fun _ => 0).mpr
    (by unfold LosesOffset OverlongScaled; decide) (by decide)

/-- `LDR R0, [R1, #128]` assembles narrow, and loads from offset 0 instead. -/
theorem ldr_offset_lost :
    thumbDisassemble (load32 (thumbAssemble 0x20000000 (ldrImmediateSpec .offset .narrow 0 1 128)
        fun _ => 0).2 0x20000000) = some (ldrSpec .offset .narrow [.reg 0,.reg 1,.immediate 0]) ∧
      ¬ ((thumbAssemble 0x20000000 (ldrImmediateSpec .offset .narrow 0 1 128)
          fun _ => 0).1.succeeds = true →
        LoadKept .offset 0 1 (.immediate 128) (thumbDisassemble (load32 (thumbAssemble 0x20000000
          (ldrImmediateSpec .offset .narrow 0 1 128) fun _ => 0).2 0x20000000))) := by
  have hshown : thumbDisassemble (load32 (thumbAssemble 0x20000000
      (ldrImmediateSpec .offset .narrow 0 1 128) fun _ => 0).2 0x20000000) =
      some (ldrSpec .offset .narrow [.reg 0,.reg 1,.immediate 0]) := by decide
  refine ⟨hshown,fun h => ?_⟩
  have hkept := h (by decide)
  rw [hshown,loadKept_ldrSpec_iff] at hkept
  exact absurd hkept.2.2.2 (by decide)

end TwMonitor.Thumb
