import TwMonitor.AcceptedOperands

/-!
# Registers beyond PC

A register operand is a number of 32 bits, as the menu returns whatever was
typed. Most cases of the switch copy it into a byte before an encoder checks
it, so that a number beyond 255 passes for the register of its low byte.
-/
namespace TwMonitor.Thumb
open BitLayout ByteMemory T32

/-! ## Registers out of range -/

def OutOfRange (operands : List ThumbOperand) : Prop :=
  ∃ reg, .reg reg ∈ operands ∧ 15 < reg.toNat

/-- The cases that take no register want no operand, or a lone one of another type. -/
theorem forms_empty {spec : ThumbInstructionSpec} (h : OutOfRange spec.operands)
    (hm : spec.mnemonic ∈ [.unknown,.b,.bkpt,.bl,.nop,.pop,.push,.svc,.udf]) :
    forms spec = {} := by
  obtain ⟨mnemonic,condition,width,mode,operands⟩ := spec
  obtain ⟨reg,hreg,_⟩ := h
  dsimp only at hreg hm
  cases operands with
  | nil => exact absurd hreg List.not_mem_nil
  | cons operand rest =>
      cases rest with
      | nil =>
          obtain rfl := List.mem_singleton.mp hreg
          fin_cases hm <;> rfl
      | cons next rest =>
          fin_cases hm <;> cases operand <;> rfl

section
variable {width : ThumbWidthSpecifier} {operands : List ThumbOperand}

/-- An encoder that is handed the register as it is refuses it. -/
theorem not_fits_register {f : NarrowForm} {rm : BitVec 32} (h : OutOfRange [.reg rm])
    (hg : guards (f.1.encode f.2).steps = true ↔ rm.toNat < 2 ^ 4) :
    ¬ Choices.Fits { narrow := [f] } width := by
  obtain ⟨reg,hreg,hout⟩ := h
  obtain rfl : reg = rm := by simpa using hreg
  rw [Choices.fits_oneNarrow hg]
  omega

theorem bxForms_not_fits (h : OutOfRange operands) : ¬ (bxForms operands).Fits width := by
  unfold bxForms
  split
  · next rm => exact not_fits_register h (field_iff rm 4)
  · exact Choices.not_fits_empty

theorem blxForms_not_fits (h : OutOfRange operands) : ¬ (blxForms operands).Fits width := by
  unfold blxForms
  split
  · next rm => exact not_fits_register h (field_iff rm 4)
  · exact Choices.not_fits_empty

theorem movwForms_not_fits (h : OutOfRange operands) : ¬ (movwForms operands).Fits width := by
  unfold movwForms
  split
  · next rd imm =>
      obtain ⟨reg,hreg,hout⟩ := h
      obtain rfl : reg = rd := by simpa using hreg
      split
      · exact Choices.not_fits_empty
      · intro hfits
        have himm := (Choices.fits_oneWide (f := ⟨.movwIT3,{ rd := reg, imm16 := imm }⟩)
          (fields_two_iff imm reg 16 4)).mp hfits
        omega
  · exact Choices.not_fits_empty

theorem movForms_fits_iff (h : OutOfRange operands) :
    (movForms operands).Fits width ↔ movAdmits operands := by
  unfold movForms
  split
  · next rd imm =>
      refine iff_of_false ?_ (fun hadmits => hadmits.elim)
      split
      · exact Choices.not_fits_empty
      · exact movwForms_not_fits h
  · next rd rm => exact movForms_register_fits_iff width rd rm
  · simp only [movAdmits]
    exact iff_false_intro Choices.not_fits_empty

end

/-- With a register out of range a form fits exactly when one fits the low bytes. -/
theorem forms_fits_iff {spec : ThumbInstructionSpec} (h : OutOfRange spec.operands) :
    (forms spec).Fits spec.width ↔ AdmitsLowBytes spec := by
  have hplain : spec.mnemonic ∈ [.unknown,.b,.bkpt,.bl,.nop,.pop,.push,.svc,.udf] →
      ¬ (forms spec).Fits spec.width := fun hm => by
    rw [forms_empty h hm]
    exact Choices.not_fits_empty
  obtain ⟨mnemonic,condition,width,mode,operands⟩ := spec
  cases mnemonic with
  | add => exact addForms_fits_iff width operands
  | adds => exact addsForms_fits_iff width operands
  | addw => exact addwForms_fits_iff width operands
  | cmp => exact cmpForms_fits_iff width operands
  | ldr => exact ldrForms_fits_iff width operands mode
  | mov => exact movForms_fits_iff h
  | movs => exact movsForms_fits_iff width operands
  | sub => exact subForms_fits_iff width operands
  | subs => exact subsForms_fits_iff width operands
  | subw => exact subwForms_fits_iff width operands
  | blx => exact iff_false_intro (blxForms_not_fits h)
  | bx => exact iff_false_intro (bxForms_not_fits h)
  | movw => exact iff_false_intro (movwForms_not_fits h)
  | unknown | b | bkpt | bl | nop | pop | push | svc | udf =>
      exact iff_false_intro (hplain (by simp))

/-- A specification with a register out of range is refused, and the memory
left alone, unless its low bytes make an instruction. -/
theorem outOfRange_refused_iff {spec : ThumbInstructionSpec} (h : OutOfRange spec.operands)
    (into : Address) (m : Memory) :
    ((thumbAssemble into spec m).1.succeeds = false ∧ (thumbAssemble into spec m).2 = m) ↔
      ¬ AdmitsLowBytes spec := by
  rw [thumbAssemble_refused_iff,forms_fits_iff h]

def bxSpec (rm : BitVec 32) : ThumbInstructionSpec := { mnemonic := .bx, operands := [.reg rm] }

/-- `BX R16`, whose register is not copied. -/
theorem outOfRange_refused_bx :
    (thumbAssemble 0x20000000 (bxSpec 16) fun _ => 0).1.succeeds = false ∧
      (thumbAssemble 0x20000000 (bxSpec 16) fun _ => 0).2 = fun _ => 0 :=
  (outOfRange_refused_iff ⟨16,by decide,by decide⟩ 0x20000000 fun _ => 0).mpr fun h => h

def addsSpec (rd rn imm : BitVec 32) : ThumbInstructionSpec :=
  { mnemonic := .adds, operands := [.reg rd,.reg rn,.immediate imm] }

/-- `ADDS R256, R257, #1` writes the word of `ADDS R0, R1, #1`. -/
theorem outOfRange_aliased :
    OutOfRange (addsSpec 256 257 1).operands ∧
      (thumbAssemble 0x20000000 (addsSpec 256 257 1) fun _ => 0).1 = .narrowSuccess ∧
      load16 (thumbAssemble 0x20000000 (addsSpec 256 257 1) fun _ => 0).2 0x20000000 =
        load16 (thumbAssemble 0x20000000 (addsSpec 0 1 1) fun _ => 0).2 0x20000000 ∧
      ¬ ((thumbAssemble 0x20000000 (addsSpec 256 257 1) fun _ => 0).1.succeeds = false ∧
        (thumbAssemble 0x20000000 (addsSpec 256 257 1) fun _ => 0).2 = fun _ => 0) :=
  ⟨⟨256,by decide,by decide⟩,by decide,by decide,fun h => absurd h.1 (by decide)⟩

end TwMonitor.Thumb
