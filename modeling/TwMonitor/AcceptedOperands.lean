import TwMonitor.AssemblyFrame
import TwMonitor.LiteralLoads

/-!
# Operands that an encoding takes

The operands of most cases of the switch as ranges of numbers: the low bytes of
their registers and the rest of their operands decide whether a form fits that
the width allows.
-/
namespace TwMonitor.Thumb
open BitLayout ByteMemory T32

/-! ## Choices that fit -/

/-- Some form fits that the width allows. -/
def Choices.Fits (c : Choices) (width : ThumbWidthSpecifier) : Prop :=
  (width ≠ .wide ∧ ∃ f ∈ c.narrow, f.word.isSome = true) ∨
    (width ≠ .narrow ∧ ∃ f ∈ c.wide, f.word.isSome = true)

theorem Choices.isSome_narrowWord (c : Choices) :
    c.narrowWord.isSome = true ↔ ∃ f ∈ c.narrow, f.word.isSome = true := by
  rw [Choices.narrowWord,List.findSome?_isSome_iff]

theorem Choices.isSome_wideWord (c : Choices) :
    c.wideWord.isSome = true ↔ ∃ f ∈ c.wide, f.word.isSome = true := by
  rw [Choices.wideWord,List.findSome?_isSome_iff]

theorem thumbAssemble_succeeds_iff_fits (into : Address) (spec : ThumbInstructionSpec)
    (m : Memory) :
    (thumbAssemble into spec m).1.succeeds = true ↔ (forms spec).Fits spec.width := by
  rw [thumbAssemble_succeeds_iff,Choices.isSome_narrowWord,Choices.isSome_wideWord,candidates,
    Choices.Fits]
  cases spec.width with
  | auto => simp [Choices.restrict]
  | narrow => simp [Choices.restrict]
  | wide => simp [Choices.restrict]

/-- Where no form fits, the memory is left alone. -/
theorem thumbAssemble_refused_iff (into : Address) (spec : ThumbInstructionSpec) (m : Memory) :
    ((thumbAssemble into spec m).1.succeeds = false ∧ (thumbAssemble into spec m).2 = m) ↔
      ¬ (forms spec).Fits spec.width := by
  rw [← thumbAssemble_succeeds_iff_fits into spec m,Bool.not_eq_true]
  refine ⟨fun h => h.1,fun h => ⟨h,?_⟩⟩
  exact (writesExactly_thumbAssemble into spec m).failed h

theorem Choices.fits_onlyWide (c : Choices) :
    c.Fits .wide ↔ ∃ f ∈ c.wide, f.word.isSome = true := by
  simp [Choices.Fits]

section
variable {width : ThumbWidthSpecifier}

theorem Choices.fits_narrow (fs : List NarrowForm) :
    Choices.Fits { narrow := fs } width ↔ width ≠ .wide ∧ ∃ f ∈ fs, f.word.isSome = true := by
  simp [Choices.Fits]

theorem Choices.fits_wide (fs : List WideForm) :
    Choices.Fits { wide := fs } width ↔ width ≠ .narrow ∧ ∃ f ∈ fs, f.word.isSome = true := by
  simp [Choices.Fits]

theorem Choices.not_fits_empty : ¬ Choices.Fits {} width := by
  simp [Choices.Fits]

theorem Choices.fits_oneNarrow {f : NarrowForm} {accepted : Prop}
    (hg : guards (f.1.encode f.2).steps = true ↔ accepted) :
    Choices.Fits { narrow := [f] } width ↔ width ≠ .wide ∧ accepted := by
  rw [Choices.fits_narrow]
  simp only [List.mem_singleton,exists_eq_left,NarrowForm.fits_iff hg]

theorem Choices.fits_oneWide {f : WideForm} {accepted : Prop}
    (hg : guards (f.1.encode f.2).steps = true ↔ accepted) :
    Choices.Fits { wide := [f] } width ↔ width ≠ .narrow ∧ accepted := by
  rw [Choices.fits_wide]
  simp only [List.mem_singleton,exists_eq_left,WideForm.fits_iff hg]

end

/-! ## What the cases take of the low bytes -/

section
variable (width : ThumbWidthSpecifier)

/-- ADD, ADDW, SUB and SUBW with an immediate. -/
def addwAdmits : List ThumbOperand → Prop
  | [.reg rd,.reg rn,.immediate imm] =>
      width ≠ .narrow ∧ (uint8 rd).toNat < 16 ∧ (uint8 rn).toNat < 16 ∧ uint8 rn ≠ 13 ∧
        uint8 rn ≠ 15 ∧ imm.toNat < 4096
  | _ => False

def addAdmits : List ThumbOperand → Prop
  | [.reg rd,.reg rn,.immediate imm] => addwAdmits width [.reg rd,.reg rn,.immediate imm]
  | [.reg rd,.reg rn,.reg rm] =>
      width ≠ .wide ∧ uint8 rd = uint8 rn ∧ (uint8 rd).toNat < 16 ∧ (uint8 rm).toNat < 16
  | _ => False

/-- ADDS and SUBS. -/
def addsAdmits : List ThumbOperand → Prop
  | [.reg rd,.reg rn,.immediate imm] =>
      width ≠ .wide ∧ (uint8 rd).toNat < 8 ∧ (uint8 rn).toNat < 8 ∧
        (imm.toNat < 8 ∨ (uint8 rd = uint8 rn ∧ imm.toNat < 256))
  | [.reg rd,.reg rn,.reg rm] =>
      width ≠ .wide ∧ (uint8 rd).toNat < 8 ∧ (uint8 rn).toNat < 8 ∧ (uint8 rm).toNat < 8
  | _ => False

def cmpAdmits : List ThumbOperand → Prop
  | [.reg rn,.immediate imm] => width ≠ .wide ∧ (uint8 rn).toNat < 8 ∧ imm.toNat < 256
  | [.reg rn,.reg rm] => width ≠ .wide ∧ (uint8 rn).toNat < 16 ∧ (uint8 rm).toNat < 16
  | _ => False

/-- MOV with a register. -/
def movAdmits : List ThumbOperand → Prop
  | [.reg rd,.reg rm] => (uint8 rd).toNat < 16 ∧ (uint8 rm).toNat < 16
  | _ => False

def movsAdmits : List ThumbOperand → Prop
  | [.reg rd,.immediate imm] => width ≠ .wide ∧ (uint8 rd).toNat < 8 ∧ imm.toNat < 256
  | [.reg rd,.reg rm] =>
      (width ≠ .wide ∧ (uint8 rd).toNat < 8 ∧ (uint8 rm).toNat < 8) ∨
        (width ≠ .narrow ∧ (uint8 rd).toNat < 16 ∧ (uint8 rm).toNat < 16)
  | _ => False

/-- A load with a register offset; the registers are low bytes. -/
def ldrRegisterAdmits (mode : AddressingMode) (rt rn rm shift : BitVec 32) : Prop :=
  mode = .offset ∧
    ((width ≠ .wide ∧ shift = 0 ∧ rt.toNat < 8 ∧ rn.toNat < 8 ∧ rm.toNat < 8) ∨
      (width ≠ .narrow ∧ shift.toNat < 4 ∧ rt.toNat < 16 ∧ rn.toNat < 16 ∧ rm.toNat < 16))

def ldrImmediateAdmits (mode : AddressingMode) (rt rn offset : BitVec 32) : Prop :=
  (width ≠ .wide ∧ mode = .offset ∧ rt.toNat < 8 ∧ NarrowBase rn ∧ offset.toNat % 4 = 0 ∧
      offset.toNat < 2 ^ (scaleWidth rn + 4)) ∨
    (width ≠ .narrow ∧ rt.toNat < 16 ∧ rn.toNat < 16 ∧
      ((magnitude offset).toNat < 256 ∨
        (mode = .offset ∧ (offset.toNat < 4096 ∨ (rn = 15 ∧ (magnitude offset).toNat < 4096)))))

def ldrAdmits (mode : AddressingMode) : List ThumbOperand → Prop
  | [.reg rt,.reg rn,.reg rm] =>
      ldrRegisterAdmits width mode (uint8 rt) (uint8 rn) (uint8 rm) 0
  | [.reg rt,.reg rn,.reg rm,.lslShift shift] =>
      ldrRegisterAdmits width mode (uint8 rt) (uint8 rn) (uint8 rm) shift
  | [.reg rt,.reg rn,.signedImmediate simm] =>
      mode ≠ .none ∧ ldrImmediateAdmits width mode (uint8 rt) (uint8 rn) simm
  | _ => False

end

/-- The case of the mnemonic copies its registers into bytes, and with these
the operands fit an encoding that the width allows. -/
def AdmitsLowBytes (spec : ThumbInstructionSpec) : Prop :=
  match spec.mnemonic with
  | .add => addAdmits spec.width spec.operands
  | .adds => addsAdmits spec.width spec.operands
  | .addw => addwAdmits spec.width spec.operands
  | .cmp => cmpAdmits spec.width spec.operands
  | .ldr => ldrAdmits spec.width spec.addressingMode spec.operands
  | .mov => movAdmits spec.operands
  | .movs => movsAdmits spec.width spec.operands
  | .sub => addwAdmits spec.width spec.operands
  | .subs => addsAdmits spec.width spec.operands
  | .subw => addwAdmits spec.width spec.operands
  | _ => False

/-! ## The forms of the cases -/

section
variable (width : ThumbWidthSpecifier) (operands : List ThumbOperand)

/-- The form of ADDW or SUBW behind the test of its base. -/
theorem fits_base_iff {rd rn imm : BitVec 32} {f : WideForm}
    (hg : guards (f.1.encode f.2).steps = true ↔
      imm.toNat < 2 ^ 12 ∧ (uint8 rd).toNat < 2 ^ 4 ∧ (uint8 rn).toNat < 2 ^ 4) :
    Choices.Fits (if uint8 rn = 13 ∨ uint8 rn = 15 then {} else { wide := [f] }) width ↔
      addwAdmits width [.reg rd,.reg rn,.immediate imm] := by
  dsimp only [addwAdmits]
  split
  · next hbase =>
      exact ⟨fun h => absurd h Choices.not_fits_empty,
        fun h => hbase.elim (fun h₁ => absurd h₁ h.2.2.2.1) fun h₂ => absurd h₂ h.2.2.2.2.1⟩
  · next hbase =>
      have hne := not_or.mp hbase
      rw [Choices.fits_oneWide hg]
      exact ⟨fun ⟨hw,himm,hrd,hrn⟩ => ⟨hw,hrd,hrn,hne.1,hne.2,himm⟩,
        fun ⟨hw,hrd,hrn,_,_,himm⟩ => ⟨hw,himm,hrd,hrn⟩⟩

theorem addwForms_fits_iff : (addwForms operands).Fits width ↔ addwAdmits width operands := by
  unfold addwForms
  split
  · exact fits_base_iff width (fields_three_iff _ _ _ 12 4 4)
  · simp only [addwAdmits]
    exact iff_false_intro Choices.not_fits_empty

theorem subwForms_fits_iff : (subwForms operands).Fits width ↔ addwAdmits width operands := by
  unfold subwForms
  split
  · exact fits_base_iff width (fields_three_iff _ _ _ 12 4 4)
  · simp only [addwAdmits]
    exact iff_false_intro Choices.not_fits_empty

theorem subForms_fits_iff : (subForms operands).Fits width ↔ addwAdmits width operands := by
  unfold subForms
  split
  · exact subwForms_fits_iff width _
  · simp only [addwAdmits]
    exact iff_false_intro Choices.not_fits_empty

theorem addForms_fits_iff : (addForms operands).Fits width ↔ addAdmits width operands := by
  unfold addForms
  split
  · exact addwForms_fits_iff width _
  · next rd rn rm =>
      dsimp only [addAdmits]
      split
      · next hsame =>
          refine Iff.trans (Choices.fits_oneNarrow (fields_two_iff _ _ 4 4)) ?_
          exact and_congr_right' (iff_and_self.mpr fun _ => hsame)
      · next hne =>
          exact ⟨fun h => absurd h Choices.not_fits_empty,fun h => absurd h.2.1 hne⟩
  · simp only [addAdmits]
    exact iff_false_intro Choices.not_fits_empty

/-- The first form of ADDS or SUBS has three registers, the second one needs
the same register twice. -/
theorem fits_flags_iff {rd rn imm : BitVec 32} {f g : NarrowForm}
    (hf : guards (f.1.encode f.2).steps = true ↔
      imm.toNat < 2 ^ 3 ∧ (uint8 rn).toNat < 2 ^ 3 ∧ (uint8 rd).toNat < 2 ^ 3)
    (hg : guards (g.1.encode g.2).steps = true ↔
      (uint8 rd).toNat < 2 ^ 3 ∧ imm.toNat < 2 ^ 8) :
    Choices.Fits { narrow := f::if uint8 rd = uint8 rn then [g] else [] } width ↔
      addsAdmits width [.reg rd,.reg rn,.immediate imm] := by
  dsimp only [addsAdmits]
  rw [Choices.fits_narrow,List.exists_mem_cons_iff,NarrowForm.fits_iff hf]
  apply and_congr_right'
  split
  · next hsame =>
      simp only [List.mem_singleton,exists_eq_left,NarrowForm.fits_iff hg,hsame,true_and]
      omega
  · next hne =>
      simp only [List.not_mem_nil,false_and,exists_false,or_false,hne]
      omega

theorem fits_registers_iff {rd rn rm : BitVec 32} {f : NarrowForm}
    (hg : guards (f.1.encode f.2).steps = true ↔
      (uint8 rm).toNat < 2 ^ 3 ∧ (uint8 rn).toNat < 2 ^ 3 ∧ (uint8 rd).toNat < 2 ^ 3) :
    Choices.Fits { narrow := [f] } width ↔ addsAdmits width [.reg rd,.reg rn,.reg rm] := by
  dsimp only [addsAdmits]
  rw [Choices.fits_oneNarrow hg]
  apply and_congr_right'
  omega

theorem addsForms_fits_iff : (addsForms operands).Fits width ↔ addsAdmits width operands := by
  unfold addsForms
  split
  · exact fits_flags_iff width (fields_three_iff _ _ _ 3 3 3) (fields_two_iff _ _ 3 8)
  · next rd rn rm =>
      exact fits_registers_iff width (fields_three_iff (uint8 rm) (uint8 rn) (uint8 rd) 3 3 3)
  · simp only [addsAdmits]
    exact iff_false_intro Choices.not_fits_empty

theorem subsForms_fits_iff : (subsForms operands).Fits width ↔ addsAdmits width operands := by
  unfold subsForms
  split
  · exact fits_flags_iff width (fields_three_iff _ _ _ 3 3 3) (fields_two_iff _ _ 3 8)
  · next rd rn rm =>
      exact fits_registers_iff width (fields_three_iff (uint8 rm) (uint8 rn) (uint8 rd) 3 3 3)
  · simp only [addsAdmits]
    exact iff_false_intro Choices.not_fits_empty

theorem cmpForms_fits_iff : (cmpForms operands).Fits width ↔ cmpAdmits width operands := by
  unfold cmpForms
  split
  · next rn imm =>
      exact Choices.fits_oneNarrow (fields_two_iff (uint8 rn) imm 3 8)
  · next rn rm =>
      dsimp only [cmpAdmits]
      have hlow := NarrowForm.fits_iff (f := ⟨.cmpRT1,{ rn := uint8 rn, rm := uint8 rm }⟩)
        (fields_two_iff (uint8 rm) (uint8 rn) 3 3)
      have hhigh := NarrowForm.fits_iff (f := ⟨.cmpRT2,{ rn := uint8 rn, rm := uint8 rm }⟩)
        (fields_two_iff (uint8 rn) (uint8 rm) 4 4)
      rw [Choices.fits_narrow,List.exists_mem_cons_iff,hlow]
      simp only [List.mem_singleton,exists_eq_left,hhigh]
      apply and_congr_right'
      omega
  · simp only [cmpAdmits]
    exact iff_false_intro Choices.not_fits_empty

theorem movForms_register_fits_iff (rd rm : BitVec 32) :
    (movForms [.reg rd,.reg rm]).Fits width ↔ movAdmits [.reg rd,.reg rm] := by
  have hnarrow := NarrowForm.fits_iff (f := ⟨.movRT1,{ rd := uint8 rd, rm := uint8 rm }⟩)
    (fields_two_iff (uint8 rd) (uint8 rm) 4 4)
  have hwide := WideForm.fits_iff
    (f := ⟨.movRT3OptS,{ setflags := 0, rd := uint8 rd, rm := uint8 rm }⟩)
    (fields_three_iff (uint8 rd) (uint8 rm) 0 4 4 1)
  dsimp only [movForms,movAdmits,Choices.Fits]
  simp only [List.mem_singleton,exists_eq_left,hnarrow,hwide]
  cases width with
  | auto => simp
  | narrow => simp
  | wide => simp

theorem movsForms_fits_iff : (movsForms operands).Fits width ↔ movsAdmits width operands := by
  unfold movsForms
  split
  · next rd imm =>
      dsimp only [movsAdmits]
      split
      · next hbase =>
          have hnot : ¬ (uint8 rd).toNat < 8 := by
            rcases hbase with h | h
            · rw [h]
              decide
            · rw [h]
              decide
          exact ⟨fun h => absurd h Choices.not_fits_empty,fun h => absurd h.2.1 hnot⟩
      · next hbase =>
          exact Choices.fits_oneNarrow (fields_two_iff (uint8 rd) imm 3 8)
  · next rd rm =>
      have hnarrow := NarrowForm.fits_iff (f := ⟨.movsRT2Noit,{ rd := uint8 rd, rm := uint8 rm }⟩)
        (fields_two_iff (uint8 rm) (uint8 rd) 3 3)
      have hwide := WideForm.fits_iff
        (f := ⟨.movRT3OptS,{ setflags := 1, rd := uint8 rd, rm := uint8 rm }⟩)
        (fields_three_iff (uint8 rd) (uint8 rm) 1 4 4 1)
      have hflag : (1 : BitVec 32).toNat < 2 ^ 1 := by decide
      dsimp only [movsAdmits,Choices.Fits]
      simp only [List.mem_singleton,exists_eq_left,hnarrow,hwide,hflag,and_true]
      exact or_congr_left (and_congr_right' and_comm)
  · simp only [movsAdmits]
    exact iff_false_intro Choices.not_fits_empty

/-! ## Loads -/

theorem ldrRegisterForms_fits_iff (mode : AddressingMode) (rt rn rm shift : BitVec 32) :
    (ldrRegisterForms mode rt rn rm shift).Fits width ↔
      ldrRegisterAdmits width mode rt rn rm shift := by
  have hnarrow := NarrowForm.fits_iff (f := ⟨.ldrRT1,{ rt, rn, rm }⟩)
    (fields_three_iff rm rn rt 3 3 3)
  have hg : (fits rt 4 && (fits shift 2 && (fits rm 4 && (fits rn 4 && true)))) = true ↔
      rt.toNat < 16 ∧ shift.toNat < 4 ∧ rm.toNat < 16 ∧ rn.toNat < 16 := by
    simp only [Bool.and_eq_true,fits_iff_toNat,and_true]
    rfl
  have hwide := WideForm.fits_iff (f := ⟨.ldrRT2Lsl,{ rt, rn, rm, lslShiftImm2 := shift }⟩) hg
  unfold ldrRegisterForms ldrRegisterAdmits
  split
  · next hmode =>
      exact ⟨fun h => absurd h Choices.not_fits_empty,fun h => absurd h.1 hmode⟩
  · next hmode =>
      rw [and_iff_right (not_not.mp hmode)]
      dsimp only [Choices.Fits]
      simp only [List.mem_singleton,exists_eq_left,hwide]
      refine or_congr (and_congr_right' ?_) (and_congr_right' (by omega))
      split
      · next hshift =>
          simp only [List.mem_singleton,exists_eq_left,hnarrow,hshift,true_and]
          omega
      · next hshift =>
          simp only [List.not_mem_nil,false_and,exists_false,hshift]

theorem ldrUnsignedNarrow_fits_iff (rt rn offset : BitVec 32) :
    (∃ f ∈ ldrUnsignedNarrow rt rn offset, f.word.isSome = true) ↔
      rt.toNat < 8 ∧ NarrowBase rn ∧ offset.toNat % 4 = 0 ∧
        offset.toNat < 2 ^ (scaleWidth rn + 4) := by
  have htext := congrArg Option.isSome (ldrUnsignedNarrow_text rt rn offset)
  have hsome : (∃ f ∈ ldrUnsignedNarrow rt rn offset, f.word.isSome = true) ↔
      ((ldrUnsignedNarrow rt rn offset).findSome? NarrowForm.text).isSome = true := by
    simp only [List.findSome?_isSome_iff,NarrowForm.isSome_text]
  rw [hsome,htext,scaledText]
  split
  · next h => exact ⟨fun _ => ⟨h.2.1,h.2.2,h.1⟩,fun _ => rfl⟩
  · next h => exact ⟨fun hs => absurd hs Bool.false_ne_true,fun hs => absurd ⟨hs.2.2,hs.1,hs.2.1⟩ h⟩

theorem ldrEightBit_fits_iff (mode : AddressingMode) (rt rn offset : BitVec 32) :
    (WideForm.word ⟨.ldrIT4,ldrEightBit mode rt rn offset⟩).isSome = true ↔
      rt.toNat < 16 ∧ (magnitude offset).toNat < 256 ∧ rn.toNat < 16 :=
  WideForm.fits_iff (ldrEightBit_guards_iff mode rt rn offset)

theorem ldrSignedForms_fits_iff (mode : AddressingMode) (rt rn offset : BitVec 32) :
    (∃ f ∈ ldrSignedForms mode rt rn offset, f.word.isSome = true) ↔
      rt.toNat < 16 ∧ rn.toNat < 16 ∧ ((magnitude offset).toNat < 256 ∨
        (mode = .offset ∧ rn = 15 ∧ (magnitude offset).toNat < 4096)) := by
  have hliteral := ldrLiteral_isSome_iff rt offset
  rw [WideForm.isSome_text] at hliteral
  have height := ldrEightBit_fits_iff mode rt rn offset
  unfold ldrSignedForms
  split
  · next h =>
      have hrn : rn.toNat < 16 := by
        rw [h.1]
        decide
      have hlit : (mode = .offset ∧ rn = 15 ∧ (magnitude offset).toNat < 4096) ↔
          (magnitude offset).toNat < 4096 :=
        ⟨fun hlit => hlit.2.2,fun hlit => ⟨h.2,h.1,hlit⟩⟩
      simp only [List.exists_mem_cons_iff,List.mem_singleton,exists_eq_left,hliteral,height,hlit]
      omega
  · next h =>
      have hnot : ¬ (mode = .offset ∧ rn = 15 ∧ (magnitude offset).toNat < 4096) :=
        fun hlit => h ⟨hlit.2.1,hlit.1⟩
      simp only [List.mem_singleton,exists_eq_left,height,hnot,or_false]
      omega

theorem ldrImmediateForms_narrow_fits_iff (mode : AddressingMode) (rt rn offset : BitVec 32) :
    (∃ f ∈ (ldrImmediateForms mode rt rn offset).narrow, f.word.isSome = true) ↔
      mode = .offset ∧ rt.toNat < 8 ∧ NarrowBase rn ∧ offset.toNat % 4 = 0 ∧
        offset.toNat < 2 ^ (scaleWidth rn + 4) := by
  have hpow := pow_scaleWidth_le rn
  unfold ldrImmediateForms
  split
  · next h => rw [ldrUnsignedNarrow_fits_iff,and_iff_right h.1]
  · next h =>
      refine iff_of_false (by simp) ?_
      rintro ⟨hmode,_,_,_,hlt⟩
      exact h ⟨hmode,not_slt_zero (by omega)⟩

/-- The unsigned form takes what the signed forms refuse of the forward offsets. -/
theorem ldrImmediateForms_wide_fits_iff (mode : AddressingMode) (rt rn offset : BitVec 32) :
    (∃ f ∈ (ldrImmediateForms mode rt rn offset).wide, f.word.isSome = true) ↔
      rt.toNat < 16 ∧ rn.toNat < 16 ∧ ((magnitude offset).toNat < 256 ∨
        (mode = .offset ∧
          (offset.toNat < 4096 ∨ (rn = 15 ∧ (magnitude offset).toNat < 4096)))) := by
  have hsigned := ldrSignedForms_fits_iff mode rt rn offset
  have hthree : (WideForm.word ⟨.ldrIT3,{ rt, rn, imm12 := offset }⟩).isSome = true ↔
      rt.toNat < 16 ∧ offset.toNat < 4096 ∧ rn.toNat < 16 :=
    WideForm.fits_iff (fields_three_iff rt offset rn 4 12 4)
  unfold ldrImmediateForms
  split
  · next h =>
      dsimp only
      rw [List.exists_mem_cons_iff,hsigned,hthree]
      simp only [h.1,true_and]
      constructor
      · rintro (⟨hrt,hlt,hrn⟩ | ⟨hrt,hrn,hmag | hlit⟩)
        · exact ⟨hrt,hrn,Or.inr (Or.inl hlt)⟩
        · exact ⟨hrt,hrn,Or.inl hmag⟩
        · exact ⟨hrt,hrn,Or.inr (Or.inr hlit)⟩
      · rintro ⟨hrt,hrn,hmag | hlt | hlit⟩
        · exact Or.inr ⟨hrt,hrn,Or.inl hmag⟩
        · exact Or.inl ⟨hrt,hlt,hrn⟩
        · exact Or.inr ⟨hrt,hrn,Or.inr hlit⟩
  · next h =>
      have hsmall : mode = .offset → ¬ offset.toNat < 4096 :=
        fun hmode hlt => h ⟨hmode,not_slt_zero (by omega)⟩
      rw [hsigned]
      refine and_congr_right' (and_congr_right' (or_congr_right (and_congr_right fun hmode => ?_)))
      exact (or_iff_right (hsmall hmode)).symm

theorem ldrImmediateForms_fits_iff (mode : AddressingMode) (rt rn offset : BitVec 32) :
    (ldrImmediateForms mode rt rn offset).Fits width ↔
      ldrImmediateAdmits width mode rt rn offset := by
  have hnarrow := ldrImmediateForms_narrow_fits_iff mode rt rn offset
  have hwide := ldrImmediateForms_wide_fits_iff mode rt rn offset
  rw [Choices.Fits,hnarrow,hwide,ldrImmediateAdmits]

theorem ldrForms_fits_iff (mode : AddressingMode) :
    (ldrForms mode operands).Fits width ↔ ldrAdmits width mode operands := by
  unfold ldrForms
  split
  · next hmode =>
      refine ⟨fun h => absurd h Choices.not_fits_empty,fun h => ?_⟩
      have hne : mode ≠ .offset := by
        rw [hmode]
        decide
      unfold ldrAdmits at h
      split at h
      · exact absurd h.1 hne
      · exact absurd h.1 hne
      · exact absurd hmode h.1
      · exact h.elim
  · next hmode =>
      unfold ldrOperandForms
      split
      · exact ldrRegisterForms_fits_iff width mode _ _ _ 0
      · exact ldrRegisterForms_fits_iff width mode _ _ _ _
      · dsimp only [ldrAdmits]
        rw [and_iff_right hmode]
        exact ldrImmediateForms_fits_iff width mode _ _ _
      · simp only [ldrAdmits]
        exact iff_false_intro Choices.not_fits_empty

end

end TwMonitor.Thumb
