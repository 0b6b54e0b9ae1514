import TwMonitor.AssemblerForms

/-!
# The assembler implements its table

One lemma for each case of the switch, and three for the ways in which the code
consults the width specifier: a case that has narrow encodings only, one that
has wide encodings only, and one that falls from a narrow form to wide ones.
-/
namespace TwMonitor.Thumb
open ByteMemory T32

namespace Implements
variable {into : Address} {rest : Assembly}

theorem ensureNarrow (spec : ThumbInstructionSpec) {fs : List NarrowForm}
    (h : Implements into rest { narrow := fs }) :
    Implements into (Thumb.ensureNarrow spec rest)
      (Choices.restrict { narrow := fs } spec.width) := by
  unfold Thumb.ensureNarrow
  split
  · next hw =>
      rw [hw]
      exact fail rfl
  · next hw =>
      cases hs : spec.width with
      | auto => exact h
      | narrow => exact h
      | wide => exact absurd hs hw

theorem ensureWide (spec : ThumbInstructionSpec) {fs : List WideForm}
    (h : Implements into rest { wide := fs }) :
    Implements into (Thumb.ensureWide spec rest) (Choices.restrict { wide := fs } spec.width) := by
  unfold Thumb.ensureWide
  split
  · next hw =>
      rw [hw]
      exact fail rfl
  · next hw =>
      cases hs : spec.width with
      | auto => exact h
      | narrow => exact absurd hs hw
      | wide => exact h

theorem empty (spec : ThumbInstructionSpec) {r : ThumbAssembleResult} (hr : r.succeeds = false) :
    Implements into (Thumb.fail r) (Choices.restrict {} spec.width) := by
  cases spec.width <;> exact fail hr

theorem onlyWide (spec : ThumbInstructionSpec) {wide : Assembly} {ws : List WideForm}
    (h : Implements into wide { wide := ws }) :
    Implements into (if canBeWide spec then wide else Thumb.fail .failInvalidWidth)
      (Choices.restrict { wide := ws } spec.width) := by
  unfold canBeWide
  cases spec.width with
  | auto => exact h
  | narrow => exact fail rfl
  | wide => exact h

theorem narrowThenWide (spec : ThumbInstructionSpec) (f : NarrowForm) {wide : Assembly}
    {ws : List WideForm} (h : Implements into wide { wide := ws }) :
    Implements into
      (if canBeNarrow spec then
        tryEncode (encodeNarrow into (f.1.encode f.2))
          (if canBeWide spec then wide else Thumb.fail .failInvalidWidth)
      else if canBeWide spec then wide else Thumb.fail .failInvalidWidth)
      (Choices.restrict { narrow := [f], wide := ws } spec.width) := by
  unfold canBeNarrow canBeWide
  cases spec.width with
  | auto => exact tryNarrow f h
  | narrow => exact tryNarrow f (fail rfl)
  | wide => exact h

end Implements

section
variable (into : Address) (spec : ThumbInstructionSpec)

theorem asmAddw_implements :
    Implements into (asmAddw into spec) ((addwForms spec.operands).restrict spec.width) := by
  unfold asmAddw
  split
  · next hops =>
      rw [hops]
      dsimp only [addwForms]
      split
      · exact .ensureWide spec (.fail (by rfl))
      · exact .ensureWide spec (.returnWide ⟨.addwIT4,_⟩)
  · simp only [addwForms]
    exact .ensureWide spec (.fail (by rfl))

theorem asmAdd_implements :
    Implements into (asmAdd into spec) ((addForms spec.operands).restrict spec.width) := by
  unfold asmAdd
  split
  · next hops =>
      have haddw := asmAddw_implements into spec
      rw [hops] at haddw ⊢
      dsimp only [addForms,addwForms] at haddw ⊢
      split
      · exact .empty spec rfl
      · next hrn =>
          rwa [if_neg hrn] at haddw
  · next hops =>
      rw [hops]
      dsimp only [addForms]
      split
      · exact .ensureNarrow spec (.returnNarrow ⟨.addRT2,_⟩)
      · exact .ensureNarrow spec (.fail rfl)
  · simp only [addForms]
    exact .empty spec rfl

theorem asmAdds_implements :
    Implements into (asmAdds into spec) ((addsForms spec.operands).restrict spec.width) := by
  unfold asmAdds
  split
  · next hops =>
      rw [hops]
      dsimp only [addsForms]
      split
      · exact .ensureNarrow spec (.tryNarrow ⟨.addsIT1,_⟩ (.returnNarrow ⟨.addsIT2,_⟩))
      · exact .ensureNarrow spec (.tryNarrow ⟨.addsIT1,_⟩ (.fail (by rfl)))
  · next hops =>
      rw [hops]
      exact .ensureNarrow spec (.returnNarrow ⟨.addsRT1,_⟩)
  · simp only [addsForms]
    exact .empty spec rfl

theorem asmB_implements :
    Implements into (asmB into spec)
      ((bForms spec.condition spec.operands).restrict spec.width) := by
  unfold asmB
  split
  · next simm hops =>
      rw [hops]
      dsimp only [bForms]
      by_cases hcond : spec.condition = .none
      · simp only [hcond,if_true]
        exact .narrowThenWide spec ⟨.bT2,_⟩ (.returnWide ⟨.bT4,_⟩)
      · simp only [hcond,if_false]
        exact .narrowThenWide spec ⟨.bCondT1Noit,_⟩ (.returnWide ⟨.bCondT3Noit,_⟩)
  · simp only [bForms]
    exact .empty spec rfl

theorem asmBkpt_implements :
    Implements into (asmBkpt into spec) ((bkptForms spec.operands).restrict spec.width) := by
  unfold asmBkpt
  split
  · next hops =>
      rw [hops]
      exact .ensureNarrow spec (.returnNarrow ⟨.bkptT1,_⟩)
  · simp only [bkptForms]
    exact .ensureNarrow spec (.fail rfl)

theorem asmBl_implements :
    Implements into (asmBl into spec) ((blForms spec.operands).restrict spec.width) := by
  unfold asmBl
  split
  · next hops =>
      rw [hops]
      exact .ensureWide spec (.returnWide ⟨.blT1,_⟩)
  · simp only [blForms]
    exact .ensureWide spec (.fail rfl)

theorem asmBlx_implements :
    Implements into (asmBlx into spec) ((blxForms spec.operands).restrict spec.width) := by
  unfold asmBlx
  split
  · next hops =>
      rw [hops]
      exact .ensureNarrow spec (.returnNarrow ⟨.blxT1,_⟩)
  · simp only [blxForms]
    exact .ensureNarrow spec (.fail rfl)

theorem asmBx_implements :
    Implements into (asmBx into spec) ((bxForms spec.operands).restrict spec.width) := by
  unfold asmBx
  split
  · next hops =>
      rw [hops]
      exact .ensureNarrow spec (.returnNarrow ⟨.bxT1,_⟩)
  · simp only [bxForms]
    exact .ensureNarrow spec (.fail rfl)

theorem asmCmp_implements :
    Implements into (asmCmp into spec) ((cmpForms spec.operands).restrict spec.width) := by
  unfold asmCmp
  split
  · next hops =>
      rw [hops]
      exact .ensureNarrow spec (.returnNarrow ⟨.cmpIT1,_⟩)
  · next hops =>
      rw [hops]
      exact .ensureNarrow spec (.tryNarrow ⟨.cmpRT1,_⟩ (.returnNarrow ⟨.cmpRT2,_⟩))
  · simp only [cmpForms]
    exact .ensureNarrow spec (.fail rfl)

theorem asmLdrRegister_implements (rt rn rm shift : BitVec 32) :
    Implements into (asmLdrRegister into spec rt rn rm shift)
      ((ldrRegisterForms spec.addressingMode rt rn rm shift).restrict spec.width) := by
  unfold asmLdrRegister ldrRegisterForms
  split
  · exact .empty spec rfl
  · by_cases hshift : shift = 0
    · simp only [hshift,and_true,if_pos]
      exact .narrowThenWide spec ⟨.ldrRT1,_⟩ (.returnWide ⟨.ldrRT2Lsl,_⟩)
    · simp only [hshift,and_false,if_false]
      exact .onlyWide spec (.returnWide ⟨.ldrRT2Lsl,_⟩)

theorem asmLdrIT4_implements (rt rn offset : BitVec 32) :
    Implements into (asmLdrIT4 into spec rt rn offset)
      { wide := [⟨.ldrIT4,ldrEightBit spec.addressingMode rt rn offset⟩] } := by
  unfold asmLdrIT4 ldrEightBit
  cases spec.addressingMode with
  | none => exact .returnWide ⟨.ldrIT4,_⟩
  | offset => exact .returnWide ⟨.ldrIT4,_⟩
  | preindex => exact .returnWide ⟨.ldrIT4,_⟩
  | postindex => exact .returnWide ⟨.ldrIT4,_⟩

theorem asmLdrSigned_implements (rt rn offset : BitVec 32) :
    Implements into (asmLdrSigned into spec rt rn offset)
      (Choices.restrict { wide := ldrSignedForms spec.addressingMode rt rn offset }
        spec.width) := by
  unfold asmLdrSigned ldrSignedForms
  apply Implements.onlyWide
  have height := asmLdrIT4_implements into spec rt rn offset
  split
  · exact .tryWide ⟨.ldrLitT2,_⟩ height
  · exact height

theorem ldrUnsigned_implements {into : Address} {wide : Assembly} {ws : List WideForm}
    (h : Implements into wide { wide := ws }) (rt rn offset : BitVec 32) :
    Implements into
      (let scaled := tryEncode (encodeNarrow into (encodeLdrIT1 { rt, rn, imm7 := offset })) wide
      if rn = 13 then
        tryEncode (encodeNarrow into (encodeLdrIT2Sponly { rt, imm10 := offset })) scaled
      else if rn = 15 then
        tryEncode (encodeNarrow into (encodeLdrLitT1 { rt, imm10 := offset })) scaled
      else scaled)
      { narrow := ldrUnsignedNarrow rt rn offset, wide := ws } := by
  have hscaled := Implements.tryNarrow ⟨.ldrIT1,{ rt, rn, imm7 := offset }⟩ h
  unfold ldrUnsignedNarrow
  dsimp only
  split
  · exact .tryNarrow ⟨.ldrIT2Sponly,_⟩ hscaled
  · split
    · exact .tryNarrow ⟨.ldrLitT1,_⟩ hscaled
    · exact hscaled

theorem asmLdrImmediate_implements (rt rn offset : BitVec 32) :
    Implements into (asmLdrImmediate into spec rt rn offset)
      ((ldrImmediateForms spec.addressingMode rt rn offset).restrict spec.width) := by
  unfold asmLdrImmediate ldrImmediateForms
  have hsigned := asmLdrSigned_implements into spec rt rn offset
  dsimp only
  by_cases hoff : spec.addressingMode = .offset ∧ !offset.slt 0
  · rw [if_pos hoff,if_pos hoff]
    unfold canBeNarrow canBeWide
    cases hwidth : spec.width with
    | auto =>
        rw [hwidth] at hsigned
        exact ldrUnsigned_implements (.tryWide ⟨.ldrIT3,_⟩ hsigned) rt rn offset
    | narrow =>
        rw [hwidth] at hsigned
        exact ldrUnsigned_implements hsigned rt rn offset
    | wide =>
        rw [hwidth] at hsigned
        exact .tryWide ⟨.ldrIT3,_⟩ hsigned
  · rw [if_neg hoff,if_neg hoff]
    exact hsigned

theorem asmLdr_implements :
    Implements into (asmLdr into spec)
      ((ldrForms spec.addressingMode spec.operands).restrict spec.width) := by
  unfold asmLdr ldrForms
  split
  · exact .empty spec rfl
  · split
    · next hops =>
        rw [hops]
        exact asmLdrRegister_implements into spec _ _ _ _
    · next hops =>
        rw [hops]
        exact asmLdrRegister_implements into spec _ _ _ _
    · next hops =>
        rw [hops]
        exact asmLdrImmediate_implements into spec _ _ _
    · simp only [ldrOperandForms]
      exact .empty spec rfl

theorem asmNop_implements :
    Implements into (asmNop into spec) ((nopForms spec.operands).restrict spec.width) := by
  unfold asmNop
  split
  · next hops =>
      rw [hops]
      cases spec.width with
      | auto => exact ⟨.failInvalidOperand,rfl,rfl⟩
      | narrow => exact ⟨.failInvalidOperand,rfl,rfl⟩
      | wide => exact ⟨.failInvalidOperand,rfl,rfl⟩
  · simp only [nopForms]
    exact .empty spec rfl

theorem asmMovw_implements :
    Implements into (asmMovw into spec) ((movwForms spec.operands).restrict spec.width) := by
  unfold asmMovw
  split
  · next hops =>
      rw [hops]
      dsimp only [movwForms]
      split
      · exact .ensureWide spec (.fail rfl)
      · exact .ensureWide spec (.returnWide ⟨.movwIT3,_⟩)
  · simp only [movwForms]
    exact .ensureWide spec (.fail rfl)

theorem asmMov_implements :
    Implements into (asmMov into spec) ((movForms spec.operands).restrict spec.width) := by
  unfold asmMov
  split
  · next hops =>
      have hmovw := asmMovw_implements into spec
      rw [hops] at hmovw ⊢
      dsimp only [movForms]
      split
      · exact .empty spec rfl
      · exact hmovw
  · next hops =>
      rw [hops]
      exact .narrowThenWide spec ⟨.movRT1,_⟩ (.returnWide ⟨.movRT3OptS,_⟩)
  · simp only [movForms]
    exact .empty spec rfl

theorem asmMovs_implements :
    Implements into (asmMovs into spec) ((movsForms spec.operands).restrict spec.width) := by
  unfold asmMovs
  split
  · next hops =>
      rw [hops]
      dsimp only [movsForms]
      split
      · exact .empty spec rfl
      · unfold canBeNarrow
        cases spec.width with
        | auto => exact .tryNarrow ⟨.movsIT1,_⟩ (.fail rfl)
        | narrow => exact .tryNarrow ⟨.movsIT1,_⟩ (.fail rfl)
        | wide => exact .fail rfl
  · next hops =>
      rw [hops]
      exact .narrowThenWide spec ⟨.movsRT2Noit,_⟩ (.returnWide ⟨.movRT3OptS,_⟩)
  · simp only [movsForms]
    exact .empty spec rfl

theorem asmPop_implements :
    Implements into (asmPop into spec) ((popForms spec.operands).restrict spec.width) := by
  unfold asmPop
  split
  · next reglist hops =>
      rw [hops]
      dsimp only [popForms]
      split
      · exact .empty spec rfl
      · by_cases hcount : thumbCountRegisterList reglist = 1
        · simp only [hcount,if_true]
          cases reglist.getLsbD 14 with
          | true =>
              rw [Bool.not_true,Bool.and_false]
              exact .onlyWide spec (.tryWide ⟨.popT3,_⟩ (.fail (by rfl)))
          | false =>
              rw [Bool.not_false,Bool.and_true]
              exact .narrowThenWide spec ⟨.popT1,_⟩ (.tryWide ⟨.popT3,_⟩ (.fail (by rfl)))
        · simp only [hcount,if_false]
          cases reglist.getLsbD 14 with
          | true =>
              rw [Bool.not_true,Bool.and_false]
              exact .onlyWide spec (.tryWide ⟨.popT2,_⟩ (.fail (by rfl)))
          | false =>
              rw [Bool.not_false,Bool.and_true]
              exact .narrowThenWide spec ⟨.popT1,_⟩ (.tryWide ⟨.popT2,_⟩ (.fail (by rfl)))
  · simp only [popForms]
    exact .empty spec rfl

theorem asmPush_implements :
    Implements into (asmPush into spec) ((pushForms spec.operands).restrict spec.width) := by
  unfold asmPush
  split
  · next reglist hops =>
      rw [hops]
      dsimp only [pushForms]
      split
      · exact .empty spec rfl
      · by_cases hcount : thumbCountRegisterList reglist = 1
        · simp only [hcount,if_true]
          exact .narrowThenWide spec ⟨.pushT1,_⟩ (.tryWide ⟨.pushT3,_⟩ (.fail (by rfl)))
        · simp only [hcount,if_false]
          exact .narrowThenWide spec ⟨.pushT1,_⟩ (.tryWide ⟨.pushT2,_⟩ (.fail (by rfl)))
  · simp only [pushForms]
    exact .empty spec rfl

theorem asmSubw_implements :
    Implements into (asmSubw into spec) ((subwForms spec.operands).restrict spec.width) := by
  unfold asmSubw
  split
  · next hops =>
      rw [hops]
      dsimp only [subwForms]
      split
      · exact .ensureWide spec (.fail (by rfl))
      · exact .ensureWide spec (.returnWide ⟨.subwIT4,_⟩)
  · simp only [subwForms]
    exact .ensureWide spec (.fail (by rfl))

theorem asmSub_implements :
    Implements into (asmSub into spec) ((subForms spec.operands).restrict spec.width) := by
  unfold asmSub
  split
  · next hops =>
      have hsubw := asmSubw_implements into spec
      rw [hops] at hsubw ⊢
      dsimp only [subForms,subwForms] at hsubw ⊢
      split
      · exact .empty spec rfl
      · next hrn =>
          rwa [if_neg hrn] at hsubw
  · next hops =>
      rw [hops]
      exact .empty spec rfl
  · simp only [subForms]
    exact .empty spec rfl

theorem asmSubs_implements :
    Implements into (asmSubs into spec) ((subsForms spec.operands).restrict spec.width) := by
  unfold asmSubs
  split
  · next hops =>
      rw [hops]
      dsimp only [subsForms]
      split
      · exact .ensureNarrow spec (.tryNarrow ⟨.subsIT1,_⟩ (.returnNarrow ⟨.subsIT2,_⟩))
      · exact .ensureNarrow spec (.tryNarrow ⟨.subsIT1,_⟩ (.fail (by rfl)))
  · next hops =>
      rw [hops]
      exact .ensureNarrow spec (.returnNarrow ⟨.subsRT1,_⟩)
  · simp only [subsForms]
    exact .empty spec rfl

theorem asmSvc_implements :
    Implements into (asmSvc into spec) ((svcForms spec.operands).restrict spec.width) := by
  unfold asmSvc
  split
  · next hops =>
      rw [hops]
      exact .ensureNarrow spec (.returnNarrow ⟨.svcT1,_⟩)
  · simp only [svcForms]
    exact .ensureNarrow spec (.fail rfl)

theorem asmUdf_implements :
    Implements into (asmUdf into spec) ((udfForms spec.operands).restrict spec.width) := by
  unfold asmUdf
  split
  · next hops =>
      rw [hops]
      exact .narrowThenWide spec ⟨.udfT1,_⟩ (.returnWide ⟨.udfT2,_⟩)
  · simp only [udfForms]
    exact .empty spec rfl

/-- The assembler writes the first form that fits among the candidates of the
specification, and refuses when there is none. -/
theorem thumbAssemble_implements :
    Implements into (thumbAssemble into spec) (candidates spec) := by
  unfold thumbAssemble candidates forms
  cases spec.mnemonic with
  | unknown => exact .empty spec rfl
  | add => exact asmAdd_implements into spec
  | adds => exact asmAdds_implements into spec
  | addw => exact asmAddw_implements into spec
  | b => exact asmB_implements into spec
  | bkpt => exact asmBkpt_implements into spec
  | bl => exact asmBl_implements into spec
  | blx => exact asmBlx_implements into spec
  | bx => exact asmBx_implements into spec
  | cmp => exact asmCmp_implements into spec
  | ldr => exact asmLdr_implements into spec
  | nop => exact asmNop_implements into spec
  | mov => exact asmMov_implements into spec
  | movs => exact asmMovs_implements into spec
  | movw => exact asmMovw_implements into spec
  | pop => exact asmPop_implements into spec
  | push => exact asmPush_implements into spec
  | sub => exact asmSub_implements into spec
  | subs => exact asmSubs_implements into spec
  | subw => exact asmSubw_implements into spec
  | svc => exact asmSvc_implements into spec
  | udf => exact asmUdf_implements into spec

/-- What is written is the word of the choice. -/
theorem thumbAssemble_words (m : Memory) :
    (∃ h, (candidates spec).narrowWord = some h ∧
      thumbAssemble into spec m = (.narrowSuccess,store16 m into h)) ∨
    (∃ w, (candidates spec).narrowWord = none ∧ (candidates spec).wideWord = some w ∧
      thumbAssemble into spec m = (.wideSuccess,store32 m into w)) ∨
    (candidates spec).narrowWord = none ∧ (candidates spec).wideWord = none ∧
      ∃ r, ThumbAssembleResult.succeeds r = false ∧ thumbAssemble into spec m = (r,m) := by
  obtain ⟨r,hr,hrun⟩ := thumbAssemble_implements into spec
  rw [hrun]
  unfold Choices.run
  cases hn : (candidates spec).narrowWord with
  | some h => exact Or.inl ⟨h,rfl,rfl⟩
  | none =>
      cases hw : (candidates spec).wideWord with
      | some w => exact Or.inr (Or.inl ⟨w,rfl,rfl,rfl⟩)
      | none => exact Or.inr (Or.inr ⟨rfl,rfl,r,hr,rfl⟩)

/-- What a call did: it wrote a narrow form that fits, or a wide one, or it
refused and left the memory alone. -/
theorem thumbAssemble_cases (m : Memory) :
    (∃ f ∈ (candidates spec).narrow, ∃ h, f.word = some h ∧
      thumbAssemble into spec m = (.narrowSuccess,store16 m into h)) ∨
    (∃ f ∈ (candidates spec).wide, ∃ w, f.word = some w ∧
      thumbAssemble into spec m = (.wideSuccess,store32 m into w)) ∨
    ∃ r, ThumbAssembleResult.succeeds r = false ∧ thumbAssemble into spec m = (r,m) := by
  rcases thumbAssemble_words into spec m with ⟨h,hh,he⟩ | ⟨w,_,hw,he⟩ | ⟨_,_,hr⟩
  · obtain ⟨f,hf,hword⟩ := List.exists_of_findSome?_eq_some hh
    exact Or.inl ⟨f,hf,h,hword,he⟩
  · obtain ⟨f,hf,hword⟩ := List.exists_of_findSome?_eq_some hw
    exact Or.inr (Or.inl ⟨f,hf,w,hword,he⟩)
  · exact Or.inr (Or.inr hr)

/-- The call succeeds when some allowed form fits. -/
theorem thumbAssemble_succeeds_iff (m : Memory) :
    (thumbAssemble into spec m).1.succeeds = true ↔
      (candidates spec).narrowWord.isSome = true ∨ (candidates spec).wideWord.isSome = true := by
  rcases thumbAssemble_words into spec m with ⟨h,hh,he⟩ | ⟨w,hn,hw,he⟩ | ⟨hn,hw,r,hr,he⟩
  · simp [he,hh,ThumbAssembleResult.succeeds]
  · simp [he,hn,hw,ThumbAssembleResult.succeeds]
  · simp [he,hn,hw,hr]

end

/-- The halfword that a narrow form leaves. -/
theorem narrow_load32_store16 (m : Memory) (into : Address) (h : BitVec 16) :
    ThumbT.narrow (load32 (store16 m into h) into) = h := by
  rw [ThumbT.narrow,setWidth_load32,load16_store16]

end TwMonitor.Thumb
