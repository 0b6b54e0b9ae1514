import TwMonitor.AcceptedOperands
import TwMonitor.RegisterList

/-!
# Register lists that assemble

The wide POP of one register has the bits of a load from SP, and the decoder
tries the load first. The wide forms for several registers have no bit for SP,
and PUSH has none for PC, where the forms for one register take any number.
-/
namespace TwMonitor.Thumb
open BitLayout BitPattern ByteMemory WordCodec T32

/-- A PUSH or POP, as the editor builds it. -/
def listSpec (mnemonic : ThumbMnemonic) (width : ThumbWidthSpecifier) (reglist : BitVec 16) :
    ThumbInstructionSpec :=
  { mnemonic, width, operands := [.reglist reglist] }

/-! ## Splitting and joining the list of a POP -/

theorem pop_list (reglist : BitVec 16) :
    joinList ((reglist &&& ~~~(1#16 <<< 14 ||| 1#16 <<< 15)).setWidth 32)
      (boolWord (reglist.getLsbD 14)) (boolWord (reglist.getLsbD 15)) = reglist := by
  apply BitVec.eq_of_getLsbD_eq
  intro i hi
  unfold joinList boolWord
  cases hlr : reglist.getLsbD 14 with
  | false =>
      cases hpc : reglist.getLsbD 15 with
      | false => interval_cases i <;> simp [-BitVec.getLsbD_eq_getElem,hlr,hpc]
      | true => interval_cases i <;> simp [-BitVec.getLsbD_eq_getElem,hlr,hpc]
  | true =>
      cases hpc : reglist.getLsbD 15 with
      | false => interval_cases i <;> simp [-BitVec.getLsbD_eq_getElem,hlr,hpc]
      | true => interval_cases i <;> simp [-BitVec.getLsbD_eq_getElem,hlr,hpc]

/-- The narrow POP, which has no bit for LR. -/
theorem pop_list_narrow {reglist : BitVec 16} (hlr : reglist.getLsbD 14 = false) :
    ((reglist &&& ~~~(1#16 <<< 14 ||| 1#16 <<< 15)).setWidth 32 |||
      boolWord (reglist.getLsbD 15) <<< 15).setWidth 16 = reglist := by
  have hlist := pop_list reglist
  have hzero : boolWord false <<< 14 = 0#32 := rfl
  rwa [hlr,joinList,hzero,BitVec.or_zero] at hlist

/-- The registers of a POP other than LR and PC. -/
def popRegisters (reglist : BitVec 16) : BitVec 32 :=
  (reglist &&& ~~~(1#16 <<< 14 ||| 1#16 <<< 15)).setWidth 32

/-- The register of a list of one register. -/
def loneRegister (reglist : BitVec 16) : BitVec 32 :=
  if reglist.getLsbD 14 then 14 else if reglist.getLsbD 15 then 15
  else topRegister (reglist &&& ~~~(1#16 <<< 14 ||| 1#16 <<< 15))

theorem loneRegister_lt {reglist : BitVec 16} (h : thumbCountRegisterList reglist = 1) :
    (loneRegister reglist).toNat < 16 := by
  obtain ⟨k,hk,rfl⟩ := one_register h
  clear h
  interval_cases k <;> decide

/-! ## What is read back -/

/-- The word shows a POP of the list. -/
def PopKept (reglist : BitVec 16) (shown : Option ThumbInstructionSpec) : Prop :=
  ∃ s, shown = some s ∧ s.mnemonic = .pop ∧ s.operands = [.reglist reglist]

theorem popKept_listSpec {width : ThumbWidthSpecifier} {reglist shown : BitVec 16}
    (h : shown = reglist) : PopKept reglist (some (listSpec .pop width shown)) :=
  ⟨_,rfl,rfl,congrArg (fun l => [ThumbOperand.reglist l]) h⟩

section
variable (reglist : BitVec 16)

theorem popT1_kept (hlr : reglist.getLsbD 14 = false) :
    Every (PopKept reglist) (NarrowForm.text ⟨.popT1,
      { pc := boolWord (reglist.getLsbD 15), regs := popRegisters reglist }⟩) := by
  intro s hs
  rw [(NarrowForm.legible rfl _).eq_shown hs]
  exact popKept_listSpec (pop_list_narrow hlr)

theorem popT2_kept :
    Every (PopKept reglist) (WideForm.text ⟨.popT2,
      { regs := popRegisters reglist, lr := boolWord (reglist.getLsbD 14),
        pc := boolWord (reglist.getLsbD 15) }⟩) := by
  intro s hs
  rw [(WideForm.legible rfl _).eq_shown hs]
  exact popKept_listSpec (pop_list reglist)

/-- Every word of the POP of one register is a load with an eight-bit offset. -/
theorem popT3_text {rt : BitVec 32} {w : BitVec 32}
    (hword : WideForm.word ⟨.popT3,{ rt }⟩ = some w) :
    thumbDisassembleWide w = WideEncoding.ldrIT4.read (decodeLdrIT4 w) :=
  thumbDisassembleWide_of_resolve (r := WideEncoding.ldrIT4.toRule) rfl
    (Codec.pattern_matches (c := WideEncoding.popT3.toCodec) hword)

theorem popT3_not_kept {rt : BitVec 32} (hrt : rt.toNat < 16) :
    ¬ Every (PopKept reglist) (WideForm.text ⟨.popT3,{ rt }⟩) := by
  intro hall
  have hsome : (WideForm.word ⟨.popT3,{ rt }⟩).isSome = true :=
    (WideForm.fits_iff (f := ⟨.popT3,{ rt }⟩) (field_iff rt 4)).mpr hrt
  obtain ⟨w,hword⟩ := Option.isSome_iff_exists.mp hsome
  have hkept := WideForm.every_text_iff.mp hall w hword
  rw [popT3_text hword] at hkept
  obtain ⟨s,hs,hpop,_⟩ := hkept
  obtain ⟨mode,_,hs⟩ := Option.bind_eq_some_iff.mp hs
  obtain rfl := Option.some.inj hs
  exact ThumbMnemonic.noConfusion hpop

/-- The list is one register, and the narrow POP is not allowed or has no bit for it. -/
def PopsAsLoad (width : ThumbWidthSpecifier) : Prop :=
  thumbCountRegisterList reglist = 1 ∧
    (width = .wide ∨ (width = .auto ∧ reglist &&& 0x80FF = 0))

/-- The narrow form of a POP. -/
def popNarrow : List NarrowForm :=
  if reglist.getLsbD 14 then []
  else [⟨.popT1,{ pc := boolWord (reglist.getLsbD 15), regs := popRegisters reglist }⟩]

theorem popNarrow_kept :
    Every (PopKept reglist) ((popNarrow reglist).findSome? NarrowForm.text) := by
  unfold popNarrow
  split
  · exact every_none
  · next hlr =>
      rw [List.findSome?_singleton]
      exact popT1_kept reglist (eq_false_of_ne_true hlr)

/-- A narrow POP of one register takes R0 to R7 and PC. -/
theorem popNarrow_lone {reglist : BitVec 16} (h : thumbCountRegisterList reglist = 1) :
    (popNarrow reglist).findSome? NarrowForm.text = none ↔ reglist &&& 0x80FF = 0 := by
  obtain ⟨k,hk,rfl⟩ := one_register h
  clear h
  interval_cases k <;> decide

/-- The wide form of a POP. -/
def popWide : List WideForm :=
  if thumbCountRegisterList reglist = 1 then [⟨.popT3,{ rt := loneRegister reglist }⟩]
  else
    [⟨.popT2,
      { regs := popRegisters reglist, lr := boolWord (reglist.getLsbD 14),
        pc := boolWord (reglist.getLsbD 15) }⟩]

theorem popForms_eq : popForms [.reglist reglist] =
    if thumbCountRegisterList reglist = 0 then {}
    else { narrow := popNarrow reglist, wide := popWide reglist } := rfl

theorem popWide_kept_iff :
    Every (PopKept reglist) ((popWide reglist).findSome? WideForm.text) ↔
      thumbCountRegisterList reglist ≠ 1 := by
  unfold popWide
  split
  · next hone =>
      rw [List.findSome?_singleton]
      exact iff_of_false (popT3_not_kept reglist (loneRegister_lt hone)) (not_not.mpr hone)
  · next hmany =>
      rw [List.findSome?_singleton]
      exact iff_of_true (popT2_kept reglist) hmany

theorem pop_kept_iff (width : ThumbWidthSpecifier) :
    Every (PopKept reglist) (candidates (listSpec .pop width reglist)).shownText ↔
      ¬ PopsAsLoad reglist width := by
  have hcand : candidates (listSpec .pop width reglist) =
      (popForms [.reglist reglist]).restrict width := rfl
  rw [hcand,every_shownText_iff,popForms_eq,PopsAsLoad]
  by_cases hone : thumbCountRegisterList reglist = 1
  · have hwide := popWide_kept_iff reglist
    have hnone := popNarrow_lone hone
    rw [if_neg (by omega),hwide,hnone,iff_true_intro (popNarrow_kept reglist)]
    cases width with
    | auto => simp [hone]
    | narrow => simp
    | wide => simp [hone]
  · refine iff_of_true ?_ (fun h => hone h.1)
    split
    · exact ⟨fun _ => every_none,fun _ _ => every_none⟩
    · exact ⟨fun _ => popNarrow_kept reglist,fun _ _ => (popWide_kept_iff reglist).mpr hone⟩

end

/-! ## Lists that the wide forms admit -/

/-- A list of several registers is admitted exactly when each register is
admitted on its own. -/
def AdmitsEach (admits : BitVec 16 → Prop) (reglist : BitVec 16) : Prop :=
  2 ≤ thumbCountRegisterList reglist →
    (admits reglist ↔ ∀ i < 16, reglist.getLsbD i = true → admits (1#16 <<< i))

theorem thumbCountRegisterList_bit {i : ℕ} (hi : i < 16) :
    thumbCountRegisterList (1#16 <<< i) = 1 := by
  interval_cases i <;> decide

/-- Where every register is admitted on its own, lists of several may not exclude any. -/
theorem admitsEach_iff {admits excluded : BitVec 16 → Prop}
    (hadmits : ∀ reglist, admits reglist ↔ thumbCountRegisterList reglist = 1 ∨
      (2 ≤ thumbCountRegisterList reglist ∧ ¬ excluded reglist)) (reglist : BitVec 16) :
    AdmitsEach admits reglist ↔ ¬ (2 ≤ thumbCountRegisterList reglist ∧ excluded reglist) := by
  have heach : ∀ i < 16, reglist.getLsbD i = true → admits (1#16 <<< i) :=
    fun i hi _ => (hadmits _).mpr (Or.inl (thumbCountRegisterList_bit hi))
  unfold AdmitsEach
  rw [iff_true_intro heach,iff_true,hadmits,not_and]
  refine imp_congr_right fun hmany => ?_
  have hne : thumbCountRegisterList reglist ≠ 1 := by omega
  simp only [hne,hmany,false_or,true_and]

/-- The wide form of a list: one for a lone register, which takes every
register, and one for several. -/
theorem wideList_fits_iff {count : ℕ} {lone many : WideForm} {accepted : Prop}
    (hlone : count = 1 → lone.word.isSome = true)
    (hmany : many.word.isSome = true ↔ accepted) :
    (∃ f ∈ if count = 1 then [lone] else [many], f.word.isSome = true) ↔
      count = 1 ∨ (count ≠ 1 ∧ accepted) := by
  split
  · next hone => exact iff_of_true ⟨lone,List.mem_singleton_self _,hlone hone⟩ (Or.inl hone)
  · next hne =>
      simp only [List.mem_singleton,exists_eq_left,hmany,hne,false_or,ne_eq,not_false_eq_true,
        true_and]

/-- Thirteen bits hold what is kept of a list when it has no register beyond them. -/
theorem fits_kept_iff {kept : BitVec 16} {keep : ℕ → Prop} [DecidablePred keep]
    (hbit : ∀ i, kept.getLsbD i = decide (keep i)) (reglist : BitVec 16) :
    fits ((reglist &&& kept).setWidth 32) 13 = true ↔
      ∀ i, 13 ≤ i → keep i → reglist.getLsbD i = false := by
  rw [fits_iff]
  refine forall_congr' fun i => imp_congr_right fun _ => ?_
  rw [BitVec.getLsbD_setWidth,BitVec.getLsbD_and,hbit]
  by_cases hi : i < 32
  · by_cases hkeep : keep i
    · simp [hi,hkeep]
    · simp [hkeep]
  · have hout := BitVec.getLsbD_of_ge reglist i (by omega)
    simp [hi,hout]

theorem popRegisters_fits_iff (reglist : BitVec 16) :
    fits (popRegisters reglist) 13 = true ↔ reglist.getLsbD 13 = false := by
  rw [popRegisters,fits_kept_iff getLsbD_notLrPc]
  constructor
  · exact fun h => h 13 le_rfl (by omega)
  · intro h i hi hkeep
    obtain rfl : i = 13 := by omega
    exact h

/-- The registers of a PUSH other than LR. -/
def pushRegisters (reglist : BitVec 16) : BitVec 32 :=
  (reglist &&& ~~~(1#16 <<< 14)).setWidth 32

theorem pushRegisters_fits_iff (reglist : BitVec 16) :
    fits (pushRegisters reglist) 13 = true ↔
      reglist.getLsbD 13 = false ∧ reglist.getLsbD 15 = false := by
  have hbit : ∀ i, (~~~(1#16 <<< 14)).getLsbD i = decide (i < 14 ∨ i = 15) :=
    fun i => (getLsbD_notLr i).trans (Bool.decide_or _ _).symm
  rw [pushRegisters,fits_kept_iff hbit]
  constructor
  · exact fun h => ⟨h 13 le_rfl (by omega),h 15 (by omega) (by omega)⟩
  · rintro ⟨h₁,h₂⟩ i hi hkeep
    obtain rfl | rfl : i = 13 ∨ i = 15 := by omega
    · exact h₁
    · exact h₂

section
variable (into : Address) (m : Memory) (reglist : BitVec 16)

/-- The list is accepted with the wide specifier. -/
def AcceptedWide (mnemonic : ThumbMnemonic) : Prop :=
  (thumbAssemble into (listSpec mnemonic .wide reglist) m).1.succeeds = true

theorem pop_acceptedWide_iff :
    AcceptedWide into m reglist .pop ↔ thumbCountRegisterList reglist = 1 ∨
      (2 ≤ thumbCountRegisterList reglist ∧ ¬ reglist.getLsbD 13 = true) := by
  have hfits : AcceptedWide into m reglist .pop ↔ (popForms [.reglist reglist]).Fits .wide :=
    thumbAssemble_succeeds_iff_fits into (listSpec .pop .wide reglist) m
  have hlone : thumbCountRegisterList reglist = 1 →
      (WideForm.word ⟨.popT3,{ rt := loneRegister reglist }⟩).isSome = true :=
    fun hone => (WideForm.fits_iff (f := ⟨.popT3,{ rt := loneRegister reglist }⟩)
      (field_iff _ 4)).mpr (loneRegister_lt hone)
  have hmany : (WideForm.word ⟨.popT2,
      { regs := popRegisters reglist, lr := boolWord (reglist.getLsbD 14),
        pc := boolWord (reglist.getLsbD 15) }⟩).isSome = true ↔ ¬ reglist.getLsbD 13 = true := by
    apply WideForm.fits_iff
    change (fits (boolWord (reglist.getLsbD 15)) 1 && (fits (boolWord (reglist.getLsbD 14)) 1 &&
      (fits (popRegisters reglist) 13 && true))) = true ↔ _
    rw [fits_boolWord,fits_boolWord,Bool.true_and,Bool.true_and,Bool.and_true,
      popRegisters_fits_iff,Bool.not_eq_true]
  rw [hfits,popForms_eq]
  split
  · next hnone => exact iff_of_false Choices.not_fits_empty (by omega)
  · next hsome =>
      rw [Choices.fits_onlyWide,popWide,wideList_fits_iff hlone hmany]
      refine or_congr_right (and_congr_left' ?_)
      omega

/-- The register of a PUSH of one register. -/
def lonePushed : BitVec 32 :=
  if reglist.getLsbD 14 then 14 else topRegister (reglist &&& ~~~(1#16 <<< 14))

theorem lonePushed_lt {reglist : BitVec 16} (h : thumbCountRegisterList reglist = 1) :
    (lonePushed reglist).toNat < 16 := by
  obtain ⟨k,hk,rfl⟩ := one_register h
  clear h
  interval_cases k <;> decide

theorem push_acceptedWide_iff :
    AcceptedWide into m reglist .push ↔ thumbCountRegisterList reglist = 1 ∨
      (2 ≤ thumbCountRegisterList reglist ∧
        ¬ (reglist.getLsbD 13 = true ∨ reglist.getLsbD 15 = true)) := by
  have hfits : AcceptedWide into m reglist .push ↔ (pushForms [.reglist reglist]).Fits .wide :=
    thumbAssemble_succeeds_iff_fits into (listSpec .push .wide reglist) m
  have hlone : thumbCountRegisterList reglist = 1 →
      (WideForm.word ⟨.pushT3,{ rt := lonePushed reglist }⟩).isSome = true :=
    fun hone => (WideForm.fits_iff (f := ⟨.pushT3,{ rt := lonePushed reglist }⟩)
      (field_iff _ 4)).mpr (lonePushed_lt hone)
  have hmany : (WideForm.word ⟨.pushT2,
      { regs := pushRegisters reglist, lr := boolWord (reglist.getLsbD 14) }⟩).isSome = true ↔
      ¬ (reglist.getLsbD 13 = true ∨ reglist.getLsbD 15 = true) := by
    apply WideForm.fits_iff
    change (fits (boolWord (reglist.getLsbD 14)) 1 &&
      (fits (pushRegisters reglist) 13 && true)) = true ↔ _
    rw [fits_boolWord,Bool.true_and,Bool.and_true,pushRegisters_fits_iff,not_or,Bool.not_eq_true,
      Bool.not_eq_true]
  rw [hfits,pushForms]
  split
  · next hnone => exact iff_of_false Choices.not_fits_empty (by omega)
  · next hsome =>
      rw [Choices.fits_onlyWide]
      refine (wideList_fits_iff hlone hmany).trans (or_congr_right (and_congr_left' ?_))
      omega

end

/-- A POP that assembles is shown with its list, unless it is the wide POP of
one register; and the wide forms admit a list as they admit its registers,
unless several registers include SP, or PC for a PUSH. -/
theorem registerList_iff (width : ThumbWidthSpecifier) (reglist : BitVec 16) (into : Address)
    (m : Memory) :
    (((thumbAssemble into (listSpec .pop width reglist) m).1.succeeds = true →
        PopKept reglist (thumbDisassemble (load32
          (thumbAssemble into (listSpec .pop width reglist) m).2 into))) ↔
      ¬ PopsAsLoad reglist width) ∧
    (AdmitsEach (fun l => AcceptedWide into m l .pop) reglist ↔
      ¬ (2 ≤ thumbCountRegisterList reglist ∧ reglist.getLsbD 13 = true)) ∧
    (AdmitsEach (fun l => AcceptedWide into m l .push) reglist ↔
      ¬ (2 ≤ thumbCountRegisterList reglist ∧
        (reglist.getLsbD 13 = true ∨ reglist.getLsbD 15 = true))) := by
  refine ⟨?_,?_,?_⟩
  · rw [shown_iff into _ m (PopKept reglist),pop_kept_iff]
  · exact admitsEach_iff (pop_acceptedWide_iff into m) reglist
  · exact admitsEach_iff (push_acceptedWide_iff into m) reglist

/-- `POP {R0}` with the wide specifier is `LDR R0, [SP], #4`, and `PUSH {R0, SP}`
is refused where `PUSH {R0}` and `PUSH {SP}` are not. -/
theorem registerList_lost :
    (thumbDisassemble (load32 (thumbAssemble 0x20000000 (listSpec .pop .wide 1) fun _ => 0).2
        0x20000000)).map ThumbInstructionSpec.mnemonic = some .ldr ∧
      ¬ ((thumbAssemble 0x20000000 (listSpec .pop .wide 1) fun _ => 0).1.succeeds = true →
        PopKept 1 (thumbDisassemble (load32
          (thumbAssemble 0x20000000 (listSpec .pop .wide 1) fun _ => 0).2 0x20000000))) ∧
      ¬ AdmitsEach (fun l => AcceptedWide 0x20000000 (fun _ => 0) l .push) 0x2001 ∧
      ¬ AdmitsEach (fun l => AcceptedWide 0x20000000 (fun _ => 0) l .pop) 0x2001 := by
  have hshown : (thumbDisassemble (load32 (thumbAssemble 0x20000000 (listSpec .pop .wide 1)
      fun _ => 0).2 0x20000000)).map ThumbInstructionSpec.mnemonic = some .ldr := by decide
  have haccepted : (thumbAssemble 0x20000000 (listSpec .pop .wide 1) fun _ => 0).1.succeeds =
      true := by decide
  refine ⟨hshown,fun h => ?_,?_,?_⟩
  · obtain ⟨s,hs,hpop,_⟩ := h haccepted
    rw [hs,Option.map_some,hpop] at hshown
    exact absurd hshown (by decide)
  · unfold AdmitsEach AcceptedWide
    decide
  · unfold AdmitsEach AcceptedWide
    decide

end TwMonitor.Thumb
