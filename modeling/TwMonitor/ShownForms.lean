import TwMonitor.EditorSession

/-!
# Assembled words that can be shown

Two kinds of wide words cannot be shown, those of the load that neither indexes nor writes
back and those of a branch whose condition has no name. The words of most encodings
conflict with both. The menus fill in the others so that they do, but for one load from
below the program counter.
-/
namespace TwMonitor.Editor
open BitLayout BitPattern T32 Thumb WordCodec

/-! ## Words that can be shown -/

theorem canBeShown_wide {w : ThumbT} (haimless : ¬aimless.Matches w)
    (hnameless : ¬nameless.Matches w ∨ matchUdfT2 w = true) : CanBeShown w := by
  by_cases hwide : thumbIsWideInstruction w = true
  · obtain ⟨s,hs,_⟩ := thumbDisassembleWide_reading haimless
    refine ⟨s,?_,(thumbDisassembleWide_condition_iff hs).mpr ?_⟩
    · rw [thumbDisassemble,hwide,if_pos rfl]
      exact hs
    · rintro ⟨hn,hudf⟩
      rcases hnameless with hnot | hyes
      · exact hnot hn
      · rw [hudf] at hyes
        exact Bool.false_ne_true hyes
  · exact canBeShown_narrow (Bool.not_eq_true _ ▸ hwide)

/-- The words of the encoding are not those that cannot be shown. -/
def Encodes (p : Pattern 32) : Prop := p.conflicts aimless = true ∧ p.conflicts nameless = true

theorem canBeShown_of_conflicts {p : Pattern 32} (hp : Encodes p) {w : BitVec 32}
    (hw : p.Matches w) : CanBeShown w :=
  canBeShown_wide (Pattern.not_matches_of_conflicts hp.1 hw)
    (.inl (Pattern.not_matches_of_conflicts hp.2 hw))

def FormShowable (f : WideForm) : Prop := ∀ w, f.word = some w → CanBeShown w

theorem showable_of_pattern {e : WideEncoding} (he : Encodes e.pattern) (parts : e.Parts) :
    FormShowable ⟨e,parts⟩ :=
  fun _ hw => canBeShown_of_conflicts he (Codec.pattern_matches hw)

theorem udfT2_showable (parts : UdfT2Parts) : FormShowable ⟨.udfT2,parts⟩ := by
  intro w hw
  have hm := Codec.pattern_matches (c := WideEncoding.udfT2.toCodec) hw
  refine canBeShown_wide (Pattern.not_matches_of_conflicts (p := WideEncoding.udfT2.pattern) rfl hm)
    (.inr ?_)
  exact (matchUdfT2.run_iff w).mpr (Pattern.matches_of_refines (q := matchUdfT2.pattern) rfl hm)

theorem bCondT3Noit_showable {parts : BCondT3NoitParts} (hcond : parts.cond.toNat < 15) :
    FormShowable ⟨.bCondT3Noit,parts⟩ := by
  intro w hw
  have hm := Codec.pattern_matches (c := WideEncoding.bCondT3Noit.toCodec) hw
  refine canBeShown_wide
    (Pattern.not_matches_of_conflicts (p := WideEncoding.bCondT3Noit.pattern) rfl hm)
    (.inl fun hn => ?_)
  obtain ⟨_,_,_,_,hc,_⟩ := Packing.reads_word hw
  have hones : (⟨6,4,15⟩ : FieldTest 32).holds w = true :=
    (FieldTest.holds_iff rfl w).mpr (Pattern.matches_of_refines rfl hn)
  have hlast : extract 32 w 6 4 = 15 := beq_iff_eq.mp hones
  have hbit (i : ℕ) (hi : i < 4) : parts.cond.getLsbD i = (15 : BitVec 32).getLsbD i :=
    (extract_bit hc hi (by omega)).symm.trans (extract_bit hlast hi (by omega))
  rcases zero_bit_of_lt_fifteen hcond with hz | hz | hz | hz
  · exact absurd ((hbit 0 (by omega)).symm.trans hz) (by decide)
  · exact absurd ((hbit 1 (by omega)).symm.trans hz) (by decide)
  · exact absurd ((hbit 2 (by omega)).symm.trans hz) (by decide)
  · exact absurd ((hbit 3 (by omega)).symm.trans hz) (by decide)

theorem ldrIT4_showable {parts : LdrIT4Parts} (h : ¬(parts.index = 0 ∧ parts.writeback = 0)) :
    FormShowable ⟨.ldrIT4,parts⟩ := by
  intro w hw
  have hm := Codec.pattern_matches (c := WideEncoding.ldrIT4.toCodec) hw
  refine canBeShown_wide (fun ha => h ?_)
    (.inl (Pattern.not_matches_of_conflicts (p := WideEncoding.ldrIT4.pattern) rfl hm))
  obtain ⟨_,hindex,_,hwriteback,_⟩ := Packing.reads_word hw
  exact ⟨hindex.symm.trans ((extract_one_eq_zero_iff w 26).mpr ((ha 26).2 rfl)),
    hwriteback.symm.trans ((extract_one_eq_zero_iff w 24).mpr ((ha 24).2 rfl))⟩

/-- Below the program counter the offset can take the bits of the indexing and the writeback. -/
theorem ldrLitT2_showable {parts : LdrLitT2Parts}
    (h : ¬(parts.add = 0 ∧ parts.imm12 &&& 0xD00 = 0x800)) :
    FormShowable ⟨.ldrLitT2,parts⟩ := by
  intro w hw
  have hm := Codec.pattern_matches (c := WideEncoding.ldrLitT2.toCodec) hw
  refine canBeShown_wide (fun ha => h ?_)
    (.inl (Pattern.not_matches_of_conflicts (p := WideEncoding.ldrLitT2.pattern) rfl hm))
  obtain ⟨_,himm,hadd,_⟩ := Packing.reads_word hw
  refine ⟨hadd.symm.trans ((extract_one_eq_zero_iff w 7).mpr ((ha 7).2 rfl)),?_⟩
  have hbit (i : ℕ) (hi : i < 12) : parts.imm12.getLsbD i = w.getLsbD (16 + i) :=
    (extract_bit himm hi (by omega)).symm
  apply BitVec.eq_of_getLsbD_eq
  intro i hi
  by_cases hlow : i < 12
  · rw [BitVec.getLsbD_and,hbit i hlow]
    have hones := (ha (16 + i)).1
    have hzeros := (ha (16 + i)).2
    revert hones hzeros
    generalize w.getLsbD (16 + i) = b
    revert b
    revert i
    decide
  · have hmask : (0xD00 : BitVec 32).getLsbD i = false := by
      revert i
      decide
    rw [BitVec.getLsbD_and,hmask,Bool.and_false]
    revert i
    decide

/-! ## What the menus assemble -/

/-- A load from below the program counter that reads back as one that neither indexes nor
writes back. -/
def AimlessLoad (instruction : ThumbInstructionSpec) : Prop :=
  ∃ rt rn simm, instruction.mnemonic = .ldr ∧ instruction.addressingMode = .offset ∧
    instruction.operands = [.reg rt,.reg rn,.signedImmediate simm] ∧ uint8 rn = 15 ∧
    simm.slt 0 = true ∧ -simm &&& 0xD00 = 0x800

/-- Every wide form of the table can be shown. -/
abbrev Showable (c : Choices) : Prop := ∀ f ∈ c.wide, FormShowable f

theorem showable_empty : Showable {} := fun _ hf => absurd hf List.not_mem_nil

theorem showable_narrow (fs : List NarrowForm) : Showable { narrow := fs } :=
  fun _ hf => absurd hf List.not_mem_nil

theorem showable_single {fs : List NarrowForm} {f : WideForm} (h : FormShowable f) :
    Showable { narrow := fs, wide := [f] } := by
  intro g hg
  rw [List.mem_singleton.mp hg]
  exact h

theorem showable_ite {p : Prop} [Decidable p] {c d : Choices} (hc : p → Showable c)
    (hd : ¬p → Showable d) : Showable (if p then c else d) := by
  split
  · next h => exact hc h
  · next h => exact hd h

theorem addw_showable (rd rn imm : BitVec 32) :
    Showable (addwForms [.reg rd,.reg rn,.immediate imm]) := by
  refine showable_ite (fun _ => showable_empty) fun _ => ?_
  exact showable_single (showable_of_pattern ⟨rfl,rfl⟩ _)

theorem subw_showable (rd rn imm : BitVec 32) :
    Showable (subwForms [.reg rd,.reg rn,.immediate imm]) := by
  refine showable_ite (fun _ => showable_empty) fun _ => ?_
  exact showable_single (showable_of_pattern ⟨rfl,rfl⟩ _)

theorem b_showable {condition : ThumbCondition} (h : condition.toNat ≤ 15) (label : BitVec 32) :
    Showable (bForms condition [.signedImmediate label]) := by
  refine showable_ite (fun _ => ?_) fun hne => ?_
  · exact showable_single (showable_of_pattern ⟨rfl,rfl⟩ _)
  · have hpos : condition.toNat ≠ 0 := fun hzero => hne (BitVec.eq_of_toNat_eq hzero)
    refine showable_single (bCondT3Noit_showable ?_)
    show (condition - 1).toNat < 15
    bv_omega

theorem movw_showable (rd imm : BitVec 32) : Showable (movwForms [.reg rd,.immediate imm]) := by
  refine showable_ite (fun _ => showable_empty) fun _ => ?_
  exact showable_single (showable_of_pattern ⟨rfl,rfl⟩ _)

theorem showable_either {p : Prop} [Decidable p] {fs : List NarrowForm} {f g : WideForm}
    (hf : FormShowable f) (hg : FormShowable g) :
    Showable { narrow := fs, wide := if p then [f] else [g] } := by
  split
  · exact showable_single hf
  · exact showable_single hg

theorem pop_showable (reglist : BitVec 16) : Showable (popForms [.reglist reglist]) :=
  showable_ite (fun _ => showable_empty) fun _ =>
    showable_either (@showable_of_pattern .popT3 ⟨rfl,rfl⟩ _)
      (@showable_of_pattern .popT2 ⟨rfl,rfl⟩ _)

theorem push_showable (reglist : BitVec 16) : Showable (pushForms [.reglist reglist]) :=
  showable_ite (fun _ => showable_empty) fun _ =>
    showable_either (@showable_of_pattern .pushT3 ⟨rfl,rfl⟩ _)
      (@showable_of_pattern .pushT2 ⟨rfl,rfl⟩ _)

theorem ldrRegister_showable (rt rn rm shift : BitVec 32) :
    Showable (ldrRegisterForms .offset rt rn rm shift) := by
  unfold ldrRegisterForms
  rw [if_neg (not_not.mpr rfl)]
  exact showable_single (showable_of_pattern ⟨rfl,rfl⟩ _)

theorem ldrEightBit_showable {mode : AddressingMode}
    (hmode : mode ∈ [.offset,.preindex,.postindex]) (rt rn offset : BitVec 32) :
    FormShowable ⟨.ldrIT4,ldrEightBit mode rt rn offset⟩ := by
  refine ldrIT4_showable ?_
  cases mode with
  | none => exact absurd hmode (by decide)
  | offset => exact (by decide : ¬(boolWord true = 0 ∧ boolWord false = 0))
  | preindex => exact (by decide : ¬(boolWord true = 0 ∧ boolWord true = 0))
  | postindex => exact (by decide : ¬(boolWord false = 0 ∧ boolWord true = 0))

theorem ldrSigned_showable {mode : AddressingMode}
    (hmode : mode ∈ [.offset,.preindex,.postindex]) {rt rn offset : BitVec 32}
    (h : ¬(rn = 15 ∧ mode = .offset ∧ offset.slt 0 = true ∧ -offset &&& 0xD00 = 0x800)) :
    ∀ f ∈ ldrSignedForms mode rt rn offset, FormShowable f := by
  have height := ldrEightBit_showable hmode rt rn offset
  unfold ldrSignedForms
  split
  · next hpc =>
      have hliteral : FormShowable ⟨.ldrLitT2,ldrLiteral rt offset⟩ := by
        refine ldrLitT2_showable ?_
        rintro ⟨hadd,himm⟩
        cases hneg : offset.slt 0 with
        | false =>
            have hup : boolWord (!offset.slt 0) = 0 := hadd
            rw [hneg] at hup
            exact absurd hup (by decide)
        | true =>
            simp only [ldrLiteral,magnitude,hneg,if_true] at himm
            exact h ⟨hpc.1,hpc.2,hneg,himm⟩
      simp only [List.forall_mem_cons,List.not_mem_nil,false_imp_iff,implies_true,and_true]
      exact ⟨hliteral,height⟩
  · simpa using height

theorem ldrImmediate_showable {mode : AddressingMode}
    (hmode : mode ∈ [.offset,.preindex,.postindex]) {rt rn offset : BitVec 32}
    (h : ¬(rn = 15 ∧ mode = .offset ∧ offset.slt 0 = true ∧ -offset &&& 0xD00 = 0x800)) :
    Showable (ldrImmediateForms mode rt rn offset) := by
  have hsigned := @ldrSigned_showable mode hmode rt rn offset h
  unfold ldrImmediateForms
  split
  · exact List.forall_mem_cons.mpr ⟨showable_of_pattern ⟨rfl,rfl⟩ _,hsigned⟩
  · exact hsigned

/-- All that the menus offer can be shown, but for the load. -/
theorem offered_showable {instruction : ThumbInstructionSpec} (hoffered : Offered instruction)
    (haimless : ¬AimlessLoad instruction) : Showable (forms instruction) := by
  cases hoffered with
  | @dataImmediate mnemonic h rd rn imm himm =>
      simp only [List.mem_cons,List.not_mem_nil,or_false] at h
      rcases h with rfl | rfl | rfl | rfl | rfl | rfl
      · exact addw_showable rd rn imm
      · exact showable_narrow _
      · exact addw_showable rd rn imm
      · exact subw_showable rd rn imm
      · exact showable_narrow _
      · exact subw_showable rd rn imm
  | @dataRegister mnemonic h rd rn rm =>
      simp only [List.mem_cons,List.not_mem_nil,or_false] at h
      rcases h with rfl | rfl | rfl | rfl
      · exact showable_ite (fun _ => showable_narrow _) fun _ => showable_empty
      · exact showable_narrow _
      · exact showable_empty
      · exact showable_narrow _
  | branch condition hc label => exact b_showable hc label
  | branchLink label => exact showable_single (showable_of_pattern ⟨rfl,rfl⟩ _)
  | @branchRegister mnemonic h rm =>
      simp only [List.mem_cons,List.not_mem_nil,or_false] at h
      rcases h with rfl | rfl
      · exact showable_narrow _
      · exact showable_narrow _
  | compareImmediate rn imm himm => exact showable_narrow _
  | compareRegister rn rm => exact showable_narrow _
  | @loadImmediate mode hmode rt rn simm =>
      have hforms : forms { mnemonic := .ldr, addressingMode := mode
                            operands := [.reg rt,.reg rn,.signedImmediate simm] } =
          ldrImmediateForms mode (uint8 rt) (uint8 rn) simm :=
        if_neg fun hnone => by
          rw [show mode = .none from hnone] at hmode
          exact absurd hmode (by decide)
      rw [hforms]
      refine ldrImmediate_showable hmode ?_
      rintro ⟨hpc,hoffset,hneg,himm⟩
      exact haimless ⟨rt,rn,simm,rfl,hoffset,rfl,hpc,hneg,himm⟩
  | loadRegister rt rn rm => exact ldrRegister_showable _ _ _ _
  | loadShifted rt rn rm shift => exact ldrRegister_showable _ _ _ _
  | @moveImmediate mnemonic h rd imm himm =>
      simp only [List.mem_cons,List.not_mem_nil,or_false] at h
      rcases h with rfl | rfl | rfl
      · exact showable_ite (fun _ => showable_empty) fun _ => movw_showable rd imm
      · exact showable_ite (fun _ => showable_empty) fun _ => showable_narrow _
      · exact movw_showable rd imm
  | @moveRegister mnemonic h rd rm =>
      simp only [List.mem_cons,List.not_mem_nil,or_false] at h
      rcases h with rfl | rfl
      · exact showable_single (showable_of_pattern ⟨rfl,rfl⟩ _)
      · exact showable_single (showable_of_pattern ⟨rfl,rfl⟩ _)
  | nop => exact showable_single (showable_of_pattern ⟨rfl,rfl⟩ _)
  | @registerList mnemonic h reglist =>
      simp only [List.mem_cons,List.not_mem_nil,or_false] at h
      rcases h with rfl | rfl
      · exact push_showable reglist
      · exact pop_showable reglist
  | @number mnemonic h imm himm =>
      simp only [List.mem_cons,List.not_mem_nil,or_false] at h
      rcases h with rfl | rfl | rfl
      · exact showable_narrow _
      · exact showable_single (udfT2_showable _)
      · exact showable_narrow _

end TwMonitor.Editor
