import TwMonitor.Branches
import TwMonitor.NumberPad
import TwMonitor.Reassembly

/-!
# Branch conditions

The condition of a branch is stored less one in a field of four bits. The last
two values of the field are other instructions: the narrow words of AL are UDF,
and one wide word of AL is NOP. The menu offers AL all the same.
-/
namespace TwMonitor.Thumb
open BitLayout BitPattern ByteMemory WordCodec T32 NumberPad

/-! ## The menu -/

/-- The keys of the menu, in the order of the conditions. -/
def setConditionOptions : List Key :=
  [' ','e','n','c','C','m','p','v','V','h','l','g','L','G','E','a'].map key

/-- `menu_preset_instruction_set_condition_menu`, for the key that `menu` returns. -/
def menuPresetInstructionSetConditionMenu (opt : Key) : ThumbCondition :=
  match setConditionOptions.findIdx? (· == opt) with
  | some i => BitVec.ofNat 32 i
  | none => .none

def Offered (condition : ThumbCondition) : Prop :=
  ∃ opt ∈ setConditionOptions, menuPresetInstructionSetConditionMenu opt = condition

/-- The menu offers the sixteen conditions and no other number. -/
theorem offered_iff (condition : ThumbCondition) : Offered condition ↔ condition.toNat ≤ 15 := by
  constructor
  · rintro ⟨opt,hopt,rfl⟩
    have hall : ∀ opt ∈ setConditionOptions,
        (menuPresetInstructionSetConditionMenu opt).toNat ≤ 15 := by decide
    exact hall opt hopt
  · intro hc
    have hall : ∀ k < 16, ∃ opt ∈ setConditionOptions,
        menuPresetInstructionSetConditionMenu opt = BitVec.ofNat 32 k := by decide
    obtain ⟨opt,hopt,hk⟩ := hall condition.toNat (by omega)
    exact ⟨opt,hopt,hk.trans (by simp)⟩

/-! ## Conditions up to LE -/

/-- The word shows a branch under the condition. -/
def ConditionKept (condition : ThumbCondition) (shown : Option ThumbInstructionSpec) : Prop :=
  ∃ s, shown = some s ∧ s.mnemonic = .b ∧ s.condition = condition

theorem conditionKept_branchSpec (condition : ThumbCondition) (width : ThumbWidthSpecifier)
    (d : BitVec 32) : ConditionKept condition (some (branchSpec .b condition width d)) :=
  ⟨_,rfl,rfl,rfl⟩

theorem not_conditionKept {condition : ThumbCondition} {s : ThumbInstructionSpec}
    (hs : s.mnemonic ≠ .b) : ¬ ConditionKept condition (some s) := by
  rintro ⟨s',hs',hb,_⟩
  obtain rfl := Option.some.inj hs'
  exact hs hb

theorem branch_condition_kept {condition : ThumbCondition} (hc : condition.toNat ≤ 14)
    (width : ThumbWidthSpecifier) (d : BitVec 32) :
    Every (ConditionKept condition)
      (candidates (branchSpec .b condition width d)).shownText := by
  have hforms : candidates (branchSpec .b condition width d) =
      (bForms condition [.signedImmediate d]).restrict width := rfl
  rw [hforms,every_shownText_iff,bForms]
  by_cases hnone : condition = .none
  · rw [if_pos hnone,hnone,List.findSome?_singleton,List.findSome?_singleton]
    refine ⟨fun _ s hs => ?_,fun _ _ s hs => ?_⟩
    · rw [(NarrowForm.legible rfl _).eq_shown hs]
      exact conditionKept_branchSpec .none .narrow _
    · rw [(WideForm.legible rfl _).eq_shown hs]
      exact conditionKept_branchSpec .none .wide _
  · have hback : condition - 1 + 1 = condition := BitVec.sub_add_cancel condition 1
    have hcond : (condition - 1).toNat < 14 := by
      have hne : condition ≠ 0 := hnone
      bv_omega
    rw [if_neg hnone,List.findSome?_singleton,List.findSome?_singleton]
    refine ⟨fun _ s hs => ?_,fun _ _ s hs => ?_⟩
    · rw [(bCondT1Noit_legible hcond).eq_shown hs]
      exact ⟨_,rfl,rfl,hback⟩
    · rw [(bCondT3Noit_legible hcond).eq_shown hs]
      exact ⟨_,rfl,rfl,hback⟩

/-! ## The narrow words of AL -/

/-- The narrow conditional branch with condition field 14. -/
def narrowAlPattern : Pattern 16 :=
  withZero (withOne (withOne (withOne NarrowEncoding.bCondT1Noit.pattern 9) 10) 11) 8

theorem matches_narrowAlPattern {label : BitVec 32} {h : BitVec 16}
    (hword : NarrowForm.word ⟨.bCondT1Noit,{ cond := 14, simm8 := label }⟩ = some h) :
    narrowAlPattern.Matches h := by
  have hm : NarrowEncoding.bCondT1Noit.pattern.Matches h := Codec.pattern_matches hword
  obtain ⟨hc,_,_⟩ := Packing.reads_word hword
  have hbit : ∀ i < 4, h.getLsbD (8 + i) = (14 : BitVec 32).getLsbD i :=
    fun i hi => extract_bit hc hi (by omega)
  have h₁ := matches_withOne hm (hbit 1 (by omega))
  have h₂ := matches_withOne h₁ (hbit 2 (by omega))
  have h₃ := matches_withOne h₂ (hbit 3 (by omega))
  exact matches_withZero h₃ (hbit 0 (by omega))

/-- A narrow branch under AL is UDF. -/
theorem narrowAl_text_udf {label : BitVec 32} {s : Option ThumbInstructionSpec}
    (hs : NarrowForm.text ⟨.bCondT1Noit,{ cond := 14, simm8 := label }⟩ = some s) :
    ∃ imm, s = some { mnemonic := .udf, width := .narrow, operands := [.immediate imm] } := by
  obtain ⟨h,hword,rfl⟩ := Option.map_eq_some_iff.mp hs
  exact ⟨_,thumbDisassembleNarrow_of_resolve (r := NarrowEncoding.udfT1.toRule) rfl
    (matches_narrowAlPattern hword)⟩

theorem narrowAl_kept_iff (label : BitVec 32) :
    Every (ConditionKept .al) (NarrowForm.text ⟨.bCondT1Noit,{ cond := 14, simm8 := label }⟩) ↔
      ¬ Accepts 8 label := by
  rw [← bCondT1Noit_accepts label (by decide : (14 : BitVec 32).toNat < 16)]
  constructor
  · intro hall hsome
    obtain ⟨s,hs⟩ := Option.isSome_iff_exists.mp hsome
    obtain ⟨imm,rfl⟩ := narrowAl_text_udf hs
    have hudf : ThumbMnemonic.udf ≠ .b := by decide
    exact not_conditionKept hudf (hall _ hs)
  · intro hnone s hs
    rw [hs] at hnone
    exact absurd rfl hnone

/-! ## The wide words of AL -/

/-- The two labels whose branch under AL is the word of NOP. The second one is
overlong and loses its top bit. -/
def NopLabel (label : BitVec 32) : Prop := label = 0x2F000 ∨ label = 0xFFE2F000

theorem nopLabel_of_stored {label : BitVec 32} (hacc : Accepts 20 label)
    (hstored : storedBranch label 20 = 0x2F000) : NopLabel label := by
  obtain ⟨heven,hlow,hhigh⟩ := hacc
  have hint := storedBranch_toInt label (by omega : 19 < 31)
  have hval : (0x2F000 : BitVec 32).toInt = 192512 := by decide
  have hbit : label.toNat % 2 = 0 := by
    have hzero := congrArg BitVec.toNat heven
    rwa [extract_toNat label 0 1 (by omega),pow_zero,Nat.div_one] at hzero
  have hmod : label.toNat / 2 % 2 ^ 20 = 96256 := by
    rw [hstored,hval,Int.bmod_def] at hint
    omega
  have hcond := BitVec.toInt_eq_toNat_cond label
  unfold NopLabel
  rw [← BitVec.toNat_inj,← BitVec.toNat_inj]
  change label.toNat = 192512 ∨ label.toNat = 4293062656
  split at hcond <;> omega

theorem nopLabel_of_match {label : BitVec 32} {w : BitVec 32}
    (hword : WideForm.word ⟨.bCondT3Noit,{ cond := 14, simm21 := label }⟩ = some w)
    (hnop : matchNopT2 w = true) : NopLabel label := by
  have hw : w = 0x8000F3AF := (Option.some.inj (nopT2_lossless w hnop)).symm
  have hsome : (WideForm.text ⟨.bCondT3Noit,{ cond := 14, simm21 := label }⟩).isSome = true := by
    rw [WideForm.isSome_text,hword]
    rfl
  have hacc := (bCondT3Noit_accepts label (by decide : (14 : BitVec 32).toNat < 16)).mp hsome
  have hdecode := WideEncoding.bCondT3Noit.decode_word hword
  rw [hw] at hdecode
  exact nopLabel_of_stored hacc (congrArg BCondT3NoitParts.simm21 hdecode).symm

theorem nopLabel_text {label : BitVec 32} (h : NopLabel label) :
    WideForm.text ⟨.bCondT3Noit,{ cond := 14, simm21 := label }⟩ =
      some (some { mnemonic := .nop, width := .wide }) := by
  rcases h with rfl | rfl
  · rfl
  · rfl

/-- UDF and NOP are tried before the branch, and bit 6 excludes UDF. -/
theorem wideAl_text {label : BitVec 32} {w : BitVec 32}
    (hword : WideForm.word ⟨.bCondT3Noit,{ cond := 14, simm21 := label }⟩ = some w)
    (hnop : matchNopT2 w = false) :
    thumbDisassembleWide w = some (branchSpec .b .al .wide (storedBranch label 20 + 4)) := by
  have hm : WideEncoding.bCondT3Noit.pattern.Matches w := Codec.pattern_matches hword
  obtain ⟨_,_,_,_,hc,_⟩ := Packing.reads_word hword
  have hbit : ∀ i < 4, w.getLsbD (6 + i) = (14 : BitVec 32).getLsbD i :=
    fun i hi => extract_bit hc hi (by omega)
  have hudf : matchUdfT2 w = false := Matcher.run_of_conflicts rfl
    (matches_withZero hm (hbit 0 (by omega)))
  have hdecode := WideEncoding.bCondT3Noit.decode_word hword
  have hrest : resolve (fun r => r.recognise) WideEncoding.bCondT3Noit.pattern
      (WideEncoding.order.drop 2) = some WideEncoding.bCondT3Noit.toRule := rfl
  have hfirst : thumbDisassembleWide w =
      Rule.decodeFirst (WideEncoding.order.drop 2) (some { width := .wide }) w := by
    rw [thumbDisassembleWide_eq]
    change (if matchUdfT2 w then _ else if matchNopT2 w then _ else _) = _
    rw [hudf,hnop,if_neg Bool.false_ne_true,if_neg Bool.false_ne_true]
    rfl
  rw [hfirst,Rule.decodeFirst,firstMatch_of_resolve hrest _ _ hm,hdecode]
  rfl

/-- A wide branch under AL comes back, unless its word is NOP. -/
theorem wideAl_kept_iff (label : BitVec 32) :
    Every (ConditionKept .al) (WideForm.text ⟨.bCondT3Noit,{ cond := 14, simm21 := label }⟩) ↔
      ¬ NopLabel label := by
  constructor
  · intro hall hlabel
    have hnop : ThumbMnemonic.nop ≠ .b := by decide
    exact not_conditionKept hnop (hall _ (nopLabel_text hlabel))
  · intro hlabel s hs
    obtain ⟨w,hword,rfl⟩ := Option.map_eq_some_iff.mp hs
    have hmatch : matchNopT2 w = false := by
      rw [← Bool.not_eq_true]
      exact fun h => hlabel (nopLabel_of_match hword h)
    rw [wideAl_text hword hmatch]
    exact conditionKept_branchSpec .al .wide _

/-! ## Every offered condition -/

/-- The condition is AL, and an encoding that the width allows makes another
instruction of the displacement. -/
def LosesCondition (condition : ThumbCondition) (width : ThumbWidthSpecifier) (d : BitVec 32) :
    Prop :=
  condition = .al ∧ ((width ≠ .wide ∧ Accepts 8 (d - 4)) ∨ (width ≠ .narrow ∧ NopLabel (d - 4)))

theorem branchAl_kept_iff (width : ThumbWidthSpecifier) (d : BitVec 32) :
    Every (ConditionKept .al) (candidates (branchSpec .b .al width d)).shownText ↔
      ¬ LosesCondition .al width d := by
  have hforms : candidates (branchSpec .b .al width d) =
      Choices.restrict
        { narrow := [⟨.bCondT1Noit,{ cond := 14, simm8 := d - 4 }⟩],
          wide := [⟨.bCondT3Noit,{ cond := 14, simm21 := d - 4 }⟩] } width := by
    have hcond : ThumbCondition.al - 1 = 14 := by decide
    have hal : ThumbCondition.al ≠ .none := by decide
    change (bForms .al [.signedImmediate d]).restrict width = _
    rw [bForms,if_neg hal,hcond]
  have hnarrow := narrowAl_kept_iff (d - 4)
  have hwide := wideAl_kept_iff (d - 4)
  have hnone : NarrowForm.text ⟨.bCondT1Noit,{ cond := 14, simm8 := d - 4 }⟩ = none ↔
      ¬ Accepts 8 (d - 4) := by
    rw [← bCondT1Noit_accepts (d - 4) (by decide : (14 : BitVec 32).toNat < 16),
      Bool.not_eq_true,Option.isSome_eq_false_iff,Option.isNone_iff_eq_none]
  rw [hforms,every_shownText_iff,List.findSome?_singleton,List.findSome?_singleton,hnarrow,hwide,
    hnone,LosesCondition]
  generalize d - 4 = label
  cases width with
  | auto =>
      by_cases hacc : Accepts 8 label
      · simp [hacc]
      · simp [hacc]
  | narrow => simp
  | wide => simp

/-- A branch that assembles is shown as a branch under its condition, unless
the condition is AL and the displacement makes another instruction of it. -/
theorem branch_condition_kept_iff {condition : ThumbCondition} (hc : Offered condition)
    (width : ThumbWidthSpecifier) (d : BitVec 32) (into : Address) (m : Memory) :
    ((thumbAssemble into (branchSpec .b condition width d) m).1.succeeds = true →
      ConditionKept condition (thumbDisassemble (load32
        (thumbAssemble into (branchSpec .b condition width d) m).2 into))) ↔
      ¬ LosesCondition condition width d := by
  rw [shown_iff into _ m (ConditionKept condition)]
  by_cases hal : condition = .al
  · rw [hal]
    exact branchAl_kept_iff width d
  · have hle := (offered_iff condition).mp hc
    have hlt : condition.toNat ≤ 14 := by
      have hne : condition.toNat ≠ 15 := fun h => hal (BitVec.eq_of_toNat_eq h)
      omega
    exact ⟨fun _ h => hal h.1,fun _ => branch_condition_kept hlt width d⟩

/-- `BEQ` over 256 bytes into zeroed memory. -/
theorem branch_condition_kept_beq :
    ConditionKept .eq (thumbDisassemble (load32
      (thumbAssemble 0x20000000 (branchSpec .b .eq .auto 0x100) fun _ => 0).2 0x20000000)) :=
  (branch_condition_kept_iff ⟨key 'e',by decide,by decide⟩ .auto 0x100 0x20000000 fun _ => 0).mpr
    (fun h => absurd h.1 (by decide)) (by decide)

/-- `BAL` over 256 bytes assembles, and is UDF. -/
theorem branch_condition_lost :
    (thumbAssemble 0x20000000 (branchSpec .b .al .auto 0x100) fun _ => 0).1 = .narrowSuccess ∧
      (thumbDisassemble (load32 (thumbAssemble 0x20000000 (branchSpec .b .al .auto 0x100)
        fun _ => 0).2 0x20000000)).map ThumbInstructionSpec.mnemonic = some .udf ∧
      ¬ ((thumbAssemble 0x20000000 (branchSpec .b .al .auto 0x100) fun _ => 0).1.succeeds = true →
        ConditionKept .al (thumbDisassemble (load32 (thumbAssemble 0x20000000
          (branchSpec .b .al .auto 0x100) fun _ => 0).2 0x20000000))) := by
  have hshown : (thumbDisassemble (load32 (thumbAssemble 0x20000000
      (branchSpec .b .al .auto 0x100) fun _ => 0).2 0x20000000)).map
        ThumbInstructionSpec.mnemonic = some .udf := by decide
  refine ⟨by decide,hshown,fun h => ?_⟩
  obtain ⟨s,hs,hb,_⟩ := h (by decide)
  rw [hs,Option.map_some,hb] at hshown
  exact absurd hshown (by decide)

end TwMonitor.Thumb
