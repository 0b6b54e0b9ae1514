import TwMonitor.ReadBack

/-!
# Branch displacements

Each branch encoder checks its halved displacement against a width that is one
bit larger than the field it fills. An even displacement between the reach of
the field and the reach of the check is therefore accepted and loses its top
bit. Everything else that is accepted comes back.
-/
namespace TwMonitor.Thumb
open BitLayout ByteMemory T32

/-- A branch to a label, as the editor builds it. -/
def branchSpec (mnemonic : ThumbMnemonic) (condition : ThumbCondition)
    (width : ThumbWidthSpecifier) (d : BitVec 32) : ThumbInstructionSpec :=
  { mnemonic, condition, width, operands := [.signedImmediate d] }

/-- What the encoder of a field of `reach` bits accepts. -/
def Accepts (reach : ℕ) (label : BitVec 32) : Prop :=
  bitExtract label 0 1 = 0 ∧ -2 ^ (reach + 1) ≤ label.toInt ∧ label.toInt < 2 ^ (reach + 1)

/-- What the field can hold. -/
def Holds (reach : ℕ) (label : BitVec 32) : Prop :=
  bitExtract label 0 1 = 0 ∧ -2 ^ reach ≤ label.toInt ∧ label.toInt < 2 ^ reach

/-- Even, within the check, and outside the field. -/
def Overlong (reach : ℕ) (label : BitVec 32) : Prop :=
  bitExtract label 0 1 = 0 ∧
    ((2 ^ reach ≤ label.toInt ∧ label.toInt < 2 ^ (reach + 1)) ∨
      (-2 ^ (reach + 1) ≤ label.toInt ∧ label.toInt < -2 ^ reach))

theorem accepts_iff (reach : ℕ) (label : BitVec 32) :
    Accepts reach label ↔ Holds reach label ∨ Overlong reach label := by
  have hpow : (2 : ℤ) ^ (reach + 1) = 2 ^ reach * 2 := pow_succ 2 reach
  have hpos : (0 : ℤ) < 2 ^ reach := by positivity
  unfold Accepts Holds Overlong
  rw [hpow]
  constructor
  · rintro ⟨heven,h₁,h₂⟩
    rcases lt_or_ge label.toInt (-2 ^ reach) with hlow | hlow
    · exact Or.inr ⟨heven,Or.inr ⟨h₁,hlow⟩⟩
    · rcases lt_or_ge label.toInt (2 ^ reach) with hhigh | hhigh
      · exact Or.inl ⟨heven,hlow,hhigh⟩
      · exact Or.inr ⟨heven,Or.inl ⟨hhigh,h₂⟩⟩
  · rintro (⟨heven,h₁,h₂⟩ | ⟨heven,⟨h₁,h₂⟩ | ⟨h₁,h₂⟩⟩)
    · exact ⟨heven,by omega,by omega⟩
    · exact ⟨heven,by omega,by omega⟩
    · exact ⟨heven,by omega,by omega⟩

theorem not_holds_of_overlong {reach : ℕ} {label : BitVec 32} (h : Overlong reach label) :
    ¬ Holds reach label := by
  rintro ⟨_,h₁,h₂⟩
  rcases h with ⟨_,⟨h₃,_⟩ | ⟨_,h₃⟩⟩ <;> omega

theorem holds_of_accepts {reach reach' : ℕ} (hr : reach < reach') {label : BitVec 32}
    (h : Accepts reach label) : Holds reach' label := by
  have hpow : (2 : ℤ) ^ (reach + 1) ≤ 2 ^ reach' := pow_le_pow_right₀ (by norm_num) hr
  obtain ⟨heven,h₁,h₂⟩ := h
  exact ⟨heven,by omega,by omega⟩

/-! ## Branch forms -/

/-- The word shows a branch over the displacement, to the label that it means
at every address. -/
def Kept (d : BitVec 32) (shown : Option ThumbInstructionSpec) : Prop :=
  ∃ s, shown = some s ∧ s.operands = [.signedImmediate d] ∧
    ∀ p, thumbGetReferencedAddress s p = ⟨true,p + d⟩

theorem kept_branchSpec_iff {mnemonic : ThumbMnemonic} (hm : mnemonic = .b ∨ mnemonic = .bl)
    (condition : ThumbCondition) (width : ThumbWidthSpecifier) (v d : BitVec 32) :
    Kept d (some (branchSpec mnemonic condition width v)) ↔ v = d := by
  constructor
  · rintro ⟨s,hs,hops,_⟩
    obtain rfl := Option.some.inj hs
    simpa [branchSpec] using hops
  · rintro rfl
    refine ⟨_,rfl,rfl,fun p => ?_⟩
    rcases hm with rfl | rfl <;> rfl

/-- The text that a branch encoder makes of a label: it accepts one bit more
than its field holds, and shows what the field holds. -/
structure BranchText (reach : ℕ) (label : BitVec 32)
    (text : Option (Option ThumbInstructionSpec)) : Prop where
  accepts : text.isSome = true ↔ Accepts reach label
  shown : ∀ s, text = some s → ∃ mnemonic condition width, (mnemonic = .b ∨ mnemonic = .bl) ∧
    s = some (branchSpec mnemonic condition width (storedBranch label reach + 4))

theorem kept_iff_holds {reach : ℕ} (h₀ : 0 < reach) (h₁ : reach ≤ 31) {d : BitVec 32}
    {text : Option (Option ThumbInstructionSpec)} (ht : BranchText reach (d - 4) text)
    {s : Option ThumbInstructionSpec} (hs : text = some s) : Kept d s ↔ Holds reach (d - 4) := by
  obtain ⟨mnemonic,condition,width,hm,rfl⟩ := ht.shown s hs
  obtain ⟨k,rfl⟩ : ∃ k, reach = k + 1 := ⟨reach - 1,by omega⟩
  have hk : k < 31 := by omega
  have hstored := storedBranch_eq_iff (d - 4) hk
  rw [kept_branchSpec_iff hm,Holds,← hstored]
  constructor <;> intro h <;> bv_omega

/-- An encoder keeps the displacements it accepts, the overlong ones apart. -/
theorem kept_iff_not_overlong {reach : ℕ} (h₀ : 0 < reach) (h₁ : reach ≤ 31) {d : BitVec 32}
    {text : Option (Option ThumbInstructionSpec)} (ht : BranchText reach (d - 4) text) :
    Every (Kept d) text ↔ ¬ Overlong reach (d - 4) := by
  constructor
  · intro hall hover
    have hacc := (accepts_iff _ _).mpr (Or.inr hover)
    obtain ⟨s,hs⟩ := Option.isSome_iff_exists.mp (ht.accepts.mpr hacc)
    exact not_holds_of_overlong hover ((kept_iff_holds h₀ h₁ ht hs).mp (hall s hs))
  · intro hover s hs
    have hacc := ht.accepts.mp (by rw [hs]; rfl)
    exact (kept_iff_holds h₀ h₁ ht hs).mpr (((accepts_iff _ _).mp hacc).resolve_right hover)

/-- Two encoders in sequence: what the first accepts is not overlong for the second. -/
theorem kept_or_iff {near far : ℕ} (h₀ : 0 < near) (h₁ : near < far) (h₂ : far ≤ 31)
    {d : BitVec 32} {t u : Option (Option ThumbInstructionSpec)}
    (ht : BranchText near (d - 4) t) (hu : BranchText far (d - 4) u) :
    Every (Kept d) (t.or u) ↔ ¬ Overlong near (d - 4) ∧ ¬ Overlong far (d - 4) := by
  rw [every_or_iff,← kept_iff_not_overlong h₀ (by omega) ht]
  cases t with
  | some s =>
      have hacc := ht.accepts.mp rfl
      have hfar : ¬ Overlong far (d - 4) :=
        fun hover => not_holds_of_overlong hover (holds_of_accepts h₁ hacc)
      exact ⟨fun h => ⟨h.1,hfar⟩,fun h => ⟨h.1,by simp⟩⟩
  | none =>
      rw [kept_iff_not_overlong (by omega) h₂ hu]
      exact ⟨fun h => ⟨h.1,h.2 rfl⟩,fun h => ⟨h.1,fun _ => h.2⟩⟩

/-! ## The five encoders -/

theorem branchGuard_iff (reach : ℕ) (label : BitVec 32) :
    ((bitExtract label 0 1 == 0) &&
      (signedCheckFit (label.sshiftRight 1) (reach + 1) && true)) = true ↔
      Accepts reach label := by
  rw [Bool.and_true,Bool.and_eq_true,beq_iff_eq,signedCheckFit_half]
  rfl

theorem branchGuard_cond_iff (reach : ℕ) (label cond : BitVec 32) (hcond : cond.toNat < 16) :
    ((bitExtract label 0 1 == 0) &&
      (signedCheckFit (label.sshiftRight 1) (reach + 1) && (fits cond 4 && true))) = true ↔
      Accepts reach label := by
  have hfits : fits cond 4 = true := (fits_iff_toNat cond 4).mpr hcond
  rw [hfits,Bool.and_self,branchGuard_iff]

theorem bT2_text (label : BitVec 32) :
    BranchText 11 label (NarrowForm.text ⟨.bT2,{ simm11 := label }⟩) where
  accepts := NarrowForm.text_isSome_iff (branchGuard_iff 11 label)
  shown _ hs := ⟨.b,.none,.narrow,Or.inl rfl,(NarrowForm.legible rfl _).eq_shown hs⟩

theorem bCondT1Noit_accepts (label : BitVec 32) {cond : BitVec 32} (hcond : cond.toNat < 16) :
    (NarrowForm.text ⟨.bCondT1Noit,{ cond, simm8 := label }⟩).isSome = true ↔
      Accepts 8 label :=
  NarrowForm.text_isSome_iff (branchGuard_cond_iff 8 label cond hcond)

theorem bCondT1Noit_text (label : BitVec 32) {cond : BitVec 32} (hcond : cond.toNat < 14) :
    BranchText 8 label (NarrowForm.text ⟨.bCondT1Noit,{ cond, simm8 := label }⟩) where
  accepts := bCondT1Noit_accepts label (by omega)
  shown _ hs := ⟨.b,cond + 1,.narrow,Or.inl rfl,(bCondT1Noit_legible hcond).eq_shown hs⟩

theorem bT4_text (label : BitVec 32) :
    BranchText 24 label (WideForm.text ⟨.bT4,{ simm25 := label }⟩) where
  accepts := WideForm.text_isSome_iff (branchGuard_iff 24 label)
  shown _ hs := ⟨.b,.none,.wide,Or.inl rfl,(WideForm.legible rfl _).eq_shown hs⟩

theorem bCondT3Noit_accepts (label : BitVec 32) {cond : BitVec 32} (hcond : cond.toNat < 16) :
    (WideForm.text ⟨.bCondT3Noit,{ cond, simm21 := label }⟩).isSome = true ↔
      Accepts 20 label :=
  WideForm.text_isSome_iff (branchGuard_cond_iff 20 label cond hcond)

theorem bCondT3Noit_text (label : BitVec 32) {cond : BitVec 32} (hcond : cond.toNat < 14) :
    BranchText 20 label (WideForm.text ⟨.bCondT3Noit,{ cond, simm21 := label }⟩) where
  accepts := bCondT3Noit_accepts label (by omega)
  shown _ hs := ⟨.b,cond + 1,.wide,Or.inl rfl,(bCondT3Noit_legible hcond).eq_shown hs⟩

theorem blT1_text (label : BitVec 32) :
    BranchText 24 label (WideForm.text ⟨.blT1,{ simm25 := label }⟩) where
  accepts := WideForm.text_isSome_iff (branchGuard_iff 24 label)
  shown _ hs := ⟨.bl,.none,.wide,Or.inr rfl,(WideForm.legible rfl _).eq_shown hs⟩

/-! ## B and BL -/

/-- The bits of the narrow and of the wide field, with and without a condition. -/
def narrowReach (condition : ThumbCondition) : ℕ := if condition = .none then 11 else 8

def wideReach (condition : ThumbCondition) : ℕ := if condition = .none then 24 else 20

/-- B without a condition or under one up to LE, and BL without one. -/
def IsBranch (mnemonic : ThumbMnemonic) (condition : ThumbCondition) : Prop :=
  (mnemonic = .b ∧ condition.toNat ≤ 14) ∨ (mnemonic = .bl ∧ condition = .none)

/-- The displacement is overlong for an encoding that the width specifier allows. -/
def LosesTopBit (mnemonic : ThumbMnemonic) (condition : ThumbCondition)
    (width : ThumbWidthSpecifier) (d : BitVec 32) : Prop :=
  (mnemonic = .b ∧ width ≠ .wide ∧ Overlong (narrowReach condition) (d - 4)) ∨
    (width ≠ .narrow ∧ Overlong (wideReach condition) (d - 4))

theorem bForms_texts {condition : ThumbCondition} (hc : condition.toNat ≤ 14) (d : BitVec 32) :
    ∃ f g, bForms condition [.signedImmediate d] = { narrow := [f], wide := [g] } ∧
      BranchText (narrowReach condition) (d - 4) f.text ∧
      BranchText (wideReach condition) (d - 4) g.text := by
  unfold bForms narrowReach wideReach
  by_cases hnone : condition = .none
  · simp only [hnone,if_true]
    exact ⟨_,_,rfl,bT2_text _,bT4_text _⟩
  · have hcond : (condition - 1).toNat < 14 := by
      have hne : condition ≠ 0 := hnone
      bv_omega
    simp only [hnone,if_false]
    exact ⟨_,_,rfl,bCondT1Noit_text _ hcond,bCondT3Noit_text _ hcond⟩

theorem branch_kept_iff {mnemonic : ThumbMnemonic} {condition : ThumbCondition}
    (hb : IsBranch mnemonic condition) (width : ThumbWidthSpecifier) (d : BitVec 32) :
    Every (Kept d) (candidates (branchSpec mnemonic condition width d)).shownText ↔
      ¬ LosesTopBit mnemonic condition width d := by
  unfold LosesTopBit
  rcases hb with ⟨rfl,hc⟩ | ⟨rfl,rfl⟩
  · obtain ⟨f,g,hforms,hf,hg⟩ := bForms_texts hc d
    have hcand : candidates (branchSpec .b condition width d) =
        Choices.restrict { narrow := [f], wide := [g] } width := by
      rw [← hforms]
      rfl
    have hreach : 0 < narrowReach condition ∧ narrowReach condition < wideReach condition ∧
        wideReach condition ≤ 31 := by
      unfold narrowReach wideReach
      split <;> omega
    have hshort := kept_iff_not_overlong hreach.1 (by omega) hf
    have hlong := kept_iff_not_overlong (by omega) hreach.2.2 hg
    have hboth := kept_or_iff hreach.1 hreach.2.1 hreach.2.2 hf hg
    rw [hcand,Choices.shownText_eq]
    cases width with
    | narrow => simpa [Choices.restrict] using hshort
    | wide => simpa [Choices.restrict] using hlong
    | auto => simpa [Choices.restrict] using hboth
  · have hlong := kept_iff_not_overlong (by omega) (by omega) (blT1_text (d - 4))
    have hcand : candidates (branchSpec .bl .none width d) =
        Choices.restrict { wide := [⟨.blT1,{ simm25 := d - 4 }⟩] } width := rfl
    rw [hcand,Choices.shownText_eq]
    cases width with
    | narrow => simp [Choices.restrict,every_none]
    | wide => simpa [Choices.restrict,wideReach] using hlong
    | auto => simpa [Choices.restrict,wideReach] using hlong

/-- A branch that assembles is shown with its displacement, unless the
displacement is overlong for an encoding it may take. -/
theorem branch_displacement_kept_iff {mnemonic : ThumbMnemonic} {condition : ThumbCondition}
    (hb : IsBranch mnemonic condition) (width : ThumbWidthSpecifier) (d : BitVec 32)
    (into : Address) (m : Memory) :
    ((thumbAssemble into (branchSpec mnemonic condition width d) m).1.succeeds = true →
      Kept d (thumbDisassemble (load32
        (thumbAssemble into (branchSpec mnemonic condition width d) m).2 into))) ↔
      ¬ LosesTopBit mnemonic condition width d := by
  rw [shown_iff into _ m (Kept d),branch_kept_iff hb]

/-- `BEQ` over 256 bytes into zeroed memory. -/
theorem branch_displacement_kept_beq :
    Kept 0x100 (thumbDisassemble (load32
      (thumbAssemble 0x20000000 (branchSpec .b .eq .auto 0x100) fun _ => 0).2 0x20000000)) :=
  (branch_displacement_kept_iff (Or.inl ⟨rfl,by decide⟩) .auto 0x100 0x20000000 fun _ => 0).mpr
    (by unfold LosesTopBit Overlong; decide) (by decide)

/-- `B` over 2052 bytes assembles narrow, and goes 2044 bytes back instead. -/
theorem branch_displacement_lost :
    thumbDisassemble (load32 (thumbAssemble 0x20000000 (branchSpec .b .none .narrow 2052)
        fun _ => 0).2 0x20000000) = some (branchSpec .b .none .narrow (-2044)) ∧
      ¬ ((thumbAssemble 0x20000000 (branchSpec .b .none .narrow 2052)
          fun _ => 0).1.succeeds = true →
        Kept 2052 (thumbDisassemble (load32 (thumbAssemble 0x20000000
          (branchSpec .b .none .narrow 2052) fun _ => 0).2 0x20000000))) := by
  have hshown : thumbDisassemble (load32 (thumbAssemble 0x20000000
      (branchSpec .b .none .narrow 2052) fun _ => 0).2 0x20000000) =
      some (branchSpec .b .none .narrow (-2044)) := by decide
  refine ⟨hshown,fun h => ?_⟩
  have hkept := h (by decide)
  rw [hshown,kept_branchSpec_iff (Or.inl rfl)] at hkept
  exact absurd hkept (by decide)

end TwMonitor.Thumb
