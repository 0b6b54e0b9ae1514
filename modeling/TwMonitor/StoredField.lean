import TwMonitor.T32Parts

/-!
# Fields that drop low bits

A branch stores half of its displacement in a field of fixed width, and the
decoder extends the sign of what is there. A narrow load stores a quarter of
its unsigned offset. The value comes back exactly when it has the alignment and
the field can hold the rest. The encoders check a width, which need not be the
width of the field.
-/
namespace TwMonitor.T32
open BitLayout

/-- What a field of `width` bits keeps of a displacement. -/
def storedBranch (simm : BitVec 32) (width : ℕ) : BitVec 32 :=
  signedExtend (bitExtract simm 1 width) width <<< 1

theorem signedCheckFit_iff {v : BitVec 32} {width : ℕ} :
    signedCheckFit v (width + 1) = true ↔ -2 ^ width ≤ v.toInt ∧ v.toInt < 2 ^ width := by
  rw [signedCheckFit,Nat.add_sub_cancel,fits_iff_toNat]
  have hpow : (2 : ℤ) ^ width = ((2 ^ width : ℕ) : ℤ) := by push_cast; rfl
  have hv := v.isLt
  rw [hpow,BitVec.slt_eq_decide,show (0 : BitVec 32).toInt = 0 by rfl]
  by_cases hneg : v.toInt < 0
  · have hnat : (-v - 1).toNat = 2 ^ 32 - 1 - v.toNat := by
      have hne : v.toNat ≠ 0 := by
        intro h0
        rw [show v = 0 from BitVec.eq_of_toNat_eq h0] at hneg
        simp at hneg
      bv_omega
    rw [decide_eq_true hneg,if_pos rfl,hnat]
    rw [BitVec.toInt_eq_toNat_cond] at hneg ⊢
    split at hneg
    · omega
    · omega
  · rw [decide_eq_false hneg,if_neg Bool.false_ne_true]
    rw [BitVec.toInt_eq_toNat_cond] at hneg ⊢
    split at hneg
    · omega
    · omega

/-- The check of a halved displacement, as a bound on the displacement. -/
theorem signedCheckFit_half {label : BitVec 32} {width : ℕ} :
    signedCheckFit (label.sshiftRight 1) (width + 1) = true ↔
      -2 ^ (width + 1) ≤ label.toInt ∧ label.toInt < 2 ^ (width + 1) := by
  have hpow : (2 : ℤ) ^ (width + 1) = 2 ^ width * 2 := pow_succ 2 width
  have hhalf : (label.sshiftRight 1).toInt = label.toInt / 2 := by
    rw [BitVec.toInt_sshiftRight,Int.shiftRight_eq_div_pow]
    rfl
  rw [signedCheckFit_iff,hhalf,hpow]
  omega

theorem signBitSet_eq (v : BitVec 32) {width : ℕ} (hw : width < 32) :
    signBitSet v (width + 1) = v.getLsbD width := by
  rw [signBitSet,Nat.add_sub_cancel,← BitVec.twoPow_eq,BitVec.and_twoPow]
  cases v.getLsbD width with
  | false => rfl
  | true =>
      rw [if_pos rfl,bne_iff_ne]
      intro h
      have hbit := congrArg (fun x : BitVec 32 => x.getLsbD width) h
      simp [hw] at hbit

/-- The macro is the sign extension of the low bits. -/
theorem signedExtend_eq {v : BitVec 32} {width : ℕ} (hw : width < 32)
    (hv : fits v (width + 1) = true) :
    signedExtend v (width + 1) = (v.setWidth (width + 1)).signExtend 32 := by
  rw [fits_iff] at hv
  have hmsb : (v.setWidth (width + 1)).msb = v.getLsbD width := by
    rw [BitVec.msb_eq_getLsbD_last,BitVec.getLsbD_setWidth]
    simp
  apply BitVec.eq_of_getLsbD_eq
  intro i hi
  rw [signedExtend,signBitSet_eq v hw,BitVec.getLsbD_signExtend,hmsb,BitVec.getLsbD_setWidth]
  by_cases hlt : i < width + 1
  · cases v.getLsbD width <;> simp [hi,hlt]
  · have hz := hv i (Nat.le_of_not_lt hlt)
    cases v.getLsbD width <;> simp [-BitVec.getLsbD_eq_getElem,hi,hlt,hz]

theorem signedExtend_toInt {v : BitVec 32} {width : ℕ} (hw : width < 32)
    (hv : fits v (width + 1) = true) :
    (signedExtend v (width + 1)).toInt = Int.bmod v.toNat (2 ^ (width + 1)) := by
  rw [signedExtend_eq hw hv,BitVec.toInt_signExtend_of_le (by omega),BitVec.toInt_setWidth]

theorem toInt_shiftLeft_one {v : BitVec 32} (h₁ : -2 ^ 30 ≤ v.toInt) (h₂ : v.toInt < 2 ^ 30) :
    (v <<< 1).toInt = 2 * v.toInt := by
  have hnat : (v <<< 1).toNat = v.toNat * 2 % 2 ^ 32 := by
    rw [BitVec.toNat_shiftLeft,Nat.shiftLeft_eq]
  have hv := v.isLt
  rw [BitVec.toInt_eq_toNat_cond] at h₁ h₂
  rw [BitVec.toInt_eq_toNat_cond,BitVec.toInt_eq_toNat_cond,hnat]
  split at h₁ <;> split <;> omega

/-- What is kept is the even part of the displacement, wrapped to the field. -/
theorem storedBranch_toInt (simm : BitVec 32) {width : ℕ} (hw : width < 31) :
    (storedBranch simm (width + 1)).toInt =
      2 * Int.bmod (simm.toNat / 2 : ℕ) (2 ^ (width + 1)) := by
  have hext : (signedExtend (bitExtract simm 1 (width + 1)) (width + 1)).toInt =
      Int.bmod (simm.toNat / 2 : ℕ) (2 ^ (width + 1)) := by
    rw [signedExtend_toInt (by omega) (fits_extract simm 1 (width + 1)),
      extract_toNat simm 1 (width + 1) (by omega),Int.natCast_mod,Int.emod_bmod]
    rfl
  have hpow : (2 : ℕ) ^ (width + 1) = 2 ^ width * 2 := pow_succ 2 width
  have hle : (2 : ℕ) ^ width ≤ 2 ^ 30 := Nat.pow_le_pow_right (by omega) (by omega)
  have hpos : 0 < (2 : ℕ) ^ (width + 1) := Nat.two_pow_pos _
  have hlow := Int.le_bmod (x := (simm.toNat / 2 : ℕ)) hpos
  have hhigh := Int.bmod_lt (x := (simm.toNat / 2 : ℕ)) hpos
  rw [← hext] at hlow hhigh
  rw [storedBranch,toInt_shiftLeft_one,hext]
  · omega
  · omega

/-- The wrapped half differs from the signed half by a multiple of the field's modulus. -/
theorem bmod_half (simm : BitVec 32) {width : ℕ} (hw : width < 31) :
    Int.bmod (simm.toNat / 2 : ℕ) (2 ^ (width + 1)) =
      Int.bmod (simm.toInt / 2) (2 ^ (width + 1)) := by
  obtain ⟨k,hk⟩ : 2 ^ (width + 1) ∣ 2 ^ 31 := Nat.pow_dvd_pow 2 (by omega)
  have hcond := BitVec.toInt_eq_toNat_cond simm
  split at hcond
  · rw [hcond]
    rfl
  · have hshift : simm.toInt / 2 + (2 ^ (width + 1) : ℕ) * (k : ℤ) = (simm.toNat / 2 : ℕ) := by
      have hk' : ((2 ^ (width + 1) : ℕ) : ℤ) * (k : ℤ) = 2 ^ 31 := by exact_mod_cast hk.symm
      rw [hk']
      omega
    rw [← hshift,Int.add_mul_bmod_self_left]

/-- A displacement survives exactly when it is even and its half fits the field. -/
theorem storedBranch_eq_iff (simm : BitVec 32) {width : ℕ} (hw : width < 31) :
    storedBranch simm (width + 1) = simm ↔
      bitExtract simm 0 1 = 0 ∧ -2 ^ (width + 1) ≤ simm.toInt ∧ simm.toInt < 2 ^ (width + 1) := by
  have hbit : bitExtract simm 0 1 = 0 ↔ simm.toNat % 2 = 0 := by
    rw [← BitVec.toNat_inj,extract_toNat simm 0 1 (by omega)]
    simp
  have hpow : (2 : ℕ) ^ (width + 1) = 2 ^ width * 2 := pow_succ 2 width
  have hpos : 0 < (2 : ℕ) ^ (width + 1) := Nat.two_pow_pos _
  have hcast : (2 : ℤ) ^ (width + 1) = ((2 ^ (width + 1) : ℕ) : ℤ) := by push_cast; rfl
  have hcond := BitVec.toInt_eq_toNat_cond simm
  have hlow := Int.le_bmod (x := (simm.toNat / 2 : ℕ)) hpos
  have hhigh := Int.bmod_lt (x := (simm.toNat / 2 : ℕ)) hpos
  rw [← BitVec.toInt_inj,storedBranch_toInt simm hw,hbit,hcast]
  constructor
  · intro h
    refine ⟨?_,by omega,by omega⟩
    split at hcond <;> omega
  · rintro ⟨heven,h₁,h₂⟩
    rw [bmod_half simm hw,Int.bmod_eq_of_le]
    · omega
    · omega
    · omega

/-- The extension leaves the bits of the field alone. -/
@[simp] theorem extract_signedExtend {m : ℕ} (v : BitVec 32) {width start len : ℕ}
    (h : start + len ≤ width) :
    extract m (signedExtend v width) start len = extract m v start len := by
  apply BitVec.eq_of_getLsbD_eq
  intro i _
  rw [getLsbD_extract,getLsbD_extract]
  by_cases hi : i < len
  · unfold signedExtend
    split
    · simp [-BitVec.getLsbD_eq_getElem,show start + i < width by omega]
    · rfl
  · simp [hi]

/-- A displacement read from a field passes the checks of its encoder. -/
theorem decodedBranch_guard {v : BitVec 32} {width : ℕ} (hw : width < 31)
    (hv : fits v (width + 1) = true) :
    bitExtract (signedExtend v (width + 1) <<< 1) 0 1 = 0 ∧
      signedCheckFit ((signedExtend v (width + 1) <<< 1).sshiftRight 1) (width + 2) = true := by
  have hfield : bitExtract (signedExtend v (width + 1) <<< 1) 1 (width + 1) = v := by
    change extract 32 _ 1 (width + 1) = v
    rw [extract_shiftLeft_ge _ le_rfl (by omega),extract_signedExtend _ (by omega),
      extract_of_fits hv]
  have hkept : storedBranch (signedExtend v (width + 1) <<< 1) (width + 1) =
      signedExtend v (width + 1) <<< 1 := by
    rw [storedBranch,hfield]
  have hpow : (2 : ℤ) ^ (width + 2) = 2 ^ (width + 1) * 2 := pow_succ 2 (width + 1)
  obtain ⟨heven,hlow,hhigh⟩ := (storedBranch_eq_iff _ hw).mp hkept
  refine ⟨heven,signedCheckFit_half.mpr ?_⟩
  have hpos : (0 : ℤ) < 2 ^ (width + 1) := by positivity
  rw [hpow]
  constructor <;> omega

/-! ## Word offsets -/

/-- What a field of `width` bits keeps of a word offset. -/
def storedScaled (offset : BitVec 32) (width : ℕ) : BitVec 32 := bitExtract offset 2 width <<< 2

theorem storedScaled_eq_iff (offset : BitVec 32) {width : ℕ} (hw : width < 30) :
    storedScaled offset width = offset ↔
      offset.toNat % 4 = 0 ∧ offset.toNat < 2 ^ (width + 2) := by
  have hpow : 2 ^ (width + 2) = 2 ^ width * 4 := pow_add 2 width 2
  have hle : 2 ^ width ≤ 2 ^ 29 := Nat.pow_le_pow_right (by omega) (by omega)
  have hmod : offset.toNat / 4 % 2 ^ width < 2 ^ width := Nat.mod_lt _ (Nat.two_pow_pos _)
  rw [← BitVec.toNat_inj,storedScaled,BitVec.toNat_shiftLeft,extract_toNat _ _ _ (by omega),
    Nat.shiftLeft_eq,hpow,show (2 : ℕ) ^ 2 = 4 by rfl]
  constructor
  · intro h
    omega
  · rintro ⟨h₁,h₂⟩
    have hquarter : offset.toNat / 4 % 2 ^ width = offset.toNat / 4 :=
      Nat.mod_eq_of_lt (by omega)
    rw [hquarter]
    omega

/-- The alignment test and the check of a quartered offset. -/
theorem scaledCheck_iff (offset : BitVec 32) (width : ℕ) :
    bitExtract offset 0 2 = 0 ∧ fits (offset >>> 2) width = true ↔
      offset.toNat % 4 = 0 ∧ offset.toNat < 2 ^ (width + 2) := by
  have hpow : 2 ^ (width + 2) = 2 ^ width * 4 := pow_add 2 width 2
  rw [← BitVec.toNat_inj,extract_toNat _ _ _ (by omega),fits_iff_toNat,
    BitVec.toNat_ushiftRight,Nat.shiftRight_eq_div_pow,hpow]
  change offset.toNat / 1 % 4 = 0 ∧ offset.toNat / 4 < 2 ^ width ↔ _
  omega

end TwMonitor.T32
