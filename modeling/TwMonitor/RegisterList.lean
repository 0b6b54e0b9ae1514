import TwMonitor.ThumbAssemble

/-!
# Register lists

PUSH and POP keep LR, and POP also PC, apart from the other registers, and use
an encoding of their own for a list of one register. Splitting a list and
joining it again gives the list back in every case.
-/
namespace TwMonitor.Thumb
open BitLayout

theorem countRegisters_eq_zero {fuel : ℕ} {reglist : BitVec 16}
    (h : countRegisters (fuel + 1) reglist = 0) : reglist = 0 := by
  rw [countRegisters] at h
  by_contra hne
  rw [if_neg hne] at h
  omega

/-- A list of one register is a single bit. -/
theorem one_register {reglist : BitVec 16} (h : thumbCountRegisterList reglist = 1) :
    ∃ k < 16, reglist = 1#16 <<< k := by
  rw [thumbCountRegisterList,countRegisters] at h
  split at h
  · omega
  · next hne =>
      have hrest := countRegisters_eq_zero (Nat.succ_injective h)
      have hnat : reglist.toNat ≠ 0 := fun h0 => hne (BitVec.eq_of_toNat_eq h0)
      have hand : reglist.toNat &&& (reglist.toNat - 1) = 0 := by
        have hle : 1 ≤ reglist.toNat := by omega
        have hz := congrArg BitVec.toNat hrest
        rwa [BitVec.toNat_and,BitVec.toNat_sub_of_le hle] at hz
      obtain ⟨k,hk⟩ := (Nat.and_sub_one_eq_zero_iff_isPowerOfTwo hnat).mp hand
      have hlt : k < 16 := by
        have hl := reglist.isLt
        rw [hk] at hl
        exact (Nat.pow_lt_pow_iff_right (by omega)).mp hl
      have hpow := Nat.pow_lt_pow_right (show 1 < 2 by omega) hlt
      refine ⟨k,hlt,BitVec.eq_of_toNat_eq ?_⟩
      rw [hk,BitVec.toNat_shiftLeft,Nat.shiftLeft_eq,BitVec.toNat_ofNat,Nat.mod_eq_of_lt]
      · omega
      · omega

theorem push_list (reglist : BitVec 16) :
    ((reglist &&& ~~~(1#16 <<< 14)).setWidth 32 |||
      boolWord (reglist.getLsbD 14) <<< 14).setWidth 16 = reglist := by
  apply BitVec.eq_of_getLsbD_eq
  intro i hi
  unfold boolWord
  cases hlr : reglist.getLsbD 14 with
  | false => interval_cases i <;> simp [-BitVec.getLsbD_eq_getElem,hlr]
  | true => interval_cases i <;> simp [-BitVec.getLsbD_eq_getElem,hlr]

theorem push_single {reglist : BitVec 16} (h : thumbCountRegisterList reglist = 1) :
    (1#32 <<< (if reglist.getLsbD 14 then 14#32
      else topRegister (reglist &&& ~~~(1#16 <<< 14))).toNat).setWidth 16 = reglist := by
  obtain ⟨k,hk,rfl⟩ := one_register h
  clear h
  interval_cases k <;> decide

/-! ## Splitting a joined list -/

theorem boolWord_bit {v : BitVec 32} (hv : fits v 1 = true) : boolWord (v.getLsbD 0) = v := by
  rw [fits_iff] at hv
  apply BitVec.eq_of_getLsbD_eq
  intro i _
  unfold boolWord
  by_cases hi : i = 0
  · subst hi
    cases v.getLsbD 0 <;> rfl
  · rw [hv i (by omega)]
    cases v.getLsbD 0 with
    | false => exact BitVec.getLsbD_zero
    | true =>
        rw [if_pos rfl,BitVec.ofNat_eq_ofNat,BitVec.getLsbD_one,decide_eq_false hi,Bool.and_false]

/-- A register list as the decoders join it. -/
def joinList (regs lr pc : BitVec 32) : BitVec 16 :=
  (regs ||| lr <<< 14 ||| pc <<< 15).setWidth 16

theorem getLsbD_notLrPc (i : ℕ) :
    (~~~(1#16 <<< 14 ||| 1#16 <<< 15)).getLsbD i = decide (i < 14) := by
  by_cases hi : i < 16
  · interval_cases i <;> rfl
  · rw [BitVec.getLsbD_of_ge _ _ (by omega),decide_eq_false (by omega)]

theorem getLsbD_notLr (i : ℕ) :
    (~~~(1#16 <<< 14)).getLsbD i = (decide (i < 14) || decide (i = 15)) := by
  by_cases hi : i < 16
  · interval_cases i <;> rfl
  · rw [BitVec.getLsbD_of_ge _ _ (by omega),decide_eq_false (by omega),decide_eq_false (by omega)]
    rfl

section
variable {regs lr pc : BitVec 32}

theorem getLsbD_joinList_of_lt {i : ℕ} (hi : i < 14) :
    (joinList regs lr pc).getLsbD i = regs.getLsbD i := by
  have h15 : i < 15 := by omega
  have h16 : i < 16 := by omega
  simp [joinList,hi,h15,h16]

theorem getLsbD_joinList_fourteen (hregs : fits regs 13 = true) :
    (joinList regs lr pc).getLsbD 14 = lr.getLsbD 0 := by
  have hbit := (fits_iff regs 13).mp hregs 14 (by omega)
  simp only [joinList,BitVec.getLsbD_setWidth,BitVec.getLsbD_or,BitVec.getLsbD_shiftLeft,hbit]
  simp

theorem getLsbD_joinList_fifteen (hregs : fits regs 13 = true) (hlr : fits lr 1 = true) :
    (joinList regs lr pc).getLsbD 15 = pc.getLsbD 0 := by
  have hbit := (fits_iff regs 13).mp hregs 15 (by omega)
  have hone : lr.getLsbD (15 - 14) = false := (fits_iff lr 1).mp hlr 1 le_rfl
  simp only [joinList,BitVec.getLsbD_setWidth,BitVec.getLsbD_or,BitVec.getLsbD_shiftLeft,hbit,hone]
  simp

/-- Taking the registers out of a list again. -/
theorem joinList_regs (hregs : fits regs 13 = true) :
    (joinList regs lr pc &&& ~~~(1#16 <<< 14 ||| 1#16 <<< 15)).setWidth 32 = regs := by
  apply BitVec.eq_of_getLsbD_eq
  intro i hi
  rw [BitVec.getLsbD_setWidth,BitVec.getLsbD_and,getLsbD_notLrPc]
  by_cases hlow : i < 14
  · rw [getLsbD_joinList_of_lt hlow]
    simp [hi,hlow]
  · rw [(fits_iff regs 13).mp hregs i (by omega)]
    simp [hlow]

theorem joinList_regs_push (hregs : fits regs 13 = true) (hlr : fits lr 1 = true) :
    (joinList regs lr 0 &&& ~~~(1#16 <<< 14)).setWidth 32 = regs := by
  apply BitVec.eq_of_getLsbD_eq
  intro i hi
  rw [BitVec.getLsbD_setWidth,BitVec.getLsbD_and,getLsbD_notLr]
  by_cases hlow : i < 14
  · rw [getLsbD_joinList_of_lt hlow]
    simp [hi,hlow]
  · rw [(fits_iff regs 13).mp hregs i (by omega)]
    by_cases h15 : i = 15
    · rw [h15,getLsbD_joinList_fifteen hregs hlr]
      rfl
    · simp [hlow,h15]

theorem joinList_lr (hregs : fits regs 13 = true) (hlr : fits lr 1 = true) :
    boolWord ((joinList regs lr pc).getLsbD 14) = lr := by
  rw [getLsbD_joinList_fourteen hregs]
  exact boolWord_bit hlr

theorem joinList_pc (hregs : fits regs 13 = true) (hlr : fits lr 1 = true)
    (hpc : fits pc 1 = true) :
    boolWord ((joinList regs lr pc).getLsbD 15) = pc := by
  rw [getLsbD_joinList_fifteen hregs hlr]
  exact boolWord_bit hpc

end

/-! ## Lists of one register -/

theorem thumbCountRegisterList_single {rt : BitVec 32} (hrt : rt.toNat < 16) :
    thumbCountRegisterList ((1#32 <<< rt.toNat).setWidth 16) = 1 := by
  generalize rt.toNat = k at hrt
  interval_cases k <;> decide

theorem push_joined {rt : BitVec 32} (hrt : rt.toNat < 16) :
    (if ((1#32 <<< rt.toNat).setWidth 16).getLsbD 14 then (14 : BitVec 32)
      else topRegister ((1#32 <<< rt.toNat).setWidth 16 &&& ~~~(1#16 <<< 14))) = rt := by
  have hto : rt = BitVec.ofNat 32 rt.toNat := by simp
  rw [hto]
  generalize rt.toNat = k at hrt
  interval_cases k <;> decide

end TwMonitor.Thumb
