import TwMonitor.LongDivision

/-!
# The baud rate divider

The clock of the USART over the baud rate, in sixteenths: twelve bits and up of
mantissa over four bits of fraction. The driver scales by a hundred and divides
four times, always downward.
-/
namespace TwMonitor.Usart

section
variable (inputClock baudrate : BitVec 64)

/-- The divisions of `int64_t` truncate. -/
def calc100 : BitVec 64 := ((inputClock * 100).sdiv baudrate).sdiv 16

def mantissa : BitVec 64 := calc100 inputClock baudrate / 100

def fractional : BitVec 64 := calc100 inputClock baudrate % 100 * (1#64 <<< 4) / 100

def calculateBaudrateDividerReg : BitVec 32 :=
  ((mantissa inputClock baudrate <<< 4) ||| fractional inputClock baudrate).setWidth 32

end

/-! ## The arithmetic -/

/-- Sixteenths of the scaled quotient, in one division. -/
theorem sixteenths_eq (k : ℕ) : 16 * (k / 100) + k % 100 * 16 / 100 = 16 * k / 100 := by
  omega

/-- The scale is fine enough for an error of one at most. -/
theorem sixteenths_accurate (c : ℕ) {b : ℕ} (hb : 0 < b) :
    16 * (100 * c / b / 16) / 100 ≤ c / b ∧ c / b ≤ 16 * (100 * c / b / 16) / 100 + 1 := by
  rw [Nat.div_div_eq_div_mul]
  have hbig : 0 < b * 16 := Nat.mul_pos hb (by decide)
  have hlow := Nat.div_mul_le_self (100 * c) (b * 16)
  have hhigh := Nat.lt_mul_div_succ (100 * c) hbig
  generalize 100 * c / (b * 16) = k at hlow hhigh ⊢
  have hdown : 16 * k / 100 * 100 ≤ 16 * k := Nat.div_mul_le_self _ _
  have hup : 16 * k ≤ 16 * k / 100 * 100 + 99 := by omega
  generalize 16 * k / 100 = y at hdown hup ⊢
  constructor
  · rw [Nat.le_div_iff_mul_le hb]
    nlinarith
  · refine Nat.lt_succ_iff.mp ((Nat.div_lt_iff_lt_mul hb).mpr ?_)
    nlinarith

/-! ## The register -/

theorem toInt_eq_toNat_of_nonneg {x : BitVec 64} (hx : 0 ≤ x.toInt) : x.toInt = x.toNat := by
  have hcond := BitVec.toInt_eq_toNat_cond x
  split at hcond <;> omega

theorem toInt_ediv_eq {x y : BitVec 64} (hx : 0 ≤ x.toInt) (hy : 0 ≤ y.toInt) :
    x.toInt / y.toInt = ((x.toNat / y.toNat : ℕ) : ℤ) := by
  rw [toInt_eq_toNat_of_nonneg hx,toInt_eq_toNat_of_nonneg hy]
  rfl

theorem toInt_sdiv_of_pos {x y : BitVec 64} (hx : 0 ≤ x.toInt) (hy : 0 < y.toInt) :
    (x.sdiv y).toInt = x.toInt / y.toInt := by
  have hne : y ≠ -1#64 := by
    rintro rfl
    exact absurd hy (by decide)
  rw [BitVec.toInt_sdiv_of_ne_or_ne _ _ (Or.inr hne),Int.tdiv_eq_ediv_of_nonneg hx]

section
variable {inputClock baudrate : BitVec 64}

/-- The hundreds and the rest of them in sixteenths, which stay below one. -/
theorem mantissa_toNat :
    (mantissa inputClock baudrate).toNat = (calc100 inputClock baudrate).toNat / 100 :=
  BitVec.toNat_udiv

theorem fractional_toNat : (fractional inputClock baudrate).toNat =
    (calc100 inputClock baudrate).toNat % 100 * 16 / 100 := by
  have hsmall := Nat.mod_lt (calc100 inputClock baudrate).toNat (by decide : 0 < 100)
  rw [fractional,BitVec.toNat_udiv,BitVec.toNat_mul,BitVec.toNat_umod]
  change (calc100 inputClock baudrate).toNat % 100 * 16 % 2 ^ 64 / 100 = _
  rw [Nat.mod_eq_of_lt (by omega)]

theorem fractional_lt : (fractional inputClock baudrate).toNat < 16 := by
  have hsmall := Nat.mod_lt (calc100 inputClock baudrate).toNat (by decide : 0 < 100)
  rw [fractional_toNat]
  omega

theorem reg_toNat (hfits : 16 * (mantissa inputClock baudrate).toNat +
      (fractional inputClock baudrate).toNat < 2 ^ 32) :
    (calculateBaudrateDividerReg inputClock baudrate).toNat =
      16 * (mantissa inputClock baudrate).toNat + (fractional inputClock baudrate).toNat := by
  have hfraction : (fractional inputClock baudrate).toNat < 2 ^ 4 := fractional_lt
  have hshifted : ((mantissa inputClock baudrate) <<< 4).toNat =
      (mantissa inputClock baudrate).toNat <<< 4 := by
    rw [BitVec.toNat_shiftLeft]
    refine Nat.mod_eq_of_lt ?_
    rw [Nat.shiftLeft_eq]
    omega
  have hor : ((mantissa inputClock baudrate <<< 4) ||| fractional inputClock baudrate).toNat =
      16 * (mantissa inputClock baudrate).toNat + (fractional inputClock baudrate).toNat := by
    rw [BitVec.toNat_or,hshifted,← Nat.shiftLeft_add_eq_or_of_lt hfraction,Nat.shiftLeft_eq]
    omega
  rw [calculateBaudrateDividerReg,BitVec.toNat_setWidth,hor,Nat.mod_eq_of_lt hfits]

variable (hclock : 0 ≤ inputClock.toInt)
  (hrate : 0 < baudrate.toInt) (hscaled : inputClock.toInt * 100 < 2 ^ 63)
include hclock hrate hscaled

omit hrate in
theorem scaled_toInt : (inputClock * 100).toInt = inputClock.toInt * 100 := by
  have hhundred : (100 : BitVec 64).toInt = 100 := by decide
  rw [BitVec.toInt_mul,hhundred]
  exact Int.bmod_eq_of_le (by omega) (by omega)

theorem scaledQuotient_toInt :
    ((inputClock * 100).sdiv baudrate).toInt = inputClock.toInt * 100 / baudrate.toInt := by
  have hscaledInt := scaled_toInt hclock hscaled
  rw [toInt_sdiv_of_pos (by omega) hrate,hscaledInt]

theorem scaledQuotient_nonneg : 0 ≤ ((inputClock * 100).sdiv baudrate).toInt := by
  rw [scaledQuotient_toInt hclock hrate hscaled]
  exact Int.ediv_nonneg (by omega) hrate.le

theorem calc100_toNat :
    (calc100 inputClock baudrate).toNat = 100 * inputClock.toNat / baudrate.toNat / 16 := by
  have hsixteen : (16 : BitVec 64).toInt = 16 := by decide
  have htotal : (calc100 inputClock baudrate).toInt =
      ((100 * inputClock.toNat / baudrate.toNat / 16 : ℕ) : ℤ) := by
    rw [calc100,toInt_sdiv_of_pos (scaledQuotient_nonneg hclock hrate hscaled) (by decide),
      scaledQuotient_toInt hclock hrate hscaled,hsixteen,toInt_eq_toNat_of_nonneg hclock,
      toInt_eq_toNat_of_nonneg hrate.le,Int.mul_comm]
    rfl
  have hnonneg : 0 ≤ (calc100 inputClock baudrate).toInt := by
    rw [htotal]
    exact Int.natCast_nonneg _
  exact Int.natCast_inj.mp ((toInt_eq_toNat_of_nonneg hnonneg).symm.trans htotal)

/-- The two divisions are calls of the run-time routine, which is right for them. -/
theorem calc100_ldivmod : ∃ fuel fuel' q r r',
    LongDivision.aeabiLdivmod baudrate fuel (inputClock * 100) = some (q,r) ∧
      LongDivision.aeabiLdivmod 16 fuel' q = some (calc100 inputClock baudrate,r') := by
  have hnonneg := scaledQuotient_nonneg hclock hrate hscaled
  have hscaledInt := scaled_toInt hclock hscaled
  have hsixteen : (16 : BitVec 64).toInt = 16 := by decide
  obtain ⟨fuel,hfirst⟩ :=
    @LongDivision.aeabiLdivmod_eq_sdiv (inputClock * 100) baudrate hrate (by omega)
  obtain ⟨fuel',hsecond⟩ :=
    @LongDivision.aeabiLdivmod_eq_sdiv ((inputClock * 100).sdiv baudrate) 16 (by decide) (by omega)
  exact ⟨fuel,fuel',_,_,_,hfirst,hsecond⟩

/-- The divider is the quotient, or one below it, and the fraction never carries
into the mantissa. -/
theorem calculateBaudrateDividerReg_accurate
    (hquotient : inputClock.toInt / baudrate.toInt < 2 ^ 32) :
    (((calculateBaudrateDividerReg inputClock baudrate).toNat : ℤ) =
          inputClock.toInt / baudrate.toInt ∨
        ((calculateBaudrateDividerReg inputClock baudrate).toNat : ℤ) =
          inputClock.toInt / baudrate.toInt - 1) ∧
      (fractional inputClock baudrate).toNat < 16 ∧
      (calculateBaudrateDividerReg inputClock baudrate).toNat =
        16 * (mantissa inputClock baudrate).toNat + (fractional inputClock baudrate).toNat := by
  have hb : 0 < baudrate.toNat := by
    have hrateNat := toInt_eq_toNat_of_nonneg hrate.le
    omega
  rw [toInt_ediv_eq hclock hrate.le] at hquotient ⊢
  have hsum : 16 * (mantissa inputClock baudrate).toNat + (fractional inputClock baudrate).toNat =
      16 * (100 * inputClock.toNat / baudrate.toNat / 16) / 100 := by
    rw [mantissa_toNat,fractional_toNat,calc100_toNat hclock hrate hscaled,sixteenths_eq]
  obtain ⟨hlow,hhigh⟩ := sixteenths_accurate inputClock.toNat hb
  rw [← hsum] at hlow hhigh
  have hreg := @reg_toNat inputClock baudrate (by omega)
  refine ⟨?_,fractional_lt,hreg⟩
  rw [hreg]
  omega

end

/-- 16 MHz over 115200 is 138, a mantissa of 8 and ten sixteenths. -/
theorem calculateBaudrateDividerReg_115200 :
    calculateBaudrateDividerReg 16000000 115200 = 138 ∧
      (calculateBaudrateDividerReg 16000000 115200).toNat =
        16 * (mantissa 16000000 115200).toNat + (fractional 16000000 115200).toNat :=
  ⟨by decide,(calculateBaudrateDividerReg_accurate (by decide) (by decide) (by decide)
    (by decide)).2.2⟩

end TwMonitor.Usart
