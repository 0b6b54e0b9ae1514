import Mathlib.Data.Int.Order.Basic
import TwMonitor.WhileLoop

/-!
# Division of 64-bit integers

The two routines that the compiler calls for divisions of 64 bits count how often
the denominator can be subtracted. Nobody looks at the signs, so the signed one
is right only for positive denominators, and of the negative numerators only for
those above the negated denominator.
-/
namespace TwMonitor.LongDivision
open WhileLoop

structure Division where
  numerator : BitVec 64
  quotient : BitVec 64 := 0
deriving DecidableEq, Repr

section
variable (denominator : BitVec 64)

/-! ## Signed -/

def ldivmodGuard (s : Division) : Bool := denominator.sle s.numerator

/-- Signed overflow is undefined. -/
def ldivmodBody (s : Division) : Option Division :=
  if s.quotient.saddOverflow 1 || s.numerator.ssubOverflow denominator then none
  else some { numerator := s.numerator - denominator, quotient := s.quotient + 1 }

/-- Quotient and remainder. -/
def aeabiLdivmod (fuel : ℕ) (numerator : BitVec 64) : Option (BitVec 64 × BitVec 64) :=
  (run (ldivmodGuard denominator) (ldivmodBody denominator) fuel { numerator }).map fun s =>
    (s.quotient,s.numerator)

/-! ## Unsigned -/

def uldivmodGuard (s : Division) : Bool := denominator.ule s.numerator

def uldivmodBody (s : Division) : Option Division :=
  some { numerator := s.numerator - denominator, quotient := s.quotient + 1 }

def aeabiUldivmod (fuel : ℕ) (numerator : BitVec 64) : Option (BitVec 64 × BitVec 64) :=
  (run (uldivmodGuard denominator) (uldivmodBody denominator) fuel { numerator }).map fun s =>
    (s.quotient,s.numerator)

end

/-! ## What a division is -/

/-- Quotient and remainder of C, and of the run-time ABI. -/
structure Divides (numerator denominator quotient remainder : ℤ) : Prop where
  total : numerator = quotient * denominator + remainder
  small : |remainder| < |denominator|
  sign : remainder = 0 ∨ remainder.sign = numerator.sign

/-- They are those of the division that truncates. -/
theorem Divides.unique {n d q r : ℤ} (h : Divides n d q r) : q = n.tdiv d ∧ r = n.tmod d := by
  have hd : d ≠ 0 := by
    rintro rfl
    exact absurd h.small (by simp)
  have htotal : r + d * q = n := by
    rw [h.total]
    ring
  have hsmall := h.small
  rw [Int.abs_eq_natAbs d] at hsmall
  obtain ⟨hlow,hhigh⟩ := abs_lt.mp hsmall
  rcases le_or_gt 0 n with hn | hn
  · have hr : 0 ≤ r := by
      rcases h.sign with hzero | hsign
      · exact hzero.ge
      · rw [← Int.sign_nonneg_iff,hsign]
        exact Int.sign_nonneg_iff.mpr hn
    obtain ⟨hq,hm⟩ := (Int.tdiv_tmod_unique hn hd).mpr ⟨htotal,hr,hhigh⟩
    exact ⟨hq.symm,hm.symm⟩
  · have hr : r ≤ 0 := by
      rcases h.sign with hzero | hsign
      · exact hzero.le
      · rw [← Int.sign_nonpos_iff,hsign]
        exact Int.sign_nonpos_iff.mpr hn.le
    obtain ⟨hq,hm⟩ := (Int.tdiv_tmod_unique' hn.le hd).mpr ⟨htotal,hlow,hr⟩
    exact ⟨hq.symm,hm.symm⟩

/-! ## The signed loop -/

section
variable {denominator : BitVec 64} {s t : Division}

theorem ldivmodGuard_iff :
    ldivmodGuard denominator s = true ↔ denominator.toInt ≤ s.numerator.toInt := by
  rw [ldivmodGuard,BitVec.sle_iff_toInt_le]

/-- What a round that is defined does. -/
theorem ldivmodBody_eq_some (h : ldivmodBody denominator s = some t) :
    t.numerator.toInt = s.numerator.toInt - denominator.toInt ∧
      t.quotient.toInt = s.quotient.toInt + 1 := by
  unfold ldivmodBody at h
  split at h
  · exact absurd h (Option.some_ne_none t).symm
  · next hover =>
      obtain rfl := Option.some.inj h
      rw [Bool.or_eq_true,not_or] at hover
      exact ⟨BitVec.toInt_sub_of_not_ssubOverflow hover.2,
        BitVec.toInt_add_of_not_saddOverflow hover.1⟩

theorem ldivmodBody_isSome (hq : s.quotient.toInt + 1 < 2 ^ 63)
    (hlow : -2 ^ 63 ≤ s.numerator.toInt - denominator.toInt)
    (hhigh : s.numerator.toInt - denominator.toInt < 2 ^ 63) :
    ∃ t, ldivmodBody denominator s = some t := by
  have hadd : s.quotient.saddOverflow 1 = false := by
    have hone : (1 : BitVec 64).toInt = 1 := by decide
    have hle := BitVec.le_toInt s.quotient
    rw [BitVec.saddOverflow,hone,Bool.or_eq_false_iff,decide_eq_false_iff_not,
      decide_eq_false_iff_not]
    omega
  have hsub : s.numerator.ssubOverflow denominator = false := by
    rw [BitVec.ssubOverflow,Bool.or_eq_false_iff,decide_eq_false_iff_not,decide_eq_false_iff_not]
    omega
  exact ⟨_,by rw [ldivmodBody,hadd,hsub]; rfl⟩

end

section
variable {numerator denominator : BitVec 64}

/-- The result of a signed division, when there is one. -/
def LdivmodDivides (numerator denominator : BitVec 64) : Prop :=
  ∃ fuel q r, aeabiLdivmod denominator fuel numerator = some (q,r) ∧
    Divides numerator.toInt denominator.toInt q.toInt r.toInt

/-- What has been subtracted so far. -/
structure Subtracted (numerator denominator : ℤ) (s : Division) : Prop where
  left : 0 ≤ s.numerator.toInt
  count : 0 ≤ s.quotient.toInt
  total : numerator = s.quotient.toInt * denominator + s.numerator.toInt

theorem Subtracted.step (hd : 0 < denominator.toInt) {s : Division}
    (h : Subtracted numerator.toInt denominator.toInt s)
    (hguard : ldivmodGuard denominator s = true) :
    ∃ t, ldivmodBody denominator s = some t ∧ Subtracted numerator.toInt denominator.toInt t ∧
      t.numerator.toInt.toNat < s.numerator.toInt.toNat := by
  rw [ldivmodGuard_iff] at hguard
  have hlt := BitVec.toInt_lt (x := numerator)
  have hlt' := BitVec.toInt_lt (x := s.numerator)
  have hleft := h.left
  have hcount := h.count
  have htotal := h.total
  -- the quotient is at most the numerator
  have hquotient : s.quotient.toInt ≤ s.quotient.toInt * denominator.toInt :=
    le_mul_of_one_le_right hcount hd
  obtain ⟨t,ht⟩ : ∃ t, ldivmodBody denominator s = some t :=
    ldivmodBody_isSome (by omega) (by omega) (by omega)
  obtain ⟨hnum,hquot⟩ := ldivmodBody_eq_some ht
  refine ⟨t,ht,⟨by omega,by omega,?_⟩,by omega⟩
  rw [hnum,hquot,htotal]
  ring

theorem ldivmod_exit (h : numerator.toInt < denominator.toInt) (fuel : ℕ) :
    aeabiLdivmod denominator fuel numerator = some (0,numerator) := by
  have hguard : ldivmodGuard denominator { numerator } = false := by
    rw [← Bool.not_eq_true,ldivmodGuard_iff]
    exact not_le.mpr h
  rw [aeabiLdivmod,run_exit hguard]
  rfl

/-- Subtracting a denominator that is not positive never ends well. -/
theorem ldivmod_diverges (hd : denominator.toInt ≤ 0)
    (hn : denominator.toInt ≤ numerator.toInt) (fuel : ℕ) :
    aeabiLdivmod denominator fuel numerator = none := by
  have hrun : run (ldivmodGuard denominator) (ldivmodBody denominator) fuel { numerator } =
      none := by
    refine run_eq_none (I := fun s => denominator.toInt ≤ s.numerator.toInt)
      (fun s hs => ldivmodGuard_iff.mpr hs) (fun s t hs hbody => ?_) hn fuel
    have hnum := (ldivmodBody_eq_some hbody).1
    omega
  rw [aeabiLdivmod,hrun]
  rfl

theorem ldivmod_divides (hd : 0 < denominator.toInt) (hn : -denominator.toInt < numerator.toInt) :
    LdivmodDivides numerator denominator := by
  rcases lt_or_ge numerator.toInt 0 with hneg | hpos
  · refine ⟨0,0,numerator,ldivmod_exit (by omega) 0,by simp,?_,Or.inr rfl⟩
    rw [abs_of_neg hneg,abs_of_pos hd]
    omega
  · have hstart : Subtracted numerator.toInt denominator.toInt { numerator } :=
      ⟨hpos,by simp,by simp⟩
    obtain ⟨fuel,t,hrun,ht,hexit⟩ := run_terminates (fun s => s.numerator.toInt.toNat)
      (fun s hs hguard => hs.step hd hguard) hstart
    have hsmall : t.numerator.toInt < denominator.toInt := by
      rw [← Bool.not_eq_true,ldivmodGuard_iff] at hexit
      exact not_le.mp hexit
    refine ⟨fuel,t.quotient,t.numerator,?_,ht.total,?_,?_⟩
    · rw [aeabiLdivmod,hrun]
      rfl
    · rw [abs_of_nonneg ht.left,abs_of_pos hd]
      exact hsmall
    · rcases ht.left.eq_or_lt with hzero | hrest
      · exact Or.inl hzero.symm
      · have hnumerator : 0 < numerator.toInt := by
          have hproduct := mul_nonneg ht.count hd.le
          have htotal := ht.total
          omega
        exact Or.inr ((Int.sign_eq_one_of_pos hrest).trans (Int.sign_eq_one_of_pos hnumerator).symm)

/-- The signed routine divides when the denominator is positive and the numerator
is above its negation. In all other cases it either returns the numerator as a
remainder that is too large, or never returns without an overflow. -/
theorem aeabiLdivmod_divides_iff (numerator denominator : BitVec 64) :
    LdivmodDivides numerator denominator ↔
      0 < denominator.toInt ∧ -denominator.toInt < numerator.toInt := by
  refine ⟨?_,fun h => ldivmod_divides h.1 h.2⟩
  rintro ⟨fuel,q,r,hrun,hdivides⟩
  have hsmall := hdivides.small
  rcases lt_or_ge 0 denominator.toInt with hd | hd
  · refine ⟨hd,?_⟩
    by_contra hfar
    rw [ldivmod_exit (by omega)] at hrun
    obtain ⟨-,rfl⟩ := Prod.mk.inj (Option.some.inj hrun)
    rw [abs_of_pos hd,abs_of_nonpos (by omega)] at hsmall
    omega
  · rcases lt_or_ge numerator.toInt denominator.toInt with hn | hn
    · rw [ldivmod_exit hn] at hrun
      obtain ⟨-,rfl⟩ := Prod.mk.inj (Option.some.inj hrun)
      rw [abs_of_nonpos hd,abs_of_neg (by omega)] at hsmall
      omega
    · rw [ldivmod_diverges hd hn] at hrun
      exact absurd hrun (Option.some_ne_none _).symm

/-- Minus seven by two: quotient 0 and remainder -7. -/
theorem aeabiLdivmod_negative :
    (∀ fuel, aeabiLdivmod 2 fuel (-7) = some (0,-7)) ∧ ¬ LdivmodDivides (-7) 2 := by
  have hexit : ∀ fuel, aeabiLdivmod 2 fuel (-7) = some (0,-7) := ldivmod_exit (by decide)
  refine ⟨hexit,?_⟩
  rintro ⟨fuel,q,r,hrun,hdivides⟩
  rw [hexit] at hrun
  obtain ⟨-,rfl⟩ := Prod.mk.inj (Option.some.inj hrun)
  exact absurd hdivides.small (by decide)

end

/-! ## The unsigned loop -/

section
variable {numerator denominator : BitVec 64} {s : Division}

theorem uldivmodGuard_iff :
    uldivmodGuard denominator s = true ↔ denominator.toNat ≤ s.numerator.toNat := by
  rw [uldivmodGuard,BitVec.ule,decide_eq_true_eq]

/-- A round takes one denominator off the numerator. -/
def Accounted (numerator denominator : BitVec 64) (s : Division) : Prop :=
  numerator.toNat = s.quotient.toNat * denominator.toNat + s.numerator.toNat

/-- The quotient does not wrap, and the subtraction does not underflow. -/
def RoundFits (denominator : BitVec 64) (s : Division) : Prop :=
  s.quotient.toNat + 1 < 2 ^ 64 ∧ denominator.toNat ≤ s.numerator.toNat

theorem Accounted.fits (hd : 0 < denominator.toNat) (h : Accounted numerator denominator s)
    (hguard : uldivmodGuard denominator s = true) : RoundFits denominator s := by
  rw [uldivmodGuard_iff] at hguard
  have hquotient : s.quotient.toNat ≤ s.quotient.toNat * denominator.toNat :=
    Nat.le_mul_of_pos_right _ hd
  have hlt := numerator.isLt
  unfold Accounted at h
  exact ⟨by omega,hguard⟩

theorem Accounted.step (hd : 0 < denominator.toNat) (h : Accounted numerator denominator s)
    (hguard : uldivmodGuard denominator s = true) :
    ∃ t, uldivmodBody denominator s = some t ∧ Accounted numerator denominator t ∧
      t.numerator.toNat < s.numerator.toNat := by
  obtain ⟨hcount,hleft⟩ := h.fits hd hguard
  have hsub : (s.numerator - denominator).toNat = s.numerator.toNat - denominator.toNat :=
    BitVec.toNat_sub_of_le hleft
  have hadd : (s.quotient + 1).toNat = s.quotient.toNat + 1 :=
    (BitVec.toNat_add s.quotient 1).trans (Nat.mod_eq_of_lt hcount)
  refine ⟨_,rfl,?_,?_⟩
  · unfold Accounted at h ⊢
    rw [hsub,hadd,Nat.succ_mul]
    omega
  · rw [hsub]
    omega

theorem accounted_start (numerator denominator : BitVec 64) :
    Accounted numerator denominator { numerator } := by
  unfold Accounted
  simp

theorem uldivmod_divides (numerator : BitVec 64) (hd : 0 < denominator.toNat) :
    ∃ fuel q r, aeabiUldivmod denominator fuel numerator = some (q,r) ∧
      numerator.toNat = q.toNat * denominator.toNat + r.toNat ∧ r.toNat < denominator.toNat := by
  obtain ⟨fuel,t,hrun,ht,hexit⟩ := run_terminates (fun s => s.numerator.toNat)
    (fun s hs hguard => hs.step hd hguard) (accounted_start numerator denominator)
  refine ⟨fuel,t.quotient,t.numerator,?_,ht,?_⟩
  · rw [aeabiUldivmod,hrun]
    rfl
  · rw [← Bool.not_eq_true,uldivmodGuard_iff] at hexit
    exact not_le.mp hexit

/-- The unsigned routine ends with quotient and remainder, and every round on the
way stays within 64 bits. -/
theorem aeabiUldivmod_divides (numerator : BitVec 64) {denominator : BitVec 64}
    (hd : 0 < denominator.toNat) :
    (∃ fuel q r, aeabiUldivmod denominator fuel numerator = some (q,r) ∧
        numerator.toNat = q.toNat * denominator.toNat + r.toNat ∧
        r.toNat < denominator.toNat) ∧
      ∀ s, Visits (uldivmodGuard denominator) (uldivmodBody denominator) { numerator } s →
        uldivmodGuard denominator s = true → RoundFits denominator s := by
  refine ⟨uldivmod_divides numerator hd,fun s hs hguard => ?_⟩
  have haccounted : Accounted numerator denominator s := by
    refine hs.invariant (accounted_start numerator denominator) fun u v hu hguard hbody => ?_
    obtain ⟨t,ht,hnext,-⟩ := hu.step hd hguard
    obtain rfl := Option.some.inj (hbody.symm.trans ht)
    exact hnext
  exact haccounted.fits hd hguard

/-- Seven by two takes three rounds. -/
theorem aeabiUldivmod_seven :
    aeabiUldivmod 2 3 7 = some (3,1) ∧
      ∃ fuel q r, aeabiUldivmod 2 fuel 7 = some (q,r) ∧
        (7 : BitVec 64).toNat = q.toNat * (2 : BitVec 64).toNat + r.toNat ∧
        r.toNat < (2 : BitVec 64).toNat :=
  ⟨by decide,(aeabiUldivmod_divides 7 (by decide)).1⟩

end

/-! ## The operators of C -/

/-- Where the signed routine divides, its results are those of `/` and `%`. -/
theorem aeabiLdivmod_eq_sdiv {numerator denominator : BitVec 64} (hd : 0 < denominator.toInt)
    (hn : -denominator.toInt < numerator.toInt) :
    ∃ fuel, aeabiLdivmod denominator fuel numerator =
      some (numerator.sdiv denominator,numerator.srem denominator) := by
  obtain ⟨fuel,q,r,hrun,hdivides⟩ := ldivmod_divides hd hn
  obtain ⟨hq,hr⟩ := hdivides.unique
  have hne : denominator ≠ -1#64 := by
    rintro rfl
    exact absurd hd (by decide)
  have hquotient : q = numerator.sdiv denominator := by
    rw [← BitVec.toInt_inj,hq,BitVec.toInt_sdiv_of_ne_or_ne _ _ (Or.inr hne)]
  have hremainder : r = numerator.srem denominator := by
    rw [← BitVec.toInt_inj,hr,BitVec.toInt_srem]
  rw [← hquotient,← hremainder]
  exact ⟨fuel,hrun⟩

/-- The same for the unsigned routine. -/
theorem aeabiUldivmod_eq_udiv {numerator denominator : BitVec 64} (hd : 0 < denominator.toNat) :
    ∃ fuel, aeabiUldivmod denominator fuel numerator =
      some (numerator / denominator,numerator % denominator) := by
  obtain ⟨fuel,q,r,hrun,htotal,hsmall⟩ := uldivmod_divides numerator hd
  have hsum : r.toNat + denominator.toNat * q.toNat = numerator.toNat := by
    rw [htotal]
    ring
  have hunique := (Nat.div_mod_unique hd).mpr ⟨hsum,hsmall⟩
  have hquotient : q = numerator / denominator := by
    rw [← BitVec.toNat_inj,BitVec.toNat_udiv,hunique.1]
  have hremainder : r = numerator % denominator := by
    rw [← BitVec.toNat_inj,BitVec.toNat_umod,hunique.2]
  rw [← hquotient,← hremainder]
  exact ⟨fuel,hrun⟩

end TwMonitor.LongDivision
