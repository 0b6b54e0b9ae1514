import TwMonitor.NumberPad

/-!
# Entering a number

The prompt for a number keeps the number, the base and a sign of its own, so that a
digit can be taken off a negative zero. Every key updates them, and a digit is only
taken where the number stays within an `int`.
-/
namespace TwMonitor.MenuNumber
open NumberPad

def intMin : BitVec 32 := BitVec.intMin 32

def intMax : BitVec 32 := BitVec.intMax 32

/-- The locals of `menu_number`. -/
structure NumberEntry where
  number : BitVec 32
  base : ℕ
  sign : Bool
  deriving DecidableEq

/-- The prompt waits for a key, or for the character whose value is taken, or has returned. -/
inductive Prompt where
  | waiting (s : NumberEntry)
  | characterValue (base : ℕ)
  | submitted (number : BitVec 32)
  deriving DecidableEq

def menuNumberInit (initNumber : BitVec 32) : NumberEntry where
  number := initNumber
  base := 10
  sign := initNumber.slt 0

/-- The guard of a digit, with the division of C. -/
def acceptsDigit (s : NumberEntry) (digit : ℕ) : Bool :=
  if s.sign then ((intMin + BitVec.ofNat 32 digit).sdiv (BitVec.ofNat 32 s.base)).sle s.number
  else s.number.sle ((intMax - BitVec.ofNat 32 digit).sdiv (BitVec.ofNat 32 s.base))

def enterDigit (s : NumberEntry) (digit : ℕ) : NumberEntry :=
  if acceptsDigit s digit then
    let number := s.number * BitVec.ofNat 32 s.base
    if s.sign then { s with number := number - BitVec.ofNat 32 digit }
    else { s with number := number + BitVec.ofNat 32 digit }
  else s

def toggleSign (s : NumberEntry) : NumberEntry :=
  if s.number = 0 then { s with sign := !s.sign }
  else
    let number := s.number * (-1)
    { s with number := number, sign := number.slt 0 }

def removeLastDigit (s : NumberEntry) : NumberEntry :=
  { s with number := s.number.sdiv (BitVec.ofNat 32 s.base) }

/-- One round of `menu_number` without options of the caller. -/
def menuNumberKey (initNumber : BitVec 32) (s : NumberEntry) (c : Key) : Prompt :=
  if keyDigit c < s.base then .waiting (enterDigit s (keyDigit c))
  else if c = key '?' then .waiting s
  else if c = ctrl 'b' then .waiting { s with base := if s.base = 10 then 16 else 10 }
  else if c = ctrl 'i' then .waiting { s with number := initNumber, sign := initNumber.slt 0 }
  else if c = ctrl 'z' then .waiting { s with number := 0, sign := false }
  else if c = key '\'' then .characterValue s.base
  else if c = key '-' then .waiting (toggleSign s)
  else if c = key '\r' then .submitted s.number
  else if c = key '\x08' then .waiting (removeLastDigit s)
  else .waiting s

def menuNumberStep (initNumber : BitVec 32) : Prompt → Key → Prompt
  | .waiting s,c => menuNumberKey initNumber s c
  | .characterValue base,c => .waiting ⟨c.setWidth 32,base,false⟩
  | .submitted number,_ => .submitted number

def menuNumber (initNumber : BitVec 32) (keys : List Key) : Prompt :=
  keys.foldl (menuNumberStep initNumber) (.waiting (menuNumberInit initNumber))

/-! ## Arithmetic of a digit -/

def FitsInt (n : ℤ) : Prop := -2 ^ 31 ≤ n ∧ n < 2 ^ 31

theorem intMin_toInt : intMin.toInt = -2 ^ 31 := by decide

theorem intMax_toInt : intMax.toInt = 2 ^ 31 - 1 := by decide

/-- The number with one more digit behind it. -/
def withDigit (s : NumberEntry) (digit : ℕ) : ℤ :=
  if s.sign then s.number.toInt * s.base - digit else s.number.toInt * s.base + digit

/-- What holds of the locals at every prompt. -/
structure Kept (s : NumberEntry) : Prop where
  base : s.base = 10 ∨ s.base = 16
  signed : s.sign = true → s.number.toInt ≤ 0
  unsigned : s.sign = false → 0 ≤ s.number.toInt

theorem toInt_ofNat_small {n : ℕ} (h : n < 2 ^ 31) : (BitVec.ofNat 32 n).toInt = n := by
  have hmod : (BitVec.ofNat 32 n).toNat = n := by
    rw [BitVec.toNat_ofNat]
    exact Nat.mod_eq_of_lt (by omega)
  rw [BitVec.toInt_eq_toNat_of_lt (by omega),hmod]

/-- No quotient by a base wraps. -/
theorem toInt_sdiv_base (n : BitVec 32) {base : ℕ} (hbase : base = 10 ∨ base = 16) :
    (n.sdiv (BitVec.ofNat 32 base)).toInt = n.toInt.tdiv base := by
  have hne : BitVec.ofNat 32 base ≠ -1#32 := by
    rcases hbase with rfl | rfl <;> decide
  rw [BitVec.toInt_sdiv_of_ne_or_ne _ _ (.inr hne),toInt_ofNat_small (by omega)]

theorem bmod_fits {n : ℤ} (h : FitsInt n) : n.bmod (2 ^ 32) = n := by
  unfold FitsInt at h
  exact Int.bmod_eq_of_le (by omega) (by omega)

/-- Above zero, truncation rounds down. -/
theorem le_tdiv_iff {n x b : ℤ} (hx : 0 ≤ x) (hb : 0 < b) : n ≤ x.tdiv b ↔ n * b ≤ x := by
  rw [Int.tdiv_eq_ediv_of_nonneg hx]
  exact Int.le_ediv_iff_mul_le hb

/-- Below zero, truncation rounds up. -/
theorem tdiv_le_iff {n x b : ℤ} (hx : x ≤ 0) (hb : 0 < b) : x.tdiv b ≤ n ↔ x ≤ n * b := by
  have hneg : x.tdiv b = -(-x).tdiv b := by rw [Int.neg_tdiv,neg_neg]
  rw [hneg,neg_le,le_tdiv_iff (by omega) hb,neg_mul,neg_le_neg_iff]

theorem acceptsDigit_iff {s : NumberEntry} (hs : Kept s) {digit : ℕ} (hdigit : digit < s.base) :
    acceptsDigit s digit = true ↔ FitsInt (withDigit s digit) := by
  have hbase := hs.base
  have hpos : (0 : ℤ) < s.base := by omega
  have hd : (BitVec.ofNat 32 digit).toInt = digit := toInt_ofNat_small (by omega)
  unfold acceptsDigit withDigit FitsInt
  cases hsign : s.sign with
  | true =>
      have hle := hs.signed hsign
      have hprod : s.number.toInt * s.base ≤ 0 := mul_nonpos_of_nonpos_of_nonneg hle hpos.le
      have hsum : (intMin + BitVec.ofNat 32 digit).toInt = -2 ^ 31 + digit := by
        rw [BitVec.toInt_add,intMin_toInt,hd]
        exact bmod_fits (by unfold FitsInt; omega)
      simp only [if_true,BitVec.sle_iff_toInt_le,toInt_sdiv_base _ hbase,hsum]
      rw [tdiv_le_iff (by omega) hpos]
      omega
  | false =>
      have hle := hs.unsigned hsign
      have hprod : 0 ≤ s.number.toInt * s.base := mul_nonneg hle hpos.le
      have hdiff : (intMax - BitVec.ofNat 32 digit).toInt = 2 ^ 31 - 1 - digit := by
        rw [BitVec.toInt_sub,intMax_toInt,hd]
        exact bmod_fits (by unfold FitsInt; omega)
      simp only [Bool.false_eq_true,if_false,BitVec.sle_iff_toInt_le,toInt_sdiv_base _ hbase,hdiff]
      rw [le_tdiv_iff (by omega) hpos]
      omega

/-- An accepted digit is behind the number, without wrapping. -/
theorem enterDigit_accepted {s : NumberEntry} (hs : Kept s) {digit : ℕ} (hdigit : digit < s.base)
    (hfits : FitsInt (withDigit s digit)) :
    (enterDigit s digit).number.toInt = withDigit s digit ∧
      (enterDigit s digit).base = s.base ∧ (enterDigit s digit).sign = s.sign := by
  have hbase := hs.base
  have hd : (BitVec.ofNat 32 digit).toInt = digit := toInt_ofNat_small (by omega)
  have hb : (BitVec.ofNat 32 s.base).toInt = s.base := toInt_ofNat_small (by omega)
  rw [enterDigit,if_pos ((acceptsDigit_iff hs hdigit).mpr hfits)]
  unfold withDigit at hfits ⊢
  cases hsign : s.sign with
  | true =>
      refine ⟨?_,rfl,rfl⟩
      simp only [hsign,if_true] at hfits ⊢
      rw [BitVec.toInt_sub,BitVec.toInt_mul,hd,hb,Int.bmod_sub_bmod]
      exact bmod_fits hfits
  | false =>
      refine ⟨?_,rfl,rfl⟩
      simp only [hsign,Bool.false_eq_true,if_false] at hfits ⊢
      rw [BitVec.toInt_add,BitVec.toInt_mul,hd,hb,Int.bmod_add_bmod]
      exact bmod_fits hfits

theorem enterDigit_refused {s : NumberEntry} (hs : Kept s) {digit : ℕ} (hdigit : digit < s.base)
    (hfits : ¬FitsInt (withDigit s digit)) : enterDigit s digit = s :=
  if_neg (fun h => hfits ((acceptsDigit_iff hs hdigit).mp h))

/-- The last digit is divided off on both sides of zero. -/
theorem withDigit_tdiv {s : NumberEntry} (hs : Kept s) {digit : ℕ} (hdigit : digit < s.base) :
    (withDigit s digit).tdiv s.base = s.number.toInt := by
  have hpos : (0 : ℤ) < s.base := by omega
  have hdigit' : (digit : ℤ) / s.base = 0 := Int.ediv_eq_zero_of_lt (by omega) (by omega)
  unfold withDigit
  cases hsign : s.sign with
  | true =>
      have hle := hs.signed hsign
      have hprod : s.number.toInt * s.base ≤ 0 := mul_nonpos_of_nonpos_of_nonneg hle hpos.le
      have hneg : s.number.toInt * s.base - digit = -(digit + -s.number.toInt * s.base) := by ring
      rw [if_pos rfl,hneg,Int.neg_tdiv,Int.tdiv_eq_ediv_of_nonneg (by rw [neg_mul]; omega),
        Int.add_mul_ediv_right _ _ (by omega),hdigit']
      ring
  | false =>
      have hle := hs.unsigned hsign
      have hprod : 0 ≤ s.number.toInt * s.base := mul_nonneg hle hpos.le
      rw [if_neg (by decide),add_comm,Int.tdiv_eq_ediv_of_nonneg (by omega),
        Int.add_mul_ediv_right _ _ (by omega),hdigit',zero_add]

theorem removeLastDigit_enterDigit {s : NumberEntry} (hs : Kept s) {digit : ℕ}
    (hdigit : digit < s.base) (hfits : FitsInt (withDigit s digit)) :
    removeLastDigit (enterDigit s digit) = s := by
  obtain ⟨hnumber,hbase,hsign⟩ := enterDigit_accepted hs hdigit hfits
  have hquot : (enterDigit s digit).number.sdiv (BitVec.ofNat 32 s.base) = s.number := by
    apply BitVec.eq_of_toInt_eq
    rw [toInt_sdiv_base _ hs.base,hnumber,withDigit_tdiv hs hdigit]
  unfold removeLastDigit
  rw [hbase,hquot]
  cases he : enterDigit s digit
  rw [he] at hbase hsign
  subst hbase hsign
  rfl

/-! ## Every key history -/

theorem menuNumberInit_kept (initNumber : BitVec 32) : Kept (menuNumberInit initNumber) where
  base := .inl rfl
  signed h := by
    have hneg : initNumber.toInt < 0 := by simpa [menuNumberInit,BitVec.slt] using h
    exact hneg.le
  unsigned h := by simpa [menuNumberInit,BitVec.slt] using h

theorem enterDigit_kept {s : NumberEntry} (hs : Kept s) {digit : ℕ} (hdigit : digit < s.base) :
    Kept (enterDigit s digit) := by
  by_cases hfits : FitsInt (withDigit s digit)
  · obtain ⟨hnumber,hbase,hsign⟩ := enterDigit_accepted hs hdigit hfits
    have hpos : (0 : ℤ) ≤ s.base := by omega
    refine ⟨by rw [hbase]; exact hs.base,fun h => ?_,fun h => ?_⟩
    · have hsigned := hsign.symm.trans h
      have hprod := mul_nonpos_of_nonpos_of_nonneg (hs.signed hsigned) hpos
      rw [hnumber,withDigit,if_pos hsigned]
      omega
    · have hunsigned := hsign.symm.trans h
      have hprod := mul_nonneg (hs.unsigned hunsigned) hpos
      rw [hnumber,withDigit,if_neg (by rw [hunsigned]; decide)]
      omega
  · rw [enterDigit_refused hs hdigit hfits]
    exact hs

/-- The least number stays negative when its sign is toggled. -/
theorem toggleSign_kept {s : NumberEntry} (hs : Kept s) : Kept (toggleSign s) := by
  unfold toggleSign
  split
  · next hzero =>
      have hzero' : s.number.toInt = 0 := by rw [hzero]; rfl
      exact ⟨hs.base,fun _ => hzero'.le,fun _ => hzero'.ge⟩
  · refine ⟨hs.base,fun h => ?_,fun h => ?_⟩
    · have hneg : (s.number * (-1)).toInt < 0 := by simpa [BitVec.slt] using h
      exact hneg.le
    · simpa [BitVec.slt] using h

theorem removeLastDigit_kept {s : NumberEntry} (hs : Kept s) : Kept (removeLastDigit s) := by
  have hpos : (0 : ℤ) < s.base := by
    have hbase := hs.base
    omega
  have hquot : (removeLastDigit s).number.toInt = s.number.toInt.tdiv s.base :=
    toInt_sdiv_base s.number hs.base
  refine ⟨hs.base,fun h => ?_,fun h => ?_⟩
  · have hle := hs.signed h
    rw [hquot,tdiv_le_iff hle hpos,zero_mul]
    exact hle
  · have hle := hs.unsigned h
    rw [hquot,le_tdiv_iff hle hpos,zero_mul]
    exact hle

/-- What is kept at a prompt, and of the base while a character is awaited. -/
def Prompt.Kept : Prompt → Prop
  | .waiting s => MenuNumber.Kept s
  | .characterValue base => base = 10 ∨ base = 16
  | .submitted _ => True

theorem menuNumberKey_kept (initNumber : BitVec 32) {s : NumberEntry} (hs : Kept s) (c : Key) :
    (menuNumberKey initNumber s c).Kept := by
  have hinit := menuNumberInit_kept initNumber
  unfold menuNumberKey
  split
  · next hdigit => exact enterDigit_kept hs hdigit
  split
  · exact hs
  split
  · refine ⟨?_,hs.signed,hs.unsigned⟩
    show (if s.base = 10 then 16 else 10) = 10 ∨ _
    split <;> simp
  split
  · exact ⟨hs.base,hinit.signed,hinit.unsigned⟩
  split
  · exact ⟨hs.base,fun h => absurd h Bool.false_ne_true,fun _ => le_rfl⟩
  split
  · exact hs.base
  split
  · exact toggleSign_kept hs
  split
  · trivial
  split
  · exact removeLastDigit_kept hs
  · exact hs

theorem menuNumberStep_kept (initNumber : BitVec 32) {p : Prompt} (hp : p.Kept) (c : Key) :
    (menuNumberStep initNumber p c).Kept := by
  cases p with
  | waiting s => exact menuNumberKey_kept initNumber hp c
  | characterValue base =>
      refine ⟨hp,fun h => absurd h Bool.false_ne_true,fun _ => ?_⟩
      show 0 ≤ (c.setWidth 32).toInt
      have hlt := c.isLt
      have hnat : (c.setWidth 32).toNat = c.toNat := by
        rw [BitVec.toNat_setWidth]
        exact Nat.mod_eq_of_lt (by omega)
      rw [BitVec.toInt_eq_toNat_of_lt (by omega)]
      exact Int.natCast_nonneg _
  | submitted number => trivial

theorem menuNumber_kept (initNumber : BitVec 32) (keys : List Key) :
    (menuNumber initNumber keys).Kept := by
  have hrun (keys : List Key) : ∀ p : Prompt, p.Kept →
      (keys.foldl (menuNumberStep initNumber) p).Kept := by
    induction keys with
    | nil => exact fun p hp => hp
    | cons c keys ih => exact fun p hp => ih _ (menuNumberStep_kept initNumber hp c)
  exact hrun keys _ (menuNumberInit_kept initNumber)

/-- After any keys the sign agrees with the number, a digit is accepted exactly where the result
is an `int`, and taking it off again restores the prompt. -/
theorem menuNumber_exact (initNumber : BitVec 32) (keys : List Key) (s : NumberEntry)
    (h : menuNumber initNumber keys = .waiting s) :
    (s.sign = true → s.number.toInt ≤ 0) ∧ (s.sign = false → 0 ≤ s.number.toInt) ∧
    ∀ c : Key, keyDigit c < s.base →
      (acceptsDigit s (keyDigit c) = true ↔ FitsInt (withDigit s (keyDigit c))) ∧
      (FitsInt (withDigit s (keyDigit c)) → ∃ s',
        menuNumberStep initNumber (.waiting s) c = .waiting s' ∧
        s'.number.toInt = withDigit s (keyDigit c) ∧ s'.base = s.base ∧ s'.sign = s.sign ∧
        menuNumberStep initNumber (.waiting s') (key '\x08') = .waiting s) ∧
      (¬FitsInt (withDigit s (keyDigit c)) →
        menuNumberStep initNumber (.waiting s) c = .waiting s) := by
  have hs : Kept s := by
    have hkept := menuNumber_kept initNumber keys
    rwa [h] at hkept
  refine ⟨hs.signed,hs.unsigned,fun c hdigit => ⟨acceptsDigit_iff hs hdigit,?_,?_⟩⟩
  · intro hfits
    obtain ⟨hnumber,hbase,hsign⟩ := enterDigit_accepted hs hdigit hfits
    have hback : menuNumberKey initNumber (enterDigit s (keyDigit c)) (key '\x08') =
        .waiting (removeLastDigit (enterDigit s (keyDigit c))) := by
      have hlarge : ¬keyDigit (key '\x08') < (enterDigit s (keyDigit c)).base := by
        have hten := hs.base
        have hno : keyDigit (key '\x08') = 255 := by decide
        omega
      rw [menuNumberKey,if_neg hlarge]
      rfl
    refine ⟨enterDigit s (keyDigit c),if_pos hdigit,hnumber,hbase,hsign,?_⟩
    rw [menuNumberStep,hback,removeLastDigit_enterDigit hs hdigit hfits]
  · intro hfits
    rw [menuNumberStep,menuNumberKey,if_pos hdigit,enterDigit_refused hs hdigit hfits]

theorem menuNumber_exact_negative :
    ∃ s', menuNumberStep 0 (menuNumber 0 [key '-',key '4']) (key '2') = .waiting s' ∧
      s'.number.toInt = -42 ∧
      menuNumberStep 0 (.waiting s') (key '\x08') = menuNumber 0 [key '-',key '4'] := by
  obtain ⟨_,_,hdigits⟩ := menuNumber_exact 0 [key '-',key '4'] ⟨-4,10,true⟩ (by decide)
  obtain ⟨s',hstep,hnumber,_,_,hback⟩ :=
    (hdigits (key '2') (by decide)).2.1 (by unfold FitsInt; decide)
  exact ⟨s',hstep,hnumber,hback⟩

-- One digit short of the overflow, on both sides.
example : menuNumber 214748364 [key '8',key '7'] = menuNumber 2147483647 [] := by decide

example : menuNumber (-214748364) [key '9',key '8'] = menuNumber (-2147483648) [] := by decide

end TwMonitor.MenuNumber
