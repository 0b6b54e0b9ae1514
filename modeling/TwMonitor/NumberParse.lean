import TwMonitor.NumberPad

/-!
# Reading numbers back

The parser takes digits from the front on, modulo 2^32, and stops at the first
character that is no digit of the base. A printed number without its separators is
taken as a whole and gives the number again.
-/
namespace TwMonitor.NumberParse
open DigitGroups NumberPad

/-- The result so far, and the characters from `endptr` on. -/
def strtouFrom (base : ℕ) : BitVec 32 → List Char → BitVec 32 × List Char
  | result,[] => (result,[])
  | result,c::s =>
      let digit := charToDigit c
      if digit = 0xFF ∨ base ≤ digit then (result,c::s)
      else strtouFrom base (result * BitVec.ofNat 32 base + BitVec.ofNat 32 digit) s

def strtou (s : List Char) (base : ℕ) : Option (BitVec 32 × List Char) :=
  if base < 2 ∨ 16 < base then none else some (strtouFrom base 0 s)

def strtoi (s : List Char) (base : ℕ) : Option (BitVec 32 × List Char) := do
  let neg := s.head? = some '-'
  let (result,endptr) ← strtou (if neg then s.tail else s) base
  some (if neg then result * (-1) else result,endptr)

/-- One more digit at the end of a number that is taken as a whole. -/
theorem strtouFrom_snoc {base d : ℕ} (hbase : base ≤ 16) (hd : d < base) (s : List Char) :
    ∀ result value : BitVec 32, strtouFrom base result s = (value,[]) →
      strtouFrom base result (s ++ [digitToChar d]) =
        (value * BitVec.ofNat 32 base + BitVec.ofNat 32 d,[]) := by
  induction s with
  | nil =>
      intro result value h
      obtain rfl : result = value := congrArg Prod.fst h
      rw [List.nil_append,strtouFrom,charToDigit_digitToChar d (by omega),if_neg (by omega),
        strtouFrom]
  | cons c s ih =>
      intro result value h
      rw [List.cons_append,strtouFrom]
      rw [strtouFrom] at h
      split at h
      · simp at h
      · next hdigit =>
          rw [if_neg hdigit]
          exact ih _ value h

theorem strtouFrom_digits {base : ℕ} (hbase : base ≤ 16) (digits : List ℕ)
    (hdigits : ∀ d ∈ digits, d < base) :
    strtouFrom base 0 (digits.map digitToChar).reverse =
      (BitVec.ofNat 32 (Nat.ofDigits base digits),[]) := by
  induction digits with
  | nil => rfl
  | cons d digits ih =>
      rw [List.forall_mem_cons] at hdigits
      rw [List.map_cons,List.reverse_cons,strtouFrom_snoc hbase hdigits.1 _ _ _ (ih hdigits.2),
        Nat.ofDigits_cons,BitVec.ofNat_add,BitVec.ofNat_mul,
        BitVec.mul_comm,BitVec.add_comm]

theorem strtou_numberDigits (number : BitVec 32) {base : ℕ} (hbase : 2 ≤ base ∧ base ≤ 16) :
    strtou (numberDigits number.toNat base) base = some (number,[]) := by
  rw [strtou,if_neg (by omega),numberDigits]
  split
  · next hzero =>
      have hnumber : number = 0 := BitVec.eq_of_toNat_eq hzero
      have htake := strtouFrom_digits hbase.2 [0] (by simp; omega)
      rw [hnumber]
      simpa [digitToChar] using htake
  · rw [strtouFrom_digits hbase.2 _ (fun d hd => Nat.digits_lt_base hbase.1 hd),
      Nat.ofDigits_digits,BitVec.ofNat_toNat,BitVec.setWidth_eq]

/-- A zero stands in front of nothing. -/
def NoLeadingZero (s : List Char) : Prop := s.head? = some '0' → s = ['0']

theorem digitToChar_eq_zero : ∀ d < 16, digitToChar d = '0' → d = 0 := by decide

theorem numberDigits_noLeadingZero (number : ℕ) {base : ℕ} (hbase : 2 ≤ base ∧ base ≤ 16) :
    NoLeadingZero (numberDigits number base) := by
  intro hhead
  unfold numberDigits at hhead ⊢
  split at hhead
  · next hzero => rw [if_pos hzero]
  · next hpos =>
      have hne : Nat.digits base number ≠ [] := Nat.digits_ne_nil_iff_ne_zero.mpr hpos
      rw [List.head?_reverse,List.getLast?_map,List.getLast?_eq_some_getLast hne] at hhead
      have hlast := Nat.digits_lt_base hbase.1 (List.getLast_mem hne)
      have hzero := digitToChar_eq_zero _ (by omega) (Option.some.inj hhead)
      exact absurd hzero (Nat.getLast_digit_ne_zero base hpos)

theorem numberDigits_no_sign (number : ℕ) {base : ℕ} (hbase : 2 ≤ base ∧ base ≤ 16) :
    (numberDigits number base).head? ≠ some '-' := by
  intro hhead
  obtain ⟨d,hd,heq⟩ := numberDigits_digit hbase.1 (List.mem_of_head? hhead)
  have hsign : ∀ d < 16, digitToChar d ≠ '-' := by decide
  exact hsign d (by omega) heq.symm

theorem strtoi_positive (number : BitVec 32) {base : ℕ} (hbase : 2 ≤ base ∧ base ≤ 16) :
    strtoi (numberDigits number.toNat base) base = some (number,[]) := by
  unfold strtoi
  simp only [numberDigits_no_sign number.toNat hbase,if_false,strtou_numberDigits number hbase]
  rfl

theorem strtoi_negative (number : BitVec 32) {base : ℕ} (hbase : 2 ≤ base ∧ base ≤ 16) :
    strtoi ('-'::numberDigits (-number).toNat base) base = some (number,[]) := by
  unfold strtoi
  simp only [List.head?_cons,if_true,List.tail_cons,strtou_numberDigits (-number) hbase,
    Option.bind_eq_bind,Option.bind_some]
  rw [BitVec.mul_neg]
  simp

/-! ## Printed numbers -/

theorem utoaPad_text (number : BitVec 32) {base : ℕ} (hbase : 3 ≤ base ∧ base ≤ 16) :
    ∃ pad, utoaPad number base = some pad ∧
      pad.chars = grouped '_' 4 (numberDigits number.toNat base) := by
  have hfits := (@utoaPad_fits_iff number base (by omega)).mpr (.inl (by omega))
  obtain ⟨pad,hpad⟩ := Option.isSome_iff_exists.mp hfits
  rw [utoaPad_eq number (by omega)] at hpad ⊢
  exact ⟨pad,hpad,padOf_eq_some hpad⟩

def signOf (number : BitVec 32) : List Char := if number.slt 0 then ['-'] else []

def magnitude (number : BitVec 32) : BitVec 32 := if number.slt 0 then -number else number

theorem itoaPad_text (number : BitVec 32) {base : ℕ} (hbase : 3 ≤ base ∧ base ≤ 16) :
    ∃ pad, itoaPad number base = some pad ∧
      pad.chars = signOf number ++ grouped '_' 4 (numberDigits (magnitude number).toNat base) := by
  have hfits := (@itoaPad_fits_iff number base (by omega)).mpr (.inl (by omega))
  obtain ⟨pad,hpad⟩ := Option.isSome_iff_exists.mp hfits
  refine ⟨pad,hpad,?_⟩
  rw [itoaPad_eq number (by omega)] at hpad
  unfold signOf magnitude
  split at hpad
  · next hneg => rw [padOf_eq_some hpad,if_pos hneg,if_pos hneg]; rfl
  · next hpos => rw [padOf_eq_some hpad,if_neg hpos,if_neg hpos]; rfl

/-- A printed number without its separators parses back, and its separators stand between
groups of four digits. -/
theorem printedNumber_parses_back {base : ℕ} (hbase : 3 ≤ base ∧ base ≤ 16) (n m : BitVec 32) :
    (∃ pad, utoaPad n base = some pad ∧
      NoLeadingZero (pad.chars.filter (· ≠ '_')) ∧
      strtou (pad.chars.filter (· ≠ '_')) base = some (n,[]) ∧
      FullGroups 4 (pad.chars.splitOn '_')) ∧
    (∃ pad digits, itoaPad m base = some pad ∧
      strtoi (pad.chars.filter (· ≠ '_')) base = some (m,[]) ∧
      pad.chars = signOf m ++ digits ∧ FullGroups 4 (digits.splitOn '_')) := by
  have hbase' : 2 ≤ base ∧ base ≤ 16 := by omega
  have hgroups (number : ℕ) :
      FullGroups 4 ((grouped '_' 4 (numberDigits number base)).splitOn '_') :=
    fullGroups_grouped (by decide) (separator_notMem_numberDigits number hbase')
      (numberDigits_ne_nil number base)
  have hdigits (number : ℕ) :=
    filter_grouped 4 (separator_notMem_numberDigits number hbase')
  constructor
  · obtain ⟨pad,hpad,hchars⟩ := utoaPad_text n hbase
    refine ⟨pad,hpad,?_,?_,?_⟩ <;> rw [hchars]
    · rw [hdigits]
      exact numberDigits_noLeadingZero n.toNat hbase'
    · rw [hdigits]
      exact strtou_numberDigits n hbase'
    · exact hgroups n.toNat
  · obtain ⟨pad,hpad,hchars⟩ := itoaPad_text m hbase
    refine ⟨pad,_,hpad,?_,hchars,hgroups _⟩
    rw [hchars,List.filter_append,hdigits]
    unfold signOf magnitude
    split
    · exact strtoi_negative m hbase'
    · exact strtoi_positive m hbase'

theorem printedNumber_parses_back_decimal :
    ∃ pad, utoaPad 987654321 10 = some pad ∧ pad.chars = "9_8765_4321".toList ∧
      strtou (pad.chars.filter (· ≠ '_')) 10 = some (987654321,[]) := by
  obtain ⟨pad,hpad,_,hparse,_⟩ :=
    (printedNumber_parses_back (by decide : 3 ≤ 10 ∧ 10 ≤ 16) 987654321 0).1
  exact ⟨pad,hpad,by rw [← Option.some.inj hpad]; rfl,hparse⟩

end TwMonitor.NumberParse
