import Mathlib.Data.Nat.Digits.Lemmas
import Mathlib.Tactic
import TwMonitor.DigitGroups

/-!
# Printing numbers

Numbers are printed from the last digit on into a pad with room for 32
characters. Groups of four digits are separated by underscores. The function
`pad_hold` asserts that the pad is not full, so a result is `none` where the
characters do not fit. Whenever they fit, the pad holds the digits of the number in
groups, behind zeros or spaces.
-/
namespace TwMonitor.NumberPad
open DigitGroups

def padSize : ℕ := 32 + 1

/-- The characters held so far, in front of the terminator. -/
structure Pad where
  chars : List Char := []
  fits : chars.length < padSize := by decide

def padInit : Pad := {}

def padHold (pad : Pad) (c : Char) : Option Pad :=
  if h : (c::pad.chars).length < padSize then some ⟨c::pad.chars,h⟩ else none

def padLen (pad : Pad) : ℕ := pad.chars.length

def digitToChar (digit : ℕ) : Char :=
  if digit < 10 then Char.ofNat (digit + 48)
  else if digit ≤ 0xF then Char.ofNat (digit - 10 + 65)
  else Char.ofNat 0

def charToUpper (c : Char) : Char :=
  if 'a'.toNat ≤ c.toNat ∧ c.toNat ≤ 'z'.toNat then Char.ofNat (c.toNat - 32) else c

def charToDigit (c : Char) : ℕ :=
  let c := (charToUpper c).toNat
  if '0'.toNat ≤ c ∧ c ≤ '9'.toNat then c - '0'.toNat
  else if 'A'.toNat ≤ c ∧ c ≤ 'F'.toNat then c - 'A'.toNat + 10
  else 0xFF

abbrev Key := BitVec 8

def key (c : Char) : Key := BitVec.ofNat 8 c.toNat

def ctrl (c : Char) : Key := key c &&& 0x1F

/-- The digit of a key. `char` is unsigned. -/
def keyDigit (c : Key) : ℕ := charToDigit (Char.ofNat c.toNat)

/-- Hold a character, after the separator where a group ends. -/
def holdGrouped (pad : Pad) (c : Char) : Option Pad := do
  let pad ← (if (padLen pad + 1) % 5 = 0 then padHold pad '_' else some pad)
  padHold pad c

/-- One digit for each round. A 32-bit number is zero after 32 rounds. -/
def holdDigits (base : ℕ) : ℕ → ℕ → Pad → Option Pad
  | 0,_,_ => none
  | fuel + 1,number,pad =>
      if number = 0 then some pad else do
        let pad ← holdGrouped pad (digitToChar (number % base))
        holdDigits base fuel (number / base) pad

/-- Fill the pad up to a length. Each round adds a character. -/
def fillPad (hold : Pad → Option Pad) (target : ℕ) : ℕ → Pad → Option Pad
  | 0,pad => if padLen pad < target then none else some pad
  | fuel + 1,pad =>
      if padLen pad < target then do
        let pad ← hold pad
        fillPad hold target fuel pad
      else some pad

def utoaPadW (number : BitVec 32) (base minwidth : ℕ) (fillwithzero : Bool) : Option Pad :=
  if base < 2 ∨ 16 < base then none else do
    let pad ← (if number = 0 then padHold padInit '0' else holdDigits base 33 number.toNat padInit)
    if fillwithzero then
      let target := (minwidth + minwidth / 5) % 2 ^ 32
      fillPad (fun pad => holdGrouped pad '0') target target pad
    else fillPad (fun pad => padHold pad ' ') minwidth minwidth pad

def itoaPadW (number : BitVec 32) (base minwidth : ℕ) (fillwithzero : Bool) : Option Pad := do
  let neg := number.slt 0
  let abs := if neg then -number else number
  let pad ← utoaPadW abs base (if neg then minwidth - 1 else minwidth) fillwithzero
  if neg then padHold pad '-' else some pad

def utoaPad (number : BitVec 32) (base : ℕ) : Option Pad := utoaPadW number base 0 false

def itoaPad (number : BitVec 32) (base : ℕ) : Option Pad := itoaPadW number base 0 false

/-! ## The text of a number -/

/-- A pad that holds the characters, where they fit. -/
def padOf (chars : List Char) : Option Pad :=
  if h : chars.length < padSize then some ⟨chars,h⟩ else none

theorem padOf_chars (pad : Pad) : padOf pad.chars = some pad := dif_pos pad.fits

theorem padOf_eq_some {chars : List Char} {pad : Pad} (h : padOf chars = some pad) :
    pad.chars = chars := by
  unfold padOf at h
  split at h
  · rw [← Option.some.inj h]
  · simp at h

theorem padOf_isSome_iff (chars : List Char) : (padOf chars).isSome ↔ chars.length ≤ 32 := by
  unfold padOf padSize
  split
  · next h => simpa using Nat.lt_succ_iff.mp h
  · next h => simpa using Nat.lt_of_succ_le (Nat.le_of_not_lt h)

/-- Characters held later only lengthen the text. -/
theorem padOf_bind {chars chars' : List Char} {f : Pad → Option Pad}
    (hlen : chars.length ≤ chars'.length) (hf : ∀ pad, pad.chars = chars → f pad = padOf chars') :
    (padOf chars).bind f = padOf chars' := by
  by_cases h : chars.length < padSize
  · rw [padOf,dif_pos h,Option.bind_some]
    exact hf _ rfl
  · rw [padOf,padOf,dif_neg h,dif_neg (by omega)]
    rfl

theorem padHold_eq (pad : Pad) (c : Char) : padHold pad c = padOf (c::pad.chars) := rfl

theorem holdGrouped_eq {pad : Pad} {chars : List Char} (h : pad.chars = grouped '_' 4 chars)
    (c : Char) : holdGrouped pad c = padOf (grouped '_' 4 (c::chars)) := by
  have hdue : (padLen pad + 1) % 5 = 0 ↔ chars ≠ [] ∧ chars.length % 4 = 0 := by
    have hfull := groupedLength_full_iff (by decide : 0 < 4) chars.length
    rw [padLen,h,grouped_length]
    simpa using hfull
  unfold holdGrouped
  simp only [hdue,grouped,Option.bind_eq_bind]
  split
  · rw [padHold_eq,h]
    exact padOf_bind (by simp) (fun p hp => by rw [padHold_eq,hp])
  · rw [Option.bind_some,padHold_eq,h]

theorem holdDigits_eq {base : ℕ} (hbase : 2 ≤ base) :
    ∀ (fuel number : ℕ) (pad : Pad) (chars : List Char), pad.chars = grouped '_' 4 chars →
      (Nat.digits base number).length < fuel →
      holdDigits base fuel number pad =
        padOf (grouped '_' 4 (((Nat.digits base number).map digitToChar).reverse ++ chars)) := by
  intro fuel
  induction fuel with
  | zero => intro number pad chars _ hfuel; omega
  | succ fuel ih =>
      intro number pad chars hpad hfuel
      rw [holdDigits]
      split
      · next hzero =>
          rw [hzero,Nat.digits_zero,List.map_nil,List.reverse_nil,List.nil_append,← hpad,
            padOf_chars]
      · next hpos =>
          have hdigits := Nat.digits_def' hbase (Nat.pos_of_ne_zero hpos)
          rw [hdigits,List.length_cons] at hfuel
          rw [hdigits,List.map_cons,List.reverse_cons,List.append_assoc,List.singleton_append,
            holdGrouped_eq hpad]
          refine padOf_bind ?_ (fun p hp => ih (number / base) p _ hp (by omega))
          rw [grouped_length,grouped_length]
          exact (groupedLength_strictMono 4).monotone (by simp)

/-- The digits of a number as text. Zero has one digit. -/
def numberDigits (number base : ℕ) : List Char :=
  if number = 0 then ['0'] else ((Nat.digits base number).map digitToChar).reverse

theorem numberDigits_length (number base : ℕ) :
    (numberDigits number base).length = max 1 (Nat.digits base number).length := by
  unfold numberDigits
  split
  · next hzero => simp [hzero]
  · next hpos =>
      have hne : Nat.digits base number ≠ [] := Nat.digits_ne_nil_iff_ne_zero.mpr hpos
      have hone := List.length_pos_iff.mpr hne
      simp only [List.length_reverse,List.length_map]
      omega

theorem numberDigits_length_le_iff {base k : ℕ} (hbase : 2 ≤ base) (hk : 1 ≤ k) (number : ℕ) :
    (numberDigits number base).length ≤ k ↔ number < base ^ k := by
  rw [numberDigits_length,← Nat.digits_length_le_iff hbase]
  omega

theorem numberDigits_ne_nil (number base : ℕ) : numberDigits number base ≠ [] := by
  have hlen := numberDigits_length number base
  exact List.ne_nil_of_length_pos (by omega)

/-- A 32-bit number has 32 digits at most. -/
theorem digits_length_le {base : ℕ} (hbase : 2 ≤ base) (number : BitVec 32) :
    (Nat.digits base number.toNat).length ≤ 32 := by
  rw [Nat.digits_length_le_iff hbase]
  exact lt_of_lt_of_le number.isLt (Nat.pow_le_pow_left hbase 32)

theorem holdNumber_eq {base : ℕ} (hbase : 2 ≤ base) (number : BitVec 32) :
    (if number = 0 then padHold padInit '0' else holdDigits base 33 number.toNat padInit) =
      padOf (grouped '_' 4 (numberDigits number.toNat base)) := by
  have hzero : number = 0 ↔ number.toNat = 0 := by
    rw [← BitVec.toNat_inj]
    rfl
  unfold numberDigits
  simp only [hzero]
  split
  · rfl
  · have hdigits := digits_length_le hbase number
    have hhold := holdDigits_eq hbase 33 number.toNat padInit [] rfl (by omega)
    rwa [List.append_nil] at hhold

theorem digitToChar_ne_separator : ∀ d < 16, digitToChar d ≠ '_' := by decide

theorem charToDigit_digitToChar : ∀ d < 16, charToDigit (digitToChar d) = d := by decide

theorem numberDigits_digit {number base : ℕ} (hbase : 2 ≤ base) {c : Char}
    (hc : c ∈ numberDigits number base) : ∃ d < base, c = digitToChar d := by
  unfold numberDigits at hc
  split at hc
  · exact ⟨0,by omega,List.mem_singleton.mp hc⟩
  · obtain ⟨d,hd,rfl⟩ := List.mem_map.mp (List.mem_reverse.mp hc)
    exact ⟨d,Nat.digits_lt_base hbase hd,rfl⟩

theorem separator_notMem_numberDigits (number : ℕ) {base : ℕ} (hbase : 2 ≤ base ∧ base ≤ 16) :
    '_' ∉ numberDigits number base := by
  intro hc
  obtain ⟨d,hd,heq⟩ := numberDigits_digit hbase.1 hc
  exact digitToChar_ne_separator d (by omega) heq.symm

theorem charToDigit_lt {c : Char} (h : charToDigit c ≠ 0xFF) : charToDigit c < 16 := by
  have hnine : '9'.toNat = 57 := rfl
  have hzero : '0'.toNat = 48 := rfl
  have hA : 'A'.toNat = 65 := rfl
  have hF : 'F'.toNat = 70 := rfl
  unfold charToDigit at h ⊢
  dsimp only at h ⊢
  split_ifs at h ⊢ <;> omega

/-- The pad is filled up to the first text that is long enough. -/
theorem fillPad_eq {hold : Pad → Option Pad} {target last : ℕ} (text : ℕ → List Char)
    (hhold : ∀ pad n, pad.chars = text n → hold pad = padOf (text (n + 1)))
    (hgrow : ∀ n, (text n).length < (text (n + 1)).length)
    (hlast : target ≤ (text last).length) (hshort : ∀ n < last, (text n).length < target) :
    ∀ (fuel n : ℕ) (pad : Pad), n ≤ last → pad.chars = text n →
      target ≤ (text n).length + fuel → fillPad hold target fuel pad = padOf (text last) := by
  have hmono : StrictMono fun n => (text n).length := strictMono_nat_of_lt_succ hgrow
  intro fuel
  induction fuel with
  | zero =>
      intro n pad hn hpad hfuel
      have heq : n = last := by
        by_contra hne
        have hlt := hshort n (by omega)
        omega
      rw [fillPad,if_neg (by rw [padLen,hpad]; omega),← heq,← hpad,padOf_chars]
  | succ fuel ih =>
      intro n pad hn hpad hfuel
      rw [fillPad]
      by_cases heq : n = last
      · rw [if_neg (by rw [padLen,hpad,heq]; omega),← heq,← hpad,padOf_chars]
      · have hlt := hshort n (by omega)
        have hnext := hgrow n
        rw [if_pos (by rw [padLen,hpad]; exact hlt),hhold pad n hpad]
        exact padOf_bind (hmono.monotone (by omega))
          (fun p hp => ih (n + 1) p (by omega) hp (by omega))

/-- So many digits are needed for a length of digits and separators. -/
def filledDigits (target : ℕ) : ℕ := target - (target - 1) / 5

theorem filledDigits_le_iff (target n : ℕ) :
    filledDigits target ≤ n ↔ target ≤ groupedLength 4 n := by
  unfold filledDigits groupedLength
  omega

theorem fillZeros_eq {pad : Pad} {chars : List Char} (h : pad.chars = grouped '_' 4 chars)
    (target : ℕ) :
    fillPad (fun pad => holdGrouped pad '0') target target pad =
      padOf (grouped '_' 4 (List.replicate (filledDigits target - chars.length) '0' ++ chars)) := by
  have hlen (n : ℕ) : (grouped '_' 4 (List.replicate n '0' ++ chars)).length =
      groupedLength 4 (n + chars.length) := by
    rw [grouped_length,List.length_append,List.length_replicate]
  refine fillPad_eq (fun n => grouped '_' 4 (List.replicate n '0' ++ chars)) ?_ ?_ ?_ ?_
    target 0 pad (Nat.zero_le _) h (by omega)
  · intro pad n hpad
    rw [holdGrouped_eq hpad]
    rfl
  · intro n
    rw [hlen,hlen]
    exact groupedLength_strictMono 4 (by omega)
  · rw [hlen,← filledDigits_le_iff]
    omega
  · intro n hn
    rw [hlen]
    by_contra hge
    have hle := (filledDigits_le_iff target (n + chars.length)).mpr (by omega)
    omega

theorem fillSpaces_eq (pad : Pad) (target : ℕ) :
    fillPad (fun pad => padHold pad ' ') target target pad =
      padOf (List.replicate (target - padLen pad) ' ' ++ pad.chars) := by
  refine fillPad_eq (fun n => List.replicate n ' ' ++ pad.chars) ?_ ?_ ?_ ?_
    target 0 pad (Nat.zero_le _) rfl (by omega)
  · intro pad n hpad
    rw [padHold_eq,hpad]
    rfl
  · intro n
    simp only [List.length_append,List.length_replicate]
    omega
  · simp only [List.length_append,List.length_replicate,padLen]
    omega
  · intro n hn
    simp only [List.length_append,List.length_replicate,padLen] at hn ⊢
    omega

/-- The zeros in front of a number printed to a width. -/
def leadingZeros (minwidth digits : ℕ) : ℕ :=
  filledDigits ((minwidth + minwidth / 5) % 2 ^ 32) - digits

/-- The digits of a number behind the zeros that fill them up to a width. -/
def filledNumber (number base minwidth : ℕ) : List Char :=
  List.replicate (leadingZeros minwidth (numberDigits number base).length) '0' ++
    numberDigits number base

theorem filledNumber_digit {number base minwidth : ℕ} (hbase : 2 ≤ base) {c : Char}
    (hc : c ∈ filledNumber number base minwidth) : ∃ d < base, c = digitToChar d := by
  rcases List.mem_append.mp hc with hzero | hdigit
  · exact ⟨0,by omega,List.eq_of_mem_replicate hzero⟩
  · exact numberDigits_digit hbase hdigit

theorem utoaPadW_zeros (number : BitVec 32) {base : ℕ} (hbase : 2 ≤ base ∧ base ≤ 16)
    (minwidth : ℕ) :
    utoaPadW number base minwidth true =
      padOf (grouped '_' 4 (filledNumber number.toNat base minwidth)) := by
  have hle : (grouped '_' 4 (numberDigits number.toNat base)).length ≤
      (grouped '_' 4 (filledNumber number.toNat base minwidth)).length := by
    rw [grouped_length,grouped_length]
    exact (groupedLength_strictMono 4).monotone (by simp [filledNumber])
  rw [utoaPadW,if_neg (by omega),holdNumber_eq hbase.1]
  exact padOf_bind hle (fun p hp => fillZeros_eq hp _)

theorem utoaPadW_spaces (number : BitVec 32) {base : ℕ} (hbase : 2 ≤ base ∧ base ≤ 16)
    (minwidth : ℕ) :
    utoaPadW number base minwidth false =
      padOf
        (List.replicate (minwidth - groupedLength 4 (numberDigits number.toNat base).length) ' ' ++
        grouped '_' 4 (numberDigits number.toNat base)) := by
  rw [utoaPadW,if_neg (by omega),holdNumber_eq hbase.1]
  refine padOf_bind (by simp) (fun p hp => ?_)
  rw [← grouped_length '_',← hp]
  exact fillSpaces_eq p minwidth

theorem utoaPad_eq (number : BitVec 32) {base : ℕ} (hbase : 2 ≤ base ∧ base ≤ 16) :
    utoaPad number base = padOf (grouped '_' 4 (numberDigits number.toNat base)) := by
  rw [utoaPad,utoaPadW_spaces number hbase,Nat.zero_sub]
  rfl

/-- The digits of a signed number are those of its magnitude. -/
theorem itoaPad_eq (number : BitVec 32) {base : ℕ} (hbase : 2 ≤ base ∧ base ≤ 16) :
    itoaPad number base =
      if number.slt 0 then padOf ('-'::grouped '_' 4 (numberDigits (-number).toNat base))
      else padOf (grouped '_' 4 (numberDigits number.toNat base)) := by
  have heq (n : BitVec 32) := utoaPad_eq n hbase
  simp only [utoaPad] at heq
  unfold itoaPad itoaPadW
  by_cases hneg : number.slt 0
  · simp only [hneg,if_true,Nat.zero_sub,heq,Option.bind_eq_bind]
    exact padOf_bind (by simp) (fun p hp => by rw [padHold_eq,hp])
  · simp only [hneg,if_false,heq,Option.bind_eq_bind,Bool.false_eq_true]
    exact padOf_bind le_rfl (fun p hp => by rw [← hp,padOf_chars])

/-! ## Numbers that fit the pad -/

/-- Twenty-six digits and their separators fill the pad. -/
theorem grouped_fits_iff (chars : List Char) :
    (padOf (grouped '_' 4 chars)).isSome ↔ chars.length ≤ 26 := by
  rw [padOf_isSome_iff,grouped_length]
  unfold groupedLength
  omega

theorem signed_fits_iff (chars : List Char) :
    (padOf ('-'::grouped '_' 4 chars)).isSome ↔ chars.length ≤ 25 := by
  rw [padOf_isSome_iff,List.length_cons,grouped_length]
  unfold groupedLength
  omega

/-- In a base from ten on, a 32-bit number has ten digits at most. -/
theorem numberDigits_length_le_ten {base : ℕ} (hbase : 10 ≤ base) (number : BitVec 32) :
    (numberDigits number.toNat base).length ≤ 10 := by
  rw [numberDigits_length_le_iff (by omega) (by omega)]
  have hpow : 10 ^ 10 ≤ base ^ 10 := Nat.pow_le_pow_left hbase 10
  omega

theorem utoaPadW_isSome (number : BitVec 32) {base minwidth : ℕ}
    (h : 10 ≤ base ∧ base ≤ 16 ∧ minwidth ≤ 8) (fillwithzero : Bool) :
    ∃ p, utoaPadW number base minwidth fillwithzero = some p := by
  have hlen := numberDigits_length_le_ten h.1 number
  rw [← Option.isSome_iff_exists]
  cases fillwithzero with
  | true =>
      rw [utoaPadW_zeros number ⟨by omega,h.2.1⟩,grouped_fits_iff,filledNumber,List.length_append,
        List.length_replicate]
      have hwrap : (minwidth + minwidth / 5) % 2 ^ 32 = minwidth + minwidth / 5 :=
        Nat.mod_eq_of_lt (by omega)
      unfold leadingZeros filledDigits
      omega
  | false =>
      rw [utoaPadW_spaces number ⟨by omega,h.2.1⟩,padOf_isSome_iff,List.length_append,
        List.length_replicate,grouped_length]
      unfold groupedLength
      omega

theorem itoaPad_isSome (number : BitVec 32) {base : ℕ} (h : 10 ≤ base ∧ base ≤ 16) :
    ∃ p, itoaPad number base = some p := by
  rw [← Option.isSome_iff_exists,itoaPad_eq number ⟨by omega,h.2⟩]
  split
  · have hlen := numberDigits_length_le_ten h.1 (-number)
    rw [signed_fits_iff]
    omega
  · have hlen := numberDigits_length_le_ten h.1 number
    rw [grouped_fits_iff]
    omega

/-- Below this base a number can have more digits than the pad has room for. -/
theorem numberDigits_fits_iff {base k : ℕ} (hbase : 2 ≤ base) (hk : 21 ≤ k)
    (number : BitVec 32) :
    (numberDigits number.toNat base).length ≤ k ↔ base ≠ 2 ∨ number.toNat < 2 ^ k := by
  rw [numberDigits_length_le_iff hbase (by omega)]
  by_cases htwo : base = 2
  · simp [htwo]
  · have hlarge : number.toNat < base ^ k := by
      calc number.toNat < 3 ^ 21 := by omega
        _ ≤ base ^ 21 := Nat.pow_le_pow_left (by omega) 21
        _ ≤ base ^ k := Nat.pow_le_pow_right (by omega) hk
    simp [htwo,hlarge]

theorem utoaPad_fits_iff (number : BitVec 32) {base : ℕ} (hbase : 2 ≤ base ∧ base ≤ 16) :
    (utoaPad number base).isSome ↔ base ≠ 2 ∨ number.toNat < 2 ^ 26 := by
  rw [utoaPad_eq number hbase,grouped_fits_iff]
  exact numberDigits_fits_iff hbase.1 (by omega) number

/-- The sign takes the place of a digit. -/
theorem itoaPad_fits_iff (number : BitVec 32) {base : ℕ} (hbase : 2 ≤ base ∧ base ≤ 16) :
    (itoaPad number base).isSome ↔
      base ≠ 2 ∨ -2 ^ 25 < number.toInt ∧ number.toInt < 2 ^ 26 := by
  rw [itoaPad_eq number hbase]
  have hint := BitVec.toInt_eq_toNat_cond number
  have hlt := number.isLt
  by_cases hneg : number.slt 0
  · have hneg' : number.toInt < 0 := by simpa [BitVec.slt] using hneg
    have habs : (-number).toNat = 2 ^ 32 - number.toNat := by
      rw [BitVec.toNat_neg,Nat.mod_eq_of_lt]
      split at hint <;> omega
    rw [if_pos hneg,signed_fits_iff,numberDigits_fits_iff hbase.1 (by omega) (-number),habs]
    split at hint <;> omega
  · have hpos : 0 ≤ number.toInt := by simpa [BitVec.slt] using hneg
    rw [if_neg hneg,grouped_fits_iff,numberDigits_fits_iff hbase.1 (by omega) number]
    split at hint <;> omega

/-- Only long binary numbers do not fit. -/
theorem numberPrinting_fits_iff (base : ℕ) (hbase : 2 ≤ base ∧ base ≤ 16) :
    (∀ number : BitVec 32,
      (utoaPadW number base 0 false).isSome ↔ base ≠ 2 ∨ number.toNat < 2 ^ 26) ∧
    (∀ number : BitVec 32, (itoaPadW number base 0 false).isSome ↔
      base ≠ 2 ∨ -2 ^ 25 < number.toInt ∧ number.toInt < 2 ^ 26) :=
  ⟨fun number => utoaPad_fits_iff number hbase,fun number => itoaPad_fits_iff number hbase⟩

theorem numberPrinting_fits_iff_binary :
    (utoaPadW 0x3FFFFFF 2 0 false).isSome ∧ ¬(itoaPadW (-0x2000000) 2 0 false).isSome :=
  ⟨((numberPrinting_fits_iff 2 (by decide)).1 _).mpr (by decide),
    fun h => absurd (((numberPrinting_fits_iff 2 (by decide)).2 _).mp h) (by decide)⟩

/-- A number of twenty-seven binary digits overruns the pad. -/
theorem numberPrinting_binary_overrun :
    ¬∀ (number : BitVec 32) (base : ℕ), 2 ≤ base → base ≤ 16 →
      (utoaPadW number base 0 false).isSome ∧ (itoaPadW number base 0 false).isSome := by
  intro h
  have hfits := (h 0x4000000 2 (by decide) (by decide)).1
  have hnone : utoaPadW 0x4000000 2 0 false = none := rfl
  rw [hnone] at hfits
  exact absurd hfits (by decide)

/-! ## Widths that are reached -/

/-- The estimate of the separators reaches a width where it does not fall short of them. -/
theorem filledNumber_length_iff {number base minwidth : ℕ} (hmin : minwidth < 2 ^ 32) :
    (filledNumber number base minwidth).length =
        max minwidth (max 1 (Nat.digits base number).length) ↔
      minwidth ≤ max 1 (Nat.digits base number).length ∨
        (minwidth - 2) / 4 ≤ minwidth / 5 := by
  have hwrap : (minwidth + minwidth / 5) % 2 ^ 32 = minwidth + minwidth / 5 ∨
      (minwidth + minwidth / 5) % 2 ^ 32 = minwidth + minwidth / 5 - 2 ^ 32 ∧
        2 ^ 32 ≤ minwidth + minwidth / 5 := by omega
  rw [filledNumber,List.length_append,List.length_replicate,numberDigits_length]
  unfold leadingZeros filledDigits
  omega

/-- A number printed with zeros has digits and separators only, and a digit in front. Its digits
are as many as asked for at the widths whose separators the fill loop does not underestimate. -/
theorem utoaPadW_digitCount_iff (number : BitVec 32) {base : ℕ} (hbase : 2 ≤ base ∧ base ≤ 16)
    (minwidth : BitVec 32) {pad : Pad}
    (hpad : utoaPadW number base minwidth.toNat true = some pad) :
    ((pad.chars.filter (· ≠ '_')).length =
        max minwidth.toNat (max 1 (Nat.digits base number.toNat).length) ∧
      (∀ c ∈ pad.chars, c ≠ '_' → charToDigit c < base) ∧ pad.chars.head? ≠ some '_') ↔
    minwidth.toNat ≤ max 1 (Nat.digits base number.toNat).length ∨
      (minwidth.toNat - 2) / 4 ≤ minwidth.toNat / 5 := by
  rw [utoaPadW_zeros number hbase] at hpad
  have hsep : '_' ∉ filledNumber number.toNat base minwidth.toNat := by
    intro hc
    obtain ⟨d,hd,heq⟩ := filledNumber_digit hbase.1 hc
    exact digitToChar_ne_separator d (by omega) heq.symm
  have hdigits : ∀ c ∈ grouped '_' 4 (filledNumber number.toNat base minwidth.toNat),
      c ≠ '_' → charToDigit c < base := by
    intro c hc hne
    obtain ⟨d,hd,rfl⟩ := filledNumber_digit hbase.1 ((mem_grouped hc).resolve_left hne)
    rw [charToDigit_digitToChar d (by omega)]
    exact hd
  have hhead : (grouped '_' 4 (filledNumber number.toNat base minwidth.toNat)).head? ≠
      some '_' := by
    rw [grouped_head]
    exact fun heq => hsep (List.mem_of_head? heq)
  rw [padOf_eq_some hpad,filter_grouped 4 hsep,filledNumber_length_iff minwidth.isLt]
  exact ⟨fun h => h.1,fun h => ⟨h,hdigits,hhead⟩⟩

theorem utoaPadW_digitCount_iff_hex :
    ∃ pad : Pad, utoaPadW 0xBEEF 16 (5 : BitVec 32).toNat true = some pad ∧
      (pad.chars.filter (· ≠ '_')).length =
        max (5 : BitVec 32).toNat (max 1 (Nat.digits 16 (0xBEEF : BitVec 32).toNat).length) :=
  ⟨_,rfl,((utoaPadW_digitCount_iff 0xBEEF (by decide : 2 ≤ 16 ∧ 16 ≤ 16) 5 rfl).mpr
    (.inr (by decide))).1⟩

/-- Fourteen digits are asked for and thirteen are printed. -/
theorem utoaPadW_digitCount_short :
    ¬∀ (number : BitVec 32) (base : ℕ) (minwidth : BitVec 32) (pad : Pad),
      2 ≤ base → base ≤ 16 → utoaPadW number base minwidth.toNat true = some pad →
      (pad.chars.filter (· ≠ '_')).length =
        max minwidth.toNat (max 1 (Nat.digits base number.toNat).length) ∧
      pad.chars.head? ≠ some '_' := by
  intro h
  have hprinted : (utoaPadW 0 16 (14 : BitVec 32).toNat true).map
      (fun pad => (pad.chars.filter (· ≠ '_')).length) = some 13 := rfl
  obtain ⟨pad,hpad,hthirteen⟩ := Option.map_eq_some_iff.mp hprinted
  have hcount := (h 0 16 14 pad (by decide) (by decide) hpad).1
  rw [hthirteen] at hcount
  simp at hcount

end TwMonitor.NumberPad
