import TwMonitor.NumberPad

/-!
# The terminal line

The characters in front of the cursor, on its line. A backspace only moves the
cursor, so characters are erased by going back over them, blanking them and going
back again. Every call that erases is kept with the line it was made on. How a
long line wraps is left to the terminal.
-/
namespace TwMonitor.Terminal
open DigitGroups NumberPad

/-- A call of `terminal_erase_last_chars` and the line it finds. -/
structure Erasure where
  line : List Char
  n : ℕ
  deriving DecidableEq

structure Screen where
  line : List Char := []
  erasures : List Erasure := []
  deriving DecidableEq

def Screen.putchar (t : Screen) (c : Char) : Screen :=
  if c = '\x08' then { t with line := t.line.dropLast } else { t with line := t.line ++ [c] }

def Screen.putstring (t : Screen) (s : List Char) : Screen := s.foldl Screen.putchar t

def Screen.putnewline (t : Screen) : Screen := { t with line := [] }

def Screen.vtBlankLastNChars (t : Screen) (n : ℕ) : Screen :=
  ((t.putstring (List.replicate n '\x08')).putstring (List.replicate n ' ')).putstring
    (List.replicate n '\x08')

def Screen.terminalEraseLastChars (t : Screen) (n : ℕ) : Screen :=
  Screen.vtBlankLastNChars { t with erasures := t.erasures ++ [⟨t.line,n⟩] } n

/-- `puthexnumber`, without the terminal. -/
def hexNumber (digitMin : ℕ) (number : BitVec 32) : Option (List Char) :=
  (utoaPadW number 16 digitMin true).map Pad.chars

def Screen.puthexnumber (t : Screen) (digitMin : ℕ) (number : BitVec 32) : Option Screen :=
  (hexNumber digitMin number).map t.putstring

def Screen.puthexword (t : Screen) (word : BitVec 32) : Option Screen :=
  t.puthexnumber 8 word

/-! ## Printing and erasing -/

theorem putstring_text (t : Screen) {s : List Char} (hs : '\x08' ∉ s) :
    t.putstring s = { t with line := t.line ++ s } := by
  induction s generalizing t with
  | nil => simp [Screen.putstring]
  | cons c s ih =>
      simp only [List.mem_cons,not_or] at hs
      have hc : c ≠ '\x08' := fun heq => hs.1 heq.symm
      have hput : t.putchar c = { t with line := t.line ++ [c] } := if_neg hc
      show (t.putchar c).putstring s = _
      rw [ih _ hs.2,hput,List.append_assoc]
      rfl

/-- As many backspaces as characters go back over them. -/
theorem putstring_back (t : Screen) {before shown : List Char} (hline : t.line = before ++ shown) :
    t.putstring (List.replicate shown.length '\x08') = { t with line := before } := by
  induction shown using List.reverseRecOn generalizing t with
  | nil =>
      rw [List.append_nil] at hline
      rw [← hline]
      rfl
  | append_singleton shown c ih =>
      have hput : t.putchar '\x08' = { t with line := before ++ shown } := by
        rw [Screen.putchar,if_pos rfl,hline,← List.append_assoc,List.dropLast_concat]
      rw [List.length_append,List.length_singleton,List.replicate_succ]
      show (t.putchar '\x08').putstring (List.replicate shown.length '\x08') = _
      rw [ih _ (by rw [hput]),hput]

/-- Erasing leaves what stands in front of the erased characters. -/
theorem eraseLastChars_line (t : Screen) {before shown : List Char}
    (hline : t.line = before ++ shown) :
    t.terminalEraseLastChars shown.length =
      ⟨before,t.erasures ++ [⟨t.line,shown.length⟩]⟩ := by
  have hspaces : '\x08' ∉ List.replicate shown.length ' ' := by
    intro hmem
    exact absurd (List.eq_of_mem_replicate hmem) (by decide)
  have hover := @putstring_back { t with erasures := t.erasures ++ [⟨t.line,shown.length⟩] }
    before shown hline
  unfold Screen.terminalEraseLastChars Screen.vtBlankLastNChars
  rw [hover,putstring_text _ hspaces]
  have hback := putstring_back
    ⟨before ++ List.replicate shown.length ' ',t.erasures ++ [⟨t.line,shown.length⟩]⟩ rfl
  rwa [List.length_replicate] at hback

/-! ## Hexadecimal numbers -/

/-- A number as it is printed with so many digits. -/
def hexText (digitMin : ℕ) (number : BitVec 32) : List Char :=
  grouped '_' 4 (filledNumber number.toNat 16 digitMin)

theorem hexNumber_eq {digitMin : ℕ} (h : digitMin ≤ 8) (number : BitVec 32) :
    hexNumber digitMin number = some (hexText digitMin number) := by
  have hbase : 2 ≤ 16 ∧ 16 ≤ 16 := by decide
  obtain ⟨pad,hpad⟩ := utoaPadW_isSome number (⟨by decide,le_rfl,h⟩ : 10 ≤ 16 ∧ 16 ≤ 16 ∧ _) true
  have hchars : pad.chars = hexText digitMin number := by
    rw [utoaPadW_zeros number hbase] at hpad
    exact padOf_eq_some hpad
  rw [hexNumber,hpad,Option.map_some,hchars]

theorem hexText_no_back (digitMin : ℕ) (number : BitVec 32) : '\x08' ∉ hexText digitMin number := by
  intro hmem
  rcases mem_grouped hmem with hsep | hdigit
  · exact absurd hsep (by decide)
  · obtain ⟨d,hd,heq⟩ := filledNumber_digit (by decide) hdigit
    have hno : ∀ d < 16, digitToChar d ≠ '\x08' := by decide
    exact hno d hd heq.symm

theorem puthexnumber_eq (t : Screen) {digitMin : ℕ} (h : digitMin ≤ 8) (number : BitVec 32) :
    t.puthexnumber digitMin number =
      some { t with line := t.line ++ hexText digitMin number } := by
  rw [Screen.puthexnumber,hexNumber_eq h,Option.map_some,
    putstring_text t (hexText_no_back digitMin number)]

theorem puthexword_eq (t : Screen) (word : BitVec 32) :
    t.puthexword word = some { t with line := t.line ++ hexText 8 word } :=
  puthexnumber_eq t le_rfl word

/-- A number below 16^w fills its width, and eight digits have a separator. -/
theorem hexText_length {digitMin : ℕ} (h : digitMin = 2 ∨ digitMin = 4 ∨ digitMin = 8)
    {number : BitVec 32} (hnumber : number.toNat < 16 ^ digitMin) :
    (hexText digitMin number).length = digitMin + if 4 < digitMin then 1 else 0 := by
  have hdigits : (Nat.digits 16 number.toNat).length ≤ digitMin :=
    (Nat.digits_length_le_iff (by decide) _).mpr hnumber
  have hcount := (@filledNumber_length_iff number.toNat 16 digitMin (by omega)).mpr (by omega)
  rw [hexText,grouped_length,hcount]
  unfold groupedLength
  split <;> omega

/-! ## A word at the prompt -/

/-- `gethexword` waits for a key behind the number, or has returned it. -/
inductive HexPrompt where
  | waiting (result : BitVec 32) (t : Screen)
  | returned (result : BitVec 32) (t : Screen)
  deriving DecidableEq

def HexPrompt.screen : HexPrompt → Screen
  | .waiting _ t => t
  | .returned _ t => t

def gethexwordStep : HexPrompt → Key → Option HexPrompt
  | .waiting result t,c =>
      if c = key '\r' then some (.returned result t.putnewline)
      else
        let result := if c = key '\x08' then result >>> 4 else result
        let digit := keyDigit c
        let result := if digit ≠ 0xFF then result <<< 4 ||| BitVec.ofNat 32 digit else result
        ((t.terminalEraseLastChars 9).puthexword result).map (.waiting result)
  | .returned result t,_ => some (.returned result t)

def gethexword (defaultValue : BitVec 32) (t : Screen) (keys : List Key) : Option HexPrompt := do
  let t ← t.puthexword defaultValue
  keys.foldlM gethexwordStep (.waiting defaultValue t)

/-- The erased characters are a number as it was printed, and the cursor returns to where that
number began. -/
def ErasesText (before text : List Char) (e : Erasure) : Prop :=
  e.line = before ++ text ∧ e.n = text.length

/-- The number stands behind the characters that were there before, and no erasure took more or
less than a number. -/
structure ShowsWord (line : List Char) (result : BitVec 32) (t : Screen) : Prop where
  shown : t.line = line ++ hexText 8 result
  erasures : ∀ e ∈ t.erasures, ∃ number, ErasesText line (hexText 8 number) e

def HexPrompt.Shows (line : List Char) : HexPrompt → Prop
  | .waiting result t => ShowsWord line result t
  | .returned _ t => ∀ e ∈ t.erasures, ∃ number, ErasesText line (hexText 8 number) e

theorem hexText_eight (number : BitVec 32) : (hexText 8 number).length = 9 :=
  hexText_length (.inr (.inr rfl)) number.isLt

theorem gethexwordStep_shows {line : List Char} {p : HexPrompt} (hp : p.Shows line) (c : Key) :
    ∃ p', gethexwordStep p c = some p' ∧ p'.Shows line := by
  cases p with
  | returned result t => exact ⟨_,rfl,hp⟩
  | waiting result t =>
      rw [gethexwordStep]
      split
      · exact ⟨_,rfl,hp.erasures⟩
      · have hback := eraseLastChars_line t hp.shown
        rw [hexText_eight] at hback
        simp only [hback,puthexword_eq,Option.map_some]
        refine ⟨_,rfl,rfl,fun e he => ?_⟩
        rcases List.mem_append.mp he with hold | hnew
        · exact hp.erasures e hold
        · rw [List.mem_singleton.mp hnew]
          exact ⟨result,hp.shown,(hexText_eight result).symm⟩

theorem gethexword_shows (defaultValue : BitVec 32) (line : List Char) (keys : List Key) :
    ∃ p, gethexword defaultValue ⟨line,[]⟩ keys = some p ∧ p.Shows line := by
  have hrun (keys : List Key) : ∀ p : HexPrompt, p.Shows line →
      ∃ p', keys.foldlM gethexwordStep p = some p' ∧ p'.Shows line := by
    induction keys with
    | nil => exact fun p hp => ⟨p,rfl,hp⟩
    | cons c keys ih =>
        intro p hp
        obtain ⟨next,hnext,hshows⟩ := gethexwordStep_shows hp c
        rw [List.foldlM_cons,hnext]
        exact ih next hshows
  rw [gethexword,puthexword_eq]
  exact hrun keys _ ⟨rfl,fun e he => absurd he List.not_mem_nil⟩

end TwMonitor.Terminal
