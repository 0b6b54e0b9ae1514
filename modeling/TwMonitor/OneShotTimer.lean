import Mathlib.Tactic

/-!
# A timer with a prescaler

The prescaler divides the clock, and the counter counts what is left of it up to the reload
value. The update after that raises a flag, loads the prescaler again and, in one-pulse mode,
stops the timer. So a pulse has the same length every time.
-/
namespace TwMonitor.OneShotTimer

/-- The registers of a basic timer, of which the prescaler and the reload value have 16 bits,
and below them the divider at work. -/
structure Timer where
  control : BitVec 32 := 0
  intEnable : BitVec 32 := 0
  status : BitVec 32 := 0
  prescaler : BitVec 32 := 0
  autoReload : BitVec 32 := 0
  count : BitVec 16 := 0
  loaded : BitVec 16 := 0
  divider : BitVec 16 := 0
deriving DecidableEq, Repr

def counterEnable : BitVec 32 := 1#32 <<< 0

def updateRequestSource : BitVec 32 := 1#32 <<< 2

def onePulseMode : BitVec 32 := 1#32 <<< 3

/-- The flag in the status, the interrupt for it, and the event of the software. -/
def update : BitVec 32 := 1#32 <<< 0

namespace Timer
variable (t : Timer)

def Enabled : Prop := t.control &&& counterEnable ≠ 0

instance : Decidable t.Enabled := inferInstanceAs (Decidable (_ ≠ _))

/-- The interrupt is requested. -/
def Requests : Prop := t.status &&& t.intEnable &&& update ≠ 0

instance : Decidable t.Requests := inferInstanceAs (Decidable (_ ≠ _))

/-- The counter starts again. -/
def restart : Timer := { t with count := 0, divider := 0, loaded := t.prescaler.setWidth 16 }

def overflow : Timer :=
  { t.restart with
    status := t.status ||| update
    control :=
      if t.control &&& onePulseMode ≠ 0 then t.control &&& ~~~counterEnable else t.control }

/-- One period of the clock. -/
def tick : Timer :=
  if ¬t.Enabled then t
  else if t.divider ≠ t.loaded then { t with divider := t.divider + 1 }
  else if t.count ≠ t.autoReload.setWidth 16 then { t with divider := 0, count := t.count + 1 }
  else t.overflow

/-- An update by software raises the flag only without `updateRequestSource`. -/
def writeEventGen (v : BitVec 32) : Timer :=
  if v &&& update = 0 then t
  else if t.control &&& updateRequestSource ≠ 0 then t.restart
  else { t.restart with status := t.status ||| update }

/-- Zeros clear, ones do nothing. -/
def writeStatus (v : BitVec 32) : Timer := { t with status := t.status &&& v }

/-! ## Pulses -/

/-- How long a pulse is. -/
def period : ℕ := (t.loaded.toNat + 1) * ((t.autoReload.setWidth 16).toNat + 1)

def elapsed : ℕ := t.count.toNat * (t.loaded.toNat + 1) + t.divider.toNat

structure Counting : Prop where
  enabled : t.Enabled
  divider : t.divider.toNat ≤ t.loaded.toNat
  count : t.count.toNat ≤ (t.autoReload.setWidth 16).toNat

/-- All but how far the counter is. -/
def settings : Timer := { t with count := 0, divider := 0 }

variable {t}

theorem settings_overflow : t.settings.overflow = t.overflow := rfl

theorem settings_period : t.settings.period = t.period := rfl

theorem period_eq (t : Timer) : t.period =
    (t.autoReload.setWidth 16).toNat * (t.loaded.toNat + 1) + (t.loaded.toNat + 1) := by
  rw [period,Nat.mul_comm]
  exact Nat.succ_mul _ _

theorem Counting.elapsed_lt (h : t.Counting) : t.elapsed < t.period := by
  have hdivider := h.divider
  have hcount := Nat.mul_le_mul_right (t.loaded.toNat + 1) h.count
  rw [period_eq,elapsed]
  omega

theorem tick_of_stopped (h : ¬t.Enabled) : t.tick = t := if_pos h

theorem toNat_succ_of_lt {x y : BitVec 16} (h : x.toNat < y.toNat) :
    (x + 1).toNat = x.toNat + 1 := by
  bv_omega

/-- A tick counts one, or it is the last of the pulse. -/
theorem Counting.tick (h : t.Counting) :
    t.elapsed + 1 < t.period ∧ t.tick.settings = t.settings ∧ t.tick.Counting ∧
        t.tick.elapsed = t.elapsed + 1 ∨
      t.elapsed + 1 = t.period ∧ t.tick = t.overflow := by
  have hdividerLe := h.divider
  have hcountLe := h.count
  have hcounts (hsame : t.tick.settings = t.settings) (hcounting : t.tick.Counting)
      (helapsed : t.tick.elapsed = t.elapsed + 1) : t.elapsed + 1 < t.period := by
    have hlt := hcounting.elapsed_lt
    have hperiod : t.tick.period = t.period := by
      rw [← settings_period,hsame,settings_period]
    rwa [helapsed,hperiod] at hlt
  by_cases hdivider : t.divider = t.loaded
  · by_cases hcount : t.count = t.autoReload.setWidth 16
    · refine Or.inr ⟨?_,?_⟩
      · rw [period_eq,elapsed,hdivider,hcount]
        omega
      · rw [Timer.tick,if_neg (not_not.mpr h.enabled),if_neg (not_not.mpr hdivider),
          if_neg (not_not.mpr hcount)]
    · have hne : t.count.toNat ≠ (t.autoReload.setWidth 16).toNat := fun hsame =>
        hcount (BitVec.eq_of_toNat_eq hsame)
      have hnext : t.tick = { t with divider := 0, count := t.count + 1 } := by
        rw [Timer.tick,if_neg (not_not.mpr h.enabled),if_neg (not_not.mpr hdivider),if_pos hcount]
      have hsucc := toNat_succ_of_lt (lt_of_le_of_ne hcountLe hne)
      have hsame : t.tick.settings = t.settings := by
        rw [hnext]
        rfl
      have hcounting : t.tick.Counting := by
        rw [hnext]
        refine ⟨h.enabled,Nat.zero_le _,?_⟩
        show (t.count + 1).toNat ≤ (t.autoReload.setWidth 16).toNat
        omega
      have helapsed : t.tick.elapsed = t.elapsed + 1 := by
        rw [hnext,elapsed,elapsed,hdivider]
        show (t.count + 1).toNat * (t.loaded.toNat + 1) + 0 = _
        rw [hsucc,Nat.succ_mul]
        omega
      exact Or.inl ⟨hcounts hsame hcounting helapsed,hsame,hcounting,helapsed⟩
  · have hne : t.divider.toNat ≠ t.loaded.toNat := fun hsame =>
      hdivider (BitVec.eq_of_toNat_eq hsame)
    have hnext : t.tick = { t with divider := t.divider + 1 } := by
      rw [Timer.tick,if_neg (not_not.mpr h.enabled),if_pos hdivider]
    have hsucc := toNat_succ_of_lt (lt_of_le_of_ne hdividerLe hne)
    have hsame : t.tick.settings = t.settings := by
      rw [hnext]
      rfl
    have hcounting : t.tick.Counting := by
      rw [hnext]
      refine ⟨h.enabled,?_,h.count⟩
      show (t.divider + 1).toNat ≤ t.loaded.toNat
      omega
    have helapsed : t.tick.elapsed = t.elapsed + 1 := by
      rw [hnext,elapsed,elapsed]
      show t.count.toNat * (t.loaded.toNat + 1) + (t.divider + 1).toNat = _
      rw [hsucc]
      omega
    exact Or.inl ⟨hcounts hsame hcounting helapsed,hsame,hcounting,helapsed⟩

end Timer

end TwMonitor.OneShotTimer
