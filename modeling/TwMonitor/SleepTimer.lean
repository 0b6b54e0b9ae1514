import TwMonitor.OneShotTimer
import TwMonitor.UsartDriver

/-!
# Sleeping for seconds

The driver sets a timer up for one pulse at a time, and `sleep` starts one for each second
and waits for its interrupt. The timer runs on its own between the steps of the program, and
any other interrupt may wake it up from WFI. A pulse is a little longer than a second.
-/
namespace TwMonitor.SleepTimer
open OneShotTimer Relation

/-- A millisecond for each count. -/
def sleepPrescaler : BitVec 32 := UsartDriver.boardGetSysclockMHz.setWidth 32 / 1000

/-- What the driver writes to the timer that replaces the old one. -/
def stm32f411xceTimerSleepInit (t : Timer) : Timer :=
  let t := { t with intEnable := update }
  let t := { t with prescaler := sleepPrescaler }
  let t := { t with autoReload := 1000 }
  let t := { t with control := onePulseMode ||| updateRequestSource }
  let t := t.writeEventGen update
  t.writeStatus 0

inductive SleepPoint where
  /-- At `while (seconds--)`. -/
  | loop
  | flag
  | enable
  | wfi
  /-- At `while (s_in_sleep)`. -/
  | check
  | done
deriving DecidableEq, Repr

/-- The call and the timer, with the periods of the clock so far, and those of them in which
the timer has been enabled. -/
structure Sleeper where
  timer : Timer
  inSleep : Bool := false
  point : SleepPoint := .loop
  seconds : BitVec 32
  ticks : ℕ := 0
  counted : ℕ := 0
deriving DecidableEq, Repr

def Sleeper.tick (s : Sleeper) : Sleeper :=
  { s with
    timer := s.timer.tick
    ticks := s.ticks + 1
    counted := if s.timer.Enabled then s.counted + 1 else s.counted }

def tim10Isr (s : Sleeper) : Sleeper :=
  { s with timer := s.timer.writeStatus 0, inSleep := false }

/-- The steps of `sleep`, of the timer and of its handler. An interrupt of any kind ends WFI.
Where the handler has run in front of WFI, only another interrupt does. -/
inductive SleepStep (s : Sleeper) : Sleeper → Prop
  | enough : s.point = .loop → s.seconds = 0 →
      SleepStep s { s with point := .done, seconds := s.seconds - 1 }
  | second : s.point = .loop → s.seconds ≠ 0 →
      SleepStep s { s with point := .flag, seconds := s.seconds - 1 }
  | flag : s.point = .flag → SleepStep s { s with point := .enable, inSleep := true }
  | enable : s.point = .enable → SleepStep s
      { s with
        point := .wfi
        timer := { s.timer with control := s.timer.control ||| counterEnable } }
  | wake : s.point = .wfi → SleepStep s { s with point := .check }
  | check : s.point = .check →
      SleepStep s { s with point := if s.inSleep then .wfi else .loop }
  | tick : SleepStep s s.tick
  | isr : s.timer.Requests → SleepStep s (tim10Isr s)

/-! ## The timer -/

/-- Between two pulses. -/
def idleTimer : Timer where
  control := onePulseMode ||| updateRequestSource
  intEnable := update
  prescaler := 16000
  autoReload := 1000
  loaded := 16000

def startedTimer : Timer := { idleTimer with control := idleTimer.control ||| counterEnable }

/-- At the end of a pulse, until the handler runs. -/
def firedTimer : Timer := { idleTimer with status := update }

/-- Of the clock in a pulse. -/
def pulseTicks : ℕ := 16001 * 1001

theorem sleepInit_eq (t : Timer) : stm32f411xceTimerSleepInit t = idleTimer := by
  have hsource : (onePulseMode ||| updateRequestSource) &&& updateRequestSource ≠ 0 := by decide
  have hprescaler : sleepPrescaler = 16000 := by decide
  have hone : update &&& update ≠ 0 := by decide
  have hclear : t.status &&& (0 : BitVec 32) = 0 := BitVec.and_zero
  unfold stm32f411xceTimerSleepInit
  dsimp only
  rw [Timer.writeEventGen,if_neg hone,if_pos hsource,hprescaler,Timer.writeStatus,Timer.restart]
  dsimp only
  rw [hclear]
  rfl

theorem idle_stopped : ¬idleTimer.Enabled := by decide

theorem fired_stopped : ¬firedTimer.Enabled := by decide

/-- The timer has counted this far in its pulse. -/
structure Pulse (elapsed : ℕ) (t : Timer) : Prop where
  settings : t.settings = startedTimer
  counting : t.Counting
  elapsed : t.elapsed = elapsed

section
variable {e : ℕ} {t : Timer}

theorem Pulse.period (h : Pulse e t) : t.period = pulseTicks := by
  rw [← Timer.settings_period,h.settings]
  rfl

theorem pulse_start : Pulse 0 startedTimer := ⟨rfl,⟨by decide,by decide,by decide⟩,rfl⟩

theorem Pulse.elapsed_lt (h : Pulse e t) : e < pulseTicks := by
  have hlt := h.counting.elapsed_lt
  rwa [h.elapsed,h.period] at hlt

theorem Pulse.quiet (h : Pulse e t) : ¬t.Requests := by
  have hstatus : t.status = 0 := congrArg Timer.status h.settings
  rw [Timer.Requests,hstatus]
  simp

theorem Pulse.tick (h : Pulse e t) :
    Pulse (e + 1) t.tick ∨ e + 1 = pulseTicks ∧ t.tick = firedTimer := by
  rcases h.counting.tick with ⟨-,hsame,hcounting,helapsed⟩ | ⟨hlast,hover⟩
  · exact Or.inl ⟨hsame.trans h.settings,hcounting,helapsed.trans (congrArg (· + 1) h.elapsed)⟩
  · rw [h.elapsed,h.period] at hlast
    refine Or.inr ⟨hlast,hover.trans ?_⟩
    rw [← Timer.settings_overflow,h.settings]
    decide

end

/-! ## A call -/

/-- Of the call of `sleep` for `seconds`. -/
def sleepStart (t : Timer) (seconds : BitVec 32) : Sleeper where
  timer := stm32f411xceTimerSleepInit t
  seconds

/-- Where the timer is in the second that the program waits for. -/
inductive Waiting (s : Sleeper) (passed : ℕ) : Prop
  | counting {e : ℕ} : s.inSleep = true → Pulse e s.timer →
      s.counted = pulseTicks * passed + e → Waiting s passed
  | fired : s.inSleep = true → s.timer = firedTimer →
      s.counted = pulseTicks * (passed + 1) → Waiting s passed
  | slept : s.inSleep = false → s.timer = idleTimer →
      s.counted = pulseTicks * (passed + 1) → Waiting s passed

/-- The timer is idle, with the pulses counted. -/
structure Idle (s : Sleeper) (passed : ℕ) : Prop where
  timer : s.timer = idleTimer
  counted : s.counted = pulseTicks * passed

/-- What holds at each point, when `passed` seconds are over. -/
def AtPoint (n : ℕ) (s : Sleeper) : Prop :=
  match s.point with
  | .loop => ∃ passed, passed + s.seconds.toNat = n ∧ Idle s passed
  | .flag => ∃ passed, passed + 1 + s.seconds.toNat = n ∧ Idle s passed
  | .enable => ∃ passed, passed + 1 + s.seconds.toNat = n ∧ Idle s passed ∧ s.inSleep = true
  | .wfi | .check => ∃ passed, passed + 1 + s.seconds.toNat = n ∧ Waiting s passed
  | .done => Idle s n

/-- The count is of periods that have passed. -/
structure SleepInvariant (n : ℕ) (s : Sleeper) : Prop where
  counted : s.counted ≤ s.ticks
  point : AtPoint n s

section
variable {n passed : ℕ} {s s' : Sleeper}

theorem Waiting.tick (h : Waiting s passed) : Waiting s.tick passed := by
  cases h with
  | @counting e hsleep hpulse hcounted =>
      have hnext : s.tick.counted = pulseTicks * passed + (e + 1) := by
        show (if s.timer.Enabled then s.counted + 1 else s.counted) = _
        rw [if_pos hpulse.counting.enabled,hcounted]
        rfl
      rcases hpulse.tick with htick | ⟨hlast,hfired⟩
      · exact .counting hsleep htick hnext
      · rw [hlast] at hnext
        exact .fired hsleep hfired hnext
  | fired hsleep htimer hcounted =>
      have hstopped : ¬s.timer.Enabled := by
        rw [htimer]
        exact fired_stopped
      exact .fired hsleep ((Timer.tick_of_stopped hstopped).trans htimer)
        ((if_neg hstopped).trans hcounted)
  | slept hsleep htimer hcounted =>
      have hstopped : ¬s.timer.Enabled := by
        rw [htimer]
        exact idle_stopped
      exact .slept hsleep ((Timer.tick_of_stopped hstopped).trans htimer)
        ((if_neg hstopped).trans hcounted)

theorem Waiting.isr (h : Waiting s passed) (hrequests : s.timer.Requests) :
    Waiting (tim10Isr s) passed := by
  cases h with
  | counting hsleep hpulse hcounted => exact absurd hrequests hpulse.quiet
  | fired hsleep htimer hcounted =>
      refine .slept rfl ?_ hcounted
      show s.timer.writeStatus 0 = idleTimer
      rw [htimer]
      rfl
  | slept hsleep htimer hcounted =>
      rw [htimer] at hrequests
      exact absurd hrequests (by decide)

/-- The points of the program do not matter. -/
theorem Waiting.congr (h : Waiting s passed) (hsleep : s'.inSleep = s.inSleep)
    (htimer : s'.timer = s.timer) (hcounted : s'.counted = s.counted) : Waiting s' passed := by
  cases h with
  | counting h hpulse hcount =>
      rw [← htimer] at hpulse
      exact .counting (hsleep.trans h) hpulse (hcounted.trans hcount)
  | fired h hfired hcount =>
      exact .fired (hsleep.trans h) (htimer.trans hfired) (hcounted.trans hcount)
  | slept h hidle hcount =>
      exact .slept (hsleep.trans h) (htimer.trans hidle) (hcounted.trans hcount)

theorem Waiting.of_not_inSleep (h : Waiting s passed) (hsleep : s.inSleep = false) :
    Idle s (passed + 1) := by
  cases h with
  | counting hin => exact absurd (hin.symm.trans hsleep) (by decide)
  | fired hin => exact absurd (hin.symm.trans hsleep) (by decide)
  | slept _ hidle hcount => exact ⟨hidle,hcount⟩

theorem Idle.tick (h : Idle s passed) : Idle s.tick passed := by
  have hstopped : ¬s.timer.Enabled := by
    rw [h.timer]
    exact idle_stopped
  exact ⟨(Timer.tick_of_stopped hstopped).trans h.timer,(if_neg hstopped).trans h.counted⟩

theorem Idle.quiet (h : Idle s passed) : ¬s.timer.Requests := by
  rw [h.timer]
  decide

theorem sleepInvariant_start (t : Timer) (seconds : BitVec 32) :
    SleepInvariant seconds.toNat (sleepStart t seconds) :=
  ⟨le_refl 0,0,Nat.zero_add _,sleepInit_eq t,rfl⟩

theorem atPoint_tick (h : AtPoint n s) : AtPoint n s.tick := by
  have hpoint : s.tick.point = s.point := rfl
  unfold AtPoint at h ⊢
  rw [hpoint]
  cases hat : s.point <;> rw [hat] at h
  case loop | flag =>
    obtain ⟨passed,hsum,hidle⟩ := h
    exact ⟨passed,hsum,hidle.tick⟩
  case enable =>
    obtain ⟨passed,hsum,hidle,hsleep⟩ := h
    exact ⟨passed,hsum,hidle.tick,hsleep⟩
  case wfi | check =>
    obtain ⟨passed,hsum,hwaiting⟩ := h
    exact ⟨passed,hsum,hwaiting.tick⟩
  case done => exact Idle.tick h

/-- The handler runs while the program waits for it, and at no other time. -/
theorem atPoint_isr (h : AtPoint n s) (hrequests : s.timer.Requests) :
    AtPoint n (tim10Isr s) := by
  have hpoint : (tim10Isr s).point = s.point := rfl
  unfold AtPoint at h ⊢
  rw [hpoint]
  cases hat : s.point <;> rw [hat] at h
  case loop | flag =>
    obtain ⟨passed,hsum,hidle⟩ := h
    exact absurd hrequests hidle.quiet
  case enable =>
    obtain ⟨passed,hsum,hidle,hsleep⟩ := h
    exact absurd hrequests hidle.quiet
  case wfi | check =>
    obtain ⟨passed,hsum,hwaiting⟩ := h
    exact ⟨passed,hsum,hwaiting.isr hrequests⟩
  case done => exact absurd hrequests (Idle.quiet h)

theorem seconds_pred (h : s.seconds ≠ 0) : (s.seconds - 1).toNat + 1 = s.seconds.toNat := by
  bv_omega

theorem SleepInvariant.step (h : SleepInvariant n s) (hstep : SleepStep s s') :
    SleepInvariant n s' := by
  have hpoint := h.point
  cases hstep with
  | enough hloop hzero =>
      rw [AtPoint,hloop] at hpoint
      obtain ⟨passed,hsum,hidle⟩ := hpoint
      rw [hzero] at hsum
      obtain rfl : passed = n := hsum
      exact ⟨h.counted,hidle.timer,hidle.counted⟩
  | second hloop hmore =>
      rw [AtPoint,hloop] at hpoint
      obtain ⟨passed,hsum,hidle⟩ := hpoint
      refine ⟨h.counted,passed,?_,hidle.timer,hidle.counted⟩
      have hpred := seconds_pred hmore
      show passed + 1 + (s.seconds - 1).toNat = n
      omega
  | flag hflag =>
      rw [AtPoint,hflag] at hpoint
      obtain ⟨passed,hsum,hidle⟩ := hpoint
      exact ⟨h.counted,passed,hsum,⟨hidle.timer,hidle.counted⟩,rfl⟩
  | enable henable =>
      rw [AtPoint,henable] at hpoint
      obtain ⟨passed,hsum,hidle,hsleep⟩ := hpoint
      have hpulse : Pulse 0 { s.timer with control := s.timer.control ||| counterEnable } := by
        rw [hidle.timer]
        exact pulse_start
      exact ⟨h.counted,passed,hsum,.counting hsleep hpulse hidle.counted⟩
  | wake hwfi =>
      rw [AtPoint,hwfi] at hpoint
      obtain ⟨passed,hsum,hwaiting⟩ := hpoint
      exact ⟨h.counted,passed,hsum,hwaiting.congr rfl rfl rfl⟩
  | check hcheck =>
      rw [AtPoint,hcheck] at hpoint
      obtain ⟨passed,hsum,hwaiting⟩ := hpoint
      refine ⟨h.counted,?_⟩
      cases hsleep : s.inSleep with
      | true => exact ⟨passed,hsum,hwaiting.congr hsleep.symm rfl rfl⟩
      | false =>
          obtain ⟨htimer,hcounted⟩ := hwaiting.of_not_inSleep hsleep
          exact ⟨passed + 1,hsum,htimer,hcounted⟩
  | tick =>
      refine ⟨?_,atPoint_tick hpoint⟩
      have hle := h.counted
      show (if s.timer.Enabled then s.counted + 1 else s.counted) ≤ s.ticks + 1
      split <;> omega
  | isr hrequests => exact ⟨h.counted,atPoint_isr hpoint hrequests⟩

/-! ## The call returns -/

def Returns (s : Sleeper) : Prop := ∃ s', ReflTransGen SleepStep s s' ∧ s'.point = .done

theorem Returns.head (hstep : SleepStep s s') (h : Returns s') : Returns s := by
  obtain ⟨t,hrun,hdone⟩ := h
  exact ⟨t,.head hstep hrun,hdone⟩

section
variable {k : BitVec 32} (hnext : ∀ t : Sleeper, t.point = .loop → t.seconds = k →
  Idle t (passed + 1) → Returns t)
include hnext

theorem Idle.returns_check (h : Idle s (passed + 1)) (hsleep : s.inSleep = false)
    (hk : s.seconds = k) (hpoint : s.point = .check) : Returns s := by
  refine Returns.head (.check hpoint) (hnext _ ?_ hk ⟨h.timer,h.counted⟩)
  show (if s.inSleep then SleepPoint.wfi else SleepPoint.loop) = .loop
  rw [hsleep]
  rfl

theorem Idle.returns_slept (h : Idle s (passed + 1)) (hsleep : s.inSleep = false)
    (hk : s.seconds = k) (hpoint : s.point = .wfi ∨ s.point = .check) : Returns s := by
  rcases hpoint with hwfi | hcheck
  · refine Returns.head (.wake hwfi) ?_
    exact Idle.returns_check hnext ⟨h.timer,h.counted⟩ hsleep hk rfl
  · exact h.returns_check hnext hsleep hk hcheck

theorem returns_fired (hsleep : s.inSleep = true) (htimer : s.timer = firedTimer)
    (hcounted : s.counted = pulseTicks * (passed + 1)) (hk : s.seconds = k)
    (hpoint : s.point = .wfi ∨ s.point = .check) : Returns s := by
  have hrequests : s.timer.Requests := by
    rw [htimer]
    decide
  have hwaiting := (Waiting.fired hsleep htimer hcounted).isr hrequests
  refine Returns.head (.isr hrequests) ?_
  exact (hwaiting.of_not_inSleep rfl).returns_slept hnext rfl hk hpoint

/-- The program leaves the loop that waits, when the timer has made its pulse. -/
theorem Waiting.returns (h : Waiting s passed) (hk : s.seconds = k)
    (hpoint : s.point = .wfi ∨ s.point = .check) : Returns s := by
  cases h with
  | @counting e hsleep hpulse hcounted =>
      -- as many ticks as the pulse still takes
      obtain ⟨left,hleft⟩ : ∃ left, e + left = pulseTicks := Nat.le.dest hpulse.elapsed_lt.le
      induction left generalizing s e with
      | zero => exact absurd hpulse.elapsed_lt (by omega)
      | succ left ih =>
          refine Returns.head .tick ?_
          have hnow : s.tick.counted = pulseTicks * passed + (e + 1) := by
            show (if s.timer.Enabled then s.counted + 1 else s.counted) = _
            rw [if_pos hpulse.counting.enabled,hcounted]
            rfl
          rcases hpulse.tick with htick | ⟨hlast,hover⟩
          · exact ih hk hpoint hsleep htick hnow (by omega)
          · rw [hlast] at hnow
            exact returns_fired hnext hsleep hover hnow hk hpoint
  | fired hsleep htimer hcounted => exact returns_fired hnext hsleep htimer hcounted hk hpoint
  | slept hsleep htimer hcounted =>
      exact Idle.returns_slept hnext ⟨htimer,hcounted⟩ hsleep hk hpoint

theorem Idle.returns_enable (h : Idle s passed) (hpoint : s.point = .enable)
    (hsleep : s.inSleep = true) (hk : s.seconds = k) : Returns s := by
  have hpulse : Pulse 0 { s.timer with control := s.timer.control ||| counterEnable } := by
    rw [h.timer]
    exact pulse_start
  have hwaiting : Waiting { s with
      point := .wfi
      timer := { s.timer with control := s.timer.control ||| counterEnable } } passed :=
    .counting hsleep hpulse h.counted
  exact Returns.head (.enable hpoint) (hwaiting.returns hnext hk (Or.inl rfl))

end

theorem Idle.returns (h : Idle s passed) (hpoint : s.point = .loop) : Returns s := by
  obtain ⟨k,hk⟩ : ∃ k, s.seconds.toNat = k := ⟨_,rfl⟩
  induction k generalizing s passed with
  | zero =>
      have hzero : s.seconds = 0 := BitVec.eq_of_toNat_eq hk
      exact Returns.head (.enough hpoint hzero) ⟨_,.refl,rfl⟩
  | succ k ih =>
      have hmore : s.seconds ≠ 0 := by
        intro hzero
        rw [hzero] at hk
        exact absurd hk (Nat.succ_ne_zero k).symm
      have hpred := seconds_pred hmore
      refine Returns.head (.second hpoint hmore) (Returns.head (.flag rfl) ?_)
      refine Idle.returns_enable (fun t hloop hseconds hidle => ih hidle hloop ?_)
        ⟨h.timer,h.counted⟩ rfl rfl rfl
      rw [hseconds]
      show (s.seconds - 1).toNat = k
      omega

theorem SleepInvariant.returns (h : SleepInvariant n s) : Returns s := by
  have hpoint := h.point
  have hnext (passed : ℕ) (t : Sleeper) (hloop : t.point = .loop) (_ : t.seconds = s.seconds)
      (hidle : Idle t (passed + 1)) : Returns t := hidle.returns hloop
  unfold AtPoint at hpoint
  cases hat : s.point <;> rw [hat] at hpoint
  case loop =>
    obtain ⟨passed,-,hidle⟩ := hpoint
    exact hidle.returns hat
  case flag =>
    obtain ⟨passed,-,hidle⟩ := hpoint
    refine Returns.head (.flag hat) ?_
    exact Idle.returns_enable (hnext passed) ⟨hidle.timer,hidle.counted⟩ rfl rfl rfl
  case enable =>
    obtain ⟨passed,-,hidle,hsleep⟩ := hpoint
    exact hidle.returns_enable (hnext passed) hat hsleep rfl
  case wfi =>
    obtain ⟨passed,-,hwaiting⟩ := hpoint
    exact hwaiting.returns (hnext passed) rfl (Or.inl hat)
  case check =>
    obtain ⟨passed,-,hwaiting⟩ := hpoint
    exact hwaiting.returns (hnext passed) rfl (Or.inr hat)
  case done => exact ⟨s,.refl,hat⟩

end

/-- Along every run. -/
theorem sleep_invariant (t : Timer) (seconds : BitVec 32) {s : Sleeper}
    (hrun : ReflTransGen SleepStep (sleepStart t seconds) s) :
    SleepInvariant seconds.toNat s := by
  induction hrun with
  | refl => exact sleepInvariant_start t seconds
  | tail _ hstep ih => exact ih.step hstep

/-- Whatever interrupts come in between, `sleep` can always return, and it returns when the
timer has made a pulse for every second, and not before. The timer is then as the call has
found it. -/
theorem sleep_takes (t : Timer) (seconds : BitVec 32) : Returns (sleepStart t seconds) ∧
    ∀ s, ReflTransGen SleepStep (sleepStart t seconds) s → Returns s ∧
      (s.point = .done →
        s.counted = pulseTicks * seconds.toNat ∧ s.counted ≤ s.ticks ∧ ¬s.timer.Enabled ∧
          s.timer = idleTimer) := by
  refine ⟨(sleepInvariant_start t seconds).returns,fun s hrun => ?_⟩
  have hinvariant := sleep_invariant t seconds hrun
  refine ⟨hinvariant.returns,fun hdone => ?_⟩
  have hpoint := hinvariant.point
  rw [AtPoint,hdone] at hpoint
  refine ⟨hpoint.counted,hinvariant.counted,?_,hpoint.timer⟩
  rw [hpoint.timer]
  exact idle_stopped

/-- A second takes longer than a second. -/
example : UsartDriver.boardGetSysclockMHz.toNat < pulseTicks := by decide

end TwMonitor.SleepTimer
