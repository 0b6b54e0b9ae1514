import TwMonitor.UsartReceive

/-!
# Sleeping on a queue that is not empty

The reader tests the queue and then executes WFI. When the handler stores a byte
in between, its interrupt is over by the time of the WFI, and nothing wakes the
reader up: it sleeps with a byte in the queue, until another interrupt occurs.
-/
namespace TwMonitor.Usart

/-- The reader sleeps, there is something to read, and nothing will wake it. -/
def Lost (r : Receiver) : Prop :=
  r.point = .asleep ∧ intqueueIsEmpty r.queue = false ∧ r.pending = none

/-- The handler would store a byte. -/
def stores (r : Receiver) : Bool :=
  r.pending.any fun b => !isBreak r.driver b && !intqueueIsFull r.queue

/-- No byte is stored between the failed test and WFI. -/
def Careful (r : Receiver) (event : ReceiveEvent) : Prop :=
  r.point = .wfi → event = isrEvent r → stores r = false

instance (r : Receiver) (event : ReceiveEvent) : Decidable (Careful r event) :=
  inferInstanceAs (Decidable (r.point = .wfi → event = isrEvent r → stores r = false))

/-- A run of careful steps. -/
inductive CarefulRun (start : Receiver) : List ReceiveEvent → Receiver → Prop
  | start : CarefulRun start [] start
  | step {events : List ReceiveEvent} {r r' : Receiver} {event : ReceiveEvent} :
      CarefulRun start events r → Careful r event → ReceiveStep r event r' →
        CarefulRun start (events ++ [event]) r'

theorem CarefulRun.receiveRun {start r : Receiver} {events : List ReceiveEvent}
    (h : CarefulRun start events r) : ReceiveRun start events r := by
  induction h with
  | start => exact .start
  | step _ _ hstep ih => exact ih.step hstep

section
variable {r r' : Receiver} {event : ReceiveEvent}

/-- A handler that stores nothing leaves the queue alone. -/
theorem isrStep_of_not_stores (h : stores r = false) : (isrStep r).queue = r.queue := by
  unfold stores at h
  change (usartIsr r.driver r.pending).intqueue = r.driver.intqueue
  cases hpending : r.pending with
  | none => rfl
  | some b =>
      rw [hpending,Option.any_some] at h
      cases hbroke : isBreak r.driver b with
      | true => rw [usartIsr,if_pos hbroke]
      | false =>
          have hfull : intqueueIsFull r.driver.intqueue = true := by
            rw [hbroke,Bool.not_false,Bool.true_and,Bool.not_eq_false'] at h
            exact h
          rw [usartIsr,if_neg (by rw [hbroke]; exact Bool.false_ne_true)]
          exact intqueuePutFromIsr_full hfull b

/-- A handler that stores a byte leaves something to read. -/
theorem isrStep_of_stores (hvalid : r.queue.Valid) (h : stores r = true) :
    intqueueIsEmpty (isrStep r).queue = false := by
  have hkept : keptBytes [isrEvent r] ≠ [] := by
    unfold stores at h
    cases hpending : r.pending with
    | none => simp [hpending] at h
    | some b =>
        rw [hpending,Option.any_some,Bool.and_eq_true,Bool.not_eq_true',Bool.not_eq_true'] at h
        rw [isrEvent,hpending,Option.any_some,h.1]
        change keptBytes [.isr (some b) false (intqueueIsFull r.queue)] ≠ []
        rw [h.2]
        exact List.cons_ne_nil b []
  rw [← Bool.not_eq_true,← contents_eq_nil_iff,(isrStep_queue hvalid).2]
  exact List.append_ne_nil_of_right_ne_nil _ hkept

/-- From the failed test on the queue stays empty. -/
def SleepsEmpty (r : Receiver) : Prop :=
  r.point = .wfi ∨ r.point = .asleep → intqueueIsEmpty r.queue = true

theorem awake_ne_asleep (point : ReadPoint) : point.awake ≠ .asleep := by
  cases point <;> simp [ReadPoint.awake]

theorem awake_eq_wfi {point : ReadPoint} (h : point.awake = .wfi) : point = .wfi := by
  rwa [awake_eq (by rw [h]; decide)] at h

theorem SleepsEmpty.main (h : SleepsEmpty r) (hr' : mainStep r = some r') : SleepsEmpty r' := by
  cases mainStep_reader hr' with
  | testEmpty _ hempty => exact fun _ => hempty
  | testReady _ _ => exact fun hp => absurd hp (by simp)
  | getEmpty _ _ => exact fun hp => absurd hp (by simp)
  | getReady _ _ => exact fun hp => absurd hp (by simp)
  | take _ => exact fun hp => absurd hp (by simp)
  | goOn _ _ => exact fun hp => absurd hp (by simp)
  | sleep hpoint _ => exact fun _ => h (Or.inl hpoint)

theorem SleepsEmpty.isr (h : SleepsEmpty r) (hcareful : Careful r (isrEvent r)) :
    SleepsEmpty (isrStep r) := by
  rintro (hwfi | hasleep)
  · have hpoint := awake_eq_wfi hwfi
    rw [isrStep_of_not_stores (hcareful hpoint rfl)]
    exact h (Or.inl hpoint)
  · exact absurd hasleep (awake_ne_asleep r.point)

theorem SleepsEmpty.step (h : SleepsEmpty r) (hcareful : Careful r event)
    (hstep : ReceiveStep r event r') : SleepsEmpty r' := by
  cases hstep with
  | call _ _ => exact fun hp => absurd hp (by simp)
  | main hr' => exact h.main hr'
  | returned _ => exact fun hp => absurd hp (by simp)
  | arrived b _ => exact h
  | isr => exact h.isr hcareful
  | setBreak enableBreak _ => exact h
  | otherInterrupt =>
      rintro (hwfi | hasleep)
      · exact h (Or.inl (awake_eq_wfi hwfi))
      · exact absurd hasleep (awake_ne_asleep r.point)

theorem SleepsEmpty.not_lost (h : SleepsEmpty r) : ¬ Lost r := by
  rintro ⟨hasleep,hsome,_⟩
  rw [h (Or.inr hasleep)] at hsome
  exact Bool.noConfusion hsome

/-- After a careless step the reader only has to go on. -/
theorem lost_of_stores (hvalid : r.queue.Valid) (hwfi : r.point = .wfi) (h : stores r = true) :
    ∃ r', ReceiveStep (isrStep r) .main r' ∧ Lost r' := by
  have hmain : mainStep (isrStep r) = some { isrStep r with point := .asleep } := by
    have hpoint : (isrStep r).point = .wfi := by
      change r.point.awake = .wfi
      rw [hwfi]
      rfl
    rw [mainStep,hpoint]
    rfl
  exact ⟨_,.main hmain,rfl,isrStep_of_stores hvalid h,rfl⟩

end

theorem CarefulRun.sleepsEmpty {start r : Receiver} {events : List ReceiveEvent}
    (hstart : SleepsEmpty start) (h : CarefulRun start events r) : SleepsEmpty r := by
  induction h with
  | start => exact hstart
  | step _ hcareful hstep ih => exact ih.step hcareful hstep

/-- While no byte is stored between a failed test and WFI no wake-up is lost. One
that is stored there is lost with the next step of the reader. -/
theorem no_lost_wakeup {buffer : ℕ → BitVec 8} {enableBreak : Bool} {events : List ReceiveEvent}
    {r : Receiver} (hrun : CarefulRun (receiverInit buffer enableBreak) events r) :
    ¬ Lost r ∧ ∀ event r', ReceiveStep r event r' → ¬ Careful r event →
      ∃ r'', ReceiveStep r' .main r'' ∧ Lost r'' := by
  have hstart : SleepsEmpty (receiverInit buffer enableBreak) := fun _ => rfl
  have hvalid := (hrun.receiveRun.invariant (receiverInit_invariant buffer enableBreak)).valid
  refine ⟨(hrun.sleepsEmpty hstart).not_lost,fun event r' hstep hcareless => ?_⟩
  obtain ⟨hwfi,he,hstores⟩ : r.point = .wfi ∧ event = isrEvent r ∧ ¬ stores r = false := by
    unfold Careful at hcareless
    push Not at hcareless
    exact hcareless
  have hr' : r' = isrStep r := by
    cases hstep with
    | isr => rfl
    | call _ _ => exact ReceiveEvent.noConfusion he
    | main _ => exact ReceiveEvent.noConfusion he
    | returned _ => exact ReceiveEvent.noConfusion he
    | arrived b _ => exact ReceiveEvent.noConfusion he
    | setBreak enableBreak _ => exact ReceiveEvent.noConfusion he
    | otherInterrupt => exact ReceiveEvent.noConfusion he
  rw [hr']
  exact lost_of_stores hvalid hwfi (Bool.eq_true_of_not_eq_false hstores)

/-- The byte arrives while the reader sleeps. -/
theorem no_lost_wakeup_asleep : ∃ events r,
    CarefulRun (receiverInit (fun _ => 0) false) events r ∧
      intqueueIsEmpty r.queue = false ∧ ¬ Lost r := by
  have hrun : CarefulRun (receiverInit (fun _ => 0) false) _ _ :=
    .step (.step (.step (.step (.step .start
      (by decide) (.call rfl rfl)) (by decide) (.main rfl)) (by decide) (.main rfl))
      (by decide) (.arrived 0x41 rfl)) (by decide) .isr
  exact ⟨_,_,hrun,by decide,(no_lost_wakeup hrun).1⟩

/-- The byte arrives after the test. -/
theorem lost_wakeup : ∃ events r,
    ReceiveRun (receiverInit (fun _ => 0) false) events r ∧ Lost r :=
  ⟨_,_,.step (.step (.step (.step (.step .start (.call rfl rfl)) (.main rfl))
    (.arrived 0x41 rfl)) .isr) (.main rfl),rfl,by decide,rfl⟩

end TwMonitor.Usart
