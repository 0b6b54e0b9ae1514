import TwMonitor.UsartQueue

/-!
# Reading bytes under interrupts

The steps of `usart_getbyte` when it does not poll, each with one access to the
queue, and the interrupt handler, which may run between any two of them. The
critical section is one step. A byte in the data register keeps the interrupt
pending until the handler has run.
-/
namespace TwMonitor.Usart
open BoundedRing

/-- Where the main thread is in `usart_getbyte`. -/
inductive ReadPoint where
  | idle
  /-- At the test in the loop. -/
  | test
  /-- In `intqueue_get`, at its own test. -/
  | get
  | take
  | ret (b : BitVec 8)
  /-- The test has failed, and WFI is next. -/
  | wfi
  | asleep
deriving DecidableEq, Repr

structure Receiver where
  driver : UsartDriverState
  point : ReadPoint := .idle
  pending : Option (BitVec 8) := none

/-- After `usart_set_polling(false)`. -/
def receiverInit (buffer : ℕ → BitVec 8) (enableBreak : Bool) : Receiver :=
  { driver := { intqueue := intqueueInit buffer, enableBreak, poll := false } }

def Receiver.queue (r : Receiver) : IntQueue := r.driver.intqueue

/-- A step of the main thread inside of `usart_getbyte`. WFI does not sleep when
an interrupt is pending. -/
def mainStep (r : Receiver) : Option Receiver :=
  match r.point with
  | .test => some { r with point := if intqueueIsEmpty r.queue then .wfi else .get }
  | .get => some { r with point := if intqueueIsEmpty r.queue then .ret 0 else .take }
  | .take =>
      let taken := takeFront r.queue
      some
        { r with
          driver := { r.driver with intqueue := taken.2 }
          point := .ret taken.1 }
  | .wfi => some { r with point := if r.pending.isSome then .test else .asleep }
  | _ => none

/-- Any interrupt ends the sleep, and the loop is taken again. -/
def ReadPoint.awake : ReadPoint → ReadPoint
  | .asleep => .test
  | point => point

/-- The handler runs, with what is in the data register. -/
def isrStep (r : Receiver) : Receiver :=
  { driver := usartIsr r.driver r.pending, point := r.point.awake, pending := none }

inductive ReceiveEvent where
  | call
  | main
  | returned (b : BitVec 8)
  | arrived (b : BitVec 8)
  /-- The handler: the byte it read, and whether it was a break or found the
  queue full. -/
  | isr (received : Option (BitVec 8)) (broke full : Bool)
  | setBreak (enableBreak : Bool)
  | otherInterrupt
deriving DecidableEq, Repr

/-- The event neither enters nor leaves `usart_getbyte`, nor does it concern the
hardware alone. -/
def ReceiveEvent.isInternal : ReceiveEvent → Bool
  | .main => true
  | .isr _ _ _ => true
  | .otherInterrupt => true
  | _ => false

/-- What an interrupt will see. -/
def isrEvent (r : Receiver) : ReceiveEvent :=
  .isr r.pending (r.pending.any (isBreak r.driver)) (r.queue.len == BitVec.ofNat 8 bufferSize)

inductive ReceiveStep (r : Receiver) : ReceiveEvent → Receiver → Prop
  | call : r.point = .idle → r.driver.poll = false →
      ReceiveStep r .call { r with point := .test }
  | main {r' : Receiver} : mainStep r = some r' → ReceiveStep r .main r'
  | returned {b : BitVec 8} : r.point = .ret b →
      ReceiveStep r (.returned b) { r with point := .idle }
  | arrived (b : BitVec 8) : r.pending = none →
      ReceiveStep r (.arrived b) { r with pending := some b }
  | isr : ReceiveStep r (isrEvent r) (isrStep r)
  | setBreak (enableBreak : Bool) : r.point = .idle →
      ReceiveStep r (.setBreak enableBreak) { r with driver := { r.driver with enableBreak } }
  | otherInterrupt : ReceiveStep r .otherInterrupt { r with point := r.point.awake }

/-- A run with what happened in it. -/
inductive ReceiveRun (start : Receiver) : List ReceiveEvent → Receiver → Prop
  | start : ReceiveRun start [] start
  | step {events : List ReceiveEvent} {r r' : Receiver} {event : ReceiveEvent} :
      ReceiveRun start events r → ReceiveStep r event r' →
        ReceiveRun start (events ++ [event]) r'

/-- The bytes that the calls have returned. -/
def returnedBytes (events : List ReceiveEvent) : List (BitVec 8) :=
  events.filterMap fun
    | .returned b => some b
    | _ => none

/-- The bytes that were received, without those consumed as a break and those
that found the queue full. -/
def keptBytes (events : List ReceiveEvent) : List (BitVec 8) :=
  events.filterMap fun
    | .isr (some b) false false => some b
    | _ => none

/-- A byte that has left the queue and is about to be returned. -/
def ReadPoint.inHand : ReadPoint → List (BitVec 8)
  | .ret b => [b]
  | _ => []

/-! ## One step -/

/-- Nothing is lost and nothing is made up. -/
structure ReceiveInvariant (events : List ReceiveEvent) (r : Receiver) : Prop where
  valid : r.queue.Valid
  nonempty : r.point = .get ∨ r.point = .take → intqueueIsEmpty r.queue = false
  history : returnedBytes events ++ r.point.inHand ++ r.queue.contents = keptBytes events

/-- What the main thread does at each point, by what it finds there. -/
inductive ReaderStep (r : Receiver) : Receiver → Prop
  | testEmpty : r.point = .test → intqueueIsEmpty r.queue = true →
      ReaderStep r { r with point := .wfi }
  | testReady : r.point = .test → intqueueIsEmpty r.queue = false →
      ReaderStep r { r with point := .get }
  | getEmpty : r.point = .get → intqueueIsEmpty r.queue = true →
      ReaderStep r { r with point := .ret 0 }
  | getReady : r.point = .get → intqueueIsEmpty r.queue = false →
      ReaderStep r { r with point := .take }
  | take : r.point = .take →
      ReaderStep r
        { r with
          driver := { r.driver with intqueue := (takeFront r.queue).2 }
          point := .ret (takeFront r.queue).1 }
  | goOn : r.point = .wfi → r.pending.isSome = true → ReaderStep r { r with point := .test }
  | sleep : r.point = .wfi → r.pending.isSome = false → ReaderStep r { r with point := .asleep }

section
variable {events : List ReceiveEvent} {r r' : Receiver}

theorem mainStep_reader (hr' : mainStep r = some r') : ReaderStep r r' := by
  unfold mainStep at hr'
  cases hpoint : r.point with
  | idle => simp [hpoint] at hr'
  | ret b => simp [hpoint] at hr'
  | asleep => simp [hpoint] at hr'
  | test =>
      rw [hpoint] at hr'
      obtain rfl := Option.some.inj hr'
      cases hempty : intqueueIsEmpty r.queue with
      | true => exact .testEmpty hpoint hempty
      | false => exact .testReady hpoint hempty
  | get =>
      rw [hpoint] at hr'
      obtain rfl := Option.some.inj hr'
      cases hempty : intqueueIsEmpty r.queue with
      | true => exact .getEmpty hpoint hempty
      | false => exact .getReady hpoint hempty
  | take =>
      rw [hpoint] at hr'
      obtain rfl := Option.some.inj hr'
      exact .take hpoint
  | wfi =>
      rw [hpoint] at hr'
      obtain rfl := Option.some.inj hr'
      cases hpending : r.pending.isSome with
      | true => exact .goOn hpoint hpending
      | false => exact .sleep hpoint hpending

@[simp] theorem returnedBytes_append (es fs : List ReceiveEvent) :
    returnedBytes (es ++ fs) = returnedBytes es ++ returnedBytes fs := List.filterMap_append

@[simp] theorem keptBytes_append (es fs : List ReceiveEvent) :
    keptBytes (es ++ fs) = keptBytes es ++ keptBytes fs := List.filterMap_append

/-- The handler appends what the history says it keeps. -/
theorem isrStep_queue (h : r.queue.Valid) :
    (isrStep r).queue.Valid ∧
      (isrStep r).queue.contents = r.queue.contents ++ keptBytes [isrEvent r] := by
  unfold isrEvent isrStep Receiver.queue
  cases r.pending with
  | none => exact ⟨h,(List.append_nil _).symm⟩
  | some b =>
      rw [Option.any_some]
      cases hbroke : isBreak r.driver b with
      | true =>
          rw [usartIsr,if_pos hbroke]
          exact ⟨h,(List.append_nil _).symm⟩
      | false =>
          rw [usartIsr,if_neg (by rw [hbroke]; exact Bool.false_ne_true)]
          change (intqueuePutFromIsr r.queue b).Valid ∧ (intqueuePutFromIsr r.queue b).contents =
            r.queue.contents ++ keptBytes [.isr (some b) false (intqueueIsFull r.queue)]
          cases hfull : intqueueIsFull r.queue with
          | true =>
              rw [intqueuePutFromIsr_full hfull]
              exact ⟨h,(List.append_nil _).symm⟩
          | false => exact intqueuePutFromIsr_spec h hfull b

/-- The handler never empties the queue. -/
theorem isrStep_nonempty (h : r.queue.Valid) (hsome : intqueueIsEmpty r.queue = false) :
    intqueueIsEmpty (isrStep r).queue = false := by
  rw [← Bool.not_eq_true,← contents_eq_nil_iff] at hsome ⊢
  rw [(isrStep_queue h).2]
  exact List.append_ne_nil_of_left_ne_nil hsome _

theorem returnedBytes_isrEvent (r : Receiver) : returnedBytes [isrEvent r] = [] := rfl

theorem awake_inHand (point : ReadPoint) : point.awake.inHand = point.inHand := by
  cases point <;> rfl

/-- Only the sleep is changed. -/
theorem awake_eq {point : ReadPoint} (h : point.awake ≠ .test) : point.awake = point := by
  cases point with
  | asleep => exact absurd rfl h
  | _ => rfl

theorem awake_reads {point : ReadPoint} (h : point.awake = .get ∨ point.awake = .take) :
    point = .get ∨ point = .take := by
  have hsame : point.awake = point := by
    apply awake_eq
    rcases h with hget | htake
    · rw [hget]
      decide
    · rw [htake]
      decide
  rwa [hsame] at h

theorem ReceiveInvariant.isr (h : ReceiveInvariant events r) :
    ReceiveInvariant (events ++ [isrEvent r]) (isrStep r) where
  valid := (isrStep_queue h.valid).1
  nonempty hpoint := isrStep_nonempty h.valid (h.nonempty (awake_reads hpoint))
  history := by
    rw [returnedBytes_append,returnedBytes_isrEvent,List.append_nil,keptBytes_append,← h.history,
      (isrStep_queue h.valid).2]
    change _ ++ r.point.awake.inHand ++ _ = _
    rw [awake_inHand,List.append_assoc,List.append_assoc,List.append_assoc]

/-- A step that leaves the queue alone. -/
theorem ReceiveInvariant.moves (h : ReceiveInvariant events r) {event : ReceiveEvent}
    (hqueue : r'.queue = r.queue) (hkept : keptBytes [event] = [])
    (hhand : returnedBytes [event] ++ r'.point.inHand = r.point.inHand)
    (hpoint : r'.point = .get ∨ r'.point = .take → intqueueIsEmpty r.queue = false) :
    ReceiveInvariant (events ++ [event]) r' where
  valid := hqueue ▸ h.valid
  nonempty hp := hqueue ▸ hpoint hp
  history := by
    rw [returnedBytes_append,keptBytes_append,hkept,hqueue,List.append_nil,← h.history,← hhand,
      List.append_assoc (returnedBytes events)]

theorem ReceiveInvariant.main (h : ReceiveInvariant events r) (hr' : mainStep r = some r') :
    ReceiveInvariant (events ++ [.main]) r' := by
  cases mainStep_reader hr' with
  | testEmpty hpoint _ => exact h.moves rfl rfl (by rw [hpoint]; rfl) (by simp)
  | testReady hpoint hempty => exact h.moves rfl rfl (by rw [hpoint]; rfl) fun _ => hempty
  | getEmpty hpoint hempty =>
      rw [h.nonempty (Or.inl hpoint)] at hempty
      exact absurd hempty Bool.false_ne_true
  | getReady hpoint hempty => exact h.moves rfl rfl (by rw [hpoint]; rfl) fun _ => hempty
  | goOn hpoint _ => exact h.moves rfl rfl (by rw [hpoint]; rfl) (by simp)
  | sleep hpoint _ => exact h.moves rfl rfl (by rw [hpoint]; rfl) (by simp)
  | take hpoint =>
      obtain ⟨hvalid,hcontents⟩ := takeFront_spec h.valid (h.nonempty (Or.inr hpoint))
      refine ⟨hvalid,by simp,?_⟩
      have hhistory := h.history
      rw [hpoint,hcontents] at hhistory
      rw [returnedBytes_append,keptBytes_append,← hhistory]
      change returnedBytes events ++ [] ++ [(takeFront r.queue).1] ++
          (takeFront r.queue).2.contents =
        returnedBytes events ++ [] ++ ((takeFront r.queue).1::(takeFront r.queue).2.contents) ++ []
      simp

/-- The main thread does not touch the data register, and stays in
`usart_getbyte`. -/
theorem mainStep_frame (hr' : mainStep r = some r') :
    r'.pending = r.pending ∧ r'.driver.enableBreak = r.driver.enableBreak ∧
      r.point ≠ .idle ∧ r'.point ≠ .idle := by
  cases mainStep_reader hr' with
  | testEmpty hpoint _ => exact ⟨rfl,rfl,by simp [hpoint],by simp⟩
  | testReady hpoint _ => exact ⟨rfl,rfl,by simp [hpoint],by simp⟩
  | getEmpty hpoint _ => exact ⟨rfl,rfl,by simp [hpoint],by simp⟩
  | getReady hpoint _ => exact ⟨rfl,rfl,by simp [hpoint],by simp⟩
  | take hpoint => exact ⟨rfl,rfl,by simp [hpoint],by simp⟩
  | goOn hpoint _ => exact ⟨rfl,rfl,by simp [hpoint],by simp⟩
  | sleep hpoint _ => exact ⟨rfl,rfl,by simp [hpoint],by simp⟩

theorem awake_eq_idle_iff (point : ReadPoint) : point.awake = .idle ↔ point = .idle := by
  cases point <;> simp [ReadPoint.awake]

theorem ReceiveStep.invariant {event : ReceiveEvent} (h : ReceiveInvariant events r)
    (hstep : ReceiveStep r event r') : ReceiveInvariant (events ++ [event]) r' := by
  cases hstep with
  | call hidle _ => exact h.moves rfl rfl (by rw [hidle]; rfl) (by simp)
  | main hr' => exact h.main hr'
  | returned hret => exact h.moves rfl rfl (by rw [hret]; rfl) (by simp)
  | arrived b _ => exact h.moves rfl rfl rfl h.nonempty
  | isr => exact h.isr
  | setBreak enableBreak _ => exact h.moves rfl rfl rfl h.nonempty
  | otherInterrupt =>
      exact h.moves rfl rfl (awake_inHand r.point) fun hp => h.nonempty (awake_reads hp)

end

/-! ## Runs -/

theorem receiverInit_invariant (buffer : ℕ → BitVec 8) (enableBreak : Bool) :
    ReceiveInvariant [] (receiverInit buffer enableBreak) where
  valid := intqueueInit_valid buffer
  nonempty := by simp [receiverInit]
  history := rfl

theorem ReceiveRun.invariant {start r : Receiver} {events : List ReceiveEvent}
    (hstart : ReceiveInvariant [] start) (hrun : ReceiveRun start events r) :
    ReceiveInvariant events r := by
  induction hrun with
  | start => exact hstart
  | step _ hstep ih => exact hstep.invariant ih

/-- The ring is a bounded FIFO: its indices stay within bounds, and what the calls
have returned, with the byte in hand and the content of the queue after it, is
what was kept of the bytes received. -/
theorem receive_fifo {buffer : ℕ → BitVec 8} {enableBreak : Bool} {events : List ReceiveEvent}
    {r : Receiver} (hrun : ReceiveRun (receiverInit buffer enableBreak) events r) :
    r.queue.front.toNat < bufferSize ∧ r.queue.back.toNat < bufferSize ∧
      r.queue.len.toNat ≤ bufferSize ∧
      r.queue.back.toNat = (r.queue.front.toNat + r.queue.len.toNat) % bufferSize ∧
      returnedBytes events ++ r.point.inHand ++ r.queue.contents = keptBytes events := by
  have h := hrun.invariant (receiverInit_invariant buffer enableBreak)
  exact ⟨h.valid.front_lt,h.valid.back_lt,h.valid.len_le,h.valid.back_eq,h.history⟩

/-- A byte that arrives while the reader is asleep, and a break after it. -/
theorem receive_fifo_wakes : ∃ events r,
    ReceiveRun (receiverInit (fun _ => 0) true) events r ∧ keptBytes events = [0x41] ∧
      returnedBytes events = [0x41] ∧
      returnedBytes events ++ r.point.inHand ++ r.queue.contents = keptBytes events := by
  have hrun : ReceiveRun (receiverInit (fun _ => 0) true) _ _ :=
    .step (.step (.step (.step (.step (.step (.step (.step (.step (.step (.step .start
      (.call rfl rfl)) (.main rfl)) (.main rfl)) (.arrived 0x41 rfl)) .isr) (.main rfl))
      (.main rfl)) (.main rfl)) (.returned rfl)) (.arrived ctrlC rfl)) .isr
  exact ⟨_,_,hrun,by decide,by decide,(receive_fifo hrun).2.2.2.2⟩

end TwMonitor.Usart
