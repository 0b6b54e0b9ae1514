import TwMonitor.TransferProtocol

/-!
# The driver during a transfer

The receive queue lies in the memory that the file goes to. A step of the driver
changes bytes of the queue only, and stores elsewhere leave the driver as it is.
-/
namespace TwMonitor.Transfer
open ByteMemory Usart

/-! ## The same driver -/

/-- The same driver state, as far as the places of the queue go. -/
structure SameDriver (d d' : UsartDriverState) : Prop where
  queue : UsartDriver.SameQueue d.intqueue d'.intqueue
  enableBreak : d'.enableBreak = d.enableBreak
  poll : d'.poll = d.poll

/-- Two receivers at the same point, with the same driver. -/
structure SameReceiver (r r' : Receiver) : Prop where
  driver : SameDriver r.driver r'.driver
  point : r'.point = r.point
  pending : r'.pending = r.pending

/-- The driver has behaved. It waits for interrupts, and breaks are off. -/
structure Ready (r : Receiver) : Prop where
  history : ∃ events, ReceiveInvariant events r
  noBreak : r.driver.enableBreak = false
  noPoll : r.driver.poll = false

/-- The bytes in the driver, the oldest first. -/
def inDriver (r : Receiver) : List (BitVec 8) :=
  r.point.inHand ++ r.queue.contents ++ r.pending.toList

section
variable {r r' : Receiver} {event : ReceiveEvent}

theorem SameReceiver.inDriver_eq (h : SameReceiver r r') : inDriver r' = inDriver r := by
  have hcontents : r'.queue.contents = r.queue.contents := h.driver.queue.contents
  rw [inDriver,inDriver,h.point,h.pending,hcontents]

theorem SameReceiver.invariant (h : SameReceiver r r') {events : List ReceiveEvent}
    (hr : ReceiveInvariant events r) : ReceiveInvariant events r' where
  valid := h.driver.queue.valid hr.valid
  nonempty hpoint := by
    rw [h.point] at hpoint
    have hlen : r'.queue.len = r.queue.len := h.driver.queue.len
    rw [intqueueIsEmpty,hlen]
    exact hr.nonempty hpoint
  history := by
    have hcontents : r'.queue.contents = r.queue.contents := h.driver.queue.contents
    rw [h.point,hcontents]
    exact hr.history

theorem SameReceiver.ready (h : SameReceiver r r') (hr : Ready r) : Ready r' := by
  obtain ⟨events,hevents⟩ := hr.history
  exact ⟨⟨events,h.invariant hevents⟩,h.driver.enableBreak.trans hr.noBreak,
    h.driver.poll.trans hr.noPoll⟩

theorem isBreak_eq_false (h : r.driver.enableBreak = false) (b : BitVec 8) :
    isBreak r.driver b = false := by
  rw [isBreak,h,Bool.false_and]

theorem not_full_of_length (h : r.queue.contents.length < bufferSize) :
    intqueueIsFull r.queue = false := by
  rw [← Bool.not_eq_true,intqueueIsFull_iff]
  rw [IntQueue.contents,BoundedRing.length_contents] at h
  exact h.ne

/-! ## Steps of the driver -/

theorem usartIsr_flags (d : UsartDriverState) (received : Option (BitVec 8)) :
    (usartIsr d received).enableBreak = d.enableBreak ∧ (usartIsr d received).poll = d.poll := by
  cases received with
  | none => exact ⟨rfl,rfl⟩
  | some b =>
      rw [usartIsr]
      split <;> exact ⟨rfl,rfl⟩

theorem mainStep_poll (hr' : mainStep r = some r') : r'.driver.poll = r.driver.poll := by
  cases mainStep_reader hr' <;> rfl

/-- No step switches to polling. -/
theorem receiveStep_poll (hstep : ReceiveStep r event r') : r'.driver.poll = r.driver.poll := by
  cases hstep with
  | main hr' => exact mainStep_poll hr'
  | isr => exact (usartIsr_flags _ _).2
  | _ => rfl

theorem Ready.step (h : Ready r) (hstep : ReceiveStep r event r')
    (hbreak : r'.driver.enableBreak = r.driver.enableBreak) : Ready r' := by
  obtain ⟨events,hevents⟩ := h.history
  exact ⟨⟨_,hstep.invariant hevents⟩,hbreak.trans h.noBreak,
    (receiveStep_poll hstep).trans h.noPoll⟩

/-- What the handler keeps is the whole data register. -/
theorem keptBytes_isrEvent (hbreak : r.driver.enableBreak = false)
    (hroom : intqueueIsFull r.queue = false) : keptBytes [isrEvent r] = r.pending.toList := by
  cases hpending : r.pending with
  | none =>
      rw [isrEvent,hpending]
      rfl
  | some b =>
      rw [isrEvent,hpending,Option.any_some,isBreak_eq_false hbreak]
      change keptBytes [.isr (some b) false (intqueueIsFull r.queue)] = [b]
      rw [hroom]
      rfl

/-- Bytes move on inside of the driver, and none is lost. -/
theorem Ready.internal (h : Ready r) (hroom : intqueueIsFull r.queue = false)
    (hinternal : event.isInternal = true) (hstep : ReceiveStep r event r') :
    Ready r' ∧ inDriver r' = inDriver r ∧ (r'.point = .idle ↔ r.point = .idle) := by
  obtain ⟨events,hevents⟩ := h.history
  have hafter := (hstep.invariant hevents).history
  rw [returnedBytes_append,keptBytes_append,← hevents.history] at hafter
  cases hstep with
  | main hr' =>
      obtain ⟨hpending,hbreak,hbusy,hbusy'⟩ := mainStep_frame hr'
      refine ⟨h.step (.main hr') hbreak,?_,iff_of_false hbusy' hbusy⟩
      have hmoved : r'.point.inHand ++ r'.queue.contents = r.point.inHand ++ r.queue.contents := by
        simpa [returnedBytes,keptBytes] using hafter
      rw [inDriver,inDriver,hmoved,hpending]
  | isr =>
      refine ⟨h.step .isr (usartIsr_flags _ _).1,?_,awake_eq_idle_iff r.point⟩
      rw [returnedBytes_isrEvent,keptBytes_isrEvent h.noBreak hroom] at hafter
      change (isrStep r).point.inHand ++ (isrStep r).queue.contents ++ [] = inDriver r
      simpa [inDriver] using hafter
  | otherInterrupt =>
      refine ⟨h.step .otherInterrupt rfl,?_,awake_eq_idle_iff r.point⟩
      change r.point.awake.inHand ++ r.queue.contents ++ r.pending.toList = inDriver r
      rw [awake_inHand,inDriver]
  | call _ _ => exact Bool.noConfusion hinternal
  | returned _ => exact Bool.noConfusion hinternal
  | arrived b _ => exact Bool.noConfusion hinternal
  | setBreak enableBreak _ => exact Bool.noConfusion hinternal

end

/-! ## The driver in memory -/

section
variable {m m' : Memory} {state : Address}

theorem inRange_place {p : Address} {k i : ℕ} (hi : i < k) (hk : k ≤ 2 ^ 32) :
    InRange p k (p + BitVec.ofNat 32 i) := by
  rw [InRange,BitVec.add_comm,BitVec.add_sub_cancel,BitVec.toNat_ofNat]
  omega

/-- The driver sees only its own bytes. -/
theorem driverIn_congr (hring : ∀ a, InRange (load32 m state) bufferSize a → m' a = m a)
    (hstate : ∀ a, InRange state 12 a → m' a = m a) :
    SameDriver (driverIn m state) (driverIn m' state) := by
  have hbyte {i : ℕ} (hi : i < 12) :
      m' (state + BitVec.ofNat 32 i) = m (state + BitVec.ofNat 32 i) :=
    hstate _ (inRange_place hi (by omega))
  have hpointer : load32 m' state = load32 m state := by
    refine load32_congr fun a ha => hstate a ?_
    unfold InRange at ha ⊢
    omega
  refine ⟨⟨hbyte (i := 4) (by omega),hbyte (i := 5) (by omega),hbyte (i := 6) (by omega),
    fun i hi => ?_⟩,congrArg (· != 0) (hbyte (i := 8) (by omega)),
    congrArg (· != 0) (hbyte (i := 9) (by omega))⟩
  change m' (load32 m' state + BitVec.ofNat 32 i) = m (load32 m state + BitVec.ofNat 32 i)
  rw [hpointer]
  exact hring _ (inRange_place hi (by decide))

theorem storeQueue_frame (q : IntQueue) {a : Address}
    (hring : ¬ InRange (load32 m state) bufferSize a) (hindex : ¬ InRange (state + 4) 3 a) :
    storeQueue m state q a = m a := by
  unfold InRange at hindex
  have hlen : a ≠ state + 4 := by bv_omega
  have hfront : a ≠ state + 5 := by bv_omega
  have hback : a ≠ state + 6 := by bv_omega
  rw [storeQueue,if_neg hring,if_neg hlen,if_neg hfront,if_neg hback]

theorem load32_storeQueue (q : IntQueue)
    (hapart : ∀ a, InRange (load32 m state) bufferSize a → ¬ InRange state 12 a) :
    load32 (storeQueue m state q) state = load32 m state := by
  refine load32_congr fun a ha => storeQueue_frame q (fun hring => hapart a hring ?_) ?_
  · unfold InRange at ha ⊢
    omega
  · unfold InRange at ha ⊢
    bv_omega

/-- What was stored is what the driver sees. -/
theorem driverIn_storeQueue (q : IntQueue)
    (hapart : ∀ a, InRange (load32 m state) bufferSize a → ¬ InRange state 12 a) :
    SameDriver { driverIn m state with intqueue := q }
      (driverIn (storeQueue m state q) state) := by
  have hout {i : ℕ} (hi : i < 12) :
      ¬ InRange (load32 m state) bufferSize (state + BitVec.ofNat 32 i) := fun hring =>
    hapart _ hring (inRange_place hi (by omega))
  have h₄ : ¬ InRange (load32 m state) bufferSize (state + 4) := hout (i := 4) (by omega)
  have h₅ : ¬ InRange (load32 m state) bufferSize (state + 5) := hout (i := 5) (by omega)
  have h₆ : ¬ InRange (load32 m state) bufferSize (state + 6) := hout (i := 6) (by omega)
  have h₈ : ¬ InRange (load32 m state) bufferSize (state + 8) := hout (i := 8) (by omega)
  have h₉ : ¬ InRange (load32 m state) bufferSize (state + 9) := hout (i := 9) (by omega)
  have hlen : storeQueue m state q (state + 4) = q.len := by
    rw [storeQueue,if_neg h₄,if_pos rfl]
  have hfront : storeQueue m state q (state + 5) = q.front := by
    rw [storeQueue,if_neg h₅,if_neg (by bv_omega),if_pos rfl]
  have hback : storeQueue m state q (state + 6) = q.back := by
    rw [storeQueue,if_neg h₆,if_neg (by bv_omega),if_neg (by bv_omega),if_pos rfl]
  have hbreak : storeQueue m state q (state + 8) = m (state + 8) :=
    storeQueue_frame q h₈ (by unfold InRange; bv_omega)
  have hpoll : storeQueue m state q (state + 9) = m (state + 9) :=
    storeQueue_frame q h₉ (by unfold InRange; bv_omega)
  refine ⟨⟨hlen,hfront,hback,fun i hi => ?_⟩,congrArg (· != 0) hbreak,congrArg (· != 0) hpoll⟩
  change storeQueue m state q (load32 (storeQueue m state q) state + BitVec.ofNat 32 i) = _
  rw [load32_storeQueue q hapart,storeQueue,if_pos (inRange_place hi (by decide)),BitVec.add_comm,
    BitVec.add_sub_cancel,BitVec.toNat_ofNat]
  unfold bufferSize at hi
  exact congrArg q.buffer (Nat.mod_eq_of_lt (by omega))

end

end TwMonitor.Transfer
