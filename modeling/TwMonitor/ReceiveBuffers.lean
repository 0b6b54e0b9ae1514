import TwMonitor.BufferOwnership
import TwMonitor.UsartReceive

/-!
# Receive buffers in memory

The queue of a USART with its bytes where its pointer points to. When polling is
switched off the queue is empty, and the reader may start. While the buffers are
owned, a byte that is received changes neither the entries of the store nor the
queue of the other USART.
-/
namespace TwMonitor.UsartDriver
open ByteMemory EntryStore Ownership

/-- The queue that reader and handler work on. -/
def queueIn (m : Memory) (q : UsartIntqueue) : Usart.IntQueue where
  buffer i := m (q.buffer + BitVec.ofNat 32 i)
  len := q.len
  front := q.front
  back := q.back

/-- `struct usart_driver_state` at an address, the queue in its first eight bytes. -/
def loadDriverState (m : Memory) (a : Address) : UsartDriverState where
  intqueue :=
    { buffer := load32 m a
      len := m (a + 4)
      front := m (a + 5)
      back := m (a + 6) }
  enableBreak := m (a + 8) != 0
  poll := m (a + 9) != 0

def Board.receiving (b : Board) (p : UsartPeriph) : Usart.UsartDriverState where
  intqueue := queueIn b.store.memory (b.driverStates p).intqueue
  enableBreak := (b.driverStates p).enableBreak
  poll := (b.driverStates p).poll

def Board.setByte (b : Board) (a : Address) (v : BitVec 8) : Board :=
  { b with store := { b.store with memory := store8 b.store.memory a v } }

/-- The byte goes to `buffer[back++]`. -/
def intqueuePutFromIsr (p : UsartPeriph) (b : Board) (byte : BitVec 8) : Board :=
  let q := (b.driverStates p).intqueue
  if q.len = BitVec.ofNat 8 Usart.bufferSize then b
  else
    let b := b.setByte (q.buffer + q.back.setWidth 32) byte
    b.setIntqueue p { q with back := Usart.nextIndex q.back, len := q.len + 1 }

def intqueueGet (p : UsartPeriph) (b : Board) : BitVec 8 × Board :=
  let q := (b.driverStates p).intqueue
  if q.len = 0 then (0,b)
  else
    (b.store.memory (q.buffer + q.front.setWidth 32),
      b.setIntqueue p { q with front := Usart.nextIndex q.front, len := q.len - 1 })

def usartEnableDebugBreak (p : UsartPeriph) (b : Board) (enableBreak : Bool) : Board :=
  b.setDriverState p { b.driverStates p with enableBreak }

/-- The handler, without its message for a break. -/
def usartIsr (p : UsartPeriph) (b : Board) (received : Option (BitVec 8)) : Board :=
  match received with
  | none => b
  | some byte =>
      if (b.driverStates p).enableBreak && byte == Usart.ctrlC then b
      else intqueuePutFromIsr p b byte

/-! ## After a call -/

def UsartCall.periph : UsartCall → UsartPeriph
  | .enable p _ => p
  | .setPolling p _ => p

/-- The other USART has its registers and its driver state as before. -/
def SparesOthers (p : UsartPeriph) (b b' : Board) : Prop :=
  ∀ q ≠ p, b'.driverStates q = b.driverStates q ∧ b'.usarts q = b.usarts q

/-- A driver state that has just been left ready to receive. -/
def UsartDriverState.Fresh (d : UsartDriverState) : Prop :=
  d.intqueue = { buffer := d.intqueue.buffer } ∧ d.poll = false

theorem fresh_of_eq {d : UsartDriverState} {buffer : Address} {enableBreak : Bool}
    (h : d = { intqueue := { buffer }, enableBreak }) : d.Fresh := by
  rw [h]
  exact ⟨rfl,rfl⟩

/-- The interrupt for received bytes is enabled. -/
def Board.Receives (b : Board) (p : UsartPeriph) : Prop :=
  (b.usarts p).control1 &&& usartCr1Rxneie ≠ 0

instance (b : Board) (p : UsartPeriph) : Decidable (b.Receives p) :=
  inferInstanceAs (Decidable (_ ≠ _))

section
variable {stackCeiling : Address} {p : UsartPeriph} {b b' b'' : Board}

theorem SparesOthers.trans (h : SparesOthers p b b') (h' : SparesOthers p b' b'') :
    SparesOthers p b b'' := fun q hq =>
  ⟨(h' q hq).1.trans (h q hq).1,(h' q hq).2.trans (h q hq).2⟩

theorem spares_setDriverState (b : Board) (p : UsartPeriph) (d : UsartDriverState) :
    SparesOthers p b (b.setDriverState p d) := fun _ hq => ⟨Function.update_of_ne hq _ _,rfl⟩

theorem spares_setUsart (b : Board) (p : UsartPeriph) (r : UsartRegisters) :
    SparesOthers p b (b.setUsart p r) := fun _ hq => ⟨rfl,Function.update_of_ne hq _ _⟩

/-- The queue is empty, whether the buffer is an old one or not. -/
theorem intqueueInit_prepares (h : intqueueInit stackCeiling p b = some b') :
    SparesOthers p b b' ∧
      b'.driverStates p = { b.driverStates p with intqueue := { buffer := b'.buffers p } } := by
  unfold intqueueInit at h
  dsimp only at h
  have hset (store : Store) (buffer : Address) :
      let c := ({ b.setIntqueue p {} with store } : Board).setBuffer p buffer
      SparesOthers p b c ∧
        c.driverStates p = { b.driverStates p with intqueue := { buffer := c.buffers p } } := by
    refine ⟨(spares_setDriverState b p _).trans (spares_setDriverState _ p _),?_⟩
    simp [Board.setBuffer,Board.setIntqueue]
  split at h
  · obtain ⟨allocated,-,rfl⟩ := Option.map_eq_some_iff.mp h
    exact hset _ _
  · obtain rfl := Option.some.inj h
    exact hset b.store _

theorem usartSetPolling_off (h : usartSetPolling stackCeiling p b false = some b') :
    SparesOthers p b b' ∧ b'.driverStates p =
      { b.driverStates p with intqueue := { buffer := b'.buffers p }, poll := false } := by
  obtain ⟨c,nvic,hinit,rfl⟩ := usartSetPolling_eq_some h
  obtain ⟨hspares,hstate⟩ := intqueueInit_prepares hinit
  rw [Board.setDriverState_self] at hstate
  refine ⟨?_,hstate⟩
  exact ((spares_setDriverState b p _).trans hspares).trans (spares_setUsart c p _)

theorem usartSetPolling_on (h : usartSetPolling stackCeiling p b true = some b') :
    SparesOthers p b b' ∧ ¬ b'.Receives p := by
  obtain ⟨nvic,-,hpoll⟩ := usartSetPolling_poll stackCeiling p b
  obtain rfl := Option.some.inj (hpoll.symm.trans h)
  have hspares := (spares_setDriverState b p { b.driverStates p with poll := true }).trans
    (spares_setUsart _ p
      { b.usarts p with control1 := (b.usarts p).control1 &&& ~~~usartCr1Rxneie })
  refine ⟨hspares,fun hreceives => absurd ?_ hreceives⟩
  change (Function.update b.usarts p _ p).control1 &&& usartCr1Rxneie = 0
  rw [Function.update_self]
  change _ &&& ~~~usartCr1Rxneie &&& usartCr1Rxneie = 0
  rw [BitVec.and_assoc,BitVec.and_comm (~~~usartCr1Rxneie)]
  simp

theorem usartEnable_off (h : usartEnable stackCeiling p b false = some b') :
    SparesOthers p b b' ∧ ¬ b'.Receives p := by
  change intqueueFree p (b.setControl1 p 0) = some b' at h
  have hsilent : (b.setControl1 p 0).Receives p → False := by
    simp [Board.Receives,Board.setControl1,Board.setUsart]
  unfold intqueueFree at h
  dsimp only at h
  split at h
  · obtain ⟨store,-,rfl⟩ := Option.map_eq_some_iff.mp h
    exact ⟨(spares_setUsart b p _).trans (spares_setDriverState _ p _),hsilent⟩
  · obtain rfl := Option.some.inj h
    exact ⟨spares_setUsart b p _,hsilent⟩

theorem usartEnable_on (h : usartEnable stackCeiling p b true = some b') :
    SparesOthers p b b' ∧ b'.driverStates p = { intqueue := { buffer := b'.buffers p } } := by
  obtain ⟨r,r',vectorTable,c,hpolling,rfl⟩ := usartEnable_eq_some h
  obtain ⟨hspares,hstate⟩ := usartSetPolling_off hpolling
  have hinit := Board.setDriverState_self (b := b) (p := p) usartDriverStateInit
  refine ⟨?_,?_⟩
  · have hbefore := ((spares_setDriverState b p usartDriverStateInit).trans
      (spares_setUsart _ p r)).trans (spares_setUsart _ p r')
    exact (hbefore.trans hspares).trans (spares_setUsart c p _)
  · refine hstate.trans ?_
    change { (b.setDriverState p usartDriverStateInit).driverStates p with
      intqueue := { buffer := c.buffers p }, poll := false } = _
    rw [hinit]
    rfl

/-- The USART has an empty queue, in the buffer it had or in a new one. -/
def Prepared (stackCeiling : Address) (p : UsartPeriph) (b b' : Board) : Prop :=
  (b'.driverStates p).Fresh ∧ (b.buffers p ≠ 0 ∧ Keeps b b' ∨ Allocates stackCeiling p b b')

/-- Whatever the call, only its USART changes, and if that one receives afterwards it
has been prepared for it. -/
theorem UsartCall.prepares {c : UsartCall} (h : c.exec stackCeiling b = some b') :
    SparesOthers c.periph b b' ∧ (b'.Receives c.periph → Prepared stackCeiling c.periph b b') := by
  cases c with
  | enable p on =>
      cases on with
      | true =>
          obtain ⟨hspares,hstate⟩ := usartEnable_on h
          exact ⟨hspares,fun _ => ⟨fresh_of_eq hstate,Or.inr (usartEnable_true_allocates h)⟩⟩
      | false =>
          obtain ⟨hspares,hsilent⟩ := usartEnable_off h
          exact ⟨hspares,fun hreceives => absurd hreceives hsilent⟩
  | setPolling p shouldPoll =>
      cases shouldPoll with
      | true =>
          obtain ⟨hspares,hsilent⟩ := usartSetPolling_on h
          exact ⟨hspares,fun hreceives => absurd hreceives hsilent⟩
      | false =>
          obtain ⟨hspares,hstate⟩ := usartSetPolling_off h
          refine ⟨hspares,fun _ => ⟨fresh_of_eq hstate,?_⟩⟩
          exact (usartSetPolling_cases h).imp_right And.right

end

/-! ## Bytes in memory -/

/-- The same queue, as far as its places go. -/
structure SameQueue (q q' : Usart.IntQueue) : Prop where
  len : q'.len = q.len
  front : q'.front = q.front
  back : q'.back = q.back
  buffer : ∀ i < Usart.bufferSize, q'.buffer i = q.buffer i

section
variable {q q' : Usart.IntQueue} {p : UsartPeriph} {b : Board}

theorem SameQueue.refl (q : Usart.IntQueue) : SameQueue q q := ⟨rfl,rfl,rfl,fun _ _ => rfl⟩

theorem SameQueue.valid (h : SameQueue q q') (hvalid : q.Valid) : q'.Valid := by
  unfold Usart.IntQueue.Valid
  rw [h.len,h.front,h.back]
  exact hvalid

theorem SameQueue.contents (h : SameQueue q q') : q'.contents = q.contents := by
  rw [Usart.IntQueue.contents,h.len,h.front]
  exact BoundedRing.contents_congr (by decide) h.buffer _ _

theorem UsartDriverState.Fresh.valid {d : UsartDriverState} (h : d.Fresh) (m : Memory) :
    (queueIn m d.intqueue).Valid := by
  rw [h.1]
  exact Usart.intqueueInit_valid _

/-- A place of the queue is a byte of its buffer. -/
theorem place_eq_iff {buffer : Address} {i : ℕ} {place : BitVec 8} (hi : i < Usart.bufferSize)
    (hplace : place.toNat < Usart.bufferSize) :
    buffer + BitVec.ofNat 32 i = buffer + place.setWidth 32 ↔ i = place.toNat := by
  unfold Usart.bufferSize at hi hplace
  rw [BitVec.add_right_inj]
  constructor
  · intro h
    have hsame := congrArg BitVec.toNat h
    rw [BitVec.toNat_ofNat,BitVec.toNat_setWidth] at hsame
    omega
  · rintro rfl
    apply BitVec.eq_of_toNat_eq
    rw [BitVec.toNat_ofNat,BitVec.toNat_setWidth]

/-- The handler does in memory what it does to the queue. -/
theorem intqueuePutFromIsr_receiving (hback : (b.driverStates p).intqueue.back.toNat <
    Usart.bufferSize) (byte : BitVec 8) :
    SameQueue (Usart.intqueuePutFromIsr (b.receiving p).intqueue byte)
      ((intqueuePutFromIsr p b byte).receiving p).intqueue := by
  by_cases hfull : (b.driverStates p).intqueue.len = BitVec.ofNat 8 Usart.bufferSize
  · have habstract : Usart.intqueueIsFull (b.receiving p).intqueue = true := beq_iff_eq.mpr hfull
    rw [intqueuePutFromIsr,if_pos hfull,Usart.intqueuePutFromIsr,if_pos habstract]
    exact .refl _
  · have habstract : ¬ Usart.intqueueIsFull (b.receiving p).intqueue = true := fun h =>
      hfull (beq_iff_eq.mp h)
    rw [intqueuePutFromIsr,if_neg hfull,Usart.intqueuePutFromIsr,if_neg habstract]
    unfold Board.receiving
    rw [Board.setIntqueue,Board.setDriverState_self]
    refine ⟨rfl,rfl,rfl,fun i hi => ?_⟩
    change store8 b.store.memory _ byte _ = Function.update (fun i => b.store.memory
      ((b.driverStates p).intqueue.buffer + BitVec.ofNat 32 i))
        (b.driverStates p).intqueue.back.toNat byte i
    by_cases hsame : i = (b.driverStates p).intqueue.back.toNat
    · rw [(place_eq_iff hi hback).mpr hsame,store8_same,hsame,Function.update_self]
    · rw [store8_ne _ _ fun h => hsame ((place_eq_iff hi hback).mp h),
        Function.update_of_ne hsame]

/-- So does the reader. -/
theorem intqueueGet_receiving (hfront : (b.driverStates p).intqueue.front.toNat <
    Usart.bufferSize) :
    (intqueueGet p b).1 = (Usart.intqueueGet (b.receiving p).intqueue).1 ∧
      SameQueue (Usart.intqueueGet (b.receiving p).intqueue).2
        ((intqueueGet p b).2.receiving p).intqueue := by
  by_cases hempty : (b.driverStates p).intqueue.len = 0
  · have habstract : Usart.intqueueIsEmpty (b.receiving p).intqueue = true :=
      beq_iff_eq.mpr hempty
    rw [intqueueGet,if_pos hempty,Usart.intqueueGet,if_pos habstract]
    exact ⟨rfl,.refl _⟩
  · have habstract : ¬ Usart.intqueueIsEmpty (b.receiving p).intqueue = true := fun h =>
      hempty (beq_iff_eq.mp h)
    rw [intqueueGet,if_neg hempty,Usart.intqueueGet,if_neg habstract]
    constructor
    · have hplace := (@place_eq_iff (b.buffers p) _ _ hfront hfront).mpr rfl
      exact congrArg b.store.memory hplace.symm
    · unfold Board.receiving
      rw [Board.setIntqueue,Board.setDriverState_self]
      exact ⟨rfl,rfl,rfl,fun _ _ => rfl⟩

end

/-! ## Bytes of an owner -/

section
variable {stackCeiling : Address} {g : History} {p q : UsartPeriph} {b b' : Board}

/-- The places of a queue are bytes of the block that its USART holds. -/
theorem Custody.owns_places (h : Custody stackCeiling g b) (hexact : Exact (livePtrs g) b.holds)
    (hheld : b.buffers p ≠ 0) :
    ∃ block ∈ g.live, block.ptr = b.buffers p ∧ ∀ i < Usart.bufferSize,
      block.Owns b.store.memory (b.buffers p + BitVec.ofNat 32 i) := by
  have hlive := (hexact.held _).mpr ⟨p,nonNull_eq_some.mpr ⟨hheld,rfl⟩⟩
  obtain ⟨block,hblock,hptr⟩ := List.mem_map.mp hlive
  refine ⟨block,hblock,hptr,fun i hi => ?_⟩
  have hsize := (h.coherent.granted hblock).size
  rw [h.sized block hblock,h.store] at hsize
  change 24 ≤ _ at hsize
  unfold Usart.bufferSize at hi
  rw [Block.Owns,hptr,InRange,BitVec.add_comm,BitVec.add_sub_cancel,BitVec.toNat_ofNat]
  omega

/-- No byte is a place of both queues. -/
theorem Custody.places_apart (h : Custody stackCeiling g b)
    (hexact : Exact (livePtrs g) b.holds) (hpq : p ≠ q) (hp : b.buffers p ≠ 0)
    (hq : b.buffers q ≠ 0) {i j : ℕ} (hi : i < Usart.bufferSize) (hj : j < Usart.bufferSize) :
    b.buffers p + BitVec.ofNat 32 i ≠ b.buffers q + BitVec.ofNat 32 j := by
  obtain ⟨block,hblock,hptr,howns⟩ := h.owns_places hexact hp
  obtain ⟨other,hother,hotherPtr,hotherOwns⟩ := h.owns_places hexact hq
  have hne : block.ptr ≠ other.ptr := by
    rw [hptr,hotherPtr]
    intro hsame
    exact hpq (hexact.apart p q _ (nonNull_eq_some.mpr ⟨hp,rfl⟩)
      (nonNull_eq_some.mpr ⟨hp,hsame.symm⟩))
  have hi' := howns i hi
  have hj' := hotherOwns j hj
  rw [← h.store] at hi' hj'
  intro hsame
  rw [hsame] at hi'
  exact h.coherent.apart_block hblock hother hne hi' hj'

/-- The entries of the store keep their bytes. -/
theorem Custody.setByte (h : Custody stackCeiling g b) {block : Block} (hblock : block ∈ g.live)
    {a : Address} (ha : block.Owns b.store.memory a) (v : BitVec 8) :
    ∃ g', Custody stackCeiling g' (b.setByte a v) ∧ livePtrs g' = livePtrs g := by
  refine ⟨{ g with store := { g.store with memory := store8 b.store.memory a v } },
    ⟨?_,h.coherent.write fun e he x hx => ?_,h.sized⟩,rfl⟩
  · rw [h.store]
    rfl
  · rw [h.store]
    refine store8_ne _ _ ?_
    rintro rfl
    rw [← h.store] at ha
    exact h.coherent.apart_header hblock he ha hx

theorem intqueuePutFromIsr_spares (p : UsartPeriph) (b : Board) (byte : BitVec 8) :
    SparesOthers p b (intqueuePutFromIsr p b byte) := by
  unfold intqueuePutFromIsr
  dsimp only
  split
  · exact fun _ _ => ⟨rfl,rfl⟩
  · exact fun _ hq => ⟨Function.update_of_ne hq _ _,rfl⟩

theorem intqueuePutFromIsr_buffers (p : UsartPeriph) (b : Board) (byte : BitVec 8) :
    (intqueuePutFromIsr p b byte).buffers = b.buffers := by
  unfold intqueuePutFromIsr
  dsimp only
  split
  · rfl
  · rw [Board.setIntqueue_buffers]
    exact Function.update_eq_self p b.buffers

/-- A byte that is received stays inside of the buffer of its USART. -/
theorem Custody.receive (h : Custody stackCeiling g b) (hexact : Exact (livePtrs g) b.holds)
    (hheld : b.buffers p ≠ 0)
    (hback : (b.driverStates p).intqueue.back.toNat < Usart.bufferSize) (byte : BitVec 8) :
    ∃ g', Custody stackCeiling g' (intqueuePutFromIsr p b byte) ∧
      Exact (livePtrs g') (intqueuePutFromIsr p b byte).holds ∧
      ∀ q ≠ p, b.buffers q ≠ 0 → SameQueue (b.receiving q).intqueue
        ((intqueuePutFromIsr p b byte).receiving q).intqueue := by
  have hholds : (intqueuePutFromIsr p b byte).holds = b.holds :=
    congrArg (nonNull ∘ ·) (intqueuePutFromIsr_buffers p b byte)
  rw [hholds]
  have hspares := intqueuePutFromIsr_spares p b byte
  unfold Board.receiving
  by_cases hfull : (b.driverStates p).intqueue.len = BitVec.ofNat 8 Usart.bufferSize
  · rw [intqueuePutFromIsr,if_pos hfull]
    exact ⟨g,h,hexact,fun q _ _ => .refl _⟩
  · rw [intqueuePutFromIsr,if_neg hfull] at hspares ⊢
    have hplace := (@place_eq_iff (b.buffers p) _ _ hback hback).mpr rfl
    obtain ⟨block,hblock,-,howns⟩ := h.owns_places hexact hheld
    have howned := howns _ hback
    rw [hplace] at howned
    obtain ⟨g',hcustody,hlive⟩ := h.setByte hblock howned byte
    refine ⟨g',⟨hcustody.store,hcustody.coherent,hcustody.sized⟩,?_,fun q hq hother => ?_⟩
    · rw [hlive]
      exact hexact
    · rw [(hspares q hq).1]
      refine ⟨rfl,rfl,rfl,fun i hi => store8_ne _ _ ?_⟩
      have hapart := h.places_apart hexact hq hother hheld hi hback
      rwa [hplace] at hapart

end

/-! ## Runs of the driver -/

/-- The driver with its interrupts. Handler and reader take their turns while the
USART receives. A call is one step, without an interrupt in it. -/
inductive DriverStep (stackCeiling : Address) (b : Board) : Board → Prop
  | call {c : UsartCall} {b' : Board} : c.Careful b → c.exec stackCeiling b = some b' →
      DriverStep stackCeiling b b'
  | received {p : UsartPeriph} (received : Option (BitVec 8)) : b.Receives p →
      DriverStep stackCeiling b (usartIsr p b received)
  | taken {p : UsartPeriph} : b.Receives p → DriverStep stackCeiling b (intqueueGet p b).2
  | setBreak (p : UsartPeriph) (enableBreak : Bool) :
      DriverStep stackCeiling b (usartEnableDebugBreak p b enableBreak)

/-- The buffers are owned, and who receives has a queue in one of them. -/
structure Sound (stackCeiling : Address) (b : Board) : Prop where
  custody : ∃ g, Custody stackCeiling g b ∧ Exact (livePtrs g) b.holds
  ready : ∀ p, b.Receives p → b.buffers p ≠ 0 ∧ (b.receiving p).intqueue.Valid

namespace Sound
variable {stackCeiling : Address} {p : UsartPeriph} {b b' : Board}

/-- Steps that change one USART. -/
theorem of_spares (h : Sound stackCeiling b) (hspares : SparesOthers p b b')
    (hcustody : ∃ g, Custody stackCeiling g b' ∧ Exact (livePtrs g) b'.holds)
    (hready : b'.Receives p → b'.buffers p ≠ 0 ∧ (b'.receiving p).intqueue.Valid) :
    Sound stackCeiling b' := by
  refine ⟨hcustody,fun q hreceives => ?_⟩
  by_cases hq : q = p
  · rw [hq] at hreceives ⊢
    exact hready hreceives
  · obtain ⟨hstate,husart⟩ := hspares q hq
    unfold Board.Receives at hreceives
    rw [husart] at hreceives
    obtain ⟨hheld,hvalid⟩ := h.ready q hreceives
    unfold Board.buffers Board.receiving
    rw [hstate]
    exact ⟨hheld,hvalid⟩

theorem call (h : Sound stackCeiling b) {c : UsartCall} (hcareful : c.Careful b)
    (hexec : c.exec stackCeiling b = some b') : Sound stackCeiling b' := by
  obtain ⟨g,hcustody,hexact⟩ := h.custody
  obtain ⟨g',hcustody',hiff⟩ := hcustody.call (hcustody.owned_iff.mpr hexact) hexec
  obtain ⟨hspares,hprepares⟩ := UsartCall.prepares hexec
  have hexact' := hcustody'.owned_iff.mp (hiff.mpr hcareful)
  refine h.of_spares hspares ⟨g',hcustody',hexact'⟩ fun hreceives => ?_
  obtain ⟨hqueue,hbuffer⟩ := hprepares hreceives
  refine ⟨?_,hqueue.valid _⟩
  rcases hbuffer with ⟨hheld,hkeeps⟩ | halloc
  · rw [hkeeps.2]
    exact hheld
  · obtain ⟨-,-,-,-,hne⟩ := hcustody.grow halloc
    exact hne

theorem received (h : Sound stackCeiling b) (hreceives : b.Receives p)
    (received : Option (BitVec 8)) : Sound stackCeiling (usartIsr p b received) := by
  cases received with
  | none => exact h
  | some byte =>
      unfold usartIsr
      dsimp only
      split
      · exact h
      · obtain ⟨g,hcustody,hexact⟩ := h.custody
        obtain ⟨hheld,hvalid⟩ := h.ready p hreceives
        obtain ⟨g',hcustody',hexact',-⟩ := hcustody.receive hexact hheld hvalid.back_lt byte
        refine h.of_spares (intqueuePutFromIsr_spares p b byte) ⟨g',hcustody',hexact'⟩ fun _ => ?_
        rw [intqueuePutFromIsr_buffers]
        exact ⟨hheld,(intqueuePutFromIsr_receiving hvalid.back_lt byte).valid
          (Usart.intqueuePutFromIsr_valid hvalid byte)⟩

/-- Steps that leave the store and the pointers alone. -/
theorem of_keeps (h : Sound stackCeiling b) (hspares : SparesOthers p b b')
    (hkeeps : Keeps b b') (hreceives : b'.Receives p → b.Receives p)
    (hvalid : (b.receiving p).intqueue.Valid → (b'.receiving p).intqueue.Valid) :
    Sound stackCeiling b' := by
  obtain ⟨g,hcustody,hexact⟩ := h.custody
  obtain ⟨hcustody',hholds⟩ := hcustody.keep hkeeps
  rw [← hholds] at hexact
  refine h.of_spares hspares ⟨g,hcustody',hexact⟩ fun hnow => ?_
  obtain ⟨hheld,hqueue⟩ := h.ready p (hreceives hnow)
  rw [hkeeps.2]
  exact ⟨hheld,hvalid hqueue⟩

theorem taken (h : Sound stackCeiling b) (hreceives : b.Receives p) :
    Sound stackCeiling (intqueueGet p b).2 := by
  refine h.of_keeps (p := p) ?_ ?_ (fun _ => hreceives) fun hvalid => ?_
  · unfold intqueueGet
    dsimp only
    split
    · exact fun _ _ => ⟨rfl,rfl⟩
    · exact spares_setDriverState b p _
  · unfold intqueueGet
    dsimp only
    split
    · exact ⟨rfl,rfl⟩
    · exact ⟨rfl,(Board.setIntqueue_buffers _).trans (Function.update_eq_self p b.buffers)⟩
  · exact (intqueueGet_receiving hvalid.front_lt).2.valid (Usart.intqueueGet_valid hvalid)

theorem setBreak (h : Sound stackCeiling b) (p : UsartPeriph) (enableBreak : Bool) :
    Sound stackCeiling (usartEnableDebugBreak p b enableBreak) := by
  refine h.of_keeps (spares_setDriverState b p _) ⟨rfl,?_⟩ id fun hvalid => ?_
  · exact (Board.setDriverState_buffers _).trans (Function.update_eq_self p b.buffers)
  · unfold usartEnableDebugBreak Board.receiving
    rw [Board.setDriverState_self]
    exact hvalid

theorem step (h : Sound stackCeiling b) (hstep : DriverStep stackCeiling b b') :
    Sound stackCeiling b' := by
  cases hstep with
  | call hcareful hexec => exact h.call hcareful hexec
  | received byte hreceives => exact h.received hreceives byte
  | taken hreceives => exact h.taken hreceives
  | setBreak p enableBreak => exact h.setBreak p enableBreak

theorem run (h : Sound stackCeiling b)
    (hrun : Relation.ReflTransGen (DriverStep stackCeiling) b b') : Sound stackCeiling b' := by
  induction hrun with
  | refl => exact h
  | tail _ hstep ih => exact ih.step hstep

theorem isolated (h : Sound stackCeiling b) :
    Owned stackCeiling b ∧ ∀ p, b.Receives p → ∀ byte,
      ((intqueuePutFromIsr p b byte).receiving p).intqueue.contents =
          (Usart.intqueuePutFromIsr (b.receiving p).intqueue byte).contents ∧
        ∀ q ≠ p, b.Receives q →
          ((intqueuePutFromIsr p b byte).receiving q).intqueue.contents =
            (b.receiving q).intqueue.contents := by
  obtain ⟨g,hcustody,hexact⟩ := h.custody
  refine ⟨hcustody.owned_iff.mpr hexact,fun p hreceives byte => ?_⟩
  obtain ⟨hheld,hvalid⟩ := h.ready p hreceives
  obtain ⟨-,-,-,hothers⟩ := hcustody.receive hexact hheld hvalid.back_lt byte
  refine ⟨(intqueuePutFromIsr_receiving hvalid.back_lt byte).contents,fun q hq hother => ?_⟩
  exact (hothers q hq (h.ready q hother).1).contents

end Sound

section
variable {stackCeiling userStart : Address} {memory : Memory} {s : Store} {start b : Board}

theorem sound_start (hinit : memoryInit stackCeiling userStart memory = some s)
    (hstart : Started s start) (hsilent : ∀ p, ¬ start.Receives p) : Sound stackCeiling start := by
  obtain ⟨hcustody,howned⟩ := custody_start hinit hstart
  exact ⟨⟨_,hcustody,hcustody.owned_iff.mp howned⟩,fun p hreceives => absurd hreceives (hsilent p)⟩

/-- Along every run of calls and interrupts the buffers are owned, and a byte that
arrives at a USART is appended to its own queue, as in the model of the reader, and
to no other. -/
theorem received_isolated (hinit : memoryInit stackCeiling userStart memory = some s)
    (hstart : Started s start) (hsilent : ∀ p, ¬ start.Receives p)
    (hrun : Relation.ReflTransGen (DriverStep stackCeiling) start b) :
    Owned stackCeiling b ∧ ∀ p, b.Receives p → ∀ byte,
      ((intqueuePutFromIsr p b byte).receiving p).intqueue.contents =
          (Usart.intqueuePutFromIsr (b.receiving p).intqueue byte).contents ∧
        ∀ q ≠ p, b.Receives q →
          ((intqueuePutFromIsr p b byte).receiving q).intqueue.contents =
            (b.receiving q).intqueue.contents := by
  exact ((sound_start hinit hstart hsilent).run hrun).isolated

end

/-- Both USARTs are enabled and a byte arrives at each. -/
theorem received_isolated_both : ∃ (s : Store) (b : Board),
    memoryInit 512 1024 (fun _ => 0) = some s ∧
      Relation.ReflTransGen (DriverStep 512) (boardReset s) b ∧
      (b.receiving .usart1).intqueue.contents = [65] ∧
      (b.receiving .usart2).intqueue.contents = [66] ∧ Owned 512 b ∧
      ((intqueuePutFromIsr .usart1 b 67).receiving .usart2).intqueue.contents = [66] := by
  have hinit : memoryInit 512 1024 (fun _ => 0) = some ((memoryInit 512 1024 fun _ => 0).get rfl) :=
    rfl
  have hrun : Relation.ReflTransGen (DriverStep 512)
      (boardReset ((memoryInit 512 1024 fun _ => 0).get rfl)) _ :=
    .tail (.tail (.tail (.tail .refl
      (.call (c := .enable .usart1 true) rfl rfl))
      (.call (c := .enable .usart2 true) rfl rfl))
      (.received (p := .usart1) (some 65) (by decide)))
      (.received (p := .usart2) (some 66) (by decide))
  obtain ⟨howned,hisolated⟩ :=
    received_isolated hinit (boardReset_started _) (fun p h => h (by cases p <;> rfl)) hrun
  have hothers := (hisolated .usart1 (by decide) 67).2 .usart2 (by decide) (by decide)
  exact ⟨_,_,hinit,hrun,rfl,rfl,howned,hothers.trans rfl⟩

end TwMonitor.UsartDriver
