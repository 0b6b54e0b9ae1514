import TwMonitor.ReceiveBuffers

/-!
# The file transfer

The host writes a byte and waits for the reply before the next one: first the
two bytes of the length as they lie in its memory, low byte first, then the
file. The target reads the length and then as many bytes through its receive
queue, and answers each with ACK. The state of its driver and the buffer of the
queue lie in the memory that it stores the bytes in. Two channels that keep
their order connect the two. The messages to the users are left out.
-/
namespace TwMonitor.Transfer
open ByteMemory Usart

def ack : BitVec 8 := 6

inductive Phase where
  | length | file
deriving DecidableEq, Repr

/-! ## The host -/

/-- What `main` has still to write of the length and of the file, and which of
the two the byte belongs to that it waits for. -/
structure Host where
  length : List (BitVec 8)
  file : List (BitVec 8)
  waiting : Option Phase := none
deriving DecidableEq, Repr

/-- The bytes of `len_u16`. -/
def lengthBytes (length : ℕ) : List (BitVec 8) :=
  [(BitVec.ofNat 16 length).extractLsb' 0 8,(BitVec.ofNat 16 length).extractLsb' 8 8]

/-- `main` gives up when the length does not fit. -/
def hostMain (file : List (BitVec 8)) : Option Host :=
  if (BitVec.ofNat 16 file.length).toNat = file.length then
    some { length := lengthBytes file.length, file }
  else none

/-- The first half of `transfer_byte`. -/
def writeByte (h : Host) : Option (BitVec 8 × Host) :=
  match h.waiting,h.length,h.file with
  | none,b::rest,_ => some (b,{ h with length := rest, waiting := some .length })
  | none,[],b::rest => some (b,{ h with file := rest, waiting := some .file })
  | _,_,_ => none

/-- The second half. Without an ACK the rest of the length, or of the file, is
given up; `main` goes on to the file even when the length has failed. -/
def readReply (h : Host) (reply : BitVec 8) : Option Host :=
  match h.waiting with
  | none => none
  | some phase =>
      if reply = ack then some { h with waiting := none }
      else
        match phase with
        | .length => some { h with length := [], waiting := none }
        | .file => some { h with file := [], waiting := none }

/-- The last reply has been read. -/
def Host.Finished (h : Host) : Prop := h.waiting = none ∧ h.length = [] ∧ h.file = []

/-! ## The target -/

/-- Where the target is in `receive_into`. -/
inductive ReceivePoint where
  /-- At `while (len--)`. -/
  | loop
  | getchar
  | ack
  | done
deriving DecidableEq, Repr

/-- `phase` is the call of `receive_into`, `p` and `len` are its variables, which
lie in registers. The call of `usart_getbyte` is at `reading`, and `received` is
the data register. -/
structure Target where
  memory : Memory
  reading : ReadPoint := .idle
  received : Option (BitVec 8) := none
  phase : Phase := .length
  point : ReceivePoint := .loop
  p : Address
  len : BitVec 16 := 2

/-- The driver state at an address, with the bytes that its buffer holds. -/
def driverIn (m : Memory) (state : Address) : UsartDriverState :=
  let d := UsartDriver.loadDriverState m state
  { intqueue := UsartDriver.queueIn m d.intqueue, enableBreak := d.enableBreak, poll := d.poll }

/-- The queue is written to its places: the bytes behind the pointer, and the
indices in the driver state. -/
def storeQueue (m : Memory) (state : Address) (q : IntQueue) : Memory := fun a =>
  if InRange (load32 m state) bufferSize a then q.buffer (a - load32 m state).toNat
  else if a = state + 4 then q.len
  else if a = state + 5 then q.front
  else if a = state + 6 then q.back
  else m a

/-- Where the driver state lies and the variable `len` of `transfer_receive`, and
where the file goes. -/
structure Places where
  driverState : Address
  len : Address
  destination : Address
deriving DecidableEq, Repr

section
variable (places : Places)

/-- What reader and handler work on. -/
def Target.receiver (t : Target) : Receiver where
  driver := driverIn t.memory places.driverState
  point := t.reading
  pending := t.received

/-- After a step of reader or handler. -/
def Target.setReceiver (t : Target) (r : Receiver) : Target :=
  { t with
    memory := storeQueue t.memory places.driverState r.queue
    reading := r.point
    received := r.pending }

/-- `transfer_receive` at its first call of `receive_into`. -/
def targetInit (memory : Memory) : Target := { memory, p := places.len }

/-- `receive_into` returns, and the second call follows the first. -/
def finishCall (t : Target) : Target :=
  match t.phase with
  | .length =>
      { t with
        phase := .file
        p := places.destination
        len := load16 t.memory places.len }
  | .file => { t with point := .done }

/-- `usart1_getchar` is called. -/
def callGetchar (t : Target) (r : Receiver) : Target :=
  { t.setReceiver places r with point := .getchar, len := t.len - 1 }

/-- The byte it has returned is stored at `p++`. -/
def storeByte (t : Target) (r : Receiver) (b : BitVec 8) : Target :=
  { t.setReceiver places r with
    point := .ack
    memory := store8 (t.setReceiver places r).memory t.p b
    p := t.p + 1 }

/-- A step of the target, with the bytes it writes. -/
inductive TargetStep (t : Target) : List (BitVec 8) → Target → Prop
  | driver {event : ReceiveEvent} {r : Receiver} : event.isInternal = true →
      ReceiveStep (t.receiver places) event r → TargetStep t [] (t.setReceiver places r)
  | finish : t.point = .loop → t.len = 0 →
      TargetStep t [] (finishCall places t)
  | getchar {r : Receiver} : t.point = .loop → t.len ≠ 0 →
      ReceiveStep (t.receiver places) .call r → TargetStep t [] (callGetchar places t r)
  | store {b : BitVec 8} {r : Receiver} : t.point = .getchar →
      ReceiveStep (t.receiver places) (.returned b) r → TargetStep t [] (storeByte places t r b)
  | putchar : t.point = .ack → TargetStep t [Transfer.ack] { t with point := .loop }

/-! ## The system -/

structure System where
  host : Host
  wire : List (BitVec 8) := []
  replies : List (BitVec 8) := []
  target : Target

inductive SystemStep (s : System) : System → Prop
  | write {b : BitVec 8} {host : Host} : writeByte s.host = some (b,host) →
      SystemStep s { s with host, wire := s.wire ++ [b] }
  | read {b : BitVec 8} {replies : List (BitVec 8)} {host : Host} : s.replies = b::replies →
      readReply s.host b = some host → SystemStep s { s with host, replies }
  | arrive {b : BitVec 8} {wire : List (BitVec 8)} {r : Receiver} : s.wire = b::wire →
      ReceiveStep (s.target.receiver places) (.arrived b) r →
        SystemStep s { s with wire, target := s.target.setReceiver places r }
  | target {written : List (BitVec 8)} {target : Target} :
      TargetStep places s.target written target →
        SystemStep s { s with target, replies := s.replies ++ written }

/-- The bytes that are on their way to the memory of the target. -/
def System.inTransit (s : System) : List (BitVec 8) :=
  s.target.reading.inHand ++ (driverIn s.target.memory places.driverState).intqueue.contents ++
    s.target.received.toList ++ s.wire

/-- The system before the first step, with no stale byte anywhere. -/
def systemInit (host : Host) (m : Memory) : System :=
  { host, target := targetInit places m }

/-- How many bytes of the file the second call of `receive_into` has stored. -/
def System.stored (s : System) : ℕ :=
  match s.target.phase with
  | .length => 0
  | .file => (s.target.p - places.destination).toNat

end

/-! ## Before a transfer -/

/-- The driver receives by interrupts, with breaks off, and its queue is empty,
wherever it begins. -/
structure Waits (d : UsartDriverState) : Prop where
  valid : d.intqueue.Valid
  empty : d.intqueue.len = 0
  noBreak : d.enableBreak = false
  noPoll : d.poll = false

namespace Places
variable (places : Places) (m : Memory)

/-- The buffer of the queue. -/
def ring : Address := load32 m places.driverState

/-- The bytes that the driver writes: the buffer and the indices. -/
def OfQueue (a : Address) : Prop :=
  InRange (places.ring m) bufferSize a ∨ InRange (places.driverState + 4) 3 a

/-- The bytes that the driver reads. -/
def OfDriver (a : Address) : Prop :=
  InRange (places.ring m) bufferSize a ∨ InRange places.driverState 12 a

/-- The buffer lies outside of the driver state, and neither the variable nor a file of
this length is put over one of them. -/
structure Apart (length : ℕ) : Prop where
  ring : ∀ a, InRange (places.ring m) bufferSize a → ¬ InRange places.driverState 12 a
  len : ∀ a, InRange places.len 2 a → ¬ places.OfDriver m a
  file : ∀ a, InRange places.destination length a → ¬ places.OfDriver m a

end Places

end TwMonitor.Transfer
