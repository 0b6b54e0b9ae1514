import Mathlib.Data.BitVec
import TwMonitor.BoundedRing

/-!
# The receive queue of the USART driver

The interrupt handler puts the bytes it receives into a ring, and the reader
takes them out. The three indices are 8-bit. `buffer` is what the pointer of the
queue points to; only its first places belong to the queue.
-/
namespace TwMonitor.Usart
open BoundedRing

def bufferSize : ℕ := 24

structure IntQueue where
  buffer : ℕ → BitVec 8
  len : BitVec 8 := 0
  front : BitVec 8 := 0
  back : BitVec 8 := 0

structure UsartDriverState where
  intqueue : IntQueue
  enableBreak : Bool := false
  poll : Bool := true

def intqueueInit (buffer : ℕ → BitVec 8) : IntQueue := { buffer }

def intqueueIsEmpty (q : IntQueue) : Bool := q.len == 0

def intqueueIsFull (q : IntQueue) : Bool := q.len == BitVec.ofNat 8 bufferSize

/-- `++` and then `%= BUFFER_SIZE`. -/
def nextIndex (index : BitVec 8) : BitVec 8 := (index + 1) % BitVec.ofNat 8 bufferSize

/-- The critical section of `intqueue_get`. -/
def takeFront (q : IntQueue) : BitVec 8 × IntQueue :=
  (q.buffer q.front.toNat,{ q with front := nextIndex q.front, len := q.len - 1 })

def intqueueGet (q : IntQueue) : BitVec 8 × IntQueue :=
  if intqueueIsEmpty q then (0,q) else takeFront q

def intqueuePutFromIsr (q : IntQueue) (b : BitVec 8) : IntQueue :=
  if intqueueIsFull q then q
  else
    { q with
      buffer := Function.update q.buffer q.back.toNat b
      back := nextIndex q.back
      len := q.len + 1 }

/-- CTRL-c. -/
def ctrlC : BitVec 8 := 3

/-- The byte is a debug break. -/
def isBreak (d : UsartDriverState) (b : BitVec 8) : Bool := d.enableBreak && b == ctrlC

/-- The interrupt handler, with the byte of the data register when the status has
RXNE. The debug monitor is pended for a break, and nothing is stored. -/
def usartIsr (d : UsartDriverState) (received : Option (BitVec 8)) : UsartDriverState :=
  match received with
  | none => d
  | some b =>
      if isBreak d b then d else { d with intqueue := intqueuePutFromIsr d.intqueue b }

/-! ## The queue as a list -/

namespace IntQueue

def Valid (q : IntQueue) : Prop :=
  BoundedRing.Valid bufferSize q.front.toNat q.len.toNat q.back.toNat

def contents (q : IntQueue) : List (BitVec 8) :=
  BoundedRing.contents bufferSize q.buffer q.front.toNat q.len.toNat

end IntQueue

theorem intqueueInit_valid (buffer : ℕ → BitVec 8) : (intqueueInit buffer).Valid := by
  have hempty : BoundedRing.Valid bufferSize 0 0 0 := ⟨by decide,by decide,by decide⟩
  exact hempty

theorem nextIndex_toNat {index : BitVec 8} (h : index.toNat < bufferSize) :
    (nextIndex index).toNat = (index.toNat + 1) % bufferSize := by
  unfold bufferSize at h
  rw [nextIndex,BitVec.toNat_umod,BitVec.toNat_add]
  change (index.toNat + 1) % 256 % 24 = (index.toNat + 1) % 24
  omega

section
variable {q : IntQueue}

theorem intqueueIsEmpty_iff : intqueueIsEmpty q = true ↔ q.len.toNat = 0 := by
  rw [intqueueIsEmpty,beq_iff_eq]
  constructor
  · intro h
    rw [h]
    rfl
  · intro h
    bv_omega

theorem intqueueIsFull_iff : intqueueIsFull q = true ↔ q.len.toNat = bufferSize := by
  rw [intqueueIsFull,beq_iff_eq]
  unfold bufferSize
  constructor
  · intro h
    rw [h]
    rfl
  · intro h
    bv_omega

theorem contents_eq_nil_iff : q.contents = [] ↔ intqueueIsEmpty q = true := by
  rw [intqueueIsEmpty_iff,← List.length_eq_zero_iff,IntQueue.contents,length_contents]

/-- A byte that finds room is appended. -/
theorem intqueuePutFromIsr_spec (h : q.Valid) (hroom : intqueueIsFull q = false) (b : BitVec 8) :
    (intqueuePutFromIsr q b).Valid ∧
      (intqueuePutFromIsr q b).contents = q.contents ++ [b] := by
  have hlt : q.len.toNat < bufferSize := by
    have hne : q.len.toNat ≠ bufferSize := fun he => by
      rw [intqueueIsFull_iff.mpr he] at hroom
      exact Bool.noConfusion hroom
    exact lt_of_le_of_ne h.len_le hne
  have hlen : (q.len + 1).toNat = q.len.toNat + 1 := by
    unfold bufferSize at hlt
    bv_omega
  rw [intqueuePutFromIsr,if_neg (by rw [hroom]; exact Bool.false_ne_true)]
  constructor
  · change BoundedRing.Valid bufferSize q.front.toNat (q.len + 1).toNat (nextIndex q.back).toNat
    rw [nextIndex_toNat h.back_lt,hlen]
    exact h.push hlt
  · change BoundedRing.contents bufferSize (Function.update q.buffer q.back.toNat b)
      q.front.toNat (q.len + 1).toNat = _
    rw [hlen,h.back_eq]
    exact contents_push q.buffer hlt b

/-- A full queue drops the byte. -/
theorem intqueuePutFromIsr_full (hfull : intqueueIsFull q = true) (b : BitVec 8) :
    intqueuePutFromIsr q b = q := if_pos hfull

theorem intqueuePutFromIsr_valid (h : q.Valid) (b : BitVec 8) :
    (intqueuePutFromIsr q b).Valid := by
  cases hfull : intqueueIsFull q with
  | true =>
      rw [intqueuePutFromIsr_full hfull]
      exact h
  | false => exact (intqueuePutFromIsr_spec h hfull b).1

/-- The critical section removes the oldest byte. -/
theorem takeFront_spec (h : q.Valid) (hsome : intqueueIsEmpty q = false) :
    (takeFront q).2.Valid ∧ q.contents = (takeFront q).1::(takeFront q).2.contents := by
  have hpos : 0 < q.len.toNat := by
    refine Nat.pos_of_ne_zero fun he => ?_
    rw [intqueueIsEmpty_iff.mpr he] at hsome
    exact Bool.noConfusion hsome
  have hlen : (q.len - 1).toNat = q.len.toNat - 1 := by bv_omega
  constructor
  · change BoundedRing.Valid bufferSize (nextIndex q.front).toNat (q.len - 1).toNat q.back.toNat
    rw [nextIndex_toNat h.front_lt,hlen]
    exact h.pop hpos
  · change q.contents = q.buffer q.front.toNat::
      BoundedRing.contents bufferSize q.buffer (nextIndex q.front).toNat (q.len - 1).toNat
    rw [nextIndex_toNat h.front_lt,hlen]
    exact contents_pop q.buffer h.front_lt hpos

theorem intqueueGet_spec (h : q.Valid) (hsome : intqueueIsEmpty q = false) :
    (intqueueGet q).2.Valid ∧ q.contents = (intqueueGet q).1::(intqueueGet q).2.contents := by
  rw [intqueueGet,if_neg (by rw [hsome]; exact Bool.false_ne_true)]
  exact takeFront_spec h hsome

theorem intqueueGet_valid (h : q.Valid) : (intqueueGet q).2.Valid := by
  cases hempty : intqueueIsEmpty q with
  | true =>
      rw [intqueueGet,if_pos hempty]
      exact h
  | false => exact (intqueueGet_spec h hempty).1

end

end TwMonitor.Usart
