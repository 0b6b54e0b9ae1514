import TwMonitor.BaudRate
import TwMonitor.EntryStore
import TwMonitor.InterruptControl
import TwMonitor.UsartQueue

/-!
# Enabling the USARTs

The driver states of the two USARTs hold pointers to their receive buffers, which
come from the memory store. The store, the interrupt controller and the vector
table are shared. `none` is a call that fails an assertion, or that finds no room
in the store.
-/
namespace TwMonitor.UsartDriver
open ByteMemory EntryStore InterruptControl

inductive UsartPeriph where
  | usart1
  | usart2
deriving DecidableEq, Repr

/-- The first of `irqs`. -/
def UsartPeriph.irq : UsartPeriph → BitVec 32
  | .usart1 => 37
  | .usart2 => 38

structure UsartIntqueue where
  buffer : Address := 0
  len : BitVec 8 := 0
  front : BitVec 8 := 0
  back : BitVec 8 := 0
deriving DecidableEq, Repr

structure UsartDriverState where
  intqueue : UsartIntqueue := {}
  enableBreak : Bool := false
  poll : Bool := false
deriving DecidableEq, Repr

def usartDriverStateInit : UsartDriverState := { poll := true }

/-- The registers that the calls write. -/
structure UsartRegisters where
  baudRateDiv : BitVec 32 := 0
  control1 : BitVec 32 := 0
deriving DecidableEq, Repr

/-- The handlers that the drivers install, and what a vector has without them. -/
inductive Isr where
  | usartIsr
  | tim10Isr
  | other
deriving DecidableEq, Repr

structure Board where
  store : Store
  nvic : Nvic
  vectorTable : BitVec 32 → Isr
  driverStates : UsartPeriph → UsartDriverState
  usarts : UsartPeriph → UsartRegisters

def usartCr1Ue : BitVec 32 := 1#32 <<< 13

def usartCr1Rxneie : BitVec 32 := 1#32 <<< 5

def usartCr1Te : BitVec 32 := 1#32 <<< 3

def usartCr1Re : BitVec 32 := 1#32 <<< 2

def maxIrq : BitVec 32 := 85

def boardGetSysclockMHz : BitVec 64 := 16000000

/-! ## Fields -/

namespace Board
variable (b : Board) (p : UsartPeriph)

/-- The pointers to the receive buffers. -/
def buffers : UsartPeriph → Address := fun p => (b.driverStates p).intqueue.buffer

def setDriverState (d : UsartDriverState) : Board :=
  { b with driverStates := Function.update b.driverStates p d }

def setIntqueue (q : UsartIntqueue) : Board :=
  b.setDriverState p { b.driverStates p with intqueue := q }

def setBuffer (buffer : Address) : Board :=
  b.setIntqueue p { (b.driverStates p).intqueue with buffer }

def setUsart (r : UsartRegisters) : Board := { b with usarts := Function.update b.usarts p r }

def setControl1 (control1 : BitVec 32) : Board := b.setUsart p { b.usarts p with control1 }

/-- One read of the register and one write. -/
def updateControl1 (f : BitVec 32 → BitVec 32) : Board := b.setControl1 p (f (b.usarts p).control1)

end Board

/-! ## The driver -/

section
variable (stackCeiling : Address) (p : UsartPeriph) (b : Board)

def vectorSetIsrFor (irq : BitVec 32) (isr : Isr) : Option Board :=
  if irq < maxIrq then some { b with vectorTable := Function.update b.vectorTable irq isr }
  else none

/-- The old buffer is used again. -/
def intqueueInit : Option Board :=
  let oldBuffer := b.buffers p
  let b := b.setIntqueue p {}
  if oldBuffer = 0 then
    (memorySysAlloc stackCeiling b.store (BitVec.ofNat 32 Usart.bufferSize)).map fun allocated =>
      { b with store := allocated.2 }.setBuffer p allocated.1
  else some (b.setBuffer p oldBuffer)

def intqueueFree : Option Board :=
  let buffer := b.buffers p
  if buffer ≠ 0 then
    let b := b.setBuffer p 0
    (memorySysFree b.store buffer).map fun store => { b with store }
  else some b

def usartSetPolling (shouldPoll : Bool) : Option Board := do
  let b := b.setDriverState p { b.driverStates p with poll := shouldPoll }
  if (b.driverStates p).poll then
    let nvic ← nvicDisableIrq p.irq b.nvic
    let b := { b with nvic }.updateControl1 p (· &&& ~~~usartCr1Rxneie)
    let nvic ← nvicClearIrq p.irq b.nvic
    some { b with nvic }
  else
    let b ← intqueueInit stackCeiling p b
    let nvic ← nvicEnableIrq p.irq b.nvic
    some ({ b with nvic }.updateControl1 p (· ||| usartCr1Rxneie))

/-- Enabling starts from a new driver state. -/
def usartEnable (enable : Bool) : Option Board :=
  if !enable then intqueueFree p (b.setControl1 p 0)
  else do
    let b := b.setDriverState p usartDriverStateInit
    let b := b.setControl1 p usartCr1Ue
    let baudRateDiv := Usart.calculateBaudrateDividerReg boardGetSysclockMHz 115200
    let b := b.setUsart p { b.usarts p with baudRateDiv }
    let b ← vectorSetIsrFor b p.irq .usartIsr
    let b ← usartSetPolling stackCeiling p b false
    some (b.updateControl1 p (· ||| (usartCr1Te ||| usartCr1Re)))

end

/-! ## Stores and buffers -/

namespace Board
variable {b : Board} {p : UsartPeriph}

@[simp] theorem setDriverState_store (d : UsartDriverState) :
    (b.setDriverState p d).store = b.store := rfl

@[simp] theorem setDriverState_self (d : UsartDriverState) :
    (b.setDriverState p d).driverStates p = d := Function.update_self ..

@[simp] theorem setDriverState_buffers (d : UsartDriverState) :
    (b.setDriverState p d).buffers = Function.update b.buffers p d.intqueue.buffer :=
  Function.comp_update (fun d : UsartDriverState => d.intqueue.buffer) b.driverStates p d

@[simp] theorem setBuffer_store (buffer : Address) : (b.setBuffer p buffer).store = b.store := rfl

@[simp] theorem setBuffer_buffers (buffer : Address) :
    (b.setBuffer p buffer).buffers = Function.update b.buffers p buffer :=
  setDriverState_buffers _

@[simp] theorem setIntqueue_store (q : UsartIntqueue) : (b.setIntqueue p q).store = b.store := rfl

@[simp] theorem setIntqueue_buffers (q : UsartIntqueue) :
    (b.setIntqueue p q).buffers = Function.update b.buffers p q.buffer :=
  setDriverState_buffers _

@[simp] theorem updateControl1_store (f : BitVec 32 → BitVec 32) :
    (b.updateControl1 p f).store = b.store := rfl

@[simp] theorem updateControl1_buffers (f : BitVec 32 → BitVec 32) :
    (b.updateControl1 p f).buffers = b.buffers := rfl

end Board

/-- The store and the pointers are as before. -/
def Keeps (b b' : Board) : Prop := b'.store = b.store ∧ b'.buffers = b.buffers

/-- The USART has a new buffer. -/
def Allocates (stackCeiling : Address) (p : UsartPeriph) (b b' : Board) : Prop :=
  ∃ ptr, memorySysAlloc stackCeiling b.store (BitVec.ofNat 32 Usart.bufferSize) =
      some (ptr,b'.store) ∧
    b'.buffers = Function.update b.buffers p ptr

/-- The USART has given its buffer back. -/
def Frees (p : UsartPeriph) (b b' : Board) : Prop :=
  memorySysFree b.store (b.buffers p) = some b'.store ∧
    b'.buffers = Function.update b.buffers p 0

section
variable {stackCeiling : Address} {p : UsartPeriph} {b b' : Board}

theorem irq_lt (p : UsartPeriph) : p.irq.toNat < 240 := by
  cases p <;> decide

theorem intqueueInit_cases (h : intqueueInit stackCeiling p b = some b') :
    b.buffers p ≠ 0 ∧ Keeps b b' ∨ b.buffers p = 0 ∧ Allocates stackCeiling p b b' := by
  unfold intqueueInit at h
  dsimp only at h
  split at h
  · next hnull =>
      obtain ⟨allocated,halloc,rfl⟩ := Option.map_eq_some_iff.mp h
      refine Or.inr ⟨hnull,allocated.1,halloc,?_⟩
      change ((b.setIntqueue p {}).setBuffer p allocated.1).buffers = _
      simp
  · next hheld =>
      obtain rfl := Option.some.inj h
      exact Or.inl ⟨hheld,by simp,by simp⟩

theorem intqueueFree_cases (h : intqueueFree p b = some b') :
    b.buffers p = 0 ∧ Keeps b b' ∨ b.buffers p ≠ 0 ∧ Frees p b b' := by
  unfold intqueueFree at h
  dsimp only at h
  split at h
  · next hheld =>
      obtain ⟨store,hfree,rfl⟩ := Option.map_eq_some_iff.mp h
      exact Or.inr ⟨hheld,hfree,Board.setBuffer_buffers 0⟩
  · next hnull =>
      obtain rfl := Option.some.inj h
      exact Or.inl ⟨not_not.mp hnull,rfl,rfl⟩

/-- Polling never fails. -/
theorem usartSetPolling_poll (stackCeiling : Address) (p : UsartPeriph) (b : Board) :
    ∃ nvic, nvicClearIrq p.irq b.nvic = some nvic ∧
      usartSetPolling stackCeiling p b true = some
        { (b.setDriverState p { b.driverStates p with poll := true }).updateControl1 p
            (· &&& ~~~usartCr1Rxneie) with nvic } := by
  refine ⟨_,nvicClearIrq_eq (irq_lt p) b.nvic,?_⟩
  unfold usartSetPolling
  dsimp only
  rw [Board.setDriverState_self,if_pos rfl,nvicDisableIrq_eq (irq_lt p)]
  simp only [Option.bind_eq_bind,Option.bind_some]
  rw [nvicClearIrq_eq (irq_lt p)]
  rfl

theorem usartSetPolling_poll_keeps (h : usartSetPolling stackCeiling p b true = some b') :
    Keeps b b' := by
  obtain ⟨nvic,-,hpoll⟩ := usartSetPolling_poll stackCeiling p b
  obtain rfl := Option.some.inj (hpoll.symm.trans h)
  exact ⟨rfl,(Board.setDriverState_buffers _).trans (Function.update_eq_self p b.buffers)⟩

/-- The interrupt stays enabled, and what is pending for either USART is lost. -/
theorem usartSetPolling_poll_nvic (h : usartSetPolling stackCeiling p b true = some b') :
    b'.nvic.enabledIrqs = b.nvic.enabledIrqs ∧
      b'.nvic.pendingIrqs = { irq ∈ b.nvic.pendingIrqs | irq / 32 ≠ 1 } := by
  obtain ⟨nvic,hclear,hpoll⟩ := usartSetPolling_poll stackCeiling p b
  obtain rfl := Option.some.inj (hpoll.symm.trans h)
  have hclears := nvicClearIrq_clears (irq_lt p) b.nvic
  have hregister : p.irq.toNat / 32 = 1 := by cases p <;> decide
  rw [hclear,leaves_some_iff,hregister] at hclears
  exact hclears

/-- Receiving by interrupts starts with a queue. -/
theorem usartSetPolling_eq_some (h : usartSetPolling stackCeiling p b false = some b') :
    ∃ c nvic, intqueueInit stackCeiling p
        (b.setDriverState p { b.driverStates p with poll := false }) = some c ∧
      b' = { c with nvic }.updateControl1 p (· ||| usartCr1Rxneie) := by
  unfold usartSetPolling at h
  dsimp only at h
  rw [Board.setDriverState_self,if_neg Bool.false_ne_true] at h
  obtain ⟨c,hinit,h⟩ := Option.bind_eq_some_iff.mp h
  rw [nvicEnableIrq_eq (irq_lt p)] at h
  exact ⟨c,_,hinit,(Option.some.inj h).symm⟩

theorem usartSetPolling_cases (h : usartSetPolling stackCeiling p b false = some b') :
    b.buffers p ≠ 0 ∧ Keeps b b' ∨ b.buffers p = 0 ∧ Allocates stackCeiling p b b' := by
  obtain ⟨c,nvic,hinit,rfl⟩ := usartSetPolling_eq_some h
  have hbuffers : (b.setDriverState p { b.driverStates p with poll := false }).buffers =
      b.buffers :=
    (Board.setDriverState_buffers _).trans (Function.update_eq_self p b.buffers)
  have hcases := intqueueInit_cases hinit
  unfold Keeps Allocates at hcases ⊢
  rw [hbuffers] at hcases
  exact hcases

theorem usartEnable_false_cases (h : usartEnable stackCeiling p b false = some b') :
    b.buffers p = 0 ∧ Keeps b b' ∨ b.buffers p ≠ 0 ∧ Frees p b b' :=
  @intqueueFree_cases p (b.setControl1 p 0) b' h

/-- Enabling stops polling, from a new driver state. -/
theorem usartEnable_eq_some (h : usartEnable stackCeiling p b true = some b') :
    ∃ r r' vectorTable c, usartSetPolling stackCeiling p
        { ((b.setDriverState p usartDriverStateInit).setUsart p r).setUsart p r' with
          vectorTable } false = some c ∧
      b' = c.updateControl1 p (· ||| (usartCr1Te ||| usartCr1Re)) := by
  unfold usartEnable at h
  rw [Bool.not_true,if_neg Bool.false_ne_true] at h
  obtain ⟨d,hvector,h⟩ := Option.bind_eq_some_iff.mp h
  rw [vectorSetIsrFor,if_pos (by cases p <;> decide)] at hvector
  obtain rfl := Option.some.inj hvector
  obtain ⟨c,hpolling,h⟩ := Option.bind_eq_some_iff.mp h
  exact ⟨_,_,_,c,hpolling,(Option.some.inj h).symm⟩

/-- Whatever the USART has held before. -/
theorem usartEnable_true_allocates (h : usartEnable stackCeiling p b true = some b') :
    Allocates stackCeiling p b b' := by
  obtain ⟨r,r',vectorTable,c,hpolling,rfl⟩ := usartEnable_eq_some h
  have hbuffers := Board.setDriverState_buffers (b := b) (p := p) usartDriverStateInit
  rcases usartSetPolling_cases hpolling with ⟨hheld,-⟩ | ⟨-,ptr,halloc,hnew⟩
  · refine absurd ?_ hheld
    exact (congrFun hbuffers p).trans (Function.update_self ..)
  · refine ⟨ptr,halloc,hnew.trans ?_⟩
    exact (congrArg (Function.update · p ptr) hbuffers).trans (Function.update_idem ..)

end

end TwMonitor.UsartDriver
