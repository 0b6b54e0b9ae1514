import TwMonitor.PinConfiguration
import TwMonitor.ReceiveBuffers
import TwMonitor.SleepTimer
import TwMonitor.Startup

/-!
# Initialising the board

All clocks are switched off and those of the peripherals in use on again, two pins are given
to each USART, and both USARTs and the timer are set up. A peripheral without a clock takes no
writes, so the order matters. From a reset the board always comes up, and the drivers run from
a state in which the receive buffers are owned.
-/
namespace TwMonitor.BoardInit
open ByteMemory EntryStore InterruptControl PinConfiguration UsartDriver OneShotTimer SleepTimer
open Ownership

inductive PeriphBus where
  | ahb1 | ahb2 | apb1 | apb2
deriving DecidableEq, Repr

/-- The interrupt is the first of `irqs`. -/
structure Peripheral where
  base : Address
  bus : PeriphBus
  rccIndex : BitVec 32
  irq : BitVec 32 := 0
deriving DecidableEq, Repr

def gPeriphGpioA : Peripheral := { base := 0x40020000, bus := .ahb1, rccIndex := 0 }

def gPeriphGpioB : Peripheral := { base := 0x40020400, bus := .ahb1, rccIndex := 1 }

def gPeriphTim10 : Peripheral := { base := 0x40014400, bus := .apb2, rccIndex := 17, irq := 25 }

/-- The clock enable registers, the ports and timers by their addresses, and the statics. -/
structure Devices where
  board : Board
  clocks : PeriphBus → BitVec 32
  gpios : Address → Gpio
  timers : Address → Timer
  sleepTimer : Option Peripheral := none
  boardInited : Bool := false

namespace Devices
variable (d : Devices) (p : Peripheral)

end Devices

/-! ## The drivers -/

section
variable (stackCeiling userStart : Address)

end

/-! ## Pins -/

/-- The function of the USARTs. -/
def usartFunction : BitVec 32 := 7

/-- Two pins have the function of the USARTs, and the others are as before. -/
def Given (before after : Gpio) (first second : ℕ) : Prop :=
  ∀ pin < 16, after.pinMode pin =
      (if pin = first ∨ pin = second then moderCnfAltfun else before.pinMode pin) ∧
    after.pinAltFunc pin =
      if pin = first ∨ pin = second then usartFunction else before.pinAltFunc pin

section
variable {stackCeiling userStart : Address} {b : Board} {s : Store}

/-- An entry and a buffer fit. -/
theorem createMemoryEntry_buffer (hroom : 48 < s.lastMemoryEntry.toNat) :
    ∃ entry s', createMemoryEntry s (BitVec.ofNat 32 Usart.bufferSize) = some (entry,s') ∧
      s'.lastMemoryEntry.toNat + 48 = s.lastMemoryEntry.toNat := by
  have hone : (BitVec.ofNat 32 Usart.bufferSize / 24 +
      if BitVec.ofNat 32 Usart.bufferSize % 24 = 0 then 0 else 1 : BitVec 32) = 1 := by decide
  have hfits : 24 * ((1 : BitVec 32).toNat + 1) < s.lastMemoryEntry.toNat := hroom
  unfold createMemoryEntry
  rw [hone]
  dsimp only
  rw [if_pos hfits]
  refine ⟨_,_,rfl,?_⟩
  show (s.lastMemoryEntry - 24 - 1 * 24).toNat + 48 = _
  bv_omega

theorem memorySysAlloc_room {created : List Address} (hl : Layout stackCeiling created s)
    (hroom : 48 < s.lastMemoryEntry.toNat) :
    ∃ ptr s', memorySysAlloc stackCeiling s (BitVec.ofNat 32 Usart.bufferSize) = some (ptr,s') ∧
      s.lastMemoryEntry.toNat ≤ s'.lastMemoryEntry.toNat + 48 := by
  unfold memorySysAlloc
  rw [findFreeAllocation,hl.lookup_eq]
  simp only [Option.bind_eq_bind,Option.bind_some]
  split
  · exact ⟨_,_,rfl,Nat.le_add_right _ _⟩
  · obtain ⟨entry,s',hcreate,hlast⟩ := createMemoryEntry_buffer hroom
    rw [hcreate]
    exact ⟨_,_,rfl,hlast.ge⟩

end

/-! ## One USART after the other -/

/-- Receiving by interrupts at 115200 baud. -/
def enabledRegisters : UsartRegisters where
  baudRateDiv := 138
  control1 := usartCr1Ue ||| usartCr1Rxneie ||| (usartCr1Te ||| usartCr1Re)

/-- What enabling a USART leaves, with a new buffer. -/
def enabledBoard (p : UsartPeriph) (ptr : Address) (s : Store) (nvic : Nvic) (b : Board) :
    Board where
  store := s
  nvic
  vectorTable := Function.update b.vectorTable p.irq .usartIsr
  driverStates := Function.update b.driverStates p { intqueue := { buffer := ptr } }
  usarts := Function.update b.usarts p enabledRegisters

section
variable {stackCeiling : Address} {p : UsartPeriph} {b : Board} {ptr : Address} {s : Store}

theorem intqueueInit_new (hnull : b.buffers p = 0)
    (halloc : memorySysAlloc stackCeiling b.store (BitVec.ofNat 32 Usart.bufferSize) =
      some (ptr,s)) : intqueueInit stackCeiling p b = some
        ({ b with store := s }.setIntqueue p { buffer := ptr }) := by
  unfold intqueueInit
  dsimp only
  rw [if_pos hnull,Board.setIntqueue_store,halloc,Option.map_some]
  simp only [Board.setBuffer,Board.setIntqueue,Board.setDriverState_self]
  unfold Board.setDriverState
  simp only [Function.update_idem]

theorem usartSetPolling_new (hnull : b.buffers p = 0)
    (halloc : memorySysAlloc stackCeiling b.store (BitVec.ofNat 32 Usart.bufferSize) =
      some (ptr,s)) {nvic : Nvic} (hnvic : nvicEnableIrq p.irq b.nvic = some nvic) :
    usartSetPolling stackCeiling p b false = some
      ({ b.setDriverState p
          { b.driverStates p with intqueue := { buffer := ptr }, poll := false } with
        store := s, nvic }.updateControl1 p (· ||| usartCr1Rxneie)) := by
  have hbuffers : (b.setDriverState p { b.driverStates p with poll := false }).buffers p = 0 := by
    rw [Board.setDriverState_buffers,Function.update_self]
    exact hnull
  have hinit := intqueueInit_new hbuffers halloc
  unfold usartSetPolling
  dsimp only
  rw [Board.setDriverState_self,if_neg Bool.false_ne_true,hinit]
  simp only [Option.bind_eq_bind,Option.bind_some]
  unfold Board.setIntqueue Board.setDriverState
  dsimp only
  rw [hnvic,Function.update_self,Function.update_idem]
  rfl

/-- The buffer that the USART has had is forgotten. -/
theorem usartEnable_eq
    (halloc : memorySysAlloc stackCeiling b.store (BitVec.ofNat 32 Usart.bufferSize) =
      some (ptr,s)) {nvic : Nvic} (hnvic : nvicEnableIrq p.irq b.nvic = some nvic) :
    usartEnable stackCeiling p b true = some (enabledBoard p ptr s nvic b) := by
  have hbaud : Usart.calculateBaudrateDividerReg boardGetSysclockMHz 115200 = 138 := by decide
  have hirq : p.irq < maxIrq := by cases p <;> decide
  let prepared : Board :=
    { b with
      vectorTable := Function.update b.vectorTable p.irq .usartIsr
      driverStates := Function.update b.driverStates p usartDriverStateInit
      usarts := Function.update b.usarts p { baudRateDiv := 138, control1 := usartCr1Ue } }
  have hnull : prepared.buffers p = 0 := by
    show (Function.update b.driverStates p usartDriverStateInit p).intqueue.buffer = 0
    rw [Function.update_self]
    rfl
  have hpolling := @usartSetPolling_new stackCeiling p prepared ptr s hnull halloc nvic hnvic
  unfold usartEnable
  rw [Bool.not_true,if_neg Bool.false_ne_true,hbaud]
  simp only [vectorSetIsrFor,if_pos hirq,Option.bind_eq_bind,Option.bind_some]
  unfold Board.setControl1 Board.setUsart Board.setDriverState
  dsimp only
  simp only [Function.update_idem,Function.update_self]
  rw [hpolling,Option.bind_some]
  unfold Board.updateControl1 Board.setControl1 Board.setUsart Board.setDriverState enabledBoard
  dsimp only
  simp only [prepared,Function.update_idem,Function.update_self]
  rfl

end

/-! ## The board -/

/-- The clocks of the ports and of the USARTs. -/
def usartClocks : PeriphBus → BitVec 32
  | .ahb1 => 3
  | .ahb2 => 0
  | .apb1 => 1#32 <<< 17
  | .apb2 => 1#32 <<< 4

/-- And that of the timer. -/
def boardClocks : PeriphBus → BitVec 32
  | .apb2 => 1#32 <<< 4 ||| 1#32 <<< 17
  | bus => usartClocks bus

section
variable {d : Devices}

end

/-! ## From a reset -/

/-- The clocks run, the pins and interrupts are given, both USARTs receive into buffers of
their own, and the timer waits. -/
structure Ready (stackCeiling : Address) (before d : Devices) : Prop where
  clocks : d.clocks = boardClocks
  portA : Given (before.gpios gPeriphGpioA.base) (d.gpios gPeriphGpioA.base) 2 3
  portB : Given (before.gpios gPeriphGpioB.base) (d.gpios gPeriphGpioB.base) 6 7
  handlers : ∀ irq, d.board.vectorTable irq =
    if irq = 37 ∨ irq = 38 then .usartIsr else if irq = 25 then .tim10Isr
    else before.board.vectorTable irq
  enabled : d.board.nvic.enabledIrqs = before.board.nvic.enabledIrqs ∪ {25,37,38}
  pending : d.board.nvic.pendingIrqs = before.board.nvic.pendingIrqs
  usarts : ∀ p, d.board.usarts p = enabledRegisters
  queues : ∀ p, d.board.driverStates p = { intqueue := { buffer := d.board.buffers p } }
  timer : d.timers gPeriphTim10.base = idleTimer ∧ d.sleepTimer = some gPeriphTim10
  inited : d.boardInited = true
  sound : Sound stackCeiling d.board

section
variable {stackCeiling userStart : Address} {d : Devices}

/-- Sound boards agree on what the drivers share. -/
theorem Sound.congr {b b' : Board} (h : Sound stackCeiling b) (hstore : b'.store = b.store)
    (hstates : b'.driverStates = b.driverStates) (husarts : b'.usarts = b.usarts) :
    Sound stackCeiling b' := by
  have hbuffers : b'.buffers = b.buffers := by
    unfold Board.buffers
    rw [hstates]
  refine h.of_keeps (p := .usart1) (fun q _ => ⟨congrFun hstates q,congrFun husarts q⟩)
    ⟨hstore,hbuffers⟩ ?_ ?_
  · unfold Board.Receives
    rw [husarts]
    exact id
  · unfold Board.receiving
    rw [hstates,hstore]
    exact id

/-- There is always a buffer for a USART that has none. -/
theorem Sound.enable {b : Board} {p : UsartPeriph} (h : Sound stackCeiling b)
    (hnull : b.buffers p = 0) (hroom : 48 < b.store.lastMemoryEntry.toNat) :
    ∃ ptr s nvic, usartEnable stackCeiling p b true = some (enabledBoard p ptr s nvic b) ∧
      Sound stackCeiling (enabledBoard p ptr s nvic b) ∧
      b.store.lastMemoryEntry.toNat ≤ s.lastMemoryEntry.toNat + 48 ∧
      nvic.enabledIrqs = insert p.irq.toNat b.nvic.enabledIrqs ∧
      nvic.pendingIrqs = b.nvic.pendingIrqs := by
  obtain ⟨g,hcustody,-⟩ := h.custody
  have hlayout := hcustody.coherent.layout
  rw [hcustody.store] at hlayout
  obtain ⟨ptr,s,halloc,hlast⟩ := memorySysAlloc_room hlayout hroom
  obtain ⟨nvic,hnvic,henabled,hpending⟩ := nvicEnableIrq_leaves (irq_lt p) b.nvic
  have hexec := usartEnable_eq halloc hnvic
  exact ⟨ptr,s,nvic,hexec,h.call (c := .enable p true) hnull hexec,hlast,henabled,hpending⟩

end

/-! ## With the startup code -/

end TwMonitor.BoardInit
