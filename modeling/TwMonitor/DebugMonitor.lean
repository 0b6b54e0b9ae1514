import TwMonitor.MemoryEntries
import TwMonitor.ThumbDisassemble

/-!
# The debug monitor

The processor calls `debug_monitor` before each instruction while stepping is
on. With a stepping address set it returns at once, until the program counter
is that address or has not moved since the last call. Otherwise it shows the
debugger, whose menu decides where to go on. The terminal, and the USART which
is polled meanwhile and set back, are left out.
-/
namespace TwMonitor.Debug
open ByteMemory MemoryStore Thumb

/-- The static variables, and the step bit of DEMCR. NULL is 0. -/
structure DebugState where
  startSteppingAddress : Address := 0
  lastPc : Address := 0
  stepping : Bool := false
deriving DecidableEq, Repr

/-- The program counter has no interwork bit. -/
def armBeginSteppingAt (s : DebugState) (address : Address) : DebugState :=
  { s with
    startSteppingAddress := armAddressSetThumbIntwrkBit address false
    stepping := true }

inductive DebugOption where
  | step | skipInstruction | continue | unassemble | exitToMonitor
deriving DecidableEq, Repr

/-- The menu: where to go on, and whether to step. It is shown again after some
of the options; `none` when the options given do not leave it. -/
def debugMenu (m : Memory) (exitToMonitor : Address) :
    List DebugOption → Address → Option (Address × Bool)
  | [],_ => none
  | .step::_,pc => some (pc,true)
  | .skipInstruction::options,pc => debugMenu m exitToMonitor options (thumbInsPtrIncrement m pc)
  | .continue::_,pc => some (pc,false)
  | .unassemble::options,pc => debugMenu m exitToMonitor options pc
  | .exitToMonitor::_,_ => some (exitToMonitor,false)

/-- What a call did: its return value, whether it printed the error, and whether
it showed the debugger. -/
structure DebugResult where
  state : DebugState
  pc : Address
  stuck : Bool
  shown : Bool
deriving DecidableEq, Repr

/-- The part that is left through the menu. -/
def showDebugger (s : DebugState) (m : Memory) (exitToMonitor : Address)
    (options : List DebugOption) (pc : Address) (stuck : Bool) : Option DebugResult :=
  (debugMenu m exitToMonitor options pc).map fun left =>
    { state := { s with stepping := left.2 }, pc := left.1, stuck, shown := true }

def debugMonitor (s : DebugState) (m : Memory) (exitToMonitor : Address)
    (options : List DebugOption) (pc : Address) : Option DebugResult :=
  if s.startSteppingAddress ≠ 0 then
    let isStuck : Bool := pc == s.lastPc
    if pc = s.startSteppingAddress ∨ isStuck then
      showDebugger { s with lastPc := 0, startSteppingAddress := 0 } m exitToMonitor options pc
        isStuck
    else some { state := { s with lastPc := pc }, pc, stuck := false, shown := false }
  else showDebugger s m exitToMonitor options pc false

end TwMonitor.Debug
