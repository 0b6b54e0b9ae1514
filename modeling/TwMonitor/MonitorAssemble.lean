import TwMonitor.AssemblyFrame
import TwMonitor.MemoryEntries
import TwMonitor.Tiling

/-!
# The assembly editor

The variables of `monitor_assemble` and what its commands do to them. A state
is taken at the menu, after the head of the loop has moved `end_addr` up. The
keys that select an instruction and its operands are one command with the
specification they build; labels, the listing and the prompts leave these
variables alone. Calling the assembled code is not a command here, because it
may do anything to memory.
-/
namespace TwMonitor.Editor
open ByteMemory MemoryStore Thumb Tiling

structure EditorState where
  memory : Memory
  startingAddr : Address
  endAddr : Address
  addr : Address
  widthSpecifier : ThumbWidthSpecifier := .auto
  memorySection : Option SectionEntry := none

/-- The loop has no bound of its own: `none` when it is not over after `fuel`
rounds, or when the assertion before it fails. -/
def previousThumbInstruction (m : Memory) (start current : Address) (fuel : ℕ) : Option Address :=
  if start ≤ current then search (thumbInsPtrIncrement m) current fuel start else none

/-- Move `end_addr` up to the cursor, and bump the size of the section. -/
def loopHead (s : EditorState) : EditorState :=
  if s.endAddr < s.addr then
    { s with
      endAddr := s.addr
      memorySection := s.memorySection.map fun entry =>
        memoryUpdateSectionSize entry (s.addr - s.startingAddr) }
  else s

/-- The initial state. With a section the cursor is clamped to it. -/
def monitorAssemble (memory : Memory) (addr : Address) (memorySection : Option SectionEntry) :
    EditorState :=
  match memorySection with
  | none => loopHead { memory, startingAddr := addr, endAddr := addr, addr }
  | some entry =>
      let startingAddr := memoryGetSectionAddress entry
      let endAddr := startingAddr + memoryGetSectionSize entry
      let addr :=
        if addr < startingAddr then startingAddr else if endAddr < addr then endAddr else addr
      loopHead { memory, startingAddr, endAddr, addr, memorySection }

inductive EditorCommand where
  | assemble (instruction : ThumbInstructionSpec)
  | specifyWidth (widthSpecifier : ThumbWidthSpecifier)
  | upToStart | downToEnd | up | down | rewindInstruction
deriving DecidableEq, Repr

/-- The instruction starts out with the width of the editor. -/
def EditorState.specify (s : EditorState) (instruction : ThumbInstructionSpec) :
    ThumbInstructionSpec := { instruction with width := s.widthSpecifier }

/-- The body of the switch. -/
def runCommand (s : EditorState) (fuel : ℕ) : EditorCommand → Option EditorState
  | .assemble instruction =>
      let result := assembleAndShowResult s.addr (s.specify instruction) s.memory
      some { s with addr := result.1, memory := result.2 }
  | .specifyWidth widthSpecifier => some { s with widthSpecifier }
  | .upToStart => some { s with addr := s.startingAddr }
  | .downToEnd => some { s with addr := s.endAddr }
  | .up =>
      if s.startingAddr < s.addr then do
        let addr ← previousThumbInstruction s.memory s.startingAddr s.addr fuel
        some { s with addr }
      else some s
  | .down =>
      if s.addr < s.endAddr then some { s with addr := thumbInsPtrIncrement s.memory s.addr }
      else some s
  | .rewindInstruction =>
      if s.startingAddr < s.endAddr then do
        let endAddr ← previousThumbInstruction s.memory s.startingAddr s.endAddr fuel
        some { s with endAddr, addr := if endAddr < s.addr then endAddr else s.addr }
      else some s

/-- One round of the loop, from menu to menu. -/
def step (s : EditorState) (fuel : ℕ) (command : EditorCommand) : Option EditorState :=
  (runCommand s fuel command).map loopHead

end TwMonitor.Editor
