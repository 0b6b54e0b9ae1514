import TwMonitor.InstructionBoundaries

/-!
# Where the editor can write

Ten commands move the cursor or the end. Each of them only has to keep the
cursor from falling below the start, for the head of the loop lifts the end over
the cursor again. An instruction is written at the cursor, so it lies between
the start and the end that the head of the loop leaves.
-/
namespace TwMonitor.Editor
open ByteMemory MemoryStore Thumb Tiling

/-- The order of the three pointers at the menu. -/
structure Ordered (s : EditorState) : Prop where
  start_le : s.startingAddr ≤ s.addr
  le_end : s.addr ≤ s.endAddr

/-! ## The head of the loop -/

section
variable (s : EditorState)

@[simp] theorem loopHead_memory : (loopHead s).memory = s.memory := by
  unfold loopHead
  split <;> rfl

@[simp] theorem loopHead_startingAddr : (loopHead s).startingAddr = s.startingAddr := by
  unfold loopHead
  split <;> rfl

@[simp] theorem loopHead_addr : (loopHead s).addr = s.addr := by
  unfold loopHead
  split <;> rfl

@[simp] theorem loopHead_widthSpecifier : (loopHead s).widthSpecifier = s.widthSpecifier := by
  unfold loopHead
  split <;> rfl

theorem addr_le_loopHead_endAddr : s.addr ≤ (loopHead s).endAddr := by
  unfold loopHead
  split
  · exact Nat.le_refl _
  · next h => exact Nat.le_of_not_lt h

end

/-- The head of the loop restores the upper half of the order. -/
theorem loopHead_ordered {s : EditorState} (h : s.startingAddr ≤ s.addr) :
    Ordered (loopHead s) where
  start_le := by
    rw [loopHead_startingAddr,loopHead_addr]
    exact h
  le_end := by
    rw [loopHead_addr]
    exact addr_le_loopHead_endAddr s

/-! ## One round -/

/-- No pointer moves over the top of the address space, and a search for the
instruction before a pointer does not walk past that pointer. -/
def Stays (s : EditorState) : EditorCommand → Prop
  | .assemble instruction => s.addr.toNat + s.size instruction < 2 ^ 32
  | .down => s.addr < s.endAddr → s.addr < thumbInsPtrIncrement s.memory s.addr
  | .up => s.startingAddr < s.addr → WellFormed s.memory s.startingAddr s.addr
  | .rewindInstruction =>
      s.startingAddr < s.endAddr → WellFormed s.memory s.startingAddr s.endAddr
  | _ => True

section
variable {s t : EditorState} {fuel : ℕ} {command : EditorCommand}
  {instruction : ThumbInstructionSpec}

theorem runCommand_startingAddr (ht : runCommand s fuel command = some t) :
    t.startingAddr = s.startingAddr := by
  cases runCommand_effect ht <;> rfl

/-- The cursor stays above the start, command by command. -/
theorem runCommand_start_le (h : Ordered s) (hstays : Stays s command)
    (ht : runCommand s fuel command = some t) : s.startingAddr ≤ t.addr := by
  have hstart : s.startingAddr.toNat ≤ s.addr.toNat := h.start_le
  have hend : s.addr.toNat ≤ s.endAddr.toNat := h.le_end
  cases runCommand_effect ht with
  | assemble instruction =>
      have haddr := assembled_addr hstays
      change s.startingAddr.toNat ≤ (s.assembled instruction).addr.toNat
      omega
  | specifyWidth widthSpecifier => exact h.start_le
  | upToStart => exact Nat.le_refl _
  | downToEnd => exact hstart.trans hend
  | up hlt hprevious =>
      exact (previousThumbInstruction_eq_some (hstays hlt) hlt hprevious).1.le
  | down hlt =>
      have hup : s.addr.toNat < (thumbInsPtrIncrement s.memory s.addr).toNat := hstays hlt
      exact hstart.trans hup.le
  | @rewind endAddr hlt hprevious =>
      have hle := (previousThumbInstruction_eq_some (hstays hlt) hlt hprevious).1.le
      change s.startingAddr ≤ if endAddr < s.addr then endAddr else s.addr
      split
      · exact hle
      · exact h.start_le
  | stay => exact h.start_le

theorem step_startingAddr (ht : step s fuel command = some t) :
    t.startingAddr = s.startingAddr := by
  obtain ⟨u,hu,rfl⟩ := Option.map_eq_some_iff.mp ht
  rw [loopHead_startingAddr]
  exact runCommand_startingAddr hu

theorem step_ordered (h : Ordered s) (hstays : Stays s command)
    (ht : step s fuel command = some t) : Ordered t := by
  obtain ⟨u,hu,rfl⟩ := Option.map_eq_some_iff.mp ht
  apply loopHead_ordered
  rw [runCommand_startingAddr hu]
  exact runCommand_start_le h hstays hu

/-! ## What an assembly writes -/

/-- The result of the assembler at the cursor. -/
def EditorState.result (s : EditorState) (instruction : ThumbInstructionSpec) :
    ThumbAssembleResult := (thumbAssemble s.addr (s.specify instruction) s.memory).1

/-- From `s` to the next menu `t` an assembly that fails changes nothing, and one
that succeeds writes between the start and the end of `t`. -/
structure WritesInside (s : EditorState) (instruction : ThumbInstructionSpec)
    (t : EditorState) : Prop where
  failed : (s.result instruction).succeeds = false → t.memory = s.memory ∧ t.addr = s.addr
  written : ∀ a, InRange s.addr (s.result instruction).size a →
    s.startingAddr ≤ a ∧ a < t.endAddr
  frame : ∀ a, ¬ (s.startingAddr ≤ a ∧ a < t.endAddr) → t.memory a = s.memory a

/-- The bytes of the instruction lie below the new end. -/
theorem written_between (h : Ordered s) (hfit : s.addr.toNat + s.size instruction < 2 ^ 32)
    {a : Address} (ha : InRange s.addr (s.result instruction).size a) :
    s.startingAddr ≤ a ∧ a < (loopHead (s.assembled instruction)).endAddr := by
  rw [EditorState.result,size_thumbAssemble] at ha
  have hoffset : (a - s.addr).toNat < s.size instruction := ha
  have hstart : s.startingAddr.toNat ≤ s.addr.toNat := h.start_le
  have haddr := assembled_addr hfit
  have hend : (s.assembled instruction).addr.toNat ≤
      (loopHead (s.assembled instruction)).endAddr.toNat := addr_le_loopHead_endAddr _
  rw [BitVec.toNat_sub] at hoffset
  have hlt := a.isLt
  constructor
  · change s.startingAddr.toNat ≤ a.toNat
    omega
  · change a.toNat < (loopHead (s.assembled instruction)).endAddr.toNat
    omega

theorem step_writesInside (h : Ordered s) (hfit : s.addr.toNat + s.size instruction < 2 ^ 32)
    (ht : step s fuel (.assemble instruction) = some t) : WritesInside s instruction t := by
  have hwrites := writesExactly_thumbAssemble s.addr (s.specify instruction) s.memory
  rw [step,runCommand_assemble] at ht
  obtain rfl := Option.some.inj ht
  refine ⟨fun hfailed => ⟨?_,?_⟩,fun a ha => written_between h hfit ha,fun a ha => ?_⟩
  · rw [loopHead_memory]
    exact hwrites.failed hfailed
  · rw [loopHead_addr]
    have hsize : s.size instruction = 0 := by
      rw [EditorState.size,← size_thumbAssemble s.addr _ s.memory]
      change (s.result instruction).size = 0
      generalize s.result instruction = r at hfailed
      cases r with
      | narrowSuccess => simp [ThumbAssembleResult.succeeds] at hfailed
      | wideSuccess => simp [ThumbAssembleResult.succeeds] at hfailed
      | failBadMnemonic => rfl
      | failInvalidWidth => rfl
      | failInvalidOperand => rfl
    simp [EditorState.assembled,hsize]
  · rw [loopHead_memory]
    exact hwrites.frame a fun hin => ha (written_between h hfit hin)

end

/-! ## Runs -/

/-- A round of the editor. Define Label and Call Assembly leave the pointers
alone, but what they do to memory is not known to the editor. -/
inductive ConfinedStep (s : EditorState) : EditorState → Prop
  | command {t : EditorState} (command : EditorCommand) (fuel : ℕ) :
      Stays s command → step s fuel command = some t → ConfinedStep s t
  | elsewhere (memory : Memory) : ConfinedStep s (loopHead { s with memory })

theorem ConfinedStep.ordered {s t : EditorState} (h : Ordered s) (hstep : ConfinedStep s t) :
    Ordered t ∧ t.startingAddr = s.startingAddr := by
  cases hstep with
  | command command fuel hstays ht => exact ⟨step_ordered h hstays ht,step_startingAddr ht⟩
  | elsewhere memory => exact ⟨loopHead_ordered h.start_le,loopHead_startingAddr _⟩

/-- The section does not wrap. The cursor is not restricted: without a section
it is the start, and with one it is clamped. -/
def StartFits : Option SectionEntry → Prop
  | none => True
  | some entry =>
      (memoryGetSectionAddress entry).toNat + (memoryGetSectionSize entry).toNat < 2 ^ 32

theorem monitorAssemble_ordered {memory : Memory} {addr : Address}
    {memorySection : Option SectionEntry} (h : StartFits memorySection) :
    Ordered (monitorAssemble memory addr memorySection) := by
  cases memorySection with
  | none => exact loopHead_ordered (Nat.le_refl _)
  | some entry =>
      apply loopHead_ordered
      have hfits : (memoryGetSectionAddress entry).toNat + (memoryGetSectionSize entry).toNat <
          2 ^ 32 := h
      change memoryGetSectionAddress entry ≤
        if addr < memoryGetSectionAddress entry then memoryGetSectionAddress entry
        else if memoryGetSectionAddress entry + memoryGetSectionSize entry < addr then
          memoryGetSectionAddress entry + memoryGetSectionSize entry
        else addr
      generalize memoryGetSectionAddress entry = start at *
      generalize memoryGetSectionSize entry = size at *
      split
      · exact Nat.le_refl _
      · next hlow =>
          split
          · bv_omega
          · exact Nat.le_of_not_lt hlow

theorem run_ordered {s t : EditorState} (h : Ordered s)
    (hrun : Relation.ReflTransGen ConfinedStep s t) :
    Ordered t ∧ t.startingAddr = s.startingAddr := by
  induction hrun with
  | refl => exact ⟨h,rfl⟩
  | tail _ hstep ih =>
      obtain ⟨hordered,hstart⟩ := hstep.ordered ih.1
      exact ⟨hordered,hstart.trans ih.2⟩

/-- The pointers stay in order at every menu, the start never moves, and an
assembly writes between the start and the end only. -/
theorem editor_confined {memory : Memory} {addr : Address}
    {memorySection : Option SectionEntry} (hstart : StartFits memorySection) {s : EditorState}
    (hrun : Relation.ReflTransGen ConfinedStep (monitorAssemble memory addr memorySection) s) :
    Ordered s ∧ s.startingAddr = (monitorAssemble memory addr memorySection).startingAddr ∧
      ∀ instruction fuel t, Stays s (.assemble instruction) →
        step s fuel (.assemble instruction) = some t → WritesInside s instruction t := by
  obtain ⟨hordered,hsame⟩ := run_ordered (monitorAssemble_ordered hstart) hrun
  exact ⟨hordered,hsame,fun _ _ _ hfit ht => step_writesInside hordered hfit ht⟩

/-- NOP, Rewind, BL in its place, a call that clears memory, and another NOP. -/
theorem editor_confined_rewind : ∃ s t,
    Relation.ReflTransGen ConfinedStep (monitorAssemble (fun _ => 0xFF) 0x20000000 none) s ∧
      Ordered s ∧ step s 0 (.assemble { mnemonic := .nop }) = some t ∧
      WritesInside s { mnemonic := .nop } t ∧ t.endAddr = 0x20000006 := by
  let bl : ThumbInstructionSpec := { mnemonic := .bl, operands := [.signedImmediate 0] }
  have hfit : ∀ {s : EditorState} {instruction : ThumbInstructionSpec},
      s.addr.toNat + s.size instruction < 2 ^ 32 → Stays s (.assemble instruction) := id
  have hback : ∀ {s : EditorState},
      Hop BitVec.toNat (thumbInsPtrIncrement s.memory) s.startingAddr s.endAddr →
        Stays s .rewindInstruction := fun hop _ => .tail .refl hop
  have hrun : Relation.ReflTransGen ConfinedStep
      (monitorAssemble (fun _ => 0xFF) 0x20000000 none) _ :=
    .tail (.tail (.tail (.tail .refl
      (.command (.assemble { mnemonic := .nop }) 0 (hfit (by decide)) rfl))
      (.command .rewindInstruction 1 (hback ⟨by decide,by decide⟩) rfl))
      (.command (.assemble bl) 0 (hfit (by decide)) rfl))
      (.elsewhere fun _ => 0)
  have hconfined := editor_confined (by trivial) hrun
  exact ⟨_,_,hrun,hconfined.1,rfl,hconfined.2.2 _ 0 _ (hfit (by decide)) rfl,by decide⟩

end TwMonitor.Editor
