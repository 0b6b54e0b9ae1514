import TwMonitor.EditorConfinement

/-!
# The recorded size of a section

The end of the code in a section is kept twice: in `end_addr`, and as the size
of the section in the memory store. Only the head of the loop copies the first
to the second, when the cursor has moved past the end. A Rewind lowers the end
and leaves the size alone.
-/
namespace TwMonitor.Editor
open ByteMemory MemoryStore Thumb Tiling

/-- The recorded size is the length of the code that is kept. -/
def RecordsSize (s : EditorState) : Prop :=
  s.memorySection.map memoryGetSectionSize = some (s.endAddr - s.startingAddr)

instance (s : EditorState) : Decidable (RecordsSize s) := by
  unfold RecordsSize; infer_instance

/-- Entering the editor again, at the end of the section, continues at the end
of the code that is kept. -/
def ContinuesAtEnd (s : EditorState) : Prop :=
  ∀ memory, (monitorAssemble memory (-1) s.memorySection).addr = s.endAddr

/-- The command drops an instruction. -/
def Rewinds (s : EditorState) (command : EditorCommand) : Prop :=
  command = .rewindInstruction ∧ s.startingAddr < s.endAddr

/-- A run, with a note whether a Rewind has dropped an instruction since the end
was last moved up. -/
inductive EditorTrace (initial : EditorState) : EditorState → Bool → Prop
  | start : EditorTrace initial initial false
  | rewind {s t : EditorState} {dropped : Bool} {command : EditorCommand} (fuel : ℕ) :
      EditorTrace initial s dropped → Rewinds s command → step s fuel command = some t →
        EditorTrace initial t true
  | command {s t : EditorState} {dropped : Bool} (command : EditorCommand) (fuel : ℕ) :
      EditorTrace initial s dropped → ¬ Rewinds s command → step s fuel command = some t →
        EditorTrace initial t (dropped && t.endAddr == s.endAddr)
  | elsewhere {s : EditorState} {dropped : Bool} (memory : Memory) :
      EditorTrace initial s dropped →
        EditorTrace initial (loopHead { s with memory })
          (dropped && (loopHead { s with memory }).endAddr == s.endAddr)

/-- What the run keeps. A section at an address below four could be rewound over
the bottom of the address space. -/
structure SizeInvariant (entry : SectionEntry) (s : EditorState) (dropped : Bool) : Prop where
  same_section : s.memorySection = some entry
  same_start : s.startingAddr = memoryGetSectionAddress entry
  kept : dropped = false → s.endAddr = s.startingAddr + memoryGetSectionSize entry
  lost : 4 ≤ s.startingAddr.toNat → dropped = true →
    s.endAddr < s.startingAddr + memoryGetSectionSize entry

/-! ## One round -/

section
variable {s t : EditorState} {fuel : ℕ} {command : EditorCommand} {entry : SectionEntry}
  {dropped : Bool}

/-- Every other command leaves the end and the section to the head of the loop. -/
theorem runCommand_end (hrewinds : ¬ Rewinds s command)
    (ht : runCommand s fuel command = some t) :
    t.endAddr = s.endAddr ∧ t.memorySection = s.memorySection := by
  cases runCommand_effect ht with
  | rewind hlt hprevious => exact absurd ⟨rfl,hlt⟩ hrewinds
  | _ => exact ⟨rfl,rfl⟩

/-- A Rewind lowers the end by the size of an instruction. -/
theorem step_rewind (hlt : s.startingAddr < s.endAddr)
    (ht : step s fuel .rewindInstruction = some t) :
    t.memorySection = s.memorySection ∧ t.startingAddr = s.startingAddr ∧
      (4 ≤ s.startingAddr.toNat → t.endAddr < s.endAddr) := by
  obtain ⟨u,hu,rfl⟩ := Option.map_eq_some_iff.mp ht
  rw [runCommand,if_pos hlt] at hu
  obtain ⟨endAddr,hprevious,he⟩ := Option.bind_eq_some_iff.mp hu
  obtain rfl := Option.some.inj he
  have hcursor : ¬ endAddr < if endAddr < s.addr then endAddr else s.addr := by
    split
    · exact Nat.lt_irrefl _
    · next hpast => exact hpast
  rw [loopHead,if_neg hcursor]
  refine ⟨rfl,rfl,fun hfour => ?_⟩
  change endAddr < s.endAddr
  rw [previousThumbInstruction,if_pos (by bv_omega)] at hprevious
  have hnext := next_of_search hprevious
  rcases thumbInsPtrIncrement_cases s.memory endAddr with htwo | hwide
  · bv_omega
  · bv_omega

theorem SizeInvariant.rewind (h : SizeInvariant entry s dropped) (hlt : s.startingAddr < s.endAddr)
    (ht : step s fuel .rewindInstruction = some t) : SizeInvariant entry t true := by
  obtain ⟨hsection,hstart,hlower⟩ := step_rewind hlt ht
  refine ⟨hsection.trans h.same_section,hstart.trans h.same_start,fun hd => ?_,?_⟩
  · exact absurd hd Bool.noConfusion
  · intro hfour _
    rw [hstart] at hfour ⊢
    have hbelow := hlower hfour
    cases dropped with
    | false => rwa [h.kept rfl] at hbelow
    | true =>
        have hold := h.lost hfour rfl
        exact Nat.lt_trans hbelow hold

/-- The head of the loop records the new end, or changes nothing. -/
theorem SizeInvariant.loopHead (h : SizeInvariant entry s dropped) {u : EditorState}
    (hend : u.endAddr = s.endAddr) (hsection : u.memorySection = s.memorySection)
    (hstart : u.startingAddr = s.startingAddr) :
    ∃ entry', memoryGetSectionAddress entry' = memoryGetSectionAddress entry ∧
      SizeInvariant entry' (Editor.loopHead u)
        (dropped && (Editor.loopHead u).endAddr == s.endAddr) := by
  by_cases hpast : u.endAddr < u.addr
  · have hmoved : (u.addr == s.endAddr) = false := by
      rw [beq_eq_false_iff_ne]
      bv_omega
    refine ⟨memoryUpdateSectionSize entry (u.addr - u.startingAddr),rfl,?_⟩
    rw [Editor.loopHead,if_pos hpast,hmoved,Bool.and_false]
    refine ⟨?_,hstart.trans h.same_start,fun _ => ?_,?_⟩
    · change u.memorySection.map _ = _
      rw [hsection,h.same_section]
      rfl
    · change u.addr = u.startingAddr + (u.addr - u.startingAddr)
      bv_omega
    · exact fun _ hd => absurd hd Bool.noConfusion
  · refine ⟨entry,rfl,?_⟩
    rw [Editor.loopHead,if_neg hpast,hend,beq_self_eq_true,Bool.and_true]
    refine ⟨hsection.trans h.same_section,hstart.trans h.same_start,?_,?_⟩
    · rw [hend,hstart]
      exact h.kept
    · rw [hend,hstart]
      exact h.lost

end

/-! ## Runs -/

section
variable {memory : Memory} {addr : Address} {entry : SectionEntry} {s : EditorState}
  {dropped : Bool}

theorem monitorAssemble_sizeInvariant :
    ∃ entry', memoryGetSectionAddress entry' = memoryGetSectionAddress entry ∧
      SizeInvariant entry' (monitorAssemble memory addr (some entry)) false := by
  let clamped : EditorState :=
    { memory
      startingAddr := memoryGetSectionAddress entry
      endAddr := memoryGetSectionAddress entry + memoryGetSectionSize entry
      addr :=
        if addr < memoryGetSectionAddress entry then memoryGetSectionAddress entry
        else if memoryGetSectionAddress entry + memoryGetSectionSize entry < addr then
          memoryGetSectionAddress entry + memoryGetSectionSize entry
        else addr
      memorySection := some entry }
  have hclamped : SizeInvariant entry clamped false :=
    ⟨rfl,rfl,fun _ => rfl,fun _ hd => absurd hd Bool.noConfusion⟩
  have hhead := hclamped.loopHead rfl rfl rfl
  rwa [Bool.false_and] at hhead

theorem EditorTrace.sizeInvariant
    (h : EditorTrace (monitorAssemble memory addr (some entry)) s dropped) :
    ∃ entry', memoryGetSectionAddress entry' = memoryGetSectionAddress entry ∧
      SizeInvariant entry' s dropped := by
  induction h with
  | start => exact monitorAssemble_sizeInvariant
  | rewind fuel _ hrewinds ht ih =>
      obtain ⟨entry',haddr,hs⟩ := ih
      obtain ⟨rfl,hlt⟩ := hrewinds
      exact ⟨entry',haddr,hs.rewind hlt ht⟩
  | command command fuel _ hrewinds ht ih =>
      obtain ⟨entry',haddr,hs⟩ := ih
      obtain ⟨u,hu,rfl⟩ := Option.map_eq_some_iff.mp ht
      obtain ⟨hend,hsection⟩ := runCommand_end hrewinds hu
      obtain ⟨entry'',haddr',hu'⟩ := hs.loopHead hend hsection (runCommand_startingAddr hu)
      exact ⟨entry'',haddr'.trans haddr,hu'⟩
  | @elsewhere s dropped memory' _ ih =>
      obtain ⟨entry',haddr,hs⟩ := ih
      obtain ⟨entry'',haddr',hu'⟩ := hs.loopHead (u := { s with memory := memory' }) rfl rfl rfl
      exact ⟨entry'',haddr'.trans haddr,hu'⟩

theorem SizeInvariant.recordsSize_iff (h : SizeInvariant entry s dropped) :
    RecordsSize s ↔ s.endAddr = s.startingAddr + memoryGetSectionSize entry := by
  rw [RecordsSize,h.same_section,Option.map_some,Option.some_inj]
  constructor
  · intro hsize
    bv_omega
  · intro hend
    bv_omega

/-- The cursor is clamped to the recorded size. -/
theorem SizeInvariant.continuesAtEnd (h : SizeInvariant entry s dropped)
    (hend : s.endAddr = s.startingAddr + memoryGetSectionSize entry) : ContinuesAtEnd s := by
  intro memory
  rw [h.same_section,hend,h.same_start]
  dsimp only [monitorAssemble]
  rw [loopHead_addr]
  generalize memoryGetSectionAddress entry + memoryGetSectionSize entry = stop
  generalize memoryGetSectionAddress entry = start
  dsimp only
  rw [if_neg (by bv_omega)]
  split
  · rfl
  · bv_omega

/-- The size follows the end as long as no Rewind has dropped an instruction
since the end was last moved up, and then it does not. -/
theorem section_size_follows
    (h : EditorTrace (monitorAssemble memory addr (some entry)) s dropped) :
    (dropped = false → RecordsSize s ∧ ContinuesAtEnd s) ∧
      (4 ≤ (memoryGetSectionAddress entry).toNat → RecordsSize s → dropped = false) := by
  obtain ⟨entry',haddr,hs⟩ := h.sizeInvariant
  constructor
  · intro hd
    have hend := hs.kept hd
    exact ⟨hs.recordsSize_iff.mpr hend,hs.continuesAtEnd hend⟩
  · intro hfour hsize
    have hend := hs.recordsSize_iff.mp hsize
    cases dropped with
    | false => rfl
    | true =>
        have hlost := hs.lost (by rwa [hs.same_start,haddr]) rfl
        rw [hend] at hlost
        exact absurd hlost (Nat.lt_irrefl _)

end

/-! ## Losing the size -/

/-- An empty section in RAM. -/
def emptySection : SectionEntry :=
  { type := .etSection 0, addr := 0x20000100, isSection := rfl }

/-- A Rewind that drops UDF, and NOP twice in its place. -/
theorem section_size_follows_nop : ∃ s,
    EditorTrace (monitorAssemble (fun _ => 0) (-1) (some emptySection)) s false ∧
      s.endAddr = 0x20000104 ∧ RecordsSize s ∧ ContinuesAtEnd s := by
  let nop : EditorCommand := .assemble { mnemonic := .nop }
  let udf : EditorCommand := .assemble { mnemonic := .udf, operands := [.immediate 1] }
  have hkeeps : ∀ {s : EditorState} {instruction : ThumbInstructionSpec},
      ¬ Rewinds s (.assemble instruction) := fun h => EditorCommand.noConfusion h.1
  have htrace : EditorTrace (monitorAssemble (fun _ => 0) (-1) (some emptySection)) _ _ :=
    .command nop 0 (.command nop 0 (.rewind 1 (.command udf 0 .start hkeeps rfl)
      ⟨rfl,by decide⟩ rfl) hkeeps rfl) hkeeps rfl
  have hrecords := (section_size_follows htrace).1 (by decide)
  exact ⟨_,htrace,by decide,hrecords⟩

/-- After one NOP and a Rewind the section is still two bytes long. -/
theorem section_size_lost : ∃ s,
    Relation.ReflTransGen EditorStep (monitorAssemble (fun _ => 0) (-1) (some emptySection)) s ∧
      ¬ RecordsSize s ∧ ¬ ContinuesAtEnd s := by
  refine ⟨_,.tail (.tail .refl ⟨.assemble { mnemonic := .nop },0,rfl⟩)
    ⟨.rewindInstruction,1,rfl⟩,?_,?_⟩
  · decide
  · intro hcontinues
    exact absurd (hcontinues fun _ => 0) (by decide)

end TwMonitor.Editor
