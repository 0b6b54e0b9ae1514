import TwMonitor.AssemblerMenus
import TwMonitor.LabelTable
import TwMonitor.Listing

/-!
# Sessions of the assembly editor

The editor as the user sees it: a loop that reads keys, down to the digits of every
operand. Its rounds are the commands of the editor and new labels. Each command whose
specification is in the table of the menus can be typed, and whatever is typed is such a
command, so the states at the prompt are the same on both levels. The code that the
editor calls is not part of it and may change memory and the store.
-/
namespace TwMonitor.Editor
open ByteMemory Input MemoryStore Menu NumberPad Relation Thumb Tiling

/-- The editor with the entries of the memory store. It looks up and adds labels in them; the
section that it was given is in the editor itself. -/
structure EditorSession where
  editor : EditorState
  entries : List MemoryEntry

/-! ## New labels -/

/-- `memory_create_label`, on the entries in the order of their creation. -/
def memoryCreateLabel (entries : List MemoryEntry) (name : List (BitVec 8)) (ptr : Address)
    (isCode : Bool) : Bool × List MemoryEntry :=
  if h : name ≠ [] ∧ name.length ≤ maxNameLen then
    if (memoryLookupLabel entries name).isSome then (false,entries)
    else (true,entries ++ [EntryStore.labelEntry ⟨name,h.1,h.2⟩ ptr isCode])
  else (false,entries)

def defineLabelOptions : List MenuOption :=
  [⟨key 'c',"New Code Label"⟩,⟨key 'd',"New Data Label"⟩,⟨key 'q',"Quit"⟩]

/-- A name that cannot be taken leads back to the menu. -/
def tryNewLabel (entries : List MemoryEntry) (addr : Address) (isCode : Bool) :
    Reader Key (Unit ⊕ List MemoryEntry) := do
  let name ← ioGetline
  pure (if (memoryCreateLabel entries name addr isCode).1 then
    .inr (memoryCreateLabel entries name addr isCode).2 else .inl ())

/-- One round of `define_new_label`, which ends with the entries. -/
def defineLabelRound (entries : List MemoryEntry) (addr : Address) (_ : Unit) :
    Reader Key (Unit ⊕ List MemoryEntry) := do
  let opt ← menu defineLabelOptions
  if opt = key 'c' ∨ opt = key 'd' then tryNewLabel entries addr (opt = key 'c')
  else pure (.inr entries)

theorem defineLabelRound_takes (entries : List MemoryEntry) (addr : Address) (s : Unit) :
    Takes (defineLabelRound entries addr s) := (takes_menu _).bind_left _

def defineNewLabel (entries : List MemoryEntry) (addr : Address) :
    Reader Key (List MemoryEntry) :=
  rounds (defineLabelRound entries addr) (defineLabelRound_takes entries addr) ()

/-! ## The loop -/

def assembleOptions : List MenuOption :=
  [⟨key 'a',"A.."⟩,⟨key 'b',"B..."⟩,⟨key 'c',"CMP"⟩,⟨key 'l',"LDR"⟩,⟨key 'm',"M..."⟩,
   ⟨key 'n',"NOP"⟩,⟨key 'p',"P..."⟩,⟨key 's',"S..."⟩,⟨key 'u',"UDF"⟩,⟨key 'x',"BKPT"⟩,
   ⟨key ':',"Define Label"⟩,⟨key '.',"Specify Width"⟩,⟨ctrl 'c',"Call Assembly"⟩,
   ⟨ctrl 'p',"Print Assembly"⟩,⟨key '0',"Up to start"⟩,⟨key '$',"Down to end"⟩,
   ⟨ctrl 'u',"Up"⟩,⟨ctrl 'd',"Down"⟩,⟨ctrl 'r',"Rewind Instruction"⟩,⟨ctrl 'q',"Quit"⟩]

/-- No walk over the addresses takes more rounds than there are addresses. -/
def addressCount : ℕ := 2 ^ 32

/-- What the called function does to memory and to the entries of the store. -/
abbrev Call := Address → Memory × List MemoryEntry → Reader Key (Memory × List MemoryEntry)

section
variable (monitorCallFunction : Call) (s : EditorSession)

/-- Go on with the head of the loop. -/
def EditorSession.goOn (editor : EditorState) : EditorSession ⊕ EditorSession :=
  .inl { s with editor := loopHead editor }

/-- A command that reads no further keys. -/
def EditorSession.run (command : EditorCommand) : Reader Key (EditorSession ⊕ EditorSession) := do
  let editor ← ofOption (runCommand s.editor addressCount command)
  pure (s.goOn editor)

/-- One round of `monitor_assemble`, from the menu on. The last round leaves the editor. -/
def assembleRound : Reader Key (EditorSession ⊕ EditorSession) := do
  let opt ← menu assembleOptions
  if opt = key 'a' then do
    let editor ← assembleA s.editor
    pure (s.goOn editor)
  else if opt = key 'b' then do
    let editor ← assembleB s.entries s.editor
    pure (s.goOn editor)
  else if opt = key 'c' then do
    let editor ← assembleCmp s.editor
    pure (s.goOn editor)
  else if opt = key 'l' then do
    let editor ← assembleLdrKeys s.entries s.editor
    pure (s.goOn editor)
  else if opt = key 'm' then do
    let editor ← assembleM s.editor
    pure (s.goOn editor)
  else if opt = key 'n' then
    pure (s.goOn (s.editor.showResult (s.editor.resetInstruction .nop)))
  else if opt = key 'p' then do
    let editor ← assembleP s.editor
    pure (s.goOn editor)
  else if opt = key 's' then do
    let editor ← assembleS s.editor
    pure (s.goOn editor)
  else if opt = key 'u' then do
    let editor ← assembleNumber s.editor .udf
    pure (s.goOn editor)
  else if opt = key 'x' then do
    let editor ← assembleNumber s.editor .bkpt
    pure (s.goOn editor)
  else if opt = key ':' then do
    let entries ← defineNewLabel s.entries s.editor.addr
    pure (.inl { editor := loopHead s.editor, entries })
  else if opt = key '.' then do
    let widthSpecifier ← menuPresetInstructionWidthMenu s.editor.widthSpecifier
    s.run (.specifyWidth widthSpecifier)
  else if opt = ctrl 'c' then do
    let fnAddress := armAddressSetThumbIntwrkBit s.editor.startingAddr true
    let world ← monitorCallFunction fnAddress (s.editor.memory,s.entries)
    pure (.inl { editor := loopHead { s.editor with memory := world.1 }, entries := world.2 })
  else if opt = ctrl 'p' then do
    let _ ← ofOption (printAssembly s.entries s.editor addressCount)
    pure (s.goOn s.editor)
  else if opt = key '0' then s.run .upToStart
  else if opt = key '$' then s.run .downToEnd
  else if opt = ctrl 'u' then s.run .up
  else if opt = ctrl 'd' then s.run .down
  else if opt = ctrl 'r' then s.run .rewindInstruction
  else pure (.inr s)

end

theorem assembleRound_takes (monitorCallFunction : Call) (s : EditorSession) :
    Takes (assembleRound monitorCallFunction s) := (takes_menu _).bind_left _

/-- The editor when its loop begins. -/
def startSession (memory : Memory) (entries : List MemoryEntry) (addr : Address)
    (memorySection : Option SectionEntry) : EditorSession where
  editor := monitorAssemble memory addr memorySection
  entries := entries

/-- `monitor_assemble`, from the start. -/
def monitorAssembleKeys (monitorCallFunction : Call) (memory : Memory)
    (entries : List MemoryEntry) (addr : Address) (memorySection : Option SectionEntry) :
    Reader Key EditorSession :=
  rounds (assembleRound monitorCallFunction) (assembleRound_takes monitorCallFunction)
    (startSession memory entries addr memorySection)

/-! ## The commands of a session -/

/-- The specifications of the menus, without their width. -/
inductive Offered : ThumbInstructionSpec → Prop
  | dataImmediate {mnemonic : ThumbMnemonic} (h : mnemonic ∈ [.add,.adds,.addw,.sub,.subs,.subw])
      (rd rn imm : BitVec 32) (himm : 0 ≤ imm.toInt) :
      Offered { mnemonic, operands := [.reg rd,.reg rn,.immediate imm] }
  | dataRegister {mnemonic : ThumbMnemonic} (h : mnemonic ∈ [.add,.adds,.sub,.subs])
      (rd rn rm : BitVec 32) : Offered { mnemonic, operands := [.reg rd,.reg rn,.reg rm] }
  | branch (condition : ThumbCondition) (h : condition.toNat ≤ 15) (label : BitVec 32) :
      Offered { mnemonic := .b, condition, operands := [.signedImmediate label] }
  | branchLink (label : BitVec 32) :
      Offered { mnemonic := .bl, operands := [.signedImmediate label] }
  | branchRegister {mnemonic : ThumbMnemonic} (h : mnemonic ∈ [.blx,.bx]) (rm : BitVec 32) :
      Offered { mnemonic, operands := [.reg rm] }
  | compareImmediate (rn imm : BitVec 32) (himm : 0 ≤ imm.toInt) :
      Offered { mnemonic := .cmp, operands := [.reg rn,.immediate imm] }
  | compareRegister (rn rm : BitVec 32) :
      Offered { mnemonic := .cmp, operands := [.reg rn,.reg rm] }
  | loadImmediate {addressingMode : AddressingMode}
      (h : addressingMode ∈ [.offset,.preindex,.postindex]) (rt rn simm : BitVec 32) :
      Offered
        { mnemonic := .ldr, addressingMode, operands := [.reg rt,.reg rn,.signedImmediate simm] }
  | loadRegister (rt rn rm : BitVec 32) :
      Offered
        { mnemonic := .ldr, addressingMode := .offset, operands := [.reg rt,.reg rn,.reg rm] }
  | loadShifted (rt rn rm shift : BitVec 32) :
      Offered
        { mnemonic := .ldr, addressingMode := .offset
          operands := [.reg rt,.reg rn,.reg rm,.lslShift shift] }
  | moveImmediate {mnemonic : ThumbMnemonic} (h : mnemonic ∈ [.mov,.movs,.movw])
      (rd imm : BitVec 32) (himm : 0 ≤ imm.toInt) :
      Offered { mnemonic, operands := [.reg rd,.immediate imm] }
  | moveRegister {mnemonic : ThumbMnemonic} (h : mnemonic ∈ [.mov,.movs]) (rd rm : BitVec 32) :
      Offered { mnemonic, operands := [.reg rd,.reg rm] }
  | nop : Offered { mnemonic := .nop }
  | registerList {mnemonic : ThumbMnemonic} (h : mnemonic ∈ [.push,.pop]) (reglist : BitVec 16) :
      Offered { mnemonic, operands := [.reglist reglist] }
  | number {mnemonic : ThumbMnemonic} (h : mnemonic ∈ [.svc,.udf,.bkpt]) (imm : BitVec 32)
      (himm : 0 ≤ imm.toInt) : Offered { mnemonic, operands := [.immediate imm] }

/-- The commands that the user has keys for. -/
def HasKeys : EditorCommand → Prop
  | .assemble instruction => Offered instruction
  | _ => True

/-- A session moves on by a command of the editor, a new label or a call. -/
inductive SessionMove (monitorCallFunction : Call) (s : EditorSession) : EditorSession → Prop
  | stay : SessionMove monitorCallFunction s s
  | command {command : EditorCommand} {fuel : ℕ} {editor : EditorState} (hkeys : HasKeys command)
      (hstep : step s.editor fuel command = some editor) :
      SessionMove monitorCallFunction s { s with editor }
  | label {isCode : Bool} {name : List (BitVec 8)} {entries : List MemoryEntry}
      (hname : Typable name)
      (hcreated : memoryCreateLabel s.entries name s.editor.addr isCode = (true,entries)) :
      SessionMove monitorCallFunction s { s with entries }
  | call {memory : Memory} {entries : List MemoryEntry}
      (hcall : Returns (monitorCallFunction
        (armAddressSetThumbIntwrkBit s.editor.startingAddr true) (s.editor.memory,s.entries))
        (memory,entries)) :
      SessionMove monitorCallFunction s { editor := { s.editor with memory }, entries }

/-- The head of the loop has been passed. -/
def AtMenu (s : EditorSession) : Prop := ¬s.editor.endAddr < s.editor.addr

theorem loopHead_atMenu {s : EditorState} (h : ¬s.endAddr < s.addr) : loopHead s = s := if_neg h

theorem atMenu_loopHead (s : EditorState) : ¬(loopHead s).endAddr < (loopHead s).addr := by
  unfold loopHead
  split
  · exact fun h => by
      have hlt : s.addr < s.addr := h
      bv_omega
  · next h => exact h

/-- As many rounds as there are addresses are enough for every command. -/
theorem runCommand_bounded {s t : EditorState} {fuel : ℕ} {command : EditorCommand}
    (h : runCommand s fuel command = some t) :
    runCommand s addressCount command = some t := by
  have hprevious {start current previous : Address}
      (hs : previousThumbInstruction s.memory start current fuel = some previous) :
      previousThumbInstruction s.memory start current addressCount = some previous := by
    unfold previousThumbInstruction at hs ⊢
    split at hs
    · next hle =>
        rw [if_pos hle]
        exact search_bounded BitVec.toNat_injective BitVec.isLt hs
    · simp at hs
  cases command with
  | up =>
      simp only [runCommand] at h ⊢
      split at h
      · next hlt =>
          obtain ⟨addr,haddr,ht⟩ := Option.bind_eq_some_iff.mp h
          rw [if_pos hlt,hprevious haddr]
          exact ht
      · next hlt => rwa [if_neg hlt]
  | rewindInstruction =>
      simp only [runCommand] at h ⊢
      split at h
      · next hlt =>
          obtain ⟨endAddr,hend,ht⟩ := Option.bind_eq_some_iff.mp h
          rw [if_pos hlt,hprevious hend]
          exact ht
      · next hlt => rwa [if_neg hlt]
  | assemble instruction => exact h
  | specifyWidth widthSpecifier => exact h
  | upToStart => exact h
  | downToEnd => exact h
  | down => exact h

/-! ## Rounds and moves -/

theorem assembleOptions_usable : Usable assembleOptions := by decide

theorem defineLabelOptions_usable : Usable defineLabelOptions := by decide

section
variable {monitorCallFunction : Call} {s t : EditorSession}

/-- The branches of the switch. -/
theorem returns_assembleRound {u : EditorSession ⊕ EditorSession} :
    Returns (assembleRound monitorCallFunction s) u ↔
      (∃ editor, (Returns (assembleA s.editor) editor ∨
        Returns (assembleB s.entries s.editor) editor ∨
        Returns (assembleCmp s.editor) editor ∨
        Returns (assembleLdrKeys s.entries s.editor) editor ∨
        Returns (assembleM s.editor) editor ∨
        editor = s.editor.showResult (s.editor.resetInstruction .nop) ∨
        Returns (assembleP s.editor) editor ∨ Returns (assembleS s.editor) editor ∨
        Returns (assembleNumber s.editor .udf) editor ∨
        Returns (assembleNumber s.editor .bkpt) editor) ∧ u = s.goOn editor) ∨
      (∃ entries, Returns (defineNewLabel s.entries s.editor.addr) entries ∧
        u = .inl { editor := loopHead s.editor, entries }) ∨
      (∃ widthSpecifier, Returns (s.run (.specifyWidth widthSpecifier)) u) ∨
      (∃ memory entries, Returns (monitorCallFunction
          (armAddressSetThumbIntwrkBit s.editor.startingAddr true) (s.editor.memory,s.entries))
          (memory,entries) ∧
        u = .inl { editor := loopHead { s.editor with memory }, entries }) ∨
      (∃ listing, printAssembly s.entries s.editor addressCount = some listing ∧
        u = s.goOn s.editor) ∨
      Returns (s.run .upToStart) u ∨ Returns (s.run .downToEnd) u ∨ Returns (s.run .up) u ∨
      Returns (s.run .down) u ∨ Returns (s.run .rewindInstruction) u ∨ u = .inr s := by
  rw [assembleRound,returns_menu_bind assembleOptions_usable]
  simp only [assembleOptions,List.mem_cons,List.not_mem_nil,or_false,exists_eq_or_imp,
    exists_eq_left]
  simp [key,ctrl,or_and_right,exists_or,or_assoc]

theorem returns_run {command : EditorCommand} {u : EditorSession ⊕ EditorSession} :
    Returns (s.run command) u ↔
      ∃ editor, runCommand s.editor addressCount command = some editor ∧ u = s.goOn editor := by
  simp only [EditorSession.run,returns_bind,returns_ofOption,returns_pure]

theorem returns_tryNewLabel {entries entries' : List MemoryEntry} {addr : Address} {isCode : Bool} :
    Returns (tryNewLabel entries addr isCode) (.inr entries') ↔
      ∃ name, Typable name ∧ memoryCreateLabel entries name addr isCode = (true,entries') := by
  simp only [tryNewLabel,returns_bind,returns_ioGetline,returns_pure]
  refine exists_congr fun name => and_congr_right fun _ => ?_
  rcases memoryCreateLabel entries name addr isCode with ⟨_ | _,created⟩
  · simp
  · simp [eq_comm]

/-- A label is typed until it can be created, or the menu is left. -/
theorem returns_defineNewLabel {entries entries' : List MemoryEntry} {addr : Address} :
    Returns (defineNewLabel entries addr) entries' ↔ entries' = entries ∨
      ∃ isCode name, Typable name ∧
        memoryCreateLabel entries name addr isCode = (true,entries') := by
  have hlast : Returns (defineLabelRound entries addr ()) (.inr entries') ↔
      entries' = entries ∨ ∃ isCode name, Typable name ∧
        memoryCreateLabel entries name addr isCode = (true,entries') := by
    rw [defineLabelRound,returns_menu_bind defineLabelOptions_usable]
    simp only [defineLabelOptions,List.mem_cons,List.not_mem_nil,or_false,exists_eq_or_imp,
      exists_eq_left]
    simp only [key]
    simp [returns_tryNewLabel,Bool.exists_bool]
    constructor
    · rintro (hcode | hdata | hquit)
      · exact .inr (.inr hcode)
      · exact .inr (.inl hdata)
      · exact .inl hquit
    · rintro (hquit | hdata | hcode)
      · exact .inr (.inr hquit)
      · exact .inr (.inl hdata)
      · exact .inl hcode
  rw [defineNewLabel,returns_rounds]
  constructor
  · rintro ⟨_,_,h⟩
    exact hlast.mp h
  · exact fun h => ⟨(),.refl,hlast.mpr h⟩

/-- A menu hands an offered specification to the assembler, or is left. -/
def MenuResult (s e : EditorState) : Prop :=
  e = s ∨ ∃ instruction, Offered instruction ∧ e = s.assembles instruction

section
variable {e : EditorState}

theorem menuResult_a (h : Returns (assembleA s.editor) e) : MenuResult s.editor e := by
  rcases returns_assembleA.mp h with
    ⟨mnemonic,hm,rd,rn,imm,himm,he⟩ | ⟨mnemonic,hm,rd,rn,rm,he⟩ | he
  · exact .inr ⟨_,.dataImmediate (List.mem_append_left [.sub,.subs,.subw] hm) rd rn imm himm,he⟩
  · exact .inr ⟨_,.dataRegister (List.mem_append_left [.sub,.subs] hm) rd rn rm,he⟩
  · exact .inl he

theorem menuResult_b (h : Returns (assembleB s.entries s.editor) e) : MenuResult s.editor e := by
  rcases returns_assembleB.mp h with ⟨condition,hc,label,he⟩ | ⟨label,he⟩ | ⟨mnemonic,hm,rm,he⟩ | he
  · exact .inr ⟨_,.branch condition hc label,he⟩
  · exact .inr ⟨_,.branchLink label,he⟩
  · exact .inr ⟨_,.branchRegister hm rm,he⟩
  · exact .inl he

theorem menuResult_cmp (h : Returns (assembleCmp s.editor) e) : MenuResult s.editor e := by
  rcases returns_assembleCmp.mp h with ⟨rn,⟨imm,himm,he⟩ | ⟨rm,he⟩⟩
  · exact .inr ⟨_,.compareImmediate rn imm himm,he⟩
  · exact .inr ⟨_,.compareRegister rn rm,he⟩

theorem menuResult_ldr (h : Returns (assembleLdrKeys s.entries s.editor) e) :
    MenuResult s.editor e := by
  rcases returns_assembleLdr.mp h with ⟨rt,rn,⟨mode,hmode,simm,he⟩ | ⟨rm,he | ⟨shift,he⟩⟩⟩
  · exact .inr ⟨_,.loadImmediate hmode rt rn simm,he⟩
  · exact .inr ⟨_,.loadRegister rt rn rm,he⟩
  · exact .inr ⟨_,.loadShifted rt rn rm shift,he⟩

theorem menuResult_m (h : Returns (assembleM s.editor) e) : MenuResult s.editor e := by
  rcases returns_assembleM.mp h with ⟨mnemonic,hm,rd,imm,himm,he⟩ | ⟨mnemonic,hm,rd,rm,he⟩ | he
  · exact .inr ⟨_,.moveImmediate hm rd imm himm,he⟩
  · exact .inr ⟨_,.moveRegister hm rd rm,he⟩
  · exact .inl he

theorem menuResult_p (h : Returns (assembleP s.editor) e) : MenuResult s.editor e := by
  rcases returns_assembleP.mp h with ⟨mnemonic,hm,reglist,he⟩ | he
  · exact .inr ⟨_,.registerList hm reglist,he⟩
  · exact .inl he

theorem menuResult_s (h : Returns (assembleS s.editor) e) : MenuResult s.editor e := by
  rcases returns_assembleS.mp h with ⟨mnemonic,hm,rd,rn,imm,himm,he⟩ | ⟨mnemonic,hm,rd,rn,rm,he⟩ |
    ⟨imm,himm,he⟩ | he
  · exact .inr ⟨_,.dataImmediate (List.mem_append_right [.add,.adds,.addw] hm) rd rn imm himm,he⟩
  · exact .inr ⟨_,.dataRegister (List.mem_append_right [.add,.adds] hm) rd rn rm,he⟩
  · exact .inr ⟨_,.number (by decide) imm himm,he⟩
  · exact .inl he

theorem menuResult_number {mnemonic : ThumbMnemonic} (hm : mnemonic ∈ [.svc,.udf,.bkpt])
    (h : Returns (assembleNumber s.editor mnemonic) e) : MenuResult s.editor e := by
  obtain ⟨imm,himm,he⟩ := returns_assembleNumber.mp h
  exact .inr ⟨_,.number hm imm himm,he⟩

end

/-! ### What is typed is a move -/

theorem sessionMove_command {command : EditorCommand} {fuel : ℕ} {e : EditorState}
    (hkeys : HasKeys command) (hrun : runCommand s.editor fuel command = some e) :
    SessionMove monitorCallFunction s { s with editor := loopHead e } :=
  .command hkeys (by rw [step,hrun]; rfl)

theorem sessionMove_menu (hs : AtMenu s) {e : EditorState} (h : MenuResult s.editor e) :
    SessionMove monitorCallFunction s { s with editor := loopHead e } := by
  rcases h with rfl | ⟨instruction,hoffered,rfl⟩
  · rw [loopHead_atMenu hs]
    exact .stay
  · exact @sessionMove_command _ s (.assemble instruction) 0 _ hoffered rfl

theorem sessionMove_run {command : EditorCommand} (h : Returns (s.run command) (.inl t))
    (hkeys : HasKeys command) : SessionMove monitorCallFunction s t := by
  obtain ⟨editor,hrun,ht⟩ := returns_run.mp h
  obtain rfl := Sum.inl.inj ht
  exact sessionMove_command hkeys hrun

/-- Whatever the keys of a round are, the round is a move of the session. -/
theorem move_of_round (hs : AtMenu s) (h : Round (assembleRound monitorCallFunction) s t) :
    SessionMove monitorCallFunction s t := by
  have hhead := loopHead_atMenu hs
  rcases returns_assembleRound.mp h with ⟨e,hmenu,ht⟩ | ⟨entries,hlabel,ht⟩ | ⟨width,hrun⟩ |
    ⟨memory,entries,hcall,ht⟩ | ⟨_,_,ht⟩ | hrun | hrun | hrun | hrun | hrun | hquit
  · obtain rfl := Sum.inl.inj ht
    refine sessionMove_menu hs ?_
    rcases hmenu with ha | hb | hc | hl | hm | hn | hp | hmenu | hu | hx
    · exact menuResult_a ha
    · exact menuResult_b hb
    · exact menuResult_cmp hc
    · exact menuResult_ldr hl
    · exact menuResult_m hm
    · exact .inr ⟨_,.nop,hn⟩
    · exact menuResult_p hp
    · exact menuResult_s hmenu
    · exact menuResult_number (by decide) hu
    · exact menuResult_number (by decide) hx
  · obtain rfl := Sum.inl.inj ht
    rw [hhead]
    rcases returns_defineNewLabel.mp hlabel with rfl | ⟨isCode,name,hname,hcreated⟩
    · exact .stay
    · exact .label hname hcreated
  · exact sessionMove_run hrun trivial
  · obtain rfl := Sum.inl.inj ht
    have hcalled : SessionMove monitorCallFunction s _ := .call hcall
    rw [← @loopHead_atMenu { s.editor with memory } hs] at hcalled
    exact hcalled
  · obtain rfl := Sum.inl.inj ht
    rw [hhead]
    exact .stay
  · exact sessionMove_run hrun trivial
  · exact sessionMove_run hrun trivial
  · exact sessionMove_run hrun trivial
  · exact sessionMove_run hrun trivial
  · exact sessionMove_run hrun trivial
  · cases hquit

/-! ### Every move can be typed -/

/-- The menu of an offered specification. -/
theorem offered_typed {instruction : ThumbInstructionSpec} (h : Offered instruction) :
    Returns (assembleRound monitorCallFunction s) (s.goOn (s.editor.assembles instruction)) := by
  refine returns_assembleRound.mpr (.inl ⟨_,?_,rfl⟩)
  cases h with
  | @dataImmediate mnemonic h rd rn imm himm =>
      rcases List.mem_append.mp (show mnemonic ∈ [.add,.adds,.addw] ++ [.sub,.subs,.subw] from h)
        with hm | hm
      · have ha : Returns (assembleA s.editor) _ :=
          returns_assembleA.mpr (.inl ⟨mnemonic,hm,rd,rn,imm,himm,rfl⟩)
        simp only [ha,true_or]
      · have hs : Returns (assembleS s.editor) _ :=
          returns_assembleS.mpr (.inl ⟨mnemonic,hm,rd,rn,imm,himm,rfl⟩)
        simp only [hs,true_or,or_true]
  | @dataRegister mnemonic h rd rn rm =>
      rcases List.mem_append.mp (show mnemonic ∈ [.add,.adds] ++ [.sub,.subs] from h) with hm | hm
      · have ha : Returns (assembleA s.editor) _ :=
          returns_assembleA.mpr (.inr (.inl ⟨mnemonic,hm,rd,rn,rm,rfl⟩))
        simp only [ha,true_or]
      · have hs : Returns (assembleS s.editor) _ :=
          returns_assembleS.mpr (.inr (.inl ⟨mnemonic,hm,rd,rn,rm,rfl⟩))
        simp only [hs,true_or,or_true]
  | branch condition hc label =>
      have hb : Returns (assembleB s.entries s.editor) _ :=
        returns_assembleB.mpr (.inl ⟨condition,hc,label,rfl⟩)
      simp only [hb,true_or,or_true]
  | branchLink label =>
      have hb : Returns (assembleB s.entries s.editor) _ :=
        returns_assembleB.mpr (.inr (.inl ⟨label,rfl⟩))
      simp only [hb,true_or,or_true]
  | branchRegister hm rm =>
      have hb : Returns (assembleB s.entries s.editor) _ :=
        returns_assembleB.mpr (.inr (.inr (.inl ⟨_,hm,rm,rfl⟩)))
      simp only [hb,true_or,or_true]
  | compareImmediate rn imm himm =>
      have hc : Returns (assembleCmp s.editor) _ :=
        returns_assembleCmp.mpr ⟨rn,.inl ⟨imm,himm,rfl⟩⟩
      simp only [hc,true_or,or_true]
  | compareRegister rn rm =>
      have hc : Returns (assembleCmp s.editor) _ := returns_assembleCmp.mpr ⟨rn,.inr ⟨rm,rfl⟩⟩
      simp only [hc,true_or,or_true]
  | loadImmediate hmode rt rn simm =>
      have hl : Returns (assembleLdrKeys s.entries s.editor) _ :=
        returns_assembleLdr.mpr ⟨rt,rn,.inl ⟨_,hmode,simm,rfl⟩⟩
      simp only [hl,true_or,or_true]
  | loadRegister rt rn rm =>
      have hl : Returns (assembleLdrKeys s.entries s.editor) _ :=
        returns_assembleLdr.mpr ⟨rt,rn,.inr ⟨rm,.inl rfl⟩⟩
      simp only [hl,true_or,or_true]
  | loadShifted rt rn rm shift =>
      have hl : Returns (assembleLdrKeys s.entries s.editor) _ :=
        returns_assembleLdr.mpr ⟨rt,rn,.inr ⟨rm,.inr ⟨shift,rfl⟩⟩⟩
      simp only [hl,true_or,or_true]
  | moveImmediate hm rd imm himm =>
      have hmov : Returns (assembleM s.editor) _ :=
        returns_assembleM.mpr (.inl ⟨_,hm,rd,imm,himm,rfl⟩)
      simp only [hmov,true_or,or_true]
  | moveRegister hm rd rm =>
      have hmov : Returns (assembleM s.editor) _ :=
        returns_assembleM.mpr (.inr (.inl ⟨_,hm,rd,rm,rfl⟩))
      simp only [hmov,true_or,or_true]
  | nop =>
      have hnop : s.editor.assembles { mnemonic := .nop } =
          s.editor.showResult (s.editor.resetInstruction .nop) := rfl
      simp only [hnop,true_or,or_true]
  | registerList hm reglist =>
      have hp : Returns (assembleP s.editor) _ := returns_assembleP.mpr (.inl ⟨_,hm,reglist,rfl⟩)
      simp only [hp,true_or,or_true]
  | @number mnemonic hm imm himm =>
      have hn (mnemonic : ThumbMnemonic) : Returns (assembleNumber s.editor mnemonic) _ :=
        returns_assembleNumber.mpr ⟨imm,himm,rfl⟩
      simp only [List.mem_cons,List.not_mem_nil,or_false] at hm
      rcases hm with rfl | rfl | rfl
      · have hs : Returns (assembleS s.editor) _ :=
          returns_assembleS.mpr (.inr (.inr (.inl ⟨imm,himm,rfl⟩)))
        simp only [hs,true_or,or_true]
      · simp only [hn,true_or,or_true]
      · simp only [hn,or_true]

theorem run_typed {command : EditorCommand} {fuel : ℕ} {e : EditorState}
    (h : runCommand s.editor fuel command = some e) : Returns (s.run command) (s.goOn e) :=
  returns_run.mpr ⟨e,runCommand_bounded h,rfl⟩

/-- There are keys for every move of the session. -/
theorem round_of_move (hs : AtMenu s) (h : SessionMove monitorCallFunction s t) :
    Round (assembleRound monitorCallFunction) s t := by
  have hhead := loopHead_atMenu hs
  cases h with
  | stay =>
      have hleave : Returns (assembleA s.editor) s.editor := returns_assembleA.mpr (.inr (.inr rfl))
      refine returns_assembleRound.mpr (.inl ⟨s.editor,.inl hleave,?_⟩)
      rw [EditorSession.goOn,hhead]
  | @command command fuel editor hkeys hstep =>
      obtain ⟨e,hrun,rfl⟩ := Option.map_eq_some_iff.mp hstep
      show Returns _ (s.goOn e)
      have htyped : Returns (s.run command) (s.goOn e) := run_typed hrun
      cases command with
      | assemble instruction =>
          obtain rfl := Option.some.inj hrun
          exact offered_typed hkeys
      | specifyWidth width =>
          exact returns_assembleRound.mpr (.inr (.inr (.inl ⟨width,htyped⟩)))
      | upToStart => simp only [returns_assembleRound,htyped,true_or,or_true]
      | downToEnd => simp only [returns_assembleRound,htyped,true_or,or_true]
      | up => simp only [returns_assembleRound,htyped,true_or,or_true]
      | down => simp only [returns_assembleRound,htyped,true_or,or_true]
      | rewindInstruction => simp only [returns_assembleRound,htyped,true_or,or_true]
  | label hname hcreated =>
      have hlabel := returns_defineNewLabel.mpr (.inr ⟨_,_,hname,hcreated⟩)
      refine returns_assembleRound.mpr (.inr (.inl ⟨_,hlabel,?_⟩))
      rw [hhead]
  | @call memory entries hcall =>
      refine returns_assembleRound.mpr (.inr (.inr (.inr (.inl ⟨memory,entries,hcall,?_⟩))))
      rw [@loopHead_atMenu { s.editor with memory } hs]

theorem SessionMove.atMenu (h : SessionMove monitorCallFunction s t) (hs : AtMenu s) :
    AtMenu t := by
  cases h with
  | stay => exact hs
  | command hkeys hstep =>
      obtain ⟨e,_,rfl⟩ := Option.map_eq_some_iff.mp hstep
      exact atMenu_loopHead e
  | label hname hcreated => exact hs
  | call hcall => exact hs

theorem visits_iff_moves (hs : AtMenu s) :
    ReflTransGen (Round (assembleRound monitorCallFunction)) s t ↔
      ReflTransGen (SessionMove monitorCallFunction) s t := by
  constructor
  · intro h
    have hmoves : ReflTransGen (SessionMove monitorCallFunction) s t ∧ AtMenu t := by
      induction h with
      | refl => exact ⟨.refl,hs⟩
      | tail _ hround ih =>
          have hmove := move_of_round ih.2 hround
          exact ⟨ih.1.tail hmove,hmove.atMenu ih.2⟩
    exact hmoves.1
  · intro h
    have hrounds : ReflTransGen (Round (assembleRound monitorCallFunction)) s t ∧ AtMenu t := by
      induction h with
      | refl => exact ⟨.refl,hs⟩
      | tail _ hmove ih => exact ⟨ih.1.tail (round_of_move ih.2 hmove),hmove.atMenu ih.2⟩
    exact hrounds.1

end

theorem atMenu_startSession (memory : Memory) (entries : List MemoryEntry) (addr : Address)
    (memorySection : Option SectionEntry) :
    AtMenu (startSession memory entries addr memorySection) := by
  unfold AtMenu startSession monitorAssemble
  cases memorySection with
  | none => exact atMenu_loopHead _
  | some entry => exact atMenu_loopHead _

/-- Whatever keys are typed, they are whole commands of the editor, new labels and calls, behind
which one more may have begun; and every sequence of these can be typed. -/
theorem editorSession_refines (monitorCallFunction : Call) (memory : Memory)
    (entries : List MemoryEntry) (addr : Address) (memorySection : Option SectionEntry) :
    (∀ keys, ∃ t typed rest, keys = typed ++ rest ∧
      Typed (assembleRound monitorCallFunction) (startSession memory entries addr memorySection)
        typed t ∧
      ReflTransGen (SessionMove monitorCallFunction)
        (startSession memory entries addr memorySection) t ∧
      ∀ u left, (assembleRound monitorCallFunction t).run rest ≠ .returned (.inl u) left) ∧
    ∀ t, ReflTransGen (SessionMove monitorCallFunction)
        (startSession memory entries addr memorySection) t →
      ∃ keys, Typed (assembleRound monitorCallFunction)
        (startSession memory entries addr memorySection) keys t := by
  have hstart := atMenu_startSession memory entries addr memorySection
  constructor
  · intro keys
    obtain ⟨t,typed,rest,hkeys,htyped,hlast⟩ :=
      history (assembleRound_takes monitorCallFunction)
        (startSession memory entries addr memorySection) keys
    exact ⟨t,typed,rest,hkeys,htyped,(visits_iff_moves hstart).mp htyped.visits,hlast⟩
  · intro t ht
    exact exists_typed ((visits_iff_moves hstart).mpr ht)

end TwMonitor.Editor
