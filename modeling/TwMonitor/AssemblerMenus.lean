import TwMonitor.MenuPresets
import TwMonitor.MonitorAssemble

/-!
# The menus of the assembler

The keys behind an instruction of the editor. Every menu builds the specification that
it hands to the assembler from prompts, operand by operand, and adding an operand
asserts that there is room for it. Together the menus offer a table of specifications:
each of them can be typed, and nothing else reaches the assembler.
-/
namespace TwMonitor.Editor
open ByteMemory Input MemoryStore Menu NumberPad Thumb

/-- `assemble_and_show_result`, at the cursor. -/
def EditorState.showResult (s : EditorState) (instruction : ThumbInstructionSpec) : EditorState :=
  let result := assembleAndShowResult s.addr instruction s.memory
  { s with addr := result.1, memory := result.2 }

/-! ## Operands -/

/-- The prompts of the four functions differ, and nothing else. -/
def addReg (instruction : ThumbInstructionSpec) : Reader Key ThumbInstructionSpec := do
  let reg ← menuPresetRegister
  ofOption (thumbAddOperandReg instruction reg)

def addRegRt := addReg

def addRegRd := addReg

def addRegRn := addReg

def addRegRm := addReg

/-- One round of `add_immediate`. -/
def immediateRound (_ : Unit) : Reader Key (Unit ⊕ BitVec 32) := do
  let imm ← menuNumberPlain 0
  pure (if imm.slt 0 then .inl () else .inr imm)

theorem immediateRound_takes (s : Unit) : Takes (immediateRound s) :=
  (@takes_rounds _ _ _ _ (menuNumberRound_takes 0 [] fun number _ => (number,{})) _).bind_left _

def addImmediate (instruction : ThumbInstructionSpec) : Reader Key ThumbInstructionSpec := do
  let imm ← rounds immediateRound immediateRound_takes ()
  ofOption (thumbAddOperandImmediate instruction imm)

def addSignedImmediate (instruction : ThumbInstructionSpec) :
    Reader Key ThumbInstructionSpec := do
  let simm ← menuNumberPlain 0
  ofOption (thumbAddOperandSignedImmediate instruction simm)

def addLabelKeys (entries : List MemoryEntry) (instruction : ThumbInstructionSpec) (addr : Address)
    (code : Bool) : Reader Key ThumbInstructionSpec := do
  let label ← relativeLabelReader entries addr code
  ofOption (thumbAddOperandSignedImmediate instruction label)

def addressingModeOpts : List MenuOption :=
  [⟨key ' ',"Base Offset"⟩,⟨key '!',"Pre-Indexing Offset"⟩,⟨key ',',"Post-Indexing Offset"⟩]

/-- The mode is already `offset`. -/
def setAddressingModeKeys (instruction : ThumbInstructionSpec) :
    Reader Key ThumbInstructionSpec := do
  let opt ← menu addressingModeOpts
  pure (if opt = key '!' then setAddressingMode instruction .preIndexing
    else if opt = key ',' then setAddressingMode instruction .postIndexing
    else setAddressingMode instruction .baseOffset)

def lslShiftOpts : List MenuOption := [⟨key ' ',"No Shift"⟩,⟨key 'l',"LSL"⟩]

def addOptionalLslShift (instruction : ThumbInstructionSpec) :
    Reader Key ThumbInstructionSpec := do
  let opt ← menu lslShiftOpts
  if opt = key 'l' then do
    let shift ← gethexwordReader 0
    ofOption (thumbAddOperandLslshift instruction shift)
  else pure instruction

/-! ## The menus -/

section
variable (entries : List MemoryEntry) (s : EditorState)

/-- An instruction is specified anew in every round, with the width of the editor. -/
def EditorState.resetInstruction (mnemonic : ThumbMnemonic) : ThumbInstructionSpec :=
  s.specify { mnemonic }

/-- The keys behind `i`, `I` and `w` in `assemble_a` and `assemble_s`. -/
def assembleRdRnImmediate (mnemonic : ThumbMnemonic) : Reader Key EditorState := do
  let instruction ← addRegRd (s.resetInstruction mnemonic)
  let instruction ← addRegRn instruction
  let instruction ← addImmediate instruction
  pure (s.showResult instruction)

/-- The keys behind `r` and `R` in `assemble_a` and `assemble_s`. -/
def assembleRdRnRm (mnemonic : ThumbMnemonic) : Reader Key EditorState := do
  let instruction ← addRegRd (s.resetInstruction mnemonic)
  let instruction ← addRegRn instruction
  let instruction ← addRegRm instruction
  pure (s.showResult instruction)

/-- SVC, UDF and BKPT. -/
def assembleNumber (mnemonic : ThumbMnemonic) : Reader Key EditorState := do
  let instruction ← addImmediate (s.resetInstruction mnemonic)
  pure (s.showResult instruction)

def aOptions : List MenuOption :=
  [⟨key 'i',"ADD  Immediate"⟩,⟨key 'I',"ADDS Immediate"⟩,
   ⟨key 'w',"ADD  Immediate Wide (ADDW)"⟩,⟨key 'r',"ADD  Register"⟩,⟨key 'R',"ADDS Register"⟩,
   ⟨key 'q',"Quit Menu"⟩]

def assembleA : Reader Key EditorState := do
  let opt ← menu aOptions
  if opt = key 'i' ∨ opt = key 'I' ∨ opt = key 'w' then
    assembleRdRnImmediate s
      (if opt = key 'w' then .addw else if opt = key 'I' then .adds else .add)
  else if opt = key 'r' ∨ opt = key 'R' then
    assembleRdRnRm s (if opt = key 'R' then .adds else .add)
  else pure s

def bOptions : List MenuOption :=
  [⟨key 'b',"B"⟩,⟨key 'l',"BL"⟩,⟨key 'L',"BLX"⟩,⟨key 'x',"BX"⟩,⟨key 'q',"Quit Menu"⟩]

def assembleB : Reader Key EditorState := do
  let opt ← menu bOptions
  if opt = key 'b' then do
    let condition ← conditionReader
    let instruction := thumbSetCondition (s.resetInstruction .b) condition
    let instruction ← addLabelKeys entries instruction s.addr true
    pure (s.showResult instruction)
  else if opt = key 'l' then do
    let instruction ← addLabelKeys entries (s.resetInstruction .bl) s.addr true
    pure (s.showResult instruction)
  else if opt = key 'L' ∨ opt = key 'x' then do
    let mnemonic := if opt = key 'L' then .blx else .bx
    let instruction ← addRegRm (s.resetInstruction mnemonic)
    pure (s.showResult instruction)
  else pure s

def mOptions : List MenuOption :=
  [⟨key 'i',"MOV  Immediate"⟩,⟨key 'I',"MOVS Immediate"⟩,
   ⟨key 'w',"MOV  Immediate Wide (MOVW)"⟩,⟨key 'r',"MOV  Register"⟩,⟨key 'R',"MOVS Register"⟩,
   ⟨key 'q',"Quit Menu"⟩]

def assembleM : Reader Key EditorState := do
  let opt ← menu mOptions
  if opt = key 'i' ∨ opt = key 'I' ∨ opt = key 'w' then do
    let mnemonic := if opt = key 'w' then .movw else if opt = key 'I' then .movs else .mov
    let instruction ← addRegRd (s.resetInstruction mnemonic)
    let instruction ← addImmediate instruction
    pure (s.showResult instruction)
  else if opt = key 'r' ∨ opt = key 'R' then do
    let mnemonic := if opt = key 'R' then .movs else .mov
    let instruction ← addRegRd (s.resetInstruction mnemonic)
    let instruction ← addRegRm instruction
    pure (s.showResult instruction)
  else pure s

def pOptions : List MenuOption := [⟨key 'u',"PUSH"⟩,⟨key 'o',"POP"⟩,⟨key 'q',"Quit Menu"⟩]

def assembleP : Reader Key EditorState := do
  let opt ← menu pOptions
  if opt = key 'u' ∨ opt = key 'o' then do
    let reglist ← menuPresetRegisterList
    let mnemonic := if opt = key 'u' then .push else .pop
    let instruction ← ofOption (thumbAddOperandReglist (s.resetInstruction mnemonic) reglist)
    pure (s.showResult instruction)
  else pure s

def sOptions : List MenuOption :=
  [⟨key 'i',"SUB  Immediate"⟩,⟨key 'I',"SUBS Immediate"⟩,
   ⟨key 'w',"SUB  Immediate Wide (SUBW)"⟩,⟨key 'r',"SUB  Register"⟩,⟨key 'R',"SUBS Register"⟩,
   ⟨key 'v',"SVC"⟩,⟨key 'q',"Quit Menu"⟩]

def assembleS : Reader Key EditorState := do
  let opt ← menu sOptions
  if opt = key 'i' ∨ opt = key 'I' ∨ opt = key 'w' then
    assembleRdRnImmediate s
      (if opt = key 'w' then .subw else if opt = key 'I' then .subs else .sub)
  else if opt = key 'r' ∨ opt = key 'R' then
    assembleRdRnRm s (if opt = key 'R' then .subs else .sub)
  else if opt = key 'v' then assembleNumber s .svc
  else pure s

def ldrBaseOpts : List MenuOption :=
  [⟨key 'i',"PC Relative Immediate"⟩,⟨key 'l',"PC Relative Label"⟩,⟨key 'r',"Register Base"⟩]

def ldrOffsetOpts : List MenuOption :=
  [⟨key '0',"Zero Offset"⟩,⟨key 'i',"Immediate Offset"⟩,⟨key 'r',"Register Offset"⟩]

/-- The offset of a register base. -/
def ldrOffset (instruction : ThumbInstructionSpec) : Reader Key ThumbInstructionSpec := do
  let opt ← menu ldrOffsetOpts
  if opt = key '0' then ofOption (thumbAddOperandSignedImmediate instruction 0)
  else if opt = key 'i' then do
    let instruction ← addSignedImmediate instruction
    setAddressingModeKeys instruction
  else do
    let instruction ← addRegRm instruction
    addOptionalLslShift instruction

def assembleLdrKeys : Reader Key EditorState := do
  let instruction := thumbSetOperandAddressingMode (s.resetInstruction .ldr) .offset
  let instruction ← addRegRt instruction
  let opt ← menu ldrBaseOpts
  if opt = key 'i' then do
    let instruction ← ofOption (thumbAddOperandReg instruction 15)
    let instruction ← addSignedImmediate instruction
    pure (s.showResult instruction)
  else if opt = key 'l' then do
    let instruction ← ofOption (thumbAddOperandReg instruction 15)
    let instruction ← addLabelKeys entries instruction s.addr true
    pure (s.showResult instruction)
  else do
    let instruction ← addRegRn instruction
    let instruction ← ldrOffset instruction
    pure (s.showResult instruction)

def cmpOpts : List MenuOption := [⟨key 'i',"Immediate"⟩,⟨key 'r',"Register"⟩]

/-- The command for CMP. -/
def assembleCmp : Reader Key EditorState := do
  let instruction ← addRegRn (s.resetInstruction .cmp)
  let opt ← menu cmpOpts
  if opt = key 'i' then do
    let instruction ← addImmediate instruction
    pure (s.showResult instruction)
  else do
    let instruction ← addRegRm instruction
    pure (s.showResult instruction)

end

/-! ## What the prompts can return -/

@[simp] theorem returns_addReg {instruction t : ThumbInstructionSpec} :
    Returns (addReg instruction) t ↔ ∃ reg, newOperand instruction (.reg reg) = some t := by
  simp [addReg,thumbAddOperandReg,returns_menuPresetRegister]

/-- A negative number is asked for again. -/
theorem returns_immediate (imm : BitVec 32) :
    Returns (rounds immediateRound immediateRound_takes ()) imm ↔ 0 ≤ imm.toInt := by
  have hzero : (0 : BitVec 32).toInt = 0 := rfl
  have hlast (imm : BitVec 32) : Returns (immediateRound ()) (.inr imm) ↔ 0 ≤ imm.toInt := by
    simp only [immediateRound,menuNumberPlain,returns_bind,returns_menuNumberWith,true_and,
      returns_pure,BitVec.slt,decide_eq_true_eq,hzero]
    constructor
    · rintro ⟨n,hn⟩
      split at hn
      · simp at hn
      · rw [Sum.inr.inj hn]
        omega
    · intro h
      exact ⟨imm,by rw [if_neg (by omega)]⟩
  rw [returns_rounds]
  constructor
  · rintro ⟨_,_,h⟩
    exact (hlast imm).mp h
  · exact fun h => ⟨(),.refl,(hlast imm).mpr h⟩

@[simp] theorem returns_addImmediate {instruction t : ThumbInstructionSpec} :
    Returns (addImmediate instruction) t ↔
      ∃ imm, 0 ≤ imm.toInt ∧ newOperand instruction (.immediate imm) = some t := by
  simp [addImmediate,thumbAddOperandImmediate,returns_immediate]

@[simp] theorem returns_addSignedImmediate {instruction t : ThumbInstructionSpec} :
    Returns (addSignedImmediate instruction) t ↔
      ∃ simm, newOperand instruction (.signedImmediate simm) = some t := by
  simp [addSignedImmediate,thumbAddOperandSignedImmediate,menuNumberPlain]

@[simp] theorem returns_addLabelKeys {entries : List MemoryEntry} {addr : Address} {code : Bool}
    {instruction t : ThumbInstructionSpec} :
    Returns (addLabelKeys entries instruction addr code) t ↔
      ∃ label, newOperand instruction (.signedImmediate label) = some t := by
  simp [addLabelKeys,thumbAddOperandSignedImmediate]

theorem addressingModeOpts_usable : Usable addressingModeOpts := by decide

theorem lslShiftOpts_usable : Usable lslShiftOpts := by decide

@[simp] theorem returns_setAddressingModeKeys {instruction t : ThumbInstructionSpec} :
    Returns (setAddressingModeKeys instruction) t ↔ t = instruction ∨
      t = { instruction with addressingMode := .preindex } ∨
      t = { instruction with addressingMode := .postindex } := by
  rw [setAddressingModeKeys,returns_menu_bind addressingModeOpts_usable]
  simp [addressingModeOpts,key,setAddressingMode,thumbSetOperandAddressingMode]

@[simp] theorem returns_addOptionalLslShift {instruction t : ThumbInstructionSpec} :
    Returns (addOptionalLslShift instruction) t ↔ t = instruction ∨
      ∃ shift, newOperand instruction (.lslShift shift) = some t := by
  rw [addOptionalLslShift,returns_menu_bind lslShiftOpts_usable]
  simp [lslShiftOpts,key,thumbAddOperandLslshift]

/-! ## What each menu can return -/

/-- An instruction of the editor's width is assembled at the cursor. -/
def EditorState.assembles (s : EditorState) (instruction : ThumbInstructionSpec) : EditorState :=
  s.showResult (s.specify instruction)

section
variable {entries : List MemoryEntry} {s t : EditorState}

theorem returns_rdRnImmediate {mnemonic : ThumbMnemonic} :
    Returns (assembleRdRnImmediate s mnemonic) t ↔ ∃ rd rn imm, 0 ≤ imm.toInt ∧
      t = s.assembles { mnemonic, operands := [.reg rd,.reg rn,.immediate imm] } := by
  simp [assembleRdRnImmediate,addRegRd,addRegRn,newOperand,thumbMaxOperands,
    EditorState.resetInstruction,EditorState.assembles,EditorState.specify]

theorem returns_rdRnRm {mnemonic : ThumbMnemonic} :
    Returns (assembleRdRnRm s mnemonic) t ↔ ∃ rd rn rm,
      t = s.assembles { mnemonic, operands := [.reg rd,.reg rn,.reg rm] } := by
  simp [assembleRdRnRm,addRegRd,addRegRn,addRegRm,newOperand,thumbMaxOperands,
    EditorState.resetInstruction,EditorState.assembles,EditorState.specify]

theorem returns_assembleNumber {mnemonic : ThumbMnemonic} :
    Returns (assembleNumber s mnemonic) t ↔ ∃ imm, 0 ≤ imm.toInt ∧
      t = s.assembles { mnemonic, operands := [.immediate imm] } := by
  simp [assembleNumber,newOperand,thumbMaxOperands,EditorState.resetInstruction,
    EditorState.assembles,EditorState.specify]

theorem aOptions_usable : Usable aOptions := by decide

theorem bOptions_usable : Usable bOptions := by decide

theorem mOptions_usable : Usable mOptions := by decide

theorem pOptions_usable : Usable pOptions := by decide

theorem sOptions_usable : Usable sOptions := by decide

theorem ldrBaseOpts_usable : Usable ldrBaseOpts := by decide

theorem ldrOffsetOpts_usable : Usable ldrOffsetOpts := by decide

theorem cmpOpts_usable : Usable cmpOpts := by decide

theorem returns_assembleA : Returns (assembleA s) t ↔
    (∃ mnemonic ∈ [.add,.adds,.addw], ∃ rd rn imm, 0 ≤ imm.toInt ∧
      t = s.assembles { mnemonic, operands := [.reg rd,.reg rn,.immediate imm] }) ∨
    (∃ mnemonic ∈ [.add,.adds], ∃ rd rn rm,
      t = s.assembles { mnemonic, operands := [.reg rd,.reg rn,.reg rm] }) ∨ t = s := by
  rw [assembleA,returns_menu_bind aOptions_usable]
  simp [aOptions,key,returns_rdRnImmediate,returns_rdRnRm,or_assoc]

theorem returns_assembleB : Returns (assembleB entries s) t ↔
    (∃ condition : ThumbCondition, condition.toNat ≤ 15 ∧ ∃ label,
      t = s.assembles { mnemonic := .b, condition, operands := [.signedImmediate label] }) ∨
    (∃ label, t = s.assembles { mnemonic := .bl, operands := [.signedImmediate label] }) ∨
    (∃ mnemonic ∈ [.blx,.bx], ∃ rm, t = s.assembles { mnemonic, operands := [.reg rm] }) ∨
    t = s := by
  rw [assembleB,returns_menu_bind bOptions_usable]
  simp [bOptions,key,addRegRm,newOperand,thumbMaxOperands,EditorState.resetInstruction,
    EditorState.assembles,EditorState.specify,thumbSetCondition,or_assoc]

theorem returns_assembleM : Returns (assembleM s) t ↔
    (∃ mnemonic ∈ [.mov,.movs,.movw], ∃ rd imm, 0 ≤ imm.toInt ∧
      t = s.assembles { mnemonic, operands := [.reg rd,.immediate imm] }) ∨
    (∃ mnemonic ∈ [.mov,.movs], ∃ rd rm,
      t = s.assembles { mnemonic, operands := [.reg rd,.reg rm] }) ∨ t = s := by
  rw [assembleM,returns_menu_bind mOptions_usable]
  simp [mOptions,key,addRegRd,addRegRm,newOperand,thumbMaxOperands,EditorState.resetInstruction,
    EditorState.assembles,EditorState.specify,or_assoc]

theorem returns_assembleP : Returns (assembleP s) t ↔
    (∃ mnemonic ∈ [.push,.pop], ∃ reglist,
      t = s.assembles { mnemonic, operands := [.reglist reglist] }) ∨ t = s := by
  rw [assembleP,returns_menu_bind pOptions_usable]
  simp [pOptions,key,newOperand,thumbMaxOperands,EditorState.resetInstruction,
    EditorState.assembles,EditorState.specify,thumbAddOperandReglist,or_assoc]

theorem returns_assembleS : Returns (assembleS s) t ↔
    (∃ mnemonic ∈ [.sub,.subs,.subw], ∃ rd rn imm, 0 ≤ imm.toInt ∧
      t = s.assembles { mnemonic, operands := [.reg rd,.reg rn,.immediate imm] }) ∨
    (∃ mnemonic ∈ [.sub,.subs], ∃ rd rn rm,
      t = s.assembles { mnemonic, operands := [.reg rd,.reg rn,.reg rm] }) ∨
    (∃ imm, 0 ≤ imm.toInt ∧
      t = s.assembles { mnemonic := .svc, operands := [.immediate imm] }) ∨ t = s := by
  rw [assembleS,returns_menu_bind sOptions_usable]
  simp [sOptions,key,returns_rdRnImmediate,returns_rdRnRm,returns_assembleNumber,or_assoc]

theorem returns_assembleCmp : Returns (assembleCmp s) t ↔ ∃ rn,
    (∃ imm, 0 ≤ imm.toInt ∧
      t = s.assembles { mnemonic := .cmp, operands := [.reg rn,.immediate imm] }) ∨
    ∃ rm, t = s.assembles { mnemonic := .cmp, operands := [.reg rn,.reg rm] } := by
  rw [assembleCmp,returns_bind]
  simp only [returns_menu_bind cmpOpts_usable]
  simp [cmpOpts,key,addRegRn,addRegRm,newOperand,thumbMaxOperands,EditorState.resetInstruction,
    EditorState.assembles,EditorState.specify]

/-- The zero offset is an immediate without an addressing mode of its own. -/
theorem returns_ldrOffset {instruction u : ThumbInstructionSpec}
    (hmode : instruction.addressingMode = .offset) (hlen : instruction.operands.length = 2) :
    Returns (ldrOffset instruction) u ↔
      (∃ addressingMode ∈ [.offset,.preindex,.postindex], ∃ simm, u =
        { instruction with
          addressingMode, operands := instruction.operands ++ [.signedImmediate simm] }) ∨
      ∃ rm, u = { instruction with operands := instruction.operands ++ [.reg rm] } ∨ ∃ shift,
        u = { instruction with operands := instruction.operands ++ [.reg rm,.lslShift shift] } := by
  rw [ldrOffset,returns_menu_bind ldrOffsetOpts_usable]
  obtain ⟨mnemonic,condition,width,addressingMode,operands⟩ := instruction
  obtain rfl : addressingMode = .offset := hmode
  simp [ldrOffsetOpts,key,addRegRm,thumbAddOperandSignedImmediate,newOperand,thumbMaxOperands,
    show operands.length = 2 from hlen]
  grind

theorem returns_assembleLdr : Returns (assembleLdrKeys entries s) t ↔ ∃ rt rn,
    (∃ addressingMode ∈ [.offset,.preindex,.postindex], ∃ simm,
      t = s.assembles
        { mnemonic := .ldr, addressingMode, operands := [.reg rt,.reg rn,.signedImmediate simm] }) ∨
    ∃ rm,
      t = s.assembles
        { mnemonic := .ldr, addressingMode := .offset
          operands := [.reg rt,.reg rn,.reg rm] } ∨
      ∃ shift, t = s.assembles
        { mnemonic := .ldr, addressingMode := .offset
          operands := [.reg rt,.reg rn,.reg rm,.lslShift shift] } := by
  rw [assembleLdrKeys,returns_bind]
  simp only [returns_menu_bind ldrBaseOpts_usable]
  simp [ldrBaseOpts,key,returns_ldrOffset,addRegRt,addRegRn,newOperand,thumbMaxOperands,
    EditorState.resetInstruction,EditorState.assembles,EditorState.specify,thumbAddOperandReg,
    thumbSetOperandAddressingMode]
  grind

end

/-! ## No assertion fails -/

/-- A prompt for one operand more. -/
structure AddsOperand (add : ThumbInstructionSpec → Reader Key ThumbInstructionSpec) : Prop where
  safe : ∀ i, i.operands.length < thumbMaxOperands → Safe (add i)
  length : ∀ i t, Returns (add i) t → t.operands.length = i.operands.length + 1

theorem newOperand_length {i t : ThumbInstructionSpec} {operand : ThumbOperand}
    (h : newOperand i operand = some t) : t.operands.length = i.operands.length + 1 := by
  unfold newOperand at h
  split at h
  · rw [← Option.some.inj h,List.length_append,List.length_singleton]
  · simp at h

theorem newOperand_isSome {i : ThumbInstructionSpec} (operand : ThumbOperand)
    (h : i.operands.length < thumbMaxOperands) : (newOperand i operand).isSome := by
  rw [newOperand,if_pos h]
  rfl

theorem addsOperand_addReg : AddsOperand addReg where
  safe _ h := safe_menuPresetRegister.bind fun reg _ => safe_ofOption (newOperand_isSome _ h)
  length i t h := by
    obtain ⟨reg,hreg⟩ := returns_addReg.mp h
    exact newOperand_length hreg

theorem safe_menuNumberPlain (initNumber : BitVec 32) : Safe (menuNumberPlain initNumber) :=
  safe_menuNumberWith initNumber [] _ (by decide)

theorem addsOperand_addImmediate : AddsOperand addImmediate where
  safe i h := by
    refine Safe.bind ?_ fun imm _ => safe_ofOption (newOperand_isSome _ h)
    exact safe_rounds (I := fun _ => True) trivial
      (fun _ _ => (safe_menuNumberPlain 0).bind fun _ _ => safe_pure _) fun _ _ _ _ => trivial
  length i t h := by
    obtain ⟨imm,_,himm⟩ := returns_addImmediate.mp h
    exact newOperand_length himm

theorem addsOperand_addSignedImmediate : AddsOperand addSignedImmediate where
  safe _ h := (safe_menuNumberPlain 0).bind fun _ _ => safe_ofOption (newOperand_isSome _ h)
  length i t h := by
    obtain ⟨simm,hsimm⟩ := returns_addSignedImmediate.mp h
    exact newOperand_length hsimm

theorem addsOperand_addLabelKeys (entries : List MemoryEntry) (addr : Address) (code : Bool) :
    AddsOperand fun i => addLabelKeys entries i addr code where
  safe _ h := (safe_relativeLabel entries addr code).bind fun _ _ =>
    safe_ofOption (newOperand_isSome _ h)
  length i t h := by
    obtain ⟨label,hlabel⟩ := returns_addLabelKeys.mp h
    exact newOperand_length hlabel

/-- The next prompt starts with one operand more. -/
theorem AddsOperand.bind {add : ThumbInstructionSpec → Reader Key ThumbInstructionSpec}
    (h : AddsOperand add) {α : Type} {i : ThumbInstructionSpec} (n : ℕ)
    (hlen : i.operands.length = n) (hn : n < thumbMaxOperands)
    {f : ThumbInstructionSpec → Reader Key α}
    (hf : ∀ t, t.operands.length = n + 1 → Safe (f t)) : Safe (add i >>= f) :=
  (h.safe i (hlen ▸ hn)).bind fun t ht => hf t (hlen ▸ h.length i t ht)

section
variable (entries : List MemoryEntry) (s : EditorState)

theorem safe_rdRnImmediate (mnemonic : ThumbMnemonic) :
    Safe (assembleRdRnImmediate s mnemonic) :=
  addsOperand_addReg.bind 0 rfl (by decide) fun _ hrd =>
    addsOperand_addReg.bind 1 hrd (by decide) fun _ hrn =>
      addsOperand_addImmediate.bind 2 hrn (by decide) fun _ _ => safe_pure _

theorem safe_rdRnRm (mnemonic : ThumbMnemonic) : Safe (assembleRdRnRm s mnemonic) :=
  addsOperand_addReg.bind 0 rfl (by decide) fun _ hrd =>
    addsOperand_addReg.bind 1 hrd (by decide) fun _ hrn =>
      addsOperand_addReg.bind 2 hrn (by decide) fun _ _ => safe_pure _

theorem safe_assembleNumber (mnemonic : ThumbMnemonic) : Safe (assembleNumber s mnemonic) :=
  addsOperand_addImmediate.bind 0 rfl (by decide) fun _ _ => safe_pure _

theorem safe_assembleA : Safe (assembleA s) := by
  refine (safe_menu aOptions_usable).bind fun opt _ => ?_
  split
  · exact safe_rdRnImmediate s _
  split
  · exact safe_rdRnRm s _
  · exact safe_pure s

theorem safe_assembleB : Safe (assembleB entries s) := by
  have hlabel := addsOperand_addLabelKeys entries s.addr true
  refine (safe_menu bOptions_usable).bind fun opt _ => ?_
  split
  · exact safe_condition.bind fun _ _ => hlabel.bind 0 rfl (by decide) fun _ _ => safe_pure _
  split
  · exact hlabel.bind 0 rfl (by decide) fun _ _ => safe_pure _
  split
  · exact addsOperand_addReg.bind 0 rfl (by decide) fun _ _ => safe_pure _
  · exact safe_pure s

theorem safe_assembleM : Safe (assembleM s) := by
  refine (safe_menu mOptions_usable).bind fun opt _ => ?_
  split
  · exact addsOperand_addReg.bind 0 rfl (by decide) fun _ hrd =>
      addsOperand_addImmediate.bind 1 hrd (by decide) fun _ _ => safe_pure _
  split
  · exact addsOperand_addReg.bind 0 rfl (by decide) fun _ hrd =>
      addsOperand_addReg.bind 1 hrd (by decide) fun _ _ => safe_pure _
  · exact safe_pure s

theorem safe_assembleP : Safe (assembleP s) := by
  have hroom : 0 < thumbMaxOperands := by decide
  refine (safe_menu pOptions_usable).bind fun opt _ => ?_
  split
  · exact safe_registerList.bind fun reglist _ =>
      (safe_ofOption (@newOperand_isSome (s.resetInstruction _) _ hroom)).bind fun _ _ =>
        safe_pure _
  · exact safe_pure s

theorem safe_assembleS : Safe (assembleS s) := by
  refine (safe_menu sOptions_usable).bind fun opt _ => ?_
  split
  · exact safe_rdRnImmediate s _
  split
  · exact safe_rdRnRm s _
  split
  · exact safe_assembleNumber s _
  · exact safe_pure s

theorem safe_assembleCmp : Safe (assembleCmp s) := by
  refine addsOperand_addReg.bind 0 rfl (by decide) fun _ hrn =>
    (safe_menu cmpOpts_usable).bind fun opt _ => ?_
  split
  · exact addsOperand_addImmediate.bind 1 hrn (by decide) fun _ _ => safe_pure _
  · exact addsOperand_addReg.bind 1 hrn (by decide) fun _ _ => safe_pure _

theorem safe_ldrOffset {i : ThumbInstructionSpec} (h : i.operands.length = 2) :
    Safe (ldrOffset i) := by
  refine (safe_menu ldrOffsetOpts_usable).bind fun opt _ => ?_
  split
  · exact safe_ofOption (newOperand_isSome _ (h ▸ by decide))
  split
  · exact addsOperand_addSignedImmediate.bind 2 h (by decide) fun _ _ =>
      (safe_menu addressingModeOpts_usable).bind fun _ _ => safe_pure _
  · refine addsOperand_addReg.bind 2 h (by decide) fun t ht =>
      (safe_menu lslShiftOpts_usable).bind fun opt _ => ?_
    split
    · exact (safe_gethexword 0).bind fun _ _ =>
        safe_ofOption (newOperand_isSome _ (ht ▸ by decide))
    · exact safe_pure _

theorem safe_assembleLdr : Safe (assembleLdrKeys entries s) := by
  refine addsOperand_addReg.bind 0 rfl (by decide) fun i hrt =>
    (safe_menu ldrBaseOpts_usable).bind fun opt _ => ?_
  have hroom : i.operands.length < thumbMaxOperands := hrt ▸ by decide
  have hlen (t : ThumbInstructionSpec)
      (ht : Returns (ofOption (thumbAddOperandReg i 15) : Reader Key _) t) :
      t.operands.length = 2 :=
    (newOperand_length (returns_ofOption.mp ht)).trans (congrArg (· + 1) hrt)
  split
  · exact (safe_ofOption (newOperand_isSome _ hroom)).bind fun t ht =>
      addsOperand_addSignedImmediate.bind 2 (hlen t ht) (by decide) fun _ _ => safe_pure _
  split
  · exact (safe_ofOption (newOperand_isSome _ hroom)).bind fun t ht =>
      (addsOperand_addLabelKeys entries s.addr true).bind 2 (hlen t ht) (by decide) fun _ _ =>
        safe_pure _
  · exact addsOperand_addReg.bind 1 hrt (by decide) fun _ hrn =>
      (safe_ldrOffset hrn).bind fun _ _ => safe_pure _

end

end TwMonitor.Editor
