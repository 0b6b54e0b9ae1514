import TwMonitor.NarrowEncodings
import TwMonitor.ThumbAssemble
import TwMonitor.WideEncodings

/-!
# What the assembler chooses from

Abstractly the assembler is a table: the operands of a specification determine
a list of narrow forms and a list of wide forms, the width specifier keeps one
of them or both, and the first form whose fields fit is written. The code is
proved to implement the table, once for each case of its switch. A refusal
leaves the memory alone; which of the failing results it gives is not part of
the table.
-/
namespace TwMonitor.Thumb
open ByteMemory T32

/-- A narrow encoding with its fields. -/
abbrev NarrowForm := (e : NarrowEncoding) × e.Parts

abbrev WideForm := (e : WideEncoding) × e.Parts

def NarrowForm.word (f : NarrowForm) : Option (BitVec 16) := (f.1.encode f.2).word

def WideForm.word (f : WideForm) : Option (BitVec 32) := (f.1.encode f.2).word

structure Choices where
  narrow : List NarrowForm := []
  wide : List WideForm := []

def ThumbAssembleResult.succeeds : ThumbAssembleResult → Bool
  | .narrowSuccess => true
  | .wideSuccess => true
  | _ => false

namespace Choices

/-- Keep the forms that the width specifier allows. -/
def restrict (c : Choices) : ThumbWidthSpecifier → Choices
  | .auto => c
  | .narrow => { narrow := c.narrow }
  | .wide => { wide := c.wide }

def narrowWord (c : Choices) : Option (BitVec 16) := c.narrow.findSome? NarrowForm.word

def wideWord (c : Choices) : Option (BitVec 32) := c.wide.findSome? WideForm.word

/-- Write the first form that fits, narrow ones first. -/
def run (c : Choices) (into : Address) (refusal : ThumbAssembleResult) : Assembly := fun m =>
  match c.narrowWord with
  | some h => (.narrowSuccess,store16 m into h)
  | none =>
      match c.wideWord with
      | some w => (.wideSuccess,store32 m into w)
      | none => (refusal,m)

end Choices

/-! ## The table -/

def addwForms : List ThumbOperand → Choices
  | [.reg rd,.reg rn,.immediate imm] =>
      if uint8 rn = 13 ∨ uint8 rn = 15 then {}
      else { wide := [⟨.addwIT4,{ rd := uint8 rd, rn := uint8 rn, imm12 := imm }⟩] }
  | _ => {}

def subwForms : List ThumbOperand → Choices
  | [.reg rd,.reg rn,.immediate imm] =>
      if uint8 rn = 13 ∨ uint8 rn = 15 then {}
      else { wide := [⟨.subwIT4,{ rd := uint8 rd, rn := uint8 rn, imm12 := imm }⟩] }
  | _ => {}

def addForms : List ThumbOperand → Choices
  | [.reg rd,.reg rn,.immediate imm] => addwForms [.reg rd,.reg rn,.immediate imm]
  | [.reg rd,.reg rn,.reg rm] =>
      if uint8 rd = uint8 rn then { narrow := [⟨.addRT2,{ rdn := uint8 rd, rm := uint8 rm }⟩] }
      else {}
  | _ => {}

def addsForms : List ThumbOperand → Choices
  | [.reg rd,.reg rn,.immediate imm] =>
      { narrow := ⟨.addsIT1,{ rd := uint8 rd, rn := uint8 rn, imm3 := imm }⟩::
          if uint8 rd = uint8 rn then [⟨.addsIT2,{ rdn := uint8 rd, imm8 := imm }⟩] else [] }
  | [.reg rd,.reg rn,.reg rm] =>
      { narrow := [⟨.addsRT1,{ rd := uint8 rd, rn := uint8 rn, rm := uint8 rm }⟩] }
  | _ => {}

def bForms (condition : ThumbCondition) : List ThumbOperand → Choices
  | [.signedImmediate simm] =>
      if condition = .none then
        { narrow := [⟨.bT2,{ simm11 := simm - 4 }⟩], wide := [⟨.bT4,{ simm25 := simm - 4 }⟩] }
      else
        { narrow := [⟨.bCondT1Noit,{ cond := condition - 1, simm8 := simm - 4 }⟩],
          wide := [⟨.bCondT3Noit,{ cond := condition - 1, simm21 := simm - 4 }⟩] }
  | _ => {}

def bkptForms : List ThumbOperand → Choices
  | [.immediate imm] => { narrow := [⟨.bkptT1,{ imm8 := imm }⟩] }
  | _ => {}

def blForms : List ThumbOperand → Choices
  | [.signedImmediate simm] => { wide := [⟨.blT1,{ simm25 := simm - 4 }⟩] }
  | _ => {}

def blxForms : List ThumbOperand → Choices
  | [.reg rm] => { narrow := [⟨.blxT1,{ rm }⟩] }
  | _ => {}

def bxForms : List ThumbOperand → Choices
  | [.reg rm] => { narrow := [⟨.bxT1,{ rm }⟩] }
  | _ => {}

def cmpForms : List ThumbOperand → Choices
  | [.reg rn,.immediate imm] => { narrow := [⟨.cmpIT1,{ rn := uint8 rn, imm8 := imm }⟩] }
  | [.reg rn,.reg rm] =>
      { narrow := [⟨.cmpRT1,{ rn := uint8 rn, rm := uint8 rm }⟩,
          ⟨.cmpRT2,{ rn := uint8 rn, rm := uint8 rm }⟩] }
  | _ => {}

def ldrRegisterForms (mode : AddressingMode) (rt rn rm shift : BitVec 32) : Choices :=
  if mode ≠ .offset then {} else
    { narrow := if shift = 0 then [⟨.ldrRT1,{ rt, rn, rm }⟩] else [],
      wide := [⟨.ldrRT2Lsl,{ rt, rn, rm, lslShiftImm2 := shift }⟩] }

/-- Sign and magnitude of an offset. -/
def magnitude (offset : BitVec 32) : BitVec 32 := if offset.slt 0 then -offset else offset

def ldrEightBit (mode : AddressingMode) (rt rn offset : BitVec 32) : LdrIT4Parts :=
  { rt, rn, imm8 := magnitude offset, add := boolWord (!offset.slt 0),
    index := boolWord (mode != .postindex),
    writeback := boolWord (mode == .preindex || mode == .postindex) }

def ldrLiteral (rt offset : BitVec 32) : LdrLitT2Parts :=
  { rt, imm12 := magnitude offset, add := boolWord (!offset.slt 0) }

def ldrSignedForms (mode : AddressingMode) (rt rn offset : BitVec 32) : List WideForm :=
  if rn = 15 ∧ mode = .offset then
    [⟨.ldrLitT2,ldrLiteral rt offset⟩,⟨.ldrIT4,ldrEightBit mode rt rn offset⟩]
  else [⟨.ldrIT4,ldrEightBit mode rt rn offset⟩]

def ldrUnsignedNarrow (rt rn offset : BitVec 32) : List NarrowForm :=
  let scaled : NarrowForm := ⟨.ldrIT1,{ rt, rn, imm7 := offset }⟩
  if rn = 13 then [⟨.ldrIT2Sponly,{ rt, imm10 := offset }⟩,scaled]
  else if rn = 15 then [⟨.ldrLitT1,{ rt, imm10 := offset }⟩,scaled]
  else [scaled]

def ldrImmediateForms (mode : AddressingMode) (rt rn offset : BitVec 32) : Choices :=
  if mode = .offset ∧ !offset.slt 0 then
    { narrow := ldrUnsignedNarrow rt rn offset,
      wide := ⟨.ldrIT3,{ rt, rn, imm12 := offset }⟩::ldrSignedForms mode rt rn offset }
  else { wide := ldrSignedForms mode rt rn offset }

def ldrOperandForms (mode : AddressingMode) : List ThumbOperand → Choices
  | [.reg rt,.reg rn,.reg rm] => ldrRegisterForms mode (uint8 rt) (uint8 rn) (uint8 rm) 0
  | [.reg rt,.reg rn,.reg rm,.lslShift shift] =>
      ldrRegisterForms mode (uint8 rt) (uint8 rn) (uint8 rm) shift
  | [.reg rt,.reg rn,.signedImmediate simm] => ldrImmediateForms mode (uint8 rt) (uint8 rn) simm
  | _ => {}

def ldrForms (mode : AddressingMode) (operands : List ThumbOperand) : Choices :=
  if mode = .none then {} else ldrOperandForms mode operands

def nopForms : List ThumbOperand → Choices
  | [] => { narrow := [⟨.nopT1,()⟩], wide := [⟨.nopT2,()⟩] }
  | _ => {}

def movwForms : List ThumbOperand → Choices
  | [.reg rd,.immediate imm] =>
      if rd = 15 ∨ rd = 13 then {} else { wide := [⟨.movwIT3,{ rd, imm16 := imm }⟩] }
  | _ => {}

def movForms : List ThumbOperand → Choices
  | [.reg rd,.immediate imm] =>
      if uint8 rd = 15 ∨ uint8 rd = 13 then {} else movwForms [.reg rd,.immediate imm]
  | [.reg rd,.reg rm] =>
      { narrow := [⟨.movRT1,{ rd := uint8 rd, rm := uint8 rm }⟩],
        wide := [⟨.movRT3OptS,{ setflags := 0, rd := uint8 rd, rm := uint8 rm }⟩] }
  | _ => {}

def movsForms : List ThumbOperand → Choices
  | [.reg rd,.immediate imm] =>
      if uint8 rd = 15 ∨ uint8 rd = 13 then {}
      else { narrow := [⟨.movsIT1,{ rd := uint8 rd, imm8 := imm }⟩] }
  | [.reg rd,.reg rm] =>
      { narrow := [⟨.movsRT2Noit,{ rd := uint8 rd, rm := uint8 rm }⟩],
        wide := [⟨.movRT3OptS,{ setflags := 1, rd := uint8 rd, rm := uint8 rm }⟩] }
  | _ => {}

/-- A narrow POP has no bit for LR. -/
def popForms : List ThumbOperand → Choices
  | [.reglist reglist] =>
      let lr := reglist.getLsbD 14
      let pc := reglist.getLsbD 15
      let regs := reglist &&& ~~~(1#16 <<< 14 ||| 1#16 <<< 15)
      if thumbCountRegisterList reglist = 0 then {} else
        { narrow :=
            if lr then [] else [⟨.popT1,{ pc := boolWord pc, regs := regs.setWidth 32 }⟩],
          wide :=
            if thumbCountRegisterList reglist = 1 then
              [⟨.popT3,{ rt := if lr then 14 else if pc then 15 else topRegister regs }⟩]
            else
              [⟨.popT2,{ regs := regs.setWidth 32, lr := boolWord lr, pc := boolWord pc }⟩] }
  | _ => {}

def pushForms : List ThumbOperand → Choices
  | [.reglist reglist] =>
      let lr := reglist.getLsbD 14
      let regs := reglist &&& ~~~(1#16 <<< 14)
      if thumbCountRegisterList reglist = 0 then {} else
        { narrow := [⟨.pushT1,{ lr := boolWord lr, regs := regs.setWidth 32 }⟩],
          wide :=
            if thumbCountRegisterList reglist = 1 then
              [⟨.pushT3,{ rt := if lr then 14 else topRegister regs }⟩]
            else [⟨.pushT2,{ regs := regs.setWidth 32, lr := boolWord lr }⟩] }
  | _ => {}

def subForms : List ThumbOperand → Choices
  | [.reg rd,.reg rn,.immediate imm] => subwForms [.reg rd,.reg rn,.immediate imm]
  | _ => {}

def subsForms : List ThumbOperand → Choices
  | [.reg rd,.reg rn,.immediate imm] =>
      { narrow := ⟨.subsIT1,{ rd := uint8 rd, rn := uint8 rn, imm3 := imm }⟩::
          if uint8 rd = uint8 rn then [⟨.subsIT2,{ rdn := uint8 rd, imm8 := imm }⟩] else [] }
  | [.reg rd,.reg rn,.reg rm] =>
      { narrow := [⟨.subsRT1,{ rd := uint8 rd, rn := uint8 rn, rm := uint8 rm }⟩] }
  | _ => {}

def svcForms : List ThumbOperand → Choices
  | [.immediate imm] => { narrow := [⟨.svcT1,{ imm8 := imm }⟩] }
  | _ => {}

def udfForms : List ThumbOperand → Choices
  | [.immediate imm] =>
      { narrow := [⟨.udfT1,{ imm8 := imm }⟩], wide := [⟨.udfT2,{ imm16 := imm }⟩] }
  | _ => {}

/-- The forms of a specification, whatever its width specifier. -/
def forms (spec : ThumbInstructionSpec) : Choices :=
  match spec.mnemonic with
  | .add => addForms spec.operands
  | .adds => addsForms spec.operands
  | .addw => addwForms spec.operands
  | .b => bForms spec.condition spec.operands
  | .bkpt => bkptForms spec.operands
  | .bl => blForms spec.operands
  | .blx => blxForms spec.operands
  | .bx => bxForms spec.operands
  | .cmp => cmpForms spec.operands
  | .ldr => ldrForms spec.addressingMode spec.operands
  | .nop => nopForms spec.operands
  | .mov => movForms spec.operands
  | .movs => movsForms spec.operands
  | .movw => movwForms spec.operands
  | .pop => popForms spec.operands
  | .push => pushForms spec.operands
  | .sub => subForms spec.operands
  | .subs => subsForms spec.operands
  | .subw => subwForms spec.operands
  | .svc => svcForms spec.operands
  | .udf => udfForms spec.operands
  | .unknown => {}

def candidates (spec : ThumbInstructionSpec) : Choices := (forms spec).restrict spec.width

/-! ## Implementing a choice -/

/-- The call behaves as the choice, with some failing result when it refuses. -/
def Implements (into : Address) (a : Assembly) (c : Choices) : Prop :=
  ∃ refusal, ThumbAssembleResult.succeeds refusal = false ∧ a = c.run into refusal

namespace Implements
variable {into : Address} {rest : Assembly} {c : Choices}

theorem fail {r : ThumbAssembleResult} (hr : r.succeeds = false) :
    Implements into (fail r) {} := ⟨r,hr,rfl⟩

theorem tryNarrow (f : NarrowForm) (h : Implements into rest c) :
    Implements into (tryEncode (encodeNarrow into (f.1.encode f.2)) rest)
      { c with narrow := f::c.narrow } := by
  obtain ⟨r,hr,rfl⟩ := h
  refine ⟨r,hr,funext fun m => ?_⟩
  cases hw : (f.1.encode f.2).word <;>
    simp [tryEncode,encodeNarrow,Choices.run,Choices.narrowWord,Choices.wideWord,NarrowForm.word,
      hw,encoderToAsmResult]

theorem tryWide (f : WideForm) {fs : List WideForm} (h : Implements into rest { wide := fs }) :
    Implements into (tryEncode (encodeWide into (f.1.encode f.2)) rest) { wide := f::fs } := by
  obtain ⟨r,hr,rfl⟩ := h
  refine ⟨r,hr,funext fun m => ?_⟩
  cases hw : (f.1.encode f.2).word <;>
    simp [tryEncode,encodeWide,Choices.run,Choices.narrowWord,Choices.wideWord,WideForm.word,
      hw,encoderToAsmResult]

theorem returnEncoded_eq (call : EncoderCall) (hcall : ∀ m, (call m).1 = 0 → (call m).2 = m) :
    returnEncoded call = tryEncode call (Thumb.fail .failInvalidOperand) := by
  funext m
  rw [returnEncoded,tryEncode]
  by_cases h : (call m).1 = 0
  · rw [if_neg (not_not.mpr h),h,hcall m h]
    rfl
  · rw [if_pos h]

theorem returnNarrow (f : NarrowForm) :
    Implements into (returnEncoded (encodeNarrow into (f.1.encode f.2))) { narrow := [f] } := by
  rw [returnEncoded_eq]
  · exact tryNarrow f (fail rfl)
  · intro m h
    unfold encodeNarrow at h ⊢
    split at h
    · simp at h
    · rfl

theorem returnWide (f : WideForm) :
    Implements into (returnEncoded (encodeWide into (f.1.encode f.2))) { wide := [f] } := by
  rw [returnEncoded_eq]
  · exact tryWide f (fail rfl)
  · intro m h
    unfold encodeWide at h ⊢
    split at h
    · simp at h
    · rfl

end Implements

end TwMonitor.Thumb
