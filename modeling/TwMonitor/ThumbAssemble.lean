import TwMonitor.T32Encode
import TwMonitor.ThumbSpec

/-!
# The assembler

`thumb_assemble` selects encoders by mnemonic, operand types and width, tries
them in a fixed order and writes through `into` when one of them accepts its
fields. Memory is passed explicitly: an encoder that refuses returns 0 and the
memory it was given, and the next one goes on from there. Each case of the
switch is a function of its own, so that the `goto` from ADD, MOV and SUB with
an immediate to the wide forms is a call.
-/
namespace TwMonitor.Thumb
open ByteMemory T32

inductive ThumbAssembleResult where
  | failBadMnemonic | failInvalidWidth | failInvalidOperand | narrowSuccess | wideSuccess
deriving DecidableEq, Repr

/-- An encoder call: the number of bits it reports, and the memory it leaves. -/
abbrev EncoderCall := Memory → ℕ × Memory

def encodeNarrow (into : Address) (encoder : Encoder 16) : EncoderCall := fun m =>
  match encoder.word with
  | some encoded => (16,store16 m into encoded)
  | none => (0,m)

def encodeWide (into : Address) (encoder : Encoder 32) : EncoderCall := fun m =>
  match encoder.word with
  | some encoded => (32,store32 m into encoded)
  | none => (0,m)

def encoderToAsmResult : ℕ → ThumbAssembleResult
  | 32 => .wideSuccess
  | 16 => .narrowSuccess
  | _ => .failInvalidOperand

abbrev Assembly := Memory → ThumbAssembleResult × Memory

def fail (result : ThumbAssembleResult) : Assembly := fun m => (result,m)

/-- `return encoder_to_asm_result(encode_…(…));` -/
def returnEncoded (call : EncoderCall) : Assembly := fun m =>
  (encoderToAsmResult (call m).1,(call m).2)

/-- `result = encode_…(…); if (result != 0) return encoder_to_asm_result(result);`
followed by the rest of the case. -/
def tryEncode (call : EncoderCall) (rest : Assembly) : Assembly := fun m =>
  if (call m).1 ≠ 0 then (encoderToAsmResult (call m).1,(call m).2) else rest (call m).2

/-- A register operand copied into a `uint8_t`. -/
def uint8 (v : BitVec 32) : BitVec 32 := (v.setWidth 8).setWidth 32

theorem uint8_of_lt {v : BitVec 32} (hv : v.toNat < 16) : uint8 v = v := by
  apply BitVec.eq_of_toNat_eq
  simp only [uint8,BitVec.toNat_setWidth]
  omega

def boolWord (b : Bool) : BitVec 32 := if b then 1 else 0

def canBeNarrow (spec : ThumbInstructionSpec) : Bool := spec.width == .auto || spec.width == .narrow

def canBeWide (spec : ThumbInstructionSpec) : Bool := spec.width == .auto || spec.width == .wide

section
variable (into : Address) (spec : ThumbInstructionSpec)

def ensureNarrow (rest : Assembly) : Assembly :=
  if spec.width = .wide then fail .failInvalidWidth else rest

def ensureWide (rest : Assembly) : Assembly :=
  if spec.width = .narrow then fail .failInvalidWidth else rest

def asmAddw : Assembly :=
  ensureWide spec <|
  match spec.operands with
  | [.reg rd,.reg rn,.immediate immediate] =>
      let rd := uint8 rd
      let rn := uint8 rn
      if rn = 13 ∨ rn = 15 then fail .failInvalidOperand
      else returnEncoded (encodeWide into (encodeAddwIT4 { rd, rn, imm12 := immediate }))
  | _ => fail .failInvalidOperand

def asmSubw : Assembly :=
  ensureWide spec <|
  match spec.operands with
  | [.reg rd,.reg rn,.immediate immediate] =>
      let rd := uint8 rd
      let rn := uint8 rn
      if rn = 13 ∨ rn = 15 then fail .failInvalidOperand
      else returnEncoded (encodeWide into (encodeSubwIT4 { rd, rn, imm12 := immediate }))
  | _ => fail .failInvalidOperand

def asmAdd : Assembly :=
  match spec.operands with
  | [.reg rd,.reg rn,.immediate _] =>
      let _rd := uint8 rd
      let rn := uint8 rn
      if rn = 13 ∨ rn = 15 then fail .failInvalidOperand else asmAddw into spec
  | [.reg rd,.reg rn,.reg rm] =>
      let rd := uint8 rd
      let rn := uint8 rn
      ensureNarrow spec <|
      let rm := uint8 rm
      if rd = rn then returnEncoded (encodeNarrow into (encodeAddRT2 { rdn := rd, rm }))
      else fail .failInvalidWidth
  | _ => fail .failInvalidOperand

def asmAdds : Assembly :=
  match spec.operands with
  | [.reg rd,.reg rn,.immediate immediate] =>
      let rd := uint8 rd
      let rn := uint8 rn
      ensureNarrow spec <|
      tryEncode (encodeNarrow into (encodeAddsIT1 { rd, rn, imm3 := immediate })) <|
      if rd = rn then
        returnEncoded (encodeNarrow into (encodeAddsIT2 { rdn := rd, imm8 := immediate }))
      else fail .failInvalidWidth
  | [.reg rd,.reg rn,.reg rm] =>
      let rd := uint8 rd
      let rn := uint8 rn
      let rm := uint8 rm
      ensureNarrow spec <| returnEncoded (encodeNarrow into (encodeAddsRT1 { rd, rn, rm }))
  | _ => fail .failInvalidOperand

/-- The label is relative to the PC, which the hardware sees four bytes ahead
whatever the width of the instruction. -/
def asmB : Assembly :=
  match spec.operands with
  | [.signedImmediate simm] =>
      let label := simm - 4
      let cond := spec.condition - 1
      let wide : Assembly :=
        if canBeWide spec then
          if spec.condition = .none then
            returnEncoded (encodeWide into (encodeBT4 { simm25 := label }))
          else returnEncoded (encodeWide into (encodeBCondT3Noit { cond, simm21 := label }))
        else fail .failInvalidWidth
      if canBeNarrow spec then
        if spec.condition = .none then
          tryEncode (encodeNarrow into (encodeBT2 { simm11 := label })) wide
        else tryEncode (encodeNarrow into (encodeBCondT1Noit { cond, simm8 := label })) wide
      else wide
  | _ => fail .failInvalidOperand

def asmBkpt : Assembly :=
  ensureNarrow spec <|
  match spec.operands with
  | [.immediate imm] => returnEncoded (encodeNarrow into (encodeBkptT1 { imm8 := imm }))
  | _ => fail .failInvalidOperand

def asmBl : Assembly :=
  ensureWide spec <|
  match spec.operands with
  | [.signedImmediate simm] =>
      let label := simm - 4
      returnEncoded (encodeWide into (encodeBlT1 { simm25 := label }))
  | _ => fail .failInvalidOperand

def asmBlx : Assembly :=
  ensureNarrow spec <|
  match spec.operands with
  | [.reg rm] => returnEncoded (encodeNarrow into (encodeBlxT1 { rm }))
  | _ => fail .failInvalidOperand

def asmBx : Assembly :=
  ensureNarrow spec <|
  match spec.operands with
  | [.reg rm] => returnEncoded (encodeNarrow into (encodeBxT1 { rm }))
  | _ => fail .failInvalidOperand

def asmCmp : Assembly :=
  ensureNarrow spec <|
  match spec.operands with
  | [.reg rn,.immediate imm] =>
      let rn := uint8 rn
      returnEncoded (encodeNarrow into (encodeCmpIT1 { rn, imm8 := imm }))
  | [.reg rn,.reg rm] =>
      let rn := uint8 rn
      let rm := uint8 rm
      tryEncode (encodeNarrow into (encodeCmpRT1 { rn, rm })) <|
      returnEncoded (encodeNarrow into (encodeCmpRT2 { rn, rm }))
  | _ => fail .failInvalidOperand

def asmLdrRegister (rt rn rm lslShift : BitVec 32) : Assembly :=
  if spec.addressingMode ≠ .offset then fail .failInvalidOperand else
  let wide : Assembly :=
    if canBeWide spec then
      returnEncoded (encodeWide into (encodeLdrRT2Lsl { rt, rn, rm, lslShiftImm2 := lslShift }))
    else fail .failInvalidWidth
  if canBeNarrow spec ∧ lslShift = 0 then
    tryEncode (encodeNarrow into (encodeLdrRT1 { rt, rn, rm })) wide
  else wide

/-- The last encoding of the cascade, with the flags of the addressing mode.
The offset is stored unsigned, and made negative by clearing `add`. -/
def asmLdrIT4 (rt rn immOffset : BitVec 32) : Assembly :=
  let negOffset := immOffset.slt 0
  let imm8 := if negOffset then -immOffset else immOffset
  let add := boolWord (!negOffset)
  match spec.addressingMode with
  | .preindex =>
      returnEncoded (encodeWide into
        (encodeLdrIT4 { rt, rn, imm8, add, index := boolWord true, writeback := boolWord true }))
  | .postindex =>
      returnEncoded (encodeWide into
        (encodeLdrIT4 { rt, rn, imm8, add, index := boolWord false, writeback := boolWord true }))
  | _ =>
      returnEncoded (encodeWide into
        (encodeLdrIT4 { rt, rn, imm8, add, index := boolWord true, writeback := boolWord false }))

/-- The encodings of an offset with a sign. -/
def asmLdrSigned (rt rn immOffset : BitVec 32) : Assembly :=
  let negOffset := immOffset.slt 0
  if canBeWide spec then
    if rn = 15 ∧ spec.addressingMode = .offset then
      tryEncode (encodeWide into (encodeLdrLitT2
        { rt, imm12 := if negOffset then -immOffset else immOffset, add := boolWord (!negOffset) }))
        (asmLdrIT4 into spec rt rn immOffset)
    else asmLdrIT4 into spec rt rn immOffset
  else fail .failInvalidWidth

def asmLdrImmediate (rt rn immOffset : BitVec 32) : Assembly :=
  let negOffset := immOffset.slt 0
  if spec.addressingMode = .offset ∧ !negOffset then
    let wide : Assembly :=
      if canBeWide spec then
        tryEncode (encodeWide into (encodeLdrIT3 { rt, rn, imm12 := immOffset }))
          (asmLdrSigned into spec rt rn immOffset)
      else asmLdrSigned into spec rt rn immOffset
    if canBeNarrow spec then
      let scaled : Assembly :=
        tryEncode (encodeNarrow into (encodeLdrIT1 { rt, rn, imm7 := immOffset })) wide
      if rn = 13 then
        tryEncode (encodeNarrow into (encodeLdrIT2Sponly { rt, imm10 := immOffset })) scaled
      else if rn = 15 then
        tryEncode (encodeNarrow into (encodeLdrLitT1 { rt, imm10 := immOffset })) scaled
      else scaled
    else wide
  else asmLdrSigned into spec rt rn immOffset

def asmLdr : Assembly :=
  if spec.addressingMode = .none then fail .failInvalidOperand else
  match spec.operands with
  | [.reg rt,.reg rn,.reg rm] => asmLdrRegister into spec (uint8 rt) (uint8 rn) (uint8 rm) 0
  | [.reg rt,.reg rn,.reg rm,.lslShift shift] =>
      asmLdrRegister into spec (uint8 rt) (uint8 rn) (uint8 rm) shift
  | [.reg rt,.reg rn,.signedImmediate simm] => asmLdrImmediate into spec (uint8 rt) (uint8 rn) simm
  | _ => fail .failInvalidOperand

def asmNop : Assembly :=
  match spec.operands with
  | [] =>
      if spec.width = .wide then returnEncoded (encodeWide into encodeNopT2)
      else returnEncoded (encodeNarrow into encodeNopT1)
  | _ => fail .failInvalidOperand

def asmMovw : Assembly :=
  ensureWide spec <|
  match spec.operands with
  | [.reg rd,.immediate imm] =>
      if rd = 15 ∨ rd = 13 then fail .failInvalidOperand
      else returnEncoded (encodeWide into (encodeMovwIT3 { rd, imm16 := imm }))
  | _ => fail .failInvalidOperand

def asmMov : Assembly :=
  match spec.operands with
  | [.reg rd,.immediate _] =>
      let rd := uint8 rd
      if rd = 15 ∨ rd = 13 then fail .failInvalidOperand else asmMovw into spec
  | [.reg rd,.reg rm] =>
      let rd := uint8 rd
      let rm := uint8 rm
      let wide : Assembly :=
        if canBeWide spec then
          returnEncoded (encodeWide into (encodeMovRT3OptS { setflags := 0, rd, rm }))
        else fail .failInvalidWidth
      if canBeNarrow spec then tryEncode (encodeNarrow into (encodeMovRT1 { rd, rm })) wide
      else wide
  | _ => fail .failInvalidOperand

def asmMovs : Assembly :=
  match spec.operands with
  | [.reg rd,.immediate immediate] =>
      let rd := uint8 rd
      if rd = 15 ∨ rd = 13 then fail .failInvalidOperand
      else if canBeNarrow spec then
        tryEncode (encodeNarrow into (encodeMovsIT1 { rd, imm8 := immediate })) <|
        fail .failInvalidWidth
      else fail .failInvalidWidth
  | [.reg rd,.reg rm] =>
      let rd := uint8 rd
      let rm := uint8 rm
      let wide : Assembly :=
        if canBeWide spec then
          returnEncoded (encodeWide into (encodeMovRT3OptS { setflags := 1, rd, rm }))
        else fail .failInvalidWidth
      if canBeNarrow spec then tryEncode (encodeNarrow into (encodeMovsRT2Noit { rd, rm })) wide
      else wide
  | _ => fail .failInvalidOperand

/-- `for (x = reglist; x; x >>= 1, Rt++);` A 16-bit list is empty after sixteen rounds. -/
def shiftOut : ℕ → BitVec 16 → BitVec 32 → BitVec 32
  | 0,_,rt => rt
  | fuel + 1,x,rt => if x = 0 then rt else shiftOut fuel (x >>> 1) (rt + 1)

def topRegister (reglist : BitVec 16) : BitVec 32 := shiftOut 16 reglist 0 - 1

def asmPop : Assembly :=
  match spec.operands with
  | [.reglist reglist] =>
      let regcount := thumbCountRegisterList reglist
      let lr := reglist.getLsbD 14
      let pc := reglist.getLsbD 15
      let regs := reglist &&& ~~~(1#16 <<< 14 ||| 1#16 <<< 15)
      if regcount = 0 then fail .failInvalidOperand else
      let wide : Assembly :=
        if canBeWide spec then
          if regcount = 1 then
            let rt := if lr then 14 else if pc then 15 else topRegister regs
            tryEncode (encodeWide into (encodePopT3 { rt })) (fail .failInvalidWidth)
          else
            tryEncode (encodeWide into
              (encodePopT2 { regs := regs.setWidth 32, lr := boolWord lr, pc := boolWord pc }))
              (fail .failInvalidWidth)
        else fail .failInvalidWidth
      if canBeNarrow spec && !lr then
        tryEncode (encodeNarrow into (encodePopT1 { pc := boolWord pc, regs := regs.setWidth 32 }))
          wide
      else wide
  | _ => fail .failInvalidOperand

/-- Only LR is split off here; a PC bit stays in the register list. -/
def asmPush : Assembly :=
  match spec.operands with
  | [.reglist reglist] =>
      let regcount := thumbCountRegisterList reglist
      let lr := reglist.getLsbD 14
      let regs := reglist &&& ~~~(1#16 <<< 14)
      if regcount = 0 then fail .failInvalidOperand else
      let wide : Assembly :=
        if canBeWide spec then
          if regcount = 1 then
            let rt := if lr then 14 else topRegister regs
            tryEncode (encodeWide into (encodePushT3 { rt })) (fail .failInvalidWidth)
          else
            tryEncode (encodeWide into
              (encodePushT2 { regs := regs.setWidth 32, lr := boolWord lr }))
              (fail .failInvalidWidth)
        else fail .failInvalidWidth
      if canBeNarrow spec then
        tryEncode (encodeNarrow into (encodePushT1 { lr := boolWord lr, regs := regs.setWidth 32 }))
          wide
      else wide
  | _ => fail .failInvalidOperand

/-- SUB with a register operand is not implemented. -/
def asmSub : Assembly :=
  match spec.operands with
  | [.reg rd,.reg rn,.immediate _] =>
      let _rd := uint8 rd
      let rn := uint8 rn
      if rn = 13 ∨ rn = 15 then fail .failInvalidOperand else asmSubw into spec
  | [.reg _,.reg _,.reg _] => fail .failInvalidWidth
  | _ => fail .failInvalidOperand

def asmSubs : Assembly :=
  match spec.operands with
  | [.reg rd,.reg rn,.immediate immediate] =>
      let rd := uint8 rd
      let rn := uint8 rn
      ensureNarrow spec <|
      tryEncode (encodeNarrow into (encodeSubsIT1 { rd, rn, imm3 := immediate })) <|
      if rd = rn then
        returnEncoded (encodeNarrow into (encodeSubsIT2 { rdn := rd, imm8 := immediate }))
      else fail .failInvalidWidth
  | [.reg rd,.reg rn,.reg rm] =>
      let rd := uint8 rd
      let rn := uint8 rn
      let rm := uint8 rm
      ensureNarrow spec <| returnEncoded (encodeNarrow into (encodeSubsRT1 { rd, rn, rm }))
  | _ => fail .failInvalidOperand

def asmSvc : Assembly :=
  ensureNarrow spec <|
  match spec.operands with
  | [.immediate imm] => returnEncoded (encodeNarrow into (encodeSvcT1 { imm8 := imm }))
  | _ => fail .failInvalidOperand

def asmUdf : Assembly :=
  match spec.operands with
  | [.immediate imm] =>
      let wide : Assembly :=
        if canBeWide spec then returnEncoded (encodeWide into (encodeUdfT2 { imm16 := imm }))
        else fail .failInvalidWidth
      if canBeNarrow spec then tryEncode (encodeNarrow into (encodeUdfT1 { imm8 := imm })) wide
      else wide
  | _ => fail .failInvalidOperand

def thumbAssemble : Assembly :=
  match spec.mnemonic with
  | .add => asmAdd into spec
  | .adds => asmAdds into spec
  | .addw => asmAddw into spec
  | .b => asmB into spec
  | .bkpt => asmBkpt into spec
  | .bl => asmBl into spec
  | .blx => asmBlx into spec
  | .bx => asmBx into spec
  | .cmp => asmCmp into spec
  | .ldr => asmLdr into spec
  | .nop => asmNop into spec
  | .mov => asmMov into spec
  | .movs => asmMovs into spec
  | .movw => asmMovw into spec
  | .pop => asmPop into spec
  | .push => asmPush into spec
  | .sub => asmSub into spec
  | .subs => asmSubs into spec
  | .subw => asmSubw into spec
  | .svc => asmSvc into spec
  | .udf => asmUdf into spec
  | .unknown => fail .failBadMnemonic

end

end TwMonitor.Thumb
