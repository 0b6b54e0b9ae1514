import TwMonitor.T32Match
import TwMonitor.T32Decode
import TwMonitor.ThumbSpec

/-!
# The disassembler

`thumb_disassemble` tries the bit patterns of the known encodings in a fixed
order, one order for wide and one for narrow instructions, and fills in the
specification from the fields of the first pattern that matches. An unknown
word keeps the zero specification. The result is `none` where the code fails an
assertion, which on the target never returns.
-/
namespace TwMonitor.Thumb
open T32

/-- The last branch is `ASSERT_NOT_REACHED`. -/
def ldrIT4AddressingMode (parts : LdrIT4Parts) : Option AddressingMode :=
  if parts.index ≠ 0 ∧ parts.writeback ≠ 0 then some .preindex
  else if parts.index = 0 ∧ parts.writeback ≠ 0 then some .postindex
  else if parts.index ≠ 0 ∧ parts.writeback = 0 then some .offset
  else none

/-- UDF comes first, because some undefined encodings also match later patterns
(such as the conditional branch with an AL condition). The `+ 4` of the branches
is the distance between the address of the instruction and the PC it sees. -/
def thumbDisassembleWide (wideIns : BitVec 32) : Option ThumbInstructionSpec :=
  let instruction : ThumbInstructionSpec := { width := .wide }
  if matchUdfT2 wideIns then do
    let parts := decodeUdfT2 wideIns
    let instruction := { instruction with mnemonic := .udf }
    thumbAddOperandImmediate instruction parts.imm16
  else if matchNopT2 wideIns then
    some { instruction with mnemonic := .nop }
  else if matchMovwIT3 wideIns then do
    let parts := decodeMovwIT3 wideIns
    let instruction := { instruction with mnemonic := .movw }
    let instruction ← thumbAddOperandReg instruction parts.rd
    thumbAddOperandImmediate instruction parts.imm16
  else if matchMovRT3OptS wideIns then do
    let parts := decodeMovRT3OptS wideIns
    let instruction := { instruction with mnemonic := if parts.setflags ≠ 0 then .movs else .mov }
    let instruction ← thumbAddOperandReg instruction parts.rd
    thumbAddOperandReg instruction parts.rm
  else if matchBT4 wideIns then do
    let parts := decodeBT4 wideIns
    let instruction := { instruction with mnemonic := .b }
    thumbAddOperandSignedImmediate instruction (parts.simm25 + 4)
  else if matchBCondT3Noit wideIns then do
    let parts := decodeBCondT3Noit wideIns
    let instruction := { instruction with mnemonic := .b }
    let instruction := thumbSetCondition instruction (parts.cond + 1)
    thumbAddOperandSignedImmediate instruction (parts.simm21 + 4)
  else if matchLdrIT3 wideIns then do
    let parts := decodeLdrIT3 wideIns
    let instruction := { instruction with mnemonic := .ldr, addressingMode := .offset }
    let instruction ← thumbAddOperandReg instruction parts.rt
    let instruction ← thumbAddOperandReg instruction parts.rn
    thumbAddOperandImmediate instruction parts.imm12
  else if matchLdrIT4 wideIns then do
    let parts := decodeLdrIT4 wideIns
    let instruction := { instruction with mnemonic := .ldr }
    let addressingMode ← ldrIT4AddressingMode parts
    let instruction := { instruction with addressingMode }
    let instruction ← thumbAddOperandReg instruction parts.rt
    let instruction ← thumbAddOperandReg instruction parts.rn
    thumbAddOperandSignedImmediate instruction (parts.imm8 * (if parts.add ≠ 0 then 1 else -1))
  else if matchLdrLitT2 wideIns then do
    let parts := decodeLdrLitT2 wideIns
    let instruction := { instruction with mnemonic := .ldr, addressingMode := .offset }
    let instruction ← thumbAddOperandReg instruction parts.rt
    let instruction ← thumbAddOperandReg instruction 15
    thumbAddOperandSignedImmediate instruction (parts.imm12 * (if parts.add ≠ 0 then 1 else -1))
  else if matchLdrRT2Lsl wideIns then do
    let parts := decodeLdrRT2Lsl wideIns
    let instruction := { instruction with mnemonic := .ldr, addressingMode := .offset }
    let instruction ← thumbAddOperandReg instruction parts.rt
    let instruction ← thumbAddOperandReg instruction parts.rn
    let instruction ← thumbAddOperandReg instruction parts.rm
    thumbAddOperandLslshift instruction parts.lslShiftImm2
  else if matchBlT1 wideIns then do
    let parts := decodeBlT1 wideIns
    let instruction := { instruction with mnemonic := .bl }
    thumbAddOperandSignedImmediate instruction (parts.simm25 + 4)
  else if matchPopT2 wideIns then do
    let parts := decodePopT2 wideIns
    let instruction := { instruction with mnemonic := .pop }
    thumbAddOperandReglist instruction
      ((parts.regs ||| parts.lr <<< 14 ||| parts.pc <<< 15).setWidth 16)
  else if matchPopT3 wideIns then do
    let parts := decodePopT3 wideIns
    let instruction := { instruction with mnemonic := .pop }
    thumbAddOperandReglist instruction ((1#32 <<< parts.rt.toNat).setWidth 16)
  else if matchPushT2 wideIns then do
    let parts := decodePushT2 wideIns
    let instruction := { instruction with mnemonic := .push }
    thumbAddOperandReglist instruction ((parts.regs ||| parts.lr <<< 14).setWidth 16)
  else if matchPushT3 wideIns then do
    let parts := decodePushT3 wideIns
    let instruction := { instruction with mnemonic := .push }
    thumbAddOperandReglist instruction ((1#32 <<< parts.rt.toNat).setWidth 16)
  else if matchAddwIT4 wideIns then do
    let parts := decodeAddwIT4 wideIns
    let instruction := { instruction with mnemonic := .addw }
    let instruction ← thumbAddOperandReg instruction parts.rd
    let instruction ← thumbAddOperandReg instruction parts.rn
    thumbAddOperandImmediate instruction parts.imm12
  else if matchSubwIT4 wideIns then do
    let parts := decodeSubwIT4 wideIns
    let instruction := { instruction with mnemonic := .subw }
    let instruction ← thumbAddOperandReg instruction parts.rd
    let instruction ← thumbAddOperandReg instruction parts.rn
    thumbAddOperandImmediate instruction parts.imm12
  else some instruction

def thumbDisassembleNarrow (ins : BitVec 16) : Option ThumbInstructionSpec :=
  let instruction : ThumbInstructionSpec := { width := .narrow }
  if matchUdfT1 ins then do
    let parts := decodeUdfT1 ins
    let instruction := { instruction with mnemonic := .udf }
    thumbAddOperandImmediate instruction parts.imm8
  else if matchBkptT1 ins then do
    let parts := decodeBkptT1 ins
    let instruction := { instruction with mnemonic := .bkpt }
    thumbAddOperandImmediate instruction parts.imm8
  else if matchNopT1 ins then
    some { instruction with mnemonic := .nop }
  else if matchMovsIT1 ins then do
    let parts := decodeMovsIT1 ins
    let instruction := { instruction with mnemonic := .movs }
    let instruction ← thumbAddOperandReg instruction parts.rd
    thumbAddOperandImmediate instruction parts.imm8
  else if matchMovRT1 ins then do
    let parts := decodeMovRT1 ins
    let instruction := { instruction with mnemonic := .mov }
    let instruction ← thumbAddOperandReg instruction parts.rd
    thumbAddOperandReg instruction parts.rm
  else if matchMovsRT2Noit ins then do
    let parts := decodeMovsRT2Noit ins
    let instruction := { instruction with mnemonic := .movs }
    let instruction ← thumbAddOperandReg instruction parts.rd
    thumbAddOperandReg instruction parts.rm
  else if matchBxT1 ins then do
    let parts := decodeBxT1 ins
    let instruction := { instruction with mnemonic := .bx }
    thumbAddOperandReg instruction parts.rm
  else if matchSvcT1 ins then do
    let parts := decodeSvcT1 ins
    let instruction := { instruction with mnemonic := .svc }
    thumbAddOperandImmediate instruction parts.imm8
  else if matchBT2 ins then do
    let parts := decodeBT2 ins
    let instruction := { instruction with mnemonic := .b }
    thumbAddOperandSignedImmediate instruction (parts.simm11 + 4)
  else if matchBCondT1Noit ins then do
    let parts := decodeBCondT1Noit ins
    let instruction := { instruction with mnemonic := .b }
    let instruction := thumbSetCondition instruction (parts.cond + 1)
    thumbAddOperandSignedImmediate instruction (parts.simm8 + 4)
  else if matchLdrIT1 ins then do
    let parts := decodeLdrIT1 ins
    let instruction := { instruction with mnemonic := .ldr, addressingMode := .offset }
    let instruction ← thumbAddOperandReg instruction parts.rt
    let instruction ← thumbAddOperandReg instruction parts.rn
    thumbAddOperandImmediate instruction parts.imm7
  else if matchLdrIT2Sponly ins then do
    let parts := decodeLdrIT2Sponly ins
    let instruction := { instruction with mnemonic := .ldr, addressingMode := .offset }
    let instruction ← thumbAddOperandReg instruction parts.rt
    let instruction ← thumbAddOperandReg instruction 13
    thumbAddOperandImmediate instruction parts.imm10
  else if matchLdrLitT1 ins then do
    let parts := decodeLdrLitT1 ins
    let instruction := { instruction with mnemonic := .ldr, addressingMode := .offset }
    let instruction ← thumbAddOperandReg instruction parts.rt
    let instruction ← thumbAddOperandReg instruction 15
    thumbAddOperandImmediate instruction parts.imm10
  else if matchLdrRT1 ins then do
    let parts := decodeLdrRT1 ins
    let instruction := { instruction with mnemonic := .ldr, addressingMode := .offset }
    let instruction ← thumbAddOperandReg instruction parts.rt
    let instruction ← thumbAddOperandReg instruction parts.rn
    thumbAddOperandReg instruction parts.rm
  else if matchBlxT1 ins then do
    let parts := decodeBlxT1 ins
    let instruction := { instruction with mnemonic := .blx }
    thumbAddOperandReg instruction parts.rm
  else if matchPopT1 ins then do
    let parts := decodePopT1 ins
    let instruction := { instruction with mnemonic := .pop }
    thumbAddOperandReglist instruction ((parts.regs ||| parts.pc <<< 15).setWidth 16)
  else if matchPushT1 ins then do
    let parts := decodePushT1 ins
    let instruction := { instruction with mnemonic := .push }
    thumbAddOperandReglist instruction ((parts.regs ||| parts.lr <<< 14).setWidth 16)
  else if matchCmpIT1 ins then do
    let parts := decodeCmpIT1 ins
    let instruction := { instruction with mnemonic := .cmp }
    let instruction ← thumbAddOperandReg instruction parts.rn
    thumbAddOperandImmediate instruction parts.imm8
  else if matchCmpRT1 ins then do
    let parts := decodeCmpRT1 ins
    let instruction := { instruction with mnemonic := .cmp }
    let instruction ← thumbAddOperandReg instruction parts.rn
    thumbAddOperandReg instruction parts.rm
  else if matchCmpRT2 ins then do
    let parts := decodeCmpRT2 ins
    let instruction := { instruction with mnemonic := .cmp }
    let instruction ← thumbAddOperandReg instruction parts.rn
    thumbAddOperandReg instruction parts.rm
  else if matchAddsIT1 ins then do
    let parts := decodeAddsIT1 ins
    let instruction := { instruction with mnemonic := .adds }
    let instruction ← thumbAddOperandReg instruction parts.rd
    let instruction ← thumbAddOperandReg instruction parts.rn
    thumbAddOperandImmediate instruction parts.imm3
  else if matchAddsIT2 ins then do
    let parts := decodeAddsIT2 ins
    let instruction := { instruction with mnemonic := .adds }
    let instruction ← thumbAddOperandReg instruction parts.rdn
    let instruction ← thumbAddOperandReg instruction parts.rdn
    thumbAddOperandImmediate instruction parts.imm8
  else if matchAddsRT1 ins then do
    let parts := decodeAddsRT1 ins
    let instruction := { instruction with mnemonic := .adds }
    let instruction ← thumbAddOperandReg instruction parts.rd
    let instruction ← thumbAddOperandReg instruction parts.rn
    thumbAddOperandReg instruction parts.rm
  else if matchAddRT2 ins then do
    let parts := decodeAddRT2 ins
    let instruction := { instruction with mnemonic := .add }
    let instruction ← thumbAddOperandReg instruction parts.rdn
    let instruction ← thumbAddOperandReg instruction parts.rdn
    thumbAddOperandReg instruction parts.rm
  else if matchSubsIT1 ins then do
    let parts := decodeSubsIT1 ins
    let instruction := { instruction with mnemonic := .subs }
    let instruction ← thumbAddOperandReg instruction parts.rd
    let instruction ← thumbAddOperandReg instruction parts.rn
    thumbAddOperandImmediate instruction parts.imm3
  else if matchSubsIT2 ins then do
    let parts := decodeSubsIT2 ins
    let instruction := { instruction with mnemonic := .subs }
    let instruction ← thumbAddOperandReg instruction parts.rdn
    let instruction ← thumbAddOperandReg instruction parts.rdn
    thumbAddOperandImmediate instruction parts.imm8
  else if matchSubsRT1 ins then do
    let parts := decodeSubsRT1 ins
    let instruction := { instruction with mnemonic := .subs }
    let instruction ← thumbAddOperandReg instruction parts.rd
    let instruction ← thumbAddOperandReg instruction parts.rn
    thumbAddOperandReg instruction parts.rm
  else some instruction

def thumbDisassemble (insptr : ThumbT) : Option ThumbInstructionSpec :=
  if thumbIsWideInstruction insptr then thumbDisassembleWide insptr
  else thumbDisassembleNarrow (ThumbT.narrow insptr)

end TwMonitor.Thumb
