import TwMonitor.T32Parts

/-!
# Decoders of the T32 encodings

Each `decode_*` function reads the fields of a word back into the record of its
encoding, joining the fields that the instruction set stores in pieces.
-/
namespace TwMonitor.T32

def decodeAddsIT1 (field : BitVec 16) : AddsIT1Parts :=
  { imm3 := bitExtract field 6 3, rn := bitExtract field 3 3, rd := bitExtract field 0 3 }

def decodeAddsIT2 (field : BitVec 16) : AddsIT2Parts :=
  { rdn := bitExtract field 8 3, imm8 := bitExtract field 0 8 }

def decodeAddwIT4 (field : BitVec 32) : AddwIT4Parts :=
  let imm3 := bitExtract field 28 3
  let imm8 := bitExtract field 16 8
  let i := bitExtract field 10 1
  let imm12 := i <<< 11 ||| imm3 <<< 8 ||| imm8
  { rd := bitExtract field 24 4, rn := bitExtract field 0 4, imm12 := imm12 }

def decodeAddsRT1 (field : BitVec 16) : AddsRT1Parts :=
  { rm := bitExtract field 6 3, rn := bitExtract field 3 3, rd := bitExtract field 0 3 }

def decodeAddRT2 (field : BitVec 16) : AddRT2Parts :=
  let rdn_3 := bitExtract field 7 1
  let rdn_2_0 := bitExtract field 0 3
  let rdn := rdn_3 <<< 3 ||| rdn_2_0
  { rdn := rdn, rm := bitExtract field 3 4 }

def decodeBCondT1Noit (field : BitVec 16) : BCondT1NoitParts :=
  let imm8 := bitExtract field 0 8
  let simm8 := imm8
  { cond := bitExtract field 8 4, simm8 := signedExtend simm8 8 <<< 1 }

def decodeBT2 (field : BitVec 16) : BT2Parts :=
  let imm11 := bitExtract field 0 11
  let simm11 := imm11
  { simm11 := signedExtend simm11 11 <<< 1 }

def decodeBCondT3Noit (field : BitVec 32) : BCondT3NoitParts :=
  let j1 := bitExtract field 29 1
  let j2 := bitExtract field 27 1
  let imm11 := bitExtract field 16 11
  let sign := bitExtract field 10 1
  let imm6 := bitExtract field 0 6
  let simm21 := sign <<< 19 ||| j2 <<< 18 ||| j1 <<< 17 ||| imm6 <<< 11 ||| imm11
  { cond := bitExtract field 6 4, simm21 := signedExtend simm21 20 <<< 1 }

def decodeBT4 (field : BitVec 32) : BT4Parts :=
  let imm11 := bitExtract field 16 11
  let sign := bitExtract field 10 1
  let imm10 := bitExtract field 0 10
  let i2 := bitExtract (~~~(bitExtract field 27 1 ^^^ sign)) 0 1
  let i1 := bitExtract (~~~(bitExtract field 29 1 ^^^ sign)) 0 1
  let simm25 := sign <<< 23 ||| i1 <<< 22 ||| i2 <<< 21 ||| imm10 <<< 11 ||| imm11
  { simm25 := signedExtend simm25 24 <<< 1 }

def decodeBkptT1 (field : BitVec 16) : BkptT1Parts :=
  { imm8 := bitExtract field 0 8 }

def decodeBlT1 (field : BitVec 32) : BlT1Parts :=
  let imm11 := bitExtract field 16 11
  let sign := bitExtract field 10 1
  let imm10 := bitExtract field 0 10
  let i2 := bitExtract (~~~(bitExtract field 27 1 ^^^ sign)) 0 1
  let i1 := bitExtract (~~~(bitExtract field 29 1 ^^^ sign)) 0 1
  let simm25 := sign <<< 23 ||| i1 <<< 22 ||| i2 <<< 21 ||| imm10 <<< 11 ||| imm11
  { simm25 := signedExtend simm25 24 <<< 1 }

def decodeBlxT1 (field : BitVec 16) : BlxT1Parts :=
  { rm := bitExtract field 3 4 }

def decodeBxT1 (field : BitVec 16) : BxT1Parts :=
  { rm := bitExtract field 3 4 }

def decodeCmpIT1 (field : BitVec 16) : CmpIT1Parts :=
  { rn := bitExtract field 8 3, imm8 := bitExtract field 0 8 }

def decodeCmpRT1 (field : BitVec 16) : CmpRT1Parts :=
  { rm := bitExtract field 3 3, rn := bitExtract field 0 3 }

def decodeCmpRT2 (field : BitVec 16) : CmpRT2Parts :=
  let rn_3 := bitExtract field 7 1
  let rn_2_0 := bitExtract field 0 3
  let rn := rn_3 <<< 3 ||| rn_2_0
  { rn := rn, rm := bitExtract field 3 4 }

def decodeLdrIT1 (field : BitVec 16) : LdrIT1Parts :=
  let imm5 := bitExtract field 6 5
  let imm7 := imm5
  { rt := bitExtract field 0 3, rn := bitExtract field 3 3, imm7 := imm7 <<< 2 }

def decodeLdrIT2Sponly (field : BitVec 16) : LdrIT2SponlyParts :=
  let imm8 := bitExtract field 0 8
  let imm10 := imm8
  { rt := bitExtract field 8 3, imm10 := imm10 <<< 2 }

def decodeLdrIT3 (field : BitVec 32) : LdrIT3Parts :=
  { rt := bitExtract field 28 4, imm12 := bitExtract field 16 12, rn := bitExtract field 0 4 }

def decodeLdrIT4 (field : BitVec 32) : LdrIT4Parts :=
  { rt := bitExtract field 28 4,
    index := bitExtract field 26 1,
    add := bitExtract field 25 1,
    writeback := bitExtract field 24 1,
    imm8 := bitExtract field 16 8,
    rn := bitExtract field 0 4 }

def decodeLdrLitT1 (field : BitVec 16) : LdrLitT1Parts :=
  let imm8 := bitExtract field 0 8
  let imm10 := imm8
  { rt := bitExtract field 8 3, imm10 := imm10 <<< 2 }

def decodeLdrLitT2 (field : BitVec 32) : LdrLitT2Parts :=
  { rt := bitExtract field 28 4, imm12 := bitExtract field 16 12, add := bitExtract field 7 1 }

def decodeLdrRT1 (field : BitVec 16) : LdrRT1Parts :=
  { rm := bitExtract field 6 3, rn := bitExtract field 3 3, rt := bitExtract field 0 3 }

def decodeLdrRT2Lsl (field : BitVec 32) : LdrRT2LslParts :=
  { rt := bitExtract field 28 4,
    lslShiftImm2 := bitExtract field 20 2,
    rm := bitExtract field 16 4,
    rn := bitExtract field 0 4 }

def decodeMovsIT1 (field : BitVec 16) : MovsIT1Parts :=
  { rd := bitExtract field 8 3, imm8 := bitExtract field 0 8 }

def decodeMovwIT3 (field : BitVec 32) : MovwIT3Parts :=
  let imm3 := bitExtract field 28 3
  let imm8 := bitExtract field 16 8
  let i := bitExtract field 10 1
  let imm4 := bitExtract field 0 4
  let imm16 := imm4 <<< 12 ||| i <<< 11 ||| imm3 <<< 8 ||| imm8
  { rd := bitExtract field 24 4, imm16 := imm16 }

def decodeMovRT1 (field : BitVec 16) : MovRT1Parts :=
  let rd_3 := bitExtract field 7 1
  let rd_2_0 := bitExtract field 0 3
  let rd := rd_3 <<< 3 ||| rd_2_0
  { rm := bitExtract field 3 4, rd := rd }

def decodeMovsRT2Noit (field : BitVec 16) : MovsRT2NoitParts :=
  { rm := bitExtract field 3 3, rd := bitExtract field 0 3 }

def decodeMovRT3OptS (field : BitVec 32) : MovRT3OptSParts :=
  { rd := bitExtract field 24 4, rm := bitExtract field 16 4, setflags := bitExtract field 4 1 }

def decodePopT1 (field : BitVec 16) : PopT1Parts :=
  { pc := bitExtract field 8 1, regs := bitExtract field 0 8 }

def decodePopT2 (field : BitVec 32) : PopT2Parts :=
  { pc := bitExtract field 31 1, lr := bitExtract field 30 1, regs := bitExtract field 16 13 }

def decodePopT3 (field : BitVec 32) : PopT3Parts :=
  { rt := bitExtract field 28 4 }

def decodePushT1 (field : BitVec 16) : PushT1Parts :=
  { lr := bitExtract field 8 1, regs := bitExtract field 0 8 }

def decodePushT2 (field : BitVec 32) : PushT2Parts :=
  { lr := bitExtract field 30 1, regs := bitExtract field 16 13 }

def decodePushT3 (field : BitVec 32) : PushT3Parts :=
  { rt := bitExtract field 28 4 }

def decodeSubsIT1 (field : BitVec 16) : SubsIT1Parts :=
  { imm3 := bitExtract field 6 3, rn := bitExtract field 3 3, rd := bitExtract field 0 3 }

def decodeSubsIT2 (field : BitVec 16) : SubsIT2Parts :=
  { rdn := bitExtract field 8 3, imm8 := bitExtract field 0 8 }

def decodeSubwIT4 (field : BitVec 32) : SubwIT4Parts :=
  let imm3 := bitExtract field 28 3
  let imm8 := bitExtract field 16 8
  let i := bitExtract field 10 1
  let imm12 := i <<< 11 ||| imm3 <<< 8 ||| imm8
  { rd := bitExtract field 24 4, rn := bitExtract field 0 4, imm12 := imm12 }

def decodeSubsRT1 (field : BitVec 16) : SubsRT1Parts :=
  { rm := bitExtract field 6 3, rn := bitExtract field 3 3, rd := bitExtract field 0 3 }

def decodeSvcT1 (field : BitVec 16) : SvcT1Parts :=
  { imm8 := bitExtract field 0 8 }

def decodeUdfT1 (field : BitVec 16) : UdfT1Parts :=
  { imm8 := bitExtract field 0 8 }

def decodeUdfT2 (field : BitVec 32) : UdfT2Parts :=
  let imm12 := bitExtract field 16 12
  let imm4 := bitExtract field 0 4
  let imm16 := imm4 <<< 12 ||| imm12
  { imm16 := imm16 }

end TwMonitor.T32
