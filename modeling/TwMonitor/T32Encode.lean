import TwMonitor.T32Parts

/-!
# Encoders of the T32 encodings

An encoder starts from its opcode word and ORs in its fields. A `field` step is
`UNSIGNED_CHECK_FIT(value, width)` followed by `encoded |= value << pos`, a
`slice` step is `encoded |= BIT_EXTRACT(value, start, width) << pos`, and a
failing check makes the C function return 0. The numbers of the checks are the
source's: several signed and scaled fields are checked against a width that is
larger than the field they are stored in.
-/
namespace TwMonitor.T32
open BitLayout

abbrev Encoder (n : ℕ) := Packing n 32

def encodeAddsIT1 (parts : AddsIT1Parts) : Encoder 16 where
  base := 0x1c00
  steps := [.field parts.imm3 3 6, .field parts.rn 3 3, .field parts.rd 3 0]

def encodeAddsIT2 (parts : AddsIT2Parts) : Encoder 16 where
  base := 0x3000
  steps := [.field parts.rdn 3 8, .field parts.imm8 8 0]

def encodeAddwIT4 (parts : AddwIT4Parts) : Encoder 32 where
  base := 0xf200
  steps := [.check (fits parts.imm12 12), .slice parts.imm12 8 3 28, .field parts.rd 4 24,
    .slice parts.imm12 0 8 16, .slice parts.imm12 11 1 10, .field parts.rn 4 0]

def encodeAddsRT1 (parts : AddsRT1Parts) : Encoder 16 where
  base := 0x1800
  steps := [.field parts.rm 3 6, .field parts.rn 3 3, .field parts.rd 3 0]

def encodeAddRT2 (parts : AddRT2Parts) : Encoder 16 where
  base := 0x4400
  steps := [.check (fits parts.rdn 4), .slice parts.rdn 3 1 7, .field parts.rm 4 3,
    .slice parts.rdn 0 3 0]

def encodeBCondT1Noit (parts : BCondT1NoitParts) : Encoder 16 where
  base := 0xd000
  steps := [.check (bitExtract parts.simm8 0 1 == 0),
    .check (signedCheckFit (parts.simm8.sshiftRight 1) 9), .field parts.cond 4 8,
    .slice parts.simm8 1 8 0]

def encodeBT2 (parts : BT2Parts) : Encoder 16 where
  base := 0xe000
  steps := [.check (bitExtract parts.simm11 0 1 == 0),
    .check (signedCheckFit (parts.simm11.sshiftRight 1) 12), .slice parts.simm11 1 11 0]

def encodeBCondT3Noit (parts : BCondT3NoitParts) : Encoder 32 where
  base := 0x8000f000
  steps := [.check (bitExtract parts.simm21 0 1 == 0),
    .check (signedCheckFit (parts.simm21.sshiftRight 1) 21), .slice parts.simm21 18 1 29,
    .slice parts.simm21 19 1 27, .slice parts.simm21 1 11 16, .slice parts.simm21 20 1 10,
    .field parts.cond 4 6, .slice parts.simm21 12 6 0]

def encodeBT4 (parts : BT4Parts) : Encoder 32 where
  base := 0x9000f000
  steps := [.check (bitExtract parts.simm25 0 1 == 0),
    .check (signedCheckFit (parts.simm25.sshiftRight 1) 25),
    .slice (~~~(bitExtract parts.simm25 23 1) ^^^ bitExtract parts.simm25 24 1) 0 1 29,
    .slice (~~~(bitExtract parts.simm25 22 1) ^^^ bitExtract parts.simm25 24 1) 0 1 27,
    .slice parts.simm25 1 11 16, .slice parts.simm25 24 1 10, .slice parts.simm25 12 10 0]

def encodeBkptT1 (parts : BkptT1Parts) : Encoder 16 where
  base := 0xbe00
  steps := [.field parts.imm8 8 0]

def encodeBlT1 (parts : BlT1Parts) : Encoder 32 where
  base := 0xd000f000
  steps := [.check (bitExtract parts.simm25 0 1 == 0),
    .check (signedCheckFit (parts.simm25.sshiftRight 1) 25),
    .slice (~~~(bitExtract parts.simm25 23 1) ^^^ bitExtract parts.simm25 24 1) 0 1 29,
    .slice (~~~(bitExtract parts.simm25 22 1) ^^^ bitExtract parts.simm25 24 1) 0 1 27,
    .slice parts.simm25 1 11 16, .slice parts.simm25 24 1 10, .slice parts.simm25 12 10 0]

def encodeBlxT1 (parts : BlxT1Parts) : Encoder 16 where
  base := 0x4780
  steps := [.field parts.rm 4 3]

def encodeBxT1 (parts : BxT1Parts) : Encoder 16 where
  base := 0x4700
  steps := [.field parts.rm 4 3]

def encodeCmpIT1 (parts : CmpIT1Parts) : Encoder 16 where
  base := 0x2800
  steps := [.field parts.rn 3 8, .field parts.imm8 8 0]

def encodeCmpRT1 (parts : CmpRT1Parts) : Encoder 16 where
  base := 0x4280
  steps := [.field parts.rm 3 3, .field parts.rn 3 0]

def encodeCmpRT2 (parts : CmpRT2Parts) : Encoder 16 where
  base := 0x4500
  steps := [.check (fits parts.rn 4), .slice parts.rn 3 1 7, .field parts.rm 4 3,
    .slice parts.rn 0 3 0]

def encodeLdrIT1 (parts : LdrIT1Parts) : Encoder 16 where
  base := 0x6800
  steps := [.check (bitExtract parts.imm7 0 2 == 0), .check (fits (parts.imm7 >>> 2) 7),
    .slice parts.imm7 2 5 6, .field parts.rn 3 3, .field parts.rt 3 0]

def encodeLdrIT2Sponly (parts : LdrIT2SponlyParts) : Encoder 16 where
  base := 0x9800
  steps := [.check (bitExtract parts.imm10 0 2 == 0), .check (fits (parts.imm10 >>> 2) 10),
    .field parts.rt 3 8, .slice parts.imm10 2 8 0]

def encodeLdrIT3 (parts : LdrIT3Parts) : Encoder 32 where
  base := 0xf8d0
  steps := [.field parts.rt 4 28, .field parts.imm12 12 16, .field parts.rn 4 0]

def encodeLdrIT4 (parts : LdrIT4Parts) : Encoder 32 where
  base := 0x800f850
  steps := [.field parts.rt 4 28, .field parts.index 1 26, .field parts.add 1 25,
    .field parts.writeback 1 24, .field parts.imm8 8 16, .field parts.rn 4 0]

def encodeLdrLitT1 (parts : LdrLitT1Parts) : Encoder 16 where
  base := 0x4800
  steps := [.check (bitExtract parts.imm10 0 2 == 0), .check (fits (parts.imm10 >>> 2) 10),
    .field parts.rt 3 8, .slice parts.imm10 2 8 0]

def encodeLdrLitT2 (parts : LdrLitT2Parts) : Encoder 32 where
  base := 0xf85f
  steps := [.field parts.rt 4 28, .field parts.imm12 12 16, .field parts.add 1 7]

def encodeLdrRT1 (parts : LdrRT1Parts) : Encoder 16 where
  base := 0x5800
  steps := [.field parts.rm 3 6, .field parts.rn 3 3, .field parts.rt 3 0]

def encodeLdrRT2Lsl (parts : LdrRT2LslParts) : Encoder 32 where
  base := 0xf850
  steps := [.field parts.rt 4 28, .field parts.lslShiftImm2 2 20, .field parts.rm 4 16,
    .field parts.rn 4 0]

def encodeNopT1 : Encoder 16 where
  base := 0xbf00
  steps := []

def encodeNopT2 : Encoder 32 where
  base := 0x8000f3af
  steps := []

def encodeMovsIT1 (parts : MovsIT1Parts) : Encoder 16 where
  base := 0x2000
  steps := [.field parts.rd 3 8, .field parts.imm8 8 0]

def encodeMovwIT3 (parts : MovwIT3Parts) : Encoder 32 where
  base := 0xf240
  steps := [.check (fits parts.imm16 16), .slice parts.imm16 8 3 28, .field parts.rd 4 24,
    .slice parts.imm16 0 8 16, .slice parts.imm16 11 1 10, .slice parts.imm16 12 4 0]

def encodeMovRT1 (parts : MovRT1Parts) : Encoder 16 where
  base := 0x4600
  steps := [.check (fits parts.rd 4), .slice parts.rd 3 1 7, .field parts.rm 4 3,
    .slice parts.rd 0 3 0]

def encodeMovsRT2Noit (parts : MovsRT2NoitParts) : Encoder 16 where
  base := 0x0
  steps := [.field parts.rm 3 3, .field parts.rd 3 0]

def encodeMovRT3OptS (parts : MovRT3OptSParts) : Encoder 32 where
  base := 0xea4f
  steps := [.field parts.rd 4 24, .field parts.rm 4 16, .field parts.setflags 1 4]

def encodePopT1 (parts : PopT1Parts) : Encoder 16 where
  base := 0xbc00
  steps := [.field parts.pc 1 8, .field parts.regs 8 0]

def encodePopT2 (parts : PopT2Parts) : Encoder 32 where
  base := 0xe8bd
  steps := [.field parts.pc 1 31, .field parts.lr 1 30, .field parts.regs 13 16]

def encodePopT3 (parts : PopT3Parts) : Encoder 32 where
  base := 0xb04f85d
  steps := [.field parts.rt 4 28]

def encodePushT1 (parts : PushT1Parts) : Encoder 16 where
  base := 0xb400
  steps := [.field parts.lr 1 8, .field parts.regs 8 0]

def encodePushT2 (parts : PushT2Parts) : Encoder 32 where
  base := 0xe92d
  steps := [.field parts.lr 1 30, .field parts.regs 13 16]

def encodePushT3 (parts : PushT3Parts) : Encoder 32 where
  base := 0xd04f84d
  steps := [.field parts.rt 4 28]

def encodeSubsIT1 (parts : SubsIT1Parts) : Encoder 16 where
  base := 0x1e00
  steps := [.field parts.imm3 3 6, .field parts.rn 3 3, .field parts.rd 3 0]

def encodeSubsIT2 (parts : SubsIT2Parts) : Encoder 16 where
  base := 0x3800
  steps := [.field parts.rdn 3 8, .field parts.imm8 8 0]

def encodeSubwIT4 (parts : SubwIT4Parts) : Encoder 32 where
  base := 0xf2a0
  steps := [.check (fits parts.imm12 12), .slice parts.imm12 8 3 28, .field parts.rd 4 24,
    .slice parts.imm12 0 8 16, .slice parts.imm12 11 1 10, .field parts.rn 4 0]

def encodeSubsRT1 (parts : SubsRT1Parts) : Encoder 16 where
  base := 0x1a00
  steps := [.field parts.rm 3 6, .field parts.rn 3 3, .field parts.rd 3 0]

def encodeSvcT1 (parts : SvcT1Parts) : Encoder 16 where
  base := 0xdf00
  steps := [.field parts.imm8 8 0]

def encodeUdfT1 (parts : UdfT1Parts) : Encoder 16 where
  base := 0xde00
  steps := [.field parts.imm8 8 0]

def encodeUdfT2 (parts : UdfT2Parts) : Encoder 32 where
  base := 0xa000f7f0
  steps := [.check (fits parts.imm16 16), .slice parts.imm16 0 12 16, .slice parts.imm16 12 4 0]

end TwMonitor.T32
