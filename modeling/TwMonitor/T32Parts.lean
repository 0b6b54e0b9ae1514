import TwMonitor.BitPattern

/-!
# Field macros and decoded parts of the T32 encodings

The bit macros of the generated encoder, over the 32-bit words it computes in,
and one record of decoded fields for each encoding. `BIT_EXTRACT`, `BIT_MASK`
and `UNSIGNED_CHECK_FIT` are the library's `extract`, `mask` and `fits`; every
position and width that the generated code uses stays inside the word, so an
arithmetic and a logical shift select the same bits. The signed records
(`simm8` to `simm25`) hold an `int32_t` as its 32 bits.
-/
namespace TwMonitor.T32
open BitLayout BitPattern

abbrev bitExtract {n : ℕ} (value : BitVec n) (position width : ℕ) : BitVec 32 :=
  extract 32 value position width

/-- `SIGNED_CHECK_FIT`: a negative value is checked as its one's complement. -/
def signedCheckFit (value : BitVec 32) (width : ℕ) : Bool :=
  fits (if value.slt 0 then -value - 1 else value) (width - 1)

def signBitSet (value : BitVec 32) (width : ℕ) : Bool := value &&& (1#32 <<< (width - 1)) != 0

def signedExtend (value : BitVec 32) (oldWidth : ℕ) : BitVec 32 :=
  if signBitSet value oldWidth then value ||| ~~~(mask 32 oldWidth) else value

structure AddsIT1Parts where
  imm3 : BitVec 32
  rn : BitVec 32
  rd : BitVec 32
deriving DecidableEq, Repr, Inhabited

structure AddsIT2Parts where
  rdn : BitVec 32
  imm8 : BitVec 32
deriving DecidableEq, Repr, Inhabited

structure AddwIT4Parts where
  rd : BitVec 32
  rn : BitVec 32
  imm12 : BitVec 32
deriving DecidableEq, Repr, Inhabited

structure AddsRT1Parts where
  rm : BitVec 32
  rn : BitVec 32
  rd : BitVec 32
deriving DecidableEq, Repr, Inhabited

structure AddRT2Parts where
  rdn : BitVec 32
  rm : BitVec 32
deriving DecidableEq, Repr, Inhabited

structure BCondT1NoitParts where
  cond : BitVec 32
  simm8 : BitVec 32
deriving DecidableEq, Repr, Inhabited

structure BT2Parts where
  simm11 : BitVec 32
deriving DecidableEq, Repr, Inhabited

structure BCondT3NoitParts where
  cond : BitVec 32
  simm21 : BitVec 32
deriving DecidableEq, Repr, Inhabited

structure BT4Parts where
  simm25 : BitVec 32
deriving DecidableEq, Repr, Inhabited

structure BkptT1Parts where
  imm8 : BitVec 32
deriving DecidableEq, Repr, Inhabited

structure BlT1Parts where
  simm25 : BitVec 32
deriving DecidableEq, Repr, Inhabited

structure BlxT1Parts where
  rm : BitVec 32
deriving DecidableEq, Repr, Inhabited

structure BxT1Parts where
  rm : BitVec 32
deriving DecidableEq, Repr, Inhabited

structure CmpIT1Parts where
  rn : BitVec 32
  imm8 : BitVec 32
deriving DecidableEq, Repr, Inhabited

structure CmpRT1Parts where
  rm : BitVec 32
  rn : BitVec 32
deriving DecidableEq, Repr, Inhabited

structure CmpRT2Parts where
  rn : BitVec 32
  rm : BitVec 32
deriving DecidableEq, Repr, Inhabited

structure LdrIT1Parts where
  rt : BitVec 32
  rn : BitVec 32
  imm7 : BitVec 32
deriving DecidableEq, Repr, Inhabited

structure LdrIT2SponlyParts where
  rt : BitVec 32
  imm10 : BitVec 32
deriving DecidableEq, Repr, Inhabited

structure LdrIT3Parts where
  rt : BitVec 32
  imm12 : BitVec 32
  rn : BitVec 32
deriving DecidableEq, Repr, Inhabited

structure LdrIT4Parts where
  rt : BitVec 32
  index : BitVec 32
  add : BitVec 32
  writeback : BitVec 32
  imm8 : BitVec 32
  rn : BitVec 32
deriving DecidableEq, Repr, Inhabited

structure LdrLitT1Parts where
  rt : BitVec 32
  imm10 : BitVec 32
deriving DecidableEq, Repr, Inhabited

structure LdrLitT2Parts where
  rt : BitVec 32
  imm12 : BitVec 32
  add : BitVec 32
deriving DecidableEq, Repr, Inhabited

structure LdrRT1Parts where
  rm : BitVec 32
  rn : BitVec 32
  rt : BitVec 32
deriving DecidableEq, Repr, Inhabited

structure LdrRT2LslParts where
  rt : BitVec 32
  lslShiftImm2 : BitVec 32
  rm : BitVec 32
  rn : BitVec 32
deriving DecidableEq, Repr, Inhabited

structure MovsIT1Parts where
  rd : BitVec 32
  imm8 : BitVec 32
deriving DecidableEq, Repr, Inhabited

structure MovwIT3Parts where
  rd : BitVec 32
  imm16 : BitVec 32
deriving DecidableEq, Repr, Inhabited

structure MovRT1Parts where
  rm : BitVec 32
  rd : BitVec 32
deriving DecidableEq, Repr, Inhabited

structure MovsRT2NoitParts where
  rm : BitVec 32
  rd : BitVec 32
deriving DecidableEq, Repr, Inhabited

structure MovRT3OptSParts where
  rd : BitVec 32
  rm : BitVec 32
  setflags : BitVec 32
deriving DecidableEq, Repr, Inhabited

structure PopT1Parts where
  pc : BitVec 32
  regs : BitVec 32
deriving DecidableEq, Repr, Inhabited

structure PopT2Parts where
  pc : BitVec 32
  lr : BitVec 32
  regs : BitVec 32
deriving DecidableEq, Repr, Inhabited

structure PopT3Parts where
  rt : BitVec 32
deriving DecidableEq, Repr, Inhabited

structure PushT1Parts where
  lr : BitVec 32
  regs : BitVec 32
deriving DecidableEq, Repr, Inhabited

structure PushT2Parts where
  lr : BitVec 32
  regs : BitVec 32
deriving DecidableEq, Repr, Inhabited

structure PushT3Parts where
  rt : BitVec 32
deriving DecidableEq, Repr, Inhabited

structure SubsIT1Parts where
  imm3 : BitVec 32
  rn : BitVec 32
  rd : BitVec 32
deriving DecidableEq, Repr, Inhabited

structure SubsIT2Parts where
  rdn : BitVec 32
  imm8 : BitVec 32
deriving DecidableEq, Repr, Inhabited

structure SubwIT4Parts where
  rd : BitVec 32
  rn : BitVec 32
  imm12 : BitVec 32
deriving DecidableEq, Repr, Inhabited

structure SubsRT1Parts where
  rm : BitVec 32
  rn : BitVec 32
  rd : BitVec 32
deriving DecidableEq, Repr, Inhabited

structure SvcT1Parts where
  imm8 : BitVec 32
deriving DecidableEq, Repr, Inhabited

structure UdfT1Parts where
  imm8 : BitVec 32
deriving DecidableEq, Repr, Inhabited

structure UdfT2Parts where
  imm16 : BitVec 32
deriving DecidableEq, Repr, Inhabited

end TwMonitor.T32
