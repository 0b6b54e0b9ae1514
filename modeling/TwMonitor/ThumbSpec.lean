import TwMonitor.ByteMemory

/-!
# Instruction specifications

The data that the assembler reads and the disassembler returns. A condition is
a number and not an enumeration, because the disassembler stores a raw four-bit
field plus one in it; the names are its sixteen declared values. The operand
array with its count is a list: the code never reads an entry past the count,
and entries are only added through `new_operand`, which asserts that the array
is not full. A failed assertion never returns and is modelled by `none`.
-/
namespace TwMonitor.Thumb
open ByteMemory

def thumbMaxOperands : ℕ := 4

abbrev ThumbCondition := BitVec 32

namespace ThumbCondition

def none : ThumbCondition := 0
def eq : ThumbCondition := 1
def ne : ThumbCondition := 2
def cs : ThumbCondition := 3
def cc : ThumbCondition := 4
def mi : ThumbCondition := 5
def pl : ThumbCondition := 6
def vs : ThumbCondition := 7
def vc : ThumbCondition := 8
def hi : ThumbCondition := 9
def ls : ThumbCondition := 10
def ge : ThumbCondition := 11
def lt : ThumbCondition := 12
def gt : ThumbCondition := 13
def le : ThumbCondition := 14
def al : ThumbCondition := 15

end ThumbCondition

inductive ThumbMnemonic where
  | unknown
  | add | adds | addw | b | bkpt | bl | blx | bx | cmp | ldr | nop | mov | movs | movw
  | pop | push | sub | subs | subw | svc | udf
deriving DecidableEq, Repr

inductive AddressingMode where
  | none | offset | preindex | postindex
deriving DecidableEq, Repr

inductive ThumbWidthSpecifier where
  | auto | narrow | wide
deriving DecidableEq, Repr

inductive ThumbOperand where
  | none
  | reg (reg : BitVec 32)
  | reglist (reglist : BitVec 16)
  | immediate (imm : BitVec 32)
  | signedImmediate (simm : BitVec 32)
  | lslShift (shift : BitVec 32)
deriving DecidableEq, Repr

structure ThumbInstructionSpec where
  mnemonic : ThumbMnemonic := .unknown
  condition : ThumbCondition := .none
  width : ThumbWidthSpecifier := .auto
  addressingMode : AddressingMode := .none
  operands : List ThumbOperand := []
deriving DecidableEq, Repr

/-- The union `thumb_t`: a wide instruction, or a narrow one in its low half. -/
abbrev ThumbT := BitVec 32

def ThumbT.narrow (ins : ThumbT) : BitVec 16 := ins.setWidth 16

def thumbIsWideInstruction (ins : ThumbT) : Bool :=
  ThumbT.narrow ins >>> 13 == 7 && ThumbT.narrow ins >>> 11 &&& 3 != 0

def thumbInsPtrIncrement (m : Memory) (insptr : Address) : Address :=
  if thumbIsWideInstruction (load32 m insptr) then insptr + 4 else insptr + 2

/-- One round clears the lowest set bit, so sixteen rounds empty the list. -/
def countRegisters : ℕ → BitVec 16 → ℕ
  | 0,_ => 0
  | fuel + 1,reglist =>
      if reglist = 0 then 0 else countRegisters fuel (reglist &&& (reglist - 1)) + 1

def thumbCountRegisterList (reglist : BitVec 16) : ℕ := countRegisters 16 reglist

def newOperand (instruction : ThumbInstructionSpec) (operand : ThumbOperand) :
    Option ThumbInstructionSpec :=
  if instruction.operands.length < thumbMaxOperands then
    some { instruction with operands := instruction.operands ++ [operand] }
  else none

def thumbAddOperandReg (instruction : ThumbInstructionSpec) (reg : BitVec 32) :
    Option ThumbInstructionSpec := newOperand instruction (.reg reg)

def thumbAddOperandReglist (instruction : ThumbInstructionSpec) (reglist : BitVec 16) :
    Option ThumbInstructionSpec := newOperand instruction (.reglist reglist)

def thumbAddOperandImmediate (instruction : ThumbInstructionSpec) (imm : BitVec 32) :
    Option ThumbInstructionSpec := newOperand instruction (.immediate imm)

def thumbAddOperandSignedImmediate (instruction : ThumbInstructionSpec) (simm : BitVec 32) :
    Option ThumbInstructionSpec := newOperand instruction (.signedImmediate simm)

def thumbAddOperandLslshift (instruction : ThumbInstructionSpec) (shift : BitVec 32) :
    Option ThumbInstructionSpec := newOperand instruction (.lslShift shift)

def thumbSetCondition (instruction : ThumbInstructionSpec) (condition : ThumbCondition) :
    ThumbInstructionSpec := { instruction with condition := condition }

def thumbSetOperandAddressingMode (instruction : ThumbInstructionSpec)
    (addressingMode : AddressingMode) : ThumbInstructionSpec :=
  { instruction with addressingMode := addressingMode }

structure ThumbReferencedAddressResult where
  found : Bool
  address : Address
deriving DecidableEq, Repr

def thumbGetReferencedAddress (instruction : ThumbInstructionSpec)
    (addressOfInstruction : Address) : ThumbReferencedAddressResult :=
  match instruction.mnemonic,instruction.operands with
  | .b,[.signedImmediate simm] => ⟨true,addressOfInstruction + simm⟩
  | .bl,[.signedImmediate simm] => ⟨true,addressOfInstruction + simm⟩
  | _,_ => ⟨false,0⟩

end TwMonitor.Thumb
