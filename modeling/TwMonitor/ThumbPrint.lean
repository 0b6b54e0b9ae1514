import TwMonitor.MemoryEntries
import TwMonitor.NumberPad
import TwMonitor.ThumbSpec

/-!
# Printing instructions

The text that `thumb_print_instruction` writes, as a list of characters. The
result is `none` where the code fails an assertion or reads past a table of
strings.
-/
namespace TwMonitor.Thumb
open ByteMemory MemoryStore NumberPad

abbrev Text := List Char

def conditionStrs : List String :=
  ["NONE","EQ","NE","CS","CC","MI","PL","VS","VC","HI","LS","GE","LT","GT","LE","AL"]

/-- In the order of the constructors of `ThumbMnemonic`. -/
def mnemonicStrs : List String :=
  ["UNKNOWN","ADD","ADDS","ADDW","B","BKPT","BL","BLX","BX","CMP","LDR","NOP","MOV","MOVS","MOVW",
   "POP","PUSH","SUB","SUBS","SUBW","SVC","UDF"]

/-- `puthexword` -/
def puthexword (word : BitVec 32) : Option Text := (utoaPadW word 16 8 true).map Pad.chars

def thumbPrintRegisterName (reg : BitVec 32) (padNamedRegisters : Bool) : Option Text :=
  if 15 < reg.toNat then none
  else if reg.toNat < 13 then do
    let number ← utoaPadW reg 10 2 true
    some ('R'::number.chars)
  else
    let name := if reg = 13 then " SP" else if reg = 14 then " LR" else " PC"
    some (if padNamedRegisters then name.toList else name.toList.drop 1)

/-- The registers of the list, from register `i` on. -/
def printRegistersFrom (reglist : BitVec 16) : List ℕ → Bool → Option Text
  | [],_ => some []
  | i::rest,first =>
      if reglist.getLsbD i then do
        let name ← thumbPrintRegisterName (BitVec.ofNat 32 i) false
        let names ← printRegistersFrom reglist rest false
        some ((if first then [] else ", ".toList) ++ name ++ names)
      else printRegistersFrom reglist rest first

def thumbPrintRegisterList (reglist : BitVec 16) : Option Text := do
  let names ← printRegistersFrom reglist (List.range 16) true
  some ('\x7b'::names ++ ['\x7d'])

/-- Any other type of operand fails an assertion. -/
def printOperand : ThumbOperand → Option Text
  | .reg reg => thumbPrintRegisterName reg false
  | .reglist reglist => thumbPrintRegisterList reglist
  | .immediate imm => do
      let number ← utoaPad imm 16
      some ("0x".toList ++ number.chars)
  | .signedImmediate simm => do
      let number ← itoaPad simm 16
      some ("0x".toList ++ number.chars)
  | .lslShift shift => do
      let number ← utoaPad shift 10
      some ("LSL ".toList ++ number.chars)
  | .none => none

def operandSeparator (instruction : ThumbInstructionSpec) (i : ℕ) : Text :=
  if i = 1 ∧ instruction.addressingMode ≠ .none then " [".toList
  else if instruction.addressingMode = .postindex ∧ i = instruction.operands.length - 1 then
    "], ".toList
  else if 0 < i then ", ".toList else " ".toList

def printOperandsFrom (instruction : ThumbInstructionSpec) : ℕ → List ThumbOperand → Option Text
  | _,[] => some []
  | i,operand::rest => do
      let text ← printOperand operand
      let texts ← printOperandsFrom instruction (i + 1) rest
      some (operandSeparator instruction i ++ text ++ texts)

/-- A name is printed up to its first zero byte. -/
def memoryPrintNameFromLabel (entry : MemoryEntry) : Option Text :=
  (labelName entry).map fun name =>
    (name.bytes.takeWhile (· ≠ 0)).map fun b => Char.ofNat b.toNat

def printReference (entries : List MemoryEntry) (address : Address) : Option Text := do
  let number ← puthexword address
  let label ← (match memoryRlookupLabel entries address with
    | some label => do
        let name ← memoryPrintNameFromLabel label
        some (" <".toList ++ name ++ ['>'])
    | none => some [])
  some (" ; References ".toList ++ number ++ label)

def thumbPrintInstruction (entries : List MemoryEntry) (instruction : ThumbInstructionSpec)
    (addressOfInstruction : Address) : Option Text := do
  let mnemonic ← mnemonicStrs[instruction.mnemonic.ctorIdx]?
  let condition ← (if instruction.condition ≠ .none then conditionStrs[instruction.condition.toNat]?
    else some "")
  let width := if instruction.width = .wide then ".W" else ""
  let operands ← printOperandsFrom instruction 0 instruction.operands
  let closing := match instruction.addressingMode with
    | .offset => "]"
    | .preindex => "]!"
    | _ => ""
  let refd := thumbGetReferencedAddress instruction addressOfInstruction
  let reference ← (if refd.found then printReference entries refd.address else some [])
  some (mnemonic.toList ++ condition.toList ++ width.toList ++ operands ++ closing.toList ++
    reference)

end TwMonitor.Thumb
