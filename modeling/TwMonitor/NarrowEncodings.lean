import TwMonitor.ThumbEncoding

/-!
# Narrow encodings

The narrow encodings in the order in which the disassembler tries them.
-/
namespace TwMonitor.Thumb
open BitLayout BitPattern WordCodec T32

namespace NarrowEncoding

def udfT1 : NarrowEncoding where
  Parts := UdfT1Parts
  encode := encodeUdfT1
  recognise := matchUdfT1
  decode := decodeUdfT1
  read parts := some { mnemonic := .udf, width := .narrow, operands := [.immediate parts.imm8] }
  decode_word h := by
    obtain ⟨h₁,_⟩ := Packing.reads_word h
    simp only [decodeUdfT1,h₁]
    rfl

def bkptT1 : NarrowEncoding where
  Parts := BkptT1Parts
  encode := encodeBkptT1
  recognise := matchBkptT1
  decode := decodeBkptT1
  read parts := some { mnemonic := .bkpt, width := .narrow, operands := [.immediate parts.imm8] }
  decode_word h := by
    obtain ⟨h₁,_⟩ := Packing.reads_word h
    simp only [decodeBkptT1,h₁]
    rfl

def nopT1 : NarrowEncoding where
  Parts := Unit
  encode _ := encodeNopT1
  recognise := matchNopT1
  decode _ := ()
  read _ := some { mnemonic := .nop, width := .narrow }
  decode_word _ := rfl

def movsIT1 : NarrowEncoding where
  Parts := MovsIT1Parts
  encode := encodeMovsIT1
  recognise := matchMovsIT1
  decode := decodeMovsIT1
  read parts := some
    { mnemonic := .movs, width := .narrow, operands := [.reg parts.rd,.immediate parts.imm8] }
  decode_word h := by
    obtain ⟨h₁,h₂,_⟩ := Packing.reads_word h
    simp only [decodeMovsIT1,h₁,h₂]
    rfl

def movRT1 : NarrowEncoding where
  Parts := MovRT1Parts
  encode := encodeMovRT1
  recognise := matchMovRT1
  decode := decodeMovRT1
  read parts := some
    { mnemonic := .mov, width := .narrow, operands := [.reg parts.rd,.reg parts.rm] }
  decode_word {parts _} h := by
    have hfits : fits parts.rd 4 = true := ((Bool.and_eq_true _ _).mp (Packing.guards_word h)).1
    obtain ⟨h₁,h₂,h₃,_⟩ := Packing.reads_word h
    simp only [decodeMovRT1,h₁,h₂,h₃,extract_join_of_fits 3 1 hfits]
    rfl

def movsRT2Noit : NarrowEncoding where
  Parts := MovsRT2NoitParts
  encode := encodeMovsRT2Noit
  recognise := matchMovsRT2Noit
  decode := decodeMovsRT2Noit
  read parts := some
    { mnemonic := .movs, width := .narrow, operands := [.reg parts.rd,.reg parts.rm] }
  decode_word h := by
    obtain ⟨h₁,h₂,_⟩ := Packing.reads_word h
    simp only [decodeMovsRT2Noit,h₁,h₂]
    rfl

def bxT1 : NarrowEncoding where
  Parts := BxT1Parts
  encode := encodeBxT1
  recognise := matchBxT1
  decode := decodeBxT1
  read parts := some { mnemonic := .bx, width := .narrow, operands := [.reg parts.rm] }
  decode_word h := by
    obtain ⟨h₁,_⟩ := Packing.reads_word h
    simp only [decodeBxT1,h₁]
    rfl

def svcT1 : NarrowEncoding where
  Parts := SvcT1Parts
  encode := encodeSvcT1
  recognise := matchSvcT1
  decode := decodeSvcT1
  read parts := some { mnemonic := .svc, width := .narrow, operands := [.immediate parts.imm8] }
  decode_word h := by
    obtain ⟨h₁,_⟩ := Packing.reads_word h
    simp only [decodeSvcT1,h₁]
    rfl

def bT2 : NarrowEncoding where
  Parts := BT2Parts
  encode := encodeBT2
  recognise := matchBT2
  decode := decodeBT2
  stored parts := { parts with simm11 := storedBranch parts.simm11 11 }
  read parts := some
    { mnemonic := .b, width := .narrow, operands := [.signedImmediate (parts.simm11 + 4)] }
  decode_word h := by
    obtain ⟨h₁,_⟩ := Packing.reads_word h
    simp only [decodeBT2,h₁]
    rfl

def bCondT1Noit : NarrowEncoding where
  Parts := BCondT1NoitParts
  encode := encodeBCondT1Noit
  recognise := matchBCondT1Noit
  decode := decodeBCondT1Noit
  stored parts := { parts with simm8 := storedBranch parts.simm8 8 }
  read parts := some
    { mnemonic := .b, condition := parts.cond + 1, width := .narrow,
      operands := [.signedImmediate (parts.simm8 + 4)] }
  decode_word h := by
    obtain ⟨h₁,h₂,_⟩ := Packing.reads_word h
    simp only [decodeBCondT1Noit,h₁,h₂]
    rfl

def ldrIT1 : NarrowEncoding where
  Parts := LdrIT1Parts
  encode := encodeLdrIT1
  recognise := matchLdrIT1
  decode := decodeLdrIT1
  stored parts := { parts with imm7 := storedScaled parts.imm7 5 }
  read parts := some
    { mnemonic := .ldr, width := .narrow, addressingMode := .offset,
      operands := [.reg parts.rt,.reg parts.rn,.immediate parts.imm7] }
  decode_word h := by
    obtain ⟨h₁,h₂,h₃,_⟩ := Packing.reads_word h
    simp only [decodeLdrIT1,h₁,h₂,h₃]
    rfl

def ldrIT2Sponly : NarrowEncoding where
  Parts := LdrIT2SponlyParts
  encode := encodeLdrIT2Sponly
  recognise := matchLdrIT2Sponly
  decode := decodeLdrIT2Sponly
  stored parts := { parts with imm10 := storedScaled parts.imm10 8 }
  read parts := some
    { mnemonic := .ldr, width := .narrow, addressingMode := .offset,
      operands := [.reg parts.rt,.reg 13,.immediate parts.imm10] }
  decode_word h := by
    obtain ⟨h₁,h₂,_⟩ := Packing.reads_word h
    simp only [decodeLdrIT2Sponly,h₁,h₂]
    rfl

def ldrLitT1 : NarrowEncoding where
  Parts := LdrLitT1Parts
  encode := encodeLdrLitT1
  recognise := matchLdrLitT1
  decode := decodeLdrLitT1
  stored parts := { parts with imm10 := storedScaled parts.imm10 8 }
  read parts := some
    { mnemonic := .ldr, width := .narrow, addressingMode := .offset,
      operands := [.reg parts.rt,.reg 15,.immediate parts.imm10] }
  decode_word h := by
    obtain ⟨h₁,h₂,_⟩ := Packing.reads_word h
    simp only [decodeLdrLitT1,h₁,h₂]
    rfl

def ldrRT1 : NarrowEncoding where
  Parts := LdrRT1Parts
  encode := encodeLdrRT1
  recognise := matchLdrRT1
  decode := decodeLdrRT1
  read parts := some
    { mnemonic := .ldr, width := .narrow, addressingMode := .offset,
      operands := [.reg parts.rt,.reg parts.rn,.reg parts.rm] }
  decode_word h := by
    obtain ⟨h₁,h₂,h₃,_⟩ := Packing.reads_word h
    simp only [decodeLdrRT1,h₁,h₂,h₃]
    rfl

def blxT1 : NarrowEncoding where
  Parts := BlxT1Parts
  encode := encodeBlxT1
  recognise := matchBlxT1
  decode := decodeBlxT1
  read parts := some { mnemonic := .blx, width := .narrow, operands := [.reg parts.rm] }
  decode_word h := by
    obtain ⟨h₁,_⟩ := Packing.reads_word h
    simp only [decodeBlxT1,h₁]
    rfl

def popT1 : NarrowEncoding where
  Parts := PopT1Parts
  encode := encodePopT1
  recognise := matchPopT1
  decode := decodePopT1
  read parts := some
    { mnemonic := .pop, width := .narrow,
      operands := [.reglist ((parts.regs ||| parts.pc <<< 15).setWidth 16)] }
  decode_word h := by
    obtain ⟨h₁,h₂,_⟩ := Packing.reads_word h
    simp only [decodePopT1,h₁,h₂]
    rfl

def pushT1 : NarrowEncoding where
  Parts := PushT1Parts
  encode := encodePushT1
  recognise := matchPushT1
  decode := decodePushT1
  read parts := some
    { mnemonic := .push, width := .narrow,
      operands := [.reglist ((parts.regs ||| parts.lr <<< 14).setWidth 16)] }
  decode_word h := by
    obtain ⟨h₁,h₂,_⟩ := Packing.reads_word h
    simp only [decodePushT1,h₁,h₂]
    rfl

def cmpIT1 : NarrowEncoding where
  Parts := CmpIT1Parts
  encode := encodeCmpIT1
  recognise := matchCmpIT1
  decode := decodeCmpIT1
  read parts := some
    { mnemonic := .cmp, width := .narrow, operands := [.reg parts.rn,.immediate parts.imm8] }
  decode_word h := by
    obtain ⟨h₁,h₂,_⟩ := Packing.reads_word h
    simp only [decodeCmpIT1,h₁,h₂]
    rfl

def cmpRT1 : NarrowEncoding where
  Parts := CmpRT1Parts
  encode := encodeCmpRT1
  recognise := matchCmpRT1
  decode := decodeCmpRT1
  read parts := some
    { mnemonic := .cmp, width := .narrow, operands := [.reg parts.rn,.reg parts.rm] }
  decode_word h := by
    obtain ⟨h₁,h₂,_⟩ := Packing.reads_word h
    simp only [decodeCmpRT1,h₁,h₂]
    rfl

def cmpRT2 : NarrowEncoding where
  Parts := CmpRT2Parts
  encode := encodeCmpRT2
  recognise := matchCmpRT2
  decode := decodeCmpRT2
  read parts := some
    { mnemonic := .cmp, width := .narrow, operands := [.reg parts.rn,.reg parts.rm] }
  decode_word {parts _} h := by
    have hfits : fits parts.rn 4 = true := ((Bool.and_eq_true _ _).mp (Packing.guards_word h)).1
    obtain ⟨h₁,h₂,h₃,_⟩ := Packing.reads_word h
    simp only [decodeCmpRT2,h₁,h₂,h₃,extract_join_of_fits 3 1 hfits]
    rfl

def addsIT1 : NarrowEncoding where
  Parts := AddsIT1Parts
  encode := encodeAddsIT1
  recognise := matchAddsIT1
  decode := decodeAddsIT1
  read parts := some
    { mnemonic := .adds, width := .narrow,
      operands := [.reg parts.rd,.reg parts.rn,.immediate parts.imm3] }
  decode_word h := by
    obtain ⟨h₁,h₂,h₃,_⟩ := Packing.reads_word h
    simp only [decodeAddsIT1,h₁,h₂,h₃]
    rfl

def addsIT2 : NarrowEncoding where
  Parts := AddsIT2Parts
  encode := encodeAddsIT2
  recognise := matchAddsIT2
  decode := decodeAddsIT2
  read parts := some
    { mnemonic := .adds, width := .narrow,
      operands := [.reg parts.rdn,.reg parts.rdn,.immediate parts.imm8] }
  decode_word h := by
    obtain ⟨h₁,h₂,_⟩ := Packing.reads_word h
    simp only [decodeAddsIT2,h₁,h₂]
    rfl

def addsRT1 : NarrowEncoding where
  Parts := AddsRT1Parts
  encode := encodeAddsRT1
  recognise := matchAddsRT1
  decode := decodeAddsRT1
  read parts := some
    { mnemonic := .adds, width := .narrow,
      operands := [.reg parts.rd,.reg parts.rn,.reg parts.rm] }
  decode_word h := by
    obtain ⟨h₁,h₂,h₃,_⟩ := Packing.reads_word h
    simp only [decodeAddsRT1,h₁,h₂,h₃]
    rfl

def addRT2 : NarrowEncoding where
  Parts := AddRT2Parts
  encode := encodeAddRT2
  recognise := matchAddRT2
  decode := decodeAddRT2
  read parts := some
    { mnemonic := .add, width := .narrow,
      operands := [.reg parts.rdn,.reg parts.rdn,.reg parts.rm] }
  decode_word {parts _} h := by
    have hfits : fits parts.rdn 4 = true := ((Bool.and_eq_true _ _).mp (Packing.guards_word h)).1
    obtain ⟨h₁,h₂,h₃,_⟩ := Packing.reads_word h
    simp only [decodeAddRT2,h₁,h₂,h₃,extract_join_of_fits 3 1 hfits]
    rfl

def subsIT1 : NarrowEncoding where
  Parts := SubsIT1Parts
  encode := encodeSubsIT1
  recognise := matchSubsIT1
  decode := decodeSubsIT1
  read parts := some
    { mnemonic := .subs, width := .narrow,
      operands := [.reg parts.rd,.reg parts.rn,.immediate parts.imm3] }
  decode_word h := by
    obtain ⟨h₁,h₂,h₃,_⟩ := Packing.reads_word h
    simp only [decodeSubsIT1,h₁,h₂,h₃]
    rfl

def subsIT2 : NarrowEncoding where
  Parts := SubsIT2Parts
  encode := encodeSubsIT2
  recognise := matchSubsIT2
  decode := decodeSubsIT2
  read parts := some
    { mnemonic := .subs, width := .narrow,
      operands := [.reg parts.rdn,.reg parts.rdn,.immediate parts.imm8] }
  decode_word h := by
    obtain ⟨h₁,h₂,_⟩ := Packing.reads_word h
    simp only [decodeSubsIT2,h₁,h₂]
    rfl

def subsRT1 : NarrowEncoding where
  Parts := SubsRT1Parts
  encode := encodeSubsRT1
  recognise := matchSubsRT1
  decode := decodeSubsRT1
  read parts := some
    { mnemonic := .subs, width := .narrow,
      operands := [.reg parts.rd,.reg parts.rn,.reg parts.rm] }
  decode_word h := by
    obtain ⟨h₁,h₂,h₃,_⟩ := Packing.reads_word h
    simp only [decodeSubsRT1,h₁,h₂,h₃]
    rfl

def order : List (Rule 16 32 (Option ThumbInstructionSpec)) :=
  [udfT1.toRule,bkptT1.toRule,nopT1.toRule,movsIT1.toRule,movRT1.toRule,movsRT2Noit.toRule,
   bxT1.toRule,svcT1.toRule,bT2.toRule,bCondT1Noit.toRule,ldrIT1.toRule,ldrIT2Sponly.toRule,
   ldrLitT1.toRule,ldrRT1.toRule,blxT1.toRule,popT1.toRule,pushT1.toRule,cmpIT1.toRule,
   cmpRT1.toRule,cmpRT2.toRule,addsIT1.toRule,addsIT2.toRule,addsRT1.toRule,addRT2.toRule,
   subsIT1.toRule,subsIT2.toRule,subsRT1.toRule]

end NarrowEncoding

theorem thumbDisassembleNarrow_eq (ins : BitVec 16) :
    thumbDisassembleNarrow ins =
      Rule.decodeFirst NarrowEncoding.order (some { width := .narrow }) ins := rfl

/-- An encoded halfword disassembles to the fields it stores, whenever its
pattern selects its own encoding. -/
theorem thumbDisassemble_narrow {e : NarrowEncoding}
    (he : resolve (fun r => r.recognise) e.pattern NarrowEncoding.order = some e.toRule)
    {parts : e.Parts} {h : BitVec 16} (hword : (e.encode parts).word = some h) {ins : ThumbT}
    (hins : ThumbT.narrow ins = h) : thumbDisassemble ins = e.read (e.stored parts) := by
  rw [thumbDisassemble,e.not_isWide hword hins,if_neg Bool.false_ne_true,
    thumbDisassembleNarrow_eq,hins]
  exact Rule.decodeFirst_word he hword

end TwMonitor.Thumb
