import TwMonitor.ThumbEncoding

/-!
# Wide encodings

The wide encodings in the order in which the disassembler tries them. Several
of them store an immediate in pieces; the first lemmas join the pieces again.
-/
namespace TwMonitor.Thumb
open BitLayout BitPattern WordCodec T32

theorem join_imm12 {v : BitVec 32} (h : fits v 12 = true) :
    extract 32 v 11 1 <<< 11 ||| extract 32 v 8 3 <<< 8 ||| extract 32 v 0 8 = v := by
  rw [extract_join_shift v 8 3 1 8]
  exact extract_join_of_fits 8 4 h

theorem join_imm16 {v : BitVec 32} (h : fits v 16 = true) :
    extract 32 v 12 4 <<< 12 ||| extract 32 v 11 1 <<< 11 ||| extract 32 v 8 3 <<< 8 |||
      extract 32 v 0 8 = v := by
  rw [extract_join_shift v 11 1 4 11,extract_join_shift v 8 3 5 8]
  exact extract_join_of_fits 8 8 h

theorem join_simm21 (v : BitVec 32) :
    extract 32 v 20 1 <<< 19 ||| extract 32 v 19 1 <<< 18 ||| extract 32 v 18 1 <<< 17 |||
      extract 32 v 12 6 <<< 11 ||| extract 32 v 1 11 = extract 32 v 1 20 := by
  rw [extract_join_shift v 19 1 1 18,extract_join_shift v 18 1 2 17,
    extract_join_shift v 12 6 3 11,extract_join v 1 11 9]

theorem join_simm25 (v : BitVec 32) :
    extract 32 v 24 1 <<< 23 ||| extract 32 v 23 1 <<< 22 ||| extract 32 v 22 1 <<< 21 |||
      extract 32 v 12 10 <<< 11 ||| extract 32 v 1 11 = extract 32 v 1 24 := by
  rw [extract_join_shift v 23 1 1 22,extract_join_shift v 22 1 2 21,
    extract_join_shift v 12 10 3 11,extract_join v 1 11 13]

/-- The inverted exclusive or with the sign undoes itself on one bit. -/
theorem unscramble (v : BitVec 32) (i : ℕ) (s : BitVec 32) :
    extract 32 (~~~(extract 32 (~~~(extract 32 v i 1) ^^^ s) 0 1 ^^^ s)) 0 1 =
      extract 32 v i 1 := by
  apply BitVec.eq_of_getLsbD_eq
  intro j hj
  simp only [getLsbD_extract,BitVec.getLsbD_not,BitVec.getLsbD_xor,hj,decide_true,Bool.true_and,
    Nat.zero_add]
  by_cases h : j < 1
  · simp [h]
  · simp [h]

namespace WideEncoding

def udfT2 : WideEncoding where
  Parts := UdfT2Parts
  encode := encodeUdfT2
  recognise := matchUdfT2
  decode := decodeUdfT2
  read parts := some { mnemonic := .udf, width := .wide, operands := [.immediate parts.imm16] }
  decode_word {parts _} h := by
    have hfits : fits parts.imm16 16 = true :=
      ((Bool.and_eq_true _ _).mp (Packing.guards_word h)).1
    obtain ⟨h₁,h₂,_⟩ := Packing.reads_word h
    simp only [decodeUdfT2,h₁,h₂,extract_join_of_fits 12 4 hfits]
    rfl

def nopT2 : WideEncoding where
  Parts := Unit
  encode _ := encodeNopT2
  recognise := matchNopT2
  decode _ := ()
  read _ := some { mnemonic := .nop, width := .wide }
  decode_word _ := rfl

def movwIT3 : WideEncoding where
  Parts := MovwIT3Parts
  encode := encodeMovwIT3
  recognise := matchMovwIT3
  decode := decodeMovwIT3
  read parts := some
    { mnemonic := .movw, width := .wide, operands := [.reg parts.rd,.immediate parts.imm16] }
  decode_word {parts _} h := by
    have hfits : fits parts.imm16 16 = true :=
      ((Bool.and_eq_true _ _).mp (Packing.guards_word h)).1
    obtain ⟨h₁,h₂,h₃,h₄,h₅,_⟩ := Packing.reads_word h
    simp only [decodeMovwIT3,h₁,h₂,h₃,h₄,h₅,join_imm16 hfits]
    rfl

def movRT3OptS : WideEncoding where
  Parts := MovRT3OptSParts
  encode := encodeMovRT3OptS
  recognise := matchMovRT3OptS
  decode := decodeMovRT3OptS
  read parts := some
    { mnemonic := if parts.setflags ≠ 0 then .movs else .mov, width := .wide,
      operands := [.reg parts.rd,.reg parts.rm] }
  decode_word h := by
    obtain ⟨h₁,h₂,h₃,_⟩ := Packing.reads_word h
    simp only [decodeMovRT3OptS,h₁,h₂,h₃]
    rfl

def bT4 : WideEncoding where
  Parts := BT4Parts
  encode := encodeBT4
  recognise := matchBT4
  decode := decodeBT4
  stored parts := { parts with simm25 := storedBranch parts.simm25 24 }
  read parts := some
    { mnemonic := .b, width := .wide, operands := [.signedImmediate (parts.simm25 + 4)] }
  decode_word h := by
    obtain ⟨h₁,h₂,h₃,h₄,h₅,_⟩ := Packing.reads_word h
    simp only [decodeBT4,h₁,h₂,h₃,h₄,h₅,unscramble,join_simm25]
    rfl

def bCondT3Noit : WideEncoding where
  Parts := BCondT3NoitParts
  encode := encodeBCondT3Noit
  recognise := matchBCondT3Noit
  decode := decodeBCondT3Noit
  stored parts := { parts with simm21 := storedBranch parts.simm21 20 }
  read parts := some
    { mnemonic := .b, condition := parts.cond + 1, width := .wide,
      operands := [.signedImmediate (parts.simm21 + 4)] }
  decode_word h := by
    obtain ⟨h₁,h₂,h₃,h₄,h₅,h₆,_⟩ := Packing.reads_word h
    simp only [decodeBCondT3Noit,h₁,h₂,h₃,h₄,h₅,h₆,join_simm21]
    rfl

def ldrIT3 : WideEncoding where
  Parts := LdrIT3Parts
  encode := encodeLdrIT3
  recognise := matchLdrIT3
  decode := decodeLdrIT3
  read parts := some
    { mnemonic := .ldr, width := .wide, addressingMode := .offset,
      operands := [.reg parts.rt,.reg parts.rn,.immediate parts.imm12] }
  decode_word h := by
    obtain ⟨h₁,h₂,h₃,_⟩ := Packing.reads_word h
    simp only [decodeLdrIT3,h₁,h₂,h₃]
    rfl

def ldrIT4 : WideEncoding where
  Parts := LdrIT4Parts
  encode := encodeLdrIT4
  recognise := matchLdrIT4
  decode := decodeLdrIT4
  read parts := (ldrIT4AddressingMode parts).bind fun addressingMode => some
    { mnemonic := .ldr, width := .wide, addressingMode,
      operands := [.reg parts.rt,.reg parts.rn,
        .signedImmediate (parts.imm8 * (if parts.add ≠ 0 then 1 else -1))] }
  decode_word h := by
    obtain ⟨h₁,h₂,h₃,h₄,h₅,h₆,_⟩ := Packing.reads_word h
    simp only [decodeLdrIT4,h₁,h₂,h₃,h₄,h₅,h₆]
    rfl

def ldrLitT2 : WideEncoding where
  Parts := LdrLitT2Parts
  encode := encodeLdrLitT2
  recognise := matchLdrLitT2
  decode := decodeLdrLitT2
  read parts := some
    { mnemonic := .ldr, width := .wide, addressingMode := .offset,
      operands := [.reg parts.rt,.reg 15,
        .signedImmediate (parts.imm12 * (if parts.add ≠ 0 then 1 else -1))] }
  decode_word h := by
    obtain ⟨h₁,h₂,h₃,_⟩ := Packing.reads_word h
    simp only [decodeLdrLitT2,h₁,h₂,h₃]
    rfl

def ldrRT2Lsl : WideEncoding where
  Parts := LdrRT2LslParts
  encode := encodeLdrRT2Lsl
  recognise := matchLdrRT2Lsl
  decode := decodeLdrRT2Lsl
  read parts := some
    { mnemonic := .ldr, width := .wide, addressingMode := .offset,
      operands := [.reg parts.rt,.reg parts.rn,.reg parts.rm,.lslShift parts.lslShiftImm2] }
  decode_word h := by
    obtain ⟨h₁,h₂,h₃,h₄,_⟩ := Packing.reads_word h
    simp only [decodeLdrRT2Lsl,h₁,h₂,h₃,h₄]
    rfl

def blT1 : WideEncoding where
  Parts := BlT1Parts
  encode := encodeBlT1
  recognise := matchBlT1
  decode := decodeBlT1
  stored parts := { parts with simm25 := storedBranch parts.simm25 24 }
  read parts := some
    { mnemonic := .bl, width := .wide, operands := [.signedImmediate (parts.simm25 + 4)] }
  decode_word h := by
    obtain ⟨h₁,h₂,h₃,h₄,h₅,_⟩ := Packing.reads_word h
    simp only [decodeBlT1,h₁,h₂,h₃,h₄,h₅,unscramble,join_simm25]
    rfl

def popT2 : WideEncoding where
  Parts := PopT2Parts
  encode := encodePopT2
  recognise := matchPopT2
  decode := decodePopT2
  read parts := some
    { mnemonic := .pop, width := .wide,
      operands := [.reglist ((parts.regs ||| parts.lr <<< 14 ||| parts.pc <<< 15).setWidth 16)] }
  decode_word h := by
    obtain ⟨h₁,h₂,h₃,_⟩ := Packing.reads_word h
    simp only [decodePopT2,h₁,h₂,h₃]
    rfl

def popT3 : WideEncoding where
  Parts := PopT3Parts
  encode := encodePopT3
  recognise := matchPopT3
  decode := decodePopT3
  read parts := some
    { mnemonic := .pop, width := .wide,
      operands := [.reglist ((1#32 <<< parts.rt.toNat).setWidth 16)] }
  decode_word h := by
    obtain ⟨h₁,_⟩ := Packing.reads_word h
    simp only [decodePopT3,h₁]
    rfl

def pushT2 : WideEncoding where
  Parts := PushT2Parts
  encode := encodePushT2
  recognise := matchPushT2
  decode := decodePushT2
  read parts := some
    { mnemonic := .push, width := .wide,
      operands := [.reglist ((parts.regs ||| parts.lr <<< 14).setWidth 16)] }
  decode_word h := by
    obtain ⟨h₁,h₂,_⟩ := Packing.reads_word h
    simp only [decodePushT2,h₁,h₂]
    rfl

def pushT3 : WideEncoding where
  Parts := PushT3Parts
  encode := encodePushT3
  recognise := matchPushT3
  decode := decodePushT3
  read parts := some
    { mnemonic := .push, width := .wide,
      operands := [.reglist ((1#32 <<< parts.rt.toNat).setWidth 16)] }
  decode_word h := by
    obtain ⟨h₁,_⟩ := Packing.reads_word h
    simp only [decodePushT3,h₁]
    rfl

def addwIT4 : WideEncoding where
  Parts := AddwIT4Parts
  encode := encodeAddwIT4
  recognise := matchAddwIT4
  decode := decodeAddwIT4
  read parts := some
    { mnemonic := .addw, width := .wide,
      operands := [.reg parts.rd,.reg parts.rn,.immediate parts.imm12] }
  decode_word {parts _} h := by
    have hfits : fits parts.imm12 12 = true :=
      ((Bool.and_eq_true _ _).mp (Packing.guards_word h)).1
    obtain ⟨h₁,h₂,h₃,h₄,h₅,_⟩ := Packing.reads_word h
    simp only [decodeAddwIT4,h₁,h₂,h₃,h₄,h₅,join_imm12 hfits]
    rfl

def subwIT4 : WideEncoding where
  Parts := SubwIT4Parts
  encode := encodeSubwIT4
  recognise := matchSubwIT4
  decode := decodeSubwIT4
  read parts := some
    { mnemonic := .subw, width := .wide,
      operands := [.reg parts.rd,.reg parts.rn,.immediate parts.imm12] }
  decode_word {parts _} h := by
    have hfits : fits parts.imm12 12 = true :=
      ((Bool.and_eq_true _ _).mp (Packing.guards_word h)).1
    obtain ⟨h₁,h₂,h₃,h₄,h₅,_⟩ := Packing.reads_word h
    simp only [decodeSubwIT4,h₁,h₂,h₃,h₄,h₅,join_imm12 hfits]
    rfl

def order : List (Rule 32 32 (Option ThumbInstructionSpec)) :=
  [udfT2.toRule,nopT2.toRule,movwIT3.toRule,movRT3OptS.toRule,bT4.toRule,bCondT3Noit.toRule,
   ldrIT3.toRule,ldrIT4.toRule,ldrLitT2.toRule,ldrRT2Lsl.toRule,blT1.toRule,popT2.toRule,
   popT3.toRule,pushT2.toRule,pushT3.toRule,addwIT4.toRule,subwIT4.toRule]

end WideEncoding

theorem thumbDisassembleWide_eq (wideIns : BitVec 32) :
    thumbDisassembleWide wideIns =
      Rule.decodeFirst WideEncoding.order (some { width := .wide }) wideIns := rfl

/-- An encoded word disassembles to the fields it stores, whenever its pattern
selects its own encoding. -/
theorem thumbDisassemble_wide {e : WideEncoding}
    (he : resolve (fun r => r.recognise) e.pattern WideEncoding.order = some e.toRule)
    {parts : e.Parts} {w : BitVec 32} (hword : (e.encode parts).word = some w) :
    thumbDisassemble w = e.read (e.stored parts) := by
  rw [thumbDisassemble,e.isWide hword,if_pos rfl,thumbDisassembleWide_eq]
  exact Rule.decodeFirst_word he hword

end TwMonitor.Thumb
