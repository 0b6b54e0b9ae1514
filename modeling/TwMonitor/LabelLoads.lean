import TwMonitor.AssemblyFrame
import TwMonitor.LiteralLoads
import TwMonitor.MemoryEntries

/-!
# Loads from a label

The editor gives a load the distance from the instruction to the label, and the
assembler stores it as it is. The processor counts from the aligned PC, which is
two or four bytes further on, so a load that assembles never reads its label.
The branches correct for this distance in the assembler; the loads do not.
-/
namespace TwMonitor.Thumb
open BitLayout BitPattern ByteMemory MemoryStore WordCodec T32

/-! ## The LDR command of the editor -/

/-- What the user answers to the label menu. A name that does not exist is asked for again. -/
inductive RelativeLabelInput where
  | here
  | plusBytes (number : BitVec 32)
  | minusBytes (number : BitVec 32)
  | label (names : List (List (BitVec 8)))
deriving DecidableEq, Repr

def menuPresetRelativeLabel (entries : List MemoryEntry) (input : RelativeLabelInput)
    (relativeFrom : Address) (isCode : Bool) : Option (BitVec 32) :=
  match input with
  | .plusBytes number => some number
  | .minusBytes number => some (-number)
  | .label names => do
      let label ← names.findSome? (memoryLookupLabel entries)
      let labelAddr := memoryAddrFromEntry label
      let labelAddr := if isCode then armAddressSetThumbIntwrkBit labelAddr false else labelAddr
      some (labelAddr - relativeFrom)
  | .here => some 0

def addLabel (entries : List MemoryEntry) (instruction : ThumbInstructionSpec)
    (input : RelativeLabelInput) (addr : Address) (code : Bool) : Option ThumbInstructionSpec := do
  let label ← menuPresetRelativeLabel entries input addr code
  thumbAddOperandSignedImmediate instruction label

inductive AddressingOption where
  | baseOffset | preIndexing | postIndexing
deriving DecidableEq, Repr

/-- The addressing mode is already `offset`. -/
def setAddressingMode (instruction : ThumbInstructionSpec) :
    AddressingOption → ThumbInstructionSpec
  | .baseOffset => instruction
  | .preIndexing => thumbSetOperandAddressingMode instruction .preindex
  | .postIndexing => thumbSetOperandAddressingMode instruction .postindex

inductive LdrOffsetInput where
  | zero
  | immediate (simm : BitVec 32) (mode : AddressingOption)
  | register (rm : BitVec 32) (lslShift : Option (BitVec 32))
deriving DecidableEq, Repr

inductive LdrBaseInput where
  | pcImmediate (simm : BitVec 32)
  | pcLabel (label : RelativeLabelInput)
  | register (rn : BitVec 32) (offset : LdrOffsetInput)
deriving DecidableEq, Repr

/-- The specification that `assemble_ldr` builds from the answers of the user. -/
def ldrInstruction (entries : List MemoryEntry) (paddr : Address)
    (instruction : ThumbInstructionSpec) (rt : BitVec 32) (base : LdrBaseInput) :
    Option ThumbInstructionSpec := do
  let instruction := { instruction with mnemonic := .ldr }
  let instruction := thumbSetOperandAddressingMode instruction .offset
  let instruction ← thumbAddOperandReg instruction rt
  match base with
  | .pcImmediate simm =>
      let instruction ← thumbAddOperandReg instruction 15
      thumbAddOperandSignedImmediate instruction simm
  | .pcLabel label =>
      let instruction ← thumbAddOperandReg instruction 15
      addLabel entries instruction label paddr true
  | .register rn offset =>
      let instruction ← thumbAddOperandReg instruction rn
      match offset with
      | .zero => thumbAddOperandSignedImmediate instruction 0
      | .immediate simm mode =>
          let instruction ← thumbAddOperandSignedImmediate instruction simm
          some (setAddressingMode instruction mode)
      | .register rm lslShift =>
          let instruction ← thumbAddOperandReg instruction rm
          match lslShift with
          | none => some instruction
          | some shift => thumbAddOperandLslshift instruction shift

def assembleLdr (entries : List MemoryEntry) (paddr : Address) (instruction : ThumbInstructionSpec)
    (rt : BitVec 32) (base : LdrBaseInput) (m : Memory) : Option (Address × Memory) :=
  (ldrInstruction entries paddr instruction rt base).map fun instruction =>
    assembleAndShowResult paddr instruction m

/-! ## Where a literal load reads -/

/-- The address of LDR (literal) in the architecture: the PC of the instruction,
aligned to a word, and the stored offset. -/
def literalLoadAddress (p : Address) (ins : ThumbT) : Option Address :=
  let base := (p + 4) &&& ~~~3
  if thumbIsWideInstruction ins then
    if matchLdrLitT2 ins then
      let parts := decodeLdrLitT2 ins
      some (base + parts.imm12 * (if parts.add ≠ 0 then 1 else -1))
    else none
  else if matchLdrLitT1 (ThumbT.narrow ins) then
    some (base + (decodeLdrLitT1 (ThumbT.narrow ins)).imm10)
  else none

/-- The address of a label, without the interwork bit of a code label. -/
def labelTarget (label : MemoryEntry) : Address :=
  if memoryEntryIsCodeLabel label then armAddressSetThumbIntwrkBit label.addr false else label.addr

theorem toNat_and_not_mask (v : BitVec 32) (k : ℕ) :
    (v &&& ~~~mask 32 k).toNat = v.toNat / 2 ^ k * 2 ^ k := by
  have hv := v.isLt
  have hshift : v &&& ~~~mask 32 k = (v >>> k) <<< k := by
    apply BitVec.eq_of_getLsbD_eq
    intro i hi
    simp only [BitVec.getLsbD_and,BitVec.getLsbD_not,getLsbD_mask,BitVec.getLsbD_shiftLeft,
      BitVec.getLsbD_ushiftRight,hi,decide_true,Bool.true_and]
    by_cases h : i < k
    · simp [h]
    · simp [h,show k + (i - k) = i by omega]
  have hle : v.toNat / 2 ^ k * 2 ^ k ≤ v.toNat := Nat.div_mul_le_self _ _
  rw [hshift,BitVec.toNat_shiftLeft,BitVec.toNat_ushiftRight,Nat.shiftRight_eq_div_pow,
    Nat.shiftLeft_eq,Nat.mod_eq_of_lt (by omega)]

/-- The aligned PC is two or four bytes past an instruction. -/
theorem literalBase_cases {p : Address} (hp : p.toNat % 2 = 0) :
    (p + 4) &&& ~~~3 = p + 2 ∨ (p + 4) &&& ~~~3 = p + 4 := by
  have hbase : ((p + 4) &&& ~~~3).toNat = (p + 4).toNat / 4 * 4 :=
    toNat_and_not_mask (p + 4) 2
  generalize (p + 4) &&& ~~~3 = base at hbase ⊢
  bv_omega

theorem labelTarget_cases (label : MemoryEntry) :
    labelTarget label = armAddressSetThumbIntwrkBit label.addr false ∨
      labelTarget label = armAddressSetThumbIntwrkBit label.addr false + 1 := by
  have hclear : (armAddressSetThumbIntwrkBit label.addr false).toNat = label.addr.toNat / 2 * 2 :=
    toNat_and_not_mask label.addr 1
  unfold labelTarget
  generalize armAddressSetThumbIntwrkBit label.addr false = a at hclear ⊢
  split
  · exact Or.inl rfl
  · bv_omega

/-- A field that holds the distance, or what is left of it, misses the label. -/
theorem literal_misses {p base a target offset stored : BitVec 32}
    (hbase : base = p + 2 ∨ base = p + 4) (htarget : target = a ∨ target = a + 1)
    (hoffset : offset = a - p)
    (hstored : stored = offset ∨ (offset.toNat < 4096 ∧ stored.toNat = offset.toNat % 1024)) :
    base + stored ≠ target := by
  bv_omega

/-! ## The words of a load from PC -/

theorem literalLoadAddress_narrow {rt offset : BitVec 32} {h : BitVec 16}
    (hword : NarrowForm.word ⟨.ldrLitT1,{ rt, imm10 := offset }⟩ = some h) (p : Address)
    {ins : ThumbT} (hins : ThumbT.narrow ins = h) :
    literalLoadAddress p ins = some (((p + 4) &&& ~~~3) + storedScaled offset 8) := by
  have hnarrow := NarrowEncoding.ldrLitT1.not_isWide hword hins
  have hmatch : matchLdrLitT1 h = true :=
    Matcher.run_of_refines rfl (Codec.pattern_matches (c := NarrowEncoding.ldrLitT1.toCodec) hword)
  have hdecode : decodeLdrLitT1 h = NarrowEncoding.ldrLitT1.stored { rt, imm10 := offset } :=
    NarrowEncoding.ldrLitT1.decode_word hword
  rw [literalLoadAddress,hnarrow,if_neg Bool.false_ne_true,hins,hmatch,if_pos rfl,hdecode]
  rfl

theorem literalLoadAddress_backward {rt offset : BitVec 32} {w : BitVec 32}
    (hword : WideForm.word ⟨.ldrLitT2,ldrLiteral rt offset⟩ = some w) (p : Address) :
    literalLoadAddress p w = some (((p + 4) &&& ~~~3) + offset) := by
  have hwide := WideEncoding.ldrLitT2.isWide hword
  have hmatch : matchLdrLitT2 w = true :=
    Matcher.run_of_refines rfl (Codec.pattern_matches (c := WideEncoding.ldrLitT2.toCodec) hword)
  have hdecode : decodeLdrLitT2 w = ldrLiteral rt offset :=
    WideEncoding.ldrLitT2.decode_word hword
  have hop := magnitude_mul_sign offset
  rw [literalLoadAddress,hwide,if_pos rfl,hmatch,if_pos rfl,hdecode]
  exact congrArg (fun v => some (((p + 4) &&& ~~~3) + v)) hop

/-- The unsigned form with base PC is the forward literal load. -/
theorem literalLoadAddress_forward {rt offset : BitVec 32} {w : BitVec 32}
    (hword : WideForm.word ⟨.ldrIT3,{ rt, rn := 15, imm12 := offset }⟩ = some w) (p : Address) :
    literalLoadAddress p w = some (((p + 4) &&& ~~~3) + offset) := by
  have hwide := WideEncoding.ldrIT3.isWide hword
  have hm : WideEncoding.ldrIT3.pattern.Matches w := Codec.pattern_matches hword
  obtain ⟨_,himm,hr,_⟩ := Packing.reads_word hword
  have hpc : (withOnes WideEncoding.ldrIT3.pattern 0).Matches w := matches_withOnes hm hr
  have hmatch : matchLdrLitT2 w = true := Matcher.run_of_refines rfl hpc
  have hadd : (decodeLdrLitT2 w).add ≠ 0 := by
    intro h
    have hseven := (hm 7).1 rfl
    have hzero : (extract 32 w 7 1).getLsbD 0 = false := by
      rw [show extract 32 w 7 1 = 0 from h]
      rfl
    rw [getLsbD_extract,hseven] at hzero
    exact absurd hzero (by decide)
  have hop :
      (decodeLdrLitT2 w).imm12 * (if (decodeLdrLitT2 w).add ≠ 0 then 1 else -1) = offset := by
    rw [if_pos hadd,BitVec.ofNat_eq_ofNat,BitVec.mul_one]
    exact himm
  rw [literalLoadAddress,hwide,if_pos rfl,hmatch,if_pos rfl]
  exact congrArg (fun v => some (((p + 4) &&& ~~~3) + v)) hop

/-! ## Loads that assemble -/

/-- The eight-bit form is not reached, since the literal form takes more. -/
theorem ldrSignedForms_pc_word (rt offset : BitVec 32) :
    (ldrSignedForms .offset rt 15 offset).findSome? WideForm.word =
      WideForm.word ⟨.ldrLitT2,ldrLiteral rt offset⟩ := by
  rw [ldrSignedForms_pc,List.findSome?_cons,List.findSome?_singleton]
  cases hlit : WideForm.word ⟨.ldrLitT2,ldrLiteral rt offset⟩ with
  | some w => rfl
  | none =>
      have hrefused := ldrLiteral_isSome_iff rt offset
      rw [WideForm.isSome_text,hlit] at hrefused
      have height := ldrEightBit_text (by decide : AddressingMode.offset ≠ .none) rt 15 offset
      rw [if_neg] at height
      · exact Option.map_eq_none_iff.mp height
      · exact fun h => Bool.false_ne_true (hrefused.mpr ⟨h.1,by omega⟩)

theorem ldrIT3_pc_isSome_iff (rt offset : BitVec 32) :
    (WideForm.word ⟨.ldrIT3,{ rt, rn := 15, imm12 := offset }⟩).isSome = true ↔
      rt.toNat < 16 ∧ offset.toNat < 4096 := by
  have hfits := WideForm.fits_iff (f := ⟨.ldrIT3,{ rt, rn := 15, imm12 := offset }⟩)
    (fields_three_iff rt offset 15 4 12 4)
  exact hfits.trans ⟨fun h => ⟨h.1,h.2.1⟩,fun h => ⟨h.1,h.2,by decide⟩⟩

/-- The wide word of a load from PC stores the offset, and exists when the
field can hold it. -/
theorem ldrImmediateForms_pc_wideWord (rt offset : BitVec 32) :
    ((ldrImmediateForms .offset rt 15 offset).wideWord.isSome = true ↔
        rt.toNat < 16 ∧ (magnitude offset).toNat < 4096) ∧
      ∀ w, (ldrImmediateForms .offset rt 15 offset).wideWord = some w → ∀ p,
        literalLoadAddress p w = some (((p + 4) &&& ~~~3) + offset) := by
  have hlit := ldrLiteral_isSome_iff rt offset
  rw [WideForm.isSome_text] at hlit
  unfold Choices.wideWord
  cases hneg : offset.slt 0 with
  | true =>
      rw [ldrImmediateForms_backward hneg,ldrSignedForms_pc_word]
      exact ⟨hlit,fun w hw p => literalLoadAddress_backward hw p⟩
  | false =>
      have hmag : magnitude offset = offset := if_neg (by rw [hneg]; exact Bool.false_ne_true)
      have hthree := ldrIT3_pc_isSome_iff rt offset
      rw [ldrImmediateForms_forward hneg,List.findSome?_cons,ldrSignedForms_pc_word]
      cases hword : WideForm.word ⟨.ldrIT3,{ rt, rn := 15, imm12 := offset }⟩ with
      | none => exact ⟨hlit,fun w hw p => literalLoadAddress_backward hw p⟩
      | some v =>
          rw [hword] at hthree
          refine ⟨by rw [hmag]; exact hthree,fun w hw p => ?_⟩
          obtain rfl := Option.some.inj hw
          exact literalLoadAddress_forward hword p

theorem ldrUnsignedNarrow_pc_word (rt offset : BitVec 32) :
    (ldrUnsignedNarrow rt 15 offset).findSome? NarrowForm.word =
      NarrowForm.word ⟨.ldrLitT1,{ rt, imm10 := offset }⟩ := by
  have hscaled : NarrowForm.word ⟨.ldrIT1,{ rt, rn := 15, imm7 := offset }⟩ = none := by
    have htext := ldrIT1_text rt 15 offset
    rw [scaledText,if_neg (fun h => absurd h.2.1 (by decide))] at htext
    exact Option.map_eq_none_iff.mp htext
  have hforms : ldrUnsignedNarrow rt 15 offset =
      [⟨.ldrLitT1,{ rt, imm10 := offset }⟩,⟨.ldrIT1,{ rt, rn := 15, imm7 := offset }⟩] := rfl
  rw [hforms,List.findSome?_cons,List.findSome?_singleton,hscaled]
  cases NarrowForm.word ⟨.ldrLitT1,{ rt, imm10 := offset }⟩ <;> rfl

theorem ldrLitT1_isSome_iff (rt offset : BitVec 32) :
    (NarrowForm.word ⟨.ldrLitT1,{ rt, imm10 := offset }⟩).isSome = true ↔
      rt.toNat < 8 ∧ offset.toNat % 4 = 0 ∧ offset.toNat < 4096 := by
  have hguards := (guards_scaled_iff offset 10 _).trans (and_congr_right' (field_iff rt 3))
  have hfits := NarrowForm.fits_iff (f := ⟨.ldrLitT1,{ rt, imm10 := offset }⟩) hguards
  exact hfits.trans and_comm

/-- The narrow word stores what is left of the offset. -/
theorem ldrImmediateForms_pc_narrowWord (rt offset : BitVec 32) :
    ((ldrImmediateForms .offset rt 15 offset).narrowWord.isSome = true ↔
        rt.toNat < 8 ∧ offset.toNat % 4 = 0 ∧ offset.toNat < 4096) ∧
      ∀ h, (ldrImmediateForms .offset rt 15 offset).narrowWord = some h → ∀ p ins,
        ThumbT.narrow ins = h →
          literalLoadAddress p ins = some (((p + 4) &&& ~~~3) + storedScaled offset 8) := by
  unfold Choices.narrowWord
  cases hneg : offset.slt 0 with
  | true =>
      have hbig : ¬ offset.toNat < 4096 := by
        intro h
        have hpos := not_slt_zero (v := offset) (by omega)
        rw [hneg] at hpos
        exact Bool.false_ne_true hpos
      rw [ldrImmediateForms_backward hneg]
      exact ⟨⟨fun h => absurd h (by simp),fun h => absurd h.2.2 hbig⟩,
        fun h hh => absurd hh (by simp)⟩
  | false =>
      rw [ldrImmediateForms_forward hneg,ldrUnsignedNarrow_pc_word]
      exact ⟨ldrLitT1_isSome_iff rt offset,
        fun h hh p ins hins => literalLoadAddress_narrow hh p hins⟩

/-- The loads from PC that assemble. -/
def LiteralAccepted (width : ThumbWidthSpecifier) (rt offset : BitVec 32) : Prop :=
  (width ≠ .wide ∧ rt.toNat < 8 ∧ offset.toNat % 4 = 0 ∧ offset.toNat < 4096) ∨
    (width ≠ .narrow ∧ rt.toNat < 16 ∧ -4096 < offset.toInt ∧ offset.toInt < 4096)

theorem ldrPc_candidates (width : ThumbWidthSpecifier) (rt offset : BitVec 32) :
    candidates (ldrPcSpec width rt (.immediate offset)) =
      (ldrImmediateForms .offset (uint8 rt) 15 offset).restrict width := rfl

theorem literal_succeeds_iff (into : Address) (width : ThumbWidthSpecifier) (rt offset : BitVec 32)
    (m : Memory) :
    (thumbAssemble into (ldrPcSpec width rt (.immediate offset)) m).1.succeeds = true ↔
      LiteralAccepted width (uint8 rt) offset := by
  have hnarrow := (ldrImmediateForms_pc_narrowWord (uint8 rt) offset).1
  have hwide := (ldrImmediateForms_pc_wideWord (uint8 rt) offset).1
  have hmag := magnitude_toNat offset
  have hrange : (magnitude offset).toNat < 4096 ↔ -4096 < offset.toInt ∧ offset.toInt < 4096 := by
    rw [← abs_lt,← hmag]
    omega
  rw [hrange] at hwide
  rw [thumbAssemble_succeeds_iff,ldrPc_candidates,LiteralAccepted,← hnarrow,← hwide]
  cases width with
  | auto => simp [Choices.restrict]
  | narrow => simp [Choices.restrict,Choices.narrowWord,Choices.wideWord]
  | wide => simp [Choices.restrict,Choices.narrowWord,Choices.wideWord]

theorem narrowWord_of_restrict {c : Choices} {width : ThumbWidthSpecifier} {h : BitVec 16}
    (hh : (c.restrict width).narrowWord = some h) : c.narrowWord = some h := by
  cases width with
  | auto => exact hh
  | narrow => exact hh
  | wide => exact absurd hh (by simp [Choices.restrict,Choices.narrowWord])

theorem wideWord_of_restrict {c : Choices} {width : ThumbWidthSpecifier} {w : BitVec 32}
    (hw : (c.restrict width).wideWord = some w) : c.wideWord = some w := by
  cases width with
  | auto => exact hw
  | narrow => exact absurd hw (by simp [Choices.restrict,Choices.wideWord])
  | wide => exact hw

/-- An accepted load reads at the offset from the aligned PC, or at what is left of it. -/
theorem literalLoadAddress_thumbAssemble {into : Address} {width : ThumbWidthSpecifier}
    {rt offset : BitVec 32} {m : Memory}
    (hs : (thumbAssemble into (ldrPcSpec width rt (.immediate offset)) m).1.succeeds = true)
    (p : Address) :
    ∃ stored, (stored = offset ∨
        (offset.toNat < 4096 ∧ stored.toNat = offset.toNat % 1024)) ∧
      literalLoadAddress p (load32
        (thumbAssemble into (ldrPcSpec width rt (.immediate offset)) m).2 into) =
        some (((p + 4) &&& ~~~3) + stored) := by
  have hcand := ldrPc_candidates width rt offset
  rcases thumbAssemble_words into (ldrPcSpec width rt (.immediate offset)) m with
    ⟨h,hh,he⟩ | ⟨w,_,hw,he⟩ | ⟨_,_,r,hr,he⟩
  · rw [hcand] at hh
    have hword := narrowWord_of_restrict hh
    have hnarrow := ldrImmediateForms_pc_narrowWord (uint8 rt) offset
    have hacc := hnarrow.1.mp (by rw [hword]; rfl)
    rw [he]
    refine ⟨storedScaled offset 8,Or.inr ⟨hacc.2.2,?_⟩,
      hnarrow.2 h hword p _ (narrow_load32_store16 m into h)⟩
    rw [storedScaled,BitVec.toNat_shiftLeft,extract_toNat _ _ _ (by omega),Nat.shiftLeft_eq]
    omega
  · rw [hcand] at hw
    have hword := wideWord_of_restrict hw
    rw [he,load32_store32]
    exact ⟨offset,Or.inl rfl,
      (ldrImmediateForms_pc_wideWord (uint8 rt) offset).2 w hword p⟩
  · rw [he,hr] at hs
    exact absurd hs Bool.false_ne_true

/-- The specification of the label command. -/
theorem ldrInstruction_label {entries : List MemoryEntry} {names : List (List (BitVec 8))}
    {label : MemoryEntry} (hlabel : names.findSome? (memoryLookupLabel entries) = some label)
    (p : Address) (width : ThumbWidthSpecifier) (rt : BitVec 32) :
    ldrInstruction entries p { width } rt (.pcLabel (.label names)) =
      some (ldrPcSpec width rt
        (.immediate (armAddressSetThumbIntwrkBit label.addr false - p))) := by
  have hoffset : menuPresetRelativeLabel entries (.label names) p true =
      some (armAddressSetThumbIntwrkBit label.addr false - p) := by
    rw [menuPresetRelativeLabel,hlabel]
    rfl
  have hadd : ∀ instruction, addLabel entries instruction (.label names) p true =
      thumbAddOperandSignedImmediate instruction
        (armAddressSetThumbIntwrkBit label.addr false - p) := by
    intro instruction
    rw [addLabel,hoffset]
    rfl
  unfold ldrInstruction
  simp only [hadd]
  rfl

/-- A load from a label reads the label exactly when it does not assemble. -/
theorem labelLoad_hits_iff {entries : List MemoryEntry} {names : List (List (BitVec 8))}
    {label : MemoryEntry} (hlabel : names.findSome? (memoryLookupLabel entries) = some label)
    {p : Address} (hp : p.toNat % 2 = 0) {width : ThumbWidthSpecifier} {rt : BitVec 32}
    {spec : ThumbInstructionSpec}
    (hspec : ldrInstruction entries p { width } rt (.pcLabel (.label names)) = some spec)
    (m : Memory) :
    ((thumbAssemble p spec m).1.succeeds = true →
      literalLoadAddress p (load32 (thumbAssemble p spec m).2 p) = some (labelTarget label)) ↔
      ¬ LiteralAccepted width (uint8 rt) (armAddressSetThumbIntwrkBit label.addr false - p) := by
  rw [ldrInstruction_label hlabel p width rt] at hspec
  obtain rfl := Option.some.inj hspec
  rw [← literal_succeeds_iff p width rt _ m]
  refine ⟨fun h hs => ?_,fun h hs => absurd hs h⟩
  obtain ⟨stored,hstored,hload⟩ := literalLoadAddress_thumbAssemble hs p
  rw [hload] at h
  exact literal_misses (literalBase_cases hp) (labelTarget_cases label) rfl hstored
    (Option.some.inj (h hs))

/-- A code label `a` at `address`. -/
def codeLabelA (address : Address) : MemoryEntry :=
  { type := .etLabelCode ⟨[97],by decide,by decide⟩,
    addr := armAddressSetThumbIntwrkBit address true }

/-- A label 8192 bytes away, which the command refuses. -/
theorem labelLoad_hits_far :
    ¬ LiteralAccepted .auto (uint8 0) 0x2000 ∧
      ((thumbAssemble 0x20000000 (ldrPcSpec .auto 0 (.immediate 0x2000)) fun _ => 0).1.succeeds =
          true →
        literalLoadAddress 0x20000000 (load32 (thumbAssemble 0x20000000
          (ldrPcSpec .auto 0 (.immediate 0x2000)) fun _ => 0).2 0x20000000) =
          some (labelTarget (codeLabelA 0x20002000))) := by
  have hlabel : [[97]].findSome? (memoryLookupLabel [codeLabelA 0x20002000]) =
      some (codeLabelA 0x20002000) := rfl
  have hrefused : ¬ LiteralAccepted .auto (uint8 0) 0x2000 := by
    unfold LiteralAccepted
    decide
  exact ⟨hrefused,(labelLoad_hits_iff hlabel (by decide) rfl fun _ => 0).mpr hrefused⟩

/-- `LDR R0, a` with the label 256 bytes ahead reads four bytes past the label. -/
theorem labelLoad_misses :
    ldrInstruction [codeLabelA 0x20000100] 0x20000000 {} 0 (.pcLabel (.label [[97]])) =
        some (ldrPcSpec .auto 0 (.immediate 0x100)) ∧
      labelTarget (codeLabelA 0x20000100) = 0x20000100 ∧
      literalLoadAddress 0x20000000 (load32 (thumbAssemble 0x20000000
        (ldrPcSpec .auto 0 (.immediate 0x100)) fun _ => 0).2 0x20000000) = some 0x20000104 ∧
      ¬ ((thumbAssemble 0x20000000 (ldrPcSpec .auto 0 (.immediate 0x100))
          fun _ => 0).1.succeeds = true →
        literalLoadAddress 0x20000000 (load32 (thumbAssemble 0x20000000
          (ldrPcSpec .auto 0 (.immediate 0x100)) fun _ => 0).2 0x20000000) =
          some (labelTarget (codeLabelA 0x20000100))) :=
  ⟨rfl,by decide,by decide,by decide⟩

end TwMonitor.Thumb
