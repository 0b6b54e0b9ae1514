import TwMonitor.DisassembledWords
import TwMonitor.ThumbPrint

/-!
# Disassembled words that can be printed

A tidy specification prints when its condition has a name. The wide conditional
branch shows its raw condition field plus one; only the value 15 has no name,
and of the words with that value only the undefined instruction is taken by an
earlier pattern.
-/
namespace TwMonitor.Thumb
open BitLayout BitPattern ByteMemory MemoryStore NumberPad WordCodec T32

theorem thumbPrintRegisterName_isSome {reg : BitVec 32} (hreg : reg.toNat ≤ 15) (padded : Bool) :
    ∃ t, thumbPrintRegisterName reg padded = some t := by
  unfold thumbPrintRegisterName
  rw [if_neg (by omega)]
  split
  · obtain ⟨p,hp⟩ := utoaPadW_isSome reg (by decide : 10 ≤ 10 ∧ 10 ≤ 16 ∧ 2 ≤ 8) true
    rw [hp]
    exact ⟨_,rfl⟩
  · exact ⟨_,rfl⟩

theorem printRegistersFrom_isSome (reglist : BitVec 16) {is : List ℕ} (his : ∀ i ∈ is, i < 16) :
    ∀ first, ∃ t, printRegistersFrom reglist is first = some t := by
  induction is with
  | nil => exact fun _ => ⟨_,rfl⟩
  | cons i is ih =>
      intro first
      have hrest := ih fun j hj => his j (List.mem_cons_of_mem i hj)
      rw [printRegistersFrom]
      split
      · have hi := his i List.mem_cons_self
        have hreg : (BitVec.ofNat 32 i).toNat ≤ 15 := by
          rw [BitVec.toNat_ofNat]
          omega
        obtain ⟨name,hname⟩ := thumbPrintRegisterName_isSome hreg false
        obtain ⟨names,hnames⟩ := hrest false
        rw [hname,hnames]
        exact ⟨_,rfl⟩
      · exact hrest first

theorem printOperand_isSome {operand : ThumbOperand} (h : operand.Printable) :
    ∃ t, printOperand operand = some t := by
  cases operand with
  | none => exact absurd h id
  | reg reg => exact thumbPrintRegisterName_isSome h false
  | reglist reglist =>
      obtain ⟨names,hnames⟩ := printRegistersFrom_isSome reglist
        (fun i hi => List.mem_range.mp hi : ∀ i ∈ List.range 16, i < 16) true
      rw [printOperand,thumbPrintRegisterList,hnames]
      exact ⟨_,rfl⟩
  | immediate imm =>
      obtain ⟨p,hp⟩ := utoaPadW_isSome imm (by decide : 10 ≤ 16 ∧ 16 ≤ 16 ∧ 0 ≤ 8) false
      rw [printOperand,utoaPad,hp]
      exact ⟨_,rfl⟩
  | signedImmediate simm =>
      obtain ⟨p,hp⟩ := itoaPad_isSome simm (by decide : 10 ≤ 16 ∧ 16 ≤ 16)
      rw [printOperand,hp]
      exact ⟨_,rfl⟩
  | lslShift shift =>
      obtain ⟨p,hp⟩ := utoaPadW_isSome shift (by decide : 10 ≤ 10 ∧ 10 ≤ 16 ∧ 0 ≤ 8) false
      rw [printOperand,utoaPad,hp]
      exact ⟨_,rfl⟩

theorem printOperandsFrom_isSome (instruction : ThumbInstructionSpec) {operands : List ThumbOperand}
    (h : operands.Forall ThumbOperand.Printable) :
    ∀ i, ∃ t, printOperandsFrom instruction i operands = some t := by
  induction operands with
  | nil => exact fun _ => ⟨_,rfl⟩
  | cons operand rest ih =>
      intro i
      obtain ⟨hoperand,hrest⟩ := (List.forall_cons _ _ _).mp h
      obtain ⟨text,htext⟩ := printOperand_isSome hoperand
      obtain ⟨texts,htexts⟩ := ih hrest (i + 1)
      rw [printOperandsFrom,htext,htexts]
      exact ⟨_,rfl⟩

theorem printReference_isSome (entries : List MemoryEntry) (address : Address) :
    ∃ t, printReference entries address = some t := by
  obtain ⟨number,hnumber⟩ := utoaPadW_isSome address (by decide : 10 ≤ 16 ∧ 16 ≤ 16 ∧ 8 ≤ 8) true
  unfold printReference puthexword
  rw [hnumber]
  cases hlabel : memoryRlookupLabel entries address with
  | none => exact ⟨_,rfl⟩
  | some label =>
      have hfound := List.find?_some hlabel
      have hname : (labelName label).isSome = true := by
        by_contra hnot
        rw [if_neg (show ¬ memoryEntryIsLabel label = true from hnot)] at hfound
        exact Bool.false_ne_true hfound
      obtain ⟨name,hname⟩ := Option.isSome_iff_exists.mp hname
      have hprint : memoryPrintNameFromLabel label =
          some ((name.bytes.takeWhile (· ≠ 0)).map fun b => Char.ofNat b.toNat) := by
        rw [memoryPrintNameFromLabel,hname]
        rfl
      simp only [hprint]
      exact ⟨_,rfl⟩

/-- A tidy specification prints exactly when its condition is in the table. -/
theorem thumbPrintInstruction_isSome_iff {s : ThumbInstructionSpec} (hs : Tidy s)
    (entries : List MemoryEntry) (address : Address) :
    (thumbPrintInstruction entries s address).isSome = true ↔ s.condition.toNat < 16 := by
  obtain ⟨operands,hoperands⟩ := printOperandsFrom_isSome s hs.operands 0
  obtain ⟨reference,hreference⟩ : ∃ t, (if (thumbGetReferencedAddress s address).found then
      printReference entries (thumbGetReferencedAddress s address).address
        else some []) = some t := by
    split
    · exact printReference_isSome entries _
    · exact ⟨_,rfl⟩
  obtain ⟨mnemonic,hmnemonic⟩ : ∃ t, mnemonicStrs[s.mnemonic.ctorIdx]? = some t := by
    cases s.mnemonic <;> exact ⟨_,rfl⟩
  have hcondition : (if s.condition ≠ .none then conditionStrs[s.condition.toNat]?
      else some "").isSome = true ↔ s.condition.toNat < 16 := by
    split
    · rw [Option.isSome_iff_ne_none,ne_eq,List.getElem?_eq_none_iff,not_le]
      rfl
    · next h =>
        rw [not_not] at h
        rw [h]
        decide
  unfold thumbPrintInstruction
  rw [hmnemonic,hoperands]
  simp only [hreference]
  generalize (if s.condition ≠ .none then conditionStrs[s.condition.toNat]? else some "") =
    condition at hcondition ⊢
  rw [← hcondition]
  cases condition <;> rfl

/-! ## Conditions -/

/-- What printing indexes and asserts on. -/
structure Printable (s : ThumbInstructionSpec) : Prop where
  mnemonic : s.mnemonic.ctorIdx < mnemonicStrs.length
  condition : s.condition.toNat ≤ ThumbCondition.al.toNat
  inTable : s.condition.toNat < conditionStrs.length
  count : s.operands.length ≤ thumbMaxOperands
  operands : s.operands.Forall ThumbOperand.Printable
  addressing : s.addressingMode ≠ .none ↔ s.mnemonic = .ldr
  prints : ∀ entries address, (thumbPrintInstruction entries s address).isSome = true

theorem Tidy.printable_iff {s : ThumbInstructionSpec} (hs : Tidy s) :
    Printable s ↔ s.condition.toNat < 16 := by
  constructor
  · exact fun h => h.inTable
  · intro h
    have haddressing : s.addressingMode ≠ .none ↔ s.mnemonic = .ldr := by
      rw [← bne_iff_ne,hs.addressing,beq_iff_eq]
    exact {
      mnemonic := by cases s.mnemonic <;> decide
      condition := Nat.le_of_lt_succ h
      inTable := h
      count := hs.count
      operands := hs.operands
      addressing := haddressing
      prints := fun entries address => (thumbPrintInstruction_isSome_iff hs entries address).mpr h }

/-- A four-bit condition field plus one is outside the table for 15 only. -/
theorem condition_lt_iff {cond : BitVec 32} (h : cond.toNat ≤ 15) :
    (cond + 1).toNat < 16 ↔ cond ≠ 15 := by
  bv_omega

/-! ### Narrow words -/

/-- The conditional branch with the last condition field is SVC. -/
theorem thumbDisassembleNarrow_condition {h : BitVec 16} {s : ThumbInstructionSpec}
    (hs : thumbDisassembleNarrow h = some s) : s.condition.toNat < 16 := by
  obtain ⟨s',hs',_,hcond⟩ := thumbDisassembleNarrow_reading h
  obtain rfl := Option.some.inj (hs.symm.trans hs')
  rcases hcond with hcond | ⟨hmatch,hcond⟩
  · rw [hcond]
    decide
  · by_cases hlast : extract 32 h 8 4 = 15
    · have hm := matches_withOnes ((matchBCondT1Noit.run_iff h).mp hmatch) hlast
      have hsvc : thumbDisassembleNarrow h = NarrowEncoding.svcT1.read (decodeSvcT1 h) :=
        thumbDisassembleNarrow_of_resolve (r := NarrowEncoding.svcT1.toRule) rfl hm
      rw [hsvc] at hs
      obtain rfl := Option.some.inj hs
      exact (by decide : ThumbCondition.none.toNat < 16)
    · rw [hcond,condition_lt_iff (extract_le_fifteen h 8 le_rfl)]
      exact hlast

/-! ### Wide words -/

/-- The wide conditional branch with the last condition field. -/
def nameless : Pattern 32 := ⟨0x8000F3C0,0x50000800⟩

theorem nameless_matches_iff (w : BitVec 32) :
    nameless.Matches w ↔ w &&& 0xD000FBC0 = 0x8000F3C0 :=
  Pattern.matches_iff_and (p := nameless) rfl w

theorem matchUdfT2_iff (w : BitVec 32) :
    matchUdfT2 w = true ↔ w &&& 0xF000FFF0 = 0xA000F7F0 :=
  (matchUdfT2.run_iff w).trans (Pattern.matches_iff_and (p := matchUdfT2.pattern) rfl w)

theorem nameless_of_match {w : BitVec 32} (hm : matchBCondT3Noit w = true)
    (hlast : extract 32 w 6 4 = 15) : nameless.Matches w := by
  have hones := matches_withOnes ((matchBCondT3Noit.run_iff w).mp hm) hlast
  exact Pattern.matches_of_refines (q := nameless) rfl hones

/-- A nameless word that is not undefined is read as a branch with condition 16. -/
theorem thumbDisassembleWide_nameless {w : BitVec 32} (hw : nameless.Matches w)
    (hudf : matchUdfT2 w = false) :
    ∃ s, thumbDisassembleWide w = some s ∧ s.condition.toNat = 16 := by
  have hones : (⟨6,4,15⟩ : FieldTest 32).holds w = true :=
    (FieldTest.holds_iff rfl w).mpr (Pattern.matches_of_refines rfl hw)
  have hcond : extract 32 w 6 4 = 15 := beq_iff_eq.mp hones
  have hresolve : resolve (fun r : Rule 32 32 (Option ThumbInstructionSpec) => r.recognise) nameless
      WideEncoding.order.tail = some WideEncoding.bCondT3Noit.toRule := rfl
  have hfirst : thumbDisassembleWide w =
      WideEncoding.bCondT3Noit.read (decodeBCondT3Noit w) := by
    rw [thumbDisassembleWide_eq,Rule.decodeFirst]
    change (if matchUdfT2 w = true then _ else firstMatch _ _ _ WideEncoding.order.tail w) = _
    rw [hudf,if_neg Bool.false_ne_true]
    exact firstMatch_of_resolve hresolve _ _ hw
  obtain ⟨s,hs,_,hcondition⟩ := bCondT3Noit_reading w
  refine ⟨s,hfirst.trans hs,?_⟩
  rw [hcondition,hcond]
  rfl

theorem not_aimless {w : BitVec 32} {s : ThumbInstructionSpec}
    (hs : thumbDisassembleWide w = some s) : ¬ aimless.Matches w := by
  intro hw
  have hnone := thumbDisassemble_aimless hw
  rw [thumbDisassemble,isWide_of_fixesWide (p := aimless) rfl hw,if_pos rfl,hs] at hnone
  simp at hnone

theorem thumbDisassembleWide_condition_iff {w : BitVec 32} {s : ThumbInstructionSpec}
    (hs : thumbDisassembleWide w = some s) :
    s.condition.toNat < 16 ↔ ¬ (nameless.Matches w ∧ matchUdfT2 w = false) := by
  constructor
  · rintro hlt ⟨hw,hudf⟩
    obtain ⟨s',hs',hcond⟩ := thumbDisassembleWide_nameless hw hudf
    obtain rfl := Option.some.inj (hs.symm.trans hs')
    omega
  · intro hnot
    cases hudf : matchUdfT2 w with
    | true =>
        have hfirst : thumbDisassembleWide w = WideEncoding.udfT2.read (decodeUdfT2 w) :=
          thumbDisassembleWide_of_resolve (r := WideEncoding.udfT2.toRule) rfl
            ((matchUdfT2.run_iff w).mp hudf)
        rw [hfirst] at hs
        obtain rfl := Option.some.inj hs
        exact (by decide : ThumbCondition.none.toNat < 16)
    | false =>
        obtain ⟨s',hs',_,hcond⟩ := thumbDisassembleWide_reading (not_aimless hs)
        obtain rfl := Option.some.inj (hs.symm.trans hs')
        rcases hcond with hcond | ⟨hmatch,hcond⟩
        · rw [hcond]
          decide
        · rw [hcond,condition_lt_iff (extract_le_fifteen w 6 le_rfl)]
          exact fun hlast => hnot ⟨nameless_of_match hmatch hlast,hudf⟩

/-! ## Printable words -/

theorem thumbDisassemble_tidy {w : ThumbT} {s : ThumbInstructionSpec}
    (hs : thumbDisassemble w = some s) : Tidy s := by
  unfold thumbDisassemble at hs
  split at hs
  · obtain ⟨s',hs',htidy,_⟩ := thumbDisassembleWide_reading (not_aimless hs)
    obtain rfl := Option.some.inj (hs.symm.trans hs')
    exact htidy
  · obtain ⟨s',hs',htidy,_⟩ := thumbDisassembleNarrow_reading (ThumbT.narrow w)
    obtain rfl := Option.some.inj (hs.symm.trans hs')
    exact htidy

/-- What the disassembler returns can be printed, except for the words of the
wide conditional branch with a nameless condition. -/
theorem thumbDisassemble_printable_iff {w : ThumbT} {s : ThumbInstructionSpec}
    (hs : thumbDisassemble w = some s) :
    Printable s ↔
      ¬ (w &&& 0xD000FBC0 = 0x8000F3C0 ∧ ¬ w &&& 0xF000FFF0 = 0xA000F7F0) := by
  rw [(thumbDisassemble_tidy hs).printable_iff,← nameless_matches_iff,← matchUdfT2_iff,
    Bool.not_eq_true]
  unfold thumbDisassemble at hs
  split at hs
  · exact thumbDisassembleWide_condition_iff hs
  · next hnarrow =>
      refine ⟨fun _ hw => hnarrow (isWide_of_fixesWide (p := nameless) rfl hw.1),fun _ => ?_⟩
      exact thumbDisassembleNarrow_condition hs

/-- `UDF.W #0` has the bits of a nameless branch and prints all the same. -/
theorem thumbDisassemble_printable_udf :
    Printable { mnemonic := .udf, width := .wide, operands := [.immediate 0] } := by
  have hs : thumbDisassemble 0xA000F7F0 =
      some { mnemonic := .udf, width := .wide, operands := [.immediate 0] } := by decide
  exact (thumbDisassemble_printable_iff hs).mpr (by decide)

/-- What is shown of `MRS R0, APSR`. -/
def mrsShown : ThumbInstructionSpec where
  mnemonic := .b
  condition := 16
  width := .wide
  operands := [.signedImmediate 0x2F004]

/-- The condition of `MRS R0, APSR` is past the table. -/
theorem thumbDisassemble_unprintable :
    thumbDisassemble 0x8000F3EF = some mrsShown ∧ ¬ Printable mrsShown :=
  ⟨by decide,fun h => absurd h.inTable (by decide)⟩

end TwMonitor.Thumb
