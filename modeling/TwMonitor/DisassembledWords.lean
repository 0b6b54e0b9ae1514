import TwMonitor.ReadBack

/-!
# What disassembled words look like

Each encoding reads every word it recognises as a specification with at most
four printable operands and without a condition. There are two exceptions. The
conditional branches show a condition, and the load with an eight-bit offset
has no addressing mode, and fails an assertion, when it neither indexes nor
writes back.
-/
namespace TwMonitor.Thumb
open BitLayout BitPattern WordCodec T32

/-- The operand has one of the kinds that are printed, and names a register
that exists. -/
def ThumbOperand.Printable : ThumbOperand → Prop
  | .none => False
  | .reg r => r.toNat ≤ 15
  | _ => True

structure Tidy (s : ThumbInstructionSpec) : Prop where
  count : s.operands.length ≤ thumbMaxOperands
  operands : s.operands.Forall ThumbOperand.Printable
  addressing : (s.addressingMode != .none) = (s.mnemonic == .ldr)

/-- The rule reads every word as a tidy specification without a condition. -/
def Plain {n : ℕ} (r : Rule n 32 (Option ThumbInstructionSpec)) : Prop :=
  ∀ w, ∃ s, r.read (r.decode w) = some s ∧ Tidy s ∧ s.condition = .none

theorem plain_reading {shown : Option ThumbInstructionSpec} {s : ThumbInstructionSpec}
    (hshown : shown = some s) (hcount : s.operands.length.ble 4 = true)
    (haddressing : (s.addressingMode != .none) = (s.mnemonic == .ldr))
    (hcondition : s.condition = .none) (hoperands : s.operands.Forall ThumbOperand.Printable) :
    ∃ s, shown = some s ∧ Tidy s ∧ s.condition = .none :=
  ⟨s,hshown,⟨Nat.le_of_ble_eq_true hcount,hoperands,haddressing⟩,hcondition⟩

section
variable {n : ℕ} (w : BitVec n)

theorem extract_le_fifteen (pos : ℕ) {width : ℕ} (hw : width ≤ 4) :
    (extract 32 w pos width).toNat ≤ 15 := by
  have hlt : w.toNat / 2 ^ pos % 2 ^ width < 2 ^ width := Nat.mod_lt _ (Nat.two_pow_pos _)
  have hle : 2 ^ width ≤ 2 ^ 4 := Nat.pow_le_pow_right (by omega) hw
  rw [extract_toNat _ _ _ (by omega)]
  omega

theorem reg_printable (pos : ℕ) {width : ℕ} (hw : width.ble 4 = true) :
    (ThumbOperand.reg (extract 32 w pos width)).Printable :=
  extract_le_fifteen w pos (Nat.le_of_ble_eq_true hw)

/-- A register whose top bit is stored apart. -/
theorem split_reg_printable (high low : ℕ) :
    (ThumbOperand.reg (extract 32 w high 1 <<< 3 ||| extract 32 w low 3)).Printable := by
  have hhigh : (extract 32 w high 1).toNat < 2 := by
    rw [extract_toNat _ _ _ (by omega)]
    exact Nat.mod_lt _ (by omega)
  have hlow : (extract 32 w low 3).toNat < 2 ^ 4 := by
    rw [extract_toNat _ _ _ (by omega)]
    omega
  have hshift : (extract 32 w high 1 <<< 3).toNat < 2 ^ 4 := by
    rw [BitVec.toNat_shiftLeft,Nat.shiftLeft_eq]
    omega
  have hor := Nat.or_lt_two_pow hshift hlow
  change (extract 32 w high 1 <<< 3 ||| extract 32 w low 3).toNat ≤ 15
  rw [BitVec.toNat_or]
  omega

end

theorem narrow_plain :
    ∀ r ∈ NarrowEncoding.order, Plain r ∨ r = NarrowEncoding.bCondT1Noit.toRule := by
  unfold NarrowEncoding.order
  simp only [List.forall_mem_cons,List.not_mem_nil,false_imp_iff,implies_true,and_true]
  refine ⟨?_,?_,?_,?_,?_,?_,?_,?_,?_,?_,?_,?_,?_,?_,?_,?_,?_,?_,?_,?_,?_,?_,?_,?_,?_,?_,?_⟩
  · exact Or.inl fun h => plain_reading rfl rfl rfl rfl trivial
  · exact Or.inl fun h => plain_reading rfl rfl rfl rfl trivial
  · exact Or.inl fun h => plain_reading rfl rfl rfl rfl trivial
  · exact Or.inl fun h => plain_reading rfl rfl rfl rfl ⟨reg_printable h 8 rfl,trivial⟩
  · exact Or.inl fun h => plain_reading rfl rfl rfl rfl
      ⟨split_reg_printable h 7 0,reg_printable h 3 rfl⟩
  · exact Or.inl fun h => plain_reading rfl rfl rfl rfl
      ⟨reg_printable h 0 rfl,reg_printable h 3 rfl⟩
  · exact Or.inl fun h => plain_reading rfl rfl rfl rfl (reg_printable h 3 rfl)
  · exact Or.inl fun h => plain_reading rfl rfl rfl rfl trivial
  · exact Or.inl fun h => plain_reading rfl rfl rfl rfl trivial
  · exact Or.inr trivial
  · exact Or.inl fun h => plain_reading rfl rfl rfl rfl
      ⟨reg_printable h 0 rfl,reg_printable h 3 rfl,trivial⟩
  · exact Or.inl fun h => plain_reading rfl rfl rfl rfl
      ⟨reg_printable h 8 rfl,Nat.le_of_ble_eq_true rfl,trivial⟩
  · exact Or.inl fun h => plain_reading rfl rfl rfl rfl
      ⟨reg_printable h 8 rfl,Nat.le_of_ble_eq_true rfl,trivial⟩
  · exact Or.inl fun h => plain_reading rfl rfl rfl rfl
      ⟨reg_printable h 0 rfl,reg_printable h 3 rfl,reg_printable h 6 rfl⟩
  · exact Or.inl fun h => plain_reading rfl rfl rfl rfl (reg_printable h 3 rfl)
  · exact Or.inl fun h => plain_reading rfl rfl rfl rfl trivial
  · exact Or.inl fun h => plain_reading rfl rfl rfl rfl trivial
  · exact Or.inl fun h => plain_reading rfl rfl rfl rfl ⟨reg_printable h 8 rfl,trivial⟩
  · exact Or.inl fun h => plain_reading rfl rfl rfl rfl
      ⟨reg_printable h 0 rfl,reg_printable h 3 rfl⟩
  · exact Or.inl fun h => plain_reading rfl rfl rfl rfl
      ⟨split_reg_printable h 7 0,reg_printable h 3 rfl⟩
  · exact Or.inl fun h => plain_reading rfl rfl rfl rfl
      ⟨reg_printable h 0 rfl,reg_printable h 3 rfl,trivial⟩
  · exact Or.inl fun h => plain_reading rfl rfl rfl rfl
      ⟨reg_printable h 8 rfl,reg_printable h 8 rfl,trivial⟩
  · exact Or.inl fun h => plain_reading rfl rfl rfl rfl
      ⟨reg_printable h 0 rfl,reg_printable h 3 rfl,reg_printable h 6 rfl⟩
  · exact Or.inl fun h => plain_reading rfl rfl rfl rfl
      ⟨split_reg_printable h 7 0,split_reg_printable h 7 0,reg_printable h 3 rfl⟩
  · exact Or.inl fun h => plain_reading rfl rfl rfl rfl
      ⟨reg_printable h 0 rfl,reg_printable h 3 rfl,trivial⟩
  · exact Or.inl fun h => plain_reading rfl rfl rfl rfl
      ⟨reg_printable h 8 rfl,reg_printable h 8 rfl,trivial⟩
  · exact Or.inl fun h => plain_reading rfl rfl rfl rfl
      ⟨reg_printable h 0 rfl,reg_printable h 3 rfl,reg_printable h 6 rfl⟩

theorem movRT3OptS_plain : Plain WideEncoding.movRT3OptS.toRule := by
  intro w
  have hm : (AddressingMode.none != .none) =
      ((if (decodeMovRT3OptS w).setflags ≠ 0 then ThumbMnemonic.movs else .mov) == .ldr) := by
    split <;> rfl
  exact plain_reading rfl rfl hm rfl ⟨reg_printable w 24 rfl,reg_printable w 16 rfl⟩

theorem wide_plain : ∀ r ∈ WideEncoding.order,
    Plain r ∨ r = WideEncoding.bCondT3Noit.toRule ∨ r = WideEncoding.ldrIT4.toRule := by
  unfold WideEncoding.order
  simp only [List.forall_mem_cons,List.not_mem_nil,false_imp_iff,implies_true,and_true]
  refine ⟨?_,?_,?_,?_,?_,?_,?_,?_,?_,?_,?_,?_,?_,?_,?_,?_,?_⟩
  · exact Or.inl fun w => plain_reading rfl rfl rfl rfl trivial
  · exact Or.inl fun w => plain_reading rfl rfl rfl rfl trivial
  · exact Or.inl fun w => plain_reading rfl rfl rfl rfl ⟨reg_printable w 24 rfl,trivial⟩
  · exact Or.inl movRT3OptS_plain
  · exact Or.inl fun w => plain_reading rfl rfl rfl rfl trivial
  · exact Or.inr (Or.inl trivial)
  · exact Or.inl fun w => plain_reading rfl rfl rfl rfl
      ⟨reg_printable w 28 rfl,reg_printable w 0 rfl,trivial⟩
  · exact Or.inr (Or.inr trivial)
  · exact Or.inl fun w => plain_reading rfl rfl rfl rfl
      ⟨reg_printable w 28 rfl,Nat.le_of_ble_eq_true rfl,trivial⟩
  · exact Or.inl fun w => plain_reading rfl rfl rfl rfl
      ⟨reg_printable w 28 rfl,reg_printable w 0 rfl,reg_printable w 16 rfl,trivial⟩
  · exact Or.inl fun w => plain_reading rfl rfl rfl rfl trivial
  · exact Or.inl fun w => plain_reading rfl rfl rfl rfl trivial
  · exact Or.inl fun w => plain_reading rfl rfl rfl rfl trivial
  · exact Or.inl fun w => plain_reading rfl rfl rfl rfl trivial
  · exact Or.inl fun w => plain_reading rfl rfl rfl rfl trivial
  · exact Or.inl fun w => plain_reading rfl rfl rfl rfl
      ⟨reg_printable w 24 rfl,reg_printable w 0 rfl,trivial⟩
  · exact Or.inl fun w => plain_reading rfl rfl rfl rfl
      ⟨reg_printable w 24 rfl,reg_printable w 0 rfl,trivial⟩

/-! ## The two exceptions -/

theorem bCondT1Noit_reading (h : BitVec 16) :
    ∃ s, NarrowEncoding.bCondT1Noit.read (decodeBCondT1Noit h) = some s ∧ Tidy s ∧
      s.condition = extract 32 h 8 4 + 1 :=
  ⟨_,rfl,⟨Nat.le_of_ble_eq_true rfl,trivial,rfl⟩,rfl⟩

theorem bCondT3Noit_reading (w : BitVec 32) :
    ∃ s, WideEncoding.bCondT3Noit.read (decodeBCondT3Noit w) = some s ∧ Tidy s ∧
      s.condition = extract 32 w 6 4 + 1 :=
  ⟨_,rfl,⟨Nat.le_of_ble_eq_true rfl,trivial,rfl⟩,rfl⟩

theorem ldrIT4_reading {w : BitVec 32} {mode : AddressingMode}
    (hmode : ldrIT4AddressingMode (decodeLdrIT4 w) = some mode) :
    ∃ s, WideEncoding.ldrIT4.read (decodeLdrIT4 w) = some s ∧ Tidy s ∧ s.condition = .none := by
  have hread : WideEncoding.ldrIT4.read (decodeLdrIT4 w) =
      (ldrIT4AddressingMode (decodeLdrIT4 w)).bind _ := rfl
  have hne : (mode != .none) = true := by
    unfold ldrIT4AddressingMode at hmode
    split_ifs at hmode <;> (obtain rfl := Option.some.inj hmode; rfl)
  rw [hread,hmode]
  exact plain_reading rfl rfl hne rfl ⟨reg_printable w 28 rfl,reg_printable w 0 rfl,trivial⟩

theorem extract_one_eq_zero_iff {n : ℕ} (w : BitVec n) (pos : ℕ) :
    extract 32 w pos 1 = 0 ↔ w.getLsbD pos = false := by
  constructor
  · intro h
    exact extract_bit h (i := 0) one_pos (by omega)
  · intro h
    apply BitVec.eq_of_getLsbD_eq
    intro i _
    rw [getLsbD_extract]
    by_cases hi : i < 1
    · have hpos : pos + i = pos := by omega
      rw [hpos,h]
      simp
    · simp [hi]

/-- The words of the eight-bit load that neither index nor write back. -/
def aimless : Pattern 32 := ⟨0x0800F850,0x050007A0⟩

theorem aimless_matches_iff (w : BitVec 32) :
    aimless.Matches w ↔ w &&& 0x0D00FFF0 = 0x0800F850 :=
  Pattern.matches_iff_and (p := aimless) rfl w

theorem ldrIT4AddressingMode_eq_none_iff (parts : LdrIT4Parts) :
    ldrIT4AddressingMode parts = none ↔ parts.index = 0 ∧ parts.writeback = 0 := by
  unfold ldrIT4AddressingMode
  constructor
  · intro h
    split_ifs at h with h₁ h₂ h₃
    tauto
  · rintro ⟨hi,hw⟩
    rw [if_neg (fun h => h.1 hi),if_neg (fun h => h.2 hw),if_neg (fun h => h.1 hi)]

theorem aimless_of_match {w : BitVec 32} (hm : matchLdrIT4 w = true)
    (hmode : ldrIT4AddressingMode (decodeLdrIT4 w) = none) : aimless.Matches w := by
  obtain ⟨hindex,hwriteback⟩ := (ldrIT4AddressingMode_eq_none_iff _).mp hmode
  have hpattern := (matchLdrIT4.run_iff w).mp hm
  have h₁ := matches_withZero hpattern ((extract_one_eq_zero_iff w 26).mp hindex)
  have h₂ := matches_withZero h₁ ((extract_one_eq_zero_iff w 24).mp hwriteback)
  exact Pattern.matches_of_refines (q := aimless) rfl h₂

/-! ## Returning -/

theorem thumbDisassembleNarrow_reading (h : BitVec 16) :
    ∃ s, thumbDisassembleNarrow h = some s ∧ Tidy s ∧
      (s.condition = .none ∨ matchBCondT1Noit h = true ∧ s.condition = extract 32 h 8 4 + 1) := by
  rw [thumbDisassembleNarrow_eq]
  rcases firstMatch_cases (fun r => r.recognise) (fun r w => r.read (r.decode w))
    (some { width := .narrow }) NarrowEncoding.order h with ⟨r,hr,hm,he⟩ | he
  · rw [Rule.decodeFirst,he]
    rcases narrow_plain r hr with hplain | rfl
    · obtain ⟨s,hs,htidy,hcond⟩ := hplain h
      exact ⟨s,hs,htidy,Or.inl hcond⟩
    · obtain ⟨s,hs,htidy,hcond⟩ := bCondT1Noit_reading h
      exact ⟨s,hs,htidy,Or.inr ⟨hm,hcond⟩⟩
  · rw [Rule.decodeFirst,he]
    exact ⟨_,rfl,⟨by simp,trivial,rfl⟩,Or.inl rfl⟩

theorem thumbDisassembleWide_reading {w : BitVec 32} (hw : ¬ aimless.Matches w) :
    ∃ s, thumbDisassembleWide w = some s ∧ Tidy s ∧
      (s.condition = .none ∨ matchBCondT3Noit w = true ∧ s.condition = extract 32 w 6 4 + 1) := by
  rw [thumbDisassembleWide_eq]
  rcases firstMatch_cases (fun r => r.recognise) (fun r w => r.read (r.decode w))
    (some { width := .wide }) WideEncoding.order w with ⟨r,hr,hm,he⟩ | he
  · rw [Rule.decodeFirst,he]
    rcases wide_plain r hr with hplain | rfl | rfl
    · obtain ⟨s,hs,htidy,hcond⟩ := hplain w
      exact ⟨s,hs,htidy,Or.inl hcond⟩
    · obtain ⟨s,hs,htidy,hcond⟩ := bCondT3Noit_reading w
      exact ⟨s,hs,htidy,Or.inr ⟨hm,hcond⟩⟩
    · cases hmode : ldrIT4AddressingMode (decodeLdrIT4 w) with
      | none => exact absurd (aimless_of_match hm hmode) hw
      | some mode =>
          obtain ⟨s,hs,htidy,hcond⟩ := ldrIT4_reading hmode
          exact ⟨s,hs,htidy,Or.inl hcond⟩
  · rw [Rule.decodeFirst,he]
    exact ⟨_,rfl,⟨by simp,trivial,rfl⟩,Or.inl rfl⟩

/-- The aimless words are all taken by the load, which asserts. -/
theorem thumbDisassemble_aimless {w : BitVec 32} (hw : aimless.Matches w) :
    thumbDisassemble w = none := by
  have hwide : thumbIsWideInstruction w = true := isWide_of_fixesWide (p := aimless) rfl hw
  have hindex := (extract_one_eq_zero_iff w 26).mpr ((hw 26).2 rfl)
  have hwriteback := (extract_one_eq_zero_iff w 24).mpr ((hw 24).2 rfl)
  have hmode := (ldrIT4AddressingMode_eq_none_iff (decodeLdrIT4 w)).mpr ⟨hindex,hwriteback⟩
  rw [thumbDisassemble,hwide,if_pos rfl,
    thumbDisassembleWide_of_resolve (r := WideEncoding.ldrIT4.toRule) (p := aimless) rfl hw]
  change (ldrIT4AddressingMode (decodeLdrIT4 w)).bind _ = none
  rw [hmode]
  rfl

/-- The disassembler returns on every word but the aimless ones. -/
theorem thumbDisassemble_returns_iff (w : ThumbT) :
    (thumbDisassemble w).isSome = true ↔ ¬ w &&& 0x0D00FFF0 = 0x0800F850 := by
  rw [← aimless_matches_iff]
  constructor
  · intro h hw
    rw [thumbDisassemble_aimless hw] at h
    exact Bool.false_ne_true h
  · intro hw
    unfold thumbDisassemble
    split
    · obtain ⟨s,hs,_⟩ := thumbDisassembleWide_reading hw
      rw [hs]
      rfl
    · obtain ⟨s,hs,_⟩ := thumbDisassembleNarrow_reading (ThumbT.narrow w)
      rw [hs]
      rfl

/-- The bytes `F850 0800` hang the disassembler. -/
theorem thumbDisassemble_hangs : ¬ (thumbDisassemble 0x0800F850).isSome = true := by decide

end TwMonitor.Thumb
