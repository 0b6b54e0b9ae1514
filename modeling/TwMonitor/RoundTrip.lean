import TwMonitor.ReadBack
import TwMonitor.RegisterList

/-!
# Assembling and disassembling again

For the families without a displacement, what the assembler accepts is shown
again with the operands that were given. The immediate forms of ADD, SUB and
MOV have wide encodings only and come back under the name of those; a register
offset without a shift may come back with a shift by zero.
-/
namespace TwMonitor.Thumb
open BitLayout ByteMemory T32

def Registers (operands : List ThumbOperand) : Prop :=
  ∀ r, ThumbOperand.reg r ∈ operands → r.toNat < 16

/-- All forms of the choice are legible and show the mnemonic, the addressing
mode and the operands, which may depend on the width. -/
structure Shows (mnemonic : ThumbMnemonic) (mode : AddressingMode)
    (narrowOps wideOps : List ThumbOperand) (c : Choices) : Prop where
  narrow : ∀ f ∈ c.narrow, f.Legible ∧ f.shown = some
    { mnemonic, width := .narrow, addressingMode := mode, operands := narrowOps }
  wide : ∀ f ∈ c.wide, f.Legible ∧ f.shown = some
    { mnemonic, width := .wide, addressingMode := mode, operands := wideOps }

namespace Shows
variable {mnemonic : ThumbMnemonic} {mode : AddressingMode} {narrowOps wideOps : List ThumbOperand}
  {c : Choices}

theorem empty : Shows mnemonic mode narrowOps wideOps {} where
  narrow := List.forall_mem_nil _
  wide := List.forall_mem_nil _

theorem consNarrow (h : Shows mnemonic mode narrowOps wideOps c) {f : NarrowForm}
    (hf : f.Legible) (hshown : f.shown = some
      { mnemonic, width := .narrow, addressingMode := mode, operands := narrowOps }) :
    Shows mnemonic mode narrowOps wideOps { c with narrow := f::c.narrow } where
  narrow := List.forall_mem_cons.mpr ⟨⟨hf,hshown⟩,h.narrow⟩
  wide := h.wide

theorem consWide (h : Shows mnemonic mode narrowOps wideOps c) {f : WideForm}
    (hf : f.Legible) (hshown : f.shown = some
      { mnemonic, width := .wide, addressingMode := mode, operands := wideOps }) :
    Shows mnemonic mode narrowOps wideOps { c with wide := f::c.wide } where
  narrow := h.narrow
  wide := List.forall_mem_cons.mpr ⟨⟨hf,hshown⟩,h.wide⟩

/-- The second form is there for some operands only, and shows these. -/
theorem pairWhen {p : Prop} [Decidable p] {f g : NarrowForm} (hf : f.Legible)
    (hshown : f.shown = some
      { mnemonic, width := .narrow, addressingMode := mode, operands := narrowOps })
    (hg : g.Legible) (hshown' : p → g.shown = some
      { mnemonic, width := .narrow, addressingMode := mode, operands := narrowOps }) :
    Shows mnemonic mode narrowOps wideOps { narrow := f::if p then [g] else [] } := by
  split
  · next hp => exact .consNarrow (.consNarrow .empty hg (hshown' hp)) hf hshown
  · exact .consNarrow .empty hf hshown

end Shows

/-! ## The forms of each mnemonic -/

/-- ADD, SUB and MOV with an immediate are shown as their wide variants. -/
def shownMnemonic : ThumbMnemonic → List ThumbOperand → ThumbMnemonic
  | .add,[.reg _,.reg _,.immediate _] => .addw
  | .sub,[.reg _,.reg _,.immediate _] => .subw
  | .mov,[.reg _,.immediate _] => .movw
  | mnemonic,_ => mnemonic

theorem bkptForms_shows (operands : List ThumbOperand) :
    Shows .bkpt .none operands operands (bkptForms operands) := by
  unfold bkptForms
  split
  · exact .consNarrow .empty (NarrowForm.legible rfl _) rfl
  · exact .empty

theorem blxForms_shows (operands : List ThumbOperand) :
    Shows .blx .none operands operands (blxForms operands) := by
  unfold blxForms
  split
  · exact .consNarrow .empty (NarrowForm.legible rfl _) rfl
  · exact .empty

theorem bxForms_shows (operands : List ThumbOperand) :
    Shows .bx .none operands operands (bxForms operands) := by
  unfold bxForms
  split
  · exact .consNarrow .empty (NarrowForm.legible rfl _) rfl
  · exact .empty

theorem nopForms_shows (operands : List ThumbOperand) :
    Shows .nop .none operands operands (nopForms operands) := by
  unfold nopForms
  split
  · exact .consNarrow (.consWide .empty (WideForm.legible rfl _) rfl) (NarrowForm.legible rfl _) rfl
  · exact .empty

theorem svcForms_shows (operands : List ThumbOperand) :
    Shows .svc .none operands operands (svcForms operands) := by
  unfold svcForms
  split
  · exact .consNarrow .empty (NarrowForm.legible rfl _) rfl
  · exact .empty

theorem udfForms_shows (operands : List ThumbOperand) :
    Shows .udf .none operands operands (udfForms operands) := by
  unfold udfForms
  split
  · exact .consNarrow (.consWide .empty (WideForm.legible rfl _) rfl) (NarrowForm.legible rfl _) rfl
  · exact .empty

def pushSpec (width : ThumbWidthSpecifier) (reglist : BitVec 16) : Option ThumbInstructionSpec :=
  some { mnemonic := .push, width, operands := [.reglist reglist] }

theorem pushForms_shows (operands : List ThumbOperand) :
    Shows .push .none operands operands (pushForms operands) := by
  unfold pushForms
  split
  · next reglist =>
      dsimp only
      split
      · exact .empty
      · have hlist := push_list reglist
        have hnarrow := congrArg (pushSpec .narrow) hlist
        split
        · next hone =>
            have hwide := congrArg (pushSpec .wide) (push_single hone)
            refine .consNarrow (.consWide .empty (WideForm.legible rfl _) ?_)
              (NarrowForm.legible rfl _) ?_
            · exact hwide
            · exact hnarrow
        · have hwide := congrArg (pushSpec .wide) hlist
          refine .consNarrow (.consWide .empty (WideForm.legible rfl _) ?_)
            (NarrowForm.legible rfl _) ?_
          · exact hwide
          · exact hnarrow
  · exact .empty

theorem movwForms_shows {operands : List ThumbOperand} :
    Shows .movw .none operands operands (movwForms operands) := by
  unfold movwForms
  split
  · split
    · exact .empty
    · exact .consWide .empty (WideForm.legible rfl _) rfl
  · exact .empty

section
variable {operands : List ThumbOperand} (hregs : Registers operands)
include hregs

theorem addwForms_shows : Shows .addw .none operands operands (addwForms operands) := by
  unfold addwForms
  split
  · next rd rn imm =>
      have hrd := uint8_of_lt (hregs rd (by simp))
      have hrn := uint8_of_lt (hregs rn (by simp))
      split
      · exact .empty
      · rw [hrd,hrn]
        exact .consWide .empty (WideForm.legible rfl _) rfl
  · exact .empty

theorem subwForms_shows : Shows .subw .none operands operands (subwForms operands) := by
  unfold subwForms
  split
  · next rd rn imm =>
      have hrd := uint8_of_lt (hregs rd (by simp))
      have hrn := uint8_of_lt (hregs rn (by simp))
      split
      · exact .empty
      · rw [hrd,hrn]
        exact .consWide .empty (WideForm.legible rfl _) rfl
  · exact .empty

theorem addForms_shows :
    Shows (shownMnemonic .add operands) .none operands operands (addForms operands) := by
  unfold addForms
  split
  · exact addwForms_shows hregs
  · next rd rn rm =>
      have hrd := uint8_of_lt (hregs rd (by simp))
      have hrn := uint8_of_lt (hregs rn (by simp))
      have hrm := uint8_of_lt (hregs rm (by simp))
      split
      · next heq =>
          rw [hrd,hrn] at heq
          rw [heq,hrn,hrm]
          exact .consNarrow .empty (NarrowForm.legible rfl _) rfl
      · exact .empty
  · exact .empty

theorem addsForms_shows : Shows .adds .none operands operands (addsForms operands) := by
  unfold addsForms
  split
  · next rd rn imm =>
      have hrd := uint8_of_lt (hregs rd (by simp))
      have hrn := uint8_of_lt (hregs rn (by simp))
      rw [hrd,hrn]
      refine .pairWhen (NarrowForm.legible rfl _) rfl (NarrowForm.legible rfl _) ?_
      rintro rfl
      rfl
  · next rd rn rm =>
      rw [uint8_of_lt (hregs rd (by simp)),uint8_of_lt (hregs rn (by simp)),
        uint8_of_lt (hregs rm (by simp))]
      exact .consNarrow .empty (NarrowForm.legible rfl _) rfl
  · exact .empty

theorem subForms_shows :
    Shows (shownMnemonic .sub operands) .none operands operands (subForms operands) := by
  unfold subForms
  split
  · exact subwForms_shows hregs
  · exact .empty

theorem subsForms_shows : Shows .subs .none operands operands (subsForms operands) := by
  unfold subsForms
  split
  · next rd rn imm =>
      have hrd := uint8_of_lt (hregs rd (by simp))
      have hrn := uint8_of_lt (hregs rn (by simp))
      rw [hrd,hrn]
      refine .pairWhen (NarrowForm.legible rfl _) rfl (NarrowForm.legible rfl _) ?_
      rintro rfl
      rfl
  · next rd rn rm =>
      rw [uint8_of_lt (hregs rd (by simp)),uint8_of_lt (hregs rn (by simp)),
        uint8_of_lt (hregs rm (by simp))]
      exact .consNarrow .empty (NarrowForm.legible rfl _) rfl
  · exact .empty

theorem cmpForms_shows : Shows .cmp .none operands operands (cmpForms operands) := by
  unfold cmpForms
  split
  · next rn imm =>
      rw [uint8_of_lt (hregs rn (by simp))]
      exact .consNarrow .empty (NarrowForm.legible rfl _) rfl
  · next rn rm =>
      rw [uint8_of_lt (hregs rn (by simp)),uint8_of_lt (hregs rm (by simp))]
      exact .consNarrow (.consNarrow .empty (NarrowForm.legible rfl _) rfl)
        (NarrowForm.legible rfl _) rfl
  · exact .empty

theorem movForms_shows :
    Shows (shownMnemonic .mov operands) .none operands operands (movForms operands) := by
  unfold movForms
  split
  · split
    · exact .empty
    · exact movwForms_shows
  · next rd rm =>
      rw [uint8_of_lt (hregs rd (by simp)),uint8_of_lt (hregs rm (by simp))]
      exact .consNarrow (.consWide .empty (WideForm.legible rfl _) rfl)
        (NarrowForm.legible rfl _) rfl
  · exact .empty

theorem movsForms_shows : Shows .movs .none operands operands (movsForms operands) := by
  unfold movsForms
  split
  · next rd imm =>
      rw [uint8_of_lt (hregs rd (by simp))]
      split
      · exact .empty
      · exact .consNarrow .empty (NarrowForm.legible rfl _) rfl
  · next rd rm =>
      rw [uint8_of_lt (hregs rd (by simp)),uint8_of_lt (hregs rm (by simp))]
      exact .consNarrow (.consWide .empty (WideForm.legible rfl _) rfl)
        (NarrowForm.legible rfl _) rfl
  · exact .empty

end

/-- A shift by zero counts as no shift. -/
def withZeroShift : List ThumbOperand → List ThumbOperand
  | [.reg rt,.reg rn,.reg rm] => [.reg rt,.reg rn,.reg rm,.lslShift 0]
  | operands => operands

def ldrNarrowOperands (rt rn rm shift : BitVec 32) : List ThumbOperand :=
  if shift = 0 then [.reg rt,.reg rn,.reg rm] else [.reg rt,.reg rn,.reg rm,.lslShift shift]

theorem withZeroShift_ldrNarrowOperands (rt rn rm shift : BitVec 32) :
    withZeroShift (ldrNarrowOperands rt rn rm shift) =
      [.reg rt,.reg rn,.reg rm,.lslShift shift] := by
  unfold ldrNarrowOperands
  split
  · next hshift =>
      rw [hshift]
      rfl
  · rfl

/-- The narrow form is chosen for a shift by zero only, and does not show it. -/
theorem ldrRegisterForms_shows (rt rm : BitVec 32) {rn : BitVec 32} (hrn : rn.toNat < 15)
    (shift : BitVec 32) :
    Shows .ldr .offset (ldrNarrowOperands rt rn rm shift)
      [.reg rt,.reg rn,.reg rm,.lslShift shift] (ldrRegisterForms .offset rt rn rm shift) := by
  have hmode : ¬ AddressingMode.offset ≠ .offset := by decide
  have hwide : WideForm.Legible ⟨.ldrRT2Lsl,{ rt, rn, rm, lslShiftImm2 := shift }⟩ :=
    ldrRT2Lsl_legible hrn
  unfold ldrRegisterForms ldrNarrowOperands
  rw [if_neg hmode]
  by_cases hshift : shift = 0
  · simp only [hshift,if_true] at hwide ⊢
    exact .consNarrow (.consWide .empty hwide rfl) (NarrowForm.legible rfl _) rfl
  · simp only [hshift,if_false]
    exact .consWide .empty hwide rfl

/-! ## The families -/

def plainMnemonics : List ThumbMnemonic :=
  [.add,.adds,.addw,.bkpt,.blx,.bx,.cmp,.mov,.movs,.movw,.nop,.push,.sub,.subs,.subw,.svc,.udf]

/-- A register offset, shifted or not, with a base other than PC. -/
def LdrRegisterOperands (operands : List ThumbOperand) : Prop :=
  ∃ rt rn rm, rn ≠ 15 ∧ (operands = [.reg rt,.reg rn,.reg rm] ∨
    ∃ shift, operands = [.reg rt,.reg rn,.reg rm,.lslShift shift])

/-- A specification as the editor builds it for these families. -/
structure InFamily (spec : ThumbInstructionSpec) : Prop where
  registers : Registers spec.operands
  condition : spec.condition = .none
  kind : (spec.mnemonic ∈ plainMnemonics ∧ spec.addressingMode = .none) ∨
    (spec.mnemonic = .ldr ∧ spec.addressingMode = .offset ∧ LdrRegisterOperands spec.operands)

theorem forms_show_of_plain {spec : ThumbInstructionSpec} (hregs : Registers spec.operands)
    (hm : spec.mnemonic ∈ plainMnemonics) :
    Shows (shownMnemonic spec.mnemonic spec.operands) .none spec.operands spec.operands
      (forms spec) := by
  simp only [plainMnemonics,List.mem_cons,List.not_mem_nil,or_false] at hm
  unfold forms
  rcases hm with h | h | h | h | h | h | h | h | h | h | h | h | h | h | h | h | h <;> rw [h]
  · exact addForms_shows hregs
  · exact addsForms_shows hregs
  · exact addwForms_shows hregs
  · exact bkptForms_shows spec.operands
  · exact blxForms_shows spec.operands
  · exact bxForms_shows spec.operands
  · exact cmpForms_shows hregs
  · exact movForms_shows hregs
  · exact movsForms_shows hregs
  · exact movwForms_shows
  · exact nopForms_shows spec.operands
  · exact pushForms_shows spec.operands
  · exact subForms_shows hregs
  · exact subsForms_shows hregs
  · exact subwForms_shows hregs
  · exact svcForms_shows spec.operands
  · exact udfForms_shows spec.operands

theorem forms_show_of_ldr {spec : ThumbInstructionSpec} (hregs : Registers spec.operands)
    (hm : spec.mnemonic = .ldr) (hmode : spec.addressingMode = .offset)
    (hops : LdrRegisterOperands spec.operands) :
    ∃ narrowOps wideOps, Shows .ldr .offset narrowOps wideOps (forms spec) ∧
      withZeroShift narrowOps = withZeroShift spec.operands ∧
      withZeroShift wideOps = withZeroShift spec.operands := by
  obtain ⟨rt,rn,rm,hpc,hops⟩ := hops
  have hreg : rt.toNat < 16 ∧ rn.toNat < 16 ∧ rm.toNat < 16 := by
    rcases hops with h | ⟨shift,h⟩ <;> rw [h] at hregs <;>
      exact ⟨hregs rt (by simp),hregs rn (by simp),hregs rm (by simp)⟩
  obtain ⟨shift,hforms,hshift⟩ : ∃ shift,
      ldrOperandForms .offset spec.operands =
        ldrRegisterForms .offset (uint8 rt) (uint8 rn) (uint8 rm) shift ∧
      withZeroShift spec.operands = [.reg rt,.reg rn,.reg rm,.lslShift shift] := by
    rcases hops with h | ⟨shift,h⟩
    · exact ⟨0,by rw [h]; rfl,by rw [h]; rfl⟩
    · exact ⟨shift,by rw [h]; rfl,by rw [h]; rfl⟩
  have hrn : rn.toNat < 15 := by
    have hlt := hreg.2.1
    bv_omega
  have hshow := ldrRegisterForms_shows rt rm hrn shift
  refine ⟨ldrNarrowOperands rt rn rm shift,[.reg rt,.reg rn,.reg rm,.lslShift shift],?_,
    (withZeroShift_ldrNarrowOperands rt rn rm shift).trans hshift.symm,hshift.symm⟩
  unfold forms ldrForms
  rw [hm,hmode]
  dsimp only
  rw [if_neg (by simp),hforms,uint8_of_lt hreg.1,uint8_of_lt hreg.2.1,uint8_of_lt hreg.2.2]
  exact hshow

/-! ## The round trip -/

def ThumbAssembleResult.width : ThumbAssembleResult → ThumbWidthSpecifier
  | .narrowSuccess => .narrow
  | .wideSuccess => .wide
  | _ => .auto

/-- The same operands, except that LDR may gain or lose a shift by zero. -/
def SameOperands (mnemonic : ThumbMnemonic) (shown given : List ThumbOperand) : Prop :=
  if mnemonic = .ldr then withZeroShift shown = withZeroShift given else shown = given

/-- The disassembler shows the specification again, at the width of the result. -/
def ShowsAgain (spec : ThumbInstructionSpec) (result : ThumbAssembleResult)
    (shown : Option ThumbInstructionSpec) : Prop :=
  ∃ s, shown = some s ∧ s.mnemonic = shownMnemonic spec.mnemonic spec.operands ∧
    SameOperands spec.mnemonic s.operands spec.operands ∧ s.width = result.width ∧
    s.condition = spec.condition ∧ s.addressingMode = spec.addressingMode

theorem forms_showAgain {spec : ThumbInstructionSpec} (hf : InFamily spec) :
    (∀ f ∈ (forms spec).narrow, f.Legible ∧ ShowsAgain spec .narrowSuccess f.shown) ∧
      ∀ f ∈ (forms spec).wide, f.Legible ∧ ShowsAgain spec .wideSuccess f.shown := by
  rcases hf.kind with ⟨hm,hmode⟩ | ⟨hm,hmode,hops⟩
  · have hshow := forms_show_of_plain hf.registers hm
    have hsame : SameOperands spec.mnemonic spec.operands spec.operands := by
      unfold SameOperands
      split <;> rfl
    constructor
    · intro f hmem
      obtain ⟨hleg,hshown⟩ := hshow.narrow f hmem
      exact ⟨hleg,_,hshown,rfl,hsame,rfl,hf.condition.symm,hmode.symm⟩
    · intro f hmem
      obtain ⟨hleg,hshown⟩ := hshow.wide f hmem
      exact ⟨hleg,_,hshown,rfl,hsame,rfl,hf.condition.symm,hmode.symm⟩
  · obtain ⟨narrowOps,wideOps,hshow,hnarrow,hwide⟩ := forms_show_of_ldr hf.registers hm hmode hops
    have hmn : ThumbMnemonic.ldr = shownMnemonic spec.mnemonic spec.operands := by
      rw [hm]
      rfl
    constructor
    · intro f hmem
      obtain ⟨hleg,hshown⟩ := hshow.narrow f hmem
      refine ⟨hleg,_,hshown,hmn,?_,rfl,hf.condition.symm,hmode.symm⟩
      rwa [SameOperands,if_pos hm]
    · intro f hmem
      obtain ⟨hleg,hshown⟩ := hshow.wide f hmem
      refine ⟨hleg,_,hshown,hmn,?_,rfl,hf.condition.symm,hmode.symm⟩
      rwa [SameOperands,if_pos hm]

/-- Assembling and disassembling is the identity on the families, whatever the
width specifier and the memory. -/
theorem thumbAssemble_roundTrip {into : Address} {spec : ThumbInstructionSpec} {m : Memory}
    (hf : InFamily spec) (hs : (thumbAssemble into spec m).1.succeeds = true) :
    ShowsAgain spec (thumbAssemble into spec m).1
      (thumbDisassemble (load32 (thumbAssemble into spec m).2 into)) := by
  obtain ⟨hnarrow,hwide⟩ := forms_showAgain hf
  exact thumbDisassemble_thumbAssemble (P := ShowsAgain spec)
    (fun f hmem => hnarrow f (mem_restrict_narrow hmem))
    (fun f hmem => hwide f (mem_restrict_wide hmem)) hs

/-- `CMP R9, R2` into zeroed memory, where the first of two narrow encodings refuses. -/
theorem thumbAssemble_roundTrip_cmp :
    ShowsAgain { mnemonic := .cmp, operands := [.reg 9,.reg 2] }
      (thumbAssemble 0x20000000 { mnemonic := .cmp, operands := [.reg 9,.reg 2] } fun _ => 0).1
      (thumbDisassemble (load32 (thumbAssemble 0x20000000
        { mnemonic := .cmp, operands := [.reg 9,.reg 2] } fun _ => 0).2 0x20000000)) :=
  thumbAssemble_roundTrip
    { registers := by
        intro r hr
        simp only [List.mem_cons,ThumbOperand.reg.injEq,List.not_mem_nil,or_false] at hr
        rcases hr with rfl | rfl <;> decide
      condition := rfl
      kind := Or.inl ⟨by decide,rfl⟩ }
    (by decide)

end TwMonitor.Thumb
