import TwMonitor.DisassembledWords
import TwMonitor.RegisterList

/-!
# Reassembling wide instructions

The recognisers of these encodings test every bit that is not part of a field,
and the decoders return every field. Encoding what was decoded therefore gives
the word back, and the assembler, told to stay wide, chooses the encoding that
the word came from.
-/
namespace TwMonitor.Thumb
open BitLayout BitPattern ByteMemory WordCodec T32

/-- Every word of the encoding is the word of its own fields. -/
def Lossless (e : WideEncoding) : Prop :=
  ∀ w, e.recognise w = true → WideForm.word ⟨e,e.decode w⟩ = some w

theorem lossless_of {e : WideEncoding} (he : e.exact = true)
    (hg : ∀ w, guards (e.encode (e.decode w)).steps = true)
    (hread : ∀ w, Reads w (pieces (e.encode (e.decode w)).steps)) : Lossless e :=
  fun w hw => Codec.word_decode le_rfl he hw (hg w) (hread w)

/-! ## Encodings without a displacement -/

theorem nopT2_lossless : Lossless .nopT2 :=
  lossless_of rfl (fun _ => rfl) (fun _ => trivial)

theorem udfT2_lossless : Lossless .udfT2 := by
  refine lossless_of rfl (fun w => ?_) (fun w => ?_)
  · have hfits : fits (decodeUdfT2 w).imm16 16 = true :=
      fits_or (fits_extract_shiftLeft w 0 (by omega)) (fits_extract_of_le w 16 (by omega))
    exact (Bool.and_eq_true _ _).mpr ⟨hfits,rfl⟩
  · simp [WideEncoding.udfT2,encodeUdfT2,decodeUdfT2,pieces,Reads]

theorem movwIT3_lossless : Lossless .movwIT3 := by
  refine lossless_of rfl (fun w => ?_) (fun w => ?_)
  · have hfits : fits (decodeMovwIT3 w).imm16 16 = true :=
      fits_or (fits_or (fits_or (fits_extract_shiftLeft w 0 (by omega))
        (fits_extract_shiftLeft w 10 (by omega))) (fits_extract_shiftLeft w 28 (by omega)))
        (fits_extract_of_le w 16 (by omega))
    have hrd : fits (decodeMovwIT3 w).rd 4 = true := fits_extract w 24 4
    simp [WideEncoding.movwIT3,encodeMovwIT3,guards,hfits,hrd]
  · simp [WideEncoding.movwIT3,encodeMovwIT3,decodeMovwIT3,pieces,Reads]

theorem movRT3OptS_lossless : Lossless .movRT3OptS := by
  refine lossless_of rfl (fun w => ?_) (fun w => ?_)
  · simp [WideEncoding.movRT3OptS,encodeMovRT3OptS,decodeMovRT3OptS,guards,fits_extract]
  · simp [WideEncoding.movRT3OptS,encodeMovRT3OptS,decodeMovRT3OptS,pieces,Reads]

theorem fits_imm12 (w : BitVec 32) :
    fits (extract 32 w 10 1 <<< 11 ||| extract 32 w 28 3 <<< 8 ||| extract 32 w 16 8) 12 = true :=
  fits_or (fits_or (fits_extract_shiftLeft w 10 (by omega))
    (fits_extract_shiftLeft w 28 (by omega)))
    (fits_extract_of_le w 16 (by omega))

theorem addwIT4_lossless : Lossless .addwIT4 := by
  refine lossless_of rfl (fun w => ?_) (fun w => ?_)
  · simp [WideEncoding.addwIT4,encodeAddwIT4,decodeAddwIT4,guards,fits_extract,fits_imm12]
  · simp [WideEncoding.addwIT4,encodeAddwIT4,decodeAddwIT4,pieces,Reads]

theorem subwIT4_lossless : Lossless .subwIT4 := by
  refine lossless_of rfl (fun w => ?_) (fun w => ?_)
  · simp [WideEncoding.subwIT4,encodeSubwIT4,decodeSubwIT4,guards,fits_extract,fits_imm12]
  · simp [WideEncoding.subwIT4,encodeSubwIT4,decodeSubwIT4,pieces,Reads]

theorem popT2_lossless : Lossless .popT2 := by
  refine lossless_of rfl (fun w => ?_) (fun w => ⟨rfl,rfl,rfl,trivial⟩)
  simp [WideEncoding.popT2,encodePopT2,decodePopT2,guards,fits_extract]

theorem pushT2_lossless : Lossless .pushT2 := by
  refine lossless_of rfl (fun w => ?_) (fun w => ⟨rfl,rfl,trivial⟩)
  simp [WideEncoding.pushT2,encodePushT2,decodePushT2,guards,fits_extract]

theorem pushT3_lossless : Lossless .pushT3 := by
  refine lossless_of rfl (fun w => ?_) (fun w => ⟨rfl,trivial⟩)
  simp [WideEncoding.pushT3,encodePushT3,decodePushT3,guards,fits_extract]

/-! ## Branches -/

theorem bCondT3Noit_lossless : Lossless .bCondT3Noit := by
  refine lossless_of rfl (fun w => ?_) (fun w => ?_)
  · have hfits : fits (extract 32 w 10 1 <<< 19 ||| extract 32 w 27 1 <<< 18 |||
        extract 32 w 29 1 <<< 17 ||| extract 32 w 0 6 <<< 11 ||| extract 32 w 16 11) 20 = true :=
      fits_or (fits_or (fits_or (fits_or (fits_extract_shiftLeft w 10 (by omega))
        (fits_extract_shiftLeft w 27 (by omega))) (fits_extract_shiftLeft w 29 (by omega)))
        (fits_extract_shiftLeft w 0 (by omega))) (fits_extract_of_le w 16 (by omega))
    obtain ⟨heven,hcheck⟩ := decodedBranch_guard (by omega : 19 < 31) hfits
    have hcond : fits (decodeBCondT3Noit w).cond 4 = true := fits_extract w 6 4
    simp only [WideEncoding.bCondT3Noit,encodeBCondT3Noit,guards,Bool.and_eq_true,beq_iff_eq]
    exact ⟨heven,hcheck,hcond,trivial⟩
  · simp [WideEncoding.bCondT3Noit,encodeBCondT3Noit,decodeBCondT3Noit,pieces,Reads]

/-- Scrambling the unscrambled bit again. -/
theorem rescramble (w : BitVec 32) (i : ℕ) (s : BitVec 32) :
    extract 32 (~~~(extract 32 (~~~(extract 32 w i 1 ^^^ s)) 0 1) ^^^ s) 0 1 =
      extract 32 w i 1 := by
  rw [← BitVec.not_xor_left,@BitVec.not_xor_left 32 (extract 32 w i 1) s,unscramble]

theorem fits_simm25 (w i₁ i₂ : BitVec 32) :
    fits (extract 32 w 10 1 <<< 23 ||| extract 32 i₁ 0 1 <<< 22 ||| extract 32 i₂ 0 1 <<< 21 |||
      extract 32 w 0 10 <<< 11 ||| extract 32 w 16 11) 24 = true :=
  fits_or (fits_or (fits_or (fits_or (fits_extract_shiftLeft w 10 (by omega))
    (fits_extract_shiftLeft i₁ 0 (by omega))) (fits_extract_shiftLeft i₂ 0 (by omega)))
    (fits_extract_shiftLeft w 0 (by omega))) (fits_extract_of_le w 16 (by omega))

theorem bT4_lossless : Lossless .bT4 := by
  refine lossless_of rfl (fun w => ?_) (fun w => ?_)
  · obtain ⟨heven,hcheck⟩ := decodedBranch_guard (by omega : 23 < 31) (fits_simm25 w _ _)
    simp only [WideEncoding.bT4,encodeBT4,guards,Bool.and_eq_true,beq_iff_eq]
    exact ⟨heven,hcheck,trivial⟩
  · simp [WideEncoding.bT4,encodeBT4,decodeBT4,pieces,Reads,rescramble]

theorem blT1_lossless : Lossless .blT1 := by
  refine lossless_of rfl (fun w => ?_) (fun w => ?_)
  · obtain ⟨heven,hcheck⟩ := decodedBranch_guard (by omega : 23 < 31) (fits_simm25 w _ _)
    simp only [WideEncoding.blT1,encodeBlT1,guards,Bool.and_eq_true,beq_iff_eq]
    exact ⟨heven,hcheck,trivial⟩
  · simp [WideEncoding.blT1,encodeBlT1,decodeBlT1,pieces,Reads,rescramble]

/-! ## The candidates of a disassembled specification -/

/-- The only candidate of the specification is a form of the word itself. -/
def Rewrites (w : BitVec 32) (s : ThumbInstructionSpec) : Prop :=
  ∃ f : WideForm, candidates s = { wide := [f] } ∧ f.word = some w

theorem Lossless.rewrites {e : WideEncoding} (he : Lossless e) {w : BitVec 32}
    (hm : e.recognise w = true) {s : ThumbInstructionSpec}
    (hs : candidates s = { wide := [⟨e,e.decode w⟩] }) : Rewrites w s :=
  ⟨_,hs,he w hm⟩

theorem Rewrites.thumbAssemble {w : BitVec 32} {s : ThumbInstructionSpec} (h : Rewrites w s)
    (into : Address) (m : Memory) :
    thumbAssemble into s m = (.wideSuccess,store32 m into w) := by
  obtain ⟨f,hf,hword⟩ := h
  have hn : (candidates s).narrowWord = none := by rw [hf]; rfl
  have hw : (candidates s).wideWord = some w := by
    rw [hf,Choices.wideWord,List.findSome?_cons,hword]
  rcases thumbAssemble_words into s m with ⟨h,hh,_⟩ | ⟨w',_,hw',he⟩ | ⟨_,hnone,_⟩
  · simp [hn] at hh
  · rw [he,Option.some.inj (hw'.symm.trans hw)]
  · simp [hw] at hnone

theorem thumbAssemble_of_empty {s : ThumbInstructionSpec} (h : candidates s = {})
    (into : Address) (m : Memory) :
    ∃ r, ThumbAssembleResult.succeeds r = false ∧ thumbAssemble into s m = (r,m) := by
  rcases thumbAssemble_words into s m with ⟨w,hw,_⟩ | ⟨w,_,hw,_⟩ | ⟨_,_,hr⟩
  · simp [h,Choices.narrowWord] at hw
  · simp [h,Choices.wideWord] at hw
  · exact hr

/-- ADDW and SUBW do not take SP or PC as their base, nor does MOVW take one of
them as its destination; the disassembler shows them all the same. -/
def Refused (s : ThumbInstructionSpec) : Prop :=
  ((s.mnemonic = .addw ∨ s.mnemonic = .subw) ∧ ∃ rd rn imm,
    s.operands = [.reg rd,.reg rn,.immediate imm] ∧ (rn = 13 ∨ rn = 15)) ∨
  s.mnemonic = .movw ∧ ∃ rd imm, s.operands = [.reg rd,.immediate imm] ∧ (rd = 13 ∨ rd = 15)

theorem uint8_extract (w : BitVec 32) (pos : ℕ) : uint8 (extract 32 w pos 4) = extract 32 w pos 4 :=
  uint8_of_lt (Nat.lt_succ_of_le (extract_le_fifteen w pos le_rfl))

/-! Told to stay wide, the assembler has a single form for each of these. -/

theorem candidates_movw (rd imm : BitVec 32) :
    candidates { mnemonic := .movw, width := .wide, operands := [.reg rd,.immediate imm] } =
      if rd = 15 ∨ rd = 13 then {} else { wide := [⟨.movwIT3,{ rd, imm16 := imm }⟩] } := by
  by_cases hrd : rd = 15 ∨ rd = 13
  · rw [if_pos hrd]
    exact congrArg (Choices.restrict · .wide) (if_pos hrd)
  · rw [if_neg hrd]
    exact congrArg (Choices.restrict · .wide) (if_neg hrd)

theorem candidates_mov {setflags rd rm : BitVec 32} (hset : fits setflags 1 = true)
    (hrd : uint8 rd = rd) (hrm : uint8 rm = rm) :
    candidates
      { mnemonic := if setflags ≠ 0 then .movs else .mov, width := .wide,
        operands := [.reg rd,.reg rm] } =
      { wide := [⟨.movRT3OptS,{ setflags, rd, rm }⟩] } := by
  have hbit := boolWord_bit hset
  cases hb : setflags.getLsbD 0 with
  | false =>
      obtain rfl : 0 = setflags := by rwa [hb] at hbit
      change Choices.restrict (movForms [.reg rd,.reg rm]) .wide = _
      rw [movForms,hrd,hrm]
      rfl
  | true =>
      obtain rfl : 1 = setflags := by rwa [hb] at hbit
      change Choices.restrict (movsForms [.reg rd,.reg rm]) .wide = _
      rw [movsForms,hrd,hrm]
      rfl

theorem candidates_b (simm : BitVec 32) :
    candidates { mnemonic := .b, width := .wide, operands := [.signedImmediate (simm + 4)] } =
      { wide := [⟨.bT4,{ simm25 := simm }⟩] } := by
  change Choices.restrict (bForms .none [.signedImmediate (simm + 4)]) .wide = _
  rw [bForms,if_pos rfl,BitVec.add_sub_cancel]
  rfl

theorem candidates_bCond {cond : BitVec 32} (hcond : cond.toNat ≤ 15) (simm : BitVec 32) :
    candidates
      { mnemonic := .b, condition := cond + 1, width := .wide,
        operands := [.signedImmediate (simm + 4)] } =
      { wide := [⟨.bCondT3Noit,{ cond, simm21 := simm }⟩] } := by
  have hne : cond + 1 ≠ ThumbCondition.none := by
    intro h
    have hz : cond + 1 = 0 := h
    bv_omega
  change Choices.restrict (bForms (cond + 1) [.signedImmediate (simm + 4)]) .wide = _
  rw [bForms,if_neg hne,BitVec.add_sub_cancel,BitVec.add_sub_cancel]
  rfl

theorem candidates_bl (simm : BitVec 32) :
    candidates { mnemonic := .bl, width := .wide, operands := [.signedImmediate (simm + 4)] } =
      { wide := [⟨.blT1,{ simm25 := simm }⟩] } := by
  change Choices.restrict (blForms [.signedImmediate (simm + 4)]) .wide = _
  rw [blForms,BitVec.add_sub_cancel]
  rfl

theorem candidates_addw {rd rn : BitVec 32} (hrd : uint8 rd = rd) (hrn : uint8 rn = rn)
    (imm : BitVec 32) :
    candidates { mnemonic := .addw, width := .wide, operands := [.reg rd,.reg rn,.immediate imm] } =
      if rn = 13 ∨ rn = 15 then {} else { wide := [⟨.addwIT4,{ rd, rn, imm12 := imm }⟩] } := by
  change Choices.restrict (addwForms [.reg rd,.reg rn,.immediate imm]) .wide = _
  rw [addwForms,hrd,hrn]
  split <;> rfl

theorem candidates_subw {rd rn : BitVec 32} (hrd : uint8 rd = rd) (hrn : uint8 rn = rn)
    (imm : BitVec 32) :
    candidates { mnemonic := .subw, width := .wide, operands := [.reg rd,.reg rn,.immediate imm] } =
      if rn = 13 ∨ rn = 15 then {} else { wide := [⟨.subwIT4,{ rd, rn, imm12 := imm }⟩] } := by
  change Choices.restrict (subwForms [.reg rd,.reg rn,.immediate imm]) .wide = _
  rw [subwForms,hrd,hrn]
  split <;> rfl

theorem candidates_pop {regs lr pc : BitVec 32} (hregs : fits regs 13 = true)
    (hlr : fits lr 1 = true) (hpc : fits pc 1 = true)
    (hcount : 2 ≤ thumbCountRegisterList (joinList regs lr pc)) :
    candidates { mnemonic := .pop, width := .wide, operands := [.reglist (joinList regs lr pc)] } =
      { wide := [⟨.popT2,{ regs, lr, pc }⟩] } := by
  have h₁ : ((joinList regs lr pc &&& ~~~(1#16 <<< 14 ||| 1#16 <<< 15)).setWidth 32) = regs :=
    joinList_regs hregs
  have h₂ : boolWord ((joinList regs lr pc).getLsbD 14) = lr := joinList_lr hregs hlr
  have h₃ := joinList_pc hregs hlr hpc
  have hsome : thumbCountRegisterList (joinList regs lr pc) ≠ 0 := by omega
  have hmany : thumbCountRegisterList (joinList regs lr pc) ≠ 1 := by omega
  change Choices.restrict (popForms [.reglist (joinList regs lr pc)]) .wide = _
  rw [popForms,if_neg hsome,if_neg hmany,h₁,h₂,h₃]
  rfl

theorem candidates_push {regs lr : BitVec 32} (hregs : fits regs 13 = true)
    (hlr : fits lr 1 = true) (hcount : 2 ≤ thumbCountRegisterList (joinList regs lr 0)) :
    candidates { mnemonic := .push, width := .wide, operands := [.reglist (joinList regs lr 0)] } =
      { wide := [⟨.pushT2,{ regs, lr }⟩] } := by
  have h₁ := joinList_regs_push hregs hlr
  have h₂ : boolWord ((joinList regs lr 0).getLsbD 14) = lr := joinList_lr hregs hlr
  have hsome : thumbCountRegisterList (joinList regs lr 0) ≠ 0 := by omega
  have hmany : thumbCountRegisterList (joinList regs lr 0) ≠ 1 := by omega
  change Choices.restrict (pushForms [.reglist (joinList regs lr 0)]) .wide = _
  rw [pushForms,if_neg hsome,if_neg hmany,h₁,h₂]
  rfl

theorem candidates_push_single {rt : BitVec 32} (hrt : rt.toNat < 16) :
    candidates
      { mnemonic := .push, width := .wide,
        operands := [.reglist ((1#32 <<< rt.toNat).setWidth 16)] } =
      { wide := [⟨.pushT3,{ rt }⟩] } := by
  have hcount := thumbCountRegisterList_single hrt
  have hsome : thumbCountRegisterList ((1#32 <<< rt.toNat).setWidth 16) ≠ 0 := by omega
  change Choices.restrict (pushForms [.reglist ((1#32 <<< rt.toNat).setWidth 16)]) .wide = _
  rw [pushForms,if_neg hsome,if_pos hcount,push_joined hrt]
  rfl

/-! ## Writing back what was disassembled -/

/-- What is said about a disassembled word: all instructions but the loads, a
PUSH of one register only in the form that is made for it, a POP only of
several. -/
def Reassembled (w : BitVec 32) (s : ThumbInstructionSpec) : Prop :=
  s.mnemonic ∈ [.nop,.mov,.movs,.movw,.b,.bl,.udf,.addw,.subw] ∨
  (s.mnemonic = .push ∧ matchPushT3 w = true) ∨
  (s.mnemonic = .push ∨ s.mnemonic = .pop) ∧
    ∃ l, s.operands = [.reglist l] ∧ 2 ≤ thumbCountRegisterList l

/-- The word is written back, or there is nothing to write. -/
def Settled (w : BitVec 32) (s : ThumbInstructionSpec) : Prop :=
  Rewrites w s ∨ Refused s ∧ candidates s = {}

section
variable {w : BitVec 32} {s : ThumbInstructionSpec}

theorem Reassembled.mnemonic_ne (h : Reassembled w s) :
    s.mnemonic ≠ .ldr ∧ s.mnemonic ≠ .unknown := by
  rcases h with h | ⟨h,_⟩ | ⟨h | h,_⟩
  · constructor <;> (intro he; rw [he] at h; simp at h)
  · simp [h]
  · simp [h]
  · simp [h]

/-- An encoding whose operands are refused in some cases. -/
theorem Lossless.settled {e : WideEncoding} (he : Lossless e) (hm : e.recognise w = true)
    {refused : Prop} [Decidable refused]
    (hs : candidates s = if refused then {} else { wide := [⟨e,e.decode w⟩] })
    (hrefused : refused → Refused s) : Settled w s := by
  by_cases h : refused
  · rw [if_pos h] at hs
    exact Or.inr ⟨hrefused h,hs⟩
  · rw [if_neg h] at hs
    exact Or.inl (he.rewrites hm hs)

theorem udfT2_settled (hm : matchUdfT2 w = true)
    (hs : WideEncoding.udfT2.read (decodeUdfT2 w) = some s) : Settled w s := by
  obtain rfl := Option.some.inj hs
  exact Or.inl (udfT2_lossless.rewrites hm rfl)

theorem nopT2_settled (hm : matchNopT2 w = true)
    (hs : WideEncoding.nopT2.read () = some s) : Settled w s := by
  obtain rfl := Option.some.inj hs
  exact Or.inl (nopT2_lossless.rewrites hm rfl)

theorem movwIT3_settled (hm : matchMovwIT3 w = true)
    (hs : WideEncoding.movwIT3.read (decodeMovwIT3 w) = some s) : Settled w s := by
  obtain rfl := Option.some.inj hs
  have hc := candidates_movw (decodeMovwIT3 w).rd (decodeMovwIT3 w).imm16
  exact movwIT3_lossless.settled hm hc fun hrd => Or.inr ⟨rfl,_,_,rfl,hrd.symm⟩

theorem movRT3OptS_settled (hm : matchMovRT3OptS w = true)
    (hs : WideEncoding.movRT3OptS.read (decodeMovRT3OptS w) = some s) : Settled w s := by
  obtain rfl := Option.some.inj hs
  have hset : fits (decodeMovRT3OptS w).setflags 1 = true := fits_extract w 4 1
  have hrd : uint8 (decodeMovRT3OptS w).rd = (decodeMovRT3OptS w).rd := uint8_extract w 24
  have hrm : uint8 (decodeMovRT3OptS w).rm = (decodeMovRT3OptS w).rm := uint8_extract w 16
  exact Or.inl (movRT3OptS_lossless.rewrites hm (candidates_mov hset hrd hrm))

theorem bT4_settled (hm : matchBT4 w = true)
    (hs : WideEncoding.bT4.read (decodeBT4 w) = some s) : Settled w s := by
  obtain rfl := Option.some.inj hs
  exact Or.inl (bT4_lossless.rewrites hm (candidates_b (decodeBT4 w).simm25))

theorem bCondT3Noit_settled (hm : matchBCondT3Noit w = true)
    (hs : WideEncoding.bCondT3Noit.read (decodeBCondT3Noit w) = some s) : Settled w s := by
  obtain rfl := Option.some.inj hs
  have hcond : (decodeBCondT3Noit w).cond.toNat ≤ 15 := extract_le_fifteen w 6 le_rfl
  exact Or.inl (bCondT3Noit_lossless.rewrites hm
    (candidates_bCond hcond (decodeBCondT3Noit w).simm21))

theorem blT1_settled (hm : matchBlT1 w = true)
    (hs : WideEncoding.blT1.read (decodeBlT1 w) = some s) : Settled w s := by
  obtain rfl := Option.some.inj hs
  exact Or.inl (blT1_lossless.rewrites hm (candidates_bl (decodeBlT1 w).simm25))

theorem addwIT4_settled (hm : matchAddwIT4 w = true)
    (hs : WideEncoding.addwIT4.read (decodeAddwIT4 w) = some s) : Settled w s := by
  obtain rfl := Option.some.inj hs
  have hrd : uint8 (decodeAddwIT4 w).rd = (decodeAddwIT4 w).rd := uint8_extract w 24
  have hrn : uint8 (decodeAddwIT4 w).rn = (decodeAddwIT4 w).rn := uint8_extract w 0
  have hc := candidates_addw hrd hrn (decodeAddwIT4 w).imm12
  exact addwIT4_lossless.settled hm hc fun hbase => Or.inl ⟨Or.inl rfl,_,_,_,rfl,hbase⟩

theorem subwIT4_settled (hm : matchSubwIT4 w = true)
    (hs : WideEncoding.subwIT4.read (decodeSubwIT4 w) = some s) : Settled w s := by
  obtain rfl := Option.some.inj hs
  have hrd : uint8 (decodeSubwIT4 w).rd = (decodeSubwIT4 w).rd := uint8_extract w 24
  have hrn : uint8 (decodeSubwIT4 w).rn = (decodeSubwIT4 w).rn := uint8_extract w 0
  have hc := candidates_subw hrd hrn (decodeSubwIT4 w).imm12
  exact subwIT4_lossless.settled hm hc fun hbase => Or.inl ⟨Or.inr rfl,_,_,_,rfl,hbase⟩

/-! A list comes back when it has two registers, and a PUSH of one register
when its own form was used. -/

theorem Reassembled.list (h : Reassembled w s) {l : BitVec 16} (hl : s.operands = [.reglist l])
    (hmnemonic : s.mnemonic = .push ∨ s.mnemonic = .pop) (hw : matchPushT3 w = false) :
    2 ≤ thumbCountRegisterList l := by
  rcases h with h | ⟨_,h⟩ | ⟨_,l',hl',hcount⟩
  · rcases hmnemonic with hm | hm <;> (rw [hm] at h; simp at h)
  · rw [hw] at h
    exact absurd h Bool.false_ne_true
  · rw [hl] at hl'
    obtain rfl : l = l' := by simpa using hl'
    exact hcount

theorem matchPushT3_of_conflicts {e : WideEncoding}
    (hconflicts : (e.recognise.pattern).conflicts matchPushT3.pattern = true)
    (hm : e.recognise w = true) : matchPushT3 w = false := by
  rw [← Bool.not_eq_true]
  intro h
  exact Pattern.not_matches_of_conflicts hconflicts ((e.recognise.run_iff w).mp hm)
    ((matchPushT3.run_iff w).mp h)

theorem popT2_settled (hm : matchPopT2 w = true)
    (hs : WideEncoding.popT2.read (decodePopT2 w) = some s) (hk : Reassembled w s) :
    Settled w s := by
  obtain rfl := Option.some.inj hs
  have hregs : fits (decodePopT2 w).regs 13 = true := fits_extract w 16 13
  have hlr : fits (decodePopT2 w).lr 1 = true := fits_extract w 30 1
  have hpc : fits (decodePopT2 w).pc 1 = true := fits_extract w 31 1
  have hcount := hk.list rfl (Or.inr rfl) (matchPushT3_of_conflicts (e := .popT2) rfl hm)
  exact Or.inl (popT2_lossless.rewrites hm (candidates_pop hregs hlr hpc hcount))

theorem popT3_settled (hm : matchPopT3 w = true)
    (hs : WideEncoding.popT3.read (decodePopT3 w) = some s) (hk : Reassembled w s) :
    Settled w s := by
  obtain rfl := Option.some.inj hs
  have hrt : (decodePopT3 w).rt.toNat < 16 := Nat.lt_succ_of_le (extract_le_fifteen w 28 le_rfl)
  have hcount := hk.list rfl (Or.inr rfl) (matchPushT3_of_conflicts (e := .popT3) rfl hm)
  rw [thumbCountRegisterList_single hrt] at hcount
  omega

theorem pushT2_settled (hm : matchPushT2 w = true)
    (hs : WideEncoding.pushT2.read (decodePushT2 w) = some s) (hk : Reassembled w s) :
    Settled w s := by
  have hregs : fits (decodePushT2 w).regs 13 = true := fits_extract w 16 13
  have hlr : fits (decodePushT2 w).lr 1 = true := fits_extract w 30 1
  have hjoin : ((decodePushT2 w).regs ||| (decodePushT2 w).lr <<< 14).setWidth 16 =
      joinList (decodePushT2 w).regs (decodePushT2 w).lr 0 := by
    simp [joinList]
  obtain rfl := Option.some.inj hs
  have hcount := hk.list rfl (Or.inl rfl) (matchPushT3_of_conflicts (e := .pushT2) rfl hm)
  rw [hjoin] at hcount ⊢
  exact Or.inl (pushT2_lossless.rewrites hm (candidates_push hregs hlr hcount))

theorem pushT3_settled (hm : matchPushT3 w = true)
    (hs : WideEncoding.pushT3.read (decodePushT3 w) = some s) : Settled w s := by
  obtain rfl := Option.some.inj hs
  have hrt : (decodePushT3 w).rt.toNat < 16 := Nat.lt_succ_of_le (extract_le_fifteen w 28 le_rfl)
  exact Or.inl (pushT3_lossless.rewrites hm (candidates_push_single hrt))

theorem wide_settled {r : Rule 32 32 _} (hr : r ∈ WideEncoding.order) (hm : r.recognise w = true)
    (hs : r.read (r.decode w) = some s) (hk : Reassembled w s) : Settled w s := by
  have hne := hk.mnemonic_ne.1
  revert r
  unfold WideEncoding.order
  simp only [List.forall_mem_cons,List.not_mem_nil,false_imp_iff,implies_true,and_true]
  refine ⟨?_,?_,?_,?_,?_,?_,?_,?_,?_,?_,?_,?_,?_,?_,?_,?_,?_⟩
  · exact udfT2_settled
  · exact nopT2_settled
  · exact movwIT3_settled
  · exact movRT3OptS_settled
  · exact bT4_settled
  · exact bCondT3Noit_settled
  · exact fun _ hs => absurd (by rw [← Option.some.inj hs]) hne
  · intro _ hs
    obtain ⟨mode,_,he⟩ := Option.bind_eq_some_iff.mp hs
    exact absurd (by rw [← Option.some.inj he]) hne
  · exact fun _ hs => absurd (by rw [← Option.some.inj hs]) hne
  · exact fun _ hs => absurd (by rw [← Option.some.inj hs]) hne
  · exact blT1_settled
  · exact fun hm hs => popT2_settled hm hs hk
  · exact fun hm hs => popT3_settled hm hs hk
  · exact fun hm hs => pushT2_settled hm hs hk
  · exact pushT3_settled
  · exact addwIT4_settled
  · exact subwIT4_settled

theorem thumbDisassembleWide_settled (hs : thumbDisassembleWide w = some s) (hk : Reassembled w s) :
    Settled w s := by
  rw [thumbDisassembleWide_eq,Rule.decodeFirst] at hs
  rcases firstMatch_cases (fun r => r.recognise) (fun r w => r.read (r.decode w))
    (some { width := .wide }) WideEncoding.order w with ⟨r,hr,hm,he⟩ | he
  · exact wide_settled hr hm (he.symm.trans hs) hk
  · have hunknown : s.mnemonic = .unknown := by rw [← Option.some.inj (he.symm.trans hs)]
    exact absurd hunknown hk.mnemonic_ne.2

end

/-- Decoding loses no bits: assembling what was disassembled writes the word
back, unless the assembler refuses its operands. -/
theorem thumbAssemble_thumbDisassemble {w : ThumbT} {s : ThumbInstructionSpec}
    (hw : thumbIsWideInstruction w = true) (hs : thumbDisassemble w = some s) (hk : Reassembled w s)
    (into : Address) (m : Memory) :
    thumbAssemble into s m = (.wideSuccess,store32 m into w) ∨
    Refused s ∧ ∃ r, ThumbAssembleResult.succeeds r = false ∧ thumbAssemble into s m = (r,m) := by
  rw [thumbDisassemble,hw,if_pos rfl] at hs
  rcases thumbDisassembleWide_settled hs hk with h | ⟨hr,hempty⟩
  · exact Or.inl (h.thumbAssemble into m)
  · exact Or.inr ⟨hr,thumbAssemble_of_empty hempty into m⟩

/-- BNE.W to itself. -/
theorem thumbAssemble_thumbDisassemble_bne :
    thumbAssemble 0x20000000
      { mnemonic := .b, condition := .ne, width := .wide, operands := [.signedImmediate 0] }
      (fun _ => 0) = (.wideSuccess,store32 (fun _ => 0) 0x20000000 0xAFFEF47F) := by
  have hs : thumbDisassemble 0xAFFEF47F =
      some { mnemonic := .b, condition := .ne, width := .wide, operands := [.signedImmediate 0] } :=
    by
    decide
  have hb := thumbAssemble_thumbDisassemble (by decide) hs (Or.inl (by decide)) 0x20000000
    (fun _ => 0)
  exact hb.resolve_right (by simp [Refused])

end TwMonitor.Thumb
