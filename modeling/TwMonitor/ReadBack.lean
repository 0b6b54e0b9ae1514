import TwMonitor.AssemblerRefinement

/-!
# Reading assembled instructions back

A form is legible when the disassembler shows the fields that the form stores.
For almost every encoding this follows from its pattern alone. Four encodings
share words with an earlier one; they are legible when a field that tells them
apart keeps away from the values of the other.
-/
namespace TwMonitor.Thumb
open BitLayout BitPattern ByteMemory WordCodec T32

/-- The specification that the stored fields stand for. -/
def NarrowForm.shown (f : NarrowForm) : Option ThumbInstructionSpec := f.1.read (f.1.stored f.2)

def WideForm.shown (f : WideForm) : Option ThumbInstructionSpec := f.1.read (f.1.stored f.2)

def NarrowForm.Legible (f : NarrowForm) : Prop :=
  ∀ h, f.word = some h → ∀ ins, ThumbT.narrow ins = h → thumbDisassemble ins = f.shown

def WideForm.Legible (f : WideForm) : Prop :=
  ∀ w, f.word = some w → thumbDisassemble w = f.shown

theorem NarrowForm.legible {e : NarrowEncoding}
    (he : resolve (fun r => r.recognise) e.pattern NarrowEncoding.order = some e.toRule)
    (parts : e.Parts) : NarrowForm.Legible ⟨e,parts⟩ :=
  fun _ hword _ hins => thumbDisassemble_narrow he hword hins

theorem WideForm.legible {e : WideEncoding}
    (he : resolve (fun r => r.recognise) e.pattern WideEncoding.order = some e.toRule)
    (parts : e.Parts) : WideForm.Legible ⟨e,parts⟩ :=
  fun _ hword => thumbDisassemble_wide he hword

/-! ## Forms that fit -/

theorem NarrowForm.fits_iff {f : NarrowForm} {accepted : Prop}
    (hg : guards (f.1.encode f.2).steps = true ↔ accepted) : f.word.isSome = true ↔ accepted := by
  rw [← hg]
  exact Bool.eq_iff_iff.mp (Packing.word_isSome _)

theorem WideForm.fits_iff {f : WideForm} {accepted : Prop}
    (hg : guards (f.1.encode f.2).steps = true ↔ accepted) : f.word.isSome = true ↔ accepted := by
  rw [← hg]
  exact Bool.eq_iff_iff.mp (Packing.word_isSome _)

theorem field_iff (a : BitVec 32) (i : ℕ) : (fits a i && true) = true ↔ a.toNat < 2 ^ i := by
  rw [Bool.and_true,fits_iff_toNat]

theorem fields_two_iff (a b : BitVec 32) (i j : ℕ) :
    (fits a i && (fits b j && true)) = true ↔ a.toNat < 2 ^ i ∧ b.toNat < 2 ^ j := by
  simp only [Bool.and_eq_true,fits_iff_toNat,and_true]

theorem fields_three_iff (a b c : BitVec 32) (i j k : ℕ) :
    (fits a i && (fits b j && (fits c k && true))) = true ↔
      a.toNat < 2 ^ i ∧ b.toNat < 2 ^ j ∧ c.toNat < 2 ^ k := by
  simp only [Bool.and_eq_true,fits_iff_toNat,and_true]

/-! ## Forms that need a look at their fields -/

theorem eq_of_getLsbD_one_shiftLeft {n i j : ℕ} (h : (1#n <<< i).getLsbD j = true) : j = i := by
  rw [BitVec.getLsbD_shiftLeft,BitVec.getLsbD_one] at h
  simp only [Bool.and_eq_true,decide_eq_true_eq,Bool.not_eq_true',decide_eq_false_iff_not] at h
  omega

/-- The pattern that asks for one more zero bit. -/
def withZero {n : ℕ} (p : Pattern n) (i : ℕ) : Pattern n := p.inter ⟨0,1#n <<< i⟩

theorem matches_withZero {n : ℕ} {p : Pattern n} {w : BitVec n} (hp : p.Matches w) {i : ℕ}
    (hi : w.getLsbD i = false) : (withZero p i).Matches w := by
  refine Pattern.matches_inter.mpr ⟨hp,fun j => ⟨fun hj => ?_,fun hj => ?_⟩⟩
  · simp at hj
  · rwa [eq_of_getLsbD_one_shiftLeft hj]

/-- The pattern that asks for one more one bit. -/
def withOne {n : ℕ} (p : Pattern n) (i : ℕ) : Pattern n := p.inter ⟨1#n <<< i,0⟩

theorem matches_withOne {n : ℕ} {p : Pattern n} {w : BitVec n} (hp : p.Matches w) {i : ℕ}
    (hi : w.getLsbD i = true) : (withOne p i).Matches w := by
  refine Pattern.matches_inter.mpr ⟨hp,fun j => ⟨fun hj => ?_,fun hj => ?_⟩⟩
  · rwa [eq_of_getLsbD_one_shiftLeft hj]
  · simp at hj

theorem extract_bit {m n : ℕ} {w : BitVec n} {v : BitVec m} {pos width : ℕ}
    (h : extract m w pos width = v) {i : ℕ} (hi : i < width) (hm : i < m) :
    w.getLsbD (pos + i) = v.getLsbD i := by
  rw [← h,getLsbD_extract,decide_eq_true hm,decide_eq_true hi,Bool.true_and,Bool.true_and]

/-- The pattern that asks for a field of four one bits. -/
def withOnes {n : ℕ} (p : Pattern n) (pos : ℕ) : Pattern n :=
  withOne (withOne (withOne (withOne p (pos + 0)) (pos + 1)) (pos + 2)) (pos + 3)

theorem matches_withOnes {n : ℕ} {p : Pattern n} {w : BitVec n} (hp : p.Matches w) {pos : ℕ}
    (h : extract 32 w pos 4 = 15) : (withOnes p pos).Matches w := by
  have hbit : ∀ i < 4, w.getLsbD (pos + i) = (15 : BitVec 32).getLsbD i :=
    fun i hi => extract_bit h hi (by omega)
  have h₀ := matches_withOne hp (hbit 0 (by omega))
  have h₁ := matches_withOne h₀ (hbit 1 (by omega))
  have h₂ := matches_withOne h₁ (hbit 2 (by omega))
  exact matches_withOne h₂ (hbit 3 (by omega))

/-- A word decodes to the fields of the encoding that one of its patterns selects. -/
theorem thumbDisassembleNarrow_of_resolve {p : Pattern 16} {r : Rule 16 32 _}
    (hr : resolve (fun r => r.recognise) p NarrowEncoding.order = some r) {h : BitVec 16}
    (hm : p.Matches h) : thumbDisassembleNarrow h = r.read (r.decode h) := by
  rw [thumbDisassembleNarrow_eq,Rule.decodeFirst,firstMatch_of_resolve hr _ _ hm]

theorem thumbDisassembleWide_of_resolve {p : Pattern 32} {r : Rule 32 32 _}
    (hr : resolve (fun r => r.recognise) p WideEncoding.order = some r) {w : BitVec 32}
    (hm : p.Matches w) : thumbDisassembleWide w = r.read (r.decode w) := by
  rw [thumbDisassembleWide_eq,Rule.decodeFirst,firstMatch_of_resolve hr _ _ hm]

/-- A word of an encoding decodes to its stored fields when one more zero bit
lets the pattern select the encoding. -/
theorem disassembleNarrow_withZero {e : NarrowEncoding} {parts : e.Parts} {h : BitVec 16}
    (hword : (e.encode parts).word = some h) (i : ℕ) (hi : h.getLsbD i = false)
    (he : resolve (fun r => r.recognise) (withZero e.pattern i) NarrowEncoding.order =
      some e.toRule) {ins : ThumbT} (hins : ThumbT.narrow ins = h) :
    thumbDisassemble ins = e.read (e.stored parts) := by
  have hm := matches_withZero (Codec.pattern_matches hword) hi
  rw [thumbDisassemble,e.not_isWide hword hins,if_neg Bool.false_ne_true,hins,
    thumbDisassembleNarrow_of_resolve he hm,e.decode_word hword]

theorem disassembleWide_withZero {e : WideEncoding} {parts : e.Parts} {w : BitVec 32}
    (hword : (e.encode parts).word = some w) (i : ℕ) (hi : w.getLsbD i = false)
    (he : resolve (fun r => r.recognise) (withZero e.pattern i) WideEncoding.order =
      some e.toRule) : thumbDisassemble w = e.read (e.stored parts) := by
  have hm := matches_withZero (Codec.pattern_matches hword) hi
  rw [thumbDisassemble,e.isWide hword,if_pos rfl,thumbDisassembleWide_of_resolve he hm,
    e.decode_word hword]

/-- A value below fourteen has a zero among its bits 1 to 3. -/
theorem zero_bit_of_lt_fourteen {v : BitVec 32} (hv : v.toNat < 14) :
    v.getLsbD 1 = false ∨ v.getLsbD 2 = false ∨ v.getLsbD 3 = false := by
  obtain ⟨k,hk,rfl⟩ : ∃ k, k < 14 ∧ v = BitVec.ofNat 32 k := ⟨v.toNat,hv,by simp⟩
  interval_cases k <;> decide

theorem zero_bit_of_lt_fifteen {v : BitVec 32} (hv : v.toNat < 15) :
    v.getLsbD 0 = false ∨ v.getLsbD 1 = false ∨ v.getLsbD 2 = false ∨ v.getLsbD 3 = false := by
  obtain ⟨k,hk,rfl⟩ : ∃ k, k < 15 ∧ v = BitVec.ofNat 32 k := ⟨v.toNat,hv,by simp⟩
  interval_cases k <;> decide

/-- The last two condition fields are UDF and SVC. -/
theorem bCondT1Noit_legible {parts : BCondT1NoitParts} (hcond : parts.cond.toNat < 14) :
    NarrowForm.Legible ⟨.bCondT1Noit,parts⟩ := by
  intro h hword ins hins
  obtain ⟨hc,_,_⟩ := Packing.reads_word hword
  have hbit : ∀ i < 4, h.getLsbD (8 + i) = parts.cond.getLsbD i :=
    fun i hi => extract_bit hc hi (by omega)
  rcases zero_bit_of_lt_fourteen hcond with hz | hz | hz
  · exact disassembleNarrow_withZero (e := .bCondT1Noit) hword 9
      ((hbit 1 (by omega)).trans hz) rfl hins
  · exact disassembleNarrow_withZero (e := .bCondT1Noit) hword 10
      ((hbit 2 (by omega)).trans hz) rfl hins
  · exact disassembleNarrow_withZero (e := .bCondT1Noit) hword 11
      ((hbit 3 (by omega)).trans hz) rfl hins

/-- The last two condition fields are shared with UDF and NOP. -/
theorem bCondT3Noit_legible {parts : BCondT3NoitParts} (hcond : parts.cond.toNat < 14) :
    WideForm.Legible ⟨.bCondT3Noit,parts⟩ := by
  intro w hword
  obtain ⟨_,_,_,_,hc,_⟩ := Packing.reads_word hword
  have hbit : ∀ i < 4, w.getLsbD (6 + i) = parts.cond.getLsbD i :=
    fun i hi => extract_bit hc hi (by omega)
  rcases zero_bit_of_lt_fourteen hcond with hz | hz | hz
  · exact disassembleWide_withZero (e := .bCondT3Noit) hword 7
      ((hbit 1 (by omega)).trans hz) rfl
  · exact disassembleWide_withZero (e := .bCondT3Noit) hword 8
      ((hbit 2 (by omega)).trans hz) rfl
  · exact disassembleWide_withZero (e := .bCondT3Noit) hword 9
      ((hbit 3 (by omega)).trans hz) rfl

/-- With base PC the word is a literal load. -/
theorem ldrRT2Lsl_legible {parts : LdrRT2LslParts} (hrn : parts.rn.toNat < 15) :
    WideForm.Legible ⟨.ldrRT2Lsl,parts⟩ := by
  intro w hword
  obtain ⟨_,_,_,hr,_⟩ := Packing.reads_word hword
  have hbit : ∀ i < 4, w.getLsbD (0 + i) = parts.rn.getLsbD i :=
    fun i hi => extract_bit hr hi (by omega)
  rcases zero_bit_of_lt_fifteen hrn with hz | hz | hz | hz
  · exact disassembleWide_withZero (e := .ldrRT2Lsl) hword 0
      ((hbit 0 (by omega)).trans hz) rfl
  · exact disassembleWide_withZero (e := .ldrRT2Lsl) hword 1
      ((hbit 1 (by omega)).trans hz) rfl
  · exact disassembleWide_withZero (e := .ldrRT2Lsl) hword 2
      ((hbit 2 (by omega)).trans hz) rfl
  · exact disassembleWide_withZero (e := .ldrRT2Lsl) hword 3
      ((hbit 3 (by omega)).trans hz) rfl

/-! ## Reading back what was assembled -/

/-- The result of a choice and what the disassembler shows of it. -/
def Choices.text (c : Choices) : Option (ThumbAssembleResult × Option ThumbInstructionSpec) :=
  match c.narrowWord with
  | some h => some (.narrowSuccess,thumbDisassembleNarrow h)
  | none => c.wideWord.map fun w => (.wideSuccess,thumbDisassembleWide w)

theorem thumbDisassemble_of_narrow {f : NarrowForm} {h : BitVec 16} (hword : f.word = some h)
    {ins : ThumbT} (hins : ThumbT.narrow ins = h) :
    thumbDisassemble ins = thumbDisassembleNarrow h := by
  rw [thumbDisassemble,f.1.not_isWide hword hins,if_neg Bool.false_ne_true,hins]

theorem thumbDisassemble_of_wide {f : WideForm} {w : BitVec 32} (hword : f.word = some w) :
    thumbDisassemble w = thumbDisassembleWide w := by
  rw [thumbDisassemble,f.1.isWide hword,if_pos rfl]

/-- A property of what is read back after a success is a property of the text of
the choice, whatever the address and the memory. -/
theorem readBack_iff (into : Address) (spec : ThumbInstructionSpec) (m : Memory)
    (P : ThumbAssembleResult → Option ThumbInstructionSpec → Prop) :
    ((thumbAssemble into spec m).1.succeeds = true →
      P (thumbAssemble into spec m).1
        (thumbDisassemble (load32 (thumbAssemble into spec m).2 into))) ↔
      ∀ r s, (candidates spec).text = some (r,s) → P r s := by
  obtain ⟨r,hr,hrun⟩ := thumbAssemble_implements into spec
  rw [hrun]
  unfold Choices.run Choices.text
  cases hn : (candidates spec).narrowWord with
  | some h =>
      obtain ⟨f,_,hword⟩ := List.exists_of_findSome?_eq_some hn
      have hdis := thumbDisassemble_of_narrow hword (narrow_load32_store16 m into h)
      simp [ThumbAssembleResult.succeeds,hdis]
  | none =>
      cases hw : (candidates spec).wideWord with
      | some w =>
          obtain ⟨f,_,hword⟩ := List.exists_of_findSome?_eq_some hw
          have hdis := thumbDisassemble_of_wide hword
          simp [ThumbAssembleResult.succeeds,load32_store32,hdis]
      | none => simp [hr]

theorem NarrowForm.Legible.text {f : NarrowForm} (hf : f.Legible) {h : BitVec 16}
    (hword : f.word = some h) : thumbDisassembleNarrow h = f.shown := by
  have hins : ThumbT.narrow (h.setWidth 32) = h := by
    rw [ThumbT.narrow,BitVec.setWidth_setWidth_of_le _ (by omega),BitVec.setWidth_eq]
  rw [← thumbDisassemble_of_narrow hword hins]
  exact hf h hword _ hins

theorem WideForm.Legible.text {f : WideForm} (hf : f.Legible) {w : BitVec 32}
    (hword : f.word = some w) : thumbDisassembleWide w = f.shown := by
  rw [← thumbDisassemble_of_wide hword]
  exact hf w hword

/-- What the disassembler shows of a form that fits. -/
def NarrowForm.text (f : NarrowForm) : Option (Option ThumbInstructionSpec) :=
  f.word.map thumbDisassembleNarrow

def WideForm.text (f : WideForm) : Option (Option ThumbInstructionSpec) :=
  f.word.map thumbDisassembleWide

theorem NarrowForm.isSome_text (f : NarrowForm) : f.text.isSome = f.word.isSome :=
  Option.isSome_map

theorem WideForm.isSome_text (f : WideForm) : f.text.isSome = f.word.isSome := Option.isSome_map

theorem NarrowForm.text_isSome_iff {f : NarrowForm} {accepted : Prop}
    (hg : guards (f.1.encode f.2).steps = true ↔ accepted) : f.text.isSome = true ↔ accepted := by
  rw [f.isSome_text,NarrowForm.fits_iff hg]

theorem WideForm.text_isSome_iff {f : WideForm} {accepted : Prop}
    (hg : guards (f.1.encode f.2).steps = true ↔ accepted) : f.text.isSome = true ↔ accepted := by
  rw [f.isSome_text,WideForm.fits_iff hg]

theorem NarrowForm.Legible.eq_shown {f : NarrowForm} (hf : f.Legible)
    {s : Option ThumbInstructionSpec} (hs : f.text = some s) : s = f.shown := by
  obtain ⟨h,hword,rfl⟩ := Option.map_eq_some_iff.mp hs
  exact hf.text hword

theorem WideForm.Legible.eq_shown {f : WideForm} (hf : f.Legible)
    {s : Option ThumbInstructionSpec} (hs : f.text = some s) : s = f.shown := by
  obtain ⟨w,hword,rfl⟩ := Option.map_eq_some_iff.mp hs
  exact hf.text hword

/-- The text of a choice without its result. -/
def Choices.shownText (c : Choices) : Option (Option ThumbInstructionSpec) := c.text.map Prod.snd

theorem Choices.shownText_eq (c : Choices) :
    c.shownText = (c.narrow.findSome? NarrowForm.text).or (c.wide.findSome? WideForm.text) := by
  have hn : c.narrow.findSome? NarrowForm.text = c.narrowWord.map thumbDisassembleNarrow :=
    List.map_findSome?.symm
  have hw : c.wide.findSome? WideForm.text = c.wideWord.map thumbDisassembleWide :=
    List.map_findSome?.symm
  rw [hn,hw,Choices.shownText,Choices.text]
  cases c.narrowWord <;> cases c.wideWord <;> rfl

/-- The property holds of the text, if there is one. -/
def Every (P : Option ThumbInstructionSpec → Prop) (text : Option (Option ThumbInstructionSpec)) :
    Prop :=
  ∀ s, text = some s → P s

section
variable {P : Option ThumbInstructionSpec → Prop}

theorem every_none : Every P none := fun _ h => by simp at h

theorem WideForm.every_text_iff {f : WideForm} :
    Every P f.text ↔ ∀ w, f.word = some w → P (thumbDisassembleWide w) := by
  unfold Every WideForm.text
  constructor
  · intro h w hword
    exact h _ (by rw [hword]; rfl)
  · intro h s hs
    obtain ⟨w,hword,rfl⟩ := Option.map_eq_some_iff.mp hs
    exact h w hword

theorem every_some_iff {s : Option ThumbInstructionSpec} : Every P (some s) ↔ P s := by
  simp [Every]

theorem every_ite_iff {accepted : Prop} [Decidable accepted] {s : Option ThumbInstructionSpec} :
    Every P (if accepted then some s else none) ↔ (accepted → P s) := by
  split
  · next h => rw [every_some_iff,forall_prop_of_true h]
  · next h => exact ⟨fun _ ha => absurd ha h,fun _ => every_none⟩

theorem every_or_iff {t u : Option (Option ThumbInstructionSpec)} :
    Every P (t.or u) ↔ Every P t ∧ (t = none → Every P u) := by
  cases t with
  | none => simp [every_none]
  | some s => simp

theorem every_findSome?_cons {α : Type*} {f : α → Option (Option ThumbInstructionSpec)} {a : α}
    {as : List α} : Every P ((a::as).findSome? f) ↔
      Every P (f a) ∧ (f a = none → Every P (as.findSome? f)) := by
  rw [List.findSome?_cons]
  cases f a with
  | none => simp [every_none]
  | some s => simp

theorem every_findSome? {α : Type*} {f : α → Option (Option ThumbInstructionSpec)} {as : List α}
    (h : ∀ a ∈ as, Every P (f a)) : Every P (as.findSome? f) := by
  intro s hs
  obtain ⟨a,ha,he⟩ := List.exists_of_findSome?_eq_some hs
  exact h a ha s he

/-- The wide forms are read where no narrow form is, or none is asked for. -/
theorem every_shownText_iff (c : Choices) (width : ThumbWidthSpecifier) :
    Every P (c.restrict width).shownText ↔
      (width ≠ .wide → Every P (c.narrow.findSome? NarrowForm.text)) ∧
        (width ≠ .narrow → width = .wide ∨ c.narrow.findSome? NarrowForm.text = none →
          Every P (c.wide.findSome? WideForm.text)) := by
  rw [Choices.shownText_eq,every_or_iff]
  cases width with
  | auto => simp [Choices.restrict]
  | narrow => simp [Choices.restrict,every_none]
  | wide => simp [Choices.restrict,every_none]

end

theorem shown_iff (into : Address) (spec : ThumbInstructionSpec) (m : Memory)
    (P : Option ThumbInstructionSpec → Prop) :
    ((thumbAssemble into spec m).1.succeeds = true →
      P (thumbDisassemble (load32 (thumbAssemble into spec m).2 into))) ↔
      Every P (candidates spec).shownText := by
  rw [readBack_iff into spec m fun _ => P]
  unfold Every Choices.shownText
  constructor
  · intro h s hs
    obtain ⟨⟨r,s⟩,ht,rfl⟩ := Option.map_eq_some_iff.mp hs
    exact h r s ht
  · intro h r s ht
    exact h s (by rw [ht]; rfl)

/-- After a success the memory shows one of the candidates, of the width that
the result reports, provided that all of them are legible. -/
theorem thumbDisassemble_thumbAssemble {into : Address} {spec : ThumbInstructionSpec} {m : Memory}
    {P : ThumbAssembleResult → Option ThumbInstructionSpec → Prop}
    (hn : ∀ f ∈ (candidates spec).narrow, f.Legible ∧ P .narrowSuccess f.shown)
    (hw : ∀ f ∈ (candidates spec).wide, f.Legible ∧ P .wideSuccess f.shown)
    (hs : (thumbAssemble into spec m).1.succeeds = true) :
    P (thumbAssemble into spec m).1
      (thumbDisassemble (load32 (thumbAssemble into spec m).2 into)) := by
  refine (readBack_iff into spec m P).mpr ?_ hs
  intro r s ht
  unfold Choices.text at ht
  split at ht
  · next h hh =>
      obtain ⟨f,hf,hword⟩ := List.exists_of_findSome?_eq_some hh
      obtain ⟨rfl,rfl⟩ := Prod.mk.inj (Option.some.inj ht)
      rw [(hn f hf).1.text hword]
      exact (hn f hf).2
  · obtain ⟨w,hww,he⟩ := Option.map_eq_some_iff.mp ht
    obtain ⟨f,hf,hword⟩ := List.exists_of_findSome?_eq_some hww
    obtain ⟨rfl,rfl⟩ := Prod.mk.inj he
    rw [(hw f hf).1.text hword]
    exact (hw f hf).2

theorem mem_restrict_narrow {c : Choices} {width : ThumbWidthSpecifier} {f : NarrowForm}
    (hf : f ∈ (c.restrict width).narrow) : f ∈ c.narrow := by
  cases width with
  | auto => exact hf
  | narrow => exact hf
  | wide => simp [Choices.restrict] at hf

theorem mem_restrict_wide {c : Choices} {width : ThumbWidthSpecifier} {f : WideForm}
    (hf : f ∈ (c.restrict width).wide) : f ∈ c.wide := by
  cases width with
  | auto => exact hf
  | narrow => simp [Choices.restrict] at hf
  | wide => exact hf

end TwMonitor.Thumb
