import TwMonitor.AssemblerRefinement

/-!
# What assembling does to memory

An assembled instruction occupies exactly the bytes that its own first halfword
announces. The cursor of the editor relies on it: it is advanced by decoding the
width again from memory.
-/
namespace TwMonitor.Thumb
open ByteMemory

/-- The number of bytes that a result stands for. -/
def ThumbAssembleResult.size : ThumbAssembleResult → ℕ
  | .narrowSuccess => 2
  | .wideSuccess => 4
  | _ => 0

/-- `assemble_and_show_result`: the advanced pointer and the memory. The text
shown for a failure is left out. -/
def assembleAndShowResult (addr : Address) (instruction : ThumbInstructionSpec) (m : Memory) :
    Address × Memory :=
  match thumbAssemble addr instruction m with
  | (.narrowSuccess,m') => (thumbInsPtrIncrement m' addr,m')
  | (.wideSuccess,m') => (thumbInsPtrIncrement m' addr,m')
  | (_,m') => (addr,m')

/-- The result changes the bytes it stands for and no others, and the width
predicate agrees with it. -/
structure WritesExactly (into : Address) (m : Memory) (r : ThumbAssembleResult × Memory) :
    Prop where
  frame : ∀ a, ¬ InRange into r.1.size a → r.2 a = m a
  failed : r.1.succeeds = false → r.2 = m
  narrow : r.1 = .narrowSuccess → thumbIsWideInstruction (load32 r.2 into) = false
  wide : r.1 = .wideSuccess → thumbIsWideInstruction (load32 r.2 into) = true

theorem writesExactly_refusal {r : ThumbAssembleResult} (hr : r.succeeds = false) (into : Address)
    (m : Memory) : WritesExactly into m (r,m) where
  frame _ _ := rfl
  failed _ := rfl
  narrow h := by
    obtain rfl : r = .narrowSuccess := h
    simp [ThumbAssembleResult.succeeds] at hr
  wide h := by
    obtain rfl : r = .wideSuccess := h
    simp [ThumbAssembleResult.succeeds] at hr

theorem writesExactly_narrow {f : NarrowForm} {h : BitVec 16} (hword : f.word = some h)
    (into : Address) (m : Memory) :
    WritesExactly into m (.narrowSuccess,store16 m into h) where
  frame a ha := store16_ne m h ha
  failed hs := by simp [ThumbAssembleResult.succeeds] at hs
  narrow _ := f.1.not_isWide hword (narrow_load32_store16 m into h)
  wide hs := by simp at hs

theorem writesExactly_wide {f : WideForm} {w : BitVec 32} (hword : f.word = some w)
    (into : Address) (m : Memory) :
    WritesExactly into m (.wideSuccess,store32 m into w) where
  frame a ha := store32_ne m w ha
  failed hs := by simp [ThumbAssembleResult.succeeds] at hs
  narrow hs := by simp at hs
  wide _ := by
    rw [load32_store32]
    exact f.1.isWide hword

theorem writesExactly_thumbAssemble (into : Address) (spec : ThumbInstructionSpec) (m : Memory) :
    WritesExactly into m (thumbAssemble into spec m) := by
  rcases thumbAssemble_cases into spec m with ⟨f,_,h,hword,he⟩ | ⟨f,_,w,hword,he⟩ | ⟨r,hr,he⟩
  · rw [he]
    exact writesExactly_narrow hword into m
  · rw [he]
    exact writesExactly_wide hword into m
  · rw [he]
    exact writesExactly_refusal hr into m

theorem thumbInsPtrIncrement_of_narrow {m : Memory} {p : Address}
    (h : thumbIsWideInstruction (load32 m p) = false) : thumbInsPtrIncrement m p = p + 2 := by
  rw [thumbInsPtrIncrement,h]
  rfl

theorem thumbInsPtrIncrement_of_wide {m : Memory} {p : Address}
    (h : thumbIsWideInstruction (load32 m p) = true) : thumbInsPtrIncrement m p = p + 4 := by
  rw [thumbInsPtrIncrement,h]
  rfl

/-- The bytes that the choice takes, wherever it is written. -/
def Choices.size (c : Choices) : ℕ :=
  if c.narrowWord.isSome then 2 else if c.wideWord.isSome then 4 else 0

theorem size_thumbAssemble (into : Address) (spec : ThumbInstructionSpec) (m : Memory) :
    (thumbAssemble into spec m).1.size = (candidates spec).size := by
  rcases thumbAssemble_words into spec m with ⟨h,hh,he⟩ | ⟨w,hn,hw,he⟩ | ⟨hn,hw,r,hr,he⟩
  · rw [he,Choices.size,hh]
    rfl
  · rw [he,Choices.size,hn,hw]
    rfl
  · rw [he,Choices.size,hn,hw]
    cases r with
    | narrowSuccess => simp [ThumbAssembleResult.succeeds] at hr
    | wideSuccess => simp [ThumbAssembleResult.succeeds] at hr
    | failBadMnemonic => rfl
    | failInvalidWidth => rfl
    | failInvalidOperand => rfl

/-- The pointer moves by the number of bytes just written. -/
theorem thumbInsPtrIncrement_thumbAssemble {into : Address} {spec : ThumbInstructionSpec}
    {m : Memory} (hsize : (thumbAssemble into spec m).1.size ≠ 0) :
    thumbInsPtrIncrement (thumbAssemble into spec m).2 into =
      into + BitVec.ofNat 32 (thumbAssemble into spec m).1.size := by
  have hw := writesExactly_thumbAssemble into spec m
  generalize thumbAssemble into spec m = result at hw hsize ⊢
  obtain ⟨r,m'⟩ := result
  cases r with
  | narrowSuccess => exact thumbInsPtrIncrement_of_narrow (hw.narrow rfl)
  | wideSuccess => exact thumbInsPtrIncrement_of_wide (hw.wide rfl)
  | failBadMnemonic => exact absurd rfl hsize
  | failInvalidWidth => exact absurd rfl hsize
  | failInvalidOperand => exact absurd rfl hsize

theorem assembleAndShowResult_eq (addr : Address) (instruction : ThumbInstructionSpec)
    (m : Memory) :
    assembleAndShowResult addr instruction m =
      (addr + BitVec.ofNat 32 (thumbAssemble addr instruction m).1.size,
        (thumbAssemble addr instruction m).2) := by
  have hinc := @thumbInsPtrIncrement_thumbAssemble addr instruction m
  unfold assembleAndShowResult
  generalize thumbAssemble addr instruction m = result at hinc ⊢
  obtain ⟨r,m'⟩ := result
  have hstay : addr + BitVec.ofNat 32 0 = addr := BitVec.add_zero addr
  cases r with
  | narrowSuccess => exact Prod.ext (hinc (Nat.succ_ne_zero _)) rfl
  | wideSuccess => exact Prod.ext (hinc (Nat.succ_ne_zero _)) rfl
  | failBadMnemonic => exact Prod.ext hstay.symm rfl
  | failInvalidWidth => exact Prod.ext hstay.symm rfl
  | failInvalidOperand => exact Prod.ext hstay.symm rfl

/-- Assembling is atomic, its result agrees with the width predicate, and the
editor's pointer advances by the size of the result. -/
theorem thumbAssemble_atomic (into : Address) (spec : ThumbInstructionSpec) (m : Memory) :
    WritesExactly into m (thumbAssemble into spec m) ∧
      assembleAndShowResult into spec m =
        (into + BitVec.ofNat 32 (thumbAssemble into spec m).1.size,
          (thumbAssemble into spec m).2) :=
  ⟨writesExactly_thumbAssemble into spec m,assembleAndShowResult_eq into spec m⟩

end TwMonitor.Thumb
