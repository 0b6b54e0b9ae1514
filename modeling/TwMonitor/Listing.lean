import TwMonitor.InstructionBoundaries
import TwMonitor.Printable

/-!
# The listing of the editor

Print Assembly walks from the start of the code to its end and shows the instruction at
every address it stops at, under its label and behind the mark of the cursor. Where the
cursor and the end are boundaries it shows the instructions of the code, each once and
in order, and marks the cursor once.
-/
namespace TwMonitor.Editor
open ByteMemory MemoryStore NumberPad Relation Thumb Tiling

def puthexhalfword (hword : BitVec 16) : Option Text :=
  (utoaPadW (hword.setWidth 32) 16 4 true).map Pad.chars

section
variable (entries : List MemoryEntry) (m : Memory)

def monitorDisassemblePrintLabelAt (addr : Address) : Option Text :=
  match memoryRlookupLabel entries addr with
  | some label => (memoryPrintNameFromLabel label).map (· ++ ":\r\n".toList)
  | none => some []

def monitorDisassemblePrintInstructionAt (addr : Address) : Option Text := do
  let ins := load32 m addr
  let number ← puthexword addr
  let first ← puthexhalfword (ThumbT.narrow ins)
  let second ← (if thumbIsWideInstruction ins then
      (puthexhalfword ((ins >>> 16).setWidth 16)).map (' '::·)
    else some "     ".toList)
  let insSpec ← thumbDisassemble ins
  let text ← thumbPrintInstruction entries insSpec addr
  some (number ++ ": ".toList ++ first ++ second ++ ' '::text ++ "\r\n".toList)

/-- Everything that is shown at an address. -/
structure ListedLine where
  address : Address
  label : Text
  indicator : Char
  instruction : Text

def listedLine (cursor p : Address) : Option ListedLine := do
  let label ← monitorDisassemblePrintLabelAt entries p
  let instruction ← monitorDisassemblePrintInstructionAt entries m p
  some ⟨p,label,if p = cursor then '*' else ' ',instruction⟩

/-- The loop has no bound of its own. -/
def printAssemblyFrom (cursor endAddr : Address) : ℕ → Address → Option (List ListedLine)
  | 0,p => if p < endAddr then none else some []
  | fuel + 1,p =>
      if p < endAddr then do
        let line ← listedLine entries m cursor p
        let lines ← printAssemblyFrom cursor endAddr fuel (thumbInsPtrIncrement m p)
        some (line::lines)
      else some []

end

/-- The lines, and whether the cursor is shown behind them. -/
structure AssemblyListing where
  lines : List ListedLine
  endMarked : Bool

def printAssembly (entries : List MemoryEntry) (s : EditorState) (fuel : ℕ) :
    Option AssemblyListing :=
  (printAssemblyFrom entries s.memory s.addr s.endAddr fuel s.startingAddr).map fun lines =>
    ⟨lines,s.addr = s.endAddr⟩

/-- How often the listing shows the cursor. -/
def AssemblyListing.marks (listing : AssemblyListing) : ℕ :=
  listing.lines.countP (·.indicator == '*') + listing.endMarked.toNat

/-- The instructions from one boundary up to another. -/
def Instructions (m : Memory) (start stop p : Address) : Prop :=
  WellFormed m start p ∧ p < stop

section
variable {entries : List MemoryEntry} {m : Memory} {cursor start stop : Address}

theorem listedLine_eq_some {p : Address} {line : ListedLine}
    (h : listedLine entries m cursor p = some line) :
    line.address = p ∧ line.indicator = if p = cursor then '*' else ' ' := by
  simp only [listedLine,Option.bind_eq_bind,Option.bind_eq_some_iff,Option.some.injEq] at h
  obtain ⟨_,_,_,_,rfl⟩ := h
  exact ⟨rfl,rfl⟩

theorem instructions_cons (h : WellFormed m start stop) (hlt : start < stop) (p : Address) :
    Instructions m start stop p ↔
      p = start ∨ Instructions m (thumbInsPtrIncrement m start) stop p := by
  obtain ⟨hup,_⟩ := h.uncons hlt
  have hcons : WellFormed m start p ↔ p = start ∨ WellFormed m (thumbInsPtrIncrement m start) p :=
    Tiles.cons_iff hup
  unfold Instructions
  rw [hcons,or_and_right]
  refine or_congr_left ⟨fun hp => hp.1,?_⟩
  rintro rfl
  exact ⟨rfl,hlt⟩

/-- The instructions past the first one are behind it. -/
theorem lt_of_instructions {p : Address} (h : WellFormed m start stop) (hlt : start < stop)
    (hp : Instructions m (thumbInsPtrIncrement m start) stop p) : start < p := by
  obtain ⟨hup,_⟩ := h.uncons hlt
  have hle := hp.1.le
  bv_omega

theorem not_instructions (h : ¬start < stop) (p : Address) : ¬Instructions m start stop p := by
  rintro ⟨hp,hlt⟩
  have hle := hp.le
  bv_omega

theorem printAssemblyFrom_end (h : ¬start < stop) (fuel : ℕ) :
    printAssemblyFrom entries m cursor stop fuel start = some [] := by
  cases fuel <;> exact if_neg h

theorem printAssemblyFrom_eq_some (hlt : start < stop) {fuel : ℕ} {lines : List ListedLine}
    (h : printAssemblyFrom entries m cursor stop fuel start = some lines) :
    ∃ fuel' line rest, fuel = fuel' + 1 ∧ lines = line::rest ∧
      listedLine entries m cursor start = some line ∧
      printAssemblyFrom entries m cursor stop fuel' (thumbInsPtrIncrement m start) = some rest := by
  cases fuel with
  | zero =>
      rw [printAssemblyFrom,if_pos hlt] at h
      simp at h
  | succ fuel =>
      rw [printAssemblyFrom,if_pos hlt] at h
      simp only [Option.bind_eq_bind,Option.bind_eq_some_iff,Option.some.injEq] at h
      obtain ⟨line,hline,rest,hrest,rfl⟩ := h
      exact ⟨fuel,line,rest,rfl,rfl,hline,hrest⟩

/-- What is listed is the code from here on. -/
theorem printAssemblyFrom_lists (h : WellFormed m start stop) {fuel : ℕ}
    {lines : List ListedLine}
    (hlines : printAssemblyFrom entries m cursor stop fuel start = some lines) :
    (∀ p, p ∈ lines.map ListedLine.address ↔ Instructions m start stop p) ∧
      (lines.map ListedLine.address).Pairwise (· < ·) ∧
      ∀ line ∈ lines, line.indicator = if line.address = cursor then '*' else ' ' := by
  induction fuel generalizing start lines with
  | zero =>
      by_cases hlt : start < stop
      · obtain ⟨_,_,_,hfuel,_⟩ := printAssemblyFrom_eq_some hlt hlines
        exact absurd hfuel (Nat.succ_ne_zero _).symm
      · rw [printAssemblyFrom_end hlt] at hlines
        obtain rfl := Option.some.inj hlines
        simp [not_instructions hlt]
  | succ fuel ih =>
      by_cases hlt : start < stop
      · obtain ⟨_,line,rest,hfuel,rfl,hline,hrest⟩ := printAssemblyFrom_eq_some hlt hlines
        obtain rfl := Nat.succ.inj hfuel
        obtain ⟨haddress,hindicator⟩ := listedLine_eq_some hline
        obtain ⟨hmem,hsorted,hmarks⟩ := ih (h.uncons hlt).2 hrest
        refine ⟨fun p => ?_,?_,?_⟩
        · rw [List.map_cons,List.mem_cons,hmem,haddress,instructions_cons h hlt]
        · rw [List.map_cons,List.pairwise_cons]
          refine ⟨fun p hp => ?_,hsorted⟩
          rw [haddress]
          exact lt_of_instructions h hlt ((hmem p).mp hp)
        · simp only [List.mem_cons,forall_eq_or_imp]
          exact ⟨haddress ▸ hindicator,hmarks⟩
      · rw [printAssemblyFrom_end hlt] at hlines
        obtain rfl := Option.some.inj hlines
        simp [not_instructions hlt]

/-- The walk ends, unless there is an instruction on it that cannot be shown. -/
theorem printAssemblyFrom_isSome_iff (h : WellFormed m start stop) :
    (∃ fuel, (printAssemblyFrom entries m cursor stop fuel start).isSome = true) ↔
      ∀ p, Instructions m start stop p → (listedLine entries m cursor p).isSome = true := by
  induction h using ReflTransGen.head_induction_on with
  | refl =>
      have hend : ¬stop < stop := by bv_omega
      refine ⟨fun _ p hp => absurd hp (not_instructions hend p),fun _ => ⟨0,?_⟩⟩
      rw [printAssemblyFrom_end hend]
      rfl
  | @head start next hop hrest ih =>
      obtain ⟨hup,rfl⟩ := hop
      have hle := Tiles.le hrest
      have hlt : start < stop := by bv_omega
      have hcons := instructions_cons (.head ⟨hup,rfl⟩ hrest) hlt
      simp only [hcons,forall_eq_or_imp,← ih]
      constructor
      · rintro ⟨fuel,hfuel⟩
        obtain ⟨lines,hlines⟩ := Option.isSome_iff_exists.mp hfuel
        obtain ⟨fuel,line,rest,rfl,rfl,hline,hrest⟩ := printAssemblyFrom_eq_some hlt hlines
        exact ⟨by rw [hline]; rfl,fuel,by rw [hrest]; rfl⟩
      · rintro ⟨hline,fuel,hfuel⟩
        obtain ⟨line,hline⟩ := Option.isSome_iff_exists.mp hline
        obtain ⟨rest,hrest⟩ := Option.isSome_iff_exists.mp hfuel
        refine ⟨fuel + 1,?_⟩
        rw [printAssemblyFrom,if_pos hlt,hline,hrest]
        rfl

end

/-! ## The cursor and the words of the code -/

/-- The disassembler returns, and the condition that it returns has a name. -/
def CanBeShown (w : ThumbT) : Prop :=
  ∃ insSpec, thumbDisassemble w = some insSpec ∧ insSpec.condition.toNat < 16

theorem canBeShown_narrow {w : ThumbT} (h : thumbIsWideInstruction w = false) : CanBeShown w := by
  obtain ⟨s,hs,_⟩ := thumbDisassembleNarrow_reading (ThumbT.narrow w)
  refine ⟨s,?_,thumbDisassembleNarrow_condition hs⟩
  rw [thumbDisassemble,h,if_neg Bool.false_ne_true]
  exact hs

theorem monitorDisassemblePrintLabelAt_isSome (entries : List MemoryEntry) (addr : Address) :
    ∃ text, monitorDisassemblePrintLabelAt entries addr = some text := by
  unfold monitorDisassemblePrintLabelAt
  split
  · next label hlabel =>
      have hfound := List.find?_some hlabel
      have hname : (labelName label).isSome = true := by
        by_contra hnot
        rw [if_neg (show ¬memoryEntryIsLabel label = true from hnot)] at hfound
        exact Bool.false_ne_true hfound
      obtain ⟨name,hname⟩ := Option.isSome_iff_exists.mp hname
      rw [memoryPrintNameFromLabel,hname]
      exact ⟨_,rfl⟩
  · exact ⟨_,rfl⟩

theorem puthexhalfword_isSome (hword : BitVec 16) : ∃ text, puthexhalfword hword = some text := by
  obtain ⟨pad,hpad⟩ := utoaPadW_isSome (hword.setWidth 32)
    (by decide : 10 ≤ 16 ∧ 16 ≤ 16 ∧ 4 ≤ 8) true
  rw [puthexhalfword,hpad]
  exact ⟨_,rfl⟩

/-- Only the word decides whether a line is shown. -/
theorem listedLine_isSome_iff (entries : List MemoryEntry) (m : Memory) (cursor p : Address) :
    (listedLine entries m cursor p).isSome = true ↔ CanBeShown (load32 m p) := by
  obtain ⟨label,hlabel⟩ := monitorDisassemblePrintLabelAt_isSome entries p
  obtain ⟨pad,hpad⟩ := utoaPadW_isSome p (by decide : 10 ≤ 16 ∧ 16 ≤ 16 ∧ 8 ≤ 8) true
  obtain ⟨first,hfirst⟩ := puthexhalfword_isSome (ThumbT.narrow (load32 m p))
  have hsecond : ∃ second, (if thumbIsWideInstruction (load32 m p) then
      (puthexhalfword ((load32 m p >>> 16).setWidth 16)).map (' '::·)
      else some "     ".toList) = some second := by
    obtain ⟨second,hsecond⟩ := puthexhalfword_isSome ((load32 m p >>> 16).setWidth 16)
    rw [hsecond]
    split <;> exact ⟨_,rfl⟩
  obtain ⟨second,hsecond⟩ := hsecond
  unfold listedLine monitorDisassemblePrintInstructionAt puthexword CanBeShown
  rw [hlabel,hpad]
  simp only [hfirst,hsecond,Option.bind_eq_bind,Option.bind_some,Option.map_some]
  cases hins : thumbDisassemble (load32 m p) with
  | none => simp
  | some insSpec =>
      have hprint := thumbPrintInstruction_isSome_iff (thumbDisassemble_tidy hins) entries p
      simp only [Option.bind_some,Option.some.injEq,exists_eq_left',← hprint]
      cases thumbPrintInstruction entries insSpec p <;> simp

section
variable {entries : List MemoryEntry} {s : EditorState}

/-- A listing with the lines of the code marks the cursor at its line, or behind the last one. -/
theorem marks_eq_one (hs : OnBoundaries s) {lines : List ListedLine}
    (hmem : ∀ p, p ∈ lines.map ListedLine.address ↔
      Instructions s.memory s.startingAddr s.endAddr p)
    (hsorted : (lines.map ListedLine.address).Pairwise (· < ·))
    (hmarks : ∀ line ∈ lines, line.indicator = if line.address = s.addr then '*' else ' ') :
    (AssemblyListing.mk lines (s.addr = s.endAddr)).marks = 1 := by
  have hcount :
      lines.countP (·.indicator == '*') = (lines.map ListedLine.address).count s.addr := by
    rw [List.count_eq_countP,List.countP_map]
    refine List.countP_congr fun line hline => ?_
    rw [hmarks line hline]
    by_cases haddr : line.address = s.addr <;> simp [haddr]
  have hnodup : (lines.map ListedLine.address).Nodup :=
    hsorted.imp fun hlt heq => by rw [heq] at hlt; bv_omega
  have hle := hs.after.le
  show lines.countP (·.indicator == '*') + (decide (s.addr = s.endAddr)).toNat = 1
  rw [hcount]
  by_cases hend : s.addr = s.endAddr
  · have hno : s.addr ∉ lines.map ListedLine.address := by
      rw [hmem]
      rintro ⟨_,hlt⟩
      rw [hend] at hlt
      bv_omega
    rw [List.count_eq_zero_of_not_mem hno,decide_eq_true hend]
    rfl
  · have hlt : s.addr < s.endAddr := by bv_omega
    have hyes := (hmem s.addr).mpr ⟨hs.before,hlt⟩
    rw [List.count_eq_one_of_mem hnodup hyes,decide_eq_false hend]
    rfl

/-- On boundaries the listing ends exactly when every instruction of the code can be shown. It
then lists each instruction of the code once and in order, and marks the cursor once. -/
theorem printAssembly_lists_code (hs : OnBoundaries s) :
    ((∃ fuel, (printAssembly entries s fuel).isSome = true) ↔
      ∀ p, Instructions s.memory s.startingAddr s.endAddr p → CanBeShown (load32 s.memory p)) ∧
    ∀ fuel listing, printAssembly entries s fuel = some listing →
      (∀ p, p ∈ listing.lines.map ListedLine.address ↔
        Instructions s.memory s.startingAddr s.endAddr p) ∧
      (listing.lines.map ListedLine.address).Pairwise (· < ·) ∧ listing.marks = 1 := by
  constructor
  · simp only [printAssembly,Option.isSome_map]
    rw [printAssemblyFrom_isSome_iff hs.whole]
    simp only [listedLine_isSome_iff]
  · intro fuel listing hlisting
    obtain ⟨lines,hlines,rfl⟩ := Option.map_eq_some_iff.mp hlisting
    obtain ⟨hmem,hsorted,hmarks⟩ := printAssemblyFrom_lists hs.whole hlines
    exact ⟨hmem,hsorted,marks_eq_one hs hmem hsorted hmarks⟩

end

/-- NOP at every halfword, two of them in the code and the cursor between them. -/
theorem printAssembly_lists_code_nops : ∃ (s : EditorState) (listing : AssemblyListing),
    OnBoundaries s ∧ printAssembly [] s 2 = some listing ∧ listing.lines.length = 2 ∧
      listing.marks = 1 := by
  let s : EditorState :=
    { memory := fun a => if a.getLsbD 0 then 0xBF else 0
      startingAddr := 0x20000000
      addr := 0x20000002
      endAddr := 0x20000004 }
  have hs : OnBoundaries s := ⟨.single ⟨by decide,by decide⟩,.single ⟨by decide,by decide⟩⟩
  obtain ⟨listing,hlisting⟩ := Option.isSome_iff_exists.mp
    (by decide : (printAssembly [] s 2).isSome = true)
  refine ⟨s,listing,hs,hlisting,?_,((printAssembly_lists_code hs).2 2 listing hlisting).2.2⟩
  have hlines : (printAssembly [] s 2).map (·.lines.length) = some 2 := by decide
  rw [hlisting] at hlines
  exact Option.some.inj hlines

end TwMonitor.Editor
