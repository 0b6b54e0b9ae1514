import TwMonitor.Listing
import TwMonitor.Menu

/-!
# Disassembling from an address

Eight instructions are shown, and eight more each time that the user asks for them. An address
with the interwork bit is asked about first. There is no last instruction, so the command comes
back to its menus exactly where all instructions from the address on can be shown.
-/
namespace TwMonitor.Disassembly
open ByteMemory Editor Input MemoryStore Menu NumberPad Relation Thumb

def armAddressHasThumbIntwrkBit (address : Address) : Bool := address &&& 1 != 0

/-! ## Questions -/

inductive MenuWarningFixResult where
  | proceed | fix | quit
deriving DecidableEq, Repr

def warningOptions : List MenuOption := [⟨key 'p',"Proceed"⟩,⟨key 'f',"Fix"⟩,⟨key 'q',"Quit"⟩]

def menuPresetWarningFix : Reader Key MenuWarningFixResult := do
  let opt ← menu warningOptions
  if opt = key 'p' then pure .proceed
  else if opt = key 'f' then pure .fix
  else if opt = key 'q' then pure .quit
  else ofOption none

def continueOptions : List MenuOption := [⟨key 'c',"Continue"⟩,⟨key 'q',"Quit"⟩]

def menuPresetContinue : Reader Key Bool := do
  let opt ← menu continueOptions
  pure (opt = key 'c')

/-! ## Pages -/

/-- What is shown at an address. -/
structure DisassembledLine where
  address : Address
  label : Text
  instruction : Text

section
variable (entries : List MemoryEntry) (m : Memory)

def disassembleLine (p : Address) : Option DisassembledLine := do
  let label ← monitorDisassemblePrintLabelAt entries p
  let instruction ← monitorDisassemblePrintInstructionAt entries m p
  some ⟨p,label,instruction⟩

/-- The lines, and the address behind them. -/
def disassembleLines : ℕ → Address → Option (List DisassembledLine × Address)
  | 0,p => some ([],p)
  | k + 1,p => do
      let line ← disassembleLine entries m p
      let rest ← disassembleLines k (thumbInsPtrIncrement m p)
      some (line::rest.1,rest.2)

/-- One round of the loop, with the lines that have been shown. -/
def disassembleRound (s : List DisassembledLine × Address) :
    Reader Key (List DisassembledLine × Address ⊕ List DisassembledLine) := do
  let page ← ofOption (disassembleLines entries m 8 s.2)
  let more ← menuPresetContinue
  pure (if more then .inl (s.1 ++ page.1,page.2) else .inr (s.1 ++ page.1))

theorem menuPresetContinue_takes : Takes menuPresetContinue := (takes_menu _).bind_left _

theorem disassembleRound_takes (s : List DisassembledLine × Address) :
    Takes (disassembleRound entries m s) :=
  Takes.bind_right _ fun _ => menuPresetContinue_takes.bind_left _

def disassembleFrom (addr : Address) : Reader Key (List DisassembledLine) :=
  rounds (disassembleRound entries m) (disassembleRound_takes entries m) ([],addr)

/-- `monitor_disassemble`, with all that it has shown. -/
def monitorDisassemble (addr : Address) : Reader Key (List DisassembledLine) :=
  if armAddressHasThumbIntwrkBit addr then do
    let result ← menuPresetWarningFix
    match result with
    | .fix => disassembleFrom entries m (armAddressSetThumbIntwrkBit addr false)
    | .proceed => disassembleFrom entries m addr
    | .quit => pure []
  else disassembleFrom entries m addr

end

/-! ## The questions are answered -/

theorem warningOptions_usable : Usable warningOptions := by decide

theorem continueOptions_usable : Usable continueOptions := by decide

@[simp] theorem returns_menuPresetContinue (more : Bool) : Returns menuPresetContinue more := by
  refine (returns_menu_bind continueOptions_usable).mpr ?_
  cases more with
  | true => exact ⟨_,List.mem_cons_self,returns_pure.mpr (by decide)⟩
  | false => exact ⟨⟨key 'q',"Quit"⟩,by decide,returns_pure.mpr (by decide)⟩

@[simp] theorem returns_menuPresetWarningFix (result : MenuWarningFixResult) :
    Returns menuPresetWarningFix result := by
  refine (returns_menu_bind warningOptions_usable).mpr ?_
  cases result with
  | proceed => exact ⟨_,List.mem_cons_self,returns_pure.mpr rfl⟩
  | fix => exact ⟨⟨key 'f',"Fix"⟩,by decide,returns_pure.mpr rfl⟩
  | quit => exact ⟨⟨key 'q',"Quit"⟩,by decide,returns_pure.mpr rfl⟩

theorem safe_menuPresetContinue : Safe menuPresetContinue :=
  (safe_menu continueOptions_usable).bind fun _ _ => safe_pure _

theorem safe_menuPresetWarningFix : Safe menuPresetWarningFix := by
  refine (safe_menu warningOptions_usable).bind fun opt hopt => ?_
  rw [returns_menu warningOptions_usable] at hopt
  have hcases : opt = key 'p' ∨ opt = key 'f' ∨ opt = key 'q' := by
    simpa [warningOptions] using hopt
  rcases hcases with rfl | rfl | rfl <;> exact safe_pure _

/-! ## What is shown -/

section
variable {entries : List MemoryEntry} {m : Memory} {p q : Address}

/-- The instructions from an address on. -/
def instructionAt (m : Memory) (p : Address) (n : ℕ) : Address := (thumbInsPtrIncrement m)^[n] p

theorem disassembleLine_isSome_iff (entries : List MemoryEntry) (m : Memory) (p : Address) :
    (disassembleLine entries m p).isSome = true ↔ CanBeShown (load32 m p) := by
  have hlisted : (disassembleLine entries m p).isSome = (listedLine entries m p p).isSome := by
    unfold disassembleLine listedLine
    cases monitorDisassemblePrintLabelAt entries p with
    | none => rfl
    | some label =>
        simp only [Option.bind_eq_bind,Option.bind_some]
        cases monitorDisassemblePrintInstructionAt entries m p <;> rfl
  rw [hlisted]
  exact listedLine_isSome_iff entries m p p

/-- Line by line, with no instruction left out. -/
theorem disassembleLines_eq_some {k : ℕ} {lines : List DisassembledLine} :
    disassembleLines entries m k p = some (lines,q) ↔
      q = instructionAt m p k ∧ lines.length = k ∧
        ∀ n (hn : n < lines.length),
          disassembleLine entries m (instructionAt m p n) = some lines[n] := by
  induction k generalizing p lines with
  | zero =>
      rw [disassembleLines,Option.some.injEq,Prod.mk.injEq]
      constructor
      · rintro ⟨rfl,rfl⟩
        exact ⟨rfl,rfl,fun n hn => absurd hn (Nat.not_lt_zero n)⟩
      · rintro ⟨rfl,hlen,-⟩
        exact ⟨(List.length_eq_zero_iff.mp hlen).symm,rfl⟩
  | succ k ih =>
      constructor
      · intro h
        obtain ⟨line,hline,h⟩ := Option.bind_eq_some_iff.mp h
        obtain ⟨⟨rest,q'⟩,hrest,h⟩ := Option.bind_eq_some_iff.mp h
        obtain ⟨rfl,rfl⟩ := Prod.mk.inj (Option.some.inj h)
        obtain ⟨hq,hlen,hlines⟩ := ih.mp hrest
        refine ⟨hq,congrArg (· + 1) hlen,fun n hn => ?_⟩
        cases n with
        | zero => exact hline
        | succ n => exact hlines n (Nat.lt_of_succ_lt_succ hn)
      · rintro ⟨hq,hlen,hlines⟩
        cases lines with
        | nil => cases hlen
        | cons line rest =>
            have hfirst := hlines 0 (Nat.succ_pos _)
            have hrest := @ih (thumbInsPtrIncrement m p) rest |>.mpr
              ⟨hq,Nat.succ.inj hlen,fun n hn => hlines (n + 1) (Nat.succ_lt_succ hn)⟩
            rw [disassembleLines,show disassembleLine entries m p = some line from hfirst]
            simp only [Option.bind_eq_bind,Option.bind_some,hrest]

theorem disassembleLines_isSome_iff (k : ℕ) : (disassembleLines entries m k p).isSome = true ↔
    ∀ n < k, CanBeShown (load32 m (instructionAt m p n)) := by
  induction k generalizing p with
  | zero => exact ⟨fun _ n hn => absurd hn (Nat.not_lt_zero n),fun _ => rfl⟩
  | succ k ih =>
      have hcons : (disassembleLines entries m (k + 1) p).isSome =
          ((disassembleLine entries m p).isSome &&
            (disassembleLines entries m k (thumbInsPtrIncrement m p)).isSome) := by
        rw [disassembleLines]
        cases disassembleLine entries m p with
        | none => rfl
        | some line =>
            simp only [Option.bind_eq_bind,Option.bind_some]
            cases disassembleLines entries m k (thumbInsPtrIncrement m p) <;> rfl
      rw [hcons,Bool.and_eq_true,disassembleLine_isSome_iff,ih]
      constructor
      · rintro ⟨hfirst,hrest⟩ n hn
        cases n with
        | zero => exact hfirst
        | succ n => exact hrest n (Nat.lt_of_succ_lt_succ hn)
      · intro h
        exact ⟨h 0 (Nat.succ_pos k),fun n hn => h (n + 1) (Nat.succ_lt_succ hn)⟩

theorem disassembleLines_add {j k : ℕ} {lines : List DisassembledLine} :
    disassembleLines entries m (j + k) p = some (lines,q) ↔
      ∃ first rest r, disassembleLines entries m j p = some (first,r) ∧
        disassembleLines entries m k r = some (rest,q) ∧ lines = first ++ rest := by
  induction j generalizing p lines with
  | zero => simp [disassembleLines]
  | succ j ih =>
      rw [Nat.add_right_comm,disassembleLines,disassembleLines]
      cases disassembleLine entries m p with
      | none => simp
      | some line =>
          simp only [Option.bind_eq_bind,Option.bind_some]
          constructor
          · intro h
            obtain ⟨⟨more,q'⟩,hmore,h⟩ := Option.bind_eq_some_iff.mp h
            obtain ⟨rfl,rfl⟩ := Prod.mk.inj (Option.some.inj h)
            obtain ⟨first,rest,r,hfirst,hrest,rfl⟩ := ih.mp hmore
            exact ⟨line::first,rest,r,by rw [hfirst]; rfl,hrest,rfl⟩
          · rintro ⟨first,rest,r,hfirst,hrest,rfl⟩
            obtain ⟨⟨more,r'⟩,hmore,hfirst⟩ := Option.bind_eq_some_iff.mp hfirst
            obtain ⟨rfl,rfl⟩ := Prod.mk.inj (Option.some.inj hfirst)
            rw [ih.mpr ⟨more,rest,r',hmore,hrest,rfl⟩]
            rfl

/-! ## Page by page -/

theorem round_disassembleRound {s t : List DisassembledLine × Address} :
    Round (disassembleRound entries m) s t ↔
      ∃ page, disassembleLines entries m 8 s.2 = some page ∧ t = (s.1 ++ page.1,page.2) := by
  unfold Round disassembleRound
  simp only [returns_bind,returns_ofOption,returns_pure]
  refine exists_congr fun page => and_congr_right fun _ => ?_
  constructor
  · rintro ⟨more,-,hmore⟩
    cases more with
    | true => exact Sum.inl.inj hmore
    | false => cases hmore
  · rintro rfl
    exact ⟨true,returns_menuPresetContinue true,rfl⟩

theorem disassembleRound_last {s : List DisassembledLine × Address}
    {lines : List DisassembledLine} : Returns (disassembleRound entries m s) (.inr lines) ↔
      ∃ page, disassembleLines entries m 8 s.2 = some page ∧ lines = s.1 ++ page.1 := by
  unfold disassembleRound
  simp only [returns_bind,returns_ofOption,returns_pure]
  refine exists_congr fun page => and_congr_right fun _ => ?_
  constructor
  · rintro ⟨more,-,hmore⟩
    cases more with
    | true => cases hmore
    | false => exact Sum.inr.inj hmore
  · rintro rfl
    exact ⟨false,returns_menuPresetContinue false,rfl⟩

/-- After some pages. -/
theorem disassembleRounds_iff {t : List DisassembledLine × Address} :
    ReflTransGen (Round (disassembleRound entries m)) ([],p) t ↔
      ∃ pages, disassembleLines entries m (8 * pages) p = some t := by
  constructor
  · intro h
    induction h with
    | refl => exact ⟨0,rfl⟩
    | tail _ hround ih =>
        obtain ⟨pages,hpages⟩ := ih
        obtain ⟨page,hpage,rfl⟩ := round_disassembleRound.mp hround
        exact ⟨pages + 1,disassembleLines_add.mpr ⟨_,_,_,hpages,hpage,rfl⟩⟩
  · rintro ⟨pages,hpages⟩
    induction pages generalizing t with
    | zero =>
        obtain rfl := Option.some.inj hpages
        exact .refl
    | succ pages ih =>
        obtain ⟨lines,q⟩ := t
        obtain ⟨first,rest,r,hfirst,hrest,rfl⟩ := disassembleLines_add.mp hpages
        exact .tail (ih hfirst) (round_disassembleRound.mpr ⟨_,hrest,rfl⟩)

theorem returns_disassembleFrom {lines : List DisassembledLine} :
    Returns (disassembleFrom entries m p) lines ↔
      ∃ pages q, disassembleLines entries m (8 * (pages + 1)) p = some (lines,q) := by
  unfold disassembleFrom
  rw [returns_rounds]
  constructor
  · rintro ⟨t,ht,hlast⟩
    obtain ⟨pages,hpages⟩ := disassembleRounds_iff.mp ht
    obtain ⟨page,hpage,rfl⟩ := disassembleRound_last.mp hlast
    exact ⟨pages,page.2,disassembleLines_add.mpr ⟨_,_,_,hpages,hpage,rfl⟩⟩
  · rintro ⟨pages,q,h⟩
    obtain ⟨first,rest,r,hfirst,hrest,rfl⟩ := disassembleLines_add.mp h
    exact ⟨(first,r),disassembleRounds_iff.mpr ⟨pages,hfirst⟩,
      disassembleRound_last.mpr ⟨_,hrest,rfl⟩⟩

theorem safe_disassembleFrom_iff : Safe (disassembleFrom entries m p) ↔
    ∀ n, CanBeShown (load32 m (instructionAt m p n)) := by
  constructor
  · intro h n
    induction n using Nat.strong_induction_on with
    | _ n ih =>
        -- the page with the instruction is begun, and every page that is begun is shown
        have hpages := (@disassembleLines_isSome_iff entries m p (8 * (n / 8))).mpr
          fun i hi => ih i (by omega)
        obtain ⟨⟨lines,q⟩,hlines⟩ := Option.isSome_iff_exists.mp hpages
        have hround := h.reached (disassembleRounds_iff.mpr ⟨n / 8,hlines⟩)
        have hpage := (disassembleLines_isSome_iff 8).mp (safe_ofOption_iff.mp hround.first)
          (n % 8) (Nat.mod_lt n (by decide))
        rw [(disassembleLines_eq_some.mp hlines).1,instructionAt,instructionAt,
          ← Function.iterate_add_apply,Nat.mod_add_div n 8] at hpage
        exact hpage
  · intro hshown
    refine safe_rounds (I := fun s => ∃ n, s.2 = instructionAt m p n) ⟨0,rfl⟩ ?_ ?_
    · rintro s ⟨n,hs⟩
      have hpage : (disassembleLines entries m 8 s.2).isSome = true := by
        refine (disassembleLines_isSome_iff 8).mpr fun i _ => ?_
        rw [hs,instructionAt,instructionAt,← Function.iterate_add_apply]
        exact hshown (i + n)
      exact (safe_ofOption hpage).bind fun _ _ =>
        safe_menuPresetContinue.bind fun _ _ => safe_pure _
    · rintro s t ⟨n,hs⟩ hround
      obtain ⟨page,hpage,rfl⟩ := round_disassembleRound.mp hround
      refine ⟨8 + n,?_⟩
      rw [(disassembleLines_eq_some.mp hpage).1,hs,instructionAt,instructionAt,instructionAt,
        ← Function.iterate_add_apply]

end

/-! ## The command -/

/-- Where the user can begin: a warning is passed over, or the address is fixed. -/
def Begins (addr start : Address) : Prop :=
  start = addr ∨ start = armAddressSetThumbIntwrkBit addr false

theorem clear_thumbIntwrkBit {addr : Address} (h : ¬armAddressHasThumbIntwrkBit addr = true) :
    armAddressSetThumbIntwrkBit addr false = addr := by
  have hbit : addr &&& 1 = 0#32 := by simpa [armAddressHasThumbIntwrkBit] using h
  rw [armAddressSetThumbIntwrkBit,if_neg Bool.false_ne_true]
  apply BitVec.eq_of_getLsbD_eq
  intro i hi
  have hi' := congrArg (BitVec.getLsbD · i) hbit
  simp only [BitVec.getLsbD_and,BitVec.getLsbD_not,BitVec.getLsbD_zero] at hi' ⊢
  cases haddr : addr.getLsbD i with
  | false => exact Bool.false_and _
  | true =>
      rw [haddr,Bool.true_and] at hi'
      rw [hi',Bool.true_and,decide_eq_true hi]
      rfl

section
variable {entries : List MemoryEntry} {m : Memory} {addr : Address}

theorem monitorDisassemble_asks (hbit : armAddressHasThumbIntwrkBit addr = true) :
    monitorDisassemble entries m addr = (menuPresetWarningFix >>= fun result =>
      match result with
      | .fix => disassembleFrom entries m (armAddressSetThumbIntwrkBit addr false)
      | .proceed => disassembleFrom entries m addr
      | .quit => pure []) := if_pos hbit

theorem monitorDisassemble_direct (hbit : ¬armAddressHasThumbIntwrkBit addr = true) :
    monitorDisassemble entries m addr = disassembleFrom entries m addr := if_neg hbit

theorem begins_iff (hbit : ¬armAddressHasThumbIntwrkBit addr = true) (start : Address) :
    Begins addr start ↔ start = addr := by
  rw [Begins,clear_thumbIntwrkBit hbit,or_self]

theorem returns_monitorDisassemble {lines : List DisassembledLine} :
    Returns (monitorDisassemble entries m addr) lines ↔
      (armAddressHasThumbIntwrkBit addr = true ∧ lines = []) ∨
        ∃ start, Begins addr start ∧ Returns (disassembleFrom entries m start) lines := by
  by_cases hbit : armAddressHasThumbIntwrkBit addr = true
  · rw [monitorDisassemble_asks hbit,returns_bind]
    constructor
    · rintro ⟨result,-,hlines⟩
      cases result with
      | proceed => exact .inr ⟨addr,.inl rfl,hlines⟩
      | fix => exact .inr ⟨_,.inr rfl,hlines⟩
      | quit => exact .inl ⟨hbit,returns_pure.mp hlines⟩
    · rintro (⟨-,rfl⟩ | ⟨start,rfl | rfl,hlines⟩)
      · exact ⟨.quit,returns_menuPresetWarningFix .quit,returns_pure.mpr rfl⟩
      · exact ⟨.proceed,returns_menuPresetWarningFix .proceed,hlines⟩
      · exact ⟨.fix,returns_menuPresetWarningFix .fix,hlines⟩
  · rw [monitorDisassemble_direct hbit]
    simp only [begins_iff hbit,hbit,Bool.false_eq_true,false_and,false_or,exists_eq_left]

theorem safe_monitorDisassemble_iff : Safe (monitorDisassemble entries m addr) ↔
    ∀ start, Begins addr start → ∀ n, CanBeShown (load32 m (instructionAt m start n)) := by
  by_cases hbit : armAddressHasThumbIntwrkBit addr = true
  · rw [monitorDisassemble_asks hbit]
    constructor
    · intro h start hstart
      rcases hstart with rfl | rfl
      · exact safe_disassembleFrom_iff.mp (h.after (returns_menuPresetWarningFix .proceed))
      · exact safe_disassembleFrom_iff.mp (h.after (returns_menuPresetWarningFix .fix))
    · intro h
      refine safe_menuPresetWarningFix.bind fun result _ => ?_
      cases result with
      | proceed => exact safe_disassembleFrom_iff.mpr (h addr (.inl rfl))
      | fix => exact safe_disassembleFrom_iff.mpr (h _ (.inr rfl))
      | quit => exact safe_pure _
  · rw [monitorDisassemble_direct hbit]
    simp only [begins_iff hbit,forall_eq,safe_disassembleFrom_iff]

end

/-- Whole pages are shown, with each instruction behind the one before it. The user always gets
back to the questions exactly where all instructions on the way can be shown. -/
theorem monitorDisassemble_iff (entries : List MemoryEntry) (m : Memory) (addr : Address) :
    (∀ lines, Returns (monitorDisassemble entries m addr) lines ↔
        (armAddressHasThumbIntwrkBit addr = true ∧ lines = []) ∨
          ∃ start pages, Begins addr start ∧ lines.length = 8 * (pages + 1) ∧
            ∀ n (hn : n < lines.length),
              disassembleLine entries m (instructionAt m start n) = some lines[n]) ∧
      (Safe (monitorDisassemble entries m addr) ↔
        ∀ start, Begins addr start → ∀ n, CanBeShown (load32 m (instructionAt m start n))) := by
  refine ⟨fun lines => ?_,safe_monitorDisassemble_iff⟩
  simp only [returns_monitorDisassemble,returns_disassembleFrom,disassembleLines_eq_some,
    exists_eq_left,exists_and_left]

end TwMonitor.Disassembly
