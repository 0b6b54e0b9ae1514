import TwMonitor.DebugMonitor
import TwMonitor.Disassembly
import TwMonitor.ExceptionStack
import TwMonitor.UsartDriver

/-!
# The debugger as the user sees it

The debug monitor is an exception. It shows the instruction at the program counter and reads
keys, until one of them leaves the menu. The code that it has stopped goes on with its registers
as they were, where the menu says. USART2 is polled meanwhile, and forgets what it has received.
The registers that are printed are left out.
-/
namespace TwMonitor.Debugger
open ByteMemory Debug Disassembly Editor ExceptionStack Input MemoryStore Menu NumberPad Relation
  Thumb

def debugOptions : List MenuOption :=
  [⟨key 's',"Step"⟩,⟨key 'z',"Skip Instruction"⟩,⟨key 'c',"Continue (Stop stepping)"⟩,
   ⟨key 'u',"Un-assemble from PC"⟩,⟨key 'm',"Exit to monitor"⟩]

section
variable (entries : List MemoryEntry) (m : Memory) (exitToMonitor : Address)

/-- The next program counter to show, or how the menu is left. -/
def chooseDebugOption (pc : Address) : Reader Key (Address ⊕ Address × Bool) := do
  let opt ← menu debugOptions
  if opt = key 's' then pure (.inr (pc,true))
  else if opt = key 'z' then pure (.inl (thumbInsPtrIncrement m pc))
  else if opt = key 'c' then pure (.inr (pc,false))
  else if opt = key 'u' then do
    let _ ← monitorDisassemble entries m pc
    pure (.inl pc)
  else if opt = key 'm' then pure (.inr (exitToMonitor,false))
  else ofOption none

/-- One round of the loop. -/
def debugRound (pc : Address) : Reader Key (Address ⊕ Address × Bool) := do
  let insSpec ← ofOption (thumbDisassemble (load32 m pc))
  let _ ← ofOption (thumbPrintInstruction entries insSpec pc)
  chooseDebugOption entries m exitToMonitor pc

theorem debugRound_takes (pc : Address) : Takes (debugRound entries m exitToMonitor pc) :=
  Takes.bind_right _ fun _ => Takes.bind_right _ fun _ => (takes_menu _).bind_left _

/-- The part that is left through the menu. -/
def showDebuggerKeys (s : DebugState) (pc : Address) (stuck : Bool) : Reader Key DebugResult := do
  let left ← rounds (debugRound entries m exitToMonitor) (debugRound_takes entries m exitToMonitor)
    pc
  pure { state := { s with stepping := left.2 }, pc := left.1, stuck, shown := true }

/-- `debug_monitor`, key by key. -/
def debugMonitorKeys (s : DebugState) (pc : Address) : Reader Key DebugResult :=
  if s.startSteppingAddress ≠ 0 then
    let isStuck : Bool := pc == s.lastPc
    if pc = s.startSteppingAddress ∨ isStuck then
      showDebuggerKeys entries m exitToMonitor { s with lastPc := 0, startSteppingAddress := 0 } pc
        isStuck
    else pure { state := { s with lastPc := pc }, pc, stuck := false, shown := false }
  else showDebuggerKeys entries m exitToMonitor s pc false

end

/-! ## Rounds and options -/

/-- The program counters that are shown while these options are chosen. -/
def menuStops (m : Memory) : List DebugOption → Address → List Address
  | .skipInstruction::options,pc => pc::menuStops m options (thumbInsPtrIncrement m pc)
  | .unassemble::options,pc => pc::menuStops m options pc
  | _,pc => [pc]

theorem debugOptions_usable : Usable debugOptions := by decide

section
variable {entries : List MemoryEntry} {m : Memory} {exitToMonitor pc : Address}

theorem shown_iff (entries : List MemoryEntry) (m : Memory) (pc : Address) :
    (∃ insSpec, thumbDisassemble (load32 m pc) = some insSpec ∧
      ∃ text, thumbPrintInstruction entries insSpec pc = some text) ↔ CanBeShown (load32 m pc) := by
  refine exists_congr fun insSpec => and_congr_right fun hins => ?_
  rw [← thumbPrintInstruction_isSome_iff (thumbDisassemble_tidy hins) entries pc]
  exact Option.isSome_iff_exists.symm

theorem returns_chooseDebugOption {next : Address ⊕ Address × Bool} :
    Returns (chooseDebugOption entries m exitToMonitor pc) next ↔
      next = .inr (pc,true) ∨ next = .inl (thumbInsPtrIncrement m pc) ∨ next = .inr (pc,false) ∨
        ((∃ lines, Returns (monitorDisassemble entries m pc) lines) ∧ next = .inl pc) ∨
        next = .inr (exitToMonitor,false) := by
  rw [chooseDebugOption,returns_menu_bind debugOptions_usable]
  simp only [debugOptions,List.mem_cons,List.not_mem_nil,or_false,exists_eq_or_imp,exists_eq_left]
  simp [key]

/-- An instruction that can be shown lets the user choose. -/
theorem returns_debugRound {next : Address ⊕ Address × Bool} :
    Returns (debugRound entries m exitToMonitor pc) next ↔
      CanBeShown (load32 m pc) ∧ Returns (chooseDebugOption entries m exitToMonitor pc) next := by
  rw [← shown_iff entries m pc]
  unfold debugRound
  simp only [returns_bind,returns_ofOption]
  constructor
  · rintro ⟨insSpec,hins,text,htext,hnext⟩
    exact ⟨⟨insSpec,hins,text,htext⟩,hnext⟩
  · rintro ⟨⟨insSpec,hins,text,htext⟩,hnext⟩
    exact ⟨insSpec,hins,text,htext,hnext⟩

/-- What the rounds lead to is what the options do that were chosen. -/
theorem returns_debugRounds {left : Address × Bool} :
    Returns (rounds (debugRound entries m exitToMonitor)
        (debugRound_takes entries m exitToMonitor) pc) left ↔
      ∃ options, debugMenu m exitToMonitor options pc = some left ∧
        ∀ p ∈ menuStops m options pc, CanBeShown (load32 m p) := by
  rw [returns_rounds]
  constructor
  · rintro ⟨t,ht,hlast⟩
    obtain ⟨hshown,hlast⟩ := returns_debugRound.mp hlast
    have hone (option : DebugOption) (hleft : debugMenu m exitToMonitor [option] t = some left)
        (hstops : menuStops m [option] t = [t]) :
        ∃ options, debugMenu m exitToMonitor options t = some left ∧
          ∀ p ∈ menuStops m options t, CanBeShown (load32 m p) := by
      refine ⟨[option],hleft,fun p hp => ?_⟩
      rw [hstops,List.mem_singleton] at hp
      rwa [hp]
    have hend : ∃ options, debugMenu m exitToMonitor options t = some left ∧
        ∀ p ∈ menuStops m options t, CanBeShown (load32 m p) := by
      rcases returns_chooseDebugOption.mp hlast with h | h | h | ⟨-,h⟩ | h
      · exact hone .step (congrArg some (Sum.inr.inj h).symm) rfl
      · cases h
      · exact hone .continue (congrArg some (Sum.inr.inj h).symm) rfl
      · cases h
      · exact hone .exitToMonitor (congrArg some (Sum.inr.inj h).symm) rfl
    clear hone hlast hshown
    induction ht using ReflTransGen.head_induction_on with
    | refl => exact hend
    | head hround _ ih =>
        obtain ⟨options,hleft,hstops⟩ := ih
        obtain ⟨hshown,hchosen⟩ := returns_debugRound.mp hround
        rcases returns_chooseDebugOption.mp hchosen with h | h | h | ⟨-,h⟩ | h
        · cases h
        · obtain rfl := Sum.inl.inj h
          exact ⟨.skipInstruction::options,hleft,List.forall_mem_cons.mpr ⟨hshown,hstops⟩⟩
        · cases h
        · obtain rfl := Sum.inl.inj h
          exact ⟨options,hleft,hstops⟩
        · cases h
  · rintro ⟨options,hleft,hstops⟩
    induction options generalizing pc with
    | nil => cases hleft
    | cons option options ih =>
        have hlast (hshown : CanBeShown (load32 m pc))
            (hchosen : Returns (chooseDebugOption entries m exitToMonitor pc) (.inr left)) :
            ∃ t, ReflTransGen (Round (debugRound entries m exitToMonitor)) pc t ∧
              Returns (debugRound entries m exitToMonitor t) (.inr left) :=
          ⟨pc,.refl,returns_debugRound.mpr ⟨hshown,hchosen⟩⟩
        cases option with
        | step =>
            obtain rfl := Option.some.inj hleft
            exact hlast (hstops pc List.mem_cons_self) (returns_chooseDebugOption.mpr (.inl rfl))
        | skipInstruction =>
            obtain ⟨hshown,hrest⟩ := List.forall_mem_cons.mp hstops
            obtain ⟨t,ht,hreturns⟩ := ih hleft hrest
            exact ⟨t,.head (returns_debugRound.mpr
              ⟨hshown,returns_chooseDebugOption.mpr (.inr (.inl rfl))⟩) ht,hreturns⟩
        | «continue» =>
            obtain rfl := Option.some.inj hleft
            exact hlast (hstops pc List.mem_cons_self)
              (returns_chooseDebugOption.mpr (.inr (.inr (.inl rfl))))
        | unassemble => exact ih hleft (List.forall_mem_cons.mp hstops).2
        | exitToMonitor =>
            obtain rfl := Option.some.inj hleft
            exact hlast (hstops pc List.mem_cons_self)
              (returns_chooseDebugOption.mpr (.inr (.inr (.inr (.inr rfl)))))

/-- The debugger is shown, and does not step on silently. -/
def Shows (s : DebugState) (pc : Address) : Prop :=
  s.startSteppingAddress = 0 ∨ pc = s.startSteppingAddress ∨ pc = s.lastPc

theorem returns_showDebuggerKeys {s : DebugState} {stuck : Bool} {r : DebugResult} :
    Returns (showDebuggerKeys entries m exitToMonitor s pc stuck) r ↔
      ∃ options, showDebugger s m exitToMonitor options pc stuck = some r ∧
        ∀ p ∈ menuStops m options pc, CanBeShown (load32 m p) := by
  unfold showDebuggerKeys showDebugger
  simp only [returns_bind,returns_pure,returns_debugRounds,Option.map_eq_some_iff]
  constructor
  · rintro ⟨left,⟨options,hleft,hstops⟩,rfl⟩
    exact ⟨options,⟨left,hleft,rfl⟩,hstops⟩
  · rintro ⟨options,⟨left,hleft,rfl⟩,hstops⟩
    exact ⟨left,⟨options,hleft,hstops⟩,rfl⟩

/-- Key by key the debugger does what it does option by option, as long as it can show where
it is. -/
theorem returns_debugMonitorKeys {s : DebugState} {r : DebugResult} :
    Returns (debugMonitorKeys entries m exitToMonitor s pc) r ↔
      ∃ options, debugMonitor s m exitToMonitor options pc = some r ∧
        (Shows s pc → ∀ p ∈ menuStops m options pc, CanBeShown (load32 m p)) := by
  unfold debugMonitorKeys debugMonitor Shows
  by_cases hstart : s.startSteppingAddress = 0
  · simp only [hstart,ne_eq,not_true_eq_false,if_false,true_or,true_implies]
    exact returns_showDebuggerKeys
  · simp only [ne_eq,hstart,not_false_eq_true,if_true,false_or,beq_iff_eq]
    by_cases hshows : pc = s.startSteppingAddress ∨ pc = s.lastPc
    · simp only [hshows,if_true,true_implies]
      exact returns_showDebuggerKeys
    · simp only [hshows,if_false,false_implies,and_true,returns_pure,exists_const,
        Option.some.injEq]
      exact eq_comm

/-! ## What hangs -/

theorem safe_debugRound_iff : Safe (debugRound entries m exitToMonitor pc) ↔
    Safe (monitorDisassemble entries m pc) := by
  constructor
  · intro h
    obtain ⟨insSpec,hins⟩ := Option.isSome_iff_exists.mp (safe_ofOption_iff.mp h.first)
    have hprint := h.after (returns_ofOption.mpr hins)
    obtain ⟨text,htext⟩ := Option.isSome_iff_exists.mp (safe_ofOption_iff.mp hprint.first)
    have hchoose := hprint.after (returns_ofOption.mpr htext)
    have hdisassemble : Safe (monitorDisassemble entries m pc >>= fun _ =>
        (pure (.inl pc) : Reader Key (Address ⊕ Address × Bool))) :=
      hchoose.after ((returns_menu debugOptions_usable (key 'u')).mpr (by decide))
    exact hdisassemble.first
  · intro h
    obtain ⟨insSpec,hins,text,htext⟩ :=
      (shown_iff entries m pc).mpr (safe_monitorDisassemble_iff.mp h pc (.inl rfl) 0)
    unfold debugRound
    rw [hins]
    refine (safe_ofOption rfl).bind fun insSpec' hspec => ?_
    obtain rfl := Option.some.inj (returns_ofOption.mp hspec)
    rw [htext]
    refine (safe_ofOption rfl).bind fun _ _ => ?_
    refine (safe_menu debugOptions_usable).bind fun opt hopt => ?_
    rw [returns_menu debugOptions_usable] at hopt
    have hcases : opt = key 's' ∨ opt = key 'z' ∨ opt = key 'c' ∨ opt = key 'u' ∨
      opt = key 'm' := by
      simpa [debugOptions] using hopt
    rcases hcases with rfl | rfl | rfl | rfl | rfl
    · exact safe_pure _
    · exact safe_pure _
    · exact safe_pure _
    · exact h.bind fun _ _ => safe_pure _
    · exact safe_pure _

theorem safe_debugRounds_iff :
    Safe (rounds (debugRound entries m exitToMonitor)
        (debugRound_takes entries m exitToMonitor) pc) ↔
      ∀ n, Safe (monitorDisassemble entries m (instructionAt m pc n)) := by
  constructor
  · intro h n
    refine safe_debugRound_iff.mp (h.reached ?_)
    -- the instructions before it are shown, and can be skipped
    induction n with
    | zero => exact .refl
    | succ n ih =>
        have hshown := safe_monitorDisassemble_iff.mp (safe_debugRound_iff.mp (h.reached ih))
          (instructionAt m pc n) (.inl rfl) 0
        refine ih.tail (returns_debugRound.mpr ⟨hshown,?_⟩)
        refine returns_chooseDebugOption.mpr (.inr (.inl (congrArg Sum.inl ?_)))
        exact Function.iterate_succ_apply' (thumbInsPtrIncrement m) n pc
  · intro h
    refine safe_rounds (I := fun q => ∃ n, q = instructionAt m pc n) ⟨0,rfl⟩ ?_ ?_
    · rintro q ⟨n,rfl⟩
      exact safe_debugRound_iff.mpr (h n)
    · rintro q q' ⟨n,rfl⟩ hround
      have hchosen := returns_chooseDebugOption.mp (returns_debugRound.mp hround).2
      rcases hchosen with h | h | h | ⟨-,h⟩ | h
      · cases h
      · refine ⟨n + 1,(Sum.inl.inj h).trans ?_⟩
        exact (Function.iterate_succ_apply' (thumbInsPtrIncrement m) n pc).symm
      · cases h
      · exact ⟨n,Sum.inl.inj h⟩
      · cases h

/-- Some keys hang the debugger exactly where it is shown and an instruction ahead, or one that
can be reached from there with the interwork bit cleared, cannot be shown. -/
theorem safe_debugMonitorKeys_iff {s : DebugState} :
    Safe (debugMonitorKeys entries m exitToMonitor s pc) ↔
      (Shows s pc → ∀ n start, Begins (instructionAt m pc n) start →
        ∀ k, CanBeShown (load32 m (instructionAt m start k))) := by
  have hshow (s : DebugState) (stuck : Bool) :
      Safe (showDebuggerKeys entries m exitToMonitor s pc stuck) ↔
        ∀ n start, Begins (instructionAt m pc n) start →
          ∀ k, CanBeShown (load32 m (instructionAt m start k)) := by
    have hrounds : Safe (showDebuggerKeys entries m exitToMonitor s pc stuck) ↔ Safe (rounds
        (debugRound entries m exitToMonitor) (debugRound_takes entries m exitToMonitor) pc) :=
      ⟨fun h => h.first,fun h => h.bind fun _ _ => safe_pure _⟩
    rw [hrounds,safe_debugRounds_iff]
    exact forall_congr' fun n => safe_monitorDisassemble_iff
  unfold debugMonitorKeys Shows
  by_cases hstart : s.startSteppingAddress = 0
  · simp only [hstart,ne_eq,not_true_eq_false,if_false,true_or,true_implies]
    exact hshow s false
  · simp only [ne_eq,hstart,not_false_eq_true,if_true,false_or,beq_iff_eq]
    by_cases hshows : pc = s.startSteppingAddress ∨ pc = s.lastPc
    · simp only [hshows,if_true,true_implies]
      exact hshow _ _
    · simp only [hshows,if_false,false_implies,iff_true]
      exact safe_pure _

end

/-! ## The exception -/

def debugMonitorException : ℕ := 12

section
variable (entries : List MemoryEntry) (exitToMonitor : Address) (saves : Cpu → Memory)
  (leaves : Cpu → Memory → Memory)

/-- `_debug_monitor`: memory after the registers are saved, and after the debugger. It hangs on
the other stack. -/
def debugMonitorEntry (s : DebugState) (c : Cpu) : Reader Key (DebugState × Cpu) := do
  ofOption (guard (c.context.lr &&& 0xF ≠ 0xD))
  let m := saves c
  let r ← debugMonitorKeys entries m exitToMonitor s (load32 m (c.sp + 24))
  let c ← ofOption (exceptionReturn c.context.lr
    { c with memory := store32 (leaves c m) (c.sp + 24) r.pc })
  pure (r.state,c)

end

section
variable {entries : List MemoryEntry} {exitToMonitor : Address} {saves : Cpu → Memory}
  {leaves : Cpu → Memory → Memory} {vector : ℕ → Address} {s : DebugState} {c : Cpu}

/-- On taking the exception. -/
def entered (vector : ℕ → Address) (c : Cpu) : Cpu := exceptionEntry vector debugMonitorException c

/-- The code that was stopped, at another address. -/
def resumed (c : Cpu) (pc : Address) (m : Memory) : Cpu :=
  { c with memory := m, context := { c.context with pc } }

/-- The memory that the debugger leaves, with the program counter in the frame. -/
def leftMemory (saves : Cpu → Memory) (leaves : Cpu → Memory → Memory) (d : Cpu) (pc : Address) :
    Memory := store32 (leaves d (saves d)) (d.sp + 24) pc

theorem entered_link : (entered vector c).context.lr &&& 0xF ≠ 0xD := by
  show (if c.ipsr = 0 then returnToThread else returnToHandler) &&& 0xF ≠ 0xD
  split <;> decide

variable (hsaves : ∀ a, InRange (entered vector c).sp 32 a →
    saves (entered vector c) a = (entered vector c).memory a)
  (hleaves : ∀ m a, InRange (entered vector c).sp 32 a → leaves (entered vector c) m a = m a)
include hsaves

theorem saved_frame : loadContext (saves (entered vector c)) (entered vector c).sp =
    { c.context with xpsr := markAligned c.context.xpsr (c.sp &&& 4 != 0) } := by
  rw [loadContext_congr hsaves]
  exact exceptionEntry_saved vector debugMonitorException c

theorem saved_pc : load32 (saves (entered vector c)) ((entered vector c).sp + 24) =
    c.context.pc := congrArg Context.pc (saved_frame hsaves)

include hleaves

/-- Wherever the menu is left to, the return leads there. -/
theorem debugMonitor_return (h : c.Coherent) (hinactive : debugMonitorException ∉ c.active)
    (hroom : 36 ≤ c.sp.toNat) (pc : Address) :
    exceptionReturn (entered vector c).context.lr
        { entered vector c with memory := leftMemory saves leaves (entered vector c) pc } =
      some (resumed c pc (leftMemory saves leaves (entered vector c) pc)) := by
  refine exceptionReturn_entry vector h (by decide) hinactive hroom ?_
  show loadContext (leftMemory saves leaves (entered vector c) pc) (entered vector c).sp = _
  rw [leftMemory,loadContext_store_pc,loadContext_congr (hleaves _),
    saved_frame hsaves]

theorem debugMonitorEntry_eq (h : c.Coherent) (hinactive : debugMonitorException ∉ c.active)
    (hroom : 36 ≤ c.sp.toNat) :
    debugMonitorEntry entries exitToMonitor saves leaves s (entered vector c) =
      (do
        let r ← debugMonitorKeys entries (saves (entered vector c)) exitToMonitor s c.context.pc
        pure (r.state,resumed c r.pc (leftMemory saves leaves (entered vector c) r.pc))) := by
  have hguard : guard (f := Option) ((entered vector c).context.lr &&& 0xF ≠ 0xD) = some () :=
    if_pos entered_link
  unfold debugMonitorEntry
  rw [hguard,ofOption_some_bind]
  dsimp only
  rw [saved_pc hsaves]
  congr 1
  funext r
  have hreturn := @debugMonitor_return saves leaves vector c hsaves hleaves h hinactive hroom r.pc
  rw [leftMemory] at hreturn
  rw [hreturn,ofOption_some_bind]
  rfl

end

/-- The debugger stops a thread or a handler. Whatever is typed, that goes on with all registers
as they were but for the program counter, which is where options of the menu lead to, and all
options can be typed that lead past instructions which can be shown. It hangs for some keys exactly
where it is shown and not all instructions ahead can be. -/
theorem debugMonitorEntry_iff {entries : List MemoryEntry} {exitToMonitor : Address}
    {saves : Cpu → Memory} {leaves : Cpu → Memory → Memory} {vector : ℕ → Address}
    {s : DebugState} {c : Cpu}
    (hsaves : ∀ a, InRange (entered vector c).sp 32 a →
      saves (entered vector c) a = (entered vector c).memory a)
    (hleaves : ∀ m a, InRange (entered vector c).sp 32 a → leaves (entered vector c) m a = m a)
    (h : c.Coherent) (hinactive : debugMonitorException ∉ c.active) (hroom : 36 ≤ c.sp.toNat) :
    (∀ s' c', Returns
        (debugMonitorEntry entries exitToMonitor saves leaves s (entered vector c)) (s',c') ↔
          ∃ options r,
            debugMonitor s (saves (entered vector c)) exitToMonitor options c.context.pc = some r ∧
              (Shows s c.context.pc →
                ∀ p ∈ menuStops (saves (entered vector c)) options c.context.pc,
                CanBeShown (load32 (saves (entered vector c)) p)) ∧
              s' = r.state ∧
              c' = resumed c r.pc (leftMemory saves leaves (entered vector c) r.pc)) ∧
      (Safe (debugMonitorEntry entries exitToMonitor saves leaves s (entered vector c)) ↔
        (Shows s c.context.pc → ∀ n start,
          Begins (instructionAt (saves (entered vector c)) c.context.pc n) start → ∀ k,
            CanBeShown (load32 (saves (entered vector c))
              (instructionAt (saves (entered vector c)) start k)))) := by
  rw [debugMonitorEntry_eq hsaves hleaves h hinactive hroom]
  constructor
  · intro s' c'
    simp only [returns_bind,returns_pure,returns_debugMonitorKeys,Prod.mk.injEq]
    constructor
    · rintro ⟨r,⟨options,hr,hstops⟩,hs,hc⟩
      exact ⟨options,r,hr,hstops,hs,hc⟩
    · rintro ⟨options,r,hr,hstops,hs,hc⟩
      exact ⟨r,⟨options,hr,hstops⟩,hs,hc⟩
  · rw [← safe_debugMonitorKeys_iff]
    exact ⟨fun hsafe => hsafe.first,fun hsafe => hsafe.bind fun _ _ => safe_pure _⟩

/-- In a handler, with an odd number of words on the stack. -/
def handlerCpu : Cpu where
  context :=
    { r0 := 1, r1 := 2, r2 := 3, r3 := 4, r12 := 5, lr := 0xFFFFFFF9, pc := 0x100, xpsr := 53 }
  sp := 0x2001FFF4
  active := {53}
  memory := fun _ => 0

/-- An instruction is skipped, and the next one steps. -/
theorem debugMonitorEntry_iff_handler :
    Returns (debugMonitorEntry [] 0x200 Cpu.memory (fun _ m => m)
      {} (entered (fun _ => 0) handlerCpu))
    ({ stepping := true },
      resumed handlerCpu 0x102
        (leftMemory Cpu.memory (fun _ m => m) (entered (fun _ => 0) handlerCpu) 0x102)) := by
  have hcoherent : handlerCpu.Coherent := ⟨by decide,by decide,by decide⟩
  have hzero : CanBeShown 0 := canBeShown_narrow (by decide)
  have hfirst : load32 (entered (fun _ => 0) handlerCpu).memory 0x100 = 0 := by decide
  have hsecond : load32 (entered (fun _ => 0) handlerCpu).memory 0x102 = 0 := by decide
  refine ((@debugMonitorEntry_iff [] 0x200 Cpu.memory (fun _ m => m) (fun _ => 0) {} handlerCpu
    (fun _ _ => rfl) (fun _ _ _ => rfl) hcoherent (by decide) (by decide)).1 _ _).mpr ?_
  refine ⟨[.skipInstruction,.step],⟨{ stepping := true },0x102,false,true⟩,?_,fun _ p hp => ?_,
    rfl,rfl⟩
  · decide
  · have hstops :
        menuStops (entered (fun _ => 0) handlerCpu).memory [.skipInstruction,.step] 0x100 =
        [0x100,0x102] := by decide
    have hin : p ∈ [0x100,0x102] := hstops ▸ hp
    rcases List.mem_pair.mp hin with rfl | rfl
    · show CanBeShown (load32 (entered (fun _ => 0) handlerCpu).memory 0x100)
      rw [hfirst]
      exact hzero
    · show CanBeShown (load32 (entered (fun _ => 0) handlerCpu).memory 0x102)
      rw [hsecond]
      exact hzero

/-! ## The USART meanwhile -/

section
open UsartDriver
variable (stackCeiling : Address)

/-- What a debugger that is shown does with USART2, before it reads keys and behind the menu. -/
def pollMeanwhile (b : Board) : Option Board := do
  let usartPoll := (b.driverStates .usart2).poll
  let b ← (if !usartPoll then usartSetPolling stackCeiling .usart2 b true else some b)
  if !usartPoll then usartSetPolling stackCeiling .usart2 b false else some b

/-- The debugger is shown again and again. -/
def debuggerCalls : ℕ → Board → Option Board
  | 0,b => some b
  | n + 1,b => (pollMeanwhile stackCeiling b).bind (debuggerCalls n)

end

section
open UsartDriver InterruptControl
variable {stackCeiling : Address} {p : UsartPeriph} {b b' b'' : Board}

/-- USART2 receives by interrupts into a buffer. -/
structure Listening (b : Board) : Prop where
  interrupts : (b.driverStates .usart2).poll = false
  buffer : b.buffers .usart2 ≠ 0
  control1 : (b.usarts .usart2).control1 ||| usartCr1Rxneie = (b.usarts .usart2).control1
  enabled : 38 ∈ b.nvic.enabledIrqs

/-- The queue is empty, in the same buffer, and no interrupt of a USART is pending. A USART
that still requests its interrupt makes it pending again. -/
structure Forgets (b b' : Board) : Prop where
  store : b'.store = b.store
  vectorTable : b'.vectorTable = b.vectorTable
  usarts : b'.usarts = b.usarts
  driverStates : b'.driverStates = Function.update b.driverStates .usart2
    { b.driverStates .usart2 with intqueue := { buffer := b.buffers .usart2 } }
  enabled : b'.nvic.enabledIrqs = b.nvic.enabledIrqs
  pending : b'.nvic.pendingIrqs = { irq ∈ b.nvic.pendingIrqs | irq / 32 ≠ 1 }

theorem intqueueInit_held (hheld : b.buffers p ≠ 0) : intqueueInit stackCeiling p b =
    some (b.setIntqueue p { buffer := b.buffers p }) := by
  unfold intqueueInit
  dsimp only
  rw [if_neg hheld]
  simp only [Board.setBuffer,Board.setIntqueue,Board.setDriverState_self]
  unfold Board.setDriverState
  simp only [Function.update_idem]

theorem usartSetPolling_held (hheld : b.buffers p ≠ 0) {nvic : Nvic}
    (hnvic : nvicEnableIrq p.irq b.nvic = some nvic) : usartSetPolling stackCeiling p b false = some
      ({ b.setDriverState p
          { b.driverStates p with intqueue := { buffer := b.buffers p }, poll := false } with
        nvic }.updateControl1 p (· ||| usartCr1Rxneie)) := by
  have hbuffers : (b.setDriverState p { b.driverStates p with poll := false }).buffers p =
      b.buffers p := by
    rw [Board.setDriverState_buffers,Function.update_self]
    rfl
  have hinit := @intqueueInit_held stackCeiling p _ (hbuffers.symm ▸ hheld)
  rw [hbuffers] at hinit
  unfold usartSetPolling
  dsimp only
  rw [Board.setDriverState_self,if_neg Bool.false_ne_true,hinit]
  simp only [Option.bind_eq_bind,Option.bind_some]
  unfold Board.setIntqueue Board.setDriverState
  dsimp only
  rw [hnvic,Function.update_self,Function.update_idem]
  rfl

theorem and_not_or (c r : BitVec 32) : c &&& ~~~r ||| r = c ||| r := by
  apply BitVec.eq_of_getLsbD_eq
  intro i hi
  rw [BitVec.getLsbD_or,BitVec.getLsbD_or,BitVec.getLsbD_and,BitVec.getLsbD_not,
    decide_eq_true hi,Bool.true_and]
  cases c.getLsbD i <;> cases r.getLsbD i <;> rfl

/-- Polling, and what follows it. -/
def polled (nvic : Nvic) (b : Board) : Board :=
  { (b.setDriverState .usart2 { b.driverStates .usart2 with poll := true }).updateControl1 .usart2
      (· &&& ~~~usartCr1Rxneie) with nvic }

def listened (nvic : Nvic) (b : Board) : Board :=
  { b.setDriverState .usart2 { b.driverStates .usart2 with
      intqueue := { buffer := b.buffers .usart2 }, poll := false } with
    nvic }.updateControl1 .usart2 (· ||| usartCr1Rxneie)

theorem listened_polled (h : Listening b) (nvic nvic' : Nvic) :
    (listened nvic' (polled nvic b)).usarts = b.usarts ∧
      (listened nvic' (polled nvic b)).driverStates = Function.update b.driverStates .usart2
        { b.driverStates .usart2 with intqueue := { buffer := b.buffers .usart2 } } := by
  constructor
  · funext p
    by_cases hp : p = .usart2
    · obtain rfl := hp
      have hcontrol : (b.usarts .usart2).control1 &&& ~~~usartCr1Rxneie ||| usartCr1Rxneie =
          (b.usarts .usart2).control1 := (and_not_or _ _).trans h.control1
      simp only [listened,polled,Board.updateControl1,Board.setControl1,Board.setUsart,
        Board.setDriverState,Function.update_self,hcontrol]
    · simp only [listened,polled,Board.updateControl1,Board.setControl1,Board.setUsart,
        Board.setDriverState,Function.update_of_ne hp]
  · have hpoll := h.interrupts
    simp only [listened,polled,Board.updateControl1,Board.setControl1,Board.setUsart,
      Board.setDriverState,Board.buffers,Function.update_self,Function.update_idem]
    rw [← hpoll]

theorem pollMeanwhile_forgets (h : Listening b) :
    ∃ b', pollMeanwhile stackCeiling b = some b' ∧ Forgets b b' := by
  obtain ⟨nvic,-,hpoll⟩ := usartSetPolling_poll stackCeiling .usart2 b
  obtain ⟨henabled,hpending⟩ := usartSetPolling_poll_nvic hpoll
  have hheld : (polled nvic b).buffers .usart2 ≠ 0 := by
    have hkeeps := (usartSetPolling_poll_keeps hpoll).2
    rw [show (polled nvic b).buffers = b.buffers from hkeeps]
    exact h.buffer
  obtain ⟨nvic',hnvic',henabled',hpending'⟩ :=
    nvicEnableIrq_leaves (irq_lt .usart2) (polled nvic b).nvic
  have hback := @usartSetPolling_held stackCeiling .usart2 _ hheld _ hnvic'
  obtain ⟨husarts,hstates⟩ := listened_polled h nvic nvic'
  refine ⟨listened nvic' (polled nvic b),?_,rfl,rfl,husarts,hstates,?_,hpending'.trans hpending⟩
  · unfold pollMeanwhile
    rw [h.interrupts]
    simp only [Bool.not_false,if_true]
    rw [hpoll]
    exact hback
  · refine henabled'.trans ?_
    rw [show (polled nvic b).nvic.enabledIrqs = b.nvic.enabledIrqs from henabled]
    exact Set.insert_eq_of_mem h.enabled

theorem Forgets.listening (h : Listening b) (hf : Forgets b b') : Listening b' := by
  have hstate : b'.driverStates .usart2 =
      { b.driverStates .usart2 with intqueue := { buffer := b.buffers .usart2 } } := by
    rw [hf.driverStates,Function.update_self]
  refine ⟨?_,?_,?_,?_⟩
  · rw [hstate]
    exact h.interrupts
  · rw [Board.buffers,hstate]
    exact h.buffer
  · rw [hf.usarts]
    exact h.control1
  · rw [hf.enabled]
    exact h.enabled

/-- Forgetting twice is forgetting once. -/
theorem Forgets.trans (h : Forgets b b') (h' : Forgets b' b'') : Forgets b b'' := by
  have hstate : b'.driverStates .usart2 =
      { b.driverStates .usart2 with intqueue := { buffer := b.buffers .usart2 } } := by
    rw [h.driverStates,Function.update_self]
  refine ⟨h'.store.trans h.store,h'.vectorTable.trans h.vectorTable,h'.usarts.trans h.usarts,?_,
    h'.enabled.trans h.enabled,?_⟩
  · rw [h'.driverStates,Board.buffers,hstate,h.driverStates,Function.update_idem]
  · rw [h'.pending,h.pending]
    ext irq
    simp

end

/-- However often the debugger is shown, the heap, the registers and the other USART are as they
were, and USART2 receives by interrupts again. What was typed ahead is lost. -/
theorem debuggerCalls_forget {stackCeiling : Address} {b : UsartDriver.Board} (h : Listening b)
    (n : ℕ) : ∃ b', debuggerCalls stackCeiling (n + 1) b = some b' ∧ Forgets b b' ∧
      Listening b' := by
  induction n generalizing b with
  | zero =>
      obtain ⟨b',hcall,hforgets⟩ := @pollMeanwhile_forgets stackCeiling b h
      refine ⟨b',?_,hforgets,hforgets.listening h⟩
      rw [debuggerCalls,hcall]
      rfl
  | succ n ih =>
      obtain ⟨b',hcall,hforgets⟩ := @pollMeanwhile_forgets stackCeiling b h
      obtain ⟨b'',hcalls,hrest,hlistening⟩ := ih (hforgets.listening h)
      refine ⟨b'',?_,hforgets.trans hrest,hlistening⟩
      rw [debuggerCalls,hcall]
      exact hcalls

open UsartDriver in
/-- Five bytes typed ahead, in a buffer in SRAM. -/
def typedAhead : Board where
  store := { memory := fun _ => 0, lastMemoryEntry := 0x2001E000 }
  nvic := { enabled := 1#240 <<< 38, pending := 0 }
  vectorTable _ := .usartIsr
  driverStates _ := { intqueue := { buffer := 0x2001EF00, len := 5, front := 3, back := 8 } }
  usarts _ := { control1 := usartCr1Rxneie }

theorem debuggerCalls_forget_ahead : ∃ b', debuggerCalls 0x2001F000 3 typedAhead = some b' ∧
    (b'.driverStates .usart2).intqueue = { buffer := 0x2001EF00 } := by
  have henabled : typedAhead.nvic.enabled.getLsbD 38 = true := by decide
  obtain ⟨b',hcalls,hforgets,-⟩ := @debuggerCalls_forget 0x2001F000 typedAhead
    ⟨rfl,by decide,by decide,henabled⟩ 2
  refine ⟨b',hcalls,?_⟩
  rw [hforgets.driverStates,Function.update_self]
  rfl

end TwMonitor.Debugger
