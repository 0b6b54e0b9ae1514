import TwMonitor.Disassembly
import TwMonitor.MonitorMenus

/-!
# Sessions of the monitor

The loop of `monitor_main`, key by key, with the editor, the memory editor and all prompts. Its
rounds are a few moves. Every address can be chosen, so that the prompts leave no trace in
them. The store stands beside the memory here, so a user who writes over the store is not
described. What is called and what is received over the other USART may do anything.
-/
namespace TwMonitor.Monitor
open AbsoluteAddress ByteMemory Disassembly Editor Input MemoryStore Menu MonitorEnter NumberPad
open Relation Thumb

structure MonitorState where
  memory : Memory
  entries : List MemoryEntry
  addr : Address

/-- What a transfer does to memory. -/
abbrev Transfer := Address → Memory → Reader Key Memory

def monitorOptions : List MenuOption :=
  [⟨key 'a',"Assemble"⟩,⟨key 'c',"Call Address"⟩,⟨key 'd',"Memory Dump"⟩,⟨key 'e',"Enter"⟩,
   ⟨key 'm',"Memory State"⟩,⟨key 'u',"Un/Disassemble"⟩,⟨key 'r',"Receive File"⟩,
   ⟨key 's',"Call Address with Step"⟩,⟨key ';',"Development Menu"⟩,⟨ctrl 'l',"Clear Screen"⟩,
   ⟨ctrl 'r',"Reset"⟩]

/-! ## Commands -/

/-- The function is not called where the user leaves the question about its interwork bit. -/
def monitorCallFunction (execute : Call) : Call := fun fn world =>
  if armAddressHasThumbIntwrkBit fn then execute fn world
  else do
    let result ← menuPresetWarningFix
    match result with
    | .fix => execute (armAddressSetThumbIntwrkBit fn true) world
    | .proceed => execute fn world
    | .quit => pure world

/-- The address that a command takes from the prompt. -/
def commandAddress (result : AbsoluteAddressResult) : Address :=
  match result.memorySection with
  | some entry => if result.address = 0 then memoryGetSectionAddress entry else result.address
  | none => result.address

/-- With a section alone the editor starts behind the section, where it is capped to its end. -/
def assembleStart (result : AbsoluteAddressResult) : Address :=
  if result.address = 0 ∧ result.memorySection.isSome then BitVec.allOnes 32 else result.address

/-- The editor has the section by its pointer. No section in front of it is the same. -/
def updateSection (entries : List MemoryEntry) (memorySection updated : Option SectionEntry) :
    List MemoryEntry :=
  match memorySection,updated with
  | some entry,some entry' => entries.replace entry.toMemoryEntry entry'.toMemoryEntry
  | _,_ => entries

def putbyte (byte : BitVec 8) : Text :=
  [digitToChar (byte >>> 4).toNat,digitToChar (byte &&& 0x0f).toNat]

/-- Four rows of sixteen bytes. -/
def monitorMemdump (memory : Memory) (addr : Address) : Option Text :=
  ((List.range 4).mapM fun row => do
    let address ← puthexword (addr + BitVec.ofNat 32 (16 * row))
    some (address ++ (List.range 16).flatMap (fun col =>
      ' ' :: putbyte (memory (addr + BitVec.ofNat 32 (16 * row + col)))) ++ "\r\n".toList)).map
    List.flatten

def entOptions : List MenuOption :=
  [⟨key 'b',"Bytes"⟩,⟨key 'h',"Half Words"⟩,⟨key 'w',"Words"⟩,⟨key 'i',"Instructions"⟩]

def enterEntTypeSubmenu : Reader Key EnterType := do
  let opt ← menu entOptions
  if opt = key 'b' then pure (.ofEntry .etByte)
  else if opt = key 'h' then pure (.ofEntry .etHword)
  else if opt = key 'w' then pure (.ofEntry .etWord)
  else if opt = key 'i' then pure .etInstruction
  else ofOption none

def devOptions : List MenuOption :=
  [⟨key 'e',"Exec from USART1"⟩,⟨key 's',"Corrupt SVCall"⟩,⟨key 'q',"Quit"⟩]

section
variable (vectorTable : Address) (execute : Bool → Call) (transferReceive : Transfer)
  (s : MonitorState)

/-- The monitor is gone where it runs what it reads over the other USART. -/
def monitorDev : Reader Key (MonitorState ⊕ MonitorState) := do
  let opt ← menu devOptions
  if opt = key 'e' then pure (.inr s)
  else if opt = key 's' then
    pure (.inl { s with memory := store32 s.memory (vectorTable + 44) 0 })
  else pure (.inl s)

def promptAddress (labelDropInterworkBit : Bool) : Reader Key Address := do
  let result ← absoluteAddressReader s.entries s.addr labelDropInterworkBit true
  pure (commandAddress result)

def assembleCommand : Reader Key MonitorState := do
  let result ← absoluteAddressReader s.entries s.addr true true
  let t ← monitorAssembleKeys (monitorCallFunction (execute true)) s.memory s.entries
    (assembleStart result) result.memorySection
  pure { memory := t.editor.memory
         entries := updateSection t.entries result.memorySection t.editor.memorySection
         addr := if result.address = 0 then s.addr else result.address }

def callCommand (step : Bool) : Reader Key MonitorState := do
  let addr ← promptAddress s false
  let world ← monitorCallFunction (execute step) addr (s.memory,s.entries)
  pure { memory := world.1, entries := world.2, addr }

def dumpCommand : Reader Key MonitorState := do
  let addr ← promptAddress s true
  let _ ← ofOption (monitorMemdump s.memory addr)
  pure { s with addr }

def enterCommand : Reader Key MonitorState := do
  let entType ← enterEntTypeSubmenu
  let addr ← promptAddress s true
  let memory ← monitorEnterKeys s.memory addr entType
  pure { s with memory, addr }

def disassembleCommand : Reader Key MonitorState := do
  let addr ← promptAddress s true
  let _ ← monitorDisassemble s.entries s.memory addr
  pure { s with addr }

def receiveCommand : Reader Key MonitorState := do
  let addr ← gethexwordReader s.addr
  let memory ← transferReceive addr s.memory
  pure { s with memory, addr }

/-- One round of `monitor_main`, which ends with a reset. -/
def monitorRound : Reader Key (MonitorState ⊕ MonitorState) := do
  let opt ← menu monitorOptions
  if opt = key 'a' then do
    let t ← assembleCommand execute s
    pure (.inl t)
  else if opt = key 'c' then do
    let t ← callCommand execute s false
    pure (.inl t)
  else if opt = key 'd' then do
    let t ← dumpCommand s
    pure (.inl t)
  else if opt = key 'e' then do
    let t ← enterCommand s
    pure (.inl t)
  else if opt = key 'm' then do
    let entries ← monitorMemory s.entries
    pure (.inl { s with entries })
  else if opt = key 'u' then do
    let t ← disassembleCommand s
    pure (.inl t)
  else if opt = key 'r' then do
    let t ← receiveCommand transferReceive s
    pure (.inl t)
  else if opt = key 's' then do
    let t ← callCommand execute s true
    pure (.inl t)
  else if opt = key ';' then monitorDev vectorTable s
  else if opt = ctrl 'l' then pure (.inl s)
  else pure (.inr s)

end

theorem monitorRound_takes (vectorTable : Address) (execute : Bool → Call)
    (transferReceive : Transfer) (s : MonitorState) :
    Takes (monitorRound vectorTable execute transferReceive s) := (takes_menu _).bind_left _

/-! ## Moves -/

/-- What a round does. Which keys chose the addresses is forgotten. -/
inductive MonitorMove (vectorTable : Address) (execute : Bool → Call) (transferReceive : Transfer)
    (s : MonitorState) : MonitorState → Prop
  | focus (addr : Address) : MonitorMove vectorTable execute transferReceive s { s with addr }
  | corrupt : MonitorMove vectorTable execute transferReceive s
      { s with memory := store32 s.memory (vectorTable + 44) 0 }
  | enter (addr : Address) {entType : EnterType} {keys : List Key} {t : EnterState}
      (hkeys : monitorEnter s.memory addr entType [] keys = some (.finished t)) :
      MonitorMove vectorTable execute transferReceive s { s with memory := t.memory, addr }
  | labels {entries : List MemoryEntry} (hsteps : ReflTransGen LabelStep s.entries entries) :
      MonitorMove vectorTable execute transferReceive s { s with entries }
  | receive (addr : Address) {memory : Memory}
      (hreceive : Returns (transferReceive addr s.memory) memory) :
      MonitorMove vectorTable execute transferReceive s { s with memory, addr }
  | call (step : Bool) (addr : Address) {fn : Address} {memory : Memory}
      {entries : List MemoryEntry} (hfn : fn = addr ∨ fn = armAddressSetThumbIntwrkBit addr true)
      (hcall : Returns (execute step fn (s.memory,s.entries)) (memory,entries)) :
      MonitorMove vectorTable execute transferReceive s ⟨memory,entries,addr⟩
  | assemble {result : AbsoluteAddressResult} {t : EditorSession}
      (hchosen : Chosen s.entries true true result)
      (hmoves : ReflTransGen (SessionMove (monitorCallFunction (execute true)))
        (startSession s.memory s.entries (assembleStart result) result.memorySection) t) :
      MonitorMove vectorTable execute transferReceive s
        { memory := t.editor.memory
          entries := updateSection t.entries result.memorySection t.editor.memorySection
          addr := if result.address = 0 then s.addr else result.address }

/-! ## Commands are moves -/

theorem monitorOptions_usable : Usable monitorOptions := by decide

theorem entOptions_usable : Usable entOptions := by decide

theorem devOptions_usable : Usable devOptions := by decide

/-- Where an address is typed it is taken, with or without a section around it. -/
theorem commandAddress_typed (entries : List MemoryEntry) (address : Address) :
    commandAddress ⟨address,sectionAround entries true address⟩ = address := by
  unfold commandAddress
  split
  · next entry hentry =>
      by_cases hzero : address = 0
      · -- the section begins at the address, or in front of it
        have hlookup : memoryLookupSection entries address = some entry := hentry
        obtain ⟨before,after,-,hrange,-⟩ := hlookup ▸ memoryLookupSection_first entries address
        subst hzero
        rw [if_pos rfl]
        exact BitVec.le_zero_iff.mp hrange.1
      · exact if_neg hzero
  · rfl

@[simp] theorem returns_promptAddress (s : MonitorState) (labelDropInterworkBit : Bool)
    (addr : Address) : Returns (promptAddress s labelDropInterworkBit) addr := by
  refine returns_bind.mpr ⟨_,returns_absoluteAddress.mpr (.typed addr),returns_pure.mpr ?_⟩
  exact (commandAddress_typed s.entries addr).symm

@[simp] theorem returns_enterEntTypeSubmenu (entType : EnterType) :
    Returns enterEntTypeSubmenu entType := by
  refine (returns_menu_bind entOptions_usable).mpr ?_
  cases entType with
  | ofEntry t =>
      cases t with
      | etByte => exact ⟨_,List.mem_cons_self,returns_pure.mpr rfl⟩
      | etHword => exact ⟨⟨key 'h',"Half Words"⟩,by decide,returns_pure.mpr rfl⟩
      | etWord => exact ⟨⟨key 'w',"Words"⟩,by decide,returns_pure.mpr rfl⟩
  | etInstruction => exact ⟨⟨key 'i',"Instructions"⟩,by decide,returns_pure.mpr rfl⟩

theorem monitorMemdump_isSome (memory : Memory) (addr : Address) :
    (monitorMemdump memory addr).isSome = true := by
  rw [monitorMemdump,Option.isSome_map]
  refine mapM_isSome (fun row => ?_) _
  obtain ⟨pad,hpad⟩ := utoaPadW_isSome (addr + BitVec.ofNat 32 (16 * row))
    (by decide : 10 ≤ 16 ∧ 16 ≤ 16 ∧ 8 ≤ 8) true
  rw [puthexword,hpad]
  rfl

theorem returns_assembleKeys {monitorCallFunction : Call} {memory : Memory}
    {entries : List MemoryEntry} {addr : Address} {memorySection : Option SectionEntry}
    {t : EditorSession} :
    Returns (monitorAssembleKeys monitorCallFunction memory entries addr memorySection) t ↔
      ReflTransGen (SessionMove monitorCallFunction)
        (startSession memory entries addr memorySection) t := by
  have hlast (s : EditorSession) :
      Returns (assembleRound monitorCallFunction s) (.inr t) ↔ t = s := by
    simp [returns_assembleRound,returns_run,EditorSession.goOn]
  have hstart := atMenu_startSession memory entries addr memorySection
  rw [monitorAssembleKeys,returns_rounds]
  simp only [hlast,visits_iff_moves hstart]
  constructor
  · rintro ⟨u,h,rfl⟩
    exact h
  · exact fun h => ⟨t,h,rfl⟩

theorem set_thumbIntwrkBit {fn : Address} (h : armAddressHasThumbIntwrkBit fn = true) :
    armAddressSetThumbIntwrkBit fn true = fn := by
  have hbit : ¬fn &&& 1 = 0#32 := by simpa [armAddressHasThumbIntwrkBit] using h
  have hlow : fn.getLsbD 0 = true := by
    by_contra hzero
    refine hbit (BitVec.eq_of_getLsbD_eq fun i hi => ?_)
    cases i with
    | zero => simpa using hzero
    | succ i => simp [BitVec.getLsbD_one]
  rw [armAddressSetThumbIntwrkBit,if_pos rfl]
  refine BitVec.eq_of_getLsbD_eq fun i hi => ?_
  cases i with
  | zero => simp [hlow]
  | succ i => simp [BitVec.getLsbD_one]

/-- What is called is the address with or without its interwork bit. -/
theorem returns_callFunction {execute : Call} {fn : Address}
    {world world' : Memory × List MemoryEntry} :
    Returns (monitorCallFunction execute fn world) world' ↔
      (¬armAddressHasThumbIntwrkBit fn = true ∧ world' = world) ∨
        ∃ target, (target = fn ∨ target = armAddressSetThumbIntwrkBit fn true) ∧
          Returns (execute target world) world' := by
  by_cases hbit : armAddressHasThumbIntwrkBit fn = true
  · have hcall : monitorCallFunction execute fn world = execute fn world := if_pos hbit
    rw [hcall]
    simp only [hbit,set_thumbIntwrkBit hbit,or_self,exists_eq_left,not_true,false_and,false_or]
  · have hcall : monitorCallFunction execute fn world = (menuPresetWarningFix >>= fun result =>
        match result with
        | .fix => execute (armAddressSetThumbIntwrkBit fn true) world
        | .proceed => execute fn world
        | .quit => pure world) := if_neg hbit
    rw [hcall,returns_bind]
    constructor
    · rintro ⟨result,-,hresult⟩
      cases result with
      | proceed => exact .inr ⟨fn,.inl rfl,hresult⟩
      | fix => exact .inr ⟨_,.inr rfl,hresult⟩
      | quit => exact .inl ⟨hbit,returns_pure.mp hresult⟩
    · rintro (⟨-,rfl⟩ | ⟨target,rfl | rfl,hresult⟩)
      · exact ⟨.quit,returns_menuPresetWarningFix .quit,returns_pure.mpr rfl⟩
      · exact ⟨.proceed,returns_menuPresetWarningFix .proceed,hresult⟩
      · exact ⟨.fix,returns_menuPresetWarningFix .fix,hresult⟩

section
variable {vectorTable : Address} {execute : Bool → Call} {transferReceive : Transfer}
  {s t : MonitorState}

theorem move_of_assemble (h : Returns (assembleCommand execute s) t) :
    MonitorMove vectorTable execute transferReceive s t := by
  obtain ⟨result,hresult,u,hu,heq⟩ := by simpa only [assembleCommand,returns_bind] using h
  obtain rfl := returns_pure.mp heq
  exact .assemble (returns_absoluteAddress.mp hresult) (returns_assembleKeys.mp hu)

theorem move_of_call {step : Bool} (h : Returns (callCommand execute s step) t) :
    MonitorMove vectorTable execute transferReceive s t := by
  obtain ⟨addr,-,world,hworld,heq⟩ := by simpa only [callCommand,returns_bind] using h
  obtain rfl := returns_pure.mp heq
  obtain ⟨-,rfl⟩ | ⟨target,htarget,hcall⟩ := returns_callFunction.mp hworld
  · exact .focus addr
  · exact .call step addr htarget hcall

theorem move_of_enter (h : Returns (enterCommand s) t) :
    MonitorMove vectorTable execute transferReceive s t := by
  obtain ⟨entType,-,addr,-,memory,hmemory,heq⟩ := by
    simpa only [enterCommand,returns_bind] using h
  obtain rfl := returns_pure.mp heq
  obtain ⟨keys,u,hkeys,rfl⟩ := returns_monitorEnter.mp hmemory
  exact .enter addr hkeys

theorem returns_monitorDev {u : MonitorState ⊕ MonitorState} :
    Returns (monitorDev vectorTable s) u ↔ u = .inr s ∨
      u = .inl { s with memory := store32 s.memory (vectorTable + 44) 0 } ∨ u = .inl s := by
  rw [monitorDev,returns_menu_bind devOptions_usable]
  simp only [devOptions,List.mem_cons,List.not_mem_nil,or_false,exists_eq_or_imp,
    exists_eq_left]
  simp [key]

theorem returns_monitorRound {u : MonitorState ⊕ MonitorState} :
    Returns (monitorRound vectorTable execute transferReceive s) u ↔
      (∃ t, (Returns (assembleCommand execute s) t ∨ Returns (callCommand execute s false) t ∨
        Returns (dumpCommand s) t ∨ Returns (enterCommand s) t) ∧ u = .inl t) ∨
      (∃ entries, Returns (monitorMemory s.entries) entries ∧ u = .inl { s with entries }) ∨
      (∃ t, (Returns (disassembleCommand s) t ∨ Returns (receiveCommand transferReceive s) t ∨
        Returns (callCommand execute s true) t) ∧ u = .inl t) ∨
      Returns (monitorDev vectorTable s) u ∨ u = .inl s ∨ u = .inr s := by
  rw [monitorRound,returns_menu_bind monitorOptions_usable]
  simp only [monitorOptions,List.mem_cons,List.not_mem_nil,or_false,exists_eq_or_imp,
    exists_eq_left]
  simp [key,ctrl,or_and_right,exists_or,or_assoc]

theorem move_of_round (h : Round (monitorRound vectorTable execute transferReceive) s t) :
    MonitorMove vectorTable execute transferReceive s t := by
  obtain ⟨u,hcommand,heq⟩ | ⟨entries,hentries,heq⟩ | ⟨u,hcommand,heq⟩ | hdev | heq | heq :=
    returns_monitorRound.mp h
  · obtain rfl := Sum.inl.inj heq
    rcases hcommand with hassemble | hcall | hdump | henter
    · exact move_of_assemble hassemble
    · exact move_of_call hcall
    · obtain ⟨addr,-,_,-,hlast⟩ := by simpa only [dumpCommand,returns_bind] using hdump
      obtain rfl := returns_pure.mp hlast
      exact .focus addr
    · exact move_of_enter henter
  · obtain rfl := Sum.inl.inj heq
    exact .labels (returns_monitorMemory.mp hentries)
  · obtain rfl := Sum.inl.inj heq
    rcases hcommand with hdisassemble | hreceive | hcall
    · obtain ⟨addr,-,_,-,hlast⟩ := by
        simpa only [disassembleCommand,returns_bind] using hdisassemble
      obtain rfl := returns_pure.mp hlast
      exact .focus addr
    · obtain ⟨addr,-,memory,hmemory,hlast⟩ := by
        simpa only [receiveCommand,returns_bind] using hreceive
      obtain rfl := returns_pure.mp hlast
      exact .receive addr hmemory
    · exact move_of_call hcall
  · obtain heq | heq | heq := returns_monitorDev.mp hdev
    · cases heq
    · obtain rfl := Sum.inl.inj heq
      exact .corrupt
    · obtain rfl := Sum.inl.inj heq
      exact .focus t.addr
  · obtain rfl := Sum.inl.inj heq
    exact .focus t.addr
  · cases heq

theorem round_of_move (h : MonitorMove vectorTable execute transferReceive s t) :
    Round (monitorRound vectorTable execute transferReceive) s t := by
  refine returns_monitorRound.mpr ?_
  cases h with
  | focus addr =>
      obtain ⟨text,htext⟩ := Option.isSome_iff_exists.mp (monitorMemdump_isSome s.memory addr)
      refine .inl ⟨_,.inr (.inr (.inl ?_)),rfl⟩
      simp only [dumpCommand,returns_bind]
      exact ⟨addr,returns_promptAddress s true addr,text,returns_ofOption.mpr htext,
        returns_pure.mpr rfl⟩
  | corrupt => exact .inr (.inr (.inr (.inl (returns_monitorDev.mpr (.inr (.inl rfl))))))
  | enter addr hkeys =>
      refine .inl ⟨_,.inr (.inr (.inr ?_)),rfl⟩
      simp only [enterCommand,returns_bind]
      exact ⟨_,returns_enterEntTypeSubmenu _,addr,returns_promptAddress s true addr,_,
        returns_monitorEnter.mpr ⟨_,_,hkeys,rfl⟩,returns_pure.mpr rfl⟩
  | labels hsteps => exact .inr (.inl ⟨_,returns_monitorMemory.mpr hsteps,rfl⟩)
  | receive addr hreceive =>
      refine .inr (.inr (.inl ⟨_,.inr (.inl ?_),rfl⟩))
      simp only [receiveCommand,returns_bind]
      exact ⟨addr,returns_gethexword s.addr addr,_,hreceive,returns_pure.mpr rfl⟩
  | @call step addr fn memory entries hfn hcall =>
      have hcommand : Returns (callCommand execute s step) ⟨memory,entries,addr⟩ := by
        simp only [callCommand,returns_bind]
        exact ⟨addr,returns_promptAddress s false addr,_,
          returns_callFunction.mpr (.inr ⟨fn,hfn,hcall⟩),returns_pure.mpr rfl⟩
      cases step with
      | false => exact .inl ⟨_,.inr (.inl hcommand),rfl⟩
      | true => exact .inr (.inr (.inl ⟨_,.inr (.inr hcommand),rfl⟩))
  | assemble hchosen hmoves =>
      refine .inl ⟨_,.inl ?_,rfl⟩
      simp only [assembleCommand,returns_bind]
      exact ⟨_,returns_absoluteAddress.mpr hchosen,_,returns_assembleKeys.mpr hmoves,
        returns_pure.mpr rfl⟩

theorem round_eq_move : Round (monitorRound vectorTable execute transferReceive) =
    MonitorMove vectorTable execute transferReceive := by
  funext s t
  exact propext ⟨move_of_round,round_of_move⟩

end

/-- Whatever keys are typed, they are whole moves, behind which one more may have begun; and
every sequence of moves can be typed. -/
theorem monitorSession_refines (vectorTable : Address) (execute : Bool → Call)
    (transferReceive : Transfer) (s : MonitorState) :
    (∀ keys, ∃ t typed rest, keys = typed ++ rest ∧
      Typed (monitorRound vectorTable execute transferReceive) s typed t ∧
      ReflTransGen (MonitorMove vectorTable execute transferReceive) s t ∧
      ∀ u left, (monitorRound vectorTable execute transferReceive t).run rest ≠
        .returned (.inl u) left) ∧
    ∀ t, ReflTransGen (MonitorMove vectorTable execute transferReceive) s t →
      ∃ keys, Typed (monitorRound vectorTable execute transferReceive) s keys t := by
  constructor
  · intro keys
    obtain ⟨t,typed,rest,hkeys,htyped,hlast⟩ :=
      history (monitorRound_takes vectorTable execute transferReceive) s keys
    exact ⟨t,typed,rest,hkeys,htyped,round_eq_move ▸ htyped.visits,hlast⟩
  · intro t ht
    exact exists_typed (round_eq_move ▸ ht)

end TwMonitor.Monitor
