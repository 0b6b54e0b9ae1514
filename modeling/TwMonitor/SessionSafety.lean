import TwMonitor.EditorConfinement
import TwMonitor.ShownForms

/-!
# Sessions that never hang

The editor fails an assertion, or walks through memory forever, where the cursor or the end
is inside of an instruction, or where one cannot be shown. A session whose instructions
replace whole ones, and that assembles nothing that cannot be shown, always comes back to
its menu.
-/
namespace TwMonitor.Editor
open ByteMemory Input MemoryStore Menu NumberPad Relation Thumb Tiling

/-! ## Code that can be shown -/

/-- Every instruction of the code can be shown. -/
def CodeShown (s : EditorState) : Prop :=
  ∀ p, Instructions s.memory s.startingAddr s.endAddr p → CanBeShown (load32 s.memory p)

/-- The cursor and the end are boundaries, and what is between them can be shown. -/
structure Shown (s : EditorState) : Prop where
  boundaries : OnBoundaries s
  instructions : CodeShown s

section
variable {m m' : Memory} {p q : Address}

/-- A wide instruction lies below the boundary behind it, and a narrow one can be shown
whatever follows. -/
theorem canBeShown_congr (h : WellFormed m' p q) (hlt : p < q)
    (hm : ∀ a : Address, p.toNat ≤ a.toNat → a.toNat < q.toNat → m' a = m a)
    (hshown : CanBeShown (load32 m p)) : CanBeShown (load32 m' p) := by
  cases hwide : thumbIsWideInstruction (load32 m' p) with
  | false => exact canBeShown_narrow hwide
  | true =>
      obtain ⟨hup,hrest⟩ := h.uncons hlt
      have hle := hrest.le
      rw [thumbInsPtrIncrement_of_wide hwide] at hup hle
      have hsame : load32 m' p = load32 m p := by
        refine load32_congr fun a ha => ?_
        unfold InRange at ha
        exact hm a (by bv_omega) (by bv_omega)
      rw [hsame]
      exact hshown

end

/-! ## Assembling -/

/-- The instruction fits below the top of the address space, and takes the place of whole
instructions or reaches the end of the code. -/
def EditorState.Replaces (s : EditorState) (instruction : ThumbInstructionSpec) : Prop :=
  s.addr.toNat + s.size instruction < 2 ^ 32 ∧
    (s.endAddr.toNat ≤ s.addr.toNat + s.size instruction ∨
      WellFormed s.memory s.addr (s.addr + BitVec.ofNat 32 (s.size instruction)))

section
variable {s : EditorState} {instruction : ThumbInstructionSpec}

theorem EditorState.Replaces.keepsEnd (h : s.Replaces instruction) (hs : OnBoundaries s) :
    s.KeepsEnd instruction := by
  refine ⟨h.1,?_⟩
  have haddr : (s.addr + BitVec.ofNat 32 (s.size instruction)).toNat =
      s.addr.toNat + s.size instruction := assembled_addr h.1
  by_cases hle : s.endAddr.toNat ≤ s.addr.toNat + s.size instruction
  · exact .inl hle
  · have hwhole := h.2.resolve_left hle
    exact .inr (hwhole.split BitVec.toNat_injective hs.after (by omega))

/-- The instruction that was written can be shown. -/
theorem assembled_canBeShown (hshowable : Showable (forms instruction))
    (hsize : s.size instruction ≠ 0) :
    CanBeShown (load32 (s.assembled instruction).memory s.addr) := by
  have hcases := thumbAssemble_cases s.addr (s.specify instruction) s.memory
  have hwritten := size_thumbAssemble s.addr (s.specify instruction) s.memory
  show CanBeShown (load32 (thumbAssemble s.addr (s.specify instruction) s.memory).2 s.addr)
  rcases hcases with ⟨f,_,h,hword,he⟩ | ⟨f,hf,w,hword,he⟩ | ⟨r,hr,he⟩
  · rw [he]
    exact canBeShown_narrow ((writesExactly_narrow hword s.addr s.memory).narrow rfl)
  · rw [he,load32_store32]
    exact hshowable f (mem_restrict_wide hf) w hword
  · rw [he] at hwritten
    refine absurd ?_ hsize
    show (candidates (s.specify instruction)).size = 0
    rw [← hwritten]
    cases r with
    | narrowSuccess => simp [ThumbAssembleResult.succeeds] at hr
    | wideSuccess => simp [ThumbAssembleResult.succeeds] at hr
    | failBadMnemonic => rfl
    | failInvalidWidth => rfl
    | failInvalidOperand => rfl

/-- A refused instruction changes nothing. -/
theorem assembled_refused (hfit : s.addr.toNat + s.size instruction < 2 ^ 32)
    (hsize : s.size instruction = 0) : s.assembled instruction = s := by
  have hmemory : (s.assembled instruction).memory = s.memory := by
    funext a
    exact assembled_memory hfit (by omega)
  unfold EditorState.assembled at hmemory ⊢
  simp only [hsize] at hmemory ⊢
  rw [hmemory]
  simp

theorem assembled_next (hsize : s.size instruction ≠ 0) :
    thumbInsPtrIncrement (s.assembled instruction).memory s.addr =
      (s.assembled instruction).addr := by
  rw [EditorState.size,← size_thumbAssemble s.addr (s.specify instruction) s.memory] at hsize
  have hnext := thumbInsPtrIncrement_thumbAssemble hsize
  rwa [size_thumbAssemble] at hnext

/-- The instructions of the code after an assembly: those below the cursor, the new one, and
those that were above the old ones that it replaced. -/
theorem Shown.assemble (h : Shown s) (hreplaces : s.Replaces instruction)
    (hshowable : Showable (forms instruction)) :
    Shown (Editor.loopHead (s.assembled instruction)) := by
  have hfit := hreplaces.1
  have hkept := (h.boundaries.assemble_iff hfit).mpr (hreplaces.keepsEnd h.boundaries)
  by_cases hsize : s.size instruction = 0
  · rw [assembled_refused hfit hsize] at hkept ⊢
    have hle := h.boundaries.after.le
    have hsame : Editor.loopHead s = s := if_neg (by bv_omega)
    rw [hsame]
    exact h
  · refine ⟨hkept,fun p hp => ?_⟩
    have haddr := assembled_addr hfit
    have hbefore := assembled_before h.boundaries hfit
    have hmemory : (Editor.loopHead (s.assembled instruction)).memory =
        (s.assembled instruction).memory := by
      unfold Editor.loopHead
      split <;> rfl
    have hstart : (Editor.loopHead (s.assembled instruction)).startingAddr = s.startingAddr := by
      unfold Editor.loopHead
      split <;> rfl
    have hwhole := hkept.whole
    rw [hmemory,hstart] at hp hwhole
    rw [hmemory]
    have hcursor : WellFormed (s.assembled instruction).memory s.startingAddr s.addr :=
      h.boundaries.before.congr fun a _ ha => assembled_memory hfit (.inl ha)
    by_cases hbelow : p < s.addr
    · have hold : WellFormed s.memory s.startingAddr p :=
        hp.1.congr fun a _ ha => (assembled_memory hfit (.inl (by bv_omega))).symm
      have hle := h.boundaries.after.le
      refine canBeShown_congr (hp.1.split BitVec.toNat_injective hcursor (by bv_omega)) hbelow
        (fun a _ ha => assembled_memory hfit (.inl ha)) (h.instructions p ⟨hold,by bv_omega⟩)
    · have hfrom := hcursor.split BitVec.toNat_injective hp.1 (by bv_omega)
      by_cases hnew : p = s.addr
      · rw [hnew]
        exact assembled_canBeShown hshowable hsize
      · have hup := hfrom.uncons (hfrom.lt_of_ne (Ne.symm hnew))
        rw [assembled_next hsize] at hup
        have hle := hup.2.le
        have hend : (Editor.loopHead (s.assembled instruction)).endAddr = s.endAddr ∧
            ¬s.endAddr < (s.assembled instruction).addr := by
          have hlt := hp.2
          unfold Editor.loopHead at hlt ⊢
          split at hlt
          · exact absurd hlt (by bv_omega)
          · next hnot =>
              rw [if_neg hnot]
              exact ⟨rfl,hnot⟩
        have hlt : p < s.endAddr := hend.1 ▸ hp.2
        have hreplaced := hreplaces.2.resolve_left (by bv_omega)
        have habove (a : Address) (ha : (s.assembled instruction).addr.toNat ≤ a.toNat) :
            (s.assembled instruction).memory a = s.memory a :=
          assembled_memory hfit (.inr (by omega))
        have hold : WellFormed s.memory s.startingAddr p :=
          (h.boundaries.before.trans hreplaced).trans
            (WellFormed.congr hup.2 fun a ha _ => (habove a ha).symm)
        refine canBeShown_congr (hp.1.split BitVec.toNat_injective hwhole (by bv_omega)) hp.2
          (fun a ha _ => habove a (by omega)) (h.instructions p ⟨hold,hlt⟩)

end

/-! ## Commands, labels and calls -/

section
variable {s t : EditorState}

/-- Commands that write no memory keep the code or drop its last instruction. -/
theorem Shown.moves (h : Shown s) {fuel : ℕ} {command : EditorCommand}
    (hmoves : ∀ instruction, command ≠ .assemble instruction)
    (ht : runCommand s fuel command = some t) : Shown t := by
  refine ⟨runCommand_onBoundaries h.boundaries hmoves ht,?_⟩
  cases runCommand_effect ht with
  | assemble instruction => exact absurd rfl (hmoves instruction)
  | specifyWidth widthSpecifier => exact h.instructions
  | upToStart => exact h.instructions
  | downToEnd => exact h.instructions
  | up hlt hprevious => exact h.instructions
  | down hlt => exact h.instructions
  | rewind hlt hprevious =>
      obtain ⟨_,hop⟩ := previousThumbInstruction_eq_some h.boundaries.whole hlt hprevious
      intro p hp
      have hbelow := hp.2
      have hup := hop.1
      exact h.instructions p ⟨hp.1,by bv_omega⟩
  | stay => exact h.instructions

theorem Shown.loopHead (h : Shown s) : Shown (loopHead s) := by
  have hle := h.boundaries.after.le
  have hsame : Editor.loopHead s = s := if_neg (by bv_omega)
  rwa [hsame]

/-- The bytes of the code are as before. -/
def KeepsCode (s : EditorState) (memory : Memory) : Prop :=
  ∀ a : Address, s.startingAddr.toNat ≤ a.toNat → a.toNat < s.endAddr.toNat → memory a = s.memory a

theorem OnBoundaries.call (h : OnBoundaries s) {memory : Memory} (hkeeps : KeepsCode s memory) :
    OnBoundaries { s with memory } := by
  have hbefore := h.before.le
  have hafter := h.after.le
  exact ⟨h.before.congr fun a hle hlt => hkeeps a hle (by omega),
    h.after.congr fun a hle hlt => hkeeps a (by omega) hlt⟩

theorem Shown.call (h : Shown s) {memory : Memory} (hkeeps : KeepsCode s memory) :
    Shown { s with memory } := by
  have hcalled := h.boundaries.call hkeeps
  refine ⟨hcalled,fun p hp => ?_⟩
  have hle : s.startingAddr.toNat ≤ p.toNat := hp.1.le
  have hlt : p.toNat < s.endAddr.toNat := hp.2
  have hold : WellFormed s.memory s.startingAddr p :=
    WellFormed.congr hp.1 fun a hstart hbelow => (hkeeps a hstart (by omega)).symm
  exact canBeShown_congr (hp.1.split BitVec.toNat_injective hcalled.whole (Nat.le_of_lt hp.2)) hp.2
    (fun a hstart hbelow => hkeeps a (by omega) hbelow) (h.instructions p ⟨hold,hp.2⟩)

end

/-! ## Sessions -/

/-- A move whose command is allowed, and whose call leaves the code alone. -/
inductive GuardedMove (allowed : EditorState → EditorCommand → Prop) (monitorCallFunction : Call)
    (s : EditorSession) : EditorSession → Prop
  | stay : GuardedMove allowed monitorCallFunction s s
  | command {command : EditorCommand} {fuel : ℕ} {editor : EditorState} (hkeys : HasKeys command)
      (hallowed : allowed s.editor command) (hstep : step s.editor fuel command = some editor) :
      GuardedMove allowed monitorCallFunction s { s with editor }
  | label {isCode : Bool} {name : List (BitVec 8)} {entries : List MemoryEntry}
      (hname : Typable name)
      (hcreated : memoryCreateLabel s.entries name s.editor.addr isCode = (true,entries)) :
      GuardedMove allowed monitorCallFunction s { s with entries }
  | call {memory : Memory} {entries : List MemoryEntry}
      (hcall : Returns (monitorCallFunction
        (armAddressSetThumbIntwrkBit s.editor.startingAddr true) (s.editor.memory,s.entries))
        (memory,entries))
      (hkeeps : KeepsCode s.editor memory) :
      GuardedMove allowed monitorCallFunction s { editor := { s.editor with memory }, entries }

/-- Instructions replace whole ones, and can be shown. -/
def Careful (s : EditorState) : EditorCommand → Prop
  | .assemble instruction => s.Replaces instruction ∧ ¬AimlessLoad instruction
  | _ => True

section
variable {monitorCallFunction : Call} {s t : EditorSession}

theorem GuardedMove.boundaries (hs : OnBoundaries s.editor)
    (h : GuardedMove Keeps monitorCallFunction s t) : OnBoundaries t.editor := by
  cases h with
  | stay => exact hs
  | command hkeys hallowed hstep => exact step_onBoundaries hs ⟨_,_,hallowed,hstep⟩
  | label hname hcreated => exact hs
  | call hcall hkeeps => exact hs.call hkeeps

theorem GuardedMove.shown (hs : Shown s.editor)
    (h : GuardedMove Careful monitorCallFunction s t) : Shown t.editor := by
  cases h with
  | stay => exact hs
  | @command command fuel editor hkeys hcareful hstep =>
      obtain ⟨e,hrun,rfl⟩ := Option.map_eq_some_iff.mp hstep
      by_cases hassemble : ∃ instruction, command = .assemble instruction
      · obtain ⟨instruction,rfl⟩ := hassemble
        rw [runCommand_assemble] at hrun
        obtain rfl := Option.some.inj hrun
        exact hs.assemble hcareful.1 (offered_showable hkeys hcareful.2)
      · exact (hs.moves (not_exists.mp hassemble) hrun).loopHead
  | label hname hcreated => exact hs
  | call hcall hkeeps => exact hs.call hkeeps

/-! ### What can hang -/

/-- Every command finds what it looks for. -/
theorem runCommand_isSome (hs : OnBoundaries s.editor) (command : EditorCommand) :
    (runCommand s.editor addressCount command).isSome = true := by
  have hbounded {start current : Address} (h : WellFormed s.editor.memory start current)
      (hlt : start < current) :
      (previousThumbInstruction s.editor.memory start current addressCount).isSome = true := by
    obtain ⟨fuel,hfuel⟩ := previousThumbInstruction_isSome h hlt
    obtain ⟨previous,hprevious⟩ := Option.isSome_iff_exists.mp hfuel
    rw [previousThumbInstruction,if_pos (by bv_omega)] at hprevious ⊢
    have hfound : search (thumbInsPtrIncrement s.editor.memory) current addressCount start =
        some previous := search_bounded BitVec.toNat_injective BitVec.isLt hprevious
    rw [hfound]
    rfl
  cases command with
  | up =>
      rw [runCommand]
      split
      · next hlt =>
          obtain ⟨addr,haddr⟩ := Option.isSome_iff_exists.mp (hbounded hs.before hlt)
          rw [haddr]
          rfl
      · rfl
  | rewindInstruction =>
      rw [runCommand]
      split
      · next hlt =>
          obtain ⟨endAddr,hend⟩ := Option.isSome_iff_exists.mp (hbounded hs.whole hlt)
          rw [hend]
          rfl
      · rfl
  | down =>
      rw [runCommand]
      split <;> rfl
  | assemble instruction => rfl
  | specifyWidth widthSpecifier => rfl
  | upToStart => rfl
  | downToEnd => rfl

/-- As many rounds as there are bytes left are enough for the listing. -/
theorem printAssemblyFrom_bounded {entries : List MemoryEntry} {m : Memory}
    {cursor start stop : Address} (h : WellFormed m start stop)
    (hshown : ∀ p, Instructions m start stop p → CanBeShown (load32 m p)) {fuel : ℕ}
    (hfuel : stop.toNat - start.toNat ≤ fuel) :
    (printAssemblyFrom entries m cursor stop fuel start).isSome = true := by
  induction fuel generalizing start with
  | zero =>
      rw [printAssemblyFrom_end (by bv_omega)]
      rfl
  | succ fuel ih =>
      by_cases hlt : start < stop
      · obtain ⟨hup,hrest⟩ := h.uncons hlt
        have hcons := instructions_cons h hlt
        obtain ⟨line,hline⟩ := Option.isSome_iff_exists.mp
          ((listedLine_isSome_iff entries m cursor start).mpr
            (hshown start ((hcons start).mpr (.inl rfl))))
        obtain ⟨lines,hlines⟩ := Option.isSome_iff_exists.mp
          (ih hrest (fun p hp => hshown p ((hcons p).mpr (.inr hp))) (by omega))
        rw [printAssemblyFrom,if_pos hlt,hline,hlines]
        rfl
      · rw [printAssemblyFrom_end hlt]
        rfl

theorem safe_run (hs : OnBoundaries s.editor) (command : EditorCommand) : Safe (s.run command) :=
  (safe_ofOption (runCommand_isSome hs command)).bind fun _ _ => safe_pure _

theorem safe_defineNewLabel (entries : List MemoryEntry) (addr : Address) :
    Safe (defineNewLabel entries addr) := by
  refine safe_rounds (I := fun _ => True) trivial (fun _ _ => ?_) fun _ _ _ _ => trivial
  refine (safe_menu defineLabelOptions_usable).bind fun opt _ => ?_
  split
  · exact safe_ioGetline.bind fun _ _ => safe_pure _
  · exact safe_pure _

/-- On boundaries some keys hang the editor only where an instruction cannot be shown, and there
they do. -/
theorem safe_assembleRound_iff (hcall : ∀ fn world, Safe (monitorCallFunction fn world))
    (hs : OnBoundaries s.editor) :
    Safe (assembleRound monitorCallFunction s) ↔ CodeShown s.editor := by
  constructor
  · intro h
    have hprint : Safe (do
        let _ ← ofOption (printAssembly s.entries s.editor addressCount)
        pure (s.goOn s.editor)) :=
      h.after ((returns_menu assembleOptions_usable (ctrl 'p')).mpr (by decide))
    have hlisting := safe_ofOption_iff.mp hprint.first
    rw [printAssembly,Option.isSome_map] at hlisting
    intro p hp
    exact (listedLine_isSome_iff s.entries s.editor.memory s.editor.addr p).mp
      ((printAssemblyFrom_isSome_iff hs.whole).mp ⟨addressCount,hlisting⟩ p hp)
  · intro hshown
    have hlisting : (printAssembly s.entries s.editor addressCount).isSome = true := by
      rw [printAssembly,Option.isSome_map]
      have hlt := s.editor.endAddr.isLt
      exact printAssemblyFrom_bounded hs.whole hshown (by unfold addressCount; omega)
    have hgo {r : Reader Key EditorState} (hr : Safe r) : Safe (r >>= fun e => pure (s.goOn e)) :=
      hr.bind fun _ _ => safe_pure _
    refine (safe_menu assembleOptions_usable).bind fun opt _ => ?_
    refine safe_ite (hgo (safe_assembleA s.editor)) ?_
    refine safe_ite (hgo (safe_assembleB s.entries s.editor)) ?_
    refine safe_ite (hgo (safe_assembleCmp s.editor)) ?_
    refine safe_ite (hgo (safe_assembleLdr s.entries s.editor)) ?_
    refine safe_ite (hgo (safe_assembleM s.editor)) ?_
    refine safe_ite (safe_pure _) ?_
    refine safe_ite (hgo (safe_assembleP s.editor)) ?_
    refine safe_ite (hgo (safe_assembleS s.editor)) ?_
    refine safe_ite (hgo (safe_assembleNumber s.editor _)) ?_
    refine safe_ite (hgo (safe_assembleNumber s.editor _)) ?_
    refine safe_ite ((safe_defineNewLabel _ _).bind fun _ _ => safe_pure _) ?_
    refine safe_ite ((safe_widthMenu _).bind fun _ _ => safe_run hs _) ?_
    refine safe_ite ((hcall _ _).bind fun _ _ => safe_pure _) ?_
    refine safe_ite ((safe_ofOption hlisting).bind fun _ _ => safe_pure _) ?_
    refine safe_ite (safe_run hs _) ?_
    refine safe_ite (safe_run hs _) ?_
    refine safe_ite (safe_run hs _) ?_
    refine safe_ite (safe_run hs _) ?_
    exact safe_ite (safe_run hs _) (safe_pure _)

/-! ### A load that hangs the listing -/

theorem GuardedMove.move {allowed : EditorState → EditorCommand → Prop}
    (h : GuardedMove allowed monitorCallFunction s t) : SessionMove monitorCallFunction s t := by
  cases h with
  | stay => exact .stay
  | command hkeys hallowed hstep => exact .command hkeys hstep
  | label hname hcreated => exact .label hname hcreated
  | call hcall hkeeps => exact .call hcall

theorem GuardedMove.assemble {instruction : ThumbInstructionSpec} (hoffered : Offered instruction)
    (hreplaces : s.editor.Replaces instruction) (haimless : ¬AimlessLoad instruction) :
    GuardedMove Careful monitorCallFunction s
      { s with editor := loopHead (s.editor.assembled instruction) } :=
  @GuardedMove.command Careful monitorCallFunction s (.assemble instruction) 0 _ hoffered
    ⟨hreplaces,haimless⟩ (by rw [step,runCommand_assemble]; rfl)

theorem run_shown (hs : Shown s.editor)
    (hrun : ReflTransGen (GuardedMove Careful monitorCallFunction) s t) : Shown t.editor := by
  induction hrun with
  | refl => exact hs
  | tail _ hmove ih => exact hmove.shown ih

theorem run_boundaries (hs : OnBoundaries s.editor)
    (hrun : ReflTransGen (GuardedMove Keeps monitorCallFunction) s t) : OnBoundaries t.editor := by
  induction hrun with
  | refl => exact hs
  | tail _ hmove ih => exact hmove.boundaries ih

/-- Where called code never fails and the boundaries are kept, some keys of the next command hang
the editor exactly where the code has an instruction that cannot be shown. From code that can be
shown, a session that replaces whole instructions, and assembles nothing that cannot be shown, can
be typed, and no keys of its next command hang. -/
theorem editorSession_safe (hcall : ∀ fn world, Safe (monitorCallFunction fn world))
    {memory : Memory} {entries : List MemoryEntry} {addr : Address}
    {memorySection : Option SectionEntry} (hstart : StartsOnBoundary memory addr memorySection) :
    (∀ t, ReflTransGen (GuardedMove Keeps monitorCallFunction)
        (startSession memory entries addr memorySection) t →
      (Safe (assembleRound monitorCallFunction t) ↔ CodeShown t.editor)) ∧
    (CodeShown (monitorAssemble memory addr memorySection) →
      ∀ t, ReflTransGen (GuardedMove Careful monitorCallFunction)
        (startSession memory entries addr memorySection) t →
      (∃ keys, Typed (assembleRound monitorCallFunction)
        (startSession memory entries addr memorySection) keys t) ∧
      Safe (assembleRound monitorCallFunction t)) := by
  have hboundaries := monitorAssemble_onBoundaries hstart
  constructor
  · intro t hrun
    exact safe_assembleRound_iff hcall (run_boundaries hboundaries hrun)
  · intro hshown t hrun
    have hmoves : ReflTransGen (SessionMove monitorCallFunction) _ t :=
      hrun.lift id fun _ _ hmove => hmove.move
    have hvisits := (visits_iff_moves (atMenu_startSession memory entries addr memorySection)).mpr
      hmoves
    have hsession : Shown (startSession memory entries addr memorySection).editor :=
      ⟨hboundaries,hshown⟩
    have hend := run_shown hsession hrun
    exact ⟨exists_typed hvisits,(safe_assembleRound_iff hcall hend.boundaries).mpr
      hend.instructions⟩

end

/-- Two loads are assembled, the cursor goes back to the first, and a branch takes its place. -/
theorem editorSession_safe_replaced : ∃ t,
    ReflTransGen (GuardedMove Careful fun _ world => pure world)
      (startSession (fun _ => 0) [] 0x20000000 none) t ∧
      t.editor.endAddr = 0x20000008 ∧ Safe (assembleRound (fun _ world => pure world) t) := by
  let ldr : ThumbInstructionSpec :=
    { mnemonic := .ldr, addressingMode := .offset
      operands := [.reg 0,.reg 15,.signedImmediate (-4)] }
  let bl : ThumbInstructionSpec := { mnemonic := .bl, operands := [.signedImmediate 0] }
  have hldr : Offered ldr := .loadImmediate (by decide) 0 15 (-4)
  have hshown : ¬AimlessLoad ldr := by
    rintro ⟨rt,rn,simm,_,_,hoperands,_,_,himm⟩
    simp only [ldr,List.cons.injEq,ThumbOperand.signedImmediate.injEq] at hoperands
    obtain ⟨_,_,rfl,_⟩ := hoperands
    exact absurd himm (by decide)
  have hbl : ¬AimlessLoad bl := by
    rintro ⟨_,_,_,h,_⟩
    cases h
  have hrun : ReflTransGen (GuardedMove Careful fun _ world => pure world)
      (startSession (fun _ => 0) [] 0x20000000 none) _ :=
    .tail (.tail (.tail (.tail .refl
      (.assemble hldr ⟨by decide,.inl (by decide)⟩ hshown))
      (.assemble hldr ⟨by decide,.inl (by decide)⟩ hshown))
      (@GuardedMove.command _ _ _ .upToStart 0 _ trivial trivial rfl))
      (.assemble (.branchLink 0) ⟨by decide,.inr (.single ⟨by decide,by decide⟩)⟩ hbl)
  refine ⟨_,hrun,by decide,?_⟩
  exact ((@editorSession_safe (fun _ world => pure world) (fun _ _ => safe_pure _) (fun _ => 0) []
    0x20000000 none trivial).2
    (fun p hp => absurd hp (not_instructions (by decide) p)) _ hrun).2

end TwMonitor.Editor
