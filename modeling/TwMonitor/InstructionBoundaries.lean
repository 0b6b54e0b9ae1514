import Mathlib.Data.BitVec
import TwMonitor.MonitorAssemble

/-!
# Instruction boundaries in the editor

The editor stores no boundaries. It finds them again in memory, which its own
commands overwrite: an instruction assembled in the middle of the code may end
inside of an old one, and its tail is then read as an instruction. All other
commands keep the cursor and the end on boundaries.
-/
namespace TwMonitor.Editor
open ByteMemory MemoryStore Thumb Tiling

/-- Whole instructions fill the memory from `p` up to `q`. -/
abbrev WellFormed (m : Memory) : Address → Address → Prop :=
  Tiles BitVec.toNat (thumbInsPtrIncrement m)

/-- Only the first halfword decides where the next instruction starts. -/
theorem thumbInsPtrIncrement_congr {m m' : Memory} {p : Address} (h₀ : m' p = m p)
    (h₁ : m' (p + 1) = m (p + 1)) : thumbInsPtrIncrement m' p = thumbInsPtrIncrement m p := by
  have hnarrow : ThumbT.narrow (load32 m' p) = ThumbT.narrow (load32 m p) := by
    rw [ThumbT.narrow,ThumbT.narrow,setWidth_load32,setWidth_load32,load16_congr h₀ h₁]
  rw [thumbInsPtrIncrement,thumbInsPtrIncrement,thumbIsWideInstruction,thumbIsWideInstruction,
    hnarrow]

theorem thumbInsPtrIncrement_cases (m : Memory) (p : Address) :
    thumbInsPtrIncrement m p = p + 2 ∨ thumbInsPtrIncrement m p = p + 4 := by
  unfold thumbInsPtrIncrement
  split
  · exact Or.inr rfl
  · exact Or.inl rfl

/-- An instruction that does not wrap takes at least a halfword. -/
theorem two_le_of_hop {m : Memory} {p q : Address}
    (h : Hop BitVec.toNat (thumbInsPtrIncrement m) p q) : p.toNat + 2 ≤ q.toNat := by
  obtain ⟨hlt,rfl⟩ := h
  rcases thumbInsPtrIncrement_cases m p with he | he
  · rw [he] at hlt ⊢
    bv_omega
  · rw [he] at hlt ⊢
    bv_omega

/-- Code depends on its own bytes only. -/
theorem WellFormed.congr {m m' : Memory} {p q : Address} (h : WellFormed m p q)
    (hm : ∀ a : Address, p.toNat ≤ a.toNat → a.toNat < q.toNat → m' a = m a) :
    WellFormed m' p q := by
  refine Tiles.congr h fun s t hs hop ht => ?_
  have htwo := two_le_of_hop hop
  have hsucc : (s + 1).toNat = s.toNat + 1 := by bv_omega
  have h₀ := hm s hs (by omega)
  have h₁ := hm (s + 1) (by omega) (by omega)
  rw [thumbInsPtrIncrement_congr h₀ h₁]
  exact hop.2

/-! ## The invariant -/

/-- The cursor and the end are boundaries, the cursor not past the end. -/
structure OnBoundaries (s : EditorState) : Prop where
  before : WellFormed s.memory s.startingAddr s.addr
  after : WellFormed s.memory s.addr s.endAddr

theorem OnBoundaries.loopHead {s : EditorState} (h : OnBoundaries s) :
    OnBoundaries (loopHead s) := by
  have hle := h.after.le
  have hsame : Editor.loopHead s = s := if_neg (by bv_omega)
  rwa [hsame]

theorem OnBoundaries.whole {s : EditorState} (h : OnBoundaries s) :
    WellFormed s.memory s.startingAddr s.endAddr := h.before.trans h.after

/-- The search of `previous_thumb_instruction` returns the instruction that ends
at the boundary. -/
theorem previousThumbInstruction_isSome {m : Memory} {start current : Address}
    (h : WellFormed m start current) (hlt : start < current) :
    ∃ fuel, (previousThumbInstruction m start current fuel).isSome = true := by
  obtain ⟨fuel,hfuel⟩ := search_isSome h hlt
  refine ⟨fuel,?_⟩
  rw [previousThumbInstruction,if_pos (by bv_omega)]
  exact hfuel

theorem previousThumbInstruction_eq_some {m : Memory} {start current previous : Address}
    (h : WellFormed m start current) (hlt : start < current) {fuel : ℕ}
    (hs : previousThumbInstruction m start current fuel = some previous) :
    WellFormed m start previous ∧
      Hop BitVec.toNat (thumbInsPtrIncrement m) previous current := by
  rw [previousThumbInstruction,if_pos (by bv_omega)] at hs
  exact search_eq_some h hlt hs

/-! ## Commands that move the cursor -/

section
variable {s t : EditorState} {fuel : ℕ}

theorem OnBoundaries.down (h : OnBoundaries s) (hlt : s.addr < s.endAddr) :
    OnBoundaries { s with addr := thumbInsPtrIncrement s.memory s.addr } where
  before := h.before.tail ⟨(h.after.uncons hlt).1,rfl⟩
  after := (h.after.uncons hlt).2

theorem OnBoundaries.up (h : OnBoundaries s) (hlt : s.startingAddr < s.addr) {addr : Address}
    (hs : previousThumbInstruction s.memory s.startingAddr s.addr fuel = some addr) :
    OnBoundaries { s with addr } := by
  obtain ⟨hbefore,hop⟩ := previousThumbInstruction_eq_some h.before hlt hs
  exact ⟨hbefore,h.after.head hop⟩

theorem OnBoundaries.rewind (h : OnBoundaries s) (hlt : s.startingAddr < s.endAddr)
    {endAddr : Address}
    (hs : previousThumbInstruction s.memory s.startingAddr s.endAddr fuel = some endAddr) :
    OnBoundaries { s with endAddr, addr := if endAddr < s.addr then endAddr else s.addr } := by
  obtain ⟨hbefore,_⟩ := previousThumbInstruction_eq_some h.whole hlt hs
  by_cases hpast : endAddr < s.addr
  · rw [if_pos hpast]
    exact ⟨hbefore,.refl⟩
  · rw [if_neg hpast]
    exact ⟨h.before,Tiles.split BitVec.toNat_injective h.before hbefore (by bv_omega)⟩

/-! ## Assembling -/

/-- The bytes that an instruction takes. They depend on the specification only. -/
def EditorState.size (s : EditorState) (instruction : ThumbInstructionSpec) : ℕ :=
  (candidates (s.specify instruction)).size

/-- The instruction fits below the top of the address space, and the old end of
the code is still a boundary after it. -/
def EditorState.KeepsEnd (s : EditorState) (instruction : ThumbInstructionSpec) : Prop :=
  s.addr.toNat + s.size instruction < 2 ^ 32 ∧
    (s.endAddr.toNat ≤ s.addr.toNat + s.size instruction ∨
      WellFormed s.memory (s.addr + BitVec.ofNat 32 (s.size instruction)) s.endAddr)

/-- The state after the instruction, before the head of the loop. -/
def EditorState.assembled (s : EditorState) (instruction : ThumbInstructionSpec) : EditorState :=
  { s with
    addr := s.addr + BitVec.ofNat 32 (s.size instruction)
    memory := (thumbAssemble s.addr (s.specify instruction) s.memory).2 }

theorem runCommand_assemble (s : EditorState) (fuel : ℕ) (instruction : ThumbInstructionSpec) :
    runCommand s fuel (.assemble instruction) = some (s.assembled instruction) := by
  rw [runCommand,assembleAndShowResult_eq,size_thumbAssemble]
  rfl

/-- What a command does to the editor, if it does anything. -/
inductive CommandEffect (s : EditorState) (fuel : ℕ) : EditorCommand → EditorState → Prop
  | assemble (instruction : ThumbInstructionSpec) :
      CommandEffect s fuel (.assemble instruction) (s.assembled instruction)
  | specifyWidth (widthSpecifier : ThumbWidthSpecifier) :
      CommandEffect s fuel (.specifyWidth widthSpecifier) { s with widthSpecifier }
  | upToStart : CommandEffect s fuel .upToStart { s with addr := s.startingAddr }
  | downToEnd : CommandEffect s fuel .downToEnd { s with addr := s.endAddr }
  | up {addr : Address} : s.startingAddr < s.addr →
      previousThumbInstruction s.memory s.startingAddr s.addr fuel = some addr →
      CommandEffect s fuel .up { s with addr }
  | down : s.addr < s.endAddr →
      CommandEffect s fuel .down { s with addr := thumbInsPtrIncrement s.memory s.addr }
  | rewind {endAddr : Address} : s.startingAddr < s.endAddr →
      previousThumbInstruction s.memory s.startingAddr s.endAddr fuel = some endAddr →
      CommandEffect s fuel .rewindInstruction
        { s with endAddr, addr := if endAddr < s.addr then endAddr else s.addr }
  | stay (command : EditorCommand) : CommandEffect s fuel command s

theorem runCommand_effect {t : EditorState} {command : EditorCommand}
    (ht : runCommand s fuel command = some t) : CommandEffect s fuel command t := by
  cases command with
  | assemble instruction =>
      rw [runCommand_assemble] at ht
      obtain rfl := Option.some.inj ht
      exact .assemble instruction
  | specifyWidth widthSpecifier =>
      obtain rfl := Option.some.inj ht
      exact .specifyWidth widthSpecifier
  | upToStart =>
      obtain rfl := Option.some.inj ht
      exact .upToStart
  | downToEnd =>
      obtain rfl := Option.some.inj ht
      exact .downToEnd
  | up =>
      rw [runCommand] at ht
      split at ht
      · next hlt =>
          obtain ⟨addr,hprevious,he⟩ := Option.bind_eq_some_iff.mp ht
          obtain rfl := Option.some.inj he
          exact .up hlt hprevious
      · obtain rfl := Option.some.inj ht
        exact .stay .up
  | down =>
      rw [runCommand] at ht
      split at ht
      · next hlt =>
          obtain rfl := Option.some.inj ht
          exact .down hlt
      · obtain rfl := Option.some.inj ht
        exact .stay .down
  | rewindInstruction =>
      rw [runCommand] at ht
      split at ht
      · next hlt =>
          obtain ⟨endAddr,hprevious,he⟩ := Option.bind_eq_some_iff.mp ht
          obtain rfl := Option.some.inj he
          exact .rewind hlt hprevious
      · obtain rfl := Option.some.inj ht
        exact .stay .rewindInstruction

variable {instruction : ThumbInstructionSpec}

theorem assembled_addr (hfit : s.addr.toNat + s.size instruction < 2 ^ 32) :
    (s.assembled instruction).addr.toNat = s.addr.toNat + s.size instruction := by
  change (s.addr + BitVec.ofNat 32 (s.size instruction)).toNat = _
  rw [BitVec.toNat_add,BitVec.toNat_ofNat]
  omega

/-- The bytes below the cursor and from its new place on are the old ones. -/
theorem assembled_memory (hfit : s.addr.toNat + s.size instruction < 2 ^ 32) {a : Address}
    (ha : a.toNat < s.addr.toNat ∨ s.addr.toNat + s.size instruction ≤ a.toNat) :
    (s.assembled instruction).memory a = s.memory a := by
  apply (writesExactly_thumbAssemble s.addr (s.specify instruction) s.memory).frame
  rw [size_thumbAssemble]
  change ¬ (a - s.addr).toNat < s.size instruction
  rw [BitVec.toNat_sub]
  have hlt := a.isLt
  omega

theorem assembled_before (h : OnBoundaries s)
    (hfit : s.addr.toNat + s.size instruction < 2 ^ 32) :
    WellFormed (s.assembled instruction).memory s.startingAddr (s.assembled instruction).addr := by
  have hkept : WellFormed (s.assembled instruction).memory s.startingAddr s.addr :=
    h.before.congr fun a _ ha => assembled_memory hfit (Or.inl ha)
  by_cases hsize : s.size instruction = 0
  · have haddr : (s.assembled instruction).addr = s.addr := by
      simp [EditorState.assembled,hsize]
    rw [haddr]
    exact hkept
  · have haddr := assembled_addr hfit
    have hnext : thumbInsPtrIncrement (s.assembled instruction).memory s.addr =
        (s.assembled instruction).addr := by
      rw [EditorState.size,← size_thumbAssemble s.addr (s.specify instruction) s.memory] at hsize
      have hinc := thumbInsPtrIncrement_thumbAssemble hsize
      rwa [size_thumbAssemble] at hinc
    exact hkept.tail ⟨by omega,hnext⟩

/-- What follows the instruction has not changed. -/
theorem assembled_after_iff (hfit : s.addr.toNat + s.size instruction < 2 ^ 32) (q : Address) :
    WellFormed (s.assembled instruction).memory (s.assembled instruction).addr q ↔
      WellFormed s.memory (s.assembled instruction).addr q := by
  have haddr := assembled_addr hfit
  constructor
  · exact fun h => h.congr fun a ha _ => (assembled_memory hfit (Or.inr (by omega))).symm
  · exact fun h => h.congr fun a ha _ => assembled_memory hfit (Or.inr (by omega))

/-- Assembling keeps the boundaries in no other case. -/
theorem OnBoundaries.assemble_iff (h : OnBoundaries s)
    (hfit : s.addr.toNat + s.size instruction < 2 ^ 32) :
    OnBoundaries (Editor.loopHead (s.assembled instruction)) ↔ s.KeepsEnd instruction := by
  have haddr := assembled_addr hfit
  have hbefore := assembled_before h hfit
  have hafter := assembled_after_iff hfit s.endAddr
  by_cases hpast : (s.assembled instruction).endAddr < (s.assembled instruction).addr
  · have hend : s.endAddr.toNat < (s.assembled instruction).addr.toNat := hpast
    rw [Editor.loopHead,if_pos hpast]
    exact ⟨fun _ => ⟨hfit,Or.inl (by omega)⟩,fun _ => ⟨hbefore,.refl⟩⟩
  · have hend : (s.assembled instruction).addr.toNat ≤ s.endAddr.toNat := Nat.le_of_not_lt hpast
    rw [Editor.loopHead,if_neg hpast]
    constructor
    · exact fun hb => ⟨hfit,Or.inr (hafter.mp hb.after)⟩
    · rintro ⟨_,hle | hwell⟩
      · have hsame : (s.assembled instruction).addr = s.endAddr :=
          BitVec.eq_of_toNat_eq (by omega)
        refine ⟨hbefore,?_⟩
        change WellFormed _ (s.assembled instruction).addr s.endAddr
        rw [hsame]
      · exact ⟨hbefore,hafter.mpr hwell⟩

end

/-! ## Runs -/

/-- The condition on a round of the editor. Only assembling has one. -/
def Keeps (s : EditorState) : EditorCommand → Prop
  | .assemble instruction => s.KeepsEnd instruction
  | _ => True

def KeepingStep (s t : EditorState) : Prop :=
  ∃ command fuel, Keeps s command ∧ step s fuel command = some t

/-- A command that writes no memory stays on the boundaries. -/
theorem runCommand_onBoundaries {s t : EditorState} (h : OnBoundaries s) {fuel : ℕ}
    {command : EditorCommand} (hmoves : ∀ instruction, command ≠ .assemble instruction)
    (ht : runCommand s fuel command = some t) : OnBoundaries t := by
  cases runCommand_effect ht with
  | assemble instruction => exact absurd rfl (hmoves instruction)
  | specifyWidth widthSpecifier => exact ⟨h.before,h.after⟩
  | upToStart => exact ⟨.refl,h.whole⟩
  | downToEnd => exact ⟨h.whole,.refl⟩
  | up hlt hprevious => exact h.up hlt hprevious
  | down hlt => exact h.down hlt
  | rewind hlt hprevious => exact h.rewind hlt hprevious
  | stay => exact h

theorem step_onBoundaries {s t : EditorState} (h : OnBoundaries s) (hstep : KeepingStep s t) :
    OnBoundaries t := by
  obtain ⟨command,fuel,hkeeps,ht⟩ := hstep
  obtain ⟨u,hu,rfl⟩ := Option.map_eq_some_iff.mp ht
  by_cases hassemble : ∃ instruction, command = .assemble instruction
  · obtain ⟨instruction,rfl⟩ := hassemble
    rw [runCommand_assemble] at hu
    obtain rfl := Option.some.inj hu
    exact (h.assemble_iff hkeeps.1).mpr hkeeps
  · have hmoves := runCommand_onBoundaries h (not_exists.mp hassemble) hu
    exact hmoves.loopHead

/-- The cursor starts at an end of well-formed code. Without a section there is
no code yet. -/
def StartsOnBoundary (memory : Memory) (addr : Address) : Option SectionEntry → Prop
  | none => True
  | some entry =>
      let start := memoryGetSectionAddress entry
      WellFormed memory start (start + memoryGetSectionSize entry) ∧
        (addr = start ∨ addr = start + memoryGetSectionSize entry)

theorem monitorAssemble_onBoundaries {memory : Memory} {addr : Address}
    {memorySection : Option SectionEntry} (h : StartsOnBoundary memory addr memorySection) :
    OnBoundaries (monitorAssemble memory addr memorySection) := by
  cases memorySection with
  | none => exact OnBoundaries.loopHead ⟨.refl,.refl⟩
  | some entry =>
      obtain ⟨hcode,haddr⟩ := h
      have hle := hcode.le
      dsimp only [monitorAssemble]
      generalize memoryGetSectionAddress entry + memoryGetSectionSize entry = endAddr at *
      rcases haddr with rfl | rfl
      · rw [if_neg (by bv_omega),if_neg (by bv_omega)]
        exact OnBoundaries.loopHead ⟨.refl,hcode⟩
      · rw [if_neg (by bv_omega),if_neg (by bv_omega)]
        exact OnBoundaries.loopHead ⟨hcode,.refl⟩

theorem run_onBoundaries {s t : EditorState} (hs : OnBoundaries s)
    (hrun : Relation.ReflTransGen KeepingStep s t) : OnBoundaries t := by
  induction hrun with
  | refl => exact hs
  | tail _ hstep ih => exact step_onBoundaries ih hstep

/-- `q` is reached from `p` by incrementing the instruction pointer. -/
def Reachable (m : Memory) (p q : Address) : Prop := ∃ n, (thumbInsPtrIncrement m)^[n] p = q

/-- `previous_thumb_instruction` returns, with the instruction that ends at the
given pointer. -/
def FindsPrevious (m : Memory) (start current : Address) : Prop :=
  ∃ fuel previous, previousThumbInstruction m start current fuel = some previous ∧
    Reachable m start previous ∧ thumbInsPtrIncrement m previous = current

theorem findsPrevious {m : Memory} {start current : Address} (h : WellFormed m start current)
    (hlt : start < current) : FindsPrevious m start current := by
  obtain ⟨fuel,hfuel⟩ := previousThumbInstruction_isSome h hlt
  obtain ⟨previous,hprevious⟩ := Option.isSome_iff_exists.mp hfuel
  obtain ⟨hbefore,hop⟩ := previousThumbInstruction_eq_some h hlt hprevious
  exact ⟨fuel,previous,hprevious,hbefore.iterate,hop.2⟩

/-- While no instruction is assembled that puts the end inside of another one,
the cursor and the end are boundaries, and Up and Rewind return. -/
theorem editor_boundaries {memory : Memory} {addr : Address}
    {memorySection : Option SectionEntry} (hstart : StartsOnBoundary memory addr memorySection)
    {s : EditorState}
    (hrun : Relation.ReflTransGen KeepingStep (monitorAssemble memory addr memorySection) s) :
    Reachable s.memory s.startingAddr s.addr ∧ Reachable s.memory s.startingAddr s.endAddr ∧
      (s.startingAddr < s.addr → FindsPrevious s.memory s.startingAddr s.addr) ∧
      (s.startingAddr < s.endAddr → FindsPrevious s.memory s.startingAddr s.endAddr) := by
  have hs := run_onBoundaries (monitorAssemble_onBoundaries hstart) hrun
  exact ⟨hs.before.iterate,hs.whole.iterate,findsPrevious hs.before,findsPrevious hs.whole⟩

/-- BL over two NOPs. -/
theorem editor_boundaries_overwrite : ∃ s,
    Relation.ReflTransGen KeepingStep (monitorAssemble (fun _ => 0) 0x20000000 none) s ∧
      s.startingAddr < s.endAddr ∧ FindsPrevious s.memory s.startingAddr s.endAddr := by
  let nop : EditorCommand := .assemble { mnemonic := .nop }
  let bl : EditorCommand := .assemble { mnemonic := .bl, operands := [.signedImmediate 0] }
  have hrun : Relation.ReflTransGen KeepingStep (monitorAssemble (fun _ => 0) 0x20000000 none) _ :=
    .tail (.tail (.tail (.tail .refl
      ⟨nop,0,⟨by decide,Or.inl (by decide)⟩,rfl⟩)
      ⟨nop,0,⟨by decide,Or.inl (by decide)⟩,rfl⟩)
      ⟨.upToStart,0,trivial,rfl⟩)
      ⟨bl,0,⟨by decide,Or.inl (by decide)⟩,rfl⟩
  exact ⟨_,hrun,by decide,(editor_boundaries (by trivial) hrun).2.2.2 (by decide)⟩

/-! ## Losing the end -/

/-- Any round of the editor. -/
def EditorStep (s t : EditorState) : Prop := ∃ command fuel, step s fuel command = some t

theorem no_predecessor {m : Memory} {q : Address}
    (hnarrow : thumbIsWideInstruction (load32 m (q - 4)) = false)
    (hwide : thumbIsWideInstruction (load32 m (q - 2)) = true) (p : Address) :
    thumbInsPtrIncrement m p ≠ q := by
  intro h
  unfold thumbInsPtrIncrement at h
  split at h
  · next hw =>
      have hp : p = q - 4 := by bv_omega
      rw [hp,hnarrow] at hw
      exact Bool.false_ne_true hw
  · next hw =>
      have hp : p = q - 2 := by bv_omega
      rw [hp,hwide] at hw
      exact hw rfl

/-- Without an instruction that ends at the end, Rewind never returns. -/
theorem rewind_endless {s : EditorState} (hlt : s.startingAddr < s.endAddr)
    (hlost : ∀ p, thumbInsPtrIncrement s.memory p ≠ s.endAddr) :
    ¬ Reachable s.memory s.startingAddr s.endAddr ∧
      ∀ fuel, step s fuel .rewindInstruction = none := by
  constructor
  · rintro ⟨n,hn⟩
    cases n with
    | zero =>
        have he : s.startingAddr = s.endAddr := hn
        bv_omega
    | succ n =>
        rw [Function.iterate_succ_apply'] at hn
        exact hlost _ hn
  · intro fuel
    have hnone : previousThumbInstruction s.memory s.startingAddr s.endAddr fuel = none := by
      rw [previousThumbInstruction,if_pos (by bv_omega)]
      exact search_eq_none hlost fuel _
    rw [step,runCommand,if_pos hlt,hnone]
    rfl

/-- BL to its own address, assembled first, is overwritten by NOP. Its second
halfword `FFFE` reads as a wide instruction that runs past the end, and Rewind
walks on without finding it. -/
theorem editor_boundary_lost : ∃ s,
    Relation.ReflTransGen EditorStep (monitorAssemble (fun _ => 0) 0x20000000 none) s ∧
      s.startingAddr < s.endAddr ∧ ¬ Reachable s.memory s.startingAddr s.endAddr ∧
      ∀ fuel, step s fuel .rewindInstruction = none := by
  let bl : ThumbInstructionSpec := { mnemonic := .bl, operands := [.signedImmediate 0] }
  refine ⟨_,.tail (.tail (.tail .refl ⟨.assemble bl,0,rfl⟩) ⟨.upToStart,0,rfl⟩)
    ⟨.assemble { mnemonic := .nop },0,rfl⟩,?_,rewind_endless ?_ (no_predecessor ?_ ?_)⟩
  · decide
  · decide
  · decide
  · decide

end TwMonitor.Editor
