import TwMonitor.Allocator
import TwMonitor.Ownership
import TwMonitor.UsartDriver

/-!
# Owners of the receive buffers

The allocations in use, against the pointers of the two driver states. The two
agree through any order of calls, until a USART is enabled that has a buffer
already: its pointer is overwritten, and the buffer stays allocated for nobody.
-/
namespace TwMonitor.UsartDriver
open ByteMemory EntryStore Ownership

inductive UsartCall where
  | enable (p : UsartPeriph) (on : Bool)
  | setPolling (p : UsartPeriph) (shouldPoll : Bool)
deriving DecidableEq, Repr

def UsartCall.exec (stackCeiling : Address) (b : Board) : UsartCall → Option Board
  | .enable p on => usartEnable stackCeiling p b on
  | .setPolling p shouldPoll => usartSetPolling stackCeiling p b shouldPoll

def nonNull (ptr : Address) : Option Address := if ptr = 0 then none else some ptr

def Board.holds (b : Board) : UsartPeriph → Option Address := nonNull ∘ b.buffers

/-- The pointers that are not NULL. -/
def Board.heldBuffers (b : Board) : List Address := [.usart1,.usart2].filterMap b.holds

/-- The blocks in use are the buffers, each of one USART, and giving them back
fails no assertion. -/
structure Owned (stackCeiling : Address) (b : Board) : Prop where
  exact : ∃ blocks, blocksInUse stackCeiling b.store = some blocks ∧ blocks.Perm b.heldBuffers
  distinct : b.heldBuffers.Nodup
  freed : ∀ p, (usartEnable stackCeiling p b false).isSome = true

/-- A USART that has a buffer is not enabled. -/
def UsartCall.Careful (b : Board) : UsartCall → Prop
  | .enable p true => b.buffers p = 0
  | _ => True

/-- Calls that return, each of them careful. -/
inductive CarefulRun (stackCeiling : Address) (start : Board) : List UsartCall → Board → Prop
  | start : CarefulRun stackCeiling start [] start
  | call {calls : List UsartCall} {b b' : Board} {c : UsartCall} :
      CarefulRun stackCeiling start calls b → c.Careful b → c.exec stackCeiling b = some b' →
        CarefulRun stackCeiling start (calls ++ [c]) b'

/-- The static driver states are zero. -/
structure Started (s : Store) (b : Board) : Prop where
  store : b.store = s
  zeroed : ∀ p, b.driverStates p = {}

/-! ## Owners -/

theorem nonNull_eq_none {ptr : Address} : nonNull ptr = none ↔ ptr = 0 := by
  simp [nonNull]

theorem nonNull_eq_some {ptr q : Address} : nonNull ptr = some q ↔ q ≠ 0 ∧ ptr = q := by
  unfold nonNull
  split
  · next hzero =>
      refine ⟨fun h => absurd h (Option.some_ne_none q).symm,fun h => absurd ?_ h.1⟩
      exact h.2.symm.trans hzero
  · next hne =>
      constructor
      · intro h
        obtain rfl := Option.some.inj h
        exact ⟨hne,rfl⟩
      · rintro ⟨-,rfl⟩
        rfl

section
variable {b b' : Board} {p : UsartPeriph} {ptr : Address}

theorem mem_heldBuffers : ptr ∈ b.heldBuffers ↔ ∃ p, b.holds p = some ptr := by
  rw [Board.heldBuffers,List.mem_filterMap]
  refine ⟨fun ⟨p,_,hp⟩ => ⟨p,hp⟩,fun ⟨p,hp⟩ => ⟨p,?_,hp⟩⟩
  cases p <;> simp

theorem heldBuffers_nodup_iff : b.heldBuffers.Nodup ↔
    ∀ p q ptr, b.holds p = some ptr → b.holds q = some ptr → p = q := by
  constructor
  · intro h p q ptr hp hq
    unfold Board.heldBuffers at h
    cases p <;> cases q
    · rfl
    · simp [hp,hq] at h
    · simp [hp,hq] at h
    · rfl
  · exact fun h => List.Nodup.filterMap h (by decide)

theorem holds_update (hbuffers : b'.buffers = Function.update b.buffers p ptr) :
    b'.holds = Function.update b.holds p (nonNull ptr) := by
  rw [Board.holds,hbuffers]
  exact Function.comp_update nonNull b.buffers p ptr

end

/-! ## The store -/

section
variable {stackCeiling : Address} {g : History} {b b' : Board} {p : UsartPeriph}

/-- The history of the store of the board, which is asked for buffers only. -/
structure Custody (stackCeiling : Address) (g : History) (b : Board) : Prop where
  store : g.store = b.store
  coherent : Coherent stackCeiling g
  sized : ∀ block ∈ g.live, block.size = BitVec.ofNat 32 Usart.bufferSize

theorem Custody.owned_iff (h : Custody stackCeiling g b) :
    Owned stackCeiling b ↔ Exact (livePtrs g) b.holds := by
  obtain ⟨blocks,hblocks,hnodup,hmem⟩ := h.coherent.blocksInUse_eq
  rw [h.store] at hblocks
  constructor
  · intro howned
    obtain ⟨blocks',hsame,hperm⟩ := howned.exact
    obtain rfl := Option.some.inj (hblocks.symm.trans hsame)
    refine ⟨fun ptr => ?_,heldBuffers_nodup_iff.mp howned.distinct⟩
    rw [← hmem,hperm.mem_iff,mem_heldBuffers]
  · intro hexact
    have hdistinct := heldBuffers_nodup_iff.mpr hexact.apart
    refine ⟨⟨blocks,hblocks,?_⟩,hdistinct,fun p => ?_⟩
    · refine (List.perm_ext_iff_of_nodup hnodup hdistinct).mpr fun ptr => ?_
      rw [hmem,hexact.held,mem_heldBuffers]
    · change (intqueueFree p (b.setControl1 p 0)).isSome = true
      unfold intqueueFree
      dsimp only
      split
      · next hheld =>
          -- the buffer is a live block
          have hlive := (hexact.held _).mpr ⟨p,nonNull_eq_some.mpr ⟨hheld,rfl⟩⟩
          obtain ⟨block,hblock,hptr⟩ := List.mem_map.mp hlive
          have hfree := (h.coherent.granted hblock).free
          rw [hptr,h.store] at hfree
          rw [Option.isSome_map]
          exact hfree
      · rfl

/-! ## The steps -/

theorem Custody.keep (h : Custody stackCeiling g b) (hkeeps : Keeps b b') :
    Custody stackCeiling g b' ∧ b'.holds = b.holds :=
  ⟨⟨h.store.trans hkeeps.1.symm,h.coherent,h.sized⟩,congrArg (nonNull ∘ ·) hkeeps.2⟩

/-- A new buffer, which nobody else holds. -/
theorem Custody.grow (h : Custody stackCeiling g b) (halloc : Allocates stackCeiling p b b') :
    ∃ g', Custody stackCeiling g' b' ∧ livePtrs g' = insert (b'.buffers p) (livePtrs g) ∧
      b'.buffers p ∉ livePtrs g ∧ b'.buffers p ≠ 0 := by
  obtain ⟨ptr,halloc,hbuffers⟩ := halloc
  rw [← h.store] at halloc
  have hcoherent := h.coherent.sysAlloc halloc
  have hlive := livePtrs_sysAlloc g b'.store ptr (BitVec.ofNat 32 Usart.bufferSize)
  rw [hbuffers,Function.update_self]
  refine ⟨_,⟨rfl,hcoherent,fun block hblock => ?_⟩,hlive,fun hin => ?_,?_⟩
  · rcases List.mem_append.mp hblock with hold | hnew
    · exact h.sized block hold
    · rw [List.mem_singleton.mp hnew]
  · obtain ⟨block,hblock,hptr⟩ := List.mem_map.mp hin
    exact h.coherent.sysAlloc_fresh halloc block hblock hptr
  · refine hcoherent.ptr_ne_zero ?_
    rw [hlive]
    exact Set.mem_insert ptr _

/-- A new buffer is in good hands only if there was none. -/
theorem Custody.allocate (h : Custody stackCeiling g b) (hexact : Exact (livePtrs g) b.holds)
    (halloc : Allocates stackCeiling p b b') :
    ∃ g', Custody stackCeiling g' b' ∧
      (Exact (livePtrs g') b'.holds ↔ b.buffers p = 0) := by
  obtain ⟨g',hcustody,hlive,hfresh,hne⟩ := h.grow halloc
  refine ⟨g',hcustody,?_⟩
  obtain ⟨ptr,-,hbuffers⟩ := halloc
  have hptr : b'.buffers p = ptr := by rw [hbuffers,Function.update_self]
  rw [hptr] at hlive hfresh hne
  rw [hlive,holds_update hbuffers,nonNull_eq_some.mpr ⟨hne,rfl⟩,hexact.grant_iff hfresh]
  exact nonNull_eq_none

theorem Custody.free (h : Custody stackCeiling g b) (hexact : Exact (livePtrs g) b.holds)
    (hheld : b.buffers p ≠ 0) (hfrees : Frees p b b') :
    ∃ g', Custody stackCeiling g' b' ∧ Exact (livePtrs g') b'.holds := by
  obtain ⟨hfree,hbuffers⟩ := hfrees
  have hholds : b.holds p = some (b.buffers p) := nonNull_eq_some.mpr ⟨hheld,rfl⟩
  obtain ⟨block,hblock,hptr⟩ := List.mem_map.mp ((hexact.held _).mpr ⟨p,hholds⟩)
  rw [← h.store,← hptr] at hfree
  refine ⟨_,⟨rfl,h.coherent.sysFree hblock hfree,fun other hother => ?_⟩,?_⟩
  · exact h.sized other (List.mem_of_mem_erase hother)
  · rw [h.coherent.livePtrs_sysFree hblock,hptr,holds_update hbuffers,nonNull_eq_none.mpr rfl]
    exact hexact.release hholds

/-- What a call does to the ownership, by what it does to the buffer. -/
theorem Custody.call (h : Custody stackCeiling g b) (howned : Owned stackCeiling b)
    {c : UsartCall} (hexec : c.exec stackCeiling b = some b') :
    ∃ g', Custody stackCeiling g' b' ∧ (Owned stackCeiling b' ↔ c.Careful b) := by
  have hexact := h.owned_iff.mp howned
  have hkeeps : Keeps b b' → c.Careful b →
      ∃ g', Custody stackCeiling g' b' ∧ (Owned stackCeiling b' ↔ c.Careful b) := by
    intro hkeeps hcareful
    obtain ⟨hcustody,hholds⟩ := h.keep hkeeps
    refine ⟨g,hcustody,iff_of_true (hcustody.owned_iff.mpr ?_) hcareful⟩
    rw [hholds]
    exact hexact
  have hallocates {p : UsartPeriph} : Allocates stackCeiling p b b' →
      (b.buffers p = 0 ↔ c.Careful b) →
      ∃ g', Custody stackCeiling g' b' ∧ (Owned stackCeiling b' ↔ c.Careful b) := by
    intro halloc hcareful
    obtain ⟨g',hcustody,hiff⟩ := h.allocate hexact halloc
    exact ⟨g',hcustody,hcustody.owned_iff.trans (hiff.trans hcareful)⟩
  cases c with
  | setPolling p shouldPoll =>
      cases shouldPoll with
      | true => exact hkeeps (usartSetPolling_poll_keeps hexec) trivial
      | false =>
          rcases usartSetPolling_cases hexec with ⟨-,hkept⟩ | ⟨hnull,halloc⟩
          · exact hkeeps hkept trivial
          · exact hallocates halloc (iff_of_true hnull trivial)
  | enable p on =>
      cases on with
      | true => exact hallocates (usartEnable_true_allocates hexec) Iff.rfl
      | false =>
          rcases usartEnable_false_cases hexec with ⟨-,hkept⟩ | ⟨hheld,hfrees⟩
          · exact hkeeps hkept trivial
          · obtain ⟨g',hcustody,hexact'⟩ := h.free hexact hheld hfrees
            exact ⟨g',hcustody,iff_of_true (hcustody.owned_iff.mpr hexact') trivial⟩

/-! ## The runs -/

variable {userStart : Address} {memory : Memory} {s : Store} {start : Board}
  {calls : List UsartCall}

theorem custody_start (hinit : memoryInit stackCeiling userStart memory = some s)
    (hstart : Started s start) :
    Custody stackCeiling (historyInit s) start ∧ Owned stackCeiling start := by
  have hcustody : Custody stackCeiling (historyInit s) start :=
    ⟨hstart.store.symm,coherent_init hinit,fun _ hblock => absurd hblock List.not_mem_nil⟩
  refine ⟨hcustody,hcustody.owned_iff.mpr ?_⟩
  have hholds : start.holds = fun _ => none := by
    funext p
    rw [Board.holds,Function.comp_apply,Board.buffers,hstart.zeroed p]
    rfl
  have hlive : livePtrs (historyInit s) = ∅ := by
    ext ptr
    simp [livePtrs,historyInit]
  rw [hholds,hlive]
  exact exact_empty

theorem CarefulRun.custody (hinit : memoryInit stackCeiling userStart memory = some s)
    (hstart : Started s start) (hrun : CarefulRun stackCeiling start calls b) :
    (∃ g, Custody stackCeiling g b) ∧ Owned stackCeiling b := by
  induction hrun with
  | start =>
      obtain ⟨hcustody,howned⟩ := custody_start hinit hstart
      exact ⟨⟨_,hcustody⟩,howned⟩
  | call _ hcareful hexec ih =>
      obtain ⟨⟨g,hcustody⟩,howned⟩ := ih
      obtain ⟨g',hcustody',hiff⟩ := hcustody.call howned hexec
      exact ⟨⟨g',hcustody'⟩,hiff.mpr hcareful⟩

/-- The buffers stay owned along every careful run, and the first call that is not
careful ends that. -/
theorem bufferOwnership_careful (hinit : memoryInit stackCeiling userStart memory = some s)
    (hstart : Started s start) (hrun : CarefulRun stackCeiling start calls b) :
    Owned stackCeiling b ∧ ∀ (c : UsartCall) (b' : Board), c.exec stackCeiling b = some b' →
      (Owned stackCeiling b' ↔ c.Careful b) := by
  obtain ⟨⟨g,hcustody⟩,howned⟩ := hrun.custody hinit hstart
  refine ⟨howned,fun c b' hexec => ?_⟩
  obtain ⟨g',-,hiff⟩ := hcustody.call howned hexec
  exact hiff

end

/-- After a reset, with this store. -/
def boardReset (store : Store) : Board where
  store
  nvic := ⟨0,0⟩
  vectorTable _ := .other
  driverStates _ := {}
  usarts _ := {}

theorem boardReset_started (s : Store) : Started s (boardReset s) := ⟨rfl,fun _ => rfl⟩

/-- USART1 is enabled, polled and disabled, and USART2 is given its buffer. -/
theorem bufferOwnership_careful_reuse : ∃ (s : Store) (calls : List UsartCall) (b : Board),
    memoryInit 512 1024 (fun _ => 0) = some s ∧
      calls = [.enable .usart1 true,.setPolling .usart1 true,.enable .usart1 false,
        .enable .usart2 true] ∧
      CarefulRun 512 (boardReset s) calls b ∧ b.heldBuffers = [464] ∧ Owned 512 b := by
  have hrun : CarefulRun 512 (boardReset ((memoryInit 512 1024 fun _ => 0).get rfl)) _ _ :=
    .call (c := .enable .usart2 true) (.call (c := .enable .usart1 false)
      (.call (c := .setPolling .usart1 true) (.call (c := .enable .usart1 true) .start rfl rfl)
        trivial rfl) trivial rfl) rfl rfl
  exact ⟨_,_,_,rfl,rfl,hrun,rfl,(bufferOwnership_careful rfl (boardReset_started _) hrun).1⟩

/-- USART1 is enabled twice, and its first buffer is lost. -/
theorem usartEnable_twice : ∃ (s : Store) (b b' : Board),
    memoryInit 512 1024 (fun _ => 0) = some s ∧
      usartEnable 512 .usart1 (boardReset s) true = some b ∧
      usartEnable 512 .usart1 b true = some b' ∧
      blocksInUse 512 b'.store = some [464,416] ∧ b'.heldBuffers = [416] ∧ ¬ Owned 512 b' := by
  have hleak {b : Board} (hblocks : blocksInUse 512 b.store = some [464,416])
      (hheld : b.heldBuffers = [416]) : ¬ Owned 512 b := by
    rintro ⟨⟨blocks,hsame,hperm⟩,-,-⟩
    obtain rfl := Option.some.inj (hblocks.symm.trans hsame)
    rw [hheld] at hperm
    exact absurd hperm.length_eq (by decide)
  exact ⟨_,_,_,rfl,rfl,rfl,rfl,rfl,hleak rfl rfl⟩

end TwMonitor.UsartDriver
