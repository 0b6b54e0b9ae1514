import TwMonitor.ExceptionStack
import TwMonitor.WhileLoop

/-!
# Leaving a hard fault

The handler of the hard fault changes the frame of the exception, so that its return leads to
`fault_exit` in the thread, or to code that does the same with the exception below. What it
prints first is left out, but for the memory. The status that it writes keeps five bits of the
number of the exception, so a handler with a higher number is not unwound.
-/
namespace TwMonitor.FaultExit
open ByteMemory ExceptionStack

/-- Where the linker has put the code. -/
structure Symbols where
  faultExit : Address
  faultExitUnwindExceptions : Address
  ne : faultExitUnwindExceptions ≠ faultExit

def exceptionFrameOffPc : Address := 24

def exceptionFrameOffXpsr : Address := 28

def xpsrThumbBit : BitVec 32 := 1#32 <<< 24

def xpsrIpsrBitMask : BitVec 32 := 0x1F

section
variable (symbols : Symbols) (prints : Cpu → Memory)

/-- `hardfault_handler.exit_fault`. -/
def exitFault (c : Cpu) : Option Cpu :=
  let r2 :=
    if c.context.lr &&& 0xF = 1 then symbols.faultExitUnwindExceptions else symbols.faultExit
  let m := store32 c.memory (c.sp + exceptionFrameOffPc) r2
  let r0 := c.sp + exceptionFrameOffXpsr
  let r2 := load32 m r0 &&& xpsrIpsrBitMask
  let r1 := xpsrThumbBit ||| r2
  let m := store32 m r0 r1
  exceptionReturn c.context.lr { c with memory := m, context := { c.context with r0, r1, r2 } }

def faultExitUnwindExceptions (c : Cpu) : Option Cpu :=
  exitFault symbols { c with memory := prints c }

/-- It hangs before the board is ready, and on the other stack. -/
def hardfaultHandler (boardInited : Bool) (c : Cpu) : Option Cpu :=
  if !boardInited then none
  else if c.context.lr &&& 0xF = 0xD then none
  else exitFault symbols { c with memory := prints c }

/-- From handler to handler, until the code is not that for the next one. -/
def unwind : ℕ → Cpu → Option Cpu :=
  WhileLoop.run (fun c => c.context.pc == symbols.faultExitUnwindExceptions)
    (faultExitUnwindExceptions symbols prints)

/-- A hard fault in the last of the exceptions. The board is taken to be ready. -/
def faultRun (fuel : ℕ) (c : Cpu) : Option Cpu :=
  (hardfaultHandler symbols prints true c).bind (unwind symbols prints fuel)

end

/-! ## Exceptions on the stack -/

/-- Each exception is taken before the one above it has executed anything. The last is the
first of the list. -/
def takeAll (vector : ℕ → Address) : List ℕ → Cpu → Cpu
  | [],c => c
  | e::rest,c => exceptionEntry vector e (takeAll vector rest c)

theorem takeAll_active {vector : ℕ → Address} {c : Cpu} (h : c.active = ∅) (es : List ℕ) :
    (takeAll vector es c).active = es.toFinset := by
  induction es with
  | nil => exact h
  | cons e es ih =>
      rw [List.toFinset_cons,← ih]
      rfl

/-- Where the last of the exceptions returns to. -/
def linkOf : List ℕ → BitVec 32
  | _::_::_ => returnToHandler
  | _ => returnToThread

/-- The frames of the exceptions, one above the other. -/
def Frames (m : Memory) : List ℕ → Address → Prop
  | [],_ => True
  | [_],a => ipsrOf (loadContext m a).xpsr = 0
  | _::e::rest,a => ipsrOf (loadContext m a).xpsr = e ∧
      (loadContext m a).lr = linkOf (e::rest) ∧ Frames m (e::rest) (a + 32)

/-- In the handler of the last exception, with its frame at the stack pointer. -/
structure InHandler (stackTop : Address) (es : List ℕ) (c : Cpu) : Prop where
  link : c.context.lr = linkOf es
  frames : Frames c.memory es c.sp
  room : c.sp.toNat + 32 * es.length ≤ stackTop.toNat

section
variable {m m' : Memory} {a stackTop : Address} {es : List ℕ} {e e' : ℕ}

theorem Frames.congr (h : Frames m es a) (hroom : a.toNat + 32 * es.length ≤ stackTop.toNat)
    (hsame : ∀ x : Address, a.toNat ≤ x.toNat → x.toNat < stackTop.toNat → m' x = m x) :
    Frames m' es a := by
  have htop := stackTop.isLt
  induction es generalizing a with
  | nil => trivial
  | cons e es ih =>
      rw [List.length_cons] at hroom
      have hload : loadContext m' a = loadContext m a := by
        refine loadContext_congr fun x hx => ?_
        unfold InRange at hx
        exact hsame x (by bv_omega) (by bv_omega)
      cases es with
      | nil =>
          unfold Frames at h ⊢
          rwa [hload]
      | cons e' rest =>
          obtain ⟨hipsr,hlink,hrest⟩ := h
          have hnext : (a + 32).toNat = a.toNat + 32 := by
            rw [List.length_cons] at hroom
            bv_omega
          unfold Frames
          rw [hload]
          refine ⟨hipsr,hlink,ih hrest (by omega) fun x hlow => hsame x (by omega)⟩

variable {vector : ℕ → Address} {c : Cpu}

theorem InHandler.take (h : InHandler stackTop (e'::es) c) (hipsr : c.ipsr = e') (hpos : 0 < e')
    (haligned : c.sp.toNat % 8 = 0) (hroom : 32 ≤ c.sp.toNat) :
    InHandler stackTop (e::e'::es) (exceptionEntry vector e c) := by
  have hsp := exceptionEntry_sp vector e haligned hroom
  have hnext : (exceptionEntry vector e c).sp + 32 = c.sp := by bv_omega
  have hbelow := h.room
  rw [List.length_cons] at hbelow
  refine ⟨if_neg (by omega),⟨?_,?_,?_⟩,?_⟩
  · rw [exceptionEntry_saved]
    exact (ipsrOf_markAligned _ _).trans hipsr
  · rw [exceptionEntry_saved]
    exact h.link
  · rw [hnext]
    refine h.frames.congr h.room fun x hx _ => ?_
    refine storeContext_frame (a := (exceptionEntry vector e c).sp) _ _ fun hin => ?_
    unfold InRange at hin
    generalize (exceptionEntry vector e c).sp = a at hin hsp
    bv_omega
  · rw [List.length_cons,List.length_cons]
    omega

theorem inHandler_single (hthread : c.ipsr = 0) (haligned : c.sp.toNat % 4 = 0)
    (hroom : 36 ≤ c.sp.toNat) (e : ℕ) : InHandler c.sp [e] (exceptionEntry vector e c) := by
  obtain ⟨-,-,hhigh⟩ := @exceptionEntry_aligned vector c e haligned hroom
  refine ⟨if_pos hthread,?_,hhigh⟩
  show ipsrOf (loadContext (exceptionEntry vector e c).memory
    (exceptionEntry vector e c).sp).xpsr = 0
  rw [exceptionEntry_saved]
  exact (ipsrOf_markAligned _ _).trans hthread

theorem inHandler_takeAll (hthread : c.ipsr = 0) (haligned : c.sp.toNat % 4 = 0)
    (hes : ∀ e ∈ es, 0 < e ∧ e < 2 ^ 9) (hne : es ≠ [])
    (hroom : 32 * es.length + 4 ≤ c.sp.toNat) :
    InHandler c.sp es (takeAll vector es c) ∧ (takeAll vector es c).sp.toNat % 8 = 0 ∧
      c.sp.toNat ≤ (takeAll vector es c).sp.toNat + 32 * es.length + 4 := by
  induction es with
  | nil => exact absurd rfl hne
  | cons e es ih =>
      rw [List.length_cons] at hroom
      cases es with
      | nil =>
          rw [List.length_nil] at hroom
          obtain ⟨height,hlow,-⟩ := @exceptionEntry_aligned vector c e haligned (by omega)
          exact ⟨inHandler_single hthread haligned (by omega) e,height,hlow⟩
      | cons e' rest =>
          obtain ⟨hbelow,height,hlow⟩ := ih (fun x hx => hes x (List.mem_cons_of_mem e hx))
            (List.cons_ne_nil e' rest) (by omega)
          obtain ⟨hpos,hsmall⟩ := hes e' (by simp)
          rw [List.length_cons] at hroom hlow
          have hipsr : (takeAll vector (e'::rest) c).ipsr = e' :=
            exceptionEntry_ipsr vector _ hsmall
          have hsp := exceptionEntry_sp vector e height (by omega)
          have htake : takeAll vector (e::e'::rest) c =
              exceptionEntry vector e (takeAll vector (e'::rest) c) := rfl
          rw [htake]
          refine ⟨hbelow.take hipsr hpos height (by omega),by omega,?_⟩
          rw [List.length_cons,List.length_cons]
          omega

end

/-! ## One handler -/

section
variable {symbols : Symbols} {stackTop : Address} {es : List ℕ} {e e' : ℕ} {c : Cpu}

/-- The frame as `exitFault` leaves it. -/
def changedFrame (k : Context) (pc : Address) : Context :=
  { k with pc, xpsr := xpsrThumbBit ||| (k.xpsr &&& xpsrIpsrBitMask) }

def changedMemory (symbols : Symbols) (c : Cpu) : Memory :=
  store32 (store32 c.memory (c.sp + 24)
      (if c.context.lr &&& 0xF = 1 then symbols.faultExitUnwindExceptions else symbols.faultExit))
    (c.sp + 28) (xpsrThumbBit ||| (load32 c.memory (c.sp + 28) &&& xpsrIpsrBitMask))

theorem loadContext_changed (symbols : Symbols) (c : Cpu) :
    loadContext (changedMemory symbols c) c.sp = changedFrame (loadContext c.memory c.sp)
      (if c.context.lr &&& 0xF = 1 then symbols.faultExitUnwindExceptions
      else symbols.faultExit) := by
  unfold loadContext changedMemory changedFrame
  simp (disch := decide) only [load32_store32,load32_store32_offset,load32_store32_first]

theorem ipsrOf_changed (xpsr : BitVec 32) :
    ipsrOf (xpsrThumbBit ||| (xpsr &&& xpsrIpsrBitMask)) = ipsrOf xpsr % 32 := by
  have hmask : (xpsr &&& xpsrIpsrBitMask).toNat = xpsr.toNat % 2 ^ 5 := by
    rw [BitVec.toNat_and]
    exact Nat.and_two_pow_sub_one_eq_mod xpsr.toNat 5
  have hthumb : xpsrThumbBit.toNat % 2 ^ 9 = 0 := by decide
  unfold ipsrOf
  rw [BitVec.toNat_or,Nat.or_mod_two_pow,hthumb,Nat.zero_or,hmask]
  omega

theorem changed_unaligned (xpsr : BitVec 32) :
    (xpsrThumbBit ||| (xpsr &&& xpsrIpsrBitMask)) &&& alignedBit = 0#32 := by
  have hthumb : xpsrThumbBit &&& alignedBit = 0#32 := by decide
  have hmask : xpsrIpsrBitMask &&& alignedBit = 0#32 := by decide
  apply BitVec.eq_of_getLsbD_eq
  intro i hi
  have hthumb' := congrArg (BitVec.getLsbD · i) hthumb
  have hmask' := congrArg (BitVec.getLsbD · i) hmask
  simp only [BitVec.getLsbD_and,BitVec.getLsbD_or,BitVec.getLsbD_zero] at hthumb' hmask' ⊢
  cases halign : alignedBit.getLsbD i with
  | false => exact Bool.and_false _
  | true =>
      rw [halign,Bool.and_true] at hthumb' hmask'
      rw [hthumb',hmask',Bool.and_false,Bool.false_or,Bool.false_and]

/-- Up to the return. -/
def changedCpu (symbols : Symbols) (c : Cpu) : Cpu where
  context :=
    { c.context with
      r0 := c.sp + 28
      r1 := xpsrThumbBit ||| (load32 c.memory (c.sp + 28) &&& xpsrIpsrBitMask)
      r2 := load32 c.memory (c.sp + 28) &&& xpsrIpsrBitMask }
  sp := c.sp
  active := c.active
  memory := changedMemory symbols c

theorem exitFault_eq (symbols : Symbols) (c : Cpu) :
    exitFault symbols c = exceptionReturn c.context.lr (changedCpu symbols c) := by
  have hword (v : BitVec 32) : load32 (store32 c.memory (c.sp + 24) v) (c.sp + 28) =
      load32 c.memory (c.sp + 28) := load32_store32_offset c.memory c.sp v (by decide)
  unfold exitFault changedCpu changedMemory
  simp only [exceptionFrameOffPc,exceptionFrameOffXpsr,hword]

/-- After the return, if it is not refused. -/
def leftCpu (symbols : Symbols) (c : Cpu) : Cpu where
  context := changedFrame (loadContext c.memory c.sp)
    (if c.context.lr &&& 0xF = 1 then symbols.faultExitUnwindExceptions else symbols.faultExit)
  sp := c.sp + 32
  active := c.active.erase c.ipsr
  memory := changedMemory symbols c

theorem popContext_changed (symbols : Symbols) (c : Cpu) :
    popContext (changedCpu symbols c) = leftCpu symbols c := by
  have hload := loadContext_changed symbols c
  have hbit := changed_unaligned (loadContext c.memory c.sp).xpsr
  have hmark : markAligned (xpsrThumbBit ||| ((loadContext c.memory c.sp).xpsr &&& xpsrIpsrBitMask))
      false = xpsrThumbBit ||| ((loadContext c.memory c.sp).xpsr &&& xpsrIpsrBitMask) := by
    rw [markAligned,if_neg Bool.false_ne_true,and_not_eq_sub,hbit]
    exact BitVec.sub_zero _
  unfold popContext changedCpu leftCpu
  simp only [hload]
  unfold changedFrame
  simp only [hbit,hmark]
  have hsp : c.sp + 32 ||| (if (0#32 != 0) = true then 4 else 0) = c.sp + 32 := BitVec.or_zero
  rw [hsp]
  rfl

theorem leftCpu_ipsr (symbols : Symbols) (c : Cpu) :
    (leftCpu symbols c).ipsr = ipsrOf (loadContext c.memory c.sp).xpsr % 32 := ipsrOf_changed _

/-- To the handler below. -/
theorem exitFault_inner (h : InHandler stackTop (e::e'::es) c) :
    exitFault symbols c =
        (if c.ipsr ∈ c.active ∧ e' % 32 ≠ 0 then some (leftCpu symbols c) else none) ∧
      (leftCpu symbols c).ipsr = e' % 32 ∧ InHandler stackTop (e'::es) (leftCpu symbols c) ∧
      (leftCpu symbols c).context.pc = symbols.faultExitUnwindExceptions := by
  obtain ⟨hlink,⟨hipsr,hlr,hrest⟩,hroom⟩ := h
  have htop := stackTop.isLt
  rw [List.length_cons,List.length_cons] at hroom
  have hleft : (leftCpu symbols c).ipsr = e' % 32 := by
    rw [leftCpu_ipsr,hipsr]
  have hsp : (c.sp + 32).toNat = c.sp.toNat + 32 := by bv_omega
  have hreturn : c.context.lr = returnToHandler := hlink
  have hcode : c.context.lr &&& 0xF = 1 := by
    rw [hreturn]
    decide
  refine ⟨?_,hleft,⟨hlr,?_,?_⟩,if_pos hcode⟩
  · have hcpu : (changedCpu symbols c).ipsr = c.ipsr := rfl
    have hactive : (changedCpu symbols c).active = c.active := rfl
    rw [exitFault_eq,exceptionReturn,hcpu,hactive,popContext_changed,hleft,if_pos hreturn]
    by_cases hin : c.ipsr ∈ c.active
    · rw [if_neg (not_not.mpr hin)]
      by_cases hzero : e' % 32 = 0
      · rw [if_pos hzero,if_neg fun hboth => hboth.2 hzero]
      · rw [if_neg hzero,if_pos ⟨hin,hzero⟩]
    · rw [if_pos hin,if_neg fun hboth => hin hboth.1]
  · refine @Frames.congr _ _ _ stackTop _ hrest ?_
      fun x (hx : (c.sp + 32).toNat ≤ x.toNat) _ => ?_
    · show (c.sp + 32).toNat + 32 * (e'::es).length ≤ stackTop.toNat
      rw [hsp,List.length_cons]
      omega
    · show changedMemory symbols c x = c.memory x
      unfold changedMemory
      rw [store32_ne,store32_ne]
      all_goals
        unfold InRange
        bv_omega
  · show (c.sp + 32).toNat + 32 * (e'::es).length ≤ _
    rw [hsp,List.length_cons]
    omega

/-- To the thread. -/
theorem exitFault_last (h : InHandler stackTop [e] c) :
    exitFault symbols c =
        (if c.ipsr ∈ c.active ∧ c.active.card = 1 then some (leftCpu symbols c) else none) ∧
      (leftCpu symbols c).ipsr = 0 ∧ (leftCpu symbols c).context.pc = symbols.faultExit ∧
      (leftCpu symbols c).context.xpsr = xpsrThumbBit := by
  obtain ⟨hlink,hipsr,hroom⟩ := h
  have hleft : (leftCpu symbols c).ipsr = 0 := by
    rw [leftCpu_ipsr]
    exact congrArg (· % 32) hipsr
  have hlr : c.context.lr = returnToThread := hlink
  have hcode : ¬c.context.lr &&& 0xF = 1 := by
    rw [hlr]
    decide
  refine ⟨?_,hleft,if_neg hcode,?_⟩
  · have hcpu : (changedCpu symbols c).ipsr = c.ipsr := rfl
    have hactive : (changedCpu symbols c).active = c.active := rfl
    have hne : returnToThread ≠ returnToHandler := by decide
    rw [exitFault_eq,exceptionReturn,hcpu,hactive,popContext_changed,hleft,hlr,if_neg hne]
    by_cases hin : c.ipsr ∈ c.active
    · rw [if_neg (not_not.mpr hin)]
      by_cases hcard : c.active.card = 1
      · rw [if_pos ⟨rfl,hcard⟩,if_pos rfl,if_pos ⟨hin,hcard⟩]
      · rw [if_neg fun hboth => hcard hboth.2,if_neg fun hboth => hcard hboth.2]
    · rw [if_pos hin,if_neg fun hboth => hin hboth.1]
  · -- of the number nothing is left
    have hmask : (loadContext c.memory c.sp).xpsr &&& xpsrIpsrBitMask = 0#32 := by
      apply BitVec.eq_of_toNat_eq
      rw [BitVec.toNat_and]
      have hmod : (loadContext c.memory c.sp).xpsr.toNat &&& xpsrIpsrBitMask.toNat =
          (loadContext c.memory c.sp).xpsr.toNat % 2 ^ 5 := Nat.and_two_pow_sub_one_eq_mod _ 5
      have hzero : (loadContext c.memory c.sp).xpsr.toNat % 2 ^ 9 = 0 := hipsr
      rw [hmod]
      show _ = 0
      omega
    show xpsrThumbBit ||| ((loadContext c.memory c.sp).xpsr &&& xpsrIpsrBitMask) = xpsrThumbBit
    rw [hmask]
    exact BitVec.or_zero

end

/-! ## From handler to handler -/

section
variable {symbols : Symbols} {prints : Cpu → Memory} {stackTop : Address} {es : List ℕ}
  {c c' : Cpu}

/-- The thread goes on with `fault_exit`, in Thumb state, and no exception is active. -/
structure Unwound (symbols : Symbols) (c : Cpu) : Prop where
  pc : c.context.pc = symbols.faultExit
  xpsr : c.context.xpsr = xpsrThumbBit
  active : c.active = ∅

theorem unwind_stop (h : c.context.pc = symbols.faultExit) (fuel : ℕ) :
    unwind symbols prints fuel c = some c := by
  refine WhileLoop.run_exit ?_ fuel
  rw [h]
  exact beq_false_of_ne symbols.ne.symm

theorem unwind_round (h : c.context.pc = symbols.faultExitUnwindExceptions) (fuel : ℕ) :
    unwind symbols prints (fuel + 1) c =
      (faultExitUnwindExceptions symbols prints c).bind (unwind symbols prints fuel) := by
  refine WhileLoop.run_round ?_ fuel
  rw [h]
  exact beq_self_eq_true _

theorem unwind_zero (h : c.context.pc = symbols.faultExitUnwindExceptions) :
    unwind symbols prints 0 c = none := by
  have hgoes : (c.context.pc == symbols.faultExitUnwindExceptions) = true := by
    rw [h]
    exact beq_self_eq_true _
  exact if_pos hgoes

/-- A handler that is left gives its frame back. -/
theorem InHandler.stack (h : InHandler stackTop es c) (hne : es ≠ []) {stackLow : ℕ}
    (hstack : stackLow ≤ c.sp.toNat) :
    stackLow ≤ (leftCpu symbols { c with memory := prints c }).sp.toNat := by
  have hpos := List.length_pos_of_ne_nil hne
  have hroom := h.room
  have htop := stackTop.isLt
  show stackLow ≤ (c.sp + 32).toNat
  bv_omega

variable {stackLow : ℕ} (hprints : ∀ c : Cpu, stackLow ≤ c.sp.toNat → ∀ a : Address,
  c.sp.toNat ≤ a.toNat → a.toNat < stackTop.toNat → prints c a = c.memory a)
include hprints

theorem InHandler.print (h : InHandler stackTop es c) (hstack : stackLow ≤ c.sp.toNat) :
    InHandler stackTop es { c with memory := prints c } :=
  ⟨h.link,h.frames.congr h.room (hprints c hstack),h.room⟩

/-- A run that ends has returned from exceptions with small numbers only. -/
theorem unwound_of_run (h : InHandler stackTop es c) (hstack : stackLow ≤ c.sp.toNat)
    (hne : es ≠ []) (hsmall : c.ipsr < 32) {fuel : ℕ}
    (hrun : (faultExitUnwindExceptions symbols prints c).bind (unwind symbols prints fuel) =
      some c') :
    (∀ x ∈ c.active, x < 32) ∧ Unwound symbols c' := by
  induction es generalizing c fuel with
  | nil => exact absurd rfl hne
  | cons e es ih =>
      have hprinted := h.print hprints hstack
      obtain ⟨left,hleft,hrest⟩ := Option.bind_eq_some_iff.mp hrun
      cases es with
      | nil =>
          obtain ⟨hexit,hipsr,hpc,hxpsr⟩ := @exitFault_last symbols stackTop _ _ hprinted
          have hboth : c.ipsr ∈ c.active ∧ c.active.card = 1 := by
            by_contra hnot
            exact absurd (hleft.symm.trans (hexit.trans (if_neg hnot))) (Option.some_ne_none _)
          obtain rfl := Option.some.inj (hleft.symm.trans (hexit.trans (if_pos hboth)))
          obtain ⟨x,hx⟩ := Finset.card_eq_one.mp hboth.2
          have hone : c.ipsr = x := by
            have hin := hboth.1
            rw [hx] at hin
            exact Finset.mem_singleton.mp hin
          obtain rfl := Option.some.inj ((unwind_stop hpc fuel).symm.trans hrest)
          refine ⟨fun y hy => ?_,hpc,hxpsr,?_⟩
          · rw [hx] at hy
            rw [Finset.mem_singleton.mp hy,← hone]
            exact hsmall
          · show c.active.erase c.ipsr = ∅
            rw [hone,hx,Finset.erase_singleton]
      | cons e' rest =>
          obtain ⟨hexit,hipsr,hbelow,hpc⟩ := @exitFault_inner symbols stackTop _ _ _ _ hprinted
          have hboth : c.ipsr ∈ c.active ∧ e' % 32 ≠ 0 := by
            by_contra hnot
            exact absurd (hleft.symm.trans (hexit.trans (if_neg hnot))) (Option.some_ne_none _)
          obtain rfl := Option.some.inj (hleft.symm.trans (hexit.trans (if_pos hboth)))
          have hnext : stackLow ≤ (leftCpu symbols { c with memory := prints c }).sp.toNat :=
            h.stack (List.cons_ne_nil _ _) hstack
          have hlow : (leftCpu symbols { c with memory := prints c }).ipsr < 32 := by
            rw [hipsr]
            exact Nat.mod_lt _ (by decide)
          cases fuel with
          | zero =>
              rw [unwind_zero hpc] at hrest
              exact absurd hrest (Option.some_ne_none _).symm
          | succ fuel =>
              rw [unwind_round hpc] at hrest
              obtain ⟨hactive,hunwound⟩ := ih hbelow hnext (List.cons_ne_nil e' rest) hlow hrest
              refine ⟨fun x hx => ?_,hunwound⟩
              by_cases hsame : x = c.ipsr
              · rw [hsame]
                exact hsmall
              · exact hactive x (Finset.mem_erase.mpr ⟨hsame,hx⟩)

/-- With small numbers only, it ends. -/
theorem run_of_small (h : InHandler stackTop es c) (hstack : stackLow ≤ c.sp.toNat) {e : ℕ}
    (hhead : es.head? = some e) (hipsr : c.ipsr = e) (hactive : c.active = es.toFinset)
    (hnodup : es.Nodup)
    (hes : ∀ x ∈ es, 0 < x ∧ x < 32) :
    ∃ fuel c', (faultExitUnwindExceptions symbols prints c).bind
      (unwind symbols prints fuel) = some c' := by
  induction es generalizing c e with
  | nil => exact absurd hhead (by simp)
  | cons x es ih =>
      obtain rfl : x = e := Option.some.inj hhead
      have hprinted := h.print hprints hstack
      have hin : c.ipsr ∈ c.active := by
        rw [hipsr,hactive]
        simp
      cases es with
      | nil =>
          obtain ⟨hexit,-,hpc,-⟩ := @exitFault_last symbols stackTop _ _ hprinted
          have hcard : c.active.card = 1 := by
            rw [hactive]
            rfl
          refine ⟨0,leftCpu symbols { c with memory := prints c },?_⟩
          rw [faultExitUnwindExceptions,hexit,if_pos ⟨hin,hcard⟩,Option.bind_some]
          exact unwind_stop hpc 0
      | cons y rest =>
          obtain ⟨hexit,hleft,hbelow,hpc⟩ := @exitFault_inner symbols stackTop _ _ _ _ hprinted
          obtain ⟨hpos,hlow⟩ := hes y (by simp)
          rw [Nat.mod_eq_of_lt hlow] at hexit hleft
          have hnot : x ∉ y::rest := (List.nodup_cons.mp hnodup).1
          have herase : (leftCpu symbols { c with memory := prints c }).active =
              (y::rest).toFinset := by
            show c.active.erase c.ipsr = _
            rw [hipsr,hactive,List.toFinset_cons,Finset.erase_insert (by simpa using hnot)]
          have hnext : stackLow ≤ (leftCpu symbols { c with memory := prints c }).sp.toNat :=
            h.stack (List.cons_ne_nil _ _) hstack
          obtain ⟨fuel,c',hrun⟩ := ih hbelow hnext rfl hleft herase (List.nodup_cons.mp hnodup).2
            fun z hz => hes z (List.mem_cons_of_mem x hz)
          refine ⟨fuel + 1,c',?_⟩
          rw [faultExitUnwindExceptions,hexit,if_pos ⟨hin,by omega⟩,Option.bind_some,
            unwind_round hpc]
          exact hrun

omit hprints in
theorem faultRun_eq (h : InHandler stackTop es c) (fuel : ℕ) :
    faultRun symbols prints fuel c =
      (faultExitUnwindExceptions symbols prints c).bind (unwind symbols prints fuel) := by
  have hlink : ¬c.context.lr &&& 0xF = 0xD := by
    rw [h.link]
    cases es with
    | nil => decide
    | cons e es => cases es <;> simp only [linkOf] <;> decide
  rw [faultRun,hardfaultHandler,Bool.not_true,if_neg Bool.false_ne_true,if_neg hlink]
  rfl

end

/-- A hard fault in a handler that has not executed anything is left for the thread exactly
when all exceptions below it have numbers that five bits can hold. -/
theorem faultRun_iff {symbols : Symbols} {prints : Cpu → Memory} {vector : ℕ → Address}
    {es : List ℕ} {c : Cpu}
    (hprints : ∀ d : Cpu, c.sp.toNat - (32 * (es.length + 1) + 4) ≤ d.sp.toNat → ∀ a : Address,
      d.sp.toNat ≤ a.toNat → a.toNat < c.sp.toNat → prints d a = d.memory a)
    (hthread : c.ipsr = 0) (hactive : c.active = ∅) (haligned : c.sp.toNat % 4 = 0)
    (hroom : 32 * (es.length + 1) + 4 ≤ c.sp.toNat) (hnodup : (3::es).Nodup)
    (hes : ∀ e ∈ es, 0 < e ∧ e < 2 ^ 9) :
    ((∃ fuel c', faultRun symbols prints fuel (takeAll vector (3::es) c) = some c') ↔
        ∀ e ∈ es, e < 32) ∧
      ∀ fuel c', faultRun symbols prints fuel (takeAll vector (3::es) c) = some c' →
        Unwound symbols c' := by
  have hall : ∀ e ∈ 3::es, 0 < e ∧ e < 2 ^ 9 := by
    intro e he
    rcases List.mem_cons.mp he with rfl | he
    · exact ⟨by decide,by decide⟩
    · exact hes e he
  obtain ⟨hin,-,hlow⟩ := @inHandler_takeAll (3::es) vector c hthread haligned hall
    (List.cons_ne_nil 3 es) hroom
  have hstack : c.sp.toNat - (32 * (es.length + 1) + 4) ≤
      (takeAll vector (3::es) c).sp.toNat := by
    rw [List.length_cons] at hlow
    omega
  have hipsr : (takeAll vector (3::es) c).ipsr = 3 := exceptionEntry_ipsr vector _ (by decide)
  have hset : (takeAll vector (3::es) c).active = (3::es).toFinset := takeAll_active hactive _
  have hended {fuel : ℕ} {c' : Cpu}
      (hrun : faultRun symbols prints fuel (takeAll vector (3::es) c) = some c') :
      (∀ x ∈ (takeAll vector (3::es) c).active, x < 32) ∧ Unwound symbols c' := by
    rw [faultRun_eq hin] at hrun
    exact unwound_of_run hprints hin hstack (List.cons_ne_nil 3 es) (by omega) hrun
  refine ⟨⟨?_,fun hsmall => ?_⟩,fun fuel c' hrun => (hended hrun).2⟩
  · rintro ⟨fuel,c',hrun⟩ e he
    refine (hended hrun).1 e ?_
    rw [hset]
    simp [he]
  · have hsmall' : ∀ x ∈ 3::es, 0 < x ∧ x < 32 := by
      intro x hx
      rcases List.mem_cons.mp hx with rfl | hx
      · exact ⟨by decide,by decide⟩
      · exact ⟨(hes x hx).1,hsmall x hx⟩
    obtain ⟨fuel,c',hrun⟩ := @run_of_small symbols prints _ _ _ _ hprints hin hstack _ rfl
      hipsr hset hnodup hsmall'
    exact ⟨fuel,c',(faultRun_eq hin fuel).trans hrun⟩

/-- In the thread, with an empty stack. -/
def threadCpu : Cpu where
  context :=
    { r0 := 0, r1 := 0, r2 := 0, r3 := 0, r12 := 0, lr := 0, pc := 0, xpsr := xpsrThumbBit }
  sp := 0x20020000
  active := ∅
  memory _ := 0

def someSymbols : Symbols where
  faultExit := 0x100
  faultExitUnwindExceptions := 0x200
  ne := by decide

/-- A call of the supervisor without a handler is left, a fault in the handler of USART1 is
not. -/
theorem faultRun_iff_svcall :
    (∃ fuel c', faultRun someSymbols Cpu.memory fuel (takeAll (fun _ => 0) [3,11] threadCpu) =
        some c') ∧
      ¬∃ fuel c', faultRun someSymbols Cpu.memory fuel (takeAll (fun _ => 0) [3,53] threadCpu) =
        some c' := by
  have hroom (e : ℕ) : 32 * ([e].length + 1) + 4 ≤ threadCpu.sp.toNat := by
    show 32 * (1 + 1) + 4 ≤ 0x20020000
    decide
  have hiff (e : ℕ) (hnodup : [3,e].Nodup) (he : 0 < e ∧ e < 2 ^ 9) :=
    (@faultRun_iff someSymbols Cpu.memory (fun _ => 0) [e] threadCpu (fun _ _ _ _ _ => rfl)
      (by decide) rfl (by decide) (hroom e) hnodup
      (fun x hx => by rw [List.mem_singleton.mp hx]; exact he)).1
  refine ⟨(hiff 11 (by decide) (by decide)).mpr (by decide),fun hrun => ?_⟩
  exact absurd ((hiff 53 (by decide) (by decide)).mp hrun) (by decide)

end TwMonitor.FaultExit
