import Mathlib.Data.Nat.Bitwise
import TwMonitor.ByteMemory

/-!
# Exceptions of the processor

An exception saves eight registers on the stack, and the link register says how to return: to
the thread, or to another handler. The return takes the registers from where the stack pointer
points to. It is refused when the exception is not active, or when the program status that it
finds does not fit. Only the main stack is used, and there are no floating point registers.
-/
namespace TwMonitor.ExceptionStack
open ByteMemory

/-- The registers that an exception saves. -/
structure Context where
  r0 : BitVec 32
  r1 : BitVec 32
  r2 : BitVec 32
  r3 : BitVec 32
  r12 : BitVec 32
  lr : BitVec 32
  pc : BitVec 32
  xpsr : BitVec 32
deriving DecidableEq, Repr

structure Cpu where
  context : Context
  sp : Address
  active : Finset ℕ
  memory : Memory

/-- The number of the exception, zero in the thread. -/
def ipsrOf (xpsr : BitVec 32) : ℕ := xpsr.toNat % 2 ^ 9

def Cpu.ipsr (c : Cpu) : ℕ := ipsrOf c.context.xpsr

def withIpsr (xpsr : BitVec 32) (n : ℕ) : BitVec 32 :=
  xpsr.extractLsb' 9 23 ++ BitVec.ofNat 9 n

/-- Where the status that is saved says that the stack was aligned. -/
def alignedBit : BitVec 32 := 1#32 <<< 9

def markAligned (xpsr : BitVec 32) (padded : Bool) : BitVec 32 :=
  if padded then xpsr ||| alignedBit else xpsr &&& ~~~alignedBit

def returnToHandler : BitVec 32 := 0xFFFFFFF1

def returnToThread : BitVec 32 := 0xFFFFFFF9

/-! ## Frames -/

section
variable (m : Memory) (a : Address)

def loadContext : Context where
  r0 := load32 m a
  r1 := load32 m (a + 4)
  r2 := load32 m (a + 8)
  r3 := load32 m (a + 12)
  r12 := load32 m (a + 16)
  lr := load32 m (a + 20)
  pc := load32 m (a + 24)
  xpsr := load32 m (a + 28)

def storeContext (k : Context) : Memory :=
  let m := store32 m a k.r0
  let m := store32 m (a + 4) k.r1
  let m := store32 m (a + 8) k.r2
  let m := store32 m (a + 12) k.r3
  let m := store32 m (a + 16) k.r12
  let m := store32 m (a + 20) k.lr
  let m := store32 m (a + 24) k.pc
  store32 m (a + 28) k.xpsr

end

/-- On taking exception `n`. The stack is aligned to eight bytes. -/
def exceptionEntry (vector : ℕ → Address) (n : ℕ) (c : Cpu) : Cpu :=
  let padded := c.sp &&& 4 != 0
  let frame := (c.sp - 32) &&& ~~~4
  { context :=
      { c.context with
        lr := if c.ipsr = 0 then returnToThread else returnToHandler
        pc := vector n
        xpsr := withIpsr c.context.xpsr n }
    sp := frame
    active := insert n c.active
    memory :=
      storeContext c.memory frame
        { c.context with xpsr := markAligned c.context.xpsr padded } }

/-- The registers are taken from the stack, and the exception is over. -/
def popContext (c : Cpu) : Cpu :=
  let k := loadContext c.memory c.sp
  { c with
    context := { k with xpsr := markAligned k.xpsr false }
    sp := (c.sp + 32) ||| (if k.xpsr &&& alignedBit != 0 then 4 else 0)
    active := c.active.erase c.ipsr }

/-- `bx` to a value of the link register. `none` is a fault, or a return to the other stack. -/
def exceptionReturn (excReturn : BitVec 32) (c : Cpu) : Option Cpu :=
  if c.ipsr ∉ c.active then none
  else if excReturn = returnToHandler then
    if (popContext c).ipsr = 0 then none else some (popContext c)
  else if excReturn = returnToThread ∧ c.active.card = 1 then
    if (popContext c).ipsr = 0 then some (popContext c) else none
  else none

/-! ## The status -/

theorem ipsrOf_withIpsr (xpsr : BitVec 32) {n : ℕ} (hn : n < 2 ^ 9) :
    ipsrOf (withIpsr xpsr n) = n := by
  rw [ipsrOf,withIpsr,BitVec.toNat_append,Nat.shiftLeft_eq,Nat.mul_comm,
    ← Nat.two_pow_add_eq_or_of_lt (BitVec.isLt _),Nat.mul_add_mod,BitVec.toNat_ofNat,
    Nat.mod_mod,Nat.mod_eq_of_lt hn]

theorem ipsrOf_markAligned (xpsr : BitVec 32) (padded : Bool) :
    ipsrOf (markAligned xpsr padded) = ipsrOf xpsr := by
  have hbit : alignedBit.toNat = 2 ^ 9 := by decide
  have hmask : (~~~alignedBit).toNat % 2 ^ 9 = 2 ^ 9 - 1 := by decide
  unfold ipsrOf markAligned
  cases padded with
  | true => rw [if_pos rfl,BitVec.toNat_or,Nat.or_mod_two_pow,hbit,Nat.mod_self,Nat.or_zero]
  | false =>
      rw [if_neg Bool.false_ne_true,BitVec.toNat_and,Nat.and_mod_two_pow,hmask,
        Nat.and_two_pow_sub_one_eq_mod,Nat.mod_mod]

/-! ## Frames in memory -/

section
variable {m m' : Memory} {a : Address}

theorem storeContext_frame (m : Memory) (k : Context) {x : Address} (hx : ¬InRange a 32 x) :
    storeContext m a k x = m x := by
  unfold InRange at hx
  rw [storeContext,store32_ne,store32_ne,store32_ne,store32_ne,store32_ne,store32_ne,store32_ne,
    store32_ne]
  all_goals
    unfold InRange
    bv_omega

theorem loadContext_congr (h : ∀ x, InRange a 32 x → m' x = m x) :
    loadContext m' a = loadContext m a := by
  have hfirst : load32 m' a = load32 m a := by
    refine load32_congr fun x hx => h x ?_
    unfold InRange at hx ⊢
    omega
  have hword (offset : Address) (hoffset : offset.toNat ≤ 28) :
      load32 m' (a + offset) = load32 m (a + offset) := by
    refine load32_congr fun x hx => h x ?_
    unfold InRange at hx ⊢
    bv_omega
  unfold loadContext
  rw [hfirst,hword 4 (by decide),hword 8 (by decide),hword 12 (by decide),hword 16 (by decide),
    hword 20 (by decide),hword 24 (by decide),hword 28 (by decide)]

/-- Another word of a frame. -/
theorem load32_store32_offset (m : Memory) (a : Address) (v : BitVec 32) {i j : Address}
    (h : 4 ≤ (i - j).toNat ∧ 4 ≤ (j - i).toNat) :
    load32 (store32 m (a + j) v) (a + i) = load32 m (a + i) := by
  refine load32_store32_of_disjoint m v ?_
  bv_omega

theorem load32_store32_first (m : Memory) (a : Address) (v : BitVec 32) {j : Address}
    (h : 4 ≤ j.toNat ∧ 4 ≤ (0 - j).toNat) : load32 (store32 m (a + j) v) a = load32 m a := by
  refine load32_store32_of_disjoint m v ?_
  bv_omega

theorem loadContext_storeContext (m : Memory) (a : Address) (k : Context) :
    loadContext (storeContext m a k) a = k := by
  unfold loadContext storeContext
  simp (disch := decide) only [load32_store32,load32_store32_offset,load32_store32_first]

theorem loadContext_store_pc (m : Memory) (a : Address) (pc : BitVec 32) :
    loadContext (store32 m (a + 24) pc) a = { loadContext m a with pc } := by
  unfold loadContext
  simp (disch := decide) only [load32_store32,load32_store32_offset,load32_store32_first]

end

/-! ## Taking an exception and returning from it -/

section
variable (vector : ℕ → Address) {n : ℕ} {c : Cpu}

theorem exceptionEntry_ipsr (c : Cpu) (hn : n < 2 ^ 9) : (exceptionEntry vector n c).ipsr = n :=
  ipsrOf_withIpsr c.context.xpsr hn

/-- What the frame says about where the exception came from. -/
theorem exceptionEntry_saved (n : ℕ) (c : Cpu) :
    loadContext (exceptionEntry vector n c).memory (exceptionEntry vector n c).sp =
      { c.context with xpsr := markAligned c.context.xpsr (c.sp &&& 4 != 0) } :=
  loadContext_storeContext _ _ _

end

/-! ## The stack pointer -/

theorem and_four_toNat (x : Address) : (x &&& 4).toNat = x.toNat / 4 % 2 * 4 := by
  have hbit : (4 &&& x).toNat = 2 ^ 2 * (x.toNat.testBit 2).toNat := Nat.two_pow_and x.toNat 2
  rw [BitVec.and_comm,hbit,Nat.toNat_testBit]
  omega

/-- Clearing bits takes them away. -/
theorem and_not_eq_sub (x y : Address) : x &&& ~~~y = x - (x &&& y) := by
  have hdisjoint : (x &&& ~~~y) &&& (x &&& y) = 0#32 := by
    apply BitVec.eq_of_getLsbD_eq
    intro i hi
    rw [BitVec.getLsbD_and,BitVec.getLsbD_and,BitVec.getLsbD_and,BitVec.getLsbD_not,
      BitVec.getLsbD_zero]
    cases x.getLsbD i <;> cases y.getLsbD i <;> simp
  have hboth : (x &&& ~~~y) ||| (x &&& y) = x := by
    apply BitVec.eq_of_getLsbD_eq
    intro i hi
    rw [BitVec.getLsbD_or,BitVec.getLsbD_and,BitVec.getLsbD_and,BitVec.getLsbD_not,
      decide_eq_true hi,Bool.true_and]
    cases x.getLsbD i <;> cases y.getLsbD i <;> rfl
  have hsum := BitVec.add_eq_or_of_and_eq_zero _ _ hdisjoint
  rw [hboth] at hsum
  generalize x &&& ~~~y = rest at hsum ⊢
  generalize x &&& y = taken at hsum ⊢
  bv_omega

section
variable (vector : ℕ → Address) {c : Cpu}

/-- A stack that is aligned stays aligned. -/
theorem exceptionEntry_sp (n : ℕ) (h : c.sp.toNat % 8 = 0) (hroom : 32 ≤ c.sp.toNat) :
    (exceptionEntry vector n c).sp.toNat + 32 = c.sp.toNat := by
  have hfour := and_four_toNat (c.sp - 32)
  show ((c.sp - 32) &&& ~~~4).toNat + 32 = c.sp.toNat
  rw [and_not_eq_sub]
  bv_omega

/-- Else a word more is used. -/
theorem exceptionEntry_aligned (n : ℕ) (h : c.sp.toNat % 4 = 0) (hroom : 36 ≤ c.sp.toNat) :
    (exceptionEntry vector n c).sp.toNat % 8 = 0 ∧
      c.sp.toNat ≤ (exceptionEntry vector n c).sp.toNat + 36 ∧
      (exceptionEntry vector n c).sp.toNat + 32 ≤ c.sp.toNat := by
  have hfour := and_four_toNat (c.sp - 32)
  show ((c.sp - 32) &&& ~~~4).toNat % 8 = 0 ∧ c.sp.toNat ≤ ((c.sp - 32) &&& ~~~4).toNat + 36 ∧
    ((c.sp - 32) &&& ~~~4).toNat + 32 ≤ c.sp.toNat
  rw [and_not_eq_sub]
  refine ⟨?_,?_,?_⟩ <;> bv_omega

end

/-! ## Back where the exception came from -/

theorem padded_iff (x : Address) : (x &&& 4 != 0) = true ↔ x.toNat / 4 % 2 = 1 := by
  have hfour := and_four_toNat x
  rw [bne_iff_ne,Ne,← BitVec.toNat_inj,hfour]
  show ¬x.toNat / 4 % 2 * 4 = 0 ↔ _
  omega

theorem markAligned_bit (xpsr : BitVec 32) (padded : Bool) :
    (markAligned xpsr padded &&& alignedBit != 0) = padded := by
  have hbit : alignedBit.getLsbD 9 = true := by decide
  cases padded with
  | true =>
      rw [bne_iff_ne]
      intro hzero
      have hset := congrArg (BitVec.getLsbD · 9) hzero
      rw [BitVec.getLsbD_and,hbit,markAligned,if_pos rfl,BitVec.getLsbD_or,hbit,
        Bool.or_true] at hset
      exact absurd hset (by decide)
  | false =>
      have hzero : markAligned xpsr false &&& alignedBit = 0 := by
        apply BitVec.eq_of_getLsbD_eq
        intro i hi
        simp only [markAligned,if_neg Bool.false_ne_true,BitVec.getLsbD_and,BitVec.getLsbD_not]
        cases alignedBit.getLsbD i <;> simp
      rw [hzero]
      rfl

theorem markAligned_markAligned (xpsr : BitVec 32) (padded : Bool) :
    markAligned (markAligned xpsr padded) false = markAligned xpsr false := by
  apply BitVec.eq_of_getLsbD_eq
  intro i hi
  cases padded <;>
    simp only [markAligned,if_neg Bool.false_ne_true,if_true,BitVec.getLsbD_and,BitVec.getLsbD_or,
      BitVec.getLsbD_not] <;>
    cases alignedBit.getLsbD i <;> simp

/-- The stack pointer comes back to where it was. -/
theorem popContext_sp {x frame : Address} (hframe : frame = (x - 32) &&& ~~~4)
    (h : x.toNat % 4 = 0) (hroom : 36 ≤ x.toNat) :
    (frame + 32) ||| (if (x &&& 4 != 0) = true then 4 else 0) = x := by
  have hfour := and_four_toNat (x - 32)
  rw [and_not_eq_sub] at hframe
  by_cases hpadded : x.toNat / 4 % 2 = 1
  · rw [if_pos ((padded_iff x).mpr hpadded)]
    have hlow : frame + 32 = x - 4 := by bv_omega
    have hclear : (x - 4) &&& 4 = 0#32 := by
      apply BitVec.eq_of_toNat_eq
      have hbit := and_four_toNat (x - 4)
      rw [hbit]
      show (x - 4).toNat / 4 % 2 * 4 = 0
      bv_omega
    rw [hlow,← BitVec.add_eq_or_of_and_eq_zero _ _ hclear]
    exact BitVec.sub_add_cancel x 4
  · rw [if_neg fun hset => hpadded ((padded_iff x).mp hset)]
    have hsame : frame + 32 = x := by bv_omega
    rw [hsame]
    exact BitVec.or_zero

section
variable (vector : ℕ → Address) {n : ℕ} {c : Cpu} {m : Memory}

/-- A state of the thread, or of a handler. -/
structure Cpu.Coherent (c : Cpu) : Prop where
  thread : c.ipsr = 0 ↔ c.active = ∅
  aligned : c.sp.toNat % 4 = 0
  xpsr : markAligned c.context.xpsr false = c.context.xpsr

/-- A handler that keeps its frame, but for the program counter, returns there. -/
theorem exceptionReturn_entry (h : c.Coherent) (hn : n < 2 ^ 9) (hinactive : n ∉ c.active)
    (hroom : 36 ≤ c.sp.toNat) {pc : Address}
    (hframe : loadContext m (exceptionEntry vector n c).sp =
      { c.context with pc, xpsr := markAligned c.context.xpsr (c.sp &&& 4 != 0) }) :
    exceptionReturn (exceptionEntry vector n c).context.lr
        { exceptionEntry vector n c with memory := m } =
      some { c with memory := m, context := { c.context with pc } } := by
  have hipsr : ({ exceptionEntry vector n c with memory := m } : Cpu).ipsr = n :=
    exceptionEntry_ipsr vector c hn
  have hactive : ({ exceptionEntry vector n c with memory := m } : Cpu).active =
      insert n c.active := rfl
  have hpop : popContext { exceptionEntry vector n c with memory := m } =
      { c with memory := m, context := { c.context with pc } } := by
    unfold popContext
    rw [hipsr]
    simp only [hframe,markAligned_bit,markAligned_markAligned,h.xpsr]
    have hsp := @popContext_sp c.sp (exceptionEntry vector n c).sp rfl h.aligned hroom
    rw [hsp,hactive,Finset.erase_insert hinactive]
  have hpopIpsr : ({ c with memory := m, context := { c.context with pc } } : Cpu).ipsr =
      c.ipsr := rfl
  have hlr : (exceptionEntry vector n c).context.lr =
      if c.ipsr = 0 then returnToThread else returnToHandler := rfl
  unfold exceptionReturn
  rw [hipsr,hactive,if_neg (not_not.mpr (Finset.mem_insert_self n _)),hpop,hpopIpsr,hlr]
  by_cases hthread : c.ipsr = 0
  · have hne : returnToThread ≠ returnToHandler := by decide
    have hcard : (insert n c.active).card = 1 := by
      rw [h.thread.mp hthread]
      rfl
    rw [if_pos hthread,if_neg hne,if_pos ⟨rfl,hcard⟩,if_pos hthread]
  · rw [if_neg hthread,if_pos rfl,if_neg hthread]

end

end TwMonitor.ExceptionStack
