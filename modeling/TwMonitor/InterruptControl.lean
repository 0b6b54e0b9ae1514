import TwMonitor.ByteMemory
import TwMonitor.DeviceRegisters

/-!
# Interrupts of the controller

The driver of the NVIC reads a register, changes one bit and writes the register
back. A write to ISER enables the interrupts whose bits are one, a write to ICPR
clears them, and zeros do nothing. So an interrupt is enabled alone, but never
disabled, and clearing one clears all that share its register.
-/
namespace TwMonitor.InterruptControl
open ByteMemory DeviceRegisters

/-- The interrupts that are enabled and the ones that are pending. -/
structure Nvic where
  enabled : BitVec 240
  pending : BitVec 240
deriving DecidableEq, Repr

/-- The registers that the driver uses. -/
inductive Register where
  | iser (x : ℕ)
  | icpr (x : ℕ)
deriving DecidableEq, Repr

def nvicIser0 : Address := 0xE000E100

def nvicIcpr0 : Address := 0xE000E280

/-- Eight words from each of the two addresses on. -/
def registerAt (address : Address) : Option Register :=
  if (address - nvicIser0).toNat < 32 ∧ address.toNat % 4 = 0 then
    some (.iser ((address - nvicIser0).toNat / 4))
  else if (address - nvicIcpr0).toNat < 32 ∧ address.toNat % 4 = 0 then
    some (.icpr ((address - nvicIcpr0).toNat / 4))
  else none

namespace Nvic

def read (n : Nvic) : Register → BitVec 32
  | .iser x => readSet n.enabled 32 x
  | .icpr x => readSet n.pending 32 x

def write (n : Nvic) (v : BitVec 32) : Register → Nvic
  | .iser x => { n with enabled := writeOneSet n.enabled x v }
  | .icpr x => { n with pending := writeOneClear n.pending x v }

/-- One read of the register and one write. -/
def update (n : Nvic) (address : Address) (f : BitVec 32 → BitVec 32) : Option Nvic :=
  (registerAt address).map fun register => n.write (f (n.read register)) register

end Nvic

/-! ## The driver -/

def nvicMaxIrq : BitVec 32 := 240

section
variable (irq : BitVec 32) (n : Nvic)

def nvicSetEnableIrq (enable : Bool) : Option Nvic :=
  if irq < nvicMaxIrq then
    let iser := nvicIser0 + 4 * (irq / 32)
    let irq := irq % 32
    if enable then n.update iser (· ||| 1#32 <<< irq) else n.update iser (· &&& ~~~(1#32 <<< irq))
  else none

def nvicEnableIrq : Option Nvic := nvicSetEnableIrq irq n true

def nvicDisableIrq : Option Nvic := nvicSetEnableIrq irq n false

def nvicClearIrq : Option Nvic :=
  if irq < nvicMaxIrq then
    let icpr := nvicIcpr0 + 4 * (irq / 32)
    let irq := irq % 32
    n.update icpr (· ||| 1#32 <<< irq)
  else none

end

/-! ## The registers of an interrupt -/

section
variable {irq : BitVec 32} (h : irq.toNat < 240)
include h

theorem lt_nvicMaxIrq : irq < nvicMaxIrq := h

/-- One word for every 32 interrupts. -/
theorem registerOffset_toNat (base : Address) :
    (base + 4 * (irq / 32) - base).toNat = 4 * (irq.toNat / 32) := by
  have hdiv : (irq / 32).toNat = irq.toNat / 32 := BitVec.toNat_udiv
  generalize irq / 32 = x at hdiv ⊢
  bv_omega

omit h in
theorem registerAddress_aligned {base : Address} (hbase : base.toNat % 4 = 0) :
    (base + 4 * (irq / 32)).toNat % 4 = 0 := by
  generalize irq / 32 = x
  bv_omega

theorem registerAt_iser :
    registerAt (nvicIser0 + 4 * (irq / 32)) = some (.iser (irq.toNat / 32)) := by
  have hoffset := registerOffset_toNat h nvicIser0
  rw [registerAt,hoffset,if_pos ⟨by omega,registerAddress_aligned (by decide)⟩]
  exact congrArg (fun x => some (Register.iser x)) (Nat.mul_div_cancel_left _ (by decide))

theorem registerAt_icpr :
    registerAt (nvicIcpr0 + 4 * (irq / 32)) = some (.icpr (irq.toNat / 32)) := by
  have hoffset := registerOffset_toNat h nvicIcpr0
  have hother : ¬ (nvicIcpr0 + 4 * (irq / 32) - nvicIser0).toNat < 32 := by
    generalize 4 * (irq / 32) = x at hoffset ⊢
    unfold nvicIcpr0 at hoffset
    unfold nvicIcpr0 nvicIser0
    bv_omega
  rw [registerAt,if_neg fun hin => hother hin.1,hoffset,
    if_pos ⟨by omega,registerAddress_aligned (by decide)⟩]
  exact congrArg (fun x => some (Register.icpr x)) (Nat.mul_div_cancel_left _ (by decide))

variable (n : Nvic)

theorem update_iser (f : BitVec 32 → BitVec 32) :
    n.update (nvicIser0 + 4 * (irq / 32)) f =
      some { n with
        enabled := writeOneSet n.enabled (irq.toNat / 32)
          (f (readSet n.enabled 32 (irq.toNat / 32))) } := by
  rw [Nvic.update,registerAt_iser h]
  rfl

theorem update_icpr (f : BitVec 32 → BitVec 32) :
    n.update (nvicIcpr0 + 4 * (irq / 32)) f =
      some { n with
        pending := writeOneClear n.pending (irq.toNat / 32)
          (f (readSet n.pending 32 (irq.toNat / 32))) } := by
  rw [Nvic.update,registerAt_icpr h]
  rfl

omit h in
theorem irqBit_eq (irq : BitVec 32) : 1#32 <<< (irq % 32) = 1#32 <<< (irq.toNat % 32) := by
  rw [BitVec.shiftLeft_eq',BitVec.toNat_umod]
  rfl

theorem nvicEnableIrq_eq : nvicEnableIrq irq n = some { n with
    enabled := writeOneSet n.enabled (irq.toNat / 32)
      (readSet n.enabled 32 (irq.toNat / 32) ||| 1#32 <<< (irq.toNat % 32)) } := by
  rw [nvicEnableIrq,nvicSetEnableIrq,if_pos (lt_nvicMaxIrq h)]
  dsimp only
  rw [if_pos rfl,irqBit_eq,update_iser h]

/-- The interrupt stays as it was. -/
theorem nvicDisableIrq_eq : nvicDisableIrq irq n = some n := by
  rw [nvicDisableIrq,nvicSetEnableIrq,if_pos (lt_nvicMaxIrq h)]
  dsimp only
  rw [if_neg Bool.false_ne_true,update_iser h,writeOneSet_and n.enabled (by decide)]

theorem nvicClearIrq_eq : nvicClearIrq irq n = some { n with
    pending := writeOneClear n.pending (irq.toNat / 32)
      (readSet n.pending 32 (irq.toNat / 32) ||| 1#32 <<< (irq.toNat % 32)) } := by
  rw [nvicClearIrq,if_pos (lt_nvicMaxIrq h)]
  dsimp only
  rw [irqBit_eq,update_icpr h]

end

/-! ## One interrupt alone -/

def Nvic.enabledIrqs (n : Nvic) : Set ℕ := { k | n.enabled.getLsbD k = true }

def Nvic.pendingIrqs (n : Nvic) : Set ℕ := { k | n.pending.getLsbD k = true }

/-- The call returns, with these interrupts enabled and pending. -/
def Leaves (call : Option Nvic) (enabled pending : Set ℕ) : Prop :=
  ∃ n, call = some n ∧ n.enabledIrqs = enabled ∧ n.pendingIrqs = pending

theorem leaves_some_iff {n : Nvic} {enabled pending : Set ℕ} :
    Leaves (some n) enabled pending ↔ n.enabledIrqs = enabled ∧ n.pendingIrqs = pending := by
  simp [Leaves]

section
variable {irq : BitVec 32} (h : irq.toNat < 240) (n : Nvic)
include h

theorem nvicEnableIrq_leaves :
    Leaves (nvicEnableIrq irq n) (insert irq.toNat n.enabledIrqs) n.pendingIrqs := by
  rw [nvicEnableIrq_eq h,leaves_some_iff]
  refine ⟨Set.ext fun j => ?_,rfl⟩
  rw [Nvic.enabledIrqs,Set.mem_ofPred_eq,getLsbD_writeOneSet_or n.enabled (by decide) h,
    Bool.or_eq_true,decide_eq_true_eq,or_comm]
  rfl

theorem nvicDisableIrq_leaves_iff :
    Leaves (nvicDisableIrq irq n) (n.enabledIrqs \ {irq.toNat}) n.pendingIrqs ↔
      irq.toNat ∉ n.enabledIrqs := by
  rw [nvicDisableIrq_eq h,leaves_some_iff,and_iff_left rfl]
  exact ⟨fun hsame hmem => ((Set.ext_iff.mp hsame irq.toNat).mp hmem).2 rfl,
    fun hnot => (Set.sdiff_singleton_eq_self hnot).symm⟩

/-- All interrupts behind the register are cleared. -/
theorem nvicClearIrq_clears : Leaves (nvicClearIrq irq n) n.enabledIrqs
    { other ∈ n.pendingIrqs | other / 32 ≠ irq.toNat / 32 } := by
  rw [nvicClearIrq_eq h,leaves_some_iff]
  refine ⟨rfl,Set.ext fun j => ?_⟩
  rw [Nvic.pendingIrqs,Set.mem_ofPred_eq,getLsbD_writeOneClear_or n.pending (by decide),
    Bool.and_eq_true,Bool.not_eq_true',decide_eq_false_iff_not]
  rfl

theorem nvicClearIrq_leaves_iff :
    Leaves (nvicClearIrq irq n) n.enabledIrqs (n.pendingIrqs \ {irq.toNat}) ↔
      ∀ other ∈ n.pendingIrqs, other / 32 = irq.toNat / 32 → other = irq.toNat := by
  obtain ⟨n',hcall,henabled,hpending⟩ := nvicClearIrq_clears h n
  rw [hcall,leaves_some_iff,and_iff_right henabled,hpending,Set.ext_iff]
  constructor
  · intro hsame other hmem hregister
    by_contra hne
    exact ((hsame other).mpr ⟨hmem,hne⟩).2 hregister
  · intro halone j
    refine and_congr_right fun hmem => not_congr ⟨halone j hmem,?_⟩
    rintro rfl
    rfl

/-- Enabling adds the interrupt and no other. Disabling removes it only where it
was not enabled, and clearing removes it alone only where no other is pending
behind the same register. -/
theorem interruptControl_iff :
    Leaves (nvicEnableIrq irq n) (insert irq.toNat n.enabledIrqs) n.pendingIrqs ∧
      (Leaves (nvicDisableIrq irq n) (n.enabledIrqs \ {irq.toNat}) n.pendingIrqs ↔
        irq.toNat ∉ n.enabledIrqs) ∧
      (Leaves (nvicClearIrq irq n) n.enabledIrqs (n.pendingIrqs \ {irq.toNat}) ↔
        ∀ other ∈ n.pendingIrqs, other / 32 = irq.toNat / 32 → other = irq.toNat) :=
  ⟨nvicEnableIrq_leaves h n,nvicDisableIrq_leaves_iff h n,nvicClearIrq_leaves_iff h n⟩

end

def usart1Pending : Nvic := { enabled := 0, pending := 1#240 <<< 37 }

/-- USART2 is enabled, and the pending USART1 is cleared. -/
theorem interruptControl_usart :
    Leaves (nvicEnableIrq 38 usart1Pending) (insert 38 usart1Pending.enabledIrqs)
        usart1Pending.pendingIrqs ∧
      Leaves (nvicClearIrq 37 usart1Pending) usart1Pending.enabledIrqs
        (usart1Pending.pendingIrqs \ {37}) := by
  refine ⟨(@interruptControl_iff 38 (by decide) _).1,
    (@interruptControl_iff 37 (by decide) _).2.2.mpr fun other hpending _ => ?_⟩
  rw [Nvic.pendingIrqs,Set.mem_ofPred_eq,usart1Pending] at hpending
  rw [getLsbD_one_shiftLeft (BitVec.lt_of_getLsbD hpending)] at hpending
  exact of_decide_eq_true hpending

def bothUsarts : Nvic := { enabled := 3#240 <<< 37, pending := 3#240 <<< 37 }

/-- With both USARTs enabled and pending, USART2 is not disabled, and clearing it
loses the byte of USART1. -/
theorem interruptControl_both :
    nvicDisableIrq 38 bothUsarts = some bothUsarts ∧
      ¬ Leaves (nvicDisableIrq 38 bothUsarts) (bothUsarts.enabledIrqs \ {38})
        bothUsarts.pendingIrqs ∧
      nvicClearIrq 38 bothUsarts = some ⟨3#240 <<< 37,0⟩ ∧
      ¬ Leaves (nvicClearIrq 38 bothUsarts) bothUsarts.enabledIrqs
        (bothUsarts.pendingIrqs \ {38}) := by
  have hdisable : nvicDisableIrq 38 bothUsarts = some bothUsarts := by decide
  have hclear : nvicClearIrq 38 bothUsarts = some ⟨3#240 <<< 37,0⟩ := by decide
  have henabled : 38 ∈ bothUsarts.enabledIrqs := by
    rw [Nvic.enabledIrqs,Set.mem_ofPred_eq]
    decide
  have hpending : 37 ∈ bothUsarts.pendingIrqs \ {38} := by
    refine ⟨?_,by decide⟩
    rw [Nvic.pendingIrqs,Set.mem_ofPred_eq]
    decide
  refine ⟨hdisable,fun h => ?_,hclear,fun h => ?_⟩
  · rw [hdisable,leaves_some_iff] at h
    rw [h.1] at henabled
    exact henabled.2 rfl
  · rw [hclear,leaves_some_iff] at h
    rw [← h.2,Nvic.pendingIrqs,Set.mem_ofPred_eq] at hpending
    exact absurd hpending (by decide)

/-! ## All interrupts -/

end TwMonitor.InterruptControl
