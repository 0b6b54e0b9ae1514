import TwMonitor.DeviceRegisters

/-!
# Alternate functions of pins

A pin has two bits in the mode register and four bits in one of the two registers
for the alternate functions. The driver writes those of the upper eight pins to
the register of the lower eight.
-/
namespace TwMonitor.PinConfiguration
open BitLayout DeviceRegisters

structure Gpio where
  mode : BitVec 32
  altFuncLow : BitVec 32
  altFuncHigh : BitVec 32
deriving DecidableEq, Repr

def moderCnfAltfun : BitVec 32 := 2

def gpioSetPinAltFunc (gpio : Gpio) (pin altfuncCode : BitVec 32) : Gpio :=
  let mode := gpio.mode &&& ~~~(3#32 <<< (2 * pin))
  let mode := mode ||| (moderCnfAltfun <<< (2 * pin))
  if pin < 8 then
    let altFuncLow := gpio.altFuncLow &&& ~~~(15#32 <<< (4 * pin))
    { gpio with mode, altFuncLow := altFuncLow ||| (altfuncCode <<< (4 * pin)) }
  else
    let altFuncLow := gpio.altFuncLow &&& ~~~(15#32 <<< (4 * (pin - 8)))
    { gpio with mode, altFuncLow := altFuncLow ||| (altfuncCode <<< (4 * (pin - 8))) }

/-! ## Pins -/

namespace Gpio
variable (gpio : Gpio)

def pinMode (pin : ℕ) : BitVec 32 := extract 32 gpio.mode (2 * pin) 2

/-- AFRL has the pins 0 to 7, AFRH the pins 8 to 15. -/
def pinAltFunc (pin : ℕ) : BitVec 32 :=
  if pin < 8 then extract 32 gpio.altFuncLow (4 * pin) 4
  else extract 32 gpio.altFuncHigh (4 * (pin - 8)) 4

end Gpio

/-- The pin has the alternate function, and the other pins are as before. -/
structure Configured (before after : Gpio) (pin : ℕ) (code : BitVec 32) : Prop where
  mode : after.pinMode pin = moderCnfAltfun
  altFunc : after.pinAltFunc pin = code
  others : ∀ other < 16, other ≠ pin →
    after.pinMode other = before.pinMode other ∧ after.pinAltFunc other = before.pinAltFunc other

section
variable (gpio : Gpio) {pin code : BitVec 32} (hpin : pin.toNat < 16)
include hpin

/-- The shifts and masks are assignments of fields. -/
theorem gpioSetPinAltFunc_eq (code : BitVec 32) : gpioSetPinAltFunc gpio pin code =
    { gpio with
      mode := assign gpio.mode (2 * pin.toNat) 2 moderCnfAltfun
      altFuncLow := assign gpio.altFuncLow (4 * (pin.toNat % 8)) 4 code } := by
  have htwo : (2 * pin).toNat = 2 * pin.toNat := by bv_omega
  unfold gpioSetPinAltFunc
  split
  · next hlow =>
      have hlt : pin.toNat < 8 := hlow
      have hfour : (4 * pin).toNat = 4 * (pin.toNat % 8) := by bv_omega
      dsimp only
      rw [BitVec.shiftLeft_eq',BitVec.shiftLeft_eq',BitVec.shiftLeft_eq',BitVec.shiftLeft_eq',
        htwo,hfour]
      rfl
  · next hhigh =>
      have hge : ¬ pin.toNat < 8 := hhigh
      have hfour : (4 * (pin - 8)).toNat = 4 * (pin.toNat % 8) := by bv_omega
      dsimp only
      rw [BitVec.shiftLeft_eq',BitVec.shiftLeft_eq',BitVec.shiftLeft_eq',BitVec.shiftLeft_eq',
        htwo,hfour]
      rfl

theorem pinMode_gpioSetPinAltFunc (code : BitVec 32) {other : ℕ} (hother : other < 16) :
    (gpioSetPinAltFunc gpio pin code).pinMode other =
      if other = pin.toNat then moderCnfAltfun else gpio.pinMode other := by
  rw [gpioSetPinAltFunc_eq gpio hpin,Gpio.pinMode]
  split
  · next hsame =>
      rw [hsame]
      exact extract_assign gpio.mode rfl (by omega)
  · next hne => exact extract_assign_of_disjoint gpio.mode rfl (by omega) (by omega)

/-- Whatever the pin, the code goes to one of the lower eight pins. -/
theorem pinAltFunc_gpioSetPinAltFunc (hcode : code.toNat < 16) {other : ℕ} (hother : other < 16) :
    (gpioSetPinAltFunc gpio pin code).pinAltFunc other =
      if other = pin.toNat % 8 then code else gpio.pinAltFunc other := by
  have hfits : fits code 4 = true := (fits_iff_toNat code 4).mpr hcode
  rw [gpioSetPinAltFunc_eq gpio hpin,Gpio.pinAltFunc]
  by_cases hlow : other < 8
  · rw [if_pos hlow]
    split
    · next hsame =>
        rw [hsame]
        exact extract_assign gpio.altFuncLow hfits (by omega)
    · next hne =>
        rw [Gpio.pinAltFunc,if_pos hlow]
        exact extract_assign_of_disjoint gpio.altFuncLow hfits (by omega) (by omega)
  · have hne : other ≠ pin.toNat % 8 := by omega
    rw [if_neg hlow,if_neg hne,Gpio.pinAltFunc,if_neg hlow]

/-- The pin is configured alone if it is one of the lower eight, or if its field
and the one that is written have the code already. -/
theorem gpioSetPinAltFunc_configured_iff (hcode : code.toNat < 16) :
    Configured gpio (gpioSetPinAltFunc gpio pin code) pin.toNat code ↔
      pin.toNat < 8 ∨
        (gpio.pinAltFunc pin.toNat = code ∧ gpio.pinAltFunc (pin.toNat - 8) = code) := by
  have hmode := fun other (h : other < 16) => pinMode_gpioSetPinAltFunc gpio hpin code h
  have haltFunc := fun other (h : other < 16) => pinAltFunc_gpioSetPinAltFunc gpio hpin hcode h
  constructor
  · intro h
    by_cases hlow : pin.toNat < 8
    · exact Or.inl hlow
    · have hpinFunc := h.altFunc
      have hotherFunc := (h.others (pin.toNat - 8) (by omega) (by omega)).2
      rw [haltFunc _ hpin,if_neg (by omega)] at hpinFunc
      rw [haltFunc _ (by omega),if_pos (by omega)] at hotherFunc
      exact Or.inr ⟨hpinFunc,hotherFunc.symm⟩
  · intro h
    refine ⟨?_,?_,fun other hother hne => ⟨?_,?_⟩⟩
    · rw [hmode _ hpin,if_pos rfl]
    · rw [haltFunc _ hpin]
      split
      · rfl
      · next hhigh => exact (h.resolve_left (by omega)).1
    · rw [hmode _ hother,if_neg hne]
    · rw [haltFunc _ hother]
      split
      · next hsame =>
          -- one of the lower eight pins that is not the pin itself
          have hhigh := h.resolve_left (by omega)
          have hlower : other = pin.toNat - 8 := by omega
          rw [hlower]
          exact hhigh.2.symm
      · rfl

end

/-- PA2, one of the pins of USART2. -/
theorem gpioSetPinAltFunc_configured_pa2 :
    Configured ⟨0xA8000000,0,0⟩ (gpioSetPinAltFunc ⟨0xA8000000,0,0⟩ 2 7) 2 7 :=
  (gpioSetPinAltFunc_configured_iff ⟨0xA8000000,0,0⟩ (by decide) (by decide)).mpr
    (Or.inl (by decide))

/-- PA9 is left without its code, and PA1 is given it. -/
theorem gpioSetPinAltFunc_pa9 :
    gpioSetPinAltFunc ⟨0xA8000000,0,0⟩ 9 7 = ⟨0xA8080000,0x70,0⟩ ∧
      ¬ Configured ⟨0xA8000000,0,0⟩ (gpioSetPinAltFunc ⟨0xA8000000,0,0⟩ 9 7) 9 7 :=
  ⟨by decide,fun h => absurd h.altFunc (by decide)⟩

end TwMonitor.PinConfiguration
