import TwMonitor.ByteMemory
import TwMonitor.Terminal
import TwMonitor.ThumbSpec

/-!
# The memory editor

The state of `monitor_enter` and what its keys do to it. The editor shows one row
of entries and works on a cached copy of the last one. A state is taken where the
loop waits for a key. Instructions are entered as half words, in rows of one
instruction.
-/
namespace TwMonitor.MonitorEnter
open ByteMemory NumberPad Terminal Thumb

/-- The types an entry can have in `enter_state`. -/
inductive EntType where
  | etByte | etHword | etWord
  deriving DecidableEq

def EntType.bytes : EntType → ℕ
  | .etByte => 1
  | .etHword => 2
  | .etWord => 4

/-- What can be asked for. -/
inductive EnterType where
  | ofEntry (entType : EntType)
  | etInstruction

/-- The constant fields of `enter_state`. -/
structure EnterConst where
  entType : EntType
  entTypeIsInstruction : Bool

def enterConst : EnterType → EnterConst
  | .ofEntry entType => ⟨entType,false⟩
  | .etInstruction => ⟨.etHword,true⟩

def EntType.load (t : EntType) (m : Memory) (p : Address) : BitVec 32 :=
  match t with
  | .etByte => (m p).setWidth 32
  | .etHword => (load16 m p).setWidth 32
  | .etWord => load32 m p

def EntType.store (t : EntType) (m : Memory) (p : Address) (v : BitVec 32) : Memory :=
  match t with
  | .etByte => store8 m p (v.setWidth 8)
  | .etHword => store16 m p (v.setWidth 16)
  | .etWord => store32 m p v

/-- `enter_get_digits_from_type` -/
def EntType.digitWidth (t : EntType) : ℕ := t.bytes * 2

def EntType.mask (t : EntType) : BitVec 32 := BitVec.allOnes 32 >>> (32 - t.digitWidth * 4)

def EntType.extraSpaceInNumber (t : EntType) : Bool := 4 < t.digitWidth

/-- The addresses that `store_current` was called for are kept in `stores`. -/
structure EnterState where
  memory : Memory
  stores : List Address := []
  addr : Address
  current : BitVec 32 := 0
  digitIdx : ℕ := 0
  col : ℕ := 0
  screen : Screen := {}

section
variable (k : EnterConst)

def loadCurrent (s : EnterState) : EnterState :=
  { s with current := k.entType.load s.memory s.addr }

def storeCurrent (s : EnterState) : EnterState :=
  { s with
    memory := k.entType.store s.memory s.addr s.current
    stores := s.stores ++ [s.addr] }

def eraseNumber (s : EnterState) : EnterState :=
  { s with
    screen := s.screen.terminalEraseLastChars
      (k.entType.digitWidth + 1 + if k.entType.extraSpaceInNumber then 1 else 0) }

/-- `false` quits. -/
def handleInput (s : EnterState) (c : Key) : EnterState × Bool :=
  if c = key '\r' then (s,false)
  else if c = key '\x08' then
    if s.digitIdx = 0 then
      if 0 < s.col then
        let s := { s with col := s.col - 1, addr := s.addr - BitVec.ofNat 32 k.entType.bytes }
        ({ loadCurrent k (eraseNumber k s) with digitIdx := 0 },true)
      else (s,true)
    else ({ loadCurrent k s with digitIdx := 0 },true)
  else if c = key ' ' then ({ s with digitIdx := k.entType.digitWidth },true)
  else if keyDigit c ≠ 0xFF then
    ({ s with
        current := (s.current <<< 4 ||| BitVec.ofNat 32 (keyDigit c)) &&& k.entType.mask
        digitIdx := s.digitIdx + 1 },true)
  else (s,true)

/-- Whether the row is full behind the entry in this column. -/
def columnOverflow (current : BitVec 32) (col : ℕ) : Bool :=
  if k.entTypeIsInstruction then 0 < col || !thumbIsWideInstruction current
  else col + 1 == 32 / k.entType.digitWidth

def nextColumn (s : EnterState) : EnterState × Bool :=
  ({ s with col := s.col + 1 },columnOverflow k s.current s.col)

def printEntry (s : EnterState) : Option EnterState :=
  ((s.screen.putchar ' ').puthexnumber k.entType.digitWidth s.current).map
    fun screen => { s with screen }

def printRow (s : EnterState) : Option EnterState :=
  (s.screen.putnewline.puthexword s.addr).map fun screen => { s with screen, col := 0 }

/-- Store an entry that is complete and go on to the next one. -/
def enterNext (s : EnterState) : Option EnterState :=
  if s.digitIdx < k.entType.digitWidth then some s
  else do
    let (s,overflow) := nextColumn k (storeCurrent k s)
    let s := loadCurrent k { s with addr := s.addr + BitVec.ofNat 32 k.entType.bytes }
    let s := { s with digitIdx := 0 }
    let s ← (if overflow then printRow s else some s)
    printEntry k s

/-- The loop from its head to the next key. -/
def enterRound (s : EnterState) : Option EnterState := do
  let s ← printEntry k s
  enterNext k s

/-- The loop waits for a key, or it is over and the last entry is stored. -/
inductive EnterPrompt where
  | waiting (s : EnterState)
  | finished (s : EnterState)

def EnterPrompt.state : EnterPrompt → EnterState
  | .waiting s => s
  | .finished s => s

def enterStep : EnterPrompt → Key → Option EnterPrompt
  | .waiting s,c =>
      let (s,goOn) := handleInput k s c
      if goOn then (enterRound k (eraseNumber k s)).map .waiting
      else
        let s := storeCurrent k s
        some (.finished { s with screen := s.screen.putnewline })
  | .finished s,_ => some (.finished s)

def enterStart (memory : Memory) (addr : Address) (line : List Char) : Option EnterState := do
  let s := loadCurrent k { memory, addr, screen := { line } }
  let screen ← s.screen.puthexword s.addr
  enterRound k { s with screen }

end

/-- The editor after some keys. An assertion that fails gives `none`. -/
def monitorEnter (memory : Memory) (addr : Address) (entType : EnterType) (line : List Char)
    (keys : List Key) : Option EnterPrompt := do
  let s ← enterStart (enterConst entType) memory addr line
  keys.foldlM (enterStep (enterConst entType)) (.waiting s)

/-! ## Entries in memory -/

section
variable (t : EntType)

theorem EntType.load_lt (m : Memory) (p : Address) : (t.load m p).toNat < 16 ^ t.digitWidth := by
  cases t with
  | etByte =>
      have hlt := (m p).isLt
      show ((m p).setWidth 32).toNat < 16 ^ 2
      rw [BitVec.toNat_setWidth]
      omega
  | etHword =>
      have hlt := (load16 m p).isLt
      show ((load16 m p).setWidth 32).toNat < 16 ^ 4
      rw [BitVec.toNat_setWidth]
      omega
  | etWord => exact (load32 m p).isLt

theorem EntType.and_mask (v : BitVec 32) :
    (v &&& t.mask).toNat = v.toNat % 16 ^ t.digitWidth := by
  have hmask : t.mask.toNat = 2 ^ (t.digitWidth * 4) - 1 := by cases t <;> rfl
  have hpow : 16 ^ t.digitWidth = 2 ^ (t.digitWidth * 4) := by
    rw [mul_comm,pow_mul]
    norm_num
  rw [BitVec.toNat_and,hmask,Nat.and_two_pow_sub_one_eq_mod,hpow]

theorem EntType.load_store (m : Memory) (p : Address) {v : BitVec 32}
    (hv : v.toNat < 16 ^ t.digitWidth) : t.load (t.store m p v) p = v := by
  cases t with
  | etByte =>
      change v.toNat < 16 ^ 2 at hv
      show (store8 m p (v.setWidth 8) p).setWidth 32 = v
      rw [store8_same]
      bv_omega
  | etHword =>
      change v.toNat < 16 ^ 4 at hv
      show (load16 (store16 m p (v.setWidth 16)) p).setWidth 32 = v
      rw [load16_store16]
      bv_omega
  | etWord => exact load32_store32 m p v

/-- Writing back what was read changes nothing. -/
theorem EntType.store_load (m : Memory) (p : Address) : t.store m p (t.load m p) = m := by
  cases t with
  | etByte =>
      change store8 m p (((m p).setWidth 32).setWidth 8) = m
      rw [BitVec.setWidth_setWidth_of_le _ (by decide),BitVec.setWidth_eq,store8_self]
  | etHword =>
      change store16 m p (((load16 m p).setWidth 32).setWidth 16) = m
      rw [BitVec.setWidth_setWidth_of_le _ (by decide),BitVec.setWidth_eq,store16_load16]
  | etWord => exact store32_load32 m p

theorem EntType.store_frame (m : Memory) {p a : Address} (v : BitVec 32)
    (h : ¬InRange p t.bytes a) : t.store m p v a = m a := by
  cases t with
  | etByte =>
      refine store8_ne m _ (fun heq => h ?_)
      rw [InRange,heq,BitVec.sub_self]
      decide
  | etHword => exact store16_ne m _ h
  | etWord => exact store32_ne m v h

theorem EntType.load_congr {m m' : Memory} {p : Address}
    (h : ∀ a, InRange p t.bytes a → m' a = m a) : t.load m' p = t.load m p := by
  cases t with
  | etByte =>
      have hp := h p (by rw [InRange,BitVec.sub_self]; decide)
      show (m' p).setWidth 32 = (m p).setWidth 32
      rw [hp]
  | etHword =>
      have hp : load16 m' p = load16 m p := by
        refine load16_congr (h p ?_) (h (p + 1) ?_)
        · rw [InRange,BitVec.sub_self]
          decide
        · rw [InRange,BitVec.add_comm,BitVec.add_sub_cancel]
          decide
      show (load16 m' p).setWidth 32 = (load16 m p).setWidth 32
      rw [hp]
  | etWord => exact load32_congr h

end

end TwMonitor.MonitorEnter
