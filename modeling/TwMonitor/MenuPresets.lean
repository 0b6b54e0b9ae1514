import Mathlib.Data.List.TakeWhile
import TwMonitor.BranchConditions
import TwMonitor.LabelLoads
import TwMonitor.Menu
import TwMonitor.MenuNumber
import TwMonitor.Printable
import TwMonitor.Terminal

/-!
# Prompts of the assembler

The prompts that ask for an operand, key by key. Each of them is a loop that ends with
the submitted value, and none of them can fail an assertion. Every number, word and
register list can be typed; a name can be typed when it fits the line buffer and has
no key in it that edits the line.
-/
namespace TwMonitor.Menu
open ByteMemory Input MemoryStore MenuNumber NumberPad Relation Terminal Thumb

/-! ## A line -/

def maxBufferLen : ℕ := 20

/-- One round of `io_gettill`, with the characters in the buffer. -/
def ioGettillKey (delimiter : Key) (buffer : List Key) : Reader Key (List Key ⊕ List Key) := do
  let c ← next
  if c = key '\x08' then pure (.inl buffer.dropLast)
  else if c = delimiter then pure (.inr buffer)
  else if buffer.length < maxBufferLen then pure (.inl (buffer ++ [c]))
  else pure (.inl buffer)

theorem ioGettillKey_takes (delimiter : Key) (buffer : List Key) :
    Takes (ioGettillKey delimiter buffer) := takes_next.bind_left _

/-- The string in the buffer, up to its first zero byte. -/
def ioGettill (delimiter : Key) : Reader Key (List Key) := do
  let buffer ← rounds (ioGettillKey delimiter) (ioGettillKey_takes delimiter) []
  pure (buffer.takeWhile (· ≠ 0))

def ioGetline : Reader Key (List Key) := ioGettill (key '\r')

/-! ## Numbers -/

/-- The flags that a callback can return together. -/
structure MenuNumberCallbackResult where
  quitMenu : Bool := false
  clrReprompt : Bool := false
  printOpt : Bool := false

def numberOptions : List MenuOption :=
  [⟨ctrl 'b',"Toggle Base 16 <==> 10"⟩,⟨ctrl 'i',"Initial Number"⟩,⟨ctrl 'z',"Zero Current"⟩,
   ⟨key '\'',"Character Value"⟩,⟨key '-',"Toggle Sign"⟩,⟨key '\r',"Submit"⟩,
   ⟨key '\x08',"Remove Last Digit"⟩]

section
variable (initNumber : BitVec 32) (options : List MenuOption)
  (onOption : BitVec 32 → Key → BitVec 32 × MenuNumberCallbackResult)

/-- One round of `menu_number`, with the options of the caller behind its own. -/
def menuNumberRound (s : NumberEntry) : Reader Key (NumberEntry ⊕ BitVec 32) := do
  let _ ← ofOption (itoaPad s.number s.base)
  let c ← next
  if keyDigit c < s.base then pure (.inl (enterDigit s (keyDigit c)))
  else if c = key '?' then do
    let _ ← ofOption (printMenuHelp options true)
    let _ ← ofOption (printMenuHelp numberOptions false)
    pure (.inl s)
  else if (findMenuOption c numberOptions).isSome then
    match menuNumberKey initNumber s c with
    | .waiting t => pure (.inl t)
    | .characterValue base => do
        let value ← next
        pure (.inl ⟨value.setWidth 32,base,false⟩)
    | .submitted number => pure (.inr number)
  else if (findMenuOption c options).isSome then
    if (onOption s.number c).2.quitMenu then pure (.inr (onOption s.number c).1)
    else pure (.inl { s with number := (onOption s.number c).1 })
  else pure (.inl s)

theorem menuNumberRound_takes (s : NumberEntry) :
    Takes (menuNumberRound initNumber options onOption s) :=
  Takes.bind_right _ fun _ => takes_next.bind_left _

def menuNumberWith : Reader Key (BitVec 32) :=
  rounds (menuNumberRound initNumber options onOption)
    (menuNumberRound_takes initNumber options onOption) (menuNumberInit initNumber)

end

/-- `menu_number` without a callback. -/
def menuNumberPlain (initNumber : BitVec 32) : Reader Key (BitVec 32) :=
  menuNumberWith initNumber [] fun number _ => (number,{})

/-- `gethexword`, on a line of its own. -/
def gethexwordKey (s : BitVec 32 × Screen) : Reader Key (BitVec 32 × Screen ⊕ BitVec 32) := do
  let c ← next
  let prompt ← ofOption (gethexwordStep (.waiting s.1 s.2) c)
  match prompt with
  | .waiting result t => pure (.inl (result,t))
  | .returned result _ => pure (.inr result)

theorem gethexwordKey_takes (s : BitVec 32 × Screen) : Takes (gethexwordKey s) :=
  takes_next.bind_left _

def gethexwordReader (defaultValue : BitVec 32) : Reader Key (BitVec 32) := do
  let t ← ofOption (({} : Screen).puthexword defaultValue)
  rounds gethexwordKey gethexwordKey_takes (defaultValue,t)

/-! ## Registers -/

def registerOptions : List MenuOption := [⟨key 's',"SP"⟩,⟨key 'l',"LR"⟩,⟨key 'p',"PC"⟩]

def menuPresetRegisterCallback (reg : BitVec 32) (c : Key) :
    BitVec 32 × MenuNumberCallbackResult :=
  (if c = key 's' then 13 else if c = key 'l' then 14 else if c = key 'p' then 15 else reg,
    { clrReprompt := true, printOpt := true, quitMenu := true })

def menuPresetRegister : Reader Key (BitVec 32) :=
  menuNumberWith 0 registerOptions menuPresetRegisterCallback

def listOptions : List MenuOption :=
  [⟨key ',',"Toggle Register"⟩,⟨key '-',"Toggle Range"⟩,⟨key '\r',"Submit"⟩]

def mpRegisterListValidReg (reg : BitVec 32) : Bool := !(15 < reg)

/-- Toggle the registers from `start` to `stop`. -/
def toggleRange (start stop : ℕ) (regList : BitVec 16) : BitVec 16 :=
  (List.range' start (stop + 1 - start)).foldl (fun list r => list ^^^ (1 : BitVec 16) <<< r)
    regList

/-- One round of `menu_preset_register_list`. -/
def registerListRound (regList : BitVec 16) : Reader Key (BitVec 16 ⊕ BitVec 16) := do
  let _ ← ofOption (thumbPrintRegisterList regList)
  let opt ← menu listOptions
  if opt = key ',' then do
    let reg ← menuPresetRegister
    pure (.inl (if mpRegisterListValidReg reg then regList ^^^ (1 : BitVec 16) <<< reg.toNat
      else regList))
  else if opt = key '-' then do
    let start ← menuPresetRegister
    let stop ← menuPresetRegister
    pure (.inl (if mpRegisterListValidReg start && mpRegisterListValidReg stop then
      toggleRange start.toNat stop.toNat regList else regList))
  else pure (.inr regList)

theorem registerListRound_takes (regList : BitVec 16) : Takes (registerListRound regList) :=
  Takes.bind_right _ fun _ => (takes_menu _).bind_left _

def menuPresetRegisterList : Reader Key (BitVec 16) :=
  rounds registerListRound registerListRound_takes 0

/-! ## Width, condition and label -/

/-- In the order of `ThumbWidthSpecifier`. -/
def widthMenu : List MenuOption := [⟨key 'a',"AUTO"⟩,⟨key 'n',"NARROW"⟩,⟨key 'w',"WIDE"⟩]

def menuPresetInstructionWidthMenu (current : ThumbWidthSpecifier) :
    Reader Key ThumbWidthSpecifier := do
  let _ ← ofOption widthMenu[current.ctorIdx]?
  let opt ← menu widthMenu
  pure (if opt = key 'n' then .narrow else if opt = key 'w' then .wide else .auto)

/-- In the order of the conditions. -/
def conditionMenu : List MenuOption :=
  [⟨key ' ',"No condition"⟩,⟨key 'e',"EQ"⟩,⟨key 'n',"NE"⟩,⟨key 'c',"CS"⟩,⟨key 'C',"CC"⟩,
   ⟨key 'm',"MI"⟩,⟨key 'p',"PL"⟩,⟨key 'v',"VS"⟩,⟨key 'V',"VC"⟩,⟨key 'h',"HI"⟩,⟨key 'l',"LS"⟩,
   ⟨key 'g',"GE"⟩,⟨key 'L',"LT"⟩,⟨key 'G',"GT"⟩,⟨key 'E',"LE"⟩,⟨key 'a',"AL"⟩]

def conditionReader : Reader Key ThumbCondition := do
  let opt ← menu conditionMenu
  pure (menuPresetInstructionSetConditionMenu opt)

def labelOptions : List MenuOption :=
  [⟨key '.',"Here"⟩,⟨key '+',"+Bytes"⟩,⟨key '-',"-Bytes"⟩,⟨key 'l',"Label"⟩]

/-- Ask for a name until there is a label with it. -/
def labelNameRound (entries : List MemoryEntry) (_ : Unit) : Reader Key (Unit ⊕ MemoryEntry) := do
  let name ← ioGetline
  match memoryLookupLabel entries name with
  | some label => pure (.inr label)
  | none => pure (.inl ())

theorem labelNameRound_takes (entries : List MemoryEntry) (s : Unit) :
    Takes (labelNameRound entries s) :=
  ((takes_rounds _).bind_left _ : Takes ioGetline).bind_left _

/-- `menu_preset_relative_label` -/
def relativeLabelReader (entries : List MemoryEntry) (relativeFrom : Address) (isCode : Bool) :
    Reader Key (BitVec 32) := do
  let opt ← menu labelOptions
  if opt = key '+' then gethexwordReader 0
  else if opt = key '-' then do
    let number ← gethexwordReader 0
    pure (-number)
  else if opt = key 'l' then do
    let label ← rounds (labelNameRound entries) (labelNameRound_takes entries) ()
    let labelAddr := memoryAddrFromEntry label
    pure ((if isCode then armAddressSetThumbIntwrkBit labelAddr false else labelAddr) -
      relativeFrom)
  else pure 0

/-! ## What can be typed on a line -/

/-- A line holds the name, and no key of it edits or ends the line. -/
def Typable (name : List Key) : Prop :=
  name.length ≤ maxBufferLen ∧ 0 ∉ name ∧ key '\x08' ∉ name ∧ key '\r' ∉ name

theorem ioGettillKey_bounded {delimiter : Key} {s t : List Key}
    (h : ReflTransGen (Round (ioGettillKey delimiter)) s t)
    (hs : s.length ≤ maxBufferLen ∧ key '\x08' ∉ s ∧ delimiter ∉ s) :
    t.length ≤ maxBufferLen ∧ key '\x08' ∉ t ∧ delimiter ∉ t := by
  induction h with
  | refl => exact hs
  | @tail t u _ hround ih =>
      obtain ⟨c,_,hc⟩ := returns_bind.mp hround
      obtain ⟨hlen,hback,hend⟩ := ih
      split at hc
      · obtain rfl := Sum.inl.inj (returns_pure.mp hc)
        refine ⟨?_,fun h => hback (List.mem_of_mem_dropLast h),
          fun h => hend (List.mem_of_mem_dropLast h)⟩
        rw [List.length_dropLast]
        omega
      split at hc
      · simp at hc
      split at hc
      · next hne hdelim hroom =>
          obtain rfl := Sum.inl.inj (returns_pure.mp hc)
          simp only [List.length_append,List.length_singleton,List.mem_append,
            List.mem_singleton,not_or]
          exact ⟨hroom,⟨hback,Ne.symm hne⟩,hend,Ne.symm hdelim⟩
      · obtain rfl := Sum.inl.inj (returns_pure.mp hc)
        exact ⟨hlen,hback,hend⟩

/-- Each key of the name is held behind those before it. -/
theorem ioGettillKey_types {delimiter : Key} (name before : List Key)
    (hlen : (before ++ name).length ≤ maxBufferLen) (hback : key '\x08' ∉ name)
    (hend : delimiter ∉ name) :
    ReflTransGen (Round (ioGettillKey delimiter)) before (before ++ name) := by
  induction name generalizing before with
  | nil =>
      rw [List.append_nil]
  | cons c name ih =>
      simp only [List.mem_cons,not_or] at hback hend
      have hround : Round (ioGettillKey delimiter) before (before ++ [c]) := by
        refine returns_bind.mpr ⟨c,returns_next c,?_⟩
        have hroom : before.length < maxBufferLen := by
          rw [List.length_append,List.length_cons] at hlen
          omega
        rw [if_neg (Ne.symm hback.1),if_neg (Ne.symm hend.1),if_pos hroom]
        exact returns_pure.mpr rfl
      have hname : before ++ c::name = before ++ [c] ++ name := by simp
      rw [hname] at hlen ⊢
      exact .head hround (ih _ hlen hback.2 hend.2)

@[simp] theorem returns_ioGetline (name : List Key) : Returns ioGetline name ↔ Typable name := by
  have hlast (buffer result : List Key) :
      Returns (ioGettillKey (key '\r') buffer) (.inr result) ↔ result = buffer := by
    unfold ioGettillKey
    rw [returns_bind]
    constructor
    · rintro ⟨c,_,hc⟩
      split at hc
      · simp at hc
      split at hc
      · exact Sum.inr.inj (returns_pure.mp hc)
      split at hc <;> simp at hc
    · rintro rfl
      refine ⟨key '\r',returns_next _,?_⟩
      rw [if_neg (by decide),if_pos rfl]
      exact returns_pure.mpr rfl
  simp only [ioGetline,ioGettill,returns_bind,returns_pure,returns_rounds]
  constructor
  · rintro ⟨buffer,⟨t,hvisits,ht⟩,rfl⟩
    obtain rfl := (hlast _ _).mp ht
    obtain ⟨hlen,hback,hend⟩ := ioGettillKey_bounded hvisits
      ⟨Nat.zero_le _,List.not_mem_nil,List.not_mem_nil⟩
    have hsub : (buffer.takeWhile (· ≠ 0)).Sublist buffer := List.takeWhile_sublist _
    refine ⟨hsub.length_le.trans hlen,fun hzero => ?_,fun h => hback (hsub.subset h),
      fun h => hend (hsub.subset h)⟩
    have hne := List.mem_takeWhile_imp hzero
    simp at hne
  · rintro ⟨hlen,hzero,hback,hend⟩
    refine ⟨name,⟨name,ioGettillKey_types name [] hlen hback hend,(hlast _ _).mpr rfl⟩,?_⟩
    have hall : ∀ c ∈ name, decide (c ≠ 0) = true := by
      intro c hc
      rw [decide_eq_true_eq]
      rintro rfl
      exact hzero hc
    exact (List.takeWhile_eq_self_iff.mpr hall).symm

theorem safe_ioGetline : Safe ioGetline := by
  refine Safe.bind (safe_rounds (I := fun _ => True) trivial (fun buffer _ => ?_)
    fun _ _ _ _ => trivial) fun _ _ => safe_pure _
  refine safe_next.bind fun c _ => ?_
  split
  · exact safe_pure _
  split
  · exact safe_pure _
  split <;> exact safe_pure _

/-! ## Every number can be typed -/

theorem keyDigit_digitToChar : ∀ d < 16, keyDigit (key (digitToChar d)) = d := by decide

section
variable (initNumber : BitVec 32) (options : List MenuOption)
  (onOption : BitVec 32 → Key → BitVec 32 × MenuNumberCallbackResult)

theorem itoaPad_ofBase {s : NumberEntry} (hs : Kept s) :
    ∃ pad, itoaPad s.number s.base = some pad := by
  have hbase := hs.base
  exact itoaPad_isSome s.number (by omega)

theorem menuNumberRound_digit {s : NumberEntry} (hs : Kept s) {d : ℕ} (hd : d < s.base) :
    Round (menuNumberRound initNumber options onOption) s (enterDigit s d) := by
  have hbase := hs.base
  have hkey := keyDigit_digitToChar d (by omega)
  obtain ⟨pad,hpad⟩ := itoaPad_ofBase hs
  refine returns_bind.mpr ⟨pad,returns_ofOption.mpr hpad,?_⟩
  refine returns_bind.mpr ⟨key (digitToChar d),returns_next _,?_⟩
  rw [hkey,if_pos hd]
  exact returns_pure.mpr rfl

/-- The keys that are not digits in either base, and are not for help. -/
theorem menuNumberRound_option {s : NumberEntry} (hs : Kept s) (c : Key)
    (next : NumberEntry ⊕ BitVec 32) (hdigit : 16 ≤ keyDigit c) (hhelp : c ≠ key '?')
    (hfound : (findMenuOption c numberOptions).isSome = true)
    (hnext : menuNumberKey initNumber s c = Sum.elim Prompt.waiting Prompt.submitted next) :
    Returns (menuNumberRound initNumber options onOption s) next := by
  have hbase := hs.base
  obtain ⟨pad,hpad⟩ := itoaPad_ofBase hs
  refine returns_bind.mpr ⟨pad,returns_ofOption.mpr hpad,?_⟩
  refine returns_bind.mpr ⟨c,returns_next _,?_⟩
  rw [if_neg (by omega),if_neg hhelp,if_pos hfound,hnext]
  cases next <;> exact returns_pure.mpr rfl

/-- The digits of a number lead from zero to it, with the sign that is shown. -/
theorem menuNumberRound_types (n : ℕ) {s : NumberEntry} (hs : Kept s) (hbase : s.base = 10)
    (hzero : s.number = 0) (hfits : FitsInt (if s.sign then -n else n)) :
    ∃ t, ReflTransGen (Round (menuNumberRound initNumber options onOption)) s t ∧ Kept t ∧
      t.base = 10 ∧ t.sign = s.sign ∧ t.number.toInt = if s.sign then -(n : ℤ) else n := by
  induction n using Nat.strong_induction_on with
  | _ n ih =>
      obtain rfl | hpos := Nat.eq_zero_or_pos n
      · refine ⟨s,.refl,hs,hbase,rfl,?_⟩
        rw [hzero]
        split <;> rfl
      · have hfits' : FitsInt (if s.sign then -((n / 10 : ℕ) : ℤ) else (n / 10 : ℕ)) := by
          unfold FitsInt at hfits ⊢
          split at hfits <;> split <;> omega
        obtain ⟨t,hvisits,ht,htbase,htsign,hnumber⟩ := ih (n / 10) (by omega) hfits'
        have hdigit : n % 10 < t.base := by omega
        have hvalue : withDigit t (n % 10) = if s.sign then -(n : ℤ) else n := by
          unfold withDigit
          rw [htsign,htbase,hnumber]
          split <;> omega
        obtain ⟨hnew,hnewbase,hnewsign⟩ :=
          enterDigit_accepted ht hdigit (by rw [hvalue]; exact hfits)
        exact ⟨enterDigit t (n % 10),
          hvisits.tail (menuNumberRound_digit initNumber options onOption ht hdigit),
          enterDigit_kept ht hdigit,hnewbase.trans htbase,hnewsign.trans htsign,hnew.trans hvalue⟩

/-- Every number can be typed, whatever the caller's options are. -/
@[simp] theorem returns_menuNumberWith (n : BitVec 32) :
    Returns (menuNumberWith initNumber options onOption) n := by
  have hinit := menuNumberInit_kept initNumber
  have hzero : ReflTransGen (Round (menuNumberRound initNumber options onOption))
      (menuNumberInit initNumber) ⟨0,10,false⟩ :=
    .single (menuNumberRound_option initNumber options onOption hinit (ctrl 'z') (.inl _)
      (by decide) (by decide) (by decide) rfl)
  have hzerokept : Kept ⟨0,10,false⟩ :=
    ⟨.inl rfl,fun h => absurd h Bool.false_ne_true,fun _ => le_rfl⟩
  have hlo := BitVec.le_toInt n
  have hhi := @BitVec.toInt_lt 32 n
  have hsign : ∃ s : NumberEntry, ReflTransGen (Round (menuNumberRound initNumber options onOption))
      (menuNumberInit initNumber) s ∧ Kept s ∧ s.base = 10 ∧ s.number = 0 ∧
        n.toInt = if s.sign then -(n.toInt.natAbs : ℤ) else n.toInt.natAbs := by
    by_cases hneg : n.toInt < 0
    · refine ⟨⟨0,10,true⟩,hzero.tail ?_,
        ⟨.inl rfl,fun _ => le_rfl,fun h => absurd h.symm Bool.false_ne_true⟩,rfl,rfl,?_⟩
      · exact menuNumberRound_option initNumber options onOption hzerokept (key '-') (.inl _)
          (by decide) (by decide) (by decide) rfl
      · rw [if_pos rfl]
        omega
    · refine ⟨⟨0,10,false⟩,hzero,hzerokept,rfl,rfl,?_⟩
      rw [if_neg (by decide)]
      omega
  obtain ⟨s,hvisits,hs,hbase,hnumber,hn⟩ := hsign
  have hfits : FitsInt (if s.sign then -(n.toInt.natAbs : ℤ) else n.toInt.natAbs) := by
    rw [← hn]
    unfold FitsInt
    omega
  obtain ⟨t,htyped,ht,_,_,hvalue⟩ :=
    menuNumberRound_types initNumber options onOption n.toInt.natAbs hs hbase hnumber hfits
  refine returns_rounds.mpr ⟨t,hvisits.trans htyped,?_⟩
  refine menuNumberRound_option initNumber options onOption ht (key '\r') (.inr n) (by decide)
    (by decide) (by decide) ?_
  have hlast : t.number = n := BitVec.eq_of_toInt_eq (hvalue.trans hn.symm)
  have hno : ¬keyDigit (key '\r') < t.base := by
    have htbase := ht.base
    have hdigit : keyDigit (key '\r') = 255 := by decide
    omega
  rw [menuNumberKey,if_neg hno,hlast]
  rfl

/-- The base is all that the printed number needs. -/
def GoodBase (base : ℕ) : Prop := base = 10 ∨ base = 16

/-- The base of a prompt that goes on. -/
def PromptBase : Prompt → Prop
  | .waiting s => GoodBase s.base
  | .characterValue base => GoodBase base
  | .submitted _ => True

theorem menuNumberKey_base {s : NumberEntry} (hs : GoodBase s.base) (c : Key) :
    PromptBase (menuNumberKey initNumber s c) := by
  have hdigit (d : ℕ) : (enterDigit s d).base = s.base := by
    unfold enterDigit
    split
    · split <;> rfl
    · rfl
  have hsign : (toggleSign s).base = s.base := by
    unfold toggleSign
    split <;> rfl
  have htoggle : GoodBase (if s.base = 10 then 16 else 10) := by
    split
    · exact .inr rfl
    · exact .inl rfl
  have hwaiting (u : NumberEntry) (hu : GoodBase u.base) : PromptBase (.waiting u) := hu
  unfold menuNumberKey
  split
  · exact hwaiting _ (by rw [hdigit]; exact hs)
  split
  · exact hwaiting s hs
  split
  · exact hwaiting _ htoggle
  split
  · exact hwaiting _ hs
  split
  · exact hwaiting _ hs
  split
  · exact hs
  split
  · exact hwaiting _ (by rw [hsign]; exact hs)
  split
  · trivial
  split
  · exact hwaiting _ hs
  · exact hwaiting s hs

theorem menuNumberRound_base {s t : NumberEntry} (hs : GoodBase s.base)
    (h : Round (menuNumberRound initNumber options onOption) s t) : GoodBase t.base := by
  obtain ⟨_,_,h⟩ := returns_bind.mp h
  obtain ⟨c,_,h⟩ := returns_bind.mp h
  have hkey := menuNumberKey_base initNumber hs c
  split at h
  · next hdigit =>
      have hwaiting : menuNumberKey initNumber s c = .waiting (enterDigit s (keyDigit c)) :=
        if_pos hdigit
      rw [Sum.inl.inj (returns_pure.mp h)]
      rwa [hwaiting] at hkey
  split at h
  · simp only [returns_bind,returns_pure,Sum.inl.injEq] at h
    obtain ⟨_,_,_,_,rfl⟩ := h
    exact hs
  split at h
  · split at h
    · next u hu =>
        obtain rfl := Sum.inl.inj (returns_pure.mp h)
        rwa [hu] at hkey
    · next base hb =>
        obtain ⟨value,_,hvalue⟩ := returns_bind.mp h
        rw [Sum.inl.inj (returns_pure.mp hvalue)]
        rwa [hb] at hkey
    · simp at h
  split at h
  · split at h
    · simp at h
    · rw [Sum.inl.inj (returns_pure.mp h)]
      exact hs
  · rw [Sum.inl.inj (returns_pure.mp h)]
    exact hs

theorem numberOptions_printable : Printable numberOptions := by decide

theorem safe_menuNumberWith (h : Printable options) :
    Safe (menuNumberWith initNumber options onOption) := by
  have hround (s : NumberEntry) (hs : GoodBase s.base) :
      Safe (menuNumberRound initNumber options onOption s) := by
    have hpad : (itoaPad s.number s.base).isSome := by
      have hbase := hs
      unfold GoodBase at hbase
      exact Option.isSome_iff_exists.mpr (itoaPad_isSome s.number (by omega))
    refine (safe_ofOption hpad).bind fun _ _ => safe_next.bind fun c _ => ?_
    split
    · exact safe_pure _
    split
    · exact (safe_ofOption (printMenuHelp_isSome h true)).bind fun _ _ =>
        (safe_ofOption (printMenuHelp_isSome numberOptions_printable false)).bind fun _ _ =>
          safe_pure _
    split
    · split
      · exact safe_pure _
      · exact safe_next.bind fun _ _ => safe_pure _
      · exact safe_pure _
    split
    · split <;> exact safe_pure _
    · exact safe_pure _
  exact safe_rounds (I := fun s => GoodBase s.base) (.inl rfl) hround fun _ _ hs =>
    menuNumberRound_base _ _ _ hs

end

/-! ## Every word can be typed -/

theorem gethexwordKey_digit (s : BitVec 32 × Screen) {d : ℕ} (hd : d < 16) :
    ∃ t, Round gethexwordKey s (s.1 <<< 4 ||| BitVec.ofNat 32 d,t) := by
  have hkey := keyDigit_digitToChar d hd
  have hends : ∀ d < 16, key (digitToChar d) ≠ key '\r' ∧ key (digitToChar d) ≠ key '\x08' := by
    decide
  obtain ⟨hend,hback⟩ := hends d hd
  have hstep : ∃ t, gethexwordStep (.waiting s.1 s.2) (key (digitToChar d)) =
      some (.waiting (s.1 <<< 4 ||| BitVec.ofNat 32 d) t) := by
    simp only [gethexwordStep,if_neg hend,if_neg hback,hkey,if_pos (show d ≠ 0xFF by omega),
      puthexword_eq,Option.map_some]
    exact ⟨_,rfl⟩
  obtain ⟨t,ht⟩ := hstep
  refine ⟨t,returns_bind.mpr ⟨key (digitToChar d),returns_next _,?_⟩⟩
  exact returns_bind.mpr ⟨_,returns_ofOption.mpr ht,returns_pure.mpr rfl⟩

theorem shiftedDigit_toNat (result : BitVec 32) {d : ℕ} (hd : d < 16) :
    (result <<< 4 ||| BitVec.ofNat 32 d).toNat = (result.toNat * 16 + d) % 2 ^ 32 := by
  have hdigit : (BitVec.ofNat 32 d).toNat = d := Nat.mod_eq_of_lt (by omega)
  have hlow : result <<< 4 ||| BitVec.ofNat 32 d = result <<< 4 + BitVec.ofNat 32 d := by
    refine (BitVec.add_eq_or_of_and_eq_zero _ _ (BitVec.eq_of_getLsbD_eq fun i hi => ?_)).symm
    have hbit : (BitVec.ofNat 32 d).getLsbD i = true → i < 4 := by
      rw [← BitVec.testBit_toNat,hdigit]
      intro h
      by_contra hi4
      have hpow : d < 2 ^ i := hd.trans_le (Nat.pow_le_pow_right Nat.two_pos (not_lt.mp hi4))
      rw [Nat.testBit_lt_two_pow hpow] at h
      exact Bool.false_ne_true h
    simp only [BitVec.getLsbD_and,BitVec.getLsbD_shiftLeft,BitVec.getLsbD_zero]
    by_cases hi4 : i < 4
    · simp [hi4]
    · have hno : (BitVec.ofNat 32 d).getLsbD i = false := by
        cases h : (BitVec.ofNat 32 d).getLsbD i with
        | true => exact absurd (hbit h) hi4
        | false => rfl
      rw [hno,Bool.and_false]
  rw [hlow,BitVec.toNat_add,BitVec.toNat_shiftLeft,hdigit,Nat.shiftLeft_eq]
  omega

/-- The last digits of the word, behind what was there before. -/
theorem gethexwordKey_types (n : ℕ) (s : BitVec 32 × Screen) (k : ℕ) :
    ∃ result t, ReflTransGen (Round gethexwordKey) s (result,t) ∧
      result.toNat = (s.1.toNat * 16 ^ k + n % 16 ^ k) % 2 ^ 32 := by
  induction k generalizing n with
  | zero =>
      refine ⟨s.1,s.2,.refl,?_⟩
      rw [pow_zero,Nat.mod_one,mul_one,add_zero]
      exact (Nat.mod_eq_of_lt s.1.isLt).symm
  | succ k ih =>
      obtain ⟨result,t,hvisits,hresult⟩ := ih (n / 16)
      have hd : n % 16 < 16 := Nat.mod_lt _ (by decide)
      obtain ⟨t',hround⟩ := gethexwordKey_digit (result,t) hd
      refine ⟨_,t',hvisits.tail hround,?_⟩
      have hsplit : n % 16 ^ (k + 1) = n / 16 % 16 ^ k * 16 + n % 16 := by
        rw [pow_succ',Nat.mod_mul]
        ring
      rw [shiftedDigit_toNat result hd,hresult,hsplit,pow_succ]
      rw [Nat.add_mod,Nat.mod_mul_mod,← Nat.add_mod]
      congr 1
      ring

@[simp] theorem returns_gethexword (defaultValue n : BitVec 32) :
    Returns (gethexwordReader defaultValue) n := by
  refine returns_bind.mpr ⟨_,returns_ofOption.mpr (puthexword_eq _ _),returns_rounds.mpr ?_⟩
  obtain ⟨result,t,hvisits,hresult⟩ := gethexwordKey_types n.toNat
    (defaultValue,{ line := [] ++ hexText 8 defaultValue, erasures := [] }) 8
  have heq : result = n := by
    apply BitVec.eq_of_toNat_eq
    have hn := n.isLt
    rw [hresult]
    omega
  refine ⟨(result,t),hvisits,returns_bind.mpr ⟨key '\r',returns_next _,?_⟩⟩
  exact returns_bind.mpr ⟨_,returns_ofOption.mpr rfl,returns_pure.mpr (heq ▸ rfl)⟩

theorem safe_gethexword (defaultValue : BitVec 32) : Safe (gethexwordReader defaultValue) := by
  have hstep (s : BitVec 32 × Screen) (c : Key) :
      (gethexwordStep (.waiting s.1 s.2) c).isSome := by
    rw [gethexwordStep]
    split
    · rfl
    · simp only [puthexword_eq,Option.map_some,Option.isSome_some]
  refine (safe_ofOption (by rw [puthexword_eq]; rfl)).bind fun t _ => ?_
  refine safe_rounds (I := fun _ => True) trivial (fun s _ => ?_) fun _ _ _ _ => trivial
  refine safe_next.bind fun c _ => (safe_ofOption (hstep s c)).bind fun prompt _ => ?_
  cases prompt <;> exact safe_pure _

/-! ## Every register list can be typed -/

theorem returns_menuPresetRegister (reg : BitVec 32) : Returns menuPresetRegister reg :=
  returns_menuNumberWith 0 registerOptions menuPresetRegisterCallback reg

theorem safe_menuPresetRegister : Safe menuPresetRegister :=
  safe_menuNumberWith 0 registerOptions menuPresetRegisterCallback (by decide)

theorem listOptions_usable : Usable listOptions := by decide

theorem getLsbD_toggle (regList : BitVec 16) {r : ℕ} (hr : r < 16) (i : ℕ) :
    (regList ^^^ (1 : BitVec 16) <<< r).getLsbD i = (regList.getLsbD i != decide (i = r)) := by
  rw [BitVec.getLsbD_xor]
  congr 1
  have hone : ((1 : BitVec 16) <<< r).getLsbD i = (decide (r < 16) && decide (r = i)) := by
    rw [← BitVec.getLsbD_twoPow,BitVec.twoPow_eq]
    rfl
  rw [hone,decide_eq_true hr,Bool.true_and]
  exact decide_eq_decide.mpr eq_comm

theorem registerListRound_toggle (regList : BitVec 16) {r : ℕ} (hr : r < 16) :
    Round registerListRound regList (regList ^^^ (1 : BitVec 16) <<< r) := by
  obtain ⟨text,htext⟩ := @printOperand_isSome (.reglist regList) trivial
  have hvalid : mpRegisterListValidReg (BitVec.ofNat 32 r) = true := by
    have hle : ¬15 < BitVec.ofNat 32 r := by
      rw [BitVec.lt_def,BitVec.toNat_ofNat]
      show ¬15 < r % 2 ^ 32
      omega
    rw [mpRegisterListValidReg,decide_eq_false hle]
    rfl
  have hreg : (BitVec.ofNat 32 r).toNat = r := Nat.mod_eq_of_lt (by omega)
  refine returns_bind.mpr ⟨text,returns_ofOption.mpr htext,?_⟩
  refine returns_bind.mpr ⟨key ',',(returns_menu listOptions_usable _).mpr (by decide),?_⟩
  rw [if_pos rfl]
  refine returns_bind.mpr ⟨BitVec.ofNat 32 r,returns_menuPresetRegister _,?_⟩
  rw [if_pos hvalid,hreg]
  exact returns_pure.mpr rfl

/-- Register by register, the list becomes the one that is wanted. -/
theorem registerListRound_types (wanted : BitVec 16) (k : ℕ) (hk : k ≤ 16) :
    ∃ t, ReflTransGen (Round registerListRound) 0 t ∧ ∀ i < k, t.getLsbD i = wanted.getLsbD i := by
  induction k with
  | zero => exact ⟨0,.refl,fun i hi => absurd hi (Nat.not_lt_zero i)⟩
  | succ k ih =>
      obtain ⟨t,hvisits,hbits⟩ := ih (by omega)
      by_cases hbit : t.getLsbD k = wanted.getLsbD k
      · exact ⟨t,hvisits,fun i hi => (Nat.lt_succ_iff_lt_or_eq.mp hi).elim (hbits i) (· ▸ hbit)⟩
      · refine ⟨_,hvisits.tail (registerListRound_toggle t (by omega : k < 16)),fun i hi => ?_⟩
        rw [getLsbD_toggle t (by omega)]
        obtain hlt | rfl := Nat.lt_succ_iff_lt_or_eq.mp hi
        · rw [decide_eq_false (Nat.ne_of_lt hlt),Bool.bne_false]
          exact hbits i hlt
        · rw [decide_eq_true rfl,Bool.bne_true]
          exact (Bool.eq_not_of_ne (Ne.symm hbit)).symm

@[simp] theorem returns_registerList (wanted : BitVec 16) :
    Returns menuPresetRegisterList wanted := by
  obtain ⟨t,hvisits,hbits⟩ := registerListRound_types wanted 16 le_rfl
  have heq : t = wanted := BitVec.eq_of_getLsbD_eq hbits
  obtain ⟨text,htext⟩ := @printOperand_isSome (.reglist t) trivial
  refine returns_rounds.mpr ⟨t,hvisits,returns_bind.mpr ⟨text,returns_ofOption.mpr htext,?_⟩⟩
  refine returns_bind.mpr ⟨key '\r',(returns_menu listOptions_usable _).mpr (by decide),?_⟩
  rw [if_neg (by decide),if_neg (by decide),heq]
  exact returns_pure.mpr rfl

theorem safe_registerList : Safe menuPresetRegisterList := by
  refine safe_rounds (I := fun _ => True) trivial (fun regList _ => ?_) fun _ _ _ _ => trivial
  have htext : (thumbPrintRegisterList regList).isSome :=
    Option.isSome_iff_exists.mpr (@printOperand_isSome (.reglist regList) trivial)
  refine (safe_ofOption htext).bind fun _ _ => (safe_menu listOptions_usable).bind fun opt _ => ?_
  split
  · exact safe_menuPresetRegister.bind fun _ _ => safe_pure _
  split
  · exact safe_menuPresetRegister.bind fun _ _ => safe_menuPresetRegister.bind fun _ _ =>
      safe_pure _
  · exact safe_pure _

/-! ## Widths, conditions and labels -/

theorem widthMenu_usable : Usable widthMenu := by decide

theorem conditionMenu_usable : Usable conditionMenu := by decide

theorem labelOptions_usable : Usable labelOptions := by decide

theorem conditionMenu_keys : conditionMenu.map MenuOption.key = setConditionOptions := by decide

@[simp] theorem returns_widthMenu (current widthSpecifier : ThumbWidthSpecifier) :
    Returns (menuPresetInstructionWidthMenu current) widthSpecifier := by
  have hname : ∃ opt, widthMenu[current.ctorIdx]? = some opt := by
    cases current <;> exact ⟨_,rfl⟩
  obtain ⟨name,hname⟩ := hname
  have hkey : ∃ opt ∈ widthMenu.map MenuOption.key, widthSpecifier =
      if opt = key 'n' then .narrow else if opt = key 'w' then .wide else .auto := by
    cases widthSpecifier <;> decide
  obtain ⟨opt,hopt,rfl⟩ := hkey
  refine returns_bind.mpr ⟨name,returns_ofOption.mpr hname,?_⟩
  exact returns_bind.mpr ⟨opt,(returns_menu widthMenu_usable _).mpr hopt,returns_pure.mpr rfl⟩

theorem safe_widthMenu (current : ThumbWidthSpecifier) :
    Safe (menuPresetInstructionWidthMenu current) :=
  (safe_ofOption (by cases current <;> rfl)).bind fun _ _ =>
    (safe_menu widthMenu_usable).bind fun _ _ => safe_pure _

@[simp] theorem returns_condition (condition : ThumbCondition) :
    Returns conditionReader condition ↔ condition.toNat ≤ 15 := by
  rw [← offered_iff,Offered,← conditionMenu_keys]
  simp only [conditionReader,returns_bind,returns_menu conditionMenu_usable,returns_pure,
    eq_comm]

theorem safe_condition : Safe conditionReader :=
  (safe_menu conditionMenu_usable).bind fun _ _ => safe_pure _

section
variable (entries : List MemoryEntry) (relativeFrom : Address) (isCode : Bool)

/-- Any distance can be typed in bytes. -/
@[simp] theorem returns_relativeLabel (label : BitVec 32) :
    Returns (relativeLabelReader entries relativeFrom isCode) label := by
  refine returns_bind.mpr ⟨key '+',(returns_menu labelOptions_usable _).mpr (by decide),?_⟩
  rw [if_pos rfl]
  exact returns_gethexword 0 label

theorem safe_relativeLabel : Safe (relativeLabelReader entries relativeFrom isCode) := by
  have hname (s : Unit) : Safe (labelNameRound entries s) := by
    refine safe_ioGetline.bind fun name _ => ?_
    split <;> exact safe_pure _
  refine (safe_menu labelOptions_usable).bind fun opt _ => ?_
  split
  · exact safe_gethexword 0
  split
  · exact (safe_gethexword 0).bind fun _ _ => safe_pure _
  split
  · exact (safe_rounds (I := fun _ => True) trivial (fun s _ => hname s)
      fun _ _ _ _ => trivial).bind fun _ _ => safe_pure _
  · exact safe_pure _

end

end TwMonitor.Menu
