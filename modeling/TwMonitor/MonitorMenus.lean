import TwMonitor.AbsoluteAddress
import TwMonitor.EnterRefinement
import TwMonitor.EntrySteps
import TwMonitor.Printf

/-!
# Prompts of the monitor

The prompt for an address, the memory editor and the list of labels, key by key. Every address
can be typed. The prompt fails an assertion only where the first entry of the store is not a
section, and the other two never.
-/
namespace TwMonitor.Monitor
open AbsoluteAddress ByteMemory Editor Input MemoryStore Menu MonitorEnter NumberPad Printf Relation
open Thumb (Text memoryPrintNameFromLabel)

/-! ## An address -/

def absAddressOptions : List MenuOption :=
  [⟨key 'u',"User Section"⟩,⟨key 'l',"Label"⟩,⟨ctrl 'i',"Initial Address"⟩,
   ⟨ctrl 'z',"Zero Address"⟩,⟨key '\r',"Submit"⟩,⟨key '\x08',"Remove Last Digit"⟩]

section
variable (entries : List MemoryEntry) (initialAddress : Address)
  (labelDropInterworkBit acceptSections : Bool)

/-- What a round leads to. -/
def addressNext : AddressPrompt → Reader Key (Address ⊕ AbsoluteAddressResult)
  | .waiting address => pure (.inl address)
  | .returned result => pure (.inr result)
  | .failed => ofOption none

/-- One round of `menu_preset_absolute_address`. The key for a label is followed by a line. -/
def absoluteAddressRound (address : Address) : Reader Key (Address ⊕ AbsoluteAddressResult) := do
  let c ← next
  if c = key '?' then do
    let _ ← ofOption (printMenuHelp (absAddressOptions.drop (!acceptSections).toNat) true)
    pure (.inl address)
  else if c = key 'l' then do
    let line ← ioGetline
    addressNext (absoluteAddressKey entries initialAddress labelDropInterworkBit
      acceptSections address { key := c, line })
  else
    addressNext (absoluteAddressKey entries initialAddress labelDropInterworkBit
      acceptSections address { key := c })

theorem absoluteAddressRound_takes (address : Address) : Takes
    (absoluteAddressRound entries initialAddress labelDropInterworkBit acceptSections address) :=
  takes_next.bind_left _

def absoluteAddressReader : Reader Key AbsoluteAddressResult :=
  rounds (absoluteAddressRound entries initialAddress labelDropInterworkBit acceptSections)
    (absoluteAddressRound_takes entries initialAddress labelDropInterworkBit acceptSections)
    initialAddress

/-- The section that is returned with an address. -/
def sectionAround (address : Address) : Option SectionEntry :=
  if acceptSections then memoryLookupSection entries address else none

/-- An address that was typed, a label behind one, or the user section. -/
inductive Chosen : AbsoluteAddressResult → Prop
  | typed (address : Address) : Chosen ⟨address,sectionAround entries acceptSections address⟩
  | label (address : Address) {name : List (BitVec 8)} {label : MemoryEntry} (hname : Typable name)
      (hlabel : memoryLookupLabel entries name = some label) :
      Chosen ⟨labelAddress labelDropInterworkBit label,sectionAround entries acceptSections address⟩
  | user {user : SectionEntry} (haccept : acceptSections = true)
      (huser : (memoryGetUserSection entries).bind sectionEntry = some user) :
      Chosen ⟨0,some user⟩

end

section
variable {entries : List MemoryEntry} {initialAddress : Address}
  {labelDropInterworkBit acceptSections : Bool}

theorem returns_addressNext {prompt : AddressPrompt} {next : Address ⊕ AbsoluteAddressResult} :
    Returns (addressNext prompt) next ↔
      prompt = Sum.elim AddressPrompt.waiting AddressPrompt.returned next := by
  cases prompt with
  | waiting address =>
      rw [addressNext,returns_pure]
      cases next <;> simp [eq_comm]
  | returned result =>
      rw [addressNext,returns_pure]
      cases next <;> simp [eq_comm]
  | failed =>
      rw [addressNext,returns_ofOption]
      cases next <;> simp

/-- The digits and the keys for the initial address and for zero. -/
theorem round_address {address : Address} {c : Key} {next : Address}
    (hhelp : c ≠ key '?') (hlabel : c ≠ key 'l')
    (h : absoluteAddressKey entries initialAddress labelDropInterworkBit acceptSections address
      { key := c } = .waiting next) :
    Round (absoluteAddressRound entries initialAddress labelDropInterworkBit acceptSections)
      address next := by
  refine returns_bind.mpr ⟨c,returns_next c,?_⟩
  rw [if_neg hhelp,if_neg hlabel]
  exact returns_addressNext.mpr h

theorem round_digit (address : Address) {d : ℕ} (hd : d < 16) :
    Round (absoluteAddressRound entries initialAddress labelDropInterworkBit acceptSections)
      address (enterAddressDigit address d) := by
  have hkey := keyDigit_digitToChar d hd
  have hother : ∀ d < 16, key (digitToChar d) ≠ key '?' ∧ key (digitToChar d) ≠ key 'l' := by decide
  refine round_address (hother d hd).1 (hother d hd).2 ?_
  have hdigit : keyDigit (key (digitToChar d)) < 16 := by omega
  exact (if_pos hdigit).trans (by rw [hkey])

theorem digit_fits {n : ℕ} (hn : n < 2 ^ 32) : BitVec.ofNat 32 (n / 16) ≤
    (BitVec.allOnes 32 - BitVec.ofNat 32 (n % 16)) >>> 4 := by
  have hd : n % 16 < 16 := Nat.mod_lt n (by decide)
  rw [BitVec.le_def,BitVec.toNat_ushiftRight,Nat.shiftRight_eq_div_pow,BitVec.toNat_sub,
    BitVec.toNat_allOnes,BitVec.toNat_ofNat,BitVec.toNat_ofNat]
  omega

/-- Every address can be typed, from zero on. -/
theorem address_typed (n : ℕ) (hn : n < 2 ^ 32) (address : Address) :
    ReflTransGen
      (Round (absoluteAddressRound entries initialAddress labelDropInterworkBit acceptSections))
      address (BitVec.ofNat 32 n) := by
  induction n using Nat.strong_induction_on with
  | _ n ih =>
      obtain rfl | hpos := Nat.eq_zero_or_pos n
      · refine .single (round_address (c := ctrl 'z') (by decide) (by decide) ?_)
        cases acceptSections <;> rfl
      · have hd : n % 16 < 16 := Nat.mod_lt n (by decide)
        have hround := @round_digit entries initialAddress labelDropInterworkBit acceptSections
          (BitVec.ofNat 32 (n / 16)) _ hd
        have hnext : enterAddressDigit (BitVec.ofNat 32 (n / 16)) (n % 16) = BitVec.ofNat 32 n := by
          rw [enterAddressDigit,if_pos (digit_fits hn)]
          apply BitVec.eq_of_toNat_eq
          simp only [BitVec.toNat_add,BitVec.toNat_shiftLeft,BitVec.toNat_ofNat,Nat.shiftLeft_eq]
          omega
        rw [hnext] at hround
        exact (ih (n / 16) (by omega) (by omega)).tail hround

theorem chosen_of_key {address : Address} {k : AddressKey} {result : AbsoluteAddressResult}
    (hline : Typable k.line) (h : absoluteAddressKey entries initialAddress labelDropInterworkBit
      acceptSections address k = .returned result) :
    Chosen entries labelDropInterworkBit acceptSections result := by
  unfold absoluteAddressKey at h
  split at h
  · cases h
  split at h
  · cases h
  split at h
  · next huser =>
      unfold returnUserSection at h
      cases hsection : (memoryGetUserSection entries).bind sectionEntry with
      | none =>
          rw [hsection] at h
          cases h
      | some user =>
          rw [hsection] at h
          obtain rfl := AddressPrompt.returned.inj h
          exact .user huser.2 hsection
  split at h
  · unfold pickLabel at h
    split at h
    · cases h
    · cases hlabel : memoryLookupLabel entries k.line with
      | none =>
          rw [hlabel] at h
          cases h
      | some label =>
          rw [hlabel] at h
          obtain rfl := AddressPrompt.returned.inj h
          exact .label address hline hlabel
  split at h
  · cases h
  split at h
  · cases h
  split at h
  · obtain rfl := AddressPrompt.returned.inj h
    exact .typed address
  split at h <;> cases h

theorem typable_nil : Typable [] :=
  ⟨Nat.zero_le _,List.not_mem_nil,List.not_mem_nil,List.not_mem_nil⟩

/-- What the prompt can return. -/
theorem returns_absoluteAddress {result : AbsoluteAddressResult} :
    Returns (absoluteAddressReader entries initialAddress labelDropInterworkBit acceptSections)
      result ↔ Chosen entries labelDropInterworkBit acceptSections result := by
  unfold absoluteAddressReader
  rw [returns_rounds]
  constructor
  · rintro ⟨address,-,hlast⟩
    obtain ⟨c,-,hlast⟩ := returns_bind.mp hlast
    split at hlast
    · obtain ⟨-,-,hnext⟩ := returns_bind.mp hlast
      cases returns_pure.mp hnext
    split at hlast
    · obtain ⟨line,hline,hnext⟩ := returns_bind.mp hlast
      exact chosen_of_key ((returns_ioGetline line).mp hline) (returns_addressNext.mp hnext)
    · exact chosen_of_key typable_nil (returns_addressNext.mp hlast)
  · intro h
    have htyped (address : Address) := @address_typed entries initialAddress labelDropInterworkBit
      acceptSections address.toNat address.isLt initialAddress
    simp only [BitVec.ofNat_toNat,BitVec.setWidth_eq] at htyped
    cases h with
    | typed address =>
        refine ⟨address,htyped address,returns_bind.mpr ⟨key '\r',returns_next _,?_⟩⟩
        rw [if_neg (by decide),if_neg (by decide)]
        refine returns_addressNext.mpr ?_
        cases acceptSections <;> rfl
    | @label address name label hname hlabel =>
        refine ⟨address,htyped address,returns_bind.mpr ⟨key 'l',returns_next _,?_⟩⟩
        rw [if_neg (by decide),if_pos rfl]
        refine returns_bind.mpr ⟨name,(returns_ioGetline name).mpr hname,?_⟩
        refine returns_addressNext.mpr ?_
        have hne : name ≠ [] := by
          rintro rfl
          rw [lookup_nil] at hlabel
          cases hlabel
        have hpick : absoluteAddressKey entries initialAddress labelDropInterworkBit acceptSections
            address { key := key 'l', line := name } =
              pickLabel entries labelDropInterworkBit acceptSections address name := by
          cases acceptSections <;> rfl
        rw [hpick,pickLabel,if_neg hne,hlabel]
        rfl
    | @user user haccept huser =>
        refine ⟨initialAddress,.refl,returns_bind.mpr ⟨key 'u',returns_next _,?_⟩⟩
        rw [if_neg (by decide),if_neg (by decide)]
        refine returns_addressNext.mpr ?_
        have huserKey : absoluteAddressKey entries initialAddress labelDropInterworkBit
            acceptSections initialAddress { key := key 'u' } = returnUserSection entries := by
          rw [haccept]
          rfl
        rw [huserKey,returnUserSection,huser]
        rfl

theorem absoluteAddressKey_ne_failed (huser : acceptSections = true → HasUserSection entries)
    (address : Address) (k : AddressKey) : absoluteAddressKey entries initialAddress
      labelDropInterworkBit acceptSections address k ≠ .failed := by
  intro h
  unfold absoluteAddressKey at h
  split at h
  · cases h
  split at h
  · cases h
  split at h
  · next hkey =>
      obtain ⟨user,hsection⟩ := huser hkey.2
      rw [returnUserSection,hsection] at h
      cases h
  split at h
  · unfold pickLabel at h
    split at h
    · cases h
    · cases hlabel : memoryLookupLabel entries k.line with
      | none =>
          rw [hlabel] at h
          cases h
      | some label =>
          rw [hlabel] at h
          cases h
  split at h
  · cases h
  split at h
  · cases h
  split at h
  · cases h
  split at h <;> cases h

theorem safe_addressNext {prompt : AddressPrompt} (h : prompt ≠ .failed) :
    Safe (addressNext prompt) := by
  cases prompt with
  | waiting address => exact safe_pure _
  | returned result => exact safe_pure _
  | failed => exact absurd rfl h

theorem safe_absoluteAddress (huser : acceptSections = true → HasUserSection entries) : Safe
    (absoluteAddressReader entries initialAddress labelDropInterworkBit acceptSections) := by
  refine safe_rounds (I := fun _ => True) trivial (fun address _ => ?_) fun _ _ _ _ => trivial
  refine safe_next.bind fun c _ => ?_
  have hhelp : Printable (absAddressOptions.drop (!acceptSections).toNat) := by
    cases acceptSections <;> decide
  split
  · exact (safe_ofOption (printMenuHelp_isSome hhelp true)).bind fun _ _ => safe_pure _
  split
  · exact safe_ioGetline.bind fun line _ =>
      safe_addressNext (absoluteAddressKey_ne_failed huser address _)
  · exact safe_addressNext (absoluteAddressKey_ne_failed huser address _)

/-! ## The memory editor -/

section
variable (k : EnterConst)

/-- One round of the editor, from key to key. -/
def enterKey (s : EnterState) : Reader Key (EnterState ⊕ EnterState) := do
  let c ← next
  let prompt ← ofOption (enterStep k (.waiting s) c)
  match prompt with
  | .waiting t => pure (.inl t)
  | .finished t => pure (.inr t)

theorem enterKey_takes (s : EnterState) : Takes (enterKey k s) := takes_next.bind_left _

end

/-- `monitor_enter`, with the memory that it leaves. -/
def monitorEnterKeys (memory : Memory) (addr : Address) (entType : EnterType) :
    Reader Key Memory := do
  let s ← ofOption (enterStart (enterConst entType) memory addr [])
  let t ← rounds (enterKey (enterConst entType)) (enterKey_takes (enterConst entType)) s
  pure t.memory

theorem returns_enterKey {k : EnterConst} {s : EnterState} {next : EnterState ⊕ EnterState} :
    Returns (enterKey k s) next ↔
      ∃ c, enterStep k (.waiting s) c = some (Sum.elim EnterPrompt.waiting .finished next) := by
  unfold enterKey
  simp only [returns_bind,returns_next,true_and,returns_ofOption]
  refine exists_congr fun c => ?_
  constructor
  · rintro ⟨prompt,hprompt,hnext⟩
    rw [hprompt]
    cases prompt with
    | waiting t =>
        obtain rfl := returns_pure.mp hnext
        rfl
    | finished t =>
        obtain rfl := returns_pure.mp hnext
        rfl
  · intro h
    refine ⟨_,h,?_⟩
    cases next <;> exact returns_pure.mpr rfl

/-- Keys behind the last one change nothing. -/
theorem foldlM_finished (k : EnterConst) (s : EnterState) (keys : List Key) :
    keys.foldlM (enterStep k) (.finished s) = some (.finished s) := by
  induction keys with
  | nil => rfl
  | cons c keys ih => exact ih

theorem returns_enterRounds {k : EnterConst} {s t : EnterState} :
    Returns (rounds (enterKey k) (enterKey_takes k) s) t ↔
      ∃ keys : List Key, keys.foldlM (enterStep k) (.waiting s) = some (.finished t) := by
  rw [returns_rounds]
  constructor
  · rintro ⟨u,hu,hlast⟩
    induction hu using ReflTransGen.head_induction_on with
    | refl =>
        obtain ⟨c,hc⟩ := returns_enterKey.mp hlast
        exact ⟨[c],by rw [List.foldlM_cons,hc]; rfl⟩
    | head hround _ ih =>
        obtain ⟨c,hc⟩ := returns_enterKey.mp hround
        obtain ⟨keys,hkeys⟩ := ih
        exact ⟨c::keys,by rw [List.foldlM_cons,hc]; exact hkeys⟩
  · rintro ⟨keys,hkeys⟩
    induction keys generalizing s with
    | nil => cases Option.some.inj hkeys
    | cons c keys ih =>
        rw [List.foldlM_cons] at hkeys
        obtain ⟨prompt,hprompt,hkeys⟩ := Option.bind_eq_some_iff.mp hkeys
        cases prompt with
        | waiting u =>
            obtain ⟨v,hv,hlast⟩ := ih hkeys
            exact ⟨v,.head (returns_enterKey.mpr ⟨c,hprompt⟩) hv,hlast⟩
        | finished u =>
            rw [foldlM_finished] at hkeys
            obtain rfl := EnterPrompt.finished.inj (Option.some.inj hkeys)
            exact ⟨s,.refl,returns_enterKey.mpr ⟨c,hprompt⟩⟩

/-- Key by key the editor leaves what it leaves for a list of keys. -/
theorem returns_monitorEnter {memory memory' : Memory} {addr : Address} {entType : EnterType} :
    Returns (monitorEnterKeys memory addr entType) memory' ↔
      ∃ keys s, monitorEnter memory addr entType [] keys = some (.finished s) ∧
        memory' = s.memory := by
  unfold monitorEnterKeys monitorEnter
  simp only [returns_bind,returns_ofOption,returns_enterRounds,returns_pure,
    Option.bind_eq_bind,Option.bind_eq_some_iff]
  constructor
  · rintro ⟨s,hs,t,⟨keys,hkeys⟩,rfl⟩
    exact ⟨keys,t,⟨s,hs,hkeys⟩,rfl⟩
  · rintro ⟨keys,t,⟨s,hs,hkeys⟩,rfl⟩
    exact ⟨s,hs,t,⟨keys,hkeys⟩,rfl⟩

end

/-! ## The list of labels -/

/-- What is printed of an entry. -/
def memoryPrintEntry (entry : MemoryEntry) : Option Text :=
  match entry.type with
  | .etSection size => ioPrintf "SECTION @ %x SIZE %u\r\n".toList [.word entry.addr,.word size]
  | .etLabelCode _ => do
      let label ← ioPrintf "CLABEL  @ %x NAME ".toList [.word entry.addr]
      let name ← memoryPrintNameFromLabel entry
      some (label ++ name ++ "\r\n".toList)
  | .etLabelData _ => do
      let label ← ioPrintf "DLABEL  @ %x NAME ".toList [.word entry.addr]
      let name ← memoryPrintNameFromLabel entry
      some (label ++ name ++ "\r\n".toList)
  | .etSysDynAlloc isAllocated size =>
      ioPrintf "S_ALLOC @ %x ALLOCATED %s SIZE %u\r\n".toList
        [.word entry.addr,.string (if isAllocated then "USED".toList else "FREE".toList),.word size]

def memoryPrintEntries (entries : List MemoryEntry) : Option Text :=
  (entries.mapM memoryPrintEntry).map List.flatten

def memoryOptions : List MenuOption :=
  [⟨key 'c',"Set Code Label"⟩,⟨key 'd',"Set Data Label"⟩,⟨key 'q',"Quit"⟩]

/-- One round of `monitor_memory`. -/
def monitorMemoryRound (entries : List MemoryEntry) :
    Reader Key (List MemoryEntry ⊕ List MemoryEntry) := do
  let _ ← ofOption (memoryPrintEntries entries)
  let opt ← menu memoryOptions
  if opt = key 'c' ∨ opt = key 'd' then do
    let ptr ← gethexwordReader 0
    let name ← ioGetline
    pure (.inl (memoryCreateLabel entries name ptr (opt = key 'c')).2)
  else pure (.inr entries)

theorem monitorMemoryRound_takes (entries : List MemoryEntry) :
    Takes (monitorMemoryRound entries) :=
  Takes.bind_right _ fun _ => (takes_menu _).bind_left _

def monitorMemory (entries : List MemoryEntry) : Reader Key (List MemoryEntry) :=
  rounds monitorMemoryRound monitorMemoryRound_takes entries

/-- A label of the user, or an attempt at one. -/
inductive LabelStep (entries : List MemoryEntry) : List MemoryEntry → Prop
  | create {name : List (BitVec 8)} (hname : Typable name) (ptr : Address) (isCode : Bool) :
      LabelStep entries (memoryCreateLabel entries name ptr isCode).2

theorem memoryOptions_usable : Usable memoryOptions := by decide

theorem memoryPrintEntry_isSome (entry : MemoryEntry) : (memoryPrintEntry entry).isSome = true := by
  have hlabel (fmt : List Char) (hfmt : formatTypes false fmt = [.word]) :
      ∃ text, ioPrintf fmt [.word entry.addr] = some text := by
    refine Option.isSome_iff_exists.mp ((ioPrintf_isSome_iff fmt _).mpr ?_)
    rw [hfmt]
    exact List.prefix_rfl
  obtain ⟨type,addr⟩ := entry
  cases type with
  | etSection size =>
      refine (ioPrintf_isSome_iff _ _).mpr ?_
      exact ⟨[],rfl⟩
  | etLabelCode name =>
      obtain ⟨text,htext⟩ := hlabel "CLABEL  @ %x NAME ".toList (by decide)
      rw [memoryPrintEntry,htext]
      rfl
  | etLabelData name =>
      obtain ⟨text,htext⟩ := hlabel "DLABEL  @ %x NAME ".toList (by decide)
      rw [memoryPrintEntry,htext]
      rfl
  | etSysDynAlloc isAllocated size =>
      refine (ioPrintf_isSome_iff _ _).mpr ?_
      exact ⟨[],rfl⟩

theorem mapM_isSome {α β : Type} {f : α → Option β} (h : ∀ a, (f a).isSome = true)
    (xs : List α) : (xs.mapM f).isSome = true := by
  induction xs with
  | nil => rfl
  | cons x xs ih =>
      obtain ⟨y,hy⟩ := Option.isSome_iff_exists.mp (h x)
      obtain ⟨ys,hys⟩ := Option.isSome_iff_exists.mp ih
      rw [List.mapM_cons,hy,hys]
      rfl

theorem memoryPrintEntries_isSome (entries : List MemoryEntry) :
    (memoryPrintEntries entries).isSome = true := by
  rw [memoryPrintEntries,Option.isSome_map]
  exact mapM_isSome memoryPrintEntry_isSome entries

theorem returns_monitorMemoryRound {entries : List MemoryEntry}
    {next : List MemoryEntry ⊕ List MemoryEntry} :
    Returns (monitorMemoryRound entries) next ↔
      next = .inr entries ∨ ∃ created, LabelStep entries created ∧ next = .inl created := by
  obtain ⟨text,htext⟩ := Option.isSome_iff_exists.mp (memoryPrintEntries_isSome entries)
  have hlabel (c : Key) : Returns (do
      let ptr ← gethexwordReader 0
      let name ← ioGetline
      pure (.inl (memoryCreateLabel entries name ptr (c = key 'c')).2) :
        Reader Key (List MemoryEntry ⊕ List MemoryEntry)) next ↔
      ∃ ptr name, Typable name ∧
        next = .inl (memoryCreateLabel entries name ptr (c = key 'c')).2 := by
    simp only [returns_bind,returns_gethexword,returns_ioGetline,returns_pure,true_and]
  have hround : Returns (monitorMemoryRound entries) next ↔
      ∃ opt ∈ memoryOptions, Returns (if opt.key = key 'c' ∨ opt.key = key 'd' then (do
        let ptr ← gethexwordReader 0
        let name ← ioGetline
        pure (.inl (memoryCreateLabel entries name ptr (opt.key = key 'c')).2))
        else pure (.inr entries) : Reader Key (List MemoryEntry ⊕ List MemoryEntry)) next := by
    rw [monitorMemoryRound,returns_bind]
    simp only [htext,returns_ofOption,returns_menu_bind memoryOptions_usable]
    exact ⟨fun h => h.choose_spec.2,fun h => ⟨text,rfl,h⟩⟩
  rw [hround]
  constructor
  · rintro ⟨opt,_,h⟩
    split at h
    · obtain ⟨ptr,name,hname,rfl⟩ := (hlabel opt.key).mp h
      exact .inr ⟨_,.create hname ptr _,rfl⟩
    · exact .inl (returns_pure.mp h)
  · rintro (rfl | ⟨_,⟨hname,ptr,isCode⟩,rfl⟩)
    · exact ⟨⟨key 'q',"Quit"⟩,by decide,returns_pure.mpr rfl⟩
    · cases isCode with
      | true =>
          exact ⟨⟨key 'c',"Set Code Label"⟩,by decide,(hlabel (key 'c')).mpr ⟨ptr,_,hname,rfl⟩⟩
      | false =>
          exact ⟨⟨key 'd',"Set Data Label"⟩,by decide,(hlabel (key 'd')).mpr ⟨ptr,_,hname,rfl⟩⟩

/-- The list of labels is left behind any number of them. -/
theorem returns_monitorMemory {entries entries' : List MemoryEntry} :
    Returns (monitorMemory entries) entries' ↔ ReflTransGen LabelStep entries entries' := by
  have hround (entries entries' : List MemoryEntry) :
      Round monitorMemoryRound entries entries' ↔ LabelStep entries entries' := by
    unfold Round
    rw [returns_monitorMemoryRound]
    simp
  have hrounds : Round monitorMemoryRound = LabelStep := by
    funext entries entries'
    exact propext (hround entries entries')
  rw [monitorMemory,returns_rounds,hrounds]
  simp only [returns_monitorMemoryRound,Sum.inr.injEq,reduceCtorEq,and_false,exists_false,or_false]
  constructor
  · rintro ⟨last,h,rfl⟩
    exact h
  · exact fun h => ⟨_,h,rfl⟩

end TwMonitor.Monitor
