import TwMonitor.LabelTable
import TwMonitor.MonitorAssemble
import TwMonitor.NumberPad

/-!
# Entering an address

The prompt for an address takes digits, or the name of a label. With the address it
returns the section around it, for the assembly editor to stay in. The section is
looked up at the address that was typed, also where a label is returned instead.
-/
namespace TwMonitor.AbsoluteAddress
open ByteMemory Editor MemoryStore NumberPad

/-- A key, with the line that is read after the key for a label. -/
structure AddressKey where
  key : Key
  line : List (BitVec 8) := []

structure AbsoluteAddressResult where
  address : Address
  memorySection : Option SectionEntry

/-- The prompt has failed where the assertion on the user section does. -/
inductive AddressPrompt where
  | waiting (address : Address)
  | returned (result : AbsoluteAddressResult)
  | failed

section
variable (entries : List MemoryEntry) (initialAddress : Address)
  (labelDropInterworkBit acceptSections : Bool)

def enterAddressDigit (address : Address) (digit : ℕ) : Address :=
  if address ≤ (BitVec.allOnes 32 - BitVec.ofNat 32 digit) >>> 4 then
    address <<< 4 + BitVec.ofNat 32 digit
  else address

def labelAddress (label : MemoryEntry) : Address :=
  let labelAddr := memoryAddrFromEntry label
  if labelDropInterworkBit then armAddressSetThumbIntwrkBit labelAddr false else labelAddr

/-- The address to return, beside the one that was typed. -/
def returnAddress (address typed : Address) : AddressPrompt :=
  .returned
    { address, memorySection := if acceptSections then memoryLookupSection entries typed else none }

/-- Nothing but the section is given. -/
def returnUserSection : AddressPrompt :=
  ((memoryGetUserSection entries).bind sectionEntry).elim .failed fun user =>
    .returned { address := 0, memorySection := some user }

def pickLabel (address : Address) (name : List (BitVec 8)) : AddressPrompt :=
  if name = [] then .waiting address
  else (memoryLookupLabel entries name).elim (.waiting address) fun label =>
    returnAddress entries acceptSections (labelAddress labelDropInterworkBit label) address

/-- One round of `menu_preset_absolute_address`. -/
def absoluteAddressKey (address : Address) (k : AddressKey) : AddressPrompt :=
  if keyDigit k.key < 16 then .waiting (enterAddressDigit address (keyDigit k.key))
  else if k.key = key '?' then .waiting address
  else if k.key = key 'u' ∧ acceptSections then returnUserSection entries
  else if k.key = key 'l' then pickLabel entries labelDropInterworkBit acceptSections address k.line
  else if k.key = ctrl 'i' then .waiting initialAddress
  else if k.key = ctrl 'z' then .waiting 0
  else if k.key = key '\r' then returnAddress entries acceptSections address address
  else if k.key = key '\x08' then .waiting (address >>> 4)
  else .waiting address

def absoluteAddressStep : AddressPrompt → AddressKey → AddressPrompt
  | .waiting address,k =>
      absoluteAddressKey entries initialAddress labelDropInterworkBit acceptSections address k
  | prompt,_ => prompt

/-- The rounds from a prompt on. -/
def absoluteAddressRun (prompt : AddressPrompt) (keys : List AddressKey) : AddressPrompt :=
  keys.foldl (absoluteAddressStep entries initialAddress labelDropInterworkBit acceptSections)
    prompt

def menuPresetAbsoluteAddress (keys : List AddressKey) : AddressPrompt :=
  absoluteAddressRun entries initialAddress labelDropInterworkBit acceptSections
    (.waiting initialAddress) keys

end

/-! ## The first section around an address -/

def InRange (ptr : Address) (entry : SectionEntry) : Prop :=
  entry.addr ≤ ptr ∧ ptr ≤ entry.addr + memoryGetSectionSize entry

/-- No section of the entries contains the address. -/
def Outside (entries : List MemoryEntry) (ptr : Address) : Prop :=
  ∀ entry ∈ entries, ∀ memorySection, sectionEntry entry = some memorySection →
    ¬InRange ptr memorySection

/-- The first section that contains an address, none when there is none. -/
def FirstSection (entries : List MemoryEntry) (ptr : Address) : Option SectionEntry → Prop
  | none => Outside entries ptr
  | some memorySection => ∃ before after,
      entries = before ++ memorySection.toMemoryEntry::after ∧ InRange ptr memorySection ∧
        Outside before ptr

theorem sectionContains_iff (ptr : Address) (entry : SectionEntry) :
    sectionContains ptr entry = true ↔ InRange ptr entry := by
  simp [sectionContains,InRange]

theorem sectionEntry_self (entry : SectionEntry) : sectionEntry entry.toMemoryEntry = some entry :=
  dif_pos entry.isSection

theorem outside_iff (entries : List MemoryEntry) (ptr : Address) :
    (∀ entry ∈ entries, (sectionEntry entry).filter (sectionContains ptr) = none) ↔
      Outside entries ptr := by
  unfold Outside
  simp only [Option.filter_eq_none_iff,sectionContains_iff]

theorem memoryLookupSection_first (entries : List MemoryEntry) (ptr : Address) :
    FirstSection entries ptr (memoryLookupSection entries ptr) := by
  cases hfound : memoryLookupSection entries ptr with
  | none => exact (outside_iff entries ptr).mp (List.findSome?_eq_none_iff.mp hfound)
  | some memorySection =>
      obtain ⟨before,entry,after,hentries,hentry,hbefore⟩ := List.findSome?_eq_some_iff.mp hfound
      obtain ⟨hsection,hcontains⟩ := Option.filter_eq_some_iff.mp hentry
      rw [← sectionEntry_eq hsection] at hentries
      exact ⟨before,after,hentries,(sectionContains_iff ptr memorySection).mp hcontains,
        (outside_iff before ptr).mp hbefore⟩

/-- The lookup is right, and nothing else is. -/
theorem firstSection_iff (entries : List MemoryEntry) (ptr : Address)
    (found : Option SectionEntry) :
    FirstSection entries ptr found ↔ found = memoryLookupSection entries ptr := by
  constructor
  · intro hfirst
    symm
    cases found with
    | none => exact List.findSome?_eq_none_iff.mpr ((outside_iff entries ptr).mpr hfirst)
    | some memorySection =>
        obtain ⟨before,after,hentries,hrange,hbefore⟩ := hfirst
        refine List.findSome?_eq_some_iff.mpr ⟨before,_,after,hentries,?_,?_⟩
        · rw [sectionEntry_self,Option.filter_eq_some_iff]
          exact ⟨rfl,(sectionContains_iff ptr memorySection).mpr hrange⟩
        · exact (outside_iff before ptr).mpr hbefore
  · rintro rfl
    exact memoryLookupSection_first entries ptr

/-- A label has a name. -/
theorem lookup_nil (entries : List MemoryEntry) : memoryLookupLabel entries [] = none := by
  refine List.find?_eq_none.mpr (fun entry _ => ?_)
  cases hname : labelName entry with
  | none => simp
  | some name => simpa using name.nonempty

/-! ## What is returned together -/

section
variable (entries : List MemoryEntry) (initialAddress : Address) (labelDropInterworkBit : Bool)

/-- A label is found in the section that is looked up for it. -/
def LabelAgrees (address : Address) (k : AddressKey) : Prop :=
  k.key = key 'l' → ∀ label, memoryLookupLabel entries k.line = some label →
    memoryLookupSection entries address =
      memoryLookupSection entries (labelAddress labelDropInterworkBit label)

/-- Every label of a run is found in the section around the address typed before it. -/
def LabelsAgree (start : Address) (keys : List AddressKey) : Prop :=
  ∀ before k after address, keys = before ++ k::after →
    absoluteAddressRun entries initialAddress labelDropInterworkBit true (.waiting start) before =
      .waiting address →
    LabelAgrees entries labelDropInterworkBit address k

variable {entries initialAddress labelDropInterworkBit}

theorem pickLabel_returned {address : Address} {name : List (BitVec 8)}
    {result : AbsoluteAddressResult}
    (h : pickLabel entries labelDropInterworkBit true address name = .returned result) :
    ∃ label, memoryLookupLabel entries name = some label ∧
      result = ⟨labelAddress labelDropInterworkBit label,memoryLookupSection entries address⟩ := by
  unfold pickLabel at h
  split at h
  · cases h
  · cases hlabel : memoryLookupLabel entries name with
    | none =>
        rw [hlabel] at h
        cases h
    | some label =>
        rw [hlabel] at h
        exact ⟨label,rfl,(AddressPrompt.returned.inj h).symm⟩

theorem returnUserSection_address {result : AbsoluteAddressResult}
    (h : returnUserSection entries = .returned result) : result.address = 0 := by
  unfold returnUserSection at h
  cases huser : (memoryGetUserSection entries).bind sectionEntry with
  | none =>
      rw [huser] at h
      cases h
  | some user =>
      rw [huser] at h
      rw [← AddressPrompt.returned.inj h]

/-- An address is returned by submitting it, or with the label of a name. -/
theorem absoluteAddressKey_returned {address : Address} {k : AddressKey}
    {result : AbsoluteAddressResult} (hne : result.address ≠ 0)
    (h : absoluteAddressKey entries initialAddress labelDropInterworkBit true address k =
      .returned result) :
    (k.key ≠ key 'l' ∧ result = ⟨address,memoryLookupSection entries address⟩) ∨
      (k.key = key 'l' ∧ ∃ label, memoryLookupLabel entries k.line = some label ∧
        result =
          ⟨labelAddress labelDropInterworkBit label,memoryLookupSection entries address⟩) := by
  unfold absoluteAddressKey at h
  split at h
  · cases h
  split at h
  · cases h
  split at h
  · exact absurd (returnUserSection_address h) hne
  split at h
  · next hlabel => exact .inr ⟨hlabel,pickLabel_returned h⟩
  next hlabel =>
    split at h
    · cases h
    split at h
    · cases h
    split at h
    · exact .inl ⟨hlabel,(AddressPrompt.returned.inj h).symm⟩
    split at h <;> cases h

/-- The last key decides whether the section is the one around the address. -/
theorem absoluteAddressKey_section_iff {address : Address} {k : AddressKey}
    {result : AbsoluteAddressResult} (hne : result.address ≠ 0)
    (h : absoluteAddressKey entries initialAddress labelDropInterworkBit true address k =
      .returned result) :
    result.memorySection = memoryLookupSection entries result.address ↔
      LabelAgrees entries labelDropInterworkBit address k := by
  rcases absoluteAddressKey_returned hne h with ⟨hkey,rfl⟩ | ⟨hkey,label,hlabel,rfl⟩
  · exact ⟨fun _ hk => absurd hk hkey,fun _ => rfl⟩
  · constructor
    · intro hsame _ other hother
      obtain rfl := Option.some.inj (hlabel.symm.trans hother)
      exact hsame
    · intro hagrees
      exact hagrees hkey label hlabel

/-- A label that exists is always returned, so a key after which the prompt waits picked none. -/
theorem absoluteAddressKey_waiting {address address' : Address} {k : AddressKey}
    (h : absoluteAddressKey entries initialAddress labelDropInterworkBit true address k =
      .waiting address') : LabelAgrees entries labelDropInterworkBit address k := by
  intro hkey label hlabel
  have hpick : absoluteAddressKey entries initialAddress labelDropInterworkBit true address k =
      pickLabel entries labelDropInterworkBit true address k.line := by
    unfold absoluteAddressKey
    rw [hkey]
    rfl
  rw [hpick,pickLabel] at h
  split at h
  · next hnil =>
      rw [hnil,lookup_nil] at hlabel
      cases hlabel
  · rw [hlabel] at h
    cases h

theorem absoluteAddressRun_cons (acceptSections : Bool) (prompt : AddressPrompt) (k : AddressKey)
    (keys : List AddressKey) :
    absoluteAddressRun entries initialAddress labelDropInterworkBit acceptSections prompt
        (k::keys) =
      absoluteAddressRun entries initialAddress labelDropInterworkBit acceptSections
        (absoluteAddressStep entries initialAddress labelDropInterworkBit acceptSections prompt k)
        keys := rfl

/-- No key is read after the prompt has returned or failed. -/
theorem absoluteAddressRun_over (acceptSections : Bool) {prompt : AddressPrompt}
    (hover : ∀ address, prompt ≠ .waiting address) (keys : List AddressKey) :
    absoluteAddressRun entries initialAddress labelDropInterworkBit acceptSections prompt keys =
      prompt := by
  induction keys with
  | nil => rfl
  | cons k keys ih =>
      have hstep : absoluteAddressStep entries initialAddress labelDropInterworkBit acceptSections
          prompt k = prompt := by
        cases prompt with
        | waiting address => exact absurd rfl (hover address)
        | returned result => rfl
        | failed => rfl
      rw [absoluteAddressRun_cons,hstep,ih]

theorem labelsAgree_cons {start : Address} {k : AddressKey} {keys : List AddressKey} :
    LabelsAgree entries initialAddress labelDropInterworkBit start (k::keys) ↔
      LabelAgrees entries labelDropInterworkBit start k ∧
      ∀ next, absoluteAddressKey entries initialAddress labelDropInterworkBit true start k =
        .waiting next → LabelsAgree entries initialAddress labelDropInterworkBit next keys := by
  constructor
  · intro h
    refine ⟨h [] k keys start rfl rfl,fun next hnext before k' after address hkeys hrun => ?_⟩
    refine h (k::before) k' after address (by rw [hkeys]; rfl) ?_
    rw [absoluteAddressRun_cons,absoluteAddressStep,hnext]
    exact hrun
  · rintro ⟨hfirst,hrest⟩ before k' after address hkeys hrun
    cases before with
    | nil =>
        obtain ⟨rfl,rfl⟩ := List.cons.inj hkeys
        obtain rfl := AddressPrompt.waiting.inj hrun
        exact hfirst
    | cons first before =>
        obtain ⟨rfl,htail⟩ := List.cons.inj hkeys
        rw [absoluteAddressRun_cons,absoluteAddressStep] at hrun
        cases hnext :
            absoluteAddressKey entries initialAddress labelDropInterworkBit true start k with
        | waiting next =>
            rw [hnext] at hrun
            exact hrest next hnext before k' after address htail hrun
        | returned result =>
            rw [hnext,absoluteAddressRun_over true (fun _ => by simp)] at hrun
            cases hrun
        | failed =>
            rw [hnext,absoluteAddressRun_over true (fun _ => by simp)] at hrun
            cases hrun

theorem absoluteAddressRun_section_iff {keys : List AddressKey} {result : AbsoluteAddressResult}
    (hne : result.address ≠ 0) : ∀ {start : Address},
    absoluteAddressRun entries initialAddress labelDropInterworkBit true (.waiting start) keys =
      .returned result →
    (result.memorySection = memoryLookupSection entries result.address ↔
      LabelsAgree entries initialAddress labelDropInterworkBit start keys) := by
  induction keys with
  | nil =>
      intro start h
      cases h
  | cons k keys ih =>
      intro start h
      rw [absoluteAddressRun_cons,absoluteAddressStep] at h
      rw [labelsAgree_cons]
      cases hnext :
          absoluteAddressKey entries initialAddress labelDropInterworkBit true start k with
      | waiting next =>
          rw [hnext] at h
          rw [ih h]
          constructor
          · intro hrest
            refine ⟨absoluteAddressKey_waiting hnext,fun other hother => ?_⟩
            obtain rfl := AddressPrompt.waiting.inj hother
            exact hrest
          · exact fun hboth => hboth.2 next rfl
      | returned last =>
          rw [hnext,absoluteAddressRun_over true (fun _ => by simp)] at h
          obtain rfl := AddressPrompt.returned.inj h
          rw [absoluteAddressKey_section_iff hne hnext]
          exact ⟨fun hagrees => ⟨hagrees,fun _ hother => nomatch hother⟩,fun hboth => hboth.1⟩
      | failed =>
          rw [hnext,absoluteAddressRun_over true (fun _ => by simp)] at h
          cases h

end

/-- An address inside its section is not moved. -/
theorem monitorAssemble_addr (memory : Memory) {addr : Address}
    {memorySection : Option SectionEntry}
    (h : ∀ entry, memorySection = some entry → InRange addr entry) :
    (monitorAssemble memory addr memorySection).addr = addr := by
  cases memorySection with
  | none =>
      unfold monitorAssemble loopHead
      rw [if_neg (BitVec.lt_irrefl addr)]
  | some entry =>
      obtain ⟨hstart,hend⟩ := h entry rfl
      have hstart' : ¬addr < memoryGetSectionAddress entry := BitVec.not_lt.mpr hstart
      have hend' : ¬memoryGetSectionAddress entry + memoryGetSectionSize entry < addr :=
        BitVec.not_lt.mpr hend
      simp only [monitorAssemble,hstart',hend',if_false,loopHead]

theorem FirstSection.inRange {entries : List MemoryEntry} {ptr : Address}
    {found : Option SectionEntry} (h : FirstSection entries ptr found) :
    ∀ entry, found = some entry → InRange ptr entry := by
  rintro entry rfl
  obtain ⟨_,_,_,hrange,_⟩ := h
  exact hrange

/-- The section returned with an address is the first one around it in exactly the runs whose
labels lie in the section around the address typed before, and the assembly editor then starts
at the address asked for. -/
theorem absoluteAddress_section_iff (entries : List MemoryEntry) (initialAddress : Address)
    (labelDropInterworkBit : Bool) (keys : List AddressKey) (result : AbsoluteAddressResult)
    (h : menuPresetAbsoluteAddress entries initialAddress labelDropInterworkBit true keys =
      .returned result) (hne : result.address ≠ 0) :
    (FirstSection entries result.address result.memorySection ↔
      LabelsAgree entries initialAddress labelDropInterworkBit initialAddress keys) ∧
    (LabelsAgree entries initialAddress labelDropInterworkBit initialAddress keys →
      ∀ memory, (monitorAssemble memory result.address result.memorySection).addr =
        result.address) := by
  have hiff : FirstSection entries result.address result.memorySection ↔
      LabelsAgree entries initialAddress labelDropInterworkBit initialAddress keys := by
    rw [firstSection_iff]
    exact absoluteAddressRun_section_iff hne h
  exact ⟨hiff,fun hagree memory => monitorAssemble_addr memory (hiff.mpr hagree).inRange⟩

/-- The user section and a function behind its end. -/
def exampleEntries : List MemoryEntry :=
  [⟨.etSection 0x100,0x20000000⟩,⟨.etLabelCode ⟨[0x66],by decide,by decide⟩,0x20001001⟩]

theorem absoluteAddress_section_iff_digits :
    ∃ result, menuPresetAbsoluteAddress exampleEntries 0x2000000 true true
        [⟨key '4',[]⟩,⟨key '\r',[]⟩] = .returned result ∧
      FirstSection exampleEntries result.address result.memorySection := by
  refine ⟨⟨0x20000004,_⟩,rfl,((absoluteAddress_section_iff exampleEntries 0x2000000 true
    [⟨key '4',[]⟩,⟨key '\r',[]⟩] ⟨0x20000004,_⟩ rfl (by decide)).1).mpr ?_⟩
  intro before k after address hkeys hrun hlabel
  have hk : k ∈ [AddressKey.mk (key '4') [],AddressKey.mk (key '\r') []] := by simp [hkeys]
  simp only [List.mem_cons,List.not_mem_nil,or_false] at hk
  rcases hk with rfl | rfl <;> exact absurd hlabel (by decide)

/-- With the label of the function the user section is returned, and code is assembled over
the end of that section. -/
theorem absoluteAddress_foreign_section :
    ∃ result, menuPresetAbsoluteAddress exampleEntries 0x20000000 true true
        [⟨key 'l',[0x66]⟩] = .returned result ∧ result.address = 0x20001000 ∧
      ¬FirstSection exampleEntries result.address result.memorySection ∧
      (monitorAssemble (fun _ => 0) result.address result.memorySection).addr = 0x20000100 := by
  refine ⟨⟨0x20001000,_⟩,rfl,rfl,?_,rfl⟩
  rw [firstSection_iff]
  intro hsame
  exact absurd (congrArg Option.isSome hsame) (by decide)

end TwMonitor.AbsoluteAddress
