import TwMonitor.EditorSession

/-!
# What becomes of the entries

The functions of the store on the list of entries. Entries are added behind the others, and all
that changes of an entry is the size of a section or the mark of an allocation. So a label is
there for good, and it is found by its name and at its address ever after.
-/
namespace TwMonitor.MemoryStore
open ByteMemory Editor Relation

inductive EntriesStep (entries : List MemoryEntry) : List MemoryEntry → Prop
  | createLabel (name : List (BitVec 8)) (ptr : Address) (isCode : Bool) :
      EntriesStep entries (memoryCreateLabel entries name ptr isCode).2
  | updateSectionSize {before after : List MemoryEntry} {entry : SectionEntry}
      (newSize : BitVec 32) (hentries : entries = before ++ entry.toMemoryEntry::after) :
      EntriesStep entries
        (before ++ (memoryUpdateSectionSize entry newSize).toMemoryEntry::after)
  | markAlloc {before after : List MemoryEntry} {isAllocated : Bool} {size : BitVec 32}
      {addr : Address} (hentries : entries =
        before ++ { type := .etSysDynAlloc (!isAllocated) size, addr }::after) :
      EntriesStep entries (before ++ { type := .etSysDynAlloc isAllocated size, addr }::after)
  | newAlloc (size : BitVec 32) (addr : Address) :
      EntriesStep entries (entries ++ [{ type := .etSysDynAlloc true size, addr }])

/-! ## What an entry keeps -/

/-- An entry without what is changed in place. -/
def shape (entry : MemoryEntry) : MemoryEntry :=
  match entry.type with
  | .etSection _ => { entry with type := .etSection 0 }
  | .etSysDynAlloc _ size => { entry with type := .etSysDynAlloc false size }
  | _ => entry

theorem shape_addr (entry : MemoryEntry) : (shape entry).addr = entry.addr := by
  obtain ⟨type,addr⟩ := entry
  cases type <;> rfl

theorem labelName_shape (entry : MemoryEntry) : labelName (shape entry) = labelName entry := by
  obtain ⟨type,addr⟩ := entry
  cases type <;> rfl

theorem isCodeLabel_shape (entry : MemoryEntry) :
    memoryEntryIsCodeLabel (shape entry) = memoryEntryIsCodeLabel entry := by
  obtain ⟨type,addr⟩ := entry
  cases type <;> rfl

theorem isSection_shape (entry : MemoryEntry) :
    memoryEntryIsSection (shape entry) = memoryEntryIsSection entry := by
  obtain ⟨type,addr⟩ := entry
  cases type <;> rfl

/-- Of a label nothing is changed. -/
theorem shape_label {entry : MemoryEntry} (h : memoryEntryIsLabel entry = true) :
    shape entry = entry := by
  obtain ⟨type,addr⟩ := entry
  cases type with
  | etSection size => cases h
  | etLabelCode name => rfl
  | etLabelData name => rfl
  | etSysDynAlloc isAllocated size => cases h

theorem shape_section (entry : SectionEntry) (newSize : BitVec 32) :
    shape (memoryUpdateSectionSize entry newSize).toMemoryEntry = shape entry.toMemoryEntry := by
  obtain ⟨⟨type,addr⟩,hsection⟩ := entry
  cases type with
  | etSection size => rfl
  | etLabelCode name => cases hsection
  | etLabelData name => cases hsection
  | etSysDynAlloc isAllocated size => cases hsection

/-- The entries are there in the same order, with others behind them. -/
def Extends (entries entries' : List MemoryEntry) : Prop :=
  entries.map shape <+: entries'.map shape

/-- No two labels have one name. -/
def UniqueNames (entries : List MemoryEntry) : Prop := (entries.filterMap labelName).Nodup

/-- The store begins with a section. -/
def HasUserSection (entries : List MemoryEntry) : Prop :=
  ∃ user, (memoryGetUserSection entries).bind sectionEntry = some user

section
variable {entries entries' entries'' : List MemoryEntry}

theorem Extends.refl (entries : List MemoryEntry) : Extends entries entries := List.prefix_rfl

theorem Extends.trans (h : Extends entries entries') (h' : Extends entries' entries'') :
    Extends entries entries'' := List.IsPrefix.trans h h'

theorem extends_append (entries added : List MemoryEntry) :
    Extends entries (entries ++ added) := by
  rw [Extends,List.map_append]
  exact List.prefix_append _ _

theorem extends_replaced {before after : List MemoryEntry} {entry entry' : MemoryEntry}
    (h : shape entry' = shape entry) :
    Extends (before ++ entry::after) (before ++ entry'::after) := by
  rw [Extends,List.map_append,List.map_append,List.map_cons,List.map_cons,h]

theorem memoryCreateLabel_cases (entries : List MemoryEntry) (name : List (BitVec 8))
    (ptr : Address) (isCode : Bool) :
    (memoryCreateLabel entries name ptr isCode).2 = entries ∨
      ∃ label : LabelName, label.bytes = name ∧ memoryLookupLabel entries name = none ∧
        (memoryCreateLabel entries name ptr isCode).2 =
          entries ++ [EntryStore.labelEntry label ptr isCode] := by
  unfold memoryCreateLabel
  split
  · next hname =>
      split
      · exact .inl rfl
      · next hnew => exact .inr ⟨⟨name,hname.1,hname.2⟩,rfl,by simpa using hnew,rfl⟩
  · exact .inl rfl

theorem EntriesStep.extends (h : EntriesStep entries entries') : Extends entries entries' := by
  cases h with
  | createLabel name ptr isCode =>
      obtain hsame | ⟨label,-,-,hadded⟩ := memoryCreateLabel_cases entries name ptr isCode
      · rw [hsame]
        exact .refl entries
      · rw [hadded]
        exact extends_append _ _
  | updateSectionSize newSize hentries =>
      subst hentries
      exact extends_replaced (shape_section _ newSize)
  | markAlloc hentries =>
      subst hentries
      exact extends_replaced rfl
  | newAlloc size addr => exact extends_append _ _

theorem extends_of_steps (h : ReflTransGen EntriesStep entries entries') :
    Extends entries entries' := by
  induction h with
  | refl => exact .refl entries
  | tail _ hstep ih => exact ih.trans hstep.extends

/-! ## Names -/

theorem labelName_labelEntry (label : LabelName) (ptr : Address) (isCode : Bool) :
    labelName (EntryStore.labelEntry label ptr isCode) = some label := by cases isCode <;> rfl

theorem lookupLabel_none {name : LabelName} :
    memoryLookupLabel entries name.bytes = none ↔ name ∉ entries.filterMap labelName := by
  rw [memoryLookupLabel,List.find?_eq_none,List.mem_filterMap]
  constructor
  · rintro hnone ⟨entry,hentry,hname⟩
    refine hnone entry hentry ?_
    rw [hname,Option.any_some,beq_self_eq_true]
  · intro hno entry hentry hname
    obtain ⟨label,hlabel,hbytes⟩ := (Option.any_eq_true _ _).mp hname
    refine hno ⟨entry,hentry,?_⟩
    obtain ⟨bytes,hnonempty,hbounded⟩ := label
    obtain ⟨bytes',hnonempty',hbounded'⟩ := name
    obtain rfl : bytes = bytes' := beq_iff_eq.mp hbytes
    exact hlabel

theorem names_replaced {before after : List MemoryEntry} {entry entry' : MemoryEntry}
    (h : shape entry' = shape entry) : (before ++ entry'::after).filterMap labelName =
      (before ++ entry::after).filterMap labelName := by
  have hname : labelName entry' = labelName entry := by
    rw [← labelName_shape,h,labelName_shape]
  rw [List.filterMap_append,List.filterMap_append,List.filterMap_cons,List.filterMap_cons,hname]

theorem EntriesStep.uniqueNames (h : EntriesStep entries entries') (hnames : UniqueNames entries) :
    UniqueNames entries' := by
  cases h with
  | createLabel name ptr isCode =>
      obtain hsame | ⟨label,rfl,hnew,hadded⟩ := memoryCreateLabel_cases entries name ptr isCode
      · rw [hsame]
        exact hnames
      · rw [UniqueNames,hadded,List.filterMap_append,List.filterMap_cons,labelName_labelEntry]
        refine List.nodup_append.mpr ⟨hnames,List.nodup_singleton label,?_⟩
        rintro a ha b hb rfl
        obtain rfl := List.mem_singleton.mp hb
        exact lookupLabel_none.mp hnew ha
  | updateSectionSize newSize hentries =>
      subst hentries
      rw [UniqueNames,names_replaced (shape_section _ newSize)]
      exact hnames
  | @markAlloc before after isAllocated size addr hentries =>
      subst hentries
      have hshape : shape ⟨.etSysDynAlloc isAllocated size,addr⟩ =
          shape ⟨.etSysDynAlloc (!isAllocated) size,addr⟩ := rfl
      rw [UniqueNames,names_replaced hshape]
      exact hnames
  | newAlloc size addr =>
      rw [UniqueNames,List.filterMap_append]
      exact (List.append_nil _).symm ▸ hnames

theorem uniqueNames_of_steps (h : ReflTransGen EntriesStep entries entries')
    (hnames : UniqueNames entries) : UniqueNames entries' := by
  induction h with
  | refl => exact hnames
  | tail _ hstep ih => exact hstep.uniqueNames ih

/-! ## Lookups -/

/-- What only looks at labels finds the same label again. -/
theorem Extends.find_label (h : Extends entries entries') {wanted : MemoryEntry → Bool}
    (hlabel : ∀ entry, wanted entry = true → memoryEntryIsLabel entry = true)
    (hshape : ∀ entry, wanted (shape entry) = wanted entry) {entry : MemoryEntry}
    (hentry : entries.find? wanted = some entry) : entries'.find? wanted = some entry := by
  have hsame : wanted ∘ shape = wanted := funext hshape
  have hmap (xs : List MemoryEntry) :
      (xs.map shape).find? wanted = (xs.find? wanted).map shape := by
    rw [List.find?_map,hsame]
  have hshaped : (entries.map shape).find? wanted = some (shape entry) := by
    rw [hmap,hentry,Option.map_some]
  have hfound := List.IsPrefix.find?_eq_some h hshaped
  rw [hmap,Option.map_eq_some_iff] at hfound
  obtain ⟨entry',hentry',hsame'⟩ := hfound
  rw [shape_label (hlabel entry (List.find?_some hentry)),
    shape_label (hlabel entry' (List.find?_some hentry'))] at hsame'
  rw [hentry',hsame']

theorem Extends.lookupLabel (h : Extends entries entries') {name : List (BitVec 8)}
    {label : MemoryEntry} (hlabel : memoryLookupLabel entries name = some label) :
    memoryLookupLabel entries' name = some label := by
  refine h.find_label (fun entry hentry => ?_) (fun entry => ?_) hlabel
  · obtain ⟨label,hname,-⟩ := (Option.any_eq_true _ _).mp hentry
    rw [memoryEntryIsLabel,hname]
    rfl
  · rw [labelName_shape]

theorem Extends.rlookupLabel (h : Extends entries entries') {ptr : Address}
    {label : MemoryEntry} (hlabel : memoryRlookupLabel entries ptr = some label) :
    memoryRlookupLabel entries' ptr = some label := by
  refine h.find_label (fun entry hentry => ?_) (fun entry => ?_) hlabel
  · by_contra hother
    rw [if_neg hother] at hentry
    cases hentry
  · rw [memoryEntryIsLabel,memoryEntryIsLabel,labelName_shape,isCodeLabel_shape,shape_addr]

/-- The user section stays the first entry, where it is. -/
theorem Extends.userSection (h : Extends entries entries') {user : SectionEntry}
    (huser : (memoryGetUserSection entries).bind sectionEntry = some user) :
    ∃ user', (memoryGetUserSection entries').bind sectionEntry = some user' ∧
      user'.addr = user.addr := by
  obtain ⟨first,hfirst,hsection⟩ := Option.bind_eq_some_iff.mp huser
  obtain rfl := sectionEntry_eq hsection
  obtain ⟨rest,rfl⟩ := List.head?_eq_some_iff.mp hfirst
  obtain ⟨added,hadded⟩ := h
  cases entries' with
  | nil => cases hadded
  | cons first' rest' =>
      rw [List.map_cons,List.map_cons,List.cons_append] at hadded
      have hshape : shape user.toMemoryEntry = shape first' := (List.cons.inj hadded).1
      have hfirst' : memoryEntryIsSection first' = true := by
        rw [← isSection_shape,← hshape,isSection_shape]
        exact user.isSection
      refine ⟨⟨first',hfirst'⟩,dif_pos hfirst',?_⟩
      rw [← shape_addr,← hshape,shape_addr]

theorem Extends.hasUserSection (h : Extends entries entries') (huser : HasUserSection entries) :
    HasUserSection entries' := by
  obtain ⟨user,huser⟩ := huser
  obtain ⟨user',huser',-⟩ := h.userSection huser
  exact ⟨user',huser'⟩

end

end TwMonitor.MemoryStore
