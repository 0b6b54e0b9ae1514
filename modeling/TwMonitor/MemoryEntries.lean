import TwMonitor.ByteMemory

/-!
# Entries of the memory store

The store is a chain of entries. A lookup walks it from the first entry on and
answers with the first label of that name; a name is kept with its length and
is not terminated.
-/
namespace TwMonitor.MemoryStore
open ByteMemory

def maxNameLen : ℕ := 8

structure LabelName where
  bytes : List (BitVec 8)
  nonempty : bytes ≠ []
  bounded : bytes.length ≤ maxNameLen
deriving DecidableEq, Repr

/-- The type of an entry with its member of the union. -/
inductive EntryType where
  | etSection (size : BitVec 32)
  | etLabelCode (name : LabelName)
  | etLabelData (name : LabelName)
  | etSysDynAlloc (isAllocated : Bool) (size : BitVec 32)
deriving DecidableEq, Repr

structure MemoryEntry where
  type : EntryType
  addr : Address
deriving DecidableEq, Repr

def memoryEntryIsCodeLabel (entry : MemoryEntry) : Bool :=
  match entry.type with
  | .etLabelCode _ => true
  | _ => false

/-- The name of an entry that is a label. -/
def labelName (entry : MemoryEntry) : Option LabelName :=
  match entry.type with
  | .etLabelCode name => some name
  | .etLabelData name => some name
  | _ => none

def memoryEntryIsLabel (entry : MemoryEntry) : Bool := (labelName entry).isSome

/-! ## Sections -/

def memoryEntryIsSection (entry : MemoryEntry) : Bool :=
  match entry.type with
  | .etSection _ => true
  | _ => false

/-- The section functions assert that they are given a section. -/
structure SectionEntry extends MemoryEntry where
  isSection : memoryEntryIsSection toMemoryEntry = true

def memoryGetSectionAddress (entry : SectionEntry) : Address := entry.addr

def memoryGetSectionSize (entry : SectionEntry) : BitVec 32 :=
  match entry.type with
  | .etSection size => size
  | _ => 0

def memoryUpdateSectionSize (entry : SectionEntry) (newSize : BitVec 32) : SectionEntry :=
  { type := .etSection newSize, addr := entry.addr, isSection := rfl }

def sectionEntry (entry : MemoryEntry) : Option SectionEntry :=
  if h : memoryEntryIsSection entry then some ⟨entry,h⟩ else none

theorem sectionEntry_eq {entry : MemoryEntry} {section' : SectionEntry}
    (h : sectionEntry entry = some section') : section'.toMemoryEntry = entry := by
  unfold sectionEntry at h
  split at h
  · rw [← Option.some.inj h]
  · exact absurd h (by simp)

/-- A pointer to the end of a section still belongs to it. -/
def sectionContains (ptr : Address) (entry : SectionEntry) : Bool :=
  let secStart := entry.addr
  let secEnd := secStart + memoryGetSectionSize entry
  secStart ≤ ptr && ptr ≤ secEnd

def memoryLookupSection (entries : List MemoryEntry) (ptr : Address) : Option SectionEntry :=
  entries.findSome? fun current => (sectionEntry current).filter (sectionContains ptr)

/-- The user section is the first entry that is created. -/
def memoryGetUserSection (entries : List MemoryEntry) : Option MemoryEntry := entries.head?

/-! ## Looking up labels -/

def memoryLookupLabel (entries : List MemoryEntry) (name : List (BitVec 8)) : Option MemoryEntry :=
  entries.find? fun current => (labelName current).any fun label => label.bytes == name

def memoryAddrFromEntry (entry : MemoryEntry) : Address := entry.addr

/-- The interwork bit is bit 0 of a code address. -/
def armAddressSetThumbIntwrkBit (oldAddress : Address) (set : Bool) : Address :=
  if set then oldAddress ||| 1 else oldAddress &&& ~~~1

/-- The first label at an address. A code label is found with and without its
interwork bit. -/
def memoryRlookupLabel (entries : List MemoryEntry) (ptr : Address) : Option MemoryEntry :=
  entries.find? fun current =>
    if memoryEntryIsLabel current then
      if memoryEntryIsCodeLabel current then
        armAddressSetThumbIntwrkBit current.addr true == ptr ||
          armAddressSetThumbIntwrkBit current.addr false == ptr
      else current.addr == ptr
    else false

end TwMonitor.MemoryStore
