import TwMonitor.MemoryEntries
import TwMonitor.NullChain
import TwMonitor.WordBlocks

/-!
# The memory store in memory

The entries of the store grow down from the stack ceiling, each with the next one
below it, and the bytes of an allocation lie between its entry and the entry
before. `struct memory_entry` has 24 bytes: the type at 0, `next` at 4, `addr` at
8 and the union from 12 on. `none` is a call that does not return: an assertion
fails, the chain has no end, or no room is left above address 0.
-/
namespace TwMonitor.EntryStore
open ByteMemory NullChain
open MemoryStore (maxNameLen armAddressSetThumbIntwrkBit)
open WordBlocks (cleared)

structure Store where
  memory : Memory
  lastMemoryEntry : Address

/-! ## An entry -/

def etSection : BitVec 8 := 0

def etLabelCode : BitVec 8 := 1

def etLabelData : BitVec 8 := 2

def etSysDynAlloc : BitVec 8 := 3

section
variable (m : Memory) (entry : Address)

def entryType : BitVec 8 := m entry

def entryNext : Address := load32 m (entry + 4)

def entryAddr : Address := load32 m (entry + 8)

def sectionSize : BitVec 32 := load32 m (entry + 12)

def labelNameLen : BitVec 8 := m (entry + 12)

def allocIsAllocated : Bool := m (entry + 12) != 0

def allocSize : BitVec 32 := load32 m (entry + 16)

def memoryEntryIsCodeLabel : Bool := entryType m entry == etLabelCode

def memoryEntryIsLabel : Bool :=
  entryType m entry == etLabelCode || entryType m entry == etLabelData

def memoryEntryIsSection : Bool := entryType m entry == etSection

def memoryEntryIsAllocation : Bool := entryType m entry == etSysDynAlloc

/-- `*entry = (struct memory_entry) { .type, .addr }`. All that is not named is zero,
the whole union and the padding too. -/
def assignEntry (type : BitVec 8) (addr : Address) : Memory :=
  store32 (store8 (cleared m entry 24) entry type) (entry + 8) addr

/-- The same with `.alloc = { .is_allocated = true, .size }`. -/
def assignAlloc (addr : Address) (size : BitVec 32) : Memory :=
  store32 (store8 (assignEntry m entry etSysDynAlloc addr) (entry + 12) 1) (entry + 16) size

/-- The first difference, 0 when there is none. -/
def memcmp (p : Address) : List (BitVec 8) → BitVec 32
  | [] => 0
  | b::bytes =>
      let diff := b.setWidth 32 - (m p).setWidth 32
      if diff ≠ 0 then diff else memcmp (p + 1) bytes

end

/-! ## The chain -/

section
variable (stackCeiling : Address)

def getFirstMemoryEntry : Address := stackCeiling - 24

/-- A chain of more nodes than there are addresses has no end. -/
def chainBound : ℕ := 2 ^ 32

/-- The loop of the lookups: the first entry that is looked for, or NULL. -/
def lookup (s : Store) (found : Address → Bool) : Option Address :=
  walk (entryNext s.memory) 0 found chainBound (getFirstMemoryEntry stackCeiling)

def matchesLabel (m : Memory) (name : List (BitVec 8)) (entry : Address) : Bool :=
  memoryEntryIsLabel m entry && (labelNameLen m entry).toNat == name.length &&
    memcmp m (entry + 13) name == 0

def memoryLookupLabel (s : Store) (name : List (BitVec 8)) : Option Address :=
  lookup stackCeiling s (matchesLabel s.memory name)

def matchesAddress (m : Memory) (ptr : Address) (entry : Address) : Bool :=
  if !memoryEntryIsLabel m entry then false
  else if memoryEntryIsCodeLabel m entry then
    armAddressSetThumbIntwrkBit (entryAddr m entry) true == ptr ||
      armAddressSetThumbIntwrkBit (entryAddr m entry) false == ptr
  else entryAddr m entry == ptr

def memoryRlookupLabel (s : Store) (ptr : Address) : Option Address :=
  lookup stackCeiling s (matchesAddress s.memory ptr)

def matchesSection (m : Memory) (ptr : Address) (entry : Address) : Bool :=
  if !memoryEntryIsSection m entry then false
  else
    let secStart := entryAddr m entry
    let secEnd := secStart + sectionSize m entry
    secStart ≤ ptr && ptr ≤ secEnd

def memoryLookupSection (s : Store) (ptr : Address) : Option Address :=
  lookup stackCeiling s (matchesSection s.memory ptr)

def isFreeAllocation (m : Memory) (size : BitVec 32) (entry : Address) : Bool :=
  if !memoryEntryIsAllocation m entry || allocIsAllocated m entry then false
  else size ≤ allocSize m entry

def findFreeAllocation (s : Store) (size : BitVec 32) : Option Address :=
  lookup stackCeiling s (isFreeAllocation s.memory size)

end

/-! ## Creating entries -/

/-- Below the last entry, with as many entries of room in between as the extra
size takes. -/
def createMemoryEntry (s : Store) (extraSize : BitVec 32) : Option (Address × Store) :=
  let extraSizeInMemoryEntries : BitVec 32 :=
    extraSize / 24 + if extraSize % 24 = 0 then 0 else 1
  if 24 * (extraSizeInMemoryEntries.toNat + 1) < s.lastMemoryEntry.toNat then
    let result := s.lastMemoryEntry - 24 - extraSizeInMemoryEntries * 24
    some
      (result,{ memory := store32 s.memory (s.lastMemoryEntry + 4) result
                lastMemoryEntry := result })
  else none

section
variable (stackCeiling userStart : Address)

/-- The link to the first entry is written as if there was an entry before it. -/
def memoryInit (memory : Memory) : Option Store := do
  let (entry,s) ← createMemoryEntry
    { memory, lastMemoryEntry := getFirstMemoryEntry stackCeiling + 24 } 0
  some { s with memory := assignEntry s.memory entry etSection userStart }

def memoryCreateLabel (s : Store) (name : List (BitVec 8)) (ptr : Address) (isCode : Bool) :
    Option (Bool × Store) :=
  if name.length = 0 ∨ maxNameLen < name.length then some (false,s)
  else do
    let existing ← memoryLookupLabel stackCeiling s name
    if existing ≠ 0 then some (false,s)
    else do
      let (newLabel,s) ← createMemoryEntry s 0
      let m := assignEntry s.memory newLabel (if isCode then etLabelCode else etLabelData) ptr
      let m := store8 m (newLabel + 12) (BitVec.ofNat 8 name.length)
      let m := storeBytes m (newLabel + 13) name
      let m :=
        if isCode then
          store32 m (newLabel + 8) (armAddressSetThumbIntwrkBit (entryAddr m newLabel) true)
        else m
      some (true,{ s with memory := m })

def memoryUpdateSectionSize (s : Store) (sectionEntry : Address) (newSize : BitVec 32) :
    Option Store :=
  if memoryEntryIsSection s.memory sectionEntry then
    some { s with memory := store32 s.memory (sectionEntry + 12) newSize }
  else none

/-! ## Allocations -/

def memorySysAlloc (s : Store) (size : BitVec 32) : Option (Address × Store) := do
  let newAlloc ← findFreeAllocation stackCeiling s size
  if newAlloc ≠ 0 then
    let m := store8 s.memory (newAlloc + 12) 1
    some (entryAddr m newAlloc,{ s with memory := m })
  else do
    let originalLast := s.lastMemoryEntry
    let (newAlloc,s) ← createMemoryEntry s size
    let addr := newAlloc + 24
    let actualSize := originalLast - addr
    let m := assignAlloc s.memory newAlloc addr actualSize
    some (entryAddr m newAlloc,{ s with memory := m })

def memorySysFree (s : Store) (ptr : Address) : Option Store :=
  let allocEntry := ptr - 24
  if entryType s.memory allocEntry = etSysDynAlloc ∧ allocIsAllocated s.memory allocEntry then
    some { s with memory := store8 s.memory (allocEntry + 12) 0 }
  else none

end

end TwMonitor.EntryStore
