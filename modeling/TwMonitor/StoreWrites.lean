import TwMonitor.StoreRuns
import TwMonitor.WriteLog

/-!
# Where the store writes

The functions of the store once more, with a log of the bytes that they write. A
link is written to the entry before the new one, and the first entry has none
before it: its link goes to the stack. Everything else stays below the stack
ceiling.
-/
namespace TwMonitor.EntryStore
open ByteMemory WriteLog
open MemoryStore (maxNameLen armAddressSetThumbIntwrkBit)

structure Trace where
  store : Store
  writes : Log := []

/-- A statement that writes these bytes. -/
def Trace.put (t : Trace) (start : Address) (length : ℕ) (f : Memory → Memory) : Trace where
  store := { t.store with memory := f t.store.memory }
  writes := t.writes ++ [{ start, length }]

def createMemoryEntryTraced (t : Trace) (extraSize : BitVec 32) : Option (Address × Trace) :=
  let extraSizeInMemoryEntries : BitVec 32 :=
    extraSize / 24 + if extraSize % 24 = 0 then 0 else 1
  if 24 * (extraSizeInMemoryEntries.toNat + 1) < t.store.lastMemoryEntry.toNat then
    let result := t.store.lastMemoryEntry - 24 - extraSizeInMemoryEntries * 24
    let link := t.store.lastMemoryEntry + 4
    let t := t.put link 4 fun m => store32 m link result
    some (result,{ t with store := { t.store with lastMemoryEntry := result } })
  else none

section
variable (stackCeiling userStart : Address)

def memoryInitTraced (memory : Memory) : Option Trace := do
  let (entry,t) ← createMemoryEntryTraced
    { store := { memory, lastMemoryEntry := getFirstMemoryEntry stackCeiling + 24 } } 0
  some (t.put entry 24 fun m => assignEntry m entry etSection userStart)

def memoryCreateLabelTraced (t : Trace) (name : List (BitVec 8)) (ptr : Address)
    (isCode : Bool) : Option (Bool × Trace) :=
  if name.length = 0 ∨ maxNameLen < name.length then some (false,t)
  else do
    let existing ← memoryLookupLabel stackCeiling t.store name
    if existing ≠ 0 then some (false,t)
    else do
      let (newLabel,t) ← createMemoryEntryTraced t 0
      let t := t.put newLabel 24 fun m =>
        assignEntry m newLabel (if isCode then etLabelCode else etLabelData) ptr
      let t := t.put (newLabel + 12) 1 fun m =>
        store8 m (newLabel + 12) (BitVec.ofNat 8 name.length)
      let t := t.put (newLabel + 13) name.length fun m => storeBytes m (newLabel + 13) name
      let t :=
        if isCode then
          t.put (newLabel + 8) 4 fun m =>
            store32 m (newLabel + 8) (armAddressSetThumbIntwrkBit (entryAddr m newLabel) true)
        else t
      some (true,t)

def memoryUpdateSectionSizeTraced (t : Trace) (sectionEntry : Address) (newSize : BitVec 32) :
    Option Trace :=
  if memoryEntryIsSection t.store.memory sectionEntry then
    some (t.put (sectionEntry + 12) 4 fun m => store32 m (sectionEntry + 12) newSize)
  else none

def memorySysAllocTraced (t : Trace) (size : BitVec 32) : Option (Address × Trace) := do
  let newAlloc ← findFreeAllocation stackCeiling t.store size
  if newAlloc ≠ 0 then
    let t := t.put (newAlloc + 12) 1 fun m => store8 m (newAlloc + 12) 1
    some (entryAddr t.store.memory newAlloc,t)
  else do
    let originalLast := t.store.lastMemoryEntry
    let (newAlloc,t) ← createMemoryEntryTraced t size
    let addr := newAlloc + 24
    let actualSize := originalLast - addr
    let t := t.put newAlloc 24 fun m => assignAlloc m newAlloc addr actualSize
    some (entryAddr t.store.memory newAlloc,t)

def memorySysFreeTraced (t : Trace) (ptr : Address) : Option Trace :=
  let allocEntry := ptr - 24
  if entryType t.store.memory allocEntry = etSysDynAlloc ∧
      allocIsAllocated t.store.memory allocEntry then
    some (t.put (allocEntry + 12) 1 fun m => store8 m (allocEntry + 12) 0)
  else none

end

/-! ## Without the log -/

section
variable (stackCeiling userStart : Address) (t : Trace)

theorem createMemoryEntryTraced_store (extraSize : BitVec 32) :
    (createMemoryEntryTraced t extraSize).map (fun r => (r.1,r.2.store)) =
      createMemoryEntry t.store extraSize := by
  unfold createMemoryEntryTraced createMemoryEntry
  dsimp only
  rw [apply_ite (Option.map _)]
  rfl

theorem memoryInitTraced_store (memory : Memory) :
    (memoryInitTraced stackCeiling userStart memory).map Trace.store =
      memoryInit stackCeiling userStart memory := by
  unfold memoryInitTraced memoryInit
  have hcreate := createMemoryEntryTraced_store
    { store := { memory, lastMemoryEntry := getFirstMemoryEntry stackCeiling + 24 } } 0
  dsimp only at hcreate
  rw [← hcreate,Option.bind_eq_bind,Option.bind_eq_bind,Option.map_bind,Option.bind_map]
  rfl

theorem memoryCreateLabelTraced_store (name : List (BitVec 8)) (ptr : Address) (isCode : Bool) :
    (memoryCreateLabelTraced stackCeiling t name ptr isCode).map (fun r => (r.1,r.2.store)) =
      memoryCreateLabel stackCeiling t.store name ptr isCode := by
  unfold memoryCreateLabelTraced memoryCreateLabel
  rw [apply_ite (Option.map _),← createMemoryEntryTraced_store]
  congr 1
  cases memoryLookupLabel stackCeiling t.store name with
  | none => rfl
  | some existing =>
      simp only [Option.bind_eq_bind,Option.bind_some]
      rw [apply_ite (Option.map _),Option.map_bind,Option.bind_map]
      congr 2
      funext r
      cases isCode <;> rfl

theorem memoryUpdateSectionSizeTraced_store (sectionEntry : Address) (newSize : BitVec 32) :
    (memoryUpdateSectionSizeTraced t sectionEntry newSize).map Trace.store =
      memoryUpdateSectionSize t.store sectionEntry newSize := by
  unfold memoryUpdateSectionSizeTraced memoryUpdateSectionSize
  rw [apply_ite (Option.map _)]
  rfl

theorem memorySysAllocTraced_store (size : BitVec 32) :
    (memorySysAllocTraced stackCeiling t size).map (fun r => (r.1,r.2.store)) =
      memorySysAlloc stackCeiling t.store size := by
  unfold memorySysAllocTraced memorySysAlloc
  rw [← createMemoryEntryTraced_store]
  cases findFreeAllocation stackCeiling t.store size with
  | none => rfl
  | some newAlloc =>
      simp only [Option.bind_eq_bind,Option.bind_some]
      rw [apply_ite (Option.map _),Option.map_bind,Option.bind_map]
      rfl

theorem memorySysFreeTraced_store (ptr : Address) :
    (memorySysFreeTraced t ptr).map Trace.store = memorySysFree t.store ptr := by
  unfold memorySysFreeTraced memorySysFree
  dsimp only
  rw [apply_ite (Option.map _)]
  rfl

end

/-! ## What is written -/

/-- The log explains the memory, and all that is written is allowed. -/
structure Accounted (allowed : Address → Prop) (m : Memory) (t : Trace) : Prop where
  explained : Explains t.writes m t.store.memory
  within : ∀ a, Written t.writes a → allowed a

section
variable {allowed : Address → Prop} {m : Memory} {t t' : Trace} {p : Address}

theorem accounted_start (s : Store) : Accounted allowed s.memory { store := s } :=
  ⟨.refl s.memory,fun _ hwritten => absurd hwritten not_written_nil⟩

theorem Accounted.put (h : Accounted allowed m t) {start : Address} {length : ℕ}
    {f : Memory → Memory} (hf : ∀ m a, ¬ InRange start length a → f m a = m a)
    (hallowed : ∀ a, InRange start length a → allowed a) :
    Accounted allowed m (t.put start length f) := by
  refine ⟨h.explained.trans fun a ha => hf _ a ?_,fun a ha => ?_⟩
  · rwa [written_singleton] at ha
  · rcases written_append.mp ha with hbefore | hnew
    · exact h.within a hbefore
    · exact hallowed a (written_singleton.mp hnew)

/-- The one statement that writes is the link. -/
theorem createMemoryEntryTraced_eq_some {extraSize : BitVec 32}
    (h : createMemoryEntryTraced t extraSize = some (p,t')) :
    p.toNat + 24 ≤ t.store.lastMemoryEntry.toNat ∧
      t'.store.memory = store32 t.store.memory (t.store.lastMemoryEntry + 4) p ∧
      t'.writes = t.writes ++ [{ start := t.store.lastMemoryEntry + 4, length := 4 }] := by
  have herased : createMemoryEntry t.store extraSize = some (p,t'.store) := by
    rw [← createMemoryEntryTraced_store,h]
    rfl
  obtain ⟨n,-,-,hroom,-,hstore⟩ := createMemoryEntry_eq_some herased
  refine ⟨by omega,congrArg Store.memory hstore,?_⟩
  unfold createMemoryEntryTraced at h
  generalize (extraSize / 24 + if extraSize % 24 = 0 then 0 else 1 : BitVec 32) = entries at h
  dsimp only at h
  split at h
  · rw [← (Prod.mk.inj (Option.some.inj h)).2]
    rfl
  · exact absurd h (Option.some_ne_none _).symm

theorem createMemoryEntryTraced_accounted {extraSize : BitVec 32} (h : Accounted allowed m t)
    (hlink : ∀ a, InRange (t.store.lastMemoryEntry + 4) 4 a → allowed a)
    (hcreate : createMemoryEntryTraced t extraSize = some (p,t')) : Accounted allowed m t' := by
  obtain ⟨-,hmemory,hwrites⟩ := createMemoryEntryTraced_eq_some hcreate
  have hput := h.put (fun m a ha => store32_ne m p ha) hlink
  refine ⟨?_,?_⟩
  · rw [hmemory,hwrites]
    exact hput.explained
  · rw [hwrites]
    exact hput.within

end

/-- The byte is not one of the stack. -/
def BelowStack (stackCeiling a : Address) : Prop := a.toNat < stackCeiling.toNat

section
variable {stackCeiling : Address} {created : List Address} {s : Store} {t : Trace} {p : Address}

/-- Some bytes of an entry that lies below the stack. -/
theorem belowStack_of_entry {offset a : Address} {length : ℕ}
    (hp : p.toNat + 24 ≤ stackCeiling.toNat) (hlength : offset.toNat + length ≤ 24)
    (ha : InRange (p + offset) length a) : BelowStack stackCeiling a := by
  have hceiling := stackCeiling.isLt
  unfold InRange at ha
  unfold BelowStack
  bv_omega

theorem belowStack_of_header {a : Address} (hp : p.toNat + 24 ≤ stackCeiling.toNat)
    (ha : InRange p 24 a) : BelowStack stackCeiling a := by
  rw [← BitVec.add_zero p] at ha
  exact belowStack_of_entry hp (by decide) ha

/-- A statement that writes some bytes of an entry. -/
theorem Accounted.putEntry {m : Memory} (h : Accounted (BelowStack stackCeiling) m t)
    (hp : p.toNat + 24 ≤ stackCeiling.toNat) (offset : Address) (length : ℕ)
    {f : Memory → Memory} (hf : ∀ m a, ¬ InRange (p + offset) length a → f m a = m a)
    (hlength : offset.toNat + length ≤ 24) :
    Accounted (BelowStack stackCeiling) m (t.put (p + offset) length f) :=
  h.put hf fun _ ha => belowStack_of_entry hp hlength ha

/-- The same for all bytes of the entry. -/
theorem Accounted.putHeader {m : Memory} (h : Accounted (BelowStack stackCeiling) m t)
    (hp : p.toNat + 24 ≤ stackCeiling.toNat) {f : Memory → Memory}
    (hf : ∀ m a, ¬ InRange p 24 a → f m a = m a) :
    Accounted (BelowStack stackCeiling) m (t.put p 24 f) :=
  h.put hf fun _ ha => belowStack_of_header hp ha

theorem Layout.entry_below (hl : Layout stackCeiling created s) (hp : p ∈ created) :
    p.toNat + 24 ≤ stackCeiling.toNat := by
  have hbounds := (hl.bounds hp).2
  have hsize := footprint_ge s.memory p
  omega

/-- A link that is written to an entry of the store. -/
theorem createMemoryEntryTraced_below (hl : Layout stackCeiling created s)
    {extraSize : BitVec 32} (hcreate : createMemoryEntryTraced { store := s } extraSize =
      some (p,t)) :
    Accounted (BelowStack stackCeiling) s.memory t ∧ p.toNat + 24 ≤ stackCeiling.toNat := by
  have hlast := hl.entry_below hl.last_mem
  have hlink (a : Address) (ha : InRange (s.lastMemoryEntry + 4) 4 a) :
      BelowStack stackCeiling a := belowStack_of_entry hlast (by decide) ha
  have hroom : p.toNat + 24 ≤ s.lastMemoryEntry.toNat :=
    (createMemoryEntryTraced_eq_some hcreate).1
  exact ⟨createMemoryEntryTraced_accounted (accounted_start s) hlink hcreate,by omega⟩

theorem memoryCreateLabelTraced_below (hl : Layout stackCeiling created s)
    {name : List (BitVec 8)} {ptr : Address} {isCode ok : Bool}
    (h : memoryCreateLabelTraced stackCeiling { store := s } name ptr isCode = some (ok,t)) :
    Accounted (BelowStack stackCeiling) s.memory t := by
  unfold memoryCreateLabelTraced at h
  split at h
  · obtain ⟨-,rfl⟩ := Prod.mk.inj (Option.some.inj h)
    exact accounted_start s
  · next hname =>
      obtain ⟨existing,-,h⟩ := Option.bind_eq_some_iff.mp h
      split at h
      · obtain ⟨-,rfl⟩ := Prod.mk.inj (Option.some.inj h)
        exact accounted_start s
      · obtain ⟨⟨newLabel,t₁⟩,hcreate,h⟩ := Option.bind_eq_some_iff.mp h
        obtain ⟨haccounted,hbelow⟩ := createMemoryEntryTraced_below hl hcreate
        have hlen : name.length ≤ 8 := not_lt.mp fun hlong => hname (Or.inr hlong)
        have hheader := haccounted.putHeader hbelow fun m a ha =>
          assignEntry_frame m newLabel (if isCode then etLabelCode else etLabelData) ptr ha
        have hnameLen := hheader.putEntry hbelow 12 1
          (fun m a ha => store8_frame m (BitVec.ofNat 8 name.length) ha) (by decide)
        have hbytes := hnameLen.putEntry hbelow 13 name.length
          (fun m a ha => storeBytes_frame m (newLabel + 13) name ha)
          (by change 13 + name.length ≤ 24; omega)
        obtain ⟨-,rfl⟩ := Prod.mk.inj (Option.some.inj h)
        cases isCode with
        | true => exact hbytes.putEntry hbelow 8 4 (fun m a ha => store32_ne m _ ha) (by decide)
        | false => exact hbytes

theorem memoryUpdateSectionSizeTraced_below (hp : p.toNat + 24 ≤ stackCeiling.toNat)
    {newSize : BitVec 32}
    (h : memoryUpdateSectionSizeTraced { store := s } p newSize = some t) :
    Accounted (BelowStack stackCeiling) s.memory t := by
  unfold memoryUpdateSectionSizeTraced at h
  split at h
  · obtain rfl := Option.some.inj h
    exact (accounted_start s).putEntry hp 12 4 (fun m a ha => store32_ne m newSize ha) (by decide)
  · exact absurd h (Option.some_ne_none _).symm

theorem memorySysAllocTraced_below (hl : Layout stackCeiling created s) {size : BitVec 32}
    {ptr : Address}
    (h : memorySysAllocTraced stackCeiling { store := s } size = some (ptr,t)) :
    Accounted (BelowStack stackCeiling) s.memory t := by
  obtain ⟨newAlloc,hfind,h⟩ := Option.bind_eq_some_iff.mp h
  split at h
  · next hfound =>
      obtain ⟨-,rfl⟩ := Prod.mk.inj (Option.some.inj h)
      have hmem := (hl.lookup_mem hfind hfound).1
      exact (accounted_start s).putEntry (hl.entry_below hmem) 12 1
        (fun m a ha => store8_frame m 1 ha) (by decide)
  · obtain ⟨⟨e,t₁⟩,hcreate,h⟩ := Option.bind_eq_some_iff.mp h
    obtain ⟨haccounted,hbelow⟩ := createMemoryEntryTraced_below hl hcreate
    obtain ⟨-,rfl⟩ := Prod.mk.inj (Option.some.inj h)
    exact haccounted.putHeader hbelow fun m a ha =>
      assignAlloc_frame m e (e + 24) (s.lastMemoryEntry - (e + 24)) ha

theorem memorySysFreeTraced_below {ptr : Address} (hp : (ptr - 24).toNat + 24 ≤ stackCeiling.toNat)
    (h : memorySysFreeTraced { store := s } ptr = some t) :
    Accounted (BelowStack stackCeiling) s.memory t := by
  unfold memorySysFreeTraced at h
  dsimp only at h
  split at h
  · obtain rfl := Option.some.inj h
    exact (accounted_start s).putEntry hp 12 1 (fun m a ha => store8_frame m 0 ha) (by decide)
  · exact absurd h (Option.some_ne_none _).symm

end

/-! ## The first step -/

section
variable {stackCeiling userStart : Address} {memory : Memory} {t : Trace}

theorem firstLink_not_below {a : Address} (haligned : 8 ∣ stackCeiling.toNat)
    (ha : InRange (stackCeiling + 4) 4 a) : ¬ BelowStack stackCeiling a := by
  have hlt := stackCeiling.isLt
  unfold InRange at ha
  unfold BelowStack
  bv_omega

/-- The link of the first entry is written where the stack ends. -/
theorem memoryInitTraced_writes (h : memoryInitTraced stackCeiling userStart memory = some t) :
    Accounted (fun a => BelowStack stackCeiling a ∨ InRange (stackCeiling + 4) 4 a) memory t ∧
      ∀ a, InRange (stackCeiling + 4) 4 a → Written t.writes a := by
  obtain ⟨⟨entry,t₁⟩,hcreate,h⟩ := Option.bind_eq_some_iff.mp h
  obtain rfl := Option.some.inj h
  have hceiling : getFirstMemoryEntry stackCeiling + 24 = stackCeiling :=
    BitVec.sub_add_cancel stackCeiling 24
  rw [hceiling] at hcreate
  obtain ⟨hroom,-,hwrites⟩ := createMemoryEntryTraced_eq_some hcreate
  constructor
  · refine Accounted.put (createMemoryEntryTraced_accounted
      (accounted_start { memory, lastMemoryEntry := stackCeiling }) (fun a ha => Or.inr ha)
      hcreate) (fun m a ha => assignEntry_frame m entry etSection userStart ha) fun a ha => ?_
    exact Or.inl (belowStack_of_header hroom ha)
  · intro a ha
    refine written_append.mpr (Or.inl ?_)
    rw [hwrites]
    exact written_singleton.mpr ha

end

/-! ## Runs -/

/-- A call, with what the function has written. -/
inductive LoggedCall (stackCeiling : Address) (g : History) : Log → History → Prop
  | createLabel (call : LabelCall) {ok : Bool} {t : Trace} :
      memoryCreateLabelTraced stackCeiling { store := g.store } call.name call.ptr call.isCode =
        some (ok,t) →
      LoggedCall stackCeiling g t.writes
        { g with
          store := t.store
          created := g.created ++ newEntries g.store t.store
          labels := if ok then g.labels ++ [call] else g.labels }
  | sysAlloc (size : BitVec 32) {ptr : Address} {t : Trace} :
      memorySysAllocTraced stackCeiling { store := g.store } size = some (ptr,t) →
      LoggedCall stackCeiling g t.writes
        { g with
          store := t.store
          created := g.created ++ newEntries g.store t.store
          live := g.live ++ [{ ptr, size }] }
  | sysFree {block : Block} {t : Trace} : block ∈ g.live →
      memorySysFreeTraced { store := g.store } block.ptr = some t →
      LoggedCall stackCeiling g t.writes
        { g with store := t.store, live := g.live.erase block }
  | updateSectionSize {entry : Address} (newSize : BitVec 32) {t : Trace} : entry ∈ g.created →
      memoryUpdateSectionSizeTraced { store := g.store } entry newSize = some t →
      LoggedCall stackCeiling g t.writes { g with store := t.store }

/-- Between the calls others may write, but not to the entries. -/
inductive LoggedRun (stackCeiling : Address) (start : History) : Log → History → Prop
  | start : LoggedRun stackCeiling start [] start
  | call {log log' : Log} {g g' : History} : LoggedRun stackCeiling start log g →
      LoggedCall stackCeiling g log' g' → LoggedRun stackCeiling start (log ++ log') g'
  | other {log : Log} {g : History} (m : Memory) : LoggedRun stackCeiling start log g →
      (∀ p ∈ g.created, Agree 24 g.store.memory m p) →
      LoggedRun stackCeiling start log { g with store := { g.store with memory := m } }

section
variable {stackCeiling userStart : Address} {memory : Memory} {t : Trace} {g g' start : History}
  {log : Log}

theorem LoggedCall.storeStep (h : LoggedCall stackCeiling g log g') :
    StoreStep stackCeiling g g' := by
  cases h with
  | createLabel call h =>
      refine .createLabel call ?_
      rw [← memoryCreateLabelTraced_store stackCeiling { store := g.store },h]
      rfl
  | sysAlloc size h =>
      refine .sysAlloc size ?_
      rw [← memorySysAllocTraced_store stackCeiling { store := g.store },h]
      rfl
  | sysFree hblock h =>
      refine .sysFree hblock ?_
      rw [← memorySysFreeTraced_store { store := g.store },h]
      rfl
  | updateSectionSize newSize hentry h =>
      refine .updateSectionSize newSize hentry ?_
      rw [← memoryUpdateSectionSizeTraced_store { store := g.store },h]
      rfl

/-- A call writes below the stack, and it changes nothing that it does not write. -/
theorem LoggedCall.spares_stack (hc : Coherent stackCeiling g)
    (h : LoggedCall stackCeiling g log g') :
    Explains log g.store.memory g'.store.memory ∧
      ∀ a, Written log a → BelowStack stackCeiling a := by
  cases h with
  | createLabel call h =>
      have hbelow := memoryCreateLabelTraced_below hc.layout h
      exact ⟨hbelow.explained,hbelow.within⟩
  | sysAlloc size h =>
      have hbelow := memorySysAllocTraced_below hc.layout h
      exact ⟨hbelow.explained,hbelow.within⟩
  | sysFree hblock h =>
      have hheader := hc.layout.entry_below (hc.headed _ hblock).mem
      have hbelow := memorySysFreeTraced_below hheader h
      exact ⟨hbelow.explained,hbelow.within⟩
  | updateSectionSize newSize hentry h =>
      have hbelow := memoryUpdateSectionSizeTraced_below (hc.layout.entry_below hentry) h
      exact ⟨hbelow.explained,hbelow.within⟩

theorem LoggedRun.spares_stack (hc : Coherent stackCeiling start)
    (h : LoggedRun stackCeiling start log g) :
    Coherent stackCeiling g ∧ ∀ a, Written log a → BelowStack stackCeiling a := by
  induction h with
  | start => exact ⟨hc,fun a ha => absurd ha not_written_nil⟩
  | call _ hcall ih =>
      refine ⟨ih.1.step hcall.storeStep,fun a ha => ?_⟩
      rcases written_append.mp ha with hbefore | hnew
      · exact ih.2 a hbefore
      · exact (hcall.spares_stack ih.1).2 a hnew
  | other m _ hagree ih => exact ⟨ih.1.write hagree,ih.2⟩

theorem coherent_traced (h : memoryInitTraced stackCeiling userStart memory = some t) :
    Coherent stackCeiling (historyInit t.store) := by
  refine @coherent_init stackCeiling userStart memory t.store ?_
  rw [← memoryInitTraced_store,h]
  rfl

/-- The bytes of the first link are those of the stack that are written. -/
theorem LoggedRun.stack_writes_iff
    (hinit : memoryInitTraced stackCeiling userStart memory = some t)
    (haligned : 8 ∣ stackCeiling.toNat)
    (hrun : LoggedRun stackCeiling (historyInit t.store) log g) (a : Address) :
    Written (t.writes ++ log) a ∧ ¬ BelowStack stackCeiling a ↔
      InRange (stackCeiling + 4) 4 a := by
  obtain ⟨hfirst,hlink⟩ := memoryInitTraced_writes hinit
  have hbelow := (hrun.spares_stack (coherent_traced hinit)).2
  rw [written_append]
  constructor
  · rintro ⟨hinitial | hlater,hnot⟩
    · exact (hfirst.within a hinitial).resolve_left hnot
    · exact absurd (hbelow a hlater) hnot
  · exact fun ha => ⟨Or.inl (hlink a ha),firstLink_not_below haligned ha⟩

/-- No run of the store stays below the stack, whatever is written after the start.
The four bytes of the first link are the only ones of the stack that are written. -/
theorem storeWrites_stack (hinit : memoryInitTraced stackCeiling userStart memory = some t)
    (haligned : 8 ∣ stackCeiling.toNat) :
    (∀ later : Log, ¬ ∀ a, Written (t.writes ++ later) a → BelowStack stackCeiling a) ∧
      ∀ (log : Log) (g : History), LoggedRun stackCeiling (historyInit t.store) log g →
        (∀ a, Written (t.writes ++ log) a ∧ ¬ BelowStack stackCeiling a ↔
          InRange (stackCeiling + 4) 4 a) ∧
        ∀ a, Written log a → BelowStack stackCeiling a := by
  refine ⟨fun later hall => ?_,fun log g hrun => ⟨hrun.stack_writes_iff hinit haligned,?_⟩⟩
  · have hin : InRange (stackCeiling + 4) 4 (stackCeiling + 4) := by
      rw [InRange,BitVec.sub_self]
      decide
    have hwritten := (memoryInitTraced_writes hinit).2 _ hin
    exact firstLink_not_below haligned hin (hall _ (written_append.mpr (Or.inl hwritten)))
  · exact (hrun.spares_stack (coherent_traced hinit)).2

end

/-- A label is created, and the store has written to 516, above its ceiling. -/
theorem storeWrites_stack_label : ∃ (t : Trace) (log : Log) (g : History),
    memoryInitTraced 512 1024 (fun _ => 0) = some t ∧
      LoggedRun 512 (historyInit t.store) log g ∧
      t.writes ++ log = [⟨516,4⟩,⟨488,24⟩,⟨492,4⟩,⟨464,24⟩,⟨476,1⟩,⟨477,1⟩,⟨472,4⟩] ∧
      ¬ ∀ a, Written (t.writes ++ log) a → BelowStack 512 a := by
  have hrun : LoggedRun 512 (historyInit ((memoryInitTraced 512 1024 fun _ => 0).get rfl).store)
      _ _ := .call .start (.createLabel ⟨[97],2000,true⟩ rfl)
  exact ⟨_,_,_,rfl,hrun,by decide,(storeWrites_stack rfl (by decide)).1 _⟩

/-- The four bytes at 516 hold the address of the first entry. -/
theorem memoryInit_overwrites_stack : ∃ t : Trace,
    memoryInitTraced 512 1024 (fun _ => 0) = some t ∧ Written t.writes 516 ∧
      ¬ BelowStack 512 516 ∧ t.store.memory 516 = 0xE8 ∧
      ¬ ∀ a, Written t.writes a → BelowStack 512 a := by
  have hwritten : Written [⟨516,4⟩,⟨488,24⟩] 516 := ⟨⟨516,4⟩,List.mem_cons_self,by decide⟩
  have hnot : ¬ BelowStack 512 516 := by
    unfold BelowStack
    decide
  exact ⟨_,rfl,hwritten,hnot,by decide,fun hall => hnot (hall 516 hwritten)⟩

end TwMonitor.EntryStore
