import TwMonitor.EntryLayout

/-!
# What the operations do to the entries

Each operation adds an entry, updates the union of one, or leaves the store as it
is. What the bytes of an entry say is an entry of the chain as the lookups see it.
-/
namespace TwMonitor.EntryStore
open ByteMemory NullChain
open MemoryStore (EntryType MemoryEntry LabelName maxNameLen armAddressSetThumbIntwrkBit)
open WordBlocks (cleared)

/-! ## Assigning an entry -/

section
variable (m : Memory) (p : Address) (type : BitVec 8) (addr : Address) (size : BitVec 32)

theorem assignEntry_frame {a : Address} (h : ¬ InRange p 24 a) :
    assignEntry m p type addr a = m a := by
  unfold InRange at h
  have htype : a ≠ p := by bv_omega
  have haddr : ¬ InRange (p + 8) 4 a := by unfold InRange; bv_omega
  rw [assignEntry,store32_ne _ _ haddr,store8_ne _ _ htype,cleared,if_neg h]

theorem entryType_assignEntry : entryType (assignEntry m p type addr) p = type := by
  have haddr : ¬ InRange (p + 8) 4 p := by unfold InRange; bv_omega
  rw [entryType,assignEntry,store32_ne _ _ haddr,store8_same]

/-- A byte that is not named. -/
theorem assignEntry_cleared {a : Address} (hin : InRange p 24 a) (htype : a ≠ p)
    (haddr : ¬ InRange (p + 8) 4 a) : assignEntry m p type addr a = 0 := by
  rw [assignEntry,store32_ne _ _ haddr,store8_ne _ _ htype]
  exact if_pos hin

theorem load32_assignEntry {a : Address} (ha : a = p + 4 ∨ a = p + 12) :
    load32 (assignEntry m p type addr) a = 0 := by
  refine load32_zero fun i hi => assignEntry_cleared m p type addr ?_ ?_ ?_
  · unfold InRange
    rcases ha with rfl | rfl <;> bv_omega
  · rcases ha with rfl | rfl <;> bv_omega
  · unfold InRange
    rcases ha with rfl | rfl <;> bv_omega

theorem entryNext_assignEntry : entryNext (assignEntry m p type addr) p = 0 :=
  load32_assignEntry m p type addr (Or.inl rfl)

theorem entryAddr_assignEntry : entryAddr (assignEntry m p type addr) p = addr := by
  rw [entryAddr,assignEntry,load32_store32]

theorem sectionSize_assignEntry : sectionSize (assignEntry m p type addr) p = 0 :=
  load32_assignEntry m p type addr (Or.inr rfl)

/-- An allocation differs from an entry without a union in its flag and its size. -/
theorem assignAlloc_eq {a : Address} (hflag : a ≠ p + 12) (hsize : ¬ InRange (p + 16) 4 a) :
    assignAlloc m p addr size a = assignEntry m p etSysDynAlloc addr a := by
  rw [assignAlloc,store32_ne _ _ hsize,store8_ne _ _ hflag]

theorem assignAlloc_frame {a : Address} (h : ¬ InRange p 24 a) :
    assignAlloc m p addr size a = m a := by
  rw [assignAlloc_eq,assignEntry_frame _ _ _ _ h]
  · unfold InRange at h
    bv_omega
  · unfold InRange at h ⊢
    bv_omega

theorem entryType_assignAlloc : entryType (assignAlloc m p addr size) p = etSysDynAlloc := by
  rw [entryType,assignAlloc_eq]
  · exact entryType_assignEntry m p etSysDynAlloc addr
  · bv_omega
  · unfold InRange
    bv_omega

theorem entryNext_assignAlloc : entryNext (assignAlloc m p addr size) p = 0 := by
  rw [← entryNext_assignEntry m p etSysDynAlloc addr]
  refine load32_congr fun a ha => assignAlloc_eq m p addr size ?_ ?_
  · unfold InRange at ha
    bv_omega
  · unfold InRange at ha ⊢
    bv_omega

theorem entryAddr_assignAlloc : entryAddr (assignAlloc m p addr size) p = addr := by
  rw [← entryAddr_assignEntry m p etSysDynAlloc addr]
  refine load32_congr fun a ha => ?_
  rw [assignAlloc_eq,entryAddr_assignEntry]
  · unfold InRange at ha
    bv_omega
  · unfold InRange at ha ⊢
    bv_omega

theorem allocIsAllocated_assignAlloc :
    allocIsAllocated (assignAlloc m p addr size) p = true := by
  have hsize : ¬ InRange (p + 16) 4 (p + 12) := by unfold InRange; bv_omega
  rw [allocIsAllocated,assignAlloc,store32_ne _ _ hsize,store8_same]
  rfl

theorem allocSize_assignAlloc : allocSize (assignAlloc m p addr size) p = size := by
  rw [allocSize,assignAlloc,load32_store32]

end

/-! ## Writing a label -/

/-- The bytes that `memory_create_label` writes once it has a new entry. -/
def labelMemory (m : Memory) (newLabel : Address) (name : List (BitVec 8)) (ptr : Address)
    (isCode : Bool) : Memory :=
  let m := assignEntry m newLabel (if isCode then etLabelCode else etLabelData) ptr
  let m := store8 m (newLabel + 12) (BitVec.ofNat 8 name.length)
  let m := storeBytes m (newLabel + 13) name
  if isCode then
    store32 m (newLabel + 8) (armAddressSetThumbIntwrkBit (entryAddr m newLabel) true)
  else m

/-- The address that a label stands for. -/
def labelAddr (ptr : Address) (isCode : Bool) : Address :=
  if isCode then armAddressSetThumbIntwrkBit ptr true else ptr

section
variable (m : Memory) (p : Address) {name : List (BitVec 8)} (ptr : Address) (isCode : Bool)

/-- Outside of the address and of the union there is the entry as it was assigned. -/
theorem labelMemory_eq (hname : name.length ≤ maxNameLen) {a : Address}
    (h : ¬ InRange (p + 8) 13 a) : labelMemory m p name ptr isCode a =
      assignEntry m p (if isCode then etLabelCode else etLabelData) ptr a := by
  unfold maxNameLen at hname
  unfold InRange at h
  have haddr : ¬ InRange (p + 8) 4 a := by unfold InRange; bv_omega
  have hlen : a ≠ p + 12 := by bv_omega
  have hbytes : ¬ InRange (p + 13) name.length a := by unfold InRange; bv_omega
  rw [labelMemory]
  split
  · rw [store32_ne _ _ haddr,storeBytes_frame _ _ _ hbytes,store8_ne _ _ hlen]
  · rw [storeBytes_frame _ _ _ hbytes,store8_ne _ _ hlen]

theorem labelMemory_frame (hname : name.length ≤ maxNameLen) {a : Address}
    (h : ¬ InRange p 24 a) : labelMemory m p name ptr isCode a = m a := by
  rw [labelMemory_eq m p ptr isCode hname,assignEntry_frame _ _ _ _ h]
  unfold InRange at h ⊢
  bv_omega

theorem entryType_labelMemory (hname : name.length ≤ maxNameLen) :
    entryType (labelMemory m p name ptr isCode) p =
      if isCode then etLabelCode else etLabelData := by
  rw [entryType,labelMemory_eq m p ptr isCode hname]
  · exact entryType_assignEntry _ _ _ _
  · unfold InRange
    bv_omega

theorem entryNext_labelMemory (hname : name.length ≤ maxNameLen) :
    entryNext (labelMemory m p name ptr isCode) p = 0 := by
  rw [← entryNext_assignEntry m p (if isCode then etLabelCode else etLabelData) ptr]
  refine load32_congr fun a ha => labelMemory_eq m p ptr isCode hname ?_
  unfold InRange at ha ⊢
  bv_omega

/-- The name and its length do not reach the address. -/
theorem entryAddr_named (hname : name.length ≤ maxNameLen) (type : BitVec 8) (len : BitVec 8) :
    entryAddr (storeBytes (store8 (assignEntry m p type ptr) (p + 12) len) (p + 13) name) p =
      ptr := by
  unfold maxNameLen at hname
  rw [← entryAddr_assignEntry m p type ptr]
  refine load32_congr fun a ha => ?_
  unfold InRange at ha
  have hlen : a ≠ p + 12 := by bv_omega
  have hbytes : ¬ InRange (p + 13) name.length a := by unfold InRange; bv_omega
  rw [storeBytes_frame _ _ _ hbytes,store8_ne _ _ hlen,entryAddr_assignEntry]

theorem entryAddr_labelMemory (hname : name.length ≤ maxNameLen) :
    entryAddr (labelMemory m p name ptr isCode) p = labelAddr ptr isCode := by
  cases isCode with
  | true =>
      rw [labelMemory,if_pos rfl,entryAddr,load32_store32,entryAddr_named _ _ _ hname]
      rfl
  | false => exact entryAddr_named m p ptr hname _ _

/-- The union of a label keeps its name when the address is written. -/
theorem labelMemory_union {a : Address} (h : InRange (p + 12) 9 a) :
    labelMemory m p name ptr isCode a =
      storeBytes (store8 (assignEntry m p (if isCode then etLabelCode else etLabelData) ptr)
        (p + 12) (BitVec.ofNat 8 name.length)) (p + 13) name a := by
  have haddr : ¬ InRange (p + 8) 4 a := by
    unfold InRange at h ⊢
    bv_omega
  rw [labelMemory]
  split
  · exact store32_ne _ _ haddr
  · rfl

theorem labelNameLen_labelMemory (hname : name.length ≤ maxNameLen) :
    (labelNameLen (labelMemory m p name ptr isCode) p).toNat = name.length := by
  unfold maxNameLen at hname
  have hbytes : ¬ InRange (p + 13) name.length (p + 12) := by unfold InRange; bv_omega
  rw [labelNameLen,labelMemory_union,storeBytes_frame _ _ _ hbytes,store8_same,
    BitVec.toNat_ofNat,Nat.mod_eq_of_lt (by omega)]
  unfold InRange
  bv_omega

theorem readBytes_labelMemory (hname : name.length ≤ maxNameLen) :
    readBytes (labelMemory m p name ptr isCode) (p + 13) name.length = name := by
  unfold maxNameLen at hname
  have hunion : ∀ a, InRange (p + 13) name.length a → InRange (p + 12) 9 a := by
    intro a ha
    unfold InRange at ha ⊢
    bv_omega
  rw [readBytes_congr (by omega) fun a ha => labelMemory_union m p ptr isCode (hunion a ha)]
  exact readBytes_storeBytes _ (p + 13) (by omega)

end

/-! ## What an entry says -/

/-- The entry of the chain that the bytes at the address are. -/
def Holds (m : Memory) (p : Address) (entry : MemoryEntry) : Prop :=
  entryAddr m p = entry.addr ∧
    match entry.type with
    | .etSection size => entryType m p = etSection ∧ sectionSize m p = size
    | .etLabelCode name => entryType m p = etLabelCode ∧
        (labelNameLen m p).toNat = name.bytes.length ∧
        readBytes m (p + 13) name.bytes.length = name.bytes
    | .etLabelData name => entryType m p = etLabelData ∧
        (labelNameLen m p).toNat = name.bytes.length ∧
        readBytes m (p + 13) name.bytes.length = name.bytes
    | .etSysDynAlloc isAllocated size => entryType m p = etSysDynAlloc ∧
        allocIsAllocated m p = isAllocated ∧ allocSize m p = size

/-- How the type of an entry is numbered. -/
def typeNumber : EntryType → BitVec 8
  | .etSection _ => etSection
  | .etLabelCode _ => etLabelCode
  | .etLabelData _ => etLabelData
  | .etSysDynAlloc _ _ => etSysDynAlloc

section
variable {m m' : Memory} {p : Address} {entry : MemoryEntry}

theorem Holds.entryType (h : Holds m p entry) :
    EntryStore.entryType m p = typeNumber entry.type := by
  obtain ⟨-,h⟩ := h
  match entry with
  | { type := .etSection size, addr } => exact h.1
  | { type := .etLabelCode name, addr } => exact h.1
  | { type := .etLabelData name, addr } => exact h.1
  | { type := .etSysDynAlloc isAllocated size, addr } => exact h.1

theorem AgreeButLink.holds (h : AgreeButLink m m' p) (hholds : Holds m p entry) :
    Holds m' p entry := by
  have hlen : labelNameLen m' p = labelNameLen m p := h.byte (by decide) (by decide)
  have hname (name : LabelName) : readBytes m' (p + 13) name.bytes.length =
      readBytes m (p + 13) name.bytes.length := by
    have hbound : name.bytes.length ≤ 8 := name.bounded
    refine readBytes_congr (by omega) fun a ha => h a ?_ ?_
    · unfold InRange at ha ⊢
      bv_omega
    · unfold InRange at ha ⊢
      bv_omega
  obtain ⟨haddr,htype⟩ := hholds
  refine ⟨h.entryAddr.trans haddr,?_⟩
  match entry with
  | { type := .etSection size, addr } =>
      exact ⟨h.entryType.trans htype.1,(h.load32 (by decide) (by decide)).trans htype.2⟩
  | { type := .etLabelCode name, addr } =>
      exact ⟨h.entryType.trans htype.1,(congrArg BitVec.toNat hlen).trans htype.2.1,
        (hname name).trans htype.2.2⟩
  | { type := .etLabelData name, addr } =>
      exact ⟨h.entryType.trans htype.1,(congrArg BitVec.toNat hlen).trans htype.2.1,
        (hname name).trans htype.2.2⟩
  | { type := .etSysDynAlloc isAllocated size, addr } =>
      exact ⟨h.entryType.trans htype.1,h.allocIsAllocated.trans htype.2.1,
        h.allocSize.trans htype.2.2⟩

end

/-! ## The operations -/

/-- A new entry that was linked and then written. -/
theorem Appended.of_frame {s : Store} {p : Address} {n : ℕ} {m : Memory}
    (hroom : p.toNat + 24 * (n + 1) = s.lastMemoryEntry.toNat) (hlow : 0 < p.toNat)
    (hend : s.lastMemoryEntry.toNat + 24 ≤ 2 ^ 32)
    (hframe : ∀ a, ¬ InRange p 24 a → m a = store32 s.memory (s.lastMemoryEntry + 4) p a)
    (hnull : entryNext m p = 0) (hsize : footprint m p = 24 * (n + 1))
    (hpayload : entryType m p = etSysDynAlloc → entryAddr m p = p + 24) :
    Appended (24 * (n + 1)) s { memory := m, lastMemoryEntry := p } where
  room := hroom
  low := hlow
  multiple := Nat.dvd_mul_right 24 (n + 1)
  size := hsize
  link := by
    have hlink := load32_store32 s.memory (s.lastMemoryEntry + 4) p
    rw [← hlink]
    refine load32_congr fun a ha => ?_
    rw [hlink]
    refine hframe a ?_
    unfold InRange at ha ⊢
    bv_omega
  null := hnull
  payload := hpayload
  keeps a hlast hnew := by
    change m a = s.memory a
    rw [hframe a hnew,store32_ne _ _ hlast]

section
variable {stackCeiling userStart : Address} {created : List Address} {s s' : Store}

theorem Layout.last_end (h : Layout stackCeiling created s) :
    s.lastMemoryEntry.toNat + 24 ≤ 2 ^ 32 := by
  have hle := (h.bounds h.last_mem).2
  have hsize := footprint_ge s.memory s.lastMemoryEntry
  have hlt := stackCeiling.isLt
  omega

theorem memoryInit_layout {memory : Memory}
    (h : memoryInit stackCeiling userStart memory = some s) :
    Layout stackCeiling [s.lastMemoryEntry] s ∧
      Holds s.memory s.lastMemoryEntry { type := .etSection 0, addr := userStart } := by
  rw [memoryInit,Option.bind_eq_bind,Option.bind_eq_some_iff] at h
  obtain ⟨⟨entry,s₁⟩,hcreate,h⟩ := h
  obtain ⟨n,-,hzero,hroom,hlow,rfl⟩ := createMemoryEntry_eq_some hcreate
  obtain rfl := Option.some.inj h
  obtain rfl := hzero rfl
  have hceiling : getFirstMemoryEntry stackCeiling + 24 = stackCeiling :=
    BitVec.sub_add_cancel stackCeiling 24
  simp only [hceiling] at hroom ⊢
  have hfirst : getFirstMemoryEntry stackCeiling = entry := by
    unfold getFirstMemoryEntry
    bv_omega
  have htype := entryType_assignEntry (store32 memory (stackCeiling + 4) entry) entry etSection
    userStart
  have hnext := entryNext_assignEntry (store32 memory (stackCeiling + 4) entry) entry etSection
    userStart
  have hfootprint : footprint (assignEntry (store32 memory (stackCeiling + 4) entry) entry etSection
      userStart) entry = 24 := by
    rw [footprint,htype]
    rfl
  have halloc : etSection ≠ etSysDynAlloc := by decide
  refine ⟨⟨⟨hfirst,hnext⟩,⟨?_,rfl⟩,hlow,⟨[],rfl⟩,?_,?_⟩,entryAddr_assignEntry _ _ _ _,htype,
    sectionSize_assignEntry _ _ _ _⟩
  · rw [hfootprint]
    exact hroom
  · intro p hp htypeAlloc
    obtain rfl := List.mem_singleton.mp hp
    exact absurd (htype.symm.trans htypeAlloc) halloc
  · intro p hp
    obtain rfl := List.mem_singleton.mp hp
    exact hfootprint ▸ dvd_rfl

/-- The entry that a label of this name is. -/
def labelEntry (name : LabelName) (ptr : Address) (isCode : Bool) : MemoryEntry where
  type := if isCode then .etLabelCode name else .etLabelData name
  addr := labelAddr ptr isCode

theorem labelEntry_not_alloc (name : LabelName) (ptr : Address) (isCode : Bool) :
    typeNumber (labelEntry name ptr isCode).type ≠ etSysDynAlloc := by
  cases isCode with
  | true => exact (by decide : etLabelCode ≠ etSysDynAlloc)
  | false => exact (by decide : etLabelData ≠ etSysDynAlloc)

theorem labelMemory_holds (m : Memory) (p : Address) (name : LabelName) (ptr : Address)
    (isCode : Bool) :
    Holds (labelMemory m p name.bytes ptr isCode) p (labelEntry name ptr isCode) := by
  have htype := entryType_labelMemory m p ptr isCode name.bounded
  have hlen := labelNameLen_labelMemory m p ptr isCode name.bounded
  have hname := readBytes_labelMemory m p ptr isCode name.bounded
  refine ⟨entryAddr_labelMemory m p ptr isCode name.bounded,?_⟩
  cases isCode with
  | true => exact ⟨htype,hlen,hname⟩
  | false => exact ⟨htype,hlen,hname⟩

/-- A label is refused and nothing changes, or it is added below the last entry. -/
theorem memoryCreateLabel_eq_some (hl : Layout stackCeiling created s)
    {name : List (BitVec 8)} {ptr : Address} {isCode ok : Bool}
    (h : memoryCreateLabel stackCeiling s name ptr isCode = some (ok,s')) :
    (ok = false ∧ s' = s ∧ (name.length = 0 ∨ maxNameLen < name.length ∨
      memoryLookupLabel stackCeiling s name ≠ some 0)) ∨
    (ok = true ∧ memoryLookupLabel stackCeiling s name = some 0 ∧ Appended 24 s s' ∧
      ∃ label : LabelName, label.bytes = name ∧
        Holds s'.memory s'.lastMemoryEntry (labelEntry label ptr isCode)) := by
  unfold memoryCreateLabel at h
  split at h
  · next hlen =>
      obtain ⟨rfl,rfl⟩ := Prod.mk.inj (Option.some.inj h)
      exact .inl ⟨rfl,rfl,hlen.imp_right .inl⟩
  · next hlen =>
      obtain ⟨hpos,hbound⟩ := not_or.mp hlen
      rw [Option.bind_eq_bind,Option.bind_eq_some_iff] at h
      obtain ⟨existing,hlookup,h⟩ := h
      split at h
      · next hexisting =>
          obtain ⟨rfl,rfl⟩ := Prod.mk.inj (Option.some.inj h)
          refine .inl ⟨rfl,rfl,.inr (.inr ?_)⟩
          rw [hlookup]
          exact fun he => hexisting (Option.some.inj he)
      · next hnone =>
          rw [Option.bind_eq_bind,Option.bind_eq_some_iff] at h
          obtain ⟨⟨p,s₁⟩,hcreate,h⟩ := h
          obtain ⟨n,-,hzero,hroom,hlow,rfl⟩ := createMemoryEntry_eq_some hcreate
          obtain ⟨rfl,rfl⟩ := Prod.mk.inj (Option.some.inj h)
          obtain rfl := hzero rfl
          have hname : name.length ≤ maxNameLen := Nat.le_of_not_lt hbound
          have htype := entryType_labelMemory (store32 s.memory (s.lastMemoryEntry + 4) p) p ptr
            isCode hname
          have hlabel : entryType (labelMemory (store32 s.memory (s.lastMemoryEntry + 4) p) p name
              ptr isCode) p ≠ etSysDynAlloc := by
            rw [htype]
            cases isCode <;> decide
          have hsize : footprint (labelMemory (store32 s.memory (s.lastMemoryEntry + 4) p) p name
              ptr isCode) p = 24 := by
            rw [footprint,if_neg hlabel]
          refine .inr ⟨rfl,?_,?_,⟨name,?_,hname⟩,rfl,?_⟩
          · rw [hlookup,not_not.mp hnone]
          · exact Appended.of_frame hroom hlow hl.last_end
              (fun a ha => labelMemory_frame _ p ptr isCode hname ha)
              (entryNext_labelMemory _ p ptr isCode hname) hsize fun halloc => absurd halloc hlabel
          · exact fun hnil => hpos (congrArg List.length hnil)
          · exact labelMemory_holds _ p ⟨name,_,hname⟩ ptr isCode

theorem updated_store8 (s : Store) (q : Address) (v : BitVec 8) :
    Updated q s { s with memory := store8 s.memory (q + 12) v } where
  last := rfl
  keeps a ha := by
    refine store8_ne _ _ ?_
    unfold InRange at ha
    bv_omega

theorem allocIsAllocated_store8 (m : Memory) (q : Address) (v : BitVec 8) :
    allocIsAllocated (store8 m (q + 12) v) q = (v != 0) := by
  rw [allocIsAllocated,store8_same]

theorem updated_store32 (s : Store) (q : Address) (v : BitVec 32) :
    Updated q s { s with memory := store32 s.memory (q + 12) v } where
  last := rfl
  keeps _ ha := store32_ne _ _ ha

theorem memoryUpdateSectionSize_eq_some {entry : Address} {newSize : BitVec 32}
    (h : memoryUpdateSectionSize s entry newSize = some s') :
    entryType s.memory entry = etSection ∧ Updated entry s s' ∧
      sectionSize s'.memory entry = newSize := by
  unfold memoryUpdateSectionSize at h
  split at h
  · next hsection =>
      obtain rfl := Option.some.inj h
      exact ⟨beq_iff_eq.mp hsection,updated_store32 s entry newSize,load32_store32 _ _ _⟩
  · exact absurd h (Option.some_ne_none _).symm

/-- The header of the allocation is the entry right below the pointer. -/
theorem memorySysFree_eq_some {ptr : Address} (h : memorySysFree s ptr = some s') :
    entryType s.memory (ptr - 24) = etSysDynAlloc ∧ allocIsAllocated s.memory (ptr - 24) = true ∧
      Updated (ptr - 24) s s' ∧ allocIsAllocated s'.memory (ptr - 24) = false := by
  unfold memorySysFree at h
  dsimp only at h
  split at h
  · next hcheck =>
      obtain rfl := Option.some.inj h
      exact ⟨hcheck.1,hcheck.2,updated_store8 s _ 0,allocIsAllocated_store8 _ _ 0⟩
  · exact absurd h (Option.some_ne_none _).symm

/-- A free allocation is used again, or one is added below the last entry. -/
theorem memorySysAlloc_eq_some (hl : Layout stackCeiling created s) {size : BitVec 32}
    {p : Address} (h : memorySysAlloc stackCeiling s size = some (p,s')) :
    (∃ e ∈ created, isFreeAllocation s.memory size e = true ∧ p = entryAddr s.memory e ∧
      Updated e s s' ∧ allocIsAllocated s'.memory e = true) ∨
    (∃ n, size.toNat ≤ 24 * n ∧ Appended (24 * (n + 1)) s s' ∧ p = s'.lastMemoryEntry + 24 ∧
      Holds s'.memory s'.lastMemoryEntry
        { type := .etSysDynAlloc true (BitVec.ofNat 32 (24 * n)), addr := p }) := by
  rw [memorySysAlloc,Option.bind_eq_bind,Option.bind_eq_some_iff] at h
  obtain ⟨newAlloc,hfind,h⟩ := h
  split at h
  · next hfound =>
      obtain ⟨rfl,rfl⟩ := Prod.mk.inj (Option.some.inj h)
      have hupdated := updated_store8 s newAlloc 1
      obtain ⟨hmem,hfree⟩ := hl.lookup_mem hfind hfound
      exact .inl ⟨newAlloc,hmem,hfree,hupdated.agree.entryAddr,hupdated,
        allocIsAllocated_store8 _ _ 1⟩
  · rw [Option.bind_eq_bind,Option.bind_eq_some_iff] at h
    obtain ⟨⟨q,s₁⟩,hcreate,h⟩ := h
    obtain ⟨n,hsize,-,hroom,hlow,rfl⟩ := createMemoryEntry_eq_some hcreate
    obtain ⟨rfl,rfl⟩ := Prod.mk.inj (Option.some.inj h)
    have hactual : s.lastMemoryEntry - (q + 24) = BitVec.ofNat 32 (24 * n) := by
      apply BitVec.eq_of_toNat_eq
      rw [BitVec.toNat_ofNat]
      bv_omega
    have hfootprint : footprint (assignAlloc (store32 s.memory (s.lastMemoryEntry + 4) q) q
        (q + 24) (s.lastMemoryEntry - (q + 24))) q = 24 * (n + 1) := by
      have hlt := s.lastMemoryEntry.isLt
      rw [footprint,if_pos (entryType_assignAlloc _ _ _ _),allocSize_assignAlloc,hactual,
        BitVec.toNat_ofNat,Nat.mod_eq_of_lt (by omega)]
      omega
    refine .inr ⟨n,hsize,?_,?_,?_⟩
    · exact Appended.of_frame hroom hlow hl.last_end
        (fun a ha => assignAlloc_frame _ _ _ _ ha) (entryNext_assignAlloc _ _ _ _) hfootprint
        fun _ => entryAddr_assignAlloc _ _ _ _
    · exact entryAddr_assignAlloc _ _ _ _
    · refine ⟨rfl,entryType_assignAlloc _ _ _ _,allocIsAllocated_assignAlloc _ _ _ _,?_⟩
      rw [← hactual]
      exact allocSize_assignAlloc _ _ _ _

end

end TwMonitor.EntryStore
