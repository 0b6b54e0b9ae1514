import TwMonitor.StoreRuns

/-!
# The table of labels

The labels are kept in the chain, among sections and allocations that share the
same bytes with them. For the callers the table is a finite map that is written
once for each name: it grows by the successful calls, and nothing else changes it.
-/
namespace TwMonitor.EntryStore
open ByteMemory NullChain
open MemoryStore (MemoryEntry SectionEntry LabelName labelName maxNameLen sectionEntry
  sectionContains memoryGetSectionSize armAddressSetThumbIntwrkBit)

/-! ## Comparing names -/

theorem memcmp_eq_zero_iff (m : Memory) (p : Address) (bytes : List (BitVec 8)) :
    memcmp m p bytes = 0 ↔ readBytes m p bytes.length = bytes := by
  induction bytes generalizing p with
  | nil => exact ⟨fun _ => rfl,fun _ => rfl⟩
  | cons b bytes ih =>
      have hdiff : b.setWidth 32 - (m p).setWidth 32 = 0 ↔ m p = b := by
        constructor
        · intro hzero
          bv_omega
        · rintro rfl
          exact BitVec.sub_self _
      rw [memcmp,List.length_cons,readBytes,List.cons.injEq,← hdiff,← ih]
      split
      · next hne => exact ⟨fun hzero => absurd hzero hne,fun hsame => absurd hsame.1 hne⟩
      · next heq => exact ⟨fun hzero => ⟨not_not.mp heq,hzero⟩,fun hsame => hsame.2⟩

section
variable {m : Memory} {p : Address} {entry : MemoryEntry}

/-- Names of the same length are compared byte by byte. -/
theorem sameName_iff {bytes : List (BitVec 8)} (hlen : (labelNameLen m p).toNat = bytes.length)
    (hname : readBytes m (p + 13) bytes.length = bytes) (name : List (BitVec 8)) :
    ((labelNameLen m p).toNat == name.length && memcmp m (p + 13) name == 0) =
      (bytes == name) := by
  rw [Bool.eq_iff_iff,Bool.and_eq_true,beq_iff_eq,beq_iff_eq,beq_iff_eq,memcmp_eq_zero_iff,hlen]
  constructor
  · rintro ⟨hsame,hread⟩
    rw [← hsame,hname] at hread
    exact hread
  · rintro rfl
    exact ⟨rfl,hname⟩

theorem Holds.isLabel (h : Holds m p entry) :
    memoryEntryIsLabel m p = MemoryStore.memoryEntryIsLabel entry := by
  rw [memoryEntryIsLabel,h.entryType]
  obtain ⟨type,_⟩ := entry
  cases type <;> rfl

theorem Holds.isCodeLabel (h : Holds m p entry) :
    memoryEntryIsCodeLabel m p = MemoryStore.memoryEntryIsCodeLabel entry := by
  rw [memoryEntryIsCodeLabel,h.entryType]
  obtain ⟨type,_⟩ := entry
  cases type <;> rfl

theorem Holds.matchesLabel (h : Holds m p entry) (name : List (BitVec 8)) :
    EntryStore.matchesLabel m name p = (labelName entry).any fun label => label.bytes == name := by
  rw [EntryStore.matchesLabel,h.isLabel]
  obtain ⟨-,h⟩ := h
  match entry with
  | { type := .etSection size, addr } => rfl
  | { type := .etLabelCode label, addr } => exact sameName_iff h.2.1 h.2.2 name
  | { type := .etLabelData label, addr } => exact sameName_iff h.2.1 h.2.2 name
  | { type := .etSysDynAlloc isAllocated size, addr } => rfl

theorem Holds.matchesAddress (h : Holds m p entry) (ptr : Address) :
    EntryStore.matchesAddress m ptr p =
      if MemoryStore.memoryEntryIsLabel entry then
        if MemoryStore.memoryEntryIsCodeLabel entry then
          armAddressSetThumbIntwrkBit entry.addr true == ptr ||
            armAddressSetThumbIntwrkBit entry.addr false == ptr
        else entry.addr == ptr
      else false := by
  rw [EntryStore.matchesAddress,h.isLabel,h.isCodeLabel,h.1]
  cases MemoryStore.memoryEntryIsLabel entry <;> rfl

theorem Holds.matchesSection (h : Holds m p entry) (ptr : Address) :
    EntryStore.matchesSection m ptr p =
      ((sectionEntry entry).filter (sectionContains ptr)).isSome := by
  rw [EntryStore.matchesSection,memoryEntryIsSection,h.entryType,h.1]
  obtain ⟨-,h⟩ := h
  match entry with
  | { type := .etSection size, addr } =>
      have hsize : EntryStore.sectionSize m p = size := h.2
      have hsection : sectionEntry { type := .etSection size, addr } =
          some ⟨{ type := .etSection size, addr },rfl⟩ := dif_pos rfl
      rw [hsize,hsection,Option.filter_some]
      change sectionContains ptr ⟨{ type := .etSection size, addr },rfl⟩ = _
      cases sectionContains ptr ⟨{ type := .etSection size, addr },rfl⟩ <;> rfl
  | { type := .etLabelCode label, addr } => rfl
  | { type := .etLabelData label, addr } => rfl
  | { type := .etSysDynAlloc isAllocated size, addr } => rfl

end

/-! ## The lookups see the entries -/

theorem find_related {α β : Type*} {r : α → β → Prop} {xs : List α} {ys : List β}
    (h : List.Forall₂ r xs ys) {found : α → Bool} {wanted : β → Bool}
    (hsame : ∀ x y, r x y → found x = wanted y) :
    Option.Rel r (xs.find? found) (ys.find? wanted) := by
  induction h with
  | nil => exact .none
  | @cons x y xs ys hxy _ ih =>
      rw [List.find?_cons,List.find?_cons,hsame x y hxy]
      cases wanted y with
      | true => exact .some hxy
      | false => exact ih

theorem findSome_eq_find_bind {α β : Type*} (f : α → Option β) (xs : List α) :
    xs.findSome? f = (xs.find? fun x => (f x).isSome).bind f := by
  induction xs with
  | nil => rfl
  | cons x xs ih =>
      rw [List.findSome?_cons,List.find?_cons]
      cases hx : f x with
      | none => exact ih
      | some y => exact hx.symm

section
variable {stackCeiling : Address} {created : List Address} {s : Store}
  {entries : List MemoryEntry}

/-- A lookup of the code answers NULL, or with the entry that a lookup in the list
of entries answers with. -/
theorem Layout.lookup_refines (hl : Layout stackCeiling created s)
    (hholds : List.Forall₂ (Holds s.memory) created entries) {found : Address → Bool}
    {wanted : MemoryEntry → Bool}
    (hsame : ∀ p entry, Holds s.memory p entry → found p = wanted entry) :
    ∃ p, lookup stackCeiling s found = some p ∧
      ((p = 0 ∧ entries.find? wanted = none) ∨
        p ≠ 0 ∧ ∃ entry, entries.find? wanted = some entry ∧ Holds s.memory p entry) := by
  refine ⟨_,hl.lookup_eq found,?_⟩
  have hrelated := find_related hholds hsame
  cases hfound : created.find? found with
  | none =>
      rw [hfound] at hrelated
      cases hwanted : entries.find? wanted with
      | none => exact .inl ⟨rfl,rfl⟩
      | some entry =>
          rw [hwanted] at hrelated
          cases hrelated
  | some p =>
      rw [hfound] at hrelated
      cases hwanted : entries.find? wanted with
      | none =>
          rw [hwanted] at hrelated
          cases hrelated
      | some entry =>
          rw [hwanted] at hrelated
          cases hrelated with
          | some hp =>
              exact .inr ⟨hl.ne_zero (List.mem_of_find?_eq_some hfound),entry,rfl,hp⟩

theorem Layout.lookupLabel_refines (hl : Layout stackCeiling created s)
    (hholds : List.Forall₂ (Holds s.memory) created entries) (name : List (BitVec 8)) :
    ∃ p, memoryLookupLabel stackCeiling s name = some p ∧
      ((p = 0 ∧ MemoryStore.memoryLookupLabel entries name = none) ∨
        p ≠ 0 ∧ ∃ entry, MemoryStore.memoryLookupLabel entries name = some entry ∧
          Holds s.memory p entry) :=
  hl.lookup_refines hholds fun _ _ h => h.matchesLabel name

theorem Layout.rlookupLabel_refines (hl : Layout stackCeiling created s)
    (hholds : List.Forall₂ (Holds s.memory) created entries) (ptr : Address) :
    ∃ p, memoryRlookupLabel stackCeiling s ptr = some p ∧
      ((p = 0 ∧ MemoryStore.memoryRlookupLabel entries ptr = none) ∨
        p ≠ 0 ∧ ∃ entry, MemoryStore.memoryRlookupLabel entries ptr = some entry ∧
          Holds s.memory p entry) :=
  hl.lookup_refines hholds fun _ _ h => h.matchesAddress ptr

/-- The section that is found is the entry behind the pointer that is found. -/
theorem Layout.lookupSection_refines (hl : Layout stackCeiling created s)
    (hholds : List.Forall₂ (Holds s.memory) created entries) (ptr : Address) :
    ∃ p, memoryLookupSection stackCeiling s ptr = some p ∧
      ((p = 0 ∧ MemoryStore.memoryLookupSection entries ptr = none) ∨
        p ≠ 0 ∧ ∃ entry : SectionEntry, MemoryStore.memoryLookupSection entries ptr = some entry ∧
          Holds s.memory p entry.toMemoryEntry) := by
  obtain ⟨p,hp,hfound⟩ :=
    hl.lookup_refines hholds fun _ _ h => h.matchesSection ptr
  refine ⟨p,hp,?_⟩
  rw [MemoryStore.memoryLookupSection,findSome_eq_find_bind]
  rcases hfound with ⟨hnull,hnone⟩ | ⟨hne,entry,hentry,hholds⟩
  · exact .inl ⟨hnull,by rw [hnone,Option.bind_none]⟩
  · have hsome : ((sectionEntry entry).filter (sectionContains ptr)).isSome := by
      simpa using List.find?_some hentry
    obtain ⟨section',hsection⟩ := Option.isSome_iff_exists.mp hsome
    rw [hentry,Option.bind_some,hsection]
    exact .inr ⟨hne,section',rfl,
      MemoryStore.sectionEntry_eq (Option.eq_some_of_filter_eq_some hsection) ▸ hholds⟩

end

/-! ## The labels of the chain -/

/-- What callers see of a label: its name, its address and its kind. -/
def storedLabel (entry : MemoryEntry) : Option (List (BitVec 8) × Address × Bool) :=
  (labelName entry).map fun name =>
    (name.bytes,entry.addr,MemoryStore.memoryEntryIsCodeLabel entry)

def LabelCall.stored (call : LabelCall) : List (BitVec 8) × Address × Bool :=
  (call.name,labelAddr call.ptr call.isCode,call.isCode)

/-- The labels of the chain are those of the successful calls, in their order, each
name at most once. -/
structure Tabled (g : History) : Prop where
  entries : ∃ entries, List.Forall₂ (Holds g.store.memory) g.created entries ∧
    entries.filterMap storedLabel = g.labels.map LabelCall.stored
  distinct : (g.labels.map LabelCall.name).Nodup

theorem storedLabel_labelEntry (label : LabelName) (ptr : Address) (isCode : Bool) :
    storedLabel (labelEntry label ptr isCode) = some (label.bytes,labelAddr ptr isCode,isCode) := by
  cases isCode <;> rfl

/-- Entries that keep what callers see of them keep the table. -/
theorem stored_congr {m m' : Memory} {created : List Address} {entries : List MemoryEntry}
    (h : List.Forall₂ (Holds m) created entries)
    (hkeep : ∀ p ∈ created, ∀ entry, Holds m p entry →
      ∃ entry', Holds m' p entry' ∧ storedLabel entry' = storedLabel entry) :
    ∃ entries', List.Forall₂ (Holds m') created entries' ∧
      entries'.filterMap storedLabel = entries.filterMap storedLabel := by
  induction h with
  | nil => exact ⟨[],.nil,rfl⟩
  | @cons p entry created entries hp _ ih =>
      obtain ⟨entries',hholds,hsame⟩ := ih fun q hq => hkeep q (List.mem_cons_of_mem p hq)
      obtain ⟨entry',hp',hentry⟩ := hkeep p List.mem_cons_self entry hp
      refine ⟨entry'::entries',.cons hp' hholds,?_⟩
      rw [List.filterMap_cons,List.filterMap_cons,hentry,hsame]

/-- Sections and allocations stay what they are when their union changes. -/
theorem Updated.stored {s s' : Store} {q : Address} (hu : Updated q s s')
    (hother : entryType s.memory q = etSection ∨ entryType s.memory q = etSysDynAlloc)
    {entry : MemoryEntry} (h : Holds s.memory q entry) :
    ∃ entry', Holds s'.memory q entry' ∧ storedLabel entry' = storedLabel entry := by
  have haddr := hu.agree.entryAddr.trans h.1
  have htype := hu.agree.entryType
  obtain ⟨-,h⟩ := h
  match entry with
  | { type := .etSection size, addr } =>
      exact ⟨{ type := .etSection (sectionSize s'.memory q), addr },
        ⟨haddr,htype.trans h.1,rfl⟩,rfl⟩
  | { type := .etLabelCode name, addr } =>
      rw [h.1] at hother
      exact absurd hother (by decide)
  | { type := .etLabelData name, addr } =>
      rw [h.1] at hother
      exact absurd hother (by decide)
  | { type := .etSysDynAlloc isAllocated size, addr } =>
      exact ⟨{
          type := .etSysDynAlloc (allocIsAllocated s'.memory q) (EntryStore.allocSize s'.memory q)
          addr },⟨haddr,htype.trans h.1,rfl,rfl⟩,rfl⟩

section
variable {entries : List MemoryEntry} {labels : List LabelCall} {name : List (BitVec 8)}

theorem named_iff (entry : MemoryEntry) (name : List (BitVec 8)) :
    ((labelName entry).any fun label => label.bytes == name) = true ↔
      ∃ value, storedLabel entry = some (name,value) := by
  unfold storedLabel
  cases labelName entry with
  | none => exact ⟨fun h => absurd h Bool.false_ne_true,fun ⟨_,h⟩ => nomatch h⟩
  | some label =>
      rw [Option.any_some,beq_iff_eq]
      constructor
      · rintro rfl
        exact ⟨_,rfl⟩
      · rintro ⟨value,hvalue⟩
        exact (Prod.mk.inj (Option.some.inj hvalue)).1

theorem stored_mem_iff (h : entries.filterMap storedLabel = labels.map LabelCall.stored)
    (label : List (BitVec 8) × Address × Bool) :
    (∃ entry ∈ entries, storedLabel entry = some label) ↔
      ∃ call ∈ labels, call.stored = label := by
  rw [← List.mem_filterMap,h,List.mem_map]

/-- No label of a name is found when no call has created it. -/
theorem lookupLabel_eq_none_iff
    (h : entries.filterMap storedLabel = labels.map LabelCall.stored) :
    MemoryStore.memoryLookupLabel entries name = none ↔ ∀ call ∈ labels, call.name ≠ name := by
  rw [MemoryStore.memoryLookupLabel,List.find?_eq_none]
  constructor
  · rintro hnone call hcall rfl
    obtain ⟨entry,hentry,hstored⟩ := (stored_mem_iff h call.stored).mpr ⟨call,hcall,rfl⟩
    exact hnone entry hentry ((named_iff entry call.name).mpr ⟨_,hstored⟩)
  · intro hnone entry hentry hnamed
    obtain ⟨value,hvalue⟩ := (named_iff entry name).mp hnamed
    obtain ⟨call,hcall,hstored⟩ := (stored_mem_iff h _).mp ⟨entry,hentry,hvalue⟩
    exact hnone call hcall (congrArg Prod.fst hstored)

/-- What is found is the label of the call that created it. -/
theorem lookupLabel_eq_some
    (h : entries.filterMap storedLabel = labels.map LabelCall.stored)
    (hdistinct : (labels.map LabelCall.name).Nodup) {entry : MemoryEntry}
    (hentry : MemoryStore.memoryLookupLabel entries name = some entry) {call : LabelCall}
    (hcall : call ∈ labels) (hname : call.name = name) : storedLabel entry = some call.stored := by
  rw [MemoryStore.memoryLookupLabel] at hentry
  have hnamed := List.find?_some hentry
  obtain ⟨value,hvalue⟩ := (named_iff entry name).mp hnamed
  obtain ⟨other,hother,hstored⟩ :=
    (stored_mem_iff h _).mp ⟨entry,List.mem_of_find?_eq_some hentry,hvalue⟩
  have hsame : other.name = call.name := (congrArg Prod.fst hstored).trans hname.symm
  obtain rfl := List.inj_on_of_nodup_map hdistinct hother hcall hsame
  rw [hvalue,hstored]

end

/-! ## The table along a run -/

namespace Tabled
variable {stackCeiling : Address} {g g' : History} {s' : Store} {k : ℕ} {q : Address}

theorem append (ht : Tabled g) (hl : Layout stackCeiling g.created g.store)
    (ha : Appended k g.store s') {entry : MemoryEntry}
    (hnew : Holds s'.memory s'.lastMemoryEntry entry) :
    ∃ entries, List.Forall₂ (Holds s'.memory) (g.created ++ [s'.lastMemoryEntry]) entries ∧
      entries.filterMap storedLabel =
        g.labels.map LabelCall.stored ++ (storedLabel entry).toList := by
  obtain ⟨entries,hholds,hlabels⟩ := ht.entries
  obtain ⟨entries',hholds',hsame⟩ := stored_congr hholds fun p hp entry h =>
    ⟨entry,(hl.agreeButLink ha hp).holds h,rfl⟩
  refine ⟨entries' ++ [entry],List.rel_append hholds' (.cons hnew .nil),?_⟩
  rw [List.filterMap_append,hsame,hlabels,List.filterMap_cons]
  cases storedLabel entry <;> rfl

theorem update (ht : Tabled g) (hl : Layout stackCeiling g.created g.store)
    (hu : Updated q g.store s') (hq : q ∈ g.created)
    (hother : entryType g.store.memory q = etSection ∨
      entryType g.store.memory q = etSysDynAlloc) :
    ∃ entries, List.Forall₂ (Holds s'.memory) g.created entries ∧
      entries.filterMap storedLabel = g.labels.map LabelCall.stored := by
  obtain ⟨entries,hholds,hlabels⟩ := ht.entries
  rw [← hlabels]
  refine stored_congr hholds fun p hp entry h => ?_
  by_cases hne : p = q
  · obtain rfl := hne
    exact hu.stored hother h
  · exact ⟨entry,(hl.agree_of_updated hu hq hp hne).butLink.holds h,rfl⟩

/-- There is a label of a name when a call has created it. -/
theorem lookupLabel_eq (ht : Tabled g) (hl : Layout stackCeiling g.created g.store)
    (name : List (BitVec 8)) :
    ∃ p, memoryLookupLabel stackCeiling g.store name = some p ∧
      (p ≠ 0 ↔ ∃ call ∈ g.labels, call.name = name) ∧
      ∀ call ∈ g.labels, call.name = name →
        memoryEntryIsLabel g.store.memory p = true ∧
          entryAddr g.store.memory p = labelAddr call.ptr call.isCode ∧
          memoryEntryIsCodeLabel g.store.memory p = call.isCode := by
  obtain ⟨entries,hholds,hlabels⟩ := ht.entries
  obtain ⟨p,hp,⟨rfl,hnone⟩ | ⟨hne,entry,hentry,hpentry⟩⟩ := hl.lookupLabel_refines hholds name
  · rw [lookupLabel_eq_none_iff hlabels] at hnone
    refine ⟨0,hp,⟨fun hne => absurd rfl hne,?_⟩,fun call hcall hname => absurd hname ?_⟩
    · rintro ⟨call,hcall,hname⟩
      exact absurd hname (hnone call hcall)
    · exact hnone call hcall
  · refine ⟨p,hp,⟨fun _ => ?_,fun _ => hne⟩,?_⟩
    · by_contra hno
      have hnone := (lookupLabel_eq_none_iff hlabels).mpr fun call hcall hname =>
        hno ⟨call,hcall,hname⟩
      rw [hnone] at hentry
      exact absurd hentry (Option.some_ne_none entry).symm
    · intro call hcall hname
      have hstored := lookupLabel_eq_some hlabels ht.distinct hentry hcall hname
      obtain ⟨label,hlabel,hvalue⟩ := Option.map_eq_some_iff.mp hstored
      obtain ⟨-,hvalue⟩ := Prod.mk.inj hvalue
      obtain ⟨haddr,hcode⟩ := Prod.mk.inj hvalue
      refine ⟨?_,hpentry.1.trans haddr,hpentry.isCodeLabel.trans hcode⟩
      rw [hpentry.isLabel,MemoryStore.memoryEntryIsLabel,hlabel]
      rfl

/-- A call succeeds exactly when its name is well formed and new. -/
theorem createLabel_iff (ht : Tabled g) (hl : Layout stackCeiling g.created g.store)
    {call : LabelCall} {ok : Bool}
    (h : memoryCreateLabel stackCeiling g.store call.name call.ptr call.isCode = some (ok,s')) :
    ok = true ↔ (0 < call.name.length ∧ call.name.length ≤ maxNameLen) ∧
      ∀ other ∈ g.labels, other.name ≠ call.name := by
  obtain ⟨p,hp,hexists,-⟩ := ht.lookupLabel_eq hl call.name
  rcases memoryCreateLabel_eq_some hl h with ⟨rfl,-,hrefused⟩ | ⟨rfl,hnone,-,label,hlabel,-⟩
  · refine ⟨fun hfalse => absurd hfalse Bool.false_ne_true,fun ⟨hlen,hnew⟩ => ?_⟩
    rcases hrefused with hempty | hlong | hfound
    · exact absurd hempty hlen.1.ne'
    · exact absurd hlen.2 (Nat.not_le_of_lt hlong)
    · have hne : p ≠ 0 := fun hzero => hfound (hzero ▸ hp)
      obtain ⟨other,hother,hname⟩ := hexists.mp hne
      exact absurd hname (hnew other hother)
  · have hzero : p = 0 := Option.some.inj (hp.symm.trans hnone)
    refine ⟨fun _ => ⟨?_,fun other hother hname => ?_⟩,fun _ => rfl⟩
    · rw [← hlabel]
      exact ⟨List.length_pos_of_ne_nil label.nonempty,label.bounded⟩
    · exact hexists.mpr ⟨other,hother,hname⟩ hzero

/-- A call returns unless it has no room for the entry it needs. -/
theorem createLabel_returns (ht : Tabled g) (hl : Layout stackCeiling g.created g.store)
    (call : LabelCall) (hroom : (0 < call.name.length ∧ call.name.length ≤ maxNameLen) →
      (∀ other ∈ g.labels, other.name ≠ call.name) → 24 < g.store.lastMemoryEntry.toNat) :
    ∃ ok s', memoryCreateLabel stackCeiling g.store call.name call.ptr call.isCode =
      some (ok,s') := by
  obtain ⟨p,hp,hexists,-⟩ := ht.lookupLabel_eq hl call.name
  unfold memoryCreateLabel
  split
  · exact ⟨_,_,rfl⟩
  · next hlen =>
      obtain ⟨hpos,hbound⟩ := not_or.mp hlen
      rw [hp,Option.bind_eq_bind,Option.bind_some]
      split
      · exact ⟨_,_,rfl⟩
      · next hzero =>
          have hnew : ∀ other ∈ g.labels, other.name ≠ call.name := fun other hother hname =>
            hzero (hexists.mpr ⟨other,hother,hname⟩)
          have hfits := hroom ⟨Nat.pos_of_ne_zero hpos,Nat.le_of_not_lt hbound⟩ hnew
          obtain ⟨r,hcreate⟩ := createMemoryEntry_isSome hfits
          rw [hcreate]
          exact ⟨_,_,rfl⟩

/-- A label is found by the address it stands for. -/
theorem rlookupLabel_eq (ht : Tabled g) (hl : Layout stackCeiling g.created g.store)
    {call : LabelCall} (hcall : call ∈ g.labels) {ptr : Address}
    (hptr : ptr = labelAddr call.ptr call.isCode ∨ call.isCode = true ∧
      ptr = armAddressSetThumbIntwrkBit (labelAddr call.ptr call.isCode) false) :
    ∃ p, memoryRlookupLabel stackCeiling g.store ptr = some p ∧ p ≠ 0 := by
  obtain ⟨entries,hholds,hlabels⟩ := ht.entries
  obtain ⟨p,hp,⟨rfl,hnone⟩ | ⟨hne,-⟩⟩ := hl.rlookupLabel_refines hholds ptr
  · exfalso
    obtain ⟨entry,hentry,hstored⟩ := (stored_mem_iff hlabels call.stored).mpr ⟨call,hcall,rfl⟩
    obtain ⟨label,hlabel,hvalue⟩ := Option.map_eq_some_iff.mp hstored
    obtain ⟨haddr,hcode⟩ := Prod.mk.inj (Prod.mk.inj hvalue).2
    have hislabel : MemoryStore.memoryEntryIsLabel entry = true := by
      rw [MemoryStore.memoryEntryIsLabel,hlabel]
      rfl
    refine List.find?_eq_none.mp hnone entry hentry ?_
    rw [if_pos hislabel,haddr,hcode]
    cases hkind : call.isCode with
    | true =>
        rw [hkind] at hptr
        rw [if_pos rfl,Bool.or_eq_true,beq_iff_eq,beq_iff_eq]
        refine hptr.imp ?_ fun hwithout => hwithout.2.symm
        rintro rfl
        change call.ptr ||| 1 ||| 1 = call.ptr ||| 1
        rw [BitVec.or_assoc,BitVec.or_self]
    | false =>
        rw [hkind] at hptr
        rw [if_neg Bool.false_ne_true,beq_iff_eq]
        exact (hptr.resolve_right fun hcode => Bool.false_ne_true hcode.1).symm
  · exact ⟨p,hp,hne⟩

theorem createLabel (ht : Tabled g) (hl : Layout stackCeiling g.created g.store)
    {call : LabelCall} {ok : Bool}
    (h : memoryCreateLabel stackCeiling g.store call.name call.ptr call.isCode = some (ok,s')) :
    Tabled
      { g with
        store := s'
        created := g.created ++ newEntries g.store s'
        labels := if ok then g.labels ++ [call] else g.labels } := by
  have hok := ht.createLabel_iff hl h
  rcases memoryCreateLabel_eq_some hl h with ⟨rfl,rfl,-⟩ | ⟨rfl,-,ha,label,hlabel,hholds⟩
  · rw [newEntries_self,List.append_nil,if_neg Bool.false_ne_true]
    exact ⟨ht.entries,ht.distinct⟩
  · rw [ha.newEntries_eq,if_pos rfl]
    refine ⟨?_,?_⟩
    · obtain ⟨entries,hentries,hlabels⟩ := ht.append hl ha hholds
      refine ⟨entries,hentries,?_⟩
      rw [hlabels,storedLabel_labelEntry,hlabel,List.map_append]
      rfl
    · rw [List.map_append,List.nodup_append]
      refine ⟨ht.distinct,List.nodup_singleton _,?_⟩
      rintro _ hold _ hnew rfl
      obtain ⟨other,hother,hname⟩ := List.mem_map.mp hold
      exact (hok.mp rfl).2 other hother (hname.trans (List.mem_singleton.mp hnew))

theorem sysAlloc (ht : Tabled g) (hl : Layout stackCeiling g.created g.store)
    {size : BitVec 32} {ptr : Address}
    (h : memorySysAlloc stackCeiling g.store size = some (ptr,s')) (live : List Block) :
    Tabled { g with store := s', created := g.created ++ newEntries g.store s', live } := by
  refine ⟨?_,ht.distinct⟩
  rcases memorySysAlloc_eq_some hl h with ⟨e,he,hfree,-,hu,-⟩ | ⟨n,-,ha,-,hholds⟩
  · rw [hu.newEntries_eq,List.append_nil]
    exact ht.update hl hu he (.inr ((isFreeAllocation_iff _ _ _).mp hfree).1)
  · rw [ha.newEntries_eq]
    obtain ⟨entries,hentries,hlabels⟩ := ht.append hl ha hholds
    exact ⟨entries,hentries,hlabels.trans (List.append_nil _)⟩

theorem step (ht : Tabled g) (hc : Coherent stackCeiling g) (h : StoreStep stackCeiling g g') :
    Tabled g' := by
  cases h with
  | createLabel call h => exact ht.createLabel hc.layout h
  | sysAlloc size h => exact ht.sysAlloc hc.layout h _
  | @sysFree block s' hblock h =>
      obtain ⟨htype,-,hu,-⟩ := memorySysFree_eq_some h
      exact ⟨ht.update hc.layout hu (hc.headed block hblock).mem (.inr htype),ht.distinct⟩
  | updateSectionSize newSize hentry h =>
      obtain ⟨htype,hu,-⟩ := memoryUpdateSectionSize_eq_some h
      exact ⟨ht.update hc.layout hu hentry (.inl htype),ht.distinct⟩
  | write m hagree =>
      obtain ⟨entries,hholds,hlabels⟩ := ht.entries
      obtain ⟨entries',hholds',hsame⟩ := stored_congr hholds fun p hp entry h =>
        ⟨entry,(hagree p hp).butLink.holds h,rfl⟩
      exact ⟨⟨entries',hholds',hsame.trans hlabels⟩,ht.distinct⟩

theorem run (ht : Tabled g) (hc : Coherent stackCeiling g) (h : StoreRun stackCeiling g g') :
    Tabled g' := by
  induction h with
  | refl => exact ht
  | tail hbefore hstep ih => exact ih.step (hc.run hbefore) hstep

end Tabled

theorem tabled_init {stackCeiling userStart : Address} {memory : Memory} {s : Store}
    (hinit : memoryInit stackCeiling userStart memory = some s) : Tabled (historyInit s) :=
  ⟨⟨_,.cons (memoryInit_layout hinit).2 .nil,rfl⟩,List.nodup_nil⟩

/-- The table as its callers see it: a finite map from names to addresses and kinds
that is written once for each name. -/
structure WriteOnce (stackCeiling : Address) (g : History) : Prop where
  create : ∀ (call : LabelCall) (ok : Bool) (s' : Store),
    memoryCreateLabel stackCeiling g.store call.name call.ptr call.isCode = some (ok,s') →
      (ok = true ↔ (0 < call.name.length ∧ call.name.length ≤ maxNameLen) ∧
        ∀ other ∈ g.labels, other.name ≠ call.name) ∧ (ok = false → s' = g.store)
  returns : ∀ call : LabelCall, ((0 < call.name.length ∧ call.name.length ≤ maxNameLen) →
      (∀ other ∈ g.labels, other.name ≠ call.name) → 24 < g.store.lastMemoryEntry.toNat) →
    ∃ ok s', memoryCreateLabel stackCeiling g.store call.name call.ptr call.isCode = some (ok,s')
  lookup : ∀ name, ∃ p, memoryLookupLabel stackCeiling g.store name = some p ∧
    (p ≠ 0 ↔ ∃ call ∈ g.labels, call.name = name) ∧
    ∀ call ∈ g.labels, call.name = name →
      memoryEntryIsLabel g.store.memory p = true ∧
        entryAddr g.store.memory p = labelAddr call.ptr call.isCode ∧
        memoryEntryIsCodeLabel g.store.memory p = call.isCode
  rlookup : ∀ call ∈ g.labels, ∀ ptr, (ptr = labelAddr call.ptr call.isCode ∨
      call.isCode = true ∧
        ptr = armAddressSetThumbIntwrkBit (labelAddr call.ptr call.isCode) false) →
    ∃ p, memoryRlookupLabel stackCeiling g.store ptr = some p ∧ p ≠ 0

/-- Along every run the table is the successful calls so far. -/
theorem labelTable_writeOnce {stackCeiling userStart : Address} {memory : Memory} {s : Store}
    {g : History} (hinit : memoryInit stackCeiling userStart memory = some s)
    (hrun : StoreRun stackCeiling (historyInit s) g) : WriteOnce stackCeiling g := by
  have hc := coherent_init hinit
  have hl := (hc.run hrun).layout
  have ht := (tabled_init hinit).run hc hrun
  refine ⟨fun call ok s' h => ⟨ht.createLabel_iff hl h,?_⟩,ht.createLabel_returns hl,
    ht.lookupLabel_eq hl,fun call hcall ptr hptr => ht.rlookupLabel_eq hl hcall hptr⟩
  intro hfalse
  rcases memoryCreateLabel_eq_some hl h with ⟨-,hsame,-⟩ | ⟨htrue,-⟩
  · exact hsame
  · exact absurd (hfalse.symm.trans htrue) Bool.false_ne_true

/-- An allocation leaves the label in the table. -/
theorem labelTable_writeOnce_alloc : ∃ (s : Store) (g : History),
    memoryInit 512 1024 (fun _ => 0) = some s ∧ StoreRun 512 (historyInit s) g ∧
      g.labels = [⟨[97],2000,true⟩] ∧ g.created = [488,464,416] ∧ WriteOnce 512 g := by
  refine ⟨_,_,rfl,.tail (.single (.createLabel ⟨[97],2000,true⟩ rfl)) (.sysAlloc 10 rfl),
    by decide,by decide,?_⟩
  exact @labelTable_writeOnce 512 1024 (fun _ => 0) _ _ rfl
    (.tail (.single (.createLabel ⟨[97],2000,true⟩ rfl)) (.sysAlloc 10 rfl))

end TwMonitor.EntryStore
