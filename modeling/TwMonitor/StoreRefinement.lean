import TwMonitor.EntrySteps

/-!
# The bytes of the store and the list of entries

Sessions keep the entries as a list, while the store keeps them as bytes below the stack
ceiling. Whatever calls are made, the bytes hold a list that the functions on lists lead to, and
the lookups in the bytes answer as the lookups in that list.
-/
namespace TwMonitor.EntryStore
open ByteMemory MemoryStore Relation

/-- A pointer to the entry that is found, or NULL. -/
def Answers (m : Memory) (p : Address) : Option MemoryEntry → Prop
  | none => p = 0
  | some entry => p ≠ 0 ∧ Holds m p entry

/-- The entries in the order of their creation. -/
def Represents (g : History) (entries : List MemoryEntry) : Prop :=
  List.Forall₂ (Holds g.store.memory) g.created entries

/-! ## One entry changes -/

theorem forall₂_of_mem {α β : Type*} {r r' : α → β → Prop} {xs : List α} {ys : List β}
    (h : List.Forall₂ r xs ys) (hr : ∀ x ∈ xs, ∀ y, r x y → r' x y) : List.Forall₂ r' xs ys := by
  have hmem : List.Forall₂ (fun x y => x ∈ xs ∧ r x y) xs ys :=
    (List.forall₂_and_left xs ys).mpr ⟨fun _ hx => hx,h⟩
  exact hmem.imp fun x y hxy => hr x hxy.1 y hxy.2

/-- The entry that belongs to an address can be exchanged. -/
theorem forall₂_exchange {α β : Type*} {r r' : α → β → Prop} {xs : List α} {ys : List β}
    (h : List.Forall₂ r xs ys) {q : α} (hq : q ∈ xs) (hnodup : xs.Nodup)
    (hother : ∀ x ∈ xs, x ≠ q → ∀ y, r x y → r' x y) :
    ∃ before y after, ys = before ++ y::after ∧ r q y ∧
      ∀ y', r' q y' → List.Forall₂ r' xs (before ++ y'::after) := by
  induction h with
  | nil => cases hq
  | @cons x y xs ys hxy hrest ih =>
      obtain ⟨hnot,hnodup⟩ := List.nodup_cons.mp hnodup
      obtain rfl | hq := List.mem_cons.mp hq
      · refine ⟨[],y,ys,rfl,hxy,fun y' hy' => .cons hy' ?_⟩
        refine forall₂_of_mem hrest fun x hx => hother x (List.mem_cons_of_mem q hx) ?_
        rintro rfl
        exact hnot hx
      · have hne : x ≠ q := fun heq => hnot (heq ▸ hq)
        obtain ⟨before,z,after,rfl,hz,hexchange⟩ :=
          ih hq hnodup fun x' hx' => hother x' (List.mem_cons_of_mem x hx')
        refine ⟨y::before,z,after,rfl,hz,fun y' hy' => .cons ?_ (hexchange y' hy')⟩
        exact hother x List.mem_cons_self hne y hxy

section
variable {stackCeiling : Address} {created : List Address} {s s' : Store} {q : Address} {k : ℕ}
  {entries : List MemoryEntry}

theorem Layout.represents_append (hl : Layout stackCeiling created s) (ha : Appended k s s')
    (hholds : List.Forall₂ (Holds s.memory) created entries) {entry : MemoryEntry}
    (hnew : Holds s'.memory s'.lastMemoryEntry entry) :
    List.Forall₂ (Holds s'.memory) (created ++ [s'.lastMemoryEntry]) (entries ++ [entry]) := by
  refine List.rel_append (forall₂_of_mem hholds fun p hp entry h => ?_) (.cons hnew .nil)
  exact (hl.agreeButLink ha hp).holds h

/-- What changes in place is one entry. -/
theorem Layout.represents_update (hl : Layout stackCeiling created s) (hu : Updated q s s')
    (hq : q ∈ created) (hholds : List.Forall₂ (Holds s.memory) created entries) :
    ∃ before entry after, entries = before ++ entry::after ∧ Holds s.memory q entry ∧
      ∀ entry', Holds s'.memory q entry' →
        List.Forall₂ (Holds s'.memory) created (before ++ entry'::after) :=
  forall₂_exchange hholds hq hl.nodup fun _ hp hne _ h =>
    (hl.agree_of_updated hu hq hp hne).butLink.holds h

theorem holds_section {m : Memory} {entry : MemoryEntry} (h : Holds m q entry)
    (htype : entryType m q = etSection) :
    MemoryStore.memoryEntryIsSection entry = true := by
  have hsame : typeNumber entry.type = etSection := h.entryType.symm.trans htype
  obtain ⟨type,addr⟩ := entry
  cases type with
  | etSection size => rfl
  | etLabelCode name => exact absurd hsame (by decide : etLabelCode ≠ etSection)
  | etLabelData name => exact absurd hsame (by decide : etLabelData ≠ etSection)
  | etSysDynAlloc isAllocated size => exact absurd hsame (by decide : etSysDynAlloc ≠ etSection)

theorem holds_alloc {m : Memory} {entry : MemoryEntry} (h : Holds m q entry)
    (htype : entryType m q = etSysDynAlloc) : ∃ size addr,
      entry = { type := .etSysDynAlloc (allocIsAllocated m q) size, addr } := by
  have hsame : typeNumber entry.type = etSysDynAlloc := h.entryType.symm.trans htype
  obtain ⟨type,addr⟩ := entry
  cases type with
  | etSection size => exact absurd hsame (by decide : etSection ≠ etSysDynAlloc)
  | etLabelCode name => exact absurd hsame (by decide : etLabelCode ≠ etSysDynAlloc)
  | etLabelData name => exact absurd hsame (by decide : etLabelData ≠ etSysDynAlloc)
  | etSysDynAlloc isAllocated size =>
      obtain ⟨-,-,hallocated,-⟩ := h
      rw [hallocated]
      exact ⟨size,addr,rfl⟩

theorem Updated.holds_section (hu : Updated q s s') {entry : SectionEntry}
    (h : Holds s.memory q entry.toMemoryEntry) {newSize : BitVec 32}
    (hsize : sectionSize s'.memory q = newSize) :
    Holds s'.memory q (MemoryStore.memoryUpdateSectionSize entry newSize).toMemoryEntry := by
  refine ⟨hu.agree.entryAddr.trans h.1,hu.agree.entryType.trans ?_,hsize⟩
  have htype := h.entryType
  obtain ⟨⟨type,addr⟩,hsection⟩ := entry
  cases type with
  | etSection size => exact htype
  | etLabelCode name => cases hsection
  | etLabelData name => cases hsection
  | etSysDynAlloc isAllocated size => cases hsection

theorem Updated.holds_alloc (hu : Updated q s s') {isAllocated isAllocated' : Bool}
    {size : BitVec 32} {addr : Address}
    (h : Holds s.memory q { type := .etSysDynAlloc isAllocated size, addr })
    (hallocated : allocIsAllocated s'.memory q = isAllocated') :
    Holds s'.memory q { type := .etSysDynAlloc isAllocated' size, addr } :=
  ⟨hu.agree.entryAddr.trans h.1,hu.agree.entryType.trans h.2.1,hallocated,
    hu.allocSize.trans h.2.2.2⟩

/-! ## The calls -/

/-- On the list a label is refused or added as it is in the bytes. -/
theorem Layout.createLabel_refines (hl : Layout stackCeiling created s)
    (hholds : List.Forall₂ (Holds s.memory) created entries) {name : List (BitVec 8)}
    {ptr : Address} {isCode ok : Bool}
    (h : memoryCreateLabel stackCeiling s name ptr isCode = some (ok,s')) :
    (Editor.memoryCreateLabel entries name ptr isCode).1 = ok ∧
      List.Forall₂ (Holds s'.memory) (created ++ newEntries s s')
        (Editor.memoryCreateLabel entries name ptr isCode).2 := by
  obtain ⟨p,hp,hfound⟩ := hl.lookupLabel_refines hholds name
  rcases memoryCreateLabel_eq_some hl h with
    ⟨rfl,rfl,hrefused⟩ | ⟨rfl,hnone,ha,label,rfl,hlabel⟩
  · have hlist : Editor.memoryCreateLabel entries name ptr isCode = (false,entries) := by
      unfold Editor.memoryCreateLabel
      split
      · next hname =>
          rcases hrefused with hempty | hlong | hlookup
          · exact absurd (List.eq_nil_of_length_eq_zero hempty) hname.1
          · exact absurd hname.2 (Nat.not_le_of_lt hlong)
          · rcases hfound with ⟨rfl,-⟩ | ⟨-,entry,hentry,-⟩
            · exact absurd hp hlookup
            · rw [hentry]
              rfl
      · rfl
    rw [hlist,newEntries_self,List.append_nil]
    exact ⟨rfl,hholds⟩
  · have hlist : Editor.memoryCreateLabel entries label.bytes ptr isCode =
        (true,entries ++ [labelEntry label ptr isCode]) := by
      obtain rfl := Option.some.inj (hp.symm.trans hnone)
      have hnew : MemoryStore.memoryLookupLabel entries label.bytes = none := by
        rcases hfound with ⟨-,hnew⟩ | ⟨hne,-⟩
        · exact hnew
        · exact absurd rfl hne
      rw [Editor.memoryCreateLabel,dif_pos ⟨label.nonempty,label.bounded⟩,hnew]
      rfl
    rw [hlist,ha.newEntries_eq]
    exact ⟨rfl,hl.represents_append ha hholds hlabel⟩

end

section
variable {stackCeiling userStart : Address} {memory : Memory} {s : Store} {g g' : History}
  {entries : List MemoryEntry}

/-- Each call is a function on the list, and other writes are none. -/
theorem StoreStep.refines (h : StoreStep stackCeiling g g') (hc : Coherent stackCeiling g)
    (hentries : Represents g entries) :
    ∃ entries', ReflGen EntriesStep entries entries' ∧ Represents g' entries' := by
  cases h with
  | createLabel call h =>
      exact ⟨_,.single (.createLabel call.name call.ptr call.isCode),
        (hc.layout.createLabel_refines hentries h).2⟩
  | sysAlloc size h =>
      unfold Represents
      rcases memorySysAlloc_eq_some hc.layout h with
        ⟨q,hq,hfree,-,hu,hallocated⟩ | ⟨n,-,ha,rfl,hholds⟩
      · obtain ⟨before,entry,after,rfl,hentry,hexchange⟩ :=
          hc.layout.represents_update hu hq hentries
        obtain ⟨htype,hunused,-⟩ := (isFreeAllocation_iff _ _ _).mp hfree
        obtain ⟨size,addr,rfl⟩ := holds_alloc hentry htype
        have hmark := hexchange _ (hu.holds_alloc hentry hallocated)
        rw [hu.newEntries_eq,List.append_nil]
        refine ⟨_,.single (.markAlloc ?_),hmark⟩
        rw [hunused]
        rfl
      · rw [ha.newEntries_eq]
        exact ⟨_,.single (.newAlloc _ _),hc.layout.represents_append ha hentries hholds⟩
  | @sysFree block s' hblock h =>
      obtain ⟨htype,hused,hu,hunused⟩ := memorySysFree_eq_some h
      obtain ⟨before,entry,after,rfl,hentry,hexchange⟩ :=
        hc.layout.represents_update hu (hc.headed block hblock).mem hentries
      obtain ⟨size,addr,rfl⟩ := holds_alloc hentry htype
      have hmark := hexchange _ (hu.holds_alloc hentry hunused)
      refine ⟨_,.single (.markAlloc ?_),hmark⟩
      rw [hused]
      rfl
  | updateSectionSize newSize hq h =>
      obtain ⟨htype,hu,hsize⟩ := memoryUpdateSectionSize_eq_some h
      obtain ⟨before,entry,after,rfl,hentry,hexchange⟩ :=
        hc.layout.represents_update hu hq hentries
      have hsection := holds_section hentry htype
      exact ⟨_,.single (@EntriesStep.updateSectionSize _ before after ⟨entry,hsection⟩ newSize rfl),
        hexchange _ (hu.holds_section hentry hsize)⟩
  | write m hagree =>
      exact ⟨entries,.refl,forall₂_of_mem hentries fun p hp _ h => (hagree p hp).butLink.holds h⟩

theorem StoreRun.refines (h : StoreRun stackCeiling g g') (hc : Coherent stackCeiling g)
    (hentries : Represents g entries) :
    ∃ entries', ReflTransGen EntriesStep entries entries' ∧ Represents g' entries' := by
  induction h with
  | refl => exact ⟨entries,.refl,hentries⟩
  | tail hbefore hstep ih =>
      obtain ⟨entries₁,hsteps,hentries₁⟩ := ih
      obtain ⟨entries₂,hlast,hentries₂⟩ := hstep.refines (hc.run hbefore) hentries₁
      exact ⟨entries₂,hsteps.trans hlast.to_reflTransGen,hentries₂⟩

/-- The functions of the store answer as those on the list. -/
structure Refines (stackCeiling : Address) (g : History) (entries : List MemoryEntry) : Prop where
  holds : Represents g entries
  lookupLabel : ∀ name, ∃ p, memoryLookupLabel stackCeiling g.store name = some p ∧
    Answers g.store.memory p (MemoryStore.memoryLookupLabel entries name)
  rlookupLabel : ∀ ptr, ∃ p, memoryRlookupLabel stackCeiling g.store ptr = some p ∧
    Answers g.store.memory p (MemoryStore.memoryRlookupLabel entries ptr)
  lookupSection : ∀ ptr, ∃ p, memoryLookupSection stackCeiling g.store ptr = some p ∧
    Answers g.store.memory p ((MemoryStore.memoryLookupSection entries ptr).map (·.toMemoryEntry))
  createLabel : ∀ name ptr isCode ok s',
    memoryCreateLabel stackCeiling g.store name ptr isCode = some (ok,s') →
      (Editor.memoryCreateLabel entries name ptr isCode).1 = ok

theorem answers_of {m : Memory} {p : Address} {found : Option MemoryEntry}
    (h : (p = 0 ∧ found = none) ∨ p ≠ 0 ∧ ∃ entry, found = some entry ∧ Holds m p entry) :
    Answers m p found := by
  rcases h with ⟨hnull,rfl⟩ | ⟨hne,entry,rfl,hholds⟩
  · exact hnull
  · exact ⟨hne,hholds⟩

theorem Layout.refines (hl : Layout stackCeiling g.created g.store)
    (hentries : Represents g entries) : Refines stackCeiling g entries where
  holds := hentries
  lookupLabel name := by
    obtain ⟨p,hp,hfound⟩ := hl.lookupLabel_refines hentries name
    exact ⟨p,hp,answers_of hfound⟩
  rlookupLabel ptr := by
    obtain ⟨p,hp,hfound⟩ := hl.rlookupLabel_refines hentries ptr
    exact ⟨p,hp,answers_of hfound⟩
  lookupSection ptr := by
    obtain ⟨p,hp,⟨hnull,hnone⟩ | ⟨hne,entry,hentry,hholds⟩⟩ :=
      hl.lookupSection_refines hentries ptr
    · rw [hnone]
      exact ⟨p,hp,hnull⟩
    · rw [hentry]
      exact ⟨p,hp,hne,hholds⟩
  createLabel _ _ _ _ _ h := (hl.createLabel_refines hentries h).1

/-- In every run the bytes of the store hold the entries that the functions on lists lead to. -/
theorem storeRun_refines (hinit : memoryInit stackCeiling userStart memory = some s)
    (hrun : StoreRun stackCeiling (historyInit s) g) : ∃ entries,
      ReflTransGen EntriesStep [{ type := .etSection 0, addr := userStart }] entries ∧
        Refines stackCeiling g entries := by
  have hc := coherent_init hinit
  have hfirst : Represents (historyInit s) [{ type := .etSection 0, addr := userStart }] :=
    .cons (memoryInit_layout hinit).2 .nil
  obtain ⟨entries,hsteps,hentries⟩ := StoreRun.refines hrun hc hfirst
  exact ⟨entries,hsteps,(hc.run hrun).layout.refines hentries⟩

/-- A label and an allocation that is freed again. -/
theorem storeRun_refines_freed : ∃ (s : Store) (g : History) (entries : List MemoryEntry),
    memoryInit 512 1024 (fun _ => 0) = some s ∧ StoreRun 512 (historyInit s) g ∧
      g.created = [488,464,416] ∧
      ReflTransGen EntriesStep [{ type := .etSection 0, addr := 1024 }] entries ∧
      Refines 512 g entries := by
  obtain ⟨entries,hsteps,hrefines⟩ := @storeRun_refines 512 1024 (fun _ => 0) _ _ rfl
    (.tail (.tail (.single (.createLabel ⟨[97],2000,true⟩ rfl)) (.sysAlloc 10 rfl))
      (@StoreStep.sysFree _ _ ⟨440,10⟩ _ (by decide) rfl))
  exact ⟨_,_,entries,rfl,.tail (.tail (.single (.createLabel ⟨[97],2000,true⟩ rfl))
    (.sysAlloc 10 rfl)) (@StoreStep.sysFree _ _ ⟨440,10⟩ _ (by decide) rfl),by decide,hsteps,
    hrefines⟩

end

end TwMonitor.EntryStore
