import Mathlib.Logic.Relation
import TwMonitor.EntryOperations

/-!
# Runs of the memory store

The calls that other parts of the monitor make, in any order, with what their
callers are promised: an allocation is freed by whoever holds it, only entries of
the store are given back to it, and whatever else is written to memory spares the
entries. Beside the store there is the history of the calls.
-/
namespace TwMonitor.EntryStore
open ByteMemory NullChain BlockStack Relation

/-- A block that is allocated, with the size that was asked for. -/
structure Block where
  ptr : Address
  size : BitVec 32
deriving DecidableEq, Repr

/-- A label that was created, as its caller gave it. -/
structure LabelCall where
  name : List (BitVec 8)
  ptr : Address
  isCode : Bool
deriving DecidableEq, Repr

structure History where
  store : Store
  created : List Address
  live : List Block := []
  labels : List LabelCall := []

def historyInit (s : Store) : History := { store := s, created := [s.lastMemoryEntry] }

/-- Every entry is the last one when it is created. -/
def newEntries (s s' : Store) : List Address :=
  if s'.lastMemoryEntry = s.lastMemoryEntry then [] else [s'.lastMemoryEntry]

inductive StoreStep (stackCeiling : Address) (g : History) : History → Prop
  | createLabel (call : LabelCall) {ok : Bool} {s' : Store} :
      memoryCreateLabel stackCeiling g.store call.name call.ptr call.isCode = some (ok,s') →
      StoreStep stackCeiling g
        { g with
          store := s'
          created := g.created ++ newEntries g.store s'
          labels := if ok then g.labels ++ [call] else g.labels }
  | sysAlloc (size : BitVec 32) {ptr : Address} {s' : Store} :
      memorySysAlloc stackCeiling g.store size = some (ptr,s') →
      StoreStep stackCeiling g
        { g with
          store := s'
          created := g.created ++ newEntries g.store s'
          live := g.live ++ [{ ptr, size }] }
  | sysFree {block : Block} {s' : Store} : block ∈ g.live →
      memorySysFree g.store block.ptr = some s' →
      StoreStep stackCeiling g { g with store := s', live := g.live.erase block }
  | updateSectionSize {entry : Address} (newSize : BitVec 32) {s' : Store} : entry ∈ g.created →
      memoryUpdateSectionSize g.store entry newSize = some s' →
      StoreStep stackCeiling g { g with store := s' }
  | write (m : Memory) : (∀ p ∈ g.created, Agree 24 g.store.memory m p) →
      StoreStep stackCeiling g { g with store := { g.store with memory := m } }

abbrev StoreRun (stackCeiling : Address) : History → History → Prop :=
  ReflTransGen (StoreStep stackCeiling)

section
variable {stackCeiling userStart : Address} {created : List Address} {s s' : Store} {q : Address}
  {k : ℕ}

theorem Appended.newEntries_eq (h : Appended k s s') : newEntries s s' = [s'.lastMemoryEntry] := by
  have hroom := h.room
  have hk := footprint_ge s'.memory s'.lastMemoryEntry
  rw [h.size] at hk
  refine if_neg fun hsame => ?_
  rw [hsame] at hroom
  omega

theorem Updated.newEntries_eq (h : Updated q s s') : newEntries s s' = [] := if_pos h.last

theorem newEntries_self (s : Store) : newEntries s s = [] := if_pos rfl

theorem isFreeAllocation_iff (m : Memory) (size : BitVec 32) (e : Address) :
    isFreeAllocation m size e = true ↔ entryType m e = etSysDynAlloc ∧
      allocIsAllocated m e = false ∧ size.toNat ≤ (allocSize m e).toNat := by
  unfold isFreeAllocation memoryEntryIsAllocation
  split
  · next hother =>
      rw [Bool.or_eq_true,Bool.not_eq_true',beq_eq_false_iff_ne] at hother
      refine ⟨fun hfalse => absurd hfalse Bool.false_ne_true,fun hfree => ?_⟩
      rcases hother with htype | hallocated
      · exact absurd hfree.1 htype
      · exact absurd (hfree.2.1.symm.trans hallocated) Bool.false_ne_true
  · next hother =>
      rw [Bool.or_eq_true,not_or,Bool.not_eq_true',beq_eq_false_iff_ne,not_not,
        Bool.not_eq_true] at hother
      rw [decide_eq_true_eq]
      exact ⟨fun hsize => ⟨hother.1,hother.2,hsize⟩,fun hfree => hfree.2.2⟩

end

/-! ## The invariant of a run -/

/-- The header of a live block is right below its pointer. -/
structure Headed (m : Memory) (created : List Address) (block : Block) : Prop where
  mem : block.ptr - 24 ∈ created
  type : entryType m (block.ptr - 24) = etSysDynAlloc
  allocated : allocIsAllocated m (block.ptr - 24) = true
  size : block.size.toNat ≤ (allocSize m (block.ptr - 24)).toNat

/-- The live blocks are the allocations that are in use. -/
structure Coherent (stackCeiling : Address) (g : History) : Prop where
  layout : Layout stackCeiling g.created g.store
  headed : ∀ block ∈ g.live, Headed g.store.memory g.created block
  distinct : (g.live.map Block.ptr).Nodup
  held : ∀ p ∈ g.created, entryType g.store.memory p = etSysDynAlloc →
    allocIsAllocated g.store.memory p = true → ∃ block ∈ g.live, block.ptr - 24 = p

theorem Headed.congr {m m' : Memory} {created created' : List Address} {block : Block}
    (h : Headed m created block) (hmem : block.ptr - 24 ∈ created')
    (hagree : AgreeButLink m m' (block.ptr - 24)) : Headed m' created' block where
  mem := hmem
  type := hagree.entryType.trans h.type
  allocated := hagree.allocIsAllocated.trans h.allocated
  size := by
    rw [hagree.allocSize]
    exact h.size

namespace Coherent
variable {stackCeiling : Address} {g g' : History} {s' : Store} {block : Block}

/-- Nothing changes for the allocations. -/
theorem keep (hc : Coherent stackCeiling g) (hlayout : Layout stackCeiling g'.created g'.store)
    (hlive : g'.live = g.live) (hmem : ∀ p ∈ g.created, p ∈ g'.created)
    (hagree : ∀ p ∈ g.created, entryType g.store.memory p = etSysDynAlloc →
      AgreeButLink g.store.memory g'.store.memory p)
    (hold : ∀ p ∈ g'.created, entryType g'.store.memory p = etSysDynAlloc →
      p ∈ g.created ∧ entryType g.store.memory p = etSysDynAlloc) :
    Coherent stackCeiling g' where
  layout := hlayout
  headed block hblock := by
    rw [hlive] at hblock
    have hheaded := hc.headed block hblock
    exact hheaded.congr (hmem _ hheaded.mem) (hagree _ hheaded.mem hheaded.type)
  distinct := by
    rw [hlive]
    exact hc.distinct
  held p hp htype hallocated := by
    obtain ⟨hp,htype⟩ := hold p hp htype
    rw [(hagree p hp htype).allocIsAllocated] at hallocated
    rw [hlive]
    exact hc.held p hp htype hallocated

/-- One more block is live, and the others keep their headers. -/
theorem grow (hc : Coherent stackCeiling g) (hlayout : Layout stackCeiling g'.created g'.store)
    (hlive : g'.live = g.live ++ [block]) (hmem : ∀ p ∈ g.created, p ∈ g'.created)
    (hblock : Headed g'.store.memory g'.created block)
    (hagree : ∀ p ∈ g.created, p ≠ block.ptr - 24 →
      AgreeButLink g.store.memory g'.store.memory p)
    (hold : ∀ p ∈ g'.created, p ≠ block.ptr - 24 → p ∈ g.created)
    (hfree : ∀ other ∈ g.live, other.ptr - 24 ≠ block.ptr - 24) :
    Coherent stackCeiling g' where
  layout := hlayout
  headed other hother := by
    rw [hlive] at hother
    rcases List.mem_append.mp hother with hother | hnew
    · have hheaded := hc.headed other hother
      exact hheaded.congr (hmem _ hheaded.mem) (hagree _ hheaded.mem (hfree other hother))
    · rw [List.mem_singleton.mp hnew]
      exact hblock
  distinct := by
    rw [hlive,List.map_append,List.nodup_append]
    refine ⟨hc.distinct,List.nodup_singleton _,?_⟩
    rintro _ hptr _ hnew rfl
    obtain ⟨other,hother,hsame⟩ := List.mem_map.mp hptr
    rw [List.map_singleton,List.mem_singleton] at hnew
    exact hfree other hother (congrArg (· - 24) (hsame.trans hnew))
  held p hp htype hallocated := by
    rw [hlive]
    by_cases hnew : p = block.ptr - 24
    · exact ⟨block,List.mem_append_right _ List.mem_cons_self,hnew.symm⟩
    · have hp := hold p hp hnew
      have hsame := hagree p hp hnew
      rw [hsame.entryType] at htype
      rw [hsame.allocIsAllocated] at hallocated
      obtain ⟨other,hother,hheader⟩ := hc.held p hp htype hallocated
      exact ⟨other,List.mem_append_left _ hother,hheader⟩

/-! ## The steps -/

theorem createLabel (hc : Coherent stackCeiling g) {call : LabelCall} {ok : Bool}
    (h : memoryCreateLabel stackCeiling g.store call.name call.ptr call.isCode = some (ok,s'))
    (labels : List LabelCall) :
    Coherent stackCeiling
      { store := s', created := g.created ++ newEntries g.store s', live := g.live, labels } := by
  rcases memoryCreateLabel_eq_some hc.layout h with ⟨-,rfl,-⟩ | ⟨-,-,ha,label,-,hholds⟩
  · rw [newEntries_self,List.append_nil]
    exact ⟨hc.layout,hc.headed,hc.distinct,hc.held⟩
  · rw [ha.newEntries_eq]
    refine hc.keep (hc.layout.append ha) rfl (fun p hp => List.mem_append_left _ hp)
      (fun p hp _ => hc.layout.agreeButLink ha hp) fun p hp htype => ?_
    rcases List.mem_append.mp hp with hold | hnew
    · exact ⟨hold,(hc.layout.agreeButLink ha hold).entryType.symm.trans htype⟩
    · rw [List.mem_singleton.mp hnew] at htype
      have hlabel := labelEntry_not_alloc label call.ptr call.isCode
      exact absurd (hholds.entryType.symm.trans htype) hlabel

/-- A free allocation is used again. -/
theorem reuse (hc : Coherent stackCeiling g) {e : Address} {size : BitVec 32}
    (he : e ∈ g.created) (hfree : isFreeAllocation g.store.memory size e = true)
    (hu : Updated e g.store s') (hallocated : allocIsAllocated s'.memory e = true) :
    Coherent stackCeiling
      { g with
        store := s'
        live := g.live ++ [{ ptr := entryAddr g.store.memory e, size }] } := by
  obtain ⟨htype,hunused,hfits⟩ := (isFreeAllocation_iff _ _ _).mp hfree
  have hheader : entryAddr g.store.memory e - 24 = e := by
    rw [hc.layout.payload e he htype]
    exact BitVec.add_sub_cancel e 24
  refine hc.grow (hc.layout.update hu he) rfl (fun p hp => hp) ?_ ?_ (fun p hp _ => hp) ?_
  · refine ⟨?_,?_,?_,?_⟩
    · rwa [hheader]
    · rw [hheader]
      exact hu.agree.entryType.trans htype
    · rw [hheader]
      exact hallocated
    · rw [hheader,hu.allocSize]
      exact hfits
  · intro p hp hne
    rw [hheader] at hne
    exact (hc.layout.agree_of_updated hu he hp hne).butLink
  · intro other hother hsame
    rw [hheader] at hsame
    have hused := (hc.headed other hother).allocated
    rw [hsame,hunused] at hused
    exact absurd hused Bool.false_ne_true

/-- The allocation is a new entry. -/
theorem extend (hc : Coherent stackCeiling g) {n : ℕ} {size : BitVec 32}
    (hsize : size.toNat ≤ 24 * n) (ha : Appended (24 * (n + 1)) g.store s')
    (hholds : Holds s'.memory s'.lastMemoryEntry
      { type := .etSysDynAlloc true (BitVec.ofNat 32 (24 * n))
        addr := s'.lastMemoryEntry + 24 }) :
    Coherent stackCeiling
      { g with
        store := s'
        created := g.created ++ [s'.lastMemoryEntry]
        live := g.live ++ [{ ptr := s'.lastMemoryEntry + 24, size }] } := by
  obtain ⟨-,htype,hallocated,hactual⟩ := hholds
  have hheader : s'.lastMemoryEntry + 24 - 24 = s'.lastMemoryEntry :=
    BitVec.add_sub_cancel s'.lastMemoryEntry 24
  refine hc.grow (hc.layout.append ha) rfl (fun p hp => List.mem_append_left _ hp) ?_
    (fun p hp _ => hc.layout.agreeButLink ha hp) ?_ ?_
  · refine ⟨?_,?_,?_,?_⟩
    · rw [hheader]
      exact List.mem_append_right _ List.mem_cons_self
    · rw [hheader]
      exact htype
    · rw [hheader]
      exact hallocated
    · rw [hheader,hactual,BitVec.toNat_ofNat,Nat.mod_eq_of_lt]
      · exact hsize
      · have hroom := ha.room
        have hlt := g.store.lastMemoryEntry.isLt
        omega
  · intro p hp hne
    rw [hheader] at hne
    exact (List.mem_append.mp hp).resolve_right fun hnew => hne (List.mem_singleton.mp hnew)
  · intro other hother hsame
    rw [hheader] at hsame
    have hmem := (hc.headed other hother).mem
    rw [hsame] at hmem
    exact hc.layout.new_not_mem ha hmem

theorem sysAlloc (hc : Coherent stackCeiling g) {size : BitVec 32} {ptr : Address}
    (h : memorySysAlloc stackCeiling g.store size = some (ptr,s')) :
    Coherent stackCeiling
      { g with
        store := s'
        created := g.created ++ newEntries g.store s'
        live := g.live ++ [{ ptr, size }] } := by
  rcases memorySysAlloc_eq_some hc.layout h with
    ⟨e,he,hfree,rfl,hu,hallocated⟩ | ⟨n,hsize,ha,rfl,hholds⟩
  · rw [hu.newEntries_eq,List.append_nil]
    exact hc.reuse he hfree hu hallocated
  · rw [ha.newEntries_eq]
    exact hc.extend hsize ha hholds

theorem sysFree (hc : Coherent stackCeiling g) (hblock : block ∈ g.live)
    (h : memorySysFree g.store block.ptr = some s') :
    Coherent stackCeiling { g with store := s', live := g.live.erase block } := by
  obtain ⟨-,-,hu,hunused⟩ := memorySysFree_eq_some h
  have hmem := (hc.headed block hblock).mem
  have hnodup : g.live.Nodup := List.Nodup.of_map _ hc.distinct
  have hagree {p : Address} (hp : p ∈ g.created) (hne : p ≠ block.ptr - 24) :
      AgreeButLink g.store.memory s'.memory p :=
    (hc.layout.agree_of_updated hu hmem hp hne).butLink
  refine ⟨hc.layout.update hu hmem,?_,?_,?_⟩
  · intro other hother
    obtain ⟨hne,hother⟩ := hnodup.mem_erase_iff.mp hother
    have hheaded := hc.headed other hother
    refine hheaded.congr hheaded.mem (hagree hheaded.mem fun hsame => hne ?_)
    exact List.inj_on_of_nodup_map hc.distinct hother hblock
      ((BitVec.sub_left_inj 24).mp hsame)
  · exact hc.distinct.sublist ((List.erase_sublist).map _)
  · intro p hp htype hallocated
    have hne : p ≠ block.ptr - 24 := by
      rintro rfl
      exact absurd (hunused.symm.trans hallocated) Bool.false_ne_true
    have hsame := hagree hp hne
    rw [hsame.entryType] at htype
    rw [hsame.allocIsAllocated] at hallocated
    obtain ⟨other,hother,hheader⟩ := hc.held p hp htype hallocated
    refine ⟨other,hnodup.mem_erase_iff.mpr ⟨?_,hother⟩,hheader⟩
    rintro rfl
    exact hne hheader.symm

theorem updateSectionSize (hc : Coherent stackCeiling g) {entry : Address} {newSize : BitVec 32}
    (hentry : entry ∈ g.created)
    (h : memoryUpdateSectionSize g.store entry newSize = some s') :
    Coherent stackCeiling { g with store := s' } := by
  obtain ⟨hsection,hu,-⟩ := memoryUpdateSectionSize_eq_some h
  have hother : etSection ≠ etSysDynAlloc := by decide
  have hagree {p : Address} (hp : p ∈ g.created) (hne : p ≠ entry) :
      AgreeButLink g.store.memory s'.memory p :=
    (hc.layout.agree_of_updated hu hentry hp hne).butLink
  refine hc.keep (hc.layout.update hu hentry) rfl (fun p hp => hp) ?_ ?_
  · intro p hp htype
    refine hagree hp ?_
    rintro rfl
    exact hother (hsection.symm.trans htype)
  · intro p hp htype
    refine ⟨hp,?_⟩
    by_cases hne : p = entry
    · obtain rfl := hne
      exact hu.agree.entryType.symm.trans htype
    · exact (hagree hp hne).entryType.symm.trans htype

theorem write (hc : Coherent stackCeiling g) {m : Memory}
    (hagree : ∀ p ∈ g.created, Agree 24 g.store.memory m p) :
    Coherent stackCeiling { g with store := { g.store with memory := m } } := by
  have hbut {p : Address} (hp : p ∈ g.created) : AgreeButLink g.store.memory m p :=
    (hagree p hp).butLink
  exact hc.keep
    (hc.layout.transport (fun p hp => (hagree p hp).mono (by decide)) fun p hp =>
      (hbut hp).footprint)
    rfl (fun p hp => hp) (fun p hp _ => hbut hp) fun p hp htype =>
      ⟨hp,(hbut hp).entryType.symm.trans htype⟩

theorem step (hc : Coherent stackCeiling g) (h : StoreStep stackCeiling g g') :
    Coherent stackCeiling g' := by
  cases h with
  | createLabel call h => exact hc.createLabel h _
  | sysAlloc size h => exact hc.sysAlloc h
  | sysFree hblock h => exact hc.sysFree hblock h
  | updateSectionSize newSize hentry h => exact hc.updateSectionSize hentry h
  | write m hagree => exact hc.write hagree

theorem run (hc : Coherent stackCeiling g) (h : StoreRun stackCeiling g g') :
    Coherent stackCeiling g' := by
  induction h with
  | refl => exact hc
  | tail _ hstep ih => exact ih.step hstep

end Coherent

section
variable {stackCeiling userStart : Address} {memory : Memory} {s : Store} {g : History}

theorem coherent_init (hinit : memoryInit stackCeiling userStart memory = some s) :
    Coherent stackCeiling (historyInit s) := by
  obtain ⟨hlayout,_,hsection,-⟩ := memoryInit_layout hinit
  refine ⟨hlayout,?_,List.nodup_nil,?_⟩
  · exact fun block hblock => absurd hblock List.not_mem_nil
  · intro p hp htype
    obtain rfl := List.mem_singleton.mp hp
    exact absurd (hsection.symm.trans htype) (by decide)

/-- The chain passes all entries in the order they were created, always down, and
they tile the region below the stack with the blocks of the allocations. -/
theorem store_tiled (hinit : memoryInit stackCeiling userStart memory = some s)
    (hrun : StoreRun stackCeiling (historyInit s) g) :
    collect (entryNext g.store.memory) 0 chainBound (getFirstMemoryEntry stackCeiling) =
        some g.created ∧
      g.created.Pairwise (fun p q => q < p) ∧
      g.created.getLast? = some g.store.lastMemoryEntry ∧
      entryNext g.store.memory g.store.lastMemoryEntry = 0 ∧
      Stacked BitVec.toNat (footprint g.store.memory) stackCeiling.toNat g.created
        g.store.lastMemoryEntry.toNat ∧
      ∀ p ∈ g.created, entryType g.store.memory p = etSysDynAlloc →
        entryAddr g.store.memory p = p + 24 := by
  have hlayout := ((coherent_init hinit).run hrun).layout
  obtain ⟨before,hbefore⟩ := hlayout.last
  have hpath := hlayout.path
  refine ⟨?_,?_,?_,?_,hlayout.stacked,hlayout.payload⟩
  · exact collect_eq hpath (fun hzero => hlayout.ne_zero hzero rfl) hlayout.length_lt
  · refine hlayout.stacked.pairwise.imp fun {p q} hbelow => ?_
    have hsize := footprint_ge g.store.memory q
    exact BitVec.lt_def.mpr (by omega)
  · rw [hbefore,List.getLast?_append]
    rfl
  · rw [hbefore] at hpath
    exact (path_concat.mp hpath).2

end

/-- The header and the 24 bytes of an allocation of ten, and a label below them. -/
theorem store_tiled_label : ∃ (s : Store) (g : History),
    memoryInit 512 1024 (fun _ => 0) = some s ∧ StoreRun 512 (historyInit s) g ∧
      g.created = [488,440,416] ∧
      collect (entryNext g.store.memory) 0 chainBound (getFirstMemoryEntry 512) = some g.created ∧
      Stacked BitVec.toNat (footprint g.store.memory) 512 g.created
        g.store.lastMemoryEntry.toNat := by
  refine ⟨_,_,rfl,.tail (.single (.sysAlloc 10 rfl)) (.createLabel ⟨[97],2000,true⟩ rfl),?_⟩
  have htiled := @store_tiled 512 1024 (fun _ => 0) _ _ rfl
    (.tail (.single (.sysAlloc 10 rfl)) (.createLabel ⟨[97],2000,true⟩ rfl))
  exact ⟨by decide,htiled.1,htiled.2.2.2.2.1⟩

end TwMonitor.EntryStore
