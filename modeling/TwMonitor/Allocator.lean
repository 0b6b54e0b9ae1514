import TwMonitor.StoreRuns

/-!
# The contract of the allocator

A block is used again by whoever fits first, and it may be larger than what is
asked for. Whatever the order of the calls, a live block belongs to its caller
alone until it is freed.
-/
namespace TwMonitor.EntryStore
open ByteMemory NullChain BlockStack

/-- The bytes that the header of a block gives to it. -/
def usable (m : Memory) (block : Block) : ℕ := (allocSize m (block.ptr - 24)).toNat

/-- The byte belongs to the block. -/
def Block.Owns (m : Memory) (block : Block) (a : Address) : Prop :=
  InRange block.ptr (usable m block) a

/-- What the caller of an allocation may rely on. -/
structure Granted (stackCeiling : Address) (g : History) (block : Block) : Prop where
  size : block.size.toNat ≤ usable g.store.memory block
  below : block.ptr.toNat + usable g.store.memory block ≤ stackCeiling.toNat
  header : block.ptr - 24 ∈ g.created ∧ entryAddr g.store.memory (block.ptr - 24) = block.ptr
  apart : ∀ p ∈ g.created, ∀ a, block.Owns g.store.memory a → ¬ InRange p 24 a
  aligned : 8 ∣ stackCeiling.toNat → 8 ∣ block.ptr.toNat
  free : (memorySysFree g.store block.ptr).isSome = true

namespace Coherent
variable {stackCeiling : Address} {g : History} {block other : Block}

/-- With its header the block is what the entry takes. -/
theorem footprint_eq (hc : Coherent stackCeiling g) (hblock : block ∈ g.live) :
    footprint g.store.memory (block.ptr - 24) = 24 + usable g.store.memory block := by
  rw [footprint,if_pos (hc.headed block hblock).type]
  rfl

theorem ptr_eq (hc : Coherent stackCeiling g) (hblock : block ∈ g.live) :
    block.ptr.toNat = (block.ptr - 24).toNat + 24 := by
  have hbounds := (hc.layout.bounds (hc.headed block hblock).mem).2
  have hsize := footprint_ge g.store.memory (block.ptr - 24)
  have hceiling := stackCeiling.isLt
  have hlow := hc.layout.low
  have hle := (hc.layout.bounds (hc.headed block hblock).mem).1
  bv_omega

theorem ptr_le (hc : Coherent stackCeiling g) (hblock : block ∈ g.live) :
    block.ptr.toNat + usable g.store.memory block ≤ stackCeiling.toNat := by
  have hbounds := (hc.layout.bounds (hc.headed block hblock).mem).2
  rw [hc.footprint_eq hblock] at hbounds
  rw [hc.ptr_eq hblock]
  omega

theorem owns_iff (hc : Coherent stackCeiling g) (hblock : block ∈ g.live) {a : Address} :
    block.Owns g.store.memory a ↔ block.ptr.toNat ≤ a.toNat ∧
      a.toNat < block.ptr.toNat + usable g.store.memory block :=
  inRange_iff ((hc.ptr_le hblock).trans stackCeiling.isLt.le)

theorem apart_header (hc : Coherent stackCeiling g) (hblock : block ∈ g.live) {p a : Address}
    (hp : p ∈ g.created) (ha : block.Owns g.store.memory a) : ¬ InRange p 24 a := by
  have hmem := (hc.headed block hblock).mem
  have hptr := hc.ptr_eq hblock
  have hbounds := (hc.layout.bounds hp).2
  have hsize := footprint_ge g.store.memory p
  have hceiling := stackCeiling.isLt
  rw [hc.owns_iff hblock] at ha
  rw [inRange_iff (by omega)]
  by_cases hsame : block.ptr - 24 = p
  · rw [← hsame]
    omega
  · have hdisjoint := hc.layout.stacked.disjoint hmem hp hsame
    rw [hc.footprint_eq hblock] at hdisjoint
    omega

theorem apart_block (hc : Coherent stackCeiling g) (hblock : block ∈ g.live)
    (hother : other ∈ g.live) (hne : block.ptr ≠ other.ptr) {a : Address}
    (ha : block.Owns g.store.memory a) : ¬ other.Owns g.store.memory a := by
  have hptr := hc.ptr_eq hblock
  have hotherPtr := hc.ptr_eq hother
  have hheaders : block.ptr - 24 ≠ other.ptr - 24 := fun hsame =>
    hne ((BitVec.sub_left_inj 24).mp hsame)
  have hdisjoint := hc.layout.stacked.disjoint (hc.headed block hblock).mem
    (hc.headed other hother).mem hheaders
  rw [hc.footprint_eq hblock,hc.footprint_eq hother] at hdisjoint
  rw [hc.owns_iff hblock] at ha
  rw [hc.owns_iff hother]
  omega

theorem granted (hc : Coherent stackCeiling g) (hblock : block ∈ g.live) :
    Granted stackCeiling g block where
  size := (hc.headed block hblock).size
  below := hc.ptr_le hblock
  header := by
    have hheaded := hc.headed block hblock
    refine ⟨hheaded.mem,?_⟩
    rw [hc.layout.payload _ hheaded.mem hheaded.type]
    exact BitVec.sub_add_cancel block.ptr 24
  apart _ hp _ ha := hc.apart_header hblock hp ha
  aligned hceiling := by
    have hbase := hc.layout.stacked.dvd hceiling
      (fun p hp => Nat.dvd_trans (by decide) (hc.layout.multiple p hp))
      (hc.headed block hblock).mem
    rw [hc.ptr_eq hblock]
    exact (Nat.dvd_add_right hbase).mpr (by decide)
  free := by
    have hheaded := hc.headed block hblock
    rw [memorySysFree,if_pos ⟨hheaded.type,hheaded.allocated⟩]
    rfl

/-- What is handed out is not in use. -/
theorem sysAlloc_fresh (hc : Coherent stackCeiling g) {size : BitVec 32} {ptr : Address}
    {s' : Store} (h : memorySysAlloc stackCeiling g.store size = some (ptr,s')) :
    ∀ block ∈ g.live, block.ptr ≠ ptr := by
  have hdistinct := (hc.sysAlloc h).distinct
  rw [List.map_append,List.nodup_append] at hdistinct
  intro block hblock
  exact hdistinct.2.2 _ (List.mem_map_of_mem hblock) _ List.mem_cons_self

end Coherent

/-- Along every run the live blocks are what their callers asked for, no two of them
share a byte, and what is handed out is none of them. -/
theorem sysAlloc_contract {stackCeiling userStart : Address} {memory : Memory} {s : Store}
    {g : History} (hinit : memoryInit stackCeiling userStart memory = some s)
    (hrun : StoreRun stackCeiling (historyInit s) g) :
    (∀ block ∈ g.live, Granted stackCeiling g block) ∧
      g.live.Pairwise (fun block other => block.ptr ≠ other.ptr ∧
        ∀ a, block.Owns g.store.memory a → ¬ other.Owns g.store.memory a) ∧
      ∀ size ptr s', memorySysAlloc stackCeiling g.store size = some (ptr,s') →
        (∀ block ∈ g.live, block.ptr ≠ ptr) ∧
          ∃ g', StoreStep stackCeiling g g' ∧ g'.store = s' ∧
            g'.live = g.live ++ [⟨ptr,size⟩] ∧ Granted stackCeiling g' ⟨ptr,size⟩ := by
  have hc := (coherent_init hinit).run hrun
  refine ⟨fun block hblock => hc.granted hblock,?_,?_⟩
  · have hdistinct := List.pairwise_map.mp hc.distinct
    exact hdistinct.imp_of_mem fun hblock hother hne =>
      ⟨hne,fun a ha => hc.apart_block hblock hother hne ha⟩
  · intro size ptr s' h
    refine ⟨hc.sysAlloc_fresh h,_,.sysAlloc size h,rfl,rfl,?_⟩
    exact (hc.sysAlloc h).granted (List.mem_append_right _ List.mem_cons_self)

/-- A block of 24 bytes that was freed is used again for twenty. -/
theorem sysAlloc_contract_reuse : ∃ (s : Store) (g : History),
    memoryInit 512 1024 (fun _ => 0) = some s ∧ StoreRun 512 (historyInit s) g ∧
      g.live = [⟨464,20⟩] ∧ g.created = [488,440] ∧ ∀ block ∈ g.live, Granted 512 g block := by
  refine ⟨_,_,rfl,.tail (.tail (.single (.sysAlloc 10 rfl))
    (@StoreStep.sysFree 512 _ ⟨464,10⟩ _ (List.mem_singleton.mpr rfl) rfl)) (.sysAlloc 20 rfl),?_⟩
  have hcontract := @sysAlloc_contract 512 1024 (fun _ => 0) _ _ rfl
    (.tail (.tail (.single (.sysAlloc 10 rfl))
      (@StoreStep.sysFree 512 _ ⟨464,10⟩ _ (List.mem_singleton.mpr rfl) rfl)) (.sysAlloc 20 rfl))
  exact ⟨by decide,by decide,hcontract.1⟩

/-! ## Blocks in use -/

/-- The blocks of the allocations in use, in the order of the chain. -/
def blocksInUse (stackCeiling : Address) (s : Store) : Option (List Address) :=
  (collect (entryNext s.memory) 0 chainBound (getFirstMemoryEntry stackCeiling)).map fun entries =>
    (entries.filter fun e => memoryEntryIsAllocation s.memory e && allocIsAllocated s.memory e).map
      (entryAddr s.memory)

/-- The pointers that callers hold. -/
def livePtrs (g : History) : Set Address := { ptr | ptr ∈ g.live.map Block.ptr }

theorem livePtrs_sysAlloc (g : History) (s' : Store) (ptr : Address) (size : BitVec 32) :
    livePtrs
        { g with
          store := s'
          created := g.created ++ newEntries g.store s'
          live := g.live ++ [{ ptr, size }] } = insert ptr (livePtrs g) := by
  ext q
  simp [livePtrs,or_comm]

namespace Coherent
variable {stackCeiling : Address} {g : History}

theorem livePtrs_sysFree (hc : Coherent stackCeiling g) {block : Block} (hblock : block ∈ g.live)
    (s' : Store) : livePtrs { g with store := s', live := g.live.erase block } =
      livePtrs g \ {block.ptr} := by
  have hnodup : g.live.Nodup := List.Nodup.of_map _ hc.distinct
  ext ptr
  rw [Set.mem_sdiff,Set.mem_singleton_iff,livePtrs,livePtrs,Set.mem_ofPred_eq,Set.mem_ofPred_eq,
    List.mem_map,List.mem_map]
  constructor
  · rintro ⟨other,hother,rfl⟩
    obtain ⟨hne,hother⟩ := hnodup.mem_erase_iff.mp hother
    exact ⟨⟨other,hother,rfl⟩,fun hsame =>
      hne (List.inj_on_of_nodup_map hc.distinct hother hblock hsame)⟩
  · rintro ⟨⟨other,hother,rfl⟩,hne⟩
    refine ⟨other,hnodup.mem_erase_iff.mpr ⟨?_,hother⟩,rfl⟩
    rintro rfl
    exact hne rfl

theorem ptr_ne_zero (hc : Coherent stackCeiling g) {ptr : Address}
    (hptr : ptr ∈ livePtrs g) : ptr ≠ 0 := by
  obtain ⟨block,hblock,rfl⟩ := List.mem_map.mp hptr
  have hheader := hc.ptr_eq hblock
  intro hzero
  rw [hzero] at hheader
  exact absurd hheader (by simp)

/-- The blocks in use are the ones that callers hold. -/
theorem blocksInUse_eq (hc : Coherent stackCeiling g) :
    ∃ blocks, blocksInUse stackCeiling g.store = some blocks ∧ blocks.Nodup ∧
      ∀ ptr, ptr ∈ blocks ↔ ptr ∈ livePtrs g := by
  have hcollect := collect_eq hc.layout.path (fun hzero => hc.layout.ne_zero hzero rfl)
    hc.layout.length_lt
  have hused {e : Address} : (memoryEntryIsAllocation g.store.memory e &&
      allocIsAllocated g.store.memory e) = true ↔ entryType g.store.memory e = etSysDynAlloc ∧
        allocIsAllocated g.store.memory e = true := by
    rw [Bool.and_eq_true,memoryEntryIsAllocation,beq_iff_eq]
  refine ⟨_,by rw [blocksInUse,hcollect]; rfl,?_,fun ptr => ?_⟩
  · refine List.Nodup.map_on (fun e he f hf hsame => ?_) (hc.layout.nodup.filter _)
    obtain ⟨he,heuse⟩ := List.mem_filter.mp he
    obtain ⟨hf,hfuse⟩ := List.mem_filter.mp hf
    rw [hc.layout.payload e he (hused.mp heuse).1,
      hc.layout.payload f hf (hused.mp hfuse).1] at hsame
    exact (BitVec.add_left_inj 24).mp hsame
  · rw [List.mem_map,livePtrs,Set.mem_ofPred_eq,List.mem_map]
    constructor
    · rintro ⟨e,he,rfl⟩
      obtain ⟨he,huse⟩ := List.mem_filter.mp he
      obtain ⟨htype,hallocated⟩ := hused.mp huse
      obtain ⟨block,hblock,rfl⟩ := hc.held e he htype hallocated
      refine ⟨block,hblock,?_⟩
      rw [hc.layout.payload _ he htype]
      exact (BitVec.sub_add_cancel block.ptr 24).symm
    · rintro ⟨block,hblock,rfl⟩
      have hheaded := hc.headed block hblock
      refine ⟨block.ptr - 24,List.mem_filter.mpr ⟨hheaded.mem,?_⟩,(hc.granted hblock).header.2⟩
      exact hused.mpr ⟨hheaded.type,hheaded.allocated⟩

end Coherent

end TwMonitor.EntryStore
