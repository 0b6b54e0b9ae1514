import Mathlib.Data.BitVec
import TwMonitor.BlockStack
import TwMonitor.EntryStore

/-!
# The layout of the memory store

The entries created so far form the chain, in this order, and together with the
bytes of the allocations they tile the region down from the stack ceiling. An
operation either changes the union of one entry or adds an entry below the last
one, so all others keep their bytes.
-/
namespace TwMonitor.EntryStore
open ByteMemory NullChain BlockStack

/-! ## The bytes of an entry -/

/-- The bytes of an entry with its payload. -/
def footprint (m : Memory) (entry : Address) : ℕ :=
  24 + if entryType m entry = etSysDynAlloc then (allocSize m entry).toNat else 0

section
variable {m m' : Memory} {p : Address}

/-- The first `k` bytes of the entry are the same. -/
def Agree (k : ℕ) (m m' : Memory) (p : Address) : Prop := ∀ a, InRange p k a → m' a = m a

theorem Agree.mono {k l : ℕ} (h : Agree l m m' p) (hle : k ≤ l) : Agree k m m' p :=
  fun a ha => h a (lt_of_lt_of_le ha hle)

theorem Agree.load32 {k : ℕ} (h : Agree k m m' p) {offset : Address}
    (hk : offset.toNat + 4 ≤ k) :
    ByteMemory.load32 m' (p + offset) = ByteMemory.load32 m (p + offset) := by
  refine load32_congr fun a ha => h a ?_
  unfold InRange at ha ⊢
  have hsplit : (a - p).toNat = ((a - (p + offset)).toNat + offset.toNat) % 2 ^ 32 := by bv_omega
  rw [hsplit]
  exact (Nat.mod_le _ _).trans_lt (by omega)

theorem Agree.entryType (h : Agree 12 m m' p) :
    EntryStore.entryType m' p = EntryStore.entryType m p := by
  refine h p ?_
  unfold InRange
  bv_omega

theorem Agree.entryNext (h : Agree 12 m m' p) :
    EntryStore.entryNext m' p = EntryStore.entryNext m p := h.load32 (by decide)

theorem Agree.entryAddr (h : Agree 12 m m' p) :
    EntryStore.entryAddr m' p = EntryStore.entryAddr m p := h.load32 (by decide)

/-- All bytes of the entry but its link are the same. -/
def AgreeButLink (m m' : Memory) (p : Address) : Prop :=
  ∀ a, InRange p 24 a → ¬ InRange (p + 4) 4 a → m' a = m a

theorem Agree.butLink (h : Agree 24 m m' p) : AgreeButLink m m' p := fun a ha _ => h a ha

theorem AgreeButLink.byte (h : AgreeButLink m m' p) {offset : Address} (hlow : 8 ≤ offset.toNat)
    (hhigh : offset.toNat < 24) : m' (p + offset) = m (p + offset) := by
  apply h
  · unfold InRange
    bv_omega
  · unfold InRange
    bv_omega

theorem AgreeButLink.load32 (h : AgreeButLink m m' p) {offset : Address}
    (hlow : 8 ≤ offset.toNat) (hhigh : offset.toNat + 4 ≤ 24) :
    ByteMemory.load32 m' (p + offset) = ByteMemory.load32 m (p + offset) := by
  refine load32_congr fun a ha => ?_
  unfold InRange at ha
  apply h
  · unfold InRange
    bv_omega
  · unfold InRange
    bv_omega

theorem AgreeButLink.entryType (h : AgreeButLink m m' p) :
    EntryStore.entryType m' p = EntryStore.entryType m p := by
  apply h
  · unfold InRange
    bv_omega
  · unfold InRange
    bv_omega

theorem AgreeButLink.entryAddr (h : AgreeButLink m m' p) :
    EntryStore.entryAddr m' p = EntryStore.entryAddr m p := h.load32 (by decide) (by decide)

theorem AgreeButLink.allocSize (h : AgreeButLink m m' p) :
    EntryStore.allocSize m' p = EntryStore.allocSize m p := h.load32 (by decide) (by decide)

theorem AgreeButLink.allocIsAllocated (h : AgreeButLink m m' p) :
    EntryStore.allocIsAllocated m' p = EntryStore.allocIsAllocated m p := by
  have hbyte : m' (p + 12) = m (p + 12) := h.byte (by decide) (by decide)
  rw [EntryStore.allocIsAllocated,EntryStore.allocIsAllocated,hbyte]

theorem AgreeButLink.footprint (h : AgreeButLink m m' p) :
    EntryStore.footprint m' p = EntryStore.footprint m p := by
  rw [EntryStore.footprint,EntryStore.footprint,h.entryType,h.allocSize]

theorem footprint_ge (m : Memory) (p : Address) : 24 ≤ footprint m p := Nat.le_add_right _ _

end

/-! ## The invariant -/

/-- The entries that were created tile the region from the last one up to the
stack ceiling, and `next` leads through them in the order of their creation. -/
structure Layout (stackCeiling : Address) (created : List Address) (s : Store) : Prop where
  path : Path (entryNext s.memory) (getFirstMemoryEntry stackCeiling) created 0
  stacked : Stacked BitVec.toNat (footprint s.memory) stackCeiling.toNat created
    s.lastMemoryEntry.toNat
  low : 0 < s.lastMemoryEntry.toNat
  last : ∃ before, created = before ++ [s.lastMemoryEntry]
  payload : ∀ p ∈ created, entryType s.memory p = etSysDynAlloc → entryAddr s.memory p = p + 24
  multiple : ∀ p ∈ created, 24 ∣ footprint s.memory p

namespace Layout
variable {stackCeiling : Address} {created : List Address} {s : Store} {p q : Address}

theorem bounds (h : Layout stackCeiling created s) (hp : p ∈ created) :
    s.lastMemoryEntry.toNat ≤ p.toNat ∧
      p.toNat + footprint s.memory p ≤ stackCeiling.toNat := h.stacked.bounds hp

theorem ne_zero (h : Layout stackCeiling created s) (hp : p ∈ created) : p ≠ 0 := by
  rintro rfl
  have hlow := h.low
  have hle : s.lastMemoryEntry.toNat ≤ 0 := (h.bounds hp).1
  omega

theorem length_lt (h : Layout stackCeiling created s) : created.length < chainBound := by
  have hle := h.stacked.length_le fun p _ => footprint_ge s.memory p
  have hlt := stackCeiling.isLt
  unfold chainBound
  omega

/-- A lookup finds the first of the entries, or NULL. -/
theorem lookup_eq (h : Layout stackCeiling created s) (found : Address → Bool) :
    lookup stackCeiling s found = some ((created.find? found).getD 0) :=
  walk_eq h.path (fun hzero => h.ne_zero hzero rfl) h.length_lt found

/-- What a lookup finds is an entry. -/
theorem lookup_mem (h : Layout stackCeiling created s) {found : Address → Bool}
    (hlookup : lookup stackCeiling s found = some p) (hne : p ≠ 0) :
    p ∈ created ∧ found p = true := by
  rw [h.lookup_eq] at hlookup
  have hfind := Option.some.inj hlookup
  cases hsome : created.find? found with
  | none =>
      rw [hsome] at hfind
      exact absurd hfind.symm hne
  | some e =>
      rw [hsome] at hfind
      obtain rfl : e = p := hfind
      exact ⟨List.mem_of_find?_eq_some hsome,List.find?_some hsome⟩

/-- The bytes of two entries are apart. -/
theorem apart (h : Layout stackCeiling created s) (hp : p ∈ created) (hq : q ∈ created)
    (hne : p ≠ q) {a : Address} (ha : InRange p 24 a) : ¬ InRange q 24 a := by
  have hpbounds := h.bounds hp
  have hqbounds := h.bounds hq
  have hpsize := footprint_ge s.memory p
  have hqsize := footprint_ge s.memory q
  have hceiling := stackCeiling.isLt
  unfold InRange at ha ⊢
  rcases h.stacked.disjoint hp hq hne with hbelow | habove
  · bv_omega
  · bv_omega

/-- The bytes below the last entry belong to no entry. -/
theorem below (h : Layout stackCeiling created s) (hp : p ∈ created) {a : Address}
    (ha : a.toNat < s.lastMemoryEntry.toNat) : ¬ InRange p 24 a := by
  have hpbounds := h.bounds hp
  have hpsize := footprint_ge s.memory p
  have hceiling := stackCeiling.isLt
  unfold InRange
  bv_omega

/-- Changes that spare the type, the link, the address and the size. -/
theorem transport (h : Layout stackCeiling created s) {m : Memory}
    (hagree : ∀ p ∈ created, Agree 12 s.memory m p)
    (hfootprint : ∀ p ∈ created, footprint m p = footprint s.memory p) :
    Layout stackCeiling created { s with memory := m } where
  path := h.path.congr fun p hp => (hagree p hp).entryNext
  stacked := h.stacked.congr (fun _ _ => rfl) hfootprint
  low := h.low
  last := h.last
  payload p hp halloc := by
    rw [(hagree p hp).entryAddr]
    rw [(hagree p hp).entryType] at halloc
    exact h.payload p hp halloc
  multiple p hp := by
    rw [hfootprint p hp]
    exact h.multiple p hp

end Layout

/-! ## A new entry -/

section
variable {s s' : Store} {extraSize : BitVec 32} {p : Address}

/-- The entries of room that an extra size takes. -/
theorem extraEntries (extraSize : BitVec 32) :
    ∃ n : ℕ, (extraSize / 24 + if extraSize % 24 = 0 then 0 else 1 : BitVec 32).toNat = n ∧
      extraSize.toNat ≤ 24 * n ∧ (extraSize = 0 → n = 0) := by
  refine ⟨_,rfl,?_,?_⟩
  · have hlt := extraSize.isLt
    split
    · next hzero =>
        have hmod : extraSize.toNat % 24 = 0 := congrArg BitVec.toNat hzero
        have hadd : extraSize / 24 + 0 = extraSize / 24 := BitVec.add_zero _
        rw [hadd,BitVec.toNat_udiv]
        change extraSize.toNat ≤ 24 * (extraSize.toNat / 24)
        omega
    · rw [BitVec.toNat_add,BitVec.toNat_udiv]
      change extraSize.toNat ≤ 24 * ((extraSize.toNat / 24 + 1) % 2 ^ 32)
      omega
  · rintro rfl
    rfl

theorem createMemoryEntry_eq_some (h : createMemoryEntry s extraSize = some (p,s')) :
    ∃ n : ℕ, extraSize.toNat ≤ 24 * n ∧ (extraSize = 0 → n = 0) ∧
      p.toNat + 24 * (n + 1) = s.lastMemoryEntry.toNat ∧ 0 < p.toNat ∧
      s' = { memory := store32 s.memory (s.lastMemoryEntry + 4) p, lastMemoryEntry := p } := by
  obtain ⟨n,hn,hroom,hzero⟩ := extraEntries extraSize
  unfold createMemoryEntry at h
  generalize (extraSize / 24 + if extraSize % 24 = 0 then 0 else 1 : BitVec 32) = entries at h hn
  dsimp only at h
  split at h
  · next hfits =>
      obtain ⟨rfl,rfl⟩ := Prod.mk.inj (Option.some.inj h)
      have hmul : (entries * 24).toNat = 24 * n := by
        rw [BitVec.toNat_mul]
        change entries.toNat * 24 % 2 ^ 32 = 24 * n
        have hlt := s.lastMemoryEntry.isLt
        omega
      have hp : (s.lastMemoryEntry - 24 - entries * 24).toNat + 24 * (n + 1) =
          s.lastMemoryEntry.toNat := by bv_omega
      exact ⟨n,hroom,hzero,hp,by omega,rfl⟩
  · exact absurd h (Option.some_ne_none _).symm

end

/-- A header fits above address 0. -/
theorem createMemoryEntry_isSome {s : Store} (h : 24 < s.lastMemoryEntry.toNat) :
    ∃ r, createMemoryEntry s 0 = some r := ⟨_,if_pos h⟩

/-- What adding an entry that takes `k` bytes does to the store. The entries that
were there keep all bytes but the link of the last one. -/
structure Appended (k : ℕ) (s s' : Store) : Prop where
  room : s'.lastMemoryEntry.toNat + k = s.lastMemoryEntry.toNat
  low : 0 < s'.lastMemoryEntry.toNat
  multiple : 24 ∣ k
  size : footprint s'.memory s'.lastMemoryEntry = k
  link : entryNext s'.memory s.lastMemoryEntry = s'.lastMemoryEntry
  null : entryNext s'.memory s'.lastMemoryEntry = 0
  payload : entryType s'.memory s'.lastMemoryEntry = etSysDynAlloc →
    entryAddr s'.memory s'.lastMemoryEntry = s'.lastMemoryEntry + 24
  keeps : ∀ a, ¬ InRange (s.lastMemoryEntry + 4) 4 a → ¬ InRange s'.lastMemoryEntry 24 a →
    s'.memory a = s.memory a

/-- What a change of the first word of an entry's union does. -/
structure Updated (q : Address) (s s' : Store) : Prop where
  last : s'.lastMemoryEntry = s.lastMemoryEntry
  keeps : ∀ a, ¬ InRange (q + 12) 4 a → s'.memory a = s.memory a

namespace Updated
variable {s s' : Store} {q : Address}

theorem agree (h : Updated q s s') : Agree 12 s.memory s'.memory q := by
  intro a ha
  refine h.keeps a ?_
  unfold InRange at ha ⊢
  bv_omega

theorem allocSize (h : Updated q s s') :
    EntryStore.allocSize s'.memory q = EntryStore.allocSize s.memory q := by
  refine load32_congr fun a ha => h.keeps a ?_
  unfold InRange at ha ⊢
  bv_omega

theorem footprint (h : Updated q s s') :
    EntryStore.footprint s'.memory q = EntryStore.footprint s.memory q := by
  rw [EntryStore.footprint,EntryStore.footprint,h.agree.entryType,h.allocSize]

end Updated

namespace Layout
variable {stackCeiling : Address} {created : List Address} {s s' : Store} {p q : Address} {k : ℕ}

theorem last_mem (h : Layout stackCeiling created s) : s.lastMemoryEntry ∈ created := by
  obtain ⟨before,hbefore⟩ := h.last
  rw [hbefore]
  exact List.mem_append_right before List.mem_cons_self

/-- The bytes of the new entry belong to no other entry. -/
theorem not_new (h : Layout stackCeiling created s) (ha : Appended k s s') (hp : p ∈ created)
    {a : Address} (hin : InRange p 24 a) : ¬ InRange s'.lastMemoryEntry 24 a := by
  intro hnew
  refine h.below hp ?_ hin
  have hroom := ha.room
  have hk : 24 ≤ k := by
    rw [← ha.size]
    exact footprint_ge _ _
  have hlt := s.lastMemoryEntry.isLt
  unfold InRange at hnew
  bv_omega

theorem agree_of_ne (h : Layout stackCeiling created s) (ha : Appended k s s')
    (hp : p ∈ created) (hne : p ≠ s.lastMemoryEntry) : Agree 24 s.memory s'.memory p := by
  intro a hin
  refine ha.keeps a ?_ (h.not_new ha hp hin)
  intro hlast
  refine h.apart hp h.last_mem hne hin ?_
  unfold InRange at hlast ⊢
  bv_omega

/-- Of the last entry all but the link is kept. -/
theorem agreeButLink (h : Layout stackCeiling created s) (ha : Appended k s s')
    (hp : p ∈ created) : AgreeButLink s.memory s'.memory p := by
  by_cases hne : p = s.lastMemoryEntry
  · intro a hin hlink
    rw [hne] at hlink
    exact ha.keeps a hlink (h.not_new ha hp hin)
  · exact (h.agree_of_ne ha hp hne).butLink

theorem new_not_mem (h : Layout stackCeiling created s) (ha : Appended k s s') :
    s'.lastMemoryEntry ∉ created := by
  intro hin
  have hle := (h.bounds hin).1
  have hroom := ha.room
  have hk := footprint_ge s'.memory s'.lastMemoryEntry
  rw [ha.size] at hk
  omega

theorem nodup (h : Layout stackCeiling created s) : created.Nodup :=
  h.stacked.nodup fun p _ => Nat.lt_of_lt_of_le (by decide) (footprint_ge s.memory p)

/-- A new entry extends the layout at its low end. -/
theorem append (h : Layout stackCeiling created s) (ha : Appended k s s') :
    Layout stackCeiling (created ++ [s'.lastMemoryEntry]) s' where
  path := by
    obtain ⟨before,hbefore⟩ := h.last
    have hpath := h.path
    have hnodup := h.nodup
    rw [hbefore] at hpath hnodup
    have hlast : s.lastMemoryEntry ∉ before := by
      intro hin
      exact (List.nodup_append.mp hnodup).2.2 _ hin _ List.mem_cons_self rfl
    refine path_concat.mpr ⟨?_,ha.null⟩
    rw [hbefore]
    refine path_concat.mpr ⟨(path_concat.mp hpath).1.congr fun p hp => ?_,ha.link⟩
    have hcreated : p ∈ created := by
      rw [hbefore]
      exact List.mem_append_left _ hp
    exact ((h.agree_of_ne ha hcreated fun he => hlast (he ▸ hp)).mono (by decide)).entryNext
  stacked := by
    refine stacked_concat.mpr ⟨?_,rfl⟩
    rw [ha.size,ha.room]
    exact h.stacked.congr (fun _ _ => rfl) fun p hp => (h.agreeButLink ha hp).footprint
  low := ha.low
  last := ⟨created,rfl⟩
  payload p hp halloc := by
    rcases List.mem_append.mp hp with hold | hnew
    · have hagree := h.agreeButLink ha hold
      rw [hagree.entryType] at halloc
      rw [hagree.entryAddr]
      exact h.payload p hold halloc
    · obtain rfl := List.mem_singleton.mp hnew
      exact ha.payload halloc
  multiple p hp := by
    rcases List.mem_append.mp hp with hold | hnew
    · rw [(h.agreeButLink ha hold).footprint]
      exact h.multiple p hold
    · obtain rfl := List.mem_singleton.mp hnew
      rw [ha.size]
      exact ha.multiple

/-- Other entries than the one that is updated keep their bytes. -/
theorem agree_of_updated (h : Layout stackCeiling created s) (hu : Updated q s s')
    (hq : q ∈ created) (hp : p ∈ created) (hne : p ≠ q) : Agree 24 s.memory s'.memory p := by
  intro a hin
  refine hu.keeps a ?_
  intro hunion
  refine h.apart hp hq hne hin ?_
  unfold InRange at hunion ⊢
  bv_omega

theorem footprint_updated (h : Layout stackCeiling created s) (hu : Updated q s s')
    (hq : q ∈ created) (hp : p ∈ created) : footprint s'.memory p = footprint s.memory p := by
  by_cases hne : p = q
  · obtain rfl := hne
    exact hu.footprint
  · exact (h.agree_of_updated hu hq hp hne).butLink.footprint

/-- An update leaves the layout as it is. -/
theorem update (h : Layout stackCeiling created s) (hu : Updated q s s') (hq : q ∈ created) :
    Layout stackCeiling created s' := by
  have hlayout := h.transport (m := s'.memory) ?_ fun p hp => h.footprint_updated hu hq hp
  · rw [← hu.last] at hlayout
    exact hlayout
  · intro p hp
    by_cases hne : p = q
    · obtain rfl := hne
      exact hu.agree
    · exact (h.agree_of_updated hu hq hp hne).mono (by decide)

end Layout

end TwMonitor.EntryStore
