import TwMonitor.BitLayout

/-!
# Zero, one and don't-care words, and first-match decoding

A pattern fixes some bits of a word to one and some to zero. A decoder that
tries overlapping patterns in order is analysed on patterns alone: a pattern
that refines a test makes it succeed, one that conflicts with it makes it fail,
so walking the order once settles what every word of the pattern decodes to.
Neither relation mentions the bits that are left open.
-/
namespace TwMonitor.BitPattern
open BitLayout

structure Pattern (n : ℕ) where
  ones : BitVec n
  zeros : BitVec n
deriving DecidableEq, Repr

namespace Pattern
variable {n : ℕ}

def Matches (p : Pattern n) (w : BitVec n) : Prop :=
  ∀ i, (p.ones.getLsbD i = true → w.getLsbD i = true) ∧
    (p.zeros.getLsbD i = true → w.getLsbD i = false)

def inter (p q : Pattern n) : Pattern n := ⟨p.ones ||| q.ones,p.zeros ||| q.zeros⟩

/-- Some bit is one in the first pattern and zero in the second, or conversely. -/
def conflicts (p q : Pattern n) : Bool := p.ones &&& q.zeros != 0 || p.zeros &&& q.ones != 0

/-- Every bit that the second pattern fixes is fixed to the same value by the first. -/
def refines (p q : Pattern n) : Bool :=
  p.ones &&& q.ones == q.ones && p.zeros &&& q.zeros == q.zeros

theorem matches_inter {p q : Pattern n} {w : BitVec n} :
    (p.inter q).Matches w ↔ p.Matches w ∧ q.Matches w := by
  simp only [Matches,inter,BitVec.getLsbD_or,Bool.or_eq_true]
  constructor
  · intro h
    exact ⟨fun i => ⟨fun hi => (h i).1 (Or.inl hi),fun hi => (h i).2 (Or.inl hi)⟩,
      fun i => ⟨fun hi => (h i).1 (Or.inr hi),fun hi => (h i).2 (Or.inr hi)⟩⟩
  · rintro ⟨hp,hq⟩ i
    exact ⟨fun hi => hi.elim (hp i).1 (hq i).1,fun hi => hi.elim (hp i).2 (hq i).2⟩

/-- Without contradictory bits a pattern is a mask and a value. -/
theorem matches_iff_and {p : Pattern n} (hp : p.ones &&& p.zeros = 0) (w : BitVec n) :
    p.Matches w ↔ w &&& (p.ones ||| p.zeros) = p.ones := by
  have hdisjoint : ∀ i, p.ones.getLsbD i = true → p.zeros.getLsbD i = false := by
    intro i hi
    have hbit : (p.ones &&& p.zeros).getLsbD i = false := by rw [hp]; simp
    rw [BitVec.getLsbD_and,hi,Bool.true_and] at hbit
    exact hbit
  constructor
  · intro h
    apply BitVec.eq_of_getLsbD_eq
    intro i _
    have hi := h i
    rw [BitVec.getLsbD_and,BitVec.getLsbD_or]
    cases h₁ : p.ones.getLsbD i with
    | true => rw [hi.1 h₁]; rfl
    | false =>
        cases h₀ : p.zeros.getLsbD i with
        | true => rw [hi.2 h₀]; rfl
        | false => exact Bool.and_false _
  · intro h i
    have hi : (w.getLsbD i && (p.ones.getLsbD i || p.zeros.getLsbD i)) = p.ones.getLsbD i := by
      rw [← BitVec.getLsbD_or,← BitVec.getLsbD_and,h]
    constructor
    · intro h₁
      rw [h₁,Bool.true_or,Bool.and_true] at hi
      exact hi
    · intro h₀
      have h₁ : p.ones.getLsbD i = false := by
        by_contra hone
        have := hdisjoint i (eq_true_of_ne_false hone)
        rw [h₀] at this
        exact Bool.false_ne_true this.symm
      rw [h₀,h₁,Bool.false_or,Bool.and_true] at hi
      exact hi

private theorem exists_common_bit {a b : BitVec n} (h : a &&& b ≠ 0) :
    ∃ i, a.getLsbD i = true ∧ b.getLsbD i = true := by
  by_contra hc
  apply h
  apply BitVec.eq_of_getLsbD_eq
  intro i _
  rw [BitVec.getLsbD_and,BitVec.ofNat_eq_ofNat,BitVec.getLsbD_zero,Bool.and_eq_false_iff]
  by_contra hb
  simp only [not_or,Bool.not_eq_false] at hb
  exact hc ⟨i,hb⟩

theorem not_matches_of_conflicts {p q : Pattern n} {w : BitVec n} (h : p.conflicts q = true)
    (hp : p.Matches w) : ¬ q.Matches w := by
  intro hq
  simp only [conflicts,Bool.or_eq_true,bne_iff_ne] at h
  rcases h with h | h
  · obtain ⟨i,h₁,h₂⟩ := exists_common_bit h
    exact absurd ((hp i).1 h₁) (by rw [(hq i).2 h₂]; simp)
  · obtain ⟨i,h₁,h₂⟩ := exists_common_bit h
    exact absurd ((hq i).1 h₂) (by rw [(hp i).2 h₁]; simp)

private theorem bit_of_and_eq {a b : BitVec n} (h : a &&& b = b) {i : ℕ}
    (hb : b.getLsbD i = true) : a.getLsbD i = true := by
  rw [← h,BitVec.getLsbD_and,Bool.and_eq_true] at hb
  exact hb.1

theorem matches_of_refines {p q : Pattern n} {w : BitVec n} (h : p.refines q = true)
    (hp : p.Matches w) : q.Matches w := by
  simp only [refines,Bool.and_eq_true,beq_iff_eq] at h
  exact fun i => ⟨fun hi => (hp i).1 (bit_of_and_eq h.1 hi),
    fun hi => (hp i).2 (bit_of_and_eq h.2 hi)⟩

end Pattern

/-! ## Tests on fields -/

structure FieldTest (m : ℕ) where
  pos : ℕ
  width : ℕ
  value : BitVec m
deriving DecidableEq, Repr

namespace FieldTest
variable {m : ℕ}

def holds {n : ℕ} (t : FieldTest m) (w : BitVec n) : Bool := extract m w t.pos t.width == t.value

def wellFormed (n : ℕ) (t : FieldTest m) : Bool :=
  decide (t.pos + t.width ≤ n) && decide (t.width ≤ m) && fits t.value t.width

def pattern (n : ℕ) (t : FieldTest m) : Pattern n :=
  ⟨t.value.setWidth n <<< t.pos,(mask m t.width &&& ~~~t.value).setWidth n <<< t.pos⟩

theorem holds_iff {n : ℕ} {t : FieldTest m} (ht : t.wellFormed n = true) (w : BitVec n) :
    t.holds w = true ↔ (t.pattern n).Matches w := by
  simp only [wellFormed,Bool.and_eq_true,decide_eq_true_eq,fits_iff] at ht
  obtain ⟨⟨hn,hm⟩,hf⟩ := ht
  rw [holds,beq_iff_eq]
  constructor
  · intro h i
    simp only [pattern,BitVec.getLsbD_shiftLeft,BitVec.getLsbD_setWidth,← h,BitVec.getLsbD_and,
      BitVec.getLsbD_not,getLsbD_mask,getLsbD_extract,Bool.and_eq_true,Bool.not_eq_true',
      decide_eq_true_eq,decide_eq_false_iff_not]
    constructor
    · rintro ⟨⟨_,hp⟩,_,_,hb⟩
      have hback : t.pos + (i - t.pos) = i := by omega
      rwa [hback] at hb
    · rintro ⟨⟨_,hp⟩,_,⟨hi,hw⟩,_,hb⟩
      have hback : t.pos + (i - t.pos) = i := by omega
      simpa only [hi,hw,decide_true,Bool.true_and,hback] using hb
  · intro h
    apply BitVec.eq_of_getLsbD_eq
    intro i hi
    rw [getLsbD_extract]
    by_cases hw : i < t.width
    · have hb := h (t.pos + i)
      have hpos : t.pos + i < n := by omega
      have hin : i < n := by omega
      have hge : ¬ t.pos + i < t.pos := by omega
      simp only [pattern,BitVec.getLsbD_shiftLeft,BitVec.getLsbD_setWidth,BitVec.getLsbD_and,
        BitVec.getLsbD_not,getLsbD_mask,Nat.add_sub_cancel_left,hpos,hin,hge,hi,hw,decide_true,
        decide_false,Bool.not_false,Bool.true_and,Bool.not_eq_true'] at hb
      rw [decide_eq_true hi,decide_eq_true hw,Bool.true_and,Bool.true_and]
      cases hv : t.value.getLsbD i with
      | true => exact hb.1 hv
      | false => exact hb.2 hv
    · rw [hf i (Nat.le_of_not_lt hw),decide_eq_false hw,Bool.and_false,Bool.false_and]

end FieldTest

/-- A conjunction of field tests, as a decoder writes it. -/
structure Matcher (n m : ℕ) where
  tests : List (FieldTest m)
  wellFormed : tests.all (FieldTest.wellFormed n) = true := by rfl

namespace Matcher
variable {n m : ℕ}

def run (p : Matcher n m) (w : BitVec n) : Bool := p.tests.all fun t => t.holds w

instance : CoeFun (Matcher n m) (fun _ => BitVec n → Bool) := ⟨run⟩

def pattern (p : Matcher n m) : Pattern n :=
  p.tests.foldr (fun t q => (t.pattern n).inter q) ⟨0,0⟩

theorem run_iff (p : Matcher n m) (w : BitVec n) : p w = true ↔ p.pattern.Matches w := by
  obtain ⟨ts,h⟩ := p
  simp only [run,pattern]
  induction ts with
  | nil => simp [Pattern.Matches]
  | cons t ts ih =>
      simp only [List.all_cons,Bool.and_eq_true] at h
      rw [List.all_cons,Bool.and_eq_true,List.foldr_cons,Pattern.matches_inter,
        FieldTest.holds_iff h.1,ih h.2]

theorem run_of_refines {p : Matcher n m} {q : Pattern n} {w : BitVec n}
    (h : q.refines p.pattern = true) (hw : q.Matches w) : p w = true :=
  (p.run_iff w).mpr (Pattern.matches_of_refines h hw)

theorem run_of_conflicts {p : Matcher n m} {q : Pattern n} {w : BitVec n}
    (h : q.conflicts p.pattern = true) (hw : q.Matches w) : p w = false := by
  rw [← Bool.not_eq_true,p.run_iff]
  exact Pattern.not_matches_of_conflicts h hw

end Matcher

/-! ## First match -/

section
variable {n m : ℕ} {α : Type*} {β : Type*}

/-- Try the tests in order and answer with the first one that succeeds. -/
def firstMatch (f : α → Matcher n m) (g : α → BitVec n → β) (default : β) : List α → BitVec n → β
  | [],_ => default
  | a::as,w => if f a w then g a w else firstMatch f g default as w

/-- What a first-match decoder selects on every word of the pattern, when the
pattern alone decides each test up to the first success. -/
def resolve (f : α → Matcher n m) (q : Pattern n) : List α → Option α
  | [] => none
  | a::as =>
      if q.refines (f a).pattern then some a
      else if q.conflicts (f a).pattern then resolve f q as else none

theorem firstMatch_of_resolve {f : α → Matcher n m} {q : Pattern n} {as : List α} {a : α}
    (h : resolve f q as = some a) (g : α → BitVec n → β) (default : β) {w : BitVec n}
    (hw : q.Matches w) : firstMatch f g default as w = g a w := by
  induction as with
  | nil => simp [resolve] at h
  | cons b as ih =>
      rw [resolve] at h
      split at h
      · next hr =>
          obtain rfl := Option.some.inj h
          rw [firstMatch,Matcher.run_of_refines hr hw,if_pos rfl]
      · split at h
        · next hc =>
            rw [firstMatch,Matcher.run_of_conflicts hc hw,if_neg Bool.false_ne_true]
            exact ih h
        · simp at h

/-- The answer is that of a test that succeeds, or the default when none does. -/
theorem firstMatch_cases (f : α → Matcher n m) (g : α → BitVec n → β) (default : β)
    (as : List α) (w : BitVec n) :
    (∃ a ∈ as, f a w = true ∧ firstMatch f g default as w = g a w) ∨
      firstMatch f g default as w = default := by
  induction as with
  | nil => exact Or.inr rfl
  | cons b as ih =>
      rw [firstMatch]
      split
      · next hb => exact Or.inl ⟨b,by simp,hb,rfl⟩
      · rcases ih with ⟨a,ha,hw,he⟩ | he
        · exact Or.inl ⟨a,by simp [ha],hw,he⟩
        · exact Or.inr he

end

/-! ## The fixed bits of a packing -/

namespace Packed
variable {n m : ℕ}

def fixed (p : Packing n m) : Pattern n :=
  ⟨p.base,~~~(p.base ||| slotBits n (slots p.steps))⟩

theorem base_clear (p : Packing n m) {s : Slot} (hs : s ∈ slots p.steps) {i : ℕ}
    (hi : s.Covers i) : p.base.getLsbD i = false :=
  (placeable_clear p.wellPlaced hs hi).2

theorem fixed_matches {p : Packing n m} {w : BitVec n} (h : p.word = some w) :
    (fixed p).Matches w := by
  intro i
  constructor
  · intro hi
    rw [Packing.getLsbD_word h]
    · exact hi
    · exact fun s hs hc => by simp [fixed,base_clear p hs hc] at hi
  · intro hi
    rw [fixed,BitVec.getLsbD_not,Bool.and_eq_true,Bool.not_eq_true',BitVec.getLsbD_or,
      Bool.or_eq_false_iff,getLsbD_slotBits] at hi
    obtain ⟨hn,hb,hs⟩ := hi
    rw [decide_eq_true (of_decide_eq_true hn),Bool.true_and,decide_eq_false_iff_not] at hs
    rw [Packing.getLsbD_word h (fun s hs' hc => hs ⟨s,hs',hc⟩)]
    exact hb

/-- The converse of packing: a word with the fixed bits of a packing whose
slots hold the packing's values is its result. -/
theorem word_of_fixed (hnm : n ≤ m) {p : Packing n m} {w : BitVec n}
    (hg : guards p.steps = true) (hw : (fixed p).Matches w)
    (hin : Reads w (pieces p.steps)) : p.word = some w := by
  refine Packing.word_of_slots hnm hg hin (fun i hi => ?_)
  by_cases hn : i < n
  · cases hb : p.base.getLsbD i with
    | true => exact (hw i).1 hb
    | false =>
        apply (hw i).2
        rw [fixed,BitVec.getLsbD_not,BitVec.getLsbD_or,hb,getLsbD_slotBits,decide_eq_true hn]
        simp only [Bool.true_and,Bool.false_or,Bool.not_eq_true',decide_eq_false_iff_not]
        exact fun ⟨s,hs,hc⟩ => hi s hs hc
  · rw [BitVec.getLsbD_of_ge w _ (Nat.le_of_not_lt hn),
      BitVec.getLsbD_of_ge p.base _ (Nat.le_of_not_lt hn)]

end Packed

end TwMonitor.BitPattern
