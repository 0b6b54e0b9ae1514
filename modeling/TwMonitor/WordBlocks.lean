import TwMonitor.ByteMemory
import TwMonitor.WhileLoop

/-!
# Blocks of words

A loop that copies or clears a block takes one word a round and counts a register down. A
block that is copied to a place it does not overlap is moved there as a whole, and nothing
else changes.
-/
namespace TwMonitor.WordBlocks
open ByteMemory

/-- The `k` bytes from `src` on are copied to `dst`. -/
def moved (m : Memory) (src dst : Address) (k : ℕ) : Memory := fun a =>
  if (a - dst).toNat < k then m (src + (a - dst)) else m a

def cleared (m : Memory) (dst : Address) (k : ℕ) : Memory := fun a =>
  if (a - dst).toNat < k then 0 else m a

/-! ## One word -/

theorem store16_moves (m : Memory) (dst : Address) (first second : BitVec 8) :
    store16 m dst (second ++ first) = store8 (store8 m dst first) (dst + 1) second := by
  have hlow : (second ++ first).extractLsb' 0 8 = first := BitVec.extractLsb'_append_eq_right
  have hhigh : (second ++ first).extractLsb' 8 8 = second := BitVec.extractLsb'_append_eq_left
  rw [store16,hlow,hhigh]

/-- A word that is loaded and stored is four bytes that are moved. -/
theorem store32_moves (m : Memory) (src dst : Address) :
    store32 m dst (load32 m src) = moved m src dst 4 := by
  have hlow : (load32 m src).extractLsb' 0 16 = load16 m src :=
    BitVec.extractLsb'_append_eq_right
  have hhigh : (load32 m src).extractLsb' 16 16 = load16 m (src + 2) :=
    BitVec.extractLsb'_append_eq_left
  rw [store32,hlow,hhigh,load16,load16,store16_moves,store16_moves]
  funext a
  unfold store8 moved
  by_cases h₀ : a = dst
  · rw [if_neg (by bv_omega),if_neg (by bv_omega),if_neg (by bv_omega),if_pos h₀,
      if_pos (by bv_omega)]
    exact congrArg m (by bv_omega)
  by_cases h₁ : a = dst + 1
  · rw [if_neg (by bv_omega),if_neg (by bv_omega),if_pos h₁,if_pos (by bv_omega)]
    exact congrArg m (by bv_omega)
  by_cases h₂ : a = dst + 2
  · rw [if_neg (by bv_omega),if_pos h₂,if_pos (by bv_omega)]
    exact congrArg m (by bv_omega)
  by_cases h₃ : a = dst + 2 + 1
  · rw [if_pos h₃,if_pos (by bv_omega)]
    exact congrArg m (by bv_omega)
  · rw [if_neg h₃,if_neg h₂,if_neg h₁,if_neg h₀,if_neg (by bv_omega)]

theorem store32_clears (m : Memory) (dst : Address) : store32 m dst 0 = cleared m dst 4 := by
  have hlow : (0 : BitVec 32).extractLsb' 0 16 = (0 : BitVec 8) ++ (0 : BitVec 8) := by decide
  have hhigh : (0 : BitVec 32).extractLsb' 16 16 = (0 : BitVec 8) ++ (0 : BitVec 8) := by decide
  rw [store32,hlow,hhigh,store16_moves,store16_moves]
  funext a
  unfold store8 cleared
  split_ifs with h₃ h₂ h₁ h₀ hin <;> first | rfl | bv_omega

/-! ## Blocks -/

/-- The two blocks have no byte in common. -/
def Apart (src dst : Address) (k : ℕ) : Prop := ∀ a, InRange src k a → ¬InRange dst k a

theorem moved_zero (m : Memory) (src dst : Address) : moved m src dst 0 = m := by
  funext a
  exact if_neg (Nat.not_lt_zero _)

theorem cleared_zero (m : Memory) (dst : Address) : cleared m dst 0 = m := by
  funext a
  exact if_neg (Nat.not_lt_zero _)

/-- The rest of a block follows its first word. -/
theorem moved_word {src dst : Address} {n : ℕ} (h : Apart src dst (4 * (n + 1)))
    (hn : 4 * (n + 1) ≤ 2 ^ 32) (m : Memory) :
    moved (moved m src dst 4) (src + 4) (dst + 4) (4 * n) = moved m src dst (4 * (n + 1)) := by
  funext a
  have hsrc (b : Address) (hb : InRange src (4 * (n + 1)) b) : moved m src dst 4 b = m b := by
    refine if_neg fun hin => h b hb ?_
    unfold InRange at hin ⊢
    omega
  by_cases hrest : (a - (dst + 4)).toNat < 4 * n
  · have hin : (a - dst).toNat < 4 * (n + 1) := by bv_omega
    have hback : InRange src (4 * (n + 1)) (src + 4 + (a - (dst + 4))) := by
      unfold InRange
      bv_omega
    rw [moved,if_pos hrest,hsrc _ hback,moved,if_pos hin]
    exact congrArg m (by bv_omega)
  · rw [moved,if_neg hrest,moved,moved]
    by_cases hfirst : (a - dst).toNat < 4
    · rw [if_pos hfirst,if_pos (by omega)]
    · rw [if_neg hfirst,if_neg (by bv_omega)]

theorem cleared_word {dst : Address} {n : ℕ} (hn : 4 * (n + 1) ≤ 2 ^ 32) (m : Memory) :
    cleared (cleared m dst 4) (dst + 4) (4 * n) = cleared m dst (4 * (n + 1)) := by
  funext a
  unfold cleared
  split_ifs with h₁ h₂ h₃ <;> first | rfl | bv_omega

theorem Apart.tail {src dst : Address} {n : ℕ} (h : Apart src dst (4 * (n + 1))) :
    Apart (src + 4) (dst + 4) (4 * n) := by
  intro a hsrc hdst
  refine h a ?_ ?_
  · unfold InRange at hsrc ⊢
    bv_omega
  · unfold InRange at hdst ⊢
    bv_omega

/-! ## Loops -/

/-- The registers of a loop over words. -/
structure BlockLoop where
  src : Address
  dst : Address
  words : BitVec 32
  memory : Memory

def copyRound (s : BlockLoop) : BlockLoop where
  src := s.src + 4
  dst := s.dst + 4
  words := s.words - 1
  memory := store32 s.memory s.dst (load32 s.memory s.src)

def clearRound (s : BlockLoop) : BlockLoop :=
  { s with dst := s.dst + 4, words := s.words - 1, memory := store32 s.memory s.dst 0 }

/-- `cbz`, the round, and back to the `cbz`. -/
def loop (round : BlockLoop → BlockLoop) : ℕ → BlockLoop → Option BlockLoop :=
  WhileLoop.run (fun s => s.words != 0) fun s => some (round s)

theorem loop_zero {round : BlockLoop → BlockLoop} {s : BlockLoop} (h : s.words.toNat = 0)
    (fuel : ℕ) : loop round fuel s = some s := by
  refine WhileLoop.run_exit ?_ fuel
  have hzero : s.words = 0 := BitVec.eq_of_toNat_eq h
  rw [hzero]
  rfl

theorem loop_succ {round : BlockLoop → BlockLoop} {s : BlockLoop} {n : ℕ}
    (h : s.words.toNat = n + 1) (fuel : ℕ) :
    loop round (fuel + 1) s = loop round fuel (round s) := by
  refine WhileLoop.run_round ?_ fuel
  rw [bne_iff_ne]
  bv_omega

/-- The copy ends after as many rounds as there are words. -/
theorem copy_loop {n : ℕ} {s : BlockLoop} (hn : s.words.toNat = n) (hsize : 4 * n ≤ 2 ^ 32)
    (hapart : Apart s.src s.dst (4 * n)) :
    ∃ t, loop copyRound n s = some t ∧ t.memory = moved s.memory s.src s.dst (4 * n) := by
  induction n generalizing s with
  | zero =>
      refine ⟨s,loop_zero hn 0,?_⟩
      rw [Nat.mul_zero,moved_zero]
  | succ n ih =>
      have hnext : (copyRound s).words.toNat = n := by
        show (s.words - 1).toNat = n
        bv_omega
      obtain ⟨t,ht,hmemory⟩ := ih hnext (by omega) hapart.tail
      refine ⟨t,(loop_succ hn n).trans ht,hmemory.trans ?_⟩
      show moved (store32 s.memory s.dst (load32 s.memory s.src))
        (s.src + 4) (s.dst + 4) (4 * n) = _
      rw [store32_moves,moved_word hapart hsize]

theorem clear_loop {n : ℕ} {s : BlockLoop} (hn : s.words.toNat = n) (hsize : 4 * n ≤ 2 ^ 32) :
    ∃ t, loop clearRound n s = some t ∧ t.memory = cleared s.memory s.dst (4 * n) := by
  induction n generalizing s with
  | zero =>
      refine ⟨s,loop_zero hn 0,?_⟩
      rw [Nat.mul_zero,cleared_zero]
  | succ n ih =>
      have hnext : (clearRound s).words.toNat = n := by
        show (s.words - 1).toNat = n
        bv_omega
      obtain ⟨t,ht,hmemory⟩ := ih hnext (by omega)
      refine ⟨t,(loop_succ hn n).trans ht,hmemory.trans ?_⟩
      show cleared (store32 s.memory s.dst 0) (s.dst + 4) (4 * n) = _
      rw [store32_clears,cleared_word hsize]

end TwMonitor.WordBlocks
