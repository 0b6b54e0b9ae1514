import Mathlib.Logic.Relation
import Mathlib.Logic.Function.Iterate
import Mathlib.Tactic

/-!
# Elements laid out one after the other

A layout that stores no table of its boundaries gives each one from the one
before, by a function `next`. A stretch from `p` to `q` is tiled when whole
elements fill it, each of them going up in the position `pos`. Boundaries are
then linearly ordered, and the element that ends at a given boundary is found
by walking up from any earlier one.
-/
namespace TwMonitor.Tiling
open Relation

variable {α : Type*} {pos : α → ℕ} {next next' : α → α} {p q r : α}

/-- One element from `p` to `q`. -/
def Hop (pos : α → ℕ) (next : α → α) (p q : α) : Prop := pos p < pos q ∧ next p = q

abbrev Tiles (pos : α → ℕ) (next : α → α) : α → α → Prop := ReflTransGen (Hop pos next)

namespace Tiles

theorem le (h : Tiles pos next p q) : pos p ≤ pos q := by
  induction h with
  | refl => exact le_rfl
  | tail _ hop ih => exact ih.trans hop.1.le

theorem lt_of_ne (h : Tiles pos next p q) (hne : p ≠ q) : pos p < pos q := by
  rcases ReflTransGen.cases_head h with rfl | ⟨c,hop,hc⟩
  · exact absurd rfl hne
  · exact hop.1.trans_le (le hc)

/-- The far end is an iterate of the successor function. -/
theorem iterate (h : Tiles pos next p q) : ∃ n, next^[n] p = q := by
  induction h with
  | refl => exact ⟨0,rfl⟩
  | tail _ hop ih =>
      obtain ⟨n,hn⟩ := ih
      refine ⟨n + 1,?_⟩
      rw [Function.iterate_succ_apply',hn]
      exact hop.2

/-- The first element of a stretch that is not empty. -/
theorem uncons (h : Tiles pos next p q) (hlt : pos p < pos q) :
    pos p < pos (next p) ∧ Tiles pos next (next p) q := by
  rcases ReflTransGen.cases_head h with rfl | ⟨c,⟨hpc,rfl⟩,hc⟩
  · exact absurd hlt (lt_irrefl _)
  · exact ⟨hpc,hc⟩

/-- The boundaries after the first element are those of the rest. -/
theorem cons_iff (hlt : pos p < pos (next p)) :
    Tiles pos next p r ↔ r = p ∨ Tiles pos next (next p) r := by
  constructor
  · intro h
    rcases ReflTransGen.cases_head h with rfl | ⟨c,⟨_,rfl⟩,hc⟩
    · exact .inl rfl
    · exact .inr hc
  · rintro (rfl | h)
    · exact .refl
    · exact .head ⟨hlt,rfl⟩ h

/-- Only the elements inside of the stretch matter. -/
theorem congr (h : Tiles pos next p q)
    (hnext : ∀ s t, pos p ≤ pos s → Hop pos next s t → pos t ≤ pos q → next' s = t) :
    Tiles pos next' p q := by
  induction h using ReflTransGen.head_induction_on with
  | refl => exact .refl
  | head hop hrest ih =>
      have hle := hop.1.le
      have hfirst := hnext _ _ le_rfl hop (le hrest)
      exact .head ⟨hop.1,hfirst⟩ (ih fun s t hs => hnext s t (hle.trans hs))

/-- Of two boundaries after `p` the lower one is followed by the other. -/
theorem split (hpos : Function.Injective pos) (h : Tiles pos next p q) (h' : Tiles pos next p r)
    (hle : pos q ≤ pos r) : Tiles pos next q r := by
  have hunique : Relator.RightUnique (Hop pos next) :=
    fun _ _ _ hb hc => hb.2.symm.trans hc.2
  rcases ReflTransGen.total_of_right_unique hunique h h' with hqr | hrq
  · exact hqr
  · obtain rfl := hpos (le_antisymm hle (le hrq))
    exact .refl

end Tiles

/-! ## Finding the element before a boundary -/

variable [DecidableEq α]

/-- Walk up until the next element starts at the target. -/
def search (next : α → α) (target : α) : ℕ → α → Option α
  | 0,_ => none
  | fuel + 1,previous =>
      if next previous = target then some previous else search next target fuel (next previous)

/-- What the walk finds is the last element of the stretch. -/
theorem search_eq_some (h : Tiles pos next p q) (hlt : pos p < pos q) {fuel : ℕ}
    (hs : search next q fuel p = some r) : Tiles pos next p r ∧ Hop pos next r q := by
  induction fuel generalizing p with
  | zero => simp [search] at hs
  | succ fuel ih =>
      obtain ⟨hup,hrest⟩ := h.uncons hlt
      rw [search] at hs
      split at hs
      · next hend =>
          obtain rfl := Option.some.inj hs
          exact ⟨.refl,hlt,hend⟩
      · next hend =>
          obtain ⟨hbefore,hlast⟩ := ih hrest (hrest.lt_of_ne hend) hs
          exact ⟨.head ⟨hup,rfl⟩ hbefore,hlast⟩

/-- Whatever the walk passes, what it finds leads to the target. -/
theorem next_of_search {fuel : ℕ} (hs : search next q fuel p = some r) : next r = q := by
  induction fuel generalizing p with
  | zero => simp [search] at hs
  | succ fuel ih =>
      rw [search] at hs
      split at hs
      · next hend =>
          obtain rfl := Option.some.inj hs
          exact hend
      · exact ih hs

/-- The walk over a tiled stretch ends. -/
theorem search_isSome (h : Tiles pos next p q) (hlt : pos p < pos q) :
    ∃ fuel, (search next q fuel p).isSome = true := by
  induction h using ReflTransGen.head_induction_on with
  | refl => exact absurd hlt (lt_irrefl _)
  | @head a c hop hrest ih =>
      by_cases hc : c = q
      · refine ⟨1,?_⟩
        rw [search,if_pos (hop.2.trans hc)]
        rfl
      · obtain rfl := hop.2
        obtain ⟨fuel,hfuel⟩ := ih (Tiles.lt_of_ne hrest hc)
        refine ⟨fuel + 1,?_⟩
        rw [search,if_neg hc]
        exact hfuel

/-- A target that no element leads to is never found. -/
theorem search_eq_none (h : ∀ s, next s ≠ q) (fuel : ℕ) (p : α) : search next q fuel p = none := by
  induction fuel generalizing p with
  | zero => rfl
  | succ fuel ih => rw [search,if_neg (h p),ih]

/-- The walk stops at the first element that leads to the target. -/
theorem search_eq_some_iff {fuel : ℕ} : search next q fuel p = some r ↔
    ∃ n < fuel, next^[n] p = r ∧ next r = q ∧ ∀ k < n, next (next^[k] p) ≠ q := by
  induction fuel generalizing p with
  | zero => simp [search]
  | succ fuel ih =>
      rw [search]
      split
      · next hend =>
          constructor
          · rintro h
            obtain rfl := Option.some.inj h
            exact ⟨0,Nat.succ_pos _,rfl,hend,fun k hk => absurd hk (Nat.not_lt_zero k)⟩
          · rintro ⟨n,_,hn,_,hfirst⟩
            cases n with
            | zero => rw [← hn]; rfl
            | succ n => exact absurd hend (hfirst 0 (Nat.succ_pos n))
      · next hend =>
          rw [ih]
          constructor
          · rintro ⟨n,hn,hr,hq,hfirst⟩
            refine ⟨n + 1,Nat.succ_lt_succ hn,hr,hq,fun k hk => ?_⟩
            cases k with
            | zero => exact hend
            | succ k => exact hfirst k (Nat.lt_of_succ_lt_succ hk)
          · rintro ⟨n,hn,hr,hq,hfirst⟩
            cases n with
            | zero =>
                obtain rfl := hr
                exact absurd hq hend
            | succ n =>
                exact ⟨n,Nat.lt_of_succ_lt_succ hn,hr,hq,
                  fun k hk => hfirst (k + 1) (Nat.succ_lt_succ hk)⟩

/-- A walk that comes back to an element repeats itself, so it takes no more rounds
than there are positions. -/
theorem search_bounded (hpos : Function.Injective pos) {N : ℕ} (hN : ∀ a, pos a < N) {fuel : ℕ}
    (h : search next q fuel p = some r) : search next q N p = some r := by
  obtain ⟨n,_,hr,hq,hfirst⟩ := search_eq_some_iff.mp h
  refine search_eq_some_iff.mpr ⟨n,?_,hr,hq,hfirst⟩
  by_contra hle
  have hmaps : Set.MapsTo (fun k => pos (next^[k] p)) (Finset.range (n + 1)) (Finset.range N) :=
    fun k _ => Finset.mem_coe.mpr (Finset.mem_range.mpr (hN _))
  obtain ⟨i,hi,j,hj,hne,heq⟩ := Finset.exists_ne_map_eq_of_card_lt_of_maps_to
    (by rw [Finset.card_range,Finset.card_range]; omega) hmaps
  -- Two visits of one element, and the walk could have skipped what is between them.
  have hskip : ∀ i j, i < j → j ≤ n → next^[i] p = next^[j] p → False := by
    intro i j hij hjn hsame
    refine hfirst (n - (j - i)) (by omega) ?_
    have hcut : next^[n - (j - i)] p = next^[n] p := by
      rw [show n - (j - i) = n - j + i by omega,Function.iterate_add_apply,hsame,
        ← Function.iterate_add_apply,show n - j + j = n by omega]
    rw [hcut,hr,hq]
  rw [Finset.mem_range] at hi hj
  obtain hlt | hlt := Nat.lt_or_gt_of_ne hne
  · exact hskip i j hlt (by omega) (hpos heq)
  · exact hskip j i hlt (by omega) (hpos heq.symm)

end TwMonitor.Tiling
