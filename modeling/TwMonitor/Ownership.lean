import Mathlib.Logic.Function.Basic
import Mathlib.Data.Set.Insert

/-!
# Resources and their owners

Each owner holds at most one resource. Ownership is exact when what is live is
what somebody holds, and nothing is held twice. A fresh resource may go to an
owner with empty hands and to no other: what was held before would be leaked.
-/
namespace TwMonitor.Ownership

variable {ι R : Type*}

structure Exact (live : Set R) (holds : ι → Option R) : Prop where
  held : ∀ r, r ∈ live ↔ ∃ i, holds i = some r
  apart : ∀ i j r, holds i = some r → holds j = some r → i = j

theorem exact_empty : Exact (∅ : Set R) (fun _ : ι => none) where
  held r := by simp
  apart i j r h := absurd h (Option.some_ne_none r).symm

section
variable [DecidableEq ι] {live : Set R} {holds : ι → Option R} {i : ι} {r : R}

theorem update_eq_some_iff {held : Option R} {j : ι} :
    Function.update holds i held j = some r ↔
      j = i ∧ held = some r ∨ j ≠ i ∧ holds j = some r := by
  by_cases hji : j = i
  · rw [hji,Function.update_self]
    simp
  · rw [Function.update_of_ne hji]
    simp [hji]

theorem Exact.grant (h : Exact live holds) (hfresh : r ∉ live) (hnone : holds i = none) :
    Exact (insert r live) (Function.update holds i (some r)) := by
  have hnobody {j : ι} : holds j ≠ some r := fun hj => hfresh ((h.held r).mpr ⟨j,hj⟩)
  refine ⟨fun q => ?_,fun j k q hj hk => ?_⟩
  · rw [Set.mem_insert_iff,h.held]
    constructor
    · rintro (rfl | ⟨j,hj⟩)
      · exact ⟨i,Function.update_self ..⟩
      · have hji : j ≠ i := by
          rintro rfl
          exact absurd (hnone.symm.trans hj) (Option.some_ne_none q).symm
        exact ⟨j,update_eq_some_iff.mpr (Or.inr ⟨hji,hj⟩)⟩
    · rintro ⟨j,hj⟩
      rcases update_eq_some_iff.mp hj with ⟨-,hsame⟩ | ⟨-,hj⟩
      · exact Or.inl (Option.some.inj hsame).symm
      · exact Or.inr ⟨j,hj⟩
  · rcases update_eq_some_iff.mp hj with ⟨hji,hjr⟩ | ⟨-,hold⟩
    · rcases update_eq_some_iff.mp hk with ⟨hki,-⟩ | ⟨-,hold⟩
      · exact hji.trans hki.symm
      · exact absurd (hold.trans hjr.symm) hnobody
    · rcases update_eq_some_iff.mp hk with ⟨-,hkr⟩ | ⟨-,hold'⟩
      · exact absurd (hold.trans hkr.symm) hnobody
      · exact h.apart j k q hold hold'

/-- Who is given a fresh resource loses what was held before. -/
theorem Exact.none_of_grant (h : Exact live holds) (hfresh : r ∉ live)
    (hnew : Exact (insert r live) (Function.update holds i (some r))) : holds i = none := by
  by_contra hne
  obtain ⟨old,hold⟩ := Option.ne_none_iff_exists'.mp hne
  have hlive : old ∈ live := (h.held old).mpr ⟨i,hold⟩
  obtain ⟨j,hj⟩ := (hnew.held old).mp (Set.mem_insert_of_mem r hlive)
  rcases update_eq_some_iff.mp hj with ⟨-,hsame⟩ | ⟨hji,hj⟩
  · obtain rfl := Option.some.inj hsame
    exact hfresh hlive
  · -- somebody else would have held it before
    exact hji (h.apart j i old hj hold)

/-- A fresh resource may be given to those that hold nothing. -/
theorem Exact.grant_iff (h : Exact live holds) (hfresh : r ∉ live) (i : ι) :
    Exact (insert r live) (Function.update holds i (some r)) ↔ holds i = none :=
  ⟨h.none_of_grant hfresh,h.grant hfresh⟩

/-- What is given back is not live any more. -/
theorem Exact.release (h : Exact live holds) (hi : holds i = some r) :
    Exact (live \ {r}) (Function.update holds i none) := by
  have hupdate {j : ι} {q : R} :
      Function.update holds i none j = some q ↔ j ≠ i ∧ holds j = some q := by
    rw [update_eq_some_iff]
    simp
  refine ⟨fun q => ?_,fun j k q hj hk => ?_⟩
  · rw [Set.mem_sdiff,Set.mem_singleton_iff,h.held]
    constructor
    · rintro ⟨⟨j,hj⟩,hne⟩
      refine ⟨j,hupdate.mpr ⟨?_,hj⟩⟩
      rintro rfl
      exact hne (Option.some.inj (hj.symm.trans hi))
    · rintro ⟨j,hj⟩
      obtain ⟨hji,hj⟩ := hupdate.mp hj
      refine ⟨⟨j,hj⟩,?_⟩
      rintro rfl
      exact hji (h.apart j i q hj hi)
  · exact h.apart j k q (hupdate.mp hj).2 (hupdate.mp hk).2

end

end TwMonitor.Ownership
