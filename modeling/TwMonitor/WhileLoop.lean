import Mathlib.Logic.Relation
import Mathlib.Tactic

/-!
# While loops

A loop over any state, with a guard and a body. The body is `none` where it is
undefined, and a run is `none` where it meets such a state or runs out of fuel. A
loop ends when an invariant makes a measure fall, and never ends well when an
invariant keeps the guard true.
-/
namespace TwMonitor.WhileLoop
open Relation

variable {σ : Type*} (guard : σ → Bool) (body : σ → Option σ)

def run : ℕ → σ → Option σ
  | 0,s => if guard s then none else some s
  | fuel + 1,s => if guard s then (body s).bind (run fuel) else some s

/-- One round. -/
def Step (s t : σ) : Prop := guard s = true ∧ body s = some t

/-- The states before each test of the guard. -/
abbrev Visits : σ → σ → Prop := ReflTransGen (Step guard body)

variable {guard body} {I : σ → Prop} {s t : σ} {fuel : ℕ}

theorem run_exit (h : guard s = false) (fuel : ℕ) : run guard body fuel s = some s := by
  cases fuel <;> simp [run,h]

theorem run_round (h : guard s = true) (fuel : ℕ) :
    run guard body (fuel + 1) s = (body s).bind (run guard body fuel) := if_pos h

/-- More fuel does not change a result. -/
theorem run_mono (h : run guard body fuel s = some t) {more : ℕ} (hle : fuel ≤ more) :
    run guard body more s = some t := by
  induction fuel generalizing s more with
  | zero =>
      cases hguard : guard s with
      | false =>
          rw [run_exit hguard] at h ⊢
          exact h
      | true => simp [run,hguard] at h
  | succ fuel ih =>
      cases hguard : guard s with
      | false =>
          rw [run_exit hguard] at h ⊢
          exact h
      | true =>
          obtain ⟨more,rfl⟩ : ∃ n, more = n + 1 := ⟨more - 1,by omega⟩
          rw [run_round hguard] at h ⊢
          obtain ⟨u,hu,hrun⟩ := Option.bind_eq_some_iff.mp h
          rw [hu]
          exact ih hrun (by omega)

/-- What every round preserves holds in every state that is visited. -/
theorem Visits.invariant (h : Visits guard body s t) (hs : I s)
    (hstep : ∀ u v, I u → guard u = true → body u = some v → I v) : I t := by
  induction h with
  | refl => exact hs
  | tail _ hround ih => exact hstep _ _ ih hround.1 hround.2

/-- With an invariant under which the body is defined and a measure falls, the
loop ends. -/
theorem run_terminates (μ : σ → ℕ)
    (hstep : ∀ u, I u → guard u = true → ∃ v, body u = some v ∧ I v ∧ μ v < μ u) (hs : I s) :
    ∃ fuel t, run guard body fuel s = some t ∧ I t ∧ guard t = false := by
  induction hμ : μ s using Nat.strong_induction_on generalizing s with
  | _ k ih =>
      cases hguard : guard s with
      | false => exact ⟨0,s,run_exit hguard 0,hs,hguard⟩
      | true =>
          obtain ⟨v,hv,hI,hlt⟩ := hstep s hs hguard
          obtain ⟨fuel,t,hrun,ht⟩ := ih (μ v) (by omega) hI rfl
          refine ⟨fuel + 1,t,?_,ht⟩
          rw [run_round hguard,hv]
          exact hrun

/-- With an invariant under which the guard is true, no run has a result. -/
theorem run_eq_none (hguard : ∀ u, I u → guard u = true)
    (hstep : ∀ u v, I u → body u = some v → I v) (hs : I s) (fuel : ℕ) :
    run guard body fuel s = none := by
  induction fuel generalizing s with
  | zero => exact if_pos (hguard s hs)
  | succ fuel ih =>
      rw [run_round (hguard s hs)]
      cases hbody : body s with
      | none => rfl
      | some v => exact ih (hstep s v hs hbody)

end TwMonitor.WhileLoop
