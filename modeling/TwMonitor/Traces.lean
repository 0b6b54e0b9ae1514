import Mathlib.Tactic

/-!
# Systems with silent steps

A system moves by steps that show an event or none. A run is a list of the events it
shows. When every step of one system can be answered by a run of another, with the same
events and along a relation of their states, so can every run.
-/
namespace TwMonitor.Traces

variable {σ τ ε : Type*}

/-- A step that shows no event is silent. -/
abbrev System (σ ε : Type*) := σ → Option ε → σ → Prop

inductive Run (step : System σ ε) (start : σ) : List ε → σ → Prop
  | start : Run step start [] start
  | silent {events : List ε} {s t : σ} : Run step start events s → step s none t →
      Run step start events t
  | shown {events : List ε} {s t : σ} {event : ε} : Run step start events s →
      step s (some event) t → Run step start (events ++ [event]) t

section
variable {step : System σ ε} {s t u : σ} {events more : List ε} {event : ε}

theorem Run.trans (h : Run step s events t) (h' : Run step t more u) :
    Run step s (events ++ more) u := by
  induction h' with
  | start =>
      rw [List.append_nil]
      exact h
  | silent _ hstep ih => exact ih.silent hstep
  | shown _ hstep ih =>
      rw [← List.append_assoc]
      exact ih.shown hstep

theorem Run.of_silent (h : step s none t) : Run step s [] t := .silent .start h

theorem Run.of_shown (h : step s (some event) t) : Run step s [event] t := .shown .start h

/-- Silent steps may come first. -/
theorem Run.head (h : step s none t) (h' : Run step t events u) : Run step s events u :=
  (Run.of_silent h).trans h'

end

/-! ## Simulations -/

/-- Every step of the first system is a run of the second with the same events. -/
structure Simulates (step : System σ ε) (step' : System τ ε) (related : σ → τ → Prop) : Prop where
  silent {s t : σ} {u : τ} : related s u → step s none t → ∃ v, Run step' u [] v ∧ related t v
  shown {s t : σ} {u : τ} {event : ε} : related s u → step s (some event) t →
    ∃ v, Run step' u [event] v ∧ related t v

theorem Simulates.run {step : System σ ε} {step' : System τ ε} {related : σ → τ → Prop}
    (h : Simulates step step' related) {s t : σ} {u : τ} {events : List ε} (hstart : related s u)
    (hrun : Run step s events t) : ∃ v, Run step' u events v ∧ related t v := by
  induction hrun with
  | start => exact ⟨u,.start,hstart⟩
  | silent _ hstep ih =>
      obtain ⟨v,hv,hrelated⟩ := ih
      obtain ⟨w,hw,hnext⟩ := h.silent hrelated hstep
      have hboth := hv.trans hw
      rw [List.append_nil] at hboth
      exact ⟨w,hboth,hnext⟩
  | shown _ hstep ih =>
      obtain ⟨v,hv,hrelated⟩ := ih
      obtain ⟨w,hw,hnext⟩ := h.shown hrelated hstep
      exact ⟨w,hv.trans hw,hnext⟩

end TwMonitor.Traces
