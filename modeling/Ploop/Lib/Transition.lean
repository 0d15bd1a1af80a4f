import Mathlib.Tactic

/-!
# Runs of a step function

An action is enabled in the states where the step function returns. Some runs
are cut down to actions that are allowed in the state they start from.
-/

namespace Transition

variable {σ α : Type*}

/-- The states that are reached by allowed actions. -/
inductive Reach (step : α → σ → Option σ) (allowed : α → σ → Prop) (start : σ) : σ → Prop
  | refl : Reach step allowed start start
  | tail {s t : σ} {a : α} (before : Reach step allowed start s) (ok : allowed a s)
      (next : step a s = some t) : Reach step allowed start t

/-- A schedule, as long as its actions are allowed and enabled. -/
def run (step : α → σ → Option σ) (allowed : α → σ → Prop) [∀ a s, Decidable (allowed a s)] :
    List α → σ → Option σ
  | [], s => some s
  | a :: l, s => if allowed a s then (step a s).bind (run step allowed l) else none

variable {step : α → σ → Option σ} {allowed : α → σ → Prop} {start s t : σ}

/-- What holds at the start and is kept by every allowed action holds in every state reached. -/
theorem Reach.invariant {I : σ → Prop} (h : Reach step allowed start t) (hstart : I start)
    (hstep : ∀ {s t : σ} {a : α}, I s → allowed a s → step a s = some t → I t) : I t := by
  induction h with
  | refl => exact hstart
  | tail _ ok next ih => exact hstep ih ok next

theorem Reach.run_tail [∀ a s, Decidable (allowed a s)] (h : Reach step allowed start s)
    {l : List α} (hrun : run step allowed l s = some t) : Reach step allowed start t := by
  induction l generalizing s with
  | nil =>
      obtain rfl := Option.some.inj hrun
      exact h
  | cons a l ih =>
      rw [run] at hrun
      split at hrun
      case isTrue hok =>
        obtain ⟨u, hu, hrest⟩ := Option.bind_eq_some_iff.mp hrun
        exact ih (h.tail hok hu) hrest
      case isFalse => cases hrun

/-- A schedule that runs to its end reaches its last state. -/
theorem reach_run [∀ a s, Decidable (allowed a s)] {l : List α}
    (hrun : run step allowed l start = some t) : Reach step allowed start t :=
  Reach.run_tail .refl hrun

end Transition
