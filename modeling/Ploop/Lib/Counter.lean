import Ploop.Lib.Program

/-!
# Loops with a counter of fixed width

`for (i = 0; i < n; i++)` where the counter wraps at `m`. A bound the counter never
reaches makes the loop run for ever, so it is given fuel.
-/

namespace Program

variable {ε σ : Type}

/-- The loop from `i` on; the result is `false` when the fuel ran out. -/
def countUp (m : ℕ) (body : ℕ → EStateM ε σ Unit) (n : ℕ) : ℕ → ℕ → EStateM ε σ Bool
  | 0, _ => pure false
  | fuel + 1, i =>
      if i < n then do
        body i
        countUp m body n fuel ((i + 1) % m)
      else pure true

section CountUp

variable {m n fuel i : ℕ} {body : ℕ → EStateM ε σ Unit} {s s' : σ}

/-- A loop that ends has counted to its bound. -/
theorem countUp_lt (hi : i < m) (h : countUp m body n fuel i s = .ok true s') : n < m := by
  induction fuel generalizing i s with
  | zero =>
      injection h with h
      exact absurd h Bool.false_ne_true
  | succ fuel ih =>
      unfold countUp at h
      split at h
      · obtain ⟨_, t, -, ht⟩ := bind_eq_ok h
        exact ih (Nat.mod_lt _ (by omega)) ht
      · omega

theorem forRange_of_countUp (hn : n < m) (hi : i ≤ n)
    (h : countUp m body n fuel i s = .ok true s') :
    forRange body i (n - i) s = .ok () s' := by
  induction fuel generalizing i s with
  | zero =>
      injection h with h
      exact absurd h Bool.false_ne_true
  | succ fuel ih =>
      unfold countUp at h
      split at h
      case isTrue hlt =>
        obtain ⟨_, t, hbody, ht⟩ := bind_eq_ok h
        rw [Nat.mod_eq_of_lt (by omega)] at ht
        obtain ⟨k, hk⟩ : ∃ k, n - i = k + 1 := ⟨n - i - 1, by omega⟩
        rw [hk, forRange, bind_run_ok hbody]
        have hrest := ih hlt ht
        rwa [show n - (i + 1) = k by omega] at hrest
      case isFalse hge =>
        rw [show n - i = 0 by omega]
        injection h with _ hs
        exact congrArg (EStateM.Result.ok ()) hs

theorem countUp_of_forRange (hn : n < m) (hi : i ≤ n) (hfuel : n - i < fuel)
    (h : forRange body i (n - i) s = .ok () s') : countUp m body n fuel i s = .ok true s' := by
  induction fuel generalizing i s with
  | zero => omega
  | succ fuel ih =>
      unfold countUp
      split
      case isTrue hlt =>
        obtain ⟨k, hk⟩ : ∃ k, n - i = k + 1 := ⟨n - i - 1, by omega⟩
        rw [hk, forRange] at h
        obtain ⟨_, t, hbody, ht⟩ := bind_eq_ok h
        rw [bind_run_ok hbody, Nat.mod_eq_of_lt (by omega)]
        refine ih hlt (by omega) ?_
        rwa [show n - (i + 1) = k by omega]
      case isFalse hge =>
        rw [show n - i = 0 by omega] at h
        injection h with _ hs
        exact congrArg (EStateM.Result.ok true) hs

/-- Given fuel, the loop ends just where the counter can reach the bound. -/
theorem countUp_ok_iff (hm : 0 < m) : (∃ fuel, countUp m body n fuel 0 s = .ok true s') ↔
    n < m ∧ forRange body 0 n s = .ok () s' := by
  constructor
  · rintro ⟨fuel, h⟩
    have hn := countUp_lt hm h
    exact ⟨hn, forRange_of_countUp hn (Nat.zero_le n) h⟩
  · rintro ⟨hn, h⟩
    exact ⟨n + 1, countUp_of_forRange hn (Nat.zero_le n) (by omega) h⟩

end CountUp

end Program
