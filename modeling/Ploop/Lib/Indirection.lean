import Mathlib.Data.Set.Basic
import Mathlib.Logic.Function.Basic
import Mathlib.Tactic

/-!
# Indirection tables

A table sends keys to places of a store, at most one key to each place. What
a key reads is the content of its place. The lemmas say how reads change when
the store or the table changes: writes to dead places are invisible, a place
may be moved, a fresh place may be given to a key without one.
-/

namespace Indirection

variable {κ ι β : Type*}

/-- At most one key uses a place. -/
def OneToOne (T : κ → Option ι) : Prop :=
  ∀ ⦃k k' i⦄, T k = some i → T k' = some i → k = k'

/-- The places in use. -/
def live (T : κ → Option ι) : Set ι := {i | ∃ k, T k = some i}

def read (T : κ → Option ι) (S : ι → β) : κ → Option β := fun k => (T k).map S

section Store

variable {T : κ → Option ι} {S S' : ι → β}

theorem mem_live {k : κ} {i : ι} (h : T k = some i) : i ∈ live T := ⟨k, h⟩

theorem read_of_none {k : κ} (h : T k = none) : read T S k = none := by
  simp [read, h]

theorem read_of_some {k : κ} {i : ι} (h : T k = some i) : read T S k = some (S i) := by
  simp [read, h]

theorem read_eq_none {k : κ} : read T S k = none ↔ T k = none := by
  simp [read]

/-- Stores that agree on the place of a key read the same there. -/
theorem read_congr {k : κ} (h : ∀ i, T k = some i → S' i = S i) : read T S' k = read T S k := by
  cases hk : T k with
  | none => rw [read_of_none hk, read_of_none hk]
  | some i => rw [read_of_some hk, read_of_some hk, h i hk]

end Store

section Update

variable [DecidableEq κ] {T : κ → Option ι} {S S' : ι → β} {k₀ : κ} {j : ι}

theorem update_of_ne {k : κ} {o : Option ι} (h : k ≠ k₀) : Function.update T k₀ o k = T k :=
  Function.update_of_ne h _ _

/-- Giving a dead place to a key keeps the table one to one. -/
theorem OneToOne.update (h : OneToOne T) (hj : ∀ k, k ≠ k₀ → T k ≠ some j) :
    OneToOne (Function.update T k₀ (some j)) := by
  intro k k' i hk hk'
  by_cases e : k = k₀ <;> by_cases e' : k' = k₀
  · rw [e, e']
  · subst e
    rw [Function.update_self] at hk
    rw [update_of_ne e'] at hk'
    obtain rfl := Option.some.inj hk
    exact absurd hk' (hj k' e')
  · subst e'
    rw [Function.update_self] at hk'
    rw [update_of_ne e] at hk
    obtain rfl := Option.some.inj hk'
    exact absurd hk (hj k e)
  · rw [update_of_ne e] at hk
    rw [update_of_ne e'] at hk'
    exact h hk hk'

/-- A new place for one key, every other live place untouched. -/
theorem read_update (hrest : ∀ k i, k ≠ k₀ → T k = some i → S' i = S i) :
    read (Function.update T k₀ (some j)) S' = Function.update (read T S) k₀ (some (S' j)) := by
  funext k
  by_cases e : k = k₀
  · subst e
    simp [read]
  · rw [Function.update_of_ne e]
    have hT : Function.update T k₀ (some j) k = T k := update_of_ne e
    cases hk : T k with
    | none => rw [read_of_none (hT.trans hk), read_of_none hk]
    | some i => rw [read_of_some (hT.trans hk), read_of_some hk, hrest k i e hk]

end Update

/-! ## Stacks -/

/-- What a stack of partial contents reads, the first one that has the key. -/
def overlay (L : List (κ → Option β)) : κ → Option β := fun k =>
  (L.findSome? fun r => r k)

@[simp] theorem overlay_nil (k : κ) : overlay ([] : List (κ → Option β)) k = none := rfl

theorem overlay_cons (r : κ → Option β) (L : List (κ → Option β)) (k : κ) :
    overlay (r :: L) k = (r k).or (overlay L k) := by
  unfold overlay
  rw [List.findSome?_cons]
  cases r k <;> rfl

theorem overlay_cons_of_some {r : κ → Option β} {L : List (κ → Option β)} {k : κ} {b : β}
    (h : r k = some b) : overlay (r :: L) k = some b := by
  rw [overlay_cons, h]
  rfl

theorem overlay_cons_of_none {r : κ → Option β} {L : List (κ → Option β)} {k : κ}
    (h : r k = none) : overlay (r :: L) k = overlay L k := by
  rw [overlay_cons, h]
  rfl

theorem overlay_eq_none {L : List (κ → Option β)} {k : κ} (h : ∀ r ∈ L, r k = none) :
    overlay L k = none := by
  induction L with
  | nil => rfl
  | cons r L ih =>
      rw [overlay_cons_of_none (h r List.mem_cons_self)]
      exact ih fun r' hr' => h r' (List.mem_cons_of_mem _ hr')

theorem overlay_append (L L' : List (κ → Option β)) (k : κ) :
    overlay (L ++ L') k = (overlay L k).or (overlay L' k) := by
  unfold overlay
  rw [List.findSome?_append]

theorem overlay_append_single (L : List (κ → Option β)) (r : κ → Option β) (k : κ) :
    overlay (L ++ [r]) k = (overlay L k).or (r k) := by
  rw [overlay_append, overlay_cons]
  simp

/-- Replacing the bottom of a stack is invisible where the bottom either is
covered or did not change. -/
theorem overlay_bottom_congr {L : List (κ → Option β)} {r r' : κ → Option β} {k : κ}
    (h : overlay L k = none → r' k = r k) :
    overlay (L ++ [r']) k = overlay (L ++ [r]) k := by
  rw [overlay_append_single, overlay_append_single]
  cases hL : overlay L k with
  | none => rw [h hL]
  | some b => rfl

end Indirection
