import Ploop.Lib.Program

/-!
# Two runs side by side

`Sim R V x y` compares two computations: from states related by `R` they have
the same outcome as far as `V` sees the results and `R` the states.
-/

namespace Program

variable {ε σ α α' β β' : Type}

/-- Both return, or both stop with the same error. -/
def SameOutcome (R : σ → σ → Prop) (V : α → α' → Prop) (x : EStateM.Result ε σ α)
    (y : EStateM.Result ε σ α') : Prop :=
  match x, y with
  | .ok a s', .ok b t' => V a b ∧ R s' t'
  | .error e s', .error f t' => e = f ∧ R s' t'
  | _, _ => False

def Sim (R : σ → σ → Prop) (V : α → α' → Prop) (x : EStateM ε σ α) (y : EStateM ε σ α') : Prop :=
  ∀ s t, R s t → SameOutcome R V (x s) (y t)

/-- Two runs that begin with the same computation. -/
theorem SameOutcome.bind_left {R : σ → σ → Prop} {W : β → β' → Prop} (hR : ∀ s, R s s)
    {x : EStateM ε σ α} {f : α → EStateM ε σ β} {g : α → EStateM ε σ β'} {s : σ}
    (hfg : ∀ a s', x s = .ok a s' → SameOutcome R W (f a s') (g a s')) :
    SameOutcome R W ((x >>= f) s) ((x >>= g) s) := by
  change SameOutcome R W (EStateM.bind x f s) (EStateM.bind x g s)
  unfold EStateM.bind
  cases hx : x s with
  | ok a s' => exact hfg a s' hx
  | error e s' => exact ⟨rfl, hR s'⟩

theorem run_bind_congr {x : EStateM ε σ α} {f g : α → EStateM ε σ β} {s : σ}
    (hfg : ∀ a s', x s = .ok a s' → f a s' = g a s') : (x >>= f) s = (x >>= g) s := by
  change EStateM.bind x f s = EStateM.bind x g s
  unfold EStateM.bind
  cases hx : x s with
  | ok a s' => exact hfg a s' hx
  | error e s' => rfl

theorem SameOutcome.of_eq {R : σ → σ → Prop} (hR : ∀ s, R s s) {x y : EStateM.Result ε σ α}
    (h : x = y) : SameOutcome R Eq x y := by
  subst h
  cases x with
  | ok a s => exact ⟨rfl, hR s⟩
  | error e s => exact ⟨rfl, hR s⟩

namespace Sim

variable {R : σ → σ → Prop}

theorem ret {V : α → α' → Prop} {a : α} {b : α'} (h : V a b) :
    Sim R V (pure a : EStateM ε σ α) (pure b) :=
  fun _ _ hst => ⟨h, hst⟩

theorem raise {V : α → α' → Prop} {e : ε} :
    Sim R V (throw e : EStateM ε σ α) (throw e) :=
  fun _ _ hst => ⟨rfl, hst⟩

theorem look : Sim R R (get : EStateM ε σ σ) get := fun _ _ hst => ⟨hst, hst⟩

theorem update {f g : σ → σ} (h : ∀ s t, R s t → R (f s) (g t)) :
    Sim R Eq (modify f : EStateM ε σ PUnit) (modify g) :=
  fun s t hst => ⟨rfl, h s t hst⟩

theorem bind {V : α → α' → Prop} {W : β → β' → Prop} {x : EStateM ε σ α} {y : EStateM ε σ α'}
    {f : α → EStateM ε σ β} {g : α' → EStateM ε σ β'} (hxy : Sim R V x y)
    (hfg : ∀ a b, V a b → Sim R W (f a) (g b)) : Sim R W (x >>= f) (y >>= g) := by
  intro s t hst
  have h := hxy s t hst
  change SameOutcome R W (EStateM.bind x f s) (EStateM.bind y g t)
  unfold EStateM.bind
  cases hx : x s with
  | ok a s' =>
      cases hy : y t with
      | ok b t' =>
          rw [hx, hy] at h
          exact hfg a b h.1 s' t' h.2
      | error e t' =>
          rw [hx, hy] at h
          exact h.elim
  | error e s' =>
      cases hy : y t with
      | ok b t' =>
          rw [hx, hy] at h
          exact h.elim
      | error e' t' =>
          rw [hx, hy] at h
          exact h

theorem conseq {V V' : α → α' → Prop} {x : EStateM ε σ α} {y : EStateM ε σ α'} (h : Sim R V x y)
    (hV : ∀ a b, V a b → V' a b) : Sim R V' x y := by
  intro s t hst
  have h' := h s t hst
  cases hx : x s with
  | ok a s' =>
      cases hy : y t with
      | ok b t' =>
          rw [hx, hy] at h'
          exact ⟨hV a b h'.1, h'.2⟩
      | error e t' =>
          rw [hx, hy] at h'
          exact h'.elim
  | error e s' =>
      cases hy : y t with
      | ok b t' =>
          rw [hx, hy] at h'
          exact h'.elim
      | error e' t' =>
          rw [hx, hy] at h'
          exact h'

theorem ite {V : α → α' → Prop} {c d : Prop} [Decidable c] [Decidable d] (hcd : c ↔ d)
    {x x' : EStateM ε σ α} {y y' : EStateM ε σ α'} (h : Sim R V x y) (h' : Sim R V x' y') :
    Sim R V (if c then x else x') (if d then y else y') := by
  by_cases hc : c
  · rw [if_pos hc, if_pos (hcd.mp hc)]
    exact h
  · rw [if_neg hc, if_neg fun hd => hc (hcd.mpr hd)]
    exact h'

end Sim

end Program
