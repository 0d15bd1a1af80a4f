import Mathlib.Tactic

/-!
# Programs with state and errors

Straight-line code that may stop with an error is an `EStateM` computation:
an error keeps the state reached so far. `Triple P x Q E` is total on the
finite loops used here. The error postcondition matters for properties that
hold at every moment of a run, so it is kept apart from the normal one.
-/

namespace Program

variable {ε σ α β : Type}

/-- Started in a state with `P`, the computation returns `a` in a state with
`Q a`, or stops with an error in a state with `E`. -/
def Triple (P : σ → Prop) (x : EStateM ε σ α) (Q : α → σ → Prop) (E : σ → Prop) : Prop :=
  ∀ s, P s → match x s with
    | .ok a s' => Q a s'
    | .error _ s' => E s'

/-- Run `body` on `a, a + 1, …, a + k - 1`. -/
def forRange (body : ℕ → EStateM ε σ Unit) : ℕ → ℕ → EStateM ε σ Unit
  | _, 0 => pure ()
  | a, k + 1 => do
      body a
      forRange body (a + 1) k

theorem bind_run_ok {x : EStateM ε σ α} {f : α → EStateM ε σ β} {s s' : σ} {a : α}
    (h : x s = .ok a s') : (x >>= f) s = f a s' := by
  change EStateM.bind x f s = _
  unfold EStateM.bind
  rw [h]

theorem bind_run_error {x : EStateM ε σ α} {f : α → EStateM ε σ β} {s s' : σ} {e : ε}
    (h : x s = .error e s') : (x >>= f) s = .error e s' := by
  change EStateM.bind x f s = _
  unfold EStateM.bind
  rw [h]

theorem get_bind_run {f : σ → EStateM ε σ β} {s : σ} : (get >>= f) s = f s s := rfl

theorem modify_run {g : σ → σ} {s : σ} :
    (modify g : EStateM ε σ PUnit) s = .ok ⟨⟩ (g s) := rfl

theorem modify_bind_run {g : σ → σ} {f : PUnit → EStateM ε σ β} {s : σ} :
    (modify g >>= f) s = f ⟨⟩ (g s) := rfl

theorem throw_ne_ok {e : ε} {s s' : σ} {a : α} : (throw e : EStateM ε σ α) s ≠ .ok a s' := nofun

theorem bind_eq_ok {x : EStateM ε σ α} {f : α → EStateM ε σ β} {s s' : σ} {b : β}
    (h : (x >>= f) s = .ok b s') : ∃ a t, x s = .ok a t ∧ f a t = .ok b s' := by
  cases hx : x s with
  | ok a t => exact ⟨a, t, rfl, by rw [← h, bind_run_ok hx]⟩
  | error e t =>
      rw [bind_run_error hx] at h
      cases h

/-- What a run returns, if it does not fail. -/
def returned : EStateM.Result ε σ α → Option α
  | .ok a _ => some a
  | .error _ _ => none

theorem returned_eq_some {r : EStateM.Result ε σ α} {a : α} :
    returned r = some a ↔ ∃ s, r = .ok a s := by
  cases r with
  | ok b s => simp [returned, eq_comm]
  | error e s => simp [returned]

namespace Triple

variable {P P' : σ → Prop} {E E' : σ → Prop}

theorem ok {x : EStateM ε σ α} {Q : α → σ → Prop} (h : Triple P x Q E) {s s' : σ} {a : α}
    (hs : P s) (hx : x s = .ok a s') : Q a s' := by
  have := h s hs
  rwa [hx] at this

theorem err {x : EStateM ε σ α} {Q : α → σ → Prop} (h : Triple P x Q E) {s s' : σ} {e : ε}
    (hs : P s) (hx : x s = .error e s') : E s' := by
  have := h s hs
  rwa [hx] at this

/-- A computation that cannot fail returns. -/
theorem exists_ok {x : EStateM ε σ α} {Q : α → σ → Prop} (h : Triple P x Q fun _ => False) {s : σ}
    (hs : P s) : ∃ a s', x s = .ok a s' ∧ Q a s' := by
  cases hx : x s with
  | ok a s' => exact ⟨a, s', rfl, h.ok hs hx⟩
  | error e s' => exact (h.err hs hx).elim

theorem total {x : EStateM ε σ α} {Q : α → σ → Prop} (h : Triple P x Q fun _ => False) :
    Triple P x Q E := by
  intro s hs
  obtain ⟨a, s', hx, hQ⟩ := h.exists_ok hs
  rwa [hx]

theorem ret {Q : α → σ → Prop} {a : α} (h : ∀ s, P s → Q a s) :
    Triple P (pure a : EStateM ε σ α) Q E :=
  fun s hs => h s hs

theorem raise {Q : α → σ → Prop} {e : ε} (h : ∀ s, P s → E s) :
    Triple P (throw e : EStateM ε σ α) Q E :=
  fun s hs => h s hs

theorem read {Q : σ → σ → Prop} (h : ∀ s, P s → Q s s) :
    Triple P (get : EStateM ε σ σ) Q E :=
  fun s hs => h s hs

theorem update {Q : PUnit → σ → Prop} {f : σ → σ} (h : ∀ s, P s → Q ⟨⟩ (f s)) :
    Triple P (modify f : EStateM ε σ PUnit) Q E :=
  fun s hs => h s hs

theorem bind {x : EStateM ε σ α} {f : α → EStateM ε σ β} {R : α → σ → Prop}
    {Q : β → σ → Prop} (hx : Triple P x R E) (hf : ∀ a, Triple (R a) (f a) Q E) :
    Triple P (x >>= f) Q E := by
  intro s hs
  have h := hx s hs
  change match EStateM.bind x f s with
    | .ok a s' => Q a s'
    | .error _ s' => E s'
  unfold EStateM.bind
  cases hxs : x s with
  | ok a s' =>
      rw [hxs] at h
      exact hf a s' h
  | error e s' =>
      rw [hxs] at h
      exact h

/-- To prove a triple, name the state it starts in. -/
theorem start {x : EStateM ε σ α} {Q : α → σ → Prop}
    (h : ∀ s, P s → Triple (fun s' => s' = s) x Q E) : Triple P x Q E :=
  fun s hs => h s hs s rfl

/-- From a known state, the run itself is known as well. -/
theorem run {x : EStateM ε σ α} {Q : α → σ → Prop} {s : σ} (h : Triple (fun t => t = s) x Q E) :
    Triple (fun t => t = s) x (fun a t => Q a t ∧ x s = .ok a t) E := by
  rintro t rfl
  cases hx : x t with
  | ok a u => exact ⟨h.ok rfl hx, rfl⟩
  | error e u => exact h.err rfl hx

/-- What does not depend on the state is known from the start. -/
theorem known {p : Prop} {x : EStateM ε σ α} {Q : α → σ → Prop} (h : p → Triple P x Q E) :
    Triple (fun s => P s ∧ p) x Q E :=
  fun s hs => h hs.2 s hs.1

/-- A program that begins by looking at its state. -/
theorem look {f : σ → EStateM ε σ β} {Q : β → σ → Prop}
    (h : ∀ s, P s → Triple (fun s' => s' = s) (f s) Q E) : Triple P (get >>= f) Q E :=
  start fun s hs => bind (R := fun a s' => a = s ∧ s' = s)
    (read fun _ hs' => ⟨hs', hs'⟩) fun _ => start fun _ ⟨ha, hs'⟩ => by
      subst ha hs'
      exact h _ hs

/-- One assignment, from a known state. -/
theorem step {s : σ} {f : σ → σ} {g : PUnit → EStateM ε σ β} {Q : β → σ → Prop}
    (h : Triple (fun s' => s' = f s) (g ⟨⟩) Q E) :
    Triple (fun s' => s' = s) (modify f >>= g) Q E :=
  bind (R := fun _ s' => s' = f s) (update fun _ hs => congrArg f hs) fun _ => h

theorem trivial (x : EStateM ε σ α) : Triple P x (fun _ _ => True) (fun _ => True) := by
  intro s _
  cases x s <;> exact True.intro

theorem conseq {x : EStateM ε σ α} {Q Q' : α → σ → Prop} (h : Triple P x Q E)
    (hP : ∀ s, P' s → P s) (hQ : ∀ a s, Q a s → Q' a s) (hE : ∀ s, E s → E' s) :
    Triple P' x Q' E' := by
  intro s hs
  have h' := h s (hP s hs)
  cases hx : x s with
  | ok a s' =>
      rw [hx] at h'
      exact hQ a s' h'
  | error e s' =>
      rw [hx] at h'
      exact hE s' h'

/-- Two facts about one run. -/
theorem both {x : EStateM ε σ α} {Q Q' : α → σ → Prop} (h : Triple P x Q E)
    (h' : Triple P x Q' E') :
    Triple P x (fun a s => Q a s ∧ Q' a s) (fun s => E s ∧ E' s) := by
  intro s hs
  have hx := h s hs
  have hx' := h' s hs
  cases hrun : x s with
  | ok a t =>
      rw [hrun] at hx hx'
      exact ⟨hx, hx'⟩
  | error e t =>
      rw [hrun] at hx hx'
      exact ⟨hx, hx'⟩

/-- A step that is taken only under a condition. -/
theorem when {p : Prop} [Decidable p] {x : EStateM ε σ Unit} {k : EStateM ε σ β} {R : σ → Prop}
    {Q : β → σ → Prop} (hx : Triple P (if p then x else pure ()) (fun _ => R) E)
    (hk : Triple R k Q E) : Triple P (if p then x >>= fun _ => k else k) Q E := by
  split
  case isTrue hp =>
    rw [if_pos hp] at hx
    exact hx.bind fun _ => hk
  case isFalse hp =>
    rw [if_neg hp] at hx
    exact fun s hs => hk s (hx s hs)

/-- Loop rule: an invariant indexed by the loop variable. -/
theorem forRange {body : ℕ → EStateM ε σ Unit} {I : ℕ → σ → Prop} (a k : ℕ)
    (h : ∀ i, a ≤ i → i < a + k → Triple (I i) (body i) (fun _ => I (i + 1)) E) :
    Triple (I a) (Program.forRange body a k) (fun _ => I (a + k)) E := by
  induction k generalizing a with
  | zero => exact Triple.ret fun s hs => hs
  | succ k ih =>
      refine Triple.bind (R := fun _ => I (a + 1)) (h a le_rfl (by omega)) fun _ => ?_
      have := ih (a + 1) fun i hi hik => h i (by omega) (by omega)
      rwa [show a + 1 + k = a + (k + 1) by omega] at this

end Triple

/-! ## What every computation keeps -/

/-- However the computation ends, `I` relates the last state to the first. -/
def Keeps (I : σ → σ → Prop) (x : EStateM ε σ α) : Prop :=
  ∀ s, Triple (fun s' => s' = s) x (fun _ s' => I s s') (fun s' => I s s')

namespace Keeps

variable {I : σ → σ → Prop}

theorem ok {x : EStateM ε σ α} (h : Keeps I x) {s s' : σ} {a : α} (hx : x s = .ok a s') : I s s' :=
  (h s).ok rfl hx

theorem err {x : EStateM ε σ α} (h : Keeps I x) {s s' : σ} {e : ε} (hx : x s = .error e s') :
    I s s' := (h s).err rfl hx

theorem mono {J : σ → σ → Prop} {x : EStateM ε σ α} (h : Keeps I x)
    (hIJ : ∀ s s', I s s' → J s s') : Keeps J x := fun s =>
  (h s).conseq (fun _ hs => hs) (fun _ _ hI => hIJ _ _ hI) fun _ hI => hIJ _ _ hI

theorem modify {f : σ → σ} (h : ∀ s, I s (f s)) : Keeps I (modify f : EStateM ε σ PUnit) :=
  fun s => Triple.update fun _ hs => hs ▸ h s

section Refl

variable [Std.Refl I]

theorem pure (a : α) : Keeps I (Pure.pure a : EStateM ε σ α) :=
  fun s => Triple.ret fun _ hs => hs.symm ▸ Std.Refl.refl (r := I) s

theorem throw (e : ε) : Keeps I (throw e : EStateM ε σ α) :=
  fun s => Triple.raise fun _ hs => hs.symm ▸ Std.Refl.refl (r := I) s

theorem get : Keeps I (get : EStateM ε σ σ) :=
  fun s => Triple.read fun _ hs => hs.symm ▸ Std.Refl.refl (r := I) s

end Refl

theorem ite {c : Prop} [Decidable c] {x y : EStateM ε σ α} (hx : Keeps I x) (hy : Keeps I y) :
    Keeps I (if c then x else y) := by
  split
  · exact hx
  · exact hy

theorem bind [IsTrans σ I] {x : EStateM ε σ α} {f : α → EStateM ε σ β} (hx : Keeps I x)
    (hf : ∀ a, Keeps I (f a)) : Keeps I (x >>= f) := fun s =>
  Triple.bind (hx s) fun a => Triple.start fun s' hs =>
    (hf a s').conseq (fun _ h => h) (fun _ _ h => IsTrans.trans _ _ _ hs h)
      fun _ h => IsTrans.trans _ _ _ hs h

theorem forRange [Std.Refl I] [IsTrans σ I] {body : ℕ → EStateM ε σ Unit}
    (h : ∀ i, Keeps I (body i)) (a k : ℕ) : Keeps I (Program.forRange body a k) := by
  induction k generalizing a with
  | zero => exact Keeps.pure _
  | succ k ih => exact (h a).bind fun _ => ih (a + 1)

end Keeps

/-! ## A part of the state -/

section OnFst

variable {τ : Type}

/-- Run on the first part of the state. -/
def onFst (x : EStateM ε σ α) : EStateM ε (σ × τ) α := fun s =>
  match x s.1 with
  | .ok a t => .ok a (t, s.2)
  | .error e t => .error e (t, s.2)

theorem Triple.onFst {P : σ → Prop} {x : EStateM ε σ α} {Q : α → σ → Prop} {E : σ → Prop}
    (h : Triple P x Q E) (t : τ) : Triple (fun s => P s.1 ∧ s.2 = t) (Program.onFst x)
      (fun a s => Q a s.1 ∧ s.2 = t) (fun s => E s.1) := by
  rintro ⟨s, _⟩ ⟨hs, rfl⟩
  have hx := h s hs
  unfold Program.onFst
  cases hrun : x s with
  | ok a s' =>
      rw [hrun] at hx
      exact ⟨hx, rfl⟩
  | error e s' =>
      rw [hrun] at hx
      exact hx

end OnFst

end Program
