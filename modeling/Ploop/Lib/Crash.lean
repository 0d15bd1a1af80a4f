import Mathlib.Data.List.Sublists
import Mathlib.Tactic

/-!
# Crash images of a write log

A log records writes and barriers in program order. When power fails, every
write before the last completed barrier is on the medium, and any selection
of the later ones is, each applied in program order.
-/

namespace Storage

inductive Event (ω : Type*) where
  | write (w : ω)
  | sync

variable {ω σ : Type*}

/-- The writes that a barrier has made durable, and those still pending. -/
def settle (log : List (Event ω)) : List ω × List ω :=
  log.foldl (fun p e => match e with
    | .write w => (p.1, p.2 ++ [w])
    | .sync => (p.1 ++ p.2, [])) ([], [])

def durable (log : List (Event ω)) : List ω := (settle log).1

def pending (log : List (Event ω)) : List ω := (settle log).2

/-- All writes, in program order. -/
def written (log : List (Event ω)) : List ω := durable log ++ pending log

section Settle

variable (log : List (Event ω)) (w : ω)

@[simp] theorem durable_nil : durable ([] : List (Event ω)) = [] := rfl

@[simp] theorem pending_nil : pending ([] : List (Event ω)) = [] := rfl

@[simp] theorem durable_write : durable (log ++ [.write w]) = durable log := by
  simp [durable, settle, List.foldl_append]

@[simp] theorem pending_write : pending (log ++ [.write w]) = pending log ++ [w] := by
  simp [pending, settle, List.foldl_append]

@[simp] theorem durable_sync : durable (log ++ [.sync]) = written log := by
  simp [durable, written, pending, settle, List.foldl_append]

@[simp] theorem pending_sync : pending (log ++ [.sync]) = [] := by
  simp [pending, settle, List.foldl_append]

@[simp] theorem written_nil : written ([] : List (Event ω)) = [] := rfl

@[simp] theorem written_write : written (log ++ [.write w]) = written log ++ [w] := by
  simp [written, List.append_assoc]

@[simp] theorem written_sync : written (log ++ [.sync]) = written log := by
  simp [written]

end Settle

/-! ## Crash images -/

section Images

variable (apply : σ → ω → σ) (init : σ)

def replay (ws : List ω) : σ := ws.foldl apply init

@[simp] theorem replay_nil : replay apply init [] = init := rfl

@[simp] theorem replay_snoc (ws : List ω) (w : ω) :
    replay apply init (ws ++ [w]) = apply (replay apply init ws) w := by
  simp [replay, List.foldl_append]

theorem replay_append (ws vs : List ω) :
    replay apply init (ws ++ vs) = replay apply (replay apply init ws) vs := by
  simp [replay, List.foldl_append]

/-- What a running process reads back. -/
def view (log : List (Event ω)) : σ := replay apply init (written log)

@[simp] theorem view_nil : view apply init [] = init := rfl

@[simp] theorem view_write (log : List (Event ω)) (w : ω) :
    view apply init (log ++ [.write w]) = apply (view apply init log) w := by
  simp [view]

@[simp] theorem view_sync (log : List (Event ω)) :
    view apply init (log ++ [.sync]) = view apply init log := by
  simp [view]

/-- `x` may be found on the medium if power fails right after `log`. -/
def CrashImage (log : List (Event ω)) (x : σ) : Prop :=
  ∃ ws, ws.Sublist (pending log) ∧ x = replay apply init (durable log ++ ws)

/-- `P` holds of whatever is found on the medium right after `log`. -/
def Every (P : σ → Prop) (log : List (Event ω)) : Prop :=
  ∀ x, CrashImage apply init log x → P x

/-- At every moment of the run recorded in `log`, whatever is found on the
medium satisfies `Good`, which may refer to the log up to that moment. -/
def Safe (Good : List (Event ω) → σ → Prop) (log : List (Event ω)) : Prop :=
  ∀ p, p <+: log → Every apply init (Good p) p

variable {apply init} {P Q : σ → Prop} {log : List (Event ω)} {w : ω}

theorem crashImage_view (log : List (Event ω)) :
    CrashImage apply init log (view apply init log) :=
  ⟨pending log, List.Sublist.refl _, rfl⟩

theorem crashImage_sync {x : σ} :
    CrashImage apply init (log ++ [.sync]) x ↔ x = view apply init log := by
  simp [CrashImage, view]

/-- Either the last write has not reached the medium, or it came on top of
what an earlier crash could have left. -/
theorem crashImage_write {x : σ} :
    CrashImage apply init (log ++ [.write w]) x ↔
      CrashImage apply init log x ∨
        ∃ y, CrashImage apply init log y ∧ x = apply y w := by
  simp only [CrashImage, pending_write, durable_write]
  constructor
  · rintro ⟨ws, hws, rfl⟩
    obtain ⟨l₁, l₂, rfl, h₁, h₂⟩ := List.sublist_append_iff.mp hws
    rcases List.sublist_singleton.mp h₂ with rfl | rfl
    · exact Or.inl ⟨l₁, h₁, by simp⟩
    · exact Or.inr ⟨_, ⟨l₁, h₁, rfl⟩, by simp [replay, List.foldl_append]⟩
  · rintro (⟨ws, hws, rfl⟩ | ⟨y, ⟨ws, hws, rfl⟩, rfl⟩)
    · exact ⟨ws, hws.trans (List.sublist_append_left _ _), rfl⟩
    · exact ⟨ws ++ [w], hws.append (List.Sublist.refl _), by simp [replay, List.foldl_append]⟩

theorem Every.view (h : Every apply init P log) : P (Storage.view apply init log) :=
  h _ (crashImage_view log)

theorem Every.mono (h : Every apply init P log) (hPQ : ∀ x, P x → Q x) :
    Every apply init Q log :=
  fun x hx => hPQ x (h x hx)

@[simp] theorem every_nil : Every apply init P [] ↔ P init := by
  simp [Every, CrashImage]

/-- After a barrier only the process's own view is left. -/
@[simp] theorem every_sync :
    Every apply init P (log ++ [.sync]) ↔ P (Storage.view apply init log) := by
  simp [Every, crashImage_sync]

theorem every_write :
    Every apply init P (log ++ [.write w]) ↔
      Every apply init P log ∧ Every apply init (fun x => P (apply x w)) log := by
  simp only [Every, crashImage_write]
  constructor
  · intro h
    exact ⟨fun x hx => h x (Or.inl hx), fun x hx => h _ (Or.inr ⟨x, hx, rfl⟩)⟩
  · rintro ⟨h₁, h₂⟩ x (hx | ⟨y, hy, rfl⟩)
    · exact h₁ x hx
    · exact h₂ y hy

/-- A write that keeps `P` wherever it lands keeps it in every crash image. -/
theorem Every.write (h : Every apply init P log) (hw : ∀ x, P x → P (apply x w)) :
    Every apply init P (log ++ [.write w]) :=
  every_write.mpr ⟨h, h.mono hw⟩

section Safe

variable {Good : List (Event ω) → σ → Prop} {e : Event ω}

theorem safe_nil (h : Good [] init) : Safe apply init Good [] := by
  intro p hp
  obtain rfl := List.prefix_nil.mp hp
  exact every_nil.mpr h

theorem Safe.every (h : Safe apply init Good log) : Every apply init (Good log) log :=
  h log (List.prefix_refl _)

theorem Safe.mono (h : Safe apply init Good log) {Good' : List (Event ω) → σ → Prop}
    (hGood : ∀ log x, Good log x → Good' log x) : Safe apply init Good' log :=
  fun p hp => (h p hp).mono fun x => hGood p x

/-- A run is safe if it was safe one event ago and is safe now. -/
theorem Safe.snoc (h : Safe apply init Good log)
    (hnow : Every apply init (Good (log ++ [e])) (log ++ [e])) :
    Safe apply init Good (log ++ [e]) := by
  intro p hp
  rcases List.prefix_concat_iff.mp hp with rfl | hp
  · exact hnow
  · exact h p hp

end Safe

end Images

end Storage
