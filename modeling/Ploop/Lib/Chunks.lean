import Mathlib.Tactic

/-!
# An interval cut into chunks

A loop that works through an interval leaves a list of chunks, each a position
and a length.
-/

namespace Chunks

/-- The chunks are not empty, each begins where the one before ends, and together they
are `[a, b)`. -/
def Tiles : ℕ → ℕ → List (ℕ × ℕ) → Prop
  | a, b, [] => a = b
  | a, b, c :: l => c.1 = a ∧ 0 < c.2 ∧ Tiles (a + c.2) b l

variable {a b x : ℕ} {c : ℕ × ℕ} {l : List (ℕ × ℕ)}

@[simp] theorem tiles_nil : Tiles a b [] ↔ a = b := Iff.rfl

@[simp] theorem tiles_cons : Tiles a b (c :: l) ↔ c.1 = a ∧ 0 < c.2 ∧ Tiles (a + c.2) b l :=
  Iff.rfl

namespace Tiles

theorem le (h : Tiles a b l) : a ≤ b := by
  induction l generalizing a with
  | nil => exact h.le
  | cons c l ih => exact (Nat.le_add_right a c.2).trans (ih h.2.2)

theorem pos (h : Tiles a b l) (hc : c ∈ l) : 0 < c.2 := by
  induction l generalizing a with
  | nil => exact absurd hc List.not_mem_nil
  | cons d l ih =>
      rcases List.mem_cons.mp hc with rfl | hc
      · exact h.2.1
      · exact ih h.2.2 hc

theorem shift (h : Tiles a b l) (n : ℕ) :
    Tiles (a + n) (b + n) (l.map fun c => (c.1 + n, c.2)) := by
  induction l generalizing a with
  | nil => exact congrArg (· + n) h
  | cons c l ih =>
      have hrest := ih h.2.2
      rw [add_right_comm] at hrest
      exact ⟨congrArg (· + n) h.1, h.2.1, hrest⟩

/-- A position lies in the interval when it lies in one of the chunks. -/
theorem mem_iff (h : Tiles a b l) :
    (∃ c ∈ l, c.1 ≤ x ∧ x < c.1 + c.2) ↔ a ≤ x ∧ x < b := by
  induction l generalizing a with
  | nil =>
      obtain rfl := tiles_nil.mp h
      constructor
      · rintro ⟨c, hc, -⟩
        exact absurd hc List.not_mem_nil
      · rintro ⟨hle, hlt⟩
        exact absurd hlt hle.not_gt
  | cons c l ih =>
      obtain ⟨rfl, -, hrest⟩ := h
      have hle := hrest.le
      rw [List.exists_mem_cons_iff, ih hrest]
      constructor
      · rintro (⟨hlo, hhi⟩ | ⟨hlo, hhi⟩)
        · exact ⟨hlo, hhi.trans_le hle⟩
        · exact ⟨(Nat.le_add_right _ _).trans hlo, hhi⟩
      · rintro ⟨hlo, hhi⟩
        rcases lt_or_ge x (c.1 + c.2) with hlt | hge
        · exact Or.inl ⟨hlo, hlt⟩
        · exact Or.inr ⟨hge, hhi⟩

end Tiles

end Chunks
