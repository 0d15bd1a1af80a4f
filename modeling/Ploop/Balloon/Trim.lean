import Mathlib.Order.Bounds.Basic
import Ploop.Image.Delta

/-!
# Trimming a mounted file system

The loop of `ploop_trim` halves the minimum length of the extents to be discarded until it comes
to the bound that was asked for. The kernel may raise the length it is given, and the bound with
it. The last call is to be made with the bound itself.
-/

namespace Ploop.Balloon

/-! ## The function -/

/-- One call, with the `range.minlen` before and after it. -/
structure TrimCall where
  minlen : ℕ
  reported : Option ℕ

/-- The calls that were made, and the return value. -/
structure Trimmed where
  calls : List TrimCall
  ret : ℤ

def Trimmed.after (c : TrimCall) (t : Trimmed) : Trimmed := ⟨c :: t.calls, t.ret⟩

def TrimCall.RaisedTo (c : TrimCall) (v : ℕ) : Prop := c.reported = some v ∧ c.minlen < v

/-- The last call is made with the largest of `bound` and what earlier calls have raised. -/
def EndsFinest (bound : ℕ) (calls : List TrimCall) : Prop :=
  ∃ before final, calls = before ++ [final] ∧
    IsGreatest {v | v = bound ∨ ∃ c ∈ before, c.RaisedTo v} final.minlen

def NoneFails (calls : List TrimCall) : Prop := ∀ c ∈ calls, c.reported ≠ none

section Calls

variable {bound : ℕ} {calls : List TrimCall} {c : TrimCall}

theorem NoneFails.tail (h : NoneFails (c :: calls)) : NoneFails calls := by
  intro c' hc'
  exact h c' (List.mem_cons_of_mem c hc')

/-- A call that raises nothing changes nothing. -/
theorem EndsFinest.after (h : EndsFinest bound calls) (hc : ∀ v, ¬ c.RaisedTo v) :
    EndsFinest bound (c :: calls) := by
  obtain ⟨before, final, rfl, hmem, hle⟩ := h
  refine ⟨c :: before, final, rfl, ?_, ?_⟩
  · rcases hmem with hv | ⟨c', hc', hv⟩
    · exact .inl hv
    · exact .inr ⟨c', List.mem_cons_of_mem c hc', hv⟩
  · rintro v (hv | ⟨c', hc', hv⟩)
    · exact hle (.inl hv)
    · rcases List.mem_cons.mp hc' with rfl | hc'
      · exact absurd hv (hc v)
      · exact hle (.inr ⟨c', hc', hv⟩)

end Calls

/-! ## The loop -/

section Loop

variable {k : Fitrim} {fuel i minlen bound reported : ℕ} {last : Bool} {ret : ℤ}

end Loop

/-! ## The whole function -/

end Ploop.Balloon
