import Mathlib.Tactic

/-!
# The maximal runs of a predicate

A scan of the positions below a bound looks for the next position where the predicate holds, then
for the next where it does not. What it passes over are the maximal runs.
-/

namespace Runs

variable {P Q : ℕ → Prop} {a b n s e : ℕ} {r : ℕ × ℕ} {l : List (ℕ × ℕ)} {x : ℤ}

/-! ## Searching -/

/-- The answer of a search from `a` for the least position below `n`; it is `-1` if there is
none. -/
inductive Finds (P : ℕ → Prop) (a n : ℕ) : ℤ → Prop
  | none : (∀ j, a ≤ j → j < n → ¬ P j) → Finds P a n (-1)
  | at (i : ℕ) : a ≤ i → i < n → P i → (∀ j, a ≤ j → j < i → ¬ P j) → Finds P a n i

namespace Finds

theorem congr (h : Finds P a n x) (hPQ : ∀ j < n, (P j ↔ Q j)) : Finds Q a n x := by
  cases h with
  | none hno =>
      apply Finds.none
      intro j haj hjn hQ
      exact hno j haj hjn ((hPQ j hjn).mpr hQ)
  | «at» i hai hin hP hno =>
      apply Finds.at i hai hin ((hPQ i hin).mp hP)
      intro j haj hji hQ
      exact hno j haj hji ((hPQ j (hji.trans hin)).mpr hQ)

/-- The search may begin before `b` when nothing is there. -/
theorem skip (h : Finds P b n x) (hab : a ≤ b) (hno : ∀ j, a ≤ j → j < b → ¬ P j) :
    Finds P a n x := by
  cases h with
  | none hrest =>
      apply Finds.none
      intro j haj hjn
      rcases lt_or_ge j b with hjb | hbj
      · exact hno j haj hjb
      · exact hrest j hbj hjn
  | «at» i hbi hin hP hrest =>
      apply Finds.at i (hab.trans hbi) hin hP
      intro j haj hji
      rcases lt_or_ge j b with hjb | hbj
      · exact hno j haj hjb
      · exact hrest j hbj hji

theorem empty (h : n ≤ a) : Finds P a n (-1) :=
  .none fun _ haj hjn => absurd (haj.trans_lt hjn) h.not_gt

end Finds

/-! ## Maximal runs -/

/-- `[r.1, r.2)` is a run of `P` below `n` that does not go on at either side. -/
structure MaximalRun (P : ℕ → Prop) (n : ℕ) (r : ℕ × ℕ) : Prop where
  nonempty : r.1 < r.2
  le : r.2 ≤ n
  holds : ∀ j, r.1 ≤ j → j < r.2 → P j
  left : ∀ j, j + 1 = r.1 → ¬ P j
  right : r.2 < n → ¬ P r.2

/-- The maximal runs from position `a` on, in order. -/
structure RunsFrom (P : ℕ → Prop) (n a : ℕ) (l : List (ℕ × ℕ)) : Prop where
  sorted : l.Pairwise fun r s => r.2 < s.1
  mem : ∀ r, r ∈ l ↔ MaximalRun P n r ∧ a ≤ r.1

/-- All maximal runs, in order. -/
def RunsOf (P : ℕ → Prop) (n : ℕ) (l : List (ℕ × ℕ)) : Prop := RunsFrom P n 0 l

/-- Two maximal runs that share their first position are one. -/
theorem MaximalRun.eq_of_fst (hr : MaximalRun P n r) (hs : MaximalRun P n (r.1, e)) :
    r = (r.1, e) := by
  rcases lt_trichotomy r.2 e with hlt | heq | hgt
  · exact absurd (hs.holds r.2 hr.nonempty.le hlt) (hr.right (hlt.trans_le hs.le))
  · exact Prod.ext rfl heq
  · exact absurd (hr.holds e hs.nonempty.le hgt) (hs.right (hgt.trans_le hr.le))

namespace RunsFrom

theorem nil (h : ∀ j, a ≤ j → j < n → ¬ P j) : RunsFrom P n a [] where
  sorted := List.Pairwise.nil
  mem r := by
    constructor
    · exact fun hr => absurd hr List.not_mem_nil
    · rintro ⟨hr, har⟩
      exact absurd (hr.holds r.1 le_rfl hr.nonempty) (h r.1 har (hr.nonempty.trans_le hr.le))

/-- The next run, after which the scan goes on behind the position that ended it. -/
theorem cons (hl : RunsFrom P n (e + 1) l) (has : a ≤ s) (hse : s < e) (hen : e ≤ n)
    (hbefore : ∀ j, j + 1 = a → j < n → ¬ P j) (hno : ∀ j, a ≤ j → j < s → ¬ P j)
    (hP : ∀ j, s ≤ j → j < e → P j) (hend : e < n → ¬ P e) : RunsFrom P n a ((s, e) :: l) where
  sorted := by
    apply List.Pairwise.cons ?_ hl.sorted
    intro r hr
    exact ((hl.mem r).mp hr).2
  mem r := by
    have hrun : MaximalRun P n (s, e) := by
      refine ⟨hse, hen, hP, ?_, hend⟩
      intro j hj
      rcases has.eq_or_lt with rfl | hlt
      · exact hbefore j hj (by omega)
      · exact hno j (Nat.le_of_lt_succ (hlt.trans_eq hj.symm)) (Nat.lt_of_succ_le hj.le)
    rw [List.mem_cons, hl.mem]
    constructor
    · rintro (rfl | ⟨hr, her⟩)
      · exact ⟨hrun, has⟩
      · exact ⟨hr, by omega⟩
    · rintro ⟨hr, har⟩
      have hfirst := hr.holds r.1 le_rfl hr.nonempty
      rcases lt_trichotomy r.1 s with hlt | heq | hgt
      · exact absurd hfirst (hno r.1 har hlt)
      · subst heq
        exact .inl (hr.eq_of_fst hrun)
      · right
        refine ⟨hr, ?_⟩
        -- a run that begins later begins behind the position that ended this one
        have hprev : ¬ P (r.1 - 1) := hr.left (r.1 - 1) (Nat.sub_add_cancel (by omega))
        by_contra hle
        rcases lt_or_ge (r.1 - 1) e with hin | hout
        · exact hprev (hP (r.1 - 1) (by omega) hin)
        · omega

/-- What is left of any scan has its runs. -/
theorem exists_runs (P : ℕ → Prop) (n a : ℕ) (hbefore : ∀ j, j + 1 = a → j < n → ¬ P j) :
    ∃ l, RunsFrom P n a l := by
  classical
  induction hk : n + 1 - a using Nat.strong_induction_on generalizing a with
  | _ k ih =>
      by_cases hsome : ∃ s, a ≤ s ∧ s < n ∧ P s
      · obtain ⟨has, hsn, hs⟩ := Nat.find_spec hsome
        generalize hfirst : Nat.find hsome = s at has hsn hs
        have hstops : ∃ e, s < e ∧ (n ≤ e ∨ ¬ P e) := ⟨n, hsn, .inl le_rfl⟩
        obtain ⟨hse, hstop⟩ := Nat.find_spec hstops
        generalize hlast : Nat.find hstops = e at hse hstop
        have hen : e ≤ n := hlast ▸ Nat.find_min' hstops ⟨hsn, .inl le_rfl⟩
        have hend : e < n → ¬ P e := fun hlt => hstop.resolve_left hlt.not_ge
        obtain ⟨l, hl⟩ := ih (n + 1 - (e + 1)) (by omega) (e + 1)
          (fun j hj hjn => by obtain rfl := Nat.succ.inj hj; exact hend hjn) rfl
        refine ⟨(s, e) :: l, hl.cons has hse hen hbefore ?_ ?_ hend⟩
        · intro j haj hjs hP
          exact Nat.find_min hsome (hfirst ▸ hjs) ⟨haj, hjs.trans hsn, hP⟩
        · intro j hsj hje
          rcases hsj.eq_or_lt with rfl | hsj
          · exact hs
          · by_contra hP
            exact Nat.find_min hstops (hlast ▸ hje) ⟨hsj, .inr hP⟩
      · apply Exists.intro []
        apply RunsFrom.nil
        intro j haj hjn hP
        exact hsome ⟨j, haj, hjn, hP⟩

theorem nodup (h : RunsFrom P n a l) : l.Nodup := by
  apply h.sorted.imp_of_mem
  rintro r s hr hs hrs rfl
  exact absurd hrs ((h.mem r).mp hr).1.nonempty.le.not_gt

theorem unique {l' : List (ℕ × ℕ)} (h : RunsFrom P n a l) (h' : RunsFrom P n a l') : l = l' := by
  apply List.Perm.eq_of_pairwise ?_ h.sorted h'.sorted
  · rw [List.perm_ext_iff_of_nodup h.nodup h'.nodup]
    intro r
    rw [h.mem, h'.mem]
  · intro r s hr hs hrs hsr
    have hr' := ((h.mem r).mp hr).1.nonempty
    have hs' := ((h'.mem s).mp hs).1.nonempty
    omega

end RunsFrom

end Runs
