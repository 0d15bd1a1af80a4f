import Ploop.Lib.Indirection
import Ploop.Lib.Rooted

/-!
# Layers over a tree

Every key of a tree has a layer that holds some of the blocks. What is read at a key comes from
the first layer on the way to the root that holds the block. A layer that is merged into the one
below it changes nothing for the others, not even while the merge is under way.
-/

namespace Rooted

variable {κ β γ : Type} {l : List (κ × Option κ)} {k c p : κ} {ks : List κ}
  {layer layer' : κ → β → Option γ} {b : β}

/-- The layers of the keys, one over the other. -/
def readAlong (layer : κ → β → Option γ) (ks : List κ) : β → Option γ :=
  Indirection.overlay (ks.map layer)

@[simp] theorem readAlong_nil : readAlong layer [] b = none := rfl

@[simp] theorem readAlong_cons :
    readAlong layer (k :: ks) b = (layer k b).or (readAlong layer ks b) :=
  Indirection.overlay_cons _ _ b

theorem readAlong_congr (h : ∀ k ∈ ks, layer' k = layer k) :
    readAlong layer' ks b = readAlong layer ks b := by
  induction ks with
  | nil => rfl
  | cons k ks ih =>
      rw [readAlong_cons, readAlong_cons, h k List.mem_cons_self,
        ih fun x hx => h x (List.mem_cons_of_mem _ hx)]

theorem readAlong_map {f : κ → κ} (h : ∀ k ∈ ks, layer' (f k) = layer k) :
    readAlong layer' (ks.map f) b = readAlong layer ks b := by
  induction ks with
  | nil => rfl
  | cons k ks ih =>
      rw [List.map_cons, readAlong_cons, readAlong_cons, h k List.mem_cons_self,
        ih fun x hx => h x (List.mem_cons_of_mem _ hx)]

theorem Line.keys_mem (h : Line l k ks) {x : κ} (hx : x ∈ ks) : x ∈ keys l := by
  induction h with
  | root hk =>
      rw [List.mem_singleton.mp hx]
      exact mem_keys.mpr ⟨_, hk⟩
  | up hk _ ih =>
      rcases List.mem_cons.mp hx with rfl | hx
      · exact mem_keys.mpr ⟨_, hk⟩
      · exact ih hx

/-- While `c` is merged into `p`, whoever reads `p` reads `c` first. -/
theorem Line.read_merging (h : Tree l) (hc : (c, some p) ∈ l)
    (honly : ∀ e ∈ l, e.2 = some p → e.1 = c)
    (hothers : ∀ x ∈ keys l, x ≠ p → layer' x = layer x)
    (hover : ∀ b, (layer c b).or (layer' p b) = (layer c b).or (layer p b))
    (hline : Line l k ks) :
    (k ≠ p → readAlong layer' ks b = readAlong layer ks b) ∧
      (k = p → (layer c b).or (readAlong layer' ks b) = (layer c b).or (readAlong layer ks b)) := by
  induction hline with
  | @root k hk =>
      refine ⟨fun hne => by simp [hothers k (mem_keys.mpr ⟨_, hk⟩) hne], ?_⟩
      rintro rfl
      simpa using hover b
  | @up k q ks hk hq ih =>
      constructor
      · intro hne
        rw [readAlong_cons, readAlong_cons, hothers k (mem_keys.mpr ⟨_, hk⟩) hne]
        by_cases hqp : q = p
        · cases honly _ hk (congrArg some hqp)
          exact ih.2 hqp
        · rw [ih.1 hqp]
      · rintro rfl
        rw [readAlong_cons, readAlong_cons, ih.1 (h.parent_ne hk), ← Option.or_assoc, hover,
          Option.or_assoc]

/-- When `c` is merged into `p` and takes its place, all others read what they read before. -/
theorem Line.read_merged [DecidableEq κ] (h : Tree l) (hc : (c, some p) ∈ l)
    (honly : ∀ e ∈ l, e.2 = some p → e.1 = c)
    (hothers : ∀ x ∈ keys l, x ≠ c → x ≠ p → layer' x = layer x)
    (hmerged : ∀ b, layer' c b = (layer c b).or (layer p b)) (hline : Line l k ks) :
    (k ≠ p → readAlong layer' (ks.filter (· ≠ p)) b = readAlong layer ks b) ∧
      (k = p → readAlong layer' (c :: ks.filter (· ≠ p)) b =
        (layer c b).or (readAlong layer ks b)) := by
  induction hline with
  | @root k hk =>
      constructor
      · intro hne
        have hkc : k ≠ c := by
          rintro rfl
          cases h.parent_unique hk hc
        simp [hne, hothers k (mem_keys.mpr ⟨_, hk⟩) hkc hne]
      · rintro rfl
        simp [hmerged]
  | @up k q ks hk hq ih =>
      constructor
      · intro hne
        rw [List.filter_cons_of_pos (by simpa using hne)]
        by_cases hqp : q = p
        · cases honly _ hk (congrArg some hqp)
          exact (ih.2 hqp).trans readAlong_cons.symm
        · have hkc : k ≠ c := by
            rintro rfl
            cases h.parent_unique hk hc
            exact hqp rfl
          rw [readAlong_cons, readAlong_cons, hothers k (mem_keys.mpr ⟨_, hk⟩) hkc hne, ih.1 hqp]
      · rintro rfl
        rw [List.filter_cons_of_neg (by simp), readAlong_cons, readAlong_cons, hmerged,
          ih.1 (h.parent_ne hk), Option.or_assoc]

end Rooted
