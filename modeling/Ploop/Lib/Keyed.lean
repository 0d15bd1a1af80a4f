import Mathlib.Data.List.Nodup
import Mathlib.Data.List.Perm.Subperm
import Mathlib.Tactic

/-!
# Lists with keys

What stands under a key is the first element that has it. Elements go away by their place, and a
key may be taken over by the one element it belongs to.
-/

namespace Keyed

section Counts

variable {α : Type} {p : α → Bool} {l : List α} {x y : α}

theorem eq_of_countP_le_one (h : l.countP p ≤ 1) (hx : x ∈ l) (hy : y ∈ l) (hpx : p x = true)
    (hpy : p y = true) : x = y := by
  by_contra hne
  have hpair : [x, y].Nodup := by simp [hne]
  have hsub : [x, y] ⊆ l := by simp [hx, hy]
  have hcount := (hpair.subperm hsub).countP_le p
  rw [List.countP_eq_length.mpr (by simp [hpx, hpy])] at hcount
  exact absurd (hcount.trans h) (by simp)

end Counts

variable {α κ : Type} [DecidableEq κ] (key : α → κ)

def find (l : List α) (k : κ) : Option α := l.find? fun x => key x = k

def place (l : List α) (k : κ) : Option ℕ := l.findIdx? fun x => key x = k

/-- Without the element at place `i`, and with `f` for the others. -/
def edit (f : α → α) (i : ℕ) (l : List α) : List α := (l.map f).eraseIdx i

section Erase

variable {key} {l : List α} {i : ℕ} {c k : κ} {x : α}

theorem place_key (hi : place key l c = some i) : (l.map key)[i]? = some c := by
  obtain ⟨hlt, hkey, -⟩ := List.findIdx?_eq_some_iff_getElem.mp hi
  rw [List.getElem?_map, List.getElem?_eq_getElem hlt]
  exact congrArg some (of_decide_eq_true hkey)

theorem find_eraseIdx (hi : (l.map key)[i]? = some c) (hk : k ≠ c) :
    find key (l.eraseIdx i) k = find key l k := by
  unfold find
  induction l generalizing i with
  | nil => rfl
  | cons y l ih =>
      cases i with
      | zero =>
          have hy : key y = c := by simpa using hi
          rw [List.eraseIdx_cons_zero, List.find?_cons_of_neg]
          simpa [hy] using hk.symm
      | succ i =>
          rw [List.eraseIdx_cons_succ, List.find?_cons, List.find?_cons, ih (by simpa using hi)]

omit [DecidableEq κ] in
/-- Where keys differ, the key leaves with its element. -/
theorem not_mem_eraseIdx (h : (l.map key).Nodup) (hi : (l.map key)[i]? = some c) :
    c ∉ (l.eraseIdx i).map key := by
  rw [← List.eraseIdx_map, List.mem_eraseIdx_iff_getElem?]
  rintro ⟨j, hne, hj⟩
  have hlt := (List.getElem?_eq_some_iff.mp hj).1
  exact hne ((List.getElem?_inj hlt h).mp (hj.trans hi.symm))

/-- Taking an element out by its place. -/
theorem eraseIdx_eq_filter (h : (l.map key).Nodup) (hi : (l.map key)[i]? = some c) :
    l.eraseIdx i = l.filter fun x => key x ≠ c := by
  induction l generalizing i with
  | nil => rfl
  | cons y l ih =>
      obtain ⟨hhead, htail⟩ := List.nodup_cons.mp h
      cases i with
      | zero =>
          have hy : key y = c := by simpa using hi
          have hrest : l.filter (fun x => key x ≠ c) = l := by
            refine List.filter_eq_self.mpr fun x hx => decide_eq_true fun heq => hhead ?_
            rw [hy, ← heq]
            exact List.mem_map_of_mem hx
          rw [List.eraseIdx_cons_zero, List.filter_cons_of_neg (by simpa using hy), hrest]
      | succ i =>
          have hrest : (l.map key)[i]? = some c := by simpa using hi
          have hy : key y ≠ c := fun heq => hhead (heq ▸ List.mem_of_getElem? hrest)
          rw [List.eraseIdx_cons_succ, List.filter_cons_of_pos (by simpa using hy), ih htail hrest]

theorem find_some (h : find key l k = some x) : x ∈ l ∧ key x = k :=
  ⟨List.mem_of_find?_eq_some h, by simpa using List.find?_some h⟩

theorem find_eq (h : (l.map key).Nodup) (hx : x ∈ l) (hk : key x = k) : find key l k = some x := by
  have hsome : (find key l k).isSome = true := by
    unfold find
    rw [List.find?_isSome]
    exact ⟨x, hx, by simpa using hk⟩
  obtain ⟨y, hy⟩ := Option.isSome_iff_exists.mp hsome
  obtain ⟨hmem, hkey⟩ := find_some hy
  rw [hy, List.inj_on_of_nodup_map h hmem hx (hkey.trans hk.symm)]

end Erase

/-! ## A key is taken over -/

section Takeover

variable {key} {f : α → α} {l : List α} {i : ℕ} {c p k : κ}

/-- What has the key `p` gets the key `c`, and all else stays. -/
structure Renames (key : α → κ) (f : α → α) (p c : κ) : Prop where
  taken : ∀ x, key x = p → key (f x) = c
  other : ∀ x, key x ≠ p → f x = x

namespace Renames

theorem mem_edit {y : α} (hy : y ∈ edit f i l) : ∃ x ∈ l.eraseIdx i, f x = y := by
  unfold edit at hy
  rw [List.eraseIdx_map] at hy
  exact List.mem_map.mp hy

theorem keys_edit (h : Renames key f p c) (l : List α) :
    (l.map f).map key = (l.map key).map fun k => if k = p then c else k := by
  rw [List.map_map, List.map_map]
  refine List.map_congr_left fun x _ => ?_
  by_cases hx : key x = p
  · simp [hx, h.taken x hx]
  · simp [hx, h.other x hx]

theorem find_map (h : Renames key f p c) (hkc : k ≠ c) (hkp : k ≠ p) :
    find key (l.map f) k = find key l k := by
  unfold find
  induction l with
  | nil => rfl
  | cons x l ih =>
      rw [List.map_cons, List.find?_cons, List.find?_cons, ih]
      by_cases hx : key x = p
      · have hnew := h.taken x hx
        simp [hx, hnew, hkc.symm, hkp.symm]
      · rw [h.other x hx]

theorem find_other (h : Renames key f p c) (hi : (l.map key)[i]? = some c) (hkc : k ≠ c)
    (hkp : k ≠ p) : find key (edit f i l) k = find key l k := by
  have hnew : ((l.map f).map key)[i]? = some c := by
    rw [h.keys_edit, List.getElem?_map, hi, Option.map_some, ite_self]
  unfold edit
  rw [find_eraseIdx hnew hkc, h.find_map hkc hkp]

/-- Under the key that was taken over stands what the other key led to. -/
theorem find_taken (h : Renames key f p c) (hl : (l.map key).Nodup)
    (hi : (l.map key)[i]? = some c) (hcp : c ≠ p) :
    find key (edit f i l) c = (find key l p).map f := by
  have hleft := not_mem_eraseIdx hl hi
  unfold edit
  rw [List.eraseIdx_map, ← find_eraseIdx hi hcp.symm]
  generalize l.eraseIdx i = l' at hleft
  unfold find
  rw [List.find?_map]
  congr 1
  refine List.find?_congr fun x hx => ?_
  by_cases hxp : key x = p
  · simp [hxp, h.taken x hxp]
  · have hxc : key x ≠ c := fun heq => hleft (heq ▸ List.mem_map_of_mem hx)
    simp [hxp, h.other x hxp, hxc]

theorem nodup_edit (h : Renames key f p c) (hl : (l.map key).Nodup)
    (hi : (l.map key)[i]? = some c) : ((edit f i l).map key).Nodup := by
  have hleft := not_mem_eraseIdx hl hi
  have hrest := hl.sublist (List.eraseIdx_sublist (l.map key) i)
  unfold edit
  rw [List.eraseIdx_map] at hrest ⊢
  rw [h.keys_edit]
  refine hrest.map_on fun a ha b hb hab => ?_
  split at hab <;> split at hab
  · simp_all
  · exact absurd (hab ▸ hb) hleft
  · exact absurd (hab ▸ ha) hleft
  · exact hab

theorem not_mem_edit (h : Renames key f p c) (hl : (l.map key).Nodup)
    (hi : (l.map key)[i]? = some c) : p ∉ (edit f i l).map key := by
  have hleft := not_mem_eraseIdx hl hi
  unfold edit
  rw [List.eraseIdx_map, h.keys_edit, List.mem_map]
  rintro ⟨k, hk, heq⟩
  split at heq
  case isTrue hkp => exact hleft (heq.trans hkp.symm ▸ hk)
  case isFalse hkp => exact hkp heq

end Renames

end Takeover

end Keyed
