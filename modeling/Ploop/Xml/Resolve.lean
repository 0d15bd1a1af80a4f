import Ploop.Xml.Paths

/-!
# Which stored paths are read back

`get_relative_path` goes up to the last directory the two paths have in common, and
`get_full_path` counts every `../` of what was stored. A component that ends in two dots and is
followed by another one is such a `../`, too.
-/

namespace Ploop.Xml

open Dd

/-! ## Normal paths -/

theorem squeeze_head (p : Path) : (squeeze p).head? = p.head? := by
  induction p with
  | nil => rfl
  | cons c s ih =>
      rw [squeeze]
      split
      case isTrue h => rw [ih, h.2, List.head?_cons, h.1]
      case isFalse => rfl

theorem squeeze_chain (p : Path) : (squeeze p).IsChain fun a b => ¬ (a = '/' ∧ b = '/') := by
  induction p with
  | nil => exact List.isChain_nil
  | cons c s ih =>
      rw [squeeze]
      by_cases h : c = '/' ∧ s.head? = some '/'
      · rw [if_pos h]
        exact ih
      · rw [if_neg h]
        refine List.isChain_cons.mpr ⟨?_, ih⟩
        intro d hd hslash
        apply h
        rw [← squeeze_head s, hd, hslash.2]
        exact ⟨hslash.1, rfl⟩

theorem normal_normalizePath (p : Path) : Normal (normalizePath p) := by
  have hchain := squeeze_chain p
  rw [normalizePath]
  by_cases h : (squeeze p).getLast? = some '/'
  · rw [if_pos h]
    obtain ⟨l, hl⟩ := List.getLast?_eq_some_iff.mp h
    rw [hl] at hchain ⊢
    rw [List.dropLast_concat]
    have happ := List.isChain_append.mp hchain
    refine ⟨happ.1, ?_⟩
    intro hlast
    exact happ.2.2 '/' hlast '/' rfl ⟨rfl, rfl⟩
  · rw [if_neg h]
    exact ⟨hchain, h⟩

theorem slashed_eq (dir : Path) : slashed dir = normalizePath dir ++ ['/'] :=
  if_neg (normal_normalizePath dir).last

/-- An absolute path stays one, unless it is the root. -/
theorem normalizePath_head {p : Path} (habs : p.head? = some '/') :
    normalizePath p = [] ∨ (normalizePath p).head? = some '/' := by
  have hhead := (squeeze_head p).trans habs
  rw [normalizePath]
  by_cases h : (squeeze p).getLast? = some '/'
  · rw [if_pos h]
    obtain ⟨l, hl⟩ := List.getLast?_eq_some_iff.mp h
    rw [hl] at hhead ⊢
    rw [List.dropLast_concat]
    cases l with
    | nil => exact .inl rfl
    | cons c l => exact .inr hhead
  · rw [if_neg h]
    exact .inr hhead

theorem slashed_head {dir : Path} (habs : dir.head? = some '/') :
    (slashed dir).head? = some '/' := by
  rw [slashed_eq]
  rcases normalizePath_head habs with h | h
  · rw [h]
    rfl
  · rw [List.head?_append, h]
    rfl

/-! ## The last common directory -/

/-- `q` is a directory of both, and `u` and `t` are what follows it. -/
structure Meets (dir path q u t : Path) : Prop where
  dir : slashed dir = q ++ '/' :: u
  path : normalizePath path = q ++ '/' :: t

/-- What follows the longer of two beginnings. -/
theorem suffix_of_length_le {q₀ t₀ q t : Path} (h : q₀ ++ '/' :: t₀ = q ++ '/' :: t)
    (hle : q₀.length ≤ q.length) : t <:+ t₀ := by
  have hsuffix : '/' :: t <:+ '/' :: t₀ := by
    apply List.suffix_of_suffix_length_le (List.suffix_append q _)
    · rw [← h]
      exact List.suffix_append q₀ _
    · have := congrArg List.length h
      simp only [List.length_append, List.length_cons] at this ⊢
      omega
  rcases List.suffix_cons_iff.mp hsuffix with heq | hs
  · rw [(List.cons.inj heq).2]
  · exact (List.suffix_cons '/' t).trans hs

/-- No slash is common to both after the last one. -/
theorem length_le_of_common {q r b i q₀ u₀ t₀ : Path} (hr : '/' ∉ r)
    (hne : ∀ c, b.head? = some c → i.head? ≠ some c)
    (hb : q ++ '/' :: (r ++ b) = q₀ ++ '/' :: u₀) (hi : q ++ '/' :: (r ++ i) = q₀ ++ '/' :: t₀) :
    q₀.length ≤ q.length := by
  by_contra hlt
  have hsplit (x y : Path) (h : q ++ '/' :: (r ++ x) = q₀ ++ '/' :: y) :
      ∃ a, r ++ x = a ++ '/' :: y ∧ q₀ = q ++ '/' :: a := by
    rcases List.append_eq_append_iff.mp h with ⟨a, hq, ha⟩ | ⟨a, hq, -⟩
    · cases a with
      | nil =>
          rw [hq, List.append_nil] at hlt
          exact absurd le_rfl hlt
      | cons c a =>
          obtain ⟨hc, hrest⟩ := List.cons.inj ha
          rw [← hc] at hq
          exact ⟨a, hrest, hq⟩
    · rw [hq, List.length_append] at hlt
      omega
  obtain ⟨a, ha, hq⟩ := hsplit b u₀ hb
  obtain ⟨a', ha', hq'⟩ := hsplit i t₀ hi
  obtain rfl : a = a' := (List.cons.inj (List.append_cancel_left (hq.symm.trans hq'))).2
  -- The slash after `a` is not in `r`, so `a` goes beyond it or to its end.
  have hrest (x y : Path) (h : r ++ x = a ++ '/' :: y) :
      ∃ a₁, a = r ++ a₁ ∧ x = a₁ ++ '/' :: y := by
    rcases List.append_eq_append_iff.mp h with ⟨a₁, h₁, h₂⟩ | ⟨a₁, h₁, h₂⟩
    · exact ⟨a₁, h₁, h₂⟩
    · cases a₁ with
      | nil => exact ⟨[], by rw [h₁, List.append_nil, List.append_nil], h₂.symm⟩
      | cons c a₁ =>
          rw [h₁, ← (List.cons.inj h₂).1] at hr
          exact absurd (List.mem_append_right a List.mem_cons_self) hr
  obtain ⟨a₁, h₁, hb₁⟩ := hrest b u₀ ha
  obtain ⟨a₂, h₂, hi₁⟩ := hrest i t₀ ha'
  obtain rfl : a₁ = a₂ := List.append_cancel_left (h₁.symm.trans h₂)
  cases a₁ with
  | nil => exact hne '/' (by rw [hb₁]; rfl) (by rw [hi₁]; rfl)
  | cons c a₁ => exact hne c (by rw [hb₁]; rfl) (by rw [hi₁]; rfl)

/-- The steps up from `u`. -/
def ups (u : Path) : Path := (List.replicate (u.count '/') ['.', '.', '/']).flatten

theorem length_ups (u : Path) : (ups u).length = 3 * u.count '/' := by
  simp [ups, Nat.mul_comm]

/-- The path is stored from the last common directory on, and as it is when that is the root. -/
theorem getRelativePath_meets {dir path : Path} (hdir : dir.head? = some '/')
    (hpath : (normalizePath path).head? = some '/') : ∃ q u t, Meets dir path q u t ∧
    (∀ q₀ u₀ t₀, Meets dir path q₀ u₀ t₀ → q₀.length ≤ q.length) ∧
    getRelativePath dir path =
      if q = [] then some ((normalizePath path).take (pathMax - 1))
      else if (ups u ++ t).length < pathMax then some (ups u ++ t) else none := by
  obtain ⟨d, hd⟩ := List.head?_eq_some_iff.mp (slashed_head hdir)
  obtain ⟨f, hf⟩ := List.head?_eq_some_iff.mp hpath
  obtain ⟨q, b', i', r', hr', hskip, hb, hi, hne⟩ := skipBase_spec d f [] List.not_mem_nil
  rw [List.nil_append] at hb hi
  have hstart : skipBase ('/' :: d) ('/' :: f) ('/' :: d) ('/' :: f) =
      (b', '/' :: (r' ++ b'), '/' :: (r' ++ i')) := hskip
  refine ⟨q, r' ++ b', r' ++ i', ⟨hd.trans hb, hf.trans hi⟩, ?_, ?_⟩
  · intro q₀ u₀ t₀ h
    exact length_le_of_common hr' hne ((hd.trans hb).symm.trans h.dir)
      ((hf.trans hi).symm.trans h.path)
  · have hup : (if b' ≠ [] then (List.replicate (getNumDir (r' ++ b')) ['.', '.', '/']).flatten
        else []) = ups (r' ++ b') := by
      split
      case isTrue => rfl
      case isFalse hnil =>
        rw [ups, not_not.mp hnil, List.append_nil, List.count_eq_zero.mpr hr']
        rfl
    have hroot : ('/' :: (r' ++ i')).length = ('/' :: f).length ↔ q = [] := by
      rw [hi, List.length_append, ← List.length_eq_zero_iff]
      omega
    simp only [getRelativePath, hd, hf, hstart, List.tail_cons, hup, hroot]

/-! ## Steps up in what was stored -/

/-- With a `../` in it the reader takes up a later place and counts more. -/
theorem skipDots_dots {p : Path} (h : ¬ NoDots p) (k : ℕ) (base : Path) :
    k ≤ (skipDots k base p).1 ∧ (skipDots k base p).2.length + 3 ≤ p.length := by
  induction k, base, p using skipDots.induct with
  | case1 k base s ih =>
      rw [skipDots]
      by_cases hs : NoDots s
      · rw [skipDots_of_noDots hs]
        exact ⟨Nat.le_succ k, le_rfl⟩
      · obtain ⟨hle, hlen⟩ := ih hs
        refine ⟨(Nat.le_succ k).trans hle, ?_⟩
        simp only [List.length_cons]
        omega
  | case2 k base c s hno ih =>
      rw [skipDots.eq_2 k base c s hno]
      have hs : ¬ NoDots s := by
        intro hs
        apply h
        intro hinfix
        rcases List.infix_cons_iff.mp hinfix with ⟨t, ht⟩ | hin
        · obtain ⟨hc, hrest⟩ := List.cons.inj ht
          exact hno t hc.symm hrest.symm
        · exact hs hin
      obtain ⟨hle, hlen⟩ := ih hs
      exact ⟨hle, hlen.trans (Nat.le_succ _)⟩
  | case3 k base =>
      exact absurd (by decide) h

theorem upDirs_length_le (n : ℕ) (s : Path) : (upDirs n s).length ≤ s.length := by
  induction n, s using upDirs.induct with
  | case1 d s => exact le_rfl
  | case2 d s n ih => exact ih.trans (Nat.le_succ _)
  | case3 n c d s hc ih =>
      rw [upDirs_skip n hc]
      exact ih.trans (Nat.le_succ _)
  | case4 n s hs => rw [upDirs.eq_3 n s hs]

/-- More steps do not end deeper. -/
theorem upDirs_le {n m : ℕ} (h : n ≤ m) (s : Path) :
    (upDirs m s).length ≤ (upDirs n s).length := by
  induction n, s using upDirs.induct generalizing m with
  | case1 d s => exact upDirs_length_le m _
  | case2 d s n ih =>
      obtain ⟨m, rfl⟩ := Nat.exists_eq_add_of_le' h
      exact ih (Nat.le_add_left n m)
  | case3 n c d s hc ih =>
      rw [upDirs_skip n hc, upDirs_skip m hc]
      exact ih h
  | case4 n s hs => rw [upDirs.eq_3 n s hs, upDirs.eq_3 m s hs]

theorem getFullPath_lt {dir p x : Path} (h : getFullPath dir p = some x) : x.length < pathMax := by
  rw [getFullPath] at h
  dsimp only at h
  split at h
  · obtain rfl := Option.some.inj h
    rw [List.length_take, pathMax]
    omega
  · split at h
    · obtain rfl := Option.some.inj h
      assumption
    · cases h

/-! ## There and back -/

/-- The path is read back from what is stored for it. -/
def Resolves (dir path : Path) : Prop :=
  ∃ r, getRelativePath dir path = some r ∧ getFullPath dir r = some (normalizePath path)

/-- The path is no root and can be stored, and either only the root is common to it and the
directory, or from a common directory on it has no `../` and fits with the steps up. -/
def Resolvable (dir path : Path) : Prop :=
  normalizePath path ≠ [] ∧ (normalizePath path).length < pathMax ∧
    ((∀ q u t, Meets dir path q u t → q = []) ∨
      ∃ q u t, q ≠ [] ∧ Meets dir path q u t ∧ NoDots t ∧ 3 * u.count '/' + t.length < pathMax)

section Resolve

variable {dir path : Path}

/-- The root is read back as the directory. -/
theorem not_resolves_root (h : normalizePath path = []) : ¬ Resolves dir path := by
  rintro ⟨r, hr, hfull⟩
  have hstored : getRelativePath dir path = some [] := by
    rw [getRelativePath, h]
    cases slashed dir with
    | nil => rfl
    | cons c b => rfl
  obtain rfl := Option.some.inj (hstored.symm.trans hr)
  have hup : upDirs 0 (slashed dir).reverse = (slashed dir).reverse := by
    rw [slashed_eq, List.reverse_append]
    exact upDirs_append [] _
  have hback : getFullPath dir [] =
      if ((upDirs 0 (slashed dir).reverse).reverse ++ []).length < pathMax then
        some ((upDirs 0 (slashed dir).reverse).reverse ++ []) else none := by
    have hnil : normalizePath [] = [] := rfl
    simp only [getFullPath, hnil, skipDots]
    rfl
  rw [hback, h, hup, List.append_nil, List.reverse_reverse, slashed_eq] at hfull
  split at hfull
  · exact absurd (Option.some.inj hfull) (by simp)
  · cases hfull

/-- A path of another tree is stored as it is. -/
theorem getFullPath_absolute (hpath : (normalizePath path).head? = some '/')
    (hlt : (normalizePath path).length < pathMax) :
    getFullPath dir ((normalizePath path).take (pathMax - 1)) = some (normalizePath path) := by
  have htake : (normalizePath path).take (pathMax - 1) = normalizePath path :=
    List.take_of_length_le (Nat.le_sub_one_of_lt hlt)
  rw [htake, getFullPath, normalizePath_of_normal (normal_normalizePath path)]
  dsimp only
  rw [if_pos hpath, htake]

/-- With a `../` in the rest the result is too short. -/
theorem getFullPath_dots {q u t : Path} (h : Meets dir path q u t) (hdots : ¬ NoDots t) :
    getFullPath dir (ups u ++ t) ≠ some (normalizePath path) := by
  have hnormal : Normal (q ++ '/' :: t) := h.path ▸ normal_normalizePath path
  rw [ups, getFullPath_up dir u hnormal]
  obtain ⟨hle, hlen⟩ := skipDots_dots hdots (u.count '/') t
  have hup := upDirs_le hle (slashed dir).reverse
  have hback := congrArg List.length (upDirs_slashed h.dir)
  rw [List.length_reverse, List.length_append, List.length_singleton] at hback
  split
  · intro heq
    have hsame := congrArg List.length (Option.some.inj heq)
    rw [h.path, List.length_append, List.length_reverse, List.length_append,
      List.length_cons] at hsame
    omega
  · exact nofun

/-- Which paths are read back from what `get_relative_path` stores. -/
theorem resolves_iff (hdir : dir.head? = some '/') (hpath : path.head? = some '/') :
    Resolves dir path ↔ Resolvable dir path := by
  rcases normalizePath_head hpath with hroot | hhead
  · apply iff_of_false (not_resolves_root hroot)
    intro h
    exact h.1 hroot
  obtain ⟨q, u, t, hmeets, hdeep, hrel⟩ := getRelativePath_meets hdir hhead
  have hne : normalizePath path ≠ [] := by
    intro h
    rw [h] at hhead
    cases hhead
  constructor
  · rintro ⟨r, hr, hfull⟩
    refine ⟨hne, getFullPath_lt hfull, ?_⟩
    by_cases hq : q = []
    · left
      intro q₀ u₀ t₀ h₀
      have := hdeep q₀ u₀ t₀ h₀
      rw [hq] at this
      exact List.eq_nil_of_length_eq_zero (Nat.le_zero.mp this)
    · right
      rw [hrel, if_neg hq] at hr
      split at hr
      case isTrue hlt =>
        obtain rfl := Option.some.inj hr
        rw [List.length_append, length_ups] at hlt
        refine ⟨q, u, t, hq, hmeets, ?_, hlt⟩
        by_contra hdots
        exact getFullPath_dots hmeets hdots hfull
      case isFalse => cases hr
  · rintro ⟨-, hlt, hcases⟩
    by_cases hq : q = []
    · rw [if_pos hq] at hrel
      exact ⟨_, hrel, getFullPath_absolute hhead hlt⟩
    · rcases hcases with hroot | ⟨q₀, u₀, t₀, hq₀, h₀, hdots, hroom⟩
      · exact absurd (hroot q u t hmeets) hq
      · have hle := hdeep q₀ u₀ t₀ h₀
        have hu := suffix_of_length_le (h₀.dir.symm.trans hmeets.dir) hle
        have ht := suffix_of_length_le (h₀.path.symm.trans hmeets.path) hle
        have hfits : (ups u ++ t).length < pathMax := by
          rw [List.length_append, length_ups]
          have hcount := hu.sublist.count_le '/'
          have hlength := ht.length_le
          omega
        have hnodots : NoDots t := by
          intro hin
          exact hdots (hin.trans ht.isInfix)
        rw [if_neg hq, if_pos hfits] at hrel
        refine ⟨_, hrel, ?_⟩
        rw [hmeets.path]
        exact getFullPath_noDots hmeets.dir (hmeets.path ▸ normal_normalizePath path) hnodots
          (hmeets.path ▸ hlt)

end Resolve

theorem resolves_iff_cousin : Resolves "/a//b/".toList "/a/c.d".toList :=
  (resolves_iff rfl rfl).mpr
    ⟨by decide, by decide, .inr ⟨"/a".toList, "b/".toList, "c.d".toList, by decide,
      ⟨by decide, by decide⟩, by decide, by decide⟩⟩

/-- No component is `.` or `..`. -/
def Plain (p : Path) : Prop := ∀ c ∈ p.splitOn '/', c ≠ ['.'] ∧ c ≠ ['.', '.']

instance (p : Path) : Decidable (Plain p) := inferInstanceAs (Decidable (∀ c ∈ _, _))

/-- The directory `c..` is taken for a step up, so the file is looked for in the root. -/
theorem resolves_elsewhere : ¬ ∀ dir path : Path, dir.head? = some '/' → path.head? = some '/' →
    Plain dir → Plain path → Resolves dir path := by
  intro hall
  obtain ⟨r, hr, hfull⟩ := hall "/a/b".toList "/a/c../d".toList rfl rfl (by decide) (by decide)
  have hstored : getRelativePath "/a/b".toList "/a/c../d".toList = some "../c../d".toList := by
    decide
  obtain rfl := Option.some.inj (hstored.symm.trans hr)
  have hread : getFullPath "/a/b".toList "../c../d".toList = some "/d".toList := by decide
  rw [hread] at hfull
  exact absurd (Option.some.inj hfull) (by decide)

end Ploop.Xml
