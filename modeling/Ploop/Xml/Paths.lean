import Ploop.Snapshot.Descriptor

/-!
# Paths in a descriptor

Paths are stored relative to the directory of the descriptor. The reader
counts the `../` anywhere in the stored path.
-/

namespace Ploop.Xml

open Dd

def pathMax : ℕ := 4096

/-! ## `normalize_path` -/

/-- Slashes in a row become one. -/
def squeeze : Path → Path
  | [] => []
  | c :: s => if c = '/' ∧ s.head? = some '/' then squeeze s else c :: squeeze s

def normalizePath (path : Path) : Path :=
  if (squeeze path).getLast? = some '/' then (squeeze path).dropLast else squeeze path

/-- Both functions below look at the directory with one slash at its end. -/
def slashed (dir : Path) : Path :=
  if (normalizePath dir).getLast? = some '/' then normalizePath dir else normalizePath dir ++ ['/']

/-! ## `get_relative_path` -/

def getNumDir (dir : Path) : ℕ := dir.count '/'

/-- Skip what the directory `b` and the file `i` have in common; `bd` and `id` are
`b_d` and `i_d`, each with what follows it. -/
def skipBase : Path → Path → Path → Path → Path × Path × Path
  | c :: b, e :: i, bd, id =>
      if c = e then
        skipBase b i (if c = '/' then c :: b else bd) (if e = '/' then e :: i else id)
      else (c :: b, bd, id)
  | b, _, bd, id => (b, bd, id)

/-- There is no result when `strcat` leaves the buffer. -/
def getRelativePath (dir path : Path) : Option Path :=
  let fname := normalizePath path
  let basedir := slashed dir
  let (b, bd, id) := skipBase basedir fname basedir fname
  if id.length = fname.length then some (fname.take (pathMax - 1))
  else
    let up := if b ≠ [] then (List.replicate (getNumDir bd.tail) ['.', '.', '/']).flatten else []
    if (up ++ id.tail).length < pathMax then some (up ++ id.tail) else none

/-! ## `get_full_path` -/

/-- The loop over `strstr(s, "../")`: how many there are, and what follows the last. -/
def skipDots : ℕ → Path → Path → ℕ × Path
  | n, _, '.' :: '.' :: '/' :: s => skipDots (n + 1) s s
  | n, base, _ :: s => skipDots n base s
  | n, base, [] => (n, base)

/-- The loop from the end of the directory back to the slash number `n`; the path
is reversed. -/
def upDirs : ℕ → Path → Path
  | n, c :: d :: s =>
      if c = '/' then
        match n with
        | 0 => c :: d :: s
        | n + 1 => upDirs n (d :: s)
      else upDirs n (d :: s)
  | _, s => s

def getFullPath (dir path : Path) : Option Path :=
  let fname := normalizePath path
  let basedir := slashed dir
  if fname.head? = some '/' then some (fname.take (pathMax - 1))
  else
    let (n, imageBase) := skipDots 0 fname fname
    let out := (upDirs n basedir.reverse).reverse ++ imageBase
    if out.length < pathMax then some out else none

/-! ## Normal paths -/

/-- No two slashes in a row, and none at the end. -/
structure Normal (p : Path) : Prop where
  chain : p.IsChain fun a b => ¬ (a = '/' ∧ b = '/')
  last : p.getLast? ≠ some '/'

/-- What the reader does not take for a step up. -/
def NoDots (p : Path) : Prop := ¬ ['.', '.', '/'] <:+: p

instance (p : Path) : Decidable (NoDots p) := inferInstanceAs (Decidable (¬ _))

/-- An absolute path that can be stored. -/
structure Storable (p : Path) : Prop extends Normal p where
  head : p.head? = some '/'
  noDots : NoDots p
  lt : p.length < pathMax

theorem squeeze_of_chain {p : Path} (h : p.IsChain fun a b => ¬ (a = '/' ∧ b = '/')) :
    squeeze p = p := by
  induction p with
  | nil => rfl
  | cons c s ih =>
      have hs := ih h.tail
      rw [squeeze, hs, if_neg]
      rintro ⟨hc, hhead⟩
      cases s with
      | nil => cases hhead
      | cons d s => exact (List.isChain_cons_cons.mp h).1 ⟨hc, Option.some.inj hhead⟩

theorem normalizePath_of_normal {p : Path} (h : Normal p) : normalizePath p = p := by
  rw [normalizePath, squeeze_of_chain h.chain, if_neg h.last]

theorem slashed_of_normal {p : Path} (h : Normal p) : slashed p = p ++ ['/'] := by
  rw [slashed, normalizePath_of_normal h, if_neg h.last]

/-- The directory of a file in `p`, with its slash. -/
theorem slashed_append {p : Path} (h : Normal p) : slashed (p ++ ['/']) = p ++ ['/'] := by
  have hchain : (p ++ ['/']).IsChain fun a b => ¬ (a = '/' ∧ b = '/') := by
    refine List.isChain_append.mpr ⟨h.chain, List.isChain_singleton _, ?_⟩
    rintro c hc d - ⟨rfl, -⟩
    exact h.last hc
  have hnormal : normalizePath (p ++ ['/']) = p := by
    rw [normalizePath, squeeze_of_chain hchain, if_pos List.getLast?_concat, List.dropLast_concat]
  rw [slashed, hnormal, if_neg h.last]

/-! ## There and back -/

/-- The common part ends at a slash and the rest `r` of its last component, and nothing
after it is common. -/
theorem skipBase_spec (b i r : Path) (hr : '/' ∉ r) : ∃ q b' i' r', '/' ∉ r' ∧
    skipBase b i ('/' :: (r ++ b)) ('/' :: (r ++ i)) =
      (b', '/' :: (r' ++ b'), '/' :: (r' ++ i')) ∧
    '/' :: (r ++ b) = q ++ '/' :: (r' ++ b') ∧ '/' :: (r ++ i) = q ++ '/' :: (r' ++ i') ∧
    ∀ c, b'.head? = some c → i'.head? ≠ some c := by
  induction b generalizing i r with
  | nil => exact ⟨[], [], i, r, hr, rfl, rfl, rfl, nofun⟩
  | cons c b ih =>
      cases i with
      | nil => exact ⟨[], c :: b, [], r, hr, rfl, rfl, rfl, fun _ _ => nofun⟩
      | cons e i =>
          rw [skipBase]
          by_cases hce : c = e
          swap
          · rw [if_neg hce]
            refine ⟨[], c :: b, e :: i, r, hr, rfl, rfl, rfl, ?_⟩
            intro d hd he
            exact hce ((Option.some.inj hd).trans (Option.some.inj he).symm)
          subst hce
          rw [if_pos rfl]
          by_cases hc : c = '/'
          · subst hc
            obtain ⟨q, b', i', r', hr', hskip, hb, hi, hne⟩ := ih i [] List.not_mem_nil
            rw [List.nil_append] at hb hi
            refine ⟨'/' :: r ++ q, b', i', r', hr', hskip, ?_, ?_, hne⟩
            · rw [List.append_assoc, ← hb, List.cons_append]
            · rw [List.append_assoc, ← hi, List.cons_append]
          -- The character joins the component.
          · have hrc : '/' ∉ r ++ [c] := by simp [hr, Ne.symm hc]
            obtain ⟨q, b', i', r', hr', hskip, hb, hi, hne⟩ := ih i (r ++ [c]) hrc
            rw [if_neg hc, if_neg hc]
            simp only [List.append_assoc, List.singleton_append] at hskip hb hi
            exact ⟨q, b', i', r', hr', hskip, hb, hi, hne⟩

theorem skipDots_of_noDots {p : Path} (h : NoDots p) (n : ℕ) (base : Path) :
    skipDots n base p = (n, base) := by
  induction p with
  | nil => rw [skipDots]
  | cons c s ih =>
      have hs : NoDots s := fun hsub => h (hsub.trans (List.suffix_cons c s).isInfix)
      rw [skipDots, ih hs]
      rintro t rfl rfl
      exact h ⟨[], t, rfl⟩

/-- The steps up are counted. -/
theorem skipDots_up (n k : ℕ) (base p : Path) :
    skipDots k base ((List.replicate n ['.', '.', '/']).flatten ++ p) =
      skipDots (k + n) (if n = 0 then base else p) p := by
  induction n generalizing k base with
  | zero => rfl
  | succ n ih =>
      rw [List.replicate_succ, List.flatten_cons]
      change skipDots (k + 1) _ ((List.replicate n ['.', '.', '/']).flatten ++ p) = _
      rw [ih, if_neg n.succ_ne_zero, Nat.add_assoc, Nat.add_comm 1 n]
      congr 1
      by_cases hn : n = 0
      · subst hn
        rfl
      · exact if_neg hn

theorem upDirs_skip (n : ℕ) {c d : Char} (h : c ≠ '/') (s : Path) :
    upDirs n (c :: d :: s) = upDirs n (d :: s) := by
  conv_lhs => unfold upDirs
  exact if_neg h

/-- As many slashes back as there are in `l`, to the one before them. -/
theorem upDirs_append (l q : Path) : upDirs (l.count '/') (l ++ '/' :: q) = '/' :: q := by
  induction l with
  | nil => cases q <;> rfl
  | cons c l ih =>
      obtain ⟨d, s, hl⟩ : ∃ d s, l ++ '/' :: q = d :: s := by
        cases l with
        | nil => exact ⟨_, _, rfl⟩
        | cons d l => exact ⟨_, _, rfl⟩
      rw [hl] at ih
      rw [List.cons_append, hl]
      by_cases hc : c = '/'
      · subst hc
        rw [List.count_cons_self]
        exact ih
      · rw [List.count_cons_of_ne hc, upDirs_skip _ hc]
        exact ih

/-- What is left of a path after a slash. -/
theorem Normal.after {q t : Path} (h : Normal (q ++ '/' :: t)) : Normal t ∧ t ≠ [] ∧
    t.head? ≠ some '/' := by
  have hchain : ('/' :: t).IsChain fun a b => ¬ (a = '/' ∧ b = '/') :=
    (List.isChain_append.mp h.chain).2.1
  have hne : t ≠ [] := by
    rintro rfl
    exact h.last List.getLast?_concat
  refine ⟨⟨hchain.tail, ?_⟩, hne, fun hhead => ?_⟩
  · intro hlast
    apply h.last
    rw [List.getLast?_append_cons, List.getLast?_cons_of_ne_nil hne, hlast]
  · obtain ⟨s, rfl⟩ := List.head?_eq_some_iff.mp hhead
    exact (List.isChain_cons_cons.mp hchain).1 ⟨rfl, rfl⟩

theorem normal_up {t : Path} (h : Normal t) (hne : t ≠ []) (hhead : t.head? ≠ some '/') (n : ℕ) :
    Normal ((List.replicate n ['.', '.', '/']).flatten ++ t) ∧
      ((List.replicate n ['.', '.', '/']).flatten ++ t).head? ≠ some '/' := by
  induction n with
  | zero => exact ⟨h, hhead⟩
  | succ n ih =>
      obtain ⟨hn, hnhead⟩ := ih
      rw [List.replicate_succ, List.flatten_cons]
      refine ⟨⟨?_, ?_⟩, nofun⟩
      · rw [List.append_assoc]
        refine List.isChain_append.mpr ⟨by decide, hn.chain, ?_⟩
        rintro c - d hd ⟨-, rfl⟩
        exact hnhead hd
      · rw [List.append_assoc, List.getLast?_append_of_ne_nil _ (by simp [hne])]
        exact hn.last

/-- The steps up from the rest `u` of a directory, and then the rest `t` of a path. -/
theorem getFullPath_up (dir u : Path) {q t : Path} (hpath : Normal (q ++ '/' :: t)) :
    getFullPath dir ((List.replicate (u.count '/') ['.', '.', '/']).flatten ++ t) =
      if ((upDirs (skipDots (u.count '/') t t).1 (slashed dir).reverse).reverse ++
          (skipDots (u.count '/') t t).2).length < pathMax then
        some ((upDirs (skipDots (u.count '/') t t).1 (slashed dir).reverse).reverse ++
          (skipDots (u.count '/') t t).2)
      else none := by
  obtain ⟨ht, hne, hhead⟩ := hpath.after
  obtain ⟨hnormal, hup⟩ := normal_up ht hne hhead (u.count '/')
  have hbase : (if u.count '/' = 0 then
      (List.replicate (u.count '/') ['.', '.', '/']).flatten ++ t else t) = t := by
    split
    case isTrue h => simp [h]
    case isFalse => rfl
  simp only [getFullPath, normalizePath_of_normal hnormal, if_neg hup, skipDots_up, hbase,
    Nat.zero_add]

/-- Back from the rest of a directory. -/
theorem upDirs_slashed {dir q u : Path} (hdir : slashed dir = q ++ '/' :: u) :
    (upDirs (u.count '/') (slashed dir).reverse).reverse = q ++ ['/'] := by
  rw [hdir, List.reverse_append, List.reverse_cons, List.append_assoc, List.singleton_append,
    ← List.count_reverse, upDirs_append, List.reverse_cons, List.reverse_reverse]

theorem getFullPath_noDots {dir q u t : Path} (hdir : slashed dir = q ++ '/' :: u)
    (hpath : Normal (q ++ '/' :: t)) (hdots : NoDots t)
    (hlt : (q ++ '/' :: t).length < pathMax) :
    getFullPath dir ((List.replicate (u.count '/') ['.', '.', '/']).flatten ++ t) =
      some (q ++ '/' :: t) := by
  have hout : q ++ ['/'] ++ t = q ++ '/' :: t := by simp
  rw [getFullPath_up dir u hpath, skipDots_of_noDots hdots, upDirs_slashed hdir, hout, if_pos hlt]

/-- A stored path is read back in the directory it was stored for. -/
theorem getFullPath_getRelativePath {dir path r : Path} (hdir : Normal dir)
    (habs : dir.head? = some '/') (h : Storable path) (hr : getRelativePath dir path = some r) :
    getFullPath (dir ++ ['/']) r = some path := by
  obtain ⟨d, rfl⟩ := List.head?_eq_some_iff.mp habs
  obtain ⟨f, rfl⟩ := List.head?_eq_some_iff.mp h.head
  obtain ⟨q, b', i', r', hr', hskip, hb, hi, -⟩ := skipBase_spec (d ++ ['/']) f [] List.not_mem_nil
  rw [List.nil_append] at hb hi
  have hstart : skipBase ('/' :: (d ++ ['/'])) ('/' :: f) ('/' :: (d ++ ['/'])) ('/' :: f) =
      (b', '/' :: (r' ++ b'), '/' :: (r' ++ i')) := hskip
  simp only [getRelativePath, normalizePath_of_normal h.toNormal, slashed_of_normal hdir,
    List.cons_append, hstart, List.tail_cons] at hr
  split at hr
  case isTrue =>
    have htake : List.take (pathMax - 1) ('/' :: f) = '/' :: f :=
      List.take_of_length_le (Nat.le_sub_one_of_lt h.lt)
    obtain rfl := Option.some.inj hr
    rw [htake, getFullPath, normalizePath_of_normal h.toNormal]
    exact congrArg some htake
  case isFalse =>
    -- With the directory used up there is no slash after the last common one.
    have hup : (if b' ≠ [] then (List.replicate (getNumDir (r' ++ b')) ['.', '.', '/']).flatten
        else []) = (List.replicate ((r' ++ b').count '/') ['.', '.', '/']).flatten := by
      split
      case isTrue => rfl
      case isFalse hnil =>
        rw [not_not.mp hnil, List.append_nil, List.count_eq_zero.mpr hr']
        rfl
    rw [hup] at hr
    split at hr
    case isTrue =>
      obtain rfl := Option.some.inj hr
      rw [hi] at h ⊢
      have hdots : NoDots (r' ++ i') := fun hsub => h.noDots (hsub.trans ⟨q ++ ['/'], [], by simp⟩)
      exact getFullPath_noDots ((slashed_append hdir).trans hb) h.toNormal hdots h.lt
    case isFalse => cases hr

end Ploop.Xml
