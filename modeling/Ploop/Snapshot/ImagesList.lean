import Mathlib.Combinatorics.Enumerative.DoubleCounting
import Ploop.Snapshot.Descriptor

/-!
# The list of images below a snapshot

`make_images_list` of `ploop.c` with its array: one cell for each image of the descriptor and
one more, filled from the top of the stack and reversed in place.
-/

namespace Ploop.Dd

open Program

/-! ## The code -/

/-- `outside` is a write outside the array, or the use of a cell that was never written;
`null` is the return of NULL. -/
inductive Stop where
  | outside
  | null
  deriving DecidableEq

/-- The array: a cell is without a value, or it holds NULL or a string. -/
abbrev Cells := List (Option (Option Path))

abbrev ImagesM := EStateM Stop Cells

/-- What comes of the allocations. -/
structure Memory where
  malloc : Bool
  strdup : ℕ → Bool

def put (n : ℕ) (file : Option Path) : ImagesM Unit := do
  if n < (← get).length then modify fun images => images.set n (some file) else throw .outside

def fetch (n : ℕ) : ImagesM (Option Path) := do
  match (← get)[n]? with
  | some (some file) => pure file
  | _ => throw .outside

/-- `err:` -/
def giveUp (n : ℕ) : ImagesM ℕ := do
  put n none
  throw .null

section Code

variable (mem : Memory) (di : DiskImagesData)

/-- The loop with `k` turns left. The result is the number of images. -/
def gatherImages : ℕ → ℕ → Guid → ImagesM ℕ
  | 0, n, _ => giveUp n
  | k + 1, n, guid =>
      match di.snapshotByGuid guid with
      | none => giveUp n
      | some s =>
          match di.findImageByGuid guid with
          | none => giveUp n
          | some file => do
              put n (if mem.strdup n then some file else none)
              if mem.strdup n = false then giveUp n
              else if n = di.images.length then giveUp n
              else if s.parentGuid = noneUuid then do
                put (n + 1) none
                pure (n + 1)
              else gatherImages k (n + 1) s.parentGuid

def swapImages (n i : ℕ) : ImagesM Unit := do
  let file ← fetch (n - i - 1)
  put (n - i - 1) (← fetch i)
  put i file

def fillImages (guid : Guid) (reverse : Bool) : ImagesM Unit := do
  let n ← gatherImages mem di di.snapshots.length 0 guid
  if reverse then pure () else forRange (swapImages n) 0 (n / 2)

/-- `make_images_list` -/
def makeImagesArray (guid : Guid) (reverse : Bool) : Except Stop Cells :=
  if di.images.length = 0 then .error .null
  else if mem.malloc = false then .error .null
  else
    match fillImages mem di guid reverse (List.replicate (di.images.length + 1) none) with
    | .ok _ images => .ok images
    | .error e _ => .error e

end Code

/-! ## What it is for -/

/-- The images from `guid` down to a snapshot whose parent is the null guid. -/
inductive Chain (di : DiskImagesData) : Guid → List Path → Prop
  | base {guid : Guid} {s : SnapshotData} {file : Path} :
      di.snapshotByGuid guid = some s → di.findImageByGuid guid = some file →
      s.parentGuid = noneUuid → Chain di guid [file]
  | step {guid : Guid} {s : SnapshotData} {file : Path} {files : List Path} :
      di.snapshotByGuid guid = some s → di.findImageByGuid guid = some file →
      s.parentGuid ≠ noneUuid → Chain di s.parentGuid files → Chain di guid (file :: files)

/-- The array holds these strings and NULL after them. -/
structure Holds (images : Cells) (files : List Path) : Prop where
  get : ∀ j < files.length, images[j]? = files[j]?.map fun file => some (some file)
  close : images[files.length]? = some (some none)

def Memory.Grants (mem : Memory) (n : ℕ) : Prop := mem.malloc = true ∧ ∀ i < n, mem.strdup i = true

/-! ## The chain is found in time -/

section Chains

variable {di : DiskImagesData} {guid guid' : Guid} {c c' : List Path} {k : ℕ}

theorem chain_of_imagesFrom (h : di.imagesFrom k guid = some c) :
    Chain di guid c ∧ c.length ≤ k := by
  induction k generalizing guid c with
  | zero => exact absurd h (Option.some_ne_none _).symm
  | succ k ih =>
      rw [DiskImagesData.imagesFrom] at h
      obtain ⟨s, hs, h⟩ := Option.bind_eq_some_iff.mp h
      obtain ⟨file, hfile, h⟩ := Option.bind_eq_some_iff.mp h
      split at h
      case isTrue hnone =>
        obtain rfl := Option.some.inj h
        exact ⟨Chain.base hs hfile hnone, Nat.le_add_left 1 k⟩
      case isFalse hnone =>
        obtain ⟨files, hfiles, rfl⟩ := Option.map_eq_some_iff.mp h
        obtain ⟨hchain, hlen⟩ := ih hfiles
        exact ⟨Chain.step hs hfile hnone hchain, Nat.succ_le_succ hlen⟩

theorem imagesFrom_succ {s : SnapshotData} {file : Path} (hs : di.snapshotByGuid guid = some s)
    (hfile : di.findImageByGuid guid = some file) :
    di.imagesFrom (k + 1) guid =
      if s.parentGuid = noneUuid then some [file]
      else (file :: ·) <$> di.imagesFrom k s.parentGuid := by
  rw [DiskImagesData.imagesFrom, hs, Option.bind_eq_bind, Option.bind_some, hfile,
    Option.bind_eq_bind, Option.bind_some]

theorem Chain.imagesFrom (h : Chain di guid c) (hk : c.length ≤ k) :
    di.imagesFrom k guid = some c := by
  induction h generalizing k with
  | base hs hfile hnone =>
      obtain ⟨k, rfl⟩ := Nat.exists_eq_succ_of_ne_zero (Nat.ne_of_gt hk)
      rw [imagesFrom_succ hs hfile, if_pos hnone]
  | step hs hfile hnone _ ih =>
      obtain ⟨k, rfl⟩ := Nat.exists_eq_succ_of_ne_zero (Nat.ne_of_gt (Nat.zero_lt_of_lt hk))
      rw [imagesFrom_succ hs hfile, if_neg hnone, ih (Nat.le_of_succ_le_succ hk)]
      rfl

/-- Two spellings of one guid have the same images below them. -/
theorem Chain.length_unique (h : Chain di guid c) (h' : Chain di guid' c')
    (heq : di.snapshotByGuid guid = di.snapshotByGuid guid') : c.length = c'.length := by
  induction h generalizing guid' c' with
  | base hs _ hnone =>
      cases h' with
      | base => rfl
      | step hs' _ hnone' =>
          rw [heq, hs'] at hs
          obtain rfl := Option.some.inj hs
          exact absurd hnone hnone'
  | step hs _ hnone _ ih =>
      cases h' with
      | base hs' _ hnone' =>
          rw [heq, hs'] at hs
          obtain rfl := Option.some.inj hs
          exact absurd hnone' hnone
      | step hs' _ _ h' =>
          rw [heq, hs'] at hs
          obtain rfl := Option.some.inj hs
          exact congrArg Nat.succ (ih h' rfl)

theorem Chain.suffix (h : Chain di guid c) {j : ℕ} (hj : 0 < j) (hle : j ≤ c.length) :
    ∃ g d, Chain di g d ∧ d.length = j := by
  induction h with
  | base hs hfile hnone =>
      obtain rfl : j = 1 := Nat.le_antisymm hle hj
      exact ⟨_, _, Chain.base hs hfile hnone, rfl⟩
  | step hs hfile hnone h ih =>
      rcases Nat.lt_or_eq_of_le hle with hlt | rfl
      · exact ih (Nat.le_of_lt_succ hlt)
      · exact ⟨_, _, Chain.step hs hfile hnone h, rfl⟩

/-- No place of an array is found twice on the way down: the rest of the way would be the same,
and shorter. -/
theorem Chain.length_le {n : ℕ} (idx : Guid → Option ℕ)
    (hlt : ∀ g d, Chain di g d → ∃ i < n, idx g = some i)
    (hsame : ∀ g g' i, idx g = some i → idx g' = some i → guidEq g g') (h : Chain di guid c) :
    c.length ≤ n := by
  have hcard := Finset.card_le_card_of_forall_subsingleton
    (fun j i => ∃ g d, Chain di g d ∧ d.length = j ∧ idx g = some i)
    (s := Finset.Icc 1 c.length) (t := Finset.range n) ?_ ?_
  · rwa [Nat.card_Icc, Finset.card_range, Nat.add_sub_cancel] at hcard
  · intro j hj
    obtain ⟨hpos, hle⟩ := Finset.mem_Icc.mp hj
    obtain ⟨g, d, hd, hlen⟩ := h.suffix hpos hle
    obtain ⟨i, hi, hidx⟩ := hlt g d hd
    exact ⟨i, Finset.mem_range.mpr hi, g, d, hd, hlen, hidx⟩
  · rintro i - j ⟨-, g, d, hd, rfl, hg⟩ j' ⟨-, g', d', hd', rfl, hg'⟩
    apply hd.length_unique hd'
    have hiff := hsame g g' i hg hg'
    unfold DiskImagesData.snapshotByGuid
    congr 1
    funext s
    exact guidEq_congr (guidEq_refl s.guid) hiff

theorem Chain.cases_head (h : Chain di guid c) :
    (∃ s, di.snapshotByGuid guid = some s) ∧ ∃ file, di.findImageByGuid guid = some file := by
  cases h with
  | base hs hfile _ => exact ⟨⟨_, hs⟩, ⟨_, hfile⟩⟩
  | step hs hfile _ _ => exact ⟨⟨_, hs⟩, ⟨_, hfile⟩⟩

theorem exists_findIdx {α : Type} {p : α → Bool} {l : List α} {x : α} (h : l.find? p = some x) :
    ∃ i < l.length, l.findIdx? p = some i := by
  have hsome : (l.findIdx? p).isSome = true := by
    rw [List.findIdx?_isSome, List.any_eq_true]
    exact ⟨x, List.mem_of_find?_eq_some h, List.find?_some h⟩
  obtain ⟨i, hi⟩ := Option.isSome_iff_exists.mp hsome
  exact ⟨i, (List.findIdx?_eq_some_iff_getElem.mp hi).1, hi⟩

theorem Chain.ne_nil (h : Chain di guid c) : c ≠ [] := by
  cases h <;> exact List.cons_ne_nil _ _

theorem Chain.length_le_snapshots (h : Chain di guid c) : c.length ≤ di.snapshots.length := by
  apply Chain.length_le di.findSnapshotByGuid _ _ h
  · intro g d hd
    obtain ⟨⟨s, hs⟩, -⟩ := hd.cases_head
    exact exists_findIdx hs
  · intro g g' i hg hg'
    obtain ⟨hi, hp, -⟩ := List.findIdx?_eq_some_iff_getElem.mp hg
    obtain ⟨_, hp', -⟩ := List.findIdx?_eq_some_iff_getElem.mp hg'
    rw [guidEq_comm] at hp
    exact guidEq_trans hp hp'

theorem Chain.length_le_images (h : Chain di guid c) : c.length ≤ di.images.length := by
  apply Chain.length_le di.findImageIdxByGuid _ _ h
  · intro g d hd
    obtain ⟨-, file, hfile⟩ := hd.cases_head
    obtain ⟨img, himg, -⟩ := Option.map_eq_some_iff.mp hfile
    exact exists_findIdx himg
  · intro g g' i hg hg'
    obtain ⟨hi, hp, -⟩ := List.findIdx?_eq_some_iff_getElem.mp hg
    obtain ⟨_, hp', -⟩ := List.findIdx?_eq_some_iff_getElem.mp hg'
    rw [guidEq_comm] at hp'
    exact guidEq_trans hp hp'

/-- The bound of the loop is long enough for every chain that ends. -/
theorem makeImagesList_iff : di.makeImagesList guid = some c ↔ Chain di guid c := by
  constructor
  · exact fun h => (chain_of_imagesFrom h).1
  · exact fun h => h.imagesFrom (le_min h.length_le_snapshots h.length_le_images)

end Chains

/-! ## The array -/

section Array

variable {mem : Memory} {di : DiskImagesData} {guid : Guid} {a : Cells} {d : List Path}
  {n m k i : ℕ} {file : Option Path}

theorem put_run (h : n < a.length) : put n file a = .ok () (a.set n (some file)) := by
  change (if n < a.length then modify fun images => images.set n (some file) else throw .outside :
    ImagesM Unit) a = _
  rw [if_pos h]
  rfl

theorem fetch_run (h : a[n]? = some (some file)) : fetch n a = .ok file a := by
  change (match a[n]? with
    | some (some file) => pure file
    | _ => throw .outside : ImagesM (Option Path)) a = _
  rw [h]
  rfl

theorem giveUp_run (h : n < a.length) : giveUp n a = .error .null (a.set n (some none)) := by
  unfold giveUp
  rw [bind_run_ok (put_run h)]
  rfl

/-- The first cells hold these strings. -/
def Filled (a : Cells) (d : List Path) : Prop :=
  ∀ j < d.length, a[j]? = d[j]?.map fun file => some (some file)

theorem Filled.set (h : Filled a d) (hlt : d.length < a.length) (file : Path) :
    Filled (a.set d.length (some (some file))) (d ++ [file]) := by
  intro j hj
  rw [List.length_append, List.length_singleton] at hj
  rcases Nat.lt_or_eq_of_le (Nat.le_of_lt_succ hj) with hjd | rfl
  · rw [List.getElem?_set_ne hjd.ne', List.getElem?_append_left hjd]
    exact h j hjd
  · rw [List.getElem?_set_self hlt, List.getElem?_concat_length]
    rfl

theorem Filled.close (h : Filled a d) (hlt : d.length < a.length) :
    Holds (a.set d.length (some none)) d where
  get j hj := by
    rw [List.getElem?_set_ne hj.ne']
    exact h j hj
  close := List.getElem?_set_self hlt

/-- The loop goes the way of `imagesFrom`, and what it has found so far stands in the array. -/
theorem gatherImages_run (hlen : a.length = di.images.length + 1) (hfill : Filled a d)
    (hd : d.length ≤ di.images.length) :
    (∃ c a', di.imagesFrom (min k (di.images.length - d.length)) guid = some c ∧
        (∀ i < c.length, mem.strdup (d.length + i) = true) ∧
        gatherImages mem di k d.length guid a = .ok (d ++ c).length a' ∧
        a'.length = di.images.length + 1 ∧ Holds a' (d ++ c)) ∨
      ((∀ c, di.imagesFrom (min k (di.images.length - d.length)) guid = some c →
          ∃ i < c.length, mem.strdup (d.length + i) = false) ∧
        ∃ a', gatherImages mem di k d.length guid a = .error .null a') := by
  have hroom : d.length < a.length := by omega
  induction k generalizing d guid a with
  | zero =>
      right
      rw [Nat.zero_min]
      exact ⟨fun c hc => absurd hc (Option.some_ne_none _).symm, _, giveUp_run hroom⟩
  | succ k ih =>
      rw [gatherImages]
      rcases hs : di.snapshotByGuid guid with _ | s
      · right
        exact ⟨fun c hc => absurd (chain_of_imagesFrom hc).1.cases_head.1 (by simp [hs]), _,
          giveUp_run hroom⟩
      dsimp only
      rcases hf : di.findImageByGuid guid with _ | file
      · right
        exact ⟨fun c hc => absurd (chain_of_imagesFrom hc).1.cases_head.2 (by simp [hf]), _,
          giveUp_run hroom⟩
      dsimp only
      rw [bind_run_ok (put_run hroom)]
      have hroom' : ∀ v, d.length < (a.set d.length v).length := fun v => by rwa [List.length_set]
      by_cases hdup : mem.strdup d.length = false
      · right
        rw [if_pos hdup]
        refine ⟨fun c hc => ⟨0, ?_, hdup⟩, _, giveUp_run (hroom' _)⟩
        exact List.length_pos_of_ne_nil (chain_of_imagesFrom hc).1.ne_nil
      rw [if_neg hdup, Bool.not_eq_false _ |>.mp hdup, if_pos rfl]
      by_cases hfull : d.length = di.images.length
      · right
        rw [if_pos hfull, hfull, Nat.sub_self, Nat.min_zero]
        refine ⟨fun c hc => absurd hc (Option.some_ne_none _).symm, _, giveUp_run ?_⟩
        rw [← hfull]
        exact hroom' _
      rw [if_neg hfull]
      have hmin : min (k + 1) (di.images.length - d.length) =
          min k (di.images.length - (d ++ [file]).length) + 1 := by
        rw [List.length_append, List.length_singleton]
        omega
      have hdlen : (d ++ [file]).length = d.length + 1 := by
        rw [List.length_append, List.length_singleton]
      have hfill' := hfill.set hroom file
      have hstay : (a.set d.length (some (some file))).length = di.images.length + 1 := by
        rw [List.length_set, hlen]
      rw [hmin, imagesFrom_succ hs hf]
      split
      case isTrue hnone =>
        left
        have hclose : (d ++ [file]).length < (a.set d.length (some (some file))).length := by omega
        refine ⟨[file], _, rfl, ?_, ?_, ?_, hfill'.close hclose⟩
        · intro i hi
          obtain rfl := Nat.lt_one_iff.mp hi
          exact (Bool.not_eq_false _).mp hdup
        · rw [← hdlen, bind_run_ok (put_run hclose)]
          rfl
        · rw [List.length_set, hstay]
      case isFalse hnone =>
        rw [← hdlen]
        rcases @ih s.parentGuid _ _ hstay hfill' (by omega) (by omega) with
          ⟨c, a', hc, hgrant, hrun, hlen', hholds⟩ | ⟨hno, a', hrun⟩
        · left
          rw [List.append_assoc, List.singleton_append] at hrun hholds
          refine ⟨file :: c, a', ?_, ?_, hrun, hlen', hholds⟩
          · rw [hc]
            rfl
          · intro i hi
            cases i with
            | zero => exact (Bool.not_eq_false _).mp hdup
            | succ i =>
                have hnext := hgrant i (Nat.lt_of_succ_lt_succ hi)
                rwa [hdlen, Nat.add_right_comm] at hnext
        · right
          refine ⟨?_, a', hrun⟩
          intro c hc
          obtain ⟨c', hc', rfl⟩ := Option.map_eq_some_iff.mp hc
          obtain ⟨i, hi, hfail⟩ := hno c' hc'
          rw [hdlen, Nat.add_right_comm] at hfail
          exact ⟨i + 1, Nat.succ_lt_succ hi, hfail⟩

/-- The outer `i` cells at both ends have changed places. -/
structure Swapped (d : List Path) (i : ℕ) (a : Cells) : Prop where
  close : a[d.length]? = some (some none)
  get : ∀ j < d.length, a[j]? = (if j < i ∨ d.length ≤ j + i then d.reverse[j]?
    else d[j]?).map fun file => some (some file)

theorem Holds.swapped (h : Holds a d) : Swapped d 0 a where
  close := h.close
  get j hj := by
    rw [if_neg (by omega)]
    exact h.get j hj

theorem Swapped.holds (h : Swapped d (d.length / 2) a) : Holds a d.reverse where
  close := by
    rw [List.length_reverse]
    exact h.close
  get j hj := by
    rw [List.length_reverse] at hj
    rw [h.get j hj]
    split
    case isTrue => rfl
    case isFalse hmid =>
      -- the middle of an odd number of cells
      have hj' : d.length - 1 - j = j := by omega
      rw [List.getElem?_reverse hj, hj']

theorem Swapped.swap (h : Swapped d i a) (hi : i < d.length / 2) :
    ∃ a', swapImages d.length i a = .ok () a' ∧ Swapped d (i + 1) a' := by
  have hlen : d.length < a.length := (List.getElem?_eq_some_iff.mp h.close).1
  obtain ⟨x, hx⟩ : ∃ x, d.length - i - 1 = x := ⟨_, rfl⟩
  have hxl : x < d.length := by omega
  have hil : i < d.length := by omega
  have hlast : a[x]? = some (some (some d[x])) := by
    rw [h.get x hxl, if_neg (by omega), List.getElem?_eq_getElem hxl]
    rfl
  have hfirst : a[i]? = some (some (some d[i])) := by
    rw [h.get i hil, if_neg (by omega), List.getElem?_eq_getElem hil]
    rfl
  refine ⟨(a.set x (some (some d[i]))).set i (some (some d[x])), ?_, ?_, ?_⟩
  · unfold swapImages
    rw [hx, bind_run_ok (fetch_run hlast), bind_run_ok (fetch_run hfirst),
      bind_run_ok (put_run (by omega)), put_run (by rw [List.length_set]; omega)]
  · rw [List.getElem?_set_ne (by omega), List.getElem?_set_ne (by omega)]
    exact h.close
  · intro j hj
    rcases eq_or_ne j i with rfl | hji
    · have hback : d.length - 1 - j = x := by omega
      rw [List.getElem?_set_self (by rw [List.length_set]; omega), if_pos (by omega),
        List.getElem?_reverse hj, hback, List.getElem?_eq_getElem hxl]
      rfl
    · rw [List.getElem?_set_ne hji.symm]
      rcases eq_or_ne j x with rfl | hjx
      · have hback : d.length - 1 - j = i := by omega
        rw [List.getElem?_set_self (by omega), if_pos (by omega), List.getElem?_reverse hj, hback,
          List.getElem?_eq_getElem hil]
        rfl
      · rw [List.getElem?_set_ne hjx.symm, h.get j hj]
        congr 1
        apply if_congr _ rfl rfl
        omega

theorem swapImages_loop (h : Holds a d) :
    ∃ a', forRange (swapImages d.length) 0 (d.length / 2) a = .ok () a' ∧ Holds a' d.reverse := by
  have hstep : ∀ i, 0 ≤ i → i < 0 + d.length / 2 →
      Triple (Swapped d i) (swapImages d.length i) (fun _ => Swapped d (i + 1))
        (fun _ => False) := by
    intro i _ hi a ha
    rw [zero_add] at hi
    obtain ⟨a', hrun, ha'⟩ := ha.swap hi
    rwa [hrun]
  have hloop := Triple.forRange 0 (d.length / 2) hstep
  rw [zero_add] at hloop
  obtain ⟨_, a', hrun, hswapped⟩ := hloop.exists_ok h.swapped
  exact ⟨a', hrun, hswapped.holds⟩

end Array

/-! ## The result -/

section Result

variable {mem : Memory} {di : DiskImagesData} {guid : Guid} {reverse : Bool} {a : Cells}
  {l l' c : List Path}

/-- The order in which the list is returned: from `guid` to the base, or the other way. -/
def ordered (reverse : Bool) (c : List Path) : List Path := if reverse then c else c.reverse

theorem Holds.lt_of (h : Holds a l) {j : ℕ} (hj : a[j]? = some (some none)) : l.length ≤ j := by
  by_contra hlt
  rw [h.get j (not_le.mp hlt), List.getElem?_eq_getElem (not_le.mp hlt)] at hj
  simp at hj

/-- An array holds one list. -/
theorem Holds.unique (h : Holds a l) (h' : Holds a l') : l = l' := by
  have hlen : l.length = l'.length := le_antisymm (h.lt_of h'.close) (h'.lt_of h.close)
  apply List.ext_getElem hlen
  intro j hj hj'
  have hget := h.get j hj
  rw [h'.get j hj', List.getElem?_eq_getElem hj, List.getElem?_eq_getElem hj'] at hget
  simpa using hget.symm

theorem fillImages_run (hblank : a.length = di.images.length + 1) :
    (∃ c a', Chain di guid c ∧ (∀ i < c.length, mem.strdup i = true) ∧
        fillImages mem di guid reverse a = .ok () a' ∧ Holds a' (ordered reverse c)) ∨
      ((∀ c, Chain di guid c → ∃ i < c.length, mem.strdup i = false) ∧
        ∃ a', fillImages mem di guid reverse a = .error .null a') := by
  have hbound : di.imagesFrom (min di.snapshots.length (di.images.length - 0)) guid =
      di.makeImagesList guid := rfl
  have hgather := @gatherImages_run mem di guid a [] di.snapshots.length hblank
    (fun j hj => absurd hj (Nat.not_lt_zero j)) (Nat.zero_le _)
  simp only [List.length_nil, List.nil_append, Nat.zero_add, hbound, makeImagesList_iff] at hgather
  unfold fillImages
  rcases hgather with ⟨c, a', hc, hgrant, hrun, -, hholds⟩ | ⟨hno, a', hrun⟩
  · left
    cases reverse with
    | true => exact ⟨c, a', hc, hgrant, bind_run_ok hrun, hholds⟩
    | false =>
        obtain ⟨b, hloop, hb⟩ := swapImages_loop hholds
        exact ⟨c, b, hc, hgrant, (bind_run_ok hrun).trans hloop, hb⟩
  · right
    exact ⟨hno, a', bind_run_error hrun⟩

/-- The list of the chain, or NULL where there is none or an allocation fails. -/
theorem makeImagesArray_run :
    (∃ c a, Chain di guid c ∧ mem.Grants c.length ∧
        makeImagesArray mem di guid reverse = .ok a ∧ Holds a (ordered reverse c)) ∨
      ((∀ c, Chain di guid c → ¬ mem.Grants c.length) ∧
        makeImagesArray mem di guid reverse = .error .null) := by
  unfold makeImagesArray
  by_cases himages : di.images.length = 0
  · right
    rw [if_pos himages]
    refine ⟨fun c hc _ => hc.ne_nil ?_, rfl⟩
    exact List.eq_nil_of_length_eq_zero (Nat.le_zero.mp (himages ▸ hc.length_le_images))
  by_cases hmalloc : mem.malloc = false
  · right
    rw [if_neg himages, if_pos hmalloc]
    exact ⟨fun c _ hgrant => absurd hgrant.1 (by simp [hmalloc]), rfl⟩
  rw [if_neg himages, if_neg hmalloc]
  rcases @fillImages_run mem di guid reverse _ List.length_replicate with
    ⟨c, a, hc, hgrant, hrun, hholds⟩ | ⟨hno, a, hrun⟩
  · left
    rw [hrun]
    exact ⟨c, a, hc, ⟨(Bool.not_eq_false _).mp hmalloc, hgrant⟩, rfl, hholds⟩
  · right
    rw [hrun]
    refine ⟨fun c hc hgrant => ?_, rfl⟩
    obtain ⟨i, hi, hdup⟩ := hno c hc
    exact absurd (hgrant.2 i hi) (by simp [hdup])

end Result

/-- `make_images_list` never leaves its array, and it returns a list exactly when the parents of
`guid` lead to a base with an image for every step and memory is granted: these images. -/
theorem makeImagesArray_iff (mem : Memory) (di : DiskImagesData) (guid : Guid) (reverse : Bool) :
    makeImagesArray mem di guid reverse ≠ .error .outside ∧
      ((∃ a, makeImagesArray mem di guid reverse = .ok a) ↔
        ∃ c, Chain di guid c ∧ mem.Grants c.length) ∧
      ∀ l, (∃ a, makeImagesArray mem di guid reverse = .ok a ∧ Holds a l) ↔
        ∃ c, Chain di guid c ∧ mem.Grants c.length ∧ l = ordered reverse c := by
  rcases @makeImagesArray_run mem di guid reverse with
    ⟨c, a, hc, hgrant, hrun, hholds⟩ | ⟨hno, hrun⟩
  · rw [hrun]
    refine ⟨by simp, ⟨fun _ => ⟨c, hc, hgrant⟩, fun _ => ⟨a, rfl⟩⟩, fun l => ⟨?_, ?_⟩⟩
    · rintro ⟨a', ha', hl⟩
      obtain rfl := Except.ok.inj ha'
      exact ⟨c, hc, hgrant, hl.unique hholds⟩
    · rintro ⟨c', hc', -, rfl⟩
      have heq := makeImagesList_iff.mpr hc'
      rw [makeImagesList_iff.mpr hc] at heq
      obtain rfl := Option.some.inj heq
      exact ⟨a, rfl, hholds⟩
  · rw [hrun]
    refine ⟨by simp, ⟨?_, ?_⟩, fun l => ⟨?_, ?_⟩⟩
    · rintro ⟨a, ha⟩
      exact absurd ha (by simp)
    · rintro ⟨c, hc, hgrant⟩
      exact absurd hgrant (hno c hc)
    · rintro ⟨a, ha, -⟩
      exact absurd ha (by simp)
    · rintro ⟨c, hc, hgrant, -⟩
      exact absurd hgrant (hno c hc)

end Ploop.Dd
