import Ploop.Snapshot.Operations
import Ploop.Lib.Relational

/-!
# The letter case of guids

Two descriptors are alike when they differ only in the case of their guids.
Everything that compares guids with `guidcmp` takes alike states to alike
states.
-/

namespace Ploop.Dd

open Program

/-! ## One spelling for all -/

theorem toNat_toLower (c : Char) :
    c.toLower.toNat = if 65 ≤ c.toNat ∧ c.toNat ≤ 90 then c.toNat + 32 else c.toNat := by
  unfold Char.toLower
  have hc : (c.val ≥ 'A'.val ∧ c.val ≤ 'Z'.val) ↔ 65 ≤ c.toNat ∧ c.toNat ≤ 90 := by
    rw [ge_iff_le, UInt32.le_iff_toNat_le, UInt32.le_iff_toNat_le]
    rfl
  by_cases h : c.val ≥ 'A'.val ∧ c.val ≤ 'Z'.val
  · rw [dif_pos h, if_pos (hc.mp h)]
    have h₂ := (hc.mp h).2
    change (c.val + ('a'.val - 'A'.val)).toNat = c.val.toNat + 32
    change c.val.toNat ≤ 90 at h₂
    have h32 : ('a'.val - 'A'.val).toNat = 32 := rfl
    rw [UInt32.toNat_add, h32, Nat.mod_eq_of_lt (by omega)]
  · rw [dif_neg h, if_neg fun h' => h (hc.mpr h')]

theorem toLower_toLower (c : Char) : c.toLower.toLower = c.toLower := by
  rw [← Char.toNat_inj, toNat_toLower, toNat_toLower]
  split_ifs <;> omega

/-- Neither braces nor the dash nor a digit has another case. -/
theorem toLower_eq_iff {c d : Char} (hd : d.toNat < 65 ∨ 122 < d.toNat) :
    c.toLower = d ↔ c = d := by
  rw [← Char.toNat_inj, ← Char.toNat_inj, toNat_toLower]
  split_ifs <;> omega

theorem isXDigit_iff {c : Char} : isXDigit c = true ↔ 48 ≤ c.toNat ∧ c.toNat ≤ 57 ∨
    97 ≤ c.toNat ∧ c.toNat ≤ 102 ∨ 65 ≤ c.toNat ∧ c.toNat ≤ 70 := by
  unfold isXDigit
  simp only [Bool.or_eq_true, Bool.and_eq_true, decide_eq_true_eq, Char.le_def,
    UInt32.le_iff_toNat_le, Char.toNat_val, Char.reduceToNat, or_assoc]

theorem isXDigit_toLower (c : Char) : isXDigit c.toLower = isXDigit c := by
  rw [Bool.eq_iff_iff, isXDigit_iff, isXDigit_iff, toNat_toLower]
  split_ifs <;> omega

/-- The lower case spelling. -/
def fold (g : Guid) : Guid := g.map Char.toLower

theorem guidEq_iff_fold {g g' : Guid} : guidEq g g' = true ↔ fold g = fold g' := guidEq_iff

@[simp] theorem fold_fold (g : Guid) : fold (fold g) = fold g := by
  unfold fold
  rw [List.map_map]
  exact List.map_congr_left fun c _ => toLower_toLower c

@[simp] theorem guidEq_fold (g g' : Guid) : guidEq (fold g) (fold g') = guidEq g g' := by
  rw [Bool.eq_iff_iff, guidEq_iff_fold, guidEq_iff_fold, fold_fold, fold_fold]

theorem fold_eq_iff {d : Guid} (hd : ∀ c ∈ d, c.toNat < 65 ∨ 122 < c.toNat) :
    ∀ g : Guid, fold g = d ↔ g = d := by
  induction d with
  | nil =>
      intro g
      exact List.map_eq_nil_iff
  | cons c d ih =>
      intro g
      cases g with
      | nil => simp [fold]
      | cons b g =>
          have hhead := toLower_eq_iff (c := b) (hd c List.mem_cons_self)
          have htail := ih (fun a ha => hd a (List.mem_cons_of_mem _ ha)) g
          unfold fold at htail
          simp only [fold, List.map_cons, List.cons.injEq, hhead, htail]

/-- The null guid has no letter, so that `strcmp` finds it where `guidcmp` does. -/
theorem eq_noneUuid_congr {p p' : Guid} (h : guidEq p p') : p = noneUuid ↔ p' = noneUuid := by
  have hall : (noneUuid.all fun c => decide (c.toNat < 65 ∨ 122 < c.toNat)) = true := by decide
  have hdigits := fold_eq_iff fun c hc => of_decide_eq_true (List.all_eq_true.mp hall c hc)
  rw [← hdigits p, guidEq_iff_fold.mp h, hdigits p']

theorem isValidGuid_fold (g : Guid) : isValidGuid (fold g) = isValidGuid g := by
  have hat : ∀ (i : ℕ) (d : Char), d.toNat < 65 ∨ 122 < d.toNat →
      ((fold g)[i]? = some d ↔ g[i]? = some d) := by
    intro i d hd
    rw [fold, List.getElem?_map]
    cases g[i]? with
    | none => simp
    | some c => simpa using toLower_eq_iff hd
  unfold isValidGuid
  have h₁ : decide ((fold g)[0]? = some '{') = decide (g[0]? = some '{') :=
    decide_eq_decide.mpr (hat 0 '{' (by decide))
  have h₂ : decide ((fold g)[37]? = some '}') = decide (g[37]? = some '}') :=
    decide_eq_decide.mpr (hat 37 '}' (by decide))
  have hlen : (fold g).length = g.length := by simp [fold]
  rw [hlen, h₁, h₂]
  congr 2
  funext i
  rw [fold, List.getElem?_map]
  cases g[i + 1]? with
  | none => rfl
  | some c =>
      simp only [Option.map_some, Option.any_some, isXDigit_toLower,
        toLower_eq_iff (d := '-') (by decide)]

theorem isValidGuid_congr {g g' : Guid} (h : guidEq g g') : isValidGuid g = isValidGuid g' := by
  rw [← isValidGuid_fold g, guidEq_iff_fold.mp h, isValidGuid_fold]

theorem fold_rename (guid newGuid p : Guid) : fold (DiskImagesData.rename guid newGuid p) =
    DiskImagesData.rename (fold guid) (fold newGuid) (fold p) := by
  unfold DiskImagesData.rename
  rw [guidEq_fold]
  split <;> rfl

/-! ## Descriptors up to the case of guids -/

def ImageData.fold (i : ImageData) : ImageData := { i with guid := Dd.fold i.guid }

def SnapshotData.fold (s : SnapshotData) : SnapshotData :=
  { s with guid := Dd.fold s.guid, parentGuid := Dd.fold s.parentGuid }

namespace DiskImagesData

def fold (di : DiskImagesData) : DiskImagesData :=
  { di with
    images := di.images.map ImageData.fold
    snapshots := di.snapshots.map SnapshotData.fold
    topGuid := di.topGuid.map Dd.fold }

/-- The same tree up to the letter case of guids. -/
def Alike (di di' : DiskImagesData) : Prop := di.fold = di'.fold

section Lookup

variable {di di' : DiskImagesData} {g g' : Guid}

theorem findImageIdxByGuid_fold (di : DiskImagesData) (g : Guid) :
    di.fold.findImageIdxByGuid (Dd.fold g) = di.findImageIdxByGuid g := by
  simp [findImageIdxByGuid, fold, Function.comp_def, ImageData.fold]

theorem findImageByGuid_fold (di : DiskImagesData) (g : Guid) :
    di.fold.findImageByGuid (Dd.fold g) = di.findImageByGuid g := by
  simp only [findImageByGuid, fold, List.find?_map, Function.comp_def, ImageData.fold, guidEq_fold,
    Option.map_map]

theorem findSnapshotByGuid_fold (di : DiskImagesData) (g : Guid) :
    di.fold.findSnapshotByGuid (Dd.fold g) = di.findSnapshotByGuid g := by
  simp [findSnapshotByGuid, fold, Function.comp_def, SnapshotData.fold]

theorem snapshotByGuid_fold (di : DiskImagesData) (g : Guid) :
    di.fold.snapshotByGuid (Dd.fold g) = (di.snapshotByGuid g).map SnapshotData.fold := by
  simp only [snapshotByGuid, fold, List.find?_map, Function.comp_def, SnapshotData.fold,
    guidEq_fold]

theorem getChildCountByUuid_fold (di : DiskImagesData) (g : Guid) :
    di.fold.getChildCountByUuid (Dd.fold g) = di.getChildCountByUuid g := by
  simp [getChildCountByUuid, fold, Function.comp_def, SnapshotData.fold]

theorem isTop_fold (di : DiskImagesData) (g : Guid) : di.fold.isTop (Dd.fold g) = di.isTop g := by
  simp only [isTop, fold]
  cases di.topGuid with
  | none => rfl
  | some t => simp

theorem changeGuid_fold (di : DiskImagesData) (g n : Guid) :
    (di.changeGuid g n).fold = di.fold.changeGuid (Dd.fold g) (Dd.fold n) := by
  simp [changeGuid, fold, Function.comp_def, ImageData.fold, SnapshotData.fold, renameImage,
    renameSnapshot, fold_rename]

theorem dropAt_fold (di : DiskImagesData) (i j : ℕ) :
    (di.dropAt i j).fold = di.fold.dropAt i j := by
  simp only [dropAt, fold, List.eraseIdx_map]

theorem mergeGuid_fold (di : DiskImagesData) (g : Guid) (s : SnapshotData) :
    (di.mergeGuid g s).fold = di.fold.mergeGuid (Dd.fold g) s.fold := by
  simp only [mergeGuid, fold, List.map_map, mk.injEq, true_and, and_true]
  constructor
  · refine List.map_congr_left fun i _ => ?_
    simp only [Function.comp_apply, ImageData.fold, SnapshotData.fold, guidEq_fold]
    split <;> rfl
  · refine List.map_congr_left fun t _ => ?_
    simp only [Function.comp_apply, SnapshotData.fold, guidEq_fold]
    split <;> rfl

theorem toXml_fold (di : DiskImagesData) : di.toXml.fold = di.fold.toXml := by
  simp [toXml, fold, List.filter_map, Function.comp_def, ImageData.fold, SnapshotData.fold]

end Lookup

end DiskImagesData

end Ploop.Dd
