import Mathlib.Data.List.InsertIdx
import Ploop.Lib.Rooted
import Ploop.Snapshot.ImagesList
import Ploop.Snapshot.Spelling

/-!
# The tree of snapshots

A descriptor whose snapshots are a tree under one base, with an image for each of them and the top
delta as a leaf, and what the edits of `di.c` make of it.
-/

namespace Ploop.Dd

open Rooted

/-! ## Keys -/

@[simp] theorem fold_noneUuid : fold noneUuid = noneUuid := by
  decide

theorem fold_eq_noneUuid {g : Guid} : fold g = noneUuid ↔ g = noneUuid := by
  have h : guidEq (fold g) g := guidEq_iff_fold.mpr (fold_fold g)
  exact eq_noneUuid_congr h

/-- The key of the parent; the base has none. -/
def parentKey (g : Guid) : Option Guid := if g = noneUuid then none else some (fold g)

theorem parentKey_eq_some {g k : Guid} (hk : k ≠ noneUuid) :
    parentKey g = some k ↔ fold g = k := by
  unfold parentKey
  split
  case isTrue h =>
    subst h
    simpa using hk.symm
  case isFalse => simp

theorem parentKey_of_ne {g : Guid} (hg : g ≠ noneUuid) : parentKey g = some (fold g) := if_neg hg

def SnapshotData.entry (s : SnapshotData) : Guid × Option Guid :=
  (Dd.fold s.guid, parentKey s.parentGuid)

/-- A guid takes the place of another. -/
def replaceKey (g n k : Guid) : Guid := if k = g then n else k

theorem fold_rename_eq (g n p : Guid) :
    fold (DiskImagesData.rename g n p) = replaceKey (fold g) (fold n) (fold p) := by
  unfold DiskImagesData.rename replaceKey
  simp only [guidEq_iff_fold]
  split <;> rfl

theorem parentKey_rename {g n : Guid} (hg : g ≠ noneUuid) (hn : n ≠ noneUuid) (p : Guid) :
    parentKey (DiskImagesData.rename g n p) =
      (parentKey p).map (replaceKey (fold g) (fold n)) := by
  by_cases hp : p = noneUuid
  · subst hp
    have hne : ¬ guidEq noneUuid g := by
      rw [guidEq_iff_fold, fold_noneUuid]
      exact fun h => hg (fold_eq_noneUuid.mp h.symm)
    rw [DiskImagesData.rename, if_neg hne]
    rfl
  · have hne : DiskImagesData.rename g n p ≠ noneUuid := by
      unfold DiskImagesData.rename
      split
      · exact hn
      · exact hp
    rw [parentKey_of_ne hne, parentKey_of_ne hp, fold_rename_eq]
    rfl

theorem entry_renameSnapshot {g n : Guid} (hg : g ≠ noneUuid) (hn : n ≠ noneUuid)
    (s : SnapshotData) : (DiskImagesData.renameSnapshot g n s).entry =
      Prod.map (replaceKey (fold g) (fold n)) (Option.map (replaceKey (fold g) (fold n))) s.entry :=
  Prod.ext (fold_rename_eq g n s.guid) (parentKey_rename hg hn s.parentGuid)

/-- The snapshots as the entries of a tree. -/
def DiskImagesData.entries (di : DiskImagesData) : List (Guid × Option Guid) :=
  di.snapshots.map SnapshotData.entry

/-- An image for each snapshot, in the same order, and nothing of another volume. -/
structure Paired (di : DiskImagesData) : Prop where
  vol : di.vol = none
  images : di.images.map (fun i => Dd.fold i.guid) = keys di.entries
  ownImages : ∀ i ∈ di.images, i.alien = false
  ownSnapshots : ∀ s ∈ di.snapshots, s.alien = false

/-- A tree without the top delta. -/
structure Bare (di : DiskImagesData) : Prop extends Paired di where
  tree : Tree di.entries
  named : noneUuid ∉ keys di.entries
  noTop : Dd.fold topdeltaUuid ∉ keys di.entries

/-- The snapshots are a tree under one base, the top delta is a leaf of it, and it stays. -/
structure IsTree (di : DiskImagesData) : Prop extends Paired di where
  tree : Tree di.entries
  named : noneUuid ∉ keys di.entries
  top : di.topGuid = some topdeltaUuid
  hasTop : Dd.fold topdeltaUuid ∈ keys di.entries
  topLeaf : ∀ e ∈ di.entries, e.2 ≠ some (Dd.fold topdeltaUuid)
  topStays : ∀ s ∈ di.snapshots, guidEq s.guid topdeltaUuid → s.temporary = false

/-! ## Looking up -/

section Lookup

variable {di : DiskImagesData} {g : Guid} {s : SnapshotData} {i : ℕ}

theorem snapshotByGuid_some (h : di.snapshotByGuid g = some s) :
    s ∈ di.snapshots ∧ fold s.guid = fold g := by
  have hguid : guidEq s.guid g = true := by
    unfold DiskImagesData.snapshotByGuid at h
    simpa using List.find?_some h
  exact ⟨List.mem_of_find?_eq_some h, guidEq_iff_fold.mp hguid⟩

theorem mem_entries (h : s ∈ di.snapshots) : s.entry ∈ di.entries := List.mem_map_of_mem h

theorem findSnapshotByGuid_some (h : di.findSnapshotByGuid g = some i) :
    ∃ s, di.snapshots[i]? = some s ∧ fold s.guid = fold g := by
  obtain ⟨hlt, hp, -⟩ := List.findIdx?_eq_some_iff_getElem.mp h
  exact ⟨di.snapshots[i], List.getElem?_eq_getElem hlt, guidEq_iff_fold.mp hp⟩

theorem findSnapshotByGuid_none : di.findSnapshotByGuid g = none ↔ fold g ∉ keys di.entries := by
  simp only [DiskImagesData.findSnapshotByGuid, List.findIdx?_eq_none_iff, keys,
    DiskImagesData.entries, List.map_map, List.mem_map, Function.comp_def,
    SnapshotData.entry, not_exists, not_and]
  refine forall₂_congr fun s _ => ?_
  rw [← guidEq_iff_fold]
  simp

/-- The image of a snapshot is where the snapshot is. -/
theorem imageIdx_eq (h : Paired di) :
    di.findImageIdxByGuid g = di.findSnapshotByGuid g := by
  have himages : di.findImageIdxByGuid g =
      (di.images.map fun i => fold i.guid).findIdx? fun k => decide (k = fold g) := by
    simp [DiskImagesData.findImageIdxByGuid, List.findIdx?_map, Function.comp_def, guidEq, fold,
      eq_comm]
  have hsnapshots : di.findSnapshotByGuid g =
      (keys di.entries).findIdx? fun k => decide (k = fold g) := by
    simp [DiskImagesData.findSnapshotByGuid, keys, DiskImagesData.entries, List.findIdx?_map,
      Function.comp_def, guidEq, fold, SnapshotData.entry]
    rfl
  rw [himages, hsnapshots, h.images]

theorem childCount (hg : g ≠ noneUuid) :
    di.getChildCountByUuid g = di.entries.countP fun e => decide (e.2 = some (fold g)) := by
  unfold DiskImagesData.getChildCountByUuid DiskImagesData.entries
  rw [List.countP_map]
  apply List.countP_congr
  intro s _
  have hkey := parentKey_eq_some (g := s.parentGuid) (k := fold g)
    fun h => hg (fold_eq_noneUuid.mp h)
  simp [guidEq_iff_fold, SnapshotData.entry, hkey]

theorem no_child (hg : g ≠ noneUuid) (h : di.getChildCountByUuid g = 0) :
    ∀ e ∈ di.entries, e.2 ≠ some (fold g) := by
  rw [childCount hg] at h
  intro e he hparent
  exact absurd (List.countP_eq_zero.mp h e he) (by simpa using hparent)

/-- A second child is the first one. -/
theorem only_child (hg : g ≠ noneUuid) (h : di.getChildCountByUuid g ≤ 1)
    {c : Guid} (hc : (c, some (fold g)) ∈ di.entries) :
    ∀ e ∈ di.entries, e.2 = some (fold g) → e.1 = c := by
  intro e he hparent
  rw [childCount hg] at h
  exact congrArg Prod.fst (Keyed.eq_of_countP_le_one h he hc (by simp [hparent]) (by simp))

theorem snapshotByGuid_isSome : (di.snapshotByGuid g).isSome ↔ fold g ∈ keys di.entries := by
  unfold DiskImagesData.snapshotByGuid DiskImagesData.entries keys
  simp only [List.find?_isSome, guidEq_iff_fold, List.map_map, List.mem_map, Function.comp_def,
    SnapshotData.entry]

/-- What `find_snapshot_by_guid` finds first is all there is. -/
theorem snapshotByGuid_eq (ht : Tree di.entries) (hs : s ∈ di.snapshots)
    (hg : fold s.guid = fold g) : di.snapshotByGuid g = some s := by
  have hin : fold g ∈ keys di.entries := hg ▸ List.mem_map_of_mem (mem_entries hs)
  obtain ⟨s', hs'⟩ := Option.isSome_iff_exists.mp (snapshotByGuid_isSome.mpr hin)
  obtain ⟨hmem, hkey⟩ := snapshotByGuid_some hs'
  have hnodup := ht.nodup
  unfold keys DiskImagesData.entries at hnodup
  rw [List.map_map] at hnodup
  rw [hs', List.inj_on_of_nodup_map hnodup hmem hs (hkey.trans hg.symm)]

end Lookup

/-! ## Edits -/

section Edits

variable {di : DiskImagesData} {g n p : Guid} {i : ℕ}

theorem entries_changeGuid (hg : g ≠ noneUuid) (hn : n ≠ noneUuid) :
    (di.changeGuid g n).entries = rename (replaceKey (fold g) (fold n)) di.entries := by
  unfold DiskImagesData.entries DiskImagesData.changeGuid rename
  rw [List.map_map, List.map_map]
  exact List.map_congr_left fun s _ => entry_renameSnapshot hg hn s

theorem entries_pushSnapshot (s : SnapshotData) :
    (di.pushSnapshot s).entries = di.entries ++ [s.entry] := List.map_append

theorem entries_dropAt (j : ℕ) : (di.dropAt i j).entries = di.entries.eraseIdx i :=
  (List.eraseIdx_map _ _ _).symm

theorem entries_drop (ht : Tree di.entries) (hi : di.findSnapshotByGuid g = some i) (j : ℕ) :
    (di.dropAt i j).entries = prune (fold g) di.entries := by
  obtain ⟨s, hs, hg⟩ := findSnapshotByGuid_some hi
  have hentry : di.entries[i]? = some (fold g, parentKey s.parentGuid) := by
    unfold DiskImagesData.entries
    rw [List.getElem?_map, hs, ← hg]
    rfl
  rw [entries_dropAt, eraseIdx_eq_prune ht.nodup hentry]

/-- The references to the parent are those of its only child. -/
theorem entries_mergeGuid (child : SnapshotData) :
    (di.mergeGuid g child).entries = di.entries.map fun e =>
      (replaceKey (fold child.parentGuid) (fold g) e.1, e.2) := by
  unfold DiskImagesData.entries DiskImagesData.mergeGuid
  rw [List.map_map, List.map_map]
  refine List.map_congr_left fun s _ => ?_
  by_cases hs : fold s.guid = fold child.parentGuid
  · simp [SnapshotData.entry, replaceKey, guidEq_iff_fold, hs]
  · simp [SnapshotData.entry, replaceKey, guidEq_iff_fold, hs]

theorem entries_setTemporary : (di.setTemporary g).entries = di.entries := by
  unfold DiskImagesData.setTemporary
  cases di.findSnapshotByGuid g with
  | none => rfl
  | some i =>
      unfold DiskImagesData.entries
      refine List.ext_getElem? fun j => ?_
      rw [List.getElem?_map, List.getElem?_map, List.getElem?_modify]
      cases di.snapshots[j]? with
      | none => rfl
      | some s => split <;> rfl

/-! ## Edits of an image for each snapshot -/

theorem Paired.changeGuid (h : Paired di) (hg : g ≠ noneUuid) (hn : n ≠ noneUuid) :
    Paired (di.changeGuid g n) where
  vol := h.vol
  images := by
    have hkeys := congrArg (List.map (replaceKey (fold g) (fold n))) h.images
    rw [entries_changeGuid hg hn, keys_rename, ← hkeys, List.map_map]
    unfold DiskImagesData.changeGuid
    rw [List.map_map]
    exact List.map_congr_left fun i _ => fold_rename_eq g n i.guid
  ownImages := List.forall_mem_map.mpr h.ownImages
  ownSnapshots := List.forall_mem_map.mpr h.ownSnapshots

theorem Paired.dropAt (h : Paired di) : Paired (di.dropAt i i) where
  vol := h.vol
  images := by
    have hkeys := congrArg (List.eraseIdx · i) h.images
    dsimp only [keys] at hkeys ⊢
    rw [List.eraseIdx_map, List.eraseIdx_map] at hkeys
    rw [entries_dropAt]
    exact hkeys
  ownImages i hi := h.ownImages i (List.mem_of_mem_eraseIdx hi)
  ownSnapshots s hs := h.ownSnapshots s (List.mem_of_mem_eraseIdx hs)

theorem Paired.mergeGuid (h : Paired di) {child : SnapshotData} (hchild : child.alien = false) :
    Paired (di.mergeGuid g child) where
  vol := h.vol
  images := by
    have hkeys := congrArg (List.map (replaceKey (fold child.parentGuid) (fold g))) h.images
    rw [entries_mergeGuid]
    unfold keys at hkeys ⊢
    rw [List.map_map, List.map_map] at hkeys
    rw [List.map_map]
    refine Eq.trans ?_ hkeys
    unfold DiskImagesData.mergeGuid
    rw [List.map_map]
    refine List.map_congr_left fun i _ => ?_
    by_cases hi : fold i.guid = fold child.parentGuid
    · simp [replaceKey, guidEq_iff_fold, hi]
    · simp [replaceKey, guidEq_iff_fold, hi]
  ownImages := by
    refine List.forall_mem_map.mpr fun i hi => ?_
    split
    · exact hchild
    · exact h.ownImages i hi
  ownSnapshots := by
    refine List.forall_mem_map.mpr fun s hs => ?_
    split
    · exact hchild
    · exact h.ownSnapshots s hs

/-- A new image at the end, with a snapshot for it. -/
theorem Paired.push (h : Paired di) (file : Path) (top : Option Guid) (temporary : Bool) :
    Paired { (di.pushImage ⟨g, file, false⟩).pushSnapshot ⟨g, p, temporary, false⟩
      with topGuid := top } where
  vol := h.vol
  images := by
    have hentries : ((di.pushImage ⟨g, file, false⟩).pushSnapshot
        ⟨g, p, temporary, false⟩).entries = (di.pushImage ⟨g, file, false⟩).entries ++
          [(⟨g, p, temporary, false⟩ : SnapshotData).entry] := entries_pushSnapshot _
    have hkeys : keys ((di.pushImage ⟨g, file, false⟩).pushSnapshot
        ⟨g, p, temporary, false⟩).entries = keys di.entries ++ [fold g] := by
      rw [hentries, keys_append]
      rfl
    exact (List.map_append.trans (congrArg (· ++ [fold g]) h.images)).trans hkeys.symm
  ownImages := by
    intro i hi
    rcases List.mem_append.mp hi with hold | hnew
    · exact h.ownImages i hold
    · rw [List.mem_singleton.mp hnew]
  ownSnapshots := by
    intro s hs
    rcases List.mem_append.mp hs with hold | hnew
    · exact h.ownSnapshots s hold
    · rw [List.mem_singleton.mp hnew]

end Edits

/-! ## Where an edit ends -/

section Trees

variable {di : DiskImagesData} {g n p : Guid} {i : ℕ} {s : SnapshotData} {file : Path}

theorem topdelta_ne_none : topdeltaUuid ≠ noneUuid := by
  decide

theorem fold_topdelta_ne_none : fold topdeltaUuid ≠ noneUuid :=
  fun h => topdelta_ne_none (fold_eq_noneUuid.mp h)

theorem replaceKey_injOn {a b : Guid} {l : List (Guid × Option Guid)} (hb : b ∉ keys l) :
    Set.InjOn (replaceKey a b) {k | k ∈ keys l} := by
  intro x hx y hy hxy
  unfold replaceKey at hxy
  split at hxy <;> split at hxy
  · simp_all
  · exact absurd (hxy ▸ hy) hb
  · exact absurd (hxy ▸ hx) hb
  · exact hxy

/-- The top delta is put under a snapshot that is there. -/
theorem Bare.push (h : Bare di) (hp : fold p ∈ keys di.entries) :
    IsTree { (di.pushImage ⟨topdeltaUuid, file, false⟩).pushSnapshot
      ⟨topdeltaUuid, p, false, false⟩ with topGuid := some topdeltaUuid } := by
  have hne : p ≠ noneUuid := by
    rintro rfl
    exact h.named (fold_noneUuid ▸ hp)
  have hentries : DiskImagesData.entries
      { (di.pushImage ⟨topdeltaUuid, file, false⟩).pushSnapshot ⟨topdeltaUuid, p, false, false⟩
        with topGuid := some topdeltaUuid } =
      di.entries ++ [(fold topdeltaUuid, some (fold p))] := by
    rw [← parentKey_of_ne hne]
    exact entries_pushSnapshot _
  refine { h.toPaired.push file _ false with
    tree := ?_, named := ?_, top := rfl, hasTop := ?_, topLeaf := ?_, topStays := ?_ }
  · rw [hentries]
    exact .leaf h.tree hp h.noTop
  · rw [hentries, keys_append, List.mem_append]
    rintro (hold | hnew)
    · exact h.named hold
    · exact fold_topdelta_ne_none (List.mem_singleton.mp hnew).symm
  · rw [hentries, keys_append]
    exact List.mem_append_right _ List.mem_cons_self
  · rw [hentries]
    intro e he heq
    rcases List.mem_append.mp he with hold | hnew
    · have hparent : (e.1, some (fold topdeltaUuid)) ∈ di.entries := heq ▸ hold
      exact h.noTop (h.tree.parent_mem hparent)
    · rw [List.mem_singleton.mp hnew] at heq
      exact h.noTop (Option.some.inj heq ▸ hp)
  · intro s hs hguid
    rcases List.mem_append.mp hs with hold | hnew
    · exact absurd (guidEq_iff_fold.mp hguid ▸ List.mem_map_of_mem (mem_entries hold)) h.noTop
    · rw [List.mem_singleton.mp hnew]

/-- A leaf that stays becomes the top delta. -/
theorem Bare.changeGuid (h : Bare di) (htop : di.topGuid = some topdeltaUuid)
    (hg : fold g ∈ keys di.entries) (hleaf : ∀ e ∈ di.entries, e.2 ≠ some (fold g))
    (hstays : ∀ s ∈ di.snapshots, fold s.guid = fold g → s.temporary = false) :
    IsTree (di.changeGuid g topdeltaUuid) := by
  have hne : g ≠ noneUuid := by
    rintro rfl
    exact h.named (fold_noneUuid ▸ hg)
  have hentries : (di.changeGuid g topdeltaUuid).entries =
      rename (replaceKey (fold g) (fold topdeltaUuid)) di.entries :=
    entries_changeGuid hne topdelta_ne_none
  have hkey : ∀ k ∈ keys di.entries,
      replaceKey (fold g) (fold topdeltaUuid) k = fold topdeltaUuid → k = fold g := by
    intro k hk heq
    unfold replaceKey at heq
    split at heq
    case isTrue hkg => exact hkg
    case isFalse => exact absurd (heq ▸ hk) h.noTop
  refine { h.toPaired.changeGuid hne topdelta_ne_none with
    tree := ?_, named := ?_, top := ?_, hasTop := ?_, topLeaf := ?_, topStays := ?_ }
  · rw [hentries]
    exact h.tree.rename (replaceKey_injOn h.noTop)
  · rw [hentries, keys_rename, List.mem_map]
    rintro ⟨k, hk, heq⟩
    unfold replaceKey at heq
    split at heq
    case isTrue => exact fold_topdelta_ne_none heq
    case isFalse => exact h.named (heq ▸ hk)
  · have hother : ¬ guidEq topdeltaUuid g := by
      rw [guidEq_iff_fold]
      exact fun heq => h.noTop (heq ▸ hg)
    unfold DiskImagesData.changeGuid
    rw [htop]
    exact congrArg some (if_neg hother)
  · rw [hentries, keys_rename, List.mem_map]
    exact ⟨fold g, hg, if_pos rfl⟩
  · rw [hentries]
    intro e he heq
    obtain ⟨⟨k, q⟩, hmem, rfl⟩ := List.mem_map.mp he
    obtain ⟨x, rfl, hx⟩ := Option.map_eq_some_iff.mp heq
    exact hleaf _ hmem (congrArg some (hkey x (h.tree.parent_mem hmem) hx))
  · intro s hs hguid
    obtain ⟨s₀, hs₀, rfl⟩ := List.mem_map.mp hs
    rw [guidEq_iff_fold] at hguid
    have hsame := hkey (fold s₀.guid) (List.mem_map_of_mem (mem_entries hs₀))
      ((fold_rename_eq g topdeltaUuid s₀.guid).symm.trans hguid)
    exact hstays s₀ hs₀ hsame

/-- The top delta stays under a new guid. -/
theorem IsTree.changeTop (h : IsTree di) (hn : n ≠ noneUuid) (hnew : fold n ∉ keys di.entries) :
    Bare (di.changeGuid topdeltaUuid n) := by
  have hentries : (di.changeGuid topdeltaUuid n).entries =
      rename (replaceKey (fold topdeltaUuid) (fold n)) di.entries :=
    entries_changeGuid topdelta_ne_none hn
  refine { h.toPaired.changeGuid topdelta_ne_none hn with tree := ?_, named := ?_, noTop := ?_ }
  · rw [hentries]
    exact h.tree.rename (replaceKey_injOn hnew)
  · rw [hentries, keys_rename, List.mem_map]
    rintro ⟨k, hk, heq⟩
    unfold replaceKey at heq
    split at heq
    case isTrue => exact hn (fold_eq_noneUuid.mp heq)
    case isFalse => exact h.named (heq ▸ hk)
  · rw [hentries, keys_rename, List.mem_map]
    rintro ⟨k, hk, heq⟩
    unfold replaceKey at heq
    split at heq
    case isTrue => exact hnew (heq ▸ h.hasTop)
    case isFalse hne => exact hne heq

theorem IsTree.dropTop (h : IsTree di) (hi : di.findSnapshotByGuid topdeltaUuid = some i)
    (hp : (fold topdeltaUuid, some p) ∈ di.entries) : Bare (di.dropAt i i) := by
  have hentries := entries_drop h.tree hi i
  refine { h.toPaired.dropAt with tree := ?_, named := ?_, noTop := ?_ }
  · rw [hentries]
    exact h.tree.prune hp h.topLeaf
  · rw [hentries, mem_keys_prune]
    exact fun hnone => h.named hnone.1
  · rw [hentries, mem_keys_prune]
    exact fun htop => htop.2 rfl

/-- A leaf goes away that is not the top delta. -/
theorem IsTree.dropLeaf (h : IsTree di) (hi : di.findSnapshotByGuid g = some i)
    (hp : (fold g, some p) ∈ di.entries) (hleaf : ∀ e ∈ di.entries, e.2 ≠ some (fold g))
    (hother : fold g ≠ fold topdeltaUuid) : IsTree (di.dropAt i i) := by
  have hentries := entries_drop h.tree hi i
  refine { h.toPaired.dropAt with
    tree := ?_, named := ?_, top := h.top, hasTop := ?_, topLeaf := ?_, topStays := ?_ }
  · rw [hentries]
    exact h.tree.prune hp hleaf
  · rw [hentries, mem_keys_prune]
    exact fun hnone => h.named hnone.1
  · rw [hentries, mem_keys_prune]
    exact ⟨h.hasTop, hother.symm⟩
  · rw [hentries]
    exact fun e he => h.topLeaf e (mem_prune.mp he).1
  · exact fun s hs => h.topStays s (List.mem_of_mem_eraseIdx hs)

/-- Every snapshot but the base names the entry of its parent. -/
theorem entry_mem (hs : s ∈ di.snapshots) (hp : s.parentGuid ≠ noneUuid) :
    (fold s.guid, some (fold s.parentGuid)) ∈ di.entries := by
  have hmem := mem_entries hs
  rwa [SnapshotData.entry, parentKey_of_ne hp] at hmem

theorem entries_merge (h : IsTree di) (hi : di.findSnapshotByGuid g = some i) :
    ((di.mergeGuid g s).dropAt i i).entries =
      merge (fold g) (fold s.parentGuid) di.entries := by
  rw [entries_dropAt, entries_mergeGuid, List.eraseIdx_map, ← entries_dropAt i,
    entries_drop h.tree hi]
  rfl

/-- A snapshot takes the place of its parent. -/
theorem IsTree.merge (h : IsTree di) (hi : di.findSnapshotByGuid g = some i)
    (hs : di.snapshotByGuid g = some s) (hp : s.parentGuid ≠ noneUuid)
    (honly : di.getChildCountByUuid s.parentGuid ≤ 1) :
    IsTree ((di.mergeGuid g s).dropAt i i) := by
  obtain ⟨hmem, hkey⟩ := snapshotByGuid_some hs
  have hentry := entry_mem hmem hp
  rw [hkey] at hentry
  have honly := only_child hp honly hentry
  have hentries := entries_merge (s := s) h hi
  have hne := (h.tree.parent_ne hentry).symm
  have hptop : fold s.parentGuid ≠ fold topdeltaUuid :=
    fun heq => h.topLeaf _ hentry (congrArg some heq)
  refine { (h.toPaired.mergeGuid (h.ownSnapshots s hmem)).dropAt with
    tree := ?_, named := ?_, top := h.top, hasTop := ?_, topLeaf := ?_, topStays := ?_ }
  · rw [hentries]
    exact h.tree.merge hentry honly
  · rw [hentries, mem_keys_merge hne]
    rintro (⟨hnone, -⟩ | ⟨-, -, hnone⟩)
    · exact h.named (hnone ▸ mem_keys.mpr ⟨_, hentry⟩)
    · exact h.named hnone
  · rw [hentries, mem_keys_merge hne]
    by_cases hg : fold topdeltaUuid = fold g
    · exact Or.inl ⟨hg, h.tree.parent_mem hentry⟩
    · exact Or.inr ⟨hg, hptop.symm, h.hasTop⟩
  · rw [hentries]
    rintro ⟨k, q⟩ he
    rcases (mem_merge hne).mp he with ⟨-, hmem'⟩ | ⟨-, -, hmem'⟩
    · exact h.topLeaf (fold s.parentGuid, q) hmem'
    · exact h.topLeaf (k, q) hmem'
  · intro x hx hguid
    obtain ⟨x₀, hx₀, rfl⟩ := List.mem_map.mp (List.mem_of_mem_eraseIdx hx)
    rw [guidEq_iff_fold] at hguid
    by_cases hx₀p : guidEq x₀.guid s.parentGuid = true
    · rw [if_pos hx₀p] at hguid ⊢
      exact h.topStays s hmem (guidEq_iff_fold.mpr (hkey.trans hguid))
    · rw [if_neg hx₀p] at hguid ⊢
      exact h.topStays x₀ hx₀ (guidEq_iff_fold.mpr hguid)

/-- A guid that is nowhere is not found. -/
theorem changeGuid_absent (himages : ∀ i ∈ di.images, fold i.guid ≠ fold g)
    (hsnapshots : ∀ s ∈ di.snapshots, fold s.guid ≠ fold g ∧ fold s.parentGuid ≠ fold g)
    (htop : ∀ t, di.topGuid = some t → fold t ≠ fold g) : di.changeGuid g n = di := by
  have hother : ∀ q, fold q ≠ fold g → DiskImagesData.rename g n q = q :=
    fun q hq => if_neg fun heq => hq (guidEq_iff_fold.mp heq)
  have himages' : di.images.map (DiskImagesData.renameImage g n) = di.images := by
    refine (List.map_congr_left fun i hi => ?_).trans (List.map_id _)
    unfold DiskImagesData.renameImage
    rw [hother _ (himages i hi)]
    rfl
  have hsnapshots' : di.snapshots.map (DiskImagesData.renameSnapshot g n) = di.snapshots := by
    refine (List.map_congr_left fun s hs => ?_).trans (List.map_id _)
    unfold DiskImagesData.renameSnapshot
    rw [hother _ (hsnapshots s hs).1, hother _ (hsnapshots s hs).2]
    rfl
  have htop' : di.topGuid.map (DiskImagesData.rename g n) = di.topGuid := by
    cases h : di.topGuid with
    | none => rfl
    | some t => exact congrArg some (hother t (htop t h))
  unfold DiskImagesData.changeGuid
  rw [himages', hsnapshots', htop']

theorem IsTree.changeGuid_absent (h : IsTree di) (hg : g ≠ noneUuid)
    (habsent : fold g ∉ keys di.entries) : di.changeGuid g n = di := by
  have hother : ∀ q, fold q ∈ keys di.entries → fold q ≠ fold g :=
    fun q hq heq => habsent (heq ▸ hq)
  refine Dd.changeGuid_absent (fun i hi => ?_) (fun s hs => ⟨?_, ?_⟩) fun t ht => ?_
  · exact hother _ (h.images ▸ List.mem_map_of_mem hi)
  · exact hother _ (List.mem_map_of_mem (mem_entries hs))
  · by_cases hp : s.parentGuid = noneUuid
    · rw [hp, fold_noneUuid]
      exact fun heq => hg (fold_eq_noneUuid.mp heq.symm)
    · exact hother _ (h.tree.parent_mem (entry_mem hs hp))
  · rw [h.top] at ht
    cases ht
    exact hother _ h.hasTop

/-- The parent of the top delta becomes the top delta. That the loop of `ploop_di_change_guid`
overwrites its own argument does no harm, as the parent stands first and has no other child. -/
theorem IsTree.changeParentGuid (h : IsTree di)
    (hi : di.findSnapshotByGuid topdeltaUuid = some i)
    (hs : di.snapshotByGuid topdeltaUuid = some s) (hp : s.parentGuid ≠ noneUuid)
    (honly : di.getChildCountByUuid s.parentGuid ≤ 1) :
    (di.changeParentGuid i s.parentGuid topdeltaUuid).dropAt i i =
      (di.dropAt i i).changeGuid s.parentGuid topdeltaUuid := by
  obtain ⟨hmem, hkey⟩ := snapshotByGuid_some hs
  have hentry := entry_mem hmem hp
  rw [hkey] at hentry
  have hparent : fold s.parentGuid ≠ fold topdeltaUuid :=
    fun heq => h.topLeaf _ hentry (congrArg some heq)
  obtain ⟨x, hx, hxkey⟩ := findSnapshotByGuid_some hi
  have hlt := (List.getElem?_eq_some_iff.mp hx).1
  have htop : di.topGuid.map (DiskImagesData.rename topdeltaUuid topdeltaUuid) =
      di.topGuid.map (DiskImagesData.rename s.parentGuid topdeltaUuid) := by
    rw [h.top]
    refine congrArg some ?_
    have hother : ¬ guidEq topdeltaUuid s.parentGuid := by
      rw [guidEq_iff_fold]
      exact hparent.symm
    exact (if_pos (guidEq_refl _)).trans (if_neg hother).symm
  have hbehind : ∀ y ∈ di.snapshots.drop (i + 1),
      DiskImagesData.renameSnapshot topdeltaUuid topdeltaUuid y =
        DiskImagesData.renameSnapshot s.parentGuid topdeltaUuid y := by
    intro y hy
    obtain ⟨j, hj⟩ := List.mem_iff_getElem?.mp hy
    rw [List.getElem?_drop] at hj
    have hkeys : ∀ (m : ℕ) (z : SnapshotData), di.snapshots[m]? = some z →
        (keys di.entries)[m]? = some (fold z.guid) := by
      intro m z hz
      unfold keys DiskImagesData.entries
      rw [List.getElem?_map, List.getElem?_map, hz]
      rfl
    have hapart : ∀ (m : ℕ) (k : Guid), m < i + 1 → (keys di.entries)[m]? = some k →
        fold y.guid ≠ k := by
      intro m k hm hk heq
      have hmlt := (List.getElem?_eq_some_iff.mp hk).1
      have hsame := (List.getElem?_inj hmlt h.tree.nodup).mp
        (hk.trans ((hkeys _ y hj).trans (congrArg some heq)).symm)
      omega
    have hytop := hapart i _ (Nat.lt_succ_self i) (hkeys i x hx)
    rw [hxkey] at hytop
    have hypar : fold y.guid ≠ fold s.parentGuid := by
      obtain ⟨s', hs', hs'key⟩ := findSnapshotByGuid_some hi
      have hsi : di.entries[i]? = some (fold topdeltaUuid, some (fold s.parentGuid)) := by
        have hsame := snapshotByGuid_eq h.tree (List.mem_of_getElem? hs') hs'key
        rw [hs] at hsame
        cases hsame
        unfold DiskImagesData.entries
        rw [List.getElem?_map, hs', Option.map_some, SnapshotData.entry, parentKey_of_ne hp, hkey]
      obtain ⟨m, hm, q, hq⟩ := h.tree.parent_before hsi
      refine hapart m _ (hm.trans (Nat.lt_succ_self i)) ?_
      unfold keys
      rw [List.getElem?_map, hq]
      rfl
    have hymem := List.mem_of_getElem? hj
    have hguid : ∀ g, fold y.guid ≠ fold g →
        DiskImagesData.rename g topdeltaUuid y.guid = y.guid :=
      fun g hne => if_neg fun heq => hne (guidEq_iff_fold.mp heq)
    have hyparent : ∀ g, g ≠ noneUuid → parentKey y.parentGuid ≠ some (fold g) →
        DiskImagesData.rename g topdeltaUuid y.parentGuid = y.parentGuid := by
      intro g hg hne
      refine if_neg fun heq => hne ?_
      rw [parentKey_eq_some fun hnone => hg (fold_eq_noneUuid.mp hnone)]
      exact guidEq_iff_fold.mp heq
    have hleaf := h.topLeaf _ (mem_entries hymem)
    have honly' : parentKey y.parentGuid ≠ some (fold s.parentGuid) :=
      fun heq => hytop (only_child hp honly hentry _ (mem_entries hymem) heq)
    unfold DiskImagesData.renameSnapshot
    rw [hguid _ hytop, hguid _ hypar, hyparent _ topdelta_ne_none hleaf,
      hyparent _ hp honly']
  unfold DiskImagesData.changeParentGuid DiskImagesData.changeGuid DiskImagesData.dropAt
  dsimp only
  rw [htop, List.map_congr_left hbehind, ← List.map_append, List.take_append_drop,
    List.eraseIdx_map, List.eraseIdx_map]

theorem mem_setTemporary (hs : s ∈ (di.setTemporary g).snapshots) : s ∈ di.snapshots ∨
    ∃ s₀ ∈ di.snapshots, fold s₀.guid = fold g ∧ s = { s₀ with temporary := true } := by
  unfold DiskImagesData.setTemporary at hs
  rcases hfind : di.findSnapshotByGuid g with _ | i
  · rw [hfind] at hs
    exact Or.inl hs
  · rw [hfind] at hs
    obtain ⟨s₁, hs₁, hkey⟩ := findSnapshotByGuid_some hfind
    obtain ⟨j, hj⟩ := List.mem_iff_getElem?.mp hs
    rw [List.getElem?_modify] at hj
    obtain ⟨x, hx, hxs⟩ := Option.map_eq_some_iff.mp hj
    split at hxs
    case isTrue hij =>
      subst hij
      rw [hs₁] at hx
      cases hx
      exact Or.inr ⟨s₁, List.mem_of_getElem? hs₁, hkey, hxs.symm⟩
    case isFalse => exact Or.inl (hxs ▸ List.mem_of_getElem? hx)

theorem Paired.setTemporary (h : Paired di) : Paired (di.setTemporary g) := by
  have himages : (di.setTemporary g).images = di.images ∧ (di.setTemporary g).vol = di.vol := by
    unfold DiskImagesData.setTemporary
    cases di.findSnapshotByGuid g <;> exact ⟨rfl, rfl⟩
  constructor
  · rw [himages.2, h.vol]
  · rw [himages.1, entries_setTemporary, h.images]
  · rw [himages.1]
    exact h.ownImages
  · intro s hs
    rcases mem_setTemporary hs with hold | ⟨s₀, hs₀, -, rfl⟩
    · exact h.ownSnapshots s hold
    · exact h.ownSnapshots s₀ hs₀

theorem IsTree.setTemporary (h : IsTree di) (hg : fold g ≠ fold topdeltaUuid) :
    IsTree (di.setTemporary g) := by
  have htop : (di.setTemporary g).topGuid = di.topGuid := by
    unfold DiskImagesData.setTemporary
    cases di.findSnapshotByGuid g <;> rfl
  refine { h.toPaired.setTemporary with
    tree := ?_, named := ?_, top := htop.trans h.top, hasTop := ?_, topLeaf := ?_,
    topStays := ?_ }
  · rw [entries_setTemporary]
    exact h.tree
  · rw [entries_setTemporary]
    exact h.named
  · rw [entries_setTemporary]
    exact h.hasTop
  · rw [entries_setTemporary]
    exact h.topLeaf
  · intro s hs hguid
    rcases mem_setTemporary hs with hold | ⟨s₀, -, hkey, rfl⟩
    · exact h.topStays s hold hguid
    · exact absurd (hkey.symm.trans (guidEq_iff_fold.mp hguid)) hg

theorem Bare.setTemporary (h : Bare di) : Bare (di.setTemporary g) where
  toPaired := h.toPaired.setTemporary
  tree := by
    rw [entries_setTemporary]
    exact h.tree
  named := by
    rw [entries_setTemporary]
    exact h.named
  noTop := by
    rw [entries_setTemporary]
    exact h.noTop

/-- Another file for an image. -/
theorem IsTree.setFile (h : IsTree di) (j : ℕ) :
    IsTree { di with images := di.images.modify j fun i => { i with file := file } } := by
  have hget : ∀ k : ℕ, (di.images.modify j fun i => { i with file := file })[k]? =
      (di.images[k]?).map fun i => if j = k then { i with file := file } else i :=
    fun k => by rw [List.getElem?_modify]; rfl
  refine { h with images := ?_, ownImages := ?_ }
  · refine Eq.trans (List.ext_getElem? fun k => ?_) h.images
    rw [List.getElem?_map, List.getElem?_map, hget, Option.map_map]
    congr 1
    funext i
    dsimp only [Function.comp_apply]
    split <;> rfl
  · intro i hi
    obtain ⟨k, hk⟩ := List.mem_iff_getElem?.mp hi
    rw [hget] at hk
    obtain ⟨i₀, hi₀, rfl⟩ := Option.map_eq_some_iff.mp hk
    have hown := h.ownImages i₀ (List.mem_of_getElem? hi₀)
    split <;> exact hown

theorem toXml_eq (himages : ∀ i ∈ di.images, i.alien = false)
    (hsnapshots : ∀ s ∈ di.snapshots, s.alien = false) : di.toXml = di := by
  have himages' : di.images.filter (fun i => !i.alien) = di.images :=
    List.filter_eq_self.mpr fun i hi => by rw [himages i hi]; rfl
  have hsnapshots' : di.snapshots.filter (fun s => !s.alien) = di.snapshots :=
    List.filter_eq_self.mpr fun s hs => by rw [hsnapshots s hs]; rfl
  unfold DiskImagesData.toXml
  rw [himages', hsnapshots']

theorem Paired.toXml (h : Paired di) : di.toXml = di := toXml_eq h.ownImages h.ownSnapshots

/-- A tree is read as it is. -/
theorem IsTree.readDd {o : Outside} {d : DiskImagesData} (h : IsTree di)
    (hread : readDd o di = some d) : d = di := by
  have hlen : di.images.length = di.snapshots.length := by
    have hlen := congrArg List.length h.images
    simpa [keys, DiskImagesData.entries] using hlen
  unfold Dd.readDd at hread
  obtain ⟨x, hparse, hrest⟩ := Option.bind_eq_some_iff.mp hread
  have hx : x = di := by
    unfold parse at hparse
    split at hparse
    · exact (Option.some.inj hparse).symm
    · cases hparse
  subst hx
  obtain ⟨y, hvalid, hlast⟩ := Option.bind_eq_some_iff.mp hrest
  have hy : y = x := by
    unfold validate at hvalid
    rw [h.vol] at hvalid
    simp only [Option.isSome_none, Bool.false_eq_true, if_false, hlen, if_true, h.top,
      reduceCtorEq, false_and] at hvalid
    split at hvalid
    · cases hvalid
    · obtain ⟨_, -, hvalid⟩ := Option.bind_eq_some_iff.mp hvalid
      obtain ⟨_, -, hvalid⟩ := Option.bind_eq_some_iff.mp hvalid
      split at hvalid
      · exact (Option.some.inj hvalid).symm
      · cases hvalid
  subst hy
  rw [h.vol] at hlast
  exact (Option.some.inj hlast).symm

end Trees

/-! ## The way down to the base -/

section Chains

variable {di : DiskImagesData} {g k : Guid} {ks : List Guid}

theorem findImageByGuid_congr {g' : Guid} (h : fold g = fold g') :
    di.findImageByGuid g = di.findImageByGuid g' := by
  unfold DiskImagesData.findImageByGuid
  congr 2
  funext i
  exact guidEq_congr (guidEq_iff_fold.mpr h) (guidEq_refl _)

theorem Paired.exists_image (h : Paired di) (hg : fold g ∈ keys di.entries) :
    ∃ file, di.findImageByGuid g = some file := by
  rw [← h.images, List.mem_map] at hg
  obtain ⟨i, hi, hkey⟩ := hg
  have hfind : (di.images.find? fun i => guidEq g i.guid).isSome := by
    rw [List.find?_isSome]
    exact ⟨i, hi, guidEq_iff_fold.mpr hkey.symm⟩
  obtain ⟨i', hi'⟩ := Option.isSome_iff_exists.mp hfind
  exact ⟨i'.file, congrArg (Option.map ImageData.file) hi'⟩

/-- The chain has the images of the line up to the base. -/
theorem IsTree.chain (h : IsTree di) (hline : Line di.entries k ks) (hg : fold g = k) :
    ∃ files, Chain di g files ∧ files.map some = ks.map di.findImageByGuid := by
  have himage : ∀ g, fold g ∈ keys di.entries →
      ∃ file, di.findImageByGuid g = some file ∧ di.findImageByGuid (fold g) = some file := by
    intro g hin
    obtain ⟨file, hfile⟩ := h.toPaired.exists_image hin
    exact ⟨file, hfile, (findImageByGuid_congr (fold_fold g)).trans hfile⟩
  induction hline generalizing g with
  | root hk =>
      subst hg
      obtain ⟨file, hfile, hfile'⟩ := himage g (mem_keys.mpr ⟨_, hk⟩)
      obtain ⟨s, hs, heq⟩ := List.mem_map.mp hk
      obtain ⟨hkey, hparent⟩ := Prod.mk.injEq _ _ _ _ ▸ heq
      have hbase : s.parentGuid = noneUuid := by
        by_contra hne
        rw [parentKey_of_ne hne] at hparent
        cases hparent
      refine ⟨[file], .base (snapshotByGuid_eq h.tree hs hkey) hfile hbase, ?_⟩
      rw [List.map_singleton, List.map_singleton, hfile']
  | @up k p ks hk _ ih =>
      subst hg
      obtain ⟨file, hfile, hfile'⟩ := himage g (mem_keys.mpr ⟨_, hk⟩)
      obtain ⟨s, hs, heq⟩ := List.mem_map.mp hk
      obtain ⟨hkey, hparent⟩ := Prod.mk.injEq _ _ _ _ ▸ heq
      have hne : s.parentGuid ≠ noneUuid := by
        intro hbase
        rw [hbase] at hparent
        cases hparent
      rw [parentKey_of_ne hne] at hparent
      obtain ⟨files, hfiles, hmap⟩ := ih (Option.some.inj hparent)
      refine ⟨file :: files, .step (snapshotByGuid_eq h.tree hs hkey) hfile hne hfiles, ?_⟩
      rw [List.map_cons, List.map_cons, hfile', hmap]

end Chains

end Ploop.Dd
