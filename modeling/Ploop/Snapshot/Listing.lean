import Ploop.Lib.Keyed
import Ploop.Snapshot.Settled

/-!
# The images of the top delta

What the edits of `di.c` make of the chain from the top delta down, in a descriptor that tells its
images apart.
-/

namespace Ploop.Dd

open Keyed Program Storage

/-- The images of the top delta, from the base up. -/
def DiskImagesData.stack (di : DiskImagesData) : Option (List Path) := do
  let top ← di.topGuid
  List.reverse <$> di.makeImagesList top

/-- The snapshots of one volume, with different guids and different files, and a top delta that
is not temporary. -/
structure Distinct (di : DiskImagesData) : Prop where
  ownImages : ∀ i ∈ di.images, i.alien = false
  ownSnapshots : ∀ s ∈ di.snapshots, s.alien = false
  parent : ∀ v, di.vol = some v → v.parent = none
  top : di.vol = none → di.isTop topdeltaUuid = true
  topStays : ∀ s ∈ di.snapshots, di.isTop s.guid = true → s.temporary = false
  images : (di.images.map fun i => fold i.guid).Nodup
  snapshots : (di.snapshots.map fun s => fold s.guid).Nodup
  files : di.files.Nodup

/-- It is read as it is stored. -/
structure Plain (di : DiskImagesData) : Prop extends Distinct di where
  guids : ∀ i ∈ di.images, isValidGuid i.guid = true
  snapshotGuids : ∀ s ∈ di.snapshots, isValidGuid s.guid = true ∧ isValidGuid s.parentGuid = true
  size : di.vol = none → isValidBlocksize di.blocksize
  length : di.vol = none → di.images.length = di.snapshots.length

section Lookup

variable {d : DiskImagesData} {g k : Guid} {i j : ℕ} {s : SnapshotData} {file : Path}

theorem snapshotByGuid_find :
    d.snapshotByGuid k = find (fun s => fold s.guid) d.snapshots (fold k) :=
  rfl

theorem findImageByGuid_find : d.findImageByGuid k =
    (find (fun i : ImageData => fold i.guid) d.images (fold k)).map ImageData.file := by
  unfold DiskImagesData.findImageByGuid find
  congr 2
  funext i
  rw [guidEq_comm]
  rfl

theorem findSnapshotByGuid_key (hi : d.findSnapshotByGuid g = some i) :
    (d.snapshots.map fun s => fold s.guid)[i]? = some (fold g) :=
  place_key hi

theorem findImageIdxByGuid_key (hj : d.findImageIdxByGuid g = some j) :
    (d.images.map fun i => fold i.guid)[j]? = some (fold g) := by
  refine @place_key _ _ _ (fun i : ImageData => fold i.guid) _ _ _ ?_
  rw [← hj]
  unfold DiskImagesData.findImageIdxByGuid place
  congr 1
  funext i
  rw [guidEq_comm]
  rfl

/-- Different images have different files. -/
theorem fold_eq_of_file (h : d.files.Nodup)
    (hk : d.findImageByGuid k = some file) (hg : d.findImageByGuid g = some file) :
    fold k = fold g := by
  rw [findImageByGuid_find] at hk hg
  obtain ⟨x, hx, hxf⟩ := Option.map_eq_some_iff.mp hk
  obtain ⟨y, hy, hyf⟩ := Option.map_eq_some_iff.mp hg
  obtain ⟨hxmem, hxk⟩ := find_some hx
  obtain ⟨hymem, hyk⟩ := find_some hy
  have hsame := List.inj_on_of_nodup_map h hxmem hymem (hxf.trans hyf.symm)
  exact hxk.symm.trans ((congrArg (fun i : ImageData => fold i.guid) hsame).trans hyk)

theorem Chain.congr {files : List Path} (h : Chain d k files) (hk : fold k = fold g) :
    Chain d g files := by
  have hs : d.snapshotByGuid k = d.snapshotByGuid g := by
    rw [snapshotByGuid_find, snapshotByGuid_find, hk]
  have hf : d.findImageByGuid k = d.findImageByGuid g := by
    rw [findImageByGuid_find, findImageByGuid_find, hk]
  cases h with
  | base hsnap hfile hnone => exact .base (hs ▸ hsnap) (hf ▸ hfile) hnone
  | step hsnap hfile hne hrest => exact .step (hs ▸ hsnap) (hf ▸ hfile) hne hrest

/-- Every file of the chain is the first one of a chain. -/
theorem Chain.exists_of_mem {files : List Path} (h : Chain d k files) (hf : file ∈ files) :
    ∃ g rest, Chain d g (file :: rest) ∧ (file :: rest).length ≤ files.length := by
  induction h with
  | base hs hfile hnone =>
      rw [List.mem_singleton.mp hf] at *
      exact ⟨_, [], .base hs hfile hnone, le_rfl⟩
  | step hs hfile hne hrest ih =>
      rcases List.mem_cons.mp hf with rfl | hmem
      · exact ⟨_, _, .step hs hfile hne hrest, le_rfl⟩
      · obtain ⟨g, rest, hchain, hlen⟩ := ih hmem
        exact ⟨g, rest, hchain, hlen.trans (Nat.le_succ _)⟩

theorem Chain.head_file {rest : List Path} (h : Chain d k (file :: rest)) :
    d.findImageByGuid k = some file := by
  cases h with
  | base _ hfile _ => exact hfile
  | step _ hfile _ _ => exact hfile

theorem Chain.nodup {files : List Path} (hd : d.files.Nodup)
    (h : Chain d k files) : files.Nodup := by
  induction h with
  | base => exact List.nodup_singleton _
  | @step k s file files hs hfile hne hrest ih =>
      refine List.nodup_cons.mpr ⟨fun hmem => ?_, ih⟩
      -- the same image further down would have the same, longer way to the base
      obtain ⟨g, rest, hchain, hlen⟩ := hrest.exists_of_mem hmem
      have hkey := fold_eq_of_file hd hfile hchain.head_file
      have hsame := (Chain.step hs hfile hne hrest).length_unique hchain
        (by rw [snapshotByGuid_find, snapshotByGuid_find, hkey])
      rw [List.length_cons] at hsame
      omega

theorem Chain.mem_images {files : List Path} (h : Chain d k files) (hf : file ∈ files) :
    file ∈ d.files := by
  obtain ⟨g, rest, hchain, -⟩ := h.exists_of_mem hf
  obtain ⟨im, him, rfl⟩ := Option.map_eq_some_iff.mp hchain.head_file
  exact List.mem_map_of_mem (List.mem_of_find?_eq_some him)

end Lookup

/-! ## A snapshot without children goes away -/

section Drop

variable {d : DiskImagesData} {g k : Guid} {i j : ℕ} {s : SnapshotData} {file : Path}
  {files st : List Path}

theorem no_parent (h : d.getChildCountByUuid g = 0) (hs : s ∈ d.snapshots) :
    fold s.parentGuid ≠ fold g :=
  fun heq => List.countP_eq_zero.mp h s hs (guidEq_iff_fold.mpr heq)

theorem Chain.dropAt (hi : d.findSnapshotByGuid g = some i) (hj : d.findImageIdxByGuid g = some j)
    (hcount : d.getChildCountByUuid g = 0) (h : Chain d k files) (hk : fold k ≠ fold g) :
    Chain (d.dropAt i j) k files := by
  have hsnap : ∀ k', fold k' ≠ fold g → (d.dropAt i j).snapshotByGuid k' = d.snapshotByGuid k' :=
    fun _ hne => find_eraseIdx (findSnapshotByGuid_key hi) hne
  have himage : ∀ k', fold k' ≠ fold g →
      (d.dropAt i j).findImageByGuid k' = d.findImageByGuid k' := by
    intro k' hne
    rw [findImageByGuid_find, findImageByGuid_find]
    exact congrArg _ (find_eraseIdx (findImageIdxByGuid_key hj) hne)
  induction h with
  | @base k s file hs hfile hnone =>
      exact .base ((hsnap k hk).trans hs) ((himage k hk).trans hfile) hnone
  | @step k s file files hs hfile hne hrest ih =>
      refine .step ((hsnap k hk).trans hs) ((himage k hk).trans hfile) hne (ih ?_)
      exact no_parent hcount (find_some hs).1

end Drop

/-! ## An only child takes the place of its parent -/

section Merge

variable {d : DiskImagesData} {g k : Guid} {i j : ℕ} {snap : SnapshotData} {file : Path}
  {files st : List Path}

/-- What `ploop_di_merge_image` has found. -/
structure OnlyChild (d : DiskImagesData) (g : Guid) (i j : ℕ) (snap : SnapshotData)
    (file : Path) : Prop where
  place : d.findSnapshotByGuid g = some i
  snapshot : d.snapshotByGuid g = some snap
  imagePlace : d.findImageIdxByGuid g = some j
  image : d.findImageByGuid g = some file
  count : d.getChildCountByUuid snap.parentGuid ≤ 1
  parent : snap.parentGuid ≠ noneUuid

/-- The parent with the guid of its child. -/
def takeSnapshot (g : Guid) (snap s : SnapshotData) : SnapshotData :=
  if guidEq s.guid snap.parentGuid then
    { s with guid := g, temporary := snap.temporary, alien := snap.alien }
  else s

theorem takeSnapshot_parentGuid (g : Guid) (snap s : SnapshotData) :
    (takeSnapshot g snap s).parentGuid = s.parentGuid := by
  unfold takeSnapshot
  split <;> rfl

def takeImage (g : Guid) (snap : SnapshotData) (i : ImageData) : ImageData :=
  if guidEq i.guid snap.parentGuid then { i with guid := g, alien := snap.alien } else i

theorem takeSnapshot_renames (g : Guid) (snap : SnapshotData) :
    Renames (fun s : SnapshotData => fold s.guid) (takeSnapshot g snap) (fold snap.parentGuid)
      (fold g) where
  taken s hs := by
    unfold takeSnapshot
    rw [if_pos (guidEq_iff_fold.mpr hs)]
  other s hs := if_neg fun heq => hs (guidEq_iff_fold.mp heq)

theorem takeImage_renames (g : Guid) (snap : SnapshotData) :
    Renames (fun i : ImageData => fold i.guid) (takeImage g snap) (fold snap.parentGuid)
      (fold g) where
  taken i hi := by
    unfold takeImage
    rw [if_pos (guidEq_iff_fold.mpr hi)]
  other i hi := if_neg fun heq => hi (guidEq_iff_fold.mp heq)

/-- The references to the parent are those of its child, which is gone. -/
def DiskImagesData.merged (d : DiskImagesData) (g : Guid) (snap : SnapshotData) (i j : ℕ) :
    DiskImagesData := (d.mergeGuid g snap).dropAt i j

theorem merged_snapshots :
    (d.merged g snap i j).snapshots = edit (takeSnapshot g snap) i d.snapshots := rfl

theorem merged_images : (d.merged g snap i j).images = edit (takeImage g snap) j d.images := rfl

namespace OnlyChild

theorem eq_of_parent (h : OnlyChild d g i j snap file) {s : SnapshotData} (hs : s ∈ d.snapshots)
    (hp : fold s.parentGuid = fold snap.parentGuid) : s = snap := by
  have hcount : (d.snapshots.countP fun s => guidEq s.parentGuid snap.parentGuid) ≤ 1 := h.count
  exact eq_of_countP_le_one hcount hs (find_some h.snapshot).1 (guidEq_iff_fold.mpr hp)
    (guidEq_refl _)

theorem snapshotByGuid_other (h : OnlyChild d g i j snap file) (hg : fold k ≠ fold g)
    (hp : fold k ≠ fold snap.parentGuid) :
    (d.merged g snap i j).snapshotByGuid k = d.snapshotByGuid k :=
  (takeSnapshot_renames g snap).find_other (findSnapshotByGuid_key h.place) hg hp

theorem findImageByGuid_other (h : OnlyChild d g i j snap file) (hg : fold k ≠ fold g)
    (hp : fold k ≠ fold snap.parentGuid) :
    (d.merged g snap i j).findImageByGuid k = d.findImageByGuid k := by
  rw [findImageByGuid_find, findImageByGuid_find]
  exact congrArg _
    ((takeImage_renames g snap).find_other (findImageIdxByGuid_key h.imagePlace) hg hp)

theorem snapshotByGuid_taken (h : OnlyChild d g i j snap file) (hd : Distinct d)
    (hp : fold k = fold snap.parentGuid) (hg : fold k ≠ fold g) :
    (d.merged g snap i j).snapshotByGuid g = (d.snapshotByGuid k).map (takeSnapshot g snap) := by
  rw [snapshotByGuid_find, snapshotByGuid_find, hp]
  exact (takeSnapshot_renames g snap).find_taken hd.snapshots (findSnapshotByGuid_key h.place)
    (hp ▸ hg.symm)

theorem findImageByGuid_taken (h : OnlyChild d g i j snap file) (hd : Distinct d)
    (hp : fold k = fold snap.parentGuid) (hg : fold k ≠ fold g) :
    (d.merged g snap i j).findImageByGuid g = d.findImageByGuid k := by
  rw [findImageByGuid_find, findImageByGuid_find, hp]
  have hfind : find (fun i : ImageData => fold i.guid) (d.merged g snap i j).images (fold g) =
      (find (fun i : ImageData => fold i.guid) d.images (fold snap.parentGuid)).map
        (takeImage g snap) :=
    (takeImage_renames g snap).find_taken hd.images (findImageIdxByGuid_key h.imagePlace)
      (hp ▸ hg.symm)
  rw [hfind, Option.map_map]
  congr 1
  funext im
  dsimp only [Function.comp_apply]
  unfold takeImage
  split <;> rfl

/-- The chain loses the file of the child, from whatever snapshot it begins. -/
theorem chain (h : OnlyChild d g i j snap file) (hd : Distinct d) (hchain : Chain d k files) :
    (fold k ≠ fold snap.parentGuid →
      Chain (d.merged g snap i j) k (files.filter (· ≠ file))) ∧
    (fold k = fold snap.parentGuid →
      Chain (d.merged g snap i j) g (files.filter (· ≠ file))) := by
  have hother : ∀ {k' f}, fold k' ≠ fold g → d.findImageByGuid k' = some f → f ≠ file := by
    rintro k' f hne hf rfl
    exact hne (fold_eq_of_file hd.files hf h.image)
  induction hchain with
  | @base k s f hs hf hnone =>
      have hg : fold k ≠ fold g := by
        intro heq
        rw [snapshotByGuid_find, heq] at hs
        cases hs.symm.trans h.snapshot
        exact h.parent hnone
      have hkeep : [f].filter (· ≠ file) = [f] := by simp [hother hg hf]
      rw [hkeep]
      refine ⟨fun hp => ?_, fun hp => ?_⟩
      · exact .base ((h.snapshotByGuid_other hg hp).trans hs)
          ((h.findImageByGuid_other hg hp).trans hf) hnone
      · have hsnap := h.snapshotByGuid_taken hd hp hg
        rw [hs, Option.map_some] at hsnap
        refine .base hsnap ((h.findImageByGuid_taken hd hp hg).trans hf) ?_
        rw [takeSnapshot_parentGuid]
        exact hnone
  | @step k s f files hs hf hne hrest ih =>
      by_cases hg : fold k = fold g
      · -- the child itself: what follows is the chain of its parent
        rw [snapshotByGuid_find, hg] at hs
        cases hs.symm.trans h.snapshot
        rw [findImageByGuid_find, hg] at hf
        have hfile := h.image
        rw [findImageByGuid_find, hf] at hfile
        cases hfile
        have hdrop : (file :: files).filter (· ≠ file) = files.filter (· ≠ file) := by simp
        rw [hdrop]
        exact ⟨fun _ => (ih.2 rfl).congr hg.symm, fun _ => ih.2 rfl⟩
      · have hkeep : (f :: files).filter (· ≠ file) = f :: files.filter (· ≠ file) := by
          simp [hother hg hf]
        have hmem := (find_some hs).1
        have hnext : fold s.parentGuid ≠ fold snap.parentGuid := by
          intro heq
          have hkey := (find_some hs).2
          rw [h.eq_of_parent hmem heq, (find_some h.snapshot).2] at hkey
          exact hg hkey.symm
        rw [hkeep]
        refine ⟨fun hp => ?_, fun hp => ?_⟩
        · exact .step ((h.snapshotByGuid_other hg hp).trans hs)
            ((h.findImageByGuid_other hg hp).trans hf) hne (ih.1 hnext)
        · have hsnap := h.snapshotByGuid_taken hd hp hg
          rw [hs, Option.map_some] at hsnap
          refine .step hsnap ((h.findImageByGuid_taken hd hp hg).trans hf) ?_ ?_
          · rw [takeSnapshot_parentGuid]
            exact hne
          · rw [takeSnapshot_parentGuid]
            exact ih.1 hnext

end OnlyChild

end Merge

/-! ## What is read afterwards -/

section After

variable {o : Outside} {d : DiskImagesData} {g k top : Guid} {i j : ℕ} {snap : SnapshotData}
  {file : Path} {st : List Path}

theorem stack_eq_some : d.stack = some st ↔
    ∃ top, d.topGuid = some top ∧ Chain d top st.reverse := by
  unfold DiskImagesData.stack
  cases d.topGuid with
  | none => simp
  | some top =>
      have hrev : List.reverse <$> d.makeImagesList top = some st ↔
          d.makeImagesList top = some st.reverse := by
        cases d.makeImagesList top with
        | none => simp
        | some files => simp [List.reverse_eq_iff]
      simpa [makeImagesList_iff] using hrev

theorem not_isTop (h : d.topGuid = some top) (hg : d.isTop g = false) : fold top ≠ fold g := by
  unfold DiskImagesData.isTop at hg
  rw [h] at hg
  intro heq
  rw [Option.any_some, guidEq_iff_fold.mpr heq] at hg
  exact Bool.noConfusion hg

theorem stack_nodup (hd : Distinct d) (h : d.stack = some st) : st.Nodup := by
  obtain ⟨top, -, hchain⟩ := stack_eq_some.mp h
  exact List.nodup_reverse.mp (hchain.nodup hd.files)

theorem stack_dropAt (hi : d.findSnapshotByGuid g = some i)
    (hj : d.findImageIdxByGuid g = some j) (hcount : d.getChildCountByUuid g = 0)
    (hg : d.isTop g = false) (h : d.stack = some st) : (d.dropAt i j).stack = some st := by
  obtain ⟨top, htop, hchain⟩ := stack_eq_some.mp h
  exact stack_eq_some.mpr ⟨top, htop, hchain.dropAt hi hj hcount (not_isTop htop hg)⟩

theorem stack_merged (hd : Distinct d) (hchild : OnlyChild d g i j snap file)
    (hp : d.isTop snap.parentGuid = false) (h : d.stack = some st) :
    (d.merged g snap i j).stack = some (st.filter (· ≠ file)) := by
  obtain ⟨top, htop, hchain⟩ := stack_eq_some.mp h
  refine stack_eq_some.mpr ⟨top, htop, ?_⟩
  rw [← List.filter_reverse]
  exact (hchild.chain hd hchain).1 (not_isTop htop hp)

/-- The file of a snapshot that is gone is not listed. -/
theorem not_mem_stack (hj : d.files.Nodup) (hat : d.files[j]? = some file)
    {d' : DiskImagesData} (hd' : d'.files = d.files.eraseIdx j) (h : d'.stack = some st) :
    file ∉ st := by
  obtain ⟨top, -, hchain⟩ := stack_eq_some.mp h
  intro hmem
  have hlisted := hchain.mem_images (List.mem_reverse.mpr hmem)
  rw [hd'] at hlisted
  exact Present.not_mem_eraseIdx hj hat hlisted

theorem Plain.readDd (hd : Plain d) (h : d.stack = some st) : readDd o d = some d := by
  obtain ⟨top, htop, hchain⟩ := stack_eq_some.mp h
  obtain ⟨⟨s, hs⟩, -⟩ := hchain.cases_head
  have hparse : parse d = some d := by
    refine if_pos ?_
    rw [Bool.and_eq_true, List.all_eq_true, List.all_eq_true]
    refine ⟨hd.guids, fun s hs => ?_⟩
    rw [Bool.and_eq_true]
    exact hd.snapshotGuids s hs
  have hvalidate : validate d = some d := by
    unfold validate
    cases hvol : d.vol with
    | some v => simp
    | none =>
        have hlen := hd.length hvol
        have hmem := (find_some hs).1
        have hpos : d.snapshots.length ≠ 0 := (List.length_pos_of_mem hmem).ne'
        have htopdelta : guidEq top topdeltaUuid = true := by
          have hisTop := hd.top hvol
          unfold DiskImagesData.isTop at hisTop
          rwa [htop] at hisTop
        have hvalid : isValidGuid top = true := by
          rw [isValidGuid_congr htopdelta]
          decide
        have hstays : s.temporary = false := by
          refine hd.topStays s hmem ?_
          unfold DiskImagesData.isTop
          rw [htop]
          exact guidEq_iff_fold.mpr (find_some hs).2.symm
        simp [hlen, hpos, hd.size hvol, htop, hs, hvalid, hstays]
  unfold Dd.readDd
  rw [hparse]
  dsimp only [Option.bind_eq_bind, Option.bind_some]
  rw [hvalidate]
  dsimp only [Option.bind_some]
  refine if_neg ?_
  cases hvol : d.vol with
  | none => simp
  | some v => simp [hd.parent v hvol]

theorem Plain.dropAt (hd : Plain d) (hi : i < d.snapshots.length) (hj : j < d.images.length) :
    Plain (d.dropAt i j) where
  ownImages im him := hd.ownImages im (List.mem_of_mem_eraseIdx him)
  ownSnapshots s hs := hd.ownSnapshots s (List.mem_of_mem_eraseIdx hs)
  parent := hd.parent
  top := hd.top
  topStays s hs := hd.topStays s (List.mem_of_mem_eraseIdx hs)
  images := hd.images.sublist ((List.eraseIdx_sublist _ _).map _)
  snapshots := hd.snapshots.sublist ((List.eraseIdx_sublist _ _).map _)
  files := by
    rw [files_dropAt]
    exact hd.files.sublist (List.eraseIdx_sublist _ _)
  guids im him := hd.guids im (List.mem_of_mem_eraseIdx him)
  snapshotGuids s hs := hd.snapshotGuids s (List.mem_of_mem_eraseIdx hs)
  size := hd.size
  length hvol := by
    change (d.images.eraseIdx j).length = (d.snapshots.eraseIdx i).length
    rw [List.length_eraseIdx_of_lt hj, List.length_eraseIdx_of_lt hi, hd.length hvol]

theorem Plain.merged (hd : Plain d) (h : OnlyChild d g i j snap file) :
    Plain (d.merged g snap i j) := by
  obtain ⟨hmem, hkey⟩ := find_some h.snapshot
  have hguid : isValidGuid g = true := by
    rw [← isValidGuid_congr (guidEq_iff_fold.mpr hkey)]
    exact (hd.snapshotGuids snap hmem).1
  have hsnapshot : ∀ s ∈ (d.merged g snap i j).snapshots, ∃ x ∈ d.snapshots,
      takeSnapshot g snap x = s := by
    intro s hs
    obtain ⟨x, hx, rfl⟩ := Renames.mem_edit hs
    exact ⟨x, List.mem_of_mem_eraseIdx hx, rfl⟩
  have himage : ∀ im ∈ (d.merged g snap i j).images, ∃ x ∈ d.images,
      takeImage g snap x = im := by
    intro im him
    obtain ⟨x, hx, rfl⟩ := Renames.mem_edit him
    exact ⟨x, List.mem_of_mem_eraseIdx hx, rfl⟩
  constructor
  · constructor
    · intro im him
      obtain ⟨x, hx, rfl⟩ := himage im him
      unfold takeImage
      split
      · exact hd.ownSnapshots snap hmem
      · exact hd.ownImages x hx
    · intro s hs
      obtain ⟨x, hx, rfl⟩ := hsnapshot s hs
      unfold takeSnapshot
      split
      · exact hd.ownSnapshots snap hmem
      · exact hd.ownSnapshots x hx
    · exact hd.parent
    · exact hd.top
    · intro s hs htop
      obtain ⟨x, hx, rfl⟩ := hsnapshot s hs
      unfold takeSnapshot at htop ⊢
      split at htop
      case isTrue hp =>
        rw [if_pos hp]
        refine hd.topStays snap hmem ?_
        rw [← DiskImagesData.isTop_fold, show fold snap.guid = fold g from hkey,
          DiskImagesData.isTop_fold]
        exact htop
      case isFalse hp =>
        rw [if_neg hp]
        exact hd.topStays x hx htop
    · exact (takeImage_renames g snap).nodup_edit hd.images (findImageIdxByGuid_key h.imagePlace)
    · exact (takeSnapshot_renames g snap).nodup_edit hd.snapshots (findSnapshotByGuid_key h.place)
    · change ((d.mergeGuid g snap).dropAt i j).files.Nodup
      rw [files_dropAt, files_mergeGuid]
      exact hd.files.sublist (List.eraseIdx_sublist _ _)
  · intro im him
    obtain ⟨x, hx, rfl⟩ := himage im him
    unfold takeImage
    split
    · exact hguid
    · exact hd.guids x hx
  · intro s hs
    obtain ⟨x, hx, rfl⟩ := hsnapshot s hs
    unfold takeSnapshot
    split
    · exact ⟨hguid, (hd.snapshotGuids x hx).2⟩
    · exact hd.snapshotGuids x hx
  · exact hd.size
  · intro hvol
    obtain ⟨hi, -, -⟩ := List.findIdx?_eq_some_iff_getElem.mp h.place
    obtain ⟨hj, -, -⟩ := List.findIdx?_eq_some_iff_getElem.mp h.imagePlace
    rw [merged_images, merged_snapshots]
    unfold edit
    rw [List.length_eraseIdx_of_lt (by rwa [List.length_map]),
      List.length_eraseIdx_of_lt (by rwa [List.length_map]), List.length_map, List.length_map,
      hd.length hvol]

/-- The top delta of a merged descriptor has its name already. -/
theorem merged_changeGuid (hd : Distinct d) (h : OnlyChild d g i j snap file)
    (hp : d.isTop snap.parentGuid = false) :
    (d.merged g snap i j).changeGuid snap.parentGuid topdeltaUuid = d.merged g snap i j := by
  have himages := (takeImage_renames g snap).not_mem_edit hd.images
    (findImageIdxByGuid_key h.imagePlace)
  have hsnapshots := (takeSnapshot_renames g snap).not_mem_edit hd.snapshots
    (findSnapshotByGuid_key h.place)
  refine changeGuid_absent (fun im him heq => ?_) (fun s hs => ⟨fun heq => ?_, fun heq => ?_⟩)
    fun t ht => not_isTop ht hp
  · exact himages (List.mem_map.mpr ⟨im, him, heq⟩)
  · exact hsnapshots (List.mem_map.mpr ⟨s, hs, heq⟩)
  · -- the only child of the parent is the one that is gone
    obtain ⟨x, hx, rfl⟩ := Renames.mem_edit hs
    change fold (takeSnapshot g snap x).parentGuid = _ at heq
    rw [takeSnapshot_parentGuid] at heq
    have hsame := h.eq_of_parent (List.mem_of_mem_eraseIdx hx) heq
    subst hsame
    refine not_mem_eraseIdx hd.snapshots (findSnapshotByGuid_key h.place) ?_
    exact List.mem_map.mpr ⟨x, hx, (find_some h.snapshot).2⟩

/-- `validate_disk_descriptor` may add the top delta of an old descriptor. -/
theorem validate_some {x : DiskImagesData} (h : validate x = some d) :
    d.vol = x.vol ∧ d.images = x.images ∧
    (∀ s ∈ d.snapshots, s ∈ x.snapshots ∨ s = ⟨topdeltaUuid, noneUuid, false, false⟩) ∧
    (d.vol = none → isValidBlocksize d.blocksize ∧
      d.images.length = d.snapshots.length) := by
  unfold validate at h
  split at h
  case isTrue hvol =>
    cases h
    refine ⟨rfl, rfl, fun s hs => Or.inl hs, fun hnone => ?_⟩
    rw [hnone] at hvol
    cases hvol
  case isFalse hvol =>
    split at h
    case isTrue => cases h
    case isFalse hsize =>
      rw [Bool.or_eq_true, not_or, Bool.not_eq_true', Bool.not_eq_false] at hsize
      generalize hy : (if x.images.length = x.snapshots.length then x else _) = y at h
      have hyx : y.vol = x.vol ∧ y.images = x.images ∧ y.blocksize = x.blocksize ∧
          ∀ s ∈ y.snapshots, s ∈ x.snapshots ∨ s = ⟨topdeltaUuid, noneUuid, false, false⟩ := by
        rw [← hy]
        split
        · exact ⟨rfl, rfl, rfl, fun s hs => Or.inl hs⟩
        · refine ⟨rfl, rfl, rfl, fun s hs => ?_⟩
          simpa using hs
      obtain ⟨hvolx, himages, hblock, hsnapshots⟩ := hyx
      dsimp only at h
      generalize hz : (if y.topGuid = none ∧ (y.findSnapshotByGuid topdeltaUuid).isSome then
        { y with topGuid := some topdeltaUuid } else y) = z at h
      have hzy : z.vol = y.vol ∧ z.images = y.images ∧ z.blocksize = y.blocksize ∧
          z.snapshots = y.snapshots := by
        rw [← hz]
        split <;> exact ⟨rfl, rfl, rfl, rfl⟩
      obtain ⟨hvolz, himagesz, hblockz, hsnapshotsz⟩ := hzy
      obtain ⟨top, -, h⟩ := Option.bind_eq_some_iff.mp h
      obtain ⟨s, -, h⟩ := Option.bind_eq_some_iff.mp h
      split at h
      case isFalse => cases h
      case isTrue hcond =>
        obtain rfl := Option.some.inj h
        rw [Bool.and_eq_true, decide_eq_true_eq] at hcond
        refine ⟨hvolz.trans hvolx, himagesz.trans himages, ?_, fun _ => ⟨?_, hcond.2⟩⟩
        · rw [hsnapshotsz]
          exact hsnapshots
        · rw [hblockz, hblock]
          exact of_decide_eq_true hsize.2

theorem plain_of_read {x : DiskImagesData} (hread : readDd o x = some d) (hd : Distinct d) :
    Plain d := by
  unfold Dd.readDd at hread
  obtain ⟨y, hparse, hrest⟩ := Option.bind_eq_some_iff.mp hread
  obtain ⟨z, hvalid, hlast⟩ := Option.bind_eq_some_iff.mp hrest
  have hfold : ∀ (l : List DiskImagesData) (z : DiskImagesData),
      (l.foldl (fun dst src => appendDd src dst) z).vol = z.vol := by
    intro l
    induction l with
    | nil => exact fun _ => rfl
    | cons a l ih => exact fun z => ih (appendDd a z)
  have hz : z = d := by
    split at hlast
    case isTrue hany =>
      obtain rfl := Option.some.inj hlast
      cases hv : z.vol with
      | none => simp [hv] at hany
      | some v => simp [hv, hd.parent v ((hfold _ _).trans hv)] at hany
    case isFalse => exact Option.some.inj hlast
  subst hz
  unfold parse at hparse
  split at hparse
  case isFalse => cases hparse
  case isTrue hall =>
    obtain rfl := Option.some.inj hparse
    rw [Bool.and_eq_true, List.all_eq_true, List.all_eq_true] at hall
    obtain ⟨-, himages, hsnapshots, hsize⟩ := validate_some hvalid
    refine ⟨hd, fun i hi => hall.1 i (himages ▸ hi), fun s hs => ?_, fun hvol => (hsize hvol).1,
      fun hvol => (hsize hvol).2⟩
    rcases hsnapshots s hs with hold | rfl
    · exact Bool.and_eq_true_iff.mp (hall.2 s hold)
    · exact ⟨by decide, by decide⟩

end After

end Ploop.Dd
