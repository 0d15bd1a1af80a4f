import Ploop.Lib.Layers
import Ploop.Snapshot.ImagesList
import Ploop.Snapshot.Runs

/-!
# What the snapshots hold

A snapshot is read through its images down to the base. When others are deleted or merged, it
reads what it read before, wherever the calls fail.
-/

namespace Ploop.Dd

open Program Rooted Storage

/-! ## Reading -/

section Reading

variable {β γ : Type} (blocks : File → β → Option γ)

/-- What a file holds. -/
def Store.held (st : Store) (p : Path) (b : β) : Option γ := (st.files p).bind fun f => blocks f b

/-- What the image of a snapshot holds itself. -/
def DiskImagesData.layer (d : DiskImagesData) (st : Store) (k : Guid) (b : β) : Option γ :=
  (d.findImageByGuid k).bind fun p => st.held blocks p b

/-- What is read of a snapshot: the first image of its list that holds the block counts. -/
def DiskImagesData.reads (d : DiskImagesData) (st : Store) (g : Guid) (b : β) : Option γ :=
  (d.makeImagesList g).bind fun files => files.findSome? fun p => st.held blocks p b

variable {blocks} {d d' : DiskImagesData} {st st' : Store} {g : Guid} {b : β} {ks : List Guid}

theorem fold_of_key {k : Guid} (hk : k ∈ keys d.entries) : fold k = k := by
  obtain ⟨e, he, rfl⟩ := List.mem_map.mp hk
  obtain ⟨s, -, rfl⟩ := List.mem_map.mp he
  exact fold_fold s.guid

theorem reads_eq (hd : IsTree d) (hline : Line d.entries (fold g) ks) :
    d.reads blocks st g b = readAlong (d.layer blocks st) ks b := by
  obtain ⟨files, hfiles, hmap⟩ := hd.chain hline rfl
  have hread : readAlong (d.layer blocks st) ks b = (ks.map d.findImageByGuid).findSome?
      fun q => q.bind fun p => st.held blocks p b := by
    unfold readAlong Indirection.overlay
    rw [List.findSome?_map, List.findSome?_map]
    rfl
  unfold DiskImagesData.reads
  rw [makeImagesList_iff.mpr hfiles, hread, ← hmap, List.findSome?_map]
  rfl

/-- The way down is the same, and so are the images. -/
theorem reads_congr (hd : IsTree d) (hd' : IsTree d') (hline : Line d.entries (fold g) ks)
    (hline' : Line d'.entries (fold g) ks)
    (hlayer : ∀ k ∈ ks, d'.layer blocks st' k = d.layer blocks st k) :
    d'.reads blocks st' g b = d.reads blocks st g b := by
  rw [reads_eq hd hline, reads_eq hd' hline', readAlong_congr hlayer]

end Reading

/-! ## The images after an edit -/

section Images

variable {d : DiskImagesData} {g n x k : Guid} {i : ℕ} {im : ImageData}

theorem image_of_mem (h : Paired d) (ht : Tree d.entries) (him : im ∈ d.images)
    (hx : fold im.guid = fold x) : d.findImageByGuid x = some im.file := by
  have hfind : (d.images.find? fun i => guidEq x i.guid).isSome := by
    rw [List.find?_isSome]
    exact ⟨im, him, guidEq_iff_fold.mpr hx.symm⟩
  obtain ⟨im', him'⟩ := Option.isSome_iff_exists.mp hfind
  have hnodup := ht.nodup
  rw [← h.images] at hnodup
  have hguid := List.find?_some him'
  have hkey : fold im'.guid = fold im.guid := (guidEq_iff_fold.mp hguid).symm.trans hx.symm
  have hsame := List.inj_on_of_nodup_map hnodup (List.mem_of_find?_eq_some him') him hkey
  exact congrArg (Option.map ImageData.file) (him'.trans (congrArg some hsame))

theorem exists_image (h : Paired d) (hk : k ∈ keys d.entries) :
    ∃ im ∈ d.images, fold im.guid = k ∧ fold k = k := by
  have hfold := fold_of_key hk
  rw [← h.images, List.mem_map] at hk
  obtain ⟨im, him, hkey⟩ := hk
  exact ⟨im, him, hkey, hfold⟩

/-- Only the image of the snapshot goes away with it. -/
theorem mem_eraseImage (h : Paired d) (hi : d.findSnapshotByGuid g = some i)
    (him : im ∈ d.images) (hne : fold im.guid ≠ fold g) : im ∈ d.images.eraseIdx i := by
  rw [← imageIdx_eq h] at hi
  obtain ⟨hlt, hp, -⟩ := List.findIdx?_eq_some_iff_getElem.mp hi
  obtain ⟨j, hj⟩ := List.mem_iff_getElem?.mp him
  refine List.mem_eraseIdx_iff_getElem?.mpr ⟨j, ?_, hj⟩
  rintro rfl
  obtain ⟨_, heq⟩ := List.getElem?_eq_some_iff.mp hj
  rw [heq] at hp
  exact hne (guidEq_iff_fold.mp hp).symm

theorem image_dropAt (h : Paired d) (ht : Tree d.entries) (ht' : Tree (d.dropAt i i).entries)
    (hi : d.findSnapshotByGuid g = some i) (hk : k ∈ keys d.entries) (hne : k ≠ fold g) :
    (d.dropAt i i).findImageByGuid k = d.findImageByGuid k := by
  obtain ⟨im, him, hkey, hfold⟩ := exists_image h hk
  have hx := hkey.trans hfold.symm
  rw [image_of_mem h ht him hx]
  exact image_of_mem h.dropAt ht' (mem_eraseImage h hi him (hkey ▸ hne)) hx

theorem image_changeGuid (h : Paired d) (ht : Tree d.entries)
    (ht' : Tree (d.changeGuid g n).entries) (hg : g ≠ noneUuid) (hn : n ≠ noneUuid)
    (hk : k ∈ keys d.entries) :
    (d.changeGuid g n).findImageByGuid (replaceKey (fold g) (fold n) k) =
      d.findImageByGuid k := by
  obtain ⟨im, him, hkey, hfold⟩ := exists_image h hk
  have hmem : DiskImagesData.renameImage g n im ∈ (d.changeGuid g n).images :=
    List.mem_map_of_mem him
  have hrenamed : fold (DiskImagesData.renameImage g n im).guid =
      fold (replaceKey (fold g) (fold n) k) := by
    have hkeep : fold (replaceKey (fold g) (fold n) k) = replaceKey (fold g) (fold n) k := by
      unfold replaceKey
      split
      · exact fold_fold n
      · exact hfold
    rw [hkeep, ← hkey]
    exact fold_rename_eq g n im.guid
  rw [image_of_mem h ht him (hkey.trans hfold.symm)]
  have hfound := image_of_mem (h.changeGuid hg hn) ht' hmem hrenamed
  exact hfound

/-- The image of the parent is that of the snapshot that takes its place. -/
theorem image_merge {snap : SnapshotData} (h : Paired d) (ht : Tree d.entries)
    (h' : IsTree ((d.mergeGuid g snap).dropAt i i)) (hi : d.findSnapshotByGuid g = some i)
    (hk : k ∈ keys d.entries) (hne : k ≠ fold g) :
    ((d.mergeGuid g snap).dropAt i i).findImageByGuid
      (if k = fold snap.parentGuid then fold g else k) = d.findImageByGuid k := by
  obtain ⟨im, him, hkey, hfold⟩ := exists_image h hk
  rw [image_of_mem h ht him (hkey.trans hfold.symm)]
  have hmem : (if guidEq im.guid snap.parentGuid then
      { im with guid := g, alien := snap.alien } else im) ∈
      ((d.mergeGuid g snap).dropAt i i).images := by
    change _ ∈ List.eraseIdx (d.images.map _) i
    rw [List.eraseIdx_map]
    exact List.mem_map.mpr ⟨im, mem_eraseImage h hi him (hkey ▸ hne), rfl⟩
  by_cases hp : k = fold snap.parentGuid
  · rw [if_pos (guidEq_iff_fold.mpr (hkey.trans hp))] at hmem
    have hfound := image_of_mem h'.toPaired h'.tree hmem (fold_fold g).symm
    rwa [if_pos hp]
  · rw [if_neg fun heq => hp (hkey.symm.trans (guidEq_iff_fold.mp heq))] at hmem
    rw [if_neg hp]
    exact image_of_mem h'.toPaired h'.tree hmem (hkey.trans hfold.symm)

end Images

/-! ## Reading after an edit -/

section Edits

variable {β γ : Type} {blocks : File → β → Option γ} {d : DiskImagesData} {st st' : Store}
  {g x p : Guid} {b : β} {i : ℕ} {snap : SnapshotData}

theorem layer_congr {d' : DiskImagesData} {k k' : Guid}
    (h : d'.findImageByGuid k' = d.findImageByGuid k) :
    d'.layer blocks st k' = d.layer blocks st k := by
  funext b
  unfold DiskImagesData.layer
  rw [h]

theorem reads_dropLeaf (hd : IsTree d) (hd' : IsTree (d.dropAt i i))
    (hi : d.findSnapshotByGuid g = some i) (hleaf : ∀ e ∈ d.entries, e.2 ≠ some (fold g))
    (hx : fold x ∈ keys d.entries) (hne : fold x ≠ fold g) :
    (d.dropAt i i).reads blocks st x b = d.reads blocks st x b := by
  obtain ⟨ks, hline, -⟩ := hd.tree.exists_line hx
  have hline' : Line (d.dropAt i i).entries (fold x) ks := by
    rw [entries_drop hd.tree hi]
    exact hline.prune hleaf hne
  refine reads_congr hd hd' hline hline' fun k hk => layer_congr ?_
  have hin' := hline'.keys_mem hk
  rw [entries_drop hd.tree hi, mem_keys_prune] at hin'
  exact image_dropAt hd.toPaired hd.tree hd'.tree hi hin'.1 hin'.2

/-- The parent of the top delta takes its name. -/
theorem reads_dropTop (hd : IsTree d) (hi : d.findSnapshotByGuid topdeltaUuid = some i)
    (hentry : (fold topdeltaUuid, some (fold p)) ∈ d.entries) (hp : p ≠ noneUuid)
    (hd' : IsTree ((d.dropAt i i).changeGuid p topdeltaUuid)) (hx : fold x ∈ keys d.entries)
    (htop : fold x ≠ fold topdeltaUuid) (hne : fold x ≠ fold p) :
    ((d.dropAt i i).changeGuid p topdeltaUuid).reads blocks st x b = d.reads blocks st x b := by
  have hbare := hd.dropTop hi hentry
  obtain ⟨ks, hline, -⟩ := hd.tree.exists_line hx
  have hpruned : Line (d.dropAt i i).entries (fold x) ks := by
    rw [entries_drop hd.tree hi]
    exact hline.prune hd.topLeaf htop
  have hrenamed := hpruned.rename (replaceKey (fold p) (fold topdeltaUuid))
  rw [← entries_changeGuid hp topdelta_ne_none] at hrenamed
  have hsame : replaceKey (fold p) (fold topdeltaUuid) (fold x) = fold x := if_neg hne
  rw [hsame] at hrenamed
  rw [reads_eq hd hline, reads_eq hd' hrenamed]
  refine readAlong_map fun k hk => layer_congr ?_
  have hin := hpruned.keys_mem hk
  have hother := hin
  rw [entries_drop hd.tree hi, mem_keys_prune] at hother
  exact (image_changeGuid hbare.toPaired hbare.tree hd'.tree hp topdelta_ne_none hin).trans
    (image_dropAt hd.toPaired hd.tree hbare.tree hi hother.1 hother.2)

/-! ## Reading while images are merged -/

/-- What a merge does to two files. While it is under way, and after it has failed, the file of
the parent still reads the same under that of its child. -/
structure Overlaid (blocks : File → β → Option γ) (child parent : Path) (st : Store)
    (r : Option Sysexit × Store) : Prop where
  others : ∀ p ≠ parent, r.2.held blocks p = st.held blocks p
  covered : ∀ b, (st.held blocks child b).or (r.2.held blocks parent b) =
    (st.held blocks child b).or (st.held blocks parent b)
  done : r.1 = none → ∀ b, r.2.held blocks parent b =
    (st.held blocks child b).or (st.held blocks parent b)

/-- The arguments of a merge of two files: it is offline where `Off` says so, and then a base in
raw mode needs `raw`. -/
structure MergeArgs.Into (Off : Prop) (raw : Bool) (child parent : Path) (a : MergeArgs) :
    Prop where
  names : a.names = [child, parent]
  newDelta : a.newDelta = none
  online : Off → a.online = false
  raw : a.online = false → a.raw = true → raw = true

/-- For files with `P`, which it keeps, `merge_image` puts the blocks of a file over those of the
one below it. -/
def Overlays (blocks : File → β → Option γ) (A : Path → Path → Prop)
    (P : (Path → Option File) → Prop) (Off : Prop) (raw : Bool) (o : Outside) : Prop :=
  ∀ t a st child parent, MergeArgs.Into Off raw child parent a → A child parent →
    child ≠ parent → (st.files child).isSome → (st.files parent).isSome → P st.files →
    Overlaid blocks child parent st ((o.merge t a st).1, st.write (o.merge t a st).2) ∧
      P (st.write (o.merge t a st).2).files

section Merge

variable {child parent : Path} {r : Option Sysexit × Store}

theorem layer_eq {file : Path} {k : Guid} (h : d.findImageByGuid k = some file) :
    d.layer blocks st k = st.held blocks file := by
  funext b
  unfold DiskImagesData.layer
  rw [h]
  rfl

/-- Different snapshots have different files. -/
theorem image_ne (hd : IsTree d) (hnodup : d.files.Nodup) {k k' : Guid} {file : Path}
    (hk : k ∈ keys d.entries) (hk' : k' ∈ keys d.entries) (hne : k ≠ k')
    (hfile : d.findImageByGuid k = some file) : d.findImageByGuid k' ≠ some file := by
  obtain ⟨im, him, hkey, hfold⟩ := exists_image hd.toPaired hk
  obtain ⟨im', him', hkey', hfold'⟩ := exists_image hd.toPaired hk'
  rw [image_of_mem hd.toPaired hd.tree him (hkey.trans hfold.symm)] at hfile
  rw [image_of_mem hd.toPaired hd.tree him' (hkey'.trans hfold'.symm)]
  intro heq
  have hsame := List.inj_on_of_nodup_map hnodup him him' (Option.some.inj (hfile.trans heq.symm))
  exact hne (hkey.symm.trans (hsame ▸ hkey'))

variable (hd : IsTree d) (hnodup : d.files.Nodup)
  (hentry : (fold g, some (fold p)) ∈ d.entries)
  (honly : ∀ e ∈ d.entries, e.2 = some (fold p) → e.1 = fold g)
  (hchild : d.findImageByGuid (fold g) = some child)
  (hparent : d.findImageByGuid (fold p) = some parent)
  (hmerge : Overlaid blocks child parent st r) (hx : fold x ∈ keys d.entries)
  (hne : fold x ≠ fold p)

include hd hnodup hentry honly hchild hparent hmerge hx hne

theorem reads_merging : d.reads blocks r.2 x b = d.reads blocks st x b := by
  obtain ⟨ks, hline, -⟩ := hd.tree.exists_line hx
  rw [reads_eq hd hline, reads_eq hd hline]
  refine (hline.read_merging hd.tree hentry honly (fun k hk hkp => ?_) (fun b => ?_)).1 hne
  · obtain ⟨file, hfile⟩ := hd.toPaired.exists_image (fold_of_key hk ▸ hk)
    have hother : file ≠ parent := by
      rintro rfl
      exact image_ne hd hnodup hk (hd.tree.parent_mem hentry) hkp hfile hparent
    rw [layer_eq hfile, layer_eq hfile, hmerge.others file hother]
  · rw [layer_eq hchild, layer_eq hparent, layer_eq hparent]
    exact hmerge.covered b

theorem reads_merged (hi : d.findSnapshotByGuid g = some i) (hsnap : snap.parentGuid = p)
    (hd' : IsTree ((d.mergeGuid g snap).dropAt i i)) (hdone : r.1 = none) :
    ((d.mergeGuid g snap).dropAt i i).reads blocks r.2 x b = d.reads blocks st x b := by
  subst hsnap
  have hpmem := hd.tree.parent_mem hentry
  have hgmem := mem_keys.mpr ⟨_, hentry⟩
  have hcp := hd.tree.parent_ne hentry
  obtain ⟨ks, hline, -⟩ := hd.tree.exists_line hx
  have hline' := (hline.merge hd.tree hentry honly).1 hne
  rw [← entries_merge hd hi] at hline'
  rw [reads_eq hd hline, reads_eq hd' hline']
  refine (hline.read_merged hd.tree hentry honly (fun k hk hkc hkp => ?_) (fun b => ?_)).1 hne
  · obtain ⟨file, hfile⟩ := hd.toPaired.exists_image (fold_of_key hk ▸ hk)
    have hfile' := image_merge hd.toPaired hd.tree hd' hi hk hkc
    rw [if_neg hkp, hfile] at hfile'
    have hother : file ≠ parent := by
      rintro rfl
      exact image_ne hd hnodup hk hpmem hkp hfile hparent
    rw [layer_eq hfile, layer_eq hfile', hmerge.others file hother]
  · have hfile' := image_merge hd.toPaired hd.tree hd' hi hpmem hcp
    rw [if_pos rfl, hparent] at hfile'
    rw [layer_eq hfile', layer_eq hchild, layer_eq hparent]
    exact hmerge.done hdone b

end Merge

end Edits

/-! ## The order of the files -/

section Order

variable {A : Path → Path → Prop} {d d' : DiskImagesData} {g p : Guid} {i : ℕ}
  {snap : SnapshotData}

/-- The file of every snapshot stands over that of its parent. -/
def Ordered (A : Path → Path → Prop) (d : DiskImagesData) : Prop :=
  ∀ k q f f', (k, some q) ∈ d.entries → d.findImageByGuid k = some f →
    d.findImageByGuid q = some f' → A f f'

theorem Ordered.dropLeaf (h : Ordered A d) (hd : IsTree d) (hd' : Tree (d.dropAt i i).entries)
    (hi : d.findSnapshotByGuid g = some i) (hleaf : ∀ e ∈ d.entries, e.2 ≠ some (fold g)) :
    Ordered A (d.dropAt i i) := by
  intro k q f f' hk hf hf'
  rw [entries_drop hd.tree hi] at hk
  obtain ⟨hmem, hne⟩ := mem_prune.mp hk
  have hq : q ≠ fold g := fun heq => hleaf _ hmem (congrArg some heq)
  rw [image_dropAt hd.toPaired hd.tree hd' hi (mem_keys.mpr ⟨_, hmem⟩) hne] at hf
  rw [image_dropAt hd.toPaired hd.tree hd' hi (hd.tree.parent_mem hmem) hq] at hf'
  exact h k q f f' hmem hf hf'

theorem Ordered.changeGuid {n : Guid} (h : Ordered A d) (hp : Paired d) (ht : Tree d.entries)
    (ht' : Tree (d.changeGuid g n).entries) (hg : g ≠ noneUuid) (hn : n ≠ noneUuid) :
    Ordered A (d.changeGuid g n) := by
  intro k q f f' hk hf hf'
  rw [entries_changeGuid hg hn] at hk
  obtain ⟨⟨k₀, q₀⟩, hmem, heq⟩ := List.mem_map.mp hk
  obtain ⟨rfl, hq⟩ := Prod.mk.injEq _ _ _ _ ▸ heq
  obtain ⟨q₁, rfl, rfl⟩ := Option.map_eq_some_iff.mp hq
  rw [image_changeGuid hp ht ht' hg hn (mem_keys.mpr ⟨_, hmem⟩)] at hf
  rw [image_changeGuid hp ht ht' hg hn (ht.parent_mem hmem)] at hf'
  exact h k₀ q₁ f f' hmem hf hf'

theorem Ordered.setTemporary (h : Ordered A d) : Ordered A (d.setTemporary g) := by
  have himages : (d.setTemporary g).images = d.images := by
    unfold DiskImagesData.setTemporary
    cases d.findSnapshotByGuid g <;> rfl
  intro k q f f' hk hf hf'
  rw [entries_setTemporary] at hk
  unfold DiskImagesData.findImageByGuid at hf hf'
  rw [himages] at hf hf'
  exact h k q f f' hk hf hf'

/-- What was over the child is over the parent. -/
theorem Ordered.merge (htrans : ∀ {x y z}, A x y → A y z → A x z) (h : Ordered A d)
    (hd : IsTree d) (hd' : IsTree ((d.mergeGuid g snap).dropAt i i))
    (hi : d.findSnapshotByGuid g = some i)
    (hentry : (fold g, some (fold snap.parentGuid)) ∈ d.entries)
    (honly : ∀ e ∈ d.entries, e.2 = some (fold snap.parentGuid) → e.1 = fold g) :
    Ordered A ((d.mergeGuid g snap).dropAt i i) := by
  have hcp := hd.tree.parent_ne hentry
  have hparent := image_merge hd.toPaired hd.tree hd' hi (hd.tree.parent_mem hentry) hcp
  rw [if_pos rfl] at hparent
  have hother : ∀ k ∈ keys d.entries, k ≠ fold g → k ≠ fold snap.parentGuid →
      ((d.mergeGuid g snap).dropAt i i).findImageByGuid k = d.findImageByGuid k := by
    intro k hk hkg hkp
    have hsame := image_merge hd.toPaired hd.tree hd' hi hk hkg
    rwa [if_neg hkp] at hsame
  intro k q f f' hk hf hf'
  rw [entries_merge hd hi] at hk
  rcases (mem_merge hcp.symm).mp hk with ⟨rfl, hmem⟩ | ⟨hkg, hkp, hmem⟩
  · have hqg : q ≠ fold g := by
      rintro rfl
      exact hd.tree.grandparent_ne hentry hmem
    rw [hparent] at hf
    rw [hother q (hd.tree.parent_mem hmem) hqg (hd.tree.parent_ne hmem)] at hf'
    exact h _ q f f' hmem hf hf'
  · have hqp : q ≠ fold snap.parentGuid := fun heq => hkg (honly _ hmem (congrArg some heq))
    rw [hother k (mem_keys.mpr ⟨_, hmem⟩) hkg hkp] at hf
    by_cases hqg : q = fold g
    · subst hqg
      rw [hparent] at hf'
      obtain ⟨fc, hfc⟩ := hd.toPaired.exists_image
        (g := fold g) (by rw [fold_fold]; exact mem_keys.mpr ⟨_, hentry⟩)
      exact htrans (h k _ f fc hmem hf hfc) (h _ _ fc f' hentry hfc hf')
    · rw [hother q (hd.tree.parent_mem hmem) hqg hqp] at hf'
      exact h k q f f' hmem hf hf'

end Order

/-! ## Snapshots that stay -/

section Intact

variable {β γ : Type} {blocks : File → β → Option γ} {A : Path → Path → Prop}
  {P : (Path → Option File) → Prop} {Off : Prop} {May : Guid → Prop} {o : Outside}
  {c₀ c d d' : DiskImagesData} {st₀ st st' : Store} {g : Guid} {i : ℕ} {snap : SnapshotData}

/-- The snapshots that may not go are there, and read as in `c₀`. Temporary ones may go. -/
structure Intact (blocks : File → β → Option γ) (A : Path → Path → Prop)
    (P : (Path → Option File) → Prop) (Off : Prop) (May : Guid → Prop) (c₀ : DiskImagesData)
    (st₀ : Store) (c : DiskImagesData) (st : Store) : Prop extends Present c.files st where
  good : P st.files
  offline : Off → st.kernel = none
  mode : c.raw = c₀.raw
  order : Ordered A c
  temporary : ∀ s ∈ c.snapshots, s.temporary = true → May s.guid
  stays : ∀ g, fold g ∈ keys c₀.entries → ¬ May g → fold g ∈ keys c.entries
  reads : ∀ g, fold g ∈ keys c₀.entries → ¬ May g → ∀ b,
    c.reads blocks st g b = c₀.reads blocks st₀ g b

/-- An edit that takes no snapshot away that stays. -/
theorem Intact.edit (h : Intact blocks A P Off May c₀ st₀ d st) (hfiles : d'.files.Sublist d.files)
    (htemp : ∀ s ∈ d'.snapshots, s.temporary = true → May s.guid)
    (hgood : P st'.files) (hkernel : st'.kernel = st.kernel) (hmode : d'.raw = d.raw)
    (horder : Ordered A d')
    (hthere : ∀ p, (st.files p).isSome → (st'.files p).isSome)
    (hstays : ∀ g, fold g ∈ keys d.entries → ¬ May g → fold g ∈ keys d'.entries)
    (hreads : ∀ g, fold g ∈ keys d.entries → ¬ May g → ∀ b,
      d'.reads blocks st' g b = d.reads blocks st g b) :
    Intact blocks A P Off May c₀ st₀ d' st' where
  toPresent := (h.toPresent.sublist hfiles).mono hthere
  good := hgood
  offline hoff := hkernel.trans (h.offline hoff)
  mode := hmode.trans h.mode
  order := horder
  temporary := htemp
  stays g hg hmay := hstays g (h.stays g hg hmay) hmay
  reads g hg hmay b := (hreads g (h.stays g hg hmay) hmay b).trans (h.reads g hg hmay b)

theorem held_put {q : Path} {p : Path} (hne : p ≠ q) :
    (st.put q none).held blocks p = st.held blocks p := by
  funext b
  simp [Store.held, Store.put, Function.update_of_ne hne]

/-- What is read depends on the listed files only. -/
theorem reads_put (hd : IsTree d) {p : Path} (hp : p ∉ d.files) (hg : fold g ∈ keys d.entries)
    (b : β) : d.reads blocks (st.put p none) g b = d.reads blocks st g b := by
  obtain ⟨ks, hline, -⟩ := hd.tree.exists_line hg
  refine reads_congr hd hd hline hline fun k hk => ?_
  obtain ⟨im, him, hkey, hfold⟩ := exists_image hd.toPaired (hline.keys_mem hk)
  have hfile := image_of_mem hd.toPaired hd.tree him (hkey.trans hfold.symm)
  have hne : im.file ≠ p := fun heq => hp (heq ▸ List.mem_map_of_mem him)
  rw [layer_eq hfile, layer_eq hfile, held_put hne]

theorem intact_spare (hP : ∀ (st : Store) p, P st.files → P (st.put p none).files)
    (hd : IsTree d) {p : Path} (hp : p ∉ d.files) :
    Spare (Intact blocks A P Off May c₀ st₀) d p := fun _ h =>
  { toPresent := h.toPresent.unlink hp
    good := hP _ _ h.good
    offline := h.offline
    mode := h.mode
    order := h.order
    temporary := h.temporary
    stays := h.stays
    reads := fun g hg hmay b =>
      (reads_put hd hp (h.stays g hg hmay) b).trans (h.reads g hg hmay b) }

/-- A key that may not go is none of those that go. -/
theorem ne_of_may (hcongr : ∀ {g g'}, guidEq g g' = true → May g → May g') {g' : Guid}
    (hmay : May g) (hg' : ¬ May g') : fold g' ≠ fold g :=
  fun heq => hg' (hcongr (guidEq_iff_fold.mpr heq.symm) hmay)

theorem not_listed (hd : IsTree d) (h : Present d.files st) {p : Path}
    (hi : d.findSnapshotByGuid g = some i) (hp : d.findImageByGuid g = some p)
    (hfiles : d'.files = d.files.eraseIdx i) : p ∉ d'.files := by
  rw [hfiles]
  exact Present.not_mem_eraseIdx h.nodup (files_at ((imageIdx_eq hd.toPaired).trans hi) hp)

theorem intact_drop (hcongr : ∀ {g g'}, guidEq g g' = true → May g → May g') (hd : IsTree d)
    (hi : d.findSnapshotByGuid g = some i) (hsnap : d.snapshotByGuid g = some snap)
    (hcount : d.getChildCountByUuid g = 0) (hp : snap.parentGuid ≠ noneUuid)
    (hgoes : Goes May d g) (h : Intact blocks A P Off May c₀ st₀ d st) :
    Intact blocks A P Off May c₀ st₀ (d.without g i snap) st := by
  obtain ⟨htree, -⟩ := hd.removeImage hi hsnap hcount hp fun htop => (hgoes.top htop).1
  obtain ⟨hmem, hkey⟩ := snapshotByGuid_some hsnap
  have hentry := entry_mem hmem hp
  rw [hkey] at hentry
  have hsub : (d.without g i snap).files.Sublist d.files := by
    rw [files_without]
    exact List.eraseIdx_sublist _ _
  by_cases htop : d.isTop g = true
  · -- the parent of the top delta takes its name, and is one that may go
    have hwithout : d.without g i snap =
        (d.changeParentGuid i snap.parentGuid topdeltaUuid).dropAt i i := by
      unfold DiskImagesData.without
      rw [if_pos htop]
    rw [isTop_iff hd] at htop
    have hguid := guidEq_iff_fold.mpr htop
    obtain ⟨hfind, hby⟩ := lookup_congr (d := d) htop
    rw [hfind] at hi
    rw [hby] at hsnap
    rw [htop] at hentry
    have hparent := (hgoes.top hguid).2 snap hsnap
    obtain ⟨x, hx⟩ := Option.isSome_iff_exists.mp
      (snapshotByGuid_isSome.mpr (hd.tree.parent_mem hentry))
    have hone := ((hgoes.top hguid).1 snap x hsnap hx).2
    rw [hwithout, hd.changeParentGuid hi hsnap hp hone.le] at htree hsub ⊢
    have hother : ∀ g', ¬ May g' → fold g' ≠ fold topdeltaUuid ∧ fold g' ≠ fold snap.parentGuid :=
      fun g' hg' => ⟨htop ▸ ne_of_may hcongr hgoes.may hg', ne_of_may hcongr hparent hg'⟩
    have hbare := hd.dropTop hi hentry
    have horder := (h.order.dropLeaf hd hbare.tree hi hd.topLeaf).changeGuid hbare.toPaired
      hbare.tree htree.tree hp topdelta_ne_none
    refine h.edit hsub (fun s hs htemp => ?_) h.good rfl rfl horder (fun _ hq => hq)
      (fun g' hg' hno => ?_) fun g' hg' hno b => ?_
    · obtain ⟨s₀, hs₀, rfl⟩ := List.mem_map.mp hs
      have hmay := h.temporary s₀ (List.mem_of_mem_eraseIdx hs₀) htemp
      change May (DiskImagesData.rename snap.parentGuid topdeltaUuid s₀.guid)
      unfold DiskImagesData.rename
      split
      · exact hcongr hguid hgoes.may
      · exact hmay
    · rw [entries_changeGuid hp topdelta_ne_none, keys_rename, entries_drop hd.tree hi]
      refine List.mem_map.mpr ⟨fold g', mem_keys_prune.mpr ⟨hg', (hother g' hno).1⟩, ?_⟩
      exact if_neg (hother g' hno).2
    · exact reads_dropTop hd hi hentry hp htree hg' (hother g' hno).1 (hother g' hno).2
  · have hwithout : d.without g i snap = d.dropAt i i := by
      unfold DiskImagesData.without
      rw [if_neg htop]
    rw [hwithout] at htree hsub ⊢
    have hleaf := no_child (ne_none_of_mem hd (mem_keys.mpr ⟨_, hentry⟩)) hcount
    refine h.edit hsub (fun s hs htemp => h.temporary s (List.mem_of_mem_eraseIdx hs) htemp)
      h.good rfl rfl (h.order.dropLeaf hd htree.tree hi hleaf) (fun _ hq => hq)
        (fun g' hg' hno => ?_)
      fun g' hg' hno b => ?_
    · rw [entries_drop hd.tree hi, mem_keys_prune]
      exact ⟨hg', ne_of_may hcongr hgoes.may hno⟩
    · exact reads_dropLeaf hd htree hi hleaf hg' (ne_of_may hcongr hgoes.may hno)

theorem Intact.files (h : Intact blocks A P Off May c₀ st₀ c st) (hst : st'.files = st.files)
    (hoff : Off → st'.kernel = none) : Intact blocks A P Off May c₀ st₀ c st' := by
  have hheld : ∀ p, st'.held blocks p = st.held blocks p := by
    intro p
    funext b
    unfold Store.held
    rw [hst]
  have hreads : ∀ g b, c.reads blocks st' g b = c.reads blocks st g b := by
    intro g b
    unfold DiskImagesData.reads
    simp only [hheld]
  refine ⟨⟨h.nodup, fun f hf => ?_⟩, hst.symm ▸ h.good, hoff, h.mode, h.order, h.temporary, h.stays,
    fun g hg hmay b => ?_⟩
  · rw [hst]
    exact h.exist f hf
  · rw [hreads]
    exact h.reads g hg hmay b

/-- A device that runs may change its stack. -/
theorem Intact.restack (h : Intact blocks A P Off May c₀ st₀ c st) (f : List Path → List Path) :
    Intact blocks A P Off May c₀ st₀ c (st.restack f) := by
  refine h.files rfl fun hoff => ?_
  change st.kernel.map f = none
  rw [h.offline hoff]
  rfl

theorem intact_keeping (ho : Overlays blocks A P Off c₀.raw o)
    (htrans : ∀ {x y z}, A x y → A y z → A x z)
    (hP : ∀ (st : Store) p, P st.files → P (st.put p none).files)
    (hcongr : ∀ {g g'}, guidEq g g' = true → May g → May g') :
    Keeping o none (Intact blocks A P Off May c₀ st₀) May where
  congr := hcongr
  temporary h hs htemp := h.temporary _ hs htemp
  mark := by
    intro d _ g hd hd' hmay h
    have hfiles : (d.setTemporary g).files.Sublist d.files := by rw [files_setTemporary]
    have hmode : (d.setTemporary g).raw = d.raw := by
      unfold DiskImagesData.setTemporary
      cases d.findSnapshotByGuid g <;> rfl
    refine h.edit hfiles (fun s hs htemp => ?_) h.good rfl hmode h.order.setTemporary
      (fun _ hq => hq)
      (fun g' hg' _ => ?_) fun g' hg' _ b => ?_
    · rcases mem_setTemporary hs with hold | ⟨s₀, -, hkey, rfl⟩
      · exact h.temporary s hold htemp
      · exact hcongr (guidEq_iff_fold.mpr hkey.symm) hmay
    · rwa [entries_setTemporary]
    · obtain ⟨ks, hline, -⟩ := hd.tree.exists_line hg'
      have hline' := hline
      rw [← entries_setTemporary (g := g)] at hline'
      have himages : (d.setTemporary g).images = d.images := by
        unfold DiskImagesData.setTemporary
        cases d.findSnapshotByGuid g <;> rfl
      refine reads_congr hd hd' hline hline' fun k _ => layer_congr ?_
      unfold DiskImagesData.findImageByGuid
      rw [himages]
  drop := by
    intro d st g i snap file hd hi hsnap hfile hcount hp hgoes h
    obtain ⟨htree, -⟩ := hd.removeImage hi hsnap hcount hp fun htop => (hgoes.top htop).1
    exact ⟨intact_drop hcongr hd hi hsnap hcount hp hgoes h,
      intact_spare hP htree (not_listed hd h.toPresent hi hfile files_without)⟩
  merge := by
    intro d g i snap file parentFile hd hi hsnap hfile hparentFile hcount hp hmay t a _ hasks h
    have hinto : MergeArgs.Into Off c₀.raw file parentFile a :=
      ⟨hasks.names, hasks.newDelta, fun hoff => hasks.online fun _ _ hst => hst.offline hoff,
        fun hno hraw => h.mode.symm.trans (hasks.raw hno hraw)⟩
    obtain ⟨-, htree, -⟩ := hd.mergeImage hi hsnap hp hcount
    obtain ⟨hmem, hkey⟩ := snapshotByGuid_some hsnap
    have hentry := entry_mem hmem hp
    rw [hkey] at hentry
    have honly := only_child hp hcount hentry
    rw [← findImageByGuid_congr (fold_fold g)] at hfile
    rw [← findImageByGuid_congr (fold_fold snap.parentGuid)] at hparentFile
    have hfileMem : ∀ {k f}, d.findImageByGuid k = some f → f ∈ d.files := by
      intro k f hf
      obtain ⟨im, him, rfl⟩ := Option.map_eq_some_iff.mp hf
      exact List.mem_map_of_mem (List.mem_of_find?_eq_some him)
    have hne : file ≠ parentFile := by
      rintro rfl
      exact image_ne hd h.nodup (mem_keys.mpr ⟨_, hentry⟩) (hd.tree.parent_mem hentry)
        (hd.tree.parent_ne hentry).symm hfile hparentFile
    have habove := h.order _ _ _ _ hentry hfile hparentFile
    obtain ⟨hover, hgood⟩ := ho t a _ file parentFile hinto habove hne
      (h.exist _ (hfileMem hfile)) (h.exist _ (hfileMem hparentFile)) h.good
    have hother : ∀ g', ¬ May g' → fold g' ≠ fold snap.parentGuid :=
      fun g' hno => ne_of_may hcongr hmay hno
    refine ⟨?_, fun hdone => ?_, ?_⟩
    · exact h.edit (List.Sublist.refl _) h.temporary hgood rfl rfl h.order
        (fun _ => Store.isSome_write _) (fun _ hg' _ => hg') fun g' hg' hno b =>
          reads_merging hd h.nodup hentry honly hfile hparentFile hover hg'
          (hother g' hno)
    · have hsub : ((d.mergeGuid g snap).dropAt i i).files.Sublist d.files := by
        rw [files_merged]
        exact List.eraseIdx_sublist _ _
      refine h.edit hsub (fun s hs htemp => ?_) hgood rfl rfl
        (h.order.merge htrans hd htree hi hentry honly) (fun _ => Store.isSome_write _)
          (fun g' hg' hno => ?_)
        fun g' hg' hno b => reads_merged hd h.nodup hentry honly hfile hparentFile hover hg'
          (hother g' hno) hi rfl htree hdone
      · obtain ⟨s₀, hs₀, rfl⟩ := List.mem_map.mp (List.mem_of_mem_eraseIdx hs)
        split at htemp
        case isTrue heq =>
          rw [if_pos heq]
          exact hcongr (guidEq_iff_fold.mpr hkey) (h.temporary snap hmem htemp)
        case isFalse hno =>
          rw [if_neg hno]
          exact h.temporary s₀ hs₀ htemp
      · rw [entries_merge hd hi, mem_keys_merge (hd.tree.parent_ne hentry).symm]
        by_cases heq : fold g' = fold g
        · exact Or.inl ⟨heq, hd.tree.parent_mem hentry⟩
        · exact Or.inr ⟨heq, hother g' hno, hg'⟩
    · rw [findImageByGuid_congr (fold_fold g)] at hfile
      exact intact_spare hP htree (not_listed hd h.toPresent hi hfile files_merged)
  restack f h := h.restack f
  renew hnew := absurd rfl hnew

/-! ## Runs of deletions and merges -/

/-- A deletion or a merge into the parent, of snapshots that may go. -/
def Call.Removes (May : Guid → Prop) (c : DiskImagesData) : Call → Prop
  | delete guid => Goes May c guid
  | merge guid all newDelta => newDelta = none ∧ MergeGoes May c guid all
  | _ => False

/-- One call, however it ends. It begins with the files that the last one left, and where `Off`
says so without a device. -/
def Removal (May : Guid → Prop) (Off : Prop) (o : Outside) (w w' : World) : Prop :=
  ∃ (call : Call) (v : World), call.Removes May w.conf ∧ v.conf = w.conf ∧
    v.store.files = w.store.files ∧ (Off → v.store.kernel = none) ∧ ending (call.run o v) = w'

/-- One call whose merges are overlays. -/
def RemovalStep (blocks : File → β → Option γ) (A : Path → Path → Prop)
    (P : (Path → Option File) → Prop) (Off : Prop) (raw : Bool) (May : Guid → Prop)
    (w w' : World) : Prop :=
  ∃ o, Overlays blocks A P Off raw o ∧ Removal May Off o w w'

theorem Intact.stay (h : Intact blocks A P Off May c₀ st₀ c st) : ∀ s ∈ c₀.snapshots,
    ¬ May s.guid → (c.snapshotByGuid s.guid).isSome ∧
      ∀ b, c.reads blocks st s.guid b = c₀.reads blocks st₀ s.guid b := by
  intro s hs hmay
  have hin : fold s.guid ∈ keys c₀.entries := List.mem_map_of_mem (mem_entries hs)
  exact ⟨snapshotByGuid_isSome.mpr (h.stays _ hin hmay), h.reads _ hin hmay⟩

theorem RemovalStep.sound (htrans : ∀ {x y z}, A x y → A y z → A x z)
    (hP : ∀ (st : Store) p, P st.files → P (st.put p none).files)
    (hcongr : ∀ {g g'}, guidEq g g' = true → May g → May g') {w w' : World}
    (h : RemovalStep blocks A P Off c₀.raw May w w')
    (hw : Sound (Intact blocks A P Off May c₀ st₀) w) :
    Sound (Intact blocks A P Off May c₀ st₀) w' := by
  obtain ⟨o, ho, call, v, hremoves, hconf, hfiles, hoff, rfl⟩ := h
  have hkeep : Keeping o none (Intact blocks A P Off May c₀ st₀) May :=
    intact_keeping ho htrans hP hcongr
  have hon : On (Intact blocks A P Off May c₀ st₀) w.conf v := ⟨hconf, hw.kept.files hfiles hoff⟩
  cases call with
  | delete guid => exact sound_ending (sound_delete hw.tree hkeep hremoves) hon
  | merge guid all newDelta =>
      obtain ⟨rfl, hgoes⟩ := hremoves
      exact sound_ending (sound_merge hw.tree hkeep hgoes) hon
  | create => exact hremoves.elim
  | switch => exact hremoves.elim

theorem sound_removals (htrans : ∀ {x y z}, A x y → A y z → A x z)
    (hP : ∀ (st : Store) p, P st.files → P (st.put p none).files)
    (hcongr : ∀ {g g'}, guidEq g g' = true → May g → May g') {w w' : World}
    (hw : Sound (Intact blocks A P Off May c₀ st₀) w)
    (h : Relation.ReflTransGen (RemovalStep blocks A P Off c₀.raw May) w w') :
    Sound (Intact blocks A P Off May c₀ st₀) w' := by
  induction h with
  | refl => exact hw
  | tail _ hstep ih =>
      exact RemovalStep.sound (A := A) (fun hxy hyz => htrans hxy hyz) hP hcongr hstep ih

/-- Whatever is deleted and merged, and wherever it fails, every other snapshot stays and reads
what it read before. -/
theorem removals_keep {w w' : World} (hw : IsTree w.conf) (hfiles : Present w.conf.files w.store)
    (htrans : ∀ {x y z}, A x y → A y z → A x z) (horder : Ordered A w.conf)
    (hgood : P w.store.files) (hoff : Off → w.store.kernel = none)
    (hP : ∀ (st : Store) p, P st.files → P (st.put p none).files)
    (hcongr : ∀ {g g'}, guidEq g g' = true → May g → May g')
    (htemp : ∀ s ∈ w.conf.snapshots, s.temporary = true → May s.guid)
    (h : Relation.ReflTransGen (RemovalStep blocks A P Off w.conf.raw May) w w') :
    ∀ s ∈ w.conf.snapshots, ¬ May s.guid → (w'.conf.snapshotByGuid s.guid).isSome ∧
      ∀ b, w'.conf.reads blocks w'.store s.guid b = w.conf.reads blocks w.store s.guid b := by
  have hstart : Sound (Intact blocks A P Off May w.conf w.store) w :=
    ⟨hw, hfiles, hgood, hoff, rfl, horder, htemp, fun _ hg _ => hg, fun _ _ _ _ => rfl⟩
  have hend := sound_removals (A := A) (fun hxy hyz => htrans hxy hyz) hP hcongr hstart h
  exact hend.kept.stay

end Intact

/-! ## A snapshot below the top delta -/

/-- The bytes of the upper file that are not zero cover the lower file. -/
def coverFile (child parent : File) : File where
  size := max child.size parent.size
  byte i := if child.byte i = 0 then parent.byte i else child.byte i
  eof i hi := by
    rw [if_pos (child.eof i ((le_max_left _ _).trans hi))]
    exact parent.eof i ((le_max_right _ _).trans hi)

def nonZero (f : File) (i : ℕ) : Option UInt8 := if f.byte i = 0 then none else some (f.byte i)

/-- Every call succeeds, and bytes that are not zero are merged. -/
def covering : Outside :=
  { calm with
    merge := fun _ a s => (none, Function.update (fun _ => none) (a.names.getD 1 [])
      ((s.files (a.names.getD 0 [])).bind fun c =>
        (s.files (a.names.getD 1 [])).map fun p => coverFile c p)) }

theorem covering_overlays (raw : Bool) :
    Overlays nonZero (fun _ _ => True) (fun _ => True) False raw covering := by
  intro t a st child parent hinto _ hne hchild hparent _
  obtain ⟨c, hc⟩ := Option.isSome_iff_exists.mp hchild
  obtain ⟨p, hp⟩ := Option.isSome_iff_exists.mp hparent
  have hmerge : covering.merge t a st =
      (none, Function.update (fun _ => none) parent (some (coverFile c p))) := by
    simp [covering, hinto.names, hc, hp]
  have hheld : ∀ b, (st.put parent (some (coverFile c p))).held nonZero parent b =
      (st.held nonZero child b).or (st.held nonZero parent b) := by
    intro b
    simp only [Store.held, Store.put, Function.update_self, hc, hp, Option.bind_some]
    unfold nonZero coverFile
    dsimp only
    split
    case isTrue hzero => rfl
    case isFalse hzero => rfl
  rw [hmerge, Store.write_update]
  refine ⟨⟨fun q hq => ?_, fun b => ?_, fun _ => hheld⟩, True.intro⟩
  · funext b
    simp [Store.held, Store.put, Function.update_of_ne hq]
  · rw [hheld, ← Option.or_assoc, Option.or_self]

/-! ## The base is deleted -/

def lowGuid : Guid := "{22222222-2222-2222-2222-222222222222}".toList

/-- The base holds a 7 and the top delta a 9. -/
def twoBytes : World :=
  { twoFiles with
    store := ⟨fun p => some (File.empty.pwrite ⟨0, 1, fun _ => if p = ['r'] then 7 else 9⟩),
      none, false⟩
    time := 0 }

/-- The world after the base was deleted, and the top delta merged into its file. -/
def lowDeleted : World := ending ((Call.delete lowGuid).run covering twoBytes)

theorem lowDeleted_step : RemovalStep nonZero (fun _ _ => True) (fun _ => True) False false
    (fun g => guidEq g lowGuid = true) twoBytes lowDeleted := by
  have hgoes : Goes (fun g => guidEq g lowGuid = true) twoBytes.conf lowGuid :=
    ⟨guidEq_refl _, fun htop => absurd htop (by decide)⟩
  exact ⟨covering, covering_overlays _, .delete lowGuid, twoBytes, hgoes, rfl, rfl, False.elim,
    rfl⟩

theorem removals_keep_top : lowDeleted.conf.snapshots.length = 1 ∧
    (lowDeleted.conf.snapshotByGuid topdeltaUuid).isSome ∧
    ∀ b, lowDeleted.conf.reads nonZero lowDeleted.store topdeltaUuid b =
      twoBytes.conf.reads nonZero twoBytes.store topdeltaUuid b := by
  have htree : IsTree twoBytes.conf := twoFiles_step.isTree (oneImage_isTree _ _ _ _)
  refine ⟨by decide +kernel, ?_⟩
  exact removals_keep htree ⟨by decide +kernel, fun _ _ => rfl⟩ (fun _ _ => True.intro)
    (fun _ _ _ _ _ _ _ => True.intro) True.intro False.elim (fun _ _ h => h)
    (fun hgg hg => (guidEq_congr hgg (guidEq_refl _)).symm.trans hg) (by decide +kernel)
    (.single lowDeleted_step) ⟨topdeltaUuid, lowGuid, false, false⟩ (by decide +kernel) (by decide)

end Ploop.Dd
