import Ploop.Image.MergeOverlay
import Ploop.Snapshot.Content

/-!
# Snapshots of a disk that is not running

Without a device the merges of a disk that is not in raw mode are those of `merge_image`, on the
bytes of the images, and a power failure may cut each of them off.
-/

namespace Ploop

open Storage

section Files

variable {loadCbt : File → Option DirtyBitmap} {c p x : File} {r : Option Sysexit}

/-- What a merge of `c` into `p` leaves in the file of `p`. It runs to its end, or is cut off, and
the medium has one of the files that a crash leaves. -/
def MergeLeaves (loadCbt : File → Option DirtyBitmap) (c p : File) (r : Option Sysexit)
    (x : File) : Prop :=
  (r = (mergeImage loadCbt [c] (.ploop1 p)).1 ∧
    x = (mergeImage loadCbt [c] (.ploop1 p)).2.file) ∨
  (r ≠ none ∧ ∃ q, q <+: (mergeImage loadCbt [c] (.ploop1 p)).2.log ∧
    CrashImage File.pwrite p q x)

/-- `p` can take what `c` holds: they have one format, `p` has nothing beyond the disk of `c`, and
no sum or entry wraps. -/
structure Fits (c p : File) : Prop where
  stack : ∃ version blocksize, Stack version blocksize [c, p]
  within : ∀ clu, alignUp (getSizeInSectors c.hdr) p.hdr.layout.blocksize
    / p.hdr.layout.blocksize ≤ clu → content p clu = none
  room : MergeFits c [] (.ploop1 p)

theorem overlay_pair {β γ : Type} (f g : β → Option γ) (b : β) :
    Indirection.overlay [f, g] b = (f b).or (g b) := by
  rw [Indirection.overlay_cons, Indirection.overlay_cons, Indirection.overlay_nil, Option.or_none]

theorem MergeLeaves.crash (hleaves : MergeLeaves loadCbt c p r x) :
    ∃ q, q <+: (mergeImage loadCbt [c] (.ploop1 p)).2.log ∧ CrashImage File.pwrite p q x := by
  rcases hleaves with ⟨-, rfl⟩ | ⟨-, hcrash⟩
  · refine ⟨_, List.prefix_refl _, ?_⟩
    rw [Disk.file, mergeInPlace_init]
    exact crashImage_view _
  · exact hcrash

/-- Wherever it ends, `c` over the file reads as before. -/
theorem Fits.covered (h : Fits c p) (hleaves : MergeLeaves loadCbt c p r x) (clu : ℕ) :
    (content c clu).or (content x clu) = (content c clu).or (content p clu) := by
  obtain ⟨version, blocksize, hstack⟩ := h.stack
  have hspec : MergedInto c [] p (mergeImage loadCbt [c] (.ploop1 p)) :=
    mergeInPlace_spec hstack h.within h.room
  obtain ⟨q, hq, hx⟩ := hleaves.crash
  have hsafe := hspec.safe q hq x (by rwa [mergeInPlace_init])
  have hover := congrFun (overlay_of_mask hsafe.content) clu
  simpa [overlay_pair] using hover

theorem Fits.done (h : Fits c p) (hleaves : MergeLeaves loadCbt c p r x) (hr : r = none)
    (clu : ℕ) : content x clu = (content c clu).or (content p clu) := by
  obtain ⟨version, blocksize, hstack⟩ := h.stack
  have hspec : MergedInto c [] p (mergeImage loadCbt [c] (.ploop1 p)) :=
    mergeInPlace_spec hstack h.within h.room
  rcases hleaves with ⟨hres, rfl⟩ | ⟨hfail, -⟩
  · obtain ⟨-, hcontent⟩ := hspec.done (hres.symm.trans hr)
    rw [hcontent]
    by_cases hclu : clu < c.hdr.layout.l2Size
    · have hone : Stack version blocksize [c] := @Stack.append_left _ _ _ [p] hstack
      have hover := progress_eq_overlay hone (List.pairwise_singleton _ _) (content p) hclu
      exact hover.trans (overlay_pair _ _ _)
    · rw [content_beyond (f := c) (Nat.not_lt.mp hclu), Option.none_or, progress,
        if_neg fun hin => hclu hin.1]
  · exact absurd hr hfail

end Files

end Ploop

namespace Ploop.Dd

open Program Rooted Storage

variable {loadCbt : File → Option DirtyBitmap} {A : Path → Path → Prop}
  {P : (Path → Option File) → Prop} {May : Guid → Prop} {o : Outside}

/-- An offline merge of two images does this to the file of the parent, and nothing else. -/
def MergesFiles (loadCbt : File → Option DirtyBitmap) (o : Outside) : Prop :=
  ∀ t a st child parent c p, MergeArgs.Into True false child parent a →
    st.files child = some c → st.files parent = some p →
    ∃ r x, MergeLeaves loadCbt c p r x ∧
      o.merge t a st = (r, Function.update (fun _ => none) parent (some x))

/-- Where files have `P`, every image can take what is over it. -/
def Fitting (A : Path → Path → Prop) (P : (Path → Option File) → Prop) : Prop :=
  ∀ files child parent c p, P files → A child parent → files child = some c →
    files parent = some p → Fits c p

/-- The merges leave files with `P`. -/
def KeepsRoom (A : Path → Path → Prop) (P : (Path → Option File) → Prop) (o : Outside) : Prop :=
  ∀ t a (st : Store) child parent, MergeArgs.Into True false child parent a → A child parent →
    P st.files → P (st.write (o.merge t a st).2).files

/-- An offline merge is an overlay of what the images hold. -/
theorem MergesFiles.overlays (ho : MergesFiles loadCbt o) (hfit : Fitting A P)
    (hroom : KeepsRoom A P o) : Overlays content A P True false o := by
  intro t a st child parent hinto habove hne hchild hparent hgood
  obtain ⟨c, hc⟩ := Option.isSome_iff_exists.mp hchild
  obtain ⟨p, hp⟩ := Option.isSome_iff_exists.mp hparent
  have hfits := hfit st.files child parent c p hgood habove hc hp
  have hafter := hroom t a st child parent hinto habove hgood
  obtain ⟨r, x, hleaves, hmerge⟩ := ho t a st child parent c p hinto hc hp
  rw [hmerge, Store.write_update] at hafter ⊢
  have hx : ∀ clu, (st.put parent (some x)).held content parent clu = content x clu := by
    intro clu
    simp [Store.held, Store.put]
  have hheld : (∀ clu, st.held content child clu = content c clu) ∧
      ∀ clu, st.held content parent clu = content p clu := by
    constructor <;> intro clu <;> simp [Store.held, hc, hp]
  refine ⟨⟨fun q hq => ?_, fun clu => ?_, fun hr clu => ?_⟩, hafter⟩
  · funext clu
    simp [Store.held, Store.put, Function.update_of_ne hq]
  · rw [hx, hheld.1, hheld.2]
    exact hfits.covered hleaves clu
  · rw [hx, hheld.1, hheld.2]
    exact hfits.done hleaves hr clu

/-- A deletion or a merge of a disk that is not running, however it ends. -/
def OfflineStep (loadCbt : File → Option DirtyBitmap) (A : Path → Path → Prop)
    (P : (Path → Option File) → Prop) (May : Guid → Prop) (w w' : World) : Prop :=
  ∃ o, MergesFiles loadCbt o ∧ KeepsRoom A P o ∧ Removal May True o w w'

/-- Whatever is deleted and merged offline, and wherever it fails or the power goes, every other
snapshot stays, and its images hold the same disk. -/
theorem offline_removals_keep {w w' : World} (hw : IsTree w.conf)
    (hfiles : Present w.conf.files w.store) (hraw : w.conf.raw = false)
    (hoff : w.store.kernel = none) (htrans : ∀ {x y z}, A x y → A y z → A x z)
    (horder : Ordered A w.conf) (hfit : Fitting A P) (hgood : P w.store.files)
    (hP : ∀ (st : Store) p, P st.files → P (st.put p none).files)
    (hcongr : ∀ {g g'}, guidEq g g' = true → May g → May g')
    (htemp : ∀ s ∈ w.conf.snapshots, s.temporary = true → May s.guid)
    (h : Relation.ReflTransGen (OfflineStep loadCbt A P May) w w') :
    ∀ s ∈ w.conf.snapshots, ¬ May s.guid → (w'.conf.snapshotByGuid s.guid).isSome ∧
      ∀ clu, w'.conf.reads content w'.store s.guid clu =
        w.conf.reads content w.store s.guid clu := by
  have hstart : Sound (Intact content A P True May w.conf w.store) w :=
    ⟨hw, hfiles, hgood, fun _ => hoff, rfl, horder, htemp, fun _ hg _ => hg, fun _ _ _ _ => rfl⟩
  have hsteps : ∀ v v', OfflineStep loadCbt A P May v v' →
      RemovalStep content A P True w.conf.raw May v v' := by
    rintro v v' ⟨o, ho, hroom, hremoval⟩
    rw [hraw]
    exact ⟨o, ho.overlays hfit hroom, hremoval⟩
  have hend := sound_removals (A := A) (fun hxy hyz => htrans hxy hyz) hP hcongr hstart
    (Relation.ReflTransGen.mono hsteps _ _ h)
  exact hend.kept.stay

/-! ## The base of two images is deleted -/

def topImage : File := oneBlock .v1 2 0 9

def baseImage : File := oneBlock .v1 2 1 7

def mergedImage : File := (Ploop.mergeImage (fun _ => none) [topImage] (.ploop1 baseImage)).2.file

/-- The merge is the one of `merge_image` when the base is as long as at first. Later ones fail. -/
def mergingFiles : Outside :=
  { calm with
    merge := fun _ a s =>
      match s.files (a.names.getD 0 []), s.files (a.names.getD 1 []) with
      | some c, some p =>
          let r := if p.size = baseImage.size then
              ((Ploop.mergeImage (fun _ => none) [c] (.ploop1 p)).1,
                (Ploop.mergeImage (fun _ => none) [c] (.ploop1 p)).2.file)
            else (some .sys, p)
          (r.1, Function.update (fun _ => none) (a.names.getD 1 []) (some r.2))
      | _, _ => (some .sys, fun _ => none) }

theorem mergingFiles_merges : MergesFiles (fun _ => none) mergingFiles := by
  intro t a st child parent c p hinto hc hp
  by_cases hsize : p.size = baseImage.size
  · exact ⟨_, _, Or.inl ⟨rfl, rfl⟩, by simp [mergingFiles, hinto.names, hc, hp, hsize]⟩
  · refine ⟨some .sys, p, Or.inr ⟨Option.some_ne_none _, [], List.nil_prefix, ?_⟩, ?_⟩
    · exact crashImage_view []
    · simp [mergingFiles, hinto.names, hc, hp, hsize]

/-- Over the file of the base stand all others, which are the top image, and it holds the base
image or what it is merged into. -/
def TwoImages (files : Path → Option File) : Prop :=
  (∀ p, p ≠ ['r'] → files p = none ∨ files p = some topImage) ∧
    (files ['r'] = none ∨ files ['r'] = some baseImage ∨ files ['r'] = some mergedImage)

def OverBase (child parent : Path) : Prop := child ≠ ['r'] ∧ parent = ['r']

theorem mergingFiles_room : KeepsRoom OverBase TwoImages mergingFiles := by
  rintro t a st child parent hinto ⟨hchild, rfl⟩ ⟨htop, hbase⟩
  have hput : ∀ f, (f = baseImage ∨ f = mergedImage) → TwoImages (st.put ['r'] (some f)).files := by
    intro f hf
    refine ⟨fun p hp => ?_, Or.inr ?_⟩
    · simpa [Store.put, Function.update_of_ne hp] using htop p hp
    · simpa [Store.put] using hf
  have hgood : TwoImages st.files := ⟨htop, hbase⟩
  rcases htop child hchild with hc | hc
  · simpa [mergingFiles, hinto.names, hc, Store.write] using hgood
  · rcases hbase with hp | hp | hp
    · simpa [mergingFiles, hinto.names, hc, hp, Store.write] using hgood
    · have hfile : (mergingFiles.merge t a st).2 =
          Function.update (fun _ => none) ['r'] (some mergedImage) := by
        simp [mergingFiles, hinto.names, hc, hp, mergedImage]
      rw [hfile, Store.write_update]
      exact hput _ (Or.inr rfl)
    · have hlong : mergedImage.size ≠ baseImage.size := by decide +kernel
      have hfile : (mergingFiles.merge t a st).2 =
          Function.update (fun _ => none) ['r'] (some mergedImage) := by
        simp [mergingFiles, hinto.names, hc, hp, hlong]
      rw [hfile, Store.write_update]
      exact hput _ (Or.inr rfl)

theorem twoImages_fitting : Fitting OverBase TwoImages := by
  rintro files child parent c p ⟨htop, hbase⟩ ⟨hchild, rfl⟩ hc hp
  obtain rfl : c = topImage := by
    have hor := htop child hchild
    rw [hc] at hor
    simpa using hor
  have hstack : Stack .v1 64 [topImage, baseImage] :=
    oneBlock_stack (by norm_num) (by norm_num) (by norm_num) (by norm_num)
  have hsize : getSizeInSectors topImage.hdr = 128 := by decide +kernel
  have hwithin : ∀ clu, alignUp (getSizeInSectors topImage.hdr) baseImage.hdr.layout.blocksize
      / baseImage.hdr.layout.blocksize ≤ clu → content baseImage clu = none := by
    intro clu hclu
    refine content_beyond (le_trans ?_ hclu)
    decide +kernel
  rw [hp] at hbase
  rcases hbase with hno | hno | hno
  · exact absurd hno (Option.some_ne_none p)
  · obtain rfl := Option.some.inj hno
    exact ⟨⟨_, _, hstack⟩, hwithin, oneBlock_run.2⟩
  · obtain rfl := Option.some.inj hno
    have hspec : MergedInto topImage [] baseImage
        (Ploop.mergeImage (fun _ => none) [topImage] (.ploop1 baseImage)) :=
      mergeInPlace_spec hstack hwithin oneBlock_run.2
    obtain ⟨hwf, -⟩ := hspec.done oneBlock_run.1
    refine ⟨⟨.v1, 64, ⟨?_, ?_, ?_⟩⟩, fun clu hclu => content_beyond (le_trans ?_ hclu), ?_⟩
    · intro f hf
      rcases List.mem_pair.mp hf with rfl | rfl
      · exact hstack.wellFormed _ List.mem_cons_self
      · exact hwf
    · decide +kernel
    · decide +kernel
    · decide +kernel
    · refine ⟨by decide +kernel, ⟨by decide +kernel, fun _ => ⟨?_, fun _ => ?_⟩⟩,
        fun _ _ => ?_⟩ <;> decide +kernel

/-- Two snapshots of the two images. -/
def twoImages : World :=
  { twoFiles with
    store := ⟨fun p => if p = ['r'] then some baseImage else some topImage, none, false⟩ }

/-- The world after the base was deleted. -/
def baseDeleted : World := ending ((Call.delete lowGuid).run mergingFiles twoImages)

theorem baseDeleted_step : OfflineStep (fun _ => none) OverBase TwoImages
    (fun g => guidEq g lowGuid = true) twoImages baseDeleted := by
  have hgoes : Goes (fun g => guidEq g lowGuid = true) twoImages.conf lowGuid :=
    ⟨guidEq_refl _, fun htop => absurd htop (by decide)⟩
  exact ⟨mergingFiles, mergingFiles_merges, mergingFiles_room, .delete lowGuid, twoImages, hgoes,
    rfl, rfl, fun _ => rfl, rfl⟩

theorem twoImages_ordered : Ordered OverBase twoImages.conf := by
  have hall : ∀ e ∈ twoImages.conf.entries, ∀ q ∈ e.2, ∀ f ∈ twoImages.conf.findImageByGuid e.1,
      ∀ f' ∈ twoImages.conf.findImageByGuid q, f ≠ ['r'] ∧ f' = ['r'] := by
    decide +kernel
  exact fun k q f f' hk hf hf' => hall (k, some q) hk q rfl f hf f' hf'

theorem offline_removals_keep_top : baseDeleted.conf.snapshots.length = 1 ∧
    (baseDeleted.conf.snapshotByGuid topdeltaUuid).isSome ∧
    ∀ clu, baseDeleted.conf.reads content baseDeleted.store topdeltaUuid clu =
      twoImages.conf.reads content twoImages.store topdeltaUuid clu := by
  have htree : IsTree twoImages.conf := twoFiles_step.isTree (oneImage_isTree _ _ _ _)
  have hthere : ∀ f, (twoImages.store.files f).isSome := fun f => by
    unfold twoImages
    dsimp only
    split <;> rfl
  have hgood : TwoImages twoImages.store.files :=
    ⟨fun p hp => Or.inr (if_neg hp), Or.inr (Or.inl rfl)⟩
  have hP : ∀ (st : Store) p, TwoImages st.files → TwoImages (st.put p none).files := by
    rintro st p ⟨htop, hbase⟩
    have hput : ∀ q, (st.put p none).files q = none ∨ (st.put p none).files q = st.files q := by
      intro q
      by_cases heq : q = p
      · exact Or.inl (by simp [Store.put, heq])
      · exact Or.inr (by simp [Store.put, heq])
    refine ⟨fun q hq => ?_, ?_⟩
    · rcases hput q with hnone | hsame
      · exact Or.inl hnone
      · rw [hsame]
        exact htop q hq
    · rcases hput ['r'] with hnone | hsame
      · exact Or.inl hnone
      · rw [hsame]
        exact hbase
  refine ⟨by decide +kernel, ?_⟩
  exact offline_removals_keep htree ⟨by decide +kernel, fun f _ => hthere f⟩ rfl rfl
    (fun hxy hyz => absurd hxy.2 hyz.1) twoImages_ordered twoImages_fitting hgood hP
    (fun hgg hg => (guidEq_congr hgg (guidEq_refl _)).symm.trans hg) (by decide +kernel)
    (.single baseDeleted_step) ⟨topdeltaUuid, lowGuid, false, false⟩ (by decide +kernel) (by decide)

end Ploop.Dd
