import Ploop.Cbt.Moving
import Ploop.Image.MergeHeader
import Ploop.Image.MergeFormats

/-!
# The bitmap of a merged stack

`merge_image` calls `ploop_move_cbt` for the second of its images, which is the merged one
only if there are two and no new one.
-/

namespace Ploop.Cbt

open Storage Program

/-- `merge_image` without a device: the exit code, the sources and the merged image. -/
def mergeImage (md5 : List UInt8 → Sig) (heap : ℕ → UInt8) (ptr : ℕ → ℕ) (images : List File)
    (base : MergeBase) : Option Sysexit × List File × File :=
  match Ploop.mergeImage (fun _ => none) images base with
  | (some e, D) => (some e, images, D.file)
  | (none, D) =>
      match base, images with
      | .raw _, _ => (none, images, D.file)
      | .ploop1 _, [top] => (none, [top], (ploopMoveCbt md5 heap ptr D.file top).2)
      | _, top :: next :: rest =>
          (none, top :: (ploopMoveCbt md5 heap ptr next top).2 :: rest, D.file)
      -- the second image is NULL
      | _, _ => (none, images, D.file)

/-- The merged image has the bitmap of the top, and the sources are as they were. -/
def CarriesCbt (md5 : List UInt8 → Sig) (top : File) (images images' : List File) (merged : File) :
    Prop :=
  (∀ heap raw, LoadsCbt md5 heap top raw → ∀ heap', ∃ raw',
    LoadsCbt md5 heap' merged raw' ∧ SameCbt (blockSize top.hdr) raw raw') ∧ images' = images

/-- Two deltas are merged in place, and the size of the top is a whole number of clusters. -/
structure InPlacePair (top : File) (lower : List File) (base : MergeBase) : Prop where
  lower : lower = []
  base : base.deltas ≠ []
  sectors : getSizeInSectors top.hdr = top.hdr.mSizeInSectorsV2
  clusters : top.hdr.layout.blocksize ∣ getSizeInSectors top.hdr

section Merge

variable {md5 : List UInt8 → Sig} {heap : ℕ → UInt8} {ptr : ℕ → ℕ} {version : FmtVersion}
  {blocksize : ℕ} {top img : File} {lower images images' : List File} {base : MergeBase}
  {merged : File}

/-- The images before the bitmap is moved. -/
theorem mergeImage_none (h : mergeImage md5 heap ptr images base = (none, images', merged)) :
    ∃ D, Ploop.mergeImage (fun _ => none) images base = (none, D) ∧
      ((∃ img top, base = .ploop1 img ∧ images = [top] ∧ images' = [top] ∧
          merged = (ploopMoveCbt md5 heap ptr D.file top).2) ∨
        (base.isRaw ∨ base.deltas = [] ∨ images.length ≠ 1) ∧ merged = D.file) := by
  unfold mergeImage at h
  rcases hrun : Ploop.mergeImage (fun _ => none) images base with ⟨_ | e, D⟩
  · rw [hrun] at h
    refine ⟨D, rfl, ?_⟩
    cases base with
    | raw img =>
        obtain ⟨-, h⟩ := Prod.mk.inj h
        exact .inr ⟨.inl rfl, (Prod.mk.inj h).2.symm⟩
    | newImage =>
        refine .inr ⟨.inr (.inl rfl), ?_⟩
        rcases images with _ | ⟨top, _ | ⟨next, rest⟩⟩
        · exact (Prod.mk.inj (Prod.mk.inj h).2).2.symm
        · exact (Prod.mk.inj (Prod.mk.inj h).2).2.symm
        · exact (Prod.mk.inj (Prod.mk.inj h).2).2.symm
    | ploop1 img =>
        rcases images with _ | ⟨top, _ | ⟨next, rest⟩⟩
        · exact .inr ⟨.inr (.inr nofun), (Prod.mk.inj (Prod.mk.inj h).2).2.symm⟩
        · obtain ⟨himages, hmerged⟩ := Prod.mk.inj (Prod.mk.inj h).2
          exact .inl ⟨img, top, rfl, rfl, himages.symm, hmerged.symm⟩
        · exact .inr ⟨.inr (.inr (by simp)), (Prod.mk.inj (Prod.mk.inj h).2).2.symm⟩
  · rw [hrun] at h
    exact absurd (Prod.mk.inj h).1 nofun

/-- Without a bitmap the sources stay as they are. -/
theorem mergeImage_sources
    (h : mergeImage md5 heap ptr (top :: lower) base = (none, images', merged))
    (hnone : ∀ raw, ¬ LoadsCbt md5 heap top raw) : images' = top :: lower := by
  unfold mergeImage at h
  rcases hrun : Ploop.mergeImage (fun _ => none) (top :: lower) base with ⟨_ | e, D⟩
  · rw [hrun] at h
    rcases lower with _ | ⟨next, rest⟩
    · cases base <;> exact (Prod.mk.inj (Prod.mk.inj h).2).1.symm
    · have hsame : images' = top :: next :: rest ∨
          images' = top :: (ploopMoveCbt md5 heap ptr next top).2 :: rest := by
        cases base
        case raw => exact .inl (Prod.mk.inj (Prod.mk.inj h).2).1.symm
        all_goals exact .inr (Prod.mk.inj (Prod.mk.inj h).2).1.symm
      rwa [ploopMoveCbt_nothing hnone, or_self] at hsame
  · rw [hrun] at h
    exact absurd (Prod.mk.inj h).1 nofun

/-- What is known of a merged image before the bitmap is moved to it. -/
theorem merged_opens {D : Disk} (hs : Stack version blocksize ([top] ++ [img]))
    (haligned : sectorSize ∣ img.size) (hhi : img.size < 2 ^ 62)
    (h : Ploop.mergeImage (fun _ => none) [top] (.ploop1 img) = (none, D)) :
    (∃ d, openDelta D.file false = some d) ∧ blockSize D.file.hdr = blockSize top.hdr ∧
      sectorSize ∣ D.file.size ∧ D.file.size < 2 ^ 62 ∧
      (D.file.hdr.mSizeInSectorsV2 = top.hdr.mSizeInSectorsV2 ↔
        getSizeInSectors top.hdr = top.hdr.mSizeInSectorsV2 ∧
          blocksize ∣ getSizeInSectors top.hdr) := by
  obtain ⟨⟨flags, hhdr⟩, hsec, hlo, hlt⟩ := mergeInPlace_header hs haligned hhi h
  obtain ⟨d, ds, -, -, hsrc, -⟩ := mergeImage_ok h
  have htop := openSources_head hsrc
  have hbs : isValidBlocksize blocksize := by
    have hvalid := htop.blocksize
    rwa [htop.opened.blocksize, hs.blocksize top List.mem_cons_self] at hvalid
  have hversion : ploop1Version top.hdr = some version := by
    rw [htop.version, htop.opened.version, hs.version top List.mem_cons_self]
  have hsectors : D.file.hdr.mSectors.toNat = blocksize := by
    have hle := hbs.le
    rw [hhdr]
    change (UInt32.ofNat blocksize).toNat = blocksize
    rw [UInt32.toNat_ofNat']
    omega
  have hopen : ploop1Version D.file.hdr = some version := by
    refine ploop1Version_eq_some.mpr ?_
    rw [hhdr]
    cases version <;> rfl
  refine ⟨?_, ?_, hsec, hlt, ?_⟩
  · refine openDelta_of hopen ?_ (hsectors ▸ hbs) hlo fun hinuse => ?_
    · rw [hhdr]
      cases version <;> rfl
    · have hzero : D.file.hdr.mDiskInUse = 0 := by rw [hhdr]
      exact absurd (hzero.symm.trans hinuse) (by decide)
  · have hsame : top.hdr.mSectors.toNat = blocksize := hs.blocksize top List.mem_cons_self
    rw [blockSize, blockSize, hsectors, hsame]
  · rw [hhdr]
    exact grownHeader_mSize_iff hbs hversion

/-- A merge carries the bitmap of the top along exactly if there is none, or the two
images in place are of one size. -/
theorem mergeImage_carries_iff (hs : Stack version blocksize (top :: lower ++ base.deltas))
    (hsec : ∀ img ∈ base.deltas, sectorSize ∣ img.size ∧ img.size < 2 ^ 62)
    (hraw : base.isRaw = false)
    (h : mergeImage md5 heap ptr (top :: lower) base = (none, images', merged)) :
    CarriesCbt md5 top (top :: lower) images' merged ↔
      ((∃ heap' raw, LoadsCbt md5 heap' top raw) → InPlacePair top lower base) := by
  obtain ⟨D, hrun, hpair | ⟨hother, rfl⟩⟩ := mergeImage_none h
  · obtain ⟨img, t, rfl, hone, himages, rfl⟩ := hpair
    obtain ⟨rfl, rfl⟩ := List.cons.inj hone
    obtain ⟨haligned, hhi⟩ := hsec img List.mem_cons_self
    obtain ⟨⟨d, hdst⟩, hbs, hsecD, hltD, hsize⟩ := merged_opens hs haligned hhi hrun
    have hclosed := mergeImage_closed hraw hrun
    obtain ⟨e, es, -, -, hsrc, -⟩ := mergeImage_ok hrun
    have hopen := openDelta_allowDirty (openSources_open hsrc)
    have hblocks : top.hdr.layout.blocksize = blocksize := hs.blocksize top List.mem_cons_self
    constructor
    · rintro ⟨hcarry, -⟩ ⟨heap', raw', hload'⟩
      obtain ⟨raw, hload⟩ := hload'.any heap
      obtain ⟨raw'', hload'', hsame⟩ := hcarry heap raw hload heap
      have heq := ploopMoveCbt_mSize hopen hdst hclosed hbs hsecD hltD hload hload'' hsame.mSize
      obtain ⟨hsectors, hclusters⟩ := hsize.mp heq
      exact ⟨rfl, List.cons_ne_nil _ _, hsectors, hblocks ▸ hclusters⟩
    · refine fun hcond => ⟨fun heap' raw' hload' heap'' => ?_, himages⟩
      have hin := hcond ⟨heap', raw', hload'⟩
      obtain ⟨raw, hload⟩ := hload'.any heap
      obtain ⟨g, hmove, hloads⟩ := ploopMoveCbt_loads hopen hdst hclosed hbs hsecD hltD
        hload (hsize.mpr ⟨hin.sectors, hblocks ▸ hin.clusters⟩)
      obtain ⟨raw'', hload'', hsame⟩ := hloads heap''
      rw [hmove]
      refine ⟨raw'', hload'', (sameCbt_of_loads ?_ hload' hload).trans hsame⟩
      exact (blockSize_of_open (openSources_open hsrc)).1
  · have hclosed := mergeImage_closed hraw hrun
    constructor
    · rintro ⟨hcarry, -⟩ ⟨heap', raw', hload'⟩
      obtain ⟨raw'', hload'', -⟩ := hcarry heap' raw' hload' heap'
      exact absurd (hload''.closed.2.symm.trans hclosed) (by decide)
    · intro hcond
      have hnone : ¬ ∃ heap' raw, LoadsCbt md5 heap' top raw := by
        intro hloads
        have hin := hcond hloads
        rcases hother with hother | hother | hother
        · exact absurd hother (by rw [hraw]; exact Bool.false_ne_true)
        · exact absurd hother hin.base
        · rw [hin.lower] at hother
          exact absurd rfl hother
      have hnone' : ∀ heap' raw, ¬ LoadsCbt md5 heap' top raw :=
        fun heap' raw hload => hnone ⟨heap', raw, hload⟩
      exact ⟨fun heap' raw hload => absurd hload (hnone' heap' raw),
        mergeImage_sources h (hnone' heap)⟩

end Merge

/-! ## Images without a cluster -/

theorem formatted_image : Image (opened (formatted .v2 64)) := by
  have hbs : isValidBlocksize 64 := by decide
  have hhdr := (@formatted_blank .v2 64 hbs).hdr
  have hgen := @formatted_generated .v2 64 hbs
  have hsize := @formatted_size .v2 64 hbs
  have hlayout := @formatted_layout .v2 64 hbs
  constructor
  · rfl
  · exact (formatted_stack hbs).wellFormed _ List.mem_cons_self
  · change (formatted .v2 64).hdr.layout.l1Size * (formatted .v2 64).hdr.layout.cluster ≤
      (formatted .v2 64).size
    rw [hlayout, hsize]
    simp [Layout.cluster]
  · change getSizeInSectors (formatted .v2 64).hdr = (formatted .v2 64).hdr.mSizeInSectorsV2
    rw [hhdr, getSizeInSectors, hgen.version]
  · change sectorSize ∣ (formatted .v2 64).size
    rw [hsize]
    exact sector_dvd_s2b 64
  · change 2 * sectorSize ≤ (formatted .v2 64).size
    rw [hsize]
    norm_num [sectorSize, s2b]
  · change (formatted .v2 64).size < 2 ^ 62
    rw [hsize]
    norm_num [s2b]

/-- A checksum for the examples. -/
def anySum (_ : List UInt8) : Sig := (5, 6, 7, 8)

/-- An image without a cluster that has a bitmap. -/
theorem exists_vacant_loads : ∃ top, Vacant .v2 64 top ∧ WellFormed top ∧
    ∃ heap raw, LoadsCbt anySum heap top raw := by
  have hbs : isValidBlocksize 64 := by decide
  have h := formatted_image
  have hhdr : (opened (formatted .v2 64)).hdr0 =
      (generatePvdHeader PvdHeader.zero (2 ^ 17) 64 .v2).1 := (@formatted_blank .v2 64 hbs).hdr
  have hblocks : blockSize (opened (formatted .v2 64)).hdr0 = 32768 := by
    rw [hhdr, blockSize, (@formatted_generated .v2 64 hbs).sectors]
    rfl
  have hsectors : (opened (formatted .v2 64)).hdr0.mSizeInSectorsV2 = 2 ^ 17 := by
    have hgen := @formatted_generated .v2 64 hbs
    have hsize := hgen.sizeInSectors
    rw [getSizeInSectors, hgen.version] at hsize
    rw [hhdr]
    exact hsize
  have hentries : l1Entries wholeDevice (opened (formatted .v2 64)).hdr0 = 1 := by
    have hgran : wholeDevice.blksize / sectorSize = 8 := by norm_num [wholeDevice, sectorSize]
    rw [l1Entries, granules, hblocks, hsectors, hgran]
    norm_num
  have hroom : usedBytes (l1Entries wholeDevice (opened (formatted .v2 64)).hdr0) + elementBytes ≤
      blockSize (opened (formatted .v2 64)).hdr0 := by
    rw [hentries, hblocks]
    norm_num [usedBytes, checkBytes, elementBytes, rawBytes]
  obtain ⟨d', hsave, -, hloads⟩ := savesAndLoads anySum h (by omega) hroom .device fun _ => 0
  have hhi := save_size h _ _ hsave
  obtain ⟨hkept, ext, raw, j, he, -⟩ := save_extended _ (by simp) h hhi hsave
  have hvacant := @formatted_vacant .v2 64 hbs
  have hhdr' : d'.file.hdr = extHeader (formatted .v2 64).hdr ext := he.hdr
  have hvalid : d'.file.hdr.Valid := by
    rw [hhdr']
    exact ⟨hvacant.header.version, hvacant.header.type, hvacant.header.aligned,
      hvacant.header.layout⟩
  have hlayout : d'.file.hdr.layout = (formatted .v2 64).hdr.layout := by
    rw [hhdr']
    rfl
  have hsize := @formatted_size .v2 64 hbs
  have hfile : (opened (formatted .v2 64)).file = formatted .v2 64 := rfl
  rw [hfile] at hkept
  refine ⟨d'.file, ⟨hvalid, ?_, hlayout.trans hvacant.layout, ?_, hvacant.size.trans hkept.size,
    fun k hk hk' => ?_⟩, ?_, fun _ => 0, ?_⟩
  · have hne : signatureDiskClosedV21 ≠ signatureDiskInUse := by decide
    rw [hhdr']
    exact hne
  · rw [hhdr']
    exact hvacant.sectors
  · refine Eq.trans (bytesWord_congr fun t ht => hkept.byte _ ?_ ?_) (hvacant.empty k hk hk')
    · simp only [headerBytes, mapOffset] at *
      omega
    · rw [hsize]
      omega
  · exact hkept.wellFormed h.wellFormed h.index hvalid hlayout
  · obtain ⟨ctx, r, hload, hr, -⟩ := hloads (fun _ => 0) (opened d'.file) rfl rfl
    exact ⟨r, ctx, _, hload, hr⟩

theorem vacant_stack {fs : List File} (h : ∀ f ∈ fs, Vacant .v2 64 f ∧ WellFormed f) :
    Stack .v2 64 fs where
  wellFormed f hf := (h f hf).2
  version f hf := by rw [(h f hf).1.layout]
  blocksize f hf := by rw [(h f hf).1.layout]

theorem mergeImage_eq_none {images : List File} {base : MergeBase}
    (h : (Ploop.mergeImage (fun _ => none) images base).1 = none) (md5 : List UInt8 → Sig)
    (heap : ℕ → UInt8) (ptr : ℕ → ℕ) :
    ∃ images' merged, mergeImage md5 heap ptr images base = (none, images', merged) := by
  unfold mergeImage
  rcases hrun : Ploop.mergeImage (fun _ => none) images base with ⟨_ | e, D⟩
  · dsimp only
    split <;> exact ⟨_, _, rfl⟩
  · rw [hrun] at h
    exact absurd h nofun

/-- Two deltas in place. -/
theorem mergeImage_carries_pair : ∃ top images' merged,
    (∃ heap raw, LoadsCbt anySum heap top raw) ∧
      mergeImage anySum (fun _ => 0) (fun _ => 0) [top] (.ploop1 (formatted .v2 64)) =
        (none, images', merged) ∧ CarriesCbt anySum top [top] images' merged := by
  have hbs : isValidBlocksize 64 := by decide
  obtain ⟨top, hvacant, hwf, hloads⟩ := exists_vacant_loads
  have hbase := @formatted_vacant .v2 64 hbs
  have hbasewf := (@formatted_stack .v2 64 hbs).wellFormed _ List.mem_cons_self
  have hstack : Stack .v2 64 ([top] ++ (MergeBase.ploop1 (formatted .v2 64)).deltas) :=
    vacant_stack (List.forall_mem_cons.mpr
      ⟨⟨hvacant, hwf⟩, List.forall_mem_singleton.mpr ⟨hbase, hbasewf⟩⟩)
  obtain ⟨images', merged, hrun⟩ := mergeImage_eq_none
    (mergeImage_vacant hbs hbs (List.forall_mem_singleton.mpr hvacant)) anySum (fun _ => 0)
    fun _ => 0
  refine ⟨top, images', merged, hloads, hrun, (mergeImage_carries_iff hstack ?_ rfl hrun).mpr
    fun _ => ⟨rfl, List.cons_ne_nil _ _, ?_, ?_⟩⟩
  · refine List.forall_mem_singleton.mpr ?_
    rw [formatted_size hbs]
    exact ⟨sector_dvd_s2b 64, by norm_num [s2b]⟩
  · obtain ⟨version, hversion⟩ := Option.isSome_iff_exists.mp hvacant.header.version
    have hlayout := congrArg Layout.version hvacant.layout
    simp only [PvdHeader.layout, hversion, Option.getD_some] at hlayout
    rw [getSizeInSectors, hversion, hlayout]
  · rw [hvacant.layout, hvacant.sectors]
    norm_num

/-- Three deltas in place. -/
theorem mergeImage_not_carries : ¬ ∀ (md5 : List UInt8 → Sig) (heap : ℕ → UInt8) (ptr : ℕ → ℕ)
    (version : FmtVersion) (blocksize : ℕ) (top : File) (lower images' : List File)
    (base : MergeBase) (merged : File),
    Stack version blocksize (top :: lower ++ base.deltas) → base.isRaw = false →
    (∀ img ∈ base.deltas, sectorSize ∣ img.size ∧ img.size < 2 ^ 62) →
    mergeImage md5 heap ptr (top :: lower) base = (none, images', merged) →
    CarriesCbt md5 top (top :: lower) images' merged := by
  intro hall
  have hbs : isValidBlocksize 64 := by decide
  obtain ⟨top, hvacant, hwf, hloads⟩ := exists_vacant_loads
  have hbase := @formatted_vacant .v2 64 hbs
  have hbasewf := (@formatted_stack .v2 64 hbs).wellFormed _ List.mem_cons_self
  have hvacants : ∀ f ∈ [top, formatted .v2 64], Vacant .v2 64 f :=
    List.forall_mem_cons.mpr ⟨hvacant, List.forall_mem_singleton.mpr hbase⟩
  obtain ⟨images', merged, hrun⟩ := mergeImage_eq_none (mergeImage_vacant hbs hbs hvacants) anySum
    (fun _ => 0) fun _ => 0
  have hstack : Stack .v2 64 (top :: [formatted .v2 64] ++
      (MergeBase.ploop1 (formatted .v2 64)).deltas) := by
    refine vacant_stack (List.forall_mem_cons.mpr ⟨⟨hvacant, hwf⟩, List.forall_mem_cons.mpr
      ⟨⟨hbase, hbasewf⟩, List.forall_mem_singleton.mpr ⟨hbase, hbasewf⟩⟩⟩)
  have hcarry := hall _ _ _ _ _ _ _ _ _ _ hstack rfl (List.forall_mem_singleton.mpr (by
    rw [formatted_size hbs]
    exact ⟨sector_dvd_s2b 64, by norm_num [s2b]⟩)) hrun
  obtain ⟨D, hmerge, hpair | ⟨-, rfl⟩⟩ := mergeImage_none hrun
  · obtain ⟨img, t, -, hone, -⟩ := hpair
    exact absurd (List.cons.inj hone).2 (List.cons_ne_nil _ _)
  · obtain ⟨heap, raw, hload⟩ := hloads
    obtain ⟨raw', hload', -⟩ := hcarry.1 heap raw hload heap
    exact absurd (hload'.closed.2.symm.trans (mergeImage_closed rfl hmerge)) (by decide)

end Ploop.Cbt
