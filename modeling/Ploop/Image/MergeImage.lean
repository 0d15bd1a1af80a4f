import Ploop.Image.MergeCbt

/-!
# `merge_image` without a device

Where the sums and entries stay within 32 bits the destination reads what the
stack read; in place, a power failure at any moment loses nothing as long as
the base has no cluster beyond the disk of the top.
-/

namespace Ploop

open Storage Indirection Program

/-- What the loop finds for the clusters of the top. -/
def found (top : File) (lower : List File) : VDisk := fun clu =>
  if clu < top.hdr.layout.l2Size then lookup (top :: lower) clu else none

/-- The deltas and the disks below the sources. -/
def MergeBase.deltas : MergeBase → List File
  | .ploop1 img => [img]
  | .raw _ => []
  | .newImage => []

def MergeBase.bottom (cluster : ℕ) : MergeBase → List VDisk
  | .ploop1 img => [content img]
  | .raw img => [rawContent cluster img]
  | .newImage => []

/-- How an image of the format of the destination reads. -/
def MergeBase.view (cluster : ℕ) (g : File) : MergeBase → VDisk
  | .ploop1 _ => content g
  | .raw _ => rawContent cluster g
  | .newImage => content g

/-- The result holds the stack, down to the last whole cluster of the top. -/
structure Merged (top : File) (lower : List File) (base : MergeBase) (g : File) : Prop where
  reads : ∀ clu < top.hdr.layout.l2Size, base.view top.hdr.layout.cluster g clu
    = overlay ((top :: lower).map content ++ base.bottom top.hdr.layout.cluster) clu
  wellFormed : base.isRaw = false → WellFormed g
  reach : ∀ img, base = .raw img → sectorSize ∣ img.size →
    top.hdr.layout.l2Size * top.hdr.layout.cluster ≤ g.size

/-- The destination can take the disk of the top. -/
def MergeFits (top : File) (lower : List File) : MergeBase → Prop
  | .ploop1 img =>
      BaseFits img (alignUp (getSizeInSectors top.hdr) img.hdr.layout.blocksize) (found top lower)
  | .raw _ => True
  | .newImage => IndexFits (getSizeInSectors top.hdr) top.hdr.layout.blocksize

/-- Whatever a power failure leaves of the base, the sources over it read as
before, and its table names durable data only. -/
def MergeSurvivesCrash (loadCbt : File → Option DirtyBitmap) (fs : List File) (img : File) : Prop :=
  ∀ p, p <+: (mergeImage loadCbt fs (.ploop1 img)).2.log → ∀ x, CrashImage File.pwrite img p x →
    stackContent (fs ++ [x]) = stackContent (fs ++ [img]) ∧
      live (x.hdr.layout.bat x) ⊆ Backed img.hdr.layout.cluster (live (img.hdr.layout.bat img)) p

section Body

variable {version : FmtVersion} {blocksize : ℕ} {top : File} {lower : List File}
  {ds : List Delta} {d : Delta} {raw : Bool} {F : ℕ → Delta → Prop} {E : Delta → Prop}
  {Q : Delta → Prop}

theorem mergeBody_spec (hs : Stack version blocksize (top :: lower))
    (hds : List.Forall₂ SourceOf (top :: lower) ds)
    (hd : Destination raw blocksize version top.hdr.layout.l2Size (found top lower) F E)
    (hend : ∀ d, F top.hdr.layout.l2Size d →
      Triple (fun s => s = d) (if raw then (do fsync; fsync) else finishMerge (s2b blocksize))
        (fun _ => Q) E)
    (hF : F 0 d) :
    Triple (fun s => s = ⟨ds, d⟩) (mergeBody raw blocksize version top.hdr.layout.l2Size)
      (fun _ s => Q s.odelta) (fun s => E s.odelta) := by
  have hO : ∀ clu < top.hdr.layout.l2Size, found top lower clu = lookup (top :: lower) clu :=
    fun clu hclu => if_pos hclu
  refine Triple.bind ((mergeLoop_spec hs hd hO).conseq ?_ (fun _ _ h => h) fun _ h => h) fun _ => ?_
  · rintro s rfl
    exact ⟨hds, hF⟩
  · refine Triple.start fun s hs' => ?_
    refine (onOutput_spec (Triple.start fun e he => hend e he) s.deltaArr).conseq ?_
      (fun _ _ h => h.2) fun _ h => h
    rintro s' rfl
    exact ⟨rfl, hs'⟩

/-- The loop changes what the stack covers, and that to what the stack reads. -/
theorem overlay_of_mask {R₀ R : VDisk} (hR : R ∈ Mask (found top lower) R₀) :
    overlay ((top :: lower).map content ++ [R]) = overlay ((top :: lower).map content ++ [R₀]) := by
  funext clu
  refine overlay_bottom_congr fun hnone => hR clu ?_
  cases hf : found top lower clu with
  | none => rfl
  | some v =>
      unfold found at hf
      split at hf
      · exact absurd ((stackContent_of_lookup hf).symm.trans hnone) (Option.some_ne_none v)
      · exact absurd hf (Option.some_ne_none v).symm

theorem progress_eq_overlay (hs : Stack version blocksize (top :: lower))
    (hm : Monotonic (top :: lower)) (R₀ : VDisk) {clu : ℕ} (hclu : clu < top.hdr.layout.l2Size) :
    progress (found top lower) R₀ top.hdr.layout.l2Size clu
      = overlay ((top :: lower).map content ++ [R₀]) clu := by
  have hfound : found top lower clu = overlay ((top :: lower).map content) clu := by
    unfold found
    rw [if_pos hclu]
    exact lookup_eq hs hm
  rw [overlay_append_single, ← hfound, progress]
  cases hf : found top lower clu with
  | none => simp
  | some v => simp [hclu]

end Body

/-! ## In place -/

section InPlace

variable {version : FmtVersion} {blocksize : ℕ} {top img : File} {lower : List File}
  {loadCbt : File → Option DirtyBitmap}

/-- The merge into a base, once everything is open. -/
theorem mergeInto_spec (hs : Stack version blocksize (top :: lower)) (himg : WellFormed img)
    (hversion : img.hdr.layout.version = version)
    (hblocksize : img.hdr.layout.blocksize = blocksize)
    (hkeep : ∀ clu, alignUp (getSizeInSectors top.hdr) img.hdr.layout.blocksize
      / img.hdr.layout.blocksize ≤ clu → content img clu = none)
    (hfit : MergeFits top lower (.ploop1 img)) {ds : List Delta}
    (hds : List.Forall₂ SourceOf (top :: lower) ds) {d e : Delta}
    (hopen : openDelta img false = some d)
    (hgrow : growBase (getSizeInSectors top.hdr) d = .ok () e) :
    ∃ L : Layout, L.cluster = img.hdr.layout.cluster ∧ L.l1Size * L.cluster ≤ e.file.size ∧
      Triple (fun s => s = ⟨ds, e⟩) (mergeBody false blocksize version top.hdr.layout.l2Size)
        (fun _ s => Finished L (found top lower) (content img) (live (img.hdr.layout.bat img))
          top.hdr.layout.l2Size s.odelta.disk)
        (fun s => Unharmed L (found top lower) (content img) (live (img.hdr.layout.bat img))
          s.odelta) := by
  obtain ⟨Ls, B, hfilled, hsize⟩ := (growBase_spec hopen himg hkeep hfit).ok rfl hgrow
  have hle : top.hdr.layout.l2Size ≤ (newLayout img.hdr.layout.version img.hdr.layout.blocksize
      (alignUp (getSizeInSectors top.hdr) img.hdr.layout.blocksize)).l2Size := by
    rw [hblocksize, ← hs.blocksize top List.mem_cons_self]
    exact Nat.div_le_div_right
      (le_alignUp (hs.wellFormed top List.mem_cons_self).header.layout.pos)
  have hdest : Destination false _ _ _ (found top lower) (Filled Ls _ B (found top lower)
      (content img) (live (img.hdr.layout.bat img))) _ := Filled.destination hle
  have hbs : ∀ size, (newLayout img.hdr.layout.version img.hdr.layout.blocksize size).blocksize
      = blocksize := fun _ => hblocksize
  have hv : ∀ size, (newLayout img.hdr.layout.version img.hdr.layout.blocksize size).version
      = version := fun _ => hversion
  rw [hbs, hv] at hdest
  exact ⟨newLayout img.hdr.layout.version img.hdr.layout.blocksize
    (alignUp (getSizeInSectors top.hdr) img.hdr.layout.blocksize), rfl, hsize,
    mergeBody_spec hs hds hdest (fun d hd => finishMerge_spec hd (congrArg s2b hblocksize))
      hfilled⟩

/-- What holds of the base and its log when a merge into it ends. -/
structure MergedInto (top : File) (lower : List File) (img : File) (r : Option Sysexit × Disk) :
    Prop where
  safe : r.2.Safe (Sound (Mask (found top lower) (content img)) img.hdr.layout.cluster
    (live (img.hdr.layout.bat img)))
  done : r.1 = none → WellFormed r.2.file ∧
    content r.2.file = progress (found top lower) (content img) top.hdr.layout.l2Size

theorem MergedInto.failed {e : Sysexit} {D : Disk} (h : D.Safe (Sound (Mask (found top lower)
    (content img)) img.hdr.layout.cluster (live (img.hdr.layout.bat img)))) :
    MergedInto top lower img (some e, D) :=
  ⟨h, fun hnone => absurd hnone (Option.some_ne_none e)⟩

theorem mergeInPlace_spec (hs : Stack version blocksize (top :: lower ++ [img]))
    (hkeep : ∀ clu, alignUp (getSizeInSectors top.hdr) img.hdr.layout.blocksize
      / img.hdr.layout.blocksize ≤ clu → content img clu = none)
    (hfit : MergeFits top lower (.ploop1 img)) :
    MergedInto top lower img (mergeImage loadCbt (top :: lower) (.ploop1 img)) := by
  have himg : WellFormed img := hs.wellFormed img (by simp)
  have hversion := hs.version img (by simp)
  have hblocksize := hs.blocksize img (by simp)
  have hs' : Stack version blocksize (top :: lower) := hs.append_left
  have hstart : (Disk.new img).Safe (Sound (Mask (found top lower) (content img))
      img.hdr.layout.cluster (live (img.hdr.layout.bat img))) :=
    Disk.safe_new ⟨_, rfl, ((Held.of_wellFormed himg).mono fun b hb => Or.inl hb).widen Mask.base⟩
  rcases mergeImage_cases loadCbt (top :: lower) (.ploop1 img) with
    ⟨e, hrun⟩ | ⟨t, ds, hsrc, hout⟩
  · exact hrun ▸ MergedInto.failed hstart
  have hds := openSources_spec hsrc
  have ht := openSources_head hsrc
  simp only [openOutput, ht.hdr0] at hout
  cases hopen : openDelta img false with
  | none =>
      rw [hopen] at hout
      rcases hout with ⟨e, D, hout, hrun⟩ | ⟨d, D, hout, hrun⟩
      · obtain rfl := (Prod.mk.inj hout).2
        exact hrun ▸ MergedInto.failed hstart
      · exact absurd (Prod.mk.inj hout).1 (by simp)
  | some d =>
      have hbase := growBase_spec hopen himg hkeep hfit d rfl
      rw [hopen] at hout
      simp only at hout
      cases hgrow : growBase (getSizeInSectors top.hdr) d with
      | error er s =>
          rw [hgrow] at hout hbase
          rcases hout with ⟨e, D, hout, hrun⟩ | ⟨d, D, hout, hrun⟩
          · obtain rfl := (Prod.mk.inj hout).2
            exact hrun ▸ MergedInto.failed hbase
          · exact absurd (Prod.mk.inj hout).1 (by simp)
      | ok a s =>
          rw [hgrow] at hout
          rcases hout with ⟨e, D, hout, hrun⟩ | ⟨d', D, hout, hrun⟩
          · exact absurd (Prod.mk.inj hout).1 (by simp)
          obtain rfl := Except.ok.inj (Prod.mk.inj hout).1
          obtain ⟨L, hcluster, hsize, hbody⟩ :=
            mergeInto_spec hs' himg hversion hblocksize hkeep hfit hds hopen hgrow
          have hbs : t.blocksize = blocksize :=
            ht.opened.blocksize.trans (hs'.blocksize top List.mem_cons_self)
          have hv : t.version = version :=
            ht.opened.version.trans (hs'.version top List.mem_cons_self)
          have hspec := hbody _ rfl
          rw [hrun, mergeOpened, hbs, hv, ht.opened.l2Size]
          unfold Unharmed at hspec
          rw [hcluster] at hspec
          simp only [MergeBase.isRaw]
          cases hb : mergeBody false blocksize version top.hdr.layout.l2Size ⟨t :: ds, s⟩ with
          | error er s' =>
              rw [hb] at hspec
              exact MergedInto.failed hspec
          | ok b s' =>
              rw [hb] at hspec
              have hext : s.disk.Extends s'.odelta.disk := (mergeBody_keeps _ _ _ _).ok hb
              have hfin : Finished L (found top lower) (content img)
                (live (img.hdr.layout.bat img)) top.hdr.layout.l2Size s'.odelta.disk := hspec
              cases lower with
              | nil =>
                  obtain ⟨h₁, h₂, h₃⟩ := hfin.moveCbt (hsize.trans hext.size_le) loadCbt top
                  exact ⟨hcluster ▸ h₁, fun _ => ⟨h₂, h₃⟩⟩
              | cons f fs =>
                  exact ⟨hcluster ▸ hfin.safe, fun _ => ⟨hfin.file.wellFormed, hfin.content_eq⟩⟩

/-- The run starts from the base. -/
theorem mergeInPlace_init {fs : List File} :
    (mergeImage loadCbt fs (.ploop1 img)).2.init = img := by
  rcases mergeImage_cases loadCbt fs (.ploop1 img) with ⟨e, hrun⟩ | ⟨t, ds, -, hout⟩
  · rw [hrun]
    rfl
  simp only [openOutput] at hout
  cases hopen : openDelta img false with
  | none =>
      rw [hopen] at hout
      rcases hout with ⟨e, D, hout, hrun⟩ | ⟨d, D, hout, hrun⟩
      · obtain rfl := (Prod.mk.inj hout).2
        rw [hrun]
        rfl
      · exact absurd (Prod.mk.inj hout).1 (by simp)
  | some d =>
      have hinit : d.disk.init = img := by
        rw [(openDelta_spec hopen).disk]
        rfl
      rw [hopen] at hout
      simp only at hout
      cases hgrow : growBase (getSizeInSectors t.hdr0) d with
      | error er s =>
          have hext := (Appends.growBase _).err hgrow
          rw [hgrow] at hout
          rcases hout with ⟨e, D, hout, hrun⟩ | ⟨d, D, hout, hrun⟩
          · obtain rfl := (Prod.mk.inj hout).2
            rw [hrun]
            exact hext.1.trans hinit
          · exact absurd (Prod.mk.inj hout).1 (by simp)
      | ok a s =>
          have hext := (Appends.growBase _).ok hgrow
          rw [hgrow] at hout
          rcases hout with ⟨e, D, hout, hrun⟩ | ⟨d', D, hout, hrun⟩
          · exact absurd (Prod.mk.inj hout).1 (by simp)
          obtain rfl := Except.ok.inj (Prod.mk.inj hout).1
          rw [hrun, mergeOpened]
          cases hb : mergeBody (MergeBase.ploop1 img).isRaw t.blocksize t.version t.l2Size
              ⟨t :: ds, s⟩ with
          | error er s' =>
              have hext' : s.disk.Extends s'.odelta.disk := (mergeBody_keeps _ _ _ _).err hb
              exact hext'.1.trans (hext.1.trans hinit)
          | ok b s' =>
              have hext' : s.disk.Extends s'.odelta.disk := (mergeBody_keeps _ _ _ _).ok hb
              exact (afterMerge_extends _ _ _ _).1.trans (hext'.1.trans (hext.1.trans hinit))

end InPlace

/-! ## Raw images and new images -/

section Other

variable {version : FmtVersion} {blocksize size : ℕ} {top img : File} {lower : List File}
  {loadCbt : File → Option DirtyBitmap}

theorem growRawBase_spec {cluster : ℕ} {d : Delta} (hd : d.file = img) {E : Delta → Prop} :
    Triple (fun s => s = d) (growRawBase size)
      (fun _ s => rawContent cluster s.file = rawContent cluster img ∧
        (sectorSize ∣ img.size → size * sectorSize ≤ s.file.size)) E := by
  refine Triple.look fun s hs => ?_
  subst hs
  simp only [hd]
  split
  · refine (@growRawDelta_spec cluster s _ E).conseq (fun _ h => h) ?_ fun _ h => h
    rintro _ s' ⟨h₁, h₂⟩
    rw [hd] at h₁ h₂
    refine ⟨h₁, fun hdvd => ?_⟩
    simp only [sectorSize, s2b] at *
    omega
  · refine Triple.ret fun s' hs' => ?_
    subst hs'
    rw [hd]
    refine ⟨rfl, fun hdvd => ?_⟩
    simp only [sectorSize] at *
    omega

/-- The size in a header fits the fields of a header if its index does. -/
theorem representable_size {vh : PvdHeader} (hv : ploop1Version vh = some version)
    (hbs : isValidBlocksize blocksize) (hfit : IndexFits (getSizeInSectors vh) blocksize) :
    Representable version blocksize (getSizeInSectors vh) := by
  have hle := hbs.le
  have hpos := hbs.pos
  have hlt : headerBytes + 4 * (getSizeInSectors vh / blocksize) < 2 ^ 32 :=
    lt_of_le_of_lt (le_alignUp (by simp only [s2b]; omega)) hfit
  cases version with
  | v1 =>
      have h := vh.mSizeInSectorsV1.toNat_lt
      simp only [Representable, getSizeInSectors, hv]
      exact h
  | v2 =>
      have hmod := Nat.mod_lt (getSizeInSectors vh) hpos
      have hdm := Nat.div_add_mod' (getSizeInSectors vh) blocksize
      have hmul : getSizeInSectors vh / blocksize * blocksize ≤ 2 ^ 30 * 2 ^ 17 :=
        Nat.mul_le_mul (by simp only [headerBytes] at hlt; omega) (by omega)
      refine ⟨by omega, ?_⟩
      simp only [headerBytes] at hlt
      omega

theorem growRawBase_filled {cluster : ℕ} {O : VDisk} {d : Delta}
    (h : growRawBase size (openDeltaSimple img) = .ok () d) :
    RawFilled cluster O (rawContent cluster img) d.file.size 0 d ∧
      (sectorSize ∣ img.size → size * sectorSize ≤ d.file.size) := by
  have hspec := (@growRawBase_spec size img cluster (openDeltaSimple img) rfl
    (fun _ => True)).ok rfl h
  exact ⟨⟨le_rfl, hspec.1.trans progress_zero.symm⟩, hspec.2⟩

/-- The two barriers at the end of a merge into a raw image. -/
theorem fsync_twice_spec {P : Delta → Prop} (hP : ∀ d, P d → P d.sync) {d : Delta} (hd : P d)
    {E : Delta → Prop} :
    Triple (fun s => s = d) (do fsync; fsync) (fun _ => P) E := by
  refine Triple.step (Triple.update fun s hs => ?_)
  subst hs
  exact hP _ (hP d hd)

theorem mergeRaw_spec {D : Disk} (hs : Stack version blocksize (top :: lower))
    (hm : Monotonic (top :: lower))
    (h : mergeImage loadCbt (top :: lower) (.raw img) = (none, D)) :
    Merged top lower (.raw img) D.file := by
  obtain ⟨t, ds, d, s, hsrc, hout, hbody, rfl⟩ := mergeImage_ok h
  have hds := openSources_spec hsrc
  have ht := openSources_head hsrc
  have hbs : t.blocksize = blocksize :=
    ht.opened.blocksize.trans (hs.blocksize top List.mem_cons_self)
  have hv : t.version = version := ht.opened.version.trans (hs.version top List.mem_cons_self)
  have hcluster : top.hdr.layout.cluster = s2b blocksize := by
    rw [← hs.blocksize top List.mem_cons_self]
    rfl
  rw [ht.hdr0] at hout
  obtain ⟨hfilled, hreach⟩ := @growRawBase_filled _ _ (s2b blocksize) (found top lower) _
    (outcome_ok hout)
  rw [hbs, hv, ht.opened.l2Size] at hbody
  have hdone : RawFilled (s2b blocksize) (found top lower) (rawContent (s2b blocksize) img)
      d.file.size top.hdr.layout.l2Size s.odelta :=
    (mergeBody_spec hs hds RawFilled.destination (fun e he => fsync_twice_spec
      (fun e' he' => ⟨by rw [Delta.file_sync]; exact he'.size,
        by rw [Delta.file_sync]; exact he'.reads⟩) he) hfilled).ok rfl hbody
  refine ⟨fun clu hclu => ?_, fun hraw => absurd hraw (by simp [MergeBase.isRaw]), ?_⟩
  · rw [hcluster]
    exact (congrFun hdone.reads clu).trans (progress_eq_overlay hs hm _ hclu)
  · rintro _ ⟨⟩ hdvd
    refine le_trans ?_ ((hreach hdvd).trans hdone.size)
    rw [hcluster, s2b, ← mul_assoc, ← hs.blocksize top List.mem_cons_self]
    exact Nat.mul_le_mul_right _ (Nat.div_mul_le_self _ _)

theorem mergeNew_spec {D : Disk} (hs : Stack version blocksize (top :: lower))
    (hm : Monotonic (top :: lower)) (hfit : MergeFits top lower .newImage)
    (h : mergeImage loadCbt (top :: lower) .newImage = (none, D)) :
    Merged top lower .newImage D.file := by
  obtain ⟨t, ds, d, s, hsrc, hout, hbody, rfl⟩ := mergeImage_ok h
  have hds := openSources_spec hsrc
  have ht := openSources_head hsrc
  have htop := hs.wellFormed top List.mem_cons_self
  have hbs : t.blocksize = blocksize :=
    ht.opened.blocksize.trans (hs.blocksize top List.mem_cons_self)
  have hv : t.version = version := ht.opened.version.trans (hs.version top List.mem_cons_self)
  have hvalid : isValidBlocksize blocksize := hbs ▸ ht.blocksize
  have hfit' : IndexFits (getSizeInSectors top.hdr) blocksize :=
    hs.blocksize top List.mem_cons_self ▸ hfit
  have hr := representable_size (hv ▸ ht.version) hvalid hfit'
  rw [ht.hdr0, hbs, hv] at hout
  rw [hbs, hv, ht.opened.l2Size] at hbody
  simp only [openOutput] at hout
  cases hcreate : createImage blocksize (getSizeInSectors top.hdr) version with
  | error e =>
      rw [hcreate] at hout
      exact absurd hout (by simp)
  | ok D₀ =>
      rw [hcreate] at hout
      simp only at hout
      cases hopen : openDelta D₀.file false with
      | none =>
          rw [hopen] at hout
          exact absurd hout (by simp)
      | some e =>
          rw [hopen] at hout
          obtain ⟨Ls, B, S₀, hfilled⟩ := (@newOutput_spec _ _ _ _ _ (found top lower) hvalid hr
            hfit' hcreate hopen (fun _ => True)).ok rfl (outcome_ok hout)
          have hle : top.hdr.layout.l2Size
              ≤ (newLayout version blocksize (getSizeInSectors top.hdr)).l2Size := by
            rw [← hs.blocksize top List.mem_cons_self]
            exact le_rfl
          have hdone := (mergeBody_spec hs hds (Filled.destination hle)
            (fun d hd => finishMerge_spec hd rfl) hfilled).ok rfl hbody
          refine ⟨fun clu hclu => ?_, fun _ => hdone.file.wellFormed, fun _ himg => absurd himg ?_⟩
          · refine (congrFun hdone.content_eq clu).trans
              ((progress_eq_overlay hs hm _ hclu).trans ?_)
            rw [overlay_append_single]
            simp [MergeBase.bottom]
          · exact MergeBase.noConfusion

end Other

end Ploop
