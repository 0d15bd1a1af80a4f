import Ploop.Image.GrowSpec

/-!
# `ploop_grow_delta_offline`

Where the sums of `generate_pvd_header` and the entries of moved blocks stay
within 32 bits, growing keeps the disk at every moment of the run.
-/

namespace Ploop

open Storage Indirection Program

/-! ## Opening -/

section Open

variable {f : File} {dirty : Bool} {d : Delta}

structure OpenedAt (f : File) (d : Delta) : Prop where
  disk : d.disk = Disk.new f
  hdr0 : d.hdr0 = f.hdr
  opened : Opened f.hdr.layout d
  head : d.allocHead = UInt32.ofNat (f.size / f.hdr.layout.cluster)
  cache : d.l2Cache = none
  version : ploop1Version f.hdr = some d.version
  blocksize : isValidBlocksize d.blocksize

theorem openDelta_spec (h : openDelta f dirty = some d) : OpenedAt f d := by
  unfold openDelta at h
  simp only [Option.bind_eq_bind, Option.bind_eq_some_iff] at h
  obtain ⟨buf, hbuf, version, hversion, h⟩ := h
  obtain ⟨-, rfl⟩ := File.pread_eq_some.mp hbuf
  have hhdr : PvdHeader.ofWords (bytesWord fun i => f.byte (0 + i)) = f.hdr := by
    simp only [Nat.zero_add]
    rfl
  rw [hhdr] at h hversion
  by_cases hbad : f.hdr.mType ≠ prlImageCompressed ∨ ¬ isValidBlocksize f.hdr.mSectors.toNat
  · rw [if_pos hbad] at h
    exact absurd h (Option.some_ne_none d).symm
  rw [if_neg hbad] at h
  by_cases hinuse : f.hdr.mDiskInUse = signatureDiskInUse ∧ ¬ dirty
  · rw [if_pos hinuse] at h
    exact absurd h (Option.some_ne_none d).symm
  rw [if_neg hinuse] at h
  obtain rfl := Option.some.inj h
  push Not at hbad
  have hle := hbad.2.le
  have hcluster : u32 (f.hdr.mSectors.toNat * sectorSize) = f.hdr.layout.cluster :=
    u32_of_lt (by simp only [sectorSize]; omega)
  refine ⟨rfl, rfl, ⟨?_, rfl, rfl, rfl, Bool.false_ne_true, ?_, ?_⟩, ?_, rfl, hversion, hbad.2⟩
  · simp [PvdHeader.layout, hversion]
  · exact fun p hp => absurd hp (Option.some_ne_none p).symm
  · exact fun p hp => absurd hp (Option.some_ne_none p).symm
  · exact congrArg (fun c => UInt32.ofNat (f.size / c)) hcluster

theorem openDelta_size (h : openDelta f dirty = some d) : 4096 ≤ f.size := by
  unfold openDelta at h
  simp only [Option.bind_eq_bind, Option.bind_eq_some_iff] at h
  obtain ⟨buf, hbuf, -⟩ := h
  have hend := (File.pread_eq_some.mp hbuf).1
  rwa [Nat.zero_add] at hend

/-- What is looked at when an image is opened. -/
theorem openDelta_of {version : FmtVersion} (hversion : ploop1Version f.hdr = some version)
    (htype : f.hdr.mType = prlImageCompressed) (hbs : isValidBlocksize f.hdr.mSectors.toNat)
    (hsize : 4096 ≤ f.size) (hclosed : f.hdr.mDiskInUse = signatureDiskInUse → dirty = true) :
    ∃ d, openDelta f dirty = some d := by
  have hread : f.pread 4096 0 = some fun i => f.byte (0 + i) := if_pos (by omega)
  have hwords : PvdHeader.ofWords (bytesWord fun i => f.byte (0 + i)) = f.hdr := by
    simp only [Nat.zero_add]
    rfl
  have hgood : ¬ (f.hdr.mType ≠ prlImageCompressed ∨ ¬ isValidBlocksize f.hdr.mSectors.toNat) :=
    not_or.mpr ⟨not_not.mpr htype, not_not.mpr hbs⟩
  have hopen : ¬ (f.hdr.mDiskInUse = signatureDiskInUse ∧ ¬ dirty = true) :=
    fun h => h.2 (hclosed h.1)
  unfold openDelta
  rw [hread]
  simp only [Option.bind_eq_bind, Option.bind_some, hwords, hversion]
  rw [if_neg hgood, if_neg hopen]
  exact ⟨_, rfl⟩

theorem openDelta_allowDirty (h : openDelta f false = some d) : ∃ e, openDelta f true = some e := by
  have hsize := openDelta_size h
  have hat := openDelta_spec h
  unfold openDelta at h
  simp only [Option.bind_eq_bind, Option.bind_eq_some_iff] at h
  obtain ⟨buf, hbuf, version, -, h⟩ := h
  obtain ⟨-, rfl⟩ := File.pread_eq_some.mp hbuf
  have hhdr : PvdHeader.ofWords (bytesWord fun i => f.byte (0 + i)) = f.hdr := by
    simp only [Nat.zero_add]
    rfl
  rw [hhdr] at h
  split at h
  · exact absurd h nofun
  · rename_i hgood
    push Not at hgood
    exact openDelta_of hat.version hgood.1 hgood.2 hsize fun _ => rfl

/-- A valid header opens. -/
theorem exists_openDelta (hhdr : f.hdr.Valid) (hsize : 4096 ≤ f.size)
    (hclosed : f.hdr.mDiskInUse = signatureDiskInUse → dirty = true) :
    ∃ d, openDelta f dirty = some d := by
  obtain ⟨version, hversion⟩ := Option.isSome_iff_exists.mp hhdr.version
  exact openDelta_of hversion hhdr.type hhdr.layout.blocksize hsize hclosed

/-- The state in which `open_delta` leaves a well formed image. -/
theorem OpenedAt.working (h : OpenedAt f d) (hf : WellFormed f) :
    Working f.hdr.layout {content f} (live (f.hdr.layout.bat f)) (f.size / f.hdr.layout.cluster)
      d := by
  refine ⟨h.opened, ?_, h.head⟩
  rw [h.disk]
  refine Steady.start (Held.of_wellFormed hf) ?_
  rintro b ⟨clu, hb⟩
  exact (hf.table.inData clu b hb).2

end Open

/-! ## Growing offline -/

/-- If `f` is to grow to `newSize` sectors at all, that stays within 32 bits. -/
def GrowFits (f : File) (newSize : ℕ) : Prop :=
  getSizeInSectors f.hdr < newSize → f.hdr.layout.blocksize ∣ newSize → GrowRange f newSize

/-- Under its own header `g` is well formed and reads as `f` does on the disk
of `f`; no slot beyond that disk is in use. -/
structure Carries (f g : File) : Prop where
  wellFormed : WellFormed g
  same : ∀ clu < f.hdr.layout.l2Size, content g clu = content f clu
  beyond : ∀ clu, f.hdr.layout.l2Size ≤ clu → content g clu = none

/-- Whatever a power failure during the grow leaves carries the old disk. -/
def GrowSurvivesCrash (f : File) (newSize : ℕ) : Prop :=
  ∀ p, p <+: (ploopGrowDeltaOffline f newSize).2.log → ∀ x, CrashImage File.pwrite f p x →
    Carries f x

section Offline

variable {f : File} {newSize : ℕ} {d : Delta}

theorem content_beyond {clu : ℕ} (h : f.hdr.layout.l2Size ≤ clu) : content f clu = none :=
  read_of_none (Layout.bat_of_ge h)

theorem dirtyDelta_spec (d : Delta) {E : Delta → Prop} :
    Triple (fun s => s = d) dirtyDelta (fun _ s => s = { (d.write ⟨PvdHeader.offDiskInUse, 4,
      wordBytes fun _ => signatureDiskInUse⟩).sync with dirtied := 2 }) E :=
  Triple.bind (R := fun _ s => s = (d.write ⟨PvdHeader.offDiskInUse, 4,
      wordBytes fun _ => signatureDiskInUse⟩).sync)
    (Triple.step (Triple.update fun _ hs => hs ▸ rfl)) fun _ => Triple.update fun _ hs => hs ▸ rfl

theorem clearDelta_spec (d : Delta) {E : Delta → Prop} :
    Triple (fun s => s = d) clearDelta (fun _ s => s = { (d.write ⟨PvdHeader.offDiskInUse, 4,
      wordBytes fun _ => 0⟩).sync with dirtied := 0 }) E :=
  Triple.bind (R := fun _ s => s = (d.write ⟨PvdHeader.offDiskInUse, 4,
      wordBytes fun _ => 0⟩).sync)
    (Triple.step (Triple.update fun _ hs => hs ▸ rfl)) fun _ => Triple.update fun _ hs => hs ▸ rfl

/-- Setting the in-use mark keeps a run steady. -/
theorem Working.dirty {L : Layout} {R : Set VDisk} {S₀ : Set ℕ} {A : ℕ} {e : Delta}
    (hw : Working L R S₀ A d) (he : e = { (d.write ⟨PvdHeader.offDiskInUse, 4,
      wordBytes fun _ => signatureDiskInUse⟩).sync with dirtied := 2 }) : Working L R S₀ A e := by
  have hopened : Opened L (d.write ⟨PvdHeader.offDiskInUse, 4,
      wordBytes fun _ => signatureDiskInUse⟩).sync :=
    (hw.opened.write_header (by norm_num [PvdHeader.offDiskInUse, headerBytes])).sync
  subst he
  exact ⟨⟨hopened.version, hopened.blocksize, hopened.l1Size, hopened.l2Size, hopened.clean,
    hopened.cached, hopened.cache⟩, (hw.steady.write_diskInUse signatureDiskInUse).sync, hw.head⟩

theorem bat_dirty {L : Layout} (v : UInt32) :
    L.bat ({ (d.write ⟨PvdHeader.offDiskInUse, 4, wordBytes fun _ => v⟩).sync with
      dirtied := 2 } : Delta).file = L.bat d.file := by
  change L.bat (d.write ⟨PvdHeader.offDiskInUse, 4, wordBytes fun _ => v⟩).sync.file = _
  rw [Delta.file_sync, Delta.file_write]
  funext clu
  exact Layout.bat_congr fun _ => d.file.word_pwrite_of_not_mem
    (Or.inr (by simp only [PvdHeader.offDiskInUse, mapOffset]; omega))

/-- The header left by a grow that succeeds, whether or not anything wrapped. -/
theorem growDelta_header {vh : PvdHeader} {bdsize : ℕ}
    (hvh : grownHeader bdsize d.blocksize d.version = vh) :
    Triple (fun s => s = d) (growDelta bdsize false)
      (fun _ d' => ∃ flags, d'.file.hdr = { vh with mFlags := flags }) (fun _ => True) := by
  refine Triple.look fun s hs => ?_
  subst hs
  simp only [hvh]
  split
  · exact Triple.raise fun _ _ => True.intro
  split
  · exact Triple.raise fun _ _ => True.intro
  refine Triple.bind (Triple.trivial _) fun n => ?_
  simp only [Bool.false_eq_true, false_and, if_false]
  refine Triple.bind (Triple.trivial _) fun maps => ?_
  refine Triple.bind (R := fun _ d' => ∃ flags, d'.file.hdr = { vh with mFlags := flags }) ?_
    fun _ => Triple.start fun e he => Triple.step (Triple.ret fun d' hd' => hd' ▸ he)
  refine Triple.start fun e _ =>
    Triple.step (Triple.look fun e' he' => Triple.update fun d' hd' => ?_)
  rw [hd', Delta.file_write, hdr_pwrite_header]
  split
  · exact ⟨_, rfl⟩
  · exact ⟨vh.mFlags, rfl⟩

theorem growDeltaOfflineBody_header (hopen : OpenedAt f d)
    (hr : Representable d.version d.blocksize newSize) :
    Triple (fun s => s = d) (growDeltaOfflineBody newSize)
      (fun _ d' => d'.disk = Disk.new f ∧ getSizeInSectors f.hdr = newSize ∨
        getSizeInSectors f.hdr < newSize ∧ d.blocksize ∣ newSize ∧
          d'.file.hdr.GeneratedFor d.version d.blocksize newSize) (fun _ => True) := by
  refine Triple.look fun s hs => ?_
  subst hs
  simp only [checkBlockdevSize, decide_eq_true_eq]
  by_cases hdvd : newSize % s.blocksize = 0
  · simp only [hdvd, not_true_eq_false, if_false]
    have hdvd' := Nat.dvd_of_mod_eq_zero hdvd
    have hgen : ∀ vh, (generatePvdHeader vh newSize s.blocksize s.version).1.GeneratedFor
        s.version s.blocksize newSize := fun vh =>
      generatePvdHeader_generatedFor hopen.blocksize hr hdvd'
    simp only [(hgen _).sizeInSectors, hopen.hdr0]
    by_cases heq : newSize = getSizeInSectors f.hdr
    · simp only [heq, if_true]
      exact Triple.ret fun s' hs' => Or.inl ⟨hs' ▸ hopen.disk, True.intro⟩
    · simp only [heq, if_false]
      by_cases hlt : newSize < getSizeInSectors f.hdr
      · simp only [hlt, if_true]
        exact Triple.raise fun _ _ => True.intro
      · simp only [hlt, if_false]
        refine Triple.bind (dirtyDelta_spec s) fun _ => ?_
        refine Triple.start fun e he => ?_
        have hgrown : grownHeader newSize e.blocksize e.version
            = grownHeader newSize s.blocksize s.version := by
          rw [he]
          rfl
        refine Triple.bind (growDelta_header hgrown) fun _ => ?_
        refine Triple.start fun e' ⟨flags, hflags⟩ => ?_
        refine Triple.bind (clearDelta_spec e') fun _ => ?_
        refine Triple.start fun e'' he'' => Triple.update fun d' hd' => Or.inr ⟨by omega, hdvd', ?_⟩
        have hhdr : d'.sync.file.hdr = { e'.file.hdr with mDiskInUse := 0 } := by
          rw [hd', he'', Delta.file_sync]
          change ((e'.write _).sync).file.hdr = _
          rw [Delta.file_sync, Delta.file_write, hdr_pwrite_diskInUse]
        rw [hhdr, hflags]
        exact (hgen PvdHeader.zero).setFields 0 flags
  · simp only [hdvd, not_false_eq_true, if_true]
    exact Triple.raise fun _ _ => True.intro

theorem growDeltaOfflineBody_spec (hopen : OpenedAt f d) (hf : WellFormed f)
    (hr : Representable f.hdr.layout.version f.hdr.layout.blocksize newSize)
    (hfit : GrowFits f newSize) :
    Triple (fun s => s = d) (growDeltaOfflineBody newSize)
      (fun _ d' => d'.disk = Disk.new f ∨
        ∃ A, Steady (newLayout f.hdr.layout.version f.hdr.layout.blocksize newSize) {content f}
          (live (f.hdr.layout.bat f)) A d'.disk)
      (fun d' => d'.disk.Safe
        (Sound {content f} f.hdr.layout.cluster (live (f.hdr.layout.bat f)))) := by
  have hw := hopen.working hf
  have hkeep : getSizeInSectors f.hdr < newSize → ∀ r ∈ ({content f} : Set VDisk),
      ∀ clu, newSize / f.hdr.layout.blocksize ≤ clu → r clu = none := by
    rintro hlt r rfl clu hclu
    exact content_beyond ((Nat.div_le_div_right hlt.le).trans hclu)
  have hL := hw.steady.valid
  simp only [GrowFits, growRange_iff] at hfit
  generalize f.hdr.layout = L at *
  have hsafe : ∀ s, s = d → s.disk.Safe (Sound {content f} L.cluster (live (L.bat f))) :=
    fun s hs => hs ▸ hw.steady.safe
  refine Triple.look fun s hs => ?_
  subst hs
  simp only [hw.opened.blocksize, hw.opened.version, checkBlockdevSize, decide_eq_true_eq,
    hopen.hdr0]
  by_cases hdvd : newSize % L.blocksize = 0
  · simp only [hdvd, not_true_eq_false, if_false]
    have hdvd' := Nat.dvd_of_mod_eq_zero hdvd
    have hgen : ∀ vh, (generatePvdHeader vh newSize L.blocksize L.version).1.GeneratedFor
        L.version L.blocksize newSize := fun vh =>
      generatePvdHeader_generatedFor hL.blocksize hr hdvd'
    simp only [(hgen _).sizeInSectors]
    split
    · exact Triple.ret fun s' hs' => Or.inl (hs' ▸ hopen.disk)
    split
    · exact Triple.raise hsafe
    rename_i hne hge
    obtain ⟨hindex, hroom⟩ := hfit (by omega) hdvd'
    refine Triple.bind (dirtyDelta_spec s) fun _ => ?_
    refine Triple.start fun e he => ?_
    have hwe : Working L {content f} (live (L.bat f)) (f.size / L.cluster) e :=
      hw.dirty he
    have hbat : GrowRoom L newSize (f.size / L.cluster) e.file := by
      rwa [GrowRoom, show e.file = _ from congrArg Delta.file he, bat_dirty,
        show s.file = f from congrArg Disk.file hopen.disk]
    refine Triple.bind (growDelta_spec hwe hr hdvd' hindex (hkeep (by omega)) hbat) fun _ => ?_
    refine Triple.start fun e' ⟨A, hgrown, _⟩ => ?_
    refine Triple.bind (clearDelta_spec e') fun _ => ?_
    refine Triple.start fun e'' he'' => Triple.update fun d' hd' => Or.inr ⟨A, ?_⟩
    rw [hd', he'']
    exact (hgrown.clear rfl 0).sync
  · simp only [hdvd, not_false_eq_true, if_true]
    exact Triple.raise hsafe

/-- The run starts from the image given. -/
theorem ploopGrowDeltaOffline_init : (ploopGrowDeltaOffline f newSize).2.init = f := by
  unfold ploopGrowDeltaOffline
  cases hopen : openDelta f false with
  | none => rfl
  | some d =>
      have hdisk : d.disk.init = f := by rw [(openDelta_spec hopen).disk]; rfl
      simp only
      cases hrun : growDeltaOfflineBody newSize d with
      | error e d' => exact ((Appends.growDeltaOfflineBody newSize).err hrun).1.trans hdisk
      | ok a d' => exact ((Appends.growDeltaOfflineBody newSize).ok hrun).1.trans hdisk

/-- At every moment of a grow that fits, the image on the medium is sound. -/
theorem ploopGrowDeltaOffline_safe (hf : WellFormed f)
    (hr : Representable f.hdr.layout.version f.hdr.layout.blocksize newSize)
    (hfit : GrowFits f newSize) : (ploopGrowDeltaOffline f newSize).2.Safe
      (Sound {content f} f.hdr.layout.cluster (live (f.hdr.layout.bat f))) := by
  have hstart : (Disk.new f).Safe
      (Sound {content f} f.hdr.layout.cluster (live (f.hdr.layout.bat f))) :=
    Disk.safe_new ⟨_, rfl, (Held.of_wellFormed hf).mono fun b hb => Or.inl hb⟩
  unfold ploopGrowDeltaOffline
  cases hopen : openDelta f false with
  | none => exact hstart
  | some d =>
      have hspec := growDeltaOfflineBody_spec (openDelta_spec hopen) hf hr hfit d rfl
      simp only
      cases hrun : growDeltaOfflineBody newSize d with
      | error e d' =>
          rw [hrun] at hspec
          exact hspec
      | ok a d' =>
          rw [hrun] at hspec
          rcases hspec with hspec | ⟨A, hspec⟩
          · exact (congrArg (Disk.Safe _) hspec).mpr hstart
          · exact hspec.safe

/-- What a successful grow has done. -/
theorem ploopGrowDeltaOffline_ok {D : Disk} (h : ploopGrowDeltaOffline f newSize = (none, D)) :
    ∃ d d', openDelta f false = some d ∧ growDeltaOfflineBody newSize d = .ok () d' ∧
      D = d'.disk := by
  unfold ploopGrowDeltaOffline at h
  cases hopen : openDelta f false with
  | none => simp [hopen] at h
  | some d =>
      simp only [hopen] at h
      cases hrun : growDeltaOfflineBody newSize d with
      | error e d' => simp [hrun] at h
      | ok a d' =>
          simp only [hrun, Prod.mk.injEq, true_and] at h
          exact ⟨d, d', rfl, hrun, h.symm⟩

theorem ploopGrowDeltaOffline_header {D : Disk}
    (hr : Representable f.hdr.layout.version f.hdr.layout.blocksize newSize)
    (h : ploopGrowDeltaOffline f newSize = (none, D)) :
    D = Disk.new f ∧ getSizeInSectors f.hdr = newSize ∨
      getSizeInSectors f.hdr < newSize ∧ f.hdr.layout.blocksize ∣ newSize ∧
        D.file.hdr.GeneratedFor f.hdr.layout.version f.hdr.layout.blocksize newSize := by
  obtain ⟨d, d', hopen, hrun, rfl⟩ := ploopGrowDeltaOffline_ok h
  have hat := openDelta_spec hopen
  rw [← hat.opened.version, ← hat.opened.blocksize] at hr ⊢
  exact (growDeltaOfflineBody_header hat hr).ok rfl hrun

theorem Sound.carries {log : List (Event Write)} {x : File}
    (h : Sound {Ploop.content f} f.hdr.layout.cluster (live (f.hdr.layout.bat f)) log x) :
    Carries f x := by
  have hcontent : Ploop.content x = Ploop.content f := h.content
  refine ⟨h.wellFormed, fun clu _ => by rw [hcontent], fun clu hclu => ?_⟩
  rw [hcontent]
  exact content_beyond hclu

/-- Growing offline preserves content and format where nothing wraps, and only
where the size of the new index does not. -/
theorem ploopGrowDeltaOffline_preserves {D : Disk} (hf : WellFormed f)
    (hr : Representable f.hdr.layout.version f.hdr.layout.blocksize newSize)
    (h : ploopGrowDeltaOffline f newSize = (none, D)) :
    (GrowFits f newSize → Carries f D.file ∧ getSizeInSectors D.file.hdr = newSize) ∧
      (Carries f D.file → getSizeInSectors f.hdr < newSize →
        IndexFits newSize f.hdr.layout.blocksize) := by
  have hhdr := ploopGrowDeltaOffline_header hr h
  constructor
  · intro hfit
    have hsafe := ploopGrowDeltaOffline_safe hf hr hfit
    rw [h] at hsafe
    refine ⟨hsafe.every.file.carries, ?_⟩
    rcases hhdr with ⟨rfl, hsize⟩ | ⟨-, -, hgen⟩
    · exact hsize
    · exact hgen.sizeInSectors
  · intro hgrown hlt
    rcases hhdr with ⟨rfl, hsize⟩ | ⟨-, -, hgen⟩
    · omega
    · by_contra hfit
      exact hgen.not_valid hf.header.layout.blocksize hfit hgrown.wellFormed.header

/-- Growing offline survives a crash at any point where nothing wraps; where it
does and succeeds, the size of the new index does not wrap. -/
theorem ploopGrowDeltaOffline_crash (hf : WellFormed f)
    (hr : Representable f.hdr.layout.version f.hdr.layout.blocksize newSize) :
    (GrowFits f newSize → GrowSurvivesCrash f newSize) ∧
      (GrowSurvivesCrash f newSize → (ploopGrowDeltaOffline f newSize).1 = none →
        getSizeInSectors f.hdr < newSize → IndexFits newSize f.hdr.layout.blocksize) := by
  constructor
  · intro hfit p hp x hx
    have hsafe := ploopGrowDeltaOffline_safe hf hr hfit p hp x
    rw [ploopGrowDeltaOffline_init] at hsafe
    exact (hsafe hx).carries
  · intro hcrash hok hlt
    have hend := hcrash _ (List.prefix_refl _) (ploopGrowDeltaOffline f newSize).2.file (by
      rw [Disk.file, ploopGrowDeltaOffline_init]
      exact crashImage_view _)
    rcases ploopGrowDeltaOffline_header hr (Prod.ext hok rfl) with ⟨-, hsize⟩ | ⟨-, -, hgen⟩
    · omega
    · by_contra hfit
      exact hgen.not_valid hf.header.layout.blocksize hfit hend.wellFormed.header

end Offline

/-! ## A table that wraps -/

/-- A version 2 image of one cluster, whose block starts with a seven. -/
def smallDisk : File :=
  ((File.empty.pwrite ⟨0, headerBytes, wordBytes
      (generatePvdHeader PvdHeader.zero 64 64 .v2).1.toWords⟩).pwrite
    ⟨64, 4, wordBytes fun _ => 1⟩).pwrite ⟨32768, 32768, fun i => if i = 0 then 7 else 0⟩

theorem smallDisk_hdr : smallDisk.hdr = (generatePvdHeader PvdHeader.zero 64 64 .v2).1 := by
  unfold smallDisk
  rw [hdr_pwrite_of_ge (by simp [headerBytes]), hdr_pwrite_of_ge le_rfl, hdr_pwrite_header]

/-- What its header and its one entry say. -/
theorem smallDisk_layout : smallDisk.hdr.layout = ⟨.v2, 64, 1, 1⟩ ∧
    getSizeInSectors smallDisk.hdr = 64 ∧ smallDisk.size = 65536 ∧
    smallDisk.hdr.layout.bat smallDisk 0 = some 1 ∧ smallDisk.hdr.Valid := by
  rw [smallDisk_hdr]
  have hvalid : (generatePvdHeader PvdHeader.zero 64 64 .v2).1.Valid :=
    ⟨by decide, by decide, by decide, by decide, by decide⟩
  have hlayout : (generatePvdHeader PvdHeader.zero 64 64 .v2).1.layout = ⟨.v2, 64, 1, 1⟩ := rfl
  refine ⟨hlayout, by decide, rfl, ?_, hvalid⟩
  rw [hlayout]
  rfl

theorem smallDisk_wellFormed : WellFormed smallDisk := by
  obtain ⟨hlayout, -, hsize, hbat₀, hvalid⟩ := smallDisk_layout
  have hslot : ∀ clu b, smallDisk.hdr.layout.bat smallDisk clu = some b → clu = 0 ∧ b = 1 := by
    intro clu b hb
    have hlt := Layout.bat_lt hb
    rw [hlayout] at hlt
    obtain rfl : clu = 0 := Nat.lt_one_iff.mp hlt
    exact ⟨rfl, Option.some.inj (hb.symm.trans hbat₀)⟩
  refine ⟨hvalid, ⟨?_, ?_, ?_, ?_⟩⟩
  · intro clu hclu
    rw [hlayout] at hclu ⊢
    exact Dvd.intro_left _ rfl
  · intro clu b hb
    obtain ⟨-, rfl⟩ := hslot clu b hb
    rw [hlayout, hsize]
    decide
  · intro k k' i hk hk'
    rw [(hslot k i hk).1, (hslot k' i hk').1]
  · intro s hs hs'
    rw [hlayout] at hs hs'
    simp only [mapOffset, Layout.slots, Layout.cluster, s2b] at hs hs'
    unfold Layout.entry smallDisk
    rw [File.word_pwrite_of_not_mem _ (by simp only [mapOffset]; omega),
      File.word_pwrite_of_not_mem _ (by simp only [mapOffset]; omega),
      File.word_pwrite_of_not_mem _ (by simp only [mapOffset, headerBytes]; omega)]
    exact File.word_eof _ (Nat.zero_le _)

/-- A table of `2 ^ 30 - 16` clusters takes `2 ^ 32` bytes. -/
def wrappingSize : ℕ := (2 ^ 30 - 16) * 64

/-- With 8192 clusters the table needs a second cluster: the block is moved. -/
def movingSize : ℕ := 8192 * 64

theorem smallDisk_representable :
    Representable smallDisk.hdr.layout.version smallDisk.hdr.layout.blocksize wrappingSize ∧
      Representable smallDisk.hdr.layout.version smallDisk.hdr.layout.blocksize movingSize := by
  rw [smallDisk_layout.1]
  decide

/-- Both sizes are taken; in the first case the table runs into the data block. -/
theorem smallDisk_runs : (ploopGrowDeltaOffline smallDisk wrappingSize).1 = none ∧
    8176 < (ploopGrowDeltaOffline smallDisk wrappingSize).2.file.hdr.layout.l2Size ∧
    Layout.entry (ploopGrowDeltaOffline smallDisk wrappingSize).2.file 8176 ≠ 0 ∧
    (ploopGrowDeltaOffline smallDisk movingSize).1 = none := by
  decide +kernel

theorem smallDisk_stale :
    content (ploopGrowDeltaOffline smallDisk wrappingSize).2.file 8176 ≠ none := by
  intro h
  unfold content Layout.readClu at h
  obtain ⟨-, hclu, hentry, -⟩ := smallDisk_runs
  exact hentry ((Layout.bat_eq_none hclu).mp (read_eq_none.mp h))

theorem ploopGrowDeltaOffline_not_preserving :
    ¬ ∀ (f : File) (newSize : ℕ) (D : Disk), WellFormed f → getSizeInSectors f.hdr ≤ newSize →
      Representable f.hdr.layout.version f.hdr.layout.blocksize newSize →
      ploopGrowDeltaOffline f newSize = (none, D) → Carries f D.file := by
  intro h
  have hsize : getSizeInSectors smallDisk.hdr ≤ wrappingSize := by
    rw [smallDisk_layout.2.1]
    decide
  have hcarries := h smallDisk wrappingSize _ smallDisk_wellFormed hsize smallDisk_representable.1
    (Prod.ext smallDisk_runs.1 rfl)
  refine smallDisk_stale (hcarries.beyond 8176 ?_)
  rw [smallDisk_layout.1]
  decide

theorem ploopGrowDeltaOffline_not_crash_safe :
    ¬ ∀ (f : File) (newSize : ℕ), WellFormed f → getSizeInSectors f.hdr < newSize →
      Representable f.hdr.layout.version f.hdr.layout.blocksize newSize →
      GrowSurvivesCrash f newSize := by
  intro h
  have hsize : getSizeInSectors smallDisk.hdr < wrappingSize := by
    rw [smallDisk_layout.2.1]
    decide
  have hcarries := h smallDisk wrappingSize smallDisk_wellFormed hsize smallDisk_representable.1
    _ (List.prefix_refl _) (ploopGrowDeltaOffline smallDisk wrappingSize).2.file (by
      rw [Disk.file, ploopGrowDeltaOffline_init]
      exact crashImage_view _)
  refine smallDisk_stale (hcarries.beyond 8176 ?_)
  rw [smallDisk_layout.1]
  decide

theorem smallDisk_growFits : GrowFits smallDisk movingSize := by
  obtain ⟨hlayout, -, hsize, hbat₀, -⟩ := smallDisk_layout
  unfold GrowFits
  simp only [growRange_iff, GrowRoom]
  rw [hlayout, hsize] at *
  exact fun _ _ => ⟨by decide, fun _ => ⟨by decide, fun _ => by decide⟩⟩

theorem smallDisk_grown : Carries smallDisk (ploopGrowDeltaOffline smallDisk movingSize).2.file :=
  ((ploopGrowDeltaOffline_preserves smallDisk_wellFormed smallDisk_representable.2
    (Prod.ext smallDisk_runs.2.2.2 rfl)).1 smallDisk_growFits).1

theorem smallDisk_crash : GrowSurvivesCrash smallDisk movingSize :=
  (ploopGrowDeltaOffline_crash smallDisk_wellFormed smallDisk_representable.2).1 smallDisk_growFits

end Ploop
