import Ploop.Cbt.Stored
import Ploop.Cbt.Removal
import Ploop.Image.CheckValid

/-!
# Checking an image with a bitmap

The extension lies behind the data blocks, where a forced check of a clean image cuts
the file.
-/

namespace Ploop.Cbt

open Storage Program Check

variable {md5 : List UInt8 → Sig} {f : File} {flags : Check.Flags}

/-- Whoever loads the bitmap of `f` loads the same from `g`. -/
def KeepsCbt (md5 : List UInt8 → Sig) (f g : File) : Prop :=
  ∀ heap raw, LoadsCbt md5 heap f raw → LoadsCbt md5 heap g raw

/-- No check changes the virtual disk or the bitmap. -/
def NothingLost (md5 : List UInt8 → Sig) (flags : Check.Flags) (f : File) : Prop :=
  ∀ (c : Calls) (blocksize : Option ℕ),
    content (ploopCheck c flags blocksize f).2.file = content f ∧
      KeepsCbt md5 f (ploopCheck c flags blocksize f).2.file

/-- The flag for an empty image is right, and the bitmap ends before the end of the
last block in use. -/
structure Survives (md5 : List UInt8 → Sig) (f : File) : Prop where
  flag : f.hdr.mFlags = flagsFor f.hdr (f.hdr.layout.used f)
  below : CbtBelow md5 f (f.hdr.layout.used f * f.hdr.layout.cluster)

/-! ## What the check leaves -/

theorem hdr_cut (hwf : WellFormed f) {n : ℕ} (hn : f.hdr.layout.l1Size ≤ n) :
    (cut f n).hdr = f.hdr := by
  have := (Held.of_wellFormed hwf).header_le.trans (Nat.mul_le_mul_right _ hn)
  unfold cut
  split
  · exact hdr_ftruncate this
  · rfl

theorem byte_cut {n i : ℕ} (hi : i < n * f.hdr.layout.cluster) : (cut f n).byte i = f.byte i := by
  unfold cut
  split
  · exact f.byte_ftruncate_of_lt hi
  · rfl

theorem content_cut (hwf : WellFormed f) : content (cut f (f.hdr.layout.used f)) = content f :=
  content_congr hwf (congrArg PvdHeader.layout (hdr_cut hwf Layout.l1Size_le_used))
    fun _ _ hi => byte_cut hi

theorem hdr_repaired (n : ℕ) : (repaired f n).hdr =
    { f.hdr with mDiskInUse := 0, mFlags := flagsFor f.hdr n } :=
  hdr_pwrite_header _ _

theorem content_repaired (hwf : WellFormed f) :
    content (repaired f (f.hdr.layout.used f)) = content f := by
  refine content_congr hwf ?_ fun i hi hlt => ?_
  · rw [hdr_repaired]
    rfl
  · rw [repaired, File.byte_pwrite, overlay_of_ge (by simpa using hi), byte_cut hlt]

theorem not_loads_repaired {n : ℕ} {heap : ℕ → UInt8} {raw : DirtyBitmapRaw MemEntry} :
    ¬ LoadsCbt md5 heap (repaired f n) raw := by
  intro h
  have hclosed := h.closed.2
  rw [hdr_repaired] at hclosed
  have hne : (0 : UInt32) ≠ signatureDiskClosedV21 := by decide
  exact hne hclosed

/-- A file with a header and nothing else. -/
theorem content_of_blank {g : File} (h : ∀ i, headerBytes ≤ i → g.byte i = 0) (clu : ℕ) :
    content g clu = none := by
  have hentry : Layout.entry g clu = 0 := by
    have hzero (k : ℕ) : g.byte (4 * (clu + mapOffset) + k) = 0 := h _ (by
      simp only [headerBytes, mapOffset]
      omega)
    have hfirst := hzero 0
    rw [Nat.add_zero] at hfirst
    simp [Layout.entry, File.word, bytesWord, hzero, hfirst]
  exact Indirection.read_of_none (by simp [Layout.bat, hentry])

/-- With `alloc_head` wrapped to zero nothing of the disk is left. -/
theorem content_wrapped (hused : f.hdr.layout.used f = 2 ^ 32) {s : State}
    (hs : Check.Finished f s) : content s.file ≠ content f := by
  have hl1 : f.hdr.layout.l1Size ≤ 2 ^ 32 - 1 :=
    (Nat.div_le_self _ _).trans (Nat.le_pred_of_lt f.hdr.mFirstBlockOffset.toNat_lt)
  obtain ⟨clu, b, hb, -⟩ := Layout.exists_of_lt_usedBlocks hl1 (f := f)
    (n := f.hdr.layout.l2Size) (Nat.lt_of_lt_of_eq (by norm_num) hused.symm)
  have hsome : content f clu = some (f.hdr.layout.block f b) := Indirection.read_of_some hb
  have hcut : ∀ i, (cut f 0).byte i = 0 := by
    intro i
    unfold cut
    split
    · simp [File.ftruncate]
    · exact f.eof i (by omega)
  have hblank : ∀ i, headerBytes ≤ i → s.file.byte i = 0 := by
    have hrepaired : ∀ i, headerBytes ≤ i → (repaired f 0).byte i = 0 := by
      intro i hi
      rw [repaired, File.byte_pwrite, overlay_of_ge (by simpa using hi), hcut]
    have hzero : u32 (f.hdr.layout.used f) = 0 := by
      rw [hused]
      rfl
    unfold Check.Finished at hs
    rw [hzero] at hs
    split at hs
    · rcases hs with hs | hs
      · exact fun i _ => hs ▸ hcut i
      · exact hs ▸ hrepaired
    · split at hs
      · exact fun i _ => hs ▸ hcut i
      · exact hs ▸ hrepaired
  intro heq
  have := congrFun heq clu
  rw [content_of_blank hblank, hsome] at this
  cases this

section Cut

variable {heap : ℕ → UInt8} {raw : DirtyBitmapRaw MemEntry}

theorem header_le_used (hwf : WellFormed f) :
    headerBytes ≤ f.hdr.layout.used f * f.hdr.layout.cluster :=
  (Held.of_wellFormed hwf).header_le.trans (Nat.mul_le_mul_right _ Layout.l1Size_le_used)

theorem checkBytes_le (hwf : WellFormed f) : checkBytes ≤ blockSize f.hdr := by
  have h : 64 ≤ f.hdr.mSectors.toNat := hwf.header.layout.blocksize.1
  simp only [checkBytes, blockSize, s2b]
  omega

theorem loads_cut (hwf : WellFormed f)
    (hbelow : CbtBelow md5 f (f.hdr.layout.used f * f.hdr.layout.cluster))
    (h : LoadsCbt md5 heap f raw) : LoadsCbt md5 heap (cut f (f.hdr.layout.used f)) raw := by
  unfold cut
  split
  case isTrue hlt =>
    exact loadsCbt_ftruncate (checkBytes_le hwf) (header_le_used hwf) hlt.le hbelow h
  case isFalse => exact h

theorem cbtBelow_of_cut (hwf : WellFormed f) (h : LoadsCbt md5 heap f raw)
    (hcut : LoadsCbt md5 heap (cut f (f.hdr.layout.used f)) raw) :
    CbtBelow md5 f (f.hdr.layout.used f * f.hdr.layout.cluster) := by
  unfold cut at hcut
  split at hcut
  case isTrue hlt => exact cbtBelow_of_loads (checkBytes_le hwf) (header_le_used hwf) hlt.le hcut
  case isFalse hge => exact cbtBelow_of_size_le (Nat.not_lt.mp hge) h

end Cut

theorem LoadsCbt.not_inUse {heap : ℕ → UInt8} {raw : DirtyBitmapRaw MemEntry}
    (h : LoadsCbt md5 heap f raw) : f.hdr.mDiskInUse ≠ signatureDiskInUse := by
  have hne : signatureDiskClosedV21 ≠ signatureDiskInUse := by decide
  rw [h.closed.2]
  exact hne

/-- A check keeps what a well-formed image has exactly if it does not get to rewriting it,
or the number of blocks fits its variable and a bitmap survives. -/
theorem nothingLost_iff (md5 : List UInt8 → Sig) (hwf : WellFormed f) (flags : Check.Flags) :
    NothingLost md5 flags f ↔ ((∃ c, Rewrites c flags f) → f.hdr.layout.used f < 2 ^ 32 ∧
      ((∃ heap raw, LoadsCbt md5 heap f raw) → Survives md5 f)) := by
  constructor
  · rintro h ⟨c, hc⟩
    obtain ⟨hcontent, hkeep⟩ := h c none
    have hfinished := (ploopCheck_valid hwf c flags none).1 hc
    have hused : f.hdr.layout.used f < 2 ^ 32 :=
      lt_of_le_of_ne hwf.used_le fun heq => content_wrapped heq hfinished hcontent
    refine ⟨hused, fun ⟨heap, raw, hload⟩ => ?_⟩
    have hloaded := hkeep heap raw hload
    rw [Check.Finished, u32_of_lt hused, if_neg hload.not_inUse] at hfinished
    split at hfinished
    case isTrue hflag =>
      rw [hfinished] at hloaded
      exact ⟨hflag, cbtBelow_of_cut hwf hload hloaded⟩
    case isFalse =>
      rw [hfinished] at hloaded
      exact absurd hloaded not_loads_repaired
  · intro h c blocksize
    have hafter := ploopCheck_valid hwf c flags blocksize
    by_cases hc : Rewrites c flags f
    · obtain ⟨hused, hsurvives⟩ := h ⟨c, hc⟩
      have hfinished := hafter.1 hc
      rw [Check.Finished, u32_of_lt hused] at hfinished
      split at hfinished
      case isTrue huse =>
        refine ⟨?_, fun heap raw hload => absurd huse hload.not_inUse⟩
        rcases hfinished with hfile | hfile
        · rw [hfile, content_cut hwf]
        · rw [hfile, content_repaired hwf]
      case isFalse =>
        split at hfinished
        case isTrue =>
          rw [hfinished]
          exact ⟨content_cut hwf, fun heap raw hload =>
            loads_cut hwf (hsurvives ⟨heap, raw, hload⟩).below hload⟩
        case isFalse hflag =>
          rw [hfinished]
          exact ⟨content_repaired hwf, fun heap raw hload =>
            absurd (hsurvives ⟨heap, raw, hload⟩).flag hflag⟩
    · rw [hafter.2 hc]
      exact ⟨rfl, fun _ _ hload => hload⟩

/-! ## A saved bitmap -/

section Saved

variable {d d' : Delta} {heap : ℕ → UInt8} {src : Source}

/-- Where `delta_save_optional_header` puts the bitmap no forced check leaves it. -/
theorem saved_not_below (h : Image d) (hsrc : src ≠ .device none)
    (hsave : deltaSaveOptionalHeader md5 heap src d = .ok () d') (hhi : d'.file.size < 2 ^ 63) :
    WellFormed d'.file ∧ d'.file.hdr.layout.l1Size * d'.file.hdr.layout.cluster ≤ d'.file.size ∧
      ¬ CbtBelow md5 d'.file (d'.file.hdr.layout.used d'.file * d'.file.hdr.layout.cluster) := by
  obtain ⟨hkept, ext, raw, j, he, heq, hsize⟩ := save_extended heap hsrc h hhi hsave
  have hpos := h.blockSize_pos
  have hlt := he.lt
  have hvalid : d'.file.hdr.Valid := by
    rw [he.hdr]
    exact ⟨h.valid.version, h.valid.type, h.valid.aligned, h.valid.layout⟩
  have hlayout : d'.file.hdr.layout = d.file.hdr.layout := by
    rw [he.hdr, h.hdr0]
    rfl
  have hbat := (hkept.unchanged h.wellFormed h.index hlayout).bat
  have hused : d.file.hdr.layout.used d'.file ≤ d.file.size / d.file.hdr.layout.cluster := by
    by_contra hgt
    have hl1 : d.file.hdr.layout.l1Size ≤ d.file.size / d.file.hdr.layout.cluster :=
      (Nat.le_div_iff_mul_le h.wellFormed.header.layout.cluster_pos).mpr h.index
    obtain ⟨clu, b, hb, hle, -⟩ := Layout.exists_of_lt_usedBlocks hl1 (Nat.not_le.mp hgt)
    rw [hbat] at hb
    exact absurd (h.wellFormed.table.inData clu b hb).2 (Nat.not_lt.mpr hle)
  have hstart : extStart d'.file = ext * sectorSize := by
    rw [extStart, he.hdr, formatExtensionOffset_extHeader _ (by
      simp only [sectorSize] at hlt
      omega), u64_of_lt (by omega)]
  refine ⟨hkept.wellFormed h.wellFormed h.index hvalid hlayout, ?_, fun hbelow => ?_⟩
  · rw [hlayout]
    exact h.index.trans hkept.size
  · have hroom := hbelow.room
    have hend := (Nat.mul_le_mul_right d.file.hdr.layout.cluster hused).trans
      (Nat.div_mul_le_self _ _)
    have hblock : blockSize d'.file.hdr = blockSize d.hdr0 := by
      rw [he.hdr]
      rfl
    rw [hstart, hlayout, hblock] at hroom
    omega

/-- A bitmap that was saved is gone after a forced check. -/
theorem not_nothingLost (h : Image d) (hsrc : src ≠ .device none)
    (hsave : deltaSaveOptionalHeader md5 heap src d = .ok () d') (hhi : d'.file.size < 2 ^ 63)
    (hloads : ∃ heap' raw, LoadsCbt md5 heap' d'.file raw) (hraw : flags.raw = false)
    (hro : flags.readonly = false) (hforce : flags.force = true) :
    ¬ NothingLost md5 flags d'.file := by
  obtain ⟨hwf, hindex, hnot⟩ := saved_not_below h hsrc hsave hhi
  intro hlost
  have henters : Enters flags d'.file.hdr := by
    obtain ⟨heap', raw, hload⟩ := hloads
    rw [Enters, if_neg hload.not_inUse]
    exact hforce
  have hrewrites : Rewrites ⟨true, true, none, none, none⟩ flags d'.file :=
    ⟨hraw, hro, henters, ⟨rfl, fun _ => .inl rfl, rfl⟩, hindex⟩
  obtain ⟨-, hsurvives⟩ := (nothingLost_iff md5 hwf flags).mp hlost ⟨_, hrewrites⟩
  exact hnot (hsurvives hloads).below

end Saved

/-- `ploop check -f` -/
def forced : Check.Flags := ⟨true, false, false, false, false, false, false⟩

theorem nothingLost_iff_small : NothingLost (fun _ => (5, 6, 7, 8)) forced (emptyImage 640).file ↔
    ((∃ c, Rewrites c forced (emptyImage 640).file) →
      (emptyImage 640).file.hdr.layout.used (emptyImage 640).file < 2 ^ 32 ∧
        ((∃ heap raw, LoadsCbt (fun _ => (5, 6, 7, 8)) heap (emptyImage 640).file raw) →
          Survives (fun _ => (5, 6, 7, 8)) (emptyImage 640).file)) :=
  nothingLost_iff _ (emptyImage_image (by decide) (by decide) (by decide)).wellFormed forced

theorem forced_check_drops : ¬ ∀ (md5 : List UInt8 → Sig) (f : File) (flags : Check.Flags),
    WellFormed f → flags.hardForce = false → NothingLost md5 flags f := by
  intro hall
  have h : Image (emptyImage 640) := emptyImage_image (by decide) (by decide) (by decide)
  have hroom : usedBytes (l1Entries wholeDevice (emptyImage 640).hdr0) + elementBytes ≤
      blockSize (emptyImage 640).hdr0 := by
    rw [l1Entries_emptyImage (by decide) (by decide), emptyImage_blockSize (by decide) (by decide)]
    decide
  obtain ⟨d', hsave, -, hloads⟩ := savesAndLoads (fun _ => (5, 6, 7, 8)) h (by omega) hroom .device
    fun _ => 0
  obtain ⟨ctx, raw, hload, hraw, -⟩ := hloads (fun _ => 0) (opened d'.file) rfl rfl
  have hsrc : Source.device (some wholeDevice) ≠ .device none := by simp
  have hhi := save_size h _ _ hsave
  have hwf := (saved_not_below h hsrc hsave hhi).1
  exact not_nothingLost h hsrc hsave hhi ⟨_, raw, ctx, _, hload, hraw⟩ rfl rfl rfl
    (hall _ _ forced hwf rfl)

end Ploop.Cbt
