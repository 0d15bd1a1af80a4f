import Ploop.Cbt.Checking
import Ploop.Cbt.Moving
import Ploop.Snapshot.Descriptor

/-!
# Bitmaps for the caller

`struct ploop_bitmap`, and the bitmap of changes that is handed out in it. The map
has as many entries as the disk has units of eight granules times the cluster size,
counted in sectors; the table that is copied there was made for clusters in bytes.
-/

namespace Ploop.Cbt

open Storage Program

/-- `struct ploop_bitmap`; `map` is the memory from its first entry on, `capacity` the
number of entries that were allocated, and `written` the entries that were set. -/
structure PloopBitmap where
  uuid : Sig
  sizeSec : ℕ
  clusterSec : ℕ
  granularitySec : ℕ
  l1Size : ℕ
  capacity : ℕ
  map : ℕ → MemEntry
  written : List ℕ

/-- `ploop_alloc_bitmap`, with memory for it. -/
def ploopAllocBitmap (size cluster granularity : ℕ) : Option PloopBitmap :=
  let sectors := u64 (u64 (cluster * granularity) * 8)
  -- the division by zero ends the process
  if sectors = 0 then none
  else some {
    uuid := (0, 0, 0, 0)
    sizeSec := size
    clusterSec := cluster
    granularitySec := granularity
    l1Size := u32 (size / sectors)
    capacity := size / sectors
    map := fun _ => .const false
    written := [] }

/-- The image of `guid`, or of the top. -/
def findImage (di : Dd.DiskImagesData) (guid : Option Dd.Guid) : Option Dd.Path :=
  (guid.or di.topGuid).bind di.findImageByGuid

/-- `memcpy(bmap->map, raw->m_L1, ...)` and the fields beside it. -/
def PloopBitmap.fill (bmap : PloopBitmap) (raw : DirtyBitmapRaw MemEntry) : PloopBitmap :=
  { bmap with
    uuid := raw.mId
    map := overlay bmap.map 0 raw.mL1.length fun i => raw.mL1.getD i (.const false)
    written := bmap.written ++ List.range raw.mL1.length }

/-- `ploop_get_tracking_bitmap_from_image` -/
def ploopGetTrackingBitmapFromImage (md5 : List UInt8 → Sig) (heap : ℕ → UInt8) (ptr : ℕ → ℕ)
    (files : Dd.Path → Option File) (di : Dd.DiskImagesData) (guid : Option Dd.Guid) :
    Option PloopBitmap := do
  let img ← findImage di guid
  let f ← files img
  match readOptionalHeaderFromImage md5 heap ptr ⟨false, false⟩ f with
  | (.error _, _) => none
  | (.ok ctx, _) => do
      let raw ← ctx.raw
      let bmap ← ploopAllocBitmap raw.mSize di.blocksize raw.mGranularity
      some (bmap.fill raw)

/-- The table is copied into the map, and is what the caller finds there. -/
structure Contains (raw : DirtyBitmapRaw MemEntry) (bmap : PloopBitmap) : Prop where
  inside : ∀ i ∈ bmap.written, i < bmap.capacity
  l1Size : bmap.l1Size = raw.mL1.length
  table : ∀ i < bmap.l1Size, raw.mL1[i]? = some (bmap.map i)

/-- Sectors for which `ploop_alloc_bitmap` takes one entry. -/
def entrySectors (blocksize : ℕ) (raw : DirtyBitmapRaw MemEntry) : ℕ :=
  8 * blocksize * raw.mGranularity

/-- The disk has as many units of `entrySectors` as the table has entries, up to multiples
of `2 ^ 32`. -/
def Covers (blocksize : ℕ) (raw : DirtyBitmapRaw MemEntry) : Prop :=
  ∃ k, (raw.mL1.length + k * 2 ^ 32) * entrySectors blocksize raw ≤ raw.mSize ∧
    raw.mSize < (raw.mL1.length + k * 2 ^ 32 + 1) * entrySectors blocksize raw

section Alloc

variable {raw : DirtyBitmapRaw MemEntry} {blocksize : ℕ}

theorem entrySectors_bounds (hbs : isValidBlocksize blocksize) (hgran : raw.mGranularity ≠ 0)
    (hlt : raw.mGranularity < 2 ^ 32) : 0 < entrySectors blocksize raw ∧
      u64 (u64 (blocksize * raw.mGranularity) * 8) = entrySectors blocksize raw := by
  have hpos := hbs.pos
  have hle : blocksize * raw.mGranularity ≤ 2 ^ 17 * 2 ^ 32 := Nat.mul_le_mul hbs.le hlt.le
  have hmul : 0 < blocksize * raw.mGranularity := Nat.mul_pos hpos (Nat.pos_of_ne_zero hgran)
  have heq : entrySectors blocksize raw = blocksize * raw.mGranularity * 8 := by
    unfold entrySectors
    ring
  rw [heq, u64_of_lt (by omega : blocksize * raw.mGranularity < 2 ^ 64), u64_of_lt (by omega)]
  exact ⟨by omega, rfl⟩

theorem covers_iff (hpos : 0 < entrySectors blocksize raw) (hlen : raw.mL1.length < 2 ^ 32) :
    Covers blocksize raw ↔ u32 (raw.mSize / entrySectors blocksize raw) = raw.mL1.length := by
  have hdiv (n : ℕ) : n * entrySectors blocksize raw ≤ raw.mSize ∧
      raw.mSize < (n + 1) * entrySectors blocksize raw ↔
        raw.mSize / entrySectors blocksize raw = n := by
    rw [← Nat.le_div_iff_mul_le hpos, ← Nat.div_lt_iff_lt_mul hpos]
    omega
  simp only [Covers, hdiv, u32]
  constructor
  · rintro ⟨k, hk⟩
    omega
  · intro h
    exact ⟨raw.mSize / entrySectors blocksize raw / 2 ^ 32, by omega⟩

/-- A table with one entry for each block of bits has room if there is nothing to track, or
one unit. -/
theorem covers_saved_iff (hpos : 0 < entrySectors blocksize raw)
    (hlen : raw.mL1.length =
      (bitmapBytes raw.mSize raw.mGranularity + s2b blocksize - 1) / s2b blocksize)
    (hsize : raw.mSize < 2 ^ 32 * entrySectors blocksize raw) (hhi : raw.mSize < 2 ^ 63)
    (hgran : raw.mGranularity < 2 ^ 32) : Covers blocksize raw ↔
      raw.mSize = 0 ∨ entrySectors blocksize raw ≤ raw.mSize ∧
        raw.mSize < 2 * entrySectors blocksize raw := by
  have hbs : 0 < blocksize := Nat.pos_of_ne_zero fun h => by simp [entrySectors, h] at hpos
  have hg : 0 < raw.mGranularity := Nat.pos_of_ne_zero fun h => by simp [entrySectors, h] at hpos
  have hbytes : bitmapBytes raw.mSize raw.mGranularity =
      ((raw.mSize + raw.mGranularity - 1) / raw.mGranularity + 7) / 8 := by
    have hle : (raw.mSize + raw.mGranularity - 1) / raw.mGranularity ≤
        raw.mSize + raw.mGranularity - 1 := Nat.div_le_self _ _
    rw [bitmapBytes, u64_of_lt (by omega : raw.mSize + raw.mGranularity - 1 < 2 ^ 64),
      u64_of_lt (by omega)]
  -- one entry of the table is 512 units
  have hceil (n : ℕ) : raw.mL1.length ≤ n ↔ raw.mSize ≤ n * (512 * entrySectors blocksize raw) := by
    have hcl : 0 < s2b blocksize := by simp only [s2b]; omega
    have h1 : raw.mL1.length ≤ n ↔ bitmapBytes raw.mSize raw.mGranularity ≤ n * s2b blocksize := by
      rw [hlen, ← Nat.lt_succ_iff, Nat.div_lt_iff_lt_mul hcl, Nat.succ_mul]
      omega
    have h2 : bitmapBytes raw.mSize raw.mGranularity ≤ n * s2b blocksize ↔
        (raw.mSize + raw.mGranularity - 1) / raw.mGranularity ≤ n * s2b blocksize * 8 := by
      rw [hbytes]
      omega
    have h3 : (raw.mSize + raw.mGranularity - 1) / raw.mGranularity ≤ n * s2b blocksize * 8 ↔
        raw.mSize ≤ n * s2b blocksize * 8 * raw.mGranularity := by
      rw [← Nat.lt_succ_iff, Nat.div_lt_iff_lt_mul hg, Nat.succ_mul]
      omega
    rw [h1, h2, h3]
    have heq : n * s2b blocksize * 8 * raw.mGranularity =
        n * (512 * entrySectors blocksize raw) := by
      simp only [s2b, entrySectors]
      ring
    rw [heq]
  have hfew : raw.mL1.length < 2 ^ 32 := by
    refine Nat.lt_of_le_of_lt ((hceil (2 ^ 23)).mpr ?_) (by norm_num)
    omega
  have hdiv : raw.mSize / entrySectors blocksize raw < 2 ^ 32 :=
    (Nat.div_lt_iff_lt_mul hpos).mpr hsize
  rw [covers_iff hpos hfew, u32_of_lt hdiv]
  generalize entrySectors blocksize raw = e at *
  have hzero := hceil 0
  have hone := hceil 1
  constructor
  · intro heq
    rcases Nat.eq_zero_or_pos raw.mSize with h | h
    · exact .inl h
    · have hlt : raw.mSize < (raw.mL1.length + 1) * e :=
        (Nat.div_lt_iff_lt_mul hpos).mp (by omega)
      have hle : raw.mL1.length * e ≤ raw.mSize := (Nat.le_div_iff_mul_le hpos).mp heq.ge
      have hlen1 : raw.mL1.length ≤ 1 := by
        by_contra hgt
        have hprev := (hceil (raw.mL1.length - 1)).not.mp (by omega)
        have hmul : (raw.mL1.length + 1) * e ≤ (raw.mL1.length - 1) * (512 * e) := by
          rw [← Nat.mul_assoc]
          exact Nat.mul_le_mul_right _ (by omega)
        omega
      have hlen0 : raw.mL1.length ≠ 0 := by omega
      have hlen2 : raw.mL1.length = 1 := by omega
      rw [hlen2] at hlt hle
      exact .inr ⟨by omega, by omega⟩
  · rintro (h | ⟨hlo, hhi'⟩)
    · rw [h, Nat.zero_div]
      omega
    · have hq : raw.mSize / e = 1 := by
        refine Nat.div_eq_of_lt_le (by omega) (by omega)
      omega

/-- What the container of a table holds. -/
theorem contains_fill_iff {bmap : PloopBitmap} (hempty : bmap.written = [])
    (hle : bmap.l1Size ≤ bmap.capacity) :
    Contains raw (bmap.fill raw) ↔ bmap.l1Size = raw.mL1.length := by
  constructor
  · intro h
    exact h.l1Size
  · intro h
    refine ⟨fun i hi => ?_, h, fun i hi => ?_⟩
    · simp only [PloopBitmap.fill, hempty, List.nil_append, List.mem_range] at hi
      exact (hi.trans_eq h.symm).trans_le hle
    · have hlt : i < raw.mL1.length := h ▸ hi
      simp only [PloopBitmap.fill]
      rw [overlay_of_mem (Nat.zero_le _) (by omega), Nat.sub_zero, List.getD_eq_getElem?_getD,
        List.getElem?_eq_getElem hlt, Option.getD_some]

end Alloc

section Tracking

variable {md5 : List UInt8 → Sig} {heap : ℕ → UInt8} {f : File} {raw : DirtyBitmapRaw MemEntry}

theorem LoadsCbt.bounds (hload : LoadsCbt md5 heap f raw) (hle : blockSize f.hdr ≤ 2 ^ 26) :
    raw.mGranularity ≠ 0 ∧ raw.mGranularity < 2 ^ 32 ∧ raw.mL1.length < 2 ^ 32 := by
  obtain ⟨rs, r, hrs, hlast, rfl⟩ := loadsCbt_iff.mp hload
  have hmem := List.mem_of_getLast? hlast
  obtain ⟨hrep, hroom⟩ := hrs.elements.fits hmem
  obtain ⟨size, hr⟩ := hrs.elements.loadable hmem
  have hlen : (r.inMemory heap f (blockSize f.hdr)).mL1.length = r.mL1.length := memTable_length
  refine ⟨hr.granularity, hrep.mGranularity, ?_⟩
  rw [hlen]
  omega

/-- The map holds the table exactly if their sizes happen to agree. -/
theorem trackingBitmap_contains_iff {ptr : ℕ → ℕ} {files : Dd.Path → Option File}
    {di : Dd.DiskImagesData} {guid : Option Dd.Guid} {img : Dd.Path}
    (himg : findImage di guid = some img) (hfile : files img = some f)
    (hopen : ∃ d, openDelta f true = some d) (hload : LoadsCbt md5 heap f raw)
    (hbs : isValidBlocksize di.blocksize) :
    (∃ bmap, ploopGetTrackingBitmapFromImage md5 heap ptr files di guid = some bmap ∧
      Contains raw bmap) ↔ Covers di.blocksize raw := by
  obtain ⟨d, hd⟩ := hopen
  obtain ⟨hgran, hgran32, hlen⟩ := hload.bounds (blockSize_of_open hd).2
  obtain ⟨hpos, hsectors⟩ := entrySectors_bounds hbs hgran hgran32
  obtain ⟨ctx, hread, hraw⟩ := readOptionalHeader_eq ptr ⟨d, hd⟩ hload
  obtain ⟨bmap, halloc, hempty, hl1, hcap⟩ : ∃ bmap,
      ploopAllocBitmap raw.mSize di.blocksize raw.mGranularity = some bmap ∧ bmap.written = [] ∧
        bmap.l1Size = u32 (raw.mSize / entrySectors di.blocksize raw) ∧
          bmap.capacity = raw.mSize / entrySectors di.blocksize raw := by
    unfold ploopAllocBitmap
    simp only [hsectors, hpos.ne', if_false]
    exact ⟨_, rfl, rfl, rfl, rfl⟩
  have hrun : ploopGetTrackingBitmapFromImage md5 heap ptr files di guid =
      some (bmap.fill raw) := by
    simp only [ploopGetTrackingBitmapFromImage, Option.bind_eq_bind, himg, Option.bind_some, hfile,
      hread, hraw, halloc]
  have hle : bmap.l1Size ≤ bmap.capacity := by
    rw [hl1, hcap]
    exact Nat.mod_le _ _
  rw [covers_iff hpos hlen, ← hl1, ← contains_fill_iff hempty hle]
  constructor
  · rintro ⟨bmap', hrun', hcontains⟩
    obtain rfl := Option.some.inj (hrun.symm.trans hrun')
    exact hcontains
  · intro hcontains
    exact ⟨_, hrun, hcontains⟩

end Tracking

/-! ## A small disk -/

/-- A disk of 640 sectors whose granules have 8. -/
theorem exists_small_loads : ∃ f raw, (∃ d, openDelta f true = some d) ∧
    LoadsCbt (fun _ => (5, 6, 7, 8)) (fun _ => 0) f raw ∧ raw.mSize = 640 ∧ raw.mGranularity = 8 ∧
      0 < raw.mL1.length := by
  have h : Image (emptyImage 640) := emptyImage_image (by decide) (by decide) (by decide)
  have hbs := @emptyImage_blockSize 640 (by decide) (by decide)
  have hroom : usedBytes (l1Entries wholeDevice (emptyImage 640).hdr0) + elementBytes ≤
      blockSize (emptyImage 640).hdr0 := by
    rw [l1Entries_emptyImage (by decide) (by decide), hbs]
    decide
  obtain ⟨d', hsave, -, hloads⟩ :=
    savesAndLoads (fun _ => (5, 6, 7, 8)) h (by omega) hroom .device fun _ => 0
  have hsrc : Source.device (some wholeDevice) ≠ .device none := by simp
  have hhi := save_size h _ _ hsave
  obtain ⟨hwf, hindex, -⟩ := saved_not_below h hsrc hsave hhi
  obtain ⟨-, ext, _, _, he, -⟩ := save_extended _ hsrc h hhi hsave
  obtain ⟨ctx, raw, hload, hraw, hagrees⟩ := hloads (fun _ => 0) (opened d'.file) rfl rfl
  have hloaded : LoadsCbt (fun _ => (5, 6, 7, 8)) (fun _ => 0) d'.file raw := ⟨ctx, _, hload, hraw⟩
  have hsize : raw.mSize = 640 := by
    obtain ⟨rs, r, hrs, hlast, rfl⟩ := loadsCbt_iff.mp hloaded
    obtain ⟨size, hr⟩ := hrs.elements.loadable (List.mem_of_getLast? hlast)
    refine hr.mSize.trans ?_
    rw [he.hdr]
    exact @emptyImage_size 640 (by decide) (by decide)
  refine ⟨d'.file, raw, exists_openDelta hwf.header ?_ fun _ => rfl, hloaded, hsize, ?_, ?_⟩
  · have hpos := hwf.header.layout.l1_pos
    have hlo := hwf.header.layout.blocksize.1
    have hle : 1 * d'.file.hdr.layout.cluster ≤
        d'.file.hdr.layout.l1Size * d'.file.hdr.layout.cluster := Nat.mul_le_mul_right _ hpos
    simp only [Layout.cluster, s2b] at hle hindex
    omega
  · have hgran := hagrees.granularity
    have hblk : wholeDevice.blksize = 4096 := rfl
    rw [hblk, sectorSize] at hgran
    omega
  · have hdirty := hagrees.dirty 0 (by
      rw [granules, he.hdr]
      change 0 < ((emptyImage 640).hdr0.mSizeInSectorsV2 + 4096 / sectorSize - 1) /
        (4096 / sectorSize)
      rw [@emptyImage_size 640 (by decide) (by decide)]
      decide)
    refine List.length_pos_iff.mpr fun hnil => ?_
    rw [DirtyBitmapRaw.dirty, hnil] at hdirty
    exact absurd hdirty (by simp [wholeDevice])

/-- The descriptor of the disk. -/
def smallDd : Dd.DiskImagesData where
  size := 640
  blocksize := 64
  raw := false
  images := [⟨Dd.topdeltaUuid, ['i'], false⟩]
  snapshots := [⟨Dd.topdeltaUuid, Dd.noneUuid, false, false⟩]
  topGuid := some Dd.topdeltaUuid
  vol := none

theorem findImage_smallDd : findImage smallDd none = some ['i'] := by
  simp [findImage, smallDd, Dd.DiskImagesData.findImageByGuid]

theorem trackingBitmap_contains_iff_small : ∃ f raw,
    (∃ bmap, ploopGetTrackingBitmapFromImage (fun _ => (5, 6, 7, 8)) (fun _ => 0) (fun _ => 0)
      (fun _ => some f) smallDd none = some bmap ∧ Contains raw bmap) ↔
        Covers smallDd.blocksize raw := by
  obtain ⟨f, raw, hopen, hload, -⟩ := exists_small_loads
  exact ⟨f, raw, trackingBitmap_contains_iff findImage_smallDd rfl hopen hload (by decide)⟩

/-- The table is written behind a map without entries. -/
theorem trackingBitmap_not_contains : ¬ ∀ (md5 : List UInt8 → Sig) (heap : ℕ → UInt8)
    (ptr : ℕ → ℕ) (files : Dd.Path → Option File) (di : Dd.DiskImagesData)
    (guid : Option Dd.Guid) (img : Dd.Path) (f : File) (raw : DirtyBitmapRaw MemEntry),
    findImage di guid = some img → files img = some f → (∃ d, openDelta f true = some d) →
      LoadsCbt md5 heap f raw → isValidBlocksize di.blocksize →
        ∃ bmap, ploopGetTrackingBitmapFromImage md5 heap ptr files di guid = some bmap ∧
          Contains raw bmap := by
  intro hall
  obtain ⟨f, raw, hopen, hload, hsize, hgran, hlen⟩ := exists_small_loads
  obtain ⟨bmap, hrun, hcontains⟩ := hall (fun _ => (5, 6, 7, 8)) (fun _ => 0) (fun _ => 0)
    (fun _ => some f) smallDd none ['i'] f raw findImage_smallDd rfl hopen hload (by decide)
  obtain ⟨d, hd⟩ := hopen
  obtain ⟨ctx, hread, hraw⟩ := readOptionalHeader_eq (fun _ => 0) ⟨d, hd⟩ hload
  simp only [ploopGetTrackingBitmapFromImage, Option.bind_eq_bind, findImage_smallDd,
    Option.bind_some, hread, hraw, hsize, hgran] at hrun
  have hl1 := hcontains.l1Size
  obtain rfl := Option.some.inj hrun
  exact absurd hl1 (Nat.ne_of_lt hlen)

end Ploop.Cbt
