import Ploop.Image.Size
import Ploop.Image.Blank

/-!
# `create_empty_preallocated_delta`

A preallocated image has a block for every cluster from the start. The entry of a
cluster is computed from its first sector, in 32 bits.
-/

namespace Ploop

open Storage

/-! ## The source -/

/-- Entry `l2Slot` of the table. -/
def preallocEntry (vh : PvdHeader) (blocksize : ℕ) (version : FmtVersion) (l2Slot : ℕ) : UInt32 :=
  secToIoff (vh.mFirstBlockOffset.toNat + u32 (l2Slot * blocksize)) blocksize version

def preallocSkip (clu : ℕ) : ℕ := if clu = 0 then mapOffset else 0

/-- Cluster `clu` of the index, in which `l2Slot` is the first slot. -/
def preallocPage (vh : PvdHeader) (blocksize : ℕ) (version : FmtVersion) (clu l2Slot : ℕ) :
    ℕ → UInt32 := fun i =>
  if i < preallocSkip clu then vh.toWords i
  else if l2Slot + (i - preallocSkip clu) < vh.mSize.toNat then
    preallocEntry vh blocksize version (l2Slot + (i - preallocSkip clu))
  else 0

/-- The loop over the index from cluster `clu` on. -/
def preallocFrom (vh : PvdHeader) (blocksize : ℕ) (version : FmtVersion) (cancelled : ℕ → Bool) :
    ℕ → ℕ → ℕ → File → Option File
  | 0, _, _, f => some f
  | k + 1, clu, l2Slot, f =>
      if cancelled clu then none
      else
        let cluster := s2b blocksize
        preallocFrom vh blocksize version cancelled k (clu + 1)
          (min (l2Slot + (cluster / 4 - preallocSkip clu)) vh.mSize.toNat)
          (f.pwrite ⟨clu * cluster, cluster,
            wordBytes (preallocPage vh blocksize version clu l2Slot)⟩)

/-- `create_empty_preallocated_delta`, up to the name of the file. `allocated` says whether
`fallocate` or `ftruncate` gave the file its size, and `cancelled` when the user gave up. -/
def createEmptyPreallocatedDelta (blocksize bdsize : ℕ) (version : FmtVersion) (allocated : Bool)
    (cancelled : ℕ → Bool) : Option File :=
  if ¬ checkBlockdevSize bdsize blocksize then none
  else
    let (vh, fill) := generatePvdHeader PvdHeader.zero bdsize blocksize version
    let vh := { vh with mFlags := cifEmpty }
    let sizeBytes := u64 (s2b (u64 (vh.mFirstBlockOffset.toNat + getSizeInSectors vh)))
    if allocated then
      preallocFrom vh blocksize version cancelled (fill / s2b blocksize) 0 0
        (File.empty.ftruncate sizeBytes)
    else none

/-! ## The words of the index -/

/-- Word `w` of the index. -/
def preallocWord (vh : PvdHeader) (blocksize : ℕ) (version : FmtVersion) (w : ℕ) : UInt32 :=
  if w < mapOffset then vh.toWords w
  else if w - mapOffset < vh.mSize.toNat then preallocEntry vh blocksize version (w - mapOffset)
  else 0

section Loop

variable {vh : PvdHeader} {blocksize : ℕ} {version : FmtVersion} {cancelled : ℕ → Bool}
  {f g : File} {clu l2Slot : ℕ}

theorem preallocPage_eq {n i : ℕ} (hn : mapOffset ≤ n)
    (hslot : l2Slot = min (clu * n - mapOffset) vh.mSize.toNat) :
    preallocPage vh blocksize version clu l2Slot i
      = preallocWord vh blocksize version (clu * n + i) := by
  rcases Nat.eq_zero_or_pos clu with rfl | hclu
  · have hzero : l2Slot = 0 := by
      rw [hslot, Nat.zero_mul, Nat.zero_sub, Nat.zero_min]
    simp only [preallocPage, preallocWord, preallocSkip, if_true, hzero, Nat.zero_mul, Nat.zero_add]
  · have hle : n ≤ clu * n := Nat.le_mul_of_pos_left n hclu
    have hword : ¬ clu * n + i < mapOffset := by omega
    simp only [preallocPage, preallocWord, preallocSkip, if_neg hclu.ne', if_neg hword,
      Nat.not_lt_zero, if_false, Nat.sub_zero]
    by_cases hfits : clu * n - mapOffset ≤ vh.mSize.toNat
    · have heq : l2Slot + i = clu * n + i - mapOffset := by
        rw [hslot, min_eq_left hfits]
        omega
      rw [heq]
    · have hge : ¬ l2Slot + i < vh.mSize.toNat := by
        rw [hslot, min_eq_right (by omega)]
        omega
      rw [if_neg hge, if_neg (by omega)]

theorem preallocFrom_spec (hbs : 64 ≤ blocksize) {k : ℕ}
    (hslot : l2Slot = min (clu * (blocksize * 128) - mapOffset) vh.mSize.toNat)
    (h : preallocFrom vh blocksize version cancelled k clu l2Slot f = some g) :
    f.size ≤ g.size ∧ ∀ w, g.word w =
      if clu * (blocksize * 128) ≤ w ∧ w < (clu + k) * (blocksize * 128) then
        preallocWord vh blocksize version w
      else f.word w := by
  induction k generalizing clu l2Slot f with
  | zero =>
      obtain rfl := Option.some.inj h
      refine ⟨le_rfl, fun w => (if_neg ?_).symm⟩
      rw [Nat.add_zero]
      omega
  | succ k ih =>
      unfold preallocFrom at h
      split at h
      · exact absurd h (Option.some_ne_none g).symm
      · have hcluster : s2b blocksize = 4 * (blocksize * 128) := by
          simp only [s2b]
          omega
        have hsucc : (clu + 1) * (blocksize * 128) = clu * (blocksize * 128) + blocksize * 128 :=
          Nat.succ_mul _ _
        have hslot' : min (l2Slot + (s2b blocksize / 4 - preallocSkip clu)) vh.mSize.toNat =
            min ((clu + 1) * (blocksize * 128) - mapOffset) vh.mSize.toNat := by
          have hdiv : s2b blocksize / 4 = blocksize * 128 := by omega
          rw [hslot, hsucc, hdiv]
          rcases Nat.eq_zero_or_pos clu with rfl | hclu
          · simp only [preallocSkip, if_true, mapOffset]
            omega
          · have hle : blocksize * 128 ≤ clu * (blocksize * 128) :=
              Nat.le_mul_of_pos_left _ hclu
            simp only [preallocSkip, if_neg hclu.ne', mapOffset]
            omega
        obtain ⟨hsize, hword⟩ := ih hslot' h
        refine ⟨(File.le_size_pwrite _ _).trans hsize, fun w => ?_⟩
        have hmul : (clu + 1 + k) * (blocksize * 128) = (clu + (k + 1)) * (blocksize * 128) := by
          ring
        have hle : (clu + 1) * (blocksize * 128) ≤ (clu + (k + 1)) * (blocksize * 128) :=
          Nat.mul_le_mul_right _ (by omega)
        have hoff : clu * s2b blocksize = 4 * (clu * (blocksize * 128)) := by
          rw [hcluster]
          ring
        rw [hword, hmul]
        by_cases hin : clu * (blocksize * 128) ≤ w ∧ w < (clu + 1) * (blocksize * 128)
        · rw [if_neg (by omega), if_pos (by omega),
            File.word_pwrite_of_mem _ hoff hin.1 (by simp only; omega), bytesWord_wordBytes,
            preallocPage_eq (by simp only [mapOffset]; omega) hslot, Nat.add_sub_cancel' hin.1]
        · by_cases hlater : (clu + 1) * (blocksize * 128) ≤ w ∧
            w < (clu + (k + 1)) * (blocksize * 128)
          · rw [if_pos hlater, if_pos (by omega)]
          · rw [if_neg hlater, if_neg (by omega),
              File.word_pwrite_of_not_mem _ (by simp only; omega)]

/-- The run ends when nobody gives up. -/
theorem preallocFrom_isSome {k : ℕ} (h : ∀ c, cancelled c = false) :
    (preallocFrom vh blocksize version cancelled k clu l2Slot f).isSome := by
  induction k generalizing clu l2Slot f with
  | zero => rfl
  | succ k ih =>
      unfold preallocFrom
      rw [h clu, if_neg Bool.false_ne_true]
      exact ih

end Loop

/-! ## Every cluster has a block of its own -/

/-- Cluster `k` lies in block `l1Size + k`. -/
structure Preallocated (L : Layout) (f : File) : Prop where
  layout : f.hdr.layout = L
  allocated : ∀ k < L.l2Size, Layout.entry f k ≠ 0
  block : ∀ k < L.l2Size, ioffToSec (Layout.entry f k) L.blocksize L.version
    = (L.l1Size + k) * L.blocksize
  distinct : Set.InjOn (Layout.entry f) {k | k < L.l2Size}
  inside : ∀ k < L.l2Size, (L.l1Size + k + 1) * L.cluster ≤ f.size

/-- No offset of a block passes 32 bits. -/
def PreallocFits (blocksize bdsize : ℕ) : FmtVersion → Prop
  | .v1 => indexBytes (bdsize / blocksize) blocksize / 512 + bdsize ≤ 2 ^ 32
  | .v2 => bdsize ≤ 2 ^ 32

/-- The header of a preallocated image. -/
def preallocHeader (blocksize bdsize : ℕ) (version : FmtVersion) : PvdHeader :=
  { (generatePvdHeader PvdHeader.zero bdsize blocksize version).1 with mFlags := cifEmpty }

section Sizes

variable {version : FmtVersion} {blocksize size : ℕ} (hbs : isValidBlocksize blocksize)

include hbs

theorem create_representable (h : checkSize size blocksize version) :
    Representable version blocksize (roundBdsize size blocksize version) := by
  cases version with
  | v1 => exact roundBdsize_lt_v1 hbs h
  | v2 =>
      have hround : roundBdsize size blocksize .v2 < size + blocksize := roundBdsize_lt hbs.pos
      have hmax := (doCheckSize_le h).1
      have hle := hbs.le
      have hmin : 2 ^ 32 * 64 ≤ 2 ^ 32 * blocksize := Nat.mul_le_mul_left _ hbs.1
      norm_num [b2s, ploopMaxFsSize] at hmax
      refine ⟨by omega, Nat.div_lt_of_lt_mul ?_⟩
      rw [mul_comm]
      omega

theorem create_small (h : checkSize size blocksize version) :
    roundBdsize size blocksize version < 2 ^ 40 := by
  have hround : roundBdsize size blocksize version < size + blocksize := roundBdsize_lt hbs.pos
  have hmax := (doCheckSize_le h).1
  have hle := hbs.le
  norm_num [b2s, ploopMaxFsSize] at hmax
  omega

end Sizes

/-! ## The image as a whole -/

section Image

variable {version : FmtVersion} {blocksize bdsize : ℕ} {allocated : Bool}
  {cancelled : ℕ → Bool} {f : File} (hbs : isValidBlocksize blocksize)
  (hrep : Representable version blocksize bdsize) (hdvd : blocksize ∣ bdsize)

include hbs hrep hdvd

theorem preallocHeader_generated :
    (preallocHeader blocksize bdsize version).GeneratedFor version blocksize bdsize :=
  (generatePvdHeader_generatedFor hbs hrep hdvd).setFields _ _

theorem preallocHeader_mSize :
    (preallocHeader blocksize bdsize version).mSize.toNat = bdsize / blocksize := by
  have hsize : (generatePvdHeader PvdHeader.zero bdsize blocksize version).1.mSize.toNat
      = u32 (bdsize / blocksize) :=
    generatePvdHeader_mSize hbs hdvd (hrep.lt.trans (by norm_num))
  exact hsize.trans (u32_of_lt hrep.clusters_lt)

theorem createEmptyPreallocatedDelta_spec (hsmall : bdsize < 2 ^ 40)
    (h : createEmptyPreallocatedDelta blocksize bdsize version allocated cancelled = some f) :
    (preallocHeader blocksize bdsize version).mFirstBlockOffset.toNat * 512 + bdsize * 512
        ≤ f.size ∧
      ∀ w, f.word w = if w < (preallocHeader blocksize bdsize version).layout.l1Size
          * (blocksize * 128) then
        preallocWord (preallocHeader blocksize bdsize version) blocksize version w else 0 := by
  have hgen := preallocHeader_generated hbs hrep hdvd
  have hfirst := (preallocHeader blocksize bdsize version).mFirstBlockOffset.toNat_lt
  have hfill : (generatePvdHeader PvdHeader.zero bdsize blocksize version).2 / s2b blocksize
      = (preallocHeader blocksize bdsize version).layout.l1Size := by
    rw [generatePvdHeader_fill hbs hrep hdvd, hgen.layout_eq_mod]
  have hsize : u64 (s2b (u64 ((preallocHeader blocksize bdsize version).mFirstBlockOffset.toNat
      + getSizeInSectors (preallocHeader blocksize bdsize version)))) =
      ((preallocHeader blocksize bdsize version).mFirstBlockOffset.toNat + bdsize) * 512 := by
    rw [hgen.sizeInSectors, s2b, u64_of_lt (by omega :
      (preallocHeader blocksize bdsize version).mFirstBlockOffset.toNat + bdsize < 2 ^ 64)]
    exact u64_of_lt (by omega)
  unfold createEmptyPreallocatedDelta at h
  split at h
  · exact absurd h (Option.some_ne_none f).symm
  · dsimp only at h
    split at h
    · change preallocFrom (preallocHeader blocksize bdsize version) blocksize version cancelled _
        0 0 (File.empty.ftruncate (u64 (s2b (u64 ((preallocHeader blocksize bdsize
          version).mFirstBlockOffset.toNat + getSizeInSectors
            (preallocHeader blocksize bdsize version)))))) = some f at h
      rw [hfill, hsize] at h
      obtain ⟨hle, hword⟩ := preallocFrom_spec hbs.1 (by simp) h
      refine ⟨?_, fun w => ?_⟩
      · rw [File.size_ftruncate, Nat.add_mul] at hle
        exact hle
      · rw [hword w, Nat.zero_mul, Nat.zero_add]
        have hzero : (File.empty.ftruncate (((preallocHeader blocksize bdsize
            version).mFirstBlockOffset.toNat + bdsize) * 512)).word w = 0 := by
          have hbyte : ∀ i, (File.empty.ftruncate (((preallocHeader blocksize bdsize
              version).mFirstBlockOffset.toNat + bdsize) * 512)).byte i = 0 := by
            intro i
            simp [File.ftruncate, File.empty]
          simp [File.word, bytesWord, hbyte]
        rw [hzero]
        exact if_congr (and_iff_right (Nat.zero_le w)) rfl rfl
    · exact absurd h (Option.some_ne_none f).symm

/-- The entries that lie in the index area are those computed. -/
theorem preallocated_entry (hsmall : bdsize < 2 ^ 40)
    (h : createEmptyPreallocatedDelta blocksize bdsize version allocated cancelled = some f)
    {k : ℕ} (hk : k < bdsize / blocksize) : Layout.entry f k =
      if k + mapOffset < (preallocHeader blocksize bdsize version).layout.l1Size
          * (blocksize * 128) then
        preallocEntry (preallocHeader blocksize bdsize version) blocksize version k else 0 := by
  have hword := (createEmptyPreallocatedDelta_spec hbs hrep hdvd hsmall h).2 (k + mapOffset)
  have hpre : preallocWord (preallocHeader blocksize bdsize version) blocksize version
      (k + mapOffset) = preallocEntry (preallocHeader blocksize bdsize version) blocksize version k
      := by
    rw [preallocWord, if_neg (by omega), Nat.add_sub_cancel,
      preallocHeader_mSize hbs hrep hdvd, if_pos hk]
  rw [hpre] at hword
  exact hword

/-- Where the sums do not wrap, the entry is that of the block. -/
theorem preallocEntry_eq (hfit : IndexFits bdsize blocksize) {k : ℕ}
    (hk : k * blocksize < 2 ^ 32) :
    preallocEntry (preallocHeader blocksize bdsize version) blocksize version k
      = (newLayout version blocksize bdsize).encode
        ((newLayout version blocksize bdsize).l1Size + k) := by
  have hgen := preallocHeader_generated hbs hrep hdvd
  have hvalid := hgen.valid hbs hfit
  have hfirst : (preallocHeader blocksize bdsize version).mFirstBlockOffset.toNat
      = (newLayout version blocksize bdsize).l1Size * blocksize := by
    have hl1 : (preallocHeader blocksize bdsize version).mFirstBlockOffset.toNat / blocksize
        = (newLayout version blocksize bdsize).l1Size := by
      rw [← hgen.layout_eq hfit]
      exact congrArg (_ / ·) hgen.sectors.symm
    have haligned := hvalid.aligned
    rw [hgen.sectors] at haligned
    rw [← hl1, Nat.div_mul_cancel (Nat.dvd_of_mod_eq_zero haligned)]
  rw [preallocEntry, hfirst, u32_of_lt hk, ← Nat.add_mul]
  rfl

end Image

section Created

variable {version : FmtVersion} {blocksize size bdsize : ℕ} {allocated : Bool}
  {cancelled : ℕ → Bool} {f : File} (hbs : isValidBlocksize blocksize)

include hbs

theorem newLayout_first : (newLayout version blocksize bdsize).l1Size * blocksize
    = indexBytes (bdsize / blocksize) blocksize / 512 := by
  have hpos := hbs.pos
  obtain ⟨q, hq⟩ : s2b blocksize ∣ indexBytes (bdsize / blocksize) blocksize := dvd_alignUp
  have hbytes : s2b blocksize * q = 512 * (q * blocksize) := by
    simp only [s2b]
    ring
  have hcpos : 0 < s2b blocksize := by
    simp only [s2b]
    omega
  simp only [newLayout, hq, Nat.mul_div_cancel_left _ hcpos]
  rw [hbytes, Nat.mul_div_cancel_left _ (by norm_num)]

theorem PreallocFits.indexFits (hrep : Representable version blocksize bdsize)
    (h : PreallocFits blocksize bdsize version) : IndexFits bdsize blocksize := by
  cases version with
  | v1 => exact indexFits_of_le hbs (le_of_lt hrep)
  | v2 => exact indexFits_of_le hbs h

/-- The last block of the image has an entry. -/
theorem PreallocFits.fits (h : PreallocFits blocksize bdsize version) {k : ℕ}
    (hk : k < bdsize / blocksize) :
    (newLayout version blocksize bdsize).Fits
      ((newLayout version blocksize bdsize).l1Size + k) := by
  have hend : (k + 1) * blocksize ≤ bdsize :=
    (Nat.mul_le_mul_right _ hk).trans (Nat.div_mul_le_self _ _)
  have hpos := hbs.pos
  rw [Nat.succ_mul] at hend
  cases version with
  | v1 =>
      have hfirst : (newLayout .v1 blocksize bdsize).l1Size * blocksize
          = indexBytes (bdsize / blocksize) blocksize / 512 := newLayout_first hbs
      change ((newLayout .v1 blocksize bdsize).l1Size + k) * blocksize < 2 ^ 32
      rw [Nat.add_mul, hfirst]
      unfold PreallocFits at h
      omega
  | v2 =>
      have hfirst : (newLayout .v2 blocksize bdsize).l1Size * blocksize
          = indexBytes (bdsize / blocksize) blocksize / 512 := newLayout_first hbs
      have hindex : indexBytes (bdsize / blocksize) blocksize < 2 ^ 32 := indexFits_of_le hbs h
      have hmin : ((newLayout .v2 blocksize bdsize).l1Size + k) * 64
          ≤ ((newLayout .v2 blocksize bdsize).l1Size + k) * blocksize :=
        Nat.mul_le_mul_left _ hbs.1
      change (newLayout .v2 blocksize bdsize).l1Size + k < 2 ^ 32
      rw [Nat.add_mul _ _ blocksize, hfirst] at hmin
      unfold PreallocFits at h
      omega

theorem preallocated_of_fits (hrep : Representable version blocksize bdsize)
    (hdvd : blocksize ∣ bdsize) (hsmall : bdsize < 2 ^ 40)
    (h : createEmptyPreallocatedDelta blocksize bdsize version allocated cancelled = some f)
    (hfits : PreallocFits blocksize bdsize version) :
    Preallocated (preallocHeader blocksize bdsize version).layout f := by
  have hgen := preallocHeader_generated hbs hrep hdvd
  have hindex := hfits.indexFits hbs hrep
  have hvalid := hgen.valid hbs hindex
  have hL : (newLayout version blocksize bdsize).Valid := by
    rw [← hgen.layout_eq hindex]
    exact hvalid.layout
  have hpos : 0 < (newLayout version blocksize bdsize).blocksize := hL.pos
  have hl1 := hL.l1_pos
  have hentry : ∀ k < bdsize / blocksize, Layout.entry f k
      = (newLayout version blocksize bdsize).encode
        ((newLayout version blocksize bdsize).l1Size + k) := by
    intro k hk
    have hroom : k + mapOffset < (newLayout version blocksize bdsize).l1Size * (blocksize * 128) :=
      (hL.clu_lt hk).trans_eq (congrArg (_ * ·) Layout.slots_eq)
    have hoff : k * blocksize < 2 ^ 32 := by
      have hend : (k + 1) * blocksize ≤ bdsize :=
        (Nat.mul_le_mul_right _ hk).trans (Nat.div_mul_le_self _ _)
      have hbpos := hbs.pos
      rw [Nat.succ_mul] at hend
      cases version with
      | v1 =>
          have : bdsize < 2 ^ 32 := hrep
          omega
      | v2 =>
          have : bdsize ≤ 2 ^ 32 := hfits
          omega
    rw [preallocated_entry hbs hrep hdvd hsmall h hk, hgen.layout_eq hindex, if_pos hroom,
      preallocEntry_eq hbs hrep hdvd hindex hoff]
  obtain ⟨hsize, hword⟩ := createEmptyPreallocatedDelta_spec hbs hrep hdvd hsmall h
  have hhdr : f.hdr = preallocHeader blocksize bdsize version := by
    refine PvdHeader.ofWords_congr (w := (preallocHeader blocksize bdsize version).toWords)
      fun i hi => ?_
    have hroom := hL.room
    rw [Layout.slots_eq] at hroom
    have hin : i < (newLayout version blocksize bdsize).l1Size * (blocksize * 128) :=
      (by simp only [mapOffset]; omega : i < _ + mapOffset).trans_le hroom
    rw [hword i, hgen.layout_eq hindex, if_pos hin, preallocWord]
    exact if_pos hi
  rw [hgen.layout_eq hindex]
  refine ⟨hhdr ▸ hgen.layout_eq hindex, fun k hk => ?_, fun k hk => ?_, fun k hk k' hk' heq => ?_,
    fun k hk => ?_⟩
  · rw [hentry k hk]
    exact Layout.encode_ne_zero hpos (hfits.fits hbs hk) (by omega)
  · rw [hentry k hk]
    exact Layout.ioffToSec_encode hpos (hfits.fits hbs hk)
  · rw [hentry k hk, hentry k' hk'] at heq
    exact Nat.add_left_cancel
      (Layout.encode_inj hpos (hfits.fits hbs hk) (hfits.fits hbs hk') heq)
  · have hfirst : (newLayout version blocksize bdsize).l1Size * blocksize
        = indexBytes (bdsize / blocksize) blocksize / 512 := newLayout_first hbs
    have hend : (k + 1) * blocksize ≤ bdsize :=
      (Nat.mul_le_mul_right _ hk).trans (Nat.div_mul_le_self _ _)
    rw [hgen.firstBlock, u32_of_lt hindex, ← hfirst] at hsize
    calc ((newLayout version blocksize bdsize).l1Size + k + 1) * s2b blocksize
        = (newLayout version blocksize bdsize).l1Size * blocksize * 512
          + (k + 1) * blocksize * 512 := by
            rw [s2b]
            ring
      _ ≤ (newLayout version blocksize bdsize).l1Size * blocksize * 512 + bdsize * 512 :=
          Nat.add_le_add_left (Nat.mul_le_mul_right _ hend) _
      _ ≤ f.size := hsize

theorem fits_of_preallocated (hrep : Representable version blocksize bdsize)
    (hdvd : blocksize ∣ bdsize) (hsmall : bdsize < 2 ^ 40)
    (h : createEmptyPreallocatedDelta blocksize bdsize version allocated cancelled = some f)
    (hpre : Preallocated (preallocHeader blocksize bdsize version).layout f) :
    PreallocFits blocksize bdsize version := by
  have hgen := preallocHeader_generated hbs hrep hdvd
  have hpos := hbs.pos
  obtain ⟨q, rfl⟩ := hdvd
  by_contra hnot
  cases version with
  | v1 =>
      have hindex : IndexFits (blocksize * q) blocksize := indexFits_of_le hbs (le_of_lt hrep)
      have hfirst : (newLayout .v1 blocksize (blocksize * q)).l1Size * blocksize
          = indexBytes (blocksize * q / blocksize) blocksize / 512 := newLayout_first hbs
      have hsmallIndex : indexBytes (blocksize * q / blocksize) blocksize < 2 ^ 32 := hindex
      have hsum : ¬ indexBytes (blocksize * q / blocksize) blocksize / 512 + blocksize * q
          ≤ 2 ^ 32 :=
        hnot
      have hq : 0 < q := by
        rcases Nat.eq_zero_or_pos q with rfl | hq
        · rw [Nat.mul_zero] at hsum hsmallIndex
          omega
        · exact hq
      rw [hgen.layout_eq hindex] at hpre
      -- the last block lies behind what an entry can say
      have hlast := hpre.block (q - 1) (by
        change q - 1 < blocksize * q / blocksize
        rw [Nat.mul_div_cancel_left _ hpos]
        omega)
      have hentry := (Layout.entry f (q - 1)).toNat_lt
      change (Layout.entry f (q - 1)).toNat = _ at hlast
      obtain ⟨p, hp⟩ := hbs.dvd
      have hpast : p * blocksize
          < ((newLayout .v1 blocksize (blocksize * q)).l1Size + q) * blocksize := by
        rw [Nat.add_mul, hfirst, mul_comm p, ← hp, mul_comm q]
        exact Nat.not_le.mp hsum
      have hgt := Nat.lt_of_mul_lt_mul_right hpast
      have hge : p * blocksize ≤ ((newLayout .v1 blocksize (blocksize * q)).l1Size + (q - 1))
          * blocksize := Nat.mul_le_mul_right _ (by omega)
      rw [mul_comm p, ← hp] at hge
      exact absurd (hlast.symm.trans_lt hentry) (Nat.not_lt.mpr hge)
  | v2 =>
      obtain ⟨p, hp⟩ := hbs.dvd
      have hgt : 2 ^ 32 < blocksize * q := Nat.not_le.mp hnot
      have hk : p < blocksize * q / blocksize := by
        rw [Nat.mul_div_cancel_left _ hpos]
        rw [hp] at hgt
        exact Nat.lt_of_mul_lt_mul_left hgt
      have hppos : 0 < p := by
        rcases Nat.eq_zero_or_pos p with rfl | hp'
        · omega
        · exact hp'
      have hmul : u32 (p * blocksize) = 0 := by
        rw [mul_comm, ← hp]
        rfl
      have hl2 : (preallocHeader blocksize (blocksize * q) .v2).layout.l2Size
          = blocksize * q / blocksize := by
        rw [hgen.layout_eq_mod]
        rfl
      have hversion : (preallocHeader blocksize (blocksize * q) .v2).layout.version = .v2 := by
        rw [hgen.layout_eq_mod]
        rfl
      have hsectors :
          (preallocHeader blocksize (blocksize * q) .v2).layout.blocksize = blocksize := by
        rw [hgen.layout_eq_mod]
        rfl
      have hne := hpre.allocated p (hk.trans_eq hl2.symm)
      have hblock := hpre.block p (hk.trans_eq hl2.symm)
      have hentry := preallocated_entry hbs hrep (Nat.dvd_mul_right _ _) hsmall h hk
      split at hentry
      · -- the product has wrapped, and the cluster shares a block with the first one
        have hlt := (preallocHeader blocksize (blocksize * q) .v2).mFirstBlockOffset.toNat_lt
        have hdiv := Nat.div_le_self
          (preallocHeader blocksize (blocksize * q) .v2).mFirstBlockOffset.toNat blocksize
        rw [hentry, preallocEntry, hmul, Nat.add_zero, hversion, hsectors] at hblock
        simp only [secToIoff, ioffToSec] at hblock
        rw [UInt32.toNat_ofNat_of_lt' (lt_of_le_of_lt hdiv hlt)] at hblock
        have hl1 : (preallocHeader blocksize (blocksize * q) .v2).layout.l1Size
            = (preallocHeader blocksize (blocksize * q) .v2).mFirstBlockOffset.toNat / blocksize :=
          congrArg (_ / ·) hgen.sectors
        have heq := Nat.eq_of_mul_eq_mul_right hpos hblock
        omega
      · exact hne hentry

/-- Every cluster has its own block exactly as long as the offsets fit their 32 bits. -/
theorem createEmptyPreallocatedDelta_iff (hsize : checkSize size blocksize version)
    (h : createEmptyPreallocatedDelta blocksize (roundBdsize size blocksize version) version
      allocated cancelled = some f) :
    Preallocated (preallocHeader blocksize (roundBdsize size blocksize version) version).layout f
      ↔ PreallocFits blocksize (roundBdsize size blocksize version) version :=
  ⟨fits_of_preallocated hbs (create_representable hbs hsize) roundBdsize_dvd
      (create_small hbs hsize) h,
    preallocated_of_fits hbs (create_representable hbs hsize) roundBdsize_dvd
      (create_small hbs hsize) h⟩

end Created

theorem createEmptyPreallocatedDelta_isSome {version : FmtVersion} {blocksize bdsize : ℕ}
    {cancelled : ℕ → Bool} (hdvd : blocksize ∣ bdsize) (h : ∀ c, cancelled c = false) :
    (createEmptyPreallocatedDelta blocksize bdsize version true cancelled).isSome := by
  have hcheck : checkBlockdevSize bdsize blocksize = true :=
    decide_eq_true (Nat.mod_eq_zero_of_dvd hdvd)
  unfold createEmptyPreallocatedDelta
  rw [if_neg (not_not.mpr hcheck)]
  exact preallocFrom_isSome h

theorem createEmptyPreallocatedDelta_iff_default : ∃ f,
    createEmptyPreallocatedDelta 2048 (roundBdsize (2 ^ 21) 2048 .v2) .v2 true (fun _ => false)
        = some f ∧
      (Preallocated (preallocHeader 2048 (roundBdsize (2 ^ 21) 2048 .v2) .v2).layout f
        ↔ PreallocFits 2048 (roundBdsize (2 ^ 21) 2048 .v2) .v2) := by
  have hbs : isValidBlocksize 2048 := by decide
  obtain ⟨f, hf⟩ := Option.isSome_iff_exists.mp
    (createEmptyPreallocatedDelta_isSome roundBdsize_dvd fun _ => rfl)
  exact ⟨f, hf, createEmptyPreallocatedDelta_iff hbs (by decide) hf⟩

/-- One cluster past 2 TB is given the first block again. -/
theorem createEmptyPreallocatedDelta_shares :
    ¬ ∀ (version : FmtVersion) (blocksize size : ℕ) (allocated : Bool) (cancelled : ℕ → Bool)
      (f : File), isValidBlocksize blocksize → checkSize size blocksize version →
      createEmptyPreallocatedDelta blocksize (roundBdsize size blocksize version) version
        allocated cancelled = some f →
      Preallocated (preallocHeader blocksize (roundBdsize size blocksize version) version).layout
        f := by
  intro h
  have hbs : isValidBlocksize 2048 := by decide
  have hsize : roundBdsize (2 ^ 32 + 2048) 2048 .v2 = 2 ^ 32 + 2048 := by decide
  have hdvd : 2048 ∣ roundBdsize (2 ^ 32 + 2048) 2048 .v2 := roundBdsize_dvd
  have hcheck : checkSize (2 ^ 32 + 2048) 2048 .v2 := by decide
  obtain ⟨f, hf⟩ := Option.isSome_iff_exists.mp
    (createEmptyPreallocatedDelta_isSome hdvd fun _ => rfl)
  have hfits := fits_of_preallocated hbs (create_representable hbs hcheck) hdvd
    (create_small hbs hcheck) hf (h _ _ _ _ _ f hbs hcheck hf)
  rw [hsize] at hfits
  exact absurd hfits (by unfold PreallocFits; norm_num)

end Ploop
