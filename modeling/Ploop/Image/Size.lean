import Ploop.Image.Layout
import Ploop.Image.Grow

/-!
# Sizes that creation and grow accept

`check_size` and `round_bdsize` bound the size of a new image, while growing
asks only for whole blocks. The header is right for an accepted size exactly
when its 32-bit sums do not wrap.
-/

namespace Ploop

/-! ## The checks of `ploop.c` -/

/-- `PLOOP_MAX_FS_SIZE` -/
def ploopMaxFsSize : ℕ := 50 * 1024 * 1024 * 1024 * 1024

def getMaxPloopSize (blocksize : ℕ) : FmtVersion → ℕ
  | .v1 => 0xffffffff
  | .v2 => u64 (0xffffffff * blocksize)

def doCheckSize (sectors blocksize : ℕ) (version : FmtVersion) (maxFsSize : ℕ) : Bool :=
  let max := getMaxPloopSize blocksize version
  let max := if maxFsSize ≠ 0 ∧ b2s maxFsSize < max then b2s maxFsSize else max
  sectors ≤ max

def checkSize (sectors blocksize : ℕ) (version : FmtVersion) : Bool :=
  doCheckSize sectors blocksize version ploopMaxFsSize

/-- Up to whole blocks, but down where that would pass the largest size. -/
def roundBdsize (size blocksize : ℕ) : FmtVersion → ℕ
  | .v1 => if 0xffffffff - blocksize < size then size / blocksize * blocksize
      else (size + blocksize - 1) / blocksize * blocksize
  | .v2 => if 0xffffffff - 1 < size / blocksize then size / blocksize * blocksize
      else (size + blocksize - 1) / blocksize * blocksize

/-- The sizes for which a header is generated. -/
inductive Accepted (version : FmtVersion) (blocksize : ℕ) : ℕ → Prop
  | create {size : ℕ} (h : checkSize size blocksize version) :
      Accepted version blocksize (roundBdsize size blocksize version)
  | grow {size : ℕ} (hlt : size < 2 ^ 64) (h : checkBlockdevSize size blocksize) :
      Accepted version blocksize size

/-- The header is that of a disk of `size` sectors, and its table has room. -/
structure HeaderFits (vh : PvdHeader) (size : ℕ) : Prop where
  recorded : getSizeInSectors vh = size
  clusters : vh.mSize.toNat * vh.mSectors.toNat = getSizeInSectors vh
  aligned : vh.mFirstBlockOffset.toNat % vh.mSectors.toNat = 0
  room : headerBytes + 4 * vh.mSize.toNat ≤ s2b vh.mFirstBlockOffset.toNat
  slots : ∀ clu < vh.layout.l2Size, (clu + mapOffset) / vh.layout.slots < vh.layout.l1Size

/-- No field and no sum of the header wraps. -/
def NoWrap (blocksize size : ℕ) : FmtVersion → Prop
  | .v1 => size < 2 ^ 32
  | .v2 => IndexFits size blocksize

/-! ## Accepted sizes -/

section Accepted

variable {version : FmtVersion} {blocksize size : ℕ} {vh : PvdHeader}

theorem doCheckSize_le (h : checkSize size blocksize version) :
    size ≤ b2s ploopMaxFsSize ∧ size ≤ getMaxPloopSize blocksize version := by
  simp only [checkSize, doCheckSize, decide_eq_true_eq] at h
  split at h
  · rename_i hlt
    exact ⟨h, h.trans hlt.2.le⟩
  · rename_i hlt
    have hge : getMaxPloopSize blocksize version ≤ b2s ploopMaxFsSize := by
      by_contra hgt
      exact hlt ⟨by decide, Nat.not_le.mp hgt⟩
    exact ⟨h.trans hge, h⟩

theorem roundBdsize_dvd : blocksize ∣ roundBdsize size blocksize version := by
  cases version <;> simp only [roundBdsize] <;> split <;> exact Nat.dvd_mul_left _ _

theorem roundBdsize_lt (hpos : 0 < blocksize) :
    roundBdsize size blocksize version < size + blocksize := by
  have hdown : size / blocksize * blocksize < size + blocksize :=
    (Nat.div_mul_le_self _ _).trans_lt (Nat.lt_add_of_pos_right hpos)
  have hup : alignUp size blocksize < size + blocksize := alignUp_lt hpos
  cases version <;> simp only [roundBdsize] <;> split
  · exact hdown
  · exact hup
  · exact hdown
  · exact hup

theorem Accepted.dvd (h : Accepted version blocksize size) : blocksize ∣ size := by
  cases h with
  | create h => exact roundBdsize_dvd
  | grow hlt h => exact Nat.dvd_of_mod_eq_zero (of_decide_eq_true h)

theorem Accepted.lt (h : Accepted version blocksize size) (hbs : isValidBlocksize blocksize) :
    size < 2 ^ 64 := by
  cases h with
  | grow hlt h => exact hlt
  | @create size h =>
      have hround : roundBdsize size blocksize version < size + blocksize :=
        roundBdsize_lt hbs.pos
      have hmax := (doCheckSize_le h).1
      have hle := hbs.le
      norm_num [b2s, ploopMaxFsSize] at hmax
      omega

/-- A new image of version 1 fits its header. -/
theorem roundBdsize_lt_v1 (hbs : isValidBlocksize blocksize) (h : checkSize size blocksize .v1) :
    roundBdsize size blocksize .v1 < 2 ^ 32 := by
  have hle := hbs.le
  have hmax : size ≤ 0xffffffff := (doCheckSize_le h).2
  simp only [roundBdsize]
  split
  · have := Nat.div_mul_le_self size blocksize
    omega
  · rename_i hsmall
    have : alignUp size blocksize < size + blocksize := alignUp_lt hbs.pos
    unfold alignUp at this
    omega

/-- Only the smallest block size lets a new image outgrow its index. -/
theorem roundBdsize_indexFits (hbs : isValidBlocksize blocksize) (hlarge : 128 ≤ blocksize)
    (h : checkSize size blocksize version) :
    IndexFits (roundBdsize size blocksize version) blocksize := by
  have hround : roundBdsize size blocksize version < size + blocksize :=
    roundBdsize_lt hbs.pos
  have hmax := (doCheckSize_le h).1
  have hle := hbs.le
  norm_num [b2s, ploopMaxFsSize] at hmax
  have hclusters : roundBdsize size blocksize version / blocksize ≤ 838860801 := by
    have hmul : 838860801 * 128 ≤ 838860801 * blocksize := Nat.mul_le_mul_left _ hlarge
    exact Nat.div_le_of_le_mul (by rw [mul_comm]; omega)
  have hindex : indexBytes (roundBdsize size blocksize version / blocksize) blocksize
      < headerBytes + 4 * (roundBdsize size blocksize version / blocksize) + s2b blocksize :=
    alignUp_lt (by simp only [s2b]; omega)
  simp only [headerBytes, s2b] at hindex
  unfold IndexFits
  omega

end Accepted

/-! ## The header of an accepted size -/

section Header

variable {version : FmtVersion} {blocksize size : ℕ} {vh : PvdHeader}

theorem IndexFits.representable (hbs : isValidBlocksize blocksize) (h : IndexFits size blocksize) :
    Representable .v2 blocksize size := by
  have hle : headerBytes + 4 * (size / blocksize) ≤ indexBytes (size / blocksize) blocksize :=
    le_alignUp (by have := hbs.pos; simp only [s2b]; omega)
  unfold IndexFits at h
  have hclusters : size / blocksize < 2 ^ 30 := by omega
  have hsize : size < 2 ^ 30 * blocksize := (Nat.div_lt_iff_lt_mul hbs.pos).mp hclusters
  have hmul : 2 ^ 30 * blocksize ≤ 2 ^ 30 * 2 ^ 17 := Nat.mul_le_mul_left _ hbs.le
  refine ⟨?_, ?_⟩ <;> omega

/-- A size up to `2 ^ 32` sectors needs a small index. -/
theorem indexFits_of_le (hbs : isValidBlocksize blocksize) (h : size ≤ 2 ^ 32) :
    IndexFits size blocksize := by
  have hle := hbs.le
  have hclusters : size / blocksize ≤ 2 ^ 26 := by
    have hmul : 2 ^ 26 * 64 ≤ 2 ^ 26 * blocksize := Nat.mul_le_mul_left _ hbs.1
    exact Nat.div_le_of_le_mul (by rw [mul_comm]; omega)
  have hindex : indexBytes (size / blocksize) blocksize
      < headerBytes + 4 * (size / blocksize) + s2b blocksize :=
    alignUp_lt (by have := hbs.pos; simp only [s2b]; omega)
  simp only [headerBytes, s2b] at hindex
  unfold IndexFits
  omega

theorem NoWrap.indexFits (hbs : isValidBlocksize blocksize) (h : NoWrap blocksize size version) :
    IndexFits size blocksize := by
  cases version with
  | v1 => exact indexFits_of_le hbs (le_of_lt h)
  | v2 => exact h

theorem NoWrap.representable (hbs : isValidBlocksize blocksize)
    (h : NoWrap blocksize size version) : Representable version blocksize size := by
  cases version with
  | v1 => exact h
  | v2 => exact IndexFits.representable hbs h

/-- Rounding a whole number of clusters does nothing. -/
theorem u64_round (hbs : isValidBlocksize blocksize) (hdvd : blocksize ∣ size)
    (hlt : size < 2 ^ 64) : u64 (u64 (size + blocksize - 1) / blocksize * blocksize) = size := by
  obtain ⟨q, rfl⟩ := hdvd
  have hpos := hbs.pos
  have hround : (blocksize * q + blocksize - 1) / blocksize * blocksize = blocksize * q :=
    le_antisymm (alignUp_le hpos (Nat.dvd_mul_right _ _) le_rfl) (le_alignUp hpos)
  have hdvd64 : blocksize ∣ 2 ^ 64 := hbs.dvd.trans (Nat.pow_dvd_pow 2 (by norm_num))
  have hroom : blocksize * q + blocksize ≤ 2 ^ 64 := by
    obtain ⟨p, hp⟩ := hdvd64
    rw [hp] at hlt ⊢
    have hqp : q < p := Nat.lt_of_mul_lt_mul_left hlt
    rw [← Nat.mul_succ]
    exact Nat.mul_le_mul_left _ hqp
  rw [u64_of_lt (by omega : blocksize * q + blocksize - 1 < 2 ^ 64), hround, u64_of_lt hlt]

theorem generatePvdHeader_mSize (hbs : isValidBlocksize blocksize) (hdvd : blocksize ∣ size)
    (hlt : size < 2 ^ 64) : (generatePvdHeader vh size blocksize version).1.mSize.toNat
      = u32 (size / blocksize) := by
  simp only [generatePvdHeader, UInt32.toNat_ofNat', u64_round hbs hdvd hlt]
  rfl

theorem HeaderFits.of_noWrap (hbs : isValidBlocksize blocksize) (hdvd : blocksize ∣ size)
    (hlt : size < 2 ^ 64) (hnowrap : NoWrap blocksize size version) :
    HeaderFits (generatePvdHeader vh size blocksize version).1 size := by
  have hfit := hnowrap.indexFits hbs
  have hrep := hnowrap.representable hbs
  have hgen : (generatePvdHeader vh size blocksize version).1.GeneratedFor version blocksize size :=
    generatePvdHeader_generatedFor hbs hrep hdvd
  have hvalid := hgen.valid hbs hfit
  have hmsize : (generatePvdHeader vh size blocksize version).1.mSize.toNat = size / blocksize :=
    (generatePvdHeader_mSize hbs hdvd hlt).trans (u32_of_lt hrep.clusters_lt)
  have hcpos : 0 < s2b blocksize := by
    have := hbs.pos
    simp only [s2b]
    omega
  refine ⟨hgen.sizeInSectors, ?_, hvalid.aligned, ?_, fun clu hclu => ?_⟩
  · rw [hmsize, hgen.sectors, hgen.sizeInSectors]
    exact Nat.div_mul_cancel hdvd
  · have hindex : headerBytes + 4 * (size / blocksize) ≤ indexBytes (size / blocksize) blocksize :=
      le_alignUp hcpos
    have hsector : 512 ∣ indexBytes (size / blocksize) blocksize :=
      (Nat.dvd_mul_left 512 blocksize).trans dvd_alignUp
    rw [hmsize, hgen.firstBlock, u32_of_lt hfit, s2b, Nat.div_mul_cancel hsector]
    exact hindex
  · have hroom := hvalid.layout.clu_lt hclu
    rw [mul_comm] at hroom
    exact Nat.div_lt_of_lt_mul hroom

/-- Version 1 keeps the low half of the size only. -/
theorem recorded_lt_v1
    (h : HeaderFits (generatePvdHeader vh size blocksize .v1).1 size) : size < 2 ^ 32 := by
  have hsig : ploop1Version (generatePvdHeader vh size blocksize .v1).1 = some .v1 :=
    ploop1Version_eq_some.mpr rfl
  have hrec := h.recorded
  unfold getSizeInSectors at hrec
  rw [hsig] at hrec
  rw [← hrec]
  exact UInt32.toNat_lt _

theorem clusters_lt_v2 (hbs : isValidBlocksize blocksize) (hdvd : blocksize ∣ size)
    (hlt : size < 2 ^ 64) (h : HeaderFits (generatePvdHeader vh size blocksize .v2).1 size) :
    size / blocksize < 2 ^ 32 := by
  have hsectors : (generatePvdHeader vh size blocksize .v2).1.mSectors.toNat = blocksize := by
    have hle := hbs.le
    simp only [generatePvdHeader, UInt32.toNat_ofNat']
    omega
  have hmul := h.clusters
  rw [h.recorded, hsectors, generatePvdHeader_mSize hbs hdvd hlt] at hmul
  have hdiv : u32 (size / blocksize) = size / blocksize := by
    rw [← Nat.mul_div_cancel (u32 (size / blocksize)) hbs.pos, hmul]
  rw [← hdiv]
  exact u32_lt _

theorem HeaderFits.noWrap (hbs : isValidBlocksize blocksize) (hdvd : blocksize ∣ size)
    (hlt : size < 2 ^ 64) (h : HeaderFits (generatePvdHeader vh size blocksize version).1 size) :
    NoWrap blocksize size version := by
  cases version with
  | v1 => exact recorded_lt_v1 h
  | v2 =>
      have hclusters := clusters_lt_v2 hbs hdvd hlt h
      have hrep : Representable .v2 blocksize size := by
        have hsize : size < 2 ^ 32 * blocksize := (Nat.div_lt_iff_lt_mul hbs.pos).mp hclusters
        have hmul : 2 ^ 32 * blocksize ≤ 2 ^ 32 * 2 ^ 17 := Nat.mul_le_mul_left _ hbs.le
        exact ⟨by omega, hclusters⟩
      have hgen : (generatePvdHeader vh size blocksize .v2).1.GeneratedFor .v2 blocksize size :=
        generatePvdHeader_generatedFor hbs hrep hdvd
      by_contra hwrap
      refine hgen.not_valid hbs hwrap ⟨by simp [hgen.version], hgen.type, h.aligned, ?_, ?_⟩
      · rw [show (generatePvdHeader vh size blocksize .v2).1.layout.blocksize = blocksize
          from hgen.sectors]
        exact hbs
      · have hroom := h.room
        have haligned := Nat.div_mul_cancel (Nat.dvd_of_mod_eq_zero h.aligned)
        have hmsize : (generatePvdHeader vh size blocksize .v2).1.mSize.toNat = size / blocksize :=
          (generatePvdHeader_mSize hbs hdvd hlt).trans (u32_of_lt hclusters)
        rw [hmsize, ← haligned] at hroom
        rw [Layout.slots_eq]
        simp only [PvdHeader.layout, hgen.sizeInSectors, hgen.sectors, s2b, headerBytes,
          mapOffset] at hroom ⊢
        rw [← mul_assoc]
        omega

/-- The header of an accepted size is right exactly where nothing wraps. -/
theorem generatePvdHeader_fits_iff (hbs : isValidBlocksize blocksize)
    (h : Accepted version blocksize size) :
    HeaderFits (generatePvdHeader vh size blocksize version).1 size
      ↔ NoWrap blocksize size version :=
  ⟨HeaderFits.noWrap hbs h.dvd (h.lt hbs), HeaderFits.of_noWrap hbs h.dvd (h.lt hbs)⟩

theorem generatePvdHeader_fits_min :
    HeaderFits (generatePvdHeader PvdHeader.zero 64 64 .v2).1 64 ↔ NoWrap 64 64 .v2 :=
  generatePvdHeader_fits_iff (by decide) (Accepted.grow (by norm_num) (by decide))

/-- 32 TB in the smallest blocks is created, with an index of no size. -/
theorem generatePvdHeader_not_fits :
    ¬ ∀ (version : FmtVersion) (blocksize size : ℕ), isValidBlocksize blocksize →
      Accepted version blocksize size →
      HeaderFits (generatePvdHeader PvdHeader.zero size blocksize version).1 size := by
  intro h
  have hcreate : Accepted .v2 64 (roundBdsize ((2 ^ 30 - 16) * 64) 64 .v2) :=
    Accepted.create (by decide)
  have hsize : roundBdsize ((2 ^ 30 - 16) * 64) 64 .v2 = (2 ^ 30 - 16) * 64 := by decide
  rw [hsize] at hcreate
  exact absurd (h .v2 64 _ (by decide) hcreate).room (by decide)

end Header

end Ploop
