import Ploop.Lib.ByteFile

/-!
# The image header

`ploop1_image.h`: the 64-byte header that shares the first cluster with the
block allocation table, the two format versions, and the helpers that compute
a header for a requested device size. Sizes pass through 32-bit fields and
32-bit sums; every such truncation of the source is kept.
-/

namespace Ploop

open Storage

/-! ## Units -/

def sectorSize : ℕ := 512

/-- `S2B` -/
def s2b (sec : ℕ) : ℕ := sec * 512

/-- `B2S` -/
def b2s (bytes : ℕ) : ℕ := bytes / 512

/-- # slots of the first cluster that the header occupies. -/
def mapOffset : ℕ := 16

def headerBytes : ℕ := 64

def u32 (x : ℕ) : ℕ := x % 2 ^ 32

def u64 (x : ℕ) : ℕ := x % 2 ^ 64

theorem u32_of_lt {x : ℕ} (h : x < 2 ^ 32) : u32 x = x := Nat.mod_eq_of_lt h

theorem u64_of_lt {x : ℕ} (h : x < 2 ^ 64) : u64 x = x := Nat.mod_eq_of_lt h

theorem u32_lt (x : ℕ) : u32 x < 2 ^ 32 := Nat.mod_lt _ (by norm_num)

/-- Position of the least significant set bit, counted from one. -/
def ffs (x : ℕ) : ℕ := ((List.range 32).find? x.testBit).elim 0 (· + 1)

/-- 32K to 64M in sectors, and a power of two. -/
def isValidBlocksize (blocksize : ℕ) : Prop :=
  64 ≤ blocksize ∧ blocksize ≤ b2s (64 * 1024 * 1024) ∧ blocksize = 2 ^ (ffs blocksize - 1)

instance (blocksize : ℕ) : Decidable (isValidBlocksize blocksize) :=
  inferInstanceAs (Decidable (_ ∧ _ ∧ _))

theorem isValidBlocksize_iff {blocksize : ℕ} :
    isValidBlocksize blocksize ↔ ∃ k, 6 ≤ k ∧ k ≤ 17 ∧ blocksize = 2 ^ k := by
  constructor
  · rintro ⟨hlo, hhi, hpow⟩
    refine ⟨ffs blocksize - 1, ?_, ?_, hpow⟩
    · rw [hpow] at hlo
      exact (Nat.pow_le_pow_iff_right (by norm_num)).mp
        (show 2 ^ 6 ≤ 2 ^ (ffs blocksize - 1) by simpa using hlo)
    · rw [hpow] at hhi
      exact (Nat.pow_le_pow_iff_right (by norm_num)).mp
        (show 2 ^ (ffs blocksize - 1) ≤ 2 ^ 17 by simpa [b2s] using hhi)
  · rintro ⟨k, hlo, hhi, rfl⟩
    interval_cases k <;> decide

theorem isValidBlocksize.pos {blocksize : ℕ} (h : isValidBlocksize blocksize) : 0 < blocksize := by
  have := h.1
  omega

theorem isValidBlocksize.le {blocksize : ℕ} (h : isValidBlocksize blocksize) :
    blocksize ≤ 2 ^ 17 := by
  have := h.2.1
  norm_num [b2s] at this
  omega

/-- `1 << (ffs(blocksize) - 1)` is the block size again. -/
theorem isValidBlocksize.ffs {blocksize : ℕ} (h : isValidBlocksize blocksize) :
    2 ^ (Ploop.ffs blocksize - 1) = blocksize := h.2.2.symm

/-- The block size divides every power of two from `2 ^ 17` on. -/
theorem isValidBlocksize.dvd {blocksize : ℕ} (h : isValidBlocksize blocksize) :
    blocksize ∣ 2 ^ 32 := by
  obtain ⟨k, -, hk, rfl⟩ := isValidBlocksize_iff.mp h
  exact Nat.pow_dvd_pow 2 (by omega)

theorem isValidBlocksize.s2b_dvd {blocksize : ℕ} (h : isValidBlocksize blocksize) :
    s2b blocksize ∣ 2 ^ 32 := by
  obtain ⟨k, -, hk, rfl⟩ := isValidBlocksize_iff.mp h
  have : s2b (2 ^ k) = 2 ^ (k + 9) := by simp [s2b, pow_add]
  rw [this]
  exact Nat.pow_dvd_pow 2 (by omega)

/-! ## The header -/

/-- Format versions of `ploop_if.h`. -/
inductive FmtVersion where
  | v1
  | v2
  deriving DecidableEq, Repr

abbrev Sig := UInt32 × UInt32 × UInt32 × UInt32

/-- Sixteen characters as they lie in the file. -/
def sigOf (s : Vector UInt8 16) : Sig :=
  (le32 s[0] s[1] s[2] s[3], le32 s[4] s[5] s[6] s[7],
    le32 s[8] s[9] s[10] s[11], le32 s[12] s[13] s[14] s[15])

/-- `"WithoutFreeSpace"` -/
def signatureStructuredDiskV1 : Sig :=
  sigOf #v[0x57, 0x69, 0x74, 0x68, 0x6f, 0x75, 0x74, 0x46,
    0x72, 0x65, 0x65, 0x53, 0x70, 0x61, 0x63, 0x65]

/-- `"WithouFreSpacExt"` -/
def signatureStructuredDiskV2 : Sig :=
  sigOf #v[0x57, 0x69, 0x74, 0x68, 0x6f, 0x75, 0x46, 0x72,
    0x65, 0x53, 0x70, 0x61, 0x63, 0x45, 0x78, 0x74]

def signatureDiskInUse : UInt32 := 0x746F6E59

def signatureDiskClosedV20 : UInt32 := 0

def signatureDiskClosedV21 : UInt32 := 0x312e3276

/-- `PRL_IMAGE_COMPRESSED` -/
def prlImageCompressed : UInt32 := 2

def cifEmpty : UInt32 := 1

def cifFmtVersionConvert : UInt32 := 2

/-- `struct ploop_pvd_header`. The 64-bit fields are kept as the two words
they occupy; `mSizeInSectorsV1` and `unused` are the halves of the union
with `m_SizeInSectors_v2`. -/
@[ext] structure PvdHeader where
  mSig : Sig
  mType : UInt32
  mHeads : UInt32
  mCylinders : UInt32
  mSectors : UInt32
  mSize : UInt32
  mSizeInSectorsV1 : UInt32
  unused : UInt32
  mDiskInUse : UInt32
  mFirstBlockOffset : UInt32
  mFlags : UInt32
  mFormatExtensionOffsetLo : UInt32
  mFormatExtensionOffsetHi : UInt32
  deriving DecidableEq

namespace PvdHeader

/-- Read the header out of the first words of a file. -/
def ofWords (w : ℕ → UInt32) : PvdHeader where
  mSig := (w 0, w 1, w 2, w 3)
  mType := w 4
  mHeads := w 5
  mCylinders := w 6
  mSectors := w 7
  mSize := w 8
  mSizeInSectorsV1 := w 9
  unused := w 10
  mDiskInUse := w 11
  mFirstBlockOffset := w 12
  mFlags := w 13
  mFormatExtensionOffsetLo := w 14
  mFormatExtensionOffsetHi := w 15

/-- The words a header occupies. -/
def toWords (h : PvdHeader) : ℕ → UInt32
  | 0 => h.mSig.1
  | 1 => h.mSig.2.1
  | 2 => h.mSig.2.2.1
  | 3 => h.mSig.2.2.2
  | 4 => h.mType
  | 5 => h.mHeads
  | 6 => h.mCylinders
  | 7 => h.mSectors
  | 8 => h.mSize
  | 9 => h.mSizeInSectorsV1
  | 10 => h.unused
  | 11 => h.mDiskInUse
  | 12 => h.mFirstBlockOffset
  | 13 => h.mFlags
  | 14 => h.mFormatExtensionOffsetLo
  | 15 => h.mFormatExtensionOffsetHi
  | _ => 0

@[simp] theorem ofWords_toWords (h : PvdHeader) : ofWords h.toWords = h := rfl

/-- `memset(vh, 0, sizeof(*vh))` -/
def zero : PvdHeader := ofWords fun _ => 0

/-- `offsetof(struct ploop_pvd_header, m_DiskInUse)` -/
def offDiskInUse : ℕ := 44

/-- `offsetof(struct ploop_pvd_header, m_Flags)` -/
def offFlags : ℕ := 52

end PvdHeader

def ploop1Signature : FmtVersion → Sig
  | .v1 => signatureStructuredDiskV1
  | .v2 => signatureStructuredDiskV2

/-- `none` is `PLOOP_FMT_ERROR`. -/
def ploop1Version (vh : PvdHeader) : Option FmtVersion :=
  if vh.mSig = signatureStructuredDiskV1 then some .v1
  else if vh.mSig = signatureStructuredDiskV2 then some .v2
  else none

theorem ploop1Version_eq_some {vh : PvdHeader} {v : FmtVersion} :
    ploop1Version vh = some v ↔ vh.mSig = ploop1Signature v := by
  have hne : signatureStructuredDiskV2 ≠ signatureStructuredDiskV1 := by decide
  unfold ploop1Version ploop1Signature
  cases v with
  | v1 => split <;> simp_all
  | v2 =>
      split
      · rename_i h
        simp [h, hne.symm]
      · split <;> simp_all

/-- The 64-bit view of the size union. -/
def PvdHeader.mSizeInSectorsV2 (vh : PvdHeader) : ℕ :=
  vh.mSizeInSectorsV1.toNat + 2 ^ 32 * vh.unused.toNat

def getSizeInSectors (vh : PvdHeader) : ℕ :=
  match ploop1Version vh with
  | some .v1 => vh.mSizeInSectorsV1.toNat
  | some .v2 => vh.mSizeInSectorsV2
  | none => 0

def putSizeInSectors (sizeInSectors : ℕ) (vh : PvdHeader) : FmtVersion → PvdHeader
  | .v1 => { vh with mSizeInSectorsV1 := UInt32.ofNat sizeInSectors }
  | .v2 => { vh with
      mSizeInSectorsV1 := UInt32.ofNat sizeInSectors
      unused := UInt32.ofNat (sizeInSectors / 2 ^ 32) }

/-! ## Generating a header -/

/-- `struct CHSData` -/
structure CHSData where
  sectors : ℕ
  heads : ℕ
  cylinders : ℕ

/-- `none` is the `~0` of the source. -/
def calcSectors (size : ℕ) : Option ℕ :=
  if size % 63 = 0 then some 63
  else if size % 32 = 0 then some 32
  else if size % 16 = 0 then some 16
  else if size % 8 = 0 then some 8
  else none

def calcHeads (size : ℕ) : Option ℕ :=
  if size % 16 = 0 then some 16
  else if size % 8 = 0 then some 8
  else if size % 4 = 0 then some 4
  else if size % 2 = 0 then some 2
  else none

def convertToCHSLow (fr : ℕ) : CHSData := ⟨63, 16, u32 (fr / (63 * 16))⟩

def convertToPureLBA (fr : ℕ) : CHSData := ⟨1, 1, u32 fr⟩

def convertToCHS (fr : ℕ) : CHSData :=
  if 1032192 < fr ∧ fr < 16777216 then convertToCHSLow fr
  else
    match calcSectors fr with
    | none => convertToPureLBA fr
    | some sectors =>
        match calcHeads (fr / sectors) with
        | none => convertToPureLBA fr
        | some heads => ⟨sectors, heads, u32 (fr / sectors / heads)⟩

/-- `GetHeaderSize`: 64 bytes and one word per cluster, aligned to a sector,
in 32-bit arithmetic. -/
def getHeaderSize (mSize : ℕ) : ℕ :=
  let size := u32 (headerBytes + mSize * 4)
  u32 (size + sectorSize - 1) / sectorSize * sectorSize

/-- The part of `generate_pvd_header` that aligns the table to a cluster. -/
def sizeToFill (mSize blocksize : ℕ) : ℕ :=
  let alignment := u32 (blocksize * 512)
  let size := getHeaderSize mSize
  if size % alignment = 0 then size else u32 (size + (alignment - size % alignment))

/-- `m_Flags`, `m_DiskInUse` and the extension offset are kept as they are.
The result is the size to fill, in bytes. -/
def generatePvdHeader (vh : PvdHeader) (bdsize blocksize : ℕ) (version : FmtVersion) :
    PvdHeader × ℕ :=
  let sizeInSectors := u64 (u64 (bdsize + blocksize - 1) / blocksize * blocksize)
  let vh := putSizeInSectors sizeInSectors
    { vh with mSig := ploop1Signature version, mType := prlImageCompressed } version
  let chs := convertToCHS sizeInSectors
  let mSize := UInt32.ofNat (sizeInSectors / blocksize)
  let fill := sizeToFill mSize.toNat blocksize
  ({ vh with
      mSectors := UInt32.ofNat blocksize
      mHeads := UInt32.ofNat chs.heads
      mCylinders := UInt32.ofNat chs.cylinders
      mSize := mSize
      mFirstBlockOffset := UInt32.ofNat (fill / 512) }, fill)

/-! ## The size of the index -/

/-- The least multiple of `a` from `x` on. -/
def alignUp (x a : ℕ) : ℕ := (x + a - 1) / a * a

section AlignUp

variable {x y a : ℕ}

theorem dvd_alignUp : a ∣ alignUp x a := Dvd.intro_left _ rfl

theorem le_alignUp (ha : 0 < a) : x ≤ alignUp x a := by
  have h₁ := Nat.div_add_mod (x + a - 1) a
  have h₂ := Nat.mod_lt (x + a - 1) ha
  rw [mul_comm] at h₁
  unfold alignUp
  omega

theorem alignUp_le (ha : 0 < a) (hy : a ∣ y) (h : x ≤ y) : alignUp x a ≤ y := by
  obtain ⟨q, rfl⟩ := hy
  unfold alignUp
  rw [mul_comm a q] at h ⊢
  apply Nat.mul_le_mul_right
  rw [← Nat.lt_succ_iff, Nat.div_lt_iff_lt_mul ha, Nat.succ_mul]
  omega

theorem alignUp_lt (ha : 0 < a) : alignUp x a < x + a := by
  have h₁ := Nat.div_mul_le_self (x + a - 1) a
  unfold alignUp
  omega

theorem alignUp_alignUp {b : ℕ} (hb : 0 < b) (ha : 0 < a) (hab : b ∣ a) :
    alignUp (alignUp x b) a = alignUp x a := by
  apply le_antisymm
  · exact alignUp_le ha dvd_alignUp (alignUp_le hb (hab.trans dvd_alignUp) (le_alignUp ha))
  · exact alignUp_le ha dvd_alignUp ((le_alignUp hb).trans (le_alignUp ha))

theorem alignUp_eq (ha : 0 < a) :
    alignUp x a = if x % a = 0 then x else x + (a - x % a) := by
  split
  · rename_i h
    exact le_antisymm (alignUp_le ha (Nat.dvd_of_mod_eq_zero h) le_rfl) (le_alignUp ha)
  · rename_i h
    have hlt := Nat.mod_lt x ha
    have hdm := Nat.div_add_mod x a
    have hdvd : a ∣ x + (a - x % a) := ⟨x / a + 1, by rw [Nat.mul_succ]; omega⟩
    apply le_antisymm (alignUp_le ha hdvd (by omega))
    obtain ⟨q, hq⟩ := dvd_alignUp (x := x) (a := a)
    have hle := le_alignUp (x := x) ha
    rw [hq] at hle ⊢
    have hne : x / a < q := by
      by_contra hc
      have := Nat.mul_le_mul_left a (Nat.not_lt.mp hc)
      omega
    have := Nat.mul_le_mul_left a hne
    rw [Nat.mul_succ] at this
    omega

end AlignUp

/-- What the table of a disk of `m` clusters takes in the file. -/
def indexBytes (m blocksize : ℕ) : ℕ := alignUp (headerBytes + 4 * m) (s2b blocksize)

/-- The index of a disk of `size` sectors fits the 32-bit sums of
`generate_pvd_header`. -/
def IndexFits (size blocksize : ℕ) : Prop := indexBytes (size / blocksize) blocksize < 2 ^ 32

instance (size blocksize : ℕ) : Decidable (IndexFits size blocksize) :=
  inferInstanceAs (Decidable (_ < _))

theorem getHeaderSize_u32 (m : ℕ) :
    getHeaderSize (u32 m) = u32 (alignUp (headerBytes + 4 * m) sectorSize) := by
  simp only [getHeaderSize, u32, alignUp, headerBytes, sectorSize]
  omega

/-- The aligned size is right up to multiples of `2 ^ 32`. -/
theorem sizeToFill_u32 {blocksize : ℕ} (hbs : isValidBlocksize blocksize) (m : ℕ) :
    sizeToFill (u32 m) blocksize = u32 (indexBytes m blocksize) := by
  have hpos := hbs.pos
  have hle := hbs.le
  have halign : u32 (blocksize * 512) = s2b blocksize := u32_of_lt (by omega)
  have hcpos : 0 < s2b blocksize := by simp only [s2b]; omega
  have hmod : ∀ y, u32 y % s2b blocksize = y % s2b blocksize :=
    fun y => Nat.mod_mod_of_dvd y hbs.s2b_dvd
  have hdvd : sectorSize ∣ s2b blocksize := ⟨blocksize, by simp only [s2b, sectorSize]; omega⟩
  simp only [sizeToFill, getHeaderSize_u32, halign, hmod]
  rw [indexBytes, ← alignUp_alignUp (by norm_num [sectorSize]) hcpos hdvd, alignUp_eq hcpos]
  split
  · rfl
  · exact Nat.mod_add_mod _ _ _

end Ploop
