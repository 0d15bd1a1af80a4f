import Ploop.Gpt.Update

/-!
# Resizing a partition

A run of `update_gpt_partition` that returns 0 leaves a consistent table exactly when the start of
the partition is on a logical sector of the device, behind the table, and below the last whole
block of the disk.
-/

namespace Ploop.Gpt

open Storage

/-! ## Tables -/

def primary (sector : ℕ) (f : File) : GptHeader := headerAt sector f 1

/-- The header the primary one names. -/
def backup (sector : ℕ) (f : File) : GptHeader :=
  headerAt sector f (primary sector f).alternateLba.toNat

def entriesOf (sector : ℕ) (f : File) (h : GptHeader) : ℕ → UInt32 :=
  wordsAt sector f h.partitionEntryLba.toNat

/-- The signature and both checksums. -/
structure GptHeader.Sound (h : GptHeader) (pe : ℕ → UInt32) : Prop where
  signature : h.signature = gptSignature
  crc : h.crc = h.headerCrc32
  entries : entriesCrc pe = h.partitionEntryArrayCrc32

/-- The partition lies in the usable part. -/
structure GptHeader.Encloses (h : GptHeader) (pe : ℕ → UInt32) : Prop where
  first : h.firstUsableLba.toNat ≤ (startingLba pe).toNat
  order : (startingLba pe).toNat ≤ (endingLba pe).toNat
  last : (endingLba pe).toNat ≤ h.lastUsableLba.toNat

theorem GptHeader.Encloses.congr {h : GptHeader} {pe pe' : ℕ → UInt32} (he : h.Encloses pe)
    (hpe : ∀ i, i < 4096 → pe' i = pe i) : h.Encloses pe' := by
  have hstart := startingLba_congr hpe
  have hend := endingLba_congr hpe
  exact ⟨hstart ▸ he.first, hstart ▸ hend ▸ he.order, hend ▸ he.last⟩

/-- `gpt_size_bytes` in logical sectors. -/
def gptSectors (sector : ℕ) : ℕ := gptSizeBytes sector / sector

/-- A table with one partition, in its usual place: 128 entries of 128 bytes behind the header. -/
structure ValidGpt (image : ℕ) (f : File) : Prop where
  sound : (primary image f).Sound (entriesOf image f (primary image f))
  headerSize : 92 ≤ (primary image f).headerSize.toNat ∧
    (primary image f).headerSize.toNat ≤ gptHeaderBytes
  myLba : (primary image f).myLba = 1
  partitionEntryLba : (primary image f).partitionEntryLba = 2
  number : (primary image f).numPartitionEntries = 128 ∧
    (primary image f).sizePartitionEntry = 128
  room : gptSectors image + 1 ≤ (primary image f).firstUsableLba.toNat
  encloses : (primary image f).Encloses (entriesOf image f (primary image f))
  fits : ((primary image f).lastUsableLba.toNat + 1) * image ≤ f.size
  /-- The other entries have no type. -/
  one : ∀ k, 1 ≤ k → k < 128 → ∀ j, j < 4 → entriesOf image f (primary image f) (32 * k + j) = 0

/-- What the update of `f` is to leave, on a disk of `newSize` logical sectors. -/
structure Consistent (sector image newSize : ℕ) (f f' : File) : Prop where
  primary : (primary sector f').Sound (entriesOf sector f' (primary sector f'))
  backup : (backup sector f').Sound (entriesOf sector f' (backup sector f'))
  myLba : (Gpt.primary sector f').myLba = 1
  backupLba : (Gpt.backup sector f').myLba = (Gpt.primary sector f').alternateLba
  alternateLba : (Gpt.backup sector f').alternateLba = 1
  entries : ∀ i, i < 4096 → entriesOf sector f' (Gpt.primary sector f') i =
    entriesOf sector f' (Gpt.backup sector f') i
  atEnd : (Gpt.primary sector f').alternateLba.toNat + 1 = newSize
  room : (Gpt.backup sector f').partitionEntryLba.toNat * sector + gptPtEntrySize ≤
    (Gpt.primary sector f').alternateLba.toNat * sector
  behind : (endingLba (entriesOf sector f' (Gpt.primary sector f'))).toNat <
    (Gpt.backup sector f').partitionEntryLba.toNat
  encloses : (Gpt.primary sector f').Encloses (entriesOf sector f' (Gpt.primary sector f'))
  backupEncloses : (Gpt.backup sector f').Encloses (entriesOf sector f' (Gpt.backup sector f'))
  start : (startingLba (entriesOf sector f' (Gpt.primary sector f'))).toNat * sector =
    (startingLba (entriesOf image f (Gpt.primary image f))).toNat * image

/-- The logical sectors of the device and of the image. -/
structure Sectors (sector image : ℕ) : Prop where
  device : sector = 512 ∨ sector = 4096
  image : image = sector ∨ image = 512

/-- `hdr.first_usable_lba` -/
def newFirst (sector image : ℕ) (f : File) : ℕ :=
  if sector ≠ image then gptSectors sector + 1 else (primary image f).firstUsableLba.toNat

/-- The start of the partition is on a logical sector of the device, behind the table, and below
the last whole block in front of the copy. -/
def Fits (sector image newSize blocksize : ℕ) (f : File) : Prop :=
  let start := (startingLba (wordsAt image f 2)).toNat * image
  sector ∣ start ∧ newFirst sector image f ≤ start / sector ∧
    start / sector < (newSize - (gptSectors sector + 1)) / blocksize * blocksize

/-! ## Where the table lies -/

theorem gptSectors_small : gptSectors 512 = 33 := rfl

theorem gptSectors_large : gptSectors 4096 = 5 := rfl

theorem lastUsable_toNat (sector newSize : ℕ) :
    (lastUsable sector newSize).toNat = u64 (2 ^ 64 + newSize - gptSectors sector - 1) := by
  rw [lastUsable, UInt64.toNat_ofNat']
  rfl

section Offsets

variable {sector newSize size : ℕ}

/-- A negative offset is refused, so the copy of the entries is on the disk. -/
theorem gptSectors_le (hs : sector = 512 ∨ sector = 4096) (hsize : size < 2 ^ 63)
    (hnew : newSize * sector ≤ size)
    (hentries : u64 (((lastUsable sector newSize).toNat + 1) * sector) + gptPtEntrySize ≤ size) :
    gptSectors sector ≤ newSize := by
  by_contra hlt
  rcases hs with rfl | rfl
  · rw [gptSectors_small] at hlt
    rw [lastUsable_toNat, gptSectors_small] at hentries
    simp only [u64, gptPtEntrySize] at hentries
    omega
  · rw [gptSectors_large] at hlt
    rw [lastUsable_toNat, gptSectors_large] at hentries
    simp only [u64, gptPtEntrySize] at hentries
    omega

theorem backupEntries_lba (hs : sector = 512 ∨ sector = 4096) (hsize : size < 2 ^ 63)
    (hnew : newSize * sector ≤ size) (hle : gptSectors sector ≤ newSize) :
    u64 ((lastUsable sector newSize).toNat + 1) = newSize - gptSectors sector ∧
    u64 (((lastUsable sector newSize).toNat + 1) * sector) =
      4 * ((newSize - gptSectors sector) * (sector / 4)) := by
  rcases hs with rfl | rfl
  · rw [gptSectors_small] at hle
    rw [lastUsable_toNat, gptSectors_small]
    simp only [u64]
    omega
  · rw [gptSectors_large] at hle
    rw [lastUsable_toNat, gptSectors_large]
    simp only [u64]
    omega

theorem backupHeader_lba (hs : sector = 512 ∨ sector = 4096) (hsize : size < 2 ^ 63)
    (hnew : newSize * sector ≤ size) (hpos : 0 < newSize) :
    u64 (2 ^ 64 + newSize - 1) = newSize - 1 ∧
    u64 ((2 ^ 64 + newSize - 1) * sector) = 4 * ((newSize - 1) * (sector / 4)) := by
  rcases hs with rfl | rfl
  · simp only [u64]
    omega
  · simp only [u64]
    omega

end Offsets

theorem headerAt_of_words {sector lba : ℕ} {f : File} {h : GptHeader}
    (hw : ∀ i, i < 26 → wordsAt sector f lba i = h.toWords i) : headerAt sector f lba = h := by
  rw [headerAt, GptHeader.ofWords_congr hw, GptHeader.ofWords_toWords]

section Stored

variable {sector newSize : ℕ} {hdr : GptHeader} {pe : ℕ → UInt32} {f f' : File}

/-- The words of a disk, by the place of the copy. -/
theorem Stored.word_eq_copy (h : Stored sector newSize hdr pe f f')
    (hs : sector = 512 ∨ sector = 4096) (hsize : f.size < 2 ^ 63) (hnew : newSize * sector ≤ f.size)
    (hlast : hdr.lastUsableLba = lastUsable sector newSize) :
    ∃ W B, sector / 4 = W ∧ 128 ≤ W ∧ gptSectors sector ≤ newSize ∧
      (newSize - gptSectors sector) * W = B ∧ (newSize - 1) * W = B + 4096 ∧
      ∀ i, 128 ≤ i → f'.word i =
        if B + 4096 ≤ i ∧ i < B + 4096 + 26 then (backupHeader hdr).toWords (i - (B + 4096))
        else if B ≤ i ∧ i < B + 4096 then pe (i - B)
        else if W * 2 ≤ i ∧ i < W * 2 + 4096 then pe (i - W * 2)
        else if W ≤ i ∧ i < W + 26 then hdr.toWords (i - W)
        else f.word i := by
  have hentries := h.entries
  rw [hlast] at hentries
  have hle := gptSectors_le hs hsize hnew hentries
  have hB := (backupEntries_lba hs hsize hnew hle).2
  rw [← hlast] at hB
  have hpos : 0 < newSize := by
    rcases hs with rfl | rfl
    · rw [gptSectors_small] at hle
      omega
    · rw [gptSectors_large] at hle
      omega
  have hD := (backupHeader_lba hs hsize hnew hpos).2
  have hW : sector = 4 * (sector / 4) := by omega
  have hbehind : (newSize - 1) * (sector / 4) =
      (newSize - gptSectors sector) * (sector / 4) + 4096 := by
    rcases hs with rfl | rfl
    · rw [gptSectors_small] at hle ⊢
      omega
    · rw [gptSectors_large] at hle ⊢
      omega
  refine ⟨sector / 4, _, rfl, by omega, hle, rfl, hbehind, ?_⟩
  intro i hi
  rw [hbehind] at hD
  exact h.word_eq hW hB hD hi

/-- The primary header is not written over when the copy begins behind it. -/
theorem Stored.primary_eq (h : Stored sector newSize hdr pe f f')
    (hs : sector = 512 ∨ sector = 4096) (hsize : f.size < 2 ^ 63) (hnew : newSize * sector ≤ f.size)
    (hlast : hdr.lastUsableLba = lastUsable sector newSize)
    (hle : gptSectors sector + 2 ≤ newSize) :
    primary sector f' = hdr := by
  obtain ⟨W, B, hW, hmin, -, hB, -, hword⟩ := h.word_eq_copy hs hsize hnew hlast
  have hcopy : 2 * W ≤ B := hB ▸ Nat.mul_le_mul_right W (by omega)
  apply headerAt_of_words
  intro i hi
  rw [wordsAt, hW, hword _ (by omega), if_neg (by omega), if_neg (by omega), if_neg (by omega),
    if_pos (by omega)]
  congr 1
  omega

/-- With the copy behind the entries, all four parts are read back. -/
theorem Stored.regular (h : Stored sector newSize hdr pe f f')
    (hs : sector = 512 ∨ sector = 4096) (hsize : f.size < 2 ^ 63) (hnew : newSize * sector ≤ f.size)
    (hlast : hdr.lastUsableLba = lastUsable sector newSize)
    (hle : 2 * gptSectors sector + 1 ≤ newSize) :
    headerAt sector f' (newSize - 1) = backupHeader hdr ∧
      (∀ i, i < 4096 → wordsAt sector f' 2 i = pe i) ∧
      ∀ i, i < 4096 → wordsAt sector f' (newSize - gptSectors sector) i = pe i := by
  obtain ⟨W, B, hW, hmin, -, hB, hD, hword⟩ := h.word_eq_copy hs hsize hnew hlast
  have htable : (gptSectors sector + 1) * W = W * 2 + 4096 := by
    rw [← hW]
    rcases hs with rfl | rfl
    · rfl
    · rfl
  have hcopy : W * 2 + 4096 ≤ B := by
    rw [← htable, ← hB]
    exact Nat.mul_le_mul_right W (by omega)
  refine ⟨?_, ?_, ?_⟩
  · apply headerAt_of_words
    intro i hi
    rw [wordsAt, hW, hD, hword _ (by omega), if_pos (by omega), Nat.add_sub_cancel_left]
  · intro i hi
    rw [wordsAt, hW, hword _ (by omega), if_neg (by omega), if_neg (by omega), if_pos (by omega)]
    congr 1
    omega
  · intro i hi
    rw [wordsAt, hW, hB, hword _ (by omega), if_neg (by omega), if_pos (by omega),
      Nat.add_sub_cancel_left]

/-- On a smaller disk the copy of the entries lies on the primary header. -/
theorem Stored.primary_words (h : Stored sector newSize hdr pe f f')
    (hs : sector = 512 ∨ sector = 4096) (hsize : f.size < 2 ^ 63) (hnew : newSize * sector ≤ f.size)
    (hlast : hdr.lastUsableLba = lastUsable sector newSize) (hle : newSize ≤ gptSectors sector + 1)
    {i : ℕ} (hi : i < 26) :
    gptSectors sector ≤ newSize ∧
      wordsAt sector f' 1 i = pe ((gptSectors sector + 1 - newSize) * (sector / 4) + i) := by
  obtain ⟨W, B, hW, hmin, hge, hB, -, hword⟩ := h.word_eq_copy hs hsize hnew hlast
  have hmax : W ≤ 1024 := by
    rcases hs with rfl | rfl <;> omega
  refine ⟨hge, ?_⟩
  rw [wordsAt, hW]
  rcases Nat.eq_or_lt_of_le hle with heq | hlt
  · have hone : newSize - gptSectors sector = 1 := by omega
    rw [hone] at hB
    rw [hword _ (by omega), if_neg (by omega), if_pos (by omega), heq, Nat.sub_self, Nat.zero_mul]
    congr 1
    omega
  · have heq : newSize = gptSectors sector := by omega
    have hone : gptSectors sector + 1 - newSize = 1 := by omega
    rw [heq, Nat.sub_self, Nat.zero_mul] at hB
    rw [hword _ (by omega), if_neg (by omega), if_pos (by omega), hone]
    congr 1
    omega

end Stored

/-! ## The new header and the new entries -/

section New

variable {sector image newSize blocksize : ℕ} {hdr : GptHeader} {pe : ℕ → UInt32} {f : File}

theorem primaryHeader_signature :
    (primaryHeader sector image newSize hdr pe).signature = hdr.signature := by
  rw [primaryHeader, GptHeader.withCrc, resizedHeader]
  dsimp only
  split <;> rfl

theorem primaryHeader_alternateLba : (primaryHeader sector image newSize hdr pe).alternateLba =
    UInt64.ofNat (2 ^ 64 + newSize - 1) := by
  rw [primaryHeader, GptHeader.withCrc, resizedHeader]
  dsimp only
  split <;> rfl

theorem primaryHeader_lastUsableLba : (primaryHeader sector image newSize hdr pe).lastUsableLba =
    lastUsable sector newSize := by
  rw [primaryHeader, GptHeader.withCrc, resizedHeader]
  dsimp only
  split <;> rfl

theorem primaryHeader_myLba (h : hdr.myLba = 1) :
    (primaryHeader sector image newSize hdr pe).myLba = 1 := by
  rw [primaryHeader, GptHeader.withCrc, resizedHeader]
  dsimp only
  split
  · rfl
  · exact h

theorem primaryHeader_partitionEntryLba (h : hdr.partitionEntryLba = 2) :
    (primaryHeader sector image newSize hdr pe).partitionEntryLba = 2 := by
  rw [primaryHeader, GptHeader.withCrc, resizedHeader]
  dsimp only
  split
  · rfl
  · exact h

theorem ValidGpt.entriesOf_eq (hv : ValidGpt image f) :
    entriesOf image f (primary image f) = wordsAt image f 2 := by
  rw [entriesOf, hv.partitionEntryLba]
  rfl

theorem primaryHeader_firstUsableLba (hs : sector = 512 ∨ sector = 4096) :
    (primaryHeader sector image newSize (primary image f) pe).firstUsableLba.toNat =
      newFirst sector image f := by
  rw [primaryHeader, GptHeader.withCrc, resizedHeader, newFirst]
  dsimp only
  by_cases h : sector ≠ image
  · rw [if_pos h, if_pos h]
    rcases hs with rfl | rfl <;> rfl
  · rw [if_neg h, if_neg h]

/-- The partition starts behind the table. -/
theorem gptSectors_lt_newFirst (sector : ℕ) (hv : ValidGpt image f) :
    gptSectors sector + 1 ≤ newFirst sector image f := by
  rw [newFirst]
  by_cases h : sector ≠ image
  · rw [if_pos h]
  · rw [if_neg h, not_not.mp h]
    exact hv.room

theorem resizedEntries_of_ge {i : ℕ} (hi : 12 ≤ i) :
    resizedEntries sector image newSize blocksize pe i = pe i := by
  rw [resizedEntries]
  split
  · rw [putStartingLba_of_ge hi, putEndingLba_of_ge hi]
  · exact putEndingLba_of_ge hi

theorem endingLba_resized : (endingLba (resizedEntries sector image newSize blocksize pe)).toNat =
    u64 (2 ^ 64 + (lastUsable sector newSize).toNat / blocksize * blocksize - 1) := by
  have h : endingLba (resizedEntries sector image newSize blocksize pe) =
      UInt64.ofNat (2 ^ 64 + (lastUsable sector newSize).toNat / blocksize * blocksize - 1) := by
    rw [resizedEntries]
    split
    · rw [endingLba_putStarting, endingLba_put]
    · exact endingLba_put
  rw [h, UInt64.toNat_ofNat']
  rfl

theorem startingLba_resized (hs : Sectors sector image) (hv : ValidGpt image f)
    (hsize : f.size < 2 ^ 63) :
    (startingLba (resizedEntries sector image newSize blocksize (wordsAt image f 2))).toNat =
      (startingLba (wordsAt image f 2)).toNat * image / sector := by
  have hencloses := hv.encloses
  rw [hv.entriesOf_eq] at hencloses
  have hle := hencloses.order.trans hencloses.last
  have hlt : (startingLba (wordsAt image f 2)).toNat * image < 2 ^ 63 := by
    calc (startingLba (wordsAt image f 2)).toNat * image
        ≤ ((primary image f).lastUsableLba.toNat + 1) * image :=
          Nat.mul_le_mul_right image (hle.trans (Nat.le_succ _))
      _ ≤ f.size := hv.fits
      _ < 2 ^ 63 := hsize
  rw [resizedEntries]
  by_cases h : sector ≠ image
  · have hquot : (startingLba (wordsAt image f 2)).toNat * image / sector ≤
        (startingLba (wordsAt image f 2)).toNat * image := Nat.div_le_self _ _
    rw [if_pos h, startingLba_put, startingLba_putEnding, UInt64.toNat_ofNat', u64_of_lt (by omega)]
    apply Nat.mod_eq_of_lt
    omega
  · have hpos : 0 < image := by
      rcases hs.image with h | h
      · rcases hs.device with h' | h' <;> omega
      · omega
    rw [if_neg h, startingLba_putEnding, not_not.mp h, Nat.mul_div_cancel _ hpos]

end New

/-! ## Consistency -/

section Consistency

variable {sector image newSize blocksize : ℕ} {f g f' : File}

/-- What a run leaves, in terms of the disk it found. -/
structure Left (sector image newSize blocksize : ℕ) (f g f' : File) : Prop where
  sectors : Sectors sector image
  valid : ValidGpt image f
  size : f.size < 2 ^ 63
  same : g.size = f.size
  new : newSize * sector ≤ f.size
  blocks : 0 < blocksize
  stored : Stored sector newSize (primaryHeader sector image newSize (primary image f)
      (resizedEntries sector image newSize blocksize (wordsAt image f 2)))
    (resizedEntries sector image newSize blocksize (wordsAt image f 2)) g f'

theorem Fits.lt (h : Fits sector image newSize blocksize f) (hv : ValidGpt image f) :
    2 * gptSectors sector + 1 < newSize := by
  have hfirst := (gptSectors_lt_newFirst sector hv).trans h.2.1
  have hblocks := Nat.div_mul_le_self (newSize - (gptSectors sector + 1)) blocksize
  have hlt := h.2.2
  omega

theorem Left.new_lt (h : Left sector image newSize blocksize f g f') : newSize < 2 ^ 54 := by
  have hsize := h.size
  have hnew := h.new
  rcases h.sectors.device with rfl | rfl <;> omega

/-- The end is below `2 ^ 64 - 1` only if there is a whole block. -/
theorem Left.ending (h : Left sector image newSize blocksize f g f')
    (hle : gptSectors sector + 1 ≤ newSize) :
    (endingLba (resizedEntries sector image newSize blocksize (wordsAt image f 2))).toNat =
      if newSize - (gptSectors sector + 1) < blocksize then 2 ^ 64 - 1
      else (newSize - (gptSectors sector + 1)) / blocksize * blocksize - 1 := by
  have hlt := h.new_lt
  have hlast : u64 (2 ^ 64 + newSize - gptSectors sector - 1) =
      newSize - (gptSectors sector + 1) := by
    simp only [u64]
    omega
  rw [endingLba_resized, lastUsable_toNat, hlast]
  have hblocks := Nat.div_mul_le_self (newSize - (gptSectors sector + 1)) blocksize
  by_cases hsmall : newSize - (gptSectors sector + 1) < blocksize
  · rw [if_pos hsmall, Nat.div_eq_of_lt hsmall, Nat.zero_mul]
    rfl
  · have hone : 0 < (newSize - (gptSectors sector + 1)) / blocksize :=
      Nat.div_pos (Nat.not_lt.mp hsmall) h.blocks
    have hpos := Nat.mul_pos hone h.blocks
    rw [if_neg hsmall, u64]
    omega

/-- On a disk that has no room for both copies the table is broken. -/
theorem Left.not_consistent (h : Left sector image newSize blocksize f g f')
    (hle : newSize ≤ 2 * gptSectors sector) : ¬ Consistent sector image newSize f f' := by
  intro hc
  have hgsize : g.size < 2 ^ 63 := h.same ▸ h.size
  have hgnew : newSize * sector ≤ g.size := h.same ▸ h.new
  by_cases hfar : gptSectors sector + 2 ≤ newSize
  -- The usable part ends before it begins.
  · have hencloses := hc.encloses
    rw [h.stored.primary_eq h.sectors.device hgsize hgnew primaryHeader_lastUsableLba hfar]
      at hencloses
    have hfirst := gptSectors_lt_newFirst sector h.valid
    have hlt := h.new_lt
    have hall := (hencloses.first.trans hencloses.order).trans hencloses.last
    rw [primaryHeader_firstUsableLba h.sectors.device, primaryHeader_lastUsableLba,
      lastUsable_toNat, u64] at hall
    omega
  have hwords (i : ℕ) (hi : i < 26) := h.stored.primary_words h.sectors.device hgsize hgnew
    primaryHeader_lastUsableLba (by omega) hi
  have hge := (hwords 0 (by norm_num)).1
  rcases Nat.eq_or_lt_of_le hge with heq | hlt
  -- The signature is the type of an entry that is not used.
  · have hzero (j : ℕ) (hj : j < 4) : wordsAt sector f' 1 j = 0 := by
      have hone : gptSectors sector + 1 - newSize = 1 := by omega
      rw [(hwords j (by omega)).2, hone, Nat.one_mul]
      have hunused := h.valid.one
      rw [h.valid.entriesOf_eq] at hunused
      rcases h.sectors.device with hs | hs
      · rw [hs]
        exact (resizedEntries_of_ge (by omega)).trans
          (hunused 4 (by norm_num) (by norm_num) j hj)
      · rw [hs]
        exact (resizedEntries_of_ge (by omega)).trans
          (hunused 32 (by norm_num) (by norm_num) j hj)
    have hsignature : (primary sector f').signature =
        join (wordsAt sector f' 1 0) (wordsAt sector f' 1 1) := rfl
    rw [hc.primary.signature, hzero 0 (by norm_num), hzero 1 (by norm_num)] at hsignature
    exact absurd hsignature (by decide)
  -- The first usable sector is the end of the partition.
  · have hnone : gptSectors sector + 1 - newSize = 0 := by omega
    have hfirst : (primary sector f').firstUsableLba =
        join (wordsAt sector f' 1 10) (wordsAt sector f' 1 11) := rfl
    rw [(hwords 10 (by norm_num)).2, (hwords 11 (by norm_num)).2, hnone, Nat.zero_mul, Nat.zero_add,
      Nat.zero_add] at hfirst
    have hending := h.ending (by omega)
    rw [endingLba, ← hfirst, if_pos (by have := h.blocks; omega)] at hending
    have hlo := hc.encloses.first.trans hc.encloses.order
    have hhi := hc.behind
    have hmax := (backup sector f').partitionEntryLba.toNat_lt
    omega

/-- With room for both copies, what was written is read back. -/
structure ReadBack (sector newSize : ℕ) (hdr : GptHeader) (pe : ℕ → UInt32) (f : File) : Prop where
  primary : primary sector f = hdr
  backup : backup sector f = backupHeader hdr
  alternate : hdr.alternateLba.toNat = newSize - 1
  copy : (backupHeader hdr).partitionEntryLba.toNat = newSize - gptSectors sector
  entries : ∀ i, i < 4096 → entriesOf sector f hdr i = pe i
  backupEntries : ∀ i, i < 4096 → entriesOf sector f (backupHeader hdr) i = pe i

theorem Left.readBack (h : Left sector image newSize blocksize f g f')
    (hle : 2 * gptSectors sector + 1 ≤ newSize) : ReadBack sector newSize
      (primaryHeader sector image newSize (Gpt.primary image f)
        (resizedEntries sector image newSize blocksize (wordsAt image f 2)))
      (resizedEntries sector image newSize blocksize (wordsAt image f 2)) f' := by
  have hgsize : g.size < 2 ^ 63 := h.same ▸ h.size
  have hgnew : newSize * sector ≤ g.size := h.same ▸ h.new
  have hfew : 2 ≤ gptSectors sector := by
    rcases h.sectors.device with hs | hs <;> rw [hs]
    · exact Nat.le_of_lt (by decide)
    · exact Nat.le_of_lt (by decide)
  obtain ⟨hcopy, hentries, hbackupEntries⟩ := h.stored.regular h.sectors.device hgsize hgnew
    primaryHeader_lastUsableLba hle
  have hprimary := h.stored.primary_eq h.sectors.device hgsize hgnew primaryHeader_lastUsableLba
    (by omega)
  have halternate : (primaryHeader sector image newSize (Gpt.primary image f)
      (resizedEntries sector image newSize blocksize
        (wordsAt image f 2))).alternateLba.toNat = newSize - 1 := by
    rw [primaryHeader_alternateLba, UInt64.toNat_ofNat']
    exact (backupHeader_lba h.sectors.device h.size h.new (by omega)).1
  have hlba : (backupHeader (primaryHeader sector image newSize (Gpt.primary image f)
      (resizedEntries sector image newSize blocksize
        (wordsAt image f 2)))).partitionEntryLba.toNat = newSize - gptSectors sector := by
    rw [backupHeader, GptHeader.withCrc, primaryHeader_lastUsableLba]
    dsimp only
    rw [UInt64.toNat_ofNat']
    exact (backupEntries_lba h.sectors.device h.size h.new (by omega)).1
  refine ⟨hprimary, ?_, halternate, hlba, ?_, ?_⟩
  · rw [backup, hprimary, halternate]
    exact hcopy
  · rw [entriesOf, primaryHeader_partitionEntryLba h.valid.partitionEntryLba]
    exact hentries
  · rw [entriesOf, hlba]
    exact hbackupEntries

theorem Left.consistent_iff (h : Left sector image newSize blocksize f g f')
    (hle : 2 * gptSectors sector + 1 ≤ newSize) :
    Consistent sector image newSize f f' ↔ Fits sector image newSize blocksize f := by
  have hr := h.readBack hle
  have hnew := h.new_lt
  have hvalid := h.valid
  have hlast : (primaryHeader sector image newSize (primary image f)
      (resizedEntries sector image newSize blocksize
        (wordsAt image f 2))).lastUsableLba.toNat = newSize - (gptSectors sector + 1) := by
    rw [primaryHeader_lastUsableLba, lastUsable_toNat, u64]
    omega
  have hfirst : (primaryHeader sector image newSize (primary image f)
      (resizedEntries sector image newSize blocksize
        (wordsAt image f 2))).firstUsableLba.toNat = newFirst sector image f :=
    primaryHeader_firstUsableLba h.sectors.device
  have hstart : (startingLba (resizedEntries sector image newSize blocksize
      (wordsAt image f 2))).toNat = (startingLba (wordsAt image f 2)).toNat * image / sector :=
    startingLba_resized h.sectors hvalid h.size
  have hending := h.ending (by omega)
  have hblocks := Nat.div_mul_le_self (newSize - (gptSectors sector + 1)) blocksize
  constructor
  · intro hc
    have hencloses := hc.encloses
    have hbehind := hc.behind
    have hsame := hc.start
    rw [hr.primary] at hencloses hbehind hsame
    rw [hr.backup, hr.copy, endingLba_congr hr.entries, hending] at hbehind
    rw [startingLba_congr hr.entries, hstart, hvalid.entriesOf_eq] at hsame
    have h₁ := hencloses.first
    have h₂ := hencloses.order
    rw [startingLba_congr hr.entries, hstart] at h₁ h₂
    rw [hfirst] at h₁
    rw [endingLba_congr hr.entries, hending] at h₂
    refine ⟨Dvd.intro_left _ hsame, h₁, ?_⟩
    by_cases hsmall : newSize - (gptSectors sector + 1) < blocksize
    · rw [if_pos hsmall] at hbehind
      omega
    · rw [if_neg hsmall] at h₂
      have hone := Nat.div_pos (Nat.not_lt.mp hsmall) h.blocks
      have hpos := Nat.mul_pos hone h.blocks
      omega
  · rintro ⟨hdvd, h₁, h₂⟩
    have hsmall : ¬ newSize - (gptSectors sector + 1) < blocksize := by
      intro hlt
      rw [Nat.div_eq_of_lt hlt, Nat.zero_mul] at h₂
      exact absurd h₂ (Nat.not_lt_zero _)
    rw [if_neg hsmall] at hending
    have hsame := fun i hi => (hr.entries i hi).trans (hr.backupEntries i hi).symm
    have hencloses : (primaryHeader sector image newSize (primary image f)
        (resizedEntries sector image newSize blocksize (wordsAt image f 2))).Encloses
        (resizedEntries sector image newSize blocksize (wordsAt image f 2)) := by
      constructor
      · rw [hfirst, hstart]
        exact h₁
      · rw [hstart, hending]
        omega
      · rw [hending, hlast]
        omega
    have hmyLba : (primaryHeader sector image newSize (primary image f)
        (resizedEntries sector image newSize blocksize (wordsAt image f 2))).myLba = 1 :=
      primaryHeader_myLba hvalid.myLba
    have hsignature : (primaryHeader sector image newSize (primary image f)
        (resizedEntries sector image newSize blocksize (wordsAt image f 2))).signature =
        gptSignature := primaryHeader_signature.trans hvalid.sound.signature
    constructor
    · rw [hr.primary]
      exact ⟨hsignature, GptHeader.crc_withCrc _, entriesCrc_congr hr.entries⟩
    · rw [hr.backup]
      exact ⟨hsignature, GptHeader.crc_withCrc _, entriesCrc_congr hr.backupEntries⟩
    · rw [hr.primary]
      exact hmyLba
    · rw [hr.primary, hr.backup]
      rfl
    · rw [hr.backup]
      exact hmyLba
    · rw [hr.primary, hr.backup]
      exact hsame
    · rw [hr.primary, hr.alternate]
      omega
    · rw [hr.primary, hr.backup, hr.copy, hr.alternate]
      rcases h.sectors.device with hs | hs
      · rw [hs, gptSectors_small] at hle
        rw [hs, gptSectors_small, gptPtEntrySize]
        omega
      · rw [hs, gptSectors_large] at hle
        rw [hs, gptSectors_large, gptPtEntrySize]
        omega
    · rw [hr.primary, hr.backup, hr.copy, endingLba_congr hr.entries, hending]
      omega
    · rw [hr.primary]
      exact hencloses.congr hr.entries
    · have hcopy := hencloses.congr hr.backupEntries
      rw [hr.backup]
      exact ⟨hcopy.first, hcopy.order, hcopy.last⟩
    · rw [hr.primary, startingLba_congr hr.entries, hstart, hvalid.entriesOf_eq]
      exact Nat.div_mul_cancel hdvd

theorem Left.iff (h : Left sector image newSize blocksize f g f') :
    Consistent sector image newSize f f' ↔ Fits sector image newSize blocksize f := by
  by_cases hle : 2 * gptSectors sector + 1 ≤ newSize
  · exact h.consistent_iff hle
  · apply iff_of_false (h.not_consistent (by omega))
    intro hfits
    have := hfits.lt h.valid
    omega

end Consistency

section Run

variable {works : Request → Bool} {sector image newSize512 blocksize512 : ℕ} {f f' : File}

theorem updateGptPartition_left (hs : Sectors sector image) (hv : ValidGpt image f)
    (hsize : f.size < 2 ^ 63)
    (hrun : updateGptPartition works newSize512 sector image blocksize512 f = .ok () f') :
    ∃ g, Left sector image (gptNewSize sector (f.size / sectorSize) newSize512)
      (gptBlocksize sector blocksize512) f g f' := by
  have hwords : image = 4 * (image / 4) := by
    rcases hs.image with h | h
    · rcases hs.device with h' | h' <;> omega
    · omega
  obtain ⟨hreq, hblocks, pe, g, rfl, hsame, hstored⟩ := updateGptPartition_ok hwords hrun
  refine ⟨g, hs, hv, hsize, hsame, ?_, Nat.pos_of_ne_zero hblocks, hstored⟩
  have hle : (if newSize512 = 0 then f.size / sectorSize else newSize512) * sectorSize ≤
      f.size := by
    apply (Nat.mul_le_mul_right sectorSize _).trans (Nat.div_mul_le_self f.size sectorSize)
    split
    · exact le_rfl
    · exact hreq
  rw [gptNewSize, u64_of_lt (by omega)]
  exact (Nat.div_mul_le_self _ _).trans hle

/-- A run that returns 0 leaves a consistent table exactly when the partition fits. -/
theorem updateGptPartition_iff (hs : Sectors sector image) (hv : ValidGpt image f)
    (hsize : f.size < 2 ^ 63)
    (hrun : updateGptPartition works newSize512 sector image blocksize512 f = .ok () f') :
    Consistent sector image (gptNewSize sector (f.size / sectorSize) newSize512) f f' ↔
      Fits sector image (gptNewSize sector (f.size / sectorSize) newSize512)
        (gptBlocksize sector blocksize512) f := by
  obtain ⟨g, hleft⟩ := updateGptPartition_left hs hv hsize hrun
  exact hleft.iff

end Run

/-! ## A disk of 100 MB -/

def megaEntries : ℕ → UInt32 := fun i =>
  if i < 8 then 1 else if i = 8 then 2048 else if i = 10 then 202751 else 0

def megaHeader : GptHeader := GptHeader.withCrc {
  signature := gptSignature
  revision := 0x10000
  headerSize := 92
  headerCrc32 := 0
  reserved1 := 0
  myLba := 1
  alternateLba := 204799
  firstUsableLba := 34
  lastUsableLba := 204766
  diskGuid := (1, 2, 3, 4)
  partitionEntryLba := 2
  numPartitionEntries := 128
  sizePartitionEntry := 128
  partitionEntryArrayCrc32 := entriesCrc megaEntries
  unused := 0
  reserved2 := 0 }

/-- A partition from sector 2048 to the last whole megabyte. -/
def megaGpt : File :=
  ((File.empty.ftruncate (204800 * 512)).pwrite
    ⟨512, gptHeaderBytes, wordBytes megaHeader.toWords⟩).pwrite
    ⟨1024, gptPtEntrySize, wordBytes megaEntries⟩

theorem megaGpt_size : megaGpt.size = 204800 * 512 := by
  rw [megaGpt, File.size_pwrite_le, File.size_pwrite_le]
  · rfl
  · simp only [File.size_ftruncate, gptHeaderBytes]
    norm_num
  · rw [File.size_pwrite_le]
    · simp only [File.size_ftruncate, gptPtEntrySize]
      norm_num
    · simp only [File.size_ftruncate, gptHeaderBytes]
      norm_num

theorem megaGpt_entries {i : ℕ} (hi : i < 4096) : wordsAt 512 megaGpt 2 i = megaEntries i := by
  have hplace : 2 * (512 / 4) + i = 256 + i := rfl
  rw [wordsAt, megaGpt, hplace, File.word_pwrite_of_mem _ (o := 256) rfl (Nat.le_add_right _ _)
    (by dsimp only [gptPtEntrySize]; omega), bytesWord_wordBytes, Nat.add_sub_cancel_left]

theorem megaGpt_header : primary 512 megaGpt = megaHeader := by
  apply headerAt_of_words
  intro i hi
  have hplace : 1 * (512 / 4) + i = 128 + i := rfl
  rw [wordsAt, megaGpt, hplace, File.word_pwrite_of_not_mem _ (.inl (by dsimp only; omega)),
    File.word_pwrite_of_mem _ (o := 128) rfl (Nat.le_add_right _ _)
      (by dsimp only [gptHeaderBytes]; omega), bytesWord_wordBytes, Nat.add_sub_cancel_left]

theorem megaGpt_start : (startingLba (wordsAt 512 megaGpt 2)).toNat = 2048 := by
  rw [startingLba_congr fun _ => megaGpt_entries]
  rfl

theorem megaGpt_valid : ValidGpt 512 megaGpt := by
  have hentries : entriesOf 512 megaGpt (primary 512 megaGpt) = wordsAt 512 megaGpt 2 := by
    rw [entriesOf, megaGpt_header]
    rfl
  constructor
  · rw [hentries, megaGpt_header]
    exact ⟨rfl, GptHeader.crc_withCrc _, entriesCrc_congr fun _ => megaGpt_entries⟩
  · rw [megaGpt_header]
    exact ⟨by decide, by decide⟩
  · rw [megaGpt_header]
    rfl
  · rw [megaGpt_header]
    rfl
  · rw [megaGpt_header]
    exact ⟨rfl, rfl⟩
  · rw [megaGpt_header]
    decide
  · rw [hentries, megaGpt_header]
    have h : megaHeader.Encloses megaEntries := ⟨by decide, by decide, by decide⟩
    exact h.congr fun _ => megaGpt_entries
  · rw [megaGpt_header, megaGpt_size]
    decide
  · intro k hk₁ hk₂ j hj
    rw [hentries, megaGpt_entries (by omega), megaEntries, if_neg (by omega), if_neg (by omega),
      if_neg (by omega)]

theorem megaGpt_newSize : gptNewSize 512 (megaGpt.size / sectorSize) 0 = 204800 := by
  rw [megaGpt_size]
  decide

/-- Every request works, and the block size is not 0. -/
theorem megaGpt_run {blocksize512 : ℕ} (h : gptBlocksize 512 blocksize512 ≠ 0) :
    ∃ f', updateGptPartition (fun _ => true) 0 512 512 blocksize512 megaGpt = .ok () f' := by
  have hcrc : (headerAt 512 megaGpt 1).crc = (headerAt 512 megaGpt 1).headerCrc32 :=
    megaGpt_valid.sound.crc
  apply @updateGptPartition_run _ 512 megaGpt 128 0 blocksize512 rfl (fun _ => rfl)
    (Nat.zero_le _) h hcrc
  · rw [megaGpt_size]
    decide
  · rw [megaGpt_newSize, megaGpt_size]
    decide
  · rw [megaGpt_newSize, megaGpt_size]
    decide

/-- With blocks of 1 MB. -/
theorem updateGptPartition_iff_megaGpt : ∃ f',
    updateGptPartition (fun _ => true) 0 512 512 2048 megaGpt = .ok () f' ∧
      Consistent 512 512 (gptNewSize 512 (megaGpt.size / sectorSize) 0) megaGpt f' := by
  obtain ⟨f', hrun⟩ := @megaGpt_run 2048 (by decide)
  refine ⟨f', hrun, (updateGptPartition_iff ⟨.inl rfl, .inl rfl⟩ megaGpt_valid ?_ hrun).mpr ?_⟩
  · rw [megaGpt_size]
    norm_num
  · rw [megaGpt_newSize, Fits, megaGpt_start, newFirst, if_neg (not_not.mpr rfl), megaGpt_header]
    decide

/-- The default block size is 512 MB, and no whole block is on the disk. -/
theorem default_blocksize_ends_behind : ¬ ∀ (works : Request → Bool)
    (sector image newSize512 blocksize512 : ℕ) (f f' : File), Sectors sector image →
    ValidGpt image f → f.size < 2 ^ 63 →
    updateGptPartition works newSize512 sector image blocksize512 f = .ok () f' →
      Consistent sector image (gptNewSize sector (f.size / sectorSize) newSize512) f f' := by
  intro hall
  have hsize : megaGpt.size < 2 ^ 63 := by
    rw [megaGpt_size]
    norm_num
  obtain ⟨f', hrun⟩ := @megaGpt_run 0 (by decide)
  obtain ⟨g, hleft⟩ := updateGptPartition_left ⟨.inl rfl, .inl rfl⟩ megaGpt_valid hsize hrun
  have hfits := hleft.iff.mp (hall _ _ _ _ _ _ _ ⟨.inl rfl, .inl rfl⟩ megaGpt_valid hsize hrun)
  rw [megaGpt_newSize] at hfits
  exact absurd hfits.2.2 (by rw [megaGpt_start]; decide)

end Ploop.Gpt
