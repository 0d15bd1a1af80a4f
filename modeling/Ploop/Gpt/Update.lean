import Ploop.Gpt.Table
import Ploop.Image.Delta

/-!
# Updating a partition table

`update_gpt_partition` of `gpt.c` makes the first partition as large as the disk allows, and writes
the table and its copy at the end of the disk. When the logical sector of the device is not that of
the image, it writes them anew for the sectors of the device.
-/

namespace Ploop.Gpt

open Storage Program

/-! ## Requests to the kernel -/

/-- What the function asks for, to say what fails. -/
inductive Request where
  | getSize | readHeader | readEntries | clearSignature | writeHeader | writeEntries | fsync
  | writeBackupEntries | writeBackupHeader | readMbr | writeMbr
  deriving DecidableEq

/-- The function returns an error, or a division by zero ends the process. -/
inductive Failure where
  | exit (e : Sysexit)
  | divisionByZero

abbrev GptM := EStateM Failure File

/-- `read_safe`. An offset from `2 ^ 63` on is a negative one, and no device is as long. -/
def readSafe (works : Bool) (len off : ℕ) : GptM (ℕ → UInt8) := do
  let f ← get
  if works = true ∧ off + len ≤ f.size then pure fun i => f.byte (off + i)
  else throw (.exit .read)

/-- `write_safe` -/
def writeSafe (works : Bool) (len off : ℕ) (src : ℕ → UInt8) : GptM Unit := do
  let f ← get
  if works = true ∧ off + len ≤ f.size then set (f.pwrite ⟨off, len, src⟩)
  else throw (.exit .write)

/-! ## The protective MBR -/

/-- `part1->count` -/
def mbrCount (newSize startLba : ℕ) : UInt32 :=
  UInt32.ofNat (min (u64 (2 ^ 64 + newSize - startLba)) (2 ^ 32 - 1))

/-- The sector with `struct MbrPartEntry` at `0x1be`. -/
def mbrBytes (newSize : ℕ) (buf : ℕ → UInt8) : ℕ → UInt8 := fun i =>
  if i = 451 then 0xfe
  else if i = 452 ∨ i = 453 then 0xff
  else if 458 ≤ i ∧ i < 462 then byteOf (mbrCount newSize (rd32 buf 454).toNat) (i - 458)
  else buf i

/-- `update_protective_mbr`. What fails in it is not looked at. -/
def updateProtectiveMbr (works : Request → Bool) (newSize : ℕ) : GptM Unit := do
  let f ← get
  if works .readMbr = true ∧ works .writeMbr = true ∧ sectorSize ≤ f.size then
    set (f.pwrite ⟨0, sectorSize, mbrBytes newSize f.byte⟩)
  else pure ()

/-! ## The new table -/

/-- `ROUNDUP` -/
def roundup (size blocksize : ℕ) : ℕ := (size + blocksize - 1) / blocksize * blocksize

/-- `gpt_size_bytes` -/
def gptSizeBytes (sector : ℕ) : ℕ := sector + roundup gptPtEntrySize sector

/-- `DEF_CLUSTER` -/
def defCluster : ℕ := 2 ^ 20

/-- `blocksize`, a number of 32 bits. -/
def gptBlocksize (sector blocksize512 : ℕ) : ℕ :=
  u32 ((if blocksize512 = 0 then defCluster else blocksize512) * sectorSize / sector)

/-- `new_size` of a device with `size` sectors of 512 bytes. -/
def gptNewSize (sector size newSize512 : ℕ) : ℕ :=
  u64 ((if newSize512 = 0 then size else newSize512) * sectorSize) / sector

/-- `hdr.last_usable_lba` -/
def lastUsable (sector newSize : ℕ) : UInt64 :=
  UInt64.ofNat (2 ^ 64 + newSize - gptSizeBytes sector / sector - 1)

/-- The header before its checksums. -/
def resizedHeader (sector image newSize : ℕ) (hdr : GptHeader) : GptHeader :=
  let hdr := { hdr with
    alternateLba := UInt64.ofNat (2 ^ 64 + newSize - 1)
    lastUsableLba := lastUsable sector newSize }
  if sector ≠ image then { hdr with
    myLba := 1
    partitionEntryLba := 2
    firstUsableLba := UInt64.ofNat ((sector + gptSizeBytes sector) / sector) }
  else hdr

/-- The entries with the new end and the start in sectors of the device. -/
def resizedEntries (sector image newSize blocksize : ℕ) (pe : ℕ → UInt32) : ℕ → UInt32 :=
  let last := (lastUsable sector newSize).toNat
  let pe := putEndingLba (UInt64.ofNat (2 ^ 64 + last / blocksize * blocksize - 1)) pe
  if sector ≠ image then
    putStartingLba (UInt64.ofNat (u64 ((startingLba pe).toNat * image) / sector)) pe
  else pe

def primaryHeader (sector image newSize : ℕ) (hdr : GptHeader) (pe : ℕ → UInt32) : GptHeader :=
  { resizedHeader sector image newSize hdr with
    partitionEntryArrayCrc32 := entriesCrc pe }.withCrc

/-- The header of the copy. -/
def backupHeader (hdr : GptHeader) : GptHeader :=
  { hdr with
    myLba := hdr.alternateLba
    alternateLba := hdr.myLba
    partitionEntryLba := UInt64.ofNat (hdr.lastUsableLba.toNat + 1) }.withCrc

/-! ## The function -/

/-- The header and the entries, with the checksum of the header. -/
def readTable (works : Request → Bool) (image : ℕ) : GptM (GptHeader × (ℕ → UInt32)) := do
  let hdr ← readSafe (works .readHeader) gptHeaderBytes image
  let buf ← readSafe (works .readEntries) gptPtEntrySize (image * 2)
  let hdr := GptHeader.ofWords (bytesWord hdr)
  if hdr.crc ≠ hdr.headerCrc32 then throw (.exit .param)
  else pure (hdr, bytesWord buf)

/-- Both copies, and the protective MBR. -/
def storeTable (works : Request → Bool) (sector newSize : ℕ) (hdr : GptHeader)
    (pe : ℕ → UInt32) : GptM Unit := do
  writeSafe (works .writeHeader) gptHeaderBytes sector (wordBytes hdr.toWords)
  writeSafe (works .writeEntries) gptPtEntrySize (sector * 2) (wordBytes pe)
  if works .fsync = false then throw (.exit .fsync)
  else do
    writeSafe (works .writeBackupEntries) gptPtEntrySize
      (u64 ((hdr.lastUsableLba.toNat + 1) * sector)) (wordBytes pe)
    writeSafe (works .writeBackupHeader) gptHeaderBytes
      (u64 ((2 ^ 64 + newSize - 1) * sector)) (wordBytes (backupHeader hdr).toWords)
    updateProtectiveMbr works newSize

/-- `update_gpt_partition`, with `sector_size` and `image_sector_size`. The partition that the
kernel is told of at the end is not on the disk. -/
def updateGptPartition (works : Request → Bool) (newSize512 sector image blocksize512 : ℕ) :
    GptM Unit := do
  let size := (← get).size / sectorSize
  if works .getSize = false then throw (.exit .devioc)
  else if size < newSize512 then throw (.exit .param)
  else do
    let newSize := gptNewSize sector size newSize512
    let blocksize := gptBlocksize sector blocksize512
    let (hdr, pe) ← readTable works image
    if blocksize = 0 then throw .divisionByZero
    else do
      let pe := resizedEntries sector image newSize blocksize pe
      if sector ≠ image then
        writeSafe (works .clearSignature) 8 image
          (wordBytes fun i => if i = 0 then lo32 xxxSignature.toNat else hi32 xxxSignature.toNat)
      else pure ()
      storeTable works sector newSize (primaryHeader sector image newSize hdr pe) pe

/-! ## What a run leaves -/

section Runs

variable {works : Request → Bool} {w : Bool} {len off sector image newSize : ℕ} {src : ℕ → UInt8}
  {f f' : File}

theorem readSafe_run (hw : w = true) (hle : off + len ≤ f.size) :
    readSafe w len off f = .ok (fun i => f.byte (off + i)) f := by
  rw [readSafe, get_bind_run, if_pos ⟨hw, hle⟩]
  rfl

theorem writeSafe_run (hw : w = true) (hle : off + len ≤ f.size) :
    writeSafe w len off src f = .ok () (f.pwrite ⟨off, len, src⟩) := by
  rw [writeSafe, get_bind_run, if_pos ⟨hw, hle⟩]
  rfl

theorem readSafe_ok {buf : ℕ → UInt8} (h : readSafe w len off f = .ok buf f') :
    off + len ≤ f.size ∧ buf = (fun i => f.byte (off + i)) ∧ f' = f := by
  by_cases hc : w = true ∧ off + len ≤ f.size
  · rw [readSafe_run hc.1 hc.2] at h
    cases h
    exact ⟨hc.2, rfl, rfl⟩
  · rw [readSafe, get_bind_run, if_neg hc] at h
    cases h

theorem writeSafe_ok (h : writeSafe w len off src f = .ok () f') :
    off + len ≤ f.size ∧ f' = f.pwrite ⟨off, len, src⟩ := by
  by_cases hc : w = true ∧ off + len ≤ f.size
  · rw [writeSafe_run hc.1 hc.2] at h
    cases h
    exact ⟨hc.2, rfl⟩
  · rw [writeSafe, get_bind_run, if_neg hc] at h
    cases h

theorem updateProtectiveMbr_run (works : Request → Bool) (newSize : ℕ) (f : File) :
    ∃ f', updateProtectiveMbr works newSize f = .ok () f' ∧
      ∀ i, 128 ≤ i → f'.word i = f.word i := by
  rw [updateProtectiveMbr, get_bind_run]
  by_cases hc : works .readMbr = true ∧ works .writeMbr = true ∧ sectorSize ≤ f.size
  · rw [if_pos hc]
    refine ⟨_, rfl, ?_⟩
    intro i hi
    apply File.word_pwrite_of_not_mem
    right
    simp only [sectorSize]
    omega
  · rw [if_neg hc]
    exact ⟨f, rfl, fun _ _ => rfl⟩

/-- The four writes of a table, of `f`. -/
structure Stored (sector newSize : ℕ) (hdr : GptHeader) (pe : ℕ → UInt32) (f f' : File) : Prop where
  entries : u64 ((hdr.lastUsableLba.toNat + 1) * sector) + gptPtEntrySize ≤ f.size
  header : u64 ((2 ^ 64 + newSize - 1) * sector) + gptHeaderBytes ≤ f.size
  word : ∀ i, 128 ≤ i → f'.word i = ((((f.pwrite
      ⟨sector, gptHeaderBytes, wordBytes hdr.toWords⟩).pwrite
      ⟨sector * 2, gptPtEntrySize, wordBytes pe⟩).pwrite
      ⟨u64 ((hdr.lastUsableLba.toNat + 1) * sector), gptPtEntrySize, wordBytes pe⟩).pwrite
      ⟨u64 ((2 ^ 64 + newSize - 1) * sector), gptHeaderBytes,
        wordBytes (backupHeader hdr).toWords⟩).word i

theorem storeTable_ok {hdr : GptHeader} {pe : ℕ → UInt32}
    (h : storeTable works sector newSize hdr pe f = .ok () f') :
    Stored sector newSize hdr pe f f' := by
  obtain ⟨⟨⟩, f₁, h₁, h⟩ := bind_eq_ok h
  obtain ⟨⟨⟩, f₂, h₂, h⟩ := bind_eq_ok h
  obtain ⟨hle₁, rfl⟩ := writeSafe_ok h₁
  obtain ⟨hle₂, rfl⟩ := writeSafe_ok h₂
  split at h
  · cases h
  obtain ⟨⟨⟩, f₃, h₃, h⟩ := bind_eq_ok h
  obtain ⟨⟨⟩, f₄, h₄, h⟩ := bind_eq_ok h
  obtain ⟨hle₃, rfl⟩ := writeSafe_ok h₃
  obtain ⟨hle₄, rfl⟩ := writeSafe_ok h₄
  rw [File.size_pwrite_le hle₂, File.size_pwrite_le hle₁] at hle₃
  rw [File.size_pwrite_le (by rw [File.size_pwrite_le hle₂, File.size_pwrite_le hle₁]; exact hle₃),
    File.size_pwrite_le hle₂, File.size_pwrite_le hle₁] at hle₄
  obtain ⟨f₅, h₅, hword⟩ := updateProtectiveMbr_run works newSize
    ((((f.pwrite ⟨sector, gptHeaderBytes, wordBytes hdr.toWords⟩).pwrite
      ⟨sector * 2, gptPtEntrySize, wordBytes pe⟩).pwrite
      ⟨u64 ((hdr.lastUsableLba.toNat + 1) * sector), gptPtEntrySize, wordBytes pe⟩).pwrite
      ⟨u64 ((2 ^ 64 + newSize - 1) * sector), gptHeaderBytes,
        wordBytes (backupHeader hdr).toWords⟩)
  rw [h₅] at h
  cases h
  exact ⟨hle₃, hle₄, hword⟩

/-- The words of the disk when the offsets are those of words. -/
theorem Stored.word_eq {hdr : GptHeader} {pe : ℕ → UInt32} (h : Stored sector newSize hdr pe f f')
    {W B D : ℕ} (hW : sector = 4 * W) (hB : u64 ((hdr.lastUsableLba.toNat + 1) * sector) = 4 * B)
    (hD : u64 ((2 ^ 64 + newSize - 1) * sector) = 4 * D) {i : ℕ} (hi : 128 ≤ i) :
    f'.word i =
      if D ≤ i ∧ i < D + 26 then (backupHeader hdr).toWords (i - D)
      else if B ≤ i ∧ i < B + 4096 then pe (i - B)
      else if W * 2 ≤ i ∧ i < W * 2 + 4096 then pe (i - W * 2)
      else if W ≤ i ∧ i < W + 26 then hdr.toWords (i - W)
      else f.word i := by
  rw [h.word i hi, hB, hD]
  have hin (g : File) (o len : ℕ) (src : ℕ → UInt32) (h₁ : o ≤ i) (h₂ : 4 * i + 4 ≤ 4 * o + len) :
      (g.pwrite ⟨4 * o, len, wordBytes src⟩).word i = src (i - o) := by
    rw [File.word_pwrite_of_mem g (o := o) rfl h₁ h₂, bytesWord_wordBytes]
  have hout (g : File) (o len : ℕ) (src : ℕ → UInt32) (h : ¬ (o ≤ i ∧ i < o + len)) :
      (g.pwrite ⟨4 * o, 4 * len, wordBytes src⟩).word i = g.word i := by
    apply File.word_pwrite_of_not_mem
    dsimp only
    omega
  have hentry : gptPtEntrySize = 4 * 4096 := rfl
  have hheader : gptHeaderBytes = 4 * 26 := rfl
  have htwice : sector * 2 = 4 * (W * 2) := by rw [hW, Nat.mul_assoc]
  rw [hentry, hheader, htwice, hW]
  by_cases h₁ : D ≤ i ∧ i < D + 26
  · rw [if_pos h₁]
    exact hin _ D _ _ h₁.1 (by omega)
  rw [if_neg h₁, hout _ D _ _ h₁]
  by_cases h₂ : B ≤ i ∧ i < B + 4096
  · rw [if_pos h₂]
    exact hin _ B _ _ h₂.1 (by omega)
  rw [if_neg h₂, hout _ B _ _ h₂]
  by_cases h₃ : W * 2 ≤ i ∧ i < W * 2 + 4096
  · rw [if_pos h₃]
    exact hin _ (W * 2) _ _ h₃.1 (by omega)
  rw [if_neg h₃, hout _ (W * 2) _ _ h₃]
  by_cases h₄ : W ≤ i ∧ i < W + 26
  · rw [if_pos h₄]
    exact hin _ W _ _ h₄.1 (by omega)
  rw [if_neg h₄, hout _ W _ _ h₄]

/-- What is read from the second sector of a word-aligned size. -/
theorem bytesWord_read {W : ℕ} (hW : image = 4 * W) (n : ℕ) :
    bytesWord (fun i => f.byte (image * n + i)) = wordsAt image f n := by
  funext i
  have hdiv : image / 4 = W := by omega
  rw [wordsAt, hdiv, File.word]
  apply bytesWord_congr
  intro k _
  have hoff : image * n + (4 * i + k) = 4 * (n * W + i) + k := by
    rw [hW]
    ring
  rw [hoff]

theorem readTable_ok {W : ℕ} (hW : image = 4 * W) {t : GptHeader × (ℕ → UInt32)}
    (h : readTable works image f = .ok t f') :
    image + gptHeaderBytes ≤ f.size ∧ t = (headerAt image f 1, wordsAt image f 2) ∧ f' = f := by
  obtain ⟨hdr, f₁, h₁, h⟩ := bind_eq_ok h
  obtain ⟨buf, f₂, h₂, h⟩ := bind_eq_ok h
  obtain ⟨hle, rfl, rfl⟩ := readSafe_ok h₁
  obtain ⟨-, rfl, rfl⟩ := readSafe_ok h₂
  have hhdr : bytesWord (fun i => f₂.byte (image + i)) = wordsAt image f₂ 1 := by
    rw [← bytesWord_read hW 1, Nat.mul_one]
  rw [hhdr, bytesWord_read hW 2] at h
  dsimp only at h
  split at h
  · cases h
  · cases h
    exact ⟨hle, rfl, rfl⟩

/-- A run that returns 0. -/
theorem updateGptPartition_ok {W newSize512 blocksize512 : ℕ} (hW : image = 4 * W)
    (h : updateGptPartition works newSize512 sector image blocksize512 f = .ok () f') :
    newSize512 ≤ f.size / sectorSize ∧ gptBlocksize sector blocksize512 ≠ 0 ∧
      ∃ pe f₁, pe = resizedEntries sector image (gptNewSize sector (f.size / sectorSize) newSize512)
          (gptBlocksize sector blocksize512) (wordsAt image f 2) ∧ f₁.size = f.size ∧
        Stored sector (gptNewSize sector (f.size / sectorSize) newSize512)
          (primaryHeader sector image (gptNewSize sector (f.size / sectorSize) newSize512)
            (headerAt image f 1) pe) pe f₁ f' := by
  rw [updateGptPartition, get_bind_run] at h
  dsimp only at h
  split at h
  · cases h
  split at h
  · cases h
  rename_i hsize
  obtain ⟨t, f₀, htable, h⟩ := bind_eq_ok h
  obtain ⟨hle, rfl, rfl⟩ := readTable_ok hW htable
  dsimp only at h
  split at h
  · cases h
  rename_i hblocks
  refine ⟨Nat.not_lt.mp hsize, hblocks, ?_⟩
  split at h
  · obtain ⟨⟨⟩, f₁, hclear, h⟩ := bind_eq_ok h
    obtain ⟨-, rfl⟩ := writeSafe_ok hclear
    have hsame : image + 8 ≤ f₀.size := by
      simp only [gptHeaderBytes] at hle
      omega
    refine ⟨_, _, rfl, ?_, storeTable_ok h⟩
    exact File.size_pwrite_le hsame
  · exact ⟨_, _, rfl, rfl, storeTable_ok h⟩

/-! ## Runs that return 0 -/

theorem readTable_run {W : ℕ} (hW : image = 4 * W) (hworks : ∀ r, works r = true)
    (hle : image * 2 + gptPtEntrySize ≤ f.size)
    (hcrc : (headerAt image f 1).crc = (headerAt image f 1).headerCrc32) :
    readTable works image f = .ok (headerAt image f 1, wordsAt image f 2) f := by
  have hhdr : bytesWord (fun i => f.byte (image + i)) = wordsAt image f 1 := by
    rw [← bytesWord_read hW 1, Nat.mul_one]
  have hfirst : image + gptHeaderBytes ≤ f.size := by
    simp only [gptPtEntrySize] at hle
    simp only [gptHeaderBytes]
    omega
  rw [readTable, bind_run_ok (readSafe_run (hworks _) hfirst),
    bind_run_ok (readSafe_run (hworks _) hle), hhdr, bytesWord_read hW 2]
  rw [headerAt] at hcrc
  rw [if_neg (not_not.mpr hcrc)]
  rfl

theorem storeTable_run {hdr : GptHeader} {pe : ℕ → UInt32} (hworks : ∀ r, works r = true)
    (hle : sector * 2 + gptPtEntrySize ≤ f.size)
    (hentries : u64 ((hdr.lastUsableLba.toNat + 1) * sector) + gptPtEntrySize ≤ f.size)
    (hheader : u64 ((2 ^ 64 + newSize - 1) * sector) + gptHeaderBytes ≤ f.size) :
    ∃ f', storeTable works sector newSize hdr pe f = .ok () f' := by
  have hfirst : sector + gptHeaderBytes ≤ f.size := by
    simp only [gptPtEntrySize] at hle
    simp only [gptHeaderBytes]
    omega
  have h₁ : (f.pwrite ⟨sector, gptHeaderBytes, wordBytes hdr.toWords⟩).size = f.size :=
    File.size_pwrite_le hfirst
  have h₂ : ((f.pwrite ⟨sector, gptHeaderBytes, wordBytes hdr.toWords⟩).pwrite
      ⟨sector * 2, gptPtEntrySize, wordBytes pe⟩).size = f.size :=
    (File.size_pwrite_le (h₁ ▸ hle)).trans h₁
  have h₃ : (((f.pwrite ⟨sector, gptHeaderBytes, wordBytes hdr.toWords⟩).pwrite
      ⟨sector * 2, gptPtEntrySize, wordBytes pe⟩).pwrite
      ⟨u64 ((hdr.lastUsableLba.toNat + 1) * sector), gptPtEntrySize, wordBytes pe⟩).size = f.size :=
    (File.size_pwrite_le (h₂ ▸ hentries)).trans h₂
  obtain ⟨f', hmbr, -⟩ := updateProtectiveMbr_run works newSize
    ((((f.pwrite ⟨sector, gptHeaderBytes, wordBytes hdr.toWords⟩).pwrite
      ⟨sector * 2, gptPtEntrySize, wordBytes pe⟩).pwrite
      ⟨u64 ((hdr.lastUsableLba.toNat + 1) * sector), gptPtEntrySize, wordBytes pe⟩).pwrite
      ⟨u64 ((2 ^ 64 + newSize - 1) * sector), gptHeaderBytes,
        wordBytes (backupHeader hdr).toWords⟩)
  have hsync : ¬ works .fsync = false := by rw [hworks]; exact Bool.noConfusion
  refine ⟨f', ?_⟩
  rw [storeTable, bind_run_ok (writeSafe_run (hworks _) hfirst),
    bind_run_ok (writeSafe_run (hworks _) (h₁ ▸ hle)), if_neg hsync,
    bind_run_ok (writeSafe_run (hworks _) (h₂ ▸ hentries)),
    bind_run_ok (writeSafe_run (hworks _) (h₃ ▸ hheader))]
  exact hmbr

/-- Without a conversion, on a device with room for the table. -/
theorem updateGptPartition_run {W newSize512 blocksize512 : ℕ} (hW : sector = 4 * W)
    (hworks : ∀ r, works r = true) (hreq : newSize512 ≤ f.size / sectorSize)
    (hblocks : gptBlocksize sector blocksize512 ≠ 0)
    (hcrc : (headerAt sector f 1).crc = (headerAt sector f 1).headerCrc32)
    (hle : sector * 2 + gptPtEntrySize ≤ f.size)
    (hentries : u64 (((lastUsable sector
        (gptNewSize sector (f.size / sectorSize) newSize512)).toNat + 1) * sector) +
      gptPtEntrySize ≤ f.size)
    (hheader : u64 ((2 ^ 64 + gptNewSize sector (f.size / sectorSize) newSize512 - 1) * sector) +
      gptHeaderBytes ≤ f.size) :
    ∃ f', updateGptPartition works newSize512 sector sector blocksize512 f = .ok () f' := by
  have hsize : ¬ works .getSize = false := by rw [hworks]; exact Bool.noConfusion
  have hsame : ¬ sector ≠ sector := not_not.mpr rfl
  rw [updateGptPartition, get_bind_run]
  dsimp only
  rw [if_neg hsize, if_neg (Nat.not_lt.mpr hreq), bind_run_ok (readTable_run hW hworks hle hcrc)]
  dsimp only
  rw [if_neg hblocks, if_neg hsame]
  apply storeTable_run hworks hle _ hheader
  rw [primaryHeader, GptHeader.withCrc, resizedHeader, if_neg hsame]
  exact hentries

end Runs

end Ploop.Gpt
