import Ploop.Image.Layout
import Ploop.Image.Delta
import Ploop.Lib.Buffer

/-!
# The format extension

`cbt.c`: the dirty bitmap of a device in a block past the data of its image.
The bitmap is cut into blocks; a table has for each of them 0 or 1 if all its
bits are equal, and its place in sectors otherwise.
-/

namespace Ploop.Cbt

open Storage

def formatExtensionMagic : ℕ := 0xAB234CEF23DCEA87

def extMagicDirtyBitmap : ℕ := 0x20385FAE252CB34A

/-- `sizeof(struct ploop_pvd_ext_block_check)` -/
def checkBytes : ℕ := 24

/-- `sizeof(struct ploop_pvd_ext_block_element_header)` -/
def elementBytes : ℕ := 24

/-- `sizeof(struct ploop_pvd_dirty_bitmap_raw)`, without the table. -/
def rawBytes : ℕ := 32

/-- What `BLKCBTGET` reports: the granularity in bytes, which is a number of
sectors, and the dirty granules. -/
structure KernelCbt where
  uuid : Sig
  blksize : ℕ
  dirty : ℕ → Bool
  pos : 0 < blksize
  dvd : sectorSize ∣ blksize
  lt : blksize < 2 ^ 32

/-- `struct ploop_pvd_dirty_bitmap_raw`, with its table as a list. -/
structure DirtyBitmapRaw (α : Type) where
  mSize : ℕ
  mId : Sig
  mGranularity : ℕ
  mL1 : List α

/-- An entry of a table in memory, where the places are pointers. -/
inductive MemEntry where
  | const (v : Bool)
  | block (b : ℕ → UInt8)

def blockSize (vh : PvdHeader) : ℕ := s2b vh.mSectors.toNat

/-- `m_FormatExtensionOffset` -/
def formatExtensionOffset (vh : PvdHeader) : ℕ :=
  vh.mFormatExtensionOffsetLo.toNat + 2 ^ 32 * vh.mFormatExtensionOffsetHi.toNat

/-! ## Cutting the bitmap -/

/-- `is_const_bit`: first by 64-bit words, then by bytes. The last loop looks at
one byte more than `size`. -/
def isConstBit (data : ℕ → UInt8) (size : ℕ) : Option Bool :=
  let first8 := data 0
  let n := if 8 < size then (size - 1) / 8 else 0
  if first8 ≠ 0 ∧ first8 ≠ 0xff then none
  else if 8 < size ∧ rd64 data 0 ≠ 0 ∧ rd64 data 0 ≠ 2 ^ 64 - 1 then none
  else if (∀ i < n, rd64 data (8 * i) = rd64 data 0) ∧
      ∀ i < size - 8 * n + 1, data (8 * n + i) = first8 then some (first8 ≠ 0)
  else none

/-- `bytes` of `save_dirty_bitmap`. -/
def bitmapBytes (mSize mGranularity : ℕ) : ℕ :=
  u64 (u64 (mSize + mGranularity - 1) / mGranularity + 7) / 8

/-- The word of the extension block that the entry `i` of the table begins with. -/
def l1Word (i : ℕ) : ℕ := 20 + 2 * i

section Save

variable {m : Type → Type} [Monad m]

/-- The loop of `save_dirty_bitmap` from the entry `i` of the table on. A constant
is stored as an `int`, so the other half of the entry stays as the buffer `old`
has it. `block` is what the block has from before. -/
def saveBlocks (k : KernelCbt) (bs : ℕ) (old : ℕ → UInt32) (wr : ℕ → (ℕ → UInt8) → m Unit) :
    ℕ → ℕ → ℕ → ℕ → (ℕ → UInt8) → m (List ℕ)
  | 0, _, _, _, _ => pure []
  | n + 1, i, offset, bytes, block => do
      let curSize := min bs bytes
      let block := overlay block 0 curSize fun j => packByte k.dirty (i * bs + j)
      match isConstBit block curSize with
      | some v => do
          let rest ← saveBlocks k bs old wr n (i + 1) offset (bytes - curSize) block
          pure ((v.toNat + 2 ^ 32 * (old (l1Word i + 1)).toNat) :: rest)
      | none => do
          wr offset block
          let rest ← saveBlocks k bs old wr n (i + 1) (offset + bs) (bytes - curSize) block
          pure (offset / sectorSize :: rest)

/-- `save_dirty_bitmap` -/
def saveDirtyBitmap (k : KernelCbt) (vh : PvdHeader) (offset : ℕ) (old : ℕ → UInt32)
    (heap : ℕ → UInt8) (wr : ℕ → (ℕ → UInt8) → m Unit) : m (DirtyBitmapRaw ℕ) := do
  let bs := blockSize vh
  let granularity := k.blksize / sectorSize
  let bytes := bitmapBytes vh.mSizeInSectorsV2 granularity
  let l1Size := u32 ((bytes + bs - 1) / bs)
  let l1 ← saveBlocks k bs old wr l1Size 0 offset bytes heap
  pure ⟨vh.mSizeInSectorsV2, k.uuid, granularity, l1⟩

end Save

/-- `save_dirty_bitmap_from_raw` -/
def saveFromRaw (bs : ℕ) : ℕ → List MemEntry → DeltaM (List ℕ)
  | _, [] => pure []
  | offset, .const v :: es => do
      let rest ← saveFromRaw bs offset es
      pure (v.toNat :: rest)
  | offset, .block b :: es => do
      pwrite offset bs b
      let rest ← saveFromRaw bs (offset + bs) es
      pure (offset / sectorSize :: rest)

/-! ## The extension block -/

/-- The words of the element with the bitmap, over what the buffer has. -/
def elementWords (raw : DirtyBitmapRaw ℕ) (old : ℕ → UInt32) (i : ℕ) : UInt32 :=
  match i with
  | 6 => lo32 extMagicDirtyBitmap
  | 7 => hi32 extMagicDirtyBitmap
  | 10 => UInt32.ofNat (rawBytes + 8 * raw.mL1.length)
  | 12 => lo32 raw.mSize
  | 13 => hi32 raw.mSize
  | 14 => raw.mId.1
  | 15 => raw.mId.2.1
  | 16 => raw.mId.2.2.1
  | 17 => raw.mId.2.2.2
  | 18 => UInt32.ofNat raw.mGranularity
  | 19 => UInt32.ofNat raw.mL1.length
  | j + 20 =>
      match raw.mL1[j / 2]? with
      | some v => if j % 2 = 0 then lo32 v else hi32 v
      | none => old (j + 20)
  | j => old j

/-- The checksum is over the block without its first `checkBytes`. -/
def checksum (md5 : List UInt8 → Sig) (bs : ℕ) (block : ℕ → UInt8) : Sig :=
  md5 ((List.range (bs - checkBytes)).map fun i => block (checkBytes + i))

def extBlock (md5 : List UInt8 → Sig) (bs : ℕ) (raw : DirtyBitmapRaw ℕ) (old : ℕ → UInt32) :
    ℕ → UInt32 :=
  let body := elementWords raw old
  let hash := checksum md5 bs (wordBytes body)
  fun i => match i with
    | 0 => lo32 formatExtensionMagic
    | 1 => hi32 formatExtensionMagic
    | 2 => hash.1
    | 3 => hash.2.1
    | 4 => hash.2.2.1
    | 5 => hash.2.2.2
    | i => body i

/-- Where `delta_save_optional_header` takes the bitmap from: the device, which
may have none, or memory. -/
inductive Source where
  | device (k : Option KernelCbt)
  | memory (raw : DirtyBitmapRaw MemEntry)

/-- The header of an image with an extension at sector `ext`. -/
def extHeader (vh : PvdHeader) (ext : ℕ) : PvdHeader := { vh with
  mDiskInUse := signatureDiskClosedV21
  mFormatExtensionOffsetLo := lo32 ext
  mFormatExtensionOffsetHi := hi32 ext }

/-- The end of `delta_save_optional_header`: the header, then the block. -/
def writeExtension (md5 : List UInt8 → Sig) (raw : DirtyBitmapRaw ℕ) : DeltaM Unit := do
  let d ← get
  let ext := (d.file.size + sectorSize - 1) / sectorSize
  let vh := extHeader d.hdr0 ext
  modify fun d => { d with hdr0 := vh }
  pwrite 0 headerBytes (wordBytes vh.toWords)
  pwrite (ext * sectorSize) (blockSize vh)
    (wordBytes (extBlock md5 (blockSize vh) raw fun _ => 0))

/-- The first part of `delta_save_optional_header`: the blocks of the bitmap. -/
def saveFrom (heap : ℕ → UInt8) (src : Source) : DeltaM (Option (DirtyBitmapRaw ℕ)) := do
  let d ← get
  let bs := blockSize d.hdr0
  match src with
  | .device none => pure none
  | .device (some k) =>
      some <$> saveDirtyBitmap k d.hdr0 d.file.size (fun _ => 0) heap fun off b => pwrite off bs b
  | .memory raw => do
      let l1 ← saveFromRaw bs d.file.size raw.mL1
      pure (some ⟨raw.mSize, raw.mId, raw.mGranularity, l1⟩)

/-- `delta_save_optional_header` -/
def deltaSaveOptionalHeader (md5 : List UInt8 → Sig) (heap : ℕ → UInt8) (src : Source) :
    DeltaM Unit := do
  match ← saveFrom heap src with
  | none => pure ()
  | some raw => writeExtension md5 raw

/-! ## Loading -/

structure ExtContext where
  extBlocks : List ℕ
  raw : Option (DirtyBitmapRaw MemEntry)

def ExtContext.new : ExtContext := ⟨[], none⟩

/-- A read of no bytes succeeds anywhere. -/
def preadPart (len off : ℕ) : DeltaM (ℕ → UInt8) :=
  if len = 0 then pure fun _ => 0 else pread .read len off

/-- The loop of `raw_move_to_memory`; the result is the table in memory and the
places of the blocks. -/
def moveToMemory (bs : ℕ) (heap : ℕ → UInt8) : ℕ → List ℕ → DeltaM (List MemEntry × List ℕ)
  | _, [] => pure ([], [])
  | bytes, v :: vs => do
      let curSize := min bs bytes
      if 1 < v then do
        let b ← preadPart curSize (u64 (v * sectorSize))
        let (es, offs) ← moveToMemory bs heap (bytes - curSize) vs
        pure (.block (overlay heap 0 curSize b) :: es, u64 (v * sectorSize) :: offs)
      else do
        let (es, offs) ← moveToMemory bs heap (bytes - curSize) vs
        pure (.const (v = 1) :: es, offs)

/-- The raw bitmap at byte `pos` of a block. -/
def readRaw (block : ℕ → UInt8) (pos : ℕ) : DirtyBitmapRaw ℕ where
  mSize := rd64 block pos
  mId := (rd32 block (pos + 8), rd32 block (pos + 12), rd32 block (pos + 16), rd32 block (pos + 20))
  mGranularity := (rd32 block (pos + 24)).toNat
  mL1 := (List.range (rd32 block (pos + 28)).toNat).map fun i => rd64 block (pos + rawBytes + 8 * i)

/-- `load_dirty_bitmap`, with the bitmap at byte `pos` of the block. -/
def loadDirtyBitmap (heap : ℕ → UInt8) (block : ℕ → UInt8) (pos size : ℕ) (ctx : ExtContext) :
    DeltaM ExtContext := do
  let vh := (← get).hdr0
  let raw := readRaw block pos
  if formatExtensionOffset vh = 0 then pure ctx
  else if raw.mSize ≠ vh.mSizeInSectorsV2 then throw .protocol
  else if size < rawBytes + 8 * raw.mL1.length then throw .protocol
  -- the division by zero ends the process
  else if raw.mGranularity = 0 then throw .sys
  else do
    let bytes := bitmapBytes raw.mSize raw.mGranularity
    let (l1, offs) ← moveToMemory (blockSize vh) heap bytes raw.mL1
    pure ⟨ctx.extBlocks ++ offs, some ⟨raw.mSize, raw.mId, raw.mGranularity, l1⟩⟩

/-- The loop of `delta_load_optional_header` from the element at byte `h` on.
Every turn goes on by `elementBytes` at least, so that `bs` turns suffice. -/
def loadElements (heap : ℕ → UInt8) (bs : ℕ) (block : ℕ → UInt8) :
    ℕ → ℕ → ExtContext → DeltaM ExtContext
  | 0, _, _ => throw .protocol
  | n + 1, h, ctx => do
      let size := (rd32 block (h + 16)).toNat
      if bs < h + elementBytes ∨ bs < h + elementBytes + size then throw .protocol
      else if rd64 block h = 0 then pure ctx
      else do
        let ctx ← (if rd64 block h = extMagicDirtyBitmap then
            loadDirtyBitmap heap block (h + elementBytes) size ctx
          else pure ctx)
        loadElements heap bs block n (h + elementBytes + size) ctx

/-- `delta_load_optional_header` without flags. -/
def deltaLoadOptionalHeader (md5 : List UInt8 → Sig) (heap : ℕ → UInt8) (ctx : ExtContext) :
    DeltaM ExtContext := do
  let vh := (← get).hdr0
  let bs := blockSize vh
  let ext := u64 (formatExtensionOffset vh * sectorSize)
  if formatExtensionOffset vh = 0 ∨ vh.mDiskInUse = signatureDiskClosedV20 then pure ctx
  else if vh.mDiskInUse ≠ signatureDiskClosedV21 then throw .protocol
  else do
    let block ← pread .read bs ext
    if rd64 block 0 ≠ formatExtensionMagic then throw .protocol
    else if checksum md5 bs block ≠
        (rd32 block 8, rd32 block 12, rd32 block 16, rd32 block 20) then throw .protocol
    else loadElements heap bs block bs checkBytes { ctx with extBlocks := ctx.extBlocks ++ [ext] }

/-! ## The bitmap in memory -/

/-- The granule `g`, as `send_dirty_bitmap_to_kernel` would report it. -/
def DirtyBitmapRaw.dirty (raw : DirtyBitmapRaw MemEntry) (bs g : ℕ) : Bool :=
  match raw.mL1[g / (8 * bs)]? with
  | some (.const v) => v
  | some (.block b) => testBit b (g % (8 * bs))
  | none => false

end Ploop.Cbt
