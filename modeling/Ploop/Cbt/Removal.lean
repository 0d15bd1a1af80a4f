import Ploop.Cbt.RoundTrip

/-!
# Removing a bitmap

`delta_load_optional_header` with its flags, and the functions that open an image
for it. With `DIRTY_BITMAP_REMOVE` the blocks of the bitmap are to be collected
and cut off.
-/

namespace Ploop.Cbt

open Storage Program

/-! ## Flags -/

/-- `DIRTY_BITMAP_REMOVE` and `DIRTY_BITMAP_TRUNCATE` -/
structure Flags where
  remove : Bool
  truncate : Bool

/-- `add_ext_blocks_from_raw`. Its table is that in memory, where the entries are
the addresses `ptr` of the blocks. -/
def addExtBlocksFromRaw (ptr : ℕ → ℕ) (ctx : ExtContext) : ExtContext :=
  match ctx.raw with
  | none => ctx
  | some raw => { ctx with extBlocks := ctx.extBlocks ++ raw.mL1.zipIdx.filterMap fun
      | (.const _, _) => none
      | (.block _, i) => some (u64 (ptr i * sectorSize)) }

/-- `load_dirty_bitmap`; `REMOVE` is its `only_truncate`. -/
def loadDirtyBitmapWith (flags : Flags) (ptr : ℕ → ℕ) (heap block : ℕ → UInt8) (pos size : ℕ)
    (ctx : ExtContext) : DeltaM ExtContext :=
  if flags.remove then do
    let vh := (← get).hdr0
    let raw := readRaw block pos
    if formatExtensionOffset vh = 0 then pure ctx
    else if raw.mSize ≠ vh.mSizeInSectorsV2 then throw .protocol
    else if size < rawBytes + 8 * raw.mL1.length then throw .protocol
    else pure (addExtBlocksFromRaw ptr ctx)
  else loadDirtyBitmap heap block pos size ctx

/-- The loop of `delta_load_optional_header`. -/
def loadElementsWith (flags : Flags) (ptr : ℕ → ℕ) (heap : ℕ → UInt8) (bs : ℕ)
    (block : ℕ → UInt8) : ℕ → ℕ → ExtContext → DeltaM ExtContext
  | 0, _, _ => throw .protocol
  | n + 1, h, ctx => do
      let size := (rd32 block (h + 16)).toNat
      if bs < h + elementBytes ∨ bs < h + elementBytes + size then throw .protocol
      else if rd64 block h = 0 then pure ctx
      else do
        let ctx ← (if rd64 block h = extMagicDirtyBitmap then
            loadDirtyBitmapWith flags ptr heap block (h + elementBytes) size ctx
          else pure ctx)
        loadElementsWith flags ptr heap bs block n (h + elementBytes + size) ctx

/-- The loop of `truncate_ext_blocks`: as long as the last block of the file is one
of the list. -/
def cutBlocks (bs : ℕ) : ℕ → List ℕ → ℕ → ℕ
  | 0, _, size => size
  | n + 1, blocks, size =>
      let last := u64 (2 ^ 64 + size - bs)
      if last ∈ blocks then cutBlocks bs n (blocks.erase last) last else size

/-- The log of the disk begins anew. -/
def ftruncate (n : ℕ) : DeltaM Unit :=
  modify fun d => { d with disk := Disk.new (d.file.ftruncate n) }

/-- `truncate_ext_blocks` -/
def truncateExtBlocks (ctx : ExtContext) (bs : ℕ) : DeltaM ExtContext := do
  let size := (← get).file.size
  if size % bs ≠ 0 then throw .param
  else do
    let size' := cutBlocks bs ctx.extBlocks.length ctx.extBlocks size
    if size' < size then ftruncate size' else pure ()
    pure { ctx with extBlocks := [] }

/-- `drop_optional_hdr` -/
def dropOptionalHdr (flags : Flags) (e : Sysexit) : DeltaM ExtContext := do
  if flags.truncate then do
    let vh := (← get).hdr0
    let vh := { vh with
      mFormatExtensionOffsetLo := 0
      mFormatExtensionOffsetHi := 0
      mDiskInUse := if vh.mDiskInUse = signatureDiskClosedV21 then signatureDiskClosedV20
        else vh.mDiskInUse }
    modify fun d => { d with hdr0 := vh }
    pwrite 0 headerBytes (wordBytes vh.toWords)
    throw e
  else throw e

/-- `delta_load_optional_header` -/
def deltaLoadOptionalHeaderWith (flags : Flags) (ptr : ℕ → ℕ) (md5 : List UInt8 → Sig)
    (heap : ℕ → UInt8) (ctx : ExtContext) : DeltaM ExtContext := do
  let d ← get
  let vh := d.hdr0
  let bs := blockSize vh
  let ext := u64 (formatExtensionOffset vh * sectorSize)
  if formatExtensionOffset vh = 0 ∨ vh.mDiskInUse = signatureDiskClosedV20 then pure ctx
  else if vh.mDiskInUse ≠ signatureDiskClosedV21 then throw .protocol
  else
    match d.file.pread bs ext with
    | none => dropOptionalHdr flags .read
    | some block =>
        if rd64 block 0 ≠ formatExtensionMagic then dropOptionalHdr flags .protocol
        else if checksum md5 bs block ≠
            (rd32 block 8, rd32 block 12, rd32 block 16, rd32 block 20) then
          dropOptionalHdr flags .protocol
        else do
          let ctx ← loadElementsWith flags ptr heap bs block bs checkBytes
            { ctx with extBlocks := ctx.extBlocks ++ [ext] }
          if flags.remove ∨ flags.truncate then truncateExtBlocks ctx bs else pure ctx

/-- `read_optional_header_from_image` with a new context. -/
def readOptionalHeaderFromImage (md5 : List UInt8 → Sig) (heap : ℕ → UInt8) (ptr : ℕ → ℕ)
    (flags : Flags) (img : File) : Except Sysexit ExtContext × File :=
  match openDelta img true with
  | none => (.error .open, img)
  | some d =>
      match deltaLoadOptionalHeaderWith flags ptr md5 heap ExtContext.new d with
      | .ok ctx d => (.ok ctx, d.file)
      | .error e d => (.error e, d.file)

/-- `remove_optional_header_from_image`; `none` is 0. -/
def removeOptionalHeaderFromImage (md5 : List UInt8 → Sig) (heap : ℕ → UInt8) (ptr : ℕ → ℕ)
    (img : File) : Option Sysexit × File :=
  match readOptionalHeaderFromImage md5 heap ptr ⟨true, false⟩ img with
  | (.ok _, f) => (none, f)
  | (.error e, f) => (some e, f)

/-! ## Without flags -/

section NoFlags

variable {ptr : ℕ → ℕ} {heap block : ℕ → UInt8}

theorem loadElementsWith_none (bs n h : ℕ) (ctx : ExtContext) :
    loadElementsWith ⟨false, false⟩ ptr heap bs block n h ctx =
      loadElements heap bs block n h ctx := by
  induction n generalizing h ctx with
  | zero => rfl
  | succ n ih =>
      unfold loadElementsWith loadElements
      simp only [ih]
      rfl

/-- Without flags it is the loader. -/
theorem deltaLoadOptionalHeaderWith_none (md5 : List UInt8 → Sig) (ctx : ExtContext) :
    deltaLoadOptionalHeaderWith ⟨false, false⟩ ptr md5 heap ctx =
      deltaLoadOptionalHeader md5 heap ctx := by
  funext d
  unfold deltaLoadOptionalHeaderWith deltaLoadOptionalHeader
  simp only [get_bind_run, loadElementsWith_none]
  split
  · rfl
  split
  · rfl
  cases hread :
      d.file.pread (blockSize d.hdr0) (u64 (formatExtensionOffset d.hdr0 * sectorSize)) with
  | none =>
      exact (bind_run_error (pread_run_error hread)).symm
  | some block =>
      refine Eq.trans ?_ (bind_run_ok (pread_run hread)).symm
      dsimp only
      split
      · rfl
      split
      · rfl
      cases hrun : loadElements heap (blockSize d.hdr0) block (blockSize d.hdr0) checkBytes
        { ctx with extBlocks := ctx.extBlocks ++
          [u64 (formatExtensionOffset d.hdr0 * sectorSize)] } d with
      | ok ctx' d' => exact bind_run_ok hrun
      | error e d' => exact bind_run_error hrun

end NoFlags

/-! ## What is removed -/

section Remove

variable {md5 : List UInt8 → Sig} {ptr : ℕ → ℕ} {heap block : ℕ → UInt8} {ctx : ExtContext}
  {d : Delta}

/-- In a new context the blocks of the bitmap are not collected. -/
theorem loadDirtyBitmapWith_remove {truncate : Bool} (hraw : ctx.raw = none) {pos size : ℕ} :
    Triple (fun s => s = d) (loadDirtyBitmapWith ⟨true, truncate⟩ ptr heap block pos size ctx)
      (fun ctx' s => s = d ∧ ctx' = ctx)
      (fun _ => ¬ Loadable (blockSize d.hdr0) d.hdr0.mSizeInSectorsV2 d.file size
        (readRaw block pos)) := by
  refine Triple.look fun s hs => ?_
  subst hs
  dsimp only
  split
  · exact Triple.ret fun _ hs => ⟨hs, rfl⟩
  split
  · rename_i hsize
    exact Triple.raise fun _ _ h => hsize h.mSize
  split
  · rename_i hroom
    exact Triple.raise fun _ _ h => absurd h.room (Nat.not_le.mpr hroom)
  · refine Triple.ret fun _ hs => ⟨hs, ?_⟩
    rw [addExtBlocksFromRaw, hraw]

theorem loadElementsWith_remove {truncate : Bool} (hraw : ctx.raw = none) (n : ℕ) {h : ℕ}
    (hfuel : blockSize d.hdr0 < h + elementBytes * n) :
    Triple (fun s => s = d)
      (loadElementsWith ⟨true, truncate⟩ ptr heap (blockSize d.hdr0) block n h ctx)
      (fun ctx' s => s = d ∧ ctx' = ctx)
      (fun _ => ∀ rs, ¬ Elements (blockSize d.hdr0) d.hdr0.mSizeInSectorsV2 d.file block h rs) := by
  induction n generalizing h with
  | zero =>
      refine Triple.raise fun _ _ rs hrs => ?_
      have hlt : blockSize d.hdr0 < h := by simpa using hfuel
      cases hrs <;> omega
  | succ n ih =>
      unfold loadElementsWith
      dsimp only
      by_cases hroom : blockSize d.hdr0 < h + elementBytes ∨
          blockSize d.hdr0 < h + elementBytes + (rd32 block (h + 16)).toNat
      · rw [if_pos hroom]
        refine Triple.raise fun _ _ rs hrs => ?_
        cases hrs <;> omega
      rw [if_neg hroom]
      by_cases hstop : rd64 block h = 0
      · rw [if_pos hstop]
        exact Triple.ret fun s hs => ⟨hs, rfl⟩
      rw [if_neg hstop]
      have hnext : blockSize d.hdr0 <
          h + elementBytes + (rd32 block (h + 16)).toNat + elementBytes * n := by
        rw [Nat.mul_succ] at hfuel
        omega
      have hrest : Triple (fun s => s = d) (loadElementsWith ⟨true, truncate⟩ ptr heap
          (blockSize d.hdr0) block n (h + elementBytes + (rd32 block (h + 16)).toNat) ctx)
          (fun ctx' s => s = d ∧ ctx' = ctx) (fun _ => ∀ rs,
            ¬ Elements (blockSize d.hdr0) d.hdr0.mSizeInSectorsV2 d.file block h rs) := by
        refine (ih hnext).conseq (fun _ hs => hs) (fun _ _ hs => hs) fun _ hs rs hrs => ?_
        cases hrs with
        | stop _ hzero => exact hstop hzero
        | other _ _ _ hrest => exact hs _ hrest
        | bitmap _ _ _ hrest => exact hs _ hrest
      by_cases hmagic : rd64 block h = extMagicDirtyBitmap
      · rw [if_pos hmagic]
        refine Triple.bind ((loadDirtyBitmapWith_remove hraw).conseq (fun _ hs => hs)
          (fun _ _ hs => hs) fun _ hs rs hrs => ?_) fun ctx' => Triple.start fun s hs => ?_
        · cases hrs with
          | stop _ hzero => exact hstop hzero
          | other _ _ hother => exact hother hmagic
          | bitmap _ _ hload => exact hs hload
        · obtain ⟨rfl, rfl⟩ := hs
          exact hrest
      · rw [if_neg hmagic, pure_bind]
        exact hrest

/-- A list of the last block. -/
theorem truncateExtBlocks_spec {bs off : ℕ} (hbs : 0 < bs) (hsize : d.file.size = off + bs)
    (hlt : off < 2 ^ 63) (raw : Option (DirtyBitmapRaw MemEntry)) :
    Triple (fun s => s = d) (truncateExtBlocks ⟨[off], raw⟩ bs)
      (fun _ s => s.file = d.file.ftruncate off) (fun _ => ¬ bs ∣ d.file.size) := by
  have hcut : cutBlocks bs 1 [off] (off + bs) = off := by
    have hlast : u64 (2 ^ 64 + (off + bs) - bs) = off := by
      simp only [u64]
      omega
    unfold cutBlocks
    rw [hlast, if_pos List.mem_cons_self]
    rfl
  refine Triple.look fun s hs => ?_
  subst hs
  dsimp only [List.length_cons, List.length_nil]
  by_cases hdvd : s.file.size % bs ≠ 0
  · rw [if_pos hdvd]
    exact Triple.raise fun _ _ h => hdvd (Nat.mod_eq_zero_of_dvd h)
  rw [if_neg hdvd, hsize, hcut, if_pos (by omega)]
  refine Triple.step (Triple.ret fun t ht => ?_)
  subst ht
  rfl

variable {vh : PvdHeader} {ext : ℕ} {raw : DirtyBitmapRaw ℕ} {old : ℕ → UInt32} {e : Delta}

/-- The block of the extension is cut off, and nothing else is done. -/
theorem remove_extended (he : Extended md5 vh ext raw old e.file) (h0 : e.hdr0 = e.file.hdr)
    (hmin : checkBytes ≤ blockSize vh)
    (hsize : e.file.size = ext * sectorSize + blockSize vh) :
    Triple (fun s => s = e)
      (deltaLoadOptionalHeaderWith ⟨true, false⟩ ptr md5 heap ExtContext.new)
      (fun _ s => s.file = e.file.ftruncate (ext * sectorSize))
      (fun _ => ¬ (blockSize vh ∣ e.file.size ∧ ∃ rs, Elements (blockSize vh) vh.mSizeInSectorsV2
        e.file (fun i => e.file.byte (ext * sectorSize + i)) checkBytes rs)) := by
  have hlt := he.lt
  have hhdr0 : e.hdr0 = extHeader vh ext := h0.trans he.hdr
  have hext : formatExtensionOffset (extHeader vh ext) = ext :=
    formatExtensionOffset_extHeader vh (by simp only [sectorSize] at hlt; omega)
  have hoff : u64 (ext * sectorSize) = ext * sectorSize := u64_of_lt (by omega)
  have hclosed : (extHeader vh ext).mDiskInUse = signatureDiskClosedV21 := rfl
  have hcases : ¬ (ext = 0 ∨ (extHeader vh ext).mDiskInUse = signatureDiskClosedV20) := by
    rw [hclosed]
    exact not_or.mpr ⟨he.pos.ne', by decide⟩
  have hblocks : blockSize e.hdr0 = blockSize vh := by
    rw [hhdr0]
    rfl
  have hsectors : e.hdr0.mSizeInSectorsV2 = vh.mSizeInSectorsV2 := by
    rw [hhdr0]
    rfl
  have hread : e.file.pread (blockSize vh) (ext * sectorSize) =
      some fun i => e.file.byte (ext * sectorSize + i) := if_pos he.room
  obtain ⟨hmagic, hsum⟩ := check_block he.block hmin
  refine Triple.look fun s hs => ?_
  subst hs
  dsimp only
  rw [hblocks, hhdr0, hext, if_neg hcases, if_neg (not_not.mpr hclosed), hoff, hread]
  dsimp only
  rw [if_neg (not_not.mpr hmagic), if_neg (not_not.mpr hsum), ← hblocks, ← hsectors]
  refine Triple.bind ((loadElementsWith_remove (d := s) rfl _ ?_).conseq (fun _ hs => hs)
    (fun _ _ hs => hs) fun t ht h => ?_) fun ctx => Triple.start fun t ht => ?_
  · simp only [elementBytes, checkBytes]
    omega
  · obtain ⟨rs, hrs⟩ := h.2
    exact ht rs hrs
  · obtain ⟨rfl, rfl⟩ := ht
    rw [if_pos (.inl rfl)]
    refine (truncateExtBlocks_spec ?_ ?_ he.lt _).conseq (fun _ hs => hs) (fun _ _ hs => hs)
      fun _ hs h => hs h.1
    · rw [hblocks]
      simp only [checkBytes] at hmin
      omega
    · rw [hblocks]
      exact hsize

end Remove

/-! ## What was saved -/

section Saved

variable {d : Delta} {f : File} {vh : PvdHeader} {bs : ℕ}

/-- The header in memory is `vh`, and the file is `f` with blocks behind it. -/
structure Appended (f : File) (vh : PvdHeader) (bs : ℕ) (d : Delta) : Prop where
  hdr0 : d.hdr0 = vh
  kept : Kept f.size f d.file
  blocks : ∃ j, d.file.size = f.size + j * bs

theorem Appended.pwrite (h : Appended f vh bs d) (hbs : 0 < bs) (b : ℕ → UInt8) :
    Appended f vh bs (d.write ⟨d.file.size, bs, b⟩) ∧
      (d.write ⟨d.file.size, bs, b⟩).file.size = d.file.size + bs := by
  have hsize : (d.write ⟨d.file.size, bs, b⟩).file.size = d.file.size + bs := by
    rw [Delta.file_write, File.size_pwrite, if_neg (by simpa using hbs.ne')]
    exact max_eq_right (Nat.le_add_right _ _)
  obtain ⟨j, hj⟩ := h.blocks
  refine ⟨⟨h.hdr0, ?_, j + 1, ?_⟩, hsize⟩
  · rw [Delta.file_write]
    exact h.kept.trans (kept_pwrite (.inl h.kept.size)) le_rfl
  · rw [hsize, hj, Nat.succ_mul, Nat.add_assoc]

theorem saveBlocks_appended (hbs : 0 < bs) (k : KernelCbt) (old : ℕ → UInt32) (m i : ℕ)
    {offset : ℕ} (bytes : ℕ) (block : ℕ → UInt8) :
    Triple (fun s => Appended f vh bs s ∧ s.file.size = offset)
      (saveBlocks k bs old (fun off b => Ploop.pwrite off bs b) m i offset bytes block)
      (fun _ s => Appended f vh bs s ∧ s.file.size ≤ offset + m * bs) (fun _ => False) := by
  induction m generalizing i offset bytes block with
  | zero => exact Triple.ret fun _ h => ⟨h.1, by omega⟩
  | succ m ih =>
      unfold saveBlocks
      dsimp only
      split
      · refine Triple.bind (ih _ _ _) fun _ => Triple.ret fun _ h => ⟨h.1, ?_⟩
        rw [Nat.succ_mul]
        omega
      · refine Triple.bind (R := fun _ s => Appended f vh bs s ∧ s.file.size = offset + bs)
          (Triple.update ?_) fun _ => ?_
        · rintro s ⟨hs, rfl⟩
          exact hs.pwrite hbs _
        · refine Triple.bind (ih _ _ _) fun _ => Triple.ret fun _ h => ⟨h.1, ?_⟩
          rw [Nat.succ_mul]
          omega

theorem saveFromRaw_appended (hbs : 0 < bs) (es : List MemEntry) {offset : ℕ} :
    Triple (fun s => Appended f vh bs s ∧ s.file.size = offset) (saveFromRaw bs offset es)
      (fun _ => Appended f vh bs) (fun _ => False) := by
  induction es generalizing offset with
  | nil => exact Triple.ret fun _ h => h.1
  | cons e es ih =>
      cases e with
      | const v => exact Triple.bind ih fun _ => Triple.ret fun _ h => h
      | block b =>
          refine Triple.bind (R := fun _ s => Appended f vh bs s ∧ s.file.size = offset + bs)
            (Triple.update ?_) fun _ => ?_
          · rintro s ⟨hs, rfl⟩
            exact hs.pwrite hbs _
          · exact Triple.bind ih fun _ => Triple.ret fun _ h => h

/-- The blocks of a bitmap go behind the image. -/
theorem saveFrom_appended (heap : ℕ → UInt8) (hbs : 0 < blockSize d.hdr0) {src : Source}
    (hsrc : src ≠ .device none) :
    Triple (fun s => s = d) (saveFrom heap src)
      (fun saved s => saved.isSome ∧ Appended d.file d.hdr0 (blockSize d.hdr0) s)
      (fun _ => False) := by
  have hstart : Appended d.file d.hdr0 (blockSize d.hdr0) d := ⟨rfl, Kept.refl _ _, 0, by simp⟩
  refine Triple.look fun s hs => ?_
  subst hs
  cases src with
  | device k =>
      cases k with
      | none => exact absurd rfl hsrc
      | some k =>
          refine Triple.bind (R := fun _ => Appended s.file s.hdr0 (blockSize s.hdr0)) ?_
            fun _ => Triple.ret fun _ h => ⟨rfl, h⟩
          refine Triple.bind ((saveBlocks_appended hbs k _ _ _ _ heap).conseq ?_
            (fun _ _ h => h.1) fun _ h => h) fun _ => Triple.ret fun _ h => h
          rintro _ rfl
          exact ⟨hstart, rfl⟩
  | memory raw =>
      refine Triple.bind ((saveFromRaw_appended hbs raw.mL1).conseq ?_
        (fun _ _ h => h) fun _ h => h) fun _ => Triple.ret fun _ h => ⟨rfl, h⟩
      rintro _ rfl
      exact ⟨hstart, rfl⟩

/-- The table of a device has 2^32 entries at most. -/
theorem saveFrom_size (h : Image d) (heap : ℕ → UInt8) (k : KernelCbt) :
    Triple (fun s => s = d) (saveFrom heap (.device (some k)))
      (fun _ s => s.file.size < 2 ^ 62 + 2 ^ 58) (fun _ => False) := by
  have hhi := h.hi
  have hbs := h.blockSize_le
  refine Triple.look fun s hs => ?_
  subst hs
  refine Triple.bind (R := fun _ s => s.file.size < 2 ^ 62 + 2 ^ 58) ?_
    fun _ => Triple.ret fun _ h => h
  refine Triple.bind ((@saveBlocks_appended s.file s.hdr0 _ h.blockSize_pos k _ _ _ _ _ heap).conseq
    ?_ (fun _ t ht => ?_) fun _ h => h) fun _ => Triple.ret fun _ h => h
  · rintro _ rfl
    exact ⟨⟨rfl, Kept.refl _ _, 0, by simp⟩, rfl⟩
  · have hmul : u32 ((bitmapBytes s.hdr0.mSizeInSectorsV2 (k.blksize / sectorSize) +
        blockSize s.hdr0 - 1) / blockSize s.hdr0) * blockSize s.hdr0 ≤ 2 ^ 32 * 2 ^ 26 :=
      Nat.mul_le_mul (Nat.mod_lt _ (by norm_num)).le hbs
    have := ht.2
    omega

theorem writeExtension_spec {md5 : List UInt8 → Sig} {raw : DirtyBitmapRaw ℕ} {e : Delta} {ext : ℕ}
    (hext : (e.file.size + sectorSize - 1) / sectorSize = ext) :
    Triple (fun s => s = e) (writeExtension md5 raw) (fun _ s => s.file =
      (e.file.pwrite ⟨0, headerBytes, wordBytes (extHeader e.hdr0 ext).toWords⟩).pwrite
        ⟨ext * sectorSize, blockSize e.hdr0,
          wordBytes (extBlock md5 (blockSize e.hdr0) raw fun _ => 0)⟩) (fun _ => False) := by
  refine Triple.look fun s hs => ?_
  subst hs
  dsimp only
  rw [hext]
  refine Triple.step (Triple.step (Triple.update fun t ht => ?_))
  subst ht
  rw [Delta.file_write, Delta.file_write]
  rfl

/-- Saving from a device cannot reach the largest offset. -/
theorem save_size {md5 : List UInt8 → Sig} (h : Image d) (heap : ℕ → UInt8) (k : KernelCbt)
    {d' : Delta} (hrun : deltaSaveOptionalHeader md5 heap (.device (some k)) d = .ok () d') :
    d'.file.size < 2 ^ 63 := by
  have hbs := h.blockSize_le
  obtain ⟨saved, e, hsaved, hwrite⟩ := bind_eq_ok hrun
  obtain ⟨hsome, happ⟩ := (saveFrom_appended heap h.blockSize_pos (by simp)).ok rfl hsaved
  have hsize := (saveFrom_size h heap k).ok rfl hsaved
  obtain ⟨raw, rfl⟩ := Option.isSome_iff_exists.mp hsome
  have hfile := (writeExtension_spec rfl).ok rfl hwrite
  rw [hfile, happ.hdr0, File.size_pwrite, File.size_pwrite, if_neg h.blockSize_pos.ne',
    if_neg (by norm_num [headerBytes])]
  simp only [headerBytes, sectorSize]
  omega

/-- The extension is the last block of a file that has one. -/
theorem save_extended {md5 : List UInt8 → Sig} (heap : ℕ → UInt8) {src : Source}
    (hsrc : src ≠ .device none) {d' : Delta} (h : Image d) (hhi : d'.file.size < 2 ^ 63)
    (hrun : deltaSaveOptionalHeader md5 heap src d = .ok () d') :
    Kept d.file.size d.file d'.file ∧ ∃ ext raw j,
      Extended md5 d.hdr0 ext raw (fun _ => 0) d'.file ∧
      ext * sectorSize = d.file.size + j * blockSize d.hdr0 ∧
      d'.file.size = ext * sectorSize + blockSize d.hdr0 := by
  have hpos := h.blockSize_pos
  have hlo := h.lo
  obtain ⟨saved, e, hsaved, hwrite⟩ := bind_eq_ok hrun
  obtain ⟨hsome, happ⟩ := (saveFrom_appended heap hpos hsrc).ok rfl hsaved
  obtain ⟨raw, rfl⟩ := Option.isSome_iff_exists.mp hsome
  obtain ⟨j, hj⟩ := happ.blocks
  have hsize := happ.kept.size
  have hdvd : sectorSize ∣ e.file.size := by
    rw [hj]
    exact (Nat.dvd_add_right h.aligned).mpr ((sector_dvd d).mul_left _)
  obtain ⟨ext, hext⟩ := hdvd
  have hval : (e.file.size + sectorSize - 1) / sectorSize = ext := by
    rw [hext]
    simp only [sectorSize]
    omega
  have hfile := (writeExtension_spec hval).ok rfl hwrite
  rw [happ.hdr0] at hfile
  have heq : ext * sectorSize = e.file.size := by rw [hext, Nat.mul_comm]
  have hlo' : 2 ≤ ext := by
    simp only [sectorSize] at heq hlo
    omega
  have hend : d'.file.size = ext * sectorSize + blockSize d.hdr0 := by
    rw [hfile, File.size_pwrite, if_neg hpos.ne', File.size_pwrite,
      if_neg (by norm_num [headerBytes])]
    simp only [headerBytes, sectorSize] at *
    omega
  obtain ⟨hkept, hextended⟩ := extended_pwrite hpos hlo' (by omega) hfile
  refine ⟨happ.kept.trans ⟨hkept.size, fun i h₁ h₂ => hkept.byte i h₁ (by omega)⟩ hsize, ext, raw,
    j, hextended, heq.trans hj, hend⟩

end Saved

/-! ## After a removal -/

/-- What a removal should leave of `saved`, an image with an extension that was
`before` until the extension was saved. -/
structure Dropped (md5 : List UInt8 → Sig) (before saved after : File) : Prop where
  size : after.size = before.size
  loads : ∀ heap ptr, ∃ ctx,
    readOptionalHeaderFromImage md5 heap ptr ⟨false, false⟩ after = (.ok ctx, after) ∧
      ctx.raw = none
  again : ∀ heap ptr, removeOptionalHeaderFromImage md5 heap ptr after = (none, after)
  content : content after = content saved

section After

variable {md5 : List UInt8 → Sig} {vh : PvdHeader} {ext : ℕ} {raw : DirtyBitmapRaw ℕ}
  {old : ℕ → UInt32} {f g : File} {heap : ℕ → UInt8} {ptr : ℕ → ℕ}

theorem removed_eq (he : Extended md5 vh ext raw old f) (hmin : checkBytes ≤ blockSize vh)
    (hsize : f.size = ext * sectorSize + blockSize vh)
    (hrem : removeOptionalHeaderFromImage md5 heap ptr f = (none, g)) :
    g = f.ftruncate (ext * sectorSize) := by
  unfold removeOptionalHeaderFromImage readOptionalHeaderFromImage at hrem
  cases hopen : openDelta f true with
  | none =>
      rw [hopen] at hrem
      exact absurd (Prod.mk.inj hrem).1 (Option.some_ne_none _)
  | some e =>
      have hat := openDelta_spec hopen
      have hfile : e.file = f := congrArg Disk.file hat.disk
      rw [← hfile] at he hsize
      rw [hopen] at hrem
      dsimp only at hrem
      cases hrun : deltaLoadOptionalHeaderWith ⟨true, false⟩ ptr md5 heap ExtContext.new e with
      | error er t =>
          rw [hrun] at hrem
          exact absurd (Prod.mk.inj hrem).1 (Option.some_ne_none _)
      | ok ctx t =>
          rw [hrun] at hrem
          have ht := (remove_extended he (hat.hdr0.trans (by rw [hfile])) hmin hsize).ok rfl hrun
          rw [← (Prod.mk.inj hrem).2, ← hfile]
          exact ht

/-- The header of an image still tells of the extension that was cut off. -/
theorem readOptionalHeader_cut {flags : Flags} (hvh : vh.Valid) (hg : g.hdr = extHeader vh ext)
    (hpos : 0 < ext) (hlt : ext * sectorSize < 2 ^ 63) (hsize : g.size = ext * sectorSize)
    (hbig : 4096 ≤ g.size) (hflags : flags.truncate = false) :
    readOptionalHeaderFromImage md5 heap ptr flags g = (.error .read, g) := by
  have hvalid : g.hdr.Valid := by
    rw [hg]
    exact ⟨hvh.version, hvh.type, hvh.aligned, hvh.layout⟩
  obtain ⟨e, hopen⟩ := @exists_openDelta g true hvalid hbig fun _ => rfl
  have hat := openDelta_spec hopen
  have hfile : e.file = g := congrArg Disk.file hat.disk
  have hhdr0 : e.hdr0 = extHeader vh ext := hat.hdr0.trans hg
  have hext : formatExtensionOffset (extHeader vh ext) = ext :=
    formatExtensionOffset_extHeader vh (by simp only [sectorSize] at hlt; omega)
  have hclosed : (extHeader vh ext).mDiskInUse = signatureDiskClosedV21 := rfl
  have hcases : ¬ (ext = 0 ∨ (extHeader vh ext).mDiskInUse = signatureDiskClosedV20) := by
    rw [hclosed]
    exact not_or.mpr ⟨hpos.ne', by decide⟩
  have hbs : 0 < blockSize vh := by
    have := hvh.layout.blocksize.pos
    change 0 < vh.mSectors.toNat * 512
    change 0 < vh.mSectors.toNat at this
    omega
  have hblocks : blockSize (extHeader vh ext) = blockSize vh := rfl
  have hread : g.pread (blockSize vh) (ext * sectorSize) = none := if_neg (by omega)
  have hrun : deltaLoadOptionalHeaderWith flags ptr md5 heap ExtContext.new e = .error .read e := by
    unfold deltaLoadOptionalHeaderWith
    rw [get_bind_run, hhdr0, hext, if_neg hcases, if_neg (not_not.mpr hclosed),
      u64_of_lt (by omega), hfile]
    rw [hblocks, hread]
    dsimp only
    unfold dropOptionalHdr
    rw [hflags]
    rfl
  unfold readOptionalHeaderFromImage
  rw [hopen]
  dsimp only
  rw [hrun]
  dsimp only
  rw [hfile]

end After

section Never

variable {md5 : List UInt8 → Sig} {d d' : Delta} {src : Source} {g : File} {heap heap' : ℕ → UInt8}
  {ptr : ℕ → ℕ}

theorem Image.valid (h : Image d) : d.hdr0.Valid := by
  rw [h.hdr0]
  exact h.wellFormed.header

theorem Image.blockSize_ge (h : Image d) : 32768 ≤ blockSize d.hdr0 := by
  have := h.blocksize.1
  simp only [blockSize, s2b]
  omega

theorem Image.size_ge (h : Image d) : blockSize d.hdr0 ≤ d.file.size := by
  rw [h.blockSize_eq]
  exact (Nat.le_mul_of_pos_left _ h.wellFormed.header.layout.l1_pos).trans h.index

/-- The disk is as it was before the extension was saved, but nothing can be loaded
or removed any more. -/
theorem removed_spec (h : Image d) (hsrc : src ≠ .device none)
    (hsave : deltaSaveOptionalHeader md5 heap src d = .ok () d') (hhi : d'.file.size < 2 ^ 63)
    (hrem : removeOptionalHeaderFromImage md5 heap' ptr d'.file = (none, g)) :
    Unchanged d.file g ∧ ∀ heap'' ptr',
      readOptionalHeaderFromImage md5 heap'' ptr' ⟨false, false⟩ g = (.error .read, g) ∧
        removeOptionalHeaderFromImage md5 heap'' ptr' g = (some .read, g) := by
  have hmin := h.blockSize_ge
  have hge := h.size_ge
  obtain ⟨hkept, ext, raw, j, he, heq, hsize⟩ := save_extended heap hsrc h hhi hsave
  have hle : d.file.size ≤ ext * sectorSize := heq ▸ Nat.le_add_right _ _
  obtain rfl := removed_eq he (by simp only [checkBytes]; omega) hsize hrem
  have hhdr : (d'.file.ftruncate (ext * sectorSize)).hdr = extHeader d.hdr0 ext := by
    rw [← he.hdr]
    refine PvdHeader.ofWords_congr fun i hi => File.word_ftruncate_of_lt _ ?_
    omega
  have hcut (heap'' : ℕ → UInt8) (ptr' : ℕ → ℕ) (flags : Flags) (hflags : flags.truncate = false) :
      readOptionalHeaderFromImage md5 heap'' ptr' flags (d'.file.ftruncate (ext * sectorSize)) =
        (.error .read, d'.file.ftruncate (ext * sectorSize)) :=
    readOptionalHeader_cut h.valid hhdr he.pos he.lt rfl (by rw [File.size_ftruncate]; omega) hflags
  refine ⟨?_, fun heap'' ptr' => ⟨hcut _ _ _ rfl, ?_⟩⟩
  · refine Kept.unchanged ⟨hle, fun i h₁ h₂ => ?_⟩ h.wellFormed h.index ?_
    · rw [File.byte_ftruncate_of_lt _ (h₂.trans_le hle)]
      exact hkept.byte i h₁ h₂
    · rw [hhdr, h.hdr0]
      rfl
  · rw [removeOptionalHeaderFromImage, hcut _ _ _ rfl]

/-- No image is clean after a removal. -/
theorem never_dropped (h : Image d) (hsrc : src ≠ .device none)
    (hsave : deltaSaveOptionalHeader md5 heap src d = .ok () d') (hhi : d'.file.size < 2 ^ 63)
    (hrem : removeOptionalHeaderFromImage md5 heap' ptr d'.file = (none, g)) :
    ¬ Dropped md5 d.file d'.file g := by
  intro hdropped
  obtain ⟨ctx, hload, -⟩ := hdropped.loads (fun _ => 0) fun _ => 0
  rw [((removed_spec h hsrc hsave hhi hrem).2 (fun _ => 0) fun _ => 0).1] at hload
  exact absurd (Prod.mk.inj hload).1 (by simp)

/-- A bitmap that can be loaded can be removed. -/
theorem exists_removed (h : Image d) (hdvd : blockSize d.hdr0 ∣ d.file.size)
    (hsrc : src ≠ .device none) (hsave : deltaSaveOptionalHeader md5 heap src d = .ok () d')
    (hhi : d'.file.size < 2 ^ 63) {k : KernelCbt} (hloads : Loads md5 k d'.file) :
    ∃ g, removeOptionalHeaderFromImage md5 heap' ptr d'.file = (none, g) := by
  have hmin := h.blockSize_ge
  have hge := h.size_ge
  have hvh := h.valid
  obtain ⟨-, ext, raw, j, he, heq, hsize⟩ := save_extended heap hsrc h hhi hsave
  have hvalid : d'.file.hdr.Valid := by
    rw [he.hdr]
    exact ⟨hvh.version, hvh.type, hvh.aligned, hvh.layout⟩
  obtain ⟨e, hopen⟩ := @exists_openDelta d'.file true hvalid (by omega) fun _ => rfl
  have hat := openDelta_spec hopen
  have hfile : e.file = d'.file := by
    rw [Delta.file, hat.disk]
    rfl
  have h0 : e.hdr0 = e.file.hdr := by rw [hat.hdr0, hfile]
  obtain ⟨ctx, r, hload, -⟩ := hloads heap' e hfile hat.hdr0
  rw [← hfile] at he hsize
  obtain ⟨-, rs, hrs, -⟩ :=
    (load_extended he h0 (by simp only [checkBytes]; omega) heap').ok rfl hload
  have hblocks : blockSize d.hdr0 ∣ e.file.size := by
    rw [hsize, heq]
    exact (Nat.dvd_add_right ((Nat.dvd_add_right hdvd).mpr (Nat.dvd_mul_left _ _))).mpr dvd_rfl
  obtain ⟨ctx', t, hrun, -⟩ := ((@remove_extended md5 ptr heap' _ _ _ _ _ he h0
    (by simp only [checkBytes]; omega) hsize).conseq (fun _ hs => hs) (fun _ _ hs => hs)
    fun _ hs => hs ⟨hblocks, rs, hrs⟩).exists_ok rfl
  refine ⟨t.file, ?_⟩
  unfold removeOptionalHeaderFromImage readOptionalHeaderFromImage
  rw [hopen]
  dsimp only
  rw [hrun]

end Never

/-- An image of 10 clusters, and a device with every granule dirty. -/
theorem smallImage_removed : ∃ d' g,
    deltaSaveOptionalHeader (fun _ => (5, 6, 7, 8)) (fun _ => 0) (.device (some wholeDevice))
      (emptyImage 640) = .ok () d' ∧
    removeOptionalHeaderFromImage (fun _ => (5, 6, 7, 8)) (fun _ => 0) (fun _ => 0) d'.file =
      (none, g) := by
  have h : Image (emptyImage 640) := emptyImage_image (by decide) (by decide) (by decide)
  have hroom : usedBytes (l1Entries wholeDevice (emptyImage 640).hdr0) + elementBytes ≤
      blockSize (emptyImage 640).hdr0 := by
    rw [l1Entries_emptyImage (by decide) (by decide), emptyImage_blockSize (by decide) (by decide)]
    decide
  obtain ⟨d', hsave, -, hloads⟩ := savesAndLoads (fun _ => (5, 6, 7, 8)) h (by omega) hroom .device
    fun _ => 0
  have hdvd : blockSize (emptyImage 640).hdr0 ∣ (emptyImage 640).file.size := by
    rw [emptyImage_blockSize (by decide) (by decide), smallImage_size]
  obtain ⟨g, hrem⟩ :=
    @exists_removed _ _ _ _ _ _ (fun _ => 0) h hdvd (by simp) hsave (save_size h _ _ hsave) _ hloads
  exact ⟨d', g, hsave, hrem⟩

theorem never_dropped_small : ∃ d' g,
    deltaSaveOptionalHeader (fun _ => (5, 6, 7, 8)) (fun _ => 0) (.device (some wholeDevice))
      (emptyImage 640) = .ok () d' ∧
    removeOptionalHeaderFromImage (fun _ => (5, 6, 7, 8)) (fun _ => 0) (fun _ => 0) d'.file =
      (none, g) ∧
    ¬ Dropped (fun _ => (5, 6, 7, 8)) (emptyImage 640).file d'.file g := by
  have h : Image (emptyImage 640) := emptyImage_image (by decide) (by decide) (by decide)
  obtain ⟨d', g, hsave, hrem⟩ := smallImage_removed
  exact ⟨d', g, hsave, hrem, never_dropped h (by simp) hsave (save_size h _ _ hsave) hrem⟩

theorem removal_not_clean : ¬ ∀ (md5 : List UInt8 → Sig) (d d' : Delta) (src : Source)
    (heap heap' : ℕ → UInt8) (ptr : ℕ → ℕ) (g : File), Image d → src ≠ .device none →
    deltaSaveOptionalHeader md5 heap src d = .ok () d' →
    removeOptionalHeaderFromImage md5 heap' ptr d'.file = (none, g) →
    Dropped md5 d.file d'.file g := by
  intro hall
  have h : Image (emptyImage 640) := emptyImage_image (by decide) (by decide) (by decide)
  obtain ⟨d', g, hsave, hrem⟩ := smallImage_removed
  have hagain := (hall _ _ _ _ _ _ _ _ h (by simp) hsave hrem).again (fun _ => 0) fun _ => 0
  rw [((removed_spec h (by simp) hsave (save_size h _ _ hsave) hrem).2 (fun _ => 0) fun _ => 0).2]
    at hagain
  exact absurd (Prod.mk.inj hagain).1 (Option.some_ne_none _)

end Ploop.Cbt
