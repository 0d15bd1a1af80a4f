import Ploop.Cbt.RoundTrip

/-!
# The bitmap of a copy

The end of `ploop_copy_stop` sends the header of the frozen image and then the
bitmap of its device. `send_optional_header` fills a block that it has not
cleared, and a header that was read when the copy began. Every packet arrives.
-/

namespace Ploop.Cbt

open Storage Program

/-! ## Sending -/

/-- The handle of a copy, with the file at its other end. -/
structure CopyEnd where
  dst : File
  eofOffset : ℕ
  hdr0 : PvdHeader

abbrev CopyM := EStateM Sysexit CopyEnd

/-- `send_buf` -/
def sendBuf (len pos : ℕ) (buf : ℕ → UInt8) : CopyM Unit :=
  modify fun h => { h with dst := h.dst.pwrite ⟨pos, len, buf⟩ }

/-- `cbt_writer` -/
def cbtWriter (len pos : ℕ) (buf : ℕ → UInt8) : CopyM Unit := do
  modify fun h => { h with eofOffset := h.eofOffset + len }
  sendBuf len pos buf

/-- `send_optional_header`; `block` is what its buffer has from before. -/
def sendOptionalHeader (md5 : List UInt8 → Sig) (kernel : Option KernelCbt) (block : ℕ → UInt32)
    (heap : ℕ → UInt8) : CopyM Unit := do
  let h ← get
  let bs := blockSize h.hdr0
  match kernel with
  | none => pure ()
  | some k => do
      let raw ← saveDirtyBitmap k h.hdr0 h.eofOffset block heap (cbtWriter bs)
      let ext := ((← get).eofOffset + sectorSize - 1) / sectorSize
      let vh := extHeader h.hdr0 ext
      modify fun h => { h with hdr0 := vh }
      sendBuf headerBytes 0 (wordBytes vh.toWords)
      sendBuf bs (ext * sectorSize) (wordBytes (extBlock md5 bs raw block))

/-- `ploop_copy_stop` from the end of its loop to `PLOOP_IOC_TRACK_STOP`. -/
def sendHeader (md5 : List UInt8 → Sig) (kernel : Option KernelCbt) (block : ℕ → UInt32)
    (heap : ℕ → UInt8) (src : File) : CopyM Unit := do
  match src.pread 4096 0 with
  | none => throw .read
  | some vh => do
      -- must clear the dirty flag
      sendBuf 4096 0 (overlay vh PvdHeader.offDiskInUse 4 (wordBytes fun _ => 0))
      sendOptionalHeader md5 kernel block heap

/-! ## What the other end should have -/

/-- The same header, but for the fields that say whether the image is in use and
where its extension is. -/
def SameHeader (vh vh' : PvdHeader) : Prop := vh' = { vh with
  mDiskInUse := vh'.mDiskInUse
  mFormatExtensionOffsetLo := vh'.mFormatExtensionOffsetLo
  mFormatExtensionOffsetHi := vh'.mFormatExtensionOffsetHi }

/-- Whoever opens the file loads no bitmap. -/
def LoadsNone (md5 : List UInt8 → Sig) (f : File) : Prop :=
  ∀ (heap : ℕ → UInt8) (e : Delta), e.file = f → e.hdr0 = f.hdr → ∃ ctx,
    deltaLoadOptionalHeader md5 heap ExtContext.new e = .ok ctx e ∧ ctx.raw = none

/-- The copy has the header of the source and the bitmap of its device. -/
structure CarriesBitmap (md5 : List UInt8 → Sig) (kernel : Option KernelCbt) (src dst : File) :
    Prop where
  header : SameHeader src.hdr dst.hdr
  bitmap : match kernel with
    | none => LoadsNone md5 dst
    | some k => Loads md5 k dst

/-! ## Stale memory -/

section Stale

variable (k : KernelCbt) (vh : PvdHeader) (block : ℕ → UInt32) (heap : ℕ → UInt8) (f : File)

/-- Bytes of the bitmap in block `i`. -/
def curSize (i : ℕ) : ℕ := min (blockSize vh) ((granules k vh + 7) / 8 - i * blockSize vh)

/-- `is_const_bit` says that block `i` of the bitmap has `c` only. -/
def ConstAt (i : ℕ) (c : Bool) : Prop :=
  isConstBit (bitmapBuffer k.dirty (blockSize vh) ((granules k vh + 7) / 8) heap i)
    (curSize k vh i) = some c

/-- The entry of a constant, with what the buffer had in its other half. -/
def constEntry (i : ℕ) (c : Bool) : ℕ := c.toNat + 2 ^ 32 * (block (l1Word i + 1)).toNat

/-- A bitmap that has in the file what the device has. -/
structure RightBitmap (raw : DirtyBitmapRaw ℕ) : Prop where
  uuid : raw.mId = k.uuid
  granularity : raw.mGranularity * sectorSize = k.blksize
  bits : ∀ g < granules k vh, raw.bit f (blockSize vh) g = k.dirty g

/-- What the buffer had does no harm: beside every constant it had zero, or else a
place where the file happens to have the constant; and behind the table it had
elements up to an empty one, without a bitmap, or else with the right one. -/
structure Harmless : Prop where
  readable : ∀ i < l1Entries k vh, ∀ c, ConstAt k vh heap i c →
    Readable f i (curSize k vh i) (constEntry block i c)
  rest : ∃ rs, Elements (blockSize vh) vh.mSizeInSectorsV2 f (wordBytes block)
      (usedBytes (l1Entries k vh)) rs ∧
    match rs.getLast? with
    | some r => RightBitmap k vh f r
    | none => ∀ i < l1Entries k vh, ∀ c, ConstAt k vh heap i c → ∀ g < granules k vh,
        g / (8 * blockSize vh) = i →
          entryBit f (constEntry block i c) (g % (8 * blockSize vh)) = c

end Stale

/-! ## What is sent -/

/-- Blocks of the bitmap go behind everything that was copied. -/
def copySink (bs : ℕ) : Sink CopyEnd bs where
  file := CopyEnd.dst
  place := CopyEnd.eofOffset
  put h m := { h with dst := h.dst.pwrite ⟨h.eofOffset, bs, m⟩, eofOffset := h.eofOffset + bs }
  file_put _ _ := rfl
  place_put _ _ := rfl

/-- A copy of whole sectors, of an image that has as many clusters as its header
can count. -/
structure CopyEnd.Ready (h : CopyEnd) : Prop where
  blocksize : isValidBlocksize h.hdr0.mSectors.toNat
  clusters : h.hdr0.mSizeInSectorsV2 / h.hdr0.mSectors.toNat < 2 ^ 32
  aligned : sectorSize ∣ h.eofOffset
  lo : 2 * sectorSize ≤ h.eofOffset
  hi : h.eofOffset < 2 ^ 62

section Ready

variable {h : CopyEnd} (hs : h.Ready)

include hs

theorem CopyEnd.Ready.bounds : 32768 ≤ blockSize h.hdr0 ∧ blockSize h.hdr0 ≤ 2 ^ 26 ∧
    h.hdr0.mSizeInSectorsV2 < 2 ^ 49 := by
  have hlo := hs.blocksize.1
  have hle := hs.blocksize.le
  have hlt := (Nat.div_lt_iff_lt_mul hs.blocksize.pos).mp hs.clusters
  have hmul : 2 ^ 32 * h.hdr0.mSectors.toNat ≤ 2 ^ 32 * 2 ^ 17 := Nat.mul_le_mul_left _ hle
  simp only [blockSize, s2b]
  omega

theorem CopyEnd.Ready.l1Entries_le (k : KernelCbt) : l1Entries k h.hdr0 ≤ 2 ^ 21 := by
  have hpos := hs.blocksize.pos
  have hlt := (Nat.div_lt_iff_lt_mul hpos).mp hs.clusters
  have hgran := granularity_pos k
  have hgranules : granules k h.hdr0 ≤ h.hdr0.mSizeInSectorsV2 := by
    have hmul : h.hdr0.mSizeInSectorsV2 * 1 ≤ h.hdr0.mSizeInSectorsV2 * (k.blksize / sectorSize) :=
      Nat.mul_le_mul_left _ hgran
    unfold granules
    rw [← Nat.lt_succ_iff, Nat.div_lt_iff_lt_mul hgran, Nat.succ_mul]
    omega
  apply Nat.div_le_of_le_mul
  simp only [blockSize, s2b]
  omega

end Ready

theorem Written.lt {b : ℕ → Bool} {bs bytes n i cur v : ℕ} {heap : ℕ → UInt8} {old : ℕ → UInt32}
    {f : File} (h : Written b bs bytes heap old f n i cur v) : v < 2 ^ 64 := by
  have hold := (old (l1Word i + 1)).toNat_lt
  unfold Written at h
  split at h
  · rename_i c _
    have hc : c.toNat ≤ 1 := Bool.toNat_le c
    omega
  · exact h.1.lt

theorem sendOptionalHeader_spec {md5 : List UInt8 → Sig} {k : KernelCbt} {block : ℕ → UInt32}
    {heap : ℕ → UInt8} {h : CopyEnd} (hs : h.Ready) :
    Triple (fun s => s = h) (sendOptionalHeader md5 (some k) block heap)
      (fun _ s => ∃ ext raw, Extended md5 h.hdr0 ext raw block s.dst ∧
        Describes k h.hdr0 (Written k.dirty (blockSize h.hdr0) ((granules k h.hdr0 + 7) / 8) heap
          block s.dst s.dst.size) raw)
      (fun _ => False) := by
  obtain ⟨hmin, hmax, hsize⟩ := hs.bounds
  have hentries := hs.l1Entries_le k
  have hlo := hs.lo
  have hhi := hs.hi
  have hmul : l1Entries k h.hdr0 * blockSize h.hdr0 ≤ 2 ^ 21 * 2 ^ 26 :=
    Nat.mul_le_mul hentries hmax
  have hsec : sectorSize ∣ blockSize h.hdr0 := ⟨h.hdr0.mSectors.toNat, Nat.mul_comm _ _⟩
  have hroom : Room (copySink (blockSize h.hdr0)) (l1Entries k h.hdr0) h := by
    refine ⟨hs.aligned, hlo, ?_⟩
    change h.eofOffset + _ < _
    omega
  refine Triple.look fun s₀ hs₀ => ?_
  rw [hs₀]
  unfold saveDirtyBitmap
  dsimp only
  have hu32 : u32 (((granules k h.hdr0 + 7) / 8 + blockSize h.hdr0 - 1) / blockSize h.hdr0) =
      l1Entries k h.hdr0 := u32_of_lt (by change l1Entries k h.hdr0 < _; omega)
  rw [bitmapBytes_eq k (by omega), hu32]
  simp only [bind_assoc, pure_bind]
  have hspec := saveBlocks_spec (i := 0) hsec (cbtWriter (blockSize h.hdr0)) (fun _ _ => rfl) k
    ((granules k h.hdr0 + 7) / 8) heap block _ hroom
  rw [Nat.zero_mul, Nat.sub_zero] at hspec
  refine Triple.bind hspec fun l => Triple.start fun t ht => ?_
  obtain ⟨ms, rfl, hlen⟩ := ht.puts
  have htable := ht.table
  have hplace : ((copySink (blockSize h.hdr0)).puts h ms).eofOffset =
      h.eofOffset + ms.length * blockSize h.hdr0 := (copySink (blockSize h.hdr0)).place_puts h ms
  have hms := (Nat.mul_le_mul_right (blockSize h.hdr0) hlen).trans hmul
  obtain ⟨ext, hext⟩ : sectorSize ∣ ((copySink (blockSize h.hdr0)).puts h ms).eofOffset := by
    rw [hplace]
    exact (Nat.dvd_add_right hs.aligned).mpr (hsec.mul_left _)
  generalize (copySink (blockSize h.hdr0)).puts h ms = e at *
  have hval : (e.eofOffset + sectorSize - 1) / sectorSize = ext := by
    rw [hext]
    simp only [sectorSize]
    omega
  have hmulext : ext * sectorSize = e.eofOffset := by rw [hext, Nat.mul_comm]
  refine Triple.look fun s hs => ?_
  subst hs
  rw [hval]
  refine Triple.step (Triple.step (Triple.update fun t ht => ?_))
  subst ht
  obtain ⟨hkept, hextended⟩ := @extended_pwrite md5 h.hdr0 ext
    ⟨h.hdr0.mSizeInSectorsV2, k.uuid, k.blksize / sectorSize, l⟩ block s.dst _ (by omega)
    (by simp only [sectorSize] at *; omega) (by omega) rfl
  refine ⟨ext, _, hextended, rfl, rfl, rfl, ht.length, ?_⟩
  have hend := hextended.room
  refine htable.mono fun i cur v => Written.kept ⟨hkept.size, fun j h₁ h₂ => ?_⟩ ?_
  · exact hkept.byte j h₁ (by rw [hmulext]; exact h₂)
  · change s.eofOffset ≤ _
    rw [← hmulext]
    exact (Nat.le_add_right _ _).trans hend

/-! ## What the loader makes of it -/

theorem Stored.bit {b : ℕ → Bool} {bs n cur v g : ℕ} {f : File}
    (h : Stored b bs f n (g / (8 * bs)) cur v) (hv : 1 < v) (hcur : g / 8 % bs < cur) :
    entryBit f v (g % (8 * bs)) = b g := by
  cases h with
  | @const c => cases c <;> exact absurd hv (by decide)
  | block _ hlt _ hbytes =>
      rw [entryBit, if_pos hv, u64_of_lt (by omega)]
      exact testBit_block hbytes hcur

section Loads

variable {k : KernelCbt} {vh : PvdHeader} {block : ℕ → UInt32} {heap : ℕ → UInt8} {f : File}
  {raw : DirtyBitmapRaw ℕ}

/-- Nothing else than the bits of the bitmap matters. -/
theorem Loadable.agrees_iff {size : ℕ} (hsize : vh.mSizeInSectorsV2 < 2 ^ 62)
    (hbs : 0 < blockSize vh) (h : Loadable (blockSize vh) vh.mSizeInSectorsV2 f size raw)
    (heap' : ℕ → UInt8) :
    Agrees k vh (raw.inMemory heap' f (blockSize vh)) ↔ RightBitmap k vh f raw := by
  have hbits (hgran : raw.mGranularity * sectorSize = k.blksize) {g : ℕ} (hg : g < granules k vh) :
      (raw.inMemory heap' f (blockSize vh)).dirty (blockSize vh) g =
        raw.bit f (blockSize vh) g := by
    refine dirty_inMemory hbs raw ?_
    have hdiv : raw.mGranularity = k.blksize / sectorSize := by
      rw [← hgran, Nat.mul_div_cancel _ (by norm_num [sectorSize])]
    rw [h.mSize, hdiv, bitmapBytes_eq k hsize]
    omega
  constructor
  · intro hagrees
    refine ⟨hagrees.uuid, hagrees.granularity, fun g hg => ?_⟩
    rw [← hbits hagrees.granularity hg]
    exact hagrees.dirty g hg
  · intro hright
    refine ⟨hright.uuid, hright.granularity, fun g hg => ?_⟩
    rw [hbits hright.granularity hg]
    exact hright.bits g hg

variable (hd : Describes k vh (Written k.dirty (blockSize vh) ((granules k vh + 7) / 8) heap block f
    f.size) raw)

include hd

/-- An entry is that of a constant, or of a block that was sent. -/
theorem Describes.entry {j v : ℕ} (hj : raw.mL1[j]? = some v) :
    (∃ c, ConstAt k vh heap j c ∧ v = constEntry block j c) ∨
      ((∀ c, ¬ ConstAt k vh heap j c) ∧
        Stored k.dirty (blockSize vh) f f.size j (curSize k vh j) v ∧ 1 < v) := by
  have hv := hd.table.get hj
  rw [Nat.zero_add] at hv
  unfold Written at hv
  unfold ConstAt curSize
  cases hconst : isConstBit (bitmapBuffer k.dirty (blockSize vh) ((granules k vh + 7) / 8) heap j)
      (min (blockSize vh) ((granules k vh + 7) / 8 - j * blockSize vh)) with
  | some c =>
      rw [hconst] at hv
      exact .inl ⟨c, rfl, hv⟩
  | none =>
      rw [hconst] at hv
      exact .inr ⟨fun c => nofun, hv⟩

theorem Describes.getElem? {j : ℕ} (hj : j < l1Entries k vh) : ∃ v, raw.mL1[j]? = some v := by
  rw [← hd.length] at hj
  exact ⟨_, List.getElem?_eq_getElem hj⟩

theorem Describes.loadable_iff (hsize : vh.mSizeInSectorsV2 < 2 ^ 62) :
    Loadable (blockSize vh) vh.mSizeInSectorsV2 f (rawBytes + 8 * raw.mL1.length) raw ↔
      ∀ i < l1Entries k vh, ∀ c, ConstAt k vh heap i c →
        Readable f i (curSize k vh i) (constEntry block i c) := by
  have hbytes : bitmapBytes raw.mSize raw.mGranularity = (granules k vh + 7) / 8 := by
    rw [hd.mSize, hd.mGranularity, bitmapBytes_eq k hsize]
  constructor
  · intro hload i hi c hc
    obtain ⟨v, hv⟩ := hd.getElem? hi
    have hread := hload.readable.get hv
    rw [hbytes, Nat.zero_add] at hread
    rcases hd.entry hv with ⟨c', hc', rfl⟩ | ⟨hnone, -⟩
    · obtain rfl : c' = c := Option.some.inj (hc'.symm.trans hc)
      exact hread
    · exact absurd hc (hnone c)
  · intro hread
    refine ⟨hd.mSize, le_rfl, ?_, TableOf.of_get fun j v hj => ?_⟩
    · rw [hd.mGranularity]
      exact (granularity_pos k).ne'
    · rw [hbytes, Nat.zero_add]
      rcases hd.entry hj with ⟨c, hc, rfl⟩ | ⟨-, hstored, -⟩
      · refine hread j ?_ c hc
        rw [← hd.length]
        exact (List.getElem?_eq_some_iff.mp hj).1
      · exact hstored.readable le_rfl

/-- The table is right where the entries of the constants are. -/
theorem Describes.right_iff (hbs : 0 < blockSize vh) : RightBitmap k vh f raw ↔
    ∀ i < l1Entries k vh, ∀ c, ConstAt k vh heap i c → ∀ g < granules k vh,
      g / (8 * blockSize vh) = i →
        entryBit f (constEntry block i c) (g % (8 * blockSize vh)) = c := by
  have hplace {g : ℕ} (hg : g < granules k vh) : g / (8 * blockSize vh) < l1Entries k vh ∧
      g / 8 % blockSize vh < curSize k vh (g / (8 * blockSize vh)) :=
    granule_lt hbs (by omega)
  have hconst {g : ℕ} {c : Bool} (hg : g < granules k vh)
      (hc : ConstAt k vh heap (g / (8 * blockSize vh)) c) : k.dirty g = c :=
    (constBlock_of_isConstBit hc).bit (hplace hg).2
  have hbit {g v : ℕ} (hv : raw.mL1[g / (8 * blockSize vh)]? = some v) :
      raw.bit f (blockSize vh) g = entryBit f v (g % (8 * blockSize vh)) := by
    rw [DirtyBitmapRaw.bit, hv]
  constructor
  · rintro hright i hi c hc g hg rfl
    obtain ⟨v, hv⟩ := hd.getElem? hi
    rcases hd.entry hv with ⟨c', hc', rfl⟩ | ⟨hnone, -⟩
    · obtain rfl : c' = c := Option.some.inj (hc'.symm.trans hc)
      rw [← hbit hv, hright.bits g hg, hconst hg hc]
    · exact absurd hc (hnone c)
  · intro hbits
    refine ⟨hd.mId, ?_, fun g hg => ?_⟩
    · rw [hd.mGranularity]
      exact Nat.div_mul_cancel k.dvd
    · obtain ⟨hi, hcur⟩ := hplace hg
      obtain ⟨v, hv⟩ := hd.getElem? hi
      rw [hbit hv]
      rcases hd.entry hv with ⟨c, hc, rfl⟩ | ⟨-, hstored, hlt⟩
      · rw [hbits _ hi c hc g hg rfl, hconst hg hc]
      · exact hstored.bit hlt hcur

end Loads

theorem Elements.loadable {bs sectors pos : ℕ} {f : File} {block : ℕ → UInt8}
    {rs : List (DirtyBitmapRaw ℕ)} {r : DirtyBitmapRaw ℕ} (h : Elements bs sectors f block pos rs)
    (hr : r ∈ rs) : ∃ size, Loadable bs sectors f size r := by
  induction h with
  | stop => cases hr
  | other _ _ _ _ ih => exact ih hr
  | bitmap _ _ loadable _ ih =>
      rcases List.mem_cons.mp hr with rfl | hr
      · exact ⟨_, loadable⟩
      · exact ih hr

theorem agrees_extHeader {k : KernelCbt} {vh : PvdHeader} {ext : ℕ}
    {raw : DirtyBitmapRaw MemEntry} : Agrees k (extHeader vh ext) raw ↔ Agrees k vh raw :=
  ⟨fun h => ⟨h.uuid, h.granularity, h.dirty⟩, fun h => ⟨h.uuid, h.granularity, h.dirty⟩⟩

/-- An open file. -/
def opened (f : File) : Delta where
  disk := Disk.new f
  hdr0 := f.hdr
  l2 := fun _ => 0
  allocHead := 0
  l1Size := 0
  l2Size := 0
  l2Dirty := false
  l2Cache := none
  dirtied := 0
  blocksize := 0
  version := .v2

theorem Extended.loads_iff {md5 : List UInt8 → Sig} {k : KernelCbt} {vh : PvdHeader} {ext : ℕ}
    {raw : DirtyBitmapRaw ℕ} {block : ℕ → UInt32} {heap : ℕ → UInt8} {f : File}
    (he : Extended md5 vh ext raw block f)
    (hd : Describes k vh (Written k.dirty (blockSize vh) ((granules k vh + 7) / 8) heap block f
      f.size) raw)
    (hsize : vh.mSizeInSectorsV2 < 2 ^ 62) (hmin : 44 ≤ blockSize vh) (hbs : blockSize vh ≤ 2 ^ 26)
    (hentries : l1Entries k vh ≤ 2 ^ 21) : Loads md5 k f ↔ Harmless k vh block heap f := by
  have hlen : rawBytes + 8 * raw.mL1.length < 2 ^ 32 := by
    rw [hd.length]
    simp only [rawBytes]
    omega
  have hrep : raw.Representable := hd.representable (by omega) fun _ _ _ => Written.lt
  have helem (rs : List (DirtyBitmapRaw ℕ)) : Elements (blockSize vh) vh.mSizeInSectorsV2 f
      (fun i => f.byte (ext * sectorSize + i)) checkBytes rs ↔ _ :=
    elements_block he.block hmin (by omega) hlen hrep
  rw [hd.length] at helem
  have hload := hd.loadable_iff hsize
  rw [hd.length] at hload
  have hright (r : DirtyBitmapRaw ℕ) (rs : List (DirtyBitmapRaw ℕ))
      (hr : (raw :: rs).getLast? = some r) : RightBitmap k vh f r ↔ match rs.getLast? with
        | some r => RightBitmap k vh f r
        | none => ∀ i < l1Entries k vh, ∀ c, ConstAt k vh heap i c → ∀ g < granules k vh,
            g / (8 * blockSize vh) = i →
              entryBit f (constEntry block i c) (g % (8 * blockSize vh)) = c := by
    rw [List.getLast?_cons] at hr
    cases hlast : rs.getLast? with
    | none =>
        rw [hlast] at hr
        obtain rfl : raw = r := Option.some.inj hr
        exact hd.right_iff (by omega)
    | some r' =>
        rw [hlast] at hr
        obtain rfl : r' = r := Option.some.inj hr
        exact Iff.rfl
  have hagree {rs : List (DirtyBitmapRaw ℕ)} {r : DirtyBitmapRaw ℕ}
      (hrs : Elements (blockSize vh) vh.mSizeInSectorsV2 f
        (fun i => f.byte (ext * sectorSize + i)) checkBytes rs)
      (hr : rs.getLast? = some r) (heap' : ℕ → UInt8) :
      Agrees k f.hdr (r.inMemory heap' f (blockSize vh)) ↔ RightBitmap k vh f r := by
    obtain ⟨size, hloadable⟩ := hrs.loadable (List.mem_of_getLast? hr)
    rw [he.hdr, agrees_extHeader]
    exact hloadable.agrees_iff hsize (by omega) heap'
  have hcheck : checkBytes ≤ blockSize vh := by
    simp only [checkBytes]
    omega
  constructor
  · intro hloads
    obtain ⟨ctx, r, hrun, hraw, hagrees⟩ := hloads heap (opened f) rfl rfl
    obtain ⟨-, rs, hrs, hlast⟩ := (load_extended (e := opened f) he rfl hcheck heap).ok rfl hrun
    obtain ⟨hfit, hloadable, rs', rfl, hrest⟩ := (helem rs).mp hrs
    refine ⟨hload.mp hloadable, rs', hrest, ?_⟩
    rw [hraw] at hlast
    obtain ⟨r', hr', rfl⟩ := Option.map_eq_some_iff.mp hlast.symm
    rw [← hright r' rs' hr', ← hagree hrs hr' heap]
    exact hagrees
  · rintro ⟨hread, rs', hrest, hmatch⟩
    intro heap' e hfile h0
    have hfit : usedBytes (l1Entries k vh) ≤ blockSize vh := by
      cases hrest <;> omega
    have hrs := (helem (raw :: rs')).mpr ⟨hfit, hload.mpr hread, rs', rfl, hrest⟩
    obtain ⟨r', hr'⟩ : ∃ r', (raw :: rs').getLast? = some r' :=
      ⟨_, List.getLast?_eq_some_getLast (List.cons_ne_nil _ _)⟩
    rw [← hfile] at he h0
    obtain ⟨ctx, s, hrun, rfl, rs, hrs', hlast⟩ := ((load_extended he h0 hcheck heap').conseq
      (fun _ hs => hs) (fun _ _ hs => hs)
        fun s hs => hs (raw :: rs') (by rwa [hfile])).exists_ok rfl
    rw [hfile] at hrs' hlast
    obtain rfl := hrs.unique hrs'
    rw [hr'] at hlast
    refine ⟨ctx, _, hrun, hlast, ?_⟩
    exact (hagree hrs hr' heap').mpr ((hright r' rs' hr').mpr hmatch)

/-! ## The copy -/

theorem sameHeader_extHeader {vh vh' : PvdHeader} {ext : ℕ} :
    SameHeader vh (extHeader vh' ext) ↔ SameHeader vh vh' := by
  cases vh
  cases vh'
  simp only [SameHeader, extHeader, PvdHeader.mk.injEq, true_and, and_true]

/-- The first packet is the header of the source, closed. -/
theorem hdr_first (src dst : File) :
    (dst.pwrite ⟨0, 4096, overlay (fun i => src.byte (0 + i)) PvdHeader.offDiskInUse 4
      (wordBytes fun _ => 0)⟩).hdr = { src.hdr with mDiskInUse := 0 } := by
  rw [← hdr_pwrite_diskInUse src 0]
  refine PvdHeader.ofWords_congr fun i hi => bytesWord_congr fun t ht => ?_
  rw [File.byte_pwrite, File.byte_pwrite, overlay_of_mem (Nat.zero_le _) (by dsimp only; omega),
    Nat.sub_zero]
  simp only [Nat.zero_add]

theorem loadsNone_closed {md5 : List UInt8 → Sig} {f : File}
    (h : f.hdr.mDiskInUse = signatureDiskClosedV20) : LoadsNone md5 f := by
  intro heap e _ h0
  refine ⟨ExtContext.new, ?_, rfl⟩
  unfold deltaLoadOptionalHeader
  rw [get_bind_run, if_pos (.inr (by rw [h0, h]))]
  rfl

section Copy

variable {md5 : List UInt8 → Sig} {src : File} {h : CopyEnd} (hsrc : 4096 ≤ src.size)
  (hs : h.Ready)

include hsrc

theorem sendHeader_none {block : ℕ → UInt32} {heap : ℕ → UInt8} :
    ∃ h', sendHeader md5 none block heap src h = .ok () h' ∧
      CarriesBitmap md5 none src h'.dst := by
  have hread : src.pread 4096 0 = some fun i => src.byte (0 + i) := if_pos (by omega)
  have hhdr := hdr_first src h.dst
  unfold sendHeader
  rw [hread]
  refine ⟨_, rfl, ?_, ?_⟩
  · change SameHeader _ (h.dst.pwrite _).hdr
    rw [hhdr]
    rfl
  · refine loadsNone_closed ?_
    change (h.dst.pwrite _).hdr.mDiskInUse = _
    rw [hhdr]
    rfl

include hs

theorem sendHeader_some (k : KernelCbt) (block : ℕ → UInt32) (heap : ℕ → UInt8) :
    ∃ h', sendHeader md5 (some k) block heap src h = .ok () h' ∧
      (CarriesBitmap md5 (some k) src h'.dst ↔
        SameHeader src.hdr h.hdr0 ∧ Harmless k h.hdr0 block heap h'.dst) := by
  have hread : src.pread 4096 0 = some fun i => src.byte (0 + i) := if_pos (by omega)
  obtain ⟨hmin, hmax, hsize⟩ := hs.bounds
  have hentries := hs.l1Entries_le k
  unfold sendHeader
  rw [hread]
  have hs' : CopyEnd.Ready { h with
      dst := h.dst.pwrite ⟨0, 4096, overlay (fun i => src.byte (0 + i))
        PvdHeader.offDiskInUse 4 (wordBytes fun _ => 0)⟩ } :=
    ⟨hs.blocksize, hs.clusters, hs.aligned, hs.lo, hs.hi⟩
  obtain ⟨⟨⟩, h', hrun, ext, raw, he, hd⟩ :=
    (@sendOptionalHeader_spec md5 k block heap _ hs').exists_ok rfl
  have hloads := he.loads_iff hd (hsize.trans (by norm_num))
    (le_trans (by norm_num) hmin) hmax hentries
  refine ⟨h', hrun, ?_⟩
  constructor
  · intro hcarries
    have hheader := hcarries.header
    rw [he.hdr, sameHeader_extHeader] at hheader
    exact ⟨hheader, hloads.mp hcarries.bitmap⟩
  · rintro ⟨hheader, hharmless⟩
    refine ⟨?_, hloads.mpr hharmless⟩
    rw [he.hdr, sameHeader_extHeader]
    exact hheader

end Copy

/-! ## Which memory -/

/-- An element of 4 GB behind the table. -/
theorem not_harmless_ones {k : KernelCbt} {vh : PvdHeader} {heap : ℕ → UInt8} {f : File}
    (hbs : blockSize vh ≤ 2 ^ 26) : ¬ Harmless k vh (fun _ => 0xffffffff) heap f := by
  intro h
  obtain ⟨rs, hrs, -⟩ := h.rest
  have hsize (off : ℕ) : (rd32 (wordBytes fun _ => 0xffffffff) off).toNat = 0xffffffff := by
    have hbyte (i : ℕ) : wordBytes (fun _ => 0xffffffff) i = 0xff := by
      have : i % 4 < 4 := Nat.mod_lt _ (by norm_num)
      simp only [wordBytes]
      interval_cases i % 4 <;> rfl
    rw [rd32, hbyte, hbyte, hbyte, hbyte]
    rfl
  cases hrs <;> (rw [hsize] at *; omega)

/-- A cleared buffer does no harm if the table leaves room for the empty element. -/
theorem harmless_zero_iff {k : KernelCbt} {vh : PvdHeader} {heap : ℕ → UInt8} {f : File} :
    Harmless k vh (fun _ => 0) heap f ↔
      usedBytes (l1Entries k vh) + elementBytes ≤ blockSize vh := by
  have hentry (i : ℕ) (c : Bool) : constEntry (fun _ => 0) i c = c.toNat := by
    simp [constEntry]
  constructor
  · intro h
    obtain ⟨rs, hrs, -⟩ := h.rest
    exact ((elements_zero _).mp hrs).2
  · intro hroom
    refine ⟨fun i _ c _ hv => ?_, [], (elements_zero _).mpr ⟨rfl, hroom⟩, fun i _ c _ g _ _ => ?_⟩
    · rw [hentry] at hv
      exact absurd hv (Nat.not_lt.mpr (Bool.toNat_le c))
    · rw [hentry, entryBit, if_neg (Nat.not_lt.mpr (Bool.toNat_le c))]
      cases c <;> rfl

/-- Of a device with a bitmap no copy is right in whatever memory it was made. In
cleared memory it is, if nobody changed the header since the copy began and the
table leaves room. -/
theorem carries_iff (md5 : List UInt8 → Sig) (kernel : Option KernelCbt) {src : File} {h : CopyEnd}
    (hs : h.Ready) (hsrc : 4096 ≤ src.size) :
    ((∀ block heap, ∃ h', sendHeader md5 kernel block heap src h = .ok () h' ∧
        CarriesBitmap md5 kernel src h'.dst) ↔ kernel = none) ∧
    ∀ heap, (∃ h', sendHeader md5 kernel (fun _ => 0) heap src h = .ok () h' ∧
        CarriesBitmap md5 kernel src h'.dst) ↔ ∀ k, kernel = some k → SameHeader src.hdr h.hdr0 ∧
          usedBytes (l1Entries k h.hdr0) + elementBytes ≤ blockSize h.hdr0 := by
  have hrun {k : KernelCbt} {block : ℕ → UInt32} {heap : ℕ → UInt8} :
      (∃ h', sendHeader md5 (some k) block heap src h = .ok () h' ∧
        CarriesBitmap md5 (some k) src h'.dst) → SameHeader src.hdr h.hdr0 ∧
          ∃ f, Harmless k h.hdr0 block heap f := by
    rintro ⟨h', hok, hcarries⟩
    obtain ⟨h'', hok', hiff⟩ := @sendHeader_some md5 src h hsrc hs k block heap
    obtain ⟨-, rfl⟩ := EStateM.Result.ok.inj (hok.symm.trans hok')
    exact ⟨(hiff.mp hcarries).1, _, (hiff.mp hcarries).2⟩
  cases kernel with
  | none =>
      refine ⟨⟨fun _ => rfl, fun _ block heap => sendHeader_none hsrc⟩, fun heap => ?_⟩
      exact ⟨fun _ => nofun, fun _ => sendHeader_none hsrc⟩
  | some k =>
      refine ⟨⟨fun hall => ?_, nofun⟩, fun heap => ⟨?_, fun hk => ?_⟩⟩
      · obtain ⟨-, f, hf⟩ := hrun (hall (fun _ => 0xffffffff) fun _ => 0)
        exact (not_harmless_ones hs.bounds.2.1 hf).elim
      · rintro hok k' ⟨⟩
        obtain ⟨hheader, f, hf⟩ := hrun hok
        exact ⟨hheader, harmless_zero_iff.mp hf⟩
      · obtain ⟨hheader, hroom⟩ := hk k rfl
        obtain ⟨h', hok, hiff⟩ := @sendHeader_some md5 src h hsrc hs k (fun _ => 0) heap
        exact ⟨h', hok, hiff.mpr ⟨hheader, harmless_zero_iff.mpr hroom⟩⟩

/-- A copy of a small image, up to the end of its loop. -/
def smallCopy : CopyEnd :=
  ⟨(emptyImage 640).file, (emptyImage 640).file.size, (emptyImage 640).hdr0⟩

theorem smallCopy_ready : smallCopy.Ready where
  blocksize := by
    change isValidBlocksize (emptyImage 640).hdr0.mSectors.toNat
    exact (emptyImage_image (by decide) (by decide) (by decide)).blocksize
  clusters := by
    change (emptyImage 640).hdr0.mSizeInSectorsV2 / _ < _
    rw [emptyImage_size (by decide) (by decide)]
    exact (Nat.div_le_self _ _).trans_lt (by norm_num)
  aligned := by
    change _ ∣ (emptyImage 640).file.size
    rw [smallImage_size]
    exact ⟨64, rfl⟩
  lo := by
    change _ ≤ (emptyImage 640).file.size
    rw [smallImage_size]
    norm_num [sectorSize]
  hi := by
    change (emptyImage 640).file.size < _
    rw [smallImage_size]
    norm_num

theorem carries_iff_small : ((∀ block heap, ∃ h', sendHeader (fun _ => (5, 6, 7, 8))
        (some wholeDevice) block heap (emptyImage 640).file smallCopy = .ok () h' ∧
        CarriesBitmap (fun _ => (5, 6, 7, 8)) (some wholeDevice) (emptyImage 640).file h'.dst) ↔
      some wholeDevice = none) ∧
    ∀ heap, (∃ h', sendHeader (fun _ => (5, 6, 7, 8)) (some wholeDevice) (fun _ => 0) heap
        (emptyImage 640).file smallCopy = .ok () h' ∧
        CarriesBitmap (fun _ => (5, 6, 7, 8)) (some wholeDevice) (emptyImage 640).file h'.dst) ↔
      ∀ k, some wholeDevice = some k → SameHeader (emptyImage 640).file.hdr smallCopy.hdr0 ∧
        usedBytes (l1Entries k smallCopy.hdr0) + elementBytes ≤ blockSize smallCopy.hdr0 :=
  carries_iff _ _ smallCopy_ready (by
    rw [smallImage_size]
    norm_num)

/-- A block that was full of ones before. -/
theorem sendHeader_stale : ¬ ∀ (md5 : List UInt8 → Sig) (kernel : Option KernelCbt)
    (block : ℕ → UInt32) (heap : ℕ → UInt8) (src : File) (h h' : CopyEnd), h.Ready →
    sendHeader md5 kernel block heap src h = .ok () h' → CarriesBitmap md5 kernel src h'.dst := by
  intro hall
  have hsrc : 4096 ≤ (emptyImage 640).file.size := by
    rw [smallImage_size]
    norm_num
  obtain ⟨h', hrun, hiff⟩ := @sendHeader_some (fun _ => (5, 6, 7, 8)) _ _ hsrc smallCopy_ready
    wholeDevice (fun _ => 0xffffffff) fun _ => 0
  have hcarries := hall _ _ _ _ _ _ _ smallCopy_ready hrun
  exact not_harmless_ones smallCopy_ready.bounds.2.1 (hiff.mp hcarries).2

end Ploop.Cbt
