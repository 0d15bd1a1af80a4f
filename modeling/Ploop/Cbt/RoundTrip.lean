import Ploop.Cbt.Extended
import Ploop.Image.MergeStart

/-!
# Saving a bitmap and loading it back
-/

namespace Ploop.Cbt

open Storage Program

/-! ## Images -/

/-- An open image whose file has its whole index and a whole number of sectors. -/
structure Image (d : Delta) : Prop where
  hdr0 : d.hdr0 = d.file.hdr
  wellFormed : WellFormed d.file
  index : d.file.hdr.layout.l1Size * d.file.hdr.layout.cluster ≤ d.file.size
  size : getSizeInSectors d.file.hdr = d.file.hdr.mSizeInSectorsV2
  aligned : sectorSize ∣ d.file.size
  lo : 2 * sectorSize ≤ d.file.size
  hi : d.file.size < 2 ^ 62

/-- Granules of a device. -/
def granules (k : KernelCbt) (vh : PvdHeader) : ℕ :=
  (vh.mSizeInSectorsV2 + k.blksize / sectorSize - 1) / (k.blksize / sectorSize)

/-- Entries of the table that a bitmap needs. -/
def l1Entries (k : KernelCbt) (vh : PvdHeader) : ℕ :=
  ((granules k vh + 7) / 8 + blockSize vh - 1) / blockSize vh

/-- The bitmap in memory is that of the device. -/
structure Agrees (k : KernelCbt) (vh : PvdHeader) (raw : DirtyBitmapRaw MemEntry) : Prop where
  uuid : raw.mId = k.uuid
  granularity : raw.mGranularity * sectorSize = k.blksize
  dirty : ∀ g < granules k vh, raw.dirty (blockSize vh) g = k.dirty g

/-- Whoever opens the file loads the bitmap of the device. -/
def Loads (md5 : List UInt8 → Sig) (k : KernelCbt) (f : File) : Prop :=
  ∀ (heap : ℕ → UInt8) (e : Delta), e.file = f → e.hdr0 = f.hdr → ∃ ctx raw,
    deltaLoadOptionalHeader md5 heap ExtContext.new e = .ok ctx e ∧ ctx.raw = some raw ∧
      Agrees k f.hdr raw

/-- Saving from `src` leaves an image that loads the bitmap of the device. -/
def SavesAndLoads (md5 : List UInt8 → Sig) (k : KernelCbt) (src : Source) (d : Delta) : Prop :=
  ∀ heap, ∃ d', deltaSaveOptionalHeader md5 heap src d = .ok () d' ∧ Unchanged d.file d'.file ∧
    Loads md5 k d'.file

/-- From the device into an image, and from its loaded form into another one. -/
structure RoundTrip (md5 : List UInt8 → Sig) (k : KernelCbt) (d : Delta) : Prop where
  device : SavesAndLoads md5 k (.device (some k)) d
  memory : ∀ heap heap' d' ctx raw, deltaSaveOptionalHeader md5 heap (.device (some k)) d =
      .ok () d' → deltaLoadOptionalHeader md5 heap' ExtContext.new d' = .ok ctx d' →
    ctx.raw = some raw → ∀ e, Image e → e.hdr0.mSizeInSectorsV2 = d.hdr0.mSizeInSectorsV2 →
    blockSize e.hdr0 = blockSize d.hdr0 → SavesAndLoads md5 k (.memory raw) e

section Image

variable {d : Delta} (h : Image d)

include h

theorem Image.blockSize_eq : blockSize d.hdr0 = d.file.hdr.layout.cluster := by
  rw [h.hdr0]
  rfl

theorem Image.blocksize : isValidBlocksize d.hdr0.mSectors.toNat := by
  rw [h.hdr0]
  exact h.wellFormed.header.layout.blocksize

theorem Image.blockSize_pos : 0 < blockSize d.hdr0 := by
  have := h.blocksize.pos
  simp only [blockSize, s2b]
  omega

theorem Image.blockSize_le : blockSize d.hdr0 ≤ 2 ^ 26 := by
  have := h.blocksize.le
  simp only [blockSize, s2b]
  omega

omit h in
theorem sector_dvd (d : Delta) : sectorSize ∣ blockSize d.hdr0 :=
  ⟨d.hdr0.mSectors.toNat, Nat.mul_comm _ _⟩

/-- The size of an image is far from the bound of its 64-bit field. -/
theorem Image.size_lt : d.hdr0.mSizeInSectorsV2 < 2 ^ 62 := by
  have hvalid := h.wellFormed.header.layout
  have hroom := hvalid.room
  have hpos := hvalid.pos
  have hle : d.file.hdr.layout.blocksize ≤ 2 ^ 17 := hvalid.blocksize.le
  have hslots : d.file.hdr.layout.slots = d.file.hdr.layout.blocksize * 128 := Layout.slots_eq
  have hfirst := d.file.hdr.mFirstBlockOffset.toNat_lt
  have hl1 : d.file.hdr.layout.l1Size * d.file.hdr.layout.blocksize ≤
      d.file.hdr.mFirstBlockOffset.toNat := Nat.div_mul_le_self _ _
  have hl2 : d.file.hdr.mSizeInSectorsV2 <
      (d.file.hdr.layout.l2Size + 1) * d.file.hdr.layout.blocksize := by
    rw [← h.size]
    exact (Nat.div_lt_iff_lt_mul hpos).mp (Nat.lt_succ_self _)
  have hindex : d.file.hdr.layout.l1Size * d.file.hdr.layout.slots < 2 ^ 39 := by
    rw [hslots, ← Nat.mul_assoc]
    omega
  have hsize : (d.file.hdr.layout.l2Size + 1) * d.file.hdr.layout.blocksize ≤ 2 ^ 39 * 2 ^ 17 :=
    Nat.mul_le_mul (by omega) hle
  rw [h.hdr0]
  omega

end Image

/-- A file that keeps everything behind its header keeps the disk. -/
theorem Kept.unchanged {f f' : File} (h : Kept f.size f f') (hwf : WellFormed f)
    (hindex : f.hdr.layout.l1Size * f.hdr.layout.cluster ≤ f.size)
    (hlayout : f'.hdr.layout = f.hdr.layout) : Unchanged f f' where
  layout := hlayout
  bat clu := by
    refine Layout.bat_congr fun hclu => ?_
    have hslot := Layout.slot_lt (hwf.header.layout.clu_lt hclu)
    refine bytesWord_congr fun t ht => h.byte _ ?_ (by omega)
    simp only [headerBytes, mapOffset]
    omega
  block b h₁ h₂ := by
    have hcpos := hwf.header.layout.cluster_pos
    have hl1 := hwf.header.layout.l1_pos
    have hslots := hwf.header.layout.slots_gt
    have hend : (b + 1) * f.hdr.layout.cluster ≤ f.size :=
      (Nat.mul_le_mul_right _ h₂).trans (Nat.div_mul_le_self _ _)
    have hbegin : f.hdr.layout.cluster ≤ b * f.hdr.layout.cluster :=
      Nat.le_mul_of_pos_left _ (hl1.trans_le h₁)
    have hcluster : f.hdr.layout.cluster = 4 * f.hdr.layout.slots := Layout.cluster_eq
    rw [Nat.succ_mul] at hend
    refine Layout.block_congr fun j hj => h.byte _ ?_ (by omega)
    simp only [headerBytes, mapOffset] at *
    omega

theorem Kept.wellFormed {f g : File} (h : Kept f.size f g) (hwf : WellFormed f)
    (hindex : f.hdr.layout.l1Size * f.hdr.layout.cluster ≤ f.size) (hvalid : g.hdr.Valid)
    (hlayout : g.hdr.layout = f.hdr.layout) : WellFormed g := by
  have hsame := h.unchanged hwf hindex hlayout
  refine Held.wellFormed ((Held.of_wellFormed hwf).frame hvalid hlayout h.size (fun s hs => ?_)
    fun clu b hb => ?_)
  · have hslot := Layout.slot_lt hs
    refine bytesWord_congr fun t ht => h.byte _ ?_ (by omega)
    simp only [headerBytes, mapOffset]
    omega
  · obtain ⟨hlo, hhi⟩ := hwf.table.inData clu b hb
    exact hsame.block b hlo hhi

/-! ## The table of the bitmap -/

section Sizes

theorem granularity_pos (k : KernelCbt) : 0 < k.blksize / sectorSize :=
  Nat.div_pos (Nat.le_of_dvd k.pos k.dvd) (by norm_num [sectorSize])

theorem bitmapBytes_eq (k : KernelCbt) {vh : PvdHeader} (hsize : vh.mSizeInSectorsV2 < 2 ^ 62) :
    bitmapBytes vh.mSizeInSectorsV2 (k.blksize / sectorSize) = (granules k vh + 7) / 8 := by
  have hgran : k.blksize / sectorSize < 2 ^ 32 := (Nat.div_le_self _ _).trans_lt k.lt
  unfold bitmapBytes granules
  have hle : (vh.mSizeInSectorsV2 + k.blksize / sectorSize - 1) / (k.blksize / sectorSize) ≤
      vh.mSizeInSectorsV2 + k.blksize / sectorSize - 1 := Nat.div_le_self _ _
  have hsum : u64 (vh.mSizeInSectorsV2 + k.blksize / sectorSize - 1) =
      vh.mSizeInSectorsV2 + k.blksize / sectorSize - 1 := u64_of_lt (by omega)
  rw [hsum, u64_of_lt (by omega)]

variable {d : Delta} (h : Image d) (k : KernelCbt)

include h

/-- A table that fits one block has a size that fits 32 bits. -/
theorem l1Entries_u32 (hfit : usedBytes (l1Entries k d.hdr0) ≤ blockSize d.hdr0) :
    u32 ((bitmapBytes d.hdr0.mSizeInSectorsV2 (k.blksize / sectorSize) + blockSize d.hdr0 - 1) /
      blockSize d.hdr0) = l1Entries k d.hdr0 := by
  have hle := h.blockSize_le
  rw [bitmapBytes_eq k h.size_lt]
  change u32 (l1Entries k d.hdr0) = _
  refine u32_of_lt ?_
  unfold usedBytes at hfit
  omega

end Sizes

/-- The parts of a bitmap that do not depend on where its blocks are. -/
structure Describes {α : Type} (k : KernelCbt) (vh : PvdHeader) (P : ℕ → ℕ → α → Prop)
    (raw : DirtyBitmapRaw α) : Prop where
  mSize : raw.mSize = vh.mSizeInSectorsV2
  mId : raw.mId = k.uuid
  mGranularity : raw.mGranularity = k.blksize / sectorSize
  length : raw.mL1.length = l1Entries k vh
  table : TableOf P (blockSize vh) 0 ((granules k vh + 7) / 8) raw.mL1

/-- A source that gives the bitmap of `k`. -/
inductive Source.Of (k : KernelCbt) (vh : PvdHeader) : Source → Prop
  | device : Source.Of k vh (.device (some k))
  | memory {raw : DirtyBitmapRaw MemEntry}
      (h : Describes k vh (MemStored k.dirty (blockSize vh)) raw) : Source.Of k vh (.memory raw)

/-- Another image of the same size has the same granules. -/
theorem Describes.congr {α : Type} {k : KernelCbt} {vh vh' : PvdHeader} {P : ℕ → ℕ → α → Prop}
    {raw : DirtyBitmapRaw α} (h : Describes k vh P raw)
    (hsize : vh'.mSizeInSectorsV2 = vh.mSizeInSectorsV2) (hbs : blockSize vh' = blockSize vh) :
    Describes k vh' P raw where
  mSize := by rw [h.mSize, hsize]
  mId := h.mId
  mGranularity := h.mGranularity
  length := by
    rw [h.length]
    simp only [l1Entries, granules, hsize, hbs]
  table := by
    have := h.table
    simpa only [granules, hsize, hbs] using this

theorem Describes.agrees {k : KernelCbt} {vh : PvdHeader} {raw : DirtyBitmapRaw MemEntry}
    (h : Describes k vh (MemStored k.dirty (blockSize vh)) raw) (hbs : 0 < blockSize vh) :
    Agrees k vh raw where
  uuid := h.mId
  granularity := by
    rw [h.mGranularity]
    exact Nat.div_mul_cancel k.dvd
  dirty g hg := dirty_of_table hbs h.length h.table (by omega)

/-! ## Tables that are right -/

section Right

variable {k : KernelCbt} {vh : PvdHeader} {raw : DirtyBitmapRaw ℕ} {f : File}

theorem Describes.representable {P : ℕ → ℕ → ℕ → Prop} (h : Describes k vh P raw)
    (hsize : vh.mSizeInSectorsV2 < 2 ^ 64) (hP : ∀ i cur v, P i cur v → v < 2 ^ 64) :
    raw.Representable where
  mSize := by rwa [h.mSize]
  mGranularity := by
    rw [h.mGranularity]
    exact (Nat.div_le_self _ _).trans_lt k.lt
  mL1 v hv := by
    obtain ⟨j, hj⟩ := List.getElem?_of_mem hv
    exact hP _ _ _ (h.table.get hj)

theorem Stored.lt {b : ℕ → Bool} {bs n i cur v : ℕ} (h : Stored b bs f n i cur v) : v < 2 ^ 64 := by
  cases h with
  | @const c => cases c <;> decide
  | block _ hlt => simp only [sectorSize] at hlt; omega

theorem Stored.readable {b : ℕ → Bool} {bs n i cur v : ℕ} (hn : n ≤ f.size)
    (h : Stored b bs f n i cur v) : Readable f i cur v := by
  intro hv
  cases h with
  | @const c => cases c <;> exact absurd hv (by decide)
  | block _ hlt hend =>
      rw [u64_of_lt (by omega)]
      exact .inr (hend.trans hn)

/-- A right table is right in memory. -/
theorem TableOf.memTable {b : ℕ → Bool} {bs n i bytes : ℕ} {l : List ℕ} (heap : ℕ → UInt8)
    (h : TableOf (Stored b bs f n) bs i bytes l) :
    TableOf (MemStored b bs) bs i bytes (memTable heap f bs bytes l) := by
  induction l generalizing i bytes with
  | nil => trivial
  | cons v vs ih =>
      refine ⟨?_, ih h.2⟩
      have hv := h.1
      unfold memEntry
      cases hv with
      | @const c hc =>
          have hle : ¬ 1 < c.toNat := by cases c <;> decide
          have hval : decide (c.toNat = 1) = c := by cases c <;> decide
          rw [if_neg hle, hval]
          exact .const hc
      | block hlt h63 _ hbytes =>
          rw [if_pos hlt, u64_of_lt (by omega)]
          refine .block fun t ht => ?_
          rw [overlay_of_mem (Nat.zero_le t) (by omega), Nat.sub_zero, hbytes t ht]

variable (h : Describes k vh (Stored k.dirty (blockSize vh) f f.size) raw)
  (hsize : vh.mSizeInSectorsV2 < 2 ^ 62)

include h hsize

theorem Describes.loadable {size : ℕ} (hroom : rawBytes + 8 * raw.mL1.length ≤ size) :
    Loadable (blockSize vh) vh.mSizeInSectorsV2 f size raw where
  mSize := h.mSize
  room := hroom
  granularity := by
    rw [h.mGranularity]
    exact (granularity_pos k).ne'
  readable := by
    rw [h.mSize, h.mGranularity, bitmapBytes_eq k hsize]
    exact h.table.mono fun _ _ _ => Stored.readable le_rfl

theorem Describes.inMemory (heap : ℕ → UInt8) :
    Describes k vh (MemStored k.dirty (blockSize vh)) (raw.inMemory heap f (blockSize vh)) where
  mSize := h.mSize
  mId := h.mId
  mGranularity := h.mGranularity
  length := memTable_length.trans h.length
  table := by
    unfold DirtyBitmapRaw.inMemory
    rw [h.mSize, h.mGranularity, bitmapBytes_eq k hsize]
    exact h.table.memTable heap

end Right

/-! ## Saving -/

theorem Room.mono {σ : Type} {bs m n : ℕ} {S : Sink σ bs} {s : σ} (h : Room S n s) (hm : m ≤ n) :
    Room S m s where
  aligned := h.aligned
  lo := h.lo
  hi := by
    have hhi := h.hi
    have hmul := Nat.mul_le_mul_right bs hm
    omega

/-- The end of saving, once the blocks are in the file. -/
theorem writeExtension_puts {md5 : List UInt8 → Sig} {d : Delta} {ms : List (ℕ → UInt8)}
    (hpos : 0 < blockSize d.hdr0) (h : Room (deltaSink hpos) ms.length d) (raw : DirtyBitmapRaw ℕ) :
    Triple (fun s => s = (deltaSink hpos).puts d ms) (writeExtension md5 raw)
      (fun _ s =>
        Kept ((deltaSink hpos).puts d ms).file.size ((deltaSink hpos).puts d ms).file s.file ∧
        s.hdr0 = s.file.hdr ∧ ∃ ext, Extended md5 d.hdr0 ext raw (fun _ => 0) s.file)
      (fun _ => False) := by
  have hlo : 2 * sectorSize ≤ d.file.size := h.lo
  have hhi : d.file.size + ms.length * blockSize d.hdr0 < 2 ^ 63 := h.hi
  have haligned : sectorSize ∣ d.file.size := h.aligned
  set S := deltaSink hpos with hS
  have hhdr0 : (S.puts d ms).hdr0 = d.hdr0 := hdr0_puts _ d ms
  have hplace : (S.puts d ms).file.size = d.file.size + ms.length * blockSize d.hdr0 :=
    S.place_puts d ms
  obtain ⟨ext, hext⟩ : sectorSize ∣ (S.puts d ms).file.size := by
    rw [hplace]
    exact (Nat.dvd_add_right haligned).mpr ((sector_dvd d).mul_left _)
  generalize S.puts d ms = e at *
  have hval : (e.file.size + sectorSize - 1) / sectorSize = ext := by
    rw [hext]
    simp only [sectorSize]
    omega
  have hsec : ext * sectorSize = e.file.size := by rw [hext, Nat.mul_comm]
  refine Triple.look fun s hs => ?_
  subst hs
  dsimp only
  rw [hval, hhdr0]
  refine Triple.step (Triple.step (Triple.update fun t ht => ?_))
  subst ht
  rw [Delta.file_write, Delta.file_write]
  obtain ⟨hkept, hextended⟩ := @extended_pwrite md5 d.hdr0 ext raw (fun _ => 0) s.file _ hpos
    (by simp only [sectorSize] at *; omega) (by omega) rfl
  exact ⟨⟨hkept.size, fun i h₁ h₂ => hkept.byte i h₁ (by omega)⟩, hextended.hdr.symm, ext,
    hextended⟩

section Saving

variable {md5 : List UInt8 → Sig} {d : Delta} (h : Image d) (k : KernelCbt)
  (hfit : usedBytes (l1Entries k d.hdr0) ≤ blockSize d.hdr0)

include h hfit

theorem Image.l1Entries_mul : l1Entries k d.hdr0 * blockSize d.hdr0 ≤ 2 ^ 26 * 2 ^ 26 := by
  have hle := h.blockSize_le
  refine Nat.mul_le_mul ?_ hle
  unfold usedBytes at hfit
  omega

theorem Image.room : Room (deltaSink h.blockSize_pos) (l1Entries k d.hdr0) d where
  aligned := h.aligned
  lo := h.lo
  hi := by
    have hhi := h.hi
    have hmul := h.l1Entries_mul k hfit
    change d.file.size + _ < _
    omega

/-- The table and the blocks of a bitmap. -/
theorem save_spec (heap : ℕ → UInt8) {src : Source} (hsrc : Source.Of k d.hdr0 src) :
    Triple (fun s => s = d) (saveFrom heap src)
      (fun saved s => ∃ raw ms, saved = some raw ∧ s = (deltaSink h.blockSize_pos).puts d ms ∧
        ms.length ≤ l1Entries k d.hdr0 ∧
        Describes k d.hdr0 (Stored k.dirty (blockSize d.hdr0) s.file s.file.size) raw)
      (fun _ => False) := by
  have hroom := h.room k hfit
  have hsec := sector_dvd d
  refine Triple.look fun s₀ hs₀ => ?_
  rw [hs₀]
  cases hsrc with
  | device =>
      change Triple _ (saveDirtyBitmap _ _ _ _ _ _ >>= fun raw => pure (some raw)) _ _
      unfold saveDirtyBitmap
      dsimp only
      rw [l1Entries_u32 h k hfit, bitmapBytes_eq k h.size_lt]
      simp only [bind_assoc, pure_bind]
      have hspec := saveBlocks_spec (i := 0) hsec
        (fun off b => pwrite off (blockSize d.hdr0) b) (fun _ _ => rfl) k
        ((granules k d.hdr0 + 7) / 8) heap (fun _ => 0) _ hroom
      rw [Nat.zero_mul, Nat.sub_zero] at hspec
      refine Triple.bind hspec fun l => Triple.ret fun s hs => ?_
      obtain ⟨ms, rfl, hlen⟩ := hs.puts
      refine ⟨_, ms, rfl, rfl, hlen, rfl, rfl, rfl, hs.length, TableOf.of_get fun j v hj => ?_⟩
      have hv := hs.table.get hj
      rw [Nat.zero_add] at hv ⊢
      exact hv.stored fun _ => rfl
  | @memory raw hraw =>
      dsimp only
      have hroom' : Room (deltaSink h.blockSize_pos) raw.mL1.length d := by
        rw [hraw.length]
        exact hroom
      refine Triple.bind (saveFromRaw_spec h.blockSize_pos hsec _ hroom' hraw.table)
        fun l => Triple.ret fun s hs => ?_
      obtain ⟨ms, rfl, hlen⟩ := hs.puts
      rw [hraw.length] at hlen
      exact ⟨_, ms, rfl, rfl, hlen, hraw.mSize, hraw.mId, hraw.mGranularity,
        hs.length.trans hraw.length, hs.table⟩

theorem deltaSaveOptionalHeader_spec (heap : ℕ → UInt8) {src : Source}
    (hsrc : Source.Of k d.hdr0 src) :
    Triple (fun s => s = d) (deltaSaveOptionalHeader md5 heap src)
      (fun _ s => Kept d.file.size d.file s.file ∧ s.hdr0 = s.file.hdr ∧ ∃ ext raw,
        Extended md5 d.hdr0 ext raw (fun _ => 0) s.file ∧
        Describes k d.hdr0 (Stored k.dirty (blockSize d.hdr0) s.file s.file.size) raw)
      (fun _ => False) := by
  refine Triple.bind (save_spec h k hfit heap hsrc) fun saved => Triple.start fun s hs => ?_
  obtain ⟨raw, ms, rfl, rfl, hlen, hraw⟩ := hs
  refine (writeExtension_puts h.blockSize_pos ((h.room k hfit).mono hlen) raw).conseq
    (fun _ hs => hs) (fun _ t ht => ?_) fun _ hs => hs
  obtain ⟨hkept, h0, ext, hextended⟩ := ht
  have hputs := (deltaSink h.blockSize_pos).kept_puts d ms
  refine ⟨hputs.trans hkept hputs.size, h0, ext, raw, hextended, ?_⟩
  exact { hraw with table := hraw.table.mono fun _ _ _ => Stored.kept hkept hkept.size }

end Saving

/-! ## Loading -/

theorem load_spec {md5 : List UInt8 → Sig} {k : KernelCbt} {vh : PvdHeader} {ext : ℕ}
    {raw : DirtyBitmapRaw ℕ} {e : Delta} (he : Extended md5 vh ext raw (fun _ => 0) e.file)
    (hraw : Describes k vh (Stored k.dirty (blockSize vh) e.file e.file.size) raw)
    (h0 : e.hdr0 = e.file.hdr) (hsize : vh.mSizeInSectorsV2 < 2 ^ 62) (hbs : blockSize vh ≤ 2 ^ 26)
    (hfit : usedBytes (l1Entries k vh) ≤ blockSize vh) (heap : ℕ → UInt8) :
    Triple (fun s => s = e) (deltaLoadOptionalHeader md5 heap ExtContext.new)
      (fun ctx s => s = e ∧ usedBytes (l1Entries k vh) + elementBytes ≤ blockSize vh ∧
        ctx.raw = some (raw.inMemory heap e.file (blockSize vh)))
      (fun _ => ¬ usedBytes (l1Entries k vh) + elementBytes ≤ blockSize vh) := by
  have hmin : 80 ≤ blockSize vh := by
    simp only [usedBytes, checkBytes, elementBytes, rawBytes] at hfit
    omega
  have hlen : usedBytes raw.mL1.length ≤ blockSize vh := by rwa [hraw.length]
  have helem (rs : List (DirtyBitmapRaw ℕ)) : Elements (blockSize vh) vh.mSizeInSectorsV2 e.file
      (fun i => e.file.byte (ext * sectorSize + i)) checkBytes rs ↔
        rs = [raw] ∧ usedBytes (l1Entries k vh) + elementBytes ≤ blockSize vh := by
    rw [elements_block he.block (by omega) (by omega)
      (by simp only [usedBytes] at hlen; omega)
      (hraw.representable (by omega) fun _ _ _ => Stored.lt), hraw.length]
    constructor
    · rintro ⟨-, -, rs', rfl, hrest⟩
      obtain ⟨rfl, hroom⟩ := (elements_zero _).mp hrest
      exact ⟨rfl, hroom⟩
    · rintro ⟨rfl, hroom⟩
      refine ⟨hfit, hraw.loadable hsize ?_, [], rfl, (elements_zero _).mpr ⟨rfl, hroom⟩⟩
      rw [hraw.length]
  refine (load_extended he h0 (by simp only [checkBytes]; omega) heap).conseq (fun _ hs => hs)
    (fun ctx s hs => ?_) fun s hs hroom => hs [raw] ((helem _).mpr ⟨rfl, hroom⟩)
  obtain ⟨rfl, rs, hrs, hlast⟩ := hs
  obtain ⟨rfl, hroom⟩ := (helem rs).mp hrs
  exact ⟨rfl, hroom, hlast⟩

/-! ## Empty images -/

/-- The header that `create_empty_delta` writes, for 64 sectors in a block. -/
def emptyHeader (size : ℕ) : PvdHeader :=
  { (generatePvdHeader PvdHeader.zero size 64 .v2).1 with mFlags := cifEmpty }

/-- What `create_empty_delta` leaves, opened. -/
def emptyImage (size : ℕ) : Delta where
  disk := Disk.new ((File.empty.ftruncate (indexBytes (size / 64) 64)).pwrite
    ⟨0, headerBytes, wordBytes (emptyHeader size).toWords⟩)
  hdr0 := emptyHeader size
  l2 := fun _ => 0
  allocHead := UInt32.ofNat (indexBytes (size / 64) 64 / 32768)
  l1Size := indexBytes (size / 64) 64 / 32768
  l2Size := size / 64
  l2Dirty := false
  l2Cache := none
  dirtied := 0
  blocksize := 64
  version := .v2

theorem blank_truncated {vh : PvdHeader} {c n : ℕ} (hc : 16 ≤ c) (hn : 0 < n) : Blank vh c n
    ((File.empty.ftruncate (n * (4 * c))).pwrite ⟨0, headerBytes, wordBytes vh.toWords⟩) := by
  have hle : 4 * c ≤ n * (4 * c) := Nat.le_mul_of_pos_left _ hn
  refine ⟨File.size_pwrite_le (by simp only [File.size_ftruncate, headerBytes]; omega),
    fun i => ?_⟩
  by_cases hi : i < 16
  · rw [File.word_pwrite_of_mem _ (o := 0) rfl (Nat.zero_le i) (by simp only [headerBytes]; omega)]
    exact congrFun (bytesWord_wordBytes vh.toWords) i
  · rw [File.word_pwrite_of_not_mem _ (.inr (by simp only [headerBytes]; omega)),
      PvdHeader.toWords_of_ge (by omega)]
    refine bytesWord_congr (b := fun _ => 0) (j := 0) fun j _ => ?_
    simp [File.ftruncate, File.empty]

section Empty

variable {size : ℕ} (hdvd : 64 ∣ size) (hr : Representable .v2 64 size) (hfit : IndexFits size 64)

include hdvd hr

theorem emptyImage_generated : (emptyImage size).hdr0.GeneratedFor .v2 64 size :=
  (generatePvdHeader_generatedFor (by decide) hr hdvd).setFields _ _

theorem emptyImage_blockSize : blockSize (emptyImage size).hdr0 = 32768 := by
  rw [blockSize, (emptyImage_generated hdvd hr).sectors]
  rfl

theorem emptyImage_size : (emptyImage size).hdr0.mSizeInSectorsV2 = size := by
  have hgen := emptyImage_generated hdvd hr
  have hsize := hgen.sizeInSectors
  rwa [getSizeInSectors, hgen.version] at hsize

include hfit

theorem emptyImage_image : Image (emptyImage size) := by
  have hgen := emptyImage_generated hdvd hr
  obtain ⟨n, hn⟩ : s2b 64 ∣ indexBytes (size / 64) 64 := dvd_alignUp
  have hsmall := hfit
  unfold IndexFits at hsmall
  have hpos : 0 < n := by
    have hle : headerBytes + 4 * (size / 64) ≤ indexBytes (size / 64) 64 :=
      le_alignUp (by norm_num [s2b])
    simp only [headerBytes, s2b] at *
    omega
  have hindex : indexBytes (size / 64) 64 = n * (4 * 8192) := by
    rw [hn, s2b]
    omega
  have hblank : Blank (emptyImage size).hdr0 8192 n (emptyImage size).file := by
    change Blank _ 8192 n ((File.empty.ftruncate (indexBytes (size / 64) 64)).pwrite _)
    rw [hindex]
    exact blank_truncated (by norm_num) hpos
  have hlayout := hgen.layout_eq hfit
  constructor
  · exact hblank.hdr.symm
  · exact (hblank.wellFormed (hgen.valid (by decide) hfit)).1
  · rw [hblank.hdr, hlayout, hblank.size]
    simp only [newLayout, Layout.cluster, hindex, s2b]
    omega
  · rw [hblank.hdr, getSizeInSectors, hgen.version]
  · rw [hblank.size]
    exact ⟨n * 64, by simp only [sectorSize]; omega⟩
  · rw [hblank.size]
    simp only [sectorSize]
    omega
  · rw [hblank.size]
    omega

end Empty

/-- Eight sectors in a granule. -/
def wholeDevice : KernelCbt where
  uuid := (1, 2, 3, 4)
  blksize := 4096
  dirty := fun _ => true
  pos := by norm_num
  dvd := ⟨8, rfl⟩
  lt := by norm_num

section Sizes

variable {size : ℕ} (hdvd : 64 ∣ size) (hr : Representable .v2 64 size)

include hdvd hr

theorem l1Entries_emptyImage : l1Entries wholeDevice (emptyImage size).hdr0 =
    (((size + 8 - 1) / 8 + 7) / 8 + 32768 - 1) / 32768 := by
  have hgran : wholeDevice.blksize / sectorSize = 8 := by norm_num [wholeDevice, sectorSize]
  rw [l1Entries, granules, emptyImage_blockSize hdvd hr, emptyImage_size hdvd hr, hgran]

end Sizes

theorem smallImage_size : (emptyImage 640).file.size = 32768 := by
  change max ((File.empty.ftruncate (indexBytes (640 / 64) 64)).size) (0 + 64) = 32768
  rw [File.size_ftruncate]
  norm_num [indexBytes, alignUp, headerBytes, s2b]

/-! ## The round trip -/

section Trip

variable {md5 : List UInt8 → Sig} {k : KernelCbt} {d : Delta}

theorem savesAndLoads (md5 : List UInt8 → Sig) (h : Image d)
    (hfit : usedBytes (l1Entries k d.hdr0) ≤ blockSize d.hdr0)
    (hroom : usedBytes (l1Entries k d.hdr0) + elementBytes ≤ blockSize d.hdr0) {src : Source}
    (hsrc : Source.Of k d.hdr0 src) : SavesAndLoads md5 k src d := by
  intro heap
  obtain ⟨⟨⟩, d', hrun, hkept, -, ext, raw, he, hraw⟩ :=
    (@deltaSaveOptionalHeader_spec md5 d h k hfit heap src hsrc).exists_ok rfl
  have hlayout : d'.file.hdr.layout = d.file.hdr.layout := by
    rw [he.hdr, h.hdr0]
    rfl
  refine ⟨d', hrun, hkept.unchanged h.wellFormed h.index hlayout, fun heap' e hfile h0 => ?_⟩
  rw [← hfile] at he h0 hraw
  obtain ⟨ctx, s, hload, rfl, -, hlast⟩ :=
    ((load_spec he hraw h0 h.size_lt h.blockSize_le hfit heap').conseq (fun _ hs => hs)
      (fun _ _ hs => hs) fun _ hs => hs hroom).exists_ok rfl
  refine ⟨ctx, _, hload, hlast, ?_⟩
  have hagrees := (hraw.inMemory h.size_lt heap').agrees h.blockSize_pos
  rw [← hfile, he.hdr]
  exact ⟨hagrees.uuid, hagrees.granularity, hagrees.dirty⟩

/-- An image that is saved and loaded has room for one more element. -/
theorem RoundTrip.room (htrip : RoundTrip md5 k d) (h : Image d)
    (hfit : usedBytes (l1Entries k d.hdr0) ≤ blockSize d.hdr0) :
    usedBytes (l1Entries k d.hdr0) + elementBytes ≤ blockSize d.hdr0 := by
  obtain ⟨d', hrun, -, hloads⟩ := htrip.device fun _ => 0
  obtain ⟨-, h0, ext, raw, he, hraw⟩ :=
    (deltaSaveOptionalHeader_spec h k hfit (fun _ => 0) .device).ok rfl hrun
  obtain ⟨ctx, r, hload, -⟩ := hloads (fun _ => 0) d' rfl h0
  exact ((load_spec he hraw h0 h.size_lt h.blockSize_le hfit fun _ => 0).ok rfl hload).2.1

theorem roundTrip_iff (md5 : List UInt8 → Sig) (k : KernelCbt) (h : Image d)
    (hfit : usedBytes (l1Entries k d.hdr0) ≤ blockSize d.hdr0) :
    RoundTrip md5 k d ↔ usedBytes (l1Entries k d.hdr0) + elementBytes ≤ blockSize d.hdr0 := by
  constructor
  · intro htrip
    exact htrip.room h hfit
  · intro hroom
    refine ⟨savesAndLoads md5 h hfit hroom .device, ?_⟩
    intro heap heap' d' ctx raw hrun hload hraw e hImage hsize hbs
    obtain ⟨-, h0, ext, r, he, hr⟩ :=
      (deltaSaveOptionalHeader_spec h k hfit heap .device).ok rfl hrun
    obtain ⟨-, -, hlast⟩ := (load_spec he hr h0 h.size_lt h.blockSize_le hfit heap').ok rfl hload
    obtain rfl := Option.some.inj (hlast.symm.trans hraw)
    have hdescr' := (hr.inMemory h.size_lt heap').congr hsize hbs
    have hentries : l1Entries k e.hdr0 = l1Entries k d.hdr0 := by
      simp only [l1Entries, granules, hsize, hbs]
    refine savesAndLoads md5 hImage ?_ ?_ (.memory ?_)
    · rwa [hentries, hbs]
    · rwa [hentries, hbs]
    · rwa [hbs]

end Trip

theorem roundTrip_iff_small : RoundTrip (fun _ => (5, 6, 7, 8)) wholeDevice (emptyImage 640) ↔
    usedBytes (l1Entries wholeDevice (emptyImage 640).hdr0) + elementBytes ≤
      blockSize (emptyImage 640).hdr0 :=
  roundTrip_iff _ _ (emptyImage_image (by decide) (by decide) (by decide)) (by
    rw [l1Entries_emptyImage (by decide) (by decide), emptyImage_blockSize (by decide) (by decide)]
    decide)

/-- 4 TB, where the table ends with the block. -/
theorem save_load_not_inverse : ¬ ∀ (md5 : List UInt8 → Sig) (k : KernelCbt) (d : Delta),
    Image d → usedBytes (l1Entries k d.hdr0) ≤ blockSize d.hdr0 → RoundTrip md5 k d := by
  intro h
  have hdvd : 64 ∣ 4086 * 32768 * 64 := by norm_num
  have hr : Representable .v2 64 (4086 * 32768 * 64) := by
    unfold Representable
    norm_num
  have hfit : IndexFits (4086 * 32768 * 64) 64 := by
    unfold IndexFits
    norm_num [indexBytes, alignUp, headerBytes, s2b]
  have hentries : l1Entries wholeDevice (emptyImage (4086 * 32768 * 64)).hdr0 = 4086 := by
    rw [l1Entries_emptyImage hdvd hr]
  have himage := emptyImage_image hdvd hr hfit
  have hbs := emptyImage_blockSize hdvd hr
  generalize emptyImage (4086 * 32768 * 64) = d at *
  have hone : usedBytes (l1Entries wholeDevice d.hdr0) ≤ blockSize d.hdr0 := by
    rw [hentries, hbs]
    norm_num [usedBytes, checkBytes, elementBytes, rawBytes]
  have hroom := (h (fun _ => (5, 6, 7, 8)) wholeDevice d himage hone).room himage hone
  rw [hentries, hbs] at hroom
  norm_num [usedBytes, checkBytes, elementBytes, rawBytes] at hroom

end Ploop.Cbt
