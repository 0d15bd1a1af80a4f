import Ploop.Cbt.Loader

/-!
# Files with an extension

What both writers of an extension leave, and when the loader accepts it.
-/

namespace Ploop.Cbt

open Storage Program

/-! ## The elements of a block -/

section Congr

variable {bs sectors : ℕ} {f : File} {block block' : ℕ → UInt8}

theorem readRaw_congr {pos : ℕ} (h : ∀ i, i < rawBytes + 8 * (readRaw block pos).mL1.length →
    block' (pos + i) = block (pos + i)) : readRaw block' pos = readRaw block pos := by
  have h32 (off : ℕ) (hoff : off + 4 ≤ rawBytes) :
      rd32 block' (pos + off) = rd32 block (pos + off) := rd32_congr fun i hi => by
    rw [add_assoc]
    exact h _ (by omega)
  have hsize : rd64 block' pos = rd64 block pos :=
    rd64_congr fun i hi => h i (by simp only [rawBytes]; omega)
  have hlen : rd32 block' (pos + 28) = rd32 block (pos + 28) := h32 28 (by decide)
  unfold readRaw at *
  rw [hsize, h32 8 (by decide), h32 12 (by decide), h32 16 (by decide), h32 20 (by decide),
    h32 24 (by decide), hlen]
  congr 1
  refine List.map_congr_left fun j hj => rd64_congr fun i hi => ?_
  have hj' := List.mem_range.mp hj
  simp only [List.length_map, List.length_range] at h
  have := h (rawBytes + 8 * j + i) (by omega)
  simpa only [add_assoc] using this

/-- The loader does not look in front of an element. -/
theorem Elements.congr {h : ℕ} {rs : List (DirtyBitmapRaw ℕ)}
    (helem : Elements bs sectors f block h rs)
    (hblock : ∀ i, h ≤ i → i < bs → block' i = block i) : Elements bs sectors f block' h rs := by
  have hsize {h : ℕ} (hroom : h + elementBytes + (rd32 block (h + 16)).toNat ≤ bs)
      (hblock : ∀ i, h ≤ i → i < bs → block' i = block i) :
      rd32 block' (h + 16) = rd32 block (h + 16) :=
    rd32_congr fun i hi => hblock _ (by omega) (by simp only [elementBytes] at hroom; omega)
  have hmagic {h : ℕ} (hroom : h + elementBytes + (rd32 block (h + 16)).toNat ≤ bs)
      (hblock : ∀ i, h ≤ i → i < bs → block' i = block i) :
      rd64 block' h = rd64 block h :=
    rd64_congr fun i hi => hblock _ (by omega) (by simp only [elementBytes] at hroom; omega)
  induction helem with
  | stop room magic =>
      refine .stop ?_ ?_
      · rwa [hsize room hblock]
      · rwa [hmagic room hblock]
  | other room some magic rest ih =>
      refine .other ?_ ?_ ?_ ?_
      · rwa [hsize room hblock]
      · rwa [hmagic room hblock]
      · rwa [hmagic room hblock]
      · rw [hsize room hblock]
        exact ih fun i hi hlt => hblock i (by omega) hlt
  | @bitmap h rs room magic loadable rest ih =>
      have hroom := loadable.room
      have hread : readRaw block' (h + elementBytes) = readRaw block (h + elementBytes) :=
        readRaw_congr fun i hi => hblock _ (by omega) (by omega)
      rw [← hread] at loadable ⊢
      refine .bitmap ?_ ?_ ?_ ?_
      · rwa [hsize room hblock]
      · rwa [hmagic room hblock]
      · rwa [hsize room hblock]
      · rw [hsize room hblock]
        exact ih fun i hi hlt => hblock i (by omega) hlt

theorem Elements.unique {h : ℕ} {rs rs' : List (DirtyBitmapRaw ℕ)}
    (helem : Elements bs sectors f block h rs) (helem' : Elements bs sectors f block h rs') :
    rs = rs' := by
  induction helem generalizing rs' with
  | stop room magic =>
      cases helem' with
      | stop => rfl
      | other _ some => exact absurd magic some
      | bitmap _ bitmap => exact absurd (magic.symm.trans bitmap) (by decide)
  | other room some magic rest ih =>
      cases helem' with
      | stop _ zero => exact absurd zero some
      | other _ _ _ rest' => exact ih rest'
      | bitmap _ bitmap => exact absurd bitmap magic
  | bitmap room magic loadable rest ih =>
      cases helem' with
      | stop _ zero => exact absurd (zero.symm.trans magic) (by decide)
      | other _ _ other => exact absurd magic other
      | bitmap _ _ _ rest' => exact congrArg _ (ih rest')

end Congr

section Block

variable {md5 : List UInt8 → Sig} {bs sectors : ℕ} {f : File} {raw : DirtyBitmapRaw ℕ}
  {old : ℕ → UInt32} {block : ℕ → UInt8} {rs : List (DirtyBitmapRaw ℕ)}

/-- The first element is the bitmap of the writer, what follows is left from the
buffer. -/
theorem elements_block
    (hblock : ∀ i < bs, block i = wordBytes (extBlock md5 bs raw old) i)
    (hmin : 44 ≤ bs) (hbs : bs < 2 ^ 32)
    (hlen : rawBytes + 8 * raw.mL1.length < 2 ^ 32) (hraw : raw.Representable) :
    Elements bs sectors f block checkBytes rs ↔ usedBytes raw.mL1.length ≤ bs ∧
      Loadable bs sectors f (rawBytes + 8 * raw.mL1.length) raw ∧
      ∃ rs', rs = raw :: rs' ∧
        Elements bs sectors f (wordBytes old) (usedBytes raw.mL1.length) rs' := by
  obtain ⟨hmagic, hsize⟩ := element_block hblock hmin hlen
  have hnext : checkBytes + elementBytes + (rd32 block (checkBytes + 16)).toNat =
      usedBytes raw.mL1.length := by
    rw [hsize, usedBytes, add_assoc (checkBytes + elementBytes)]
  constructor
  · intro h
    cases h with
    | stop _ hzero => exact absurd (hmagic.symm.trans hzero) (by decide)
    | other _ _ hother => exact absurd hmagic hother
    | bitmap room _ loadable rest =>
        rw [hnext] at room rest
        rw [hsize] at loadable
        rw [readRaw_block hblock room hbs hraw] at loadable ⊢
        exact ⟨room, loadable, _, rfl,
          rest.congr fun i hi hlt => (tail_block hblock hi hlt).symm⟩
  · rintro ⟨hfit, hload, rs', rfl, hrest⟩
    have hread := readRaw_block hblock hfit hbs hraw
    rw [← hread]
    refine .bitmap ?_ hmagic ?_ ?_
    · rwa [hnext]
    · rwa [hsize, hread]
    · rw [hnext]
      exact hrest.congr fun i hi hlt => tail_block hblock hi hlt

/-- A cleared buffer ends the list if there is room for its last element. -/
theorem elements_zero (h : ℕ) : Elements bs sectors f (wordBytes fun _ => 0) h rs ↔
    rs = [] ∧ h + elementBytes ≤ bs := by
  have hbyte (i : ℕ) : wordBytes (fun _ => 0) i = 0 := by simp [wordBytes, byteOf]
  have hzero (off : ℕ) : rd32 (wordBytes fun _ => 0) off = 0 := by
    rw [rd32, hbyte, hbyte, hbyte, hbyte, le32_zero]
  have hmagic : rd64 (wordBytes fun _ => 0) h = 0 := by
    rw [rd64, hzero, hzero]
    rfl
  constructor
  · intro helem
    cases helem with
    | stop room =>
        rw [hzero] at room
        exact ⟨rfl, room⟩
    | other _ hsome => exact absurd hmagic hsome
    | bitmap _ hbitmap => exact absurd (hmagic.symm.trans hbitmap) (by decide)
  · rintro ⟨rfl, hroom⟩
    refine .stop ?_ hmagic
    rw [hzero]
    exact hroom

end Block

/-! ## Extended files -/

/-- The file has the bitmap `raw` in an extension at sector `ext`; the rest of the
block is as the buffer `old` had it. -/
structure Extended (md5 : List UInt8 → Sig) (vh : PvdHeader) (ext : ℕ) (raw : DirtyBitmapRaw ℕ)
    (old : ℕ → UInt32) (f : File) : Prop where
  hdr : f.hdr = extHeader vh ext
  pos : 0 < ext
  lt : ext * sectorSize < 2 ^ 63
  room : ext * sectorSize + blockSize vh ≤ f.size
  block : ∀ i < blockSize vh, f.byte (ext * sectorSize + i) =
    wordBytes (extBlock md5 (blockSize vh) raw old) i

theorem formatExtensionOffset_extHeader (vh : PvdHeader) {ext : ℕ} (hext : ext < 2 ^ 64) :
    formatExtensionOffset (extHeader vh ext) = ext := lo32_hi32 hext

/-- A header and a block behind all the rest. -/
theorem extended_pwrite {md5 : List UInt8 → Sig} {vh : PvdHeader} {ext : ℕ}
    {raw : DirtyBitmapRaw ℕ} {old : ℕ → UInt32} {f f' : File} (hpos : 0 < blockSize vh)
    (hlo : 2 ≤ ext) (hlt : ext * sectorSize < 2 ^ 63)
    (hf' : f' = (f.pwrite ⟨0, headerBytes, wordBytes (extHeader vh ext).toWords⟩).pwrite
      ⟨ext * sectorSize, blockSize vh, wordBytes (extBlock md5 (blockSize vh) raw old)⟩) :
    Kept (ext * sectorSize) f f' ∧ Extended md5 vh ext raw old f' := by
  subst hf'
  have hheader : headerBytes ≤ ext * sectorSize := by
    simp only [headerBytes, sectorSize]
    omega
  refine ⟨(kept_pwrite (.inr le_rfl)).trans (kept_pwrite (.inl le_rfl)) le_rfl, ?_, ?_, hlt, ?_, ?_⟩
  · rw [hdr_pwrite_of_ge hheader, hdr_pwrite_header]
  · omega
  · exact File.end_le_size_pwrite (f.pwrite _) (w := ⟨_, blockSize vh, _⟩) hpos.ne'
  · intro i hi
    rw [File.byte_pwrite, overlay_of_mem (Nat.le_add_right _ _) (by simpa using hi),
      Nat.add_sub_cancel_left]

section Load

variable {md5 : List UInt8 → Sig} {vh : PvdHeader} {ext : ℕ} {raw : DirtyBitmapRaw ℕ}
  {old : ℕ → UInt32} {e : Delta}

/-- The loader takes the block and goes through its elements. -/
theorem load_extended (he : Extended md5 vh ext raw old e.file) (h0 : e.hdr0 = e.file.hdr)
    (hmin : checkBytes ≤ blockSize vh) (heap : ℕ → UInt8) :
    Triple (fun s => s = e) (deltaLoadOptionalHeader md5 heap ExtContext.new)
      (fun ctx s => s = e ∧ ∃ rs, Elements (blockSize vh) vh.mSizeInSectorsV2 e.file
        (fun i => e.file.byte (ext * sectorSize + i)) checkBytes rs ∧
        ctx.raw = rs.getLast?.map fun r => r.inMemory heap e.file (blockSize vh))
      (fun _ => ∀ rs, ¬ Elements (blockSize vh) vh.mSizeInSectorsV2 e.file
        (fun i => e.file.byte (ext * sectorSize + i)) checkBytes rs) := by
  have hlt := he.lt
  have hhdr0 : e.hdr0 = extHeader vh ext := h0.trans he.hdr
  have hext : formatExtensionOffset (extHeader vh ext) = ext :=
    formatExtensionOffset_extHeader vh (by simp only [sectorSize] at hlt; omega)
  have hoff : u64 (ext * sectorSize) = ext * sectorSize := u64_of_lt (by omega)
  have hclosed : (extHeader vh ext).mDiskInUse = signatureDiskClosedV21 := rfl
  have hcases : ¬ (ext = 0 ∨ (extHeader vh ext).mDiskInUse = signatureDiskClosedV20) := by
    rw [hclosed]
    exact not_or.mpr ⟨he.pos.ne', by decide⟩
  have hblocks : blockSize e.hdr0 = blockSize vh := by
    rw [hhdr0]
    rfl
  have hsectors : e.hdr0.mSizeInSectorsV2 = vh.mSizeInSectorsV2 := by
    rw [hhdr0]
    rfl
  refine Triple.look fun s hs => ?_
  subst hs
  dsimp only
  rw [hblocks, hhdr0, hext, if_neg hcases, if_neg (not_not.mpr hclosed), hoff]
  refine Triple.bind (pread_inside he.room).total fun block => Triple.start fun t ht => ?_
  obtain ⟨rfl, rfl⟩ := ht
  obtain ⟨hmagic, hsum⟩ := check_block he.block hmin
  rw [if_neg (not_not.mpr hmagic), if_neg (not_not.mpr hsum), ← hblocks, ← hsectors]
  refine (loadElements_spec ?_ _ ?_).conseq (fun _ hs => hs) (fun ctx s hs => ?_) fun _ hs => hs
  · rw [hhdr0, hext]
    exact he.pos.ne'
  · simp only [elementBytes, checkBytes]
    omega
  · obtain ⟨rfl, rs, hrs, hlast⟩ := hs
    refine ⟨rfl, rs, hrs, ?_⟩
    rw [hlast]
    exact Option.or_none

end Load

end Ploop.Cbt
