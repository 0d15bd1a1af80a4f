import Ploop.Cbt.Sending

/-!
# The bitmap that a file stores

`LoadsCbt` is what `delta_load_optional_header` makes of a file; `Stored` says the
same about its bytes.
-/

namespace Ploop.Cbt

open Storage Program

/-- The loader finds the bitmap `raw`. -/
def LoadsCbt (md5 : List UInt8 → Sig) (heap : ℕ → UInt8) (f : File)
    (raw : DirtyBitmapRaw MemEntry) : Prop :=
  ∃ ctx d, deltaLoadOptionalHeader md5 heap ExtContext.new (opened f) = .ok ctx d ∧
    ctx.raw = some raw

/-- Where the extension of a file begins. -/
def extStart (f : File) : ℕ := u64 (formatExtensionOffset f.hdr * sectorSize)

/-- The bitmaps in the extension of a closed image. -/
structure StoredCbt (md5 : List UInt8 → Sig) (f : File) (rs : List (DirtyBitmapRaw ℕ)) : Prop where
  ext : formatExtensionOffset f.hdr ≠ 0
  closed : f.hdr.mDiskInUse = signatureDiskClosedV21
  room : extStart f + blockSize f.hdr ≤ f.size
  magic : rd64 (fun i => f.byte (extStart f + i)) 0 = formatExtensionMagic
  sum : checksum md5 (blockSize f.hdr) (fun i => f.byte (extStart f + i)) =
    (rd32 (fun i => f.byte (extStart f + i)) 8, rd32 (fun i => f.byte (extStart f + i)) 12,
      rd32 (fun i => f.byte (extStart f + i)) 16, rd32 (fun i => f.byte (extStart f + i)) 20)
  elements : Elements (blockSize f.hdr) f.hdr.mSizeInSectorsV2 f
    (fun i => f.byte (extStart f + i)) checkBytes rs

variable {md5 : List UInt8 → Sig} {heap : ℕ → UInt8} {f g : File}

theorem StoredCbt.unique {rs rs' : List (DirtyBitmapRaw ℕ)} (h : StoredCbt md5 f rs)
    (h' : StoredCbt md5 f rs') : rs = rs' :=
  h.elements.unique h'.elements

/-- The loader, on any file. -/
theorem load_spec_file {e : Delta} (h0 : e.hdr0 = e.file.hdr) : Triple (fun d => d = e)
    (deltaLoadOptionalHeader md5 heap ExtContext.new)
    (fun ctx d => d = e ∧ ∀ raw, ctx.raw = some raw ↔ ∃ rs r, StoredCbt md5 e.file rs ∧
      rs.getLast? = some r ∧ raw = r.inMemory heap e.file (blockSize e.file.hdr))
    (fun _ => ∀ rs, ¬ StoredCbt md5 e.file rs) := by
  refine Triple.look fun d hd => ?_
  subst hd
  dsimp only
  rw [h0]
  change Triple _ (if formatExtensionOffset d.file.hdr = 0 ∨
    d.file.hdr.mDiskInUse = signatureDiskClosedV20 then _
    else if d.file.hdr.mDiskInUse ≠ signatureDiskClosedV21 then _ else _) _ _
  split
  case isTrue h =>
    refine Triple.ret fun s hs => ⟨hs, fun raw => ⟨fun hraw => absurd hraw nofun, ?_⟩⟩
    rintro ⟨rs, r, hrs, -⟩
    rcases h with h | h
    · exact absurd h hrs.ext
    · exact absurd (h.symm.trans hrs.closed) (by decide)
  case isFalse h =>
    obtain ⟨hext, -⟩ := not_or.mp h
    split
    case isTrue hclosed => exact Triple.raise fun s hs rs hrs => hclosed hrs.closed
    case isFalse hclosed =>
      refine Triple.bind (R := fun block s => s = d ∧
        extStart d.file + blockSize d.file.hdr ≤ d.file.size ∧
          block = fun i => d.file.byte (extStart d.file + i)) ?_
          fun block => Triple.start fun s ⟨hs, hroom, hblock⟩ => ?_
      · exact (pread_returns d .read _ _).conseq (fun _ hs => hs) (fun _ _ hs => hs)
          fun _ hs rs hrs => absurd hrs.room (Nat.not_le.mpr hs.2)
      · subst hs hblock
        split
        case isTrue hmagic => exact Triple.raise fun _ _ rs hrs => hmagic hrs.magic
        case isFalse hmagic =>
          split
          case isTrue hsum => exact Triple.raise fun _ _ rs hrs => hsum hrs.sum
          case isFalse hsum =>
            have hspec := @loadElements_spec s heap (fun i => s.file.byte (extStart s.file + i))
              ⟨[extStart s.file], none⟩ (by rwa [h0]) (blockSize s.hdr0) checkBytes (by
                simp only [elementBytes, checkBytes]
                omega)
            rw [h0] at hspec
            refine hspec.conseq (fun _ hs => hs) (fun ctx t ht => ?_)
              fun t ht rs hrs => ht rs hrs.elements
            · obtain ⟨rfl, rs, hrs, hraw⟩ := ht
              refine ⟨rfl, fun raw => ?_⟩
              have hstored : StoredCbt md5 t.file rs :=
                ⟨hext, not_not.mp hclosed, hroom, not_not.mp hmagic, not_not.mp hsum, hrs⟩
              rw [hraw]
              change (Option.or (rs.getLast?.map fun r => r.inMemory heap t.file
                (blockSize t.file.hdr)) none) = some raw ↔ _
              rw [Option.or_none, Option.map_eq_some_iff]
              constructor
              · rintro ⟨r, hr, rfl⟩
                exact ⟨rs, r, hstored, hr, rfl⟩
              · rintro ⟨rs', r, hrs', hr, rfl⟩
                obtain rfl := hstored.unique hrs'
                exact ⟨r, hr, rfl⟩

/-- What is loaded is the last bitmap that is stored. -/
theorem loadsCbt_iff {raw : DirtyBitmapRaw MemEntry} : LoadsCbt md5 heap f raw ↔
    ∃ rs r, StoredCbt md5 f rs ∧ rs.getLast? = some r ∧
      raw = r.inMemory heap f (blockSize f.hdr) := by
  constructor
  · rintro ⟨ctx, d, hload, hraw⟩
    exact (((load_spec_file (e := opened f) rfl).ok rfl hload).2 raw).mp hraw
  · rintro ⟨rs, r, hrs, hlast, hraw⟩
    cases hload : deltaLoadOptionalHeader md5 heap ExtContext.new (opened f) with
    | ok ctx d =>
        have hctx := (((load_spec_file (e := opened f) rfl).ok rfl hload).2 raw).mpr
          ⟨rs, r, hrs, hlast, hraw⟩
        exact ⟨ctx, d, hload, hctx⟩
    | error e d => exact absurd hrs ((load_spec_file (e := opened f) rfl).err rfl hload rs)

/-! ## A shorter file -/

/-- The blocks of the bitmap `r` end before byte `m`. -/
def Below (bs m : ℕ) (r : DirtyBitmapRaw ℕ) : Prop :=
  TableOf (fun _ cur v => 1 < v → cur = 0 ∨ u64 (v * sectorSize) + cur ≤ m) bs 0
    (bitmapBytes r.mSize r.mGranularity) r.mL1

theorem loadable_ftruncate {bs sectors size m : ℕ} {r : DirtyBitmapRaw ℕ} (hm : m ≤ f.size) :
    Loadable bs sectors (f.ftruncate m) size r ↔ Loadable bs sectors f size r ∧ Below bs m r := by
  constructor
  · intro h
    refine ⟨⟨h.mSize, h.room, h.granularity, h.readable.mono fun i cur v hv hlt => ?_⟩, h.readable⟩
    exact (hv hlt).imp_right fun hle => le_trans hle hm
  · rintro ⟨h, hbelow⟩
    exact ⟨h.mSize, h.room, h.granularity, hbelow⟩

/-- The elements of a block, when the file is cut behind it. -/
theorem elements_ftruncate {bs sectors m h : ℕ} {block : ℕ → UInt8} {rs : List (DirtyBitmapRaw ℕ)}
    (hm : m ≤ f.size) : Elements bs sectors (f.ftruncate m) block h rs ↔
      Elements bs sectors f block h rs ∧ ∀ r ∈ rs, Below bs m r := by
  constructor
  · intro helem
    induction helem with
    | stop room magic => exact ⟨.stop room magic, fun r hr => nomatch hr⟩
    | other room some magic rest ih => exact ⟨.other room some magic ih.1, ih.2⟩
    | bitmap room magic loadable rest ih =>
        obtain ⟨hload, hbelow⟩ := (loadable_ftruncate hm).mp loadable
        exact ⟨.bitmap room magic hload ih.1, List.forall_mem_cons.mpr ⟨hbelow, ih.2⟩⟩
  · rintro ⟨helem, hbelow⟩
    induction helem with
    | stop room magic => exact .stop room magic
    | other room some magic rest ih => exact .other room some magic (ih hbelow)
    | bitmap room magic loadable rest ih =>
        obtain ⟨hfirst, hrest⟩ := List.forall_mem_cons.mp hbelow
        exact .bitmap room magic ((loadable_ftruncate hm).mpr ⟨loadable, hfirst⟩) (ih hrest)

/-- The blocks of a table, in two files that agree on them. -/
theorem memTable_congr {bs bytes i : ℕ} {l : List ℕ}
    (h : TableOf (fun _ cur v => 1 < v → ∀ t < cur,
      g.byte (u64 (v * sectorSize) + t) = f.byte (u64 (v * sectorSize) + t)) bs i bytes l) :
    memTable heap g bs bytes l = memTable heap f bs bytes l := by
  induction l generalizing bytes i with
  | nil => rfl
  | cons v l ih =>
      rw [memTable, memTable, ih h.2]
      refine congrArg (· :: _) ?_
      unfold memEntry
      split
      case isTrue hv =>
        refine congrArg MemEntry.block (funext fun t => ?_)
        by_cases ht : t < min bs bytes
        · rw [overlay_of_mem (Nat.zero_le _) (by omega), overlay_of_mem (Nat.zero_le _) (by omega)]
          exact h.1 hv _ (by omega)
        · rw [overlay_of_ge (by omega), overlay_of_ge (by omega)]
      case isFalse => rfl

theorem hdr_ftruncate {m : ℕ} (hm : headerBytes ≤ m) : (f.ftruncate m).hdr = f.hdr :=
  PvdHeader.ofWords_congr fun i hi => f.word_ftruncate_of_lt (by
    simp only [headerBytes] at hm
    omega)

/-- The extension and its bitmaps end before byte `m`. -/
structure CbtBelow (md5 : List UInt8 → Sig) (f : File) (m : ℕ) : Prop where
  room : extStart f + blockSize f.hdr ≤ m
  bitmaps : ∀ rs, StoredCbt md5 f rs → ∀ r ∈ rs, Below (blockSize f.hdr) m r

section Truncate

variable {m : ℕ} {rs : List (DirtyBitmapRaw ℕ)}

/-- The head of a block and its sum depend on the bytes of the block. -/
theorem head_congr (md5 : List UInt8 → Sig) {bs : ℕ} {block block' : ℕ → UInt8}
    (hbs : checkBytes ≤ bs)
    (h : ∀ i < bs, block' i = block i) :
    rd64 block' 0 = rd64 block 0 ∧ checksum md5 bs block' = checksum md5 bs block ∧
      (rd32 block' 8, rd32 block' 12, rd32 block' 16, rd32 block' 20) =
        (rd32 block 8, rd32 block 12, rd32 block 16, rd32 block 20) := by
  have h32 {off : ℕ} (hoff : off + 4 ≤ bs) : rd32 block' off = rd32 block off :=
    rd32_congr fun i hi => h _ (by omega)
  simp only [checkBytes] at hbs
  refine ⟨rd64_congr fun i hi => h _ (by omega), ?_, ?_⟩
  · refine congrArg md5 (List.map_congr_left fun i hi => h _ ?_)
    have := List.mem_range.mp hi
    omega
  · rw [h32 (by omega), h32 (by omega), h32 (by omega), h32 (by omega)]

theorem storedCbt_ftruncate (hbs : checkBytes ≤ blockSize f.hdr) (hm : headerBytes ≤ m)
    (hle : m ≤ f.size) :
    StoredCbt md5 (f.ftruncate m) rs ↔ StoredCbt md5 f rs ∧ extStart f + blockSize f.hdr ≤ m ∧
      ∀ r ∈ rs, Below (blockSize f.hdr) m r := by
  have hhdr := hdr_ftruncate (f := f) hm
  have hstart : extStart (f.ftruncate m) = extStart f := by rw [extStart, hhdr, extStart]
  have hbyte (hroom : extStart f + blockSize f.hdr ≤ m) {i : ℕ} (hi : i < blockSize f.hdr) :
      (f.ftruncate m).byte (extStart f + i) = f.byte (extStart f + i) :=
    f.byte_ftruncate_of_lt (by omega)
  constructor
  · intro h
    have hroom : extStart f + blockSize f.hdr ≤ m := by
      have := h.room
      rwa [hstart, hhdr] at this
    obtain ⟨hmagic, hsum, hwords⟩ := head_congr md5 hbs fun i hi => hbyte hroom hi
    have helem := h.elements
    rw [hstart, hhdr] at helem
    obtain ⟨helem, hbelow⟩ := (elements_ftruncate hle).mp helem
    refine ⟨⟨?_, ?_, hroom.trans hle, ?_, ?_, ?_⟩, hroom, hbelow⟩
    · rw [← hhdr]
      exact h.ext
    · rw [← hhdr]
      exact h.closed
    · rw [← hmagic, ← hstart]
      exact h.magic
    · rw [← hsum, ← hwords, ← hstart, ← hhdr]
      exact h.sum
    · exact helem.congr fun i _ hi => (hbyte hroom hi).symm
  · rintro ⟨h, hroom, hbelow⟩
    obtain ⟨hmagic, hsum, hwords⟩ := head_congr md5 hbs fun i hi => hbyte hroom hi
    refine ⟨?_, ?_, ?_, ?_, ?_, ?_⟩
    · rw [hhdr]
      exact h.ext
    · rw [hhdr]
      exact h.closed
    · rwa [hstart, hhdr]
    · rw [hstart, hmagic]
      exact h.magic
    · rw [hstart, hhdr, hsum, hwords]
      exact h.sum
    · rw [hstart, hhdr]
      exact (elements_ftruncate hle).mpr
        ⟨h.elements.congr fun i _ hi => hbyte hroom hi, hbelow⟩

theorem inMemory_ftruncate {r : DirtyBitmapRaw ℕ} {bs : ℕ} (h : Below bs m r) :
    r.inMemory heap (f.ftruncate m) bs = r.inMemory heap f bs := by
  have htable : memTable heap (f.ftruncate m) bs (bitmapBytes r.mSize r.mGranularity) r.mL1 =
      memTable heap f bs (bitmapBytes r.mSize r.mGranularity) r.mL1 := by
    refine memTable_congr (h.mono fun i cur v hv hlt t ht => f.byte_ftruncate_of_lt ?_)
    rcases hv hlt with hzero | hle <;> omega
  rw [DirtyBitmapRaw.inMemory, htable, DirtyBitmapRaw.inMemory]

/-- A file is loaded as before if nothing of its bitmap is cut off. -/
theorem loadsCbt_ftruncate {raw : DirtyBitmapRaw MemEntry} (hbs : checkBytes ≤ blockSize f.hdr)
    (hm : headerBytes ≤ m) (hle : m ≤ f.size) (hbelow : CbtBelow md5 f m)
    (h : LoadsCbt md5 heap f raw) : LoadsCbt md5 heap (f.ftruncate m) raw := by
  obtain ⟨rs, r, hrs, hlast, rfl⟩ := loadsCbt_iff.mp h
  have hr := hbelow.bitmaps rs hrs r (List.mem_of_getLast? hlast)
  refine loadsCbt_iff.mpr ⟨rs, r, ?_, hlast, ?_⟩
  · exact (storedCbt_ftruncate hbs hm hle).mpr ⟨hrs, hbelow.room, hbelow.bitmaps rs hrs⟩
  · rw [hdr_ftruncate hm, inMemory_ftruncate hr]

theorem cbtBelow_of_loads {raw : DirtyBitmapRaw MemEntry} (hbs : checkBytes ≤ blockSize f.hdr)
    (hm : headerBytes ≤ m) (hle : m ≤ f.size) (h : LoadsCbt md5 heap (f.ftruncate m) raw) :
    CbtBelow md5 f m := by
  obtain ⟨rs, r, hrs, -⟩ := loadsCbt_iff.mp h
  obtain ⟨hrs, hroom, hbelow⟩ := (storedCbt_ftruncate hbs hm hle).mp hrs
  refine ⟨hroom, fun rs' hrs' => ?_⟩
  rwa [← hrs.unique hrs']

/-- A bitmap that is stored in the file ends in the file. -/
theorem cbtBelow_of_size_le {raw : DirtyBitmapRaw MemEntry} (hle : f.size ≤ m)
    (h : LoadsCbt md5 heap f raw) : CbtBelow md5 f m := by
  obtain ⟨rs, r, hrs, -⟩ := loadsCbt_iff.mp h
  refine ⟨hrs.room.trans hle, fun rs' hrs' r' hr' => ?_⟩
  obtain ⟨size, hload⟩ := hrs'.elements.loadable hr'
  exact hload.readable.mono fun i cur v hv hlt => (hv hlt).imp_right fun h => h.trans hle

end Truncate

theorem LoadsCbt.closed {raw : DirtyBitmapRaw MemEntry} (h : LoadsCbt md5 heap f raw) :
    formatExtensionOffset f.hdr ≠ 0 ∧ f.hdr.mDiskInUse = signatureDiskClosedV21 := by
  obtain ⟨rs, r, hrs, -⟩ := loadsCbt_iff.mp h
  exact ⟨hrs.ext, hrs.closed⟩

end Ploop.Cbt
