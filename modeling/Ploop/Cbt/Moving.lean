import Ploop.Cbt.Stored
import Ploop.Cbt.Removal

/-!
# Moving a bitmap

`ploop_move_cbt` loads the bitmap of one image and saves it in another one. The second has
no extension here: what is moved can be loaded again if the sizes agree.
-/

namespace Ploop.Cbt

open Storage Program

/-- `write_optional_header_to_image_from_raw`; `none` is 0. -/
def writeOptionalHeaderToImageFromRaw (md5 : List UInt8 → Sig) (heap : ℕ → UInt8)
    (raw : DirtyBitmapRaw MemEntry) (img : File) : Option Sysexit × File :=
  match openDelta img false with
  | none => (some .open, img)
  | some d =>
      match deltaSaveOptionalHeader md5 heap (.memory raw) d with
      | .ok _ d => (none, d.file)
      | .error e d => (some e, d.file)

/-- `ploop_move_cbt`; the result is its exit code and what it leaves of `dst`. -/
def ploopMoveCbt (md5 : List UInt8 → Sig) (heap : ℕ → UInt8) (ptr : ℕ → ℕ) (dst src : File) :
    Option Sysexit × File :=
  match readOptionalHeaderFromImage md5 heap ptr ⟨false, false⟩ src with
  | (.error e, _) => (some e, dst)
  | (.ok ctx, _) =>
      match ctx.raw with
      | none => (none, dst)
      | some raw =>
          match removeOptionalHeaderFromImage md5 heap ptr dst with
          | (some e, dst) => (some e, dst)
          | (none, dst) => writeOptionalHeaderToImageFromRaw md5 heap raw dst

/-- Two bitmaps in memory with blocks of `bs` bytes that say the same. -/
structure SameCbt (bs : ℕ) (raw raw' : DirtyBitmapRaw MemEntry) : Prop where
  mSize : raw'.mSize = raw.mSize
  mId : raw'.mId = raw.mId
  mGranularity : raw'.mGranularity = raw.mGranularity
  dirty : ∀ g < 8 * bitmapBytes raw.mSize raw.mGranularity, raw'.dirty bs g = raw.dirty bs g

theorem SameCbt.trans {bs : ℕ} {raw raw' raw'' : DirtyBitmapRaw MemEntry} (h : SameCbt bs raw raw')
    (h' : SameCbt bs raw' raw'') : SameCbt bs raw raw'' where
  mSize := h'.mSize.trans h.mSize
  mId := h'.mId.trans h.mId
  mGranularity := h'.mGranularity.trans h.mGranularity
  dirty g hg := by
    refine (h'.dirty g ?_).trans (h.dirty g hg)
    rwa [h.mSize, h.mGranularity]

variable {md5 : List UInt8 → Sig} {heap heap' : ℕ → UInt8} {ptr : ℕ → ℕ} {f dst src : File}
  {raw : DirtyBitmapRaw MemEntry}

/-! ## What is loaded -/

section Loaded

variable {bs sectors h : ℕ} {block : ℕ → UInt8} {rs : List (DirtyBitmapRaw ℕ)}
  {r : DirtyBitmapRaw ℕ}

theorem rd64_lt (off : ℕ) : rd64 block off < 2 ^ 64 := by
  have hlo := (rd32 block off).toNat_lt
  have hhi := (rd32 block (off + 4)).toNat_lt
  unfold rd64
  omega

theorem readRaw_representable (pos : ℕ) : (readRaw block pos).Representable where
  mSize := rd64_lt _
  mGranularity := UInt32.toNat_lt _
  mL1 v hv := by
    obtain ⟨i, -, rfl⟩ := List.mem_map.mp hv
    exact rd64_lt _

theorem Elements.room (helem : Elements bs sectors f block h rs) : h + elementBytes ≤ bs := by
  cases helem <;> omega

/-- A bitmap is followed by another element at least. -/
theorem Elements.fits (helem : Elements bs sectors f block h rs) (hr : r ∈ rs) :
    r.Representable ∧
      h + elementBytes + rawBytes + 8 * r.mL1.length + elementBytes ≤ bs := by
  induction helem with
  | stop => exact absurd hr (List.not_mem_nil)
  | other room some magic rest ih =>
      have hrest := ih hr
      exact ⟨hrest.1, by omega⟩
  | bitmap room magic loadable rest ih =>
      rcases List.mem_cons.mp hr with rfl | hr
      · have hroom := loadable.room
        have hnext := rest.room
        exact ⟨readRaw_representable _, by omega⟩
      · have hrest := ih hr
        exact ⟨hrest.1, by omega⟩

/-- The uninitialised memory behind a bitmap does not matter. -/
theorem sameCbt_of_loads {raw' : DirtyBitmapRaw MemEntry} (hbs : 0 < blockSize f.hdr)
    (hload : LoadsCbt md5 heap f raw) (hload' : LoadsCbt md5 heap' f raw') :
    SameCbt (blockSize f.hdr) raw raw' := by
  obtain ⟨rs, r, hrs, hlast, rfl⟩ := loadsCbt_iff.mp hload
  obtain ⟨rs', r', hrs', hlast', rfl⟩ := loadsCbt_iff.mp hload'
  obtain rfl := hrs.unique hrs'
  obtain rfl := Option.some.inj (hlast.symm.trans hlast')
  refine ⟨rfl, rfl, rfl, fun g hg => ?_⟩
  have hg' : g < 8 * bitmapBytes r.mSize r.mGranularity := hg
  rw [dirty_inMemory hbs r hg', dirty_inMemory hbs r hg']

/-- A bitmap is loaded whatever the memory holds. -/
theorem LoadsCbt.any (hload : LoadsCbt md5 heap f raw) (heap' : ℕ → UInt8) :
    ∃ raw', LoadsCbt md5 heap' f raw' := by
  obtain ⟨rs, r, hrs, hlast, -⟩ := loadsCbt_iff.mp hload
  exact ⟨_, loadsCbt_iff.mpr ⟨rs, r, hrs, hlast, rfl⟩⟩

end Loaded

/-! ## Any table in memory -/

section Table

variable {bs bytes : ℕ}

/-- A table is right for the bits it has. -/
theorem tableOf_dirty (hbs : 0 < bs) :
    TableOf (MemStored (raw.dirty bs) bs) bs 0 bytes raw.mL1 := by
  refine TableOf.of_get fun i v hv => ?_
  rw [Nat.zero_add]
  have hsplit : ∀ t < bs, ∀ j < 8, (8 * (i * bs + t) + j) / (8 * bs) = i ∧
      (8 * (i * bs + t) + j) % (8 * bs) = 8 * t + j := by
    intro t ht j hj
    have heq : 8 * (i * bs + t) + j = 8 * bs * i + (8 * t + j) := by ring
    have hlt : 8 * t + j < 8 * bs := by omega
    rw [heq]
    exact ⟨by rw [Nat.mul_add_div (by omega), Nat.div_eq_of_lt hlt, Nat.add_zero],
      by rw [Nat.mul_add_mod, Nat.mod_eq_of_lt hlt]⟩
  cases v with
  | const c =>
      refine .const fun t ht => ?_
      have hbits : packByte (raw.dirty bs) (i * bs + t) = packByte (fun _ => c) 0 := by
        refine packByte_congr fun j hj => ?_
        rw [DirtyBitmapRaw.dirty, (hsplit t (by omega) j hj).1, hv]
      rw [hbits]
      cases c <;> rfl
  | block m =>
      refine .block fun t ht => ?_
      have hbits : packByte (raw.dirty bs) (i * bs + t) = packByte (testBit m) t := by
        refine packByte_congr fun j hj => ?_
        obtain ⟨hdiv, hmod⟩ := hsplit t (by omega) j hj
        rw [DirtyBitmapRaw.dirty, hdiv, hv, hmod]
      rw [hbits, packByte_testBit]

end Table

/-! ## Saving it -/

section Save

variable {d : Delta}

theorem saveMemory_spec (hpos : 0 < blockSize d.hdr0)
    (hroom : Room (deltaSink hpos) raw.mL1.length d) (bytes : ℕ) :
    Triple (fun s => s = d) (deltaSaveOptionalHeader md5 heap (.memory raw))
      (fun _ s => ∃ ext l,
        Extended md5 d.hdr0 ext ⟨raw.mSize, raw.mId, raw.mGranularity, l⟩ (fun _ => 0) s.file ∧
        l.length = raw.mL1.length ∧ TableOf (Stored (raw.dirty (blockSize d.hdr0))
          (blockSize d.hdr0) s.file s.file.size) (blockSize d.hdr0) 0 bytes l)
      (fun _ => False) := by
  refine Triple.bind (R := fun saved s => ∃ l ms,
    saved = some ⟨raw.mSize, raw.mId, raw.mGranularity, l⟩ ∧ s = (deltaSink hpos).puts d ms ∧
      ms.length ≤ raw.mL1.length ∧ l.length = raw.mL1.length ∧
      TableOf (Stored (raw.dirty (blockSize d.hdr0)) (blockSize d.hdr0) s.file s.file.size)
        (blockSize d.hdr0) 0 bytes l) ?_ fun saved => Triple.start fun s hs => ?_
  · refine Triple.look fun s hs => ?_
    subst hs
    have htable : TableOf (MemStored (raw.dirty (blockSize s.hdr0)) (blockSize s.hdr0))
      (blockSize s.hdr0) 0 bytes raw.mL1 := tableOf_dirty hpos
    refine Triple.bind (saveFromRaw_spec hpos (sector_dvd s) _ hroom htable)
      fun l => Triple.ret fun t ht => ?_
    obtain ⟨ms, rfl, hlen⟩ := ht.puts
    exact ⟨l, ms, rfl, rfl, hlen, ht.length, ht.table⟩
  · obtain ⟨l, ms, rfl, rfl, hlen, hl, htable⟩ := hs
    refine (writeExtension_puts hpos (hroom.mono hlen) _).conseq (fun _ hs => hs)
      (fun _ t ht => ?_) fun _ hs => hs
    obtain ⟨hkept, -, ext, hextended⟩ := ht
    exact ⟨ext, l, hextended, hl, htable.mono fun _ _ _ => Stored.kept hkept hkept.size⟩

end Save

/-- A file with one bitmap in its extension. -/
theorem loads_extended {vh : PvdHeader} {ext : ℕ} {r : DirtyBitmapRaw ℕ}
    (he : Extended md5 vh ext r (fun _ => 0) f) (hrep : r.Representable)
    (hload : Loadable (blockSize vh) vh.mSizeInSectorsV2 f (rawBytes + 8 * r.mL1.length) r)
    (hroom : usedBytes r.mL1.length + elementBytes ≤ blockSize vh) (hbs : blockSize vh < 2 ^ 32) :
    LoadsCbt md5 heap f (r.inMemory heap f (blockSize vh)) := by
  have hmin : checkBytes + 56 ≤ blockSize vh := by
    simp only [usedBytes, checkBytes, elementBytes, rawBytes] at *
    omega
  have hlen : rawBytes + 8 * r.mL1.length < 2 ^ 32 := by
    simp only [usedBytes] at hroom
    omega
  have helem : Elements (blockSize vh) vh.mSizeInSectorsV2 f
      (fun i => f.byte (ext * sectorSize + i)) checkBytes [r] := by
    refine (elements_block he.block ?_ hbs hlen hrep).mpr ⟨?_, hload, [], rfl, ?_⟩
    · simp only [checkBytes] at hmin
      omega
    · omega
    · exact (elements_zero _).mpr ⟨rfl, hroom⟩
  obtain ⟨ctx, s, hrun, -, rs, hrs, hraw⟩ := ((load_extended (e := opened f) he rfl (by omega)
    heap).conseq (fun _ hs => hs) (fun _ _ hs => hs) fun _ hs => hs _ helem).exists_ok rfl
  refine ⟨ctx, s, hrun, ?_⟩
  rw [hraw, hrs.unique helem]
  rfl

/-- What the saved table gives when it is loaded. -/
theorem sameCbt_saved {bs n : ℕ} {l : List ℕ} (hbs : 0 < bs) (hlen : l.length = raw.mL1.length)
    (htable : TableOf (Stored (raw.dirty bs) bs f n) bs 0
      (bitmapBytes raw.mSize raw.mGranularity) l) :
    SameCbt bs raw ((⟨raw.mSize, raw.mId, raw.mGranularity, l⟩ : DirtyBitmapRaw ℕ).inMemory
      heap f bs) := by
  refine ⟨rfl, rfl, rfl, fun g hg => ?_⟩
  by_cases hj : g / (8 * bs) < l.length
  · exact dirty_of_entry hbs (memTable_length.symm ▸ hj) (htable.memTable heap) hg
  · have hnone : raw.mL1[g / (8 * bs)]? = none := List.getElem?_eq_none (by omega)
    have hnone' : (memTable heap f bs (bitmapBytes raw.mSize raw.mGranularity) l)[g / (8 * bs)]? =
        none := List.getElem?_eq_none (by rw [memTable_length]; omega)
    simp only [DirtyBitmapRaw.dirty, DirtyBitmapRaw.inMemory, hnone, hnone']

/-! ## Moving it -/

section Move

theorem readOptionalHeader_eq (ptr : ℕ → ℕ) (hopen : ∃ e, openDelta src true = some e)
    (hload : LoadsCbt md5 heap src raw) : ∃ ctx,
      readOptionalHeaderFromImage md5 heap ptr ⟨false, false⟩ src = (.ok ctx, src) ∧
        ctx.raw = some raw := by
  obtain ⟨e, hopen⟩ := hopen
  obtain ⟨rs, r, hrs, hlast, hraw⟩ := loadsCbt_iff.mp hload
  have hat := openDelta_spec hopen
  obtain rfl : e.file = src := congrArg Disk.file hat.disk
  obtain ⟨ctx, s, hrun, rfl, hctx⟩ := ((@load_spec_file md5 heap e hat.hdr0).conseq
    (fun _ hs => hs) (fun _ _ hs => hs) fun _ hs => hs rs hrs).exists_ok rfl
  refine ⟨ctx, ?_, (hctx raw).mpr ⟨rs, r, hrs, hlast, hraw⟩⟩
  unfold readOptionalHeaderFromImage
  rw [hopen]
  dsimp only
  rw [deltaLoadOptionalHeaderWith_none, hrun]

theorem loads_of_readOptionalHeader {ctx : ExtContext} {g : File}
    (h : readOptionalHeaderFromImage md5 heap ptr ⟨false, false⟩ src = (.ok ctx, g))
    (hraw : ctx.raw = some raw) : LoadsCbt md5 heap src raw := by
  unfold readOptionalHeaderFromImage at h
  cases hopen : openDelta src true with
  | none =>
      rw [hopen] at h
      exact absurd (Prod.mk.inj h).1 nofun
  | some e =>
      have hat := openDelta_spec hopen
      obtain rfl : e.file = src := congrArg Disk.file hat.disk
      rw [hopen] at h
      dsimp only at h
      rw [deltaLoadOptionalHeaderWith_none] at h
      cases hload : deltaLoadOptionalHeader md5 heap ExtContext.new e with
      | error er d =>
          rw [hload] at h
          exact absurd (Prod.mk.inj h).1 nofun
      | ok c d =>
          rw [hload] at h
          obtain rfl := Except.ok.inj (Prod.mk.inj h).1
          exact loadsCbt_iff.mpr ((((load_spec_file hat.hdr0).ok rfl hload).2 raw).mp hraw)

/-- If there is nothing to move, the other image stays as it is. -/
theorem ploopMoveCbt_nothing (h : ∀ raw, ¬ LoadsCbt md5 heap src raw) :
    (ploopMoveCbt md5 heap ptr dst src).2 = dst := by
  unfold ploopMoveCbt
  rcases hread : readOptionalHeaderFromImage md5 heap ptr ⟨false, false⟩ src with ⟨e | ctx, g⟩
  · rfl
  · dsimp only
    cases hraw : ctx.raw with
    | none => rfl
    | some raw => exact absurd (loads_of_readOptionalHeader hread hraw) (h raw)

/-- Nothing is to be removed from an image without an extension. -/
theorem removeOptionalHeader_closed (md5 : List UInt8 → Sig) (heap : ℕ → UInt8) (ptr : ℕ → ℕ)
    (hopen : ∃ e, openDelta dst true = some e)
    (hclosed : dst.hdr.mDiskInUse = signatureDiskClosedV20) :
    removeOptionalHeaderFromImage md5 heap ptr dst = (none, dst) := by
  obtain ⟨e, hopen⟩ := hopen
  have hat := openDelta_spec hopen
  have hfile : e.file = dst := congrArg Disk.file hat.disk
  have hrun : deltaLoadOptionalHeaderWith ⟨true, false⟩ ptr md5 heap ExtContext.new e =
      .ok ExtContext.new e := by
    unfold deltaLoadOptionalHeaderWith
    rw [get_bind_run, hat.hdr0, if_pos (.inr hclosed)]
    rfl
  unfold removeOptionalHeaderFromImage readOptionalHeaderFromImage
  rw [hopen]
  dsimp only
  rw [hrun]
  dsimp only
  rw [hfile]

theorem blockSize_of_open {d : Delta} {dirty : Bool} (h : openDelta f dirty = some d) :
    0 < blockSize f.hdr ∧ blockSize f.hdr ≤ 2 ^ 26 := by
  have hat := openDelta_spec h
  have hvalid : isValidBlocksize f.hdr.mSectors.toNat := by
    have hbs := hat.blocksize
    rw [hat.opened.blocksize] at hbs
    exact hbs
  have hlo := hvalid.pos
  have hhi := hvalid.le
  simp only [blockSize, s2b]
  omega

variable {d : Delta} (hsrc : ∃ e, openDelta src true = some e) (hdst : openDelta dst false = some d)
  (hclosed : dst.hdr.mDiskInUse = signatureDiskClosedV20)
  (hbs : blockSize dst.hdr = blockSize src.hdr) (haligned : sectorSize ∣ dst.size)
  (hhi : dst.size < 2 ^ 62)

include hsrc hdst hclosed hbs haligned hhi

/-- The bitmap is saved behind what the image has. -/
theorem ploopMoveCbt_saved (ptr : ℕ → ℕ) (hload : LoadsCbt md5 heap src raw) : ∃ g ext l,
    ploopMoveCbt md5 heap ptr dst src = (none, g) ∧
      Extended md5 dst.hdr ext ⟨raw.mSize, raw.mId, raw.mGranularity, l⟩ (fun _ => 0) g ∧
      l.length = raw.mL1.length ∧ TableOf (Stored (raw.dirty (blockSize dst.hdr))
        (blockSize dst.hdr) g g.size) (blockSize dst.hdr) 0
          (bitmapBytes raw.mSize raw.mGranularity) l := by
  have hat := openDelta_spec hdst
  have hfile : d.file = dst := congrArg Disk.file hat.disk
  obtain ⟨hpos, hle⟩ := blockSize_of_open hdst
  rw [← hat.hdr0] at hpos
  obtain ⟨ctx, hread, hctx⟩ := readOptionalHeader_eq ptr hsrc hload
  have hremove := removeOptionalHeader_closed md5 heap ptr (openDelta_allowDirty hdst) hclosed
  have hroom : Room (deltaSink hpos) raw.mL1.length d := by
    obtain ⟨rs, r, hrs, hlast, rfl⟩ := loadsCbt_iff.mp hload
    have hfits := (hrs.elements.fits (List.mem_of_getLast? hlast)).2
    have hlen : (r.inMemory heap src (blockSize src.hdr)).mL1.length = r.mL1.length :=
      memTable_length
    have hsize := openDelta_size hdst
    have hmul : r.mL1.length * blockSize dst.hdr ≤ 2 ^ 26 * 2 ^ 26 :=
      Nat.mul_le_mul (by omega) hle
    refine ⟨?_, ?_, ?_⟩
    · change sectorSize ∣ d.file.size
      rwa [hfile]
    · change 2 * sectorSize ≤ d.file.size
      rw [hfile]
      simp only [sectorSize]
      omega
    · change d.file.size + _ * blockSize d.hdr0 < 2 ^ 63
      rw [hfile, hat.hdr0, hlen]
      omega
  obtain ⟨⟨⟩, s, hrun, ext, l, he, hlen, htable⟩ := (@saveMemory_spec md5 heap _ _
    hpos hroom (bitmapBytes raw.mSize raw.mGranularity)).exists_ok rfl
  rw [hat.hdr0] at he htable
  refine ⟨s.file, ext, l, ?_, he, hlen, htable⟩
  unfold ploopMoveCbt
  rw [hread]
  dsimp only
  rw [hctx]
  dsimp only
  rw [hremove]
  dsimp only
  unfold writeOptionalHeaderToImageFromRaw
  rw [hdst]
  dsimp only
  rw [hrun]

/-- It is there if the sizes of the disks agree. -/
theorem ploopMoveCbt_loads (hload : LoadsCbt md5 heap src raw)
    (hsize : dst.hdr.mSizeInSectorsV2 = src.hdr.mSizeInSectorsV2) : ∃ g,
      ploopMoveCbt md5 heap ptr dst src = (none, g) ∧
        ∀ heap', ∃ raw', LoadsCbt md5 heap' g raw' ∧ SameCbt (blockSize src.hdr) raw raw' := by
  obtain ⟨g, ext, l, hrun, he, hlen, htable⟩ :=
    ploopMoveCbt_saved hsrc hdst hclosed hbs haligned hhi ptr hload
  obtain ⟨hpos, hle⟩ := blockSize_of_open hdst
  refine ⟨g, hrun, fun heap' => ⟨_, loads_extended he ?_ ?_ ?_ (by omega), ?_⟩⟩
  · obtain ⟨rs, r, hrs, hlast, rfl⟩ := loadsCbt_iff.mp hload
    have hrep := (hrs.elements.fits (List.mem_of_getLast? hlast)).1
    refine ⟨hrep.mSize, hrep.mGranularity, fun v hv => ?_⟩
    obtain ⟨j, hj⟩ := List.getElem?_of_mem hv
    exact (htable.get hj).lt
  · obtain ⟨rs, r, hrs, hlast, rfl⟩ := loadsCbt_iff.mp hload
    obtain ⟨size, hr⟩ := hrs.elements.loadable (List.mem_of_getLast? hlast)
    refine ⟨?_, le_rfl, hr.granularity, htable.mono fun _ _ _ => Stored.readable le_rfl⟩
    exact hr.mSize.trans hsize.symm
  · obtain ⟨rs, r, hrs, hlast, rfl⟩ := loadsCbt_iff.mp hload
    have hfits := (hrs.elements.fits (List.mem_of_getLast? hlast)).2
    have hmem : (r.inMemory heap src (blockSize src.hdr)).mL1.length = r.mL1.length :=
      memTable_length
    dsimp only
    rw [hlen, hmem, hbs]
    simp only [usedBytes]
    omega
  · rw [← hbs]
    exact sameCbt_saved hpos hlen htable

/-- And otherwise nothing can be loaded. -/
theorem ploopMoveCbt_mSize (hload : LoadsCbt md5 heap src raw) {raw' : DirtyBitmapRaw MemEntry}
    {heap' : ℕ → UInt8}
    (hload' : LoadsCbt md5 heap' (ploopMoveCbt md5 heap ptr dst src).2 raw')
    (hsame : raw'.mSize = raw.mSize) : dst.hdr.mSizeInSectorsV2 = src.hdr.mSizeInSectorsV2 := by
  obtain ⟨g, ext, l, hrun, he, -⟩ :=
    ploopMoveCbt_saved hsrc hdst hclosed hbs haligned hhi ptr hload
  rw [hrun] at hload'
  have hsize {f : File} {h : ℕ → UInt8} {r : DirtyBitmapRaw MemEntry} (hr : LoadsCbt md5 h f r) :
      r.mSize = f.hdr.mSizeInSectorsV2 := by
    obtain ⟨rs, r, hrs, hlast, rfl⟩ := loadsCbt_iff.mp hr
    obtain ⟨size, hr⟩ := hrs.elements.loadable (List.mem_of_getLast? hlast)
    exact hr.mSize
  rw [← hsize hload, ← hsame, hsize hload', he.hdr]
  rfl

end Move

end Ploop.Cbt
