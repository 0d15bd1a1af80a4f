import Ploop.Image.Delta
import Ploop.Lib.Indirection

/-!
# What an image means

The header fixes a layout; under a layout the table sends clusters of the
virtual disk to blocks of the file. An image is well formed when its header is
valid, its table has room, every entry names a data block of the file, no
block is named twice, and the slots past the disk are zero.
-/

namespace Storage.File

/-- The header a file starts with. -/
def hdr (f : File) : Ploop.PvdHeader := Ploop.PvdHeader.ofWords f.word

end Storage.File

namespace Ploop

open Storage Indirection

/-- The numbers `open_delta` computes from a header. -/
@[ext] structure Layout where
  version : FmtVersion
  blocksize : ℕ
  l1Size : ℕ
  l2Size : ℕ

def PvdHeader.layout (vh : PvdHeader) : Layout where
  version := (ploop1Version vh).getD .v1
  blocksize := vh.mSectors.toNat
  l1Size := vh.mFirstBlockOffset.toNat / vh.mSectors.toNat
  l2Size := getSizeInSectors vh / vh.mSectors.toNat

namespace Layout

variable (L : Layout)

def cluster : ℕ := s2b L.blocksize

/-- # slots in one cluster of the table. -/
def slots : ℕ := L.cluster / 4

def entry (f : File) (clu : ℕ) : UInt32 := f.word (clu + mapOffset)

def bat (f : File) : ℕ → Option ℕ := fun clu =>
  if clu < L.l2Size ∧ entry f clu ≠ 0 then
    some (ioffToSec (entry f clu) L.blocksize L.version / L.blocksize)
  else none

/-- The bytes of block `b`. -/
def block (f : File) (b : ℕ) : ℕ → UInt8 := fun j =>
  if j < L.cluster then f.byte (b * L.cluster + j) else 0

/-- What cluster `clu` of the virtual disk reads; `none` is unallocated. -/
def readClu (f : File) : ℕ → Option (ℕ → UInt8) := read (L.bat f) (L.block f)

structure TableOk (f : File) : Prop where
  aligned : ∀ clu < L.l2Size, L.blocksize ∣ ioffToSec (entry f clu) L.blocksize L.version
  inData : ∀ clu b, L.bat f clu = some b → L.l1Size ≤ b ∧ b < f.size / L.cluster
  oneToOne : OneToOne (L.bat f)
  unused : ∀ s, L.l2Size ≤ s → s + mapOffset < L.l1Size * L.slots → entry f s = 0

/-- The table has a slot for every cluster. -/
structure Valid : Prop where
  blocksize : isValidBlocksize L.blocksize
  room : L.l2Size + mapOffset ≤ L.l1Size * L.slots

end Layout

structure PvdHeader.Valid (vh : PvdHeader) : Prop where
  version : (ploop1Version vh).isSome
  type : vh.mType = prlImageCompressed
  aligned : vh.mFirstBlockOffset.toNat % vh.mSectors.toNat = 0
  layout : vh.layout.Valid

structure WellFormed (f : File) : Prop where
  header : f.hdr.Valid
  table : f.hdr.layout.TableOk f

/-- The virtual disk an image holds. -/
def content (f : File) : ℕ → Option (ℕ → UInt8) := f.hdr.layout.readClu f

/-- Every entry of the table and every data block is as before. -/
structure Unchanged (f f' : File) : Prop where
  layout : f'.hdr.layout = f.hdr.layout
  bat : ∀ clu, f.hdr.layout.bat f' clu = f.hdr.layout.bat f clu
  block : ∀ b, f.hdr.layout.l1Size ≤ b → b < f.size / f.hdr.layout.cluster →
    f.hdr.layout.block f' b = f.hdr.layout.block f b

/-! ## Entries -/

namespace Layout

variable (L : Layout)

/-- The entry that names block `b`. -/
def encode (b : ℕ) : UInt32 := secToIoff (b * L.blocksize) L.blocksize L.version

def encodeSlot : Option ℕ → UInt32
  | none => 0
  | some b => L.encode b

/-- Block numbers whose entry fits its 32 bits. -/
def Fits (b : ℕ) : Prop :=
  match L.version with
  | .v1 => b * L.blocksize < 2 ^ 32
  | .v2 => b < 2 ^ 32

instance (b : ℕ) : Decidable (L.Fits b) := by
  unfold Fits
  cases L.version <;> infer_instance

variable {L}

theorem Fits.mono {b c : ℕ} (h : L.Fits b) (hc : c ≤ b) : L.Fits c := by
  unfold Fits at h ⊢
  cases hv : L.version with
  | v1 =>
      simp only [hv] at h ⊢
      exact lt_of_le_of_lt (Nat.mul_le_mul_right _ hc) h
  | v2 =>
      simp only [hv] at h ⊢
      omega

theorem ioffToSec_encode (hbs : 0 < L.blocksize) {b : ℕ} (h : L.Fits b) :
    ioffToSec (L.encode b) L.blocksize L.version = b * L.blocksize := by
  unfold Fits at h
  unfold encode
  cases hv : L.version with
  | v1 =>
      simp only [hv] at h
      exact UInt32.toNat_ofNat_of_lt' h
  | v2 =>
      simp only [hv] at h
      simp only [ioffToSec, secToIoff, Nat.mul_div_cancel _ hbs]
      rw [UInt32.toNat_ofNat_of_lt' h]

theorem encode_ne_zero (hbs : 0 < L.blocksize) {b : ℕ} (h : L.Fits b) (hb : b ≠ 0) :
    L.encode b ≠ 0 := by
  intro h0
  have h1 := ioffToSec_encode hbs h
  have h2 : ioffToSec 0 L.blocksize L.version = 0 := by
    cases L.version <;> simp [ioffToSec]
  rw [h0, h2] at h1
  have := Nat.mul_pos (Nat.pos_of_ne_zero hb) hbs
  omega

theorem ioffToSec_eq_zero (hbs : 0 < L.blocksize) {e : UInt32}
    (h : ioffToSec e L.blocksize L.version = 0) : e = 0 := by
  apply UInt32.toNat.inj
  cases hv : L.version with
  | v1 => simpa [ioffToSec, hv] using h
  | v2 =>
      have h' : e.toNat * L.blocksize = 0 := by simpa [ioffToSec, hv] using h
      rcases Nat.mul_eq_zero.mp h' with h' | h'
      · simpa using h'
      · omega

theorem encode_div (hbs : 0 < L.blocksize) {e : UInt32}
    (h : L.blocksize ∣ ioffToSec e L.blocksize L.version) :
    L.encode (ioffToSec e L.blocksize L.version / L.blocksize) = e := by
  unfold encode
  rw [Nat.div_mul_cancel h]
  cases hv : L.version with
  | v1 => simp [secToIoff, ioffToSec]
  | v2 => simp [secToIoff, ioffToSec, Nat.mul_div_cancel _ hbs]

theorem fits_div (hbs : 0 < L.blocksize) {e : UInt32}
    (h : L.blocksize ∣ ioffToSec e L.blocksize L.version) :
    L.Fits (ioffToSec e L.blocksize L.version / L.blocksize) := by
  have he := e.toNat_lt
  unfold Fits
  cases hv : L.version with
  | v1 =>
      rw [hv] at h
      have h' : L.blocksize ∣ e.toNat := h
      simpa only [ioffToSec, Nat.div_mul_cancel h'] using he
  | v2 => simpa [ioffToSec, Nat.mul_div_cancel _ hbs] using he

theorem encode_inj (hbs : 0 < L.blocksize) {b c : ℕ} (hb : L.Fits b) (hc : L.Fits c)
    (h : L.encode b = L.encode c) : b = c := by
  have h₁ := ioffToSec_encode hbs hb
  rw [h, ioffToSec_encode hbs hc] at h₁
  exact (Nat.eq_of_mul_eq_mul_right hbs h₁).symm

/-! ## The table -/

section Bat

variable {f g : File} {clu b : ℕ}

theorem bat_of_ge (h : L.l2Size ≤ clu) : L.bat f clu = none := by
  simp [bat, Nat.not_lt.mpr h]

theorem bat_lt (h : L.bat f clu = some b) : clu < L.l2Size := by
  by_contra hc
  rw [bat_of_ge (by omega)] at h
  exact Option.some_ne_none _ h.symm

theorem bat_eq_none (h : clu < L.l2Size) : L.bat f clu = none ↔ entry f clu = 0 := by
  simp [bat, h]

theorem bat_congr (h : clu < L.l2Size → entry g clu = entry f clu) : L.bat g clu = L.bat f clu := by
  by_cases hc : clu < L.l2Size
  · simp [bat, h hc]
  · rw [bat_of_ge (by omega), bat_of_ge (by omega)]

theorem bat_of_encode (hbs : 0 < L.blocksize) (hclu : clu < L.l2Size) (hb : L.Fits b)
    (h0 : b ≠ 0) (he : entry f clu = L.encode b) : L.bat f clu = some b := by
  have hne := encode_ne_zero hbs hb h0
  simp only [bat, hclu, he, ne_eq, hne, not_false_eq_true, and_self, if_true,
    ioffToSec_encode hbs hb, Nat.mul_div_cancel _ hbs]

theorem bat_of_encodeSlot (hbs : 0 < L.blocksize) (hclu : clu < L.l2Size) {o : Option ℕ}
    (ho : ∀ b, o = some b → L.Fits b ∧ b ≠ 0) (he : entry f clu = L.encodeSlot o) :
    L.bat f clu = o := by
  cases o with
  | none => exact (bat_eq_none hclu).mpr he
  | some b => exact bat_of_encode hbs hclu (ho b rfl).1 (ho b rfl).2 he

variable (hbs : 0 < L.blocksize) (hok : L.TableOk f)

include hbs hok

/-- An allocated slot holds the entry of its block. -/
theorem TableOk.entry_eq (h : L.bat f clu = some b) : entry f clu = L.encode b := by
  have hd := hok.aligned clu (bat_lt h)
  unfold bat at h
  split at h
  · obtain rfl := Option.some.inj h
    exact (encode_div hbs hd).symm
  · exact absurd h (by simp)

theorem TableOk.fits (h : L.bat f clu = some b) : L.Fits b := by
  have hd := hok.aligned clu (bat_lt h)
  unfold bat at h
  split at h
  · obtain rfl := Option.some.inj h
    exact fits_div hbs hd
  · exact absurd h (by simp)

theorem TableOk.sec_eq (h : L.bat f clu = some b) :
    ioffToSec (entry f clu) L.blocksize L.version = b * L.blocksize := by
  rw [hok.entry_eq hbs h, ioffToSec_encode hbs (hok.fits hbs h)]

/-- The slots hold the entries of the table and nothing else. -/
theorem TableOk.entry_slot (hclu : clu < L.l2Size) : entry f clu = L.encodeSlot (L.bat f clu) := by
  cases h : L.bat f clu with
  | none => exact (bat_eq_none hclu).mp h
  | some b => exact hok.entry_eq hbs h

end Bat

/-! ## Arithmetic of clusters -/

theorem slots_eq : L.slots = L.blocksize * 128 := by
  simp only [slots, cluster, s2b]
  omega

theorem cluster_eq : L.cluster = 4 * L.slots := by
  rw [slots_eq]
  simp only [cluster, s2b]
  omega

/-- Distinct blocks do not overlap. -/
theorem block_disjoint {b c j : ℕ} (hbc : b ≠ c) (hj : j < L.cluster) :
    b * L.cluster + j < c * L.cluster ∨ c * L.cluster + L.cluster ≤ b * L.cluster + j := by
  rcases Nat.lt_or_gt_of_ne hbc with h | h
  · left
    have := Nat.mul_le_mul_right L.cluster h
    rw [Nat.succ_mul] at this
    omega
  · right
    have := Nat.mul_le_mul_right L.cluster h
    rw [Nat.succ_mul] at this
    omega

/-- A slot of the table lies in the index area. -/
theorem slot_lt {s : ℕ} (hs : s + mapOffset < L.l1Size * L.slots) :
    4 * (s + mapOffset) + 4 ≤ L.l1Size * L.cluster := by
  have h : L.l1Size * L.cluster = 4 * (L.l1Size * L.slots) := by
    rw [cluster_eq]
    ring
  omega

/-- The words of a cluster of the table as it is read into memory. -/
theorem bytesWord_page (f : File) (p k : ℕ) :
    bytesWord (fun j => f.byte (p * L.cluster + j)) k = f.word (p * L.slots + k) := by
  apply bytesWord_congr
  intro j hj
  rw [cluster_eq]
  congr 1
  ring

section Valid

variable (hL : L.Valid)

include hL

theorem Valid.pos : 0 < L.blocksize := hL.blocksize.pos

theorem Valid.slots_pos : 0 < L.slots := by
  have := hL.pos
  rw [slots_eq]
  omega

theorem Valid.slots_gt : mapOffset < L.slots := by
  have := hL.blocksize.1
  rw [slots_eq, mapOffset]
  omega

theorem Valid.cluster_pos : 0 < L.cluster := by
  have := hL.slots_pos
  rw [cluster_eq]
  omega

theorem Valid.l1_pos : 0 < L.l1Size := by
  have := hL.room
  rcases Nat.eq_zero_or_pos L.l1Size with h | h
  · rw [h, mapOffset] at this
    omega
  · exact h

theorem Valid.clu_lt {clu : ℕ} (h : clu < L.l2Size) : clu + mapOffset < L.l1Size * L.slots := by
  have := hL.room
  omega

/-- Slots that give blocks of the file to different clusters make a sound table. -/
theorem Valid.tableOk_of_slots {f : File} {T : ℕ → Option ℕ}
    (hslot : ∀ s, s + mapOffset < L.l1Size * L.slots → entry f s = L.encodeSlot (T s))
    (hT : ∀ clu b, T clu = some b →
      clu < L.l2Size ∧ L.l1Size ≤ b ∧ L.Fits b ∧ b < f.size / L.cluster)
    (hone : OneToOne T) : L.bat f = T ∧ L.TableOk f := by
  have hne : ∀ clu b, T clu = some b → L.Fits b ∧ b ≠ 0 := by
    intro clu b hb
    have hpos := hL.l1_pos
    obtain ⟨-, hlow, hfits, -⟩ := hT clu b hb
    exact ⟨hfits, by omega⟩
  have hnone : ∀ s, L.l2Size ≤ s → T s = none := by
    intro s hs
    cases hb : T s with
    | none => rfl
    | some b => exact absurd (hT s b hb).1 (Nat.not_lt.mpr hs)
  have hbat : L.bat f = T := by
    funext clu
    by_cases hclu : clu < L.l2Size
    · exact bat_of_encodeSlot hL.pos hclu (hne clu) (hslot clu (hL.clu_lt hclu))
    · rw [hnone clu (Nat.not_lt.mp hclu), bat_of_ge (Nat.not_lt.mp hclu)]
  refine ⟨hbat, ⟨?_, ?_, hbat ▸ hone, ?_⟩⟩
  · intro clu hclu
    rw [hslot clu (hL.clu_lt hclu)]
    cases hb : T clu with
    | none => cases hv : L.version <;> simp [encodeSlot, ioffToSec]
    | some b =>
        rw [encodeSlot, ioffToSec_encode hL.pos (hne clu b hb).1]
        exact Dvd.intro_left b rfl
  · intro clu b hb
    rw [hbat] at hb
    exact ⟨(hT clu b hb).2.1, (hT clu b hb).2.2.2⟩
  · intro s hs hs'
    rw [hslot s hs', hnone s hs]
    rfl

end Valid

/-! ## Writes -/

section Writes

variable {f : File} {w : Write} {b : ℕ}

theorem block_congr {g : File} (h : ∀ j < L.cluster,
    g.byte (b * L.cluster + j) = f.byte (b * L.cluster + j)) : L.block g b = L.block f b := by
  funext j
  by_cases hj : j < L.cluster
  · simp [block, hj, h j hj]
  · simp [block, hj]

theorem block_pwrite_of_ne {c : ℕ} (src : ℕ → UInt8) (h : b ≠ c) :
    L.block (f.pwrite ⟨c * L.cluster, L.cluster, src⟩) b = L.block f b := by
  apply block_congr
  intro j hj
  rw [File.byte_pwrite]
  exact overlay_of_not_mem (block_disjoint h hj)

theorem block_pwrite_of_le (h : w.off + w.len ≤ b * L.cluster) :
    L.block (f.pwrite w) b = L.block f b := by
  apply block_congr
  intro j hj
  rw [File.byte_pwrite]
  exact overlay_of_ge (by omega)

theorem block_pwrite_self (c : ℕ) (src : ℕ → UInt8) :
    L.block (f.pwrite ⟨c * L.cluster, L.cluster, src⟩) c =
      fun j => if j < L.cluster then src j else 0 := by
  funext j
  by_cases hj : j < L.cluster
  · simp only [block, hj, if_true, File.byte_pwrite]
    rw [overlay_of_mem (by omega) (by omega)]
    simp
  · simp [block, hj]

theorem entry_pwrite_of_ge {s : ℕ} (hs : s + mapOffset < L.l1Size * L.slots)
    (h : L.l1Size * L.cluster ≤ w.off) : entry (f.pwrite w) s = entry f s := by
  have := slot_lt hs
  exact f.word_pwrite_of_not_mem (Or.inl (by omega))

end Writes

end Layout

/-! ## Generated headers -/

/-- The layout of a new disk of `size` sectors. -/
def newLayout (version : FmtVersion) (blocksize size : ℕ) : Layout where
  version := version
  blocksize := blocksize
  l1Size := indexBytes (size / blocksize) blocksize / s2b blocksize
  l2Size := size / blocksize

/-- Sizes the fields of a header have room for. -/
def Representable (version : FmtVersion) (blocksize size : ℕ) : Prop :=
  match version with
  | .v1 => size < 2 ^ 32
  | .v2 => size < 2 ^ 63 ∧ size / blocksize < 2 ^ 32

instance (version : FmtVersion) (blocksize size : ℕ) :
    Decidable (Representable version blocksize size) := by
  unfold Representable
  cases version <;> infer_instance

/-- What `generate_pvd_header` leaves in the fields that matter for the layout. -/
structure PvdHeader.GeneratedFor (version : FmtVersion) (blocksize size : ℕ) (vh : PvdHeader) :
    Prop where
  version : ploop1Version vh = some version
  type : vh.mType = prlImageCompressed
  sectors : vh.mSectors.toNat = blocksize
  sizeInSectors : getSizeInSectors vh = size
  firstBlock : vh.mFirstBlockOffset.toNat = u32 (indexBytes (size / blocksize) blocksize) / 512

section Generated

variable {version : FmtVersion} {blocksize size : ℕ} {vh : PvdHeader}

theorem Representable.lt (h : Representable version blocksize size) : size < 2 ^ 63 := by
  unfold Representable at h
  cases version <;> simp only at h <;> omega

theorem Representable.clusters_lt (h : Representable version blocksize size) :
    size / blocksize < 2 ^ 32 := by
  unfold Representable at h
  cases version with
  | v1 => exact lt_of_le_of_lt (Nat.div_le_self _ _) h
  | v2 => exact h.2

theorem Representable.mono {size' : ℕ} (h : Representable version blocksize size)
    (hle : size' ≤ size) : Representable version blocksize size' := by
  unfold Representable at h ⊢
  cases version with
  | v1 => exact lt_of_le_of_lt hle h
  | v2 => exact ⟨lt_of_le_of_lt hle h.1, lt_of_le_of_lt (Nat.div_le_div_right hle) h.2⟩

theorem getSizeInSectors_put (hr : Representable version blocksize size) (vh : PvdHeader)
    (h : ploop1Version (putSizeInSectors size vh version) = some version) :
    getSizeInSectors (putSizeInSectors size vh version) = size := by
  have hlt := hr.lt
  unfold getSizeInSectors
  rw [h]
  unfold Representable at hr
  cases version with
  | v1 => simpa [putSizeInSectors] using hr
  | v2 =>
      simp only [putSizeInSectors, PvdHeader.mSizeInSectorsV2, UInt32.toNat_ofNat']
      omega

theorem Representable.round (hr : Representable version blocksize size)
    (hbs : isValidBlocksize blocksize) (hdvd : blocksize ∣ size) :
    u64 (u64 (size + blocksize - 1) / blocksize * blocksize) = size := by
  have hpos := hbs.pos
  have hle := hbs.le
  have hlt := hr.lt
  have hround : (size + blocksize - 1) / blocksize * blocksize = size :=
    le_antisymm (alignUp_le hpos hdvd le_rfl) (le_alignUp hpos)
  rw [u64_of_lt (by omega : size + blocksize - 1 < 2 ^ 64), hround, u64_of_lt (by omega)]

/-- The size to fill is that of the index, modulo `2 ^ 32`. -/
theorem generatePvdHeader_fill (hbs : isValidBlocksize blocksize)
    (hr : Representable version blocksize size) (hdvd : blocksize ∣ size) :
    (generatePvdHeader vh size blocksize version).2
      = u32 (indexBytes (size / blocksize) blocksize) := by
  simp only [generatePvdHeader, hr.round hbs hdvd, UInt32.toNat_ofNat']
  exact sizeToFill_u32 hbs _

theorem generatePvdHeader_generatedFor (hbs : isValidBlocksize blocksize)
    (hr : Representable version blocksize size) (hdvd : blocksize ∣ size) :
    (generatePvdHeader vh size blocksize version).1.GeneratedFor version blocksize size := by
  have hpos := hbs.pos
  have hle := hbs.le
  have hlt := hr.lt
  have hround := hr.round hbs hdvd
  have hversion : ∀ vh', vh'.mSig = ploop1Signature version → ploop1Version vh' = some version :=
    fun _ => ploop1Version_eq_some.mpr
  refine ⟨hversion _ ?_, ?_, ?_, ?_, ?_⟩
  · cases version <;> rfl
  · cases version <;> rfl
  · simp only [generatePvdHeader, UInt32.toNat_ofNat']
    omega
  · have h := getSizeInSectors_put hr
      { vh with mSig := ploop1Signature version, mType := prlImageCompressed }
      (hversion _ (by cases version <;> rfl))
    refine Eq.trans ?_ h
    simp only [generatePvdHeader, hround]
    rfl
  · have hfill : (generatePvdHeader vh size blocksize version).2 = _ :=
      generatePvdHeader_fill hbs hr hdvd
    have hlt := u32_lt (indexBytes (size / blocksize) blocksize)
    rw [← hfill] at hlt ⊢
    exact UInt32.toNat_ofNat_of_lt' (lt_of_le_of_lt (Nat.div_le_self _ _) hlt)

namespace PvdHeader.GeneratedFor

variable (h : vh.GeneratedFor version blocksize size)

include h

theorem setFields (inUse flags : UInt32) :
    ({ vh with mDiskInUse := inUse, mFlags := flags } : PvdHeader).GeneratedFor
      version blocksize size :=
  ⟨h.version, h.type, h.sectors, h.sizeInSectors, h.firstBlock⟩

theorem l1Size_eq : vh.mFirstBlockOffset.toNat / vh.mSectors.toNat
    = u32 (indexBytes (size / blocksize) blocksize) / s2b blocksize := by
  rw [h.sectors, h.firstBlock, Nat.div_div_eq_div_mul, s2b, mul_comm]

theorem layout_eq_mod : vh.layout = { newLayout version blocksize size with
    l1Size := u32 (indexBytes (size / blocksize) blocksize) / s2b blocksize } := by
  ext
  · simp [PvdHeader.layout, newLayout, h.version]
  · exact h.sectors
  · exact h.l1Size_eq
  · simp [PvdHeader.layout, newLayout, h.sizeInSectors, h.sectors]

theorem layout_eq (hfit : IndexFits size blocksize) :
    vh.layout = newLayout version blocksize size := by
  rw [h.layout_eq_mod, u32_of_lt hfit]
  rfl

variable (hbs : isValidBlocksize blocksize)

include hbs

theorem valid (hfit : IndexFits size blocksize) : vh.Valid := by
  have hcpos : 0 < s2b blocksize := by
    have := hbs.pos
    simp only [s2b]
    omega
  have hle : headerBytes + 4 * (size / blocksize) ≤ indexBytes (size / blocksize) blocksize :=
    le_alignUp hcpos
  obtain ⟨q, hq⟩ : s2b blocksize ∣ indexBytes (size / blocksize) blocksize := dvd_alignUp
  have hbytes : s2b blocksize * q = 512 * (blocksize * q) := by simp only [s2b]; ring
  refine ⟨by simp [h.version], h.type, ?_, ?_⟩
  · rw [h.firstBlock, h.sectors, u32_of_lt hfit, hq, hbytes,
      Nat.mul_div_cancel_left _ (by norm_num)]
    exact Nat.mul_mod_right _ _
  · rw [h.layout_eq hfit]
    refine ⟨hbs, ?_⟩
    have hslots : q * (newLayout version blocksize size).slots = 128 * (blocksize * q) := by
      rw [Layout.slots_eq]
      simp only [newLayout]
      ring
    simp only [newLayout, hq, Nat.mul_div_cancel_left _ hcpos, headerBytes, mapOffset] at *
    omega

/-- Where the sums wrapped there is no room for the table. -/
theorem not_valid (hfit : ¬ IndexFits size blocksize) : ¬ vh.Valid := by
  intro hvalid
  have hcpos : 0 < s2b blocksize := by
    have := hbs.pos
    simp only [s2b]
    omega
  have hcle : s2b blocksize ≤ 2 ^ 26 := by
    have := hbs.le
    simp only [s2b]
    omega
  have hroom := hvalid.layout.room
  rw [h.layout_eq_mod, Layout.slots_eq] at hroom
  simp only [newLayout, mapOffset] at hroom
  have hlt : indexBytes (size / blocksize) blocksize
      < headerBytes + 4 * (size / blocksize) + s2b blocksize := alignUp_lt hcpos
  have hmul := Nat.div_mul_le_self (u32 (indexBytes (size / blocksize) blocksize)) (s2b blocksize)
  have hslots : u32 (indexBytes (size / blocksize) blocksize) / s2b blocksize * s2b blocksize
      = 4 * (u32 (indexBytes (size / blocksize) blocksize) / s2b blocksize
        * (blocksize * 128)) := by
    rw [show s2b blocksize = 4 * (blocksize * 128) by simp only [s2b]; omega]
    ring
  simp only [IndexFits, not_lt] at hfit
  simp only [u32, headerBytes] at *
  omega

end PvdHeader.GeneratedFor

end Generated

end Ploop
