import Ploop.Image.CheckValid
import Ploop.Image.Version

/-!
# Marked images

While an image is converted it is marked as in use, and by `CIF_FmtVersionConvert`. The marks
are two fields of the header that neither the table nor the disk depend on.
-/

namespace Ploop.Convert

open Storage Program

/-- `CIF_FmtVersionConvert` is set. -/
def Flagged (f : File) : Prop := f.hdr.mFlags &&& cifFmtVersionConvert ≠ 0

instance (f : File) : Decidable (Flagged f) := inferInstanceAs (Decidable (_ ≠ _))

/-- `y` is `f` but for its marks. -/
structure Marked (f y : File) : Prop where
  size : y.size = f.size
  hdr : y.hdr = { f.hdr with mFlags := y.hdr.mFlags, mDiskInUse := y.hdr.mDiskInUse }
  byte : ∀ i, headerBytes ≤ i → y.byte i = f.byte i

/-- `y` is fit to be converted, and holds the disk of `f`. -/
structure Rests (f y : File) : Prop where
  wellFormed : WellFormed y
  index : y.hdr.layout.l1Size * y.hdr.layout.cluster ≤ y.size
  small : y.hdr.layout.l1Size * y.hdr.layout.cluster ≤ 2 ^ 32
  clear : y.hdr.layout.version = .v1 → y.hdr.unused = 0
  blocksize : y.hdr.layout.blocksize = f.hdr.layout.blocksize
  disk : y.hdr.layout.l2Size = f.hdr.layout.l2Size
  content : content y = content f

section Marks

variable {f g y z : File} {v : UInt32}

theorem Marked.refl (f : File) : Marked f f := ⟨rfl, rfl, fun _ _ => rfl⟩

theorem Marked.trans (h : Marked f g) (h' : Marked g y) : Marked f y where
  size := h'.size.trans h.size
  hdr := by
    rw [h'.hdr, h.hdr]
  byte i hi := (h'.byte i hi).trans (h.byte i hi)

theorem Marked.layout (h : Marked f y) : y.hdr.layout = f.hdr.layout := by
  rw [h.hdr]
  rfl

theorem hdr_pwrite_flags (f : File) (v : UInt32) :
    (f.pwrite ⟨PvdHeader.offFlags, 4, wordBytes fun _ => v⟩).hdr
      = { f.hdr with mFlags := v } := by
  have hw : ∀ i < 16, (f.pwrite ⟨PvdHeader.offFlags, 4, wordBytes fun _ => v⟩).word i
      = if i = 13 then v else f.word i := by
    intro i hi
    split
    case isTrue h =>
      subst h
      rw [f.word_pwrite_of_mem (o := 13) rfl le_rfl (by norm_num [PvdHeader.offFlags])]
      simp
    case isFalse h =>
      exact f.word_pwrite_of_not_mem (by simp only [PvdHeader.offFlags]; omega)
  rw [File.hdr, PvdHeader.ofWords_congr hw]
  rfl

theorem marked_pwrite {o : ℕ} (hsize : headerBytes ≤ y.size) (ho : o + 4 ≤ headerBytes)
    (h : Marked f y) (hhdr : ∃ u w, (y.pwrite ⟨o, 4, wordBytes fun _ => v⟩).hdr =
      { y.hdr with mFlags := u, mDiskInUse := w }) :
    Marked f (y.pwrite ⟨o, 4, wordBytes fun _ => v⟩) := by
  obtain ⟨u, w, hhdr⟩ := hhdr
  refine h.trans ⟨File.size_pwrite_le (ho.trans hsize), ?_, fun i hi => ?_⟩
  · rw [hhdr]
  · rw [File.byte_pwrite, overlay_of_ge (ho.trans hi)]

theorem Marked.flags (h : Marked f y) (hsize : headerBytes ≤ f.size) :
    Marked f (y.pwrite ⟨PvdHeader.offFlags, 4, wordBytes fun _ => v⟩) :=
  marked_pwrite (h.size ▸ hsize) (by decide) h ⟨v, y.hdr.mDiskInUse, hdr_pwrite_flags y v⟩

theorem Marked.inUse (h : Marked f y) (hsize : headerBytes ≤ f.size) :
    Marked f (y.pwrite ⟨PvdHeader.offDiskInUse, 4, wordBytes fun _ => v⟩) :=
  marked_pwrite (h.size ▸ hsize) (by decide) h ⟨y.hdr.mFlags, v, hdr_pwrite_diskInUse y v⟩

theorem Marked.entry (h : Marked f y) (s : ℕ) : Layout.entry y s = Layout.entry f s :=
  bytesWord_congr fun k _ => h.byte _ (by simp only [headerBytes, mapOffset]; omega)

theorem Marked.wellFormed (h : Marked f y) (hf : WellFormed f) : WellFormed y := by
  have hlayout := h.layout
  have hbat : f.hdr.layout.bat y = f.hdr.layout.bat f := by
    funext clu
    exact Layout.bat_congr fun _ => h.entry clu
  have hvalid : y.hdr.Valid := by
    refine ⟨?_, ?_, ?_, hlayout ▸ hf.header.layout⟩ <;> rw [h.hdr]
    · exact hf.header.version
    · exact hf.header.type
    · exact hf.header.aligned
  refine ⟨hvalid, ?_⟩
  rw [hlayout]
  refine ⟨fun clu hclu => ?_, fun clu b hb => ?_, hbat ▸ hf.table.oneToOne, fun s hs hs' => ?_⟩
  · rw [h.entry]
    exact hf.table.aligned clu hclu
  · rw [hbat] at hb
    rw [h.size]
    exact hf.table.inData clu b hb
  · rw [h.entry]
    exact hf.table.unused s hs hs'

theorem Rests.marked (h : Rests f g) (hy : Marked g y) : Rests f y := by
  have hlayout := hy.layout
  refine ⟨hy.wellFormed h.wellFormed, ?_, ?_, ?_, ?_, ?_, ?_⟩
  · rw [hlayout, hy.size]
    exact h.index
  · rw [hlayout]
    exact h.small
  · rw [hlayout, hy.hdr]
    exact h.clear
  · rw [hlayout]
    exact h.blocksize
  · rw [hlayout]
    exact h.disk
  · exact (content_congr h.wellFormed hlayout fun i hi _ => hy.byte i hi).trans h.content

end Marks

/-! ## Images in the middle of a conversion -/

/-- The bytes that the table takes together with the header. -/
def indexEnd (f : File) : ℕ := f.hdr.layout.l1Size * f.hdr.layout.cluster

/-- Of the index of `f` anything may be left in `y`, of the header all but the signature. -/
structure Near (f y : File) : Prop where
  size : y.size = f.size
  version : (ploop1Version y.hdr).isSome
  hdr : y.hdr = { f.hdr with
    mSig := y.hdr.mSig, mFlags := y.hdr.mFlags, mDiskInUse := y.hdr.mDiskInUse }
  disk : y.hdr.layout.l2Size = f.hdr.layout.l2Size
  byte : ∀ i, indexEnd f ≤ i → y.byte i = f.byte i

/-- `b` is the index of `f`. -/
structure IsBackup (f b : File) : Prop where
  size : b.size = indexEnd f
  byte : ∀ i < indexEnd f, b.byte i = f.byte i

section Near

variable {f y b : File} {w : Write} {v : FmtVersion}

theorem header_le_index (hf : WellFormed f) : headerBytes ≤ indexEnd f :=
  (Held.of_wellFormed hf).header_le

theorem Marked.near (h : Marked f y) (hf : WellFormed f) : Near f y where
  size := h.size
  version := by
    rw [h.hdr]
    exact hf.header.version
  hdr := by
    rw [h.hdr]
  disk := congrArg Layout.l2Size h.layout
  byte i hi := h.byte i ((header_le_index hf).trans hi)

theorem Near.marked {g : File} (h : Near f g) (hf : WellFormed f) (hy : Marked g y) :
    Near f y where
  size := hy.size.trans h.size
  version := by
    rw [hy.hdr]
    exact h.version
  hdr := by
    rw [hy.hdr, h.hdr]
  disk := (congrArg Layout.l2Size hy.layout).trans h.disk
  byte i hi := (hy.byte i ((header_le_index hf).trans hi)).trans (h.byte i hi)

/-- A write to the table. -/
theorem Near.write (h : Near f y) (hindex : indexEnd f ≤ f.size) (hoff : headerBytes ≤ w.off)
    (hend : w.off + w.len ≤ indexEnd f) : Near f (y.pwrite w) where
  size := (File.size_pwrite_le (by rw [h.size]; omega)).trans h.size
  version := (hdr_pwrite_of_ge hoff).symm ▸ h.version
  hdr := (hdr_pwrite_of_ge hoff).symm ▸ h.hdr
  disk := (hdr_pwrite_of_ge hoff).symm ▸ h.disk
  byte i hi := by
    rw [File.byte_pwrite, overlay_of_ge (hend.trans hi)]
    exact h.byte i hi

/-- The size does not depend on the version as long as it fits both. -/
theorem size_sig (hf : WellFormed f) (hsize : v = .v1 → getSizeInSectors f.hdr < 2 ^ 32)
    (hclear : f.hdr.layout.version = .v1 → f.hdr.unused = 0) :
    getSizeInSectors { f.hdr with mSig := ploop1Signature v } = getSizeInSectors f.hdr := by
  have hnew : ploop1Version { f.hdr with mSig := ploop1Signature v } = some v :=
    ploop1Version_eq_some.mpr rfl
  have hold := version_eq hf
  unfold getSizeInSectors
  rw [hnew, hold]
  cases hver : f.hdr.layout.version with
  | v1 =>
      cases v with
      | v1 => rfl
      | v2 => simp [PvdHeader.mSizeInSectorsV2, hclear hver]
  | v2 =>
      cases v with
      | v1 =>
          have hlt := hsize rfl
          unfold getSizeInSectors at hlt
          rw [hold, hver] at hlt
          simp only [PvdHeader.mSizeInSectorsV2] at hlt
          have hzero : f.hdr.unused.toNat = 0 := by omega
          simp [PvdHeader.mSizeInSectorsV2, hzero]
      | v2 => rfl

/-- The signature of another version, in place of the one that is there. -/
theorem Near.sign (h : Near f y) (hf : WellFormed f) (hindex : indexEnd f ≤ f.size)
    (hsize : v = .v1 → getSizeInSectors f.hdr < 2 ^ 32)
    (hclear : f.hdr.layout.version = .v1 → f.hdr.unused = 0) : Near f (y.pwrite
      ⟨0, 16, wordBytes ({ PvdHeader.zero with mSig := ploop1Signature v }).toWords⟩) := by
  have hhead := header_le_index hf
  rw [headerBytes] at hhead
  have hhdr := hdr_pwrite_sig y v
  constructor
  · rw [File.size_pwrite_le (by rw [h.size]; simp only; omega), h.size]
  · rw [hhdr]
    exact Option.isSome_iff_exists.mpr ⟨v, ploop1Version_eq_some.mpr rfl⟩
  · rw [hhdr, h.hdr]
  · have hsame : getSizeInSectors { y.hdr with mSig := ploop1Signature v } =
        getSizeInSectors f.hdr := by
      rw [h.hdr]
      exact size_sig hf hsize hclear
    have hbs : y.hdr.mSectors = f.hdr.mSectors := by rw [h.hdr]
    rw [hhdr]
    change getSizeInSectors _ / y.hdr.mSectors.toNat = _
    rw [hsame, hbs]
    rfl
  · intro i hi
    rw [File.byte_pwrite, overlay_of_ge (by simp only; omega)]
    exact h.byte i hi

/-- An image can be opened in the middle of a conversion. -/
theorem Near.opens (h : Near f y) (hf : WellFormed f) (hsize : 4096 ≤ f.size) :
    ∃ d, openDelta y true = some d := by
  obtain ⟨version, hversion⟩ := Option.isSome_iff_exists.mp h.version
  apply openDelta_of hversion
  · rw [h.hdr]
    exact hf.header.type
  · rw [h.hdr]
    exact hf.header.layout.blocksize
  · rwa [h.size]
  · exact fun _ => rfl

theorem four_le_index (hf : WellFormed f) : 4096 ≤ indexEnd f := by
  have hL := hf.header.layout
  have hcluster : 4096 ≤ f.hdr.layout.cluster := by
    have hbs := hL.blocksize.1
    simp only [Layout.cluster, s2b]
    omega
  exact hcluster.trans (Nat.le_mul_of_pos_left _ hL.l1_pos)

theorem IsBackup.hdr (h : IsBackup f b) (hf : WellFormed f) : b.hdr = f.hdr := by
  have hhead := header_le_index hf
  rw [headerBytes] at hhead
  exact PvdHeader.ofWords_congr fun i hi => bytesWord_congr fun k hk => h.byte _ (by omega)

theorem IsBackup.opens (h : IsBackup f b) (hf : WellFormed f) :
    ∃ d, openDelta b true = some d := by
  have hhdr := h.hdr hf
  apply exists_openDelta (hhdr ▸ hf.header)
  · rw [h.size]
    exact four_le_index hf
  · exact fun _ => rfl

end Near

end Ploop.Convert
