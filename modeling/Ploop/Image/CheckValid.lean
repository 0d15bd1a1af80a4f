import Ploop.Image.Check
import Ploop.Image.Held

/-!
# Checking a well-formed image

No slot of a well-formed image is repaired, so the check can only cut the file
behind its last block in use and write a new header.
-/

namespace Ploop

open Storage Program

/-! ## The blocks in use -/

namespace Layout

variable {L : Layout} {f f' : File}

theorem Fits.lt (hpos : 0 < L.blocksize) {b : ℕ} (h : L.Fits b) : b < 2 ^ 32 := by
  unfold Fits at h
  cases hv : L.version with
  | v1 =>
      rw [hv] at h
      exact (Nat.le_mul_of_pos_right b hpos).trans_lt h
  | v2 =>
      rw [hv] at h
      exact h

/-- Blocks up to the last one that the first slots use. -/
def usedBlocks (L : Layout) (f : File) : ℕ → ℕ
  | 0 => L.l1Size
  | n + 1 => (L.bat f n).elim (L.usedBlocks f n) fun b => max (L.usedBlocks f n) (b + 1)

/-- All blocks up to the last one in use. -/
def used (L : Layout) (f : File) : ℕ := L.usedBlocks f L.l2Size

theorem usedBlocks_mono {m n : ℕ} (h : m ≤ n) : L.usedBlocks f m ≤ L.usedBlocks f n := by
  induction h with
  | refl => exact le_rfl
  | @step n _ ih =>
      apply ih.trans
      rw [usedBlocks]
      cases L.bat f n with
      | none => exact le_rfl
      | some b => exact le_max_left _ _

theorem l1Size_le_used : L.l1Size ≤ L.used f := usedBlocks_mono (m := 0) (Nat.zero_le _)

theorem lt_used {clu b : ℕ} (h : L.bat f clu = some b) : b < L.used f := by
  have hself : b < L.usedBlocks f (clu + 1) := by
    rw [usedBlocks, h, Option.elim_some]
    exact Nat.lt_of_lt_of_le b.lt_succ_self (le_max_right _ _)
  exact hself.trans_le (usedBlocks_mono (bat_lt h))

/-- The slots behind the disk use nothing. -/
theorem usedBlocks_of_ge {n : ℕ} (h : L.l2Size ≤ n) : L.usedBlocks f n = L.used f := by
  induction h with
  | refl => rfl
  | @step n hn ih => rw [usedBlocks, bat_of_ge hn, Option.elim_none, ih]

/-- The last block is in use. -/
theorem exists_of_lt_usedBlocks {m n : ℕ} (hl1 : L.l1Size ≤ m) (h : m < L.usedBlocks f n) :
    ∃ clu b, L.bat f clu = some b ∧ m ≤ b ∧ L.usedBlocks f n = b + 1 := by
  induction n with
  | zero => exact absurd (Nat.lt_of_lt_of_le h hl1) (lt_irrefl _)
  | succ n ih =>
      rw [usedBlocks] at h ⊢
      cases hb : L.bat f n with
      | none =>
          rw [hb, Option.elim_none] at h
          exact ih h
      | some b =>
          rw [hb, Option.elim_some] at h
          rw [Option.elim_some]
          rcases le_total (L.usedBlocks f n) (b + 1) with hle | hle
          · rw [max_eq_right hle] at h ⊢
            exact ⟨n, b, hb, Nat.le_of_lt_succ h, rfl⟩
          · rw [max_eq_left hle] at h ⊢
            exact ih h

end Layout

/-- The number of a block fits 32 bits, but not always the number of blocks. -/
theorem WellFormed.used_le {f : File} (hwf : WellFormed f) : f.hdr.layout.used f ≤ 2 ^ 32 := by
  by_contra hgt
  have hl1 : f.hdr.layout.l1Size ≤ 2 ^ 32 :=
    (Nat.div_le_self _ _).trans f.hdr.mFirstBlockOffset.toNat_lt.le
  obtain ⟨clu, b, hb, hle, -⟩ := Layout.exists_of_lt_usedBlocks hl1 (Nat.not_le.mp hgt)
  have hpos := hwf.header.layout.pos
  exact absurd ((hwf.table.fits hpos hb).lt hpos) (Nat.not_lt.mpr hle)

/-- The disk lies in the header, the index and the blocks in use. -/
theorem content_congr {f f' : File} (hwf : WellFormed f) (hlayout : f'.hdr.layout = f.hdr.layout)
    (hbyte : ∀ i, headerBytes ≤ i → i < f.hdr.layout.used f * f.hdr.layout.cluster →
      f'.byte i = f.byte i) : content f' = content f := by
  have hl1 : f.hdr.layout.l1Size * f.hdr.layout.cluster ≤
      f.hdr.layout.used f * f.hdr.layout.cluster := Nat.mul_le_mul_right _ Layout.l1Size_le_used
  have hbat : f.hdr.layout.bat f' = f.hdr.layout.bat f := by
    funext clu
    refine Layout.bat_congr fun hclu => bytesWord_congr fun t ht => hbyte _ ?_ ?_
    · simp only [headerBytes, mapOffset]
      omega
    · have := Layout.slot_lt (hwf.header.layout.clu_lt hclu)
      omega
  rw [content, hlayout]
  funext clu
  unfold Layout.readClu
  rw [hbat]
  refine Indirection.read_congr fun b hb => Layout.block_congr fun j hj => hbyte _ ?_ ?_
  · have hb' := Nat.mul_le_mul_right f.hdr.layout.cluster (hwf.table.inData clu b hb).1
    have := (Held.of_wellFormed hwf).header_le
    omega
  · have := Nat.mul_le_mul_right f.hdr.layout.cluster (Layout.lt_used hb)
    rw [Nat.succ_mul] at this
    omega

theorem PvdHeader.slots_lt (vh : PvdHeader) :
    vh.layout.l1Size * vh.layout.slots < 2 ^ 39 := by
  have hfirst := vh.mFirstBlockOffset.toNat_lt
  have hl1 : vh.layout.l1Size * vh.layout.blocksize ≤ vh.mFirstBlockOffset.toNat :=
    Nat.div_mul_le_self _ _
  rw [Layout.slots_eq, ← Nat.mul_assoc]
  omega

/-- The size of an image is far from the bound of its field. -/
theorem PvdHeader.Valid.size_lt {vh : PvdHeader} (h : vh.Valid) : getSizeInSectors vh < 2 ^ 63 := by
  have hle : vh.layout.blocksize ≤ 2 ^ 17 := h.layout.blocksize.le
  have hroom := h.layout.room
  have hslots := vh.slots_lt
  have hl2 : getSizeInSectors vh < (vh.layout.l2Size + 1) * vh.layout.blocksize :=
    (Nat.div_lt_iff_lt_mul h.layout.pos).mp (Nat.lt_succ_self _)
  have hsize : (vh.layout.l2Size + 1) * vh.layout.blocksize ≤ 2 ^ 39 * 2 ^ 17 :=
    Nat.mul_le_mul (by omega) hle
  omega

namespace Check

/-! ## One slot -/

section Valid

variable {f : File} {d : Desc} {version : FmtVersion} {s₀ : State}

/-- What `ploop_check` puts in its descriptor for the file `f`. -/
structure Describes (d : Desc) (f : File) : Prop where
  bdSize : d.bdSize = offT (getSizeInSectors f.hdr)
  size : d.size = f.size

theorem markBlock_of_unused {clu b : ℕ} (h : s₀.bmap b = false) :
    Triple (fun s => s = s₀) (markBlock d clu b)
      (fun _ s => s = { s₀ with bmap := Function.update s₀.bmap b true }) fun _ => False := by
  refine Triple.look fun s hs => ?_
  subst hs
  rw [h, if_neg Bool.false_ne_true]
  refine Triple.update fun t ht => ?_
  subst ht
  rfl

/-- A slot of a well-formed image is passed over. -/
theorem checkOneSlot_valid (hwf : WellFormed f) (hd : Describes d f)
    (hversion : f.hdr.layout.version = version) {clu b : ℕ}
    (hb : f.hdr.layout.bat f clu = some b) (hunused : d.check = true → s₀.bmap b = false) :
    Triple (fun s => s = s₀) (checkOneSlot d (u32 clu)
        (ioffToSec (Layout.entry f clu) f.hdr.layout.blocksize version) f.hdr.layout.blocksize
        version)
      (fun _ s => s = { s₀ with
        bmap := if d.check then Function.update s₀.bmap b true else s₀.bmap
        allocHead := max s₀.allocHead b }) fun _ => False := by
  have hpos := hwf.header.layout.pos
  have hsec := hwf.table.sec_eq hpos hb
  have hfits := hwf.table.fits hpos hb
  have hlog := hwf.header.layout.blocksize.ffs
  have hdata := (hwf.table.inData clu b hb).2
  rw [hversion] at hsec
  have hlt : b < 2 ^ 32 := hfits.lt hpos
  have hblock : u32 ((b * f.hdr.layout.blocksize) >>> (ffs f.hdr.layout.blocksize - 1)) = b := by
    rw [Nat.shiftRight_eq_div_pow, hlog, Nat.mul_div_cancel _ hpos, u32_of_lt hlt]
  have hinside : ¬ d.bdSize < u32 (u32 clu <<< (ffs f.hdr.layout.blocksize - 1)) := by
    have hclu : clu * f.hdr.layout.blocksize ≤ getSizeInSectors f.hdr :=
      (Nat.mul_le_mul_right _ (Layout.bat_lt hb).le).trans (Nat.div_mul_le_self _ _)
    have hshift : u32 (u32 clu <<< (ffs f.hdr.layout.blocksize - 1)) ≤
        clu * f.hdr.layout.blocksize := by
      rw [Nat.shiftLeft_eq, hlog]
      exact (Nat.mod_le _ _).trans (Nat.mul_le_mul_right _ (Nat.mod_le _ _))
    rw [hd.bdSize, offT, if_pos hwf.header.size_lt]
    omega
  have haligned : ¬ (version = .v1 ∧
      b * f.hdr.layout.blocksize % 2 ^ (ffs f.hdr.layout.blocksize - 1) ≠ 0) := by
    rw [hlog]
    exact fun h => h.2 (Nat.mul_mod_left _ _)
  have hend : ¬ d.size < b * s2b f.hdr.layout.blocksize + s2b f.hdr.layout.blocksize := by
    have hle : (b + 1) * f.hdr.layout.cluster ≤ f.size :=
      (Nat.mul_le_mul_right _ hdata).trans (Nat.div_mul_le_self _ _)
    rw [Nat.succ_mul] at hle
    rw [hd.size]
    exact Nat.not_lt.mpr hle
  unfold checkOneSlot
  dsimp only
  rw [hsec, hblock, if_neg hinside, if_neg haligned, if_neg hend]
  cases hcheck : d.check with
  | false =>
      rw [if_neg Bool.false_ne_true, if_neg Bool.false_ne_true]
      refine Triple.update fun t ht => ?_
      subst ht
      rfl
  | true =>
      rw [if_pos rfl, if_pos rfl]
      refine Triple.bind (markBlock_of_unused (hunused hcheck)) fun _ => ?_
      refine Triple.update fun t ht => ?_
      subst ht
      rfl

/-- The slots before `n` have been passed over. -/
structure Passed (f : File) (check : Bool) (n : ℕ) (s : State) : Prop where
  file : s.file = f
  clean : s.clean = true
  fatality : s.fatality = false
  allocHead : s.allocHead + 1 = f.hdr.layout.usedBlocks f n
  unmarked : check = true → ∀ clu b, n ≤ clu → f.hdr.layout.bat f clu = some b → s.bmap b = false

theorem slot_passed (hwf : WellFormed f) (hd : Describes d f)
    (hversion : f.hdr.layout.version = version) {k : ℕ}
    (hk : k + mapOffset < f.hdr.layout.l1Size * f.hdr.layout.slots) :
    Triple (Passed f d.check k) (if Layout.entry f k = 0 then pure () else
      checkOneSlot d (u32 k) (ioffToSec (Layout.entry f k) f.hdr.layout.blocksize version)
        f.hdr.layout.blocksize version) (fun _ => Passed f d.check (k + 1)) fun _ => False := by
  by_cases hentry : Layout.entry f k = 0
  · have hnone : f.hdr.layout.bat f k = none := by simp [Layout.bat, hentry]
    rw [if_pos hentry]
    refine Triple.ret fun s hs => { hs with
      allocHead := ?_
      unmarked := fun hcheck clu b hclu => hs.unmarked hcheck clu b (by omega) }
    rw [Layout.usedBlocks, hnone, Option.elim_none]
    exact hs.allocHead
  · have hclu : k < f.hdr.layout.l2Size := by
      by_contra hge
      exact hentry (hwf.table.unused k (Nat.not_lt.mp hge) hk)
    obtain ⟨b, hb⟩ : ∃ b, f.hdr.layout.bat f k = some b :=
      ⟨_, if_pos ⟨hclu, hentry⟩⟩
    rw [if_neg hentry]
    refine Triple.start fun s hs => (checkOneSlot_valid hwf hd hversion hb fun hcheck =>
      hs.unmarked hcheck k b le_rfl hb).conseq (fun _ ht => ht) (fun _ t ht => ?_) fun _ ht => ht
    subst ht
    refine ⟨hs.file, hs.clean, hs.fatality, ?_, fun hcheck clu c hc hclu => ?_⟩
    · have hhead := hs.allocHead
      rw [Layout.usedBlocks, hb, Option.elim_some, ← hhead]
      exact (Nat.succ_max_succ _ _).symm
    · have hne : c ≠ b := by
        rintro rfl
        have := hwf.table.oneToOne hb hclu
        omega
      dsimp only
      rw [if_pos hcheck, Function.update_of_ne hne]
      exact hs.unmarked hcheck clu c (by omega) hclu

theorem readSafe_spec {len off : ℕ} : Triple (fun s => s = s₀) (readSafe len off)
    (fun buf s => s = s₀ ∧ off + len ≤ s₀.file.size ∧ buf = fun i => s₀.file.byte (off + i))
    (fun s => s = s₀ ∧ s₀.file.size < off + len) := by
  refine Triple.look fun s hs => ?_
  subst hs
  cases hread : s.file.pread len off with
  | none =>
      refine Triple.raise fun t ht => ⟨ht, ?_⟩
      by_contra hle
      rw [File.pread, if_pos (Nat.not_lt.mp hle)] at hread
      cases hread
  | some buf =>
      exact Triple.ret fun t ht => ⟨ht, File.pread_eq_some.mp hread⟩

/-- The slots of one cluster of the index. -/
theorem slots_passed (hwf : WellFormed f) (hd : Describes d f)
    (hversion : f.hdr.layout.version = version) {i : ℕ} (hi : i < f.hdr.layout.l1Size) :
    Triple (Passed f d.check (i * f.hdr.layout.slots - mapOffset)) (forRange (fun j =>
      if bytesWord (fun t => f.byte (i * f.hdr.layout.cluster + t)) j = 0 then pure ()
      else checkOneSlot d (u32 (i * f.hdr.layout.slots + j - mapOffset))
        (ioffToSec (bytesWord (fun t => f.byte (i * f.hdr.layout.cluster + t)) j)
          f.hdr.layout.blocksize version) f.hdr.layout.blocksize version)
      (if i = 0 then mapOffset else 0) (f.hdr.layout.slots - if i = 0 then mapOffset else 0))
      (fun _ => Passed f d.check ((i + 1) * f.hdr.layout.slots - mapOffset)) fun _ => False := by
  have hslots := hwf.header.layout.slots_gt
  have hnext : (i + 1) * f.hdr.layout.slots ≤ f.hdr.layout.l1Size * f.hdr.layout.slots :=
    Nat.mul_le_mul_right _ hi
  have hsucc : (i + 1) * f.hdr.layout.slots = i * f.hdr.layout.slots + f.hdr.layout.slots :=
    Nat.succ_mul _ _
  have hfirst : i = 0 ∨ f.hdr.layout.slots ≤ i * f.hdr.layout.slots := by
    rcases Nat.eq_zero_or_pos i with h | h
    · exact .inl h
    · exact .inr (Nat.le_mul_of_pos_left _ h)
  generalize hskip : (if i = 0 then mapOffset else 0) = skip
  have hskip' : i * f.hdr.layout.slots + skip - mapOffset = i * f.hdr.layout.slots - mapOffset ∧
      skip ≤ f.hdr.layout.slots ∧ mapOffset ≤ i * f.hdr.layout.slots + skip := by
    rcases hfirst with h | h
    · rw [if_pos h] at hskip
      subst h
      omega
    · have : i ≠ 0 := by
        rintro rfl
        omega
      rw [if_neg this] at hskip
      omega
  obtain ⟨hstart, hle, hoff⟩ := hskip'
  refine (Triple.forRange (I := fun j => Passed f d.check (i * f.hdr.layout.slots + j - mapOffset))
    skip (f.hdr.layout.slots - skip) fun j hj hj' => ?_).conseq (fun s hs => ?_) (fun _ s hs => ?_)
      fun _ hs => hs
  rotate_left
  · rwa [hstart]
  · rwa [Nat.add_sub_cancel' hle, ← hsucc] at hs
  · have hk : i * f.hdr.layout.slots + j - mapOffset + mapOffset = i * f.hdr.layout.slots + j := by
      omega
    have hentry : bytesWord (fun t => f.byte (i * f.hdr.layout.cluster + t)) j =
        Layout.entry f (i * f.hdr.layout.slots + j - mapOffset) := by
      rw [Layout.bytesWord_page, Layout.entry, hk]
    have hj'' : i * f.hdr.layout.slots + (j + 1) - mapOffset =
        i * f.hdr.layout.slots + j - mapOffset + 1 := by
      omega
    rw [hentry, hj'']
    exact slot_passed hwf hd hversion (by omega)

theorem checkCluster_valid (hwf : WellFormed f) (hd : Describes d f)
    (hversion : f.hdr.layout.version = version) (inUse : Bool) {i : ℕ}
    (hi : i < f.hdr.layout.l1Size) :
    Triple (fun s => Passed f d.check (i * f.hdr.layout.slots - mapOffset) s ∧
        i * f.hdr.layout.cluster ≤ f.size) (checkCluster d f.hdr version inUse i)
      (fun _ s => Passed f d.check ((i + 1) * f.hdr.layout.slots - mapOffset) s ∧
        (i + 1) * f.hdr.layout.cluster ≤ f.size)
      (fun s => s.file = f ∧ f.size < (i + 1) * f.hdr.layout.cluster) := by
  have hslots := hwf.header.layout.slots_gt
  refine Triple.start fun s ⟨hs, hle⟩ => ?_
  have hfile := hs.file
  unfold checkCluster
  dsimp only
  refine Triple.bind (R := fun l2 t => t = s ∧ (i + 1) * f.hdr.layout.cluster ≤ f.size ∧
      l2 = fun j => f.byte (i * f.hdr.layout.cluster + j)) (readSafe_spec.conseq (fun _ ht => ht)
    (fun l2 t ht => ?_) fun t ht => ?_) fun l2 => Triple.start fun t ⟨ht, hend, hl2⟩ => ?_
  · rw [hfile] at ht
    rw [Nat.succ_mul]
    exact ht
  · rw [hfile] at ht
    rw [Nat.succ_mul]
    exact ⟨ht.1 ▸ hfile, ht.2⟩
  subst ht
  have hloop := slots_passed hwf hd hversion hi
  have hrest : Triple (fun u => u = t) (forRange (fun j =>
      if bytesWord l2 j = 0 then pure () else checkOneSlot d
        (u32 (i * f.hdr.layout.slots + j - mapOffset))
        (ioffToSec (bytesWord l2 j) f.hdr.layout.blocksize version) f.hdr.layout.blocksize version)
      (if i = 0 then mapOffset else 0) (f.hdr.layout.slots - if i = 0 then mapOffset else 0))
      (fun _ u => Passed f d.check ((i + 1) * f.hdr.layout.slots - mapOffset) u ∧
        (i + 1) * f.hdr.layout.cluster ≤ f.size)
      (fun u => u.file = f ∧ f.size < (i + 1) * f.hdr.layout.cluster) := by
    subst hl2
    exact hloop.conseq (fun u hu => hu ▸ hs) (fun _ u hu => ⟨hu, hend⟩) fun u hu => hu.elim
  split
  · refine Triple.bind (R := fun _ u => u = t) (Triple.update fun u hu => ?_) fun _ => hrest
    subst hu
    have hsame : u.file.pwrite ⟨i * f.hdr.layout.cluster, f.hdr.layout.cluster, l2⟩ = u.file := by
      rw [hl2, hfile]
      exact File.pwrite_self f (by rwa [Nat.succ_mul] at hend)
    exact congrArg (fun g => { u with file := g }) hsame
  · exact hrest

theorem indexLoop_valid (hwf : WellFormed f) (hd : Describes d f)
    (hversion : f.hdr.layout.version = version) (inUse : Bool) :
    Triple (Passed f d.check 0)
      (forRange (checkCluster d f.hdr version inUse) 0 f.hdr.layout.l1Size)
      (fun _ s => Passed f d.check (f.hdr.layout.l1Size * f.hdr.layout.slots - mapOffset) s ∧
        f.hdr.layout.l1Size * f.hdr.layout.cluster ≤ f.size)
      (fun s => s.file = f ∧ f.size < f.hdr.layout.l1Size * f.hdr.layout.cluster) := by
  refine (Triple.forRange (I := fun i s => Passed f d.check (i * f.hdr.layout.slots - mapOffset) s ∧
    i * f.hdr.layout.cluster ≤ f.size) 0 f.hdr.layout.l1Size fun i _ hi => ?_).conseq
      (fun s hs => ?_) (fun _ s hs => ?_) fun s hs => hs
  rotate_left
  · simpa using hs
  · simpa using hs
  · rw [Nat.zero_add] at hi
    refine (checkCluster_valid hwf hd hversion inUse hi).conseq (fun s hs => hs) (fun _ s hs => hs)
      fun s hs => ⟨hs.1, hs.2.trans_le (Nat.mul_le_mul_right _ hi)⟩

/-! ## The end of the check -/

/-- `m_Flags` as they should be with `n` blocks. -/
def flagsFor (vh : PvdHeader) (n : ℕ) : UInt32 :=
  if vh.layout.l1Size < n then vh.mFlags &&& ~~~cifEmpty else vh.mFlags ||| cifEmpty

/-- The file without what follows block `n`. -/
def cut (f : File) (n : ℕ) : File :=
  if n * f.hdr.layout.cluster < f.size then f.ftruncate (n * f.hdr.layout.cluster) else f

/-- The cut file with a new header. -/
def repaired (f : File) (n : ℕ) : File :=
  (cut f n).pwrite ⟨0, headerBytes, wordBytes
    ({ f.hdr with mDiskInUse := 0, mFlags := flagsFor f.hdr n }).toWords⟩

/-- What is left of `f`. A dirty image that stays dirty keeps its header. -/
def Finished (f : File) (s : State) : Prop :=
  if f.hdr.mDiskInUse = signatureDiskInUse then
    s.file = cut f (u32 (f.hdr.layout.used f)) ∨ s.file = repaired f (u32 (f.hdr.layout.used f))
  else if f.hdr.mFlags = flagsFor f.hdr (u32 (f.hdr.layout.used f)) then
    s.file = cut f (u32 (f.hdr.layout.used f))
  else s.file = repaired f (u32 (f.hdr.layout.used f))

/-- The header of the cut file. -/
theorem newHeader_valid {flags : Flags} :
    Triple (fun s => s.file = cut f (u32 (f.hdr.layout.used f)))
      (if f.hdr.mDiskInUse = signatureDiskInUse ∧ ¬ flags.dropInuse = true then throw .ploopinuse
      else if ¬ f.hdr.mDiskInUse = signatureDiskInUse ∧
          f.hdr.mFlags = flagsFor f.hdr (u32 (f.hdr.layout.used f)) then pure ()
      else writeSafe headerBytes 0 (wordBytes ({ f.hdr with
        mDiskInUse := 0, mFlags := flagsFor f.hdr (u32 (f.hdr.layout.used f)) }).toWords))
      (fun _ => Finished f) (Finished f) := by
  split
  case isTrue huse =>
    refine Triple.raise fun s hs => ?_
    rw [Finished, if_pos huse.1]
    exact .inl hs
  case isFalse huse =>
    split
    case isTrue hflags =>
      refine Triple.ret fun s hs => ?_
      rw [Finished, if_neg hflags.1, if_pos hflags.2]
      exact hs
    case isFalse hflags =>
      refine Triple.update fun s hs => ?_
      have hfile : s.file.pwrite ⟨0, headerBytes, wordBytes ({ f.hdr with
          mDiskInUse := 0, mFlags := flagsFor f.hdr (u32 (f.hdr.layout.used f)) }).toWords⟩ =
          repaired f (u32 (f.hdr.layout.used f)) := by
        rw [hs, repaired]
      unfold Finished
      split
      case isTrue => exact .inr hfile
      case isFalse hclean => rwa [if_neg fun h => hflags ⟨hclean, h⟩]

theorem finish_valid {flags : Flags} (hro : flags.readonly = false) (hwf : WellFormed f)
    {check : Bool} : Triple
      (Passed f check (f.hdr.layout.l1Size * f.hdr.layout.slots - mapOffset))
      (finish flags f.hdr f.hdr.layout.l1Size f.size (f.hdr.mDiskInUse = signatureDiskInUse))
      (fun _ => Finished f) (Finished f) := by
  have hroom := hwf.header.layout.room
  have hused : f.hdr.layout.usedBlocks f (f.hdr.layout.l1Size * f.hdr.layout.slots - mapOffset) =
      f.hdr.layout.used f := Layout.usedBlocks_of_ge (by omega)
  refine Triple.look fun s hs => ?_
  have hhead := hs.allocHead
  rw [hused] at hhead
  dsimp only
  rw [hhead, hs.fatality, hro, if_neg Bool.false_ne_true]
  simp only [Bool.false_eq_true, not_false_eq_true, and_true, and_false, if_false,
    decide_eq_true_eq, hs.clean, not_true_eq_false]
  change Triple _ (if u32 (f.hdr.layout.used f) * f.hdr.layout.cluster < f.size then _ else _) _ _
  split
  case isTrue hcut =>
    refine Triple.bind (R := fun _ t => t.file = cut f (u32 (f.hdr.layout.used f)))
      (Triple.update fun t ht => ?_) fun _ => newHeader_valid
    subst ht
    rw [cut, if_pos hcut, ← hs.file]
    rfl
  case isFalse hcut =>
    refine newHeader_valid.conseq (fun t ht => ?_) (fun _ _ ht => ht) fun _ ht => ht
    rw [ht, cut, if_neg hcut, hs.file]

/-! ## The whole check -/

/-- Every call that the check needs to look at the index succeeds. -/
structure Calls.Succeed (c : Calls) (flags : Flags) : Prop where
  buffer : c.buffer = true
  bitmap : flags.detailed = true → c.bitmap = true ∨ flags.talkative = true
  reopen : c.reopen = none

/-- The calls succeed and the file has its index. -/
def Reaches (c : Calls) (flags : Flags) (f : File) : Prop :=
  c.Succeed flags ∧ f.hdr.layout.l1Size * f.hdr.layout.cluster ≤ f.size

/-- The check comes to its end under the condition `P`, and before it changes nothing. -/
def After (P : Prop) (f : File) (s : State) : Prop := (P → Finished f s) ∧ (¬ P → s.file = f)

theorem After.of_not {P : Prop} {s : State} (h : ¬ P) (hs : s.file = f) : After P f s :=
  ⟨fun h' => absurd h' h, fun _ => hs⟩

theorem After.congr {P Q : Prop} {s : State} (h : After P f s) (hPQ : P ↔ Q) : After Q f s :=
  ⟨fun hQ => h.1 (hPQ.mpr hQ), fun hQ => h.2 fun hP => hQ (hPQ.mp hP)⟩

theorem startBitmap_valid (hwf : WellFormed f) {c : Calls} {flags : Flags} :
    Triple (fun s => s.file = f ∧ s.clean = true ∧ s.fatality = false ∧
        s.allocHead = f.hdr.layout.l1Size - 1)
      (startBitmap c flags f.hdr.layout.l1Size)
      (fun check s => Passed f check 0 s ∧
        (flags.detailed = true → c.bitmap = true ∨ flags.talkative = true))
      (fun s => s.file = f ∧
        ¬ (flags.detailed = true → c.bitmap = true ∨ flags.talkative = true)) := by
  have hl1 := hwf.header.layout.l1_pos
  have hhead : f.hdr.layout.l1Size - 1 + 1 = f.hdr.layout.usedBlocks f 0 := Nat.sub_add_cancel hl1
  unfold startBitmap
  cases hdetailed : flags.detailed with
  | false =>
      rw [if_neg Bool.false_ne_true]
      refine Triple.ret fun s ⟨hfile, hclean, hfatal, halloc⟩ => ⟨?_, nofun⟩
      exact ⟨hfile, hclean, hfatal, by rw [halloc, hhead], nofun⟩
  | true =>
      rw [if_pos rfl]
      cases hbitmap : c.bitmap with
      | true =>
          rw [if_pos rfl]
          refine Triple.bind (R := fun _ s => Passed f true 0 s)
            (Triple.update fun s ⟨hfile, hclean, hfatal, halloc⟩ => ?_) fun _ =>
              Triple.ret fun s hs => ⟨hs, fun _ => .inl rfl⟩
          refine ⟨hfile, hclean, hfatal, ?_, fun _ clu b _ hb => ?_⟩
          · rw [← hhead]
            exact congrArg (· + 1) halloc
          · exact decide_eq_false (Nat.not_lt.mpr (hwf.table.inData clu b hb).1)
      | false =>
          rw [if_neg Bool.false_ne_true]
          cases htalk : flags.talkative with
          | true =>
              rw [if_pos rfl]
              refine Triple.ret fun s ⟨hfile, hclean, hfatal, halloc⟩ => ⟨?_, fun _ => .inr rfl⟩
              exact ⟨hfile, hclean, hfatal, by rw [halloc, hhead], nofun⟩
          | false =>
              rw [if_neg Bool.false_ne_true]
              refine Triple.raise fun s hs => ⟨hs.1, fun h => ?_⟩
              rcases h rfl with h | h <;> cases h

theorem checkIndex_valid {flags : Flags} (hro : flags.readonly = false) (hwf : WellFormed f)
    (hversion : f.hdr.layout.version = version) {c : Calls} (hbuffer : c.buffer = true) :
    Triple (fun s => s.file = f ∧ s.clean = true ∧ s.fatality = false ∧
        s.allocHead = f.hdr.layout.l1Size - 1)
      (checkIndex c flags f.hdr version f.hdr.layout.l1Size f.size
        (f.hdr.mDiskInUse = signatureDiskInUse))
      (fun _ => After (Reaches c flags f) f) (After (Reaches c flags f) f) := by
  unfold checkIndex
  refine Triple.bind ((startBitmap_valid hwf).conseq (fun _ hs => hs) (fun _ _ hs => hs)
    fun s hs => ?_) fun check => ?_
  · exact .of_not (fun h => hs.2 h.1.bitmap) hs.1
  rw [hro, if_neg Bool.false_ne_true]
  cases hreopen : c.reopen with
  | some e =>
      refine Triple.raise fun s hs => .of_not (fun h => ?_) hs.1.file
      cases hreopen.symm.trans h.1.reopen
  | none =>
      dsimp only
      refine Triple.start fun s ⟨hs, hbitmap⟩ => ?_
      have hsucceed : c.Succeed flags := ⟨hbuffer, hbitmap, hreopen⟩
      refine Triple.bind (R := fun _ t => Passed f check
          (f.hdr.layout.l1Size * f.hdr.layout.slots - mapOffset) t ∧
          f.hdr.layout.l1Size * f.hdr.layout.cluster ≤ f.size)
        ((indexLoop_valid hwf ⟨rfl, rfl⟩ hversion _).conseq (fun t ht => ht ▸ hs) (fun _ _ ht => ht)
          fun t ht => .of_not (fun h => ?_) ht.1) fun _ => ?_
      · exact absurd h.2 (Nat.not_le.mpr ht.2)
      · refine Triple.start fun t ⟨ht, hindex⟩ => ?_
        refine (finish_valid hro hwf).conseq (fun u hu => hu ▸ ht)
          (fun _ u hu => ⟨fun _ => hu, fun h => absurd ⟨hsucceed, hindex⟩ h⟩)
          fun u hu => ⟨fun _ => hu, fun h => absurd ⟨hsucceed, hindex⟩ h⟩

/-- A dirty image is checked unless its version is being changed, a clean one if this is
forced. -/
def Enters (flags : Flags) (vh : PvdHeader) : Prop :=
  if vh.mDiskInUse = signatureDiskInUse then vh.mFlags &&& cifFmtVersionConvert = 0
  else flags.force = true

theorem checkImage_valid {flags : Flags} (hro : flags.readonly = false) (hwf : WellFormed f)
    (c : Calls) :
    Triple (fun s => s.file = f ∧ s.clean = true ∧ s.fatality = false) (checkImage c flags)
      (fun _ => After (Enters flags f.hdr ∧ Reaches c flags f) f)
      (After (Enters flags f.hdr ∧ Reaches c flags f) f) := by
  have hvalid : isValidBlocksize f.hdr.mSectors.toNat := hwf.header.layout.blocksize
  obtain ⟨version, hversion⟩ := Option.isSome_iff_exists.mp hwf.header.version
  have hlayout : f.hdr.layout.version = version := by
    rw [PvdHeader.layout, hversion, Option.getD_some]
  have hl1 : f.hdr.mFirstBlockOffset.toNat >>> (ffs f.hdr.mSectors.toNat - 1) =
      f.hdr.layout.l1Size := by
    rw [Nat.shiftRight_eq_div_pow, hvalid.ffs]
    rfl
  refine Triple.look fun s hs => ?_
  obtain ⟨hfile, hclean, hfatal⟩ := hs
  refine Triple.bind (readSafe_spec.conseq (fun _ ht => ht) (fun _ _ ht => ht) fun t ht =>
    .of_not (fun h => ?_) (ht.1 ▸ hfile)) fun buf => Triple.start fun t ht => ?_
  · have := (Held.of_wellFormed hwf).header_le.trans h.2.2
    rw [hfile] at ht
    omega
  obtain ⟨rfl, -, hbuf⟩ := ht
  have hhdr : PvdHeader.ofWords (bytesWord buf) = f.hdr := by
    rw [hbuf, hfile]
    simp only [Nat.zero_add]
    rfl
  dsimp only
  rw [hhdr, hl1, hversion, hfile]
  dsimp only
  rw [if_neg (not_not.mpr hwf.header.type), if_neg (not_not.mpr hvalid),
    if_neg (not_or.mpr ⟨not_not.mpr hwf.header.aligned, hwf.header.layout.l1_pos.ne'⟩)]
  refine Triple.bind (R := fun _ u => u.file = f ∧ u.clean = true ∧ u.fatality = false)
    (Triple.update fun u hu => hu ▸ ⟨hfile, hclean, hfatal⟩) fun _ => ?_
  cases hbuffer : c.buffer with
  | false =>
      refine Triple.raise fun u hu => .of_not (fun h => ?_) hu.1
      cases hbuffer.symm.trans h.2.1.buffer
  | true =>
      rw [if_neg (not_not.mpr rfl)]
      refine Triple.bind (R := fun _ u => u.file = f ∧ u.clean = true ∧ u.fatality = false ∧
        u.allocHead = f.hdr.layout.l1Size - 1)
          (Triple.update fun u hu => ⟨hu.1, hu.2.1, hu.2.2, rfl⟩) fun _ => ?_
      have hindex := checkIndex_valid hro hwf hlayout hbuffer
      simp only [decide_eq_true_eq]
      by_cases henter : Enters flags f.hdr
      · have hall : Reaches c flags f ↔ Enters flags f.hdr ∧ Reaches c flags f :=
          (and_iff_right henter).symm
        unfold Enters at henter
        split at henter
        case isTrue huse =>
          rw [if_neg fun h => h.1 huse, if_neg fun h => h.2 henter]
          exact hindex.conseq (fun _ hu => hu) (fun _ _ hu => hu.congr hall)
            fun _ hu => hu.congr hall
        case isFalse huse =>
          rw [if_neg fun h => h.2 henter, if_neg fun h => huse h.1]
          exact hindex.conseq (fun _ hu => hu) (fun _ _ hu => hu.congr hall)
            fun _ hu => hu.congr hall
      · have hnot : ¬ (Enters flags f.hdr ∧ Reaches c flags f) := fun h => henter h.1
        unfold Enters at henter
        split at henter
        case isTrue huse =>
          rw [if_neg fun h => h.1 huse, if_pos ⟨huse, henter⟩]
          exact Triple.raise fun u hu => .of_not hnot hu.1
        case isFalse huse =>
          rw [if_pos ⟨huse, henter⟩]
          exact Triple.ret fun u hu => .of_not hnot hu.1

/-! ## Reading only -/

def SameFile (s s' : State) : Prop := s'.file = s.file

instance : Std.Refl SameFile := ⟨fun _ => rfl⟩

instance : IsTrans State SameFile := ⟨fun _ _ _ h h' => h'.trans h⟩

theorem readSafe_keeps (len off : ℕ) : Keeps SameFile (readSafe len off) := by
  refine Keeps.get.bind fun s => ?_
  cases s.file.pread len off with
  | none => exact Keeps.throw _
  | some buf => exact Keeps.pure buf

theorem checkOneSlot_keeps (hro : d.ro = true) (clu isec blocksize : ℕ) (version : FmtVersion) :
    Keeps SameFile (checkOneSlot d clu isec blocksize version) := by
  have hfix (clu : ℕ) (hardFix ignore fatal : Bool) :
      Keeps SameFile (zeroIndexFix d clu hardFix ignore fatal) := by
    unfold zeroIndexFix
    rw [if_pos (.inl hro)]
    exact Keeps.modify fun _ => rfl
  unfold checkOneSlot
  dsimp only
  refine Keeps.ite (hfix _ _ _ _) (Keeps.ite (hfix _ _ _ _) (Keeps.ite (hfix _ _ _ _) ?_))
  have hhead (iblk : ℕ) : Keeps SameFile (modify fun s : State =>
      { s with allocHead := max s.allocHead iblk } : CheckM Unit) :=
    Keeps.modify fun _ => rfl
  refine Keeps.ite (Keeps.bind ?_ fun _ => hhead _) (hhead _)
  refine Keeps.get.bind fun s => Keeps.ite ?_ (Keeps.modify fun _ => rfl)
  exact (hfix _ _ _ _).bind fun _ => Keeps.modify fun _ => rfl

theorem checkCluster_keeps (hro : d.ro = true) (vh : PvdHeader) (version : FmtVersion)
    (inUse : Bool) (i : ℕ) : Keeps SameFile (checkCluster d vh version inUse i) := by
  refine (readSafe_keeps _ _).bind fun l2 => ?_
  dsimp only
  rw [if_neg fun h => h.1 hro]
  refine Keeps.forRange (fun j => ?_) _ _
  exact Keeps.ite (Keeps.pure _) (checkOneSlot_keeps hro _ _ _ _)

theorem finish_keeps {flags : Flags} (hro : flags.readonly = true) (vh : PvdHeader)
    (l1Slots stSize : ℕ) (inUse : Bool) :
    Keeps SameFile (finish flags vh l1Slots stSize inUse) := by
  refine Keeps.get.bind fun s => Keeps.ite (Keeps.throw _) ?_
  dsimp only
  rw [if_neg fun h => h.2 hro]
  refine Keeps.ite (Keeps.throw _) (Keeps.ite (Keeps.throw _) (Keeps.ite (Keeps.pure _) ?_))
  rw [if_pos hro]
  exact Keeps.throw _

theorem checkImage_keeps {flags : Flags} (hro : flags.readonly = true) (c : Calls) :
    Keeps SameFile (checkImage c flags) := by
  have hindex (vh : PvdHeader) (version : FmtVersion) (l1Slots stSize : ℕ) (inUse : Bool) :
      Keeps SameFile (checkIndex c flags vh version l1Slots stSize inUse) := by
    refine Keeps.bind ?_ fun check => ?_
    · unfold startBitmap
      refine Keeps.ite (Keeps.ite ?_ (Keeps.ite (Keeps.pure _) (Keeps.throw _))) (Keeps.pure _)
      exact Keeps.bind (Keeps.modify fun _ => rfl) fun _ => Keeps.pure _
    · rw [if_pos hro]
      refine Keeps.bind (Keeps.forRange (fun i => ?_) _ _) fun _ => finish_keeps hro _ _ _ _
      exact checkCluster_keeps hro _ _ _ _
  refine Keeps.get.bind fun s => (readSafe_keeps _ _).bind fun buf => ?_
  dsimp only
  cases ploop1Version (PvdHeader.ofWords (bytesWord buf)) with
  | none => exact Keeps.throw _
  | some version =>
      refine Keeps.ite (Keeps.throw _) (Keeps.ite (Keeps.throw _) (Keeps.ite (Keeps.throw _) ?_))
      refine Keeps.bind (Keeps.modify fun _ => rfl) fun _ => Keeps.ite (Keeps.throw _) ?_
      refine Keeps.bind (Keeps.modify fun _ => rfl) fun _ => Keeps.ite (Keeps.pure _) ?_
      exact Keeps.ite (Keeps.throw _) (hindex _ _ _ _ _)

theorem checkRaw_keeps : Keeps SameFile checkRaw := by
  refine Keeps.get.bind fun s => ?_
  cases s.blocksize with
  | none => exact Keeps.throw _
  | some blocksize => exact Keeps.ite (Keeps.throw _) (Keeps.pure _)

theorem After.of_keeps {P : Prop} {x : CheckM Unit} (hP : ¬ P) (hx : Keeps SameFile x) :
    Triple (fun s => s.file = f ∧ s.clean = true ∧ s.fatality = false) x
      (fun _ => After P f) (After P f) :=
  Triple.start fun s hs => (hx s).conseq (fun _ ht => ht)
    (fun _ _ ht => .of_not hP (Eq.trans ht hs.1)) fun _ ht => .of_not hP (Eq.trans ht hs.1)

/-- The calls that follow a check do not reach the file. -/
theorem After.outcome {P : Prop} {x : CheckM Unit} {c : Calls} {start : State}
    (hx : Triple (fun s => s.file = f ∧ s.clean = true ∧ s.fatality = false) x
      (fun _ => After P f) (After P f))
    (hstart : start.file = f ∧ start.clean = true ∧ start.fatality = false) :
    After P f (match x start with
      | .ok _ s => (c.sparse.or c.close, s)
      | .error e s => (some e, s)).2 := by
  cases hrun : x start with
  | ok _ s => exact hx.ok hstart hrun
  | error e s => exact hx.err hstart hrun

/-- The check gets to rewriting the file. -/
structure Rewrites (c : Calls) (flags : Flags) (f : File) : Prop where
  raw : flags.raw = false
  readonly : flags.readonly = false
  enters : Enters flags f.hdr
  reaches : Reaches c flags f

/-- What any check of a well-formed image leaves. -/
theorem ploopCheck_valid (hwf : WellFormed f) (c : Calls) (flags : Flags) (blocksize : Option ℕ) :
    After (Rewrites c flags f) f (ploopCheck c flags blocksize f).2 := by
  unfold ploopCheck
  refine After.outcome ?_ ⟨rfl, rfl, rfl⟩
  cases hraw : flags.raw with
  | true =>
      rw [if_pos rfl]
      exact After.of_keeps (fun h => Bool.noConfusion (hraw.symm.trans h.raw)) checkRaw_keeps
  | false =>
      rw [if_neg Bool.false_ne_true]
      cases hro : flags.readonly with
      | true =>
          exact After.of_keeps (fun h => Bool.noConfusion (hro.symm.trans h.readonly))
            (checkImage_keeps hro c)
      | false =>
          have hiff : Enters flags f.hdr ∧ Reaches c flags f ↔ Rewrites c flags f :=
            ⟨fun h => ⟨hraw, hro, h.1, h.2⟩, fun h => ⟨h.enters, h.reaches⟩⟩
          exact (checkImage_valid hro hwf c).conseq (fun _ hs => hs) (fun _ _ hs => hs.congr hiff)
            fun _ hs => hs.congr hiff

end Valid

end Check

end Ploop
