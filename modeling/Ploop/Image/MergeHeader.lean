import Ploop.Image.MergeLoop
import Ploop.Image.MergeStart

/-!
# The header of a merged image

Blocks and pages of the table are written behind the header and in whole sectors,
whatever the tables hold: a merge leaves the header that growing has put, and marks it
closed.
-/

namespace Ploop

open Storage Program

/-! ## Whole sectors -/

/-- The file of a delta with blocks of `bs` sectors is a whole number of sectors. -/
structure Spaced (bs : ℕ) (d : Delta) : Prop where
  blocksize : d.blocksize = bs
  aligned : sectorSize ∣ d.file.size
  lo : 4096 ≤ d.file.size
  hi : d.file.size < 2 ^ 62
  index : d.l1Size * s2b bs ≤ 2 ^ 41

/-- The cached cluster of the table has been read from the file. -/
structure Paged (bs : ℕ) (d : Delta) : Prop extends Spaced bs d where
  page : ∀ p, d.l2Cache = some p → (p + 1) * s2b bs ≤ d.file.size

/-- With the header `vh`. -/
structure Headed (bs : ℕ) (vh : PvdHeader) (d : Delta) : Prop extends Spaced bs d where
  hdr : d.file.hdr = vh

section Writes

variable {bs : ℕ} {vh : PvdHeader} {d d' : Delta} {w : Write}

/-- Only the file and the layout matter. -/
theorem Spaced.congr (h : Spaced bs d) (hfile : d'.file = d.file)
    (hblocksize : d'.blocksize = d.blocksize) (hl1 : d'.l1Size = d.l1Size) : Spaced bs d' := by
  constructor
  · exact hblocksize.trans h.blocksize
  · exact hfile ▸ h.aligned
  · exact hfile ▸ h.lo
  · exact hfile ▸ h.hi
  · exact hl1 ▸ h.index

theorem Spaced.sync (h : Spaced bs d) : Spaced bs d.sync := h.congr d.file_sync rfl rfl

theorem Spaced.write (h : Spaced bs d) (hend : sectorSize ∣ w.off + w.len)
    (hlt : w.off + w.len < 2 ^ 62) : Spaced bs (d.write w) := by
  have hlo := h.lo
  have hhi := h.hi
  have haligned := h.aligned
  constructor
  · exact h.blocksize
  · rw [Delta.file_write, File.size_pwrite]
    split
    · exact haligned
    · rcases le_total d.file.size (w.off + w.len) with hle | hle
      · rwa [max_eq_right hle]
      · rwa [max_eq_left hle]
  · rw [Delta.file_write]
    exact hlo.trans (File.le_size_pwrite _ _)
  · rw [Delta.file_write, File.size_pwrite]
    split
    · exact hhi
    · exact max_lt hhi hlt
  · exact h.index

/-- A write inside the file. -/
theorem Spaced.overwrite (h : Spaced bs d) (hend : w.off + w.len ≤ d.file.size) :
    Spaced bs (d.write w) := by
  have hsize : (d.write w).file.size = d.file.size := by
    rw [Delta.file_write, File.size_pwrite_le hend]
  constructor
  · exact h.blocksize
  · exact hsize ▸ h.aligned
  · exact hsize ▸ h.lo
  · exact hsize ▸ h.hi
  · exact h.index

theorem Paged.sync (h : Paged bs d) : Paged bs d.sync := by
  refine ⟨h.toSpaced.sync, fun p hp => ?_⟩
  rw [Delta.file_sync]
  exact h.page p hp

theorem Paged.grow (h : Paged bs d) (hd' : Spaced bs d') (hsize : d.file.size ≤ d'.file.size)
    (hcache : d'.l2Cache = d.l2Cache) : Paged bs d' :=
  ⟨hd', fun p hp => (h.page p (hcache ▸ hp)).trans hsize⟩

theorem Paged.write (h : Paged bs d) (hend : sectorSize ∣ w.off + w.len)
    (hlt : w.off + w.len < 2 ^ 62) : Paged bs (d.write w) := by
  refine h.grow (h.toSpaced.write hend hlt) ?_ rfl
  rw [Delta.file_write]
  exact File.le_size_pwrite _ _

theorem Headed.sync (h : Headed bs vh d) : Headed bs vh d.sync := by
  refine ⟨h.toSpaced.sync, ?_⟩
  rw [Delta.file_sync]
  exact h.hdr

theorem Headed.write (h : Headed bs vh d) (hoff : headerBytes ≤ w.off)
    (hend : sectorSize ∣ w.off + w.len) (hlt : w.off + w.len < 2 ^ 62) :
    Headed bs vh (d.write w) := by
  refine ⟨h.toSpaced.write hend hlt, ?_⟩
  rw [Delta.file_write, hdr_pwrite_of_ge hoff]
  exact h.hdr

end Writes

theorem sector_dvd_s2b (n : ℕ) : sectorSize ∣ s2b n := ⟨n, Nat.mul_comm _ _⟩

/-- The end of a block in the file. -/
theorem block_end_lt {bs : ℕ} (hbs : isValidBlocksize bs) (entry : UInt32) (version : FmtVersion) :
    sectorSize ∣ s2b (ioffToSec entry bs version) + s2b bs ∧
      s2b (ioffToSec entry bs version) + s2b bs < 2 ^ 62 := by
  have hle := hbs.le
  have hlt := entry.toNat_lt
  have hsec : ioffToSec entry bs version ≤ 2 ^ 32 * 2 ^ 17 := by
    cases version with
    | v1 => exact hlt.le.trans (by norm_num)
    | v2 => exact Nat.mul_le_mul hlt.le hle
  refine ⟨(Nat.dvd_add_right (sector_dvd_s2b _)).mpr (sector_dvd_s2b _), ?_⟩
  simp only [s2b]
  omega

/-- The end of a cluster of the table. -/
theorem page_end_le {bs p n : ℕ} (hp : p < n) (hn : n * s2b bs ≤ 2 ^ 41) :
    sectorSize ∣ p * s2b bs + s2b bs ∧ p * s2b bs + s2b bs < 2 ^ 62 := by
  have hle := Nat.mul_le_mul_right (s2b bs) hp
  rw [Nat.succ_mul] at hle
  refine ⟨(Nat.dvd_add_right ((sector_dvd_s2b _).mul_left _)).mpr (sector_dvd_s2b _), ?_⟩
  omega

/-! ## Growing -/

section Grow

variable {bs : ℕ}

theorem l1_le {vh : PvdHeader} (hsectors : vh.mSectors.toNat = bs) :
    vh.mFirstBlockOffset.toNat / vh.mSectors.toNat * s2b bs ≤ 2 ^ 41 := by
  have hlt := vh.mFirstBlockOffset.toNat_lt
  have hle := Nat.div_mul_le_self vh.mFirstBlockOffset.toNat vh.mSectors.toNat
  rw [hsectors] at hle ⊢
  rw [s2b, ← Nat.mul_assoc]
  omega

theorem nullifyBlock_paged {i n : ℕ} (hi : i < n) (hn : n * s2b bs ≤ 2 ^ 41) :
    Triple (Paged bs) (nullifyBlock i) (fun _ => Paged bs) (fun _ => True) := by
  refine Triple.look fun d hd => Triple.update fun s hs => ?_
  subst hs
  obtain ⟨hend, hlt⟩ := page_end_le hi hn
  have hcluster : s.cluster = s2b bs := congrArg s2b hd.blocksize
  rw [hcluster]
  exact hd.write hend hlt

theorem appendGap_paged {n : ℕ} (hn : n * s2b bs ≤ 2 ^ 41) :
    Triple (Paged bs) (appendGap n) (fun _ => Paged bs) (fun _ => True) := by
  refine Triple.look fun d hd => ?_
  dsimp only
  split
  · rename_i hlt
    refine Triple.bind (R := fun _ => Paged bs) ?_ fun _ => Triple.bind (R := fun _ => Paged bs)
      (Triple.update fun s hs => ?_) fun _ => Triple.ret fun _ hs => hs
    · refine (Triple.forRange (I := fun _ => Paged bs) _ _ fun i _ hi => ?_).conseq
        (fun s hs => hs ▸ hd) (fun _ _ hs => hs) fun _ hs => hs
      exact nullifyBlock_paged (n := n) (by omega) hn
    · exact ⟨hs.toSpaced.congr rfl rfl rfl, hs.page⟩
  · exact Triple.ret fun s hs => hs ▸ hd

theorem loadL2_paged (err : Sysexit) (p : ℕ) : Triple (Paged bs) (loadL2 err p)
    (fun _ s => Paged bs s ∧ s.l2Cache = some p) (fun _ => True) := by
  refine Triple.look fun d hd => ?_
  have hcluster : d.cluster = s2b bs := congrArg s2b hd.blocksize
  rw [hcluster]
  split
  · refine Triple.bind (R := fun _ s => s = d ∧ p * s2b bs + s2b bs ≤ d.file.size) ?_
      fun buf => Triple.update fun s hs => ?_
    · refine Triple.look fun s hs => ?_
      subst hs
      cases hread : s.file.pread (s2b bs) (p * s2b bs) with
      | none => exact Triple.raise fun _ _ => True.intro
      | some buf => exact Triple.ret fun _ hs => ⟨hs, (File.pread_eq_some.mp hread).1⟩
    · obtain ⟨rfl, hend⟩ := hs
      refine ⟨⟨hd.toSpaced.congr rfl rfl rfl, fun q hq => ?_⟩, rfl⟩
      obtain rfl : p = q := Option.some.inj hq
      rw [Nat.succ_mul]
      exact hend
  · rename_i hcache
    exact Triple.ret fun s hs => hs ▸ ⟨hd, not_not.mp hcache⟩

theorem findSlot_paged (target : UInt32) (k clu : ℕ) : Triple (Paged bs) (findSlot target k clu)
    (fun r s => Paged bs s ∧ ∀ c, r = some c →
      s.l2Cache = some (u32 (c + mapOffset) / (s2b bs / 4))) (fun _ => True) := by
  induction k generalizing clu with
  | zero => exact Triple.ret fun s hs => ⟨hs, fun c hc => absurd hc nofun⟩
  | succ k ih =>
      refine Triple.look fun d hd => ?_
      have hcluster : d.cluster = s2b bs := congrArg s2b hd.blocksize
      dsimp only
      rw [hcluster]
      split
      · exact Triple.raise fun _ _ => True.intro
      refine Triple.bind ((loadL2_paged .reloc _).conseq (fun s hs => hs ▸ hd) (fun _ _ hs => hs)
        fun _ hs => hs) fun _ => Triple.look fun s hs => ?_
      split
      · refine Triple.ret fun t ht => ?_
        subst ht
        refine ⟨hs.1, fun c hc => ?_⟩
        obtain rfl := Option.some.inj hc
        exact hs.2
      · exact (ih (clu + 1)).conseq (fun t ht => ht ▸ hs.1) (fun _ _ ht => ht) fun _ ht => ht

theorem relocateBlock_paged (hbs : isValidBlocksize bs) (iblk : ℕ) :
    Triple (Paged bs) (relocateBlock iblk) (fun _ => Paged bs) (fun _ => True) := by
  refine Triple.look fun d hd => ?_
  have hblocksize := hd.blocksize
  have hcluster : d.cluster = s2b bs := congrArg s2b hblocksize
  dsimp only
  rw [hcluster, hblocksize]
  refine Triple.bind ((findSlot_paged _ _ _).conseq (fun s hs => hs ▸ hd) (fun _ _ hs => hs)
    fun _ hs => hs) fun r => ?_
  cases r with
  | none => exact Triple.ret fun s hs => hs.1
  | some clu =>
      refine Triple.look fun s ⟨hs, hcache⟩ => ?_
      have hpage := hs.page _ (hcache clu rfl)
      refine Triple.bind (R := fun _ t => t = s) ?_ fun buf => Triple.look fun t ht => ?_
      · refine (pread_spec _ _ _ s).conseq (fun _ ht => ht) (fun _ _ ht => ht.1) fun _ _ => ?_
        exact True.intro
      subst ht
      refine Triple.step ?_
      split
      · exact Triple.raise fun _ _ => True.intro
      obtain ⟨hend, hlt⟩ := block_end_lt hbs
        (secToIoff (t.allocHead.toNat * bs) bs d.version) d.version
      have hslot : u32 (clu + mapOffset) % (s2b bs / 4) * 4 + 4 ≤ s2b bs := by
        have hpos : 0 < s2b bs / 4 := by
          have := hbs.1
          simp only [s2b]
          omega
        have := Nat.mod_lt (u32 (clu + mapOffset)) hpos
        omega
      refine Triple.bind (R := fun _ e => Paged bs e ∧
        (u32 (clu + mapOffset) / (s2b bs / 4) + 1) * s2b bs ≤ e.file.size)
        (Triple.update fun e he => ?_) fun _ => ?_
      · subst he
        refine ⟨Paged.write ⟨hs.toSpaced.congr rfl rfl rfl, hs.page⟩ hend hlt, ?_⟩
        rw [Delta.file_write]
        exact hpage.trans (File.le_size_pwrite _ _)
      refine Triple.bind (R := fun _ e => Paged bs e ∧
        (u32 (clu + mapOffset) / (s2b bs / 4) + 1) * s2b bs ≤ e.file.size)
        (Triple.update fun e he => ⟨he.1.sync, by rw [Delta.file_sync]; exact he.2⟩) fun _ => ?_
      refine Triple.bind (R := fun _ => Paged bs) (Triple.update fun e he => ?_) fun _ =>
        Triple.look fun e he => Triple.ret fun x hx => hx ▸ he
      refine he.1.grow (he.1.toSpaced.overwrite ?_) ?_ rfl
      · have hle := he.2
        rw [Nat.succ_mul] at hle
        dsimp only
        omega
      · rw [Delta.file_write]
        exact File.le_size_pwrite _ _

theorem growLoop_paged (hbs : isValidBlocksize bs) {n : ℕ} (hn : n * s2b bs ≤ 2 ^ 41) {k i : ℕ}
    (hk : i + k ≤ n) :
    Triple (Paged bs) (growLoop false k i) (fun _ => Paged bs) (fun _ => True) := by
  induction k generalizing i with
  | zero => exact Triple.ret fun _ hs => hs
  | succ k ih =>
      refine Triple.bind (relocateBlock_paged hbs i) fun r => ?_
      refine Triple.bind (R := fun _ => Paged bs) (Triple.update fun s hs => hs.sync) fun _ => ?_
      exact Triple.bind (nullifyBlock_paged (n := n) (by omega) hn) fun _ => ih (by omega)

/-- Growing leaves a whole number of sectors and the new header. -/
theorem growDelta_headed (hbs : isValidBlocksize bs) {size : ℕ} {d : Delta} (hd : Spaced bs d) :
    Triple (fun s => s = d) (growDelta size false)
      (fun _ s => ∃ flags, Headed bs { grownHeader size bs d.version with mFlags := flags } s)
      (fun _ => True) := by
  have hsectors : (grownHeader size bs d.version).mSectors.toNat = bs := by
    have hle := hbs.le
    simp only [grownHeader, generatePvdHeader, UInt32.toNat_ofNat']
    omega
  have hl1 := l1_le hsectors
  have hspaced : Triple (fun s => s = d) (growDelta size false) (fun _ => Spaced bs)
      (fun _ => True) := by
    refine Triple.look fun s hs => ?_
    subst hs
    rw [hd.blocksize]
    dsimp only
    split
    · exact Triple.raise fun _ _ => True.intro
    split
    · exact Triple.raise fun _ _ => True.intro
    rename_i hcache
    have hpaged : Paged bs s := ⟨hd, fun p hp => absurd (by rw [hp]; rfl) hcache⟩
    refine Triple.bind ((appendGap_paged hl1).conseq (fun t ht => ht ▸ hpaged) (fun _ _ ht => ht)
      fun _ ht => ht) fun gap => ?_
    simp only [Bool.false_eq_true, false_and, if_false]
    refine Triple.bind (R := fun _ => Paged bs) ?_ fun maps => ?_
    · by_cases hzero : (grownHeader size bs s.version).mFirstBlockOffset.toNat /
        (grownHeader size bs s.version).mSectors.toNat - gap - s.l1Size = 0
      · rw [hzero]
        exact Triple.ret fun _ hs => hs
      · exact growLoop_paged hbs hl1 (by omega)
    · refine Triple.bind (R := fun _ => Spaced bs) ?_ fun _ => Triple.bind
        (R := fun _ => Spaced bs) (Triple.update fun t ht => ?_) fun _ => Triple.ret fun _ ht => ht
      · refine Triple.bind (R := fun _ => Spaced bs)
          (Triple.update fun t ht => ht.toSpaced.sync) fun _ =>
          Triple.look fun t ht => Triple.update fun e he => ?_
        subst he
        exact ht.overwrite (by have := ht.lo; simp only [headerBytes]; omega)
      · exact ⟨ht.blocksize, ht.aligned, ht.lo, ht.hi, hl1⟩
  rintro s rfl
  have hheader : Triple (fun t => t = s) (growDelta size false) (fun _ t => ∃ flags,
      t.file.hdr = { grownHeader size s.blocksize s.version with mFlags := flags })
        (fun _ => True) := growDelta_header rfl
  have hheader := hheader s rfl
  have hsize := hspaced s rfl
  cases hrun : growDelta size false s with
  | error e t => exact True.intro
  | ok maps t =>
      rw [hrun] at hheader hsize
      obtain ⟨flags, hflags⟩ := hheader
      rw [hd.blocksize] at hflags
      exact ⟨flags, hsize, hflags⟩

end Grow

/-! ## Merging -/

section Merge

variable {bs : ℕ} {vh : PvdHeader}

theorem writeIndex_headed (hbs : isValidBlocksize bs) :
    Triple (Headed bs vh) (writeIndex (s2b bs)) (fun _ => Headed bs vh) (fun _ => True) := by
  have hlo := hbs.1
  refine Triple.look fun d hd => ?_
  cases d.l2Cache with
  | none => exact Triple.raise fun _ _ => True.intro
  | some p =>
      dsimp only
      split
      · exact Triple.raise fun _ _ => True.intro
      rename_i hp
      refine Triple.bind (R := fun _ => Headed bs vh) (Triple.look fun s hs =>
        Triple.update fun t ht => ?_) fun _ => Triple.update fun t ht => ht.sync
      subst hs ht
      obtain ⟨hend, hlt⟩ := page_end_le (Nat.not_le.mp hp) hd.index
      have hbig : 32768 ≤ s2b bs := by
        simp only [s2b]
        omega
      refine hd.write ?_ ?_ ?_
      · split
        · exact Nat.le_add_left _ _
        · rename_i hne
          have := Nat.le_mul_of_pos_left (s2b bs) (Nat.pos_of_ne_zero hne)
          simp only [headerBytes]
          omega
      · convert hend using 1
        split
        · simp only [headerBytes]
          omega
        · rfl
      · refine lt_of_le_of_lt (Nat.le_of_eq ?_) hlt
        split
        · simp only [headerBytes]
          omega
        · rfl

theorem syncIfCached_headed (hbs : isValidBlocksize bs) :
    Triple (Headed bs vh) syncIfCached (fun _ => Headed bs vh) (fun _ => True) := by
  refine Triple.look fun d hd => ?_
  split
  · refine Triple.look fun s hs => ?_
    subst hs
    rw [show s.cluster = s2b bs from congrArg s2b hd.blocksize]
    split
    · refine Triple.step (Triple.bind ((writeIndex_headed hbs).conseq (fun s hs => hs ▸ hd.sync)
        (fun _ _ hs => hs) fun _ hs => hs) fun _ => Triple.update fun s hs => ?_)
      exact ⟨hs.toSpaced.congr rfl rfl rfl, hs.hdr⟩
    · exact Triple.ret fun s hs => hs ▸ hd
  · exact Triple.ret fun s hs => hs ▸ hd

theorem fetchPage_headed (hbs : isValidBlocksize bs) (i cluster : ℕ) :
    Triple (Headed bs vh) (fetchPage i cluster) (fun _ => Headed bs vh) (fun _ => True) := by
  refine Triple.look fun d hd => ?_
  split
  · exact Triple.ret fun s hs => hs ▸ hd
  refine Triple.bind ((syncIfCached_headed hbs).conseq (fun s hs => hs ▸ hd) (fun _ _ hs => hs)
    fun _ hs => hs) fun _ => Triple.bind (R := fun _ => Headed bs vh) (Triple.update fun s hs => ?_)
      fun _ => Triple.bind (R := fun _ => Headed bs vh) (Triple.start fun s hs => ?_) fun buf =>
        Triple.update fun s hs => ?_
  · exact ⟨hs.toSpaced.congr rfl rfl rfl, hs.hdr⟩
  · exact (pread_spec _ _ _ s).conseq (fun _ ht => ht) (fun _ _ ht => ht.1 ▸ hs) fun _ _ =>
      True.intro
  · exact ⟨hs.toSpaced.congr rfl rfl rfl, hs.hdr⟩

/-- The slot has an entry afterwards. -/
theorem allocSlot_headed (k blocksize : ℕ) (version : FmtVersion) :
    Triple (Headed bs vh) (allocSlot k blocksize version)
      (fun _ s => Headed bs vh s ∧ s.l2 k ≠ 0) (fun _ => True) := by
  refine Triple.look fun d hd => ?_
  split
  · rename_i hk
    exact Triple.ret fun s hs => hs ▸ ⟨hd, hk⟩
  refine Triple.step ?_
  split
  · exact Triple.raise fun _ _ => True.intro
  · rename_i hentry
    refine Triple.update fun s hs => ?_
    subst hs
    have hself :
        Function.update d.l2 k (secToIoff (d.allocHead.toNat * blocksize) blocksize version)
        k ≠ 0 := by
      rw [Function.update_self]
      exact hentry
    exact ⟨⟨hd.toSpaced.congr rfl rfl rfl, hd.hdr⟩, hself⟩

theorem putBlock_headed (hbs : isValidBlocksize bs) (version : FmtVersion) (i k : ℕ)
    (data : ℕ → UInt8) : Triple (Headed bs vh) (putBlock false bs version i k data)
      (fun _ => Headed bs vh) (fun _ => True) := by
  refine Triple.bind (fetchPage_headed hbs i _) fun _ => Triple.bind (allocSlot_headed k bs version)
    fun _ => Triple.look fun s ⟨hs, hk⟩ => Triple.update fun t ht => ?_
  subst ht
  obtain ⟨hend, hlt⟩ := block_end_lt hbs (t.l2 k) version
  refine hs.write ?_ hend hlt
  -- no entry, whatever it is, leads into the header
  have hpos : 0 < (t.l2 k).toNat := by
    refine Nat.pos_of_ne_zero fun hzero => hk ?_
    exact UInt32.toNat.inj hzero
  have hsec : 1 ≤ ioffToSec (t.l2 k) bs version := by
    cases version with
    | v1 => exact hpos
    | v2 => exact Nat.mul_pos hpos hbs.pos
  simp only [s2b, headerBytes]
  omega

theorem mergeSlot_headed (hbs : isValidBlocksize bs) (version : FmtVersion) (i k : ℕ) :
    Triple (fun s => Headed bs vh s.odelta) (mergeSlot false bs version i k)
      (fun _ s => Headed bs vh s.odelta) (fun _ => True) := by
  refine Triple.look fun s hs => ?_
  cases findSource i k s.deltaArr with
  | error e => exact Triple.raise fun _ _ => True.intro
  | ok p =>
      refine Triple.bind (R := fun _ t => t.deltaArr = p.2 ∧ Headed bs vh t.odelta)
        (Triple.update fun t ht => ⟨rfl, ht ▸ hs⟩) fun _ => ?_
      cases p.1 with
      | none => exact Triple.ret fun t ht => ht.2
      | some src =>
          dsimp only
          cases src.file.pread (s2b bs) (s2b (ioffToSec (src.l2 k) bs version)) with
          | none => exact Triple.raise fun _ _ => True.intro
          | some data =>
              exact (onOutput_spec (putBlock_headed hbs version i k data) p.2).conseq
                (fun _ ht => ht) (fun _ _ ht => ht.2) fun _ ht => ht

theorem mergeLoop_headed (hbs : isValidBlocksize bs) (version : FmtVersion) (l2Size : ℕ) :
    Triple (fun s => Headed bs vh s.odelta) (mergeLoop false bs version l2Size)
      (fun _ s => Headed bs vh s.odelta) (fun _ => True) := by
  refine Triple.forRange (I := fun _ (s : MergeState) => Headed bs vh s.odelta) _ _ fun i _ _ => ?_
  refine Triple.look fun s hs => ?_
  cases loadTop i (s2b bs) s.deltaArr with
  | none => exact Triple.raise fun _ _ => True.intro
  | some da =>
      refine Triple.bind (R := fun _ t => Headed bs vh t.odelta)
        (Triple.update fun t ht => ht ▸ hs) fun _ => Triple.forRange
          (I := fun _ (s : MergeState) => Headed bs vh s.odelta) _ _ fun k _ _ => ?_
      exact mergeSlot_headed hbs version i k

/-- The image is marked closed. -/
theorem finishMerge_headed (hbs : isValidBlocksize bs) :
    Triple (Headed bs vh) (finishMerge (s2b bs))
      (fun _ => Headed bs { vh with mDiskInUse := 0 }) (fun _ => True) := by
  refine Triple.bind (R := fun _ => Headed bs vh) (Triple.update fun s hs => hs.sync) fun _ =>
    Triple.bind (R := fun _ => Headed bs vh) (Triple.look fun d hd => ?_) fun _ =>
      Triple.bind (R := fun _ => Headed bs { vh with mDiskInUse := 0 })
        (Triple.start fun d hd => (clearDelta_spec d).conseq (fun _ hs => hs) (fun _ s hs => ?_)
          fun _ hs => hs) fun _ => Triple.update fun s hs => hs.sync
  · split
    · exact (writeIndex_headed hbs).conseq (fun s hs => hs ▸ hd) (fun _ _ hs => hs) fun _ hs => hs
    · exact Triple.ret fun s hs => hs ▸ hd
  · have hlo := hd.lo
    have hclear : Spaced bs (d.write ⟨PvdHeader.offDiskInUse, 4, wordBytes fun _ => 0⟩).sync :=
      (hd.toSpaced.overwrite (by simp only [PvdHeader.offDiskInUse]; omega)).sync
    have hfile : s.file = d.file.pwrite ⟨PvdHeader.offDiskInUse, 4, wordBytes fun _ => 0⟩ := by
      rw [hs]
      change (d.write _).sync.file = _
      rw [Delta.file_sync, Delta.file_write]
    refine ⟨hclear.congr ?_ ?_ ?_, ?_⟩
    · rw [hs]
      rfl
    · rw [hs]
    · rw [hs]
    · rw [hfile, hdr_pwrite_diskInUse, hd.hdr]

/-- Every merge that succeeds leaves its image marked closed, without an extension. -/
theorem finishMerge_closed {cluster : ℕ} : Triple (fun _ => True) (finishMerge cluster)
    (fun _ s => s.file.hdr.mDiskInUse = signatureDiskClosedV20) (fun _ => True) := by
  refine Triple.bind (Triple.trivial _) fun _ => Triple.bind (Triple.trivial _) fun _ =>
    Triple.bind (R := fun _ s => s.file.hdr.mDiskInUse = signatureDiskClosedV20)
      (Triple.start fun d _ => (clearDelta_spec d).conseq (fun _ hs => hs) (fun _ s hs => ?_)
        fun _ hs => hs) fun _ => Triple.update fun s hs => ?_
  · have hfile : s.file = d.file.pwrite ⟨PvdHeader.offDiskInUse, 4, wordBytes fun _ => 0⟩ := by
      rw [hs]
      change (d.write _).sync.file = _
      rw [Delta.file_sync, Delta.file_write]
    rw [hfile, hdr_pwrite_diskInUse]
    rfl
  · rw [Delta.file_sync]
    exact hs

end Merge

/-! ## The size -/

/-- `generate_pvd_header` rounds a size up to whole clusters. -/
def roundedSize (size bs : ℕ) : ℕ := u64 (u64 (size + bs - 1) / bs * bs)

theorem roundedSize_dvd {bs : ℕ} (hbs : isValidBlocksize bs) (size : ℕ) :
    bs ∣ roundedSize size bs := by
  have hdvd : bs ∣ 2 ^ 64 := hbs.dvd.trans (by norm_num)
  exact (Nat.dvd_mod_iff hdvd).mpr (Nat.dvd_mul_left _ _)

theorem roundedSize_of_dvd {bs size : ℕ} (hbs : isValidBlocksize bs) (hdvd : bs ∣ size)
    (hlt : size < 2 ^ 64) : roundedSize size bs = size := by
  have hpos := hbs.pos
  obtain ⟨m, hm⟩ : bs ∣ 2 ^ 64 := hbs.dvd.trans (by norm_num)
  obtain ⟨q, rfl⟩ := hdvd
  have hq : q + 1 ≤ m := by
    rw [hm] at hlt
    exact Nat.lt_of_mul_lt_mul_left hlt
  have hend : bs * q + bs ≤ 2 ^ 64 := by
    rw [hm, ← Nat.mul_succ]
    exact Nat.mul_le_mul_left bs hq
  have hquot : (bs * q + bs - 1) / bs = q := by
    rw [Nat.add_sub_assoc hpos, Nat.mul_add_div hpos, Nat.div_eq_of_lt (by omega), Nat.add_zero]
  have hsum : u64 (bs * q + bs - 1) = bs * q + bs - 1 := u64_of_lt (by omega)
  rw [roundedSize, hsum, hquot, Nat.mul_comm, u64_of_lt hlt]

section Size

variable {vh : PvdHeader} {bs : ℕ} {version : FmtVersion}

theorem grownHeader_mSize (size : ℕ) : (grownHeader size bs version).mSizeInSectorsV2 =
    match version with
    | .v1 => u32 (roundedSize size bs)
    | .v2 => roundedSize size bs := by
  have hlt : roundedSize size bs < 2 ^ 64 := Nat.mod_lt _ (by norm_num)
  cases version with
  | v1 =>
      change (UInt32.ofNat (roundedSize size bs)).toNat + 2 ^ 32 * (0 : UInt32).toNat = _
      rw [UInt32.toNat_ofNat', UInt32.toNat_zero]
      rfl
  | v2 =>
      change (UInt32.ofNat (roundedSize size bs)).toNat +
        2 ^ 32 * (UInt32.ofNat (roundedSize size bs / 2 ^ 32)).toNat = _
      simp only [UInt32.toNat_ofNat']
      omega

/-- Growing to the size of an image gives the size field of the image back. -/
theorem grownHeader_mSize_iff (hbs : isValidBlocksize bs)
    (hversion : ploop1Version vh = some version) :
    (grownHeader (getSizeInSectors vh) bs version).mSizeInSectorsV2 = vh.mSizeInSectorsV2 ↔
      getSizeInSectors vh = vh.mSizeInSectorsV2 ∧ bs ∣ getSizeInSectors vh := by
  have hlo := vh.mSizeInSectorsV1.toNat_lt
  have hhi := vh.unused.toNat_lt
  have hround := roundedSize_dvd hbs (getSizeInSectors vh)
  rw [grownHeader_mSize]
  cases version with
  | v1 =>
      have hsize : getSizeInSectors vh = vh.mSizeInSectorsV1.toNat := by
        rw [getSizeInSectors, hversion]
      have hsmall : bs ∣ u32 (roundedSize (getSizeInSectors vh) bs) :=
        (Nat.dvd_mod_iff hbs.dvd).mpr hround
      have hu32 := u32_lt (roundedSize (getSizeInSectors vh) bs)
      constructor
      · intro h
        have heq : getSizeInSectors vh = vh.mSizeInSectorsV2 := by
          dsimp only at h
          simp only [PvdHeader.mSizeInSectorsV2] at *
          omega
        refine ⟨heq, ?_⟩
        rw [heq, ← h]
        exact hsmall
      · rintro ⟨heq, hdvd⟩
        dsimp only
        rw [roundedSize_of_dvd hbs hdvd (by omega), ← heq, u32_of_lt (by omega)]
  | v2 =>
      have hsize : getSizeInSectors vh = vh.mSizeInSectorsV2 := by
        rw [getSizeInSectors, hversion]
      have hlt : vh.mSizeInSectorsV2 < 2 ^ 64 := by
        simp only [PvdHeader.mSizeInSectorsV2]
        omega
      constructor
      · intro h
        refine ⟨hsize, ?_⟩
        rw [hsize, ← h]
        exact hround
      · rintro ⟨-, hdvd⟩
        dsimp only
        rw [roundedSize_of_dvd hbs hdvd (by omega), hsize]

end Size

/-! ## The merged image -/

section Image

variable {version : FmtVersion} {blocksize : ℕ} {top img : File} {lower images : List File}
  {base : MergeBase} {D : Disk}

theorem onOutput_ok {α : Type} {x : DeltaM α} {Q : α → Delta → Prop} {P E : Delta → Prop}
    (h : Triple P x Q E) {s s' : MergeState} {a : α} (hs : P s.odelta)
    (hrun : onOutput x s = .ok a s') : Q a s'.odelta :=
  ((onOutput_spec h s.deltaArr).ok ⟨rfl, hs⟩ hrun).2

/-- A merge that succeeds leaves the image closed, without an extension. -/
theorem mergeImage_closed (hraw : base.isRaw = false)
    (h : mergeImage (fun _ => none) images base = (none, D)) :
    D.file.hdr.mDiskInUse = signatureDiskClosedV20 := by
  obtain ⟨d, ds, e, s, -, -, hbody, rfl⟩ := mergeImage_ok h
  rw [hraw] at hbody
  obtain ⟨⟨⟩, t, -, hfinish⟩ := bind_eq_ok hbody
  have hclosed := onOutput_ok finishMerge_closed True.intro hfinish
  have hdisk : afterMerge (fun _ => none) images base s.odelta.disk = s.odelta.disk := by
    unfold afterMerge
    split <;> rfl
  rw [hdisk]
  exact hclosed

/-- In place it has the header of a base grown to the size of the top. -/
theorem mergeInPlace_header (hs : Stack version blocksize (top :: lower ++ [img]))
    (haligned : sectorSize ∣ img.size) (hhi : img.size < 2 ^ 62)
    (h : mergeImage (fun _ => none) (top :: lower) (.ploop1 img) = (none, D)) :
    (∃ flags, D.file.hdr = { grownHeader (getSizeInSectors top.hdr) blocksize version with
      mFlags := flags, mDiskInUse := 0 }) ∧
      sectorSize ∣ D.file.size ∧ 4096 ≤ D.file.size ∧ D.file.size < 2 ^ 62 := by
  obtain ⟨d, ds, e, s, hsrc, hout, hbody, rfl⟩ := mergeImage_ok h
  have htop := openSources_head hsrc
  have himg : img ∈ top :: lower ++ [img] := List.mem_append_right _ List.mem_cons_self
  have hblocksize : d.blocksize = blocksize :=
    htop.opened.blocksize.trans (hs.blocksize top List.mem_cons_self)
  have hbs : isValidBlocksize blocksize := hblocksize ▸ htop.blocksize
  have hdisk : afterMerge (fun _ => none) (top :: lower) (.ploop1 img) s.odelta.disk =
      s.odelta.disk := by
    unfold afterMerge
    split <;> rfl
  rw [hdisk]
  cases hopen : openDelta img false with
  | none =>
      simp only [openOutput, hopen] at hout
      exact absurd hout nofun
  | some b =>
      simp only [openOutput, hopen] at hout
      have hgrow := outcome_ok hout
      have hat := openDelta_spec hopen
      have hfile : b.file = img := congrArg Disk.file hat.disk
      have hb : b.blocksize = blocksize := hat.opened.blocksize.trans (hs.blocksize img himg)
      have hv : b.version = version := hat.opened.version.trans (hs.version img himg)
      have hstart : Spaced blocksize b := by
        refine ⟨hb, hfile ▸ haligned, ?_, hfile ▸ hhi, ?_⟩
        · rw [hfile]
          exact openDelta_size hopen
        · rw [hat.opened.l1Size]
          exact l1_le (hs.blocksize img himg)
      rw [htop.hdr0] at hgrow
      obtain ⟨⟨⟩, b', hdirty, hgrow⟩ := bind_eq_ok hgrow
      obtain rfl := (@dirtyDelta_spec b (fun _ => False)).ok rfl hdirty
      obtain ⟨maps, b'', hgrown, hret⟩ := bind_eq_ok hgrow
      have hdirtied : Spaced blocksize ({ (b.write ⟨PvdHeader.offDiskInUse, 4,
          wordBytes fun _ => signatureDiskInUse⟩).sync with dirtied := 2 } : Delta) := by
        have hlo := hstart.lo
        refine ((hstart.overwrite (w := ⟨PvdHeader.offDiskInUse, 4, _⟩) ?_).sync).congr rfl rfl rfl
        simp only [PvdHeader.offDiskInUse]
        omega
      obtain ⟨flags, hheaded⟩ := (growDelta_headed hbs hdirtied).ok rfl hgrown
      obtain rfl : b'' = e := by
        cases hret
        rfl
      rw [hblocksize] at hbody
      obtain ⟨⟨⟩, t, hloop, hfinish⟩ := bind_eq_ok hbody
      have hmerged := (mergeLoop_headed hbs _ _).ok (s := ⟨d :: ds, b''⟩) hheaded hloop
      have hfinal := onOutput_ok (finishMerge_headed hbs) hmerged hfinish
      refine ⟨⟨flags, ?_⟩, hfinal.aligned, hfinal.lo, hfinal.hi⟩
      rw [← hv]
      exact hfinal.hdr

end Image

end Ploop
