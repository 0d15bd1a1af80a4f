import Ploop.Image.Cached
import Ploop.Image.Blank
import Ploop.Lib.Counter

/-!
# `expanded2raw`

Every cluster of the disk is copied to a new file. The number of the cluster and
that of its slot have 32 bits, the size of the disk has more.
-/

namespace Ploop

open Storage Indirection Program

/-! ## The source -/

/-- The image and the file that is written. -/
abbrev RawM := EStateM Sysexit (Delta × File)

/-- What an entry stands for: a block of the image, or zeros. -/
def rawBlock (entry : UInt32) : RawM (ℕ → UInt8) := do
  let d := (← get).1
  if entry = 0 then pure fun _ => 0
  else onFst (pread .read d.cluster (s2b (ioffToSec entry d.blocksize d.version)))

/-- One turn of the loop. -/
def rawCluster (clu : ℕ) : RawM Unit := do
  let d := (← get).1
  let l2Cluster := u32 (clu + mapOffset) / (d.cluster / 4)
  let l2Slot := u32 (clu + mapOffset) % (d.cluster / 4)
  if d.l1Size ≤ l2Cluster then throw .read
  else do
    onFst (loadL2 .read l2Cluster)
    let d := (← get).1
    if d.version = .v1 ∧ (d.l2 l2Slot).toNat % d.blocksize ≠ 0 then throw .read
    else do
      let buf ← rawBlock (d.l2 l2Slot)
      modify fun s => (s.1, s.2.pwrite ⟨clu * d.cluster, d.cluster, buf⟩)

/-- `expanded2raw`: the file that takes the place of the image, if the function returns 0
before the fuel is used up. -/
def expanded2raw (fuel : ℕ) (img : File) : Option File := do
  let d ← openDelta img false
  match countUp (2 ^ 32) rawCluster d.l2Size fuel 0 (d, File.empty) with
  | .ok true s => some s.2
  | _ => none

/-! ## The raw disk -/

/-- The file has just the bytes of the virtual disk. -/
structure RawOf (f g : File) : Prop where
  size : g.size = f.hdr.layout.l2Size * f.hdr.layout.cluster
  byte : ∀ clu < f.hdr.layout.l2Size, ∀ j < f.hdr.layout.cluster,
    g.byte (clu * f.hdr.layout.cluster + j) = (content f clu).elim 0 (· j)

namespace Layout

variable (L : Layout)

/-- The bytes of the block that word `w` of a file names; zeros if it is 0. -/
def named (f : File) (w : ℕ) : ℕ → UInt8 := fun j =>
  if f.word w = 0 then 0 else f.byte (s2b (ioffToSec (f.word w) L.blocksize L.version) + j)

/-- What is read for cluster `clu` is there. -/
structure Readable (f : File) (clu : ℕ) : Prop where
  slot : u32 (clu + mapOffset) / L.slots < L.l1Size
  page : u32 (clu + mapOffset) / L.slots * L.cluster + L.cluster ≤ f.size
  aligned : L.version = .v1 → (f.word (u32 (clu + mapOffset))).toNat % L.blocksize = 0
  block : f.word (u32 (clu + mapOffset)) ≠ 0 →
    s2b (ioffToSec (f.word (u32 (clu + mapOffset))) L.blocksize L.version) + L.cluster ≤ f.size

end Layout

/-! ## The loop -/

section Loop

variable {f : File} {L : Layout}

/-- The clusters below `m` are in the file. -/
structure RawAt (f : File) (L : Layout) (m : ℕ) (s : Delta × File) : Prop where
  cached : Cached f L s.1
  size : s.2.size = m * L.cluster
  byte : ∀ clu < m, ∀ j < L.cluster,
    s.2.byte (clu * L.cluster + j) = L.named f (u32 (clu + mapOffset)) j

theorem RawAt.append {m : ℕ} {d : Delta} {o : File} (h : RawAt f L m (d, o)) {e : Delta}
    (he : Cached f L e) (hcluster : 0 < L.cluster) {buf : ℕ → UInt8}
    (hbuf : ∀ j < L.cluster, buf j = L.named f (u32 (m + mapOffset)) j) :
    RawAt f L (m + 1) (e, o.pwrite ⟨m * L.cluster, L.cluster, buf⟩) := by
  have hsize : o.size = m * L.cluster := h.size
  refine ⟨he, ?_, fun clu hclu j hj => ?_⟩
  · rw [File.size_pwrite, if_neg (by simp only; omega), hsize, Nat.succ_mul]
    exact max_eq_right (Nat.le_add_right _ _)
  · rw [File.byte_pwrite]
    rcases Nat.lt_succ_iff_lt_or_eq.mp hclu with hlt | rfl
    · have hbefore : clu * L.cluster + j < m * L.cluster := by
        have hmul := Nat.mul_le_mul_right L.cluster (Nat.succ_le_of_lt hlt)
        rw [Nat.succ_mul] at hmul
        omega
      rw [overlay_of_lt hbefore]
      exact h.byte clu hlt j hj
    · rw [overlay_of_mem (Nat.le_add_right _ _) (by simp only; omega), Nat.add_sub_cancel_left]
      exact hbuf j hj

/-- A turn of the loop copies a cluster, and fails only where something cannot be read. -/
theorem rawCluster_spec (hL : L.Valid) {m : ℕ} : Triple (RawAt f L m) (rawCluster m)
    (fun _ => RawAt f L (m + 1)) (fun _ => ¬ L.Readable f m) := by
  refine Triple.look fun ⟨d, o⟩ h => ?_
  have hc := h.cached
  simp only at hc ⊢
  rw [hc.slots, hc.l1Size]
  split
  case isTrue hslot => exact Triple.raise fun _ _ hread => absurd hread.slot (Nat.not_lt.mpr hslot)
  case isFalse hslot =>
    refine Triple.bind (R := fun _ s => (Cached f L s.1 ∧
      s.1.l2Cache = some (u32 (m + mapOffset) / L.slots)) ∧ s.2 = o) ?_ fun _ => ?_
    · refine ((loadL2_cached hc .read _).onFst o).conseq ?_ (fun _ _ hs => hs) ?_
      · rintro _ rfl
        exact ⟨rfl, rfl⟩
      · exact fun s hend hread => absurd hread.page (Nat.not_le.mpr hend)
    · refine Triple.look fun ⟨e, o'⟩ ⟨⟨he, hpage⟩, ho⟩ => ?_
      obtain rfl : o' = o := ho
      simp only at he hpage ⊢
      have hword : e.l2 (u32 (m + mapOffset) % L.slots) = f.word (u32 (m + mapOffset)) := by
        rw [he.page _ hpage _ (Nat.mod_lt _ hL.slots_pos), Nat.div_add_mod']
      rw [hword, he.version, he.blocksize, he.cluster]
      split
      case isTrue hbad =>
        exact Triple.raise fun _ _ hread => hbad.2 (hread.aligned hbad.1)
      case isFalse hgood =>
        refine Triple.bind (R := fun (buf : ℕ → UInt8) s => s = (e, o') ∧
          ∀ j < L.cluster, buf j = L.named f (u32 (m + mapOffset)) j) ?_ fun buf => ?_
        · refine Triple.look fun t ht => ?_
          subst ht
          dsimp only
          rw [he.version, he.blocksize, he.cluster]
          split
          case isTrue hzero =>
            exact Triple.ret fun s hs => ⟨hs, fun j _ => (if_pos hzero).symm⟩
          case isFalse hne =>
            have hfile := he.file
            refine ((pread_end e .read _ _).onFst o').conseq ?_ ?_ ?_
            · rintro _ rfl
              exact ⟨rfl, rfl⟩
            · rintro buf ⟨e', o''⟩ ⟨⟨rfl, rfl⟩, rfl⟩
              refine ⟨rfl, fun j _ => ?_⟩
              rw [hfile]
              exact (if_neg hne).symm
            · rw [hfile]
              exact fun s hend hread => absurd (hread.block hne) (Nat.not_le.mpr hend)
        · refine Triple.update fun s ⟨hs, hbuf⟩ => ?_
          subst hs
          exact h.append he hL.cluster_pos hbuf

/-- The whole loop. -/
theorem rawLoop_spec (hL : L.Valid) {k : ℕ} : Triple (RawAt f L 0) (forRange rawCluster 0 k)
    (fun _ => RawAt f L k) (fun _ => ∃ clu < k, ¬ L.Readable f clu) := by
  have hloop := Triple.forRange (I := RawAt f L) (E := fun _ => ∃ clu < k, ¬ L.Readable f clu) 0 k
    fun m _ hm => (rawCluster_spec hL).conseq (fun _ h => h) (fun _ _ h => h)
      fun _ hread => ⟨m, by omega, hread⟩
  rwa [Nat.zero_add] at hloop

end Loop

/-! ## The copy and the disk -/

/-- The clusters whose slot number wraps are found under the first words of the header,
so these must by chance name the same bytes. -/
def RawFits (f : File) : Prop :=
  ∀ k, 2 ^ 32 + k < f.hdr.layout.l2Size + mapOffset → ∀ j < f.hdr.layout.cluster,
    f.hdr.layout.named f k j = f.hdr.layout.named f (2 ^ 32 + k) j

section Copy

variable {f g : File} {fuel : ℕ}

theorem content_named (hwf : WellFormed f) {clu j : ℕ} (hclu : clu < f.hdr.layout.l2Size)
    (hj : j < f.hdr.layout.cluster) :
    (content f clu).elim 0 (· j) = f.hdr.layout.named f (clu + mapOffset) j := by
  cases hb : f.hdr.layout.bat f clu with
  | none =>
      have hzero : f.word (clu + mapOffset) = 0 := (Layout.bat_eq_none hclu).mp hb
      have hnone : content f clu = none := read_of_none hb
      rw [hnone]
      exact (if_pos hzero).symm
  | some b =>
      have hne : f.word (clu + mapOffset) ≠ 0 := by
        intro hzero
        rw [(Layout.bat_eq_none hclu).mpr hzero] at hb
        exact absurd hb (Option.some_ne_none b).symm
      have hsec : ioffToSec (f.word (clu + mapOffset)) f.hdr.layout.blocksize f.hdr.layout.version
          = b * f.hdr.layout.blocksize := hwf.table.sec_eq hwf.header.layout.pos hb
      have hoff : s2b (b * f.hdr.layout.blocksize) = b * f.hdr.layout.cluster := by
        simp only [s2b, Layout.cluster]
        ring
      have hread : content f clu = some (f.hdr.layout.block f b) := read_of_some hb
      rw [hread, Layout.named, if_neg hne, hsec, hoff]
      exact if_pos hj

theorem OpenedAt.rawAt {d : Delta} (h : OpenedAt f d) :
    RawAt f f.hdr.layout 0 (d, File.empty) :=
  ⟨h.cached, (Nat.zero_mul _).symm, fun clu hclu => absurd hclu (Nat.not_lt_zero clu)⟩

theorem expanded2raw_spec (hwf : WellFormed f) (h : expanded2raw fuel f = some g) :
    f.hdr.layout.l2Size < 2 ^ 32 ∧ g.size = f.hdr.layout.l2Size * f.hdr.layout.cluster ∧
      ∀ clu < f.hdr.layout.l2Size, ∀ j < f.hdr.layout.cluster,
        g.byte (clu * f.hdr.layout.cluster + j)
          = f.hdr.layout.named f (u32 (clu + mapOffset)) j := by
  unfold expanded2raw at h
  simp only [Option.bind_eq_bind, Option.bind_eq_some_iff] at h
  obtain ⟨d, hd, h⟩ := h
  have hat := openDelta_spec hd
  split at h
  case h_1 s hrun =>
    obtain rfl := Option.some.inj h
    obtain ⟨hlt, hloop⟩ := (countUp_ok_iff (by norm_num)).mp ⟨fuel, hrun⟩
    rw [hat.opened.l2Size] at hlt hloop
    have hend := (rawLoop_spec hwf.header.layout).ok hat.rawAt hloop
    exact ⟨hlt, hend.size, hend.byte⟩
  case h_2 => exact absurd h (Option.some_ne_none g).symm

theorem RawOf.fits (hwf : WellFormed f) (h : expanded2raw fuel f = some g) (hraw : RawOf f g) :
    RawFits f := by
  intro k hk j hj
  obtain ⟨hlt, -, hbyte⟩ := expanded2raw_spec hwf h
  have hclu : 2 ^ 32 + k - mapOffset < f.hdr.layout.l2Size := by
    simp only [mapOffset] at hk ⊢
    omega
  have hslot : 2 ^ 32 + k - mapOffset + mapOffset = 2 ^ 32 + k := by
    simp only [mapOffset]
    omega
  have hwrap : u32 (2 ^ 32 + k) = k := by
    simp only [u32, mapOffset] at hk ⊢
    omega
  have hcopy := hbyte _ hclu j hj
  rw [hraw.byte _ hclu j hj, content_named hwf hclu hj, hslot, hwrap] at hcopy
  exact hcopy.symm

theorem RawFits.rawOf (hwf : WellFormed f) (h : expanded2raw fuel f = some g) (hfits : RawFits f) :
    RawOf f g := by
  obtain ⟨hlt, hsize, hbyte⟩ := expanded2raw_spec hwf h
  refine ⟨hsize, fun clu hclu j hj => ?_⟩
  rw [hbyte clu hclu j hj, content_named hwf hclu hj]
  rcases Nat.lt_or_ge (clu + mapOffset) (2 ^ 32) with hsmall | hlarge
  · rw [u32_of_lt hsmall]
  · obtain ⟨k, hk⟩ := Nat.exists_eq_add_of_le hlarge
    have hwrap : u32 (2 ^ 32 + k) = k := by
      simp only [u32, mapOffset] at hk ⊢
      omega
    rw [hk, hwrap]
    exact hfits k (by omega) j hj

/-- The file is the raw disk exactly if no slot number that wraps matters. -/
theorem expanded2raw_iff (hwf : WellFormed f) (h : expanded2raw fuel f = some g) :
    RawOf f g ↔ RawFits f :=
  ⟨RawOf.fits hwf h, RawFits.rawOf hwf h⟩

/-- With all that is read in the file, the conversion succeeds. -/
theorem exists_expanded2raw (hwf : WellFormed f) (hsize : 4096 ≤ f.size)
    (hclean : f.hdr.mDiskInUse ≠ signatureDiskInUse) (hlt : f.hdr.layout.l2Size < 2 ^ 32)
    (hread : ∀ clu < f.hdr.layout.l2Size, f.hdr.layout.Readable f clu) :
    ∃ fuel g, expanded2raw fuel f = some g := by
  obtain ⟨d, hd⟩ := @exists_openDelta f false hwf.header hsize fun h => absurd h hclean
  have hat := openDelta_spec hd
  have hloop := (rawLoop_spec (k := f.hdr.layout.l2Size) hwf.header.layout).conseq
    (fun _ hs => hs) (fun _ _ hs => hs) fun _ ⟨clu, hclu, hbad⟩ => hbad (hread clu hclu)
  obtain ⟨⟨⟩, s, hrun, -⟩ := hloop.exists_ok hat.rawAt
  obtain ⟨fuel, hcount⟩ := (countUp_ok_iff (m := 2 ^ 32) (by norm_num)).mpr ⟨hlt, hrun⟩
  refine ⟨fuel, s.2, ?_⟩
  unfold expanded2raw
  simp only [Option.bind_eq_bind, hd, Option.bind_some, hat.opened.l2Size, hcount]

end Copy

/-- A disk without a cluster. -/
theorem expanded2raw_iff_formatted : ∃ fuel g, expanded2raw fuel (formatted .v2 2048) = some g ∧
    (RawOf (formatted .v2 2048) g ↔ RawFits (formatted .v2 2048)) := by
  have hbs : isValidBlocksize 2048 := by decide
  have hwf : WellFormed (formatted .v2 2048) := formatted_wellFormed hbs
  have hsize : (formatted .v2 2048).size = s2b 2048 := formatted_size hbs
  have hlayout : (formatted .v2 2048).hdr.layout = ⟨.v2, 2048, 1, 2 ^ 17 / 2048⟩ :=
    formatted_layout hbs
  have hread : ∀ clu < (formatted .v2 2048).hdr.layout.l2Size,
      (formatted .v2 2048).hdr.layout.Readable (formatted .v2 2048) clu := by
    intro clu hclu
    have hentry : (formatted .v2 2048).word (clu + mapOffset) = 0 := by
      rw [(formatted_blank hbs).word]
      exact PvdHeader.toWords_of_ge (Nat.le_add_left _ _)
    rw [hlayout] at hclu ⊢
    have hlt : clu + mapOffset < 2048 * 128 := by
      simp only [mapOffset] at hclu ⊢
      omega
    have hslot : u32 (clu + mapOffset) = clu + mapOffset := u32_of_lt (by omega)
    have hpage : u32 (clu + mapOffset) / (⟨.v2, 2048, 1, 2 ^ 17 / 2048⟩ : Layout).slots = 0 := by
      rw [hslot, Layout.slots_eq]
      exact Nat.div_eq_of_lt hlt
    refine ⟨?_, ?_, ?_, ?_⟩
    · rw [hpage]
      exact Nat.one_pos
    · rw [hpage, hsize, Nat.zero_mul, Nat.zero_add]
      exact le_rfl
    · intro hv
      exact absurd hv (by decide)
    · intro hne
      rw [hslot] at hne
      exact absurd hentry hne
  obtain ⟨fuel, g, hg⟩ := exists_expanded2raw hwf (by rw [hsize]; decide)
    (by rw [(formatted_blank hbs).hdr]; decide) (by rw [hlayout]; decide) hread
  exact ⟨fuel, g, hg, expanded2raw_iff hwf hg⟩

/-! ## Where a slot number wraps -/

/-- The first word of the signature. -/
def sigBlock : ℕ := 0x68746957

/-- A disk of `2 ^ 32 - 15` clusters. -/
def wideHeader : PvdHeader :=
  { PvdHeader.zero with
    mSig := signatureStructuredDiskV2
    mType := prlImageCompressed
    mSectors := 64
    mSizeInSectorsV1 := UInt32.ofNat ((2 ^ 32 - 15) * 64)
    unused := UInt32.ofNat ((2 ^ 32 - 15) * 64 / 2 ^ 32)
    mFirstBlockOffset := UInt32.ofNat ((2 ^ 19 + 1) * 64) }

/-- Cluster 0 lies in the block that the first word of the header would name. -/
def wideWords : ℕ → UInt32 := fun i =>
  if i = mapOffset then UInt32.ofNat sigBlock else wideHeader.toWords i

def wideImage : File :=
  ((File.empty.ftruncate ((sigBlock + 1) * s2b 64)).pwrite ⟨0, 68, wordBytes wideWords⟩).pwrite
    ⟨sigBlock * s2b 64, 1, fun _ => 1⟩

theorem wideImage_size : wideImage.size = (sigBlock + 1) * s2b 64 := by
  have hinner : ((File.empty.ftruncate ((sigBlock + 1) * s2b 64)).pwrite
      ⟨0, 68, wordBytes wideWords⟩).size = (sigBlock + 1) * s2b 64 :=
    File.size_pwrite_le (by decide)
  unfold wideImage
  rw [File.size_pwrite_le (by rw [hinner]; decide), hinner]

theorem wideImage_word {i : ℕ} (hi : i < 2 ^ 33) : wideImage.word i = wideWords i := by
  have hbehind : 4 * i + 4 ≤ sigBlock * s2b 64 := by
    simp only [sigBlock, s2b]
    omega
  unfold wideImage
  rw [File.word_pwrite_of_not_mem _ (.inl hbehind)]
  rcases Nat.lt_or_ge i 17 with hlt | hge
  · rw [File.word_pwrite_of_mem _ (o := 0) rfl (Nat.zero_le i) (by simp only; omega)]
    exact congrFun (bytesWord_wordBytes wideWords) i
  · rw [File.word_pwrite_of_not_mem _ (.inr (by simp only; omega)), wideWords,
      if_neg (by simp only [mapOffset]; omega), PvdHeader.toWords_of_ge (by omega)]
    have hbyte : ∀ k, (File.empty.ftruncate ((sigBlock + 1) * s2b 64)).byte k = 0 := by
      intro k
      simp [File.ftruncate, File.empty]
    simp [File.word, bytesWord, hbyte]

theorem wideImage_hdr : wideImage.hdr = wideHeader := by
  refine PvdHeader.ofWords_congr (w := wideHeader.toWords) fun i hi => ?_
  rw [wideImage_word (by omega), wideWords, if_neg (by simp only [mapOffset]; omega)]

theorem wideImage_layout : wideImage.hdr.layout = ⟨.v2, 64, 2 ^ 19 + 1, 2 ^ 32 - 15⟩ := by
  rw [wideImage_hdr]
  exact Layout.ext (by decide) (by decide) (by decide) (by decide)

theorem wideImage_entry {clu : ℕ} (h : clu + mapOffset < 2 ^ 33) (hne : clu ≠ 0) :
    Layout.entry wideImage clu = 0 := by
  rw [Layout.entry, wideImage_word h, wideWords, if_neg (by omega)]
  exact PvdHeader.toWords_of_ge (Nat.le_add_left _ _)

theorem wideImage_bat {clu b : ℕ}
    (h : (⟨.v2, 64, 2 ^ 19 + 1, 2 ^ 32 - 15⟩ : Layout).bat wideImage clu = some b) :
    clu = 0 ∧ b = sigBlock := by
  have hlt := Layout.bat_lt h
  by_cases hclu : clu = 0
  · subst hclu
    have hentry : Layout.entry wideImage 0 = UInt32.ofNat sigBlock := by
      rw [Layout.entry, wideImage_word (by simp only [mapOffset]; omega)]
      exact if_pos rfl
    refine ⟨rfl, ?_⟩
    unfold Layout.bat at h
    rw [hentry] at h
    exact (Option.some.inj h).symm
  · rw [(Layout.bat_eq_none hlt).mpr (wideImage_entry ((Nat.add_lt_add_right hlt _).trans
      (by decide)) hclu)] at h
    exact absurd h (Option.some_ne_none b).symm

theorem wideImage_wellFormed : WellFormed wideImage := by
  refine ⟨⟨?_, ?_, ?_, ?_⟩, ?_⟩
  · rw [wideImage_hdr]
    decide
  · rw [wideImage_hdr]
    rfl
  · rw [wideImage_hdr]
    decide
  · rw [wideImage_layout]
    exact ⟨by decide, by rw [Layout.slots_eq]; simp [mapOffset]⟩
  · rw [wideImage_layout]
    refine ⟨fun clu _ => Nat.dvd_mul_left _ _, fun clu b hb => ?_, fun clu clu' b hb hb' => ?_,
      fun s hs hroom => ?_⟩
    · obtain ⟨-, rfl⟩ := wideImage_bat hb
      rw [wideImage_size]
      decide
    · rw [(wideImage_bat hb).1, (wideImage_bat hb').1]
    · rw [Layout.slots_eq] at hroom
      simp only at hs hroom
      exact wideImage_entry (by omega) (by omega)

theorem wideImage_readable {clu : ℕ} (h : clu < 2 ^ 32 - 15) :
    (⟨.v2, 64, 2 ^ 19 + 1, 2 ^ 32 - 15⟩ : Layout).Readable wideImage clu := by
  have hslots : (⟨.v2, 64, 2 ^ 19 + 1, 2 ^ 32 - 15⟩ : Layout).slots = 8192 := rfl
  have hcluster : (⟨.v2, 64, 2 ^ 19 + 1, 2 ^ 32 - 15⟩ : Layout).cluster = 32768 := rfl
  have hlt := u32_lt (clu + mapOffset)
  have hsize : wideImage.size = (sigBlock + 1) * 32768 := wideImage_size
  have hpage : u32 (clu + mapOffset) / 8192 < 2 ^ 19 := by omega
  refine ⟨?_, ?_, fun hv => absurd hv (by decide), fun hne => ?_⟩
  · rw [hslots]
    exact hpage.trans (by decide)
  · rw [hslots, hcluster, hsize, sigBlock]
    omega
  · -- only cluster 0 and the wrapped slot name a block, and both name the same
    have hword : wideImage.word (u32 (clu + mapOffset)) = UInt32.ofNat sigBlock := by
      by_cases hsmall : clu + mapOffset < 2 ^ 32
      · rw [u32_of_lt hsmall] at hne ⊢
        by_cases hclu : clu = 0
        · subst hclu
          rw [wideImage_word (by decide)]
          exact if_pos rfl
        · exact absurd (wideImage_entry (by omega) hclu) hne
      · have hwrap : u32 (clu + mapOffset) = 0 := by
          simp only [u32, mapOffset] at hsmall ⊢
          omega
        rw [hwrap, wideImage_word (by decide)]
        decide
    rw [hword, hcluster, hsize]
    decide

/-- The last cluster of the disk reads what the first one holds. -/
theorem expanded2raw_wraps : ¬ ∀ (fuel : ℕ) (f g : File), WellFormed f →
    expanded2raw fuel f = some g → RawOf f g := by
  intro hall
  have hwf := wideImage_wellFormed
  obtain ⟨fuel, g, hg⟩ := exists_expanded2raw hwf (by rw [wideImage_size]; decide)
    (by rw [wideImage_hdr]; decide) (by rw [wideImage_layout]; decide) (fun clu hclu => by
      rw [wideImage_layout] at hclu ⊢
      exact wideImage_readable hclu)
  have hfits := (hall fuel _ g hwf hg).fits hwf hg 0 (by rw [wideImage_layout]; decide) 0
    (by rw [wideImage_layout]; decide)
  rw [wideImage_layout] at hfits
  have hfirst : wideImage.word 0 = UInt32.ofNat sigBlock := by
    rw [wideImage_word (by decide)]
    decide
  have hlast : wideImage.word (2 ^ 32) = 0 := wideImage_entry (by decide)
    (by decide : 2 ^ 32 - 16 ≠ 0)
  have hbyte : wideImage.byte (sigBlock * s2b 64) = 1 := by
    unfold wideImage
    rw [File.byte_pwrite]
    exact overlay_of_mem le_rfl (Nat.lt_succ_self _)
  have hne : ¬ UInt32.ofNat sigBlock = 0 := by decide
  rw [Layout.named, Layout.named, hfirst, Nat.add_zero (2 ^ 32), hlast, if_neg hne,
    if_pos rfl] at hfits
  exact absurd (hbyte.symm.trans hfits) (by decide)

end Ploop
