import Ploop.Image.GrowOffline

/-!
# The length of a grown file

Every cluster whose block lies below the new first data block gets a block at the end. The
header is written when the file has its last length.
-/

namespace Ploop

open Storage Indirection Program

/-! ## The blocks that move -/

section Low

variable {l2Size n clu b A : ℕ} {T : ℕ → Option ℕ}

/-- The clusters whose block lies below `n`. -/
def lowClusters (l2Size n : ℕ) (T : ℕ → Option ℕ) : Finset ℕ :=
  (Finset.range l2Size).filter fun clu => (T clu).any fun b => b < n

theorem mem_lowClusters :
    clu ∈ lowClusters l2Size n T ↔ clu < l2Size ∧ ∃ b < n, T clu = some b := by
  unfold lowClusters
  rw [Finset.mem_filter, Finset.mem_range]
  apply and_congr_right
  intro _
  cases T clu with
  | none => simp
  | some b => simp

/-- A cluster that has moved is not low any more. -/
theorem lowClusters_update (hclu : clu < l2Size) (hb : b < n) (hT : T clu = some b) (hA : n ≤ A) :
    (lowClusters l2Size n (Function.update T clu (some A))).card + 1 =
      (lowClusters l2Size n T).card := by
  have herase : lowClusters l2Size n (Function.update T clu (some A)) =
      (lowClusters l2Size n T).erase clu := by
    apply Finset.ext
    intro k
    rw [Finset.mem_erase, mem_lowClusters, mem_lowClusters, Function.update_apply]
    by_cases hk : k = clu
    · rw [if_pos hk]
      constructor
      · rintro ⟨-, c, hc, heq⟩
        obtain rfl := Option.some.inj heq
        exact absurd hc (Nat.not_lt.mpr hA)
      · exact fun h => absurd hk h.1
    · rw [if_neg hk]
      exact ⟨fun h => ⟨hk, h⟩, fun h => h.2⟩
  rw [herase]
  exact Finset.card_erase_add_one (mem_lowClusters.mpr ⟨hclu, b, hb, hT⟩)

theorem lowClusters_eq_empty (h : ∀ clu b, T clu = some b → n ≤ b) :
    lowClusters l2Size n T = ∅ := by
  apply Finset.eq_empty_of_forall_notMem
  intro clu hmem
  obtain ⟨-, b, hb, hT⟩ := mem_lowClusters.mp hmem
  exact absurd hb (Nat.not_lt.mpr (h clu b hT))

end Low

/-! ## The loop -/

section Loop

variable {L : Layout} {R : Set VDisk} {S₀ : Set ℕ} {l1' m i A₁ A N z : ℕ} {d : Delta}

/-- The loop at block `i`: `N` is where the allocation head will end, and `z` the length that
the file had. -/
structure Counting (L : Layout) (R : Set VDisk) (S₀ : Set ℕ) (l1' m i A₁ N z A : ℕ) (d : Delta) :
    Prop extends Clearing L R S₀ l1' m i A₁ A d where
  count : A + (lowClusters L.l2Size l1' (L.bat d.file)).card = N
  length : d.file.size = max z (A * L.cluster)

theorem size_moved {D : Disk} {clu : ℕ} {src : ℕ → UInt8} (hL : L.Valid) (hclu : clu < L.l2Size)
    (hA : L.l1Size ≤ A) :
    (moved L D clu A src).file.size = max D.file.size ((A + 1) * L.cluster) := by
  have hcpos := hL.cluster_pos
  have hslot := lt_of_lt_of_le (hL.clu_lt hclu) (Nat.mul_le_mul_right L.slots hA)
  have hA4 : A * L.cluster = 4 * (A * L.slots) := by
    rw [Layout.cluster_eq]
    ring
  have hfirst : (D.file.pwrite ⟨A * L.cluster, L.cluster, src⟩).size =
      max D.file.size ((A + 1) * L.cluster) := by
    rw [File.size_pwrite, if_neg hcpos.ne', Nat.succ_mul]
  simp only [moved, Disk.file_write, Disk.file_sync]
  rw [File.size_pwrite_le, hfirst]
  have hend : 4 * (clu + mapOffset) + 4 ≤ A * L.cluster := by omega
  rw [hfirst]
  exact hend.trans ((Nat.mul_le_mul_right _ (Nat.le_succ A)).trans (le_max_right _ _))

/-- Moving a block. -/
theorem Counting.move (h : Counting L R S₀ l1' m i A₁ N z A d) (hi : L.l1Size ≤ i) (hil : i < l1')
    {clu : ℕ} {src : ℕ → UInt8} (hclu : L.bat d.file clu = some i) {d' : Delta}
    (hw : Working L R S₀ (A + 1) d') (hfit : L.Fits A)
    (hdisk : d'.disk = moved L d.disk clu A src) :
    Counting L R S₀ l1' m i A₁ N z (A + 1) d' ∧ ∀ k, L.bat d'.file k ≠ some i := by
  have hL := h.working.steady.valid
  obtain ⟨hmove, hdead⟩ := h.toClearing.move hi hil hclu hw hfit hdisk
  have hlt := Layout.bat_lt hclu
  refine ⟨⟨hmove, ?_, ?_⟩, hdead⟩
  · have hbat : L.bat d'.file = Function.update (L.bat d.file) clu (some A) := by
      rw [Delta.file, hdisk]
      exact bat_moved hL hlt h.low hfit
    have hcard := lowClusters_update hlt hil hclu h.past
    rw [hbat, ← h.count, ← hcard]
    ring
  · have hsize := @size_moved L A d.disk clu src hL hlt h.low
    have hle := Nat.mul_le_mul_right L.cluster (Nat.le_succ A)
    rw [Delta.file, hdisk, hsize]
    change max d.file.size _ = _
    rw [h.length, max_assoc, max_eq_right hle]

theorem Counting.release (h : Counting L R S₀ l1' m i A₁ N z A d) (hi : L.l1Size ≤ i)
    (hil : i < l1') (hdead : ∀ clu, L.bat d.file clu ≠ some i) :
    Counting L R S₀ l1' m (i + 1) A₁ N z A
      (d.sync.write ⟨i * L.cluster, L.cluster, fun _ => 0⟩) := by
  have hL := h.working.steady.valid
  have hfile : (d.sync.write ⟨i * L.cluster, L.cluster, fun _ => 0⟩).file
      = d.file.pwrite ⟨i * L.cluster, L.cluster, fun _ => 0⟩ := by
    rw [Delta.file_write, Delta.file_sync]
  have hbat : L.bat (d.file.pwrite ⟨i * L.cluster, L.cluster, fun _ => 0⟩) = L.bat d.file := by
    funext clu
    apply Layout.bat_congr
    intro hclu
    exact Layout.entry_pwrite_of_ge (hL.clu_lt hclu) (Nat.mul_le_mul_right _ hi)
  have hend : i * L.cluster + L.cluster ≤ d.file.size := by
    rw [h.length, ← Nat.succ_mul]
    exact (Nat.mul_le_mul_right _ ((Nat.succ_le_of_lt hil).trans h.past)).trans (le_max_right _ _)
  refine ⟨h.toClearing.release hi hil hdead, ?_, ?_⟩
  · rw [hfile, hbat]
    exact h.count
  · rw [hfile, File.size_pwrite_le hend]
    exact h.length

theorem growLoop_counts (hsmall : L.l1Size < l1' → L.l2Size + mapOffset ≤ 2 ^ 32)
    (hfit : ∀ b < l1', L.Fits b) (k : ℕ) (hm : k = 0 ∨ m ≤ l1') (hi : L.l1Size ≤ i)
    (hik : i + k = m) :
    Triple (fun d => ∃ A, Counting L R S₀ l1' m i A₁ N z A d) (growLoop false k i)
      (fun _ d => ∃ A, Counting L R S₀ l1' m m A₁ N z A d) (fun _ => True) := by
  induction k generalizing i with
  | zero =>
      obtain rfl : i = m := hik
      exact Triple.ret fun d hd => hd
  | succ k ih =>
      have hil : i < l1' := by omega
      have hrest : Triple (fun d => ∃ A, Counting L R S₀ l1' m i A₁ N z A d ∧
          ∀ clu, L.bat d.file clu ≠ some i)
          (do fsync; nullifyBlock i; growLoop false k (i + 1))
          (fun _ d => ∃ A, Counting L R S₀ l1' m m A₁ N z A d) (fun _ => True) := by
        apply Triple.start
        rintro d ⟨A, hd, hdead⟩
        apply Triple.step
        apply Triple.bind (nullifyBlock_spec i d.sync)
        intro _
        apply (ih (by omega) (by omega) (by omega)).conseq
        · rintro s rfl
          have hc : d.sync.cluster = L.cluster := hd.working.opened.cluster
          rw [hc]
          exact ⟨A, hd.release hi hil hdead⟩
        · exact fun _ _ h => h
        · exact fun _ h => h
      apply Triple.start
      rintro d ⟨A, hd⟩
      have hroom : A ≤ L.limit ∨ ∀ clu, L.bat d.file clu ≠ some i := by
        apply hd.room.imp_right
        intro h clu hclu
        exact absurd hil (Nat.not_lt.mpr (h.2 clu i hclu))
      have hreloc := relocateBlock_spec (hsmall (hi.trans_lt hil)) hd.working hi (hfit i hil)
        hd.low hroom
      unfold growLoop
      apply Triple.bind (hreloc.conseq (fun _ h => h) (fun _ _ h => h) fun _ _ => True.intro)
      intro r
      apply hrest.conseq ?_ (fun _ _ h => h) fun _ h => h
      intro d'
      cases r with
      | none =>
          rintro ⟨hw, hdisk, hdead⟩
          have hfile : d'.file = d.file := congrArg Disk.file hdisk
          refine ⟨A, ⟨⟨hw, hd.past, hd.low, ?_, ?_, .inl (hi.trans hil.le)⟩, ?_, ?_⟩, ?_⟩
          · rw [hfile]
            exact hd.room
          · rw [hfile]
            exact hd.cleared
          · rw [hfile]
            exact hd.count
          · rw [hfile]
            exact hd.length
          · rwa [hfile]
      | some r =>
          rintro ⟨clu, src, hclu, hw, hfitA, hdisk, -⟩
          exact ⟨A + 1, hd.move hi hil hclu hw hfitA hdisk⟩

end Loop

/-! ## The whole grow -/

section Grow

variable {L : Layout} {R : Set VDisk} {S₀ : Set ℕ} {A₀ bdsize : ℕ} {d : Delta}

theorem appendGap_length {n : ℕ} (hpos : d.cluster ≠ 0)
    (hhead : d.allocHead.toNat * d.cluster ≤ d.file.size) :
    Triple (fun s => s = d) (appendGap n)
      (fun _ s => s.file.size = max d.file.size (max d.allocHead.toNat n * d.cluster))
      (fun _ => True) := by
  apply Triple.look
  rintro e rfl
  dsimp only
  split
  case isTrue hgap =>
    rw [max_eq_right hgap.le]
    apply Triple.bind (R := fun _ s => s.file.size = max e.file.size (n * e.cluster))
    · have hstep : ∀ i, e.allocHead.toNat ≤ i →
          i < e.allocHead.toNat + (n - e.allocHead.toNat) →
          Triple (fun s : Delta => s.cluster = e.cluster ∧
              s.file.size = max e.file.size (i * e.cluster)) (nullifyBlock i)
            (fun _ s => s.cluster = e.cluster ∧
              s.file.size = max e.file.size ((i + 1) * e.cluster)) fun _ => True := by
        intro i _ _
        apply Triple.look
        rintro s ⟨hc, hs⟩
        apply Triple.update
        rintro t rfl
        refine ⟨hc, ?_⟩
        have hle := Nat.mul_le_mul_right e.cluster (Nat.le_succ i)
        rw [Delta.file_write, hc, File.size_pwrite, if_neg hpos, hs, ← Nat.succ_mul, max_assoc,
          max_eq_right hle]
      have hloop := Triple.forRange (I := fun i (s : Delta) => s.cluster = e.cluster ∧
        s.file.size = max e.file.size (i * e.cluster)) _ _ hstep
      rw [Nat.add_sub_cancel' hgap.le] at hloop
      apply hloop.conseq
      · rintro s rfl
        exact ⟨rfl, (max_eq_left hhead).symm⟩
      · exact fun _ _ h => h.2
      · exact fun _ h => h
    · intro _
      apply Triple.bind (R := fun _ s => s.file.size = max e.file.size (n * e.cluster))
      · exact Triple.update fun _ hs => hs
      · exact fun _ => Triple.ret fun _ hs => hs
  case isFalse hgap =>
    apply Triple.ret
    rintro s rfl
    rw [max_eq_left (Nat.not_lt.mp hgap), max_eq_left hhead]

theorem updateHeader_flags {ivh : PvdHeader} (hsize : headerBytes ≤ d.file.size) :
    Triple (fun s => s = d) (updateHeader ivh)
      (fun _ s => s.file.size = d.file.size ∧ s.file.hdr =
        if d.file.size / ivh.mSectors.toNat ≤ ivh.mFirstBlockOffset.toNat
        then { ivh with mFlags := cifEmpty } else ivh) (fun _ => True) := by
  apply Triple.step
  apply Triple.look
  rintro s rfl
  apply Triple.update
  rintro t rfl
  rw [Delta.file_write, hdr_pwrite_header, Delta.file_sync]
  exact ⟨File.size_pwrite_le ((Nat.zero_add _).trans_le hsize), rfl⟩

/-- Where the allocation head of a file of `A₀` blocks ends. -/
def lastHead (L : Layout) (bdsize A₀ : ℕ) (f : File) : ℕ :=
  max A₀ (newLayout L.version L.blocksize bdsize).l1Size +
    (lowClusters L.l2Size (newLayout L.version L.blocksize bdsize).l1Size (L.bat f)).card

/-- What a grow leaves of the length of the file and of the header. -/
structure Flagged (L : Layout) (bdsize N : ℕ) (f g : File) : Prop where
  layout : g.hdr.layout = newLayout L.version L.blocksize bdsize
  length : g.size = max f.size (N * L.cluster)
  flags : g.hdr.mFlags = if g.size / L.blocksize ≤
    (newLayout L.version L.blocksize bdsize).l1Size * L.blocksize then cifEmpty else 0

theorem growDelta_flagged (hw : Working L R S₀ A₀ d)
    (hlen : A₀ * L.cluster ≤ d.file.size) (hr : Representable L.version L.blocksize bdsize)
    (hdvd : L.blocksize ∣ bdsize) (hfit : IndexFits bdsize L.blocksize)
    (hroom : GrowRoom L bdsize A₀ d.file) :
    Triple (fun s => s = d) (growDelta bdsize false)
      (fun _ d' => Flagged L bdsize (lastHead L bdsize A₀ d.file) d.file d'.file)
      (fun _ => True) := by
  have hL := hw.steady.valid
  have hgen : (grownHeader bdsize L.blocksize L.version).GeneratedFor L.version L.blocksize
      bdsize :=
    (generatePvdHeader_generatedFor hL.blocksize hr hdvd).setFields _ _
  have hlay := hgen.layout_eq hfit
  have hvalid := hgen.valid hL.blocksize hfit
  have hzero : (grownHeader bdsize L.blocksize L.version).mFlags = 0 := by
    cases L.version <;> rfl
  unfold lastHead
  unfold GrowRoom at hroom
  generalize hivh : grownHeader bdsize L.blocksize L.version = ivh at hgen hlay hvalid hzero
  have hl1 : ivh.mFirstBlockOffset.toNat / ivh.mSectors.toNat
      = (newLayout L.version L.blocksize bdsize).l1Size := congrArg Layout.l1Size hlay
  have hoffset : ivh.mFirstBlockOffset.toNat =
      (newLayout L.version L.blocksize bdsize).l1Size * L.blocksize := by
    rw [← hl1, hgen.sectors]
    have hmul := Nat.div_mul_cancel (Nat.dvd_of_mod_eq_zero hvalid.aligned)
    rw [hgen.sectors] at hmul
    exact hmul.symm
  have hsmall : L.l1Size < (newLayout L.version L.blocksize bdsize).l1Size →
      L.l2Size + mapOffset ≤ 2 ^ 32 := by
    intro hlt
    have hroom := hL.room
    have hle := Nat.mul_le_mul_right L.slots hlt.le
    have hslots := hfit.slots_lt
    omega
  have hmod := Nat.mod_le A₀ (2 ^ 32)
  have hfits : ∀ b < (newLayout L.version L.blocksize bdsize).l1Size, L.Fits b :=
    fun b hb => newLayout_fits hL.blocksize hfit hb
  apply Triple.look
  rintro s rfl
  rw [hw.opened.blocksize, hw.opened.version, hw.opened.l1Size, hivh, hw.head_toNat]
  dsimp only
  rw [hl1]
  generalize hnew : (newLayout L.version L.blocksize bdsize).l1Size = l1' at *
  split
  case isTrue => exact Triple.raise fun _ _ => True.intro
  case isFalse hA =>
    obtain ⟨hwrap, hmove⟩ := hroom (Nat.not_lt.mp hA)
    split
    case isTrue => exact Triple.raise fun _ _ => True.intro
    case isFalse hcache =>
      have hc := hw.opened.cluster
      have hheadlen : s.allocHead.toNat * s.cluster ≤ s.file.size := by
        rw [hw.head_toNat, hc]
        exact (Nat.mul_le_mul_right _ hmod).trans hlen
      have hgap := (appendGap_spec hw hwrap (Nat.not_lt.mp hA)
        (Option.not_isSome_iff_eq_none.mp hcache) hmove).both
        (appendGap_length (hc ▸ hL.cluster_pos.ne') hheadlen)
      apply Triple.bind (hgap.conseq (fun _ h => h) (fun _ _ h => h) fun _ _ => True.intro)
      intro n
      apply Triple.start
      rintro e ⟨⟨m, hm, hk, he, hbat, -⟩, hsize⟩
      -- a head that has wrapped is past the new index, and within the file
      have hmax : max s.file.size (max (A₀ % 2 ^ 32) l1' * L.cluster)
          = max s.file.size (max A₀ l1' * L.cluster) := by
        by_cases hsmall : A₀ < 2 ^ 32
        · rw [Nat.mod_eq_of_lt hsmall]
        · have hpast : l1' ≤ A₀ % 2 ^ 32 := Nat.not_lt.mp fun hlt => hsmall (hwrap hlt)
          have hwrapped := (Nat.mul_le_mul_right L.cluster hmod).trans hlen
          rw [max_eq_left hpast, max_eq_left (hpast.trans hmod), max_eq_left hwrapped,
            max_eq_left hlen]
      rw [hw.head_toNat, hc, hmax] at hsize
      rw [if_neg (fun h => absurd h.1 Bool.false_ne_true)]
      have hcount : Counting L R S₀ l1' m L.l1Size (max A₀ l1')
          (max A₀ l1' + (lowClusters L.l2Size l1' (L.bat s.file)).card) s.file.size
          (max A₀ l1') e := by
        refine ⟨he, ?_, hsize⟩
        rw [hbat]
      apply Triple.bind ((growLoop_counts hsmall hfits _ hk le_rfl hm).conseq
        (fun t ht => ⟨_, ht ▸ hcount⟩) (fun _ _ h => h) fun _ h => h)
      intro maps
      apply Triple.start
      rintro e' ⟨A, he'⟩
      have hempty : lowClusters L.l2Size l1' (L.bat e'.file) = ∅ := by
        apply lowClusters_eq_empty
        intro clu b hb
        have hahead := he'.cleared.ahead clu b hb
        omega
      have hcount' := he'.count
      rw [hempty, Finset.card_empty, Nat.add_zero] at hcount'
      have hlength := he'.length
      rw [hcount'] at hlength
      have hbig : headerBytes ≤ e'.file.size := by
        rw [he'.length]
        have hl1pos : 1 ≤ A := hL.l1_pos.trans_le he'.low
        have hcluster := Nat.mul_le_mul_right L.cluster hl1pos
        have hmin := hL.blocksize.1
        refine le_trans ?_ (le_max_right _ _)
        simp only [Layout.cluster, s2b, headerBytes] at hcluster ⊢
        omega
      apply Triple.bind (updateHeader_flags hbig)
      intro _
      apply Triple.start
      rintro u ⟨hu, hhdr⟩
      rw [hgen.sectors, hoffset] at hhdr
      apply Triple.step
      apply Triple.ret
      rintro v rfl
      constructor
      · change u.file.hdr.layout = _
        rw [hhdr, ← hlay]
        split
        · rfl
        · rfl
      · exact hu.trans hlength
      · rw [hnew]
        change u.file.hdr.mFlags = if u.file.size / _ ≤ _ then _ else _
        rw [hu, hhdr]
        split
        · rfl
        · exact hzero

end Grow

/-! ## The flag -/

/-- The flag says whether there is data. -/
structure EmptyFlagRight (g : File) : Prop where
  set : g.size / g.hdr.layout.cluster ≤ g.hdr.layout.l1Size → g.hdr.mFlags &&& cifEmpty ≠ 0
  clear : (∃ clu, content g clu ≠ none) → g.hdr.mFlags &&& cifEmpty = 0

/-- The first data block when the disk of `f` has `size` sectors. -/
def newFirstBlock (f : File) (size : ℕ) : ℕ :=
  (newLayout f.hdr.layout.version f.hdr.layout.blocksize size).l1Size

/-- The length of the file when its header is written. -/
def grownLength (f : File) (size : ℕ) : ℕ :=
  max f.size (lastHead f.hdr.layout size (f.size / f.hdr.layout.cluster) f * f.hdr.layout.cluster)

/-- Where the comparison of the lengths gives the flag that is right. -/
structure FlagFits (f : File) (size : ℕ) (used stored : Prop) : Prop where
  full : used →
    newFirstBlock f size * f.hdr.layout.blocksize < grownLength f size / f.hdr.layout.blocksize
  free : ¬ used → ¬ stored → grownLength f size / f.hdr.layout.cluster ≤ newFirstBlock f size →
    grownLength f size / f.hdr.layout.blocksize ≤ newFirstBlock f size * f.hdr.layout.blocksize

section Flag

variable {f g : File} {size newSize : ℕ} {used stored : Prop} {d : Delta}

theorem emptyFlagRight_iff_of (hg : WellFormed g)
    (hlayout : g.hdr.layout = newLayout f.hdr.layout.version f.hdr.layout.blocksize size)
    (hflags : g.hdr.mFlags = if grownLength f size / f.hdr.layout.blocksize ≤
      newFirstBlock f size * f.hdr.layout.blocksize then cifEmpty else 0)
    (hused : used ↔ ∃ clu, content g clu ≠ none)
    (hlength : ¬ used → (g.size / f.hdr.layout.cluster ≤ newFirstBlock f size ↔
      ¬ stored ∧ grownLength f size / f.hdr.layout.cluster ≤ newFirstBlock f size)) :
    EmptyFlagRight g ↔ FlagFits f size used stored := by
  have hcluster : g.hdr.layout.cluster = f.hdr.layout.cluster := by
    rw [hlayout]
    rfl
  have hl1 : g.hdr.layout.l1Size = newFirstBlock f size := by
    rw [hlayout]
    rfl
  have hset : g.hdr.mFlags &&& cifEmpty = 0 ↔ ¬ grownLength f size / f.hdr.layout.blocksize ≤
      newFirstBlock f size * f.hdr.layout.blocksize := by
    rw [hflags]
    split
    case isTrue h => exact ⟨fun hne => absurd hne (by decide), fun hnot => absurd h hnot⟩
    case isFalse h => exact ⟨fun _ => h, fun _ => rfl⟩
  have hunused : g.size / f.hdr.layout.cluster ≤ newFirstBlock f size → ¬ used := by
    intro hle hu
    obtain ⟨clu, hclu⟩ := hused.mp hu
    cases hb : g.hdr.layout.bat g clu with
    | none => exact hclu (read_of_none hb)
    | some b =>
        obtain ⟨hlow, hhigh⟩ := hg.table.inData clu b hb
        rw [hl1] at hlow
        rw [hcluster] at hhigh
        omega
  constructor
  · rintro ⟨hright, hclear⟩
    rw [hcluster, hl1, ne_eq, hset, not_not] at hright
    rw [hset, ← hused] at hclear
    constructor
    · exact fun hu => Nat.not_le.mp (hclear hu)
    · exact fun hu hs hle => hright ((hlength hu).mpr ⟨hs, hle⟩)
  · rintro ⟨hfull, hfree⟩
    constructor
    · intro hle
      rw [hcluster, hl1] at hle
      have hu := hunused hle
      obtain ⟨hs, hgrown⟩ := (hlength hu).mp hle
      rw [ne_eq, hset, not_not]
      exact hfree hu hs hgrown
    · intro hany
      rw [hset]
      exact Nat.not_le.mpr (hfull (hused.mpr hany))

/-- A write in the header leaves the length. -/
theorem size_write_diskInUse (hsize : headerBytes ≤ d.file.size) (v : UInt32) :
    (d.write ⟨PvdHeader.offDiskInUse, 4, wordBytes fun _ => v⟩).sync.file.size = d.file.size := by
  rw [Delta.file_sync, Delta.file_write]
  apply File.size_pwrite_le
  have hfield : PvdHeader.offDiskInUse + 4 ≤ headerBytes := by decide
  exact hfield.trans hsize

theorem growDeltaOfflineBody_flagged (hopen : OpenedAt f d) (hsize : 4096 ≤ f.size)
    (hf : WellFormed f)
    (hr : Representable f.hdr.layout.version f.hdr.layout.blocksize newSize)
    (hfit : GrowFits f newSize) (hlt : getSizeInSectors f.hdr < newSize) :
    Triple (fun s => s = d) (growDeltaOfflineBody newSize)
      (fun _ d' => f.hdr.layout.blocksize ∣ newSize ∧ Flagged f.hdr.layout newSize
        (lastHead f.hdr.layout newSize (f.size / f.hdr.layout.cluster) f) f d'.file)
      (fun _ => True) := by
  have hw := hopen.working hf
  have hL := hw.steady.valid
  have hfile : d.file = f := congrArg Disk.file hopen.disk
  simp only [GrowFits, growRange_iff] at hfit
  generalize f.hdr.layout = L at *
  apply Triple.look
  rintro s rfl
  simp only [hw.opened.blocksize, hw.opened.version, checkBlockdevSize, decide_eq_true_eq,
    hopen.hdr0]
  by_cases hmod : newSize % L.blocksize = 0
  case neg =>
    rw [if_pos hmod]
    exact Triple.raise fun _ _ => True.intro
  case pos =>
    have hdvd := Nat.dvd_of_mod_eq_zero hmod
    have hgen := @generatePvdHeader_generatedFor L.version L.blocksize newSize PvdHeader.zero
      hL.blocksize hr hdvd
    obtain ⟨hindex, hroom⟩ := hfit hlt hdvd
    rw [if_neg (not_not.mpr hmod), hgen.sizeInSectors, if_neg hlt.ne', if_neg hlt.not_gt]
    apply Triple.bind (dirtyDelta_spec s)
    intro _
    apply Triple.start
    intro e he
    have hwe : Working L {content f} (live (L.bat f)) (f.size / L.cluster) e := hw.dirty he
    have hheader : headerBytes ≤ s.file.size := by
      rw [hfile]
      exact le_trans (by decide) hsize
    have hesize : e.file.size = f.size := by
      rw [he, ← hfile]
      exact size_write_diskInUse hheader _
    have hbat : L.bat e.file = L.bat f := by
      rw [he, bat_dirty, hfile]
    have hgrow : GrowRoom L newSize (f.size / L.cluster) e.file := by
      rwa [GrowRoom, hbat]
    have hlen : f.size / L.cluster * L.cluster ≤ e.file.size := by
      rw [hesize]
      exact Nat.div_mul_le_self _ _
    apply Triple.bind (growDelta_flagged hwe hlen hr hdvd hindex hgrow)
    intro _
    apply Triple.start
    rintro e' ⟨hlayout, hlength, hflags⟩
    rw [lastHead, hbat, hesize] at hlength
    have hheader' : headerBytes ≤ e'.file.size := by
      rw [hlength]
      exact (le_trans (by decide) hsize).trans (le_max_left _ _)
    apply Triple.bind (clearDelta_spec e')
    intro _
    apply Triple.start
    intro e'' he''
    apply Triple.update
    intro d' hd'
    rw [hd']
    have hsize'' : e''.sync.file.size = e'.file.size := by
      rw [Delta.file_sync, he'']
      exact size_write_diskInUse hheader' _
    have hhdr'' : e''.sync.file.hdr = { e'.file.hdr with mDiskInUse := 0 } := by
      rw [Delta.file_sync, he'']
      change (e'.write _).sync.file.hdr = _
      rw [Delta.file_sync, Delta.file_write, hdr_pwrite_diskInUse]
    refine ⟨hdvd, ?_, hsize''.trans hlength, ?_⟩
    · rw [hhdr'', ← hlayout]
      rfl
    · rw [hhdr'', hsize'']
      exact hflags

/-- The flag after an offline grow. -/
theorem ploopGrowDeltaOffline_flag {D : Disk} (hf : WellFormed f)
    (hr : Representable f.hdr.layout.version f.hdr.layout.blocksize newSize)
    (hfit : GrowFits f newSize) (hlt : getSizeInSectors f.hdr < newSize)
    (h : ploopGrowDeltaOffline f newSize = (none, D)) :
    EmptyFlagRight D.file ↔ FlagFits f newSize (∃ clu, content f clu ≠ none) False := by
  have hsafe := ploopGrowDeltaOffline_safe hf hr hfit
  rw [h] at hsafe
  have hsound := hsafe.every.file
  have hcontent : content D.file = content f := hsound.content
  obtain ⟨d, d', hopen, hrun, rfl⟩ := ploopGrowDeltaOffline_ok h
  have hat := openDelta_spec hopen
  obtain ⟨-, hflagged⟩ := (growDeltaOfflineBody_flagged hat (openDelta_size hopen) hf hr hfit
    hlt).ok rfl hrun
  have hlength : d'.disk.file.size = grownLength f newSize := hflagged.length
  apply emptyFlagRight_iff_of hsound.wellFormed hflagged.layout
  · rw [← hlength]
    exact hflagged.flags
  · rw [hcontent]
  · intro _
    rw [hlength]
    exact ⟨fun hle => ⟨not_false, hle⟩, fun hle => hle.2⟩

end Flag

end Ploop
