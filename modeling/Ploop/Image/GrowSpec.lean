import Ploop.Image.GrowRun

/-!
# What growing achieves

The specification of `grow_delta`, used by the offline grow and by the merge,
and the two results about `ploop_grow_delta_offline`.
-/

namespace Ploop

open Storage Indirection Program

/-! ## Appending the gap -/

section Append

variable {L : Layout} {R : Set VDisk} {S₀ : Set ℕ} {A₀ : ℕ} {d₀ : Delta}

/-- Blocks `A₀` to `j` have been appended as zeros. -/
structure Appended (L : Layout) (R : Set VDisk) (S₀ : Set ℕ) (A₀ j : ℕ) (d₀ d : Delta) : Prop where
  working : Working L R S₀ A₀ d
  before : ∀ w < A₀ * L.slots, d.file.word w = d₀.file.word w
  zero : ∀ w, A₀ * L.slots ≤ w → w < j * L.slots → d.file.word w = 0

theorem Appended.next {j : ℕ} {d : Delta} (h : Appended L R S₀ A₀ j d₀ d) (hA : L.l1Size ≤ A₀)
    (hj : A₀ ≤ j) :
    Appended L R S₀ A₀ (j + 1) d₀ (d.write ⟨j * L.cluster, L.cluster, fun _ => 0⟩) := by
  have hcluster : j * L.cluster = 4 * (j * L.slots) := by
    rw [Layout.cluster_eq]
    ring
  have hc := Layout.cluster_eq (L := L)
  have hle := Nat.mul_le_mul_right L.slots hj
  refine ⟨⟨h.working.opened.write ?_, ?_, h.working.head⟩, ?_, ?_⟩
  · exact Nat.mul_le_mul_right _ (hA.trans hj)
  · exact h.working.steady.write_fresh (hA.trans hj) hj _
  · intro w hw
    rw [Delta.file_write, d.file.word_pwrite_of_not_mem (by simp only; omega)]
    exact h.before w hw
  · intro w h₁ h₂
    rw [Nat.succ_mul] at h₂
    rw [Delta.file_write]
    by_cases hw : j * L.slots ≤ w
    · rw [d.file.word_pwrite_of_mem (o := j * L.slots) hcluster hw (by simp only; omega)]
      rfl
    · rw [d.file.word_pwrite_of_not_mem (by simp only; omega)]
      exact h.zero w h₁ (by omega)

theorem append_spec {k : ℕ} (hA : L.l1Size ≤ A₀) (hw : Working L R S₀ A₀ d₀) :
    Triple (fun s => s = d₀) (Program.forRange nullifyBlock A₀ k)
      (fun _ d => Appended L R S₀ A₀ (A₀ + k) d₀ d)
      (fun d => d.disk.Safe (Sound R L.cluster S₀)) := by
  refine (Triple.forRange (I := fun j d => A₀ ≤ j ∧ Appended L R S₀ A₀ j d₀ d) A₀ k
    fun j hj _ => ?_).conseq ?_ (fun _ _ h => h.2) fun _ h => h
  · refine Triple.start fun d ⟨_, hd⟩ => ?_
    refine (nullifyBlock_spec j d).conseq (fun _ h => h) (fun _ s hs => ?_) fun _ h => h
    subst hs
    rw [hd.working.opened.cluster]
    exact ⟨by omega, hd.next hA hj⟩
  · rintro s rfl
    exact ⟨le_rfl, hw, fun _ _ => rfl, fun w h₁ h₂ => by omega⟩

end Append

/-! ## Growing -/

/-- A grown delta whose new header may not have reached the disk yet. -/
structure Grown (L L' : Layout) (R : Set VDisk) (S₀ : Set ℕ) (A : ℕ) (D : Disk) : Prop where
  every : D.Every fun x => ∃ M, (M = L ∨ M = L') ∧
    Held M R (Backed L.cluster S₀ D.log ∩ Set.Iio A) x ∧ M.bat x = L'.bat D.file
  safe : D.Safe (Sound R L.cluster S₀)
  file : Held L' R (Backed L.cluster S₀ D.log ∩ Set.Iio A) D.file
  low : ∀ clu b, L'.bat D.file clu = some b → L.l1Size ≤ b

section Grow

variable {L : Layout} {R : Set VDisk} {S₀ : Set ℕ} {l1' m A₀ A bdsize : ℕ} {d : Delta}

/-- The allocation head counts the blocks of the file in 32 bits. -/
theorem Working.head_toNat (hw : Working L R S₀ A₀ d) : d.allocHead.toNat = A₀ % 2 ^ 32 := by
  rw [hw.head]
  exact UInt32.toNat_ofNat'

/-- The gap is appended, and the loop may start. -/
theorem appendGap_spec (hw : Working L R S₀ A₀ d) (hgap : A₀ % 2 ^ 32 < l1' → A₀ < 2 ^ 32)
    (hA : L.l1Size ≤ A₀ % 2 ^ 32)
    (hcache : d.l2Cache = none)
    (hroom : (∃ clu b, L.bat d.file clu = some b ∧ b < l1') → L.Fits (max A₀ l1')) :
    Triple (fun s => s = d) (appendGap l1')
      (fun n d' => ∃ m, L.l1Size + (l1' - n - L.l1Size) = m ∧ (l1' - n - L.l1Size = 0 ∨ m ≤ l1') ∧
        Clearing L R S₀ l1' m L.l1Size (max A₀ l1') (max A₀ l1') d' ∧
        L.bat d'.file = L.bat d.file ∧ (l1' ≤ A₀ → n = 0))
      (fun d' => d'.disk.Safe (Sound R L.cluster S₀)) := by
  have hL := hw.steady.valid
  have hmod := Nat.mod_le A₀ (2 ^ 32)
  have hlive : ∀ clu b, L.bat d.file clu = some b → L.l1Size ≤ b ∧ b < A₀ := fun clu b hb =>
    ⟨(hw.steady.file.table.inData clu b hb).1, (hw.steady.file.within clu b hb).2⟩
  have hfree : max A₀ l1' ≤ L.limit ∨ max A₀ l1' = max A₀ l1' ∧
      ∀ clu b, L.bat d.file clu = some b → l1' ≤ b := by
    by_cases hmove : ∃ clu b, L.bat d.file clu = some b ∧ b < l1'
    · exact Or.inl ((Layout.fits_iff hL.blocksize).mp (hroom hmove)).le
    · refine Or.inr ⟨rfl, fun clu b hb => ?_⟩
      by_contra hlt
      exact hmove ⟨clu, b, hb, by omega⟩
  refine Triple.look fun s hs => ?_
  subst hs
  simp only [hw.head_toNat]
  by_cases hlt : A₀ % 2 ^ 32 < l1'
  · have hA₀ := hgap hlt
    simp only [Nat.mod_eq_of_lt hA₀] at hlt hA ⊢
    simp only [hlt, if_true]
    refine Triple.bind (append_spec hA hw) fun _ => ?_
    refine Triple.start fun e he => Triple.step (Triple.ret fun d' hd' => ?_)
    have hfile : d'.file = e.file := by
      rw [hd']
      rfl
    have hsum : A₀ + (l1' - A₀) = l1' := by omega
    rw [hsum] at he
    have hmax : max A₀ l1' = l1' := by omega
    have hbat : L.bat d'.file = L.bat s.file := by
      funext clu
      refine Layout.bat_congr fun hclu => ?_
      rw [hfile]
      exact he.before _ (lt_of_lt_of_le (hL.clu_lt hclu) (Nat.mul_le_mul_right _ hA))
    rw [hmax] at hfree ⊢
    refine ⟨A₀, by omega, Or.inr (by omega), ⟨⟨?_, ?_, ?_⟩, le_rfl, by omega, hbat ▸ hfree,
      ⟨?_, ?_⟩, Or.inl (by omega)⟩, hbat, by omega⟩
    · rw [hd']
      exact ⟨he.working.opened.version, he.working.opened.blocksize, he.working.opened.l1Size,
        he.working.opened.l2Size, he.working.opened.clean, he.working.opened.cached,
        he.working.opened.cache⟩
    · rw [hd']
      exact he.working.steady.mono (by omega)
    · rw [hd']
      simp only [he.working.head]
      rw [← UInt32.ofNat_add, hsum]
    · intro j h₁ h₂ h₃
      rw [hfile]
      exact he.zero j (by omega) h₂
    · intro clu b hb
      rw [hbat] at hb
      have := hlive clu b hb
      omega
  · simp only [hlt, if_false]
    have hmax : max A₀ l1' = A₀ := by omega
    rw [hmax] at hfree ⊢
    refine Triple.ret fun d' hd' => ⟨max L.l1Size l1', by omega, by omega, ?_, by rw [hd'],
      fun _ => rfl⟩
    subst hd'
    refine ⟨hw, by omega, by omega, hfree, ⟨?_, ?_⟩, Or.inr hcache⟩
    · intro j h₁ h₂ h₃
      have := Nat.mul_le_mul_right L.slots (le_max_right L.l1Size l1')
      omega
    · intro clu b hb
      have := hlive clu b hb
      omega

/-- After the loop the slots of the new table are in place: only the header is
missing. -/
theorem Clearing.switch (hd : Clearing L R S₀ l1' m m A₀ A d) {vh : PvdHeader} (hvh : vh.Valid)
    (hversion : vh.layout.version = L.version) (hblocksize : vh.layout.blocksize = L.blocksize)
    (hl1 : vh.layout.l1Size = l1')
    (hkeep : ∀ r ∈ R, ∀ clu, vh.layout.l2Size ≤ clu → r clu = none) :
    Grown L vh.layout R S₀ A (d.disk.sync.write ⟨0, headerBytes, wordBytes vh.toWords⟩) := by
  have hs := hd.working.steady.sync
  have hview := hs.file
  rw [Disk.file_sync] at hview
  have hcluster : vh.layout.cluster = L.cluster := by
    rw [Layout.cluster, hblocksize]
    rfl
  have hzero : ∀ j, L.l1Size * L.slots ≤ j → j < vh.layout.l1Size * L.slots →
      d.disk.file.word j = 0 := by
    intro j h₁ h₂
    exact hd.cleared.zero j h₁ (hl1 ▸ h₂) (lt_or_ge j (m * L.slots))
  have hnone : ∀ clu, vh.layout.l2Size ≤ clu → L.bat d.disk.file clu = none :=
    fun clu hclu => read_eq_none.mp (hkeep _ hview.reads clu hclu)
  have hbat := hview.bat_switch hvh hversion hblocksize hnone hzero
  have hnew : Held vh.layout R (Backed L.cluster S₀ d.disk.sync.log ∩ Set.Iio A)
      (d.disk.file.pwrite ⟨0, headerBytes, wordBytes vh.toWords⟩) := by
    refine hview.switch hvh hversion hblocksize hnone hzero fun clu b hb => ?_
    have := hd.cleared.ahead clu b hb
    omega
  have hfile : (d.disk.sync.write ⟨0, headerBytes, wordBytes vh.toWords⟩).file
      = d.disk.file.pwrite ⟨0, headerBytes, wordBytes vh.toWords⟩ := by
    rw [Disk.file_write, Disk.file_sync]
  have hback : Backed L.cluster S₀
      (d.disk.sync.write ⟨0, headerBytes, wordBytes vh.toWords⟩).log
        = Backed L.cluster S₀ d.disk.sync.log := backed_write _
  have hevery : (d.disk.sync.write ⟨0, headerBytes, wordBytes vh.toWords⟩).Every fun x =>
      ∃ M, (M = L ∨ M = vh.layout) ∧
        Held M R (Backed L.cluster S₀ d.disk.sync.log ∩ Set.Iio A) x ∧ M.bat x
          = vh.layout.bat (d.disk.file.pwrite ⟨0, headerBytes, wordBytes vh.toWords⟩) :=
    every_write.mpr ⟨Disk.every_sync.mpr ⟨L, Or.inl rfl, hview, hbat.symm⟩,
      Disk.every_sync.mpr ⟨vh.layout, Or.inr rfl, hnew, rfl⟩⟩
  refine ⟨by rwa [hback, hfile], hs.safe.write (hevery.mono ?_), ?_, ?_⟩
  · rintro x ⟨M, hM, hx, -⟩
    unfold Sound
    rw [hback]
    rcases hM with rfl | rfl
    · exact ⟨M, rfl, hx.mono Set.inter_subset_left⟩
    · exact ⟨_, hcluster, hx.mono Set.inter_subset_left⟩
  · rw [hback, hfile]
    exact hnew
  · intro clu b hb
    rw [hfile, hbat] at hb
    exact (hview.table.inData clu b hb).1

theorem updateHeader_spec {ivh : PvdHeader} (hvh : ivh.Valid)
    (hversion : ivh.layout.version = L.version) (hblocksize : ivh.layout.blocksize = L.blocksize)
    (hl1 : ivh.layout.l1Size = l1')
    (hkeep : ∀ r ∈ R, ∀ clu, ivh.layout.l2Size ≤ clu → r clu = none)
    (hd : Clearing L R S₀ l1' m m A₀ A d) {E : Delta → Prop} :
    Triple (fun s => s = d) (updateHeader ivh)
      (fun _ d' => Grown L ivh.layout R S₀ A d'.disk ∧ ∃ vh : PvdHeader,
        d' = d.sync.write ⟨0, headerBytes, wordBytes vh.toWords⟩) E := by
  refine Triple.step (Triple.look fun s hs => ?_)
  subst hs
  refine Triple.update fun s hs => ?_
  subst hs
  split
  · have hvh' : ({ ivh with mFlags := cifEmpty } : PvdHeader).Valid :=
      ⟨hvh.version, hvh.type, hvh.aligned, hvh.layout⟩
    exact ⟨hd.switch hvh' hversion hblocksize hl1 hkeep, _, rfl⟩
  · exact ⟨hd.switch hvh hversion hblocksize hl1 hkeep, _, rfl⟩

/-- Room for a grow to `bdsize` sectors in a file of `A₀` blocks, if
`grow_delta` gets past its check of the allocation head: where the head is used
to append a gap it has not wrapped, and where some block has to move, the first
free block has an entry. -/
def GrowRoom (L : Layout) (bdsize A₀ : ℕ) (f : File) : Prop :=
  L.l1Size ≤ A₀ % 2 ^ 32 →
    (A₀ % 2 ^ 32 < (newLayout L.version L.blocksize bdsize).l1Size → A₀ < 2 ^ 32) ∧
    ((∃ clu b, L.bat f clu = some b ∧ b < (newLayout L.version L.blocksize bdsize).l1Size) →
      L.Fits (max A₀ (newLayout L.version L.blocksize bdsize).l1Size))

/-- A grow of `f` to `bdsize` sectors stays within 32 bits: the size of the new
index does, and so does the allocation head where it is used. -/
@[mk_iff growRange_iff]
structure GrowRange (f : File) (bdsize : ℕ) : Prop where
  index : IndexFits bdsize f.hdr.layout.blocksize
  room : GrowRoom f.hdr.layout bdsize (f.size / f.hdr.layout.cluster) f

theorem newLayout_fits (hbs : isValidBlocksize L.blocksize) (hfit : IndexFits bdsize L.blocksize)
    {b : ℕ} (hb : b < (newLayout L.version L.blocksize bdsize).l1Size) : L.Fits b := by
  have hpos := hbs.pos
  have hcpos : 0 < s2b L.blocksize := by
    simp only [s2b]
    omega
  have hle : (b + 1) * s2b L.blocksize ≤ indexBytes (bdsize / L.blocksize) L.blocksize :=
    (Nat.le_div_iff_mul_le hcpos).mp hb
  have hlt : (b + 1) * (L.blocksize * 512) < 2 ^ 32 := lt_of_le_of_lt hle hfit
  rw [← mul_assoc, Nat.succ_mul] at hlt
  have hle' : b ≤ b * L.blocksize := Nat.le_mul_of_pos_right _ hpos
  unfold Layout.Fits
  cases L.version <;> simp only <;> omega

theorem IndexFits.slots_lt (hfit : IndexFits bdsize L.blocksize) :
    (newLayout L.version L.blocksize bdsize).l1Size * L.slots < 2 ^ 30 := by
  have hmul := Nat.div_mul_le_self (indexBytes (bdsize / L.blocksize) L.blocksize) (s2b L.blocksize)
  have hlt : indexBytes (bdsize / L.blocksize) L.blocksize < 2 ^ 32 := hfit
  have hcluster : s2b L.blocksize = 4 * L.slots := L.cluster_eq
  rw [hcluster, Nat.mul_left_comm, ← hcluster] at hmul
  change indexBytes (bdsize / L.blocksize) L.blocksize / s2b L.blocksize * L.slots < _
  omega

theorem growDelta_spec (hw : Working L R S₀ A₀ d)
    (hr : Representable L.version L.blocksize bdsize) (hdvd : L.blocksize ∣ bdsize)
    (hfit : IndexFits bdsize L.blocksize)
    (hkeep : ∀ r ∈ R, ∀ clu, bdsize / L.blocksize ≤ clu → r clu = none)
    (hroom : GrowRoom L bdsize A₀ d.file) :
    Triple (fun s => s = d) (growDelta bdsize false)
      (fun _ d' => ∃ A, Grown L (newLayout L.version L.blocksize bdsize) R S₀ A d'.disk ∧
        Opened (newLayout L.version L.blocksize bdsize) d' ∧ d'.allocHead = UInt32.ofNat A ∧
        (newLayout L.version L.blocksize bdsize).l1Size ≤ A ∧ L.l1Size ≤ A ∧
        L.l1Size ≤ A₀ % 2 ^ 32 ∧
        (A ≤ L.limit ∨ A = max A₀ (newLayout L.version L.blocksize bdsize).l1Size))
      (fun d' => d'.disk.Safe (Sound R L.cluster S₀)) := by
  have hL := hw.steady.valid
  have hgen :
      (grownHeader bdsize L.blocksize L.version).GeneratedFor L.version L.blocksize bdsize :=
    (generatePvdHeader_generatedFor hL.blocksize hr hdvd).setFields _ _
  have hlay := hgen.layout_eq hfit
  have hvalid := hgen.valid hL.blocksize hfit
  generalize hivh : grownHeader bdsize L.blocksize L.version = ivh at hgen hlay hvalid
  have hl1 : ivh.mFirstBlockOffset.toNat / ivh.mSectors.toNat
      = (newLayout L.version L.blocksize bdsize).l1Size := congrArg Layout.l1Size hlay
  have hl2' : getSizeInSectors ivh / ivh.mSectors.toNat
      = (newLayout L.version L.blocksize bdsize).l2Size := congrArg Layout.l2Size hlay
  have hsmall : L.l1Size < (newLayout L.version L.blocksize bdsize).l1Size →
      L.l2Size + mapOffset ≤ 2 ^ 32 := by
    intro hlt
    have hroom := hL.room
    have hle := Nat.mul_le_mul_right L.slots hlt.le
    have := hfit.slots_lt
    omega
  refine Triple.look fun s hs => ?_
  subst hs
  simp only [hw.opened.blocksize, hw.opened.version, hw.opened.l1Size, hivh, hl1, hl2',
    hw.head_toNat]
  have hfits : ∀ b < (newLayout L.version L.blocksize bdsize).l1Size, L.Fits b :=
    fun b hb => newLayout_fits hL.blocksize hfit hb
  have hversion : ivh.layout.version = L.version := by rw [hlay]; rfl
  have hblocksize : ivh.layout.blocksize = L.blocksize := by rw [hlay]; rfl
  have hkeep' : ∀ r ∈ R, ∀ clu, ivh.layout.l2Size ≤ clu → r clu = none := by rwa [hlay]
  have hl1'' : ivh.layout.l1Size = (newLayout L.version L.blocksize bdsize).l1Size :=
    congrArg Layout.l1Size hlay
  by_cases hA : A₀ % 2 ^ 32 < L.l1Size
  · simp only [hA, if_true]
    exact Triple.raise fun s' hs' => hs' ▸ hw.steady.safe
  simp only [hA, if_false]
  obtain ⟨hgap, hmove⟩ := hroom (Nat.not_lt.mp hA)
  by_cases hc : s.l2Cache.isSome
  · simp only [hc, if_true]
    exact Triple.raise fun s' hs' => hs' ▸ hw.steady.safe
  simp only [hc, Bool.false_eq_true, if_false]
  refine Triple.bind (appendGap_spec hw hgap (Nat.not_lt.mp hA)
    (Option.not_isSome_iff_eq_none.mp hc) hmove) fun n => ?_
  refine Triple.start fun e ⟨m, hm, hk, he, _⟩ => ?_
  simp only [false_and, if_false]
  refine Triple.bind ((growLoop_spec hsmall hfits _ hk le_rfl hm).conseq
    (fun s hs => ⟨_, hs ▸ he⟩) (fun _ _ h => h) fun _ h => h) fun maps => ?_
  refine Triple.start fun e' ⟨A, he'⟩ => ?_
  refine Triple.bind (updateHeader_spec hvalid hversion hblocksize hl1'' hkeep' he') fun _ => ?_
  refine Triple.start fun e'' ⟨hgrown, vh, he''⟩ => Triple.step (Triple.ret fun d' hd' => ?_)
  have hdisk : d'.disk = e''.disk := by rw [hd']
  have hfile : d'.file = e''.file := congrArg Disk.file hdisk
  rw [hlay] at hgrown
  refine ⟨A, hdisk ▸ hgrown, ?_, ?_, he'.past, he'.low, Nat.not_lt.mp hA,
    he'.room.imp id And.left⟩
  · exact he'.working.opened.switch rfl rfl he'.cache (hd'.trans (by rw [he'']))
  · rw [hd', he'']
    exact he'.working.head

/-- The barrier after the header makes the new layout the only one left. -/
theorem Grown.clear {L' : Layout} {D : Disk} (h : Grown L L' R S₀ A D)
    (hcluster : L'.cluster = L.cluster) (v : UInt32) :
    Steady L' R S₀ A (D.write ⟨PvdHeader.offDiskInUse, 4, wordBytes fun _ => v⟩).sync := by
  have hback : Backed L.cluster S₀
      (D.write ⟨PvdHeader.offDiskInUse, 4, wordBytes fun _ => v⟩).log
        = Backed L.cluster S₀ D.log := backed_write _
  have hevery : (D.write ⟨PvdHeader.offDiskInUse, 4, wordBytes fun _ => v⟩).Every fun x =>
      ∃ M : Layout, M.cluster = L.cluster ∧
        Held M R (Backed L.cluster S₀ D.log ∩ Set.Iio A) x := by
    refine Disk.Every.write (h.every.mono ?_) fun x ⟨M, hM, hx⟩ => ⟨M, hM, hx.write_diskInUse v⟩
    rintro x ⟨M, rfl | rfl, hx, -⟩
    · exact ⟨M, rfl, hx⟩
    · exact ⟨M, hcluster, hx⟩
  have hsafe : (D.write ⟨PvdHeader.offDiskInUse, 4, wordBytes fun _ => v⟩).Safe
      (Sound R L.cluster S₀) := by
    refine h.safe.write (hevery.mono ?_)
    rintro x ⟨M, hM, hx⟩
    unfold Sound
    rw [hback]
    exact ⟨M, hM, hx.mono Set.inter_subset_left⟩
  have hfile : Held L' R (Backed L.cluster S₀
      (D.write ⟨PvdHeader.offDiskInUse, 4, wordBytes fun _ => v⟩).sync.log ∩ Set.Iio A)
      (D.write ⟨PvdHeader.offDiskInUse, 4, wordBytes fun _ => v⟩).file := by
    rw [Disk.file_write]
    refine (h.file.write_diskInUse v).mono (Set.inter_subset_inter_left _ ?_)
    rw [← hback]
    exact backed_subset_sync
  rw [← hcluster] at hsafe hfile
  exact ⟨Disk.every_sync.mpr hfile,
    hsafe.sync (Disk.every_sync.mpr ⟨L', rfl, hfile.mono Set.inter_subset_left⟩)⟩

end Grow

end Ploop
