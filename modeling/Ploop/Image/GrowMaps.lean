import Ploop.Image.MergeStart

/-!
# The records of an online grow

`grow_delta` with a `grow_maps` argument leaves the header alone and returns,
for every block it moved, the record from which the kernel updates its map.
The records are right for the clusters of the first cluster of the table.
-/

namespace Ploop

open Storage Indirection Program

/-- Every record names a cluster whose entry led to the block given up, in the
new index, and leads to the block of the record now. -/
structure RecordsRight (L : Layout) (f : File) (l1' : ℕ) (d : Delta) (gm : GrowMaps) : Prop where
  before : ∀ z r, (z, r) ∈ gm.maps → L.bat f r.reqCluster = some z
  after : ∀ z r, (z, r) ∈ gm.maps → L.bat d.file r.reqCluster = some r.iblk
  index : ∀ z r, (z, r) ∈ gm.maps → L.l1Size ≤ z ∧ z < l1'
  alloced : gm.maps.length ≤ gm.alloced

/-- The clusters that have to move have their slot in the first cluster of the
table. -/
def MovesFirstPage (L : Layout) (f : File) (l1' : ℕ) : Prop :=
  ∀ clu b, L.bat f clu = some b → b < l1' → clu + mapOffset < L.slots

/-- A header can take the size, and the grow stays within 32 bits. -/
def GrowMapsFit (f : File) (bdsize : ℕ) : Prop :=
  Representable f.hdr.layout.version f.hdr.layout.blocksize bdsize ∧ GrowRange f bdsize

/-! ## The loop with records -/

section Loop

variable {L : Layout} {R : Set VDisk} {S₀ : Set ℕ} {T : ℕ → Option ℕ} {l1' i A : ℕ}
  {ms : List (ℕ × RelocMap)} {d : Delta}

/-- Against the table `T`, the clusters of the blocks below `i` have moved and
have a record, the others are where they were. -/
structure Recorded (L : Layout) (T : ℕ → Option ℕ) (l1' i : ℕ) (ms : List (ℕ × RelocMap))
    (x : File) : Prop where
  unmoved : ∀ clu, (∀ b, T clu = some b → i ≤ b) → L.bat x clu = T clu
  moved : ∀ clu b, T clu = some b → b < i → ∃ B, l1' ≤ B ∧ L.bat x clu = some B ∧
    (b, relocRecord L clu B) ∈ ms
  only : ∀ z r, (z, r) ∈ ms → L.l1Size ≤ z ∧ z < i ∧
    ∃ clu, T clu = some z ∧ L.bat x clu = some r.iblk ∧ r = relocRecord L clu r.iblk

/-- The loop at block `i`. -/
structure Moving (L : Layout) (R : Set VDisk) (S₀ : Set ℕ) (T : ℕ → Option ℕ) (l1' i A : ℕ)
    (ms : List (ℕ × RelocMap)) (d : Delta) : Prop where
  working : Working L R S₀ A d
  past : l1' ≤ A
  low : L.l1Size ≤ A
  room : A ≤ L.limit ∨ ∀ clu b, T clu = some b → l1' ≤ b
  recorded : Recorded L T l1' i ms d.file

theorem Moving.here (h : Moving L R S₀ T l1' i A ms d) (hil : i < l1') {clu : ℕ}
    (hclu : L.bat d.file clu = some i) : T clu = some i := by
  by_cases hmoved : ∃ b, T clu = some b ∧ b < i
  · obtain ⟨b, hb, hlt⟩ := hmoved
    obtain ⟨B, hB, hbat, -⟩ := h.recorded.moved clu b hb hlt
    have := Option.some.inj (hbat.symm.trans hclu)
    omega
  · push Not at hmoved
    rw [← h.recorded.unmoved clu hmoved]
    exact hclu

/-- The table with the cluster of block `i` at block `A`. -/
theorem Moving.record (h : Moving L R S₀ T l1' i A ms d) (hT : OneToOne T) (hi : L.l1Size ≤ i)
    (hil : i < l1') {clu : ℕ} {src : ℕ → UInt8} (hclu : L.bat d.file clu = some i) {d' : Delta}
    (hw : Working L R S₀ (A + 1) d') (hfit : L.Fits A)
    (hdisk : d'.disk = Ploop.moved L d.disk clu A src) :
    Moving L R S₀ T l1' (i + 1) (A + 1) (ms ++ [(i, relocRecord L clu A)]) d' := by
  have hL := h.working.steady.valid
  have hpast := h.past
  have hTclu := h.here hil hclu
  have hbat : L.bat d'.file = Function.update (L.bat d.file) clu (some A) := by
    rw [Delta.file, hdisk]
    exact bat_moved hL (Layout.bat_lt hclu) h.low hfit
  have hother : ∀ k, k ≠ clu → L.bat d'.file k = L.bat d.file k := fun k hk => by
    rw [hbat, Function.update_of_ne hk]
  have hself : L.bat d'.file clu = some A := by rw [hbat, Function.update_self]
  have hlim := (Layout.fits_iff hL.blocksize).mp hfit
  refine ⟨hw, by omega, by have := h.low; omega, Or.inl (by omega), fun k hk => ?_,
    fun k b hb hlt => ?_, fun z r hzr => ?_⟩
  · have hne : k ≠ clu := by
      rintro rfl
      have := hk i hTclu
      omega
    rw [hother k hne]
    refine h.recorded.unmoved k fun b hb => ?_
    have := hk b hb
    omega
  · by_cases hk : k = clu
    · subst hk
      obtain rfl := Option.some.inj (hTclu.symm.trans hb)
      exact ⟨A, hpast, hself, by simp⟩
    · have hne : b ≠ i := by
        rintro rfl
        exact hk (hT hb hTclu)
      obtain ⟨B, hB, hbatB, hmem⟩ := h.recorded.moved k b hb (by omega)
      exact ⟨B, hB, (hother k hk).trans hbatB, List.mem_append_left _ hmem⟩
  · rcases List.mem_append.mp hzr with hold | hnew
    · obtain ⟨hz, hzi, k, hk, hbatk, hr⟩ := h.recorded.only z r hold
      have hne : k ≠ clu := by
        rintro rfl
        have := Option.some.inj (hTclu.symm.trans hk)
        omega
      exact ⟨hz, by omega, k, hk, (hother k hne).trans hbatk, hr⟩
    · obtain ⟨rfl, rfl⟩ := Prod.mk.inj (List.mem_singleton.mp hnew)
      exact ⟨hi, by omega, clu, hTclu, hself, rfl⟩

/-- A block that no slot names is zeroed and passed over. -/
theorem Moving.pass (h : Moving L R S₀ T l1' i A ms d) (hi : L.l1Size ≤ i)
    (hdead : ∀ clu, L.bat d.file clu ≠ some i) :
    Moving L R S₀ T l1' (i + 1) A ms (d.sync.write ⟨i * L.cluster, L.cluster, fun _ => 0⟩) := by
  have hL := h.working.steady.valid
  have hbat : L.bat (d.sync.write ⟨i * L.cluster, L.cluster, fun _ => 0⟩).file = L.bat d.file := by
    rw [Delta.file_write, Delta.file_sync]
    funext clu
    refine Layout.bat_congr fun hclu => ?_
    exact Layout.entry_pwrite_of_ge (hL.clu_lt hclu) (Nat.mul_le_mul_right _ hi)
  have hnot : ∀ clu, T clu ≠ some i := by
    intro clu hclu
    have hge : ∀ b, T clu = some b → i ≤ b := by
      intro b hb
      exact (Option.some.inj (hclu.symm.trans hb)).le
    exact hdead clu ((h.recorded.unmoved clu hge).trans hclu)
  refine ⟨h.working.release hi hdead, h.past, h.low, h.room, fun k hk => ?_, fun k b hb hlt => ?_,
    fun z r hzr => ?_⟩
  · rw [hbat]
    refine h.recorded.unmoved k fun b hb => ?_
    have := hk b hb
    omega
  · have hne : b ≠ i := by
      rintro rfl
      exact hnot k hb
    rw [hbat]
    exact h.recorded.moved k b hb (by omega)
  · rw [hbat]
    obtain ⟨hz, hzi, hrest⟩ := h.recorded.only z r hzr
    exact ⟨hz, by omega, hrest⟩

theorem growLoop_records (hsmall : L.l2Size + mapOffset ≤ 2 ^ 32) (hfit : ∀ b < l1', L.Fits b)
    (hT : OneToOne T) (k : ℕ) (hi : L.l1Size ≤ i) (hik : i + k ≤ l1') :
    Triple (fun d => ∃ A, Moving L R S₀ T l1' i A ms d) (growLoop true k i)
      (fun rest d => (∃ A, Moving L R S₀ T l1' (i + k) A (ms ++ rest) d) ∧ rest.length ≤ k)
      (fun _ => True) := by
  induction k generalizing i ms with
  | zero =>
      refine Triple.ret fun d hd => ⟨?_, le_rfl⟩
      rw [List.append_nil]
      exact hd
  | succ k ih =>
      refine Triple.start ?_
      rintro d ⟨A, hd⟩
      have hroom : A ≤ L.limit ∨ ∀ clu, L.bat d.file clu ≠ some i := by
        refine hd.room.imp id fun h clu hclu => ?_
        have := h clu i (hd.here (by omega) hclu)
        omega
      have hsum : i + 1 + k = i + (k + 1) := by omega
      unfold growLoop
      refine Triple.bind ((relocateBlock_spec hsmall hd.working hi (hfit i (by omega)) hd.low
        hroom).conseq (fun _ h => h) (fun _ _ h => h) fun _ _ => True.intro) fun r => ?_
      rcases r with _ | r
      · refine Triple.start ?_
        rintro e ⟨hw, hdisk, hdead⟩
        refine Triple.step ?_
        have hfile : e.file = d.file := congrArg Disk.file hdisk
        have he : Moving L R S₀ T l1' i A ms e := by
          refine ⟨hw, hd.past, hd.low, hd.room, ?_⟩
          rw [hfile]
          exact hd.recorded
        refine Triple.bind (nullifyBlock_spec i e.sync) fun _ => ?_
        refine (@ih (i + 1) ms (by omega) (by omega)).conseq ?_ (fun rest s h => ?_) fun _ h => h
        · rintro s rfl
          refine ⟨A, ?_⟩
          rw [show e.sync.cluster = L.cluster from hw.opened.cluster]
          refine he.pass hi fun clu hclu => ?_
          rw [hfile] at hclu
          exact hdead clu hclu
        · rw [hsum] at h
          exact ⟨h.1, h.2.trans (Nat.le_succ k)⟩
      · refine Triple.start ?_
        rintro e ⟨clu, src, hclu, hw, hfitA, hdisk, rfl⟩
        have he := hd.record hT hi (by omega) hclu hw hfitA hdisk
        refine Triple.bind ((ih (by omega) (by omega)).conseq (fun s hs => ⟨A + 1, hs ▸ he⟩)
          (fun _ _ h => h) fun _ h => h) fun rest => Triple.ret fun s hs => ?_
        rw [hsum, List.append_assoc, List.singleton_append] at hs
        exact ⟨hs.1, Nat.succ_le_succ hs.2⟩

end Loop

/-! ## The records -/

section Records

variable {L : Layout} {R : Set VDisk} {S₀ : Set ℕ} {A₀ bdsize : ℕ} {d : Delta}

theorem growDelta_records (hw : Working L R S₀ A₀ d)
    (hr : Representable L.version L.blocksize bdsize) (hdvd : L.blocksize ∣ bdsize)
    (hfit : IndexFits bdsize L.blocksize) (hroom : GrowRoom L bdsize A₀ d.file) :
    Triple (fun s => s = d) (growDelta bdsize true)
      (fun gm d' => gm.maps.length ≤ gm.alloced ∧ ∃ m,
        m ≤ (newLayout L.version L.blocksize bdsize).l1Size ∧
        (∀ clu b, L.bat d.file clu = some b →
          b < (newLayout L.version L.blocksize bdsize).l1Size → b < m) ∧
        Recorded L (L.bat d.file) (newLayout L.version L.blocksize bdsize).l1Size m gm.maps d'.file)
      (fun _ => True) := by
  have hL := hw.steady.valid
  have hgen :
      (grownHeader bdsize L.blocksize L.version).GeneratedFor L.version L.blocksize bdsize :=
    (generatePvdHeader_generatedFor hL.blocksize hr hdvd).setFields _ _
  have hlay := hgen.layout_eq hfit
  generalize hivh : grownHeader bdsize L.blocksize L.version = ivh at hgen hlay
  have hl1 : ivh.mFirstBlockOffset.toNat / ivh.mSectors.toNat
      = (newLayout L.version L.blocksize bdsize).l1Size := congrArg Layout.l1Size hlay
  have hmod := Nat.mod_le A₀ (2 ^ 32)
  have hfits : ∀ b < (newLayout L.version L.blocksize bdsize).l1Size, L.Fits b :=
    fun b hb => newLayout_fits hL.blocksize hfit hb
  have hslots := hfit.slots_lt
  have hone := hw.steady.file.table.oneToOne
  unfold GrowRoom at hroom
  generalize (newLayout L.version L.blocksize bdsize).l1Size = l1' at *
  refine Triple.look fun s hs => ?_
  subst hs
  simp only [hw.opened.blocksize, hw.opened.version, hw.opened.l1Size, hivh, hl1,
    hw.head_toNat]
  by_cases hA : A₀ % 2 ^ 32 < L.l1Size
  · simp only [hA, if_true]
    exact Triple.raise fun _ _ => True.intro
  simp only [hA, if_false]
  obtain ⟨hgap, hmove⟩ := hroom (Nat.not_lt.mp hA)
  by_cases hc : s.l2Cache.isSome
  · simp only [hc, if_true]
    exact Triple.raise fun _ _ => True.intro
  simp only [hc, Bool.false_eq_true, if_false]
  refine Triple.bind ((appendGap_spec hw hgap (Nat.not_lt.mp hA)
    (Option.not_isSome_iff_eq_none.mp hc) hmove).conseq (fun _ h => h) (fun _ _ h => h)
      fun _ _ => True.intro) fun n => ?_
  refine Triple.start fun e ⟨m, hm, hk, he, hbat, hnone⟩ => ?_
  by_cases hneg : l1' < n + L.l1Size
  · simp only [hneg, and_self, if_true]
    exact Triple.raise fun _ _ => True.intro
  simp only [hneg, and_false, if_false, if_true]
  have hsmall : L.l2Size + mapOffset ≤ 2 ^ 32 := by
    have hle := Nat.mul_le_mul_right L.slots (show L.l1Size ≤ l1' by omega)
    have := hL.room
    omega
  have hstart : Moving L R S₀ (L.bat s.file) l1' L.l1Size (max A₀ l1') [] e := by
    refine ⟨he.working, he.past, he.low, ?_, fun clu _ => congrFun hbat clu, ?_, ?_⟩
    · rw [← hbat]
      exact he.room.imp id And.right
    · intro clu b hb hlt
      rw [← hbat] at hb
      have := (he.cleared.ahead clu b hb).1
      omega
    · exact fun z r h => absurd h List.not_mem_nil
  refine Triple.bind ((growLoop_records hsmall hfits hone (l1' - n - L.l1Size) le_rfl
    (by omega)).conseq (fun s' hs' => ⟨_, hs' ▸ hstart⟩) (fun _ _ h => h) fun _ h => h)
    fun maps => ?_
  refine Triple.start fun e' ⟨⟨A, he'⟩, hlen⟩ => Triple.step (Triple.ret fun d' hd' => ?_)
  rw [hm, List.nil_append] at he'
  refine ⟨hlen, m, by omega, fun clu b hb hlt => ?_, ?_⟩
  · rw [← hbat] at hb
    exact ((he.cleared.ahead clu b hb).2).resolve_right (by omega)
  · rw [hd']
    exact he'.recorded

end Records

/-! ## Right and wrong records -/

section Right

variable {L : Layout} {f x : File} {l1' m clu B : ℕ} {ms : List (ℕ × RelocMap)}

theorem relocRecord_of_lt (hclu : clu + mapOffset < L.slots) (hslots : L.slots < 2 ^ 32) :
    (relocRecord L clu B).reqCluster = clu := by
  simp only [relocRecord, Nat.mod_eq_of_lt hclu]
  simp only [u32, mapOffset] at *
  omega

/-- A slot of a later cluster of the table is taken for one of the first. -/
theorem relocRecord_ne (hclu : L.slots ≤ clu + mapOffset) (hslots : mapOffset < L.slots)
    (hsmall : clu + mapOffset < 2 ^ 32) : (relocRecord L clu B).reqCluster ≠ clu := by
  have hmod := Nat.mod_lt (clu + mapOffset) (Nat.zero_lt_of_lt hslots)
  simp only [relocRecord]
  generalize (clu + mapOffset) % L.slots = s at *
  simp only [u32, mapOffset] at *
  omega

theorem Recorded.right_iff (h : Recorded L (L.bat f) l1' m ms x) (hL : L.Valid)
    (hone : OneToOne (L.bat f)) (hm : m ≤ l1')
    (hall : ∀ clu b, L.bat f clu = some b → b < l1' → b < m)
    (hsmall : ∀ clu b, L.bat f clu = some b → b < l1' → clu + mapOffset < 2 ^ 32) :
    (∀ z r, (z, r) ∈ ms → L.bat f r.reqCluster = some z ∧ L.bat x r.reqCluster = some r.iblk)
      ↔ MovesFirstPage L f l1' := by
  constructor
  · intro hright clu b hb hlt
    obtain ⟨B, -, -, hmem⟩ := h.moved clu b hb (hall clu b hb hlt)
    have hreq : (relocRecord L clu B).reqCluster = clu := hone (hright _ _ hmem).1 hb
    by_contra hge
    exact relocRecord_ne (Nat.not_lt.mp hge) hL.slots_gt (hsmall clu b hb hlt) hreq
  · intro hfirst z r hzr
    obtain ⟨-, hz, clu, hclu, hbat, hr⟩ := h.only z r hzr
    have hpage := hfirst clu z hclu (by omega)
    have hslots : L.slots < 2 ^ 32 := by
      have hle := hL.blocksize.le
      rw [Layout.slots_eq]
      omega
    have hreq : r.reqCluster = clu := by
      rw [hr]
      exact relocRecord_of_lt hpage hslots
    rw [hreq]
    exact ⟨hclu, hbat⟩

end Right

section Theorem

variable {f : File} {dirty : Bool} {bdsize : ℕ} {d e d' : Delta} {gm : GrowMaps}

theorem OpenedAt.started (hopen : OpenedAt f d) (hf : WellFormed f)
    (he : e = d ∨ dirtyDelta d = .ok () e) :
    Working f.hdr.layout {content f} (live (f.hdr.layout.bat f)) (f.size / f.hdr.layout.cluster) e ∧
      f.hdr.layout.bat e.file = f.hdr.layout.bat f := by
  have hw := hopen.working hf
  have hfile : d.file = f := congrArg Disk.file hopen.disk
  rcases he with rfl | he
  · exact ⟨hw, by rw [hfile]⟩
  · have hdirty := (dirtyDelta_spec d (E := fun _ => True)).ok rfl he
    refine ⟨hw.dirty hdirty, ?_⟩
    rw [show e.file = _ from congrArg Delta.file hdirty, bat_dirty, hfile]

/-- Where nothing wraps, the records are right exactly when all blocks moved
belong to clusters of the first cluster of the table. -/
theorem growDelta_records_iff (hf : WellFormed f) (hopen : openDelta f dirty = some d)
    (he : e = d ∨ dirtyDelta d = .ok () e)
    (hfit : GrowMapsFit f (alignUp bdsize f.hdr.layout.blocksize))
    (h : growDelta bdsize true e = .ok gm d') :
    RecordsRight f.hdr.layout f (newLayout f.hdr.layout.version f.hdr.layout.blocksize
        (alignUp bdsize f.hdr.layout.blocksize)).l1Size d' gm
      ↔ MovesFirstPage f.hdr.layout f (newLayout f.hdr.layout.version f.hdr.layout.blocksize
        (alignUp bdsize f.hdr.layout.blocksize)).l1Size := by
  obtain ⟨hw, hbat⟩ := (openDelta_spec hopen).started hf he
  obtain ⟨hr, hindex, hroom⟩ := hfit
  have hone := hf.table.oneToOne
  generalize f.hdr.layout = L at *
  have hL := hw.steady.valid
  have hgrow : GrowRoom L (alignUp bdsize L.blocksize) (f.size / L.cluster) e.file := by
    unfold GrowRoom at hroom ⊢
    rwa [hbat]
  have halign : growDelta bdsize true e = growDelta (alignUp bdsize L.blocksize) true e := by
    have hbs := hw.opened.blocksize
    have hle := hL.blocksize.le
    have hlt := hr.lt
    rw [← hbs] at hlt hle ⊢
    exact growDelta_alignUp (hbs ▸ hL.pos) (by omega) true
  rw [halign] at h
  obtain ⟨hlen, m, hm, hall, hrec⟩ := (growDelta_records hw hr dvd_alignUp hindex hgrow).ok rfl h
  rw [hbat] at hall hrec
  have hsmall : ∀ clu b, L.bat f clu = some b →
      b < (newLayout L.version L.blocksize (alignUp bdsize L.blocksize)).l1Size →
      clu + mapOffset < 2 ^ 32 := by
    intro clu b hb hlt
    rw [← hbat] at hb
    have hlow := (hw.steady.file.table.inData clu b hb).1
    have hslot := hL.clu_lt (Layout.bat_lt hb)
    have hle := Nat.mul_le_mul_right L.slots (show L.l1Size ≤
      (newLayout L.version L.blocksize (alignUp bdsize L.blocksize)).l1Size by omega)
    have := hindex.slots_lt
    omega
  rw [← hrec.right_iff hL hone hm hall hsmall]
  constructor
  · exact fun hright z r hzr => ⟨hright.before z r hzr, hright.after z r hzr⟩
  · intro hright
    refine ⟨fun z r hzr => (hright z r hzr).1, fun z r hzr => (hright z r hzr).2,
      fun z r hzr => ?_, hlen⟩
    obtain ⟨hz, hzm, -⟩ := hrec.only z r hzr
    exact ⟨hz, by omega⟩

/-- The run of `grow_delta` with records, if it succeeds. -/
def growMaps (f : File) (bdsize : ℕ) : Option (Delta × GrowMaps × Delta) := do
  let d ← openDelta f false
  match growDelta bdsize true d with
  | .ok gm d' => some (d, gm, d')
  | .error _ _ => none

theorem growMaps_eq_some (h : growMaps f bdsize = some (d, gm, d')) :
    openDelta f false = some d ∧ growDelta bdsize true d = .ok gm d' := by
  simp only [growMaps, Option.bind_eq_bind, Option.bind_eq_some_iff] at h
  obtain ⟨d₀, hopen, h⟩ := h
  cases hrun : growDelta bdsize true d₀ with
  | error e s =>
      rw [hrun] at h
      exact absurd h (Option.some_ne_none _).symm
  | ok gm₀ s =>
      rw [hrun] at h
      obtain ⟨rfl, rfl, rfl⟩ : d₀ = d ∧ gm₀ = gm ∧ s = d' := by simpa using h
      exact ⟨hopen, hrun⟩

theorem smallDisk_records : ∃ d gm d', growMaps smallDisk movingSize = some (d, gm, d') ∧
    (RecordsRight smallDisk.hdr.layout smallDisk (newLayout smallDisk.hdr.layout.version
        smallDisk.hdr.layout.blocksize (alignUp movingSize smallDisk.hdr.layout.blocksize)).l1Size
        d' gm
      ↔ MovesFirstPage smallDisk.hdr.layout smallDisk (newLayout smallDisk.hdr.layout.version
        smallDisk.hdr.layout.blocksize (alignUp movingSize smallDisk.hdr.layout.blocksize)).l1Size)
    := by
  obtain ⟨hlayout, hsectors, hsize, hbat₀, -⟩ := smallDisk_layout
  obtain ⟨⟨d, gm, d'⟩, hrun⟩ := Option.isSome_iff_exists.mp
    (show (growMaps smallDisk movingSize).isSome by decide +kernel)
  obtain ⟨hopen, hgrow⟩ := growMaps_eq_some hrun
  have hfit : GrowMapsFit smallDisk movingSize := by
    simp only [GrowMapsFit, growRange_iff, GrowRoom]
    rw [hlayout, hsize]
    exact ⟨by decide, by decide, fun _ => ⟨by decide, fun _ => by decide⟩⟩
  exact ⟨d, gm, d', hrun,
    growDelta_records_iff smallDisk_wellFormed hopen (Or.inl rfl) hfit hgrow⟩

end Theorem

/-! ## The scan of the table -/

section Scan

variable {d : Delta} {target : UInt32} {k clu p j : ℕ} {err : Sysexit}

theorem loadL2_kept (hc : d.l2Cache = some p) : loadL2 err p d = .ok ⟨⟩ d := by
  rw [loadL2, get_bind_run, if_neg (not_not.mpr hc)]
  rfl

theorem loadL2_run {buf : ℕ → UInt8} (hc : d.l2Cache ≠ some p)
    (hread : d.file.pread d.cluster (p * d.cluster) = some buf) :
    loadL2 err p d = .ok ⟨⟩ { d with l2 := bytesWord buf, l2Cache := some p } := by
  rw [loadL2, get_bind_run, if_pos hc, bind_run_ok (pread_run hread)]
  rfl

/-- One turn, whatever is in memory at its begin. -/
theorem findSlot_turn {d' : Delta} (hp : u32 (clu + mapOffset) / (d.cluster / 4) = p)
    (hl1 : p < d.l1Size) (hload : loadL2 .reloc p d = .ok ⟨⟩ d') :
    findSlot target (k + 1) clu d =
      if d'.l2 (u32 (clu + mapOffset) % (d.cluster / 4)) = target then .ok (some clu) d'
      else findSlot target k (clu + 1) d' := by
  subst hp
  rw [findSlot, get_bind_run, if_neg (not_le.mpr hl1), bind_run_ok hload, get_bind_run]
  split
  · rfl
  · rfl

/-- Slots with other entries are passed. -/
theorem findSlot_skip (hl1 : p < d.l1Size) (hc : d.l2Cache = some p)
    (hother : ∀ t < j, u32 (clu + t + mapOffset) / (d.cluster / 4) = p ∧
      d.l2 (u32 (clu + t + mapOffset) % (d.cluster / 4)) ≠ target) :
    findSlot target (j + k) clu d = findSlot target k (clu + j) d := by
  induction j generalizing clu with
  | zero => rw [Nat.zero_add, Nat.add_zero]
  | succ j ih =>
      obtain ⟨hp, hne⟩ := hother 0 (Nat.succ_pos j)
      rw [Nat.add_zero] at hp hne
      rw [Nat.add_right_comm, findSlot_turn hp hl1 (loadL2_kept hc), if_neg hne, ih fun t ht => ?_]
      · rw [Nat.add_assoc, Nat.add_comm 1 j]
      · have := hother (t + 1) (Nat.succ_lt_succ ht)
        rwa [← Nat.add_assoc, Nat.add_right_comm clu t 1] at this

end Scan

/-! ## A table of two clusters -/

/-- A version 2 image of 8193 clusters with the last one in block 2. -/
def wideDisk : File where
  size := 3 * 32768
  byte := fun i =>
    if i < 64 then wordBytes (generatePvdHeader PvdHeader.zero (8193 * 64) 64 .v2).1.toWords i
    else if i = 4 * (8192 + 16) then 2 else 0
  eof := by
    intro i hi
    rw [if_neg (by omega), if_neg (by omega)]

theorem wideDisk_entry (s : ℕ) : Layout.entry wideDisk s = if s = 8192 then 2 else 0 := by
  have hbyte : ∀ k, wideDisk.byte (4 * (s + 16) + k)
      = if 4 * (s + 16) + k = 4 * (8192 + 16) then 2 else 0 := by
    intro k
    unfold wideDisk
    exact if_neg (by omega)
  have h₀ := hbyte 0
  rw [Nat.add_zero] at h₀
  unfold Layout.entry File.word bytesWord mapOffset
  rw [h₀, hbyte 1, hbyte 2, hbyte 3]
  by_cases hs : s = 8192
  · subst hs
    rfl
  · rw [if_neg hs, if_neg (by omega), if_neg (by omega), if_neg (by omega), if_neg (by omega)]
    rfl

theorem wideDisk_layout : wideDisk.hdr.Valid ∧ wideDisk.hdr.layout = ⟨.v2, 64, 2, 8193⟩ ∧
    getSizeInSectors wideDisk.hdr = 8193 * 64 := by
  have hhdr : wideDisk.hdr = (generatePvdHeader PvdHeader.zero (8193 * 64) 64 .v2).1 := by
    rw [← PvdHeader.ofWords_toWords (generatePvdHeader PvdHeader.zero (8193 * 64) 64 .v2).1]
    refine PvdHeader.ofWords_congr fun i hi => ?_
    rw [← bytesWord_wordBytes (PvdHeader.toWords _)]
    exact bytesWord_congr fun j hj => if_pos (by omega)
  rw [hhdr]
  exact ⟨⟨by decide, by decide, by decide, by decide, by decide⟩, rfl, by decide⟩

theorem wideDisk_wellFormed : WellFormed wideDisk := by
  obtain ⟨hvalid, hlayout, -⟩ := wideDisk_layout
  have hslot : ∀ clu b, wideDisk.hdr.layout.bat wideDisk clu = some b → clu = 8192 ∧ b = 2 := by
    intro clu b hb
    have hclu : clu = 8192 := by
      by_contra hne
      have hzero := (Layout.bat_eq_none (Layout.bat_lt hb)).mpr
        ((wideDisk_entry clu).trans (if_neg hne))
      exact absurd (hzero.symm.trans hb) (Option.some_ne_none b).symm
    subst hclu
    have hbat : wideDisk.hdr.layout.bat wideDisk 8192 = some 2 := by
      rw [hlayout, Layout.bat, wideDisk_entry]
      rfl
    exact ⟨rfl, Option.some.inj (hb.symm.trans hbat)⟩
  refine ⟨hvalid, ⟨fun clu _ => ?_, ?_, ?_, fun s hs _ => ?_⟩⟩
  · rw [hlayout]
    exact Nat.dvd_mul_left _ _
  · intro clu b hb
    obtain ⟨-, rfl⟩ := hslot clu b hb
    rw [hlayout]
    decide
  · intro k k' i hk hk'
    rw [(hslot k i hk).1, (hslot k' i hk').1]
  · rw [hlayout] at hs
    rw [wideDisk_entry, if_neg (by simp only at hs; omega)]

/-- The image is open. -/
def wideDelta : Delta := (openDelta wideDisk false).getD
  ⟨Disk.new wideDisk, PvdHeader.zero, fun _ => 0, 0, 0, 0, false, none, 0, 0, .v2⟩

theorem wideDelta_eq : openDelta wideDisk false = some wideDelta := by
  rfl

theorem wideDelta_fields : wideDelta.cluster = 32768 ∧ wideDelta.l1Size = 2 ∧
    wideDelta.l2Size = 8193 ∧ wideDelta.l2Cache = none ∧ wideDelta.allocHead.toNat = 3 ∧
    secToIoff (2 * wideDelta.blocksize) wideDelta.blocksize wideDelta.version = 2 := by
  refine ⟨by rfl, by rfl, by rfl, by rfl, by rfl, by rfl⟩

/-- A page of the table is in memory. -/
def widePage (p : ℕ) : Delta :=
  { wideDelta with l2 := bytesWord fun i => wideDisk.byte (p * 32768 + i), l2Cache := some p }

theorem widePage_l2 {p k : ℕ} (h : mapOffset ≤ p * 8192 + k) :
    (widePage p).l2 k = if p * 8192 + k = 8208 then 2 else 0 := by
  have hpage : (widePage p).l2 k = wideDisk.word (p * 8192 + k) :=
    Layout.bytesWord_page (L := ⟨.v2, 64, 2, 8193⟩) wideDisk p k
  obtain ⟨s, hs⟩ := Nat.exists_eq_add_of_le' h
  rw [hpage, hs]
  refine (wideDisk_entry s).trans ?_
  rw [mapOffset]
  by_cases hs : s = 8192
  · rw [if_pos hs, if_pos (by omega)]
  · rw [if_neg hs, if_neg (by omega)]

theorem wideDelta_scan : findSlot 2 8193 0 wideDelta = .ok (some 8192) (widePage 1) := by
  obtain ⟨hcluster, hl1, -, hcache, -⟩ := wideDelta_fields
  have hread (p : ℕ) (hp : p < 2) : wideDisk.pread wideDelta.cluster (p * wideDelta.cluster) =
      some fun i => wideDisk.byte (p * 32768 + i) := by
    rw [hcluster]
    exact File.pread_eq_some.mpr ⟨show p * 32768 + 32768 ≤ 3 * 32768 by omega, rfl⟩
  have hfirst : loadL2 .reloc 0 wideDelta = .ok ⟨⟩ (widePage 0) :=
    loadL2_run (by rw [hcache]; exact nofun) (hread 0 (by omega))
  have hsecond : loadL2 .reloc 1 (widePage 0) = .ok ⟨⟩ (widePage 1) :=
    loadL2_run (by decide) (hread 1 (by omega))
  have hother (p slot : ℕ) (h : 16 ≤ p * 8192 + slot) (hne : p * 8192 + slot ≠ 8208) :
      (widePage p).l2 slot ≠ 2 := by
    rw [widePage_l2 h, if_neg hne]
    decide
  have hslots : wideDelta.cluster / 4 = 8192 := by rw [hcluster]
  have hslots' (p : ℕ) : (widePage p).cluster / 4 = 8192 := hslots
  have hpages (p : ℕ) (hp : p < 2) : p < (widePage p).l1Size := hl1.symm ▸ hp
  have hu (clu : ℕ) (h : clu < 2 ^ 31) : u32 (clu + mapOffset) = clu + 16 :=
    u32_of_lt (by rw [mapOffset]; omega)
  calc findSlot 2 8193 0 wideDelta = findSlot 2 (8175 + 17) 1 (widePage 0) := by
        rw [findSlot_turn (by rw [hu _ (by omega), hslots]) (by rw [hl1]; omega) hfirst,
          hu _ (by omega), hslots]
        exact if_neg (hother 0 _ (by omega) (by omega))
    _ = findSlot 2 (16 + 1) 8176 (widePage 0) := by
        refine findSlot_skip (hpages 0 (by omega)) rfl fun t ht => ?_
        rw [hu _ (by omega), hslots', Nat.mod_eq_of_lt (by omega)]
        exact ⟨by omega, hother 0 _ (by omega) (by omega)⟩
    _ = findSlot 2 (15 + 1) 8177 (widePage 1) := by
        rw [findSlot_turn (by rw [hu _ (by omega), hslots']) (hl1.symm ▸ by omega) hsecond,
          hu _ (by omega), hslots']
        exact if_neg (hother 1 _ (by omega) (by omega))
    _ = findSlot 2 (0 + 1) 8192 (widePage 1) := by
        refine findSlot_skip (hpages 1 (by omega)) rfl fun t ht => ?_
        rw [hu _ (by omega), hslots']
        exact ⟨by omega, hother 1 _ (by omega) (by omega)⟩
    _ = .ok (some 8192) (widePage 1) := by
        rw [findSlot_turn (by rw [hu _ (by omega), hslots']) (hpages 1 (by omega))
          (loadL2_kept rfl), hu _ (by omega), hslots']
        exact if_pos (widePage_l2 (by rw [mapOffset]; omega))

theorem wideDelta_relocates : ∃ d, relocateBlock 2 wideDelta = .ok (some ⟨0, 3⟩) d := by
  obtain ⟨-, -, hl2, -, -, htarget⟩ := wideDelta_fields
  rw [relocateBlock, get_bind_run, htarget, hl2, bind_run_ok wideDelta_scan, ← returned_eq_some]
  decide +kernel

/-- The record of cluster 8192 names cluster 0. -/
theorem wideDisk_records : ∃ gm d, growMaps wideDisk (16400 * 64) = some (wideDelta, gm, d) ∧
    gm.maps = [(2, ⟨0, 3⟩)] := by
  obtain ⟨-, hl1, -, -, hhead, -⟩ := wideDelta_fields
  obtain ⟨d, hd⟩ := wideDelta_relocates
  have hloop : growLoop true 1 2 wideDelta = .ok [(2, ⟨0, 3⟩)] d := by
    rw [growLoop, bind_run_ok hd]
    rfl
  have hgap : appendGap 3 wideDelta = .ok 0 wideDelta := by
    rw [appendGap, get_bind_run, hhead, if_neg (lt_irrefl 3)]
    rfl
  have hbs : wideDelta.blocksize = 64 := by rfl
  have hversion : wideDelta.version = .v2 := by rfl
  have hivh : (grownHeader (16400 * 64) 64 .v2).mFirstBlockOffset.toNat /
    (grownHeader (16400 * 64) 64 .v2).mSectors.toNat = 3 := by rfl
  have hgrow : ∃ d', growDelta (16400 * 64) true wideDelta = .ok ⟨1, [(2, ⟨0, 3⟩)]⟩ d' := by
    rw [growDelta, get_bind_run, hbs, hversion, hivh, hhead, hl1]
    rw [if_neg (by decide), if_neg (by decide), bind_run_ok hgap, if_neg (by decide),
      bind_run_ok hloop]
    exact ⟨_, rfl⟩
  obtain ⟨d', hd'⟩ := hgrow
  refine ⟨⟨1, [(2, ⟨0, 3⟩)]⟩, d', ?_, rfl⟩
  rw [growMaps, wideDelta_eq, Option.bind_eq_bind, Option.bind_some, hd']

theorem growDelta_not_recordsRight :
    ¬ ∀ (f : File) (dirty : Bool) (d : Delta) (bdsize : ℕ) (gm : GrowMaps) (d' : Delta),
      WellFormed f → openDelta f dirty = some d → getSizeInSectors f.hdr < bdsize →
      growDelta bdsize true d = .ok gm d' →
      RecordsRight f.hdr.layout f (newLayout f.hdr.layout.version f.hdr.layout.blocksize
        (alignUp bdsize f.hdr.layout.blocksize)).l1Size d' gm := by
  intro h
  obtain ⟨gm, d', hrun, hmaps⟩ := wideDisk_records
  obtain ⟨hopen, hgrow⟩ := growMaps_eq_some hrun
  obtain ⟨-, hlayout, hsectors⟩ := wideDisk_layout
  have hright := h wideDisk false wideDelta (16400 * 64) gm d' wideDisk_wellFormed hopen
    (by rw [hsectors]; norm_num) hgrow
  have hzero := hright.before 2 ⟨0, 3⟩ (by rw [hmaps]; exact List.mem_singleton_self _)
  have hnone : wideDisk.hdr.layout.bat wideDisk 0 = none := by
    rw [hlayout, Layout.bat, wideDisk_entry]
    rfl
  exact absurd (hnone.symm.trans hzero) (Option.some_ne_none 2).symm

end Ploop
