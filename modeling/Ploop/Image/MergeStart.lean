import Ploop.Image.Blank
import Ploop.Image.MergeDest

/-!
# The start of a merge

A base is grown to the size of the top, a new image has an empty table: either
way nothing is merged yet and every block in use is known.
-/

namespace Ploop

open Storage Indirection Program

section Sources

variable {version : FmtVersion} {blocksize : ℕ} {fs : List File}

/-- A source that is opened is like the one before. -/
theorem openSourcesFrom_cons {prev : Option Delta} {f : File} {ds : List Delta}
    (h : openSourcesFrom prev (f :: fs) = .ok ds) :
    ∃ d ds', ds = d :: ds' ∧ openDelta f false = some d ∧ ¬ unlike prev d ∧
      openSourcesFrom (some d) fs = .ok ds' := by
  unfold openSourcesFrom at h
  cases hopen : openDelta f false with
  | none =>
      rw [hopen] at h
      exact absurd h nofun
  | some d =>
      rw [hopen] at h
      dsimp only at h
      split at h
      · exact absurd h nofun
      · rename_i hlike
        cases hrest : openSourcesFrom (some d) fs with
        | error e =>
            rw [hrest] at h
            exact absurd h nofun
        | ok ds' =>
            rw [hrest] at h
            exact ⟨d, ds', (Except.ok.inj h).symm, rfl, hlike, hrest⟩

theorem openSources_spec {prev : Option Delta} {ds : List Delta}
    (h : openSourcesFrom prev fs = .ok ds) : List.Forall₂ SourceOf fs ds := by
  induction fs generalizing prev ds with
  | nil =>
      obtain rfl := Except.ok.inj h
      exact .nil
  | cons f fs ih =>
      obtain ⟨d, ds', rfl, hopen, -, hrest⟩ := openSourcesFrom_cons h
      have hd := openDelta_spec hopen
      exact .cons ⟨hd.disk, hd.opened⟩ (ih hrest)

theorem openSources_open {f : File} {d : Delta} {ds : List Delta}
    (h : openSources (f :: fs) = .ok (d :: ds)) : openDelta f false = some d := by
  obtain ⟨e, es, heq, hopen, -⟩ := openSourcesFrom_cons h
  exact (List.cons.inj heq).1 ▸ hopen

theorem openSources_head {f : File} {d : Delta} {ds : List Delta}
    (h : openSources (f :: fs) = .ok (d :: ds)) : OpenedAt f d :=
  openDelta_spec (openSources_open h)

end Sources

/-! ## Growing to a size that is not a whole number of clusters -/

/-- `generate_pvd_header` rounds the size up. -/
theorem generatePvdHeader_alignUp {vh : PvdHeader} {bdsize blocksize : ℕ} {version : FmtVersion}
    (hpos : 0 < blocksize) (hlt : alignUp bdsize blocksize + blocksize < 2 ^ 64) :
    generatePvdHeader vh bdsize blocksize version
      = generatePvdHeader vh (alignUp bdsize blocksize) blocksize version := by
  have hle : bdsize ≤ alignUp bdsize blocksize := le_alignUp hpos
  have hround : ∀ s, s + blocksize < 2 ^ 64 → alignUp s blocksize < 2 ^ 64 →
      u64 (u64 (s + blocksize - 1) / blocksize * blocksize) = alignUp s blocksize := by
    intro s hs hs'
    rw [u64_of_lt (show s + blocksize - 1 < 2 ^ 64 by omega)]
    exact u64_of_lt hs'
  have htwice : alignUp (alignUp bdsize blocksize) blocksize = alignUp bdsize blocksize :=
    alignUp_alignUp hpos hpos (dvd_refl _)
  have hsize := (hround bdsize (by omega) (by omega)).trans
    (htwice.symm.trans (hround _ hlt (by omega)).symm)
  unfold generatePvdHeader
  simp only [hsize]

theorem growDelta_alignUp {bdsize : ℕ} {d : Delta} (hpos : 0 < d.blocksize)
    (hlt : alignUp bdsize d.blocksize + d.blocksize < 2 ^ 64) (gm : Bool) :
    growDelta bdsize gm d = growDelta (alignUp bdsize d.blocksize) gm d := by
  have hhdr : grownHeader bdsize d.blocksize d.version
      = grownHeader (alignUp bdsize d.blocksize) d.blocksize d.version := by
    unfold grownHeader
    rw [generatePvdHeader_alignUp hpos hlt]
  rw [growDelta, growDelta, get_bind_run, get_bind_run, hhdr]

theorem appendGap_size {d : Delta} {n : ℕ} (hpos : d.cluster ≠ 0)
    (hhead : d.allocHead.toNat * d.cluster ≤ d.file.size) :
    Triple (fun s => s = d) (appendGap n) (fun _ s => n * d.cluster ≤ s.file.size)
      (fun _ => True) := by
  refine Triple.look fun e he => ?_
  subst he
  simp only
  split
  · rename_i hgap
    refine Triple.bind ((Triple.forRange (I := fun i (s : Delta) => s.cluster = e.cluster ∧
      i * e.cluster ≤ s.file.size) e.allocHead.toNat (n - e.allocHead.toNat) ?_).conseq
      (fun s hs => ?_) (fun _ _ h => h) fun _ h => h) fun _ => ?_
    · refine fun i _ _ => Triple.look fun s ⟨hc, _⟩ => Triple.update fun s' hs' => ⟨?_, ?_⟩
      · rw [hs']
        exact hc
      · rw [hs', Delta.file_write, hc, Nat.succ_mul]
        exact File.end_le_size_pwrite (w := ⟨i * e.cluster, e.cluster, fun _ => 0⟩) _ hpos
    · subst hs
      exact ⟨rfl, hhead⟩
    · rw [show e.allocHead.toNat + (n - e.allocHead.toNat) = n by omega]
      exact Triple.bind (R := fun _ (s : Delta) => n * e.cluster ≤ s.file.size)
        (Triple.update fun s h => h.2) fun _ => Triple.ret fun _ h => h
  · rename_i hgap
    refine Triple.ret fun s hs => ?_
    subst hs
    exact (Nat.mul_le_mul_right _ (Nat.not_lt.mp hgap)).trans hhead

/-- After a grow the index area lies within the file. -/
theorem growDelta_size {bdsize : ℕ} {d : Delta} (hpos : d.cluster ≠ 0)
    (hhead : d.allocHead.toNat * d.cluster ≤ d.file.size) (gm : Bool) :
    Triple (fun s => s = d) (growDelta bdsize gm)
      (fun _ s => s.l1Size * d.cluster ≤ s.file.size) (fun _ => True) := by
  have hkeep : ∀ {α : Type} {x : DeltaM α} {m : ℕ}, Appends x →
      Triple (fun s => m ≤ s.file.size) x (fun _ s => m ≤ s.file.size) (fun _ => True) :=
    fun hx => Triple.start fun s hs => (hx s).conseq (fun _ h => h)
      (fun _ _ h => hs.trans h.size_le) fun _ _ => True.intro
  refine Triple.look fun s hs => ?_
  subst hs
  simp only
  split
  · exact Triple.raise fun _ _ => True.intro
  split
  · exact Triple.raise fun _ _ => True.intro
  refine Triple.bind (appendGap_size hpos hhead) fun n => ?_
  split
  · exact Triple.raise fun _ _ => True.intro
  refine Triple.bind (hkeep (Appends.growLoop _ _ _)) fun maps => ?_
  have hset : ∀ {l1 l2 : ℕ} {r : GrowMaps}, Triple (fun s' : Delta => l1 * s.cluster ≤ s'.file.size)
      (do modify fun d => { d with l1Size := l1, l2Size := l2 }; pure r : DeltaM GrowMaps)
      (fun _ s' => s'.l1Size * s.cluster ≤ s'.file.size) (fun _ => True) :=
    Triple.bind (R := fun _ (s' : Delta) => s'.l1Size * s.cluster ≤ s'.file.size)
      (Triple.update fun _ h => h) fun _ => Triple.ret fun _ h => h
  cases gm with
  | true => exact hset
  | false => exact Triple.bind (hkeep (Appends.updateHeader _)) fun _ => hset

/-! ## Nothing merged yet -/

section Start

variable {L L' : Layout} {O R₀ : VDisk} {S₀ : Set ℕ} {A : ℕ} {d : Delta}

theorem Mask.base : {R₀} ⊆ Mask O R₀ := by
  rintro R rfl clu _
  rfl

/-- The slots of the cached cluster are those of the file. -/
theorem Opened.slot (h : Opened L d) (hpos : 0 < L.slots) {s : ℕ}
    (hp : d.l2Cache = some ((s + mapOffset) / L.slots)) :
    d.l2 ((s + mapOffset) % L.slots) = Layout.entry d.file s := by
  have hw := Nat.div_add_mod' (s + mapOffset) L.slots
  rw [h.cache _ hp _ (Nat.mod_lt _ hpos) (by omega), hw]
  rfl

theorem Grown.merging {D : Disk} (h : Grown L L' {R₀} S₀ A D)
    (hblocksize : L'.blocksize = L.blocksize)
    (hl1 : L.l1Size ≤ A) (hl1' : L'.l1Size ≤ A) :
    Merging {L, L'} L' (max L.l1Size L'.l1Size) O R₀ S₀ (L'.bat D.file) A D := by
  have hcluster : L'.cluster = L.cluster := by
    rw [Layout.cluster, hblocksize]
    rfl
  have hL := h.file.valid
  have htable := h.file.table
  refine ⟨?_, Or.inr rfl, ?_, ?_, ?_, fun _ _ hb => hb, by omega, htable.oneToOne,
    fun clu hclu => Layout.bat_of_ge hclu, fun clu b hb => ?_⟩
  · rintro M (rfl | rfl)
    · exact ⟨hcluster.symm, le_max_left _ _⟩
    · exact ⟨rfl, le_max_right _ _⟩
  · rw [hcluster]
    refine h.every.mono ?_
    rintro x ⟨M, hM, hx, hbat⟩
    exact ⟨M, hM, hx.widen Mask.base, fun clu b hb => hbat ▸ hb⟩
  · rw [hcluster]
    exact h.safe.mono fun _ _ hx => hx.widen Mask.base
  · rw [hcluster]
    exact h.file.widen Mask.base
  · obtain ⟨h₁, h₂⟩ := htable.inData clu b hb
    obtain ⟨h₃, h₄⟩ := h.file.within clu b hb
    have h₅ := h.low clu b hb
    rw [hcluster]
    refine ⟨by omega, h₄, htable.fits hL.pos hb, ?_, backed_subset_sync h₃⟩
    rwa [← hcluster, ← Nat.le_div_iff_mul_le hL.cluster_pos, Nat.succ_le_iff]

theorem Grown.output (h : Grown L L' {R₀} S₀ A d.disk) (hopened : Opened L' d)
    (hhead : d.allocHead = UInt32.ofNat A) (hblocksize : L'.blocksize = L.blocksize)
    (hl1 : L.l1Size ≤ A) (hl1' : L'.l1Size ≤ A)
    (hroom : A ≤ L'.limit ∨ ∀ clu, O clu ≠ none → L'.bat d.file clu ≠ none) :
    Output {L, L'} L' (max L.l1Size L'.l1Size) O R₀ S₀ (L'.bat d.file) A 0 d := by
  have hL := h.file.valid
  have htable := h.file.table
  have hentry : ∀ clu < L'.l2Size, Layout.entry d.file clu = L'.encodeSlot (L'.bat d.file clu) :=
    fun clu hclu => htable.entry_slot hL.pos hclu
  refine ⟨hopened.version, hopened.blocksize, hopened.l1Size, hhead, hroom,
    h.merging hblocksize hl1 hl1', hopened.cached, fun hd => absurd hd hopened.clean, ?_, ?_,
    fun clu hclu _ => hentry clu hclu, fun _ => hentry, ?_⟩
  · intro clu hclu hp
    rw [hopened.slot hL.slots_pos hp]
    exact hentry clu hclu
  · intro s hs hs' hp
    rw [hopened.slot hL.slots_pos hp]
    exact htable.unused s hs hs'
  · exact Eq.trans h.file.reads progress_zero.symm

end Start

/-! ## A base -/

/-- The base `f` can take a disk of `size` sectors and the clusters of `O`: it
can be grown to that size, and where some cluster gets a block, the first free
block has an entry. -/
@[mk_iff baseFits_iff]
structure BaseFits (f : File) (size : ℕ) (O : VDisk) : Prop where
  header : Representable f.hdr.layout.version f.hdr.layout.blocksize size
  grow : GrowRange f size
  alloc : f.hdr.layout.l1Size ≤ f.size / f.hdr.layout.cluster % 2 ^ 32 →
    (∃ clu, O clu ≠ none ∧ f.hdr.layout.bat f clu = none) →
      f.hdr.layout.Fits (max (f.size / f.hdr.layout.cluster)
        (newLayout f.hdr.layout.version f.hdr.layout.blocksize size).l1Size)

section Base

variable {f : File} {O : VDisk} {size : ℕ} {d : Delta}

theorem growBase_spec (hopen : openDelta f false = some d) (hf : WellFormed f)
    (hkeep : ∀ clu, alignUp size f.hdr.layout.blocksize / f.hdr.layout.blocksize ≤ clu →
      content f clu = none)
    (hfit : BaseFits f (alignUp size f.hdr.layout.blocksize) O) :
    Triple (fun s => s = d) (growBase size)
      (fun _ s => ∃ Ls B, Filled Ls (newLayout f.hdr.layout.version f.hdr.layout.blocksize
        (alignUp size f.hdr.layout.blocksize)) B O (content f) (live (f.hdr.layout.bat f)) 0 s ∧
        (newLayout f.hdr.layout.version f.hdr.layout.blocksize
          (alignUp size f.hdr.layout.blocksize)).l1Size * f.hdr.layout.cluster ≤ s.file.size)
      (Unharmed f.hdr.layout O (content f) (live (f.hdr.layout.bat f))) := by
  have hat := openDelta_spec hopen
  have hw := hat.working hf
  have hL := hw.steady.valid
  have hcontent : ∀ clu, f.hdr.layout.bat f clu = none ↔ content f clu = none :=
    fun clu => read_eq_none.symm
  obtain ⟨hr, ⟨hindex, hroom⟩, halloc⟩ := hfit
  generalize f.hdr.layout = L at *
  have hlt := hr.lt
  have hle := hL.blocksize.le
  refine Triple.bind (dirtyDelta_spec d) fun _ => Triple.start fun e he => ?_
  have hwe : Working L {content f} (live (L.bat f)) (f.size / L.cluster) e := hw.dirty he
  have hhead : e.allocHead.toNat * e.cluster ≤ e.file.size := by
    rw [hwe.head_toNat, hwe.opened.cluster]
    refine (Nat.mul_le_mul_right _ (Nat.mod_le _ _)).trans
      ((Nat.div_mul_le_self f.size L.cluster).trans ?_)
    rw [show f = d.file from (congrArg Disk.file hat.disk).symm,
      show e.file = _ from congrArg Delta.file he]
    change _ ≤ (d.write _).sync.file.size
    rw [Delta.file_sync, Delta.file_write]
    exact File.le_size_pwrite _ _
  have hgrow : GrowRoom L (alignUp size L.blocksize) (f.size / L.cluster) e.file := by
    rwa [GrowRoom, show e.file = _ from congrArg Delta.file he, bat_dirty,
      show d.file = f from congrArg Disk.file hat.disk]
  have hspec := growDelta_spec hwe hr dvd_alignUp hindex
    (by rintro r rfl; exact hkeep) hgrow
  refine Triple.bind (R := fun _ s => ∃ Ls B, Filled Ls (newLayout L.version L.blocksize
    (alignUp size L.blocksize)) B O (content f) (live (L.bat f)) 0 s ∧
    (newLayout L.version L.blocksize (alignUp size L.blocksize)).l1Size * L.cluster
      ≤ s.file.size) ?_ fun _ => Triple.ret fun _ h => h
  rintro s rfl
  have hrun := hspec s rfl
  have halign : growDelta size false s = growDelta (alignUp size L.blocksize) false s := by
    have hbs := hwe.opened.blocksize
    rw [← hbs] at hlt hle ⊢
    exact growDelta_alignUp (hbs ▸ hL.pos) (by omega) false
  rw [halign]
  cases hg : growDelta (alignUp size L.blocksize) false s with
  | error er s' =>
      rw [hg] at hrun
      exact hrun.mono fun _ _ hx => hx.widen Mask.base
  | ok maps s' =>
      rw [hg] at hrun
      obtain ⟨A, hgrown, hopened, hA, hl1', hl1, hhead', hmax⟩ := hrun
      have hsize := (growDelta_size (hwe.opened.cluster ▸ hL.cluster_pos.ne') hhead false).ok rfl hg
      rw [hopened.l1Size, hwe.opened.cluster] at hsize
      refine ⟨_, _, ⟨_, A, hgrown.output hopened hA rfl hl1 hl1' ?_⟩, hsize⟩
      rcases hmax with hlim | hmax
      · exact Or.inl hlim
      · by_cases hadd : ∃ clu, O clu ≠ none ∧ L.bat f clu = none
        · exact Or.inl (hmax ▸ ((Layout.fits_iff hL.blocksize).mp (halloc hhead' hadd)).le)
        · refine Or.inr fun clu hclu hbat => hadd ⟨clu, hclu, (hcontent clu).mpr ?_⟩
          have hreads : _ = content f := hgrown.file.reads
          rw [← hreads]
          exact read_of_none hbat

end Base

/-! ## A new image -/

theorem createImage_spec {blocksize size : ℕ} {version : FmtVersion} {D : Disk}
    (hbs : isValidBlocksize blocksize) (hr : Representable version blocksize size)
    (hfit : IndexFits size blocksize) (h : createImage blocksize size version = .ok D) :
    WellFormed D.file ∧ (content D.file = fun _ => none) ∧
      D.file.hdr.layout = newLayout version blocksize size ∧
      D.file.size / s2b blocksize = (newLayout version blocksize size).l1Size := by
  unfold createImage at h
  split at h
  · exact absurd h (by simp)
  split at h
  · exact absurd h (by simp)
  rename_i hdvd
  simp only [checkBlockdevSize, decide_eq_true_eq, not_not] at hdvd
  have hgen : (generatePvdHeader PvdHeader.zero size blocksize version).1.GeneratedFor
      version blocksize size := generatePvdHeader_generatedFor hbs hr (Nat.dvd_of_mod_eq_zero hdvd)
  have hvalid := hgen.valid hbs hfit
  have hlay := hgen.layout_eq hfit
  have hl1 := hvalid.layout.l1_pos
  have hslots := hvalid.layout.slots_gt
  rw [hlay, Layout.slots_eq] at hslots
  rw [hlay] at hl1
  have hfill : (generatePvdHeader PvdHeader.zero size blocksize version).2 = _ :=
    generatePvdHeader_fill hbs hr (Nat.dvd_of_mod_eq_zero hdvd)
  rw [u32_of_lt hfit] at hfill
  generalize hgv : generatePvdHeader PvdHeader.zero size blocksize version = g at *
  obtain ⟨vh, fill⟩ := g
  simp only at h hfill hvalid hlay
  obtain rfl := Except.ok.inj h
  have hc : 16 ≤ blocksize * 128 := hslots.le
  have hcluster : s2b blocksize = 4 * (blocksize * 128) := by
    simp only [s2b]
    omega
  have hvh : ({ vh with mFlags := cifEmpty } : PvdHeader).Valid :=
    ⟨hvalid.version, hvalid.type, hvalid.aligned, hvalid.layout⟩
  have hn : fill / (4 * (blocksize * 128)) - 1 + 1 = (newLayout version blocksize size).l1Size := by
    rw [hfill, ← hcluster]
    exact Nat.succ_pred_eq_of_pos hl1
  have hblank := Blank.fill (D := (Disk.new File.empty).write ⟨0, 4 * (blocksize * 128),
    wordBytes ({ vh with mFlags := cifEmpty } : PvdHeader).toWords⟩)
    (by rw [Disk.file_write]; exact blank_header hc) hc (fill / (4 * (blocksize * 128)) - 1)
  rw [hn] at hblank
  rw [Disk.file_sync, hcluster]
  obtain ⟨hwf, hcontent⟩ := hblank.wellFormed hvh
  refine ⟨hwf, hcontent, ?_, ?_⟩
  · rw [hblank.hdr]
    exact hlay
  · rw [hblank.size]
    exact Nat.mul_div_cancel _ (by omega)

/-- Without a cluster in use the table cannot change under a run. -/
theorem Steady.grown_of_empty {L : Layout} {S₀ : Set ℕ} {A : ℕ} {D : Disk}
    (h : Steady L {fun _ => none} S₀ A D) : Grown L L {fun _ => none} S₀ A D := by
  have hbat : ∀ S x, Held L {fun _ => none} S x → L.bat x = fun _ => none := by
    intro S x hx
    have hreads : L.readClu x = fun _ => none := hx.reads
    funext clu
    exact read_eq_none.mp (congrFun hreads clu)
  refine ⟨h.every.mono fun x hx => ⟨L, Or.inl rfl, hx, ?_⟩, h.safe, h.file, fun clu b hb => ?_⟩
  · rw [hbat _ x hx, hbat _ _ h.file]
  · rw [hbat _ _ h.file] at hb
    exact absurd hb (Option.some_ne_none b).symm

theorem newOutput_spec {blocksize size : ℕ} {version : FmtVersion} {D : Disk} {d : Delta}
    {O : VDisk} (hbs : isValidBlocksize blocksize) (hr : Representable version blocksize size)
    (hfit : IndexFits size blocksize) (h : createImage blocksize size version = .ok D)
    (hopen : openDelta D.file false = some d) {E : Delta → Prop} :
    Triple (fun s => s = d) dirtyDelta
      (fun _ s => ∃ Ls B S₀,
        Filled Ls (newLayout version blocksize size) B O (fun _ => none) S₀ 0 s)
      E := by
  obtain ⟨hwf, hcontent, hlay, hsize⟩ := createImage_spec hbs hr hfit h
  have hw := (openDelta_spec hopen).working hwf
  rw [hcontent, hlay] at hw
  have hblocks : D.file.size / (newLayout version blocksize size).cluster
      = (newLayout version blocksize size).l1Size := hsize
  rw [hblocks] at hw
  have hpos := hw.steady.valid.l1_pos
  have hlast : (newLayout version blocksize size).l1Size - 1
      < (newLayout version blocksize size).l1Size := by omega
  have hlim := (Layout.fits_iff (L := newLayout version blocksize size) hbs).mp
    (newLayout_fits hbs hfit hlast)
  refine (dirtyDelta_spec d).conseq (fun _ h => h) (fun _ s hs => ?_) fun _ h => h
  have hs' := hw.dirty hs
  exact ⟨_, _, _, _, _, hs'.steady.grown_of_empty.output hs'.opened hs'.head rfl le_rfl le_rfl
    (Or.inl (by omega))⟩

end Ploop
