import Ploop.Image.MergeOverlay

/-!
# Merging different formats

`merge_image` compares the block sizes and versions of its sources with each
other, but not with those of the destination.
-/

namespace Ploop

open Storage Program

/-- Two of the images differ in block size or version. -/
def Mixed (fs : List File) : Prop :=
  ∃ f ∈ fs, ∃ g ∈ fs, f.hdr.layout.blocksize ≠ g.hdr.layout.blocksize ∨
    f.hdr.layout.version ≠ g.hdr.layout.version

/-- The merge ends with an error and leaves the table and the data of the
destination alone. -/
structure Refused (loadCbt : File → Option DirtyBitmap) (fs : List File) (base : MergeBase) :
    Prop where
  error : (mergeImage loadCbt fs base).1 ≠ none
  unchanged : Unchanged base.file (mergeImage loadCbt fs base).2.file

/-! ## The sources -/

theorem openSources_alike {prev : Option Delta} {fs : List File} {ds : List Delta}
    (h : openSourcesFrom prev fs = .ok ds) :
    ∃ bs v, (∀ f ∈ fs, f.hdr.layout.blocksize = bs ∧ f.hdr.layout.version = v) ∧
      ∀ p, prev = some p → p.blocksize = bs ∧ p.version = v := by
  induction fs generalizing prev ds with
  | nil =>
      cases prev with
      | none => exact ⟨0, .v1, fun f hf => absurd hf List.not_mem_nil, fun _ hp => absurd hp nofun⟩
      | some p =>
          refine ⟨p.blocksize, p.version, fun f hf => absurd hf List.not_mem_nil, ?_⟩
          rintro _ ⟨⟩
          exact ⟨rfl, rfl⟩
  | cons f fs ih =>
      obtain ⟨d, ds', -, hopen, hlike, hrest⟩ := openSourcesFrom_cons h
      obtain ⟨bs, v, hall, hd⟩ := ih hrest
      obtain ⟨hbs, hv⟩ := hd d rfl
      have hopened := (openDelta_spec hopen).opened
      refine ⟨bs, v, List.forall_mem_cons.mpr ⟨?_, hall⟩, ?_⟩
      · exact ⟨hopened.blocksize.symm.trans hbs, hopened.version.symm.trans hv⟩
      · rintro p rfl
        obtain ⟨hsize, hversion⟩ : d.blocksize = p.blocksize ∧ d.version = p.version := by
          simpa [unlike] using hlike
        exact ⟨hsize.symm.trans hbs, hversion.symm.trans hv⟩

/-- Mixed sources are refused before the destination is opened. -/
theorem refused_of_mixed (loadCbt : File → Option DirtyBitmap) {fs : List File} (h : Mixed fs)
    (base : MergeBase) : Refused loadCbt fs base := by
  have hsame : ∀ f : File, Unchanged f f := fun f =>
    ⟨rfl, fun _ => rfl, fun _ _ _ => rfl⟩
  have hrun : ∃ e, mergeImage loadCbt fs base = (some e, Disk.new base.file) := by
    unfold mergeImage
    cases hsrc : openSources fs with
    | error e => exact ⟨e, rfl⟩
    | ok ds =>
        obtain ⟨bs, v, halike, -⟩ := openSources_alike hsrc
        obtain ⟨f, hf, g, hg, hne | hne⟩ := h
        · exact absurd ((halike f hf).1.trans (halike g hg).1.symm) hne
        · exact absurd ((halike f hf).2.trans (halike g hg).2.symm) hne
  obtain ⟨e, hrun⟩ := hrun
  refine ⟨?_, ?_⟩
  · rw [hrun]
    exact Option.some_ne_none e
  · rw [hrun]
    exact hsame _

/-! ## An empty image of every format -/

section Formatted

variable {version : FmtVersion} {blocksize : ℕ} (hbs : isValidBlocksize blocksize)

include hbs

theorem formatted_stack : Stack version blocksize [formatted version blocksize] := by
  have hwf := @formatted_wellFormed version _ hbs
  refine ⟨?_, ?_, ?_⟩ <;> intro f hf <;> obtain rfl := List.mem_singleton.mp hf
  · exact hwf
  · rw [formatted_layout hbs]
  · rw [formatted_layout hbs]

theorem formatted_open : ∃ d, openDelta (formatted version blocksize) false = some d := by
  have hmin := hbs.1
  have hhdr := (@formatted_blank version _ hbs).hdr
  refine exists_openDelta ?_ ?_ ?_
  · rw [hhdr]
    exact (formatted_generated hbs).valid hbs (formatted_fits hbs)
  · rw [formatted_size hbs]
    simp only [s2b]
    omega
  · intro hinuse
    have hzero :
        (generatePvdHeader PvdHeader.zero (2 ^ 17) blocksize version).1.mDiskInUse = 0 := by
      cases version <;> rfl
    rw [hhdr, hzero] at hinuse
    exact absurd hinuse (by decide)

end Formatted

/-! ## A merge of nothing -/

section Nothing

variable {version : FmtVersion} {blocksize : ℕ} {f : File} {e : Delta}

/-- The slots of the first block of a table. -/
def NoEntry (blocksize : ℕ) (w : ℕ → UInt32) : Prop :=
  ∀ k, mapOffset ≤ k → k < s2b blocksize / 4 → w k = 0

/-- A source without a cluster, whose table is one block. -/
structure VacantSource (blocksize : ℕ) (d : Delta) : Prop where
  cluster : d.cluster = s2b blocksize
  size : s2b blocksize ≤ d.file.size
  empty : NoEntry blocksize d.file.word
  page : d.l2Cache = none ∨ NoEntry blocksize d.l2

/-- The state of a merge of such sources, with the table of the first one loaded. -/
structure PageOf (e : Delta) (blocksize : ℕ) (s : MergeState) : Prop where
  odelta : s.odelta = e
  sources : ∀ d ∈ s.deltaArr, VacantSource blocksize d
  top : ∀ d ∈ s.deltaArr.head?, NoEntry blocksize d.l2

theorem readL2_nothing {d : Delta} (h : VacantSource blocksize d) :
    ∃ d', readL2 0 (s2b blocksize) d = some d' ∧ VacantSource blocksize d' ∧
      d'.l2Cache = some 0 ∧ NoEntry blocksize d'.l2 := by
  have hsize := h.size
  have hread : d.file.pread (s2b blocksize) (0 * s2b blocksize) =
      some fun i => d.file.byte (0 * s2b blocksize + i) := if_pos (by omega)
  have hwords : NoEntry blocksize (bytesWord fun i => d.file.byte (0 * s2b blocksize + i)) := by
    simp only [Nat.zero_mul, Nat.zero_add]
    exact h.empty
  refine ⟨{ d with
    l2 := bytesWord fun i => d.file.byte (0 * s2b blocksize + i)
    l2Cache := some 0 }, ?_, ⟨h.cluster, h.size, h.empty, .inr hwords⟩, rfl, hwords⟩
  rw [readL2, hread]
  rfl

/-- The search comes to the end of the sources. -/
theorem locateL2Entry_nothing {k : ℕ} (hk : mapOffset ≤ k) (hk' : k < s2b blocksize / 4)
    {ds : List Delta} (hds : ∀ d ∈ ds, VacantSource blocksize d) :
    ∃ ds', locateL2Entry 0 k ds = .ok (none, ds') ∧ ∀ d ∈ ds', VacantSource blocksize d := by
  induction ds with
  | nil => exact ⟨[], rfl, hds⟩
  | cons d ds ih =>
      have hd := hds d List.mem_cons_self
      obtain ⟨ds', hrest, hds'⟩ := ih fun x hx => hds x (List.mem_cons_of_mem _ hx)
      unfold locateL2Entry
      split
      · exact ⟨d :: ds, rfl, hds⟩
      · obtain ⟨d', hpage, hd', hslot⟩ : ∃ d',
            (if d.l2Cache = none then readL2 0 d.cluster d else some d) = some d' ∧
              VacantSource blocksize d' ∧ d'.l2 k = 0 := by
          by_cases hcache : d.l2Cache = none
          · obtain ⟨d', hread, hd', -, hzero⟩ := readL2_nothing hd
            rw [if_pos hcache, hd.cluster]
            exact ⟨d', hread, hd', hzero k hk hk'⟩
          · rw [if_neg hcache]
            exact ⟨d, rfl, hd, hd.page.resolve_left hcache k hk hk'⟩
        rw [hpage]
        dsimp only
        rw [if_neg (not_not.mpr hslot), hrest]
        exact ⟨d' :: ds', rfl, List.forall_mem_cons.mpr ⟨hd', hds'⟩⟩

theorem mergeSlot_nothing {raw : Bool} {k : ℕ} (hk : mapOffset ≤ k) (hk' : k < s2b blocksize / 4) :
    Triple (PageOf e blocksize) (mergeSlot raw blocksize version 0 k)
      (fun _ => PageOf e blocksize) (fun _ => False) := by
  refine Triple.look fun s hs => ?_
  obtain ⟨da, hfind, hda, htop⟩ : ∃ da, findSource 0 k s.deltaArr = .ok (none, da) ∧
      (∀ d ∈ da, VacantSource blocksize d) ∧ ∀ d ∈ da.head?, NoEntry blocksize d.l2 := by
    have hsources := hs.sources
    have htop := hs.top
    generalize s.deltaArr = da at *
    cases da with
    | nil => exact ⟨[], rfl, hsources, htop⟩
    | cons top lower =>
        obtain ⟨hd, hlower⟩ := List.forall_mem_cons.mp hsources
        have hslot : top.l2 k = 0 := htop top rfl k hk hk'
        obtain ⟨lower', hloc, hlower'⟩ := locateL2Entry_nothing hk hk' hlower
        refine ⟨top :: lower', ?_, List.forall_mem_cons.mpr ⟨hd, hlower'⟩, htop⟩
        simp only [findSource, if_neg (not_not.mpr hslot), hloc]
  rw [hfind]
  refine Triple.bind (R := fun _ => PageOf e blocksize) (Triple.update ?_) fun _ =>
    Triple.ret fun _ h => h
  rintro _ rfl
  exact ⟨hs.odelta, hda, htop⟩

/-- Sources without a cluster, whose tables are one block. -/
theorem mergeLoop_nothing {raw : Bool} {l2Size : ℕ} (hfit : l2Size + mapOffset ≤ s2b blocksize / 4)
    {top : Delta} {lower : List Delta} (hds : ∀ d ∈ top :: lower, VacantSource blocksize d) :
    Triple (fun s => s = ⟨top :: lower, e⟩) (mergeLoop raw blocksize version l2Size)
      (fun _ s => s.odelta = e) (fun _ => False) := by
  have hpos : 0 < s2b blocksize / 4 := by
    simp only [mapOffset] at hfit
    omega
  have hend : (l2Size + mapOffset + s2b blocksize / 4 - 1) / (s2b blocksize / 4) = 1 :=
    Nat.div_eq_of_lt_le (by simp only [mapOffset]; omega) (by omega)
  unfold mergeLoop
  dsimp only
  rw [hend]
  refine Triple.bind (R := fun _ s => s.odelta = e) ?_ fun _ => Triple.ret fun _ h => h
  refine Triple.look fun s hs => ?_
  subst hs
  obtain ⟨hd, hlower⟩ := List.forall_mem_cons.mp hds
  obtain ⟨top', hread, htop', -, hzero⟩ := readL2_nothing hd
  rw [loadTop, hread]
  dsimp only
  rw [if_pos rfl, if_pos rfl]
  refine Triple.bind (R := fun _ => PageOf e blocksize) (Triple.update ?_) fun _ => ?_
  · rintro _ rfl
    refine ⟨rfl, List.forall_mem_cons.mpr ⟨htop', fun x hx => ?_⟩, ?_⟩
    · obtain ⟨d, hmem, rfl⟩ := List.mem_map.mp hx
      have hd := hlower d hmem
      exact ⟨hd.cluster, hd.size, hd.empty, .inl rfl⟩
    · intro d hd
      obtain rfl := Option.some.inj hd
      exact hzero
  · refine (Triple.forRange (I := fun _ => PageOf e blocksize) _ _ fun k hk hk' =>
      mergeSlot_nothing hk ?_).conseq (fun _ h => h) (fun _ _ h => h.odelta) fun _ h => h
    omega

/-- Nothing is written but the header. -/
theorem finishMerge_nothing {cluster : ℕ} (hclean : e.l2Dirty = false) :
    Triple (fun s => s = e) (finishMerge cluster) (fun _ _ => True) (fun _ => False) := by
  have hdirty : ¬ e.sync.l2Dirty = true := by
    change ¬ e.l2Dirty = true
    rw [hclean]
    exact Bool.false_ne_true
  refine Triple.step (Triple.bind (R := fun _ s => s = e.sync) ?_ fun _ => ?_)
  · refine Triple.look fun s hs => ?_
    subst hs
    rw [if_neg hdirty]
    exact Triple.ret fun _ h => h
  · exact Triple.bind (clearDelta_spec e.sync) fun _ => Triple.update fun _ _ => True.intro

/-- The index of the destination is as long as that of the sources needs. -/
theorem growDelta_nothing {size : ℕ}
    (hl1 : (grownHeader size e.blocksize e.version).mFirstBlockOffset.toNat /
      (grownHeader size e.blocksize e.version).mSectors.toNat = e.l1Size)
    (hhead : e.allocHead.toNat = e.l1Size) (hcache : e.l2Cache = none)
    (hclean : e.l2Dirty = false) :
    Triple (fun s => s = e) (growDelta size false) (fun _ s => s.l2Dirty = false)
      (fun _ => False) := by
  have hsome : ¬ e.l2Cache.isSome = true := by
    rw [hcache]
    exact Bool.false_ne_true
  refine Triple.look fun s hs => ?_
  subst hs
  dsimp only
  rw [if_neg (by omega), if_neg hsome, hl1]
  refine Triple.bind (R := fun n t => n = 0 ∧ t = s) (Triple.look fun t ht => ?_) fun n =>
    Triple.start fun t ht => ?_
  · subst ht
    dsimp only
    rw [if_neg (by omega)]
    exact Triple.ret fun _ h => ⟨rfl, h⟩
  · obtain ⟨rfl, rfl⟩ := ht
    rw [if_neg fun h => Bool.false_ne_true h.1, Nat.sub_zero, Nat.sub_self]
    refine Triple.bind (R := fun _ u => u = t) (Triple.ret fun _ h => h) fun maps => ?_
    refine Triple.bind (R := fun _ u => u.l2Dirty = false) ?_ fun _ =>
      Triple.bind (R := fun _ u => u.l2Dirty = false) (Triple.update fun _ h => h) fun _ =>
        Triple.ret fun _ h => h
    refine Triple.step (Triple.look fun u hu => Triple.update fun v hv => ?_)
    subst hv
    subst hu
    exact hclean

theorem growBase_nothing {size : ℕ}
    (hl1 : (grownHeader size e.blocksize e.version).mFirstBlockOffset.toNat /
      (grownHeader size e.blocksize e.version).mSectors.toNat = e.l1Size)
    (hhead : e.allocHead.toNat = e.l1Size) (hcache : e.l2Cache = none)
    (hclean : e.l2Dirty = false) :
    Triple (fun s => s = e) (growBase size) (fun _ s => s.l2Dirty = false) (fun _ => False) := by
  refine Triple.bind (dirtyDelta_spec e) fun _ => Triple.start fun s hs => ?_
  subst hs
  exact Triple.bind (growDelta_nothing hl1 hhead hcache hclean) fun _ => Triple.ret fun _ h => h

end Nothing

/-- The state of an empty image after `open_delta`. -/
theorem formatted_opened {version : FmtVersion} {blocksize : ℕ} (hbs : isValidBlocksize blocksize)
    {d : Delta} (h : openDelta (formatted version blocksize) false = some d) :
    getSizeInSectors d.hdr0 = 2 ^ 17 ∧ d.blocksize = blocksize ∧ d.version = version ∧
      d.l1Size = 1 ∧ d.l2Size = 2 ^ 17 / blocksize ∧ d.allocHead.toNat = 1 := by
  have hpos := hbs.pos
  have hat := openDelta_spec h
  have hopened := hat.opened
  rw [formatted_layout hbs] at hopened
  refine ⟨?_, hopened.blocksize, hopened.version, hopened.l1Size, hopened.l2Size, ?_⟩
  · rw [hat.hdr0, (formatted_blank hbs).hdr]
    exact (formatted_generated hbs).sizeInSectors
  · rw [hat.head, formatted_layout hbs, formatted_size hbs]
    change (UInt32.ofNat (s2b blocksize / s2b blocksize)).toNat = 1
    rw [Nat.div_self (by simp only [s2b]; omega)]
    rfl

/-- An image like the formatted one, whatever lies behind its table. -/
structure Vacant (version : FmtVersion) (blocksize : ℕ) (f : File) : Prop where
  header : f.hdr.Valid
  closed : f.hdr.mDiskInUse ≠ signatureDiskInUse
  layout : f.hdr.layout = ⟨version, blocksize, 1, 2 ^ 17 / blocksize⟩
  sectors : getSizeInSectors f.hdr = 2 ^ 17
  size : s2b blocksize ≤ f.size
  empty : NoEntry blocksize f.word

theorem formatted_vacant {version : FmtVersion} {blocksize : ℕ} (hbs : isValidBlocksize blocksize) :
    Vacant version blocksize (formatted version blocksize) where
  header := ((formatted_stack hbs).wellFormed _ List.mem_cons_self).header
  closed := by
    have hzero :
        (generatePvdHeader PvdHeader.zero (2 ^ 17) blocksize version).1.mDiskInUse = 0 := by
      cases version <;> rfl
    rw [(formatted_blank hbs).hdr, hzero]
    decide
  layout := formatted_layout hbs
  sectors := by
    rw [(formatted_blank hbs).hdr]
    exact (formatted_generated hbs).sizeInSectors
  size := (formatted_size hbs).ge
  empty k hk _ := ((formatted_blank hbs).word k).trans (PvdHeader.toWords_of_ge hk)

/-- What a source is like that has been opened. -/
structure VacantOpen (version : FmtVersion) (blocksize : ℕ) (d : Delta) : Prop extends
    VacantSource blocksize d where
  sectors : getSizeInSectors d.hdr0 = 2 ^ 17
  l2Size : d.l2Size = 2 ^ 17 / blocksize
  blocksize : d.blocksize = blocksize
  version : d.version = version

theorem Vacant.opens {version : FmtVersion} {blocksize : ℕ} {f : File}
    (hf : Vacant version blocksize f) :
    ∃ d, openDelta f false = some d ∧ VacantOpen version blocksize d := by
  have hmin : 64 ≤ f.hdr.layout.blocksize := hf.header.layout.blocksize.1
  have hsize := hf.size
  rw [hf.layout] at hmin
  obtain ⟨d, hopen⟩ := @exists_openDelta f false hf.header (by simp only [s2b] at *; omega)
    fun h => absurd h hf.closed
  have hat := openDelta_spec hopen
  have hopened := hat.opened
  have hfile : d.file = f := congrArg Disk.file hat.disk
  rw [hf.layout] at hopened
  refine ⟨d, hopen, ⟨?_, hfile ▸ hsize, hfile ▸ hf.empty, .inl hat.cache⟩, ?_, hopened.l2Size,
    hopened.blocksize, hopened.version⟩
  · exact congrArg s2b hopened.blocksize
  · rw [hat.hdr0, hf.sectors]

theorem openSources_vacant {version : FmtVersion} {blocksize : ℕ} {prev : Option Delta}
    {fs : List File} (hprev : ∀ p, prev = some p → p.blocksize = blocksize ∧ p.version = version)
    (hfs : ∀ g ∈ fs, Vacant version blocksize g) :
    ∃ ds, openSourcesFrom prev fs = .ok ds ∧ ds.length = fs.length ∧
      ∀ x ∈ ds, VacantOpen version blocksize x := by
  induction fs generalizing prev with
  | nil => exact ⟨[], rfl, rfl, fun x hx => absurd hx List.not_mem_nil⟩
  | cons g fs ih =>
      obtain ⟨hg, hrest⟩ := List.forall_mem_cons.mp hfs
      obtain ⟨d, hopen, hd⟩ := hg.opens
      have hformat : ∀ p, some d = some p → p.blocksize = blocksize ∧ p.version = version := by
        rintro p ⟨⟩
        exact ⟨hd.blocksize, hd.version⟩
      obtain ⟨ds, hsrc, hlength, hds⟩ := ih hformat hrest
      have halike : ¬ unlike prev d := by
        cases prev with
        | none => exact Bool.false_ne_true
        | some p =>
            obtain ⟨hbs, hv⟩ := hprev p rfl
            simp [unlike, hbs, hv, hd.blocksize, hd.version]
      refine ⟨d :: ds, ?_, congrArg Nat.succ hlength, List.forall_mem_cons.mpr ⟨hd, hds⟩⟩
      unfold openSourcesFrom
      rw [hopen]
      dsimp only
      rw [if_neg halike, hsrc]

/-- Images without a cluster are merged into one of any format. -/
theorem mergeImage_vacant {v v' : FmtVersion} {bs bs' : ℕ} (hbs : isValidBlocksize bs)
    (hbs' : isValidBlocksize bs') {top : File} {lower : List File}
    (hfs : ∀ f ∈ top :: lower, Vacant v bs f) :
    (mergeImage (fun _ => none) (top :: lower) (.ploop1 (formatted v' bs'))).1 = none := by
  obtain ⟨xs, hsrc, hlength, hds⟩ := @openSources_vacant v bs none _ (fun _ h => absurd h nofun) hfs
  obtain ⟨d, ds, rfl⟩ := List.exists_cons_of_length_eq_add_one hlength
  replace hsrc : openSources (top :: lower) = .ok (d :: ds) := hsrc
  obtain ⟨-, hsize, hl2, hblocksize, -⟩ := hds d List.mem_cons_self
  replace hds := fun x hx => (hds x hx).toVacantSource
  obtain ⟨e, he⟩ := @formatted_open v' bs' hbs'
  obtain ⟨-, hblocksize', hversion', hl1', -, hhead'⟩ := formatted_opened hbs' he
  have hat' := openDelta_spec he
  have hl1 : (grownHeader (2 ^ 17) e.blocksize e.version).mFirstBlockOffset.toNat /
      (grownHeader (2 ^ 17) e.blocksize e.version).mSectors.toNat = e.l1Size := by
    have hlayout := congrArg Layout.l1Size (@formatted_layout v' bs' hbs')
    rw [(formatted_blank hbs').hdr] at hlayout
    rw [hblocksize', hversion', hl1']
    exact hlayout
  obtain ⟨⟨⟩, t, hgrow, hclean⟩ := (growBase_nothing hl1 (hhead'.trans hl1'.symm) hat'.cache
    (Bool.eq_false_iff.mpr hat'.opened.clean)).exists_ok rfl
  have hfit : d.l2Size + mapOffset ≤ s2b d.blocksize / 4 := by
    have hmin := hbs.1
    have hle : 2 ^ 17 / bs ≤ 2 ^ 11 := Nat.div_le_of_le_mul (by omega)
    rw [hl2, hblocksize]
    simp only [s2b, mapOffset]
    omega
  have hbody : Triple (fun s => s = (⟨d :: ds, t⟩ : MergeState))
      (mergeBody false d.blocksize d.version d.l2Size) (fun _ _ => True) (fun _ => False) := by
    refine Triple.bind (mergeLoop_nothing hfit (hblocksize ▸ hds)) fun _ =>
      Triple.start fun s hs => ?_
    refine (onOutput_spec (finishMerge_nothing hclean) s.deltaArr).conseq ?_
      (fun _ _ _ => True.intro) fun _ h => h
    rintro _ rfl
    exact ⟨rfl, hs⟩
  obtain ⟨⟨⟩, s, hrun, -⟩ := hbody.exists_ok rfl
  simp only [mergeImage, hsrc, openOutput, he, hsize, hgrow, outcome, mergeOpened,
    MergeBase.isRaw, hrun]

/-- Empty images of any two formats are merged. -/
theorem mergeImage_formatted {v v' : FmtVersion} {bs bs' : ℕ} (hbs : isValidBlocksize bs)
    (hbs' : isValidBlocksize bs') :
    (mergeImage (fun _ => none) [formatted v bs] (.ploop1 (formatted v' bs'))).1 = none :=
  mergeImage_vacant hbs hbs' (List.forall_mem_singleton.mpr (formatted_vacant hbs))

/-! ## Which destinations -/

/-- Mixed sources are refused. A destination is not looked at: whenever its format
is another one than that of the sources there are deltas that are merged. -/
theorem refused_iff {v v' : FmtVersion} {bs bs' : ℕ} (hbs : isValidBlocksize bs)
    (hbs' : isValidBlocksize bs') :
    (∀ loadCbt fs base, Mixed fs → Refused loadCbt fs base) ∧
      ((∀ loadCbt top lower img, Stack v bs (top :: lower) → Stack v' bs' [img] →
          Mixed (top :: lower ++ [img]) → Refused loadCbt (top :: lower) (.ploop1 img)) ↔
        v' = v ∧ bs' = bs) := by
  refine ⟨fun loadCbt fs base h => refused_of_mixed loadCbt h base, fun hall => ?_, ?_⟩
  · by_contra hne
    have hmixed : Mixed ([formatted v bs] ++ [formatted v' bs']) := by
      refine ⟨formatted v bs, List.mem_append_left _ List.mem_cons_self, formatted v' bs',
        List.mem_append_right _ List.mem_cons_self, ?_⟩
      rw [formatted_layout hbs, formatted_layout hbs']
      by_contra hsame
      obtain ⟨hsize, hversion⟩ := not_or.mp hsame
      exact hne ⟨(not_not.mp hversion).symm, (not_not.mp hsize).symm⟩
    exact (hall (fun _ => none) _ [] _ (formatted_stack hbs) (formatted_stack hbs') hmixed).error
      (mergeImage_formatted hbs hbs')
  · rintro ⟨rfl, rfl⟩ loadCbt top lower img hs himg ⟨f, hf, g, hg, hne⟩
    have halike (h : File) (hmem : h ∈ top :: lower ++ [img]) :
        h.hdr.layout.blocksize = bs' ∧ h.hdr.layout.version = v' := by
      rcases List.mem_append.mp hmem with hmem | hmem
      · exact ⟨hs.blocksize h hmem, hs.version h hmem⟩
      · exact ⟨himg.blocksize h hmem, himg.version h hmem⟩
    rcases hne with hne | hne
    · exact absurd ((halike f hf).1.trans (halike g hg).1.symm) hne
    · exact absurd ((halike f hf).2.trans (halike g hg).2.symm) hne

theorem refused_iff_small : (∀ loadCbt fs base, Mixed fs → Refused loadCbt fs base) ∧
    ((∀ loadCbt top lower img, Stack .v1 64 (top :: lower) → Stack .v2 128 [img] →
        Mixed (top :: lower ++ [img]) → Refused loadCbt (top :: lower) (.ploop1 img)) ↔
      FmtVersion.v2 = .v1 ∧ 128 = 64) :=
  refused_iff (by decide) (by decide)

theorem mergeImage_not_refused : ¬ ∀ (loadCbt : File → Option DirtyBitmap) (top : File)
    (lower : List File) (img : File), Mixed (top :: lower ++ [img]) →
    Refused loadCbt (top :: lower) (.ploop1 img) := by
  intro h
  have hmixed : Mixed ([formatted .v1 64] ++ [formatted .v2 128]) := by
    refine ⟨formatted .v1 64, by simp, formatted .v2 128, by simp, .inl ?_⟩
    rw [formatted_layout (by decide), formatted_layout (by decide)]
    decide
  exact (h (fun _ => none) _ [] _ hmixed).error (mergeImage_formatted (by decide) (by decide))

end Ploop
