import Ploop.Image.MergeImage

/-!
# Offline merge is the overlay

The two results about `merge_image` without a device, and the stacks on which
it goes wrong: a base whose allocation head no longer fits an entry, and a
base that is larger than the top.
-/

namespace Ploop

open Storage Indirection

section Results

variable {version : FmtVersion} {blocksize : ℕ} {top img : File} {lower : List File}
  {base : MergeBase} {loadCbt : File → Option DirtyBitmap}

/-- Where nothing wraps, the merged image reads what the stack read. -/
theorem mergeImage_overlay {D : Disk} (hs : Stack version blocksize (top :: lower ++ base.deltas))
    (hm : Monotonic (top :: lower ++ base.deltas)) (hfit : MergeFits top lower base)
    (h : mergeImage loadCbt (top :: lower) base = (none, D)) : Merged top lower base D.file := by
  have hs' : Stack version blocksize (top :: lower) := hs.append_left
  have hm' : Monotonic (top :: lower) := (List.pairwise_append.mp hm).1
  cases base with
  | raw img => exact mergeRaw_spec hs' hm' h
  | newImage => exact mergeNew_spec hs' hm' hfit h
  | ploop1 img =>
      have himg := hs.wellFormed img (by simp [MergeBase.deltas])
      have hle : getSizeInSectors img.hdr ≤ getSizeInSectors top.hdr :=
        (List.pairwise_append.mp hm).2.2 top List.mem_cons_self img (by simp [MergeBase.deltas])
      have hkeep : ∀ clu, alignUp (getSizeInSectors top.hdr) img.hdr.layout.blocksize
          / img.hdr.layout.blocksize ≤ clu → content img clu = none := by
        intro clu hclu
        have hround := hle.trans (le_alignUp himg.header.layout.pos)
        exact content_beyond ((Nat.div_le_div_right hround).trans hclu)
      have hspec : MergedInto top lower img (mergeImage loadCbt (top :: lower) (.ploop1 img)) :=
        mergeInPlace_spec hs hkeep hfit
      rw [h] at hspec
      obtain ⟨hwf, hcontent⟩ := hspec.done rfl
      refine ⟨fun clu hclu => ?_, fun _ => hwf, fun _ hraw => absurd hraw MergeBase.noConfusion⟩
      exact (congrFun hcontent clu).trans (progress_eq_overlay hs' hm' _ hclu)

/-- In place a merge survives a power failure at any moment where nothing wraps
and the base has nothing beyond the disk of the top. -/
theorem mergeImage_crash (hs : Stack version blocksize (top :: lower ++ [img]))
    (hkeep : ∀ clu, alignUp (getSizeInSectors top.hdr) img.hdr.layout.blocksize
      / img.hdr.layout.blocksize ≤ clu → content img clu = none)
    (hfit : MergeFits top lower (.ploop1 img)) :
    MergeSurvivesCrash loadCbt (top :: lower) img := by
  intro p hp x hx
  have hspec : MergedInto top lower img (mergeImage loadCbt (top :: lower) (.ploop1 img)) :=
    mergeInPlace_spec hs hkeep hfit
  have hsafe := hspec.safe p hp x (by rwa [mergeInPlace_init])
  refine ⟨?_, ?_⟩
  · have hover := overlay_of_mask hsafe.content
    simpa [stackContent] using hover
  · obtain ⟨L, hL, hheld⟩ := hsafe
    rintro b ⟨clu, hb⟩
    rw [hheld.layout] at hb
    exact hheld.within clu b hb

end Results

/-! ## Images of one block -/

/-- An image of `n` clusters of 64 sectors with nothing in it. -/
def noBlock (version : FmtVersion) (n : ℕ) : File :=
  File.empty.pwrite ⟨0, 4 * 8192, wordBytes
    (generatePvdHeader PvdHeader.zero (n * 64) 64 version).1.toWords⟩

/-- The same with cluster `clu` in block 1, which starts with `b`. -/
def oneBlock (version : FmtVersion) (n clu : ℕ) (b : UInt8) : File :=
  ((noBlock version n).pwrite ⟨1 * (newLayout version 64 (n * 64)).cluster,
      (newLayout version 64 (n * 64)).cluster, fun i => if i = 0 then b else 0⟩).pwrite
    ⟨4 * (clu + mapOffset), 4, wordBytes fun _ => (newLayout version 64 (n * 64)).encode 1⟩

section OneBlock

variable {version : FmtVersion} {n clu : ℕ} {b : UInt8}

theorem noBlock_held (hn : n ≤ 8176) : Held (newLayout version 64 (n * 64)) {fun _ => none} ∅
    (noBlock version n) ∧ (newLayout version 64 (n * 64)).l1Size = 1 := by
  have hbs : isValidBlocksize 64 := by decide
  have hr : Representable version 64 (n * 64) := by
    unfold Representable
    cases version <;> simp only <;> omega
  have hindex : indexBytes (n * 64 / 64) 64 = 32768 := by
    simp only [indexBytes, alignUp, headerBytes, s2b]
    omega
  have hfit : IndexFits (n * 64) 64 := by
    rw [IndexFits, hindex]
    norm_num
  have hgen : (generatePvdHeader PvdHeader.zero (n * 64) 64 version).1.GeneratedFor version 64
      (n * 64) := generatePvdHeader_generatedFor hbs hr (Dvd.intro_left n rfl)
  have hblank : Blank _ 8192 1 (noBlock version n) := blank_header (by norm_num)
  obtain ⟨hwf, hcontent⟩ := hblank.wellFormed (hgen.valid hbs hfit)
  have hheld := Held.of_wellFormed hwf
  rw [hblank.hdr, hgen.layout_eq hfit, hcontent] at hheld
  refine ⟨{ hheld with within := fun c a hc => ?_ }, ?_⟩
  · have hreads : (newLayout version 64 (n * 64)).readClu (noBlock version n) = fun _ => none :=
      hheld.reads
    exact absurd ((read_eq_none.mp (congrFun hreads c)).symm.trans hc) (by simp)
  · simp only [newLayout, hindex, s2b]

theorem oneBlock_hdr : (oneBlock version n clu b).hdr =
    (generatePvdHeader PvdHeader.zero (n * 64) 64 version).1 := by
  have hblank : Blank _ 8192 1 (noBlock version n) := blank_header (by norm_num)
  unfold oneBlock
  rw [hdr_pwrite_of_ge (by simp only [headerBytes, mapOffset]; omega), hdr_pwrite_of_ge
    (by simp only [headerBytes, newLayout, Layout.cluster, s2b]; omega), hblank.hdr]

theorem oneBlock_held (hn : n ≤ 8176) (hclu : clu < n) :
    Held (newLayout version 64 (n * 64)) Set.univ {1} (oneBlock version n clu b) := by
  obtain ⟨hheld, hl1⟩ := @noBlock_held version n hn
  have hdead : ∀ x, Held (newLayout version 64 (n * 64)) {fun _ => none} ∅ x →
      ∀ c, (newLayout version 64 (n * 64)).bat x c ≠ some 1 := fun x hx c hc => hx.within c 1 hc
  have hdata := hheld.write_dead hl1.le (hdead _ hheld) fun i => if i = 0 then b else 0
  have hl2 : clu < (newLayout version 64 (n * 64)).l2Size := by
    simp only [newLayout]
    omega
  have hfit : (newLayout version 64 (n * 64)).Fits 1 := by
    unfold Layout.Fits newLayout
    cases version <;> norm_num
  have hcpos : 0 < (newLayout version 64 (n * 64)).cluster := hheld.valid.cluster_pos
  have hset := @Held.assign _ _ _ _ _ hdata clu 1 _ hl2 hl1.le hfit ?_ (hdead _ hdata) rfl
    (Set.mem_univ _)
  · unfold oneBlock
    refine hset.mono ?_
    rw [insert_empty_eq]
  · rw [Nat.lt_div_iff_mul_lt hcpos]
    have := File.end_le_size_pwrite (noBlock version n)
      (w := ⟨1 * (newLayout version 64 (n * 64)).cluster, (newLayout version 64 (n * 64)).cluster,
        fun i => if i = 0 then b else 0⟩) hcpos.ne'
    simp only at this
    omega

/-- A file may be longer than its blocks. -/
theorem WellFormed.extend {f : File} (h : WellFormed f) {m : ℕ} (hm : f.size ≤ m) :
    WellFormed (f.ftruncate m) := by
  have hbyte : (f.ftruncate m).byte = f.byte := by
    funext i
    by_cases hi : i < m
    · exact f.byte_ftruncate_of_lt hi
    · rw [(f.ftruncate m).eof i (Nat.not_lt.mp hi), f.eof i (by omega)]
  have hword : (f.ftruncate m).word = f.word := congrArg bytesWord hbyte
  have hhdr : (f.ftruncate m).hdr = f.hdr := congrArg PvdHeader.ofWords hword
  have hheld := (Held.of_wellFormed h).frame (y := f.ftruncate m) (hhdr ▸ h.header)
    (congrArg PvdHeader.layout hhdr) hm (fun s _ => congrFun hword _) fun clu b _ => by
      unfold Layout.block
      rw [hbyte]
  exact hheld.wellFormed

end OneBlock

/-! ## Where it goes wrong -/

/-- The base of `longBase_merged`: the number of the next block, times the
block size, is `2 ^ 32 + 64`. -/
def longBase : File := (oneBlock .v1 2 1 7).ftruncate (2 ^ 41 + 2 ^ 15)

def longTop : File := oneBlock .v1 2 0 9

/-- The block of the base is overwritten with that of the top. -/
theorem longBase_merged : (mergeImage (fun _ => none) [longTop] (.ploop1 longBase)).1 = none ∧
    (content (mergeImage (fun _ => none) [longTop] (.ploop1 longBase)).2.file 1).map (fun v => v 0)
      = some 9 ∧
    (overlay ([longTop].map content ++ [content longBase]) 1).map (fun v => v 0) = some 7 := by
  decide +kernel

theorem oneBlock_stack {version : FmtVersion} {n m i j : ℕ} {a b : UInt8} (hn : n ≤ 8176)
    (hm : m ≤ 8176) (hi : i < n) (hj : j < m) :
    Stack version 64 [oneBlock version n i a, oneBlock version m j b] := by
  have htop := @oneBlock_held version n i a hn hi
  have hbase := @oneBlock_held version m j b hm hj
  refine ⟨?_, ?_, ?_⟩ <;> intro f hf <;> rcases List.mem_pair.mp hf with rfl | rfl
  · exact htop.wellFormed
  · exact hbase.wellFormed
  · rw [htop.layout]
    rfl
  · rw [hbase.layout]
    rfl
  · rw [htop.layout]
    rfl
  · rw [hbase.layout]
    rfl

theorem longBase_hdr : longBase.hdr = (generatePvdHeader PvdHeader.zero 128 64 .v1).1 := by
  rw [← @oneBlock_hdr .v1 2 1 7]
  exact PvdHeader.ofWords_congr fun i hi => File.word_ftruncate_of_lt _ (by omega)

theorem longBase_stack : Stack .v1 64 [longTop, longBase] := by
  have hbase := (@oneBlock_held .v1 2 1 7 (by norm_num) (by norm_num)).wellFormed
  refine ⟨?_, ?_, ?_⟩ <;> intro f hf <;> rcases List.mem_pair.mp hf with rfl | rfl
  · exact (oneBlock_held (by norm_num) (by norm_num)).wellFormed
  · exact hbase.extend (by simp [oneBlock, noBlock, File.size_pwrite, File.empty, newLayout,
      Layout.cluster, s2b, mapOffset])
  · rw [longTop, oneBlock_hdr]
    rfl
  · rw [longBase_hdr]
    rfl
  · rw [longTop, oneBlock_hdr]
    rfl
  · rw [longBase_hdr]
    rfl

theorem mergeImage_not_overlay :
    ¬ ∀ (loadCbt : File → Option DirtyBitmap) (version : FmtVersion) (blocksize : ℕ) (top : File)
      (lower : List File) (base : MergeBase) (D : Disk),
      Stack version blocksize (top :: lower ++ base.deltas) →
      Monotonic (top :: lower ++ base.deltas) →
      mergeImage loadCbt (top :: lower) base = (none, D) → Merged top lower base D.file := by
  intro h
  obtain ⟨hok, hnine, hseven⟩ := longBase_merged
  have hsizes : getSizeInSectors longBase.hdr ≤ getSizeInSectors longTop.hdr := by
    rw [longBase_hdr, longTop, oneBlock_hdr]
  have hclu : 1 < longTop.hdr.layout.l2Size := by
    rw [longTop, oneBlock_hdr]
    decide
  have hmerged := h (fun _ => none) .v1 64 longTop [] (.ploop1 longBase) _ longBase_stack
    (List.pairwise_pair.mpr hsizes) (Prod.fst_eq_iff.mp hok)
  have hreads := hmerged.reads 1 hclu
  rw [show content _ 1 = _ from hreads] at hnine
  exact absurd (hseven.symm.trans hnine) (by decide)

/-- The disk of the top has one cluster, that of the base two. -/
theorem oneBlock_lost : (stackContent [oneBlock .v2 1 0 9, (mergeImage (fun _ => none)
      [oneBlock .v2 1 0 9] (.ploop1 (oneBlock .v2 2 1 7))).2.file] 1).isSome = false ∧
    (stackContent [oneBlock .v2 1 0 9, oneBlock .v2 2 1 7] 1).isSome = true := by
  decide +kernel

theorem mergeImage_not_crash_safe :
    ¬ ∀ (loadCbt : File → Option DirtyBitmap) (version : FmtVersion) (blocksize : ℕ) (top : File)
      (lower : List File) (img : File), Stack version blocksize (top :: lower ++ [img]) →
      MergeSurvivesCrash loadCbt (top :: lower) img := by
  intro h
  have hsurvives := h (fun _ => none) .v2 64 (oneBlock .v2 1 0 9) [] (oneBlock .v2 2 1 7)
    (oneBlock_stack (by norm_num) (by norm_num) (by norm_num) (by norm_num))
  have hend := (hsurvives _ (List.prefix_refl _)
    (mergeImage (fun _ => none) [oneBlock .v2 1 0 9] (.ploop1 (oneBlock .v2 2 1 7))).2.file (by
      rw [Disk.file, mergeInPlace_init]
      exact crashImage_view _)).1
  have hsome := congrArg Option.isSome (congrFun hend 1)
  exact absurd (oneBlock_lost.1.symm.trans (hsome.trans oneBlock_lost.2)) (by decide)

/-! ## A merge that fits -/

theorem oneBlock_run :
    (mergeImage (fun _ => none) [oneBlock .v1 2 0 9] (.ploop1 (oneBlock .v1 2 1 7))).1 = none ∧
      MergeFits (oneBlock .v1 2 0 9) [] (.ploop1 (oneBlock .v1 2 1 7)) := by
  refine ⟨by decide +kernel, by decide +kernel, ⟨by decide +kernel, fun _ => ⟨?_, fun _ => ?_⟩⟩,
    fun _ _ => ?_⟩ <;> decide +kernel

theorem oneBlock_merged : Merged (oneBlock .v1 2 0 9) [] (.ploop1 (oneBlock .v1 2 1 7))
    (mergeImage (fun _ => none) [oneBlock .v1 2 0 9] (.ploop1 (oneBlock .v1 2 1 7))).2.file :=
  mergeImage_overlay
    (oneBlock_stack (by norm_num) (by norm_num) (by norm_num) (by norm_num) : Stack .v1 64 _)
    (List.pairwise_pair.mpr (by rw [oneBlock_hdr, oneBlock_hdr])) oneBlock_run.2
    (Prod.fst_eq_iff.mp oneBlock_run.1)

theorem oneBlock_survives :
    MergeSurvivesCrash (fun _ => none) [oneBlock .v1 2 0 9] (oneBlock .v1 2 1 7) :=
  mergeImage_crash
    (oneBlock_stack (by norm_num) (by norm_num) (by norm_num) (by norm_num) : Stack .v1 64 _)
    (fun clu hclu => content_beyond (by rwa [oneBlock_hdr] at hclu ⊢)) oneBlock_run.2

end Ploop
